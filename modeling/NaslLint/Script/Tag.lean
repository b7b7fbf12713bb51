import NaslLint.Pattern.Search
import NaslLint.Script.Category
import NaslLint.Text.Digit
import NaslLint.Text.Word

/-!
# Tags and calls of a script

A script describes itself by calls: `script_tag(name:"…", value:"…");` sets a tag,
`script_xref(name:"…", value:"…");` names a reference and calls such as `script_oid("…");` set
everything else. This module holds the patterns that find them.

* `Tag` and `Tag.pattern` for the tags of `script_tag`,
* `Call` and `Call.pattern` for the other calls,
* `commonTags` for the tags that hold prose,
* `xref` for references.
-/

namespace NaslLint

namespace Script

def quoteChar : Pattern :=
  .one (Pattern.among "'\"")

/-- Any text of at least one character, as short as possible. -/
def shortText : Pattern :=
  .run .shortest 1 none fun _ => true

def shortLine : Pattern :=
  .run .shortest 1 none Pattern.inLine

def callEnd : Pattern :=
  .chain [.blanks, ")", .blanks, ";"]

/-- A value, possibly quoted, and the end of the call that it belongs to. A value without an opening
quote keeps a closing one. -/
def valueAndEnd (quote : String) (value : Pattern) : Pattern :=
  .chain [.optional (.group quote quoteChar), .group "value" value, .optional (.again quote), callEnd]

/-- A label of a parameter, and what separates it from its value. -/
def label (name : String) : Pattern :=
  .chain [.blanks, name, .blanks, ":", .blanks]

/-- A call `script_tag(name:"…", value:"…");` with a given name, quoted, and value. -/
def tagWith (name value : Pattern) : Pattern :=
  .chain ["script_tag(", label "name", .group "quote" quoteChar, name, .again "quote", .blanks, ",",
    label "value", valueAndEnd "quote2" value]

def tag (name value : Pattern) : Pattern :=
  tagWith (.group "name" name) value

/-- A call `script_<name>("…");`. -/
def call (name value : Pattern) : Pattern :=
  .chain ["script_", .group "name" name, .blanks, "(", valueAndEnd "quote99" value]

/-- A call `script_xref(name:"…", value:"…");`. -/
def xref (type value : Pattern) : Pattern :=
  .chain ["script_xref(", label "name", .group "quote" quoteChar, .group "type" type,
    .again "quote", .blanks, ",", label "value", valueAndEnd "quote2" value]

/-- The value of a date tag: 44 characters of those that dates are made of. -/
def dateValue : Pattern :=
  .run .longest 44 (some 44) fun c =>
    c.isAlphanum || Text.isBlank c || Pattern.among ":-+,()" c

/-- A decimal with one digit before and after the point, or `10.0`. -/
def scoreValue : Pattern :=
  .oneOf ["10.0", .chain [.one Text.isAsciiDigit, ".", .one Text.isAsciiDigit]]

def metric (name values : String) : Pattern :=
  .chain [name, ":", .one (Pattern.among values)]

def vectorValue : Pattern :=
  .chain [metric "AV" "LAN", "/", metric "AC" "HML", "/", metric "Au" "NSM", "/", metric "C" "NPC",
    "/", metric "I" "NPC", "/", metric "A" "NPC"]

def commonTags : Pattern :=
  tag (.oneOf ["summary", "impact", "affected", "insight", "vuldetect", "solution"]) shortText

/-- The `last_modification` tag, whatever its value. The value takes in as much of the line as it
can. -/
def anyLastModification : Pattern :=
  tagWith "last_modification" .line

def anyVersion : Pattern :=
  .chain ["script_version(", .blanks, .group "quote" quoteChar, .group "value" .line,
    .again "quote", .blanks, ");"]

end Script

/-- The tags of `script_tag` that are looked for one by one. -/
inductive Tag where
  | affected
  | creationDate
  | cvssBase
  | cvssBaseVector
  | deprecated
  | impact
  | insight
  | lastModification
  | qod
  | qodType
  | severityVector
  | severityOrigin
  | severityDate
  | solution
  | solutionType
  | summary
  | vuldetect
deriving DecidableEq, Repr

namespace Tag

def all : List Tag :=
  [.affected, .creationDate, .cvssBase, .cvssBaseVector, .deprecated, .impact, .insight,
   .lastModification, .qod, .qodType, .severityVector, .severityOrigin, .severityDate, .solution,
   .solutionType, .summary, .vuldetect]

def name : Tag → String
  | affected => "affected"
  | creationDate => "creation_date"
  | cvssBase => "cvss_base"
  | cvssBaseVector => "cvss_base_vector"
  | deprecated => "deprecated"
  | impact => "impact"
  | insight => "insight"
  | lastModification => "last_modification"
  | qod => "qod"
  | qodType => "qod_type"
  | severityVector => "severity_vector"
  | severityOrigin => "severity_origin"
  | severityDate => "severity_date"
  | solution => "solution"
  | solutionType => "solution_type"
  | summary => "summary"
  | vuldetect => "vuldetect"

def ofName? (name : String) : Option Tag :=
  all.find? (·.name == name)

def value : Tag → Pattern
  | deprecated => "TRUE"
  | cvssBaseVector => Script.vectorValue
  | cvssBase => Script.scoreValue
  | creationDate | lastModification => Script.dateValue
  | _ => Script.shortText

def pattern (t : Tag) : Pattern :=
  Script.tag t.name t.value

end Tag

inductive Call where
  | addPreference
  | bugtraqId
  | category
  | copyright
  | cveId
  | dependencies
  | excludeKeys
  | family
  | mandatoryKeys
  | name
  | oid
  | requireKeys
  | requirePorts
  | requireUdpPorts
  | version
  | xref
deriving DecidableEq, Repr

namespace Call

def all : List Call :=
  [.addPreference, .bugtraqId, .category, .copyright, .cveId, .dependencies, .excludeKeys, .family,
   .mandatoryKeys, .name, .oid, .requireKeys, .requirePorts, .requireUdpPorts, .version, .xref]

/-- The name of a call as written in a script, after `script_`. -/
def word : Call → String
  | addPreference => "add_preference"
  | bugtraqId => "bugtraq_id"
  | category => "category"
  | copyright => "copyright"
  | cveId => "cve_id"
  | dependencies => "dependencies"
  | excludeKeys => "exclude_keys"
  | family => "family"
  | mandatoryKeys => "mandatory_keys"
  | name => "name"
  | oid => "oid"
  | requireKeys => "require_keys"
  | requirePorts => "require_ports"
  | requireUdpPorts => "require_udp_ports"
  | version => "version"
  | xref => "xref"

def ofWord? (word : String) : Option Call :=
  all.find? (·.word == word)

def portValue : Pattern :=
  .chain ["\"", .many 1 none (.group "service" (.one fun c => Text.isWord c || Text.isBlank c)),
    "\", ", .group "port" (.run .longest 1 (some 5) Text.isDigit)]

def value : Call → Pattern
  | oid => .group "oid" (.run .longest 1 none fun c => Text.isAsciiDigit c || c == '.')
  | category => .group "category" (.oneOf (Category.numbers.map fun c => c.1))
  | version =>
    .oneOf
      [.run .longest 24 (some 24) fun c => Text.isAsciiDigit c || Pattern.among "-:+T" c,
       .chain ["$Revision: ", .run .longest 1 none Text.isAsciiDigit, " $"]]
  | requirePorts | requireUdpPorts => portValue
  | xref =>
    .chain ["name:\"", .group "ref_type" (.run .longest 1 none fun c => Text.isWord c || Text.isBlank c),
      "\", value:\"", .group "ref" (.run .longest 1 none fun c => Text.isWord c || Pattern.among "/:= %._-?" c),
      "\""]
  | _ => Script.shortLine

def pattern (c : Call) : Pattern :=
  Script.call c.word c.value

end Call

end NaslLint
