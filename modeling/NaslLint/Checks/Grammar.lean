import NaslLint.Check
import NaslLint.Pattern.Search

/-!
# Grammar of the prose in a script

Known slips of grammar, such as doubled words or a plural after `a`, are reported with the whole
line. Lines that are known to be right are let pass.
-/

namespace NaslLint.Checks.Grammar

open Pattern

def solid (c : Char) : Bool :=
  !Text.isBlank c

/-- A pattern and the blanks after it, or nothing. -/
def perhaps (p : Pattern) : Pattern :=
  .optional (.chain [p, .someBlanks])

def perhapsAfter (p : Pattern) : Pattern :=
  .optional (.chain [.someBlanks, p])

def vulnerabilityWord : Pattern :=
  .chain ["vulnerabilit", wordOf ["y", "ies"]]

/-- Words that are wrong when repeated. -/
def doubled : Pattern :=
  .oneOf (["with with", "and and", "this this", "for for", "as as", "a a", "of of", "to to", "an an",
    "the the", "is is", "in in", "are are", "have have", "has has", "that that"].map phrase)

/-- What may stand in front of an article at the start of a sentence. -/
def sentenceStart : Pattern :=
  .oneOf [.someBlanks, .textStart, "\"", "- "]

/-- Kinds of vulnerability, in the singular, to which something can be prone. -/
def weaknessKind : Pattern :=
  .oneOf
    ["unspecified",
     phrase "XML External Entity",
     .chain ["integer", .someBlanks, wordOf ["und", "ov"], "erflow"],
     phrase "DLL hijacking",
     .chain [.oneOf [.chain ["hardcode", .optional "d"], "default"], .someBlanks, "credential",
       .optional "s"],
     .chain [hyphened "open redirect", .optional "ion"],
     phrase "user enumeration",
     phrase "arbitrary file read",
     phrase "memory corruption",
     hyphened "use after free",
     .chain [hyphened "man in the middle", perhapsAfter "attack"],
     .chain [hyphened "cross site", .run .longest 1 none fun c => Text.isBlank c || c == '-',
       .oneOf [.chain ["scripting", perhapsAfter "(XSS)"],
         .chain [hyphened "request forgery", perhapsAfter "(CSRF)"]]],
     hyphened "denial of service",
     phrase "information disclosure",
     .chain [wordOf ["path", "directory"], .someBlanks, "traversal"],
     .chain [.optional (.chain [wordOf ["arbitrary", "remote"], .someBlanks]),
       .oneOf [.chain [wordOf ["code", "command"], .someBlanks, wordOf ["execution", "injection"]],
         phrase "file inclusion"]],
     phrase "SQL injection",
     "security",
     .chain [.optional "local ", "privilege", .run .longest 1 none fun c => Text.isBlank c || c == '-',
       wordOf ["escalation", "elevation"]],
     .chain [wordOf ["authentication", "security", "access"], .someBlanks, "bypass"],
     .chain [wordOf ["buffer", "heap"], .someBlanks, "overflow"]]

def slip : Pattern :=
  .oneOf
    [.chain ["refer", .someBlanks, perhaps "the", "Reference"],
     .chain [.someBlanks, "a", .optional "n", .someBlanks, wordOf ["multiple", "errors"]],
     .chain ["the", .someBlanks, .oneOf [.chain ["Reference", .optional "s", .someBlanks, "link"],
       phrase "multiple flaw"]],
     .chain ["multiple", .someBlanks, perhaps "unknown",
       wordOf ["vulnerability", "flaw", "error", "problem", "issue", "feature"], .someBlanks],
     .chain [.someBlanks, doubled, .someBlanks],
     .chain [vulnerabilityWord, .someBlanks, vulnerabilityWord],
     .chain [phrase "links mentioned in", perhapsAfter "the", .someBlanks, "reference"],
     .chain [.someBlanks, "a", .optional "n", perhapsAfter "remote",
       perhapsAfter (.chain [.optional "un", "authenticated"]), .someBlanks, "attackers"],
     .chain ["this", .someBlanks, .oneOf ["vulnerabilities",
       .chain [wordOf ["flaw", "error", "problem", "issue", "feature"], "s"]]],
     .chain ["these", .someBlanks, .oneOf ["vulnerability",
       .chain [wordOf ["flaw", "error", "problem", "issue", "feature"], .someBlanks]]],
     .chain [.someBlanks, phrase "or not", .optional ".", .optional "\");", .textEnd],
     .chain ["from", perhapsAfter "the", perhapsAfter "below", "mentioned", .someBlanks, "Reference",
       .optional "s", .someBlanks, "link"],
     phrase "software it fail",
     .chain ["references", .someBlanks, wordOf ["advisor", "link"]],
     .chain [phrase "The multiple", .someBlanks,
       wordOf ["vulnerabilit", "flaw", "error", "problem", "issue", "feature"]],
     .chain [wordOf ["vulnerability", "flaw", "error", "problem", "issue", "feature"], .someBlanks,
       "exist", .someBlanks],
     .chain [wordOf ["vulnerabilitie", "flaw", "error", "problem", "issue", "feature"], "s",
       .someBlanks, "exists"],
     .chain ["multiple", .someBlanks, .run .longest 1 none solid,
       .optional (.chain [perhaps "and", .run .longest 1 none solid]), .someBlanks,
       wordOf ["vulnerability", "flaw", "error", "problem", "issue", "feature"], .someBlanks],
     .chain [sentenceStart, "A", .someBlanks, .run .longest 0 none solid,
       .optional (.chain [perhaps "and", .run .longest 1 none solid, .someBlanks]),
       wordOf ["vulnerabilitie", "flaw", "error", "problem", "issue"], "s"],
     .chain [sentenceStart, "A", .optional "n", "+", wordOf ["unspecified", "multiple", "unknown"],
       .someBlanks, wordOf ["vulnerabilitie", "flaw", "error", "problem", "issue"], "s"],
     .chain ["is", .someBlanks, wordOf ["prone", "vulnerable", "affected"], .someBlanks,
       wordOf ["to", "by"], .someBlanks, weaknessKind, .someBlanks, "vulnerability"],
     .chain [.someBlanks, wordOf ["is", "are"], .someBlanks,
       wordOf ["prone", "vulnerable", "affected"], .someBlanks, "a", .optional "n", .someBlanks],
     .chain [phrase "is prone to", .someBlanks, "a", .optional "n", .someBlanks,
       .run .longest 1 none solid, .someBlanks,
       .optional (.chain [.run .longest 1 none solid, .someBlanks]), "vulnerabilities"]]

/-- A line with a slip. Of several slips that start in the line, the last one decides where the
text ends. -/
def slipLine : Pattern :=
  (Pattern.chain [.line, slip, .line]).ignoringCase

/-- Texts with which a line is right in any file. -/
def rightAnywhere : List String :=
  ["a few ", "A few ", "a multiple keyboard ", "A A S Application Access Server",
   "a Common Vulnerabilities and Exposures", "Multiple '/' Vulnerability", "an attackers choise",
   "multiple error handling vulnerabilities", "a multiple concurrency", "with WITH",
   "Harald Welte discovered that if a process issues a USB Request Block (URB)"]

/-- Texts with which a line is right in the files whose path contains another text. -/
def rightInFile : List (String × String) :=
  [("2012/gb_VMSA-2010-0007.nasl",
    "e. VMware VMnc Codec heap overflow vulnerabilities\n\n  Vulnerabilities in the"),
   ("gb_opensuse_2018_1900_1.nasl", "(Note that"),
   ("gb_sles_2021_3215_1.nasl", "with\n WITH"),
   ("gb_sles_2021_2320_1.nasl", "with WITH")]

def rightPhrases : List Pattern :=
  [.chain [.oneOf [.someBlanks, "\""], .one (among "Aa"), .someBlanks, phrase "multiple of"],
   .chain [phrase "these error", .someBlanks, wordOf ["messages", "reports", "conditions"]]]

def isRight (line : List Char) (file : String) : Bool :=
  rightAnywhere.any (fun w => Text.contains w.toList line) ||
    rightInFile.any (fun (f, w) => Text.occursIn f file && Text.contains w.toList line) ||
    rightPhrases.any fun p => p.occursIn line

end Grammar

def grammar : FileCheck where
  name := "check_grammar"
  title := "CheckGrammar"
  run s _ := s.onText fun t =>
    ((Grammar.slipLine.findAll t).filter fun m => !Grammar.isRight m.text s.file.toString).map
      fun m =>
        let shown := String.ofList m.text
        .error s!"VT/Include has the following grammar problem: {shown}"

end NaslLint.Checks
