import NaslLint.Check
import NaslLint.Script.Tag
import NaslLint.Text.Lines

/-!
# Words and characters in the prose of a script

Words that must not appear, links that belong elsewhere, doubled full stops, notes to oneself, and
characters that other parts of the system use as separators.
-/

namespace NaslLint.Checks

open Pattern

/-! ## Bad words -/

/-- A number right-aligned in a field of the given width. -/
def padded (width n : Nat) : String :=
  let digits := Nat.toDigits 10 n
  String.ofList (List.replicate (width - digits.length) ' ' ++ digits)

def badWords : List String :=
  ["cracker", "openvas", "OpenVAS", "4f70656e564153", "6f70656e766173"]

def badWordsExempt : List String :=
  ["gb_openvas", "gb_gsa_", "http_func.inc", "misc_func.inc", "OpenVAS_detect.nasl"]

/-- Texts with which a line may hold a bad word. -/
def badWordContexts : List String :=
  ["openvas-nasl", "openvas-smb", "openvas-scanner", "openvas-libraries", "openvas-gsa",
   "openvas-cli", "openvas-manager", "openvassd", "openvasd", "lists.wald.intevation.org",
   "lib64openvas-devel", "lib64openvas6", "libopenvas-devel", "libopenvas6", "cpe:/a:openvas",
   "OPENVAS_VERSION", "openvas.org", "get_preference", "OPENVAS_USE_LIBSSH",
   "github.com/greenbone", "Cookie: mstshash=openvas", "smb_nt.inc", "lanman",
   "OpenVAS_detect.nasl", "OpenVAS TCP Scanner", "openvas_tcp_scanner", "gb_openvas_",
   "OpenVAS Manager", "OpenVAS Administrator", "OpenVAS / Greenbone Vulnerability Manager",
   "openvas_1808149858", "evil.zip -> openvas.jsp", "url = \"/openvas.jsp\";",
   "if( \"OpenVAS RCE Test\" >< buf )", "the file \"/openvas.jsp\" was created"]

def badWordLineStarts : List String :=
  ["# OpenVAS Vulnerability Test", "# OpenVAS Include File", "  script_", "# $Id: "]

def badWordFileContexts : List (String × String) :=
  [("find_service3.nasl", "OpenVAS-")]

def hasBadWord (fileName : String) (line : List Char) : Bool :=
  badWords.any (fun w => Text.contains w.toList line) &&
    !badWordContexts.any (fun w => Text.contains w.toList line) &&
    !badWordLineStarts.any (fun w => w.toList.isPrefixOf line) &&
    !badWordFileContexts.any fun (f, w) => f == fileName && Text.contains w.toList line

def badwords : FileCheck where
  name := "check_badwords"
  title := "CheckBadwords"
  run s _ := s.onText fun t =>
    if s.isAmong badWordsExempt then []
    else
      ((Text.numberedLines t).filter fun (_, l) => hasBadWord s.file.name l).map fun (n, l) =>
        let number := padded 5 n
        let line := String.ofList l
        .errorInLine n s!"Badword in line {number}: {line}"

/-! ## Notes to oneself -/

def todoExempt : List String :=
  ["gb_openvas", "gb_gsa_", "http_func.inc", "misc_func.inc"]

def todoMark : Pattern :=
  .chain ["#", optionalChar (· == '#'), .run .longest 0 none (· == ' '),
    wordOf ["TODO", "TBD", "@todo"]]

def openTasks : FileCheck where
  name := "check_todo_tbd"
  title := "CheckTodoTbd"
  run s _ := s.onText fun t =>
    if s.isAmong todoExempt then []
    else
      ((Text.numberedLines t).filter fun (_, l) => todoMark.occursIn l).map fun (n, _) =>
        { weight := .warning, message := "VT contains #TODO/TBD/@todo keywords.", line := some n }

/-! ## Doubled full stops -/

def doubledStop : Pattern :=
  .chain [.line, ".", .blanks, ".", Script.quoteChar, Script.callEnd]

def doubledEnds : FileCheck where
  name := "check_double_end_points"
  title := "CheckDoubleEndPoints"
  run s _ := s.onScriptOnly fun t =>
    (Script.commonTags.findAll t).filterMap fun tag =>
      match doubledStop.find? tag.text with
      | none => none
      | some m =>
        if Text.contains "and much more...\");".toList m.text then none
        else
          let name := String.ofList (tag.group "name")
          let value := String.ofList (tag.group "value")
          some (.error
            s!"The script tag '{name}' is ending with two or more points: '{value}'.")

/-! ## Links -/

/-- Texts with which a line of prose may hold a link. -/
def linkContexts : List String :=
  ["The payloads try to open a connection to www.google.com",
   "The script attempts to connect to www.google.com",
   "to retrieve a web page from www.google.com",
   "Terms of use at https://www.verisign.com/rpa",
   "Subject: commonName=www.paypal.com",
   "example.com",
   "example.org",
   "www.exam",
   "sampling the resolution of a name (www.google.com)",
   "once with 'www.' and once without",
   "wget http://www.javaop.com/~ron/tmp/nc",
   "Ncat: Version 5.30BETA1 (http://nmap.org/ncat)",
   "as www.windowsupdate.com. (BZ#506016)",
   "located at http://sambarserver/session/pagecount.",
   "http://rest.modx.com",
   "ftp:// ",
   "ftp://'",
   "ftp://)",
   "ftp.c",
   "ftp.exe",
   "using special ftp://",
   "running ftp.",
   "ftp. The vulnerability",
   "'http://' protocol",
   "handle <a href='http://...'> properly",
   "Switch to git+https://",
   "wget https://compromised-domain.com/important-file",
   "the https:// scheme",
   "https://www.phishingtarget.com@evil.com",
   "distributions on ftp.proftpd.org have all been",
   "information from www.mutt.org:",
   "According to www.tcpdump.org:",
   "According to www.kde.org:",
   "From the www.info-zip.org site:",
   " (www.isg.rhul.ac.uk) for discovering this flaw and Adam Langley and",
   "Sorry about having to reissue this one -- I pulled it from ftp.gnu.org not",
   "'http://'",
   "'https://'",
   "http://internal-host$1 is still insecure",
   "http:// ",
   "https:// "]

def linkAllowed (line : List Char) : Bool :=
  linkContexts.any fun w => Text.contains w.toList line

def linkLine : Pattern :=
  .chain [.line,
    .oneOf [.chain [wordOf ["http", "ftp"], .optional "s", "://"],
      .chain [.oneOf ["www", .chain [.someBlanks, "ftp"]], "."]],
    .line]

def proseLinks (t : List Char) : List Remark :=
  (Script.commonTags.findAll t).flatMap fun tag =>
    ((linkLine.findAll (tag.group "value")).filter fun m => !linkAllowed m.text).map fun _ =>
      let call := String.ofList tag.text
      .error ("One script_tag in the VT is using a HTTP link/URL which should be moved to a " ++
        s!"separate 'script_xref(name:\"URL\", value:\"\");' tag instead: '{call}'")

/-- The references of a script to pages about its CVE entries. -/
def redundantReferences (t : List Char) : List Remark :=
  ((Call.xref.pattern.findAll t).filter fun m =>
    let ref := m.group "ref"
    Text.contains "nvd.nist.gov/vuln/detail/CVE-".toList ref ||
      Text.contains "cve.mitre.org/cgi-bin/cvename.cgi?name=CVE-".toList ref).map fun m =>
    let call := String.ofList m.text
    .error ("The following script_xref is pointing to Mitre/NVD which is already covered by the " ++
      "script_cve_id. This is a redundant info and the " ++
      s!"script_xref needs to be removed: {call}")

def linksInTags : FileCheck where
  name := "check_http_links_in_tags"
  title := "CheckHttpLinksInTags"
  run s _ := s.onScriptOnly fun t => proseLinks t ++ redundantReferences t

/-! ## Separators -/

/-- A character that is used to separate the parts of stored tags. -/
def isSeparator (c : Char) : Bool :=
  c == '|' || c == '=' || c == ';'

def blankSeparators (t : List Char) : List Char :=
  t.map fun c => if isSeparator c then ' ' else c

/-- The call with the separators taken out of its value, if there are any. Every copy of the value
in the call is changed. -/
def cleanCall? (m : Match) : Option (List Char) :=
  let value := m.group "value"
  if value.any isSeparator then some (Text.replaceAll value (blankSeparators value) m.text) else none

def uncleanCalls (t : List Char) : List (List Char × List Char) :=
  (Script.commonTags.findAll t).filterMap fun m => (cleanCall? m).map fun new => (m.text, new)

def withoutSeparators? (t : List Char) : Option (List Char) :=
  match uncleanCalls t with
  | [] => none
  | calls => some (calls.foldl (fun t (old, new) => Text.replaceAll old new t) t)

def illegalCharacters : FileCheck where
  name := "check_illegal_characters"
  title := "CheckIllegalCharacters"
  run s _ := s.onScriptOnly fun t =>
    (uncleanCalls t).map fun (old, _) =>
      let call := String.ofList old
      .warning s!"Found illegal character in {call}"
  repair s _ :=
    if s.file.isInclude then .error .nothingPrepared
    else do
      let t ← s.text
      return (withoutSeparators? t).map fun new =>
        { text := new, message := "Replaced Illegal Characters." }

end NaslLint.Checks
