import NaslLint.Check
import NaslLint.Script.Tag
import NaslLint.Text.Lines

/-!
# Layout and storage of a script

Encoding and line ends, tabs, blanks at the ends of lines, and the file's permissions.
-/

namespace NaslLint.Checks

open Pattern

/-! ## Encoding -/

def allowedEncodings : List String :=
  ["ascii", "latin1", "ISO-8859-1"]

def isForbidden (c : Char) : Bool :=
  '\x7f' ≤ c && c ≤ '\u009f'

def encodingRemarks (detected : Option String) (t : List Char) : List Remark :=
  (match detected with
    | some e =>
      if e != "" && !allowedEncodings.contains e then
        [.error s!"VT uses a wrong encoding. Detected encoding is {e}."]
      else []
    | none => []) ++
  ((Text.numberedLines t).filter fun (_, l) => l.any isForbidden).map fun (n, _) =>
    .errorInLine n "Found invalid character"

/-- Checks encoding and characters. The file is read once more for its encoding. -/
def encoding : FileCheck where
  name := "check_encoding"
  title := "CheckEncoding"
  run s w := s.withText fun t =>
    match w.tree.readBytes s.file with
    | .error e => .fail (.access e)
    | .ok bytes => .done (encodingRemarks (w.detectEncoding bytes) t)

/-! ## Line ends -/

/-- A call with the blanks in it apart from those in its value. -/
def spacedCall (name : String) : Pattern :=
  .chain [name, .group "w1" .blanks, "(", .group "w2" .blanks,
    .optional (.group "quote" Script.quoteChar), Script.shortLine, .optional (.again "quote"),
    .group "w3" .blanks, ")", .group "w4" .blanks, ";"]

def brokenCall (name : String) : Pattern :=
  .chain [name, "(", .group "quote" Script.quoteChar, .run .longest 0 none (except "'\"\n;"),
    .run .longest 1 none (· == '\n'), .blanks, .run .longest 0 none (except "'\"\n;"),
    .again "quote", ");"]

def callLayoutRemarks (t : List Char) (name : String) : List Remark :=
  (match (spacedCall name).find? t with
    | some m =>
      if ["w1", "w2", "w3", "w4"].any fun w => !(m.group w).isEmpty then
        [.error s!"Found whitespaces in {name}."]
      else []
    | none => []) ++
  (if (brokenCall name).occursIn t then
    [.error s!"Found a newline within the tag {name}."]
  else [])

/-- Checks line ends and the layout of the calls for name and copyright. The bytes of the file are
read once more for its line ends. -/
def newlines : FileCheck where
  name := "check_wrong_newlines"
  title := "CheckNewlines"
  run s w :=
    match w.tree.readBytes s.file with
    | .error e => .fail (.access e)
    | .ok bytes =>
      .following
        (if bytes.contains 13 then [.unsignedError "Found \\r or \\r\\n newline."] else [])
        (s.onText fun t => ["script_name", "script_copyright"].flatMap (callLayoutRemarks t))

/-! ## Tabs and blanks -/

def tabs : FileCheck where
  name := "check_tabs"
  title := "CheckTabs"
  run s _ := s.onText fun t =>
    ((Text.numberedLines t).filter fun (_, l) => l.contains '\t').map fun (n, _) =>
      .errorInLine n "VT uses tabs instead of spaces."

def trailingBlanks : Pattern :=
  .chain [.run .longest 1 none (among "\t "), .lineEnd]

/-- Reports blanks at the ends of lines, once. -/
def blanksAtLineEnds : FileCheck where
  name := "check_trailing_spaces_tabs"
  title := "CheckTrailingSpacesTabs"
  run s _ := s.onText fun t =>
    if trailingBlanks.occursIn t then
      [.error "The VT has one or more trailing spaces and/or tabs!"]
    else []

/-! ## Permissions -/

/-- The three letters for the permissions of owner, group or others. The last one tells execution
and a special bit. -/
def permissionLetters (read write execute special : Bool) (both only : Char) : List Char :=
  [if read then 'r' else '-', if write then 'w' else '-',
   if special then (if execute then both else only) else (if execute then 'x' else '-')]

def modeLetters (e : Entry) : String :=
  let bit (n : Nat) : Bool := e.mode.testBit n
  String.ofList
    ((if e.isDirectory then 'd' else '-') ::
      permissionLetters (bit 8) (bit 7) (bit 6) (bit 11) 's' 'S' ++
      permissionLetters (bit 5) (bit 4) (bit 3) (bit 10) 's' 'S' ++
      permissionLetters (bit 2) (bit 1) (bit 0) (bit 9) 't' 'T')

def filePermissions : FileCheck where
  name := "check_vt_file_permissions"
  title := "CheckVTFilePermissions"
  run s w :=
    match w.tree.at? s.file with
    | none => .fail (.access .missing)
    | some e =>
      let letters := modeLetters e
      if letters.toList.contains 'x' then
        .done [.error (s!"VT has invalid file permissions: {letters}.\n" ++
          "NASL scripts must not be executable.\n" ++
          "Typical file permissions are '644' (-rw-r--r-) and `664` (-rw-rw-r-)")]
      else .done []

end NaslLint.Checks
