import NaslLint.Check
import NaslLint.Date.Format
import NaslLint.Script.Tag

/-!
# Dates of a script

The creation date, and the version and date of the last modification, which are rewritten together
when one of them is malformed.
-/

namespace NaslLint.Checks

/-! ## Creation -/

/-- The characters of a text from position `i` to before position `j`. -/
def slice (i j : Nat) (t : List Char) : List Char :=
  (t.take j).drop i

/-- What is wrong with the value of a creation date, which states its day twice. -/
def creationDateFault? (value : List Char) : Option String :=
  match DateFormat.stampTime.read? (slice 0 25 value), DateFormat.stampDay.read? (slice 27 43 value) with
  | some left, some right =>
    let stated := String.ofList (slice 27 30 value)
    let actual := right.toDate.weekday
    if left.toDate ≠ right.toDate then some "The creation_date consists of two different dates."
    else if stated ≠ actual then
      some s!"Wrong day of week. Please change it from '{stated}' to '{actual}'."
    else none
  | _, _ => some "False or incorrectly formatted creation_date."

def creationDate : FileCheck where
  name := "creation_date"
  title := "CheckCreationDate"
  run s _ := s.onScript fun t =>
    if !Text.contains "creation_date".toList t then
      [.error "No creation date has been found."]
    else
      match Tag.creationDate.pattern.find? t with
      | none => [.error "False or incorrectly formatted creation_date."]
      | some m => (creationDateFault? (m.group "value")).toList.map .error

/-! ## Version and last modification -/

def versionCall (now : DateTime) : List Char :=
  "script_version(\"".toList ++ DateFormat.version.write now ++ "\");".toList

def lastModificationTag (now : DateTime) : List Char :=
  "script_tag(name:\"last_modification\", value:\"".toList ++ DateFormat.stamp.write now ++
    "\");".toList

/-- The former form of a version, which a revision control system filled in. -/
def revisionCall : Pattern :=
  Script.call "version"
    (.chain ["$Revision:", .blanks, .run .longest 1 (some 6) Text.isAsciiDigit, .blanks, " $"])

/-- The former form of a modification date, which a revision control system filled in. -/
def keywordLastModification : Pattern :=
  Script.tag "last_modification" (.chain ["$Date:", .blanks, Script.dateValue, .blanks, "$"])

/-- Whether a script states its version in a current or former form. -/
def versionWellFormed (t : List Char) : Bool :=
  Call.version.pattern.occursIn t || revisionCall.occursIn t

def lastModificationWellFormed (t : List Char) : Bool :=
  Tag.lastModification.pattern.occursIn t || keywordLastModification.occursIn t

/-- The remarks on version and last modification. Without a version nothing else is looked at. -/
def versionRemarks (t : List Char) : List Remark :=
  if !Script.anyVersion.occursIn t then [.error "VT is missing script_version();."]
  else
    (if versionWellFormed t then [] else
      [.error "VT is using a wrong script_version(); syntax."]) ++
    (if !Script.anyLastModification.occursIn t then
      [.error "VT is missing script_tag(name:\"last_modification\"."]
    else if lastModificationWellFormed t then []
    else
      [.error "VT is is using a wrong syntax for script_tag(name:\"last_modification\"."])

/-- The text with version and last modification set to a time. It is only changed if both are
stated and one of them is malformed. -/
def renewDates? (now : DateTime) (t : List Char) : Option Repair := do
  let version ← Script.anyVersion.find? t
  let modified ← Script.anyLastModification.find? t
  if versionWellFormed t && lastModificationWellFormed t then none
  let renewed := Text.replaceAll version.text (versionCall now) t
  let renewed := Text.replaceAll modified.text (lastModificationTag now) renewed
  let oldDate := String.ofList (modified.group "value")
  let newDate := String.ofList (DateFormat.stamp.write now)
  let oldVersion := String.ofList (version.group "value")
  let newVersion := String.ofList (DateFormat.version.write now)
  return {
    text := renewed
    message :=
      s!"Replaced last_modification {oldDate} with {newDate} and script_version " ++
      s!"{oldVersion} with {newVersion}." }

def versionAndLastModification : FileCheck where
  name := "check_script_version_and_last_modification_tags"
  title := "CheckScriptVersionAndLastModificationTags"
  run s _ := s.onScript versionRemarks
  repair s w := do
    let t ← s.text
    if s.file.isInclude then return none
    return renewDates? w.now t

end NaslLint.Checks
