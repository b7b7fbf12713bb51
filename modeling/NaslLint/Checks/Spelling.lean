import NaslLint.Check
import NaslLint.Pattern.Search
import NaslLint.Text.Digit
import NaslLint.Text.Lines

/-!
# Spelling

The spell checker is called with at most ten thousand files at a time. It prints a line for every
word that it would correct; lines that are known to be wrong are left out of the findings.
-/

namespace NaslLint.Checks.Spelling

open Pattern

def name : String :=
  "check_spelling"

/-! ## Calling the spell checker -/

def batchSize : Nat := 10000

/-- A list cut into pieces of `n + 1` elements, the last one possibly shorter. `room` counts the
elements that the current piece can still take. -/
def cut {α : Type} (n : Nat) : Nat → List α → List (List α)
  | _, [] => []
  | 0, a :: more => [a] :: cut n n more
  | room + 1, a :: more =>
    match more, cut n room more with
    | _ :: _, piece :: pieces => (a :: piece) :: pieces
    | _, pieces => [a] :: pieces

def batches (files : List Path) : List (List Path) :=
  cut (batchSize - 1) (batchSize - 1) files

/-- A word list: the one in the current directory or else the one that is provided. -/
def wordList (w : Surroundings) (file : String) : String :=
  if w.tree.exists? (.ofString file) then ((Path.ofString file).resolve w.tree.here).toString
  else w.wordLists ++ "/" ++ file

def options (w : Surroundings) : List String :=
  ["--hard-encoding-detection", "--dictionary=-",
   "--dictionary=" ++ wordList w "codespell.additions",
   "--exclude-file=" ++ wordList w "codespell.exclude",
   "--ignore-words=" ++ wordList w "codespell.ignore",
   "--disable-colors"]

def calls (w : Surroundings) (files : List Path) : List (List String) :=
  (batches files).map fun batch => options w ++ batch.map Path.toString

/-! ## Lines to leave out -/

/-- A correction as it is printed. -/
def correction (word correct : Pattern) : Pattern :=
  .chain [word, .someBlanks, "==>", .someBlanks, correct]

/-- Corrections that are wrong in lines about certain files. -/
structure Exemption where
  applies : List Char → Bool
  corrections : List Pattern

def naming (texts : List String) (line : List Char) : Bool :=
  texts.any fun w => Text.contains w.toList line

def digits (lo : Nat) (hi : Option Nat) : Pattern :=
  .run .longest lo hi Text.isDigit

def asciiNumber : Pattern :=
  .run .longest 1 none Text.isAsciiDigit

def someOfLine : Pattern :=
  .run .longest 1 none inLine

/-- Scripts about packages in which `ure` is a package. -/
def packageScript : Pattern :=
  .chain [.oneOf
      [.chain ["deb_", .optional "dla_", asciiNumber, .optional (.chain ["_", asciiNumber])],
       .chain ["gb_ubuntu_", someOfLine]],
    ".nasl"]

def kernelScript : Pattern :=
  .chain ["gb_", .oneOf ["sles", .chain [.optional "open", "suse"], "ubuntu_USN"], "_", someOfLine,
    ".nasl"]

def germanTexts : List String :=
  ["PCIDSS/", "GSHB/", "attic/PCIDSS_"]

/-- German words that the spell checker takes for misspelled English ones. -/
def germanWords : Pattern :=
  wordOf ["sie", "ist", "oder", "prozess", "manuell", "unter", "funktion", "alle", "als", "tage",
    "lokale", "uptodate", "paket", "titel", "ba", "ordner", "modul", "interaktive", "programm",
    "explizit", "normale", "applikation", "attributen", "lokal", "signatur", "modell", "klick",
    "generell"]

def exemptions : List Exemption :=
  [⟨naming ["policy_file_checksums_win.nasl"],
    [correction "nD" "and, 2nd", correction "oD" "of"]⟩,
   ⟨naming ["smtp_AV_42zip_DoS.nasl"], [correction "BA" "BY, BE"]⟩,
   ⟨naming ["bad_ssh_host_keys.inc"], [correction "ba" "by, be"]⟩,
   ⟨naming ["wmi_misc.inc"], [correction "BA" "BY, BE", correction "OD" "OF"]⟩,
   ⟨naming ["ssl_funcs.inc", "gb_ssl_tls_cert_details.nasl"],
    [correction "fpr" "for, far, fps"]⟩,
   ⟨fun _ => true, [correction "CNA" "CAN"]⟩,
   ⟨naming ["gb_huawei", "telnetserver_detect_type_nd_version.nasl"],
    [ignoringCase (correction "eSpace" "escape")]⟩,
   ⟨packageScript.occursIn, [correction "ure" "sure"]⟩,
   ⟨naming (germanTexts ++ ["ITG_Kompendium/"]),
    [ignoringCase (correction germanWords .nothing)]⟩,
   ⟨naming germanTexts, [correction (.chain ["n", .one (among "iI"), "n"]) "inn"]⟩,
   ⟨naming ["gb_exchange_server_CVE-2021-26855_active.nasl"], [correction "ist" "is"]⟩,
   ⟨kernelScript.occursIn,
    [ignoringCase (correction (wordOf ["hda", "conexant"]) (wordOf ["had", "connexant"]))]⟩,
   ⟨(Pattern.chain ["gb_mozilla_firefox_mfsa_", digits 4 (some 4), "-", digits 2 (some 4),
      "_lin.nasl"]).occursIn,
    [correction "Chancel" "Cancel"]⟩,
   ⟨naming ["deb_dla_2896.nasl"], [correction "dependant" "dependent"]⟩,
   ⟨(Pattern.chain ["mgasa-", digits 4 (some 4), "-", digits 4 (some 4), .one inLine,
      "nasl"]).occursIn,
    [ignoringCase
      (correction (wordOf ["hda", "tre", "conexant"]) (wordOf ["had", "tree", "connexant"]))]⟩,
   ⟨(Pattern.chain ["ELSA-", digits 4 (some 4), "-", digits 4 (some 5), ".nasl"]).occursIn,
    [correction "Stange" "Strange", correction "chang" "change, charge",
     correction "IST" "IS, IT, ITS, IT'S, SIT, LIST", correction "hda" "had",
     correction "Readded" "Read", ignoringCase (correction "ACI" "ACPI"),
     correction "UE" "USE, DUE"]⟩]

def isExempt (line : List Char) : Bool :=
  exemptions.any fun e => e.applies line && e.corrections.any fun p => p.occursIn line

/-! ## Findings -/

def breakdown : List Char :=
  "Traceback (most recent call last):".toList

def arrow : List Char :=
  "==>".toList

/-- The finding about a printed line: the file is what stands before its first colon. -/
def lineFinding (line : List Char) : Finding :=
  { severity := .error
    message := String.ofList line
    file := some (String.ofList (line.takeWhile (· != ':')))
    check := some name }

def breakdownFinding (report : List Char) : Finding :=
  { severity := .error, message := String.ofList report, check := some name }

/-- The findings in what one call prints. Either every line that remains is a finding or none is,
depending on whether any of them corrects something; after a breakdown that corrects nothing, the
whole report is a finding once for each of its lines. -/
def reportFindings (report : List Char) : List Finding :=
  if Text.contains breakdown report then
    (Text.lines report).map fun line =>
      if Text.contains arrow report then lineFinding line else breakdownFinding report
  else
    let kept := (Text.lines report).filter fun line => !isExempt line
    if kept.any (Text.contains arrow) then kept.map lineFinding else []

end Spelling

def spelling : FeedCheck where
  name := Spelling.name
  title := "CheckSpelling"
  run feed w :=
    .done ((Spelling.calls w feed.files).flatMap fun call => Spelling.reportFindings (w.spell call))

end NaslLint.Checks
