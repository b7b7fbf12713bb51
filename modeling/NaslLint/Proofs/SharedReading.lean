import NaslLint.Proofs.LostUpdate

/-!
# Repairs that share one reading

All checks of a file share one reading of its text. Of several repairs each is made of that text,
and the file is left with the last of them. When every check reads the file for itself, each repair
is made of the text that the one before it has left.

* `repairsOf` and `repairsInTurn` are the repairs of the two ways of working.
* `examineInTurn` is the second way of working.
-/

namespace NaslLint

def CheckReport.fixes (r : CheckReport) : List Finding :=
  (r.repaired.map (·.results)).getD []

/-- Runs checks on a file one after the other until one fails, each with a reading of its own, and
repairs the file. -/
def examineInTurn (root file : Path) :
    List FileCheck → Surroundings → List CheckReport × Option Fault × FileTree
  | [], w => ([], none, w.tree)
  | c :: more, w =>
    let (report, tree) := c.examine true (.ofTree w.tree root file) w
    match report.fault? with
    | some f => ([], some f, tree)
    | none =>
      let (reports, fault, tree) := examineInTurn root file more { w with tree }
      (report :: reports, fault, tree)

def repairsOf (now : DateTime) (cs : List FileCheck) (t : List Char) : List Repair :=
  cs.filterMap (·.repairOf now t)

/-- The repairs that checks make of a text one after the other. -/
def repairsInTurn (now : DateTime) : List FileCheck → List Char → List Repair
  | [], _ => []
  | c :: cs, t =>
    match c.repairOf now t with
    | none => repairsInTurn now cs t
    | some r => r :: repairsInTurn now cs r.text

def lastText (rs : List Repair) (t : List Char) : List Char :=
  (rs.getLast?.map (·.text)).getD t

def lastTree (rs : List Repair) (tree : FileTree) (l : Location) (mode : Nat) : FileTree :=
  (rs.getLast?.map fun r => tree.rewrite l mode (Text.toLatin1 r.text)).getD tree

theorem lastText_append {rs rs' : List Repair} (h : rs' ≠ []) (t : List Char) :
    lastText (rs ++ rs') t = lastText rs' t := by
  rw [lastText, lastText, List.getLast?_append_of_ne_nil _ h]

theorem lastTree_cons (r : Repair) (rs : List Repair) (tree : FileTree) (l : Location)
    (mode : Nat) :
    lastTree (r :: rs) tree l mode =
      lastTree rs (tree.rewrite l mode (Text.toLatin1 r.text)) l mode := by
  rw [lastTree, lastTree, List.getLast?_cons]
  cases rs.getLast? with
  | none => rfl
  | some r' =>
      show tree.rewrite l mode _ = (tree.rewrite l mode _).rewrite l mode _
      rw [FileTree.rewrite_rewrite]
      rfl

section
variable {cs : List FileCheck} {c : FileCheck} {s : Subject} {w : Surroundings} {root file : Path}
  {now : DateTime} {t : List Char} {l : Location} {mode : Nat} {bytes : Bytes}

theorem repairsOf_cons (c : FileCheck) (cs : List FileCheck) :
    repairsOf now (c :: cs) t = (c.repairOf now t).toList ++ repairsOf now cs t := by
  rw [repairsOf, List.filterMap_cons]
  cases c.repairOf now t <;> rfl

theorem repairsOf_append (cs more : List FileCheck) :
    repairsOf now (cs ++ more) t = repairsOf now cs t ++ repairsOf now more t :=
  List.filterMap_append

/-- A repair that another one follows leaves no trace. -/
theorem lastText_repairsOf_of_followed {before after : List FileCheck}
    (h : repairsOf now after t ≠ []) :
    lastText (repairsOf now (before ++ c :: after) t) t =
      lastText (repairsOf now (before ++ after) t) t := by
  have hfollowed : (c.repairOf now t).toList ++ repairsOf now after t ≠ [] := by simp [h]
  rw [repairsOf_append, repairsOf_append, repairsOf_cons, lastText_append hfollowed,
    lastText_append h, lastText_append h]

/-- An update of the copyright statement that another repair follows is lost: the statement is as
outdated as it was. -/
theorem occursIn_of_followed {before after : List FileCheck}
    (hafter : ∀ c ∈ after, c ∈ fileChecks ∧ c ≠ Checks.copyrightText)
    (hstatement : Checks.outdatedStatement.occursIn t = true) (h : repairsOf now after t ≠ []) :
    Checks.outdatedStatement.occursIn
      (lastText (repairsOf now (before ++ Checks.copyrightText :: after) t) t) = true := by
  have hfollowed : (Checks.copyrightText.repairOf now t).toList ++ repairsOf now after t ≠ [] := by
    simp [h]
  rw [repairsOf_append, repairsOf_cons, lastText_append hfollowed, lastText_append h, lastText]
  rw [Checks.occursIn_outdatedStatement_iff] at hstatement ⊢
  cases hlast : (repairsOf now after t).getLast? with
  | none => exact absurd (List.getLast?_eq_none_iff.1 hlast) h
  | some r =>
      obtain ⟨c, hc, hr⟩ := List.mem_filterMap.1 (List.mem_of_getLast? hlast)
      exact hstatement.repairOf (hafter c hc).1 (hafter c hc).2 hr

/-- The first repair is the same in both ways of working. -/
theorem head?_repairsInTurn : (repairsInTurn now cs t).head? = (repairsOf now cs t).head? := by
  induction cs with
  | nil => rfl
  | cons c cs ih =>
      rw [repairsInTurn, repairsOf_cons]
      cases c.repairOf now t with
      | none => exact ih
      | some r => rfl

theorem examineInTurn_cons {more : List FileCheck}
    (h : (examineInTurn root file (c :: more) w).2.1 = none) :
    (c.examine true (.ofTree w.tree root file) w).1.fault? = none ∧
      (examineInTurn root file more
        { w with tree := (c.examine true (.ofTree w.tree root file) w).2 }).2.1 = none ∧
      (examineInTurn root file (c :: more) w).2.2 = (examineInTurn root file more
        { w with tree := (c.examine true (.ofTree w.tree root file) w).2 }).2.2 := by
  rw [examineInTurn] at h ⊢
  cases hfault : (c.examine true (.ofTree w.tree root file) w).1.fault? with
  | none =>
      simp only [hfault] at h ⊢
      simpa using h
  | some f => simp [hfault] at h

/-- **A shared reading.** Each repair is made of the text first read, and the last one remains. -/
theorem run_of_sharedReading (hcs : ∀ c ∈ cs, c ∈ fileChecks) (hfile : s.file.isInclude = false)
    (htext : s.text = .ok t) (hlocate : w.tree.locate s.file = .ok l)
    (hhas : w.tree.HasFile l mode bytes) (hok : (examineUntilFault true s cs w).2.1 = none) :
    (examineUntilFault true s cs w).2.2 = lastTree (repairsOf w.now cs t) w.tree l mode ∧
      ((examineUntilFault true s cs w).1.flatMap CheckReport.fixes).map (·.message) =
        (repairsOf w.now cs t).map (·.message) := by
  induction cs generalizing w bytes with
  | nil => exact ⟨rfl, rfl⟩
  | cons c cs ih =>
      obtain ⟨hc, hcs⟩ := List.forall_mem_cons.1 hcs
      obtain ⟨hfault, hrest⟩ := fault_examineUntilFault_cons.1 hok
      have hexamine := examine_eq hc hfile htext hlocate hhas (findings_fault_of_examine hfault)
      rw [examineUntilFault_cons hfault]
      rw [hexamine] at hrest ⊢
      cases hr : c.repairOf w.now t with
      | none =>
          rw [hr] at hrest
          obtain ⟨htree', hfixes⟩ := ih hcs hlocate hhas hrest
          rw [repairsOf_cons, hr]
          exact ⟨htree', hfixes⟩
      | some r =>
          -- the file is there after the repair, but the text is still the one first read
          rw [hr] at hrest
          have hlocate' : (w.tree.rewrite l mode (Text.toLatin1 r.text)).locate s.file = .ok l := by
            rw [hhas.locate_rewrite, hlocate]
          obtain ⟨htree', hfixes⟩ := ih hcs hlocate' hhas.rewrite hrest
          rw [repairsOf_cons, hr]
          refine ⟨htree'.trans (lastTree_cons r _ _ _ _).symm, ?_⟩
          exact congrArg (r.message :: ·) hfixes

/-- **Readings of their own.** Each repair is made of the text that the one before it has left. -/
theorem tree_of_ownReadings (hcs : ∀ c ∈ cs, c ∈ fileChecks) (hfile : file.isInclude = false)
    (hlocate : w.tree.locate file = .ok l) (hhas : w.tree.HasFile l mode bytes)
    (ht : t = Text.unifyNewlines (Text.ofLatin1 bytes))
    (hok : (examineInTurn root file cs w).2.1 = none) :
    (examineInTurn root file cs w).2.2 = lastTree (repairsInTurn w.now cs t) w.tree l mode := by
  induction cs generalizing w bytes t with
  | nil => rfl
  | cons c cs ih =>
      obtain ⟨hc, hcs⟩ := List.forall_mem_cons.1 hcs
      obtain ⟨hfault, hrest, htree⟩ := examineInTurn_cons hok
      have htext : (Subject.ofTree w.tree root file).text = .ok t := by
        rw [Subject.ofTree, FileTree.readText, hhas.readBytes_of_locate hlocate, ht]
        rfl
      have hexamine := examine_eq (s := .ofTree w.tree root file) hc hfile htext hlocate hhas
        (findings_fault_of_examine hfault)
      rw [htree]
      rw [hexamine] at hrest ⊢
      rw [repairsInTurn]
      cases hr : c.repairOf w.now t with
      | none =>
          rw [hr] at hrest
          exact ih hcs hlocate hhas ht hrest
      | some r =>
          rw [hr] at hrest
          have hlocate' : (w.tree.rewrite l mode (Text.toLatin1 r.text)).locate file = .ok l := by
            rw [hhas.locate_rewrite, hlocate]
          -- the next check reads what has just been written
          have hstored : Text.Stored r.text :=
            stored_repairOf hc (ht ▸ Text.stored_read bytes) hr
          have htree' := ih hcs hlocate' hhas.rewrite hstored.read_write.symm hrest
          exact htree'.trans (lastTree_cons r _ _ _ _).symm

/-! ## Both ways of working -/

theorem stored_repairsOf (now : DateTime) (hcs : ∀ c ∈ cs, c ∈ fileChecks) (ht : Text.Stored t) :
    ∀ r ∈ repairsOf now cs t, Text.Stored r.text := by
  intro r hr
  obtain ⟨c, hc, hrepair⟩ := List.mem_filterMap.1 hr
  exact stored_repairOf (hcs c hc) ht hrepair

theorem stored_repairsInTurn (now : DateTime) (hcs : ∀ c ∈ cs, c ∈ fileChecks)
    (ht : Text.Stored t) : ∀ r ∈ repairsInTurn now cs t, Text.Stored r.text := by
  induction cs generalizing t with
  | nil => exact fun r hr => absurd hr List.not_mem_nil
  | cons c cs ih =>
      obtain ⟨hc, hcs⟩ := List.forall_mem_cons.1 hcs
      rw [repairsInTurn]
      cases hr : c.repairOf now t with
      | none => exact ih hcs ht
      | some r =>
          have hstored := stored_repairOf hc ht hr
          exact List.forall_mem_cons.2 ⟨hstored, ih hcs hstored⟩

def lastBytes (rs : List Repair) (bytes : Bytes) : Bytes :=
  (rs.getLast?.map fun r => Text.toLatin1 r.text).getD bytes

theorem readBytes_lastTree {rs : List Repair} {tree : FileTree} (hlocate : tree.locate file = .ok l)
    (hhas : tree.HasFile l mode bytes) :
    (lastTree rs tree l mode).readBytes file = .ok (lastBytes rs bytes) := by
  rw [lastTree, lastBytes]
  cases rs.getLast? with
  | none => exact hhas.readBytes_of_locate hlocate
  | some r => exact hhas.rewrite.readBytes_of_locate (hhas.locate_rewrite.trans hlocate)

theorem read_lastBytes {rs : List Repair} (hrs : ∀ r ∈ rs, Text.Stored r.text) :
    Text.unifyNewlines (Text.ofLatin1 (lastBytes rs bytes)) =
      lastText rs (Text.unifyNewlines (Text.ofLatin1 bytes)) := by
  rw [lastBytes, lastText]
  cases hr : rs.getLast? with
  | none => rfl
  | some r => exact (hrs r (List.mem_of_getLast? hr)).read_write

theorem readText_lastTree {rs : List Repair} {tree : FileTree} (hlocate : tree.locate file = .ok l)
    (hhas : tree.HasFile l mode bytes) (hrs : ∀ r ∈ rs, Text.Stored r.text) :
    (lastTree rs tree l mode).readText file =
      .ok (lastText rs (Text.unifyNewlines (Text.ofLatin1 bytes))) := by
  rw [FileTree.readText, readBytes_lastTree hlocate hhas, ← read_lastBytes hrs]
  rfl

/-- Repairs that begin alike leave the same bytes if and only if they leave the same text. -/
theorem lastBytes_eq_iff {rs rs' : List Repair} (hrs : ∀ r ∈ rs, Text.Stored r.text)
    (hrs' : ∀ r ∈ rs', Text.Stored r.text) (hhead : rs.head? = rs'.head?) :
    lastBytes rs bytes = lastBytes rs' bytes ↔ lastText rs t = lastText rs' t := by
  have hlast : rs.getLast? = none ↔ rs'.getLast? = none := by
    rw [List.getLast?_eq_none_iff, List.getLast?_eq_none_iff, ← List.head?_eq_none_iff, hhead,
      List.head?_eq_none_iff]
  rw [lastBytes, lastBytes, lastText, lastText]
  cases hr : rs.getLast? with
  | none => simp [hlast.1 hr]
  | some r =>
      cases hr' : rs'.getLast? with
      | none => simp [hlast.2 hr'] at hr
      | some r' =>
          exact Text.toLatin1_inj (hrs r (List.mem_of_getLast? hr))
            (hrs' r' (List.mem_of_getLast? hr'))

/-- Repairs that begin alike and are not more than one leave the same text. -/
theorem lastText_eq_of_length_le_one {rs rs' : List Repair} (hhead : rs.head? = rs'.head?)
    (hlen : rs.length ≤ 1) (hlen' : rs'.length ≤ 1) (t : List Char) :
    lastText rs t = lastText rs' t := by
  have hlast {rs : List Repair} (h : rs.length ≤ 1) : rs.getLast? = rs.head? := by
    rcases rs with _ | ⟨r, _ | ⟨r', rs⟩⟩
    · rfl
    · rfl
    · simp at h
  rw [lastText, lastText, hlast hlen, hlast hlen', hhead]

/-- **Repairs that share one reading.** A run that reads the file once reports every repair of that
one text and leaves the last of them: a repair that another one follows might as well not have been
made, and a copyright statement updated by it is as outdated as before. A run in which every check
reads the file leaves all repairs, one made on top of the other. The two leave the same file exactly
if these texts are the same, as they are when neither run repairs twice. -/
theorem repairs_of_sharedReading (hcs : ∀ c ∈ cs, c ∈ fileChecks)
    (hfile : file.isInclude = false) (hread : w.tree.readText file = .ok t)
    (hshared : (examineUntilFault true (.ofTree w.tree root file) cs w).2.1 = none)
    (hturn : (examineInTurn root file cs w).2.1 = none) :
    (examineUntilFault true (.ofTree w.tree root file) cs w).2.2.readText file =
        .ok (lastText (repairsOf w.now cs t) t) ∧
      ((examineUntilFault true (.ofTree w.tree root file) cs w).1.flatMap CheckReport.fixes).map
        (·.message) = (repairsOf w.now cs t).map (·.message) ∧
      (∀ before c after, cs = before ++ c :: after → repairsOf w.now after t ≠ [] →
        lastText (repairsOf w.now cs t) t = lastText (repairsOf w.now (before ++ after) t) t) ∧
      (∀ before after, cs = before ++ Checks.copyrightText :: after →
        Checks.copyrightText ∉ after → Checks.outdatedStatement.occursIn t = true →
        repairsOf w.now after t ≠ [] →
        Checks.outdatedStatement.occursIn (lastText (repairsOf w.now cs t) t) = true) ∧
      (examineInTurn root file cs w).2.2.readText file =
        .ok (lastText (repairsInTurn w.now cs t) t) ∧
      ((examineUntilFault true (.ofTree w.tree root file) cs w).2.2.readBytes file =
          (examineInTurn root file cs w).2.2.readBytes file ↔
        lastText (repairsOf w.now cs t) t = lastText (repairsInTurn w.now cs t) t) ∧
      ((repairsOf w.now cs t).length ≤ 1 → (repairsInTurn w.now cs t).length ≤ 1 →
        lastText (repairsOf w.now cs t) t = lastText (repairsInTurn w.now cs t) t) := by
  obtain ⟨l, mode, bytes, hlocate, hhas, rfl⟩ := FileTree.exists_hasFile_of_readText hread
  obtain ⟨htree, hfixes⟩ := run_of_sharedReading (s := .ofTree w.tree root file) hcs hfile
    (text_ofTree hread) hlocate hhas hshared
  have htree' := tree_of_ownReadings hcs hfile hlocate hhas rfl hturn
  have hstored := stored_repairsOf w.now hcs (Text.stored_read bytes)
  have hstored' := stored_repairsInTurn w.now hcs (Text.stored_read bytes)
  rw [htree, htree', readText_lastTree hlocate hhas hstored,
    readText_lastTree hlocate hhas hstored', readBytes_lastTree hlocate hhas,
    readBytes_lastTree hlocate hhas]
  refine ⟨rfl, hfixes, ?_, ?_, rfl, ?_, ?_⟩
  · rintro before c after rfl hfollowed
    exact lastText_repairsOf_of_followed hfollowed
  · rintro before after rfl hnot hstatement hfollowed
    refine occursIn_of_followed (fun c hc => ⟨hcs c (by simp [hc]), ?_⟩) hstatement hfollowed
    rintro rfl
    exact hnot hc
  · rw [Except.ok.injEq]
    exact lastBytes_eq_iff hstored hstored' head?_repairsInTurn.symm
  · exact fun hlen hlen' => lastText_eq_of_length_le_one head?_repairsInTurn.symm hlen hlen' _

end

/-- A script with an outdated statement and a separator in its summary. -/
def twiceRepairable : List Char :=
  "# Text descriptions are largely excerpted from the referenced\n".toList ++
  "# advisory, and are Copyright (c) the respective author(s)\n".toList ++
  "script_tag(name:\"summary\", value:\"a=b\");\n".toList

def withTwiceRepairable : Surroundings :=
  { tree := { entries := [(["a.nasl"], .file 0o644 (Text.toLatin1 twiceRepairable))] }, now := default }

theorem runs_of_twiceRepairable :
    let cs := [Checks.copyrightText, Checks.illegalCharacters]
    let shared := examineUntilFault true
      (.ofTree withTwiceRepairable.tree ⟨"/", []⟩ ⟨"/", ["a.nasl"]⟩) cs withTwiceRepairable
    let inTurn := examineInTurn ⟨"/", []⟩ ⟨"/", ["a.nasl"]⟩ cs withTwiceRepairable
    shared.2.1 = none ∧ inTurn.2.1 = none ∧
      (shared.2.2.readBytes ⟨"/", ["a.nasl"]⟩).toOption ≠
        (inTurn.2.2.readBytes ⟨"/", ["a.nasl"]⟩).toOption := by
  decide +kernel

/-- With one reading the separator goes and the statement stays; the run tells of both repairs. -/
theorem repairs_of_twiceRepairable :
    let shared := examineUntilFault true
      (.ofTree withTwiceRepairable.tree ⟨"/", []⟩ ⟨"/", ["a.nasl"]⟩)
      [Checks.copyrightText, Checks.illegalCharacters] withTwiceRepairable
    (shared.1.flatMap CheckReport.fixes).length = 2 ∧
      ∃ t, shared.2.2.readText ⟨"/", ["a.nasl"]⟩ = .ok t ∧
        Checks.outdatedStatement.occursIn t = true := by
  have hcs : ∀ c ∈ [Checks.copyrightText, Checks.illegalCharacters], c ∈ fileChecks := by
    simp [fileChecks]
  have hstored : Text.Stored twiceRepairable := by decide +kernel
  have hread : withTwiceRepairable.tree.readText ⟨"/", ["a.nasl"]⟩ = .ok twiceRepairable :=
    FileTree.readText_eq_ok_iff.2 ⟨Text.toLatin1 twiceRepairable, rfl, hstored.read_write⟩
  obtain ⟨hshared, hturn, -⟩ := runs_of_twiceRepairable
  obtain ⟨htext, hfixes, -, hlost, -⟩ :=
    repairs_of_sharedReading hcs (by decide) hread hshared hturn
  obtain ⟨hlength, hstatement, hfollowed⟩ :
      (repairsOf withTwiceRepairable.now [Checks.copyrightText, Checks.illegalCharacters]
        twiceRepairable).length = 2 ∧
      Checks.outdatedStatement.occursIn twiceRepairable = true ∧
      repairsOf withTwiceRepairable.now [Checks.illegalCharacters] twiceRepairable ≠ [] := by
    decide +kernel
  refine ⟨?_, _, htext, hlost [] [Checks.illegalCharacters] rfl ?_ hstatement hfollowed⟩
  · rw [← List.length_map, hfixes, List.length_map, hlength]
  · rw [List.mem_singleton]
    exact fun h => absurd (congrArg FileCheck.name h) (by decide)

/-- The two ways of working leave different files. -/
theorem sharedReading_loses_repair :
    let cs := [Checks.copyrightText, Checks.illegalCharacters]
    let shared := examineUntilFault true
      (.ofTree withTwiceRepairable.tree ⟨"/", []⟩ ⟨"/", ["a.nasl"]⟩) cs withTwiceRepairable
    let inTurn := examineInTurn ⟨"/", []⟩ ⟨"/", ["a.nasl"]⟩ cs withTwiceRepairable
    shared.2.1 = none ∧ inTurn.2.1 = none ∧
      shared.2.2.readBytes ⟨"/", ["a.nasl"]⟩ ≠ inTurn.2.2.readBytes ⟨"/", ["a.nasl"]⟩ := by
  obtain ⟨hshared, hturn, hbytes⟩ := runs_of_twiceRepairable
  exact ⟨hshared, hturn, fun h => hbytes (congrArg Except.toOption h)⟩

end NaslLint
