import NaslLint.Catalogue
import NaslLint.Examination
import NaslLint.Proofs.FileTree
import NaslLint.Proofs.Pattern.Spelling
import NaslLint.Proofs.Text

/-!
# What a repair does

Three of the checks of single files repair. Each of them makes a new text out of the text of a
script and the time, and that text can be stored: it is read back as it was written.

* `FileCheck.repairOf` is the repair that a check makes of a text.
* `repair_eq_of_text` says that nothing else matters for the repair of a script.
* `repairOf_cases` lists what a repair can be, and `stored_repairOf` says that the new text can be
  stored.
-/

namespace NaslLint

open Text (Stored)

/-! ## Dates can be stored -/

theorem stored_toDigits (n : Nat) : Stored (Nat.toDigits 10 n) := by
  intro c hc
  have hdigit : c.isDigit = true := Nat.isDigit_of_mem_toDigits (by decide) (by decide) hc
  rw [Char.isDigit, Bool.and_eq_true, decide_eq_true_eq, decide_eq_true_eq] at hdigit
  have hle : c.toNat ≤ 57 := UInt32.le_iff_toNat_le.1 hdigit.2
  refine ⟨by omega, ?_⟩
  rintro rfl
  exact absurd hdigit.1 (by decide)

theorem stored_getD {names : List String} (h : ∀ n ∈ names, Stored n.toList) (i : Nat) :
    Stored (names.getD i "").toList := by
  rw [List.getD_eq_getElem?_getD]
  cases hi : names[i]? with
  | none => exact fun c hc => by simp at hc
  | some n => exact h n (List.mem_of_getElem? hi)

namespace DatePart

/-- Marks that are written as they are can be stored; so can all other parts of a date. -/
theorem stored_write {part : DatePart} (now : DateTime)
    (hmark : ∀ c, part = mark c → Stored [c]) : Stored (part.write now) := by
  have htwo (n : Nat) : Stored (twoDigits n) := by
    rw [twoDigits]
    split
    · exact Stored.append (t := ['0']) (by decide) (stored_toDigits n)
    · exact stored_toDigits n
  cases part with
  | year => exact stored_toDigits _
  | month => exact htwo _
  | monthName => exact stored_getD (by decide) _
  | monthAbbreviation => exact stored_getD (by decide) _
  | day => exact htwo _
  | hour => exact htwo _
  | minute => exact htwo _
  | second => exact htwo _
  | offset => exact (by decide : Stored "+0000".toList)
  | weekday => exact stored_getD (by decide) _
  | gap => exact (by decide : Stored [' '])
  | mark c => exact hmark c rfl

end DatePart

theorem DateFormat.stored_write {f : DateFormat} (now : DateTime)
    (hmark : ∀ c, DatePart.mark c ∈ f → Stored [c]) : Stored (f.write now) := by
  intro c hc
  obtain ⟨part, hpart, hc⟩ := List.mem_flatMap.1 hc
  exact DatePart.stored_write now (fun d hd => hmark d (hd ▸ hpart)) c hc

/-! ## The checks that repair -/

/-- What a check remarks on is found, and nothing else. -/
theorem FileCheck.findings_eq_done_nil_iff {c : FileCheck} {s : Subject} {w : Surroundings} :
    c.findings s w = .done [] ↔ c.run s w = .done [] := by
  rw [FileCheck.findings]
  cases c.run s w
  simp [Outcome.map, Outcome.done]

/-- All but three checks repair nothing. -/
theorem repair_cases {c : FileCheck} (hc : c ∈ fileChecks) :
    c = Checks.copyrightText ∨ c = Checks.illegalCharacters ∨
      c = Checks.versionAndLastModification ∨ c.repair = fun _ _ => .ok none := by
  unfold fileChecks at hc
  repeat
    rcases List.mem_cons.1 hc with rfl | hc
    · first
      | exact Or.inr (Or.inr (Or.inr rfl))
      | exact Or.inl rfl
      | exact Or.inr (Or.inl rfl)
      | exact Or.inr (Or.inr (Or.inl rfl))
  cases hc

/-- The repair that a check makes of the text of a script. -/
def FileCheck.repairOf (c : FileCheck) (now : DateTime) (t : List Char) : Option Repair :=
  (c.repair { root := default, file := default, text := .ok t }
    { tree := .empty, now }).toOption.join

section
variable {c : FileCheck} {s : Subject} {w : Surroundings} {now : DateTime} {t : List Char}
  {r : Repair}

/-- Nothing but the text and the time matters for the repair of a script. -/
theorem repair_eq_of_text (hc : c ∈ fileChecks) (hfile : s.file.isInclude = false)
    (htext : s.text = .ok t) : c.repair s w = .ok (c.repairOf w.now t) := by
  have hdefault : (default : Path).isInclude = false := by decide
  rcases repair_cases hc with rfl | rfl | rfl | hnone
  · simp only [FileCheck.repairOf, Checks.copyrightText, htext, hfile, hdefault]
    rfl
  · simp only [FileCheck.repairOf, Checks.illegalCharacters, htext, hfile, hdefault]
    rfl
  · simp only [FileCheck.repairOf, Checks.versionAndLastModification, htext, hfile, hdefault]
    rfl
  · simp only [FileCheck.repairOf, hnone]
    rfl

/-- **What is repaired.** A statement is updated, separators are taken out, or dates are renewed. -/
theorem repairOf_cases (hc : c ∈ fileChecks) (h : c.repairOf now t = some r) :
    c = Checks.copyrightText ∧ Checks.updateStatement? t = some r.text ∨
      c = Checks.illegalCharacters ∧ Checks.withoutSeparators? t = some r.text ∨
      c = Checks.versionAndLastModification ∧ Checks.renewDates? now t = some r := by
  rcases repair_cases hc with rfl | rfl | rfl | hnone
  · change (Checks.updateStatement? t).map _ = some r at h
    obtain ⟨u, hu, rfl⟩ := Option.map_eq_some_iff.1 h
    exact .inl ⟨rfl, hu⟩
  · change (Checks.withoutSeparators? t).map _ = some r at h
    obtain ⟨u, hu, rfl⟩ := Option.map_eq_some_iff.1 h
    exact .inr (.inl ⟨rfl, hu⟩)
  · exact .inr (.inr ⟨rfl, h⟩)
  · rw [FileCheck.repairOf, hnone] at h
    exact absurd h (by simp [Except.toOption])

/-! ## New texts can be stored -/

theorem stored_of_subset {u : List Char} (ht : Stored t) (h : ∀ c ∈ u, c ∈ t) : Stored u :=
  fun c hc => ht c (h c hc)

theorem stored_updateStatement? {u : List Char} (ht : Stored t)
    (h : Checks.updateStatement? t = some u) : Stored u := by
  obtain ⟨m, -, rfl⟩ := Option.map_eq_some_iff.1 h
  exact ht.replaceAll (by decide +kernel)

theorem stored_blankSeparators {u : List Char} (h : Stored u) :
    Stored (Checks.blankSeparators u) := by
  intro c hc
  obtain ⟨d, hd, rfl⟩ := List.mem_map.1 hc
  split
  · exact ⟨by decide, by decide⟩
  · exact h d hd

theorem stored_uncleanCalls (ht : Stored t) : ∀ call ∈ Checks.uncleanCalls t, Stored call.2 := by
  intro call hcall
  obtain ⟨m, hm, hclean⟩ := List.mem_filterMap.1 hcall
  obtain ⟨new, hnew, rfl⟩ := Option.map_eq_some_iff.1 hclean
  obtain ⟨n, -, hmatch⟩ := Pattern.exists_matchAt?_of_mem_findAll hm
  obtain ⟨htext, hgroup⟩ := Pattern.mem_of_mem_matchAt? hmatch
  rw [Checks.cleanCall?] at hnew
  split at hnew
  · obtain rfl := Option.some.inj hnew
    exact (stored_of_subset ht htext).replaceAll
      (stored_blankSeparators (stored_of_subset ht (hgroup "value")))
  · exact absurd hnew (by simp)

theorem stored_withoutSeparators? {u : List Char} (ht : Stored t)
    (h : Checks.withoutSeparators? t = some u) : Stored u := by
  rw [Checks.withoutSeparators?] at h
  split at h
  · exact absurd h (by simp)
  · obtain rfl := Option.some.inj h
    refine List.foldlRecOn _ _ ht fun v hv call hcall => ?_
    exact hv.replaceAll (stored_uncleanCalls ht call hcall)

theorem stored_versionCall (now : DateTime) : Stored (Checks.versionCall now) :=
  ((by decide : Stored "script_version(\"".toList).append
    (DateFormat.stored_write now (by simp [DateFormat.version]; decide))).append (by decide)

theorem stored_lastModificationTag (now : DateTime) : Stored (Checks.lastModificationTag now) :=
  ((by decide : Stored "script_tag(name:\"last_modification\", value:\"".toList).append
    (DateFormat.stored_write now (by simp [DateFormat.stamp]; decide))).append (by decide)

/-- The two calls that renewing dates finds, and the text that it makes. -/
theorem Checks.exists_of_renewDates? (h : Checks.renewDates? now t = some r) :
    ∃ version modified, Script.anyVersion.find? t = some version ∧
      Script.anyLastModification.find? t = some modified ∧
      r.text = Text.replaceAll modified.text (Checks.lastModificationTag now)
        (Text.replaceAll version.text (Checks.versionCall now) t) := by
  rw [renewDates?] at h
  obtain ⟨version, hversion, h⟩ := Option.bind_eq_some_iff.1 h
  obtain ⟨modified, hmodified, h⟩ := Option.bind_eq_some_iff.1 h
  split at h
  · exact absurd h (by simp)
  · obtain rfl := Option.some.inj h
    exact ⟨version, modified, hversion, hmodified, rfl⟩

theorem stored_renewDates? (ht : Stored t) (h : Checks.renewDates? now t = some r) :
    Stored r.text := by
  obtain ⟨version, modified, -, -, htext⟩ := Checks.exists_of_renewDates? h
  rw [htext]
  exact (ht.replaceAll (stored_versionCall now)).replaceAll (stored_lastModificationTag now)

/-- A repaired text can be stored. -/
theorem stored_repairOf (hc : c ∈ fileChecks) (ht : Stored t) (h : c.repairOf now t = some r) :
    Stored r.text := by
  rcases repairOf_cases hc h with ⟨-, hu⟩ | ⟨-, hu⟩ | ⟨-, hr⟩
  · exact stored_updateStatement? ht hu
  · exact stored_withoutSeparators? ht hu
  · exact stored_renewDates? ht hr

/-! ## One check with its repair -/

theorem text_ofTree {tree : FileTree} {root file : Path} (h : tree.readText file = .ok t) :
    (Subject.ofTree tree root file).text = .ok t := by
  rw [Subject.ofTree, h]
  rfl

variable {l : Location} {mode : Nat} {bytes : Bytes}

/-- A check that finds its file repairs it in place. -/
theorem applyRepair_eq (hc : c ∈ fileChecks) (hfile : s.file.isInclude = false)
    (htext : s.text = .ok t) (hlocate : w.tree.locate s.file = .ok l)
    (hhas : w.tree.HasFile l mode bytes) :
    c.applyRepair s w = .ok (((c.repairOf w.now t).map (·.finding s.file c.name)).toList,
      ((c.repairOf w.now t).map fun r => w.tree.rewrite l mode (Text.toLatin1 r.text)).getD
        w.tree) := by
  rw [FileCheck.applyRepair, repair_eq_of_text hc hfile htext]
  cases hr : c.repairOf w.now t with
  | none => rfl
  | some r =>
      change (do
        let tree ← (w.tree.write s.file (Text.toLatin1 r.text)).mapError Fault.access
        return ([r.finding s.file c.name], tree)) = _
      rw [hhas.write_eq hlocate]
      rfl

/-- Only what has been read is repaired. -/
theorem exists_text_of_repair (hc : c ∈ fileChecks) (h : c.repair s w = .ok (some r)) :
    ∃ t, s.text = .ok t := by
  cases htext : s.text with
  | ok t => exact ⟨t, rfl⟩
  | error f =>
      rcases repair_cases hc with rfl | rfl | rfl | hnone
      · simp only [Checks.copyrightText, htext] at h
        cases h
      · simp only [Checks.illegalCharacters, htext] at h
        split at h <;> cases h
      · simp only [Checks.versionAndLastModification, htext] at h
        cases h
      · simp [hnone] at h

/-- A repair that has something to tell has written a text that is read back. -/
theorem exists_repairOf_of_applyRepair {root file : Path} {fixes : List Finding} {tree : FileTree}
    (hc : c ∈ fileChecks) (hfile : file.isInclude = false)
    (h : c.applyRepair (.ofTree w.tree root file) w = .ok (fixes, tree)) (hne : fixes ≠ []) :
    ∃ t r, w.tree.readText file = .ok t ∧ c.repairOf w.now t = some r ∧
      tree.readText file = .ok r.text := by
  have hrepaired : ∃ r, c.repair (.ofTree w.tree root file) w = .ok (some r) := by
    rw [FileCheck.applyRepair] at h
    cases hr : c.repair (.ofTree w.tree root file) w with
    | error f =>
        rw [hr] at h
        cases h
    | ok r =>
        cases r with
        | some r => exact ⟨r, rfl⟩
        | none =>
            rw [hr] at h
            cases h
            exact absurd rfl hne
  obtain ⟨r, hr⟩ := hrepaired
  obtain ⟨t, ht⟩ := exists_text_of_repair hc hr
  have hread : w.tree.readText file = .ok t := by
    rw [Subject.ofTree] at ht
    cases hread : w.tree.readText file with
    | error e => simp [hread, Except.mapError] at ht
    | ok u =>
        rw [hread] at ht
        exact congrArg _ (Except.ok.inj ht)
  obtain ⟨l, mode, bytes, hlocate, hhas, htext⟩ := FileTree.exists_hasFile_of_readText hread
  rw [repair_eq_of_text (s := .ofTree w.tree root file) hc hfile ht] at hr
  have hrepair := Except.ok.inj hr
  rw [applyRepair_eq (s := .ofTree w.tree root file) hc hfile ht hlocate hhas, hrepair] at h
  obtain ⟨-, rfl⟩ := Prod.mk.inj (Except.ok.inj h)
  refine ⟨t, r, hread, hrepair, ?_⟩
  have hstored : Stored r.text := stored_repairOf hc (htext ▸ Text.stored_read bytes) hrepair
  exact FileTree.readText_eq_ok_iff.2 ⟨_,
    hhas.rewrite.readBytes_of_locate (hhas.locate_rewrite.trans hlocate), hstored.read_write⟩

/-- A check leaves the files alone, or writes the file that it has read. -/
theorem tree_examine (hc : c ∈ fileChecks) (fix : Bool) :
    (c.examine fix s w).2 = w.tree ∨
      (∃ t, s.text = .ok t) ∧ ∃ bytes, w.tree.write s.file bytes = .ok (c.examine fix s w).2 := by
  rw [FileCheck.examine]
  split
  · rw [FileCheck.applyRepair]
    cases hr : c.repair s w with
    | error f => exact .inl rfl
    | ok r =>
        cases r with
        | none => exact .inl rfl
        | some r =>
            cases hwrite : w.tree.write s.file (Text.toLatin1 r.text) with
            | error e => exact .inl (by simp [bind, Except.bind, Except.mapError, hwrite])
            | ok tree =>
                refine .inr ⟨exists_text_of_repair hc hr, Text.toLatin1 r.text, ?_⟩
                simp [bind, Except.bind, Except.mapError, hwrite, pure, Except.pure]
  · exact .inl rfl

theorem examine_of_applyRepair {fixes : List Finding} {tree : FileTree}
    (hrun : (c.findings s w).fault = none) (h : c.applyRepair s w = .ok (fixes, tree)) :
    c.examine true s w =
      ({ check := c.name, found := c.findings s w, repaired := some (.done fixes) }, tree) := by
  rw [FileCheck.examine]
  simp only [hrun, Option.isNone_none, Bool.and_self, if_true, h]

/-- What a check with its repair reports, and what it leaves behind. -/
theorem examine_eq (hc : c ∈ fileChecks) (hfile : s.file.isInclude = false)
    (htext : s.text = .ok t) (hlocate : w.tree.locate s.file = .ok l)
    (hhas : w.tree.HasFile l mode bytes) (hrun : (c.findings s w).fault = none) :
    c.examine true s w =
      ({ check := c.name
         found := c.findings s w
         repaired := some (.done ((c.repairOf w.now t).map (·.finding s.file c.name)).toList) },
        ((c.repairOf w.now t).map fun r => w.tree.rewrite l mode (Text.toLatin1 r.text)).getD
          w.tree) :=
  examine_of_applyRepair hrun (applyRepair_eq hc hfile htext hlocate hhas)

theorem found_examine (fix : Bool) : (c.examine fix s w).1.found = c.findings s w := by
  rw [FileCheck.examine]
  split
  · split <;> rfl
  · rfl

theorem findings_fault_of_examine {fix : Bool} (h : (c.examine fix s w).1.fault? = none) :
    (c.findings s w).fault = none := by
  rw [CheckReport.fault?, found_examine] at h
  cases hf : (c.findings s w).fault with
  | none => rfl
  | some f => simp [hf] at h

/-! ## One check after the other -/

variable {cs : List FileCheck} {fix : Bool}

/-- A check that does not fail lets the others look at the files as it has left them. -/
theorem examineUntilFault_cons (hfault : (c.examine fix s w).1.fault? = none) :
    examineUntilFault fix s (c :: cs) w =
      ((c.examine fix s w).1 ::
        (examineUntilFault fix s cs { w with tree := (c.examine fix s w).2 }).1,
        (examineUntilFault fix s cs { w with tree := (c.examine fix s w).2 }).2) := by
  rw [examineUntilFault]
  simp only [hfault]

/-- A run comes to its end if its first check does and the others do after it. -/
theorem fault_examineUntilFault_cons :
    (examineUntilFault fix s (c :: cs) w).2.1 = none ↔
      (c.examine fix s w).1.fault? = none ∧
        (examineUntilFault fix s cs { w with tree := (c.examine fix s w).2 }).2.1 = none := by
  cases hfault : (c.examine fix s w).1.fault? with
  | none => simp [examineUntilFault_cons hfault]
  | some f => simp [examineUntilFault, hfault]

end

end NaslLint
