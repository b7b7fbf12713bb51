import NaslLint.Proofs.Rereading

/-!
# Complaints of a run that repairs

A run that repairs reports fixes beside the complaints of its checks. `entries_after_repairs_iff`
compares it with a run without repairs check by check: each has to find the same in the files as the
repairs before it have left them. Which repairs can come before a check follows from the order of
the checks.
-/

namespace NaslLint

open Checks

/-! ## The order of the checks -/

/-- The place of a check among all checks of files. -/
def FileCheck.rank (c : FileCheck) : Nat :=
  (fileChecks.map (·.name)).idxOf c.name

theorem nodup_names_fileChecks : (fileChecks.map (·.name)).Nodup := by
  decide +kernel

theorem pairwise_rank : fileChecks.Pairwise fun c c' => c.rank < c'.rank := by
  have hnames : (fileChecks.map (·.name)).Pairwise fun a b =>
      (fileChecks.map (·.name)).idxOf a < (fileChecks.map (·.name)).idxOf b := by
    refine List.pairwise_iff_getElem.2 fun i j hi hj hij => ?_
    rw [nodup_names_fileChecks.idxOf_getElem i hi, nodup_names_fileChecks.idxOf_getElem j hj]
    exact hij
  rw [List.pairwise_map] at hnames
  exact hnames

/-- The checks that repair, among those that read files again. -/
theorem sublist_fileChecks : [copyrightText, dependencyOrder, dependencyUse, encoding,
    illegalCharacters, newlines, versionAndLastModification].Sublist fileChecks := by
  unfold fileChecks
  repeat
    first
    | exact List.nil_sublist _
    | with_reducible apply List.Sublist.cons_cons
    | with_reducible apply List.Sublist.cons

theorem rank_order :
    dependencyOrder.rank < encoding.rank ∧ dependencyUse.rank < encoding.rank ∧
      copyrightText.rank < encoding.rank ∧ encoding.rank < illegalCharacters.rank ∧
      illegalCharacters.rank < newlines.rank ∧
      newlines.rank < versionAndLastModification.rank := by
  have hpairwise := pairwise_rank.sublist sublist_fileChecks
  simp only [List.pairwise_cons, List.forall_mem_cons] at hpairwise
  omega

section
variable {cs before after : List FileCheck} {c d : FileCheck}

theorem nodup_names (hcs : cs.Sublist fileChecks) : (cs.map (·.name)).Nodup :=
  nodup_names_fileChecks.sublist (hcs.map _)

/-- Of a selection, those checks run before another one that stand before it in the catalogue. -/
theorem mem_before_iff (hcs : (before ++ c :: after).Sublist fileChecks) :
    d ∈ before ↔ d ∈ before ++ c :: after ∧ d.rank < c.rank := by
  obtain ⟨-, hafter, hbefore⟩ := List.pairwise_append.1 (pairwise_rank.sublist hcs)
  constructor
  · exact fun hd => ⟨List.mem_append_left _ hd, hbefore d hd c List.mem_cons_self⟩
  · rintro ⟨hd, hlt⟩
    rcases List.mem_append.1 hd with hd | hd
    · exact hd
    · rcases List.mem_cons.1 hd with rfl | hd
      · exact absurd hlt (Nat.lt_irrefl _)
      · exact absurd ((List.pairwise_cons.1 hafter).1 d hd) (Nat.lt_asymm hlt)

end

/-! ## Both runs side by side -/

section
variable {c : FileCheck} {cs : List FileCheck} {s : Subject} {w : Surroundings}

theorem check_examine (fix : Bool) : (c.examine fix s w).1.check = c.name := by
  rw [FileCheck.examine]
  split
  · split <;> rfl
  · rfl

theorem checks_examineUntilFault {fix : Bool} (hok : (examineUntilFault fix s cs w).2.1 = none) :
    (examineUntilFault fix s cs w).1.map (·.check) = cs.map (·.name) := by
  induction cs generalizing w with
  | nil => rfl
  | cons c cs ih =>
      obtain ⟨hfault, hrest⟩ := fault_examineUntilFault_cons.1 hok
      rw [examineUntilFault_cons hfault, List.map_cons, List.map_cons, check_examine, ih hrest]

def Finding.isComplaint (f : Finding) : Bool :=
  f.severity ≠ .fix

theorem isComplaint_findings : ∀ f ∈ (c.findings s w).results, f.isComplaint = true := by
  intro f hf
  obtain ⟨remark, -, rfl⟩ := List.mem_map.1 hf
  obtain ⟨weight, message, line, signed⟩ := remark
  cases weight <;> rfl

theorem isComplaint_of_applyRepair {fixes : List Finding} {tree : FileTree}
    (h : c.applyRepair s w = .ok (fixes, tree)) : ∀ f ∈ fixes, f.isComplaint = false := by
  rw [FileCheck.applyRepair] at h
  cases hr : c.repair s w with
  | error f => simp [hr, bind, Except.bind] at h
  | ok repair =>
      cases repair with
      | none =>
          simp only [hr, bind, Except.bind, pure, Except.pure, Except.ok.injEq, Prod.mk.injEq] at h
          simp [← h.1]
      | some r =>
          cases hwrite : w.tree.write s.file (Text.toLatin1 r.text) with
          | error e => simp [hr, bind, Except.bind, Except.mapError, hwrite] at h
          | ok tree' =>
              simp only [hr, bind, Except.bind, Except.mapError, hwrite, pure, Except.pure,
                Except.ok.injEq, Prod.mk.injEq] at h
              simp [← h.1, Finding.isComplaint, Repair.finding]

/-- The weights of findings tell repairs from what a check has found. -/
theorem isComplaint_examine (fix : Bool) :
    (∀ f ∈ (c.examine fix s w).1.found.results, f.isComplaint = true) ∧
      ∀ f ∈ (c.examine fix s w).1.fixes, f.isComplaint = false := by
  rw [found_examine]
  refine ⟨isComplaint_findings, fun f hf => ?_⟩
  rw [FileCheck.examine] at hf
  split at hf
  · cases hrepair : c.applyRepair s w with
    | error e =>
        simp only [hrepair] at hf
        cases hf
    | ok done =>
        simp only [hrepair] at hf
        exact isComplaint_of_applyRepair hrepair f hf
  · cases hf

def CheckReport.entry (r : Results) (report : CheckReport) : String × List Finding :=
  (report.check, r.kept report.found.results)

theorem entry_examine (r : Results) (fix : Bool) :
    (c.examine fix s w).1.entry r = (c.name, r.kept (c.findings s w).results) := by
  rw [CheckReport.entry, check_examine, found_examine]

theorem filter_kept_findings {report : CheckReport} (r : Results)
    (hfound : ∀ f ∈ report.found.results, f.isComplaint = true)
    (hfixes : ∀ f ∈ report.fixes, f.isComplaint = false) :
    (r.kept report.findings).filter Finding.isComplaint = r.kept report.found.results := by
  show (r.kept (report.found.results ++ report.fixes)).filter _ = _
  rw [r.kept_append, List.filter_append, List.filter_eq_self.2, List.filter_eq_nil_iff.2,
    List.append_nil]
  · exact fun f hf => by simp [hfixes f (Results.mem_of_mem_kept hf)]
  · exact fun f hf => hfound f (Results.mem_of_mem_kept hf)

/-- The results of a run, fixes aside, are what its checks have found. -/
theorem complaints_fileResults {fix : Bool} (hcs : cs.Sublist fileChecks)
    (hok : (examineUntilFault fix s cs w).2.1 = none) (o : RunOptions) :
    Results.restrict Finding.isComplaint
        (Run.fileResults o (examineUntilFault fix s cs w).1).entries =
      (examineUntilFault fix s cs w).1.map
        (CheckReport.entry { ignoreWarnings := o.report.ignoreWarnings }) := by
  have hweights : ∀ report ∈ (examineUntilFault fix s cs w).1,
      (∀ f ∈ report.found.results, f.isComplaint = true) ∧
        ∀ f ∈ report.fixes, f.isComplaint = false := by
    clear hcs
    induction cs generalizing w with
    | nil => exact fun report hreport => absurd hreport List.not_mem_nil
    | cons c cs ih =>
        obtain ⟨hfault, hrest⟩ := fault_examineUntilFault_cons.1 hok
        rw [examineUntilFault_cons hfault]
        exact List.forall_mem_cons.2 ⟨isComplaint_examine fix, ih hrest⟩
  have hnodup : ((examineUntilFault fix s cs w).1.map (·.check)).Nodup := by
    rw [checks_examineUntilFault hok]
    exact nodup_names hcs
  rw [Results.entries_fileResults o hnodup, Results.restrict, List.map_map]
  refine List.map_congr_left fun report hreport => ?_
  obtain ⟨hfound, hfixes⟩ := hweights report hreport
  exact congrArg (Prod.mk report.check) (filter_kept_findings _ hfound hfixes)

/-- A run without repairs tells of none. -/
theorem entries_fileResults_of_plain (hcs : cs.Sublist fileChecks)
    (hok : (examineUntilFault false s cs w).2.1 = none) (o : RunOptions) :
    (Run.fileResults o (examineUntilFault false s cs w).1).entries =
      (examineUntilFault false s cs w).1.map
        (CheckReport.entry { ignoreWarnings := o.report.ignoreWarnings }) := by
  have hfindings : ∀ report ∈ (examineUntilFault false s cs w).1,
      report.findings = report.found.results := by
    clear hcs
    induction cs with
    | nil => exact fun report hreport => absurd hreport List.not_mem_nil
    | cons c cs ih =>
        obtain ⟨hfault, hrest⟩ := fault_examineUntilFault_cons.1 hok
        rw [examineUntilFault_cons hfault]
        exact List.forall_mem_cons.2 ⟨List.append_nil _, ih hrest⟩
  have hnodup : ((examineUntilFault false s cs w).1.map (·.check)).Nodup := by
    rw [checks_examineUntilFault hok]
    exact nodup_names hcs
  rw [Results.entries_fileResults o hnodup]
  refine List.map_congr_left fun report hreport => ?_
  rw [hfindings report hreport]
  rfl

theorem forall_append_cons_iff {α : Type} {x : α} {xs : List α} {P : List α → α → Prop} :
    (∀ before c after, x :: xs = before ++ c :: after → P before c) ↔
      P [] x ∧ ∀ before c after, xs = before ++ c :: after → P (x :: before) c := by
  constructor
  · intro h
    refine ⟨h [] x xs rfl, ?_⟩
    rintro before c after rfl
    exact h (x :: before) c after rfl
  · rintro ⟨hx, hxs⟩ before c after heq
    cases before with
    | nil =>
        obtain ⟨rfl, -⟩ := List.cons.inj heq
        exact hx
    | cons y before =>
        obtain ⟨rfl, hrest⟩ := List.cons.inj heq
        exact hxs before c after hrest

theorem filter_cons_eq_iff {α β : Type} {q : α → Bool} {a : α} {b b' : β} {l l' : List (α × β)} :
    ((a, b') :: l').filter (fun e => q e.1) = ((a, b) :: l).filter (fun e => q e.1) ↔
      (q a = true → b' = b) ∧ l'.filter (fun e => q e.1) = l.filter (fun e => q e.1) := by
  cases hq : q a <;> simp [hq]

variable {rs : List Repair} {t : List Char} {l : Location} {mode : Nat} {bytes : Bytes}

def Surroundings.repaired (w : Surroundings) (rs : List Repair) (l : Location) (mode : Nat) :
    Surroundings :=
  { w with tree := lastTree rs w.tree l mode }

/-- A check finds the same in other surroundings, as far as findings are kept. -/
def FileCheck.FindsSame (c : FileCheck) (r : Results) (s : Subject) (w w' : Surroundings) : Prop :=
  r.kept (c.findings s w').results = r.kept (c.findings s w).results

/-- **Both runs side by side.** They agree on a part of the checks if and only if each of these
finds the same in the files as the repairs before it have left them. -/
theorem entries_after_repairs_iff (q : String → Bool) (r : Results)
    (hcs : ∀ c ∈ cs, c ∈ fileChecks) (hfile : s.file.isInclude = false) (htext : s.text = .ok t)
    (hlocate : w.tree.locate s.file = .ok l) (hhas : w.tree.HasFile l mode bytes)
    (hplain : (examineUntilFault false s cs w).2.1 = none)
    (hok : (examineUntilFault true s cs (w.repaired rs l mode)).2.1 = none) :
    ((examineUntilFault true s cs (w.repaired rs l mode)).1.map (CheckReport.entry r)).filter
          (fun e => q e.1) =
        ((examineUntilFault false s cs w).1.map (CheckReport.entry r)).filter (fun e => q e.1) ↔
      ∀ before c after, cs = before ++ c :: after → q c.name = true →
        c.FindsSame r s w (w.repaired (rs ++ repairsOf w.now before t) l mode) := by
  induction cs generalizing rs with
  | nil => simp [examineUntilFault]
  | cons c cs ih =>
      obtain ⟨hc, hcs⟩ := List.forall_mem_cons.1 hcs
      obtain ⟨hfault, hplain⟩ := fault_examineUntilFault_cons.1 hplain
      obtain ⟨hfault', hok⟩ := fault_examineUntilFault_cons.1 hok
      have htree : { w.repaired rs l mode with
          tree := (c.examine true s (w.repaired rs l mode)).2 } =
            w.repaired (rs ++ (c.repairOf w.now t).toList) l mode := by
        rw [examine_eq hc hfile htext ((locate_lastTree hhas).trans hlocate)
          (hasFile_lastTree hhas) (findings_fault_of_examine hfault'), Surroundings.repaired,
          Surroundings.repaired, lastTree_concat]
      rw [htree] at hok
      rw [examineUntilFault_cons hfault, examineUntilFault_cons hfault', htree, List.map_cons,
        List.map_cons, forall_append_cons_iff, entry_examine, entry_examine]
      have hnone : rs ++ repairsOf w.now [] t = rs := List.append_nil rs
      simp only [repairsOf_cons, ← List.append_assoc, hnone]
      rw [← ih hcs hplain hok]
      exact filter_cons_eq_iff

end

/-! ## What repairs before a check make of it -/

section
variable {before after : List FileCheck} {c : FileCheck} {rs : List Repair} {now : DateTime}
  {t : List Char} {bytes : Bytes}

theorem repairsOf_eq_nil_iff {cs : List FileCheck} :
    repairsOf now cs t = [] ↔ ∀ c ∈ cs, c.repairOf now t = none :=
  List.filterMap_eq_nil_iff

theorem repairOf_copyrightText : copyrightText.repairOf now t = none ↔ updateStatement? t = none :=
  Option.map_eq_none_iff

theorem repairOf_illegalCharacters :
    illegalCharacters.repairOf now t = none ↔ withoutSeparators? t = none :=
  Option.map_eq_none_iff

/-- Before the check of line ends, a statement may be updated and separators taken out. -/
theorem repairsOf_before_newlines (now : DateTime)
    (hcs : (before ++ newlines :: after).Sublist fileChecks) :
    repairsOf now before t = [] ↔
      (copyrightText ∈ before ++ newlines :: after → updateStatement? t = none) ∧
      (illegalCharacters ∈ before ++ newlines :: after → withoutSeparators? t = none) := by
  have hranks := rank_order
  rw [repairsOf_eq_nil_iff]
  constructor
  · intro h
    refine ⟨fun hmem => ?_, fun hmem => ?_⟩
    · exact repairOf_copyrightText.1 (h _ ((mem_before_iff hcs).2 ⟨hmem, by omega⟩))
    · exact repairOf_illegalCharacters.1 (h _ ((mem_before_iff hcs).2 ⟨hmem, by omega⟩))
  · rintro ⟨hstatement, hseparators⟩ c hc
    obtain ⟨hmem, hlt⟩ := (mem_before_iff hcs).1 hc
    rcases repair_cases (hcs.subset hmem) with rfl | rfl | rfl | hnone
    · exact repairOf_copyrightText.2 (hstatement hmem)
    · exact repairOf_illegalCharacters.2 (hseparators hmem)
    · omega
    · rw [FileCheck.repairOf, hnone]
      rfl

/-- Before the checks up to that of the encoding, nothing but the statement is repaired. -/
theorem updateStatement?_of_mem_repairsOf {r : Repair}
    (hcs : (before ++ c :: after).Sublist fileChecks) (hrank : c.rank ≤ encoding.rank)
    (hr : r ∈ repairsOf now before t) :
    copyrightText ∈ before ++ c :: after ∧ updateStatement? t = some r.text := by
  have hranks := rank_order
  obtain ⟨d, hd, hrepair⟩ := List.mem_filterMap.1 hr
  obtain ⟨hmem, hlt⟩ := (mem_before_iff hcs).1 hd
  rcases repairOf_cases (hcs.subset hmem) hrepair with ⟨rfl, hu⟩ | ⟨rfl, -⟩ | ⟨rfl, -⟩
  · exact ⟨hmem, hu⟩
  · omega
  · omega

variable {s : Subject} {w : Surroundings} {l : Location} {mode : Nat} (r : Results)

/-- Two checks apart, a check in its place finds what it would have found without repairs. -/
theorem findsSame_of_ne (hcs : (before ++ c :: after).Sublist fileChecks)
    (hhas : w.tree.HasFile l mode bytes) (ht : t = Text.unifyNewlines (Text.ofLatin1 bytes))
    (hno : (c.findings s w).fault = none) (hnewlines : c ≠ newlines) (hencoding : c ≠ encoding) :
    c.FindsSame r s w (w.repaired (repairsOf w.now before t) l mode) := by
  subst ht
  have hc : c ∈ fileChecks := hcs.subset (by simp)
  have hbefore : ∀ d ∈ before, d ∈ fileChecks := fun d hd => hcs.subset (by simp [hd])
  have hrun := run_after_repairs (w := w) hc hnewlines hencoding hhas
    (stored_repairsOf w.now hbefore (Text.stored_read bytes))
    (fun hdep r hr => (updateStatement?_of_mem_repairsOf hcs
      (by have hranks := rank_order; rcases hdep with rfl | rfl <;> omega) hr).2) hno
  unfold FileCheck.FindsSame FileCheck.findings Surroundings.repaired
  rw [hrun]

theorem findsSame_newlines_iff (hcs : (before ++ newlines :: after).Sublist fileChecks)
    (htext : s.text = .ok t) (hlocate : w.tree.locate s.file = .ok l)
    (hhas : w.tree.HasFile l mode bytes) (ht : t = Text.unifyNewlines (Text.ofLatin1 bytes)) :
    newlines.FindsSame r s w (w.repaired (repairsOf w.now before t) l mode) ↔
      (13 ∈ bytes →
        (copyrightText ∈ before ++ newlines :: after → updateStatement? t = none) ∧
        (illegalCharacters ∈ before ++ newlines :: after → withoutSeparators? t = none)) := by
  have hbefore : ∀ d ∈ before, d ∈ fileChecks := fun d hd => hcs.subset (by simp [hd])
  have hstored := stored_repairsOf w.now hbefore (ht ▸ Text.stored_read bytes)
  rw [← repairsOf_before_newlines w.now hcs, ← mem_lastBytes_iff hstored]
  exact kept_newlines_iff r htext (hhas.readBytes_of_locate hlocate)
    (readBytes_lastTree hlocate hhas)

theorem findsSame_encoding_iff (hcs : (before ++ encoding :: after).Sublist fileChecks)
    (htext : s.text = .ok t) (hlocate : w.tree.locate s.file = .ok l)
    (hhas : w.tree.HasFile l mode bytes) :
    encoding.FindsSame r s w (w.repaired (repairsOf w.now before t) l mode) ↔
      (copyrightText ∈ before ++ encoding :: after → ∀ u, updateStatement? t = some u →
        refusedEncoding? (w.detectEncoding (Text.toLatin1 u)) =
          refusedEncoding? (w.detectEncoding bytes)) := by
  have hrank := rank_order.2.2.1
  have hkept : encoding.FindsSame r s w (w.repaired (repairsOf w.now before t) l mode) ↔ _ :=
    kept_encoding_iff r htext (hhas.readBytes_of_locate hlocate) (readBytes_lastTree hlocate hhas)
  rw [hkept]
  rcases lastBytes_cases (repairsOf w.now before t) bytes with ⟨hnone, hbytes⟩ | ⟨r, hr, hbytes⟩
  · refine iff_of_true (by rw [hbytes]) fun hmem u hu => ?_
    have hrepair := repairsOf_eq_nil_iff.1 hnone _ ((mem_before_iff hcs).2 ⟨hmem, hrank⟩)
    rw [repairOf_copyrightText.1 hrepair] at hu
    cases hu
  · obtain ⟨hmem, hu⟩ := updateStatement?_of_mem_repairsOf hcs (Nat.le_refl _) hr
    rw [hbytes]
    refine ⟨fun h _ u hu' => ?_, fun h => h hmem _ hu⟩
    obtain rfl := Option.some.inj (hu.symm.trans hu')
    exact h

/-! ## The results of both runs -/

variable {cs : List FileCheck}

/-- All checks find the same in their places if those two do that look at bytes. -/
theorem forall_findsSame_iff (hcs : cs.Sublist fileChecks) (htext : s.text = .ok t)
    (hlocate : w.tree.locate s.file = .ok l) (hhas : w.tree.HasFile l mode bytes)
    (ht : t = Text.unifyNewlines (Text.ofLatin1 bytes))
    (hruns : ∀ c ∈ cs, (c.findings s w).fault = none) :
    (∀ before c after, cs = before ++ c :: after →
        c.FindsSame r s w (w.repaired (repairsOf w.now before t) l mode)) ↔
      (newlines ∈ cs → 13 ∈ bytes →
        (copyrightText ∈ cs → updateStatement? t = none) ∧
        (illegalCharacters ∈ cs → withoutSeparators? t = none)) ∧
      (encoding ∈ cs → copyrightText ∈ cs → ∀ u, updateStatement? t = some u →
        refusedEncoding? (w.detectEncoding (Text.toLatin1 u)) =
          refusedEncoding? (w.detectEncoding bytes)) := by
  constructor
  · refine fun h => ⟨fun hmem => ?_, fun hmem => ?_⟩
    · obtain ⟨before, after, rfl⟩ := List.append_of_mem hmem
      exact (findsSame_newlines_iff r hcs htext hlocate hhas ht).1 (h before _ after rfl)
    · obtain ⟨before, after, rfl⟩ := List.append_of_mem hmem
      exact (findsSame_encoding_iff r hcs htext hlocate hhas).1 (h before _ after rfl)
  · rintro ⟨hlines, hencodings⟩ before c after rfl
    have hmem : c ∈ before ++ c :: after := List.mem_append_right _ List.mem_cons_self
    by_cases hnewlines : c = newlines
    · subst hnewlines
      exact (findsSame_newlines_iff r hcs htext hlocate hhas ht).2 (hlines hmem)
    · by_cases hencoding : c = encoding
      · subst hencoding
        exact (findsSame_encoding_iff r hcs htext hlocate hhas).2 (hencodings hmem)
      · exact findsSame_of_ne r hcs hhas ht (hruns c hmem) hnewlines hencoding

theorem complaints_eq_iff (q : String → Bool) (o : RunOptions) (hcs : cs.Sublist fileChecks)
    (hfile : s.file.isInclude = false) (htext : s.text = .ok t)
    (hlocate : w.tree.locate s.file = .ok l) (hhas : w.tree.HasFile l mode bytes)
    (hplain : (examineUntilFault false s cs w).2.1 = none)
    (hok : (examineUntilFault true s cs w).2.1 = none) :
    (Results.restrict Finding.isComplaint
          (Run.fileResults o (examineUntilFault true s cs w).1).entries).filter (fun e => q e.1) =
        (Run.fileResults o (examineUntilFault false s cs w).1).entries.filter (fun e => q e.1) ↔
      ∀ before c after, cs = before ++ c :: after → q c.name = true →
        c.FindsSame { ignoreWarnings := o.report.ignoreWarnings } s w
          (w.repaired (repairsOf w.now before t) l mode) := by
  have hstart : w.repaired [] l mode = w := rfl
  have hiff := entries_after_repairs_iff q { ignoreWarnings := o.report.ignoreWarnings }
    hcs.subset hfile htext hlocate hhas hplain (hstart.symm ▸ hok)
  rw [complaints_fileResults hcs hok o, entries_fileResults_of_plain hcs hplain o, ← hstart]
  exact hiff

end

def byteChecks : List String :=
  [newlines.name, encoding.name]

/-- **Complaints of a run that repairs.** A run that repairs a script comes to its end where a run
without repairs does. Fixes aside, all checks but the two that look at bytes report the same. The
whole results are the same exactly if no repair comes before a complaint about line ends, and if the
detected encoding is as good or as bad after an update of the statement as before. -/
theorem complaints_of_repairedRun {cs : List FileCheck} {w : Surroundings} {root file : Path}
    {bytes : Bytes} {t : List Char} (hcs : cs.Sublist fileChecks) (hfile : file.isInclude = false)
    (hbytes : w.tree.readBytes file = .ok bytes) (hread : w.tree.readText file = .ok t)
    (hplain : (examineUntilFault false (.ofTree w.tree root file) cs w).2.1 = none)
    (o : RunOptions) :
    let plain := examineUntilFault false (.ofTree w.tree root file) cs w
    let repaired := examineUntilFault true (.ofTree w.tree root file) cs w
    let found := (Run.fileResults o plain.1).entries
    let complaints := Results.restrict Finding.isComplaint (Run.fileResults o repaired.1).entries
    repaired.2.1 = none ∧
      complaints.filter (fun e => !byteChecks.contains e.1) =
        found.filter (fun e => !byteChecks.contains e.1) ∧
      (complaints = found ↔
        (newlines ∈ cs → 13 ∈ bytes →
          (copyrightText ∈ cs → updateStatement? t = none) ∧
          (illegalCharacters ∈ cs → withoutSeparators? t = none)) ∧
        (encoding ∈ cs → copyrightText ∈ cs → ∀ u, updateStatement? t = some u →
          refusedEncoding? (w.detectEncoding (Text.toLatin1 u)) =
            refusedEncoding? (w.detectEncoding bytes))) := by
  obtain ⟨l, mode, hlocate, hhas⟩ := FileTree.exists_hasFile_of_readBytes hbytes
  have ht : t = Text.unifyNewlines (Text.ofLatin1 bytes) := by
    obtain ⟨bytes', hbytes', rfl⟩ := FileTree.readText_eq_ok_iff.1 hread
    obtain rfl := Except.ok.inj (hbytes.symm.trans hbytes')
    rfl
  have htext : (Subject.ofTree w.tree root file).text = .ok t := text_ofTree hread
  have hruns := fault_examineUntilFault_false.1 hplain
  have hok : (examineUntilFault true (.ofTree w.tree root file) cs w).2.1 = none :=
    (fault_examineUntilFault_iff hcs hplain).2 fun h => by simp [hfile] at h
  refine ⟨hok, ?_, ?_⟩
  · refine (complaints_eq_iff (s := .ofTree w.tree root file)
      (fun name => !byteChecks.contains name) o hcs hfile htext hlocate hhas hplain hok).2 ?_
    rintro before c after rfl hq
    refine findsSame_of_ne _ hcs hhas ht (hruns c (by simp)) ?_ ?_
    · rintro rfl
      exact absurd hq (by decide)
    · rintro rfl
      exact absurd hq (by decide)
  · have hiff := complaints_eq_iff (s := .ofTree w.tree root file) (fun _ => true) o hcs hfile
      htext hlocate hhas hplain hok
    rw [List.filter_true, List.filter_true] at hiff
    rw [hiff, ← forall_findsSame_iff _ hcs htext hlocate hhas ht hruns]
    exact ⟨fun h before c after heq => h before c after heq rfl,
      fun h before c after heq _ => h before c after heq⟩

/-- A script with a separator in its summary and one line end. -/
def separatedScript (lineEnd : String) : Bytes :=
  Text.toLatin1 ("script_tag(name:\"summary\", value:\"a=b\");".toList ++ lineEnd.toList)

def withSeparatedScript (lineEnd : String) : Surroundings :=
  { tree := { entries := [(["a.nasl"], .file 0o644 (separatedScript lineEnd))] }, now := default }

def separatedRun (fix : Bool) (lineEnd : String) : List CheckReport × Option Fault × FileTree :=
  examineUntilFault fix (.ofTree (withSeparatedScript lineEnd).tree ⟨"/", []⟩ ⟨"/", ["a.nasl"]⟩)
    [illegalCharacters, newlines] (withSeparatedScript lineEnd)

def separatedOptions : RunOptions :=
  { report := { root := ⟨"/", []⟩ } }

/-- The repair makes no difference where line ends are as they should be. -/
theorem complaints_of_repairedRun_of_separator :
    (separatedRun true "\n").2.2.readBytes ⟨"/", ["a.nasl"]⟩ ≠ .ok (separatedScript "\n") ∧
    Results.restrict Finding.isComplaint
        (Run.fileResults separatedOptions (separatedRun true "\n").1).entries =
      (Run.fileResults separatedOptions (separatedRun false "\n").1).entries := by
  have hcs : [illegalCharacters, newlines].Sublist fileChecks :=
    .trans (((List.sublist_append_left _ [versionAndLastModification]).cons _).cons _ |>.cons _
      |>.cons _) sublist_fileChecks
  have hbytes : (withSeparatedScript "\n").tree.readBytes ⟨"/", ["a.nasl"]⟩ =
      .ok (separatedScript "\n") := rfl
  have hplain : (separatedRun false "\n").2.1 = none := by decide +kernel
  have hunix : 13 ∉ separatedScript "\n" := by decide +kernel
  have hnames : encoding.name ∉ [illegalCharacters, newlines].map (·.name) := by decide
  refine ⟨fun h => absurd (congrArg Except.toOption h) (by decide +kernel), ?_⟩
  refine (complaints_of_repairedRun hcs (by decide) hbytes
    (FileTree.readText_eq_ok_iff.2 ⟨_, hbytes, rfl⟩) hplain separatedOptions).2.2.2 ?_
  exact ⟨fun _ hmem => absurd hmem hunix,
    fun hmem => absurd (List.mem_map_of_mem hmem) hnames⟩

/-- After the repair nothing is said of a carriage return. -/
theorem repairedRun_misses_newlines :
    (separatedRun false "\r\n").2.1 = none ∧ (separatedRun true "\r\n").2.1 = none ∧
    Results.restrict Finding.isComplaint
        (Run.fileResults separatedOptions (separatedRun true "\r\n").1).entries ≠
      (Run.fileResults separatedOptions (separatedRun false "\r\n").1).entries := by
  decide +kernel

end NaslLint
