import NaslLint.Proofs.FileTree.Likeness
import NaslLint.Proofs.Results

/-!
# Results without their texts

Two runs can find the same things and word them differently. What remains of results without their
texts decides what is counted and which steps a report takes; the texts themselves only reach the
terminal and, if findings are told at all, the log.

* `Results.bare` are results without texts; `bare_fileResults` says that the results of a file come
  from its reports without texts.
* `ReportState.Alike` relates states that differ in nothing but what the terminal shows and the bytes
  of one file, which may be the log.
* `Delivery.alike_perform` says that deliveries whose steps are the same without texts keep states
  alike.
-/

namespace NaslLint

/-! ## Findings and results -/

/-- A finding without its text. -/
def Finding.bare (f : Finding) : Finding :=
  { f with message := "" }

def CheckReport.bare (r : CheckReport) : CheckReport :=
  { r with found := r.found.map Finding.bare, repaired := r.repaired.map (·.map Finding.bare) }

namespace Results

def bareEntries (entries : List (String × List Finding)) : List (String × List Finding) :=
  entries.map fun e => (e.1, e.2.map Finding.bare)

def bare (r : Results) : Results :=
  { r with entries := bareEntries r.entries }

theorem bareEntries_insert (name : String) (new : List Finding)
    (entries : List (String × List Finding)) :
    bareEntries (insert name new entries) =
      insert name (new.map Finding.bare) (bareEntries entries) := by
  induction entries with
  | nil => rfl
  | cons e more ih =>
      obtain ⟨n, old⟩ := e
      by_cases hn : (n == name) = true
      · simp only [insert, bareEntries, List.map_cons, if_pos hn, List.map_append]
      · simp only [insert, bareEntries, List.map_cons, if_neg hn]
        exact congrArg _ ih

/-- Which findings are kept depends on their weight only. -/
theorem map_bare_kept (r : Results) (l : List Finding) :
    (r.kept l).map Finding.bare = r.bare.kept (l.map Finding.bare) := by
  unfold kept
  show _ = if r.ignoreWarnings = true then _ else _
  split
  · rw [List.filter_map]
    rfl
  · rfl

theorem bare_add (r : Results) (name : String) (l : List Finding) :
    (r.add name l).bare = r.bare.add name (l.map Finding.bare) := by
  simp only [add, ← map_bare_kept, List.isEmpty_map]
  show Results.mk _ (bareEntries (insert _ _ _)) _ = _
  rw [bareEntries_insert]
  rfl

theorem bare_addReport (r : Results) (c : CheckReport) :
    (r.addReport c).bare = r.bare.addReport c.bare := by
  obtain ⟨check, found, repaired⟩ := c
  cases repaired with
  | none => exact bare_add r check found.results
  | some fixes =>
      show ((r.add check found.results).add check fixes.results).bare = _
      rw [bare_add, bare_add]
      rfl

theorem bare_fileResults (o : RunOptions) (reports : List CheckReport) :
    (Run.fileResults o reports).bare = Run.fileResults o (reports.map CheckReport.bare) := by
  have hfold (r : Results) : (reports.foldl addReport r).bare =
      (reports.map CheckReport.bare).foldl addReport r.bare := by
    induction reports generalizing r with
    | nil => rfl
    | cons c reports ih => rw [List.map_cons, List.foldl_cons, List.foldl_cons, ih, bare_addReport]
  rw [fileResults_eq, fileResults_eq, hfold]
  rfl

end Results

/-! ## Steps of a report -/

def ReportStep.bare : ReportStep → ReportStep
  | say line => say { line with message := "" }
  | step => step

/-- Only the lines that are said can differ in their texts. -/
theorem ReportStep.eq_or_say {step step' : ReportStep} (h : step.bare = step'.bare) :
    step = step' ∨ ∃ line line', step = say line ∧ step' = say line' := by
  cases step with
  | say line =>
      cases step' with
      | say line' => exact .inr ⟨line, line', rfl, rfl⟩
      | count | tabulate => cases h
  | count | tabulate =>
      cases step' with
      | say => cases h
      | count | tabulate => exact .inl h

namespace Report
variable {o : ReportOptions}

theorem map_bare_checkSteps (o : ReportOptions) (name : String) (findings : List Finding) :
    (checkSteps o name findings).map ReportStep.bare =
      (checkSteps o name (findings.map Finding.bare)).map ReportStep.bare := by
  rw [checkSteps, checkSteps, List.map_append, List.map_append, List.isEmpty_map, List.flatMap_map,
    List.map_flatMap, List.map_flatMap]
  congr 1
  refine List.flatMap_congr fun f _ => ?_
  by_cases hv : o.verbosity > 0
  · simp only [if_pos hv, List.map_cons, List.map_nil, ReportStep.bare, Finding.bare]
  · simp only [if_neg hv, List.map_cons, List.map_nil, ReportStep.bare, Finding.bare]

/-- Where findings are not told, their texts have no part in the steps. -/
theorem checkSteps_bare (h : o.verbosity ≤ 0) (name : String) (findings : List Finding) :
    checkSteps o name (findings.map Finding.bare) = checkSteps o name findings := by
  have hv : ¬ o.verbosity > 0 := Int.not_lt.2 h
  rw [checkSteps, checkSteps, List.isEmpty_map, List.flatMap_map]
  simp only [if_neg hv, Finding.bare]

end Report

/-! ## Deliveries -/

namespace Delivery
variable {o : ReportOptions}

def bare : Delivery → Delivery
  | feed r => feed r.bare
  | file path pos r => file path pos r.bare

theorem map_bare_steps (o : ReportOptions) (here : Location) (count : Int) (d : Delivery) :
    (d.steps o here count).map (List.map ReportStep.bare) =
      (d.bare.steps o here count).map (List.map ReportStep.bare) := by
  cases d with
  | feed r =>
      refine congrArg Except.ok ?_
      show (Report.feedSteps o r).map _ = (Report.feedSteps o r.bare).map _
      simp only [Report.feedSteps, Results.bare, Results.bareEntries, List.flatMap_map,
        List.map_flatMap, List.map_append]
      refine List.flatMap_congr fun e _ => ?_
      rw [Report.map_bare_checkSteps]
      rfl
  | file path pos r =>
      have hbody : (r.entries.flatMap fun e => Report.checkSteps o e.1 e.2).map ReportStep.bare =
          (r.bare.entries.flatMap fun e => Report.checkSteps o e.1 e.2).map ReportStep.bare := by
        simp only [Results.bare, Results.bareEntries, List.flatMap_map, List.map_flatMap]
        exact List.flatMap_congr fun e _ => Report.map_bare_checkSteps o e.1 e.2
      show (Report.fileSteps o here count path pos r).map _ =
        (Report.fileSteps o here count path pos r.bare).map _
      rw [Report.fileSteps, Report.fileSteps,
        show Report.hasHeading o r.bare = Report.hasHeading o r from rfl]
      split
      · cases path.fromRoot? o.root here with
        | none => rfl
        | some relative => exact congrArg (fun l => Except.ok (_ :: l)) hbody
      · exact congrArg Except.ok hbody

theorem steps_bare (h : o.verbosity ≤ 0) (here : Location) (count : Int) (d : Delivery) :
    d.bare.steps o here count = d.steps o here count := by
  cases d with
  | feed r =>
      simp only [bare, steps, Report.feedSteps, Results.bare, Results.bareEntries,
        List.flatMap_map, Report.checkSteps_bare h]
      rfl
  | file path pos r =>
      simp only [bare, steps, Report.fileSteps, Results.bare, Results.bareEntries,
        List.flatMap_map, Report.checkSteps_bare h]
      rfl

end Delivery

/-! ## States -/

/-- States that differ in nothing but what the terminal shows and the bytes of one file. -/
structure ReportState.Alike (loose : Option Path) (s s' : ReportState) : Prop where
  counts_eq : s.counts = s'.counts
  filesCount_eq : s.filesCount = s'.filesCount
  tree : s.tree.SameBut loose s'.tree

theorem ReportState.Alike.refl (loose : Option Path) (s : ReportState) : s.Alike loose s :=
  ⟨rfl, rfl, .refl loose s.tree⟩

theorem ReportState.Alike.weaken {s s' : ReportState} (h : s.Alike none s') (loose : Option Path) :
    s.Alike loose s' :=
  ⟨h.counts_eq, h.filesCount_eq, h.tree.weaken loose⟩

structure ReportOptions.SameLogs (o o' : ReportOptions) : Prop where
  logFile_eq : o.logFile = o'.logFile
  statisticLogFile_eq : o.statisticLogFile = o'.statisticLogFile

section
variable {loose : Option Path} {o o' : ReportOptions} {s s' : ReportState}

theorem sameAccess_appendLog {log : Option Path} {text text' : String} {t t' : FileTree}
    (h : t.SameBut loose t') (htext : text = text' ∨ loose = log) :
    FileTree.SameAccess loose (ReportStep.appendLog log text t)
      (ReportStep.appendLog log text' t') := by
  cases log with
  | none => exact .ok h
  | some path => exact h.append (htext.imp (fun h => by rw [h]) fun h => by rw [h]; rfl)

/-- Steps that are the same without texts keep states alike, unless a text is logged elsewhere than in
the file that may differ. -/
theorem alike_perform {step step' : ReportStep} (hlogs : o.SameLogs o') (hs : s.Alike loose s')
    (h : step.bare = step'.bare) (hlog : loose = o.logFile ∨ step = step') :
    (step.perform o s).1.Alike loose (step'.perform o' s').1 ∧
      (step.perform o s).2 = (step'.perform o' s').2 := by
  obtain ⟨hcounts, hfiles, htree⟩ := hs
  have hsay (line line' : Line)
      (htext : ReportStep.logged line = ReportStep.logged line' ∨ loose = o.logFile) :
      ((ReportStep.say line).perform o s).1.Alike loose ((ReportStep.say line').perform o' s').1 ∧
        ((ReportStep.say line).perform o s).2 = ((ReportStep.say line').perform o' s').2 := by
    simp only [ReportStep.perform, ← hlogs.logFile_eq]
    have haccess := sameAccess_appendLog htree htext
    generalize ReportStep.appendLog o.logFile (ReportStep.logged line) s.tree = r at haccess ⊢
    generalize ReportStep.appendLog o.logFile (ReportStep.logged line') s'.tree = r' at haccess ⊢
    cases haccess with
    | error e => exact ⟨⟨hcounts, hfiles, htree⟩, rfl⟩
    | ok htree => exact ⟨⟨hcounts, hfiles, htree⟩, rfl⟩
  rcases ReportStep.eq_or_say h with rfl | ⟨line, line', rfl, rfl⟩
  · cases step with
    | count check severity =>
        exact ⟨⟨by simp only [ReportStep.perform, hcounts], hfiles, htree⟩, rfl⟩
    | say line => exact hsay line line (Or.inl rfl)
    | tabulate line =>
        simp only [ReportStep.perform, ← hlogs.statisticLogFile_eq]
        have haccess : FileTree.SameAccess loose
            (ReportStep.appendLog o.statisticLogFile line.message s.tree)
            (ReportStep.appendLog o.statisticLogFile line.message s'.tree) :=
          sameAccess_appendLog htree (Or.inl rfl)
        generalize ReportStep.appendLog o.statisticLogFile line.message s.tree = r at haccess ⊢
        generalize ReportStep.appendLog o.statisticLogFile line.message s'.tree = r' at haccess ⊢
        cases haccess with
        | error e => exact ⟨⟨hcounts, hfiles, htree⟩, rfl⟩
        | ok htree => exact ⟨⟨hcounts, hfiles, htree⟩, rfl⟩
  · exact hsay line line' (hlog.symm.imp_left fun h => congrArg _ (ReportStep.say.inj h))

theorem alike_performAll {steps steps' : List ReportStep} (hlogs : o.SameLogs o')
    (hs : s.Alike loose s') (h : steps.map ReportStep.bare = steps'.map ReportStep.bare)
    (hlog : loose = o.logFile ∨ steps = steps') :
    (ReportStep.performAll o s steps).1.Alike loose (ReportStep.performAll o' s' steps').1 ∧
      (ReportStep.performAll o s steps).2 = (ReportStep.performAll o' s' steps').2 := by
  induction steps generalizing steps' s s' with
  | nil =>
      obtain rfl := List.map_eq_nil_iff.1 h.symm
      exact ⟨hs, rfl⟩
  | cons step more ih =>
      obtain ⟨step', more', rfl, hstep, hmore⟩ := List.map_eq_cons_iff.1 h.symm
      obtain ⟨halike, hfault⟩ := alike_perform hlogs hs hstep.symm
        (hlog.imp_right fun h => (List.cons.inj h).1)
      rw [ReportStep.performAll, ReportStep.performAll]
      cases hp : step.perform o s with
      | mk t fault =>
          cases hp' : step'.perform o' s' with
          | mk t' fault' =>
              rw [hp, hp'] at halike hfault
              cases hfault
              cases fault with
              | some f => exact ⟨halike, rfl⟩
              | none => exact ih halike hmore.symm (hlog.imp_right fun h => (List.cons.inj h).2)

/-- Deliveries whose steps are the same without texts keep states alike. -/
theorem Delivery.alike_perform {d d' : Delivery} (hlogs : o.SameLogs o') (hs : s.Alike loose s')
    (h : (d.steps o s.tree.here s.filesCount).map (List.map ReportStep.bare) =
      (d'.steps o' s'.tree.here s'.filesCount).map (List.map ReportStep.bare))
    (hlog : loose = o.logFile ∨
      d.steps o s.tree.here s.filesCount = d'.steps o' s'.tree.here s'.filesCount) :
    (d.perform o s).1.Alike loose (d'.perform o' s').1 ∧
      (d.perform o s).2 = (d'.perform o' s').2 := by
  rw [perform, perform]
  cases hd : d.steps o s.tree.here s.filesCount with
  | error f =>
      cases hd' : d'.steps o' s'.tree.here s'.filesCount with
      | error f' =>
          rw [hd, hd'] at h
          cases h
          exact ⟨hs, rfl⟩
      | ok steps' => simp [hd, hd', Except.map] at h
  | ok steps =>
      cases hd' : d'.steps o' s'.tree.here s'.filesCount with
      | error f' => simp [hd, hd', Except.map] at h
      | ok steps' =>
          rw [hd, hd'] at h hlog
          exact alike_performAll hlogs hs (Except.ok.inj h) (hlog.imp_right Except.ok.inj)

end

end NaslLint
