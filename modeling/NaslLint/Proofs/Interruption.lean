import NaslLint.Proofs.Results

/-!
# Interrupted runs

A run has pieces of work to do: the checks of the feed look at all files, and then one file after
the other is examined. An interruption in front of one of them leaves it and all later ones undone.
What has been done in front of it is all that the answer is about.

* `Run.jobs` are the pieces of work, `Run.reached` those in front of the interruption.
* `Run.workThrough` does pieces of work one after the other; `phases_eq_workThrough` says that a run
  works through those that it reaches.
* `errors_workThrough` says what is counted on the way.
-/

namespace NaslLint

/-! ## Errors among what is counted -/

theorem errors_countAll_eq_zero_iff (c : Counts) (hits : List Hit) :
    (c.countAll hits).total.errors = 0 ↔ c.total.errors = 0 ∧ ∀ hit ∈ hits, hit.2 ≠ .error := by
  induction hits generalizing c with
  | nil => simp [Counts.countAll]
  | cons e hits ih =>
      rw [List.forall_mem_cons]
      show ((c.count e.1 e.2).countAll hits).total.errors = 0 ↔ _
      rw [ih, Counts.total_count]
      cases e.2 <;> simp [Tally.count]

namespace Results

def findings (r : Results) : List Finding :=
  r.entries.flatMap (·.2)

theorem forall_hits_iff (r : Results) :
    (∀ hit ∈ r.hits, hit.2 ≠ .error) ↔ ∀ f ∈ r.findings, f.severity ≠ .error := by
  simp only [hits, findings, List.mem_flatMap, List.mem_map]
  constructor
  · rintro h f ⟨e, he, hf⟩
    exact h _ ⟨e, he, f, hf, rfl⟩
  · rintro h _ ⟨e, he, f, hf, rfl⟩
    exact h f ⟨e, he, hf⟩

theorem mem_insert_iff {f : Finding} (name : String) (new : List Finding)
    (entries : List (String × List Finding)) :
    f ∈ (insert name new entries).flatMap (·.2) ↔ f ∈ entries.flatMap (·.2) ∨ f ∈ new := by
  induction entries with
  | nil => simp [insert]
  | cons e more ih =>
      obtain ⟨n, old⟩ := e
      by_cases hn : (n == name) = true
      · simp only [insert, if_pos hn, List.flatMap_cons, List.mem_append]
        tauto
      · simp only [insert, if_neg hn, List.flatMap_cons, List.mem_append, ih]
        tauto

/-- Lists with the same errors: either both have none, or both have one. -/
theorem forall_ne_error_congr {l l' : List Finding}
    (h : ∀ f : Finding, f.severity = .error → (f ∈ l ↔ f ∈ l')) :
    (∀ f ∈ l, f.severity ≠ .error) ↔ ∀ f ∈ l', f.severity ≠ .error :=
  ⟨fun hl f hf hsev => hl f ((h f hsev).2 hf) hsev, fun hl f hf hsev => hl f ((h f hsev).1 hf) hsev⟩

section
variable {f : Finding} (hf : f.severity = .error)
include hf

/-- Whatever is left out of the results, errors are kept. -/
theorem error_mem_kept_iff (r : Results) (l : List Finding) : f ∈ r.kept l ↔ f ∈ l := by
  rw [kept]
  split
  · simp [hf]
  · rfl

theorem error_mem_add_iff (r : Results) (name : String) (l : List Finding) :
    f ∈ (r.add name l).findings ↔ f ∈ r.findings ∨ f ∈ l := by
  rw [← error_mem_kept_iff hf r l]
  exact mem_insert_iff name _ _

theorem error_mem_feedResults_iff (o : RunOptions) (name : String) (l : List Finding) :
    f ∈ (Run.feedResults o name l).findings ↔ f ∈ l := by
  have hnone : f ∉ findings { ignoreWarnings := o.report.ignoreWarnings } := List.not_mem_nil
  unfold Run.feedResults
  split <;> simp only [error_mem_add_iff hf, hnone, List.not_mem_nil, false_or, or_false]

theorem error_mem_fileResults_iff (o : RunOptions) (reports : List CheckReport) :
    f ∈ (Run.fileResults o reports).findings ↔ f ∈ reports.flatMap (·.findings) := by
  have hfold (r : Results) : f ∈ (reports.foldl addReport r).findings ↔
      f ∈ r.findings ∨ f ∈ reports.flatMap (·.findings) := by
    induction reports generalizing r with
    | nil => simp
    | cons c reports ih =>
        have hadd : f ∈ (r.addReport c).findings ↔ f ∈ r.findings ∨ f ∈ c.findings := by
          rw [findings, entries_addReport, mem_insert_iff, error_mem_kept_iff hf]
          rfl
        rw [List.foldl_cons, ih, hadd, List.flatMap_cons, List.mem_append, or_assoc]
  rw [fileResults_eq, hfold]
  simp [findings]

end

end Results

/-! ## Pieces of work -/

namespace Run

/-- A piece of work of a run: a check of the feed looks at all files, or a file is examined, which
has a number. -/
inductive Job where
  | feed (c : FeedCheck)
  | file (path : Path) (pos : Nat)

def jobs (o : RunOptions) (files : List Path) : List Job :=
  o.selection.feedChecks.map .feed ++ (files.zipIdx 1).map fun e => .file e.1 e.2

/-- The pieces of work in front of the interruption: all of them, if none is where it is to
happen. -/
def reached (o : RunOptions) (files : List Path) : List Job :=
  match o.interruptAt with
  | some (.ofNat n) => (jobs o files).take n
  | _ => jobs o files

def handOver (o : RunOptions) (d : Delivery) (found : List Finding) (s : ReportState) :
    ReportState × Except Fault (List Finding) :=
  match d.perform o.report s with
  | (s, some f) => (s, .error f)
  | (s, none) => (s, .ok found)

/-- Does a piece of work: its checks run, and what they find is handed over. -/
def Job.process (o : RunOptions) (files : List Path) (w : Surroundings) (s : ReportState) :
    Job → ReportState × Except Fault (List Finding)
  | feed c =>
    let found := c.run { root := o.report.root, files } { w with tree := s.tree }
    match found.fault with
    | some f => (s, .error f)
    | none => handOver o (.feed (feedResults o c.name found.results)) found.results s
  | file path pos =>
    let subject := Subject.ofTree s.tree o.report.root (path.resolve s.tree.here)
    let (reports, fault, tree) :=
      examineUntilFault o.report.fix subject o.selection.fileChecks { w with tree := s.tree }
    match fault with
    | some f => ({ s with tree }, .error f)
    | none =>
      handOver o (.file path pos (fileResults o reports)) (reports.flatMap (·.findings))
        { s with tree }

/-- Does pieces of work one after the other until one fails, and collects what they find. -/
def workThrough (o : RunOptions) (files : List Path) (w : Surroundings) :
    ReportState → List Job → ReportState × Except Fault (List Finding)
  | s, [] => (s, .ok [])
  | s, j :: more =>
    match j.process o files w s with
    | (s, .error f) => (s, .error f)
    | (s, .ok found) =>
      let later := workThrough o files w s more
      (later.1, later.2.map (found ++ ·))

def reachedFrom (o : RunOptions) : Nat → List Job → List Job
  | _, [] => []
  | work, j :: more => if interrupts o work then [] else j :: reachedFrom o (work + 1) more

def resume (r : ReportState × Except Fault (List Finding))
    (next : ReportState → ReportState × RunEnd) : ReportState × RunEnd :=
  match r with
  | (s, .error f) => (s, .failed f)
  | (s, .ok _) => next s

/-- Both phases as one loop over pieces of work, the first of them having a given number. -/
def walk (o : RunOptions) (files : List Path) (w : Surroundings) :
    Nat → List Job → ReportState → ReportState × RunEnd
  | _, [], s => (s, .finished)
  | work, j :: more, s =>
    if interrupts o work then (s, .interrupted)
    else resume (j.process o files w s) (walk o files w (work + 1) more)

variable {o : RunOptions} {files : List Path} {w : Surroundings} {s : ReportState}

/-! ### Phases as one loop -/

theorem resume_handOver (d : Delivery) (found : List Finding) (s : ReportState)
    (next : ReportState → ReportState × RunEnd) :
    resume (handOver o d found s) next = proceed (d.perform o.report s) next := by
  unfold handOver
  cases d.perform o.report s with
  | mk s' fault => cases fault <;> rfl

theorem feedPhase_eq_walk (work : Nat) (checks : List FeedCheck) (s : ReportState) :
    feedPhase o files w work checks s = walk o files w work (checks.map .feed) s := by
  induction checks generalizing work s with
  | nil => rfl
  | cons c more ih =>
      rw [List.map_cons, walk]
      by_cases hint : interrupts o work = true
      · simp only [feedPhase, if_pos hint]
      · rw [if_neg hint]
        generalize hfound : c.run { root := o.report.root, files } { w with tree := s.tree } = found
        cases hfault : found.fault with
        | some f => simp only [feedPhase, if_neg hint, Job.process, hfound, hfault, resume]
        | none =>
            rw [feedPhase_cons_of_found hint hfound hfault]
            simp only [Job.process, hfound, hfault, resume_handOver]
            congr 1
            funext s'
            exact ih (work + 1) s'

theorem filePhase_eq_walk (work pos : Nat) (paths : List Path) (s : ReportState) :
    filePhase o o.selection.fileChecks w work pos paths s =
      walk o files w work ((paths.zipIdx pos).map fun e => .file e.1 e.2) s := by
  induction paths generalizing work pos s with
  | nil => rfl
  | cons path more ih =>
      rw [List.zipIdx_cons, List.map_cons, walk]
      by_cases hint : interrupts o work = true
      · simp only [filePhase, if_pos hint]
      · rw [if_neg hint]
        generalize hexamine : examineUntilFault o.report.fix
          (Subject.ofTree s.tree o.report.root (path.resolve s.tree.here)) o.selection.fileChecks
          { w with tree := s.tree } = e
        obtain ⟨reports, fault, tree⟩ := e
        cases fault with
        | some f => simp only [filePhase, if_neg hint, Job.process, hexamine, resume]
        | none =>
            rw [filePhase_cons_of_examined hint hexamine]
            simp only [Job.process, hexamine, resume_handOver]
            congr 1
            funext s'
            exact ih (work + 1) (pos + 1) s'

/-- Later pieces of work are begun if all earlier ones are finished. -/
theorem walk_append (work : Nat) (js later : List Job) (s : ReportState) :
    walk o files w work (js ++ later) s =
      if (walk o files w work js s).2 = .finished then
        walk o files w (work + js.length) later (walk o files w work js s).1
      else walk o files w work js s := by
  induction js generalizing work s with
  | nil => rfl
  | cons j more ih =>
      rw [List.cons_append, walk, walk]
      by_cases hint : interrupts o work = true
      · simp only [if_pos hint, reduceCtorEq, if_false]
      · rw [if_neg hint, if_neg hint]
        cases j.process o files w s with
        | mk s' result =>
            cases result with
            | error f => rfl
            | ok found =>
                show walk o files w (work + 1) (more ++ later) s' = _
                rw [ih, List.length_cons, Nat.add_assoc, Nat.add_comm 1]
                rfl

theorem phases_eq_walk (s : ReportState) :
    phases o files w s =
      walk o files w 0 (jobs o files) { s with filesCount := files.length } := by
  rw [jobs, walk_append, List.length_map, Nat.zero_add, ← feedPhase_eq_walk, ← filePhase_eq_walk,
    phases]
  generalize feedPhase o files w 0 o.selection.feedChecks
    { s with filesCount := files.length } = r
  obtain ⟨s', e⟩ := r
  cases e with
  | finished => exact (if_pos rfl).symm
  | interrupted => exact (if_neg (by simp)).symm
  | failed f => exact (if_neg (by simp)).symm

/-! ### What is reached -/

/-- The loop works through what it reaches; it fails if that fails. -/
theorem walk_eq_workThrough (work : Nat) (js : List Job) (s : ReportState) :
    (walk o files w work js s).1 = (workThrough o files w s (reachedFrom o work js)).1 ∧
      ∀ f, (walk o files w work js s).2 = .failed f ↔
        (workThrough o files w s (reachedFrom o work js)).2 = .error f := by
  induction js generalizing work s with
  | nil => simp [walk, workThrough, reachedFrom]
  | cons j more ih =>
      rw [walk, reachedFrom]
      by_cases hint : interrupts o work = true
      · simp [if_pos hint, workThrough]
      · rw [if_neg hint, if_neg hint, workThrough]
        cases j.process o files w s with
        | mk s' result =>
            cases result with
            | error f => simp [resume]
            | ok found =>
                obtain ⟨hstate, hfailed⟩ := ih (work + 1) s'
                refine ⟨hstate, fun f => (hfailed f).trans ?_⟩
                show _ ↔ (workThrough o files w s' _).2.map (found ++ ·) = .error f
                cases (workThrough o files w s' (reachedFrom o (work + 1) more)).2 <;>
                  simp [Except.map]

theorem reachedFrom_of_some {work n : Nat} (h : o.interruptAt = some ((work + n : Nat) : Int))
    (js : List Job) : reachedFrom o work js = js.take n := by
  induction js generalizing work n with
  | nil => simp [reachedFrom]
  | cons j more ih =>
      cases n with
      | zero =>
          have hint : interrupts o work = true := by simp [interrupts, h]
          rw [reachedFrom, if_pos hint, List.take_zero]
      | succ n =>
          have hint : ¬ interrupts o work = true := by
            simp only [interrupts, h, beq_iff_eq, Option.some.injEq]
            omega
          rw [reachedFrom, if_neg hint, List.take_succ_cons, ih (n := n)]
          rw [h]
          congr 1
          omega

theorem reachedFrom_of_forall {work : Nat} (js : List Job)
    (h : ∀ n < js.length, o.interruptAt ≠ some ((work + n : Nat) : Int)) :
    reachedFrom o work js = js := by
  induction js generalizing work with
  | nil => rfl
  | cons j more ih =>
      have hint : ¬ interrupts o work = true := by
        simpa [interrupts] using h 0 (by simp)
      rw [reachedFrom, if_neg hint, ih]
      intro n hn
      have hnext := h (n + 1) (by simpa using hn)
      rwa [show work + (n + 1) = work + 1 + n by omega] at hnext

theorem reached_eq_reachedFrom : reached o files = reachedFrom o 0 (jobs o files) := by
  unfold reached
  split
  next n hn =>
    rw [reachedFrom_of_some (n := n)]
    rw [hn, Nat.zero_add]
    rfl
  next hnone =>
    rw [reachedFrom_of_forall]
    intro n _ hn
    rw [Nat.zero_add] at hn
    exact hnone n hn

variable (o files w) in
/-- **A run works through what it reaches.** Its phases leave what the pieces of work in front of
the interruption leave, and they fail if one of these does. -/
theorem phases_eq_workThrough (s : ReportState) :
    (phases o files w s).1 =
      (workThrough o files w { s with filesCount := files.length } (reached o files)).1 ∧
    ∀ f, (phases o files w s).2 = .failed f ↔
      (workThrough o files w { s with filesCount := files.length } (reached o files)).2 =
        .error f := by
  rw [phases_eq_walk, reached_eq_reachedFrom]
  exact walk_eq_workThrough 0 (jobs o files) _

/-! ### What is counted -/

theorem errors_handOver {s s' : ReportState} {d : Delivery} {found found' : List Finding}
    (h : handOver o d found s = (s', .ok found'))
    (hsame : ∀ f : Finding, f.severity = .error → (f ∈ d.results.findings ↔ f ∈ found)) :
    s'.counts.total.errors = 0 ↔
      s.counts.total.errors = 0 ∧ ∀ f ∈ found', f.severity ≠ .error := by
  unfold handOver at h
  have hcounts := Delivery.counts_perform (o := o.report) (s := s) (d := d)
  cases hperform : d.perform o.report s with
  | mk t fault =>
      rw [hperform] at h hcounts
      cases fault with
      | some f => simp at h
      | none =>
          cases h
          rw [show s'.counts = _ from hcounts rfl, errors_countAll_eq_zero_iff,
            Results.forall_hits_iff, Results.forall_ne_error_congr hsame]

/-- A piece of work that is done counts an error if it has found one. -/
theorem errors_process {s s' : ReportState} {j : Job} {found : List Finding}
    (h : j.process o files w s = (s', .ok found)) :
    s'.counts.total.errors = 0 ↔
      s.counts.total.errors = 0 ∧ ∀ f ∈ found, f.severity ≠ .error := by
  cases j with
  | feed c =>
      generalize hrun : c.run { root := o.report.root, files } { w with tree := s.tree } = outcome
      cases hfault : outcome.fault with
      | some f => simp [Job.process, hrun, hfault] at h
      | none =>
          simp only [Job.process, hrun, hfault] at h
          exact errors_handOver h fun f hf => Results.error_mem_feedResults_iff hf o _ _
  | file path pos =>
      generalize hexamine : examineUntilFault o.report.fix
        (Subject.ofTree s.tree o.report.root (path.resolve s.tree.here)) o.selection.fileChecks
        { w with tree := s.tree } = e
      obtain ⟨reports, fault, tree⟩ := e
      cases fault with
      | some f => simp [Job.process, hexamine] at h
      | none =>
          simp only [Job.process, hexamine] at h
          exact errors_handOver (s := { s with tree }) h fun f hf =>
            Results.error_mem_fileResults_iff hf o reports

/-- Pieces of work that are all done count an error if one of them has found one. -/
theorem errors_workThrough {s : ReportState} {js : List Job} {found : List Finding}
    (h : (workThrough o files w s js).2 = .ok found) :
    (workThrough o files w s js).1.counts.total.errors = 0 ↔
      s.counts.total.errors = 0 ∧ ∀ f ∈ found, f.severity ≠ .error := by
  induction js generalizing s found with
  | nil =>
      cases h
      simp [workThrough]
  | cons j more ih =>
      rw [workThrough] at h ⊢
      cases hprocess : j.process o files w s with
      | mk s' result =>
          rw [hprocess] at h
          cases result with
          | error f => simp at h
          | ok first =>
              simp only at h ⊢
              cases hlater : (workThrough o files w s' more).2 with
              | error f => simp [hlater, Except.map] at h
              | ok later =>
                  rw [hlater] at h
                  cases h
                  rw [ih hlater, errors_process hprocess, List.forall_mem_append, and_assoc]

/-! ### Answers -/

/-- An answer is about what has been counted before the end of the run. -/
theorem eq_of_conclude {o : ReportOptions} {elapsed : String} {b : Bool}
    (h : (conclude o elapsed s).2 = .ok b) : b = (s.counts.total.errors == 0) := by
  rw [conclude, following] at h
  split at h
  · cases h
  next htold =>
    have hcounts := counts_performAll htold
    generalize (ReportStep.performAll o s [Report.info 0 s!"Time elapsed: {elapsed}"]).1 = s'
      at h hcounts
    rw [following] at h
    split at h
    · cases h
    next hshown =>
      have hcounts' := counts_performAll hshown
      rw [hits_statisticSteps] at hcounts'
      rw [← Except.ok.inj h, hcounts', show s'.counts = s.counts from hcounts]
      rfl

/-- A run that answers has come through its phases, and its answer is about what they have left. -/
theorem phases_of_answer {b : Bool} (h : (run o files w s).2 = .ok b) :
    (begun o s).counts = s.counts ∧ (∀ f, (phases o files w (begun o s)).2 ≠ .failed f) ∧
      b = ((phases o files w (begun o s)).1.counts.total.errors == 0) := by
  rw [run_eq_following, announce] at h
  split at h
  · cases h
  rw [following] at h
  split at h
  · cases h
  next hnone =>
    have hcounts : (begun o s).counts = s.counts := by
      rw [begun, counts_performAll hnone, hits_overviewSteps]
      rfl
    change (finish o.report w.elapsed (phases o files w (begun o s))).2 = .ok b at h
    rw [finish] at h
    split at h
    · cases h
    next hend => exact ⟨hcounts, hend, eq_of_conclude h⟩

/-- **What success means.** Unless it is interrupted in front of one of them, a run reaches all its
pieces of work. A run that answers has done those that it reaches, and the answer is yes exactly if
no error was there before and none of them has found one. With its logs ready, a run answers if the
pieces of work that it reaches come to their end. -/
theorem answer_of_reached (o : RunOptions) (files : List Path) (w : Surroundings)
    (s : ReportState) :
    let start := { begun o s with filesCount := files.length }
    ((∀ n < (jobs o files).length, o.interruptAt ≠ some (n : Int)) →
      reached o files = jobs o files) ∧
    (∀ b, (run o files w s).2 = .ok b → ∃ found,
      workThrough o files w start (reached o files) =
        ((phases o files w (begun o s)).1, .ok found) ∧
      (b = true ↔ s.counts.total.errors = 0 ∧ ∀ f ∈ found, f.severity ≠ .error)) ∧
    (o.selection.isEmpty = false → Ready o.report.logFile s.tree →
      Ready o.report.statisticLogFile s.tree →
      (∃ found, (workThrough o files w start (reached o files)).2 = .ok found) →
      ∃ b, (run o files w s).2 = .ok b) := by
  intro start
  obtain ⟨hstate, hfailed⟩ := phases_eq_workThrough o files w (begun o s)
  refine ⟨fun h => ?_, fun b hb => ?_, fun hselection hlog hstatistic ⟨found, hfound⟩ => ?_⟩
  · rw [reached_eq_reachedFrom, reachedFrom_of_forall]
    simpa using h
  · obtain ⟨hbegun, hphases, rfl⟩ := phases_of_answer hb
    cases hresult : (workThrough o files w start (reached o files)).2 with
    | error f => exact absurd ((hfailed f).2 hresult) (hphases f)
    | ok found =>
        refine ⟨found, Prod.ext hstate.symm hresult, ?_⟩
        rw [beq_iff_eq, hstate, errors_workThrough hresult]
        show (begun o s).counts.total.errors = 0 ∧ _ ↔ _
        rw [hbegun]
  · refine ⟨_, answer_eq hselection hlog hstatistic fun f hf => ?_⟩
    rw [hfailed f, hfound] at hf
    cases hf

/-- Two files, an interruption in front of the second one: the run succeeds, for the first file is
clean. The second file has a tab, which is an error. -/
theorem answer_of_reached_of_two_files :
    let o : RunOptions :=
      { report := { root := ⟨"/", []⟩ }
        included := some (.listed ["check_tabs"])
        interruptAt := some 1 }
    let s : ReportState :=
      { tree := { entries := [(["a.nasl"], .file 0o644 [10]), (["b.nasl"], .file 0o644 [9, 10])] } }
    let w : Surroundings := { tree := .empty, now := default }
    let files : List Path := [⟨"/", ["a.nasl"]⟩, ⟨"/", ["b.nasl"]⟩]
    reached o files = [.file ⟨"/", ["a.nasl"]⟩ 1] ∧ (run o files w s).2 = .ok true ∧
      ∃ found s', workThrough o files w { begun o s with filesCount := 2 } (reached o files) =
        (s', .ok found) ∧ ∀ f ∈ found, f.severity ≠ .error := by
  intro o s w files
  have hrun : (run o files w s).2 = .ok true := by decide +kernel
  obtain ⟨found, hfound, hiff⟩ := (answer_of_reached o files w s).2.1 true hrun
  exact ⟨rfl, hrun, found, _, hfound, (hiff.1 rfl).2⟩

/-- An interruption in front of all work lets a run succeed that has done nothing, though its file
has an error. -/
theorem interrupted_run_succeeds :
    let o : RunOptions :=
      { report := { root := ⟨"/", []⟩ }
        included := some (.listed ["check_tabs"])
        interruptAt := some 0 }
    let s : ReportState := { tree := { entries := [(["a.nasl"], .file 0o644 [9, 10])] } }
    let w : Surroundings := { tree := .empty, now := default }
    let files : List Path := [⟨"/", ["a.nasl"]⟩]
    (run o files w s).2 = .ok true ∧ deliveries o files w (begun o s) = [] ∧
      ∃ found, (workThrough o files w (begun o s) (jobs o files)).2 = .ok found ∧
        ∃ f ∈ found, f.severity = .error := by
  intro o s w files
  refine ⟨by decide +kernel, rfl, _, rfl, ?_⟩
  decide +kernel

end Run

end NaslLint
