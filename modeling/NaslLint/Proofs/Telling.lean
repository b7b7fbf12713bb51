import NaslLint.Proofs.Results

/-!
# How much is told

How much a run says, whether it shows a statistic and whether it ignores warnings are matters of
telling. Two runs that do the same work and differ in telling go in lockstep: what they find, repair
and count is the same, warnings aside.

* `Counts.verdict` is what the counters hold of errors and fixes.
* `RunOptions.SameWork` relates options that differ in telling, and `ReportState.Agrees` the states
  of two such runs.
* `Run.Lockstep` relates two stretches of runs: `lockstep_proceed` is one delivery,
  `lockstep_feedPhase` and `lockstep_filePhase` are the phases.
-/

namespace NaslLint

/-! ## Errors and fixes -/

def Tally.verdict (t : Tally) : Nat × Nat :=
  (t.errors, t.fixes)

theorem Tally.verdict_count_warning (t : Tally) : (t.count .warning).verdict = t.verdict :=
  rfl

theorem Tally.verdict_count_congr {t t' : Tally} (h : t.verdict = t'.verdict) (s : Severity) :
    (t.count s).verdict = (t'.count s).verdict := by
  obtain ⟨herrors, hfixes⟩ := Prod.mk.inj h
  cases s <;> simp only [count, verdict, herrors, hfixes]

namespace Counts

def verdict (c : Counts) : (Nat × Nat) × (String → Nat × Nat) :=
  (c.total.verdict, fun name => ((c.byCheck.lookup name).getD {}).verdict)

/-- One more hit changes the counter of its check only; a note changes none. -/
theorem lookup_count (c : Counts) (name k : String) (s : Severity) :
    ((c.count name s).byCheck.lookup k).getD {} =
      if k = name then ((c.byCheck.lookup k).getD {}).count s
      else (c.byCheck.lookup k).getD {} := by
  cases s with
  | note => simp only [count, Tally.count, ite_self]
  | error | warning | fix =>
      rw [count, lookup_countUnder]
      · split <;> rfl
      · simp

theorem verdict_count_warning (c : Counts) (name : String) :
    (c.count name .warning).verdict = c.verdict := by
  unfold verdict
  congr 1
  ext1 k
  rw [lookup_count]
  split
  · exact Tally.verdict_count_warning _
  · rfl

theorem verdict_count_congr {c c' : Counts} (h : c.verdict = c'.verdict) (name : String)
    (s : Severity) : (c.count name s).verdict = (c'.count name s).verdict := by
  obtain ⟨htotal, hchecks⟩ := Prod.mk.inj h
  unfold verdict
  rw [total_count, total_count, Tally.verdict_count_congr htotal]
  congr 1
  ext1 k
  rw [lookup_count, lookup_count]
  split
  · exact Tally.verdict_count_congr (congrFun hchecks k) s
  · exact congrFun hchecks k

theorem verdict_countAll_congr {c c' : Counts} (h : c.verdict = c'.verdict) (hits : List Hit) :
    (c.countAll hits).verdict = (c'.countAll hits).verdict := by
  induction hits generalizing c c' with
  | nil => exact h
  | cons e hits ih => exact ih (verdict_count_congr h e.1 e.2)

/-- Warnings have no part in the verdict. -/
theorem verdict_countAll_filter (c : Counts) (hits : List Hit) :
    (c.countAll (hits.filter Hit.isGrave)).verdict = (c.countAll hits).verdict := by
  induction hits generalizing c with
  | nil => rfl
  | cons e hits ih =>
      obtain ⟨name, s⟩ := e
      by_cases hs : s = .warning
      · subst hs
        rw [List.filter_cons_of_neg (by simp [Hit.isGrave]), ih]
        exact verdict_countAll_congr (verdict_count_warning c name).symm hits
      · rw [List.filter_cons_of_pos (by simpa [Hit.isGrave] using hs)]
        exact ih (c.count name s)

end Counts

/-! ## Reports without logs -/

structure ReportOptions.Unlogged (o : ReportOptions) : Prop where
  logFile : o.logFile = none
  statisticLogFile : o.statisticLogFile = none

section
variable {o : ReportOptions} {s : ReportState}

theorem tree_perform_of_unlogged (h : o.Unlogged) (step : ReportStep) :
    (step.perform o s).1.tree = s.tree := by
  cases step with
  | count check severity => rfl
  | say line => simp only [ReportStep.perform, h.logFile, ReportStep.appendLog]
  | tabulate line => simp only [ReportStep.perform, h.statisticLogFile, ReportStep.appendLog]

theorem ReportOptions.Unlogged.ready (h : o.Unlogged) (tree : FileTree) :
    Ready o.logFile tree ∧ Ready o.statisticLogFile tree := by
  rw [h.logFile, h.statisticLogFile]
  constructor
  · rintro p ⟨⟩
  · rintro p ⟨⟩

/-- Without logs all steps are performed. They count their hits and touch no file. -/
theorem performAll_of_unlogged (h : o.Unlogged) (steps : List ReportStep) :
    ∃ s', ReportStep.performAll o s steps = (s', none) ∧ s'.tree = s.tree ∧
      s'.counts = s.counts.countAll (steps.filterMap ReportStep.hit?) := by
  obtain ⟨hlog, hstatistic⟩ := h.ready s.tree
  have hnone := (performAll_of_ready steps hlog hstatistic).1
  refine ⟨_, Prod.ext rfl hnone, ?_, counts_performAll hnone⟩
  clear hlog hstatistic hnone
  induction steps generalizing s with
  | nil => rfl
  | cons step more ih =>
      have htree := tree_perform_of_unlogged (s := s) h step
      rw [ReportStep.performAll]
      split
      next s' hs' =>
        rw [hs'] at htree
        exact ih.trans htree
      next s' f hs' =>
        rw [hs'] at htree
        exact htree

theorem Delivery.perform_of_unlogged {d : Delivery} (h : o.Unlogged)
    (hd : d.IsBelow o.root s.tree.here) :
    ∃ s', d.perform o s = (s', none) ∧ s'.tree = s.tree ∧
      s'.counts = s.counts.countAll d.results.hits := by
  obtain ⟨steps, hsteps⟩ := exists_steps (o := o) s.filesCount hd
  obtain ⟨s', hs', htree, -⟩ := performAll_of_unlogged (s := s) h steps
  have hperform : d.perform o s = (s', none) := by
    rw [perform, hsteps]
    exact hs'
  have hcounts := counts_perform (o := o) (s := s) (d := d) (by rw [hperform])
  rw [hperform] at hcounts
  exact ⟨s', hperform, htree, hcounts⟩

end

/-! ## Options and states -/

def Delivery.withoutWarnings : Delivery → Delivery
  | feed r => feed r.withoutWarnings
  | file path pos r => file path pos r.withoutWarnings

/-- Options that do the same work, without logs, and may differ in how they tell of it. -/
structure RunOptions.SameWork (a b : RunOptions) : Prop where
  root_eq : a.report.root = b.report.root
  fix_eq : a.report.fix = b.report.fix
  excluded_eq : a.excluded = b.excluded
  included_eq : a.included = b.included
  interruptAt_eq : a.interruptAt = b.interruptAt
  left_unlogged : a.report.Unlogged
  right_unlogged : b.report.Unlogged

/-- States that differ in nothing but what has been told and in warnings. -/
structure ReportState.Agrees (s s' : ReportState) : Prop where
  tree_eq : s.tree = s'.tree
  verdict_eq : s.counts.verdict = s'.counts.verdict

theorem ReportState.Agrees.countAll {s s' t t' : ReportState} (h : s.Agrees s') {r r' : Results}
    (hr : r.withoutWarnings = r'.withoutWarnings) (ht : t.tree = s.tree) (ht' : t'.tree = s'.tree)
    (hcounts : t.counts = s.counts.countAll r.hits)
    (hcounts' : t'.counts = s'.counts.countAll r'.hits) : t.Agrees t' := by
  refine ⟨ht.trans (h.tree_eq.trans ht'.symm), ?_⟩
  calc t.counts.verdict
      = (s.counts.countAll (r.hits.filter Hit.isGrave)).verdict := by
        rw [hcounts, Counts.verdict_countAll_filter]
    _ = (s'.counts.countAll (r'.hits.filter Hit.isGrave)).verdict := by
        rw [← r.hits_withoutWarnings, hr, r'.hits_withoutWarnings]
        exact Counts.verdict_countAll_congr h.verdict_eq _
    _ = t'.counts.verdict := by
        rw [hcounts', Counts.verdict_countAll_filter]

namespace Run
variable {a b : RunOptions} {files : List Path} {w : Surroundings} {s s' : ReportState}

/-- Two stretches of runs that end alike, in states that agree, having handed over the same but for
warnings. -/
structure Lockstep (r r' : ReportState × RunEnd) (ds ds' : List Delivery) : Prop where
  end_eq : r.2 = r'.2
  agrees : r.1.Agrees r'.1
  deliveries_eq : ds.map Delivery.withoutWarnings = ds'.map Delivery.withoutWarnings

theorem lockstep_of_agrees (h : s.Agrees s') (e : RunEnd) : Lockstep (s, e) (s', e) [] [] :=
  ⟨rfl, h, rfl⟩

/-- Runs that have handed over the same stay in lockstep if what follows does. -/
theorem lockstep_proceed {d d' : Delivery} {next next' : ReportState → ReportState × RunEnd}
    {later later' : ReportState → List Delivery} (hab : a.SameWork b) (h : s.Agrees s')
    (hd : d.IsBelow a.report.root s.tree.here) (hd' : d'.IsBelow b.report.root s'.tree.here)
    (hsame : d.withoutWarnings = d'.withoutWarnings)
    (hresults : d.results.withoutWarnings = d'.results.withoutWarnings)
    (hnext : ∀ t t', t.tree = s.tree → t.Agrees t' →
      Lockstep (next t) (next' t') (later t) (later' t')) :
    Lockstep (proceed (d.perform a.report s) next) (proceed (d'.perform b.report s') next')
      (d :: match d.perform a.report s with
        | (_, some _) => []
        | (s, none) => later s)
      (d' :: match d'.perform b.report s' with
        | (_, some _) => []
        | (s, none) => later' s) := by
  obtain ⟨t, ht, htree, hcounts⟩ := Delivery.perform_of_unlogged (s := s) hab.left_unlogged hd
  obtain ⟨t', ht', htree', hcounts'⟩ := Delivery.perform_of_unlogged (s := s') hab.right_unlogged hd'
  obtain ⟨hend, hagrees, hlater⟩ := hnext t t' htree (h.countAll hresults htree htree' hcounts hcounts')
  rw [ht, ht']
  refine ⟨hend, hagrees, ?_⟩
  rw [List.map_cons, List.map_cons, hsame]
  exact congrArg _ hlater

def ignoring (o : RunOptions) : RunOptions :=
  { o with report := { o.report with ignoreWarnings := true } }

/-- Whether or not warnings are ignored, the same remains without them. -/
theorem withoutWarnings_fileResults_congr (reports : List CheckReport) :
    (fileResults a reports).withoutWarnings = (fileResults b reports).withoutWarnings := by
  rw [Results.withoutWarnings_fileResults (b := ignoring b) reports rfl,
    Results.withoutWarnings_fileResults (b := ignoring b) reports rfl]

theorem withoutWarnings_feedResults_congr (hfix : a.report.fix = b.report.fix) (name : String)
    (findings : List Finding) :
    (feedResults a name findings).withoutWarnings =
      (feedResults b name findings).withoutWarnings := by
  rw [Results.withoutWarnings_feedResults (b := ignoring b) name findings hfix rfl,
    Results.withoutWarnings_feedResults (a := b) (b := ignoring b) name findings rfl rfl]

theorem lockstep_feedPhase (files : List Path) (w : Surroundings) (hab : a.SameWork b)
    (checks : List FeedCheck) (work : Nat) (s s' : ReportState) (h : s.Agrees s') :
    Lockstep (feedPhase a files w work checks s) (feedPhase b files w work checks s')
      (feedDeliveries a files w work checks s) (feedDeliveries b files w work checks s') := by
  induction checks generalizing work s s' with
  | nil => exact lockstep_of_agrees h .finished
  | cons c more ih =>
      have hints : interrupts a work = interrupts b work := by
        rw [interrupts, interrupts, hab.interruptAt_eq]
      rw [feedDeliveries, feedDeliveries]
      by_cases hint : interrupts b work = true
      · simp only [feedPhase, hints, if_pos hint]
        exact lockstep_of_agrees h .interrupted
      · -- both runs let the check look at the same files
        have hrun : c.run { root := a.report.root, files } { w with tree := s.tree } =
            c.run { root := b.report.root, files } { w with tree := s'.tree } := by
          rw [hab.root_eq, h.tree_eq]
        rw [hints, if_neg hint, if_neg hint, hrun]
        generalize hfound : c.run { root := b.report.root, files } { w with tree := s'.tree } =
          found
        cases hfault : found.fault with
        | some f =>
            simp only [feedPhase, hints, if_neg hint, hrun, hfound, hfault]
            exact lockstep_of_agrees h (.failed f)
        | none =>
            rw [feedPhase_cons_of_found (hints ▸ hint) (hrun.trans hfound) hfault,
              feedPhase_cons_of_found hint hfound hfault]
            have hresults := withoutWarnings_feedResults_congr hab.fix_eq c.name found.results
            simp only [hfault]
            exact lockstep_proceed hab h trivial trivial (congrArg Delivery.feed hresults) hresults
              fun t t' _ => ih (work + 1) t t'

theorem lockstep_filePhase (hab : a.SameWork b) (checks : List FileCheck)
    (work pos : Nat) (s s' : ReportState) (h : s.Agrees s')
    (hbelow : ∀ file ∈ files, (file.fromRoot? b.report.root s.tree.here).isSome = true) :
    Lockstep (filePhase a checks w work pos files s) (filePhase b checks w work pos files s')
      (fileDeliveries a checks w work pos files s)
      (fileDeliveries b checks w work pos files s') := by
  induction files generalizing work pos s s' with
  | nil => exact lockstep_of_agrees h .finished
  | cons file more ih =>
      obtain ⟨hfile, hmore⟩ := List.forall_mem_cons.1 hbelow
      have hints : interrupts a work = interrupts b work := by
        rw [interrupts, interrupts, hab.interruptAt_eq]
      rw [fileDeliveries, fileDeliveries]
      by_cases hint : interrupts b work = true
      · simp only [filePhase, hints, if_pos hint]
        exact lockstep_of_agrees h .interrupted
      · -- both runs examine the same file and repair it alike
        have hrun : examineUntilFault a.report.fix
            (Subject.ofTree s.tree a.report.root (file.resolve s.tree.here))
            checks { w with tree := s.tree } =
            examineUntilFault b.report.fix
              (Subject.ofTree s'.tree b.report.root (file.resolve s'.tree.here)) checks
              { w with tree := s'.tree } := by
          rw [hab.root_eq, hab.fix_eq, h.tree_eq]
        simp only [hints, if_neg hint, hrun]
        generalize hexamine : examineUntilFault b.report.fix
          (Subject.ofTree s'.tree b.report.root (file.resolve s'.tree.here))
          checks { w with tree := s'.tree } = e
        obtain ⟨reports, fault, tree⟩ := e
        have htree : ReportState.Agrees { s with tree } { s' with tree } := ⟨rfl, h.verdict_eq⟩
        have hhere : tree.here = s.tree.here := by
          have hextends := extends_examineUntilFault (w := { w with tree := s'.tree })
            b.report.fix (.ofTree s'.tree b.report.root (file.resolve s'.tree.here)) checks
          rw [hexamine] at hextends
          exact hextends.here.trans (congrArg FileTree.here h.tree_eq.symm)
        cases fault with
        | some f =>
            simp only [filePhase, hints, if_neg hint, hrun, hexamine]
            exact lockstep_of_agrees htree (.failed f)
        | none =>
            rw [filePhase_cons_of_examined (hints ▸ hint) (hrun.trans hexamine),
              filePhase_cons_of_examined hint hexamine]
            have hresults := withoutWarnings_fileResults_congr (a := a) (b := b) reports
            simp only
            have hbelow : (Delivery.file file pos (fileResults b reports)).IsBelow b.report.root
                tree.here := hhere ▸ hfile
            refine lockstep_proceed hab htree (hab.root_eq ▸ hbelow) hbelow
              (congrArg (Delivery.file file pos) hresults) hresults fun t t' htree' hagrees =>
                ih (work + 1) (pos + 1) t t' hagrees ?_
            rwa [htree', hhere]

theorem selection_congr (hab : a.SameWork b) : a.selection = b.selection := by
  rw [RunOptions.selection, RunOptions.selection, hab.excluded_eq, hab.included_eq]

theorem lockstep_phases (hab : a.SameWork b)
    (hbelow : ∀ file ∈ files, (file.fromRoot? b.report.root s.tree.here).isSome = true)
    (h : s.Agrees s') :
    Lockstep (phases a files w s) (phases b files w s') (deliveries a files w s)
      (deliveries b files w s') := by
  have hstart : ReportState.Agrees { s with filesCount := files.length }
      { s' with filesCount := files.length } := ⟨h.tree_eq, h.verdict_eq⟩
  have hfeed := lockstep_feedPhase files w hab b.selection.feedChecks 0 _ _ hstart
  have hhere := (extends_feedPhase (o := a) (w := w) files b.selection.feedChecks 0
    { s with filesCount := files.length }).here
  rw [phases, phases, deliveries, deliveries, selection_congr hab]
  generalize feedPhase a files w 0 b.selection.feedChecks
    { s with filesCount := files.length } = r at hfeed hhere ⊢
  generalize feedPhase b files w 0 b.selection.feedChecks
    { s' with filesCount := files.length } = r' at hfeed ⊢
  obtain ⟨t, e⟩ := r
  obtain ⟨t', e'⟩ := r'
  obtain ⟨hend, hagrees, hdeliveries⟩ := hfeed
  obtain rfl : e = e' := hend
  cases e with
  | finished =>
      have hfiles := lockstep_filePhase (w := w) hab b.selection.fileChecks
        b.selection.feedChecks.length 1 t t' hagrees (by rwa [hhere])
      refine ⟨hfiles.end_eq, hfiles.agrees, ?_⟩
      rw [List.map_append, List.map_append, hdeliveries]
      exact congrArg _ hfiles.deliveries_eq
  | interrupted => exact ⟨rfl, hagrees, by simpa using hdeliveries⟩
  | failed f => exact ⟨rfl, hagrees, by simpa using hdeliveries⟩

/-! ## Whole runs -/

def answer (r : ReportState × RunEnd) : Except Fault Bool :=
  match r.2 with
  | .failed f => .error f
  | _ => .ok (r.1.counts.total.errors == 0)

theorem conclude_of_unlogged {o : ReportOptions} (h : o.Unlogged) (elapsed : String)
    (s : ReportState) :
    ∃ t, conclude o elapsed s = (t, .ok (s.counts.total.errors == 0)) ∧ t.tree = s.tree ∧
      t.counts = s.counts := by
  obtain ⟨s₁, htold, htree₁, hcounts₁⟩ := performAll_of_unlogged (s := s) h
    [Report.info 0 s!"Time elapsed: {elapsed}"]
  obtain ⟨s₂, hshown, htree₂, hcounts₂⟩ := performAll_of_unlogged (s := s₁) h
    (Report.statisticSteps o s₁.counts)
  rw [hits_statisticSteps] at hcounts₂
  have hcounts : s₂.counts = s.counts := hcounts₂.trans hcounts₁
  refine ⟨s₂, ?_, htree₂.trans htree₁, hcounts⟩
  simp only [conclude, following, htold, hshown, hcounts]

/-- Without logs, all that a run does in front of its phases and after them is to tell. -/
theorem run_of_unlogged {o : RunOptions} (files : List Path) (w : Surroundings) (s : ReportState)
    (h : o.report.Unlogged) (hselection : o.selection.isEmpty = false) :
    ∃ t, run o files w s = (t, answer (phases o files w (begun o s))) ∧
      t.tree = (phases o files w (begun o s)).1.tree ∧
      t.counts = (phases o files w (begun o s)).1.counts := by
  obtain ⟨s₁, hbegun, -, -⟩ := performAll_of_unlogged (s := s) h
    (Report.overviewSteps o.report o.excluded o.included)
  have hrun : run o files w s = finish o.report w.elapsed (phases o files w (begun o s)) := by
    rw [run_eq_following, announce, if_neg (by simp [hselection]), following, begun, hbegun]
  rw [hrun, finish, answer]
  obtain ⟨t, ht, htree, hcounts⟩ := conclude_of_unlogged h w.elapsed (phases o files w (begun o s)).1
  cases (phases o files w (begun o s)).2 with
  | failed f => exact ⟨_, rfl, rfl, rfl⟩
  | finished | interrupted => exact ⟨t, ht, htree, hcounts⟩

/-- Runs that do the same work begin in states that agree. -/
theorem agrees_begun (hab : a.SameWork b) (s : ReportState) : (begun a s).Agrees (begun b s) := by
  obtain ⟨t, ht, htree, hcounts⟩ := performAll_of_unlogged (s := s) hab.left_unlogged
    (Report.overviewSteps a.report a.excluded a.included)
  obtain ⟨t', ht', htree', hcounts'⟩ := performAll_of_unlogged (s := s) hab.right_unlogged
    (Report.overviewSteps b.report b.excluded b.included)
  rw [hits_overviewSteps] at hcounts hcounts'
  rw [begun, begun, ht, ht']
  exact ⟨htree.trans htree'.symm, congrArg Counts.verdict (hcounts.trans hcounts'.symm)⟩

theorem answer_congr {r r' : ReportState × RunEnd} {ds ds' : List Delivery}
    (h : Lockstep r r' ds ds') : answer r = answer r' := by
  have herrors : r.1.counts.total.errors = r'.1.counts.total.errors :=
    congrArg (fun v => v.1.1) h.agrees.verdict_eq
  unfold answer
  rw [h.end_eq, herrors]

theorem agrees_run (hab : a.SameWork b)
    {s : ReportState}
    (hbelow : ∀ file ∈ files, (file.fromRoot? b.report.root s.tree.here).isSome = true) :
    (run a files w s).2 = (run b files w s).2 ∧ (run a files w s).1.Agrees (run b files w s).1 := by
  by_cases hselection : b.selection.isEmpty = true
  · have hnone {o : RunOptions} (h : o.selection.isEmpty = true) :
        run o files w s = (s, .error .noChecks) := by
      rw [run, announce, if_pos h]
    rw [hnone hselection, hnone (selection_congr hab ▸ hselection)]
    exact ⟨rfl, rfl, rfl⟩
  · have hnonempty : b.selection.isEmpty = false := by simpa using hselection
    rw [← (extends_begun (o := a) s).here] at hbelow
    have hlock := lockstep_phases (w := w) hab hbelow (agrees_begun hab s)
    obtain ⟨t, ht, htree, hcounts⟩ := run_of_unlogged files w s hab.left_unlogged
      (selection_congr hab ▸ hnonempty)
    obtain ⟨t', ht', htree', hcounts'⟩ := run_of_unlogged files w s hab.right_unlogged hnonempty
    rw [ht, ht']
    refine ⟨answer_congr hlock, ?_, ?_⟩
    · exact htree.trans (hlock.agrees.tree_eq.trans htree'.symm)
    · show t.counts.verdict = t'.counts.verdict
      rw [hcounts, hcounts']
      exact hlock.agrees.verdict_eq

/-! ## What is handed over -/

section
variable {o : RunOptions} {P : Delivery → Prop}

theorem forall_feedDeliveries
    (hP : ∀ name findings, P (.feed (feedResults o name findings))) (checks : List FeedCheck)
    (work : Nat) (s : ReportState) : ∀ d ∈ feedDeliveries o files w work checks s, P d := by
  induction checks generalizing work s with
  | nil => simp [feedDeliveries]
  | cons c more ih =>
      intro d hd
      rw [feedDeliveries] at hd
      split at hd
      · cases hd
      · simp only at hd
        split at hd
        · cases hd
        · rcases List.mem_cons.1 hd with rfl | hd
          · exact hP _ _
          · split at hd
            · cases hd
            · exact ih _ _ d hd

theorem forall_fileDeliveries (hP : ∀ file pos reports, P (.file file pos (fileResults o reports)))
    (checks : List FileCheck) (work pos : Nat) (s : ReportState) :
    ∀ d ∈ fileDeliveries o checks w work pos files s, P d := by
  induction files generalizing work pos s with
  | nil => simp [fileDeliveries]
  | cons file more ih =>
      intro d hd
      rw [fileDeliveries] at hd
      split at hd
      · cases hd
      · simp only at hd
        split at hd
        · cases hd
        · rcases List.mem_cons.1 hd with rfl | hd
          · exact hP _ _ _
          · split at hd
            · cases hd
            · exact ih _ _ _ d hd

/-- A run that ignores warnings hands over results that no warning is left in. -/
theorem withoutWarnings_of_mem_deliveries (h : o.report.ignoreWarnings = true) :
    ∀ d ∈ deliveries o files w s, d.withoutWarnings = d := by
  intro d hd
  rw [deliveries] at hd
  rcases List.mem_append.1 hd with hd | hd
  · refine forall_feedDeliveries (P := fun d => d.withoutWarnings = d)
      (fun name findings => ?_) _ _ _ d hd
    exact congrArg Delivery.feed (Results.withoutWarnings_feedResults name findings rfl h)
  · split at hd
    · refine forall_fileDeliveries (P := fun d => d.withoutWarnings = d)
        (fun file pos reports => ?_) _ _ _ _ d hd
      exact congrArg (Delivery.file file pos) (Results.withoutWarnings_fileResults reports h)
    · cases hd

end

end Run

def RunOptions.telling (o : RunOptions) (verbosity : Int) (statistic ignoreWarnings : Bool) :
    RunOptions :=
  { o with report := { o.report with verbosity, statistic, ignoreWarnings } }

/-- **Telling has no part in the verdict.** Without logs and with all files below the root, two runs
that differ in telling give the same answer or fail with the same fault. They count the same errors
and fixes, in total and of each check, and leave the same files. If one of them ignores warnings, it
hands over what the other one does with the warnings removed, in the same order, and the results say
that there is a finding just if one remains. -/
theorem verdict_of_telling (o : RunOptions) (files : List Path) (w : Surroundings)
    (s : ReportState) (hlog : o.report.logFile = none)
    (hstatistic : o.report.statisticLogFile = none)
    (hbelow : ∀ file ∈ files, (file.fromRoot? o.report.root s.tree.here).isSome = true)
    (v v' : Int) (st st' iw iw' : Bool) :
    let a := o.telling v st iw
    let b := o.telling v' st' iw'
    (run a files w s).2 = (run b files w s).2 ∧
      (run a files w s).1.counts.verdict = (run b files w s).1.counts.verdict ∧
      (run a files w s).1.tree = (run b files w s).1.tree ∧
      (iw' = true →
        Run.deliveries b files w (Run.begun b s) =
          (Run.deliveries a files w (Run.begun a s)).map Delivery.withoutWarnings ∧
        ∀ d ∈ Run.deliveries b files w (Run.begun b s),
          d.results.any = true ↔ ∃ e ∈ d.results.entries, e.2 ≠ []) := by
  intro a b
  have hab : a.SameWork b := ⟨rfl, rfl, rfl, rfl, rfl, ⟨hlog, hstatistic⟩, ⟨hlog, hstatistic⟩⟩
  obtain ⟨hanswer, hagrees⟩ := Run.agrees_run (w := w) hab hbelow
  refine ⟨hanswer, hagrees.verdict_eq, hagrees.tree_eq, ?_⟩
  intro hiw
  have hbare : ∀ d ∈ Run.deliveries b files w (Run.begun b s), d.withoutWarnings = d :=
    Run.withoutWarnings_of_mem_deliveries hiw
  rw [← (Run.extends_begun (o := a) s).here] at hbelow
  have hlock := Run.lockstep_phases (w := w) hab hbelow (Run.agrees_begun hab s)
  constructor
  · rw [hlock.deliveries_eq, List.map_congr_left hbare, List.map_id']
  · intro d hd
    rw [← hbare d hd]
    cases d with
    | feed r => exact r.any_withoutWarnings
    | file path pos r => exact r.any_withoutWarnings

def todoOptions : RunOptions :=
  { report := { root := ⟨"/", []⟩ }
    included := some (.listed ["check_tabs", "check_todo_tbd"]) }

/-- A script with a tab and a remark that something is left to do. -/
def todoState : ReportState :=
  { tree := { entries := [(["a.nasl"], .file 0o644 [9, 35, 32, 84, 79, 68, 79, 10])] } }

def todoRun (verbosity : Int) (statistic ignoreWarnings : Bool) :
    ReportState × Except Fault Bool :=
  run (todoOptions.telling verbosity statistic ignoreWarnings) [⟨"/", ["a.nasl"]⟩]
    { tree := .empty, now := default } todoState

/-- One run tells everything, the other one ignores the warning and tells nothing. Both answer that
there is an error. -/
theorem verdict_of_telling_of_todo :
    ((todoRun 3 true false).2 = .ok false ∧ (todoRun 3 true false).1.counts.total = ⟨1, 1, 0⟩) ∧
      (todoRun 0 false true).2 = .ok false ∧
      (todoRun 0 false true).1.counts.verdict.1 = (1, 0) ∧
      (todoRun 0 false true).1.tree = (todoRun 3 true false).1.tree := by
  have hloud : (todoRun 3 true false).2 = .ok false ∧
      (todoRun 3 true false).1.counts.total = ⟨1, 1, 0⟩ := by decide +kernel
  obtain ⟨hanswer, hverdict, htree, -⟩ := verdict_of_telling todoOptions [⟨"/", ["a.nasl"]⟩]
    { tree := .empty, now := default } todoState rfl rfl (by decide +kernel) 3 0 true false false
    true
  refine ⟨hloud, hanswer.symm.trans hloud.1, ?_, htree.symm⟩
  have htotal : (todoRun 3 true false).1.counts.verdict.1 = (1, 0) :=
    congrArg Tally.verdict hloud.2
  exact (congrArg Prod.fst hverdict.symm).trans htotal

end NaslLint
