import NaslLint.Command.Lint
import NaslLint.Proofs.Course
import NaslLint.Proofs.RootedChecks

/-!
# How the root is written

Two sessions are told the same directory as their root, but in different words. They take the same
course as long as no piece of work tells the roots apart. A file of which there is something to report
does, if only one of the roots leads to it without detours; so does a detection script that only one of
the roots leads to as it is written. The texts of findings may differ in any case, since some of them
name the root, and the log with them.

* `Run.Job.TellsApart` says when a piece of work tells two roots apart.
* `Run.parallel_under` compares the phases of two runs, `Run.agrees_under` whole runs.
* `LintSettings.course` is the course of a session, and `lint_of_root_spelling` compares two sessions.
-/

namespace NaslLint

open Checks

/-! ## Reports below two roots -/

def ReportOptions.under (o : ReportOptions) (root : Path) : ReportOptions :=
  { o with root }

def RunOptions.under (o : RunOptions) (root : Path) : RunOptions :=
  { o with report := o.report.under root }

section
variable {o : ReportOptions} {p q : Path} {s s' : ReportState} {loose : Option Path}

theorem sameLogs_under : (o.under p).SameLogs (o.under q) :=
  ⟨rfl, rfl⟩

theorem performAll_under (s : ReportState) (steps : List ReportStep) :
    ReportStep.performAll (o.under p) s steps = ReportStep.performAll (o.under q) s steps := by
  have hperform (s : ReportState) (step : ReportStep) :
      step.perform (o.under p) s = step.perform (o.under q) s := by
    cases step <;> rfl
  induction steps generalizing s with
  | nil => rfl
  | cons step more ih =>
      rw [ReportStep.performAll, ReportStep.performAll, hperform]
      cases step.perform (o.under q) s with
      | mk s' fault =>
          cases fault with
          | some f => rfl
          | none => exact ih s'

/-- Steps of a report fail if a log cannot be written, and for no other reason. -/
theorem fault_performAll_ne (s : ReportState) (steps : List ReportStep) :
    (ReportStep.performAll o s steps).2 ≠ some .outsideRoot := by
  have hperform (s : ReportState) (step : ReportStep) :
      (step.perform o s).2 ≠ some .outsideRoot := by
    cases step with
    | count check severity => simp [ReportStep.perform]
    | say line | tabulate line =>
        rw [ReportStep.perform]
        dsimp only
        split <;> simp
  induction steps generalizing s with
  | nil => simp [ReportStep.performAll]
  | cons step more ih =>
      have hstep := hperform s step
      rw [ReportStep.performAll]
      cases hs : step.perform o s with
      | mk s' fault =>
          rw [hs] at hstep
          cases fault with
          | some f => exact hstep
          | none => exact ih s'

theorem perform_feed_under (s : ReportState) (r : Results) :
    (Delivery.feed r).perform (o.under p) s = (Delivery.feed r).perform (o.under q) s :=
  performAll_under s _

variable {path : Path} {pos : Int} {r r' : Results}

/-- A file with a heading has to lie below the root. -/
theorem outsideRoot_perform_iff (hheading : Report.hasHeading o r = true) :
    ((Delivery.file path pos r).perform o s).2 = some .outsideRoot ↔
      path.fromRoot? o.root s.tree.here = none := by
  rw [Delivery.perform, Delivery.steps, Report.fileSteps, if_pos hheading]
  cases path.fromRoot? o.root s.tree.here with
  | none => exact iff_of_true rfl rfl
  | some relative => exact iff_of_false (fault_performAll_ne s _) (by simp)

theorem steps_file_under {here : Location} {count : Int}
    (h : Report.hasHeading o r = true → path.fromRoot? p here = path.fromRoot? q here) :
    (Delivery.file path pos r).steps (o.under p) here count =
      (Delivery.file path pos r).steps (o.under q) here count := by
  simp only [Delivery.steps, Report.fileSteps]
  by_cases hheading : Report.hasHeading o r = true
  · rw [if_pos (show Report.hasHeading (o.under p) r = true from hheading),
      if_pos (show Report.hasHeading (o.under q) r = true from hheading),
      show (o.under p).root = p from rfl, show (o.under q).root = q from rfl, h hheading]
    rfl
  · rw [if_neg (show ¬ Report.hasHeading (o.under p) r = true from hheading),
      if_neg (show ¬ Report.hasHeading (o.under q) r = true from hheading)]
    rfl

/-- **A file is reported below two roots.** The reports take the same course if the results are the
same without texts and, should there be a heading, the file lies below both roots or below none. -/
theorem perform_file_iff (path : Path) (pos : Int) (hs : s.Alike loose s')
    (hroots : s.tree.SameDirectory p q)
    (hlog : r.bare = r'.bare → loose = o.logFile ∨ o.verbosity ≤ 0 ∨ r = r') :
    let d := (Delivery.file path pos r).perform (o.under p) s
    let d' := (Delivery.file path pos r').perform (o.under q) s'
    (r.bare = r'.bare ∧ d.2 = d'.2 ↔ r.bare = r'.bare ∧ (Report.hasHeading o r = true →
      (path.fromRoot? p s.tree.here).isSome = (path.fromRoot? q s.tree.here).isSome)) ∧
    (r.bare = r'.bare ∧ d.2 = d'.2 → d.1.Alike loose d'.1) := by
  intro d d'
  have hname (hbare : r.bare = r'.bare) (hstop : d.2 = d'.2)
      (hheading : Report.hasHeading o r = true) :
      (path.fromRoot? p s.tree.here).isSome = (path.fromRoot? q s.tree.here).isSome := by
    have hany : r.bare.any = r'.bare.any := congrArg Results.any hbare
    have hheading' : Report.hasHeading o r' = true := by
      rwa [Report.hasHeading, show r'.any = r.any from hany.symm]
    have hout : d.2 = some .outsideRoot ↔ path.fromRoot? p s.tree.here = none :=
      outsideRoot_perform_iff (o := o.under p) hheading
    have hout' : d'.2 = some .outsideRoot ↔ path.fromRoot? q s'.tree.here = none :=
      outsideRoot_perform_iff (o := o.under q) hheading'
    rw [hs.tree.here] at hout'
    rw [Bool.eq_iff_iff, ← not_iff_not, Option.not_isSome_iff_eq_none, Option.not_isSome_iff_eq_none,
      ← hout, ← hout', hstop]
  have halike (hbare : r.bare = r'.bare) (hname : Report.hasHeading o r = true →
      (path.fromRoot? p s.tree.here).isSome = (path.fromRoot? q s.tree.here).isSome) :
      d.1.Alike loose d'.1 ∧ d.2 = d'.2 := by
    have hnames : (Delivery.file path pos r).steps (o.under p) s.tree.here s.filesCount =
        (Delivery.file path pos r).steps (o.under q) s'.tree.here s'.filesCount := by
      rw [hs.tree.here, ← hs.filesCount_eq]
      exact steps_file_under fun h => Path.fromRoot?_congr hroots (hname h)
    have htexts : (Delivery.file path pos r).bare = (Delivery.file path pos r').bare :=
      congrArg (Delivery.file path pos) hbare
    refine Delivery.alike_perform sameLogs_under hs ?_ ?_
    · rw [hnames, Delivery.map_bare_steps, htexts, ← Delivery.map_bare_steps]
    · refine (hlog hbare).imp_right fun h => hnames.trans ?_
      rcases h with hquiet | rfl
      · have hquiet' : (o.under q).verbosity ≤ 0 := hquiet
        rw [← Delivery.steps_bare hquiet', htexts, Delivery.steps_bare hquiet']
      · rfl
  constructor
  · exact ⟨fun h => ⟨h.1, hname h.1 h.2⟩, fun h => ⟨h.1, (halike h.1 h.2).2⟩⟩
  · exact fun h => (halike h.1 (hname h.1 h.2)).1

end

namespace Run
variable {o : RunOptions} {files : List Path} {w : Surroundings} {s s' : ReportState} {p q : Path}
  {loose : Option Path}

/-! ## Pieces of work below two roots -/

def Job.subject? (o : RunOptions) (s : ReportState) : Job → Option Subject
  | feed _ => none
  | file path _ => some (Subject.ofTree s.tree o.report.root (path.resolve s.tree.here))

/-- A piece of work tells two roots apart. For a check of the feed, it fails below one of them only. A
file is examined, and only one of the roots leads to the place of a detection script, or the file gets
a heading and lies below one of the roots only. -/
def Job.TellsApart (o : RunOptions) (files : List Path) (w : Surroundings) (p q : Path)
    (s : ReportState) : Job → Prop
  | feed c =>
    let w := { w with tree := s.tree }
    (c.run ⟨p, files⟩ w).fault.isSome ≠ (c.run ⟨q, files⟩ w).fault.isSome
  | file path _ =>
    let subject := Subject.ofTree s.tree p (path.resolve s.tree.here)
    let e := examineUntilFault o.report.fix subject o.selection.fileChecks { w with tree := s.tree }
    e.2.1 = none ∧
      (detectionPlacement.name ∈ o.selection.fileChecks.map (·.name) ∧
          subject.isJudgedApart p q = true ∨
        Report.hasHeading o.report (fileResults o e.1) = true ∧
          (path.fromRoot? p s.tree.here).isSome ≠ (path.fromRoot? q s.tree.here).isSome)

instance (o : RunOptions) (files : List Path) (w : Surroundings) (p q : Path) (s : ReportState) :
    DecidablePred (Job.TellsApart o files w p q s)
  | .feed _ => inferInstanceAs (Decidable (_ ≠ _))
  | .file _ _ => inferInstanceAs (Decidable (_ ∧ _))

/-- The check of places looks at a detection script that is misplaced. -/
def Job.FindsMisplaced (o : RunOptions) (s : ReportState) (j : Job) : Prop :=
  detectionPlacement.name ∈ o.selection.fileChecks.map (·.name) ∧
    ∃ subject ∈ j.subject? o s, subject.isMisplaced = true

/-- What is told of a misplaced script names the root. -/
def Job.NamesRoot (o : RunOptions) (s : ReportState) (j : Job) : Prop :=
  0 < o.report.verbosity ∧ j.FindsMisplaced o s

/-- One of the files that a piece of work reads is the log. -/
def Job.ReadsLog (o : RunOptions) (s : ReportState) (j : Job) : Prop :=
  ∃ subject ∈ j.subject? o s, ∃ path ∈ subject.consults, ¬ s.tree.Avoids o.report.logFile path

/-- What may differ between two runs does not reach a piece of work, and it does not add to it. -/
structure Job.Fits (o : RunOptions) (loose : Option Path) (j : Job) (s : ReportState) : Prop where
  avoids : ∀ subject ∈ j.subject? o s, ∀ path ∈ subject.consults, s.tree.Avoids loose path
  log : loose = o.report.logFile ∨ ¬ j.NamesRoot o s

/-- What the steps of two runs keep: states that are alike, and roots that lead to one directory. -/
structure Abreast (loose : Option Path) (p q : Path) (s s' : ReportState) : Prop where
  alike : s.Alike loose s'
  roots : s.tree.SameDirectory p q

theorem sublist_fileChecks_of (o : RunOptions) : o.selection.fileChecks.Sublist fileChecks := by
  rw [RunOptions.selection, Selection.of]
  exact List.filter_sublist

theorem extends_process (j : Job) : s.tree.Extends (j.process o files w s).1.tree := by
  have hhandOver (d : Delivery) (found : List Finding) (t : ReportState) :
      t.tree.Extends (handOver o d found t).1.tree := by
    rw [fst_handOver]
    exact d.extends_perform
  cases j with
  | feed c =>
      simp only [Job.process]
      split
      · exact .refl _
      · exact hhandOver _ _ s
  | file path pos =>
      have hextends := extends_examineUntilFault (w := { w with tree := s.tree }) o.report.fix
        (Subject.ofTree s.tree o.report.root (path.resolve s.tree.here)) o.selection.fileChecks
      simp only [Job.process]
      split
      · exact hextends
      · exact hextends.trans (hhandOver _ _ { s with tree := _ })

/-- A check of the feed does the same below both roots, or fails below one. -/
theorem parallel_feed {c : FeedCheck} (hc : c ∈ feedChecks) (hroots : s.tree.SameDirectory p q) :
    (Job.feed c).Parallel (o.under p) (o.under q) files w Eq
      ((Job.feed c).TellsApart o files w p q s) s s := by
  have hrun : SameUnlessOutside (c.run ⟨p, files⟩ { w with tree := s.tree })
      (c.run ⟨q, files⟩ { w with tree := s.tree }) := feed_run_under hc hroots files
  have hroot (r : Path) : (⟨(o.under r).report.root, files⟩ : Feed) = ⟨r, files⟩ := rfl
  have hperform (r : Results) : (Delivery.feed r).perform (o.under p).report s =
      (Delivery.feed r).perform (o.under q).report s := perform_feed_under s r
  have hresults (r : Path) (name : String) (found : List Finding) :
      feedResults (o.under r) name found = feedResults o name found := rfl
  constructor
  · simp only [Job.course, Job.delivery?, Job.TellsApart, hroot, hresults]
    generalize c.run ⟨p, files⟩ { w with tree := s.tree } = found at hrun ⊢
    generalize c.run ⟨q, files⟩ { w with tree := s.tree } = found' at hrun ⊢
    rcases hrun with rfl | hout | hout
    · cases found.fault with
      | some f => simp
      | none => simp [hperform]
    · cases found'.fault <;> simp [hout]
    · cases found.fault <;> simp [hout]
  · simp only [Job.process, Job.TellsApart, hroot, hresults]
    generalize c.run ⟨p, files⟩ { w with tree := s.tree } = found at hrun ⊢
    generalize c.run ⟨q, files⟩ { w with tree := s.tree } = found' at hrun ⊢
    intro hsame
    rcases hrun with rfl | hout | hout
    · cases found.fault with
      | some f => rfl
      | none => simp only [fst_handOver, hperform]
    · cases hfault : found'.fault with
      | some f => simp only [hout]
      | none => simp [hout, hfault] at hsame
    · cases hfault : found.fault with
      | some f => simp only [hout]
      | none => simp [hout, hfault] at hsame

section
variable {path : Path} {pos : Nat} {reports : List CheckReport} {tree : FileTree}

theorem stopped_of_examined (files : List Path) (pos : Nat) {f : Fault}
    (h : examineUntilFault o.report.fix
    (Subject.ofTree s.tree o.report.root (path.resolve s.tree.here)) o.selection.fileChecks
    { w with tree := s.tree } = (reports, some f, tree)) :
    (Job.file path pos).course o files w s = none ∧
      ((Job.file path pos).process o files w s).1 = { s with tree } := by
  simp only [Job.course, Job.delivery?, Job.process, h, Option.map_none, and_self]

theorem delivered_of_examined (files : List Path) (pos : Nat) (h : examineUntilFault o.report.fix
    (Subject.ofTree s.tree o.report.root (path.resolve s.tree.here)) o.selection.fileChecks
    { w with tree := s.tree } = (reports, none, tree)) :
    let d := Delivery.file path pos (fileResults o reports)
    (Job.file path pos).course o files w s = some (d.bare, (d.perform o.report { s with tree }).2) ∧
      ((Job.file path pos).process o files w s).1 = (d.perform o.report { s with tree }).1 := by
  simp only [Job.course, Job.delivery?, Job.process, h, Option.map_some, fst_handOver, and_self]

/-- Both runs examine a file: they fail alike, leave the same but for what may differ, and report
different things as the two examinations do. -/
theorem exists_examinations (o : RunOptions) (w : Surroundings) (hs : s.Alike loose s')
    (hroots : s.tree.SameDirectory p q)
    (havoids : ∀ x ∈ (Subject.ofTree s.tree p (path.resolve s.tree.here)).consults,
      s.tree.Avoids loose x) :
    let subject := Subject.ofTree s.tree p (path.resolve s.tree.here)
    ∃ reports reports' fault tree tree',
      examineUntilFault o.report.fix subject o.selection.fileChecks { w with tree := s.tree } =
        (reports, fault, tree) ∧
      examineUntilFault o.report.fix (Subject.ofTree s'.tree q (path.resolve s'.tree.here))
        o.selection.fileChecks { w with tree := s'.tree } = (reports', fault, tree') ∧
      s.tree.Extends tree ∧ tree.SameBut loose tree' ∧
      (fault = none → ((fileResults o reports).bare = (fileResults o reports').bare ↔
        (detectionPlacement.name ∈ o.selection.fileChecks.map (·.name) →
          subject.isJudgedApart p q = false))) ∧
      ((detectionPlacement.name ∈ o.selection.fileChecks.map (·.name) →
        subject.isJudgedApart p q = false ∧ subject.isMisplaced = false) → reports = reports') := by
  intro subject
  have htext : s'.tree.readText (path.resolve s.tree.here) =
      s.tree.readText (path.resolve s.tree.here) :=
    hs.tree.readText_eq (havoids _ List.mem_cons_self)
  have hsubject : Subject.ofTree s'.tree q (path.resolve s'.tree.here) = subject.under q := by
    rw [Subject.ofTree, hs.tree.here, htext]
    rfl
  have htwins : Twins loose subject p q s.tree s'.tree :=
    ⟨hs.tree, hroots, havoids, Subject.exists_readBytes _ _ _⟩
  obtain ⟨hfault, htree, hbare, htexts⟩ := examination_under o.report.fix
    (sublist_fileChecks_of o) htwins w o
  have hextends := extends_examineUntilFault (w := { w with tree := s.tree }) o.report.fix
    (subject.under p) o.selection.fileChecks
  rw [hsubject]
  generalize he : examineUntilFault o.report.fix (subject.under p) o.selection.fileChecks
    { w with tree := s.tree } = e at hfault htree hbare htexts hextends
  generalize examineUntilFault o.report.fix (subject.under q) o.selection.fileChecks
    { w with tree := s'.tree } = e' at hfault htree hbare htexts ⊢
  obtain ⟨reports, fault, tree⟩ := e
  obtain ⟨reports', fault', tree'⟩ := e'
  obtain rfl : fault = fault' := hfault
  exact ⟨reports, reports', fault, tree, tree', he, rfl, hextends, htree, hbare, htexts⟩

/-- A file is examined and reported below both roots. -/
theorem parallel_file (hs : s.Alike loose s') (hroots : s.tree.SameDirectory p q)
    (hfit : (Job.file path pos).Fits (o.under p) loose s) :
    (Job.file path pos).Parallel (o.under p) (o.under q) files w (ReportState.Alike loose)
      ((Job.file path pos).TellsApart o files w p q s) s s' := by
  obtain ⟨reports, reports', fault, tree, tree', he, he', hextends, htree, hbare, htexts⟩ :=
    exists_examinations o w hs hroots (hfit.avoids _ rfl)
  have hstates : ReportState.Alike loose { s with tree } { s' with tree := tree' } :=
    ⟨hs.counts_eq, hs.filesCount_eq, htree⟩
  rw [Job.TellsApart]
  simp only [he]
  cases fault with
  | some f =>
      obtain ⟨hcourse, hstate⟩ := stopped_of_examined (o := o.under p) files pos he
      obtain ⟨hcourse', hstate'⟩ := stopped_of_examined (o := o.under q) files pos he'
      refine ⟨iff_of_true (hcourse.trans hcourse'.symm) fun h => ?_, fun _ => ?_⟩
      · cases h.1
      · rw [hstate, hstate']
        exact hstates
  | none =>
      obtain ⟨hcourse, hstate⟩ := delivered_of_examined (o := o.under p) files pos he
      obtain ⟨hcourse', hstate'⟩ := delivered_of_examined (o := o.under q) files pos he'
      have htold (hsame : (fileResults o reports).bare = (fileResults o reports').bare) :
          loose = o.report.logFile ∨ o.report.verbosity ≤ 0 ∨
            fileResults o reports = fileResults o reports' := by
        refine hfit.log.imp_right fun hnames => ?_
        by_cases hquiet : o.report.verbosity ≤ 0
        · exact .inl hquiet
        · refine .inr (congrArg _ (htexts fun h => ⟨(hbare rfl).1 hsame h, ?_⟩))
          exact Bool.eq_false_iff.2 fun hplace =>
            hnames ⟨Int.not_le.1 hquiet, h, _, rfl, hplace⟩
      obtain ⟨hiff, halike⟩ := perform_file_iff path pos hstates (hroots.extend hextends) htold
      have hcourses : (Job.file path pos).course (o.under p) files w s =
          (Job.file path pos).course (o.under q) files w s' ↔
          (fileResults o reports).bare = (fileResults o reports').bare ∧
            ((Delivery.file path pos (fileResults o reports)).perform (o.report.under p)
              { s with tree }).2 =
            ((Delivery.file path pos (fileResults o reports')).perform (o.report.under q)
              { s' with tree := tree' }).2 := by
        rw [hcourse, hcourse', Option.some.injEq, Prod.mk.injEq, Delivery.bare, Delivery.bare,
          Delivery.file.injEq]
        simp only [true_and]
        rfl
      have hsame := hcourses.trans hiff
      rw [hbare rfl, show ({ s with tree } : ReportState).tree.here = s.tree.here from hextends.here]
        at hsame
      refine ⟨hsame.trans ?_, fun h => ?_⟩
      · simp only [true_and, not_or, not_and, Bool.not_eq_true, not_not]
      · rw [hstate, hstate']
        refine halike (hcourses.1 (hsame.2 ?_))
        simpa only [true_and, not_or, not_and, Bool.not_eq_true, not_not] using h

end

/-! ## Runs below two roots -/

theorem parallel_files (paths : List Path) (pos work : Nat) (hs : Abreast loose p q s s')
    (hfit : ∀ x ∈ undertakenFrom (o.under p) files w work
      ((paths.zipIdx pos).map fun e => .file e.1 e.2) s, x.1.Fits (o.under p) loose x.2) :
    Parallel (o.under p) (o.under q) files w (ReportState.Alike loose)
      (fun j s => j.TellsApart o files w p q s) work
      ((paths.zipIdx pos).map fun e => .file e.1 e.2) s s' := by
  induction paths generalizing pos work s s' with
  | nil => exact parallel_nil hs.alike
  | cons path more ih =>
      refine parallel_cons (T := Abreast loose p q) rfl hs.alike (fun h => ?_)
        (fun t t' ht hfit => ih (pos + 1) (work + 1) ht hfit) (fun t t' ht => ht.alike) hfit
      obtain ⟨hcourse, halike⟩ := parallel_file hs.alike hs.roots h
      exact ⟨hcourse, fun hsame => ⟨halike hsame, hs.roots.extend (extends_process _)⟩⟩

/-- **The phases of two runs.** In the first phase, the runs are in the same state. In the second, their
states are alike. -/
theorem parallel_under {checks : List FeedCheck} (hchecks : ∀ c ∈ checks, c ∈ feedChecks)
    (paths : List Path) (work : Nat) (hroots : s.tree.SameDirectory p q)
    (hfit : ∀ x ∈ undertakenFrom (o.under p) files w work
      (checks.map .feed ++ (paths.zipIdx 1).map fun e => .file e.1 e.2) s,
      x.1.Fits (o.under p) loose x.2) :
    Parallel (o.under p) (o.under q) files w (ReportState.Alike loose)
      (fun j s => j.TellsApart o files w p q s) work
      (checks.map .feed ++ (paths.zipIdx 1).map fun e => .file e.1 e.2) s s := by
  induction checks generalizing work s with
  | nil => exact parallel_files paths 1 work ⟨.refl loose s, hroots⟩ hfit
  | cons c more ih =>
      obtain ⟨hc, hmore⟩ := List.forall_mem_cons.1 hchecks
      refine parallel_cons (T := fun t t' => t = t' ∧ t.tree.SameDirectory p q) rfl (.refl loose s)
        (fun _ => ?_) (fun t t' ⟨heq, ht⟩ hfit => ?_) (fun t t' ht => ht.1 ▸ .refl loose t) hfit
      · obtain ⟨hcourse, hstate⟩ := parallel_feed hc hroots
        exact ⟨hcourse, fun hsame => ⟨hstate hsame, hroots.extend (extends_process _)⟩⟩
      · subst heq
        exact ih hmore (work + 1) ht hfit

theorem announce_under (s : ReportState) : announce (o.under p) s = announce (o.under q) s := by
  unfold announce
  rw [show (o.under p).selection = (o.under q).selection from rfl]
  split
  · rfl
  · exact performAll_under s _

theorem alike_following {r r' : ReportState × Option Fault}
    {next next' : ReportState → ReportState × Except Fault Bool}
    (hr : r.1.Alike loose r'.1 ∧ r.2 = r'.2)
    (hnext : ∀ s s', s.Alike loose s' →
      (next s).1.Alike loose (next' s').1 ∧ (next s).2.toOption = (next' s').2.toOption) :
    (following r next).1.Alike loose (following r' next').1 ∧
      (following r next).2.toOption = (following r' next').2.toOption := by
  rw [following, following, ← hr.2]
  cases r.2 with
  | some f => exact ⟨hr.1, rfl⟩
  | none => exact hnext _ _ hr.1

theorem alike_conclude {o : ReportOptions} (elapsed : String) (hs : s.Alike loose s') :
    let e := conclude (o.under p) elapsed s
    let e' := conclude (o.under q) elapsed s'
    e.1.Alike loose e'.1 ∧ e.2.toOption = e'.2.toOption := by
  refine alike_following ?_ fun t t' ht => alike_following ?_ fun u u' hu => ?_
  · exact alike_performAll sameLogs_under hs rfl (.inr rfl)
  · rw [ht.counts_eq]
    exact alike_performAll sameLogs_under ht rfl (.inr rfl)
  · exact ⟨hu, by rw [hu.counts_eq]⟩

theorem alike_finish {o : ReportOptions} (elapsed : String) {r r' : ReportState × RunEnd}
    (hr : r.1.Alike loose r'.1) (hend : r.2.hasFailed = r'.2.hasFailed) :
    let e := finish (o.under p) elapsed r
    let e' := finish (o.under q) elapsed r'
    e.1.Alike loose e'.1 ∧ e.2.toOption = e'.2.toOption := by
  obtain ⟨t, e⟩ := r
  obtain ⟨t', e'⟩ := r'
  cases e with
  | failed f =>
      cases e' with
      | failed f' => exact ⟨hr, rfl⟩
      | finished | interrupted => cases hend
  | finished | interrupted =>
      cases e' with
      | failed f' => cases hend
      | finished | interrupted => exact alike_conclude elapsed hr

/-- **Two runs.** They take the same course if, and only if, no piece of work that is undertaken tells
their roots apart. Then they end alike and leave the same but for what may differ. -/
theorem agrees_under (hroots : s.tree.SameDirectory p q)
    (hfit : ∀ x ∈ undertaken (o.under p) files w s, x.1.Fits (o.under p) loose x.2) :
    (course (o.under p) files w s = course (o.under q) files w s ↔
      ∀ x ∈ undertaken (o.under p) files w s, ¬ x.1.TellsApart o files w p q x.2) ∧
    ((∀ x ∈ undertaken (o.under p) files w s, ¬ x.1.TellsApart o files w p q x.2) →
      (run (o.under p) files w s).1.Alike loose (run (o.under q) files w s).1 ∧
      (run (o.under p) files w s).2.toOption = (run (o.under q) files w s).2.toOption) := by
  have hchecks : ∀ c ∈ o.selection.feedChecks, c ∈ feedChecks := by
    intro c hc
    exact (List.mem_filter.1 hc).1
  have hextends : s.tree.Extends (announce (o.under q) s).1.tree := by
    rw [announce]
    split
    · exact .refl _
    · exact ReportStep.extends_performAll _
  rw [run_eq_following, run_eq_following, course, course]
  unfold undertaken at hfit ⊢
  rw [announce_under (q := q)] at hfit ⊢
  generalize announce (o.under q) s = r at hfit hextends ⊢
  obtain ⟨t, fault⟩ := r
  cases fault with
  | some f => exact ⟨by simp [courseOf], fun _ => ⟨.refl loose t, rfl⟩⟩
  | none =>
      have hstart : ({ t with filesCount := files.length } : ReportState).tree.SameDirectory p q :=
        hroots.extend hextends
      obtain ⟨hcourse, hrelated⟩ := parallel_under hchecks files 0 hstart hfit
      refine ⟨hcourse, fun h => ?_⟩
      simp only [following, phases_eq_walk]
      exact alike_finish w.elapsed (hrelated h).1 (hrelated h).2

/-- A run in which the check of places looks at a misplaced script does not answer that there is no
error. -/
theorem answer_of_misplaced {x : Job × ReportState} (hx : x ∈ undertaken o files w s)
    (h : x.1.FindsMisplaced o x.2) : (run o files w s).2 ≠ .ok true := by
  intro hanswer
  obtain ⟨t, found, hprocess, hfound⟩ := errors_undertaken hanswer x hx
  obtain ⟨j, s'⟩ := x
  obtain ⟨hselected, subject, hsubject, hplace⟩ := h
  cases j with
  | feed c => cases hsubject
  | file path pos =>
      cases hsubject
      generalize hexamine : examineUntilFault o.report.fix
        (Subject.ofTree s'.tree o.report.root (path.resolve s'.tree.here)) o.selection.fileChecks
        { w with tree := s'.tree } = e
      obtain ⟨reports, fault, tree⟩ := e
      cases fault with
      | some f => simp [Job.process, hexamine] at hprocess
      | none =>
          simp only [Job.process, hexamine] at hprocess
          obtain ⟨r, hr, -, hfindings⟩ := exists_placement_report (sublist_fileChecks_of o) hselected
            (show (examineUntilFault o.report.fix _ _ { w with tree := s'.tree }).2.1 = none by
              rw [hexamine]) (Bool.and_eq_true_iff.1 hplace).1
          rw [hexamine] at hr
          rw [placementFindings, if_pos hplace] at hfindings
          have hmem := List.mem_flatMap.2 ⟨r, hr, hfindings ▸ List.mem_singleton_self _⟩
          rw [← eq_of_handOver hprocess] at hmem
          exact hfound _ hmem rfl

end Run

/-! ## Sessions -/

def endingOf : Except Fault Bool → Ending
  | .error f => .failed f
  | .ok clean => if clean then .returned else .exit 1

theorem status_endingOf_congr {a b : Except Fault Bool} (h : a.toOption = b.toOption) :
    (endingOf a).status = (endingOf b).status := by
  cases a with
  | error f =>
      cases b with
      | error g => rfl
      | ok clean => cases h
  | ok clean =>
      cases b with
      | error g => cases h
      | ok clean' =>
          cases h
          rfl

namespace LintSettings

def startLines (count : Nat) : List Line :=
  [⟨.info, 0, s!"Start linting {count} files ... "⟩]

/-- The run that a session comes to, if it does: its options, the files and the state in which it
begins. -/
def run? (s : LintSettings) (w : Surroundings) (interruptAt : Option Int) :
    Option (RunOptions × List Path × ReportState) :=
  if s.version || s.jobs < 1 then none
  else
    match s.findFiles w.tree with
    | (_, .error _) => none
    | (lines, .ok files) =>
      match w.arrangement.arrange files.eraseDups with
      | [] => none
      | first :: more =>
        some (s.runOptions w.tree.here first interruptAt, first :: more,
          (({ tree := w.tree } : ReportState).tell lines).tell (startLines (first :: more).length))

def course (s : LintSettings) (w : Surroundings) (interruptAt : Option Int) :
    List (Delivery × Option Fault) :=
  match s.run? w interruptAt with
  | none => []
  | some (o, files, start) => Run.course o files w start

def Undertakes (s : LintSettings) (w : Surroundings) (interruptAt : Option Int)
    (kind : RunOptions → List Path → ReportState → Run.Job → Prop) : Prop :=
  ∃ r ∈ s.run? w interruptAt, ∃ x ∈ Run.undertaken r.1 r.2.1 w r.2.2, kind r.1 r.2.1 x.2 x.1

instance (s : LintSettings) (w : Surroundings) (interruptAt : Option Int)
    (kind : RunOptions → List Path → ReportState → Run.Job → Prop)
    [∀ o files t j, Decidable (kind o files t j)] : Decidable (s.Undertakes w interruptAt kind) :=
  inferInstanceAs (Decidable (∃ r ∈ s.run? w interruptAt, _))

section
variable (s : LintSettings) (w : Surroundings) (interruptAt : Option Int)

def TellsApart (p q : Path) : Prop :=
  s.Undertakes w interruptAt fun o files t j => j.TellsApart o files w p q t

instance (p q : Path) : Decidable (s.TellsApart w interruptAt p q) :=
  inferInstanceAs (Decidable (s.Undertakes w interruptAt _))

def FindsMisplaced : Prop :=
  s.Undertakes w interruptAt fun o _ t j => j.FindsMisplaced o t

def NamesRoot : Prop :=
  s.Undertakes w interruptAt fun o _ t j => j.NamesRoot o t

def ReadsLog : Prop :=
  s.Undertakes w interruptAt fun o _ t j => j.ReadsLog o t

end

def withRoot (s : LintSettings) (root : Path) : LintSettings :=
  { s with root := some root }

theorem run?_withRoot (s : LintSettings) (p q : Path) (w : Surroundings) (i : Option Int) :
    (s.withRoot q).run? w i = ((s.withRoot p).run? w i).map fun r => (r.1.under q, r.2) := by
  unfold run?
  rw [show (s.withRoot q).version = (s.withRoot p).version from rfl,
    show (s.withRoot q).jobs = (s.withRoot p).jobs from rfl,
    show (s.withRoot q).findFiles w.tree = (s.withRoot p).findFiles w.tree from rfl]
  split
  · rfl
  split
  · rfl
  split <;> rfl

/-- A session comes to a run if it is asked for more than the version, finds files and has someone to
do the work. -/
theorem run?_eq_some {s : LintSettings} {w : Surroundings} {i : Option Int} {o : RunOptions}
    {files : List Path} {start : ReportState} (h : s.run? w i = some (o, files, start)) :
    s.version = false ∧ ¬ s.jobs < 1 ∧ ∃ lines found first more,
      s.findFiles w.tree = (lines, .ok found) ∧
      w.arrangement.arrange found.eraseDups = first :: more ∧
      o = s.runOptions w.tree.here first i ∧ files = first :: more ∧
      start = (({ tree := w.tree } : ReportState).tell lines).tell (startLines files.length) := by
  unfold run? at h
  split at h
  · cases h
  next hrun =>
    rw [Bool.or_eq_true, decide_eq_true_eq, not_or, Bool.not_eq_true] at hrun
    split at h
    · cases h
    next lines found hfound =>
      split at h
      · cases h
      next first more hfiles =>
        cases h
        exact ⟨hrun.1, hrun.2, lines, found, first, more, hfound, hfiles, rfl, rfl, rfl⟩

section
variable {s : LintSettings} {w : Surroundings} {i : Option Int}

/-- Without a text that names the root, nothing may differ. -/
theorem fits_of_unnamed (h : ¬ s.NamesRoot w i) (o : RunOptions) (files : List Path)
    (start : ReportState) (hrun : s.run? w i = some (o, files, start)) :
    ∀ x ∈ Run.undertaken o files w start, x.1.Fits o none x.2 := by
  intro x hx
  refine ⟨fun subject _ path _ => FileTree.avoids_none _ path, .inr fun hnames => h ?_⟩
  exact ⟨_, hrun, x, hx, hnames⟩

/-- A log that is not read may differ. -/
theorem fits_of_unread (h : ¬ s.ReadsLog w i) (o : RunOptions) (files : List Path)
    (start : ReportState) (hrun : s.run? w i = some (o, files, start)) :
    ∀ x ∈ Run.undertaken o files w start, x.1.Fits o s.logFile x.2 := by
  intro x hx
  obtain ⟨-, -, -, -, first, -, -, -, ho, -, -⟩ := run?_eq_some hrun
  have hlog : s.logFile = o.report.logFile := by rw [ho]; rfl
  refine ⟨fun subject hsubject path hpath => ?_, .inl hlog⟩
  rw [hlog]
  by_contra hlies
  exact h ⟨_, hrun, x, hx, subject, hsubject, path, hpath, hlies⟩

end

end LintSettings

section
variable {processors : Nat} {words words' : List String} {w : Surroundings} {s : LintSettings}
  {i : Option Int} {p q : Path}

theorem lint_of_run? {o : RunOptions} {files : List Path} {start : ReportState}
    (hread : LintSettings.read w.tree processors words = .ok s)
    (h : s.run? w i = some (o, files, start)) :
    lint processors words w i = ((run o files w start).1, endingOf (run o files w start).2) := by
  obtain ⟨hversion, hjobs, lines, found, first, more, hfound, hfiles, rfl, rfl, rfl⟩ :=
    LintSettings.run?_eq_some h
  rw [lint, hread]
  simp only [hversion, hfound, lintFiles, hfiles, if_neg hjobs]
  unfold LintSettings.startLines
  cases run _ _ _ _ with
  | mk t answer => cases answer <;> rfl

/-- A session that comes to no run does not depend on the root. -/
theorem lint_of_run?_none (hread : LintSettings.read w.tree processors words = .ok (s.withRoot p))
    (hread' : LintSettings.read w.tree processors words' = .ok (s.withRoot q))
    (h : (s.withRoot p).run? w i = none) :
    lint processors words w i = lint processors words' w i := by
  rw [lint, lint, hread, hread']
  simp only [show (s.withRoot q).version = (s.withRoot p).version from rfl,
    show (s.withRoot q).findFiles w.tree = (s.withRoot p).findFiles w.tree from rfl]
  cases hversion : (s.withRoot p).version with
  | true => simp only [if_true]
  | false =>
      cases hfound : (s.withRoot p).findFiles w.tree with
      | mk lines result =>
          cases result with
          | error ending => simp only
          | ok found =>
              cases hfiles : w.arrangement.arrange found.eraseDups with
              | nil => simp only [lintFiles, hfiles]
              | cons first more =>
                  by_cases hjobs : (s.withRoot p).jobs < 1
                  · have hjobs' : (s.withRoot q).jobs < 1 := hjobs
                    have hannounce (t : ReportState) :
                        Run.announce ((s.withRoot p).runOptions w.tree.here first i) t =
                          Run.announce ((s.withRoot q).runOptions w.tree.here first i) t :=
                      Run.announce_under (o := (s.withRoot p).runOptions w.tree.here first i) t
                    simp only [lintFiles, hfiles, if_pos hjobs, if_pos hjobs', hannounce]
                  · simp [LintSettings.run?, hversion, hfound, hfiles, hjobs] at h

/-- Two sessions whose difference does not reach any piece of work. -/
theorem lint_agrees {loose : Option Path} {words words' : List String}
    (hread : LintSettings.read w.tree processors words = .ok (s.withRoot p))
    (hread' : LintSettings.read w.tree processors words' = .ok (s.withRoot q))
    (hroots : w.tree.SameDirectory p q)
    (hfit : ∀ o files start, (s.withRoot p).run? w i = some (o, files, start) →
      ∀ x ∈ Run.undertaken o files w start, x.1.Fits o loose x.2) :
    ((s.withRoot p).course w i = (s.withRoot q).course w i ↔ ¬ (s.withRoot p).TellsApart w i p q) ∧
    (¬ (s.withRoot p).TellsApart w i p q →
      (lint processors words w i).1.Alike loose (lint processors words' w i).1 ∧
      (lint processors words w i).2.status = (lint processors words' w i).2.status) := by
  have hother := LintSettings.run?_withRoot s p q w i
  have hself := LintSettings.run?_withRoot s p p w i
  unfold LintSettings.course LintSettings.TellsApart LintSettings.Undertakes
  cases hrun : (s.withRoot p).run? w i with
  | none =>
      rw [hrun] at hother
      rw [hother, lint_of_run?_none hread hread' hrun]
      exact ⟨by simp, fun _ => ⟨.refl loose _, rfl⟩⟩
  | some r =>
      obtain ⟨o, files, start⟩ := r
      rw [hrun] at hother hself
      obtain ⟨-, -, lines, -, -, -, -, -, -, -, rfl⟩ := LintSettings.run?_eq_some hrun
      have ho : o.under p = o := by simpa using hself.symm
      obtain ⟨hcourse, hends⟩ := Run.agrees_under (o := o) hroots (by rw [ho]; exact hfit _ _ _ hrun)
      rw [ho] at hcourse hends
      rw [lint_of_run? hread hrun, lint_of_run? hread' hother, hother]
      simp only [Option.map_some, Option.mem_some_iff, exists_eq_left', not_exists, not_and]
      exact ⟨hcourse, fun h => (hends h).imp_right status_endingOf_congr⟩

/-- A session that looks at a misplaced script does not end well. -/
theorem status_of_misplaced (hread : LintSettings.read w.tree processors words = .ok s)
    (h : s.FindsMisplaced w i) : (lint processors words w i).2.status ≠ 0 := by
  obtain ⟨⟨o, files, start⟩, hrun, x, hx, hplace⟩ := h
  have hanswer := Run.answer_of_misplaced hx hplace
  rw [lint_of_run? hread hrun]
  generalize (run o files w start).2 = answer at hanswer ⊢
  cases answer with
  | error f => simp [endingOf, Ending.status]
  | ok clean =>
      cases clean with
      | true => exact absurd rfl hanswer
      | false => simp [endingOf, Ending.status]

end

/-- **How the root is written.** Take two sessions whose settings differ in nothing but the root, for
which they take two paths to one directory.

Suppose that no text that names the root is told, or else that the log is none of the files which are
read; for otherwise the wording is read again as part of a file. The sessions take the same course and
exit with the same status if, and only if, no piece of work that is undertaken tells the roots apart.
They then count the same and leave the same files, the log excepted, which differs only if it names
the root.

A root is good for naming files if it leads to the directory without detours, and for the places of
detection scripts if it is the path of the directory itself; so a relative root is not. A session that
finds a script misplaced does not exit with success. -/
theorem lint_of_root_spelling {processors : Nat} {words words' : List String} {w : Surroundings}
    {s : LintSettings} {p q : Path} {d : Location} (i : Option Int)
    (hread : LintSettings.read w.tree processors words = .ok (s.withRoot p))
    (hread' : LintSettings.read w.tree processors words' = .ok (s.withRoot q))
    (hd : w.tree.hasDirectory d = true) (hp : w.tree.locate p = .ok d)
    (hq : w.tree.locate q = .ok d) :
    (¬ (s.withRoot p).NamesRoot w i ∨ ¬ (s.withRoot p).ReadsLog w i →
      ((s.withRoot p).course w i = (s.withRoot q).course w i ∧
          (lint processors words w i).2.status = (lint processors words' w i).2.status ↔
        ¬ (s.withRoot p).TellsApart w i p q) ∧
      (¬ (s.withRoot p).TellsApart w i p q →
        (lint processors words w i).1.Alike s.logFile (lint processors words' w i).1 ∧
        (¬ (s.withRoot p).NamesRoot w i →
          (lint processors words w i).1.Alike none (lint processors words' w i).1))) ∧
    (∀ r ∈ [p, q], ∀ file : Path, file.fromRoot? r w.tree.here =
      if r.absolute w.tree.here = .absoluteOf d then
        (file.resolve w.tree.here).relativeTo? (.absoluteOf d)
      else none) ∧
    (∀ r ∈ [p, q], ∀ sub : Subject, sub.file.IsNormal →
      sub.standsBelow r = (decide (r = .absoluteOf d) && sub.standsBelow (.absoluteOf d))) ∧
    ((s.withRoot p).FindsMisplaced w i → (lint processors words w i).2.status ≠ 0) := by
  have hroots : w.tree.SameDirectory p q := ⟨d, hd, hp, hq⟩
  have hlocate : ∀ r ∈ [p, q], w.tree.locate r = .ok d := by simp [hp, hq]
  refine ⟨fun hlog => ?_, fun r hr file => Path.fromRoot?_of_locate (hlocate r hr) file,
    fun r hr sub => Subject.standsBelow_of_locate (hlocate r hr), status_of_misplaced hread⟩
  have hunnamed (h : ¬ (s.withRoot p).NamesRoot w i) :=
    lint_agrees hread hread' hroots (LintSettings.fits_of_unnamed h)
  obtain ⟨hcourse, hends⟩ : ((s.withRoot p).course w i = (s.withRoot q).course w i ↔
      ¬ (s.withRoot p).TellsApart w i p q) ∧ (¬ (s.withRoot p).TellsApart w i p q →
        (lint processors words w i).1.Alike s.logFile (lint processors words' w i).1 ∧
        (lint processors words w i).2.status = (lint processors words' w i).2.status) := by
    rcases hlog with hnames | hreads
    · obtain ⟨hcourse, hends⟩ := hunnamed hnames
      exact ⟨hcourse, fun h => (hends h).imp_left fun halike => halike.weaken _⟩
    · exact lint_agrees hread hread' hroots (LintSettings.fits_of_unread hreads)
  refine ⟨⟨fun h => hcourse.1 h.1, fun h => ⟨hcourse.2 h, (hends h).2⟩⟩, fun h => ?_⟩
  exact ⟨(hends h).1, fun hnames => ((hunnamed hnames).2 h).1⟩

-- Why the log must not be read: what it says of the misplaced script makes a note of the second file.
example :
    let w : Surroundings :=
      { tree := ({ FileTree.empty with here := ["#TODO"] }.addFile ["#TODO", "a", "a.nasl"]
          (Text.toLatin1 "script_family(\"Product detection\");".toList)).addFile
          ["#TODO", "b.nasl"] []
        now := default
        arrangement := { arrange := id, perm := .refl } }
    let s : LintSettings :=
      { files := some [⟨"", ["a", "a.nasl"]⟩, ⟨"", ["b.nasl"]⟩]
        includeChecks := some ["check_vt_placement", "check_todo_tbd"]
        logFile := some ⟨"", ["b.nasl"]⟩
        verbosity := 1
        jobs := 1 }
    let p : Path := ⟨"", []⟩
    let q : Path := ⟨"/", ["#TODO"]⟩
    ¬ (s.withRoot p).TellsApart w none p q ∧
      ((s.withRoot p).course w none).map (·.1.results.hits) =
        [[("check_vt_placement", .error)], []] ∧
      ((s.withRoot q).course w none).map (·.1.results.hits) =
        [[("check_vt_placement", .error)], [("check_todo_tbd", .warning)]] := by
  decide +kernel

deriving instance DecidableEq for LintSettings

/-- A feed with one script, which detects a product and stands where such scripts belong. The current
directory holds the feed. -/
def detectionFeed : Surroundings :=
  { tree := { FileTree.empty with here := ["feed"] }.addFile ["feed", "nasl", "common", "a.nasl"]
      (Text.toLatin1 "script_family(\"Product detection\");\n".toList)
    now := default }

def placementWords (root : String) : List String :=
  ["--root", root, "--files", "nasl/common/a.nasl", "--include-tests", "check_vt_placement"]

def placementSettings : LintSettings :=
  { files := some [⟨"", ["nasl", "common", "a.nasl"]⟩]
    includeChecks := some ["check_vt_placement"]
    jobs := 1 }

/-- The root `nasl` leads to the script, but not to the path by which the script is examined. -/
theorem lint_of_root_spelling_of_detection :
    LintSettings.read detectionFeed.tree 2 (placementWords "nasl") =
        .ok (placementSettings.withRoot ⟨"", ["nasl"]⟩) ∧
      LintSettings.read detectionFeed.tree 2 (placementWords "/feed/nasl") =
        .ok (placementSettings.withRoot ⟨"/", ["feed", "nasl"]⟩) ∧
      detectionFeed.tree.locate ⟨"", ["nasl"]⟩ = .ok ["feed", "nasl"] ∧
      detectionFeed.tree.locate ⟨"/", ["feed", "nasl"]⟩ = .ok ["feed", "nasl"] ∧
      (placementSettings.withRoot ⟨"", ["nasl"]⟩).TellsApart detectionFeed none ⟨"", ["nasl"]⟩
        ⟨"/", ["feed", "nasl"]⟩ ∧
      ¬ ((placementSettings.withRoot ⟨"", ["nasl"]⟩).course detectionFeed none =
          (placementSettings.withRoot ⟨"/", ["feed", "nasl"]⟩).course detectionFeed none ∧
        (lint 2 (placementWords "nasl") detectionFeed none).2.status =
          (lint 2 (placementWords "/feed/nasl") detectionFeed none).2.status) := by
  have hread : LintSettings.read detectionFeed.tree 2 (placementWords "nasl") =
      .ok (placementSettings.withRoot ⟨"", ["nasl"]⟩) := by decide +kernel
  have hread' : LintSettings.read detectionFeed.tree 2 (placementWords "/feed/nasl") =
      .ok (placementSettings.withRoot ⟨"/", ["feed", "nasl"]⟩) := by decide +kernel
  have hp : detectionFeed.tree.locate ⟨"", ["nasl"]⟩ = .ok ["feed", "nasl"] := by decide +kernel
  have hq : detectionFeed.tree.locate ⟨"/", ["feed", "nasl"]⟩ = .ok ["feed", "nasl"] := by
    decide +kernel
  obtain ⟨hagree, -⟩ := lint_of_root_spelling none hread hread' (by decide +kernel) hp hq
  have hapart : (placementSettings.withRoot ⟨"", ["nasl"]⟩).TellsApart detectionFeed none
      ⟨"", ["nasl"]⟩ ⟨"/", ["feed", "nasl"]⟩ := by decide +kernel
  have hnames : ¬ (placementSettings.withRoot ⟨"", ["nasl"]⟩).NamesRoot detectionFeed none := by
    rintro ⟨⟨o, files, start⟩, hrun, x, -, hverbosity, -⟩
    obtain ⟨-, -, -, -, first, -, -, -, rfl, -, -⟩ := LintSettings.run?_eq_some hrun
    cases hverbosity
  exact ⟨hread, hread', hp, hq, hapart, fun h => (hagree (.inl hnames)).1.1 h hapart⟩

/-- A session that is told the root as a relative path exits with an error; told the absolute path,
it finds nothing wrong. -/
theorem relative_root_fails :
    (lint 2 (placementWords "nasl") detectionFeed none).2 = .exit 1 ∧
      (lint 2 (placementWords "/feed/nasl") detectionFeed none).2 = .returned := by
  decide +kernel

end NaslLint
