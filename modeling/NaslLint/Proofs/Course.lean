import NaslLint.Proofs.BareResults
import NaslLint.Proofs.Interruption

/-!
# The course of a run

A run undertakes one piece of work after the other. The course that it takes is what they hand over,
without texts, and what stops their reports.

* `Run.undertaken` are the pieces of work that a run begins, each with the state in which it is begun,
  and `Run.course` is the course of the run.
* `Run.Parallel` relates two runs: their courses are the same unless a piece of work makes a
  difference. `parallel_cons` builds that up piece by piece.
* `errors_undertaken` says that a run without errors has undertaken no piece of work that finds one.
-/

namespace NaslLint

def RunEnd.hasFailed : RunEnd → Bool
  | failed _ => true
  | _ => false

namespace Run

/-! ## What is undertaken -/

/-- What a piece of work hands over, and the state in which it does. If a check fails, it is
nothing. -/
def Job.delivery? (o : RunOptions) (files : List Path) (w : Surroundings) (s : ReportState) :
    Job → Option (Delivery × ReportState)
  | feed c =>
    let found := c.run { root := o.report.root, files } { w with tree := s.tree }
    match found.fault with
    | some _ => none
    | none => some (.feed (feedResults o c.name found.results), s)
  | file path pos =>
    let subject := Subject.ofTree s.tree o.report.root (path.resolve s.tree.here)
    let (reports, fault, tree) :=
      examineUntilFault o.report.fix subject o.selection.fileChecks { w with tree := s.tree }
    match fault with
    | some _ => none
    | none => some (.file path pos (fileResults o reports), { s with tree })

/-- What a piece of work hands over, without texts, and what stops its report. -/
def Job.course (o : RunOptions) (files : List Path) (w : Surroundings) (s : ReportState) (j : Job) :
    Option (Delivery × Option Fault) :=
  (j.delivery? o files w s).map fun (d, s) => (d.bare, (d.perform o.report s).2)

/-- The pieces of work that are begun, the first of them having a given number. -/
def undertakenFrom (o : RunOptions) (files : List Path) (w : Surroundings) :
    Nat → List Job → ReportState → List (Job × ReportState)
  | _, [], _ => []
  | work, j :: more, s =>
    if interrupts o work then []
    else
      let r := j.process o files w s
      (j, s) :: if r.2.isOk then undertakenFrom o files w (work + 1) more r.1 else []

/-- The pieces of work that a run begins, each with the state in which it is begun. -/
def undertaken (o : RunOptions) (files : List Path) (w : Surroundings) (s : ReportState) :
    List (Job × ReportState) :=
  match announce o s with
  | (_, some _) => []
  | (s, none) => undertakenFrom o files w 0 (jobs o files) { s with filesCount := files.length }

def courseOf (o : RunOptions) (files : List Path) (w : Surroundings)
    (begun : List (Job × ReportState)) : List (Delivery × Option Fault) :=
  begun.filterMap fun x => x.1.course o files w x.2

def course (o : RunOptions) (files : List Path) (w : Surroundings) (s : ReportState) :
    List (Delivery × Option Fault) :=
  courseOf o files w (undertaken o files w s)

variable {o o' : RunOptions} {files : List Path} {w : Surroundings} {s s' : ReportState}

theorem fst_handOver (d : Delivery) (found : List Finding) :
    (handOver o d found s).1 = (d.perform o.report s).1 := by
  unfold handOver
  cases d.perform o.report s with
  | mk t fault => cases fault <;> rfl

theorem isOk_handOver (d : Delivery) (found : List Finding) :
    (handOver o d found s).2.isOk = (d.perform o.report s).2.isNone := by
  unfold handOver
  cases d.perform o.report s with
  | mk t fault => cases fault <;> rfl

theorem eq_of_handOver {d : Delivery} {found found' : List Finding}
    (h : handOver o d found s = (s', .ok found')) : found' = found := by
  unfold handOver at h
  split at h
  · simp at h
  · cases h
    rfl

/-- A piece of work fails, or else what it has found is handed over. -/
theorem Job.process_cases (o : RunOptions) (files : List Path) (w : Surroundings) (s : ReportState)
    (j : Job) :
    (j.delivery? o files w s = none ∧ (j.process o files w s).2.isOk = false) ∨
      ∃ d t found, j.delivery? o files w s = some (d, t) ∧
        j.process o files w s = handOver o d found t := by
  cases j with
  | feed c =>
      generalize hrun : c.run { root := o.report.root, files } { w with tree := s.tree } = outcome
      cases hfault : outcome.fault with
      | some f =>
          simp only [delivery?, process, hrun, hfault]
          exact .inl ⟨trivial, rfl⟩
      | none =>
          simp only [delivery?, process, hrun, hfault]
          exact .inr ⟨_, _, _, rfl, rfl⟩
  | file path pos =>
      generalize hexamine : examineUntilFault o.report.fix
        (Subject.ofTree s.tree o.report.root (path.resolve s.tree.here)) o.selection.fileChecks
        { w with tree := s.tree } = e
      obtain ⟨reports, fault, tree⟩ := e
      cases fault with
      | some f =>
          simp only [delivery?, process, hexamine]
          exact .inl ⟨trivial, rfl⟩
      | none =>
          simp only [delivery?, process, hexamine]
          exact .inr ⟨_, _, _, rfl, rfl⟩

/-- A piece of work is done if its course is not stopped. -/
theorem isOk_process (j : Job) :
    (j.process o files w s).2.isOk = (j.course o files w s).any (·.2.isNone) := by
  rcases j.process_cases o files w s with ⟨hnone, hfailed⟩ | ⟨d, t, found, hd, hprocess⟩
  · rw [Job.course, hnone, hfailed]
    rfl
  · rw [Job.course, hd, hprocess, isOk_handOver]
    rfl

section
variable {work : Nat} {j : Job} (more : List Job)

theorem courseOf_cons (x : Job × ReportState) (begun : List (Job × ReportState)) :
    courseOf o files w (x :: begun) =
      (x.1.course o files w x.2).toList ++ courseOf o files w begun := by
  rw [courseOf, List.filterMap_cons]
  cases x.1.course o files w x.2 <;> rfl

theorem undertakenFrom_of_interrupts (h : interrupts o work = true) :
    undertakenFrom o files w work (j :: more) s = [] := by
  rw [undertakenFrom, if_pos h]

theorem undertakenFrom_of_isOk (h : ¬ interrupts o work = true)
    (hj : (j.process o files w s).2.isOk = true) :
    undertakenFrom o files w work (j :: more) s =
      (j, s) :: undertakenFrom o files w (work + 1) more (j.process o files w s).1 := by
  simp only [undertakenFrom, if_neg h, hj, if_true]

theorem undertakenFrom_of_failed (h : ¬ interrupts o work = true)
    (hj : (j.process o files w s).2.isOk = false) :
    undertakenFrom o files w work (j :: more) s = [(j, s)] := by
  simp [undertakenFrom, if_neg h, hj]

theorem mem_undertakenFrom (h : ¬ interrupts o work = true) :
    (j, s) ∈ undertakenFrom o files w work (j :: more) s := by
  rw [undertakenFrom, if_neg h]
  exact List.mem_cons_self

theorem walk_of_isOk (h : ¬ interrupts o work = true) (hj : (j.process o files w s).2.isOk = true) :
    walk o files w work (j :: more) s = walk o files w (work + 1) more (j.process o files w s).1 := by
  rw [walk, if_neg h]
  generalize j.process o files w s = r at hj
  obtain ⟨t, result⟩ := r
  cases result with
  | ok found => rfl
  | error f => cases hj

theorem walk_of_failed (h : ¬ interrupts o work = true)
    (hj : (j.process o files w s).2.isOk = false) :
    (walk o files w work (j :: more) s).1 = (j.process o files w s).1 ∧
      (walk o files w work (j :: more) s).2.hasFailed = true := by
  rw [walk, if_neg h]
  generalize j.process o files w s = r at hj
  obtain ⟨t, result⟩ := r
  cases result with
  | ok found => cases hj
  | error f => exact ⟨rfl, rfl⟩

end

/-! ## Two runs -/

/-- A piece of work in two runs: it takes the same course unless it sets them apart, and leaves states
that are related. -/
structure Job.Parallel (o o' : RunOptions) (files : List Path) (w : Surroundings)
    (R : ReportState → ReportState → Prop) (apart : Prop) (j : Job) (s s' : ReportState) : Prop where
  course_iff : j.course o files w s = j.course o' files w s' ↔ ¬ apart
  related : ¬ apart → R (j.process o files w s).1 (j.process o' files w s').1

/-- Pieces of work in two runs: they take the same course unless one that is begun sets the runs
apart, and then leave states that are related and end alike. -/
structure Parallel (o o' : RunOptions) (files : List Path) (w : Surroundings)
    (R : ReportState → ReportState → Prop) (apart : Job → ReportState → Prop) (work : Nat)
    (js : List Job) (s s' : ReportState) : Prop where
  course_iff : courseOf o files w (undertakenFrom o files w work js s) =
    courseOf o' files w (undertakenFrom o' files w work js s') ↔
      ∀ x ∈ undertakenFrom o files w work js s, ¬ apart x.1 x.2
  related : (∀ x ∈ undertakenFrom o files w work js s, ¬ apart x.1 x.2) →
    R (walk o files w work js s).1 (walk o' files w work js s').1 ∧
      (walk o files w work js s).2.hasFailed = (walk o' files w work js s').2.hasFailed

section
variable {R T : ReportState → ReportState → Prop} {apart fit : Job → ReportState → Prop} {work : Nat}
  {j : Job} {more : List Job}

theorem parallel_nil (hs : R s s') : Parallel o o' files w R apart work [] s s' := by
  refine ⟨iff_of_true rfl fun x hx => ?_, fun _ => ⟨hs, rfl⟩⟩
  cases hx

/-- Courses that part at the first piece of work differ, however the runs go on. -/
theorem courseOf_ne (h : ¬ interrupts o work = true) (h' : ¬ interrupts o' work = true)
    (hne : j.course o files w s ≠ j.course o' files w s') :
    courseOf o files w (undertakenFrom o files w work (j :: more) s) ≠
      courseOf o' files w (undertakenFrom o' files w work (j :: more) s') := by
  intro heq
  apply hne
  simp only [undertakenFrom, if_neg h, if_neg h', courseOf_cons, isOk_process] at heq
  -- without a course, a piece of work fails and is the last one
  cases hc : j.course o files w s with
  | none =>
      cases hc' : j.course o' files w s' with
      | none => rfl
      | some c' => simp [hc, hc', courseOf] at heq
  | some c =>
      cases hc' : j.course o' files w s' with
      | none => simp [hc, hc', courseOf] at heq
      | some c' =>
          simp only [hc, hc', Option.toList_some, List.singleton_append, List.cons.injEq] at heq
          rw [heq.1]

/-- **One piece of work after the other.** What a piece of work leaves is fit for the next ones. -/
theorem parallel_cons (hint : o.interruptAt = o'.interruptAt) (hs : R s s')
    (hj : fit j s → j.Parallel o o' files w T (apart j s) s s')
    (hmore : ∀ t t', T t t' → (∀ x ∈ undertakenFrom o files w (work + 1) more t, fit x.1 x.2) →
      Parallel o o' files w R apart (work + 1) more t t')
    (hstop : ∀ t t', T t t' → R t t')
    (hfit : ∀ x ∈ undertakenFrom o files w work (j :: more) s, fit x.1 x.2) :
    Parallel o o' files w R apart work (j :: more) s s' := by
  have hinterrupts : interrupts o' work = interrupts o work := by rw [interrupts, interrupts, hint]
  by_cases h : interrupts o work = true
  · have h' : interrupts o' work = true := hinterrupts.trans h
    refine ⟨?_, fun _ => ?_⟩
    · rw [undertakenFrom_of_interrupts more h, undertakenFrom_of_interrupts more h']
      exact iff_of_true rfl fun x hx => absurd hx List.not_mem_nil
    · rw [walk, walk, if_pos h, if_pos h']
      exact ⟨hs, rfl⟩
  have h' : ¬ interrupts o' work = true := by rwa [hinterrupts]
  have hhead : (j, s) ∈ undertakenFrom o files w work (j :: more) s := mem_undertakenFrom more h
  obtain ⟨hcourse, hrelated⟩ := hj (hfit _ hhead)
  by_cases hapart : apart j s
  · have hne : j.course o files w s ≠ j.course o' files w s' := fun heq => hcourse.1 heq hapart
    exact ⟨iff_of_false (courseOf_ne h h' hne) fun hnone => hnone _ hhead hapart,
      fun hnone => absurd hapart (hnone _ hhead)⟩
  have hsame := hcourse.2 hapart
  have hnext := hrelated hapart
  have hok : (j.process o' files w s').2.isOk = (j.process o files w s).2.isOk := by
    rw [isOk_process, isOk_process, hsame]
  cases hdone : (j.process o files w s).2.isOk with
  | false =>
      rw [hdone] at hok
      refine ⟨?_, fun _ => ?_⟩
      · rw [undertakenFrom_of_failed more h hdone, undertakenFrom_of_failed more h' hok,
          courseOf_cons, courseOf_cons, hsame]
        exact iff_of_true rfl (List.forall_mem_singleton.2 hapart)
      · obtain ⟨hstate, hfailed⟩ := walk_of_failed more h hdone
        obtain ⟨hstate', hfailed'⟩ := walk_of_failed more h' hok
        rw [hstate, hstate', hfailed, hfailed']
        exact ⟨hstop _ _ hnext, rfl⟩
  | true =>
      rw [hdone] at hok
      have hlist := undertakenFrom_of_isOk more h hdone
      rw [hlist, List.forall_mem_cons] at hfit
      obtain ⟨hcourses, hlater⟩ := hmore _ _ hnext hfit.2
      constructor
      · rw [hlist, undertakenFrom_of_isOk more h' hok, courseOf_cons, courseOf_cons, hsame,
          List.append_right_inj, hcourses, List.forall_mem_cons]
        exact (and_iff_right hapart).symm
      · intro hnone
        rw [hlist, List.forall_mem_cons] at hnone
        rw [walk_of_isOk more h hdone, walk_of_isOk more h' hok]
        exact hlater hnone.2

end

/-! ## Errors on the way -/

/-- No piece of work that is undertaken finds an error if none is counted in the end. -/
theorem errors_undertakenFrom (work : Nat) (js : List Job) (s : ReportState)
    (hend : (walk o files w work js s).2.hasFailed = false)
    (herrors : (walk o files w work js s).1.counts.total.errors = 0) :
    s.counts.total.errors = 0 ∧ ∀ x ∈ undertakenFrom o files w work js s,
      ∃ t found, x.1.process o files w x.2 = (t, .ok found) ∧ ∀ f ∈ found, f.severity ≠ .error := by
  induction js generalizing work s with
  | nil => exact ⟨herrors, fun x hx => by cases hx⟩
  | cons j more ih =>
      rw [undertakenFrom]
      rw [walk] at hend herrors
      split
      next hint =>
        rw [if_pos hint] at herrors
        exact ⟨herrors, fun x hx => by cases hx⟩
      next hint =>
        rw [if_neg hint] at hend herrors
        cases hprocess : j.process o files w s with
        | mk t result =>
            rw [hprocess] at hend herrors
            cases result with
            | error f => cases hend
            | ok found =>
                obtain ⟨hnone, hlater⟩ := ih (work + 1) t hend herrors
                obtain ⟨hbefore, hfound⟩ := (errors_process hprocess).1 hnone
                exact ⟨hbefore, List.forall_mem_cons.2 ⟨⟨t, found, hprocess, hfound⟩, hlater⟩⟩

/-- A run that answers that there is no error has undertaken no piece of work that finds one. -/
theorem errors_undertaken (h : (run o files w s).2 = .ok true) :
    ∀ x ∈ undertaken o files w s,
      ∃ t found, x.1.process o files w x.2 = (t, .ok found) ∧ ∀ f ∈ found, f.severity ≠ .error := by
  obtain ⟨-, hend, herrors⟩ := phases_of_answer h
  unfold undertaken
  split
  · exact fun x hx => by cases hx
  next t hannounce =>
    have ht : begun o s = t := by
      rw [announce] at hannounce
      split at hannounce
      · cases hannounce
      · rw [begun, hannounce]
    rw [ht, phases_eq_walk] at hend herrors
    refine (errors_undertakenFrom 0 (jobs o files) _ ?_ (by simpa using herrors.symm)).2
    cases hfailed : (walk o files w 0 (jobs o files) { t with filesCount := files.length }).2 with
    | failed f => exact absurd hfailed (hend f)
    | finished | interrupted => rfl

end Run

end NaslLint
