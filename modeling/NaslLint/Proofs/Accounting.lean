import Mathlib.Algebra.GroupWithZero.Nat
import Mathlib.Data.List.Induction
import Mathlib.Data.List.Nodup
import NaslLint.Proofs.FileTree.Appending
import NaslLint.Proofs.Repair
import NaslLint.Run

/-!
# Counting what is delivered

Results reach the report piece by piece: those of a check of the feed, and those of a file. However
much is said about them, what is counted are their findings.

* `Counts.countAll` counts hits one after the other; `total_countAll`, `lookup_countAll` and
  `sum_countAll` say what the counters hold afterwards.
* `Delivery.performAll` hands results to the report.
* `Run.deliveries` are the results that a run hands over.
-/

namespace NaslLint

/-! ## Tallies -/

namespace Tally

def add (a b : Tally) : Tally :=
  ⟨a.errors + b.errors, a.warnings + b.warnings, a.fixes + b.fixes⟩

/-- The sum of tallies, column by column. -/
def sum (ts : List Tally) : Tally :=
  ts.foldr add {}

def of (l : List Severity) : Tally :=
  ⟨l.count .error, l.count .warning, l.count .fix⟩

theorem sum_eq (ts : List Tally) :
    sum ts =
      ⟨(ts.map (·.errors)).sum, (ts.map (·.warnings)).sum, (ts.map (·.fixes)).sum⟩ := by
  induction ts with
  | nil => rfl
  | cons t ts ih =>
    show t.add (sum ts) = _
    rw [ih]
    simp only [add, List.map_cons, List.sum_cons]

theorem count_add (a b : Tally) (s : Severity) : (a.count s).add b = (a.add b).count s := by
  cases s <;> simp [count, add, Nat.add_right_comm]

theorem add_count (a b : Tally) (s : Severity) : a.add (b.count s) = (a.add b).count s := by
  cases s <;> simp [count, add, Nat.add_assoc]

theorem of_append_singleton (l : List Severity) (s : Severity) :
    of (l ++ [s]) = (of l).count s := by
  cases s <;> simp [of, count]

theorem of_perm {l l' : List Severity} (h : l.Perm l') : of l = of l' := by
  rw [of, of, h.count_eq, h.count_eq, h.count_eq]

theorem count_ne_empty {t : Tally} {s : Severity} (h : s ≠ .note) : t.count s ≠ {} := by
  cases s <;> simp_all [count]

end Tally

/-! ## Counting hits -/

/-- A finding as it is counted: the check that it comes from and its weight. -/
abbrev Hit := String × Severity

def weightsOf (name : String) (hits : List Hit) : List Severity :=
  (hits.filter (·.1 == name)).map (·.2)

theorem weightsOf_append_singleton (name : String) (hits : List Hit) (e : Hit) :
    weightsOf name (hits ++ [e]) =
      if e.1 = name then weightsOf name hits ++ [e.2] else weightsOf name hits := by
  rw [weightsOf, weightsOf, List.filter_append, List.map_append]
  by_cases h : e.1 = name <;> simp [h]

namespace Counts

def countAll (c : Counts) (hits : List Hit) : Counts :=
  hits.foldl (fun c e => c.count e.1 e.2) c

theorem countAll_append (c : Counts) (hits more : List Hit) :
    c.countAll (hits ++ more) = (c.countAll hits).countAll more :=
  List.foldl_append

theorem total_count (c : Counts) (name : String) (s : Severity) :
    (c.count name s).total = c.total.count s := by
  cases s <;> rfl

/-- One more hit changes the counter of its check and no other one. -/
theorem lookup_countUnder (name k : String) (s : Severity) (l : List (String × Tally)) :
    (countUnder name s l).lookup k =
      if k = name then some (((l.lookup k).getD {}).count s) else l.lookup k := by
  induction l with
  | nil =>
      rw [countUnder, List.lookup_cons]
      by_cases hk : k = name
      · simp [hk]
      · simp [hk, beq_false_of_ne hk]
  | cons entry l ih =>
      obtain ⟨n, t⟩ := entry
      rw [countUnder]
      by_cases hn : n = name
      · subst hn
        rw [if_pos (beq_self_eq_true n), List.lookup_cons, List.lookup_cons]
        by_cases hk : k = n
        · simp [hk]
        · simp [hk, beq_false_of_ne hk]
      · rw [if_neg (by simpa using hn), List.lookup_cons, List.lookup_cons, ih]
        by_cases hk : k = n
        · simp [hk, hn]
        · simp [beq_false_of_ne hk]

theorem sum_countUnder (name : String) (s : Severity) (l : List (String × Tally)) :
    Tally.sum ((countUnder name s l).map (·.2)) = (Tally.sum (l.map (·.2))).count s := by
  induction l with
  | nil => cases s <;> rfl
  | cons entry l ih =>
      obtain ⟨n, t⟩ := entry
      rw [countUnder]
      by_cases hn : (n == name) = true
      · rw [if_pos hn]
        exact Tally.count_add t _ s
      · rw [if_neg hn]
        show t.add (Tally.sum ((countUnder name s l).map (·.2))) = _
        rw [ih, Tally.add_count]
        rfl

theorem mem_names_countUnder {name k : String} {s : Severity} {l : List (String × Tally)} :
    k ∈ (countUnder name s l).map (·.1) ↔ k = name ∨ k ∈ l.map (·.1) := by
  induction l with
  | nil => simp [countUnder]
  | cons entry l ih =>
      obtain ⟨n, t⟩ := entry
      rw [countUnder]
      by_cases hn : n = name
      · rw [if_pos (by simpa using hn)]
        simp [hn]
      · rw [if_neg (by simpa using hn)]
        simp only [List.map_cons, List.mem_cons, ih]
        tauto

theorem nodup_countUnder {name : String} {s : Severity} {l : List (String × Tally)}
    (h : (l.map (·.1)).Nodup) : ((countUnder name s l).map (·.1)).Nodup := by
  induction l with
  | nil => simp [countUnder]
  | cons entry l ih =>
      obtain ⟨n, t⟩ := entry
      rw [List.map_cons, List.nodup_cons] at h
      rw [countUnder]
      by_cases hn : n = name
      · rw [if_pos (by simpa using hn), List.map_cons, List.nodup_cons]
        exact h
      · rw [if_neg (by simpa using hn), List.map_cons, List.nodup_cons, mem_names_countUnder]
        exact ⟨not_or.2 ⟨hn, h.1⟩, ih h.2⟩

theorem mem_iff_lookup {k : String} {t : Tally} {l : List (String × Tally)}
    (h : (l.map (·.1)).Nodup) : (k, t) ∈ l ↔ l.lookup k = some t := by
  induction l with
  | nil => simp
  | cons entry l ih =>
      obtain ⟨n, t'⟩ := entry
      rw [List.map_cons, List.nodup_cons] at h
      rw [List.mem_cons, List.lookup_cons, ih h.2]
      by_cases hk : k = n
      · subst hk
        have hno : l.lookup k ≠ some t := fun hl =>
          h.1 (List.mem_map.2 ⟨(k, t), (ih h.2).2 hl, rfl⟩)
        simp [hno, eq_comm]
      · simp [hk, beq_false_of_ne hk]

section
variable (hits : List Hit)

theorem countAll_append_singleton (c : Counts) (e : Hit) :
    c.countAll (hits ++ [e]) = (c.countAll hits).count e.1 e.2 :=
  countAll_append c hits [e]

/-- The total is the tally of all hits. -/
theorem total_countAll : (countAll {} hits).total = Tally.of (hits.map (·.2)) := by
  induction hits using List.reverseRecOn with
  | nil => rfl
  | append_singleton hits e ih =>
      rw [countAll_append_singleton, total_count, ih, List.map_append]
      exact (Tally.of_append_singleton _ e.2).symm

/-- The counter of a check is the tally of its hits; a check without any has none. -/
theorem lookup_countAll (name : String) :
    (countAll {} hits).byCheck.lookup name =
      if Tally.of (weightsOf name hits) = {} then none
      else some (Tally.of (weightsOf name hits)) := by
  induction hits using List.reverseRecOn with
  | nil => rfl
  | append_singleton hits e ih =>
      obtain ⟨n, s⟩ := e
      rw [countAll_append_singleton, weightsOf_append_singleton]
      by_cases hs : s = .note
      · -- a note is passed over, and its check gets no counter
        subst hs
        show (countAll {} hits).byCheck.lookup name = _
        by_cases hn : n = name
        · rw [if_pos hn, Tally.of_append_singleton]
          exact ih
        · rw [if_neg hn]
          exact ih
      · have hcount : ((countAll {} hits).count n s).byCheck =
            countUnder n s (countAll {} hits).byCheck := by
          cases s <;> first | rfl | exact absurd rfl hs
        rw [hcount, lookup_countUnder]
        by_cases hn : n = name
        · subst hn
          have hbefore : ((countAll {} hits).byCheck.lookup n).getD {} =
              Tally.of (weightsOf n hits) := by
            rw [ih]
            by_cases hempty : Tally.of (weightsOf n hits) = {} <;> simp [hempty]
          rw [if_pos rfl, if_pos rfl, hbefore, Tally.of_append_singleton,
            if_neg (Tally.count_ne_empty hs)]
        · rw [if_neg (Ne.symm hn), if_neg hn, ih]

/-- The counters of all checks add up to the total. -/
theorem sum_countAll :
    Tally.sum ((countAll {} hits).byCheck.map (·.2)) = (countAll {} hits).total := by
  induction hits using List.reverseRecOn with
  | nil => rfl
  | append_singleton hits e ih =>
      obtain ⟨n, s⟩ := e
      rw [countAll_append_singleton, total_count, ← ih]
      cases s with
      | note => rfl
      | _ => exact sum_countUnder _ _ _

theorem nodup_countAll : ((countAll {} hits).byCheck.map (·.1)).Nodup := by
  induction hits using List.reverseRecOn with
  | nil => exact List.nodup_nil
  | append_singleton hits e ih =>
      obtain ⟨n, s⟩ := e
      rw [countAll_append_singleton]
      cases s with
      | note => exact ih
      | _ => exact nodup_countUnder ih

end

/-- **The order does not matter.** Hits that come in another order lead to the same total and to
the same counters. -/
theorem countAll_perm {hits hits' : List Hit} (h : hits.Perm hits') :
    (countAll {} hits).total = (countAll {} hits').total ∧
      (countAll {} hits).byCheck.Perm (countAll {} hits').byCheck := by
  constructor
  · rw [total_countAll, total_countAll, Tally.of_perm (h.map _)]
  · -- the counters may stand in another order, but each check has one
    have hnodup (l : List Hit) : (countAll {} l).byCheck.Nodup := (nodup_countAll l).of_map
    rw [List.perm_ext_iff_of_nodup (hnodup _) (hnodup _)]
    rintro ⟨name, t⟩
    have hweights : Tally.of (weightsOf name hits) = Tally.of (weightsOf name hits') :=
      Tally.of_perm ((h.filter _).map _)
    rw [mem_iff_lookup (nodup_countAll _), mem_iff_lookup (nodup_countAll _), lookup_countAll,
      lookup_countAll, hweights]

end Counts

/-! ## Steps of a report -/

def ReportStep.hit? : ReportStep → Option Hit
  | .count check severity => some (check, severity)
  | _ => none

def Results.hits (r : Results) : List Hit :=
  r.entries.flatMap fun (name, findings) => findings.map fun f => (name, f.severity)

section
variable {o : ReportOptions} {s : ReportState}

theorem counts_perform (step : ReportStep) :
    (step.perform o s).1.counts = s.counts.countAll step.hit?.toList := by
  cases step with
  | count check severity => rfl
  | say line =>
      rw [ReportStep.perform]
      split <;> rfl
  | tabulate line =>
      rw [ReportStep.perform]
      split <;> rfl

/-- Steps that are all performed count their hits. -/
theorem counts_performAll {steps : List ReportStep}
    (h : (ReportStep.performAll o s steps).2 = none) :
    (ReportStep.performAll o s steps).1.counts =
      s.counts.countAll (steps.filterMap ReportStep.hit?) := by
  induction steps generalizing s with
  | nil => rfl
  | cons step more ih =>
      rw [ReportStep.performAll] at h ⊢
      split at h
      next s' hs' =>
        have hstep : s'.counts = s.counts.countAll step.hit?.toList := by
          rw [← counts_perform (o := o), hs']
        rw [ih h, hstep, ← Counts.countAll_append]
        congr 1
        rw [List.filterMap_cons]
        cases step.hit? <;> rfl
      next => simp at h

/-- Whatever is said of the findings of a check, each of them is counted once. -/
theorem hits_checkSteps (o : ReportOptions) (name : String) (findings : List Finding) :
    (Report.checkSteps o name findings).filterMap ReportStep.hit? =
      findings.map fun f => (name, f.severity) := by
  rw [Report.checkSteps, List.filterMap_append]
  have hfindings : (findings.flatMap fun f => ReportStep.count name f.severity ::
      if o.verbosity > 0 then [.say ⟨Report.kindOf f.severity, 8, f.message⟩] else []).filterMap
        ReportStep.hit? = findings.map fun f => (name, f.severity) := by
    induction findings with
    | nil => rfl
    | cons f findings ih =>
        rw [List.flatMap_cons, List.filterMap_append, ih]
        split <;> rfl
  rw [hfindings]
  split
  · rfl
  · split <;> rfl

theorem hits_feedSteps (o : ReportOptions) (r : Results) :
    (Report.feedSteps o r).filterMap ReportStep.hit? = r.hits := by
  rw [Report.feedSteps, Results.hits, List.filterMap_flatMap]
  refine List.flatMap_congr fun entry _ => ?_
  rw [List.filterMap_append, hits_checkSteps]
  split <;> rfl

theorem hits_fileSteps {here : Location} {count pos : Int} {file : Path} {r : Results}
    {steps : List ReportStep} (h : Report.fileSteps o here count file pos r = .ok steps) :
    steps.filterMap ReportStep.hit? = r.hits := by
  have hbody : (r.entries.flatMap fun (name, findings) =>
      Report.checkSteps o name findings).filterMap ReportStep.hit? = r.hits := by
    rw [Results.hits, List.filterMap_flatMap]
    exact List.flatMap_congr fun entry _ => hits_checkSteps o entry.1 entry.2
  rw [Report.fileSteps] at h
  split at h
  · split at h
    · cases h
    · cases h
      exact hbody
  · cases h
    exact hbody

/-! ## Logs -/

theorem ReportStep.extends_appendLog {log : Option Path} {text : String} {tree tree' : FileTree}
    (h : ReportStep.appendLog log text tree = .ok tree') : tree.Extends tree' := by
  cases log with
  | none =>
      cases h
      exact .refl _
  | some p => exact FileTree.extends_append h

/-- Whatever is reported, the tree loses nothing by it. -/
theorem ReportStep.extends_perform (step : ReportStep) :
    s.tree.Extends (step.perform o s).1.tree := by
  cases step with
  | count check severity => exact .refl _
  | say line =>
      rw [perform]
      dsimp only
      split
      next tree htree => exact extends_appendLog htree
      next => exact .refl _
  | tabulate line =>
      rw [perform]
      dsimp only
      split
      next tree htree => exact extends_appendLog htree
      next => exact .refl _

theorem ReportStep.extends_performAll (steps : List ReportStep) :
    s.tree.Extends (performAll o s steps).1.tree := by
  induction steps generalizing s with
  | nil => exact .refl _
  | cons step more ih =>
      have hstep : s.tree.Extends (step.perform o s).1.tree := extends_perform step
      rw [performAll]
      split
      next s' hs' =>
        rw [hs'] at hstep
        exact hstep.trans ih
      next s' f hs' =>
        rw [hs'] at hstep
        exact hstep

/-- The log, if there is one, can be written: it is a file, or it can be created. -/
def Ready (log : Option Path) (tree : FileTree) : Prop :=
  ∀ p ∈ log, tree.Appendable p

theorem Ready.rewrite {log : Option Path} {tree : FileTree} {l : Location} {mode : Nat}
    {old bytes : Bytes} (h : Ready log tree) (hhas : tree.HasFile l mode old) :
    Ready log (tree.rewrite l mode bytes) :=
  fun p hp => (h p hp).rewrite hhas

/-- A log that is ready takes a line, and all logs are ready afterwards. -/
theorem Ready.appendLog {log : Option Path} {tree : FileTree} (text : String)
    (h : Ready log tree) :
    ∃ tree', ReportStep.appendLog log text tree = .ok tree' ∧
      ∀ log', Ready log' tree → Ready log' tree' := by
  cases log with
  | none => exact ⟨tree, rfl, fun _ h' => h'⟩
  | some p =>
      obtain ⟨tree', htree, hkept⟩ := (h p rfl).exists_append (Text.toUtf8 (text ++ "\n"))
      refine ⟨tree', ?_, fun log' h' q hq => hkept q (h' q hq)⟩
      simp only [ReportStep.appendLog, htree]

/-- With its logs ready, a report performs a step. -/
theorem perform_of_ready (step : ReportStep) (hlog : Ready o.logFile s.tree)
    (hstatistic : Ready o.statisticLogFile s.tree) :
    (step.perform o s).2 = none ∧
      ∀ log, Ready log s.tree → Ready log (step.perform o s).1.tree := by
  cases step with
  | count check severity => exact ⟨rfl, fun _ h => h⟩
  | say line =>
      obtain ⟨tree', htree, hready⟩ := hlog.appendLog (ReportStep.logged line)
      simp only [ReportStep.perform, htree]
      exact ⟨trivial, hready⟩
  | tabulate line =>
      obtain ⟨tree', htree, hready⟩ := hstatistic.appendLog line.message
      simp only [ReportStep.perform, htree]
      exact ⟨trivial, hready⟩

theorem performAll_of_ready (steps : List ReportStep) (hlog : Ready o.logFile s.tree)
    (hstatistic : Ready o.statisticLogFile s.tree) :
    (ReportStep.performAll o s steps).2 = none ∧
      ∀ log, Ready log s.tree → Ready log (ReportStep.performAll o s steps).1.tree := by
  induction steps generalizing s with
  | nil => exact ⟨rfl, fun _ h => h⟩
  | cons step more ih =>
      obtain ⟨hnone, hready⟩ := perform_of_ready step hlog hstatistic
      obtain ⟨hnone', hready'⟩ := ih (hready _ hlog) (hready _ hstatistic)
      have hstep : step.perform o s = ((step.perform o s).1, none) := Prod.ext rfl hnone
      rw [ReportStep.performAll, hstep]
      exact ⟨hnone', fun log h => hready' log (hready log h)⟩

end

/-! ## Deliveries -/

/-- Results that are handed to the report: those of a check of the feed, or those of a file with its
number. -/
inductive Delivery where
  | feed (results : Results)
  | file (path : Path) (pos : Int) (results : Results)

namespace Delivery

def results : Delivery → Results
  | feed r => r
  | file _ _ r => r

/-- The file, if there is one, lies below the root directory. -/
def IsBelow (root : Path) (here : Location) : Delivery → Prop
  | feed _ => True
  | file path _ _ => (path.fromRoot? root here).isSome = true

instance (root : Path) (here : Location) : DecidablePred (IsBelow root here)
  | feed _ => inferInstanceAs (Decidable True)
  | file path _ _ => inferInstanceAs (Decidable ((path.fromRoot? root here).isSome = true))

def steps (o : ReportOptions) (here : Location) (count : Int) :
    Delivery → Except Fault (List ReportStep)
  | feed r => .ok (Report.feedSteps o r)
  | file path pos r => Report.fileSteps o here count path pos r

/-- The findings delivered, as they are counted. -/
def hitsOf (ds : List Delivery) : List Hit :=
  ds.flatMap (·.results.hits)

def perform (o : ReportOptions) (s : ReportState) (d : Delivery) : ReportState × Option Fault :=
  match d.steps o s.tree.here s.filesCount with
  | .error f => (s, some f)
  | .ok steps => ReportStep.performAll o s steps

/-- Hands deliveries to the report one after the other, until one fails. -/
def performAll (o : ReportOptions) : ReportState → List Delivery → ReportState × Option Fault
  | s, [] => (s, none)
  | s, d :: more =>
    match d.perform o s with
    | (s, none) => performAll o s more
    | (s, some f) => (s, some f)

variable {o : ReportOptions} {s : ReportState} {d : Delivery} {ds : List Delivery}

/-- A delivery that is reported has its findings counted. -/
theorem counts_perform (h : (d.perform o s).2 = none) :
    (d.perform o s).1.counts = s.counts.countAll d.results.hits := by
  rw [perform] at h ⊢
  cases hsteps : d.steps o s.tree.here s.filesCount with
  | error f => simp [hsteps] at h
  | ok steps =>
      simp only [hsteps] at h ⊢
      rw [counts_performAll h]
      cases d with
      | feed r =>
          cases hsteps
          rw [hits_feedSteps]
          rfl
      | file path pos r =>
          rw [hits_fileSteps hsteps]
          rfl

theorem counts_performAll (h : (performAll o s ds).2 = none) :
    (performAll o s ds).1.counts = s.counts.countAll (hitsOf ds) := by
  induction ds generalizing s with
  | nil => rfl
  | cons d more ih =>
      rw [performAll] at h ⊢
      split at h
      next s' hs' =>
        have hd : s'.counts = s.counts.countAll d.results.hits := by
          rw [← counts_perform (by rw [hs']), hs']
        rw [ih h, hd, ← Counts.countAll_append]
        rfl
      next => simp at h

theorem performAll_append {s' : ReportState} (h : performAll o s ds = (s', none))
    (later : List Delivery) : performAll o s (ds ++ later) = performAll o s' later := by
  induction ds generalizing s with
  | nil =>
      cases h
      rfl
  | cons d more ih =>
      rw [performAll] at h
      rw [List.cons_append, performAll]
      cases hd : d.perform o s with
      | mk s₁ fault =>
          rw [hd] at h
          cases fault with
          | some f => simp at h
          | none => exact ih h

theorem exists_steps {here : Location} (count : Int) (h : d.IsBelow o.root here) :
    ∃ steps, d.steps o here count = .ok steps := by
  cases d with
  | feed r => exact ⟨_, rfl⟩
  | file path pos r =>
      obtain ⟨relative, hrelative⟩ := Option.isSome_iff_exists.1 h
      rw [steps, Report.fileSteps]
      by_cases hheading : Report.hasHeading o r = true
      · simp only [hheading, if_true, hrelative]
        exact ⟨_, rfl⟩
      · simp only [hheading]
        exact ⟨_, rfl⟩

theorem extends_perform (d : Delivery) : s.tree.Extends (d.perform o s).1.tree := by
  rw [perform]
  cases d.steps o s.tree.here s.filesCount with
  | error f => exact .refl _
  | ok steps => exact ReportStep.extends_performAll steps

section
variable (hlog : Ready o.logFile s.tree) (hstatistic : Ready o.statisticLogFile s.tree)
include hlog hstatistic

/-- Reporting a delivery leaves the logs ready, whether or not its file is below the root. -/
theorem ready_perform (d : Delivery) (log : Option Path) (h : Ready log s.tree) :
    Ready log (d.perform o s).1.tree := by
  rw [perform]
  cases d.steps o s.tree.here s.filesCount with
  | error f => exact h
  | ok steps => exact (performAll_of_ready steps hlog hstatistic).2 log h

/-- With the logs ready and all files below the root, every delivery is reported. -/
theorem fault_performAll (hbelow : ∀ d ∈ ds, d.IsBelow o.root s.tree.here) :
    (performAll o s ds).2 = none := by
  induction ds generalizing s with
  | nil => rfl
  | cons d more ih =>
      obtain ⟨hd, hbelow⟩ := List.forall_mem_cons.1 hbelow
      obtain ⟨steps, hsteps⟩ := exists_steps s.filesCount hd
      have hnone : (d.perform o s).2 = none := by
        rw [perform, hsteps]
        exact (performAll_of_ready steps hlog hstatistic).1
      have hperform : d.perform o s = ((d.perform o s).1, none) := Prod.ext rfl hnone
      have hready := ready_perform hlog hstatistic d
      rw [← (extends_perform d).here] at hbelow
      rw [performAll, hperform]
      exact ih (hready _ hlog) (hready _ hstatistic) hbelow

end

end Delivery

/-! ## Runs -/

/-- A text that is at hand has been read from a file. -/
theorem Subject.exists_readBytes (tree : FileTree) (root file : Path) :
    ∀ t, (Subject.ofTree tree root file).text = .ok t → ∃ old, tree.readBytes file = .ok old := by
  intro t ht
  rw [Subject.ofTree, FileTree.readText] at ht
  cases hbytes : tree.readBytes file with
  | error e => simp [hbytes, Except.map, Except.mapError] at ht
  | ok bytes => exact ⟨bytes, rfl⟩

namespace Run

def feedDeliveries (o : RunOptions) (files : List Path) (w : Surroundings) :
    Nat → List FeedCheck → ReportState → List Delivery
  | _, [], _ => []
  | work, c :: more, s =>
    if interrupts o work then []
    else
      let found := c.run { root := o.report.root, files } { w with tree := s.tree }
      match found.fault with
      | some _ => []
      | none =>
        let d := Delivery.feed (feedResults o c.name found.results)
        d :: match d.perform o.report s with
          | (_, some _) => []
          | (s, none) => feedDeliveries o files w (work + 1) more s

def fileDeliveries (o : RunOptions) (checks : List FileCheck) (w : Surroundings) :
    Nat → Nat → List Path → ReportState → List Delivery
  | _, _, [], _ => []
  | work, pos, file :: more, s =>
    if interrupts o work then []
    else
      let subject := Subject.ofTree s.tree o.report.root (file.resolve s.tree.here)
      let (reports, fault, tree) :=
        examineUntilFault o.report.fix subject checks { w with tree := s.tree }
      match fault with
      | some _ => []
      | none =>
        let d := Delivery.file file pos (fileResults o reports)
        d :: match d.perform o.report { s with tree } with
          | (_, some _) => []
          | (s, none) => fileDeliveries o checks w (work + 1) (pos + 1) more s

/-- The results that both phases of a run hand over. -/
def deliveries (o : RunOptions) (files : List Path) (w : Surroundings) (s : ReportState) :
    List Delivery :=
  let s := { s with filesCount := files.length }
  feedDeliveries o files w 0 o.selection.feedChecks s ++
    match feedPhase o files w 0 o.selection.feedChecks s with
    | (s, .finished) =>
      fileDeliveries o o.selection.fileChecks w o.selection.feedChecks.length 1 files s
    | _ => []

variable {o : RunOptions} {files : List Path} {w : Surroundings} {s : ReportState}

def proceed (r : ReportState × Option Fault) (next : ReportState → ReportState × RunEnd) :
    ReportState × RunEnd :=
  match r with
  | (s, some f) => (s, .failed f)
  | (s, none) => next s

/-- Going on without failing counts the delivery and what is handed over after it. -/
theorem counts_proceed {d : Delivery} {next : ReportState → ReportState × RunEnd}
    {later : ReportState → List Delivery}
    (hnext : ∀ s, (∀ f, (next s).2 ≠ .failed f) →
      (next s).1.counts = s.counts.countAll (Delivery.hitsOf (later s)))
    (h : ∀ f, (proceed (d.perform o.report s) next).2 ≠ .failed f) :
    (proceed (d.perform o.report s) next).1.counts =
      s.counts.countAll (Delivery.hitsOf (d :: match d.perform o.report s with
        | (_, some _) => []
        | (s, none) => later s)) := by
  have hcount := Delivery.counts_perform (o := o.report) (s := s) (d := d)
  cases hperform : d.perform o.report s with
  | mk s' fault =>
      rw [hperform] at h hcount
      cases fault with
      | some f => exact absurd rfl (h f)
      | none =>
          show (next s').1.counts = _
          rw [hnext s' h, show s'.counts = _ from hcount rfl, ← Counts.countAll_append]
          rfl

/-- What a check of the feed has found is delivered. -/
theorem feedPhase_cons_of_found {c : FeedCheck} {more : List FeedCheck} {work : Nat}
    {found : Outcome Finding} (hint : ¬ interrupts o work = true)
    (hfound : c.run { root := o.report.root, files } { w with tree := s.tree } = found)
    (hfault : found.fault = none) :
    feedPhase o files w work (c :: more) s =
      proceed ((Delivery.feed (feedResults o c.name found.results)).perform o.report s)
        (feedPhase o files w (work + 1) more) := by
  simp only [feedPhase, if_neg hint, hfound, hfault]
  rfl

/-- A first phase that does not fail counts what it hands over. -/
theorem counts_feedPhase (files : List Path) (checks : List FeedCheck) (work : Nat)
    (s : ReportState) (h : ∀ f, (feedPhase o files w work checks s).2 ≠ .failed f) :
    (feedPhase o files w work checks s).1.counts =
      s.counts.countAll (Delivery.hitsOf (feedDeliveries o files w work checks s)) := by
  induction checks generalizing work s with
  | nil => rfl
  | cons c more ih =>
      rw [feedDeliveries]
      by_cases hint : interrupts o work = true
      · rw [feedPhase]
        simp only [if_pos hint]
        rfl
      · rw [if_neg hint]
        generalize hfound : c.run { root := o.report.root, files } { w with tree := s.tree } = found
        cases hfault : found.fault with
        | some f =>
            simp only [feedPhase, if_neg hint, hfound, hfault] at h
            exact absurd rfl (h f)
        | none =>
            rw [feedPhase_cons_of_found hint hfound hfault] at h ⊢
            simp only [hfault]
            exact counts_proceed (ih (work + 1)) h

/-- A file that has been examined is delivered. -/
theorem filePhase_cons_of_examined {checks : List FileCheck} {work pos : Nat} {file : Path}
    {more : List Path} {reports : List CheckReport} {tree : FileTree}
    (hint : ¬ interrupts o work = true)
    (hexamine : examineUntilFault o.report.fix
      (Subject.ofTree s.tree o.report.root (file.resolve s.tree.here))
      checks { w with tree := s.tree } =
        (reports, none, tree)) :
    filePhase o checks w work pos (file :: more) s =
      proceed ((Delivery.file file pos (fileResults o reports)).perform o.report { s with tree })
        (filePhase o checks w (work + 1) (pos + 1) more) := by
  simp only [filePhase, if_neg hint, hexamine, Delivery.perform, Delivery.steps]
  cases Report.fileSteps o.report tree.here s.filesCount file pos (fileResults o reports) <;> rfl

/-- A second phase that does not fail counts what it hands over. -/
theorem counts_filePhase (checks : List FileCheck) (work pos : Nat) (s : ReportState)
    (h : ∀ f, (filePhase o checks w work pos files s).2 ≠ .failed f) :
    (filePhase o checks w work pos files s).1.counts =
      s.counts.countAll (Delivery.hitsOf (fileDeliveries o checks w work pos files s)) := by
  induction files generalizing work pos s with
  | nil => rfl
  | cons file more ih =>
      rw [fileDeliveries]
      by_cases hint : interrupts o work = true
      · rw [filePhase]
        simp only [if_pos hint]
        rfl
      · rw [if_neg hint]
        generalize hexamine : examineUntilFault o.report.fix
          (Subject.ofTree s.tree o.report.root (file.resolve s.tree.here))
          checks { w with tree := s.tree } = e
        obtain ⟨reports, fault, tree⟩ := e
        cases fault with
        | some f =>
            simp only [filePhase, if_neg hint, hexamine] at h
            exact absurd rfl (h f)
        | none =>
            rw [filePhase_cons_of_examined hint hexamine] at h ⊢
            simp only [hexamine]
            exact counts_proceed (ih (work + 1) (pos + 1)) h

/-- A run that does not fail counts what it hands over. -/
theorem counts_phases (h : ∀ f, (phases o files w s).2 ≠ .failed f) :
    (phases o files w s).1.counts =
      s.counts.countAll (Delivery.hitsOf (deliveries o files w s)) := by
  rw [phases] at h ⊢
  rw [deliveries]
  have hfeed := counts_feedPhase (o := o) (w := w) files o.selection.feedChecks 0
    { s with filesCount := files.length }
  cases hphase : feedPhase o files w 0 o.selection.feedChecks
      { s with filesCount := files.length } with
  | mk s' ending =>
      rw [hphase] at hfeed
      cases ending with
      | finished =>
          simp only [hphase] at h ⊢
          have hcounts := hfeed (by simp)
          rw [counts_filePhase _ _ _ _ h, show s'.counts = _ from hcounts, ← Counts.countAll_append]
          simp [Delivery.hitsOf]
      | interrupted =>
          simp only [List.append_nil]
          exact hfeed (by simp)
      | failed f =>
          simp only [hphase] at h
          exact absurd rfl (h f)

/-! ### Runs that come to their end -/

theorem hit?_info (indent : Nat) (message : String) :
    (Report.info indent message).hit? = none := rfl

theorem hits_overviewSteps (o : ReportOptions) (excluded included : Option Choice) :
    (Report.overviewSteps o excluded included).filterMap ReportStep.hit? = [] := by
  rw [List.filterMap_eq_nil_iff]
  intro step hstep
  rw [Report.overviewSteps] at hstep
  -- Whatever is listed, it is listed by a line of information.
  have hlisted {c : Choice} {line : String}
      (h : step ∈ if c.isEmpty then [] else [Report.info 0 line]) : step.hit? = none := by
    simp only [List.mem_ite_nil_left, List.mem_singleton] at h
    rw [h.2, hit?_info]
  split at hstep
  · simp only [List.mem_append, List.mem_singleton] at hstep
    rcases hstep with (h | h) | h
    · cases excluded with
      | none => cases h
      | some c => exact hlisted h
    · cases included with
      | none => cases h
      | some c => exact hlisted h
    · rw [h, hit?_info]
  · cases hstep

theorem hits_statisticSteps (o : ReportOptions) (c : Counts) :
    (Report.statisticSteps o c).filterMap ReportStep.hit? = [] := by
  rw [List.filterMap_eq_nil_iff]
  intro step hstep
  rw [Report.statisticSteps] at hstep
  split at hstep
  · simp only [List.mem_append, List.mem_cons, List.mem_map] at hstep
    grind [ReportStep.hit?]
  · cases hstep

theorem extends_examine (fix : Bool) (c : FileCheck) (subject : Subject) :
    w.tree.Extends (c.examine fix subject w).2 := by
  rw [FileCheck.examine]
  split
  · split
    next fixes tree hrepair =>
      rw [FileCheck.applyRepair] at hrepair
      cases hr : c.repair subject w with
      | error f => simp [hr, bind, Except.bind] at hrepair
      | ok repair =>
          cases repair with
          | none =>
              rw [hr] at hrepair
              cases hrepair
              exact .refl _
          | some r =>
              cases hwrite : w.tree.write subject.file (Text.toLatin1 r.text) with
              | error e => simp [hr, hwrite, bind, Except.bind, Except.mapError] at hrepair
              | ok tree' =>
                  rw [hr] at hrepair
                  simp only [hwrite, bind, Except.bind, Except.mapError, pure, Except.pure,
                    Except.ok.injEq, Prod.mk.injEq] at hrepair
                  rw [← hrepair.2]
                  exact FileTree.extends_write hwrite
    next => exact .refl _
  · exact .refl _

/-- Whatever is examined and repaired, the tree loses nothing by it. -/
theorem extends_examineUntilFault (fix : Bool) (subject : Subject) (checks : List FileCheck) :
    w.tree.Extends (examineUntilFault fix subject checks w).2.2 := by
  induction checks generalizing w with
  | nil => exact .refl _
  | cons c more ih =>
      have hfirst : w.tree.Extends (c.examine fix subject w).2 := extends_examine fix c subject
      cases hfault : (c.examine fix subject w).1.fault? with
      | some f =>
          simp only [examineUntilFault, hfault]
          exact hfirst
      | none =>
          rw [examineUntilFault_cons hfault]
          exact hfirst.trans (ih (w := { w with tree := (c.examine fix subject w).2 }))

/-- A check of a file that can be read leaves the tree as it is or rewrites a file of it. -/
theorem tree_examine_eq_or_rewrite (fix : Bool) {c : FileCheck} (hc : c ∈ fileChecks)
    {subject : Subject}
    (hfile : ∀ t, subject.text = .ok t → ∃ old, w.tree.readBytes subject.file = .ok old) :
    (c.examine fix subject w).2 = w.tree ∨ ∃ l mode old bytes, w.tree.HasFile l mode old ∧
      (c.examine fix subject w).2 = w.tree.rewrite l mode bytes := by
  rcases tree_examine hc fix (s := subject) (w := w) with htree | ⟨⟨t, ht⟩, bytes, hwrite⟩
  · exact Or.inl htree
  · obtain ⟨old, hold⟩ := hfile t ht
    obtain ⟨l, mode, hlocate, hhas⟩ := FileTree.exists_hasFile_of_readBytes hold
    rw [hhas.write_eq hlocate, Except.ok.injEq] at hwrite
    exact Or.inr ⟨l, mode, old, bytes, hhas, hwrite.symm⟩

/-- An examination leaves the logs ready: it writes nothing but the file that it has read. -/
theorem ready_examineUntilFault (fix : Bool) {subject : Subject} {checks : List FileCheck}
    {log : Option Path} (hchecks : ∀ c ∈ checks, c ∈ fileChecks)
    (hfile : ∀ t, subject.text = .ok t → ∃ old, w.tree.readBytes subject.file = .ok old)
    (h : Ready log w.tree) : Ready log (examineUntilFault fix subject checks w).2.2 := by
  induction checks generalizing w with
  | nil => exact h
  | cons c more ih =>
      obtain ⟨hc, hmore⟩ := List.forall_mem_cons.1 hchecks
      obtain ⟨hready, hread⟩ : Ready log (c.examine fix subject w).2 ∧
          ∀ t, subject.text = .ok t →
            ∃ old, (c.examine fix subject w).2.readBytes subject.file = .ok old := by
        rcases tree_examine_eq_or_rewrite fix hc hfile with htree | ⟨l, mode, old, bytes, hhas, htree⟩
        · rw [htree]
          exact ⟨h, hfile⟩
        · rw [htree]
          exact ⟨h.rewrite hhas, fun t ht => hhas.exists_readBytes_rewrite (hfile t ht)⟩
      cases hfault : (c.examine fix subject w).1.fault? with
      | some f =>
          simp only [examineUntilFault, hfault]
          exact hready
      | none =>
          rw [examineUntilFault_cons hfault]
          exact ih hmore hread hready

theorem extends_proceed (d : Delivery) {next : ReportState → ReportState × RunEnd}
    (hnext : ∀ s : ReportState, s.tree.Extends (next s).1.tree) :
    s.tree.Extends (proceed (d.perform o.report s) next).1.tree := by
  have hextends : s.tree.Extends (d.perform o.report s).1.tree := d.extends_perform
  cases hperform : d.perform o.report s with
  | mk s' fault =>
      rw [hperform] at hextends
      cases fault with
      | some f => exact hextends
      | none => exact hextends.trans (hnext s')

theorem extends_feedPhase (files : List Path) (checks : List FeedCheck) (work : Nat)
    (s : ReportState) : s.tree.Extends (feedPhase o files w work checks s).1.tree := by
  induction checks generalizing work s with
  | nil => exact .refl _
  | cons c more ih =>
      by_cases hint : interrupts o work = true
      · simp only [feedPhase, if_pos hint]
        exact .refl _
      · generalize hfound : c.run { root := o.report.root, files } { w with tree := s.tree } = found
        cases hfault : found.fault with
        | some f =>
            simp only [feedPhase, if_neg hint, hfound, hfault]
            exact .refl _
        | none =>
            rw [feedPhase_cons_of_found hint hfound hfault]
            exact extends_proceed _ (ih (work + 1))

theorem ready_proceed {d : Delivery} {next : ReportState → ReportState × RunEnd}
    {log : Option Path} (hlog : Ready o.report.logFile s.tree)
    (hstatistic : Ready o.report.statisticLogFile s.tree) (h : Ready log s.tree)
    (hnext : ∀ s, Ready o.report.logFile s.tree → Ready o.report.statisticLogFile s.tree →
      Ready log s.tree → Ready log (next s).1.tree) :
    Ready log (proceed (d.perform o.report s) next).1.tree := by
  have hready := Delivery.ready_perform hlog hstatistic d
  cases hperform : d.perform o.report s with
  | mk s' fault =>
      rw [hperform] at hready
      cases fault with
      | some f => exact hready _ h
      | none => exact hnext s' (hready _ hlog) (hready _ hstatistic) (hready _ h)

theorem ready_feedPhase {log : Option Path} (files : List Path) (checks : List FeedCheck)
    (work : Nat) (s : ReportState) (hlog : Ready o.report.logFile s.tree)
    (hstatistic : Ready o.report.statisticLogFile s.tree) (h : Ready log s.tree) :
    Ready log (feedPhase o files w work checks s).1.tree := by
  induction checks generalizing work s with
  | nil => exact h
  | cons c more ih =>
      by_cases hint : interrupts o work = true
      · simp only [feedPhase, if_pos hint]
        exact h
      · generalize hfound : c.run { root := o.report.root, files } { w with tree := s.tree } = found
        cases hfault : found.fault with
        | some f =>
            simp only [feedPhase, if_neg hint, hfound, hfault]
            exact h
        | none =>
            rw [feedPhase_cons_of_found hint hfound hfault]
            exact ready_proceed hlog hstatistic h (ih (work + 1))

theorem ready_filePhase {log : Option Path} {checks : List FileCheck}
    (hchecks : ∀ c ∈ checks, c ∈ fileChecks) (work pos : Nat) (s : ReportState)
    (hlog : Ready o.report.logFile s.tree) (hstatistic : Ready o.report.statisticLogFile s.tree)
    (h : Ready log s.tree) : Ready log (filePhase o checks w work pos files s).1.tree := by
  induction files generalizing work pos s with
  | nil => exact h
  | cons file more ih =>
      by_cases hint : interrupts o work = true
      · simp only [filePhase, if_pos hint]
        exact h
      · -- a file that is written has been read, so writing it creates nothing
        have hread := Subject.exists_readBytes s.tree o.report.root (file.resolve s.tree.here)
        have hready {log : Option Path} (h : Ready log s.tree) :=
          ready_examineUntilFault o.report.fix (w := { w with tree := s.tree }) hchecks hread h
        generalize hexamine : examineUntilFault o.report.fix
          (Subject.ofTree s.tree o.report.root (file.resolve s.tree.here))
          checks { w with tree := s.tree } = e
        rw [hexamine] at hready
        obtain ⟨reports, fault, tree⟩ := e
        cases fault with
        | some f =>
            simp only [filePhase, if_neg hint, hexamine]
            exact hready h
        | none =>
            rw [filePhase_cons_of_examined hint hexamine]
            exact ready_proceed (s := { s with tree }) (hready hlog) (hready hstatistic) (hready h)
              (ih (work + 1) (pos + 1))

theorem ready_phases {log : Option Path} (hlog : Ready o.report.logFile s.tree)
    (hstatistic : Ready o.report.statisticLogFile s.tree) (h : Ready log s.tree) :
    Ready log (phases o files w s).1.tree := by
  have hfeed {log : Option Path} (h : Ready log s.tree) :=
    ready_feedPhase (w := w) files o.selection.feedChecks 0
      { s with filesCount := files.length } hlog hstatistic h
  rw [phases]
  cases hphase : feedPhase o files w 0 o.selection.feedChecks
      { s with filesCount := files.length } with
  | mk s' ending =>
      rw [hphase] at hfeed
      cases ending with
      | finished =>
          have hchecks : ∀ c ∈ o.selection.fileChecks, c ∈ fileChecks := fun c hc =>
            (List.mem_filter.1 hc).1
          exact ready_filePhase hchecks _ _ s' (hfeed hlog) (hfeed hstatistic) (hfeed h)
      | interrupted => exact hfeed h
      | failed f => exact hfeed h

def begun (o : RunOptions) (s : ReportState) : ReportState :=
  (ReportStep.performAll o.report s (Report.overviewSteps o.report o.excluded o.included)).1

theorem extends_begun (s : ReportState) : s.tree.Extends (begun o s).tree :=
  ReportStep.extends_performAll _

/-- Goes on after some steps, unless one has failed. -/
def following (r : ReportState × Option Fault)
    (next : ReportState → ReportState × Except Fault Bool) : ReportState × Except Fault Bool :=
  match r.2 with
  | some f => (r.1, .error f)
  | none => next r.1

/-- The end of a run: the time is told, and the statistic follows. -/
def conclude (o : ReportOptions) (elapsed : String) (s : ReportState) :
    ReportState × Except Fault Bool :=
  following (ReportStep.performAll o s [Report.info 0 s!"Time elapsed: {elapsed}"]) fun s =>
    following (ReportStep.performAll o s (Report.statisticSteps o s.counts)) fun s =>
      (s, .ok (s.counts.total.errors == 0))

def finish (o : ReportOptions) (elapsed : String) (r : ReportState × RunEnd) :
    ReportState × Except Fault Bool :=
  match r.2 with
  | .failed f => (r.1, .error f)
  | _ => conclude o elapsed r.1

theorem run_eq_following (o : RunOptions) (files : List Path) (w : Surroundings)
    (s : ReportState) :
    run o files w s =
      following (announce o s) fun s => finish o.report w.elapsed (phases o files w s) := by
  rw [run]
  simp only [following]
  cases announce o s with
  | mk s₁ fault =>
      cases fault with
      | some f => rfl
      | none =>
          simp only [finish, conclude, following, ReportStep.performAll]
          cases phases o files w s₁ with
          | mk s₂ e =>
              cases e with
              | failed f => rfl
              | finished | interrupted =>
                  simp only
                  generalize Report.info 0 s!"Time elapsed: {w.elapsed}" = step
                  cases step.perform o.report s₂ with
                  | mk s₃ fault =>
                      cases fault with
                      | some f => rfl
                      | none =>
                          simp only
                          cases ReportStep.performAll o.report s₃
                              (Report.statisticSteps o.report s₃.counts) with
                          | mk s₄ fault => cases fault <;> rfl

/-- With its logs ready, a run comes through its end. -/
theorem conclude_of_ready {o : ReportOptions} (elapsed : String) (hlog : Ready o.logFile s.tree)
    (hstatistic : Ready o.statisticLogFile s.tree) :
    (conclude o elapsed s).2 = .ok (s.counts.total.errors == 0) := by
  obtain ⟨hnone, hready⟩ := performAll_of_ready [Report.info 0 s!"Time elapsed: {elapsed}"] hlog
    hstatistic
  have hcounts := counts_performAll hnone
  rw [conclude, following, hnone]
  generalize (ReportStep.performAll o s [Report.info 0 s!"Time elapsed: {elapsed}"]).1 = s'
    at hready hcounts ⊢
  obtain ⟨hnone', -⟩ := performAll_of_ready (Report.statisticSteps o s'.counts)
    (hready _ hlog) (hready _ hstatistic)
  have hcounts' := counts_performAll hnone'
  rw [hits_statisticSteps] at hcounts'
  show (following _ _).2 = _
  rw [following, hnone']
  show Except.ok (_ == 0) = _
  rw [hcounts', show s'.counts = s.counts from hcounts]
  rfl

/-- **The answer of a run.** With its logs ready, a run whose phases do not fail tells whether it
has handed over no error. -/
theorem answer_eq (hselection : o.selection.isEmpty = false) (hlog : Ready o.report.logFile s.tree)
    (hstatistic : Ready o.report.statisticLogFile s.tree)
    (hphases : ∀ f, (phases o files w (begun o s)).2 ≠ .failed f) :
    (run o files w s).2 = .ok ((s.counts.countAll
      (Delivery.hitsOf (deliveries o files w (begun o s)))).total.errors == 0) := by
  obtain ⟨hnone, hready⟩ := performAll_of_ready
    (Report.overviewSteps o.report o.excluded o.included) hlog hstatistic
  have hcounts : (begun o s).counts = s.counts := by
    rw [begun, counts_performAll hnone, hits_overviewSteps]
    rfl
  have hready' {log : Option Path} (h : Ready log s.tree) :
      Ready log (phases o files w (begun o s)).1.tree :=
    ready_phases (hready _ hlog) (hready _ hstatistic) (hready _ h)
  have hclose := conclude_of_ready w.elapsed (hready' hlog) (hready' hstatistic)
  rw [counts_phases hphases, hcounts] at hclose
  rw [run_eq_following, announce, if_neg (by simp [hselection]), following, hnone]
  show (finish o.report w.elapsed (phases o files w (begun o s))).2 = _
  rw [finish]
  cases hend : (phases o files w (begun o s)).2 with
  | failed f => exact absurd hend (hphases f)
  | finished | interrupted => exact hclose

end Run

/-! ## The account -/

section
variable {o : RunOptions} {s : ReportState}

/-- A row of the statistic: a name, and numbers in columns of eight characters. -/
def tableRow (name : String) (numbers : List Nat) : String :=
  " ".intercalate (Report.leftAligned 48 name :: numbers.map Report.rightAligned)

def checkRow (o : ReportOptions) (e : String × Tally) : ReportStep :=
  .tabulate ⟨if e.2.errors > 0 then .error else .warning, 0,
    tableRow e.1 (Report.columns o e.2.errors e.2.warnings e.2.fixes)⟩

/-- The statistic: a head, one row for each check, and below a rule the sums of the columns. -/
theorem statisticSteps_eq {o : ReportOptions} {c : Counts} (h : o.statistic = true)
    (hsum : Tally.sum (c.byCheck.map (·.2)) = c.total) :
    ∃ head rule, Report.statisticSteps o c = head ++ c.byCheck.map (checkRow o) ++
      [.tabulate rule, .tabulate ⟨.info, 0, tableRow "sum" (Report.columns o
        (c.byCheck.map (·.2.errors)).sum (c.byCheck.map (·.2.warnings)).sum
        (c.byCheck.map (·.2.fixes)).sum)⟩] := by
  rw [Tally.sum_eq] at hsum
  simp only [List.map_map, Function.comp_def] at hsum
  rw [Report.statisticSteps, if_pos h, ← hsum]
  exact ⟨_, _, rfl⟩

theorem errors_eq_zero_iff {hits : List Hit} :
    (Tally.of (hits.map (·.2))).errors = 0 ↔ ∀ hit ∈ hits, hit.2 ≠ .error := by
  rw [Tally.of, List.count_eq_zero, List.mem_map]
  exact ⟨fun h hit hmem heq => h ⟨hit, hmem, heq⟩, fun h ⟨hit, hmem, heq⟩ => h hit hmem heq⟩

/-- **The account of what is delivered.** A report that starts from nothing takes every sequence of
deliveries. At each point of it the totals are the numbers of errors, warnings and fixes delivered
so far, the counters of the checks add up to them, and in the last row of the statistic stand the sums
of the columns. Another order of the deliveries leads to the same account, and a run answers
by whether an error is among what it hands over. -/
theorem account_of_deliveries (hstart : s.counts = {}) (hlog : Ready o.report.logFile s.tree)
    (hstatistic : Ready o.report.statisticLogFile s.tree) :
    (∀ sofar later : List Delivery, (∀ d ∈ sofar, d.IsBelow o.report.root s.tree.here) →
      ∃ s', Delivery.performAll o.report s sofar = (s', none) ∧
        Delivery.performAll o.report s (sofar ++ later) = Delivery.performAll o.report s' later ∧
        s'.counts.total = Tally.of ((Delivery.hitsOf sofar).map (·.2)) ∧
        (∀ name, (s'.counts.byCheck.lookup name).getD {} =
          Tally.of (weightsOf name (Delivery.hitsOf sofar))) ∧
        Tally.sum (s'.counts.byCheck.map (·.2)) = s'.counts.total ∧
        (o.report.statistic = true → ∃ head rule, Report.statisticSteps o.report s'.counts =
          head ++ s'.counts.byCheck.map (checkRow o.report) ++ [.tabulate rule,
            .tabulate ⟨.info, 0, tableRow "sum" (Report.columns o.report
              (s'.counts.byCheck.map (·.2.errors)).sum (s'.counts.byCheck.map (·.2.warnings)).sum
              (s'.counts.byCheck.map (·.2.fixes)).sum)⟩])) ∧
    (∀ ds ds' : List Delivery, ds.Perm ds' → (∀ d ∈ ds, d.IsBelow o.report.root s.tree.here) →
      ∃ s₁ s₂, Delivery.performAll o.report s ds = (s₁, none) ∧
        Delivery.performAll o.report s ds' = (s₂, none) ∧
        s₁.counts.total = s₂.counts.total ∧ s₁.counts.byCheck.Perm s₂.counts.byCheck) ∧
    (∀ (files : List Path) (w : Surroundings) (ds : List Delivery), o.selection.isEmpty = false →
      (∀ f, (Run.phases o files w (Run.begun o s)).2 ≠ .failed f) →
      ds.Perm (Run.deliveries o files w (Run.begun o s)) →
      (run o files w s).2 = .ok (decide (∀ hit ∈ Delivery.hitsOf ds, hit.2 ≠ .error))) := by
  have hdeliver {ds : List Delivery} (hds : ∀ d ∈ ds, d.IsBelow o.report.root s.tree.here) :
      ∃ s', Delivery.performAll o.report s ds = (s', none) ∧
        s'.counts = Counts.countAll {} (Delivery.hitsOf ds) := by
    have hnone := Delivery.fault_performAll hlog hstatistic hds
    exact ⟨_, Prod.ext rfl hnone, by rw [Delivery.counts_performAll hnone, hstart]⟩
  refine ⟨fun sofar later hbelow => ?_, fun ds ds' hperm hbelow => ?_,
    fun files w ds hselection hphases hperm => ?_⟩
  · obtain ⟨s', hs', hcounts⟩ := hdeliver hbelow
    have hsum : Tally.sum (s'.counts.byCheck.map (·.2)) = s'.counts.total := by
      rw [hcounts, Counts.sum_countAll]
    refine ⟨s', hs', Delivery.performAll_append hs' later, ?_, fun name => ?_, hsum,
      fun hstat => statisticSteps_eq hstat hsum⟩
    · rw [hcounts, Counts.total_countAll]
    · rw [hcounts, Counts.lookup_countAll]
      split
      next hempty => exact hempty.symm
      next => rfl
  · have hbelow' : ∀ d ∈ ds', d.IsBelow o.report.root s.tree.here :=
      fun d hd => hbelow d (hperm.mem_iff.2 hd)
    obtain ⟨s₁, hs₁, hcounts₁⟩ := hdeliver hbelow
    obtain ⟨s₂, hs₂, hcounts₂⟩ := hdeliver hbelow'
    have hhits : (Delivery.hitsOf ds).Perm (Delivery.hitsOf ds') := hperm.flatMap_right _
    have hsame := Counts.countAll_perm hhits
    rw [← hcounts₁, ← hcounts₂] at hsame
    exact ⟨s₁, s₂, hs₁, hs₂, hsame⟩
  · have hhits : (Delivery.hitsOf ds).Perm
        (Delivery.hitsOf (Run.deliveries o files w (Run.begun o s))) := hperm.flatMap_right _
    rw [Run.answer_eq hselection hlog hstatistic hphases, hstart,
      ← (Counts.countAll_perm hhits).1, Counts.total_countAll, beq_eq_decide]
    simp only [errors_eq_zero_iff]

/-- A script with a tab, a log, and the checks for tabs and for doubled identifiers: the run logs
what it finds and answers that there is an error. Of two errors and a warning that are delivered in two
pieces none is lost. -/
theorem account_of_tab_script :
    let o : RunOptions :=
      { report := { root := ⟨"/", []⟩, logFile := some ⟨"/", ["log"]⟩, verbosity := 1 }
        included := some (.listed ["check_tabs", "check_duplicate_oid"]) }
    let s : ReportState :=
      { tree := { entries := [(["log"], .file 0o644 []), (["a.nasl"], .file 0o644 [9, 10])] } }
    let w : Surroundings := { tree := .empty, now := default }
    let ds := [Delivery.feed { entries := [("check_tabs", [⟨.error, "a", none, none, none⟩])] },
      .file ⟨"/", ["a.nasl"]⟩ 1
        { entries := [("check_tabs", [⟨.error, "b", none, none, none⟩]),
            ("check_newlines", [⟨.warning, "c", none, none, none⟩])] }]
    (run o [⟨"/", ["a.nasl"]⟩] w s).2 = .ok false ∧
      ∃ s', Delivery.performAll o.report s ds = (s', none) ∧ s'.counts.total = ⟨2, 1, 0⟩ := by
  intro o s w ds
  have hlog : Ready o.report.logFile s.tree := by
    rintro p ⟨⟩
    exact ⟨_, rfl⟩
  have hstatistic : Ready o.report.statisticLogFile s.tree := by
    rintro p ⟨⟩
  obtain ⟨hcounts, -, hrun⟩ := account_of_deliveries (o := o) (s := s) rfl hlog hstatistic
  constructor
  · have hfinished : (Run.phases o [⟨"/", ["a.nasl"]⟩] w (Run.begun o s)).2 = .finished := by
      decide +kernel
    rw [hrun _ w _ (by decide +kernel) (by simp [hfinished]) (List.Perm.refl _)]
    exact congrArg _ (by decide +kernel)
  · obtain ⟨s', hs', -, htotal, -⟩ := hcounts ds [] (by decide +kernel)
    exact ⟨s', hs', htotal⟩

end

end NaslLint
