import NaslLint.Proofs.Accounting

/-!
# Results, some of them left out

Results are entries by check. Leaving findings out of the entries is the same before they are added
and afterwards, and the entries that remain are in the order in which they were.

* `Results.restrict` keeps the findings that pass; `restrict_insert` lets it pass through `insert`.
* `entries_fileResults` says that checks with names of their own have entries of their own.
* `Results.withoutWarnings` are the results of a run that ignores warnings; `withoutWarnings_add`
  says so of one addition, `withoutWarnings_fileResults` of all results of a file.
-/

namespace NaslLint

def Hit.isGrave (e : Hit) : Bool :=
  e.2 ≠ .warning

namespace Results

/-- The entries with those findings only that pass. -/
def restrict (p : Finding → Bool) (entries : List (String × List Finding)) :
    List (String × List Finding) :=
  entries.map fun e => (e.1, e.2.filter p)

def hasFinding (entries : List (String × List Finding)) : Bool :=
  entries.any fun e => !e.2.isEmpty

theorem restrict_insert (p : Finding → Bool) (name : String) (new : List Finding)
    (entries : List (String × List Finding)) :
    restrict p (insert name new entries) = insert name (new.filter p) (restrict p entries) := by
  induction entries with
  | nil => rfl
  | cons e more ih =>
      obtain ⟨n, old⟩ := e
      by_cases hn : (n == name) = true
      · simp only [insert, restrict, List.map_cons, if_pos hn, List.filter_append]
      · simp only [insert, restrict, List.map_cons, if_neg hn]
        exact congrArg _ ih

theorem hasFinding_insert (name : String) (new : List Finding)
    (entries : List (String × List Finding)) :
    hasFinding (insert name new entries) = (hasFinding entries || !new.isEmpty) := by
  induction entries with
  | nil => simp [insert, hasFinding]
  | cons e more ih =>
      obtain ⟨n, old⟩ := e
      simp only [hasFinding] at ih
      by_cases hn : (n == name) = true
      · simp only [insert, if_pos hn, hasFinding, List.any_cons]
        cases old <;> cases new <;> simp
      · simp only [insert, if_neg hn, hasFinding, List.any_cons, ih, Bool.or_assoc]

theorem insert_insert (name : String) (new more : List Finding)
    (entries : List (String × List Finding)) :
    insert name more (insert name new entries) = insert name (new ++ more) entries := by
  induction entries with
  | nil => simp [insert]
  | cons e rest ih =>
      obtain ⟨n, old⟩ := e
      by_cases hn : (n == name) = true
      · simp only [insert, if_pos hn, List.append_assoc]
      · simp only [insert, if_neg hn, ih]

/-- A name that is new comes last. -/
theorem insert_of_not_mem {name : String} {entries : List (String × List Finding)}
    (h : name ∉ entries.map Prod.fst) (new : List Finding) :
    insert name new entries = entries ++ [(name, new)] := by
  induction entries with
  | nil => rfl
  | cons e rest ih =>
      obtain ⟨n, old⟩ := e
      rw [List.map_cons, List.mem_cons, not_or] at h
      have hn : ¬ (n == name) = true := fun hn => h.1 (eq_of_beq hn).symm
      simp only [insert, if_neg hn, ih h.2, List.cons_append]

theorem kept_append (r : Results) (l l' : List Finding) :
    r.kept (l ++ l') = r.kept l ++ r.kept l' := by
  unfold kept
  split
  · exact List.filter_append ..
  · rfl

theorem mem_of_mem_kept {r : Results} {l : List Finding} {f : Finding} (h : f ∈ r.kept l) :
    f ∈ l := by
  unfold kept at h
  split at h
  · exact List.mem_of_mem_filter h
  · exact h

/-- Adds what a check has found and, if it was to repair, what it has repaired. -/
def addReport (r : Results) (c : CheckReport) : Results :=
  let r := r.add c.check c.found.results
  match c.repaired with
  | none => r
  | some fixes => r.add c.check fixes.results

theorem fileResults_eq (o : RunOptions) (reports : List CheckReport) :
    Run.fileResults o reports =
      reports.foldl addReport { ignoreWarnings := o.report.ignoreWarnings } :=
  rfl

theorem ignoreWarnings_addReport (r : Results) (c : CheckReport) :
    (r.addReport c).ignoreWarnings = r.ignoreWarnings := by
  unfold addReport
  cases c.repaired <;> rfl

theorem entries_addReport (r : Results) (c : CheckReport) :
    (r.addReport c).entries = insert c.check (r.kept c.findings) r.entries := by
  rw [CheckReport.findings, kept_append, ← insert_insert]
  unfold addReport
  cases c.repaired with
  | none =>
      have hnone : r.kept [] = [] := by simp [kept]
      show insert _ _ _ = insert _ (r.kept []) _
      rw [insert_insert, hnone, List.append_nil]
  | some fixes => rfl

/-- Checks with names of their own have entries of their own, in the order in which they ran. -/
theorem entries_fileResults {reports : List CheckReport} (o : RunOptions)
    (h : (reports.map (·.check)).Nodup) :
    (Run.fileResults o reports).entries = reports.map fun c =>
      (c.check, kept { ignoreWarnings := o.report.ignoreWarnings } c.findings) := by
  have hkept {r r' : Results} (hr : r.ignoreWarnings = r'.ignoreWarnings) : r.kept = r'.kept := by
    funext l
    rw [kept, kept, hr]
  have hfold (r : Results) (hr : (r.entries.map Prod.fst ++ reports.map (·.check)).Nodup) :
      (reports.foldl addReport r).entries =
        r.entries ++ reports.map fun c => (c.check, r.kept c.findings) := by
    induction reports generalizing r with
    | nil => simp
    | cons c reports ih =>
        have hnew : c.check ∉ r.entries.map Prod.fst := by
          intro hmem
          exact List.disjoint_of_nodup_append hr hmem List.mem_cons_self
        have hentries : (r.addReport c).entries = r.entries ++ [(c.check, r.kept c.findings)] := by
          rw [entries_addReport, insert_of_not_mem hnew]
        rw [List.foldl_cons, ih (List.nodup_cons.1 h).2, hentries,
          hkept (ignoreWarnings_addReport r c), List.append_assoc]
        · rfl
        · rw [hentries, List.map_append, List.append_assoc]
          exact hr
  exact hfold { ignoreWarnings := o.report.ignoreWarnings } h

/-! ## Warnings -/

/-- Whether a finding is kept when warnings are ignored. -/
def isGrave (f : Finding) : Bool :=
  f.severity ≠ .warning

def withoutWarnings (r : Results) : Results :=
  { ignoreWarnings := true
    entries := restrict isGrave r.entries
    any := hasFinding (restrict isGrave r.entries) }

theorem any_withoutWarnings (r : Results) :
    r.withoutWarnings.any = true ↔ ∃ e ∈ r.withoutWarnings.entries, e.2 ≠ [] := by
  show hasFinding r.withoutWarnings.entries = true ↔ _
  simp only [hasFinding, List.any_eq_true, Bool.not_eq_true', List.isEmpty_eq_false_iff]

theorem filter_kept (r : Results) (findings : List Finding) :
    (r.kept findings).filter isGrave = findings.filter isGrave := by
  rw [kept]
  split
  · show (findings.filter isGrave).filter isGrave = findings.filter isGrave
    simp only [List.filter_filter, Bool.and_self]
  · rfl

/-- Warnings are left out of an addition or out of the results, which is the same. -/
theorem withoutWarnings_add (r : Results) (name : String) (findings : List Finding) :
    (r.add name findings).withoutWarnings = r.withoutWarnings.add name findings := by
  have hkept : r.withoutWarnings.kept findings = findings.filter isGrave := rfl
  simp only [withoutWarnings, add, restrict_insert, filter_kept, hasFinding_insert] at hkept ⊢
  rw [hkept]

theorem withoutWarnings_addReport (r : Results) (c : CheckReport) :
    (r.addReport c).withoutWarnings = r.withoutWarnings.addReport c := by
  unfold addReport
  cases c.repaired with
  | none => exact withoutWarnings_add r _ _
  | some fixes =>
      show ((r.add _ _).add _ _).withoutWarnings = _
      rw [withoutWarnings_add, withoutWarnings_add]

theorem hits_withoutWarnings (r : Results) :
    r.withoutWarnings.hits = r.hits.filter Hit.isGrave := by
  rw [hits, hits, withoutWarnings, restrict, List.flatMap_map, List.filter_flatMap]
  refine List.flatMap_congr fun e _ => ?_
  rw [List.filter_map]
  rfl

/-- The results of a file, warnings aside, are those of a run that ignores warnings. -/
theorem withoutWarnings_fileResults {a b : RunOptions} (reports : List CheckReport)
    (h : b.report.ignoreWarnings = true) :
    (Run.fileResults a reports).withoutWarnings = Run.fileResults b reports := by
  have hfold (r : Results) : (reports.foldl addReport r).withoutWarnings =
      reports.foldl addReport r.withoutWarnings := by
    induction reports generalizing r with
    | nil => rfl
    | cons c reports ih =>
        rw [List.foldl_cons, List.foldl_cons, ih, withoutWarnings_addReport]
  rw [fileResults_eq, fileResults_eq, hfold, h]
  rfl

/-- The same for the results of a check of the feed. -/
theorem withoutWarnings_feedResults {a b : RunOptions} (name : String) (findings : List Finding)
    (hfix : a.report.fix = b.report.fix) (h : b.report.ignoreWarnings = true) :
    (Run.feedResults a name findings).withoutWarnings = Run.feedResults b name findings := by
  unfold Run.feedResults
  rw [hfix, h]
  split
  · rw [withoutWarnings_add, withoutWarnings_add]
    rfl
  · rw [withoutWarnings_add]
    rfl

end Results

end NaslLint
