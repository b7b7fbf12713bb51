import Mathlib.Data.List.Pairwise
import NaslLint.Proofs.Pattern.First

/-!
# All matches of a pattern

The matches of a text leave no place out: where a pattern fits, one of them starts or goes on
(`exists_mem_findAll_of_matchAt?`), and only one (`eq_of_occupies`). The first of them is what a
search for a single match finds, and
where a pattern takes a word and is refused everywhere else, that is the only one
(`findAll_of_takes_behind`). Where it stands at the start of the text, replacing all matches replaces
that one (`replaceAll_of_takes`).
-/

namespace NaslLint

/-- A match occupies a position: it starts there, or it starts before and ends behind it. -/
def Match.Occupies (m : Match) (n : Nat) : Prop :=
  m.start ≤ n ∧ n < max m.stop (m.start + 1)

namespace Pattern

section
variable {p : Pattern} {size resume : Nat} {s : Place} {m m' : Match} {t : List Char}

theorem head?_findAllFrom {opening lead : Option (Char → Bool)} (live : Bool) (prev : Option Char)
    {pos : Nat} (rest : List Char) (hresume : resume ≤ pos) :
    (p.findAllFrom size opening lead live resume prev pos rest).head? =
      p.findFrom size opening lead live prev pos rest := by
  induction rest generalizing live prev pos with
  | nil =>
      rw [findAllFrom, findFrom]
      simp only [hresume, decide_true, Bool.and_true]
      split <;> rfl
  | cons c rest ih =>
      rw [findAllFrom, findFrom]
      simp only [hresume, decide_true, Bool.and_true]
      split
      · rfl
      · rw [ih _ _ (by omega)]
        simp [Nat.not_lt.2 hresume]

theorem head?_findAll (p : Pattern) (t : List Char) : (p.findAll t).head? = p.find? t :=
  head?_findAllFrom true none t (Nat.le_refl 0)

theorem start_of_matchAt? (hm : p.matchAt? size s = some m) : m.start = s.pos := by
  obtain ⟨t, -, rfl⟩ := exists_mem_ends_of_matchAt? hm
  rfl

/-! ## Every fit lies in a match -/

/-- A scan passes over the places before the one where it resumes. -/
theorem scan_wait {c : Char} {r : List Char} (hg : s.groups = []) (hr : s.rest = c :: r)
    (hpos : s.pos < resume) : p.scan size resume s = p.scan size resume (s.move 1) := by
  obtain ⟨prev, pos, rest, groups⟩ := s
  simp only at hg hr hpos
  subst hg hr
  rw [scan, findAllFrom]
  simp [Nat.not_le.2 hpos, hpos, scan, Place.move]

theorem mem_scan_of_matchAt? (hg : s.groups = []) (hpos : resume ≤ s.pos)
    (hm : p.matchAt? size s = some m) : m ∈ p.scan size resume s := by
  cases hr : s.rest with
  | nil =>
      obtain ⟨prev, pos, rest, groups⟩ := s
      simp only at hg hr hpos
      subst hg hr
      rw [scan, findAllFrom, hm]
      simp [hpos]
  | cons c r =>
      rw [scan_hit hg hpos hr hm]
      exact List.mem_cons_self

theorem exists_mem_scan_of_matchAt? {k : Nat} (hg : s.groups = []) (hk : k ≤ s.rest.length)
    (hresume : resume ≤ s.pos + k) (hm : p.matchAt? size (s.move k) = some m) :
    ∃ m' ∈ p.scan size resume s, m'.Occupies (s.pos + k) := by
  induction k generalizing resume s with
  | zero =>
      refine ⟨m, mem_scan_of_matchAt? hg hresume hm, ?_⟩
      rw [Match.Occupies, start_of_matchAt? hm, Place.move_zero]
      omega
  | succ k ih =>
      obtain ⟨c, r, hr⟩ := List.exists_cons_of_length_pos (by omega : 0 < s.rest.length)
      have hpos : (s.move 1).pos = s.pos + 1 := Place.pos_move (by omega)
      rw [Nat.add_comm k 1, ← Place.move_move] at hm
      have hnext {resume : Nat} (hresume : resume ≤ s.pos + (k + 1)) :
          ∃ m' ∈ p.scan size resume (s.move 1), m'.Occupies (s.pos + (k + 1)) := by
        have h : ∃ m' ∈ p.scan size resume (s.move 1), m'.Occupies ((s.move 1).pos + k) :=
          ih (by rw [Place.groups_move, hg]) (by rw [Place.rest_move, List.length_drop]; omega)
            (by omega) hm
        rwa [hpos, Nat.add_assoc, Nat.add_comm 1 k] at h
      by_cases hwait : s.pos < resume
      · rw [scan_wait hg hr hwait]
        exact hnext hresume
      cases hhere : p.matchAt? size s with
      | none =>
          rw [scan_step hg hr (matchAt?_eq_none_iff.1 hhere)]
          exact hnext hresume
      | some m' =>
          rw [scan_hit hg (by omega) hr hhere]
          -- either the match here has not ended, or the scan has resumed
          by_cases hcovered : s.pos + (k + 1) < max m'.stop (s.pos + 1)
          · refine ⟨m', List.mem_cons_self, ?_⟩
            rw [Match.Occupies, start_of_matchAt? hhere]
            omega
          · obtain ⟨m'', hmem, hocc⟩ := hnext (Nat.not_lt.1 hcovered)
            exact ⟨m'', List.mem_cons_of_mem _ hmem, hocc⟩

/-- **No fit is left out.** Where a pattern fits, one of the matches starts or goes on. -/
theorem exists_mem_findAll_of_matchAt? {n : Nat} (hn : n ≤ t.length)
    (hm : p.matchAt? t.length ((Place.ofText t).move n) = some m) :
    ∃ m' ∈ p.findAll t, m'.Occupies n := by
  have h : ∃ m' ∈ p.scan t.length 0 (.ofText t), m'.Occupies ((Place.ofText t).pos + n) :=
    exists_mem_scan_of_matchAt? rfl hn (Nat.zero_le _) hm
  rwa [← findAll_eq_scan, show (Place.ofText t).pos + n = n from Nat.zero_add n] at h

/-- Where the pattern takes a word, the text is covered by a match. -/
theorem Takes.exists_mem_findAll {x r : List Char} {g : List (String × List Char)}
    (h : Takes p x r [] g) (a : List Char) : ∃ m ∈ p.findAll (a ++ (x ++ r)), m.Occupies a.length := by
  obtain ⟨m, hm, -⟩ := h.matchAt? (a ++ (x ++ r)).length (Place.rest_move_ofText a (x ++ r))
    (Place.groups_move _ _)
  exact exists_mem_findAll_of_matchAt? (by simp) hm

/-- At the end of a text a scan reports the match there, if there is one and it has resumed. -/
theorem scan_at_end (hg : s.groups = []) (hr : s.rest = []) :
    p.scan size resume s = if resume ≤ s.pos then (p.matchAt? size s).toList else [] := by
  obtain ⟨prev, pos, rest, groups⟩ := s
  simp only at hg hr
  subst hg hr
  rw [scan, findAllFrom]
  by_cases hpos : resume ≤ pos
  · simp only [hpos, decide_true, Bool.true_and, mayOpen_none, if_true]
    cases p.matchAt? size ⟨prev, pos, [], []⟩ with
    | none => rfl
    | some m => rfl
  · simp [hpos]

/-- A scan that has resumed does not depend on where it did. -/
theorem scan_eq_of_le {resume' : Nat} (hg : s.groups = []) (h : resume ≤ s.pos) (h' : resume' ≤ s.pos) :
    p.scan size resume s = p.scan size resume' s := by
  induction hk : s.rest.length generalizing s with
  | zero =>
      have hr := List.length_eq_zero_iff.1 hk
      rw [scan_at_end hg hr, scan_at_end hg hr, if_pos h, if_pos h']
  | succ k ih =>
      obtain ⟨c, r, hr⟩ := List.exists_cons_of_length_pos (by omega : 0 < s.rest.length)
      have hpos : (s.move 1).pos = s.pos + 1 := Place.pos_move (by omega)
      cases hhere : p.matchAt? size s with
      | none =>
          have hnone := matchAt?_eq_none_iff.1 hhere
          rw [scan_step hg hr hnone, scan_step hg hr hnone]
          exact ih (by rw [Place.groups_move, hg]) (by omega) (by omega)
            (by rw [Place.rest_move, List.length_drop]; omega)
      | some m => rw [scan_hit hg h hr hhere, scan_hit hg h' hr hhere]

/-- What a scan reports stands apart, and nothing starts before the position from which it resumes. -/
theorem apart_scan (hg : s.groups = []) :
    (p.scan size resume s).Pairwise (fun m m' => max m.stop (m.start + 1) ≤ m'.start) ∧
      ∀ m ∈ p.scan size resume s, resume ≤ m.start := by
  induction hk : s.rest.length generalizing s resume with
  | zero =>
      rw [scan_at_end hg (List.length_eq_zero_iff.1 hk)]
      by_cases hpos : resume ≤ s.pos
      · cases hhere : p.matchAt? size s with
        | none => simp
        | some m => simp [hpos, start_of_matchAt? hhere]
      · simp [hpos]
  | succ k ih =>
      obtain ⟨c, r, hr⟩ := List.exists_cons_of_length_pos (by omega : 0 < s.rest.length)
      have hnext (resume : Nat) := @ih resume (s.move 1) (by rw [Place.groups_move, hg])
        (by rw [Place.rest_move, List.length_drop]; omega)
      by_cases hwait : s.pos < resume
      · rw [scan_wait hg hr hwait]
        exact hnext resume
      cases hhere : p.matchAt? size s with
      | none =>
          rw [scan_step hg hr (matchAt?_eq_none_iff.1 hhere)]
          exact hnext resume
      | some m =>
          rw [scan_hit hg (by omega) hr hhere]
          obtain ⟨hapart, hlater⟩ := hnext (max m.stop (s.pos + 1))
          have hstart := start_of_matchAt? hhere
          refine ⟨List.pairwise_cons.2 ⟨fun m' hm' => ?_, hapart⟩, List.forall_mem_cons.2 ⟨?_, ?_⟩⟩
          · rw [hstart]
            exact hlater m' hm'
          · omega
          · intro m' hm'
            have := hlater m' hm'
            omega

/-- **Matches stand apart.** Two matches that occupy one position are the same. -/
theorem eq_of_occupies {n : Nat} (hm : m ∈ p.findAll t) (hm' : m' ∈ p.findAll t)
    (h : m.Occupies n) (h' : m'.Occupies n) : m = m' := by
  rw [findAll_eq_scan] at hm hm'
  have hapart := (@apart_scan p t.length 0 (.ofText t) rfl).1.imp
    (S := fun m m' => ¬ (m.Occupies n ∧ m'.Occupies n)) fun {m m'} hle hboth => by
      have := hboth.1.2
      have := hboth.2.1
      omega
  have hsymm : Std.Symm fun m m' : Match => ¬ (m.Occupies n ∧ m'.Occupies n) :=
    ⟨fun _ _ hnot hboth => hnot hboth.symm⟩
  by_contra hne
  exact hapart.forall hm hm' hne ⟨h, h'⟩

/-- What is reported at a place where the pattern takes a word covers that word. -/
theorem covers_of_mem_findAll {a x r : List Char} {g : List (String × List Char)}
    (h : Takes p x r [] g) (hm : m ∈ p.findAll (a ++ (x ++ r))) (hstart : m.start = a.length) :
    m.Covers a.length x g := by
  obtain ⟨n, hn, hmatch⟩ := exists_matchAt?_of_mem_findAll hm
  have hpos : ((Place.ofText (a ++ (x ++ r))).move n).pos = n :=
    Place.pos_move_ofText hn
  obtain rfl : n = a.length := by
    rw [← hpos, ← start_of_matchAt? hmatch, hstart]
  obtain ⟨m', hm', hcovers⟩ := h.matchAt? (a ++ (x ++ r)).length
    (s := (Place.ofText (a ++ (x ++ r))).move a.length)
    (Place.rest_move_ofText a (x ++ r)) (Place.groups_move _ _)
  rw [hmatch] at hm'
  obtain rfl := Option.some.inj hm'
  rwa [hpos] at hcovers

/-- Where all matches start at one place and the pattern fits there, that is the first match. -/
theorem find?_of_only {a b : List Char} (hfit : p.matchAt? (a ++ b).length
      ((Place.ofText (a ++ b)).move a.length) = some m)
    (honly : ∀ m ∈ p.findAll (a ++ b), m.start = a.length) : p.find? (a ++ b) = some m := by
  obtain ⟨m₀, hm₀, -⟩ := exists_mem_findAll_of_matchAt? (by simp) hfit
  obtain ⟨m', hm'⟩ : ∃ m', p.find? (a ++ b) = some m' := by
    rw [← head?_findAll]
    cases hall : p.findAll (a ++ b) with
    | nil =>
        rw [hall] at hm₀
        exact absurd hm₀ List.not_mem_nil
    | cons m' more => exact ⟨m', rfl⟩
  have hstart : m'.start = a.length := by
    apply honly
    rw [← head?_findAll] at hm'
    exact List.mem_of_mem_head? hm'
  obtain ⟨n, hn, hmatch⟩ := exists_matchAt?_of_find? hm'
  have hpos : ((Place.ofText (a ++ b)).move n).pos = n :=
    Place.pos_move_ofText hn
  obtain rfl : n = a.length := by
    rw [← hpos, ← start_of_matchAt? hmatch, hstart]
  rw [hm', ← hmatch, hfit]

/-! ## A single match, or none -/

theorem ends_move_eq_nil {n : Nat} (hg : s.groups = []) (h : Refuses p (s.rest.drop n) []) :
    p.ends size (s.move n) = [] := by
  refine h size _ (Place.rest_move n s) ?_
  rw [Place.texts, Place.groups_move, hg]
  rfl

/-- A scan goes past a word at the places of which the pattern is refused. -/
theorem scan_refused {a y : List Char} (hg : s.groups = []) (hs : s.rest = a ++ y)
    (h : ∀ u, u <:+ a → u ≠ [] → Refuses p (u ++ y) []) :
    p.scan size resume s = p.scan size resume (s.move a.length) := by
  apply scan_skip hg (by simp [hs])
  intro i hi
  refine ends_move_eq_nil hg ?_
  rw [hs, List.drop_append_of_le_length (by omega)]
  refine h _ (List.drop_suffix i a) ?_
  rw [Ne, List.drop_eq_nil_iff]
  omega

/-- A scan of a text in which the pattern fits nowhere reports nothing. -/
theorem scan_eq_nil (hg : s.groups = []) (h : ∀ u, u <:+ s.rest → Refuses p u []) :
    p.scan size resume s = [] := by
  have hnone (n : Nat) : p.ends size (s.move n) = [] :=
    ends_move_eq_nil hg (h _ (List.drop_suffix n _))
  rw [scan_skip hg (Nat.le_refl _) fun i _ => hnone i]
  apply scan_of_rest_nil
  · rw [Place.groups_move, hg]
  · rw [Place.rest_move, List.drop_length]
  · exact hnone _

theorem findAll_eq_nil (h : ∀ u, u <:+ t → Refuses p u []) : p.findAll t = [] := by
  rw [findAll_eq_scan]
  exact scan_eq_nil rfl h

/-- Where a pattern takes a word and is refused at every other place, the word is the only match. -/
theorem findAll_of_takes_behind {a x r : List Char} {g : List (String × List Char)}
    (hbefore : ∀ u, u <:+ a → u ≠ [] → Refuses p (u ++ (x ++ r)) []) (h : Takes p x r [] g)
    (hx : x ≠ []) (hlater : ∀ u, u <:+ (x ++ r).tail → Refuses p u []) :
    ∃ m, p.findAll (a ++ (x ++ r)) = [m] ∧ m.Covers a.length x g := by
  let s : Place := Place.ofText (a ++ (x ++ r))
  have hlen : a.length ≤ s.rest.length := by simp [s, Place.ofText]
  have hrest : (s.move a.length).rest = x ++ r := by
    rw [Place.rest_move]
    exact List.drop_left
  have hpos : (s.move a.length).pos = a.length := by
    rw [Place.pos_move hlen]
    exact Nat.zero_add _
  have hgroups (n : Nat) : (s.move n).groups = [] := Place.groups_move n s
  obtain ⟨m, hm, hcovers⟩ := h.matchAt? (a ++ (x ++ r)).length hrest (hgroups _)
  rw [hpos] at hcovers
  refine ⟨m, ?_, hcovers⟩
  obtain ⟨c, y, hy⟩ := List.exists_cons_of_ne_nil (List.append_ne_nil_of_left_ne_nil hx r)
  rw [findAll_eq_scan, scan_refused (s := s) rfl rfl hbefore,
    scan_hit (hgroups _) (Nat.zero_le _) (hrest.trans hy) hm]
  congr 1
  apply scan_eq_nil
  · rw [Place.groups_move, hgroups]
  · rw [Place.rest_move, hrest, List.drop_one]
    exact hlater

theorem findAll_of_takes {x r : List Char} {g : List (String × List Char)} (h : Takes p x r [] g)
    (hx : x ≠ []) (hlater : ∀ u, u <:+ (x ++ r).tail → Refuses p u []) :
    ∃ m, p.findAll (x ++ r) = [m] ∧ m.Covers 0 x g :=
  findAll_of_takes_behind (a := [])
    (fun _ hu hne => absurd (List.suffix_nil.1 hu) hne) h hx hlater

/-! ## Replacing no match or the only one -/

/-- Where the pattern fits nowhere, nothing is replaced. -/
theorem replaceAll_of_refuses {new : Match → List Char} (h : ∀ u, u <:+ t → Refuses p u []) :
    p.replaceAll new t = t := by
  rw [replaceAll, findAll_eq_nil h]
  rfl

/-- Where the only match stands at the start of the text, just that is replaced. -/
theorem replaceAll_of_takes {x r y : List Char} {g : List (String × List Char)}
    {new : Match → List Char} (h : Takes p x r [] g) (hx : x ≠ [])
    (hlater : ∀ u, u <:+ (x ++ r).tail → Refuses p u []) (hnew : ∀ m, m.Covers 0 x g → new m = y) :
    p.replaceAll new (x ++ r) = y ++ r := by
  obtain ⟨m, hall, hcovers⟩ := findAll_of_takes h hx hlater
  rw [replaceAll, hall]
  simp [hcovers.start_eq, hcovers.stop_eq, hnew m hcovers]

end

end Pattern

end NaslLint
