import NaslLint.Proofs.Pattern.All

/-!
# How matches cut a text

Where a pattern covers at least one character whenever it fits, its matches cut a text into themselves
and stretches in which no fit starts.

* `Pattern.Cuts` says so of a list of matches, and `Pattern.cuts_findAll` that it holds of all of
  them.
* `Pattern.Counts` gives the number of matches, with a rule for words that the pattern takes and one
  for words in which it is refused.
* `Pattern.recut` is the text with other words in the place of the matches.
-/

namespace NaslLint.Pattern

section
variable {p : Pattern} {size resume : Nat} {s : Place} {m : Match} {ms more : List Match}

/-- Matches that cut the text behind a place: no fit starts in front of one of them or behind the
last. -/
inductive Cuts (p : Pattern) (size : Nat) : Place → List Match → Prop
  | nil {s : Place} (hnone : ∀ n ≤ s.rest.length, p.ends size (s.move n) = []) : Cuts p size s []
  | cons {s : Place} {m : Match} {more : List Match} (gap r : List Char)
      (hrest : s.rest = gap ++ (m.text ++ r))
      (hnone : ∀ n < gap.length, p.ends size (s.move n) = [])
      (hm : p.matchAt? size (s.move gap.length) = some m)
      (hmore : Cuts p size (s.move (gap.length + m.text.length)) more) : Cuts p size s (m :: more)

/-- A place without a fit may stand in front. -/
theorem Cuts.step {c : Char} {r : List Char} (hr : s.rest = c :: r) (hnone : p.ends size s = [])
    (h : Cuts p size (s.move 1) ms) : Cuts p size s ms := by
  have hplaces {k : Nat} (h : ∀ n < k, p.ends size ((s.move 1).move n) = []) :
      ∀ n < k + 1, p.ends size (s.move n) = [] := by
    intro n hn
    cases n with
    | zero => rwa [Place.move_zero]
    | succ n =>
        have hn' := h n (by omega)
        rwa [Place.move_move, Nat.add_comm] at hn'
  cases h with
  | nil h =>
      refine .nil fun n hn => hplaces (fun n hn => h n (Nat.le_of_lt_succ hn)) n ?_
      rw [Place.rest_move, List.length_drop]
      rw [hr, List.length_cons] at hn ⊢
      omega
  | cons gap r' hrest h hm hmore =>
      rw [Place.move_move, Nat.add_comm] at hm
      rw [Place.move_move, Nat.add_comm, Nat.add_right_comm] at hmore
      refine .cons (c :: gap) r' ?_ (hplaces h) hm hmore
      rw [Place.rest_move, hr, List.drop_succ_cons, List.drop_zero] at hrest
      rw [hr, hrest, List.cons_append]

/-- A match leads from its start to its end. -/
theorem exists_rest_of_matchAt? (hm : p.matchAt? size s = some m) :
    ∃ r, s.rest = m.text ++ r ∧ m.start = s.pos ∧ m.stop = s.pos + m.text.length := by
  obtain ⟨e, he, rfl⟩ := exists_mem_ends_of_matchAt? hm
  have hleads := leads_of_mem_ends he
  exact ⟨e.rest, hleads.rest_eq, rfl, hleads.pos_eq⟩

/-- A scan passes over the places before the one where it resumes. -/
theorem scan_resume {n : Nat} (hg : s.groups = []) (hn : n ≤ s.rest.length)
    (hresume : resume = s.pos + n) : p.scan size resume s = p.scan size resume (s.move n) := by
  induction n generalizing s with
  | zero => rfl
  | succ n ih =>
      obtain ⟨c, r, hr⟩ := List.exists_cons_of_length_pos (by omega : 0 < s.rest.length)
      have hpos : (s.move 1).pos = s.pos + 1 := Place.pos_move (by omega)
      rw [scan_wait hg hr (by omega), ih (by rw [Place.groups_move, hg]) (by simp; omega) (by omega),
        Place.move_move, Nat.add_comm]

/-- Where a match stands in the text. -/
theorem exists_append_of_mem_findAll {t : List Char} (hm : m ∈ p.findAll t) :
    ∃ a b, t = a ++ (m.text ++ b) ∧ m.start = a.length ∧ m.stop = a.length + m.text.length ∧
      p.Spells m.text := by
  obtain ⟨n, hn, hmatch⟩ := exists_matchAt?_of_mem_findAll hm
  obtain ⟨r, hrest, hstart, hstop⟩ := exists_rest_of_matchAt? hmatch
  have hpos : ((Place.ofText t).move n).pos = n :=
    Place.pos_move_ofText hn
  have hlen : (t.take n).length = n := List.length_take_of_le hn
  rw [hpos] at hstart hstop
  refine ⟨t.take n, r, ?_, by rw [hstart, hlen], by rw [hstop, hlen], ?_⟩
  · rw [← hrest, Place.rest_move]
    exact (List.take_append_drop n t).symm
  · obtain ⟨e, he, rfl⟩ := exists_mem_ends_of_matchAt? hmatch
    exact spells_of_mem_ends he

/-- A place at which a match has started and not ended cuts it in two. -/
theorem exists_split_of_mem_findAll {a v : List Char} (hm : m ∈ p.findAll (a ++ v))
    (hstart : m.start ≤ a.length) (hstop : a.length ≤ m.stop) :
    ∃ u x y r, a = u ++ x ∧ v = y ++ r ∧ m.text = x ++ y ∧ m.start = u.length ∧
      m.stop = a.length + y.length ∧ p.Spells m.text := by
  obtain ⟨u, r, heq, hu, hr, hspells⟩ := exists_append_of_mem_findAll hm
  have hua : u <+: a := by
    have hprefix : u <+: a ++ v := ⟨_, heq.symm⟩
    exact List.prefix_of_prefix_length_le hprefix (List.prefix_append _ _) (by omega)
  obtain ⟨x, rfl⟩ := hua
  rw [List.append_assoc, List.append_cancel_left_eq] at heq
  have hx : x <+: m.text := by
    refine List.prefix_of_prefix_length_le (List.prefix_append x v) ⟨_, heq.symm⟩ ?_
    rw [List.length_append] at hstop
    omega
  obtain ⟨y, hy⟩ := hx
  refine ⟨u, x, y, r, rfl, ?_, hy.symm, hu, ?_, hspells⟩
  · rwa [← hy, List.append_assoc, List.append_cancel_left_eq] at heq
  · rw [hr, ← hy, List.length_append, List.length_append, Nat.add_assoc]

/-- A scan reports a word that the pattern takes, and goes on behind it. -/
theorem scan_taken {x r : List Char} {g : List (String × List Char)} (hg : s.groups = [])
    (hresume : resume ≤ s.pos) (hs : s.rest = x ++ r) (hx : x ≠ []) (h : Takes p x r [] g) :
    ∃ m, m.Covers s.pos x g ∧
      p.scan size resume s = m :: p.scan size (s.move x.length).pos (s.move x.length) := by
  obtain ⟨m, hm, hcovers⟩ := h.matchAt? size hs hg
  refine ⟨m, hcovers, ?_⟩
  obtain ⟨c, y, rfl⟩ := List.exists_cons_of_ne_nil hx
  have hlen : (c :: y).length ≤ s.rest.length := by simp [hs]
  have hpos : (s.move 1).pos = s.pos + 1 := Place.pos_move (by simp at hlen; omega)
  rw [scan_hit hg hresume hs hm, hcovers.stop_eq, Nat.max_eq_left (by simp),
    scan_resume (n := y.length) (by rw [Place.groups_move, hg]) (by simp at hlen ⊢; omega)
      (by simp; omega), Place.move_move, Nat.add_comm 1, ← Place.pos_move hlen]
  rfl

/-- What a scan reports cuts the text behind its place. -/
theorem cuts_scan (hp : ∀ s m, p.matchAt? size s = some m → m.text ≠ []) (hg : s.groups = [])
    (hresume : resume ≤ s.pos) : Cuts p size s (p.scan size resume s) := by
  induction hk : s.rest.length using Nat.strongRecOn generalizing s resume with
  | ind k ih =>
      have hnone (h : p.matchAt? size s = none) : p.ends size s = [] := matchAt?_eq_none_iff.1 h
      cases hr : s.rest with
      | nil =>
          have hhere : p.matchAt? size s = none := by
            refine Option.eq_none_iff_forall_ne_some.2 fun m hm => hp s m hm ?_
            obtain ⟨r, hrest, -⟩ := exists_rest_of_matchAt? hm
            rw [hr] at hrest
            exact (List.append_eq_nil_iff.1 hrest.symm).1
          rw [scan_of_rest_nil hg hr (hnone hhere)]
          refine .nil fun n hn => ?_
          rw [hr, List.length_nil, Nat.le_zero] at hn
          rw [hn, Place.move_zero, hnone hhere]
      | cons c r =>
          rw [hr, List.length_cons] at hk
          cases hhere : p.matchAt? size s with
          | none =>
              rw [scan_step hg hr (hnone hhere)]
              refine .step hr (hnone hhere) (ih r.length (by omega) (by rw [Place.groups_move, hg]) ?_
                (by simp [hr]))
              rw [Place.pos_move (by simp [hr])]
              omega
          | some m =>
              obtain ⟨r', hrest, -, hstop⟩ := exists_rest_of_matchAt? hhere
              have hlen := List.length_pos_iff.2 (hp s m hhere)
              have hpos : (s.move 1).pos = s.pos + 1 := Place.pos_move (by simp [hr])
              have hbound : m.text.length ≤ r.length + 1 := by
                rw [← List.length_cons, ← hr, hrest, List.length_append]
                omega
              rw [scan_hit hg hresume hr hhere, Nat.max_eq_left (by omega),
                scan_resume (n := m.text.length - 1) (by rw [Place.groups_move, hg])
                  (by simp [hr]; omega) (by omega), Place.move_move, Nat.add_sub_cancel' hlen]
              refine .cons [] r' hrest (by simp) (by simpa using hhere) ?_
              rw [List.length_nil, Nat.zero_add]
              refine ih _ ?_ (by rw [Place.groups_move, hg]) ?_ rfl
              · simp [hr]
                omega
              · rw [Place.pos_move (by simp [hr]; omega)]
                omega

/-- **All matches cut a text.** -/
theorem cuts_findAll {t : List Char} (hp : ∀ s m, p.matchAt? t.length s = some m → m.text ≠ []) :
    Cuts p t.length (.ofText t) (p.findAll t) := by
  rw [findAll_eq_scan]
  exact cuts_scan hp rfl (Nat.le_refl 0)

/-! ## How many matches there are -/

/-- Where the text goes on like this, so many matches follow. -/
def Counts (p : Pattern) (v : List Char) (n : Nat) : Prop :=
  ∀ size (s : Place), s.groups = [] → s.rest = v → (p.scan size s.pos s).length = n

theorem counts_nil (h : Refuses p [] []) : Counts p [] 0 := by
  intro size s hg hs
  rw [scan_eq_nil hg, List.length_nil]
  intro u hu
  rw [hs, List.suffix_nil] at hu
  rwa [hu]

/-- A word at the places of which the pattern is refused adds no match. -/
theorem Counts.refused {a v : List Char} {n : Nat} (h : Counts p v n)
    (ha : ∀ u, u <:+ a → u ≠ [] → Refuses p (u ++ v) []) : Counts p (a ++ v) n := by
  intro size s hg hs
  have hg' : (s.move a.length).groups = [] := by rw [Place.groups_move, hg]
  have hpos : s.pos ≤ (s.move a.length).pos := by
    rw [Place.pos_move (by simp [hs])]
    exact Nat.le_add_right _ _
  rw [scan_refused hg hs ha, scan_eq_of_le hg' hpos (Nat.le_refl _)]
  exact h size _ hg' (by rw [Place.rest_move, hs, List.drop_left])

/-- A word that the pattern takes adds one. -/
theorem Counts.taken {x v : List Char} {n : Nat} {g : List (String × List Char)} (h : Counts p v n)
    (hx : x ≠ []) (htakes : Takes p x v [] g) : Counts p (x ++ v) (n + 1) := by
  intro size s hg hs
  obtain ⟨m, -, hscan⟩ := scan_taken hg (Nat.le_refl _) hs hx htakes
  rw [hscan, List.length_cons, h size _ (by rw [Place.groups_move, hg])
    (by rw [Place.rest_move, hs, List.drop_left])]

theorem Counts.length_findAll {t : List Char} {n : Nat} (h : Counts p t n) : (p.findAll t).length = n := by
  rw [findAll_eq_scan]
  exact h t.length (.ofText t) rfl rfl

/-! ## Other words in the place of matches -/

/-- The text behind a position with other words in the place of matches. -/
def recut (f : Match → List Char) : Nat → List Char → List Match → List Char
  | _, rest, [] => rest
  | pos, rest, m :: more =>
    rest.take (m.start - pos) ++ (f m ++ recut f m.stop (rest.drop (m.stop - pos)) more)

variable {f g : Match → List Char}

theorem recut_cons {gap r : List Char} (hrest : s.rest = gap ++ (m.text ++ r))
    (hm : p.matchAt? size (s.move gap.length) = some m) :
    recut f s.pos s.rest (m :: more) = gap ++ (f m ++
      recut f (s.move (gap.length + m.text.length)).pos (s.move (gap.length + m.text.length)).rest
        more) := by
  obtain ⟨r', -, hstart, hstop⟩ := exists_rest_of_matchAt? hm
  have hlen : s.rest.length = gap.length + (m.text.length + r.length) := by
    rw [hrest, List.length_append, List.length_append]
  rw [Place.pos_move (by omega)] at hstart hstop
  rw [recut, hstart, hstop, Place.pos_move (by omega), Place.rest_move, Nat.add_sub_cancel_left,
    Nat.add_assoc, Nat.add_sub_cancel_left]
  conv_lhs => enter [1]; rw [hrest, List.take_left]

/-- The words of the matches themselves give the text back. -/
theorem Cuts.recut_text (h : Cuts p size s ms) : recut Match.text s.pos s.rest ms = s.rest := by
  induction h with
  | nil => rfl
  | cons gap r hrest _ hm _ ih =>
      rw [recut_cons hrest hm, ih, Place.rest_move, hrest, ← List.append_assoc, ← List.append_assoc,
        ← List.length_append, List.drop_left]

/-- Words of the same lengths make the same text only if they are the same. -/
theorem Cuts.recut_inj (h : Cuts p size s ms) (hlen : ∀ m ∈ ms, (f m).length = (g m).length) :
    recut f s.pos s.rest ms = recut g s.pos s.rest ms ↔ ∀ m ∈ ms, f m = g m := by
  induction h with
  | nil => simp [recut]
  | cons gap r hrest _ hm _ ih =>
      obtain ⟨hlen, hmore⟩ := List.forall_mem_cons.1 hlen
      rw [recut_cons hrest hm, recut_cons hrest hm, List.append_cancel_left_eq,
        List.forall_mem_cons, ← ih hmore]
      constructor
      · intro heq
        exact List.append_inj heq hlen
      · rintro ⟨hword, hrest⟩
        rw [hword, hrest]

end

end NaslLint.Pattern
