import NaslLint.Proofs.Pattern.Ends

/-!
# Searching loses no match

A search passes over the places that fail the opening test of its pattern, and over places inside a
run with which the pattern opens. Both are sound, for every pattern: `find?_eq_findSome?` says that
the first match is the match at the first place that has one, and `findAll_eq_scan` that all matches
are those of a scan that tries every place.
-/

namespace NaslLint.Pattern

/-! ## The opening test -/

@[simp] theorem mayOpen_none (rest : List Char) : mayOpen none rest = true := by
  cases rest <;> rfl

theorem mayOpen_some_iff {f : Char → Bool} {rest : List Char} :
    mayOpen (some f) rest = true ↔ ∃ c r, rest = c :: r ∧ f c = true := by
  cases rest <;> simp [mayOpen]

theorem eq_or_step_of_mem_afterUpTo {step : Place → List Place} {n : Nat} {s t : Place}
    (h : t ∈ afterUpTo step n s) : t = s ∨ ∃ u, u ∈ step s := by
  cases n with
  | zero => exact Or.inl (List.mem_singleton.1 h)
  | succ n =>
      rcases List.mem_append.1 h with h | h
      · obtain ⟨u, hu, -⟩ := List.mem_flatMap.1 h
        exact Or.inr ⟨u, hu⟩
      · exact Or.inl (List.mem_singleton.1 h)

theorem mayOpen_run {pref : Preference} {lo : Nat} {hi : Option Nat} {cls : Char → Bool}
    {next : Option (Char → Bool)} {size : Nat} {s t : Place}
    (h : t ∈ (run pref lo hi cls).ends size s) (hnext : mayOpen next t.rest = true) :
    mayOpen ((run pref lo hi cls).openingThen next) s.rest = true := by
  obtain ⟨u, r, hr, hlo, -, hcls, rfl⟩ := mem_ends_run.1 h
  rw [Place.rest_move, hr, List.drop_left] at hnext
  cases lo with
  | zero =>
      cases next with
      | none => exact mayOpen_none _
      | some f =>
          show mayOpen (some fun c => cls c || f c) s.rest = true
          obtain ⟨d, r', rfl, hf⟩ := mayOpen_some_iff.1 hnext
          rw [mayOpen_some_iff]
          cases u with
          | nil => exact ⟨d, r', hr, by simp [hf]⟩
          | cons c u => exact ⟨c, _, hr, by simp [hcls c List.mem_cons_self]⟩
  | succ lo =>
      show mayOpen (some cls) s.rest = true
      cases u with
      | nil => simp at hlo
      | cons c u => exact mayOpen_some_iff.2 ⟨c, _, hr, hcls c List.mem_cons_self⟩

theorem mayOpen_word {w : List Char} {next : Option (Char → Bool)} {size : Nat} {s t : Place}
    (h : t ∈ (word w).ends size s) (hnext : mayOpen next t.rest = true) :
    mayOpen ((word w).openingThen next) s.rest = true := by
  obtain ⟨⟨r, hr⟩, rfl⟩ := mem_ends_word.1 h
  cases w with
  | nil => exact hnext
  | cons a w => exact mayOpen_some_iff.2 ⟨a, _, hr.symm, by simp⟩

theorem mayOpen_wordAnyCase {w : List Char} {next : Option (Char → Bool)} {size : Nat}
    {s t : Place} (h : t ∈ (wordAnyCase w).ends size s) (hnext : mayOpen next t.rest = true) :
    mayOpen ((wordAnyCase w).openingThen next) s.rest = true := by
  obtain ⟨u, r, hr, hu, rfl⟩ := mem_ends_wordAnyCase.1 h
  cases hu with
  | nil => exact hnext
  | cons hc hu => exact mayOpen_some_iff.2 ⟨_, _, hr, hc⟩

/-- Where a pattern fits and something that passes the test `next` follows, the next character
passes the test computed from both. -/
theorem mayOpen_openingThen {p : Pattern} {next : Option (Char → Bool)} {size : Nat} {s t : Place}
    (h : t ∈ p.ends size s) (hnext : mayOpen next t.rest = true) :
    mayOpen (p.openingThen next) s.rest = true := by
  induction p generalizing next s t with
  | nothing =>
      rw [mem_ends_nothing.1 h] at hnext
      exact hnext
  | word w => exact mayOpen_word h hnext
  | wordAnyCase w => exact mayOpen_wordAnyCase h hnext
  | one cls =>
      obtain ⟨c, r, hr, hc, -⟩ := mem_ends_one.1 h
      exact mayOpen_some_iff.2 ⟨c, r, hr, hc⟩
  | run pref lo hi cls => exact mayOpen_run h hnext
  | seq p q ihp ihq =>
      obtain ⟨u, hu, ht⟩ := mem_ends_seq.1 h
      exact ihp hu (ihq ht hnext)
  | alt p q ihp ihq =>
      rw [openingThen]
      cases hp : p.openingThen next with
      | none => exact mayOpen_none _
      | some f =>
          cases hq : q.openingThen next with
          | none => exact mayOpen_none _
          | some g =>
              rw [mayOpen_some_iff]
              rcases mem_ends_alt.1 h with h | h
              · obtain ⟨c, r, hr, hc⟩ := mayOpen_some_iff.1 (hp ▸ ihp h hnext)
                exact ⟨c, r, hr, by simp [hc]⟩
              · obtain ⟨c, r, hr, hc⟩ := mayOpen_some_iff.1 (hq ▸ ihq h hnext)
                exact ⟨c, r, hr, by simp [hc]⟩
  | many lo hi p ih =>
      rw [ends, List.mem_flatMap] at h
      obtain ⟨u, hu, ht⟩ := h
      -- without a compulsory round the test must let both the pattern and what follows pass
      cases lo with
      | zero =>
          rw [List.mem_singleton.1 hu] at ht
          cases hp : p.openingThen none with
          | none => simp [openingThen, hp]
          | some f =>
              cases next with
              | none => simp [openingThen]
              | some g =>
                  have heither : (many 0 hi p).openingThen (some g) = some fun c => f c || g c := by
                    simp only [openingThen, hp]
                  rw [heither, mayOpen_some_iff]
                  rcases eq_or_step_of_mem_afterUpTo ht with rfl | ⟨v, hv⟩
                  · obtain ⟨c, r, hr, hc⟩ := mayOpen_some_iff.1 hnext
                    exact ⟨c, r, hr, by simp [hc]⟩
                  · have hopen : mayOpen (p.openingThen none) s.rest = true :=
                      ih hv (mayOpen_none _)
                    obtain ⟨c, r, hr, hc⟩ := mayOpen_some_iff.1 (hp ▸ hopen)
                    exact ⟨c, r, hr, by simp [hc]⟩
      | succ lo =>
          obtain ⟨v, hv, -⟩ := List.mem_flatMap.1 hu
          have hopen : mayOpen (p.openingThen none) s.rest = true := ih hv (mayOpen_none _)
          exact hopen
  | group name p ih =>
      obtain ⟨u, hu, rfl⟩ := mem_ends_group.1 h
      exact ih hu hnext
  | again name => exact mayOpen_none _
  | textStart =>
      rw [eq_of_mem_ite h] at hnext
      exact hnext
  | lineStart =>
      rw [eq_of_mem_ite h] at hnext
      exact hnext
  | textEnd => exact mayOpen_none _
  | lineEnd => exact mayOpen_none _

/-- A place that fails the opening test has no fit. -/
theorem ends_eq_nil_of_not_mayOpen {p : Pattern} {size : Nat} {s : Place}
    (h : mayOpen p.opening s.rest = false) : p.ends size s = [] := by
  rw [List.eq_nil_iff_forall_not_mem]
  intro t ht
  have hopen : mayOpen (p.openingThen none) s.rest = true :=
    mayOpen_openingThen ht (mayOpen_none _)
  rw [opening] at h
  rw [h] at hopen
  exact Bool.noConfusion hopen

/-- The length of a run over characters of its class, up to its limit or to a character of another
class. -/
theorem runLength_eq {cls : Char → Bool} {limit : Option Nat} {u r : List Char}
    (hu : ∀ c ∈ u, cls c = true) (hlimit : ∀ l ∈ limit, u.length ≤ l)
    (hr : limit = some u.length ∨ ∀ d r', r = d :: r' → cls d = false) :
    Place.runLength cls limit (u ++ r) = u.length := by
  apply Nat.le_antisymm
  · by_contra hlt
    obtain ⟨hl, v, r', hv, hlen, hcls⟩ :=
      Place.le_runLength_iff.1 (Nat.succ_le_of_lt (Nat.lt_of_not_le hlt))
    rcases hr with rfl | hr
    · have := hl _ rfl
      omega
    · rw [← List.take_append_drop u.length v, List.append_assoc] at hv
      obtain ⟨-, hdrop⟩ := List.append_inj hv (by rw [List.length_take]; omega)
      cases hd : v.drop u.length with
      | nil =>
          rw [List.drop_eq_nil_iff] at hd
          omega
      | cons d v' =>
          rw [hd] at hdrop
          have hc := hcls d (List.mem_of_mem_drop (hd ▸ List.mem_cons_self))
          rw [hr d _ hdrop] at hc
          exact Bool.noConfusion hc
  · exact Place.le_runLength_iff.2 ⟨hlimit, u, r, rfl, rfl, hu⟩

/-- Blanks before a pattern that opens with none of them are all taken. -/
theorem ends_blanks_seq {q : Pattern} {f : Char → Bool} {size : Nat} {s : Place} {u r : List Char}
    (hopen : q.opening = some f) (hf : ∀ b, Text.isBlank b = true → f b = false)
    (hrest : s.rest = u ++ r) (hu : ∀ c ∈ u, Text.isBlank c = true)
    (hr : ∀ d r', r = d :: r' → Text.isBlank d = false) :
    (seq blanks q).ends size s = q.ends size (s.move u.length) := by
  have hstops : blanks.ends size s =
      s.move u.length :: ((List.range u.length).map fun n => s.move n).reverse := by
    have hlen : Place.runLength Text.isBlank none (u ++ r) = u.length :=
      runLength_eq hu (by simp) (Or.inr hr)
    simp [blanks, ends, Place.afterRun?, Place.stops, hrest, hlen, Preference.order,
      List.range_succ]
  -- a place before the last blank is followed by one, and nothing of `q` opens there
  have hnone :
      (((List.range u.length).map fun n => s.move n).reverse).flatMap (q.ends size) = [] := by
    refine List.flatMap_eq_nil_iff.2 fun t ht => ?_
    obtain ⟨n, hn, rfl⟩ : ∃ n < u.length, s.move n = t := by simpa using ht
    apply ends_eq_nil_of_not_mayOpen
    rw [hopen, Place.rest_move, hrest, List.drop_append_of_le_length (by omega),
      List.drop_eq_getElem_cons hn]
    exact hf _ (hu _ (List.getElem_mem hn))
  rw [ends, hstops, List.flatMap_cons, hnone, List.append_nil]

/-! ## The leading run -/

/-- What a pattern fits one character further on inside its leading run, it fits here as well. -/
theorem mem_ends_of_mem_ends_move {p : Pattern} {cls : Char → Bool} {size : Nat} {s t : Place}
    {c : Char} {r : List Char} (hlead : p.leadingRun = some cls) (hr : s.rest = c :: r)
    (hc : cls c = true) (h : t ∈ p.ends size (s.move 1)) : t ∈ p.ends size s := by
  induction p generalizing t with
  | run pref lo hi cls' =>
      cases pref with
      | shortest => simp [leadingRun] at hlead
      | longest =>
          cases hi with
          | some hi => simp [leadingRun] at hlead
          | none =>
              obtain rfl : cls' = cls := by simpa [leadingRun] using hlead
              obtain ⟨u, r', hu, hlo, -, hcls, rfl⟩ := mem_ends_run.1 h
              rw [Place.rest_move, hr, List.drop_succ_cons, List.drop_zero] at hu
              refine mem_ends_run.2 ⟨c :: u, r', by rw [hr, hu]; rfl, ?_, by simp, ?_, ?_⟩
              · rw [List.length_cons]
                omega
              · simpa [hc] using hcls
              · rw [Place.move_move, List.length_cons, Nat.add_comm]
  | seq p q ihp ihq =>
      obtain ⟨u, hu, ht⟩ := mem_ends_seq.1 h
      exact mem_ends_seq.2 ⟨u, ihp hlead hu, ht⟩
  | _ => simp [leadingRun] at hlead

/-- Passing over a character at a place without a fit, a search stays alive unless the next place
has none either. -/
theorem ends_move_eq_nil_of_not_livesPast {p : Pattern} {size : Nat} {s : Place} {c : Char}
    {r : List Char} (hr : s.rest = c :: r) (hnil : p.ends size s = [])
    (h : livesPast p.leadingRun c = false) : p.ends size (s.move 1) = [] := by
  cases hlead : p.leadingRun with
  | none => simp [hlead, livesPast] at h
  | some cls =>
      have hc : cls c = true := by simpa [hlead, livesPast] using h
      rw [List.eq_nil_iff_forall_not_mem]
      intro t ht
      have hmem := mem_ends_of_mem_ends_move hlead hr hc ht
      rw [hnil] at hmem
      exact absurd hmem (by simp)

/-! ## The first match -/

section
variable {p : Pattern} {size : Nat}

/-- Leaving out a place that fails the opening test, or that is known to have no fit, changes
nothing. -/
theorem tried_eq_matchAt? {live : Bool} {s : Place}
    (hlive : live = false → p.ends size s = []) :
    (if live && mayOpen p.opening s.rest then p.matchAt? size s else none) =
      p.matchAt? size s := by
  by_cases h : (live && mayOpen p.opening s.rest) = true
  · rw [if_pos h]
  · rw [if_neg h]
    symm
    rw [matchAt?_eq_none_iff]
    rw [Bool.and_eq_true, not_and_or, Bool.not_eq_true, Bool.not_eq_true] at h
    rcases h with h | h
    · exact hlive h
    · exact ends_eq_nil_of_not_mayOpen h

theorem findFrom_eq_findSome? (live : Bool) (prev : Option Char) (pos : Nat) (rest : List Char)
    (hlive : live = false → p.ends size ⟨prev, pos, rest, []⟩ = []) :
    p.findFrom size p.opening p.leadingRun live prev pos rest =
      (List.range (rest.length + 1)).findSome? fun n =>
        p.matchAt? size (Place.move n ⟨prev, pos, rest, []⟩) := by
  induction rest generalizing live prev pos with
  | nil =>
      rw [findFrom, tried_eq_matchAt? hlive]
      cases h : p.matchAt? size ⟨prev, pos, [], []⟩ with
      | none => simp [h]
      | some m => simp [h]
  | cons c rest ih =>
      rw [findFrom, tried_eq_matchAt? hlive, List.range_succ_eq_map, List.findSome?_cons,
        Place.move_zero, List.findSome?_map]
      cases h : p.matchAt? size ⟨prev, pos, c :: rest, []⟩ with
      | some m => rfl
      | none =>
          -- the next place is left out only if it has no fit, now that this one has none
          refine ih _ _ _ fun hdead => ?_
          exact ends_move_eq_nil_of_not_livesPast (s := ⟨prev, pos, c :: rest, []⟩) rfl
            (matchAt?_eq_none_iff.1 h) hdead

/-- **The first match.** A search finds the match at the first place that has one. -/
theorem find?_eq_findSome? (p : Pattern) (t : List Char) :
    p.find? t = (List.range (t.length + 1)).findSome? fun n =>
      p.matchAt? t.length ((Place.ofText t).move n) :=
  findFrom_eq_findSome? true none 0 t (by simp)

theorem find?_eq_none_iff {t : List Char} :
    p.find? t = none ↔ ∀ n ≤ t.length, p.ends t.length ((Place.ofText t).move n) = [] := by
  rw [find?_eq_findSome?, List.findSome?_eq_none_iff]
  simp only [List.mem_range, Nat.lt_succ_iff, matchAt?_eq_none_iff]

theorem occursIn_of_find? {t : List Char} {m : Match} (h : p.find? t = some m) :
    p.occursIn t = true :=
  Option.isSome_of_eq_some h

/-- A pattern occurs in a text exactly if it has an end from one of the text's places. -/
theorem occursIn_iff {t : List Char} :
    p.occursIn t = true ↔
      ∃ a x, t = a ++ x ∧ ∃ u, u ∈ p.ends t.length ((Place.ofText t).move a.length) := by
  rw [occursIn, Option.isSome_iff_ne_none, Ne, find?_eq_none_iff]
  constructor
  · intro h
    by_contra hno
    refine h fun n hn => List.eq_nil_iff_forall_not_mem.2 fun u hu => hno ?_
    refine ⟨t.take n, t.drop n, (List.take_append_drop n t).symm, u, ?_⟩
    rwa [List.length_take, Nat.min_eq_left hn]
  · rintro ⟨a, x, rfl, u, hu⟩ h
    rw [h a.length (by simp)] at hu
    exact absurd hu (by simp)

theorem exists_matchAt?_of_find? {t : List Char} {m : Match} (h : p.find? t = some m) :
    ∃ n ≤ t.length, p.matchAt? t.length ((Place.ofText t).move n) = some m := by
  rw [find?_eq_findSome?] at h
  obtain ⟨n, hn, hm⟩ := List.exists_of_findSome?_eq_some h
  exact ⟨n, Nat.lt_succ_iff.1 (List.mem_range.1 hn), hm⟩

theorem findSome?_range_of_first {α : Type} {f : Nat → Option α} {a : α} {n k : Nat} (hn : n < k)
    (hnone : ∀ i < n, f i = none) (ha : f n = some a) : (List.range k).findSome? f = some a := by
  obtain ⟨d, rfl⟩ : ∃ d, k = n + 1 + d := ⟨k - (n + 1), by omega⟩
  have hbefore : (List.range n).findSome? f = none := by
    rw [List.findSome?_eq_none_iff]
    exact fun i hi => hnone i (List.mem_range.1 hi)
  rw [List.range_add, List.findSome?_append, List.range_succ, List.findSome?_append, hbefore,
    List.findSome?_singleton, ha]
  rfl

/-- A search through numbers stops at the first one that it is for. -/
theorem exists_first_of_findSome?_range {α : Type} {f : Nat → Option α} {a : α} {k : Nat}
    (h : (List.range k).findSome? f = some a) :
    ∃ n < k, f n = some a ∧ ∀ i < n, f i = none := by
  induction k with
  | zero => simp at h
  | succ k ih =>
      rw [List.range_succ, List.findSome?_append] at h
      cases hk : (List.range k).findSome? f with
      | some b =>
          obtain ⟨n, hn, hfirst⟩ := ih (by rw [hk, ← h, hk]; rfl)
          exact ⟨n, by omega, hfirst⟩
      | none =>
          rw [hk] at h
          refine ⟨k, Nat.lt_succ_self k, by simpa using h, fun i hi => ?_⟩
          exact List.findSome?_eq_none_iff.1 hk i (List.mem_range.2 hi)

/-! ## All matches -/

/-- The matches at and after a place, from position `resume` on, when every place is tried. -/
def scan (p : Pattern) (size resume : Nat) (s : Place) : List Match :=
  p.findAllFrom size none none true resume s.prev s.pos s.rest

theorem findAllFrom_eq_plain (live : Bool) (resume : Nat) (prev : Option Char) (pos : Nat)
    (rest : List Char) (hlive : live = false → p.ends size ⟨prev, pos, rest, []⟩ = []) :
    p.findAllFrom size p.opening p.leadingRun live resume prev pos rest =
      p.findAllFrom size none none true resume prev pos rest := by
  induction rest generalizing live resume prev pos with
  | nil =>
      rw [findAllFrom, findAllFrom]
      by_cases hpos : resume ≤ pos
      · have htry := tried_eq_matchAt? hlive
        simp only [hpos, decide_true, Bool.and_true, mayOpen_none, if_true] at htry ⊢
        rw [htry]
      · simp [hpos]
  | cons c rest ih =>
      rw [findAllFrom, findAllFrom]
      by_cases hpos : resume ≤ pos
      · have htry := tried_eq_matchAt? hlive
        simp only [hpos, decide_true, Bool.and_true, mayOpen_none, if_true] at htry ⊢
        rw [htry]
        cases h : p.matchAt? size ⟨prev, pos, c :: rest, []⟩ with
        | some m => simp only [ih true _ _ _ (by simp)]
        | none =>
            simp only [livesPast, Bool.or_true]
            refine ih _ _ _ _ fun hdead => ?_
            have hdead : livesPast p.leadingRun c = false := by
              rw [Bool.or_eq_false_iff] at hdead
              exact hdead.2
            exact ends_move_eq_nil_of_not_livesPast (s := ⟨prev, pos, c :: rest, []⟩) rfl
              (matchAt?_eq_none_iff.1 h) hdead
      · have hlt : pos < resume := Nat.lt_of_not_le hpos
        simp only [hpos, hlt, decide_false, decide_true, Bool.and_false, Bool.false_and,
          Bool.true_or, Bool.false_eq_true, if_false]
        exact ih true _ _ _ (by simp)

/-- **All matches.** A search for all matches is a scan that tries every place. -/
theorem findAll_eq_scan (p : Pattern) (t : List Char) :
    p.findAll t = p.scan t.length 0 (.ofText t) :=
  findAllFrom_eq_plain true 0 none 0 t (by simp)

attribute [local simp] findAllFrom in
theorem scan_of_rest_nil {resume : Nat} {s : Place} (hg : s.groups = []) (hr : s.rest = [])
    (h : p.ends size s = []) : p.scan size resume s = [] := by
  obtain ⟨prev, pos, rest, groups⟩ := s
  simp only at hg hr
  subst hg hr
  simp [scan, matchAt?_eq_none_iff.2 h]

theorem scan_step {resume : Nat} {s : Place} {c : Char} {r : List Char} (hg : s.groups = [])
    (hr : s.rest = c :: r) (h : p.ends size s = []) :
    p.scan size resume s = p.scan size resume (s.move 1) := by
  obtain ⟨prev, pos, rest, groups⟩ := s
  simp only at hg hr
  subst hg hr
  rw [scan, findAllFrom, matchAt?_eq_none_iff.2 h]
  simp [livesPast, scan, Place.move]

/-- A scan goes past places without a fit. -/
theorem scan_skip {resume n : Nat} {s : Place} (hg : s.groups = []) (hn : n ≤ s.rest.length)
    (h : ∀ i < n, p.ends size (s.move i) = []) :
    p.scan size resume s = p.scan size resume (s.move n) := by
  induction n with
  | zero => rfl
  | succ n ih =>
      rw [ih (by omega) (fun i hi => h i (by omega)), ← Place.move_move n 1]
      cases hr : (s.move n).rest with
      | nil =>
          rw [Place.rest_move, List.drop_eq_nil_iff] at hr
          omega
      | cons c r => exact scan_step (by simp [hg]) hr (h n (by omega))

/-- A scan reports the match at a place and resumes behind it. -/
theorem scan_hit {resume : Nat} {s : Place} {m : Match} {c : Char} {r : List Char}
    (hg : s.groups = []) (hpos : resume ≤ s.pos) (hr : s.rest = c :: r)
    (hm : p.matchAt? size s = some m) :
    p.scan size resume s = m :: p.scan size (max m.stop (s.pos + 1)) (s.move 1) := by
  obtain ⟨prev, pos, rest, groups⟩ := s
  simp only at hg hr hpos
  subst hg hr
  rw [scan, findAllFrom, hm]
  simp [hpos, scan, Place.move]

/-- What a search reports are matches at places of its text. -/
theorem exists_matchAt?_of_mem_findAllFrom {opening lead : Option (Char → Bool)} {live : Bool}
    {resume pos : Nat} {prev : Option Char} {rest : List Char} {m : Match}
    (h : m ∈ p.findAllFrom size opening lead live resume prev pos rest) :
    ∃ n ≤ rest.length, p.matchAt? size (Place.move n ⟨prev, pos, rest, []⟩) = some m := by
  induction rest generalizing live resume prev pos with
  | nil =>
      rw [findAllFrom] at h
      split at h
      next found hfound =>
        rw [List.mem_singleton.1 h]
        exact ⟨0, Nat.le_refl 0, (Option.ite_none_right_eq_some.1 hfound).2⟩
      next => exact absurd h List.not_mem_nil
  | cons c rest ih =>
      rw [findAllFrom] at h
      split at h
      next found hfound =>
        rcases List.mem_cons.1 h with rfl | h
        · exact ⟨0, Nat.zero_le _, (Option.ite_none_right_eq_some.1 hfound).2⟩
        · obtain ⟨n, hn, hm⟩ := ih h
          exact ⟨n + 1, Nat.succ_le_succ hn, hm⟩
      next =>
        obtain ⟨n, hn, hm⟩ := ih h
        exact ⟨n + 1, Nat.succ_le_succ hn, hm⟩

theorem exists_matchAt?_of_mem_findAll {t : List Char} {m : Match} (h : m ∈ p.findAll t) :
    ∃ n ≤ t.length, p.matchAt? t.length ((Place.ofText t).move n) = some m :=
  exists_matchAt?_of_mem_findAllFrom h

end

end NaslLint.Pattern
