import Mathlib.Data.List.Forall2
import NaslLint.Pattern.Search

/-!
# The ways in which a pattern fits

Fitting a pattern takes the first way that lets the text after it go on. This module lists the ways
themselves, in the order in which they are tried.

* `Place.move` is the place some characters further on; every step of a pattern is such a move, up
  to the groups filled on the way.
* `Pattern.ends` lists the places at which a fit can end. `Pattern.fit_eq_findSome?` says that
  fitting is the search through that list, so what holds of a fit can be read off its members.
* `Pattern.mem_ends_word` and its companions say for each kind of pattern which places these are.
-/

namespace NaslLint

namespace Place

/-- The place `n` characters further on, or the end of the text. -/
def move : Nat → Place → Place
  | 0, s => s
  | n + 1, ⟨_, pos, c :: rest, groups⟩ => move n ⟨some c, pos + 1, rest, groups⟩
  | _ + 1, ⟨prev, pos, [], groups⟩ => ⟨prev, pos, [], groups⟩

@[simp] theorem move_zero (s : Place) : s.move 0 = s := rfl

theorem move_succ_cons (n pos : Nat) (prev : Option Char) (c : Char) (rest : List Char)
    (groups : List (String × Span)) :
    move (n + 1) ⟨prev, pos, c :: rest, groups⟩ = move n ⟨some c, pos + 1, rest, groups⟩ := rfl

@[simp] theorem rest_move (n : Nat) (s : Place) : (s.move n).rest = s.rest.drop n := by
  induction n generalizing s with
  | zero => rfl
  | succ n ih =>
      obtain ⟨prev, pos, rest, groups⟩ := s
      cases rest with
      | nil => rfl
      | cons c rest => exact ih _

@[simp] theorem groups_move (n : Nat) (s : Place) : (s.move n).groups = s.groups := by
  induction n generalizing s with
  | zero => rfl
  | succ n ih =>
      obtain ⟨prev, pos, rest, groups⟩ := s
      cases rest with
      | nil => rfl
      | cons c rest => exact ih _

theorem rest_move_ofText (a v : List Char) : ((ofText (a ++ v)).move a.length).rest = v := by
  rw [rest_move]
  exact List.drop_left

theorem pos_move {n : Nat} {s : Place} (h : n ≤ s.rest.length) : (s.move n).pos = s.pos + n := by
  induction n generalizing s with
  | zero => rfl
  | succ n ih =>
      obtain ⟨prev, pos, rest, groups⟩ := s
      cases rest with
      | nil => simp at h
      | cons c rest =>
          rw [move_succ_cons, ih (by simpa using h)]
          simp only
          omega

theorem pos_move_ofText {n : Nat} {t : List Char} (h : n ≤ t.length) :
    ((ofText t).move n).pos = n := by
  rw [pos_move h]
  exact Nat.zero_add n

theorem move_move (m n : Nat) (s : Place) : (s.move m).move n = s.move (m + n) := by
  induction m generalizing s with
  | zero => rw [Nat.zero_add, move_zero]
  | succ m ih =>
      obtain ⟨prev, pos, rest, groups⟩ := s
      cases rest with
      | nil => cases n <;> rw [Nat.add_right_comm] <;> rfl
      | cons c rest =>
          rw [Nat.add_right_comm, move_succ_cons, move_succ_cons]
          exact ih _

/-- The character before the place behind a word is the last one of the word. -/
theorem prev_move_append (a b : List Char) (prev : Option Char) (pos : Nat)
    (groups : List (String × Span)) :
    (move a.length ⟨prev, pos, a ++ b, groups⟩).prev = a.getLast?.or prev := by
  induction a generalizing prev pos with
  | nil => rfl
  | cons c a ih =>
      rw [List.length_cons, List.cons_append, move_succ_cons, ih, List.getLast?_cons]
      cases a.getLast? <;> rfl

@[simp] theorem spanTo_text (s t : Place) :
    (s.spanTo t).text = s.rest.take (t.pos - s.pos) := rfl

theorem spanTo_move_text {n : Nat} {s : Place} (h : n ≤ s.rest.length) :
    (s.spanTo (s.move n)).text = s.rest.take n := by
  rw [spanTo_text, pos_move h, Nat.add_sub_cancel_left]

@[simp] theorem rest_fill (s : Place) (name : String) (span : Span) :
    (s.fill name span).rest = s.rest := rfl

@[simp] theorem pos_fill (s : Place) (name : String) (span : Span) :
    (s.fill name span).pos = s.pos := rfl

@[simp] theorem groups_fill (s : Place) (name : String) (span : Span) :
    (s.fill name span).groups = (name, span) :: s.groups := rfl

/-! ## Words and runs -/

theorem after?_eq_some_iff {same : Char → Char → Bool} {w : List Char} {s t : Place} :
    s.after? same w = some t ↔
      ∃ u r, s.rest = u ++ r ∧ List.Forall₂ (fun a b => same a b = true) w u ∧
        t = s.move u.length := by
  induction w generalizing s with
  | nil =>
      constructor
      · intro h
        exact ⟨[], s.rest, rfl, .nil, by simpa [after?] using h.symm⟩
      · rintro ⟨u, r, -, hu, rfl⟩
        cases hu
        rfl
  | cons a w ih =>
      obtain ⟨prev, pos, rest, groups⟩ := s
      cases rest with
      | nil =>
          constructor
          · intro h
            simp [after?] at h
          · rintro ⟨u, r, hr, hu, -⟩
            cases hu
            simp at hr
      | cons c rest =>
          rw [after?]
          constructor
          · intro h
            by_cases hc : same a c = true
            · rw [if_pos hc] at h
              obtain ⟨u, r, hr, hu, rfl⟩ := ih.1 h
              exact ⟨c :: u, r, by simpa using hr, .cons hc hu, rfl⟩
            · rw [if_neg hc] at h
              exact absurd h (by simp)
          · rintro ⟨u, r, hr, hu, rfl⟩
            cases hu with
            | cons hc hu =>
                obtain ⟨rfl, rfl⟩ : _ = _ ∧ _ = _ := by simpa using hr
                rw [if_pos hc]
                exact ih.2 ⟨_, r, rfl, hu, rfl⟩

/-- After a literal word. -/
theorem after?_beq_eq_some_iff {w : List Char} {s t : Place} :
    s.after? (· == ·) w = some t ↔ w <+: s.rest ∧ t = s.move w.length := by
  rw [after?_eq_some_iff]
  constructor
  · rintro ⟨u, r, hr, hu, rfl⟩
    obtain rfl : w = u := by simpa using hu
    exact ⟨⟨r, hr.symm⟩, rfl⟩
  · rintro ⟨⟨r, hr⟩, rfl⟩
    exact ⟨w, r, hr.symm, by simp, rfl⟩

theorem afterRun?_eq_some_iff {cls : Char → Bool} {n : Nat} {s t : Place} :
    s.afterRun? cls n = some t ↔
      ∃ u r, s.rest = u ++ r ∧ u.length = n ∧ (∀ c ∈ u, cls c = true) ∧ t = s.move u.length := by
  induction n generalizing s with
  | zero =>
      constructor
      · intro h
        exact ⟨[], s.rest, rfl, rfl, by simp, by simpa [afterRun?] using h.symm⟩
      · rintro ⟨u, r, -, hu, -, rfl⟩
        rw [hu]
        rfl
  | succ n ih =>
      obtain ⟨prev, pos, rest, groups⟩ := s
      cases rest with
      | nil =>
          constructor
          · intro h
            simp [afterRun?] at h
          · rintro ⟨u, r, hr, hu, -, -⟩
            obtain ⟨rfl, -⟩ : u = [] ∧ r = [] := by simpa using hr
            simp at hu
      | cons c rest =>
          rw [afterRun?]
          constructor
          · intro h
            by_cases hc : cls c = true
            · rw [if_pos hc] at h
              obtain ⟨u, r, hr, hu, hcls, rfl⟩ := ih.1 h
              exact ⟨c :: u, r, by simpa using hr, by simp [hu], by simpa [hc] using hcls, rfl⟩
            · rw [if_neg hc] at h
              exact absurd h (by simp)
          · rintro ⟨u, r, hr, hu, hcls, rfl⟩
            cases u with
            | nil => simp at hu
            | cons d u =>
                obtain ⟨rfl, rfl⟩ : _ = _ ∧ _ = _ := by simpa using hr
                rw [if_pos (hcls c List.mem_cons_self)]
                exact ih.2 ⟨u, r, rfl, by simpa using hu,
                  fun d hd => hcls d (List.mem_cons_of_mem _ hd), rfl⟩

/-- The number of characters of a class that follow, at most `limit`. -/
def runLength (cls : Char → Bool) : Option Nat → List Char → Nat
  | limit, c :: rest =>
    if limit != some 0 && cls c then runLength cls (limit.map (· - 1)) rest + 1 else 0
  | _, [] => 0

theorem exists_run_cons_iff {cls : Char → Bool} {c : Char} {t : List Char} {n : Nat} :
    (∃ u r, c :: t = u ++ r ∧ u.length = n + 1 ∧ ∀ d ∈ u, cls d = true) ↔
      cls c = true ∧ ∃ u r, t = u ++ r ∧ u.length = n ∧ ∀ d ∈ u, cls d = true := by
  constructor
  · rintro ⟨u, r, hur, hu, hall⟩
    cases u with
    | nil => simp at hu
    | cons d u =>
        obtain ⟨rfl, rfl⟩ : _ = _ ∧ _ = _ := by simpa using hur
        obtain ⟨hcls, hmore⟩ := List.forall_mem_cons.1 hall
        exact ⟨hcls, u, r, rfl, by simpa using hu, hmore⟩
  · rintro ⟨hcls, u, r, rfl, rfl, hall⟩
    exact ⟨c :: u, r, rfl, rfl, List.forall_mem_cons.2 ⟨hcls, hall⟩⟩

/-- A limit that lets a character pass is one less behind it. -/
theorem le_limit_pred_iff {limit : Option Nat} {n : Nat} (hlimit : limit ≠ some 0) :
    (∀ l ∈ limit.map (· - 1), n ≤ l) ↔ ∀ l ∈ limit, n + 1 ≤ l := by
  cases limit with
  | none => simp
  | some l =>
      have hl : l ≠ 0 := fun h => hlimit (congrArg some h)
      simp only [Option.map_some, Option.mem_some_iff, forall_eq']
      omega

theorem le_runLength_iff {cls : Char → Bool} {limit : Option Nat} {t : List Char} {n : Nat} :
    n ≤ runLength cls limit t ↔
      (∀ l ∈ limit, n ≤ l) ∧ ∃ u r, t = u ++ r ∧ u.length = n ∧ ∀ c ∈ u, cls c = true := by
  induction t generalizing limit n with
  | nil =>
      rw [runLength]
      constructor
      · intro h
        obtain rfl : n = 0 := by omega
        exact ⟨by simp, [], [], rfl, rfl, by simp⟩
      · rintro ⟨-, u, r, hu, rfl, -⟩
        obtain ⟨rfl, -⟩ : u = [] ∧ r = [] := by simpa using hu
        simp
  | cons c t ih =>
      rw [runLength]
      cases n with
      | zero => exact ⟨fun _ => ⟨by simp, [], c :: t, rfl, rfl, by simp⟩, fun _ => by omega⟩
      | succ n =>
          rw [exists_run_cons_iff]
          by_cases hc : (limit != some 0 && cls c) = true
          · obtain ⟨hlimit, hcls⟩ : limit ≠ some 0 ∧ cls c = true := by simpa using hc
            rw [if_pos hc, Nat.add_le_add_iff_right, ih, le_limit_pred_iff hlimit]
            simp [hcls]
          · rw [if_neg hc]
            refine iff_of_false (by omega) ?_
            rintro ⟨hl, hcls, -⟩
            have hlimit : limit = some 0 := by simpa [hcls] using hc
            have := hl 0 (by simpa using hlimit)
            omega

/-- The places reached over the characters of a run, the nearest first. -/
def stops (cls : Char → Bool) (limit : Option Nat) (s : Place) : List Place :=
  (List.range (runLength cls limit s.rest + 1)).map fun n => s.move n

theorem stops_cons {cls : Char → Bool} {limit : Option Nat} {prev : Option Char} {pos : Nat}
    {c : Char} {rest : List Char} {groups : List (String × Span)} :
    stops cls limit ⟨prev, pos, c :: rest, groups⟩ =
      ⟨prev, pos, c :: rest, groups⟩ ::
        if limit != some 0 && cls c then
          stops cls (limit.map (· - 1)) ⟨some c, pos + 1, rest, groups⟩
        else [] := by
  rw [stops, List.range_succ_eq_map, List.map_cons, List.map_map, move_zero]
  simp only [runLength]
  by_cases h : (limit != some 0 && cls c) = true
  · rw [if_pos h, if_pos h]
    rfl
  · rw [if_neg h, if_neg h]
    rfl

theorem reach_eq_stops (cls : Char → Bool) (groups : List (String × Span)) (limit : Option Nat)
    (prev : Option Char) (pos : Nat) (rest : List Char) (acc : List Place) :
    reach cls groups limit prev pos rest acc =
      (stops cls limit ⟨prev, pos, rest, groups⟩).reverse ++ acc := by
  induction rest generalizing limit prev pos acc with
  | nil => rfl
  | cons c rest ih =>
      rw [reach, stops_cons]
      by_cases h : (limit != some 0 && cls c) = true
      · rw [if_pos h, if_pos h, ih]
        simp
      · rw [if_neg h, if_neg h]
        rfl

theorem tryShortest_eq_findSome? {α : Type} (cls : Char → Bool) (groups : List (String × Span))
    (k : Place → Option α) (limit : Option Nat) (prev : Option Char) (pos : Nat)
    (rest : List Char) :
    tryShortest cls groups k limit prev pos rest =
      (stops cls limit ⟨prev, pos, rest, groups⟩).findSome? k := by
  induction rest generalizing limit prev pos with
  | nil =>
      rw [tryShortest]
      exact (List.findSome?_singleton).symm
  | cons c rest ih =>
      rw [tryShortest, stops_cons, List.findSome?_cons]
      cases k ⟨prev, pos, c :: rest, groups⟩ with
      | some a => rfl
      | none =>
          by_cases h : (limit != some 0 && cls c) = true
          · simp only [if_pos h, ih]
          · simp only [if_neg h, List.findSome?_nil]

/-! ## Moving on -/

/-- One place leads to another one further on in the text, where other groups may be filled. -/
def Leads (s t : Place) : Prop :=
  ∃ n ≤ s.rest.length, ∃ groups, t = { s.move n with groups }

namespace Leads
variable {s t u : Place}

theorem move {n : Nat} (h : n ≤ s.rest.length) : s.Leads (s.move n) :=
  ⟨n, h, (s.move n).groups, rfl⟩

theorem refl (s : Place) : s.Leads s :=
  move (Nat.zero_le _)

theorem move_withGroups (n : Nat) (s : Place) (groups : List (String × Span)) :
    Place.move n { s with groups } = { s.move n with groups } := by
  induction n generalizing s with
  | zero => rfl
  | succ n ih =>
      obtain ⟨prev, pos, rest, old⟩ := s
      cases rest with
      | nil => rfl
      | cons c rest => exact ih ⟨some c, pos + 1, rest, old⟩

theorem trans (hst : s.Leads t) (htu : t.Leads u) : s.Leads u := by
  obtain ⟨m, hm, g, rfl⟩ := hst
  obtain ⟨n, hn, g', rfl⟩ := htu
  refine ⟨m + n, ?_, g', ?_⟩
  · simp only [rest_move, List.length_drop] at hn
    omega
  · rw [move_withGroups, move_move]

theorem fill {name : String} {span : Span} (h : s.Leads t) : s.Leads (t.fill name span) := by
  obtain ⟨n, hn, g, rfl⟩ := h
  exact ⟨n, hn, (name, span) :: g, rfl⟩

/-- The text before a place that is led to is the text of the stretch in between. -/
theorem rest_eq (h : s.Leads t) : s.rest = (s.spanTo t).text ++ t.rest := by
  obtain ⟨n, hn, g, rfl⟩ := h
  have hpos : (s.move n).pos - s.pos = n := by rw [pos_move hn]; omega
  rw [spanTo_text, show ({ s.move n with groups := g } : Place).pos = (s.move n).pos from rfl, hpos]
  simp

theorem rest_suffix (h : s.Leads t) : t.rest <:+ s.rest := by
  rw [h.rest_eq]
  exact List.suffix_append _ _

theorem pos_eq (h : s.Leads t) : t.pos = s.pos + (s.spanTo t).text.length := by
  obtain ⟨n, hn, g, rfl⟩ := h
  show (s.move n).pos = s.pos + (s.rest.take ((s.move n).pos - s.pos)).length
  rw [pos_move hn, List.length_take]
  omega

end Leads

end Place

/-- Stops of a run, given from the nearest on, in the order in which they are tried. -/
def Preference.order {α : Type} : Preference → List α → List α
  | .longest, stops => stops.reverse
  | .shortest, stops => stops

@[simp] theorem Preference.mem_order {α : Type} {a : α} {pref : Preference} {l : List α} :
    a ∈ pref.order l ↔ a ∈ l := by
  cases pref with
  | longest => exact List.mem_reverse
  | shortest => rfl

namespace Pattern

/-! ## The places at which a fit can end -/

def afterTimes (step : Place → List Place) : Nat → Place → List Place
  | 0, s => [s]
  | n + 1, s => (step s).flatMap (afterTimes step n)

/-- The places after at most `n` steps, more steps first. A step that does not move on is the last
one. -/
def afterUpTo (step : Place → List Place) : Nat → Place → List Place
  | 0, s => [s]
  | n + 1, s =>
    ((step s).flatMap fun t => if t.pos = s.pos then [t] else afterUpTo step n t) ++ [s]

/-- How many times a pattern may be repeated beyond the first `lo` times. -/
def moreTimes (size lo : Nat) : Option Nat → Nat
  | some hi => hi - lo
  | none => size + 1

/-- The places at which a fit of a pattern can end, in the order in which they are tried. -/
def ends (size : Nat) : Pattern → Place → List Place
  | .nothing, s => [s]
  | .word w, s => (s.after? (· == ·) w).toList
  | .wordAnyCase w, s => (s.after? Text.sameLetter w).toList
  | .one cls, s => (s.afterRun? cls 1).toList
  | .run pref lo hi cls, s =>
    (s.afterRun? cls lo).toList.flatMap fun t => pref.order (t.stops cls (hi.map (· - lo)))
  | .seq p q, s => (ends size p s).flatMap (ends size q)
  | .alt p q, s => ends size p s ++ ends size q s
  | .many lo hi p, s =>
    (afterTimes (ends size p) lo s).flatMap
      (afterUpTo (ends size p) (moreTimes size lo hi))
  | .group name p, s => (ends size p s).map fun t => t.fill name (s.spanTo t)
  | .again name, s =>
    (s.group? name).toList.flatMap fun span => (s.after? (· == ·) span.text).toList
  | .textStart, s => if s.atTextStart then [s] else []
  | .lineStart, s => if s.atLineStart then [s] else []
  | .textEnd, s => if s.atTextEnd then [s] else []
  | .lineEnd, s => if s.atLineEnd then [s] else []

theorem findSome?_flatMap {α β γ : Type} (l : List α) (f : α → List β) (k : β → Option γ) :
    (l.flatMap f).findSome? k = l.findSome? fun a => (f a).findSome? k := by
  induction l with
  | nil => rfl
  | cons a l ih =>
      rw [List.flatMap_cons, List.findSome?_append, List.findSome?_cons, ih]
      cases (f a).findSome? k <;> rfl

theorem findSome?_toList {α β : Type} (o : Option α) (k : α → Option β) :
    o.toList.findSome? k = o.bind k := by
  cases o with
  | none => rfl
  | some a => exact List.findSome?_singleton

section
variable {α : Type} {step : Place → List Place} {fits : Place → (Place → Option α) → Option α}

theorem repeatFit_eq_findSome? (h : ∀ s k, fits s k = (step s).findSome? k) (n : Nat) (s : Place)
    (k : Place → Option α) :
    repeatFit fits n s k = (afterTimes step n s).findSome? k := by
  induction n generalizing s with
  | zero => exact (List.findSome?_singleton).symm
  | succ n ih =>
      rw [repeatFit, afterTimes, h, findSome?_flatMap]
      simp only [ih]

theorem repeatUpTo_eq_findSome? (h : ∀ s k, fits s k = (step s).findSome? k) (n : Nat) (s : Place)
    (k : Place → Option α) :
    repeatUpTo fits k n s = (afterUpTo step n s).findSome? k := by
  induction n generalizing s with
  | zero => exact (List.findSome?_singleton).symm
  | succ n ih =>
      have hstep : (fun t : Place => if t.pos = s.pos then k t else repeatUpTo fits k n t) =
          fun t => (if t.pos = s.pos then [t] else afterUpTo step n t).findSome? k := by
        funext t
        by_cases ht : t.pos = s.pos
        · rw [if_pos ht, if_pos ht, List.findSome?_singleton]
        · rw [if_neg ht, if_neg ht, ih]
      rw [repeatUpTo, afterUpTo, h, hstep, List.findSome?_append, findSome?_flatMap,
        List.findSome?_singleton]
      cases (step s).findSome? _ <;> rfl

end

/-- **Fitting is a search.** Fitting a pattern and going on takes the first of its ends from which
going on works. -/
theorem fit_eq_findSome? {α : Type} (size : Nat) (p : Pattern) (s : Place) (k : Place → Option α) :
    p.fit size s k = (p.ends size s).findSome? k := by
  induction p generalizing s k with
  | nothing => exact (List.findSome?_singleton).symm
  | word w => rw [fit, ends, findSome?_toList]
  | wordAnyCase w => rw [fit, ends, findSome?_toList]
  | one cls =>
      rw [fit, ends, findSome?_toList]
      obtain ⟨prev, pos, rest, groups⟩ := s
      cases rest with
      | nil => rfl
      | cons c rest =>
          by_cases hc : cls c = true <;> simp [Place.afterRun?, hc]
  | run pref lo hi cls =>
      rw [fit, ends, findSome?_flatMap, findSome?_toList]
      cases s.afterRun? cls lo with
      | none => rfl
      | some t =>
          cases pref with
          | longest =>
              show t.tryLongest cls _ k = _
              rw [Place.tryLongest, Place.reach_eq_stops, List.append_nil]
              rfl
          | shortest => exact Place.tryShortest_eq_findSome? ..
  | seq p q ihp ihq =>
      rw [fit, ends, ihp, findSome?_flatMap]
      simp only [ihq]
  | alt p q ihp ihq =>
      rw [fit, ends, ihp, ihq, List.findSome?_append]
      cases (p.ends size s).findSome? k <;> rfl
  | many lo hi p ih =>
      -- the hypothesis is for every continuation, as the repetition goes on with itself
      simp only [fit, ends, repeatFit_eq_findSome? ih, repeatUpTo_eq_findSome? ih,
        findSome?_flatMap]
      cases hi <;> rfl
  | group name p ih => rw [fit, ends, ih, List.findSome?_map]; rfl
  | again name =>
      rw [fit, ends, findSome?_flatMap, findSome?_toList]
      cases s.group? name with
      | none => rfl
      | some span => exact (findSome?_toList _ _).symm
  | textStart => rw [fit, ends]; split <;> simp
  | lineStart => rw [fit, ends]; split <;> simp
  | textEnd => rw [fit, ends]; split <;> simp
  | lineEnd => rw [fit, ends]; split <;> simp

theorem matchAt?_eq_head? (p : Pattern) (size : Nat) (s : Place) :
    p.matchAt? size s = (p.ends size s).head?.map fun t => ⟨s.spanTo t, t.groups⟩ := by
  rw [matchAt?, fit_eq_findSome?]
  cases p.ends size s <;> rfl

theorem matchAt?_eq_none_iff {p : Pattern} {size : Nat} {s : Place} :
    p.matchAt? size s = none ↔ p.ends size s = [] := by
  rw [matchAt?_eq_head?]
  simp

/-- A match ends at one of the ends of its pattern. -/
theorem exists_mem_ends_of_matchAt? {p : Pattern} {size : Nat} {s : Place} {m : Match}
    (h : p.matchAt? size s = some m) :
    ∃ t ∈ p.ends size s, m = ⟨s.spanTo t, t.groups⟩ := by
  rw [matchAt?_eq_head?, Option.map_eq_some_iff] at h
  obtain ⟨t, ht, rfl⟩ := h
  exact ⟨t, List.mem_of_mem_head? ht, rfl⟩

/-! ## Members of the list of ends -/

section
variable {size : Nat} {s t : Place} {p q : Pattern}

attribute [local simp] ends in
@[simp] theorem mem_ends_nothing : t ∈ nothing.ends size s ↔ t = s := by
  simp

theorem mem_ends_word {w : List Char} :
    t ∈ (word w).ends size s ↔ w <+: s.rest ∧ t = s.move w.length := by
  rw [ends, Option.mem_toList]
  exact Place.after?_beq_eq_some_iff

theorem mem_ends_wordAnyCase {w : List Char} :
    t ∈ (wordAnyCase w).ends size s ↔
      ∃ u r, s.rest = u ++ r ∧ List.Forall₂ (fun a b => Text.sameLetter a b = true) w u ∧
        t = s.move u.length := by
  rw [ends, Option.mem_toList]
  exact Place.after?_eq_some_iff

theorem mem_ends_one {cls : Char → Bool} :
    t ∈ (one cls).ends size s ↔ ∃ c r, s.rest = c :: r ∧ cls c = true ∧ t = s.move 1 := by
  rw [ends, Option.mem_toList, Place.afterRun?_eq_some_iff]
  constructor
  · rintro ⟨u, r, hr, hu, hcls, rfl⟩
    obtain ⟨c, rfl⟩ := List.length_eq_one_iff.1 hu
    exact ⟨c, r, hr, hcls c (by simp), rfl⟩
  · rintro ⟨c, r, hr, hcls, rfl⟩
    exact ⟨[c], r, hr, rfl, by simpa using hcls, rfl⟩

theorem mem_stops {cls : Char → Bool} {limit : Option Nat} :
    t ∈ s.stops cls limit ↔
      ∃ u r, s.rest = u ++ r ∧ (∀ l ∈ limit, u.length ≤ l) ∧ (∀ c ∈ u, cls c = true) ∧
        t = s.move u.length := by
  rw [Place.stops, List.mem_map]
  constructor
  · rintro ⟨n, hn, rfl⟩
    rw [List.mem_range, Nat.lt_succ_iff, Place.le_runLength_iff] at hn
    obtain ⟨hl, u, r, hr, rfl, hcls⟩ := hn
    exact ⟨u, r, hr, hl, hcls, rfl⟩
  · rintro ⟨u, r, hr, hl, hcls, rfl⟩
    refine ⟨u.length, ?_, rfl⟩
    rw [List.mem_range, Nat.lt_succ_iff, Place.le_runLength_iff]
    exact ⟨hl, u, r, hr, rfl, hcls⟩

theorem mem_ends_run {pref : Preference} {lo : Nat} {hi : Option Nat} {cls : Char → Bool} :
    t ∈ (run pref lo hi cls).ends size s ↔
      ∃ u r, s.rest = u ++ r ∧ lo ≤ u.length ∧ (∀ h ∈ hi, u.length ≤ max lo h) ∧
        (∀ c ∈ u, cls c = true) ∧ t = s.move u.length := by
  rw [ends, List.mem_flatMap]
  simp only [Option.mem_toList, Place.afterRun?_eq_some_iff, Preference.mem_order, mem_stops]
  constructor
  · rintro ⟨-, ⟨u, r, hr, hu, hcls, rfl⟩, v, r', hr', hv, hcls', rfl⟩
    rw [Place.rest_move, hr, List.drop_left] at hr'
    refine ⟨u ++ v, r', by rw [hr, hr', List.append_assoc], by simp [hu], ?_, ?_, ?_⟩
    · intro h hh
      have := hv (h - lo) (by simpa using ⟨h, hh, rfl⟩)
      rw [List.length_append]
      omega
    · intro c hc
      rcases List.mem_append.1 hc with hc | hc
      · exact hcls c hc
      · exact hcls' c hc
    · rw [Place.move_move, List.length_append]
  · rintro ⟨u, r, hr, hlo, hhi, hcls, rfl⟩
    -- the first `lo` characters are compulsory, the others are a stop of the run behind them
    have hsplit : s.rest = u.take lo ++ (u.drop lo ++ r) := by
      rw [← List.append_assoc, List.take_append_drop, hr]
    have htake : (u.take lo).length = lo := by rw [List.length_take]; omega
    refine ⟨_, ⟨u.take lo, u.drop lo ++ r, hsplit, htake, ?_, rfl⟩, u.drop lo, r, ?_, ?_, ?_, ?_⟩
    · exact fun c hc => hcls c (List.mem_of_mem_take hc)
    · rw [Place.rest_move, hsplit, List.drop_left]
    · intro l hl
      obtain ⟨h, hh, rfl⟩ : ∃ h, hi = some h ∧ h - lo = l := by simpa using hl
      have := hhi h hh
      rw [List.length_drop]
      omega
    · exact fun c hc => hcls c (List.mem_of_mem_drop hc)
    · rw [Place.move_move, htake, List.length_drop, Nat.add_sub_cancel' hlo]

theorem mem_ends_blanks :
    t ∈ blanks.ends size s ↔
      ∃ u r, s.rest = u ++ r ∧ (∀ c ∈ u, Text.isBlank c = true) ∧ t = s.move u.length := by
  rw [blanks, mem_ends_run]
  simp

theorem mem_ends_seq : t ∈ (seq p q).ends size s ↔ ∃ u ∈ p.ends size s, t ∈ q.ends size u := by
  rw [ends, List.mem_flatMap]

theorem mem_ends_alt : t ∈ (alt p q).ends size s ↔ t ∈ p.ends size s ∨ t ∈ q.ends size s := by
  rw [ends, List.mem_append]

theorem mem_ends_group {name : String} :
    t ∈ (group name p).ends size s ↔ ∃ u ∈ p.ends size s, t = u.fill name (s.spanTo u) := by
  rw [ends, List.mem_map]
  exact ⟨fun ⟨u, hu, h⟩ => ⟨u, hu, h.symm⟩, fun ⟨u, hu, h⟩ => ⟨u, hu, h.symm⟩⟩

theorem mem_ends_again {name : String} :
    t ∈ (again name).ends size s ↔
      ∃ span, s.group? name = some span ∧ span.text <+: s.rest ∧
        t = s.move span.text.length := by
  rw [ends, List.mem_flatMap]
  simp only [Option.mem_toList, Place.after?_beq_eq_some_iff]

theorem eq_of_mem_ite {b : Bool} (h : t ∈ if b then [s] else []) : t = s := by
  cases b with
  | true => exact List.mem_singleton.1 h
  | false => simp at h

theorem ends_optional : (optional p).ends size s = p.ends size s ++ [s] := by
  simp [optional, ends, afterTimes, afterUpTo, moreTimes]

/-- One of several patterns fits if and only if a listed one does. -/
theorem mem_ends_oneOf {ps : List Pattern} :
    t ∈ (oneOf ps).ends size s ↔ ∃ p ∈ ps, t ∈ p.ends size s := by
  induction ps with
  | nil => simp [oneOf, mem_ends_one]
  | cons p ps ih =>
      cases ps with
      | nil => simp [oneOf]
      | cons q ps =>
          rw [oneOf, mem_ends_alt, ih]
          simp

section
variable {R : Place → Place → Prop} {step : Place → List Place} {n : Nat}

/-- What holds between the ends of one step, and of two steps if it holds of each, holds between the
ends of a repetition. -/
theorem rel_of_mem_afterTimes (hrefl : ∀ s, R s s) (htrans : ∀ s t u, R s t → R t u → R s u)
    (hstep : ∀ s t, t ∈ step s → R s t) (h : t ∈ afterTimes step n s) : R s t := by
  induction n generalizing s with
  | zero => rw [List.mem_singleton.1 h]; exact hrefl s
  | succ n ih =>
      obtain ⟨u, hu, ht⟩ := List.mem_flatMap.1 h
      exact htrans s u t (hstep s u hu) (ih ht)

theorem rel_of_mem_afterUpTo (hrefl : ∀ s, R s s) (htrans : ∀ s t u, R s t → R t u → R s u)
    (hstep : ∀ s t, t ∈ step s → R s t) (h : t ∈ afterUpTo step n s) : R s t := by
  induction n generalizing s with
  | zero => rw [List.mem_singleton.1 h]; exact hrefl s
  | succ n ih =>
      rcases List.mem_append.1 h with h | h
      · obtain ⟨u, hu, ht⟩ := List.mem_flatMap.1 h
        -- a step that does not move on ends the repetition
        by_cases hpos : u.pos = s.pos
        · rw [if_pos hpos, List.mem_singleton] at ht
          rw [ht]
          exact hstep s u hu
        · rw [if_neg hpos] at ht
          exact htrans s u t (hstep s u hu) (ih ht)
      · rw [List.mem_singleton.1 h]
        exact hrefl s

theorem leads_of_mem_afterTimes (hstep : ∀ s t, t ∈ step s → s.Leads t)
    (h : t ∈ afterTimes step n s) : s.Leads t :=
  rel_of_mem_afterTimes Place.Leads.refl (fun _ _ _ => Place.Leads.trans) hstep h

theorem leads_of_mem_afterUpTo (hstep : ∀ s t, t ∈ step s → s.Leads t)
    (h : t ∈ afterUpTo step n s) : s.Leads t :=
  rel_of_mem_afterUpTo Place.Leads.refl (fun _ _ _ => Place.Leads.trans) hstep h

end

/-- What holds between the ends of a pattern holds between those of its repetition. -/
theorem rel_of_mem_ends_many {R : Place → Place → Prop} {lo : Nat} {hi : Option Nat}
    (hrefl : ∀ s, R s s) (htrans : ∀ s t u, R s t → R t u → R s u)
    (hp : ∀ s t, t ∈ p.ends size s → R s t) (h : t ∈ (many lo hi p).ends size s) : R s t := by
  rw [ends, List.mem_flatMap] at h
  obtain ⟨u, hu, ht⟩ := h
  exact htrans s u t (rel_of_mem_afterTimes hrefl htrans hp hu)
    (rel_of_mem_afterUpTo hrefl htrans hp ht)

/-- What holds between a place and every place further on, and still holds when the stretch in
between fills a group, holds between the ends of every fit. -/
theorem rel_of_mem_ends {R : Place → Place → Prop} (htrans : ∀ s t u, R s t → R t u → R s u)
    (hmove : ∀ s n, n ≤ s.rest.length → R s (s.move n))
    (hfill : ∀ s u name, R s u → R s (u.fill name (s.spanTo u))) (h : t ∈ p.ends size s) :
    R s t := by
  have hrefl : ∀ s, R s s := fun s => hmove s 0 (Nat.zero_le _)
  have hite {b : Bool} {s t : Place} (ht : t ∈ if b then [s] else []) : R s t := by
    rw [eq_of_mem_ite ht]
    exact hrefl s
  induction p generalizing s t with
  | nothing => rw [mem_ends_nothing.1 h]; exact hrefl s
  | word w =>
      obtain ⟨hw, rfl⟩ := mem_ends_word.1 h
      exact hmove s _ hw.length_le
  | wordAnyCase w =>
      obtain ⟨u, r, hr, -, rfl⟩ := mem_ends_wordAnyCase.1 h
      exact hmove s _ (by simp [hr])
  | one cls =>
      obtain ⟨c, r, hr, -, rfl⟩ := mem_ends_one.1 h
      exact hmove s _ (by simp [hr])
  | run pref lo hi cls =>
      obtain ⟨u, r, hr, -, -, -, rfl⟩ := mem_ends_run.1 h
      exact hmove s _ (by simp [hr])
  | seq p q ihp ihq =>
      obtain ⟨u, hu, ht⟩ := mem_ends_seq.1 h
      exact htrans s u t (ihp hu) (ihq ht)
  | alt p q ihp ihq => exact (mem_ends_alt.1 h).elim ihp ihq
  | many lo hi p ih => exact rel_of_mem_ends_many hrefl htrans (fun _ _ => ih) h
  | group name p ih =>
      obtain ⟨u, hu, rfl⟩ := mem_ends_group.1 h
      exact hfill s u name (ih hu)
  | again name =>
      obtain ⟨span, -, hw, rfl⟩ := mem_ends_again.1 h
      exact hmove s _ hw.length_le
  | textStart => exact hite h
  | lineStart => exact hite h
  | textEnd => exact hite h
  | lineEnd => exact hite h

/-- A fit only ever moves on in the text. -/
theorem leads_of_mem_ends (h : t ∈ p.ends size s) : s.Leads t :=
  rel_of_mem_ends (fun _ _ _ => Place.Leads.trans) (fun _ _ => Place.Leads.move)
    (fun _ _ _ => Place.Leads.fill) h

/-! ## Patterns that fit in one way only -/

theorem ends_word_of_rest {w r : List Char} (h : s.rest = w ++ r) :
    (word w).ends size s = [s.move w.length] := by
  have hafter : s.after? (· == ·) w = some (s.move w.length) :=
    Place.after?_beq_eq_some_iff.2 ⟨⟨r, h.symm⟩, rfl⟩
  rw [ends, hafter]
  rfl

theorem ends_one_of_rest {cls : Char → Bool} {c : Char} {r : List Char} (h : s.rest = c :: r)
    (hc : cls c = true) : (one cls).ends size s = [s.move 1] := by
  have hafter : s.afterRun? cls 1 = some (s.move 1) :=
    Place.afterRun?_eq_some_iff.2 ⟨[c], r, h, rfl, by simpa using hc, rfl⟩
  rw [ends, hafter]
  rfl

theorem ends_again_of_rest {name : String} {span : Span} {r : List Char}
    (hg : s.group? name = some span) (h : s.rest = span.text ++ r) :
    (again name).ends size s = [s.move span.text.length] := by
  have hafter : s.after? (· == ·) span.text = some (s.move span.text.length) :=
    Place.after?_beq_eq_some_iff.2 ⟨⟨r, h.symm⟩, rfl⟩
  simp [ends, hg, hafter]

theorem ends_blanks_of_not_blank {c : Char} {r : List Char} (h : s.rest = c :: r)
    (hc : Text.isBlank c = false) : blanks.ends size s = [s] := by
  simp [blanks, ends, Place.afterRun?, Place.stops, Place.runLength, h, hc, Preference.order]

theorem ends_group_of_eq {name : String} (h : p.ends size s = [t]) :
    (group name p).ends size s = [t.fill name (s.spanTo t)] := by
  rw [ends, h]
  rfl

theorem ends_seq_of_eq (h : p.ends size s = [t]) : (seq p q).ends size s = q.ends size t := by
  rw [ends, h]
  simp

/-- A text of at least one character, the shortest first. -/
theorem ends_shortest_any :
    (run .shortest 1 none fun _ => true).ends size s =
      (List.range s.rest.length).map fun n => s.move (n + 1) := by
  obtain ⟨prev, pos, rest, groups⟩ := s
  cases rest with
  | nil => rfl
  | cons c rest =>
      have hlen : ∀ t : List Char, Place.runLength (fun _ => true) none t = t.length := by
        intro t
        induction t with
        | nil => rfl
        | cons d t ih => simpa [Place.runLength] using ih
      simp [ends, Place.afterRun?, Place.stops, hlen, Preference.order, Place.move_succ_cons]

end

end Pattern

end NaslLint
