import NaslLint.Proofs.Pattern.Spelling

/-!
# The first way in which a pattern fits

A match takes the first of the ways in which its pattern fits. `Takes p x r g g'` says what that way
is where the text goes on with `x` and then `r`: it covers `x`, and the texts of the groups are `g`
before and `g'` behind it. `Refuses p r g` says that there is no way at all. There is a rule for each
kind of pattern, so that a match can be followed along its text.

`find?_of_takes` turns this into a statement about the first match of a text.
-/

namespace NaslLint

def Place.texts (s : Place) : List (String × List Char) :=
  s.groups.map fun g => (g.1, g.2.text)

namespace Place

@[simp] theorem texts_move (n : Nat) (s : Place) : (s.move n).texts = s.texts := by
  rw [texts, groups_move, texts]

theorem texts_fill (s : Place) (name : String) (span : Span) :
    (s.fill name span).texts = (name, span.text) :: s.texts := rfl

theorem lookup_texts (groups : List (String × Span)) (name : String) :
    (groups.map fun g => (g.1, g.2.text)).lookup name = (groups.lookup name).map Span.text := by
  induction groups with
  | nil => rfl
  | cons g groups ih =>
      rw [List.map_cons, List.lookup_cons, List.lookup_cons]
      cases name == g.1 with
      | true => rfl
      | false => exact ih

/-- What is covered on the way to a place is the text up to what still follows there. -/
theorem Leads.spanTo_text_eq {s t : Place} {x r : List Char} (h : s.Leads t)
    (hs : s.rest = x ++ r) (ht : t.rest = r) : (s.spanTo t).text = x := by
  have heq := h.rest_eq
  rw [hs, ht] at heq
  exact (List.append_cancel_right heq).symm

end Place

/-- A match covers a text and fills its groups with texts. -/
structure Match.Covers (m : Match) (start : Nat) (x : List Char) (g : List (String × List Char)) :
    Prop where
  start_eq : m.start = start
  stop_eq : m.stop = start + x.length
  text_eq : m.text = x
  group?_eq : ∀ name, m.group? name = g.lookup name

theorem Match.Covers.group_eq {m : Match} {start : Nat} {x w : List Char}
    {g : List (String × List Char)} {name : String} (h : m.Covers start x g)
    (hname : g.lookup name = some w) : m.group name = w := by
  rw [Match.group, h.group?_eq, hname]
  rfl

namespace Pattern

/-- Where the text goes on with `x` and then `r`, and the groups hold the texts `g`, the first way
in which the pattern fits covers `x` and leaves the groups with the texts `g'`. -/
def Takes (p : Pattern) (x r : List Char) (g g' : List (String × List Char)) : Prop :=
  ∀ size s, s.rest = x ++ r → s.texts = g →
    ∃ t, (p.ends size s).head? = some t ∧ t.rest = r ∧ t.texts = g'

/-- Where the text goes on with `r`, and the groups hold the texts `g`, the pattern does not fit. -/
def Refuses (p : Pattern) (r : List Char) (g : List (String × List Char)) : Prop :=
  ∀ size s, s.rest = r → s.texts = g → p.ends size s = []

section
variable {p q : Pattern} {x y r : List Char} {g g' g'' : List (String × List Char)}

/-! ## Where a pattern does not fit -/

theorem refuses_word {w : List Char} (h : ¬ w <+: r) : Refuses (word w) r g := by
  intro size s hs _
  rw [List.eq_nil_iff_forall_not_mem]
  intro t ht
  have hpre := (mem_ends_word.1 ht).1
  rw [hs] at hpre
  exact h hpre

theorem refuses_wordAnyCase {w : List Char}
    (h : ∀ u, u <+: r → ¬ List.Forall₂ (fun a b => Text.sameLetter a b = true) w u) :
    Refuses (wordAnyCase w) r g := by
  intro size s hs _
  rw [List.eq_nil_iff_forall_not_mem]
  intro t ht
  obtain ⟨u, r', hr, hu, -⟩ := mem_ends_wordAnyCase.1 ht
  exact h u ⟨r', by rw [← hr, hs]⟩ hu

theorem refuses_one {cls : Char → Bool} (h : ∀ c r', r = c :: r' → cls c = false) :
    Refuses (one cls) r g := by
  intro size s hs _
  rw [List.eq_nil_iff_forall_not_mem]
  intro t ht
  obtain ⟨c, r', hr, hc, -⟩ := mem_ends_one.1 ht
  rw [h c r' (hs ▸ hr)] at hc
  exact Bool.noConfusion hc

/-- Where no text that the pattern spells stands, it is refused. -/
theorem refuses_of_spells (h : ∀ x, p.Spells x → ¬ x <+: r) : Refuses p r g := by
  intro size s hs _
  rw [List.eq_nil_iff_forall_not_mem]
  intro e he
  refine h _ (spells_of_mem_ends he) ⟨e.rest, ?_⟩
  rw [← (leads_of_mem_ends he).rest_eq, hs]

theorem Refuses.seq (h : Refuses p r g) : Refuses (seq p q) r g := by
  intro size s hs hg
  rw [ends, h size s hs hg, List.flatMap_nil]

theorem refuses_again {name : String} (h : ∀ w, g.lookup name = some w → ¬ w <+: r) :
    Refuses (again name) r g := by
  intro size s hs hg
  rw [List.eq_nil_iff_forall_not_mem]
  intro t ht
  obtain ⟨span, hspan, hpre, -⟩ := mem_ends_again.1 ht
  have hlookup : g.lookup name = some span.text := by
    rw [← hg, Place.texts, Place.lookup_texts]
    change (s.group? name).map Span.text = some span.text
    rw [hspan]
    rfl
  rw [hs] at hpre
  exact h _ hlookup hpre

/-- A pattern that can be left out is refused together with what follows it. -/
theorem refuses_optional_seq (hp : Refuses p r g) (hq : Refuses q r g) :
    Refuses (Pattern.seq (optional p) q) r g := by
  intro size s hs hg
  rw [ends, ends_optional, hp size s hs hg]
  simpa using hq size s hs hg

/-- So is a remembered text, which may be there or not. -/
theorem refuses_optional_again_seq {name : String} {w : List Char} (hg : g.lookup name = some w)
    (hagain : ∀ z, r = w ++ z → Refuses q z g) (hq : Refuses q r g) :
    Refuses (Pattern.seq (optional (again name)) q) r g := by
  intro size s hs hgs
  rw [ends, ends_optional, List.flatMap_append, List.append_eq_nil_iff, List.flatMap_singleton]
  refine ⟨List.flatMap_eq_nil_iff.2 fun t ht => ?_, hq size s hs hgs⟩
  obtain ⟨span, hspan, ⟨z, hz⟩, rfl⟩ := mem_ends_again.1 ht
  obtain rfl : span.text = w := by
    rw [← hgs, Place.texts, Place.lookup_texts, show s.groups.lookup name = _ from hspan] at hg
    exact Option.some.inj hg
  refine hagain z (by rw [← hs, hz]) size _ ?_ ?_
  · rw [Place.rest_move, ← hz, List.drop_left]
  · rw [Place.texts_move, hgs]

/-! ## What the first way covers -/

theorem Takes.seq (hp : Takes p x (y ++ r) g g') (hq : Takes q y r g' g'') :
    Takes (seq p q) (x ++ y) r g g'' := by
  intro size s hs hg
  rw [List.append_assoc] at hs
  obtain ⟨u, hu, hur, hug⟩ := hp size s hs hg
  obtain ⟨t, ht, htr, htg⟩ := hq size u hur hug
  refine ⟨t, ?_, htr, htg⟩
  obtain ⟨more, hmore⟩ := List.head?_eq_some_iff.1 hu
  rw [ends, hmore, List.flatMap_cons, List.head?_append, ht]
  rfl

theorem takes_of_ends (h : ∀ size s, s.rest = x ++ r → s.texts = g →
    (p.ends size s).head? = some (s.move x.length)) : Takes p x r g g := by
  intro size s hs hg
  refine ⟨_, h size s hs hg, ?_, ?_⟩
  · rw [Place.rest_move, hs, List.drop_left]
  · rw [Place.texts_move, hg]

theorem takes_word {w : List Char} : Takes (word w) w r g g := by
  apply takes_of_ends
  intro size s hs _
  rw [ends_word_of_rest hs]
  rfl

theorem takes_one {cls : Char → Bool} {c : Char} (hc : cls c = true) :
    Takes (one cls) [c] r g g := by
  apply takes_of_ends
  intro size s hs _
  rw [ends_one_of_rest hs hc]
  rfl

theorem takes_wordAnyCase {w : List Char} : Takes (wordAnyCase w) w r g g := by
  apply takes_of_ends
  intro size s hs _
  have hsame : List.Forall₂ (fun a b => Text.sameLetter a b = true) w w :=
    List.forall₂_same.2 fun c _ => Text.sameLetter_self c
  have hafter : s.after? Text.sameLetter w = some (s.move w.length) :=
    Place.after?_eq_some_iff.2 ⟨w, r, hs, hsame, rfl⟩
  rw [ends, hafter]
  rfl

theorem Takes.group {name : String} (h : Takes p x r g g') :
    Takes (group name p) x r g ((name, x) :: g') := by
  intro size s hs hg
  obtain ⟨t, ht, htr, htg⟩ := h size s hs hg
  refine ⟨t.fill name (s.spanTo t), ?_, htr, ?_⟩
  · rw [ends, List.head?_map, ht]
    rfl
  · have hleads := leads_of_mem_ends (List.mem_of_mem_head? ht)
    rw [Place.texts_fill, htg, hleads.spanTo_text_eq hs htr]

theorem takes_again {name : String} (h : g.lookup name = some x) : Takes (again name) x r g g := by
  apply takes_of_ends
  intro size s hs hg
  rw [← hg, Place.texts, Place.lookup_texts] at h
  obtain ⟨span, hspan, rfl⟩ := Option.map_eq_some_iff.1 h
  rw [ends_again_of_rest hspan hs]
  rfl

theorem Takes.optional (h : Takes p x r g g') : Takes (optional p) x r g g' := by
  intro size s hs hg
  obtain ⟨t, ht, htr, htg⟩ := h size s hs hg
  refine ⟨t, ?_, htr, htg⟩
  rw [ends_optional, List.head?_append, ht]
  rfl

theorem takes_optional_nil (h : Refuses p r g) : Takes (Pattern.optional p) [] r g g := by
  apply takes_of_ends
  intro size s hs hg
  rw [ends_optional, h size s hs hg]
  rfl

theorem Takes.oneOf (before : List Pattern) {after : List Pattern}
    (hbefore : ∀ p' ∈ before, Refuses p' (x ++ r) g) (h : Takes p x r g g') :
    Takes (oneOf (before ++ p :: after)) x r g g' := by
  intro size s hs hg
  obtain ⟨t, ht, htr, htg⟩ := h size s hs hg
  refine ⟨t, ?_, htr, htg⟩
  induction before with
  | nil =>
      cases after with
      | nil => exact ht
      | cons q after =>
          change (p.ends size s ++ (Pattern.oneOf (q :: after)).ends size s).head? = some t
          rw [List.head?_append, ht]
          rfl
  | cons p' before ih =>
      obtain ⟨hp', hmore⟩ := List.forall_mem_cons.1 hbefore
      have hnext := ih hmore
      cases before with
      | nil =>
          change (p'.ends size s ++ (Pattern.oneOf (p :: after)).ends size s).head? = some t
          rw [hp' size s hs hg]
          exact hnext
      | cons p'' before =>
          change (p'.ends size s ++ (Pattern.oneOf (p'' :: before ++ p :: after)).ends size s).head? =
            some t
          rw [hp' size s hs hg]
          exact hnext

/-! ## Runs -/

/-- A run that prefers to be long takes all that it can. -/
theorem takes_longest {lo : Nat} {hi : Option Nat} {cls : Char → Bool}
    (hx : ∀ c ∈ x, cls c = true) (hlo : lo ≤ x.length) (hhi : ∀ h ∈ hi, x.length ≤ h)
    (hr : hi = some x.length ∨ ∀ d r', r = d :: r' → cls d = false) :
    Takes (run .longest lo hi cls) x r g g := by
  apply takes_of_ends
  intro size s hs _
  have hsplit : s.rest = x.take lo ++ (x.drop lo ++ r) := by
    rw [← List.append_assoc, List.take_append_drop, hs]
  have hcompulsory : s.afterRun? cls lo = some (s.move lo) := by
    refine Place.afterRun?_eq_some_iff.2 ⟨x.take lo, _, hsplit, ?_, ?_, ?_⟩
    · rw [List.length_take]
      omega
    · exact fun c hc => hx c (List.mem_of_mem_take hc)
    · rw [List.length_take, Nat.min_eq_left hlo]
  have hrest : (s.move lo).rest = x.drop lo ++ r := by
    rw [Place.rest_move, hs, List.drop_append_of_le_length hlo]
  have hlength : Place.runLength cls (hi.map (· - lo)) (x.drop lo ++ r) = (x.drop lo).length := by
    apply runLength_eq
    · exact fun c hc => hx c (List.mem_of_mem_drop hc)
    · intro l hl
      obtain ⟨h, hh, rfl⟩ : ∃ h, hi = some h ∧ h - lo = l := by simpa using hl
      have := hhi h hh
      rw [List.length_drop]
      omega
    · rcases hr with rfl | hr
      · left
        rw [List.length_drop]
        rfl
      · exact Or.inr hr
  rw [ends, hcompulsory, Option.toList_some, List.flatMap_singleton, Preference.order, Place.stops,
    hrest, hlength, List.range_succ, List.map_append, List.reverse_append, List.length_drop]
  rw [List.map_singleton, List.reverse_singleton, Place.move_move, Nat.add_sub_cancel' hlo]
  rfl

theorem takes_exactly {n : Nat} {cls : Char → Bool} (hx : ∀ c ∈ x, cls c = true)
    (hn : x.length = n) : Takes (run .longest n (some n) cls) x r g g := by
  subst hn
  apply takes_longest hx (Nat.le_refl _)
  · intro h hh
    obtain rfl := Option.some.inj hh
    exact Nat.le_refl _
  · exact Or.inl rfl

theorem takes_blanks (hx : ∀ c ∈ x, Text.isBlank c = true)
    (hr : ∀ d r', r = d :: r' → Text.isBlank d = false) : Takes blanks x r g g :=
  takes_longest hx (Nat.zero_le _) (by simp) (Or.inr hr)

theorem takes_blanks_nil {c : Char} (hc : Text.isBlank c = false) : Takes blanks [] (c :: r) g g := by
  apply takes_blanks
  · simp
  · rintro d r' h
    obtain ⟨rfl, -⟩ := List.cons.inj h
    exact hc

theorem takes_someBlanks (hne : x ≠ []) (hx : ∀ c ∈ x, Text.isBlank c = true)
    (hr : ∀ d r', r = d :: r' → Text.isBlank d = false) : Takes someBlanks x r g g :=
  takes_longest hx (List.length_pos_iff.2 hne) (by simp) (Or.inr hr)

/-- The stops of an unlimited run that prefers to be long, behind each of its characters. -/
theorem ends_longest {cls : Char → Bool} {size : Nat} {s : Place} {u r : List Char}
    (hu : ∀ c ∈ u, cls c = true) (hr : ∀ d r', r = d :: r' → cls d = false)
    (hs : s.rest = u ++ r) :
    (run .longest 0 none cls).ends size s =
      ((List.range (u.length + 1)).map fun n => s.move n).reverse := by
  have hlength : Place.runLength cls none (u ++ r) = u.length :=
    runLength_eq hu (by simp) (Or.inr hr)
  simp [ends, Place.afterRun?, Place.stops, hs, hlength, Preference.order]

theorem head?_flatMap_reverse_range {α : Type} {f : Nat → List α} {a : α} {n k : Nat} (hn : n ≤ k)
    (hnone : ∀ i, n < i → i ≤ k → f i = []) (ha : (f n).head? = some a) :
    ((List.range (k + 1)).reverse.flatMap f).head? = some a := by
  induction k with
  | zero =>
      obtain rfl : n = 0 := by omega
      simpa using ha
  | succ k ih =>
      rw [List.range_succ, List.reverse_append, List.reverse_singleton, List.singleton_append,
        List.flatMap_cons, List.head?_append]
      by_cases hk : n = k + 1
      · rw [← hk, ha]
        rfl
      · rw [hnone (k + 1) (by omega) (Nat.le_refl _)]
        exact ih (by omega) fun i hi hik => hnone i hi (by omega)

/-- A remembered run that prefers to be long gives back characters until what follows it fits. -/
theorem takes_longest_seq {cls : Char → Bool} {name : String} {u v : List Char}
    (hcls : ∀ c ∈ u ++ v, cls c = true) (hr : ∀ d r', r = d :: r' → cls d = false)
    (hlonger : ∀ a b, v = a ++ b → a ≠ [] → Refuses q (b ++ r) ((name, u ++ a) :: g))
    (hsplit : v ++ r = x ++ y) (hq : Takes q x y ((name, u) :: g) g') :
    Takes (Pattern.seq (Pattern.group name (run .longest 0 none cls)) q) (u ++ x) y g g' := by
  intro size s hs hg
  have hrest : s.rest = (u ++ v) ++ r := by
    rw [hs, List.append_assoc, ← hsplit, List.append_assoc]
  -- behind `n` characters of the run, with these remembered
  let place (n : Nat) : Place := (s.move n).fill name (s.spanTo (s.move n))
  have htexts (a b : List Char) (hab : v = a ++ b) :
      (place (u.length + a.length)).rest = b ++ r ∧
        (place (u.length + a.length)).texts = (name, u ++ a) :: g := by
    have hsplit' : s.rest = (u ++ a) ++ (b ++ r) := by
      rw [hrest, hab]
      simp
    constructor
    · rw [Place.rest_fill, Place.rest_move, hsplit', ← List.length_append, List.drop_left]
    · rw [Place.texts_fill, Place.texts_move, hg, ← List.length_append,
        Place.spanTo_move_text_of_rest hsplit']
  obtain ⟨hplace, hplaceTexts⟩ := htexts [] v rfl
  rw [hsplit] at hplace
  rw [List.append_nil] at hplaceTexts
  obtain ⟨t, ht, htr, htg⟩ := hq size (place (u.length + 0)) hplace hplaceTexts
  refine ⟨t, ?_, htr, htg⟩
  have hends : (Pattern.group name (run .longest 0 none cls)).ends size s =
      (List.range ((u ++ v).length + 1)).reverse.map place := by
    rw [ends, ends_longest hcls hr hrest, ← List.map_reverse, List.map_map]
    rfl
  rw [ends, hends, List.flatMap_map]
  apply head?_flatMap_reverse_range (n := u.length) (by simp)
  · intro i hi hik
    obtain ⟨k, rfl⟩ : ∃ k, i = u.length + k := ⟨i - u.length, by omega⟩
    rw [List.length_append] at hik
    have htake : (v.take k).length = k := by
      rw [List.length_take]
      omega
    obtain ⟨hi₁, hi₂⟩ := htexts (v.take k) (v.drop k) (List.take_append_drop k v).symm
    rw [htake] at hi₁ hi₂
    refine hlonger _ _ (List.take_append_drop k v).symm ?_ size _ hi₁ hi₂
    intro hnil
    rw [hnil] at htake
    simp at htake
    omega
  · exact ht

/-- The first stops of an unlimited run that prefers to be short, behind each of its characters. -/
theorem exists_ends_shortest (size : Nat) {cls : Char → Bool} {s : Place} {u r : List Char}
    (hu : u ≠ []) (hcls : ∀ c ∈ u, cls c = true) (hs : s.rest = u ++ r) :
    ∃ k, u.length ≤ k ∧ (run .shortest 1 none cls).ends size s =
      (List.range k).map fun n => s.move (n + 1) := by
  obtain ⟨c, u, rfl⟩ := List.exists_cons_of_ne_nil hu
  obtain ⟨prev, pos, rest, groups⟩ := s
  simp only at hs
  subst hs
  obtain ⟨hc, hu⟩ := List.forall_mem_cons.1 hcls
  refine ⟨Place.runLength cls none (u ++ r) + 1, ?_, ?_⟩
  · apply Nat.succ_le_succ
    exact Place.le_runLength_iff.2 ⟨by simp, u, r, rfl, rfl, hu⟩
  · simp [ends, Place.afterRun?, Place.stops, hc, Preference.order, Place.move_succ_cons]

/-- A remembered run that prefers to be short grows until what follows it fits. -/
theorem takes_shortest_seq_of_forall {cls : Char → Bool} {name : String} {u : List Char}
    (hu : u ≠ []) (hcls : ∀ c ∈ u, cls c = true)
    (hshorter : ∀ a b, u = a ++ b → a ≠ [] → b ≠ [] → Refuses q (b ++ (x ++ r)) ((name, a) :: g))
    (hq : Takes q x r ((name, u) :: g) g') :
    Takes (Pattern.seq (Pattern.group name (run .shortest 1 none cls)) q) (u ++ x) r g g' := by
  intro size s hs hg
  rw [List.append_assoc] at hs
  let place (n : Nat) : Place := (s.move n).fill name (s.spanTo (s.move n))
  have htexts (a b : List Char) (hab : u = a ++ b) :
      (place a.length).rest = b ++ (x ++ r) ∧ (place a.length).texts = (name, a) :: g := by
    have hsplit : s.rest = a ++ (b ++ (x ++ r)) := by
      rw [hs, hab, List.append_assoc]
    constructor
    · rw [Place.rest_fill, Place.rest_move, hsplit, List.drop_left]
    · rw [Place.texts_fill, Place.texts_move, hg, Place.spanTo_move_text_of_rest hsplit]
  obtain ⟨hplace, hplaceTexts⟩ := htexts u [] (List.append_nil u).symm
  obtain ⟨t, ht, htr, htg⟩ := hq size (place u.length) hplace hplaceTexts
  refine ⟨t, ?_, htr, htg⟩
  obtain ⟨k, hk, hruns⟩ := exists_ends_shortest size hu hcls hs
  have hends : (Pattern.group name (run .shortest 1 none cls)).ends size s =
      (List.range k).map fun n => place (n + 1) := by
    rw [ends, hruns, List.map_map]
    rfl
  have hpos : 0 < u.length := List.length_pos_iff.2 hu
  rw [ends, hends, List.flatMap_map, List.head?_flatMap]
  -- the ends are tried in the order of their lengths, and the first that goes on is behind `u`
  apply findSome?_range_of_first (n := u.length - 1) (by omega)
  · intro n hn
    have htake : (u.take (n + 1)).length = n + 1 := by
      rw [List.length_take]
      omega
    obtain ⟨hn₁, hn₂⟩ := htexts (u.take (n + 1)) (u.drop (n + 1)) (List.take_append_drop _ u).symm
    rw [htake] at hn₁ hn₂
    rw [hshorter _ _ (List.take_append_drop (n + 1) u).symm ?_ ?_ size _ hn₁ hn₂]
    · rfl
    · intro hnil
      rw [hnil] at htake
      simp at htake
    · rw [Ne, List.drop_eq_nil_iff]
      omega
  · rw [Nat.sub_add_cancel hpos, ht]

/-- A remembered text that prefers to be short grows until what follows it fits. -/
theorem takes_shortest_seq {name : String} {u : List Char} (hu : u ≠ [])
    (hshorter : ∀ a b, u = a ++ b → a ≠ [] → b ≠ [] → Refuses q (b ++ (x ++ r)) ((name, a) :: g))
    (hq : Takes q x r ((name, u) :: g) g') :
    Takes (Pattern.seq (Pattern.group name (run .shortest 1 none fun _ => true)) q) (u ++ x) r g
      g' :=
  takes_shortest_seq_of_forall hu (fun _ _ => rfl) hshorter hq

/-! ## Matches -/

theorem Takes.matchAt? {s : Place} (h : Takes p x r [] g) (size : Nat) (hs : s.rest = x ++ r)
    (hgroups : s.groups = []) : ∃ m, p.matchAt? size s = some m ∧ m.Covers s.pos x g := by
  obtain ⟨t, ht, htr, htg⟩ := h size s hs (by rw [Place.texts, hgroups]; rfl)
  have hleads := leads_of_mem_ends (List.mem_of_mem_head? ht)
  have htext : (s.spanTo t).text = x := hleads.spanTo_text_eq hs htr
  refine ⟨⟨s.spanTo t, t.groups⟩, by rw [matchAt?_eq_head?, ht]; rfl, rfl, ?_, htext, ?_⟩
  · change t.pos = s.pos + x.length
    rw [hleads.pos_eq, htext]
  · intro name
    rw [Match.group?, ← Place.lookup_texts, ← htg]
    rfl

theorem Takes.matchStart? (h : Takes p x [] [] g) :
    ∃ m, p.matchStart? x = some m ∧ m.Covers 0 x g :=
  h.matchAt? (s := .ofText x) x.length (List.append_nil x).symm rfl

/-- **The first match.** Where a pattern takes a word and is refused at every place before it, the
word is the first match. -/
theorem find?_of_takes {a : List Char}
    (hbefore : ∀ u, u <:+ a → u ≠ [] → Refuses p (u ++ (x ++ r)) [])
    (h : Takes p x r [] g) : ∃ m, p.find? (a ++ (x ++ r)) = some m ∧ m.Covers a.length x g := by
  have hrest (n : Nat) : ((Place.ofText (a ++ (x ++ r))).move n).rest = (a ++ (x ++ r)).drop n :=
    Place.rest_move n _
  have hgroups (n : Nat) : ((Place.ofText (a ++ (x ++ r))).move n).groups = [] :=
    Place.groups_move n _
  have hpos : ((Place.ofText (a ++ (x ++ r))).move a.length).pos = a.length := by
    rw [Place.pos_move (by simp [Place.ofText])]
    exact Nat.zero_add _
  obtain ⟨m, hm, hcovers⟩ := h.matchAt? (a ++ (x ++ r)).length
    (by rw [hrest, List.drop_left]) (hgroups a.length)
  rw [hpos] at hcovers
  refine ⟨m, ?_, hcovers⟩
  rw [find?_eq_findSome?]
  apply findSome?_range_of_first (n := a.length)
  · rw [List.length_append]
    omega
  · intro i hi
    rw [matchAt?_eq_none_iff]
    refine hbefore (a.drop i) (List.drop_suffix i a) ?_ _ _ ?_ ?_
    · rw [Ne, List.drop_eq_nil_iff]
      omega
    · rw [hrest, List.drop_append_of_le_length (by omega)]
    · rw [Place.texts, hgroups]
      rfl
  · exact hm

end

end Pattern

end NaslLint
