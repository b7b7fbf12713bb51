import NaslLint.Proofs.Pattern.All

/-!
# What a pattern means

A pattern that is not anchored means a relation: which texts it can cover, and how the texts of the
groups change on the way. `Pattern.Means p R` says that `R` is that relation, in all places. There is
a rule for each kind of pattern, so the meaning of a pattern can be put together from its parts.
-/

namespace NaslLint

namespace Text

def Blanks (x : List Char) : Prop :=
  ∀ c ∈ x, isBlank c = true

theorem Blanks.nil : Blanks [] :=
  List.forall_mem_nil _

theorem Blanks.space : Blanks [' '] :=
  List.forall_mem_singleton.2 (by decide)

theorem Blanks.not_mem {x : List Char} (hx : Blanks x) {c : Char} (hc : isBlank c = false) :
    c ∉ x := by
  intro hmem
  rw [hx c hmem] at hc
  cases hc

theorem exists_append_of_le {t : List Char} {n : Nat} (hn : n ≤ t.length) :
    ∃ a u, t = a ++ u ∧ a.length = n :=
  ⟨t.take n, t.drop n, (List.take_append_drop n t).symm, List.length_take_of_le hn⟩

def StartsLine (a : List Char) : Prop :=
  a = [] ∨ a.getLast? = some '\n'

end Text

namespace Pattern

open Text

/-- The texts that groups hold, the latest first. -/
abbrev Groups := List (String × List Char)

/-- The pattern covers `x`, where the groups hold the texts `g` before and `g'` behind it, if and only
if `R x g g'`. -/
def Means (p : Pattern) (R : List Char → Groups → Groups → Prop) : Prop :=
  ∀ size (s : Place) r g', (∃ t ∈ p.ends size s, t.rest = r ∧ t.texts = g') ↔
    ∃ x, s.rest = x ++ r ∧ R x s.texts g'

/-- As long as no group is filled, the pattern covers the texts of this kind and no others. -/
def Accepts (p : Pattern) (P : List Char → Prop) : Prop :=
  ∃ R, Means p R ∧ ∀ x, (∃ g', R x [] g') ↔ P x

variable {p q : Pattern} {R S : List Char → Groups → Groups → Prop}

theorem Means.congr (hp : Means p R) (h : ∀ x g g', R x g g' ↔ S x g g') : Means p S := by
  intro size s r g'
  rw [hp size s r g']
  simp only [h]

/-- A pattern that moves on over texts of a kind and leaves the groups alone. -/
theorem means_of_moves {P : List Char → Groups → Prop}
    (h : ∀ size s t, t ∈ p.ends size s ↔
      ∃ x r, s.rest = x ++ r ∧ P x s.texts ∧ t = s.move x.length) :
    Means p fun x g g' => P x g ∧ g' = g := by
  intro size s r g'
  constructor
  · rintro ⟨t, ht, rfl, rfl⟩
    obtain ⟨x, r, hs, hx, rfl⟩ := (h size s t).1 ht
    refine ⟨x, ?_, hx, Place.texts_move _ _⟩
    rw [Place.rest_move, hs, List.drop_left]
  · rintro ⟨x, hs, hx, rfl⟩
    refine ⟨s.move x.length, (h size s _).2 ⟨x, r, hs, hx, rfl⟩, ?_, Place.texts_move _ _⟩
    rw [Place.rest_move, hs, List.drop_left]

theorem means_word {w : List Char} : Means (word w) fun x g g' => x = w ∧ g' = g := by
  apply means_of_moves
  intro size s t
  rw [mem_ends_word]
  constructor
  · rintro ⟨⟨r, hs⟩, rfl⟩
    exact ⟨w, r, hs.symm, rfl, rfl⟩
  · rintro ⟨_, r, hs, rfl, rfl⟩
    exact ⟨⟨r, hs.symm⟩, rfl⟩

theorem means_one {cls : Char → Bool} :
    Means (one cls) fun x g g' => (∃ c, cls c = true ∧ x = [c]) ∧ g' = g := by
  apply means_of_moves
  intro size s t
  rw [mem_ends_one]
  constructor
  · rintro ⟨c, r, hs, hc, rfl⟩
    exact ⟨[c], r, hs, ⟨c, hc, rfl⟩, rfl⟩
  · rintro ⟨_, r, hs, ⟨c, hc, rfl⟩, rfl⟩
    exact ⟨c, r, hs, hc, rfl⟩

/-- A run of any length within its bounds. -/
theorem means_run_within {pref : Preference} {lo : Nat} {hi : Option Nat} {cls : Char → Bool} :
    Means (run pref lo hi cls) fun x g g' =>
      (lo ≤ x.length ∧ (∀ n ∈ hi, x.length ≤ max lo n) ∧ ∀ c ∈ x, cls c = true) ∧ g' = g := by
  apply means_of_moves
  intro size s t
  simp only [mem_ends_run, and_assoc]

/-- A run of any length. -/
theorem means_run {pref : Preference} {cls : Char → Bool} :
    Means (run pref 0 none cls) fun x g g' => (∀ c ∈ x, cls c = true) ∧ g' = g :=
  means_run_within.congr (by simp)

theorem means_blanks : Means blanks fun x g g' => Blanks x ∧ g' = g :=
  means_run

theorem means_line : Means line fun x g g' => '\n' ∉ x ∧ g' = g := by
  refine means_run.congr fun x g g' => and_congr_left fun _ => ?_
  simp only [inLine, bne_iff_ne]
  exact ⟨fun h hmem => h _ hmem rfl, fun h c hc hnewline => h (hnewline ▸ hc)⟩

theorem means_again {name : String} :
    Means (again name) fun x g g' => g.lookup name = some x ∧ g' = g := by
  apply means_of_moves
  intro size s t
  have hlookup : s.texts.lookup name = (s.group? name).map Span.text := Place.lookup_texts _ _
  rw [mem_ends_again, hlookup]
  constructor
  · rintro ⟨span, hspan, ⟨r, hs⟩, rfl⟩
    exact ⟨span.text, r, hs.symm, by rw [hspan]; rfl, rfl⟩
  · rintro ⟨_, r, hs, hname, rfl⟩
    obtain ⟨span, hspan, rfl⟩ := Option.map_eq_some_iff.1 hname
    exact ⟨span, hspan, ⟨r, hs.symm⟩, rfl⟩

theorem Means.seq (hp : Means p R) (hq : Means q S) :
    Means (seq p q) fun x g g' => ∃ y z g₁, x = y ++ z ∧ R y g g₁ ∧ S z g₁ g' := by
  intro size s r g'
  constructor
  · rintro ⟨t, ht, htr, htg⟩
    obtain ⟨u, hu, ht⟩ := mem_ends_seq.1 ht
    obtain ⟨y, hy, hR⟩ := (hp size s u.rest u.texts).1 ⟨u, hu, rfl, rfl⟩
    obtain ⟨z, hz, hS⟩ := (hq size u r g').1 ⟨t, ht, htr, htg⟩
    exact ⟨y ++ z, by rw [hy, hz, List.append_assoc], y, z, u.texts, rfl, hR, hS⟩
  · rintro ⟨_, hs, y, z, g₁, rfl, hR, hS⟩
    obtain ⟨u, hu, hur, rfl⟩ := (hp size s (z ++ r) g₁).2 ⟨y, by rw [hs, List.append_assoc], hR⟩
    obtain ⟨t, ht, htr, htg⟩ := (hq size u r g').2 ⟨z, hur, hS⟩
    exact ⟨t, mem_ends_seq.2 ⟨u, hu, ht⟩, htr, htg⟩

theorem Means.group {name : String} (hp : Means p R) :
    Means (group name p) fun x g g' => ∃ g₁, R x g g₁ ∧ g' = (name, x) :: g₁ := by
  intro size s r g'
  constructor
  · rintro ⟨t, ht, rfl, rfl⟩
    obtain ⟨u, hu, rfl⟩ := mem_ends_group.1 ht
    obtain ⟨x, hx, hR⟩ := (hp size s u.rest u.texts).1 ⟨u, hu, rfl, rfl⟩
    refine ⟨x, hx, u.texts, hR, ?_⟩
    rw [Place.texts_fill, (leads_of_mem_ends hu).spanTo_text_eq hx rfl]
  · rintro ⟨x, hs, g₁, hR, rfl⟩
    obtain ⟨u, hu, hur, rfl⟩ := (hp size s r g₁).2 ⟨x, hs, hR⟩
    refine ⟨u.fill name (s.spanTo u), mem_ends_group.2 ⟨u, hu, rfl⟩, hur, ?_⟩
    rw [Place.texts_fill, (leads_of_mem_ends hu).spanTo_text_eq hs hur]

theorem Means.optional (hp : Means p R) :
    Means (optional p) fun x g g' => R x g g' ∨ x = [] ∧ g' = g := by
  intro size s r g'
  rw [ends_optional]
  constructor
  · rintro ⟨t, ht, htr, htg⟩
    rcases List.mem_append.1 ht with ht | ht
    · obtain ⟨x, hx, hR⟩ := (hp size s r g').1 ⟨t, ht, htr, htg⟩
      exact ⟨x, hx, Or.inl hR⟩
    · obtain rfl := List.mem_singleton.1 ht
      exact ⟨[], htr, Or.inr ⟨rfl, htg.symm⟩⟩
  · rintro ⟨x, hs, hR | ⟨rfl, rfl⟩⟩
    · obtain ⟨t, ht, htr, htg⟩ := (hp size s r g').2 ⟨x, hs, hR⟩
      exact ⟨t, List.mem_append_left _ ht, htr, htg⟩
    · exact ⟨s, List.mem_append_right _ (List.mem_singleton_self s), hs, rfl⟩

theorem Means.alt (hp : Means p R) (hq : Means q S) :
    Means (alt p q) fun x g g' => R x g g' ∨ S x g g' := by
  intro size s r g'
  simp only [mem_ends_alt, or_and_right, exists_or, and_or_left, hp size s r g', hq size s r g']

theorem mem_ends_lineStart {size : Nat} {s t : Place} :
    t ∈ lineStart.ends size s ↔ s.atLineStart = true ∧ t = s := by
  rw [ends]
  cases s.atLineStart <;> simp

theorem atLineStart_move_iff (a b : List Char) :
    ((Place.ofText (a ++ b)).move a.length).atLineStart = true ↔ StartsLine a := by
  have hprev : ((Place.ofText (a ++ b)).move a.length).prev = a.getLast? := by
    rw [Place.ofText, Place.prev_move_append, Option.or_none]
  rw [Place.atLineStart, hprev, StartsLine]
  cases hlast : a.getLast? with
  | none => simpa using List.getLast?_eq_none_iff.1 hlast
  | some c =>
      have hne : a ≠ [] := by
        rintro rfl
        simp at hlast
      simp [hne]

/-! ## What comes first in a sequence -/

section
variable {P : List Char → Prop}

theorem Means.text_seq (hp : Means p fun x g g' => P x ∧ g' = g) (hq : Means q S) :
    Means (Pattern.seq p q) fun x g g' => ∃ y z, P y ∧ S z g g' ∧ x = y ++ z := by
  refine (hp.seq hq).congr fun x g g' => ?_
  constructor
  · rintro ⟨y, z, _, hx, ⟨hy, rfl⟩, hz⟩
    exact ⟨y, z, hy, hz, hx⟩
  · rintro ⟨y, z, hy, hz, hx⟩
    exact ⟨y, z, g, hx, ⟨hy, rfl⟩, hz⟩

theorem Means.word_seq {w : List Char} (hq : Means q S) :
    Means (Pattern.seq (word w) q) fun x g g' => ∃ z, S z g g' ∧ x = w ++ z := by
  refine (means_word.text_seq hq).congr fun x g g' => ?_
  simp

theorem Means.group_seq {name : String} (hp : Means p fun x g g' => P x ∧ g' = g)
    (hq : Means q S) : Means (Pattern.seq (Pattern.group name p) q) fun x g g' =>
      ∃ y z, P y ∧ S z ((name, y) :: g) g' ∧ x = y ++ z := by
  refine (hp.group.seq hq).congr fun x g g' => ?_
  constructor
  · rintro ⟨y, z, _, hx, ⟨_, ⟨hy, rfl⟩, rfl⟩, hz⟩
    exact ⟨y, z, hy, hz, hx⟩
  · rintro ⟨y, z, hy, hz, hx⟩
    exact ⟨y, z, _, hx, ⟨g, ⟨hy, rfl⟩, rfl⟩, hz⟩

theorem Means.again_seq {name : String} (hq : Means q S) :
    Means (Pattern.seq (again name) q) fun x g g' =>
      ∃ y z, g.lookup name = some y ∧ S z g g' ∧ x = y ++ z := by
  refine (means_again.seq hq).congr fun x g g' => ?_
  constructor
  · rintro ⟨y, z, _, hx, ⟨hy, rfl⟩, hz⟩
    exact ⟨y, z, hy, hz, hx⟩
  · rintro ⟨y, z, hy, hz, hx⟩
    exact ⟨y, z, g, hx, ⟨hy, rfl⟩, hz⟩

end

/-! ## Patterns without anchors and groups -/

/-- The pattern is neither anchored nor does it remember anything or repeat a pattern. -/
def isFree : Pattern → Bool
  | .nothing | .word _ | .one _ | .run .. => true
  | .seq p q | .alt p q => p.isFree && q.isFree
  | _ => false

/-- Such a pattern fits wherever a text stands that it spells. -/
theorem fits_of_spells {x : List Char} (hp : p.isFree = true) (hx : p.Spells x) : Fits p x := by
  induction p generalizing x with
  | nothing =>
      obtain rfl : x = [] := hx
      exact fun size s r hs => ⟨s, mem_ends_nothing.2 rfl, hs⟩
  | word w =>
      obtain rfl : x = w := hx
      exact fits_word x
  | one cls =>
      obtain ⟨c, hc, rfl⟩ := hx
      exact fits_one hc
  | run pref lo hi cls =>
      intro size s r hs
      refine ⟨s.move x.length, mem_ends_run.2 ⟨x, r, hs, hx.1, hx.2.1, hx.2.2, rfl⟩, ?_⟩
      rw [Place.rest_move, hs, List.drop_left]
  | seq p q ihp ihq =>
      obtain ⟨y, z, hy, hz, rfl⟩ := hx
      rw [isFree, Bool.and_eq_true] at hp
      intro size s r hs
      obtain ⟨u, hu, hur⟩ := ihp hp.1 hy size s (z ++ r) (by rw [hs, List.append_assoc])
      obtain ⟨e, he, her⟩ := ihq hp.2 hz size u r hur
      exact ⟨e, mem_ends_seq.2 ⟨u, hu, he⟩, her⟩
  | alt p q ihp ihq =>
      rw [isFree, Bool.and_eq_true] at hp
      intro size s r hs
      rcases hx with hx | hx
      · obtain ⟨e, he, her⟩ := ihp hp.1 hx size s r hs
        exact ⟨e, mem_ends_alt.2 (Or.inl he), her⟩
      · obtain ⟨e, he, her⟩ := ihq hp.2 hx size s r hs
        exact ⟨e, mem_ends_alt.2 (Or.inr he), her⟩
  | wordAnyCase | many | group | again | textStart | lineStart | textEnd | lineEnd => cases hp

theorem occursIn_iff_spells {t : List Char} (hp : p.isFree = true) :
    p.occursIn t = true ↔ ∃ x, p.Spells x ∧ x <:+: t := by
  rw [occursIn_iff]
  constructor
  · rintro ⟨a, v, rfl, e, he⟩
    refine ⟨_, spells_of_mem_ends he, a, e.rest, ?_⟩
    have hsplit := (leads_of_mem_ends he).rest_eq
    rw [Place.rest_move_ofText] at hsplit
    rw [List.append_assoc, ← hsplit]
  · rintro ⟨x, hx, a, b, rfl⟩
    rw [List.append_assoc]
    obtain ⟨e, he, -⟩ := fits_of_spells hp hx (a ++ (x ++ b)).length _ b
      (Place.rest_move_ofText a (x ++ b))
    exact ⟨a, x ++ b, rfl, e, he⟩

/-! ## Patterns that are anchored at the start of a line -/

theorem matchAt?_lineStart_seq {size : Nat} {s : Place} (h : s.atLineStart = true) :
    (seq lineStart p).matchAt? size s = p.matchAt? size s := by
  rw [matchAt?_eq_head?, matchAt?_eq_head?, ends, ends, h]
  simp

/-- Where a line starts and the pattern behind the anchor takes a word, a match covers the text. -/
theorem Takes.exists_mem_findAll_lineStart {a x r : List Char} {g : Groups} (h : Takes p x r [] g)
    (ha : StartsLine a) :
    ∃ m ∈ (Pattern.seq lineStart p).findAll (a ++ (x ++ r)), m.Occupies a.length := by
  obtain ⟨m, hm, -⟩ := h.matchAt? (a ++ (x ++ r)).length (Place.rest_move_ofText a (x ++ r))
    (Place.groups_move _ _)
  rw [← matchAt?_lineStart_seq ((atLineStart_move_iff a _).2 ha)] at hm
  exact exists_mem_findAll_of_matchAt? (by simp) hm

/-- A match that starts at the start of a line, where the pattern behind the anchor takes a word,
covers just that. -/
theorem covers_of_mem_findAll_lineStart {a x r : List Char} {g : Groups} {m : Match}
    (h : Takes p x r [] g) (hm : m ∈ (seq lineStart p).findAll (a ++ (x ++ r)))
    (hstart : m.start = a.length) : m.Covers a.length x g := by
  obtain ⟨n, hn, hmatch⟩ := exists_matchAt?_of_mem_findAll hm
  obtain ⟨e, he, rfl⟩ := exists_mem_ends_of_matchAt? hmatch
  obtain ⟨u, hu, -⟩ := mem_ends_seq.1 he
  have hpos : ((Place.ofText (a ++ (x ++ r))).move n).pos = n :=
    Place.pos_move_ofText hn
  obtain rfl : n = a.length := hpos.symm.trans hstart
  rw [matchAt?_lineStart_seq (mem_ends_lineStart.1 hu).1] at hmatch
  obtain ⟨m', hm', hcovers⟩ := h.matchAt? (a ++ (x ++ r)).length
    (Place.rest_move_ofText a (x ++ r)) (Place.groups_move _ _)
  rw [hpos] at hcovers
  rwa [Option.some.inj (hmatch.symm.trans hm')]

/-! ## What the first match states -/

end Pattern

namespace Text

/-- The text opens with one of the kind that states the value. -/
def Opens (C : List Char → List Char → Prop) (v u : List Char) : Prop :=
  ∃ x r, C v x ∧ u = x ++ r

/-- The first text of the kind that stands in `t` states the value. -/
def FirstStates (C : List Char → List Char → Prop) (v t : List Char) : Prop :=
  ∃ a u, t = a ++ u ∧ Opens C v u ∧ ∀ b, b <:+ a → b ≠ [] → ∀ v', ¬ Opens C v' (b ++ u)

end Text

namespace Pattern

open Text

/-- The pattern covers the texts of the kind, and a group holds what they state. -/
structure States (p : Pattern) (name : String) (C : List Char → List Char → Prop) : Prop where
  means : ∃ R, Means p R ∧ (∀ x g, R x [] g → ∃ v, g.lookup name = some v ∧ C v x) ∧
    ∀ v x, C v x → ∃ g, R x [] g
  unique : ∀ u v v', Opens C v u → Opens C v' u → v = v'

section
variable {C : List Char → List Char → Prop} {name : String} {size : Nat} {s : Place}

theorem States.opens (h : States p name C) (hs : s.groups = []) {m : Match}
    (hm : p.matchAt? size s = some m) : Opens C (m.group name) s.rest := by
  obtain ⟨R, hR, hstates, -⟩ := h.means
  obtain ⟨t, ht, rfl⟩ := exists_mem_ends_of_matchAt? hm
  obtain ⟨x, hx, hRx⟩ := (hR size s t.rest t.texts).1 ⟨t, ht, rfl, rfl⟩
  rw [show s.texts = [] by rw [Place.texts, hs]; rfl] at hRx
  obtain ⟨v, hv, hC⟩ := hstates x t.texts hRx
  rw [Place.texts, Place.lookup_texts] at hv
  refine ⟨x, t.rest, ?_, hx⟩
  rwa [Match.group, Match.group?, hv]

theorem States.matchAt?_eq_none_iff (h : States p name C) (hs : s.groups = []) :
    p.matchAt? size s = none ↔ ∀ v, ¬ Opens C v s.rest := by
  constructor
  · rintro hnone v ⟨x, r, hx, hrest⟩
    obtain ⟨R, hR, -, hcovers⟩ := h.means
    obtain ⟨g, hg⟩ := hcovers v x hx
    obtain ⟨t, ht, -⟩ := (hR size s r g).2 ⟨x, hrest, by rwa [Place.texts, hs]⟩
    rw [Pattern.matchAt?_eq_none_iff.1 hnone] at ht
    cases ht
  · intro hnowhere
    rw [← Option.not_isSome_iff_eq_none, Option.isSome_iff_exists]
    rintro ⟨m, hm⟩
    exact hnowhere _ (h.opens hs hm)

/-- Nothing starts behind a text exactly if no text of the kind stands there. -/
theorem States.matchAt?_behind_eq_none_iff (h : States p name C) (a u : List Char) :
    p.matchAt? (a ++ u).length ((Place.ofText (a ++ u)).move a.length) = none ↔
      ∀ v, ¬ Opens C v u := by
  rw [h.matchAt?_eq_none_iff (Place.groups_move _ _), Place.rest_move_ofText]

/-- **No match.** There is none exactly if no text of the kind stands anywhere. -/
theorem States.find?_eq_none_iff (h : States p name C) {t : List Char} :
    p.find? t = none ↔ ∀ a u v, t = a ++ u → ¬ Opens C v u := by
  rw [Pattern.find?_eq_none_iff]
  constructor
  · rintro hnone a u v rfl
    have hends := hnone a.length (by rw [List.length_append]; omega)
    exact (h.matchAt?_behind_eq_none_iff a u).1 (Pattern.matchAt?_eq_none_iff.2 hends) v
  · intro hnowhere n hn
    obtain ⟨a, u, rfl, rfl⟩ := exists_append_of_le hn
    exact Pattern.matchAt?_eq_none_iff.1
      ((h.matchAt?_behind_eq_none_iff a u).2 fun v => hnowhere a u v rfl)

/-- **The first match.** It is the first text of the kind, and its group holds what that states. -/
theorem States.find?_iff (h : States p name C) {v t : List Char} :
    (∃ m, p.find? t = some m ∧ m.group name = v) ↔ FirstStates C v t := by
  have hnone := h.matchAt?_behind_eq_none_iff
  rw [find?_eq_findSome?]
  constructor
  · rintro ⟨m, hm, rfl⟩
    obtain ⟨n, hn, hmatch, hbefore⟩ := exists_first_of_findSome?_range hm
    obtain ⟨a, u, rfl, rfl⟩ := exists_append_of_le (Nat.lt_succ_iff.1 hn)
    have hopens := h.opens (Place.groups_move _ _) hmatch
    rw [Place.rest_move_ofText] at hopens
    refine ⟨a, u, rfl, hopens, ?_⟩
    rintro b ⟨c, rfl⟩ hb
    have hearlier := hbefore c.length (by simp [List.length_pos_iff.2 hb])
    rw [List.append_assoc] at hearlier
    exact (hnone c (b ++ u)).1 hearlier
  · rintro ⟨a, u, rfl, hv, hfirst⟩
    cases hm : p.matchAt? (a ++ u).length ((Place.ofText (a ++ u)).move a.length) with
    | none => exact absurd hv ((hnone a u).1 hm v)
    | some m =>
        have hopens := h.opens (Place.groups_move _ _) hm
        rw [Place.rest_move_ofText] at hopens
        refine ⟨m, findSome?_range_of_first (by rw [List.length_append]; omega) (fun i hi => ?_) hm,
          h.unique u _ _ hopens hv⟩
        obtain ⟨c, b, rfl, rfl⟩ := exists_append_of_le (Nat.le_of_lt hi)
        have hb : b ≠ [] := by
          rintro rfl
          simp at hi
        rw [List.append_assoc]
        exact (hnone c (b ++ u)).2 (hfirst b (List.suffix_append c b) hb)

end

end Pattern

end NaslLint
