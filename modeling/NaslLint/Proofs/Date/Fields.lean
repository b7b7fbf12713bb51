import NaslLint.Proofs.Date.Reading

/-!
# Dates and the texts of their parts

A date is read part by part. What is read depends on the texts of the parts alone:

* `DateFormat.read?_eq_some_iff` says when a text is read as a time;
* `DateFormat.exists_texts_of_read?` cuts a text that is read into the texts of its parts;
* `DateFormat.Taken` says that texts are taken by the parts of a format one after the other, and
  `DateFormat.Taken.read?_eq_some` what is read from them.
-/

namespace NaslLint

open Pattern

/-! ## Texts of numbers -/

namespace Pattern
variable {p q : Pattern}

/-- The pattern spells digits, at least one. -/
def Digital (p : Pattern) : Prop :=
  ∀ y, p.Spells y → y ≠ [] ∧ ∀ c ∈ y, Text.isDigit c = true

theorem Digital.seq (hp : Digital p) (hq : Digital q) : Digital (seq p q) := by
  rintro _ ⟨y, z, hy, hz, rfl⟩
  refine ⟨List.append_ne_nil_of_left_ne_nil (hp y hy).1 z, ?_⟩
  intro c hc
  rcases List.mem_append.1 hc with hc | hc
  · exact (hp y hy).2 c hc
  · exact (hq z hz).2 c hc

theorem Digital.alt (hp : Digital p) (hq : Digital q) : Digital (alt p q) := by
  rintro y (hy | hy)
  · exact hp y hy
  · exact hq y hy

theorem digital_word {w : List Char} (hne : w ≠ []) (hw : w.all Text.isDigit = true) :
    Digital (word w) := by
  rintro _ rfl
  exact ⟨hne, List.all_eq_true.1 hw⟩

theorem digital_anyDigit : Digital DatePart.anyDigit := by
  rintro _ ⟨c, hc, rfl⟩
  exact ⟨by simp, List.forall_mem_singleton.2 hc⟩

theorem digital_digitFrom {lo hi : Char} (hlo : '0' ≤ lo) (hhi : hi ≤ '9') :
    Digital (DatePart.digitFrom lo hi) := by
  rintro _ ⟨c, hc, rfl⟩
  rw [Bool.and_eq_true, decide_eq_true_eq, decide_eq_true_eq] at hc
  refine ⟨by simp, List.forall_mem_singleton.2 (Text.isDigit_of_toNat ?_ ?_)⟩
  · exact Nat.le_trans (m := lo.toNat) hlo hc.1
  · exact Nat.le_trans (m := hi.toNat) hc.2 hhi

end Pattern

namespace DatePart

/-- A number is read from digits. Only a day may have a space in the place of its first digit. -/
theorem digits_of_spells {p : DatePart} {y : List Char} (hp : p.isNumber = true)
    (h : p.pattern.Spells y) : (y ≠ [] ∧ ∀ c ∈ y, Text.isDigit c = true) ∨
      p = day ∧ ∃ d, Text.isDigit d = true ∧ y = [' ', d] := by
  have hword (c : Char) (hc : Text.isDigit c = true) : Digital (word [c]) :=
    digital_word (by simp) (by simpa using hc)
  have hfrom {lo hi : Char} (hlo : '0' ≤ lo) (hhi : hi ≤ '9') := digital_digitFrom hlo hhi
  have hany := digital_anyDigit
  cases p with
  | year => exact .inl ((hany.seq (hany.seq (hany.seq hany))) y h)
  | month =>
      exact .inl ((((hword '1' (by decide)).seq (hfrom (by decide) (by decide))).alt
        (((hword '0' (by decide)).seq (hfrom (by decide) (by decide))).alt
          (hfrom (by decide) (by decide)))) y h)
  | day =>
      rcases h with h | h | h | h | h
      · exact .inl (((hword '3' (by decide)).seq (hfrom (by decide) (by decide))) y h)
      · exact .inl (((hfrom (by decide) (by decide)).seq hany) y h)
      · exact .inl (((hword '0' (by decide)).seq (hfrom (by decide) (by decide))) y h)
      · exact .inl (hfrom (by decide) (by decide) y h)
      · obtain ⟨_, z, rfl, hz, rfl⟩ := h
        have hdigit := (hfrom (by decide) (by decide) z hz).2
        obtain ⟨d, -, rfl⟩ := hz
        exact .inr ⟨rfl, d, hdigit d (by simp), rfl⟩
  | hour =>
      exact .inl ((((hword '2' (by decide)).seq (hfrom (by decide) (by decide))).alt
        (((hfrom (by decide) (by decide)).seq hany).alt hany)) y h)
  | minute => exact .inl ((((hfrom (by decide) (by decide)).seq hany).alt hany) y h)
  | second =>
      exact .inl ((((hword '6' (by decide)).seq (hfrom (by decide) (by decide))).alt
        (((hfrom (by decide) (by decide)).seq hany).alt hany)) y h)
  | _ => cases hp

end DatePart

namespace DateFormat
variable {f : DateFormat} {t : DateTime} {x : List Char} {xs : List (List Char)} {m : Match}

/-! ## What a match tells -/

theorem numberOf?_of_some {p : DatePart} {y : List Char} {default : Nat}
    (h : m.group? p.label = some y) : numberOf? m p default = Text.readNat? (Text.trim y) := by
  rw [numberOf?, h]

theorem numberOf?_of_none {p : DatePart} {default : Nat} (h : m.group? p.label = none) :
    numberOf? m p default = some default := by
  rw [numberOf?, h]

/-- The parts that a match holds are those of a time, and its offset and weekday exist. -/
structure Tells (m : Match) (t : DateTime) : Prop where
  year : numberOf? m .year 1900 = some t.year
  month : monthOf? m = some t.month
  day : numberOf? m .day 1 = some t.day
  hour : numberOf? m .hour 0 = some t.hour
  minute : numberOf? m .minute 0 = some t.minute
  second : numberOf? m .second 0 = some t.second
  possible : isPlausible m = true

theorem read?_eq_some_iff : f.read? x = some t ↔ ∃ m, f.pattern.matchStart? x = some m ∧
    m.stop = x.length ∧ Tells m t ∧ t.toDate.isValid = true ∧ t.second ≤ 59 := by
  rw [read?_eq]
  constructor
  · intro h
    obtain ⟨m, hm, h⟩ := Option.bind_eq_some_iff.1 h
    split at h
    · cases h
    rename_i hstop
    obtain ⟨month, hmonth, h⟩ := Option.bind_eq_some_iff.1 h
    obtain ⟨year, hyear, h⟩ := Option.bind_eq_some_iff.1 h
    obtain ⟨day, hday, h⟩ := Option.bind_eq_some_iff.1 h
    obtain ⟨hour, hhour, h⟩ := Option.bind_eq_some_iff.1 h
    obtain ⟨minute, hminute, h⟩ := Option.bind_eq_some_iff.1 h
    obtain ⟨second, hsecond, h⟩ := Option.bind_eq_some_iff.1 h
    split at h
    · rename_i hvalid
      obtain rfl := Option.some.inj h
      simp only [Bool.and_eq_true, decide_eq_true_eq] at hvalid
      exact ⟨m, hm, not_not.1 hstop, ⟨hyear, hmonth, hday, hhour, hminute, hsecond, hvalid.1⟩,
        hvalid.2.1, hvalid.2.2⟩
    · cases h
  · rintro ⟨m, hm, hstop, htells, hvalid, hsecond⟩
    rw [hm, Option.bind_some, if_neg (not_not_intro hstop), htells.month, htells.year, htells.day,
      htells.hour, htells.minute, htells.second]
    simp only [Option.bind_some, htells.possible, Bool.true_and]
    rw [if_pos]
    rw [Bool.and_eq_true, decide_eq_true_eq]
    exact ⟨hvalid, hsecond⟩

/-! ## Cutting a text into parts -/

/-- Texts under the labels of the parts that they are for, the latest first. -/
def labelled (f : DateFormat) (xs : List (List Char)) :
    List (String × List Char) :=
  ((f.map DatePart.label).zip xs).reverse

theorem labelled_cons (p : DatePart) (f : DateFormat) (y : List Char) (xs : List (List Char)) :
    labelled (p :: f) (y :: xs) = labelled f xs ++ [(p.label, y)] := by
  simp [labelled]

theorem lookup_labelled_eq_none {p : DatePart} (hp : p.isField = true) (hnot : p ∉ f)
    (xs : List (List Char)) : (labelled f xs).lookup p.label = none := by
  rw [List.lookup_eq_none_iff]
  intro e he
  have hmem : e ∈ (f.map DatePart.label).zip xs := List.mem_reverse.1 he
  obtain ⟨q, hq, hlabel⟩ := List.mem_map.1 (List.of_mem_zip hmem).1
  rw [bne_iff_ne]
  intro heq
  obtain rfl := DatePart.eq_of_label_eq hp (hlabel.trans heq.symm)
  exact hnot hq

/-- Each text is found under the label of its part, if no other part has that label. -/
theorem lookup_labelled {p : DatePart} {y : List Char} (hp : p.isField = true)
    (hf : f.Pairwise fun p q => p.isField = true → p ≠ q) (h : (p, y) ∈ f.zip xs) :
    (labelled f xs).lookup p.label = some y := by
  induction f generalizing xs with
  | nil => simp at h
  | cons q f ih =>
      obtain ⟨hq, hf⟩ := List.pairwise_cons.1 hf
      cases xs with
      | nil => simp at h
      | cons z xs =>
          rw [labelled_cons, List.lookup_append]
          rcases List.mem_cons.1 h with heq | h
          · obtain ⟨rfl, rfl⟩ := Prod.mk.inj heq
            have hnot : p ∉ f := fun hmem => hq p hmem hp rfl
            rw [lookup_labelled_eq_none hp hnot]
            simp
          · rw [ih hf h]
            rfl

theorem groupNames_pattern (p : DatePart) : p.pattern.groupNames = [] := by
  cases p <;> rfl

theorem pattern_cons (p q : DatePart) (f : DateFormat) :
    pattern (p :: q :: f) = .seq (.group p.label p.pattern) (pattern (q :: f)) := rfl

/-- On the way over a format each part covers a text that it spells. -/
theorem exists_texts_of_mem_ends {size : Nat} {s e : Place} (hf : f ≠ [])
    (h : e ∈ f.pattern.ends size s) :
    ∃ xs, List.Forall₂ (fun p y => p.pattern.Spells y) f xs ∧ s.rest = xs.flatten ++ e.rest ∧
      e.texts = labelled f xs ++ s.texts := by
  induction f generalizing s with
  | nil => exact absurd rfl hf
  | cons p f ih =>
      have hpart {u : Place} (hu : u ∈ (Pattern.group p.label p.pattern).ends size s) :
          ∃ y, p.pattern.Spells y ∧ s.rest = y ++ u.rest ∧ u.texts = (p.label, y) :: s.texts := by
        obtain ⟨v, hv, rfl⟩ := mem_ends_group.1 hu
        refine ⟨(s.spanTo v).text, spells_of_mem_ends hv, (leads_of_mem_ends hv).rest_eq, ?_⟩
        rw [Place.texts_fill, Place.texts, groups_eq_of_mem_ends (groupNames_pattern p) hv]
        rfl
      cases f with
      | nil =>
          obtain ⟨y, hy, hrest, htexts⟩ := hpart h
          refine ⟨[y], .cons hy .nil, by simpa using hrest, ?_⟩
          rw [htexts]
          rfl
      | cons q f =>
          rw [pattern_cons] at h
          obtain ⟨u, hu, he⟩ := mem_ends_seq.1 h
          obtain ⟨y, hy, hrest, htexts⟩ := hpart hu
          obtain ⟨xs, hxs, hrest', htexts'⟩ := ih (by simp) he
          refine ⟨y :: xs, .cons hy hxs, ?_, ?_⟩
          · rw [hrest, hrest', List.flatten_cons, List.append_assoc]
          · rw [htexts', htexts, labelled_cons, List.append_assoc]
            rfl

/-- **A text that is read** is made of texts for the parts of the format, and these tell the time. -/
theorem exists_texts_of_read? (hf : f ≠ []) (h : f.read? x = some t) :
    ∃ xs m, List.Forall₂ (fun p y => p.pattern.Spells y) f xs ∧ x = xs.flatten ∧
      (∀ name, m.group? name = (labelled f xs).lookup name) ∧ Tells m t ∧
      t.toDate.isValid = true ∧ t.second ≤ 59 := by
  obtain ⟨m, hm, hstop, htells, hvalid, hsecond⟩ := read?_eq_some_iff.1 h
  obtain ⟨e, he, rfl⟩ := exists_mem_ends_of_matchAt? hm
  obtain ⟨xs, hxs, hrest, htexts⟩ := exists_texts_of_mem_ends hf he
  refine ⟨xs, _, hxs, ?_, ?_, htells, hvalid, hsecond⟩
  · -- nothing is left behind the match
    have hpos : e.pos = (Place.ofText x).pos + ((Place.ofText x).spanTo e).text.length :=
      (leads_of_mem_ends he).pos_eq
    have htext : x = ((Place.ofText x).spanTo e).text ++ e.rest := (leads_of_mem_ends he).rest_eq
    have hlength := congrArg List.length htext
    have hstop' : e.pos = x.length := hstop
    have hzero : (Place.ofText x).pos = 0 := rfl
    rw [List.length_append] at hlength
    have hnil : e.rest = [] := List.length_eq_zero_iff.1 (by omega)
    rw [hnil, List.append_nil] at hrest
    exact hrest
  · intro name
    rw [Match.group?, ← Place.lookup_texts]
    change e.texts.lookup name = _
    rw [htexts]
    change (labelled f xs ++ []).lookup name = _
    rw [List.append_nil]

/-! ## Texts that are taken -/

/-- The parts of a format take these texts, one after the other. -/
inductive Taken : DateFormat → List (List Char) → Prop
  | nil : Taken [] []
  | cons {p : DatePart} {f : DateFormat} {y : List Char} {xs : List (List Char)}
      (hy : ∀ g, Takes p.pattern y xs.flatten g g) (hxs : Taken f xs) : Taken (p :: f) (y :: xs)

theorem Taken.takes (h : Taken f xs) (hf : f ≠ []) (g : List (String × List Char)) :
    Takes f.pattern xs.flatten [] g (labelled f xs ++ g) := by
  induction h generalizing g with
  | nil => exact absurd rfl hf
  | @cons p f y xs hy hxs ih =>
      have hpart : Takes (.group p.label p.pattern) y xs.flatten g ((p.label, y) :: g) := (hy g).group
      rw [labelled_cons, List.append_assoc, List.flatten_cons]
      cases f with
      | nil =>
          cases hxs
          rw [List.flatten_nil, List.append_nil]
          exact hpart
      | cons q f =>
          rw [pattern_cons]
          rw [← List.append_nil xs.flatten] at hpart
          exact hpart.seq (ih (by simp) ((p.label, y) :: g))

/-- **Texts that are taken** are read as the time that they tell, if there is such a time. -/
theorem Taken.read?_eq_some (h : Taken f xs) (hf : f ≠ [])
    (htells : ∀ m : Match, (∀ name, m.group? name = (labelled f xs).lookup name) → Tells m t)
    (hvalid : t.toDate.isValid = true) (hsecond : t.second ≤ 59) :
    f.read? xs.flatten = some t := by
  have htakes := h.takes hf []
  rw [List.append_nil] at htakes
  obtain ⟨m, hm, hcovers⟩ := htakes.matchStart?
  refine read?_eq_some_iff.2 ⟨m, hm, ?_, htells m hcovers.group?_eq, hvalid, hsecond⟩
  rw [hcovers.stop_eq, Nat.zero_add]

end DateFormat

end NaslLint
