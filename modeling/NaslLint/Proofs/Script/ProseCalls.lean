import NaslLint.Checks.Prose
import NaslLint.Proofs.Script.Calls

/-!
# The calls that are found

The search for the tags that hold prose finds calls, whatever they are written like. `ProseCall` says
what such a call looks like when it is cut at its value, and `exists_proseCall` that every match is
one.

* What stands in front of a value holds no separator, no closing bracket and no second opening.
* Behind at least one character, a value ends where a call can end for the first time.
* `ProseCall.eq_nil_of_end` says that nothing of a call stands behind an end of a call, unless its
  value begins with one.
-/

namespace NaslLint

namespace Pattern

theorem exists_head?_of_flatMap {α β : Type} {l : List α} {f : α → List β} {b : β}
    (h : (l.flatMap f).head? = some b) : ∃ a ∈ l, (f a).head? = some b := by
  rw [List.head?_flatMap] at h
  exact List.exists_of_findSome?_eq_some h

end Pattern

namespace Text

/-- A character that the first part of a text does not hold stands behind that part. -/
theorem exists_append_of_not_mem {a b c e : List Char} {d : Char} (hd : d ∉ a)
    (h : a ++ b = c ++ d :: e) : ∃ x, c = a ++ x ∧ b = x ++ d :: e := by
  rcases List.append_eq_append_iff.1 h with ⟨x, rfl, hb⟩ | ⟨x, rfl, hx⟩
  · exact ⟨x, rfl, hb⟩
  · rcases x with _ | ⟨d', x⟩
    · exact ⟨[], by simp, by simpa using hx.symm⟩
    · obtain ⟨rfl, -⟩ := List.cons.inj hx
      exact absurd (by simp) hd

/-- A character that the last part of a text does not hold stands in front of that part. -/
theorem exists_append_of_not_mem_right {a b c e : List Char} {d : Char} (hd : d ∉ b)
    (h : a ++ b = c ++ d :: e) : ∃ x, a = c ++ d :: x := by
  rcases List.append_eq_append_iff.1 h with ⟨x, rfl, hb⟩ | ⟨x, rfl, hx⟩
  · exact absurd (by rw [hb]; simp) hd
  · rcases x with _ | ⟨d', x⟩
    · rw [List.nil_append] at hx
      exact absurd (by rw [← hx]; simp) hd
    · obtain ⟨rfl, -⟩ := List.cons.inj hx
      exact ⟨x, rfl⟩

/-- A character that the last part of a text holds at its end only stands in front of that part, if
it is not the last one. -/
theorem exists_append_of_not_last {a k c e : List Char} {d : Char} (hd : d ∉ k) (he : e ≠ [])
    (h : a ++ (k ++ [d]) = c ++ d :: e) : ∃ x, a = c ++ d :: x := by
  obtain rfl | ⟨e, last, rfl⟩ := List.eq_nil_or_concat' e
  · exact absurd rfl he
  rw [← List.append_assoc, ← List.cons_append, ← List.append_assoc] at h
  exact exists_append_of_not_mem_right hd (List.append_inj' h rfl).1

end Text

namespace Script

open Pattern Text Checks

/-! ## Where a call ends -/

def EndsCall (z : List Char) : Prop :=
  ∃ ws ws' r, z = ws ++ ')' :: (ws' ++ ';' :: r) ∧ (∀ c ∈ ws, isBlank c = true) ∧
    ∀ c ∈ ws', isBlank c = true

/-- A text in which a call ends behind the first character. -/
def EndsLater (z : List Char) : Prop :=
  ∃ x e, z = x ++ e ∧ x ≠ [] ∧ EndsCall e

section
variable {size : Nat} {s : Place} {z : List Char}

theorem EndsCall.append (h : EndsCall z) (r : List Char) : EndsCall (z ++ r) := by
  obtain ⟨ws, ws', r', rfl, hws, hws'⟩ := h
  exact ⟨ws, ws', r' ++ r, by simp, hws, hws'⟩

theorem EndsLater.append_left (h : EndsLater z) (y : List Char) : EndsLater (y ++ z) := by
  obtain ⟨x, e, rfl, hx, he⟩ := h
  exact ⟨y ++ x, e, by simp, by simp [hx], he⟩

theorem EndsLater.append_right (h : EndsLater z) (r : List Char) : EndsLater (z ++ r) := by
  obtain ⟨x, e, rfl, hx, he⟩ := h
  exact ⟨x, e ++ r, by simp, hx, he.append r⟩

theorem EndsCall.exists_mem_ends (h : EndsCall s.rest) (size : Nat) :
    ∃ e, e ∈ valueClose.ends size s := by
  obtain ⟨ws, ws', r, hr, hws, hws'⟩ := h
  refine ⟨_, mem_ends_seq.2 ⟨s, ?_, mem_ends_callEnd.2 ⟨ws, ws', r, hr, hws, hws', rfl⟩⟩⟩
  rw [ends_optional]
  exact List.mem_append_right _ (List.mem_singleton_self s)

end

/-! ## In front of a value -/

/-- What a pattern for prose takes in between the opening of a call and its value. -/
abbrev beforeProse : List Pattern :=
  [label "name", .group "quote" quoteChar,
    .group "name" (.oneOf ["summary", "impact", "affected", "insight", "vuldetect", "solution"]),
    .again "quote", .blanks, ",", label "value", .optional (.group "quote2" quoteChar)]

theorem commonTags_eq_chain : commonTags = .seq (.word tagOpening)
    (chain (beforeProse ++ [.group "value" shortText, .optional (.again "quote2"), callEnd])) := rfl

/-- The characters that are not used around values: separators and brackets. -/
def marks : List Char :=
  ['|', '=', ';', '(', ')']

theorem not_mem_marks_of_mem_marks {d : Char} (hd : d ∈ marks) :
    isBlank d = false ∧ ¬ IsQuote d ∧ d.isAlpha = false ∧ d ≠ ':' ∧ d ≠ ',' := by
  have hall : marks.all (fun d => decide (isBlank d = false ∧ ¬ IsQuote d ∧ d.isAlpha = false ∧
      d ≠ ':' ∧ d ≠ ',')) = true := by decide
  exact of_decide_eq_true (List.all_eq_true.1 hall d hd)

theorem mem_marks_of_isSeparator {c : Char} (h : isSeparator c = true) : c ∈ marks := by
  simp only [isSeparator, Bool.or_eq_true, beq_iff_eq] at h
  rcases h with (rfl | rfl) | rfl <;> decide

theorem usesOnly_beforeProse {d : Char} (hd : d ∈ marks) :
    ∀ p ∈ beforeProse, p.UsesOnly (· ≠ d) (· ≠ "value") := by
  obtain ⟨hblank, hquote, halpha, hcolon, hcomma⟩ := not_mem_marks_of_mem_marks hd
  have hletters {w : String} (hw : w.toList.all Char.isAlpha = true) : d ∉ w.toList := by
    intro hmem
    have := List.all_eq_true.1 hw d hmem
    rw [halpha] at this
    exact Bool.noConfusion this
  have hword {w : String} (hw : w.toList.all Char.isAlpha = true) :
      (w : Pattern).UsesOnly (· ≠ d) (· ≠ "value") :=
    usesOnly_word (hletters hw)
  have hlabel {w : String} (hw : w.toList.all Char.isAlpha = true) :
      (label w).UsesOnly (· ≠ d) (· ≠ "value") :=
    usesOnly_label hblank (hletters hw) hcolon
  have hblanks : blanks.UsesOnly (· ≠ d) (· ≠ "value") := usesOnly_blanks hblank
  have hquoted : quoteChar.UsesOnly (· ≠ d) (· ≠ "value") := usesOnly_quoteChar hquote
  have hagain : (again "quote").UsesOnly (· ≠ d) (· ≠ "value") := by
    show "quote" ≠ "value"
    decide
  have hcomma' : (("," : String) : Pattern).UsesOnly (· ≠ d) (· ≠ "value") :=
    usesOnly_word (by simpa using hcomma)
  have hnames : (oneOf ["summary", "impact", "affected", "insight", "vuldetect",
      "solution"]).UsesOnly (· ≠ d) (· ≠ "value") := by
    refine usesOnly_oneOf ?_
    simp only [List.forall_mem_cons]
    exact ⟨hword (by decide), hword (by decide), hword (by decide), hword (by decide),
      hword (by decide), hword (by decide), by simp⟩
  simp only [beforeProse, List.forall_mem_cons]
  exact ⟨hlabel (by decide), hquoted, hnames, hagain, hblanks, hcomma', hlabel (by decide), hquoted,
    by simp⟩

/-- The characters right in front of a value are no letters. -/
theorem exists_ending_of_spells {x : List Char} (h : (chain beforeProse).Spells x) :
    ∃ l y, x = l ++ y ∧ y ≠ [] ∧ ∀ c ∈ y, c ∉ tagOpening := by
  have hopening {c : Char} (hc : c = ':' ∨ isBlank c = true ∨ IsQuote c) : c ∉ tagOpening := by
    intro hmem
    have hall : tagOpening.all (fun c => decide (¬ (c = ':' ∨ isBlank c = true ∨ IsQuote c))) =
        true := by decide
    exact of_decide_eq_true (List.all_eq_true.1 hall c hmem) hc
  obtain ⟨front, back, -, hback, rfl⟩ : ∃ y z, _ ∧ (chain [label "value",
      .optional (.group "quote2" quoteChar)]).Spells z ∧ x = y ++ z :=
    (spells_chain_append (show beforeProse.take 6 ≠ [] by simp) (by simp)).1 h
  obtain ⟨_, quote, ⟨b, _, -, ⟨_, _, rfl, ⟨b', _, -, ⟨_, b'', rfl, hb'', rfl⟩, rfl⟩, rfl⟩, rfl⟩,
    hquote, rfl⟩ := hback
  refine ⟨front ++ (b ++ ("value".toList ++ b')), ":".toList ++ (b'' ++ quote), by simp, by simp,
    fun c hc => hopening ?_⟩
  rcases List.mem_append.1 hc with hc | hc
  · exact .inl (by simpa using hc)
  rcases List.mem_append.1 hc with hc | hc
  · exact .inr (.inl (hb''.2.2 c hc))
  · rcases spells_optional.1 hquote with rfl | ⟨d, hd, rfl⟩
    · exact absurd hc List.not_mem_nil
    · rw [List.mem_singleton.1 hc]
      exact .inr (.inr hd)

/-! ## A call that is found -/

def beginsClosed (v : List Char) : Bool :=
  v.head? == some ')' && (v.tail.dropWhile isBlank).head? == some ';'

theorem beginsClosed_of_blank {ws r : List Char} (hws : ∀ c ∈ ws, isBlank c = true) :
    beginsClosed (')' :: (ws ++ ';' :: r)) = true := by
  have hdrop : (ws ++ ';' :: r).dropWhile isBlank = ';' :: r := by
    rw [List.dropWhile_append_of_pos hws, List.dropWhile_cons_of_neg (by decide)]
  rw [beginsClosed, List.tail_cons, hdrop]
  rfl

/-- A call with prose, cut at its value, in a text of `size` characters. -/
structure ProseCall (size : Nat) (lead value close : List Char) : Prop where
  opening : ∃ l, lead = tagOpening ++ l ∧ ∀ d ∈ marks, d ∉ l
  ending : ∃ l y, lead = l ++ y ∧ y ≠ [] ∧ ∀ c ∈ y, c ∉ tagOpening
  /-- The same words in front of anything else open a call, if one ends there. -/
  fits : ∀ (s : Place) (z : List Char), s.groups = [] → s.rest = lead ++ z → EndsLater z →
    commonTags.ends size s ≠ []
  value_ne_nil : value ≠ []
  /-- The value ends as soon as it can. -/
  first : ∀ x y, value = x ++ y → x ≠ [] → y ≠ [] → ¬ EndsCall (y ++ close)
  closing : ∃ q ws ws', close = q ++ (ws ++ ')' :: (ws' ++ [';'])) ∧ (∀ d ∈ marks, d ∉ q) ∧
    (∀ c ∈ ws, isBlank c = true) ∧ ∀ c ∈ ws', isBlank c = true

section
variable {size : Nat} {s a : Place} {m : Match}

/-- Words in front of a value open a call wherever one ends behind them. -/
theorem ends_ne_nil_of_lead {o : Place} {z : List Char} (ho : o.groups = [])
    (ha : a ∈ (chain beforeProse).ends size o) (hs : s.groups = [])
    (hr : s.rest = tagOpening ++ ((o.spanTo a).text ++ z)) (hz : EndsLater z) :
    commonTags.ends size s ≠ [] := by
  obtain ⟨x, e, rfl, hx, he⟩ := hz
  have hlike : Place.Alike a.rest (x ++ e) o (s.move tagOpening.length) := by
    refine ⟨⟨_, (leads_of_mem_ends ha).rest_eq, ?_⟩, ?_⟩
    · rw [Place.rest_move, hr, List.drop_left]
    · rw [Place.groups_move, ho, hs]
      exact .nil
  obtain ⟨a', ha', hrest, -⟩ :=
    carries_ends rfl (Nat.le_refl size) _ _ a hlike ha List.suffix_rfl
  obtain ⟨w, hw, hrest⟩ := hrest
  obtain rfl : w = [] := by simpa using hw
  obtain ⟨n, hn⟩ : ∃ n, x.length = n + 1 := ⟨x.length - 1, by
    have := List.length_pos_iff.2 hx
    omega⟩
  have hvalue : afterValue a' n ∈ (group "value" shortText).ends size a' := by
    refine mem_ends_group.2 ⟨a'.move (n + 1), ?_, rfl⟩
    exact mem_ends_run.2 ⟨x, e, hrest, by omega, by simp, by simp, by rw [hn]⟩
  have hclose : EndsCall (afterValue a' n).rest := by
    rw [afterValue, Place.rest_fill, Place.rest_move, hrest, List.nil_append, ← hn, List.drop_left]
    exact he
  obtain ⟨t, ht⟩ := hclose.exists_mem_ends size
  refine List.ne_nil_of_mem (mem_ends_seq.2 ⟨s.move tagOpening.length,
    mem_ends_word.2 ⟨⟨_, hr.symm⟩, rfl⟩, ?_⟩ : t ∈ commonTags.ends size s)
  exact (mem_ends_chain_append (by simp) (by simp)).2 ⟨a', ha', mem_ends_seq.2 ⟨_, hvalue, ht⟩⟩

/-- The end of a call, as it is written. -/
theorem exists_text_of_mem_ends_callEnd {u e : Place} (h : e ∈ callEnd.ends size u) :
    ∃ ws ws', (u.spanTo e).text = ws ++ ')' :: (ws' ++ [';']) ∧ (∀ c ∈ ws, isBlank c = true) ∧
      ∀ c ∈ ws', isBlank c = true := by
  obtain ⟨ws, ws', r, hr, hws, hws', rfl⟩ := mem_ends_callEnd.1 h
  have hlen : ws.length + 1 + ws'.length + 1 = (ws ++ ')' :: (ws' ++ [';'])).length := by
    simp
    omega
  refine ⟨ws, ws', ?_, hws, hws'⟩
  rw [hlen]
  exact Place.spanTo_move_text_of_rest (r := r) (by rw [hr]; simp)

/-- The stops of a search that finds a call at `s`: the words in front of the value lead to `a`, the
value has `n + 1` characters, its quote leads to `u` and the end of the call to `e`. Behind fewer
characters of the value a call cannot close. -/
structure ProseStops (size : Nat) (s a u e : Place) (n : Nat) : Prop where
  opening : tagOpening <+: s.rest
  lead : a ∈ (chain beforeProse).ends size (s.move tagOpening.length)
  value_lt : n < a.rest.length
  quote : u ∈ (optional (again "quote2")).ends size (afterValue a n)
  close : e ∈ callEnd.ends size u
  first : ∀ k < n, valueClose.ends size (afterValue a k) = []

theorem exists_proseStops (hm : commonTags.matchAt? size s = some m) :
    ∃ a u e n, ProseStops size s a u e n ∧ m = ⟨s.spanTo e, e.groups⟩ := by
  rw [matchAt?_eq_head?] at hm
  obtain ⟨e, he, rfl⟩ := Option.map_eq_some_iff.1 hm
  rw [commonTags_eq_chain, ends] at he
  obtain ⟨o, ho, hchain⟩ := exists_head?_of_flatMap he
  rw [ends_chain_append (by simp) (by simp)] at hchain
  obtain ⟨a, ha, htail⟩ := exists_head?_of_flatMap hchain
  obtain ⟨hopening, rfl⟩ := mem_ends_word.1 ho
  -- the value is the shortest behind which the call can close
  have hvalues : ((seq (group "value" shortText) valueClose).ends size a).head? = some e := htail
  rw [ends_value, List.head?_flatMap] at hvalues
  obtain ⟨n, hn, hend, hfirst⟩ := exists_first_of_findSome?_range hvalues
  obtain ⟨u, hu, hclose⟩ := mem_ends_seq.1 (List.mem_of_mem_head? hend)
  exact ⟨a, u, e, n, ⟨hopening, ha, hn, hu, hclose,
    fun k hk => List.head?_eq_none_iff.1 (hfirst k hk)⟩, rfl⟩

namespace ProseStops
variable {u e : Place} {n : Nat}

theorem leads_value (h : ProseStops size s a u e n) : a.Leads (afterValue a n) :=
  (Place.Leads.move (by have := h.value_lt; omega)).fill

theorem text_opening (h : ProseStops size s a u e n) :
    (s.spanTo (s.move tagOpening.length)).text = tagOpening := by
  obtain ⟨r, hr⟩ := h.opening
  exact Place.spanTo_move_text_of_rest hr.symm

theorem leads_opening (h : ProseStops size s a u e n) : s.Leads (s.move tagOpening.length) :=
  .move h.opening.length_le

theorem text_value (h : ProseStops size s a u e n) :
    (a.spanTo (a.move (n + 1))).text = a.rest.take (n + 1) :=
  Place.spanTo_move_text (by have := h.value_lt; omega)

/-- The text of a call, cut at the stops. -/
theorem text_eq (h : ProseStops size s a u e n) :
    (s.spanTo e).text = (tagOpening ++ ((s.move tagOpening.length).spanTo a).text) ++
      (a.rest.take (n + 1) ++ (((afterValue a n).spanTo u).text ++ (u.spanTo e).text)) := by
  have hlead := leads_of_mem_ends h.lead
  have hquote := leads_of_mem_ends h.quote
  have hclose := leads_of_mem_ends h.close
  rw [h.leads_opening.spanTo_text_append (hlead.trans (h.leads_value.trans (hquote.trans hclose))),
    hlead.spanTo_text_append (h.leads_value.trans (hquote.trans hclose)),
    h.leads_value.spanTo_text_append (hquote.trans hclose), hquote.spanTo_text_append hclose,
    h.text_opening, ← h.text_value, List.append_assoc]
  rfl

/-- Marks stand neither in front of the value nor in its closing quote. -/
theorem not_mem_of_mem_marks (h : ProseStops size s a u e n) (hs : s.groups = []) {d : Char}
    (hd : d ∈ marks) : d ∉ ((s.move tagOpening.length).spanTo a).text ∧
      d ∉ ((afterValue a n).spanTo u).text := by
  obtain ⟨hx, hfilled⟩ := (keepsTo_of_mem_ends (usesOnly_chain (usesOnly_beforeProse hd)) h.lead).2
    (by rw [Place.groups_move, hs]; simp)
  have hagain : (optional (again "quote2")).UsesOnly (· ≠ d) (· ≠ "value") := by
    show "quote2" ≠ "value"
    decide
  obtain ⟨hq, -⟩ := (keepsTo_of_mem_ends hagain h.quote).2 (by simpa [afterValue] using hfilled)
  exact ⟨fun hmem => hx d hmem rfl, fun hmem => hq d hmem rfl⟩

/-- No call ends behind a shorter part of the value. -/
theorem not_endsCall (h : ProseStops size s a u e n) {x y : List Char}
    (hxy : a.rest.take (n + 1) = x ++ y) (hx : x ≠ []) (hy : y ≠ []) :
    ¬ EndsCall (y ++ (((afterValue a n).spanTo u).text ++ (u.spanTo e).text)) := by
  intro hends
  have hlen := congrArg List.length hxy
  rw [List.length_take, List.length_append] at hlen
  have hxpos := List.length_pos_iff.2 hx
  have hypos := List.length_pos_iff.2 hy
  have hrest : a.rest = x ++ ((y ++ (((afterValue a n).spanTo u).text ++ (u.spanTo e).text)) ++
      e.rest) := by
    conv_lhs => rw [h.leads_value.rest_eq, (leads_of_mem_ends h.quote).rest_eq,
      (leads_of_mem_ends h.close).rest_eq]
    have hvalue : (a.spanTo (afterValue a n)).text = x ++ y := h.text_value.trans hxy
    rw [hvalue]
    simp
  have hshort : EndsCall (afterValue a (x.length - 1)).rest := by
    rw [afterValue, Place.rest_fill, Place.rest_move, Nat.sub_add_cancel hxpos, hrest,
      List.drop_left]
    exact hends.append _
  obtain ⟨t, ht⟩ := hshort.exists_mem_ends size
  rw [h.first (x.length - 1) (by omega)] at ht
  exact absurd ht List.not_mem_nil

theorem lookup_value (h : ProseStops size s a u e n) :
    e.groups.lookup "value" = some (a.spanTo (a.move (n + 1))) := by
  rw [groups_eq_of_mem_ends rfl h.close, groups_eq_of_mem_ends rfl h.quote]
  simp [afterValue]

end ProseStops

/-- **What is found is a call.** -/
theorem exists_proseCall (hs : s.groups = []) (hm : commonTags.matchAt? size s = some m) :
    ∃ lead value close span, ProseCall size lead value close ∧ m.text = lead ++ (value ++ close) ∧
      m.groups.lookup "value" = some span ∧ span.text = value ∧
      span.start = m.start + lead.length ∧ span.stop = span.start + value.length := by
  obtain ⟨a, u, e, n, h, rfl⟩ := exists_proseStops hm
  obtain ⟨ws, ws', hend, hws, hws'⟩ := exists_text_of_mem_ends_callEnd h.close
  have hvalue := h.value_lt
  refine ⟨tagOpening ++ ((s.move tagOpening.length).spanTo a).text, a.rest.take (n + 1),
    ((afterValue a n).spanTo u).text ++ (u.spanTo e).text, a.spanTo (a.move (n + 1)),
    ⟨⟨_, rfl, fun d hd => (h.not_mem_of_mem_marks hs hd).1⟩, ?_, ?_, ?_, ?_, ?_⟩, h.text_eq,
    h.lookup_value, h.text_value, ?_, ?_⟩
  · obtain ⟨l, y, hy, hne, hout⟩ := exists_ending_of_spells (spells_of_mem_ends h.lead)
    exact ⟨tagOpening ++ l, y, by rw [hy, List.append_assoc], hne, hout⟩
  · intro s' z hs' hr' hz
    exact ends_ne_nil_of_lead (by rw [Place.groups_move, hs]) h.lead hs'
      (by rw [hr', List.append_assoc]) hz
  · rw [← List.length_pos_iff, List.length_take]
    omega
  · intro x y hxy hx hy
    exact h.not_endsCall hxy hx hy
  · exact ⟨_, ws, ws', by rw [hend], fun d hd => (h.not_mem_of_mem_marks hs hd).2, hws, hws'⟩
  · show a.pos = s.pos + _
    rw [(leads_of_mem_ends h.lead).pos_eq, h.leads_opening.pos_eq, h.text_opening,
      List.length_append]
    omega
  · show (a.move (n + 1)).pos = a.pos + _
    rw [Place.pos_move (by omega), List.length_take]
    omega

end

namespace ProseCall

variable {size : Nat} {lead value close : List Char}

theorem not_mem_lead (h : ProseCall size lead value close) {d : Char} (hd : d ∈ marks)
    (hne : d ∉ tagOpening) : d ∉ lead := by
  obtain ⟨l, rfl, hl⟩ := h.opening
  intro hmem
  rcases List.mem_append.1 hmem with hmem | hmem
  · exact hne hmem
  · exact hl d hd hmem

/-- The semicolon of a call ends it, and no separator stands between the value and it. -/
theorem exists_close_eq (h : ProseCall size lead value close) :
    ∃ k, close = k ++ [';'] ∧ ∀ c ∈ k, isSeparator c = false := by
  obtain ⟨q, ws, ws', rfl, hq, hws, hws'⟩ := h.closing
  refine ⟨q ++ (ws ++ ')' :: ws'), by simp, fun c hc => ?_⟩
  have hblank (hc : isBlank c = true) : isSeparator c = false := by
    by_contra hsep
    rw [Bool.not_eq_false] at hsep
    exact absurd hc (by rw [(not_mem_marks_of_mem_marks (mem_marks_of_isSeparator hsep)).1]; simp)
  rcases List.mem_append.1 hc with hc | hc
  · by_contra hsep
    rw [Bool.not_eq_false] at hsep
    exact hq c (mem_marks_of_isSeparator hsep) hc
  rcases List.mem_append.1 hc with hc | hc
  · exact hblank (hws c hc)
  rcases List.mem_cons.1 hc with rfl | hc
  · decide
  · exact hblank (hws' c hc)

/-- **Nothing of a call stands behind an end of a call**, unless its value begins with one. -/
theorem eq_nil_of_end (h : ProseCall size lead value close) (hbegins : beginsClosed value = false)
    {y ws r : List Char} (hws : ∀ c ∈ ws, isBlank c = true)
    (heq : lead ++ (value ++ close) = y ++ ')' :: (ws ++ ';' :: r)) : r = [] := by
  by_contra hr
  obtain ⟨k, hk, hclean⟩ := h.exists_close_eq
  have hsemicolon : ';' ∉ k := fun hmem => absurd (hclean _ hmem) (by decide)
  obtain ⟨x, -, hx⟩ := exists_append_of_not_mem (h.not_mem_lead (by decide) (by decide)) heq
  -- the semicolon is not the last character, so it belongs to the value
  obtain ⟨v, hv⟩ : ∃ v, value = (x ++ ')' :: ws) ++ ';' :: v := by
    refine exists_append_of_not_last hsemicolon hr ?_
    rw [← hk, hx]
    simp
  rw [List.append_assoc, List.cons_append] at hv
  by_cases hnil : x = []
  · rw [hnil, List.nil_append] at hv
    rw [hv, beginsClosed_of_blank hws] at hbegins
    exact Bool.noConfusion hbegins
  · refine h.first x _ hv hnil (by simp) ⟨[], ws, v ++ close, by simp, by simp, hws⟩

theorem endsLater (h : ProseCall size lead value close) : EndsLater (value ++ close) := by
  obtain ⟨q, ws, ws', rfl, -, hws, hws'⟩ := h.closing
  refine ⟨value ++ q, ws ++ ')' :: (ws' ++ [';']), by simp, by simp [h.value_ne_nil], ?_⟩
  exact ⟨ws, ws', [], rfl, hws, hws'⟩

/-- What stands in front of a value does not reach into the opening of another call. -/
theorem lead_prefix (h : ProseCall size lead value close) {y z : List Char} (hy : y ≠ [])
    (hz : tagOpening <+: z) (hlead : lead <+: y ++ z) : lead <+: y := by
  obtain ⟨w, hw⟩ := hlead
  rcases List.append_eq_append_iff.1 hw with ⟨x, rfl, -⟩ | ⟨x, hx, rfl⟩
  · exact List.prefix_append _ _
  by_cases hnil : x = []
  · exact ⟨[], by rw [hx, hnil, List.append_nil, List.append_nil]⟩
  obtain ⟨v, hv⟩ := hz
  rcases List.append_eq_append_iff.1 hv with ⟨u, rfl, -⟩ | ⟨u, hu, -⟩
  · -- the bracket of the other opening would be a second one
    obtain ⟨l, hl, hmarks⟩ := h.opening
    have hbracket : tagOpening = "script_tag".toList ++ ['('] := by decide
    have hcut : tagOpening ++ l = (y ++ "script_tag".toList) ++ '(' :: u := by
      rw [← hl, hx, hbracket]
      simp
    obtain ⟨v, hv⟩ := exists_append_of_not_mem_right (hmarks '(' (by decide)) hcut
    have hlen := congrArg List.length hv
    have hpos := List.length_pos_iff.2 hy
    have heleven : tagOpening.length = 11 := by decide
    have hten : "script_tag".toList.length = 10 := by decide
    simp only [List.length_append, List.length_cons, heleven, hten] at hlen
    omega
  · -- the last character in front of a value is none of an opening
    obtain ⟨l, b, hl, hb, hout⟩ := h.ending
    have hlast : x.getLast? = b.getLast? := by
      rw [← List.getLast?_append_of_ne_nil y hnil, ← List.getLast?_append_of_ne_nil l hb, ← hx, hl]
    have hmem : b.getLast hb ∈ x := by
      rw [List.getLast?_eq_some_getLast hb] at hlast
      exact List.mem_of_getLast? hlast
    refine absurd ?_ (hout _ (List.getLast_mem hb))
    rw [hu]
    exact List.mem_append_left _ hmem

end ProseCall

end Script

end NaslLint
