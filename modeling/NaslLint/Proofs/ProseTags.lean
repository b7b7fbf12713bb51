import Mathlib.Data.List.TakeDrop
import Mathlib.Data.Nat.Find
import NaslLint.Proofs.Pattern.Search
import NaslLint.Proofs.Text
import NaslLint.Script.Tag

/-!
# The tags that hold prose

A script is text with calls `script_tag(name:"…", value:"…");` in it. The search for the tags that
hold prose finds each such call with one of the six names, in order and at its place, and nothing
else. The value it reports is the whole value, unless a closing bracket and a semicolon inside the
value look like the end of the call: then it is a part in front of that bracket.

* `TagCall` and `scriptText` build such texts, `callsAt` says where their calls stand.
* `ClosesEarly` says that a value looks finished before it is.
* `findAll_commonTags` is the main statement.
-/

namespace NaslLint.Script

open Pattern

/-! ## Scripts made of calls and other text -/

def tagOpening : List Char :=
  "script_tag(".toList

def proseNames : List String :=
  ["summary", "impact", "affected", "insight", "vuldetect", "solution"]

/-- A call that sets a tag: its name is a word, its value is not empty and opens no other call. -/
structure TagCall where
  name : List Char
  value : List Char
  name_word : ∀ c ∈ name, Text.isWord c = true
  value_ne_nil : value ≠ []
  value_plain : ¬ tagOpening <:+: value

/-- Text that opens no call. -/
abbrev PlainText : Type :=
  { t : List Char // ¬ tagOpening <:+: t }

namespace TagCall

def text (c : TagCall) : List Char :=
  tagOpening ++ ("name:\"".toList ++ (c.name ++ ("\", value:\"".toList ++
    (c.value ++ "\");".toList))))

def isProse (c : TagCall) : Bool :=
  proseNames.contains (String.ofList c.name)

end TagCall

def callsText (items : List (TagCall × PlainText)) : List Char :=
  items.flatMap fun item => item.1.text ++ item.2.1

/-- A script: some text, then calls with text behind each of them. -/
def scriptText (lead : PlainText) (items : List (TagCall × PlainText)) : List Char :=
  lead.1 ++ callsText items

/-- Calls with the positions at which they start, the first of them at `pos`. -/
def callsAt : Nat → List (TagCall × PlainText) → List (Nat × TagCall)
  | _, [] => []
  | pos, (c, t) :: more => (pos, c) :: callsAt (pos + c.text.length + t.1.length) more

/-- Behind at least one character of a value, a closing bracket is followed by a semicolon, with
nothing but blanks in between. -/
def ClosesEarly (value : List Char) : Prop :=
  ∃ a ws b, value = a ++ ')' :: (ws ++ ';' :: b) ∧ a ≠ [] ∧ ∀ c ∈ ws, Text.isBlank c = true

/-- A match tells where a call starts, its name, and its value or a part in front of a place at
which the value closes early. -/
structure Extracts (call : Nat × TagCall) (m : Match) : Prop where
  start_eq : m.start = call.1
  name_eq : m.group? "name" = some call.2.name
  value_eq : ∃ v, m.group? "value" = some v ∧ (v = call.2.value ↔ ¬ ClosesEarly call.2.value) ∧
    (ClosesEarly call.2.value → v <+: call.2.value ∧ v ≠ call.2.value)

/-! ## Where a call can open -/

theorem tagOpening_eq :
    tagOpening = ['s', 'c', 'r', 'i', 'p', 't', '_', 't', 'a', 'g', '('] := by
  show "script_tag(".toList = _
  simp

/-- Behind its first character a call opens no other one, and neither does the text behind it. -/
theorem not_tagOpening_infix_tail (c : TagCall) (t : PlainText) :
    ¬ tagOpening <:+: (c.text ++ t.1).tail := by
  -- cut at its quotes, its bracket and its semicolon, the call falls into parts without an opening
  have hquote : '"' ∉ tagOpening := by decide
  have htail : (c.text ++ t.1).tail =
      "cript_tag(name:".toList ++ '"' :: (c.name ++ '"' :: (", value:".toList ++
        '"' :: (c.value ++ '"' :: ([] ++ ')' :: ([] ++ ';' :: t.1))))) := by
    simp [TagCall.text, tagOpening_eq]
  rw [htail, Text.infix_append_cons_iff hquote, Text.infix_append_cons_iff hquote,
    Text.infix_append_cons_iff hquote, Text.infix_append_cons_iff hquote,
    Text.infix_append_cons_iff (by decide), Text.infix_append_cons_iff (by decide)]
  rintro (h | h | h | h | h | h | h)
  · exact Text.not_infix_of_contains (by decide) h
  · have hbracket : '(' ∈ c.name := h.subset (by decide)
    exact absurd (c.name_word _ hbracket) (by decide)
  · exact Text.not_infix_of_contains (by decide) h
  · exact c.value_plain h
  · exact Text.not_infix_of_contains (by decide) h
  · exact Text.not_infix_of_contains (by decide) h
  · exact t.2 h

/-! ## What closes a call -/

/-- The text behind a value: possibly a closing quote, then the end of the call. -/
def Closing (z : List Char) : Prop :=
  ∃ q ws ws', z = q ++ (ws ++ ')' :: (ws' ++ [';'])) ∧ (q = [] ∨ q = ['"']) ∧
    (∀ c ∈ ws, Text.isBlank c = true) ∧ ∀ c ∈ ws', Text.isBlank c = true

theorem not_blank_quote : Text.isBlank '"' = false := by decide

/-- Behind its first character, what closes a call holds no quote. -/
theorem Closing.not_mem_tail {z : List Char} {a : Char} (h : Closing (a :: z)) : '"' ∉ z := by
  obtain ⟨q, ws, ws', hz, hq, hws, hws'⟩ := h
  have hend : '"' ∉ ws ++ ')' :: (ws' ++ [';']) := by
    simp only [List.mem_append, List.mem_cons, List.not_mem_nil, or_false, not_or]
    refine ⟨fun hm => ?_, by decide, fun hm => ?_, by decide⟩
    · exact absurd (hws _ hm) (by rw [not_blank_quote]; simp)
    · exact absurd (hws' _ hm) (by rw [not_blank_quote]; simp)
  rcases hq with rfl | rfl
  · rw [List.nil_append] at hz
    rw [← hz] at hend
    exact fun hm => hend (List.mem_cons_of_mem _ hm)
  · obtain ⟨-, rfl⟩ : a = '"' ∧ z = ws ++ ')' :: (ws' ++ [';']) := by simpa using hz
    exact hend

/-- A value in front of the quote that ends it closes early only inside itself. -/
theorem Closing.prefix_of_append_quote {z r x y : List Char} (hz : Closing z) (hx : x ≠ [])
    (h : z ++ r = x ++ '"' :: y) : z <+: x := by
  rcases List.append_eq_append_iff.1 h with ⟨as, rfl, -⟩ | ⟨bs, rfl, hbs⟩
  · exact List.prefix_append _ _
  · cases bs with
    | nil => exact ⟨[], by simp⟩
    | cons b bs =>
        obtain ⟨rfl, -⟩ : '"' = b ∧ _ := by simpa using hbs
        cases x with
        | nil => exact absurd rfl hx
        | cons a x =>
            rw [List.cons_append] at hz
            exact absurd (by simp) hz.not_mem_tail

/-- Behind a whole value stands nothing but its quote, the bracket and the semicolon. -/
theorem Closing.eq_of_append_eq {z r y : List Char} (hz : Closing z)
    (h : z ++ r = '"' :: ')' :: ';' :: y) : z = ['"', ')', ';'] := by
  obtain ⟨q, ws, ws', rfl, hq, hws, hws'⟩ := hz
  rcases hq with rfl | rfl
  · cases ws with
    | nil => simp at h
    | cons b ws =>
        obtain ⟨rfl, -⟩ : b = '"' ∧ _ := by simpa using h
        exact absurd (hws _ List.mem_cons_self) (by rw [not_blank_quote]; simp)
  · cases ws with
    | cons b ws =>
        obtain ⟨rfl, -⟩ : b = ')' ∧ _ := by simpa using h
        exact absurd (hws _ List.mem_cons_self) (by decide)
    | nil =>
        cases ws' with
        | cons b ws' =>
            obtain ⟨rfl, -⟩ : b = ';' ∧ _ := by simpa using h
            exact absurd (hws' _ List.mem_cons_self) (by decide)
        | nil => rfl

/-- A value closes early if something that closes a call stands behind some part of it. -/
theorem closesEarly_iff {v : List Char} :
    ClosesEarly v ↔ ∃ n, 0 < n ∧ n < v.length ∧ ∃ z, Closing z ∧ z <+: v.drop n := by
  constructor
  · rintro ⟨a, ws, b, rfl, ha, hws⟩
    refine ⟨a.length, List.length_pos_iff.2 ha, by simp, ')' :: (ws ++ [';']), ?_, ?_⟩
    · exact ⟨[], [], ws, rfl, Or.inl rfl, by simp, hws⟩
    · rw [List.drop_left]
      exact ⟨b, by simp⟩
  · rintro ⟨n, hpos, hn, z, ⟨q, ws, ws', rfl, -, -, hws'⟩, b, hb⟩
    refine ⟨v.take n ++ (q ++ ws), ws', b, ?_, ?_, hws'⟩
    · conv_lhs => rw [← List.take_append_drop n v, ← hb]
      simp
    · intro hnil
      have : (v.take n).length = 0 := by
        rw [List.append_eq_nil_iff] at hnil
        rw [hnil.1]
        rfl
      rw [List.length_take] at this
      omega

def Closable (x : List Char) : Prop :=
  ∃ z r, x = z ++ r ∧ Closing z

abbrev valueAndBehind (v y : List Char) : List Char :=
  v ++ '"' :: ')' :: ';' :: y

theorem drop_valueAndBehind {v y : List Char} {n : Nat} (h : n ≤ v.length) :
    (valueAndBehind v y).drop n = v.drop n ++ '"' :: ')' :: ';' :: y :=
  List.drop_append_of_le_length h

/-- What closes a call behind a part of its value ends with the call at the latest. -/
theorem closing_length_le {v y z r : List Char} {n : Nat} (hn : n ≤ v.length)
    (h : (valueAndBehind v y).drop n = z ++ r) (hz : Closing z) : n + z.length ≤ v.length + 3 := by
  rw [drop_valueAndBehind hn] at h
  by_cases hlast : v.drop n = []
  · rw [hlast, List.nil_append] at h
    rw [hz.eq_of_append_eq h.symm]
    simp
    omega
  · have hle := (hz.prefix_of_append_quote hlast h.symm).length_le
    rw [List.length_drop] at hle
    omega

theorem closesEarly_iff_closable {v y : List Char} :
    ClosesEarly v ↔ ∃ n, 0 < n ∧ n < v.length ∧ Closable ((valueAndBehind v y).drop n) := by
  rw [closesEarly_iff]
  constructor
  · rintro ⟨n, hpos, hn, z, hz, r, hr⟩
    refine ⟨n, hpos, hn, z, r ++ '"' :: ')' :: ';' :: y, ?_, hz⟩
    rw [drop_valueAndBehind (by omega), ← hr, List.append_assoc]
  · rintro ⟨n, hpos, hn, z, r, hr, hz⟩
    refine ⟨n, hpos, hn, z, hz, ?_⟩
    rw [drop_valueAndBehind (by omega)] at hr
    refine hz.prefix_of_append_quote ?_ hr.symm
    rw [Ne, List.drop_eq_nil_iff]
    omega

/-- There is a shortest part of a value behind which its call can close; it is a proper part exactly
if the value closes early. -/
theorem exists_first_closable {v : List Char} (y : List Char) (hv : v ≠ []) :
    ∃ n < v.length, Closable ((valueAndBehind v y).drop (n + 1)) ∧
      (∀ i < n, ¬ Closable ((valueAndBehind v y).drop (i + 1))) ∧
      (n + 1 < v.length ↔ ClosesEarly v) := by
  classical
  have hlen : 0 < v.length := List.length_pos_iff.2 hv
  have hwhole : Closable ((valueAndBehind v y).drop (v.length - 1 + 1)) := by
    refine ⟨['"', ')', ';'], y, ?_, ['"'], [], [], rfl, Or.inr rfl, by simp, by simp⟩
    rw [Nat.sub_add_cancel hlen, List.drop_left]
    rfl
  have hex : ∃ n, Closable ((valueAndBehind v y).drop (n + 1)) := ⟨_, hwhole⟩
  have hle : Nat.find hex ≤ v.length - 1 := Nat.find_min' hex hwhole
  refine ⟨Nat.find hex, by omega, Nat.find_spec hex, fun i hi => Nat.find_min hex hi, ?_⟩
  rw [closesEarly_iff_closable (y := y)]
  constructor
  · intro hn
    exact ⟨_, Nat.succ_pos _, hn, Nat.find_spec hex⟩
  · rintro ⟨n, hpos, hn, hclose⟩
    have : Nat.find hex ≤ n - 1 := Nat.find_min' hex (by rwa [Nat.sub_add_cancel hpos])
    omega

/-! ## The pattern at a call -/

section
variable {size : Nat} {s t : Place}

theorem ends_label {name : String} {a c : Char} {w u r : List Char}
    (hname : name.toList = a :: w) (ha : Text.isBlank a = false)
    (hu : ∀ b ∈ u, Text.isBlank b = true) (hc : Text.isBlank c = false)
    (hr : s.rest = u ++ (name.toList ++ ':' :: c :: r)) :
    (label name).ends size s = [s.move (u.length + name.toList.length + 1)] := by
  have hopen : (seq (word name.toList) (seq blanks (seq (word [':']) blanks))).opening =
      some (a == ·) := by
    rw [hname]
    rfl
  have hf : ∀ b, Text.isBlank b = true → (a == b) = false := by
    intro b hb
    rw [beq_eq_false_iff_ne]
    rintro rfl
    rw [ha] at hb
    exact Bool.noConfusion hb
  have hhead : ∀ d r', name.toList ++ ':' :: c :: r = d :: r' → Text.isBlank d = false := by
    rw [hname]
    rintro d r' h
    obtain ⟨rfl, -⟩ : a = d ∧ _ := by simpa using h
    exact ha
  have hword : (s.move u.length).rest = name.toList ++ ':' :: c :: r := by
    rw [Place.rest_move, hr, List.drop_left]
  have hcolon : ((s.move u.length).move name.toList.length).rest = ':' :: c :: r := by
    rw [Place.rest_move, hword, List.drop_left]
  have hend : (((s.move u.length).move name.toList.length).move 1).rest = c :: r := by
    rw [Place.rest_move, hcolon]
    rfl
  show (seq blanks (seq (word name.toList) (seq blanks (seq (word [':']) blanks)))).ends size s = _
  rw [ends_blanks_seq hopen hf hr hu hhead, ends_seq_of_eq (ends_word_of_rest hword),
    ends_seq_of_eq (ends_blanks_of_not_blank hcolon (by decide)),
    ends_seq_of_eq (ends_word_of_rest (w := [':']) hcolon)]
  show blanks.ends size (((s.move u.length).move name.toList.length).move 1) = _
  rw [ends_blanks_of_not_blank hend hc, Place.move_move, Place.move_move, Nat.add_assoc]

theorem mem_ends_callEnd :
    t ∈ callEnd.ends size s ↔
      ∃ ws ws' r, s.rest = ws ++ ')' :: (ws' ++ ';' :: r) ∧ (∀ c ∈ ws, Text.isBlank c = true) ∧
        (∀ c ∈ ws', Text.isBlank c = true) ∧ t = s.move (ws.length + 1 + ws'.length + 1) := by
  show t ∈ (seq blanks (seq (word [')']) (seq blanks (word [';'])))).ends size s ↔ _
  simp only [mem_ends_seq, mem_ends_blanks, mem_ends_word]
  constructor
  · rintro ⟨-, ⟨ws, r₁, h₁, hws, rfl⟩, -, ⟨⟨r₂, h₂⟩, rfl⟩, -, ⟨ws', r₃, h₃, hws', rfl⟩,
      ⟨r₄, h₄⟩, rfl⟩
    rw [Place.rest_move, h₁, List.drop_left] at h₂
    rw [Place.rest_move, Place.rest_move, h₁, List.drop_left, ← h₂, List.drop_left] at h₃
    rw [Place.rest_move, Place.rest_move, Place.rest_move, h₁, List.drop_left, ← h₂,
      List.drop_left, h₃, List.drop_left] at h₄
    refine ⟨ws, ws', r₄, ?_, hws, hws', by simp only [Place.move_move]; rfl⟩
    rw [h₁, ← h₂, h₃, ← h₄]
    rfl
  · rintro ⟨ws, ws', r, hr, hws, hws', rfl⟩
    refine ⟨_, ⟨ws, _, hr, hws, rfl⟩, _, ⟨⟨ws' ++ ';' :: r, ?_⟩, rfl⟩, _,
      ⟨ws', ';' :: r, ?_, hws', rfl⟩, ⟨r, ?_⟩, ?_⟩
    · simp [hr]
    · simp [hr]
    · simp [hr]
    · simp only [Place.move_move]
      rfl

/-- Behind a value in double quotes, a call ends where something that closes it stands. -/
theorem mem_ends_closing {span : Span} (hg : s.group? "quote2" = some span)
    (hspan : span.text = ['"']) :
    t ∈ (seq (optional (again "quote2")) callEnd).ends size s ↔
      ∃ z r, s.rest = z ++ r ∧ Closing z ∧ t = s.move z.length := by
  simp only [mem_ends_seq, ends_optional, List.mem_append, List.mem_singleton, mem_ends_again, hg,
    Option.some.injEq, exists_eq_left', hspan, mem_ends_callEnd]
  constructor
  · rintro ⟨u, ⟨⟨y, hy⟩, rfl⟩ | rfl, ws, ws', r, hr, hws, hws', rfl⟩
    · rw [Place.rest_move, ← hy, List.drop_left] at hr
      refine ⟨['"'] ++ (ws ++ ')' :: (ws' ++ [';'])), r, by rw [← hy, hr]; simp,
        ⟨['"'], ws, ws', rfl, Or.inr rfl, hws, hws'⟩, ?_⟩
      rw [Place.move_move]
      congr 1
      simp
      omega
    · refine ⟨ws ++ ')' :: (ws' ++ [';']), r, by rw [hr]; simp,
        ⟨[], ws, ws', rfl, Or.inl rfl, hws, hws'⟩, ?_⟩
      congr 1
      simp
      omega
  · rintro ⟨z, r, hr, ⟨q, ws, ws', rfl, hq, hws, hws'⟩, rfl⟩
    rcases hq with rfl | rfl
    · refine ⟨s, Or.inr rfl, ws, ws', r, by rw [hr]; simp, hws, hws', ?_⟩
      congr 1
      simp
      omega
    · refine ⟨s.move 1, Or.inl ⟨⟨ws ++ ')' :: (ws' ++ ';' :: r), by rw [hr]; simp⟩, rfl⟩,
        ws, ws', r, by rw [Place.rest_move, hr]; simp, hws, hws', ?_⟩
      rw [Place.move_move]
      congr 1
      simp
      omega

/-- The place behind the first `n + 1` characters of a value, with these as the value found. -/
def afterValue (s : Place) (n : Nat) : Place :=
  (s.move (n + 1)).fill "value" (s.spanTo (s.move (n + 1)))

/-- What stands behind a value once its quote has been opened. -/
abbrev valueClose : Pattern :=
  seq (optional (again "quote2")) callEnd

theorem mem_ends_valueClose {span : Span} {n : Nat} (hg : s.group? "quote2" = some span)
    (hspan : span.text = ['"']) :
    t ∈ valueClose.ends size (afterValue s n) ↔
      ∃ z r, s.rest.drop (n + 1) = z ++ r ∧ Closing z ∧ t = (afterValue s n).move z.length := by
  have hg' : (afterValue s n).group? "quote2" = some span := by
    rw [← hg]
    simp [afterValue, Place.group?, List.lookup_cons]
  rw [mem_ends_closing hg' hspan, afterValue, Place.rest_fill, Place.rest_move]

theorem ends_value :
    (seq (group "value" shortText) valueClose).ends size s =
      (List.range s.rest.length).flatMap fun n => valueClose.ends size (afterValue s n) := by
  have hvalue : (group "value" shortText).ends size s =
      (List.range s.rest.length).map (afterValue s) := by
    rw [ends, shortText, ends_shortest_any, List.map_map]
    rfl
  rw [ends, hvalue, List.flatMap_map]

/-- **Where a value ends.** Behind the quote that opens a value, the pattern takes the shortest part
of the value behind which a call can close. -/
theorem exists_value_end (size : Nat) {span : Span} {v y : List Char} (hv : v ≠ [])
    (hg : s.group? "quote2" = some span) (hspan : span.text = ['"'])
    (hr : s.rest = v ++ '"' :: ')' :: ';' :: y) :
    ∃ n t, ((seq (group "value" shortText) valueClose).ends size s).head? = some t ∧
      n < v.length ∧ t.groups = (afterValue s n).groups ∧ t.pos ≤ s.pos + v.length + 3 ∧
      (n + 1 < v.length ↔ ClosesEarly v) := by
  have hmem {n : Nat} {t : Place} : t ∈ valueClose.ends size (afterValue s n) ↔ _ :=
    mem_ends_valueClose hg hspan
  obtain ⟨n, hn, ⟨z, r, hz, hclosing⟩, hfirst, hearly⟩ := exists_first_closable y hv
  -- no shorter value fits, so the first end is one behind `n + 1` characters
  have hnone : ∀ i < n, (valueClose.ends size (afterValue s i)).head? = none := by
    intro i hi
    rw [List.head?_eq_none_iff, List.eq_nil_iff_forall_not_mem]
    intro u hu
    obtain ⟨z', r', hz', hclosing', -⟩ := hmem.1 hu
    exact hfirst i hi ⟨z', r', by rw [← hz', hr], hclosing'⟩
  have hsome : ∃ u, (valueClose.ends size (afterValue s n)).head? = some u := by
    have hu : (afterValue s n).move z.length ∈ valueClose.ends size (afterValue s n) :=
      hmem.2 ⟨z, r, by rw [hr]; exact hz, hclosing, rfl⟩
    exact Option.isSome_iff_exists.1 (List.isSome_head?.2 (List.ne_nil_of_mem hu))
  obtain ⟨u, hu⟩ := hsome
  obtain ⟨z', r', hz', hclosing', rfl⟩ := hmem.1 (List.mem_of_mem_head? hu)
  have hlen : n + 1 ≤ s.rest.length := by rw [hr, List.length_append]; omega
  refine ⟨n, (afterValue s n).move z'.length, ?_, hn, Place.groups_move _ _, ?_, hearly⟩
  · rw [ends_value, List.head?_flatMap]
    exact findSome?_range_of_first hlen hnone hu
  · have hbound := closing_length_le hn (by rw [← hz', hr]) hclosing'
    have hfits : z'.length ≤ (afterValue s n).rest.length := by
      rw [afterValue, Place.rest_fill, Place.rest_move, hz', List.length_append]
      omega
    rw [Place.pos_move hfits, afterValue, Place.pos_fill, Place.pos_move hlen]
    omega

/-! ### The pattern as a whole -/

abbrev afterName : Pattern :=
  seq (again "quote") (seq blanks (seq (word [',']) (seq (label "value")
    (seq (optional (group "quote2" quoteChar)) (seq (group "value" shortText) valueClose)))))

theorem commonTags_eq :
    commonTags = seq (word tagOpening) (seq (label "name") (seq (group "quote" quoteChar)
      (seq (group "name" (oneOf (proseNames.map fun n => word n.toList))) afterName))) := rfl

/-- The pattern fits only where a call opens. -/
theorem ends_commonTags_eq_nil (h : ¬ tagOpening <+: s.rest) : commonTags.ends size s = [] := by
  rw [List.eq_nil_iff_forall_not_mem]
  intro t ht
  rw [commonTags_eq, mem_ends_seq] at ht
  obtain ⟨u, hu, -⟩ := ht
  exact h (mem_ends_word.1 hu).1

abbrev behindQuote (c : TagCall) (y : List Char) : List Char :=
  c.name ++ '"' :: ',' :: ' ' :: 'v' :: 'a' :: 'l' :: 'u' :: 'e' :: ':' :: '"' ::
    valueAndBehind c.value y

theorem text_append_eq (c : TagCall) (y : List Char) :
    c.text ++ y = tagOpening ++ ('n' :: 'a' :: 'm' :: 'e' :: ':' :: '"' :: behindQuote c y) := by
  simp [TagCall.text]

theorem length_text (c : TagCall) : c.text.length = c.name.length + c.value.length + 30 := by
  simp [TagCall.text, tagOpening_eq]
  omega

/-- At a call the pattern goes on with the name behind the first quote. -/
theorem exists_ends_eq_at_name (size : Nat) {c : TagCall} {y : List Char} (hs : s.groups = [])
    (hr : s.rest = c.text ++ y) :
    ∃ u span, commonTags.ends size s =
        (seq (group "name" (oneOf (proseNames.map fun n => word n.toList))) afterName).ends size u ∧
      u.rest = behindQuote c y ∧ u.pos = s.pos + 17 ∧ u.groups = [("quote", span)] ∧
      span.text = ['"'] := by
  rw [text_append_eq] at hr
  have hdrop (n : Nat) : (s.move (11 + n)).rest =
      ('n' :: 'a' :: 'm' :: 'e' :: ':' :: '"' :: behindQuote c y).drop n := by
    rw [Place.rest_move, hr, ← List.drop_drop, tagOpening_eq]
    rfl
  have hlen : 17 ≤ s.rest.length := by
    rw [hr, tagOpening_eq]
    simp
  have hword : (word tagOpening).ends size s = [s.move 11] := by
    rw [ends_word_of_rest hr, tagOpening_eq]
    rfl
  have hlabel : (label "name").ends size (s.move 11) = [s.move 16] := by
    rw [ends_label (u := []) (c := '"') rfl (by decide) (by simp) (by decide) (hdrop 0),
      Place.move_move]
    rfl
  have hquote : quoteChar.ends size (s.move 16) = [s.move 17] := by
    rw [quoteChar, ends_one_of_rest (hdrop 5) (by decide), Place.move_move]
  refine ⟨(s.move 17).fill "quote" ((s.move 16).spanTo (s.move 17)),
    (s.move 16).spanTo (s.move 17), ?_, hdrop 6, ?_, ?_, ?_⟩
  · rw [commonTags_eq, ends_seq_of_eq hword, ends_seq_of_eq hlabel,
      ends_seq_of_eq (ends_group_of_eq hquote)]
  · rw [Place.pos_fill, Place.pos_move hlen]
  · rw [Place.groups_fill, Place.groups_move, hs]
  · rw [Place.spanTo_text, Place.pos_move hlen, Place.pos_move (by omega), hdrop 5,
      Nat.add_sub_add_left]
    rfl

/-- What follows a name in the pattern closes the name's quote first. -/
theorem quote_prefix_of_mem_afterName {span : Span} (hg : s.group? "quote" = some span)
    (hspan : span.text = ['"']) (h : t ∈ afterName.ends size s) : ['"'] <+: s.rest := by
  obtain ⟨u, hu, -⟩ := mem_ends_seq.1 h
  obtain ⟨span', hspan', hpre, -⟩ := mem_ends_again.1 hu
  rw [hg, Option.some.injEq] at hspan'
  rwa [← hspan', hspan] at hpre

/-- Behind a name in double quotes, the pattern goes on to the end of the value. -/
theorem exists_afterName_end (size : Nat) {span : Span} {v y : List Char} (hv : v ≠ [])
    (hg : s.group? "quote" = some span) (hspan : span.text = ['"'])
    (hr : s.rest = '"' :: ',' :: ' ' :: 'v' :: 'a' :: 'l' :: 'u' :: 'e' :: ':' :: '"' ::
      valueAndBehind v y) :
    ∃ n t value quote, (afterName.ends size s).head? = some t ∧ n < v.length ∧
      t.groups = ("value", value) :: ("quote2", quote) :: s.groups ∧ value.text = v.take (n + 1) ∧
      t.pos ≤ s.pos + 10 + v.length + 3 ∧ (n + 1 < v.length ↔ ClosesEarly v) := by
  have hdrop (n : Nat) : (s.move n).rest = ('"' :: ',' :: ' ' :: 'v' :: 'a' :: 'l' :: 'u' :: 'e' ::
      ':' :: '"' :: valueAndBehind v y).drop n := by
    rw [Place.rest_move, hr]
  have hagain : (again "quote").ends size s = [s.move 1] := by
    rw [ends_again_of_rest hg (by rw [hspan, hr]; rfl), hspan]
    rfl
  have hblanks : blanks.ends size (s.move 1) = [s.move 1] :=
    ends_blanks_of_not_blank (hdrop 1) (by decide)
  have hcomma : (word [',']).ends size (s.move 1) = [s.move 2] := by
    rw [ends_word_of_rest (w := [',']) (hdrop 1), Place.move_move]
    rfl
  have hlabel : (label "value").ends size (s.move 2) = [s.move 9] := by
    have hblank : ∀ b ∈ [' '], Text.isBlank b = true := List.forall_mem_singleton.2 (by decide)
    rw [ends_label (c := '"') rfl (by decide) hblank (by decide) (hdrop 2), Place.move_move]
    rfl
  have hquote : quoteChar.ends size (s.move 9) = [s.move 10] := by
    rw [quoteChar, ends_one_of_rest (hdrop 9) (by decide), Place.move_move]
  have hlen : 10 + v.length ≤ s.rest.length := by
    rw [hr]
    simp
    omega
  let quote := (s.move 9).spanTo (s.move 10)
  have htext : quote.text = ['"'] := by
    rw [Place.spanTo_text, Place.pos_move (by omega), Place.pos_move (by omega), hdrop 9,
      Nat.add_sub_add_left]
    rfl
  let u := (s.move 10).fill "quote2" quote
  have hu : u.rest = v ++ '"' :: ')' :: ';' :: y := hdrop 10
  obtain ⟨n, t, ht, hn, hgroups, hpos, hearly⟩ :=
    exists_value_end size (s := u) hv rfl htext hu
  -- the quote may also count as part of the value, but that is tried later
  have hsplit : afterName.ends size s =
      (seq (group "value" shortText) valueClose).ends size u ++
        (seq (group "value" shortText) valueClose).ends size (s.move 9) := by
    rw [afterName, ends_seq_of_eq hagain, ends_seq_of_eq hblanks, ends_seq_of_eq hcomma,
      ends_seq_of_eq hlabel, ends, ends_optional, ends_group_of_eq hquote]
    simp [u, quote]
  refine ⟨n, t, u.spanTo (u.move (n + 1)), quote, ?_, hn, ?_, ?_, ?_, hearly⟩
  · rw [hsplit, List.head?_append, ht]
    rfl
  · rw [hgroups]
    simp [afterValue, u]
  · rw [Place.spanTo_move_text (by rw [hu, List.length_append]; omega), hu,
      List.take_append_of_le_length hn]
  · have : u.pos = s.pos + 10 := Place.pos_move (by omega)
    rwa [this] at hpos

/-! ### The name of a call -/

theorem TagCall.isProse_iff {c : TagCall} :
    c.isProse = true ↔ ∃ w ∈ proseNames, w.toList = c.name := by
  rw [TagCall.isProse, List.contains_iff_mem]
  constructor
  · intro h
    exact ⟨_, h, String.toList_ofList⟩
  · rintro ⟨w, hw, hname⟩
    rwa [← hname, String.ofList_toList]

def afterNamed (s : Place) (n : Nat) : Place :=
  (s.move n).fill "name" (s.spanTo (s.move n))

theorem mem_ends_proseName :
    t ∈ (group "name" (oneOf (proseNames.map fun n => word n.toList))).ends size s ↔
      ∃ w ∈ proseNames, w.toList <+: s.rest ∧ t = afterNamed s w.toList.length := by
  rw [mem_ends_group]
  simp only [mem_ends_oneOf, List.mem_map]
  constructor
  · rintro ⟨u, ⟨-, ⟨w, hw, rfl⟩, hu⟩, rfl⟩
    obtain ⟨hpre, rfl⟩ := mem_ends_word.1 hu
    exact ⟨w, hw, hpre, rfl⟩
  · rintro ⟨w, hw, hpre, rfl⟩
    exact ⟨_, ⟨_, ⟨w, hw, rfl⟩, mem_ends_word.2 ⟨hpre, rfl⟩⟩, rfl⟩

theorem group?_quote_afterNamed {span : Span} {n : Nat} (hgroups : s.groups = [("quote", span)]) :
    (afterNamed s n).group? "quote" = some span := by
  simp [afterNamed, Place.group?, hgroups, List.lookup_cons]

/-- Inside the quotes of a call no other name fits than its own. -/
theorem eq_name_of_mem_afterName {c : TagCall} {y : List Char} {span : Span} {w : String}
    (hgroups : s.groups = [("quote", span)]) (hspan : span.text = ['"'])
    (hr : s.rest = behindQuote c y) (hw : w ∈ proseNames) (hpre : w.toList <+: s.rest)
    (h : t ∈ afterName.ends size (afterNamed s w.toList.length)) : w.toList = c.name := by
  have hquote := quote_prefix_of_mem_afterName (group?_quote_afterNamed hgroups) hspan h
  rw [afterNamed, Place.rest_fill, Place.rest_move] at hquote
  obtain ⟨r, hr'⟩ := hpre
  have hword : '"' ∉ w.toList := by
    have : ∀ n ∈ proseNames, '"' ∉ n.toList := by decide
    exact this w hw
  have hname : '"' ∉ c.name := fun hmem => absurd (c.name_word _ hmem) (by decide)
  rw [← hr', List.drop_left] at hquote
  have hmark : w.toList ++ ['"'] <+: behindQuote c y := by
    rw [← hr, ← hr']
    exact (List.prefix_append_right_inj _).2 hquote
  exact Text.eq_of_append_cons_prefix hword hname hmark

theorem head?_flatMap_of_only {α β : Type} {l : List α} {f : α → List β} {a : α} (ha : a ∈ l)
    (honly : ∀ b ∈ l, f b ≠ [] → b = a) : (l.flatMap f).head? = (f a).head? := by
  induction l with
  | nil => simp at ha
  | cons b l ih =>
      rw [List.flatMap_cons, List.head?_append]
      have honly' : ∀ d ∈ l, f d ≠ [] → d = a := fun d hd => honly d (List.mem_cons_of_mem _ hd)
      by_cases hb : f b = []
      · rw [hb]
        rcases List.mem_cons.1 ha with rfl | ha
        · have hl : l.flatMap f = [] := by
            refine List.flatMap_eq_nil_iff.2 fun d hd => ?_
            by_contra hne
            rw [honly' d hd hne] at hne
            exact hne hb
          rw [hl, hb]
          rfl
        · exact ih ha honly'
      · obtain rfl := honly b List.mem_cons_self hb
        obtain ⟨x, hx⟩ := Option.isSome_iff_exists.1 (List.isSome_head?.2 hb)
        rw [hx]
        rfl

/-! ### The match at a call -/

theorem ends_commonTags_of_not_isProse {c : TagCall} {y : List Char} (hs : s.groups = [])
    (hr : s.rest = c.text ++ y) (hc : c.isProse = false) : commonTags.ends size s = [] := by
  obtain ⟨u, span, hends, hu, -, hgroups, hspan⟩ := exists_ends_eq_at_name size hs hr
  rw [hends, List.eq_nil_iff_forall_not_mem]
  intro t ht
  obtain ⟨v, hv, ht⟩ := mem_ends_seq.1 ht
  obtain ⟨w, hw, hpre, rfl⟩ := mem_ends_proseName.1 hv
  have hname := eq_name_of_mem_afterName hgroups hspan hu hw hpre ht
  have : c.isProse = true := TagCall.isProse_iff.2 ⟨w, hw, hname⟩
  rw [hc] at this
  exact Bool.noConfusion this

/-- **The match at a call.** A call that sets a tag with prose is matched, and the match ends with
the call at the latest. -/
theorem exists_matchAt?_of_isProse (size : Nat) {c : TagCall} {y : List Char} (hs : s.groups = [])
    (hr : s.rest = c.text ++ y) (hc : c.isProse = true) :
    ∃ m, commonTags.matchAt? size s = some m ∧ Extracts (s.pos, c) m ∧
      m.stop ≤ s.pos + c.text.length := by
  obtain ⟨u, span, hends, hu, hpos, hgroups, hspan⟩ := exists_ends_eq_at_name size hs hr
  obtain ⟨w, hw, hname⟩ := TagCall.isProse_iff.1 hc
  have hlen : c.name.length ≤ u.rest.length := by
    rw [hu, List.length_append]
    omega
  have hrest : (afterNamed u c.name.length).rest = '"' :: ',' :: ' ' :: 'v' :: 'a' :: 'l' :: 'u' ::
      'e' :: ':' :: '"' :: valueAndBehind c.value y := by
    rw [afterNamed, Place.rest_fill, Place.rest_move, hu, List.drop_left]
  obtain ⟨n, t, value, quote, ht, hn, htgroups, hvalue, htpos, hearly⟩ :=
    exists_afterName_end size c.value_ne_nil (group?_quote_afterNamed hgroups) hspan hrest
  have hhead : (commonTags.ends size s).head? = some t := by
    rw [hends, ends, ← ht]
    refine head?_flatMap_of_only (mem_ends_proseName.2 ⟨w, hw, ?_, by rw [hname]⟩) ?_
    · rw [hname, hu]
      exact List.prefix_append _ _
    · -- a name that is only the start of this one has no quote behind it
      intro b hb hne
      obtain ⟨w', hw', hpre, rfl⟩ := mem_ends_proseName.1 hb
      obtain ⟨t', ht'⟩ := List.exists_mem_of_ne_nil _ hne
      rw [eq_name_of_mem_afterName hgroups hspan hu hw' hpre ht']
  refine ⟨⟨s.spanTo t, t.groups⟩, by rw [matchAt?_eq_head?, hhead]; rfl, ⟨rfl, ?_, ?_⟩, ?_⟩
  · have hfound : (u.spanTo (u.move c.name.length)).text = c.name := by
      rw [Place.spanTo_move_text hlen, hu, List.take_left]
    have hlookup : t.groups.lookup "name" = some (u.spanTo (u.move c.name.length)) := by
      rw [htgroups]
      rfl
    rw [Match.group?, hlookup, Option.map_some, hfound]
  · refine ⟨c.value.take (n + 1), ?_, ?_, ?_⟩
    · simp [Match.group?, htgroups, hvalue]
    · rw [List.take_eq_self_iff, ← hearly]
      omega
    · intro hclose
      have := hearly.2 hclose
      refine ⟨List.take_prefix _ _, ?_⟩
      rw [Ne, List.take_eq_self_iff]
      omega
  · show t.pos ≤ _
    rw [length_text]
    have : (afterNamed u c.name.length).pos = u.pos + c.name.length := Place.pos_move hlen
    omega

end

/-! ## The search through a script -/

section
variable {size resume : Nat} {s : Place} {items : List (TagCall × PlainText)}

theorem callsText_cons (c : TagCall) (t : PlainText) (more : List (TagCall × PlainText)) :
    callsText ((c, t) :: more) = (c.text ++ t.1) ++ callsText more := rfl

theorem exists_text_eq_cons (c : TagCall) : ∃ u, c.text = 's' :: u := by
  rw [TagCall.text, tagOpening_eq]
  exact ⟨_, rfl⟩

theorem head_eq_of_callsText_eq_cons {d : Char} {r : List Char} (h : callsText items = d :: r) :
    d = 's' := by
  cases items with
  | nil => simp [callsText] at h
  | cons item more =>
      obtain ⟨c, t⟩ := item
      obtain ⟨u, hu⟩ := exists_text_eq_cons c
      rw [callsText_cons, hu] at h
      exact (List.cons.inj h).1.symm

theorem not_tagOpening_prefix {u : List Char} {i : Nat} (hu : ¬ tagOpening <:+: u)
    (hi : i < u.length) : ¬ tagOpening <+: (u ++ callsText items).drop i := by
  intro h
  rw [List.drop_append_of_le_length (by omega)] at h
  rw [tagOpening_eq] at h hu
  have hpre := Text.prefix_of_prefix_append (by decide)
    (fun d r hd => head_eq_of_callsText_eq_cons hd) (by simpa using hi) h
  exact hu (hpre.isInfix.trans (List.drop_suffix i u).isInfix)

/-- A search passes over text that opens no call. -/
theorem scan_plain {u : List Char} (hs : s.groups = []) (hu : ¬ tagOpening <:+: u)
    (hr : s.rest = u ++ callsText items) :
    commonTags.scan size resume s = commonTags.scan size resume (s.move u.length) := by
  refine scan_skip hs (by rw [hr]; simp) fun i hi => ?_
  apply ends_commonTags_eq_nil
  rw [Place.rest_move, hr]
  exact not_tagOpening_prefix hu hi

/-- From the start of a call on, a search finds the calls that set a tag with prose. -/
theorem scan_callsText (size : Nat) (hs : s.groups = []) (hpos : resume ≤ s.pos)
    (hr : s.rest = callsText items) :
    List.Forall₂ Extracts ((callsAt s.pos items).filter (·.2.isProse))
      (commonTags.scan size resume s) := by
  induction items generalizing s resume with
  | nil =>
      have hend : commonTags.ends size s = [] := by
        apply ends_commonTags_eq_nil
        rw [hr, tagOpening_eq]
        simp [callsText]
      rw [scan_of_rest_nil hs hr hend]
      exact .nil
  | cons item more ih =>
      obtain ⟨c, t⟩ := item
      rw [callsText_cons] at hr
      obtain ⟨u, hd⟩ : ∃ u, c.text ++ t.1 = 's' :: u := by
        obtain ⟨u, hu⟩ := exists_text_eq_cons c
        exact ⟨u ++ t.1, by rw [hu]; rfl⟩
      have hplain : ¬ tagOpening <:+: u := by
        have := not_tagOpening_infix_tail c t
        rwa [hd] at this
      have hcons : s.rest = 's' :: (u ++ callsText more) := by rw [hr, hd]; rfl
      have hcall : s.rest = c.text ++ (t.1 ++ callsText more) := by rw [hr, List.append_assoc]
      have hlen : u.length + 1 = c.text.length + t.1.length := by
        rw [← List.length_append, hd]
        rfl
      -- the scan goes on behind the text that follows the call
      have hnext : (s.move 1).move u.length = s.move (c.text.length + t.1.length) := by
        rw [Place.move_move, Nat.add_comm, hlen]
      have hnextRest : (s.move (c.text.length + t.1.length)).rest = callsText more := by
        rw [Place.rest_move, hr, ← List.length_append, List.drop_left]
      have hnextPos : (s.move (c.text.length + t.1.length)).pos =
          s.pos + c.text.length + t.1.length := by
        rw [Place.pos_move (by rw [hr]; simp)]
        omega
      have hskip (k : Nat) : commonTags.scan size k (s.move 1) =
          commonTags.scan size k (s.move (c.text.length + t.1.length)) := by
        rw [← hnext]
        exact scan_plain (by simpa using hs) hplain (by rw [Place.rest_move, hcons]; rfl)
      rw [callsAt, ← hnextPos]
      cases hc : c.isProse with
      | false =>
          rw [List.filter_cons_of_neg (by simp [hc]),
            scan_step hs hcons (ends_commonTags_of_not_isProse hs hcall hc), hskip]
          exact ih (by simpa using hs) (by omega) hnextRest
      | true =>
          obtain ⟨m, hm, hextracts, hstop⟩ := exists_matchAt?_of_isProse size hs hcall hc
          rw [List.filter_cons_of_pos (by exact hc), scan_hit hs hpos hcons hm, hskip]
          exact .cons hextracts (ih (by simpa using hs) (by omega) hnextRest)

end

/-- **The tags that hold prose.** In a script made of calls and other text, the search reports the
calls that set a tag with prose, each once and in order, and nothing else. -/
theorem findAll_commonTags (lead : PlainText) (items : List (TagCall × PlainText)) :
    List.Forall₂ Extracts ((callsAt lead.1.length items).filter (·.2.isProse))
      (commonTags.findAll (scriptText lead items)) := by
  have hr : (Place.ofText (scriptText lead items)).rest = lead.1 ++ callsText items := rfl
  have hpos : ((Place.ofText (scriptText lead items)).move lead.1.length).pos = lead.1.length := by
    rw [Place.pos_move (by rw [hr]; simp)]
    exact Nat.zero_add _
  have hgroups : ((Place.ofText (scriptText lead items)).move lead.1.length).groups = [] := by
    rw [Place.groups_move]
    rfl
  have hrest : ((Place.ofText (scriptText lead items)).move lead.1.length).rest =
      callsText items := by
    rw [Place.rest_move, hr, List.drop_left]
  have hcalls := scan_callsText (scriptText lead items).length hgroups (Nat.zero_le _) hrest
  rw [hpos] at hcalls
  rwa [findAll_eq_scan, scan_plain rfl lead.2 hr]

end NaslLint.Script
