import NaslLint.Checks.Conditions
import NaslLint.Proofs.Pattern.Cut
import NaslLint.Proofs.Pattern.Meaning
import NaslLint.Proofs.Script.Calls

/-!
# Misplaced comparisons

A condition is cut out of the text together with the opening of its block or the statement behind it,
and the comparison is searched for in what was cut out. The search takes variables of letters and
underscores only. What is cut out for a condition without a block may reach into the next condition
and end there, at a semicolon; what stands behind that is not searched.

* `covers_or_ends_before`: the line of a comparison is in a statement that is cut out, and either the
  comparison is as well, or the statement ends before it;
* `occursIn_of_plain` and `plain_of_spells`: which comparisons the search finds;
* `misplaced_compare_told_iff`: which comparisons are told of.
-/

namespace NaslLint

namespace Checks

open Pattern Script Text

/-! ## Lines with a comparison -/

def isVariableChar (c : Char) : Bool :=
  c.isAlphanum || c == '_'

def IsVariable (x : List Char) : Prop :=
  (∀ c ∈ x, isVariableChar c = true) ∧ ∃ c y, x = c :: y ∧ isNameStart c = true

/-- A line with a condition that compares a variable with a text, the variable being on the wrong side.
The comparison is the first part of the condition or follows another part. -/
structure CompareLine where
  indent : List Char
  lead : List Char
  name : List Char
  negated : Bool
  quote : Char
  string : List Char
  behind : List Char
  indent_blank : Blanks indent
  lead_line : '\n' ∉ lead
  lead_end : Blanks lead ∨ ∃ z, lead = z ++ "|| ".toList ∨ lead = z ++ "&& ".toList
  name_isVariable : IsVariable name
  quote_isQuote : IsQuote quote
  string_plain : ∀ c ∈ string, c ∉ ['"', '\'', '(', ')', '\x7b', ';', '\n']
  behind_line : '\n' ∉ behind

namespace CompareLine
variable (l : CompareLine)

def operator : List Char :=
  if l.negated then " >!< ".toList else " >< ".toList

/-- The comparison, with the quote that opens its text but without the rest. -/
def opening : List Char :=
  l.name ++ (l.operator ++ [l.quote])

def comparison : List Char :=
  l.opening ++ (l.string ++ [l.quote])

def before : List Char :=
  l.indent ++ ("if(".toList ++ l.lead)

def text : List Char :=
  l.before ++ (l.comparison ++ (l.behind ++ ") \x7b".toList))

def IsPlain : Prop :=
  ∀ c ∈ l.name, isNameStart c = true

/-- A statement that begins before the line ends in it, before the comparison. -/
def IsCutOff (a b : List Char) : Prop :=
  ∃ m ∈ conditionStatement.findAll (a ++ (l.text ++ b)), m.start < a.length ∧ a.length < m.stop ∧
    m.stop ≤ a.length + l.before.length

/-- The text holds no other misplaced comparison. -/
def IsOnly (a b : List Char) : Prop :=
  ∀ c x r, a ++ (l.text ++ b) = c ++ (x ++ r) → misplacedCompare.Spells x →
    (c ++ x).length = (a ++ (l.before ++ l.opening)).length

end CompareLine

/-- Nothing or the next line follows. -/
def EndsLine (b : List Char) : Prop :=
  b = [] ∨ ∃ r, b = '\n' :: r

section
variable {l : CompareLine} {a b x y r u : List Char} {m : Match}

/-! ## The statement of the line -/

/-- A condition at the start of a line without the anchor. -/
def conditionBody : Pattern :=
  .chain [.blanks, conditionWord, .blanks, "(", .group "condition" .line, ")", .blanks,
    .oneOf ["\x7b", .chain [.oneOf [.line, .chain [.line, "\n", .line]], ";"]]]

theorem conditionStatement_eq : conditionStatement = .seq .lineStart conditionBody := rfl

theorem takes_conditionBody {condition : List Char} (hu : Blanks u) (hcondition : '\n' ∉ condition)
    (hb : EndsLine b) : Takes conditionBody
      (u ++ ("if".toList ++ ([] ++ ("(".toList ++ (condition ++ (")".toList ++ ([' '] ++
        "\x7b".toList))))))) b [] [("condition", condition)] := by
  have hclose : Takes (.seq ")" (.seq .blanks (.oneOf ["\x7b",
      .chain [.oneOf [.line, .chain [.line, "\n", .line]], ";"]])))
      (")".toList ++ ([' '] ++ "\x7b".toList)) b [("condition", condition)]
      [("condition", condition)] := by
    refine takes_word.seq (Takes.seq ?_ (Takes.oneOf [] (by simp) takes_word))
    exact takes_blanks Blanks.space (eq_false_of_cons (by decide) _)
  have hcondition : Takes (.seq (.group "condition" .line) (.seq ")" (.seq .blanks (.oneOf ["\x7b",
      .chain [.oneOf [.line, .chain [.line, "\n", .line]], ";"]]))))
      (condition ++ (")".toList ++ ([' '] ++ "\x7b".toList))) b [] [("condition", condition)] := by
    apply takes_longest_seq (v := [')', ' ', '\x7b']) (r := b)
    · apply inLine_of_not_mem
      simpa using hcondition
    · rcases hb with rfl | ⟨r, rfl⟩
      · simp
      · exact eq_false_of_cons (by decide) r
    · -- behind the last bracket of the line there is no other one
      intro c d hcd hc
      have hd : d = [' ', '\x7b'] ∨ d = ['\x7b'] ∨ d = [] := by
        simpa [List.suffix_cons_iff] using suffix_tail_of_append_eq hcd hc
      refine Refuses.seq (refuses_word ?_)
      rcases hd with rfl | rfl | rfl
      · simp
      · simp
      · rcases hb with rfl | ⟨r, rfl⟩ <;> simp
    · rfl
    · exact hclose
  have hword : Takes conditionWord "if".toList ([] ++ ("(".toList ++ (condition ++ (")".toList ++
      ([' '] ++ "\x7b".toList)))) ++ b) [] [] :=
    Takes.oneOf [] (by simp) takes_word
  exact (takes_blanks hu (eq_false_of_cons (by decide) _)).seq (hword.seq
    ((takes_blanks_nil (by decide)).seq (takes_word.seq hcondition)))

/-! ## Statements that begin before the line -/

/-- The word that opens a condition, with blanks around it. -/
def OpensCondition (x : List Char) : Prop :=
  ∃ c word d, Blanks c ∧ Blanks d ∧ (word = "if".toList ∨ ∃ brace e, (∀ f ∈ brace, f = '\x7d') ∧
    Blanks e ∧ word = brace ++ (e ++ "else if".toList)) ∧ x = c ++ (word ++ d)

theorem exists_parts_of_spells (hx : conditionStatement.Spells x) :
    ∃ opening condition gap tail, OpensCondition opening ∧ '\n' ∉ condition ∧ Blanks gap ∧
      (tail = ['\x7b'] ∨ ∃ z, tail = z ++ [';']) ∧
      x = opening ++ '(' :: (condition ++ ')' :: (gap ++ tail)) := by
  obtain ⟨_, _, rfl, ⟨c, _, hc, ⟨word, _, hword, ⟨d, _, hd, ⟨_, _, rfl, ⟨condition, _, hcondition,
    ⟨_, _, rfl, ⟨gap, tail, hgap, htail, rfl⟩, rfl⟩, rfl⟩, rfl⟩, rfl⟩, rfl⟩, rfl⟩, rfl⟩ := hx
  refine ⟨c ++ (word ++ d), condition, gap, tail, ⟨c, word, d, hc.2.2, hd.2.2, ?_, rfl⟩, ?_, hgap.2.2,
    ?_, by simp⟩
  · rcases hword with hword | ⟨brace, _, hbrace, ⟨e, _, he, rfl, rfl⟩, rfl⟩
    · exact Or.inl hword
    · exact Or.inr ⟨brace, e, fun f hf => by simpa using hbrace.2.2 f hf, he.2.2, rfl⟩
  · intro hmem
    have := hcondition.2.2 _ hmem
    revert this
    decide
  · rcases htail with htail | ⟨z, _, -, rfl, rfl⟩
    · exact Or.inl htail
    · exact Or.inr ⟨z, rfl⟩

theorem OpensCondition.not_mem (hx : OpensCondition x) : '(' ∉ x := by
  obtain ⟨c, word, d, hc, hd, hword, rfl⟩ := hx
  have hblank : isBlank '(' = false := by decide
  have hword : '(' ∉ word := by
    rcases hword with rfl | ⟨brace, e, hbrace, he, rfl⟩
    · decide
    · have hbracket : '(' ∉ brace := fun hmem => absurd (hbrace _ hmem) (by decide)
      simp [hbracket, he.not_mem hblank]
  simp [hc.not_mem hblank, hd.not_mem hblank, hword]

/-- Blanks with a line end among them are not the blank of `else if`. -/
theorem append_blanks_ne_else {indent z : List Char} (hindent : Blanks indent)
    (hline : x.getLast? = some '\n') : x ++ indent ≠ z ++ "else ".toList := by
  intro heq
  obtain ⟨x, rfl⟩ := List.getLast?_eq_some_iff.1 hline
  have hreverse := congrArg List.reverse heq
  simp only [List.reverse_append, List.append_assoc] at hreverse
  cases hback : indent.reverse with
  | nil =>
      rw [hback] at hreverse
      exact absurd (List.cons.inj hreverse).1 (by decide)
  | cons c back =>
      rw [hback] at hreverse
      have hbehind := (List.cons.inj hreverse).2
      cases back with
      | nil => exact absurd (List.cons.inj hbehind).1 (by decide)
      | cons d back =>
          have hd : d ∈ indent := List.mem_reverse.1 (by simp [hback])
          rw [(List.cons.inj hbehind).1] at hd
          exact hindent.not_mem (by decide) hd

/-- If what opens a condition ends with the word of the line, nothing but blanks stand before it. -/
theorem OpensCondition.blanks_of_append {indent : List Char}
    (hx : OpensCondition (x ++ (indent ++ "if".toList))) (hindent : Blanks indent)
    (hline : x.getLast? = some '\n') : Blanks x := by
  obtain ⟨c, word, d, hc, hd, hword, heq⟩ := hx
  obtain ⟨w, rfl, hw⟩ : ∃ w, word = w ++ "if".toList ∧ (w = [] ∨ ∃ z, w = z ++ "else ".toList) := by
    rcases hword with rfl | ⟨brace, e, -, -, rfl⟩
    · exact ⟨[], rfl, Or.inl rfl⟩
    · exact ⟨brace ++ (e ++ "else ".toList), by simp, Or.inr ⟨brace ++ e, by simp⟩⟩
  have hlast (z : List Char) : ∀ f ∈ (z ++ "if".toList).getLast?, isBlank f = false := by
    intro f hf
    rw [List.getLast?_append] at hf
    obtain rfl : 'f' = f := Option.some.inj hf
    decide
  have hends : x ++ indent ++ "if".toList = c ++ w ++ "if".toList := by
    refine (eq_of_append_eq_append_right (u := []) (by simp) hd (hlast _) (hlast _) ?_).1
    simpa using heq
  have hbegins : x ++ indent = c ++ w := List.append_cancel_right hends
  rcases hw with rfl | ⟨z, rfl⟩
  · rw [List.append_nil] at hbegins
    exact fun f hf => hc f (hbegins ▸ List.mem_append_left _ hf)
  · rw [← List.append_assoc] at hbegins
    exact absurd hbegins (append_blanks_ne_else hindent hline)

/-- A text that ends another one ends with the same character. -/
theorem exists_concat_of_append_eq {v z : List Char} {c : Char} (heq : z ++ [c] = v ++ y)
    (hy : y ≠ []) : ∃ z', y = z' ++ [c] := by
  obtain ⟨y, d, rfl⟩ := List.eq_nil_or_concat' y |>.resolve_left hy
  rw [← List.append_assoc] at heq
  exact ⟨y, by rw [(List.append_inj_right' heq rfl)]⟩

theorem text_eq (l : CompareLine) : l.text = (l.indent ++ "if".toList) ++ '(' :: (l.lead ++
    (l.comparison ++ (l.behind ++ ") \x7b".toList))) := by
  simp [CompareLine.text, CompareLine.before]

/-- Up to the first bracket of the line there is its word only. -/
theorem eq_word_of_bracket {w v : List Char} (hw : '(' ∉ w) (hsplit : l.text ++ b = w ++ '(' :: v) :
    w = l.indent ++ "if".toList := by
  have hbracket {z : List Char} (hz : '(' ∉ z) : ∀ c ∈ z, (c != '(') = true := by
    intro c hc
    rw [bne_iff_ne]
    rintro rfl
    exact hz hc
  have hstart : ∀ z c v, '(' :: z = c :: v → (c != '(') = false := eq_false_of_cons (by decide)
  have hword : '(' ∉ l.indent ++ "if".toList := by
    simp [l.indent_blank.not_mem (by decide : isBlank '(' = false)]
  rw [text_eq, List.append_assoc] at hsplit
  exact (eq_of_append_eq_append (hbracket hw) (hbracket hword) (hstart _) (hstart _) hsplit.symm).1

/-- Behind the blanks of the line there is its word and not the opening of a block. -/
theorem text_ne_block {z : List Char} (hz : Blanks z) : l.text ++ b ≠ z ++ '\x7b' :: r := by
  intro hsplit
  rw [text_eq, List.append_assoc, List.append_assoc] at hsplit
  have hword := (eq_of_append_eq_append hz l.indent_blank (eq_false_of_cons (by decide) _)
    (eq_false_of_cons (by decide) _) hsplit.symm).2
  exact absurd (List.cons.inj hword).1 (by decide)

/-- A statement that begins before the line, not with blanks in front of it, and ends behind the start
of the line, ends at a semicolon. -/
theorem ends_at_semicolon (hspells : conditionStatement.Spells (x ++ y)) (hx : x.getLast? = some '\n')
    (hblank : ¬ Blanks x) (hy : y ≠ []) (hsplit : l.text ++ b = y ++ r) : ∃ z, y = z ++ [';'] := by
  obtain ⟨opening, condition, gap, tail, hopens, hcondition, hgap, htail, heq⟩ :=
    exists_parts_of_spells hspells
  have hfirst {w v : List Char} (hw : '(' ∉ w) (hv : y = w ++ '(' :: v) :
      w = l.indent ++ "if".toList :=
    eq_word_of_bracket hw (by rw [hsplit, hv, List.append_assoc, List.cons_append])
  rcases List.append_eq_append_iff.1 heq with ⟨w, hw, hrest⟩ | ⟨w, hw, hrest⟩
  · -- the bracket of the statement stands in the line, so the statement is that of the line
    have hnot : '(' ∉ w := fun hmem => hopens.not_mem (hw ▸ List.mem_append_right _ hmem)
    rw [hw, hfirst hnot hrest] at hopens
    exact absurd (hopens.blanks_of_append l.indent_blank hx) hblank
  · rcases List.cons_eq_append_iff.1 hrest with ⟨-, hhere⟩ | ⟨w, rfl, hinside⟩
    · exact absurd (hfirst (w := []) List.not_mem_nil hhere) (by simp)
    -- the condition ends in its line, and what follows the bracket goes on in this one
    have hline : '\n' ∈ w := by
      rw [hw, List.getLast?_append, List.getLast?_cons] at hx
      cases hlast : w.getLast? with
      | none =>
          rw [hlast] at hx
          exact absurd (Option.some.inj hx) (by decide)
      | some c =>
          rw [hlast] at hx
          obtain rfl : c = '\n' := Option.some.inj hx
          exact List.mem_of_getLast? hlast
    have hclosed : (condition ++ [')']) ++ (gap ++ tail) = w ++ y := by
      rw [List.append_assoc]
      exact hinside
    rcases List.append_eq_append_iff.1 hclosed with ⟨v, -, hbehind⟩ | ⟨v, hv, -⟩
    · rcases htail with rfl | ⟨z, rfl⟩
      · -- the opening of a block has blanks in front of it, and the line begins with a word
        obtain ⟨z, rfl⟩ : ∃ z, y = z ++ ['\x7b'] := exists_concat_of_append_eq hbehind hy
        have hz : gap = v ++ z := by
          rw [← List.append_assoc] at hbehind
          exact List.append_cancel_right hbehind
        rw [List.append_assoc] at hsplit
        exact absurd hsplit (text_ne_block fun c hc => hgap c (hz ▸ List.mem_append_right _ hc))
      · exact exists_concat_of_append_eq (by rw [List.append_assoc]; exact hbehind) hy
    · have hmem : '\n' ∈ condition ++ [')'] := hv ▸ List.mem_append_left _ hline
      simp [hcondition] at hmem

/-! ## Which statement holds the line -/

/-- A character that no part of a comparison has is not in it. -/
theorem not_mem_comparison (l : CompareLine) {c : Char} (hname : isVariableChar c = false)
    (hoperator : c ∉ " >!< ".toList) (hstring : c ∈ ['"', '\'', '(', ')', '\x7b', ';', '\n'])
    (hquote : ¬ IsQuote c) : c ∉ l.comparison := by
  have hn : c ∉ l.name := by
    intro hmem
    rw [l.name_isVariable.1 c hmem] at hname
    cases hname
  have ho : c ∉ l.operator := by
    rw [CompareLine.operator]
    split
    · exact hoperator
    · intro hmem
      refine hoperator (List.Sublist.subset ?_ hmem)
      decide
  have hs : c ∉ l.string := fun hmem => l.string_plain c hmem hstring
  have hq : c ≠ l.quote := by
    rintro rfl
    exact hquote l.quote_isQuote
  simp [CompareLine.comparison, CompareLine.opening, hn, ho, hs, hq]

theorem not_mem_before (hlead : ';' ∉ l.lead) : ';' ∉ l.before := by
  have hindent : ';' ∉ l.indent := l.indent_blank.not_mem (by decide)
  simp [CompareLine.before, hindent, hlead]

theorem comparison_length_pos (l : CompareLine) : 0 < l.comparison.length := by
  rw [CompareLine.comparison, List.length_append, List.length_append, List.length_singleton]
  omega

/-- The line begins with the comparison and what stands before it. -/
theorem prefix_text (l : CompareLine) (b : List Char) :
    l.before ++ l.comparison <+: l.text ++ b :=
  ⟨l.behind ++ ") \x7b".toList ++ b, by simp [CompareLine.text]⟩

theorem start_lt_stop_of_statement {t : List Char} (hm : m ∈ conditionStatement.findAll t) :
    m.start < m.stop := by
  obtain ⟨u, r, -, hstart, hstop, hspells⟩ := exists_append_of_mem_findAll hm
  obtain ⟨opening, condition, gap, tail, -, -, -, -, htext⟩ := exists_parts_of_spells hspells
  rw [hstart, hstop, htext, List.length_append, List.length_cons]
  omega

theorem takes_text (l : CompareLine) (hb : EndsLine b) (hx : Blanks x) :
    Takes conditionBody (x ++ l.text) b []
      [("condition", l.lead ++ (l.comparison ++ l.behind))] := by
  have hline : '\n' ∉ l.lead ++ (l.comparison ++ l.behind) := by
    have hcomparison : '\n' ∉ l.comparison :=
      not_mem_comparison l (by decide) (by decide) (by decide) (by decide)
    simp [l.lead_line, hcomparison, l.behind_line]
  have hblanks : Blanks (x ++ l.indent) := List.forall_mem_append.2 ⟨hx, l.indent_blank⟩
  have htext : x ++ l.text = (x ++ l.indent) ++ ("if".toList ++ ([] ++ ("(".toList ++
      ((l.lead ++ (l.comparison ++ l.behind)) ++ (")".toList ++ ([' '] ++ "\x7b".toList)))))) := by
    rw [text_eq]
    simp
  rw [htext]
  exact takes_conditionBody hblanks hline hb

/-- A part of the line that ends at a semicolon does not end in the comparison. -/
theorem length_le_before {z : List Char} (hz : z ++ [';'] <+: l.before ++ l.comparison) :
    (z ++ [';']).length ≤ l.before.length := by
  refine Nat.not_lt.1 fun hlt => ?_
  obtain ⟨w, hw⟩ : l.before <+: z ++ [';'] :=
    List.prefix_of_prefix_length_le (List.prefix_append _ _) hz (Nat.le_of_lt hlt)
  have hne : w ≠ [] := by
    rintro rfl
    rw [← hw, List.append_nil] at hlt
    omega
  obtain ⟨w', hw'⟩ := exists_concat_of_append_eq hw.symm hne
  have hinside : w <+: l.comparison := by
    rwa [← hw, List.prefix_append_right_inj] at hz
  exact not_mem_comparison l (by decide) (by decide) (by decide) (by decide)
    (hinside.subset (by simp [hw'] : ';' ∈ w))

/-- **The statement of the line.** What is cut out at the start of the line holds the comparison, or it
begins before the line and ends before the comparison, at a semicolon. -/
theorem covers_or_ends_before (ha : StartsLine a) (hb : EndsLine b)
    (hm : m ∈ conditionStatement.findAll (a ++ (l.text ++ b))) (hoccupies : m.Occupies a.length) :
    a.length + (l.before ++ l.comparison).length ≤ m.stop ∨
      (m.start < a.length ∧ m.stop ≤ a.length + l.before.length ∧ ';' ∈ l.lead) := by
  have hnonempty := start_lt_stop_of_statement hm
  have hstop : a.length < m.stop := by
    have := hoccupies.2
    omega
  obtain ⟨u, x, y, r, rfl, hsplit, htext, hstart, hend, hspells⟩ :=
    exists_split_of_mem_findAll hm hoccupies.1 (by omega)
  have hlonger : (l.before ++ l.comparison).length ≤ l.text.length := by
    simp [CompareLine.text]
  by_cases hx : Blanks x
  · left
    rw [conditionStatement_eq, List.append_assoc, ← List.append_assoc x] at hm
    have hcovers := (covers_of_mem_findAll_lineStart (takes_text l hb hx) hm hstart).stop_eq
    rw [List.length_append] at hcovers ⊢
    omega
  · have hne : x ≠ [] := by
      rintro rfl
      exact hx Blanks.nil
    have hline : x.getLast? = some '\n' := by
      rcases ha with ha | ha
      · exact absurd (List.append_eq_nil_iff.1 ha).2 hne
      · rwa [List.getLast?_append_of_ne_nil _ hne] at ha
    have hy : y ≠ [] := by
      rintro rfl
      rw [List.length_nil] at hend
      omega
    obtain ⟨z, rfl⟩ := ends_at_semicolon (htext ▸ hspells) hline hx hy hsplit
    by_cases hlength : (u ++ x).length + (l.before ++ l.comparison).length ≤ m.stop
    · exact Or.inl hlength
    right
    have hprefix : z ++ [';'] <+: l.before ++ l.comparison := by
      have hy : z ++ [';'] <+: l.text ++ b := ⟨r, hsplit.symm⟩
      exact List.prefix_of_prefix_length_le hy (prefix_text l b) (by omega)
    have hbefore := length_le_before hprefix
    refine ⟨?_, by omega, ?_⟩
    · rw [hstart, List.length_append]
      have := List.length_pos_iff.2 hne
      omega
    · by_contra hlead
      have hinside := List.prefix_of_prefix_length_le hprefix (List.prefix_append _ _) hbefore
      exact not_mem_before hlead (hinside.subset (by simp))

/-! ## Which comparisons are found -/

theorem isFree_misplacedCompare : misplacedCompare.isFree = true := by
  decide

theorem isVariableChar_of_isNameStart {c : Char} (h : isNameStart c = true) :
    isVariableChar c = true := by
  rw [isNameStart, Bool.or_eq_true] at h
  rw [isVariableChar, Char.isAlphanum, Bool.or_eq_true, Bool.or_eq_true]
  exact h.imp Or.inl id

theorem isBlank_of_isVariableChar {c : Char} (h : isVariableChar c = true) : isBlank c = false := by
  have hrange {d e : Char} (hd : 48 ≤ d.toNat) (he : e.toNat ≤ 122)
      (hc : d.val ≤ c.val ∧ c.val ≤ e.val) : 48 ≤ c.toNat ∧ c.toNat ≤ 122 :=
    ⟨Nat.le_trans hd hc.1, Nat.le_trans hc.2 he⟩
  have hbounds : 48 ≤ c.toNat ∧ c.toNat ≤ 122 := by
    rw [isVariableChar, Bool.or_eq_true, beq_iff_eq] at h
    rcases h with h | rfl
    · rcases Bool.or_eq_true_iff.1 h with h | hdigit
      · rcases Bool.or_eq_true_iff.1 h with hupper | hlower
        · exact hrange (d := 'A') (e := 'Z') (by decide) (by decide) (of_decide_eq_true hupper)
        · obtain ⟨hlo, hhi⟩ := Bool.and_eq_true_iff.1 hlower
          exact hrange (d := 'a') (e := 'z') (by decide) (by decide)
            ⟨of_decide_eq_true hlo, of_decide_eq_true hhi⟩
      · obtain ⟨hlo, hhi⟩ := Bool.and_eq_true_iff.1 hdigit
        exact hrange (d := '0') (e := '9') (by decide) (by decide)
          ⟨of_decide_eq_true hlo, of_decide_eq_true hhi⟩
    · decide
  have hapart : ∀ r ∈ blankRanges, r.2 < 48 ∨ 122 < r.1 := by decide
  rw [← Bool.not_eq_true]
  intro hblank
  obtain ⟨r, hr, hlo, hhi⟩ := (inRanges_iff blankRanges_ascending _).1 hblank
  have := hapart r hr
  omega

def compareHead : Pattern :=
  .oneOf [.chain [conditionWord, .blanks, "(", .blanks], .chain ["||", .blanks],
    .chain ["&&", .blanks]]

theorem exists_operator (l : CompareLine) : ∃ bang, (bang = [] ∨ bang = ['!']) ∧
    l.operator = [' '] ++ (['>'] ++ (bang ++ (['<'] ++ [' ']))) := by
  rw [CompareLine.operator]
  cases l.negated with
  | false => exact ⟨[], Or.inl rfl, rfl⟩
  | true => exact ⟨['!'], Or.inr rfl, rfl⟩

/-- A comparison of a variable with a plain name is one that is searched for. -/
theorem spells_opening (h : l.IsPlain) (hx : compareHead.Spells x) :
    misplacedCompare.Spells (x ++ l.opening) := by
  obtain ⟨bang, hbang, hoperator⟩ := exists_operator l
  have hspace : blanks.Spells [' '] := ⟨by simp, by simp, Blanks.space⟩
  have hname : 1 ≤ l.name.length := by
    obtain ⟨c, y, hc, -⟩ := l.name_isVariable.2
    simp [hc]
  have hquote : among "\"'" l.quote = true := by
    rcases l.quote_isQuote.eq_or_eq with hq | hq <;> rw [hq] <;> decide
  have hbang : (optionalChar (· == '!')).Spells bang := by
    rcases hbang with rfl | rfl
    · exact ⟨by simp, by simp, by simp⟩
    · exact ⟨by simp, by simp, by simp⟩
  rw [CompareLine.opening, hoperator]
  exact ⟨x, _, hx, ⟨l.name, _, ⟨hname, by simp, h⟩, ⟨[' '], _, hspace, ⟨['>'], _, rfl, ⟨bang, _,
    hbang, ⟨['<'], _, rfl, ⟨[' '], _, hspace, ⟨l.quote, hquote, rfl⟩, rfl⟩, rfl⟩, rfl⟩, rfl⟩, by simp⟩,
    rfl⟩, rfl⟩

/-- The comparison is found in what holds it, if the name is plain. -/
theorem occursIn_of_plain (h : l.IsPlain) (hx : l.before ++ l.comparison <:+: x) :
    misplacedCompare.occursIn x = true := by
  obtain ⟨z, w, hw, hbefore⟩ : ∃ z w, compareHead.Spells w ∧ l.before = z ++ w := by
    have hspace : blanks.Spells [' '] := ⟨by simp, by simp, Blanks.space⟩
    have hnone : blanks.Spells [] := ⟨by simp, by simp, by simp⟩
    rcases l.lead_end with hlead | ⟨z, hlead | hlead⟩
    · refine ⟨l.indent, "if".toList ++ ([] ++ ("(".toList ++ l.lead)), Or.inl ?_, rfl⟩
      exact ⟨_, _, Or.inl rfl, ⟨[], _, hnone, ⟨_, _, rfl, ⟨by simp, by simp, hlead⟩, rfl⟩, rfl⟩, rfl⟩
    · refine ⟨l.indent ++ ("if(".toList ++ z), "||".toList ++ [' '],
        Or.inr (Or.inl ⟨_, _, rfl, hspace, rfl⟩), ?_⟩
      simp [CompareLine.before, hlead]
    · refine ⟨l.indent ++ ("if(".toList ++ z), "&&".toList ++ [' '],
        Or.inr (Or.inr ⟨_, _, rfl, hspace, rfl⟩), ?_⟩
      simp [CompareLine.before, hlead]
  refine (occursIn_iff_spells isFree_misplacedCompare).2 ⟨_, spells_opening h hw, ?_⟩
  refine List.IsInfix.trans ⟨z, l.string ++ [l.quote], ?_⟩ hx
  rw [hbefore, CompareLine.comparison]
  simp

/-- Blanks behind a text that does not end within a name do not end within one. -/
theorem not_variableChar_of_blanks {w d : List Char} (c : List Char) (hw : w ≠ [])
    (hlast : ∀ f ∈ w.getLast?, isVariableChar f = false) (hd : Blanks d) :
    ∀ f ∈ (c ++ (w ++ d)).getLast?, isVariableChar f = false := by
  intro f hf
  rw [List.getLast?_append_of_ne_nil _ (by simp [hw]), List.getLast?_append] at hf
  cases hd' : d.getLast? with
  | none =>
      rw [hd'] at hf
      exact hlast f hf
  | some e =>
      rw [hd'] at hf
      obtain rfl : e = f := Option.some.inj hf
      have hblank := hd e (List.mem_of_getLast? hd')
      cases hname : isVariableChar e with
      | false => rfl
      | true => rw [isBlank_of_isVariableChar hname] at hblank; cases hblank

theorem not_variableChar_of_spells (c : List Char) (hx : compareHead.Spells x) :
    ∀ f ∈ (c ++ x).getLast?, isVariableChar f = false := by
  rcases hx with ⟨word, _, -, ⟨d, _, -, ⟨_, e, rfl, he, rfl⟩, rfl⟩, rfl⟩ | ⟨_, d, rfl, hd, rfl⟩ |
    ⟨_, d, rfl, hd, rfl⟩
  · have h := not_variableChar_of_blanks (w := "(".toList) (c ++ (word ++ d)) (by simp)
      (by simp; decide) he.2.2
    simpa using h
  · exact not_variableChar_of_blanks c (by simp) (by simp; decide) hd.2.2
  · exact not_variableChar_of_blanks c (by simp) (by simp; decide) hd.2.2

theorem not_variableChar_before (l : CompareLine) (c : List Char) :
    ∀ f ∈ (c ++ l.before).getLast?, isVariableChar f = false := by
  rcases l.lead_end with hlead | ⟨z, hlead | hlead⟩
  · have h := not_variableChar_of_blanks (w := "(".toList) (c ++ (l.indent ++ "if".toList)) (by simp)
      (by simp; decide) hlead
    simpa [CompareLine.before] using h
  · have h := not_variableChar_of_blanks (w := "||".toList) (c ++ (l.indent ++ ("if(".toList ++ z)))
      (by simp) (by simp; decide) Blanks.space
    simpa [CompareLine.before, hlead] using h
  · have h := not_variableChar_of_blanks (w := "&&".toList) (c ++ (l.indent ++ ("if(".toList ++ z)))
      (by simp) (by simp; decide) Blanks.space
    simpa [CompareLine.before, hlead] using h

/-- **Only plain names are found.** A text that is searched for and ends with the quote of the
comparison has the name of the variable where the name of a variable is searched for. -/
theorem plain_of_spells {c : List Char} (hx : misplacedCompare.Spells x)
    (heq : c ++ x = a ++ (l.before ++ l.opening)) : l.IsPlain := by
  obtain ⟨head, _, hhead, ⟨name, _, ⟨hlength, -, hname⟩, ⟨g, _, hg, ⟨_, _, rfl, ⟨bang, _, hbang,
    ⟨_, _, rfl, ⟨g', _, hg', ⟨q, -, rfl⟩, rfl⟩, rfl⟩, rfl⟩, rfl⟩, rfl⟩, rfl⟩, rfl⟩ := hx
  obtain ⟨bang', hbang', hoperator⟩ := exists_operator l
  rw [CompareLine.opening, hoperator] at heq
  have hlast (z : List Char) {cls : Char → Bool} {d : Char} (hd : cls d = false) :
      ∀ f ∈ (z ++ [d]).getLast?, cls f = false := by
    intro f hf
    rw [List.getLast?_concat] at hf
    obtain rfl : d = f := Option.some.inj hf
    exact hd
  have hnamed {z y : List Char} (hy : 1 ≤ y.length) (hchars : ∀ f ∈ y, isVariableChar f = true) :
      ∀ f ∈ (z ++ y).getLast?, isBlank f = false := by
    intro f hf
    rw [List.getLast?_append_of_ne_nil _ (List.length_pos_iff.1 hy)] at hf
    exact isBlank_of_isVariableChar (hchars f (List.mem_of_getLast? hf))
  have hname' : ∀ f ∈ name, isVariableChar f = true :=
    fun f hf => isVariableChar_of_isNameStart (hname f hf)
  -- from the quote backwards, every part ends where the one of the line does
  have hall : (((((((c ++ head) ++ name) ++ g) ++ ['>']) ++ bang) ++ ['<']) ++ g') ++ [q] =
      (((((((a ++ l.before) ++ l.name) ++ [' ']) ++ ['>']) ++ bang') ++ ['<']) ++ [' ']) ++
        [l.quote] := by
    simpa using heq
  have hquote := List.append_inj_left' hall rfl
  have hless := (eq_of_append_eq_append_right (p := isBlank) hg'.2.2 (by simp; decide)
    (hlast _ (by decide)) (hlast _ (by decide)) hquote).1
  have hgreater := (eq_of_append_eq_append_right (p := (· == '!')) hbang.2.2
    (by rcases hbang' with rfl | rfl <;> simp) (hlast _ (by decide)) (hlast _ (by decide))
    (List.append_cancel_right hless)).1
  have hspace := (eq_of_append_eq_append_right (p := isBlank) hg.2.2 (by simp; decide)
    (hnamed hlength hname') (hnamed ?_ l.name_isVariable.1) (List.append_cancel_right hgreater)).1
  · have hsame := (eq_of_append_eq_append_right hname' l.name_isVariable.1
      (not_variableChar_of_spells c hhead) (not_variableChar_before l a) hspace).2
    intro f hf
    exact hname f (hsame ▸ hf)
  · obtain ⟨f, y, hf, -⟩ := l.name_isVariable.2
    simp [hf]

end

/-! ## Which comparisons are told of -/

def compareMessageOpening : String :=
  "VT/Include is using a misplaced compare within an if() call in "

def compareMessage (statement : List Char) : String :=
  compareMessageOpening ++ String.ofList statement

/-- An error shows a statement that holds the comparison, from the start of the line on. -/
def CompareLine.IsToldOf (l : CompareLine) (a b : List Char) (o : Outcome Finding) : Prop :=
  ∃ c x r, a ++ (l.text ++ b) = c ++ (x ++ r) ∧ c.length ≤ a.length ∧
    (a ++ (l.before ++ l.comparison)).length ≤ (c ++ x).length ∧
    ∃ f ∈ o.results, f.severity = .error ∧ f.message = compareMessage x

theorem findings_misplacedCompares {s : Subject} {t : List Char} (w : Surroundings)
    (htext : s.text = .ok t) (hlisted : s.isAmong compareExempt = false) :
    misplacedCompares.findings s w =
      .done (((conditionStatement.findAll t).filter fun m => misplacedCompare.occursIn m.text).map
        fun m => (Remark.error (compareMessage m.text)).toFinding s.file misplacedCompares.name) := by
  simp only [FileCheck.findings, misplacedCompares, hlisted, Subject.onText, Subject.withText, htext,
    Outcome.map, Outcome.done, Bool.false_eq_true, if_false, List.map_map]
  rfl

theorem exists_finding_iff {s : Subject} {t : List Char} (w : Surroundings) (htext : s.text = .ok t)
    (hlisted : s.isAmong compareExempt = false) (x : List Char) :
    (∃ f ∈ (misplacedCompares.findings s w).results, f.severity = .error ∧
      f.message = compareMessage x) ↔
      ∃ m ∈ conditionStatement.findAll t, misplacedCompare.occursIn m.text = true ∧ m.text = x := by
  rw [findings_misplacedCompares w htext hlisted, Outcome.done]
  constructor
  · rintro ⟨f, hf, -, hmessage⟩
    obtain ⟨m, hm, rfl⟩ := List.mem_map.1 hf
    obtain ⟨hm, hoccurs⟩ := List.mem_filter.1 hm
    exact ⟨m, hm, hoccurs, append_ofList_inj hmessage⟩
  · rintro ⟨m, hm, hoccurs, rfl⟩
    exact ⟨_, List.mem_map.2 ⟨m, List.mem_filter.2 ⟨hm, hoccurs⟩, rfl⟩, rfl, rfl⟩

section
variable {l : CompareLine} {a b : List Char} {s : Subject} {w : Surroundings}

/-- A comparison of a variable with a plain name that is not cut off is told of. -/
theorem toldOf_of_plain (ha : StartsLine a) (hb : EndsLine b)
    (htext : s.text = .ok (a ++ (l.text ++ b))) (hlisted : s.isAmong compareExempt = false)
    (hplain : l.IsPlain) (hcut : ¬ l.IsCutOff a b) :
    l.IsToldOf a b (misplacedCompares.findings s w) := by
  have htakes : Takes conditionBody l.text b [] _ := takes_text l hb Blanks.nil
  obtain ⟨m, hm, hoccupies⟩ := htakes.exists_mem_findAll_lineStart ha
  rw [← conditionStatement_eq] at hm
  have hnonempty := start_lt_stop_of_statement hm
  have hstop : a.length < m.stop := by
    have := hoccupies.2
    omega
  have hholds : a.length + (l.before ++ l.comparison).length ≤ m.stop := by
    rcases covers_or_ends_before ha hb hm hoccupies with h | ⟨hstart, hend, -⟩
    · exact h
    · exact absurd ⟨m, hm, hstart, hstop, hend⟩ hcut
  obtain ⟨c, r, heq, hstart, hend, -⟩ := exists_append_of_mem_findAll hm
  have hinside : a ++ (l.before ++ l.comparison) <+: c ++ m.text := by
    have hm : c ++ m.text <+: a ++ (l.text ++ b) := ⟨r, by rw [heq, List.append_assoc]⟩
    refine List.prefix_of_prefix_length_le ?_ hm ?_
    · exact (List.prefix_append_right_inj a).2 (prefix_text l b)
    · simp only [List.length_append] at hholds ⊢
      omega
  obtain ⟨c', rfl⟩ : c <+: a := by
    have ha : a <+: c ++ m.text := (List.prefix_append _ _).trans hinside
    refine List.prefix_of_prefix_length_le (List.prefix_append _ _) ha ?_
    have := hoccupies.1
    omega
  rw [List.append_assoc, List.prefix_append_right_inj] at hinside
  refine ⟨c, m.text, r, heq, by simp, ?_, ?_⟩
  · simp only [List.length_append] at hholds hend ⊢
    omega
  · refine (exists_finding_iff w htext hlisted m.text).2 ⟨m, hm, occursIn_of_plain hplain ?_, rfl⟩
    exact (List.suffix_append c' _).isInfix.trans hinside.isInfix

/-- If the text holds no other misplaced comparison, only that of a variable with a plain name which is
not cut off is told of. -/
theorem plain_of_toldOf (htext : s.text = .ok (a ++ (l.text ++ b)))
    (hlisted : s.isAmong compareExempt = false) (honly : l.IsOnly a b)
    (htold : l.IsToldOf a b (misplacedCompares.findings s w)) : l.IsPlain ∧ ¬ l.IsCutOff a b := by
  obtain ⟨c, x, r, heq, hc, hlength, hfinding⟩ := htold
  obtain ⟨m, hm, hoccurs, rfl⟩ := (exists_finding_iff w htext hlisted x).1 hfinding
  obtain ⟨y, hy, z, z', hz⟩ := (occursIn_iff_spells isFree_misplacedCompare).1 hoccurs
  -- what is found in the statement stands in the text both where the statement does and at `c`
  have hends {c r : List Char} (h : a ++ (l.text ++ b) = c ++ (m.text ++ r)) :
      a ++ (l.text ++ b) = (c ++ z) ++ (y ++ (z' ++ r)) ∧
        ((c ++ z) ++ y).length = (a ++ (l.before ++ l.opening)).length := by
    have hsplit : a ++ (l.text ++ b) = (c ++ z) ++ (y ++ (z' ++ r)) := by
      rw [h, ← hz]
      simp
    exact ⟨hsplit, honly _ _ _ hsplit hy⟩
  obtain ⟨hsplit, hhere⟩ := hends heq
  obtain ⟨u, r', heq', hstart, hstop, -⟩ := exists_append_of_mem_findAll hm
  obtain ⟨-, hthere⟩ := hends heq'
  constructor
  · have hprefix : (c ++ z) ++ y <+: a ++ (l.text ++ b) := ⟨z' ++ r, by rw [hsplit]; simp⟩
    have hprefix' : a ++ (l.before ++ l.opening) <+: a ++ (l.text ++ b) :=
      ⟨l.string ++ [l.quote] ++ (l.behind ++ ") \x7b".toList) ++ b, by
        simp [CompareLine.text, CompareLine.comparison]⟩
    have hsame := List.prefix_of_prefix_length_le hprefix hprefix' (Nat.le_of_eq hhere)
    exact plain_of_spells hy (hsame.eq_of_length hhere)
  · rintro ⟨m', hm', hbegins, hbehind, hbefore⟩
    simp only [List.length_append] at hhere hthere hlength
    obtain rfl : m' = m := by
      refine eq_of_occupies hm' hm (n := a.length) ⟨by omega, by omega⟩ ⟨by omega, ?_⟩
      omega
    have := comparison_length_pos l
    omega

/-- **Which misplaced comparisons are told of.** The check comes to its end. A comparison in the
condition of a line is told of if the name of its variable has letters and underscores only and no
statement that begins before the line ends in the condition before the comparison; the latter takes a
semicolon there. If the file holds no other misplaced comparison, it is told of only then. -/
theorem misplaced_compare_told_iff (w : Surroundings) (ha : StartsLine a) (hb : EndsLine b)
    (htext : s.text = .ok (a ++ (l.text ++ b))) (hlisted : s.isAmong compareExempt = false) :
    (misplacedCompares.findings s w).fault = none ∧
      (l.IsPlain → ';' ∉ l.lead → l.IsToldOf a b (misplacedCompares.findings s w)) ∧
      (l.IsPlain → ¬ l.IsCutOff a b → l.IsToldOf a b (misplacedCompares.findings s w)) ∧
      (l.IsOnly a b → (l.IsToldOf a b (misplacedCompares.findings s w) ↔
        l.IsPlain ∧ ¬ l.IsCutOff a b)) := by
  have hfree (hlead : ';' ∉ l.lead) : ¬ l.IsCutOff a b := by
    rintro ⟨m, hm, hstart, hstop, hend⟩
    rcases covers_or_ends_before ha hb hm ⟨Nat.le_of_lt hstart, by omega⟩ with h | ⟨-, -, hmem⟩
    · have := comparison_length_pos l
      rw [List.length_append] at h
      omega
    · exact hlead hmem
  refine ⟨by rw [findings_misplacedCompares w htext hlisted]; rfl,
    fun hplain hlead => toldOf_of_plain ha hb htext hlisted hplain (hfree hlead),
    toldOf_of_plain ha hb htext hlisted, fun honly => ⟨plain_of_toldOf htext hlisted honly, ?_⟩⟩
  rintro ⟨hplain, hcut⟩
  exact toldOf_of_plain ha hb htext hlisted hplain hcut

end

/-- The line `if( lead name >< "s" ) \x7b`, indented or not. -/
def plainLine (indent lead name : List Char) (hindent : Blanks indent)
    (hlead : '\n' ∉ lead ∧ (Blanks lead ∨ ∃ z, lead = z ++ "|| ".toList ∨ lead = z ++ "&& ".toList))
    (hname : IsVariable name) : CompareLine where
  indent := indent
  lead := lead
  name := name
  negated := false
  quote := '"'
  string := ['s']
  behind := [' ']
  indent_blank := hindent
  lead_line := hlead.1
  lead_end := hlead.2
  name_isVariable := hname
  quote_isQuote := by decide
  string_plain := List.forall_mem_singleton.2 (by decide)
  behind_line := by decide

/-- A line `if( a == 1 || x >< "s" ) \x7b`. -/
def lettersLine : CompareLine :=
  plainLine [' ', ' '] " a == 1 || ".toList ['x'] (List.all_eq_true.1 (by decide))
    ⟨by decide, Or.inr ⟨" a == 1 ".toList, Or.inl (by decide)⟩⟩
    ⟨List.all_eq_true.1 (by decide), 'x', [], rfl, by decide⟩

def digitLine : CompareLine :=
  plainLine [] [' '] ['x', '1'] (List.all_eq_true.1 (by decide))
    ⟨by decide, Or.inl (List.all_eq_true.1 (by decide))⟩
    ⟨List.all_eq_true.1 (by decide), 'x', ['1'], rfl, by decide⟩

def scriptWithText (t : List Char) : Subject where
  root := ⟨"/", []⟩
  file := ⟨"/", ["a.nasl"]⟩
  text := .ok t

theorem scriptWithText_not_listed (t : List Char) :
    (scriptWithText t).isAmong compareExempt = false := by
  change Text.mentionsAny compareExempt (⟨"/", ["a.nasl"]⟩ : Path).toString = false
  decide +kernel

/-- A comparison is told of also in a condition that follows another one without a block. -/
theorem misplaced_compare_told_of_nested :
    let a := "if( b )\n".toList
    let b := "\n  c = 1;\n".toList
    let t := a ++ (lettersLine.text ++ b)
    let w : Surroundings := { tree := .empty, now := default }
    lettersLine.text = "  if( a == 1 || x >< \"s\" ) \x7b".toList ∧ StartsLine a ∧ EndsLine b ∧
      (scriptWithText t).isAmong compareExempt = false ∧
      lettersLine.IsToldOf a b (misplacedCompares.findings (scriptWithText t) w) := by
  intro a b t w
  have ha : StartsLine a := Or.inr (by decide)
  have hb : EndsLine b := Or.inr ⟨"  c = 1;\n".toList, by decide⟩
  have hlisted := scriptWithText_not_listed t
  refine ⟨by decide, ha, hb, hlisted, ?_⟩
  exact (misplaced_compare_told_iff w ha hb rfl hlisted).2.1 (List.all_eq_true.1 (by decide))
    (by decide)

/-- A comparison of a variable with a digit in its name is not told of. -/
theorem digit_in_name_untold :
    let t := digitLine.text ++ ['\n']
    let w : Surroundings := { tree := .empty, now := default }
    digitLine.text = "if( x1 >< \"s\" ) \x7b".toList ∧
      (scriptWithText t).isAmong compareExempt = false ∧
      (misplacedCompares.findings (scriptWithText t) w).results = [] := by
  intro t w
  have hlisted := scriptWithText_not_listed t
  refine ⟨by decide, hlisted, ?_⟩
  rw [findings_misplacedCompares w rfl hlisted]
  decide +kernel

/-- Nor is one behind a semicolon, where a statement from the line before ends. -/
example : let t := "if( a )\n  if( b == \";\" || x >< \"s\" ) \x7b\n".toList
    let w : Surroundings := { tree := .empty, now := default }
    (misplacedCompares.findings (scriptWithText t) w).results = [] := by
  intro t w
  rw [findings_misplacedCompares w rfl (scriptWithText_not_listed t)]
  decide +kernel

end Checks

end NaslLint
