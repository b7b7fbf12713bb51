import Mathlib.Data.List.Infix
import NaslLint.Checks.Solution
import NaslLint.Proofs.Script.Calls
import NaslLint.Proofs.Script.Parts

/-!
# What a script without severity is

A script states its score in a call, and a score of zero makes it a script without severity. The
checks read the score in two ways. Most of them use the pattern for the tag; the check of solution
types has a pattern of its own, which allows for other blanks, quotes and digits and leaves the end of
the call open.

* `ScoreHead` is how the call may begin in either form, and `eq_of_reads` says that there is one way
  only to read it;
* `states_plainScore` and `states_cvssBase` say which calls the two patterns find;
* `severity_agreement_iff` says when the two readings agree.
-/

namespace NaslLint

namespace Checks

open Pattern Script Text

/-! ## The two forms -/

abbrev Gap := {b : List Char // Blanks b}

def Gap.none : Gap := ⟨[], Blanks.nil⟩

/-- How a call that states a score begins, up to the score: the blanks between its parts, the quote
around the name of the tag, and the quote before the score if there is one. -/
structure ScoreHead where
  beforeBracket : Gap
  beforeName : Gap
  behindName : Gap
  beforeTag : Gap
  behindTag : Gap
  beforeValue : Gap
  behindValue : Gap
  beforeScore : Gap
  quote : {q : Char // IsQuote q}
  scoreQuote : Option {q : Char // IsQuote q}

namespace ScoreHead

def scoreOpening (h : ScoreHead) : List Char :=
  (h.scoreQuote.map Subtype.val).toList

def write (h : ScoreHead) (z : List Char) : List Char :=
  ["script_tag".toList, h.beforeBracket, "(".toList, h.beforeName, "name".toList, h.behindName,
    ":".toList, h.beforeTag, quoted h.quote "cvss_base".toList, h.behindTag, ",".toList,
    h.beforeValue, "value".toList, h.behindValue, ":".toList, h.beforeScore,
    h.scoreOpening].foldr (· ++ ·) z

theorem write_append (h : ScoreHead) (z r : List Char) : h.write z ++ r = h.write (z ++ r) := by
  have hfoldr (parts : List (List Char)) :
      parts.foldr (· ++ ·) z ++ r = parts.foldr (· ++ ·) (z ++ r) := by
    induction parts with
    | nil => rfl
    | cons part parts ih => rw [List.foldr_cons, List.append_assoc, ih, List.foldr_cons]
  exact hfoldr _

/-- The call begins as the check of solution types has it. -/
def IsPlain (h : ScoreHead) : Prop :=
  h.beforeName.1 = [] ∧ h.behindTag.1 = [] ∧ h.behindValue.1 = [] ∧ h.quote.1 = '"' ∧
    h.scoreOpening = ['"']

end ScoreHead

/-- A score: one digit or two, a point and a digit. -/
def IsScore (v : List Char) : Prop :=
  ∃ ds d, 0 < ds.length ∧ ds.length ≤ 2 ∧ (∀ c ∈ ds, isDigit c = true) ∧ isDigit d = true ∧
    v = ds ++ ['.', d]

/-- A score as the pattern for the tag has it: in ASCII digits, and at most ten. -/
def IsTagScore (v : List Char) : Prop :=
  v = "10.0".toList ∨ ∃ c d, isAsciiDigit c = true ∧ isAsciiDigit d = true ∧ v = [c, '.', d]

/-- A call that states a score, as the check of solution types reads it. -/
def PlainCall (v x : List Char) : Prop :=
  ∃ h : ScoreHead, h.IsPlain ∧ IsScore v ∧ x = h.write (v ++ "\")".toList)

/-- A call that states a score, as all other checks read it. -/
def TagCall (v x : List Char) : Prop :=
  ∃ h : ScoreHead, ∃ closing ending, h.beforeBracket.1 = [] ∧ IsTagScore v ∧
    (closing = h.scoreOpening ∨ closing = []) ∧ IsCallEnd ending ∧
    x = h.write (v ++ (closing ++ ending))

def CommonCall (v x : List Char) : Prop :=
  ∃ h : ScoreHead, ∃ b : Gap, h.IsPlain ∧ h.beforeBracket.1 = [] ∧ IsTagScore v ∧
    x = h.write (v ++ ("\")".toList ++ (b ++ ";".toList)))

/-! ## There is one way to read a call -/

section
variable {h h' : ScoreHead} {v v' r r' u : List Char}

theorem IsTagScore.isScore (hv : IsTagScore v) : IsScore v := by
  rcases hv with rfl | ⟨c, d, hc, hd, rfl⟩
  · exact ⟨['1', '0'], '0', by decide, by decide, List.all_eq_true.1 (by decide), by decide, rfl⟩
  · exact ⟨[c], d, by simp, by simp, by simpa using isDigit_of_isAsciiDigit hc,
      isDigit_of_isAsciiDigit hd, rfl⟩

theorem eq_of_score (hv : IsScore v) (hv' : IsScore v') (heq : v ++ r = v' ++ r') :
    v = v' ∧ r = r' := by
  obtain ⟨ds, d, -, -, hds, -, rfl⟩ := hv
  obtain ⟨ds', d', -, -, hds', -, rfl⟩ := hv'
  have hpoint : ∀ z c y, '.' :: z = c :: y → isDigit c = false := eq_false_of_cons (by decide)
  rw [List.append_assoc, List.append_assoc] at heq
  obtain ⟨rfl, hrest⟩ := eq_of_append_eq_append hds hds' (hpoint _) (hpoint _) heq
  obtain ⟨-, hrest⟩ := List.cons.inj hrest
  obtain ⟨rfl, rfl⟩ := List.cons.inj hrest
  exact ⟨rfl, rfl⟩

/-- Blanks end where a word begins. -/
theorem eq_of_gap {b c : Gap} {w : List Char} (hw : w.head?.all isBlank = false)
    (heq : b.1 ++ (w ++ r) = c.1 ++ (w ++ r')) : b = c ∧ r = r' := by
  have hstart (z : List Char) : ∀ c y, w ++ z = c :: y → isBlank c = false := by
    cases w with
    | nil => simp at hw
    | cons d w => exact eq_false_of_cons (by simpa using hw) _
  obtain ⟨hb, hrest⟩ := eq_of_append_eq_append b.2 c.2 (hstart r) (hstart r') heq
  exact ⟨Subtype.ext hb, List.append_cancel_left hrest⟩

/-- Blanks end where a quote or a score begins. -/
theorem not_blank_of_scoreOpening (h : ScoreHead) (hv : IsScore v) (r : List Char) :
    ∀ c z, h.scoreOpening ++ (v ++ r) = c :: z → isBlank c = false := by
  rintro c z hc
  obtain ⟨ds, d, hds, -, hdigits, -, rfl⟩ := hv
  obtain ⟨e, ds, rfl⟩ := List.exists_cons_of_length_pos hds
  cases hquote : h.scoreQuote with
  | none =>
      rw [ScoreHead.scoreOpening, hquote] at hc
      obtain ⟨rfl, -⟩ := List.cons.inj hc
      cases hblank : isBlank e with
      | false => rfl
      | true => rw [← isDigit_of_isBlank hblank, hdigits e List.mem_cons_self]
  | some q =>
      rw [ScoreHead.scoreOpening, hquote] at hc
      obtain ⟨rfl, -⟩ := List.cons.inj hc
      exact q.2.not_blank

theorem not_isDigit_of_isQuote {q : Char} (hq : IsQuote q) : isDigit q = false := by
  rcases hq.eq_or_eq with rfl | rfl <;> decide

/-- A score does not begin with a quote. -/
theorem quote_ne_score {q : Char} (hq : IsQuote q) (hv : IsScore v) (r z : List Char) :
    q :: z ≠ v ++ r := by
  obtain ⟨ds, d, hds, -, hdigits, -, rfl⟩ := hv
  obtain ⟨e, ds, rfl⟩ := List.exists_cons_of_length_pos hds
  intro heq
  obtain ⟨rfl, -⟩ := List.cons.inj heq
  have hdigit := hdigits q List.mem_cons_self
  rw [not_isDigit_of_isQuote hq] at hdigit
  cases hdigit

theorem eq_of_scoreOpening (hv : IsScore v) (hv' : IsScore v')
    (heq : h.scoreOpening ++ (v ++ r) = h'.scoreOpening ++ (v' ++ r')) :
    h.scoreQuote = h'.scoreQuote ∧ v = v' ∧ r = r' := by
  rw [ScoreHead.scoreOpening, ScoreHead.scoreOpening] at heq
  generalize h.scoreQuote = s, h'.scoreQuote = s' at heq ⊢
  rcases s with _ | q <;> rcases s' with _ | q'
  · exact ⟨rfl, eq_of_score hv hv' heq⟩
  · exact absurd heq.symm (quote_ne_score q'.2 hv _ _)
  · exact absurd heq (quote_ne_score q.2 hv' _ _)
  · obtain ⟨hq, hrest⟩ := List.cons.inj heq
    exact ⟨congrArg some (Subtype.ext hq), eq_of_score hv hv' hrest⟩

/-- **One reading.** A text tells where its blanks and its quotes are and which score it states. -/
theorem eq_of_reads (hv : IsScore v) (hv' : IsScore v')
    (heq : h.write (v ++ r) = h'.write (v' ++ r')) : h = h' ∧ v = v' ∧ r = r' := by
  have hquoted (q : {q : Char // IsQuote q}) (y : List Char) :
      ∀ c z, quoted q.1 "cvss_base".toList ++ y = c :: z → isBlank c = false :=
    eq_false_of_cons q.2.not_blank _
  obtain ⟨hbracket, heq⟩ := eq_of_gap (by decide) (List.append_cancel_left heq)
  obtain ⟨hname, heq⟩ := eq_of_gap (by decide) heq
  obtain ⟨hname', heq⟩ := eq_of_gap (by decide) heq
  obtain ⟨htag, heq⟩ := eq_of_append_eq_append h.beforeTag.2 h'.beforeTag.2 (hquoted _ _)
    (hquoted _ _) heq
  obtain ⟨hquote, -⟩ := List.cons.inj heq
  rw [hquote] at heq
  obtain ⟨htag', heq⟩ := eq_of_gap (by decide) (List.append_cancel_left heq)
  obtain ⟨hvalue, heq⟩ := eq_of_gap (by decide) heq
  obtain ⟨hvalue', heq⟩ := eq_of_gap (by decide) heq
  obtain ⟨hscore, heq⟩ := eq_of_append_eq_append h.beforeScore.2 h'.beforeScore.2
    (not_blank_of_scoreOpening h hv _) (not_blank_of_scoreOpening h' hv' _) heq
  obtain ⟨hopening, rfl, rfl⟩ := eq_of_scoreOpening hv hv' heq
  refine ⟨?_, rfl, rfl⟩
  cases h
  cases h'
  simp_all [Subtype.ext_iff]

theorem opens_plainCall_iff : Opens PlainCall v u ↔
    ∃ h : ScoreHead, ∃ r, h.IsPlain ∧ IsScore v ∧ u = h.write (v ++ ("\")".toList ++ r)) := by
  constructor
  · rintro ⟨_, r, ⟨h, hplain, hv, rfl⟩, rfl⟩
    exact ⟨h, r, hplain, hv, by rw [ScoreHead.write_append, List.append_assoc]⟩
  · rintro ⟨h, r, hplain, hv, rfl⟩
    exact ⟨_, r, ⟨h, hplain, hv, rfl⟩, by rw [ScoreHead.write_append, List.append_assoc]⟩

theorem opens_tagCall_iff : Opens TagCall v u ↔
    ∃ h : ScoreHead, ∃ closing ending r, h.beforeBracket.1 = [] ∧ IsTagScore v ∧
      (closing = h.scoreOpening ∨ closing = []) ∧ IsCallEnd ending ∧
      u = h.write (v ++ (closing ++ (ending ++ r))) := by
  constructor
  · rintro ⟨_, r, ⟨h, closing, ending, hbracket, hv, hclosing, hending, rfl⟩, rfl⟩
    exact ⟨h, closing, ending, r, hbracket, hv, hclosing, hending, by
      rw [ScoreHead.write_append, List.append_assoc, List.append_assoc]⟩
  · rintro ⟨h, closing, ending, r, hbracket, hv, hclosing, hending, rfl⟩
    exact ⟨_, r, ⟨h, closing, ending, hbracket, hv, hclosing, hending, rfl⟩, by
      rw [ScoreHead.write_append, List.append_assoc, List.append_assoc]⟩

/-! ## What the patterns find -/

theorem means_score : Means (.chain [.run .longest 1 (some 2) isDigit, ".", .one isDigit])
    fun x g g' => IsScore x ∧ g' = g := by
  refine (means_run_within.text_seq means_one.word_seq).congr fun x g g' => ?_
  constructor
  · rintro ⟨ds, _, ⟨hlo, hhi, hds⟩, ⟨_, ⟨⟨d, hd, rfl⟩, rfl⟩, rfl⟩, rfl⟩
    exact ⟨⟨ds, d, hlo, hhi 2 rfl, hds, hd, rfl⟩, rfl⟩
  · rintro ⟨⟨ds, d, hlo, hhi, hds, hd, rfl⟩, rfl⟩
    refine ⟨ds, _, ⟨hlo, ?_, hds⟩, ⟨_, ⟨⟨d, hd, rfl⟩, rfl⟩, rfl⟩, rfl⟩
    intro n hn
    rw [← Option.mem_some.1 hn]
    exact hhi

theorem means_tagScore : Means scoreValue fun x g g' => IsTagScore x ∧ g' = g := by
  refine (means_word.alt (means_one.text_seq means_one.word_seq)).congr fun x g g' => ?_
  constructor
  · rintro (⟨rfl, rfl⟩ | ⟨_, _, ⟨c, hc, rfl⟩, ⟨_, ⟨⟨d, hd, rfl⟩, rfl⟩, rfl⟩, rfl⟩)
    · exact ⟨Or.inl rfl, rfl⟩
    · exact ⟨Or.inr ⟨c, d, hc, hd, rfl⟩, rfl⟩
  · rintro ⟨rfl | ⟨c, d, hc, hd, rfl⟩, rfl⟩
    · exact Or.inl ⟨rfl, rfl⟩
    · exact Or.inr ⟨_, _, ⟨c, hc, rfl⟩, ⟨_, ⟨⟨d, hd, rfl⟩, rfl⟩, rfl⟩, rfl⟩

theorem isQuote_double : IsQuote '"' := by
  decide

def plainHead (b₀ b₂ b₃ b₅ b₇ : Gap) : ScoreHead :=
  ⟨b₀, .none, b₂, b₃, .none, b₅, .none, b₇, ⟨'"', isQuote_double⟩, some ⟨'"', isQuote_double⟩⟩

theorem write_plainHead (b₀ b₂ b₃ b₅ b₇ : Gap) (z : List Char) : (plainHead b₀ b₂ b₃ b₅ b₇).write z =
    "script_tag".toList ++ (b₀ ++ ("(name".toList ++ (b₂ ++ (":".toList ++ (b₃ ++
      ("\"cvss_base\",".toList ++ (b₅ ++ ("value:".toList ++ (b₇ ++ ("\"".toList ++ z)))))))))) := by
  have hjoin (w₀ w₁ w₂ w₃ w₄ w₅ w₆ w₇ w₈ : List Char) :
      w₀ ++ (b₀.1 ++ (w₁ ++ ([] ++ (w₂ ++ (b₂.1 ++ (w₃ ++ (b₃.1 ++ (w₄ ++ ([] ++ (w₅ ++ (b₅.1 ++
        (w₆ ++ ([] ++ (w₇ ++ (b₇.1 ++ (w₈ ++ z)))))))))))))))) = w₀ ++ (b₀.1 ++ ((w₁ ++ w₂) ++ (b₂.1 ++
        (w₃ ++ (b₃.1 ++ ((w₄ ++ w₅) ++ (b₅.1 ++ ((w₆ ++ w₇) ++ (b₇.1 ++ (w₈ ++ z)))))))))) := by simp
  exact hjoin "script_tag".toList "(".toList "name".toList ":".toList (quoted '"' "cvss_base".toList)
    ",".toList "value".toList ":".toList "\"".toList

theorem ScoreHead.IsPlain.eq_plainHead (hplain : h.IsPlain) :
    h = plainHead h.beforeBracket h.behindName h.beforeTag h.beforeValue h.beforeScore := by
  obtain ⟨hname, htag, hvalue, hquote, hopening⟩ := hplain
  obtain ⟨b₀, b₁, b₂, b₃, b₄, b₅, b₆, b₇, q, s⟩ := h
  rcases s with _ | s
  · cases hopening
  · have hs : s.1 = '"' := (List.cons.inj hopening).1
    simp_all [plainHead, Gap.none, Subtype.ext_iff]

/-- **What the check of solution types finds.** -/
theorem states_plainScore : States plainScore "score" PlainCall := by
  refine ⟨⟨_, (means_blanks.text_seq (means_blanks.text_seq (means_blanks.text_seq
    (means_blanks.text_seq (means_blanks.text_seq (means_score.group_seq
      means_word).word_seq).word_seq).word_seq).word_seq).word_seq).word_seq, ?_, ?_⟩, ?_⟩
  · rintro x g ⟨_, ⟨b₀, _, h₀, ⟨_, ⟨b₂, _, h₂, ⟨_, ⟨b₃, _, h₃, ⟨_, ⟨b₅, _, h₅, ⟨_, ⟨b₇, _, h₇,
      ⟨_, ⟨v, _, hv, ⟨rfl, rfl⟩, rfl⟩, rfl⟩, rfl⟩, rfl⟩, rfl⟩, rfl⟩, rfl⟩, rfl⟩, rfl⟩, rfl⟩, rfl⟩, rfl⟩
    refine ⟨v, List.lookup_cons_self, plainHead ⟨b₀, h₀⟩ ⟨b₂, h₂⟩ ⟨b₃, h₃⟩ ⟨b₅, h₅⟩ ⟨b₇, h₇⟩, ?_, hv,
      ?_⟩
    · exact ⟨rfl, rfl, rfl, rfl, rfl⟩
    · rw [write_plainHead]
  · rintro v x ⟨h, hplain, hv, rfl⟩
    rw [hplain.eq_plainHead, write_plainHead]
    exact ⟨_, _, ⟨_, _, h.beforeBracket.2, ⟨_, ⟨_, _, h.behindName.2, ⟨_, ⟨_, _, h.beforeTag.2, ⟨_,
      ⟨_, _, h.beforeValue.2, ⟨_, ⟨_, _, h.beforeScore.2, ⟨_, ⟨v, _, hv, ⟨rfl, rfl⟩, rfl⟩, rfl⟩, rfl⟩,
      rfl⟩, rfl⟩, rfl⟩, rfl⟩, rfl⟩, rfl⟩, rfl⟩, rfl⟩, rfl⟩
  · intro u v v' hv hv'
    obtain ⟨h, r, -, hscore, rfl⟩ := opens_plainCall_iff.1 hv
    obtain ⟨h', r', -, hscore', heq⟩ := opens_plainCall_iff.1 hv'
    exact (eq_of_reads hscore hscore' heq).2.1

theorem write_of_beforeBracket (hbracket : h.beforeBracket.1 = []) (z : List Char) : h.write z =
    "script_tag(".toList ++ ((h.beforeName.1 ++ ("name".toList ++ (h.behindName.1 ++
      (':' :: h.beforeTag.1)))) ++ ([h.quote.1] ++ ("cvss_base".toList ++ ([h.quote.1] ++
      (h.behindTag.1 ++ (",".toList ++ ((h.beforeValue.1 ++ ("value".toList ++ (h.behindValue.1 ++
      (':' :: h.beforeScore.1)))) ++ (h.scoreOpening ++ z)))))))) := by
  have hjoin (w₀ w₁ w₂ w₃ w₄ w₅ b₁ b₂ b₃ b₄ b₅ b₆ b₇ y : List Char) (c q : Char) :
      w₀ ++ ([] ++ (w₁ ++ (b₁ ++ (w₂ ++ (b₂ ++ ([c] ++ (b₃ ++ (quoted q w₃ ++ (b₄ ++ (w₄ ++ (b₅ ++
        (w₅ ++ (b₆ ++ ([c] ++ (b₇ ++ (y ++ z)))))))))))))))) =
      (w₀ ++ w₁) ++ ((b₁ ++ (w₂ ++ (b₂ ++ c :: b₃))) ++ ([q] ++ (w₃ ++ ([q] ++ (b₄ ++ (w₄ ++
        ((b₅ ++ (w₅ ++ (b₆ ++ c :: b₇))) ++ (y ++ z)))))))) := by
    simp [quoted]
  rw [ScoreHead.write, hbracket]
  exact hjoin "script_tag".toList "(".toList "name".toList "cvss_base".toList ",".toList
    "value".toList _ _ _ _ _ _ _ _ ':' _

/-- **What all other checks find.** -/
theorem states_cvssBase : States Tag.cvssBase.pattern "value" TagCall := by
  obtain ⟨R, hR, hvalue⟩ := means_valueAndEnd (show "quote2" ≠ "value" by decide)
    (fun _ => List.lookup_nil) means_tagScore
  have hgroups (n q : List Char) : [("name", n), ("quote", q)].lookup "quote2" = none := by simp
  refine ⟨⟨_, ((means_label "name").text_seq (means_one.group_seq (means_word.group_seq
    (means_blanks.text_seq ((means_label "value").text_seq hR).word_seq).again_seq))).word_seq,
    ?_, ?_⟩, ?_⟩
  · rintro x g ⟨_, ⟨_, _, ⟨b₁, b₂, b₃, h₁, h₂, h₃, rfl⟩, ⟨_, _, ⟨q, hq, rfl⟩, ⟨_, _, rfl, ⟨again, _,
      hagain, ⟨b₄, _, h₄, ⟨_, ⟨_, x, ⟨b₅, b₆, b₇, h₅, h₆, h₇, rfl⟩, hx, rfl⟩, rfl⟩, rfl⟩, rfl⟩, rfl⟩,
      rfl⟩, rfl⟩, rfl⟩
    obtain rfl : [q] = again := Option.some.inj hagain
    obtain ⟨v, hlookup, s, closing, ending, hv, hclosing, hending, rfl⟩ :=
      (hvalue x _ (hgroups _ _)).1 g hx
    refine ⟨v, hlookup, ⟨.none, ⟨b₁, h₁⟩, ⟨b₂, h₂⟩, ⟨b₃, h₃⟩, ⟨b₄, h₄⟩, ⟨b₅, h₅⟩,
      ⟨b₆, h₆⟩, ⟨b₇, h₇⟩, ⟨q, hq⟩, s⟩, closing, ending, rfl, hv, hclosing, hending, ?_⟩
    rw [write_of_beforeBracket rfl]
    rfl
  · rintro v x ⟨h, closing, ending, hbracket, hv, hclosing, hending, rfl⟩
    obtain ⟨g, hg⟩ := (hvalue _ _ (hgroups "cvss_base".toList [h.quote.1])).2 v
      ⟨h.scoreQuote, closing, ending, hv, hclosing, hending, rfl⟩
    rw [write_of_beforeBracket hbracket]
    exact ⟨g, _, ⟨_, _, ⟨_, _, _, h.beforeName.2, h.behindName.2, h.beforeTag.2, rfl⟩, ⟨_, _,
      ⟨h.quote.1, h.quote.2, rfl⟩, ⟨_, _, rfl, ⟨[h.quote.1], _, rfl, ⟨_, _, h.behindTag.2, ⟨_, ⟨_, _,
      ⟨_, _, _, h.beforeValue.2, h.behindValue.2, h.beforeScore.2, rfl⟩, hg, rfl⟩, rfl⟩, rfl⟩, rfl⟩,
      rfl⟩, rfl⟩, rfl⟩, rfl⟩
  · intro u v v' hv hv'
    obtain ⟨h, closing, ending, r, -, hscore, -, -, rfl⟩ := opens_tagCall_iff.1 hv
    obtain ⟨h', closing', ending', r', -, hscore', -, -, heq⟩ := opens_tagCall_iff.1 hv'
    exact (eq_of_reads hscore.isScore hscore'.isScore heq).2.1

/-! ## When the readings agree -/

def zeroScore : List Char :=
  "0.0".toList

theorem plainlyWithoutSeverity_iff (t : List Char) :
    plainlyWithoutSeverity t = true ↔ FirstStates PlainCall zeroScore t := by
  rw [← states_plainScore.find?_iff, plainlyWithoutSeverity, Option.any_eq_true]
  simp only [beq_iff_eq, zeroScore]

theorem hasNoSeverity_iff (t : List Char) :
    hasNoSeverity t = true ↔ FirstStates TagCall zeroScore t := by
  rw [← states_cvssBase.find?_iff, hasNoSeverity, score?, beq_iff_eq, Option.map_eq_some_iff]
  rfl

/-- A text that opens with a call of each form opens with one that has both, and is read alike. -/
theorem opens_common_iff :
    Opens PlainCall v u ∧ Opens TagCall v' u ↔ v = v' ∧ Opens CommonCall v u := by
  constructor
  · rintro ⟨hplain, htag⟩
    obtain ⟨h, r, hhead, hscore, rfl⟩ := opens_plainCall_iff.1 hplain
    obtain ⟨h', closing, ending, r', hbracket, hscore', hclosing, ⟨b₁, b₂, hb₁, hb₂, rfl⟩, heq⟩ :=
      opens_tagCall_iff.1 htag
    obtain ⟨rfl, rfl, hrest⟩ := eq_of_reads hscore hscore'.isScore heq
    have hclosed : closing = ['"'] := by
      rcases hclosing with rfl | rfl
      · exact hhead.2.2.2.2
      -- without a closing quote the blanks before the bracket would begin with one
      rw [List.nil_append, List.append_assoc] at hrest
      have hbracket := (eq_of_append_eq_append (u := []) (by simp) hb₁
        (eq_false_of_cons (d := '"') (by decide) _) (eq_false_of_cons (d := ')') (by decide) _)
        hrest).2
      exact absurd (List.cons.inj hbracket).1 (by decide)
    rw [hclosed, List.append_assoc] at hrest
    have hbehind : r = (b₂ ++ [';']) ++ r' := (eq_of_gap (b := .none) (c := ⟨b₁, hb₁⟩)
      (w := [')']) (by decide) (List.cons.inj hrest).2).2
    refine ⟨rfl, _, r', ⟨h, ⟨b₂, hb₂⟩, hhead, hbracket, hscore', rfl⟩, ?_⟩
    rw [ScoreHead.write_append, hbehind]
    simp only [List.append_assoc]
    rfl
  · rintro ⟨rfl, x, r, ⟨h, b, hhead, hbracket, hscore, rfl⟩, rfl⟩
    rw [ScoreHead.write_append]
    constructor
    · exact opens_plainCall_iff.2 ⟨h, b.1 ++ (";".toList ++ r), hhead, hscore.isScore, by
        rw [List.append_assoc, List.append_assoc, List.append_assoc]⟩
    · refine opens_tagCall_iff.2 ⟨h, h.scoreOpening, ')' :: (b.1 ++ [';']), r, hbracket, hscore,
        Or.inl rfl, ⟨[], b.1, Blanks.nil, b.2, rfl⟩, ?_⟩
      rw [hhead.2.2.2.2, List.append_assoc, List.append_assoc, List.append_assoc]
      simp

/-- All readings of a text state the same score. -/
theorem reads_alike (hv : Opens PlainCall v u ∨ Opens TagCall v u)
    (hv' : Opens PlainCall v' u ∨ Opens TagCall v' u) : v = v' := by
  rcases hv with hv | hv <;> rcases hv' with hv' | hv'
  · exact states_plainScore.unique u v v' hv hv'
  · exact (opens_common_iff.1 ⟨hv, hv'⟩).1
  · exact (opens_common_iff.1 ⟨hv', hv⟩).1.symm
  · exact states_cvssBase.unique u v v' hv hv'

/-- A call of the common form is read alike. -/
theorem opens_iff_of_common (h : Opens CommonCall v u) (v' : List Char) :
    Opens PlainCall v' u ↔ Opens TagCall v' u := by
  obtain ⟨hplain, htag⟩ := opens_common_iff.2 ⟨rfl, h⟩
  constructor
  · intro hv'
    rwa [reads_alike (Or.inl hv') (Or.inl hplain)]
  · intro hv'
    rwa [reads_alike (Or.inr hv') (Or.inr htag)]

end

def StatesScore (u : List Char) : Prop :=
  ∃ v, Opens PlainCall v u ∨ Opens TagCall v u

section
variable {C D : List Char → List Char → Prop} {v t : List Char}

theorem firstStates_congr (h : ∀ u, u <:+ t → ∀ v, Opens C v u ↔ Opens D v u) :
    FirstStates C v t ↔ FirstStates D v t := by
  refine exists_congr fun a => exists_congr fun u => and_congr_right fun ht => ?_
  subst ht
  refine and_congr (h u (List.suffix_append a u) v) (forall_congr' fun b => ?_)
  refine forall_congr' fun hb => forall_congr' fun _ => forall_congr' fun v' => not_congr (h _ ?_ v')
  obtain ⟨c, rfl⟩ := hb
  exact ⟨c, by rw [List.append_assoc]⟩

/-- Where nothing of the kind stands anywhere else, what stands here is the first. -/
theorem firstStates_iff_of_only {a u : List Char} (ht : t = a ++ u)
    (honly : ∀ u', u' <:+ t → ∀ v', Opens C v' u' → u' = u) : FirstStates C v t ↔ Opens C v u := by
  constructor
  · rintro ⟨a', u', rfl, hv, -⟩
    rwa [← honly u' (List.suffix_append a' u') v hv]
  · intro hv
    refine ⟨a, u, ht, hv, ?_⟩
    rintro b ⟨c, rfl⟩ hb v' hv'
    have heq := honly (b ++ u) ⟨c, by rw [ht, List.append_assoc]⟩ v' hv'
    exact hb (by simpa using heq)

end

/-- What the check of solution types says of a script that states none. -/
theorem solutionType_quiet_iff {s : Subject} {t : List Char} (w : Surroundings)
    (htext : s.text = .ok t) (hscript : s.file.isInclude = false)
    (huntyped : plainSolutionType.find? t = none) :
    (solutionType.findings s w).results = [] ↔ plainlyWithoutSeverity t = true := by
  simp only [FileCheck.findings, solutionType, Subject.onScript, Subject.withText, htext,
    Subject.unlessInclude, hscript, huntyped, Outcome.map, Outcome.done]
  cases plainlyWithoutSeverity t <;> simp

/-- **When the readings agree.** A script that states no type of solution passes the check of solution
types if and only if the first call that this check can read states a score of zero; to all other checks
it has no severity if and only if the first call that fits the pattern of the tag does. So they agree if
and only if both of these calls state zero or neither does. They agree if every call that one of them
reads has the form that both read. If there is one call only, they agree if and only if it states
another score than zero or has that form. -/
theorem severity_agreement_iff (t : List Char) :
    (∀ s w, s.text = .ok t → s.file.isInclude = false → plainSolutionType.find? t = none →
      ((solutionType.findings s w).results = [] ↔ FirstStates PlainCall zeroScore t)) ∧
    (hasNoSeverity t = true ↔ FirstStates TagCall zeroScore t) ∧
    (plainlyWithoutSeverity t = hasNoSeverity t ↔
      (FirstStates PlainCall zeroScore t ↔ FirstStates TagCall zeroScore t)) ∧
    ((∀ u, u <:+ t → StatesScore u → ∃ v, Opens CommonCall v u) →
      plainlyWithoutSeverity t = hasNoSeverity t) ∧
    ∀ a u v, t = a ++ u → (Opens PlainCall v u ∨ Opens TagCall v u) →
      (∀ u', u' <:+ t → StatesScore u' → u' = u) →
        (plainlyWithoutSeverity t = hasNoSeverity t ↔ v ≠ zeroScore ∨ Opens CommonCall v u) := by
  have hagree : plainlyWithoutSeverity t = hasNoSeverity t ↔
      (FirstStates PlainCall zeroScore t ↔ FirstStates TagCall zeroScore t) := by
    rw [Bool.eq_iff_iff, plainlyWithoutSeverity_iff, hasNoSeverity_iff]
  refine ⟨fun s w htext hscript huntyped => ?_, hasNoSeverity_iff t, hagree, fun hcommon => ?_,
    fun a u v ht hv honly => ?_⟩
  · rw [solutionType_quiet_iff w htext hscript huntyped, plainlyWithoutSeverity_iff]
  · refine hagree.2 (firstStates_congr fun u hu v => ?_)
    constructor
    · intro hv
      obtain ⟨v', hv'⟩ := hcommon u hu ⟨v, Or.inl hv⟩
      exact (opens_iff_of_common hv' v).1 hv
    · intro hv
      obtain ⟨v', hv'⟩ := hcommon u hu ⟨v, Or.inr hv⟩
      exact (opens_iff_of_common hv' v).2 hv
  · rw [hagree,
      firstStates_iff_of_only ht fun u' hu' v' hv' => honly u' hu' ⟨v', Or.inl hv'⟩,
      firstStates_iff_of_only ht fun u' hu' v' hv' => honly u' hu' ⟨v', Or.inr hv'⟩]
    constructor
    · intro hboth
      by_cases hzero : v = zeroScore
      · subst hzero
        right
        rcases hv with hv | hv
        · exact (opens_common_iff.1 ⟨hv, hboth.1 hv⟩).2
        · exact (opens_common_iff.1 ⟨hboth.2 hv, hv⟩).2
      · exact Or.inl hzero
    · rintro (hne | hcommon)
      · exact iff_of_false (fun h => hne (reads_alike hv (Or.inl h)))
          fun h => hne (reads_alike hv (Or.inr h))
      · exact opens_iff_of_common hcommon zeroScore

theorem StatesScore.opening_prefix {u : List Char} (h : StatesScore u) :
    "script_tag".toList <+: u := by
  obtain ⟨v, hv | hv⟩ := h
  · obtain ⟨h, r, -, -, rfl⟩ := opens_plainCall_iff.1 hv
    exact List.prefix_append _ _
  · obtain ⟨h, closing, ending, r, -, -, -, -, rfl⟩ := opens_tagCall_iff.1 hv
    exact List.prefix_append _ _

def usualZero : List Char :=
  "script_tag(name:\"cvss_base\", value:\"0.0\");\n".toList

def spacedZero : List Char :=
  "script_tag( name:\"cvss_base\", value:\"0.0\");\n".toList

theorem opens_usualZero : Opens CommonCall zeroScore usualZero := by
  refine ⟨_, ['\n'], ⟨plainHead .none .none .none ⟨[' '], Blanks.space⟩ .none, .none,
    ⟨rfl, rfl, rfl, rfl, rfl⟩, rfl, Or.inr ⟨'0', '0', by decide, by decide, rfl⟩, rfl⟩, ?_⟩
  rw [write_plainHead]
  decide

/-- A score that is stated in the usual way is read alike. -/
theorem severity_agreement_of_usual : Opens CommonCall zeroScore usualZero ∧
    plainlyWithoutSeverity usualZero = hasNoSeverity usualZero := by
  refine ⟨opens_usualZero, (severity_agreement_iff usualZero).2.2.2.1 fun u hu hstates => ?_⟩
  have honly : usualZero.tails.all
      (fun u => !"script_tag".toList.isPrefixOf u || u == usualZero) = true := by decide
  have hone := List.all_eq_true.1 honly u ((List.mem_tails _ _).2 hu)
  rw [List.isPrefixOf_iff_prefix.2 hstates.opening_prefix] at hone
  obtain rfl : u = usualZero := by simpa using hone
  exact ⟨_, opens_usualZero⟩

/-- A blank before the first label makes a script without severity one with severity for the check of
solution types. -/
theorem spacedZero_divides :
    let s : Subject := { root := ⟨"/", []⟩, file := ⟨"/", ["a.nasl"]⟩, text := .ok spacedZero }
    let w : Surroundings := { tree := .empty, now := default }
    hasNoSeverity spacedZero = true ∧ plainlyWithoutSeverity spacedZero = false ∧
      (cveFormat.findings s w).results = [] ∧
      (solutionType.findings s w).results.map (·.message) = ["VT does not contain a solution_type"] := by
  intro s w
  decide +kernel

end Checks

end NaslLint
