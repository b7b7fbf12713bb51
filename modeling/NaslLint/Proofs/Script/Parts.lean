import NaslLint.Proofs.Pattern.Meaning
import NaslLint.Proofs.Script.Calls

/-!
# The parts of calls

What labels of parameters and the ends of calls look like, and that the patterns for them mean just
that. `Script.means_valueAndEnd` is about the last part of every call: its value, quotes around it,
and what closes the call.
-/

namespace NaslLint.Script

open Pattern Text

def IsLabel (name : String) (x : List Char) : Prop :=
  ∃ b₁ b₂ b₃, Blanks b₁ ∧ Blanks b₂ ∧ Blanks b₃ ∧ x = b₁ ++ (name.toList ++ (b₂ ++ (':' :: b₃)))

def IsCallEnd (x : List Char) : Prop :=
  ∃ b₁ b₂, Blanks b₁ ∧ Blanks b₂ ∧ x = b₁ ++ (')' :: (b₂ ++ [';']))

/-- A value of a kind, with or without quotes around it, and the end of the call. The closing quote may
be left out. -/
def IsValueAndEnd (P : List Char → Prop) (v x : List Char) : Prop :=
  ∃ (s : Option {q : Char // IsQuote q}) (closing ending : List Char), P v ∧
    (closing = (s.map Subtype.val).toList ∨ closing = []) ∧ IsCallEnd ending ∧
    x = (s.map Subtype.val).toList ++ (v ++ (closing ++ ending))

theorem means_label (name : String) :
    Means (label name) fun x g g' => IsLabel name x ∧ g' = g := by
  refine (means_blanks.text_seq (means_blanks.text_seq means_blanks.word_seq).word_seq).congr
    fun x g g' => ?_
  constructor
  · rintro ⟨b₁, _, h₁, ⟨_, ⟨b₂, _, h₂, ⟨b₃, ⟨h₃, rfl⟩, rfl⟩, rfl⟩, rfl⟩, rfl⟩
    exact ⟨⟨b₁, b₂, b₃, h₁, h₂, h₃, rfl⟩, rfl⟩
  · rintro ⟨⟨b₁, b₂, b₃, h₁, h₂, h₃, rfl⟩, rfl⟩
    exact ⟨b₁, _, h₁, ⟨_, ⟨b₂, _, h₂, ⟨b₃, ⟨h₃, rfl⟩, rfl⟩, rfl⟩, rfl⟩, rfl⟩

theorem means_callEnd : Means callEnd fun x g g' => IsCallEnd x ∧ g' = g := by
  refine (means_blanks.text_seq (means_blanks.text_seq means_word).word_seq).congr fun x g g' => ?_
  constructor
  · rintro ⟨b₁, _, h₁, ⟨_, ⟨b₂, _, h₂, ⟨rfl, rfl⟩, rfl⟩, rfl⟩, rfl⟩
    exact ⟨⟨b₁, b₂, h₁, h₂, rfl⟩, rfl⟩
  · rintro ⟨⟨b₁, b₂, h₁, h₂, rfl⟩, rfl⟩
    exact ⟨b₁, _, h₁, ⟨_, ⟨b₂, _, h₂, ⟨rfl, rfl⟩, rfl⟩, rfl⟩, rfl⟩

/-- The groups that a value fills itself do not get into the way of its quotes. -/
theorem means_valueAndEnd {quote : String} (hquote : quote ≠ "value") {value : Pattern}
    {P : List Char → Prop} {inner : List Char → Groups} (hinner : ∀ v, (inner v).lookup quote = none)
    (hvalue : Means value fun v g g' => P v ∧ g' = inner v ++ g) :
    ∃ R, Means (valueAndEnd quote value) R ∧ ∀ x g, g.lookup quote = none →
      (∀ g', R x g g' → ∃ v, g'.lookup "value" = some v ∧ IsValueAndEnd P v x) ∧
      ∀ v, IsValueAndEnd P v x → ∃ g', R x g g' := by
  have hlookup (v : List Char) (g : Groups) :
      (("value", v) :: (inner v ++ g)).lookup quote = g.lookup quote := by
    rw [List.lookup_cons, beq_false_of_ne hquote, List.lookup_append, hinner v, Option.none_or]
  refine ⟨_, means_one.group.optional.seq (hvalue.group.seq
    (means_again.optional.seq means_callEnd)), fun x g hg => ⟨?_, ?_⟩⟩
  · rintro _ ⟨opening, _, g₁, rfl, hopening, v, _, _, rfl, ⟨_, ⟨hv, rfl⟩, rfl⟩, closing, ending, _,
      rfl, hclosing, hending, rfl⟩
    obtain ⟨s, rfl, hs⟩ : ∃ s : Option {q : Char // IsQuote q}, opening = (s.map Subtype.val).toList ∧
        (g₁.lookup quote).getD [] = opening := by
      rcases hopening with ⟨_, ⟨⟨q, hq, rfl⟩, rfl⟩, rfl⟩ | ⟨rfl, rfl⟩
      · exact ⟨some ⟨q, hq⟩, rfl, by rw [List.lookup_cons_self]; rfl⟩
      · exact ⟨none, rfl, by rw [hg]; rfl⟩
    rcases hclosing with ⟨hagain, rfl⟩ | ⟨rfl, rfl⟩
    · refine ⟨v, List.lookup_cons_self, s, closing, ending, hv, Or.inl ?_, hending, rfl⟩
      rw [hlookup] at hagain
      rw [← hs, hagain]
      rfl
    · exact ⟨v, List.lookup_cons_self, s, [], ending, hv, Or.inr rfl, hending, rfl⟩
  · rintro v ⟨s, closing, ending, hv, hclosing, hending, rfl⟩
    rcases s with _ | q
    · obtain rfl : closing = [] := by rcases hclosing with rfl | rfl <;> rfl
      exact ⟨_, [], _, g, rfl, Or.inr ⟨rfl, rfl⟩, v, _, _, rfl, ⟨_, ⟨hv, rfl⟩, rfl⟩, [], ending, _, rfl,
        Or.inr ⟨rfl, rfl⟩, hending, rfl⟩
    · refine ⟨("value", v) :: (inner v ++ (quote, [q.1]) :: g), [q.1], _, (quote, [q.1]) :: g, rfl,
        Or.inl ⟨_, ⟨⟨q.1, q.2, rfl⟩, rfl⟩, rfl⟩, v, _, _, rfl, ⟨_, ⟨hv, rfl⟩, rfl⟩, closing, ending, _,
        rfl, ?_, hending, rfl⟩
      rcases hclosing with rfl | rfl
      · refine Or.inl ⟨?_, rfl⟩
        rw [hlookup]
        exact List.lookup_cons_self
      · exact Or.inr ⟨rfl, rfl⟩

end NaslLint.Script
