import Mathlib.Data.List.Chain
import NaslLint.Proofs.Pattern.Edit
import NaslLint.Proofs.Statement

/-!
# What an update of the statement leaves as it was

Statements are comments: each of their lines opens with a number sign. Calls and marks of a script
are found beside them and never inside, so an updated script is read as before:
`category?_of_updateStatement?` for its category and `occursIn_deprecationMark_of_updateStatement?`
for whether it is still in use.
-/

namespace NaslLint.Checks

open Pattern

/-! ## Comments -/

/-- A comment without calls: its lines open with a number sign, and it ends within a line. -/
structure IsComment (m : List Char) : Prop where
  opens : m.head? = some '#'
  lines : m.IsChain fun c d => c = '\n' → d = '#'
  noCall : ¬ "script_".toList <:+: m
  last : ∃ c, m.getLast? = some c ∧ c ∉ "\nscript_tag".toList

theorem isComment_of_mem_outdatedTexts {old : List Char} (hold : old ∈ outdatedTexts) :
    IsComment old := by
  have hlines : ∀ old ∈ outdatedTexts, old.IsChain fun c d => c = '\n' → d = '#' := by
    decide +kernel
  obtain ⟨hhead, hlast, hcall, -⟩ := form_of_mem_outdatedTexts old hold
  exact ⟨hhead, hlines old hold, Text.not_infix_of_contains hcall, ')', hlast, by decide⟩

theorem isComment_copyrightStatement : IsComment copyrightStatement.toList := by
  have hstatement : copyrightStatement.toList = _ := String.toList_append
  have hform : copyrightStatement.toList.head? = some '#' ∧
      (copyrightStatement.toList.IsChain fun c d => c = '\n' → d = '#') ∧
      Text.contains "script_".toList copyrightStatement.toList = false ∧
      copyrightStatement.toList.getLast? = some '.' := by
    rw [hstatement]
    decide +kernel
  obtain ⟨hhead, hlines, hcall, hlast⟩ := hform
  exact ⟨hhead, hlines, Text.not_infix_of_contains hcall, '.', hlast, by decide⟩

namespace IsComment
variable {m x v b w : List Char} {q : Pattern} {size : Nat} {s : Place}

/-- At the start of each of its lines a comment goes on with a number sign. -/
theorem head?_of_lineStart (h : IsComment m) (hm : m = x ++ v) (hv : v ≠ [])
    (hx : x = [] ∨ x.getLast? = some '\n') : v.head? = some '#' := by
  rcases hx with rfl | hx
  · rw [← h.opens, hm, List.nil_append]
  · obtain ⟨c, v, rfl⟩ := List.exists_cons_of_ne_nil hv
    have hlines := h.lines
    rw [hm, List.isChain_append] at hlines
    exact congrArg some (hlines.2.2 '\n' hx c rfl rfl)

/-- A word that is part of the start of a call does not start inside a comment. -/
theorem ends_word_seq_eq_nil (h : IsComment m) (hw : "script_".toList <+: w)
    (hw' : w ⊆ "\nscript_tag".toList) (hm : m = x ++ v) (hv : v ≠ []) (hs : s.rest = v ++ b) :
    (seq (word w) q).ends size s = [] := by
  refine refuses_word (g := s.texts) ?_ |>.seq size s hs rfl
  rintro ⟨z, hz⟩
  rcases List.append_eq_append_iff.1 hz with ⟨as, rfl, -⟩ | ⟨bs, rfl, -⟩
  · refine h.noCall (hw.isInfix.trans ?_)
    rw [hm]
    exact ⟨x, as, by simp⟩
  · -- the comment would end inside the word
    obtain ⟨c, hlast, hc⟩ := h.last
    rw [hm, List.getLast?_append_of_ne_nil _ hv] at hlast
    exact hc (hw' (List.mem_append_left _ (List.mem_of_getLast? hlast)))

/-- Nothing that stands at the start of a line and opens otherwise stands inside a comment. -/
theorem ends_lineStart_seq_eq_nil (h : IsComment m) {f : Char → Bool}
    (hq : (seq lineStart q).opening = some f) (hf : f '#' = false) (hm : m = x ++ v) (hv : v ≠ [])
    (hs : s.rest = v ++ b) (hprev : x = [] ∨ s.prev = x.getLast?) :
    (seq lineStart q).ends size s = [] := by
  cases hstart : s.atLineStart with
  | false => simp [ends, hstart]
  | true =>
      have hx : x = [] ∨ x.getLast? = some '\n' := by
        rcases hprev with hx | hprev
        · exact .inl hx
        · cases hlast : x.getLast? with
          | none => exact .inl (List.getLast?_eq_none_iff.1 hlast)
          | some c =>
              rw [Place.atLineStart, hprev, hlast] at hstart
              exact .inr (congrArg some (eq_of_beq hstart))
      apply ends_eq_nil_of_not_mayOpen
      obtain ⟨v, rfl⟩ := List.head?_eq_some_iff.1 (h.head?_of_lineStart hm hv hx)
      rw [hq, hs]
      exact hf

theorem overlooks {p : Pattern} (h : IsComment m)
    (hp : ∀ x v b, m = x ++ v → v ≠ [] → ∀ size s, s.rest = v ++ b →
      (x = [] ∨ s.prev = x.getLast?) → p.ends size s = []) : p.Overlooks '#' m := by
  refine ⟨h.opens, fun hlast => ?_, hp⟩
  obtain ⟨c, hlast', hc⟩ := h.last
  rw [hlast'] at hlast
  exact hc (Option.some.inj hlast ▸ (by decide))

end IsComment

theorem overlooks_category {m : List Char} (h : IsComment m) :
    Call.category.pattern.Overlooks '#' m :=
  h.overlooks fun _ _ _ hm hv _ _ hs _ => h.ends_word_seq_eq_nil List.prefix_rfl (by decide) hm hv hs

theorem overlooks_deprecationMark {m : List Char} (h : IsComment m) :
    deprecationMark.Overlooks '#' m := by
  refine h.overlooks fun x v b hm hv size s hs hprev => ?_
  show _ ++ _ = []
  rw [List.append_eq_nil_iff]
  constructor
  · exact h.ends_lineStart_seq_eq_nil rfl (by decide) hm hv hs hprev
  · exact h.ends_word_seq_eq_nil (by decide) (by decide) hm hv hs

theorem usesOnly_deprecationMark : deprecationMark.UsesOnly (· ≠ '#') fun _ => True := by
  have hword (w : String) (h : '#' ∉ w.toList) := Script.usesOnly_word (N := fun _ => True) h
  have hblanks := Script.usesOnly_blanks (N := fun _ => True) (by decide : Text.isBlank '#' = false)
  have hquote := Script.usesOnly_quoteChar (N := fun _ => True) (by decide : ¬ Script.IsQuote '#')
  have hlabel (name : String) (h : '#' ∉ name.toList) := Script.usesOnly_label (N := fun _ => True)
    (by decide : Text.isBlank '#' = false) h (by decide)
  refine ⟨?_, ?_⟩
  · exact ⟨trivial, hblanks, hword "exit" (by decide), hblanks, hword "(" (by decide), hblanks,
      hword "66" (by decide), hblanks, hword ")" (by decide), hblanks, hword ";" (by decide)⟩
  · exact ⟨hword "script_tag" (by decide), hblanks, hword "(" (by decide),
      hlabel "name" (by decide), hquote, hword "deprecated" (by decide), trivial, hblanks,
      hword "," (by decide), hlabel "value" (by decide), hword "TRUE" (by decide),
      Script.usesOnly_callEnd (by decide) (by decide) (by decide)⟩

/-! ## Updated scripts -/

section
variable {t u : List Char}

theorem edited_of_updateStatement? (h : updateStatement? t = some u) :
    ∃ old ∈ outdatedTexts, Edited old copyrightStatement.toList t u := by
  obtain ⟨old, hold, rfl⟩ := exists_replaceAll_of_updateStatement? h
  refine ⟨old, hold, edited_replaceAll ?_ _ t⟩
  rintro rfl
  simpa using (isComment_of_mem_outdatedTexts hold).opens

/-- **The category is read as before.** -/
theorem category?_of_updateStatement? (h : updateStatement? t = some u) :
    category? u = category? t := by
  obtain ⟨old, hold, hedited⟩ := edited_of_updateStatement? h
  have hfind := rel_find?_of_edited (p := Call.category.pattern) rfl usesOnly_category
    (overlooks_category (isComment_of_mem_outdatedTexts hold))
    (overlooks_category isComment_copyrightStatement) hedited
  rw [category?_eq_bind, category?_eq_bind]
  generalize Call.category.pattern.find? t = m, Call.category.pattern.find? u = m' at hfind
  cases hfind with
  | none => rfl
  | some hsame =>
      show Category.ofName? _ = Category.ofName? _
      rw [Match.group, Match.group, hsame.group?_eq]

/-- **Whether a script is in use is read as before.** -/
theorem occursIn_deprecationMark_of_updateStatement? (h : updateStatement? t = some u) :
    deprecationMark.occursIn u = deprecationMark.occursIn t := by
  obtain ⟨old, hold, hedited⟩ := edited_of_updateStatement? h
  have hfind := rel_find?_of_edited (p := deprecationMark) rfl usesOnly_deprecationMark
    (overlooks_deprecationMark (isComment_of_mem_outdatedTexts hold))
    (overlooks_deprecationMark isComment_copyrightStatement) hedited
  unfold occursIn
  generalize deprecationMark.find? t = m, deprecationMark.find? u = m' at hfind
  cases hfind with
  | none => rfl
  | some hsame => rfl

end

end NaslLint.Checks
