import Mathlib.Data.List.Infix
import NaslLint.Proofs.SharedReading
import NaslLint.Proofs.UpdatedScript

/-!
# Updating statements round by round

An update exchanges all copies of one outdated statement, so a script with several kinds of them
needs several rounds. No copy of an outdated statement can overlap a copy of another one or of the
statement that replaces it; so a round takes away one kind and neither makes nor spoils any other.

* `Text.Clear` says that no copy of a word can start inside a copy of another one.
* `Swapped` relates a text with the same text after blocks have been exchanged; `Swapped.split` says
  that words clear of the blocks stand in both.
* `Checks.standing` are the outdated statements at the start of a line, and
  `Checks.length_standing_updated` says that a round takes one of them away.
* `Checks.statement_rounds_end` is the statement about rounds of examination and repair.
-/

namespace NaslLint

/-! ## Words that cannot overlap -/

namespace Text

/-- Whether two words differ within what both have. -/
def differ (x y : List Char) : Bool :=
  !x.isPrefixOf y && !y.isPrefixOf x

/-- No copy of the second word starts inside a copy of the first one: every part with which the first
ends differs from the second. -/
def Clear (x z : List Char) : Prop :=
  ∀ v, v <:+ x → v ≠ [] → ¬ v <+: z ∧ ¬ z <+: v

def isClear (x z : List Char) : Bool :=
  x.tails.all fun v => v.isEmpty || differ v z

section
variable {x y z t : List Char}

theorem differ_iff : differ x y = true ↔ ¬ x <+: y ∧ ¬ y <+: x := by
  simp [differ, ← List.isPrefixOf_iff_prefix]

theorem clear_of_isClear (h : isClear x z = true) : Clear x z := by
  intro v hv hne
  have htest := List.all_eq_true.1 h v ((List.mem_tails v x).2 hv)
  simpa [hne, differ_iff] using htest

theorem Clear.cons {c : Char} (hc : ¬ c :: x <+: z ∧ ¬ z <+: c :: x) (h : Clear x z) :
    Clear (c :: x) z := by
  intro v hv hne
  rcases List.suffix_cons_iff.1 hv with rfl | hv
  · exact hc
  · exact h v hv hne

/-- What differs from a beginning differs from the whole. -/
theorem Clear.of_beginning (h : Clear x y) (hy : y <+: z) : Clear x z := by
  intro v hv hne
  obtain ⟨hvy, hyv⟩ := h v hv hne
  constructor
  · intro hvz
    rcases List.prefix_or_prefix_of_prefix hvz hy with h' | h'
    · exact hvy h'
    · exact hyv h'
  · exact fun hzv => hyv (hy.trans hzv)

theorem Clear.suffix (h : Clear x z) (hy : y <:+ x) : Clear y z :=
  fun v hv => h v (hv.trans hy)

/-- A word that does not start inside the text in front stands in the text behind it. -/
theorem Clear.infix_of_infix_append (h : Clear x z) (hz : z <:+: x ++ t) : z <:+: t := by
  induction x with
  | nil => exact hz
  | cons c x ih =>
      rcases List.infix_cons_iff.1 hz with hpre | hinfix
      · have hclear := h (c :: x) List.suffix_rfl (by simp)
        rcases List.prefix_or_prefix_of_prefix hpre (List.prefix_append (c :: x) t) with h' | h'
        · exact absurd h' hclear.2
        · exact absurd h' hclear.1
      · exact ih (h.suffix (List.suffix_cons c x)) hinfix

end

def startsLine (x t : List Char) : Bool :=
  x.isPrefixOf t || contains ('\n' :: x) t

theorem startsLine_iff {x t : List Char} :
    startsLine x t = true ↔ ∃ a b, t = a ++ (x ++ b) ∧ ∀ c ∈ a.getLast?, c = '\n' := by
  rw [startsLine, Bool.or_eq_true, List.isPrefixOf_iff_prefix, contains_iff]
  constructor
  · rintro (⟨b, rfl⟩ | ⟨a, b, rfl⟩)
    · exact ⟨[], b, rfl, by simp⟩
    · exact ⟨a ++ ['\n'], b, by simp, by simp⟩
  · rintro ⟨a, b, rfl, hlast⟩
    rcases List.eq_nil_or_concat' a with rfl | ⟨a, c, rfl⟩
    · exact .inl (List.prefix_append x b)
    · obtain rfl : c = '\n' := hlast c (by simp)
      exact .inr ⟨a, b, by simp⟩

end Text

/-! ## Exchanged blocks -/

/-- A text and the same text with some blocks exchanged, each for one that belongs to it. -/
inductive Swapped (R : List Char → List Char → Prop) : List Char → List Char → Prop
  | nil : Swapped R [] []
  | keep (c : Char) {t u : List Char} : Swapped R t u → Swapped R (c :: t) (c :: u)
  | swap {x y t u : List Char} : R x y → Swapped R t u → Swapped R (x ++ t) (y ++ u)

namespace Swapped
variable {R S : List Char → List Char → Prop} {a b t u v x : List Char}

theorem mono (h : Swapped R t u) (hRS : ∀ x y, R x y → S x y) : Swapped S t u := by
  induction h with
  | nil => exact .nil
  | keep c _ ih => exact .keep c ih
  | swap hxy _ ih => exact .swap (hRS _ _ hxy) ih

theorem symm (h : Swapped R t u) : Swapped (fun x y => R y x) u t := by
  induction h with
  | nil => exact .nil
  | keep c _ ih => exact .keep c ih
  | swap hxy _ ih => exact .swap hxy ih

theorem refl (R : List Char → List Char → Prop) (t : List Char) : Swapped R t t := by
  induction t with
  | nil => exact .nil
  | cons c t ih => exact .keep c ih

/-- A word that is clear of all blocks, at the start of the text, is kept. -/
theorem peel (h : Swapped R (x ++ b) u) (hx : ∀ y z, R y z → Text.Clear x y) :
    ∃ b', u = x ++ b' ∧ Swapped R b b' := by
  induction x generalizing u with
  | nil => exact ⟨u, rfl, h⟩
  | cons c x ih =>
      have hsuffix : ∀ y z, R y z → Text.Clear x y :=
        fun y z hyz => (hx y z hyz).suffix (List.suffix_cons c x)
      generalize ht : c :: x ++ b = t at h
      cases h with
      | nil => simp at ht
      | keep d h =>
          obtain ⟨rfl, rfl⟩ := List.cons.inj ht
          obtain ⟨b', rfl, hb⟩ := ih h hsuffix
          exact ⟨b', rfl, hb⟩
      | @swap y z t u hyz h =>
          have hclear := hx y z hyz (c :: x) List.suffix_rfl (by simp)
          have hy : y <+: c :: x ++ b := ⟨t, ht.symm⟩
          rcases List.prefix_or_prefix_of_prefix hy (List.prefix_append (c :: x) b) with h' | h'
          · exact absurd h' hclear.2
          · exact absurd h' hclear.1

/-- **Words beside the blocks.** A word that is clear of all blocks, as they are of it, stands in
both texts, and so do the texts around it. -/
theorem split (h : Swapped R t u) (ht : t = a ++ (x ++ b))
    (hx : ∀ y z, R y z → Text.Clear x y ∧ Text.Clear y x) :
    ∃ a' b', u = a' ++ (x ++ b') ∧ Swapped R a a' ∧ Swapped R b b' := by
  induction h generalizing a with
  | nil =>
      obtain ⟨rfl, hxb⟩ := List.append_eq_nil_iff.1 ht.symm
      obtain ⟨rfl, rfl⟩ := List.append_eq_nil_iff.1 hxb
      exact ⟨[], [], rfl, .nil, .nil⟩
  | @keep c t u h ih =>
      cases a with
      | nil =>
          have hkeep : Swapped R (x ++ b) (c :: u) := by
            rw [show x ++ b = c :: t from ht.symm]
            exact .keep c h
          obtain ⟨b', hb', hb⟩ := hkeep.peel fun y z hyz => (hx y z hyz).1
          exact ⟨[], b', hb', .nil, hb⟩
      | cons d a =>
          obtain ⟨rfl, rfl⟩ := List.cons.inj ht
          obtain ⟨a', b', rfl, ha, hb⟩ := ih rfl
          exact ⟨c :: a', b', rfl, .keep c ha, hb⟩
  | @swap y z t u hyz h ih =>
      rcases List.append_eq_append_iff.1 ht with ⟨a, rfl, rfl⟩ | ⟨v, rfl, hv⟩
      · -- the block stands in front of the word
        obtain ⟨a', b', rfl, ha, hb⟩ := ih rfl
        exact ⟨z ++ a', b', by simp, .swap hyz ha, hb⟩
      · cases v with
        | nil =>
            obtain ⟨a', b', rfl, ha, hb⟩ := ih (a := []) (by simpa using hv.symm)
            refine ⟨z ++ a', b', by simp, ?_, hb⟩
            rw [← List.append_nil a]
            have hnil := Swapped.swap hyz ha
            simpa using hnil
        | cons c v =>
            -- the word would start inside the block
            have hclear := (hx _ z hyz).2 (c :: v) (List.suffix_append a _) (by simp)
            have hpre : c :: v <+: x ++ b := ⟨t, hv.symm⟩
            rcases List.prefix_or_prefix_of_prefix hpre (List.prefix_append x b) with h' | h'
            · exact absurd h' hclear.1
            · exact absurd h' hclear.2

end Swapped

theorem Edited.swapped {old new t u : List Char} (h : Edited old new t u) :
    Swapped (fun x y => x = old ∧ y = new) t u := by
  induction h with
  | nil => exact .nil
  | keep c _ ih => exact .keep c ih
  | swap _ ih => exact .swap ⟨rfl, rfl⟩ ih

namespace Checks

open Pattern

/-! ## Statements do not overlap -/

def statements : List (List Char) :=
  copyrightStatement.toList :: outdatedTexts

/-- None of two statements is the beginning of the other. Each opens with one of two letters, and no
statement can start in what follows its number sign. -/
theorem form_of_mem_statements :
    (statements.Pairwise fun x y => Text.differ x y = true) ∧
    ∀ x ∈ statements,
      (['#', ' ', 'T'].isPrefixOf x || ['#', ' ', 'S'].isPrefixOf x) = true ∧
        Text.isClear x.tail ['#', ' ', 'T'] = true ∧ Text.isClear x.tail ['#', ' ', 'S'] = true ∧
        x.getLast? ≠ some '\n' := by
  have hstatement : copyrightStatement.toList = _ := String.toList_append
  rw [statements, hstatement]
  decide +kernel

theorem nodup_statements : statements.Nodup := by
  refine form_of_mem_statements.1.imp fun {x y} h => ?_
  rintro rfl
  exact (Text.differ_iff.1 h).1 List.prefix_rfl

theorem nodup_outdatedTexts : outdatedTexts.Nodup :=
  (List.nodup_cons.1 nodup_statements).2

section
variable {x y : List Char}

theorem head?_of_mem_statements (hx : x ∈ statements) : x.head? = some '#' := by
  have hopen := (form_of_mem_statements.2 x hx).1
  rw [Bool.or_eq_true, List.isPrefixOf_iff_prefix, List.isPrefixOf_iff_prefix] at hopen
  rcases hopen with ⟨z, rfl⟩ | ⟨z, rfl⟩ <;> rfl

/-- No statement starts inside another one. -/
theorem clear_tail_of_mem_statements (hx : x ∈ statements) (hy : y ∈ statements) :
    Text.Clear x.tail y := by
  obtain ⟨-, hT, hS, -⟩ := form_of_mem_statements.2 x hx
  have hopen := (form_of_mem_statements.2 y hy).1
  rw [Bool.or_eq_true, List.isPrefixOf_iff_prefix, List.isPrefixOf_iff_prefix] at hopen
  rcases hopen with hopen | hopen
  · exact (Text.clear_of_isClear hT).of_beginning hopen
  · exact (Text.clear_of_isClear hS).of_beginning hopen

theorem clear_of_mem_statements (hx : x ∈ statements) (hy : y ∈ statements) (hne : x ≠ y) :
    Text.Clear x y := by
  have hsymm : Std.Symm fun x y => Text.differ x y = true :=
    ⟨fun x y h => Text.differ_iff.2 (Text.differ_iff.1 h).symm⟩
  have hdiffer := form_of_mem_statements.1.forall hx hy hne
  obtain ⟨z, rfl⟩ := List.head?_eq_some_iff.1 (head?_of_mem_statements hx)
  exact .cons (Text.differ_iff.1 hdiffer) (clear_tail_of_mem_statements hx hy)

/-- A statement at the start of a line does not overlap another one either. -/
theorem clear_newline_of_mem_statements (hx : x ∈ statements) (hy : y ∈ statements)
    (hne : x ≠ y) : Text.Clear ('\n' :: x) y ∧ Text.Clear y ('\n' :: x) := by
  obtain ⟨z, hz⟩ := List.head?_eq_some_iff.1 (head?_of_mem_statements hy)
  constructor
  · refine Text.Clear.cons ?_ (clear_of_mem_statements hx hy hne)
    rw [hz, List.cons_prefix_cons, List.cons_prefix_cons]
    exact ⟨fun h => absurd h.1 (by decide), fun h => absurd h.1 (by decide)⟩
  · intro v hv hv'
    obtain ⟨c, v, rfl⟩ := List.exists_cons_of_ne_nil hv'
    have hbehind : v ≠ [] → ¬ v <+: x ∧ ¬ x <+: v := by
      refine clear_tail_of_mem_statements hy hx v ?_
      obtain ⟨w, rfl⟩ := hv
      cases w with
      | nil => exact List.suffix_rfl
      | cons d w => exact ⟨w ++ [c], by simp⟩
    rw [List.cons_prefix_cons, List.cons_prefix_cons]
    cases v with
    | nil =>
        obtain ⟨w, rfl⟩ := hv
        have hc : c ≠ '\n' := by simpa using (form_of_mem_statements.2 _ hy).2.2.2
        exact ⟨fun h => hc h.1, fun h => hc h.1.symm⟩
    | cons d v => exact ⟨fun h => (hbehind (by simp)).1 h.2, fun h => (hbehind (by simp)).2 h.2⟩

end

/-! ## What an update exchanges -/

/-- A text and the same text with some statements of the given kinds exchanged for the one in force.
All other characters are kept. -/
def Restated (kinds : List Char → Prop) : List Char → List Char → Prop :=
  Swapped fun old new => kinds old ∧ new = copyrightStatement.toList

section
variable {old other t u v b : List Char}

theorem mem_statements_of_outdated (h : old ∈ outdatedTexts) : old ∈ statements :=
  List.mem_cons_of_mem _ h

theorem ne_nil_of_outdated (h : old ∈ outdatedTexts) : old ≠ [] := by
  rintro rfl
  exact absurd (head?_of_mem_statements (mem_statements_of_outdated h)) (by simp)

theorem length_lt_of_outdated (h : old ∈ outdatedTexts) (t : List Char) :
    t.length < (old ++ t).length := by
  have hpos := List.length_pos_iff.2 (ne_nil_of_outdated h)
  rw [List.length_append]
  omega

theorem copyrightStatement_mem : copyrightStatement.toList ∈ statements :=
  List.mem_cons_self

theorem ne_copyrightStatement (h : old ∈ outdatedTexts) : old ≠ copyrightStatement.toList := by
  intro heq
  rw [heq] at h
  exact (List.nodup_cons.1 nodup_statements).1 h

theorem clear_copyrightStatement (h : old ∈ outdatedTexts) :
    Text.Clear old copyrightStatement.toList ∧ Text.Clear copyrightStatement.toList old :=
  ⟨clear_of_mem_statements (mem_statements_of_outdated h) copyrightStatement_mem
      (ne_copyrightStatement h),
    clear_of_mem_statements copyrightStatement_mem (mem_statements_of_outdated h)
      (ne_copyrightStatement h).symm⟩

/-- **One exchange after the other.** What the first one brings in is, by the second one, exchanged
for the statement in force or it is that statement; and where the second one exchanges anything else,
it does so in the first text. `D` holds of the last text and of whatever it ends with. -/
theorem Restated.compose {A C : List Char → List Char → Prop} {kinds D : List Char → Prop}
    (hkinds : ∀ x, kinds x → x ∈ outdatedTexts ∧ C x copyrightStatement.toList)
    (hA : ∀ x y, A x y → x ≠ [] ∧ y ∈ statements ∧ C x copyrightStatement.toList)
    (hD : ∀ v v', v' <:+ v → D v → D v')
    (hnext : ∀ x y u v, A x y → D v → Restated kinds (y ++ u) v →
      ∃ v', v = copyrightStatement.toList ++ v' ∧ Restated kinds u v')
    (h : Swapped A t u) (h' : Restated kinds u v) (hv : D v) : Swapped C t v := by
  induction hn : t.length using Nat.strongRecOn generalizing t u v with
  | ind n ih =>
      subst hn
      cases h with
      | nil =>
          generalize hu : ([] : List Char) = u at h'
          cases h' with
          | nil => exact .nil
          | keep => simp at hu
          | swap hxy =>
              exact absurd (List.append_eq_nil_iff.1 hu.symm).1
                (ne_nil_of_outdated (hkinds _ hxy.1).1)
      | @keep c t u h =>
          generalize hu : c :: u = u' at h'
          cases h' with
          | nil => simp at hu
          | keep d h' =>
              obtain ⟨rfl, rfl⟩ := List.cons.inj hu
              exact .keep c (ih t.length (by simp) h h' (hD _ _ (List.suffix_cons c _) hv) rfl)
          | @swap x y u' v hxy h' =>
              obtain ⟨hx, hC⟩ := hkinds x hxy.1
              obtain ⟨d, x, rfl⟩ := List.exists_cons_of_ne_nil (ne_nil_of_outdated hx)
              obtain ⟨rfl, rfl⟩ := List.cons.inj hu
              -- nothing has been brought in behind the first character of the statement
              obtain ⟨b, rfl, hb⟩ := h.symm.peel fun y z hyz =>
                clear_tail_of_mem_statements (mem_statements_of_outdated hx) (hA z y hyz).2.1
              have hlater : Swapped C b v := ih b.length
                (Nat.lt_succ_of_le (List.suffix_append x b).length_le) hb.symm h'
                (hD _ _ (List.suffix_append y v) hv) rfl
              rw [hxy.2]
              exact Swapped.swap hC hlater
      | @swap x y t u hxy h =>
          obtain ⟨hx, -, hC⟩ := hA x y hxy
          obtain ⟨b, hb, hrest⟩ := hnext x y u v hxy hv h'
          rw [hb] at hv ⊢
          refine .swap hC (ih t.length ?_ h hrest (hD _ _ (List.suffix_append _ b) hv) rfl)
          have hpos := List.length_pos_iff.2 hx
          rw [List.length_append]
          omega

section
variable {kinds : List Char → Prop}

/-- An outdated statement at the start of a restated text was there before. -/
theorem Restated.peel_old (h : Restated kinds t (old ++ u)) (hold : old ∈ outdatedTexts) :
    ∃ b, t = old ++ b ∧ Restated kinds b u := by
  obtain ⟨b, rfl, hb⟩ := Swapped.peel (Swapped.symm h)
    fun _ _ hxy => hxy.2 ▸ (clear_copyrightStatement hold).1
  exact ⟨b, rfl, hb.symm⟩

/-- No outdated statement comes in. -/
theorem Restated.occurs_before (h : Restated kinds t u) (hold : old ∈ outdatedTexts)
    (hu : old <:+: u) : old <:+: t := by
  obtain ⟨a, b, hab⟩ := hu
  rw [List.append_assoc] at hab
  obtain ⟨a', b', rfl, -, -⟩ := (Swapped.symm h).split hab.symm fun y z hyz => by
    rw [hyz.2]
    exact clear_copyrightStatement hold
  exact ⟨a', b', List.append_assoc _ _ _⟩

/-- What has been put in is not exchanged again, so a restated text that is restated is the first one
restated. -/
theorem Restated.trans (hkinds : ∀ x, kinds x → x ∈ outdatedTexts) (h : Restated kinds t u)
    (h' : Restated kinds u v) : Restated kinds t v := by
  refine Restated.compose (A := fun old new => kinds old ∧ new = copyrightStatement.toList)
    (D := fun _ => True) (fun x hx => ⟨hkinds x hx, hx, rfl⟩)
    (fun x y hxy => ⟨ne_nil_of_outdated (hkinds x hxy.1), hxy.2 ▸ copyrightStatement_mem, hxy.1, rfl⟩)
    (fun _ _ _ _ => trivial) (fun x y u v hxy _ h => ?_) h h' trivial
  rw [hxy.2] at h
  exact Swapped.peel h fun y z hyz => (clear_copyrightStatement (hkinds y hyz.1)).2

end

theorem restated_replaceAll (hold : old ∈ outdatedTexts) (t : List Char) :
    Restated (· = old) t (Text.replaceAll old copyrightStatement.toList t) :=
  Edited.swapped (edited_replaceAll (ne_nil_of_outdated hold) _ t)


/-! ## Statements after an update -/

/-- An update leaves no copy of the statement that it exchanges. -/
theorem not_infix_replaceAll (hold : old ∈ outdatedTexts) (t : List Char) :
    ¬ old <:+: Text.replaceAll old copyrightStatement.toList t := by
  have hne := ne_nil_of_outdated hold
  induction hn : t.length using Nat.strongRecOn generalizing t with
  | ind n ih =>
      subst hn
      by_cases hpre : old <+: t
      · obtain ⟨b, rfl⟩ := hpre
        rw [Text.replaceAll_append hne]
        intro hinfix
        exact ih b.length (length_lt_of_outdated hold b) b rfl
          ((clear_copyrightStatement hold).2.infix_of_infix_append hinfix)
      · cases t with
        | nil => exact fun hinfix => hne (List.infix_nil.1 hinfix)
        | cons c t =>
            have hrestated := restated_replaceAll hold (c :: t)
            have hstep : Text.replaceAll old copyrightStatement.toList (c :: t) =
                c :: Text.replaceAll old copyrightStatement.toList t := by
              rw [Text.replaceAll, Text.replaceFrom, if_neg]
              · rfl
              · rwa [List.isPrefixOf_iff_prefix]
            rw [hstep] at hrestated ⊢
            intro hinfix
            rcases List.infix_cons_iff.1 hinfix with ⟨b, hb⟩ | hinfix
            · -- a copy at the start would have been there before
              obtain ⟨b', hb', -⟩ := Restated.peel_old (hb ▸ hrestated) hold
              exact hpre ⟨b', hb'.symm⟩
            · exact ih t.length (by simp) t rfl hinfix

/-- **An update takes away one kind of statement.** At the starts of lines, the statement that it
exchanges is gone and every other one stands where it stood. -/
theorem startsLine_replaceAll_iff (hold : old ∈ outdatedTexts) (hother : other ∈ outdatedTexts) :
    Text.startsLine other (Text.replaceAll old copyrightStatement.toList t) = true ↔
      Text.startsLine other t = true ∧ other ≠ old := by
  have hswapped := restated_replaceAll hold t
  by_cases heq : other = old
  · subst heq
    simp only [ne_eq, not_true, and_false, iff_false]
    rw [Text.startsLine_iff]
    rintro ⟨a, b, h, -⟩
    exact not_infix_replaceAll hold t ⟨a, b, by rw [h, List.append_assoc]⟩
  simp only [ne_eq, heq, not_false_eq_true, and_true]
  have hmem := mem_statements_of_outdated hother
  have hblocks : ∀ x ∈ [old, copyrightStatement.toList],
      Text.Clear other x ∧ Text.Clear ('\n' :: other) x ∧ Text.Clear x ('\n' :: other) := by
    intro x hx
    have hx' : x ∈ statements ∧ other ≠ x := by
      rcases List.mem_pair.1 hx with hx | hx
      · exact hx ▸ ⟨mem_statements_of_outdated hold, heq⟩
      · exact hx ▸ ⟨copyrightStatement_mem, ne_copyrightStatement hother⟩
    exact ⟨clear_of_mem_statements hmem hx'.1 hx'.2,
      clear_newline_of_mem_statements hmem hx'.1 hx'.2⟩
  -- both texts are related alike, so what stands in one of them stands in the other
  have hcarry {R : List Char → List Char → Prop} {t u : List Char} (h : Swapped R t u)
      (hR : ∀ x y, R x y → x ∈ [old, copyrightStatement.toList])
      (hstarts : Text.startsLine other t = true) : Text.startsLine other u = true := by
    rw [Text.startsLine, Bool.or_eq_true, List.isPrefixOf_iff_prefix, Text.contains_iff] at hstarts ⊢
    rcases hstarts with ⟨b, rfl⟩ | ⟨a, b, rfl⟩
    · obtain ⟨b', rfl, -⟩ := h.peel fun x y hxy => (hblocks x (hR x y hxy)).1
      exact .inl (List.prefix_append _ _)
    · obtain ⟨a', b', rfl, -, -⟩ := h.split (List.append_assoc _ _ _)
        fun x y hxy => (hblocks x (hR x y hxy)).2
      exact .inr ⟨a', b', List.append_assoc _ _ _⟩
  constructor
  · exact hcarry hswapped.symm fun _ _ hxy => List.mem_pair.2 (.inr hxy.2)
  · exact hcarry hswapped fun _ _ hxy => List.mem_pair.2 (.inl hxy.1)

/-! ## One round -/

/-- The outdated statements that stand at the start of a line. -/
def standing (t : List Char) : List (List Char) :=
  outdatedTexts.filter (Text.startsLine · t)

def updated (t : List Char) : List Char :=
  (updateStatement? t).getD t

theorem mem_standing : old ∈ standing t ↔ old ∈ outdatedTexts ∧ Text.startsLine old t = true :=
  List.mem_filter

theorem nodup_standing (t : List Char) : (standing t).Nodup :=
  nodup_outdatedTexts.filter _

/-- The pattern admits the nine outdated statements and nothing else. -/
theorem spells_outdatedStatement_iff : outdatedStatement.Spells old ↔ old ∈ outdatedTexts := by
  refine ⟨mem_outdatedTexts, fun hold => ?_⟩
  obtain ⟨body, hpattern, hfits⟩ := exists_fits_outdatedTexts
  obtain ⟨e, he, hrest⟩ := hfits old hold old.length (.ofText old) [] (List.append_nil old).symm
  have htext := (leads_of_mem_ends he).spanTo_text_eq (List.append_nil old).symm hrest
  have hspells := spells_of_mem_ends he
  rw [htext] at hspells
  rw [hpattern]
  exact ⟨[], old, rfl, hspells, rfl⟩

theorem length_standing_le (t : List Char) : (standing t).length ≤ 9 :=
  List.length_filter_le _ outdatedTexts

theorem occursIn_outdatedStatement_iff_standing :
    outdatedStatement.occursIn t = true ↔ standing t ≠ [] := by
  rw [occursIn_outdatedStatement_iff, HasStatement, Ne, List.eq_nil_iff_forall_not_mem, not_forall]
  simp only [not_not, mem_standing, Text.startsLine_iff]
  constructor
  · rintro ⟨a, old, b, h, hold, hstart⟩
    exact ⟨old, hold, a, b, h, hstart⟩
  · rintro ⟨old, hold, a, b, h, hstart⟩
    exact ⟨a, old, b, h, hold, hstart⟩

/-- What is found first stands at the start of a line. -/
theorem text_mem_standing {m : Match} (h : outdatedStatement.find? t = some m) :
    m.text ∈ standing t := by
  obtain ⟨n, hn, hm⟩ := exists_matchAt?_of_find? h
  obtain ⟨e, he, rfl⟩ := exists_mem_ends_of_matchAt? hm
  have hsplit : t = t.take n ++ t.drop n := (List.take_append_drop n t).symm
  have hlength : (t.take n).length = n := List.length_take_of_le hn
  generalize t.take n = a, t.drop n = x at hsplit hlength
  subst hsplit hlength
  obtain ⟨hrest, hold, hstart⟩ := statement_of_mem_ends he
  exact mem_standing.2 ⟨hold, Text.startsLine_iff.2 ⟨a, e.rest, congrArg (a ++ ·) hrest, hstart⟩⟩

/-- **What one round leaves.** Of the outdated statements the one found first is gone. -/
theorem standing_updated {m : Match} (h : outdatedStatement.find? t = some m) :
    standing (updated t) = (standing t).erase m.text := by
  have hold := (mem_standing.1 (text_mem_standing h)).1
  have hupdated : updated t = Text.replaceAll m.text copyrightStatement.toList t := by
    rw [updated, updateStatement?, h]
    rfl
  rw [hupdated, (nodup_standing t).erase_eq_filter, standing, standing, List.filter_filter]
  refine List.filter_congr fun other hother => ?_
  rw [Bool.eq_iff_iff, startsLine_replaceAll_iff hold hother, Bool.and_eq_true, bne_iff_ne]
  exact And.comm

theorem updated_of_find?_eq_none (h : outdatedStatement.find? t = none) :
    updated t = t ∧ standing t = [] := by
  constructor
  · rw [updated, updateStatement?, h]
    rfl
  · by_contra hne
    have hoccurs := occursIn_outdatedStatement_iff_standing.2 hne
    rw [occursIn, h] at hoccurs
    cases hoccurs

theorem length_standing_updated (t : List Char) :
    (standing (updated t)).length = (standing t).length - 1 := by
  cases h : outdatedStatement.find? t with
  | none =>
      obtain ⟨hupdated, hnone⟩ := updated_of_find?_eq_none h
      rw [hupdated, hnone]
      rfl
  | some m => rw [standing_updated h, List.length_erase_of_mem (text_mem_standing h)]

/-! ## Any number of rounds -/

theorem length_standing_iterate (n : Nat) (t : List Char) :
    (standing (updated^[n] t)).length = (standing t).length - n := by
  induction n generalizing t with
  | zero => rfl
  | succ n ih =>
      rw [Function.iterate_succ_apply, ih, length_standing_updated]
      omega

/-- An outdated statement of which a text holds no copy. -/
def Gone (u old : List Char) : Prop :=
  old ∈ outdatedTexts ∧ ¬ old <:+: u

/-- Rounds exchange the statements that are gone afterwards, each of them everywhere. -/
theorem restated_iterate (n : Nat) (t : List Char) :
    Restated (Gone (updated^[n] t)) t (updated^[n] t) := by
  induction n generalizing t with
  | zero => exact .refl _ t
  | succ n ih =>
      rw [Function.iterate_succ_apply]
      refine Restated.trans (fun _ hx => hx.1) ?_ (ih (updated t))
      cases h : outdatedStatement.find? t with
      | none =>
          rw [(updated_of_find?_eq_none h).1]
          exact .refl _ t
      | some m =>
          have hold := (mem_standing.1 (text_mem_standing h)).1
          have hupdated : updated t = Text.replaceAll m.text copyrightStatement.toList t := by
            rw [updated, updateStatement?, h]
            rfl
          rw [hupdated]
          have hgone : Gone (updated^[n] (Text.replaceAll m.text copyrightStatement.toList t)) m.text :=
            ⟨hold, fun hin => not_infix_replaceAll hold t ((ih _).occurs_before hold hin)⟩
          exact (restated_replaceAll hold t).mono fun x y hxy => ⟨hxy.1.symm ▸ hgone, hxy.2⟩

/-! ## Stored texts -/

/-- A stored text and what is read of it, which differ in nothing but line ends of statements that are
gone from a later text. -/
def UnifiedWithin (u : List Char) : List Char → List Char → Prop :=
  Swapped fun old new => Gone u new ∧ Text.unifyNewlines old = new

theorem unifyNewlines_of_outdated (h : old ∈ outdatedTexts) : Text.unifyNewlines old = old := by
  have hread : ∀ old ∈ outdatedTexts, Text.unifyNewlines old = old := by decide +kernel
  exact hread old h

/-- What a stored text loses besides statements that are gone are no carriage returns, if the text
after it has none. -/
theorem unifiedWithin_of_restated (hv : '\r' ∉ v)
    (h : Restated (fun old => Gone u (Text.unifyNewlines old)) t v) :
    UnifiedWithin u t (Text.unifyNewlines t) := by
  induction h with
  | nil => exact .nil
  | keep c h ih =>
      rw [List.mem_cons, not_or] at hv
      rw [Text.unifyNewlines_cons (Ne.symm hv.1)]
      exact .keep c (ih hv.2)
  | @swap x y t v hxy h ih =>
      have hend := (form_of_mem_statements.2 _ (mem_statements_of_outdated hxy.1.1)).2.2.2
      rw [Text.unifyNewlines_append fun hlast => hend (Text.getLast?_unifyNewlines hlast)]
      exact .swap ⟨hxy.1, rfl⟩ (ih fun h => hv (List.mem_append_right _ h))

/-- A statement that is gone has been exchanged. -/
theorem exists_of_gone {kinds : List Char → Prop} (hkinds : ∀ x, kinds x → x ∈ outdatedTexts)
    (hold : old ∈ outdatedTexts) (hnone : ¬ old <:+: v) (h : Restated kinds (old ++ t) v) :
    ∃ b, v = copyrightStatement.toList ++ b ∧ Restated kinds t b := by
  have hmem := mem_statements_of_outdated hold
  generalize ht : old ++ t = t' at h
  cases h with
  | nil => exact absurd (List.append_eq_nil_iff.1 ht).1 (ne_nil_of_outdated hold)
  | @keep c t' v h =>
      -- were its first character kept, then so would all of it
      obtain ⟨d, x, rfl⟩ := List.exists_cons_of_ne_nil (ne_nil_of_outdated hold)
      obtain ⟨rfl, rfl⟩ := List.cons.inj ht
      obtain ⟨b, rfl, -⟩ := h.peel fun y z hyz =>
        clear_tail_of_mem_statements hmem (mem_statements_of_outdated (hkinds y hyz.1))
      exact absurd ⟨[], b, rfl⟩ hnone
  | @swap x y b v hxy h =>
      by_cases heq : old = x
      · subst heq
        rw [List.append_cancel_left ht]
        exact ⟨v, by rw [hxy.2], h⟩
      · have hclear := clear_of_mem_statements hmem (mem_statements_of_outdated (hkinds x hxy.1)) heq
          old List.suffix_rfl (ne_nil_of_outdated hold)
        rcases List.prefix_or_prefix_of_prefix ⟨t, ht⟩ (List.prefix_append x b) with hpre | hpre
        · exact absurd hpre hclear.1
        · exact absurd hpre hclear.2

/-- **What a stored text keeps.** Let a text be restated until some statements are gone. As it is
stored, the text before keeps all characters beside these statements exactly if reading it unifies
line ends in none but these. -/
theorem restated_stored_iff (hu : '\r' ∉ u) (ht : t = Text.unifyNewlines b)
    (h : Restated (Gone u) t u) :
    Restated (fun old => Gone u (Text.unifyNewlines old)) b u ↔ UnifiedWithin u b t := by
  constructor
  · intro hstored
    rw [ht]
    exact unifiedWithin_of_restated hu hstored
  · intro hread
    refine Restated.compose (D := fun v => v <:+ u) (fun x hx => ⟨hx.1, ?_, rfl⟩)
      (fun x y hxy => ⟨?_, mem_statements_of_outdated hxy.1.1, ?_, rfl⟩)
      (fun v v' hv' hv => hv'.trans hv) (fun x y b v hxy hv hb => ?_) hread h List.suffix_rfl
    · show Gone u (Text.unifyNewlines x)
      rwa [unifyNewlines_of_outdated hx.1]
    · rintro rfl
      exact ne_nil_of_outdated hxy.1.1 hxy.2.symm
    · show Gone u (Text.unifyNewlines x)
      rw [hxy.2]
      exact hxy.1
    · exact exists_of_gone (fun x hx => hx.1) hxy.1.1
        (fun hin => hxy.1.2 (hin.trans hv.isInfix)) hb

def outdatedFinding (file : Path) : Finding :=
  Remark.toFinding (.error "The VT is using an incorrect copyright statement.") file
    copyrightText.name

variable (root : Path) {file : Path} {w : Surroundings}

/-- The check reports whether an outdated statement stands at the start of a line. -/
theorem findings_copyrightText (hfile : file.isInclude = false)
    (hread : w.tree.readText file = .ok t) :
    copyrightText.findings (.ofTree w.tree root file) w =
      .done (if standing t = [] then [] else [outdatedFinding file]) := by
  have hrun : copyrightText.run (.ofTree w.tree root file) w =
      .done (if outdatedStatement.occursIn t then
        [.error "The VT is using an incorrect copyright statement."] else []) := by
    simp only [copyrightText, Subject.onScript, Subject.withText, text_ofTree hread,
      Subject.unlessInclude]
    rw [if_neg]
    rw [show (Subject.ofTree w.tree root file).file = file from rfl, hfile]
    exact Bool.false_ne_true
  rw [FileCheck.findings, hrun]
  by_cases hnone : standing t = []
  · rw [if_pos hnone, if_neg fun h => occursIn_outdatedStatement_iff_standing.1 h hnone]
    rfl
  · rw [if_neg hnone, if_pos (occursIn_outdatedStatement_iff_standing.2 hnone)]
    rfl

section
variable {bytes : Bytes}

theorem stored_updated (h : Text.Stored t) : Text.Stored (updated t) := by
  rw [updated]
  cases hu : updateStatement? t with
  | none => exact h
  | some u => exact stored_updateStatement? h hu

theorem stored_iterate (h : Text.Stored t) (n : Nat) : Text.Stored (updated^[n] t) := by
  induction n generalizing t with
  | zero => exact h
  | succ n ih =>
      rw [Function.iterate_succ_apply]
      exact ih (stored_updated h)

theorem updateStatement?_eq_none_iff : updateStatement? t = none ↔ standing t = [] := by
  rw [updateStatement?, Option.map_eq_none_iff]
  refine ⟨fun h => (updated_of_find?_eq_none h).2, fun h => ?_⟩
  cases hm : outdatedStatement.find? t with
  | none => rfl
  | some m => exact absurd h (List.ne_nil_of_mem (text_mem_standing hm))

theorem updated_of_standing (h : standing t = []) : updated t = t := by
  rw [updated, updateStatement?_eq_none_iff.2 h]
  rfl

/-- A round comes to its end. It leaves the file as it is if no outdated statement stands there, and
else stores the updated text. -/
theorem round_copyrightText (hfile : file.isInclude = false)
    (hread : w.tree.readBytes file = .ok bytes)
    (ht : t = Text.unifyNewlines (Text.ofLatin1 bytes)) :
    (copyrightText.examine true (.ofTree w.tree root file) w).1.fault? = none ∧
      (copyrightText.examine true (.ofTree w.tree root file) w).2.readBytes file =
        .ok (if standing t = [] then bytes else Text.toLatin1 (updated t)) := by
  have hmem : copyrightText ∈ fileChecks := by simp [fileChecks]
  obtain ⟨l, mode, hlocate, hhas⟩ := FileTree.exists_hasFile_of_readBytes hread
  have htext : w.tree.readText file = .ok t := FileTree.readText_eq_ok_iff.2 ⟨bytes, hread, ht.symm⟩
  have hfindings := findings_copyrightText root hfile htext
  have hrun : (copyrightText.findings (.ofTree w.tree root file) w).fault = none := by
    rw [hfindings]
    rfl
  rw [examine_eq (s := .ofTree w.tree root file) hmem hfile (text_ofTree htext) hlocate hhas hrun,
    hfindings]
  refine ⟨rfl, ?_⟩
  change ((((updateStatement? t).map _).map _).getD w.tree).readBytes file = _
  rw [updated]
  cases hu : updateStatement? t with
  | none =>
      rw [if_pos (updateStatement?_eq_none_iff.1 hu)]
      exact hread
  | some u =>
      rw [if_neg fun h => by simp [updateStatement?_eq_none_iff.2 h] at hu]
      exact hhas.rewrite.readBytes_of_locate (hhas.locate_rewrite.trans hlocate)

end

/-- Rounds of examination and repair, each with a reading of its own. -/
def rounds (root file : Path) (w : Surroundings) (n : Nat) :
    List CheckReport × Option Fault × FileTree :=
  examineInTurn root file (List.replicate n copyrightText) w

/-- What the check finds in the file as a number of rounds has left it. -/
def foundAfter (root file : Path) (w : Surroundings) (n : Nat) : Outcome Finding :=
  let tree := (rounds root file w n).2.2
  copyrightText.findings (.ofTree tree root file) { w with tree }

section
variable {bytes : Bytes} (hfile : file.isInclude = false) (hread : w.tree.readBytes file = .ok bytes)
  (ht : t = Text.unifyNewlines (Text.ofLatin1 bytes))
include hfile hread ht

/-- Rounds come to their end. They leave the file as it is if no outdated statement stands there, and
else store the text as it is after the last one. -/
theorem readBytes_rounds (n : Nat) : (rounds root file w n).2.1 = none ∧
    (rounds root file w n).2.2.readBytes file =
      .ok (if n = 0 ∨ standing t = [] then bytes else Text.toLatin1 (updated^[n] t)) := by
  induction n generalizing w t bytes with
  | zero =>
      rw [if_pos (Or.inl rfl)]
      exact ⟨rfl, hread⟩
  | succ n ih =>
      obtain ⟨hfault, hbytes⟩ := round_copyrightText root hfile hread ht
      have htext : updated t = Text.unifyNewlines
          (Text.ofLatin1 (if standing t = [] then bytes else Text.toLatin1 (updated t))) := by
        split
        next hnone => rw [updated_of_standing hnone, ht]
        next => exact (stored_updated (ht ▸ Text.stored_read bytes)).read_write.symm
      obtain ⟨hdone, hlater⟩ := ih
        (w := { w with tree := (copyrightText.examine true (.ofTree w.tree root file) w).2 })
        hbytes htext
      rw [rounds, List.replicate_succ, examineInTurn, Function.iterate_succ_apply]
      simp only [hfault]
      refine ⟨hdone, hlater.trans (congrArg _ ?_)⟩
      by_cases hnone : standing t = []
      · simp [updated_of_standing hnone, hnone]
      by_cases hlast : n = 0 ∨ standing (updated t) = []
      · -- the round has left nothing to do for the next ones, or there are none
        have hfixed : updated^[n] (updated t) = updated t := by
          rcases hlast with rfl | hlast
          · rfl
          · exact Function.iterate_fixed (updated_of_standing hlast) n
        simp [hnone, hlast, hfixed]
      · simp [hnone, hlast]

theorem readText_rounds (n : Nat) :
    (rounds root file w n).2.2.readText file = .ok (updated^[n] t) := by
  refine FileTree.readText_eq_ok_iff.2 ⟨_, (readBytes_rounds root hfile hread ht n).2, ?_⟩
  split
  next hsame =>
    rcases hsame with rfl | hnone
    · exact ht.symm
    · rw [← ht, Function.iterate_fixed (updated_of_standing hnone)]
  next => exact (stored_iterate (ht ▸ Text.stored_read bytes) n).read_write

/-- After `n` rounds an outdated statement is reported exactly if more than `n` kinds stood at the
start of a line. -/
theorem foundAfter_eq (n : Nat) : foundAfter root file w n =
    .done (if n < (standing t).length then [outdatedFinding file] else []) := by
  have hfound := findings_copyrightText root
    (w := { w with tree := (rounds root file w n).2.2 }) hfile
    (readText_rounds root hfile hread ht n)
  rw [foundAfter, hfound]
  have hstanding : standing (updated^[n] t) = [] ↔ ¬ n < (standing t).length := by
    rw [← List.length_eq_zero_iff, length_standing_iterate]
    omega
  by_cases hn : n < (standing t).length
  · rw [if_pos hn, if_neg fun h => hstanding.1 h hn]
  · rw [if_neg hn, if_pos (hstanding.2 hn)]

/-- Rounds that change the file keep what is stored beside the statements exactly if reading does. -/
theorem restated_rounds_iff (n : Nat) :
    ∃ bytes', (rounds root file w n).2.2.readBytes file = .ok bytes' ∧
      (Restated (fun old => Gone (updated^[n] t) (Text.unifyNewlines old)) (Text.ofLatin1 bytes)
          (Text.ofLatin1 bytes') ↔
        n = 0 ∨ standing t = [] ∨ UnifiedWithin (updated^[n] t) (Text.ofLatin1 bytes) t) := by
  refine ⟨_, (readBytes_rounds root hfile hread ht n).2, ?_⟩
  rw [← or_assoc]
  split
  next hsame => exact iff_of_true (.refl _ _) (Or.inl hsame)
  next hchanged =>
    have hstored := stored_iterate (ht ▸ Text.stored_read bytes) n
    rw [hstored.ofLatin1_toLatin1, or_iff_right hchanged]
    exact restated_stored_iff (fun hr => (hstored _ hr).2 rfl) ht (restated_iterate n t)

end

/-- More than one kind stands there exactly if one does that is not the first. -/
theorem one_lt_length_standing_iff : 1 < (standing t).length ↔
    ∃ first, outdatedStatement.find? t = some first ∧
      ∃ old ∈ outdatedTexts, Text.startsLine old t = true ∧ old ≠ first.text := by
  cases hfirst : outdatedStatement.find? t with
  | none => simp [(updated_of_find?_eq_none hfirst).2]
  | some first =>
      have hlength : 1 < (standing t).length ↔ (standing t).erase first.text ≠ [] := by
        rw [← List.length_pos_iff, List.length_erase_of_mem (text_mem_standing hfirst)]
        omega
      rw [hlength, Ne, List.eq_nil_iff_forall_not_mem, not_forall]
      simp only [not_not, (nodup_standing t).mem_erase_iff, mem_standing, Option.some.injEq,
        exists_eq_left']
      exact exists_congr fun old => by rw [and_comm, and_assoc]

/-- **Rounds of updating come to an end.** Of a script that is no include file, every round reads the
text anew, judges it and updates it, and none of them fails. After the first round the check reports
an outdated statement exactly if one stood at the start of a line that was another than the one found
first; after `n` rounds, exactly if more than `n` of the nine did. What has changed in the text by then
are outdated statements of which no copy is left, each of which is now the one in force.

In the file, line ends are unified as well if it is changed at all. So all that is stored beside these
statements is kept exactly if no other line end needs it, as in a file without carriage returns. -/
theorem statement_rounds_end {bytes : Bytes} (hfile : file.isInclude = false)
    (hread : w.tree.readBytes file = .ok bytes)
    (ht : t = Text.unifyNewlines (Text.ofLatin1 bytes)) :
    (outdatedTexts.length = 9 ∧ outdatedTexts.Nodup ∧
        ∀ old, outdatedStatement.Spells old ↔ old ∈ outdatedTexts) ∧
      (outdatedFinding file ∈ (foundAfter root file w 1).results ↔
        ∃ first, outdatedStatement.find? t = some first ∧
          ∃ old ∈ outdatedTexts, Text.startsLine old t = true ∧ old ≠ first.text) ∧
      (standing t).length ≤ 9 ∧
      ∀ n, (rounds root file w n).2.1 = none ∧
        foundAfter root file w n =
          .done (if n < (standing t).length then [outdatedFinding file] else []) ∧
        ∃ u bytes', (rounds root file w n).2.2.readText file = .ok u ∧ Restated (Gone u) t u ∧
          (rounds root file w n).2.2.readBytes file = .ok bytes' ∧
          (Restated (fun old => Gone u (Text.unifyNewlines old)) (Text.ofLatin1 bytes)
              (Text.ofLatin1 bytes') ↔
            n = 0 ∨ standing t = [] ∨ UnifiedWithin u (Text.ofLatin1 bytes) t) ∧
          (13 ∉ bytes → UnifiedWithin u (Text.ofLatin1 bytes) t) := by
  refine ⟨⟨rfl, nodup_outdatedTexts, fun _ => spells_outdatedStatement_iff⟩, ?_,
    length_standing_le t, fun n => ?_⟩
  · rw [foundAfter_eq root hfile hread ht, ← one_lt_length_standing_iff]
    by_cases hone : 1 < (standing t).length <;> simp [hone, Outcome.done]
  · obtain ⟨bytes', hbytes', hkept⟩ := restated_rounds_iff root hfile hread ht n
    refine ⟨(readBytes_rounds root hfile hread ht n).1, foundAfter_eq root hfile hread ht n, _, bytes',
      readText_rounds root hfile hread ht n, restated_iterate n t, hbytes', hkept, fun hunix => ?_⟩
    rw [ht, (Text.stored_ofLatin1 hunix).unifyNewlines_eq]
    exact .refl _ _

end

/-- A script with outdated statements of two kinds, the first of them twice. -/
def twoKinds : List Char :=
  "# Text descriptions are largely excerpted from the referenced\n".toList ++
  "# advisory, and are Copyright (c) the respective author(s)\n".toList ++
  "# Text descriptions are largely excerpted from the referenced\n".toList ++
  "# advisory, and are Copyright (C) of their respective author(s)\n".toList ++
  "# Text descriptions are largely excerpted from the referenced\n".toList ++
  "# advisory, and are Copyright (c) the respective author(s)\n".toList

/-- The first round leaves one kind of statement, the second one none. -/
theorem statement_rounds_end_of_two_kinds :
    let file : Path := ⟨"/", ["a.nasl"]⟩
    let w : Surroundings :=
      { tree := { entries := [(["a.nasl"], .file 0o644 (Text.toLatin1 twoKinds))] }, now := default }
    w.tree.readBytes file = .ok (Text.toLatin1 twoKinds) ∧
      twoKinds = Text.unifyNewlines (Text.ofLatin1 (Text.toLatin1 twoKinds)) ∧
      foundAfter ⟨"/", []⟩ file w 0 = .done [outdatedFinding file] ∧
      foundAfter ⟨"/", []⟩ file w 1 = .done [outdatedFinding file] ∧
      foundAfter ⟨"/", []⟩ file w 2 = .done [] := by
  intro file w
  obtain ⟨hstored, hstanding⟩ : Text.Stored twoKinds ∧ (standing twoKinds).length = 2 := by
    decide +kernel
  have hread : w.tree.readBytes file = .ok (Text.toLatin1 twoKinds) := rfl
  obtain ⟨-, -, -, hrounds⟩ := statement_rounds_end ⟨"/", []⟩ (w := w)
    (by decide : file.isInclude = false) hread hstored.read_write.symm
  rw [hstanding] at hrounds
  exact ⟨hread, hstored.read_write.symm, (hrounds 0).2.1, (hrounds 1).2.1, (hrounds 2).2.1⟩

/-- The update of a statement takes a carriage return from the line behind it. -/
theorem update_drops_carriage_return :
    let file : Path := ⟨"/", ["a.nasl"]⟩
    let old := "# Text descriptions are largely excerpted from the referenced\n" ++
      "# advisory, and are Copyright (c) the respective author(s)"
    let w : Surroundings :=
      { tree := { entries := [(["a.nasl"], .file 0o644 (Text.toLatin1 (old ++ "\r\n").toList))] }
        now := default }
    (rounds ⟨"/", []⟩ file w 1).2.2.readBytes file =
      .ok (Text.toLatin1 (copyrightStatement ++ "\n").toList) := by
  decide +kernel

end Checks

end NaslLint
