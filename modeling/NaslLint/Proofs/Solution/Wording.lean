import NaslLint.Checks.NoSolution
import NaslLint.Checks.Solution
import NaslLint.Proofs.Date.Reading
import NaslLint.Proofs.Path
import NaslLint.Proofs.Pattern.All
import NaslLint.Proofs.Script.Calls

/-!
# The wording for a solution that is not available

The sentence that is prescribed for such a solution names a day. Its words may be divided by any
blanks. This module says what the two checks make of the sentence:

* `fits_noneAvailableWording`: the one that prescribes it accepts it;
* `find?_asOf`: the other one finds the day in it;
* `readDay?_dayText`: and reads that day.
-/

namespace NaslLint

/-! ## Words with blanks between them -/

namespace Text

def IsGap (x : List Char) : Prop :=
  x ≠ [] ∧ ∀ c ∈ x, isBlank c = true

/-- Words, in order, with blanks between them. -/
inductive Spaced : List (List Char) → List Char → Prop
  | last (w : List Char) : Spaced [w] w
  | cons {w gap x : List Char} {ws : List (List Char)} (hgap : IsGap gap) (h : Spaced ws x) :
      Spaced (w :: ws) (w ++ (gap ++ x))

section
variable {ws vs : List (List Char)} {w x y gap : List Char}

theorem Spaced.ne_nil (h : Spaced ws x) : ws ≠ [] := by
  cases h <;> simp

theorem Spaced.eq_of_singleton (h : Spaced [w] x) : x = w := by
  cases h with
  | last => rfl
  | cons _ h => exact absurd rfl h.ne_nil

theorem Spaced.exists_cons (h : Spaced (w :: ws) x) (hws : ws ≠ []) :
    ∃ gap y, IsGap gap ∧ Spaced ws y ∧ x = w ++ (gap ++ y) := by
  cases h with
  | last => exact absurd rfl hws
  | @cons _ gap y _ hgap hy => exact ⟨gap, y, hgap, hy, rfl⟩

theorem Spaced.exists_append (hws : ws ≠ []) (hvs : vs ≠ []) (h : Spaced (ws ++ vs) x) :
    ∃ y gap z, Spaced ws y ∧ IsGap gap ∧ Spaced vs z ∧ x = y ++ (gap ++ z) := by
  induction ws generalizing x with
  | nil => exact absurd rfl hws
  | cons w ws ih =>
      obtain ⟨gap, y, hgap, hy, rfl⟩ := h.exists_cons (List.append_ne_nil_of_right_ne_nil ws hvs)
      by_cases hlast : ws = []
      · subst hlast
        exact ⟨w, gap, y, .last w, hgap, hy, rfl⟩
      · obtain ⟨z, gap', z', hz, hgap', hz', rfl⟩ := ih hlast hy
        exact ⟨_, gap', z', .cons hgap hz, hgap', hz', by simp⟩

theorem spaced_intercalate (hgap : IsGap gap) (hws : ws ≠ []) :
    Spaced ws (gap.intercalate ws) := by
  induction ws with
  | nil => exact absurd rfl hws
  | cons w ws ih =>
      cases ws with
      | nil =>
          rw [List.intercalate_singleton]
          exact .last w
      | cons v vs =>
          rw [List.intercalate_cons_cons, List.append_assoc]
          exact .cons hgap (ih (List.cons_ne_nil v vs))

theorem Spaced.mem {c : Char} (h : Spaced ws x) (hc : c ∈ x) :
    isBlank c = true ∨ ∃ w ∈ ws, c ∈ w := by
  induction h with
  | last w => exact Or.inr ⟨w, List.mem_singleton_self w, hc⟩
  | @cons w gap x ws hgap _ ih =>
      rcases List.mem_append.1 hc with hc | hc
      · exact Or.inr ⟨w, List.mem_cons_self, hc⟩
      · rcases List.mem_append.1 hc with hc | hc
        · exact Or.inl (hgap.2 c hc)
        · rcases ih hc with hblank | ⟨v, hv, hcv⟩
          · exact Or.inl hblank
          · exact Or.inr ⟨v, List.mem_cons_of_mem _ hv, hcv⟩

/-- A word without blanks does not reach across a gap. -/
theorem infix_append_gap {a b : List Char} (hne : w ≠ []) (hw : ∀ c ∈ w, isBlank c = false)
    (hgap : ∀ c ∈ gap, isBlank c = true) (h : w <:+: a ++ (gap ++ b)) (hgapne : gap ≠ []) :
    w <:+: a ∨ w <:+: b := by
  induction gap generalizing a with
  | nil => exact absurd rfl hgapne
  | cons d gap ih =>
      obtain ⟨hd, hmore⟩ := List.forall_mem_cons.1 hgap
      have hnot : d ∉ w := fun hmem => by simp [hw d hmem] at hd
      rcases (infix_append_cons_iff hnot).1 h with h | h
      · exact Or.inl h
      · by_cases hlast : gap = []
        · subst hlast
          exact Or.inr h
        · rcases ih (a := []) hmore h hlast with h | h
          · exact absurd (List.infix_nil.1 h) hne
          · exact Or.inr h

theorem Spaced.infix (h : Spaced ws x) (hne : y ≠ []) (hy : ∀ c ∈ y, isBlank c = false)
    (hin : y <:+: x) : ∃ w ∈ ws, y <:+: w := by
  induction h with
  | last w => exact ⟨w, List.mem_singleton_self w, hin⟩
  | @cons w gap x ws hgap _ ih =>
      rcases infix_append_gap hne hy hgap.2 hin hgap.1 with hin | hin
      · exact ⟨w, List.mem_cons_self, hin⟩
      · obtain ⟨v, hv, hin⟩ := ih hin
        exact ⟨v, List.mem_cons_of_mem _ hv, hin⟩

theorem Spaced.nowhere (h : Spaced ws x) (hgap : IsGap gap) (hne : w ≠ [])
    (hw : ∀ c ∈ w, isBlank c = false) (hno : ∀ v ∈ ws, ¬ w <:+: v) :
    Nowhere (w <+: ·) (x ++ gap) y := by
  obtain ⟨g, d, rfl⟩ := (List.eq_nil_or_concat gap).resolve_left hgap.1
  have hd : d ∉ w := by
    intro hmem
    have := hgap.2 d (by simp)
    rw [hw d hmem] at this
    exact Bool.noConfusion this
  have hx : ¬ w <:+: x := by
    intro hin
    obtain ⟨v, hv, hin⟩ := h.infix hne hw hin
    exact hno v hv hin
  rw [List.concat_eq_append, ← List.append_assoc]
  apply nowhere_concat hd
  intro hin
  by_cases hg : g = []
  · subst hg
    exact hx (by simpa using hin)
  · have hblank : ∀ c ∈ g, isBlank c = true := fun c hc => hgap.2 c (by simp [hc])
    rw [← List.append_nil g] at hin
    rcases infix_append_gap hne hw hblank hin hg with hin | hin
    · exact hx hin
    · exact hne (List.infix_nil.1 hin)

def words (t : String) : List (List Char) :=
  splitOn ' ' t.toList

theorem words_ne_nil (t : String) : words t ≠ [] := by
  rw [words, splitOn_eq]
  exact List.splitOn_ne_nil _ _

end

end Text

/-! ## Patterns for words with blanks between them -/

namespace Pattern

open Text

section
variable {p : Pattern} {ps : List Pattern} {x y : List Char}

theorem fits_run {pref : Preference} {lo : Nat} {hi : Option Nat} {cls : Char → Bool}
    (hx : ∀ c ∈ x, cls c = true) (hlo : lo ≤ x.length) (hhi : ∀ h ∈ hi, x.length ≤ max lo h) :
    Fits (run pref lo hi cls) x := by
  intro size s r hr
  refine ⟨s.move x.length, mem_ends_run.2 ⟨x, r, hr, hlo, hhi, hx, rfl⟩, ?_⟩
  rw [Place.rest_move, hr, List.drop_left]

/-- Of several words of one length, the one that stands there is taken. -/
theorem takes_wordOf {ws : List String} {w : String} {r : List Char}
    {g : List (String × List Char)} (hw : w ∈ ws)
    (hlength : ∀ v ∈ ws, v.toList.length = w.toList.length) :
    Takes (wordOf ws) w.toList r g g := by
  obtain ⟨before, after, rfl, hbefore⟩ := List.eq_append_cons_of_mem hw
  rw [wordOf, List.map_append, List.map_cons]
  refine takes_word.oneOf _ ?_
  intro p hp
  obtain ⟨v, hv, rfl⟩ := List.mem_map.1 hp
  have hlen := hlength v (List.mem_append_left _ hv)
  apply refuses_word
  intro hpre
  have heq := List.prefix_of_prefix_length_le hpre (List.prefix_append _ r) (Nat.le_of_eq hlen)
  rw [String.toList_inj.1 (heq.eq_of_length hlen)] at hv
  exact hbefore hv

theorem fits_gap (hx : IsGap x) : Fits someBlanks x :=
  fits_run hx.2 (List.length_pos_iff.2 hx.1) (by simp)

theorem Fits.chain_of_ne_nil (hp : Fits p x) (hne : ps ≠ []) (hps : Fits (chain ps) y) :
    Fits (chain (p :: ps)) (x ++ y) := by
  obtain ⟨q, ps, rfl⟩ := List.exists_cons_of_ne_nil hne
  exact hp.chain_cons hps

theorem fits_words {ws : List (List Char)} (h : Spaced ws x) :
    Fits (chain ((ws.map word).intersperse someBlanks)) x := by
  induction h with
  | last w => exact fits_word w
  | @cons w gap x ws hgap h ih =>
      obtain ⟨v, ws, rfl⟩ := List.exists_cons_of_ne_nil h.ne_nil
      have hne : ((v :: ws).map word).intersperse someBlanks ≠ [] := by
        cases ws <;> simp
      exact (fits_word w).chain_cons ((fits_gap hgap).chain_of_ne_nil hne ih)

theorem fits_phrase {t : String} (h : Spaced (words t) x) : Fits (phrase t) x :=
  fits_words h

end

end Pattern

/-! ## The prescribed sentence -/

namespace Checks

open Pattern Text

def ordinalSuffixes : List String :=
  ["st", "nd", "rd", "th"]

/-- The words of the prescribed sentence for a day. -/
def noneAvailableWords (day : Date) (suffix : String) : List (List Char) :=
  words "No known solution is available as of" ++
    ([DatePart.day.write day.atMidnight ++ suffix.toList,
      DatePart.monthName.write day.atMidnight ++ [','],
      DatePart.year.write day.atMidnight ++ ['.']] ++
    words "Information regarding this issue will be updated once solution details are available.")

def dayText (day : Date) (suffix : String) (gap₁ gap₂ : List Char) : List Char :=
  DatePart.day.write day.atMidnight ++ (suffix.toList ++ (gap₁ ++
    (DatePart.monthName.write day.atMidnight ++ ([','] ++ (gap₂ ++
      DatePart.year.write day.atMidnight)))))

/-- A day that can be named in the sentence: an existing one of this century. -/
structure Nameable (day : Date) : Prop where
  valid : day.isValid = true
  year_ge : 2000 ≤ day.year
  year_le : day.year ≤ 2099

section
variable {day : Date} {suffix : String} {x : List Char}

theorem Nameable.regular (h : Nameable day) : day.atMidnight.Regular where
  valid := h.valid
  year_ge := Nat.le_trans (by decide) h.year_ge
  hour_lt := Nat.zero_lt_succ 23
  minute_lt := Nat.zero_lt_succ 59
  second_lt := Nat.zero_lt_succ 59

/-- A year of this century is written with a number of two digits behind its first two. -/
theorem Nameable.exists_year (h : Nameable day) :
    ∃ ds : List Nat, DatePart.year.write day.atMidnight = "20".toList ++ ds.map Nat.digitChar ∧
      ds.length = 2 ∧ ∀ d ∈ ds, d < 10 := by
  have hlo := h.year_ge
  have hhi := h.year_le
  refine ⟨[day.year / 10 % 10, day.year % 10], ?_, rfl, by simp; omega⟩
  change Nat.toDigits 10 day.year = _
  rw [toDigits_eq_four (by omega) (by omega), show day.year / 1000 = 2 by omega,
    show day.year / 100 % 10 = 0 by omega]
  rfl

theorem fits_dayOfMonth (h : Nameable day) :
    Fits dayOfMonth (DatePart.day.write day.atMidnight) := by
  have hpos : 1 ≤ day.day := h.regular.day_pos
  have hle : day.day ≤ 31 := h.regular.day_le
  have hsome : ∀ b < 10, 1 ≤ b → ('1' ≤ Nat.digitChar b && Nat.digitChar b ≤ '9') = true := by
    decide
  have htwo {a b : Nat} {p q : Pattern} (hp : Fits p [Nat.digitChar a])
      (hq : Fits q [Nat.digitChar b]) : Fits (chain [p, q]) ([a, b].map Nat.digitChar) :=
    hp.chain_cons hq.chain_last
  have hb : day.day % 10 < 10 := Nat.mod_lt _ (by decide)
  change Fits dayOfMonth (DatePart.twoDigits day.day)
  rw [DatePart.twoDigits_eq (by omega)]
  rcases (by omega : day.day / 10 = 0 ∨ (day.day / 10 = 1 ∨ day.day / 10 = 2) ∨ day.day / 10 = 3)
    with hten | hten | hten
  · have hfits : Fits (chain ["0", one fun c => '1' ≤ c && c ≤ '9'])
        ([0, day.day % 10].map Nat.digitChar) :=
      htwo (fits_word _) (fits_one (hsome _ hb (by omega)))
    rw [hten]
    exact hfits.oneOf (by simp)
  · have hfits : Fits (chain [one (among "12"), one isAsciiDigit])
        ([day.day / 10, day.day % 10].map Nat.digitChar) := by
      refine htwo (fits_one ?_) (fits_one (digitChar_facts _ hb).1)
      rcases hten with hten | hten <;> (rw [hten]; decide)
    exact hfits.oneOf (by simp)
  · have hfits : Fits (chain ["3", one (among "01")]) ([3, day.day % 10].map Nat.digitChar) := by
      refine htwo (fits_word _) (fits_one ?_)
      rcases (by omega : day.day % 10 = 0 ∨ day.day % 10 = 1) with hone | hone <;>
        (rw [hone]; decide)
    rw [hten]
    exact hfits.oneOf (by simp)

theorem fits_monthName (h : Nameable day) :
    Fits (wordOf Date.monthNames) (DatePart.monthName.write day.atMidnight) := by
  have hall : ∀ m < 12, Date.monthNames.getD m "" ∈ Date.monthNames := by decide
  have hmonth : day.month ≤ 12 := h.regular.month_le
  have hmem := hall (day.month - 1) (by omega)
  exact (fits_word _).oneOf (List.mem_map.2 ⟨_, hmem, rfl⟩)

theorem fits_ordinalSuffix (h : suffix ∈ ordinalSuffixes) : Fits ordinalSuffix suffix.toList :=
  (fits_word _).oneOf (List.mem_map.2 ⟨suffix, h, rfl⟩)

theorem mem_dayText {gap₁ gap₂ : List Char} {c : Char} (hday : Nameable day)
    (hsuffix : suffix ∈ ordinalSuffixes) (hgap₁ : IsGap gap₁) (hgap₂ : IsGap gap₂)
    (hc : c ∈ dayText day suffix gap₁ gap₂) :
    isBlank c = true ∨ c.isAlphanum = true ∨ c = ',' := by
  have hdigit : ∀ d < 10, (Nat.digitChar d).isAlphanum = true := by decide
  have hletters : ∀ s ∈ ordinalSuffixes, s.toList.all Char.isAlphanum = true := by decide
  have hwrite {p : DatePart} (hp : p.keepsTo Char.isAlphanum = true) :=
    DatePart.forall_mem_write hday.regular hdigit hp
  rcases List.mem_append.1 hc with hc | hc
  · exact Or.inr (Or.inl (hwrite (by decide) c hc))
  rcases List.mem_append.1 hc with hc | hc
  · exact Or.inr (Or.inl (List.all_eq_true.1 (hletters _ hsuffix) c hc))
  rcases List.mem_append.1 hc with hc | hc
  · exact Or.inl (hgap₁.2 c hc)
  rcases List.mem_append.1 hc with hc | hc
  · exact Or.inr (Or.inl (hwrite (by decide) c hc))
  rcases List.mem_append.1 hc with hc | hc
  · exact Or.inr (Or.inr (List.mem_singleton.1 hc))
  rcases List.mem_append.1 hc with hc | hc
  · exact Or.inl (hgap₂.2 c hc)
  · exact Or.inr (Or.inl (hwrite (by decide) c hc))

/-- The parts of a prescribed sentence, the day standing between two texts. -/
theorem exists_of_noneAvailableWords (h : Spaced (noneAvailableWords day suffix) x) :
    ∃ y gap gap₁ gap₂ gap₃ z, Spaced (words "No known solution is available as of") y ∧
      IsGap gap ∧ IsGap gap₁ ∧ IsGap gap₂ ∧ IsGap gap₃ ∧
      Spaced (words
        "Information regarding this issue will be updated once solution details are available.") z ∧
      x = y ++ (gap ++ (dayText day suffix gap₁ gap₂ ++ (['.'] ++ (gap₃ ++ z)))) := by
  obtain ⟨y, gap, _, hy, hgap, hdate, rfl⟩ := h.exists_append (words_ne_nil _) (by simp)
  obtain ⟨w, gap₃, z, hw, hgap₃, hz, rfl⟩ := hdate.exists_append (by simp) (words_ne_nil _)
  obtain ⟨gap₁, _, hgap₁, hmonth, rfl⟩ := hw.exists_cons (by simp)
  obtain ⟨gap₂, _, hgap₂, hyear, rfl⟩ := hmonth.exists_cons (by simp)
  obtain rfl := hyear.eq_of_singleton
  refine ⟨y, gap, gap₁, gap₂, gap₃, z, hy, hgap, hgap₁, hgap₂, hgap₃, hz, ?_⟩
  rw [dayText]
  simp only [List.append_assoc]

/-- The sentence is made of blanks, letters, digits, commas and full stops. -/
theorem mem_sentence {c : Char} (hday : Nameable day) (hsuffix : suffix ∈ ordinalSuffixes)
    (h : Spaced (noneAvailableWords day suffix) x) (hc : c ∈ x) :
    isBlank c = true ∨ c.isAlphanum = true ∨ c = ',' ∨ c = '.' := by
  have hopening : ∀ w ∈ words "No known solution is available as of",
      w.all (fun c => c.isAlphanum || c == '.') = true := by
    decide
  have hclosing : ∀ w ∈ words
      "Information regarding this issue will be updated once solution details are available.",
      w.all (fun c => c.isAlphanum || c == '.') = true := by
    decide
  have hwords {ws : List (List Char)} {y : List Char}
      (hws : ∀ w ∈ ws, w.all (fun c => c.isAlphanum || c == '.') = true) (hy : Spaced ws y)
      (hc : c ∈ y) : isBlank c = true ∨ c.isAlphanum = true ∨ c = ',' ∨ c = '.' := by
    rcases hy.mem hc with hblank | ⟨w, hw, hcw⟩
    · exact Or.inl hblank
    · rcases Bool.or_eq_true_iff.1 (List.all_eq_true.1 (hws w hw) c hcw) with hc | hc
      · exact Or.inr (Or.inl hc)
      · exact Or.inr (Or.inr (Or.inr (eq_of_beq hc)))
  obtain ⟨y, gap, gap₁, gap₂, gap₃, z, hy, hgap, hgap₁, hgap₂, hgap₃, hz, rfl⟩ :=
    exists_of_noneAvailableWords h
  simp only [List.mem_append, List.mem_singleton] at hc
  rcases hc with hc | hc | hc | rfl | hc | hc
  · exact hwords hopening hy hc
  · exact Or.inl (hgap.2 c hc)
  · rcases mem_dayText hday hsuffix hgap₁ hgap₂ hc with hc | hc | rfl
    · exact Or.inl hc
    · exact Or.inr (Or.inl hc)
    · exact Or.inr (Or.inr (Or.inl rfl))
  · exact Or.inr (Or.inr (Or.inr rfl))
  · exact Or.inl (hgap₃.2 c hc)
  · exact hwords hclosing hz hc

/-! ## The check that prescribes it -/

def solutionStart : List Char :=
  "script_tag(name:\"solution\", value:\"".toList

theorem fits_solutionOpening : Fits solutionOpening solutionStart := by
  have hnone : Fits blanks [] := fits_run (by simp) (by simp) (by simp)
  have hspace : Fits blanks [' '] :=
    fits_run (List.forall_mem_singleton.2 (by decide)) (by simp) (by simp)
  have htext : solutionStart = "script_tag".toList ++ ([] ++ ("(".toList ++ ([] ++
      ("name".toList ++ ([] ++ (":".toList ++ ([] ++ ("\"solution\"".toList ++ ([] ++
        (",".toList ++ ([' '] ++ ("value".toList ++ ([] ++ (":".toList ++ ([] ++
          "\"".toList))))))))))))))) := by
    decide
  rw [htext]
  exact (fits_word _).chain_cons (hnone.chain_cons ((fits_word _).chain_cons (hnone.chain_cons
    ((fits_word _).chain_cons (hnone.chain_cons ((fits_word _).chain_cons (hnone.chain_cons
    ((fits_word _).chain_cons (hnone.chain_cons ((fits_word _).chain_cons (hspace.chain_cons
    ((fits_word _).chain_cons (hnone.chain_cons ((fits_word _).chain_cons (hnone.chain_cons
      (fits_word _))))))))))))))))

/-- **The sentence is accepted,** whatever blanks stand between its words. -/
theorem fits_noneAvailableWording (hday : Nameable day) (hsuffix : suffix ∈ ordinalSuffixes)
    (h : Spaced (noneAvailableWords day suffix) x) :
    Fits noneAvailableWording (solutionStart ++ x) := by
  obtain ⟨y, gap, gap₁, gap₂, gap₃, z, hy, hgap, hgap₁, hgap₂, hgap₃, hz, rfl⟩ :=
    exists_of_noneAvailableWords h
  obtain ⟨ds, hyear, hlength, hds⟩ := hday.exists_year
  have hdigits : Fits (run .longest 2 (some 2) isAsciiDigit) (ds.map Nat.digitChar) := by
    apply fits_run
    · intro c hc
      obtain ⟨d, hd, rfl⟩ := List.mem_map.1 hc
      exact (digitChar_facts d (hds d hd)).1
    · rw [List.length_map, hlength]
    · rw [List.length_map, hlength]
      simp
  rw [dayText, hyear]
  simp only [List.append_assoc]
  exact fits_solutionOpening.chain_cons ((fits_phrase hy).chain_cons ((fits_gap hgap).chain_cons
    ((fits_dayOfMonth hday).chain_cons ((fits_ordinalSuffix hsuffix).chain_cons
    ((fits_gap hgap₁).chain_cons ((fits_monthName hday).chain_cons ((fits_word _).chain_cons
    ((fits_gap hgap₂).chain_cons ((fits_word _).chain_cons (hdigits.chain_cons
    ((fits_word _).chain_cons ((fits_gap hgap₃).chain_cons (fits_phrase hz)))))))))))))

/-! ## The check that reads the day -/

theorem asOf_eq : NoSolution.asOf = seq (seq "as" (seq someBlanks "of"))
    (seq blanks (seq (group "date" Script.shortText) ".")) := by
  have hwords : splitOn ' ' "as of".toList = ["as".toList, "of".toList] := by decide
  have hphrase : phrase "as of" = seq "as" (seq someBlanks "of") := by
    rw [phrase, wordsWith, hwords]
    rfl
  rw [NoSolution.asOf, hphrase]
  rfl

/-- The day is taken from its first digit up to the next full stop. -/
theorem takes_asOf {gap gap' date r : List Char} (hgap : IsGap gap) (hgap' : IsGap gap')
    (hdate : date ≠ []) (hhead : ∀ c r, date = c :: r → isBlank c = false) (hstop : '.' ∉ date) :
    Takes NoSolution.asOf ("as".toList ++ (gap ++ "of".toList) ++ (gap' ++ (date ++ ['.']))) r []
      [("date", date)] := by
  have hphrase : Takes (seq "as" (seq someBlanks "of")) ("as".toList ++ (gap ++ "of".toList))
      ((gap' ++ (date ++ ['.'])) ++ r) [] [] := by
    refine takes_word.seq (Takes.seq (takes_someBlanks hgap.1 hgap.2 ?_) takes_word)
    rintro d r' h
    obtain ⟨rfl, -⟩ := List.cons.inj h
    decide
  have hblanks : Takes blanks gap' ((date ++ ['.']) ++ r) [] [] := by
    apply takes_blanks hgap'.2
    intro d r' h
    obtain ⟨c, more, hc⟩ := List.exists_cons_of_ne_nil hdate
    rw [hc] at h
    obtain ⟨rfl, -⟩ := List.cons.inj h
    exact hhead c more hc
  rw [asOf_eq]
  refine hphrase.seq (hblanks.seq (takes_shortest_seq hdate ?_ takes_word))
  rintro a b rfl - hb
  obtain ⟨c, b, rfl⟩ := List.exists_cons_of_ne_nil hb
  apply refuses_word
  intro hpre
  change ['.'] <+: c :: (b ++ (['.'] ++ r)) at hpre
  obtain ⟨rfl, -⟩ := List.cons_prefix_cons.1 hpre
  exact hstop (by simp)

/-- **The day is found** in the prescribed sentence. -/
theorem find?_asOf (hday : Nameable day) (hsuffix : suffix ∈ ordinalSuffixes)
    (h : Spaced (noneAvailableWords day suffix) x) :
    ∃ m gap₁ gap₂, NoSolution.asOf.find? x = some m ∧ IsGap gap₁ ∧ IsGap gap₂ ∧
      m.group "date" = dayText day suffix gap₁ gap₂ := by
  obtain ⟨y, gap, gap₁, gap₂, gap₃, z, hy, hgap, hgap₁, hgap₂, hgap₃, hz, rfl⟩ :=
    exists_of_noneAvailableWords h
  have hsplit : words "No known solution is available as of" =
      words "No known solution is available" ++ ["as".toList, "of".toList] := by
    decide
  rw [hsplit] at hy
  obtain ⟨y, gap₀, _, hopening, hgap₀, hasOf, rfl⟩ := hy.exists_append (words_ne_nil _) (by simp)
  obtain ⟨gap', _, hgap', hof, rfl⟩ := hasOf.exists_cons (by simp)
  obtain rfl := hof.eq_of_singleton
  have hdate : dayText day suffix gap₁ gap₂ ≠ [] ∧
      ∀ c r, dayText day suffix gap₁ gap₂ = c :: r → isBlank c = false := by
    obtain ⟨d, r, hwrite, hblank⟩ :=
      DatePart.exists_write_eq_cons (p := .day) hday.regular rfl
    rw [dayText, hwrite]
    refine ⟨by simp, fun c r' hc => ?_⟩
    obtain ⟨rfl, -⟩ := List.cons.inj hc
    exact hblank
  have hstop : '.' ∉ dayText day suffix gap₁ gap₂ := by
    intro hmem
    have := mem_dayText hday hsuffix hgap₁ hgap₂ hmem
    revert this
    decide
  have hno : ∀ v ∈ words "No known solution is available", ¬ "as".toList <:+: v := by
    have hcontains : ∀ v ∈ words "No known solution is available",
        contains "as".toList v = false := by
      decide
    exact fun v hv => not_infix_of_contains (hcontains v hv)
  have hblank : ∀ c ∈ "as".toList, isBlank c = false :=
    List.forall_mem_cons.2 ⟨by decide, List.forall_mem_singleton.2 (by decide)⟩
  have hbefore (u : List Char) (r : List Char) (hu : u <:+ y ++ gap₀) (hne : u ≠ []) :
      Refuses NoSolution.asOf (u ++ r) [] := by
    rw [asOf_eq]
    exact Refuses.seq (Refuses.seq (refuses_word
      (hopening.nowhere hgap₀ (by decide) hblank hno u hu hne)))
  obtain ⟨m, hm, hcovers⟩ := find?_of_takes (r := gap₃ ++ z) (fun u => hbefore u _)
    (takes_asOf hgap' hgap hdate.1 hdate.2 hstop)
  refine ⟨m, gap₁, gap₂, ?_, hgap₁, hgap₂, hcovers.group_eq rfl⟩
  rw [← hm]
  simp only [List.append_assoc]

/-! ## Reading the day -/

/-- Behind the ordinal number of a day, no digits stand in front of letters. -/
theorem refuses_ordinalDay {n year u : List Char} {d : Char} (hn : ∀ c ∈ n, isDigit c = false)
    (hyear : ∀ c ∈ year, isDigit c = true) (hu : u <:+ d :: (n ++ year)) :
    Refuses NoSolution.ordinalDay u [] := by
  intro size s hs _
  rw [List.eq_nil_iff_forall_not_mem]
  intro e he
  obtain ⟨_, letters, ⟨_, digits, ⟨c, -, rfl⟩, ⟨hlo, -, hdigits⟩, rfl⟩, hletters, htext⟩ :=
    spells_of_mem_ends he
  have hrest : u = c :: (digits ++ (letters ++ e.rest)) := by
    rw [← hs, (leads_of_mem_ends he).rest_eq, htext]
    simp
  have hsuffix : digits ++ (letters ++ e.rest) <:+ n ++ year := by
    rw [hrest] at hu
    rcases List.suffix_cons_iff.1 hu with heq | hu
    · exact (List.cons.inj heq).2 ▸ List.suffix_rfl
    · exact (List.suffix_cons _ _).trans hu
  obtain ⟨a, digits, rfl⟩ := List.exists_cons_of_length_pos hlo
  have ha : isDigit a = true := hdigits a List.mem_cons_self
  -- what starts with a digit lies in the year, where there are no letters
  have hall : ∀ c ∈ a :: digits ++ (letters ++ e.rest), isDigit c = true := by
    obtain ⟨z, hz⟩ := hsuffix
    rcases List.append_eq_append_iff.1 hz with ⟨m, rfl, hm⟩ | ⟨m, -, rfl⟩
    · cases m with
      | nil =>
          rw [hm]
          exact hyear
      | cons b m =>
          obtain ⟨rfl, -⟩ := List.cons.inj hm
          rw [hn a (by simp)] at ha
          exact Bool.noConfusion ha
    · exact fun c hc => hyear c (List.mem_append_right _ hc)
  have hletter : ∀ w ∈ ordinalSuffixes, w.toList.any (!isDigit ·) = true := by decide
  obtain ⟨w, hw, rfl⟩ := spells_wordOf.1 hletters
  obtain ⟨l, hl, hdigit⟩ := List.any_eq_true.1 (hletter w hw)
  rw [hall l (by simp [hl])] at hdigit
  exact Bool.noConfusion hdigit

/-- A suffix behind two digits is taken out, where no other digits stand in front of letters. -/
theorem replaceAll_ordinal {a b : Char} {n year : List Char} (ha : isDigit a = true)
    (hb : isDigit b = true) (hsuffix : suffix ∈ ordinalSuffixes) (hn : ∀ c ∈ n, isDigit c = false)
    (hyear : ∀ c ∈ year, isDigit c = true) :
    NoSolution.ordinalDay.replaceAll (·.group "date") ([a, b] ++ (suffix.toList ++ (n ++ year))) =
      [a, b] ++ (n ++ year) := by
  have hletters : ∀ w ∈ ordinalSuffixes, w.toList.length = 2 ∧
      w.toList.all (!isDigit ·) = true := by
    decide
  have hletter : ∀ c ∈ suffix.toList, isDigit c = false := by
    intro c hc
    simpa using List.all_eq_true.1 (hletters suffix hsuffix).2 c hc
  have hinLine : inLine a = true := by
    rw [inLine, bne_iff_ne]
    rintro rfl
    revert ha
    decide
  obtain ⟨l, more, hl⟩ := List.exists_cons_of_length_pos
    (by rw [(hletters suffix hsuffix).1]; decide : 0 < suffix.toList.length)
  have hnumber (r : List Char) : Takes (group "date" (seq (one inLine)
      (run .longest 1 (some 2) isDigit))) ([a] ++ [b]) (suffix.toList ++ r) []
      [("date", [a, b])] := by
    refine Takes.group ((takes_one hinLine).seq (takes_longest ?_ (by simp) (by simp) (Or.inr ?_)))
    · exact List.forall_mem_singleton.2 hb
    · rw [hl]
      rintro d r' h
      obtain ⟨rfl, -⟩ := List.cons.inj h
      exact hletter l (by simp [hl])
  have htakes (r : List Char) : Takes NoSolution.ordinalDay (([a] ++ [b]) ++ suffix.toList) r []
      [("date", [a, b])] :=
    (hnumber r).seq (takes_wordOf hsuffix fun v hv =>
      (hletters v hv).1.trans (hletters suffix hsuffix).1.symm)
  have hlater : ∀ u, u <:+ ((([a] ++ [b]) ++ suffix.toList) ++ (n ++ year)).tail →
      Refuses NoSolution.ordinalDay u [] := by
    intro u hu
    apply refuses_ordinalDay (n := suffix.toList ++ n) _ hyear (d := b)
    · simpa using hu
    · intro c hc
      rcases List.mem_append.1 hc with hc | hc
      · exact hletter c hc
      · exact hn c hc
  rw [← List.append_assoc]
  exact replaceAll_of_takes (htakes _) (by simp) hlater (fun m hm => hm.group_eq rfl)

/-- What is left of a day without its suffix. -/
theorem replaceAll_ordinalDay {gap₁ gap₂ : List Char} (hday : Nameable day)
    (hsuffix : suffix ∈ ordinalSuffixes) (hgap₁ : IsGap gap₁) (hgap₂ : IsGap gap₂) :
    NoSolution.ordinalDay.replaceAll (·.group "date") (dayText day suffix gap₁ gap₂) =
      dayText day "" gap₁ gap₂ := by
  have hmonths : ∀ m < 12, (Date.monthNames.getD m "").toList.all (!isDigit ·) = true := by
    decide
  obtain ⟨ds, hwrite, hlength, hlt⟩ :=
    DatePart.exists_digits (p := .day) hday.regular rfl
  obtain ⟨ys, hyears, -, hylt⟩ := DatePart.exists_digits (p := .year) hday.regular rfl
  obtain ⟨a, b, rfl⟩ := List.length_eq_two.1 hlength
  have hyear : ∀ c ∈ DatePart.year.write day.atMidnight, isDigit c = true := by
    rw [hyears]
    intro c hc
    obtain ⟨y, hy, rfl⟩ := List.mem_map.1 hc
    exact (digitChar_facts y (hylt y hy)).2.1
  have hmonth : ∀ c ∈ DatePart.monthName.write day.atMidnight, isDigit c = false := by
    intro c hc
    have hle : day.month ≤ 12 := hday.regular.month_le
    simpa using List.all_eq_true.1 (hmonths (day.month - 1) (by omega)) c hc
  have hbetween : ∀ c ∈ gap₁ ++ (DatePart.monthName.write day.atMidnight ++ ([','] ++ gap₂)),
      isDigit c = false := by
    intro c hc
    simp only [List.mem_append, List.mem_singleton] at hc
    rcases hc with hc | hc | rfl | hc
    · exact isDigit_of_isBlank (hgap₁.2 c hc)
    · exact hmonth c hc
    · decide
    · exact isDigit_of_isBlank (hgap₂.2 c hc)
  have hreplace := replaceAll_ordinal (digitChar_facts a (hlt a (by simp))).2.1
    (digitChar_facts b (hlt b (by simp))).2.1 hsuffix hbetween hyear
  rw [dayText, dayText, hwrite]
  simpa using hreplace

theorem states_dayText {gap₁ gap₂ : List Char} (hday : Nameable day) (hgap₁ : IsGap gap₁)
    (hgap₂ : IsGap gap₂) :
    DateFormat.longDay.States day.atMidnight (dayText day "" gap₁ gap₂) := by
  have hsolid {p : DatePart} {r : List Char} (hp : p.isSolid = true) :
      DatePart.gap.MayPrecede (p.write day.atMidnight ++ r) := by
    obtain ⟨c, w, hw, hblank⟩ := DatePart.exists_write_eq_cons hday.regular hp
    rw [hw]
    rintro d r' h
    obtain ⟨rfl, -⟩ := List.cons.inj h
    exact hblank
  have hyear : DateFormat.States day.atMidnight [.gap, .year]
      (gap₂ ++ (DatePart.year.write day.atMidnight ++ [])) :=
    .cons hgap₂ (hsolid rfl) (.cons rfl trivial .nil)
  have hmonth : DateFormat.States day.atMidnight [.monthName, .mark ',', .gap, .year]
      (DatePart.monthName.write day.atMidnight ++ ([','] ++ (gap₂ ++
        (DatePart.year.write day.atMidnight ++ [])))) :=
    .cons rfl trivial (.cons rfl trivial hyear)
  have hday' : DateFormat.longDay.States day.atMidnight (DatePart.day.write day.atMidnight ++
      (gap₁ ++ (DatePart.monthName.write day.atMidnight ++ ([','] ++ (gap₂ ++
        (DatePart.year.write day.atMidnight ++ [])))))) :=
    .cons rfl trivial (.cons hgap₁ (hsolid rfl) hmonth)
  rw [List.append_nil] at hday'
  exact hday'

/-- **The day is read** as the day that is meant. -/
theorem readDay?_dayText {gap₁ gap₂ : List Char} (hday : Nameable day)
    (hsuffix : suffix ∈ ordinalSuffixes) (hgap₁ : IsGap gap₁) (hgap₂ : IsGap gap₂) :
    NoSolution.readDay? (dayText day suffix gap₁ gap₂) = some day.atMidnight := by
  have hread : DateFormat.longDay.read? (dayText day "" gap₁ gap₂) = some day.atMidnight :=
    DateFormat.read?_of_states hday.regular (states_dayText hday hgap₁ hgap₂) (by decide)
      (by decide) (by decide)
  rw [NoSolution.readDay?, replaceAll_ordinalDay hday hsuffix hgap₁ hgap₂, NoSolution.formats,
    List.findSome?_cons, hread]

end

end Checks

end NaslLint
