import NaslLint.Proofs.Date.Pictures
import NaslLint.Proofs.WrittenDates

/-!
# Which creation dates are accepted

A creation date is a stamp: a time with its offset, and the day of that time once more with the name
of its weekday. The check reads the two halves of the value by their positions. What stands between
them and behind them is not looked at, and each half is read as liberally as dates are. What such
a value lacks to be a stamp is its picture, and nothing else.

* `Checks.IsStamp` is what a creation date should be, and `Checks.Acceptable` what the check demands;
* `Checks.isStamp_iff` compares the two.
-/

namespace NaslLint

open Pattern Script

/-! ## Values of tags -/

namespace Script

/-- The value that is read from a tag is one that its pattern covers, and the text names the tag. -/
theorem spells_of_find?_tag {k : Tag} {t : List Char} {m : Match} (hnames : k.value.groupNames = [])
    (h : k.pattern.find? t = some m) :
    k.value.Spells (m.group "value") ∧ k.name.toList <:+: t := by
  obtain ⟨n, -, hm⟩ := exists_matchAt?_of_find? h
  obtain ⟨e, he, rfl⟩ := exists_mem_ends_of_matchAt? hm
  constructor
  · obtain ⟨_, v, _, -, hv, -, hgroup, -⟩ :=
      exists_value_of_mem_ends_tag hnames (Place.groups_move n _) he
    rw [hgroup]
    exact hv
  · have htext := (leads_of_mem_ends he).rest_eq
    obtain ⟨a, _, -, ⟨b, _, -, ⟨c, _, -, ⟨_, d, hname, -, rfl⟩, rfl⟩, rfl⟩, hspan⟩ :=
      spells_of_mem_ends he
    obtain rfl := spells_word.1 hname
    rw [Place.rest_move, hspan] at htext
    have hdrop : k.name.toList <:+: (Place.ofText t).rest.drop n :=
      ⟨a ++ (b ++ c), d ++ e.rest, by rw [htext]; simp⟩
    exact hdrop.trans (List.drop_suffix n t).isInfix

end Script

namespace Checks
variable {v : List Char}

/-! ## Stamps -/

/-- A time that exists, written in full with the name of its weekday. -/
def IsStamp (v : List Char) : Prop :=
  ∃ t : DateTime, t.Proper ∧ DateFormat.stamp.Writes t v

/-- The first half of the value is read as a time and the second one as the day of that time, with the
name of its weekday in front. Two characters between the halves and one behind them may be any. -/
def Acceptable (v : List Char) : Prop :=
  ∃ (left right : List Char) (a b c : Char) (t day : DateTime),
    v = left ++ (a :: b :: (right ++ [c])) ∧ left.length = 25 ∧ right.length = 16 ∧
    DateFormat.stampTime.read? left = some t ∧ DateFormat.stampDay.read? right = some day ∧
    day.toDate = t.toDate ∧ right.take 3 = t.toDate.weekday.toList

/-- A value is cut at the positions that the check uses. -/
theorem exists_halves (hv : v.length = 44) : ∃ (left right : List Char) (a b c : Char),
    v = left ++ (a :: b :: (right ++ [c])) ∧ left.length = 25 ∧ right.length = 16 := by
  obtain ⟨left, rest, rfl, hleft⟩ : ∃ left rest, v = left ++ rest ∧ left.length = 25 :=
    ⟨v.take 25, v.drop 25, (List.take_append_drop 25 v).symm, by simp [hv]⟩
  rw [List.length_append, hleft] at hv
  rcases rest with _ | ⟨a, _ | ⟨b, rest⟩⟩
  · simp at hv
  · simp at hv
  · have hrest : rest.length = 17 := by
      simp only [List.length_cons] at hv
      omega
    obtain ⟨c, hc⟩ := List.length_eq_one_iff.1 (by simp [hrest] : (rest.drop 16).length = 1)
    refine ⟨left, rest.take 16, a, b, c, ?_, hleft, by simp [hrest]⟩
    rw [← hc, List.take_append_drop]

theorem slices_eq {left right : List Char} {a b c : Char} (hleft : left.length = 25)
    (hright : right.length = 16) :
    slice 0 25 (left ++ (a :: b :: (right ++ [c]))) = left ∧
      slice 27 43 (left ++ (a :: b :: (right ++ [c]))) = right ∧
      slice 27 30 (left ++ (a :: b :: (right ++ [c]))) = right.take 3 := by
  have hbefore : (left ++ [a, b]).length = 27 := by simp [hleft]
  have hsplit : left ++ (a :: b :: (right ++ [c])) = (left ++ [a, b]) ++ (right ++ [c]) := by simp
  refine ⟨slice_append (a := []) rfl hleft, ?_, ?_⟩
  · rw [hsplit]
    exact slice_append (j := 16) hbefore hright
  · have hname : right ++ [c] = right.take 3 ++ (right.drop 3 ++ [c]) := by
      rw [← List.append_assoc, List.take_append_drop]
    rw [hsplit, hname]
    exact slice_append (j := 3) hbefore (by simp [hright])

theorem creationDateFault?_eq_none_iff (hv : v.length = 44) :
    creationDateFault? v = none ↔ Acceptable v := by
  constructor
  · intro h
    obtain ⟨left, right, a, b, c, rfl, hleft, hright⟩ := exists_halves hv
    obtain ⟨htime, hday, hname⟩ := slices_eq (a := a) (b := b) (c := c) hleft hright
    rw [creationDateFault?, htime, hday, hname] at h
    split at h
    · rename_i t day ht hday
      simp only at h
      split at h
      · cases h
      · rename_i hsame
        split at h
        · cases h
        · rename_i hweekday
          rw [ne_eq, not_not] at hsame hweekday
          refine ⟨left, right, a, b, c, t, day, rfl, hleft, hright, ht, hday, hsame.symm, ?_⟩
          rw [hsame, ← hweekday, String.toList_ofList]
    · cases h
  · rintro ⟨left, right, a, b, c, t, day, rfl, hleft, hright, ht, hday, hsame, hweekday⟩
    obtain ⟨htime, hdays, hname⟩ := slices_eq (a := a) (b := b) (c := c) hleft hright
    simp only [creationDateFault?, htime, hdays, hname, ht, hday, hsame, hweekday,
      String.ofList_toList, ne_eq, not_true_eq_false, if_false]

/-! ## Stamps and what is accepted -/

theorem strict_stampTime : DateFormat.stampTime.Strict :=
  ⟨by decide, by decide, by decide, by decide⟩

theorem strict_stampDay : DateFormat.stampDay.Strict :=
  ⟨by decide, by decide, by decide, by decide⟩

theorem stamp_eq : DateFormat.stamp =
    DateFormat.stampTime ++ (.gap :: .mark '(' :: (DateFormat.stampDay ++ [.mark ')'])) := rfl

/-- A stamp is made of its halves with certain characters around the second one. -/
theorem writes_stamp_iff {t : DateTime} : DateFormat.stamp.Writes t v ↔
    ∃ left right, v = left ++ (' ' :: '(' :: (right ++ [')'])) ∧
      DateFormat.stampTime.Writes t left ∧ DateFormat.stampDay.Writes t right := by
  have hlast : DateFormat.Writes t [.mark ')'] [')'] := ⟨[[')']], .cons rfl .nil, rfl⟩
  rw [stamp_eq, DateFormat.writes_append]
  constructor
  · rintro ⟨left, _, rfl, hleft, hrest⟩
    obtain ⟨_, _, rfl, rfl, hbracket⟩ := DateFormat.writes_cons.1 hrest
    obtain ⟨_, _, rfl, rfl, hday⟩ := DateFormat.writes_cons.1 hbracket
    obtain ⟨right, _, rfl, hright, hend⟩ := DateFormat.writes_append.1 hday
    obtain ⟨_, _, rfl, rfl, _, hnil, rfl⟩ := DateFormat.writes_cons.1 hend
    cases hnil
    exact ⟨left, right, rfl, hleft, hright⟩
  · rintro ⟨left, right, rfl, hleft, hright⟩
    refine ⟨left, _, rfl, hleft, DateFormat.writes_cons.2 ⟨[' '], _, rfl, rfl, ?_⟩⟩
    refine DateFormat.writes_cons.2 ⟨['('], _, rfl, rfl, ?_⟩
    exact DateFormat.writes_append.2 ⟨right, _, rfl, hright, hlast⟩

theorem fits_stamp_iff {left right : List Char} {a b c : Char} (hleft : left.length = 25)
    (hright : right.length = 16) :
    Glyph.fits DateFormat.stamp.picture (left ++ (a :: b :: (right ++ [c]))) = true ↔
      Glyph.fits DateFormat.stampTime.picture left = true ∧ a = ' ' ∧ b = '(' ∧
        Glyph.fits DateFormat.stampDay.picture right = true ∧ c = ')' := by
  have hpicture : DateFormat.stamp.picture = DateFormat.stampTime.picture ++
      (.char ' ' :: .char '(' :: (DateFormat.stampDay.picture ++ [.char ')'])) := rfl
  rw [hpicture]
  constructor
  · intro h
    obtain ⟨y, z, hyz, hy, hz⟩ := Glyph.fits_append.1 h
    obtain ⟨rfl, rfl⟩ := List.append_inj hyz (by rw [hleft, Glyph.length_eq_of_fits hy]; rfl)
    obtain ⟨_, _, heq, ha, hz⟩ := Glyph.fits_cons.1 hz
    obtain ⟨rfl, rfl⟩ := List.cons.inj heq
    obtain ⟨_, _, heq, hb, hz⟩ := Glyph.fits_cons.1 hz
    obtain ⟨rfl, rfl⟩ := List.cons.inj heq
    obtain ⟨y, z, hyz, hy', hz⟩ := Glyph.fits_append.1 hz
    obtain ⟨rfl, rfl⟩ := List.append_inj hyz (by rw [hright, Glyph.length_eq_of_fits hy']; rfl)
    obtain ⟨_, _, heq, hc, -⟩ := Glyph.fits_cons.1 hz
    obtain ⟨rfl, -⟩ := List.cons.inj heq
    exact ⟨hy, beq_iff_eq.1 ha, beq_iff_eq.1 hb, hy', beq_iff_eq.1 hc⟩
  · rintro ⟨hl, rfl, rfl, hr, rfl⟩
    refine Glyph.fits_append.2 ⟨left, _, rfl, hl, Glyph.fits_cons.2 ⟨' ', _, rfl, rfl, ?_⟩⟩
    refine Glyph.fits_cons.2 ⟨'(', _, rfl, rfl, ?_⟩
    exact Glyph.fits_append.2 ⟨right, _, rfl, hr, rfl⟩

/-- What is read from the first half of a value with the picture of a stamp. -/
theorem writes_stampTime_of_read? {left : List Char} {t : DateTime}
    (hfits : Glyph.fits DateFormat.stampTime.picture left = true)
    (h : DateFormat.stampTime.read? left = some t) :
    t.Proper ∧ DateFormat.stampTime.Writes t left := by
  obtain ⟨ys, hys, rfl, hhour, hminute, hvalid, hsecond⟩ :=
    DateFormat.forall₂_writes_of_read? strict_stampTime (by decide) hfits h
  refine ⟨⟨hvalid, hhour (by decide), hminute (by decide), hsecond⟩, ys, ?_, rfl⟩
  obtain ⟨hlength, hwrites⟩ := List.forall₂_iff_zip.1 hys
  refine List.forall₂_iff_zip.2 ⟨hlength, fun {p y} hmem => (hwrites hmem).2 ?_⟩
  rintro rfl
  exact absurd (List.of_mem_zip hmem).1 (by decide)

/-- What is read from the second half is the day in full, if the name of the weekday is right. -/
theorem writes_stampDay_of_read? {right : List Char} {t day : DateTime}
    (hfits : Glyph.fits DateFormat.stampDay.picture right = true)
    (h : DateFormat.stampDay.read? right = some day) (hsame : day.toDate = t.toDate)
    (hweekday : right.take 3 = t.toDate.weekday.toList) : DateFormat.stampDay.Writes t right := by
  obtain ⟨ys, hys, rfl, -, -, -, -⟩ :=
    DateFormat.forall₂_writes_of_read? strict_stampDay (by decide) hfits h
  cases hys with
  | @cons _ name _ ys hname hys =>
      refine ⟨name :: ys, .cons ?_ ?_, rfl⟩
      · have hlength : name.length = 3 := Glyph.length_eq_of_fits hname.1
        rw [List.flatten_cons, ← hlength, List.take_left] at hweekday
        exact hweekday
      · obtain ⟨hlength, hwrites⟩ := List.forall₂_iff_zip.1 hys
        refine List.forall₂_iff_zip.2 ⟨hlength, fun {p y} hmem => ?_⟩
        have hparts : ∀ p ∈ DateFormat.stampDay.drop 1,
            p ≠ .weekday ∧ p ≠ .hour ∧ p ≠ .minute ∧ p ≠ .second := by
          decide
        obtain ⟨hp, htime⟩ := hparts p (List.of_mem_zip hmem).1
        exact ((hwrites hmem).2 hp).of_toDate_eq hsame htime

/-- **Stamps and accepted values.** A value is a stamp if and only if it is accepted and has the
picture of a stamp. -/
theorem isStamp_iff :
    IsStamp v ↔ Acceptable v ∧ Glyph.fits DateFormat.stamp.picture v = true := by
  constructor
  · rintro ⟨t, ht, hv⟩
    have hfits := hv.fits ht (by decide)
    obtain ⟨left, right, rfl, hleft, hright⟩ := writes_stamp_iff.1 hv
    refine ⟨⟨left, right, ' ', '(', ')', t, t.toDate.atMidnight, rfl, ?_, ?_, ?_, ?_, rfl, ?_⟩, hfits⟩
    · exact Glyph.length_eq_of_fits (hleft.fits ht (by decide))
    · exact Glyph.length_eq_of_fits (hright.fits ht (by decide))
    · exact DateFormat.read?_of_writes ht strict_stampTime (by decide) (by decide) (by decide) hleft
    · exact DateFormat.read?_of_writes ht strict_stampDay (by decide) (by decide) (by decide) hright
    · obtain ⟨name, rest, rfl, hname, -⟩ := DateFormat.writes_cons.1 hright
      have hlength : name.length = 3 := Glyph.length_eq_of_fits (hname.fits ht (by decide))
      rw [← hlength, List.take_left]
      exact hname
  · rintro ⟨⟨left, right, a, b, c, t, day, rfl, hleft, hright, ht, hday, hsame, hweekday⟩, hfits⟩
    obtain ⟨hl, rfl, rfl, hr, rfl⟩ := (fits_stamp_iff hleft hright).1 hfits
    obtain ⟨hproper, hwrites⟩ := writes_stampTime_of_read? hl ht
    exact ⟨t, hproper, writes_stamp_iff.2
      ⟨left, right, rfl, hwrites, writes_stampDay_of_read? hr hday hsame hweekday⟩⟩

/-! ## The check -/

/-- A script without findings states a creation date whose value is accepted. -/
theorem findings_creationDate_iff {s : Subject} {w : Surroundings} {t : List Char}
    (hfile : s.file.isInclude = false) (htext : s.text = .ok t) :
    creationDate.findings s w = .done [] ↔
      ∃ m, Tag.creationDate.pattern.find? t = some m ∧ Acceptable (m.group "value") := by
  rw [FileCheck.findings_eq_done_nil_iff]
  simp only [creationDate, Subject.onScript, Subject.withText, htext, Subject.unlessInclude, hfile,
    Bool.false_eq_true, if_false]
  cases hfind : Tag.creationDate.pattern.find? t with
  | none => cases Text.contains "creation_date".toList t <;> simp [Outcome.done]
  | some m =>
      obtain ⟨hvalue, hname⟩ := spells_of_find?_tag rfl hfind
      have hlength : (m.group "value").length = 44 :=
        Nat.le_antisymm (hvalue.2.1 44 rfl) hvalue.1
      have hcontains : Text.contains "creation_date".toList t = true := Text.contains_iff.2 hname
      simp only [hcontains, Bool.not_true, Bool.false_eq_true, if_false, Option.some.injEq,
        exists_eq_left']
      rw [← creationDateFault?_eq_none_iff hlength]
      cases creationDateFault? (m.group "value") <;> simp [Outcome.done]

/-- **Accepted creation dates.** The check has nothing to say about a script if and only if the first
creation date that the script states is accepted. The value of that date is a stamp if and only if
the check says nothing and each character of the value is of the kind that a stamp has at its place.
-/
theorem creationDate_isStamp_iff {s : Subject} {w : Surroundings} {t : List Char}
    (hfile : s.file.isInclude = false) (htext : s.text = .ok t) :
    (creationDate.findings s w = .done [] ↔
      ∃ m, Tag.creationDate.pattern.find? t = some m ∧ Acceptable (m.group "value")) ∧
    ∀ m, Tag.creationDate.pattern.find? t = some m →
      (IsStamp (m.group "value") ↔ creationDate.findings s w = .done [] ∧
        Glyph.fits DateFormat.stamp.picture (m.group "value") = true) := by
  refine ⟨findings_creationDate_iff hfile htext, ?_⟩
  intro m hm
  have hclean : creationDate.findings s w = .done [] ↔ Acceptable (m.group "value") := by
    rw [findings_creationDate_iff hfile htext, hm]
    simp only [Option.some.injEq, exists_eq_left']
  rw [isStamp_iff, hclean]

def datedScript (value : String) : Subject :=
  { root := ⟨"/", []⟩
    file := ⟨"/", ["a.nasl"]⟩
    text := .ok ("script_tag(name:\"creation_date\", value:\"".toList ++ value.toList ++
      "\");\n".toList) }

/-- A time with an offset of its own, in a year before 1000. -/
theorem creationDate_isStamp_of_early_year :
    let s := datedScript "0999-05-14 11:24:55 -0730 (Tue, 14 May 0999)"
    let w : Surroundings := { tree := .empty, now := default }
    s.file.isInclude = false ∧ creationDate.findings s w = .done [] ∧
      ∃ t m, s.text = .ok t ∧ Tag.creationDate.pattern.find? t = some m ∧
        IsStamp (m.group "value") := by
  intro s w
  have hfile : s.file.isInclude = false := by decide
  obtain ⟨t, htext⟩ : ∃ t, s.text = .ok t := ⟨_, rfl⟩
  obtain ⟨hread, hvalid⟩ :
      (s.text.map fun t => (Tag.creationDate.pattern.find? t).map fun m =>
        Glyph.fits DateFormat.stamp.picture (m.group "value")) = .ok (some true) ∧
      creationDate.findings s w = .done [] := by
    decide +kernel
  rw [htext] at hread
  obtain ⟨m, hm, hfits⟩ := Option.map_eq_some_iff.1 (Except.ok.inj hread)
  exact ⟨hfile, hvalid, t, m, htext, hm,
    ((creationDate_isStamp_iff hfile htext).2 m hm).2 ⟨hvalid, hfits⟩⟩

/-- A value with other marks around its second half is accepted without being a stamp. -/
theorem unstamped_date_accepted :
    let value := "2013-05-14 11:24:55 +0200--Tue, 14 May 2013-"
    let s := datedScript value
    let w : Surroundings := { tree := .empty, now := default }
    creationDate.findings s w = .done [] ∧
      (s.text.map fun t => (Tag.creationDate.pattern.find? t).map fun m => m.group "value") =
        .ok (some value.toList) ∧ ¬ IsStamp value.toList := by
  intro value s w
  obtain ⟨hclean, hread, hfits⟩ : creationDate.findings s w = .done [] ∧
      (s.text.map fun t => (Tag.creationDate.pattern.find? t).map fun m => m.group "value") =
        .ok (some value.toList) ∧
      Glyph.fits DateFormat.stamp.picture value.toList = false := by
    decide +kernel
  refine ⟨hclean, hread, ?_⟩
  intro hstamp
  rw [(isStamp_iff.1 hstamp).2] at hfits
  exact Bool.noConfusion hfits

-- So are a number of one digit with a wider gap behind it, and other spellings of an offset and of
-- a month.
example : ∀ value ∈ ["2013-5-14  11:24:55 +0200 (Tue, 14 May 2013)",
      "2013-05-14 11:24:55     Z (Tue, 14 MAY 2013)"],
    creationDate.findings (datedScript value) { tree := .empty, now := default } = .done [] ∧
      Glyph.fits DateFormat.stamp.picture value.toList = false := by
  decide +kernel

end Checks

end NaslLint
