import NaslLint.Proofs.Date.Fields
import NaslLint.Proofs.Solution.Wording

/-!
# Days with an ordinal number

A solution names a day such as `24th March, 2021`. The suffix of the number is taken out before the
day is read, but only where another character stands in front of the last digits of the number. So a
number of one digit keeps its suffix, and the day cannot be read.

* `Checks.NoSolution.namedDay` are the ways to write a day;
* `Checks.NoSolution.named_day_read` says what is read from them.
-/

namespace NaslLint

open Pattern Text

/-! ## A day in one digit -/

namespace DatePart
variable {r : List Char} {g : List (String × List Char)} {n : Nat}

/-- A number of two digits does not stand where a digit is followed by something else. -/
theorem refuses_chain_digit {p : Pattern} {cls : Char → Bool} {c : Char}
    (hp : ∀ y, p.Spells y → y.length = 1) (hcls : ∀ d, cls d = true → isDigit d = true)
    (hr : ∀ d z, r = d :: z → isDigit d = false) : Refuses (chain [p, one cls]) (c :: r) g := by
  intro size s hs _
  rw [List.eq_nil_iff_forall_not_mem]
  intro e he
  obtain ⟨u, hu, he⟩ := mem_ends_seq.1 he
  have hrest := (leads_of_mem_ends hu).rest_eq
  obtain ⟨b, hb⟩ := List.length_eq_one_iff.1 (hp _ (spells_of_mem_ends hu))
  rw [hs, hb] at hrest
  obtain ⟨-, htail⟩ := List.cons.inj hrest
  obtain ⟨d, z, hd, hdigit, -⟩ := mem_ends_one.1 he
  have hnot := hr d z (htail.trans hd)
  rw [hcls d hdigit] at hnot
  cases hnot

theorem takes_oneDigitDay (hlo : 1 ≤ n) (hhi : n < 10)
    (hr : ∀ d z, r = d :: z → isDigit d = false) :
    Takes day.pattern [Nat.digitChar n] r g g := by
  have hfrom {lo hi : Char} (hlo : '0' ≤ lo) (hhi : hi ≤ '9') (d : Char)
      (hd : (decide (lo ≤ d) && decide (d ≤ hi)) = true) : isDigit d = true :=
    (digital_digitFrom hlo hhi [d] ⟨d, hd, rfl⟩).2 d (by simp)
  have hword (c : Char) (y : List Char) (hy : (word [c]).Spells y) : y.length = 1 := by
    obtain rfl : y = [c] := hy
    rfl
  have hone (cls : Char → Bool) (y : List Char) (hy : (one cls).Spells y) : y.length = 1 := by
    obtain ⟨c, -, rfl⟩ := hy
    rfl
  have hsome : ∀ d < 10, 1 ≤ d → ('1' ≤ Nat.digitChar d && Nat.digitChar d ≤ '9') = true := by
    decide
  apply Takes.oneOf [chain ["3", digitFrom '0' '1'], chain [digitFrom '1' '2', anyDigit],
    chain ["0", digitFrom '1' '9']]
  · intro p hp
    simp only [List.mem_cons, List.not_mem_nil, or_false] at hp
    rcases hp with rfl | rfl | rfl
    · exact refuses_chain_digit (hword '3') (hfrom (by decide) (by decide)) hr
    · exact refuses_chain_digit (hone _) (fun d hd => hd) hr
    · exact refuses_chain_digit (hword '0') (hfrom (by decide) (by decide)) hr
  · exact takes_digitFrom (hsome n hhi hlo)

end DatePart

namespace Checks.NoSolution

/-! ## Ways to write a day -/

/-- The number of a day, in two digits or in as few as possible. -/
def dayDigits (padded : Bool) (n : Nat) : List Char :=
  if padded then DatePart.twoDigits n else Nat.toDigits 10 n

def monthPart (full : Bool) : DatePart :=
  if full then .monthName else .monthAbbreviation

/-- A day as solutions name it, with a suffix behind its number. -/
def namedDay (padded full : Bool) (suffix : String) (d : Date) : List Char :=
  dayDigits padded d.day ++ (suffix.toList ++ ([' '] ++ ((monthPart full).write d.atMidnight ++
    (", ".toList ++ DatePart.year.write d.atMidnight))))

/-- The number of the day has a suffix and only one digit. -/
def IsShortOrdinal (padded : Bool) (suffix : String) (d : Date) : Prop :=
  suffix ≠ "" ∧ padded = false ∧ d.day < 10

instance (padded : Bool) (suffix : String) (d : Date) : Decidable (IsShortOrdinal padded suffix d) :=
  inferInstanceAs (Decidable (_ ∧ _))

section
variable {d : Date} {n : Nat} {suffix : String}

theorem dayDigits_cases (padded : Bool) (h : n ≤ 31) :
    (padded = false ∧ n < 10 ∧ dayDigits padded n = [Nat.digitChar n]) ∨
      (¬ (padded = false ∧ n < 10) ∧
        dayDigits padded n = [Nat.digitChar (n / 10), Nat.digitChar (n % 10)]) := by
  cases padded with
  | true => exact .inr ⟨by simp, DatePart.twoDigits_eq (by omega)⟩
  | false =>
      by_cases hn : n < 10
      · exact .inl ⟨rfl, hn, Nat.toDigits_of_lt_base hn⟩
      · exact .inr ⟨by simp [hn], toDigits_eq_two (by omega) (by omega)⟩

theorem readNat?_dayDigits (padded : Bool) (h : n ≤ 31) :
    readNat? (trim (dayDigits padded n)) = some n := by
  rcases dayDigits_cases padded h with ⟨-, hn, hwrite⟩ | ⟨-, hwrite⟩
  · have hread : readNat? (trim ([n].map Nat.digitChar)) = some (ofDigits [n]) :=
      readNat?_trim_map_digitChar (by simp) (by simpa using hn) (by simp [maxIntegerDigits])
    rw [hwrite]
    simpa [ofDigits] using hread
  · have hread := DatePart.readNat?_twoDigits (n := n) (by omega)
    rw [DatePart.twoDigits_eq (by omega)] at hread
    rw [hwrite]
    exact hread

theorem takes_dayDigits {r : List Char} {g : List (String × List Char)} (padded : Bool)
    (hlo : 1 ≤ n) (hhi : n ≤ 31) (hr : ∀ c z, r = c :: z → isDigit c = false) :
    Takes DatePart.day.pattern (dayDigits padded n) r g g := by
  rcases dayDigits_cases padded hhi with ⟨-, hn, hwrite⟩ | ⟨-, hwrite⟩
  · rw [hwrite]
    exact DatePart.takes_oneDigitDay hlo hn hr
  · have htakes := DatePart.takes_day (t := Date.atMidnight ⟨0, 0, n⟩) (r := r) (g := g) hlo hhi
    change Takes _ (DatePart.twoDigits n) r g g at htakes
    rw [DatePart.twoDigits_eq (by omega)] at htakes
    rw [hwrite]
    exact htakes

/-- A day of a year of four digits, at its start. -/
theorem regular_atMidnight (hd : d.isValid = true) (hyear : 1000 ≤ d.year) :
    d.atMidnight.Regular :=
  ⟨hd, hyear, Nat.zero_lt_succ 23, Nat.zero_lt_succ 59, Nat.zero_lt_succ 59⟩

/-! ## Taking the suffix out -/

/-- Behind one digit nothing is taken out. -/
theorem replaceAll_oneDigit {c : Char} {between year : List Char}
    (hbetween : ∀ c ∈ between, isDigit c = false) (hyear : ∀ c ∈ year, isDigit c = true) :
    ordinalDay.replaceAll (·.group "date") (c :: (between ++ year)) = c :: (between ++ year) :=
  replaceAll_of_refuses fun _ hu => refuses_ordinalDay hbetween hyear hu

/-- Behind two digits nothing is taken out if a space follows them. -/
theorem replaceAll_twoDigits {a b : Char} {between year : List Char} (hb : isDigit b = true)
    (hbetween : ∀ c ∈ ' ' :: between, isDigit c = false) (hyear : ∀ c ∈ year, isDigit c = true) :
    ordinalDay.replaceAll (·.group "date") (a :: b :: (' ' :: between ++ year)) =
      a :: b :: (' ' :: between ++ year) := by
  apply replaceAll_of_refuses
  intro u hu
  rcases List.suffix_cons_iff.1 hu with rfl | hu
  · intro size s hs _
    rw [List.eq_nil_iff_forall_not_mem]
    intro e he
    obtain ⟨_, letters, ⟨_, digits, ⟨c, -, rfl⟩, ⟨hlo, -, hdigits⟩, rfl⟩, hletters, htext⟩ :=
      spells_of_mem_ends he
    obtain ⟨w, hw, rfl⟩ := spells_wordOf.1 hletters
    have hfirst : ∀ w ∈ ordinalSuffixes, w.toList.head?.all fun l => !isDigit l && l != ' ' := by
      decide
    have hrest : a :: b :: (' ' :: between ++ year) = c :: (digits ++ (w.toList ++ e.rest)) := by
      rw [← hs, (leads_of_mem_ends he).rest_eq, htext]
      simp
    obtain ⟨l, more, hl⟩ : ∃ l more, w.toList = l :: more := by
      have hne : ∀ w ∈ ordinalSuffixes, w.toList ≠ [] := by decide
      exact List.exists_cons_of_ne_nil (hne w hw)
    have hletter := hfirst w hw
    rw [hl, List.head?_cons, Option.all_some, Bool.and_eq_true, Bool.not_eq_true', bne_iff_ne]
      at hletter
    -- the digits end in front of the space, where no letter stands
    have hcut : [b] ++ (' ' :: between ++ year) = digits ++ (l :: (more ++ e.rest)) := by
      rw [hl] at hrest
      exact (List.cons.inj hrest).2
    have hspace : ∀ d z, ' ' :: between ++ year = d :: z → isDigit d = false := by
      rintro d z h
      obtain ⟨rfl, -⟩ := List.cons.inj h
      decide
    have hbehind : ∀ d z, l :: (more ++ e.rest) = d :: z → isDigit d = false := by
      rintro d z h
      obtain ⟨rfl, -⟩ := List.cons.inj h
      exact hletter.1
    obtain ⟨-, heq⟩ :=
      eq_of_append_eq_append (List.forall_mem_singleton.2 hb) hdigits hspace hbehind hcut
    exact hletter.2 (List.cons.inj heq).1.symm
  · exact refuses_ordinalDay hbetween hyear hu

theorem digits_year (hd : d.isValid = true) (hyear : 1000 ≤ d.year) :
    ∀ c ∈ DatePart.year.write d.atMidnight, isDigit c = true := by
  obtain ⟨ys, hwrite, -, hlt⟩ :=
    DatePart.exists_digits (p := .year) (regular_atMidnight hd hyear) rfl
  rw [hwrite]
  intro c hc
  obtain ⟨y, hy, rfl⟩ := List.mem_map.1 hc
  exact (digitChar_facts y (hlt y hy)).2.1

theorem not_digit_month (full : Bool) (hd : d.isValid = true) (hyear : 1000 ≤ d.year) :
    ∀ c ∈ [' '] ++ ((monthPart full).write d.atMidnight ++ ", ".toList), isDigit c = false := by
  have hmonth : d.month - 1 < 12 := by
    have := (regular_atMidnight hd hyear).month_le
    exact Nat.lt_of_le_of_lt (Nat.sub_le_sub_right this 1) (by decide)
  have hnames : ∀ m < 12, ((Date.monthNames.getD m "").toList.all (!isDigit ·) &&
      (Date.monthAbbreviations.getD m "").toList.all (!isDigit ·)) = true := by
    decide
  obtain ⟨hlong, hshort⟩ := Bool.and_eq_true_iff.1 (hnames _ hmonth)
  intro c hc
  simp only [List.mem_append, List.mem_singleton] at hc
  rcases hc with rfl | hc | hc
  · decide
  · cases full with
    | true => simpa using List.all_eq_true.1 hlong c hc
    | false => simpa using List.all_eq_true.1 hshort c hc
  · have hmarks : ", ".toList.all (!isDigit ·) = true := by decide
    simpa using List.all_eq_true.1 hmarks c hc

/-- **The suffix is taken out** unless the number of the day has only one digit. -/
theorem replaceAll_namedDay (padded full : Bool) (hd : d.isValid = true) (hyear : 1000 ≤ d.year)
    (hsuffix : suffix ∈ "" :: ordinalSuffixes) :
    ordinalDay.replaceAll (·.group "date") (namedDay padded full suffix d) =
      namedDay padded full (if IsShortOrdinal padded suffix d then suffix else "") d := by
  have hdigits := digits_year hd hyear
  have hmonth := not_digit_month full hd hyear
  have hletters : ∀ w ∈ "" :: ordinalSuffixes, w.toList.all (!isDigit ·) = true := by decide
  have hday : d.day ≤ 31 := Date.day_le_of_isValid hd
  have hassoc : ∀ s : String, namedDay padded full s d = dayDigits padded d.day ++ (s.toList ++
      (([' '] ++ ((monthPart full).write d.atMidnight ++ ", ".toList)) ++
        DatePart.year.write d.atMidnight)) := by
    intro s
    rw [namedDay]
    simp only [List.append_assoc]
  rw [hassoc, hassoc]
  rcases dayDigits_cases padded hday with ⟨hpadded, hlt, hwrite⟩ | ⟨hlong, hwrite⟩
  · have hkept : (if IsShortOrdinal padded suffix d then suffix else "") = suffix := by
      by_cases hne : suffix = ""
      · simp [IsShortOrdinal, hne]
      · exact if_pos ⟨hne, hpadded, hlt⟩
    rw [hkept, hwrite, ← List.append_assoc suffix.toList]
    apply replaceAll_oneDigit _ hdigits
    intro c hc
    rcases List.mem_append.1 hc with hc | hc
    · simpa using List.all_eq_true.1 (hletters suffix hsuffix) c hc
    · exact hmonth c hc
  · have hgone : (if IsShortOrdinal padded suffix d then suffix else "") = "" :=
      if_neg fun h => hlong h.2
    have hten := digitChar_facts (d.day / 10) (by omega)
    have hone := digitChar_facts (d.day % 10) (by omega)
    rw [hgone, hwrite]
    rcases List.mem_cons.1 hsuffix with rfl | hsuffix
    · exact replaceAll_twoDigits hone.2.1 hmonth hdigits
    · exact replaceAll_ordinal hten.2.1 hone.2.1 hsuffix hmonth hdigits

/-! ## Reading a day without a suffix -/

def dayFormat (full : Bool) : DateFormat :=
  [.day, .gap, monthPart full, .mark ',', .gap, .year]

/-- What the parts of a named day tell. -/
theorem tells_namedDay (padded full : Bool) (hd : d.isValid = true) (hyear : 1000 ≤ d.year) {m : Match}
    (hm : ∀ name, m.group? name = (DateFormat.labelled (dayFormat full)
      [dayDigits padded d.day, [' '], (monthPart full).write d.atMidnight, [','], [' '],
        DatePart.year.write d.atMidnight]).lookup name) : DateFormat.Tells m d.atMidnight := by
  have hregular := regular_atMidnight hd hyear
  have hlo : 1 ≤ d.month := hregular.month_pos
  have hhi : d.month ≤ 12 := hregular.month_le
  obtain ⟨hlong, hshort⟩ := DateFormat.nameNumber?_names (d.month - 1) (by omega)
  rw [Nat.sub_add_cancel hlo] at hlong hshort
  -- every other part is missing
  have hlookup : m.group? DatePart.year.label = some (DatePart.year.write d.atMidnight) ∧
      m.group? DatePart.day.label = some (dayDigits padded d.day) ∧
      m.group? DatePart.monthName.label =
        (if full then some (DatePart.monthName.write d.atMidnight) else none) ∧
      m.group? DatePart.monthAbbreviation.label =
        (if full then none else some (DatePart.monthAbbreviation.write d.atMidnight)) ∧
      m.group? DatePart.hour.label = none ∧ m.group? DatePart.minute.label = none ∧
      m.group? DatePart.second.label = none ∧ m.group? DatePart.offset.label = none ∧
      m.group? DatePart.weekday.label = none := by
    simp only [hm]
    cases full <;> exact ⟨rfl, rfl, rfl, rfl, rfl, rfl, rfl, rfl, rfl⟩
  obtain ⟨hyears, hdays, hnames, habbreviations, hhour, hminute, hsecond, hoffset, hweekday⟩ := hlookup
  refine ⟨?_, ?_, ?_, DateFormat.numberOf?_of_none hhour, DateFormat.numberOf?_of_none hminute,
    DateFormat.numberOf?_of_none hsecond, ?_⟩
  · rw [DateFormat.numberOf?_of_some hyears]
    exact DatePart.readNat?_year hregular.year_ge hregular.year_lt
  · simp only [DateFormat.monthOf?, hnames, habbreviations]
    cases full with
    | true => exact hlong
    | false => exact hshort
  · rw [DateFormat.numberOf?_of_some hdays]
    exact readNat?_dayDigits padded (Date.day_le_of_isValid hd)
  · simp only [DateFormat.isPlausible, hoffset, hweekday, Option.all_none, Bool.and_self]

theorem read?_namedDay (padded full : Bool) (hd : d.isValid = true) (hyear : 1000 ≤ d.year) :
    (dayFormat full).read? (namedDay padded full "" d) = some d.atMidnight := by
  have hregular := regular_atMidnight hd hyear
  have hsolid {p : DatePart} {r : List Char} (hp : p.isSolid = true) :
      ∀ c z, p.write d.atMidnight ++ r = c :: z → isBlank c = false := by
    obtain ⟨c, w, hw, hblank⟩ := DatePart.exists_write_eq_cons hregular hp
    rw [hw]
    rintro _ z h
    obtain ⟨rfl, -⟩ := List.cons.inj h
    exact hblank
  have hmonth : (monthPart full).isSolid = true := by cases full <;> rfl
  have hgap {r : List Char} (hr : ∀ c z, r = c :: z → isBlank c = false)
      (g : List (String × List Char)) : Takes DatePart.gap.pattern [' '] r g g :=
    takes_someBlanks (by simp) (List.forall_mem_singleton.2 (by decide)) hr
  have htaken : DateFormat.Taken (dayFormat full) [dayDigits padded d.day, [' '],
      (monthPart full).write d.atMidnight, [','], [' '], DatePart.year.write d.atMidnight] := by
    refine .cons (fun g => ?_) (.cons (hgap (hsolid hmonth)) (.cons (fun g => ?_)
      (.cons (fun g => takes_wordAnyCase) (.cons (hgap (hsolid rfl)) (.cons (fun g => ?_) .nil)))))
    · apply takes_dayDigits padded hregular.day_pos hregular.day_le
      rintro c z h
      obtain ⟨rfl, -⟩ := List.cons.inj h
      decide
    · cases full with
      | true => exact DatePart.takes_monthName hregular.month_pos hregular.month_le
      | false => exact DatePart.takes_monthAbbreviation hregular.month_pos hregular.month_le
    · exact DatePart.takes_year hregular.year_ge hregular.year_lt
  have hread := htaken.read?_eq_some (by simp [dayFormat])
    (fun m hm => tells_namedDay padded full hd hyear hm) hd (Nat.zero_le _)
  rw [← hread]
  congr 1
  simp [namedDay]

/-! ## Texts that are not read -/

/-- In a format that begins with a day and a gap, blanks stand behind the digits at the start. -/
theorem exists_gap_of_read? {f : DateFormat} {ds r : List Char} {t : DateTime} (hne : ds ≠ [])
    (hds : ∀ c ∈ ds, isDigit c = true) (hr : ∀ c z, r = c :: z → isDigit c = false)
    (h : DateFormat.read? (.day :: .gap :: f) (ds ++ r) = some t) :
    ∃ gap xs, IsGap gap ∧ List.Forall₂ (fun p y => p.pattern.Spells y) f xs ∧
      r = gap ++ xs.flatten := by
  obtain ⟨_, m, hspells, heq, -⟩ := DateFormat.exists_texts_of_read? (by simp) h
  cases hspells with
  | @cons _ y _ _ hy hspells =>
  cases hspells with
  | @cons _ gap _ xs hgap hspells =>
  have hisGap : IsGap gap := ⟨List.length_pos_iff.1 hgap.1, hgap.2.2⟩
  refine ⟨gap, xs, hisGap, hspells, ?_⟩
  rw [List.flatten_cons, List.flatten_cons] at heq
  rcases DatePart.digits_of_spells rfl hy with ⟨-, hdigits⟩ | ⟨-, b, -, rfl⟩
  · refine (eq_of_append_eq_append hds hdigits hr ?_ heq).2
    intro c z hc
    obtain ⟨b, gap, rfl⟩ := List.exists_cons_of_ne_nil hisGap.1
    obtain ⟨rfl, -⟩ := List.cons.inj hc
    exact isDigit_of_isBlank (hisGap.2 _ List.mem_cons_self)
  · -- a day that begins with a blank does not begin with a digit
    obtain ⟨c, ds, rfl⟩ := List.exists_cons_of_ne_nil hne
    have hc := hds c List.mem_cons_self
    rw [(List.cons.inj heq).1] at hc
    exact absurd hc (by decide)

/-- A number of one digit with a suffix is no day in any of the formats. -/
theorem readPlain_shortOrdinal {f : DateFormat} (hf : f ∈ formats) {n : Nat} {r : List Char}
    (hn : n < 10) (hsuffix : suffix ∈ ordinalSuffixes) :
    f.read? (Nat.digitChar n :: (suffix.toList ++ r)) = none := by
  have hletters : ∀ w ∈ ordinalSuffixes,
      (w.toList.head?.any fun l => !isDigit l && !isBlank l) = true := by
    decide
  have hletter := hletters suffix hsuffix
  cases hl : suffix.toList with
  | nil =>
      rw [hl] at hletter
      cases hletter
  | cons l more =>
  rw [hl, List.head?_cons, Option.any_some, Bool.and_eq_true, Bool.not_eq_true',
    Bool.not_eq_true'] at hletter
  rw [Option.eq_none_iff_forall_ne_some]
  intro t h
  have hday {f : DateFormat} (h : DateFormat.read? (.day :: .gap :: f)
      ([Nat.digitChar n] ++ (l :: more ++ r)) = some t) : False := by
    obtain ⟨gap, xs, hgap, -, heq⟩ := exists_gap_of_read? (by simp)
      (List.forall_mem_singleton.2 (digitChar_facts n hn).2.1)
      (fun c z hc => by rw [← (List.cons.inj hc).1]; exact hletter.1) h
    obtain ⟨b, gap, rfl⟩ := List.exists_cons_of_ne_nil hgap.1
    have hblank := hgap.2 b List.mem_cons_self
    rw [← (List.cons.inj heq).1, hletter.2] at hblank
    cases hblank
  simp only [formats, List.mem_cons, List.not_mem_nil, or_false] at hf
  rcases hf with rfl | rfl | rfl
  · exact hday h
  · exact hday h
  · obtain ⟨_, m, hspells, heq, -⟩ := DateFormat.exists_texts_of_read? (by simp [DateFormat.slashedDay]) h
    cases hspells with
    | @cons _ y _ xs hy hspells =>
    obtain ⟨_, _, ⟨a, -, rfl⟩, ⟨_, _, ⟨b, hb, rfl⟩, -, rfl⟩, rfl⟩ := hy
    -- the second character would be a digit of the year
    have hsecond := (List.cons.inj (List.cons.inj heq).2).1
    rw [← hsecond, hletter.1] at hb
    cases hb

/-- A shortened month is no month in full, but for May. -/
theorem readLong_shortened (padded : Bool) (hd : d.isValid = true) (hyear : 1000 ≤ d.year)
    (hmay : d.month ≠ 5) : DateFormat.longDay.read? (namedDay padded false "" d) = none := by
  have hregular := regular_atMidnight hd hyear
  have hlo : 1 ≤ d.month := hregular.month_pos
  have hhi : d.month ≤ 12 := hregular.month_le
  have hclash : ∀ m < 12, m ≠ 4 → ∀ n ∈ DatePart.monthName.names,
      clash n.toList ((Date.monthAbbreviations.getD m "").toList ++ [',']) = true := by
    decide
  have hdigits : dayDigits padded d.day ≠ [] ∧ ∀ c ∈ dayDigits padded d.day, isDigit c = true := by
    have hday : d.day ≤ 31 := hregular.day_le
    rcases dayDigits_cases padded hday with ⟨-, hlt, hwrite⟩ | ⟨-, hwrite⟩
    · rw [hwrite]
      exact ⟨by simp, List.forall_mem_singleton.2 (digitChar_facts _ hlt).2.1⟩
    · rw [hwrite]
      refine ⟨by simp, List.forall_mem_cons.2 ⟨(digitChar_facts _ (by omega)).2.1, ?_⟩⟩
      exact List.forall_mem_singleton.2 (digitChar_facts _ (by omega)).2.1
  obtain ⟨l, w, hname, hblank⟩ :=
    DatePart.exists_write_eq_cons (p := .monthAbbreviation) hregular rfl
  rw [Option.eq_none_iff_forall_ne_some]
  intro t h
  obtain ⟨gap, xs, hgap, hspells, heq⟩ := exists_gap_of_read? hdigits.1 hdigits.2 (by
    rintro c z hc
    obtain ⟨rfl, -⟩ := List.cons.inj hc
    decide) h
  cases hspells with
  | @cons _ y _ xs hy _ =>
  obtain ⟨b, gap, rfl⟩ := List.exists_cons_of_ne_nil hgap.1
  have htail : (monthPart false).write d.atMidnight ++
      (", ".toList ++ DatePart.year.write d.atMidnight) = gap ++ (y ++ xs.flatten) :=
    (List.cons.inj heq).2
  change DatePart.monthAbbreviation.write d.atMidnight ++ _ = _ at htail
  cases gap with
  | cons c gap =>
      rw [hname] at htail
      have hc := hgap.2 c (by simp)
      rw [← (List.cons.inj htail).1, hblank] at hc
      cases hc
  | nil =>
      obtain ⟨p, hp, hspelled⟩ := spells_oneOf.1 hy
      obtain ⟨n, hn, rfl⟩ := List.mem_map.1 hp
      have hprefix : y <+: ((Date.monthAbbreviations.getD (d.month - 1) "").toList ++ [',']) ++
          (' ' :: DatePart.year.write d.atMidnight) := by
        refine ⟨xs.flatten, htail.symm.trans ?_⟩
        rw [List.append_assoc]
        rfl
      exact not_forall₂_of_clash (hclash (d.month - 1) (by omega) (by omega) n hn) hprefix hspelled

/-- The names of May are the same. -/
theorem namedDay_may (padded : Bool) (hmay : d.month = 5) :
    namedDay padded false "" d = namedDay padded true "" d := by
  have hname : (monthPart false).write d.atMidnight = (monthPart true).write d.atMidnight := by
    simp only [monthPart, Bool.false_eq_true, if_false, if_true, DatePart.write, Date.atMidnight, hmay]
    rfl
  rw [namedDay, namedDay, hname]

end

/-- **Days with an ordinal number.** An existing day of a year with four digits is read as itself,
with or without a leading zero and a suffix and with its month in full or shortened, unless its
number has one digit and a suffix: then it is not read at all. -/
theorem named_day_read {d : Date} {suffix : String} (hd : d.isValid = true)
    (hyear : 1000 ≤ d.year) (hsuffix : suffix ∈ "" :: ordinalSuffixes) (padded full : Bool) :
    readDay? (namedDay padded full suffix d) =
      if IsShortOrdinal padded suffix d then none else some d.atMidnight := by
  rw [readDay?, replaceAll_namedDay padded full hd hyear hsuffix]
  by_cases hshort : IsShortOrdinal padded suffix d
  · rw [if_pos hshort, if_pos hshort, List.findSome?_eq_none_iff]
    intro f hf
    have hwrite : dayDigits padded d.day = [Nat.digitChar d.day] := by
      rw [dayDigits, hshort.2.1]
      exact Nat.toDigits_of_lt_base hshort.2.2
    rw [namedDay, hwrite]
    exact readPlain_shortOrdinal hf hshort.2.2 ((List.mem_cons.1 hsuffix).resolve_left hshort.1)
  · have hlong : DateFormat.longDay.read? (namedDay padded true "" d) = some d.atMidnight :=
      read?_namedDay padded true hd hyear
    have hshortened : DateFormat.shortDay.read? (namedDay padded false "" d) = some d.atMidnight :=
      read?_namedDay padded false hd hyear
    rw [if_neg hshort, if_neg hshort, formats]
    cases full with
    | true => rw [List.findSome?_cons, hlong]
    | false =>
        by_cases hmay : d.month = 5
        · rw [namedDay_may padded hmay, List.findSome?_cons, hlong]
        · rw [List.findSome?_cons, readLong_shortened padded hd hyear hmay, List.findSome?_cons,
            hshortened]

/-- A leap day with a suffix and a shortened month is read. -/
theorem named_day_read_of_leap_day :
    namedDay false false "th" ⟨2024, 2, 29⟩ = "29th Feb, 2024".toList ∧
      readDay? "29th Feb, 2024".toList = some (Date.atMidnight ⟨2024, 2, 29⟩) := by
  have htext : namedDay false false "th" ⟨2024, 2, 29⟩ = "29th Feb, 2024".toList := by decide
  refine ⟨htext, ?_⟩
  rw [← htext, named_day_read (by decide) (by decide) (by decide)]
  exact if_neg (by decide)

/-- The first of a month is not read. -/
theorem first_of_month_not_read :
    namedDay false true "st" ⟨2020, 3, 1⟩ = "1st March, 2020".toList ∧
      Date.isValid ⟨2020, 3, 1⟩ = true ∧ "st" ∈ ordinalSuffixes ∧
      readDay? "1st March, 2020".toList = none := by
  decide +kernel

end Checks.NoSolution

end NaslLint
