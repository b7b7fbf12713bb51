import NaslLint.Date.Format
import NaslLint.Proofs.Pattern.First
import NaslLint.Proofs.Text

/-!
# Reading dates that were written

A date that is written in a format is read back in it, also where its gaps have been stretched to
other blanks.

* `DateTime.Regular` are the existing times in years of four digits.
* `DateFormat.States` says that a text states a time in a format.
* `DateFormat.read?_of_states` says that such a text is read as the parts of the time that the format
  states.
-/

namespace NaslLint

open Pattern

/-! ## Digits -/

namespace Text

/-- A digit as written is a digit, is not blank and is not the mark between digits. -/
theorem digitChar_facts : ∀ d < 10, isAsciiDigit (Nat.digitChar d) = true ∧
    isDigit (Nat.digitChar d) = true ∧ isBlank (Nat.digitChar d) = false ∧
      digitValue? (Nat.digitChar d) = some d ∧ Nat.digitChar d ≠ '_' := by
  decide

theorem digitValues?_digitChar {d : Nat} {more : List Char} (hd : d < 10)
    (hmore : ∀ r, more ≠ '_' :: r) (hne : more ≠ []) :
    digitValues? (Nat.digitChar d :: more) = (digitValues? more).map (d :: ·) := by
  have hvalue := (digitChar_facts d hd).2.2.2.1
  cases more with
  | nil => exact absurd rfl hne
  | cons c more =>
      rw [digitValues?.eq_def]
      split
      · simp_all
      · simp_all
      · rename_i r heq
        exact absurd (List.cons.inj heq).2 (hmore r)
      · rename_i heq
        obtain ⟨rfl, rfl⟩ := List.cons.inj heq
        rw [hvalue]
        cases digitValues? (c :: more) <;> rfl

theorem digitValues?_map_digitChar {ds : List Nat} (hne : ds ≠ []) (hds : ∀ d ∈ ds, d < 10) :
    digitValues? (ds.map Nat.digitChar) = some ds := by
  induction ds with
  | nil => exact absurd rfl hne
  | cons d ds ih =>
      obtain ⟨hd, hmore⟩ := List.forall_mem_cons.1 hds
      cases ds with
      | nil =>
          change (digitValue? (Nat.digitChar d)).map ([·]) = some [d]
          rw [(digitChar_facts d hd).2.2.2.1]
          rfl
      | cons e ds =>
          rw [List.map_cons, digitValues?_digitChar hd, ih (by simp) hmore]
          · rfl
          · intro r hr
            exact (digitChar_facts e (hmore e List.mem_cons_self)).2.2.2.2 (List.cons.inj hr).1
          · simp

theorem readNat?_map_digitChar {ds : List Nat} (hne : ds ≠ []) (hds : ∀ d ∈ ds, d < 10)
    (hlength : ds.length ≤ maxIntegerDigits) :
    readNat? (ds.map Nat.digitChar) = some (ofDigits ds) := by
  rw [readNat?, digitValues?_map_digitChar hne hds]
  change (if ds.length ≤ maxIntegerDigits then some (ofDigits ds) else none) = _
  rw [if_pos hlength]

theorem trim_of_not_blank {t : List Char} (h : ∀ c ∈ t, isBlank c = false) : trim t = t := by
  have hkeep {u : List Char} (hu : ∀ c ∈ u, isBlank c = false) : u.dropWhile isBlank = u := by
    cases u with
    | nil => rfl
    | cons c u => rw [List.dropWhile_cons_of_neg (by simp [hu c List.mem_cons_self])]
  rw [trim, trimStart, hkeep h, trimEnd, hkeep (fun c hc => h c (List.mem_reverse.1 hc)),
    List.reverse_reverse]

theorem readNat?_trim_map_digitChar {ds : List Nat} (hne : ds ≠ []) (hds : ∀ d ∈ ds, d < 10)
    (hlength : ds.length ≤ maxIntegerDigits) :
    readNat? (trim (ds.map Nat.digitChar)) = some (ofDigits ds) := by
  rw [trim_of_not_blank, readNat?_map_digitChar hne hds hlength]
  intro c hc
  obtain ⟨d, hd, rfl⟩ := List.mem_map.1 hc
  exact (digitChar_facts d (hds d hd)).2.2.1

end Text

theorem toDigits_eq_two {n : Nat} (hlo : 10 ≤ n) (hhi : n < 100) :
    Nat.toDigits 10 n = [n / 10, n % 10].map Nat.digitChar := by
  rw [Nat.toDigits_eq_if (by omega), if_neg (by omega), Nat.toDigits_of_lt_base (by omega)]
  rfl

theorem DatePart.twoDigits_eq {n : Nat} (h : n < 100) :
    twoDigits n = [n / 10, n % 10].map Nat.digitChar := by
  rw [twoDigits]
  by_cases hn : n < 10
  · rw [Nat.toDigits_of_lt_base hn, if_pos (by simp), Nat.div_eq_of_lt hn, Nat.mod_eq_of_lt hn]
    rfl
  · rw [toDigits_eq_two (by omega) h, if_neg (by simp)]

theorem toDigits_eq_four {n : Nat} (hlo : 1000 ≤ n) (hhi : n < 10000) :
    Nat.toDigits 10 n = [n / 1000, n / 100 % 10, n / 10 % 10, n % 10].map Nat.digitChar := by
  rw [Nat.toDigits_eq_if (by omega), if_neg (by omega), Nat.toDigits_eq_if (by omega),
    if_neg (by omega), toDigits_eq_two (by omega) (by omega)]
  simp [Nat.div_div_eq_div_mul]

/-! ## Regular times -/

/-- An existing time in a year of four digits. -/
structure DateTime.Regular (t : DateTime) : Prop where
  valid : t.toDate.isValid = true
  year_ge : 1000 ≤ t.year
  hour_lt : t.hour < 24
  minute_lt : t.minute < 60
  second_lt : t.second < 60

namespace Date

theorem isValid_iff {d : Date} : d.isValid = true ↔ (1 ≤ d.year ∧ d.year ≤ 9999) ∧
    (1 ≤ d.month ∧ d.month ≤ 12) ∧ 1 ≤ d.day ∧ d.day ≤ daysInMonth d.year d.month := by
  simp only [isValid, Bool.and_eq_true, decide_eq_true_eq]
  omega

theorem daysInMonth_le (year month : Nat) : daysInMonth year month ≤ 31 := by
  unfold daysInMonth
  split
  · split <;> omega
  all_goals omega

theorem day_le_of_isValid {d : Date} (h : d.isValid = true) : d.day ≤ 31 :=
  Nat.le_trans (isValid_iff.1 h).2.2.2 (daysInMonth_le _ _)

end Date

namespace DateTime.Regular
variable {t : DateTime}

theorem year_lt (h : t.Regular) : t.year < 10000 := by
  have := (Date.isValid_iff.1 h.valid).1.2
  omega

theorem month_pos (h : t.Regular) : 1 ≤ t.month := (Date.isValid_iff.1 h.valid).2.1.1

theorem month_le (h : t.Regular) : t.month ≤ 12 := (Date.isValid_iff.1 h.valid).2.1.2

theorem day_pos (h : t.Regular) : 1 ≤ t.day := (Date.isValid_iff.1 h.valid).2.2.1

theorem day_le (h : t.Regular) : t.day ≤ 31 := Date.day_le_of_isValid h.valid

end DateTime.Regular

/-! ## Names -/

/-- Two words differ, up to case, at a place that both have. -/
def clash : List Char → List Char → Bool
  | a :: as, b :: bs => !Text.sameLetter a b || clash as bs
  | _, _ => false

theorem not_forall₂_of_clash {w n r u : List Char} (h : clash w n = true) (hu : u <+: n ++ r) :
    ¬ List.Forall₂ (fun a b => Text.sameLetter a b = true) w u := by
  intro hsame
  induction hsame generalizing n with
  | nil => simp [clash] at h
  | @cons a b w u hab hsame ih =>
      cases n with
      | nil => simp [clash] at h
      | cons c n =>
          rw [List.cons_append] at hu
          obtain ⟨rfl, htail⟩ := List.cons_prefix_cons.1 hu
          rw [clash, hab] at h
          exact ih (by simpa using h) htail

theorem takes_oneOf_names {names : List String} {n : String} {r : List Char}
    {g : List (String × List Char)} (hn : n ∈ names)
    (hclash : ∀ a ∈ names, ∀ b ∈ names, a ≠ b → clash a.toList b.toList = true) :
    Takes (oneOf (names.map fun n => wordAnyCase n.toList)) n.toList r g g := by
  obtain ⟨before, after, rfl, hbefore⟩ := List.eq_append_cons_of_mem hn
  rw [List.map_append, List.map_cons]
  apply Takes.oneOf
  · intro p hp
    obtain ⟨m, hm, rfl⟩ := List.mem_map.1 hp
    apply refuses_wordAnyCase
    intro u hu
    apply not_forall₂_of_clash _ hu
    apply hclash m (List.mem_append_left _ hm) n hn
    rintro rfl
    exact hbefore hm
  · exact takes_wordAnyCase

/-! ## The parts of a date -/

namespace DatePart
variable {t : DateTime} {r x : List Char} {g : List (String × List Char)}

/-- The texts in which a part of a time is stated: a gap may be any run of blanks. -/
def Renders (t : DateTime) : DatePart → List Char → Prop
  | .gap, x => x ≠ [] ∧ ∀ c ∈ x, Text.isBlank c = true
  | p, x => x = p.write t

/-- What may follow a part: no blank behind a gap, and no digit or colon behind an offset. -/
def MayPrecede : DatePart → List Char → Prop
  | .gap, r => ∀ c r', r = c :: r' → Text.isBlank c = false
  | .offset, r => ∀ c r', r = c :: r' → Text.isDigit c = false ∧ c ≠ ':'
  | _, _ => True

theorem takes_anyDigit {d : Nat} (hd : d < 10) : Takes anyDigit [Nat.digitChar d] r g g :=
  takes_one (Text.digitChar_facts d hd).2.1

/-- A digit followed by another one. -/
theorem takes_twoDigits {p q : Pattern} {a b : Nat}
    (hp : Takes p [Nat.digitChar a] ([Nat.digitChar b] ++ r) g g)
    (hq : Takes q [Nat.digitChar b] r g g) :
    Takes (chain [p, q]) ([a, b].map Nat.digitChar) r g g :=
  hp.seq hq

theorem takes_digitFrom {lo hi : Char} {d : Nat}
    (h : (decide (lo ≤ Nat.digitChar d) && decide (Nat.digitChar d ≤ hi)) = true) :
    Takes (digitFrom lo hi) [Nat.digitChar d] r g g :=
  takes_one h

theorem refuses_chain_digitFrom {lo hi : Char} {d : Nat} {q : Pattern}
    (h : (decide (lo ≤ Nat.digitChar d) && decide (Nat.digitChar d ≤ hi)) = false) :
    Refuses (chain [digitFrom lo hi, q]) (Nat.digitChar d :: r) g := by
  apply Refuses.seq
  apply refuses_one
  intro c r' hr
  obtain ⟨rfl, -⟩ := List.cons.inj hr
  exact h

theorem refuses_chain_word {c d : Char} {q : Pattern} (h : c ≠ d) :
    Refuses (chain [word [c], q]) (d :: r) g := by
  apply Refuses.seq
  apply refuses_word
  rintro ⟨z, hz⟩
  exact h (List.cons.inj hz).1

attribute [local simp] write in
theorem takes_year (hlo : 1000 ≤ t.year) (hhi : t.year < 10000) :
    Takes year.pattern (year.write t) r g g := by
  have hwrite : year.write t = Nat.toDigits 10 t.year := by simp
  rw [hwrite, toDigits_eq_four hlo hhi]
  exact (takes_anyDigit (by omega)).seq ((takes_anyDigit (by omega)).seq
    ((takes_anyDigit (by omega)).seq (takes_anyDigit (by omega))))

theorem takes_month (hlo : 1 ≤ t.month) (hhi : t.month ≤ 12) :
    Takes month.pattern (month.write t) r g g := by
  rw [write, twoDigits_eq (by omega)]
  by_cases hten : 10 ≤ t.month
  · have htens : t.month / 10 = 1 := by omega
    have hones : ∀ d ≤ 2, ('0' ≤ Nat.digitChar d && Nat.digitChar d ≤ '2') = true := by decide
    rw [htens]
    apply Takes.oneOf [] (by simp)
    exact takes_twoDigits takes_word (takes_digitFrom (hones _ (by omega)))
  · have htens : t.month / 10 = 0 := by omega
    have hones : ∀ d < 10, 1 ≤ d → ('1' ≤ Nat.digitChar d && Nat.digitChar d ≤ '9') = true := by
      decide
    rw [htens]
    apply Takes.oneOf [chain ["1", digitFrom '0' '2']]
    · exact List.forall_mem_singleton.2 (refuses_chain_word (by decide))
    · exact takes_twoDigits takes_word (takes_digitFrom (hones _ (by omega) (by omega)))

theorem takes_day (hlo : 1 ≤ t.day) (hhi : t.day ≤ 31) : Takes day.pattern (day.write t) r g g := by
  rw [write, twoDigits_eq (by omega)]
  by_cases hthirty : 30 ≤ t.day
  · have htens : t.day / 10 = 3 := by omega
    have hones : ∀ d ≤ 1, ('0' ≤ Nat.digitChar d && Nat.digitChar d ≤ '1') = true := by decide
    rw [htens]
    apply Takes.oneOf [] (by simp)
    exact takes_twoDigits takes_word (takes_digitFrom (hones _ (by omega)))
  by_cases hten : 10 ≤ t.day
  · have htens : ∀ d < 3, 1 ≤ d → ('1' ≤ Nat.digitChar d && Nat.digitChar d ≤ '2') = true ∧
        '3' ≠ Nat.digitChar d := by decide
    obtain ⟨htens, hthree⟩ := htens (t.day / 10) (by omega) (by omega)
    apply Takes.oneOf [chain ["3", digitFrom '0' '1']]
    · exact List.forall_mem_singleton.2 (refuses_chain_word hthree)
    · exact takes_twoDigits (takes_digitFrom htens) (takes_anyDigit (by omega))
  · have htens : t.day / 10 = 0 := by omega
    have hones : ∀ d < 10, 1 ≤ d → ('1' ≤ Nat.digitChar d && Nat.digitChar d ≤ '9') = true := by
      decide
    rw [htens]
    apply Takes.oneOf [chain ["3", digitFrom '0' '1'], chain [digitFrom '1' '2', anyDigit]]
    · refine List.forall_mem_cons.2 ⟨refuses_chain_word (by decide), ?_⟩
      exact List.forall_mem_singleton.2 (refuses_chain_digitFrom (by decide))
    · exact takes_twoDigits takes_word (takes_digitFrom (hones _ (by omega) (by omega)))

theorem takes_hour (h : t.hour < 24) : Takes hour.pattern (hour.write t) r g g := by
  rw [write, twoDigits_eq (by omega)]
  by_cases htwenty : 20 ≤ t.hour
  · have htens : t.hour / 10 = 2 := by omega
    have hones : ∀ d ≤ 3, ('0' ≤ Nat.digitChar d && Nat.digitChar d ≤ '3') = true := by decide
    rw [htens]
    apply Takes.oneOf [] (by simp)
    exact takes_twoDigits takes_word (takes_digitFrom (hones _ (by omega)))
  · have htens : ∀ d < 2, ('0' ≤ Nat.digitChar d && Nat.digitChar d ≤ '1') = true ∧
        '2' ≠ Nat.digitChar d := by decide
    obtain ⟨htens, htwo⟩ := htens (t.hour / 10) (by omega)
    apply Takes.oneOf [chain ["2", digitFrom '0' '3']]
    · exact List.forall_mem_singleton.2 (refuses_chain_word htwo)
    · exact takes_twoDigits (takes_digitFrom htens) (takes_anyDigit (by omega))

theorem digitFrom_five : ∀ d < 6, ('0' ≤ Nat.digitChar d && Nat.digitChar d ≤ '5') = true ∧
    '6' ≠ Nat.digitChar d := by
  decide

theorem takes_minute (h : t.minute < 60) : Takes minute.pattern (minute.write t) r g g := by
  rw [write, twoDigits_eq (by omega)]
  have htens := (digitFrom_five (t.minute / 10) (by omega)).1
  apply Takes.oneOf [] (by simp)
  exact takes_twoDigits (takes_digitFrom htens) (takes_anyDigit (by omega))

theorem takes_second (h : t.second < 60) : Takes second.pattern (second.write t) r g g := by
  rw [write, twoDigits_eq (by omega)]
  obtain ⟨htens, hsix⟩ := digitFrom_five (t.second / 10) (by omega)
  apply Takes.oneOf [chain ["6", digitFrom '0' '1']]
  · exact List.forall_mem_singleton.2 (refuses_chain_word hsix)
  · exact takes_twoDigits (takes_digitFrom htens) (takes_anyDigit (by omega))

/-- An offset in hours and minutes, without a colon between them. -/
theorem takes_signedOffset {sign : Char} {a b c d : Nat} (hsign : sign = '+' ∨ sign = '-')
    (ha : a < 10) (hb : b < 10) (hc : c < 6) (hd : d < 10) (hr : offset.MayPrecede r) :
    Takes offset.pattern (sign :: [a, b, c, d].map Nat.digitChar) r g g := by
  have hsixty {r : List Char} :
      Takes (chain [digitFrom '0' '5', anyDigit]) ([c, d].map Nat.digitChar) r g g :=
    takes_twoDigits (takes_digitFrom (digitFrom_five c hc).1) (takes_anyDigit hd)
  have hcolon {r : List Char} : Refuses (word [':']) (Nat.digitChar c :: r) g := by
    have hdigits : ∀ n < 6, ':' ≠ Nat.digitChar n := by decide
    apply refuses_word
    rintro ⟨z, hz⟩
    exact hdigits c hc (List.cons.inj hz).1
  -- seconds would have to start with a colon or a digit
  have hseconds : Refuses (chain [Pattern.optional ":", chain [digitFrom '0' '5', anyDigit],
      Pattern.optional (chain [".", .run .longest 1 (some 6) Text.isDigit])]) r g := by
    apply refuses_optional_seq
    · apply refuses_word
      rintro ⟨z, hz⟩
      exact (hr ':' z hz.symm).2 rfl
    · apply Refuses.seq
      apply Refuses.seq
      apply refuses_one
      intro c r' hc
      have hdigit := (hr c r' hc).1
      by_contra hne
      rw [Bool.not_eq_false, Bool.and_eq_true, decide_eq_true_eq, decide_eq_true_eq] at hne
      have hhi : c.toNat ≤ 53 := hne.2
      rw [Text.isDigit_of_toNat hne.1 (by omega)] at hdigit
      exact Bool.noConfusion hdigit
  have hfirst {r : List Char} : Takes (one (among "+-")) [sign] r g g := by
    apply takes_one
    rcases hsign with rfl | rfl
    · decide
    · decide
  apply Takes.oneOf [] (by simp)
  exact hfirst.seq ((takes_anyDigit ha).seq ((takes_anyDigit hb).seq
    (Takes.seq (x := []) (takes_optional_nil hcolon)
      (Takes.seq (x := [c, d].map Nat.digitChar) hsixty (takes_optional_nil hseconds)))))

theorem takes_offset (hr : offset.MayPrecede r) : Takes offset.pattern (offset.write t) r g g :=
  takes_signedOffset (a := 0) (b := 0) (c := 0) (d := 0) (Or.inl rfl) (by decide) (by decide)
    (by decide) (by decide) hr

theorem takes_monthName (hlo : 1 ≤ t.month) (hhi : t.month ≤ 12) :
    Takes monthName.pattern (monthName.write t) r g g := by
  have hmem : ∀ m < 12, Date.monthNames.getD m "" ∈ monthName.names := by decide
  exact takes_oneOf_names (hmem (t.month - 1) (by omega)) (by decide)

theorem takes_monthAbbreviation (hlo : 1 ≤ t.month) (hhi : t.month ≤ 12) :
    Takes monthAbbreviation.pattern (monthAbbreviation.write t) r g g := by
  have hmem : ∀ m < 12, Date.monthAbbreviations.getD m "" ∈ monthAbbreviation.names := by decide
  exact takes_oneOf_names (hmem (t.month - 1) (by omega)) (by decide)

theorem takes_weekday : Takes weekday.pattern (weekday.write t) r g g := by
  have hmem : ∀ d < 7, Date.weekdayNames.getD d "" ∈ weekday.names := by decide
  exact takes_oneOf_names (hmem _ (Nat.mod_lt _ (by decide))) (by decide)

def isNumber : DatePart → Bool
  | year | month | day | hour | minute | second => true
  | _ => false

theorem exists_digits {p : DatePart} (ht : t.Regular) (hp : p.isNumber = true) :
    ∃ ds : List Nat, p.write t = ds.map Nat.digitChar ∧
      ds.length = (if p = year then 4 else 2) ∧ ∀ d ∈ ds, d < 10 := by
  have hmonth := ht.month_le
  have hday := ht.day_le
  have hhour := ht.hour_lt
  have hminute := ht.minute_lt
  have hsecond := ht.second_lt
  have htwo {n : Nat} (hn : n < 100) : ∃ ds : List Nat, twoDigits n = ds.map Nat.digitChar ∧
      ds.length = 2 ∧ ∀ d ∈ ds, d < 10 :=
    ⟨_, twoDigits_eq hn, rfl, by simp; omega⟩
  cases p with
  | year => exact ⟨_, toDigits_eq_four ht.year_ge ht.year_lt, rfl, by have := ht.year_lt; simp; omega⟩
  | month => exact htwo (by omega)
  | day => exact htwo (by omega)
  | hour => exact htwo (by omega)
  | minute => exact htwo (by omega)
  | second => exact htwo (by omega)
  | _ => exact Bool.noConfusion hp

def isSolid : DatePart → Bool
  | gap => false
  | mark c => !Text.isBlank c
  | _ => true

theorem exists_write_eq_cons {p : DatePart} (ht : t.Regular) (hp : p.isSolid = true) :
    ∃ c r, p.write t = c :: r ∧ Text.isBlank c = false := by
  have hname {names : List String} {i : Nat} (hi : i < names.length)
      (h : ∀ i < names.length, ((names.getD i "").toList.head?.any (!Text.isBlank ·)) = true) :
      ∃ c r, (names.getD i "").toList = c :: r ∧ Text.isBlank c = false := by
    have hhead := h i hi
    cases hw : (names.getD i "").toList with
    | nil =>
        rw [hw] at hhead
        exact Bool.noConfusion hhead
    | cons c r =>
        rw [hw] at hhead
        exact ⟨c, r, rfl, by simpa using hhead⟩
  have hmonth : t.month - 1 < 12 := by
    have := ht.month_le
    omega
  by_cases hnumber : p.isNumber = true
  · obtain ⟨ds, hds, hlength, hlt⟩ := exists_digits ht hnumber
    cases ds with
    | nil => split at hlength <;> simp at hlength
    | cons d ds => exact ⟨_, _, hds, (Text.digitChar_facts d (hlt d List.mem_cons_self)).2.2.1⟩
  cases p with
  | monthName => exact hname hmonth (by decide)
  | monthAbbreviation => exact hname hmonth (by decide)
  | weekday => exact hname (Nat.mod_lt _ (by decide)) (by decide)
  | offset => exact ⟨_, _, rfl, by decide⟩
  | mark c => exact ⟨c, [], rfl, by simpa [isSolid] using hp⟩
  | gap => exact Bool.noConfusion hp
  | _ => exact absurd rfl hnumber

/-- A part is written in digits and in characters of a class. -/
def keepsTo (cls : Char → Bool) : DatePart → Bool
  | gap => cls ' '
  | mark c => cls c
  | offset => "+0000".toList.all cls
  | p => p.names.all (·.toList.all cls)

theorem forall_mem_write {p : DatePart} {cls : Char → Bool} (ht : t.Regular)
    (hdigit : ∀ d < 10, cls (Nat.digitChar d) = true) (hp : p.keepsTo cls = true) :
    ∀ c ∈ p.write t, cls c = true := by
  have hname {names : List String} {n : String} (hall : names.all (·.toList.all cls) = true)
      (hn : n ∈ names) : ∀ c ∈ n.toList, cls c = true :=
    List.all_eq_true.1 (List.all_eq_true.1 hall n hn)
  have hmonth : t.month - 1 < 12 := by
    have := ht.month_le
    omega
  by_cases hnumber : p.isNumber = true
  · obtain ⟨ds, hds, -, hlt⟩ := exists_digits ht hnumber
    rw [hds]
    intro c hc
    obtain ⟨d, hd, rfl⟩ := List.mem_map.1 hc
    exact hdigit d (hlt d hd)
  cases p with
  | gap => exact List.forall_mem_singleton.2 hp
  | mark c => exact List.forall_mem_singleton.2 hp
  | offset => exact List.all_eq_true.1 hp
  | monthName =>
      have hmem : ∀ m < 12, Date.monthNames.getD m "" ∈ monthName.names := by decide
      exact hname hp (hmem _ hmonth)
  | monthAbbreviation =>
      have hmem : ∀ m < 12, Date.monthAbbreviations.getD m "" ∈ monthAbbreviation.names := by decide
      exact hname hp (hmem _ hmonth)
  | weekday =>
      have hmem : ∀ d < 7, Date.weekdayNames.getD d "" ∈ weekday.names := by decide
      exact hname hp (hmem _ (Nat.mod_lt _ (by decide)))
  | _ => exact absurd rfl hnumber

def isField : DatePart → Bool
  | gap => false
  | mark _ => false
  | _ => true

theorem eq_of_label_eq {p q : DatePart} (hp : p.isField = true) (h : q.label = p.label) : q = p := by
  cases p <;> cases q <;> simp_all [isField, label]

theorem Renders.eq_write {p : DatePart} (h : p.Renders t x) (hp : p.isField = true) :
    x = p.write t := by
  cases p with
  | gap => exact Bool.noConfusion hp
  | _ => exact h

theorem readNat?_twoDigits {n : Nat} (h : n < 100) :
    Text.readNat? (Text.trim (twoDigits n)) = some n := by
  rw [twoDigits_eq h, Text.readNat?_trim_map_digitChar (by simp) (by simp; omega)
    (by simp [Text.maxIntegerDigits])]
  simp [Text.ofDigits]
  omega

theorem readNat?_year (hlo : 1000 ≤ t.year) (hhi : t.year < 10000) :
    Text.readNat? (Text.trim (year.write t)) = some t.year := by
  rw [write, toDigits_eq_four hlo hhi,
    Text.readNat?_trim_map_digitChar (by simp) (by simp; omega) (by simp [Text.maxIntegerDigits])]
  simp [Text.ofDigits]
  omega

/-- **A part of a date.** The pattern of a part takes each text in which the part is stated. -/
theorem takes_pattern {p : DatePart} (ht : t.Regular) (hx : p.Renders t x) (hr : p.MayPrecede r) :
    Takes p.pattern x r g g := by
  cases p with
  | gap => exact takes_someBlanks hx.1 hx.2 hr
  | year =>
      obtain rfl : x = year.write t := hx
      exact takes_year ht.year_ge ht.year_lt
  | month =>
      obtain rfl : x = month.write t := hx
      exact takes_month ht.month_pos ht.month_le
  | monthName =>
      obtain rfl : x = monthName.write t := hx
      exact takes_monthName ht.month_pos ht.month_le
  | monthAbbreviation =>
      obtain rfl : x = monthAbbreviation.write t := hx
      exact takes_monthAbbreviation ht.month_pos ht.month_le
  | day =>
      obtain rfl : x = day.write t := hx
      exact takes_day ht.day_pos ht.day_le
  | hour =>
      obtain rfl : x = hour.write t := hx
      exact takes_hour ht.hour_lt
  | minute =>
      obtain rfl : x = minute.write t := hx
      exact takes_minute ht.minute_lt
  | second =>
      obtain rfl : x = second.write t := hx
      exact takes_second ht.second_lt
  | offset =>
      obtain rfl : x = offset.write t := hx
      exact takes_offset hr
  | weekday =>
      obtain rfl : x = weekday.write t := hx
      exact takes_weekday
  | mark c =>
      obtain rfl : x = [c] := hx
      exact takes_wordAnyCase

end DatePart

/-! ## Texts that state a time -/

namespace DateFormat
variable {t : DateTime} {f : DateFormat} {x : List Char}

/-- A text states a time in a format: part after part, gaps being any blanks. -/
inductive States (t : DateTime) : DateFormat → List Char → Prop
  | nil : States t [] []
  | cons {p : DatePart} {f : DateFormat} {x r : List Char} (hx : p.Renders t x)
      (hr : p.MayPrecede r) (hf : States t f r) : States t (p :: f) (x ++ r)

/-- **A stated time fits.** The groups that are filled are the parts of the format under their
labels. -/
theorem States.takes (ht : t.Regular) (h : States t f x) (hf : f ≠ [])
    (g : List (String × List Char)) :
    ∃ filled, Takes f.pattern x [] g (filled ++ g) ∧
      (∀ e ∈ filled, ∃ p ∈ f, e.1 = p.label ∧ p.Renders t e.2) ∧
      ∀ p ∈ f, ∃ e ∈ filled, e.1 = p.label := by
  induction h generalizing g with
  | nil => exact absurd rfl hf
  | @cons p f x r hx hr hstates ih =>
      have hpart : Takes (group p.label p.pattern) x r g ((p.label, x) :: g) :=
        (DatePart.takes_pattern ht hx hr).group
      cases f with
      | nil =>
          cases hstates
          refine ⟨[(p.label, x)], ?_, ?_, ?_⟩
          · rw [List.append_nil]
            exact hpart
          · exact List.forall_mem_singleton.2 ⟨p, List.mem_singleton_self p, rfl, hx⟩
          · exact List.forall_mem_singleton.2 ⟨_, List.mem_singleton_self _, rfl⟩
      | cons q f =>
          obtain ⟨filled, htakes, hfrom, hall⟩ := ih (by simp) ((p.label, x) :: g)
          refine ⟨filled ++ [(p.label, x)], ?_, ?_, ?_⟩
          · rw [List.append_assoc]
            rw [← List.append_nil r] at hpart
            exact hpart.seq htakes
          · intro e he
            rcases List.mem_append.1 he with he | he
            · obtain ⟨p', hp', hrest⟩ := hfrom e he
              exact ⟨p', List.mem_cons_of_mem _ hp', hrest⟩
            · obtain rfl := List.mem_singleton.1 he
              exact ⟨p, List.mem_cons_self, rfl, hx⟩
          · intro p' hp'
            rcases List.mem_cons.1 hp' with rfl | hp'
            · exact ⟨_, List.mem_append_right _ (List.mem_singleton_self _), rfl⟩
            · obtain ⟨e, he, hlabel⟩ := hall p' hp'
              exact ⟨e, List.mem_append_left _ he, hlabel⟩

/-- In the format no blank follows a gap, and an offset stands before a gap or at the end. -/
def isSpaced : DateFormat → Bool
  | p :: q :: f =>
    (p != .gap || q.isSolid) && (p != .offset || q == .gap) && isSpaced (q :: f)
  | _ => true

/-- What is written in a format states the time. -/
theorem states_write (ht : t.Regular) (hf : f.isSpaced = true) : States t f (f.write t) := by
  induction f with
  | nil => exact .nil
  | cons p f ih =>
      have hp : p.Renders t (p.write t) := by
        cases p with
        | gap => exact ⟨by simp [DatePart.write], by simp [DatePart.write]; decide⟩
        | _ => rfl
      cases f with
      | nil =>
          refine .cons hp ?_ .nil
          cases p <;> simp [DatePart.MayPrecede]
      | cons q f =>
          simp only [isSpaced, Bool.and_eq_true, Bool.or_eq_true, bne_iff_ne, beq_iff_eq] at hf
          obtain ⟨⟨hgap, hoffset⟩, hmore⟩ := hf
          refine .cons hp ?_ (ih hmore)
          have hwrite : DateFormat.write (q :: f) t = q.write t ++ DateFormat.write f t := rfl
          change p.MayPrecede (DateFormat.write (q :: f) t)
          rw [hwrite]
          cases p with
          | gap =>
              intro c r hr
              rcases hgap with hgap | hsolid
              · exact absurd rfl hgap
              · obtain ⟨d, z, hd, hblank⟩ := DatePart.exists_write_eq_cons ht hsolid
                rw [hd] at hr
                obtain ⟨rfl, -⟩ := List.cons.inj hr
                exact hblank
          | offset =>
              intro c r hr
              rcases hoffset with hoffset | rfl
              · exact absurd rfl hoffset
              · obtain ⟨rfl, -⟩ := List.cons.inj hr
                decide
          | _ => trivial

/-! ## What is read -/

def numberOf? (m : Match) (p : DatePart) (default : Nat) : Option Nat :=
  match m.group? p.label with
  | none => some default
  | some w => Text.readNat? (Text.trim w)

def monthOf? (m : Match) : Option Nat :=
  match m.group? DatePart.monthName.label, m.group? DatePart.monthAbbreviation.label with
  | some w, _ => nameNumber? Date.monthNames w
  | none, some w => nameNumber? Date.monthAbbreviations w
  | none, none => numberOf? m .month 1

def isPlausible (m : Match) : Bool :=
  (m.group? DatePart.offset.label).all offsetIsValid &&
    (m.group? DatePart.weekday.label).all fun w => (nameNumber? Date.weekdayNames w).isSome

theorem read?_eq (f : DateFormat) (x : List Char) :
    f.read? x = (f.pattern.matchStart? x).bind fun m =>
      if m.stop ≠ x.length then none else
      (monthOf? m).bind fun month => (numberOf? m .year 1900).bind fun year =>
      (numberOf? m .day 1).bind fun day => (numberOf? m .hour 0).bind fun hour =>
      (numberOf? m .minute 0).bind fun minute => (numberOf? m .second 0).bind fun second =>
      if isPlausible m && ({ year, month, day : Date }.isValid && second ≤ 59) then
        some { year, month, day, hour, minute, second } else none := by
  rw [read?]
  cases f.pattern.matchStart? x with
  | none => rfl
  | some m =>
      by_cases hstop : m.stop = x.length
      · simp only [hstop, ne_eq, not_true_eq_false, if_false, Option.bind_eq_bind, Option.bind_some]
        unfold monthOf? numberOf? isPlausible
        cases (m.group? DatePart.offset.label).all offsetIsValid <;>
          cases (m.group? DatePart.weekday.label).all fun w =>
            (nameNumber? Date.weekdayNames w).isSome <;>
          cases m.group? DatePart.monthName.label <;>
          cases m.group? DatePart.monthAbbreviation.label <;> rfl
      · simp [hstop]

/-- A match holds the parts of a time that a format states. -/
def Holds (f : DateFormat) (t : DateTime) (m : Match) : Prop :=
  ∀ p : DatePart, p.isField = true → m.group? p.label = if p ∈ f then some (p.write t) else none

theorem States.matchStart? (ht : t.Regular) (h : States t f x) (hf : f ≠ []) :
    ∃ m, f.pattern.matchStart? x = some m ∧ m.stop = x.length ∧ f.Holds t m := by
  obtain ⟨filled, htakes, hfrom, hall⟩ := h.takes ht hf []
  rw [List.append_nil] at htakes
  obtain ⟨m, hm, hcovers⟩ := htakes.matchStart?
  refine ⟨m, hm, by rw [hcovers.stop_eq, Nat.zero_add], ?_⟩
  intro p hp
  rw [hcovers.group?_eq]
  cases hw : filled.lookup p.label with
  | none =>
      rw [if_neg]
      intro hmem
      obtain ⟨e, he, hlabel⟩ := hall p hmem
      have := List.lookup_eq_none_iff.1 hw e he
      simp [hlabel] at this
  | some w =>
      obtain ⟨before, after, hfilled, -⟩ := List.lookup_eq_some_iff.1 hw
      obtain ⟨q, hq, hlabel, hrender⟩ := hfrom (p.label, w) (by simp [hfilled])
      obtain rfl := DatePart.eq_of_label_eq hp hlabel.symm
      rw [if_pos hq]
      exact congrArg some (hrender.eq_write hp)

section
variable {m : Match}

theorem Holds.numberOf?_eq (h : f.Holds t m) {p : DatePart} (hp : p.isField = true) {n : Nat}
    (hn : Text.readNat? (Text.trim (p.write t)) = some n) (default : Nat) :
    numberOf? m p default = some (if p ∈ f then n else default) := by
  rw [numberOf?, h p hp]
  by_cases hmem : p ∈ f
  · rw [if_pos hmem, if_pos hmem]
    exact hn
  · rw [if_neg hmem, if_neg hmem]

theorem nameNumber?_names : ∀ m < 12,
    nameNumber? Date.monthNames (Date.monthNames.getD m "").toList = some (m + 1) ∧
      nameNumber? Date.monthAbbreviations (Date.monthAbbreviations.getD m "").toList =
        some (m + 1) := by
  decide

theorem Holds.monthOf?_eq (h : f.Holds t m) (ht : t.Regular)
    (hmonth : .month ∈ f ∨ .monthName ∈ f ∨ .monthAbbreviation ∈ f) :
    monthOf? m = some t.month := by
  have hlo := ht.month_pos
  have hhi := ht.month_le
  obtain ⟨hname, habbreviation⟩ := nameNumber?_names (t.month - 1) (by omega)
  rw [Nat.sub_add_cancel hlo] at hname habbreviation
  rw [monthOf?, h .monthName rfl, h .monthAbbreviation rfl]
  by_cases hfull : .monthName ∈ f
  · rw [if_pos hfull]
    exact hname
  rw [if_neg hfull]
  by_cases hshort : .monthAbbreviation ∈ f
  · rw [if_pos hshort]
    exact habbreviation
  rw [if_neg hshort]
  have hnumber : .month ∈ f := by
    rcases hmonth with hnumber | hname | habbreviation
    · exact hnumber
    · exact absurd hname hfull
    · exact absurd habbreviation hshort
  have hread := h.numberOf?_eq (p := .month) rfl (DatePart.readNat?_twoDigits (by omega)) 1
  rwa [if_pos hnumber] at hread

theorem Holds.isPlausible (h : f.Holds t m) : isPlausible m = true := by
  have hweekday : ∀ d < 7,
      (nameNumber? Date.weekdayNames (Date.weekdayNames.getD d "").toList).isSome = true := by
    decide
  rw [DateFormat.isPlausible, h .offset rfl, h .weekday rfl, Bool.and_eq_true]
  constructor
  · split
    · rw [Option.all_some, DatePart.write]
      decide
    · rfl
  · split
    · exact hweekday _ (Nat.mod_lt _ (by decide))
    · rfl

end

/-- What a format states of a time: the day, and the time of day as far as it has parts for it. -/
def kept (f : DateFormat) (t : DateTime) : DateTime :=
  { t.toDate with
    hour := if .hour ∈ f then t.hour else 0
    minute := if .minute ∈ f then t.minute else 0
    second := if .second ∈ f then t.second else 0 }

/-- **Reading what states a time.** In a format with a year, a month and a day, a text that states a
time is read as what the format states of it. -/
theorem read?_of_states (ht : t.Regular) (h : States t f x) (hyear : .year ∈ f) (hday : .day ∈ f)
    (hmonth : .month ∈ f ∨ .monthName ∈ f ∨ .monthAbbreviation ∈ f) :
    f.read? x = some (f.kept t) := by
  have hbounds := ht.day_le
  have hhour := ht.hour_lt
  have hminute := ht.minute_lt
  have hsecond := ht.second_lt
  obtain ⟨m, hm, hstop, hholds⟩ := h.matchStart? ht (List.ne_nil_of_mem hyear)
  have hyears := hholds.numberOf?_eq rfl (DatePart.readNat?_year ht.year_ge ht.year_lt) 1900
  have hdays := hholds.numberOf?_eq (p := .day) rfl (DatePart.readNat?_twoDigits (by omega)) 1
  have hhours := hholds.numberOf?_eq (p := .hour) rfl (DatePart.readNat?_twoDigits (by omega)) 0
  have hminutes :=
    hholds.numberOf?_eq (p := .minute) rfl (DatePart.readNat?_twoDigits (by omega)) 0
  have hseconds :=
    hholds.numberOf?_eq (p := .second) rfl (DatePart.readNat?_twoDigits (by omega)) 0
  have hsecond_le : (if .second ∈ f then t.second else 0) ≤ 59 := by
    split <;> omega
  rw [read?_eq, hm, Option.bind_some, if_neg (not_not_intro hstop),
    hholds.monthOf?_eq ht hmonth, hyears, hdays, hhours, hminutes, hseconds]
  simp only [Option.bind_some, if_pos hyear, if_pos hday, hholds.isPlausible, Bool.true_and]
  rw [if_pos]
  · rfl
  · rw [Bool.and_eq_true, decide_eq_true_eq]
    exact ⟨ht.valid, hsecond_le⟩

end DateFormat

end NaslLint
