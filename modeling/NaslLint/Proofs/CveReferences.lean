import NaslLint.Checks.Severity
import NaslLint.Proofs.Date.Reading
import NaslLint.Proofs.ListedDependencies
import NaslLint.Proofs.Repair

/-!
# CVE references as they are listed

A script lists the CVE entries that it refers to, each in quotes, with a comma and perhaps blanks
between two of them. `Checks.Cve` are the identifiers, with their digits as numbers. An element of a
list that is one of them is found and judged by its digits and by the elements before it; at the
first element that is none the list is given up.

* `Checks.find?_cveEntry_of_text` and `Checks.find?_cveEntry_eq_none` say when an entry is found in
  an element.
* `Checks.judged_cons` says what one element adds, and `Checks.judged_listing` follows the list.
* `Checks.cve_list_judged_in_order` says what is found in a file with such a list.
-/

namespace NaslLint

/-! ## Digits of stored texts -/

namespace Text

/-- The digits that one byte can stand for are the ASCII digits. -/
theorem exists_digitChar_eq {c : Char} (hbyte : c.toNat < 256) (hdigit : isDigit c = true) :
    ∃ d < 10, Nat.digitChar d = c := by
  obtain ⟨r, hr, hlo, hhi⟩ := exists_range_of_inRanges hdigit
  have hranges : ∀ r ∈ digitRanges, r = (48, 57) ∨ 256 ≤ r.1 := by decide +kernel
  have hchars : ∀ d < 10, Nat.digitChar d = Char.ofNat (d + 48) := by decide
  rcases hranges r hr with rfl | hlarge
  · have hlo : 48 ≤ c.toNat := hlo
    have hhi : c.toNat ≤ 57 := hhi
    refine ⟨c.toNat - 48, by omega, ?_⟩
    rw [hchars _ (by omega), Nat.sub_add_cancel hlo, Char.ofNat_toNat]
  · omega

theorem exists_map_digitChar_eq {t : List Char} (hbytes : ∀ c ∈ t, c.toNat < 256)
    (hdigits : ∀ c ∈ t, isDigit c = true) :
    ∃ ds : List Nat, (∀ d ∈ ds, d < 10) ∧ ds.map Nat.digitChar = t := by
  induction t with
  | nil => exact ⟨[], by simp, rfl⟩
  | cons c t ih =>
      obtain ⟨hbyte, hbytes'⟩ := List.forall_mem_cons.1 hbytes
      obtain ⟨hdigit, hdigits'⟩ := List.forall_mem_cons.1 hdigits
      obtain ⟨d, hd, rfl⟩ := exists_digitChar_eq hbyte hdigit
      obtain ⟨ds, hds, rfl⟩ := ih hbytes' hdigits'
      exact ⟨d :: ds, List.forall_mem_cons.2 ⟨hd, hds⟩, rfl⟩

/-- Two texts in quotes, the one in the other between texts without quotes, are the same. -/
theorem eq_of_quoted_infix {x e a b : List Char} {q : Char} (hx : q ∉ x) (he : q ∉ e) (ha : q ∉ a)
    (hb : q ∉ b) (h : Script.quoted q x <:+: a ++ (Script.quoted q e ++ b)) : x = e := by
  obtain ⟨u, v, huv⟩ := h
  -- both sides have two quotes, so there is none before the first text
  have hcount := congrArg (List.count q) huv
  simp only [Script.quoted, List.count_append, List.count_cons_self, List.count_nil,
    List.count_eq_zero.2 hx, List.count_eq_zero.2 he, List.count_eq_zero.2 ha,
    List.count_eq_zero.2 hb] at hcount
  have hu : q ∉ u := List.count_eq_zero.1 (by omega)
  have hsplit : u ++ q :: (x ++ q :: v) = a ++ q :: (e ++ q :: b) := by
    simpa [Script.quoted] using huv
  obtain rfl : u = a :=
    eq_of_append_cons_prefix hu ha ⟨x ++ q :: v, by rw [← hsplit, List.append_assoc]; rfl⟩
  obtain ⟨-, hsplit⟩ := List.cons.inj (List.append_cancel_left hsplit)
  exact eq_of_append_cons_prefix hx he ⟨v, by rw [← hsplit, List.append_assoc]; rfl⟩

end Text

namespace Checks

open Pattern Script Text

/-! ## Identifiers -/

def yearDigits (n : Nat) : List Nat :=
  [n / 1000, n / 100 % 10, n / 10 % 10, n % 10]

/-- A CVE identifier: a year, written with four digits, and the digits of a number. -/
structure Cve where
  year : Nat
  number : List Nat
  year_lt : year < 10000
  number_lt : ∀ d ∈ number, d < 10
  length_ge : 4 ≤ number.length
  length_le : number.length ≤ 7
deriving DecidableEq

namespace Cve

def yearText (c : Cve) : List Char :=
  (yearDigits c.year).map Nat.digitChar

def numberText (c : Cve) : List Char :=
  c.number.map Nat.digitChar

def text (c : Cve) : List Char :=
  "CVE-".toList ++ (c.yearText ++ ("-".toList ++ c.numberText))

def name (c : Cve) : String :=
  String.ofList c.text

theorem toList_name (c : Cve) : c.name.toList = c.text :=
  String.toList_ofList

theorem text_ne {c : Cve} {e : String} (h : c.name ≠ e) : c.text ≠ e.toList := by
  rintro htext
  exact h (by rw [name, htext, String.ofList_toList])

def remarks (currentYear : Nat) (before : List Cve) (c : Cve) : List Remark :=
  (if 4 < c.number.length ∧ c.number.head? = some 0 then
    [.error ("The last group of CVE digits of the VT must not start with a 0 if there are more " ++
      "than 4 digits.")]
  else []) ++
  (if c.year < 1999 ∨ currentYear < c.year then
    [.error "VT uses an invalid year in CVE format."]
  else []) ++
  (if c ∈ before then [.error s!"VT is using CVE \"{c.name}\" multiple times."] else [])

theorem yearDigits_lt (c : Cve) : ∀ d ∈ yearDigits c.year, d < 10 := by
  have hyear := c.year_lt
  simp only [yearDigits, List.forall_mem_cons]
  refine ⟨by omega, by omega, by omega, by omega, by simp⟩

theorem readNat?_yearText (c : Cve) : readNat? c.yearText = some c.year := by
  rw [yearText, readNat?_map_digitChar (by simp [yearDigits]) c.yearDigits_lt
    (by simp [yearDigits, maxIntegerDigits])]
  simp only [yearDigits, ofDigits, List.foldl_cons, List.foldl_nil]
  exact congrArg some (by omega)

theorem digitValues?_numberText (c : Cve) : digitValues? c.numberText = some c.number := by
  have hlength := c.length_ge
  refine digitValues?_map_digitChar ?_ c.number_lt
  rintro hnil
  rw [hnil] at hlength
  simp at hlength

theorem length_yearText (c : Cve) : c.yearText.length = 4 := rfl

theorem text_inj {c d : Cve} (h : c.text = d.text) : c = d := by
  obtain ⟨hyear, hrest⟩ := List.append_inj (List.append_cancel_left h) rfl
  have hnumber : c.numberText = d.numberText := List.append_cancel_left hrest
  have hyear' : some c.year = some d.year := by
    rw [← c.readNat?_yearText, ← d.readNat?_yearText, hyear]
  have hnumber' : some c.number = some d.number := by
    rw [← c.digitValues?_numberText, ← d.digitValues?_numberText, hnumber]
  cases c
  cases d
  simp_all

theorem quoted_text (c : Cve) : quoted '"' c.text =
    "\"CVE-".toList ++ (c.yearText ++ ("-".toList ++ (c.numberText ++ "\"".toList))) := by
  simp [quoted, text]

theorem isDigit_of_mem_map {ds : List Nat} (hds : ∀ d ∈ ds, d < 10) :
    ∀ x ∈ ds.map Nat.digitChar, isDigit x = true := by
  intro x hx
  obtain ⟨d, hd, rfl⟩ := List.mem_map.1 hx
  exact (digitChar_facts d (hds d hd)).2.1

end Cve

/-! ## Entries in the elements of a list -/

section
variable {a b e r x : List Char} {first : String} {more : List (List Char × String)}

def Cve.groups (c : Cve) : List (String × List Char) :=
  [("number", c.numberText), ("year", c.yearText)]

theorem takes_cveEntry (c : Cve) : Takes cveEntry (quoted '"' c.text) r [] c.groups := by
  have hyear : Takes (.run .longest 4 (some 4) Text.isDigit) c.yearText
      ("-".toList ++ (c.numberText ++ "\"".toList) ++ r) [] [] :=
    takes_exactly (Cve.isDigit_of_mem_map c.yearDigits_lt) c.length_yearText
  have hnumber : Takes (.run .longest 4 (some 7) Text.isDigit) c.numberText ("\"".toList ++ r)
      [("year", c.yearText)] [("year", c.yearText)] := by
    apply takes_longest (Cve.isDigit_of_mem_map c.number_lt)
    · exact (List.length_map _).symm ▸ c.length_ge
    · rintro h ⟨⟩
      exact (List.length_map _).symm ▸ c.length_le
    · refine Or.inr fun d r' hr => ?_
      obtain ⟨rfl, -⟩ := List.cons.inj hr
      decide
  rw [c.quoted_text]
  exact takes_word.seq (hyear.group.seq (takes_word.seq (hnumber.group.seq takes_word)))

/-- An identifier is found where it stands in the first quotes. -/
theorem find?_cveEntry_of_text (c : Cve) (ha : '"' ∉ a) :
    ∃ m, cveEntry.find? (a ++ (quoted '"' c.text ++ b)) = some m ∧
      m.Covers a.length (quoted '"' c.text) c.groups := by
  refine find?_of_takes (fun u hu hne => ?_) (takes_cveEntry c)
  obtain ⟨d, u, rfl⟩ := List.exists_cons_of_ne_nil hne
  refine (refuses_word fun hpre => ha ?_).seq
  obtain ⟨rfl, -⟩ := List.cons_prefix_cons.1 hpre
  exact hu.subset List.mem_cons_self

/-- A text is written like an identifier, with digits of any script. -/
def HasCveForm (e : List Char) : Prop :=
  ∃ year number : List Char, (∀ c ∈ year, isDigit c = true) ∧ year.length = 4 ∧
    (∀ c ∈ number, isDigit c = true) ∧ 4 ≤ number.length ∧ number.length ≤ 7 ∧
    e = "CVE-".toList ++ (year ++ ("-".toList ++ number))

theorem HasCveForm.quote_not_mem (h : HasCveForm e) : '"' ∉ e := by
  obtain ⟨year, number, hyear, -, hnumber, -, -, rfl⟩ := h
  have hdigit : ¬ isDigit '"' = true := by decide
  simp only [List.mem_append, not_or]
  exact ⟨by decide, fun h => hdigit (hyear _ h), by decide, fun h => hdigit (hnumber _ h)⟩

/-- In a stored text it is an identifier. -/
theorem HasCveForm.exists_text_eq (h : HasCveForm e) (hbytes : ∀ c ∈ e, c.toNat < 256) :
    ∃ c : Cve, c.text = e := by
  obtain ⟨year, number, hyear, hlength, hnumber, hge, hle, rfl⟩ := h
  obtain ⟨ys, hys, rfl⟩ := exists_map_digitChar_eq (fun c hc => hbytes c (by simp [hc])) hyear
  obtain ⟨ns, hns, rfl⟩ := exists_map_digitChar_eq (fun c hc => hbytes c (by simp [hc])) hnumber
  rw [List.length_map] at hlength hge hle
  obtain ⟨y₁, y₂, y₃, y₄, rfl⟩ := List.length_eq_four.1 hlength
  obtain ⟨h₁, h₂, h₃, h₄⟩ : y₁ < 10 ∧ y₂ < 10 ∧ y₃ < 10 ∧ y₄ < 10 := by simpa using hys
  refine ⟨⟨1000 * y₁ + 100 * y₂ + 10 * y₃ + y₄, ns, by omega, hns, hge, hle⟩, ?_⟩
  have hdigits : yearDigits (1000 * y₁ + 100 * y₂ + 10 * y₃ + y₄) = [y₁, y₂, y₃, y₄] := by
    simp only [yearDigits, List.cons.injEq, and_true]
    omega
  rw [Cve.text, Cve.yearText, Cve.numberText, hdigits]

theorem exists_quoted_of_spells (h : cveEntry.Spells x) : ∃ e, HasCveForm e ∧ x = quoted '"' e := by
  obtain ⟨_, _, rfl, ⟨year, _, ⟨hylo, hyhi, hyear⟩, ⟨_, _, rfl, ⟨number, _, ⟨hnlo, hnhi, hnumber⟩,
    rfl, rfl⟩, rfl⟩, rfl⟩, rfl⟩ := h
  have hyhi : year.length ≤ 4 := hyhi 4 rfl
  have hnhi : number.length ≤ 7 := hnhi 7 rfl
  refine ⟨_, ⟨year, number, hyear, by omega, hnumber, hnlo, hnhi, rfl⟩, ?_⟩
  simp [quoted]

/-- Between the only quotes nothing but an identifier is found. -/
theorem find?_cveEntry_eq_none (ha : '"' ∉ a) (hb : '"' ∉ b) (he : '"' ∉ e)
    (hbytes : ∀ c ∈ e, c.toNat < 256) (hno : ∀ c : Cve, c.text ≠ e) :
    cveEntry.find? (a ++ (quoted '"' e ++ b)) = none := by
  rw [find?_eq_none_iff]
  intro n _
  rw [List.eq_nil_iff_forall_not_mem]
  intro t ht
  obtain ⟨e', hform, htext⟩ := exists_quoted_of_spells (spells_of_mem_ends ht)
  have hinfix : quoted '"' e' <:+: a ++ (quoted '"' e ++ b) := by
    have hrest := (leads_of_mem_ends ht).rest_eq
    rw [htext, Place.rest_move] at hrest
    exact ⟨_, _, by rw [List.append_assoc, ← hrest]; exact List.take_append_drop n _⟩
  obtain rfl := eq_of_quoted_infix hform.quote_not_mem he ha hb hinfix
  obtain ⟨c, hc⟩ := hform.exists_text_eq hbytes
  exact hno c hc

/-! ## What one element adds -/

def entriesOf (cves : List Cve) : List (List Char) :=
  cves.map fun c => quoted '"' c.text

theorem quoted_mem_entriesOf_iff {c : Cve} {before : List Cve} :
    quoted '"' c.text ∈ entriesOf before ↔ c ∈ before := by
  rw [entriesOf, List.mem_map]
  constructor
  · rintro ⟨d, hd, heq⟩
    have htext : d.text = c.text := List.append_cancel_right (List.cons.inj heq).2
    exact Cve.text_inj htext ▸ hd
  · exact fun hc => ⟨c, hc, rfl⟩

theorem head?_numberText_iff (c : Cve) :
    c.numberText.head? = some '0' ↔ c.number.head? = some 0 := by
  simp [Cve.numberText]

theorem cveEntryRemarks_eq {m : Match} {start : Nat} {c : Cve} (currentYear : Nat)
    (before : List Cve) (hm : m.Covers start (quoted '"' c.text) c.groups) :
    cveEntryRemarks currentYear (entriesOf before) m = c.remarks currentYear before := by
  have hnumber : m.group "number" = c.numberText := hm.group_eq rfl
  have hyear : m.group "year" = c.yearText := hm.group_eq rfl
  have hzero : (c.numberText.length > 4 && c.numberText.head? == some '0') = true ↔
      4 < c.number.length ∧ c.number.head? = some 0 := by
    rw [Bool.and_eq_true, beq_iff_eq, head?_numberText_iff, decide_eq_true_eq, Cve.numberText,
      List.length_map]
  have hrange : (1999 ≤ c.year && c.year ≤ currentYear) = true ↔
      ¬ (c.year < 1999 ∨ currentYear < c.year) := by
    rw [Bool.and_eq_true, decide_eq_true_eq, decide_eq_true_eq]
    omega
  have hseen : (entriesOf before).contains (quoted '"' c.text) = true ↔ c ∈ before := by
    rw [List.contains_iff_mem, quoted_mem_entriesOf_iff]
  have hsaid : "VT is using CVE " ++ String.ofList (quoted '"' c.text) ++ " multiple times." =
      "VT is using CVE \"" ++ c.name ++ "\" multiple times." := by
    apply String.toList_inj.1
    simp [quoted, Cve.name]
  unfold cveEntryRemarks Cve.remarks
  simp only [hnumber, hyear, hm.text_eq, c.readNat?_yearText, Option.getD_some, hzero, hrange, hseen,
    ite_not]
  exact congrArg (fun said => _ ++ if c ∈ before then [Remark.error said] else []) hsaid

/-- An identifier is judged by the ones before it, and is one of them for the rest. -/
theorem cveListRemarks_cons_of_text (currentYear : Nat) (before : List Cve) (c : Cve)
    (ha : '"' ∉ a) (parts : List (List Char)) :
    cveListRemarks currentYear (entriesOf before) ((a ++ (quoted '"' c.text ++ b)) :: parts) =
      c.remarks currentYear before ++
        cveListRemarks currentYear (entriesOf (before ++ [c])) parts := by
  obtain ⟨m, hfind, hcovers⟩ := find?_cveEntry_of_text (b := b) c ha
  simp only [cveListRemarks, hfind]
  rw [cveEntryRemarks_eq currentYear before hcovers, hcovers.text_eq, entriesOf, entriesOf,
    List.map_append]
  rfl

/-- At an element of another form the list is given up. -/
theorem cveListRemarks_cons_of_other (currentYear : Nat) (seen : List (List Char)) (ha : '"' ∉ a)
    (hb : '"' ∉ b) (he : '"' ∉ e) (hbytes : ∀ c ∈ e, c.toNat < 256) (hno : ∀ c : Cve, c.text ≠ e)
    (parts : List (List Char)) :
    cveListRemarks currentYear seen ((a ++ (quoted '"' e ++ b)) :: parts) =
      [.error "VT uses an invalid CVE format."] := by
  simp only [cveListRemarks, find?_cveEntry_eq_none ha hb he hbytes hno]

/-! ## What a list amounts to -/

/-- The elements hold no quotes, commas or semicolons, and nothing but blanks stands behind the
commas. -/
structure IsCveListing (first : String) (more : List (List Char × String)) : Prop where
  gaps : ∀ e ∈ more, ∀ c ∈ e.1, Text.isBlank c = true
  elements : ∀ e ∈ listed first more, '"' ∉ e.toList ∧ ',' ∉ e.toList ∧ ';' ∉ e.toList

theorem not_mem_of_blank {gap : List Char} (hgap : ∀ c ∈ gap, Text.isBlank c = true) {c : Char}
    (hc : Text.isBlank c = false) : c ∉ gap := by
  intro hmem
  rw [hgap c hmem] at hc
  exact Bool.noConfusion hc

/-- What is said of the elements of a list behind the identifiers `before`: the identifiers that it
starts with are judged one after the other, and where it goes on it is given up. -/
def Judged (currentYear : Nat) (before : List Cve) (elements : List String) (said : List Remark) :
    Prop :=
  ∃ (cves : List Cve) (rest : List String), elements = cves.map Cve.name ++ rest ∧
    (∀ e, rest.head? = some e → ∀ c : Cve, c.name ≠ e) ∧
    said = ((cves.zipIdx before.length).flatMap fun p =>
        p.1.remarks currentYear ((before ++ cves).take p.2)) ++
      if rest = [] then [] else [.error "VT uses an invalid CVE format."]

namespace Judged
variable {currentYear : Nat} {before : List Cve} {element : String} {elements : List String}
  {said : List Remark}

theorem nil : Judged currentYear before [] [] :=
  ⟨[], [], rfl, by simp, rfl⟩

theorem other (h : ∀ c : Cve, c.name ≠ element) :
    Judged currentYear before (element :: elements) [.error "VT uses an invalid CVE format."] := by
  refine ⟨[], element :: elements, rfl, ?_, rfl⟩
  intro e he
  obtain rfl := Option.some.inj he
  exact h

theorem cons {c : Cve} (h : Judged currentYear (before ++ [c]) elements said) :
    Judged currentYear before (c.name :: elements) (c.remarks currentYear before ++ said) := by
  obtain ⟨cves, rest, rfl, hrest, rfl⟩ := h
  refine ⟨c :: cves, rest, rfl, hrest, ?_⟩
  rw [List.zipIdx_cons, List.flatMap_cons, List.take_left, List.append_assoc, List.length_append,
    List.append_assoc]
  rfl

end Judged

/-- **One element.** It is judged, and unless it is of another form the parts behind it are. -/
theorem judged_cons {currentYear : Nat} {before : List Cve} {element : String}
    {elements : List String} {parts : List (List Char)} (ha : '"' ∉ a) (hb : '"' ∉ b)
    (hquote : '"' ∉ element.toList) (hbytes : ∀ c ∈ element.toList, c.toNat < 256)
    (hmore : ∀ before', Judged currentYear before' elements
      (cveListRemarks currentYear (entriesOf before') parts)) :
    Judged currentYear before (element :: elements)
      (cveListRemarks currentYear (entriesOf before)
        ((a ++ (quoted '"' element.toList ++ b)) :: parts)) := by
  by_cases hname : ∃ c : Cve, c.name = element
  · obtain ⟨c, rfl⟩ := hname
    rw [c.toList_name, cveListRemarks_cons_of_text currentYear before c ha]
    exact (hmore _).cons
  · have hno : ∀ c : Cve, c.name ≠ element := not_exists.1 hname
    rw [cveListRemarks_cons_of_other currentYear _ ha hb hquote hbytes fun c => Cve.text_ne (hno c)]
    exact .other hno

/-- **A list.** It is cut at its commas, whatever stands before and behind it. -/
theorem judged_listing {currentYear : Nat} (hlist : IsCveListing first more)
    (hbytes : ∀ e ∈ listed first more, ∀ c ∈ e.toList, c.toNat < 256)
    (ha : '"' ∉ a ∧ ',' ∉ a) (hb : '"' ∉ b ∧ ',' ∉ b) (before : List Cve) :
    Judged currentYear before (listed first more)
      (cveListRemarks currentYear (entriesOf before)
        (Text.splitOn ',' (a ++ (listing first more ++ b)))) := by
  -- before the first element stands the opening bracket, before any other one its gap
  induction more generalizing first a before with
  | nil =>
      obtain ⟨hquote, hcomma, -⟩ := hlist.elements first List.mem_cons_self
      have hsplit : Text.splitOn ',' (a ++ (listing first [] ++ b)) =
          [a ++ (quoted '"' first.toList ++ b)] := by
        rw [Text.splitOn_eq, listing, List.flatMap_nil, List.append_nil]
        apply List.splitOn_eq_singleton
        simp [quoted, ha.2, hb.2, hcomma]
      rw [hsplit]
      exact judged_cons ha.1 hb.1 hquote (hbytes first List.mem_cons_self) fun _ => .nil
  | cons e more ih =>
      obtain ⟨⟨hquote, hcomma, -⟩, helements⟩ := List.forall_mem_cons.1 hlist.elements
      obtain ⟨hgap, hgaps⟩ := List.forall_mem_cons.1 hlist.gaps
      obtain ⟨hbyte, hbytes'⟩ := List.forall_mem_cons.1 hbytes
      have hsplit : Text.splitOn ',' (a ++ (listing first (e :: more) ++ b)) =
          (a ++ (quoted '"' first.toList ++ [])) ::
            Text.splitOn ',' (e.1 ++ (listing e.2 more ++ b)) := by
        have hpart : ',' ∉ a ++ quoted '"' first.toList := by simp [quoted, ha.2, hcomma]
        have hparts : a ++ (listing first (e :: more) ++ b) =
            (a ++ quoted '"' first.toList) ++ ',' :: (e.1 ++ (listing e.2 more ++ b)) := by
          simp [listing_cons]
        rw [hparts, Text.splitOn_append_cons, Text.splitOn_eq, List.splitOn_eq_singleton hpart,
          List.append_nil]
        rfl
      rw [hsplit]
      refine judged_cons ha.1 List.not_mem_nil hquote hbyte fun before' => ?_
      exact ih ⟨hgaps, helements⟩ hbytes'
        ⟨not_mem_of_blank hgap (by decide), not_mem_of_blank hgap (by decide)⟩ before'

/-! ## The call that lists entries -/

def cveCall (first : String) (more : List (List Char × String)) : List Char :=
  callText "cve_id".toList (listing first more)

def bracketed (first : String) (more : List (List Char × String)) : List Char :=
  "(".toList ++ (listing first more ++ ")".toList)

theorem cveCall_append : cveCall first more ++ b =
    ("script_cve_id".toList ++ bracketed first more) ++ ';' :: b := by
  have hassoc (s w o l c : List Char) : (s ++ (w ++ (o ++ (l ++ (c ++ [';']))))) ++ b =
      ((s ++ w) ++ (o ++ (l ++ c))) ++ ';' :: b := by simp
  exact hassoc "script_".toList "cve_id".toList "(".toList (listing first more) ")".toList

theorem semicolon_not_mem_bracketed (hlist : IsCveListing first more) :
    ';' ∉ bracketed first more := by
  have hlisting : ';' ∉ listing first more := by
    rw [mem_listing_iff (by decide) (by decide)]
    rintro (⟨e, he, hgap⟩ | ⟨e, he, hmem⟩)
    · exact not_mem_of_blank (hlist.gaps e he) (by decide) hgap
    · exact (hlist.elements e he).2.2 hmem
  simp [bracketed, hlisting]

/-- The list of the first call is found, up to the semicolon that ends the call. -/
theorem find?_cveList (hlist : IsCveListing first more)
    (hfirst : ¬ "script_cve_id".toList <:+: a) :
    ∃ m, cveList.find? (a ++ (cveCall first more ++ b)) = some m ∧
      m.group "list" = bracketed first more := by
  have hsemicolon := semicolon_not_mem_bracketed hlist
  have hrun : Takes (.run .longest 1 none (· != ';')) (bracketed first more) (';' :: b) [] [] := by
    apply takes_longest
    · intro c hc
      exact bne_iff_ne.2 fun h => hsemicolon (h ▸ hc)
    · simp [bracketed]
    · simp
    · refine Or.inr fun d r hr => ?_
      obtain ⟨rfl, -⟩ := List.cons.inj hr
      rfl
  have htakes : Takes cveList ("script_cve_id".toList ++ bracketed first more) (';' :: b) []
      [("list", bracketed first more)] := takes_word.seq hrun.group
  have hrefuses : ∀ u, u <:+ a → u ≠ [] → Refuses cveList
      (u ++ (("script_cve_id".toList ++ bracketed first more) ++ ';' :: b)) [] := by
    intro u hu hne
    refine (refuses_word fun hpre => hfirst ?_).seq
    -- the word does not reach into the call, for its first letter does not come back in it
    have hword : "script_cve_id".toList <+: u := by
      refine Text.prefix_of_prefix_append (c := 's') (by decide) ?_ hne hpre
      intro d r hr
      exact (List.cons.inj hr).1.symm
    exact hword.isInfix.trans hu.isInfix
  rw [cveCall_append]
  obtain ⟨m, hm, hcovers⟩ := find?_of_takes hrefuses htakes
  exact ⟨m, hm, hcovers.group_eq rfl⟩

/-- A list in a stored text of a script with a severity is judged in its order. -/
theorem judged_cveRemarks {score : List Char} (currentYear : Nat) (hlist : IsCveListing first more)
    (hstored : Stored (a ++ (cveCall first more ++ b))) (hfirst : ¬ "script_cve_id".toList <:+: a)
    (hscore : score? (a ++ (cveCall first more ++ b)) = some score)
    (hsevere : score ≠ "0.0".toList) :
    Judged currentYear [] (listed first more)
      (cveRemarks currentYear (a ++ (cveCall first more ++ b))) := by
  obtain ⟨m, hm, hgroup⟩ := find?_cveList (b := b) hlist hfirst
  have hseverity : hasNoSeverity (a ++ (cveCall first more ++ b)) = false := by
    rw [hasNoSeverity, hscore]
    simpa using hsevere
  have hbytes : ∀ e ∈ listed first more, ∀ c ∈ e.toList, c.toNat < 256 := by
    intro e he c hc
    obtain ⟨hquote, hcomma, -⟩ := hlist.elements e he
    have hmem : c ∈ listing first more :=
      (mem_listing_iff (fun h => hquote (h ▸ hc)) (fun h => hcomma (h ▸ hc))).2 (Or.inr ⟨e, he, hc⟩)
    refine (hstored c ?_).1
    rw [cveCall_append, bracketed]
    simp [hmem]
  simp only [cveRemarks, hseverity, hm, hgroup]
  exact judged_listing hlist hbytes (by decide) (by decide) []

end

/-! ## The list in a file -/

/-- **A list of CVE entries is judged in its order.** In a script that states a severity, the first
call that lists CVE entries names elements in quotes. Each of the identifiers that the list starts
with is judged by its number, by its year and by the identifiers before it; where the list goes on,
with an element that is no identifier, it is given up. -/
theorem cve_list_judged_in_order {w : Surroundings} (root : Path) {file : Path}
    {before behind : List Char} {first : String} {more : List (List Char × String)}
    {score : List Char}
    (hread : w.tree.readText file = .ok (before ++ (cveCall first more ++ behind)))
    (hscript : file.isInclude = false) (hlist : IsCveListing first more)
    (hfirst : ¬ "script_cve_id".toList <:+: before)
    (hscore : score? (before ++ (cveCall first more ++ behind)) = some score)
    (hsevere : score ≠ "0.0".toList) :
    ∃ (cves : List Cve) (rest : List String), listed first more = cves.map Cve.name ++ rest ∧
      (∀ e, rest.head? = some e → ∀ c : Cve, c.name ≠ e) ∧
      cveFormat.findings (.ofTree w.tree root file) w =
        .done (List.map (fun r => Remark.toFinding r file cveFormat.name)
          ((cves.zipIdx.flatMap fun p => p.1.remarks w.now.year (cves.take p.2)) ++
            if rest = [] then [] else [.error "VT uses an invalid CVE format."])) := by
  obtain ⟨_, -, hbytes⟩ := FileTree.readText_eq_ok_iff.1 hread
  have hstored : Stored (before ++ (cveCall first more ++ behind)) :=
    hbytes ▸ Text.stored_read _
  obtain ⟨cves, rest, hsplit, hrest, hsaid⟩ :=
    judged_cveRemarks w.now.year hlist hstored hfirst hscore hsevere
  refine ⟨cves, rest, hsplit, hrest, ?_⟩
  have hrun : cveFormat.run (.ofTree w.tree root file) w =
      .done (cveRemarks w.now.year (before ++ (cveCall first more ++ behind))) := by
    simp only [cveFormat, Subject.onScript, Subject.withText, text_ofTree hread,
      Subject.unlessInclude]
    exact if_neg (Bool.eq_false_iff.1 hscript)
  rw [FileCheck.findings, hrun, hsaid]
  rfl

/-- The identifiers that a list starts with are determined. -/
theorem eq_of_map_name_append {cves cves' : List Cve} {rest rest' : List String}
    (h : cves.map Cve.name ++ rest = cves'.map Cve.name ++ rest')
    (hrest : ∀ e, rest.head? = some e → ∀ c : Cve, c.name ≠ e)
    (hrest' : ∀ e, rest'.head? = some e → ∀ c : Cve, c.name ≠ e) : cves = cves' ∧ rest = rest' := by
  induction cves generalizing cves' with
  | nil =>
      cases cves' with
      | nil => exact ⟨rfl, h⟩
      | cons c cves' => exact absurd rfl (hrest c.name (by rw [show rest = _ from h]; rfl) c)
  | cons c cves ih =>
      cases cves' with
      | nil => exact absurd rfl (hrest' c.name (by rw [← show _ = rest' from h]; rfl) c)
      | cons c' cves' =>
          obtain ⟨hname, hmore⟩ := List.cons.inj h
          obtain ⟨rfl, hrests⟩ := ih hmore
          have htext : c.text = c'.text := by rw [← c.toList_name, ← c'.toList_name, hname]
          exact ⟨by rw [Cve.text_inj htext], hrests⟩

/-- Elements with a leading zero, with an old year, with both a leading zero and an element like it
before, with a number that is too short, and one that is not looked at any more. -/
def mixedElements : List (List Char × String) :=
  [(" ".toList, "CVE-1998-1234"), ([], "CVE-2019-01234"), ("\n  ".toList, "CVE-2020-12"),
    (" ".toList, "CVE-1998-1234")]

def zeroLed : Cve :=
  ⟨2019, [0, 1, 2, 3, 4], by decide, by decide, by decide, by decide⟩

def tooOld : Cve :=
  ⟨1998, [1, 2, 3, 4], by decide, by decide, by decide, by decide⟩

theorem cve_list_judged_in_order_of_mixed :
    let before := "script_tag(name:\"cvss_base\", value:\"5.0\");\n".toList
    let text := before ++ (cveCall "CVE-2019-01234" mixedElements ++ "\n".toList)
    let tree : FileTree := { entries := [(["a.nasl"], .file 0o644 (toLatin1 text))] }
    let w : Surroundings := { tree, now := ⟨⟨2020, 9, 15⟩, 12, 0, 0⟩ }
    let root : Path := ⟨"/", []⟩
    let file : Path := ⟨"/", ["a.nasl"]⟩
    tree.readText file = .ok text ∧ file.isInclude = false ∧
    IsCveListing "CVE-2019-01234" mixedElements ∧ ¬ "script_cve_id".toList <:+: before ∧
    score? text = some "5.0".toList ∧
    cveFormat.findings (.ofTree tree root file) w = .done (List.map
      (fun message => Remark.toFinding (.error message) file "check_cve_format")
      ["The last group of CVE digits of the VT must not start with a 0 if there are more " ++
        "than 4 digits.",
       "VT uses an invalid year in CVE format.",
       "The last group of CVE digits of the VT must not start with a 0 if there are more " ++
        "than 4 digits.",
       "VT is using CVE \"CVE-2019-01234\" multiple times.",
       "VT uses an invalid CVE format."]) := by
  intro before text tree w root file
  have hstored : Stored text := by decide +kernel
  have hread : tree.readText file = .ok text :=
    FileTree.readText_eq_ok_iff.2 ⟨_, rfl, hstored.read_write⟩
  have hscript : file.isInclude = false := by decide
  have hgaps : (mixedElements.all fun e => e.1.all Text.isBlank) = true := by decide
  have hlist : IsCveListing "CVE-2019-01234" mixedElements :=
    ⟨fun e he => List.all_eq_true.1 (List.all_eq_true.1 hgaps e he), by decide⟩
  have hfirst : ¬ "script_cve_id".toList <:+: before := by decide +kernel
  have hscore : score? text = some "5.0".toList := by decide +kernel
  refine ⟨hread, hscript, hlist, hfirst, hscore, ?_⟩
  obtain ⟨cves, rest, hsplit, hrest, hfound⟩ :=
    cve_list_judged_in_order (w := w) root hread hscript hlist hfirst hscore (by decide)
  rw [hfound]
  have hrest' : ∀ e, ["CVE-2020-12", "CVE-1998-1234"].head? = some e → ∀ c : Cve, c.name ≠ e := by
    rintro _ ⟨⟩ c h
    have hlength := c.length_ge
    have hlengths := congrArg (fun s => s.toList.length) h
    simp [Cve.toList_name, Cve.text, Cve.numberText, Cve.length_yearText] at hlengths
    omega
  have hsplit' : cves.map Cve.name ++ rest =
      [zeroLed, tooOld, zeroLed].map Cve.name ++ ["CVE-2020-12", "CVE-1998-1234"] :=
    hsplit.symm.trans (by decide)
  obtain ⟨rfl, rfl⟩ := eq_of_map_name_append hsplit' hrest hrest'
  have hremarks : ([zeroLed, tooOld, zeroLed].zipIdx.flatMap fun p =>
      p.1.remarks w.now.year ([zeroLed, tooOld, zeroLed].take p.2)) =
      [.error ("The last group of CVE digits of the VT must not start with a 0 if there are more " ++
        "than 4 digits."),
       .error "VT uses an invalid year in CVE format.",
       .error ("The last group of CVE digits of the VT must not start with a 0 if there are more " ++
        "than 4 digits."),
       .error "VT is using CVE \"CVE-2019-01234\" multiple times."] := by
    show ([zeroLed, tooOld, zeroLed].zipIdx.flatMap fun p =>
      p.1.remarks 2020 ([zeroLed, tooOld, zeroLed].take p.2)) = _
    decide +kernel
  rw [hremarks]
  rfl

end Checks

end NaslLint
