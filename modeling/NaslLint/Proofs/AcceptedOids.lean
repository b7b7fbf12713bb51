import Mathlib.Data.List.Nodup
import NaslLint.Proofs.VendorFamilies

/-!
# What an accepted identifier looks like

An object identifier is a row of numbers with single dots between them, and in the branch of ranges
there is one number and no more. The check of identifiers reads them by pieces: a scheme is held
against the whole identifier, but of an identifier of a vendor without a scheme only the number of
the vendor is read, and of one in the branch of ranges only the digits up to something else. Whatever
stands behind these is accepted unread.

* `Checks.Accepted` lists the ways in which an identifier is accepted, each with what it leaves unread;
* `Checks.judgeOid_eq_nil_iff` says that there are no others;
* `Checks.wellFormedOid_iff_of_accepted` says that the identifier is well formed if what was left
  unread is.
-/

namespace NaslLint

namespace Pattern
variable {q : Pattern} {x r : List Char} {g : List (String × List Char)}

theorem exists_find?_textStart_of_takes (h : Takes q x r [] g) :
    ∃ m, (seq textStart q).find? (x ++ r) = some m ∧ m.Covers 0 x g := by
  rw [find?_textStart]
  exact h.matchAt? (s := .ofText (x ++ r)) (x ++ r).length rfl rfl

end Pattern

namespace Checks

open Pattern

/-! ## Identifiers -/

/-- A decimal number as it is written. -/
def IsNumber (n : List Char) : Prop :=
  n ≠ [] ∧ ∀ c ∈ n, Text.isAsciiDigit c = true

instance : DecidablePred IsNumber := fun n =>
  decidable_of_iff (n ≠ [] ∧ n.all Text.isAsciiDigit = true) (by rw [IsNumber, List.all_eq_true])

def IsDotted (x : List Char) : Prop :=
  ∀ n ∈ Text.splitOn '.' x, IsNumber n

instance : DecidablePred IsDotted := fun x =>
  decidable_of_iff (((Text.splitOn '.' x).all fun n => decide (IsNumber n)) = true)
    (by simp [IsDotted])

/-- The numbers below which vendors have their branches. -/
def vendorStem : List Char :=
  "1.3.6.1.4.1.25623.1.1.".toList

def rangeStem : List Char :=
  "1.3.6.1.4.1.25623.1.0.".toList

def productStem : List Char :=
  "1.3.6.1.4.1.25623.1.2.".toList

def firefoxStem : List Char :=
  "1.3.6.1.4.1.25623.1.2.1.".toList

/-- An identifier is made of numbers, and in the branch of ranges one number follows. -/
structure WellFormedOid (oid : List Char) : Prop where
  dotted : IsDotted oid
  one_number : ∀ rest, oid = rangeStem ++ rest → IsNumber rest

theorem isDotted_append_cons {x y : List Char} :
    IsDotted (x ++ '.' :: y) ↔ IsDotted x ∧ IsDotted y := by
  rw [IsDotted, Text.splitOn_append_cons, List.forall_mem_append]
  rfl

theorem IsNumber.dot_not_mem {n : List Char} (h : IsNumber n) : '.' ∉ n := by
  intro hdot
  exact absurd (h.2 '.' hdot) (by decide)

theorem IsNumber.isDotted {n : List Char} (h : IsNumber n) : IsDotted n := by
  rw [IsDotted, Text.splitOn_eq, List.splitOn_eq_singleton h.dot_not_mem]
  exact List.forall_mem_singleton.2 h

def StartsNoDigit (r : List Char) : Prop :=
  ∀ c z, r = c :: z → Text.isAsciiDigit c = false

/-! ## The numbers that are read -/

section
variable {s : Subject} {w : Surroundings} {t oid : List Char}

theorem takes_asciiDigits {n r : List Char} {g : List (String × List Char)} (hn : IsNumber n)
    (hr : StartsNoDigit r) : Takes (asciiDigits 1 none) n r g g :=
  takes_longest hn.2 (List.length_pos_iff.2 hn.1) (by simp) (Or.inr hr)

theorem startsNoDigit_dot (r : List Char) : StartsNoDigit ('.' :: r) := by
  intro c z h
  obtain ⟨rfl, -⟩ := List.cons.inj h
  decide

/-- The number of a vendor is the one behind the stem, and a dot follows it. -/
theorem vendorNumber?_eq_some_iff {number : String} :
    vendorNumber? oid = some number ↔
      IsNumber number.toList ∧ ∃ rest, oid = vendorStem ++ (number.toList ++ '.' :: rest) := by
  have hread {n rest : List Char} (hn : IsNumber n) :
      vendorNumber? (vendorStem ++ (n ++ '.' :: rest)) = some (String.ofList n) := by
    have htakes : Takes (chain [word vendorStem, group "vendor" (asciiDigits 1 none), "."])
        (vendorStem ++ (n ++ ".".toList)) rest [] [("vendor", n)] :=
      takes_word.seq ((takes_asciiDigits hn (startsNoDigit_dot rest)).group.seq takes_word)
    obtain ⟨m, hm, hcovers⟩ := exists_find?_textStart_of_takes htakes
    have htext : vendorStem ++ (n ++ ".".toList) ++ rest = vendorStem ++ (n ++ '.' :: rest) := by
      simp
    rw [htext] at hm
    rw [vendorNumber?]
    refine Option.map_eq_some_iff.2 ⟨m, hm, ?_⟩
    rw [hcovers.group_eq rfl]
  constructor
  · intro h
    obtain ⟨m, hm, -⟩ := Option.map_eq_some_iff.1 h
    obtain ⟨_, rest, ⟨n, _, hn, rfl, rfl⟩, rfl⟩ := spells_of_find?_textStart_word hm
    have hnumber : IsNumber n := ⟨List.length_pos_iff.1 hn.1, hn.2.2⟩
    have htext : n ++ ".".toList ++ rest = n ++ '.' :: rest := by simp
    rw [htext] at h ⊢
    obtain rfl : String.ofList n = number := Option.some.inj ((hread hnumber).symm.trans h)
    rw [String.toList_ofList]
    exact ⟨hnumber, rest, rfl⟩
  · rintro ⟨hnumber, rest, rfl⟩
    rw [hread hnumber, String.ofList_toList]

/-- The number in the branch of ranges is all digits behind the stem, whatever follows them. -/
theorem rangeDigits?_eq_some_iff {n : List Char} :
    rangeDigits? oid = some n ↔
      IsNumber n ∧ ∃ rest, StartsNoDigit rest ∧ oid = rangeStem ++ (n ++ rest) := by
  have hread {n rest : List Char} (hn : IsNumber n) (hrest : StartsNoDigit rest) :
      rangeDigits? (rangeStem ++ (n ++ rest)) = some n := by
    have htakes : Takes (chain [word rangeStem, group "number" (asciiDigits 1 none)])
        (rangeStem ++ n) rest [] [("number", n)] :=
      takes_word.seq (takes_asciiDigits hn hrest).group
    obtain ⟨m, hm, hcovers⟩ := exists_find?_textStart_of_takes htakes
    rw [List.append_assoc] at hm
    exact Option.map_eq_some_iff.2 ⟨m, hm, hcovers.group_eq rfl⟩
  constructor
  · intro h
    obtain ⟨m, hm, -⟩ := Option.map_eq_some_iff.1 h
    obtain ⟨x, y, hx, rfl⟩ := spells_of_find?_textStart_word hm
    -- a match has some of the digits; the number has all of them
    obtain ⟨n', rest, hsplit, hn', hrest⟩ : ∃ n' rest, x ++ y = n' ++ rest ∧ IsNumber n' ∧
        StartsNoDigit rest := by
      refine ⟨(x ++ y).takeWhile Text.isAsciiDigit, (x ++ y).dropWhile Text.isAsciiDigit,
        List.takeWhile_append_dropWhile.symm, ⟨?_, ?_⟩, ?_⟩
      · rw [List.takeWhile_append_of_pos hx.2.2]
        exact List.append_ne_nil_of_left_ne_nil (List.length_pos_iff.1 hx.1) _
      · exact List.all_eq_true.1 List.all_takeWhile
      · intro c z hz
        have hhead := List.head?_dropWhile_not Text.isAsciiDigit (x ++ y)
        rw [hz] at hhead
        exact hhead
    rw [hsplit] at h ⊢
    obtain rfl : n' = n := Option.some.inj ((hread hn' hrest).symm.trans h)
    exact ⟨hn', rest, hrest, rfl⟩
  · rintro ⟨hn, rest, hrest, rfl⟩
    exact hread hn hrest

/-! ## Schemes -/

def SpellsNumber (p : Pattern) : Prop :=
  ∀ x, p.Spells x → IsNumber x

theorem spellsNumber_asciiDigits {lo : Nat} (hi : Option Nat) (hlo : 0 < lo) :
    SpellsNumber (asciiDigits lo hi) := by
  intro x hx
  exact ⟨List.length_pos_iff.1 (Nat.lt_of_lt_of_le hlo hx.1), hx.2.2⟩

theorem spellsNumber_advisoryYear {decade : Char} (h : '0' ≤ decade) :
    SpellsNumber (advisoryYear decade) := by
  rintro x ⟨_, _, rfl, ⟨_, _, ⟨a, ha, rfl⟩, ⟨b, hb, rfl⟩, rfl⟩, rfl⟩
  rw [Bool.and_eq_true, decide_eq_true_eq, decide_eq_true_eq] at ha hb
  have hdecade : Text.isAsciiDigit a = true := by
    rw [Text.isAsciiDigit, Bool.and_eq_true, decide_eq_true_eq, decide_eq_true_eq]
    exact ⟨Char.le_trans h ha.1, Char.le_trans ha.2 (by decide)⟩
  have hyear : Text.isAsciiDigit b = true := by
    rw [Text.isAsciiDigit, Bool.and_eq_true, decide_eq_true_eq, decide_eq_true_eq]
    exact hb
  refine ⟨by simp, ?_⟩
  intro c hc
  rcases List.mem_append.1 hc with hc | hc
  · exact List.all_eq_true.1 (by decide : "20".toList.all Text.isAsciiDigit = true) c hc
  · rcases List.mem_cons.1 hc with rfl | hc
    · exact hdecade
    · rw [List.mem_singleton.1 hc]
      exact hyear

def withDots (ps : List Pattern) : List Pattern :=
  ps.intersperse (word ".".toList)

theorem withDots_ne_nil {ps : List Pattern} (h : ps ≠ []) : withDots ps ≠ [] := by
  obtain ⟨p, ps, rfl⟩ := List.exists_cons_of_ne_nil h
  cases ps <;> simp [withDots]

/-- What patterns for numbers cover with dots between them. -/
theorem isDotted_of_spells_withDots {ps : List Pattern} {x : List Char} (hne : ps ≠ [])
    (hps : ∀ p ∈ ps, SpellsNumber p) (hx : (chain (withDots ps)).Spells x) : IsDotted x := by
  induction ps generalizing x with
  | nil => exact absurd rfl hne
  | cons p ps ih =>
      obtain ⟨hp, hmore⟩ := List.forall_mem_cons.1 hps
      cases ps with
      | nil => exact (hp x hx).isDotted
      | cons q ps =>
          rw [withDots, List.intersperse_cons_cons, ← withDots] at hx
          obtain ⟨n, _, hn, hrest, rfl⟩ := spells_chain_cons.1 hx
          obtain ⟨p', ps', heq⟩ :=
            List.exists_cons_of_ne_nil (withDots_ne_nil (List.cons_ne_nil q ps))
          rw [heq] at hrest
          obtain ⟨_, z, rfl, hz, rfl⟩ := spells_chain_cons.1 hrest
          rw [← heq] at hz
          exact isDotted_append_cons.2 ⟨(hp n hn).isDotted, ih (by simp) hmore hz⟩

/-- A scheme is held against the whole identifier. -/
theorem exists_spells_of_oidScheme {start : String} {ps : List Pattern} (hne : ps ≠ [])
    (hoid : '\n' ∉ oid) (h : (oidScheme start ps).occursIn oid = true) :
    ∃ x, (chain ps).Spells x ∧ oid = start.toList ++ x := by
  obtain ⟨m, hm⟩ := Option.isSome_iff_exists.1 h
  change (seq textStart (chain ((word start.toList :: ps) ++ [textEnd]))).find? oid = some m at hm
  rw [find?_textStart] at hm
  obtain ⟨e, he, -⟩ := exists_mem_ends_of_matchAt? hm
  obtain ⟨u, hu, he⟩ := (mem_ends_chain_append (by simp) (by simp)).1 he
  have htext := (leads_of_mem_ends hu).rest_eq
  have hspells := spells_of_mem_ends hu
  have hend : u.rest = [] := by
    have hat : u.atTextEnd = true := by
      by_contra hnot
      rw [chain, ends, if_neg hnot] at he
      exact List.not_mem_nil he
    have hline : '\n' ∉ u.rest := by
      intro hmem
      apply hoid
      change '\n' ∈ (Place.ofText oid).rest
      rw [htext]
      exact List.mem_append_right _ hmem
    rw [Place.atTextEnd] at hat
    split at hat
    · assumption
    · rename_i hrest
      rw [hrest] at hline
      exact absurd List.mem_cons_self hline
    · cases hat
  obtain ⟨p, ps, rfl⟩ := List.exists_cons_of_ne_nil hne
  obtain ⟨_, x, rfl, hx, heq⟩ := spells_chain_cons.1 hspells
  refine ⟨x, hx, ?_⟩
  rw [hend, List.append_nil, heq] at htext
  exact htext

/-- A scheme of numbers, below numbers that lie outside the branch of ranges. -/
structure IsScheme (start : String) (ps : List Pattern) : Prop where
  ne_nil : ps ≠ []
  numbers : ∀ p ∈ ps, SpellsNumber p
  dot : start.toList = start.toList.dropLast ++ ['.']
  dotted : IsDotted start.toList.dropLast
  apart : ¬ start.toList <+: rangeStem ∧ ¬ rangeStem <+: start.toList

theorem IsScheme.wellFormedOid {start : String} {ps : List Pattern} (hscheme : IsScheme start ps)
    (hoid : '\n' ∉ oid) (h : (oidScheme start (withDots ps)).occursIn oid = true) :
    WellFormedOid oid := by
  obtain ⟨x, hx, rfl⟩ := exists_spells_of_oidScheme (withDots_ne_nil hscheme.ne_nil) hoid h
  constructor
  · rw [hscheme.dot, List.append_assoc, List.singleton_append, isDotted_append_cons]
    exact ⟨hscheme.dotted, isDotted_of_spells_withDots hscheme.ne_nil hscheme.numbers hx⟩
  · intro rest hrest
    have hstart : start.toList <+: rangeStem ++ rest := ⟨x, hrest⟩
    rcases List.prefix_or_prefix_of_prefix hstart (List.prefix_append _ _) with hpre | hpre
    · exact absurd hpre hscheme.apart.1
    · exact absurd hpre hscheme.apart.2

/-- Schemes begin with the year of the advisory. -/
theorem isScheme_advisory {start : String} {decade : Char} {ps : List Pattern}
    (hdecade : '0' ≤ decade) (hps : ∀ p ∈ ps, SpellsNumber p)
    (hstart : (start.toList = start.toList.dropLast ++ ['.'] ∧ IsDotted start.toList.dropLast) ∧
      ¬ start.toList <+: rangeStem ∧ ¬ rangeStem <+: start.toList) :
    IsScheme start (advisoryYear decade :: ps) :=
  ⟨by simp, List.forall_mem_cons.2 ⟨spellsNumber_advisoryYear hdecade, hps⟩, hstart.1.1, hstart.1.2,
    hstart.2⟩

theorem wellFormedOid_of_firefoxScheme (hoid : '\n' ∉ oid)
    (h : firefoxScheme.occursIn oid = true) : WellFormedOid oid := by
  have hscheme : IsScheme "1.3.6.1.4.1.25623.1.2.1." [advisoryYear '1', asciiDigits 2 (some 3)] :=
    isScheme_advisory (by decide)
      (List.forall_mem_singleton.2 (spellsNumber_asciiDigits _ (by decide))) (by decide)
  exact hscheme.wellFormedOid hoid h

/-- The schemes of vendors are schemes of numbers, too. -/
theorem wellFormedOid_of_vendor {v : Vendor} {scheme : Scheme} (hv : v ∈ vendors)
    (hscheme : v.scheme = some scheme) (hoid : '\n' ∉ oid)
    (h : scheme.pattern.occursIn oid = true) : WellFormedOid oid := by
  suffices hpattern : ∃ start ps, scheme.pattern = oidScheme start (withDots ps) ∧
      IsScheme start ps by
    obtain ⟨start, ps, hpattern, hnumbers⟩ := hpattern
    rw [hpattern] at h
    exact hnumbers.wellFormedOid hoid h
  simp only [vendors, List.mem_cons, List.not_mem_nil, or_false] at hv
  rcases hv with rfl | rfl | rfl | rfl | rfl | rfl | rfl | rfl | rfl | rfl | rfl | rfl | rfl | rfl <;>
    cases hscheme
  · exact ⟨"1.3.6.1.4.1.25623.1.1.2.", [advisoryYear '0', asciiDigits 4 (some 4)], rfl,
      isScheme_advisory (by decide) (by simp [spellsNumber_asciiDigits]) (by decide)⟩
  · exact ⟨"1.3.6.1.4.1.25623.1.1.4.", [advisoryYear '0', asciiDigits 4 (some 5),
      asciiDigits 1 (some 1)], rfl,
      isScheme_advisory (by decide) (by simp [spellsNumber_asciiDigits]) (by decide)⟩
  · exact ⟨"1.3.6.1.4.1.25623.1.1.5.", [advisoryYear '0', asciiDigits 1 none], rfl,
      isScheme_advisory (by decide) (by simp [spellsNumber_asciiDigits]) (by decide)⟩
  · exact ⟨"1.3.6.1.4.1.25623.1.1.10.", [advisoryYear '0', asciiDigits 4 (some 4)], rfl,
      isScheme_advisory (by decide) (by simp [spellsNumber_asciiDigits]) (by decide)⟩
  · exact ⟨"1.3.6.1.4.1.25623.1.1.13.", [advisoryYear '0', asciiDigits 3 (some 4),
      asciiDigits 2 (some 2)], rfl,
      isScheme_advisory (by decide) (by simp [spellsNumber_asciiDigits]) (by decide)⟩

/-! ## The ways to be accepted -/

inductive Unread where
  /-- Nothing: the identifier as a whole follows a scheme. -/
  | nothing
  /-- What stands below the number of a vendor. -/
  | below (rest : List Char)
  /-- What stands behind the number in the branch of ranges. -/
  | behind (rest : List Char)

def Unread.InForm : Unread → Prop
  | nothing => True
  | below rest => IsDotted rest
  | behind rest => rest = []

def IsAssigned (n : Nat) : Prop :=
  ∃ r ∈ assignedRanges, r.1 ≤ n ∧ n ≤ r.2

/-- The ways in which the identifier of a script is accepted, with what they leave unread. -/
inductive Accepted (s : Subject) (t oid : List Char) : Unread → Prop
  | vendor {v : Vendor} {m : Match} {rest : List Char}
      (hfamily : Call.family.pattern.find? t = some m) (horder : InOrder v (m.group "value") oid)
      (hscheme : v.scheme = none) (hoid : oid = vendorStem ++ (v.number.toList ++ '.' :: rest)) :
      Accepted s t oid (.below rest)
  | scheme {v : Vendor} {m : Match} {scheme : Scheme}
      (hfamily : Call.family.pattern.find? t = some m) (horder : InOrder v (m.group "value") oid)
      (hscheme : v.scheme = some scheme) : Accepted s t oid .nothing
  | firefox {m : Match} (hvendor : ¬ vendorStem <:+: oid)
      (hname : Call.name.pattern.find? t = some m)
      (hadvisory : "Mozilla Firefox Security Advisory".toList <+: m.group "value")
      (hscheme : firefoxScheme.occursIn oid = true) : Accepted s t oid .nothing
  | range {n rest : List Char} (hvendor : ¬ vendorStem <:+: oid)
      (hproduct : productStem <:+: oid →
        (Call.name.pattern.find? t).isSome = true ∧ ¬ firefoxStem <:+: oid)
      (hnumber : IsNumber n) (hrest : StartsNoDigit rest) (hoid : oid = rangeStem ++ (n ++ rest))
      (hassigned : s.isAmong oidExempt = true ∨ ∃ k, Text.readNat? n = some k ∧ IsAssigned k) :
      Accepted s t oid (.behind rest)

/-- No two vendors share a number. -/
theorem find?_vendors {v : Vendor} (hv : v ∈ vendors) :
    vendors.find? (·.number == v.number) = some v := by
  have hdistinct : (vendors.map (·.number)).Nodup := by decide
  cases hfind : vendors.find? (·.number == v.number) with
  | none =>
      have := List.find?_eq_none.1 hfind v hv
      simp at this
  | some v' =>
      have hnumber : v'.number = v.number := by simpa using List.find?_some hfind
      rw [List.inj_on_of_nodup_map hdistinct (List.mem_of_find?_eq_some hfind) hv hnumber]

theorem InOrder.judgeVendor {v : Vendor} {family : List Char} (h : InOrder v family oid) :
    judgeVendor v family oid = [] := by
  unfold Checks.judgeVendor
  rw [if_neg (not_not.2 h.family_eq)]
  cases hscheme : v.scheme with
  | none => rfl
  | some scheme => exact if_pos (h.follows scheme hscheme)

theorem judgeVendorBranch_eq_nil_iff :
    judgeVendorBranch t oid = [] ↔
      ∃ m v, Call.family.pattern.find? t = some m ∧ InOrder v (m.group "value") oid := by
  constructor
  · intro h
    cases hfamily : Call.family.pattern.find? t with
    | none =>
        rw [judgeVendorBranch, hfamily] at h
        cases h
    | some m =>
        obtain ⟨v, hv⟩ := exists_inOrder_of_judgeVendorBranch hfamily h
        exact ⟨m, v, rfl, hv⟩
  · rintro ⟨m, v, hfamily, hv⟩
    simp only [judgeVendorBranch, hfamily, hv.number_eq, find?_vendors hv.listed]
    exact hv.judgeVendor

theorem judgeRange_eq_nil_iff :
    judgeRange s oid = .done [] ↔ ∃ n, rangeDigits? oid = some n ∧
      (s.isAmong oidExempt = true ∨ ∃ k, Text.readNat? n = some k ∧ IsAssigned k) := by
  constructor
  · intro h
    unfold judgeRange at h
    split at h
    · cases h
    · rename_i n hn
      refine ⟨n, hn, ?_⟩
      split at h
      · exact Or.inl ‹_›
      · split at h
        · cases h
        · rename_i k hk
          split at h
          · rename_i hany
            obtain ⟨r, hr, hle⟩ := List.any_eq_true.1 hany
            exact Or.inr ⟨k, hk, r, hr, by simpa using hle⟩
          · split at h <;> cases h
  · rintro ⟨n, hn, hcase⟩
    simp only [judgeRange, hn]
    split
    · rfl
    · rename_i hexempt
      obtain ⟨k, hk, r, hr, hle⟩ := hcase.resolve_left hexempt
      simp only [hk]
      exact if_pos (List.any_eq_true.2 ⟨r, hr, by simpa using hle⟩)

/-- In the branch of products, too, what is no Firefox advisory must be a number of the ranges. -/
theorem judgeProductBranch_eq_nil_iff :
    judgeProductBranch s t oid = .done [] ↔ ∃ m, Call.name.pattern.find? t = some m ∧
      (¬ firefoxStem <:+: oid ∧ judgeRange s oid = .done [] ∨
        firefoxStem <:+: oid ∧
        "Mozilla Firefox Security Advisory".toList <+: m.group "value" ∧
        firefoxScheme.occursIn oid = true) := by
  unfold judgeProductBranch firefoxStem
  cases Call.name.pattern.find? t with
  | none => simp [Outcome.done]
  | some m =>
      simp only [Option.some.injEq, exists_eq_left', ← Text.contains_iff, ← List.isPrefixOf_iff_prefix]
      cases Text.contains "1.3.6.1.4.1.25623.1.2.1.".toList oid with
      | false => simp
      | true =>
          cases ("Mozilla Firefox Security Advisory".toList).isPrefixOf (m.group "value") with
          | false => simp [Outcome.done]
          | true => cases firefoxScheme.occursIn oid <;> simp [Outcome.done]

theorem accepted_of_inOrder {v : Vendor} {m : Match} (hfamily : Call.family.pattern.find? t = some m)
    (h : InOrder v (m.group "value") oid) : ∃ unread, Accepted s t oid unread := by
  cases hscheme : v.scheme with
  | none =>
      obtain ⟨-, rest, hoid⟩ := vendorNumber?_eq_some_iff.1 h.number_eq
      exact ⟨_, .vendor hfamily h hscheme hoid⟩
  | some scheme => exact ⟨_, .scheme hfamily h hscheme⟩

theorem accepted_of_judgeRange (hvendor : ¬ vendorStem <:+: oid)
    (hproduct : productStem <:+: oid →
      (Call.name.pattern.find? t).isSome = true ∧ ¬ firefoxStem <:+: oid)
    (h : judgeRange s oid = .done []) : ∃ unread, Accepted s t oid unread := by
  obtain ⟨n, hn, hassigned⟩ := judgeRange_eq_nil_iff.1 h
  obtain ⟨hnumber, rest, hrest, hoid⟩ := rangeDigits?_eq_some_iff.1 hn
  exact ⟨_, .range hvendor hproduct hnumber hrest hoid hassigned⟩

/-- No way to be accepted is missing. -/
theorem exists_accepted_of_judgeOid (h : judgeOid s t = .done []) :
    ∃ oid, oid? t = some oid ∧ ∃ unread, Accepted s t oid unread := by
  unfold judgeOid at h
  split at h
  · cases h
  · rename_i oid hoid
    refine ⟨oid, hoid, ?_⟩
    split at h
    · cases h
    · split at h
      · have hbranch : judgeVendorBranch t oid = [] := congrArg Outcome.results h
        obtain ⟨m, v, hfamily, hv⟩ := judgeVendorBranch_eq_nil_iff.1 hbranch
        exact accepted_of_inOrder hfamily hv
      · rename_i hvendor
        rw [Text.contains_iff] at hvendor
        split at h
        · obtain ⟨m, hname, ⟨hfirefox, hrange⟩ | ⟨-, hadvisory, hscheme⟩⟩ :=
            judgeProductBranch_eq_nil_iff.1 h
          · exact accepted_of_judgeRange hvendor
              (fun _ => ⟨Option.isSome_of_eq_some hname, hfirefox⟩) hrange
          · exact ⟨_, .firefox hvendor hname hadvisory hscheme⟩
        · rename_i hproduct
          rw [Text.contains_iff] at hproduct
          exact accepted_of_judgeRange hvendor (fun hin => absurd hin hproduct) h

/-- Identifiers below the common numbers are judged by their branch. -/
theorem judgeOid_eq (hoid : oid? t = some oid) (hstem : oidStem.toList <:+: oid) :
    judgeOid s t = if Text.contains vendorStem oid then .done (judgeVendorBranch t oid)
      else if Text.contains productStem oid then judgeProductBranch s t oid
      else judgeRange s oid := by
  have hbelow : (!Text.contains oidStem.toList oid) = false := by
    rw [Text.contains_iff.2 hstem, Bool.not_true]
  unfold judgeOid vendorStem productStem
  simp only [hoid]
  rw [hbelow, if_neg Bool.false_ne_true]

theorem judgeOid_of_inOrder {v : Vendor} {m : Match} (hoid : oid? t = some oid)
    (hfamily : Call.family.pattern.find? t = some m) (h : InOrder v (m.group "value") oid) :
    judgeOid s t = .done [] := by
  obtain ⟨-, rest, htext⟩ := vendorNumber?_eq_some_iff.1 h.number_eq
  have hvendor : vendorStem <+: oid := htext ▸ List.prefix_append _ _
  have hstem : oidStem.toList <+: vendorStem := by decide
  rw [judgeOid_eq hoid (hstem.trans hvendor).isInfix,
    if_pos (Text.contains_iff.2 hvendor.isInfix),
    judgeVendorBranch_eq_nil_iff.2 ⟨m, v, hfamily, h⟩]

theorem judgeOid_of_firefoxScheme {m : Match} (hoid : oid? t = some oid)
    (hvendor : ¬ vendorStem <:+: oid) (hname : Call.name.pattern.find? t = some m)
    (hadvisory : "Mozilla Firefox Security Advisory".toList <+: m.group "value")
    (hscheme : firefoxScheme.occursIn oid = true) : judgeOid s t = .done [] := by
  obtain ⟨found, hfound⟩ := Option.isSome_iff_exists.1 hscheme
  obtain ⟨x, y, -, htext⟩ := spells_of_find?_textStart_word hfound
  have hfirefox : firefoxStem <+: oid := htext ▸ List.prefix_append _ _
  have hproduct : productStem <+: firefoxStem := by decide
  have hstem : oidStem.toList <+: firefoxStem := by decide
  rw [judgeOid_eq hoid (hstem.trans hfirefox).isInfix, if_neg (mt Text.contains_iff.1 hvendor),
    if_pos (Text.contains_iff.2 (hproduct.trans hfirefox).isInfix)]
  exact judgeProductBranch_eq_nil_iff.2
    ⟨m, hname, Or.inr ⟨hfirefox.isInfix, hadvisory, hscheme⟩⟩

theorem judgeOid_of_judgeRange (hoid : oid? t = some oid) (hrange : rangeStem <+: oid)
    (hvendor : ¬ vendorStem <:+: oid)
    (hproduct : productStem <:+: oid →
      (Call.name.pattern.find? t).isSome = true ∧ ¬ firefoxStem <:+: oid)
    (h : judgeRange s oid = .done []) : judgeOid s t = .done [] := by
  have hstem : oidStem.toList <+: rangeStem := by decide
  rw [judgeOid_eq hoid (hstem.trans hrange).isInfix, if_neg (mt Text.contains_iff.1 hvendor)]
  split
  · rename_i hin
    obtain ⟨hname, hfirefox⟩ := hproduct (Text.contains_iff.1 hin)
    obtain ⟨m, hm⟩ := Option.isSome_iff_exists.1 hname
    exact judgeProductBranch_eq_nil_iff.2 ⟨m, hm, Or.inl ⟨hfirefox, h⟩⟩
  · exact h

/-- Every way to be accepted is one. -/
theorem judgeOid_of_accepted {unread : Unread} (hoid : oid? t = some oid)
    (h : Accepted s t oid unread) : judgeOid s t = .done [] := by
  cases h with
  | vendor hfamily horder _ _ => exact judgeOid_of_inOrder hoid hfamily horder
  | scheme hfamily horder _ => exact judgeOid_of_inOrder hoid hfamily horder
  | firefox hvendor hname hadvisory hscheme =>
      exact judgeOid_of_firefoxScheme hoid hvendor hname hadvisory hscheme
  | @range n rest hvendor hproduct hnumber hrest htext hassigned =>
      have hdigits : rangeDigits? oid = some n :=
        rangeDigits?_eq_some_iff.2 ⟨hnumber, rest, hrest, htext⟩
      exact judgeOid_of_judgeRange hoid (htext ▸ List.prefix_append _ _) hvendor hproduct
        (judgeRange_eq_nil_iff.2 ⟨n, hdigits, hassigned⟩)

theorem judgeOid_eq_nil_iff :
    judgeOid s t = .done [] ↔ ∃ oid unread, oid? t = some oid ∧ Accepted s t oid unread := by
  constructor
  · intro h
    obtain ⟨oid, hoid, unread, haccepted⟩ := exists_accepted_of_judgeOid h
    exact ⟨oid, unread, hoid, haccepted⟩
  · rintro ⟨oid, unread, hoid, haccepted⟩
    exact judgeOid_of_accepted hoid haccepted

/-! ## Accepted and well formed -/

theorem wellFormedOid_below_iff {n rest : List Char} (hn : IsNumber n) :
    WellFormedOid (vendorStem ++ (n ++ '.' :: rest)) ↔ IsDotted rest := by
  have hstem : vendorStem = vendorStem.dropLast ++ ['.'] := by decide
  have hdotted : IsDotted (vendorStem ++ (n ++ '.' :: rest)) ↔ IsDotted rest := by
    rw [hstem, List.append_assoc, List.singleton_append, isDotted_append_cons, isDotted_append_cons]
    have hnumbers : IsDotted vendorStem.dropLast := by decide
    exact ⟨fun h => h.2.2, fun h => ⟨hnumbers, hn.isDotted, h⟩⟩
  refine ⟨fun h => hdotted.1 h.dotted, fun h => ⟨hdotted.2 h, ?_⟩⟩
  -- the identifier lies in the branch of vendors, and not in the branch of ranges
  intro more hmore
  have hlength : vendorStem.length = rangeStem.length := by decide
  exact absurd (List.append_inj_left hmore hlength) (by decide)

theorem wellFormedOid_behind_iff {n rest : List Char} (hn : IsNumber n) (hrest : StartsNoDigit rest) :
    WellFormedOid (rangeStem ++ (n ++ rest)) ↔ rest = [] := by
  constructor
  · intro h
    cases rest with
    | nil => rfl
    | cons c rest =>
        have hall := (h.one_number _ rfl).2 c (by simp)
        rw [hrest c rest rfl] at hall
        exact Bool.noConfusion hall
  · rintro rfl
    have hstem : rangeStem = rangeStem.dropLast ++ ['.'] := by decide
    rw [List.append_nil]
    refine ⟨?_, fun more hmore => List.append_cancel_left hmore ▸ hn⟩
    rw [hstem, List.append_assoc, List.singleton_append, isDotted_append_cons]
    exact ⟨by decide, hn.isDotted⟩

/-- An accepted identifier is well formed if and only if what was not looked at is in form. -/
theorem wellFormedOid_iff_of_accepted {unread : Unread} (hoid : oid? t = some oid)
    (h : Accepted s t oid unread) : WellFormedOid oid ↔ unread.InForm := by
  have hline : '\n' ∉ oid := by
    intro hmem
    exact absurd (oid?_chars hoid '\n' hmem) (by decide)
  cases h with
  | vendor _ horder _ htext =>
      have hnumber := (vendorNumber?_eq_some_iff.1 horder.number_eq).1
      rw [htext]
      exact wellFormedOid_below_iff hnumber
  | scheme _ horder hscheme =>
      have hwell := wellFormedOid_of_vendor horder.listed hscheme hline (horder.follows _ hscheme)
      exact iff_of_true hwell trivial
  | firefox _ _ _ hscheme => exact iff_of_true (wellFormedOid_of_firefoxScheme hline hscheme) trivial
  | range _ _ hnumber hrest htext _ =>
      rw [htext]
      exact wellFormedOid_behind_iff hnumber hrest

end

/-- **Accepted identifiers.** The check of identifiers has nothing to say about a script if and only if
the identifier is accepted in one of the ways listed. Such an identifier is well formed if and only
if what was left unread is in form: numbers with dots between them below a vendor without a scheme,
nothing at all behind a number of the ranges. -/
theorem validOid_clean_iff {s : Subject} {w : Surroundings} {t : List Char}
    (hfile : s.file.isInclude = false) (htext : s.text = .ok t) :
    validOid.findings s w = .done [] ↔ ∃ oid unread, oid? t = some oid ∧
      Accepted s t oid unread ∧ (WellFormedOid oid ↔ unread.InForm) := by
  have hrun : validOid.run s w = judgeOid s t := by
    simp only [validOid, Subject.withText, htext, Subject.unlessInclude, hfile, Bool.false_eq_true,
      if_false]
  rw [FileCheck.findings_eq_done_nil_iff, hrun, judgeOid_eq_nil_iff]
  constructor
  · rintro ⟨oid, unread, hoid, haccepted⟩
    exact ⟨oid, unread, hoid, haccepted, wellFormedOid_iff_of_accepted hoid haccepted⟩
  · rintro ⟨oid, unread, hoid, haccepted, -⟩
    exact ⟨oid, unread, hoid, haccepted⟩

/-- An advisory of Debian, below whose number any numbers may stand. -/
theorem validOid_clean_of_debian :
    let s := vendorScript "1.3.6.1.4.1.25623.1.1.1.2022.5099.1" "Debian Local Security Checks"
    let w : Surroundings := { tree := .empty, now := default }
    s.file.isInclude = false ∧ validOid.findings s w = .done [] ∧
      ∃ t oid unread, s.text = .ok t ∧ oid? t = some oid ∧ Accepted s t oid unread ∧
        unread.InForm := by
  intro s w
  have hfile : s.file.isInclude = false := by decide
  obtain ⟨t, htext⟩ : ∃ t, s.text = .ok t := ⟨_, rfl⟩
  obtain ⟨hread, hvalid⟩ :
      s.text.map oid? = .ok (some "1.3.6.1.4.1.25623.1.1.1.2022.5099.1".toList) ∧
      validOid.findings s w = .done [] := by
    decide +kernel
  rw [htext] at hread
  obtain ⟨oid, unread, hoid, haccepted, hform⟩ := (validOid_clean_iff hfile htext).1 hvalid
  obtain rfl : "1.3.6.1.4.1.25623.1.1.1.2022.5099.1".toList = oid :=
    Option.some.inj ((Except.ok.inj hread).symm.trans hoid)
  refine ⟨hfile, hvalid, t, _, unread, htext, hoid, haccepted, hform.1 ⟨by decide, ?_⟩⟩
  intro rest hrest
  have hpre : rangeStem <+: "1.3.6.1.4.1.25623.1.1.1.2022.5099.1".toList := ⟨rest, hrest.symm⟩
  exact absurd hpre (by decide)

/-- A dot too many behind a number of the ranges, or below a vendor, is not seen. -/
theorem trailing_dot_accepted :
    let range := "1.3.6.1.4.1.25623.1.0.10000."
    let debian := "1.3.6.1.4.1.25623.1.1.1."
    let w : Surroundings := { tree := .empty, now := default }
    (validOid.findings (vendorScript range "General") w = .done [] ∧
      (vendorScript range "General").text.map oid? = .ok (some range.toList) ∧
      ¬ IsDotted range.toList) ∧
    validOid.findings (vendorScript debian "Debian Local Security Checks") w = .done [] ∧
      (vendorScript debian "Debian Local Security Checks").text.map oid? =
        .ok (some debian.toList) ∧
      ¬ IsDotted debian.toList := by
  decide +kernel

end Checks

end NaslLint
