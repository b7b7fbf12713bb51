import NaslLint.Proofs.Date.Fields

/-!
# Pictures of dates

A date that is written in full has a picture: each of its characters is a digit, a letter or one
certain mark. Reading is more liberal than that, but where a text has the picture of a format there
is one way only to read it, and what is read from it is written in full.

* `DatePart.picture` are the pictures, and `DatePart.Writes` says what is written in full.
* `DateFormat.eq_of_flatten_eq` says that a text with a picture is cut into parts in one way only.
* `DateFormat.forall₂_writes_of_read?` and `DateFormat.read?_of_writes` are the two directions.
-/

namespace NaslLint

open Pattern

/-! ## Pictures -/

inductive Glyph where
  | digit
  | capital
  | small
  | sign
  | char (c : Char)

namespace Glyph

def admits : Glyph → Char → Bool
  | digit, c => Text.isAsciiDigit c
  | capital, c => 'A' ≤ c && c ≤ 'Z'
  | small, c => 'a' ≤ c && c ≤ 'z'
  | sign, c => c == '+' || c == '-'
  | char k, c => c == k

def fits : List Glyph → List Char → Bool
  | [], [] => true
  | k :: ks, c :: cs => k.admits c && fits ks cs
  | _, _ => false

variable {k : Glyph} {ks ls : List Glyph} {x : List Char}

theorem fits_nil : fits [] x = true ↔ x = [] := by
  cases x <;> simp [fits]

theorem fits_cons :
    fits (k :: ks) x = true ↔ ∃ c cs, x = c :: cs ∧ k.admits c = true ∧ fits ks cs = true := by
  cases x <;> simp [fits]

theorem fits_append :
    fits (ks ++ ls) x = true ↔ ∃ y z, x = y ++ z ∧ fits ks y = true ∧ fits ls z = true := by
  induction ks generalizing x with
  | nil => simp [fits_nil]
  | cons k ks ih =>
      constructor
      · intro h
        obtain ⟨c, cs, rfl, hc, hcs⟩ := fits_cons.1 h
        obtain ⟨y, z, rfl, hy, hz⟩ := ih.1 hcs
        exact ⟨c :: y, z, rfl, fits_cons.2 ⟨c, y, rfl, hc, hy⟩, hz⟩
      · rintro ⟨_, z, rfl, hy, hz⟩
        obtain ⟨c, y, rfl, hc, hy⟩ := fits_cons.1 hy
        exact fits_cons.2 ⟨c, y ++ z, rfl, hc, ih.2 ⟨y, z, rfl, hy, hz⟩⟩

/-- Four digits are two and two. -/
theorem fits_four : fits [digit, digit, digit, digit] x = true ↔
    ∃ y z, x = y ++ z ∧ fits [digit, digit] y = true ∧ fits [digit, digit] z = true := by
  rw [← fits_append]
  rfl

theorem length_eq_of_fits (h : fits ks x = true) : x.length = ks.length := by
  induction ks generalizing x with
  | nil => rw [fits_nil.1 h]; rfl
  | cons k ks ih =>
      obtain ⟨c, cs, rfl, -, hcs⟩ := fits_cons.1 h
      rw [List.length_cons, List.length_cons, ih hcs]

end Glyph

/-- An offset in full: a sign, hours and minutes. -/
def IsOffset (x : List Char) : Prop :=
  ∃ sign hours minutes, (sign = '+' ∨ sign = '-') ∧ hours < 24 ∧ minutes < 60 ∧
    x = sign :: (DatePart.twoDigits hours ++ DatePart.twoDigits minutes)

structure DateTime.Proper (t : DateTime) : Prop where
  valid : t.toDate.isValid = true
  hour_lt : t.hour < 24
  minute_lt : t.minute < 60
  second_lt : t.second < 60

namespace DatePart
variable {t : DateTime} {p q : DatePart} {x y z : List Char}

def fourDigits (n : Nat) : List Char :=
  [n / 1000, n / 100 % 10, n / 10 % 10, n % 10].map Nat.digitChar

/-- The text is the part written in full. Years before 1000 have leading zeros, and any offset may
be given. -/
def Writes (t : DateTime) : DatePart → List Char → Prop
  | year, x => x = fourDigits t.year
  | offset, x => IsOffset x
  | p, x => x = p.write t

/-- The picture of a part that is written in full. Names of months have none. -/
def picture : DatePart → List Glyph
  | year => [.digit, .digit, .digit, .digit]
  | month | day | hour | minute | second => [.digit, .digit]
  | offset => [.sign, .digit, .digit, .digit, .digit]
  | weekday | monthAbbreviation => [.capital, .small, .small]
  | gap => [.char ' ']
  | mark c => [.char c]
  | monthName => []

end DatePart

namespace DateFormat
variable {t : DateTime} {f : DateFormat} {x : List Char} {xs ys : List (List Char)}

def picture (f : DateFormat) : List Glyph :=
  f.flatMap DatePart.picture

def Writes (t : DateTime) (f : DateFormat) (x : List Char) : Prop :=
  ∃ ys, List.Forall₂ (DatePart.Writes t) f ys ∧ x = ys.flatten

/-- A text with the picture of a format is made of texts with the pictures of its parts. -/
theorem fits_picture_iff : Glyph.fits f.picture x = true ↔
    ∃ ys, List.Forall₂ (fun p y => Glyph.fits p.picture y = true) f ys ∧ x = ys.flatten := by
  induction f generalizing x with
  | nil =>
      rw [picture, List.flatMap_nil, Glyph.fits_nil]
      constructor
      · rintro rfl
        exact ⟨[], .nil, rfl⟩
      · rintro ⟨ys, hys, rfl⟩
        cases hys
        rfl
  | cons p f ih =>
      rw [picture, List.flatMap_cons, Glyph.fits_append]
      constructor
      · rintro ⟨y, z, rfl, hy, hz⟩
        obtain ⟨ys, hys, rfl⟩ := ih.1 hz
        exact ⟨y :: ys, .cons hy hys, rfl⟩
      · rintro ⟨_, hys, rfl⟩
        cases hys with
        | cons hy hys => exact ⟨_, _, List.flatten_cons, hy, ih.2 ⟨_, hys, rfl⟩⟩

end DateFormat

/-! ## Where a part ends -/

namespace Text

theorem foldCase_of_isDigit {c : Char} (h : isDigit c = true) : foldCase c = c := by
  have hdigits : Ascending digitRanges := by decide
  have hapart : ∀ d ∈ digitRanges, d.2 < 65 ∨ 90 < d.1 := by decide
  obtain ⟨d, hd, hlo, hhi⟩ := (inRanges_iff hdigits _).1 h
  have hcapital : ¬ ('A' ≤ c ∧ c ≤ 'Z') := by
    rintro ⟨hlo', hhi'⟩
    have hlo' : 65 ≤ c.toNat := hlo'
    have hhi' : c.toNat ≤ 90 := hhi'
    have := hapart d hd
    omega
  have hother {k : Char} (hk : isDigit k = false) : c ≠ k := by
    rintro rfl
    rw [hk] at h
    exact Bool.noConfusion h
  have hdotted : c ≠ '\u0130' := hother (by decide)
  have hdotless : c ≠ '\u0131' := hother (by decide)
  have hlong : c ≠ '\u017f' := hother (by decide)
  have hkelvin : c ≠ '\u212a' := hother (by decide)
  simp [foldCase, hcapital, hdotted, hdotless, hlong, hkelvin]

end Text

namespace Glyph
variable {k : Glyph} {ks : List Glyph} {x : List Char} {c : Char}

theorem forall_mem_of_fits {P : Char → Prop} (h : fits ks x = true)
    (hks : ∀ k ∈ ks, ∀ c, k.admits c = true → P c) : ∀ c ∈ x, P c := by
  induction ks generalizing x with
  | nil =>
      rw [fits_nil.1 h]
      simp
  | cons k ks ih =>
      obtain ⟨c, cs, rfl, hc, hcs⟩ := fits_cons.1 h
      obtain ⟨hk, hks⟩ := List.forall_mem_cons.1 hks
      exact List.forall_mem_cons.2 ⟨hk c hc, ih hcs hks⟩

/-- Only a mark can be blank. -/
theorem isBlank_of_admits (h : k.admits c = true) (hk : ∀ d, k = char d → Text.isBlank d = false) :
    Text.isBlank c = false := by
  have hrange {lo hi : Char} (hlo : lo ≤ c) (hhi : c ≤ hi)
      (hapart : ∀ b ∈ Text.blankRanges, b.2 < lo.toNat ∨ hi.toNat < b.1) :
      Text.isBlank c = false := by
    rw [← Bool.not_eq_true]
    intro hblank
    obtain ⟨b, hb, hlo', hhi'⟩ := (Text.inRanges_iff Text.blankRanges_ascending _).1 hblank
    have hlo : lo.toNat ≤ c.toNat := hlo
    have hhi : c.toNat ≤ hi.toNat := hhi
    have := hapart b hb
    omega
  cases k with
  | digit | capital | small =>
      simp only [admits, Text.isAsciiDigit, Bool.and_eq_true, decide_eq_true_eq] at h
      exact hrange h.1 h.2 (by decide)
  | sign =>
      simp only [admits, Bool.or_eq_true, beq_iff_eq] at h
      rcases h with rfl | rfl
      · decide
      · decide
  | char d =>
      obtain rfl : c = d := beq_iff_eq.1 h
      exact hk c rfl

end Glyph

namespace DatePart
variable {p q : DatePart} {y z y' z' r r' : List Char}

/-- The part has one width in whatever way it is read. -/
def hasWidth : DatePart → Bool
  | year | monthAbbreviation | weekday | mark _ => true
  | _ => false

def isStop : DatePart → Bool
  | gap => true
  | mark c => !Text.isDigit c && !Text.isDigit (Text.foldCase c)
  | _ => false

/-- It is clear where the first part ends if the second one follows. -/
def endsBefore (p q : DatePart) : Bool :=
  p.hasWidth || p.isNumber && q.isStop || p == gap && (q.isSolid && q != monthName)

theorem exists_name_of_spells {names : List String}
    (h : (oneOf (names.map fun n => wordAnyCase n.toList)).Spells y) :
    ∃ n ∈ names, List.Forall₂ (fun a b => Text.sameLetter a b = true) n.toList y := by
  obtain ⟨_, hmem, hy⟩ := spells_oneOf.1 h
  obtain ⟨n, hn, rfl⟩ := List.mem_map.1 hmem
  exact ⟨n, hn, hy⟩

theorem length_of_spells (hp : p.hasWidth = true) (h : p.pattern.Spells y) :
    y.length = p.picture.length := by
  have hname {names : List String} (hthree : ∀ n ∈ names, n.toList.length = 3)
      (h : (oneOf (names.map fun n => wordAnyCase n.toList)).Spells y) : y.length = 3 := by
    obtain ⟨n, hn, hsame⟩ := exists_name_of_spells h
    rw [← hsame.length_eq, hthree n hn]
  cases p with
  | year =>
      obtain ⟨_, _, ⟨a, -, rfl⟩, ⟨_, _, ⟨b, -, rfl⟩, ⟨_, _, ⟨c, -, rfl⟩, ⟨d, -, rfl⟩, rfl⟩, rfl⟩,
        rfl⟩ := h
      rfl
  | monthAbbreviation => exact hname (by decide) h
  | weekday => exact hname (by decide) h
  | mark c =>
      have hsame : List.Forall₂ (fun a b => Text.sameLetter a b = true) [c] y := h
      rw [← hsame.length_eq]
      rfl
  | _ => exact Bool.noConfusion hp

theorem isDigit_of_spells_stop (hq : q.isStop = true) (h : q.pattern.Spells z) :
    ∀ c w, z ++ r = c :: w → Text.isDigit c = false := by
  intro c w hcw
  cases q with
  | gap =>
      cases z with
      | nil => exact absurd h.1 (by simp)
      | cons d z =>
          obtain ⟨rfl, -⟩ := List.cons.inj hcw
          exact Text.isDigit_of_isBlank (h.2.2 d (by simp))
  | mark k =>
      rcases h with _ | ⟨hsame, _ | _⟩
      obtain ⟨rfl, -⟩ := List.cons.inj hcw
      simp only [isStop, Bool.and_eq_true, Bool.not_eq_true'] at hq
      rw [← Bool.not_eq_true]
      intro hdigit
      have hfold : Text.foldCase k = Text.foldCase _ := beq_iff_eq.1 hsame
      rw [Text.foldCase_of_isDigit hdigit] at hfold
      rw [hfold, hdigit] at hq
      exact Bool.noConfusion hq.2
  | _ => exact Bool.noConfusion hq

theorem isDigit_of_fits_stop (hq : q.isStop = true) (h : Glyph.fits q.picture z = true) :
    ∀ c w, z ++ r = c :: w → Text.isDigit c = false := by
  intro c w hcw
  have hmark {d : Char} (hd : Text.isDigit d = false) (h : Glyph.fits [.char d] z = true) :
      Text.isDigit c = false := by
    obtain ⟨e, es, rfl, he, -⟩ := Glyph.fits_cons.1 h
    obtain ⟨rfl, -⟩ := List.cons.inj hcw
    obtain rfl : e = d := beq_iff_eq.1 he
    exact hd
  cases q with
  | gap => exact hmark (by decide) h
  | mark k =>
      simp only [isStop, Bool.and_eq_true, Bool.not_eq_true'] at hq
      exact hmark hq.1 h
  | _ => exact Bool.noConfusion hq

theorem isBlank_of_fits_solid (hq : q.isSolid = true) (hname : q ≠ monthName)
    (h : Glyph.fits q.picture z = true) : ∃ c w, z = c :: w ∧ Text.isBlank c = false := by
  have hfirst {k : Glyph} {ks : List Glyph} (h : Glyph.fits (k :: ks) z = true)
      (hk : ∀ d, k = .char d → Text.isBlank d = false) :
      ∃ c w, z = c :: w ∧ Text.isBlank c = false := by
    obtain ⟨c, w, rfl, hc, -⟩ := Glyph.fits_cons.1 h
    exact ⟨c, w, rfl, Glyph.isBlank_of_admits hc hk⟩
  cases q with
  | gap => exact Bool.noConfusion hq
  | monthName => exact absurd rfl hname
  | mark k =>
      apply hfirst h
      intro d hd
      obtain rfl := Glyph.char.inj hd
      simpa [isSolid] using hq
  | _ => exact hfirst h (by simp)

theorem digits_of_fits_number (hp : p.isNumber = true) (h : Glyph.fits p.picture y = true) :
    y ≠ [] ∧ ∀ c ∈ y, Text.isAsciiDigit c = true := by
  have hall : ∀ k ∈ p.picture, ∀ c, k.admits c = true → Text.isAsciiDigit c = true := by
    cases p with
    | year | month | day | hour | minute | second => simp [picture, Glyph.admits]
    | _ => exact Bool.noConfusion hp
  refine ⟨?_, Glyph.forall_mem_of_fits h hall⟩
  rintro rfl
  cases p with
  | year | month | day | hour | minute | second => exact Bool.noConfusion h
  | _ => exact Bool.noConfusion hp

/-- **Where a part ends.** What is read for a part is what has its picture, if the part that follows
makes that clear. -/
theorem eq_of_endsBefore (hpq : p.endsBefore q = true) (hy : p.pattern.Spells y)
    (hz : q.pattern.Spells z) (hy' : Glyph.fits p.picture y' = true)
    (hz' : Glyph.fits q.picture z' = true) (h : y ++ (z ++ r) = y' ++ (z' ++ r')) : y = y' := by
  simp only [endsBefore, Bool.or_eq_true, Bool.and_eq_true, beq_iff_eq, bne_iff_ne] at hpq
  rcases hpq with (hwidth | ⟨hnumber, hstop⟩) | ⟨rfl, hsolid, hname⟩
  · apply List.append_inj_left h
    rw [length_of_spells hwidth hy, Glyph.length_eq_of_fits hy']
  · obtain ⟨hne, hpictured⟩ := digits_of_fits_number hnumber hy'
    rcases digits_of_spells hnumber hy with ⟨-, hdigits⟩ | ⟨-, d, -, rfl⟩
    · exact (Text.eq_of_append_eq_append hdigits
        (fun c hc => Text.isDigit_of_isAsciiDigit (hpictured c hc)) (isDigit_of_spells_stop hstop hz)
        (isDigit_of_fits_stop hstop hz') h).1
    · -- a day that begins with a blank has no picture
      obtain ⟨c, cs, rfl⟩ := List.exists_cons_of_ne_nil hne
      obtain ⟨rfl, -⟩ := List.cons.inj h
      exact absurd (hpictured ' ' (by simp)) (by decide)
  · obtain ⟨c, w, rfl, hblank⟩ := isBlank_of_fits_solid hsolid hname hz'
    obtain ⟨d, ds, rfl, hd, hnil⟩ := Glyph.fits_cons.1 hy'
    obtain rfl := Glyph.fits_nil.1 hnil
    cases y with
    | nil => exact absurd hy.1 (by simp)
    | cons b bs =>
        obtain ⟨rfl, hrest⟩ := List.cons.inj h
        cases bs with
        | nil => rfl
        | cons b' bs =>
            -- a second blank would be the start of the next part
            obtain ⟨rfl, -⟩ := List.cons.inj hrest
            rw [hy.2.2 b' (by simp)] at hblank
            exact Bool.noConfusion hblank

end DatePart

namespace DateFormat
variable {f : DateFormat} {xs ys : List (List Char)}

def isCut : DateFormat → Bool
  | p :: q :: f => p.endsBefore q && isCut (q :: f)
  | _ => true

/-- **One cut.** A text with the picture of a format is read in the parts that the picture has. -/
theorem eq_of_flatten_eq (hf : f.isCut = true)
    (hxs : List.Forall₂ (fun p y => p.pattern.Spells y) f xs)
    (hys : List.Forall₂ (fun p y => Glyph.fits p.picture y = true) f ys)
    (h : xs.flatten = ys.flatten) : xs = ys := by
  induction f generalizing xs ys with
  | nil =>
      cases hxs
      cases hys
      rfl
  | cons p f ih =>
      cases hxs with
      | @cons _ y _ xs hy hxs =>
      cases hys with
      | @cons _ y' _ ys hy' hys =>
      rw [List.flatten_cons, List.flatten_cons] at h
      cases f with
      | nil =>
          cases hxs
          cases hys
          simpa using h
      | cons q f =>
          rw [isCut, Bool.and_eq_true] at hf
          have heq : y = y' := by
            cases hxs with
            | cons hz hzs =>
            cases hys with
            | cons hz' hzs' => exact DatePart.eq_of_endsBefore hf.1 hy hz hy' hz' h
          subst heq
          rw [ih hf.2 hxs hys (List.append_cancel_left h)]

end DateFormat

/-! ## What is read from a picture -/

namespace Text

theorem exists_digits_of_isAsciiDigit {y : List Char} (h : ∀ c ∈ y, isAsciiDigit c = true) :
    ∃ ds : List Nat, (∀ d ∈ ds, d < 10) ∧ y = ds.map Nat.digitChar := by
  have hdigit {c : Char} (hc : isAsciiDigit c = true) : 48 ≤ c.toNat ∧ c.toNat ≤ 57 := by
    rw [isAsciiDigit, Bool.and_eq_true, decide_eq_true_eq, decide_eq_true_eq] at hc
    exact hc
  refine ⟨y.map fun c => c.toNat - 48, ?_, ?_⟩
  · intro d hd
    obtain ⟨c, hc, rfl⟩ := List.mem_map.1 hd
    have := hdigit (h c hc)
    omega
  · rw [List.map_map]
    refine (List.map_id y).symm.trans (List.map_congr_left fun c hc => ?_)
    have hbounds := hdigit (h c hc)
    apply Char.toNat_inj.1
    change c.toNat = (Nat.digitChar (c.toNat - 48)).toNat
    rw [Nat.toNat_digitChar_of_lt_ten (by omega)]
    omega

theorem toNat_toLower_of_capital {c : Char} (hlo : 'A' ≤ c) (hhi : c ≤ 'Z') :
    c.toLower.toNat = c.toNat + 32 := by
  have htable : ∀ n < 26, (Char.ofNat (65 + n)).toLower.toNat = 65 + n + 32 := by decide
  have hlo : 65 ≤ c.toNat := hlo
  have hhi : c.toNat ≤ 90 := hhi
  have hc := htable (c.toNat - 65) (by omega)
  rwa [Nat.add_sub_cancel' hlo, Char.ofNat_toNat] at hc

theorem toLower_of_small {c : Char} (hlo : 'a' ≤ c) (hhi : c ≤ 'z') : c.toLower = c := by
  have htable : ∀ n < 26, (Char.ofNat (97 + n)).toLower = Char.ofNat (97 + n) := by decide
  have hlo : 97 ≤ c.toNat := hlo
  have hhi : c.toNat ≤ 122 := hhi
  have hc := htable (c.toNat - 97) (by omega)
  rwa [Nat.add_sub_cancel' hlo, Char.ofNat_toNat] at hc

end Text

/-- Two texts with the same picture of letters that are the same up to case are the same. -/
theorem Glyph.eq_of_toLower {ks : List Glyph} {x y : List Char}
    (hks : ∀ k ∈ ks, k = .capital ∨ k = .small) (hx : fits ks x = true) (hy : fits ks y = true)
    (h : x.map Char.toLower = y.map Char.toLower) : x = y := by
  induction ks generalizing x y with
  | nil => rw [fits_nil.1 hx, fits_nil.1 hy]
  | cons k ks ih =>
      obtain ⟨hk, hks⟩ := List.forall_mem_cons.1 hks
      obtain ⟨c, cs, rfl, hc, hcs⟩ := fits_cons.1 hx
      obtain ⟨d, ds, rfl, hd, hds⟩ := fits_cons.1 hy
      obtain ⟨hhead, htail⟩ := List.cons.inj h
      have heq : c = d := by
        rcases hk with rfl | rfl
        · simp only [admits, Bool.and_eq_true, decide_eq_true_eq] at hc hd
          have hnat := congrArg Char.toNat hhead
          rw [Text.toNat_toLower_of_capital hc.1 hc.2, Text.toNat_toLower_of_capital hd.1 hd.2] at hnat
          exact Char.toNat_inj.1 (Nat.add_right_cancel hnat)
        · simp only [admits, Bool.and_eq_true, decide_eq_true_eq] at hc hd
          rwa [Text.toLower_of_small hc.1 hc.2, Text.toLower_of_small hd.1 hd.2] at hhead
      rw [heq, ih hks hcs hds htail]

namespace DatePart
variable {t : DateTime} {p : DatePart} {y : List Char} {n a b : Nat}

theorem exists_two_of_fits (h : Glyph.fits [.digit, .digit] y = true) :
    ∃ a b, a < 10 ∧ b < 10 ∧ y = [a, b].map Nat.digitChar := by
  obtain ⟨ds, hds, rfl⟩ := Text.exists_digits_of_isAsciiDigit
    (Glyph.forall_mem_of_fits h (by simp [Glyph.admits]))
  have hlength := Glyph.length_eq_of_fits h
  rw [List.length_map] at hlength
  obtain ⟨a, b, rfl⟩ := List.length_eq_two.1 hlength
  exact ⟨a, b, hds a (by simp), hds b (by simp), rfl⟩

theorem readNat?_two (ha : a < 10) (hb : b < 10) :
    Text.readNat? ([a, b].map Nat.digitChar) = some (10 * a + b) := by
  rw [Text.readNat?_map_digitChar (by simp) (by simp [ha, hb]) (by simp [Text.maxIntegerDigits])]
  simp [Text.ofDigits]

theorem readNat?_trim_two (ha : a < 10) (hb : b < 10) :
    Text.readNat? (Text.trim ([a, b].map Nat.digitChar)) = some (10 * a + b) := by
  rw [Text.readNat?_trim_map_digitChar (by simp) (by simp [ha, hb]) (by simp [Text.maxIntegerDigits])]
  simp [Text.ofDigits]

/-- Two digits are the number that is read from them, written in full. -/
theorem eq_twoDigits_of_fits (h : Glyph.fits [.digit, .digit] y = true)
    (hn : Text.readNat? (Text.trim y) = some n) : y = twoDigits n := by
  obtain ⟨a, b, ha, hb, rfl⟩ := exists_two_of_fits h
  rw [readNat?_trim_two ha hb] at hn
  obtain rfl := Option.some.inj hn
  rw [twoDigits_eq (by omega)]
  have htens : (10 * a + b) / 10 = a := by omega
  have hones : (10 * a + b) % 10 = b := by omega
  rw [htens, hones]

theorem eq_fourDigits_of_fits (h : Glyph.fits year.picture y = true)
    (hn : Text.readNat? (Text.trim y) = some n) : y = fourDigits n := by
  obtain ⟨u, v, rfl, hu, hv⟩ := Glyph.fits_four.1 h
  obtain ⟨a, b, ha, hb, rfl⟩ := exists_two_of_fits hu
  obtain ⟨c, d, hc, hd, rfl⟩ := exists_two_of_fits hv
  rw [← List.map_append, Text.readNat?_trim_map_digitChar (by simp) (by simp [ha, hb, hc, hd])
    (by simp [Text.maxIntegerDigits])] at hn
  obtain rfl : 10 * (10 * (10 * (10 * 0 + a) + b) + c) + d = n := Option.some.inj hn
  rw [← List.map_append, fourDigits]
  congr 1
  simp only [List.cons_append, List.nil_append, List.cons.injEq, and_true]
  omega

/-- What is read as an hour or a minute has its bound. -/
theorem hour_lt_of_spells (ha : a < 10) (hb : b < 10)
    (h : hour.pattern.Spells ([a, b].map Nat.digitChar)) : 10 * a + b < 24 := by
  have htwo : ∀ d < 10, Nat.digitChar d = '2' → d = 2 := by decide
  have hthree : ∀ d < 10, Nat.digitChar d ≤ '3' → d ≤ 3 := by decide
  have hone : ∀ d < 10, Nat.digitChar d ≤ '1' → d ≤ 1 := by decide
  rcases h with ⟨_, _, rfl, ⟨c, hc, rfl⟩, heq⟩ | ⟨_, _, ⟨c, hc, rfl⟩, ⟨d, -, rfl⟩, heq⟩ | ⟨c, -, heq⟩
  · obtain ⟨hfirst, hsecond⟩ : Nat.digitChar a = '2' ∧ Nat.digitChar b = c := by simpa using heq
    rw [← hsecond, Bool.and_eq_true, decide_eq_true_eq, decide_eq_true_eq] at hc
    have := htwo a ha hfirst
    have := hthree b hb hc.2
    omega
  · obtain ⟨hfirst, -⟩ : Nat.digitChar a = c ∧ Nat.digitChar b = d := by simpa using heq
    rw [← hfirst, Bool.and_eq_true, decide_eq_true_eq, decide_eq_true_eq] at hc
    have := hone a ha hc.2
    omega
  · simp at heq

theorem minute_lt_of_spells (ha : a < 10) (hb : b < 10)
    (h : minute.pattern.Spells ([a, b].map Nat.digitChar)) : 10 * a + b < 60 := by
  have hfive : ∀ d < 10, Nat.digitChar d ≤ '5' → d ≤ 5 := by decide
  rcases h with ⟨_, _, ⟨c, hc, rfl⟩, ⟨d, -, rfl⟩, heq⟩ | ⟨c, -, heq⟩
  · obtain ⟨hfirst, -⟩ : Nat.digitChar a = c ∧ Nat.digitChar b = d := by simpa using heq
    rw [← hfirst, Bool.and_eq_true, decide_eq_true_eq, decide_eq_true_eq] at hc
    have := hfive a ha hc.2
    omega
  · simp at heq

theorem hours_lt_of_offsetIsValid {sign m₁ m₂ : Char} (ha : a < 10) (hb : b < 10)
    (h : DateFormat.offsetIsValid (sign :: ([a, b].map Nat.digitChar ++ [m₁, m₂])) = true) :
    10 * a + b < 24 := by
  have hread := readNat?_two ha hb
  unfold DateFormat.offsetIsValid at h
  split at h
  · rename_i heq
    simp at heq
  · rename_i heq
    simp at heq
  · rename_i heq
    simp only [List.map_cons, List.map_nil, List.cons_append, List.nil_append,
      List.cons.injEq] at heq hread
    obtain ⟨-, rfl, rfl, -⟩ := heq
    rw [hread] at h
    simpa using (Bool.and_eq_true_iff.1 h).2
  · cases h

theorem minutes_lt_of_spells {sign h₁ h₂ m₂ : Char} {c : Nat} (hc : c < 10)
    (h : offset.pattern.Spells [sign, h₁, h₂, Nat.digitChar c, m₂]) : c < 6 := by
  have hfive : ∀ d < 10, Nat.digitChar d ≤ '5' → d < 6 := by decide
  rcases h with ⟨_, _, ⟨_, -, rfl⟩, ⟨_, _, ⟨_, -, rfl⟩, ⟨_, _, ⟨_, -, rfl⟩, ⟨colon, _, hoptional,
    ⟨_, _, ⟨_, _, ⟨m, hm, rfl⟩, ⟨_, -, rfl⟩, rfl⟩, -, rfl⟩, rfl⟩, rfl⟩, rfl⟩, heq⟩ | h
  · rcases spells_optional.1 hoptional with rfl | rfl
    · simp only [List.cons_append, List.nil_append, List.cons.injEq] at heq
      obtain ⟨-, -, -, rfl, -⟩ := heq
      rw [Bool.and_eq_true, decide_eq_true_eq, decide_eq_true_eq] at hm
      exact hfive c hc hm.2
    · simp at heq
  · have hlength := congrArg List.length (spells_word.1 h)
    simp at hlength

theorem isOffset_of_fits (h : Glyph.fits offset.picture y = true) (hspells : offset.pattern.Spells y)
    (hvalid : DateFormat.offsetIsValid y = true) : IsOffset y := by
  obtain ⟨sign, w, rfl, hsign, hw⟩ := Glyph.fits_cons.1 h
  obtain ⟨u, v, rfl, hu, hv⟩ := Glyph.fits_four.1 hw
  obtain ⟨a, b, ha, hb, rfl⟩ := exists_two_of_fits hu
  obtain ⟨c, d, hc, hd, rfl⟩ := exists_two_of_fits hv
  simp only [Glyph.admits, Bool.or_eq_true, beq_iff_eq] at hsign
  have hminutes : c < 6 := minutes_lt_of_spells hc hspells
  refine ⟨sign, 10 * a + b, 10 * c + d, hsign, hours_lt_of_offsetIsValid ha hb hvalid, by omega, ?_⟩
  rw [← eq_twoDigits_of_fits hu (readNat?_trim_two ha hb),
    ← eq_twoDigits_of_fits hv (readNat?_trim_two hc hd)]

theorem fits_monthAbbreviations : ∀ i < 12, Glyph.fits monthAbbreviation.picture
    (Date.monthAbbreviations.getD i "").toList = true := by
  decide

theorem eq_monthAbbreviation_of_fits (h : Glyph.fits monthAbbreviation.picture y = true)
    (hn : DateFormat.nameNumber? Date.monthAbbreviations y = some t.month) :
    y = monthAbbreviation.write t := by
  obtain ⟨i, hi, hmonth⟩ := Option.map_eq_some_iff.1 hn
  obtain ⟨hlt, hsame, -⟩ := List.findIdx?_eq_some_iff_getElem.1 hi
  have hget : Date.monthAbbreviations.getD (t.month - 1) "" = Date.monthAbbreviations[i] := by
    rw [← hmonth, Nat.add_sub_cancel, List.getD_eq_getElem?_getD, List.getElem?_eq_getElem hlt,
      Option.getD_some]
  rw [write, hget]
  apply Glyph.eq_of_toLower (by simp [picture]) h
  · rw [← hget, ← hmonth, Nat.add_sub_cancel]
    exact fits_monthAbbreviations i hlt
  · exact (beq_iff_eq.1 hsame).symm

end DatePart

namespace DateFormat
variable {t : DateTime} {f : DateFormat} {p : DatePart} {x y : List Char} {m : Match}

/-- A text with its picture from which a part of a time is read is that part in full. The weekday is
not compared with the time. -/
theorem Tells.writes (h : Tells m t) (hname : m.group? DatePart.monthName.label = none)
    (hmonth : p = .month → m.group? DatePart.monthAbbreviation.label = none)
    (hfits : Glyph.fits p.picture y = true) (hspells : p.pattern.Spells y)
    (hgroup : p.isField = true → m.group? p.label = some y) (hp : p ≠ .weekday) : p.Writes t y := by
  have hmark {c : Char} (hfits : Glyph.fits [.char c] y = true) : y = [c] := by
    obtain ⟨d, ds, rfl, hd, hds⟩ := Glyph.fits_cons.1 hfits
    rw [Glyph.fits_nil.1 hds, beq_iff_eq.1 hd]
  have htwo {n default : Nat} (hfield : p.isField = true) (hpicture : p.picture = [.digit, .digit])
      (hread : numberOf? m p default = some n) : y = DatePart.twoDigits n := by
    rw [numberOf?_of_some (hgroup hfield)] at hread
    rw [hpicture] at hfits
    exact DatePart.eq_twoDigits_of_fits hfits hread
  cases p with
  | year =>
      have hread := h.year
      rw [numberOf?_of_some (hgroup rfl)] at hread
      exact DatePart.eq_fourDigits_of_fits hfits hread
  | month =>
      have hread := h.month
      simp only [monthOf?, hname, hmonth rfl] at hread
      exact htwo rfl rfl hread
  | monthAbbreviation =>
      have hread := h.month
      simp only [monthOf?, hname, hgroup rfl] at hread
      exact DatePart.eq_monthAbbreviation_of_fits hfits hread
  | day => exact htwo rfl rfl h.day
  | hour => exact htwo rfl rfl h.hour
  | minute => exact htwo rfl rfl h.minute
  | second => exact htwo rfl rfl h.second
  | offset =>
      have hvalid := (Bool.and_eq_true_iff.1 h.possible).1
      rw [hgroup rfl] at hvalid
      exact DatePart.isOffset_of_fits hfits hspells hvalid
  | gap => exact hmark hfits
  | mark c => exact hmark hfits
  | weekday => exact absurd rfl hp
  | monthName =>
      rw [hgroup rfl] at hname
      exact absurd hname (by simp)

theorem exists_mem_zip {xs : List (List Char)} (hlength : f.length = xs.length) (hp : p ∈ f) :
    ∃ y, (p, y) ∈ f.zip xs := by
  obtain ⟨i, hi, rfl⟩ := List.getElem_of_mem hp
  have hi' : i < (f.zip xs).length := by
    rw [List.length_zip]
    omega
  exact ⟨xs[i], List.getElem_zip (h := hi') ▸ List.getElem_mem hi'⟩

theorem group?_eq_none {xs : List (List Char)}
    (hm : ∀ name, m.group? name = (labelled f xs).lookup name) (hfield : p.isField = true)
    (hp : p ∉ f) : m.group? p.label = none := by
  rw [hm, lookup_labelled_eq_none hfield hp]

/-- Formats whose parts are told apart by their pictures, each of them at most once, with one way to
state the month. -/
structure Strict (f : DateFormat) : Prop where
  cut : f.isCut = true
  once : f.Pairwise fun p q => p.isField = true → p ≠ q
  no_monthName : .monthName ∉ f
  one_month : .month ∈ f → .monthAbbreviation ∉ f

/-- **Reading a picture.** What is read from a text with the picture of a format stands there in full,
but for the weekday, and it is a time that exists. -/
theorem forall₂_writes_of_read? (hf : f.Strict) (hne : f ≠ []) (hfits : Glyph.fits f.picture x = true)
    (h : f.read? x = some t) :
    ∃ ys, List.Forall₂ (fun p y => Glyph.fits p.picture y = true ∧ (p ≠ .weekday → p.Writes t y)) f ys ∧
      x = ys.flatten ∧ (.hour ∈ f → t.hour < 24) ∧ (.minute ∈ f → t.minute < 60) ∧
      t.toDate.isValid = true ∧ t.second < 60 := by
  obtain ⟨xs, m, hxs, rfl, hgroup, htells, hvalid, hsecond⟩ := exists_texts_of_read? hne h
  obtain ⟨ys, hys, hflatten⟩ := fits_picture_iff.1 hfits
  obtain rfl := eq_of_flatten_eq hf.cut hxs hys hflatten
  obtain ⟨hlength, hspells⟩ := List.forall₂_iff_zip.1 hxs
  obtain ⟨-, hpicture⟩ := List.forall₂_iff_zip.1 hys
  have hfield {p : DatePart} {y : List Char} (hp : p.isField = true) (hmem : (p, y) ∈ f.zip xs) :
      m.group? p.label = some y := by
    rw [hgroup, lookup_labelled hp hf.once hmem]
  -- the two digits of a number, as they are read
  have hnumber {p : DatePart} {default n : Nat} (hp : p ∈ f) (hisField : p.isField = true)
      (htwo : p.picture = [.digit, .digit]) (hn : numberOf? m p default = some n) :
      ∃ a b, a < 10 ∧ b < 10 ∧ p.pattern.Spells ([a, b].map Nat.digitChar) ∧ n = 10 * a + b := by
    obtain ⟨y, hmem⟩ := exists_mem_zip hlength hp
    have hdigits := hpicture hmem
    rw [htwo] at hdigits
    obtain ⟨a, b, ha, hb, hab⟩ := DatePart.exists_two_of_fits hdigits
    rw [numberOf?_of_some (hfield hisField hmem), hab, DatePart.readNat?_trim_two ha hb] at hn
    exact ⟨a, b, ha, hb, hab ▸ hspells hmem, (Option.some.inj hn).symm⟩
  refine ⟨xs, List.forall₂_iff_zip.2 ⟨hlength, ?_⟩, rfl, ?_, ?_, hvalid, by omega⟩
  · intro p y hmem
    refine ⟨hpicture hmem, fun hp => ?_⟩
    exact htells.writes (group?_eq_none hgroup rfl hf.no_monthName)
      (fun hmonth => group?_eq_none hgroup rfl (hf.one_month (hmonth ▸ (List.of_mem_zip hmem).1)))
      (hpicture hmem) (hspells hmem) (fun hp => hfield hp hmem) hp
  · intro hhour
    obtain ⟨a, b, ha, hb, hab, hn⟩ := hnumber hhour rfl rfl htells.hour
    rw [hn]
    exact DatePart.hour_lt_of_spells ha hb hab
  · intro hminute
    obtain ⟨a, b, ha, hb, hab, hn⟩ := hnumber hminute rfl rfl htells.minute
    rw [hn]
    exact DatePart.minute_lt_of_spells ha hb hab

end DateFormat

/-! ## What is written in full -/

namespace DatePart
variable {t : DateTime} {p : DatePart} {y r : List Char} {g : List (String × List Char)}

theorem fits_two {a b : Nat} (ha : a < 10) (hb : b < 10) :
    Glyph.fits [.digit, .digit] ([a, b].map Nat.digitChar) = true := by
  simp [Glyph.fits, Glyph.admits, Text.digitChar_facts a ha, Text.digitChar_facts b hb]

theorem fits_twoDigits {n : Nat} (hn : n < 100) :
    Glyph.fits [.digit, .digit] (twoDigits n) = true := by
  rw [twoDigits_eq hn]
  exact fits_two (by omega) (by omega)

/-- What is written in full has its picture. -/
theorem Writes.fits (h : p.Writes t y) (ht : t.Proper) (hp : p ≠ monthName) :
    Glyph.fits p.picture y = true := by
  obtain ⟨⟨-, hyear⟩, ⟨hmonth, hmonth'⟩, -, -⟩ := Date.isValid_iff.1 ht.valid
  have hday := Date.day_le_of_isValid ht.valid
  have hhour := ht.hour_lt
  have hminute := ht.minute_lt
  have hsecond := ht.second_lt
  have hdays : ∀ i < 7, Glyph.fits [.capital, .small, .small]
      (Date.weekdayNames.getD i "").toList = true := by
    decide
  cases p with
  | year =>
      obtain rfl : y = fourDigits t.year := h
      have hpairs : fourDigits t.year = [t.year / 1000, t.year / 100 % 10].map Nat.digitChar ++
          [t.year / 10 % 10, t.year % 10].map Nat.digitChar := rfl
      exact Glyph.fits_four.2
        ⟨_, _, hpairs, fits_two (by omega) (by omega), fits_two (by omega) (by omega)⟩
  | month =>
      obtain rfl : y = twoDigits t.month := h
      exact fits_twoDigits (by omega)
  | day =>
      obtain rfl : y = twoDigits t.day := h
      exact fits_twoDigits (by omega)
  | hour =>
      obtain rfl : y = twoDigits t.hour := h
      exact fits_twoDigits (by omega)
  | minute =>
      obtain rfl : y = twoDigits t.minute := h
      exact fits_twoDigits (by omega)
  | second =>
      obtain rfl : y = twoDigits t.second := h
      exact fits_twoDigits (by omega)
  | offset =>
      obtain ⟨sign, hours, minutes, hsign, hhours, hminutes, rfl⟩ := h
      refine Glyph.fits_cons.2 ⟨sign, _, rfl, by simpa [Glyph.admits] using hsign, ?_⟩
      exact Glyph.fits_four.2 ⟨_, _, rfl, fits_twoDigits (by omega), fits_twoDigits (by omega)⟩
  | monthAbbreviation =>
      obtain rfl : y = monthAbbreviation.write t := h
      exact fits_monthAbbreviations _ (by omega)
  | weekday =>
      obtain rfl : y = weekday.write t := h
      exact hdays _ (Nat.mod_lt _ (by decide))
  | gap =>
      obtain rfl : y = [' '] := h
      rfl
  | mark c =>
      obtain rfl : y = [c] := h
      exact Glyph.fits_cons.2 ⟨c, [], rfl, beq_self_eq_true c, rfl⟩
  | monthName => exact absurd rfl hp

/-- The parts of the day are those of every time on that day. -/
theorem Writes.of_toDate_eq {t' : DateTime} (h : p.Writes t y) (hsame : t.toDate = t'.toDate)
    (hp : p ≠ hour ∧ p ≠ minute ∧ p ≠ second) : p.Writes t' y := by
  have hyear : t.year = t'.year := congrArg Date.year hsame
  have hmonth : t.month = t'.month := congrArg Date.month hsame
  have hday : t.day = t'.day := congrArg Date.day hsame
  cases p with
  | hour => exact absurd rfl hp.1
  | minute => exact absurd rfl hp.2.1
  | second => exact absurd rfl hp.2.2
  | offset => exact h
  | _ => simpa only [Writes, write, hyear, hmonth, hday, hsame] using h

/-- What is written in full is taken by the pattern of the part. -/
theorem Writes.takes (h : p.Writes t y) (ht : t.Proper) (hr : p.MayPrecede r) :
    Takes p.pattern y r g g := by
  obtain ⟨⟨-, hyear⟩, ⟨hmonth, hmonth'⟩, hday, -⟩ := Date.isValid_iff.1 ht.valid
  cases p with
  | year =>
      obtain rfl : y = fourDigits t.year := h
      exact (takes_anyDigit (by omega)).seq ((takes_anyDigit (by omega)).seq
        ((takes_anyDigit (by omega)).seq (takes_anyDigit (by omega))))
  | offset =>
      obtain ⟨sign, hours, minutes, hsign, hhours, hminutes, rfl⟩ := h
      rw [twoDigits_eq (by omega), twoDigits_eq (by omega)]
      exact takes_signedOffset hsign (by omega) (by omega) (by omega) (by omega) hr
  | gap =>
      obtain rfl : y = [' '] := h
      exact takes_someBlanks (by simp) (List.forall_mem_singleton.2 (by decide)) hr
  | month =>
      obtain rfl : y = month.write t := h
      exact takes_month hmonth hmonth'
  | monthName =>
      obtain rfl : y = monthName.write t := h
      exact takes_monthName hmonth hmonth'
  | monthAbbreviation =>
      obtain rfl : y = monthAbbreviation.write t := h
      exact takes_monthAbbreviation hmonth hmonth'
  | day =>
      obtain rfl : y = day.write t := h
      exact takes_day hday (Date.day_le_of_isValid ht.valid)
  | hour =>
      obtain rfl : y = hour.write t := h
      exact takes_hour ht.hour_lt
  | minute =>
      obtain rfl : y = minute.write t := h
      exact takes_minute ht.minute_lt
  | second =>
      obtain rfl : y = second.write t := h
      exact takes_second ht.second_lt
  | weekday =>
      obtain rfl : y = weekday.write t := h
      exact takes_weekday
  | mark c =>
      obtain rfl : y = [c] := h
      exact takes_wordAnyCase

theorem readNat?_fourDigits {n : Nat} (hn : n < 10000) :
    Text.readNat? (Text.trim (fourDigits n)) = some n := by
  rw [fourDigits, Text.readNat?_trim_map_digitChar (by simp) (by simp; omega)
    (by simp [Text.maxIntegerDigits])]
  simp [Text.ofDigits]
  omega

theorem offsetIsValid_of_isOffset (h : IsOffset y) : DateFormat.offsetIsValid y = true := by
  obtain ⟨sign, hours, minutes, -, hhours, hminutes, rfl⟩ := h
  rw [twoDigits_eq (by omega), twoDigits_eq (by omega)]
  have hread : Text.readNat? ([hours / 10, hours % 10].map Nat.digitChar) = some hours := by
    rw [readNat?_two (by omega) (by omega), Nat.div_add_mod]
  unfold DateFormat.offsetIsValid
  split
  · rfl
  · rename_i heq
    simp at heq
  · rename_i heq
    simp only [List.map_cons, List.map_nil, List.cons_append, List.nil_append,
      List.cons.injEq] at heq hread
    obtain ⟨-, rfl, rfl, -, -, rfl⟩ := heq
    rw [hread]
    simpa using hhours
  · rename_i hother
    exact absurd rfl (hother _ _ _ _ _ _)

end DatePart

namespace DateFormat
variable {t : DateTime} {f : DateFormat} {x : List Char} {ys : List (List Char)} {m : Match}

theorem Writes.fits (h : f.Writes t x) (ht : t.Proper) (hname : .monthName ∉ f) :
    Glyph.fits f.picture x = true := by
  obtain ⟨ys, hys, rfl⟩ := h
  obtain ⟨hlength, hwrites⟩ := List.forall₂_iff_zip.1 hys
  refine fits_picture_iff.2 ⟨ys, List.forall₂_iff_zip.2 ⟨hlength, ?_⟩, rfl⟩
  intro p y hmem
  apply (hwrites hmem).fits ht
  rintro rfl
  exact hname (List.of_mem_zip hmem).1

theorem writes_cons {p : DatePart} :
    Writes t (p :: f) x ↔ ∃ y z, x = y ++ z ∧ p.Writes t y ∧ f.Writes t z := by
  constructor
  · rintro ⟨_, hys, rfl⟩
    cases hys with
    | cons hy hys => exact ⟨_, _, List.flatten_cons, hy, _, hys, rfl⟩
  · rintro ⟨y, _, rfl, hy, ys, hys, rfl⟩
    exact ⟨y :: ys, .cons hy hys, rfl⟩

theorem writes_append {g : DateFormat} :
    Writes t (f ++ g) x ↔ ∃ y z, x = y ++ z ∧ f.Writes t y ∧ g.Writes t z := by
  constructor
  · rintro ⟨ys, hys, rfl⟩
    induction f generalizing ys with
    | nil => exact ⟨[], _, rfl, ⟨[], .nil, rfl⟩, ys, hys, rfl⟩
    | cons p f ih =>
        cases hys with
        | @cons _ y _ ys hy hys =>
            obtain ⟨u, v, huv, hu, hv⟩ := ih ys hys
            refine ⟨y ++ u, v, ?_, writes_cons.2 ⟨y, u, rfl, hy, hu⟩, hv⟩
            rw [List.flatten_cons, huv, List.append_assoc]
  · rintro ⟨_, _, rfl, ⟨us, hus, rfl⟩, vs, hvs, rfl⟩
    exact ⟨us ++ vs, List.rel_append hus hvs, List.flatten_append.symm⟩

/-- Texts in full are taken part by part: a gap stands before something solid, and an offset at the
end. -/
theorem taken_of_writes (ht : t.Proper) (hf : f.isCut = true)
    (h : List.Forall₂ (DatePart.Writes t) f ys) : Taken f ys := by
  induction f generalizing ys with
  | nil =>
      cases h
      exact .nil
  | cons p f ih =>
      cases h with
      | @cons _ y _ ys hy hys =>
      cases f with
      | nil =>
          cases hys
          refine .cons (fun g => hy.takes ht ?_) .nil
          cases p <;> simp [DatePart.MayPrecede]
      | cons q f =>
          rw [isCut, Bool.and_eq_true] at hf
          refine .cons (fun g => hy.takes ht ?_) (ih hf.2 hys)
          cases hys with
          | @cons _ z _ zs hz hzs =>
          cases p with
          | gap =>
              obtain ⟨hsolid, hname⟩ : q.isSolid = true ∧ q ≠ .monthName := by
                simpa [DatePart.endsBefore, DatePart.hasWidth, DatePart.isNumber] using hf.1
              obtain ⟨c, w, rfl, hblank⟩ :=
                DatePart.isBlank_of_fits_solid hsolid hname (hz.fits ht hname)
              intro d r hr
              obtain ⟨rfl, -⟩ := List.cons.inj hr
              exact hblank
          | offset =>
              have hnot := hf.1
              simp [DatePart.endsBefore, DatePart.hasWidth, DatePart.isNumber] at hnot
          | _ => trivial

section
variable {p : DatePart}

/-- A match with the texts of a format holds the part in full, if it is one of the format. -/
theorem exists_group?_of_writes (hf : f.Strict) (h : List.Forall₂ (DatePart.Writes t) f ys)
    (hm : ∀ name, m.group? name = (labelled f ys).lookup name) (hfield : p.isField = true)
    (hp : p ∈ f) : ∃ y, m.group? p.label = some y ∧ p.Writes t y := by
  obtain ⟨hlength, hwrites⟩ := List.forall₂_iff_zip.1 h
  obtain ⟨y, hmem⟩ := exists_mem_zip hlength hp
  refine ⟨y, ?_, hwrites hmem⟩
  rw [hm, lookup_labelled hfield hf.once hmem]

theorem numberOf?_of_writes (hf : f.Strict) (h : List.Forall₂ (DatePart.Writes t) f ys)
    (hm : ∀ name, m.group? name = (labelled f ys).lookup name) {n : Nat} (default : Nat)
    (hfield : p.isField = true)
    (hread : ∀ y, p.Writes t y → Text.readNat? (Text.trim y) = some n) :
    numberOf? m p default = some (if p ∈ f then n else default) := by
  by_cases hp : p ∈ f
  · obtain ⟨y, hgroup, hy⟩ := exists_group?_of_writes hf h hm hfield hp
    rw [numberOf?_of_some hgroup, hread y hy, if_pos hp]
  · rw [numberOf?_of_none (group?_eq_none hm hfield hp), if_neg hp]

theorem numberOf?_of_writes_twoDigits (hf : f.Strict) (h : List.Forall₂ (DatePart.Writes t) f ys)
    (hm : ∀ name, m.group? name = (labelled f ys).lookup name) {n : Nat} (default : Nat)
    (hfield : p.isField = true) (hn : n < 100) (hp : ∀ y, p.Writes t y → y = DatePart.twoDigits n) :
    numberOf? m p default = some (if p ∈ f then n else default) := by
  apply numberOf?_of_writes hf h hm default hfield
  intro y hy
  rw [hp y hy]
  exact DatePart.readNat?_twoDigits hn

theorem monthOf?_of_writes (ht : t.Proper) (hf : f.Strict)
    (h : List.Forall₂ (DatePart.Writes t) f ys)
    (hm : ∀ name, m.group? name = (labelled f ys).lookup name)
    (hmonth : .month ∈ f ∨ .monthAbbreviation ∈ f) : monthOf? m = some t.month := by
  obtain ⟨-, ⟨hlo, hhi⟩, -, -⟩ := Date.isValid_iff.1 ht.valid
  rw [monthOf?, group?_eq_none hm rfl hf.no_monthName]
  by_cases hshort : .monthAbbreviation ∈ f
  · obtain ⟨y, hgroup, hy⟩ := exists_group?_of_writes hf h hm rfl hshort
    obtain rfl : y = DatePart.monthAbbreviation.write t := hy
    have hname := (nameNumber?_names (t.month - 1) (by omega)).2
    rw [Nat.sub_add_cancel hlo] at hname
    rw [hgroup]
    exact hname
  · have hin : .month ∈ f := hmonth.resolve_right hshort
    have hread := numberOf?_of_writes_twoDigits (p := .month) (n := t.month) hf h hm 1 rfl (by omega)
      fun _ => id
    rw [if_pos hin] at hread
    rw [group?_eq_none hm rfl hshort]
    exact hread

theorem isPlausible_of_writes (hf : f.Strict) (h : List.Forall₂ (DatePart.Writes t) f ys)
    (hm : ∀ name, m.group? name = (labelled f ys).lookup name) : isPlausible m = true := by
  rw [isPlausible, Bool.and_eq_true]
  constructor
  · by_cases hin : .offset ∈ f
    · obtain ⟨y, hgroup, hy⟩ := exists_group?_of_writes hf h hm rfl hin
      rw [hgroup]
      exact DatePart.offsetIsValid_of_isOffset hy
    · rw [group?_eq_none hm rfl hin]
      rfl
  · by_cases hin : .weekday ∈ f
    · have hnames : ∀ d < 7,
          (nameNumber? Date.weekdayNames (Date.weekdayNames.getD d "").toList).isSome = true := by
        decide
      obtain ⟨y, hgroup, hy⟩ := exists_group?_of_writes hf h hm rfl hin
      obtain rfl : y = DatePart.weekday.write t := hy
      rw [hgroup]
      exact hnames _ (Nat.mod_lt _ (by decide))
    · rw [group?_eq_none hm rfl hin]
      rfl

end

/-- A match holds the parts of a time in full. -/
theorem tells_of_writes (ht : t.Proper) (hf : f.Strict) (hyear : .year ∈ f) (hday : .day ∈ f)
    (hmonth : .month ∈ f ∨ .monthAbbreviation ∈ f) (h : List.Forall₂ (DatePart.Writes t) f ys)
    (hm : ∀ name, m.group? name = (labelled f ys).lookup name) : Tells m (f.kept t) := by
  obtain ⟨⟨-, hyear'⟩, -, -, -⟩ := Date.isValid_iff.1 ht.valid
  have hday' := Date.day_le_of_isValid ht.valid
  have hhour := ht.hour_lt
  have hminute := ht.minute_lt
  have hsecond := ht.second_lt
  have hyears := numberOf?_of_writes (p := .year) hf h hm 1900 rfl fun y hy => by
    rw [show y = _ from hy]
    exact DatePart.readNat?_fourDigits (by omega)
  have htwo {p : DatePart} {n : Nat} (default : Nat) (hfield : p.isField = true) (hn : n < 100) :=
    numberOf?_of_writes_twoDigits (p := p) hf h hm default hfield hn
  have hmonths := monthOf?_of_writes ht hf h hm hmonth
  have hdays := htwo (p := .day) 1 rfl (by omega) fun _ => id
  rw [if_pos hyear] at hyears
  rw [if_pos hday] at hdays
  exact ⟨hyears, hmonths, hdays, htwo 0 rfl (by omega) fun _ => id, htwo 0 rfl (by omega) fun _ => id,
    htwo 0 rfl (by omega) fun _ => id, isPlausible_of_writes hf h hm⟩

/-- **Reading what is written in full.** -/
theorem read?_of_writes (ht : t.Proper) (hf : f.Strict) (hyear : .year ∈ f) (hday : .day ∈ f)
    (hmonth : .month ∈ f ∨ .monthAbbreviation ∈ f) (h : f.Writes t x) :
    f.read? x = some (f.kept t) := by
  obtain ⟨ys, hys, rfl⟩ := h
  apply (taken_of_writes ht hf.cut hys).read?_eq_some (List.ne_nil_of_mem hyear)
  · intro m hm
    exact tells_of_writes ht hf hyear hday hmonth hys hm
  · exact ht.valid
  · have := ht.second_lt
    change (if .second ∈ f then t.second else 0) ≤ 59
    split <;> omega

end DateFormat

end NaslLint
