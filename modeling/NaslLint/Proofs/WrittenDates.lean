import NaslLint.Checks.Dates
import NaslLint.Command.Renewal
import NaslLint.Proofs.Date.Reading
import NaslLint.Proofs.Repair
import NaslLint.Proofs.Script.Calls

/-!
# Written dates can be read

A script states when it was made, when it was changed last and in which version it is. The dates that
are written for these pass the strict patterns that look for them, and the two days that a stamp
states are read as the same one.

* `DatePart.width` says in how many characters the parts of a date are written.
* `written_dates_read` is the main statement.
-/

namespace NaslLint

open Pattern Script

variable {t : DateTime}

/-! ## Widths -/

namespace DatePart
variable {p : DatePart}

/-- The number of characters in which a part is written. Names of months have none. -/
def width : DatePart → Nat
  | year => 4
  | month | day | hour | minute | second => 2
  | offset => 5
  | weekday | monthAbbreviation => 3
  | gap | mark _ => 1
  | monthName => 0

theorem length_write (ht : t.Regular) (hp : p ≠ monthName) : (p.write t).length = p.width := by
  have hmonth : t.month - 1 < 12 := by
    have := ht.month_le
    omega
  by_cases hnumber : p.isNumber = true
  · obtain ⟨ds, hds, hlength, -⟩ := exists_digits ht hnumber
    rw [hds, List.length_map, hlength]
    cases p with
    | year | month | day | hour | minute | second => rfl
    | _ => exact Bool.noConfusion hnumber
  cases p with
  | monthAbbreviation =>
      have hthree : ∀ m < 12, (Date.monthAbbreviations.getD m "").toList.length = 3 := by decide
      exact hthree _ hmonth
  | weekday =>
      have hthree : ∀ d < 7, (Date.weekdayNames.getD d "").toList.length = 3 := by decide
      exact hthree _ (Nat.mod_lt _ (by decide))
  | gap | mark | offset => rfl
  | monthName => exact absurd rfl hp
  | _ => exact absurd rfl hnumber

end DatePart

namespace DateFormat
variable {f : DateFormat}

theorem forall_mem_write {cls : Char → Bool} (ht : t.Regular)
    (hdigit : ∀ d < 10, cls (Nat.digitChar d) = true) (hf : f.all (·.keepsTo cls) = true) :
    ∀ c ∈ f.write t, cls c = true := by
  intro c hc
  obtain ⟨p, hp, hc⟩ := List.mem_flatMap.1 hc
  exact DatePart.forall_mem_write ht hdigit (List.all_eq_true.1 hf p hp) c hc

def width : DateFormat → Nat
  | [] => 0
  | p :: f => p.width + width f

theorem length_write (ht : t.Regular) (hf : .monthName ∉ f) : (f.write t).length = f.width := by
  induction f with
  | nil => rfl
  | cons p f ih =>
      rw [List.mem_cons, not_or] at hf
      have hwrite : DateFormat.write (p :: f) t = p.write t ++ DateFormat.write f t := rfl
      rw [hwrite, List.length_append, DatePart.length_write ht (Ne.symm hf.1), ih hf.2, width]

theorem length_stamp (ht : t.Regular) : (stamp.write t).length = 44 :=
  length_write ht (by decide)

theorem length_version (ht : t.Regular) : (version.write t).length = 24 :=
  length_write ht (by decide)

theorem length_stampTime (ht : t.Regular) : (stampTime.write t).length = 25 :=
  length_write ht (by decide)

theorem length_stampDay (ht : t.Regular) : (stampDay.write t).length = 16 :=
  length_write ht (by decide)

/-- A stamp is made of its two halves. -/
theorem write_stamp (t : DateTime) :
    stamp.write t = stampTime.write t ++ (" (".toList ++ (stampDay.write t ++ [')'])) := by
  simp [stamp, stampTime, stampDay, write, DatePart.write]

end DateFormat

/-! ## The strict patterns -/

section
variable {r : List Char} {g : List (String × List Char)}

theorem takes_dateValue (ht : t.Regular) : Takes dateValue (DateFormat.stamp.write t) r g g :=
  takes_exactly (DateFormat.forall_mem_write ht (by decide) (by decide)) (DateFormat.length_stamp ht)

theorem takes_versionValue (ht : t.Regular) :
    Takes Call.version.value (DateFormat.version.write t) r g g :=
  Takes.oneOf [] (by simp) (takes_exactly (DateFormat.forall_mem_write ht (by decide) (by decide))
    (DateFormat.length_version ht))

end

theorem lastModificationTag_eq (t : DateTime) :
    Checks.lastModificationTag t =
      tagText (quoted '"' Tag.lastModification.name.toList)
        (quoted '"' (DateFormat.stamp.write t)) := by
  unfold Checks.lastModificationTag tagText quoted Tag.name
  simp only [String.reduceToList, List.append_assoc, List.cons_append, List.nil_append]

theorem versionCall_eq (t : DateTime) :
    Checks.versionCall t =
      callText Call.version.word.toList (quoted '"' (DateFormat.version.write t)) := by
  unfold Checks.versionCall callText quoted Call.word
  simp only [String.reduceToList, List.append_assoc, List.cons_append, List.nil_append]

/-- The two calls that a renewal finds, one after the other, and the text that it makes. -/
theorem Renewal.exists_of_renew {c c' : List Char} (h : Renewal.renew t c = .ok c') :
    ∃ modified version, anyLastModification.find? c = some modified ∧
      anyVersion.find? (Text.replaceAll modified.text (Checks.lastModificationTag t) c) =
        some version ∧
      c' = Text.replaceAll version.text (Checks.versionCall t)
        (Text.replaceAll modified.text (Checks.lastModificationTag t) c) := by
  rw [renew] at h
  split at h
  next => cases h
  next modified hmodified =>
    dsimp only at h
    split at h
    next => cases h
    next version hversion => exact ⟨modified, version, hmodified, hversion, (Except.ok.inj h).symm⟩

/-! ## Creation dates -/

namespace Checks

theorem slice_append {a b c : List Char} {i j : Nat} (hi : a.length = i) (hj : b.length = j) :
    slice i (i + j) (a ++ (b ++ c)) = b := by
  subst hi hj
  rw [slice, ← List.append_assoc, ← List.length_append, List.take_left, List.drop_left]

theorem slice_stampTime (ht : t.Regular) :
    slice 0 25 (DateFormat.stamp.write t) = DateFormat.stampTime.write t := by
  rw [DateFormat.write_stamp]
  exact slice_append (a := []) rfl (DateFormat.length_stampTime ht)

theorem slice_stampDay (ht : t.Regular) :
    slice 27 43 (DateFormat.stamp.write t) = DateFormat.stampDay.write t := by
  rw [DateFormat.write_stamp, ← List.append_assoc]
  apply slice_append (j := 16)
  · rw [List.length_append, DateFormat.length_stampTime ht]
    rfl
  · exact DateFormat.length_stampDay ht

theorem slice_weekday (ht : t.Regular) :
    slice 27 30 (DateFormat.stamp.write t) = DatePart.weekday.write t := by
  have hday : DateFormat.stampDay.write t = DatePart.weekday.write t ++
      DateFormat.write (DateFormat.stampDay.drop 1) t := rfl
  rw [DateFormat.write_stamp, hday, ← List.append_assoc, List.append_assoc (DatePart.write _ _)]
  apply slice_append (j := 3)
  · rw [List.length_append, DateFormat.length_stampTime ht]
    rfl
  · exact DatePart.length_write ht (by decide)

theorem read?_stampTime (ht : t.Regular) :
    DateFormat.stampTime.read? (slice 0 25 (DateFormat.stamp.write t)) = some t := by
  rw [slice_stampTime ht, DateFormat.read?_of_states ht (DateFormat.states_write ht (by decide))
    (by decide) (by decide) (by decide)]
  rfl

theorem read?_stampDay (ht : t.Regular) :
    DateFormat.stampDay.read? (slice 27 43 (DateFormat.stamp.write t)) =
      some t.toDate.atMidnight := by
  rw [slice_stampDay ht, DateFormat.read?_of_states ht (DateFormat.states_write ht (by decide))
    (by decide) (by decide) (by decide)]
  rfl

theorem creationDateFault?_stamp (ht : t.Regular) :
    creationDateFault? (DateFormat.stamp.write t) = none := by
  have hweekday : String.ofList (slice 27 30 (DateFormat.stamp.write t)) = t.toDate.weekday := by
    rw [slice_weekday ht, DatePart.write, String.ofList_toList]
  simp only [creationDateFault?, read?_stampTime ht, read?_stampDay ht, hweekday]
  exact (if_neg fun h => h rfl).trans (if_neg fun h => h rfl)

end Checks

/-! ## The strict patterns and the check of creation dates -/

/-- A pattern finds a call, as the first match in a text, and reads a value from it. -/
def Pattern.Reads (p : Pattern) (a call b value : List Char) : Prop :=
  ∃ m, p.find? (a ++ (call ++ b)) = some m ∧ m.start = a.length ∧ m.text = call ∧
    m.group? "value" = some value

section
variable {q q' : Char} {a b : List Char}

theorem reads_tag {k : Tag} (hk : k.value = dateValue) (ht : t.Regular) (hq : IsQuote q)
    (hq' : IsQuote q') (ha : ¬ k.name.toList <:+: a) :
    k.pattern.Reads a (tagText (quoted q k.name.toList) (quoted q' (DateFormat.stamp.write t))) b
      (DateFormat.stamp.write t) := by
  have hvalue (g : List (String × List Char)) :
      Takes k.value (DateFormat.stamp.write t) (q' :: (");".toList ++ b)) g g := by
    rw [hk]
    exact takes_dateValue ht
  obtain ⟨m, hm, hcovers⟩ := find?_tag hq hq'
    (nowhere_tagOpens (inert_name k) ha (Or.inr (pair_prefix_tagText _ _ b))) hvalue
  exact ⟨m, hm, hcovers.start_eq, hcovers.text_eq, hcovers.group?_eq "value"⟩

theorem reads_version (ht : t.Regular) (hq : IsQuote q) (ha : ¬ "script_version".toList <:+: a) :
    Call.version.pattern.Reads a
      (callText Call.version.word.toList (quoted q (DateFormat.version.write t))) b
      (DateFormat.version.write t) := by
  obtain ⟨m, hm, hcovers⟩ := find?_call (c := .version) hq
    (nowhere_call (by decide) ha (Or.inr (pair_prefix_callText _ _ b)))
    (fun _ => takes_versionValue ht)
  exact ⟨m, hm, hcovers.start_eq, hcovers.text_eq, hcovers.group?_eq "value"⟩

theorem name_infix_tagText (n value : List Char) : n <:+: tagText (quoted q n) value := by
  refine ⟨"script_tag(name:".toList ++ [q], [q] ++ (", value:".toList ++ (value ++ ");".toList)), ?_⟩
  unfold tagText quoted
  simp

theorem onScript_eq_done_nil {α : Type} {s : Subject} {x : List Char} {remarks : List Char → List α}
    (hs : s.text = .ok x) (hx : remarks x = []) : s.onScript remarks = .done [] := by
  rw [Subject.onScript, Subject.withText, hs]
  change s.unlessInclude (.done (remarks x)) = _
  rw [hx, Subject.unlessInclude]
  split <;> rfl

theorem findings_creationDate (ht : t.Regular) (hq : IsQuote q) (hq' : IsQuote q')
    (ha : ¬ Tag.creationDate.name.toList <:+: a) {s : Subject} (w : Surroundings)
    (hs : s.text = .ok (a ++ (tagText (quoted q Tag.creationDate.name.toList)
      (quoted q' (DateFormat.stamp.write t)) ++ b))) :
    Checks.creationDate.findings s w = .done [] := by
  obtain ⟨m, hm, -, -, hgroup⟩ := reads_tag (k := .creationDate) (b := b) rfl ht hq hq' ha
  have hvalue : m.group "value" = DateFormat.stamp.write t := by
    rw [Match.group, hgroup]
    rfl
  have hcontains : Text.contains "creation_date".toList (a ++ (tagText
      (quoted q Tag.creationDate.name.toList) (quoted q' (DateFormat.stamp.write t)) ++ b)) = true := by
    rw [Text.contains_iff]
    apply List.infix_append_of_infix_right
    apply List.infix_append_of_infix_left
    exact name_infix_tagText _ _
  have hrun : Checks.creationDate.run s w = .done [] := by
    apply onScript_eq_done_nil hs
    rw [hcontains, hm]
    change ((Checks.creationDateFault? (m.group "value")).toList.map Remark.error) = []
    rw [hvalue, Checks.creationDateFault?_stamp ht]
    rfl
  rw [FileCheck.findings, hrun]
  rfl

/-- **Written dates can be read.** What a repair and a renewal put in place of the calls that they find
states the last modification and the version, in 44 and 24 characters. It is the value that the strict
patterns read, in either quotes, where a script names them first. Both halves of a stamp are read as the
time it was written for, and a script that gives it as its creation date is not remarked on. -/
theorem written_dates_read (ht : t.Regular) (hq : IsQuote q) (hq' : IsQuote q')
    (a b : List Char) :
    (Checks.lastModificationTag t = tagText (quoted '"' Tag.lastModification.name.toList)
        (quoted '"' (DateFormat.stamp.write t)) ∧
      Checks.versionCall t =
        callText Call.version.word.toList (quoted '"' (DateFormat.version.write t))) ∧
    ((∀ c r, Checks.renewDates? t c = some r → ∃ version modified,
        anyVersion.find? c = some version ∧ anyLastModification.find? c = some modified ∧
        r.text = Text.replaceAll modified.text (Checks.lastModificationTag t)
          (Text.replaceAll version.text (Checks.versionCall t) c)) ∧
      ∀ c c', Renewal.renew t c = .ok c' → ∃ modified version,
        anyLastModification.find? c = some modified ∧
        anyVersion.find? (Text.replaceAll modified.text (Checks.lastModificationTag t) c) =
          some version ∧
        c' = Text.replaceAll version.text (Checks.versionCall t)
          (Text.replaceAll modified.text (Checks.lastModificationTag t) c)) ∧
    ((DateFormat.stamp.write t).length = 44 ∧ (DateFormat.version.write t).length = 24) ∧
    (¬ Tag.lastModification.name.toList <:+: a → Tag.lastModification.pattern.Reads a
      (tagText (quoted q Tag.lastModification.name.toList) (quoted q' (DateFormat.stamp.write t))) b
      (DateFormat.stamp.write t)) ∧
    (¬ "script_version".toList <:+: a → Call.version.pattern.Reads a
      (callText Call.version.word.toList (quoted q (DateFormat.version.write t))) b
      (DateFormat.version.write t)) ∧
    (DateFormat.stampTime.read? (Checks.slice 0 25 (DateFormat.stamp.write t)) = some t ∧
      DateFormat.stampDay.read? (Checks.slice 27 43 (DateFormat.stamp.write t)) =
        some t.toDate.atMidnight) ∧
    ∀ (s : Subject) (w : Surroundings), ¬ Tag.creationDate.name.toList <:+: a →
      s.text = .ok (a ++ (tagText (quoted q Tag.creationDate.name.toList)
        (quoted q' (DateFormat.stamp.write t)) ++ b)) →
      Checks.creationDate.findings s w = .done [] := by
  refine ⟨⟨lastModificationTag_eq t, versionCall_eq t⟩,
    ⟨fun _ _ => Checks.exists_of_renewDates?, fun _ _ => Renewal.exists_of_renew⟩,
    ⟨DateFormat.length_stamp ht, DateFormat.length_version ht⟩, ?_, ?_,
    ⟨Checks.read?_stampTime ht, Checks.read?_stampDay ht⟩, ?_⟩
  · exact fun ha => reads_tag rfl ht hq hq' ha
  · exact fun ha => reads_version ht hq ha
  · exact fun s w ha hs => findings_creationDate ht hq hq' ha w hs

/-- The last second of a leap day, in a script that has other text in front of the date. -/
theorem written_dates_read_of_leap_day :
    (⟨⟨2024, 2, 29⟩, 23, 59, 59⟩ : DateTime).Regular ∧ IsQuote '\'' ∧ IsQuote '"' ∧
    ¬ "creation_date".toList <:+: "# old\n".toList ∧
    Checks.creationDate.findings
      { root := .ofString "nasl", file := .ofString "nasl/a.nasl",
        text := .ok ("# old\n".toList ++ (tagText (quoted '\'' "creation_date".toList)
          (quoted '"' "2024-02-29 23:59:59 +0000 (Thu, 29 Feb 2024)".toList) ++ [])) }
      { tree := .empty, now := ⟨⟨2024, 3, 1⟩, 0, 0, 0⟩ } = .done [] := by
  have ht : (⟨⟨2024, 2, 29⟩, 23, 59, 59⟩ : DateTime).Regular :=
    ⟨by decide, by decide, by decide, by decide, by decide⟩
  have hnot : ¬ "creation_date".toList <:+: "# old\n".toList :=
    Text.not_infix_of_contains (by decide)
  have hwrite : DateFormat.stamp.write ⟨⟨2024, 2, 29⟩, 23, 59, 59⟩ =
      "2024-02-29 23:59:59 +0000 (Thu, 29 Feb 2024)".toList := by
    decide
  refine ⟨ht, by decide, by decide, hnot, ?_⟩
  have hread := written_dates_read ht (q := '\'') (by decide) (by decide : IsQuote '"')
    "# old\n".toList []
  exact hread.2.2.2.2.2.2 _ _ hnot (by rw [hwrite]; rfl)

end

end NaslLint
