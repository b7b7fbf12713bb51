import NaslLint.Checks.Spelling
import NaslLint.Proofs.ForbiddenCharacters

/-!
# Lines of the spell checker are judged together

The spell checker prints a line for each word that it would correct, and other lines besides. Lines
that are known to be wrong are left out. What remains is looked at as a whole: if it corrects
anything, each of its lines is a finding, also those that correct nothing.

* `Text.lines_unlines` and `Text.infix_unlines_iff` say that nothing is lost when the lines that
  remain are put together again;
* `Checks.Spelling.timesReported_eq` says how often a line is reported;
* `Checks.Spelling.lines_judged_alone_iff` says when that does not depend on the other lines.
-/

namespace NaslLint

namespace Text

/-- Lines as one text, each with a line end. -/
def unlines (ls : List (List Char)) : List Char :=
  ls.flatMap (· ++ ['\n'])

theorem unlines_cons (l : List Char) (ls : List (List Char)) :
    unlines (l :: ls) = l ++ '\n' :: unlines ls := by
  simp [unlines]

theorem lines_append_newline {l : List Char} (hl : ∀ c ∈ l, isLineBreak c = false)
    (t : List Char) : lines (l ++ '\n' :: t) = l :: lines t := by
  induction l with
  | nil => simp [lines, isLineBreak]
  | cons c l ih =>
      obtain ⟨hc, hl⟩ := List.forall_mem_cons.1 hl
      have hreturn : c ≠ '\r' := by
        rintro rfl
        revert hc
        decide
      rw [List.cons_append, lines, if_neg (by rw [hc]; exact Bool.false_ne_true), ih hl]
      intro _ h
      exact absurd h hreturn

/-- Lines that are put together can be told apart again. -/
theorem lines_unlines {ls : List (List Char)} (h : ∀ l ∈ ls, ∀ c ∈ l, isLineBreak c = false) :
    lines (unlines ls) = ls := by
  induction ls with
  | nil => rfl
  | cons l ls ih =>
      obtain ⟨hl, hls⟩ := List.forall_mem_cons.1 h
      rw [unlines_cons, lines_append_newline hl, ih hls]

/-- A word without a line end stands in one of the lines. -/
theorem infix_unlines_iff {w : List Char} (hw : w ≠ []) (hnewline : '\n' ∉ w)
    (ls : List (List Char)) : w <:+: unlines ls ↔ ∃ l ∈ ls, w <:+: l := by
  induction ls with
  | nil => simpa [unlines] using hw
  | cons l ls ih => rw [unlines_cons, infix_append_cons_iff hnewline, ih, List.exists_mem_cons_iff]

/-- The first line begins the text, and every line stands in it. -/
theorem lines_parts (t : List Char) :
    (∀ l, (lines t).head? = some l → l <+: t) ∧ ∀ l ∈ lines t, l <:+: t := by
  fun_induction lines t with
  | case1 => simp
  | case2 more ih =>
      have hmore : more <:+: '\r' :: '\n' :: more := (List.suffix_append ['\r', '\n'] more).isInfix
      simpa using fun l hl => (ih.2 l hl).trans hmore
  | case3 c more _ hc ih =>
      have hmore : more <:+: c :: more := (List.suffix_cons c more).isInfix
      simpa using fun l hl => (ih.2 l hl).trans hmore
  | case4 c more =>
      have hfirst : [c] <+: c :: more := List.cons_prefix_cons.2 ⟨rfl, List.nil_prefix⟩
      exact ⟨by simp, by simpa using hfirst.isInfix⟩
  | case5 c more _ hc l ls hmore ih =>
      rw [hmore] at ih
      have hfirst : c :: l <+: c :: more := List.cons_prefix_cons.2 ⟨rfl, ih.1 l rfl⟩
      refine ⟨by simpa using hfirst, List.forall_mem_cons.2 ⟨hfirst.isInfix, fun l' hl' => ?_⟩⟩
      exact (ih.2 l' (List.mem_cons_of_mem _ hl')).trans (List.suffix_cons c more).isInfix

end Text

namespace Checks.Spelling

open Text

/-- What remains of a report when the lines to leave out are taken out of it. -/
def remaining (report : List Char) : List Char :=
  unlines ((lines report).filter fun line => !isExempt line)

def Corrects (report : List Char) : Prop :=
  arrow <:+: remaining report

instance (report : List Char) : Decidable (Corrects report) :=
  decidable_of_iff _ contains_iff

/-- How many errors have the line as their message. -/
def timesReported (l : List Char) (found : List Finding) : Nat :=
  found.countP fun f => f.severity == .error && f.message == String.ofList l

/-- What the spell checker prints for the files of a feed, one report for each call. -/
def reports (feed : Feed) (w : Surroundings) : List (List Char) :=
  (calls w feed.files).map w.spell

/-- For each time that it is printed, a line is reported equally often in two reports. -/
def ReportedAlike (l r r' : List Char) : Prop :=
  timesReported l (reportFindings r) * (lines r').count l =
    timesReported l (reportFindings r') * (lines r).count l

instance (l r r' : List Char) : Decidable (ReportedAlike l r r') :=
  inferInstanceAs (Decidable (_ = _))

section
variable {r r' l : List Char}

theorem corrects_iff : Corrects r ↔ ∃ line ∈ lines r, isExempt line = false ∧ arrow <:+: line := by
  rw [Corrects, remaining, infix_unlines_iff (by decide) (by decide)]
  simp [and_assoc]

theorem corrects_of_mem (hl : l ∈ lines r) (hexempt : isExempt l = false) (harrow : arrow <:+: l) :
    Corrects r :=
  corrects_iff.2 ⟨l, hl, hexempt, harrow⟩

theorem reportFindings_eq (hr : ¬ breakdown <:+: r) :
    reportFindings r =
      if Corrects r then ((lines r).filter fun line => !isExempt line).map lineFinding else [] := by
  rw [reportFindings, if_neg (by rwa [contains_iff])]
  refine if_congr ?_ rfl rfl
  rw [corrects_iff]
  simp [contains_iff]

theorem lines_remaining (r : List Char) :
    lines (remaining r) = (lines r).filter fun line => !isExempt line := by
  apply lines_unlines
  intro l hl c hc
  exact (mem_lines_iff.1 ⟨l, List.mem_of_mem_filter hl, hc⟩).2

/-- The lines that are left out count in no way. -/
theorem reportFindings_remaining (hr : ¬ breakdown <:+: r) :
    reportFindings (remaining r) = reportFindings r := by
  have hbreakdown : ¬ breakdown <:+: remaining r := by
    rw [remaining, infix_unlines_iff (by decide) (by decide)]
    rintro ⟨l, hl, h⟩
    exact hr (h.trans ((lines_parts r).2 l (List.mem_of_mem_filter hl)))
  have hkept : (lines (remaining r)).filter (fun line => !isExempt line) = lines (remaining r) := by
    rw [lines_remaining, List.filter_filter]
    simp
  have hcorrects : Corrects (remaining r) ↔ Corrects r := by
    rw [Corrects, Corrects]
    conv_lhs => rw [remaining, hkept, lines_remaining]
    rfl
  rw [reportFindings_eq hbreakdown, reportFindings_eq hr, hkept, lines_remaining]
  exact if_congr hcorrects rfl rfl

theorem timesReported_map (l : List Char) (ls : List (List Char)) :
    timesReported l (ls.map lineFinding) = ls.count l := by
  rw [timesReported, List.countP_map, List.count]
  congr 1
  funext line
  simp [lineFinding, String.ofList_inj, Bool.beq_eq_decide_eq]

/-- **How often a line is reported.** As often as it is printed, if it is not left out and what
remains of the report corrects something; else never. -/
theorem timesReported_eq (hr : ¬ breakdown <:+: r) (l : List Char) :
    timesReported l (reportFindings r) =
      if isExempt l = false ∧ Corrects r then (lines r).count l else 0 := by
  rw [reportFindings_eq hr]
  by_cases hcorrects : Corrects r
  · rw [if_pos hcorrects, timesReported_map]
    cases hexempt : isExempt l with
    | false =>
        rw [if_pos ⟨rfl, hcorrects⟩, List.count_filter]
        simp [hexempt]
    | true =>
        rw [if_neg (by simp), List.count_eq_zero]
        simp [hexempt]
  · rw [if_neg hcorrects, if_neg (fun h => hcorrects h.2)]
    rfl

/-- A line that both reports print is reported alike if and only if it is reported in both or in
neither. -/
theorem reportedAlike_iff (hr : ¬ breakdown <:+: r) (hr' : ¬ breakdown <:+: r')
    (hl : l ∈ lines r) (hl' : l ∈ lines r') :
    ReportedAlike l r r' ↔
      (isExempt l = false ∧ Corrects r ↔ isExempt l = false ∧ Corrects r') := by
  have hprinted : (lines r).count l ≠ 0 := Nat.ne_of_gt (List.count_pos_iff.2 hl)
  have hprinted' : (lines r').count l ≠ 0 := Nat.ne_of_gt (List.count_pos_iff.2 hl')
  rw [ReportedAlike, timesReported_eq hr, timesReported_eq hr']
  by_cases h : isExempt l = false ∧ Corrects r <;> by_cases h' : isExempt l = false ∧ Corrects r'
  · simp [h, h', Nat.mul_comm]
  · rw [if_pos h, if_neg h', Nat.zero_mul, iff_false_right h']
    exact iff_of_false (Nat.mul_ne_zero hprinted hprinted') (not_not_intro h)
  · rw [if_neg h, if_pos h', Nat.zero_mul, iff_true_right h']
    exact iff_of_false (Nat.mul_ne_zero hprinted' hprinted).symm h
  · simp [h, h']

theorem timesReported_append (l : List Char) (found found' : List Finding) :
    timesReported l (found ++ found') = timesReported l found + timesReported l found' :=
  List.countP_append

/-- In the findings of several reports a line counts as often as it is printed in those that correct
something. -/
theorem timesReported_flatMap {rs : List (List Char)} (hrs : ∀ r ∈ rs, ¬ breakdown <:+: r)
    (hl : isExempt l = false) :
    timesReported l (rs.flatMap reportFindings) =
      ((rs.filter fun r => Corrects r).flatMap lines).count l := by
  induction rs with
  | nil => rfl
  | cons r rs ih =>
      obtain ⟨hr, hrs⟩ := List.forall_mem_cons.1 hrs
      rw [List.flatMap_cons, timesReported_append, ih hrs, timesReported_eq hr]
      by_cases hcorrects : Corrects r <;> simp [hcorrects, hl]

/-- A line to leave out is never reported. -/
theorem timesReported_flatMap_of_isExempt {rs : List (List Char)}
    (hrs : ∀ r ∈ rs, ¬ breakdown <:+: r) (hl : isExempt l = true) :
    timesReported l (rs.flatMap reportFindings) = 0 := by
  induction rs with
  | nil => rfl
  | cons r rs ih =>
      obtain ⟨hr, hrs⟩ := List.forall_mem_cons.1 hrs
      rw [List.flatMap_cons, timesReported_append, ih hrs, timesReported_eq hr]
      simp [hl]

/-- **When lines are judged one by one.** If the spell checker does not break down, the check comes
to its end, and a line that is not left out is reported as often as it is printed in the reports that
correct something. Lines to leave out count in no way. So a line is reported as often in one report as
in any other that could be printed instead, for each time that it is printed, if and only if it is left
out, or corrects something itself, or both reports correct something, or neither does. -/
theorem lines_judged_alone_iff {feed : Feed} {w : Surroundings}
    (hreports : ∀ r ∈ reports feed w, ¬ breakdown <:+: r) (l : List Char) :
    (spelling.run feed w).fault = none ∧
      timesReported l (spelling.run feed w).results =
        (if isExempt l then 0
          else (((reports feed w).filter fun r => Corrects r).flatMap lines).count l) ∧
      ∀ r ∈ reports feed w, reportFindings (remaining r) = reportFindings r ∧
        ∀ r', ¬ breakdown <:+: r' → l ∈ lines r → l ∈ lines r' →
          (ReportedAlike l r r' ↔
            isExempt l = true ∨ arrow <:+: l ∨ (Corrects r ↔ Corrects r')) := by
  have hrun : spelling.run feed w = .done ((reports feed w).flatMap reportFindings) := by
    rw [reports, List.flatMap_map]
    rfl
  refine ⟨by rw [hrun]; rfl, ?_, fun r hr => ⟨reportFindings_remaining (hreports r hr), ?_⟩⟩
  · rw [hrun]
    cases hexempt : isExempt l with
    | true => exact timesReported_flatMap_of_isExempt hreports hexempt
    | false => exact timesReported_flatMap hreports hexempt
  · intro r' hr' hl hl'
    rw [reportedAlike_iff (hreports r hr) hr' hl hl']
    cases hexempt : isExempt l with
    | true => simp
    | false =>
        by_cases harrow : arrow <:+: l
        · simp [harrow, corrects_of_mem hl hexempt harrow, corrects_of_mem hl' hexempt harrow]
        · simp [harrow]

end

def oneReport (report : String) : Feed × Surroundings :=
  (⟨⟨"/", []⟩, [⟨"/", ["a.nasl"]⟩]⟩,
   { tree := .empty, now := default, spell := fun _ => report.toList })

def noteAndCorrection : String :=
  "note\na.nasl:1: teh ==> the\n"

/-- A correction is reported whatever else is printed. -/
theorem lines_judged_alone_of_correction :
    let feed := (oneReport noteAndCorrection).1
    let w := (oneReport noteAndCorrection).2
    reports feed w = [noteAndCorrection.toList] ∧ ¬ breakdown <:+: noteAndCorrection.toList ∧
      ReportedAlike "a.nasl:1: teh ==> the".toList noteAndCorrection.toList
        "a.nasl:1: teh ==> the\n".toList := by
  intro feed w
  have hreports : reports feed w = [noteAndCorrection.toList] := by decide
  have hclean : ¬ breakdown <:+: noteAndCorrection.toList := not_infix_of_contains (by decide)
  refine ⟨hreports, hclean, ?_⟩
  have h := @lines_judged_alone_iff feed w
    (by rw [hreports]; exact List.forall_mem_singleton.2 hclean) "a.nasl:1: teh ==> the".toList
  refine ((h.2.2 noteAndCorrection.toList (by simp [hreports])).2 _ ?_ ?_ ?_).2 (Or.inr (Or.inl ?_))
  · exact not_infix_of_contains (by decide)
  · decide
  · decide
  · exact contains_iff.1 (by decide)

/-- A line that corrects nothing is reported because another one does. -/
theorem note_not_judged_alone :
    let note := "note".toList
    timesReported note (spelling.run (oneReport "note\n").1 (oneReport "note\n").2).results = 0 ∧
      timesReported note
        (spelling.run (oneReport noteAndCorrection).1 (oneReport noteAndCorrection).2).results = 1 ∧
      (lines "note\n".toList).count note = 1 ∧ (lines noteAndCorrection.toList).count note = 1 ∧
      ¬ ReportedAlike note "note\n".toList noteAndCorrection.toList := by
  intro note
  decide +kernel

end Checks.Spelling

end NaslLint
