import NaslLint.Proofs.FileTree
import NaslLint.Proofs.Path
import NaslLint.Proofs.Solution.NoneAvailable

/-!
# The statistic of missing solutions

A run sorts the scripts that name a day without a solution by how long ago that day is, and ends with
the numbers. The numbers add up, and they are those of the findings about single files.

* `judged_of_reaches` says what is found about each file, independently of the others;
* `countP_own` says that the findings of a kind are as many as the scripts sorted that way;
* `countP_isMissing` is the partition of all scripts that count.
-/

namespace NaslLint.Checks.NoSolution

/-! ## What is said of each file -/

def judged (files : List Path) : List Path :=
  files.filter fun f => !f.isInclude

/-- The text of a file, empty if it cannot be read. -/
def textOf (tree : FileTree) (file : Path) : List Char :=
  (tree.readText file).toOption.getD []

def told (tree : FileTree) (root file : Path) (remark : Severity × String) : Finding :=
  { severity := remark.1
    message := s!"{file.below root tree.here}: {remark.2}"
    file := some file.toString
    check := some name }

def own (now : DateTime) (tree : FileTree) (root file : Path) : Option Finding :=
  (status now (textOf tree file)).remark?.map (told tree root file)

section
variable {now : DateTime} {tree : FileTree} {root file relative : Path} {files : List Path}
  {t date : List Char}

theorem textOf_eq (h : tree.readText file = .ok t) : textOf tree file = t := by
  rw [textOf, h]
  rfl

theorem file_of_own {x : Finding} (h : own now tree root file = some x) :
    x.file = some file.toString := by
  obtain ⟨remark, -, rfl⟩ := Option.map_eq_some_iff.1 h
  rfl

theorem finding?_eq (h : file.fromRoot? root tree.here = some relative) (s : Status) :
    finding? tree.here root file s = .ok (s.remark?.map (told tree root file)) := by
  have hbelow := Path.below_eq h
  cases hremark : s.remark? with
  | none => simp only [finding?, hremark, Option.map_none]
  | some remark =>
      simp only [finding?, hremark, h, Option.map_some, told, hbelow]

/-- **A whole run.** Each file is judged by itself. -/
theorem judged_of_reaches (h : tree.Reaches root (judged files)) :
    Judged now tree root files ((judged files).filterMap (own now tree root))
      ((judged files).map fun f => status now (textOf tree f)) := by
  induction files with
  | nil => exact .nil
  | cons file files ih =>
      cases hinclude : file.isInclude with
      | true =>
          have hskip : judged (file :: files) = judged files := by simp [judged, hinclude]
          rw [hskip] at h ⊢
          exact .skip hinclude (ih h)
      | false =>
          have hcons : judged (file :: files) = file :: judged files := by simp [judged, hinclude]
          rw [hcons] at h ⊢
          obtain ⟨⟨⟨t, hread⟩, relative, hroot⟩, hfiles⟩ := List.forall_mem_cons.1 h
          have hstep := Judged.cons hinclude hread (finding?_eq hroot (status now t)) (ih hfiles)
          rw [List.map_cons, List.filterMap_cons, own, textOf_eq hread]
          cases hremark : (status now t).remark? with
          | none => simpa [hremark] using hstep
          | some remark => simpa [hremark] using hstep

/-! ## Kinds of findings -/

inductive Kind where
  | unreadable
  | olderThanYear
  | olderThanHalfYear
  | youngerThanMonth
deriving DecidableEq, Repr

namespace Kind

def severity : Kind → Severity
  | unreadable => .error
  | _ => .warning

def ending : Kind → String
  | unreadable => "' to datetime"
  | olderThanYear => "Missing solution, older than 1 year."
  | olderThanHalfYear => "Missing solution, older than 6 months."
  | youngerThanMonth => "Missing solution, but younger than 31 days."

/-- How the scripts are sorted to which findings of a kind belong. -/
def covers : Kind → Status → Bool
  | unreadable, .unreadable _ => true
  | olderThanYear, .olderThanYear => true
  | olderThanHalfYear, .olderThanHalfYear => true
  | youngerThanMonth, .youngerThanMonth => true
  | _, _ => false

/-- A finding is of a kind, by its severity and the end of its message. -/
def tells (k : Kind) (x : Finding) : Bool :=
  x.severity == k.severity && k.ending.toList.isSuffixOf x.message.toList

end Kind

section
variable {k : Kind} {severity : Severity} {text : String}

theorem message_told (tree : FileTree) (root file : Path) (severity : Severity) (text : String) :
    (told tree root file (severity, text)).message.toList =
      ((file.below root tree.here).toString ++ ": ").toList ++ text.toList := by
  change ((file.below root tree.here).toString ++ ": " ++ text).toList = _
  rw [String.toList_append]

theorem tells_told_of_suffix (hseverity : severity = k.severity)
    (h : k.ending.toList <:+ text.toList) : k.tells (told tree root file (severity, text)) = true := by
  rw [Kind.tells, Bool.and_eq_true, List.isSuffixOf_iff_suffix, message_told]
  exact ⟨beq_iff_eq.2 hseverity, h.trans (List.suffix_append _ _)⟩

theorem tells_told_of_severity_ne (h : severity ≠ k.severity) :
    k.tells (told tree root file (severity, text)) = false := by
  rw [Kind.tells, Bool.and_eq_false_iff]
  exact .inl (beq_false_of_ne h)

/-- Neither of two texts is the end of the other one, so they do not end the same message. -/
theorem tells_told_of_not_suffix (h : k.ending.toList.isSuffixOf text.toList = false)
    (h' : text.toList.isSuffixOf k.ending.toList = false) :
    k.tells (told tree root file (severity, text)) = false := by
  rw [Kind.tells, Bool.and_eq_false_iff, message_told]
  refine .inr (Bool.eq_false_iff.2 fun hsuffix => ?_)
  rcases List.suffix_or_suffix_of_suffix (List.isSuffixOf_iff_suffix.1 hsuffix)
    (List.suffix_append _ _) with hends | hends
  · exact Bool.eq_false_iff.1 h (List.isSuffixOf_iff_suffix.2 hends)
  · exact Bool.eq_false_iff.1 h' (List.isSuffixOf_iff_suffix.2 hends)

end

theorem isSuffixOf_ending {k k' : Kind} (h : k ≠ k') :
    k.ending.toList.isSuffixOf k'.ending.toList = false := by
  revert h
  cases k <;> cases k' <;> decide

/-- No message of one kind is of another one. -/
theorem tells_ending (root file : Path) (k k' : Kind) :
    k.tells (told tree root file (k'.severity, k'.ending)) = decide (k = k') := by
  by_cases h : k = k'
  · subst h
    rw [tells_told_of_suffix rfl (List.suffix_refl _), decide_eq_true rfl]
  · rw [tells_told_of_not_suffix (isSuffixOf_ending h) (isSuffixOf_ending (Ne.symm h)),
      decide_eq_false h]

/-- The end of a message tells how the script was sorted. -/
theorem any_tells (root file : Path) (k : Kind) (s : Status) :
    (s.remark?.map (told tree root file)).any k.tells = k.covers s := by
  cases s with
  | settled | undated | inBetween => cases k <;> rfl
  | untagged =>
      rw [Status.remark?, Option.map_some, Option.any_some]
      cases k with
      | unreadable => exact tells_told_of_not_suffix (by decide) (by decide)
      | _ => exact tells_told_of_severity_ne (by decide)
  | unreadable date =>
      rw [Status.remark?, Option.map_some, Option.any_some]
      cases k with
      | unreadable =>
          refine tells_told_of_suffix rfl ⟨("Can not convert '" ++ String.ofList date).toList, ?_⟩
          exact (String.toList_append ..).symm
      | _ => exact tells_told_of_severity_ne (by decide)
  | olderThanYear =>
      rw [Status.remark?, Option.map_some, Option.any_some]
      exact (tells_ending root file k .olderThanYear).trans (by cases k <;> rfl)
  | olderThanHalfYear =>
      rw [Status.remark?, Option.map_some, Option.any_some]
      exact (tells_ending root file k .olderThanHalfYear).trans (by cases k <;> rfl)
  | youngerThanMonth =>
      rw [Status.remark?, Option.map_some, Option.any_some]
      exact (tells_ending root file k .youngerThanMonth).trans (by cases k <;> rfl)

theorem countP_filterMap_any {α β : Type} (p : β → Bool) (f : α → Option β) (l : List α) :
    (l.filterMap f).countP p = l.countP fun a => (f a).any p := by
  rw [List.countP_filterMap]
  refine List.countP_congr fun a _ => ?_
  cases f a <;> rfl

/-- There are as many findings of a kind as scripts that are sorted that way. -/
theorem countP_own (k : Kind) (files : List Path) :
    (files.filterMap (own now tree root)).countP k.tells =
      (files.map fun f => status now (textOf tree f)).countP k.covers := by
  rw [countP_filterMap_any, List.countP_map]
  refine List.countP_congr fun file _ => ?_
  rw [own, any_tells, Function.comp_apply]

/-! ## The partition -/

/-- The scripts that count are sorted in one of five ways. -/
theorem countP_isMissing (all : List Status) :
    all.countP Status.isMissing =
      all.countP Kind.unreadable.covers + all.countP Kind.youngerThanMonth.covers +
        all.countP Kind.olderThanHalfYear.covers + all.countP Kind.olderThanYear.covers +
        all.count .inBetween := by
  induction all with
  | nil => rfl
  | cons s all ih =>
      simp only [List.countP_cons, List.count_cons, ih]
      cases s <;> simp [Status.isMissing, Kind.covers] <;> omega

/-- The day since which a script says that there is no solution, as it is written. -/
def openSince? (t : List Char) : Option (List Char) :=
  if (Tag.solutionType.pattern.find? t).any fun m => m.group "value" != "NoneAvailable".toList then
    none
  else if hasNoSeverity t then none
  else
    (Tag.solution.pattern.find? t).bind fun solution =>
      (asOf.find? (solution.group "value")).map (·.group "date")

def isBetween (now since : DateTime) : Bool :=
  now.seconds < since.seconds + 186 * 86400 && since.seconds + 31 * 86400 < now.seconds

theorem statusOfDay_eq_inBetween_iff {since : DateTime} :
    statusOfDay now since = .inBetween ↔ isBetween now since = true := by
  simp only [statusOfDay, DateTime.isDaysBefore, DateTime.isWithinDays, isBetween,
    decide_eq_true_eq, Bool.and_eq_true]
  split
  · simp only [reduceCtorEq, false_iff]
    omega
  · split
    · simp only [reduceCtorEq, false_iff]
      omega
    · split
      · simp only [reduceCtorEq, false_iff]
        omega
      · simp only [true_iff]
        omega

/-- A script that names a day is sorted by it, and no other script counts. -/
theorem status_cases (now : DateTime) (t : List Char) :
    (openSince? t = none ∧ (status now t).isMissing = false) ∨
      ∃ date, openSince? t = some date ∧
        status now t = ((readDay? date).map (statusOfDay now)).getD (.unreadable date) := by
  unfold openSince? status
  by_cases htype : ((Tag.solutionType.pattern.find? t).any fun m =>
      m.group "value" != "NoneAvailable".toList) = true
  · rw [if_pos htype, if_pos htype]
    exact .inl ⟨rfl, rfl⟩
  rw [if_neg htype, if_neg htype]
  by_cases hseverity : hasNoSeverity t = true
  · rw [if_pos hseverity, if_pos hseverity]
    exact .inl ⟨rfl, rfl⟩
  rw [if_neg hseverity, if_neg hseverity]
  cases hsolution : Tag.solution.pattern.find? t with
  | none => exact .inl ⟨rfl, rfl⟩
  | some solution =>
      simp only [Option.bind_some]
      cases hasOf : asOf.find? (solution.group "value") with
      | none => exact .inl ⟨rfl, rfl⟩
      | some m =>
          refine .inr ⟨m.group "date", rfl, ?_⟩
          cases hday : readDay? (m.group "date") with
          | none => simp only [hday, Option.map_none, Option.getD_none]
          | some since =>
              rw [Option.map_some, Option.getD_some]
              simp only [hday]

theorem isMissing_status (now : DateTime) (t : List Char) :
    (status now t).isMissing = (openSince? t).isSome := by
  rcases status_cases now t with ⟨hnone, hmissing⟩ | ⟨date, hdate, hstatus⟩
  · rw [hmissing, hnone]
    rfl
  · rw [hstatus, hdate]
    cases readDay? date with
    | none => rfl
    | some since =>
        rw [Option.map_some, Option.getD_some, Option.isSome_some]
        exact isMissing_statusOfDay now since

theorem status_eq_inBetween_iff (now : DateTime) (t : List Char) :
    status now t = .inBetween ↔
      ((openSince? t).bind readDay?).any (isBetween now) = true := by
  rcases status_cases now t with ⟨hnone, hmissing⟩ | ⟨date, hdate, hstatus⟩
  · rw [hnone]
    refine iff_of_false (fun h => ?_) Bool.false_ne_true
    rw [h] at hmissing
    cases hmissing
  · rw [hstatus, hdate, Option.bind_some]
    cases readDay? date with
    | none => exact iff_of_false (by simp) Bool.false_ne_true
    | some since =>
        rw [Option.map_some, Option.getD_some, Option.any_some]
        exact statusOfDay_eq_inBetween_iff

/-! ## The numbers -/

def summaryLine (label : String) (n : Nat) : Finding :=
  { severity := .warning, message := s!"{label}: {n}", check := some name }

def report (total young halfYear year : Nat) : List Finding :=
  if 0 < total then
    [summaryLine "total missing solutions" total,
     summaryLine "missing solutions younger 1 month" young,
     summaryLine "missing solutions older than 6 months" halfYear,
     summaryLine "missing solutions older than 1 year" year]
  else []

theorem count_eq_countP_covers {k : Kind} {s : Status} (h : ∀ s', k.covers s' = (s' == s))
    (all : List Status) : all.count s = all.countP k.covers := by
  rw [List.count]
  exact List.countP_congr fun s' _ => by rw [h]

theorem summary_eq (all : List Status) :
    summary all = report (all.countP Status.isMissing) (all.countP Kind.youngerThanMonth.covers)
      (all.countP Kind.olderThanHalfYear.covers) (all.countP Kind.olderThanYear.covers) := by
  have hyoung := count_eq_countP_covers (k := .youngerThanMonth) (s := .youngerThanMonth)
    (by intro s; cases s <;> rfl) all
  have hhalf := count_eq_countP_covers (k := .olderThanHalfYear) (s := .olderThanHalfYear)
    (by intro s; cases s <;> rfl) all
  have hyear := count_eq_countP_covers (k := .olderThanYear) (s := .olderThanYear)
    (by intro s; cases s <;> rfl) all
  rw [summary, report, hyoung, hhalf, hyear]
  by_cases htotal : all.countP Status.isMissing = 0
  · rw [if_pos htotal, if_neg (by omega)]
  · rw [if_neg htotal, if_pos (by omega)]
    rfl

theorem summary_perm {all all' : List Status} (h : all'.Perm all) : summary all' = summary all := by
  rw [summary_eq, summary_eq, h.countP_eq, h.countP_eq, h.countP_eq, h.countP_eq]

def namedDays (tree : FileTree) (files : List Path) : List (List Char) :=
  (judged files).filterMap fun f => openSince? (textOf tree f)

theorem countP_isMissing_eq (now : DateTime) (tree : FileTree) (files : List Path) :
    ((judged files).map fun f => status now (textOf tree f)).countP Status.isMissing =
      (namedDays tree files).length := by
  rw [namedDays, List.length_filterMap_eq_countP, List.countP_map]
  refine List.countP_congr fun file _ => ?_
  rw [Function.comp_apply, isMissing_status]

theorem count_inBetween_eq (now : DateTime) (tree : FileTree) (files : List Path) :
    ((judged files).map fun f => status now (textOf tree f)).count .inBetween =
      ((namedDays tree files).filterMap readDay?).countP (isBetween now) := by
  rw [namedDays, List.filterMap_filterMap, countP_filterMap_any, List.count, List.countP_map]
  refine List.countP_congr fun file _ => ?_
  rw [Function.comp_apply, beq_iff_eq, status_eq_inBetween_iff]

end

end NoSolution

open NoSolution

/-- **The statistic of missing solutions is a partition.** Where all files can be read and lie below
the root, there is at most one finding about each file. The summary follows them if a script names a
day without a solution. Its total is the number of such scripts: those whose day cannot be read, those
in the three ranges of time, and those whose day lies less than 186 and more than 31 days back. The
number of each range is that of the warnings about it, and another order of the files gives the same
summary. -/
theorem missing_solutions_partitioned {feed : Feed} {w : Surroundings}
    (h : w.tree.Reaches feed.root (judged feed.files)) :
    ∃ about : Path → Option Finding, (∀ file x, about file = some x → x.file = some file.toString) ∧
      let found := (judged feed.files).filterMap about
      let total := (namedDays w.tree feed.files).length
      let young := found.countP Kind.youngerThanMonth.tells
      let halfYear := found.countP Kind.olderThanHalfYear.tells
      let year := found.countP Kind.olderThanYear.tells
      noSolution.run feed w = .done (found ++ report total young halfYear year) ∧
      total = found.countP Kind.unreadable.tells + young + halfYear + year +
        ((namedDays w.tree feed.files).filterMap readDay?).countP (isBetween w.now) ∧
      ∀ files', files'.Perm feed.files → ∃ found', found'.Perm found ∧
        noSolution.run ⟨feed.root, files'⟩ w = .done (found' ++ report total young halfYear year) := by
  refine ⟨own w.now w.tree feed.root, fun _ _ => file_of_own, ?_⟩
  intro found total young halfYear year
  have hrun {files : List Path} (hfiles : w.tree.Reaches feed.root (judged files)) :
      noSolution.run ⟨feed.root, files⟩ w =
        .done ((judged files).filterMap (own w.now w.tree feed.root) ++
          summary ((judged files).map fun f => status w.now (textOf w.tree f))) :=
    (judged_of_reaches hfiles).judgeAll []
  have hcount (k : Kind) : found.countP k.tells =
      ((judged feed.files).map fun f => status w.now (textOf w.tree f)).countP k.covers :=
    countP_own k _
  have hsummary : summary ((judged feed.files).map fun f => status w.now (textOf w.tree f)) =
      report total young halfYear year := by
    rw [summary_eq, countP_isMissing_eq, ← hcount, ← hcount, ← hcount]
  refine ⟨?_, ?_, fun files' hperm => ?_⟩
  · rw [← hsummary]
    exact hrun h
  · change (namedDays w.tree feed.files).length = found.countP _ + found.countP _ +
      found.countP _ + found.countP _ + _
    rw [hcount, hcount, hcount, hcount, ← count_inBetween_eq, ← countP_isMissing_eq w.now]
    exact countP_isMissing _
  · have hjudged : (judged files').Perm (judged feed.files) := hperm.filter _
    refine ⟨_, hjudged.filterMap _, ?_⟩
    rw [hrun (h.perm hjudged), summary_perm (hjudged.map _), hsummary]

/-- Scripts without a solution since days near and far, since a day that cannot be read, and a script
with a solution. -/
def withoutSolutions : Surroundings :=
  let file (name solution : String) : Location × Entry :=
    ([name], .file 0o644 (Text.toLatin1
      ("script_tag(name:\"solution\", value:\"" ++ solution ++ "\");").toList))
  { tree := { entries := [file "a.nasl" "None as of 01st August, 2022.", file "b.nasl" "None as of 15 May, 2022.",
      file "c.nasl" "None as of 2020/01/01.", file "d.nasl" "None as of now.",
      file "e.nasl" "Update it."] }
    now := ⟨⟨2022, 8, 15⟩, 12, 0, 0⟩ }

/-- Of five scripts four have no solution, and the day of one of them lies in none of the ranges. -/
theorem missing_solutions_partitioned_of_five :
    let feed : Feed := ⟨⟨"/", []⟩,
      ["a.nasl", "b.nasl", "c.nasl", "d.nasl", "e.nasl"].map fun name => ⟨"/", [name]⟩⟩
    withoutSolutions.tree.Reaches feed.root (judged feed.files) ∧
    ∃ found young halfYear year, noSolution.run feed withoutSolutions =
        .done (found ++ report 4 young halfYear year) ∧
      4 = found.countP Kind.unreadable.tells + young + halfYear + year + 1 := by
  intro feed
  have hreach : withoutSolutions.tree.Reaches feed.root (judged feed.files) := by decide +kernel
  have hdays : (namedDays withoutSolutions.tree feed.files).length = 4 ∧
      ((namedDays withoutSolutions.tree feed.files).filterMap readDay?).countP
        (isBetween withoutSolutions.now) = 1 := by
    decide +kernel
  obtain ⟨about, -, hrun, htotal, -⟩ := missing_solutions_partitioned hreach
  rw [hdays.1] at hrun htotal
  rw [hdays.2] at htotal
  exact ⟨hreach, _, _, _, _, hrun, htotal⟩

end NaslLint.Checks
