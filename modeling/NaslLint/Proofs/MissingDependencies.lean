import NaslLint.Proofs.RepairSafety

/-!
# Missing dependencies

Three checks look the dependencies of a script up, each for a reason of its own, and each of them
reports those that it does not find. On a script that all of them look through to its end they
report the same ones: the listed dependencies that do not exist, in their order and as often as they
are listed.

* `Checks.missingName?` reads the name out of such a report, and nothing out of any other message.
* `Checks.missingNames_judgePlace`, `Checks.missingNames_judgeOrder` and
  `Checks.missingNames_judgeUse` say what each check reports.
-/

namespace NaslLint.Checks

/-! ## Reports of missing dependencies -/

def missingOpening : List Char :=
  "The script dependency ".toList

def missingClosing : List Char :=
  " could not be found within the VTs.".toList

def missingName? (message : String) : Option String :=
  let behind := message.toList.drop missingOpening.length
  if missingOpening.isPrefixOf message.toList && missingClosing.isSuffixOf behind then
    some (String.ofList (behind.take (behind.length - missingClosing.length)))
  else none

/-- The dependencies that remarks call missing, in the order of the remarks. -/
def missingNames (rs : List Remark) : List String :=
  rs.filterMap fun r => missingName? r.message

def missingFound (fs : List Finding) : List String :=
  fs.filterMap fun f => missingName? f.message

theorem missingFound_findings (c : FileCheck) (s : Subject) (w : Surroundings) :
    missingFound (c.findings s w).results = missingNames (c.run s w).results :=
  List.filterMap_map

theorem toList_missingDependency (dep : String) :
    (missingDependency dep).message.toList = missingOpening ++ (dep.toList ++ missingClosing) := by
  show ("The script dependency " ++ dep ++ " could not be found within the VTs.").toList = _
  rw [String.toList_append, String.toList_append, List.append_assoc]
  rfl

/-- A message calls a dependency missing exactly if it is the report of that. -/
theorem missingName?_eq_some_iff {message dep : String} :
    missingName? message = some dep ↔ message = (missingDependency dep).message := by
  unfold missingName?
  simp only
  constructor
  · intro h
    split at h
    · rename_i hform
      rw [Bool.and_eq_true, List.isPrefixOf_iff_prefix, List.isSuffixOf_iff_suffix] at hform
      obtain ⟨⟨behind, hbehind⟩, hclosing⟩ := hform
      rw [← hbehind, List.drop_left] at h hclosing
      obtain ⟨name, rfl⟩ := hclosing
      obtain rfl := Option.some.inj h
      rw [← String.toList_inj, toList_missingDependency, ← hbehind, String.toList_ofList]
      simp
    · cases h
  · rintro rfl
    rw [toList_missingDependency, List.drop_left]
    simp

theorem missingName?_eq_none {message : String}
    (h : ∀ dep, message ≠ (missingDependency dep).message) : missingName? message = none := by
  cases hname : missingName? message with
  | none => rfl
  | some dep => exact absurd (missingName?_eq_some_iff.1 hname) (h dep)

/-- A message that begins with another letter is about something else. -/
theorem missingName?_of_opening {lead rest : String} (h : lead.toList.head?.any (· != 'T') = true) :
    missingName? (lead ++ rest) = none := by
  apply missingName?_eq_none
  intro dep hmessage
  have htexts := congrArg String.toList hmessage
  rw [toList_missingDependency, String.toList_append] at htexts
  cases hlead : lead.toList with
  | nil =>
      rw [hlead] at h
      cases h
  | cons c more =>
      rw [hlead] at h htexts
      obtain ⟨rfl, -⟩ := List.cons.inj htexts
      cases h

/-- A message with another ending, if that is long enough, is about something else. -/
theorem missingName?_of_ending (lead ending : String)
    (hlength : missingClosing.length ≤ ending.toList.length)
    (hending : missingClosing.isSuffixOf ending.toList = false) :
    missingName? (lead ++ ending) = none := by
  apply missingName?_eq_none
  intro dep hmessage
  have htexts := congrArg String.toList hmessage
  rw [toList_missingDependency, ← List.append_assoc, String.toList_append] at htexts
  exact Text.append_ne_append_of_ending hlength hending htexts.symm

/-! ## Looking a dependency up -/

section
variable {tree : FileTree} {root : Path} {dep : String}

/-- The last of the places is looked for in vain exactly if there is none. -/
theorem dependencyPath?_eq_none_iff :
    dependencyPath? tree root dep = none ↔ dependencyExists tree root dep = false := by
  unfold dependencyPath? dependencyExists
  rw [List.getLast?_eq_none_iff, List.filter_eq_nil_iff, List.any_eq_false]

theorem dependencyExists_of_path {path : Path} (h : dependencyPath? tree root dep = some path) :
    dependencyExists tree root dep = true := by
  rw [← Bool.not_eq_false, ← dependencyPath?_eq_none_iff, h]
  exact Option.some_ne_none path

/-! ## What each check reports -/

theorem missingNames_nil_iff {rs : List Remark} :
    missingNames rs = [] ↔ ∀ r ∈ rs, missingName? r.message = none :=
  List.filterMap_eq_nil_iff

theorem missingNames_append (rs more : List Remark) :
    missingNames (rs ++ more) = missingNames rs ++ missingNames more :=
  List.filterMap_append

theorem missingNames_missingDependency (dep : String) :
    missingNames [missingDependency dep] = [dep] := by
  rw [missingNames, List.filterMap_cons, missingName?_eq_some_iff.2 rfl]
  rfl

/-- A dependency in a directory of its own is not called missing. -/
theorem missingName?_folderRemark {parts : List String} {r : Remark}
    (h : folderRemark? dep parts = some r) : missingName? r.message = none := by
  unfold folderRemark? at h
  split at h
  · cases h
  · cases h
  · split at h
    · obtain rfl := Option.some.inj h
      exact missingName?_of_ending _ " is in a subdirectory, which might be misplaced."
        (by decide) (by decide)
    · obtain rfl := Option.some.inj h
      exact missingName?_of_ending _ " is within a subdirectory, which is not allowed."
        (by decide) (by decide)

theorem missingNames_judgePlace :
    missingNames (judgePlace tree root dep).results =
      if dependencyExists tree root dep then [] else [dep] := by
  unfold judgePlace
  cases hexists : dependencyExists tree root dep with
  | false => exact missingNames_missingDependency dep
  | true =>
      simp only [Bool.not_true, Bool.false_eq_true, if_false, if_true]
      split
      · rfl
      · rw [Outcome.done, missingNames_nil_iff]
        intro r hr
        exact missingName?_folderRemark (Option.mem_toList.1 hr)

theorem missingNames_judgeUse :
    missingNames (judgeUse tree root dep).results =
      if dependencyExists tree root dep then [] else [dep] := by
  unfold judgeUse
  cases hpath : dependencyPath? tree root dep with
  | none =>
      rw [dependencyPath?_eq_none_iff.1 hpath]
      exact missingNames_missingDependency dep
  | some path =>
      rw [if_pos (dependencyExists_of_path hpath)]
      simp only
      split
      · rfl
      · split
        · rw [Outcome.done, missingNames_nil_iff, List.forall_mem_singleton]
          show missingName? ("VT depends on " ++ dep ++ ", which is marked as deprecated.") = none
          rw [String.append_assoc]
          exact missingName?_of_opening (by decide)
        · rfl

/-- The category of a dependency that exists is no reason to call it missing. -/
theorem missingName?_orderRemarks {own theirs : Category} {r : Remark}
    (h : r ∈ orderRemarks own dep theirs) : missingName? r.message = none := by
  unfold orderRemarks at h
  simp only [List.mem_append, List.mem_ite_nil_right, List.mem_singleton] at h
  rcases h with ⟨-, rfl⟩ | ⟨-, rfl⟩
  · show missingName? ("Script category " ++ showCategory own ++ " is lower than the category " ++
      showCategory theirs ++ " of the " ++ ("dependency " ++ dep ++ ".")) = none
    simp only [String.append_assoc]
    exact missingName?_of_opening (by decide)
  · show missingName? ("Script depends on " ++ dep ++ " which has the category " ++
      showCategory theirs ++ ", but no VT" ++
      " is allowed to have a direct dependency to VTs in this category.") = none
    simp only [String.append_assoc]
    exact missingName?_of_opening (by decide)

theorem missingName?_missingCategory (script : String) :
    missingName? (missingCategory script) = none :=
  missingName?_of_ending script ": Script category is missing or unsupported." (by decide)
    (by decide)

/-- Judging the order goes on behind a missing dependency, and calls no other one missing. -/
theorem missingNames_judgeOrder {own : Category} {last : Option Category} {deps : List String}
    (h : (judgeOrder tree root own last deps).fault = none) :
    missingNames (judgeOrder tree root own last deps).results =
      deps.filter fun dep => !dependencyExists tree root dep := by
  induction deps generalizing last with
  | nil => rfl
  | cons dep more ih =>
      unfold judgeOrder judgeNext at h ⊢
      cases hpath : dependencyPath? tree root dep with
      | none =>
          simp only [hpath] at h ⊢
          rw [Outcome.following, missingNames_append, missingNames_missingDependency, ih h,
            List.filter_cons_of_pos (by simp [dependencyPath?_eq_none_iff.1 hpath])]
          rfl
      | some path =>
          have hexists := dependencyExists_of_path hpath
          have horder (theirs : Category) : missingNames (orderRemarks own dep theirs) = [] :=
            missingNames_nil_iff.2 fun r hr => missingName?_orderRemarks hr
          simp only [hpath] at h ⊢
          rw [List.filter_cons_of_neg (by simp [hexists])]
          cases htext : tree.readText path with
          | error e => simp [htext, Outcome.fail] at h
          | ok text =>
              simp only [htext] at h ⊢
              cases hcategory : category? text with
              | some theirs =>
                  simp only [hcategory] at h ⊢
                  rw [Outcome.following, missingNames_append, horder, ih h]
                  rfl
              | none =>
                  cases last with
                  | none => simp [hcategory, Outcome.following, Outcome.fail] at h
                  | some theirs =>
                      simp only [hcategory] at h ⊢
                      have hmore : missingNames (.error (missingCategory path.name) ::
                          orderRemarks own dep theirs) = [] := by
                        rw [missingNames_nil_iff, List.forall_mem_cons]
                        exact ⟨missingName?_missingCategory _, fun r => missingName?_orderRemarks⟩
                      rw [Outcome.following, missingNames_append, hmore, ih h]
                      rfl

/-- Where each dependency by itself is called missing exactly if it does not exist, so are all. -/
theorem missingNames_forEach {deps : List String} {judge : String → Outcome Remark}
    (hjudge : ∀ dep, missingNames (judge dep).results =
      if dependencyExists tree root dep then [] else [dep])
    (h : (Outcome.forEach deps judge).fault = none) :
    missingNames (Outcome.forEach deps judge).results =
      deps.filter fun dep => !dependencyExists tree root dep := by
  induction deps with
  | nil => rfl
  | cons dep more ih =>
      obtain ⟨hdep, hmore⟩ := List.forall_mem_cons.1 (Outcome.fault_forEach.1 h)
      show missingNames (Outcome.andThen (judge dep) (.forEach more judge)).results = _
      rw [Outcome.andThen, hdep]
      simp only
      rw [missingNames_append, hjudge, ih (Outcome.fault_forEach.2 hmore)]
      cases hexists : dependencyExists tree root dep with
      | true => simp [hexists]
      | false => simp [hexists]

end

/-! ## Agreement -/

/-- **The checks of dependencies agree.** On a script in use that states a category and lists
dependencies, three checks that come to their ends call the same dependencies missing, in the same
order and equally often: those of the list that stand in no directory of the feed. -/
theorem missing_dependencies_agree {s : Subject} {w : Surroundings} {t : List Char}
    (hfile : s.file.isInclude = false) (htext : s.text = .ok t)
    (hlists : Text.contains "script_dependencies(".toList t = true)
    (hcategory : Call.category.pattern.occursIn t = true)
    (hused : deprecationMark.occursIn t = false)
    (hplace : (dependencyPlacement.findings s w).fault = none)
    (horder : (dependencyOrder.findings s w).fault = none)
    (huse : (dependencyUse.findings s w).fault = none) :
    missingFound (dependencyPlacement.findings s w).results =
        missingFound (dependencyOrder.findings s w).results ∧
      missingFound (dependencyOrder.findings s w).results =
        missingFound (dependencyUse.findings s w).results ∧
      missingFound (dependencyUse.findings s w).results =
        (dependencies t).filter fun dep => !dependencyExists w.tree s.root dep := by
  obtain ⟨own, hown⟩ := Option.isSome_iff_exists.1 (isSome_category?_iff.2 hcategory)
  have hplaces : dependencyPlacement.run s w =
      .forEach (dependencies t) (judgePlace w.tree s.root) := by
    simp only [dependencyPlacement, Subject.unlessInclude, hfile, Subject.withText, htext,
      Bool.false_eq_true, if_false]
  have horders : dependencyOrder.run s w =
      judgeOrder w.tree s.root own none (dependencies t) := by
    simp only [dependencyOrder, Subject.withText, htext, hlists, hown, Bool.not_true,
      Bool.false_eq_true, if_false]
  have huses : dependencyUse.run s w =
      .forEach (dependencies t) (judgeUse w.tree s.root) := by
    simp only [dependencyUse, Subject.unlessInclude, hfile, Subject.withText, htext, hlists, hused,
      Bool.not_true, Bool.or_self, Bool.false_eq_true, if_false]
  change (dependencyPlacement.run s w).fault = none at hplace
  change (dependencyOrder.run s w).fault = none at horder
  change (dependencyUse.run s w).fault = none at huse
  rw [hplaces] at hplace
  rw [horders] at horder
  rw [huses] at huse
  rw [missingFound_findings, missingFound_findings, missingFound_findings, hplaces, horders, huses,
    missingNames_forEach (fun _ => missingNames_judgePlace) hplace, missingNames_judgeOrder horder,
    missingNames_forEach (fun _ => missingNames_judgeUse) huse]
  exact ⟨rfl, rfl, rfl⟩

/-- A script that lists a missing dependency twice, and one that exists in between: all three checks
report the missing one twice. -/
theorem missing_dependencies_agree_of_repeated :
    let text := "script_category(ACT_ATTACK);\n".toList ++
      "script_dependencies(\"x.nasl\", \"b.nasl\", \"x.nasl\");\n".toList
    let s : Subject := { root := ⟨"/", []⟩, file := ⟨"/", ["a.nasl"]⟩, text := .ok text }
    let w : Surroundings :=
      { tree := { entries := [(["common"], .directory 0o755), (["common", "b.nasl"],
          .file 0o644 (Text.toLatin1 "script_category(ACT_INIT);\n".toList))] }
        now := default }
    missingFound (dependencyPlacement.findings s w).results = ["x.nasl", "x.nasl"] ∧
      missingFound (dependencyOrder.findings s w).results = ["x.nasl", "x.nasl"] ∧
      missingFound (dependencyUse.findings s w).results = ["x.nasl", "x.nasl"] := by
  intro text s w
  obtain ⟨hlists, hcategory, hused, hplace, horder, huse, hmissing⟩ :
      Text.contains "script_dependencies(".toList text = true ∧
      Call.category.pattern.occursIn text = true ∧ deprecationMark.occursIn text = false ∧
      (dependencyPlacement.findings s w).fault = none ∧
      (dependencyOrder.findings s w).fault = none ∧
      (dependencyUse.findings s w).fault = none ∧
      ((dependencies text).filter fun dep => !dependencyExists w.tree s.root dep) =
        ["x.nasl", "x.nasl"] := by
    decide +kernel
  obtain ⟨hpo, hou, hu⟩ := missing_dependencies_agree (s := s) (w := w) (by decide) rfl hlists
    hcategory hused hplace horder huse
  rw [hpo, hou, hu, hmissing]
  exact ⟨rfl, rfl, rfl⟩

end NaslLint.Checks
