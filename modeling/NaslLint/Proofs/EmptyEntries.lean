import NaslLint.Proofs.ListedDependencies

/-!
# Empty entries in lists of dependencies

Between two commas of a list, or behind the last of them, there may be no name at all. Such an entry
is taken for the name of a dependency like any other. It denotes the root directory, which exists, so
it is not reported missing: one check then asks for its first part and another one for its text, and
both fail.

* `Checks.hasEmptyEntry_iff` says which texts list the empty name.
* `Checks.dependency_checks_complete_iff`: where the dependencies with names can be read, the two
  checks come to their ends exactly if the empty name is not listed.
-/

namespace NaslLint

namespace Checks

open Pattern

/-! ## Empty entries -/

/-- Some call has an entry that is nothing but quotes and blanks. -/
def HasEmptyEntry (t : List Char) : Prop :=
  ∃ m ∈ Call.dependencies.pattern.findAll t, ∃ entry ∈ Text.splitOn ',' (m.group "value"),
    ∀ c ∈ entry, c = '\'' ∨ c = '"' ∨ Text.isBlank c = true

/-- A list has the empty name exactly if one of its entries is empty. -/
theorem empty_mem_dependencyNames_iff {value : List Char} :
    "" ∈ dependencyNames value ↔ ∃ entry ∈ Text.splitOn ',' value,
      ∀ c ∈ entry, c = '\'' ∨ c = '"' ∨ Text.isBlank c = true := by
  have hempty (x : List Char) : String.ofList x = "" ↔ x = [] := by
    rw [← String.toList_inj, String.toList_ofList]
    rfl
  rw [dependencyNames, Text.splitOn_filter rfl, List.map_map, List.mem_map]
  refine exists_congr fun entry => and_congr_right fun _ => ?_
  rw [Function.comp_apply, hempty, List.filter_eq_nil_iff]
  refine forall₂_congr fun c _ => ?_
  rw [Bool.not_eq_true', Bool.not_eq_false, Bool.or_eq_true, Bool.or_eq_true, beq_iff_eq, beq_iff_eq,
    or_assoc]

theorem hasEmptyEntry_iff {t : List Char} : HasEmptyEntry t ↔ "" ∈ dependencies t := by
  rw [dependencies, List.mem_filter, List.mem_flatMap, and_iff_left (by decide)]
  exact exists_congr fun m => and_congr_right fun _ => empty_mem_dependencyNames_iff.symm

/-! ## Dependencies without a name -/

/-- Wherever a dependency with a name exists, it is a file that can be read. -/
def NamedReadable (tree : FileTree) (root : Path) (deps : List String) : Prop :=
  ∀ dep ∈ deps, dep ≠ "" → ∀ place ∈ dependencyPlaces root dep, tree.exists? place = true →
    ∃ text, tree.readText place = .ok text

section
variable {s : Subject} {w : Surroundings} {t : List Char}
  {tree : FileTree} {root : Path} {dep : String} {deps : List String}

/-- The last place of a dependency is the root directory itself, if the name has no parts. -/
theorem dependencyPlaces_of_nameless (root : Path) (hparts : (Path.ofString dep).parts = []) :
    ∃ more, dependencyPlaces root dep = more ++ [root] := by
  have hlast : root / "" / dep = root := by
    rw [Path.div_eq_self hparts, Path.div_eq_self (by decide)]
  have hplaces : dependencyPlaces root dep =
      (["common", "21.04", "22.04"].map fun dir => root / dir / dep) ++ [root / "" / dep] := rfl
  exact ⟨_, hlast ▸ hplaces⟩

theorem dependencyPath?_of_nameless (hroot : tree.isDirectory root = true)
    (hparts : (Path.ofString dep).parts = []) : dependencyPath? tree root dep = some root := by
  obtain ⟨more, hplaces⟩ := dependencyPlaces_of_nameless root hparts
  rw [dependencyPath?, hplaces, List.filter_append,
    List.filter_cons_of_pos (FileTree.exists?_of_isDirectory hroot), List.filter_nil,
    List.getLast?_concat]

/-- A name without parts cannot be judged by them. -/
theorem fault_judgePlace_of_nameless (hroot : tree.isDirectory root = true)
    (hparts : (Path.ofString dep).parts = []) :
    (judgePlace tree root dep).fault = some .namelessDependency := by
  unfold judgePlace
  rw [dependencyExists_of_path (dependencyPath?_of_nameless hroot hparts), hparts]
  rfl

theorem fault_judgeUse_of_nameless (hroot : tree.isDirectory root = true)
    (hparts : (Path.ofString dep).parts = []) :
    (judgeUse tree root dep).fault = some (.access .isDirectory) := by
  unfold judgeUse
  simp only [dependencyPath?_of_nameless hroot hparts, FileTree.readText_of_isDirectory hroot]
  rfl

/-- Only the empty name is without parts, if the others stand for files. -/
theorem NamedReadable.parts_ne_nil (h : NamedReadable tree root deps)
    (hroot : tree.isDirectory root = true) (hdep : dep ∈ deps) (hne : dep ≠ "") :
    (Path.ofString dep).parts ≠ [] := by
  intro hparts
  obtain ⟨more, hplaces⟩ := dependencyPlaces_of_nameless root hparts
  obtain ⟨text, htext⟩ := h dep hdep hne root (by simp [hplaces])
    (FileTree.exists?_of_isDirectory hroot)
  rw [FileTree.readText_of_isDirectory hroot] at htext
  cases htext

theorem NamedReadable.fault_judgeUse (h : NamedReadable tree root deps) (hdep : dep ∈ deps)
    (hne : dep ≠ "") : (judgeUse tree root dep).fault = none := by
  unfold judgeUse
  cases hpath : dependencyPath? tree root dep with
  | none => rfl
  | some path =>
      obtain ⟨hplace, hexists⟩ := List.mem_filter.1 (List.mem_of_getLast? hpath)
      obtain ⟨text, htext⟩ := h dep hdep hne path hplace hexists
      simp only [htext]
      split <;> rfl

/-- Where work fails on the empty name only, it fails on a list exactly if that is listed. -/
theorem fault_forEach_iff_of_nameless (deps : List String) {work : String → Outcome Remark}
    {fault : Fault} (hempty : (work "").fault = some fault)
    (hnamed : ∀ dep ∈ deps, dep ≠ "" → (work dep).fault = none) :
    ((Outcome.forEach deps work).fault = none ↔ "" ∉ deps) ∧
      ∀ other, (Outcome.forEach deps work).fault = some other → other = fault := by
  constructor
  · rw [Outcome.fault_forEach]
    constructor
    · intro hnone hmem
      rw [hnone "" hmem] at hempty
      cases hempty
    · intro hmem dep hdep
      exact hnamed dep hdep fun h => hmem (h ▸ hdep)
  · intro other hother
    obtain ⟨dep, hdep, hfault⟩ := Outcome.exists_fault_of_forEach hother
    by_cases hne : dep = ""
    · rw [hne, hempty] at hfault
      exact (Option.some.inj hfault).symm
    · rw [hnamed dep hdep hne] at hfault
      cases hfault

theorem run_dependencyUse (hfile : s.file.isInclude = false) (htext : s.text = .ok t) :
    dependencyUse.run s w =
      if !Text.contains "script_dependencies(".toList t || deprecationMark.occursIn t then .done []
      else .forEach (dependencies t) (judgeUse w.tree s.root) := by
  simp only [dependencyUse, Subject.unlessInclude, hfile, Subject.withText, htext,
    Bool.false_eq_true, if_false]

/-- **Empty entries end the checks of dependencies.** The root directory exists, and every listed
dependency with a name is a file that can be read wherever it exists. Then the check of places comes
to its end exactly if no call has an empty entry, and the check of deprecation exactly if it has
nothing to look at, or no call has one. What ends them is that a dependency has no name, and that a
directory has no text. -/
theorem dependency_checks_complete_iff (hfile : s.file.isInclude = false) (htext : s.text = .ok t)
    (hroot : w.tree.isDirectory s.root = true)
    (hnamed : NamedReadable w.tree s.root (dependencies t)) :
    ((dependencyPlacement.findings s w).fault = none ↔ ¬ HasEmptyEntry t) ∧
      ((dependencyUse.findings s w).fault = none ↔
        Text.contains "script_dependencies(".toList t = false ∨ deprecationMark.occursIn t = true ∨
          ¬ HasEmptyEntry t) ∧
      (∀ fault, (dependencyPlacement.findings s w).fault = some fault →
        fault = .namelessDependency) ∧
      ∀ fault, (dependencyUse.findings s w).fault = some fault → fault = .access .isDirectory := by
  have hnameless : (Path.ofString "").parts = [] := by decide
  obtain ⟨hplace, hplaceFault⟩ := fault_forEach_iff_of_nameless (dependencies t)
    (fault_judgePlace_of_nameless hroot hnameless)
    fun dep hdep hne => fault_judgePlace (hnamed.parts_ne_nil hroot hdep hne)
  obtain ⟨huse, huseFault⟩ := fault_forEach_iff_of_nameless (dependencies t)
    (fault_judgeUse_of_nameless hroot hnameless) fun dep => hnamed.fault_judgeUse
  rw [hasEmptyEntry_iff]
  change ((dependencyPlacement.run s w).fault = none ↔ _) ∧
    ((dependencyUse.run s w).fault = none ↔ _) ∧
    (∀ fault, (dependencyPlacement.run s w).fault = some fault → _) ∧
    ∀ fault, (dependencyUse.run s w).fault = some fault → _
  rw [run_dependencyPlacement hfile htext, run_dependencyUse hfile htext]
  by_cases hidle : (!Text.contains "script_dependencies(".toList t || deprecationMark.occursIn t) = true
  · rw [if_pos hidle]
    rw [Bool.or_eq_true, Bool.not_eq_true'] at hidle
    refine ⟨hplace, iff_of_true rfl ?_, hplaceFault, fun _ h => by cases h⟩
    rw [← or_assoc]
    exact Or.inl hidle
  · rw [if_neg hidle]
    rw [Bool.or_eq_true, Bool.not_eq_true'] at hidle
    refine ⟨hplace, ?_, hplaceFault, huseFault⟩
    rw [huse, ← or_assoc, or_iff_right hidle]

end

/-- A list with an empty entry in a script that is marked as deprecated: the one check fails, and the
other has nothing to look at. -/
theorem dependency_checks_complete_of_deprecated :
    let text := "script_dependencies(\"b.nasl\", );\nexit(66);\n".toList
    let s : Subject := { root := ⟨"/", []⟩, file := ⟨"/", ["a.nasl"]⟩, text := .ok text }
    let w : Surroundings := { tree := { entries := [(["b.nasl"], .file 0o644 [])] }, now := default }
    (dependencyPlacement.findings s w).fault ≠ none ∧ (dependencyUse.findings s w).fault = none := by
  intro text s w
  obtain ⟨hdeps, hmark⟩ :
      dependencies text = ["b.nasl", ""] ∧ deprecationMark.occursIn text = true := by
    decide +kernel
  have hreadable : ∀ place ∈ dependencyPlaces s.root "b.nasl", w.tree.exists? place = true →
      w.tree.readText place = .ok [] := by
    decide +kernel
  have hnamed : NamedReadable w.tree s.root (dependencies text) := by
    rw [hdeps]
    intro dep hdep hne place hplace hexists
    obtain rfl : dep = "b.nasl" := by simpa [hne] using hdep
    exact ⟨[], hreadable place hplace hexists⟩
  obtain ⟨hplacement, huse, -⟩ := dependency_checks_complete_iff (s := s) (w := w) (by decide) rfl
    (by decide) hnamed
  refine ⟨fun h => hplacement.1 h (hasEmptyEntry_iff.2 ?_), huse.2 (Or.inr (Or.inl hmark))⟩
  rw [hdeps]
  decide

/-- Behind a trailing comma both checks fail, though the dependency in front of it exists. -/
theorem dependency_checks_fail_of_trailing_comma :
    let text := "script_dependencies(\"b.nasl\",);\n".toList
    let s : Subject := { root := ⟨"/", []⟩, file := ⟨"/", ["a.nasl"]⟩, text := .ok text }
    let w : Surroundings := { tree := { entries := [(["b.nasl"], .file 0o644 [])] }, now := default }
    dependencies text = ["b.nasl", ""] ∧
      dependencyPlacement.findings s w = .fail .namelessDependency ∧
      dependencyUse.findings s w = .fail (.access .isDirectory) := by
  decide +kernel

end Checks

end NaslLint
