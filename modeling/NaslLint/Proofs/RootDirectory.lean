import Mathlib.Data.List.Infix
import NaslLint.Proofs.Path

/-!
# The root directory of a file

The directory that holds all scripts is the nearest one above a file with the right name. What leads
from there to the file is the path that is reported, so nothing of it may be lost.

* `Path.Above` is the order of directories and what lies in them; `Path.mem_parents_iff` and
  `Path.pairwise_parents` say that `Path.parents` lists it, the nearest first.
* `Path.above_of_find?_parents` says that what is found there is the nearest of its kind.
* `Path.exists_relativeTo?` says that what remains below a directory leads back.
-/

namespace NaslLint.Path

variable {p d : Path} {here : List String}

/-! ## Directories above a path -/

/-- The directory `d` is on the way to `p` and is not `p` itself. -/
def Above (d p : Path) : Prop :=
  d.anchor = p.anchor ∧ d.names <+: p.names ∧ d.names ≠ p.names

instance (d p : Path) : Decidable (d.Above p) :=
  inferInstanceAs (Decidable (_ ∧ _ ∧ _))

theorem above_iff_exists_take :
    d.Above p ↔ ∃ k < p.names.length, d = { p with names := p.names.take k } := by
  constructor
  · rintro ⟨hanchor, hnames, hne⟩
    have hlt : d.names.length < p.names.length :=
      lt_of_le_of_ne hnames.length_le fun h => hne (hnames.eq_of_length h)
    refine ⟨d.names.length, hlt, ?_⟩
    rw [← List.prefix_iff_eq_take.1 hnames, ← hanchor]
  · rintro ⟨k, hk, rfl⟩
    refine ⟨rfl, List.take_prefix k p.names, fun h => ?_⟩
    have hlength := congrArg List.length h
    rw [List.length_take] at hlength
    omega

theorem mem_parents_iff : d ∈ p.parents ↔ d.Above p := by
  rw [above_iff_exists_take, parents, List.mem_map]
  constructor
  · rintro ⟨i, hi, rfl⟩
    rw [List.mem_range] at hi
    exact ⟨p.names.length - 1 - i, by omega, rfl⟩
  · rintro ⟨k, hk, rfl⟩
    refine ⟨p.names.length - 1 - k, List.mem_range.2 (by omega), ?_⟩
    rw [show p.names.length - 1 - (p.names.length - 1 - k) = k by omega]

/-- Each of the parents lies above those listed before it. -/
theorem pairwise_parents (p : Path) : p.parents.Pairwise fun near far => far.Above near := by
  rw [parents, List.pairwise_map]
  refine List.pairwise_lt_range.imp_of_mem fun {i j} hi hj hij => ?_
  rw [List.mem_range] at hi hj
  refine above_iff_exists_take.2 ⟨p.names.length - 1 - j, ?_, ?_⟩
  · rw [List.length_take]
    omega
  · rw [List.take_take, min_eq_left (by omega)]

/-! ## Normal form -/

/-- An absolute path in normal form: one slash in front, and no name that stands for another
directory. -/
def IsNormal (p : Path) : Prop :=
  p.anchor = "/" ∧ ∀ n ∈ p.names, IsName n ∧ n ≠ ".."

instance (p : Path) : Decidable p.IsNormal :=
  inferInstanceAs (Decidable (_ ∧ _))

theorem normalize_of_not_mem {names : List String} (h : ".." ∉ names) :
    normalize names = names := by
  have hfold (acc : List String) :
      names.foldl (fun acc n => if n == ".." then acc.tail else n :: acc) acc =
        names.reverse ++ acc := by
    induction names generalizing acc with
    | nil => rfl
    | cons n names ih =>
        rw [List.mem_cons, not_or] at h
        rw [List.foldl_cons, if_neg (by simpa using Ne.symm h.1), ih h.2]
        simp
  rw [normalize, hfold, List.append_nil, List.reverse_reverse]

namespace IsNormal

theorem eq_absoluteOf (hp : p.IsNormal) : p = absoluteOf p.names := by
  rw [absoluteOf, ← hp.1]

theorem absolute_eq (hp : p.IsNormal) : p.absolute here = p := by
  rw [absolute, if_pos (by rw [isAbsolute, hp.1]; decide)]

theorem resolve_eq (hp : p.IsNormal) : p.resolve here = p := by
  rw [resolve, hp.absolute_eq, normalize_of_not_mem fun h => (hp.2 _ h).2 rfl]
  exact hp.eq_absoluteOf.symm

/-- Above a path in normal form, only the root of the tree has no name. -/
theorem eq_of_name_eq_empty (hp : p.IsNormal) (hd : d.Above p) (hname : d.name = "") :
    d = absoluteOf [] := by
  obtain ⟨hanchor, hnames, -⟩ := hd
  have hnil : d.names = [] := by
    by_contra hne
    have hlast : d.name ∈ d.names := by
      rw [name, List.getLastD_eq_getLast?, List.getLast?_eq_some_getLast hne]
      exact List.getLast_mem hne
    exact (hp.2 _ (hnames.subset hlast)).1.1 hname
  rw [absoluteOf, ← hnil, ← hp.1, ← hanchor]

end IsNormal

/-! ## The root -/

/-- What is found among the parents is the nearest of its kind. -/
theorem above_of_find?_parents {q : Path → Bool} {root : Path} (h : p.parents.find? q = some root)
    (hd : d.Above p) (hq : q d = true) : d = root ∨ d.Above root := by
  obtain ⟨-, before, behind, hparents, hbefore⟩ := List.find?_eq_some_iff_append.1 h
  have hpairwise := p.pairwise_parents
  have hmem := mem_parents_iff.2 hd
  rw [hparents] at hpairwise hmem
  rcases List.mem_append.1 hmem with hmem | hmem
  · have hnot := hbefore d hmem
    rw [hq] at hnot
    cases hnot
  · rcases List.mem_cons.1 hmem with rfl | hmem
    · exact Or.inl rfl
    · exact Or.inr (List.rel_of_pairwise_cons (List.pairwise_append.1 hpairwise).2.1 hmem)

/-- What remains of a path below a directory leads from there to the path. -/
theorem exists_relativeTo? (hanchor : d.anchor = p.anchor) (hnames : d.names <+: p.names) :
    ∃ relative, p.relativeTo? d = some relative ∧ d / relative = p := by
  obtain ⟨rest, hrest⟩ := hnames
  refine ⟨⟨"", rest⟩, ?_, ?_⟩
  · rw [relativeTo?, ← hrest, List.drop_left, if_pos]
    simp [hanchor]
  · change (⟨d.anchor, d.names ++ rest⟩ : Path) = p
    rw [hrest, hanchor]

namespace IsNormal

/-- The root of a file is found among its parents, unless the file is the root of the tree. -/
theorem rootOf_cases (hp : p.IsNormal) :
    (p = absoluteOf [] ∧ p.rootOf here = p) ∨
      p.parents.find? (fun d => d.name == "" || d.name == "nasl") = some (p.rootOf here) := by
  rw [rootOf, hp.resolve_eq]
  cases hfind : p.parents.find? fun d => d.name == "" || d.name == "nasl" with
  | some root => exact Or.inr rfl
  | none =>
      refine Or.inl ⟨?_, rfl⟩
      by_contra hne
      have hroot : (absoluteOf []).Above p := by
        refine ⟨hp.1.symm, List.nil_prefix, fun hnil => hne ?_⟩
        rw [hp.eq_absoluteOf, ← hnil]
        rfl
      exact List.find?_eq_none.1 hfind _ (mem_parents_iff.2 hroot) rfl

theorem rootOf_names_isPrefix (hp : p.IsNormal) :
    (p.rootOf here).anchor = p.anchor ∧ (p.rootOf here).names <+: p.names := by
  rcases hp.rootOf_cases with ⟨-, hroot⟩ | hfind
  · rw [hroot]
    exact ⟨rfl, List.prefix_rfl⟩
  · obtain ⟨hanchor, hnames, -⟩ := mem_parents_iff.1 (List.mem_of_find?_eq_some hfind)
    exact ⟨hanchor, hnames⟩

theorem name_rootOf (hp : p.IsNormal) :
    p.rootOf here = absoluteOf [] ∨ (p.rootOf here).name = "nasl" := by
  rcases hp.rootOf_cases with ⟨hroot, hself⟩ | hfind
  · exact Or.inl (hself.trans hroot)
  · have hname : (p.rootOf here).name = "" ∨ (p.rootOf here).name = "nasl" := by
      simpa using List.find?_some hfind
    have habove := mem_parents_iff.1 (List.mem_of_find?_eq_some hfind)
    exact hname.imp_left (hp.eq_of_name_eq_empty habove)

/-- Every directory above the file that could be its root lies at or above it. -/
theorem above_rootOf (hp : p.IsNormal) (hd : d.Above p) (hname : d.name = "nasl") :
    (p.rootOf here).Above p ∧ (d = p.rootOf here ∨ d.Above (p.rootOf here)) := by
  rcases hp.rootOf_cases with ⟨hroot, -⟩ | hfind
  · obtain ⟨-, hnames, hne⟩ := hd
    rw [hroot] at hnames hne
    exact absurd (List.prefix_nil.1 hnames) hne
  · exact ⟨mem_parents_iff.1 (List.mem_of_find?_eq_some hfind),
      above_of_find?_parents hfind hd (by simp [hname])⟩

end IsNormal

/-- **The root and the rest make up the path.** If a directory above a file is named `nasl`, its root is
such a directory, and all others lie above that one; if none is, it is the root of the tree. The file
lies below its root, and what remains of its path leads from there to the file. -/
theorem root_and_rest_recompose (here : List String) (hp : p.IsNormal) :
    ((∃ d : Path, d.Above p ∧ d.name = "nasl") →
        (p.rootOf here).Above p ∧ (p.rootOf here).name = "nasl" ∧
          ∀ d : Path, d.Above p → d.name = "nasl" → d = p.rootOf here ∨ d.Above (p.rootOf here)) ∧
      ((∀ d : Path, d.Above p → d.name ≠ "nasl") → p.rootOf here = absoluteOf []) ∧
      ∃ relative, p.fromRoot? (p.rootOf here) here = some relative ∧
        p.rootOf here / relative = p := by
  refine ⟨?_, fun hnone => ?_, ?_⟩
  · rintro ⟨d, hd, hname⟩
    obtain ⟨habove, hnearest⟩ := hp.above_rootOf hd hname
    refine ⟨habove, hp.name_rootOf.resolve_left fun hroot => ?_, fun d hd hname =>
      (hp.above_rootOf hd hname).2⟩
    -- Nothing lies above the root of the tree, and its own name is another one.
    rw [hroot] at hnearest
    rcases hnearest with rfl | ⟨-, hnames, hne⟩
    · revert hname
      decide
    · exact hne (List.prefix_nil.1 hnames)
  · refine hp.name_rootOf.resolve_right fun hname => ?_
    rcases hp.rootOf_cases with ⟨hroot, hself⟩ | hfind
    · rw [hself, hroot] at hname
      revert hname
      decide
    · exact hnone _ (mem_parents_iff.1 (List.mem_of_find?_eq_some hfind)) hname
  · obtain ⟨hanchor, hnames⟩ := hp.rootOf_names_isPrefix
    have habsolute : (p.rootOf here).absolute here = p.rootOf here := by
      rw [absolute, if_pos (by rw [isAbsolute, hanchor, hp.1]; decide)]
    rw [fromRoot?, hp.resolve_eq, habsolute]
    exact exists_relativeTo? hanchor hnames

/-- A file named like the directory, below two such directories. -/
theorem root_and_rest_recompose_of_nested :
    let p : Path := ⟨"/", ["nasl", "common", "nasl", "gsf", "nasl"]⟩
    let here := ["home", "nasl"]
    p.IsNormal ∧ p.rootOf here = ⟨"/", ["nasl", "common", "nasl"]⟩ ∧
      (∀ d : Path, d.Above p → d.name = "nasl" → d = p.rootOf here ∨ d.Above (p.rootOf here)) ∧
      ∃ relative, p.fromRoot? (p.rootOf here) here = some relative ∧
        p.rootOf here / relative = p := by
  intro p here
  have hp : p.IsNormal := by decide
  obtain ⟨hnearest, -, hrest⟩ := root_and_rest_recompose here hp
  have hnasl : ∃ d : Path, d.Above p ∧ d.name = "nasl" := ⟨⟨"/", ["nasl"]⟩, by decide, by decide⟩
  exact ⟨hp, by decide, (hnearest hnasl).2.2, hrest⟩

end NaslLint.Path
