import NaslLint.Proofs.ListedDependencies

/-!
# Judging dependencies by their categories

Dependencies are judged one after the other, and one that states no category is judged by the category
of another one: that of the last dependency before it that states one. Where there is none, the check
fails. So dependencies are not judged apart from each other.

* `Checks.aloneRemarks` is what is said of a dependency that is the only one.
* `Checks.judgeOrder_cons` says what one dependency adds to the judgement of those behind it.
* `Checks.fault_judgeOrder_iff` says when all of them are judged to the end, and
  `Checks.judgeOrder_apart_iff` when they are judged as if each were the only one.
-/

namespace NaslLint.Checks

open Pattern

/-! ## What is known of a dependency -/

/-- The category of a dependency that exists and states one. -/
def categoryOf? (tree : FileTree) (root : Path) (dep : String) : Option Category :=
  (dependencyPath? tree root dep).bind fun path => (tree.readText path).toOption.bind category?

def Uncategorized (tree : FileTree) (root : Path) (dep : String) : Prop :=
  dependencyExists tree root dep = true ∧ categoryOf? tree root dep = none

instance (tree : FileTree) (root : Path) (dep : String) : Decidable (Uncategorized tree root dep) :=
  inferInstanceAs (Decidable (_ ∧ _))

/-- Every dependency that exists can be read. -/
def Readable (tree : FileTree) (root : Path) (deps : List String) : Prop :=
  ∀ dep ∈ deps, ∀ path, dependencyPath? tree root dep = some path →
    ∃ text, tree.readText path = .ok text

/-- The category determined last, where one may have been determined before. -/
def latestCategory (tree : FileTree) (root : Path) (last : Option Category) (deps : List String) :
    Option Category :=
  deps.foldl (fun last dep => (categoryOf? tree root dep).or last) last

def aloneRemarks (tree : FileTree) (root : Path) (own : Category) (dep : String) : List Remark :=
  (judgeOrder tree root own none [dep]).results

/-- What is said of a dependency by the category of another one. -/
def carriedRemarks (tree : FileTree) (root : Path) (own : Category) (last : Option Category)
    (dep : String) : List Remark :=
  if Uncategorized tree root dep then (last.map (orderRemarks own dep)).getD [] else []

section
variable {tree : FileTree} {root : Path} {own : Category} {last : Option Category} {dep : String}
  {deps more : List String}

theorem Readable.head (h : Readable tree root (dep :: more)) :
    ∀ path, dependencyPath? tree root dep = some path → ∃ text, tree.readText path = .ok text :=
  h dep List.mem_cons_self

theorem Readable.tail (h : Readable tree root (dep :: more)) : Readable tree root more :=
  fun dep hdep => h dep (List.mem_cons_of_mem _ hdep)

theorem latestCategory_nil : latestCategory tree root last [] = last := rfl

theorem latestCategory_cons : latestCategory tree root last (dep :: deps) =
    latestCategory tree root ((categoryOf? tree root dep).or last) deps :=
  List.foldl_cons ..

/-! ## One dependency -/

theorem results_following_nil (remarks : List Remark) :
    (Outcome.following remarks (judgeOrder tree root own last [])).results = remarks :=
  List.append_nil remarks

theorem judgeOrder_cons_of_missing (hpath : dependencyPath? tree root dep = none) :
    judgeOrder tree root own last (dep :: more) =
      .following [missingDependency dep] (judgeOrder tree root own last more) := by
  conv_lhs => unfold judgeOrder judgeNext
  simp only [hpath]

section
variable {path : Path} {text : List Char}

theorem judgeOrder_cons_of_category {theirs : Category}
    (hpath : dependencyPath? tree root dep = some path) (htext : tree.readText path = .ok text)
    (hcategory : category? text = some theirs) :
    judgeOrder tree root own last (dep :: more) =
      .following (orderRemarks own dep theirs) (judgeOrder tree root own (some theirs) more) := by
  conv_lhs => unfold judgeOrder judgeNext
  simp only [hpath, htext, hcategory]

theorem judgeOrder_cons_of_carried {theirs : Category}
    (hpath : dependencyPath? tree root dep = some path) (htext : tree.readText path = .ok text)
    (hcategory : category? text = none) :
    judgeOrder tree root own (some theirs) (dep :: more) =
      .following (.error (missingCategory path.name) :: orderRemarks own dep theirs)
        (judgeOrder tree root own (some theirs) more) := by
  conv_lhs => unfold judgeOrder judgeNext
  simp only [hpath, htext, hcategory]

theorem judgeOrder_cons_of_undetermined
    (hpath : dependencyPath? tree root dep = some path) (htext : tree.readText path = .ok text)
    (hcategory : category? text = none) :
    judgeOrder tree root own none (dep :: more) =
      .following [.error (missingCategory path.name)] (.fail .undeterminedCategory) := by
  conv_lhs => unfold judgeOrder judgeNext
  simp only [hpath, htext, hcategory]

theorem categoryOf?_eq (hpath : dependencyPath? tree root dep = some path)
    (htext : tree.readText path = .ok text) : categoryOf? tree root dep = category? text := by
  rw [categoryOf?, hpath, Option.bind_some, htext]
  rfl

end

theorem aloneRemarks_of_uncategorized (own : Category)
    (hread : ∀ path, dependencyPath? tree root dep = some path →
      ∃ text, tree.readText path = .ok text) (h : Uncategorized tree root dep) :
    ∃ path text, dependencyPath? tree root dep = some path ∧ tree.readText path = .ok text ∧
      category? text = none ∧
      aloneRemarks tree root own dep = [.error (missingCategory path.name)] := by
  cases hpath : dependencyPath? tree root dep with
  | none =>
      obtain ⟨hexists, -⟩ := h
      rw [dependencyPath?_eq_none_iff.1 hpath] at hexists
      cases hexists
  | some path =>
      obtain ⟨text, htext⟩ := hread path hpath
      have hcategory : category? text = none := by rw [← categoryOf?_eq hpath htext, h.2]
      refine ⟨path, text, rfl, htext, hcategory, ?_⟩
      rw [aloneRemarks, judgeOrder_cons_of_undetermined hpath htext hcategory]
      rfl

/-- **Where the judgement ends.** The first dependency without a category, if none has been
determined before. -/
theorem judgeOrder_cons_of_uncategorized
    (hread : ∀ path, dependencyPath? tree root dep = some path →
      ∃ text, tree.readText path = .ok text) (h : Uncategorized tree root dep) :
    judgeOrder tree root own none (dep :: more) =
      .following (aloneRemarks tree root own dep) (.fail .undeterminedCategory) := by
  obtain ⟨path, text, hpath, htext, hcategory, halone⟩ := aloneRemarks_of_uncategorized own hread h
  rw [halone, judgeOrder_cons_of_undetermined hpath htext hcategory]

/-- **Where the judgement goes on.** Any other dependency adds what is said of it alone and, by the
category determined last, what is carried over. -/
theorem judgeOrder_cons (hread : ∀ path, dependencyPath? tree root dep = some path →
      ∃ text, tree.readText path = .ok text) (h : Uncategorized tree root dep → last ≠ none) :
    judgeOrder tree root own last (dep :: more) =
      .following (aloneRemarks tree root own dep ++ carriedRemarks tree root own last dep)
        (judgeOrder tree root own ((categoryOf? tree root dep).or last) more) := by
  by_cases hdep : Uncategorized tree root dep
  · obtain ⟨path, text, hpath, htext, hcategory, halone⟩ :=
      aloneRemarks_of_uncategorized own hread hdep
    obtain ⟨theirs, rfl⟩ := Option.ne_none_iff_exists'.1 (h hdep)
    rw [judgeOrder_cons_of_carried hpath htext hcategory, halone, carriedRemarks, if_pos hdep, hdep.2,
      Option.none_or]
    rfl
  · rw [carriedRemarks, if_neg hdep, List.append_nil, aloneRemarks]
    cases hpath : dependencyPath? tree root dep with
    | none =>
        rw [judgeOrder_cons_of_missing hpath, judgeOrder_cons_of_missing hpath,
          results_following_nil, categoryOf?, hpath, Option.bind_none, Option.none_or]
    | some path =>
        obtain ⟨text, htext⟩ := hread path hpath
        cases hcategory : category? text with
        | none =>
            exact absurd ⟨dependencyExists_of_path hpath,
              (categoryOf?_eq hpath htext).trans hcategory⟩ hdep
        | some theirs =>
            rw [judgeOrder_cons_of_category hpath htext hcategory,
              judgeOrder_cons_of_category hpath htext hcategory, results_following_nil,
              categoryOf?_eq hpath htext, hcategory, Option.some_or]

theorem carriedRemarks_eq_nil_iff (h : Uncategorized tree root dep → last ≠ none) :
    carriedRemarks tree root own last dep = [] ↔
      (Uncategorized tree root dep →
        ∃ theirs, last = some theirs ∧ orderRemarks own dep theirs = []) := by
  rw [carriedRemarks]
  by_cases hdep : Uncategorized tree root dep
  · obtain ⟨theirs, rfl⟩ := Option.ne_none_iff_exists'.1 (h hdep)
    simp [hdep]
  · simp [hdep]

/-! ## All dependencies -/

/-- What holds of every item and those before it, seen from the first one. -/
theorem forall_split_cons {α : Type} {P : List α → α → Prop} {x : α} {xs : List α} :
    (∀ before y after, x :: xs = before ++ y :: after → P before y) ↔
      P [] x ∧ ∀ before y after, xs = before ++ y :: after → P (x :: before) y := by
  constructor
  · intro h
    refine ⟨h [] x xs rfl, fun before y after hxs => h (x :: before) y after ?_⟩
    rw [hxs, List.cons_append]
  · rintro ⟨hx, hxs⟩ before y after heq
    cases before with
    | nil =>
        obtain ⟨rfl, -⟩ := List.cons.inj heq
        exact hx
    | cons b before =>
        obtain ⟨rfl, hrest⟩ := List.cons.inj heq
        exact hxs before y after hrest

/-- Dependencies are judged to the end exactly if each of them that states no category has one that
does before it. -/
theorem fault_judgeOrder_iff (hread : Readable tree root deps) :
    (judgeOrder tree root own last deps).fault = none ↔
      ∀ before dep after, deps = before ++ dep :: after → Uncategorized tree root dep →
        latestCategory tree root last before ≠ none := by
  induction deps generalizing last with
  | nil => exact iff_of_true rfl fun before dep after h => by simp at h
  | cons dep more ih =>
      rw [forall_split_cons]
      simp only [latestCategory_nil, latestCategory_cons]
      by_cases hgoes : Uncategorized tree root dep → last ≠ none
      · rw [judgeOrder_cons hread.head hgoes]
        rw [← ih hread.tail, and_iff_right hgoes]
        rfl
      · obtain ⟨hdep, hlast⟩ := Classical.not_imp.1 hgoes
        obtain rfl := not_not.1 hlast
        rw [judgeOrder_cons_of_uncategorized hread.head hdep]
        exact iff_of_false (Option.some_ne_none _) fun h => hgoes h.1

/-- Dependencies that are judged to the end are all judged, whatever is carried over. -/
theorem flatMap_aloneRemarks_sublist (hread : Readable tree root deps)
    (h : (judgeOrder tree root own last deps).fault = none) :
    (deps.flatMap (aloneRemarks tree root own)).Sublist
      (judgeOrder tree root own last deps).results := by
  induction deps generalizing last with
  | nil => exact List.Sublist.slnil
  | cons dep more ih =>
      have hgoes : Uncategorized tree root dep → last ≠ none :=
        (forall_split_cons.1 ((fault_judgeOrder_iff hread).1 h)).1
      rw [judgeOrder_cons hread.head hgoes] at h ⊢
      rw [List.flatMap_cons]
      exact (List.sublist_append_left _ _).append (ih hread.tail h)

/-- **Dependencies are judged apart from each other** exactly if each of them that states no category
has one that does before it, the last of which gives rise to no remark. -/
theorem judgeOrder_apart_iff (hread : Readable tree root deps) :
    ((judgeOrder tree root own last deps).fault = none ∧
        (judgeOrder tree root own last deps).results = deps.flatMap (aloneRemarks tree root own)) ↔
      ∀ before dep after, deps = before ++ dep :: after → Uncategorized tree root dep →
        ∃ theirs, latestCategory tree root last before = some theirs ∧
          orderRemarks own dep theirs = [] := by
  induction deps generalizing last with
  | nil => exact iff_of_true ⟨rfl, rfl⟩ fun before dep after h => by simp at h
  | cons dep more ih =>
      rw [forall_split_cons]
      simp only [latestCategory_nil, latestCategory_cons]
      by_cases hgoes : Uncategorized tree root dep → last ≠ none
      · rw [judgeOrder_cons hread.head hgoes, List.flatMap_cons]
        rw [← ih hread.tail, ← carriedRemarks_eq_nil_iff hgoes]
        simp only [Outcome.following, List.append_assoc, List.append_cancel_left_eq]
        constructor
        · rintro ⟨hfault, hresults⟩
          -- nothing else can have been left out, so there is no room for what is carried over
          have hlength := (flatMap_aloneRemarks_sublist hread.tail hfault).length_le
          rw [← hresults, List.length_append] at hlength
          have hcarried : carriedRemarks tree root own last dep = [] :=
            List.length_eq_zero_iff.1 (by omega)
          rw [hcarried, List.nil_append] at hresults
          exact ⟨hcarried, hfault, hresults⟩
        · rintro ⟨hcarried, hfault, hresults⟩
          rw [hcarried, List.nil_append]
          exact ⟨hfault, hresults⟩
      · obtain ⟨hdep, hlast⟩ := Classical.not_imp.1 hgoes
        obtain rfl := not_not.1 hlast
        rw [judgeOrder_cons_of_uncategorized hread.head hdep]
        refine iff_of_false (fun h => Option.some_ne_none _ h.1) fun h => ?_
        obtain ⟨theirs, hnone, -⟩ := h.1 hdep
        cases hnone

theorem run_dependencyOrder {s : Subject} {w : Surroundings} {t : List Char}
    (htext : s.text = .ok t) (hown : category? t = some own)
    (hlists : Text.contains "script_dependencies(".toList t = true) :
    dependencyOrder.run s w = judgeOrder w.tree s.root own none (dependencies t) := by
  simp only [dependencyOrder, Subject.withText, htext, hlists, hown, Bool.not_true, Bool.false_eq_true,
    if_false]

end

/-- **When dependencies are judged apart from each other.** In a script that states a category, every
listed dependency that exists can be read. A script that lists one of them only, and states the same
category, is told what `aloneRemarks` says; of a dependency without a category that is just that it
has none. The check looks at nothing unless a call is written with its bracket right behind the name.
If one is, the check comes to its end exactly if every dependency without a category stands behind one
with a category, and says of all of them what it says of each alone exactly if, besides, the category
of the last such one gives rise to no remark. -/
theorem dependencies_judged_apart_iff {s : Subject} {w : Surroundings} {t : List Char}
    {own : Category} (htext : s.text = .ok t) (hown : category? t = some own)
    (hread : Readable w.tree s.root (dependencies t)) :
    let alone := aloneRemarks w.tree s.root own
    (∀ s' u dep, s'.root = s.root → s'.text = .ok u → category? u = some own →
        Text.contains "script_dependencies(".toList u = true → dependencies u = [dep] →
        (dependencyOrder.run s' w).results = alone dep) ∧
      (∀ dep ∈ dependencies t, Uncategorized w.tree s.root dep →
        ∃ path, dependencyPath? w.tree s.root dep = some path ∧
          alone dep = [.error (missingCategory path.name)]) ∧
      (Text.contains "script_dependencies(".toList t = false → dependencyOrder.run s w = .done []) ∧
      (Text.contains "script_dependencies(".toList t = true →
        ((dependencyOrder.run s w).fault = none ↔
          ∀ before dep after, dependencies t = before ++ dep :: after →
            Uncategorized w.tree s.root dep →
            latestCategory w.tree s.root none before ≠ none) ∧
        ((dependencyOrder.run s w).fault = none ∧
            (dependencyOrder.run s w).results = (dependencies t).flatMap alone ↔
          ∀ before dep after, dependencies t = before ++ dep :: after →
            Uncategorized w.tree s.root dep →
            ∃ theirs, latestCategory w.tree s.root none before = some theirs ∧
              orderRemarks own dep theirs = [])) := by
  intro alone
  refine ⟨?_, ?_, ?_, fun hlists => ?_⟩
  · intro s' u dep hroot htext' hown' hlists hdeps
    rw [run_dependencyOrder htext' hown' hlists, hroot, hdeps]
    rfl
  · intro dep hdep hnone
    obtain ⟨path, -, hpath, -, -, halone⟩ := aloneRemarks_of_uncategorized own (hread dep hdep) hnone
    exact ⟨path, hpath, halone⟩
  · intro hlists
    simp only [dependencyOrder, Subject.withText, htext, hlists, Bool.not_false, if_true]
  · rw [run_dependencyOrder htext hown hlists]
    exact ⟨fault_judgeOrder_iff hread, judgeOrder_apart_iff hread⟩

def categoryFiles : FileTree :=
  { entries :=
      [(["init.nasl"], .file 0o644 (Text.toLatin1 "script_category(ACT_INIT);\n".toList)),
        (["end.nasl"], .file 0o644 (Text.toLatin1 "script_category(ACT_END);\n".toList)),
        (["none.nasl"], .file 0o644 [])] }

/-- Behind one with an early category, a dependency without a category is judged as if it were
alone. -/
theorem dependencies_judged_apart_of_early_category :
    let text := "script_category(ACT_ATTACK);\n".toList ++
      "script_dependencies(\"init.nasl\", \"x.nasl\", \"none.nasl\");\n".toList
    let s : Subject := { root := ⟨"/", []⟩, file := ⟨"/", ["a.nasl"]⟩, text := .ok text }
    let w : Surroundings := { tree := categoryFiles, now := default }
    (dependencyOrder.run s w).fault = none ∧
      (dependencyOrder.run s w).results =
        ["init.nasl", "x.nasl", "none.nasl"].flatMap (aloneRemarks w.tree s.root .attack) := by
  intro text s w
  obtain ⟨hown, hlists, hdeps⟩ : category? text = some .attack ∧
      Text.contains "script_dependencies(".toList text = true ∧
      dependencies text = ["init.nasl", "x.nasl", "none.nasl"] := by
    decide +kernel
  obtain ⟨hfiles, hinit, hmissing, hlatest⟩ :
      (∀ dep ∈ ["init.nasl", "x.nasl", "none.nasl"],
        ((dependencyPath? w.tree s.root dep).all fun path =>
          (w.tree.readText path).toOption.isSome) = true) ∧
      ¬ Uncategorized w.tree s.root "init.nasl" ∧ ¬ Uncategorized w.tree s.root "x.nasl" ∧
      latestCategory w.tree s.root none ["init.nasl", "x.nasl"] = some .init := by
    decide +kernel
  have hread : Readable w.tree s.root (dependencies text) := by
    intro dep hdep path hpath
    have hfile := hfiles dep (hdeps ▸ hdep)
    rw [hpath, Option.all_some] at hfile
    cases htext : w.tree.readText path with
    | ok text => exact ⟨text, rfl⟩
    | error e =>
        rw [htext] at hfile
        cases hfile
  obtain ⟨-, -, -, hjudged⟩ := dependencies_judged_apart_iff (s := s) (w := w) rfl hown hread
  rw [hdeps] at hjudged
  refine (hjudged hlists).2.2 ?_
  rw [forall_split_cons, forall_split_cons, forall_split_cons]
  exact ⟨fun h => absurd h hinit, fun h => absurd h hmissing, fun _ => ⟨.init, hlatest, by decide⟩,
    fun before dep after h => by simp at h⟩

/-- Alone, or behind a dependency with a late category, one without a category is judged otherwise:
the check fails, or says of it what holds of the other one. -/
theorem dependencies_not_judged_apart :
    let first := "script_category(ACT_ATTACK);\nscript_dependencies(\"none.nasl\");\n".toList
    let second := "script_category(ACT_ATTACK);\n".toList ++
      "script_dependencies(\"end.nasl\", \"none.nasl\");\n".toList
    let s (text : List Char) : Subject :=
      { root := ⟨"/", []⟩, file := ⟨"/", ["a.nasl"]⟩, text := .ok text }
    let w : Surroundings := { tree := categoryFiles, now := default }
    dependencyOrder.run (s first) w =
        ⟨[.error (missingCategory "none.nasl")], some .undeterminedCategory⟩ ∧
      dependencyOrder.run (s second) w =
        .done (orderRemarks .attack "end.nasl" .finish ++
          .error (missingCategory "none.nasl") :: orderRemarks .attack "none.nasl" .finish) ∧
      orderRemarks .attack "none.nasl" .finish ≠ [] := by
  decide +kernel

end NaslLint.Checks
