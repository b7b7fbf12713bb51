import NaslLint.Proofs.BareResults
import NaslLint.Proofs.RepairedRun
import NaslLint.Proofs.RootDirectory

/-!
# Checks below two roots

The root directory can be written in several ways. All of them lead to the same files, so nearly all
checks find the same. Two things depend on how it is written. A file is named by what remains of its
path below the root, which takes a root without detours; and the check of places for detection scripts
compares paths as they are written, which takes an absolute root besides.

* `Path.fromRoot?_of_locate` and `Subject.standsBelow_of_locate` say what a root is good for.
* `Checks.SamePlaces` says that dependencies are looked up alike, and `run_under` that all checks but
  one find the same below either root.
* `examination_under` compares two examinations of a file, `feed_run_under` two runs of a check of the
  feed.
-/

namespace NaslLint

open Checks

/-! ## Roots as they are written -/

namespace FileTree
variable {t t' : FileTree} {p q r : Path} {d l : Location}

/-- Names without detours lead to where they say. -/
theorem follow_eq_append {here : Location} {names : List String} (h : t.follow here names = .ok l)
    (hnames : ".." ∉ names) : l = here ++ names := by
  induction names generalizing here with
  | nil =>
      cases h
      exact (List.append_nil _).symm
  | cons n more ih =>
      rw [List.mem_cons, not_or] at hnames
      simp only [follow] at h
      split at h
      · rw [if_neg (by simpa using Ne.symm hnames.1)] at h
        split at h
        · rw [ih h hnames.2, List.append_assoc, List.singleton_append]
        · cases h
      · cases h

/-- A root that a path leads to without detours is the one that the path says. -/
theorem absolute_eq_of_locate (h : t.locate r = .ok d) (hanchor : (r.absolute t.here).anchor = "/")
    (hnames : ".." ∉ (r.absolute t.here).names) : r.absolute t.here = Path.absoluteOf d := by
  rw [follow_eq_append h hnames, Path.absoluteOf, List.nil_append, ← hanchor]

theorem locate_join_congr (h : t.locate p = t.locate q) (x : Path) :
    t.locate (p.join x) = t.locate (q.join x) := by
  rw [Path.join, Path.join]
  split
  · rfl
  · rw [locate_append, locate_append, h]

theorem exists?_congr (h : t.locate p = t.locate q) : t.exists? p = t.exists? q := by
  rw [exists?, exists?, at?, at?, h]

theorem readText_congr (h : t.locate p = t.locate q) : t.readText p = t.readText q := by
  rw [readText, readText, readBytes_eq_bind, readBytes_eq_bind, h]

def SameDirectory (t : FileTree) (p q : Path) : Prop :=
  ∃ d, t.hasDirectory d = true ∧ t.locate p = .ok d ∧ t.locate q = .ok d

namespace SameDirectory

theorem locate_eq (h : t.SameDirectory p q) : t.locate p = t.locate q := by
  obtain ⟨d, -, hp, hq⟩ := h
  rw [hp, hq]

theorem extend (h : t.SameDirectory p q) (hextends : t.Extends t') : t'.SameDirectory p q := by
  obtain ⟨d, hd, hp, hq⟩ := h
  exact ⟨d, hextends.hasDirectory hd, hextends.locate hp, hextends.locate hq⟩

theorem readText_ne_ok (h : t.SameDirectory p q) (text : List Char) : t.readText p ≠ .ok text := by
  obtain ⟨d, hd, hp, -⟩ := h
  have hdirectory : t.isDirectory p = true := by
    rw [isDirectory, at?, hp]
    exact hd
  rw [readText_of_isDirectory hdirectory]
  simp

end SameDirectory

end FileTree

namespace Path
variable {t : FileTree} {p q r : Path} {d : Location}

theorem not_mem_normalize (names : List String) : ".." ∉ normalize names := by
  have hfold (acc : List String) (hacc : ".." ∉ acc) :
      ".." ∉ names.foldl (fun acc n => if n == ".." then acc.tail else n :: acc) acc := by
    induction names generalizing acc with
    | nil => exact hacc
    | cons n names ih =>
        rw [List.foldl_cons]
        refine ih _ ?_
        split
        · exact fun h => hacc (List.mem_of_mem_tail h)
        next hn => simpa [hacc] using Ne.symm (by simpa using hn)
  rw [normalize, List.mem_reverse]
  exact hfold [] List.not_mem_nil

theorem relativeTo?_eq_none {file : Path} (h : ¬ (r.anchor = file.anchor ∧ r.names <+: file.names)) :
    file.relativeTo? r = none := by
  rw [relativeTo?, if_neg]
  intro heq
  rw [Bool.and_eq_true, beq_iff_eq, List.isPrefixOf_iff_prefix] at heq
  exact h ⟨heq.1.symm, heq.2⟩

/-- **What a root is good for.** Files are found below a root if it is written without detours, and
below no other. -/
theorem fromRoot?_of_locate (h : t.locate r = .ok d) (file : Path) :
    file.fromRoot? r t.here =
      if r.absolute t.here = absoluteOf d then (file.resolve t.here).relativeTo? (absoluteOf d)
      else none := by
  rw [fromRoot?]
  split
  next hplain => rw [hplain]
  next hplain =>
    apply relativeTo?_eq_none
    rintro ⟨hanchor, hnames⟩
    exact hplain (FileTree.absolute_eq_of_locate h hanchor fun hdots =>
      not_mem_normalize _ (hnames.subset hdots))

/-- Of two roots that lead to one directory, both name a file alike or one of them does not name
it. -/
theorem fromRoot?_cases (h : t.SameDirectory p q) (file : Path) :
    file.fromRoot? p t.here = file.fromRoot? q t.here ∨ file.fromRoot? p t.here = none ∨
      file.fromRoot? q t.here = none := by
  obtain ⟨d, -, hp, hq⟩ := h
  rw [fromRoot?_of_locate hp, fromRoot?_of_locate hq]
  split
  · split
    · exact Or.inl rfl
    · exact Or.inr (Or.inr rfl)
  · exact Or.inr (Or.inl rfl)

theorem fromRoot?_congr (h : t.SameDirectory p q) {file : Path}
    (hsome : (file.fromRoot? p t.here).isSome = (file.fromRoot? q t.here).isSome) :
    file.fromRoot? p t.here = file.fromRoot? q t.here := by
  rcases fromRoot?_cases h file with heq | hnone | hnone
  · exact heq
  · rw [hnone, Option.isSome_none, eq_comm, Option.isSome_eq_false_iff, Option.isNone_iff_eq_none]
      at hsome
    rw [hnone, hsome]
  · rw [hnone, Option.isSome_none, Option.isSome_eq_false_iff, Option.isNone_iff_eq_none] at hsome
    rw [hnone, hsome]

/-- What is seen from two paths has one name, unless nothing but the paths themselves is seen. -/
theorem name_join (p q x : Path) :
    (p.join x).name = (q.join x).name ∨ p.join x = p ∧ q.join x = q := by
  rw [join, join]
  split
  · exact Or.inl rfl
  · by_cases hx : x.names = []
    · rw [hx, List.append_nil, List.append_nil]
      exact Or.inr ⟨rfl, rfl⟩
    · left
      simp only [name, List.getLastD_eq_getLast?, List.getLast?_append,
        List.getLast?_eq_some_getLast hx, Option.some_or]

end Path

/-! ## Dependencies -/

namespace Checks
variable {tree tree' : FileTree} {p q : Path} {dep : String}

/-- A dependency is looked up alike below two roots of two trees. -/
structure SamePlaces (tree tree' : FileTree) (p q : Path) (dep : String) : Prop where
  exists_eq (dir : String) : tree.exists? (p / dir / dep) = tree'.exists? (q / dir / dep)
  text_eq {dir : String} (hdir : dir ∈ feedDirectories) :
    tree.readText (p / dir / dep) = tree'.readText (q / dir / dep)
  name_eq {dir : String} {text : List Char} (htext : tree.readText (p / dir / dep) = .ok text) :
    (p / dir / dep).name = (q / dir / dep).name

/-- The last directory of the feed in which a dependency exists. -/
def dependencyFolder? (tree : FileTree) (root : Path) (dep : String) : Option String :=
  (feedDirectories.filter fun dir => tree.exists? (root / dir / dep)).getLast?

theorem dependencyPath?_eq (tree : FileTree) (root : Path) (dep : String) :
    dependencyPath? tree root dep =
      (dependencyFolder? tree root dep).map fun dir => root / dir / dep := by
  simp only [dependencyPath?, dependencyFolder?, dependencyPlaces, List.filter_map,
    List.getLast?_map, Function.comp_def]

theorem mem_feedDirectories {root : Path} {dir : String}
    (h : dependencyFolder? tree root dep = some dir) : dir ∈ feedDirectories :=
  List.mem_of_mem_filter (List.mem_of_getLast? h)

namespace SamePlaces

theorem dependencyFolder?_eq (h : SamePlaces tree tree' p q dep) :
    dependencyFolder? tree p dep = dependencyFolder? tree' q dep := by
  rw [dependencyFolder?, dependencyFolder?, funext h.exists_eq]

theorem judgePlace_eq (h : SamePlaces tree tree' p q dep) :
    judgePlace tree p dep = judgePlace tree' q dep := by
  unfold judgePlace dependencyExists dependencyPlaces
  simp only [List.any_map, Function.comp_def, h.exists_eq]

theorem judgeUse_eq (h : SamePlaces tree tree' p q dep) :
    judgeUse tree p dep = judgeUse tree' q dep := by
  unfold judgeUse
  rw [dependencyPath?_eq, dependencyPath?_eq, ← h.dependencyFolder?_eq]
  cases hdir : dependencyFolder? tree p dep with
  | none => rfl
  | some dir => simp only [Option.map_some, h.text_eq (mem_feedDirectories hdir)]

theorem judgeNext_eq (h : SamePlaces tree tree' p q dep) (own : Category) (last : Option Category)
    {others others' : Option Category → Outcome Remark} (hothers : ∀ last, others last = others' last) :
    judgeNext tree p own last dep others = judgeNext tree' q own last dep others' := by
  unfold judgeNext
  rw [dependencyPath?_eq, dependencyPath?_eq, ← h.dependencyFolder?_eq]
  cases hdir : dependencyFolder? tree p dep with
  | none => simp only [Option.map_none, hothers]
  | some dir =>
      simp only [Option.map_some, ← h.text_eq (mem_feedDirectories hdir), hothers]
      cases htext : tree.readText (p / dir / dep) with
      | error e => rfl
      | ok text => simp only [h.name_eq htext]

theorem judgeOrder_eq {deps : List String} (h : ∀ dep ∈ deps, SamePlaces tree tree' p q dep)
    (own : Category) (last : Option Category) :
    judgeOrder tree p own last deps = judgeOrder tree' q own last deps := by
  induction deps generalizing last with
  | nil => rfl
  | cons dep more ih =>
      obtain ⟨hdep, hmore⟩ := List.forall_mem_cons.1 h
      rw [judgeOrder, judgeOrder]
      exact hdep.judgeNext_eq own last fun last => ih hmore last

end SamePlaces

/-- Two roots that lead to one directory, in trees whose difference is not in the way. -/
theorem samePlaces_of_sameDirectory {loose : Option Path} (hlike : tree.SameBut loose tree')
    (hroots : tree.SameDirectory p q)
    (havoids : ∀ place ∈ dependencyPlaces p dep, tree.Avoids loose place) :
    SamePlaces tree tree' p q dep := by
  have hlocate (dir : String) : tree.locate (p / dir / dep) = tree.locate (q / dir / dep) :=
    FileTree.locate_join_congr (FileTree.locate_join_congr hroots.locate_eq _) _
  refine ⟨fun dir => ?_, fun {dir} hdir => ?_, fun {dir text} htext => ?_⟩
  · rw [hlike.exists?_eq]
    exact FileTree.exists?_congr (hlocate dir)
  · have hplace : tree.Avoids loose (p / dir / dep) :=
      havoids _ (List.mem_map_of_mem (f := fun dir => p / dir / dep) hdir)
    rw [← hlike.readText_eq hplace]
    exact FileTree.readText_congr (by rw [hlike.locate_eq, hlike.locate_eq, hlocate])
  · rcases Path.name_join (p / dir) (q / dir) (.ofString dep) with hname | ⟨hp, hq⟩
    · exact hname
    · have hp' : p / dir / dep = p / dir := hp
      have hq' : q / dir / dep = q / dir := hq
      rw [hp', hq']
      refine (Path.name_join p q (.ofString dir)).resolve_right fun ⟨hdir, _⟩ => ?_
      -- what is read would be the root itself, which is a directory
      have hself : p / dir / dep = p := hp'.trans hdir
      exact hroots.readText_ne_ok text (hself ▸ htext)

end Checks

/-! ## Checks of files -/

namespace Subject

def under (s : Subject) (root : Path) : Subject :=
  { s with root }

/-- The files that the checks of a subject read: its own one and its dependencies. -/
def consults (s : Subject) : List Path :=
  s.file :: (s.text.toOption.toList.flatMap dependencies).flatMap (dependencyPlaces s.root)

end Subject

/-- A subject is examined below two roots and in two trees, whose difference is not read. -/
structure Twins (loose : Option Path) (s : Subject) (p q : Path) (tree tree' : FileTree) : Prop where
  like : tree.SameBut loose tree'
  roots : tree.SameDirectory p q
  avoids : ∀ path ∈ (s.under p).consults, tree.Avoids loose path
  readable : ∀ t, s.text = .ok t → ∃ old, tree.readBytes s.file = .ok old

section
variable {loose : Option Path} {c : FileCheck} {s : Subject} {p q : Path} {tree tree' u u' : FileTree}

namespace Twins

theorem readBytes_eq (h : Twins loose s p q tree tree') :
    tree'.readBytes s.file = tree.readBytes s.file :=
  h.like.readBytes_eq (h.avoids _ List.mem_cons_self)

theorem samePlaces (h : Twins loose s p q tree tree') {t : List Char} (htext : s.text = .ok t) :
    ∀ dep ∈ dependencies t, SamePlaces tree tree' p q dep := by
  intro dep hdep
  refine samePlaces_of_sameDirectory h.like h.roots fun place hplace => ?_
  refine h.avoids place (List.mem_cons_of_mem _ (List.mem_flatMap.2 ⟨dep, ?_, hplace⟩))
  rw [Subject.under, htext]
  simpa [Except.toOption] using hdep

/-- Rewriting a file changes nothing about what is read. -/
theorem rewritten (h : Twins loose s p q tree tree') (hlike : u.SameBut loose u')
    (hu : u = tree ∨ ∃ l mode old bytes, tree.HasFile l mode old ∧ u = tree.rewrite l mode bytes) :
    Twins loose s p q u u' := by
  rcases hu with rfl | ⟨l, mode, old, bytes, hhas, rfl⟩
  · exact ⟨hlike, h.roots, h.avoids, h.readable⟩
  · refine ⟨hlike, ?_, fun path hpath => ?_, fun t ht => ?_⟩
    · exact h.roots.extend ⟨rfl, hhas.locate_rewrite.trans, hhas.hasDirectory_rewrite.trans⟩
    · rintro k ⟨file, hfile, hk⟩
      rw [hhas.locate_rewrite] at hk ⊢
      exact h.avoids path hpath k ⟨file, hfile, hk⟩
    · exact hhas.exists_readBytes_rewrite (h.readable t ht)

end Twins

/-- Few checks make use of the root. -/
theorem root_cases (hc : c ∈ fileChecks) :
    c = dependencyPlacement ∨ c = dependencyOrder ∨ c = dependencyUse ∨ c = detectionPlacement ∨
      ∀ (s : Subject) (root : Path) (w : Surroundings), c.run (s.under root) w = c.run s w := by
  unfold fileChecks at hc
  repeat
    rcases List.mem_cons.1 hc with rfl | hc
    · first
      | exact .inl (by with_reducible rfl)
      | exact .inr (.inl (by with_reducible rfl))
      | exact .inr (.inr (.inl (by with_reducible rfl)))
      | exact .inr (.inr (.inr (.inl (by with_reducible rfl))))
      | exact .inr (.inr (.inr (.inr fun _ _ _ => rfl)))
  cases hc

/-- What is said of dependencies does not depend on the root. -/
theorem run_dependencies_under (h : Twins loose s p q tree tree') (w : Surroundings)
    (hc : c = dependencyPlacement ∨ c = dependencyOrder ∨ c = dependencyUse) :
    c.run (s.under p) { w with tree } = c.run (s.under q) { w with tree := tree' } := by
  cases htext : s.text with
  | error f =>
      rcases hc with rfl | rfl | rfl <;>
        simp only [dependencyPlacement, dependencyOrder, dependencyUse, Subject.under,
          Subject.unlessInclude, Subject.withText, htext]
  | ok t =>
      have hplaces := h.samePlaces htext
      rcases hc with rfl | rfl | rfl
      · simp only [dependencyPlacement, Subject.under, Subject.unlessInclude, Subject.withText, htext,
          Outcome.forEach_congr fun dep hdep => (hplaces dep hdep).judgePlace_eq]
      · simp only [dependencyOrder, Subject.under, Subject.withText, htext,
          SamePlaces.judgeOrder_eq hplaces]
      · simp only [dependencyUse, Subject.under, Subject.unlessInclude, Subject.withText, htext,
          Outcome.forEach_congr fun dep hdep => (hplaces dep hdep).judgeUse_eq]

/-- All checks but one find the same below either root. -/
theorem run_under (hc : c ∈ fileChecks) (h : Twins loose s p q tree tree') (w : Surroundings) :
    c = detectionPlacement ∨
      c.run (s.under p) { w with tree } = c.run (s.under q) { w with tree := tree' } := by
  rcases run_cases hc with hc' | hc' | hc' | rfl | rfl | rfl | htree
  · exact .inr (run_dependencies_under h w (.inl hc'))
  · exact .inr (run_dependencies_under h w (.inr (.inl hc')))
  · exact .inr (run_dependencies_under h w (.inr (.inr hc')))
  · right
    simp only [encoding, Subject.under, Subject.withText, h.readBytes_eq]
  · right
    simp only [newlines, Subject.under, Subject.onText, Subject.withText, h.readBytes_eq]
  · exact .inr (run_filePermissions_congr (h.like.at?_map fun _ _ _ => rfl)).symm
  · rcases root_cases hc with hc' | hc' | hc' | hc' | hroot
    · exact .inr (run_dependencies_under h w (.inl hc'))
    · exact .inr (run_dependencies_under h w (.inr (.inl hc')))
    · exact .inr (run_dependencies_under h w (.inr (.inr hc')))
    · exact .inl hc'
    · refine .inr ?_
      rw [hroot, hroot]
      exact (htree s w tree).trans (htree s w tree').symm

theorem repair_under (hc : c ∈ fileChecks) (s : Subject) (p q : Path) (w : Surroundings)
    (tree tree' : FileTree) :
    c.repair (s.under p) { w with tree } = c.repair (s.under q) { w with tree := tree' } := by
  rcases repair_cases hc with rfl | rfl | rfl | hnone
  · rfl
  · rfl
  · rfl
  · rw [hnone]

end

/-! ## The place of detection scripts -/

namespace Path

theorem isAbsolute_ofString {s : String} (h : '/' ∉ s.toList) : (ofString s).isAbsolute = false := by
  have hanchor : anchorOf s.toList = "" := by
    unfold anchorOf
    split
    next hs => simp [hs] at h
    next hs => simp [hs] at h
    next hs => simp [hs] at h
    next => rfl
  rw [ofString, ofChars, isAbsolute, hanchor]
  rfl

theorem div_eq {p : Path} {s : String} (h : '/' ∉ s.toList) :
    p / s = { p with names := p.names ++ (ofString s).names } := by
  show p.join (ofString s) = _
  rw [join, if_neg (by simp [isAbsolute_ofString h])]

end Path

namespace Subject

def detects (s : Subject) : Bool :=
  !s.file.isInclude && s.text.toOption.any fun t =>
    detectionFamily.occursIn t && !Tag.deprecated.pattern.occursIn t

/-- Whether the file stands in one of the places of detection scripts below a directory. -/
def standsBelow (s : Subject) (root : Path) : Bool :=
  (detectionPlaces root s.file.name).contains s.file

/-- A detection script in use that stands in none of its places. -/
def isMisplaced (s : Subject) : Bool :=
  s.detects && !s.standsBelow s.root

/-- A detection script in use that stands in its place below one of two roots only. -/
def isJudgedApart (s : Subject) (p q : Path) : Bool :=
  s.detects && s.standsBelow p != s.standsBelow q

end Subject

theorem anchor_and_names_of_mem_detectionPlaces {root place : Path} {name : String}
    (hname : '/' ∉ name.toList) (h : place ∈ detectionPlaces root name) :
    place.anchor = root.anchor ∧ root.names <+: place.names := by
  have hdirectories : ∀ dir ∈ feedDirectories, '/' ∉ dir.toList := by decide
  have hfolders : ∀ folder ∈ "attic" :: enterpriseFolders, '/' ∉ folder.toList := by decide
  rcases List.mem_append.1 h with h | h
  · obtain ⟨dir, hdir, rfl⟩ := List.mem_map.1 h
    rw [Path.div_eq hname, Path.div_eq (hdirectories dir hdir)]
    exact ⟨rfl, (List.prefix_append _ _).trans (List.prefix_append _ _)⟩
  · obtain ⟨folder, hfolder, h⟩ := List.mem_flatMap.1 h
    obtain ⟨dir, hdir, rfl⟩ := List.mem_map.1 h
    rw [Path.div_eq hname, Path.div_eq (hfolders folder hfolder),
      Path.div_eq (hdirectories dir hdir)]
    exact ⟨rfl, (List.prefix_append _ _).trans
      ((List.prefix_append _ _).trans (List.prefix_append _ _))⟩

/-- **What a root is good for.** Places of detection scripts are found below a root if it is the path
of the directory as such, and below no other. -/
theorem Subject.standsBelow_of_locate {s : Subject} {t : FileTree} {r : Path} {d : Location}
    (h : t.locate r = .ok d) (hfile : s.file.IsNormal) :
    s.standsBelow r = (decide (r = .absoluteOf d) && s.standsBelow (.absoluteOf d)) := by
  by_cases hr : r = .absoluteOf d
  · simp [hr]
  rw [decide_eq_false hr, Bool.false_and, Bool.eq_false_iff]
  intro hstands
  have hname : '/' ∉ s.file.name.toList := by
    by_cases hnames : s.file.names = []
    · simp [Path.name, hnames]
    · have hlast : s.file.name ∈ s.file.names := by
        rw [Path.names_eq_append hnames]
        simp
      exact (hfile.2 _ hlast).1.2.2
  obtain ⟨hanchor, hnames⟩ := anchor_and_names_of_mem_detectionPlaces hname
    (List.contains_iff_mem.1 hstands)
  have habsolute : r.absolute t.here = r := by
    rw [Path.absolute, if_pos (by rw [Path.isAbsolute, ← hanchor, hfile.1]; decide)]
  have hdots : ".." ∉ r.names := fun hdots => (hfile.2 _ (hnames.subset hdots)).2 rfl
  refine hr (habsolute ▸ FileTree.absolute_eq_of_locate h ?_ ?_)
  · rw [habsolute, ← hanchor, hfile.1]
  · rwa [habsolute]

def placementRemark (root : Path) : Remark :=
  .error s!"VT should be placed in the root directory ({root})."

def placementFindings (s : Subject) : List Finding :=
  if s.isMisplaced then [(placementRemark s.root).toFinding s.file detectionPlacement.name] else []

section
variable {s : Subject} {p q : Path}

theorem findings_detectionPlacement (s : Subject) (w : Surroundings) :
    detectionPlacement.findings s w = s.withText fun _ => .done (placementFindings s) := by
  unfold FileCheck.findings Subject.withText placementFindings Subject.isMisplaced
  cases htext : s.text with
  | error f =>
      simp only [detectionPlacement, Subject.onScript, Subject.withText, htext]
      rfl
  | ok t =>
      simp only [detectionPlacement, Subject.onScript, Subject.withText, Subject.unlessInclude,
        Subject.detects, htext]
      cases s.file.isInclude with
      | true => rfl
      | false =>
          simp only [Except.toOption, Option.any_some, Bool.not_false, Bool.true_and,
            Bool.false_eq_true, if_false, Subject.standsBelow]
          split <;> rfl

/-- A script that both roots lead to, or none, is judged alike. -/
theorem placementFindings_under (h : s.isJudgedApart p q = false) :
    (placementFindings (s.under p)).map Finding.bare =
        (placementFindings (s.under q)).map Finding.bare ∧
      ((s.under p).isMisplaced = false →
        placementFindings (s.under p) = placementFindings (s.under q)) := by
  have hsame : (s.under p).isMisplaced = (s.under q).isMisplaced := by
    change (s.detects && !s.standsBelow p) = (s.detects && !s.standsBelow q)
    rw [Subject.isJudgedApart] at h
    cases hdetects : s.detects with
    | false => rfl
    | true => simp_all
  unfold placementFindings
  rw [← hsame]
  cases (s.under p).isMisplaced with
  | false => exact ⟨rfl, fun _ => rfl⟩
  | true => exact ⟨rfl, fun hfalse => by cases hfalse⟩

/-- A script that only one of the roots leads to is complained about below the other one. -/
theorem isMisplaced_of_apart (h : s.isJudgedApart p q = true) :
    (s.under p).isMisplaced ≠ (s.under q).isMisplaced := by
  change (s.detects && !s.standsBelow p) ≠ (s.detects && !s.standsBelow q)
  rw [Subject.isJudgedApart, Bool.and_eq_true] at h
  rw [h.1]
  simpa using h.2

end

/-! ## Examinations -/

structure CheckReport.Related (R : Outcome Finding → Outcome Finding → Prop)
    (r r' : CheckReport) : Prop where
  check_eq : r.check = r'.check
  found : R r.found r'.found
  repaired_eq : r.repaired = r'.repaired

section
variable {c : FileCheck} {cs : List FileCheck} {s : Subject} {p q : Path} {loose : Option Path}
  {tree tree' : FileTree} {R : Outcome Finding → Outcome Finding → Prop}

/-- One check below both roots: its repair is the same if it comes to its end below both or below
none. -/
theorem examine_under (fix : Bool) (hc : c ∈ fileChecks) (h : Twins loose s p q tree tree')
    (w : Surroundings) (hR : ∀ o o', R o o' → o.fault = o'.fault)
    (hfound : R (c.findings (s.under p) { w with tree })
      (c.findings (s.under q) { w with tree := tree' })) :
    let e := c.examine fix (s.under p) { w with tree }
    let e' := c.examine fix (s.under q) { w with tree := tree' }
    e.1.Related R e'.1 ∧ Twins loose s p q e.2 e'.2 := by
  intro e e'
  have hexamine : e.1.Related R e'.1 ∧ e.2.SameBut loose e'.2 := by
    simp only [e, e', FileCheck.examine, FileCheck.applyRepair, hR _ _ hfound]
    rw [repair_under hc s p q w tree tree']
    split
    · cases c.repair (s.under q) { w with tree := tree' } with
      | error f => exact ⟨⟨rfl, hfound, rfl⟩, h.like⟩
      | ok repair =>
          cases repair with
          | none => exact ⟨⟨rfl, hfound, rfl⟩, h.like⟩
          | some r =>
              have haccess : FileTree.SameAccess loose
                  (tree.write s.file (Text.toLatin1 r.text))
                  (tree'.write s.file (Text.toLatin1 r.text)) := h.like.write (Or.inl rfl)
              simp only [bind, Except.bind]
              change FileTree.SameAccess loose
                (tree.write (s.under p).file _) (tree'.write (s.under q).file _) at haccess
              generalize tree.write (s.under p).file (Text.toLatin1 r.text) = a at haccess ⊢
              generalize tree'.write (s.under q).file (Text.toLatin1 r.text) = a' at haccess ⊢
              cases haccess with
              | error e => exact ⟨⟨rfl, hfound, rfl⟩, h.like⟩
              | ok hlike => exact ⟨⟨rfl, hfound, rfl⟩, hlike⟩
    · exact ⟨⟨rfl, hfound, rfl⟩, h.like⟩
  have htree : e.2 = tree ∨ ∃ l mode old bytes, tree.HasFile l mode old ∧
      e.2 = tree.rewrite l mode bytes :=
    Run.tree_examine_eq_or_rewrite fix (w := { w with tree }) hc h.readable
  exact ⟨hexamine.1, h.rewritten hexamine.2 htree⟩

theorem CheckReport.Related.fault_eq {r r' : CheckReport} (h : r.Related R r')
    (hR : ∀ o o', R o o' → o.fault = o'.fault) : r.fault? = r'.fault? := by
  rw [fault?, fault?, hR _ _ h.found, h.repaired_eq]

/-- All checks below both roots: what the check of places finds has to be related, and then all
that is found is. -/
theorem examineUntilFault_under (fix : Bool) (hcs : ∀ c ∈ cs, c ∈ fileChecks)
    (h : Twins loose s p q tree tree') (w : Surroundings) (hrefl : ∀ o, R o o)
    (hR : ∀ o o', R o o' → o.fault = o'.fault)
    (hplacement : detectionPlacement.name ∈ cs.map (·.name) → ∀ w w',
      R (detectionPlacement.findings (s.under p) w) (detectionPlacement.findings (s.under q) w')) :
    let e := examineUntilFault fix (s.under p) cs { w with tree }
    let e' := examineUntilFault fix (s.under q) cs { w with tree := tree' }
    List.Forall₂ (CheckReport.Related R) e.1 e'.1 ∧ e.2.1 = e'.2.1 ∧
      e.2.2.SameBut loose e'.2.2 := by
  intro e e'
  induction cs generalizing tree tree' with
  | nil => exact ⟨.nil, rfl, h.like⟩
  | cons c cs ih =>
      obtain ⟨hc, hcs⟩ := List.forall_mem_cons.1 hcs
      have hfound : R (c.findings (s.under p) { w with tree })
          (c.findings (s.under q) { w with tree := tree' }) := by
        rcases run_under hc h w with rfl | hrun
        · exact hplacement List.mem_cons_self _ _
        · rw [FileCheck.findings, FileCheck.findings, hrun]
          exact hrefl _
      obtain ⟨hreport, htwins⟩ := examine_under fix hc h w hR hfound
      have hfault := hreport.fault_eq hR
      cases hnone : (c.examine fix (s.under p) { w with tree }).1.fault? with
      | some f =>
          simp only [e, e', examineUntilFault, hnone, ← hfault]
          exact ⟨.nil, trivial, htwins.like⟩
      | none =>
          obtain ⟨hreports, hrest⟩ := ih hcs htwins
            (fun hmem => hplacement (List.mem_cons_of_mem _ hmem))
          simp only [e, e']
          rw [examineUntilFault_cons hnone, examineUntilFault_cons (hfault ▸ hnone)]
          exact ⟨.cons hreport hreports, hrest⟩

theorem exists_examine_of_mem {fix : Bool} {w : Surroundings} {r : CheckReport}
    (h : r ∈ (examineUntilFault fix s cs w).1) : ∃ c ∈ cs, ∃ w', r = (c.examine fix s w').1 := by
  induction cs generalizing w with
  | nil => cases h
  | cons c cs ih =>
      cases hfault : (c.examine fix s w).1.fault? with
      | some f =>
          simp only [examineUntilFault, hfault] at h
          cases h
      | none =>
          rw [examineUntilFault_cons hfault] at h
          rcases List.mem_cons.1 h with rfl | h
          · exact ⟨c, List.mem_cons_self, w, rfl⟩
          · obtain ⟨d, hd, w', rfl⟩ := ih h
            exact ⟨d, List.mem_cons_of_mem _ hd, w', rfl⟩

theorem detectionPlacement_mem : detectionPlacement ∈ fileChecks := by
  unfold fileChecks
  repeat
    first
    | with_reducible exact List.mem_cons_self
    | with_reducible apply List.mem_cons_of_mem

theorem eq_detectionPlacement_of_name (hc : c ∈ fileChecks)
    (h : c.name = detectionPlacement.name) : c = detectionPlacement :=
  List.inj_on_of_nodup_map nodup_names_fileChecks hc detectionPlacement_mem h

/-- The check of places repairs nothing. -/
theorem findings_examine_detectionPlacement (fix : Bool) (s : Subject) (w : Surroundings) :
    (detectionPlacement.examine fix s w).1.findings =
      (detectionPlacement.findings s w).results := by
  rw [CheckReport.findings, found_examine, FileCheck.examine]
  split <;> exact List.append_nil _

section
variable {fix : Bool} {w : Surroundings} (hcs : cs.Sublist fileChecks)
  (hselected : detectionPlacement.name ∈ cs.map (·.name))
  (hok : (examineUntilFault fix s cs w).2.1 = none)
include hcs hselected hok

/-- An examination that comes to its end reports what the check of places finds. -/
theorem exists_placement_report (hdetects : s.detects = true) :
    ∃ r ∈ (examineUntilFault fix s cs w).1, r.check = detectionPlacement.name ∧
      r.findings = placementFindings s := by
  obtain ⟨r, hr, hcheck⟩ := List.mem_map.1 (checks_examineUntilFault hok ▸ hselected)
  refine ⟨r, hr, hcheck, ?_⟩
  obtain ⟨c, hc, w', rfl⟩ := exists_examine_of_mem hr
  rw [check_examine] at hcheck
  obtain rfl := eq_detectionPlacement_of_name (hcs.subset hc) hcheck
  rw [findings_examine_detectionPlacement, findings_detectionPlacement, Subject.withText]
  cases htext : s.text with
  | ok t => rfl
  | error f => simp [Subject.detects, htext, Except.toOption] at hdetects

/-- The results of a file hold what the check of places finds, which is never ignored. -/
theorem placement_mem_entries (hdetects : s.detects = true) (o : RunOptions) :
    (detectionPlacement.name, placementFindings s) ∈
      (Run.fileResults o (examineUntilFault fix s cs w).1).entries := by
  obtain ⟨r, hr, hcheck, hfindings⟩ := exists_placement_report hcs hselected hok hdetects
  have hkept (results : Results) : results.kept (placementFindings s) = placementFindings s := by
    unfold Results.kept placementFindings
    split
    · split <;> rfl
    · rfl
  rw [Results.entries_fileResults o (checks_examineUntilFault hok ▸ nodup_names hcs)]
  refine List.mem_map.2 ⟨r, hr, ?_⟩
  rw [hcheck, hfindings, hkept]

end

/-- A script that only one of the roots leads to makes a difference to the results. -/
theorem bare_ne_of_apart {fix : Bool} {w w' : Surroundings} (hcs : cs.Sublist fileChecks)
    (hselected : detectionPlacement.name ∈ cs.map (·.name)) (hapart : s.isJudgedApart p q = true)
    (hok : (examineUntilFault fix (s.under p) cs w).2.1 = none)
    (hok' : (examineUntilFault fix (s.under q) cs w').2.1 = none) (o : RunOptions) :
    (Run.fileResults o (examineUntilFault fix (s.under p) cs w).1).bare ≠
      (Run.fileResults o (examineUntilFault fix (s.under q) cs w').1).bare := by
  intro heq
  have hdetects : s.detects = true := (Bool.and_eq_true_iff.1 hapart).1
  have hbare {r : Path} {w : Surroundings}
      (hok : (examineUntilFault fix (s.under r) cs w).2.1 = none) :
      (detectionPlacement.name, (placementFindings (s.under r)).map Finding.bare) ∈
        (Run.fileResults o (examineUntilFault fix (s.under r) cs w).1).bare.entries :=
    List.mem_map.2 ⟨_, placement_mem_entries hcs hselected hok hdetects o, rfl⟩
  have hnodup : ((Run.fileResults o
      (examineUntilFault fix (s.under q) cs w').1).bare.entries.map (·.1)).Nodup := by
    rw [Results.bare, Results.bareEntries, List.map_map,
      Results.entries_fileResults o (checks_examineUntilFault hok' ▸ nodup_names hcs), List.map_map]
    exact checks_examineUntilFault hok' ▸ nodup_names hcs
  have hmem := hbare hok
  rw [heq] at hmem
  have hsame := List.inj_on_of_nodup_map hnodup hmem (hbare hok') rfl
  have hlength : (placementFindings (s.under p)).length = (placementFindings (s.under q)).length := by
    simpa using congrArg (fun e => e.2.length) hsame
  have hplaces := isMisplaced_of_apart hapart
  unfold placementFindings at hlength
  cases hp : (s.under p).isMisplaced <;> cases hq : (s.under q).isMisplaced <;> simp_all

/-- **Both examinations of a file.** They fail alike and leave the same files. If they come to their
end, their results are the same without texts unless only one of the roots leads to the script; the
texts are the same, too, unless it is misplaced. -/
theorem examination_under (fix : Bool) (hcs : cs.Sublist fileChecks)
    (h : Twins loose s p q tree tree') (w : Surroundings) (o : RunOptions) :
    let e := examineUntilFault fix (s.under p) cs { w with tree }
    let e' := examineUntilFault fix (s.under q) cs { w with tree := tree' }
    e.2.1 = e'.2.1 ∧ e.2.2.SameBut loose e'.2.2 ∧
      (e.2.1 = none →
        ((Run.fileResults o e.1).bare = (Run.fileResults o e'.1).bare ↔
          (detectionPlacement.name ∈ cs.map (·.name) → s.isJudgedApart p q = false))) ∧
      ((detectionPlacement.name ∈ cs.map (·.name) →
          s.isJudgedApart p q = false ∧ (s.under p).isMisplaced = false) → e.1 = e'.1) := by
  intro e e'
  have hmem : ∀ c ∈ cs, c ∈ fileChecks := fun c hc => hcs.subset hc
  obtain ⟨-, hfault, htree⟩ := examineUntilFault_under fix hmem h w (fun _ => rfl)
    (fun _ _ h => h) (R := fun o o' => o.fault = o'.fault) fun _ w w' => by
      rw [findings_detectionPlacement, findings_detectionPlacement]
      simp only [Subject.withText, Subject.under]
      cases s.text <;> rfl
  refine ⟨hfault, htree, fun hok => ⟨fun heq hselected => ?_, fun hseen => ?_⟩, fun hseen => ?_⟩
  · by_contra hapart
    exact bare_ne_of_apart hcs hselected (by simpa using hapart) hok (hfault ▸ hok) o heq
  · have hreports := (examineUntilFault_under fix hmem h w (fun _ => rfl)
      (fun o o' h => show (o.map Finding.bare).fault = (o'.map Finding.bare).fault by rw [h])
      (R := fun o o' => o.map Finding.bare = o'.map Finding.bare) fun hselected w w' => by
        have hsame := (placementFindings_under (hseen hselected)).1
        rw [findings_detectionPlacement, findings_detectionPlacement]
        simp only [Subject.withText, show (s.under q).text = (s.under p).text from rfl]
        cases (s.under p).text with
        | error f => rfl
        | ok t => exact congrArg Outcome.done hsame).1
    have hbare : e.1.map CheckReport.bare = e'.1.map CheckReport.bare := by
      rw [← List.forall₂_eq_eq_eq, List.forall₂_map_left_iff, List.forall₂_map_right_iff]
      refine hreports.imp fun r r' h => ?_
      rw [CheckReport.bare, CheckReport.bare, h.check_eq, h.found, h.repaired_eq]
    rw [Results.bare_fileResults, Results.bare_fileResults, hbare]
  · have hreports := (examineUntilFault_under fix hmem h w (fun _ => rfl)
      (fun _ _ h => congrArg Outcome.fault h) (R := Eq) fun hselected w w' => by
        obtain ⟨hapart, hplace⟩ := hseen hselected
        rw [findings_detectionPlacement, findings_detectionPlacement,
          (placementFindings_under hapart).2 hplace]
        rfl).1
    rw [← List.forall₂_eq_eq_eq]
    exact hreports.imp fun r r' h => by
      cases r
      cases r'
      obtain ⟨rfl, rfl, rfl⟩ := h
      rfl

end

/-! ## Checks of the feed -/

namespace Checks
variable {tree : FileTree} {p q : Path}

/-- What a check of the feed finds below two roots is the same, unless a file that it names does not
lie below one of them as it is written. -/
def SameUnlessOutside (a b : Outcome Finding) : Prop :=
  a = b ∨ a.fault = some .outsideRoot ∨ b.fault = some .outsideRoot

theorem SameUnlessOutside.following {a b : Outcome Finding} (h : SameUnlessOutside a b)
    (first : List Finding) :
    SameUnlessOutside (Outcome.following first a) (Outcome.following first b) := by
  rcases h with rfl | h | h
  · exact .inl rfl
  · exact .inr (.inl h)
  · exact .inr (.inr h)

theorem duplicateOid_judgeAll_under (h : tree.SameDirectory p q) (seen : List (List Char × Path))
    (files : List Path) :
    SameUnlessOutside (DuplicateOid.judgeAll tree p seen files)
      (DuplicateOid.judgeAll tree q seen files) := by
  induction files generalizing seen with
  | nil => exact .inl rfl
  | cons file more ih =>
      rw [DuplicateOid.judgeAll, DuplicateOid.judgeAll]
      split
      · exact ih seen
      · rcases Path.fromRoot?_cases h file with heq | hnone | hnone
        · rw [heq]
          split
          · exact .inl rfl
          · split
            · exact .inl rfl
            · exact (ih _).following _
        · rw [hnone]
          exact .inr (.inl rfl)
        · rw [hnone]
          exact .inr (.inr rfl)

theorem noSolution_judgeAll_under (h : tree.SameDirectory p q) (now : DateTime)
    (before : List NoSolution.Status) (files : List Path) :
    SameUnlessOutside (NoSolution.judgeAll now tree p before files)
      (NoSolution.judgeAll now tree q before files) := by
  induction files generalizing before with
  | nil => exact .inl rfl
  | cons file more ih =>
      rw [NoSolution.judgeAll, NoSolution.judgeAll]
      split
      · exact ih before
      · split
        · exact .inl rfl
        next t htext =>
          simp only [NoSolution.finding?]
          cases (NoSolution.status now t).remark? with
          | none => exact (ih _).following _
          | some remark =>
              simp only
              rcases Path.fromRoot?_cases h file with heq | hnone | hnone
              · rw [heq]
                cases file.fromRoot? q tree.here with
                | none => exact .inl rfl
                | some relative => exact (ih _).following _
              · rw [hnone]
                exact .inr (.inl rfl)
              · rw [hnone]
                exact .inr (.inr rfl)

end Checks

theorem feed_run_under {c : FeedCheck} {p q : Path} {w : Surroundings} (hc : c ∈ feedChecks)
    (h : w.tree.SameDirectory p q) (files : List Path) :
    SameUnlessOutside (c.run ⟨p, files⟩ w) (c.run ⟨q, files⟩ w) := by
  rcases List.mem_cons.1 hc with rfl | hc
  · exact duplicateOid_judgeAll_under h [] files
  rcases List.mem_cons.1 hc with rfl | hc
  · exact noSolution_judgeAll_under h w.now [] files
  obtain rfl := List.mem_singleton.1 hc
  exact .inl rfl

end NaslLint
