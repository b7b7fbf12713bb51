import NaslLint.Discovery
import NaslLint.Proofs.Glob

/-!
# All scripts below the directories are found

Files to examine and files to leave out are selected apart from each other, below every directory, and
then taken from one another. With the patterns that are used when none are given, what remains is
exactly what lies below the directories, has the name of a script or an include file, and is not named
among the files to leave out.

* `Discovery.ofString_patternFor` says how the pattern for a name is read, and
  `Discovery.mem_select_globFor` what it selects, with and without subdirectories;
* `Discovery.exists_selected` says what the patterns for several names select below several
  directories.
-/

namespace NaslLint.Discovery

variable {tree : FileTree} {directories : List Path} {recursive : Bool} {n : String} {p d : Path}

/-- At the path there is an entry that lies below one of the directories: anywhere below it, or
directly in it if subdirectories are not searched. -/
def LiesBelow (tree : FileTree) (directories : List Path) (recursive : Bool) (p : Path) : Prop :=
  ∃ d ∈ directories, ∃ names, names ≠ [] ∧ (recursive = false → names.length = 1) ∧
    tree.Below d names ∧ p = { d with names := d.names ++ names }

def IsScriptName (n : String) : Prop :=
  ".nasl".toList <:+ n.toList ∨ ".inc".toList <:+ n.toList

/-! ## The pattern for a name -/

/-- A name for entries, with wildcards or without: it stands neither for directories at any depth nor
for the directory above. -/
def NamesEntries (n : String) : Prop :=
  Path.IsName n ∧ Glob.readStep n.toList = .ok (.entry (NamePart.read n.toList))

theorem namesEntries_of_plain (hn : PlainName n) : NamesEntries n :=
  ⟨hn.1.1, Glob.readStep_of_plain hn⟩

def patternFor (recursive : Bool) (n : String) : String :=
  if recursive then inSubdirectories n else n

def globFor (recursive : Bool) (n : String) : Glob where
  steps := if recursive then [.below, .entry (NamePart.read n.toList)]
    else [.entry (NamePart.read n.toList)]
  directoriesOnly := false

theorem ofString_patternFor (hn : NamesEntries n) :
    Glob.ofString (patternFor recursive n) = .ok (globFor recursive n) := by
  cases recursive with
  | true => exact Glob.ofString_below_name hn.1 hn.2
  | false => exact Glob.ofString_name hn.1 hn.2

theorem mem_select_globFor (ht : tree.IsProper) :
    p ∈ (globFor recursive n).select tree d ↔
      LiesBelow tree [d] recursive p ∧ NamePart.fit (NamePart.read n.toList) p.name.toList = true := by
  have hselect : p ∈ (globFor recursive n).select tree d ↔
      ∃ names m, (recursive = false → names = []) ∧ tree.Below d (names ++ [m]) ∧
        NamePart.fit (NamePart.read n.toList) m.toList = true ∧
        p = { d with names := d.names ++ (names ++ [m]) } := by
    cases recursive with
    | true => exact (Glob.mem_select_below ht).trans (by simp)
    | false => exact (Glob.mem_select_entry ht).trans (by simp)
  have hname (names : List String) (m : String) :
      Path.name { d with names := d.names ++ (names ++ [m]) } = m := by
    rw [Path.name, ← List.append_assoc, List.getLastD_concat]
  rw [hselect]
  constructor
  · rintro ⟨names, m, hdepth, hbelow, hfit, rfl⟩
    rw [hname]
    exact ⟨⟨d, List.mem_singleton_self d, names ++ [m], by simp, fun h => by simp [hdepth h],
      hbelow, rfl⟩, hfit⟩
  · rintro ⟨⟨d', hd, names, hne, hdepth, hbelow, rfl⟩, hfit⟩
    obtain rfl := List.mem_singleton.1 hd
    obtain ⟨names, m, rfl⟩ := (List.eq_nil_or_concat' names).resolve_left hne
    rw [hname] at hfit
    exact ⟨names, m, fun h => by simpa using hdepth h, hbelow, hfit, rfl⟩

/-! ## Several names and directories -/

theorem mapM_eq_ok {α β ε : Type} {f : α → Except ε β} {g : α → β} {l : List α}
    (h : ∀ a ∈ l, f a = .ok (g a)) : l.mapM f = .ok (l.map g) := by
  induction l with
  | nil => rfl
  | cons a l ih =>
      obtain ⟨ha, hl⟩ := List.forall_mem_cons.1 h
      rw [List.mapM_cons, ha, ih hl]
      rfl

theorem selected_map_patternFor {ns : List String} (h : ∀ n ∈ ns, NamesEntries n) :
    selected tree directories (ns.map (patternFor recursive)) =
      .ok (directories.flatMap fun d => ns.flatMap fun n => (globFor recursive n).select tree d) := by
  have hinner (d : Path) :
      ((ns.map (patternFor recursive)).mapM fun s => do return (← Glob.ofString s).select tree d) =
        .ok (ns.map fun n => (globFor recursive n).select tree d) := by
    rw [List.mapM_map]
    exact mapM_eq_ok fun n hn => by rw [Function.comp_apply, ofString_patternFor (h n hn)]; rfl
  have houter := mapM_eq_ok (l := directories) (f := fun d => do
      let found ← (ns.map (patternFor recursive)).mapM fun s => do
        return (← Glob.ofString s).select tree d
      return found.flatten)
    (g := fun d => ns.flatMap fun n => (globFor recursive n).select tree d)
    fun d _ => by rw [hinner d]; rfl
  rw [selected, houter]
  rfl

theorem exists_selected (ht : tree.IsProper) (directories : List Path) (recursive : Bool)
    {ns : List String} (h : ∀ n ∈ ns, NamesEntries n) :
    ∃ found, selected tree directories (ns.map (patternFor recursive)) = .ok found ∧
      ∀ p, p ∈ found ↔ LiesBelow tree directories recursive p ∧
        ∃ n ∈ ns, NamePart.fit (NamePart.read n.toList) p.name.toList = true := by
  refine ⟨_, selected_map_patternFor h, fun p => ?_⟩
  simp only [List.mem_flatMap, mem_select_globFor ht, LiesBelow, List.mem_singleton, exists_eq_left]
  constructor
  · rintro ⟨d, hd, n, hn, hlies, hfit⟩
    exact ⟨⟨d, hd, hlies⟩, n, hn, hfit⟩
  · rintro ⟨⟨d, hd, hlies⟩, n, hn, hfit⟩
    exact ⟨d, hd, n, hn, hlies, hfit⟩

/-! ## The files to examine -/

theorem namesEntries_of_mem_defaultPatterns : ∀ n ∈ defaultPatterns, NamesEntries n := by
  refine List.forall_mem_cons.2 ⟨?_, List.forall_mem_singleton.2 ?_⟩ <;>
    exact ⟨⟨by decide, by decide, by decide⟩, rfl⟩

theorem fit_defaultPatterns_iff :
    (∃ s ∈ defaultPatterns, NamePart.fit (NamePart.read s.toList) n.toList = true) ↔
      IsScriptName n := by
  have hscript : NamePart.fit (NamePart.read "*.nasl".toList) n.toList = true ↔
      ".nasl".toList <:+ n.toList :=
    NamePart.fit_star_read_of_plain (by decide) (by decide) (by decide)
  have hinclude : NamePart.fit (NamePart.read "*.inc".toList) n.toList = true ↔
      ".inc".toList <:+ n.toList :=
    NamePart.fit_star_read_of_plain (by decide) (by decide) (by decide)
  simp only [defaultPatterns, List.mem_cons, List.not_mem_nil, or_false, exists_eq_or_imp,
    exists_eq_left, hscript, hinclude, IsScriptName]

theorem fit_plain_iff {excluded : List String} (h : ∀ n ∈ excluded, PlainName n) :
    (∃ s ∈ excluded, NamePart.fit (NamePart.read s.toList) n.toList = true) ↔ n ∈ excluded := by
  constructor
  · rintro ⟨s, hs, hfit⟩
    obtain ⟨-, hstar, hone, hset⟩ := h s hs
    rw [NamePart.fit_read_of_plain hstar hone hset, String.toList_inj] at hfit
    rwa [hfit]
  · intro hn
    obtain ⟨-, hstar, hone, hset⟩ := h n hn
    exact ⟨n, hn, (NamePart.fit_read_of_plain hstar hone hset).2 rfl⟩

theorem patterns_eq {included excluded : Option (List String)} (h : included.getD [] = []) :
    patterns included excluded recursive =
      ⟨defaultPatterns.map (patternFor recursive),
        excluded.map fun names => names.map (patternFor recursive)⟩ := by
  have hpatterns : patterns included excluded recursive = patterns none excluded recursive := by
    cases included with
    | none => rfl
    | some names =>
        obtain rfl : names = [] := h
        rfl
  rw [hpatterns]
  cases recursive with
  | true => rfl
  | false =>
      have hself (names : List String) : names.map (patternFor false) = names := List.map_id names
      simp only [hself, Option.map_id_fun']
      rfl

/-- **All scripts below the directories are found, and nothing else.** In a tree of directories, where
no patterns of files to examine are given and the files to leave out are given by their names, the
files to examine are found. They are the entries at any depth below one of the directories, or directly
in it if subdirectories are not searched, that have the name of a script or an include file and not
one of the names to leave out. -/
theorem files_complete (ht : tree.IsProper) (directories : List Path) (recursive : Bool)
    (included excluded : Option (List String)) (hincluded : included.getD [] = [])
    (hexcluded : ∀ n ∈ excluded.getD [], PlainName n) :
    ∃ found, files tree directories (patterns included excluded recursive) = .ok found ∧
      ∀ p, p ∈ found ↔ LiesBelow tree directories recursive p ∧ IsScriptName p.name ∧
        p.name ∉ excluded.getD [] := by
  obtain ⟨found, hfound, hmem⟩ :=
    exists_selected ht directories recursive namesEntries_of_mem_defaultPatterns
  simp only [fit_defaultPatterns_iff] at hmem
  rw [patterns_eq hincluded]
  cases excluded with
  | none => exact ⟨found, by rw [files, hfound]; rfl, fun p => by simp [hmem]⟩
  | some names =>
      rw [Option.getD_some] at hexcluded ⊢
      obtain ⟨leftOut, hleftOut, hmem'⟩ :=
        exists_selected ht directories recursive fun n hn => namesEntries_of_plain (hexcluded n hn)
      simp only [fit_plain_iff hexcluded] at hmem'
      refine ⟨found.filter fun f => !leftOut.contains f, ?_, fun p => ?_⟩
      · simp only [files, hfound, Option.map_some, hleftOut]
        rfl
      · simp only [List.mem_filter, hmem, Bool.not_eq_true', List.contains_eq_mem,
          decide_eq_false_iff_not, hmem']
        tauto

def scriptFiles : FileTree :=
  { entries :=
      [(["nasl"], .directory 0o755), (["nasl", "a.nasl"], .file 0o644 []),
        (["nasl", "old.nasl"], .directory 0o755), (["nasl", "old.nasl", "a.nasl"], .file 0o644 []),
        (["nasl", "old.nasl", "b.inc"], .file 0o644 []),
        (["nasl", "old.nasl", "b.txt"], .file 0o644 [])] }

theorem isProper_scriptFiles : scriptFiles.IsProper := by
  constructor <;> decide

/-- Below two directories of which one lies in the other, a directory with the name of a script is
found, and a file in both of them is found twice. -/
theorem files_complete_of_overlapping :
    let directories : List Path := [⟨"/", ["nasl"]⟩, ⟨"/", ["nasl", "old.nasl"]⟩]
    PlainName "a.nasl" ∧
      files scriptFiles directories (patterns none (some ["a.nasl"]) true) =
        .ok [⟨"/", ["nasl", "old.nasl"]⟩, ⟨"/", ["nasl", "old.nasl", "b.inc"]⟩,
          ⟨"/", ["nasl", "old.nasl", "b.inc"]⟩] ∧
      ∀ p, p ∈ ([⟨"/", ["nasl", "old.nasl"]⟩, ⟨"/", ["nasl", "old.nasl", "b.inc"]⟩] : List Path) ↔
        LiesBelow scriptFiles directories true p ∧ IsScriptName p.name ∧ p.name ∉ ["a.nasl"] := by
  intro directories
  have hplain : PlainName "a.nasl" := by decide
  obtain ⟨found, hfound, hmem⟩ := files_complete isProper_scriptFiles directories true none
    (some ["a.nasl"]) rfl (List.forall_mem_singleton.2 hplain)
  have hfiles : files scriptFiles directories (patterns none (some ["a.nasl"]) true) =
      .ok [⟨"/", ["nasl", "old.nasl"]⟩, ⟨"/", ["nasl", "old.nasl", "b.inc"]⟩,
        ⟨"/", ["nasl", "old.nasl", "b.inc"]⟩] := by
    rfl
  refine ⟨hplain, hfiles, fun p => ?_⟩
  obtain rfl := Except.ok.inj (hfound.symm.trans hfiles)
  exact Iff.trans (by simp) (hmem p)

end NaslLint.Discovery
