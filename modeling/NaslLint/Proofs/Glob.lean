import Mathlib.Data.List.Infix
import NaslLint.Glob
import NaslLint.Proofs.FileTree
import NaslLint.Proofs.Path

/-!
# What file patterns select

A name without wildcards fits itself only, and a star in front of it lets it fit every name that ends
with it. In a tree of directories, the step to an entry leads to the entries of a directory, and the
step to any directory below leads to all of them.

* `NamePart.fit_read_of_plain` and `NamePart.fit_star_read_of_plain` say which names fit;
* `Glob.ofString_of_path` says how a pattern is read, name by name;
* `FileTree.IsProper` says which trees are trees of directories, and
  `FileTree.IsProper.follow_eq_ok` that paths lead to all entries of such a tree;
* `Glob.mem_select_entry` and `Glob.mem_select_below` say what the two kinds of patterns select.
-/

namespace NaslLint

/-! ## Names with wildcards -/

/-- A name of a file in which no character stands for others. -/
def PlainName (n : String) : Prop :=
  (Path.IsName n ∧ n ≠ "..") ∧ '*' ∉ n.toList ∧ '?' ∉ n.toList ∧ '[' ∉ n.toList

instance (n : String) : Decidable (PlainName n) :=
  inferInstanceAs (Decidable (_ ∧ _))

namespace NamePart

theorem anyEnding_iff {holds : List Char → Bool} {t : List Char} :
    anyEnding holds t = true ↔ ∃ u, u <:+ t ∧ holds u = true := by
  induction t with
  | nil => simp [anyEnding]
  | cons c t ih => simp [anyEnding, ih, List.suffix_cons_iff, or_and_right, exists_or]

theorem holds_only_iff {c d : Char} : (CharSet.only c).holds d = true ↔ d = c := by
  simp only [CharSet.holds, CharSet.only, List.any_cons, List.any_nil, Bool.or_false, Bool.bne_false,
    Bool.and_eq_true, decide_eq_true_eq]
  exact ⟨fun h => Char.le_antisymm h.2 h.1, fun h => h ▸ ⟨Char.le_refl d, Char.le_refl d⟩⟩

theorem read_of_plain {w : List Char} (hstar : '*' ∉ w) (hone : '?' ∉ w) (hset : '[' ∉ w) :
    read w = w.map fun c => .one (.only c) := by
  induction w with
  | nil => rfl
  | cons c w ih =>
      simp only [List.mem_cons, not_or] at hstar hone hset
      have hread : readFrom 0 (c :: w) = .one (.only c) :: readFrom 0 w := by
        rw [readFrom]
        · exact fun h => hstar.1 h.symm
        · exact fun h => hone.1 h.symm
        · exact fun h => hset.1 h.symm
      rw [read, hread, List.map_cons, ← ih hstar.2 hone.2 hset.2, read]

/-- A text without wildcards fits itself only. -/
theorem fit_read_of_plain {w t : List Char} (hstar : '*' ∉ w) (hone : '?' ∉ w) (hset : '[' ∉ w) :
    fit (read w) t = true ↔ t = w := by
  rw [read_of_plain hstar hone hset]
  clear hstar hone hset
  induction w generalizing t with
  | nil => simp [fit]
  | cons c w ih =>
      cases t with
      | nil => simp [fit]
      | cons d t => simp [fit, holds_only_iff, ih]

/-- With a star in front, it fits what ends with it. -/
theorem fit_star_read_of_plain {w t : List Char} (hstar : '*' ∉ w) (hone : '?' ∉ w)
    (hset : '[' ∉ w) : fit (read ('*' :: w)) t = true ↔ w <:+ t := by
  change fit (.star :: read w) t = true ↔ w <:+ t
  simp only [fit, anyEnding_iff, fit_read_of_plain hstar hone hset, exists_eq_right]

end NamePart

/-! ## Trees of directories -/

namespace FileTree

/-- A tree of directories: every location is listed once, its names are names of files, and it is a
directory in which an entry lies. -/
structure IsProper (t : FileTree) : Prop where
  nodup : (t.entries.map Prod.fst).Nodup
  isName : ∀ l ∈ t.entries.map Prod.fst, ∀ n ∈ l, Path.IsName n ∧ n ≠ ".."
  inDirectory : ∀ l ∈ t.entries.map Prod.fst, t.hasDirectory l.dropLast = true

/-- The names lead from the directory at a path to an entry. -/
def Below (t : FileTree) (directory : Path) (names : List String) : Prop :=
  ∃ l, t.locate directory = .ok l ∧ (t.entry? (l ++ names)).isSome = true

variable {t : FileTree} {l : Location} {names : List String} {n : String} {e : Entry}

theorem isSome_entry?_iff (hl : l ≠ []) :
    (t.entry? l).isSome = true ↔ l ∈ t.entries.map Prod.fst := by
  rw [entry?_of_ne_nil hl, List.lookup_isSome_iff, List.mem_map]
  simp only [beq_iff_eq, eq_comm (a := l)]

theorem isSome_entry?_of_hasDirectory (h : t.hasDirectory l = true) :
    (t.entry? l).isSome = true := by
  rw [hasDirectory, Option.any_eq_true] at h
  obtain ⟨e, he, -⟩ := h
  rw [he]
  rfl

theorem mem_children_iff : n ∈ t.children l ↔ (t.entry? (l ++ [n])).isSome = true := by
  rw [isSome_entry?_iff (by simp), children, List.mem_filterMap, List.mem_map]
  refine exists_congr fun x => and_congr_right fun _ => ?_
  obtain ⟨k, e⟩ := x
  show (if k.dropLast == l && !k.isEmpty then k.getLast? else none) = some n ↔ k = l ++ [n]
  constructor
  · intro h
    by_cases hk : (k.dropLast == l && !k.isEmpty) = true
    · rw [if_pos hk] at h
      rw [← List.dropLast_append_getLast? n h, eq_of_beq (Bool.and_eq_true_iff.1 hk).1]
    · rw [if_neg hk] at h
      cases h
  · rintro rfl
    simp

namespace IsProper

theorem entry?_eq_some_iff (ht : t.IsProper) (hl : l ≠ []) :
    t.entry? l = some e ↔ (l, e) ∈ t.entries := by
  rw [entry?_of_ne_nil hl]
  constructor
  · intro h
    obtain ⟨before, behind, hentries, -⟩ := List.lookup_eq_some_iff.1 h
    rw [hentries]
    simp
  · intro h
    obtain ⟨before, behind, hentries⟩ := List.append_of_mem h
    refine List.lookup_eq_some_iff.2 ⟨before, behind, hentries, fun x hx => ?_⟩
    have hnodup := ht.nodup
    rw [hentries, List.map_append, List.nodup_append] at hnodup
    simpa using fun heq => hnodup.2.2 x.1 (List.mem_map_of_mem hx) l (by simp) heq.symm

theorem mem_directoriesBelow_iff (ht : t.IsProper) (hl : t.hasDirectory l = true) :
    names ∈ t.directoriesBelow l ↔ t.hasDirectory (l ++ names) = true := by
  by_cases hnil : names = []
  · subst hnil
    simp [directoriesBelow, hl]
  · rw [directoriesBelow, List.mem_cons, or_iff_right hnil, List.mem_filterMap, hasDirectory,
      Option.any_eq_true]
    constructor
    · rintro ⟨⟨k, e⟩, hmem, h⟩
      change (if e.isDirectory && l.isPrefixOf k && k.length > l.length then some (k.drop l.length)
        else none) = some names at h
      by_cases hk : (e.isDirectory && l.isPrefixOf k && k.length > l.length) = true
      · rw [if_pos hk, Option.some.injEq] at h
        simp only [Bool.and_eq_true, List.isPrefixOf_iff_prefix] at hk
        obtain ⟨⟨hdirectory, rest, rfl⟩, -⟩ := hk
        rw [List.drop_left] at h
        subst h
        exact ⟨e, (ht.entry?_eq_some_iff (by simp [hnil])).2 hmem, hdirectory⟩
      · rw [if_neg hk] at h
        cases h
    · rintro ⟨e, he, hdirectory⟩
      refine ⟨(l ++ names, e), (ht.entry?_eq_some_iff (by simp [hnil])).1 he, ?_⟩
      simp [hdirectory, List.length_pos_iff.2 hnil]

/-- Every location on the way to an entry is a directory. -/
theorem hasDirectory_of_isSome (ht : t.IsProper) (hnames : names ≠ [])
    (h : (t.entry? (l ++ names)).isSome = true) : t.hasDirectory l = true := by
  induction names using List.reverseRecOn with
  | nil => exact absurd rfl hnames
  | append_singleton names n ih =>
      have hmem := (isSome_entry?_iff (by simp)).1 h
      have hlast := ht.inDirectory _ hmem
      rw [← List.append_assoc, List.dropLast_concat] at hlast
      by_cases hnil : names = []
      · rwa [hnil, List.append_nil] at hlast
      · exact ih hnil (isSome_entry?_of_hasDirectory hlast)

theorem isName_of_isSome (ht : t.IsProper) (h : (t.entry? (l ++ names)).isSome = true)
    (hn : n ∈ names) :
    Path.IsName n ∧ n ≠ ".." := by
  have hne : l ++ names ≠ [] := by
    simp [List.ne_nil_of_mem hn]
  exact ht.isName _ ((isSome_entry?_iff hne).1 h) n (List.mem_append_right l hn)

/-- **Paths lead to all entries.** -/
theorem follow_eq_ok (ht : t.IsProper) (h : (t.entry? (l ++ names)).isSome = true) :
    t.follow l names = .ok (l ++ names) := by
  induction names generalizing l with
  | nil => rw [follow, List.append_nil]
  | cons n names ih =>
      have hhere := ht.hasDirectory_of_isSome (List.cons_ne_nil n names) h
      have hn := (ht.isName_of_isSome h List.mem_cons_self).2
      rw [List.append_cons] at h ⊢
      have hthere : (t.entry? (l ++ [n])).isSome = true := by
        by_cases hnil : names = []
        · rwa [hnil, List.append_nil] at h
        · exact isSome_entry?_of_hasDirectory (ht.hasDirectory_of_isSome hnil h)
      rw [follow, if_pos hhere, if_neg (by simpa using hn), if_pos hthere, ih h]

theorem locate_append (ht : t.IsProper) {d : Path} (hd : t.locate d = .ok l)
    (h : (t.entry? (l ++ names)).isSome = true) :
    t.locate { d with names := d.names ++ names } = .ok (l ++ names) := by
  rw [FileTree.locate_append, hd]
  exact ht.follow_eq_ok h

end IsProper

theorem isDirectory_iff {d : Path} :
    t.isDirectory d = true ↔ ∃ l, t.locate d = .ok l ∧ t.hasDirectory l = true := by
  rw [isDirectory, at?]
  cases t.locate d with
  | error e => simp [Except.toOption]
  | ok l => simp [Except.toOption, hasDirectory]

end FileTree

/-! ## Reading patterns -/

namespace Glob

variable {n s : String} {step : GlobStep} {name : List NamePart} {tree : FileTree}
  {here d p : Path} {names : List String} {more : List GlobStep}

theorem readStep_of_plain (hn : PlainName n) :
    readStep n.toList = .ok (.entry (NamePart.read n.toList)) := by
  obtain ⟨⟨-, hup⟩, hstar, -⟩ := hn
  rw [readStep, if_neg, if_neg, if_neg]
  · exact fun h => hstar ((Text.contains_iff.1 h).subset (by simp))
  · exact fun h => hup (String.toList_inj.1 (eq_of_beq h))
  · intro h
    rw [eq_of_beq h] at hstar
    simp at hstar

/-- A pattern is read name by name. -/
theorem ofString_of_path (hpath : Path.ofString s = ⟨"", names⟩) (hnames : names ≠ [])
    (hlast : s.toList.getLast? ≠ some '/') :
    ofString s = (names.mapM fun n => readStep n.toList).map fun steps => ⟨steps, false⟩ := by
  have hempty : s.isEmpty = false := by
    rw [Bool.eq_false_iff]
    intro hs
    rw [String.isEmpty_iff.1 hs] at hpath
    exact hnames (congrArg Path.names hpath).symm
  have hslash : (s.toList.getLast? == some '/') = false := by simpa using hlast
  simp only [ofString, hpath, hempty, hslash, Path.isAbsolute]
  rw [if_neg Bool.false_ne_true, if_neg (by decide), if_neg (by simpa using hnames)]
  cases names.mapM fun n => readStep n.toList <;> rfl

theorem getLast?_toList_ne (hn : Path.IsName n) : n.toList.getLast? ≠ some '/' :=
  fun h => hn.2.2 (List.mem_of_getLast? h)

theorem ofString_name (hn : Path.IsName n) (hstep : readStep n.toList = .ok step) :
    ofString n = .ok ⟨[step], false⟩ := by
  have hpath : Path.ofString n = ⟨"", [n]⟩ :=
    Path.ofString_of_written (List.forall_mem_singleton.2 hn) (by simp [Path.written])
  rw [ofString_of_path hpath (List.cons_ne_nil n []) (getLast?_toList_ne hn), List.mapM_cons, hstep]
  rfl

theorem ofString_below_name (hn : Path.IsName n) (hstep : readStep n.toList = .ok step) :
    ofString ("**/" ++ n) = .ok ⟨[.below, step], false⟩ := by
  have hnames : ∀ m ∈ ["**", n], Path.IsName m := by
    refine List.forall_mem_cons.2 ⟨⟨?_, ?_, ?_⟩, List.forall_mem_singleton.2 hn⟩ <;> decide
  have hpath : Path.ofString ("**/" ++ n) = ⟨"", ["**", n]⟩ :=
    Path.ofString_of_written hnames (by simp [Path.written])
  have hlast : ("**/" ++ n).toList.getLast? ≠ some '/' := by
    rw [String.toList_append, List.getLast?_append_of_ne_nil]
    · exact getLast?_toList_ne hn
    · exact fun h => hn.1 (String.toList_eq_nil_iff.1 h)
  rw [ofString_of_path hpath (List.cons_ne_nil _ _) hlast, List.mapM_cons, List.mapM_cons, hstep]
  rfl

/-! ## What patterns select -/

theorem mem_selectFrom_entry :
    p ∈ selectFrom tree false [.entry name] here ↔
      ∃ n, tree.Below here [n] ∧ NamePart.fit name n.toList = true ∧
        p = { here with names := here.names ++ [n] } := by
  rw [selectFrom]
  cases hlocate : tree.locate here with
  | error e => simp [FileTree.Below, hlocate]
  | ok l => simp [FileTree.Below, hlocate, FileTree.mem_children_iff, selectFrom, and_assoc]

/-- The step to any directory below leads to all of them. -/
theorem mem_selectFrom_below (ht : tree.IsProper) {l : Location} (hlocate : tree.locate here = .ok l)
    (hl : tree.hasDirectory l = true) :
    p ∈ selectFrom tree false (.below :: more) here ↔
      ∃ names, tree.hasDirectory (l ++ names) = true ∧
        p ∈ selectFrom tree false more { here with names := here.names ++ names } := by
  simp only [selectFrom, hlocate, List.mem_eraseDups, List.mem_flatMap,
    ht.mem_directoriesBelow_iff hl]

/-- **A pattern of one name** selects the entries of a directory that fit. -/
theorem mem_select_entry (ht : tree.IsProper) :
    p ∈ select ⟨[.entry name], false⟩ tree d ↔
      ∃ n, tree.Below d [n] ∧ NamePart.fit name n.toList = true ∧
        p = { d with names := d.names ++ [n] } := by
  rw [select]
  by_cases hd : tree.isDirectory d = true
  · rw [if_pos hd, mem_selectFrom_entry]
  · rw [if_neg hd]
    refine iff_of_false (List.not_mem_nil) ?_
    rintro ⟨n, ⟨l, hlocate, hsome⟩, -⟩
    exact hd (FileTree.isDirectory_iff.2 ⟨l, hlocate,
      ht.hasDirectory_of_isSome (List.cons_ne_nil n []) hsome⟩)

/-- **A pattern of one name in any directory** selects the entries at any depth that fit. -/
theorem mem_select_below (ht : tree.IsProper) :
    p ∈ select ⟨[.below, .entry name], false⟩ tree d ↔
      ∃ names n, tree.Below d (names ++ [n]) ∧ NamePart.fit name n.toList = true ∧
        p = { d with names := d.names ++ (names ++ [n]) } := by
  rw [select]
  constructor
  · intro hp
    by_cases hd : tree.isDirectory d = true
    · rw [if_pos hd] at hp
      obtain ⟨l, hlocate, hl⟩ := FileTree.isDirectory_iff.1 hd
      obtain ⟨names, hnames, hp⟩ := (mem_selectFrom_below ht hlocate hl).1 hp
      obtain ⟨n, ⟨l', hlocate', hn⟩, hfit, rfl⟩ := mem_selectFrom_entry.1 hp
      rw [ht.locate_append hlocate (FileTree.isSome_entry?_of_hasDirectory hnames)] at hlocate'
      obtain rfl := Except.ok.inj hlocate'
      rw [List.append_assoc] at hn
      exact ⟨names, n, ⟨l, hlocate, hn⟩, hfit, by rw [List.append_assoc]⟩
    · rw [if_neg hd] at hp
      cases hp
  · rintro ⟨names, n, ⟨l, hlocate, hn⟩, hfit, rfl⟩
    have hl := ht.hasDirectory_of_isSome (by simp) hn
    rw [if_pos (FileTree.isDirectory_iff.2 ⟨l, hlocate, hl⟩)]
    rw [← List.append_assoc] at hn
    have hnames := ht.hasDirectory_of_isSome (List.cons_ne_nil n []) hn
    refine (mem_selectFrom_below ht hlocate hl).2
      ⟨names, hnames, mem_selectFrom_entry.2 ⟨n, ?_, hfit, ?_⟩⟩
    · exact ⟨_, ht.locate_append hlocate (FileTree.isSome_entry?_of_hasDirectory hnames), hn⟩
    · rw [List.append_assoc]

end Glob

end NaslLint
