import NaslLint.FileTree

/-!
# Rewriting a file of a tree

Writing a file that exists changes the bytes of that file and nothing else: every path leads where
it led before, every other file keeps its bytes, and a second write leaves no trace of the first.
-/

namespace NaslLint.FileTree

variable {t : FileTree} {p q : Path} {l k : Location} {e e' : Entry} {mode : Nat}
  {old bytes : Bytes}

theorem lookup_map_values (f : Location → Entry → Entry) (entries : List (Location × Entry))
    (k : Location) :
    (entries.map fun x => (x.1, f x.1 x.2)).lookup k = (entries.lookup k).map (f k) := by
  induction entries with
  | nil => rfl
  | cons entry entries ih =>
      obtain ⟨k', old⟩ := entry
      rw [List.map_cons, List.lookup_cons, List.lookup_cons]
      cases hk : k == k' with
      | true => rw [eq_of_beq hk]; rfl
      | false => exact ih

def contents : Option Entry → Except AccessError Bytes
  | none => .error .missing
  | some (.directory _) => .error .isDirectory
  | some (.file _ bytes) => .ok bytes

theorem contents_eq_ok_iff {entry : Option Entry} :
    contents entry = .ok bytes ↔ ∃ mode, entry = some (.file mode bytes) := by
  cases entry with
  | none => simp [contents]
  | some e => cases e <;> simp [contents]

theorem readBytes_eq_bind : t.readBytes p = (t.locate p).bind fun l => contents (t.entry? l) := by
  rw [readBytes]
  cases t.locate p with
  | error e => rfl
  | ok l =>
      show (match t.entry? l with
        | none => Except.error AccessError.missing
        | some (.directory _) => Except.error AccessError.isDirectory
        | some (.file _ bytes) => Except.ok bytes) = contents (t.entry? l)
      rw [contents.eq_def]

theorem entry?_of_ne_nil (h : l ≠ []) : t.entry? l = t.entries.lookup l := by
  rw [FileTree.entry?, if_neg (by simpa using h)]

theorem follow_append (here : Location) (names more : List String) :
    t.follow here (names ++ more) = (t.follow here names).bind fun l => t.follow l more := by
  induction names generalizing here with
  | nil => rfl
  | cons n names ih =>
      rw [List.cons_append, follow, follow]
      simp only [ih]
      by_cases hhere : t.hasDirectory here = true
      · rw [if_pos hhere, if_pos hhere]
        by_cases hn : (n == "..") = true
        · rw [if_pos hn, if_pos hn]
        · rw [if_neg hn, if_neg hn]
          by_cases hthere : (t.entry? (here ++ [n])).isSome = true
          · rw [if_pos hthere, if_pos hthere]
          · rw [if_neg hthere, if_neg hthere]
            rfl
      · rw [if_neg hhere, if_neg hhere]
        rfl

/-- More names are followed from where the path before them leads. -/
theorem locate_append (p : Path) (more : List String) :
    t.locate { p with names := p.names ++ more } =
      (t.locate p).bind fun l => t.follow l more := by
  have hnames : (Path.absolute { p with names := p.names ++ more } t.here).names =
      (p.absolute t.here).names ++ more := by
    unfold Path.absolute Path.isAbsolute Path.absoluteOf
    by_cases h : (p.anchor != "") = true
    · rw [if_pos h, if_pos h]
    · rw [if_neg h, if_neg h]
      exact (List.append_assoc t.here p.names more).symm
  rw [locate, hnames, follow_append, locate]

def HasFile (t : FileTree) (l : Location) (mode : Nat) (bytes : Bytes) : Prop :=
  t.entry? l = some (.file mode bytes)

def rewrite (t : FileTree) (l : Location) (mode : Nat) (bytes : Bytes) : FileTree :=
  { t with entries := t.entries.map fun x => (x.1, if x.1 = l then .file mode bytes else x.2) }

theorem rewrite_rewrite (t : FileTree) (l : Location) (mode : Nat) (old bytes : Bytes) :
    (t.rewrite l mode old).rewrite l mode bytes = t.rewrite l mode bytes := by
  rw [rewrite, rewrite, rewrite, List.map_map]
  congr 1
  refine List.map_congr_left fun entry _ => ?_
  by_cases hk : entry.1 = l <;> simp [hk]

namespace HasFile

theorem ne_nil (h : t.HasFile l mode old) : l ≠ [] := by
  rintro rfl
  simp [HasFile, entry?] at h

theorem setEntry_eq (h : t.HasFile l mode old) :
    t.setEntry l (.file mode bytes) = t.rewrite l mode bytes := by
  have hsome : (t.entries.lookup l).isSome = true := by
    rw [← entry?_of_ne_nil h.ne_nil, h]
    rfl
  rw [setEntry, if_pos hsome, rewrite]
  congr 1
  refine List.map_congr_left fun entry _ => ?_
  by_cases hk : entry.1 = l <;> simp [hk]

/-- Rewriting a file changes its entry and no other one. -/
theorem entry?_rewrite (h : t.HasFile l mode old) :
    entry? (t.rewrite l mode bytes) k = if k = l then some (.file mode bytes) else t.entry? k := by
  by_cases hk : k = []
  · rw [hk, if_neg h.ne_nil.symm]
    rfl
  · have hmap : (t.rewrite l mode bytes).entries.lookup k =
        (t.entries.lookup k).map fun old => if k = l then .file mode bytes else old :=
      lookup_map_values (fun k old => if k = l then .file mode bytes else old) t.entries k
    rw [entry?_of_ne_nil hk, hmap, ← entry?_of_ne_nil hk]
    by_cases hkl : k = l
    · rw [hkl, h]
      simp
    · simp [hkl]

theorem rewrite (h : t.HasFile l mode old) : (t.rewrite l mode bytes).HasFile l mode bytes := by
  rw [HasFile, h.entry?_rewrite, if_pos rfl]

/-- Whatever does not depend on bytes is the same of every entry. -/
theorem map_entry?_rewrite {α : Type} {f : Entry → α} (h : t.HasFile l mode old)
    (hf : f (.file mode bytes) = f (.file mode old)) :
    (FileTree.entry? (t.rewrite l mode bytes) k).map f = (t.entry? k).map f := by
  rw [h.entry?_rewrite]
  by_cases hk : k = l
  · rw [if_pos hk, hk, h, Option.map_some, Option.map_some, hf]
  · rw [if_neg hk]

theorem isDirectory_entry?_rewrite (h : t.HasFile l mode old) :
    (FileTree.entry? (t.rewrite l mode bytes) k).map Entry.isDirectory =
      (t.entry? k).map Entry.isDirectory :=
  h.map_entry?_rewrite rfl

theorem hasDirectory_rewrite (h : t.HasFile l mode old) :
    (t.rewrite l mode bytes).hasDirectory k = t.hasDirectory k := by
  have hany (entry : Option Entry) :
      entry.any Entry.isDirectory = (entry.map Entry.isDirectory).getD false := by
    cases entry <;> rfl
  rw [hasDirectory, hasDirectory, hany, hany, h.isDirectory_entry?_rewrite]

theorem isSome_entry?_rewrite (h : t.HasFile l mode old) :
    (FileTree.entry? (t.rewrite l mode bytes) k).isSome = (t.entry? k).isSome := by
  rw [← Option.isSome_map, h.isDirectory_entry?_rewrite, Option.isSome_map]

/-- Every path leads where it led before. -/
theorem locate_rewrite (h : t.HasFile l mode old) :
    (t.rewrite l mode bytes).locate p = t.locate p := by
  have hfollow (names : List String) (here : Location) :
      (t.rewrite l mode bytes).follow here names = t.follow here names := by
    induction names generalizing here with
    | nil => rfl
    | cons n more ih =>
        rw [follow, follow]
        simp only [h.hasDirectory_rewrite, h.isSome_entry?_rewrite, ih]
  exact hfollow (p.absolute t.here).names []

theorem map_at?_rewrite {α : Type} {f : Entry → α} (h : t.HasFile l mode old)
    (hf : f (.file mode bytes) = f (.file mode old)) :
    ((t.rewrite l mode bytes).at? q).map f = (t.at? q).map f := by
  rw [at?, at?, h.locate_rewrite]
  cases t.locate q with
  | error e => rfl
  | ok k => exact h.map_entry?_rewrite hf

theorem exists?_rewrite (h : t.HasFile l mode old) :
    (t.rewrite l mode bytes).exists? q = t.exists? q := by
  have hmap : ((t.rewrite l mode bytes).at? q).map Entry.isDirectory =
      (t.at? q).map Entry.isDirectory := h.map_at?_rewrite rfl
  rw [exists?, exists?, ← Option.isSome_map, hmap, Option.isSome_map]

theorem readBytes_of_locate (h : t.HasFile l mode old) (hq : t.locate q = .ok l) :
    t.readBytes q = .ok old := by
  rw [readBytes_eq_bind, hq]
  show contents (t.entry? l) = _
  rw [h, contents]

/-- Only the file that is rewritten gets other bytes. -/
theorem readBytes_rewrite_of_ne (h : t.HasFile l mode old) (hq : t.locate q ≠ .ok l) :
    (t.rewrite l mode bytes).readBytes q = t.readBytes q := by
  rw [readBytes_eq_bind, readBytes_eq_bind, h.locate_rewrite]
  cases hk : t.locate q with
  | error e => rfl
  | ok k =>
      have hkl : k ≠ l := fun hkl => hq (by rw [hk, hkl])
      show contents (FileTree.entry? (t.rewrite l mode bytes) k) = contents (t.entry? k)
      rw [h.entry?_rewrite, if_neg hkl]

theorem exists_readBytes_rewrite (h : t.HasFile l mode old)
    (hq : ∃ bytes, t.readBytes q = .ok bytes) :
    ∃ bytes', (t.rewrite l mode bytes).readBytes q = .ok bytes' := by
  by_cases hlocate : t.locate q = .ok l
  · exact ⟨bytes, h.rewrite.readBytes_of_locate (h.locate_rewrite.trans hlocate)⟩
  · rwa [h.readBytes_rewrite_of_ne hlocate]

theorem write_eq (h : t.HasFile l mode old) (hp : t.locate p = .ok l) :
    t.write p bytes = .ok (t.rewrite l mode bytes) := by
  simp only [write, hp, show t.entry? l = _ from h, h.setEntry_eq]

end HasFile

/-- A file that can be read is an entry of the tree. -/
theorem exists_hasFile_of_readBytes (h : t.readBytes p = .ok bytes) :
    ∃ l mode, t.locate p = .ok l ∧ t.HasFile l mode bytes := by
  rw [readBytes_eq_bind] at h
  cases hp : t.locate p with
  | error e =>
      rw [hp] at h
      cases h
  | ok l =>
      rw [hp] at h
      change contents (t.entry? l) = .ok bytes at h
      rw [contents_eq_ok_iff] at h
      obtain ⟨mode, hmode⟩ := h
      exact ⟨l, mode, rfl, hmode⟩

theorem readText_eq_ok_iff {text : List Char} :
    t.readText p = .ok text ↔
      ∃ bytes, t.readBytes p = .ok bytes ∧ Text.unifyNewlines (Text.ofLatin1 bytes) = text := by
  rw [readText]
  cases t.readBytes p <;> simp [Except.map]

theorem exists_hasFile_of_readText {text : List Char} (h : t.readText p = .ok text) :
    ∃ l mode bytes, t.locate p = .ok l ∧ t.HasFile l mode bytes ∧
      text = Text.unifyNewlines (Text.ofLatin1 bytes) := by
  obtain ⟨bytes, hbytes, htext⟩ := readText_eq_ok_iff.1 h
  obtain ⟨l, mode, hlocate, hhas⟩ := exists_hasFile_of_readBytes hbytes
  exact ⟨l, mode, bytes, hlocate, hhas, htext.symm⟩

/-! ## Directories -/

theorem exists?_of_isDirectory (h : t.isDirectory p = true) : t.exists? p = true := by
  unfold isDirectory at h
  unfold exists?
  cases hentry : t.at? p with
  | none =>
      rw [hentry] at h
      cases h
  | some e => rfl

/-- A directory has no text. -/
theorem readText_of_isDirectory (h : t.isDirectory p = true) :
    t.readText p = .error .isDirectory := by
  unfold isDirectory at? at h
  rw [readText, readBytes_eq_bind]
  cases hlocate : t.locate p with
  | error e =>
      rw [hlocate] at h
      cases h
  | ok l =>
      rw [hlocate] at h
      change (t.entry? l).any Entry.isDirectory = true at h
      change (contents (t.entry? l)).map _ = _
      cases hentry : t.entry? l with
      | none =>
          rw [hentry] at h
          cases h
      | some e =>
          rw [hentry] at h
          cases e with
          | directory mode => rfl
          | file mode bytes => cases h

/-! ## Files that can be read -/

/-- The files can be read and lie below the root. -/
def Reaches (t : FileTree) (root : Path) (files : List Path) : Prop :=
  ∀ file ∈ files, (∃ text, t.readText file = .ok text) ∧
    ∃ relative, file.fromRoot? root t.here = some relative

theorem isSome_toOption_readText_iff :
    (t.readText p).toOption.isSome = true ↔ ∃ text, t.readText p = .ok text := by
  cases t.readText p <;> simp [Except.toOption]

instance (t : FileTree) (root : Path) (files : List Path) : Decidable (t.Reaches root files) :=
  decidable_of_iff (∀ file ∈ files, (t.readText file).toOption.isSome = true ∧
      (file.fromRoot? root t.here).isSome = true)
    (forall₂_congr fun _ _ => and_congr isSome_toOption_readText_iff Option.isSome_iff_exists)

theorem Reaches.perm {root : Path} {files files' : List Path} (h : t.Reaches root files)
    (hperm : files'.Perm files) : t.Reaches root files' :=
  fun file hfile => h file (hperm.mem_iff.1 hfile)

end NaslLint.FileTree
