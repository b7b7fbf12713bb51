import NaslLint.Proofs.FileTree
import NaslLint.Proofs.Path

/-!
# Appending to a file of a tree

Writing and appending change a file that exists, or create one in a directory that exists
(`write_cases`). Every path that led to an entry leads to it afterwards (`FileTree.Extends`), and what
could be appended to can be appended to again.
-/

namespace NaslLint.FileTree

variable {t t' : FileTree} {p q : Path} {d l k : Location} {e : Entry} {mode : Nat}
  {old bytes : Bytes}

theorem locate_eq_bind (h : p.names ≠ []) :
    t.locate p = (t.locate p.parent).bind fun d => t.follow d [p.name] := by
  have hp : (⟨p.parent.anchor, p.parent.names ++ [p.name]⟩ : Path) = p := by
    rw [← Path.names_eq_append h]
    rfl
  rw [← locate_append p.parent [p.name], hp]

/-- The tree has no file at a path, but the directory for it. -/
structure Lacks (t : FileTree) (p : Path) (d : Location) : Prop where
  named : p.names ≠ []
  parent : t.locate p.parent = .ok d
  directory : t.hasDirectory d = true
  name_ne : p.name ≠ ".."
  entry : t.entry? (d ++ [p.name]) = none

theorem lacks_of_locate (hp : t.locate p = .error .missing) (hd : t.locate p.parent = .ok d) :
    t.Lacks p d := by
  have hnamed : p.names ≠ [] := by
    intro hnil
    have hself : p.parent = p := by
      rw [Path.parent, hnil, List.dropLast_nil, ← hnil]
    rw [hself, hp] at hd
    cases hd
  rw [locate_eq_bind hnamed, hd] at hp
  change t.follow d [p.name] = .error .missing at hp
  simp only [follow] at hp
  split at hp
  next hdirectory =>
    split at hp
    next => cases hp
    next hname =>
      split at hp
      next => cases hp
      next hentry => exact ⟨hnamed, hd, hdirectory, by simpa using hname, by simpa using hentry⟩
  next => cases hp

def create (t : FileTree) (l : Location) (bytes : Bytes) : FileTree :=
  { t with entries := t.entries ++ [(l, .file 0o644 bytes)] }

namespace Lacks

theorem locate_eq (h : t.Lacks p d) : t.locate p = .error .missing := by
  rw [locate_eq_bind h.named, h.parent]
  show t.follow d [p.name] = _
  simp only [follow, h.directory, h.entry, beq_iff_eq, if_neg h.name_ne]
  rfl

theorem lookup_eq (h : t.Lacks p d) : t.entries.lookup (d ++ [p.name]) = none := by
  rw [← entry?_of_ne_nil (by simp), h.entry]

theorem setEntry_eq (h : t.Lacks p d) :
    t.setEntry (d ++ [p.name]) (.file 0o644 bytes) = t.create (d ++ [p.name]) bytes := by
  rw [setEntry, h.lookup_eq]
  rfl

theorem write_eq (h : t.Lacks p d) :
    t.write p bytes = .ok (t.create (d ++ [p.name]) bytes) := by
  simp only [write, h.locate_eq, h.parent]
  show Except.ok (t.setEntry (d ++ [p.name]) (.file 0o644 bytes)) = _
  rw [h.setEntry_eq]

theorem append_eq (h : t.Lacks p d) :
    t.append p bytes = .ok (t.create (d ++ [p.name]) bytes) := by
  have hread : t.readBytes p = .error .missing := by
    rw [readBytes_eq_bind, h.locate_eq]
    rfl
  simp only [append, hread, h.write_eq]

/-- Creating a file adds its entry and keeps all others. -/
theorem entry?_create (h : t.Lacks p d) :
    entry? (t.create (d ++ [p.name]) bytes) k =
      if k = d ++ [p.name] then some (.file 0o644 bytes) else t.entry? k := by
  by_cases hk : k = []
  · rw [hk, if_neg (by simp)]
    rfl
  · rw [entry?_of_ne_nil hk, entry?_of_ne_nil hk, create, List.lookup_append]
    by_cases hkl : k = d ++ [p.name]
    · rw [if_pos hkl, hkl, h.lookup_eq]
      simp
    · rw [if_neg hkl]
      simp [List.lookup_cons, beq_eq_false_iff_ne.2 hkl]

theorem hasFile_create (h : t.Lacks p d) :
    (t.create (d ++ [p.name]) bytes).HasFile (d ++ [p.name]) 0o644 bytes := by
  rw [HasFile, h.entry?_create, if_pos rfl]

theorem entry?_create_of_some (h : t.Lacks p d) (hk : t.entry? k = some e) :
    entry? (t.create (d ++ [p.name]) bytes) k = some e := by
  rw [h.entry?_create, if_neg, hk]
  rintro rfl
  rw [h.entry] at hk
  cases hk

theorem hasDirectory_create (h : t.Lacks p d) (hk : t.hasDirectory k = true) :
    (t.create (d ++ [p.name]) bytes).hasDirectory k = true := by
  rw [hasDirectory] at hk ⊢
  cases hentry : t.entry? k with
  | none => simp [hentry] at hk
  | some e => rwa [h.entry?_create_of_some hentry, ← hentry]

/-- Every path that led to an entry leads to it still. -/
theorem locate_create (h : t.Lacks p d) (hq : t.locate q = .ok k) :
    (t.create (d ++ [p.name]) bytes).locate q = .ok k := by
  -- each step of the old way ends at an entry, and entries stay
  have hfollow (names : List String) (here : Location) (hq : t.follow here names = .ok k) :
      (t.create (d ++ [p.name]) bytes).follow here names = .ok k := by
    induction names generalizing here with
    | nil => exact hq
    | cons n more ih =>
        simp only [follow] at hq ⊢
        split at hq
        next hdirectory =>
          rw [if_pos (h.hasDirectory_create hdirectory)]
          split at hq
          next hname => rw [if_pos hname]; exact ih _ hq
          next hname =>
            rw [if_neg hname]
            split at hq
            next hthere =>
              obtain ⟨e, he⟩ := Option.isSome_iff_exists.1 hthere
              rw [h.entry?_create_of_some he]
              exact ih _ hq
            next => cases hq
        next => cases hq
  exact hfollow (q.absolute t.here).names [] hq

/-- Another file that the tree lacks is lacking still, unless it is the one created. -/
theorem create_of_lacks (h : t.Lacks p d) {d' : Location} (hq : t.Lacks q d') :
    (t.create (d ++ [p.name]) bytes).locate q = .ok (d ++ [p.name]) ∨
      (t.create (d ++ [p.name]) bytes).Lacks q d' := by
  have hparent : (t.create (d ++ [p.name]) bytes).locate q.parent = .ok d' :=
    h.locate_create hq.parent
  have hdirectory : (t.create (d ++ [p.name]) bytes).hasDirectory d' = true :=
    h.hasDirectory_create hq.directory
  by_cases hsame : d' ++ [q.name] = d ++ [p.name]
  · left
    rw [locate_eq_bind hq.named, hparent]
    show follow _ d' [q.name] = _
    simp only [follow, hdirectory, beq_iff_eq, if_neg hq.name_ne, hsame, h.entry?_create]
    rfl
  · right
    exact ⟨hq.named, hparent, hdirectory, hq.name_ne, by
      rw [h.entry?_create, if_neg hsame, hq.entry]⟩

end Lacks

/-! ## What writing does -/

/-- Writing rewrites a file of the tree or creates one. -/
theorem write_cases (h : t.write p bytes = .ok t') :
    (∃ l mode old, t.locate p = .ok l ∧ t.HasFile l mode old ∧ t' = t.rewrite l mode bytes) ∨
      ∃ d, t.Lacks p d ∧ t' = t.create (d ++ [p.name]) bytes := by
  rw [write] at h
  split at h
  next l hlocate =>
    split at h
    next mode old hentry =>
      have hhas : t.HasFile l mode old := hentry
      rw [hhas.setEntry_eq] at h
      exact Or.inl ⟨l, mode, old, hlocate, hhas, (Except.ok.inj h).symm⟩
    next => cases h
  next hlocate =>
    cases hparent : t.locate p.parent with
    | error e =>
        rw [hparent] at h
        cases h
    | ok d =>
        rw [hparent] at h
        have hlacks := lacks_of_locate hlocate hparent
        change Except.ok (t.setEntry (d ++ [p.name]) (.file 0o644 bytes)) = _ at h
        rw [hlacks.setEntry_eq] at h
        exact Or.inr ⟨d, hlacks, (Except.ok.inj h).symm⟩
  next => cases h

theorem exists_write_of_append (h : t.append p bytes = .ok t') :
    ∃ content, t.write p content = .ok t' := by
  rw [append] at h
  split at h
  · exact ⟨_, h⟩
  · exact ⟨_, h⟩
  · cases h

/-- A tree seen from the same directory, in which every path that led to an entry leads to it still,
and all directories are directories. -/
structure Extends (t t' : FileTree) : Prop where
  here : t'.here = t.here
  locate {p : Path} {l : Location} : t.locate p = .ok l → t'.locate p = .ok l
  hasDirectory {l : Location} : t.hasDirectory l = true → t'.hasDirectory l = true

namespace Extends

theorem refl (t : FileTree) : t.Extends t :=
  ⟨rfl, id, id⟩

theorem trans {t'' : FileTree} (h : t.Extends t') (h' : t'.Extends t'') : t.Extends t'' :=
  ⟨h'.here.trans h.here, h'.locate ∘ h.locate, h'.hasDirectory ∘ h.hasDirectory⟩

end Extends

theorem extends_write (h : t.write p bytes = .ok t') : t.Extends t' := by
  rcases write_cases h with ⟨l, mode, old, -, hhas, rfl⟩ | ⟨d, hlacks, rfl⟩
  · exact ⟨rfl, hhas.locate_rewrite.trans, hhas.hasDirectory_rewrite.trans⟩
  · exact ⟨rfl, hlacks.locate_create, hlacks.hasDirectory_create⟩

theorem extends_append (h : t.append p bytes = .ok t') : t.Extends t' := by
  obtain ⟨content, hwrite⟩ := exists_write_of_append h
  exact extends_write hwrite

/-! ## What can be appended to -/

/-- The path leads to a file, or to a place where one can be created. -/
def Appendable (t : FileTree) (p : Path) : Prop :=
  ∃ t', t.append p [] = .ok t'

theorem HasFile.append_eq (h : t.HasFile l mode old) (hp : t.locate p = .ok l) :
    t.append p bytes = .ok (t.rewrite l mode (old ++ bytes)) := by
  simp only [append, h.readBytes_of_locate hp, h.write_eq hp]

theorem HasFile.appendable (h : t.HasFile l mode old) (hp : t.locate p = .ok l) :
    t.Appendable p :=
  ⟨_, h.append_eq hp⟩

theorem Lacks.appendable (h : t.Lacks p d) : t.Appendable p :=
  ⟨_, h.append_eq⟩

namespace Appendable

theorem cases (h : t.Appendable p) :
    (∃ l mode old, t.locate p = .ok l ∧ t.HasFile l mode old) ∨ ∃ d, t.Lacks p d := by
  obtain ⟨t', h⟩ := h
  obtain ⟨content, hwrite⟩ := exists_write_of_append h
  rcases write_cases hwrite with ⟨l, mode, old, hlocate, hhas, -⟩ | ⟨d, hlacks, -⟩
  · exact Or.inl ⟨l, mode, old, hlocate, hhas⟩
  · exact Or.inr ⟨d, hlacks⟩

theorem rewrite (h : t.Appendable q) (hhas : t.HasFile l mode old) :
    (t.rewrite l mode bytes).Appendable q := by
  rcases h.cases with ⟨k, mode', old', hlocate, hfile⟩ | ⟨d, hlacks⟩
  · have hkept : (t.rewrite l mode bytes).locate q = .ok k := hhas.locate_rewrite.trans hlocate
    by_cases hk : k = l
    · exact hhas.rewrite.appendable (hk ▸ hkept)
    · have hother : (t.rewrite l mode bytes).HasFile k mode' old' := by
        rw [HasFile, hhas.entry?_rewrite, if_neg hk, hfile]
      exact hother.appendable hkept
  · have hstill : (t.rewrite l mode bytes).Lacks q d :=
      lacks_of_locate (hhas.locate_rewrite.trans hlacks.locate_eq)
        (hhas.locate_rewrite.trans hlacks.parent)
    exact hstill.appendable

theorem create (h : t.Appendable q) (hp : t.Lacks p d) :
    (t.create (d ++ [p.name]) bytes).Appendable q := by
  rcases h.cases with ⟨k, mode, old, hlocate, hfile⟩ | ⟨d', hlacks⟩
  · have hkept : (t.create (d ++ [p.name]) bytes).HasFile k mode old :=
      hp.entry?_create_of_some hfile
    exact hkept.appendable (hp.locate_create hlocate)
  · obtain hsame | hstill : (t.create (d ++ [p.name]) bytes).locate q = .ok (d ++ [p.name]) ∨
        (t.create (d ++ [p.name]) bytes).Lacks q d' := hp.create_of_lacks hlacks
    · exact hp.hasFile_create.appendable hsame
    · exact hstill.appendable

/-- Appending succeeds, and whatever could be appended to still can. -/
theorem exists_append (h : t.Appendable p) (bytes : Bytes) :
    ∃ t', t.append p bytes = .ok t' ∧ ∀ q, t.Appendable q → t'.Appendable q := by
  rcases h.cases with ⟨l, mode, old, hlocate, hhas⟩ | ⟨d, hlacks⟩
  · exact ⟨_, hhas.append_eq hlocate, fun q hq => hq.rewrite hhas⟩
  · exact ⟨_, hlacks.append_eq, fun q hq => hq.create hlacks⟩

end Appendable

end NaslLint.FileTree
