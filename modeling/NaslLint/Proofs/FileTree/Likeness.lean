import NaslLint.Proofs.FileTree.Appending

/-!
# Trees that differ in one file

Two trees may be the same but for the bytes of one file, such as a log. Whatever does not read that
file cannot tell them apart, and the same writes keep them so.

* `FileTree.SameBut` relates two such trees.
* `SameBut.write` and `SameBut.append` say that writing leads from one such pair to another; to the
  file that may differ, different bytes can be written.
-/

namespace NaslLint.FileTree

variable {loose : Option Path} {t t' : FileTree} {p : Path} {d l : Location} {mode : Nat}
  {old old' bytes bytes' : Bytes}

/-- The file that may differ, if there is one, stands at a location. -/
def Lies (t : FileTree) (loose : Option Path) (l : Location) : Prop :=
  ∃ p ∈ loose, t.locate p = .ok l

/-- A path that does not lead to the file that may differ. -/
def Avoids (t : FileTree) (loose : Option Path) (p : Path) : Prop :=
  ∀ l, t.Lies loose l → t.locate p ≠ .ok l

theorem avoids_none (t : FileTree) (p : Path) : t.Avoids none p := by
  rintro l ⟨q, hq, -⟩
  cases hq

/-- Trees that are the same but for the bytes of one file. -/
structure SameBut (loose : Option Path) (t t' : FileTree) : Prop where
  here : t'.here = t.here
  entry (l : Location) : t'.entry? l = t.entry? l ∨ t.Lies loose l ∧ ∃ mode bytes bytes',
    t.entry? l = some (.file mode bytes) ∧ t'.entry? l = some (.file mode bytes')

namespace SameBut

theorem refl (loose : Option Path) (t : FileTree) : SameBut loose t t :=
  ⟨rfl, fun _ => Or.inl rfl⟩

/-- Without such a file, there is no difference. -/
theorem entry_eq (h : SameBut none t t') (l : Location) : t'.entry? l = t.entry? l := by
  rcases h.entry l with hentry | ⟨⟨q, hq, -⟩, -⟩
  · exact hentry
  · cases hq

theorem weaken (h : SameBut none t t') (loose : Option Path) : SameBut loose t t' :=
  ⟨h.here, fun l => Or.inl (h.entry_eq l)⟩

/-! ## What cannot be told apart -/

/-- Whatever does not depend on bytes is the same of every entry. -/
theorem map_entry? {α : Type} {f : Entry → α} (h : SameBut loose t t')
    (hf : ∀ mode bytes bytes', f (.file mode bytes) = f (.file mode bytes')) :
    (t'.entry? l).map f = (t.entry? l).map f := by
  rcases h.entry l with hentry | ⟨-, mode, bytes, bytes', hentry, hentry'⟩
  · rw [hentry]
  · rw [hentry, hentry', Option.map_some, Option.map_some, hf]

theorem isSome_entry? (h : SameBut loose t t') : (t'.entry? l).isSome = (t.entry? l).isSome := by
  rw [← Option.isSome_map (f := Entry.isDirectory), h.map_entry? fun _ _ _ => rfl,
    Option.isSome_map]

theorem hasDirectory_eq (h : SameBut loose t t') : t'.hasDirectory l = t.hasDirectory l := by
  have hany (entry : Option Entry) :
      entry.any Entry.isDirectory = (entry.map Entry.isDirectory).getD false := by
    cases entry <;> rfl
  rw [hasDirectory, hasDirectory, hany, hany, h.map_entry? fun _ _ _ => rfl]

theorem follow_eq (h : SameBut loose t t') (here : Location) (names : List String) :
    t'.follow here names = t.follow here names := by
  induction names generalizing here with
  | nil => rfl
  | cons n more ih =>
      rw [follow, follow]
      simp only [h.hasDirectory_eq, h.isSome_entry?, ih]

theorem locate_eq (h : SameBut loose t t') : t'.locate p = t.locate p := by
  rw [locate, locate, h.here, h.follow_eq]

theorem at?_map {α : Type} {f : Entry → α} (h : SameBut loose t t')
    (hf : ∀ mode bytes bytes', f (.file mode bytes) = f (.file mode bytes')) :
    (t'.at? p).map f = (t.at? p).map f := by
  rw [at?, at?, h.locate_eq]
  cases t.locate p with
  | error e => rfl
  | ok l => exact h.map_entry? hf

theorem exists?_eq (h : SameBut loose t t') : t'.exists? p = t.exists? p := by
  rw [exists?, exists?, ← Option.isSome_map (f := Entry.isDirectory), h.at?_map fun _ _ _ => rfl,
    Option.isSome_map]

/-- A file has the same bytes in both trees, unless it is the one that may differ. -/
theorem readBytes_cases (h : SameBut loose t t') (p : Path) :
    t'.readBytes p = t.readBytes p ∨ ∃ l bytes bytes', t.locate p = .ok l ∧ t.Lies loose l ∧
      t.readBytes p = .ok bytes ∧ t'.readBytes p = .ok bytes' := by
  rw [readBytes_eq_bind, readBytes_eq_bind, h.locate_eq]
  cases t.locate p with
  | error e => exact Or.inl rfl
  | ok l =>
      change contents (t'.entry? l) = contents (t.entry? l) ∨ ∃ k bytes bytes', Except.ok l = .ok k ∧
        t.Lies loose k ∧ contents (t.entry? l) = .ok bytes ∧ contents (t'.entry? l) = .ok bytes'
      rcases h.entry l with hentry | ⟨hlies, mode, bytes, bytes', hentry, hentry'⟩
      · exact Or.inl (by rw [hentry])
      · exact Or.inr ⟨l, bytes, bytes', rfl, hlies, by rw [hentry, contents],
          by rw [hentry', contents]⟩

theorem readBytes_eq (h : SameBut loose t t') (hp : t.Avoids loose p) :
    t'.readBytes p = t.readBytes p := by
  rcases h.readBytes_cases p with hbytes | ⟨l, -, -, hlocate, hlies, -⟩
  · exact hbytes
  · exact absurd hlocate (hp l hlies)

theorem readText_eq (h : SameBut loose t t') (hp : t.Avoids loose p) :
    t'.readText p = t.readText p := by
  rw [readText, readText, h.readBytes_eq hp]

/-! ## What keeps the likeness -/

theorem rewrite (h : SameBut loose t t') (hhas : t.HasFile l mode old)
    (hhas' : t'.HasFile l mode old') (hbytes : bytes = bytes' ∨ t.Lies loose l) :
    SameBut loose (t.rewrite l mode bytes) (t'.rewrite l mode bytes') := by
  have hlies {k : Location} (hk : t.Lies loose k) : (t.rewrite l mode bytes).Lies loose k := by
    obtain ⟨q, hq, hlocate⟩ := hk
    exact ⟨q, hq, hhas.locate_rewrite.trans hlocate⟩
  refine ⟨h.here, fun k => ?_⟩
  rw [hhas.entry?_rewrite, hhas'.entry?_rewrite]
  by_cases hk : k = l
  · rw [if_pos hk, if_pos hk]
    rcases hbytes with rfl | hl
    · exact Or.inl rfl
    · exact Or.inr ⟨hlies (hk ▸ hl), mode, bytes, bytes', rfl, rfl⟩
  · rw [if_neg hk, if_neg hk]
    exact (h.entry k).imp_right fun ⟨hl, hfiles⟩ => ⟨hlies hl, hfiles⟩

theorem create (h : SameBut loose t t') (hlacks : t.Lacks p d) (hlacks' : t'.Lacks p d)
    (hbytes : bytes = bytes' ∨ p ∈ loose) :
    SameBut loose (t.create (d ++ [p.name]) bytes) (t'.create (d ++ [p.name]) bytes') := by
  refine ⟨h.here, fun k => ?_⟩
  rw [hlacks.entry?_create, hlacks'.entry?_create]
  by_cases hk : k = d ++ [p.name]
  · rw [if_pos hk, if_pos hk]
    rcases hbytes with rfl | hp
    · exact Or.inl rfl
    · refine Or.inr ⟨⟨p, hp, ?_⟩, _, bytes, bytes', rfl, rfl⟩
      rw [hk]
      exact (hlacks.create_of_lacks hlacks).resolve_right fun hstill => by
        have hentry := hstill.entry
        rw [hlacks.entry?_create, if_pos rfl] at hentry
        cases hentry
  · rw [if_neg hk, if_neg hk]
    exact (h.entry k).imp_right fun ⟨⟨q, hq, hlocate⟩, hfiles⟩ =>
      ⟨⟨q, hq, hlacks.locate_create hlocate⟩, hfiles⟩

end SameBut

/-- Two accesses that fail alike, or lead to trees that are the same but for one file. -/
inductive SameAccess (loose : Option Path) :
    Except AccessError FileTree → Except AccessError FileTree → Prop
  | error (e : AccessError) : SameAccess loose (.error e) (.error e)
  | ok {u u' : FileTree} (h : SameBut loose u u') : SameAccess loose (.ok u) (.ok u')

namespace SameBut

theorem write (h : SameBut loose t t')
    (hbytes : bytes = bytes' ∨ p ∈ loose ∨ ∃ l, t.locate p = .ok l ∧ t.Lies loose l) :
    SameAccess loose (t.write p bytes) (t'.write p bytes') := by
  cases hlocate : t.locate p with
  | ok l =>
      have hlocate' : t'.locate p = .ok l := h.locate_eq.trans hlocate
      have hlies : bytes = bytes' ∨ t.Lies loose l := by
        rcases hbytes with hbytes | hp | ⟨k, hk, hlies⟩
        · exact Or.inl hbytes
        · exact Or.inr ⟨p, hp, hlocate⟩
        · cases hlocate.symm.trans hk
          exact Or.inr hlies
      have hfiles {mode : Nat} {old old' : Bytes} (hhas : t.HasFile l mode old)
          (hhas' : t'.HasFile l mode old') :
          SameAccess loose (t.write p bytes) (t'.write p bytes') := by
        rw [hhas.write_eq hlocate, hhas'.write_eq hlocate']
        exact .ok (h.rewrite hhas hhas' hlies)
      rcases h.entry l with hentry | ⟨-, mode, old, old', hhas, hhas'⟩
      · cases hold : t.entry? l with
        | none =>
            simp only [FileTree.write, hlocate, hlocate', hentry, hold]
            exact .error _
        | some e =>
            cases e with
            | directory mode =>
                simp only [FileTree.write, hlocate, hlocate', hentry, hold]
                exact .error _
            | file mode old => exact hfiles hold (hentry.trans hold)
      · exact hfiles hhas hhas'
  | error e =>
      have hlocate' : t'.locate p = .error e := h.locate_eq.trans hlocate
      cases e with
      | missing =>
          cases hparent : t.locate p.parent with
          | error e =>
              have hparent' : t'.locate p.parent = .error e := h.locate_eq.trans hparent
              simp only [FileTree.write, hlocate, hlocate', hparent, hparent']
              exact .error _
          | ok d =>
              have hlacks := lacks_of_locate hlocate hparent
              have hlacks' := lacks_of_locate hlocate' (h.locate_eq.trans hparent)
              have hloose : bytes = bytes' ∨ p ∈ loose := by
                rcases hbytes with hbytes | hp | ⟨k, hk, -⟩
                · exact Or.inl hbytes
                · exact Or.inr hp
                · cases hlocate.symm.trans hk
              rw [hlacks.write_eq, hlacks'.write_eq]
              exact .ok (h.create hlacks hlacks' hloose)
      | isDirectory | notDirectory | notUtf8 =>
          simp only [FileTree.write, hlocate, hlocate']
          exact .error _

/-- To the file that may differ, different bytes can be appended. -/
theorem append (h : SameBut loose t t') (hbytes : bytes = bytes' ∨ p ∈ loose) :
    SameAccess loose (t.append p bytes) (t'.append p bytes') := by
  unfold FileTree.append
  rcases h.readBytes_cases p with hread | ⟨l, old, old', hlocate, hlies, hold, hold'⟩
  · rw [hread]
    cases t.readBytes p with
    | ok old =>
        exact h.write (hbytes.imp (fun hbytes => by rw [hbytes]) Or.inl)
    | error e =>
        cases e with
        | missing => exact h.write (hbytes.imp_right Or.inl)
        | isDirectory | notDirectory | notUtf8 => exact .error _
  · rw [hold, hold']
    exact h.write (Or.inr (Or.inr ⟨l, hlocate, hlies⟩))

end SameBut

end NaslLint.FileTree
