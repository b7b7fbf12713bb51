import NaslLint.Proofs.Repair
import NaslLint.Proofs.Statement

/-!
# Whether a repair can fail

A check that has come to its end on a file is asked to repair it. All but one of the checks do so
without failing, whatever the file; the check for separators in prose has nothing prepared for an
include file. A repair also changes the files that later checks look at:

* `FileTree.Serves` relates trees whose files can be read alike;
* `findings_fault_of_serves` says that a check which does not fail in one of them does not fail in
  the other.
-/

namespace NaslLint

open Checks

/-! ## Files that stay readable -/

/-- Paths lead to something in one tree if they do in the other, a file that can be read in one can
be read in the other, and its text keeps a property. -/
structure FileTree.Serves (P : List Char → Prop) (tree tree' : FileTree) : Prop where
  exists_eq : ∀ q, tree'.exists? q = tree.exists? q
  exists_text : ∀ q t, tree.readText q = .ok t → ∃ t', tree'.readText q = .ok t' ∧ (P t → P t')

namespace FileTree

variable {P : List Char → Prop} {tree tree' : FileTree} {l : Location} {mode : Nat}
  {old bytes : Bytes} {q : Path} {t u : List Char}

theorem Serves.refl (P : List Char → Prop) (tree : FileTree) : tree.Serves P tree :=
  ⟨fun _ => rfl, fun _ t h => ⟨t, h, id⟩⟩

theorem Serves.exists_bytes (h : tree.Serves P tree') (hq : tree.readBytes q = .ok bytes) :
    ∃ bytes', tree'.readBytes q = .ok bytes' := by
  obtain ⟨t', ht', -⟩ := h.exists_text q _ (readText_eq_ok_iff.2 ⟨bytes, hq, rfl⟩)
  obtain ⟨bytes', hbytes', -⟩ := readText_eq_ok_iff.1 ht'
  exact ⟨bytes', hbytes'⟩

/-- Rewriting a file with a text that can be stored keeps all files readable. -/
theorem HasFile.serves (h : tree.HasFile l mode old) (hu : Text.Stored u)
    (hP : P (Text.unifyNewlines (Text.ofLatin1 old)) → P u) :
    tree.Serves P (tree.rewrite l mode (Text.toLatin1 u)) := by
  refine ⟨fun q => h.exists?_rewrite, fun q t hq => ?_⟩
  obtain ⟨b, hb, rfl⟩ := readText_eq_ok_iff.1 hq
  by_cases hl : tree.locate q = .ok l
  · obtain rfl : old = b := by
      rw [h.readBytes_of_locate hl] at hb
      exact Except.ok.inj hb
    have hbytes : (tree.rewrite l mode (Text.toLatin1 u)).readBytes q = .ok (Text.toLatin1 u) :=
      h.rewrite.readBytes_of_locate (h.locate_rewrite.trans hl)
    exact ⟨u, readText_eq_ok_iff.2 ⟨_, hbytes, hu.read_write⟩, hP⟩
  · refine ⟨_, readText_eq_ok_iff.2 ⟨b, ?_, rfl⟩, id⟩
    rw [h.readBytes_rewrite_of_ne hl, hb]

/-- The tree as it was, or with a file rewritten by a text with a property. -/
def IsRewritten (tree : FileTree) (l : Location) (mode : Nat) (P : List Char → Prop)
    (tree' : FileTree) : Prop :=
  tree' = tree ∨ ∃ u, Text.Stored u ∧ P u ∧ tree' = tree.rewrite l mode (Text.toLatin1 u)

namespace IsRewritten

theorem mono {Q : List Char → Prop} (h : tree.IsRewritten l mode P tree') (hPQ : ∀ u, P u → Q u) :
    tree.IsRewritten l mode Q tree' :=
  h.imp_right fun ⟨u, hu, hP, heq⟩ => ⟨u, hu, hPQ u hP, heq⟩

theorem serves {Q : List Char → Prop} (hhas : tree.HasFile l mode old)
    (h : tree.IsRewritten l mode
      (fun u => Q (Text.unifyNewlines (Text.ofLatin1 old)) → Q u) tree') : tree.Serves Q tree' := by
  rcases h with rfl | ⟨u, hu, hQ, rfl⟩
  · exact .refl Q tree'
  · exact hhas.serves hu hQ

/-- The file is still there, and rewriting it leads to the same tree as before. -/
theorem exists_hasFile (h : tree.IsRewritten l mode P tree') (hhas : tree.HasFile l mode old) :
    (∃ bytes, tree'.HasFile l mode bytes) ∧ tree'.locate q = tree.locate q ∧
      ∀ bytes, tree'.rewrite l mode bytes = tree.rewrite l mode bytes := by
  rcases h with rfl | ⟨u, -, -, rfl⟩
  · exact ⟨⟨old, hhas⟩, rfl, fun _ => rfl⟩
  · exact ⟨⟨_, hhas.rewrite⟩, hhas.locate_rewrite, rewrite_rewrite tree l mode _⟩

end IsRewritten

end FileTree

/-! ## Checks after a repair -/

theorem Outcome.fault_forEach {α β : Type} {items : List β} {work : β → Outcome α} :
    (Outcome.forEach items work).fault = none ↔ ∀ b ∈ items, (work b).fault = none := by
  induction items with
  | nil => simp [forEach, done]
  | cons b items ih =>
      rw [List.forall_mem_cons, ← ih]
      show (Outcome.andThen (work b) (forEach items work)).fault = none ↔ _
      rw [andThen]
      cases hb : (work b).fault <;> simp [hb]

theorem Outcome.exists_fault_of_forEach {α β : Type} {items : List β} {work : β → Outcome α}
    {fault : Fault} (h : (Outcome.forEach items work).fault = some fault) :
    ∃ item ∈ items, (work item).fault = some fault := by
  induction items with
  | nil => cases h
  | cons item more ih =>
      change (Outcome.andThen (work item) (.forEach more work)).fault = some fault at h
      unfold Outcome.andThen at h
      cases hitem : (work item).fault with
      | some other =>
          simp only [hitem] at h
          exact ⟨item, List.mem_cons_self, hitem.trans h⟩
      | none =>
          simp only [hitem] at h
          obtain ⟨item, hmem, hfault⟩ := ih h
          exact ⟨item, List.mem_cons_of_mem _ hmem, hfault⟩

section
variable {α : Type} {s : Subject}

theorem fault_withText {work work' : List Char → Outcome α}
    (hwork : ∀ t, (work t).fault = none → (work' t).fault = none)
    (h : (s.withText work).fault = none) : (s.withText work').fault = none := by
  rw [Subject.withText] at h ⊢
  cases ht : s.text with
  | ok t =>
      simp only [ht] at h ⊢
      exact hwork t h
  | error f => simp [ht, Outcome.fail] at h

theorem fault_unlessInclude {work work' : Outcome α}
    (hwork : work.fault = none → work'.fault = none)
    (h : (s.unlessInclude work).fault = none) : (s.unlessInclude work').fault = none := by
  rw [Subject.unlessInclude] at h ⊢
  split at h
  next hinclude => rw [if_pos hinclude]; rfl
  next hinclude => rw [if_neg hinclude]; exact hwork h

end

/-- Most checks look at nothing but the text. -/
theorem run_cases {c : FileCheck} (hc : c ∈ fileChecks) :
    c = dependencyPlacement ∨ c = dependencyOrder ∨ c = dependencyUse ∨ c = encoding ∨
      c = newlines ∨ c = filePermissions ∨
      ∀ (s : Subject) (w : Surroundings) (tree : FileTree),
        c.run s { w with tree } = c.run s w := by
  unfold fileChecks at hc
  repeat
    rcases List.mem_cons.1 hc with rfl | hc
    · first
      | exact .inl (by with_reducible rfl)
      | exact .inr (.inl (by with_reducible rfl))
      | exact .inr (.inr (.inl (by with_reducible rfl)))
      | exact .inr (.inr (.inr (.inl (by with_reducible rfl))))
      | exact .inr (.inr (.inr (.inr (.inl (by with_reducible rfl)))))
      | exact .inr (.inr (.inr (.inr (.inr (.inl (by with_reducible rfl))))))
      | exact .inr (.inr (.inr (.inr (.inr (.inr fun _ _ _ => rfl)))))
  cases hc

section
variable {P : List Char → Prop} {tree tree' : FileTree} {root : Path} {dep : String}

theorem dependencyPath?_of_serves (h : tree.Serves P tree') :
    dependencyPath? tree' root dep = dependencyPath? tree root dep := by
  rw [dependencyPath?, dependencyPath?, funext h.exists_eq]

theorem fault_judgeUse (h : tree.Serves P tree') (hno : (judgeUse tree root dep).fault = none) :
    (judgeUse tree' root dep).fault = none := by
  unfold judgeUse at hno ⊢
  rw [dependencyPath?_of_serves h]
  cases hpath : dependencyPath? tree root dep with
  | none => rfl
  | some path =>
      simp only [hpath] at hno ⊢
      cases htext : tree.readText path with
      | error e => simp [htext, Outcome.fail] at hno
      | ok t =>
          obtain ⟨t', ht', -⟩ := h.exists_text path t htext
          simp only [ht']
          split <;> rfl

def HasCategory (t : List Char) : Prop :=
  (category? t).isSome = true

/-- Judging the order fails only at a first dependency without a category. -/
theorem fault_judgeOrder {own : Category} {last last' : Option Category} {deps : List String}
    (h : tree.Serves HasCategory tree') (hlast : last.isSome = true → last'.isSome = true)
    (hno : (judgeOrder tree root own last deps).fault = none) :
    (judgeOrder tree' root own last' deps).fault = none := by
  induction deps generalizing last last' with
  | nil => rfl
  | cons dep more ih =>
      unfold judgeOrder judgeNext at hno ⊢
      rw [dependencyPath?_of_serves h]
      cases hpath : dependencyPath? tree root dep with
      | none =>
          simp only [hpath] at hno ⊢
          exact ih hlast hno
      | some path =>
          simp only [hpath] at hno ⊢
          cases htext : tree.readText path with
          | error e => simp [htext, Outcome.fail] at hno
          | ok t =>
              obtain ⟨t', ht', hcategory⟩ := h.exists_text path t htext
              simp only [htext, ht'] at hno ⊢
              change (category? t).isSome = true → (category? t').isSome = true at hcategory
              cases ht : category? t with
              | some theirs =>
                  have hsome := hcategory (by rw [ht]; rfl)
                  obtain ⟨theirs', hsome⟩ := Option.isSome_iff_exists.1 hsome
                  simp only [ht, hsome] at hno ⊢
                  exact ih (fun _ => rfl) hno
              | none =>
                  -- the category of an earlier dependency stands in for the missing one
                  cases last with
                  | none => simp [ht, Outcome.following, Outcome.fail] at hno
                  | some theirs =>
                      simp only [ht] at hno
                      obtain ⟨latest, rfl⟩ := Option.isSome_iff_exists.1 (hlast rfl)
                      cases category? t' with
                      | none => exact ih hlast hno
                      | some theirs' => exact ih (fun _ => rfl) hno

/-- A check that does not fail goes on not failing as long as files stay readable; the check of the
order also wants scripts to keep their categories. -/
theorem findings_fault_of_serves {c : FileCheck} {s : Subject} {w : Surroundings}
    (hc : c ∈ fileChecks) (h : w.tree.Serves P tree')
    (hcategory : c = dependencyOrder → w.tree.Serves HasCategory tree')
    (hno : (c.findings s w).fault = none) :
    (c.findings s { w with tree := tree' }).fault = none := by
  change (c.run s w).fault = none at hno
  show (c.run s { w with tree := tree' }).fault = none
  rcases run_cases hc with rfl | rfl | rfl | rfl | rfl | rfl | hrun
  · -- Only the existence of dependencies matters for their place.
    have hplace : judgePlace tree' s.root = judgePlace w.tree s.root := by
      funext dep
      unfold judgePlace
      rw [dependencyExists, dependencyExists, funext h.exists_eq]
    simp only [dependencyPlacement, hplace]
    exact hno
  · refine fault_withText (fun t ht => ?_) hno
    split at ht
    next hlists => rw [if_pos hlists]; rfl
    next hlists =>
      rw [if_neg hlists]
      cases hown : category? t with
      | none => rfl
      | some own =>
          simp only [hown] at ht ⊢
          exact fault_judgeOrder (hcategory rfl) id ht
  · refine fault_unlessInclude (fault_withText fun t ht => ?_) hno
    split at ht
    next hskips => rw [if_pos hskips]; rfl
    next hskips =>
      rw [if_neg hskips]
      rw [Outcome.fault_forEach] at ht ⊢
      exact fun dep hdep => fault_judgeUse h (ht dep hdep)
  · refine fault_withText (fun t ht => ?_) hno
    cases hbytes : w.tree.readBytes s.file with
    | error e => simp [hbytes, Outcome.fail] at ht
    | ok bytes =>
        obtain ⟨bytes', hbytes'⟩ := h.exists_bytes hbytes
        simp only [hbytes']
        rfl
  · simp only [newlines] at hno ⊢
    cases hbytes : w.tree.readBytes s.file with
    | error e => simp [hbytes, Outcome.fail] at hno
    | ok bytes =>
        obtain ⟨bytes', hbytes'⟩ := h.exists_bytes hbytes
        simp only [hbytes, hbytes'] at hno ⊢
        exact hno
  · simp only [filePermissions] at hno ⊢
    have hexists := h.exists_eq s.file
    rw [FileTree.exists?, FileTree.exists?] at hexists
    cases hentry : w.tree.at? s.file with
    | none => simp [hentry, Outcome.fail] at hno
    | some e =>
        rw [hentry] at hexists
        obtain ⟨e', he'⟩ := Option.isSome_iff_exists.1 hexists
        simp only [he']
        split <;> rfl
  · rw [hrun]
    exact hno

end

/-! ## What is repaired -/

section
variable {c : FileCheck} {cs : List FileCheck} {s : Subject} {w : Surroundings}

theorem exists_text_of_withText {α : Type} {work : List Char → Outcome α}
    (h : (s.withText work).fault = none) : ∃ t, s.text = .ok t := by
  rw [Subject.withText] at h
  cases ht : s.text with
  | ok t => exact ⟨t, rfl⟩
  | error f => simp [ht, Outcome.fail] at h

/-- A check that repairs and has come to its end has read the file, unless it looks for separators
and the file is an include file. -/
theorem exists_text_of_run (hc : c ∈ fileChecks) (hrun : (c.findings s w).fault = none) :
    (c.repair = fun _ _ => .ok none) ∨ (c = illegalCharacters ∧ s.file.isInclude = true) ∨
      ∃ t, s.text = .ok t := by
  change (c.run s w).fault = none at hrun
  rcases repair_cases hc with rfl | rfl | rfl | hnone
  · exact .inr (.inr (exists_text_of_withText hrun))
  · cases hfile : s.file.isInclude with
    | true => exact .inr (.inl ⟨rfl, rfl⟩)
    | false =>
        change (s.unlessInclude _).fault = none at hrun
        rw [Subject.unlessInclude, if_neg (by simp [hfile])] at hrun
        exact .inr (.inr (exists_text_of_withText hrun))
  · exact .inr (.inr (exists_text_of_withText hrun))
  · exact .inl hnone

theorem repair_illegalCharacters (hfile : s.file.isInclude = true) :
    illegalCharacters.repair s w = .error .nothingPrepared := by
  simp only [illegalCharacters, hfile, if_true]

/-- Nothing is repaired in an include file. -/
theorem repair_of_include (hc : c ∈ fileChecks) (hrun : (c.findings s w).fault = none)
    (hfile : s.file.isInclude = true) (hne : c ≠ illegalCharacters) : c.repair s w = .ok none := by
  rcases exists_text_of_run hc hrun with hnone | ⟨heq, -⟩ | ⟨t, ht⟩
  · rw [hnone]
  · exact absurd heq hne
  · rcases repair_cases hc with rfl | heq | rfl | hnone
    · simp only [copyrightText, ht, hfile]
      rfl
    · exact absurd heq hne
    · simp only [versionAndLastModification, ht, hfile]
      rfl
    · rw [hnone]

/-- Nothing is repaired that cannot be read. -/
theorem repair_of_unread {f : Fault} (hc : c ∈ fileChecks) (hrun : (c.findings s w).fault = none)
    (hfile : s.file.isInclude = false) (htext : s.text = .error f) : c.repair s w = .ok none := by
  rcases exists_text_of_run hc hrun with hnone | ⟨-, hinclude⟩ | ⟨t, ht⟩
  · rw [hnone]
  · simp [hfile] at hinclude
  · simp [htext] at ht

theorem applyRepair_of_none (h : c.repair s w = .ok none) :
    c.applyRepair s w = .ok ([], w.tree) := by
  rw [FileCheck.applyRepair, h]
  rfl

theorem applyRepair_of_error {f : Fault} (h : c.repair s w = .error f) :
    c.applyRepair s w = .error f := by
  rw [FileCheck.applyRepair, h]
  rfl

theorem fault_examine_of_error {f : Fault} (hrun : (c.findings s w).fault = none)
    (h : c.repair s w = .error f) : (c.examine true s w).1.fault? = some f := by
  rw [FileCheck.examine]
  simp only [hrun, Option.isNone_none, Bool.and_self, if_true, applyRepair_of_error h]
  simp [CheckReport.fault?, hrun, Outcome.fail]

/-! ## Whole examinations -/

/-- Without repairs a run comes to its end if all of its checks do. -/
theorem fault_examineUntilFault_false :
    (examineUntilFault false s cs w).2.1 = none ↔ ∀ c ∈ cs, (c.findings s w).fault = none := by
  induction cs with
  | nil => simp [examineUntilFault]
  | cons c cs ih =>
      rw [fault_examineUntilFault_cons, List.forall_mem_cons, ← ih]
      exact Iff.and (by simp [FileCheck.examine, CheckReport.fault?]) Iff.rfl

theorem fault_examineUntilFault_of_none (hruns : ∀ c ∈ cs, (c.findings s w).fault = none)
    (hrepairs : ∀ c ∈ cs, c.repair s w = .ok none) :
    (examineUntilFault true s cs w).2.1 = none := by
  induction cs with
  | nil => rfl
  | cons c cs ih =>
      obtain ⟨hrun, hruns⟩ := List.forall_mem_cons.1 hruns
      obtain ⟨hrepair, hrepairs⟩ := List.forall_mem_cons.1 hrepairs
      rw [fault_examineUntilFault_cons,
        examine_of_applyRepair hrun (applyRepair_of_none hrepair)]
      exact ⟨by simp [CheckReport.fault?, hrun, Outcome.done], ih hruns hrepairs⟩

/-- Of an include file, only the check for separators makes a difference. -/
theorem fault_examineUntilFault_of_include (hcs : ∀ c ∈ cs, c ∈ fileChecks)
    (hruns : ∀ c ∈ cs, (c.findings s w).fault = none) (hfile : s.file.isInclude = true) :
    (examineUntilFault true s cs w).2.1 = none ↔ illegalCharacters ∉ cs := by
  constructor
  · intro hok hmem
    induction cs with
    | nil => cases hmem
    | cons c cs ih =>
        obtain ⟨hc, hcs⟩ := List.forall_mem_cons.1 hcs
        obtain ⟨hrun, hruns⟩ := List.forall_mem_cons.1 hruns
        obtain ⟨hfault, hrest⟩ := fault_examineUntilFault_cons.1 hok
        by_cases heq : c = illegalCharacters
        · subst heq
          rw [fault_examine_of_error hrun (repair_illegalCharacters hfile)] at hfault
          simp at hfault
        · have hnone := applyRepair_of_none (repair_of_include hc hrun hfile heq)
          rw [examine_of_applyRepair hrun hnone] at hrest
          exact ih hcs hruns hrest ((List.mem_cons.1 hmem).resolve_left fun h => heq h.symm)
  · intro hnot
    refine fault_examineUntilFault_of_none hruns fun c hc => ?_
    exact repair_of_include (hcs c hc) (hruns c hc) hfile fun heq => hnot (heq ▸ hc)

/-! ### Scripts -/

def KeepsCategory (c : FileCheck) : Prop :=
  ∀ now t r, c.repairOf now t = some r → HasCategory t → HasCategory r.text

/-- What is repaired before the check of the order leaves categories alone. -/
theorem pairwise_keepsCategory :
    fileChecks.Pairwise fun c c' => c' = dependencyOrder → KeepsCategory c := by
  have hsplit : fileChecks = fileChecks.take 7 ++ dependencyOrder :: fileChecks.drop 8 := rfl
  have hbefore : ∀ c ∈ fileChecks.take 7, c.name ≠ dependencyOrder.name ∧
      c.name ≠ illegalCharacters.name ∧ c.name ≠ versionAndLastModification.name := by
    decide +kernel
  have hafter : ∀ c ∈ fileChecks.drop 8, c.name ≠ dependencyOrder.name := by
    decide +kernel
  -- of the checks before it only one repairs, and that one updates the statement
  have hkeeps : ∀ c ∈ fileChecks.take 7, KeepsCategory c := by
    intro c hc now t r hr
    obtain ⟨-, hillegal, hversion⟩ := hbefore c hc
    rcases repairOf_cases (List.mem_of_mem_take hc) hr with ⟨-, hu⟩ | ⟨rfl, -⟩ | ⟨rfl, -⟩
    · exact isSome_category?_of_updateStatement? hu
    · exact absurd rfl hillegal
    · exact absurd rfl hversion
  rw [hsplit, List.pairwise_append, List.pairwise_cons]
  refine ⟨?_, ⟨?_, ?_⟩, fun c hc _ _ _ => hkeeps c hc⟩
  · exact List.pairwise_of_forall_mem_list fun c hc _ _ _ => hkeeps c hc
  · rintro c hc rfl
    exact absurd rfl (hafter _ hc)
  · refine List.pairwise_of_forall_mem_list fun _ _ c hc heq => ?_
    exact absurd (congrArg FileCheck.name heq) (hafter c hc)

/-- **A script is repaired without a fault.** Its checks look at a file that has been rewritten by
those before them, which keeps it readable. -/
theorem fault_examineUntilFault_of_script {t : List Char} {l : Location} {mode : Nat}
    {bytes : Bytes} {tree : FileTree} (hcs : ∀ c ∈ cs, c ∈ fileChecks)
    (hpair : cs.Pairwise fun c c' => c' = dependencyOrder → KeepsCategory c)
    (hfile : s.file.isInclude = false) (htext : s.text = .ok t)
    (ht : t = Text.unifyNewlines (Text.ofLatin1 bytes))
    (hlocate : w.tree.locate s.file = .ok l) (hhas : w.tree.HasFile l mode bytes)
    (hruns : ∀ c ∈ cs, (c.findings s w).fault = none)
    (htree : w.tree.IsRewritten l mode
      (fun u => dependencyOrder ∈ cs → HasCategory t → HasCategory u) tree) :
    (examineUntilFault true s cs { w with tree }).2.1 = none := by
  subst ht
  -- the runs are known to end on the tree of the start, so each is carried over to the current one
  induction cs generalizing tree with
  | nil => rfl
  | cons c cs ih =>
      obtain ⟨hc, hcs⟩ := List.forall_mem_cons.1 hcs
      obtain ⟨hkeeps, hpair⟩ := List.pairwise_cons.1 hpair
      obtain ⟨hrun, hruns⟩ := List.forall_mem_cons.1 hruns
      have hserves : w.tree.Serves (fun _ => True) tree :=
        (htree.mono fun _ _ _ => trivial).serves hhas
      have hcategory : c = dependencyOrder → w.tree.Serves HasCategory tree := fun heq =>
        (htree.mono fun _ hu => hu (heq ▸ List.mem_cons_self)).serves hhas
      have hrun' := findings_fault_of_serves hc hserves hcategory hrun
      obtain ⟨⟨bytes', hhas'⟩, hlocate', hrewrite⟩ := htree.exists_hasFile hhas
      have hexamine := examine_eq (w := { w with tree }) hc hfile htext
        (hlocate'.trans hlocate) hhas' hrun'
      rw [fault_examineUntilFault_cons, hexamine]
      refine ⟨by simp [CheckReport.fault?, hrun', Outcome.done], ih hcs hpair hruns ?_⟩
      cases hr : c.repairOf w.now (Text.unifyNewlines (Text.ofLatin1 bytes)) with
      | none => exact htree.mono fun _ hu hmem => hu (List.mem_cons_of_mem _ hmem)
      | some r =>
          refine .inr ⟨r.text, stored_repairOf hc (Text.stored_read bytes) hr, ?_, hrewrite _⟩
          exact fun hmem => hkeeps _ hmem rfl w.now _ r hr

end

/-! ## Repairs after runs -/

section
variable {c : FileCheck} {cs : List FileCheck} {w : Surroundings} {root file : Path}

theorem text_ofTree_of_error {e : AccessError} (h : w.tree.readText file = .error e) :
    (Subject.ofTree w.tree root file).text = .error (.access e) := by
  rw [Subject.ofTree, h]
  rfl

/-- What a check writes can be stored. -/
theorem stored_of_repair {r : Repair} (hc : c ∈ fileChecks)
    (hrun : (c.findings (.ofTree w.tree root file) w).fault = none)
    (h : c.repair (.ofTree w.tree root file) w = .ok (some r)) : Text.Stored r.text := by
  cases hfile : file.isInclude with
  | true =>
      have hne : c ≠ illegalCharacters := by
        rintro rfl
        rw [repair_illegalCharacters (s := .ofTree w.tree root file) hfile] at h
        cases h
      rw [repair_of_include hc hrun hfile hne] at h
      cases h
  | false =>
      cases hread : w.tree.readText file with
      | error e =>
          obtain ⟨t, ht⟩ := exists_text_of_repair hc h
          rw [text_ofTree_of_error hread] at ht
          cases ht
      | ok t =>
          obtain ⟨l, mode, bytes, -, -, rfl⟩ := FileTree.exists_hasFile_of_readText hread
          rw [repair_eq_of_text (s := .ofTree w.tree root file) hc hfile (text_ofTree hread)] at h
          exact stored_repairOf hc (Text.stored_read bytes) (Except.ok.inj h)

theorem exists_applyRepair_iff (hc : c ∈ fileChecks)
    (hrun : (c.findings (.ofTree w.tree root file) w).fault = none) :
    (∃ done, c.applyRepair (.ofTree w.tree root file) w = .ok done) ↔
      ¬ (c = illegalCharacters ∧ file.isInclude = true) := by
  cases hfile : file.isInclude with
  | true =>
      by_cases heq : c = illegalCharacters
      · subst heq
        have herror := repair_illegalCharacters (s := .ofTree w.tree root file) (w := w) hfile
        simp [applyRepair_of_error herror]
      · have hnone := repair_of_include hc hrun hfile heq
        simp [applyRepair_of_none hnone, heq]
  | false =>
      refine iff_of_true ?_ (by simp)
      cases hread : w.tree.readText file with
      | error e =>
          have hnone := repair_of_unread hc hrun hfile (text_ofTree_of_error hread)
          exact ⟨_, applyRepair_of_none hnone⟩
      | ok t =>
          obtain ⟨l, mode, bytes, hlocate, hhas, -⟩ := FileTree.exists_hasFile_of_readText hread
          exact ⟨_, applyRepair_eq (s := .ofTree w.tree root file) hc hfile (text_ofTree hread)
            hlocate hhas⟩

theorem fault_examineUntilFault_iff (hcs : cs.Sublist fileChecks)
    (hok : (examineUntilFault false (.ofTree w.tree root file) cs w).2.1 = none) :
    (examineUntilFault true (.ofTree w.tree root file) cs w).2.1 = none ↔
      ¬ (illegalCharacters ∈ cs ∧ file.isInclude = true) := by
  have hruns := fault_examineUntilFault_false.1 hok
  cases hfile : file.isInclude with
  | true =>
      rw [fault_examineUntilFault_of_include hcs.subset hruns hfile]
      simp
  | false =>
      refine iff_of_true ?_ (by simp)
      cases hread : w.tree.readText file with
      | error e =>
          refine fault_examineUntilFault_of_none hruns fun c hc => ?_
          exact repair_of_unread (hcs.subset hc) (hruns c hc) hfile (text_ofTree_of_error hread)
      | ok t =>
          obtain ⟨l, mode, bytes, hlocate, hhas, ht⟩ := FileTree.exists_hasFile_of_readText hread
          exact fault_examineUntilFault_of_script (s := .ofTree w.tree root file) hcs.subset
            (pairwise_keepsCategory.sublist hcs) hfile (text_ofTree hread) ht hlocate hhas hruns
            (.inl rfl)

end

/-- **Repairs after runs.** A check that has come to its end on a file repairs it without failing,
and with a text that can be stored, unless it is the check for separators and the file is an include
file. So a run with repairs comes to its end wherever a run without them does, but for that check
and that kind of file. -/
theorem repairs_come_to_end (w : Surroundings) (root file : Path) :
    (∀ c ∈ fileChecks, (c.findings (.ofTree w.tree root file) w).fault = none →
      ((∃ done, c.applyRepair (.ofTree w.tree root file) w = .ok done) ↔
        ¬ (c = illegalCharacters ∧ file.isInclude = true)) ∧
      ∀ r, c.repair (.ofTree w.tree root file) w = .ok (some r) → Text.Stored r.text) ∧
    ∀ cs : List FileCheck, cs.Sublist fileChecks →
      (examineUntilFault false (.ofTree w.tree root file) cs w).2.1 = none →
      ((examineUntilFault true (.ofTree w.tree root file) cs w).2.1 = none ↔
        ¬ (illegalCharacters ∈ cs ∧ file.isInclude = true)) :=
  ⟨fun _ hc hrun => ⟨exists_applyRepair_iff hc hrun, fun _ => stored_of_repair hc hrun⟩,
    fun _ hcs hok => fault_examineUntilFault_iff hcs hok⟩

/-- A script with an outdated statement that depends on itself: the check of the order reads the
file that has just been repaired, and comes to its end. -/
theorem repairs_come_to_end_of_self_dependency :
    let text := "# Text descriptions are largely excerpted from the referenced\n".toList ++
      "# advisory, and are Copyright (c) the respective author(s)\n".toList ++
      "script_category(ACT_INIT);\n".toList ++ "script_dependencies(\"a.nasl\");\n".toList
    let w : Surroundings :=
      { tree := { entries := [(["a.nasl"], .file 0o644 (Text.toLatin1 text))] }, now := default }
    (examineUntilFault true (.ofTree w.tree ⟨"/", []⟩ ⟨"/", ["a.nasl"]⟩)
      [copyrightText, dependencyOrder, illegalCharacters] w).2.1 = none := by
  intro text w
  have hcs : [copyrightText, dependencyOrder, illegalCharacters].Sublist fileChecks := by
    unfold fileChecks
    repeat
      first
      | exact List.nil_sublist _
      | with_reducible apply List.Sublist.cons_cons
      | with_reducible apply List.Sublist.cons
  refine ((repairs_come_to_end w ⟨"/", []⟩ ⟨"/", ["a.nasl"]⟩).2 _ hcs ?_).2
    fun h => absurd h.2 (by decide)
  decide +kernel

/-- An include file on which the check for separators fails only when it is asked to repair. -/
theorem nothingPrepared_of_include :
    let file : Path := ⟨"/", ["a.inc"]⟩
    let w : Surroundings := { tree := { entries := [(["a.inc"], .file 0o644 [])] }, now := default }
    illegalCharacters ∈ fileChecks ∧
      (illegalCharacters.findings (.ofTree w.tree ⟨"/", []⟩ file) w).fault = none ∧
      (examineUntilFault false (.ofTree w.tree ⟨"/", []⟩ file) [illegalCharacters] w).2.1 = none ∧
      (examineUntilFault true (.ofTree w.tree ⟨"/", []⟩ file) [illegalCharacters] w).2.1 =
        some .nothingPrepared := by
  refine ⟨?_, by decide +kernel, by decide +kernel, by decide +kernel⟩
  simp [fileChecks]

end NaslLint
