import NaslLint.Proofs.RepairSafety
import NaslLint.Proofs.Results
import NaslLint.Proofs.SharedReading
import NaslLint.Proofs.UpdatedScript

/-!
# Files that are read again

Checks of a file share one reading of its text, but six of them also read files of the tree, among
them perhaps the one that has been repaired in the meantime.

* `run_after_repairs` says that for four of them this makes no difference: repairs leave files where
  they are, with their permissions, and an update of the statement leaves what other scripts look
  for.
* `kept_newlines_iff` and `kept_encoding_iff` are about the other two, which look at bytes: line
  ends are unified by a repair, and another encoding may be detected.
-/

namespace NaslLint

open Checks

/-! ## Trees after repairs -/

section
variable {P : List Char → Prop} {rs : List Repair} {tree tree' : FileTree} {l : Location}
  {mode : Nat} {bytes : Bytes} {root q : Path}

theorem isRewritten_lastTree (hrs : ∀ r ∈ rs, Text.Stored r.text ∧ P r.text) :
    tree.IsRewritten l mode P (lastTree rs tree l mode) := by
  rw [lastTree]
  cases hlast : rs.getLast? with
  | none => exact .inl rfl
  | some r =>
      obtain ⟨hstored, hP⟩ := hrs r (List.mem_of_getLast? hlast)
      exact .inr ⟨r.text, hstored, hP, rfl⟩

theorem hasFile_lastTree (hhas : tree.HasFile l mode bytes) :
    (lastTree rs tree l mode).HasFile l mode (lastBytes rs bytes) := by
  rw [lastTree, lastBytes]
  cases rs.getLast? with
  | none => exact hhas
  | some r => exact hhas.rewrite

theorem locate_lastTree (hhas : tree.HasFile l mode bytes) :
    (lastTree rs tree l mode).locate q = tree.locate q := by
  rw [lastTree]
  cases rs.getLast? with
  | none => rfl
  | some r => exact hhas.locate_rewrite

theorem map_at?_lastTree {α : Type} {f : Entry → α} (hhas : tree.HasFile l mode bytes)
    (hf : ∀ bytes bytes', f (.file mode bytes) = f (.file mode bytes')) :
    ((lastTree rs tree l mode).at? q).map f = (tree.at? q).map f := by
  rw [lastTree]
  cases rs.getLast? with
  | none => rfl
  | some r => exact hhas.map_at?_rewrite (hf _ _)

/-- One more repair. -/
theorem lastTree_concat (repair : Option Repair) :
    lastTree (rs ++ repair.toList) tree l mode =
      (repair.map fun r => (lastTree rs tree l mode).rewrite l mode (Text.toLatin1 r.text)).getD
        (lastTree rs tree l mode) := by
  cases repair with
  | none =>
      rw [Option.toList_none, List.append_nil]
      rfl
  | some r =>
      rw [Option.toList_some, lastTree, List.getLast?_concat, lastTree]
      cases rs.getLast? with
      | none => rfl
      | some r' => exact (FileTree.rewrite_rewrite tree l mode _ _).symm

/-- Repairs leave the bytes, or those of one of them. -/
theorem lastBytes_cases (rs : List Repair) (bytes : Bytes) :
    rs = [] ∧ lastBytes rs bytes = bytes ∨
      ∃ r ∈ rs, lastBytes rs bytes = Text.toLatin1 r.text := by
  rw [lastBytes]
  cases hlast : rs.getLast? with
  | none => exact .inl ⟨List.getLast?_eq_none_iff.1 hlast, rfl⟩
  | some r => exact .inr ⟨r, List.mem_of_getLast? hlast, rfl⟩

/-! ## Checks that read files again -/

theorem FileTree.Serves.exists_text_eq {α : Type} {f : List Char → α} {t : List Char}
    (h : ∀ v, tree.Serves (fun x => f x = v) tree') (hq : tree.readText q = .ok t) :
    ∃ t', tree'.readText q = .ok t' ∧ f t' = f t := by
  obtain ⟨t', ht', hv⟩ := (h (f t)).exists_text q t hq
  exact ⟨t', ht', hv rfl⟩

theorem judgePlace_of_serves (h : tree.Serves P tree') :
    judgePlace tree' root = judgePlace tree root := by
  funext dep
  unfold judgePlace
  rw [dependencyExists, dependencyExists, funext h.exists_eq]

theorem judgeUse_of_serves {dep : String}
    (h : ∀ v, tree.Serves (fun t => deprecationMark.occursIn t = v) tree')
    (hno : (judgeUse tree root dep).fault = none) :
    judgeUse tree' root dep = judgeUse tree root dep := by
  unfold judgeUse at hno ⊢
  rw [dependencyPath?_of_serves (h true)]
  cases hpath : dependencyPath? tree root dep with
  | none => rfl
  | some path =>
      simp only [hpath] at hno ⊢
      cases htext : tree.readText path with
      | error e => simp [htext, Outcome.fail] at hno
      | ok t =>
          obtain ⟨t', ht', heq⟩ := FileTree.Serves.exists_text_eq h htext
          simp only [ht', heq]

theorem judgeOrder_of_serves {own : Category} {last : Option Category} {deps : List String}
    (h : ∀ v, tree.Serves (fun t => category? t = v) tree')
    (hno : (judgeOrder tree root own last deps).fault = none) :
    judgeOrder tree' root own last deps = judgeOrder tree root own last deps := by
  induction deps generalizing last with
  | nil => rfl
  | cons dep more ih =>
      unfold judgeOrder judgeNext at hno ⊢
      rw [dependencyPath?_of_serves (h none)]
      cases hpath : dependencyPath? tree root dep with
      | none =>
          simp only [hpath] at hno ⊢
          rw [ih hno]
      | some path =>
          simp only [hpath] at hno ⊢
          cases htext : tree.readText path with
          | error e => simp [htext, Outcome.fail] at hno
          | ok t =>
              obtain ⟨t', ht', heq⟩ := FileTree.Serves.exists_text_eq h htext
              simp only [htext, ht', heq] at hno ⊢
              split
              next hown => simp only [hown] at hno; rw [ih hno]
              next hown => simp only [hown] at hno; rw [ih hno]
              next => rfl

theorem Outcome.forEach_congr {α β : Type} {items : List β} {work work' : β → Outcome α}
    (h : ∀ b ∈ items, work' b = work b) : forEach items work' = forEach items work := by
  induction items with
  | nil => rfl
  | cons b items ih =>
      obtain ⟨hb, hitems⟩ := List.forall_mem_cons.1 h
      show Outcome.andThen (work' b) (forEach items work') = _
      rw [hb, ih hitems]
      rfl

end

section
variable {c : FileCheck} {rs : List Repair} {s : Subject} {w : Surroundings} {l : Location}
  {mode : Nat} {bytes : Bytes}

theorem withText_congr {α : Type} {work work' : List Char → Outcome α}
    (hwork : ∀ t, (work t).fault = none → work' t = work t)
    (hno : (s.withText work).fault = none) : s.withText work' = s.withText work := by
  rw [Subject.withText] at hno ⊢
  rw [Subject.withText]
  cases ht : s.text with
  | ok t =>
      simp only [ht] at hno ⊢
      exact hwork t hno
  | error f => rfl

theorem unlessInclude_congr {α : Type} {work work' : Outcome α}
    (hwork : work.fault = none → work' = work) (hno : (s.unlessInclude work).fault = none) :
    s.unlessInclude work' = s.unlessInclude work := by
  rw [Subject.unlessInclude] at hno ⊢
  rw [Subject.unlessInclude]
  split at hno
  next hinclude => rw [if_pos hinclude, if_pos hinclude]
  next hinclude => rw [if_neg hinclude, if_neg hinclude, hwork hno]

/-- Permissions are told by letters. -/
theorem run_filePermissions_congr {tree tree' : FileTree}
    (h : (tree'.at? s.file).map modeLetters = (tree.at? s.file).map modeLetters) :
    filePermissions.run s { w with tree := tree' } = filePermissions.run s { w with tree } := by
  simp only [filePermissions]
  cases hentry : tree.at? s.file with
  | none =>
      rw [hentry, Option.map_none, Option.map_eq_none_iff] at h
      rw [h]
  | some e =>
      rw [hentry, Option.map_some, Option.map_eq_some_iff] at h
      obtain ⟨e', he', hletters⟩ := h
      simp only [he', hletters]

/-- **Most checks see no repair.** Repairs keep files where they are and with their permissions; and
an update of the statement keeps what other scripts look for. -/
theorem run_after_repairs (hc : c ∈ fileChecks) (hnewlines : c ≠ newlines)
    (hencoding : c ≠ encoding) (hhas : w.tree.HasFile l mode bytes)
    (hrs : ∀ r ∈ rs, Text.Stored r.text)
    (hupdates : c = dependencyOrder ∨ c = dependencyUse → ∀ r ∈ rs,
      updateStatement? (Text.unifyNewlines (Text.ofLatin1 bytes)) = some r.text)
    (hno : (c.run s w).fault = none) :
    c.run s { w with tree := lastTree rs w.tree l mode } = c.run s w := by
  have hserves : w.tree.Serves (fun _ => True) (lastTree rs w.tree l mode) :=
    (isRewritten_lastTree fun r hr => ⟨hrs r hr, fun _ => trivial⟩).serves hhas
  -- what an update keeps is the same of all files
  have hkeeps {α : Type} {f : List Char → α}
      (hf : ∀ t u, updateStatement? t = some u → f u = f t)
      (hdep : c = dependencyOrder ∨ c = dependencyUse) (v : α) :
      w.tree.Serves (fun t => f t = v) (lastTree rs w.tree l mode) :=
    (isRewritten_lastTree fun r hr =>
      ⟨hrs r hr, fun hv => (hf _ _ (hupdates hdep r hr)).trans hv⟩).serves hhas
  rcases run_cases hc with rfl | rfl | rfl | rfl | rfl | rfl | hrun
  · simp only [dependencyPlacement, judgePlace_of_serves hserves]
  · refine withText_congr (fun t ht => ?_) hno
    split at ht
    next hlists => rw [if_pos hlists, if_pos hlists]
    next hlists =>
      rw [if_neg hlists, if_neg hlists]
      cases hown : category? t with
      | none => rfl
      | some own =>
          simp only [hown] at ht ⊢
          exact judgeOrder_of_serves
            (hkeeps (fun _ _ => category?_of_updateStatement?) (.inl rfl)) ht
  · refine unlessInclude_congr (withText_congr fun t ht => ?_) hno
    split at ht
    next hskips => rw [if_pos hskips, if_pos hskips]
    next hskips =>
      rw [if_neg hskips, if_neg hskips]
      rw [Outcome.fault_forEach] at ht
      refine Outcome.forEach_congr fun dep hdep => judgeUse_of_serves ?_ (ht dep hdep)
      exact hkeeps (fun _ _ => occursIn_deprecationMark_of_updateStatement?) (.inr rfl)
  · exact absurd rfl hencoding
  · exact absurd rfl hnewlines
  · exact run_filePermissions_congr (map_at?_lastTree hhas fun _ _ => rfl)
  · exact hrun s w _

end

/-! ## Line ends and encoding -/

section
variable {rs : List Repair} {t : List Char} {bytes : Bytes}

theorem not_mem_toLatin1 (ht : Text.Stored t) : 13 ∉ Text.toLatin1 t := by
  intro hmem
  obtain ⟨c, hc, heq⟩ := List.mem_map.1 hmem
  obtain ⟨hlt, hne⟩ := ht c hc
  have hnat : c.toNat = 13 := by
    rw [← UInt8.toNat_ofNat_of_lt' hlt, heq]
    rfl
  refine hne ?_
  rw [← Char.ofNat_toNat c, hnat]

/-- A file that has been repaired has no foreign line ends. -/
theorem mem_lastBytes_iff (hrs : ∀ r ∈ rs, Text.Stored r.text) :
    (13 ∈ lastBytes rs bytes ↔ 13 ∈ bytes) ↔ (13 ∈ bytes → rs = []) := by
  rcases lastBytes_cases rs bytes with ⟨hnone, hbytes⟩ | ⟨r, hr, hbytes⟩
  · exact iff_of_true (by rw [hbytes]) fun _ => hnone
  · have hsome : rs ≠ [] := List.ne_nil_of_mem hr
    simp [hbytes, not_mem_toLatin1 (hrs r hr), hsome]

end

def refusedEncoding? (detected : Option String) : Option String :=
  detected.filter fun e => e != "" && !allowedEncodings.contains e

def wrongEncoding (e : String) : Remark :=
  .error s!"VT uses a wrong encoding. Detected encoding is {e}."

theorem wrongEncoding_injective : Function.Injective wrongEncoding := by
  intro e e' h
  have hmessage := congrArg (·.message.toList) h
  simp only [wrongEncoding, Remark.error, toString, String.toList_append,
    List.append_cancel_right_eq, List.append_cancel_left_eq] at hmessage
  exact String.toList_inj.1 hmessage

theorem encodingRemarks_eq (detected : Option String) (t : List Char) :
    encodingRemarks detected t = (refusedEncoding? detected).toList.map wrongEncoding ++
      ((Text.numberedLines t).filter fun entry => entry.2.any isForbidden).map fun entry =>
        .errorInLine entry.1 "Found invalid character" := by
  cases detected with
  | none => rfl
  | some e =>
      unfold encodingRemarks refusedEncoding?
      dsimp only [Option.filter_some]
      cases e != "" && !allowedEncodings.contains e <;> rfl

theorem Remark.toFinding_injective (file : Path) (check : String) :
    Function.Injective fun r : Remark => r.toFinding file check := by
  rintro ⟨weight, message, line, signed⟩ ⟨weight', message', line', signed'⟩ h
  cases weight <;> cases weight' <;> cases signed <;> cases signed' <;>
    simp_all [Remark.toFinding, Weight.severity]

section
variable {s : Subject} {w : Surroundings} {tree tree' : FileTree} {bytes bytes' : Bytes}
  {t : List Char} (r : Results)

theorem kept_map_error {remarks : List Remark} {file : Path} {check : String}
    (h : ∀ remark ∈ remarks, remark.weight = .error) :
    r.kept (remarks.map fun remark => remark.toFinding file check) =
      remarks.map fun remark => remark.toFinding file check := by
  unfold Results.kept
  split
  · refine List.filter_eq_self.2 fun f hf => ?_
    obtain ⟨remark, hremark, rfl⟩ := List.mem_map.1 hf
    simp [Remark.toFinding, Weight.severity, h remark hremark]
  · rfl

/-- Outcomes that differ in errors that come first. -/
theorem kept_append_iff {first first' rest : List Remark} {file : Path} {check : String}
    (h : ∀ remark ∈ first, remark.weight = .error)
    (h' : ∀ remark ∈ first', remark.weight = .error) :
    r.kept ((first' ++ rest).map fun remark => remark.toFinding file check) =
        r.kept ((first ++ rest).map fun remark => remark.toFinding file check) ↔
      first' = first := by
  rw [List.map_append, List.map_append, r.kept_append, r.kept_append, List.append_left_inj,
    kept_map_error r h, kept_map_error r h']
  exact (List.map_injective_iff.2 (Remark.toFinding_injective file check)).eq_iff

/-- Line ends are judged by the bytes. -/
theorem kept_newlines_iff (htext : s.text = .ok t) (hbytes : tree.readBytes s.file = .ok bytes)
    (hbytes' : tree'.readBytes s.file = .ok bytes') :
    r.kept (newlines.findings s { w with tree := tree' }).results =
        r.kept (newlines.findings s { w with tree }).results ↔
      (13 ∈ bytes' ↔ 13 ∈ bytes) := by
  have hrun {tree : FileTree} {bytes : Bytes} (h : tree.readBytes s.file = .ok bytes) :
      (newlines.run s { w with tree }).results =
        (if bytes.contains 13 then [.unsignedError "Found \\r or \\r\\n newline."] else []) ++
          ["script_name", "script_copyright"].flatMap (callLayoutRemarks t) := by
    simp only [newlines, h, Subject.onText, Subject.withText, htext]
    rfl
  have herror (bytes : Bytes) : ∀ remark ∈ (if bytes.contains 13 then
      [Remark.unsignedError "Found \\r or \\r\\n newline."] else []), remark.weight = .error := by
    split <;> simp [Remark.unsignedError]
  show r.kept ((newlines.run s _).results.map _) = r.kept ((newlines.run s _).results.map _) ↔ _
  rw [hrun hbytes, hrun hbytes', kept_append_iff r (herror bytes) (herror bytes')]
  by_cases hin : 13 ∈ bytes <;> by_cases hin' : 13 ∈ bytes' <;> simp [hin, hin']

/-- The encoding is detected in the bytes, and all else is read in the text. -/
theorem kept_encoding_iff (htext : s.text = .ok t) (hbytes : tree.readBytes s.file = .ok bytes)
    (hbytes' : tree'.readBytes s.file = .ok bytes') :
    r.kept (encoding.findings s { w with tree := tree' }).results =
        r.kept (encoding.findings s { w with tree }).results ↔
      refusedEncoding? (w.detectEncoding bytes') = refusedEncoding? (w.detectEncoding bytes) := by
  have hrun {tree : FileTree} {bytes : Bytes} (h : tree.readBytes s.file = .ok bytes) :
      (encoding.run s { w with tree }).results = encodingRemarks (w.detectEncoding bytes) t := by
    simp only [encoding, h, Subject.withText, htext]
    rfl
  have herror (detected : Option String) : ∀ remark ∈
      (refusedEncoding? detected).toList.map wrongEncoding, remark.weight = .error := by
    intro remark hremark
    obtain ⟨e, -, rfl⟩ := List.mem_map.1 hremark
    rfl
  show r.kept ((encoding.run s _).results.map _) = r.kept ((encoding.run s _).results.map _) ↔ _
  rw [hrun hbytes, hrun hbytes', encodingRemarks_eq, encodingRemarks_eq,
    kept_append_iff r (herror _) (herror _),
    (List.map_injective_iff.2 wrongEncoding_injective).eq_iff]
  exact ⟨fun h => by simpa using congrArg List.head? h, congrArg Option.toList⟩

end

end NaslLint
