import NaslLint.Proofs.LostUpdate
import NaslLint.Proofs.Renewal

/-!
# What becomes of renewed dates

The repair of version and last modification finds both calls in the text as it was, and then replaces
the text of the first and the text of the second, wherever they stand. What the second replacement
finds is what the first one has left, so one of the new calls may be missing in the end.

* `Text.infix_replaceAll` and `Text.infix_replaceAll_of_infix` say which words are there after a
  replacement.
* `Checks.statesVersion` and `Checks.statesDate` are what the check asks for.
* `renewed_passes_iff` is the main statement.
-/

namespace NaslLint

open Pattern Script Text

/-! ## Words after a replacement -/

namespace Text
variable {old new kept t u v : List Char}

/-- Where a word stands, its replacement stands afterwards. -/
theorem infix_replaceAll (hold : old ≠ []) (h : old <:+: t) : new <:+: replaceAll old new t := by
  induction t with
  | nil => exact absurd (List.infix_nil.1 h) hold
  | cons c t ih =>
      rw [replaceAll, replaceFrom]
      split
      · exact (List.prefix_append _ _).isInfix
      · next hno =>
        rw [List.isPrefixOf_iff_prefix] at hno
        exact List.infix_cons (ih ((List.infix_cons_iff.1 h).resolve_left hno))

/-- A word is kept if no copy of the word that is replaced can reach into it or start in it. -/
theorem infix_replaceAll_of_infix (hbefore : ∀ u b, old <+: u ++ (kept ++ b) → old <+: u)
    (hinside : ∀ b, Nowhere (old <+: ·) kept b) (h : kept <:+: t) :
    kept <:+: replaceAll old new t := by
  obtain ⟨a, b, rfl⟩ := h
  rw [List.append_assoc, replaceAll_around (fun u _ _ => hbefore u b) (hinside b)]
  exact ⟨_, _, List.append_assoc _ _ _⟩

/-- A word that ends with a mark does not reach into another one that has this mark at its end only,
unless it takes in all of it. -/
theorem prefix_of_prefix_append_stop {w x b : List Char} {d : Char} (hw : w.getLast? = some d)
    (hx : d ∉ x) (hno : ¬ x ++ [d] <:+: w) (h : w <+: u ++ (x ++ [d] ++ b)) : w <+: u := by
  obtain ⟨z, hz⟩ := h
  rcases List.append_eq_append_iff.1 hz with ⟨as, rfl, -⟩ | ⟨bs, rfl, hbs⟩
  · exact List.prefix_append _ _
  by_cases hne : bs = []
  · simp [hne]
  have hlast : d ∈ bs := by
    rw [List.getLast?_append_of_ne_nil _ hne] at hw
    exact List.mem_of_getLast? hw
  rcases List.append_eq_append_iff.1 hbs with ⟨cs, rfl, -⟩ | ⟨cs, hcs, -⟩
  · exact absurd ⟨u, cs, List.append_assoc _ _ _⟩ hno
  · rcases List.eq_nil_or_concat' cs with rfl | ⟨cs, e, rfl⟩
    · rw [List.append_nil] at hcs
      exact absurd ⟨u, [], by rw [hcs, List.append_nil]⟩ hno
    · rw [← List.append_assoc] at hcs
      obtain ⟨rfl, -⟩ := List.append_inj' hcs rfl
      exact absurd (List.mem_append_left _ hlast) hx

/-- A word stands somewhere in a text where no copy of another one touches it. -/
def StandsApart (old kept t : List Char) : Prop :=
  ∃ a b, t = a ++ (kept ++ b) ∧ (∀ u, u <:+ a → u ≠ [] → old <+: u ++ (kept ++ b) → old <+: u) ∧
    Nowhere (old <+: ·) kept b

theorem StandsApart.infix_replaceAll (h : StandsApart old kept t) :
    kept <:+: replaceAll old new t := by
  obtain ⟨a, b, rfl, hbefore, hinside⟩ := h
  rw [replaceAll_around hbefore hinside]
  exact ⟨_, _, List.append_assoc _ _ _⟩

end Text

/-! ## What the check asks for -/

/-- What a pattern takes as a text of its own, it finds wherever that text stands. -/
theorem Pattern.occursIn_of_takes {p : Pattern} {x t : List Char} {g : List (String × List Char)}
    (hp : p.isAnchored = false) (h : Takes p x [] [] g) (hx : x <:+: t) : p.occursIn t = true := by
  obtain ⟨a, b, rfl⟩ := hx
  obtain ⟨e, he, hrest, -⟩ := h ([] ++ (x ++ [])).length ((Place.ofText ([] ++ (x ++ []))).move 0)
    rfl rfl
  rw [List.append_assoc]
  exact occursIn_of_mem_ends (a := []) hp (by simp; omega) (List.mem_of_mem_head? he) hrest

/-- What has been found is a part of the text. -/
theorem Pattern.infix_of_find? {p : Pattern} {t : List Char} {m : Match}
    (h : p.find? t = some m) : m.text <:+: t := by
  obtain ⟨n, -, hm⟩ := exists_matchAt?_of_find? h
  obtain ⟨e, he, rfl⟩ := exists_mem_ends_of_matchAt? hm
  have hrest := (leads_of_mem_ends he).rest_eq
  rw [Place.rest_move] at hrest
  exact (show _ <+: t.drop n from ⟨_, hrest.symm⟩).isInfix.trans (List.drop_suffix n t).isInfix

namespace Checks
variable {t : List Char} {now : DateTime}

/-- The version is stated, and once at least in a current or former form. -/
def statesVersion (t : List Char) : Bool :=
  anyVersion.occursIn t && versionWellFormed t

def statesDate (t : List Char) : Bool :=
  anyLastModification.occursIn t && lastModificationWellFormed t

theorem versionRemarks_eq_nil_iff :
    versionRemarks t = [] ↔ statesVersion t = true ∧ statesDate t = true := by
  simp only [versionRemarks, statesVersion, statesDate, Bool.and_eq_true]
  cases anyVersion.occursIn t <;> cases versionWellFormed t <;>
    cases anyLastModification.occursIn t <;> cases lastModificationWellFormed t <;> simp

theorem leavesLine_nil : LeavesLine [] :=
  ⟨by simp, by simp⟩

/-- Where the new version stands, the check finds it. -/
theorem statesVersion_of_infix (hnow : now.Regular) (h : versionCall now <:+: t) :
    statesVersion t = true := by
  rw [versionCall_eq] at h
  have hvalue (g : List (String × List Char)) : Takes Call.version.value
      (DateFormat.version.write now) ('"' :: (");".toList ++ [])) g g :=
    takes_versionValue hnow
  have hstrict : Call.version.pattern.occursIn t = true :=
    occursIn_of_takes rfl (takes_call (fun _ => takes_word)
      (takes_valueAndEnd (by decide) (by decide) rfl (hvalue _))) h
  have hany : anyVersion.occursIn t = true :=
    occursIn_of_takes rfl
      (takes_anyVersion (DatedScript.plainValue_version hnow).inLine leavesLine_nil) h
  rw [statesVersion, versionWellFormed, hstrict, hany]
  rfl

/-- Where the new date stands, the check finds it. -/
theorem statesDate_of_infix (hnow : now.Regular) (h : lastModificationTag now <:+: t) :
    statesDate t = true := by
  rw [lastModificationTag_eq] at h
  have hvalue (g : List (String × List Char)) : Takes Tag.lastModification.value
      (DateFormat.stamp.write now) ('"' :: (");".toList ++ [])) g g :=
    takes_dateValue hnow
  have hstrict : Tag.lastModification.pattern.occursIn t = true :=
    occursIn_of_takes rfl (takes_tagWith (by decide) (fun _ => takes_word.group) rfl (by decide)
      (takes_valueAndEnd (by decide) (by decide) rfl (hvalue _))) h
  have hany : anyLastModification.occursIn t = true :=
    occursIn_of_takes rfl (takes_tagWith (by decide) (fun _ => takes_word) rfl (by decide)
      (takes_valueAndEnd_line (DatedScript.plainValue_stamp hnow).inLine leavesLine_nil)) h
  rw [statesDate, lastModificationWellFormed, hstrict, hany]
  rfl

/-! ## Which of the new calls are there -/

variable {version modified : Match} {c : List Char} {r : Repair}

theorem tagOpens_of_find? (h : anyLastModification.find? t = some modified) :
    TagOpens dateName modified.text := by
  obtain ⟨n, -, hm⟩ := exists_matchAt?_of_find? h
  obtain ⟨e, he, rfl⟩ := exists_mem_ends_of_matchAt? hm
  let lead : List Pattern := ["script_tag(", label "name", .group "quote" quoteChar]
  let more : List Pattern := ["last_modification", .again "quote", blanks, ",", label "value",
    valueAndEnd "quote2" .line]
  obtain ⟨lead, _, hlead, ⟨_, z, rfl, -, rfl⟩, htext⟩ :=
    (spells_chain_append (show lead ≠ [] by simp [lead]) (show more ≠ [] by simp [more])).1
      (spells_of_mem_ends he)
  refine ⟨lead, hlead, z, ?_⟩
  rw [List.append_assoc]
  exact htext.symm

theorem IsOneLineCall.ne_nil {v : List Char} (h : IsOneLineCall v) : v ≠ [] := by
  rintro rfl
  exact absurd (List.prefix_nil.1 h.opens) (by decide)

/-- The new version ends with its only semicolon. -/
theorem exists_versionCall_eq (hnow : now.Regular) :
    ∃ x, versionCall now = x ++ [';'] ∧ ';' ∉ x := by
  refine ⟨"script_version(\"".toList ++ DateFormat.version.write now ++ "\")".toList, ?_, ?_⟩
  · unfold versionCall
    simp
  · have hdate : ';' ∉ DateFormat.version.write now := by
      intro h
      have hchar : (';' != ';') = true :=
        DateFormat.forall_mem_write hnow (by decide) (by decide) _ h
      exact absurd hchar (by decide)
    simp [hdate]

/-- The new version outlives the replacement of the date, unless it is a part of what is replaced. -/
theorem infix_versionCall (hnow : now.Regular)
    (hmodified : anyLastModification.find? t = some modified)
    (hpart : ¬ versionCall now <:+: modified.text) (h : versionCall now <:+: c)
    (new : List Char) : versionCall now <:+: replaceAll modified.text new c := by
  have hopens := tagOpens_of_find? hmodified
  have hends := (isOneLineCall_lastModification hmodified).ends
  apply infix_replaceAll_of_infix _ _ h
  · intro u b hpre
    obtain ⟨x, hx, hmark⟩ := exists_versionCall_eq hnow
    rw [hx] at hpart hpre
    exact prefix_of_prefix_append_stop hends hmark hpart hpre
  · intro b
    rw [DatedScript.versionCall_eq_statedVersion]
    apply (nowhere_statedVersion (DatedScript.plainValue_version hnow).uncalled).imp
    rintro v hv
    obtain ⟨lead, hlead, hpre⟩ := hopens
    exact ⟨lead, hlead, hpre.trans hv⟩

/-- **What renewed dates are worth.** The new date is there if the call that stated the old one still
stands in the text with the new version. The new version is there unless it is a part of that call. -/
theorem versionRemarks_renewed_iff (hnow : now.Regular) (hversion : anyVersion.find? t = some version)
    (hmodified : anyLastModification.find? t = some modified)
    (hc : c = replaceAll version.text (versionCall now) t) :
    versionRemarks (replaceAll modified.text (lastModificationTag now) c) = [] ↔
      (modified.text <:+: c ∨ statesDate c = true) ∧
        (versionCall now <:+: modified.text → modified.text <:+: c →
          statesVersion (replaceAll modified.text (lastModificationTag now) c) = true) := by
  have hnew : versionCall now <:+: c := by
    rw [hc]
    exact infix_replaceAll (isOneLineCall_version hversion).ne_nil (infix_of_find? hversion)
  rw [versionRemarks_eq_nil_iff]
  by_cases hfound : modified.text <:+: c
  · have hdate : statesDate (replaceAll modified.text (lastModificationTag now) c) = true := by
      apply statesDate_of_infix hnow
      exact infix_replaceAll (isOneLineCall_lastModification hmodified).ne_nil hfound
    by_cases hpart : versionCall now <:+: modified.text
    · simp [hfound, hpart, hdate]
    · have hstill := statesVersion_of_infix hnow (infix_versionCall hnow hmodified hpart hnew
        (lastModificationTag now))
      simp [hfound, hpart, hdate, hstill]
  · rw [replaceAll_eq_self hfound]
    simp [hfound, statesVersion_of_infix hnow hnew]

/-! ## Files -/

section
variable {w : Surroundings} {root file : Path}

variable (root) in
/-- What the check finds in a file that holds a script. -/
theorem findings_eq_nil_iff (hfile : file.isInclude = false) (htext : w.tree.readText file = .ok t) :
    versionAndLastModification.findings (.ofTree w.tree root file) w = .done [] ↔
      versionRemarks t = [] := by
  have hrun : versionAndLastModification.run (.ofTree w.tree root file) w =
      .done (versionRemarks t) := by
    show Subject.onScript _ versionRemarks = _
    rw [Subject.onScript, Subject.withText, text_ofTree htext]
    exact if_neg (by simp [Subject.ofTree, hfile])
  rw [FileCheck.findings, hrun]
  simp [Outcome.map, Outcome.done]

/-- **Renewed dates and the check of them.** When version and last modification of a script have been
renewed, the check has nothing to remark on exactly if the call that stated the last modification
still stands in the text with the new version, or if that text states one well; and if the version is
stated in the end, should the new one be a part of that call. It is so if the two calls stand apart
and the new version is not yet there. -/
theorem renewed_passes_iff {fixes : List Finding} {tree : FileTree} (hnow : w.now.Regular)
    (hfile : file.isInclude = false)
    (hfix : versionAndLastModification.applyRepair (.ofTree w.tree root file) w = .ok (fixes, tree))
    (hne : fixes ≠ []) :
    ∃ t version modified, w.tree.readText file = .ok t ∧ anyVersion.find? t = some version ∧
      anyLastModification.find? t = some modified ∧
      (versionAndLastModification.findings (.ofTree tree root file) { w with tree } = .done [] ↔
        let renewed := replaceAll version.text (versionCall w.now) t
        (modified.text <:+: renewed ∨ statesDate renewed = true) ∧
          (versionCall w.now <:+: modified.text → modified.text <:+: renewed →
            statesVersion (replaceAll modified.text (lastModificationTag w.now) renewed) = true)) ∧
      (StandsApart version.text modified.text t → ¬ versionCall w.now <:+: modified.text →
        versionAndLastModification.findings (.ofTree tree root file) { w with tree } = .done []) := by
  have hmem : versionAndLastModification ∈ fileChecks := by simp [fileChecks]
  obtain ⟨t, r, hread, hrenew, hread'⟩ := exists_repairOf_of_applyRepair hmem hfile hfix hne
  obtain ⟨version, modified, hversion, hmodified, htext⟩ := exists_of_renewDates? hrenew
  rw [htext] at hread'
  have hiff := (findings_eq_nil_iff root (w := { w with tree }) hfile hread').trans
    (versionRemarks_renewed_iff hnow hversion hmodified rfl)
  refine ⟨t, version, modified, hread, hversion, hmodified, hiff, fun hapart hpart => ?_⟩
  exact hiff.2 ⟨.inl hapart.infix_replaceAll, fun h => absurd h hpart⟩

variable (root) in
/-- A repair of a file that can be read is told of. -/
theorem exists_applyRepair (hfile : file.isInclude = false) (hread : w.tree.readText file = .ok t)
    (hrenew : renewDates? w.now t = some r) :
    ∃ fixes tree, versionAndLastModification.applyRepair (.ofTree w.tree root file) w =
      .ok (fixes, tree) ∧ fixes ≠ [] := by
  have hmem : versionAndLastModification ∈ fileChecks := by simp [fileChecks]
  obtain ⟨l, mode, bytes, hlocate, hhas, -⟩ := FileTree.exists_hasFile_of_readText hread
  have hrepair : versionAndLastModification.repairOf w.now t = some r := hrenew
  refine ⟨_, _, applyRepair_eq (s := .ofTree w.tree root file) hmem hfile (text_ofTree hread)
    hlocate hhas, ?_⟩
  simp [hrepair]

def sampleScript (t : List Char) : Surroundings :=
  { tree := { entries := [(["a.nasl"], .file 0o644 (toLatin1 t))] }, now := ⟨⟨2022, 8, 15⟩, 12, 0, 0⟩ }

theorem readText_sampleScript (ht : Stored t) :
    (sampleScript t).tree.readText ⟨"/", ["a.nasl"]⟩ = .ok t :=
  FileTree.readText_eq_ok_iff.2 ⟨_, rfl, ht.read_write⟩

def onTwoLines : List Char :=
  "script_version(\"y\");\nscript_tag(name:\"last_modification\", value:\"x\");\n".toList

/-- On lines of their own, both calls are renewed, and the check has no remark. -/
theorem renewed_passes_of_two_lines :
    let w := sampleScript onTwoLines
    w.now.Regular ∧ ∃ fixes tree, versionAndLastModification.applyRepair
        (.ofTree w.tree ⟨"/", []⟩ ⟨"/", ["a.nasl"]⟩) w = .ok (fixes, tree) ∧ fixes ≠ [] ∧
      versionAndLastModification.findings (.ofTree tree ⟨"/", []⟩ ⟨"/", ["a.nasl"]⟩)
        { w with tree } = .done [] := by
  intro w
  have hnow : w.now.Regular := ⟨by decide, by decide, by decide, by decide, by decide⟩
  have hread := readText_sampleScript (t := onTwoLines) (by decide +kernel)
  obtain ⟨r, hr⟩ := Option.isSome_iff_exists.1
    (show (renewDates? w.now onTwoLines).isSome = true by decide +kernel)
  obtain ⟨fixes, tree, hfix, hne⟩ := exists_applyRepair ⟨"/", []⟩ (by decide) hread hr
  refine ⟨hnow, fixes, tree, hfix, hne, ?_⟩
  obtain ⟨t, version, modified, ht, hversion, hmodified, hiff, -⟩ :=
    renewed_passes_iff hnow (by decide) hfix hne
  obtain rfl := Except.ok.inj (hread.symm.trans ht)
  have hcalls : (anyVersion.find? onTwoLines).any (fun v =>
      (anyLastModification.find? onTwoLines).any fun m =>
        contains m.text (replaceAll v.text (versionCall w.now) onTwoLines) &&
          !contains (versionCall w.now) m.text) = true := by
    decide +kernel
  rw [hversion, hmodified, Option.any_some, Option.any_some, Bool.and_eq_true,
    Bool.not_eq_true'] at hcalls
  obtain ⟨hfound, hpart⟩ := hcalls
  exact hiff.2 ⟨.inl (contains_iff.1 hfound), fun h => absurd h (not_infix_of_contains hpart)⟩

def onOneLine : List Char :=
  "script_version(\"y\");script_tag(name:\"last_modification\", value:\"x\");\n".toList

/-- On one line, the version takes in the date behind it: the repair leaves a script that does not
state its last modification any more. -/
theorem renewed_fails_of_one_line :
    let w := sampleScript onOneLine
    ∃ fixes tree, versionAndLastModification.applyRepair
        (.ofTree w.tree ⟨"/", []⟩ ⟨"/", ["a.nasl"]⟩) w = .ok (fixes, tree) ∧ fixes ≠ [] ∧
      versionAndLastModification.findings (.ofTree tree ⟨"/", []⟩ ⟨"/", ["a.nasl"]⟩)
        { w with tree } ≠ .done [] := by
  intro w
  have hread := readText_sampleScript (t := onOneLine) (by decide +kernel)
  have hrenewed : (renewDates? w.now onOneLine).any (versionRemarks ·.text ≠ []) = true := by
    decide +kernel
  obtain ⟨r, hr, hremarks⟩ := (Option.any_eq_true _ _).1 hrenewed
  obtain ⟨fixes, tree, hfix, hne⟩ := exists_applyRepair ⟨"/", []⟩ (by decide) hread hr
  refine ⟨fixes, tree, hfix, hne, ?_⟩
  obtain ⟨t, r', ht, hr', hread'⟩ := exists_repairOf_of_applyRepair (by simp [fileChecks]) (by decide)
    hfix hne
  obtain rfl := Except.ok.inj (hread.symm.trans ht)
  obtain rfl : r = r' := Option.some.inj (hr.symm.trans hr')
  rw [Ne, findings_eq_nil_iff _ (w := { w with tree }) (by decide) hread']
  simpa using hremarks

end

end Checks

end NaslLint
