import NaslLint.Checks.Layout
import NaslLint.Proofs.Repair

/-!
# Forbidden characters are looked for line by line

The check of encodings looks for the characters from `U+007F` to `U+009F` in the lines of a script.
One of them, `U+0085`, ends a line itself and so stands in none of them: it is the only forbidden
character that is not found.

* `Text.mem_lines_iff` says which characters of a text stand in its lines;
* `Checks.forbidden_character_found_iff` is the main statement.
-/

namespace NaslLint

namespace Text

/-- The lines of a text, one after the other, are the text without the characters that end lines. -/
theorem flatten_lines (t : List Char) : (lines t).flatten = t.filter (!isLineBreak ·) := by
  fun_induction lines t with
  | case1 => rfl
  | case2 more ih =>
      have hreturn : isLineBreak '\r' = true := by decide
      have hnewline : isLineBreak '\n' = true := by decide
      simp [ih, hreturn, hnewline]
  | case3 c more _ hc ih => simp [ih, hc]
  | case4 c more _ hc hmore ih =>
      rw [hmore, List.flatten_nil] at ih
      simp [← ih, hc]
  | case5 c more _ hc l ls hmore ih =>
      rw [hmore, List.flatten_cons] at ih
      simp [← ih, hc]

/-- The characters in the lines of a text are those that end no line. -/
theorem mem_lines_iff {t : List Char} {c : Char} :
    (∃ l ∈ lines t, c ∈ l) ↔ c ∈ t ∧ isLineBreak c = false := by
  rw [← List.mem_flatten, flatten_lines, List.mem_filter, Bool.not_eq_true']

theorem map_snd_numberedLines (t : List Char) : (numberedLines t).map (·.2) = lines t := by
  rw [numberedLines, List.map_map]
  exact List.zipIdx_map_fst 1 (lines t)

/-- Unifying line ends keeps all other characters. -/
theorem mem_unifyNewlines_iff {t : List Char} {c : Char} (hr : c ≠ '\r') (hn : c ≠ '\n') :
    c ∈ unifyNewlines t ↔ c ∈ t := by
  constructor
  · intro h
    exact (mem_unifyNewlines h).2.resolve_left hn
  · intro h
    fun_induction unifyNewlines t with
    | case1 => exact h
    | case2 more ih => simp_all
    | case3 more _ ih => simp_all
    | case4 d more _ _ ih =>
        rcases List.mem_cons.1 h with rfl | h
        · exact List.mem_cons_self
        · exact List.mem_cons_of_mem _ (ih h)

end Text

namespace Checks

/-- `U+0085`, which ends a line. -/
def nextLine : Char :=
  '\u0085'

/-- Of the forbidden characters only `U+0085` ends a line. -/
theorem isLineBreak_of_isForbidden {c : Char} (h : isForbidden c = true) :
    Text.isLineBreak c = true ↔ c = nextLine := by
  constructor
  · intro hline
    unfold Text.isLineBreak at hline
    split at hline
    case h_8 => rfl
    case h_11 => cases hline
    all_goals
      revert h
      decide
  · rintro rfl
    decide

/-- The line ends that are unified are not forbidden. -/
theorem ne_of_isForbidden {c : Char} (h : isForbidden c = true) : c ≠ '\r' ∧ c ≠ '\n' := by
  constructor
  · rintro rfl
    revert h
    decide
  · rintro rfl
    revert h
    decide

/-- An error says that there is a forbidden character in a line. -/
def TellsForbidden (o : Outcome Finding) : Prop :=
  ∃ f ∈ o.results, f.severity = .error ∧ f.message = "Found invalid character"

/-- What is said of an encoding is something else. -/
theorem encodingMessage_ne (e : String) :
    s!"VT uses a wrong encoding. Detected encoding is {e}." ≠ "Found invalid character" := by
  intro h
  have hhead := congrArg (fun s => s.toList.head?) h
  simp [toString] at hhead

/-- A line is remarked on if and only if it holds a forbidden character. -/
theorem forbidden_mem_encodingRemarks_iff (detected : Option String) (t : List Char) :
    (∃ r ∈ encodingRemarks detected t, r.weight.severity = .error ∧
        r.message = "Found invalid character") ↔
      ∃ l ∈ Text.lines t, ∃ c ∈ l, isForbidden c = true := by
  constructor
  · rintro ⟨r, hr, -, hmessage⟩
    rcases List.mem_append.1 hr with hr | hr
    · cases detected with
      | none => cases hr
      | some e =>
          simp only at hr
          split at hr
          · obtain rfl := List.mem_singleton.1 hr
            exact absurd hmessage (encodingMessage_ne e)
          · cases hr
    · obtain ⟨line, hline, -⟩ := List.mem_map.1 hr
      obtain ⟨hmem, hany⟩ := List.mem_filter.1 hline
      refine ⟨line.2, ?_, List.any_eq_true.1 hany⟩
      rw [← Text.map_snd_numberedLines]
      exact List.mem_map_of_mem hmem
  · rintro ⟨l, hl, hany⟩
    rw [← Text.map_snd_numberedLines] at hl
    obtain ⟨line, hline, rfl⟩ := List.mem_map.1 hl
    refine ⟨.errorInLine line.1 "Found invalid character", ?_, rfl, rfl⟩
    apply List.mem_append_right
    exact List.mem_map.2 ⟨line, List.mem_filter.2 ⟨hline, List.any_eq_true.2 hany⟩, rfl⟩

/-- The lines of a script as it is read hold the forbidden characters of its bytes but `U+0085`. -/
theorem forbidden_mem_lines_iff (bytes : Bytes) :
    (∃ l ∈ Text.lines (Text.unifyNewlines (Text.ofLatin1 bytes)), ∃ c ∈ l, isForbidden c = true) ↔
      ∃ c ∈ Text.ofLatin1 bytes, isForbidden c = true ∧ c ≠ nextLine := by
  have hchar {c : Char} (h : isForbidden c = true) :
      (∃ l ∈ Text.lines (Text.unifyNewlines (Text.ofLatin1 bytes)), c ∈ l) ↔
        c ∈ Text.ofLatin1 bytes ∧ c ≠ nextLine := by
    rw [Text.mem_lines_iff, Text.mem_unifyNewlines_iff (ne_of_isForbidden h).1 (ne_of_isForbidden h).2,
      ← Bool.not_eq_true, isLineBreak_of_isForbidden h]
  constructor
  · rintro ⟨l, hl, c, hc, h⟩
    obtain ⟨hmem, hne⟩ := (hchar h).1 ⟨l, hl, hc⟩
    exact ⟨c, hmem, h, hne⟩
  · rintro ⟨c, hmem, h, hne⟩
    obtain ⟨l, hl, hc⟩ := (hchar h).2 ⟨hmem, hne⟩
    exact ⟨l, hl, c, hc, h⟩

/-- What the check of encodings says of a file that can be read. -/
theorem findings_encoding {root file : Path} {w : Surroundings} {bytes : Bytes}
    (hbytes : w.tree.readBytes file = .ok bytes) :
    encoding.findings (.ofTree w.tree root file) w =
      .done ((encodingRemarks (w.detectEncoding bytes)
        (Text.unifyNewlines (Text.ofLatin1 bytes))).map (·.toFinding file encoding.name)) := by
  have hread : w.tree.readText file = .ok (Text.unifyNewlines (Text.ofLatin1 bytes)) := by
    rw [FileTree.readText, hbytes]
    rfl
  simp only [FileCheck.findings, encoding, Subject.withText, text_ofTree hread]
  simp only [Subject.ofTree, hbytes]
  rfl

/-- **Which forbidden characters are found.** On every file, whatever encoding is detected, the check
comes to its end and tells of a forbidden character if and only if the file holds one other than
`U+0085`. So it tells of the forbidden characters that there are if and only if `U+0085` is not the
only one of them. -/
theorem forbidden_character_found_iff {root file : Path} {w : Surroundings} {bytes : Bytes}
    (hbytes : w.tree.readBytes file = .ok bytes) :
    let said := encoding.findings (.ofTree w.tree root file) w
    said.fault = none ∧
      (TellsForbidden said ↔ ∃ c ∈ Text.ofLatin1 bytes, isForbidden c = true ∧ c ≠ nextLine) ∧
      ((TellsForbidden said ↔ ∃ c ∈ Text.ofLatin1 bytes, isForbidden c = true) ↔
        (nextLine ∈ Text.ofLatin1 bytes →
          ∃ c ∈ Text.ofLatin1 bytes, isForbidden c = true ∧ c ≠ nextLine)) := by
  intro said
  have hsaid : said = _ := findings_encoding hbytes
  have htells : TellsForbidden said ↔
      ∃ c ∈ Text.ofLatin1 bytes, isForbidden c = true ∧ c ≠ nextLine := by
    rw [← forbidden_mem_lines_iff bytes,
      ← forbidden_mem_encodingRemarks_iff (w.detectEncoding bytes), hsaid]
    constructor
    · rintro ⟨f, hf, htold⟩
      obtain ⟨r, hr, rfl⟩ := List.mem_map.1 hf
      exact ⟨r, hr, htold⟩
    · rintro ⟨r, hr, htold⟩
      exact ⟨_, List.mem_map_of_mem hr, htold⟩
  refine ⟨by rw [hsaid]; rfl, htells, ?_⟩
  rw [htells]
  constructor
  · intro h hmem
    exact h.2 ⟨nextLine, hmem, by decide⟩
  · intro h
    constructor
    · rintro ⟨c, hc, hforbidden, -⟩
      exact ⟨c, hc, hforbidden⟩
    · rintro ⟨c, hc, hforbidden⟩
      by_cases hne : c = nextLine
      · exact h (hne ▸ hc)
      · exact ⟨c, hc, hforbidden, hne⟩

def oneScript (bytes : Bytes) : Surroundings :=
  { tree := FileTree.empty.addFile ["a.nasl"] bytes, now := default }

/-- A script with `U+0085` and `U+0086` is told of, though only for the second. -/
theorem forbidden_character_found_behind_nextLine :
    let w := oneScript [0x61, 0x85, 0x86]
    w.tree.readBytes ⟨"/", ["a.nasl"]⟩ = .ok [0x61, 0x85, 0x86] ∧
      TellsForbidden (encoding.findings (.ofTree w.tree ⟨"/", []⟩ ⟨"/", ["a.nasl"]⟩) w) := by
  intro w
  have hbytes : w.tree.readBytes ⟨"/", ["a.nasl"]⟩ = .ok [0x61, 0x85, 0x86] := rfl
  refine ⟨hbytes, (forbidden_character_found_iff hbytes).2.1.2 ⟨Char.ofNat 0x86, ?_⟩⟩
  decide

/-- A script whose only forbidden character is `U+0085` passes. -/
theorem nextLine_not_found :
    let w := oneScript [0x61, 0x85, 0x62]
    w.tree.readBytes ⟨"/", ["a.nasl"]⟩ = .ok [0x61, 0x85, 0x62] ∧
      (Text.ofLatin1 [0x61, 0x85, 0x62]).any isForbidden = true ∧
      encoding.findings (.ofTree w.tree ⟨"/", []⟩ ⟨"/", ["a.nasl"]⟩) w = .done [] := by
  refine ⟨rfl, ?_⟩
  decide

end Checks

end NaslLint
