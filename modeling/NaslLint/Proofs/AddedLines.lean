import NaslLint.Command.History
import NaslLint.Proofs.Path
import NaslLint.Proofs.Script.Calls
import NaslLint.Proofs.Script.Parts

/-!
# Updates in added lines

A changed script has to come with a new version and a new date of modification. Both are looked for
in the changes, behind the mark of an added line. Blanks may stand behind the mark, and a line end is
a blank too, so what is found behind it need not stand in an added line.

* `Script.accepts_anyVersion` and `Script.accepts_anyLastModification` say what the two
  calls look like.
* `History.occursIn_added_iff` says what is found: a call in an added line, one that begins in an
  added line, or one below an added line that is blank.
* `History.updates_complete_iff` says when nothing is missing in the changes of all files.
* `History.unchanged_calls_taken_for_updates` are changes that add two empty lines, and nothing is
  missing in them.
-/

namespace NaslLint

/-! ## Lines -/

namespace Text

variable {sep : Char} {t p x line : List Char} {ps : List (List Char)}

/-- The first part begins the text, and each other part stands behind a separator. -/
theorem parts_of_splitOn (h : splitOn sep t = p :: ps) :
    p <+: t ∧ ∀ q ∈ ps, ∃ a b, t = a ++ sep :: (q ++ b) := by
  induction t generalizing p ps with
  | nil =>
      obtain ⟨rfl, rfl⟩ := List.cons.inj h
      exact ⟨List.prefix_rfl, by simp⟩
  | cons c t ih =>
      obtain ⟨q, qs, hsplit, hcons⟩ := exists_splitOn_cons sep c t
      obtain ⟨⟨b, hb⟩, hmore⟩ := ih hsplit
      rw [hcons] at h
      by_cases hc : c = sep
      · rw [if_pos hc] at h
        obtain ⟨rfl, rfl⟩ := List.cons.inj h
        refine ⟨List.nil_prefix, List.forall_mem_cons.2 ⟨⟨[], b, by rw [hb, hc]; rfl⟩, ?_⟩⟩
        intro q' hq'
        obtain ⟨a, b', rfl⟩ := hmore q' hq'
        exact ⟨c :: a, b', rfl⟩
      · rw [if_neg hc] at h
        obtain ⟨rfl, rfl⟩ := List.cons.inj h
        refine ⟨List.cons_prefix_cons.2 ⟨rfl, b, hb⟩, ?_⟩
        intro q' hq'
        obtain ⟨a, b', rfl⟩ := hmore q' hq'
        exact ⟨c :: a, b', rfl⟩

/-- A word without the separator stays in the first part of a text that it begins. -/
theorem exists_splitOn_append (hx : sep ∉ x) (t : List Char) :
    ∃ p ps, splitOn sep (x ++ t) = (x ++ p) :: ps := by
  induction x with
  | nil => exact List.exists_cons_of_ne_nil (splitOn_ne_nil sep t)
  | cons c x ih =>
      obtain ⟨hc, hx⟩ := not_or.1 (mt List.mem_cons.2 hx)
      obtain ⟨p, ps, hsplit⟩ := ih hx
      obtain ⟨q, qs, hsplit', hcons⟩ := exists_splitOn_cons sep c (x ++ t)
      rw [hsplit] at hsplit'
      obtain ⟨rfl, rfl⟩ := List.cons.inj hsplit'
      exact ⟨p, ps, by rw [List.cons_append, hcons, if_neg (Ne.symm hc)]; rfl⟩

/-- A word without line ends stands at the start of a line if and only if a line begins with it. -/
theorem exists_startsLine_iff (hx : '\n' ∉ x) :
    (∃ a b, t = a ++ (x ++ b) ∧ StartsLine a) ↔ ∃ line ∈ splitOn '\n' t, x <+: line := by
  constructor
  · rintro ⟨a, b, rfl, ha⟩
    obtain ⟨p, ps, hsplit⟩ := exists_splitOn_append hx b
    have hhead : x ++ p ∈ splitOn '\n' (x ++ b) := by
      rw [hsplit]
      exact List.mem_cons_self
    refine ⟨x ++ p, ?_, List.prefix_append _ _⟩
    rcases ha with rfl | ha
    · exact hhead
    · obtain ⟨a, rfl⟩ := List.getLast?_eq_some_iff.1 ha
      rw [List.append_assoc, List.singleton_append, splitOn_append_cons]
      exact List.mem_append_right _ hhead
  · rintro ⟨line, hline, z, rfl⟩
    obtain ⟨p, ps, hsplit⟩ := List.exists_cons_of_ne_nil (splitOn_ne_nil '\n' t)
    obtain ⟨⟨b, hb⟩, hmore⟩ := parts_of_splitOn hsplit
    rw [hsplit] at hline
    rcases List.mem_cons.1 hline with hfirst | hline
    · refine ⟨[], z ++ b, ?_, Or.inl rfl⟩
      rw [← hb, ← hfirst]
      simp
    · obtain ⟨a, b, rfl⟩ := hmore _ hline
      exact ⟨a ++ ['\n'], z ++ b, by simp, Or.inr (by simp)⟩

end Text

/-! ## Calls -/

namespace Script

open Pattern Text

/-- A call `script_version("…");`. Its value stays within a line. -/
def IsVersionCall (v : List Char) : Prop :=
  ∃ b₁ q value b₂, Blanks b₁ ∧ IsQuote q ∧ '\n' ∉ value ∧ Blanks b₂ ∧
    v = "script_version(".toList ++ (b₁ ++ (quoted q value ++ (b₂ ++ ");".toList)))

def IsLastModificationCall (v : List Char) : Prop :=
  ∃ name q b label value ending, IsLabel "name" name ∧ IsQuote q ∧ Blanks b ∧
    IsLabel "value" label ∧ '\n' ∉ value ∧ IsCallEnd ending ∧
    v = "script_tag(".toList ++ (name ++ (quoted q "last_modification".toList ++
      (b ++ (',' :: (label ++ (value ++ ending))))))

/-- An opening quote that the value of a call may have is a part of the text of the value here. -/
theorem means_valueAndEnd_line (quote : String) (hquote : quote ≠ "value") :
    ∃ R, Means (valueAndEnd quote line) R ∧ ∀ x g, g.lookup quote = none →
      ((∃ g', R x g g') ↔ ∃ value ending, '\n' ∉ value ∧ IsCallEnd ending ∧ x = value ++ ending) := by
  obtain ⟨R, hR, hends⟩ := means_valueAndEnd hquote (fun _ => List.lookup_nil) means_line
  refine ⟨R, hR, fun x g hg => ?_⟩
  constructor
  · rintro ⟨g', hx⟩
    obtain ⟨value, -, s, closing, ending, hvalue, hclosing, hending, rfl⟩ := (hends x g hg).1 g' hx
    refine ⟨(s.map Subtype.val).toList ++ (value ++ closing), ending, ?_, hending, by simp⟩
    -- the quotes stay within the line as well
    have hopens : '\n' ∉ (s.map Subtype.val).toList := by
      intro hmem
      obtain ⟨q, -, hq⟩ := Option.map_eq_some_iff.1 (Option.mem_toList.1 hmem)
      exact absurd (hq ▸ q.2) (by decide : ¬ IsQuote '\n')
    have hcloses : '\n' ∉ closing := by
      rcases hclosing with rfl | rfl
      · exact hopens
      · exact List.not_mem_nil
    simp only [List.mem_append, hopens, hvalue, hcloses, or_self, not_false_eq_true]
  · rintro ⟨value, ending, hvalue, hending, rfl⟩
    -- the quotes are left out, and the value takes them
    exact (hends _ g hg).2 value ⟨none, [], ending, hvalue, Or.inr rfl, hending, rfl⟩

theorem accepts_anyVersion : Accepts anyVersion IsVersionCall := by
  refine ⟨_, (means_blanks.text_seq (means_one.group_seq (means_line.group_seq
    (means_blanks.text_seq means_word).again_seq))).word_seq, fun v => ?_⟩
  constructor
  · rintro ⟨_, _, ⟨b₁, _, h₁, ⟨_, _, ⟨q, hq, rfl⟩, ⟨value, _, hvalue, ⟨closing, _, hclosing,
      ⟨b₂, _, h₂, ⟨rfl, -⟩, rfl⟩, rfl⟩, rfl⟩, rfl⟩, rfl⟩, rfl⟩
    obtain rfl : [q] = closing := Option.some.inj hclosing
    exact ⟨b₁, q, value, b₂, h₁, hq, hvalue, h₂, by simp [quoted]⟩
  · rintro ⟨b₁, q, value, b₂, h₁, hq, hvalue, h₂, rfl⟩
    exact ⟨_, _, ⟨b₁, _, h₁, ⟨[q], _, ⟨q, hq, rfl⟩, ⟨value, _, hvalue, ⟨[q], _, rfl,
      ⟨b₂, _, h₂, ⟨rfl, rfl⟩, rfl⟩, rfl⟩, rfl⟩, by simp [quoted]⟩, rfl⟩, rfl⟩

theorem accepts_anyLastModification : Accepts anyLastModification IsLastModificationCall := by
  obtain ⟨R, hR, hvalue⟩ := means_valueAndEnd_line "quote2" (by decide)
  refine ⟨_, ((means_label "name").text_seq (means_one.group_seq (means_blanks.text_seq
    ((means_label "value").text_seq hR).word_seq).again_seq.word_seq)).word_seq, fun v => ?_⟩
  have hgroups (q : Char) : [("quote", [q])].lookup "quote2" = none := by simp
  constructor
  · rintro ⟨g', _, ⟨name, _, hname, ⟨_, _, ⟨q, hq, rfl⟩, ⟨_, ⟨closing, _, hclosing, ⟨b, _, hb,
      ⟨_, ⟨label, x, hlabel, hx, rfl⟩, rfl⟩, rfl⟩, rfl⟩, rfl⟩, rfl⟩, rfl⟩, rfl⟩
    obtain rfl : [q] = closing := Option.some.inj hclosing
    obtain ⟨value, ending, hline, hending, rfl⟩ := (hvalue x _ (hgroups q)).1 ⟨g', hx⟩
    exact ⟨name, q, b, label, value, ending, hname, hq, hb, hlabel, hline, hending, by simp [quoted]⟩
  · rintro ⟨name, q, b, label, value, ending, hname, hq, hb, hlabel, hline, hending, rfl⟩
    obtain ⟨g', hx⟩ := (hvalue (value ++ ending) _ (hgroups q)).2 ⟨value, ending, hline, hending, rfl⟩
    exact ⟨g', _, ⟨name, _, hname, ⟨[q], _, ⟨q, hq, rfl⟩, ⟨_, ⟨[q], _, rfl, ⟨b, _, hb,
      ⟨_, ⟨label, _, hlabel, hx, rfl⟩, rfl⟩, rfl⟩, rfl⟩, rfl⟩, by simp [quoted]⟩, rfl⟩, rfl⟩

end Script

/-! ## What is found in changes -/

namespace History

open Pattern Script Text

/-- Behind the mark of an addition at the start of a line stand blanks and then a call. -/
structure FollowsMark (IsCall : List Char → Prop) (changes gap v : List Char) : Prop where
  split : ∃ a b, StartsLine a ∧ changes = a ++ '+' :: (gap ++ (v ++ b))
  blanks : Blanks gap
  call : IsCall v

/-- A single line starts with the mark of an addition, and behind that and blanks it has a call. -/
def AddsInLine (IsCall : List Char → Prop) (changes : List Char) : Prop :=
  ∃ line ∈ splitOn '\n' changes, ∃ gap v rest, Blanks gap ∧ IsCall v ∧
    line = '+' :: (gap ++ (v ++ rest))

/-- The call begins in the line with the mark and goes over its end. -/
def RunsOn (IsCall : List Char → Prop) (changes : List Char) : Prop :=
  ∃ gap v, FollowsMark IsCall changes gap v ∧ '\n' ∉ gap ∧ '\n' ∈ v

/-- The line with the mark is blank, and the call begins in another line. -/
def LiesBelow (IsCall : List Char → Prop) (changes : List Char) : Prop :=
  ∃ gap v, FollowsMark IsCall changes gap v ∧ '\n' ∈ gap

section
variable {p : Pattern} {IsCall : List Char → Prop} {changes : List Char}

/-- What is found is a call behind a mark. -/
theorem occursIn_added (h : Accepts p IsCall) :
    (added p).occursIn changes = true ↔ ∃ gap v, FollowsMark IsCall changes gap v := by
  obtain ⟨R, hR, hcall⟩ := h
  have hmeans := (means_blanks.text_seq hR).word_seq (w := ['+'])
  have htexts (a x : List Char) : ((Place.ofText (a ++ x)).move a.length).texts = [] :=
    Place.texts_move _ _
  rw [occursIn_iff]
  constructor
  · rintro ⟨a, x, rfl, t, ht⟩
    obtain ⟨s, hs, ht⟩ := mem_ends_seq.1 ht
    obtain ⟨hstart, rfl⟩ := mem_ends_lineStart.1 hs
    obtain ⟨_, hx, _, ⟨gap, v, hgap, hv, rfl⟩, rfl⟩ :=
      (hmeans _ _ t.rest t.texts).1 ⟨t, ht, rfl, rfl⟩
    rw [Place.rest_move_ofText] at hx
    rw [htexts] at hv
    refine ⟨gap, v, ⟨a, t.rest, (atLineStart_move_iff a x).1 hstart, ?_⟩, hgap, (hcall v).1 ⟨_, hv⟩⟩
    rw [hx]
    simp
  · rintro ⟨gap, v, ⟨a, b, ha, rfl⟩, hgap, hv⟩
    obtain ⟨g, hv⟩ := (hcall v).2 hv
    refine ⟨a, '+' :: (gap ++ (v ++ b)), rfl, ?_⟩
    obtain ⟨t, ht, -⟩ := (hmeans _ _ b g).2 ⟨'+' :: (gap ++ v),
      (Place.rest_move_ofText a ('+' :: (gap ++ (v ++ b)))).trans (by simp), gap ++ v,
      ⟨gap, v, hgap, by rw [htexts]; exact hv, rfl⟩, rfl⟩
    exact ⟨t, mem_ends_seq.2 ⟨_, mem_ends_lineStart.2 ⟨(atLineStart_move_iff a _).2 ha, rfl⟩, ht⟩⟩

/-- A call behind a mark stands in the line of the mark if there is no line end between them nor in
the call. -/
theorem addsInLine_iff :
    AddsInLine IsCall changes ↔ ∃ gap v, FollowsMark IsCall changes gap v ∧ '\n' ∉ gap ++ v := by
  constructor
  · rintro ⟨line, hline, gap, v, rest, hgap, hv, rfl⟩
    have hx : '\n' ∉ '+' :: (gap ++ (v ++ rest)) := not_mem_of_mem_splitOn hline
    obtain ⟨a, b, heq, ha⟩ := (exists_startsLine_iff hx).2 ⟨_, hline, List.prefix_rfl⟩
    refine ⟨gap, v, ⟨⟨a, rest ++ b, ha, by simpa using heq⟩, hgap, hv⟩, fun h => hx ?_⟩
    rw [← List.append_assoc]
    exact List.mem_cons_of_mem _ (List.mem_append_left _ h)
  · rintro ⟨gap, v, ⟨⟨a, b, ha, heq⟩, hgap, hv⟩, hnewline⟩
    have hx : '\n' ∉ '+' :: (gap ++ v) := by simpa using hnewline
    obtain ⟨line, hline, rest, hrest⟩ :=
      (exists_startsLine_iff hx).1 ⟨a, b, by simpa using heq, ha⟩
    exact ⟨line, hline, gap, v, rest, hgap, hv, by simpa using hrest.symm⟩

/-- **What counts as an update.** -/
theorem occursIn_added_iff (h : Accepts p IsCall) :
    (added p).occursIn changes = true ↔
      AddsInLine IsCall changes ∨ RunsOn IsCall changes ∨ LiesBelow IsCall changes := by
  rw [occursIn_added h, addsInLine_iff]
  constructor
  · rintro ⟨gap, v, hmark⟩
    by_cases hgap : '\n' ∈ gap
    · exact Or.inr (Or.inr ⟨gap, v, hmark, hgap⟩)
    by_cases hv : '\n' ∈ v
    · exact Or.inr (Or.inl ⟨gap, v, hmark, hgap, hv⟩)
    · exact Or.inl ⟨gap, v, hmark, by simp [hgap, hv]⟩
  · rintro (⟨gap, v, hmark, -⟩ | ⟨gap, v, hmark, -⟩ | ⟨gap, v, hmark, -⟩) <;>
      exact ⟨gap, v, hmark⟩

/-- Where a call begins in the line of its mark, that line holds the start of the call. -/
theorem FollowsMark.exists_line {gap v start : List Char} (h : FollowsMark IsCall changes gap v)
    (hgap : '\n' ∉ gap) (hstart : start <+: v) (hline : '\n' ∉ start) :
    ∃ line ∈ splitOn '\n' changes, '+' :: (gap ++ start) <+: line := by
  obtain ⟨⟨a, b, ha, rfl⟩, -, -⟩ := h
  obtain ⟨z, rfl⟩ := hstart
  have hx : '\n' ∉ '+' :: (gap ++ start) := by simp [hgap, hline]
  exact (exists_startsLine_iff hx).1 ⟨a, z ++ b, by simp, ha⟩

end

/-! ## Sessions -/

/-- Nothing is wrong if and only if the changes of every script that exists are known and nothing is
wrong with them. -/
theorem judgeAll_eq_false_iff {tree : FileTree} {r : Repository}
    {judge : Path → List Char → Printout × Bool} {files : List Path} :
    (judgeAll tree r judge files).2 = .ok false ↔
      ∀ file ∈ files, file.suffix = ".nasl" → tree.exists? file = true →
        ∃ changes, r.changes file = some changes ∧ (judge file changes).2 = false := by
  induction files with
  | nil => simp [judgeAll]
  | cons file files ih =>
      rw [judgeAll, List.forall_mem_cons, ← ih]
      by_cases hscript : file.suffix = ".nasl" ∧ tree.exists? file = true
      · have hlooked : ¬ (file.suffix != ".nasl" || !tree.exists? file) = true := by simp [hscript]
        rw [if_neg hlooked]
        cases hchanges : r.changes file with
        | none => simp [hscript]
        | some changes =>
            simp only [hscript, forall_const, Option.some.injEq, exists_eq_left']
            obtain ⟨printed, wrong⟩ := judge file changes
            obtain ⟨rest, result⟩ := judgeAll tree r judge files
            cases result with
            | error f => simp [Except.map]
            | ok others => simp [Except.map]
      · have hpassed : (file.suffix != ".nasl" || !tree.exists? file) = true := by
          simpa [or_iff_not_imp_left] using not_and.1 hscript
        rw [if_pos hpassed]
        exact (and_iff_right fun hsuffix hexists => absurd ⟨hsuffix, hexists⟩ hscript).symm

theorem judgeUpdate_eq_false_iff {file : Path} {changes : List Char} :
    (judgeUpdate file changes).2 = false ↔
      (AddsInLine IsVersionCall changes ∨ RunsOn IsVersionCall changes ∨
        LiesBelow IsVersionCall changes) ∧
      (AddsInLine IsLastModificationCall changes ∨ RunsOn IsLastModificationCall changes ∨
        LiesBelow IsLastModificationCall changes) := by
  rw [← occursIn_added_iff accepts_anyVersion, ← occursIn_added_iff accepts_anyLastModification]
  cases hversion : (added anyVersion).occursIn changes <;>
    cases hdate : (added anyLastModification).occursIn changes <;>
      simp [judgeUpdate, hversion, hdate]

/-- A session ends well if and only if its command line names files, or the changed files are known,
and nothing is wrong with them. -/
theorem session_eq_exit_zero_iff {accepts : Path → Bool}
    {judge : Path → List Char → Printout × Bool} {words : List String} {tree : FileTree}
    {r : Repository} :
    (session accepts judge words tree r).2 = .exit 0 ↔
      r.present = true ∧ ∃ s files, (command accepts).read words = .ok s ∧
        filesToCheck? s r = some files ∧ (judgeAll tree r judge files).2 = .ok false := by
  rw [session]
  cases hpresent : r.present with
  | false => simp
  | true =>
      cases hread : (command accepts).read words with
      | error refusal => simp
      | ok s =>
          cases hfiles : filesToCheck? s r with
          | none => simp [hfiles]
          | some files =>
              rcases hall : judgeAll tree r judge files with ⟨printed, result⟩
              cases result with
              | error f => simp [hfiles, hall]
              | ok wrong => cases wrong <;> simp [hfiles, hall]

/-- **When no update is missing.** In the changes of every script that exists, each of the two calls
stands in an added line, or begins in one, or stands below an added line that is blank. So it is
enough that lines are added which hold the calls, but it is not needed. -/
theorem updates_complete_iff (tree : FileTree) (r : Repository) :
    (∀ files, (judgeAll tree r judgeUpdate files).2 = .ok false ↔
      ∀ file ∈ files, file.suffix = ".nasl" → tree.exists? file = true →
        ∃ changes, r.changes file = some changes ∧
          (AddsInLine IsVersionCall changes ∨ RunsOn IsVersionCall changes ∨
            LiesBelow IsVersionCall changes) ∧
          (AddsInLine IsLastModificationCall changes ∨ RunsOn IsLastModificationCall changes ∨
            LiesBelow IsLastModificationCall changes)) ∧
    ∀ words, (findMissingUpdates words tree r).2 = .exit 0 ↔
      r.present = true ∧ ∃ s files, (command tree.isFile).read words = .ok s ∧
        filesToCheck? s r = some files ∧ (judgeAll tree r judgeUpdate files).2 = .ok false := by
  constructor
  · intro files
    rw [judgeAll_eq_false_iff]
    simp only [judgeUpdate_eq_false_iff]
  · intro words
    exact session_eq_exit_zero_iff

/-- Changes that add two empty lines, each in front of a call that is not changed. -/
def emptyLinesAdded : List Char :=
  ("diff --git a/a.nasl b/a.nasl\n--- a/a.nasl\n+++ b/a.nasl\n@@ -1,2 +1,4 @@\n" ++
    "+\n script_version(\"x\");\n" ++
    "+\n script_tag(name:\"last_modification\", value:\"y\");\n").toList

/-- No added line mentions a call, and no update is missing. -/
theorem unchanged_calls_taken_for_updates :
    let text := "\nscript_version(\"x\");\n\nscript_tag(name:\"last_modification\", value:\"y\");\n"
    let tree : FileTree := { entries := [(["a.nasl"], .file 0o644 (toLatin1 text.toList))] }
    let r : Repository := { changes := fun _ => some emptyLinesAdded }
    (findMissingUpdates ["-c", "a..b", "-f", "a.nasl"] tree r).2 = .exit 0 ∧
    (¬ AddsInLine IsVersionCall emptyLinesAdded ∧ ¬ RunsOn IsVersionCall emptyLinesAdded) ∧
    ¬ AddsInLine IsLastModificationCall emptyLinesAdded ∧
    ¬ RunsOn IsLastModificationCall emptyLinesAdded := by
  have hlines : ∀ line ∈ splitOn '\n' emptyLinesAdded, line.head? = some '+' →
      ¬ "script_".toList <:+: line := by decide +kernel
  have hnone {IsCall : List Char → Prop} (h : ∀ v, IsCall v → "script_".toList <+: v) {gap v}
      (hmark : FollowsMark IsCall emptyLinesAdded gap v) (hgap : '\n' ∉ gap) : False := by
    obtain ⟨line, hline, z, rfl⟩ := hmark.exists_line hgap (h v hmark.call) (by decide)
    exact hlines _ hline rfl ⟨'+' :: gap, z, by simp⟩
  have hno {IsCall : List Char → Prop} (h : ∀ v, IsCall v → "script_".toList <+: v) :
      ¬ AddsInLine IsCall emptyLinesAdded ∧ ¬ RunsOn IsCall emptyLinesAdded := by
    rw [addsInLine_iff]
    constructor
    · rintro ⟨gap, v, hmark, hnewline⟩
      exact hnone h hmark fun hgap => hnewline (List.mem_append_left _ hgap)
    · rintro ⟨gap, v, hmark, hgap, -⟩
      exact hnone h hmark hgap
  refine ⟨by decide +kernel, hno ?_, hno ?_⟩
  · rintro v ⟨b₁, q, value, b₂, -, -, -, -, rfl⟩
    exact ⟨"version(".toList ++ _, rfl⟩
  · rintro v ⟨name, q, b, label, value, ending, -, -, -, -, -, -, rfl⟩
    exact ⟨"tag(".toList ++ _, rfl⟩

end History

end NaslLint
