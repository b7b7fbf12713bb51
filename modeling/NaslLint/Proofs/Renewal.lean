import NaslLint.Command.Renewal
import NaslLint.Proofs.WrittenDates

/-!
# Renewing the dates of a script

A script in the usual layout has one call that states its last modification and one that states its
version. Renewing replaces both and nothing else, unless the two calls stand on one line: the search
for a call takes in its line, and then takes one of the calls for a part of the other.

* `DatedScript` are the scripts in the usual layout.
* `renew_text` and `renew_adjacent` say what is made of them.
* `renews_iff` is the main statement.
-/

namespace NaslLint

open Pattern Script Text

/-! ## The two calls -/

def dateName : List Char :=
  Tag.lastModification.name.toList

def statedDate (x : List Char) : List Char :=
  tagText (quoted '"' dateName) (quoted '"' x)

def statedVersion (y : List Char) : List Char :=
  callText Call.version.word.toList (quoted '"' y)

def versionOpening : List Char :=
  "script_version".toList

/-- A value within a line, without a call in it, that can be stored. -/
structure PlainValue (x : List Char) : Prop where
  inLine : '\n' ∉ x
  uncalled : ¬ "script_".toList <:+: x
  stored : Stored x

section
variable {x y a b r v : List Char}

theorem nowhere_script_of_call {tail : List Char} (htail : ¬ "script_".toList <:+: tail) :
    Nowhere ("script_".toList <+: ·) (tail ++ [';']) y :=
  nowhere_concat (by decide) htail

theorem statedDate_ne_nil : statedDate x ≠ [] := by
  unfold statedDate tagText
  simp

theorem exists_statedDate_eq (hx : ¬ "script_".toList <:+: x) :
    ∃ tail, statedDate x = 's' :: (tail ++ [';']) ∧ ¬ "script_".toList <:+: tail := by
  refine ⟨"cript_tag(name:".toList ++ '"' :: (dateName ++ '"' :: (", value:".toList ++
    '"' :: (x ++ '"' :: [')']))), ?_, ?_⟩
  · unfold statedDate tagText quoted
    simp
  · have hquote : '"' ∉ "script_".toList := by decide
    rw [infix_append_cons_iff hquote, infix_append_cons_iff hquote, infix_append_cons_iff hquote,
      infix_append_cons_iff hquote]
    rintro (h | h | h | h | h)
    · exact not_infix_of_contains (by decide) h
    · exact not_infix_of_contains (by decide) h
    · exact not_infix_of_contains (by decide) h
    · exact hx h
    · exact not_infix_of_contains (by decide) h

theorem exists_statedVersion_eq (hy : ¬ "script_".toList <:+: y) :
    ∃ tail, statedVersion y = 's' :: (tail ++ [';']) ∧ ¬ "script_".toList <:+: tail := by
  refine ⟨"cript_version(".toList ++ '"' :: (y ++ '"' :: [')']), ?_, ?_⟩
  · unfold statedVersion callText quoted
    simp [Call.word]
  · have hquote : '"' ∉ "script_".toList := by decide
    rw [infix_append_cons_iff hquote, infix_append_cons_iff hquote]
    rintro (h | h | h)
    · exact not_infix_of_contains (by decide) h
    · exact hy h
    · exact not_infix_of_contains (by decide) h

theorem not_version_of_tag (h : tagOpening <+: v) : ¬ versionOpening <+: v := by
  intro hversion
  rcases List.prefix_or_prefix_of_prefix h hversion with hpre | hpre
  · exact absurd (List.isPrefixOf_iff_prefix.2 hpre) (by decide)
  · exact absurd (List.isPrefixOf_iff_prefix.2 hpre) (by decide)

theorem tagOpening_prefix_statedDate : tagOpening <+: statedDate x ++ r := by
  have hpre : tagOpening <+: "script_tag(name:".toList := List.isPrefixOf_iff_prefix.1 (by decide)
  unfold statedDate tagText
  rw [List.append_assoc]
  exact hpre.trans (List.prefix_append _ _)

theorem versionOpening_prefix_statedVersion : versionOpening <+: statedVersion y ++ r := by
  have hword : "script_".toList ++ Call.version.word.toList = versionOpening := by decide
  unfold statedVersion callText
  rw [← List.append_assoc, hword, List.append_assoc]
  exact List.prefix_append _ _

theorem nowhere_statedDate (hx : ¬ "script_".toList <:+: x) :
    Nowhere (versionOpening <+: ·) (statedDate x) r := by
  have hfirst := not_version_of_tag (tagOpening_prefix_statedDate (x := x) (r := r))
  obtain ⟨tail, heq, htail⟩ := exists_statedDate_eq hx
  rw [heq] at hfirst ⊢
  apply Nowhere.cons hfirst
  apply (nowhere_script_of_call htail).imp
  exact fun v h => List.IsPrefix.trans (List.isPrefixOf_iff_prefix.1 (by decide)) h

theorem nowhere_statedVersion (hy : ¬ "script_".toList <:+: y) :
    Nowhere (TagOpens dateName) (statedVersion y) r := by
  have hfirst : ¬ TagOpens dateName (statedVersion y ++ r) := by
    intro h
    exact not_version_of_tag h.script_prefix versionOpening_prefix_statedVersion
  obtain ⟨tail, heq, htail⟩ := exists_statedVersion_eq hy
  rw [heq] at hfirst ⊢
  apply Nowhere.cons hfirst
  apply (nowhere_script_of_call htail).imp
  exact fun v h => List.IsPrefix.trans (List.isPrefixOf_iff_prefix.1 (by decide)) h.script_prefix

theorem tagOpens_of_statedDate (h : statedDate x <+: v) : TagOpens dateName v := by
  refine ⟨"script_tag(name:".toList ++ ['"'], ?_, List.IsPrefix.trans ?_ h⟩
  · exact tagLead_spells (by decide)
  · unfold statedDate tagText quoted
    exact ⟨'"' :: (", value:".toList ++ ('"' :: (x ++ ['"']) ++ ");".toList)), by simp⟩

/-! ## Finding and replacing them -/

theorem exists_find?_date (hx : '\n' ∉ x) (hr : LeavesLine r)
    (ha : Nowhere (TagOpens dateName) a (statedDate x ++ r))
    (hb : Nowhere (TagOpens dateName) r []) :
    ∃ m, anyLastModification.find? (a ++ (statedDate x ++ r)) = some m ∧
      ∀ new, replaceAll m.text new (a ++ (statedDate x ++ r)) = a ++ (new ++ r) := by
  have htakes : Takes anyLastModification (statedDate x) r []
      [("value", x ++ ['"']), ("quote2", ['"']), ("quote", ['"'])] :=
    takes_tagWith (by decide : IsQuote '"') (fun _ => takes_word) rfl (by decide)
      (takes_valueAndEnd_line hx hr)
  have hbefore : ∀ u, u <:+ a → u ≠ [] →
      Refuses anyLastModification (u ++ (statedDate x ++ r)) [] := by
    intro u hu hne
    apply refuses_tagWith
    rintro n rfl
    exact ha u hu hne
  obtain ⟨m, hm, hcovers⟩ := find?_of_takes hbefore htakes
  refine ⟨m, hm, fun new => ?_⟩
  rw [hcovers.text_eq]
  exact replaceAll_once statedDate_ne_nil (ha.imp fun v => tagOpens_of_statedDate)
    (hb.imp fun v => tagOpens_of_statedDate)

theorem exists_find?_version (hy : '\n' ∉ y) (hr : LeavesLine r)
    (ha : Nowhere (versionOpening <+: ·) a (statedVersion y ++ r))
    (hb : Nowhere (versionOpening <+: ·) r []) :
    ∃ m, anyVersion.find? (a ++ (statedVersion y ++ r)) = some m ∧
      ∀ new, replaceAll m.text new (a ++ (statedVersion y ++ r)) = a ++ (new ++ r) := by
  have hbefore : ∀ u, u <:+ a → u ≠ [] → Refuses anyVersion (u ++ (statedVersion y ++ r)) [] :=
    fun u hu hne => refuses_anyVersion (ha u hu hne)
  have hopens (v : List Char) (h : statedVersion y <+: v) : versionOpening <+: v := by
    have hpre := versionOpening_prefix_statedVersion (y := y) (r := [])
    rw [List.append_nil] at hpre
    exact hpre.trans h
  obtain ⟨m, hm, hcovers⟩ := find?_of_takes hbefore (takes_anyVersion hy hr)
  refine ⟨m, hm, fun new => ?_⟩
  rw [hcovers.text_eq]
  apply replaceAll_once _ (ha.imp hopens) (hb.imp hopens)
  unfold statedVersion callText
  simp

theorem find?_version_eq_none (ha : Nowhere (versionOpening <+: ·) a []) :
    anyVersion.find? a = none := by
  rw [find?_eq_none_iff]
  intro n hn
  refine refuses_anyVersion (v := a.drop n) (g := []) ?_ _ _ (Place.rest_move n _) ?_
  · intro h
    by_cases hnil : a.drop n = []
    · rw [hnil] at h
      exact absurd (List.isPrefixOf_iff_prefix.2 h) (by decide)
    · apply ha _ (List.drop_suffix n a) hnil
      rwa [List.append_nil]
  · rw [Place.texts_move]
    rfl

/-! ## Texts around them -/

/-- Text that names neither of the two calls. -/
def Undated (x : List Char) : Prop :=
  ¬ dateName <:+: x ∧ ¬ versionOpening <:+: x

theorem Undated.nowhere_date (ha : Undated a) (hy : y = [] ∨ ['s', 'c'] <+: y) :
    Nowhere (TagOpens dateName) a y :=
  nowhere_tagOpens (inert_name .lastModification) ha.1 hy

theorem Undated.nowhere_version (ha : Undated a) (hy : y = [] ∨ ['s', 'c'] <+: y) :
    Nowhere (versionOpening <+: ·) a y :=
  nowhere_call (n := Call.version.word.toList) (by decide) ha.2 hy

/-- Side by side, the two calls look like one with a longer value. -/
theorem statedDate_append_statedVersion :
    statedDate x ++ statedVersion y = statedDate (x ++ ("\");script_version(\"".toList ++ y)) := by
  unfold statedDate statedVersion tagText callText quoted
  simp [Call.word]

theorem statedVersion_append_statedDate :
    statedVersion y ++ statedDate x =
      statedVersion (y ++ ("\");script_tag(name:\"last_modification\", value:\"".toList ++ x)) := by
  unfold statedDate statedVersion tagText callText quoted
  simp [Call.word, dateName, Tag.name]

end

/-! ## Scripts in the usual layout -/

/-- A script that states its last modification and its version once each, in either order. Behind each
of the calls the line ends, unless nothing stands there. -/
structure DatedScript where
  before : List Char
  between : List Char
  behind : List Char
  date : List Char
  version : List Char
  dateFirst : Bool
  undated : ∀ x ∈ [before, between, behind], Undated x
  leavesLine : ∀ x ∈ [between, behind], LeavesLine x
  stored : ∀ x ∈ [before, between, behind], Stored x
  plain_date : PlainValue date
  plain_version : PlainValue version

namespace DatedScript
variable {d : DatedScript} {x y : List Char} {now : DateTime}

/-- The script with other calls in the places of the two. -/
def arrange (d : DatedScript) (l s : List Char) : List Char :=
  if d.dateFirst then d.before ++ (l ++ (d.between ++ (s ++ d.behind)))
  else d.before ++ (s ++ (d.between ++ (l ++ d.behind)))

def text (d : DatedScript) : List Char :=
  d.arrange (statedDate d.date) (statedVersion d.version)

/-- The script as it should be when its dates have been renewed. -/
def renewed (d : DatedScript) (now : DateTime) : List Char :=
  d.arrange (Checks.lastModificationTag now) (Checks.versionCall now)

theorem undated_before (d : DatedScript) : Undated d.before := d.undated _ (by simp)

theorem undated_between (d : DatedScript) : Undated d.between := d.undated _ (by simp)

theorem undated_behind (d : DatedScript) : Undated d.behind := d.undated _ (by simp)

theorem leavesLine_between (d : DatedScript) : LeavesLine d.between := d.leavesLine _ (by simp)

theorem leavesLine_behind (d : DatedScript) : LeavesLine d.behind := d.leavesLine _ (by simp)

theorem pair_prefix_statedDate (x y : List Char) : ['s', 'c'] <+: statedDate x ++ y :=
  pair_prefix_tagText _ _ _

theorem pair_prefix_statedVersion (x y : List Char) : ['s', 'c'] <+: statedVersion x ++ y :=
  pair_prefix_callText _ _ _

/-- Where the first call stands: no other one of its kind opens before or behind it. -/
theorem date_place (d : DatedScript) (hy : ¬ "script_".toList <:+: y) :
    ∃ a r, (∀ l, d.arrange l (statedVersion y) = a ++ (l ++ r)) ∧
      (∀ x, Nowhere (TagOpens dateName) a (statedDate x ++ r)) ∧ Nowhere (TagOpens dateName) r [] ∧
      (d.between ≠ [] → LeavesLine r) := by
  unfold arrange
  by_cases hfirst : d.dateFirst = true
  · refine ⟨d.before, d.between ++ (statedVersion y ++ d.behind), fun l => ?_, fun x => ?_, ?_,
      fun hne => ?_⟩
    · rw [if_pos hfirst]
    · exact d.undated_before.nowhere_date (Or.inr (pair_prefix_statedDate _ _))
    · apply Nowhere.append
      · rw [List.append_nil]
        exact d.undated_between.nowhere_date (Or.inr (pair_prefix_statedVersion _ _))
      · exact (nowhere_statedVersion hy).append (d.undated_behind.nowhere_date (Or.inl rfl))
    · exact d.leavesLine_between.append hne (pair_prefix_statedVersion _ _)
  · refine ⟨d.before ++ (statedVersion y ++ d.between), d.behind, fun l => ?_, fun x => ?_, ?_,
      fun _ => d.leavesLine_behind⟩
    · rw [if_neg hfirst]
      simp only [List.append_assoc]
    · apply Nowhere.append
      · rw [List.append_assoc]
        exact d.undated_before.nowhere_date (Or.inr (pair_prefix_statedVersion _ _))
      · apply (nowhere_statedVersion hy).append
        exact d.undated_between.nowhere_date (Or.inr (pair_prefix_statedDate _ _))
    · exact d.undated_behind.nowhere_date (Or.inl rfl)

theorem version_place (d : DatedScript) (hx : ¬ "script_".toList <:+: x) :
    ∃ a r, (∀ s, d.arrange (statedDate x) s = a ++ (s ++ r)) ∧
      (∀ y, Nowhere (versionOpening <+: ·) a (statedVersion y ++ r)) ∧
      Nowhere (versionOpening <+: ·) r [] ∧ (d.between ≠ [] → LeavesLine r) := by
  unfold arrange
  by_cases hfirst : d.dateFirst = true
  · refine ⟨d.before ++ (statedDate x ++ d.between), d.behind, fun s => ?_, fun y => ?_, ?_,
      fun _ => d.leavesLine_behind⟩
    · rw [if_pos hfirst]
      simp only [List.append_assoc]
    · apply Nowhere.append
      · rw [List.append_assoc]
        exact d.undated_before.nowhere_version (Or.inr (pair_prefix_statedDate _ _))
      · apply (nowhere_statedDate hx).append
        exact d.undated_between.nowhere_version (Or.inr (pair_prefix_statedVersion _ _))
    · exact d.undated_behind.nowhere_version (Or.inl rfl)
  · refine ⟨d.before, d.between ++ (statedDate x ++ d.behind), fun s => ?_, fun y => ?_, ?_,
      fun hne => ?_⟩
    · rw [if_neg hfirst]
    · exact d.undated_before.nowhere_version (Or.inr (pair_prefix_statedVersion _ _))
    · apply Nowhere.append
      · rw [List.append_nil]
        exact d.undated_between.nowhere_version (Or.inr (pair_prefix_statedDate _ _))
      · exact (nowhere_statedDate hx).append (d.undated_behind.nowhere_version (Or.inl rfl))
    · exact d.leavesLine_between.append hne (pair_prefix_statedDate _ _)

/-! ## What renewing makes of them -/

theorem plainValue_write {f : DateFormat} (hnow : now.Regular)
    (hf : f.all (·.keepsTo fun c => c != '_' && c != '\n' && (c.toNat < 256 && c != '\r')) = true) :
    PlainValue (f.write now) := by
  have hchars := DateFormat.forall_mem_write hnow (by decide) hf
  refine ⟨fun h => ?_, fun h => ?_, fun c hc => ?_⟩
  · exact absurd (hchars _ h) (by decide)
  · exact absurd (hchars '_' (h.subset (by decide))) (by decide)
  · have hchar := hchars c hc
    simp only [Bool.and_eq_true, decide_eq_true_eq, bne_iff_ne] at hchar
    exact hchar.2

def restated (d : DatedScript) (x y : List Char) (hx : PlainValue x) (hy : PlainValue y) :
    DatedScript :=
  { d with date := x, version := y, plain_date := hx, plain_version := hy }

theorem text_restated (hx : PlainValue x) (hy : PlainValue y) :
    (d.restated x y hx hy).text = d.arrange (statedDate x) (statedVersion y) := rfl

theorem lastModificationTag_eq_statedDate :
    Checks.lastModificationTag now = statedDate (DateFormat.stamp.write now) :=
  lastModificationTag_eq now

theorem versionCall_eq_statedVersion :
    Checks.versionCall now = statedVersion (DateFormat.version.write now) :=
  versionCall_eq now

theorem exists_find?_of_between (d : DatedScript) (hne : d.between ≠ []) :
    (∃ m, anyLastModification.find? d.text = some m ∧ ∀ new, replaceAll m.text new d.text =
      d.arrange new (statedVersion d.version)) ∧
    ∃ m, anyVersion.find? d.text = some m ∧ ∀ new, replaceAll m.text new d.text =
      d.arrange (statedDate d.date) new := by
  constructor
  · obtain ⟨a, r, harrange, ha, hr, hline⟩ := d.date_place d.plain_version.uncalled
    obtain ⟨m, hm, hreplace⟩ := exists_find?_date d.plain_date.inLine (hline hne) (ha _) hr
    rw [text, harrange]
    exact ⟨m, hm, fun new => (hreplace new).trans (harrange new).symm⟩
  · obtain ⟨a, r, harrange, ha, hr, hline⟩ := d.version_place d.plain_date.uncalled
    obtain ⟨m, hm, hreplace⟩ := exists_find?_version d.plain_version.inLine (hline hne) (ha _) hr
    rw [text, harrange]
    exact ⟨m, hm, fun new => (hreplace new).trans (harrange new).symm⟩

theorem plainValue_stamp (hnow : now.Regular) : PlainValue (DateFormat.stamp.write now) :=
  plainValue_write hnow (by decide)

theorem plainValue_version (hnow : now.Regular) : PlainValue (DateFormat.version.write now) :=
  plainValue_write hnow (by decide)

def redated (d : DatedScript) (now : DateTime) (hnow : now.Regular) : DatedScript :=
  d.restated _ _ (plainValue_stamp hnow) (plainValue_version hnow)

theorem text_redated (hnow : now.Regular) : (d.redated now hnow).text = d.renewed now := by
  rw [redated, text_restated, renewed, lastModificationTag_eq_statedDate,
    versionCall_eq_statedVersion]

/-- **Both calls are renewed,** and nothing else, if there is text between them. -/
theorem renew_text (hnow : now.Regular) (hne : d.between ≠ []) :
    Renewal.renew now d.text = .ok (d.renewed now) := by
  obtain ⟨⟨m, hm, hdate⟩, -⟩ := d.exists_find?_of_between hne
  -- the version is looked for when the date has been replaced
  obtain ⟨-, m', hm', hversion⟩ := (d.restated _ _ (plainValue_stamp hnow)
    d.plain_version).exists_find?_of_between hne
  rw [text_restated, ← lastModificationTag_eq_statedDate] at hm' hversion
  simp only [Renewal.renew, hm, hdate, hm', hversion]
  rw [renewed, lastModificationTag_eq_statedDate]
  rfl

/-- On one line, the date takes in the version behind it, and then there is no version. -/
theorem renew_of_date_adjacent (hnow : now.Regular) (hnil : d.between = [])
    (hfirst : d.dateFirst = true) : Renewal.renew now d.text = .error .version := by
  have htext : d.text = d.before ++ (statedDate (d.date ++
      ("\");script_version(\"".toList ++ d.version)) ++ d.behind) := by
    rw [text, arrange, if_pos hfirst, hnil, ← statedDate_append_statedVersion]
    simp only [List.nil_append, List.append_assoc]
  have hline : '\n' ∉ d.date ++ ("\");script_version(\"".toList ++ d.version) := by
    simp [d.plain_date.inLine, d.plain_version.inLine]
  obtain ⟨m, hm, hreplace⟩ := exists_find?_date hline d.leavesLine_behind
    (d.undated_before.nowhere_date (Or.inr (pair_prefix_statedDate _ _)))
    (d.undated_behind.nowhere_date (Or.inl rfl))
  have hnone :
      anyVersion.find? (d.before ++ (Checks.lastModificationTag now ++ d.behind)) = none := by
    rw [lastModificationTag_eq_statedDate]
    apply find?_version_eq_none
    apply Nowhere.append
    · exact d.undated_before.nowhere_version (Or.inr (by
        rw [List.append_nil]; exact pair_prefix_statedDate _ _))
    · apply (nowhere_statedDate (plainValue_stamp hnow).uncalled).append
      exact d.undated_behind.nowhere_version (Or.inl rfl)
  rw [htext]
  simp only [Renewal.renew, hm, hreplace, hnone]

/-- On one line, the version takes in the date behind it. -/
theorem renew_of_version_adjacent (hnow : now.Regular) (hnil : d.between = [])
    (hfirst : d.dateFirst = false) :
    Renewal.renew now d.text = .ok (d.before ++ (Checks.versionCall now ++ d.behind)) := by
  have htext : d.text = (d.before ++ statedVersion d.version) ++ (statedDate d.date ++ d.behind) := by
    rw [text, arrange, hfirst, hnil]
    simp
  obtain ⟨m, hm, hreplace⟩ := exists_find?_date d.plain_date.inLine d.leavesLine_behind
    ((d.undated_before.nowhere_date (Or.inr (pair_prefix_statedVersion _ _))).append
      (nowhere_statedVersion d.plain_version.uncalled))
    (d.undated_behind.nowhere_date (Or.inl rfl))
  have hline : '\n' ∉ d.version ++ ("\");script_tag(name:\"last_modification\", value:\"".toList ++
      DateFormat.stamp.write now) := by
    simp [(plainValue_stamp hnow).inLine, d.plain_version.inLine]
  obtain ⟨m', hm', hreplace'⟩ := exists_find?_version hline d.leavesLine_behind
    (d.undated_before.nowhere_version (Or.inr (pair_prefix_statedVersion _ _)))
    (d.undated_behind.nowhere_version (Or.inl rfl))
  rw [← statedVersion_append_statedDate, ← lastModificationTag_eq_statedDate,
    List.append_assoc, ← List.append_assoc d.before] at hm' hreplace'
  rw [htext]
  simp only [Renewal.renew, hm, hreplace, hm', hreplace']

/-- What has been renewed passes the strict patterns. -/
theorem versionRemarks_renewed (hnow : now.Regular) (hne : d.between ≠ []) :
    Checks.versionRemarks (d.renewed now) = [] := by
  rw [← text_redated hnow]
  obtain ⟨⟨_, hdate, -⟩, _, hversion, -⟩ := (d.redated now hnow).exists_find?_of_between hne
  have hstrictDate : Tag.lastModification.pattern.occursIn (d.redated now hnow).text = true := by
    obtain ⟨a, r, harrange, ha, -, -⟩ := (d.redated now hnow).date_place
      (d.redated now hnow).plain_version.uncalled
    obtain ⟨m, hm, -⟩ := find?_tag (t := .lastModification) (by decide : IsQuote '"')
      (by decide : IsQuote '"') (ha _) (fun _ => takes_dateValue hnow)
    rw [text, harrange]
    exact occursIn_of_find? hm
  have hstrictVersion : Call.version.pattern.occursIn (d.redated now hnow).text = true := by
    obtain ⟨a, r, harrange, ha, -, -⟩ := (d.redated now hnow).version_place
      (d.redated now hnow).plain_date.uncalled
    obtain ⟨m, hm, -⟩ := find?_call (c := .version) (by decide : IsQuote '"') (ha _)
      (fun _ => takes_versionValue hnow)
    rw [text, harrange]
    exact occursIn_of_find? hm
  simp only [Checks.versionRemarks, Checks.versionWellFormed, Checks.lastModificationWellFormed,
    hstrictDate, hstrictVersion, occursIn_of_find? hdate, occursIn_of_find? hversion]
  rfl

/-! ## Files -/

theorem stored_arrange {l s : List Char} (hl : Stored l) (hs : Stored s) :
    Stored (d.arrange l s) := by
  have hbefore : Stored d.before := d.stored _ (by simp)
  have hbetween : Stored d.between := d.stored _ (by simp)
  have hbehind : Stored d.behind := d.stored _ (by simp)
  unfold arrange
  split
  · exact hbefore.append (hl.append (hbetween.append (hs.append hbehind)))
  · exact hbefore.append (hs.append (hbetween.append (hl.append hbehind)))

theorem stored_renewed (d : DatedScript) (now : DateTime) : Stored (d.renewed now) :=
  stored_arrange (stored_lastModificationTag now) (stored_versionCall now)

theorem stored_text (d : DatedScript) : Stored d.text := by
  have hquoted {x : List Char} (hx : Stored x) : Stored (quoted '"' x) :=
    Stored.append (t := ['"']) (by decide) (hx.append (by decide))
  apply stored_arrange
  · unfold statedDate tagText
    exact Stored.append (by decide) (Stored.append (by decide) (Stored.append (by decide)
      ((hquoted d.plain_date.stored).append (by decide))))
  · unfold statedVersion callText
    exact Stored.append (by decide) (Stored.append (by decide) (Stored.append (by decide)
      ((hquoted d.plain_version.stored).append (by decide))))

section
variable {s : ReportState} {file : Path} {l : Location} {mode : Nat} {t u : List Char}

theorem renewFile_of_ok (hfile : file.suffix = ".nasl") (hlocate : s.tree.locate file = .ok l)
    (hhas : s.tree.HasFile l mode (toLatin1 t)) (ht : Stored t)
    (hrenew : Renewal.renew now t = .ok u) :
    (Renewal.renewFile now file s).2 = none ∧
      (Renewal.renewFile now file s).1.tree = s.tree.rewrite l mode (toLatin1 u) := by
  have hread : s.tree.readText file = .ok t :=
    FileTree.readText_eq_ok_iff.2 ⟨_, hhas.readBytes_of_locate hlocate, ht.read_write⟩
  have hwrite : s.tree.write file (toLatin1 u) = .ok (s.tree.rewrite l mode (toLatin1 u)) :=
    hhas.write_eq hlocate
  simp [Renewal.renewFile, hfile, ReportState.tell, hread, hrenew, hwrite]

theorem tree_renewFile_of_error (hfile : file.suffix = ".nasl")
    (hread : s.tree.readText file = .ok t) {lack : Renewal.Lack}
    (hrenew : Renewal.renew now t = .error lack) :
    (Renewal.renewFile now file s).1.tree = s.tree := by
  simp [Renewal.renewFile, hfile, ReportState.tell, hread, hrenew]

end

/-- What renewing a script at one time, and then at another one, should come to: the first renewal
writes both calls anew and nothing else, the check of them has no remark, and the second one leaves no
trace of the first. -/
structure Renews (d : DatedScript) (root file : Path) (s : ReportState) (w : Surroundings)
    (now later : DateTime) : Prop where
  unfailing : (Renewal.renewFile now file s).2 = none
  written : s.tree.write file (toLatin1 (d.renewed now)) = .ok (Renewal.renewFile now file s).1.tree
  unremarked : Checks.versionAndLastModification.findings
    (.ofTree (Renewal.renewFile now file s).1.tree root file) w = .done []
  overwritten : (Renewal.renewFile later file (Renewal.renewFile now file s).1).1.tree =
    (Renewal.renewFile later file s).1.tree

section
variable {root file : Path} {s : ReportState} {w : Surroundings} {later : DateTime}

theorem renews_of_between (hfile : file.suffix = ".nasl")
    (hread : s.tree.readBytes file = .ok (toLatin1 d.text)) (hne : d.between ≠ [])
    (hnow : now.Regular) (hlater : later.Regular) : d.Renews root file s w now later := by
  obtain ⟨l, mode, hlocate, hhas⟩ := FileTree.exists_hasFile_of_readBytes hread
  obtain ⟨hfault, htree⟩ :=
    renewFile_of_ok hfile hlocate hhas d.stored_text (renew_text hnow hne)
  have hlocate' : (Renewal.renewFile now file s).1.tree.locate file = .ok l := by
    rw [htree, hhas.locate_rewrite, hlocate]
  have hhas' : (Renewal.renewFile now file s).1.tree.HasFile l mode
      (toLatin1 (d.redated now hnow).text) := by
    rw [htree, text_redated]
    exact hhas.rewrite
  have htext : (Renewal.renewFile now file s).1.tree.readText file = .ok (d.renewed now) := by
    rw [← text_redated hnow]
    exact FileTree.readText_eq_ok_iff.2
      ⟨_, hhas'.readBytes_of_locate hlocate', (d.redated now hnow).stored_text.read_write⟩
  refine ⟨hfault, ?_, ?_, ?_⟩
  · rw [htree]
    exact hhas.write_eq hlocate
  · rw [FileCheck.findings]
    have hrun : Checks.versionAndLastModification.run
        (.ofTree (Renewal.renewFile now file s).1.tree root file) w = .done [] :=
      onScript_eq_done_nil (text_ofTree htext) (versionRemarks_renewed hnow hne)
    rw [hrun]
    rfl
  · have hsecond := (renewFile_of_ok hfile hlocate' hhas' (d.redated now hnow).stored_text
      (renew_text hlater hne)).2
    have honly := (renewFile_of_ok hfile hlocate hhas d.stored_text (renew_text hlater hne)).2
    rw [hsecond, honly, htree, FileTree.rewrite_rewrite]
    rfl

/-- What has been written is read afterwards. -/
theorem Renews.readBytes (h : d.Renews root file s w now later) {bytes : Bytes}
    (hread : s.tree.readBytes file = .ok bytes) :
    (Renewal.renewFile now file s).1.tree.readBytes file = .ok (toLatin1 (d.renewed now)) := by
  obtain ⟨l, mode, hlocate, hhas⟩ := FileTree.exists_hasFile_of_readBytes hread
  have hwritten := h.written
  rw [hhas.write_eq hlocate] at hwritten
  rw [← Except.ok.inj hwritten]
  exact hhas.rewrite.readBytes_of_locate (by rw [hhas.locate_rewrite, hlocate])

def earlyDay (day : Nat) : DateTime :=
  ⟨⟨1000, 1, day⟩, 0, 0, 0⟩

/-- With the date first, nothing is written; so the script would already have to state each time at
which it is renewed. -/
theorem not_renews_of_date_adjacent (hfile : file.suffix = ".nasl")
    (hread : s.tree.readBytes file = .ok (toLatin1 d.text)) (hnil : d.between = [])
    (hfirst : d.dateFirst = true)
    (h : ∀ now later : DateTime, now.Regular → later.Regular → d.Renews root file s w now later) :
    False := by
  have htext : s.tree.readText file = .ok d.text :=
    FileTree.readText_eq_ok_iff.2 ⟨_, hread, d.stored_text.read_write⟩
  have hstated {now : DateTime} (hnow : now.Regular) : d.text = d.renewed now := by
    have hafter := (h now now hnow hnow).readBytes hread
    rw [tree_renewFile_of_error hfile htext (renew_of_date_adjacent hnow hnil hfirst), hread]
      at hafter
    exact (toLatin1_inj d.stored_text (d.stored_renewed now)).1 (Except.ok.inj hafter)
  have hsame : d.renewed (earlyDay 1) = d.renewed (earlyDay 2) :=
    (hstated ⟨by decide, by decide, by decide, by decide, by decide⟩).symm.trans
      (hstated ⟨by decide, by decide, by decide, by decide, by decide⟩)
  rw [renewed, renewed, arrange, arrange, if_pos hfirst, if_pos hfirst] at hsame
  have htags : Checks.lastModificationTag (earlyDay 1) = Checks.lastModificationTag (earlyDay 2) :=
    List.append_inj_left (List.append_cancel_left hsame) (by decide)
  exact absurd htags (by decide)

/-- With the version first, the date is lost. -/
theorem not_renews_of_version_adjacent (hfile : file.suffix = ".nasl")
    (hread : s.tree.readBytes file = .ok (toLatin1 d.text)) (hnil : d.between = [])
    (hfirst : d.dateFirst = false) (hnow : now.Regular) :
    ¬ d.Renews root file s w now later := by
  intro h
  obtain ⟨l, mode, hlocate, hhas⟩ := FileTree.exists_hasFile_of_readBytes hread
  have hafter := h.readBytes hread
  rw [(renewFile_of_ok hfile hlocate hhas d.stored_text
      (renew_of_version_adjacent hnow hnil hfirst)).2,
    hhas.rewrite.readBytes_of_locate (by rw [hhas.locate_rewrite, hlocate])] at hafter
  have hstored : Stored (d.before ++ (Checks.versionCall now ++ d.behind)) :=
    Stored.append (d.stored _ (by simp))
      ((stored_versionCall now).append (d.stored _ (by simp)))
  have hsame := (toLatin1_inj hstored (d.stored_renewed now)).1 (Except.ok.inj hafter)
  have hpos : 0 < (Checks.lastModificationTag now).length := by
    rw [lastModificationTag_eq_statedDate]
    exact List.length_pos_iff.2 statedDate_ne_nil
  have hlength := congrArg List.length hsame
  rw [renewed, arrange, hfirst, hnil] at hlength
  simp only [Bool.false_eq_true, if_false, List.nil_append, List.length_append] at hlength
  omega

/-- **Renewing the dates of a script.** A script in the usual layout is renewed as it should be, at
all times, exactly if there is text between the two calls. -/
theorem renews_iff (hfile : file.suffix = ".nasl")
    (hread : s.tree.readBytes file = .ok (toLatin1 d.text)) (root : Path) (w : Surroundings) :
    (∀ now later : DateTime, now.Regular → later.Regular → d.Renews root file s w now later) ↔
      d.between ≠ [] := by
  constructor
  · intro h hnil
    cases hfirst : d.dateFirst with
    | true => exact not_renews_of_date_adjacent hfile hread hnil hfirst h
    | false =>
        have hday : (earlyDay 1).Regular := ⟨by decide, by decide, by decide, by decide, by decide⟩
        exact not_renews_of_version_adjacent hfile hread hnil hfirst hday (h _ _ hday hday)
  · intro hne now later hnow hlater
    exact renews_of_between hfile hread hne hnow hlater

end

/-- A script that is nothing but its two calls, the version first, with some text between them. -/
def sample (between : List Char) (hundated : Undated between) (hline : LeavesLine between)
    (hstored : Stored between) : DatedScript where
  before := []
  between := between
  behind := ['\n']
  date := ['x']
  version := ['y']
  dateFirst := false
  undated := by
    have hnone {x : List Char} (hx : x.length ≤ 1) : Undated x := by
      constructor <;> intro h
      · exact absurd (Nat.le_trans h.length_le hx) (by decide)
      · exact absurd (Nat.le_trans h.length_le hx) (by decide)
    intro x hx
    rcases List.mem_cons.1 hx with rfl | hx
    · exact hnone (by decide)
    rcases List.mem_cons.1 hx with rfl | hx
    · exact hundated
    · obtain rfl := List.mem_singleton.1 hx
      exact hnone (by decide)
  leavesLine := by
    have hend : LeavesLine ['\n'] := ⟨by simp, by decide⟩
    exact List.forall_mem_cons.2 ⟨hline, List.forall_mem_singleton.2 hend⟩
  stored := List.forall_mem_cons.2 ⟨by decide, List.forall_mem_cons.2
    ⟨hstored, List.forall_mem_singleton.2 (by decide)⟩⟩
  plain_date := ⟨by decide, not_infix_of_contains (by decide), by decide⟩
  plain_version := ⟨by decide, not_infix_of_contains (by decide), by decide⟩

def twoLines : DatedScript :=
  sample ['\n'] ⟨not_infix_of_contains (by decide), not_infix_of_contains (by decide)⟩
    ⟨by simp, by decide⟩ (by decide)

def oneLine : DatedScript :=
  sample [] ⟨not_infix_of_contains (by decide), not_infix_of_contains (by decide)⟩
    ⟨by simp, by decide⟩ (by decide)

def holding (d : DatedScript) : ReportState :=
  { tree := { entries := [(["a.nasl"], .file 0o644 (toLatin1 d.text))] } }

def samplePath : Path :=
  ⟨"/", ["a.nasl"]⟩

theorem renews_twoLines :
    samplePath.suffix = ".nasl" ∧
      (holding twoLines).tree.readBytes samplePath = .ok (toLatin1 twoLines.text) ∧
      twoLines.between ≠ [] ∧
      twoLines.Renews ⟨"/", []⟩ samplePath (holding twoLines) { tree := .empty, now := default }
        ⟨⟨2022, 8, 15⟩, 12, 0, 0⟩ ⟨⟨2024, 2, 29⟩, 23, 59, 59⟩ := by
  have hread : (holding twoLines).tree.readBytes samplePath = .ok (toLatin1 twoLines.text) := rfl
  have hbetween : twoLines.between ≠ [] := by decide
  refine ⟨by decide, hread, hbetween, ?_⟩
  apply (renews_iff (by decide) hread _ _).2 hbetween
  · exact ⟨by decide, by decide, by decide, by decide, by decide⟩
  · exact ⟨by decide, by decide, by decide, by decide, by decide⟩

/-- On one line the date is gone after the renewal. -/
theorem oneLine_loses_date :
    oneLine.text = "script_version(\"y\");script_tag(name:\"last_modification\", value:\"x\");\n".toList ∧
      (Renewal.renewFile ⟨⟨2022, 8, 15⟩, 12, 0, 0⟩ samplePath (holding oneLine)).1.tree.readBytes
        samplePath = .ok (toLatin1 "script_version(\"2022-08-15T12:00:00+0000\");\n".toList) := by
  have hnow : (⟨⟨2022, 8, 15⟩, 12, 0, 0⟩ : DateTime).Regular :=
    ⟨by decide, by decide, by decide, by decide, by decide⟩
  have hread : (holding oneLine).tree.readBytes samplePath = .ok (toLatin1 oneLine.text) := rfl
  obtain ⟨l, mode, hlocate, hhas⟩ := FileTree.exists_hasFile_of_readBytes hread
  have hwritten : oneLine.before ++ (Checks.versionCall ⟨⟨2022, 8, 15⟩, 12, 0, 0⟩ ++ oneLine.behind) =
      "script_version(\"2022-08-15T12:00:00+0000\");\n".toList := by
    decide
  refine ⟨by decide, ?_⟩
  rw [(renewFile_of_ok (by decide) hlocate hhas oneLine.stored_text
    (renew_of_version_adjacent hnow rfl rfl)).2, hwritten]
  exact hhas.rewrite.readBytes_of_locate (by rw [hhas.locate_rewrite, hlocate])

end DatedScript

end NaslLint
