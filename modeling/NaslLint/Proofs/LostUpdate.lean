import NaslLint.Proofs.Repair
import NaslLint.Proofs.Statement

/-!
# Statements beside other repairs

The repairs that do not update the copyright statement leave it alone: a text with an outdated
statement still has one when its separators have been taken out or its dates renewed. So an update
that one of these repairs follows, made of the text before the update, is lost.
-/

namespace NaslLint.Checks

open Pattern

/-! ## Statements at the start of a line -/

/-- An outdated statement stands at the start of a line. -/
def HasStatement (t : List Char) : Prop :=
  ∃ a old b, t = a ++ (old ++ b) ∧ old ∈ outdatedTexts ∧ ∀ c ∈ a.getLast?, c = '\n'

theorem atLineStart_iff {a x : List Char} :
    ((Place.ofText (a ++ x)).move a.length).atLineStart = true ↔ ∀ c ∈ a.getLast?, c = '\n' := by
  have hprev : ((Place.ofText (a ++ x)).move a.length).prev = a.getLast? := by
    rw [Place.ofText, Place.prev_move_append, Option.or_none]
  rw [Place.atLineStart, hprev]
  cases a.getLast? <;> simp

/-- Behind the start of a line, every outdated statement is found. -/
theorem exists_fits_outdatedTexts :
    ∃ body, outdatedStatement = .seq .lineStart body ∧ ∀ old ∈ outdatedTexts, Fits body old := by
  refine ⟨_, rfl, fun old hold => ?_⟩
  rcases List.mem_append.1 hold with hlong | hshort
  · obtain ⟨letter, hletter, hlong⟩ := List.mem_flatMap.1 hlong
    obtain ⟨of_, hof, hlong⟩ := List.mem_flatMap.1 hlong
    obtain ⟨whose, hwhose, rfl⟩ := List.mem_map.1 hlong
    have hletter : among "cC" letter = true := by simpa [among] using hletter
    have hof : Fits (optional "of ") of_.toList := by
      rcases List.mem_cons.1 hof with rfl | hof
      · exact fits_optional_nil _
      · rw [List.mem_singleton.1 hof]
        exact (fits_word _).optional
    have hwhose : Fits (wordOf ["the", "their"]) whose.toList :=
      (fits_word _).oneOf (List.mem_map.2 ⟨whose, hwhose, rfl⟩)
    refine (fits_word _).chain_cons (Fits.chain_last (Fits.oneOf ?_ List.mem_cons_self))
    exact (fits_word _).chain_cons ((fits_word _).chain_cons ((fits_one hletter).chain_cons
      ((fits_word _).chain_cons (hof.chain_cons (hwhose.chain_cons (fits_word _).chain_last)))))
  · rw [List.mem_singleton.1 hshort]
    refine (fits_word _).chain_cons
      (Fits.chain_last (Fits.oneOf ?_ (List.mem_cons_of_mem _ List.mem_cons_self)))
    exact (fits_word _).chain_cons (fits_word _).chain_last

/-- A fit covers an outdated statement at the start of a line. -/
theorem statement_of_mem_ends {size : Nat} {a x : List Char} {e : Place}
    (h : e ∈ outdatedStatement.ends size ((Place.ofText (a ++ x)).move a.length)) :
    x = (((Place.ofText (a ++ x)).move a.length).spanTo e).text ++ e.rest ∧
      (((Place.ofText (a ++ x)).move a.length).spanTo e).text ∈ outdatedTexts ∧
      ∀ c ∈ a.getLast?, c = '\n' := by
  obtain ⟨body, hpattern, -⟩ := exists_fits_outdatedTexts
  have hrest := (leads_of_mem_ends h).rest_eq
  rw [Place.rest_move, Place.ofText, List.drop_left] at hrest
  refine ⟨hrest, mem_outdatedTexts (spells_of_mem_ends h), ?_⟩
  rw [hpattern, mem_ends_seq] at h
  obtain ⟨u, hu, -⟩ := h
  rw [← atLineStart_iff (x := x)]
  by_contra hno
  simp [ends, hno] at hu

/-- What the pattern finds is an outdated statement at the start of a line. -/
theorem occursIn_outdatedStatement_iff {t : List Char} :
    outdatedStatement.occursIn t = true ↔ HasStatement t := by
  obtain ⟨body, hpattern, hfits⟩ := exists_fits_outdatedTexts
  rw [occursIn_iff]
  constructor
  · rintro ⟨a, x, rfl, e, he⟩
    obtain ⟨hrest, hold, hstart⟩ := statement_of_mem_ends he
    exact ⟨a, _, e.rest, congrArg (a ++ ·) hrest, hold, hstart⟩
  · rintro ⟨a, old, b, rfl, hold, hstart⟩
    have hrest : ((Place.ofText (a ++ (old ++ b))).move a.length).rest = old ++ b := by
      rw [Place.rest_move]
      exact List.drop_left
    obtain ⟨e, he, -⟩ := hfits old hold (a ++ (old ++ b)).length _ b hrest
    refine ⟨a, _, rfl, e, ?_⟩
    rw [hpattern, mem_ends_seq]
    refine ⟨_, ?_, he⟩
    simp [ends, atLineStart_iff.2 hstart]

/-! ## Renewing the dates -/

/-- Number signs stand in one stretch of the text, which is on one line. -/
def SignsOnOneLine (v : List Char) : Prop :=
  ∃ a d c, v = a ++ (d ++ c) ∧ '#' ∉ a ∧ '\n' ∉ d ∧ '#' ∉ c

theorem not_signsOnOneLine {u m r : List Char} :
    ¬ SignsOnOneLine (u ++ '#' :: (m ++ '\n' :: '#' :: r)) := by
  rintro ⟨a, d, c, h, ha, hd, hc⟩
  -- The first sign is behind `a`, so the newline is in `d` or the second sign in `c`.
  have hbehind : ∃ x, d ++ c = x ++ '#' :: m ++ '\n' :: '#' :: r := by
    rcases List.append_eq_append_iff.1 h with ⟨y, rfl, hy⟩ | ⟨y, rfl, hy⟩
    · cases y with
      | nil => exact ⟨[], by simpa using hy.symm⟩
      | cons b y =>
          obtain ⟨rfl, -⟩ := List.cons.inj hy
          simp at ha
    · exact ⟨y, by simpa using hy⟩
  obtain ⟨x, hx⟩ := hbehind
  rcases List.append_eq_append_iff.1 hx with ⟨y, -, rfl⟩ | ⟨y, rfl, hy⟩
  · simp at hc
  · cases y with
    | nil =>
        rw [List.nil_append] at hy
        simp [← hy] at hc
    | cons b y =>
        obtain ⟨rfl, -⟩ := List.cons.inj hy
        simp at hd

/-- A call whose value stands on one line. -/
theorem signsOnOneLine_of_mem_ends {ps qs : List Pattern} {size : Nat} {s e : Place}
    (hps : ∀ p ∈ ps, p.UsesOnly (· ≠ '#') (· ≠ "value"))
    (hqs : ∀ q ∈ qs, q.UsesOnly (· ≠ '#') (· ≠ "value")) (hps' : ps ≠ []) (hqs' : qs ≠ [])
    (hgroups : s.groups = [])
    (h : e ∈ (chain (ps ++ .group "value" .line :: qs)).ends size s) :
    SignsOnOneLine (s.spanTo e).text := by
  obtain ⟨x, v, z, htext, hv, -, -, hsign⟩ :=
    Script.exists_value_of_mem_ends hps' hqs' rfl hgroups h
  obtain ⟨hx, hz⟩ := hsign '#' (List.forall_mem_append.2 ⟨hps, hqs⟩)
  refine ⟨x, v, z, htext, hx, fun hmem => ?_, hz⟩
  exact absurd (hv.2.2 '\n' hmem) (by decide)

/-- A call that no statement overlaps: it starts and ends as calls do and has its number signs on
one line. -/
structure IsOneLineCall (v : List Char) : Prop where
  opens : "script_".toList <+: v
  ends : v.getLast? = some ';'
  signs : SignsOnOneLine v

theorem isOneLineCall_of_find? {ps qs : List Pattern} {first last : String} {t : List Char}
    {m : Match} (hfirst : "script_".toList <+: first.toList)
    (hlast : last.toList.getLast? = some ';')
    (hps : ∀ p ∈ (first : Pattern) :: ps, p.UsesOnly (· ≠ '#') (· ≠ "value"))
    (hqs : ∀ q ∈ qs ++ [(last : Pattern)], q.UsesOnly (· ≠ '#') (· ≠ "value"))
    (h : (chain ((first : Pattern) :: ps ++
      .group "value" .line :: (qs ++ [(last : Pattern)]))).find? t = some m) :
    IsOneLineCall m.text := by
  obtain ⟨n, -, hm⟩ := exists_matchAt?_of_find? h
  obtain ⟨e, he, rfl⟩ := exists_mem_ends_of_matchAt? hm
  have hspells := spells_of_mem_ends he
  refine ⟨?_, ?_, signsOnOneLine_of_mem_ends hps hqs (by simp) (by simp) (Place.groups_move _ _) he⟩
  · obtain ⟨y, z, hy, -, htext⟩ :=
      (spells_chain_append (List.cons_ne_nil (first : Pattern) []) (by simp)).1 hspells
    obtain rfl := spells_word.1 hy
    exact hfirst.trans ⟨z, htext.symm⟩
  · rw [← List.cons_append, ← List.append_assoc] at hspells
    obtain ⟨y, z, -, hz, htext⟩ := (spells_chain_append (by simp) (by simp)).1 hspells
    obtain rfl := spells_word.1 hz
    show (Span.text _).getLast? = some ';'
    rw [htext, List.getLast?_append, hlast]
    rfl

section
variable {t : List Char} {m : Match}

theorem isOneLineCall_version (h : Script.anyVersion.find? t = some m) : IsOneLineCall m.text := by
  have hagain : (again "quote").UsesOnly (· ≠ '#') (· ≠ "value") := by
    show "quote" ≠ "value"
    decide
  have hquote : Script.quoteChar.UsesOnly (· ≠ '#') (· ≠ "value") :=
    Script.usesOnly_quoteChar (by decide)
  change (chain (("script_version(" : Pattern) :: [blanks, .group "quote" Script.quoteChar] ++
    .group "value" .line :: ([.again "quote", blanks] ++ [(");" : Pattern)]))).find? t = some m at h
  refine isOneLineCall_of_find? (by decide) (by decide) ?_ ?_ h
  · simp only [List.forall_mem_cons]
    exact ⟨Script.usesOnly_word (by decide), Script.usesOnly_blanks (by decide), hquote, by simp⟩
  · simp only [List.cons_append, List.nil_append, List.forall_mem_cons]
    exact ⟨hagain, Script.usesOnly_blanks (by decide), Script.usesOnly_word (by decide), by simp⟩

theorem isOneLineCall_lastModification (h : Script.anyLastModification.find? t = some m) :
    IsOneLineCall m.text := by
  have hagain (name : String) (hname : name ≠ "value") :
      (again name).UsesOnly (· ≠ '#') (· ≠ "value") := hname
  have hword {w : String} (hw : '#' ∉ w.toList) :=
    Script.usesOnly_word (N := (· ≠ "value")) hw
  have hlabel {name : String} (hname : '#' ∉ name.toList) :=
    Script.usesOnly_label (N := (· ≠ "value")) (by decide) hname (by decide)
  have hblanks := Script.usesOnly_blanks (N := (· ≠ "value")) (by decide : Text.isBlank '#' = false)
  have hquote : Script.quoteChar.UsesOnly (· ≠ '#') (· ≠ "value") :=
    Script.usesOnly_quoteChar (by decide)
  change (chain (("script_tag(" : Pattern) :: [Script.label "name", .group "quote" Script.quoteChar,
      "last_modification", .again "quote", blanks, ",", Script.label "value",
      .optional (.group "quote2" Script.quoteChar)] ++
    .group "value" .line :: ([.optional (.again "quote2"), blanks, ")", blanks] ++
      [(";" : Pattern)]))).find? t = some m at h
  refine isOneLineCall_of_find? (by decide) (by decide) ?_ ?_ h
  · simp only [List.forall_mem_cons]
    exact ⟨hword (by decide), hlabel (by decide), hquote, hword (by decide), hagain _ (by decide),
      hblanks, hword (by decide), hlabel (by decide), hquote, by simp⟩
  · simp only [List.cons_append, List.nil_append, List.forall_mem_cons]
    exact ⟨hagain "quote2" (by decide), hblanks, hword (by decide), hblanks, hword (by decide),
      by simp⟩

end

/-- The lines of a statement: a first one, and a second one that starts with a number sign as well.
There are no separators in it. -/
theorem lines_of_mem_outdatedTexts : ∀ old ∈ outdatedTexts,
    '#' :: (old.tail.takeWhile (· ≠ '\n') ++ ['\n', '#']) <+: old ∧
      ∀ c ∈ old, isSeparator c = false := by
  have hlines : ∀ old ∈ outdatedTexts,
      '#' :: (old.tail.takeWhile (· ≠ '\n') ++ ['\n', '#']) <+: old ∧
        old.any isSeparator = false := by
    decide +kernel
  intro old hold
  obtain ⟨hfirst, hclean⟩ := hlines old hold
  exact ⟨hfirst, by simpa using hclean⟩

section
variable {v new old t u : List Char}

/-- A call does not start inside a statement. -/
theorem not_prefix_of_suffix (hv : IsOneLineCall v) (hold : old ∈ outdatedTexts) {b : List Char}
    (hu : u <:+ old) (hne : u ≠ []) : ¬ v <+: u ++ b := by
  intro h
  obtain ⟨-, hlast, hcall, -⟩ := form_of_mem_outdatedTexts _ hold
  obtain ⟨z, hz⟩ := hv.opens.trans h
  rcases List.append_eq_append_iff.1 hz with ⟨as, rfl, -⟩ | ⟨bs, hbs, -⟩
  · have hinfix : "script_".toList <:+: old := (List.prefix_append _ _).isInfix.trans hu.isInfix
    exact Text.not_infix_of_contains hcall hinfix
  · have hbracket : u.getLast? = some ')' := by
      obtain ⟨w, rfl⟩ := hu
      rwa [List.getLast?_append_of_ne_nil _ hne] at hlast
    have hmem : ')' ∈ "script_".toList := by
      rw [hbs]
      exact List.mem_append_left _ (List.mem_of_getLast? hbracket)
    exact absurd hmem (by decide)

/-- A call in front of a statement does not reach into it. -/
theorem prefix_of_prefix_append_statement (hv : IsOneLineCall v) (hold : old ∈ outdatedTexts)
    {b : List Char} (h : v <+: u ++ (old ++ b)) : v <+: u := by
  obtain ⟨⟨rest, hrest⟩, hseparators⟩ := lines_of_mem_outdatedTexts _ hold
  obtain ⟨z, hz⟩ := h
  rcases List.append_eq_append_iff.1 hz with ⟨as, rfl, -⟩ | ⟨bs, hbs, hz⟩
  · exact List.prefix_append _ _
  · by_cases hne : bs = []
    · simp [hbs, hne]
    · -- The call ends behind the first line of the statement, which holds no semicolon.
      have hsemicolon : ';' ∈ bs := by
        have hends := hv.ends
        rw [hbs, List.getLast?_append_of_ne_nil _ hne] at hends
        exact List.mem_of_getLast? hends
      rw [← hrest, List.append_assoc] at hz
      rcases List.append_eq_append_iff.1 hz with ⟨cs, rfl, -⟩ | ⟨cs, hcs, -⟩
      · have hsigns := hv.signs
        rw [hbs] at hsigns
        simp only [List.cons_append, List.append_assoc, List.nil_append] at hsigns
        exact absurd hsigns not_signsOnOneLine
      · have hmem : ';' ∈ old := by
          rw [← hrest, hcs]
          simp [hsemicolon]
        exact absurd (hseparators ';' hmem) (by decide)

/-- Replacing a call leaves statements at the starts of their lines. -/
theorem HasStatement.replaceAll (h : HasStatement t) (hv : IsOneLineCall v) (new : List Char) :
    HasStatement (Text.replaceAll v new t) := by
  obtain ⟨a, old, b, rfl, hold, hstart⟩ := h
  rw [Text.replaceAll_around (fun u _ _ => prefix_of_prefix_append_statement hv hold)
    (fun u hu hne => not_prefix_of_suffix hv hold hu hne)]
  refine ⟨_, old, _, rfl, hold, ?_⟩
  rcases List.eq_nil_or_concat' a with rfl | ⟨a, c, rfl⟩
  · simp [Text.replaceAll, Text.replaceFrom]
  · obtain rfl : c = '\n' := by simpa using hstart
    rw [Text.replaceAll_concat hv.ends (by decide)]
    simp

/-- **Renewed dates.** They leave an outdated statement where it is. -/
theorem HasStatement.renewDates? {now : DateTime} {r : Repair} (h : HasStatement t)
    (hr : renewDates? now t = some r) : HasStatement r.text := by
  obtain ⟨version, modified, hversion, hmodified, htext⟩ := exists_of_renewDates? hr
  rw [htext]
  exact (h.replaceAll (isOneLineCall_version hversion) _).replaceAll
    (isOneLineCall_lastModification hmodified) _

end

/-! ## Taking out separators -/

/-- A text in which some separators have become blanks. -/
def Blanked (t u : List Char) : Prop :=
  List.Forall₂ (fun c d => d = c ∨ isSeparator c = true ∧ d = ' ') t u

namespace Blanked

variable {t u v old new : List Char}

theorem refl (t : List Char) : Blanked t t :=
  List.forall₂_same.2 fun _ _ => .inl rfl

theorem trans (htu : Blanked t u) (huv : Blanked u v) : Blanked t v := by
  induction htu generalizing v with
  | nil => exact huv
  | cons hcd _ ih =>
      cases huv with
      | cons hde huv =>
          refine .cons ?_ (ih huv)
          rcases hde with rfl | ⟨hd, rfl⟩
          · exact hcd
          · rcases hcd with rfl | ⟨hc, -⟩
            · exact .inr ⟨hd, rfl⟩
            · exact .inr ⟨hc, rfl⟩

theorem append {t' u' : List Char} (h : Blanked t u) (h' : Blanked t' u') :
    Blanked (t ++ t') (u ++ u') :=
  List.rel_append h h'

theorem exists_append {a b : List Char} (h : Blanked (a ++ b) u) :
    ∃ a' b', u = a' ++ b' ∧ Blanked a a' ∧ Blanked b b' := by
  induction a generalizing u with
  | nil => exact ⟨[], u, rfl, .nil, h⟩
  | cons c a ih =>
      cases h with
      | cons hcd h =>
          obtain ⟨a', b', rfl, ha, hb⟩ := ih h
          exact ⟨_ :: a', b', rfl, .cons hcd ha, hb⟩

theorem eq_of_clean (h : Blanked t u) (ht : ∀ c ∈ t, isSeparator c = false) : u = t := by
  induction h with
  | nil => rfl
  | cons hcd _ ih =>
      obtain ⟨hc, hrest⟩ := List.forall_mem_cons.1 ht
      rcases hcd with rfl | ⟨hsep, -⟩
      · rw [ih hrest]
      · simp [hc] at hsep

theorem blankSeparators (t : List Char) : Blanked t (blankSeparators t) := by
  refine List.forall₂_map_right_iff.2 (List.forall₂_same.2 fun c _ => ?_)
  by_cases hc : isSeparator c = true
  · exact .inr ⟨hc, if_pos hc⟩
  · exact .inl (if_neg hc)

/-- Replacing a word by its blanked form blanks the text. -/
theorem replaceFrom (h : Blanked old new) (hne : old ≠ []) (skip : Nat) (t : List Char) :
    Blanked (t.drop skip) (Text.replaceFrom old new skip t) := by
  induction t generalizing skip with
  | nil => cases skip <;> exact .nil
  | cons c t ih =>
      cases skip with
      | succ skip => exact ih skip
      | zero =>
          rw [Text.replaceFrom, List.drop_zero]
          split
          next hprefix =>
            obtain ⟨d, old, rfl⟩ := List.exists_cons_of_ne_nil hne
            rw [List.isPrefixOf_iff_prefix, List.cons_prefix_cons] at hprefix
            obtain ⟨rfl, ⟨rest, rfl⟩⟩ := hprefix
            have hrest := ih old.length
            rw [List.drop_left] at hrest
            exact h.append hrest
          next => exact .cons (.inl rfl) (ih 0)

theorem replaceAll (h : Blanked old new) (hne : old ≠ []) (t : List Char) :
    Blanked t (Text.replaceAll old new t) :=
  h.replaceFrom hne 0 t

end Blanked

section
variable {t u : List Char}

/-- A call is not empty, and its clean form is blanked. -/
theorem blanked_uncleanCalls : ∀ call ∈ uncleanCalls t, call.1 ≠ [] ∧ Blanked call.1 call.2 := by
  intro call hcall
  obtain ⟨m, hm, hclean⟩ := List.mem_filterMap.1 hcall
  obtain ⟨new, hnew, rfl⟩ := Option.map_eq_some_iff.1 hclean
  obtain ⟨n, -, hmatch⟩ := exists_matchAt?_of_mem_findAll hm
  obtain ⟨e, he, rfl⟩ := exists_mem_ends_of_matchAt? hmatch
  constructor
  · obtain ⟨y, z, hy, -, htext⟩ := spells_chain_cons.1 (spells_of_mem_ends he)
    obtain rfl := spells_word.1 hy
    show Span.text _ ≠ []
    rw [htext]
    simp
  · rw [cleanCall?] at hnew
    split at hnew
    next hany =>
      obtain rfl := Option.some.inj hnew
      refine (Blanked.blankSeparators _).replaceAll (fun hnil => ?_) _
      simp [hnil] at hany
    next => exact absurd hnew (by simp)

theorem blanked_withoutSeparators? (h : withoutSeparators? t = some u) : Blanked t u := by
  rw [withoutSeparators?] at h
  split at h
  · exact absurd h (by simp)
  · obtain rfl := Option.some.inj h
    refine List.foldlRecOn _ _ (.refl t) fun v hv call hcall => ?_
    obtain ⟨hne, hblanked⟩ := blanked_uncleanCalls call hcall
    exact hv.trans (hblanked.replaceAll hne v)

/-- **Taking out separators.** It leaves an outdated statement where it is. -/
theorem HasStatement.blanked (h : HasStatement t) (hu : Blanked t u) : HasStatement u := by
  obtain ⟨a, old, b, rfl, hold, hstart⟩ := h
  obtain ⟨a', x, rfl, ha, hx⟩ := hu.exists_append
  obtain ⟨old', b', rfl, hold', -⟩ := hx.exists_append
  obtain rfl := hold'.eq_of_clean (lines_of_mem_outdatedTexts _ hold).2
  refine ⟨a', _, b', rfl, hold, ?_⟩
  rcases List.eq_nil_or_concat' a with rfl | ⟨a, c, rfl⟩
  · cases ha
    simp
  · obtain rfl : c = '\n' := by simpa using hstart
    obtain ⟨a', x, rfl, -, hx⟩ := ha.exists_append
    rw [hx.eq_of_clean (List.forall_mem_singleton.2 (by decide))]
    simp

/-- **Only an update touches a statement.** -/
theorem HasStatement.repairOf {c : FileCheck} {now : DateTime} {r : Repair} (h : HasStatement t)
    (hc : c ∈ fileChecks) (hne : c ≠ copyrightText) (hr : c.repairOf now t = some r) :
    HasStatement r.text := by
  rcases repairOf_cases hc hr with ⟨heq, -⟩ | ⟨-, hu⟩ | ⟨-, hdates⟩
  · exact absurd heq hne
  · exact h.blanked (blanked_withoutSeparators? hu)
  · exact h.renewDates? hdates

end

end NaslLint.Checks
