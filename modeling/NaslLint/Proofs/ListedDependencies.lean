import NaslLint.Proofs.MissingDependencies
import NaslLint.Proofs.Path
import NaslLint.Proofs.Pattern.All

/-!
# Dependencies as they are listed

A call lists the names of scripts, each in quotes, with a comma and perhaps blanks between two of
them. This module writes such calls and reads them back.

* `Checks.dependencies_of_oneLine`: of a list within a line every name is read.
* `Checks.dependencies_of_lineBreak`: of a list with a line break in it no name is read, for the
  value of a call ends with its line.
* `Checks.listed_dependencies_reported_iff`: so a missing dependency is reported exactly if the list
  that names it stands in one line.
-/

namespace NaslLint

/-! ## Characters of names -/

namespace Text

theorem exists_range_of_inRanges {ranges : List (Nat × Nat)} {n : Nat}
    (h : inRanges ranges n = true) : ∃ r ∈ ranges, r.1 ≤ n ∧ n ≤ r.2 := by
  induction ranges with
  | nil => exact absurd h Bool.false_ne_true
  | cons r more ih =>
      rw [inRanges] at h
      by_cases hlo : n < r.1
      · simp [hlo] at h
      · by_cases hhi : n ≤ r.2
        · exact ⟨r, List.mem_cons_self, Nat.le_of_not_lt hlo, hhi⟩
        · obtain ⟨r', hr', hn⟩ := ih (by simpa [hlo, hhi] using h)
          exact ⟨r', List.mem_cons_of_mem _ hr', hn⟩

theorem isBlank_eq_false_of_isWord {c : Char} (h : isWord c = true) : isBlank c = false := by
  rw [← Bool.not_eq_true]
  intro hblank
  obtain ⟨r, hr, hlo, hhi⟩ := exists_range_of_inRanges h
  obtain ⟨r', hr', hlo', hhi'⟩ := exists_range_of_inRanges hblank
  have hapart : ∀ r ∈ wordRanges, ∀ r' ∈ blankRanges, r.2 < r'.1 ∨ r'.2 < r.1 := by
    decide +kernel
  rcases hapart r hr r' hr' with hlt | hlt <;> omega

/-- A word does not reach into a text that does not hold its last character. -/
theorem infix_of_infix_append {c : Char} {w x y : List Char} (hc : c ∉ y)
    (h : w ++ [c] <:+: x ++ y) : w ++ [c] <:+: x := by
  rcases List.infix_append_iff.1 h with hx | hy | ⟨l, r, hword, hl, hr⟩
  · exact hx
  · exact absurd (hy.subset (by simp)) hc
  · rcases List.eq_nil_or_concat r with rfl | ⟨r, d, rfl⟩
    · rw [hword, List.append_nil]
      exact hl.isInfix
    · rw [List.concat_eq_append, ← List.append_assoc] at hword
      obtain ⟨-, hcd⟩ := List.append_inj' hword rfl
      obtain rfl := List.cons.inj hcd |>.1
      exact absurd (hr.subset (by simp)) hc

end Text

namespace Checks

open Pattern Script Text

/-- A letter, digit or number of any script, or one of the marks `_`, `-`, `.` and `/`. -/
def isNameChar (c : Char) : Bool :=
  Text.isWord c || among "-./" c

structure IsScriptName (dep : String) : Prop where
  chars : ∀ c ∈ dep.toList, isNameChar c = true
  ending : ".nasl".toList <:+ dep.toList

theorem isBlank_eq_false_of_isNameChar {c : Char} (h : isNameChar c = true) :
    Text.isBlank c = false := by
  rcases Bool.or_eq_true_iff.1 h with hword | hmark
  · exact isBlank_eq_false_of_isWord hword
  · have hall : ("-./".toList.all fun c => !Text.isBlank c) = true := by decide
    simpa using List.all_eq_true.1 hall c (List.contains_iff_mem.1 hmark)

/-- The marks that stand around names do not stand in them. -/
theorem isNameChar_eq_false {c : Char} (hc : c ∈ "\"',()+".toList) : isNameChar c = false := by
  have hall : ("\"',()+".toList.all fun c => !isNameChar c) = true := by decide +kernel
  simpa using List.all_eq_true.1 hall c hc

namespace IsScriptName
variable {dep : String}

theorem mem_of_ending (h : IsScriptName dep) {c : Char} (hc : c ∈ ".nasl".toList) :
    c ∈ dep.toList :=
  h.ending.subset hc

theorem not_mem (h : IsScriptName dep) {c : Char} (hc : c ∈ "\"',()+".toList) : c ∉ dep.toList := by
  intro hmem
  have hchar := h.chars c hmem
  rw [isNameChar_eq_false hc] at hchar
  exact absurd hchar Bool.false_ne_true

theorem parts_ne_nil (h : IsScriptName dep) : (Path.ofString dep).parts ≠ [] :=
  Path.parts_ofString_ne_nil (h.mem_of_ending (c := 'n') (by decide)) (by decide) (by decide)

end IsScriptName

/-! ## Lists of names -/

/-- Names in quotes, each but the first with a comma and what stands behind it in front. -/
def listing (first : String) (more : List (List Char × String)) : List Char :=
  quoted '"' first.toList ++ more.flatMap fun e => ',' :: (e.1 ++ quoted '"' e.2.toList)

def listed (first : String) (more : List (List Char × String)) : List String :=
  first :: more.map Prod.snd

/-- The names are names of scripts, and nothing but blanks stands behind the commas. -/
structure IsListing (first : String) (more : List (List Char × String)) : Prop where
  gaps : ∀ e ∈ more, ∀ c ∈ e.1, Text.isBlank c = true
  names : ∀ dep ∈ listed first more, IsScriptName dep

section
variable {first : String} {more : List (List Char × String)} {e : List Char × String}

theorem listing_cons : listing first (e :: more) =
    quoted '"' first.toList ++ ',' :: (e.1 ++ listing e.2 more) := by
  simp [listing]

/-- Other than the quotes and the commas, a list has the characters of its gaps and its names. -/
theorem mem_listing_iff {c : Char} (hquote : c ≠ '"') (hcomma : c ≠ ',') :
    c ∈ listing first more ↔
      (∃ e ∈ more, c ∈ e.1) ∨ ∃ dep ∈ listed first more, c ∈ dep.toList := by
  simp only [listing, quoted, listed, List.mem_append, List.mem_cons, List.mem_flatMap, hquote,
    hcomma, List.not_mem_nil, or_false, false_or, List.mem_map, exists_eq_or_imp,
    exists_exists_and_eq_and]
  constructor
  · rintro (hfirst | ⟨e, he, hgap | hname⟩)
    · exact Or.inr (Or.inl hfirst)
    · exact Or.inl ⟨e, he, hgap⟩
    · exact Or.inr (Or.inr ⟨e, he, hname⟩)
  · rintro (⟨e, he, hgap⟩ | hfirst | ⟨e, he, hname⟩)
    · exact Or.inr ⟨e, he, Or.inl hgap⟩
    · exact Or.inl hfirst
    · exact Or.inr ⟨e, he, Or.inr hname⟩

/-- A list is a text in quotes, in which the names are divided by quotes and commas. -/
theorem exists_quoted_eq_listing (first : String) (more : List (List Char × String)) :
    ∃ v, listing first more = quoted '"' (first.toList ++ v) := by
  induction more generalizing first with
  | nil => exact ⟨[], by simp [listing]⟩
  | cons e more ih =>
      obtain ⟨v, hv⟩ := ih e.2
      refine ⟨'"' :: ',' :: (e.1 ++ '"' :: (e.2.toList ++ v)), ?_⟩
      rw [listing_cons, hv]
      simp [quoted]

/-! ## Reading a list -/

/-- **Commas divide names.** -/
theorem dependencyNames_append_comma (x y : List Char) :
    dependencyNames (x ++ ',' :: y) = dependencyNames x ++ dependencyNames y := by
  unfold dependencyNames
  rw [List.filter_append, List.filter_cons_of_pos (by decide), Text.splitOn_append_cons,
    List.map_append]

/-- Quotes around names do not count. -/
theorem dependencyNames_quoted (x : List Char) :
    dependencyNames (quoted '"' x) = dependencyNames x := by
  unfold dependencyNames quoted
  rw [List.filter_cons_of_neg (by decide), List.filter_append, List.filter_cons_of_neg (by decide),
    List.filter_nil, List.append_nil]

theorem dependencyNames_name {gap : List Char} {dep : String}
    (hgap : ∀ c ∈ gap, Text.isBlank c = true) (hdep : IsScriptName dep) :
    dependencyNames (gap ++ quoted '"' dep.toList) = [dep] := by
  have hkeep : ∀ c ∈ dep.toList, (!(c == '\'' || c == '"' || Text.isBlank c)) = true := by
    intro c hc
    have hapostrophe : c ≠ '\'' := fun h => hdep.not_mem (by decide) (h ▸ hc)
    have hquote : c ≠ '"' := fun h => hdep.not_mem (by decide) (h ▸ hc)
    simp [hapostrophe, hquote, isBlank_eq_false_of_isNameChar (hdep.chars c hc)]
  have hdrop : ∀ c ∈ gap, ¬ (!(c == '\'' || c == '"' || Text.isBlank c)) = true := by
    intro c hc
    simp [hgap c hc]
  have hfilter : (gap ++ quoted '"' dep.toList).filter
      (fun c => !(c == '\'' || c == '"' || Text.isBlank c)) = dep.toList := by
    rw [List.filter_append, List.filter_eq_nil_iff.2 hdrop, List.nil_append, quoted,
      List.filter_cons_of_neg (by decide), List.filter_append, List.filter_eq_self.2 hkeep,
      List.filter_cons_of_neg (by decide), List.filter_nil, List.append_nil]
  rw [dependencyNames, hfilter, Text.splitOn_eq,
    List.splitOn_eq_singleton (hdep.not_mem (by decide)), List.map_singleton, String.ofList_toList]

/-- The names of a list are read in their order. -/
theorem dependencyNames_listing (gap : List Char) (hgap : ∀ c ∈ gap, Text.isBlank c = true)
    (hlist : IsListing first more) :
    dependencyNames (gap ++ listing first more) = listed first more := by
  induction more generalizing gap first with
  | nil =>
      rw [listing, List.flatMap_nil, List.append_nil]
      exact dependencyNames_name hgap (hlist.names first List.mem_cons_self)
  | cons e more ih =>
      obtain ⟨hfirst, hnames⟩ := List.forall_mem_cons.1 hlist.names
      obtain ⟨he, hgaps⟩ := List.forall_mem_cons.1 hlist.gaps
      rw [listing_cons, ← List.append_assoc, dependencyNames_append_comma,
        dependencyNames_name hgap hfirst, ih e.1 he ⟨hgaps, hnames⟩]
      rfl

/-! ## The call that lists names -/

def listingCall (first : String) (more : List (List Char × String)) : List Char :=
  callText Call.dependencies.word.toList (listing first more)

theorem listingCall_eq : listingCall first more =
    "script_dependencies".toList ++ '(' :: (listing first more ++ [')', ';']) := rfl

theorem listingCall_ne_nil : listingCall first more ≠ [] :=
  List.cons_ne_nil _ _

theorem not_mem_listing {c : Char} (hc : c = '(' ∨ c = ')') (hlist : IsListing first more) :
    c ∉ listing first more := by
  obtain ⟨hquote, hcomma, hmem, hblank⟩ :
      c ≠ '"' ∧ c ≠ ',' ∧ c ∈ "\"',()+".toList ∧ Text.isBlank c = false := by
    rcases hc with rfl | rfl <;> decide
  rw [mem_listing_iff hquote hcomma]
  rintro (⟨e, he, hgap⟩ | ⟨dep, hdep, hname⟩)
  · rw [hlist.gaps e he c hgap] at hblank
    exact Bool.noConfusion hblank
  · exact (hlist.names dep hdep).not_mem hmem hname

/-- The pattern covers a call whose list stands in one line. -/
theorem exists_takes_listingCall (b : List Char) (hlist : IsListing first more)
    (hline : ∀ e ∈ more, '\n' ∉ e.1) :
    ∃ v, dependencyNames v = listed first more ∧
      Takes Call.dependencies.pattern (listingCall first more) b []
        [("value", v), ("quote99", ['"']), ("name", Call.dependencies.word.toList)] := by
  obtain ⟨v, hv⟩ := exists_quoted_eq_listing first more
  have hsubset : first.toList ++ v ⊆ listing first more := by
    rw [hv, quoted]
    exact List.Subset.trans (List.subset_append_left _ _) (List.subset_cons_self _ _)
  have hread := dependencyNames_listing [] (by simp) hlist
  rw [List.nil_append, hv, dependencyNames_quoted] at hread
  refine ⟨_, hread, ?_⟩
  have hfirst : first.toList ≠ [] :=
    List.ne_nil_of_mem ((hlist.names first List.mem_cons_self).mem_of_ending (c := 'n') (by decide))
  have hbreak : '\n' ∉ listing first more := by
    rw [mem_listing_iff (by decide) (by decide)]
    rintro (⟨e, he, hgap⟩ | ⟨dep, hdep, hname⟩)
    · exact hline e he hgap
    · have hblank := isBlank_eq_false_of_isNameChar ((hlist.names dep hdep).chars _ hname)
      exact absurd hblank (by decide)
  have hbracket : ')' ∉ listing first more := not_mem_listing (Or.inr rfl) hlist
  rw [listingCall, hv]
  refine takes_call (fun _ => takes_word)
    (takes_valueAndEnd_shortest (by decide) (by decide) ?_ ?_ ?_)
  · exact List.append_ne_nil_of_left_ne_nil hfirst _
  · exact inLine_of_not_mem fun h => hbreak (hsubset h)
  · exact fun u hu _ => refuses_callEnd_append_quote (by decide) fun h =>
      hbracket (hsubset (hu.subset h))

/-- A text has its first closing bracket behind a line break. Of three parts that lead up to that
bracket, the middle one without a line break, the first covers what stands before the line break or
the last what stands behind it. -/
theorem subset_of_append_lineBreak {u v z r x y b : List Char}
    (heq : u ++ (v ++ (z ++ r)) = x ++ '\n' :: (y ++ ')' :: b)) (hv : '\n' ∉ v) (hz : ')' ∈ z)
    (hx : ')' ∉ x) (hy : ')' ∉ y) : x ⊆ u ∨ y ⊆ z := by
  rcases List.append_eq_append_iff.1 heq with ⟨x', rfl, hrest⟩ | ⟨u', rfl, -⟩
  · right
    obtain ⟨z', hbehind, hz'⟩ : ∃ z', z ++ r = z' ++ '\n' :: (y ++ ')' :: b) ∧ ')' ∉ z' := by
      rcases List.append_eq_append_iff.1 hrest with ⟨z', rfl, hbehind⟩ | ⟨v', rfl, hbehind⟩
      · exact ⟨z', hbehind, fun h => hx (by simp [h])⟩
      · cases v' with
        | nil => exact ⟨[], hbehind.symm, List.not_mem_nil⟩
        | cons c v' =>
            obtain ⟨rfl, -⟩ := List.cons.inj hbehind
            exact absurd (by simp) hv
    rw [← List.cons_append, ← List.append_assoc] at hbehind
    rcases List.append_eq_append_iff.1 hbehind with ⟨w, hw, -⟩ | ⟨w, rfl, -⟩
    · have hmem : ')' ∈ z' ++ '\n' :: y := by
        rw [hw]
        exact List.mem_append_left _ hz
      simp [hz', hy] at hmem
    · intro c hc
      simp [hc]
  · left
    exact List.subset_append_left _ _

/-- The value of a call ends with its line: no call is seen where the first bracket that closes it
stands behind a line break and a dot on either side of that. -/
theorem refuses_dependencies_of_lineBreak {x y b : List Char} (hx : '.' ∈ x) (hy : '.' ∈ y)
    (hxb : ')' ∉ x) (hyb : ')' ∉ y) :
    Refuses Call.dependencies.pattern (x ++ '\n' :: (y ++ ')' :: b)) [] := by
  intro size s hs hg
  rw [List.eq_nil_iff_forall_not_mem]
  intro t ht
  let front : List Pattern :=
    ["script_", .group "name" Call.dependencies.word, blanks, "(",
      .optional (.group "quote99" quoteChar)]
  let back : List Pattern := [.optional (.again "quote99"), callEnd]
  have hfit : t ∈ (chain (front ++ .group "value" shortLine :: back)).ends size s := ht
  obtain ⟨u, v, z, htext, hv, hz, -, huses⟩ :=
    exists_value_of_mem_ends (by simp [front]) (by simp [back]) rfl (List.map_eq_nil_iff.1 hg) hfit
  -- no dot stands before the value or behind it
  obtain ⟨hu, hz'⟩ := huses '.' (by
    simp only [front, back, List.cons_append, List.nil_append, List.forall_mem_cons]
    have hname : (Call.dependencies.word : Pattern).UsesOnly (· ≠ '.') (· ≠ "value") :=
      usesOnly_word (by decide)
    have hquote : quoteChar.UsesOnly (· ≠ '.') (· ≠ "value") := usesOnly_quoteChar (by decide)
    exact ⟨usesOnly_word (by decide), hname, usesOnly_blanks (by decide), usesOnly_word (by decide),
      hquote, (by decide : "quote99" ≠ "value"),
      usesOnly_callEnd (by decide) (by decide) (by decide), by simp⟩)
  have hclose : ')' ∈ z := by
    obtain ⟨_, _, -, ⟨ws, _, -, ⟨_, _, rfl, -, rfl⟩, rfl⟩, rfl⟩ := hz
    simp
  have hbreak : '\n' ∉ v := fun h => absurd (hv.2.2 _ h) (by decide)
  have heq : u ++ (v ++ (z ++ t.rest)) = x ++ '\n' :: (y ++ ')' :: b) := by
    rw [← hs, (leads_of_mem_ends ht).rest_eq, htext]
    simp
  rcases subset_of_append_lineBreak heq hbreak hclose hxb hyb with hsub | hsub
  · exact hu (hsub hx)
  · exact hz' (hsub hy)

theorem refuses_listingCall (b : List Char) (hlist : IsListing first more)
    (hbreak : ∃ e ∈ more, '\n' ∈ e.1) :
    Refuses Call.dependencies.pattern (listingCall first more ++ b) [] := by
  have hbracket : ')' ∉ listing first more := not_mem_listing (Or.inr rfl) hlist
  obtain ⟨e, he, hgap⟩ := hbreak
  obtain ⟨front, back, rfl⟩ := List.append_of_mem he
  obtain ⟨x, y, hxy⟩ := List.append_of_mem hgap
  have hdot {dep : String} (hdep : dep ∈ listed first (front ++ e :: back)) : '.' ∈ dep.toList :=
    (hlist.names dep hdep).mem_of_ending (by decide)
  let entry : List Char × String → List Char := fun e => ',' :: (e.1 ++ quoted '"' e.2.toList)
  have hlisting : listing first (front ++ e :: back) =
      (quoted '"' first.toList ++ (front.flatMap entry ++ ',' :: x)) ++
        '\n' :: (y ++ (quoted '"' e.2.toList ++ back.flatMap entry)) := by
    simp [listing, entry, hxy]
  rw [hlisting, List.mem_append, List.mem_cons, not_or, not_or] at hbracket
  have htext : listingCall first (front ++ e :: back) ++ b =
      ("script_dependencies".toList ++ '(' ::
          (quoted '"' first.toList ++ (front.flatMap entry ++ ',' :: x))) ++
        '\n' :: ((y ++ (quoted '"' e.2.toList ++ back.flatMap entry)) ++ ')' :: (';' :: b)) := by
    rw [listingCall_eq, hlisting]
    simp only [List.append_assoc, List.cons_append, List.nil_append]
  rw [htext]
  apply refuses_dependencies_of_lineBreak
  · simp [quoted, hdot List.mem_cons_self]
  · simp [quoted, hdot (List.mem_cons_of_mem _ (List.mem_map_of_mem (f := Prod.snd) he))]
  · rw [List.mem_append, List.mem_cons, not_or, not_or]
    exact ⟨by decide, by decide, hbracket.1⟩
  · exact hbracket.2.2

/-! ## The only call of a text -/

def OpensListing (v : List Char) : Prop :=
  ∃ ws, (∀ c ∈ ws, Text.isBlank c = true) ∧ "script_dependencies".toList ++ (ws ++ ['(']) <+: v

theorem refuses_dependencies {v : List Char} {g : List (String × List Char)}
    (h : ¬ OpensListing v) : Refuses Call.dependencies.pattern v g := by
  intro size s hs _
  rw [List.eq_nil_iff_forall_not_mem]
  intro t ht
  obtain ⟨_, _, rfl, ⟨_, _, rfl, ⟨ws, _, hws, ⟨_, z, rfl, -, rfl⟩, rfl⟩, rfl⟩, htext⟩ :=
    spells_of_mem_ends ht
  refine h ⟨ws, hws.2.2, z ++ t.rest, ?_⟩
  rw [← hs, (leads_of_mem_ends ht).rest_eq, htext]
  simp [Call.word]

/-- No call opens within another one. -/
theorem nowhere_opensListing (b : List Char) (hlist : IsListing first more) :
    Nowhere OpensListing (listingCall first more).tail b := by
  have hopening (v : List Char) (h : OpensListing v) : "script_dependencies".toList <+: v := by
    obtain ⟨ws, -, hpre⟩ := h
    exact (List.prefix_append _ _).trans hpre
  have hword (y : List Char) : Nowhere OpensListing ("cript_dependencies".toList ++ ['(']) y :=
    (nowhere_concat (by decide) (not_infix_of_contains (by decide))).imp hopening
  have hvalue (y : List Char) : Nowhere OpensListing (listing first more ++ [')']) y := by
    rintro u hu hne ⟨ws, hws, hpre⟩
    refine nowhere_concat ?_ ?_ u hu hne hpre
    · have hblank : ')' ∉ ws := fun h => absurd (hws _ h) (by decide)
      simp only [List.mem_append, hblank, List.mem_singleton, not_or]
      exact ⟨by decide, not_false, by decide⟩
    · intro hpart
      exact not_mem_listing (Or.inl rfl) hlist (hpart.subset (by simp))
  have hsemicolon : Nowhere OpensListing ([] ++ [';']) b :=
    (nowhere_concat (by decide) (by decide)).imp hopening
  have htail : (listingCall first more).tail =
      ("cript_dependencies".toList ++ ['(']) ++
        ((listing first more ++ [')']) ++ ([] ++ [';'])) := by
    rw [listingCall_eq, List.tail_append_of_ne_nil (by decide)]
    simp
  rw [htail]
  exact (hword _).append ((hvalue _).append hsemicolon)

/-- A call that stands in a text, and no other call that lists dependencies starts before it or
behind it. -/
structure OnlyCall (a call b : List Char) : Prop where
  before : ∀ u, u <:+ a → u ≠ [] → Refuses Call.dependencies.pattern (u ++ (call ++ b)) []
  behind : ∀ u, u <:+ b → Refuses Call.dependencies.pattern u []

variable {a b : List Char}

/-- It is enough that the texts around a call do not name it. -/
theorem OnlyCall.of_not_contains (ha : Text.contains "script_dependencies".toList a = false)
    (hb : Text.contains "script_dependencies".toList b = false) :
    OnlyCall a (listingCall first more) b := by
  constructor
  · intro u hu hne
    apply refuses_dependencies
    rintro ⟨ws, hws, hpre⟩
    have hblank : 'c' ∉ ws := fun hmem => absurd (hws 'c' hmem) (by decide)
    have hlast : ("script_dependencies".toList ++ (ws ++ ['('])).getLast? ≠ some 's' := by
      rw [← List.append_assoc, List.getLast?_concat]
      decide
    -- what opens a call does not reach into the next one
    have hpair : ¬ ['s', 'c'] <:+: ("script_dependencies".toList ++ (ws ++ ['('])).tail := by
      rw [List.tail_append_of_ne_nil (by decide)]
      intro hpart
      have hword := infix_of_infix_append (w := ['s']) (c := 'c') (by simp [hblank]) hpart
      exact absurd hword (not_infix_of_contains (by decide))
    have hopening := prefix_of_prefix_append_pair hpair hlast (Or.inr ?_) hne hpre
    · have hword := ((List.prefix_append _ _).trans hopening).isInfix.trans hu.isInfix
      exact not_infix_of_contains ha hword
    · exact pair_prefix_callText _ _ _
  · intro u hu
    apply refuses_dependencies
    rintro ⟨ws, -, hpre⟩
    have hword := ((List.prefix_append _ _).trans hpre).isInfix.trans hu.isInfix
    exact not_infix_of_contains hb hword

theorem OnlyCall.inside (h : OnlyCall a (listingCall first more) b) (hlist : IsListing first more) :
    ∀ u, u <:+ (listingCall first more ++ b).tail → Refuses Call.dependencies.pattern u [] := by
  intro u hu
  rw [List.tail_append_of_ne_nil listingCall_ne_nil] at hu
  rcases suffix_append_cases hu with hu | ⟨v, hv, hne, rfl⟩
  · exact h.behind u hu
  · exact refuses_dependencies (nowhere_opensListing b hlist v hv hne)

/-- **Of a list within a line every name is read.** -/
theorem dependencies_of_oneLine (honly : OnlyCall a (listingCall first more) b)
    (hlist : IsListing first more) (hline : ∀ e ∈ more, '\n' ∉ e.1) :
    dependencies (a ++ (listingCall first more ++ b)) = listed first more := by
  obtain ⟨v, hv, htakes⟩ := exists_takes_listingCall b hlist hline
  obtain ⟨m, hall, hcovers⟩ := findAll_of_takes_behind honly.before htakes
    listingCall_ne_nil (honly.inside hlist)
  rw [dependencies, hall, List.flatMap_singleton, hcovers.group_eq rfl, hv, List.filter_eq_self]
  intro dep hdep
  have hplus : '+' ∉ dep.toList := (hlist.names dep hdep).not_mem (by decide)
  rw [Bool.not_eq_true', ← Bool.not_eq_true]
  exact fun h => hplus ((contains_iff.1 h).subset (by decide))

/-- **Of a list with a line break no name is read.** -/
theorem dependencies_of_lineBreak (honly : OnlyCall a (listingCall first more) b)
    (hlist : IsListing first more) (hbreak : ∃ e ∈ more, '\n' ∈ e.1) :
    dependencies (a ++ (listingCall first more ++ b)) = [] := by
  have hnone : Call.dependencies.pattern.findAll (a ++ (listingCall first more ++ b)) = [] := by
    apply findAll_eq_nil
    intro u hu
    rcases suffix_append_cases hu with hu | ⟨v, hv, hne, rfl⟩
    · have hne : listingCall first more ++ b ≠ [] :=
        List.append_ne_nil_of_left_ne_nil listingCall_ne_nil b
      obtain ⟨c, y, hy⟩ := List.exists_cons_of_ne_nil hne
      rcases List.suffix_cons_iff.1 (hy ▸ hu) with rfl | hu
      · rw [← hy]
        exact refuses_listingCall b hlist hbreak
      · exact honly.inside hlist u (by rw [hy]; exact hu)
    · exact honly.before v hv hne
  rw [dependencies, hnone]
  rfl

/-! ## Missing dependencies of a list -/

variable {s : Subject} {w : Surroundings} {tree : FileTree} {root : Path}

/-- A dependency with a name of its own is judged to the end. -/
theorem fault_judgePlace {dep : String} (h : (Path.ofString dep).parts ≠ []) :
    (judgePlace tree root dep).fault = none := by
  unfold judgePlace
  obtain ⟨part, parts, hparts⟩ := List.exists_cons_of_ne_nil h
  rw [hparts]
  split <;> rfl

theorem dependencyExists_eq (dep : String) : dependencyExists tree root dep =
    [root / "common" / dep, root / "21.04" / dep, root / "22.04" / dep, root / dep].any
      tree.exists? := by
  have hroot : root / "" = root := Path.div_eq_self (by decide)
  rw [dependencyExists, dependencyPlaces, feedDirectories]
  simp only [List.map_cons, List.map_nil, hroot]

theorem run_dependencyPlacement {t : List Char} (hfile : s.file.isInclude = false)
    (htext : s.text = .ok t) :
    dependencyPlacement.run s w = .forEach (dependencies t) (judgePlace w.tree s.root) := by
  simp only [dependencyPlacement, Subject.unlessInclude, hfile, Subject.withText, htext,
    Bool.false_eq_true, if_false]

/-- **A missing dependency is reported if its list stands in one line.** The names of scripts that a
call lists are looked for to the last, wherever commas are followed by blanks, in a script without
another such call. If the list stands in one line, those that stand in no directory of the feed are
reported missing, in their order and as often as they are listed; if a line break stands in it,
nothing is reported. So the reports are the right ones exactly if there is no line break or nothing
to report. -/
theorem listed_dependencies_reported_iff (hfile : s.file.isInclude = false)
    (htext : s.text = .ok (a ++ (listingCall first more ++ b)))
    (honly : OnlyCall a (listingCall first more) b)
    (hlist : IsListing first more) :
    let missing := (listed first more).filter fun (dep : String) =>
      !(List.any [s.root / "common" / dep, s.root / "21.04" / dep, s.root / "22.04" / dep,
        s.root / dep] w.tree.exists?)
    (dependencyPlacement.findings s w).fault = none ∧
      (missingFound (dependencyPlacement.findings s w).results = missing ↔
        (∀ e ∈ more, '\n' ∉ e.1) ∨ missing = []) ∧
      ((∃ e ∈ more, '\n' ∈ e.1) → dependencyPlacement.findings s w = .done []) := by
  intro missing
  have hrun : dependencyPlacement.run s w = .forEach _ (judgePlace w.tree s.root) :=
    run_dependencyPlacement hfile htext
  have hsilent (hbreak : ∃ e ∈ more, '\n' ∈ e.1) : dependencyPlacement.findings s w = .done [] := by
    rw [FileCheck.findings, hrun, dependencies_of_lineBreak honly hlist hbreak]
    rfl
  by_cases hline : ∀ e ∈ more, '\n' ∉ e.1
  · rw [dependencies_of_oneLine honly hlist hline] at hrun
    have hfault : (dependencyPlacement.run s w).fault = none := by
      rw [hrun, Outcome.fault_forEach]
      exact fun dep hdep => fault_judgePlace (hlist.names dep hdep).parts_ne_nil
    refine ⟨hfault, iff_of_true ?_ (Or.inl hline), hsilent⟩
    rw [hrun] at hfault
    rw [missingFound_findings, hrun, missingNames_forEach (fun _ => missingNames_judgePlace) hfault]
    exact List.filter_congr fun dep _ => by rw [dependencyExists_eq]
  · have hbreak : ∃ e ∈ more, '\n' ∈ e.1 := by simpa using hline
    rw [hsilent hbreak]
    refine ⟨rfl, ?_, fun _ => rfl⟩
    rw [or_iff_right hline]
    exact eq_comm

end

/-- A list with a missing name, one that exists and the missing one again, with blanks of two kinds
behind its commas: the missing one is reported twice. -/
theorem listed_dependencies_reported_of_repeated :
    let call := listingCall "x-1.nasl" [([' '], "gsf/b.nasl"), (['\t', ' '], "x-1.nasl")]
    let s : Subject :=
      { root := ⟨"/", []⟩, file := ⟨"/", ["a.nasl"]⟩
        text := .ok ("# Lists scripts.\n".toList ++ (call ++ ['\n'])) }
    let w : Surroundings :=
      { tree := { entries := [(["22.04"], .directory 0o755), (["22.04", "gsf"], .directory 0o755),
          (["22.04", "gsf", "b.nasl"], .file 0o644 [])] }
        now := default }
    (dependencyPlacement.findings s w).fault = none ∧
      missingFound (dependencyPlacement.findings s w).results = ["x-1.nasl", "x-1.nasl"] := by
  intro call s w
  have hname : ∀ dep ∈ ["x-1.nasl", "gsf/b.nasl", "x-1.nasl"],
      dep.toList.all isNameChar = true ∧ ".nasl".toList <:+ dep.toList := by decide +kernel
  have honly : OnlyCall "# Lists scripts.\n".toList call ['\n'] :=
    .of_not_contains (by decide) (by decide)
  have hlist : IsListing "x-1.nasl" [([' '], "gsf/b.nasl"), (['\t', ' '], "x-1.nasl")] :=
    ⟨by simp; decide, fun dep hdep => ⟨List.all_eq_true.1 (hname dep hdep).1, (hname dep hdep).2⟩⟩
  obtain ⟨hfault, hreports, -⟩ :=
    listed_dependencies_reported_iff (s := s) (w := w) (by decide) rfl honly hlist
  refine ⟨hfault, (hreports.2 (Or.inl (by decide))).trans ?_⟩
  decide +kernel

/-- Two missing names on two lines are not reported. -/
theorem listed_dependencies_unreported_of_two_lines :
    let text := "script_dependencies(\"b.nasl\",\n\"c.nasl\");\n".toList
    let s : Subject := { root := ⟨"/", []⟩, file := ⟨"/", ["a.nasl"]⟩, text := .ok text }
    let w : Surroundings := { tree := { entries := [] }, now := default }
    text = listingCall "b.nasl" [(['\n'], "c.nasl")] ++ ['\n'] ∧
      (∀ dep ∈ listed "b.nasl" [(['\n'], "c.nasl")], dependencyExists w.tree s.root dep = false) ∧
      dependencyPlacement.findings s w = .done [] := by
  decide +kernel

end Checks

end NaslLint
