import NaslLint.Checks.Copyright
import NaslLint.Checks.Dependencies
import NaslLint.Proofs.Script.Calls

/-!
# Updating the copyright statement

There are nine outdated statements. None of them touches a call of a script, so an update leaves
every call where it stands: a script that states a category still states it afterwards.
-/

namespace NaslLint.Checks

open Pattern

/-! ## The outdated statements -/

def outdatedTexts : List (List Char) :=
  (['c', 'C'].flatMap fun letter => ["", "of "].flatMap fun of_ => ["the", "their"].map fun whose =>
    "# ".toList ++ ("Text descriptions are largely excerpted from the referenced\n".toList ++
      ("# advisory, and are Copyright (".toList ++ ([letter] ++ (") ".toList ++ (of_.toList ++
        (whose.toList ++ " respective author(s)".toList))))))) ++
  ["# ".toList ++ ("Some text descriptions might be excerpted from the referenced\n".toList ++
    "# advisories, and are Copyright (C) by the respective right holder(s)".toList)]

/-- What is outdated is one of these. -/
theorem mem_outdatedTexts {x : List Char} (h : outdatedStatement.Spells x) : x ∈ outdatedTexts := by
  obtain ⟨_, _, hstart, hline, rfl⟩ := spells_chain_cons.1 h
  obtain ⟨_, _, hsign, hrest, rfl⟩ := spells_chain_cons.1 hline
  obtain rfl : _ = [] := hstart
  obtain rfl := spells_word.1 hsign
  rcases hrest with hlong | hshort
  · obtain ⟨_, _, hfirst, h₁, rfl⟩ := spells_chain_cons.1 hlong
    obtain ⟨_, _, hsecond, h₂, rfl⟩ := spells_chain_cons.1 h₁
    obtain ⟨_, _, ⟨letter, hletter, rfl⟩, h₃, rfl⟩ := spells_chain_cons.1 h₂
    obtain ⟨_, _, hbracket, h₄, rfl⟩ := spells_chain_cons.1 h₃
    obtain ⟨of_, _, hof, h₅, rfl⟩ := spells_chain_cons.1 h₄
    obtain ⟨whose, _, hwhose, hlast, rfl⟩ := spells_chain_cons.1 h₅
    obtain rfl := spells_word.1 hfirst
    obtain rfl := spells_word.1 hsecond
    obtain rfl := spells_word.1 hbracket
    obtain rfl := spells_word.1 hlast
    have hword : ∃ w ∈ ["", "of "], of_ = w.toList := by
      rcases spells_optional.1 hof with rfl | h
      · exact ⟨"", by simp, rfl⟩
      · exact ⟨"of ", by simp, spells_word.1 h⟩
    obtain ⟨of_, hmem, rfl⟩ := hword
    obtain ⟨whose, hmem', rfl⟩ := spells_wordOf.1 hwhose
    refine List.mem_append_left _ (List.mem_flatMap.2 ⟨letter, by simpa [among] using hletter, ?_⟩)
    exact List.mem_flatMap.2 ⟨of_, hmem, List.mem_map.2 ⟨whose, hmem', rfl⟩⟩
  · obtain ⟨_, _, hfirst, hsecond, rfl⟩ := spells_chain_cons.1 hshort
    obtain rfl := spells_word.1 hfirst
    obtain rfl := spells_word.1 hsecond
    exact List.mem_append_right _ (List.mem_singleton_self _)

theorem exists_replaceAll_of_updateStatement? {t u : List Char} (h : updateStatement? t = some u) :
    ∃ old ∈ outdatedTexts, u = Text.replaceAll old copyrightStatement.toList t := by
  obtain ⟨m, hm, rfl⟩ := Option.map_eq_some_iff.1 h
  obtain ⟨n, -, hm⟩ := exists_matchAt?_of_find? hm
  obtain ⟨e, he, rfl⟩ := exists_mem_ends_of_matchAt? hm
  exact ⟨_, mem_outdatedTexts (spells_of_mem_ends he), rfl⟩

/-! ## Calls beside a statement -/

section
variable {old : List Char}

/-- A statement starts with a number sign and ends with a bracket, holds no call, and is not longer
than the one that replaces it. -/
theorem form_of_mem_outdatedTexts : ∀ old ∈ outdatedTexts,
    old.head? = some '#' ∧ old.getLast? = some ')' ∧
      Text.contains "script_".toList old = false ∧
      old.length ≤ copyrightStatement.toList.length := by
  have hstatement : copyrightStatement.toList = _ := String.toList_append
  rw [hstatement]
  decide +kernel

/-- A statement does not reach into a call that follows it. -/
theorem prefix_of_prefix_append_call {u rest : List Char} (hold : old ∈ outdatedTexts)
    (h : old <+: u ++ ("script_".toList ++ rest)) : old <+: u := by
  obtain ⟨z, hz⟩ := h
  rcases List.append_eq_append_iff.1 hz with ⟨as, rfl, -⟩ | ⟨bs, rfl, hbs⟩
  · exact List.prefix_append _ _
  · obtain ⟨-, hlast, hcall, -⟩ := form_of_mem_outdatedTexts _ hold
    rcases List.eq_nil_or_concat' bs with rfl | ⟨bs, d, rfl⟩
    · simp
    · -- The statement would end inside the call, or hold the start of it.
      obtain rfl : d = ')' := by simpa using hlast
      rcases List.append_eq_append_iff.1 hbs with ⟨cs, hcs, -⟩ | ⟨cs, hcs, -⟩
      · have hinfix : "script_".toList <:+: u ++ (bs ++ [')']) := by
          rw [hcs]
          exact ⟨u, cs, by simp⟩
        exact absurd hinfix (Text.not_infix_of_contains hcall)
      · have hmem : ')' ∈ "script_".toList := by
          rw [hcs]
          simp
        exact absurd hmem (by decide)

/-- **An update leaves calls alone.** A call without a number sign stands where it stood. -/
theorem replaceAll_around_call {a rest b : List Char} (hold : old ∈ outdatedTexts)
    (hrest : '#' ∉ rest) (new : List Char) :
    Text.replaceAll old new (a ++ ("script_".toList ++ rest ++ b)) =
      Text.replaceAll old new a ++ ("script_".toList ++ rest ++ Text.replaceAll old new b) := by
  refine Text.replaceAll_around (fun u _ _ h => ?_) (fun u hu hne h => ?_)
  · rw [List.append_assoc] at h
    exact prefix_of_prefix_append_call hold h
  · obtain ⟨c, u, rfl⟩ := List.exists_cons_of_ne_nil hne
    obtain ⟨old, rfl⟩ := List.head?_eq_some_iff.1 (form_of_mem_outdatedTexts _ hold).1
    obtain ⟨rfl, -⟩ := List.cons_prefix_cons.1 h
    rcases List.mem_append.1 (hu.subset List.mem_cons_self) with hmem | hmem
    · exact absurd hmem (by decide)
    · exact hrest hmem

end

/-! ## The category of a script -/

section
variable {size : Nat} {s e : Place} {t u : List Char}

theorem usesOnly_category : Call.category.pattern.UsesOnly (· ≠ '#') fun _ => True := by
  have hname : (oneOf (Category.all.map fun c => (c.name : Pattern))).UsesOnly (· ≠ '#')
      fun _ => True := by
    refine usesOnly_oneOf fun p hp => ?_
    obtain ⟨c, -, rfl⟩ := List.mem_map.1 hp
    exact Script.usesOnly_word (by cases c <;> decide)
  have hword (w : String) (h : '#' ∉ w.toList) := Script.usesOnly_word (N := fun _ => True) h
  have hblanks := Script.usesOnly_blanks (N := fun _ => True) (by decide : Text.isBlank '#' = false)
  have hquote := Script.usesOnly_quoteChar (N := fun _ => True) (by decide : ¬ Script.IsQuote '#')
  exact ⟨hword "script_" (by decide), hword "category" (by decide), hblanks,
    hword "(" (by decide), hquote, hname, trivial,
    Script.usesOnly_callEnd (by decide) (by decide) (by decide)⟩

/-- What states a category is a call without a number sign. -/
theorem exists_text_of_mem_ends_category (h : e ∈ Call.category.pattern.ends size s)
    (hgroups : s.groups = []) :
    ∃ rest, (s.spanTo e).text = "script_".toList ++ rest ∧ '#' ∉ rest := by
  have hsign := ((keepsTo_of_mem_ends usesOnly_category h).2 (by simp [hgroups])).1
  obtain ⟨u, hu, he⟩ := mem_ends_seq.1 h
  obtain ⟨⟨r, hr⟩, rfl⟩ := mem_ends_word.1 hu
  rw [(leads_of_mem_ends hu).spanTo_text_append (leads_of_mem_ends he),
    Place.spanTo_move_text_of_rest hr.symm] at hsign ⊢
  exact ⟨_, rfl, fun hmem => hsign '#' (List.mem_append_right _ hmem) rfl⟩

theorem ofName?_name (c : Category) : Category.ofName? c.name = some c := by
  cases c <;> decide

/-- A call that states a category states one that exists. -/
theorem exists_ofName?_of_mem_ends_category (h : e ∈ Call.category.pattern.ends size s) :
    ∃ c, Category.ofName? (String.ofList (Match.group ⟨s.spanTo e, e.groups⟩ "value")) =
      some c := by
  obtain ⟨_, -, h⟩ := mem_ends_seq.1 h
  obtain ⟨_, -, h⟩ := mem_ends_seq.1 h
  obtain ⟨_, -, h⟩ := mem_ends_seq.1 h
  obtain ⟨_, -, h⟩ := mem_ends_seq.1 h
  obtain ⟨v, -, h⟩ := mem_ends_seq.1 h
  -- The value is read from `v` on; what follows it fills no group.
  obtain ⟨_, hvalue, h⟩ := mem_ends_seq.1 h
  obtain ⟨w, hw, rfl⟩ := mem_ends_group.1 hvalue
  have hgroups : e.groups = ("value", v.spanTo w) :: w.groups := groups_eq_of_mem_ends rfl h
  have hspells : Call.category.value.Spells (v.spanTo w).text := spells_of_mem_ends hw
  change (oneOf (Category.all.map fun c => (c.name : Pattern))).Spells _ at hspells
  obtain ⟨p, hp, htext⟩ := spells_oneOf.1 hspells
  obtain ⟨c, -, rfl⟩ := List.mem_map.1 hp
  refine ⟨c, ?_⟩
  rw [Match.group, Match.group?, hgroups, List.lookup_cons_self]
  show Category.ofName? (String.ofList (v.spanTo w).text) = some c
  rw [spells_word.1 htext, String.ofList_toList, ofName?_name]

theorem category?_eq_bind (t : List Char) : category? t =
    (Call.category.pattern.find? t).bind fun m =>
      Category.ofName? (String.ofList (m.group "value")) := by
  unfold category? readCategory
  cases Call.category.pattern.find? t with
  | none => rfl
  | some m =>
      rw [Option.bind_some]
      cases hname : Category.ofName? (String.ofList (m.group "value")) with
      | none =>
          simp only [hname]
          rfl
      | some c =>
          simp only [hname]
          rfl

theorem isSome_category?_iff :
    (category? t).isSome = true ↔ Call.category.pattern.occursIn t = true := by
  rw [category?_eq_bind, occursIn]
  cases hm : Call.category.pattern.find? t with
  | none => rfl
  | some m =>
      obtain ⟨n, -, hm⟩ := exists_matchAt?_of_find? hm
      obtain ⟨e, he, rfl⟩ := exists_mem_ends_of_matchAt? hm
      obtain ⟨c, hc⟩ := exists_ofName?_of_mem_ends_category he
      simp [hc]

/-- **A category outlives an update.** -/
theorem isSome_category?_of_updateStatement? (h : updateStatement? t = some u)
    (hcategory : (category? t).isSome = true) : (category? u).isSome = true := by
  obtain ⟨old, hold, rfl⟩ := exists_replaceAll_of_updateStatement? h
  rw [isSome_category?_iff] at hcategory ⊢
  obtain ⟨a, x, rfl, e, he⟩ := occursIn_iff.1 hcategory
  obtain ⟨rest, hrest, hsign⟩ := exists_text_of_mem_ends_category he (Place.groups_move _ _)
  obtain rfl : x = "script_".toList ++ rest ++ e.rest := by
    rw [← hrest, ← (leads_of_mem_ends he).rest_eq, Place.rest_move]
    exact List.drop_left.symm
  obtain ⟨hhead, -, -, hlength⟩ := form_of_mem_outdatedTexts old hold
  have hsize := Text.length_le_length_replaceAll (fun h => by simp [h] at hhead) hlength
    (a ++ ("script_".toList ++ rest ++ e.rest))
  rw [replaceAll_around_call hold hsign] at hsize ⊢
  exact occursIn_of_mem_ends rfl hsize he rfl

end

end NaslLint.Checks
