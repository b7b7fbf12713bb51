import NaslLint.Checks.Tags
import NaslLint.Proofs.CategoryOrder
import NaslLint.Proofs.Script.Parts

/-!
# Reading the category of a script

The names of categories stand in a table, with their numbers. The pattern of the call that states a
category is made from the table, what it finds is looked up among the categories themselves, and the
check of the category has a pattern of its own and asks the table only. All of them agree.

* `Checks.readCategory_eq_ok_iff` says which category is read: the one that the first call states.
* `Checks.readCategory_cases` says that nothing but a missing call is in the way of reading one.
* `Checks.exists_readCategory_of_silent` says that a category can be read from a script that the check
  of the category has no remark on.
* `Checks.exists_dependency_of_missingCategory` says whose category is called missing where
  dependencies are judged.
-/

namespace NaslLint

/-! ## Names of categories -/

namespace Category

variable {c : Category} {name : String}

theorem lookup_numbers (c : Category) : numbers.lookup c.name = some c.number := by
  cases c <;> decide

theorem name_of_ofName? (h : ofName? name = some c) : c.name = name := by
  simpa using List.find?_some h

/-- The table names the categories and nothing else. -/
theorem mem_numbers_iff {n : Nat} :
    (name, n) ∈ numbers ↔ ∃ c : Category, c.name = name ∧ c.number = n := by
  have hnumbers : numbers = all.map fun c => (c.name, c.number) := rfl
  have hall (c : Category) : c ∈ all := by cases c <;> decide
  rw [hnumbers, List.mem_map]
  simp only [hall, true_and, Prod.mk.injEq]

theorem exists_name_of_isSome_lookup (h : (numbers.lookup name).isSome = true) :
    ∃ c : Category, c.name = name := by
  obtain ⟨n, hn⟩ := Option.isSome_iff_exists.1 h
  obtain ⟨before, after, hsplit, -⟩ := List.lookup_eq_some_iff.1 hn
  obtain ⟨c, hc, -⟩ := mem_numbers_iff.1 (by rw [hsplit]; simp : (name, n) ∈ numbers)
  exact ⟨c, hc⟩

end Category

/-! ## Calls that state a category -/

theorem Call.word_injective : Function.Injective Call.word := by
  have hofWord (c : Call) : ofWord? c.word = some c := by cases c <;> decide
  intro c c' h
  have hsome := congrArg ofWord? h
  rw [hofWord, hofWord] at hsome
  exact Option.some.inj hsome

namespace Script

open Pattern Text

def IsCategoryName (v : List Char) : Prop :=
  ∃ c : Category, v = c.name.toList

def CategoryCall (v x : List Char) : Prop :=
  ∃ b y, Blanks b ∧ IsValueAndEnd IsCategoryName v y ∧ x = "script_category".toList ++ (b ++ '(' :: y)

section
variable {P : List Char → Prop} {v v' x x' r r' : List Char}

theorem IsCategoryName.isWord (hv : IsCategoryName v) :
    v ≠ [] ∧ ∀ c ∈ v, Text.isWord c = true := by
  obtain ⟨c, rfl⟩ := hv
  have hname : c.name.toList ≠ [] ∧ c.name.toList.all Text.isWord = true := by cases c <;> decide
  exact ⟨hname.1, List.all_eq_true.1 hname.2⟩

theorem isWord_eq_false_of_isQuote {q : Char} (hq : IsQuote q) : Text.isWord q = false := by
  rcases hq.eq_or_eq with rfl | rfl <;> decide

theorem isWord_eq_false_of_isBlank {c : Char} (hc : Text.isBlank c = true) :
    Text.isWord c = false := by
  cases hword : Text.isWord c with
  | false => rfl
  | true =>
      rw [isBlank_eq_false_of_isWord hword] at hc
      cases hc

/-- A word ends where its quotes are closed or the call ends. -/
theorem not_isWord_of_closing {s : Option {q : Char // IsQuote q}} {closing ending : List Char}
    (hclosing : closing = (s.map Subtype.val).toList ∨ closing = []) (hending : IsCallEnd ending) :
    ∀ c z, closing ++ (ending ++ r) = c :: z → Text.isWord c = false := by
  obtain ⟨b₁, b₂, h₁, -, rfl⟩ := hending
  have hend : ∀ c z, (b₁ ++ ')' :: (b₂ ++ [';'])) ++ r = c :: z → Text.isWord c = false := by
    cases b₁ with
    | nil => exact eq_false_of_cons (by decide) _
    | cons d b₁ => exact eq_false_of_cons (isWord_eq_false_of_isBlank (h₁ d List.mem_cons_self)) _
  rcases hclosing with rfl | rfl
  · cases s with
    | none => exact hend
    | some q => exact eq_false_of_cons (isWord_eq_false_of_isQuote q.2) _
  · exact hend

/-- **One reading.** The rest of a call tells which word is its value. -/
theorem IsValueAndEnd.value_unique (hP : ∀ v, P v → v ≠ [] ∧ ∀ c ∈ v, Text.isWord c = true)
    (h : IsValueAndEnd P v x) (h' : IsValueAndEnd P v' x') (heq : x ++ r = x' ++ r') : v = v' := by
  obtain ⟨s, closing, ending, hv, hclosing, hending, rfl⟩ := h
  obtain ⟨s', closing', ending', hv', hclosing', hending', rfl⟩ := h'
  have hopening (s : Option {q : Char // IsQuote q}) :
      ∀ c ∈ (s.map Subtype.val).toList, (!Text.isWord c) = true := by
    intro c hc
    obtain ⟨q, -, rfl⟩ := Option.map_eq_some_iff.1 (Option.mem_toList.1 hc)
    rw [isWord_eq_false_of_isQuote q.2, Bool.not_false]
  have hvalue {v : List Char} (hv : P v) (y : List Char) :
      ∀ c z, v ++ y = c :: z → (!Text.isWord c) = false := by
    obtain ⟨hne, hword⟩ := hP v hv
    obtain ⟨d, v, rfl⟩ := List.exists_cons_of_ne_nil hne
    exact eq_false_of_cons (by rw [hword d List.mem_cons_self, Bool.not_true]) _
  simp only [List.append_assoc] at heq
  obtain ⟨-, hrest⟩ :=
    eq_of_append_eq_append (hopening s) (hopening s') (hvalue hv _) (hvalue hv' _) heq
  exact (eq_of_append_eq_append (hP v hv).2 (hP v' hv').2 (not_isWord_of_closing hclosing hending)
    (not_isWord_of_closing hclosing' hending') hrest).1

end

theorem means_categoryName :
    Means Call.category.value fun v g g' => IsCategoryName v ∧ g' = [("category", v)] ++ g := by
  have hnames : Means (.oneOf (Category.numbers.map fun c => (c.1 : Pattern)))
      fun v g g' => IsCategoryName v ∧ g' = g := by
    apply means_of_moves
    intro size s t
    rw [mem_ends_oneOf]
    constructor
    · rintro ⟨p, hp, ht⟩
      obtain ⟨⟨name, n⟩, hmem, rfl⟩ := List.mem_map.1 hp
      obtain ⟨c, rfl, -⟩ := Category.mem_numbers_iff.1 hmem
      obtain ⟨⟨r, hr⟩, rfl⟩ := mem_ends_word.1 ht
      exact ⟨_, r, hr.symm, ⟨c, rfl⟩, rfl⟩
    · rintro ⟨_, r, hs, ⟨c, rfl⟩, rfl⟩
      refine ⟨_, List.mem_map.2 ⟨_, Category.mem_numbers_iff.2 ⟨c, rfl, rfl⟩, rfl⟩, ?_⟩
      exact mem_ends_word.2 ⟨⟨r, hs.symm⟩, rfl⟩
  refine hnames.group.congr fun v g g' => ?_
  constructor
  · rintro ⟨_, ⟨hv, rfl⟩, rfl⟩
    exact ⟨hv, rfl⟩
  · rintro ⟨hv, rfl⟩
    exact ⟨g, ⟨hv, rfl⟩, rfl⟩

/-- **What the pattern of the call finds.** -/
theorem states_category : States Call.category.pattern "value" CategoryCall := by
  obtain ⟨R, hR, hends⟩ := means_valueAndEnd (show "quote99" ≠ "value" by decide)
    (fun v => by rw [List.lookup_cons, List.lookup_nil]; rfl) means_categoryName
  have hgroups : [("name", "category".toList)].lookup "quote99" = none := by decide
  refine ⟨⟨_, (means_word.group_seq (means_blanks.text_seq hR.word_seq)).word_seq, ?_, ?_⟩, ?_⟩
  · rintro x g ⟨_, ⟨_, _, rfl, ⟨b, _, hb, ⟨y, hy, rfl⟩, rfl⟩, rfl⟩, rfl⟩
    obtain ⟨v, hlookup, hv⟩ := (hends y _ hgroups).1 g hy
    exact ⟨v, hlookup, b, y, hb, hv, rfl⟩
  · rintro v x ⟨b, y, hb, hv, rfl⟩
    obtain ⟨g, hy⟩ := (hends y _ hgroups).2 v hv
    exact ⟨g, _, ⟨_, _, rfl, ⟨b, _, hb, ⟨y, hy, rfl⟩, rfl⟩, rfl⟩, rfl⟩
  · rintro u v v' ⟨_, r, ⟨b, y, hb, hv, rfl⟩, rfl⟩ ⟨_, r', ⟨b', y', hb', hv', rfl⟩, heq⟩
    simp only [List.append_assoc, List.cons_append] at heq
    have hbracket : ∀ z c y, '(' :: z = c :: y → isBlank c = false := eq_false_of_cons (by decide)
    obtain ⟨-, hrest⟩ := eq_of_append_eq_append hb hb' (hbracket _) (hbracket _)
      (List.append_cancel_left heq)
    exact hv.value_unique (fun _ => IsCategoryName.isWord) hv' (List.cons.inj hrest).2

theorem isCategoryName_of_firstStates {v t : List Char} (h : FirstStates CategoryCall v t) :
    IsCategoryName v := by
  obtain ⟨_, _, -, ⟨_, _, ⟨_, _, -, ⟨_, _, _, hv, -⟩, -⟩, -⟩, -⟩ := h
  exact hv

end Script

/-! ## What is read -/

namespace Checks

open Pattern Script Text

section
variable {t : List Char} {c : Category}

/-- **The category that is read** is the one that the first call states. -/
theorem readCategory_eq_ok_iff :
    readCategory t = .ok c ↔ FirstStates CategoryCall c.name.toList t := by
  rw [← states_category.find?_iff, readCategory]
  constructor
  · intro h
    cases hm : Call.category.pattern.find? t with
    | none =>
        simp only [hm] at h
        cases h
    | some m =>
        simp only [hm] at h
        cases hname : Category.ofName? (String.ofList (m.group "value")) with
        | none =>
            simp only [hname] at h
            cases h
        | some c' =>
            simp only [hname] at h
            obtain rfl := Except.ok.inj h
            refine ⟨m, rfl, ?_⟩
            rw [Category.name_of_ofName? hname, String.toList_ofList]
  · rintro ⟨m, hm, hgroup⟩
    simp only [hm, hgroup, String.ofList_toList, ofName?_name]

theorem readCategory_eq_missing_of_find? (h : Call.category.pattern.find? t = none) :
    readCategory t = .error .missing := by
  rw [readCategory, h]

/-- Nothing but a missing call is in the way of reading a category. -/
theorem readCategory_cases (t : List Char) :
    (∃ c, readCategory t = .ok c) ∨
      (readCategory t = .error .missing ∧ ∀ a u v, t = a ++ u → ¬ Opens CategoryCall v u) := by
  cases hm : Call.category.pattern.find? t with
  | none =>
      exact Or.inr ⟨readCategory_eq_missing_of_find? hm, states_category.find?_eq_none_iff.1 hm⟩
  | some m =>
      have hfirst := states_category.find?_iff.1 ⟨m, hm, rfl⟩
      obtain ⟨c, hc⟩ := isCategoryName_of_firstStates hfirst
      rw [hc] at hfirst
      exact Or.inl ⟨c, readCategory_eq_ok_iff.2 hfirst⟩

theorem exists_readCategory_of_opens {a u v : List Char} (h : Opens CategoryCall v u) :
    ∃ c, readCategory (a ++ u) = .ok c := by
  rcases readCategory_cases (a ++ u) with hread | ⟨-, hnowhere⟩
  · exact hread
  · exact absurd h (hnowhere a u v rfl)

theorem category?_eq_some_of_readCategory (h : readCategory t = .ok c) : category? t = some c := by
  rw [category?, h]
  rfl

theorem readCategory_eq_missing_of_category? (h : category? t = none) :
    readCategory t = .error .missing := by
  rcases readCategory_cases t with ⟨c, hc⟩ | ⟨hmissing, -⟩
  · rw [category?_eq_some_of_readCategory hc] at h
    cases h
  · exact hmissing

end

/-! ## A script that the check of the category has no remark on -/

section
variable {s : Subject} {w : Surroundings} {t : List Char}

/-- What the check of the category finds is a call, whatever its value. -/
theorem exists_call_of_find?_categoryCall {m : Match} (h : categoryCall.find? t = some m) :
    ∃ a b b' r, Blanks b ∧ Blanks b' ∧ t = a ++ ("script_category".toList ++
      (b ++ '(' :: (m.group "category" ++ (')' :: (b' ++ (';' :: r)))))) := by
  obtain ⟨n, hn, hm⟩ := exists_matchAt?_of_find? h
  obtain ⟨a, z, rfl, rfl⟩ := exists_append_of_le hn
  obtain ⟨e, he, rfl⟩ := exists_mem_ends_of_matchAt? hm
  -- the anchor moves nothing, and the rest of the pattern has a meaning
  obtain ⟨_, hu, hend⟩ := mem_ends_seq.1 he
  obtain ⟨-, rfl⟩ := mem_ends_lineStart.1 hu
  obtain ⟨_, hz, indent, _, -, ⟨_, ⟨b, _, hb, ⟨_, ⟨v, _, -, ⟨_, ⟨b', _, hb', ⟨rfl, htexts⟩, rfl⟩, rfl⟩,
    rfl⟩, rfl⟩, rfl⟩, rfl⟩, rfl⟩ := (means_blanks.text_seq (means_blanks.text_seq
      (means_run_within.group_seq (means_blanks.text_seq means_word).word_seq).word_seq).word_seq
      (a ++ z).length _ e.rest e.texts).1 ⟨e, hend, rfl, rfl⟩
  have hgroup (span : Span) : Match.group ⟨span, e.groups⟩ "category" = v := by
    have hlookup : e.texts.lookup "category" = some v := by rw [htexts, List.lookup_cons_self]
    rw [Place.texts, Place.lookup_texts] at hlookup
    rw [Match.group, Match.group?, hlookup, Option.getD_some]
  rw [Place.rest_move_ofText] at hz
  refine ⟨a ++ indent, b, b', e.rest, hb, hb', ?_⟩
  rw [hgroup, hz]
  simp

theorem exists_readCategory_of_silent (hfile : s.file.isInclude = false)
    (h : scriptCategory.run s w = .done []) : ∃ t c, s.text = .ok t ∧ readCategory t = .ok c := by
  obtain ⟨t, ht⟩ : ∃ t, s.text = .ok t := exists_text_of_withText (congrArg Outcome.fault h)
  refine ⟨t, ?_⟩
  simp only [scriptCategory, Subject.onScript, Subject.withText, ht, Subject.unlessInclude, hfile,
    Bool.false_eq_true, if_false] at h
  have hremarks := congrArg Outcome.results h
  cases hm : categoryCall.find? t with
  | none => simp [hm, Outcome.done] at hremarks
  | some m =>
      cases hname : (Category.numbers.lookup (String.ofList (m.group "category"))).isSome with
      | false => simp [hm, hname, Outcome.done] at hremarks
      | true =>
          obtain ⟨c, hc⟩ := Category.exists_name_of_isSome_lookup hname
          obtain ⟨a, b, b', r, hb, hb', hsplit⟩ := exists_call_of_find?_categoryCall hm
          have hcall : CategoryCall (m.group "category") ("script_category".toList ++ (b ++
              '(' :: (m.group "category" ++ (')' :: (b' ++ [';']))))) :=
            ⟨b, _, hb, ⟨none, [], _, ⟨c, by rw [hc, String.toList_ofList]⟩, Or.inr rfl,
              ⟨[], b', Blanks.nil, hb', rfl⟩, rfl⟩, rfl⟩
          obtain ⟨own, hown⟩ := exists_readCategory_of_opens (a := a) ⟨_, r, hcall, rfl⟩
          refine ⟨own, ht, ?_⟩
          rw [hsplit, ← hown]
          simp

/-! ## Remarks on missing categories -/

theorem toList_missingCategory (script : String) : (missingCategory script).toList =
    script.toList ++ ": Script category is missing or unsupported.".toList :=
  String.toList_append

theorem missingCategory_injective : Function.Injective missingCategory := by
  intro script script' h
  have htexts := congrArg String.toList h
  rw [toList_missingCategory, toList_missingCategory] at htexts
  exact String.toList_inj.1 (List.append_cancel_right htexts)

theorem missingDependency_ne (dep script : String) :
    missingDependency dep ≠ .error (missingCategory script) := by
  intro h
  have hname : missingName? (missingDependency dep).message = some dep :=
    missingName?_eq_some_iff.2 rfl
  rw [h] at hname
  exact Option.some_ne_none dep (hname.symm.trans (missingName?_missingCategory script))

/-- Quotes and blanks do not count in a list of dependencies. -/
theorem not_isBlank_of_mem_dependencies {dep : String} (hdep : dep ∈ dependencies t) :
    ∀ c ∈ dep.toList, (!isBlank c) = true := by
  obtain ⟨m, -, hname⟩ := List.mem_flatMap.1 (List.mem_of_mem_filter hdep)
  rw [dependencyNames, splitOn_filter rfl, List.map_map, List.mem_map] at hname
  obtain ⟨entry, -, rfl⟩ := hname
  intro c hc
  rw [Function.comp_apply, String.toList_ofList] at hc
  have hkeep := (List.mem_filter.1 hc).2
  rw [Bool.not_or, Bool.and_eq_true] at hkeep
  exact hkeep.2

end

section
variable {tree : FileTree} {root : Path} {own : Category} {deps : List String} {script : String}

/-- The remark on a dependency that runs later than the script is about no missing category. -/
theorem lower_ne_missingCategory {dep : String} (hdep : ∀ c ∈ dep.toList, (!isBlank c) = true)
    (lead : String) :
    lead ++ " of the " ++ ("dependency " ++ dep ++ ".") ≠ missingCategory script := by
  intro h
  have hlast (x : List Char) : ∀ c ∈ (x ++ [' ']).getLast?, (!isBlank c) = false := by
    intro c hc
    rw [List.getLast?_concat] at hc
    obtain rfl := Option.mem_some.1 hc
    decide
  have hword : ∀ c ∈ "unsupported.".toList, (!isBlank c) = true := List.all_eq_true.1 (by decide)
  have hname : ∀ c ∈ dep.toList ++ ['.'], (!isBlank c) = true := by
    intro c hc
    rcases List.mem_append.1 hc with hc | hc
    · exact hdep c hc
    · obtain rfl := List.mem_singleton.1 hc
      decide
  -- both texts are cut at their last blanks
  have hsplit : ((lead.toList ++ " of the dependency".toList) ++ [' ']) ++ (dep.toList ++ ['.']) =
      ((script.toList ++ ": Script category is missing or".toList) ++ [' ']) ++
        "unsupported.".toList := by
    have htexts := congrArg String.toList h
    rw [toList_missingCategory] at htexts
    simpa [String.toList_append] using htexts
  have hbefore := (eq_of_append_eq_append_right hname hword (hlast _) (hlast _) hsplit).1
  exact append_ne_append_of_ending (by decide) (by decide) (List.append_cancel_right hbefore)

theorem not_mem_orderRemarks {dep : String} (hdep : ∀ c ∈ dep.toList, (!isBlank c) = true)
    (theirs : Category) : Remark.error (missingCategory script) ∉ orderRemarks own dep theirs := by
  intro h
  unfold orderRemarks at h
  simp only [List.mem_append, List.mem_ite_nil_right, List.mem_singleton] at h
  rcases h with ⟨-, h⟩ | ⟨-, h⟩
  · exact lower_ne_missingCategory hdep _ (congrArg Remark.message h).symm
  · have htexts := congrArg (fun r => r.message.toList) h
    change (missingCategory script).toList = ("Script depends on " ++ dep ++
      " which has the category " ++ showCategory theirs ++ ", but no VT" ++
      " is allowed to have a direct dependency to VTs in this category.").toList at htexts
    rw [toList_missingCategory, String.toList_append] at htexts
    exact append_ne_append_of_ending (by decide) (by decide) htexts

/-- A category that is called missing is that of a dependency, which states none. -/
theorem exists_dependency_of_missingCategory {last : Option Category}
    (hdeps : ∀ dep ∈ deps, ∀ c ∈ dep.toList, (!isBlank c) = true)
    (h : Remark.error (missingCategory script) ∈ (judgeOrder tree root own last deps).results) :
    ∃ dep ∈ deps, ∃ path other, dependencyPath? tree root dep = some path ∧ path.name = script ∧
      tree.readText path = .ok other ∧ readCategory other = .error .missing := by
  induction deps generalizing last with
  | nil => cases h
  | cons dep more ih =>
      obtain ⟨hdep, hmore⟩ := List.forall_mem_cons.1 hdeps
      rw [List.exists_mem_cons_iff]
      cases hpath : dependencyPath? tree root dep with
      | none =>
          rw [judgeOrder_cons_of_missing hpath] at h
          rcases List.mem_cons.1 h with hhead | hlater
          · exact absurd hhead.symm (missingDependency_ne dep script)
          · exact Or.inr (ih hmore hlater)
      | some path =>
          cases htext : tree.readText path with
          | error e =>
              unfold judgeOrder judgeNext at h
              simp only [hpath, htext] at h
              cases h
          | ok other =>
              cases hcategory : category? other with
              | some theirs =>
                  rw [judgeOrder_cons_of_category hpath htext hcategory] at h
                  rcases List.mem_append.1 h with hhere | hlater
                  · exact absurd hhere (not_mem_orderRemarks hdep theirs)
                  · exact Or.inr (ih hmore hlater)
              | none =>
                  have hmissing := readCategory_eq_missing_of_category? hcategory
                  have hfound (hhead : Remark.error (missingCategory script) =
                      .error (missingCategory path.name)) : path.name = script :=
                    (missingCategory_injective (congrArg Remark.message hhead)).symm
                  cases last with
                  | some theirs =>
                      rw [judgeOrder_cons_of_carried hpath htext hcategory] at h
                      rcases List.mem_append.1 h with hhere | hlater
                      · rcases List.mem_cons.1 hhere with hhead | hhere
                        · exact Or.inl ⟨path, other, rfl, hfound hhead, htext, hmissing⟩
                        · exact absurd hhere (not_mem_orderRemarks hdep theirs)
                      · exact Or.inr (ih hmore hlater)
                  | none =>
                      rw [judgeOrder_cons_of_undetermined hpath htext hcategory] at h
                      have hhead := List.mem_singleton.1 h
                      exact Or.inl ⟨path, other, rfl, hfound hhead, htext, hmissing⟩

end

/-! ## Remarks on missing calls -/

theorem missingMandatory_injective : Function.Injective missingMandatory := by
  intro name name' h
  have htexts : ("VT does not contain the following mandatory tag: 'script_" ++ name ++ "'").toList =
      ("VT does not contain the following mandatory tag: 'script_" ++ name' ++ "'").toList :=
    congrArg (fun r => r.message.toList) h
  simp only [String.toList_append] at htexts
  exact String.toList_inj.1 (List.append_cancel_left (List.append_cancel_right htexts))

section
variable {s : Subject} {w : Surroundings} {t : List Char}

/-- A call that is found in a script is not called missing. -/
theorem not_mem_mandatoryParts {c : Call} (htext : s.text = .ok t)
    (hcall : c.pattern.occursIn t = true) :
    missingMandatory c.word ∉ (mandatoryParts.run s w).results := by
  intro h
  simp only [mandatoryParts, Subject.onScript, Subject.withText, htext, Subject.unlessInclude] at h
  cases hfile : s.file.isInclude with
  | true =>
      rw [hfile] at h
      cases h
  | false =>
      rw [hfile] at h
      rcases List.mem_append.1 h with hmem | hmem
      · obtain ⟨g, hg, hname⟩ := List.mem_map.1 hmem
        obtain rfl := List.mem_singleton.1 (List.mem_of_mem_filter hg)
        have hword : Tag.summary.name ≠ c.word := by cases c <;> decide
        exact hword (missingMandatory_injective hname)
      · obtain ⟨c', hc', hname⟩ := List.mem_map.1 hmem
        obtain rfl := Call.word_injective (missingMandatory_injective hname)
        rw [List.mem_filter, hcall] at hc'
        cases hc'.2

theorem fault_mandatoryParts (htext : s.text = .ok t) : (mandatoryParts.run s w).fault = none := by
  simp only [mandatoryParts, Subject.onScript, Subject.withText, htext, Subject.unlessInclude]
  cases s.file.isInclude <;> rfl

theorem exists_dependency_of_dependencyOrder {own : Category} {script : String}
    (htext : s.text = .ok t) (hown : category? t = some own)
    (h : Remark.error (missingCategory script) ∈ (dependencyOrder.run s w).results) :
    ∃ dep ∈ dependencies t, ∃ path other, dependencyPath? w.tree s.root dep = some path ∧
      path.name = script ∧ w.tree.readText path = .ok other ∧
      readCategory other = .error .missing := by
  cases hlists : Text.contains "script_dependencies(".toList t with
  | false =>
      simp only [dependencyOrder, Subject.withText, htext, hlists, Bool.not_false, if_true] at h
      cases h
  | true =>
      rw [run_dependencyOrder htext hown hlists] at h
      exact exists_dependency_of_missingCategory (fun _ => not_isBlank_of_mem_dependencies) h

end

/-- **Categories are recognized consistently.** From every text the category of its first call that
states one is read, with the number that the table has for its name, or there is no such call and just
that is said. In a script that the check of the category has nothing to say on, a category is read;
where the order of dependencies is judged, no category is called missing but that of a dependency that
states none; and among the mandatory calls that of the category is not called missing. -/
theorem category_recognized_consistently :
    (∀ t, (∃ c, readCategory t = .ok c ∧ FirstStates CategoryCall c.name.toList t ∧
          Category.numbers.lookup c.name = some c.number) ∨
        (readCategory t = .error .missing ∧ ∀ a u v, t = a ++ u → ¬ Opens CategoryCall v u)) ∧
      ∀ (s : Subject) (w : Surroundings), s.file.isInclude = false →
        scriptCategory.run s w = .done [] →
        ∃ t c, s.text = .ok t ∧ readCategory t = .ok c ∧
          (∀ script, .error (missingCategory script) ∈ (dependencyOrder.run s w).results →
            ∃ dep ∈ dependencies t, ∃ path other, dependencyPath? w.tree s.root dep = some path ∧
              path.name = script ∧ w.tree.readText path = .ok other ∧
              readCategory other = .error .missing) ∧
          (mandatoryParts.run s w).fault = none ∧
          missingMandatory Call.category.word ∉ (mandatoryParts.run s w).results := by
  refine ⟨fun t => ?_, fun s w hfile hsilent => ?_⟩
  · rcases readCategory_cases t with ⟨c, hc⟩ | hmissing
    · exact Or.inl ⟨c, hc, readCategory_eq_ok_iff.1 hc, Category.lookup_numbers c⟩
    · exact Or.inr hmissing
  · obtain ⟨t, c, htext, hc⟩ := exists_readCategory_of_silent hfile hsilent
    have hown := category?_eq_some_of_readCategory hc
    have hcall := isSome_category?_iff.1 (Option.isSome_of_eq_some hown)
    exact ⟨t, c, htext, hc, fun script => exists_dependency_of_dependencyOrder htext hown,
      fault_mandatoryParts htext, not_mem_mandatoryParts htext hcall⟩

/-- A comment states another category, in quotes, before the script states its own, and a dependency
states none: the category in the comment is read, and only that of the dependency is called missing. -/
theorem category_recognized_consistently_of_comment :
    let text := "# script_category ('ACT_INIT');\n  script_category(ACT_ATTACK) ;\n".toList ++
      "script_dependencies(\"none.nasl\");\n".toList
    let s : Subject := { root := ⟨"/", []⟩, file := ⟨"/", ["a.nasl"]⟩, text := .ok text }
    let w : Surroundings := { tree := categoryFiles, now := default }
    scriptCategory.run s w = .done [] ∧ readCategory text = .ok .init ∧
      .error (missingCategory "none.nasl") ∈ (dependencyOrder.run s w).results ∧
      .error (missingCategory "a.nasl") ∉ (dependencyOrder.run s w).results ∧
      missingMandatory Call.category.word ∉ (mandatoryParts.run s w).results := by
  intro text s w
  obtain ⟨hsilent, hread, hmissing, hdeps, hpath⟩ :
      scriptCategory.run s w = .done [] ∧ readCategory text = .ok .init ∧
      .error (missingCategory "none.nasl") ∈ (dependencyOrder.run s w).results ∧
      dependencies text = ["none.nasl"] ∧
      dependencyPath? w.tree s.root "none.nasl" = some ⟨"/", ["none.nasl"]⟩ := by
    decide +kernel
  obtain ⟨_, _, htext, -, hothers, -, hcall⟩ :=
    category_recognized_consistently.2 s w (by decide) hsilent
  refine ⟨hsilent, hread, hmissing, fun hown => ?_, hcall⟩
  obtain rfl := Except.ok.inj htext
  obtain ⟨dep, hdep, path, _, hdepPath, hname, -⟩ := hothers _ hown
  obtain rfl := List.mem_singleton.1 (hdeps ▸ hdep)
  obtain rfl := Option.some.inj (hpath.symm.trans hdepPath)
  exact absurd hname (by decide)

end Checks

end NaslLint
