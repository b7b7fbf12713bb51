import NaslLint.Path

/-!
# Paths and how they are written

A path that a string denotes is denoted by its own written form as well. So different paths are
written differently.
-/

namespace NaslLint

namespace Text
variable {sep : Char} {t : List Char}

theorem splitOn_eq (sep : Char) (t : List Char) : splitOn sep t = t.splitOn sep := by
  induction t with
  | nil => rfl
  | cons c t ih =>
      rw [splitOn, ih, List.splitOn_cons_eq_if_modifyHead]
      cases hsplit : t.splitOn sep with
      | nil => exact absurd hsplit (List.splitOn_ne_nil sep t)
      | cons p ps => by_cases hc : c = sep <;> simp [hc]

theorem splitOn_ne_nil (sep : Char) (t : List Char) : splitOn sep t ≠ [] := by
  rw [splitOn_eq]
  exact List.splitOn_ne_nil sep t

theorem splitOn_append_cons (sep : Char) (x y : List Char) :
    splitOn sep (x ++ sep :: y) = splitOn sep x ++ splitOn sep y := by
  rw [splitOn_eq, splitOn_eq, splitOn_eq]
  exact List.splitOnP_append_cons _ _ (beq_self_eq_true sep)

/-- A first character begins a part of its own, if it is the separator, or else belongs to the first
part. -/
theorem exists_splitOn_cons (sep c : Char) (t : List Char) :
    ∃ p ps, splitOn sep t = p :: ps ∧
      splitOn sep (c :: t) = if c = sep then [] :: p :: ps else (c :: p) :: ps := by
  obtain ⟨p, ps, hsplit⟩ := List.exists_cons_of_ne_nil (splitOn_ne_nil sep t)
  exact ⟨p, ps, hsplit, by rw [splitOn, hsplit]⟩

theorem not_mem_of_mem_splitOn {p : List Char} (h : p ∈ splitOn sep t) : sep ∉ p := by
  induction t generalizing p with
  | nil =>
      obtain rfl := List.mem_singleton.1 h
      simp
  | cons c t ih =>
      obtain ⟨q, qs, hsplit, hcons⟩ := exists_splitOn_cons sep c t
      rw [hsplit] at ih
      rw [hcons] at h
      by_cases hc : c = sep
      · rw [if_pos hc] at h
        rcases List.mem_cons.1 h with rfl | h
        · simp
        · exact ih h
      · rw [if_neg hc] at h
        rcases List.mem_cons.1 h with rfl | h
        · have hq := ih List.mem_cons_self
          simp [hq, Ne.symm hc]
        · exact ih (List.mem_cons_of_mem _ h)

/-- Every character other than the separator stands in one of the parts. -/
theorem exists_mem_splitOn {c : Char} (hc : c ∈ t) (hsep : c ≠ sep) :
    ∃ p ∈ splitOn sep t, c ∈ p := by
  induction t with
  | nil => exact absurd hc List.not_mem_nil
  | cons d t ih =>
      obtain ⟨q, qs, hsplit, hcons⟩ := exists_splitOn_cons sep d t
      rw [hsplit] at ih
      rw [hcons]
      by_cases hd : d = sep
      · rw [if_pos hd]
        obtain ⟨p, hp, hcp⟩ := ih ((List.mem_cons.1 hc).resolve_left fun h => hsep (h.trans hd))
        exact ⟨p, List.mem_cons_of_mem _ hp, hcp⟩
      · rw [if_neg hd]
        rcases List.mem_cons.1 hc with rfl | hc
        · exact ⟨c :: q, List.mem_cons_self, List.mem_cons_self⟩
        · obtain ⟨p, hp, hcp⟩ := ih hc
          rcases List.mem_cons.1 hp with rfl | hp
          · exact ⟨d :: p, List.mem_cons_self, List.mem_cons_of_mem _ hcp⟩
          · exact ⟨p, List.mem_cons_of_mem _ hp, hcp⟩

/-- Other characters may be left out before a text is split or afterwards. -/
theorem splitOn_filter {keep : Char → Bool} (hsep : keep sep = true) (t : List Char) :
    splitOn sep (t.filter keep) = (splitOn sep t).map (List.filter keep) := by
  induction t with
  | nil => rfl
  | cons c t ih =>
      obtain ⟨p, ps, hsplit, hcons⟩ := exists_splitOn_cons sep c t
      rw [hsplit, List.map_cons] at ih
      rw [hcons]
      by_cases hc : keep c = true
      · rw [List.filter_cons_of_pos hc, splitOn, ih]
        by_cases heq : c = sep <;> simp [heq, hc]
      · have hne : c ≠ sep := fun h => hc (h ▸ hsep)
        rw [List.filter_cons_of_neg hc, ih, if_neg hne, List.map_cons, List.filter_cons_of_neg hc]

end Text

namespace Path

def IsName (n : String) : Prop :=
  n ≠ "" ∧ n ≠ "." ∧ '/' ∉ n.toList

instance (n : String) : Decidable (IsName n) :=
  inferInstanceAs (Decidable (_ ∧ _ ∧ _))

def Denoted (p : Path) : Prop :=
  ∃ s, ofString s = p

theorem anchorOf_cases (t : List Char) : anchorOf t = "" ∨ anchorOf t = "/" ∨ anchorOf t = "//" := by
  unfold anchorOf
  split
  · exact Or.inr (Or.inl rfl)
  · exact Or.inr (Or.inr rfl)
  · exact Or.inr (Or.inl rfl)
  · exact Or.inl rfl

theorem isName_of_mem_ofChars {t : List Char} {n : String} (h : n ∈ (ofChars t).names) :
    IsName n := by
  obtain ⟨hmem, hkeep⟩ := List.mem_filter.1 h
  obtain ⟨p, hp, rfl⟩ := List.mem_map.1 hmem
  rw [Bool.and_eq_true, bne_iff_ne, bne_iff_ne] at hkeep
  refine ⟨hkeep.1, hkeep.2, ?_⟩
  rw [String.toList_ofList]
  exact Text.not_mem_of_mem_splitOn hp

def written (names : List String) : List Char :=
  ['/'].intercalate (names.map String.toList)

theorem head?_written_ne {names : List String} (h : ∀ n ∈ names, IsName n) :
    (written names).head? ≠ some '/' := by
  cases names with
  | nil => simp [written]
  | cons n names =>
      obtain ⟨hne, -, hslash⟩ := h n List.mem_cons_self
      have hhead : (written (n :: names)).head? = n.toList.head? := by
        obtain ⟨c, cs, hcs⟩ := List.exists_cons_of_ne_nil
          fun hnil => hne (String.toList_eq_nil_iff.1 hnil)
        cases names <;> simp [written, hcs]
      rw [hhead]
      intro hsome
      exact hslash (List.mem_of_mem_head? hsome)

theorem anchorOf_append {a : String} {t : List Char} (ha : a = "" ∨ a = "/" ∨ a = "//")
    (ht : t.head? ≠ some '/') : anchorOf (a.toList ++ t) = a := by
  cases t with
  | nil => rcases ha with rfl | rfl | rfl <;> decide
  | cons c t =>
      have hc : c ≠ '/' := by simpa using ht
      rcases ha with rfl | rfl | rfl
      · change anchorOf (c :: t) = ""
        unfold anchorOf
        split <;> simp_all
      · change anchorOf ('/' :: c :: t) = "/"
        unfold anchorOf
        split <;> simp_all
      · change anchorOf ('/' :: '/' :: c :: t) = "//"
        unfold anchorOf
        split
        · simp_all
        · rfl
        · rename_i hno heq
          exact absurd (List.cons.inj heq).2.symm (hno _)
        · rename_i hno
          exact absurd rfl (hno _)

theorem names_ofChars_slash (t : List Char) : (ofChars ('/' :: t)).names = (ofChars t).names := by
  have hsplit : Text.splitOn '/' ('/' :: t) = [] :: Text.splitOn '/' t := by
    rw [Text.splitOn_eq, Text.splitOn_eq, List.splitOn_cons_eq_if_modifyHead]
    simp
  rw [ofChars, hsplit]
  rfl

theorem names_ofChars_written {names : List String} (h : ∀ n ∈ names, IsName n) :
    (ofChars (written names)).names = names := by
  by_cases hne : names = []
  · subst hne
    rfl
  have hsplit : Text.splitOn '/' (written names) = names.map String.toList := by
    rw [Text.splitOn_eq]
    apply List.splitOn_intercalate
    · intro l hl
      obtain ⟨n, hn, rfl⟩ := List.mem_map.1 hl
      exact (h n hn).2.2
    · simpa using hne
  have hback : (names.map String.toList).map String.ofList = names := by
    rw [List.map_map]
    exact (List.map_congr_left fun n _ => String.ofList_toList).trans (List.map_id names)
  change List.filter _ ((Text.splitOn '/' (written names)).map String.ofList) = names
  rw [hsplit, hback, List.filter_eq_self]
  intro n hn
  simp [(h n hn).1, (h n hn).2.1]

theorem ofString_of_written {s : String} {names : List String} (h : ∀ n ∈ names, IsName n)
    (hs : s.toList = written names) : ofString s = ⟨"", names⟩ := by
  have hanchor : anchorOf (written names) = "" :=
    anchorOf_append (a := "") (Or.inl rfl) (head?_written_ne h)
  have hnames := names_ofChars_written h
  rw [ofString, hs]
  cases hpath : ofChars (written names) with
  | mk anchor names' =>
      rw [hpath] at hnames
      have hanchor' : anchor = anchorOf (written names) := (congrArg Path.anchor hpath).symm
      rw [hanchor', hanchor, ← hnames]

/-- A text with more than slashes and dots denotes a path with components. -/
theorem parts_ofString_ne_nil {s : String} {c : Char} (hc : c ∈ s.toList) (hslash : c ≠ '/')
    (hdot : c ≠ '.') : (ofString s).parts ≠ [] := by
  obtain ⟨p, hp, hcp⟩ := Text.exists_mem_splitOn hc hslash
  have hname : String.ofList p ∈ (ofString s).names := by
    refine List.mem_filter.2 ⟨List.mem_map_of_mem hp, ?_⟩
    rw [Bool.and_eq_true, bne_iff_ne, bne_iff_ne]
    constructor
    · intro h
      have htext := congrArg String.toList h
      rw [String.toList_ofList] at htext
      rw [htext] at hcp
      exact absurd hcp List.not_mem_nil
    · intro h
      have htext := congrArg String.toList h
      rw [String.toList_ofList] at htext
      rw [htext] at hcp
      exact hdot (List.mem_singleton.1 hcp)
  rw [parts]
  split
  · exact List.cons_ne_nil _ _
  · exact List.ne_nil_of_mem hname

/-- A path without components leads nowhere else. -/
theorem div_eq_self {root : Path} {s : String} (h : (ofString s).parts = []) :
    root / s = root := by
  change root.join (ofString s) = root
  unfold parts at h
  split at h
  · cases h
  · rename_i hrelative
    rw [join, if_neg hrelative, h, List.append_nil]

/-- **A path is denoted by what is written for it.** -/
theorem ofString_toString {p : Path} (hp : p.Denoted) : ofString p.toString = p := by
  obtain ⟨s, rfl⟩ := hp
  have hanchor : (ofString s).anchor = "" ∨ (ofString s).anchor = "/" ∨ (ofString s).anchor = "//" :=
    anchorOf_cases s.toList
  have hnames : ∀ n ∈ (ofString s).names, IsName n := fun n => isName_of_mem_ofChars
  generalize ofString s = p at hanchor hnames
  obtain ⟨a, names⟩ := p
  by_cases hempty : a = "" ∧ names = []
  · obtain ⟨rfl, rfl⟩ := hempty
    decide
  have htext : (toString ⟨a, names⟩).toList = a.toList ++ written names := by
    rw [toString, if_neg (by simpa using hempty), String.toList_append, String.toList_intercalate]
    rfl
  rw [ofString, htext]
  have hnamesEq : (ofChars (a.toList ++ written names)).names = names := by
    have hbody := names_ofChars_written hnames
    rcases hanchor with rfl | rfl | rfl
    · exact hbody
    · exact (names_ofChars_slash _).trans hbody
    · exact (names_ofChars_slash _).trans ((names_ofChars_slash _).trans hbody)
  have hanchorEq : (ofChars (a.toList ++ written names)).anchor = a :=
    anchorOf_append hanchor (head?_written_ne hnames)
  cases hp : ofChars (a.toList ++ written names) with
  | mk b ns =>
      rw [hp] at hnamesEq hanchorEq
      rw [← hnamesEq, ← hanchorEq]

theorem toString_inj {p q : Path} (hp : p.Denoted) (hq : q.Denoted)
    (h : p.toString = q.toString) : p = q := by
  rw [← ofString_toString hp, h, ofString_toString hq]

theorem names_eq_append {p : Path} (h : p.names ≠ []) : p.names = p.parent.names ++ [p.name] := by
  rw [name, List.getLastD_eq_getLast?, List.getLast?_eq_some_getLast h]
  exact (List.dropLast_concat_getLast h).symm

/-- The path of a file below the root, or the whole path if the file does not lie there. -/
def below (file root : Path) (here : List String) : Path :=
  (file.fromRoot? root here).getD file

theorem below_eq {file root relative : Path} {here : List String}
    (h : file.fromRoot? root here = some relative) : file.below root here = relative := by
  rw [below, h]
  rfl

end Path

end NaslLint
