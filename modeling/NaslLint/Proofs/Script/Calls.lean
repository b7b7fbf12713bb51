import NaslLint.Proofs.Pattern.First
import NaslLint.Proofs.ProseTags

/-!
# Finding a call by its name

A pattern for a call finds it where its name stands first. `tagText` and `callText` write calls, the
lemmas on `Takes` say what a pattern covers there, and `TagOpens` says where a pattern can start at
all.

* `find?_tag` and `find?_call` find the first call with a name.
-/

namespace NaslLint

/-! ## Places at which nothing starts -/

namespace Text

/-- A property of texts holds at no place of a text that goes on with another one. -/
def Nowhere (P : List Char → Prop) (a y : List Char) : Prop :=
  ∀ u, u <:+ a → u ≠ [] → ¬ P (u ++ y)

/-- What ends a text and reaches into its first part covers the rest of it. -/
theorem suffix_append_cases {u x y : List Char} (h : u <:+ x ++ y) :
    u <:+ y ∨ ∃ v, v <:+ x ∧ v ≠ [] ∧ u = v ++ y := by
  obtain ⟨z, hz⟩ := h
  rcases List.append_eq_append_iff.1 hz with ⟨v, rfl, rfl⟩ | ⟨w, -, rfl⟩
  · by_cases hv : v = []
    · rw [hv]
      exact Or.inl List.suffix_rfl
    · exact Or.inr ⟨v, List.suffix_append z v, hv, rfl⟩
  · exact Or.inl (List.suffix_append w u)

section
variable {P Q : List Char → Prop} {a b u w y : List Char}

theorem Nowhere.imp (h : Nowhere Q a y) (himp : ∀ v, P v → Q v) : Nowhere P a y :=
  fun u hu hne hP => h u hu hne (himp _ hP)

theorem Nowhere.append (ha : Nowhere P a (b ++ y)) (hb : Nowhere P b y) : Nowhere P (a ++ b) y := by
  intro u hu hne
  rcases suffix_append_cases hu with hu | ⟨v, hv, hne', rfl⟩
  · exact hb u hu hne
  · rw [List.append_assoc]
    exact ha v hv hne'

theorem Nowhere.cons {c : Char} (hc : ¬ P (c :: (a ++ y))) (ha : Nowhere P a y) :
    Nowhere P (c :: a) y := by
  intro u hu hne
  rcases List.suffix_cons_iff.1 hu with rfl | hu
  · exact hc
  · exact ha u hu hne

/-- A word does not reach across a character that it does not hold. -/
theorem prefix_of_prefix_append_cons {d : Char} (hd : d ∉ w) (h : w <+: u ++ d :: y) : w <+: u := by
  obtain ⟨z, hz⟩ := h
  rcases List.append_eq_append_iff.1 hz with ⟨as, rfl, -⟩ | ⟨bs, rfl, hbs⟩
  · exact List.prefix_append _ _
  · cases bs with
    | nil => simp
    | cons b bs =>
        obtain ⟨rfl, -⟩ := List.cons.inj hbs
        exact absurd (by simp) hd

theorem nowhere_concat {d : Char} (hd : d ∉ w) (hw : ¬ w <:+: a) :
    Nowhere (w <+: ·) (a ++ [d]) y := by
  intro u hu hne h
  rcases List.suffix_concat_iff.1 hu with rfl | ⟨v, rfl, hv⟩
  · exact hne rfl
  · rw [List.append_assoc] at h
    exact hw ((prefix_of_prefix_append_cons hd h).isInfix.trans hv.isInfix)

/-- A word does not reach into a text that starts with two characters which do not follow each other
in it, nor into an empty text. -/
theorem prefix_of_prefix_append_pair {c d : Char} (hpair : ¬ [c, d] <:+: w.tail)
    (hlast : w.getLast? ≠ some c) (hy : y = [] ∨ [c, d] <+: y) (hu : u ≠ [])
    (h : w <+: u ++ y) : w <+: u := by
  obtain ⟨z, hz⟩ := h
  rcases List.append_eq_append_iff.1 hz with ⟨as, rfl, -⟩ | ⟨bs, rfl, rfl⟩
  · exact List.prefix_append _ _
  rcases bs with _ | ⟨e, bs⟩
  · simp
  rcases hy with hnil | hpre
  · simp at hnil
  rcases bs with _ | ⟨f, bs⟩
  · obtain ⟨rfl, -⟩ := List.cons_prefix_cons.1 hpre
    exact absurd (by simp) hlast
  · obtain ⟨rfl, hsecond⟩ := List.cons_prefix_cons.1 hpre
    obtain ⟨rfl, -⟩ := List.cons_prefix_cons.1 hsecond
    refine absurd ?_ hpair
    rw [List.tail_append_of_ne_nil hu]
    exact ⟨u.tail, bs, by simp⟩

end

/-! ## Replacing the only occurrence of a word -/

/-- A word that does not stand in a text is not replaced there. -/
theorem replaceAll_eq_self {old new t : List Char} (h : ¬ old <:+: t) :
    replaceAll old new t = t := by
  have hkeep : replaceAll old new (t ++ []) = t ++ replaceAll old new [] := by
    apply replaceAll_keep
    intro u hu _ hpre
    rw [List.append_nil] at hpre
    exact h (hpre.isInfix.trans hu.isInfix)
  rwa [List.append_nil, show replaceAll old new [] = [] from rfl, List.append_nil] at hkeep

theorem replaceFrom_skip {old new b : List Char} (skip : List Char) :
    replaceFrom old new skip.length (skip ++ b) = replaceAll old new b := by
  induction skip with
  | nil => rfl
  | cons c skip ih => exact ih

/-- A word at the start of a text is replaced. -/
theorem replaceAll_append {old : List Char} (hold : old ≠ []) (new b : List Char) :
    replaceAll old new (old ++ b) = new ++ replaceAll old new b := by
  cases old with
  | nil => exact absurd rfl hold
  | cons c old =>
      rw [replaceAll, List.cons_append, replaceFrom, if_pos]
      · rw [List.length_cons, Nat.add_sub_cancel, replaceFrom_skip]
      · rw [List.isPrefixOf_iff_prefix]
        exact List.prefix_append (c :: old) b

theorem replaceAll_once {a old new b : List Char} (hold : old ≠ [])
    (ha : Nowhere (old <+: ·) a (old ++ b)) (hb : Nowhere (old <+: ·) b []) :
    replaceAll old new (a ++ (old ++ b)) = a ++ (new ++ b) := by
  have hbehind : replaceAll old new (b ++ []) = b ++ replaceAll old new [] := replaceAll_keep hb
  rw [List.append_nil, show replaceAll old new [] = [] from rfl, List.append_nil] at hbehind
  rw [replaceAll_keep ha, replaceAll_append hold, hbehind]

end Text

namespace Script

open Pattern Text

/-! ## Calls as written -/

def quoted (q : Char) (x : List Char) : List Char :=
  q :: (x ++ [q])

def tagText (name value : List Char) : List Char :=
  "script_tag(name:".toList ++ (name ++ (", value:".toList ++ (value ++ ");".toList)))

def callText (word value : List Char) : List Char :=
  "script_".toList ++ (word ++ ("(".toList ++ (value ++ ");".toList)))

def IsQuote (q : Char) : Prop :=
  among "'\"" q = true

instance (q : Char) : Decidable (IsQuote q) :=
  inferInstanceAs (Decidable (_ = true))

theorem IsQuote.eq_or_eq {q : Char} (h : IsQuote q) : q = '\'' ∨ q = '"' :=
  List.mem_pair.1 (List.contains_iff_mem.1 h)

theorem IsQuote.not_blank {q : Char} (h : IsQuote q) : Text.isBlank q = false := by
  rcases h.eq_or_eq with rfl | rfl <;> decide

/-! ## What the pattern of a call covers -/

section
variable {g g' : List (String × List Char)} {name value : Pattern} {q : Char} {n r v x : List Char}

theorem takes_quote (hq : IsQuote q) : Takes quoteChar [q] r g g :=
  takes_one hq

theorem takes_label {n : String} {a c : Char} {w u : List Char} (hn : n.toList = a :: w)
    (ha : Text.isBlank a = false) (hu : ∀ b ∈ u, Text.isBlank b = true)
    (hc : Text.isBlank c = false) :
    Takes (label n) (u ++ (n.toList ++ [':'])) (c :: r) g g := by
  have hblanks : Takes blanks u ((n.toList ++ ([] ++ ([':'] ++ []))) ++ c :: r) g g := by
    apply takes_blanks hu
    rw [hn]
    rintro d r' h
    obtain ⟨rfl, -⟩ := List.cons.inj h
    exact ha
  exact hblanks.seq (takes_word.seq ((takes_blanks_nil (by decide)).seq
    (takes_word.seq (takes_blanks_nil hc))))

theorem takes_callEnd : Takes callEnd ");".toList r g g :=
  Takes.seq (x := []) (takes_blanks_nil (by decide)) (Takes.seq (x := [')']) takes_word
    (Takes.seq (x := []) (takes_blanks_nil (by decide)) takes_word))

theorem takes_valueAndEnd {quote : String} (hq : IsQuote q) (hquote : quote ≠ "value")
    (hg : g'.lookup quote = some [q])
    (hvalue : Takes value v (q :: (");".toList ++ r)) ((quote, [q]) :: g) g') :
    Takes (valueAndEnd quote value) (quoted q v ++ ");".toList) r g (("value", v) :: g') := by
  have hlookup : List.lookup quote (("value", v) :: g') = some [q] := by
    rw [List.lookup_cons, beq_false_of_ne hquote]
    exact hg
  have hclose : Takes (seq (Pattern.optional (again quote)) callEnd) ([q] ++ ");".toList) r
      (("value", v) :: g') (("value", v) :: g') :=
    (takes_again hlookup).optional.seq takes_callEnd
  have hopen : Takes (Pattern.optional (.group quote quoteChar)) [q]
      ((v ++ ([q] ++ ");".toList)) ++ r) g ((quote, [q]) :: g) :=
    (takes_quote hq).group.optional
  have htext : quoted q v ++ ");".toList = [q] ++ (v ++ ([q] ++ ");".toList)) := by
    simp [quoted]
  rw [htext]
  exact hopen.seq (hvalue.group.seq hclose)

/-- A call that sets a tag is covered if its name and its value are. -/
theorem takes_tagWith (hq : IsQuote q) (hname : ∀ r, Takes name n r [("quote", [q])] g)
    (hg : g.lookup "quote" = some [q]) {c : Char} (hc : Text.isBlank c = false)
    (hvalue : Takes (valueAndEnd "quote2" value) (c :: x) r g g') :
    Takes (tagWith name value)
      ("script_tag(name:".toList ++ (quoted q n ++ (", value:".toList ++ c :: x))) r [] g' := by
  have hcomma : Takes (seq blanks (seq (word [',']) (seq (label "value")
      (valueAndEnd "quote2" value)))) ([] ++ ([','] ++ ([' ', 'v', 'a', 'l', 'u', 'e', ':'] ++ c :: x)))
      r g g' :=
    (takes_blanks_nil (by decide)).seq (takes_word.seq
      ((takes_label (n := "value") (u := [' ']) rfl (by decide)
        (List.forall_mem_singleton.2 (by decide)) hc).seq hvalue))
  have hlabel : Takes (label "name") ([] ++ ("name".toList ++ [':']))
      (q :: (n ++ ([q] ++ ([] ++ ([','] ++ ([' ', 'v', 'a', 'l', 'u', 'e', ':'] ++ c :: x)))) ++ r))
      [] [] :=
    takes_label (n := "name") rfl (by decide) (by simp) hq.not_blank
  have htext : "script_tag(name:".toList ++ (quoted q n ++ (", value:".toList ++ c :: x)) =
      "script_tag(".toList ++ (([] ++ ("name".toList ++ [':'])) ++ ([q] ++ (n ++ ([q] ++
        ([] ++ ([','] ++ ([' ', 'v', 'a', 'l', 'u', 'e', ':'] ++ c :: x))))))) := by
    simp [quoted]
  rw [htext]
  exact takes_word.seq (hlabel.seq ((takes_quote hq).group.seq ((hname _).seq
    ((takes_again hg).seq hcomma))))

theorem takes_call (hn : ∀ r, Takes name n r [] g)
    (hvalue : Takes (valueAndEnd "quote99" value) x r (("name", n) :: g) g') :
    Takes (call name value) ("script_".toList ++ (n ++ ("(".toList ++ x))) r [] g' :=
  takes_word.seq ((hn _).group.seq (Takes.seq (x := []) (takes_blanks_nil (by decide))
    (takes_word.seq hvalue)))

end

/-! ## The characters of a call -/

section
variable {d : Char} {N : String → Prop}

theorem usesOnly_word {w : String} (h : d ∉ w.toList) : (w : Pattern).UsesOnly (· ≠ d) N :=
  fun _ hc heq => h (heq ▸ hc)

theorem usesOnly_blanks (hd : isBlank d = false) : blanks.UsesOnly (· ≠ d) N := by
  rintro c hc rfl
  rw [hd] at hc
  exact Bool.noConfusion hc

theorem usesOnly_quoteChar (hd : ¬ IsQuote d) : quoteChar.UsesOnly (· ≠ d) N := by
  rintro c hc rfl
  exact hd hc

theorem usesOnly_label {name : String} (hd : isBlank d = false) (hname : d ∉ name.toList)
    (hcolon : d ≠ ':') : (label name).UsesOnly (· ≠ d) N :=
  ⟨usesOnly_blanks (N := N) hd, usesOnly_word (N := N) hname, usesOnly_blanks (N := N) hd,
    usesOnly_word (N := N) (w := ":") (by simpa using hcolon), usesOnly_blanks (N := N) hd⟩

theorem usesOnly_callEnd (hd : isBlank d = false) (hbracket : d ≠ ')') (hsemicolon : d ≠ ';') :
    callEnd.UsesOnly (· ≠ d) N :=
  ⟨usesOnly_blanks (N := N) hd, usesOnly_word (N := N) (w := ")") (by simpa using hbracket),
    usesOnly_blanks (N := N) hd, usesOnly_word (N := N) (w := ";") (by simpa using hsemicolon)⟩

end

/-- A fit around a value: what stands before the value and behind it has no other characters than the
patterns there use, whatever the value holds. -/
theorem exists_value_of_mem_ends {ps qs : List Pattern} {value : Pattern} {size : Nat} {s e : Place}
    (hps : ps ≠ []) (hqs : qs ≠ []) (hvalue : value.groupNames = []) (hgroups : s.groups = [])
    (h : e ∈ (chain (ps ++ .group "value" value :: qs)).ends size s) :
    ∃ x v z, (s.spanTo e).text = x ++ (v ++ z) ∧ value.Spells v ∧ (chain qs).Spells z ∧
      ((chain qs).groupNames = [] → Match.group ⟨s.spanTo e, e.groups⟩ "value" = v) ∧
      ∀ d : Char, (∀ p ∈ ps ++ qs, p.UsesOnly (· ≠ d) (· ≠ "value")) → d ∉ x ∧ d ∉ z := by
  obtain ⟨u, hu, he⟩ := (mem_ends_chain_append hps (by simp)).1 h
  have hsingle : [group "value" value] ≠ [] := by simp
  obtain ⟨_, hfill, he⟩ := (mem_ends_chain_append hsingle hqs).1 he
  obtain ⟨v, hv, rfl⟩ := mem_ends_group.1 hfill
  have htext : (s.spanTo e).text = (s.spanTo u).text ++ ((u.spanTo v).text ++
      ((v.fill "value" (u.spanTo v)).spanTo e).text) := by
    have huv := leads_of_mem_ends hfill
    have hve := leads_of_mem_ends he
    rw [(leads_of_mem_ends hu).spanTo_text_append (huv.trans hve), huv.spanTo_text_append hve]
    rfl
  have hgroup (hnames : (chain qs).groupNames = []) :
      Match.group ⟨s.spanTo e, e.groups⟩ "value" = (u.spanTo v).text := by
    rw [Match.group, Match.group?, groups_eq_of_mem_ends hnames he]
    rfl
  refine ⟨_, _, _, htext, spells_of_mem_ends hv, spells_of_mem_ends he, hgroup, fun d hd => ?_⟩
  obtain ⟨hbefore, hbehind⟩ := List.forall_mem_append.1 hd
  obtain ⟨hx, hfilled⟩ := (keepsTo_of_mem_ends (usesOnly_chain hbefore) hu).2 (by simp [hgroups])
  -- the value itself is remembered under a name that does not count
  have hz := ((keepsTo_of_mem_ends (usesOnly_chain hbehind) he).2 (by
    simpa [groups_eq_of_mem_ends hvalue hv] using hfilled)).1
  exact ⟨fun h => hx d h rfl, fun h => hz d h rfl⟩

section
variable {g g' : List (String × List Char)} {name value : Pattern} {q : Char} {n r v x : List Char}

/-! ## Values that take in the line -/

/-- A text that starts a new line, if it goes on, and does not go on with a closing bracket. -/
def LeavesLine (r : List Char) : Prop :=
  (∀ c ∈ r.head?, c = '\n') ∧ (r.dropWhile Text.isBlank).head? ≠ some ')'

theorem refuses_callEnd (hr : (r.dropWhile Text.isBlank).head? ≠ some ')') :
    Refuses callEnd r g := by
  intro size s hs _
  rw [List.eq_nil_iff_forall_not_mem]
  intro t ht
  obtain ⟨ws, ws', r', hrest, hws, -, -⟩ := mem_ends_callEnd.1 ht
  apply hr
  rw [← hs, hrest, List.dropWhile_append_of_pos hws, List.dropWhile_cons_of_neg (by decide)]
  rfl

theorem suffix_tail_of_append_eq {v a b : List Char} (h : v = a ++ b) (ha : a ≠ []) :
    b <:+ v.tail := by
  rw [h, List.tail_append_of_ne_nil ha]
  exact List.suffix_append _ _

theorem refuses_again_quote {quote : String} {d : Char} (hg : g.lookup quote = some [d])
    (hr : r.head? ≠ some d) : Refuses (again quote) r g := by
  apply refuses_again
  intro w hw hpre
  rw [hg] at hw
  obtain rfl := Option.some.inj hw
  obtain ⟨z, rfl⟩ := hpre
  exact hr rfl

theorem LeavesLine.head?_ne (h : LeavesLine r) : r.head? ≠ some '"' := by
  intro hr
  exact absurd (h.1 _ hr) (by decide)

theorem LeavesLine.not_inLine (h : LeavesLine r) {d : Char} {r' : List Char} (hr : r = d :: r') :
    inLine d = false := by
  subst hr
  rw [h.1 d rfl]
  rfl

theorem LeavesLine.append {y : List Char} (hr : LeavesLine r) (hne : r ≠ [])
    (hy : ['s', 'c'] <+: y) : LeavesLine (r ++ y) := by
  obtain ⟨z, rfl⟩ := hy
  constructor
  · rw [List.head?_append_of_ne_nil _ hne]
    exact hr.1
  · rw [List.dropWhile_append]
    split
    · rw [List.cons_append, List.dropWhile_cons_of_neg (by decide)]
      simp
    · rename_i hdrop
      rw [List.head?_append_of_ne_nil _ (by simpa using hdrop)]
      exact hr.2

theorem inLine_of_not_mem (hx : '\n' ∉ x) : ∀ c ∈ x, inLine c = true := by
  intro c hc
  rw [inLine, bne_iff_ne]
  rintro rfl
  exact hx hc

/-- A value that takes in the line ends at the last bracket and semicolon of the line, and keeps its
closing quote. -/
theorem takes_valueAndEnd_line (hx : '\n' ∉ x) (hr : LeavesLine r) :
    Takes (valueAndEnd "quote2" line) (quoted '"' x ++ ");".toList) r g
      (("value", x ++ ['"']) :: ("quote2", ['"']) :: g) := by
  have hrefuses {b v : List Char} (hquote : (b ++ r).head? ≠ some '"')
      (hbracket : ((b ++ r).dropWhile Text.isBlank).head? ≠ some ')') :
      Refuses (seq (Pattern.optional (again "quote2")) callEnd) (b ++ r)
        (("value", v) :: ("quote2", ['"']) :: g) :=
    refuses_optional_seq (refuses_again_quote rfl hquote) (refuses_callEnd hbracket)
  have hclose : Takes (seq (Pattern.optional (again "quote2")) callEnd) ([] ++ ");".toList) r
      (("value", x ++ ['"']) :: ("quote2", ['"']) :: g)
      (("value", x ++ ['"']) :: ("quote2", ['"']) :: g) :=
    (takes_optional_nil (refuses_again_quote rfl (by simp))).seq takes_callEnd
  have hvalue : Takes (seq (.group "value" line) (seq (Pattern.optional (again "quote2")) callEnd))
      ((x ++ ['"']) ++ ");".toList) r (("quote2", ['"']) :: g)
      (("value", x ++ ['"']) :: ("quote2", ['"']) :: g) := by
    apply takes_longest_seq (v := [')', ';']) (r := r)
    · apply inLine_of_not_mem
      simpa using hx
    · exact fun d r' h => hr.not_inLine h
    · intro a b hab ha
      have hb : b = [';'] ∨ b = [] := by
        simpa [List.suffix_cons_iff] using suffix_tail_of_append_eq hab ha
      rcases hb with rfl | rfl
      · refine hrefuses (by simp) ?_
        rw [List.cons_append, List.dropWhile_cons_of_neg (by decide)]
        simp
      · exact hrefuses hr.head?_ne hr.2
    · rfl
    · exact hclose
  have hopen : Takes (Pattern.optional (.group "quote2" quoteChar)) ['"']
      (((x ++ ['"']) ++ ");".toList) ++ r) g (("quote2", ['"']) :: g) :=
    (takes_quote (by decide : IsQuote '"')).group.optional
  exact hopen.seq hvalue

/-- The call that states a version, whatever it is, is covered to the end of its line. -/
theorem takes_anyVersion (hx : '\n' ∉ x) (hr : LeavesLine r) :
    Takes anyVersion (callText "version".toList (quoted '"' x)) r []
      [("value", x), ("quote", ['"'])] := by
  have hclose : Takes (chain [again "quote", blanks, ");"]) (['"'] ++ ([] ++ ");".toList)) r
      [("value", x), ("quote", ['"'])] [("value", x), ("quote", ['"'])] :=
    (takes_again rfl).seq ((takes_blanks_nil (by decide)).seq takes_word)
  have hvalue : Takes (seq (.group "value" line) (chain [again "quote", blanks, ");"]))
      (x ++ (['"'] ++ ([] ++ ");".toList))) r [("quote", ['"'])]
      [("value", x), ("quote", ['"'])] := by
    apply takes_longest_seq (v := ['"', ')', ';']) (r := r)
    · apply inLine_of_not_mem
      simpa using hx
    · exact fun d r' h => hr.not_inLine h
    · -- behind the closing quote no other quote follows
      intro a b hab ha
      have hb : b = [')', ';'] ∨ b = [';'] ∨ b = [] := by
        simpa [List.suffix_cons_iff] using suffix_tail_of_append_eq hab ha
      refine Refuses.seq (refuses_again_quote rfl ?_)
      rcases hb with rfl | rfl | rfl
      · simp
      · simp
      · exact hr.head?_ne
    · rfl
    · exact hclose
  have htext : callText "version".toList (quoted '"' x) =
      "script_version(".toList ++ ([] ++ (['"'] ++ (x ++ (['"'] ++ ([] ++ ");".toList))))) := by
    unfold callText quoted
    simp only [String.reduceToList, List.append_assoc, List.cons_append, List.nil_append]
  rw [htext]
  exact takes_word.seq ((takes_blanks_nil (by decide)).seq
    ((takes_quote (by decide : IsQuote '"')).group.seq hvalue))

/-! ## Values that are as short as possible -/

/-- A text without a closing bracket does not end a call, nor does the quote behind it. -/
theorem refuses_callEnd_append_quote {b y : List Char} (hq : IsQuote q) (hb : ')' ∉ b) :
    Refuses callEnd (b ++ q :: y) g := by
  apply refuses_callEnd
  induction b with
  | nil =>
      rw [List.nil_append, List.dropWhile_cons_of_neg (by rw [hq.not_blank]; decide),
        List.head?_cons, Ne, Option.some.injEq]
      rintro rfl
      exact absurd hq (by decide)
  | cons c b ih =>
      rw [List.mem_cons, not_or] at hb
      rw [List.cons_append, List.dropWhile_cons]
      split
      · exact ih hb.2
      · simpa using fun h => hb.1 h.symm

/-- A value that is as short as possible ends with the quote in which it stands, if the call ends
nowhere within it. -/
theorem takes_valueAndEnd_shortest {quote : String} {cls : Char → Bool} (hq : IsQuote q)
    (hquote : quote ≠ "value") (hv : v ≠ []) (hcls : ∀ c ∈ v, cls c = true)
    (hend : ∀ b, b <:+ v → ∀ g, Refuses callEnd (b ++ q :: (");".toList ++ r)) g) :
    Takes (valueAndEnd quote (.run .shortest 1 none cls)) (quoted q v ++ ");".toList) r g
      (("value", v) :: (quote, [q]) :: g) := by
  have hlookup (x : List Char) : List.lookup quote (("value", x) :: (quote, [q]) :: g) = some [q] := by
    rw [List.lookup_cons, beq_false_of_ne hquote]
    exact List.lookup_cons_self
  have hopen : Takes (Pattern.optional (.group quote quoteChar)) [q]
      ((v ++ ([q] ++ ");".toList)) ++ r) g ((quote, [q]) :: g) :=
    (takes_quote hq).group.optional
  have hclose : Takes (seq (Pattern.optional (again quote)) callEnd) ([q] ++ ");".toList) r
      (("value", v) :: (quote, [q]) :: g) (("value", v) :: (quote, [q]) :: g) :=
    (takes_again (hlookup v)).optional.seq takes_callEnd
  have htext : quoted q v ++ ");".toList = [q] ++ (v ++ ([q] ++ ");".toList)) := by
    simp [quoted]
  rw [htext]
  refine hopen.seq (takes_shortest_seq_of_forall hv hcls ?_ hclose)
  rintro a b rfl - hb
  refine refuses_optional_again_seq (hlookup a) ?_ (hend b (List.suffix_append a b) _)
  -- where the quote stands within the value, the call does not end behind it either
  intro z hz
  obtain ⟨c, b, rfl⟩ := List.exists_cons_of_ne_nil hb
  obtain ⟨-, rfl⟩ := List.cons.inj hz
  exact hend b ((List.suffix_cons c b).trans (List.suffix_append a _)) _

/-- A value that is as short as possible ends with the quote in which it stands, if it holds neither
that quote nor a closing bracket. -/
theorem takes_valueAndEnd_shortText {quote : String} (hq : IsQuote q) (hquote : quote ≠ "value")
    (hv : v ≠ []) (hplain : ∀ c ∈ v, c ≠ q ∧ c ≠ ')') :
    Takes (valueAndEnd quote shortText) (quoted q v ++ ");".toList) r g
      (("value", v) :: (quote, [q]) :: g) :=
  takes_valueAndEnd_shortest hq hquote hv (fun _ _ => rfl) fun _ hb _ =>
    refuses_callEnd_append_quote hq fun hmem => (hplain _ (hb.subset hmem)).2 rfl

end

/-! ## Where the pattern of a call can start -/

def tagLead : Pattern :=
  .chain ["script_tag(", label "name", .group "quote" quoteChar]

def TagOpens (name v : List Char) : Prop :=
  ∃ lead, tagLead.Spells lead ∧ lead ++ name <+: v

section
variable {a b n v y : List Char}

theorem exists_eq_of_tagLead {lead : List Char} (h : tagLead.Spells lead) :
    ∃ l, lead = "script_tag(".toList ++ l ∧ 's' ∉ l := by
  have hblank {ws : List Char} (hws : blanks.Spells ws) : 's' ∉ ws := by
    intro hs
    exact absurd (hws.2.2 _ hs) (by decide)
  obtain ⟨_, l, rfl, ⟨_, _, ⟨ws, _, hws, ⟨_, _, rfl, ⟨ws', _, hws', ⟨_, ws'', rfl, hws'', rfl⟩,
    rfl⟩, rfl⟩, rfl⟩, ⟨q, hq, rfl⟩, rfl⟩, rfl⟩ := h
  refine ⟨_, rfl, ?_⟩
  have hquote : 's' ≠ q := by
    rintro rfl
    exact absurd hq (by decide)
  simp [hblank hws, hblank hws', hblank hws'', hquote]

theorem tagLead_spells {q : Char} (hq : IsQuote q) :
    tagLead.Spells ("script_tag(name:".toList ++ [q]) := by
  have hblank : blanks.Spells [] := ⟨Nat.le_refl 0, by simp, by simp⟩
  have hlabel : (label "name").Spells ("name".toList ++ [':']) :=
    ⟨[], _, hblank, ⟨_, _, rfl, ⟨[], _, hblank, ⟨_, [], rfl, hblank, rfl⟩, rfl⟩, rfl⟩, rfl⟩
  exact ⟨_, _, rfl, ⟨_, [q], hlabel, ⟨q, hq, rfl⟩, rfl⟩, by simp⟩

theorem TagOpens.script_prefix (h : TagOpens n v) : "script_tag(".toList <+: v := by
  obtain ⟨lead, hlead, hpre⟩ := h
  obtain ⟨l, rfl, -⟩ := exists_eq_of_tagLead hlead
  rw [List.append_assoc] at hpre
  exact (List.prefix_append _ _).trans hpre

theorem refuses_tagWith {name value : Pattern} {g : List (String × List Char)}
    (h : ∀ n, name.Spells n → ¬ TagOpens n v) : Refuses (tagWith name value) v g := by
  intro size s hs _
  rw [List.eq_nil_iff_forall_not_mem]
  intro t ht
  let lead : List Pattern := ["script_tag(", label "name", .group "quote" quoteChar]
  let more : List Pattern :=
    [name, .again "quote", blanks, ",", label "value", valueAndEnd "quote2" value]
  have hspells : (chain (lead ++ more)).Spells (s.spanTo t).text := spells_of_mem_ends ht
  obtain ⟨lead, _, hlead, ⟨n, z, hn, -, rfl⟩, htext⟩ :=
    (spells_chain_append (by simp [lead]) (by simp [more])).1 hspells
  apply h n hn
  refine ⟨lead, hlead, z ++ t.rest, ?_⟩
  rw [← hs, (leads_of_mem_ends ht).rest_eq, htext]
  simp

/-- Names into which no call reaches: the first two letters of a call do not follow each other in
them, and they do not end with the first. -/
def Inert (n : List Char) : Prop :=
  Text.contains ['s', 'c'] n = false ∧ n.getLast?.any (· != 's') = true

instance (n : List Char) : Decidable (Inert n) :=
  inferInstanceAs (Decidable (_ ∧ _))

theorem not_pair_infix_append {c d : Char} {p : List Char} (hp : c ∉ p) (hn : ¬ [c, d] <:+: n) :
    ¬ [c, d] <:+: p ++ n := by
  induction p with
  | nil => exact hn
  | cons e p ih =>
      rw [List.cons_append, List.infix_cons_iff, List.cons_prefix_cons, not_or]
      rw [List.mem_cons, not_or] at hp
      exact ⟨fun h => hp.1 h.1, ih hp.2⟩

/-- What opens a call, up to a name, does not reach into another call. -/
theorem prefix_of_prefix_append_call {p u : List Char} (hp : 's' ∉ p) (hn : Inert n)
    (hy : y = [] ∨ ['s', 'c'] <+: y) (hu : u ≠ []) (h : 's' :: (p ++ n) <+: u ++ y) :
    's' :: (p ++ n) <+: u := by
  apply prefix_of_prefix_append_pair _ _ hy hu h
  · exact not_pair_infix_append hp (not_infix_of_contains hn.1)
  · obtain ⟨c, hc, hne⟩ := (Option.any_eq_true _ _).1 hn.2
    rw [← List.cons_append, List.getLast?_append, hc]
    simpa using hne

theorem nowhere_tagOpens (hn : Inert n) (ha : ¬ n <:+: a) (hy : y = [] ∨ ['s', 'c'] <+: y) :
    Nowhere (TagOpens n) a y := by
  rintro u hu hne ⟨lead, hlead, hpre⟩
  obtain ⟨l, rfl, hl⟩ := exists_eq_of_tagLead hlead
  have hs : 's' ∉ "cript_tag(".toList ++ l := by
    simp [hl]
  have hword : 's' :: (("cript_tag(".toList ++ l) ++ n) <+: u :=
    prefix_of_prefix_append_call hs hn hy hne hpre
  rw [← List.cons_append] at hword
  exact ha (((List.suffix_append _ n).isInfix.trans hword.isInfix).trans hu.isInfix)

theorem nowhere_call (hn : Inert n) (ha : ¬ "script_".toList ++ n <:+: a)
    (hy : y = [] ∨ ['s', 'c'] <+: y) : Nowhere ("script_".toList ++ n <+: ·) a y := by
  intro u hu hne hpre
  have hword : "script_".toList ++ n <+: u :=
    prefix_of_prefix_append_call (p := "cript_".toList) (by decide) hn hy hne hpre
  exact ha (hword.isInfix.trans hu.isInfix)

theorem refuses_call {name value : Pattern} {g : List (String × List Char)}
    (h : ∀ n, name.Spells n → ¬ "script_".toList ++ n <+: v) : Refuses (call name value) v g := by
  intro size s hs _
  rw [List.eq_nil_iff_forall_not_mem]
  intro t ht
  obtain ⟨_, _, rfl, ⟨n, z, hn, -, rfl⟩, htext⟩ := spells_of_mem_ends ht
  apply h n hn
  refine ⟨z ++ t.rest, ?_⟩
  rw [← hs, (leads_of_mem_ends ht).rest_eq, htext]
  simp

theorem refuses_anyVersion {g : List (String × List Char)} (h : ¬ "script_version".toList <+: v) :
    Refuses anyVersion v g := by
  apply Refuses.seq
  apply refuses_word
  intro hpre
  exact h (List.IsPrefix.trans ⟨['('], rfl⟩ hpre)

/-! ## The first call with a name -/

theorem pair_prefix_tagText (name value y : List Char) : ['s', 'c'] <+: tagText name value ++ y := by
  have hlead : ['s', 'c'] <+: "script_tag(name:".toList := by decide
  unfold tagText
  rw [List.append_assoc]
  exact hlead.trans (List.prefix_append _ _)

theorem pair_prefix_callText (word value y : List Char) :
    ['s', 'c'] <+: callText word value ++ y := by
  have hlead : ['s', 'c'] <+: "script_".toList := by decide
  unfold callText
  rw [List.append_assoc]
  exact hlead.trans (List.prefix_append _ _)

theorem inert_name (t : Tag) : Inert t.name.toList := by
  cases t <;> decide

/-- **The first tag with a name.** A pattern for a tag finds the first call that names it, if the tag
may have the value that is set there. -/
theorem find?_tag {t : Tag} {q q' : Char} (hq : IsQuote q) (hq' : IsQuote q')
    (ha : Nowhere (TagOpens t.name.toList) a
      (tagText (quoted q t.name.toList) (quoted q' v) ++ b))
    (hvalue : ∀ g, Takes t.value v (q' :: (");".toList ++ b)) g g) :
    ∃ m, t.pattern.find? (a ++ (tagText (quoted q t.name.toList) (quoted q' v) ++ b)) = some m ∧
      m.Covers a.length (tagText (quoted q t.name.toList) (quoted q' v))
        [("value", v), ("quote2", [q']), ("name", t.name.toList), ("quote", [q])] := by
  apply find?_of_takes
  · intro u hu hne
    apply refuses_tagWith
    rintro n rfl
    exact ha u hu hne
  · exact takes_tagWith hq (fun _ => takes_word.group) rfl hq'.not_blank
      (takes_valueAndEnd hq' (by decide) rfl (hvalue _))

/-- **The first call with a name.** -/
theorem find?_call {c : Call} {q : Char} (hq : IsQuote q)
    (ha : Nowhere ("script_".toList ++ c.word.toList <+: ·) a
      (callText c.word.toList (quoted q v) ++ b))
    (hvalue : ∀ g, Takes c.value v (q :: (");".toList ++ b)) g g) :
    ∃ m, c.pattern.find? (a ++ (callText c.word.toList (quoted q v) ++ b)) = some m ∧
      m.Covers a.length (callText c.word.toList (quoted q v))
        [("value", v), ("quote99", [q]), ("name", c.word.toList)] := by
  apply find?_of_takes
  · intro u hu hne
    apply refuses_call
    rintro n rfl
    exact ha u hu hne
  · exact takes_call (fun _ => takes_word) (takes_valueAndEnd hq (by decide) rfl (hvalue _))

end

/-! ## Fits of a tag -/

/-- What a pattern for a tag expects between its first word and the value. -/
def beforeValue (name : String) : List Pattern :=
  [label "name", .group "quote" quoteChar, .group "name" name, .again "quote", blanks, ",",
    label "value", .optional (.group "quote2" quoteChar)]

def behindValue : List Pattern :=
  [.optional (.again "quote2"), blanks, ")", blanks] ++ [(";" : Pattern)]

theorem tag_eq (name : String) (value : Pattern) : tag name value =
    .seq "script_tag(" (chain (beforeValue name ++ .group "value" value :: behindValue)) := rfl

/-- A character that no pattern around the value of a tag uses. -/
structure Foreign (name : String) (d : Char) : Prop where
  not_blank : isBlank d = false
  not_quote : ¬ IsQuote d
  not_mark : d ∉ "name:,value);".toList
  not_name : d ∉ name.toList

instance (name : String) (d : Char) : Decidable (Foreign name d) :=
  decidable_of_iff (isBlank d = false ∧ ¬ IsQuote d ∧ d ∉ "name:,value);".toList ∧ d ∉ name.toList)
    ⟨fun ⟨hb, hq, hm, hn⟩ => ⟨hb, hq, hm, hn⟩, fun ⟨hb, hq, hm, hn⟩ => ⟨hb, hq, hm, hn⟩⟩

section
variable {name : String} {value : Pattern} {d : Char} {size : Nat} {s e : Place}

theorem Foreign.usesOnly (h : Foreign name d) : ∀ p ∈ beforeValue name ++ behindValue,
    p.UsesOnly (· ≠ d) (· ≠ "value") := by
  have hmark {w : String} (hw : w.toList.all ("name:,value);".toList.contains ·) = true) :
      d ∉ w.toList := by
    intro hmem
    exact h.not_mark (List.contains_iff_mem.1 (List.all_eq_true.1 hw d hmem))
  have hcolon : d ≠ ':' := by
    rintro rfl
    exact h.not_mark (by decide)
  have hword {w : String} (hw : w.toList.all ("name:,value);".toList.contains ·) = true) :
      (w : Pattern).UsesOnly (· ≠ d) (· ≠ "value") :=
    usesOnly_word (hmark hw)
  have hlabel {w : String} (hw : w.toList.all ("name:,value);".toList.contains ·) = true) :
      (label w).UsesOnly (· ≠ d) (· ≠ "value") :=
    usesOnly_label h.not_blank (hmark hw) hcolon
  have hblanks : blanks.UsesOnly (· ≠ d) (· ≠ "value") := usesOnly_blanks h.not_blank
  have hquote : quoteChar.UsesOnly (· ≠ d) (· ≠ "value") := usesOnly_quoteChar h.not_quote
  have hagain {n : String} (hn : n ≠ "value") : (again n).UsesOnly (· ≠ d) (· ≠ "value") := hn
  have hname : (word name.toList).UsesOnly (· ≠ d) (· ≠ "value") := usesOnly_word h.not_name
  simp only [beforeValue, behindValue, List.cons_append, List.nil_append, List.forall_mem_cons]
  exact ⟨hlabel (by decide), hquote, hname, hagain (by decide), hblanks, hword (by decide),
    hlabel (by decide), hquote, hagain (n := "quote2") (by decide), hblanks, hword (by decide),
    hblanks, hword (by decide), by simp⟩

/-- The parts of a fit of a pattern for a tag. -/
theorem exists_value_of_mem_ends_tag (hvalue : value.groupNames = []) (hgroups : s.groups = [])
    (h : e ∈ (tag name value).ends size s) :
    ∃ x v z, (s.spanTo e).text = "script_tag(".toList ++ (x ++ (v ++ z)) ∧ value.Spells v ∧
      z.getLast? = some ';' ∧ Match.group ⟨s.spanTo e, e.groups⟩ "value" = v ∧
      ∀ d, Foreign name d → d ∉ x ∧ d ∉ z := by
  rw [tag_eq] at h
  obtain ⟨u, hu, he⟩ := mem_ends_seq.1 h
  obtain ⟨⟨r, hr⟩, rfl⟩ := mem_ends_word.1 hu
  obtain ⟨x, v, z, htext, hv, hz, hgroup, hforeign⟩ :=
    exists_value_of_mem_ends (by simp [beforeValue]) (by simp [behindValue]) hvalue
      (by rw [Place.groups_move, hgroups]) he
  refine ⟨x, v, z, ?_, hv, ?_, hgroup rfl, fun d hd => hforeign d hd.usesOnly⟩
  · rw [(leads_of_mem_ends hu).spanTo_text_append (leads_of_mem_ends he),
      Place.spanTo_move_text_of_rest hr.symm, htext]
  · obtain ⟨y, c, -, hc, rfl⟩ := (spells_chain_append (by simp) (by simp)).1 hz
    obtain rfl := spells_word.1 hc
    exact List.getLast?_concat

end

end Script

end NaslLint
