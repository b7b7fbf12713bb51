import NaslLint.Checks.Calls
import NaslLint.Proofs.Pattern.Cut
import NaslLint.Proofs.Pattern.Meaning
import NaslLint.Proofs.Script.Calls

/-!
# Calls that write an entry of the knowledge base

A call that writes an entry names it and gives its value, each in a labelled parameter. The check
counts the labels of a call and reports it if there are not two of them; it does not ask which they
are. Calls without parameters are not looked at, nor are calls behind one that is left open: what is
found there begins with the open one.

* `counts_argumentList`: the labels that are counted are those of the arguments;
* `setter_seen_iff`: which calls are looked at;
* `setter_reported_iff`: which calls are reported.
-/

namespace NaslLint

namespace Checks

open Pattern Text

/-! ## Labels and arguments -/

inductive Parameter where
  | name
  | value
deriving DecidableEq

def Parameter.word : Parameter → List Char
  | name => "name".toList
  | value => "value".toList

/-- A label as it is written, with or without a space in front of its colon. -/
structure ParameterLabel where
  parameter : Parameter
  spaced : Bool
deriving DecidableEq

def ParameterLabel.text (l : ParameterLabel) : List Char :=
  l.parameter.word ++ ((if l.spaced then [' '] else []) ++ [':'])

theorem ParameterLabel.text_ne_nil (l : ParameterLabel) : l.text ≠ [] := by
  simp [text]

/-- An argument as it is written: blanks, a label if it has one, and an expression that holds neither
a closing bracket nor another label. -/
structure Argument where
  lead : List Char
  label : Option ParameterLabel
  expression : List Char
  lead_blank : Blanks lead
  unclosed : ')' ∉ expression
  unlabelled : ∀ l : ParameterLabel, ¬ l.text <:+: expression

namespace Argument

def text (a : Argument) : List Char :=
  a.lead ++ ((a.label.map ParameterLabel.text).getD [] ++ a.expression)

def isFor (p : Parameter) (a : Argument) : Bool :=
  a.label.any (·.parameter == p)

end Argument

def argumentList : List Argument → List Char
  | [] => []
  | [a] => a.text
  | a :: b :: more => a.text ++ ',' :: argumentList (b :: more)

section
variable {l : ParameterLabel} {g : List (String × List Char)} {r v y : List Char}

theorem exists_label_of_spells (h : parameterLabel.Spells v) : ∃ l : ParameterLabel, v = l.text := by
  obtain ⟨word, _, hword, ⟨space, _, ⟨-, hlength, hspace⟩, rfl, rfl⟩, rfl⟩ := h
  obtain ⟨p, rfl⟩ : ∃ p : Parameter, word = p.word := by
    obtain ⟨w, hw, rfl⟩ := spells_wordOf.1 hword
    rcases List.mem_pair.1 hw with rfl | rfl
    · exact ⟨.name, rfl⟩
    · exact ⟨.value, rfl⟩
  rcases space with _ | ⟨c, _ | ⟨d, more⟩⟩
  · exact ⟨⟨p, false⟩, rfl⟩
  · obtain rfl : c = ' ' := by simpa using hspace c
    exact ⟨⟨p, true⟩, rfl⟩
  · simp at hlength

theorem refuses_parameterLabel (h : ∀ l : ParameterLabel, ¬ l.text <+: v) :
    Refuses parameterLabel v g := by
  apply refuses_of_spells
  intro x hx
  obtain ⟨l, rfl⟩ := exists_label_of_spells hx
  exact h l

theorem takes_parameterLabel (l : ParameterLabel) : Takes parameterLabel l.text r g g := by
  have hspace : Takes (optionalChar (· == ' ')) (if l.spaced then [' '] else []) (':' :: r) g g := by
    cases l.spaced with
    | false =>
        exact takes_longest (by simp) (by simp) (by simp) (Or.inr (eq_false_of_cons (by decide) _))
    | true => exact takes_longest (by simp) (by simp) (by simp) (Or.inl rfl)
  have hword (r : List Char) : Takes (wordOf ["name", "value"]) l.parameter.word r g g := by
    cases l.parameter with
    | name => exact .oneOf [] (by simp) takes_word
    | value =>
        refine .oneOf ["name"] (List.forall_mem_singleton.2 (refuses_word ?_)) takes_word
        simp [Parameter.word]
  exact (hword _).seq (hspace.seq takes_word)

/-- A label does not reach over a comma. -/
theorem not_prefix_label {e u : List Char} (he : ∀ l : ParameterLabel, ¬ l.text <:+: e)
    (hu : u <:+ e) (hy : y = [] ∨ ∃ z, y = ',' :: z) (l : ParameterLabel) : ¬ l.text <+: u ++ y := by
  have hcomma : ',' ∉ l.text := by
    obtain ⟨p, spaced⟩ := l
    cases p <;> cases spaced <;> decide
  intro hpre
  refine he l (List.IsInfix.trans ?_ hu.isInfix)
  rcases hy with rfl | ⟨z, rfl⟩
  · rw [List.append_nil] at hpre
    exact hpre.isInfix
  · exact (prefix_of_prefix_append_cons hcomma hpre).isInfix

/-- No label starts with a blank. -/
theorem not_prefix_label_of_blank {u : List Char} (hu : Blanks u) (hne : u ≠ []) (l : ParameterLabel) :
    ¬ l.text <+: u ++ y := by
  obtain ⟨c, u, rfl⟩ := List.exists_cons_of_ne_nil hne
  have hc := hu c List.mem_cons_self
  obtain ⟨p, spaced⟩ := l
  rintro ⟨z, hz⟩
  cases p <;>
  · obtain ⟨rfl, -⟩ := List.cons.inj hz
    revert hc
    decide

/-- An argument adds its own label, if it has one, to those behind it. -/
theorem counts_argument (a : Argument) {n : Nat} (hy : y = [] ∨ ∃ z, y = ',' :: z)
    (h : Pattern.Counts parameterLabel y n) :
    Pattern.Counts parameterLabel (a.text ++ y) (n + (if a.label.isSome then 1 else 0)) := by
  have hexpression : Pattern.Counts parameterLabel (a.expression ++ y) n :=
    h.refused fun u hu _ => refuses_parameterLabel (not_prefix_label a.unlabelled hu hy)
  rw [Argument.text, List.append_assoc, List.append_assoc]
  refine Pattern.Counts.refused ?_ fun u hu hne => refuses_parameterLabel
    (not_prefix_label_of_blank (fun c hc => a.lead_blank c (hu.subset hc)) hne)
  cases a.label with
  | none => exact hexpression
  | some l => exact hexpression.taken l.text_ne_nil (takes_parameterLabel l)

/-- **The labels of a list of arguments.** -/
theorem counts_argumentList (args : List Argument) :
    Pattern.Counts parameterLabel (argumentList args) (args.countP (·.label.isSome)) := by
  induction args with
  | nil =>
      apply counts_nil
      apply refuses_parameterLabel
      intro l h
      exact l.text_ne_nil (List.prefix_nil.1 h)
  | cons a more ih =>
      rw [List.countP_cons]
      cases more with
      | nil =>
          have h := counts_argument a (Or.inl rfl) ih
          rwa [List.append_nil] at h
      | cons b more =>
          refine counts_argument a (Or.inr ⟨_, rfl⟩) (Pattern.Counts.refused (a := [',']) ih ?_)
          intro u hu hne
          obtain rfl : u = [','] := (List.suffix_cons_iff.1 hu).resolve_right fun h =>
            hne (List.suffix_nil.1 h)
          apply refuses_parameterLabel
          refine not_prefix_label (e := []) (u := []) (fun l h => ?_) List.suffix_rfl (Or.inr ⟨_, rfl⟩)
          exact l.text_ne_nil (List.infix_nil.1 h)

/-! ## Calls that write an entry -/

end

/-- The name of a call that writes an entry, and the blanks up to its opening bracket. -/
structure SetterHead where
  replaces : Bool
  gap : List Char
  gap_blank : Blanks gap

def SetterHead.text (h : SetterHead) : List Char :=
  (if h.replaces then "replace".toList else "set".toList) ++ ("_kb_item".toList ++ h.gap)

def setterText (h : SetterHead) (parameters tail : List Char) : List Char :=
  h.text ++ '(' :: (parameters ++ ')' :: (tail ++ [';']))

structure SetterCall where
  head : SetterHead
  arguments : List Argument
  tail : List Char
  tail_blank : Blanks tail

namespace SetterCall

def parameters (c : SetterCall) : List Char :=
  argumentList c.arguments

def text (c : SetterCall) : List Char :=
  setterText c.head c.parameters c.tail

def count (p : Parameter) (c : SetterCall) : Nat :=
  c.arguments.countP (·.isFor p)

/-- The call has each of the two parameters once. -/
def IsRight (c : SetterCall) : Prop :=
  c.count .name = 1 ∧ c.count .value = 1

instance (c : SetterCall) : Decidable c.IsRight :=
  inferInstanceAs (Decidable (_ ∧ _))

end SetterCall

/-- The text ends within a call that writes an entry and is not closed. -/
def OpensSetter (a : List Char) : Prop :=
  ∃ u, ∃ h : SetterHead, ∃ v, ')' ∉ v ∧ a = u ++ (h.text ++ '(' :: v)

/-- The call stands somewhere in the text, and not within another one that is not closed before. -/
def StandsFree (call t : List Char) : Prop :=
  ∃ a b, t = a ++ (call ++ b) ∧ ¬ OpensSetter a

section
variable {h : SetterHead} {ps tail x a b r : List Char}

/-- The first letter of a head does not come back in it. -/
theorem SetterHead.exists_cons (h : SetterHead) :
    ∃ c y, h.text = c :: y ∧ (c = 's' ∨ c = 'r') ∧ ∀ d ∈ y, d ≠ 's' ∧ d ≠ 'r' ∧ d ≠ '(' ∧ d ≠ ')' := by
  have hgap : ∀ d ∈ h.gap, d ≠ 's' ∧ d ≠ 'r' ∧ d ≠ '(' ∧ d ≠ ')' := by
    intro d hd
    have hblank {c : Char} (hc : isBlank c = false) : d ≠ c :=
      fun heq => h.gap_blank.not_mem hc (heq ▸ hd)
    exact ⟨hblank (by decide), hblank (by decide), hblank (by decide), hblank (by decide)⟩
  cases hreplaces : h.replaces with
  | false =>
      refine ⟨'s', "et_kb_item".toList ++ h.gap, by simp [text, hreplaces], Or.inl rfl, ?_⟩
      exact List.forall_mem_append.2 ⟨by simp, hgap⟩
  | true =>
      refine ⟨'r', "eplace_kb_item".toList ++ h.gap, by simp [text, hreplaces], Or.inr rfl, ?_⟩
      exact List.forall_mem_append.2 ⟨by simp, hgap⟩

theorem SetterHead.ne_bracket (h : SetterHead) : ∀ c ∈ h.text, c ≠ '(' ∧ c ≠ ')' := by
  obtain ⟨d, y, hhead, hd, hy⟩ := h.exists_cons
  rw [hhead]
  refine List.forall_mem_cons.2 ⟨?_, fun c hc => (hy c hc).2.2⟩
  rcases hd with rfl | rfl <;> decide

theorem takes_kbSetter (h : SetterHead) (hne : ps ≠ []) (hps : ')' ∉ ps) (htail : Blanks tail) :
    Takes kbSetter (setterText h ps tail) r [] [("parameters", ps)] := by
  have hparameters : Takes (.group "parameters" (.run .longest 1 none notClosing)) ps
      (')' :: (tail ++ ([';'] ++ r))) [] [("parameters", ps)] := by
    refine (takes_longest ?_ (List.length_pos_iff.2 hne) (by simp) (Or.inr ?_)).group
    · intro c hc
      rw [notClosing, bne_iff_ne]
      rintro rfl
      exact hps hc
    · exact eq_false_of_cons (by decide) _
  have hend {g : List (String × List Char)} : Takes (.seq ")" (.seq .blanks ";"))
      (')' :: (tail ++ [';'])) r g g :=
    (takes_word (w := [')'])).seq ((takes_blanks htail (eq_false_of_cons (by decide) _)).seq
      takes_word)
  have hrest : Takes (.seq "_kb_item" (.seq .blanks (.seq "(" (.seq
      (.group "parameters" (.run .longest 1 none notClosing)) (.seq ")" (.seq .blanks ";"))))))
      ("_kb_item".toList ++ (h.gap ++ (['('] ++ (ps ++ ')' :: (tail ++ [';']))))) r []
      [("parameters", ps)] :=
    takes_word.seq ((takes_blanks h.gap_blank (eq_false_of_cons (by decide) _)).seq
      (takes_word.seq (Takes.seq (by simpa using hparameters) hend)))
  have hword (r : List Char) : Takes (wordOf ["set", "replace"])
      (if h.replaces then "replace".toList else "set".toList) r [] [] := by
    cases h.replaces with
    | false => exact .oneOf [] (by simp) takes_word
    | true =>
        exact .oneOf ["set"] (List.forall_mem_singleton.2 (refuses_word (by simp))) takes_word
  have hassoc (w k z : List Char) : (w ++ (k ++ h.gap)) ++ z = w ++ (k ++ (h.gap ++ z)) := by simp
  rw [setterText, SetterHead.text, hassoc]
  exact (hword _).seq hrest

theorem exists_of_spells_kbSetter (hx : kbSetter.Spells x) :
    ∃ h ps tail, ps ≠ [] ∧ ')' ∉ ps ∧ Blanks tail ∧ x = setterText h ps tail := by
  obtain ⟨word, _, hword, ⟨_, _, rfl, ⟨gap, _, hgap, ⟨_, _, rfl, ⟨ps, _, hps, ⟨_, _, rfl,
    ⟨tail, _, htail, rfl, rfl⟩, rfl⟩, rfl⟩, rfl⟩, rfl⟩, rfl⟩, rfl⟩ := hx
  obtain ⟨replaces, rfl⟩ : ∃ b : Bool, word = if b then "replace".toList else "set".toList := by
    obtain ⟨w, hw, rfl⟩ := spells_wordOf.1 hword
    rcases List.mem_pair.1 hw with rfl | rfl
    · exact ⟨false, rfl⟩
    · exact ⟨true, rfl⟩
  refine ⟨⟨replaces, gap, hgap.2.2⟩, ps, tail, List.length_pos_iff.1 hps.1, fun h => ?_,
    htail.2.2, ?_⟩
  · have := hps.2.2 _ h
    revert this
    decide
  · have hassoc (w k z : List Char) : w ++ (k ++ (gap ++ z)) = (w ++ (k ++ gap)) ++ z := by simp
    exact hassoc _ _ _

/-- The only closing bracket of a call stands before the blanks and the semicolon at its end. -/
theorem suffix_tail_of_suffix {y : List Char} (hy : y <:+ setterText h ps tail) (hbracket : ')' ∉ y) :
    y <:+ tail ++ [';'] := by
  have hsplit : setterText h ps tail = (h.text ++ '(' :: ps) ++ ')' :: (tail ++ [';']) := by
    simp [setterText]
  rw [hsplit] at hy
  rcases suffix_append_cases hy with hy | ⟨v, -, -, rfl⟩
  · refine (List.suffix_cons_iff.1 hy).resolve_left ?_
    rintro rfl
    exact hbracket List.mem_cons_self
  · exact absurd (List.mem_append_right _ List.mem_cons_self) hbracket

theorem not_head_suffix_tail {c : Char} {y : List Char} (htail : Blanks tail)
    (hc : c = 's' ∨ c = 'r') : ¬ c :: y <:+ tail ++ [';'] := by
  intro hy
  have hmem : c ∈ tail ++ [';'] := hy.subset List.mem_cons_self
  rcases List.mem_append.1 hmem with hmem | hmem
  · rcases hc with rfl | rfl <;> exact htail.not_mem (by decide) hmem
  · rw [List.mem_singleton] at hmem
    subst hmem
    revert hc
    decide

/-- Where a head starts behind the start of a call, it stands in the parameters. -/
theorem opensSetter_of_split {c : Char} {y : List Char} (hps : ')' ∉ ps) (htail : Blanks tail)
    (ha : a ≠ []) (hc : c = 's' ∨ c = 'r') (heq : setterText h ps tail = a ++ c :: y) :
    OpensSetter a := by
  have hopening : c ≠ '(' := by rcases hc with rfl | rfl <;> decide
  have hclosing : c ≠ ')' := by rcases hc with rfl | rfl <;> decide
  rcases List.append_eq_append_iff.1 heq with ⟨v, rfl, hv⟩ | ⟨w, hw, hy⟩
  · rcases List.cons_eq_append_iff.1 hv with ⟨rfl, hstart⟩ | ⟨v, rfl, hbehind⟩
    · exact absurd (List.cons.inj hstart).1 hopening
    refine ⟨[], h, v, fun hmem => ?_, rfl⟩
    -- behind the closing bracket there is no place for a head
    rcases List.append_eq_append_iff.1 hbehind with ⟨z, rfl, hz⟩ | ⟨z, rfl, -⟩
    · rcases List.cons_eq_append_iff.1 hz with ⟨rfl, hstart⟩ | ⟨z, rfl, hend⟩
      · exact absurd (List.cons.inj hstart).1 hclosing
      · exact not_head_suffix_tail htail hc ⟨z, hend.symm⟩
    · exact hps (List.mem_append_left _ hmem)
  · rcases List.cons_eq_append_iff.1 hy with ⟨rfl, hstart⟩ | ⟨w, rfl, -⟩
    · exact absurd (List.cons.inj hstart).1.symm hopening
    obtain ⟨d, z, hhead, -, hz⟩ := h.exists_cons
    obtain ⟨e, a, rfl⟩ := List.exists_cons_of_ne_nil ha
    rw [hhead] at hw
    have hmem : c ∈ z := by
      rw [(List.cons.inj hw).2]
      simp
    rcases hc with rfl | rfl
    · exact absurd rfl (hz _ hmem).1
    · exact absurd rfl (hz _ hmem).2.1

theorem not_mem_argumentList (args : List Argument) : ')' ∉ argumentList args := by
  have htext (a : Argument) : ')' ∉ a.text := by
    have hlead : ')' ∉ a.lead := a.lead_blank.not_mem (by decide)
    have hlabel : ')' ∉ (a.label.map ParameterLabel.text).getD [] := by
      rcases a.label with _ | ⟨p, spaced⟩
      · exact List.not_mem_nil
      · cases p <;> cases spaced <;> decide
    simp [Argument.text, hlead, hlabel, a.unclosed]
  induction args with
  | nil => exact List.not_mem_nil
  | cons a more ih =>
      cases more with
      | nil => exact htext a
      | cons b more => simp [argumentList, htext a, ih]

/-- A text in front of a call that leaves another one open makes a longer call of both. -/
theorem exists_setterText_of_opensSetter (c : SetterCall) (ha : OpensSetter a) :
    ∃ u h ps, u.length < a.length ∧ ps ≠ [] ∧ ')' ∉ ps ∧
      (∃ y, ')' ∉ y ∧ a = u ++ (h.text ++ y)) ∧
      a ++ (c.text ++ b) = u ++ (setterText h ps c.tail ++ b) := by
  obtain ⟨u, h, v, hv, rfl⟩ := ha
  obtain ⟨d, y, hhead, -, -⟩ := h.exists_cons
  refine ⟨u, h, v ++ (c.head.text ++ '(' :: c.parameters), by simp [hhead], by simp, ?_,
    ⟨'(' :: v, by simp [hv], rfl⟩, by simp [SetterCall.text, setterText]⟩
  have hparameters : ')' ∉ c.parameters := not_mem_argumentList _
  have hbracket : ')' ∉ c.head.text := fun hmem => (c.head.ne_bracket _ hmem).2 rfl
  simp [hv, hbracket, hparameters]

theorem OpensSetter.append_left (ha : OpensSetter a) (u : List Char) : OpensSetter (u ++ a) := by
  obtain ⟨v, h, w, hw, rfl⟩ := ha
  exact ⟨u ++ v, h, w, hw, by simp⟩

/-! ## Which calls are looked at -/

/-- A call with parameters that stands in no open one is looked at. -/
theorem exists_mem_findAll_of_not_opensSetter (c : SetterCall) (hne : c.parameters ≠ [])
    (ha : ¬ OpensSetter a) : ∃ m ∈ kbSetter.findAll (a ++ (c.text ++ b)), m.start = a.length := by
  have htakes : Takes kbSetter c.text b [] _ :=
    takes_kbSetter c.head hne (not_mem_argumentList _) c.tail_blank
  obtain ⟨m, hm, hstart, hstop⟩ := htakes.exists_mem_findAll a
  refine ⟨m, hm, Nat.le_antisymm hstart (Nat.not_lt.1 fun hbefore => ha ?_)⟩
  -- a match that starts before ends behind the place, so the head of the call stands in it
  obtain ⟨u, x, y, r, rfl, hy, htext, hu, hlength, hspells⟩ :=
    exists_split_of_mem_findAll hm hstart (by omega)
  obtain ⟨h, ps, tail, -, hps, htail, hsetter⟩ := exists_of_spells_kbSetter hspells
  obtain ⟨d, z, hhead, hd, -⟩ := c.head.exists_cons
  have hx : x ≠ [] := by
    rintro rfl
    rw [List.append_nil] at hbefore
    omega
  obtain ⟨e, y, rfl⟩ := List.exists_cons_of_length_pos (by omega : 0 < y.length)
  obtain rfl : d = e := by
    rw [SetterCall.text, setterText, hhead] at hy
    exact (List.cons.inj hy).1
  rw [htext] at hsetter
  exact (opensSetter_of_split hps htail hx hd hsetter.symm).append_left u

theorem start_lt_stop {t : List Char} {m : Match} (hm : m ∈ kbSetter.findAll t) :
    m.start < m.stop := by
  obtain ⟨u, r, -, hstart, hstop, hspells⟩ := exists_append_of_mem_findAll hm
  obtain ⟨h, ps, tail, -, -, -, htext⟩ := exists_of_spells_kbSetter hspells
  rw [hstart, hstop, htext, setterText, List.length_append, List.length_cons]
  omega

/-- A call in an open one is not looked at. -/
theorem not_opensSetter_of_mem_findAll (c : SetterCall) {m : Match}
    (hm : m ∈ kbSetter.findAll (a ++ (c.text ++ b))) (hstart : m.start = a.length) :
    ¬ OpensSetter a := by
  intro ha
  obtain ⟨u, h, ps, hlength, hne, hps, ⟨y, hy, hsplit⟩, heq⟩ :=
    exists_setterText_of_opensSetter (b := b) c ha
  have htakes : Takes kbSetter (setterText h ps c.tail) b [] _ :=
    takes_kbSetter h hne hps c.tail_blank
  obtain ⟨m', hm', hbefore, hbehind⟩ := htakes.exists_mem_findAll u
  rw [← heq] at hm'
  -- the match there would have to end before this one starts, but it has no place for its bracket
  have hstop : m'.stop ≤ a.length := by
    refine Nat.not_lt.1 fun hlt => ?_
    have hsame : m = m' := eq_of_occupies hm hm' (n := a.length)
      ⟨Nat.le_of_eq hstart, by omega⟩ ⟨by omega, by omega⟩
    rw [hsame] at hstart
    omega
  have hnonempty := start_lt_stop hm'
  rw [hsplit, List.append_assoc] at hm'
  obtain ⟨-, x, z, r, -, hz, htext, -, hend, hspells⟩ :=
    exists_split_of_mem_findAll hm' hbefore (by omega)
  obtain ⟨h', ps', tail', -, -, htail', hsetter⟩ := exists_of_spells_kbSetter hspells
  obtain ⟨w, hw⟩ : z <+: h.text ++ y := by
    refine List.prefix_of_prefix_length_le ⟨r, hz.symm⟩ (List.prefix_append _ _) ?_
    rw [hsplit, List.length_append] at hstop
    omega
  obtain ⟨d, v, hhead, hd, -⟩ := h.exists_cons
  obtain ⟨e, z, rfl⟩ := List.exists_cons_of_length_pos (by omega : 0 < z.length)
  have hbracket : ')' ∉ e :: z := by
    intro hmem
    rcases List.mem_append.1 (hw ▸ List.mem_append_left _ hmem : ')' ∈ h.text ++ y) with hmem | hmem
    · exact (h.ne_bracket _ hmem).2 rfl
    · exact hy hmem
  obtain rfl : e = d := by
    rw [hhead] at hw
    exact (List.cons.inj hw).1
  exact not_head_suffix_tail htail' hd
    (suffix_tail_of_suffix ⟨x, by rw [← htext, hsetter]⟩ hbracket)

theorem parameters_ne_nil_of_mem_findAll (c : SetterCall) {m : Match}
    (hm : m ∈ kbSetter.findAll (a ++ (c.text ++ b))) (hstart : m.start = a.length) :
    c.parameters ≠ [] := by
  intro hnil
  obtain ⟨u, r, heq, hu, -, hspells⟩ := exists_append_of_mem_findAll hm
  obtain ⟨rfl, hrest⟩ := List.append_inj heq (by omega)
  obtain ⟨h, ps, tail, hne, hps, -, htext⟩ := exists_of_spells_kbSetter hspells
  obtain ⟨d, ps, rfl⟩ := List.exists_cons_of_ne_nil hne
  have hopening (h : SetterHead) : ∀ c ∈ h.text, (c != '(') = true :=
    fun c hc => bne_iff_ne.2 (h.ne_bracket c hc).1
  have hbracket : ∀ v c z, '(' :: v = c :: z → (c != '(') = false := eq_false_of_cons (by decide)
  rw [SetterCall.text, hnil, htext, setterText, setterText, List.append_assoc, List.append_assoc]
    at hrest
  have hbehind := (eq_of_append_eq_append (hopening _) (hopening _) (hbracket _) (hbracket _) hrest).2
  obtain rfl : ')' = d := (List.cons.inj (List.cons.inj hbehind).2).1
  exact hps List.mem_cons_self

/-- **Which calls are looked at.** -/
theorem setter_seen_iff (c : SetterCall) (a b : List Char) :
    (∃ m ∈ kbSetter.findAll (a ++ (c.text ++ b)), m.start = a.length) ↔
      c.parameters ≠ [] ∧ ¬ OpensSetter a := by
  constructor
  · rintro ⟨m, hm, hstart⟩
    exact ⟨parameters_ne_nil_of_mem_findAll c hm hstart, not_opensSetter_of_mem_findAll c hm hstart⟩
  · rintro ⟨hne, ha⟩
    exact exists_mem_findAll_of_not_opensSetter c hne ha

/-- Every label is that of one of the two parameters. -/
theorem countP_isSome (args : List Argument) :
    args.countP (·.label.isSome) = args.countP (·.isFor .name) + args.countP (·.isFor .value) := by
  induction args with
  | nil => rfl
  | cons arg more ih =>
      have hone : (if arg.label.isSome then 1 else 0) =
          (if arg.isFor .name then 1 else 0) + (if arg.isFor .value then 1 else 0) := by
        rcases hlabel : arg.label with _ | ⟨p, spaced⟩
        · simp [Argument.isFor, hlabel]
        · cases p <;> simp [Argument.isFor, hlabel]
      rw [List.countP_cons, List.countP_cons, List.countP_cons, ih, hone]
      omega

/-- A match that starts where a call stands covers the call, and its labels are those of the call. -/
theorem text_and_labelCount (c : SetterCall) {m : Match}
    (hm : m ∈ kbSetter.findAll (a ++ (c.text ++ b))) (hstart : m.start = a.length) :
    m.text = c.text ∧ labelCount m = c.count .name + c.count .value := by
  have hne := parameters_ne_nil_of_mem_findAll c hm hstart
  have hcovers : m.Covers a.length c.text [("parameters", c.parameters)] :=
    covers_of_mem_findAll (takes_kbSetter c.head hne (not_mem_argumentList _) c.tail_blank) hm hstart
  refine ⟨hcovers.text_eq, ?_⟩
  rw [labelCount, hcovers.group_eq (List.lookup_cons_self), SetterCall.parameters,
    (counts_argumentList c.arguments).length_findAll, countP_isSome]
  rfl

end

/-! ## Which calls are reported -/

def setterOpening : String :=
  "The VT/Include is missing a 'name:' and/or 'value:' parameter: "

def getterOpening : String :=
  "The VT/Include is using a non-existent 'name:' and/or 'value:' parameter: "

def setterMessage (call : List Char) : String :=
  setterOpening ++ String.ofList call

def getterMessage (call : List Char) : String :=
  getterOpening ++ String.ofList call

/-- An error says that the call lacks a parameter. -/
def TellsSetter (call : List Char) (o : Outcome Finding) : Prop :=
  ∃ f ∈ o.results, f.severity = .error ∧ f.message = setterMessage call

theorem getterMessage_ne (x y : List Char) : getterMessage x ≠ setterMessage y := by
  intro h
  have hlists := congrArg (fun m => m.toList.take 19) h
  simp only [setterMessage, getterMessage, String.toList_append] at hlists
  rw [List.take_append_of_le_length (by decide), List.take_append_of_le_length (by decide)] at hlists
  revert hlists
  decide

theorem findings_knowledgeBaseParameters {s : Subject} {t : List Char} (w : Surroundings)
    (htext : s.text = .ok t) : knowledgeBaseParameters.findings s w =
      .done ((((kbSetter.findAll t).filter fun m => labelCount m != 2).map fun m =>
          (Remark.error (setterMessage m.text)).toFinding s.file knowledgeBaseParameters.name) ++
        (((kbGetter.findAll t).filter fun m => labelCount m != 0).map fun m =>
          (Remark.error (getterMessage m.text)).toFinding s.file knowledgeBaseParameters.name)) := by
  simp only [FileCheck.findings, knowledgeBaseParameters, Subject.onText, Subject.withText, htext,
    Outcome.map, Outcome.done, List.map_append, List.map_map]
  rfl

theorem tellsSetter_iff {s : Subject} {t : List Char} (w : Surroundings) (htext : s.text = .ok t)
    (call : List Char) :
    TellsSetter call (knowledgeBaseParameters.findings s w) ↔
      ∃ m ∈ kbSetter.findAll t, labelCount m ≠ 2 ∧ m.text = call := by
  rw [findings_knowledgeBaseParameters w htext, TellsSetter, Outcome.done]
  constructor
  · rintro ⟨f, hf, -, hmessage⟩
    rcases List.mem_append.1 hf with hf | hf
    · obtain ⟨m, hm, rfl⟩ := List.mem_map.1 hf
      obtain ⟨hm, hlabels⟩ := List.mem_filter.1 hm
      exact ⟨m, hm, bne_iff_ne.1 hlabels, append_ofList_inj hmessage⟩
    · obtain ⟨m, -, rfl⟩ := List.mem_map.1 hf
      exact absurd hmessage (getterMessage_ne _ _)
  · rintro ⟨m, hm, hlabels, rfl⟩
    refine ⟨_, List.mem_append_left _ (List.mem_map.2 ⟨m, ?_, rfl⟩), rfl, rfl⟩
    exact List.mem_filter.2 ⟨hm, bne_iff_ne.2 hlabels⟩

/-- **Which calls are reported.** The check comes to its end. A call that stands in the file is
reported if and only if it has parameters, its labels are not two, and it stands somewhere in no open
call. So a call is judged by whether it has each parameter once if and only if it has, or it is one of
the calls reported: a call that gives one parameter twice and not the other is passed over. -/
theorem setter_reported_iff {s : Subject} {t : List Char} (w : Surroundings) (htext : s.text = .ok t)
    (c : SetterCall) (hc : c.text <:+: t) :
    (knowledgeBaseParameters.findings s w).fault = none ∧
      (TellsSetter c.text (knowledgeBaseParameters.findings s w) ↔
        c.parameters ≠ [] ∧ c.count .name + c.count .value ≠ 2 ∧ StandsFree c.text t) ∧
      ((TellsSetter c.text (knowledgeBaseParameters.findings s w) ↔ ¬ c.IsRight) ↔
        c.IsRight ∨ c.parameters ≠ [] ∧ c.count .name + c.count .value ≠ 2 ∧ StandsFree c.text t) := by
  have hreported : TellsSetter c.text (knowledgeBaseParameters.findings s w) ↔
      c.parameters ≠ [] ∧ c.count .name + c.count .value ≠ 2 ∧ StandsFree c.text t := by
    rw [tellsSetter_iff w htext]
    constructor
    · rintro ⟨m, hm, hlabels, hcall⟩
      obtain ⟨u, r, rfl, hstart, -, -⟩ := exists_append_of_mem_findAll hm
      rw [hcall] at hm ⊢
      obtain ⟨hne, hfree⟩ := (setter_seen_iff c u r).1 ⟨m, hm, hstart⟩
      rw [(text_and_labelCount c hm hstart).2] at hlabels
      exact ⟨hne, hlabels, u, r, rfl, hfree⟩
    · rintro ⟨hne, hlabels, a, b, rfl, hfree⟩
      obtain ⟨m, hm, hstart⟩ := (setter_seen_iff c a b).2 ⟨hne, hfree⟩
      obtain ⟨hcall, hcount⟩ := text_and_labelCount c hm hstart
      exact ⟨m, hm, by rwa [hcount], hcall⟩
  refine ⟨by rw [findings_knowledgeBaseParameters w htext]; rfl, hreported, ?_⟩
  rw [hreported]
  by_cases hright : c.IsRight
  · simp [hright, hright.1, hright.2]
  · simp [hright]

/-- Behind a closing bracket no call is open, unless another one is opened. -/
theorem not_opensSetter_of_closed {y z : List Char} (hz : '(' ∉ z) :
    ¬ OpensSetter (y ++ ')' :: z) := by
  rintro ⟨u, h, v, hv, heq⟩
  rw [← List.append_assoc] at heq
  rcases List.append_eq_append_iff.1 heq with ⟨x, -, hx⟩ | ⟨x, -, hx⟩
  · rcases List.cons_eq_append_iff.1 hx with ⟨rfl, hstart⟩ | ⟨x, rfl, rfl⟩
    · cases hstart
    · exact hz (by simp)
  · rcases List.cons_eq_append_iff.1 hx with ⟨rfl, hstart⟩ | ⟨x, rfl, rfl⟩
    · cases hstart
    · exact hv (by simp)

def keyArgument (lead : Bool) : Argument where
  lead := if lead then [' '] else []
  label := some ⟨.name, false⟩
  expression := "\"kb/key\"".toList
  lead_blank := by
    cases lead
    · exact Blanks.nil
    · exact Blanks.space
  unclosed := by decide
  unlabelled := by
    rintro ⟨p, spaced⟩
    cases p <;> cases spaced <;> exact not_infix_of_contains (by decide)

/-- A call that names an entry as often as it has arguments. -/
def namingCall (arguments : List Argument) : SetterCall where
  head := ⟨true, [], Blanks.nil⟩
  arguments := arguments
  tail := []
  tail_blank := Blanks.nil

/-- A call without a value is reported, also behind another call. -/
theorem setter_reported_behind_call :
    let c := namingCall [keyArgument false]
    let t := "set_kb_item(name:\"a\", value:1);\n".toList ++ c.text
    let s : Subject := { root := ⟨"/", []⟩, file := ⟨"/", ["a.nasl"]⟩, text := .ok t }
    let w : Surroundings := { tree := .empty, now := default }
    s.text = .ok t ∧ c.text <:+: t ∧
      TellsSetter c.text (knowledgeBaseParameters.findings s w) := by
  intro c t s w
  have hc : c.text <:+: t := ⟨"set_kb_item(name:\"a\", value:1);\n".toList, [], by simp [t]⟩
  refine ⟨rfl, hc, (setter_reported_iff w rfl c hc).2.1.2 ⟨by decide, by decide, ?_⟩⟩
  refine ⟨"set_kb_item(name:\"a\", value:1);\n".toList, [], by simp [t], ?_⟩
  exact not_opensSetter_of_closed (y := "set_kb_item(name:\"a\", value:1".toList)
    (z := [';', '\n']) (by decide)

/-- A call that names its entry twice is not reported. -/
theorem doubled_name_unreported :
    let c := namingCall [keyArgument false, keyArgument true]
    let s : Subject := { root := ⟨"/", []⟩, file := ⟨"/", ["a.nasl"]⟩, text := .ok c.text }
    let w : Surroundings := { tree := .empty, now := default }
    c.text = "replace_kb_item(name:\"kb/key\", name:\"kb/key\");".toList ∧ ¬ c.IsRight ∧
      (knowledgeBaseParameters.findings s w).results = [] := by
  intro c s w
  exact ⟨by decide, by decide, by decide +kernel⟩

end Checks

end NaslLint
