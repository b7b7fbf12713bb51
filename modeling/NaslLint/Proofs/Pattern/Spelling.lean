import NaslLint.Proofs.Pattern.Search

/-!
# What a pattern spells

The text between the two ends of a fit depends on the pattern alone, and a fit does not depend on
what follows it.

* `Pattern.Spells` are the texts that a pattern can cover; `Pattern.spells_of_mem_ends` says that a
  fit covers one of them.
* `Pattern.keepsTo_of_mem_ends` says that a fit covers no other characters than its pattern uses.
* `Pattern.carries_ends` carries a fit over to another text in which the same words stand.
-/

namespace NaslLint

namespace Place
variable {s t u : Place}

/-- The stretch over two fits is the stretch over the first and then the second. -/
theorem Leads.spanTo_text_append (hsu : s.Leads u) (hut : u.Leads t) :
    (s.spanTo t).text = (s.spanTo u).text ++ (u.spanTo t).text := by
  have h := (hsu.trans hut).rest_eq
  rw [hsu.rest_eq, hut.rest_eq, ← List.append_assoc] at h
  exact (List.append_cancel_right h).symm

theorem spanTo_self_text (s : Place) : (s.spanTo s).text = [] := by
  rw [spanTo_text, Nat.sub_self, List.take_zero]

theorem spanTo_move_text_of_rest {x r : List Char} (h : s.rest = x ++ r) :
    (s.spanTo (s.move x.length)).text = x := by
  rw [spanTo_move_text (by simp [h]), h, List.take_left]

end Place

namespace Pattern

/-- The texts that a pattern can cover. Places at which it is anchored do not count, and a group
taken once more may hold any text. -/
def Spells : Pattern → List Char → Prop
  | .nothing, x => x = []
  | .word w, x => x = w
  | .wordAnyCase w, x => List.Forall₂ (fun a b => Text.sameLetter a b = true) w x
  | .one cls, x => ∃ c, cls c = true ∧ x = [c]
  | .run _ lo hi cls, x =>
    lo ≤ x.length ∧ (∀ h ∈ hi, x.length ≤ max lo h) ∧ ∀ c ∈ x, cls c = true
  | .seq p q, x => ∃ y z, p.Spells y ∧ q.Spells z ∧ x = y ++ z
  | .alt p q, x => p.Spells x ∨ q.Spells x
  | .many lo hi p, x =>
    ∃ parts : List (List Char), (∀ y ∈ parts, p.Spells y) ∧ lo ≤ parts.length ∧
      (∀ h ∈ hi, parts.length ≤ max lo h) ∧ x = parts.flatten
  | .group _ p, x => p.Spells x
  | .again _, _ => True
  | .textStart, x => x = []
  | .lineStart, x => x = []
  | .textEnd, x => x = []
  | .lineEnd, x => x = []

section
variable {size : Nat} {s t : Place} {p q : Pattern} {x : List Char}

theorem spells_word {w : List Char} : (word w).Spells x ↔ x = w := Iff.rfl

theorem spells_chain_cons {ps : List Pattern} :
    (chain (p :: q :: ps)).Spells x ↔
      ∃ y z, p.Spells y ∧ (chain (q :: ps)).Spells z ∧ x = y ++ z := Iff.rfl

theorem spells_chain_append {ps qs : List Pattern} (hps : ps ≠ []) (hqs : qs ≠ []) :
    (chain (ps ++ qs)).Spells x ↔
      ∃ y z, (chain ps).Spells y ∧ (chain qs).Spells z ∧ x = y ++ z := by
  obtain ⟨q, qs, rfl⟩ := List.exists_cons_of_ne_nil hqs
  induction ps generalizing x with
  | nil => exact absurd rfl hps
  | cons p ps ih =>
      cases ps with
      | nil => exact spells_chain_cons
      | cons p' ps =>
          rw [List.cons_append, List.cons_append, spells_chain_cons, ← List.cons_append]
          constructor
          · rintro ⟨y, z, hy, hz, rfl⟩
            obtain ⟨y', z', hy', hz', rfl⟩ := (ih (by simp)).1 hz
            exact ⟨y ++ y', z', ⟨y, y', hy, hy', rfl⟩, hz', by simp⟩
          · rintro ⟨_, z, ⟨y, y', hy, hy', rfl⟩, hz, rfl⟩
            exact ⟨y, y' ++ z, hy, (ih (by simp)).2 ⟨y', z, hy', hz, rfl⟩, by simp⟩

theorem ends_chain_append {ps qs : List Pattern} (hps : ps ≠ []) (hqs : qs ≠ []) (size : Nat)
    (s : Place) : (chain (ps ++ qs)).ends size s =
      ((chain ps).ends size s).flatMap ((chain qs).ends size) := by
  obtain ⟨q, qs, rfl⟩ := List.exists_cons_of_ne_nil hqs
  induction ps generalizing s with
  | nil => exact absurd rfl hps
  | cons p ps ih =>
      cases ps with
      | nil => rfl
      | cons p' ps =>
          show (p.ends size s).flatMap ((chain (p' :: ps ++ q :: qs)).ends size) =
            ((p.ends size s).flatMap ((chain (p' :: ps)).ends size)).flatMap _
          rw [List.flatMap_assoc]
          congr 1
          funext t
          exact ih (by simp) t

theorem mem_ends_chain_append {ps qs : List Pattern} (hps : ps ≠ []) (hqs : qs ≠ []) :
    t ∈ (chain (ps ++ qs)).ends size s ↔
      ∃ u ∈ (chain ps).ends size s, t ∈ (chain qs).ends size u := by
  rw [ends_chain_append hps hqs, List.mem_flatMap]

theorem spells_optional : (optional p).Spells x ↔ x = [] ∨ p.Spells x := by
  rw [optional, Spells]
  constructor
  · rintro ⟨parts, hparts, -, hlen, rfl⟩
    have hlen : parts.length ≤ 1 := by simpa using hlen
    rcases parts with _ | ⟨y, _ | ⟨z, parts⟩⟩
    · exact Or.inl rfl
    · exact Or.inr (by simpa using hparts)
    · simp at hlen
  · rintro (rfl | h)
    · exact ⟨[], by simp, by simp, by simp, rfl⟩
    · exact ⟨[x], by simpa using h, by simp, by simp, by simp⟩

theorem spells_oneOf {ps : List Pattern} : (oneOf ps).Spells x ↔ ∃ p ∈ ps, p.Spells x := by
  induction ps with
  | nil => simp [oneOf, Spells]
  | cons p ps ih =>
      cases ps with
      | nil => simp [oneOf]
      | cons q ps =>
          rw [oneOf, Spells, ih]
          simp

theorem spells_wordOf {words : List String} :
    (wordOf words).Spells x ↔ ∃ w ∈ words, x = w.toList := by
  rw [wordOf, spells_oneOf]
  simp only [List.mem_map, exists_exists_and_eq_and, spells_word]

theorem spells_of_mem_afterTimes {step : Place → List Place} {P : List Char → Prop}
    (hleads : ∀ s t, t ∈ step s → s.Leads t) (hstep : ∀ s t, t ∈ step s → P (s.spanTo t).text)
    {n : Nat} (h : t ∈ afterTimes step n s) :
    ∃ parts : List (List Char), (∀ y ∈ parts, P y) ∧ parts.length = n ∧
      (s.spanTo t).text = parts.flatten := by
  induction n generalizing s with
  | zero =>
      rw [List.mem_singleton.1 h]
      exact ⟨[], by simp, rfl, Place.spanTo_self_text s⟩
  | succ n ih =>
      obtain ⟨u, hu, ht⟩ := List.mem_flatMap.1 h
      obtain ⟨parts, hparts, hlen, htext⟩ := ih ht
      refine ⟨(s.spanTo u).text :: parts, ?_, by rw [List.length_cons, hlen], ?_⟩
      · exact List.forall_mem_cons.2 ⟨hstep s u hu, hparts⟩
      · rw [(hleads s u hu).spanTo_text_append (leads_of_mem_afterTimes hleads ht), htext]
        rfl

theorem spells_of_mem_afterUpTo {step : Place → List Place} {P : List Char → Prop}
    (hleads : ∀ s t, t ∈ step s → s.Leads t) (hstep : ∀ s t, t ∈ step s → P (s.spanTo t).text)
    {n : Nat} (h : t ∈ afterUpTo step n s) :
    ∃ parts : List (List Char), (∀ y ∈ parts, P y) ∧ parts.length ≤ n ∧
      (s.spanTo t).text = parts.flatten := by
  induction n generalizing s with
  | zero =>
      rw [List.mem_singleton.1 h]
      exact ⟨[], by simp, Nat.le_refl 0, Place.spanTo_self_text s⟩
  | succ n ih =>
      rcases List.mem_append.1 h with h | h
      · obtain ⟨u, hu, ht⟩ := List.mem_flatMap.1 h
        by_cases hpos : u.pos = s.pos
        · rw [if_pos hpos, List.mem_singleton] at ht
          subst ht
          exact ⟨[(s.spanTo t).text], by simpa using hstep s t hu, by simp, by simp⟩
        · rw [if_neg hpos] at ht
          obtain ⟨parts, hparts, hlen, htext⟩ := ih ht
          refine ⟨(s.spanTo u).text :: parts, ?_, by rw [List.length_cons]; omega, ?_⟩
          · exact List.forall_mem_cons.2 ⟨hstep s u hu, hparts⟩
          · rw [(hleads s u hu).spanTo_text_append (leads_of_mem_afterUpTo hleads ht), htext]
            rfl
      · rw [List.mem_singleton.1 h]
        exact ⟨[], by simp, Nat.zero_le _, Place.spanTo_self_text s⟩

theorem spanTo_text_of_mem_ite {b : Bool} (h : t ∈ if b then [s] else []) :
    (s.spanTo t).text = [] := by
  rw [eq_of_mem_ite h, Place.spanTo_self_text]

/-- A fit covers a text that its pattern spells. -/
theorem spells_of_mem_ends (h : t ∈ p.ends size s) : p.Spells (s.spanTo t).text := by
  induction p generalizing s t with
  | nothing => rw [mem_ends_nothing.1 h]; exact Place.spanTo_self_text s
  | word w =>
      obtain ⟨⟨r, hr⟩, rfl⟩ := mem_ends_word.1 h
      exact Place.spanTo_move_text_of_rest hr.symm
  | wordAnyCase w =>
      obtain ⟨u, r, hr, hu, rfl⟩ := mem_ends_wordAnyCase.1 h
      rw [Place.spanTo_move_text_of_rest hr]
      exact hu
  | one cls =>
      obtain ⟨c, r, hr, hc, rfl⟩ := mem_ends_one.1 h
      exact ⟨c, hc, Place.spanTo_move_text_of_rest (x := [c]) hr⟩
  | run pref lo hi cls =>
      obtain ⟨u, r, hr, hlo, hhi, hcls, rfl⟩ := mem_ends_run.1 h
      rw [Place.spanTo_move_text_of_rest hr]
      exact ⟨hlo, hhi, hcls⟩
  | seq p q ihp ihq =>
      obtain ⟨u, hu, ht⟩ := mem_ends_seq.1 h
      exact ⟨_, _, ihp hu, ihq ht,
        (leads_of_mem_ends hu).spanTo_text_append (leads_of_mem_ends ht)⟩
  | alt p q ihp ihq => exact (mem_ends_alt.1 h).imp ihp ihq
  | many lo hi p ih =>
      rw [ends, List.mem_flatMap] at h
      obtain ⟨u, hu, ht⟩ := h
      have hleads : ∀ s t, t ∈ p.ends size s → s.Leads t := fun _ _ => leads_of_mem_ends
      obtain ⟨parts, hparts, hlen, htext⟩ := spells_of_mem_afterTimes hleads (fun _ _ => ih) hu
      obtain ⟨more, hmore, hlen', htext'⟩ := spells_of_mem_afterUpTo hleads (fun _ _ => ih) ht
      refine ⟨parts ++ more, ?_, by simp [hlen], ?_, ?_⟩
      · simpa [or_imp, forall_and] using ⟨hparts, hmore⟩
      · intro h hh
        obtain rfl : hi = some h := hh
        rw [moreTimes] at hlen'
        rw [List.length_append]
        omega
      · rw [(leads_of_mem_afterTimes hleads hu).spanTo_text_append
          (leads_of_mem_afterUpTo hleads ht), htext, htext', List.flatten_append]
  | group name p ih =>
      obtain ⟨u, hu, rfl⟩ := mem_ends_group.1 h
      exact show p.Spells (s.spanTo u).text from ih hu
  | again name => trivial
  | textStart => exact spanTo_text_of_mem_ite h
  | lineStart => exact spanTo_text_of_mem_ite h
  | textEnd => exact spanTo_text_of_mem_ite h
  | lineEnd => exact spanTo_text_of_mem_ite h

/-! ## Words on which a pattern always fits -/

/-- The pattern fits wherever the word stands, and can end behind it. -/
def Fits (p : Pattern) (x : List Char) : Prop :=
  ∀ size s r, s.rest = x ++ r → ∃ t ∈ p.ends size s, t.rest = r

theorem fits_word (w : List Char) : Fits (word w) w := by
  intro size s r hr
  refine ⟨s.move w.length, mem_ends_word.2 ⟨⟨r, hr.symm⟩, rfl⟩, ?_⟩
  rw [Place.rest_move, hr, List.drop_left]

theorem fits_one {cls : Char → Bool} {c : Char} (hc : cls c = true) : Fits (one cls) [c] := by
  intro size s r hr
  refine ⟨s.move 1, mem_ends_one.2 ⟨c, r, hr, hc, rfl⟩, ?_⟩
  rw [Place.rest_move, hr]
  rfl

namespace Fits
variable {y : List Char}

theorem chain_last (hp : Fits p x) : Fits (chain [p]) x := hp

theorem chain_cons {ps : List Pattern} (hp : Fits p x) (hq : Fits (chain (q :: ps)) y) :
    Fits (chain (p :: q :: ps)) (x ++ y) := by
  intro size s r hr
  rw [List.append_assoc] at hr
  obtain ⟨u, hu, hur⟩ := hp size s _ hr
  obtain ⟨t, ht, htr⟩ := hq size u r hur
  exact ⟨t, mem_ends_seq.2 ⟨u, hu, ht⟩, htr⟩

theorem oneOf {ps : List Pattern} (hp : Fits p x) (hmem : p ∈ ps) : Fits (oneOf ps) x := by
  intro size s r hr
  obtain ⟨t, ht, htr⟩ := hp size s r hr
  exact ⟨t, mem_ends_oneOf.2 ⟨p, hmem, ht⟩, htr⟩

theorem optional (hp : Fits p x) : Fits (optional p) x := by
  intro size s r hr
  obtain ⟨t, ht, htr⟩ := hp size s r hr
  exact ⟨t, by rw [ends_optional]; exact List.mem_append_left _ ht, htr⟩

end Fits

theorem fits_optional_nil (p : Pattern) : Fits (optional p) [] := by
  intro size s r hr
  exact ⟨s, by rw [ends_optional]; simp, hr⟩

/-! ## Groups -/

/-- The stretches that a fit has filled lie in the text it started from. -/
theorem source_suffix_of_mem_ends (h : t ∈ p.ends size s) :
    ∀ g ∈ t.groups, g ∈ s.groups ∨ g.2.source <:+ s.rest := by
  refine And.right (rel_of_mem_ends (R := fun s t => s.Leads t ∧
    ∀ g ∈ t.groups, g ∈ s.groups ∨ g.2.source <:+ s.rest) ?_ ?_ ?_ h)
  · rintro s u t ⟨hsu, hu⟩ ⟨hut, ht⟩
    refine ⟨hsu.trans hut, fun g hg => ?_⟩
    rcases ht g hg with hg | hg
    · exact hu g hg
    · exact Or.inr (hg.trans hsu.rest_suffix)
  · intro s n hn
    exact ⟨.move hn, fun g hg => Or.inl (by simpa using hg)⟩
  · rintro s u name ⟨hsu, hu⟩
    refine ⟨hsu.fill, fun g hg => ?_⟩
    rcases List.mem_cons.1 hg with rfl | hg
    · exact Or.inr List.suffix_rfl
    · exact hu g hg

/-- A match covers characters of its text. -/
theorem mem_of_mem_matchAt? {u : List Char} {n : Nat} {m : Match}
    (h : p.matchAt? size ((Place.ofText u).move n) = some m) :
    (∀ c ∈ m.text, c ∈ u) ∧ ∀ name, ∀ c ∈ m.group name, c ∈ u := by
  obtain ⟨t, ht, rfl⟩ := exists_mem_ends_of_matchAt? h
  have hrest : ((Place.ofText u).move n).rest <:+ u := by
    rw [Place.rest_move]
    exact List.drop_suffix n u
  constructor
  · intro c hc
    exact hrest.subset (List.mem_of_mem_take hc)
  · intro name c hc
    rw [Match.group, Match.group?] at hc
    cases hg : t.groups.lookup name with
    | none =>
        rw [hg] at hc
        exact absurd hc List.not_mem_nil
    | some span =>
        rw [hg] at hc
        obtain ⟨before, after, hgroups, -⟩ := List.lookup_eq_some_iff.1 hg
        have hmem : (name, span) ∈ t.groups := by rw [hgroups]; simp
        rcases source_suffix_of_mem_ends ht _ hmem with hold | hsource
        · rw [Place.groups_move] at hold
          exact absurd hold List.not_mem_nil
        · exact (hsource.trans hrest).subset (List.mem_of_mem_take hc)

/-- All characters that a pattern names, and all members of its classes, have a property, and all
groups that it takes once more have names of a kind. -/
def UsesOnly (P : Char → Prop) (N : String → Prop) : Pattern → Prop
  | .word w => ∀ c ∈ w, P c
  | .wordAnyCase w => ∀ a ∈ w, ∀ c, Text.sameLetter a c = true → P c
  | .one cls => ∀ c, cls c = true → P c
  | .run _ _ _ cls => ∀ c, cls c = true → P c
  | .seq p q | .alt p q => p.UsesOnly P N ∧ q.UsesOnly P N
  | .many _ _ p => p.UsesOnly P N
  | .group _ p => p.UsesOnly P N
  | .again name => N name
  | _ => True

theorem usesOnly_oneOf {P : Char → Prop} {N : String → Prop} {ps : List Pattern}
    (h : ∀ p ∈ ps, p.UsesOnly P N) : (oneOf ps).UsesOnly P N := by
  induction ps with
  | nil => exact fun c hc => absurd hc Bool.false_ne_true
  | cons p ps ih =>
      obtain ⟨hp, hps⟩ := List.forall_mem_cons.1 h
      cases ps with
      | nil => exact hp
      | cons q ps => exact ⟨hp, ih hps⟩

theorem usesOnly_chain {P : Char → Prop} {N : String → Prop} {ps : List Pattern}
    (h : ∀ p ∈ ps, p.UsesOnly P N) : (chain ps).UsesOnly P N := by
  induction ps with
  | nil => trivial
  | cons p ps ih =>
      obtain ⟨hp, hps⟩ := List.forall_mem_cons.1 h
      cases ps with
      | nil => exact hp
      | cons q ps => exact ⟨hp, ih hps⟩

/-- The property holds of all characters of a fit and of the groups behind it, if it holds of those
of the groups before it. Only groups with names of the given kind count. -/
def KeepsTo (P : Char → Prop) (N : String → Prop) (s t : Place) : Prop :=
  s.Leads t ∧ ((∀ g ∈ s.groups, N g.1 → ∀ c ∈ g.2.text, P c) →
    (∀ c ∈ (s.spanTo t).text, P c) ∧ ∀ g ∈ t.groups, N g.1 → ∀ c ∈ g.2.text, P c)

namespace KeepsTo
variable {P : Char → Prop} {N : String → Prop} {u : Place}

theorem refl (s : Place) : KeepsTo P N s s :=
  ⟨.refl s, fun h => ⟨by rw [Place.spanTo_self_text]; simp, h⟩⟩

theorem trans (hsu : KeepsTo P N s u) (hut : KeepsTo P N u t) : KeepsTo P N s t := by
  refine ⟨hsu.1.trans hut.1, fun h => ?_⟩
  obtain ⟨hsu', hu⟩ := hsu.2 h
  obtain ⟨hut', ht⟩ := hut.2 hu
  refine ⟨?_, ht⟩
  rw [hsu.1.spanTo_text_append hut.1]
  intro c hc
  exact (List.mem_append.1 hc).elim (hsu' c) (hut' c)

theorem move {x r : List Char} (hr : s.rest = x ++ r) (hx : ∀ c ∈ x, P c) :
    KeepsTo P N s (s.move x.length) := by
  refine ⟨.move (by simp [hr]), fun h => ⟨?_, by simpa using h⟩⟩
  rwa [Place.spanTo_move_text_of_rest hr]

theorem of_mem_ite {b : Bool} (h : t ∈ if b then [s] else []) : KeepsTo P N s t := by
  rw [eq_of_mem_ite h]
  exact refl s

end KeepsTo

/-- A fit covers no other characters than those its pattern uses. -/
theorem keepsTo_of_mem_ends {P : Char → Prop} {N : String → Prop} (hp : p.UsesOnly P N)
    (h : t ∈ p.ends size s) : KeepsTo P N s t := by
  induction p generalizing s t with
  | nothing => rw [mem_ends_nothing.1 h]; exact .refl s
  | word w =>
      obtain ⟨⟨r, hr⟩, rfl⟩ := mem_ends_word.1 h
      exact .move hr.symm hp
  | wordAnyCase w =>
      obtain ⟨u, r, hr, hu, rfl⟩ := mem_ends_wordAnyCase.1 h
      refine .move hr ?_
      change ∀ a ∈ w, ∀ c, Text.sameLetter a c = true → P c at hp
      clear hr h
      induction hu with
      | nil => simp
      | cons hac _ ih =>
          exact List.forall_mem_cons.2 ⟨hp _ List.mem_cons_self _ hac,
            ih fun a ha => hp a (List.mem_cons_of_mem _ ha)⟩
  | one cls =>
      obtain ⟨c, r, hr, hc, rfl⟩ := mem_ends_one.1 h
      exact .move (x := [c]) hr (by simpa using hp c hc)
  | run pref lo hi cls =>
      obtain ⟨u, r, hr, -, -, hcls, rfl⟩ := mem_ends_run.1 h
      exact .move hr fun c hc => hp c (hcls c hc)
  | seq p q ihp ihq =>
      obtain ⟨u, hu, ht⟩ := mem_ends_seq.1 h
      exact (ihp hp.1 hu).trans (ihq hp.2 ht)
  | alt p q ihp ihq => exact (mem_ends_alt.1 h).elim (ihp hp.1) (ihq hp.2)
  | many lo hi p ih =>
      exact rel_of_mem_ends_many KeepsTo.refl (fun _ _ _ => KeepsTo.trans) (fun _ _ => ih hp) h
  | group name p ih =>
      obtain ⟨u, hu, rfl⟩ := mem_ends_group.1 h
      obtain ⟨hleads, hkeep⟩ := ih hp hu
      -- the new group holds the text of the fit
      refine ⟨hleads.fill, fun h => ?_⟩
      obtain ⟨htext, hgroups⟩ := hkeep h
      exact ⟨htext, List.forall_mem_cons.2 ⟨fun _ => htext, hgroups⟩⟩
  | again name =>
      obtain ⟨span, hg, ⟨r, hr⟩, rfl⟩ := mem_ends_again.1 h
      refine ⟨.move (by simp [← hr]), fun h => ⟨?_, by simpa using h⟩⟩
      rw [Place.spanTo_move_text_of_rest hr.symm]
      obtain ⟨before, after, hgroups, -⟩ := List.lookup_eq_some_iff.1 hg
      exact h (name, span) (by rw [hgroups]; simp) hp
  | textStart => exact .of_mem_ite h
  | lineStart => exact .of_mem_ite h
  | textEnd => exact .of_mem_ite h
  | lineEnd => exact .of_mem_ite h

/-- A pattern without groups leaves the groups as they are. -/
theorem groups_eq_of_mem_ends (hp : p.groupNames = []) (h : t ∈ p.ends size s) :
    t.groups = s.groups := by
  induction p generalizing s t with
  | nothing => rw [mem_ends_nothing.1 h]
  | word w => rw [(mem_ends_word.1 h).2, Place.groups_move]
  | wordAnyCase w =>
      obtain ⟨u, r, -, -, rfl⟩ := mem_ends_wordAnyCase.1 h
      exact Place.groups_move _ _
  | one cls =>
      obtain ⟨c, r, -, -, rfl⟩ := mem_ends_one.1 h
      exact Place.groups_move _ _
  | run pref lo hi cls =>
      obtain ⟨u, r, -, -, -, -, rfl⟩ := mem_ends_run.1 h
      exact Place.groups_move _ _
  | seq p q ihp ihq =>
      obtain ⟨hp, hq⟩ : p.groupNames = [] ∧ q.groupNames = [] := by simpa [groupNames] using hp
      obtain ⟨u, hu, ht⟩ := mem_ends_seq.1 h
      rw [ihq hq ht, ihp hp hu]
  | alt p q ihp ihq =>
      obtain ⟨hp, hq⟩ : p.groupNames = [] ∧ q.groupNames = [] := by simpa [groupNames] using hp
      exact (mem_ends_alt.1 h).elim (ihp hp) (ihq hq)
  | many lo hi p ih =>
      exact rel_of_mem_ends_many (R := fun s t => t.groups = s.groups) (fun _ => rfl)
        (fun _ _ _ hst htu => htu.trans hst) (fun _ _ => ih hp) h
  | group name p ih => simp [groupNames] at hp
  | again name =>
      obtain ⟨span, -, -, rfl⟩ := mem_ends_again.1 h
      exact Place.groups_move _ _
  | textStart => rw [eq_of_mem_ite h]
  | lineStart => rw [eq_of_mem_ite h]
  | textEnd => rw [eq_of_mem_ite h]
  | lineEnd => rw [eq_of_mem_ite h]

end

end Pattern

/-! ## The same words in another text -/

/-- Two places in texts that go on with the same words up to `r` and `r'`, with the same texts in
their groups. -/
structure Place.Alike (r r' : List Char) (s s' : Place) : Prop where
  rest_eq : ∃ y, s.rest = y ++ r ∧ s'.rest = y ++ r'
  groups_eq : List.Forall₂ (fun g g' => g.1 = g'.1 ∧ g.2.text = g'.2.text) s.groups s'.groups

namespace Place.Alike
variable {r r' : List Char} {s s' t t' : Place}

/-- Going on over words that both places share. -/
theorem move {x z : List Char} (h : Alike r r' s s') (hs : s.rest = x ++ (z ++ r)) :
    s'.rest = x ++ (z ++ r') ∧ Alike r r' (s.move x.length) (s'.move x.length) := by
  obtain ⟨⟨y, hy, hy'⟩, hgroups⟩ := h
  obtain rfl : y = x ++ z := by
    rw [hy, ← List.append_assoc] at hs
    exact List.append_cancel_right hs
  rw [List.append_assoc] at hy'
  refine ⟨hy', ⟨z, ?_, ?_⟩, by simpa using hgroups⟩
  · rw [rest_move, hs, List.drop_left]
  · rw [rest_move, hy', List.drop_left]

/-- Words before `r` are words of both places. -/
theorem exists_move {x y : List Char} (h : Alike r r' s s') (hs : s.rest = x ++ y)
    (hr : r <:+ (s.move x.length).rest) :
    ∃ y', s'.rest = x ++ y' ∧ Alike r r' (s.move x.length) (s'.move x.length) := by
  obtain ⟨z, hz⟩ := hr
  rw [rest_move, hs, List.drop_left] at hz
  exact ⟨_, h.move (by rw [hs, hz])⟩

theorem spanTo_text_eq (hs : Alike r r' s s') (ht : Alike r r' t t') (hst : s.Leads t)
    (hst' : s'.Leads t') : (s'.spanTo t').text = (s.spanTo t).text := by
  obtain ⟨⟨y, hy, hy'⟩, -⟩ := hs
  obtain ⟨⟨z, hz, hz'⟩, -⟩ := ht
  have h := hst.rest_eq
  have h' := hst'.rest_eq
  rw [hy, hz, ← List.append_assoc] at h
  rw [hy', hz', ← List.append_assoc, List.append_cancel_right h] at h'
  exact (List.append_cancel_right (List.append_cancel_right h')).symm

theorem pos_eq_iff (hs : Alike r r' s s') (ht : Alike r r' t t') (hst : s.Leads t)
    (hst' : s'.Leads t') : t'.pos = s'.pos ↔ t.pos = s.pos := by
  have hpos := hst.pos_eq
  have hpos' := hst'.pos_eq
  rw [hs.spanTo_text_eq ht hst hst'] at hpos'
  omega

theorem fill {name : String} {span span' : Span} (h : Alike r r' s s')
    (hspan : span.text = span'.text) : Alike r r' (s.fill name span) (s'.fill name span') :=
  ⟨h.rest_eq, .cons ⟨rfl, hspan⟩ h.groups_eq⟩

theorem exists_group? {name : String} {span : Span} (h : Alike r r' s s')
    (hg : s.group? name = some span) : ∃ span', s'.group? name = some span' ∧
      span.text = span'.text := by
  obtain ⟨-, hgroups⟩ := h
  rw [Place.group?] at hg ⊢
  generalize s.groups = groups, s'.groups = groups' at hgroups hg ⊢
  induction hgroups with
  | nil => simp at hg
  | @cons g g' gs gs' hgg hgroups ih =>
      obtain ⟨hname, htext⟩ := hgg
      rw [List.lookup_cons] at hg ⊢
      rw [← hname]
      cases hn : name == g.1 with
      | true =>
          simp only [hn, Option.some.injEq] at hg
          exact ⟨g'.2, rfl, by rw [← hg, htext]⟩
      | false =>
          simp only [hn] at hg
          exact ih hg

end Place.Alike

namespace Pattern

/-- Whether a pattern asks where in its text it stands. -/
def isAnchored : Pattern → Bool
  | .seq p q | .alt p q => p.isAnchored || q.isAnchored
  | .many _ _ p => p.isAnchored
  | .group _ p => p.isAnchored
  | .textStart | .lineStart | .textEnd | .lineEnd => true
  | _ => false

section
variable {size size' : Nat} {r r' : List Char} {s s' t : Place} {p : Pattern}

/-- Every end that a step has here, as long as it stays before `r`, it has in the other text too. -/
def Carries (r r' : List Char) (step step' : Place → List Place) : Prop :=
  ∀ s s' t, Place.Alike r r' s s' → t ∈ step s → r <:+ t.rest →
    ∃ t' ∈ step' s', Place.Alike r r' t t'

theorem Carries.afterTimes {step step' : Place → List Place} (h : Carries r r' step step')
    (hleads : ∀ s t, t ∈ step s → s.Leads t) (n : Nat) :
    Carries r r' (afterTimes step n) (afterTimes step' n) := by
  intro s s' t hs ht hr
  induction n generalizing s s' with
  | zero =>
      obtain rfl := List.mem_singleton.1 ht
      exact ⟨s', List.mem_singleton_self s', hs⟩
  | succ n ih =>
      obtain ⟨u, hu, ht⟩ := List.mem_flatMap.1 ht
      have hru : r <:+ u.rest := hr.trans (leads_of_mem_afterTimes hleads ht).rest_suffix
      obtain ⟨u', hu', hlike⟩ := h s s' u hs hu hru
      obtain ⟨t', ht', hlike'⟩ := ih u u' hlike ht
      exact ⟨t', List.mem_flatMap.2 ⟨u', hu', ht'⟩, hlike'⟩

theorem Carries.afterUpTo {step step' : Place → List Place} (h : Carries r r' step step')
    (hleads : ∀ s t, t ∈ step s → s.Leads t) (hleads' : ∀ s t, t ∈ step' s → s.Leads t)
    {n n' : Nat} (hn : n ≤ n') : Carries r r' (afterUpTo step n) (afterUpTo step' n') := by
  intro s s' t hs ht hr
  induction n generalizing s s' n' with
  | zero =>
      obtain rfl := List.mem_singleton.1 ht
      refine ⟨s', ?_, hs⟩
      cases n' with
      | zero => exact List.mem_singleton_self s'
      | succ n' => exact List.mem_append_right _ (List.mem_singleton_self s')
  | succ n ih =>
      obtain ⟨n', rfl⟩ : ∃ k, n' = k + 1 := ⟨n' - 1, by omega⟩
      rcases List.mem_append.1 ht with ht | ht
      · obtain ⟨u, hu, ht⟩ := List.mem_flatMap.1 ht
        have hut : u.Leads t := by
          by_cases hpos : u.pos = s.pos
          · rw [if_pos hpos, List.mem_singleton] at ht
            exact ht ▸ .refl t
          · rw [if_neg hpos] at ht
            exact leads_of_mem_afterUpTo hleads ht
        have hru : r <:+ u.rest := hr.trans hut.rest_suffix
        obtain ⟨u', hu', hlike⟩ := h s s' u hs hu hru
        -- the repetition stops here in both texts or in neither
        have hpos' := hs.pos_eq_iff hlike (hleads s u hu) (hleads' s' u' hu')
        by_cases hpos : u.pos = s.pos
        · rw [if_pos hpos, List.mem_singleton] at ht
          subst ht
          refine ⟨u', List.mem_append_left _ (List.mem_flatMap.2 ⟨u', hu', ?_⟩), hlike⟩
          rw [if_pos (hpos'.2 hpos)]
          exact List.mem_singleton_self u'
        · rw [if_neg hpos] at ht
          obtain ⟨t', ht', hlike'⟩ := ih (Nat.le_of_succ_le_succ hn) u u' hlike ht
          refine ⟨t', List.mem_append_left _ (List.mem_flatMap.2 ⟨u', hu', ?_⟩), hlike'⟩
          rwa [if_neg fun hp => hpos (hpos'.1 hp)]
      · obtain rfl := List.mem_singleton.1 ht
        exact ⟨s', List.mem_append_right _ (List.mem_singleton_self s'), hs⟩

theorem Carries.many (h : Carries r r' (p.ends size) (p.ends size')) (hsize : size ≤ size')
    (lo : Nat) (hi : Option Nat) :
    Carries r r' ((many lo hi p).ends size) ((many lo hi p).ends size') := by
  intro s s' t hs ht hr
  have hleads (n : Nat) : ∀ s t, t ∈ p.ends n s → s.Leads t := fun _ _ => leads_of_mem_ends
  have hmore : moreTimes size lo hi ≤ moreTimes size' lo hi := by
    cases hi with
    | none => exact Nat.succ_le_succ hsize
    | some h => exact Nat.le_refl _
  rw [ends, List.mem_flatMap] at ht
  obtain ⟨u, hu, ht⟩ := ht
  have hru : r <:+ u.rest := hr.trans (leads_of_mem_afterUpTo (hleads size) ht).rest_suffix
  obtain ⟨u', hu', hlike⟩ := h.afterTimes (hleads size) lo s s' u hs hu hru
  obtain ⟨t', ht', hlike'⟩ := h.afterUpTo (hleads size) (hleads size') hmore u u' t hlike ht hr
  exact ⟨t', List.mem_flatMap.2 ⟨u', hu', ht'⟩, hlike'⟩

/-- **A fit does not depend on what follows.** Where the same words stand in a text that is not
shorter, an unanchored pattern has the same fits over them. -/
theorem carries_ends (hp : p.isAnchored = false) (hsize : size ≤ size') :
    Carries r r' (p.ends size) (p.ends size') := by
  induction p with
  | nothing =>
      intro s s' t hs ht hr
      rw [mem_ends_nothing.1 ht]
      exact ⟨s', mem_ends_nothing.2 rfl, hs⟩
  | word w =>
      intro s s' t hs ht hr
      obtain ⟨⟨y, hy⟩, rfl⟩ := mem_ends_word.1 ht
      obtain ⟨y', hy', hlike⟩ := hs.exists_move hy.symm hr
      exact ⟨_, mem_ends_word.2 ⟨⟨y', hy'.symm⟩, rfl⟩, hlike⟩
  | wordAnyCase w =>
      intro s s' t hs ht hr
      obtain ⟨u, y, hy, hu, rfl⟩ := mem_ends_wordAnyCase.1 ht
      obtain ⟨y', hy', hlike⟩ := hs.exists_move hy hr
      exact ⟨_, mem_ends_wordAnyCase.2 ⟨u, y', hy', hu, rfl⟩, hlike⟩
  | one cls =>
      intro s s' t hs ht hr
      obtain ⟨c, y, hy, hc, rfl⟩ := mem_ends_one.1 ht
      obtain ⟨y', hy', hlike⟩ := hs.exists_move (x := [c]) hy hr
      exact ⟨_, mem_ends_one.2 ⟨c, y', hy', hc, rfl⟩, hlike⟩
  | run pref lo hi cls =>
      intro s s' t hs ht hr
      obtain ⟨u, y, hy, hlo, hhi, hcls, rfl⟩ := mem_ends_run.1 ht
      obtain ⟨y', hy', hlike⟩ := hs.exists_move hy hr
      exact ⟨_, mem_ends_run.2 ⟨u, y', hy', hlo, hhi, hcls, rfl⟩, hlike⟩
  | seq p q ihp ihq =>
      intro s s' t hs ht hr
      obtain ⟨hp, hq⟩ : p.isAnchored = false ∧ q.isAnchored = false := by
        simpa [isAnchored] using hp
      obtain ⟨u, hu, ht⟩ := mem_ends_seq.1 ht
      have hru : r <:+ u.rest := hr.trans (leads_of_mem_ends ht).rest_suffix
      obtain ⟨u', hu', hlike⟩ := ihp hp s s' u hs hu hru
      obtain ⟨t', ht', hlike'⟩ := ihq hq u u' t hlike ht hr
      exact ⟨t', mem_ends_seq.2 ⟨u', hu', ht'⟩, hlike'⟩
  | alt p q ihp ihq =>
      intro s s' t hs ht hr
      obtain ⟨hp, hq⟩ : p.isAnchored = false ∧ q.isAnchored = false := by
        simpa [isAnchored] using hp
      rcases mem_ends_alt.1 ht with ht | ht
      · obtain ⟨t', ht', hlike⟩ := ihp hp s s' t hs ht hr
        exact ⟨t', mem_ends_alt.2 (Or.inl ht'), hlike⟩
      · obtain ⟨t', ht', hlike⟩ := ihq hq s s' t hs ht hr
        exact ⟨t', mem_ends_alt.2 (Or.inr ht'), hlike⟩
  | many lo hi p ih => exact (ih hp).many hsize lo hi
  | group name p ih =>
      intro s s' t hs ht hr
      obtain ⟨u, hu, rfl⟩ := mem_ends_group.1 ht
      obtain ⟨u', hu', hlike⟩ := ih hp s s' u hs hu hr
      refine ⟨_, mem_ends_group.2 ⟨u', hu', rfl⟩, hlike.fill ?_⟩
      exact (hs.spanTo_text_eq hlike (leads_of_mem_ends hu) (leads_of_mem_ends hu')).symm
  | again name =>
      intro s s' t hs ht hr
      obtain ⟨span, hg, ⟨y, hy⟩, rfl⟩ := mem_ends_again.1 ht
      obtain ⟨span', hg', hspan⟩ := hs.exists_group? hg
      obtain ⟨y', hy', hlike⟩ := hs.exists_move hy.symm hr
      exact ⟨_, mem_ends_again.2 ⟨span', hg', ⟨y', by rw [hy', hspan]⟩, by rw [hspan]⟩, hlike⟩
  | _ => simp [isAnchored] at hp

/-- Where a word of a text on which an unanchored pattern fits stands in another text that is not
shorter, the pattern fits as well. -/
theorem occursIn_of_mem_ends {a x b a' b' : List Char} (hp : p.isAnchored = false)
    (hsize : (a ++ (x ++ b)).length ≤ (a' ++ (x ++ b')).length)
    (ht : t ∈ p.ends (a ++ (x ++ b)).length ((Place.ofText (a ++ (x ++ b))).move a.length))
    (hrest : t.rest = b) : p.occursIn (a' ++ (x ++ b')) = true := by
  have hlike : Place.Alike b b' ((Place.ofText (a ++ (x ++ b))).move a.length)
      ((Place.ofText (a' ++ (x ++ b'))).move a'.length) := by
    refine ⟨⟨x, ?_, ?_⟩, ?_⟩
    · rw [Place.rest_move]
      exact List.drop_left
    · rw [Place.rest_move]
      exact List.drop_left
    · rw [Place.groups_move, Place.groups_move]
      exact .nil
  obtain ⟨t', ht', -⟩ := carries_ends hp hsize _ _ t hlike ht (hrest ▸ List.suffix_rfl)
  exact occursIn_iff.2 ⟨a', _, rfl, t', ht'⟩

end

end Pattern

end NaslLint
