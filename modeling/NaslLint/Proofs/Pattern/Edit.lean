import NaslLint.Proofs.Pattern.All

/-!
# Patterns in an edited text

A text is edited by exchanging copies of one block for another. Where both blocks open with a mark
that a pattern does not use, a fit ends before the next block; where no fit starts inside a block
either, the pattern finds in the edited text what it finds in the text itself.

* `Place.Level` relates places in two texts that go on alike up to the mark, and `level_ends` says
  that a pattern has the same ends from both, in the same order.
* `Edited` is the relation between a text and the edited one; `edited_replaceAll` says that replacing
  a word edits a text.
* `rel_find?_of_edited` is the statement about the first match.
-/

namespace NaslLint

/-- A text that ends here or goes on with the mark. -/
def Barred (d : Char) (r : List Char) : Prop :=
  ∀ c ∈ r.head?, c = d

/-- A word without the mark ends before it. -/
theorem Barred.prefix_of_prefix {d : Char} {r u y : List Char} (h : Barred d r) (hu : d ∉ u)
    (hp : u <+: y ++ r) : u <+: y := by
  obtain ⟨z, hz⟩ := hp
  rcases List.append_eq_append_iff.1 hz with ⟨as, rfl, -⟩ | ⟨bs, rfl, hbs⟩
  · exact List.prefix_append _ _
  · cases bs with
    | nil => simp
    | cons b bs =>
        obtain rfl : b = d := h b (by rw [hbs]; rfl)
        exact absurd (by simp) hu

namespace Place

theorem prev_move {s : Place} {u w : List Char} (hs : s.rest = u ++ w) :
    (s.move u.length).prev = u.getLast?.or s.prev := by
  obtain ⟨prev, pos, rest, groups⟩ := s
  simp only at hs
  subst hs
  exact prev_move_append u w prev pos groups

/-- Two places at the start of a line or not, from which the texts go on with the same words up to
`r` and `r'`. The texts of their groups are the same and hold no mark. -/
structure Level (d : Char) (r r' : List Char) (s s' : Place) : Prop extends Alike r r' s s' where
  clean : ∀ g ∈ s.groups, d ∉ g.2.text
  lineStart_eq : s.atLineStart = s'.atLineStart

namespace Level
variable {d : Char} {r r' : List Char} {s s' t t' : Place}

theorem symm (h : Level d r r' s s') : Level d r' r s' s := by
  obtain ⟨⟨⟨y, hy, hy'⟩, hgroups⟩, hclean, hline⟩ := h
  refine ⟨⟨⟨y, hy', hy⟩, ?_⟩, ?_, hline.symm⟩
  · exact List.Forall₂.flip (hgroups.imp fun _ _ hg => ⟨hg.1.symm, hg.2.symm⟩)
  · generalize s.groups = groups, s'.groups = groups' at hgroups hclean
    induction hgroups with
    | nil => simp
    | cons hg _ ih =>
        obtain ⟨hhead, hclean⟩ := List.forall_mem_cons.1 hclean
        exact List.forall_mem_cons.2 ⟨hg.2 ▸ hhead, ih hclean⟩

/-- A word without the mark stands in both texts, and behind it they still go on alike. -/
theorem move {u w : List Char} (h : Level d r r' s s') (hr : Barred d r) (hs : s.rest = u ++ w)
    (hu : d ∉ u) : u <+: s'.rest ∧ Level d r r' (s.move u.length) (s'.move u.length) := by
  obtain ⟨y, hy, -⟩ := h.rest_eq
  obtain ⟨z, rfl⟩ : u <+: y := hr.prefix_of_prefix hu ⟨w, by rw [← hs, hy]⟩
  obtain ⟨hs', halike⟩ := h.toAlike.move (x := u) (z := z) (by rw [hy, List.append_assoc])
  refine ⟨⟨_, hs'.symm⟩, halike, by simpa using h.clean, ?_⟩
  cases hlast : u.getLast? with
  | none =>
      obtain rfl := List.getLast?_eq_none_iff.1 hlast
      exact h.lineStart_eq
  | some c =>
      unfold atLineStart
      rw [prev_move hs, prev_move hs', hlast]
      rfl

theorem texts_eq (h : Level d r r' s s') : s.texts = s'.texts := by
  have hgroups := h.groups_eq
  unfold texts
  generalize s.groups = groups, s'.groups = groups' at hgroups
  induction hgroups with
  | nil => rfl
  | cons hg _ ih => rw [List.map_cons, List.map_cons, ih, hg.1, hg.2]

end Level

end Place

namespace Pattern

open Place (Level)

section
variable {d : Char} {r r' : List Char} {s s' : Place} {cls : Char → Bool}

theorem forall₂_of_mem {α β : Type} {R Q : α → β → Prop} {l : List α} {l' : List β}
    (h : List.Forall₂ R l l') (hq : ∀ a ∈ l, ∀ b ∈ l', R a b → Q a b) : List.Forall₂ Q l l' := by
  induction h with
  | nil => exact .nil
  | cons hab _ ih =>
      refine .cons (hq _ List.mem_cons_self _ List.mem_cons_self hab) (ih fun a ha b hb => ?_)
      exact hq a (List.mem_cons_of_mem _ ha) b (List.mem_cons_of_mem _ hb)

/-- What both places have, if one of them has it. -/
theorem forall₂_toList {α β : Type} {R : α → β → Prop} {o : Option α} {o' : Option β}
    (h : ∀ a, o = some a → ∃ b, o' = some b ∧ R a b) (h' : o = none → o' = none) :
    List.Forall₂ R o.toList o'.toList := by
  cases ho : o with
  | none => rw [h' ho]; exact .nil
  | some a =>
      obtain ⟨b, rfl, hab⟩ := h a ho
      exact .cons hab .nil

theorem level_after? {w : List Char} (h : Level d r r' s s') (hr : Barred d r) (hr' : Barred d r')
    (hw : d ∉ w) :
    List.Forall₂ (Level d r r') (s.after? (· == ·) w).toList (s'.after? (· == ·) w).toList := by
  refine forall₂_toList (fun t ht => ?_) fun hnone => ?_
  · obtain ⟨⟨z, hz⟩, rfl⟩ := Place.after?_beq_eq_some_iff.1 ht
    obtain ⟨hpre, hlevel⟩ := h.move hr hz.symm hw
    exact ⟨_, Place.after?_beq_eq_some_iff.2 ⟨hpre, rfl⟩, hlevel⟩
  · rw [Option.eq_none_iff_forall_ne_some] at hnone ⊢
    intro t ht
    obtain ⟨⟨z, hz⟩, -⟩ := Place.after?_beq_eq_some_iff.1 ht
    exact hnone _ (Place.after?_beq_eq_some_iff.2 ⟨(h.symm.move hr' hz.symm hw).1, rfl⟩)

theorem level_afterRun? (h : Level d r r' s s') (hr : Barred d r) (hr' : Barred d r')
    (hcls : ∀ c, cls c = true → c ≠ d) (n : Nat) :
    List.Forall₂ (Level d r r') (s.afterRun? cls n).toList (s'.afterRun? cls n).toList := by
  have hno {u : List Char} (hu : ∀ c ∈ u, cls c = true) : d ∉ u := fun hd => hcls d (hu d hd) rfl
  refine forall₂_toList (fun t ht => ?_) fun hnone => ?_
  · obtain ⟨u, w, hs, hlen, hu, rfl⟩ := Place.afterRun?_eq_some_iff.1 ht
    obtain ⟨⟨z, hz⟩, hlevel⟩ := h.move hr hs (hno hu)
    exact ⟨_, Place.afterRun?_eq_some_iff.2 ⟨u, z, hz.symm, hlen, hu, rfl⟩, hlevel⟩
  · rw [Option.eq_none_iff_forall_ne_some] at hnone ⊢
    intro t ht
    obtain ⟨u, w, hs, hlen, hu, -⟩ := Place.afterRun?_eq_some_iff.1 ht
    obtain ⟨⟨z, hz⟩, -⟩ := h.symm.move hr' hs (hno hu)
    exact hnone _ (Place.afterRun?_eq_some_iff.2 ⟨u, z, hz.symm, hlen, hu, rfl⟩)

/-- A run ends at the mark in both texts. -/
theorem runLength_of_level (h : Level d r r' s s') (hr : Barred d r)
    (hcls : ∀ c, cls c = true → c ≠ d) {limit : Option Nat} {n : Nat}
    (hn : n ≤ Place.runLength cls limit s.rest) : n ≤ Place.runLength cls limit s'.rest := by
  obtain ⟨hlimit, u, w, hs, hlen, hu⟩ := Place.le_runLength_iff.1 hn
  obtain ⟨⟨z, hz⟩, -⟩ := h.move hr hs fun hd => hcls d (hu d hd) rfl
  exact Place.le_runLength_iff.2 ⟨hlimit, u, z, hz.symm, hlen, hu⟩

theorem level_stops (h : Level d r r' s s') (hr : Barred d r) (hr' : Barred d r')
    (hcls : ∀ c, cls c = true → c ≠ d) (limit : Option Nat) :
    List.Forall₂ (Level d r r') (s.stops cls limit) (s'.stops cls limit) := by
  have hlength : Place.runLength cls limit s'.rest = Place.runLength cls limit s.rest :=
    Nat.le_antisymm (runLength_of_level h.symm hr' hcls (Nat.le_refl _))
      (runLength_of_level h hr hcls (Nat.le_refl _))
  rw [Place.stops, Place.stops, hlength, List.forall₂_map_left_iff, List.forall₂_map_right_iff,
    List.forall₂_same]
  intro n hn
  obtain ⟨-, u, w, hs, rfl, hu⟩ :=
    Place.le_runLength_iff.1 (Nat.lt_succ_iff.1 (List.mem_range.1 hn))
  exact (h.move hr hs fun hd => hcls d (hu d hd) rfl).2

end

/-- Whether a pattern asks for nothing but the words that follow and the start of a line. -/
def isLocal : Pattern → Bool
  | .nothing | .word _ | .one _ | .run _ _ _ _ | .again _ | .lineStart => true
  | .seq p q | .alt p q => p.isLocal && q.isLocal
  | .many 0 (some 1) p => p.isLocal
  | .group _ p => p.isLocal
  | _ => false

theorem isLocal_many {lo : Nat} {hi : Option Nat} {p : Pattern}
    (h : (many lo hi p).isLocal = true) : lo = 0 ∧ hi = some 1 ∧ p.isLocal = true := by
  rcases lo with _ | lo
  · rcases hi with _ | _ | _ | hi
    · cases h
    · cases h
    · exact ⟨rfl, rfl, h⟩
    · cases h
  · cases h

section
variable {p : Pattern} {d : Char} {size size' : Nat} {r r' : List Char} {s s' : Place}

/-- **The same ends.** From places at which two texts go on alike up to a mark, a pattern that does
not use the mark has the same ends in the same order. -/
theorem level_ends (hp : p.isLocal = true) (hd : p.UsesOnly (· ≠ d) fun _ => True)
    (hr : Barred d r) (hr' : Barred d r') (h : Level d r r' s s') :
    List.Forall₂ (Level d r r') (p.ends size s) (p.ends size' s') := by
  induction p generalizing s s' with
  | nothing => exact .cons h .nil
  | word w => exact level_after? h hr hr' fun hmem => hd d hmem rfl
  | one cls => exact level_afterRun? h hr hr' hd 1
  | run pref lo hi cls =>
      refine List.rel_flatMap (level_afterRun? h hr hr' hd lo) fun t t' ht => ?_
      have hstops := level_stops ht hr hr' hd (hi.map (· - lo))
      cases pref with
      | longest => exact List.forall₂_reverse_iff.2 hstops
      | shortest => exact hstops
  | seq p q ihp ihq =>
      obtain ⟨hlp, hlq⟩ := Bool.and_eq_true_iff.1 hp
      exact List.rel_flatMap (ihp hlp hd.1 h) fun t t' ht => ihq hlq hd.2 ht
  | alt p q ihp ihq =>
      obtain ⟨hlp, hlq⟩ := Bool.and_eq_true_iff.1 hp
      exact List.rel_append (ihp hlp hd.1 h) (ihq hlq hd.2 h)
  | many lo hi p ih =>
      obtain ⟨rfl, rfl, hlp⟩ := isLocal_many hp
      show List.Forall₂ _ ((optional p).ends size s) ((optional p).ends size' s')
      rw [ends_optional, ends_optional]
      exact List.rel_append (ih hlp hd h) (.cons h .nil)
  | group name p ih =>
      have hends := ih hp hd h
      show List.Forall₂ _ ((p.ends size s).map _) ((p.ends size' s').map _)
      rw [List.forall₂_map_left_iff, List.forall₂_map_right_iff]
      refine forall₂_of_mem hends fun t ht t' ht' hlevel => ?_
      -- the new group holds the text of the fit, which is the same in both texts
      have hspan := h.toAlike.spanTo_text_eq hlevel.toAlike (leads_of_mem_ends ht)
        (leads_of_mem_ends ht')
      have hkeeps := (keepsTo_of_mem_ends (p := p) hd ht).2
        fun g hg _ c hc heq => h.clean g hg (heq ▸ hc)
      refine ⟨hlevel.toAlike.fill hspan.symm, ?_, hlevel.lineStart_eq⟩
      exact List.forall_mem_cons.2 ⟨fun hmem => hkeeps.1 d hmem rfl, hlevel.clean⟩
  | again name =>
      refine List.rel_flatMap (R := fun g g' : Span => g.text = g'.text ∧ d ∉ g.text) ?_ ?_
      · refine forall₂_toList (fun g hg => ?_) fun hnone => ?_
        · obtain ⟨g', hg', htext⟩ := h.toAlike.exists_group? hg
          obtain ⟨before, after, hgroups, -⟩ := List.lookup_eq_some_iff.1 hg
          exact ⟨g', hg', htext, h.clean (name, g) (by rw [hgroups]; simp)⟩
        · rw [Option.eq_none_iff_forall_ne_some] at hnone ⊢
          intro g' hg'
          obtain ⟨g, hg, -⟩ := h.symm.toAlike.exists_group? hg'
          exact hnone g hg
      · rintro g g' ⟨htext, hclean⟩
        show List.Forall₂ _ (s.after? (· == ·) g.text).toList (s'.after? (· == ·) g'.text).toList
        rw [← htext]
        exact level_after? h hr hr' hclean
  | lineStart =>
      unfold ends
      rw [h.lineStart_eq]
      split
      · exact .cons h .nil
      · exact .nil
  | _ => cases hp

end

end Pattern

/-! ## Matches -/

/-- Matches that cover the same text and fill their groups with the same texts. -/
structure Match.Same (m m' : Match) : Prop where
  text_eq : m.text = m'.text
  group?_eq : ∀ name, m.group? name = m'.group? name

/-- A text and the same text with some copies of a block exchanged for another block. -/
inductive Edited (old new : List Char) : List Char → List Char → Prop
  | nil : Edited old new [] []
  | keep (c : Char) {t u : List Char} : Edited old new t u → Edited old new (c :: t) (c :: u)
  | swap {t u : List Char} : Edited old new t u → Edited old new (old ++ t) (new ++ u)

theorem edited_replaceAll {old : List Char} (hold : old ≠ []) (new t : List Char) :
    Edited old new t (Text.replaceAll old new t) := by
  -- what is skipped belongs to a copy that has been replaced
  have hskip (skip : Nat) (t : List Char) :
      Edited old new (t.drop skip) (Text.replaceFrom old new skip t) := by
    induction t generalizing skip with
    | nil => cases skip <;> exact .nil
    | cons c t ih =>
        cases skip with
        | succ skip => exact ih skip
        | zero =>
            rw [Text.replaceFrom]
            split
            next hp =>
              obtain ⟨z, hz⟩ := List.isPrefixOf_iff_prefix.1 hp
              obtain ⟨b, old, rfl⟩ := List.exists_cons_of_ne_nil hold
              obtain ⟨rfl, rfl⟩ := List.cons.inj hz
              have hrest := ih old.length
              rw [show (old.append z).drop old.length = z from List.drop_left] at hrest
              exact .swap hrest
            next => exact .keep c (ih 0)
  exact hskip 0 t

/-- Up to the first block both texts are the same. -/
theorem Edited.exists_barred {old new t u : List Char} {d : Char} (h : Edited old new t u)
    (hold : old.head? = some d) (hnew : new.head? = some d) :
    ∃ y r r', t = y ++ r ∧ u = y ++ r' ∧ Barred d r ∧ Barred d r' := by
  induction h with
  | nil => exact ⟨[], [], [], rfl, rfl, by simp [Barred], by simp [Barred]⟩
  | keep c _ ih =>
      obtain ⟨y, r, r', rfl, rfl, hr, hr'⟩ := ih
      exact ⟨c :: y, r, r', rfl, rfl, hr, hr'⟩
  | @swap t u _ _ =>
      have hhead {b x : List Char} (hb : b.head? = some d) : Barred d (b ++ x) := by
        intro c hc
        rw [List.head?_append, hb] at hc
        exact (Option.some.inj hc).symm
      exact ⟨[], old ++ t, new ++ u, rfl, rfl, hhead hold, hhead hnew⟩

namespace Pattern

section
variable {p : Pattern} {d : Char} {size size' : Nat} {s s' : Place} {old new t u : List Char}

theorem rel_matchAt? {r r' : List Char} (hp : p.isLocal = true)
    (hd : p.UsesOnly (· ≠ d) fun _ => True) (hr : Barred d r) (hr' : Barred d r')
    (h : Place.Level d r r' s s') :
    Option.Rel Match.Same (p.matchAt? size s) (p.matchAt? size' s') := by
  have hends : List.Forall₂ (fun t t' => Match.Same ⟨s.spanTo t, t.groups⟩ ⟨s'.spanTo t', t'.groups⟩)
      (p.ends size s) (p.ends size' s') := by
    refine forall₂_of_mem (level_ends hp hd hr hr' h) fun t ht t' ht' hlevel => ⟨?_, fun name => ?_⟩
    · exact (h.toAlike.spanTo_text_eq hlevel.toAlike (leads_of_mem_ends ht)
        (leads_of_mem_ends ht')).symm
    · have htexts := congrArg (List.lookup name) hlevel.texts_eq
      rwa [Place.texts, Place.texts, Place.lookup_texts, Place.lookup_texts] at htexts
  rw [matchAt?_eq_head?, matchAt?_eq_head?]
  generalize p.ends size s = l, p.ends size' s' = l' at hends
  cases hends with
  | nil => exact .none
  | cons hsame _ => exact .some hsame

theorem head?_scan_of_nil (hg : s.groups = []) (hs : s.rest = []) :
    (p.scan size 0 s).head? = p.matchAt? size s := by
  obtain ⟨prev, pos, rest, groups⟩ := s
  simp only at hg hs
  subst hg hs
  rw [scan, findAllFrom]
  simp only [mayOpen_none, Nat.zero_le, decide_true, Bool.and_true, if_true]
  cases p.matchAt? size ⟨prev, pos, [], []⟩ <;> rfl

/-- A block that a pattern overlooks: it opens with the mark, it does not end a line, and no fit
starts inside it, whatever stands before and behind it. -/
structure Overlooks (p : Pattern) (d : Char) (block : List Char) : Prop where
  head_eq : block.head? = some d
  last_ne : block.getLast? ≠ some '\n'
  ends_eq_nil : ∀ x v b, block = x ++ v → v ≠ [] → ∀ size s, s.rest = v ++ b →
    (x = [] ∨ s.prev = x.getLast?) → p.ends size s = []

theorem Overlooks.scan_eq {block b : List Char} (h : p.Overlooks d block) (size : Nat)
    (hg : s.groups = []) (hs : s.rest = block ++ b) :
    p.scan size 0 s = p.scan size 0 (s.move block.length) ∧
      (s.move block.length).atLineStart = false := by
  constructor
  · refine scan_skip hg (by simp [hs]) fun i hi => ?_
    have hsplit : s.rest = block.take i ++ (block.drop i ++ b) := by
      rw [hs, ← List.append_assoc, List.take_append_drop]
    have hlen : (block.take i).length = i := List.length_take_of_le (Nat.le_of_lt hi)
    refine h.ends_eq_nil (block.take i) (block.drop i) b (List.take_append_drop i block).symm
      ?_ size _ ?_ ?_
    · rw [Ne, List.drop_eq_nil_iff]
      omega
    · rw [Place.rest_move, hsplit, List.drop_append_of_le_length (by omega), ← hlen]
      simp
    · cases hlast : (block.take i).getLast? with
      | none => exact .inl (List.getLast?_eq_none_iff.1 hlast)
      | some c =>
          right
          have hprev := Place.prev_move hsplit
          rw [hlen, hlast] at hprev
          exact hprev
  · cases hlast : block.getLast? with
    | none =>
        have hhead := h.head_eq
        rw [List.getLast?_eq_none_iff.1 hlast] at hhead
        cases hhead
    | some c =>
        unfold Place.atLineStart
        rw [Place.prev_move hs, hlast]
        show (c == '\n') = false
        have hne := h.last_ne
        rw [hlast] at hne
        simpa using hne

/-- What a scan reports first in an edited text. -/
theorem rel_head?_scan_of_edited (hp : p.isLocal = true) (hd : p.UsesOnly (· ≠ d) fun _ => True)
    (hold : p.Overlooks d old) (hnew : p.Overlooks d new) (h : Edited old new t u)
    (hs : s.rest = t) (hs' : s'.rest = u) (hg : s.groups = []) (hg' : s'.groups = [])
    (hline : s.atLineStart = s'.atLineStart) :
    Option.Rel Match.Same (p.scan size 0 s).head? (p.scan size' 0 s').head? := by
  -- the matches here, where the texts go on alike up to the next block
  have hhere {t u : List Char} {s s' : Place} (h : Edited old new t u) (hs : s.rest = t)
      (hs' : s'.rest = u) (hg : s.groups = []) (hg' : s'.groups = [])
      (hline : s.atLineStart = s'.atLineStart) :
      Option.Rel Match.Same (p.matchAt? size s) (p.matchAt? size' s') := by
    obtain ⟨y, r, r', rfl, rfl, hr, hr'⟩ := h.exists_barred hold.head_eq hnew.head_eq
    refine rel_matchAt? hp hd hr hr' ⟨⟨⟨y, hs, hs'⟩, ?_⟩, ?_, hline⟩
    · rw [hg, hg']
      exact .nil
    · simp [hg]
  induction h generalizing s s' with
  | nil =>
      have hmatch := hhere .nil hs hs' hg hg' hline
      rw [head?_scan_of_nil hg hs, head?_scan_of_nil hg' hs']
      exact hmatch
  | @keep c t u h ih =>
      have hmatch := hhere (.keep c h) hs hs' hg hg' hline
      generalize hm : p.matchAt? size s = m, hm' : p.matchAt? size' s' = m' at hmatch
      cases hmatch with
      | some hsame =>
          rw [scan_hit hg (Nat.zero_le _) hs hm, scan_hit hg' (Nat.zero_le _) hs' hm']
          exact .some hsame
      | none =>
          rw [scan_step hg hs (matchAt?_eq_none_iff.1 hm),
            scan_step hg' hs' (matchAt?_eq_none_iff.1 hm')]
          refine ih ?_ ?_ (by simpa using hg) (by simpa using hg') ?_
          · rw [Place.rest_move, hs]
            rfl
          · rw [Place.rest_move, hs']
            rfl
          · have hprev : (s.move 1).prev = some c := Place.prev_move (u := [c]) hs
            have hprev' : (s'.move 1).prev = some c := Place.prev_move (u := [c]) hs'
            rw [Place.atLineStart, Place.atLineStart, hprev, hprev']
  | @swap t u _ ih =>
      obtain ⟨hscan, hstart⟩ := hold.scan_eq size hg hs
      obtain ⟨hscan', hstart'⟩ := hnew.scan_eq size' hg' hs'
      rw [hscan, hscan']
      refine ih ?_ ?_ (by simpa using hg) (by simpa using hg') (hstart.trans hstart'.symm)
      · rw [Place.rest_move, hs, List.drop_left]
      · rw [Place.rest_move, hs', List.drop_left]

/-- **The first match of an edited text.** A pattern that overlooks the blocks exchanged and does not
use the mark with which they open finds the same in both texts. -/
theorem rel_find?_of_edited (hp : p.isLocal = true) (hd : p.UsesOnly (· ≠ d) fun _ => True)
    (hold : p.Overlooks d old) (hnew : p.Overlooks d new) (h : Edited old new t u) :
    Option.Rel Match.Same (p.find? t) (p.find? u) := by
  rw [← head?_findAll, ← head?_findAll, findAll_eq_scan, findAll_eq_scan]
  exact rel_head?_scan_of_edited hp hd hold hnew h rfl rfl rfl rfl rfl

end

end Pattern

end NaslLint
