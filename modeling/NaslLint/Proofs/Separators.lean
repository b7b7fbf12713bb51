import NaslLint.Proofs.LostUpdate
import NaslLint.Proofs.Pattern.Cut
import NaslLint.Proofs.Script.ProseCalls

/-!
# Taking separators out of prose

The repair of separators finds the calls whose values hold some, and replaces the text of each call,
wherever it stands, by its clean form, in which the text of its value is replaced, wherever that
stands. What is wanted is that every separator in the value of a call that is found becomes a blank,
and nothing else changes.

* `blankValues` is what is wanted, by position.
* `replaceCalls_recut` says that the replacements act on each call by itself.
* `replaceCalls_eq` says when they leave of a call what is wanted.
* `separators_taken_out_iff` is the main statement.
-/

namespace NaslLint

open Pattern Script

/-! ## What is wanted -/

namespace Checks

def inValue (m : Match) (n : Nat) : Bool :=
  (m.groups.lookup "value").any fun span => span.start ≤ n && n < span.stop

def behindValue (m : Match) : List Char :=
  m.text.drop (((m.groups.lookup "value").map Span.stop).getD 0 - m.start)

/-- A stretch of text that starts at a position, with a blank in the place of every separator in the
value of a match. -/
def blankValues (found : List Match) (pos : Nat) (x : List Char) : List Char :=
  x.mapIdx fun n c => if isSeparator c && found.any (inValue · (pos + n)) then ' ' else c

/-- A call with a blank in the place of every separator but the semicolon that ends it. -/
def blankedCall (x : List Char) : List Char :=
  blankSeparators x.dropLast ++ [';']

def replaceCalls (calls : List (List Char × List Char)) (x : List Char) : List Char :=
  calls.foldl (fun x call => Text.replaceAll call.1 call.2 x) x

section
variable {found found' : List Match} {pos pos' : Nat} {x y : List Char}

theorem blankValues_append : blankValues found pos (x ++ y) =
    blankValues found pos x ++ blankValues found (pos + x.length) y := by
  rw [blankValues, List.mapIdx_append, blankValues, blankValues]
  simp only [Nat.add_assoc, Nat.add_comm x.length]

theorem blankValues_congr (h : ∀ n < x.length,
      found.any (inValue · (pos + n)) = found'.any (inValue · (pos' + n))) :
    blankValues found pos x = blankValues found' pos' x := by
  refine List.ext_getElem (by simp [blankValues]) fun n hn hn' => ?_
  rw [blankValues, List.length_mapIdx] at hn
  simp only [blankValues, List.getElem_mapIdx, h n hn]

theorem blankValues_of_clean (h : ∀ c ∈ x, isSeparator c = false) :
    blankValues found pos x = x := by
  refine List.ext_getElem (by simp [blankValues]) fun n hn hn' => ?_
  simp [blankValues, h _ (List.getElem_mem hn')]

theorem blankValues_outside (h : ∀ n < x.length, found.any (inValue · (pos + n)) = false) :
    blankValues found pos x = x := by
  refine List.ext_getElem (by simp [blankValues]) fun n hn hn' => ?_
  simp only [blankValues, List.getElem_mapIdx, h n hn', Bool.and_false, Bool.false_eq_true, if_false]

theorem blankValues_inside (h : ∀ n < x.length, found.any (inValue · (pos + n)) = true) :
    blankValues found pos x = blankSeparators x := by
  refine List.ext_getElem (by simp [blankValues, blankSeparators]) fun n hn hn' => ?_
  rw [blankSeparators, List.length_map] at hn'
  simp only [blankValues, blankSeparators, List.getElem_mapIdx, List.getElem_map, h n hn',
    Bool.and_true]

end

theorem blankSeparators_append (x y : List Char) :
    blankSeparators (x ++ y) = blankSeparators x ++ blankSeparators y :=
  List.map_append

theorem blankSeparators_of_clean {x : List Char} (h : ∀ c ∈ x, isSeparator c = false) :
    blankSeparators x = x := by
  have hchar : ∀ c ∈ x, (if isSeparator c then ' ' else c) = id c := by
    intro c hc
    simp [h c hc]
  rw [blankSeparators, List.map_congr_left hchar, List.map_id]

theorem countP_blankSeparators (x : List Char) : (blankSeparators x).countP isSeparator = 0 := by
  rw [List.countP_eq_zero, blankSeparators]
  intro c hc
  obtain ⟨d, -, rfl⟩ := List.mem_map.1 hc
  by_cases hd : isSeparator d = true
  · rw [if_pos hd]
    decide
  · rwa [if_neg hd]

/-- Only the semicolon that ends a call is left. -/
theorem countP_blankedCall (x : List Char) : (blankedCall x).countP isSeparator = 1 := by
  rw [blankedCall, List.countP_append, countP_blankSeparators]
  decide

theorem length_blankedCall {x : List Char} (hx : x ≠ []) : (blankedCall x).length = x.length := by
  have hpos := List.length_pos_iff.2 hx
  simp [blankedCall, blankSeparators]
  omega

/-- A text with more separators does not stand in one with fewer. -/
theorem not_infix_of_countP {x y : List Char}
    (h : y.countP isSeparator < x.countP isSeparator) : ¬ x <:+: y := by
  intro hxy
  have := hxy.sublist.countP_le (p := isSeparator)
  omega

end Checks

/-! ## The clean form of a call -/

namespace Text

theorem takeWhile_append_of_any {p : Char → Bool} {v : List Char} (hv : v.any (!p ·) = true)
    (z : List Char) : (v ++ z).takeWhile p = v.takeWhile p := by
  induction v with
  | nil => simp at hv
  | cons c v ih =>
      rw [List.cons_append, List.takeWhile_cons, List.takeWhile_cons]
      by_cases hc : p c = true
      · rw [if_pos hc, if_pos hc, ih (by simpa [hc] using hv)]
      · rw [if_neg hc, if_neg hc]

/-- A word with a character that others in front of it are not like does not stand a few places
before itself. -/
theorem not_prefix_before {p : Char → Bool} {u v z : List Char} (hv : v.any (!p ·) = true)
    (hu : ∀ c ∈ u, p c = true) (hne : u ≠ []) : ¬ v <+: u ++ (v ++ z) := by
  rintro ⟨w, hw⟩
  have hcut := congrArg (List.takeWhile p) hw
  rw [takeWhile_append_of_any hv, List.takeWhile_append_of_pos hu, takeWhile_append_of_any hv] at hcut
  have hlen := congrArg List.length hcut
  have hpos := List.length_pos_iff.2 hne
  rw [List.length_append] at hlen
  omega

end Text

namespace Script.ProseCall

open Checks

variable {size : Nat} {lead value close x : List Char}

theorem clean_lead (h : ProseCall size lead value close) : ∀ c ∈ lead, isSeparator c = false := by
  intro c hc
  by_contra hsep
  rw [Bool.not_eq_false] at hsep
  refine h.not_mem_lead (mem_marks_of_isSeparator hsep) (fun hmem => ?_) hc
  have hall : tagOpening.all (!isSeparator ·) = true := by decide
  have hno := List.all_eq_true.1 hall c hmem
  rw [hsep] at hno
  exact Bool.noConfusion hno

/-- The value is the only part of a call from which separators are taken. -/
theorem blankedCall_eq (h : ProseCall size lead value close) :
    blankedCall (lead ++ (value ++ close)) = lead ++ (blankSeparators value ++ close) := by
  obtain ⟨k, rfl, hk⟩ := h.exists_close_eq
  rw [blankedCall, ← List.append_assoc value, ← List.append_assoc, List.dropLast_concat,
    blankSeparators_append, blankSeparators_append, blankSeparators_of_clean h.clean_lead,
    blankSeparators_of_clean hk, List.append_assoc, List.append_assoc]

/-- A call whose value holds a separator has two of them at least. -/
theorem two_le_countP (h : ProseCall size lead value close) (hvalue : value.any isSeparator = true) :
    2 ≤ (lead ++ (value ++ close)).countP isSeparator := by
  obtain ⟨k, rfl, -⟩ := h.exists_close_eq
  obtain ⟨c, hc, hsep⟩ := List.any_eq_true.1 hvalue
  have hpos : 0 < value.countP isSeparator := List.countP_pos_iff.2 ⟨c, hc, hsep⟩
  have hone : [';'].countP isSeparator = 1 := by decide
  rw [List.countP_append, List.countP_append, List.countP_append, hone]
  omega

/-- A value that holds a separator stands in what closes its call only at the end. -/
theorem suffix_of_infix_close (h : ProseCall size lead value close)
    (hvalue : value.any isSeparator = true) (hin : value <:+: close) : value <:+ close := by
  obtain ⟨k, rfl, hk⟩ := h.exists_close_eq
  obtain ⟨c, hc, hsep⟩ := List.any_eq_true.1 hvalue
  obtain ⟨x, y, rfl⟩ := List.append_of_mem hc
  obtain ⟨a, b, hab⟩ := hin
  have hnot : c ∉ k := fun hmem => absurd (hk c hmem) (by rw [hsep]; simp)
  obtain ⟨z, -, hz⟩ := Text.exists_append_of_not_mem (c := a ++ x) (e := y ++ b) hnot
    (by rw [← hab]; simp)
  have hlen := congrArg List.length hz
  simp only [List.length_append, List.length_cons, List.length_nil] at hlen
  obtain rfl : b = [] := List.length_eq_zero_iff.1 (by omega)
  exact ⟨a, by simpa using hab⟩

/-- **The clean form of a call** is what is wanted, unless its value stands at its end once more. -/
theorem replaceAll_value (h : ProseCall size lead value close)
    (hvalue : value.any isSeparator = true) (hclose : ¬ value <:+ close) :
    Text.replaceAll value (blankSeparators value) (lead ++ (value ++ close)) =
      blankedCall (lead ++ (value ++ close)) := by
  rw [h.blankedCall_eq, Text.replaceAll_keep, Text.replaceAll_append h.value_ne_nil,
    Text.replaceAll_eq_self fun hin => hclose (h.suffix_of_infix_close hvalue hin)]
  intro u hu hne
  refine Text.not_prefix_before (p := (!isSeparator ·)) (by simpa using hvalue) (fun c hc => ?_) hne
  rw [h.clean_lead c (hu.subset hc)]
  rfl

end Script.ProseCall

/-! ## Replacing a call in a text that is cut -/

namespace Checks

structure Framed (x : List Char) : Prop where
  opens : tagOpening <+: x
  ends : ∃ y ws, x = y ++ ')' :: (ws ++ [';']) ∧ ∀ c ∈ ws, Text.isBlank c = true

/-- A call of which nothing more has been taken than is wanted is framed. -/
theorem framed_of_blanked {size : Nat} {lead value close x : List Char}
    (h : ProseCall size lead value close) (hx : Blanked (lead ++ (value ++ close)) x)
    (hclean : Blanked x (blankedCall (lead ++ (value ++ close)))) : Framed x := by
  constructor
  · obtain ⟨a, b, rfl, ha, -⟩ := hx.exists_append
    rw [ha.eq_of_clean h.clean_lead]
    obtain ⟨l, rfl, -⟩ := h.opening
    rw [List.append_assoc]
    exact List.prefix_append _ _
  · obtain ⟨q, ws, ws', rfl, -, -, hws'⟩ := h.closing
    have hcut : lead ++ (value ++ (q ++ (ws ++ ')' :: (ws' ++ [';'])))) =
        (lead ++ (value ++ (q ++ ws))) ++ ((')' :: ws') ++ [';']) := by
      simp
    rw [hcut] at hx hclean
    obtain ⟨a, b, rfl, -, hb⟩ := hx.exists_append
    obtain ⟨w, last, rfl, hw, hlast⟩ := hb.exists_append
    have hbracket : ∀ c ∈ ')' :: ws', isSeparator c = false := by
      refine List.forall_mem_cons.2 ⟨by decide, fun c hc => ?_⟩
      by_contra hsep
      rw [Bool.not_eq_false] at hsep
      have hno := (not_mem_marks_of_mem_marks (mem_marks_of_isSeparator hsep)).1
      rw [hws' c hc] at hno
      exact Bool.noConfusion hno
    obtain rfl := hw.eq_of_clean hbracket
    refine ⟨a, ws', ?_, hws'⟩
    -- the last character is the semicolon still, since it is so in the end
    obtain ⟨d, rfl⟩ : ∃ d, last = [d] := List.length_eq_one_iff.1 hlast.length_eq.symm
    rw [blankedCall, ← List.append_assoc a] at hclean
    obtain ⟨x', z, hxz, -, hz⟩ := hclean.exists_append
    obtain ⟨e, rfl⟩ : ∃ e, z = [e] := List.length_eq_one_iff.1 hz.length_eq.symm
    obtain ⟨-, he⟩ := List.append_inj' hxz rfl
    obtain rfl := List.cons.inj he |>.1
    cases hz with
    | cons hd _ =>
        rcases hd with rfl | ⟨-, hno⟩
        · rfl
        · exact absurd hno (by decide)

section
variable {size : Nat} {s : Place} {ms : List Match} {f : Match → List Char}
  {lead value close : List Char}

/-- Where no fit starts, no call ends behind words that open one. -/
theorem not_endsLater_of_lead (hcall : ProseCall size lead value close) (hs : s.groups = [])
    {n : Nat} (hnone : commonTags.ends size (s.move n) = []) {z : List Char}
    (hrest : s.rest.drop n = lead ++ z) : ¬ EndsLater z := by
  intro hz
  refine hcall.fits (s.move n) z (by rw [Place.groups_move, hs]) ?_ hz hnone
  rw [Place.rest_move, hrest]

/-- A copy of a call that starts in a framed text does not reach beyond it. -/
theorem prefix_of_framed (hcall : ProseCall size lead value close)
    (hbegins : beginsClosed value = false) {x u b : List Char} (hx : Framed x) (hu : u <:+ x)
    (hne : u ≠ []) (h : lead ++ (value ++ close) <+: u ++ b) : lead ++ (value ++ close) <+: u := by
  obtain ⟨w, hw⟩ := h
  rcases List.append_eq_append_iff.1 hw with ⟨r, rfl, -⟩ | ⟨r, hr, -⟩
  · exact List.prefix_append _ _
  obtain ⟨y, ws, hx, hws⟩ := hx.ends
  obtain ⟨a, rfl⟩ := hu
  -- what is left of the end of the framed text in the copy ends the copy
  have hcut : ∃ y', u = y' ++ ')' :: (ws ++ [';']) := by
    rcases List.append_eq_append_iff.1 hx with ⟨y', rfl, hu⟩ | ⟨u', rfl, hu⟩
    · exact ⟨y', hu⟩
    · obtain ⟨c, u, rfl⟩ := List.exists_cons_of_ne_nil hne
      have hfirst : c = 's' := by
        obtain ⟨l, rfl, -⟩ := hcall.opening
        rw [tagOpening_eq] at hr
        exact (List.cons.inj hr).1.symm
      have hmem : c ∈ ')' :: (ws ++ [';']) := by
        rw [hu]
        simp
      rw [hfirst] at hmem
      rcases List.mem_cons.1 hmem with h | h
      · exact absurd h (by decide)
      rcases List.mem_append.1 h with h | h
      · exact absurd (hws _ h) (by decide)
      · exact absurd (List.mem_singleton.1 h) (by decide)
  obtain ⟨y', rfl⟩ := hcut
  obtain rfl : r = [] := by
    refine hcall.eq_nil_of_end hbegins (y := y') hws ?_
    rw [hr]
    simp
  exact ⟨[], by rw [hr, List.append_nil, List.append_nil]⟩

/-- **A call is replaced in each match by itself.** -/
theorem replaceAll_recut (hcuts : Cuts commonTags size s ms) (hs : s.groups = [])
    (hcall : ProseCall size lead value close) (hbegins : beginsClosed value = false)
    (hf : ∀ m ∈ ms, Framed (f m)) (hms : ∀ m ∈ ms, EndsLater m.text) (new : List Char) :
    Text.replaceAll (lead ++ (value ++ close)) new (recut f s.pos s.rest ms) =
      recut (fun m => Text.replaceAll (lead ++ (value ++ close)) new (f m)) s.pos s.rest ms := by
  induction hcuts with
  | @nil s hnone =>
      refine Text.replaceAll_eq_self ?_
      rintro ⟨a, b, hab⟩
      replace hab : a ++ (lead ++ (value ++ close) ++ b) = s.rest := by
        rw [← List.append_assoc]
        exact hab
      have hlen : a.length ≤ s.rest.length := by
        rw [← hab, List.length_append]
        omega
      refine not_endsLater_of_lead hcall hs (hnone a.length hlen) ?_ (hcall.endsLater.append_right b)
      rw [← hab, List.drop_left, List.append_assoc]
  | @cons s m more gap r hrest hnone hm _ ih =>
      obtain ⟨hfm, hfmore⟩ := List.forall_mem_cons.1 hf
      obtain ⟨hends, hmore⟩ := List.forall_mem_cons.1 hms
      rw [recut_cons hrest hm, recut_cons hrest hm, Text.replaceAll_keep, Text.replaceAll,
        Text.replaceFrom_append (fun u hu hne => prefix_of_framed hcall hbegins hfm hu hne)
          (Nat.zero_le _), ih (by rw [Place.groups_move, hs]) hfmore hmore]
      · rfl
      rintro u ⟨a, rfl⟩ hne hpre
      have hlead : lead <+: u := by
        refine hcall.lead_prefix hne ?_ ((List.prefix_append _ _).trans hpre)
        exact hfm.opens.trans (List.prefix_append _ _)
      obtain ⟨y, rfl⟩ := hlead
      have hpos := List.length_pos_iff.2 hne
      refine not_endsLater_of_lead hcall hs (hnone a.length (by simp at hpos ⊢; omega)) ?_
        ((hends.append_right r).append_left y)
      rw [hrest, List.append_assoc, List.drop_left, List.append_assoc]

/-- A call stands in another one only at its end. -/
theorem suffix_of_infix (hcall : ProseCall size lead value close)
    (hbegins : beginsClosed value = false) {x : List Char} (hx : Framed x)
    (hin : x <:+: lead ++ (value ++ close)) : x <:+ lead ++ (value ++ close) := by
  obtain ⟨y, ws, rfl, hws⟩ := hx.ends
  obtain ⟨a, b, hab⟩ := hin
  obtain rfl : b = [] := by
    refine hcall.eq_nil_of_end hbegins (y := a ++ y) hws ?_
    rw [← hab]
    simp
  rw [List.append_nil] at hab
  exact ⟨a, hab⟩

end

/-! ## Replacing one call after the other -/

/-- A call and its clean form, in a text of `size` characters: the call may open and end inside
another one. -/
structure IsReplacement (size : Nat) (call : List Char × List Char) : Prop where
  blanked : Blanked call.1 call.2
  exists_parts : ∃ lead value close, ProseCall size lead value close ∧
    beginsClosed value = false ∧ value.any isSeparator = true ∧ call.1 = lead ++ (value ++ close)

section
variable {size : Nat} {s : Place} {ms : List Match} {f g : Match → List Char} {x : List Char}
  {calls : List (List Char × List Char)}

theorem IsReplacement.ne_nil {call : List Char × List Char} (h : IsReplacement size call) :
    call.1 ≠ [] := by
  obtain ⟨lead, value, close, hcall, -, -, htext⟩ := h.exists_parts
  rw [htext]
  simp [hcall.value_ne_nil]

theorem IsReplacement.framed {call : List Char × List Char} (h : IsReplacement size call) :
    Framed call.1 := by
  obtain ⟨lead, value, close, hcall, -, -, htext⟩ := h.exists_parts
  rw [htext]
  refine framed_of_blanked hcall (.refl _) ?_
  rw [hcall.blankedCall_eq]
  exact (Blanked.refl _).append ((Blanked.blankSeparators _).append (.refl _))

theorem blanked_replaceCalls (hcalls : ∀ call ∈ calls, IsReplacement size call) (x : List Char) :
    Blanked x (replaceCalls calls x) := by
  refine List.foldlRecOn _ _ (.refl x) fun y hy call hcall => ?_
  exact hy.trans ((hcalls call hcall).blanked.replaceAll (hcalls call hcall).ne_nil y)

theorem Blanked.of_append {a a' b b' : List Char} (h : Blanked (a ++ b) (a' ++ b'))
    (hlen : a.length = a'.length) : Blanked a a' ∧ Blanked b b' := by
  obtain ⟨a'', b'', heq, ha, hb⟩ := h.exists_append
  obtain ⟨rfl, rfl⟩ := List.append_inj heq (hlen.symm.trans ha.length_eq)
  exact ⟨ha, hb⟩

/-- What is blanked in a text that is cut is blanked in its matches. -/
theorem blanked_of_recut (hcuts : Cuts commonTags size s ms)
    (hlen : ∀ m ∈ ms, (f m).length = (g m).length)
    (h : Blanked (recut f s.pos s.rest ms) (recut g s.pos s.rest ms)) :
    ∀ m ∈ ms, Blanked (f m) (g m) := by
  induction hcuts with
  | nil => simp
  | cons gap r hrest _ hm _ ih =>
      obtain ⟨hlen, hmore⟩ := List.forall_mem_cons.1 hlen
      rw [recut_cons hrest hm, recut_cons hrest hm] at h
      obtain ⟨hhere, hbehind⟩ := (h.of_append rfl).2.of_append hlen
      exact List.forall_mem_cons.2 ⟨hhere, ih hmore hbehind⟩

/-- **Calls are replaced in each match by itself**, if the replacements leave what is wanted of every
match, or of the whole text. -/
theorem replaceCalls_recut (hcuts : Cuts commonTags size s ms) (hs : s.groups = [])
    (hms : ∀ m ∈ ms, ∃ lead value close, ProseCall size lead value close ∧
      m.text = lead ++ (value ++ close))
    (hcalls : ∀ call ∈ calls, IsReplacement size call) (hf : ∀ m ∈ ms, Blanked m.text (f m))
    (hend : (∀ m ∈ ms, replaceCalls calls (f m) = blankedCall m.text) ∨
      replaceCalls calls (recut f s.pos s.rest ms) =
        recut (fun m => blankedCall m.text) s.pos s.rest ms) :
    replaceCalls calls (recut f s.pos s.rest ms) =
      recut (fun m => replaceCalls calls (f m)) s.pos s.rest ms := by
  induction calls generalizing f with
  | nil => rfl
  | cons call calls ih =>
      obtain ⟨hcall, hmore⟩ := List.forall_mem_cons.1 hcalls
      have hne : ∀ m ∈ ms, m.text ≠ [] := by
        intro m hm
        obtain ⟨lead, value, close, hparts, htext⟩ := hms m hm
        rw [htext]
        simp [hparts.value_ne_nil]
      have hwanted : ∀ m ∈ ms, Blanked (f m) (blankedCall m.text) := by
        rcases hend with hend | hend
        · intro m hm
          rw [← hend m hm]
          exact blanked_replaceCalls hcalls (f m)
        · refine blanked_of_recut hcuts (fun m hm => ?_) (hend ▸ blanked_replaceCalls hcalls _)
          rw [length_blankedCall (hne m hm), (hf m hm).length_eq]
      have hframed : ∀ m ∈ ms, Framed (f m) := by
        intro m hm
        obtain ⟨lead, value, close, hparts, htext⟩ := hms m hm
        have hblanked := hf m hm
        have hleft := hwanted m hm
        rw [htext] at hblanked hleft
        exact framed_of_blanked hparts hblanked hleft
      have hends : ∀ m ∈ ms, EndsLater m.text := by
        intro m hm
        obtain ⟨lead, value, close, hparts, htext⟩ := hms m hm
        rw [htext]
        exact hparts.endsLater.append_left lead
      have hstep : Text.replaceAll call.1 call.2 (recut f s.pos s.rest ms) =
          recut (fun m => Text.replaceAll call.1 call.2 (f m)) s.pos s.rest ms := by
        obtain ⟨lead, value, close, hparts, hbegins, -, htext⟩ := hcall.exists_parts
        rw [htext]
        exact replaceAll_recut hcuts hs hparts hbegins hframed hends _
      show replaceCalls calls (Text.replaceAll call.1 call.2 (recut f s.pos s.rest ms)) = _
      rw [hstep]
      refine ih hmore (fun m hm => (hf m hm).trans (hcall.blanked.replaceAll hcall.ne_nil _)) ?_
      refine hend.imp_right fun hend => ?_
      rw [← hstep]
      exact hend

/-! ## What is left of a call -/

theorem replaceCalls_of_not_infix (h : ∀ call ∈ calls, ¬ call.1 <:+: x) :
    replaceCalls calls x = x := by
  induction calls with
  | nil => rfl
  | cons call calls ih =>
      obtain ⟨hcall, hmore⟩ := List.forall_mem_cons.1 h
      show replaceCalls calls (Text.replaceAll call.1 call.2 x) = x
      rw [Text.replaceAll_eq_self hcall, ih hmore]

/-- No call that is replaced stands in a text with one separator. -/
theorem replaceCalls_of_countP (hcalls : ∀ call ∈ calls, IsReplacement size call)
    (hx : x.countP isSeparator = 1) : replaceCalls calls x = x := by
  refine replaceCalls_of_not_infix fun call hcall => not_infix_of_countP ?_
  obtain ⟨lead, value, close, hparts, -, hvalue, htext⟩ := (hcalls call hcall).exists_parts
  have htwo := hparts.two_le_countP hvalue
  rw [htext, hx]
  omega

/-- **What is left of a call that is replaced** is what is wanted, if the clean forms are, and if no
earlier call stands at the end of a later one. -/
theorem replaceCalls_eq (hcalls : ∀ call ∈ calls, IsReplacement size call)
    (hclean : ∀ call ∈ calls, call.2 = blankedCall call.1)
    (hends : calls.Pairwise fun c d => c.1 <:+ d.1 → c.1 = d.1)
    (hx : x ∈ calls.map Prod.fst) : replaceCalls calls x = blankedCall x := by
  induction calls with
  | nil => simp at hx
  | cons call calls ih =>
      obtain ⟨hcall, hmore⟩ := List.forall_mem_cons.1 hcalls
      obtain ⟨hform, hforms⟩ := List.forall_mem_cons.1 hclean
      obtain ⟨hlater, hends⟩ := List.pairwise_cons.1 hends
      show replaceCalls calls (Text.replaceAll call.1 call.2 x) = blankedCall x
      by_cases heq : x = call.1
      · have hself := Text.replaceAll_append hcall.ne_nil call.2 []
        rw [List.append_nil, show Text.replaceAll call.1 call.2 [] = [] from rfl,
          List.append_nil] at hself
        rw [heq, hself, hform]
        exact replaceCalls_of_countP hmore (countP_blankedCall _)
      · have hx' : x ∈ calls.map Prod.fst := by
          rw [List.map_cons, List.mem_cons] at hx
          exact hx.resolve_left heq
        rw [Text.replaceAll_eq_self fun hin => ?_]
        · exact ih hmore hforms hends hx'
        obtain ⟨d, hd, rfl⟩ := List.mem_map.1 hx'
        obtain ⟨lead, value, close, hparts, hbegins, -, htext⟩ := (hmore d hd).exists_parts
        rw [htext] at hin
        refine heq (hlater d hd ?_).symm
        rw [htext]
        exact suffix_of_infix hparts hbegins hcall.framed hin

end

/-! ## Positions in values -/

section
variable {size : Nat} {s : Place} {m : Match} {ms : List Match} {t u : List Char}

structure IsCutAt (size : Nat) (m : Match) (lead value close : List Char) : Prop where
  call : ProseCall size lead value close
  text_eq : m.text = lead ++ (value ++ close)
  value_eq : m.group "value" = value
  behind_eq : behindValue m = close
  inValue_iff : ∀ n, inValue m n = true ↔
    m.start + lead.length ≤ n ∧ n < m.start + lead.length + value.length

theorem exists_isCutAt (hs : s.groups = []) (hm : commonTags.matchAt? size s = some m) :
    ∃ lead value close, IsCutAt size m lead value close := by
  obtain ⟨lead, value, close, span, hcall, htext, hspan, hvalue, hstart, hstop⟩ :=
    exists_proseCall hs hm
  refine ⟨lead, value, close, hcall, htext, ?_, ?_, fun n => ?_⟩
  · rw [Match.group, Match.group?, hspan]
    exact hvalue
  · rw [behindValue, hspan, htext, Option.map_some, Option.getD_some, hstop, hstart, Nat.add_assoc,
      Nat.add_sub_cancel_left, ← List.append_assoc, ← List.length_append, List.drop_left]
  · rw [inValue, hspan, Option.any_some, hstop, hstart]
    simp

theorem exists_isCutAt_of_mem (hm : m ∈ commonTags.findAll t) :
    ∃ lead value close, IsCutAt t.length m lead value close := by
  obtain ⟨n, -, hmatch⟩ := exists_matchAt?_of_mem_findAll hm
  exact exists_isCutAt (by rw [Place.groups_move]; rfl) hmatch

/-- What is wanted of a match. -/
theorem blankValues_match (hs : s.groups = []) (hm : commonTags.matchAt? size s = some m) :
    blankValues [m] m.start m.text = blankedCall m.text := by
  obtain ⟨lead, value, close, hcut⟩ := exists_isCutAt hs hm
  have hany (n : Nat) : [m].any (inValue · n) = inValue m n := by simp
  rw [hcut.text_eq, blankValues_append, blankValues_append, hcut.call.blankedCall_eq,
    blankValues_of_clean hcut.call.clean_lead, blankValues_inside, blankValues_outside]
  · intro n _
    rw [hany, ← Bool.not_eq_true, hcut.inValue_iff]
    omega
  · intro n hn
    rw [hany, hcut.inValue_iff]
    omega

theorem start_le_of_inValue (hs : s.groups = []) (hm : commonTags.matchAt? size s = some m) {n : Nat}
    (h : inValue m n = true) : m.start ≤ n ∧ n < m.stop := by
  obtain ⟨lead, value, close, hcut⟩ := exists_isCutAt hs hm
  obtain ⟨r, -, hstart, hstop⟩ := exists_rest_of_matchAt? hm
  have hin := (hcut.inValue_iff n).1 h
  rw [hstop, ← hstart, hcut.text_eq, List.length_append, List.length_append]
  omega

/-- Values of matches lie behind the place from which on the text is cut. -/
theorem pos_le_of_inValue (hcuts : Cuts commonTags size s ms) (hs : s.groups = []) {n : Nat}
    (h : ms.any (inValue · n) = true) : s.pos ≤ n := by
  induction hcuts with
  | nil => simp at h
  | @cons s m more gap r hrest _ hm _ ih =>
      have hlen : s.rest.length = gap.length + (m.text.length + r.length) := by
        rw [hrest, List.length_append, List.length_append]
      rw [List.any_cons, Bool.or_eq_true] at h
      rcases h with h | h
      · have hle := (start_le_of_inValue (by rw [Place.groups_move, hs]) hm h).1
        rw [start_of_matchAt? hm, Place.pos_move (by omega)] at hle
        omega
      · have hle := ih (by rw [Place.groups_move, hs]) h
        rw [Place.pos_move (by omega)] at hle
        omega

/-- **What is wanted of a text** is what is wanted of its matches, and the text between them. -/
theorem blankValues_recut (hcuts : Cuts commonTags size s ms) (hs : s.groups = []) :
    blankValues ms s.pos s.rest = recut (fun m => blankedCall m.text) s.pos s.rest ms := by
  induction hcuts with
  | nil => exact blankValues_outside (by simp)
  | @cons s m more gap r hrest _ hm hcuts ih =>
      have hlen : s.rest.length = gap.length + (m.text.length + r.length) := by
        rw [hrest, List.length_append, List.length_append]
      have hgroups (n : Nat) : (s.move n).groups = [] := by rw [Place.groups_move, hs]
      obtain ⟨-, -, hstart, hstop⟩ := exists_rest_of_matchAt? hm
      rw [Place.pos_move (by omega)] at hstart hstop
      have hpos : (s.move (gap.length + m.text.length)).pos = m.stop := by
        rw [Place.pos_move (by omega)]
        omega
      have hbehind : (s.move (gap.length + m.text.length)).rest = r := by
        rw [Place.rest_move, hrest, ← List.append_assoc, ← List.length_append, List.drop_left]
      -- a position lies in the value of a match only between its start and its end
      have hhere {n : Nat} (hn : n < m.start ∨ m.stop ≤ n) : inValue m n = false := by
        rw [← Bool.not_eq_true]
        intro h
        have := start_le_of_inValue (hgroups _) hm h
        omega
      have hlater {n : Nat} (hn : n < m.stop) : more.any (inValue · n) = false := by
        rw [← Bool.not_eq_true]
        intro h
        have := pos_le_of_inValue hcuts (hgroups _) h
        omega
      have hsplit : blankValues (m :: more) s.pos s.rest = blankValues (m :: more) s.pos gap ++
          (blankValues (m :: more) m.start m.text ++ blankValues (m :: more) m.stop r) := by
        rw [hrest, blankValues_append, blankValues_append, hstart, hstop]
      rw [hsplit, recut_cons hrest hm, ← ih (hgroups _), hpos, hbehind,
        ← blankValues_match (hgroups _) hm]
      congr 1
      · refine blankValues_outside fun n hn => ?_
        rw [List.any_cons, hhere (by omega), hlater (by omega)]
        rfl
      congr 1
      · refine blankValues_congr fun n hn => ?_
        rw [List.any_cons, List.any_cons, hlater (by omega)]
        simp
      · refine blankValues_congr fun n hn => ?_
        rw [List.any_cons, hhere (by omega), Bool.false_or]

/-! ## The repair -/

theorem withoutSeparators?_of_repair {s : Subject} {w : Surroundings} {r : Repair}
    (ht : s.text = .ok t) (hr : illegalCharacters.repair s w = .ok (some r)) :
    withoutSeparators? t = some r.text := by
  by_cases hfile : s.file.isInclude = true
  · simp [illegalCharacters, hfile] at hr
  · simp only [illegalCharacters, hfile, ht] at hr
    obtain ⟨new, hnew, rfl⟩ := Option.map_eq_some_iff.1 (Except.ok.inj hr)
    exact hnew

theorem withoutSeparators?_eq_some (h : withoutSeparators? t = some u) :
    u = replaceCalls (uncleanCalls t) t := by
  rw [withoutSeparators?] at h
  split at h
  · exact absurd h (by simp)
  · exact (Option.some.inj h).symm

/-- Where the calls to be replaced come from. -/
theorem mem_uncleanCalls {call : List Char × List Char} : call ∈ uncleanCalls t ↔
    ∃ m ∈ commonTags.findAll t, (m.group "value").any isSeparator = true ∧ call = (m.text,
      Text.replaceAll (m.group "value") (blankSeparators (m.group "value")) m.text) := by
  rw [uncleanCalls, List.mem_filterMap]
  constructor
  · rintro ⟨m, hm, hclean⟩
    obtain ⟨new, hnew, rfl⟩ := Option.map_eq_some_iff.1 hclean
    obtain ⟨hany, hform⟩ := Option.ite_none_right_eq_some.1 hnew
    obtain rfl := Option.some.inj hform
    exact ⟨m, hm, hany, rfl⟩
  · rintro ⟨m, hm, hany, rfl⟩
    exact ⟨m, hm, by rw [cleanCall?, if_pos hany]; rfl⟩

/-- No value from which separators are taken begins with the end of a call. -/
def ValuesOpen (t : List Char) : Prop :=
  ∀ m ∈ commonTags.findAll t, (m.group "value").any isSeparator = true →
    beginsClosed (m.group "value") = false

instance (t : List Char) : Decidable (ValuesOpen t) :=
  inferInstanceAs (Decidable (∀ m ∈ commonTags.findAll t, (m.group "value").any isSeparator = true →
    beginsClosed (m.group "value") = false))

theorem ValuesOpen.isReplacement (h : ValuesOpen t) :
    ∀ call ∈ uncleanCalls t, IsReplacement t.length call := by
  intro call hcall
  obtain ⟨-, hblanked⟩ := blanked_uncleanCalls call hcall
  obtain ⟨m, hm, hany, rfl⟩ := mem_uncleanCalls.1 hcall
  obtain ⟨lead, value, close, hcut⟩ := exists_isCutAt_of_mem hm
  have hbegins := h m hm hany
  rw [hcut.value_eq] at hany hbegins
  exact ⟨hblanked, lead, value, close, hcut.call, hbegins, hany, hcut.text_eq⟩

theorem cuts_commonTags (t : List Char) :
    Cuts commonTags t.length (.ofText t) (commonTags.findAll t) := by
  refine cuts_findAll fun s m hm => ?_
  obtain ⟨e, he, rfl⟩ := exists_mem_ends_of_matchAt? hm
  obtain ⟨y, z, hy, -, htext⟩ := spells_chain_cons.1 (spells_of_mem_ends he)
  obtain rfl := spells_word.1 hy
  show Span.text _ ≠ []
  rw [htext]
  simp

/-- **The whole text and its calls.** The replacements leave what is wanted of a text exactly if they
leave what is wanted of every call in it. -/
theorem replaceCalls_eq_iff (h : ValuesOpen t) :
    replaceCalls (uncleanCalls t) t = blankValues (commonTags.findAll t) 0 t ↔
      ∀ m ∈ commonTags.findAll t, replaceCalls (uncleanCalls t) m.text = blankedCall m.text := by
  have hcuts := cuts_commonTags t
  have hself : recut Match.text 0 t (commonTags.findAll t) = t := hcuts.recut_text
  have hwanted : blankValues (commonTags.findAll t) 0 t =
      recut (fun m => blankedCall m.text) 0 t (commonTags.findAll t) := blankValues_recut hcuts rfl
  have hms : ∀ m ∈ commonTags.findAll t, ∃ lead value close,
      ProseCall t.length lead value close ∧ m.text = lead ++ (value ++ close) := by
    intro m hm
    obtain ⟨lead, value, close, hcut⟩ := exists_isCutAt_of_mem hm
    exact ⟨lead, value, close, hcut.call, hcut.text_eq⟩
  have hrun := replaceCalls_recut (f := Match.text) hcuts rfl hms h.isReplacement
    fun m _ => .refl m.text
  have hlen : ∀ m ∈ commonTags.findAll t,
      (replaceCalls (uncleanCalls t) m.text).length = (blankedCall m.text).length := by
    intro m hm
    obtain ⟨lead, value, close, hcall, htext⟩ := hms m hm
    rw [← (blanked_replaceCalls h.isReplacement m.text).length_eq, length_blankedCall]
    rw [htext]
    simp [hcall.value_ne_nil]
  constructor
  · intro heq
    have hend : replaceCalls (uncleanCalls t) (recut Match.text 0 t (commonTags.findAll t)) =
        recut (fun m => blankedCall m.text) 0 t (commonTags.findAll t) := by
      rw [hself, heq, hwanted]
    exact (hcuts.recut_inj hlen).1 ((hrun (.inr hend)).symm.trans hend)
  · intro hall
    have hend : replaceCalls (uncleanCalls t) (recut Match.text 0 t (commonTags.findAll t)) =
        recut (fun m => blankedCall m.text) 0 t (commonTags.findAll t) :=
      (hrun (.inl hall)).trans ((hcuts.recut_inj hlen).2 hall)
    rwa [hself, ← hwanted] at hend

/-- A call comes out as wanted, if no value stands at the end of its call once more and no call stands
at the end of a later one. -/
theorem replaceCalls_eq_blankedCall (h : ValuesOpen t)
    (hvalues : ∀ m ∈ commonTags.findAll t, (m.group "value").any isSeparator = true →
      ¬ m.group "value" <:+ behindValue m)
    (hends : (uncleanCalls t).Pairwise fun c d => c.1 <:+ d.1 → c.1 = d.1)
    (hm : m ∈ commonTags.findAll t) :
    replaceCalls (uncleanCalls t) m.text = blankedCall m.text := by
  by_cases hany : (m.group "value").any isSeparator = true
  · refine replaceCalls_eq h.isReplacement (fun call hcall => ?_) hends ?_
    · obtain ⟨m, hm, hany, rfl⟩ := mem_uncleanCalls.1 hcall
      obtain ⟨lead, value, close, hcut⟩ := exists_isCutAt_of_mem hm
      have hclose := hvalues m hm hany
      rw [hcut.value_eq, hcut.behind_eq] at hclose
      rw [hcut.value_eq] at hany
      simp only [hcut.value_eq, hcut.text_eq]
      exact hcut.call.replaceAll_value hany hclose
    · exact List.mem_map.2 ⟨_, mem_uncleanCalls.2 ⟨m, hm, hany, rfl⟩, rfl⟩
  · -- a clean call is as wanted, and no other one stands in it
    obtain ⟨lead, value, close, hcut⟩ := exists_isCutAt_of_mem hm
    have hclean : ∀ c ∈ value, isSeparator c = false := by
      rw [hcut.value_eq] at hany
      simpa using hany
    have hsame : blankedCall m.text = m.text := by
      rw [hcut.text_eq, hcut.call.blankedCall_eq, blankSeparators_of_clean hclean]
    rw [hsame]
    refine replaceCalls_of_countP h.isReplacement ?_
    rw [← hsame]
    exact countP_blankedCall _

/-- **Separators are taken out of values.** The repaired text is the text with blanks in the place of
some separators. If no value from which they are taken begins with the end of a call, these are the
separators in the values of the calls that are found exactly if each of these calls comes out so by
itself. That is the case if no value stands at the end of its call once more, and no call stands at
the end of a later one. -/
theorem separators_taken_out_iff {s : Subject} {w : Surroundings} {r : Repair}
    (ht : s.text = .ok t) (hr : illegalCharacters.repair s w = .ok (some r)) :
    Blanked t r.text ∧ (ValuesOpen t →
      (r.text = blankValues (commonTags.findAll t) 0 t ↔ ∀ m ∈ commonTags.findAll t,
        replaceCalls (uncleanCalls t) m.text = blankValues [m] m.start m.text) ∧
      ((∀ m ∈ commonTags.findAll t, (m.group "value").any isSeparator = true →
          ¬ m.group "value" <:+ behindValue m) →
        ((uncleanCalls t).Pairwise fun c d => c.1 <:+ d.1 → c.1 = d.1) →
        r.text = blankValues (commonTags.findAll t) 0 t)) := by
  have htext := withoutSeparators?_of_repair ht hr
  refine ⟨blanked_withoutSeparators? htext, fun hopen => ?_⟩
  rw [withoutSeparators?_eq_some htext]
  constructor
  · rw [replaceCalls_eq_iff hopen]
    refine forall₂_congr fun m hm => ?_
    obtain ⟨n, -, hmatch⟩ := exists_matchAt?_of_mem_findAll hm
    rw [blankValues_match (by rw [Place.groups_move]; rfl) hmatch]
  · intro hvalues hends
    exact (replaceCalls_eq_iff hopen).2 fun m hm =>
      replaceCalls_eq_blankedCall hopen hvalues hends hm

end

def scriptOf (t : List Char) : Subject :=
  { root := default, file := default, text := .ok t }

theorem exists_repair {t : List Char} {w : Surroundings} (h : (withoutSeparators? t).isSome = true) :
    ∃ r, illegalCharacters.repair (scriptOf t) w = .ok (some r) ∧
      withoutSeparators? t = some r.text := by
  obtain ⟨u, hu⟩ := Option.isSome_iff_exists.1 h
  refine ⟨⟨u, "Replaced Illegal Characters."⟩, ?_, hu⟩
  show Except.ok ((withoutSeparators? t).map _) = _
  rw [hu]
  rfl

/-- Separators outside of calls, in a call, and in a call at the end of another one. -/
def nestedCalls : List Char :=
  ("x=1;\nscript_tag(name:\"impact\", value:\"c|script_tag(name:\"summary\", value:\"a=b\");\n" ++
    "script_tag(name:\"summary\", value:\"a=b\");\n").toList

/-- Separators are taken out of both calls, also where the one holds the other. -/
theorem separators_taken_out_of_nestedCalls :
    ∃ r, illegalCharacters.repair (scriptOf nestedCalls) { tree := .empty, now := default } =
        .ok (some r) ∧ ValuesOpen nestedCalls ∧ r.text ≠ nestedCalls ∧
      r.text = blankValues (commonTags.findAll nestedCalls) 0 nestedCalls := by
  have hall : (withoutSeparators? nestedCalls).isSome = true ∧
      withoutSeparators? nestedCalls ≠ some nestedCalls ∧ ValuesOpen nestedCalls ∧
      (∀ m ∈ commonTags.findAll nestedCalls, (m.group "value").any isSeparator = true →
        ¬ m.group "value" <:+ behindValue m) ∧
      (uncleanCalls nestedCalls).Pairwise fun c d => c.1 <:+ d.1 → c.1 = d.1 := by
    decide +kernel
  obtain ⟨hsome, hne, hopen, hvalues, hends⟩ := hall
  obtain ⟨r, hr, htext⟩ := exists_repair hsome
  rw [htext] at hne
  obtain ⟨-, hexact⟩ := separators_taken_out_iff rfl hr
  exact ⟨r, hr, hopen, fun heq => hne (by rw [heq]), (hexact hopen).2 hvalues hends⟩

def semicolonCall : List Char :=
  "script_tag(name:\"summary\", value:\";\");\n".toList

/-- The value of a call may stand at its end once more: then the semicolon behind the call goes too. -/
theorem semicolon_taken_from_call :
    ∃ r, illegalCharacters.repair (scriptOf semicolonCall) { tree := .empty, now := default } =
        .ok (some r) ∧
      r.text ≠ blankValues (commonTags.findAll semicolonCall) 0 semicolonCall := by
  have hall : (withoutSeparators? semicolonCall).isSome = true ∧ withoutSeparators? semicolonCall ≠
      some (blankValues (commonTags.findAll semicolonCall) 0 semicolonCall) := by
    decide +kernel
  obtain ⟨r, hr, htext⟩ := exists_repair hall.1
  rw [htext] at hall
  exact ⟨r, hr, fun heq => hall.2 (by rw [heq])⟩

-- an earlier call at the end of a later one: a separator in front of it stays
example :
    let t := ("script_tag(name:\"summary\", value:\"a=b\");\n" ++
      "script_tag(name:\"impact\", value:\"c|script_tag(name:\"summary\", value:\"a=b\");\n").toList
    ValuesOpen t ∧ withoutSeparators? t ≠ some (blankValues (commonTags.findAll t) 0 t) := by
  decide +kernel

-- a value that begins with the end of a call: another call loses its semicolon
example :
    let t := ("script_tag(name:\"summary\", value:\");=\");\n" ++
      "script_tag(name:\"impact\", value:\"x script_tag(name:\"summary\", value:\");=\");\n").toList
    ¬ ValuesOpen t ∧ withoutSeparators? t ≠ some (blankValues (commonTags.findAll t) 0 t) := by
  decide +kernel

end Checks

end NaslLint
