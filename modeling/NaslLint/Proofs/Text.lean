import NaslLint.Text.Digit
import NaslLint.Text.Encoding
import NaslLint.Text.Find
import NaslLint.Text.Lines

/-!
# Where a word can stand in a text

A word cannot stand across a character that it does not hold, and a word whose first character does
not come back in it cannot stand across the start of another copy of itself. `replaceAll_around` says
what replacing a word leaves alone, and `Stored` is about texts that are written and read back.
-/

namespace NaslLint.Text

theorem isDigit_of_toNat {c : Char} (hlo : 48 ≤ c.toNat) (hhi : c.toNat ≤ 57) :
    isDigit c = true := by
  rw [isDigit, digitRanges, inRanges, if_neg (by omega), if_pos (by omega)]

theorem isDigit_of_isAsciiDigit {c : Char} (h : isAsciiDigit c = true) : isDigit c = true := by
  rw [isAsciiDigit, Bool.and_eq_true, decide_eq_true_eq, decide_eq_true_eq] at h
  exact isDigit_of_toNat h.1 h.2

/-- No blank is a digit. -/
theorem isDigit_of_isBlank {c : Char} (h : isBlank c = true) : isDigit c = false := by
  have hapart : ∀ r ∈ blankRanges, ∀ d ∈ digitRanges, r.2 < d.1 ∨ d.2 < r.1 := by decide
  have hdigits : Ascending digitRanges := by decide
  rw [← Bool.not_eq_true]
  intro hdigit
  obtain ⟨r, hr, hlo, hhi⟩ := (inRanges_iff blankRanges_ascending _).1 h
  obtain ⟨d, hd, hlo', hhi'⟩ := (inRanges_iff hdigits _).1 hdigit
  have := hapart r hr d hd
  omega

theorem not_infix_of_contains {w t : List Char} (h : contains w t = false) : ¬ w <:+: t := by
  rw [← contains_iff, h]
  exact Bool.false_ne_true

/-- A word does not reach across a character that it does not hold. -/
theorem infix_append_cons_iff {w a b : List Char} {d : Char} (hd : d ∉ w) :
    w <:+: a ++ d :: b ↔ w <:+: a ∨ w <:+: b := by
  constructor
  · intro h
    rcases List.infix_append_iff.1 h with h | h | ⟨l₁, l₂, rfl, h₁, h₂⟩
    · exact Or.inl h
    · rcases List.infix_cons_iff.1 h with h | h
      · rcases List.prefix_cons_iff.1 h with rfl | ⟨t, rfl, -⟩
        · exact Or.inl (List.nil_infix)
        · exact absurd List.mem_cons_self hd
      · exact Or.inr h
    · rcases List.prefix_cons_iff.1 h₂ with rfl | ⟨t, rfl, -⟩
      · exact Or.inl (by simpa using h₁.isInfix)
      · exact absurd (by simp) hd
  · rintro (h | h)
    · exact List.infix_append_of_infix_left h
    · exact List.infix_append_of_infix_right (List.infix_cons h)

/-- A word whose first character does not come back in it stands before another copy of itself, or
before the end of the text, without reaching into it. -/
theorem prefix_of_prefix_append {c : Char} {w u rest : List Char} (hc : c ∉ w)
    (hrest : ∀ d r, rest = d :: r → d = c) (hu : u ≠ []) (h : c :: w <+: u ++ rest) :
    c :: w <+: u := by
  obtain ⟨z, hz⟩ := h
  rcases List.append_eq_append_iff.1 hz with ⟨as, rfl, -⟩ | ⟨bs, hbs, hrs⟩
  · exact List.prefix_append _ _
  · cases bs with
    | nil => exact ⟨[], by simpa using hbs⟩
    | cons d bs =>
        obtain rfl := hrest d _ hrs
        cases u with
        | nil => exact absurd rfl hu
        | cons a u =>
            obtain ⟨-, rfl⟩ : _ = _ ∧ w = u ++ d :: bs := by simpa using hbs
            exact absurd (by simp) hc

/-- Two words up to the same mark, which neither holds, are the same. -/
theorem eq_of_append_cons_prefix {u v r : List Char} {d : Char} (hu : d ∉ u) (hv : d ∉ v)
    (h : u ++ [d] <+: v ++ d :: r) : u = v := by
  obtain ⟨z, hz⟩ := h
  rw [List.append_assoc] at hz
  rcases List.append_eq_append_iff.1 hz with ⟨as, rfl, has⟩ | ⟨bs, rfl, hbs⟩
  · cases as with
    | nil => rw [List.append_nil]
    | cons a as =>
        obtain ⟨rfl, -⟩ : d = a ∧ _ := by simpa using has
        exact absurd (by simp) hv
  · cases bs with
    | nil => rw [List.append_nil]
    | cons b bs =>
        obtain ⟨rfl, -⟩ : d = b ∧ _ := by simpa using hbs
        exact absurd (by simp) hu

/-- A text is cut in one way only into characters of a class and what follows them. -/
theorem eq_of_append_eq_append {cls : Char → Bool} {u v r r' : List Char}
    (hu : ∀ c ∈ u, cls c = true) (hv : ∀ c ∈ v, cls c = true)
    (hr : ∀ c z, r = c :: z → cls c = false) (hr' : ∀ c z, r' = c :: z → cls c = false)
    (h : u ++ r = v ++ r') : u = v ∧ r = r' := by
  have hspan {a b : List Char} (ha : ∀ c ∈ a, cls c = true) (hb : ∀ c z, b = c :: z → cls c = false) :
      (a ++ b).takeWhile cls = a := by
    rw [List.takeWhile_append_of_pos ha]
    cases b with
    | nil => simp
    | cons c z => simp [hb c z rfl]
  have heq : u = v := by
    rw [← hspan hu hr, h, hspan hv hr']
  subst heq
  exact ⟨rfl, List.append_cancel_left h⟩

/-- A text is cut in one way only into characters of a class at its end and what stands before
them. -/
theorem eq_of_append_eq_append_right {p : Char → Bool} {u v r r' : List Char}
    (hu : ∀ c ∈ u, p c = true) (hv : ∀ c ∈ v, p c = true)
    (hr : ∀ c ∈ r.getLast?, p c = false) (hr' : ∀ c ∈ r'.getLast?, p c = false)
    (h : r ++ u = r' ++ v) : r = r' ∧ u = v := by
  have hend {z : List Char} (hz : ∀ c ∈ z.getLast?, p c = false) :
      ∀ c y, z.reverse = c :: y → p c = false := by
    intro c y hy
    refine hz c ?_
    rw [← List.head?_reverse, hy]
    rfl
  have hreverse : u.reverse ++ r.reverse = v.reverse ++ r'.reverse := by
    rw [← List.reverse_append, h, List.reverse_append]
  obtain ⟨huv, hrr⟩ := eq_of_append_eq_append (by simpa using hu) (by simpa using hv) (hend hr)
    (hend hr') hreverse
  exact ⟨List.reverse_inj.1 hrr, List.reverse_inj.1 huv⟩

theorem eq_false_of_cons {cls : Char → Bool} {d : Char} (hd : cls d = false) (y : List Char) :
    ∀ c z, d :: y = c :: z → cls c = false := by
  rintro c z hc
  obtain ⟨rfl, -⟩ := List.cons.inj hc
  exact hd

/-- Texts differ if they end in different words, the shorter of which does not end the longer one. -/
theorem append_ne_append_of_ending {x y e f : List Char} (hlength : e.length ≤ f.length)
    (hending : e.isSuffixOf f = false) : x ++ e ≠ y ++ f := by
  intro h
  have hsuffix : e <:+ y ++ f := by
    rw [← h]
    exact List.suffix_append _ _
  have hend := List.suffix_of_suffix_length_le hsuffix (List.suffix_append _ _) hlength
  rw [← List.isSuffixOf_iff_suffix, hending] at hend
  cases hend

/-- Texts that open alike differ in what follows. -/
theorem append_ofList_inj {opening : String} {x y : List Char}
    (h : opening ++ String.ofList x = opening ++ String.ofList y) : x = y := by
  have hlists := congrArg String.toList h
  rw [String.toList_append, String.toList_append, String.toList_ofList, String.toList_ofList] at hlists
  exact List.append_cancel_left hlists

/-! ## Replacing a word -/

theorem mem_replaceFrom {old new t : List Char} {skip : Nat} {c : Char}
    (h : c ∈ replaceFrom old new skip t) : c ∈ new ∨ c ∈ t := by
  induction t generalizing skip with
  | nil => cases skip <;> simp [replaceFrom] at h
  | cons d t ih =>
      cases skip with
      | succ skip =>
          rw [replaceFrom] at h
          exact (ih h).imp_right (List.mem_cons_of_mem _)
      | zero =>
          rw [replaceFrom] at h
          split at h
          · rcases List.mem_append.1 h with h | h
            · exact Or.inl h
            · exact (ih h).imp_right (List.mem_cons_of_mem _)
          · rcases List.mem_cons.1 h with rfl | h
            · exact Or.inr List.mem_cons_self
            · exact (ih h).imp_right (List.mem_cons_of_mem _)

theorem mem_replaceAll {old new t : List Char} {c : Char} (h : c ∈ replaceAll old new t) :
    c ∈ new ∨ c ∈ t :=
  mem_replaceFrom h

theorem length_le_length_replaceFrom {old new : List Char} (hold : old ≠ [])
    (hnew : old.length ≤ new.length) (skip : Nat) (t : List Char) :
    t.length ≤ skip + (replaceFrom old new skip t).length := by
  have hpos := List.length_pos_iff.2 hold
  induction t generalizing skip with
  | nil => exact Nat.zero_le _
  | cons c t ih =>
      cases skip with
      | succ skip =>
          have h := ih skip
          rw [replaceFrom, List.length_cons]
          omega
      | zero =>
          rw [replaceFrom]
          split
          · have h := ih (old.length - 1)
            rw [List.length_append, List.length_cons]
            omega
          · have h := ih 0
            rw [List.length_cons, List.length_cons]
            omega

/-- Replacing a word by one that is not shorter does not shorten the text. -/
theorem length_le_length_replaceAll {old new : List Char} (hold : old ≠ [])
    (hnew : old.length ≤ new.length) (t : List Char) :
    t.length ≤ (replaceAll old new t).length := by
  have h := length_le_length_replaceFrom hold hnew 0 t
  rwa [Nat.zero_add] at h

/-- Replacing stops at a place that no occurrence reaches across. -/
theorem replaceFrom_append {old new a x : List Char} {skip : Nat}
    (h : ∀ u, u <:+ a → u ≠ [] → old <+: u ++ x → old <+: u) (hskip : skip ≤ a.length) :
    replaceFrom old new skip (a ++ x) = replaceFrom old new skip a ++ replaceAll old new x := by
  induction a generalizing skip with
  | nil =>
      obtain rfl : skip = 0 := by simpa using hskip
      rfl
  | cons c a ih =>
      have ha : ∀ u, u <:+ a → u ≠ [] → old <+: u ++ x → old <+: u :=
        fun u hu => h u (hu.trans (List.suffix_cons c a))
      cases skip with
      | succ skip => exact ih ha (by simpa using hskip)
      | zero =>
          have hpre : old <+: c :: a ++ x ↔ old <+: c :: a :=
            ⟨h _ List.suffix_rfl (by simp), fun hp => hp.trans (List.prefix_append _ _)⟩
          rw [List.cons_append, replaceFrom, replaceFrom]
          rw [← List.isPrefixOf_iff_prefix, ← List.isPrefixOf_iff_prefix, List.cons_append] at hpre
          by_cases hp : old.isPrefixOf (c :: a) = true
          · have hlen := (List.isPrefixOf_iff_prefix.1 hp).length_le
            rw [if_pos hp, if_pos (hpre.2 hp), List.append_assoc, ih ha (by simp at hlen; omega)]
          · rw [if_neg hp, if_neg fun hp' => hp (hpre.1 hp'), ih ha (Nat.zero_le _)]
            rfl

/-- A word in which no occurrence starts is kept. -/
theorem replaceAll_keep {old new kept b : List Char}
    (h : ∀ u, u <:+ kept → u ≠ [] → ¬ old <+: u ++ b) :
    replaceAll old new (kept ++ b) = kept ++ replaceAll old new b := by
  induction kept with
  | nil => rfl
  | cons c kept ih =>
      have hp : ¬ old.isPrefixOf (c :: (kept ++ b)) = true := by
        rw [List.isPrefixOf_iff_prefix, ← List.cons_append]
        exact h _ List.suffix_rfl (by simp)
      rw [replaceAll, List.cons_append, replaceFrom, if_neg hp]
      exact congrArg _ (ih fun u hu => h u (hu.trans (List.suffix_cons c kept)))

/-- **Replacing beside a word.** A word that no occurrence touches is still there afterwards. -/
theorem replaceAll_around {old new a kept b : List Char}
    (hbefore : ∀ u, u <:+ a → u ≠ [] → old <+: u ++ (kept ++ b) → old <+: u)
    (hinside : ∀ u, u <:+ kept → u ≠ [] → ¬ old <+: u ++ b) :
    replaceAll old new (a ++ (kept ++ b)) =
      replaceAll old new a ++ (kept ++ replaceAll old new b) := by
  rw [replaceAll, replaceFrom_append hbefore (Nat.zero_le _), replaceAll_keep hinside]
  rfl

/-- A last character with which the word does not end is kept. -/
theorem replaceAll_concat {old : List Char} {d c : Char} (hlast : old.getLast? = some d)
    (hne : d ≠ c) (new a : List Char) :
    replaceAll old new (a ++ [c]) = replaceAll old new a ++ [c] := by
  have hends {u : List Char} (h : old <+: u ++ [c]) : old <+: u := by
    rcases List.prefix_concat_iff.1 h with rfl | h
    · simp [Ne.symm hne] at hlast
    · exact h
  have haround : replaceAll old new (a ++ ([c] ++ [])) =
      replaceAll old new a ++ ([c] ++ replaceAll old new []) := by
    refine replaceAll_around (fun u _ _ h => hends h) fun u hu hu' h => ?_
    rcases List.suffix_cons_iff.1 hu with rfl | hnil
    · rw [List.append_nil, ← List.nil_append [c]] at h
      rw [List.prefix_nil.1 (hends h)] at hlast
      simp at hlast
    · exact hu' (List.suffix_nil.1 hnil)
  simpa [replaceAll, replaceFrom] using haround

/-! ## Stored text -/

/-- A text that can be stored and read back: one byte for each character, and no carriage
returns. -/
def Stored (t : List Char) : Prop :=
  ∀ c ∈ t, c.toNat < 256 ∧ c ≠ '\r'

instance (t : List Char) : Decidable (Stored t) :=
  List.decidableBAll _ t

namespace Stored

variable {t u : List Char}

theorem append (ht : Stored t) (hu : Stored u) : Stored (t ++ u) := by
  intro c hc
  rcases List.mem_append.1 hc with hc | hc
  · exact ht c hc
  · exact hu c hc

theorem replaceAll {old : List Char} (ht : Stored t) (hu : Stored u) :
    Stored (replaceAll old u t) := by
  intro c hc
  rcases mem_replaceAll hc with hc | hc
  · exact hu c hc
  · exact ht c hc

theorem ofLatin1_toLatin1 (ht : Stored t) : ofLatin1 (toLatin1 t) = t := by
  have hchar : ∀ c ∈ t, Char.ofNat (UInt8.ofNat c.toNat).toNat = id c := by
    intro c hc
    rw [UInt8.toNat_ofNat_of_lt' (ht c hc).1, Char.ofNat_toNat, id]
  rw [ofLatin1, toLatin1, List.map_map]
  exact (List.map_congr_left hchar).trans (List.map_id t)

theorem unifyNewlines_eq (ht : Stored t) : unifyNewlines t = t := by
  fun_induction unifyNewlines t with
  | case1 => rfl
  | case2 more ih => exact absurd rfl (ht _ List.mem_cons_self).2
  | case3 more hmore ih => exact absurd rfl (ht _ List.mem_cons_self).2
  | case4 c more hc hc' ih => rw [ih fun d hd => ht d (List.mem_cons_of_mem _ hd)]

/-- What is written is read back. -/
theorem read_write (ht : Stored t) : unifyNewlines (ofLatin1 (toLatin1 t)) = t := by
  rw [ht.ofLatin1_toLatin1, ht.unifyNewlines_eq]

end Stored

theorem mem_unifyNewlines {t : List Char} {c : Char} (h : c ∈ unifyNewlines t) :
    c ≠ '\r' ∧ (c = '\n' ∨ c ∈ t) := by
  fun_induction unifyNewlines t with
  | case1 => simp at h
  | case2 more ih =>
      rcases List.mem_cons.1 h with rfl | h
      · exact ⟨by decide, Or.inl rfl⟩
      · exact (ih h).imp_right (Or.imp_right fun h => by simp [h])
  | case3 more hmore ih =>
      rcases List.mem_cons.1 h with rfl | h
      · exact ⟨by decide, Or.inl rfl⟩
      · exact (ih h).imp_right (Or.imp_right fun h => by simp [h])
  | case4 d more hd hd' ih =>
      rcases List.mem_cons.1 h with rfl | h
      · exact ⟨fun hr => hd' (by rw [hr]), Or.inr List.mem_cons_self⟩
      · exact (ih h).imp_right (Or.imp_right fun h => by simp [h])

theorem unifyNewlines_cons {c : Char} (hc : c ≠ '\r') (t : List Char) :
    unifyNewlines (c :: t) = c :: unifyNewlines t := by
  rw [unifyNewlines]
  · exact fun _ h => absurd h hc
  · exact hc

theorem unifyNewlines_return {d : Char} (hd : d ≠ '\n') (t : List Char) :
    unifyNewlines ('\r' :: d :: t) = '\n' :: unifyNewlines (d :: t) := by
  rw [unifyNewlines]
  exact fun _ h => hd (List.cons.inj h).1

/-- A text can be read in two parts, unless the first one may end with half of a line end. -/
theorem unifyNewlines_append {x : List Char} (hx : x.getLast? ≠ some '\r') (t : List Char) :
    unifyNewlines (x ++ t) = unifyNewlines x ++ unifyNewlines t := by
  fun_induction unifyNewlines x with
  | case1 => rfl
  | case2 more ih =>
      have hmore : more.getLast? ≠ some '\r' := by
        cases more <;> simp_all
      show '\n' :: unifyNewlines (more ++ t) = _
      rw [ih hmore, List.cons_append]
  | case3 more hmore ih =>
      cases more with
      | nil => simp at hx
      | cons d more =>
          have hd : d ≠ '\n' := fun h => hmore more (by rw [h])
          exact (unifyNewlines_return hd (more ++ t)).trans
            (congrArg ('\n' :: ·) (ih (by simpa using hx)))
  | case4 c more hc hc' ih =>
      have hmore : more.getLast? ≠ some '\r' := by
        cases more <;> simp_all
      exact (unifyNewlines_cons hc' (more ++ t)).trans (congrArg (c :: ·) (ih hmore))

theorem getLast?_unifyNewlines {x : List Char} (hx : x.getLast? = some '\r') :
    (unifyNewlines x).getLast? = some '\n' := by
  have hlast {d : Char} {more : List Char} (hd : d ≠ '\r')
      (h : (d :: more).getLast? = some '\r') : more.getLast? = some '\r' := by
    cases more with
    | nil => simp [hd] at h
    | cons e more => simpa using h
  fun_induction unifyNewlines x with
  | case1 => cases hx
  | case2 more ih =>
      have hmore := hlast (d := '\n') (by decide) (by simpa using hx)
      rw [List.getLast?_cons, ih hmore]
      rfl
  | case3 more hmore ih =>
      cases more with
      | nil => rfl
      | cons d more =>
          rw [List.getLast?_cons, ih (by simpa using hx)]
          rfl
  | case4 c more hc hc' ih =>
      rw [List.getLast?_cons, ih (hlast hc' hx)]
      rfl

theorem toNat_ofNat_byte (b : UInt8) :
    (Char.ofNat b.toNat).toNat = b.toNat ∧ b.toNat < 256 := by
  have hlt : b.toNat < 256 := b.toNat_lt
  rw [Char.ofNat, dif_pos (Or.inl (by omega))]
  exact ⟨rfl, hlt⟩

/-- What is read from a file can be stored. -/
theorem stored_read (bytes : Bytes) : Stored (unifyNewlines (ofLatin1 bytes)) := by
  intro c hc
  obtain ⟨hne, rfl | hmem⟩ := mem_unifyNewlines hc
  · exact ⟨by decide, hne⟩
  · obtain ⟨b, -, rfl⟩ := List.mem_map.1 hmem
    obtain ⟨hnat, hlt⟩ := toNat_ofNat_byte b
    exact ⟨by rwa [hnat], hne⟩

/-- Bytes without a carriage return are read as they are stored. -/
theorem stored_ofLatin1 {bytes : Bytes} (h : 13 ∉ bytes) : Stored (ofLatin1 bytes) := by
  intro c hc
  obtain ⟨b, hb, rfl⟩ := List.mem_map.1 hc
  obtain ⟨hnat, hlt⟩ := toNat_ofNat_byte b
  refine ⟨by rwa [hnat], fun heq => h ?_⟩
  rw [heq] at hnat
  have hbyte : b = 13 := UInt8.toNat_inj.1 hnat.symm
  rwa [hbyte] at hb

theorem toLatin1_inj {t u : List Char} (ht : Stored t) (hu : Stored u) :
    toLatin1 t = toLatin1 u ↔ t = u := by
  constructor
  · intro h
    rw [← ht.ofLatin1_toLatin1, h, hu.ofLatin1_toLatin1]
  · rintro rfl
    rfl

end NaslLint.Text
