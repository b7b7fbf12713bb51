/-!
# Sorted tables of character ranges

A character property is kept as a list of closed code point ranges in ascending
order. Looking a code point up stops at the first range that begins beyond it.
-/

namespace NaslLint.Text

/-- Whether a code point lies in one of the ranges of an ascending table. -/
def inRanges : List (Nat × Nat) → Nat → Bool
  | [], _ => false
  | (lo, hi) :: more, n =>
    if n < lo then false else if n ≤ hi then true else inRanges more n

def Ascending (ranges : List (Nat × Nat)) : Prop :=
  (∀ r ∈ ranges, r.1 ≤ r.2) ∧ ranges.Pairwise fun a b => a.2 < b.1

instance (ranges : List (Nat × Nat)) : Decidable (Ascending ranges) := by
  unfold Ascending; infer_instance

/-- **Stopping early loses nothing.** In an ascending table the lookup finds a code point exactly
when some range holds it. -/
theorem inRanges_iff {ranges : List (Nat × Nat)} (h : Ascending ranges) (n : Nat) :
    inRanges ranges n = true ↔ ∃ r ∈ ranges, r.1 ≤ n ∧ n ≤ r.2 := by
  induction ranges with
  | nil => simp [inRanges]
  | cons r more ih =>
    obtain ⟨lo, hi⟩ := r
    have hmore : Ascending more :=
      ⟨fun r hr => h.1 r (List.mem_cons_of_mem _ hr), (List.pairwise_cons.1 h.2).2⟩
    have hlohi : lo ≤ hi := h.1 _ List.mem_cons_self
    have hnext : ∀ r ∈ more, hi < r.1 := (List.pairwise_cons.1 h.2).1
    simp only [inRanges]
    split
    · rename_i hlt
      constructor
      · simp
      · rintro ⟨r, hr, h1, h2⟩
        rcases List.mem_cons.1 hr with rfl | hr
        · simp only at h1; omega
        · have := hnext r hr; omega
    · split
      · simp only [true_iff]
        exact ⟨(lo, hi), List.mem_cons_self, by simp only; omega, by simp only; omega⟩
      · rw [ih hmore]
        constructor
        · rintro ⟨r, hr, hb⟩
          exact ⟨r, List.mem_cons_of_mem _ hr, hb⟩
        · rintro ⟨r, hr, hb⟩
          rcases List.mem_cons.1 hr with rfl | hr
          · simp only at hb; omega
          · exact ⟨r, hr, hb⟩

end NaslLint.Text
