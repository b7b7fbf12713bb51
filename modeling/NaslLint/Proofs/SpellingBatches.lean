import Mathlib.Algebra.Order.Floor.Div
import Mathlib.GroupTheory.GroupAction.Ring
import NaslLint.Proofs.SpellingLines

/-!
# The calls of the spell checker share out the files

Files are handed to the spell checker in batches. No file is lost at the end of a batch and none is
handed over twice, however many files there are.

* `Checks.Spelling.cut_of_ne_nil` says what the first piece of a list is and where the next begins;
* `Checks.Spelling.cut_eq_slices` gives every piece as a slice of the list.
-/

namespace NaslLint.Checks.Spelling

section
variable {α : Type} {n : Nat} {l : List α}

/-- A piece with room for more takes what it can. The next one has all its room. -/
theorem cut_of_ne_nil (n room : Nat) (hl : l ≠ []) :
    cut n room l = l.take (room + 1) :: cut n n (l.drop (room + 1)) := by
  induction room generalizing l with
  | zero =>
      obtain ⟨a, more, rfl⟩ := List.exists_cons_of_ne_nil hl
      rfl
  | succ room ih =>
      obtain ⟨a, more, rfl⟩ := List.exists_cons_of_ne_nil hl
      cases more with
      | nil => rfl
      | cons b more =>
          simp only [cut, ih (List.cons_ne_nil b more)]
          rfl

/-- What holds of the empty list, and of a list if it holds of what the first piece leaves of it, holds
of every list. -/
theorem drop_induction {motive : List α → Prop} (n : Nat) (nil : motive [])
    (step : ∀ l, l ≠ [] → motive (l.drop (n + 1)) → motive l) (l : List α) : motive l := by
  induction hlength : l.length using Nat.strong_induction_on generalizing l with
  | _ length ih =>
      by_cases hl : l = []
      · rw [hl]
        exact nil
      · have hpos : 0 < l.length := List.length_pos_iff.2 hl
        exact step l hl (ih _ (by rw [List.length_drop]; omega) _ rfl)

theorem ceilDiv_of_pos {length : Nat} (hlength : 0 < length) :
    length ⌈/⌉ (n + 1) = (length - (n + 1)) ⌈/⌉ (n + 1) + 1 := by
  rw [Nat.ceilDiv_eq_add_pred_div, Nat.ceilDiv_eq_add_pred_div]
  by_cases hfull : n + 1 ≤ length
  · have hsum : length + (n + 1) - 1 = length - (n + 1) + (n + 1) - 1 + (n + 1) := by omega
    rw [hsum, Nat.add_div_right _ n.succ_pos]
  · have hsum : length + (n + 1) - 1 = length - 1 + (n + 1) := by omega
    rw [hsum, Nat.add_div_right _ n.succ_pos, Nat.div_eq_of_lt (by omega),
      Nat.div_eq_of_lt (by omega)]

/-- **Pieces are slices.** They start at the multiples of their length, and there are as many as it
takes to reach the end of the list. -/
theorem cut_eq_slices (n : Nat) (l : List α) :
    cut n n l =
      (List.range (l.length ⌈/⌉ (n + 1))).map fun i => (l.drop (i * (n + 1))).take (n + 1) := by
  induction l using drop_induction n with
  | nil => simp [cut]
  | step l hl ih =>
      rw [cut_of_ne_nil n n hl, ih, List.length_drop, ceilDiv_of_pos (List.length_pos_iff.2 hl),
        List.range_succ_eq_map, List.map_cons, List.map_map, Nat.zero_mul, List.drop_zero]
      congr 1
      refine List.map_congr_left fun i _ => ?_
      simp only [Function.comp_apply, List.drop_drop, Nat.succ_mul, Nat.add_comm]

theorem flatten_cut (n : Nat) (l : List α) : (cut n n l).flatten = l := by
  induction l using drop_induction n with
  | nil => simp [cut]
  | step l hl ih => rw [cut_of_ne_nil n n hl, List.flatten_cons, ih, List.take_append_drop]

theorem length_of_mem_cut {piece : List α} (h : piece ∈ cut n n l) :
    1 ≤ piece.length ∧ piece.length ≤ n + 1 := by
  induction l using drop_induction n with
  | nil => simp [cut] at h
  | step l hl ih =>
      rw [cut_of_ne_nil n n hl] at h
      rcases List.mem_cons.1 h with rfl | h
      · have hpos : 0 < l.length := List.length_pos_iff.2 hl
        rw [List.length_take]
        omega
      · exact ih h

end

/-- **The calls share out the files.** The findings are what the reports of the calls give, call by
call. All calls have the same options, and the files follow them: at least one and at most ten
thousand in each call, beginning where the call before it ended. Put together they are all files in
their order, and there are no more calls than that takes. -/
theorem calls_share_out_files (feed : Feed) (w : Surroundings) :
    spelling.run feed w =
        .done ((calls w feed.files).flatMap fun call => reportFindings (w.spell call)) ∧
      ∃ groups : List (List Path),
        calls w feed.files = groups.map (fun group => options w ++ group.map Path.toString) ∧
        groups.flatten = feed.files ∧
        (∀ group ∈ groups, 1 ≤ group.length ∧ group.length ≤ 10000) ∧
        groups.length = feed.files.length ⌈/⌉ 10000 ∧
        ∀ i (hi : i < groups.length), groups[i] = (feed.files.drop (i * 10000)).take 10000 := by
  have hslices : batches feed.files = (List.range (feed.files.length ⌈/⌉ 10000)).map fun i =>
      (feed.files.drop (i * 10000)).take 10000 := cut_eq_slices 9999 feed.files
  refine ⟨rfl, batches feed.files, rfl, flatten_cut 9999 feed.files,
    fun group hgroup => length_of_mem_cut (n := 9999) hgroup, ?_, fun i hi => ?_⟩
  · rw [hslices, List.length_map, List.length_range]
  · simp only [hslices, List.getElem_map, List.getElem_range]

end NaslLint.Checks.Spelling
