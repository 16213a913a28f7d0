import Mathlib.Data.List.Sort
import Mathlib.Order.Basic

/-!
# `VizNode.Lib.Medians` — the middle of a list

The median of a list is the element in the middle of the sorted list, or the one behind the middle. **It is at most `y`
exactly when more than half of the list is** (`median_le_iff`), and everything else follows by counting: the median is
where a majority is, and it is monotone.

## Contents
- **Sorted lists.** `getElem_le_iff`.
- **The median.** `median`, `median_le_iff`, `median_mem`.
- **Bounds.** `median_within` and `median_mono`.
-/

namespace Medians

variable {α β : Type} [LinearOrder α] {d : α} {xs : List α}

/-! ## Sorted lists -/

/-- In a sorted list the elements up to `y` come first. -/
theorem getElem_le_iff {xs : List α} (hs : xs.Pairwise (· ≤ ·)) {k : Nat} (hk : k < xs.length) (y : α) :
    xs[k] ≤ y ↔ k < xs.countP (fun x => decide (x ≤ y)) := by
  induction xs generalizing k with
  | nil => exact absurd hk (Nat.not_lt_zero k)
  | cons a xs ih =>
      obtain ⟨hfirst, hrest⟩ := List.pairwise_cons.mp hs
      rw [List.countP_cons]
      by_cases ha : a ≤ y
      · rw [if_pos (decide_eq_true ha)]
        cases k with
        | zero => exact ⟨fun _ => Nat.succ_pos _, fun _ => ha⟩
        | succ k =>
            rw [List.getElem_cons_succ, ih hrest (Nat.lt_of_succ_lt_succ hk)]
            exact Nat.succ_lt_succ_iff.symm
      · -- then nothing behind `a` is up to `y` either
        have hnone : xs.countP (fun x => decide (x ≤ y)) = 0 := by
          rw [List.countP_eq_zero]
          intro x hx hle
          exact ha ((hfirst x hx).trans (of_decide_eq_true hle))
        rw [hnone, if_neg (by rw [decide_eq_true_eq]; exact ha)]
        refine ⟨fun hle => absurd (le_trans ?_ hle) ha, fun hlt => absurd hlt (Nat.not_lt_zero _)⟩
        cases k with
        | zero => exact le_rfl
        | succ k => exact hfirst _ (List.getElem_mem _)

/-! ## The median -/

/-- The element in the middle, or the one behind the middle; `d` if there is none. -/
def median (d : α) (xs : List α) : α := (xs.insertionSort (· ≤ ·)).getD (xs.length / 2) d

theorem median_eq_getElem (h : xs ≠ []) :
    ∃ hk : xs.length / 2 < (xs.insertionSort (· ≤ ·)).length,
      median d xs = (xs.insertionSort (· ≤ ·)).get ⟨xs.length / 2, hk⟩ := by
  have hpos := List.length_pos_iff.mpr h
  have hk : xs.length / 2 < (xs.insertionSort (· ≤ ·)).length := by
    rw [List.length_insertionSort]
    omega
  refine ⟨hk, ?_⟩
  unfold median
  rw [List.getD_eq_getElem?_getD, List.getElem?_eq_getElem hk]
  rfl

theorem median_mem (h : xs ≠ []) : median d xs ∈ xs := by
  obtain ⟨hk, he⟩ := median_eq_getElem (d := d) h
  rw [he]
  exact (List.mem_insertionSort _).mp (List.get_mem _ _)

/-- **The median is at most `y` exactly when more than half of the list is.** -/
theorem median_le_iff (h : xs ≠ []) (y : α) :
    median d xs ≤ y ↔ xs.length < 2 * xs.countP (fun x => decide (x ≤ y)) := by
  obtain ⟨hk, he⟩ := median_eq_getElem (d := d) h
  have hsorted : (xs.insertionSort (· ≤ ·)).Pairwise (· ≤ ·) := List.pairwise_insertionSort _ _
  rw [he, List.get_eq_getElem, getElem_le_iff hsorted, (List.perm_insertionSort _ xs).countP_eq]
  show xs.length / 2 < _ ↔ _
  omega

/-! ## Bounds -/

/-- **The median is where a majority is.** -/
theorem median_within {lo hi : α}
    (h : xs.length < 2 * xs.countP (fun x => decide (lo ≤ x ∧ x ≤ hi))) : lo ≤ median d xs ∧ median d xs ≤ hi := by
  have hne : xs ≠ [] := by
    rintro rfl
    exact absurd h (Nat.not_lt_zero _)
  constructor
  · by_contra hlt
    -- what is up to the median is below `lo`, and so outside
    have hhalf := (median_le_iff (d := d) hne _).mp le_rfl
    have hsplit := xs.length_eq_countP_add_countP (fun x => decide (lo ≤ x ∧ x ≤ hi))
    have hout : xs.countP (fun x => decide (x ≤ median d xs)) ≤
        xs.countP (fun x => decide (¬ decide (lo ≤ x ∧ x ≤ hi) = true)) := by
      refine List.countP_mono_left fun x _ hx => decide_eq_true fun hin => hlt ?_
      exact (of_decide_eq_true hin).1.trans (of_decide_eq_true hx)
    omega
  · rw [median_le_iff hne]
    refine h.trans_le (Nat.mul_le_mul_left 2 (List.countP_mono_left fun x _ hx => decide_eq_true ?_))
    exact (of_decide_eq_true hx).2

/-- **Greater values have a greater median.** -/
theorem median_mono {l : List β} {f g : β → α} (hne : l ≠ []) (h : ∀ x ∈ l, f x ≤ g x) :
    median d (l.map f) ≤ median d (l.map g) := by
  have hf : l.map f ≠ [] := fun he => hne (List.map_eq_nil_iff.mp he)
  have hg : l.map g ≠ [] := fun he => hne (List.map_eq_nil_iff.mp he)
  rw [median_le_iff hf]
  have hhalf := (median_le_iff (d := d) hg _).mp le_rfl
  rw [List.length_map] at hhalf ⊢
  refine hhalf.trans_le (Nat.mul_le_mul_left 2 ?_)
  rw [List.countP_map, List.countP_map]
  refine List.countP_mono_left fun x hx hle => decide_eq_true ?_
  exact (h x hx).trans (of_decide_eq_true hle)

end Medians
