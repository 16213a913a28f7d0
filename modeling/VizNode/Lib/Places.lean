import Mathlib.Data.List.Sort
import Mathlib.Data.List.Nodup
import Mathlib.Data.List.TakeWhile
import Mathlib.Tactic.Common

/-!
# `VizNode.Lib.Places` — places in a list that is sorted by a number

A stable sort leaves things with the same number in their old order. The number and the old position of a thing make
its place, a number that no other thing has, and the sorted list is in the order of the places.

**Going through such a list** means going from place to place. What changes its own place does not change the others,
so whoever stands behind keeps its place until it is reached.

## Contents
- **Places.** `place`, and what it says of the number.
- **Order.** `sorted_places`.
- **Going on.** `head_place`, `next_place`.
-/

namespace Places

variable {κ : Type} [DecidableEq κ] {ks l : List κ} {f g : κ → Nat} {x y a : κ}

/-! ## Places -/

/-- The place of a thing among those that are sorted by `f`. -/
def place (ks : List κ) (f : κ → Nat) (k : κ) : Nat := f k * ks.length + ks.idxOf k

theorem place_lt_of_lt (hx : x ∈ ks) (h : f x < f y) : place ks f x < place ks f y := by
  have hidx := List.idxOf_lt_length_of_mem hx
  have hmul : (f x + 1) * ks.length ≤ f y * ks.length := Nat.mul_le_mul_right _ h
  rw [Nat.add_mul, Nat.one_mul] at hmul
  unfold place
  omega

theorem place_lt_of_idxOf_lt (h : f x = f y) (hidx : ks.idxOf x < ks.idxOf y) : place ks f x < place ks f y := by
  unfold place
  rw [h]
  omega

/-- An earlier place has no greater number. -/
theorem le_of_place_le (hy : y ∈ ks) (h : place ks f x ≤ place ks f y) : f x ≤ f y := by
  by_contra hlt
  have := place_lt_of_lt (f := f) hy (Nat.lt_of_not_le hlt)
  omega

/-- No two things have one place. -/
theorem eq_of_place_eq (hx : x ∈ ks) (hy : y ∈ ks) (h : place ks f x = place ks f y) : x = y := by
  have hf : f x = f y := Nat.le_antisymm (le_of_place_le hy h.le) (le_of_place_le hx h.ge)
  unfold place at h
  rw [hf] at h
  exact List.idxOf_inj hx |>.mp (Nat.add_left_cancel h)

/-- The places up to a number are so many. -/
theorem place_lt (hx : x ∈ ks) {n : Nat} (h : f x ≤ n) : place ks f x < (n + 1) * ks.length := by
  have hidx := List.idxOf_lt_length_of_mem hx
  have hmul := Nat.mul_le_mul_right ks.length h
  rw [Nat.add_mul, Nat.one_mul]
  unfold place
  omega

/-! ## Order -/

omit [DecidableEq κ] in
/-- Sorting is stable: `i` counts the positions. -/
theorem pairwise_stable {i : κ → Nat} (h : ks.Pairwise (fun x y => i x < i y)) :
    (ks.insertionSort (fun x y => f x ≤ f y)).Pairwise (fun x y => f x < f y ∨ f x = f y ∧ i x < i y) := by
  induction ks with
  | nil => exact .nil
  | cons k ks ih =>
      obtain ⟨hk, hks⟩ := List.pairwise_cons.mp h
      have hsorted := ih hks
      have hmem : ∀ x ∈ ks.insertionSort (fun x y => f x ≤ f y), x ∈ ks := fun x hx => (List.mem_insertionSort _).mp hx
      rw [List.insertionSort_cons_eq_take_drop]
      generalize ks.insertionSort (fun x y => f x ≤ f y) = m at hsorted hmem
      rw [← List.takeWhile_append_dropWhile (p := fun b => decide ¬ f k ≤ f b) (l := m), List.pairwise_append] at hsorted
      obtain ⟨hfront, hback, hacross⟩ := hsorted
      refine List.pairwise_append.mpr ⟨hfront, List.pairwise_cons.mpr ⟨fun c hc => ?_, hback⟩, fun b hb c hc => ?_⟩
      · -- behind it nothing has a smaller number
        have hle : f k ≤ f c := by
          cases hd : m.dropWhile (fun b => decide ¬ f k ≤ f b) with
          | nil =>
              rw [hd] at hc
              exact absurd hc List.not_mem_nil
          | cons b rest =>
              have hne : m.dropWhile (fun b => decide ¬ f k ≤ f b) ≠ [] := hd ▸ List.cons_ne_nil _ _
              have hhead : (m.dropWhile (fun b => decide ¬ f k ≤ f b)).head hne = b := by simp only [hd, List.head_cons]
              have hb : f k ≤ f b := by
                have hnot := List.head_dropWhile_not (fun b => decide ¬ f k ≤ f b) hne
                rw [hhead] at hnot
                exact Decidable.not_not.mp (of_decide_eq_false hnot)
              rw [hd] at hc hback
              rcases List.mem_cons.mp hc with rfl | hc
              · exact hb
              · have := (List.pairwise_cons.mp hback).1 c hc
                omega
        have hi := hk c (hmem c ((List.dropWhile_sublist _).subset hc))
        omega
      · rcases List.mem_cons.mp hc with rfl | hc
        · have hlt : ¬ f c ≤ f b := of_decide_eq_true (List.mem_takeWhile_imp (p := fun b => decide ¬ f c ≤ f b) hb)
          exact .inl (Nat.lt_of_not_le hlt)
        · exact hacross b hb c hc

/-- **The sorted list is in the order of the places.** -/
theorem sorted_places (h : ks.Nodup) :
    (ks.insertionSort (fun x y => f x ≤ f y)).Pairwise (fun x y => place ks f x < place ks f y) := by
  have hidx : ks.Pairwise (fun x y => ks.idxOf x < ks.idxOf y) := by
    rw [List.pairwise_iff_getElem]
    intro i j hi hj hij
    rw [h.idxOf_getElem, h.idxOf_getElem]
    exact hij
  have hstable := pairwise_stable (f := f) hidx
  refine hstable.imp_of_mem fun {x y} hx _ hxy => ?_
  rcases hxy with hlt | ⟨heq, hlt⟩
  · exact place_lt_of_lt ((List.mem_insertionSort _).mp hx) hlt
  · exact place_lt_of_idxOf_lt heq hlt

/-! ## Going on -/

omit [DecidableEq κ] in
/-- The list begins at the first place. -/
theorem head_place (hl : l.Pairwise (fun x y => g x < g y)) (ha : a ∈ l) : ∃ b ∈ l, l.head? = some b ∧ g b ≤ g a := by
  cases l with
  | nil => exact absurd ha List.not_mem_nil
  | cons b l =>
      refine ⟨b, List.mem_cons_self, rfl, ?_⟩
      rcases List.mem_cons.mp ha with rfl | ha
      · exact le_rfl
      · exact ((List.pairwise_cons.mp hl).1 a ha).le

/-- **What comes next** has a later place, and no later one than what stands behind anyway. -/
theorem next_place (hl : l.Pairwise (fun x y => g x < g y)) (hx : x ∈ l) (ha : a ∈ l) (h : g x < g a) :
    ∃ b ∈ l, ((l.dropWhile (fun k => decide (k ≠ x))).tail).head? = some b ∧ g x < g b ∧ g b ≤ g a := by
  induction l with
  | nil => exact absurd hx List.not_mem_nil
  | cons y l ih =>
      obtain ⟨hy, hrest⟩ := List.pairwise_cons.mp hl
      by_cases hyx : y = x
      · subst hyx
        have ha' : a ∈ l := List.mem_of_ne_of_mem (fun he => absurd h (he ▸ lt_irrefl _)) ha
        obtain ⟨b, hb, hhead, hle⟩ := head_place hrest ha'
        rw [List.dropWhile_cons_of_neg (by simp)]
        exact ⟨b, List.mem_cons_of_mem _ hb, hhead, hy b hb, hle⟩
      · have hx' : x ∈ l := List.mem_of_ne_of_mem (fun he => hyx he.symm) hx
        have ha' : a ∈ l := by
          refine List.mem_of_ne_of_mem (fun he => ?_) ha
          have := hy x hx'
          rw [he] at h
          omega
        obtain ⟨b, hb, hhead, hlt, hle⟩ := ih hrest hx' ha'
        rw [List.dropWhile_cons_of_pos (by simp [hyx])]
        exact ⟨b, List.mem_cons_of_mem _ hb, hhead, hlt, hle⟩

end Places
