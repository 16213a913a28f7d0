import Mathlib.Algebra.BigOperators.Group.Finset.Basic
import Mathlib.Algebra.BigOperators.Group.List.Basic
import Mathlib.Algebra.Order.Ring.Int
import Mathlib.Tactic.Common

/-!
# `VizNode.Lib.Forest` — weights carried up a forest

A partial function `up` sends every node to the one above it. When following it never returns, the nodes form
a forest, and a node that carries a weight counts at each of its ancestors, at the distance the ancestor has.

The question is what a change at one node does to the counts. A changed weight is simple: it moves up the
chain of the node. A changed `up` moves the whole tree below the node, and **the counts at the node itself say
what that tree weighs at each distance**: they are taken off the old chain and put on the new one, shifted by
the distance from the node.

## Contents
- **Climbing.** `climb`, `Acyclic`, and what a change of `up` at one node does to them.
- **Weights.** `weight`, the count at an ancestor; `lifted`, what an array of counts adds up the chain of a
  node; `weight_redirect`, the exchange of one chain for another.
-/

namespace Forest

variable {κ : Type} {up up' : κ → Option κ} {a b c : κ}

/-! ## Climbing -/

/-- The ancestor so many steps up. -/
def climb (up : κ → Option κ) : Nat → κ → Option κ
  | 0,     a => some a
  | k + 1, a => (up a).bind (climb up k)

@[simp] theorem climb_zero : climb up 0 a = some a := rfl

theorem climb_succ {k : Nat} : climb up (k + 1) a = (up a).bind (climb up k) := rfl

theorem climb_add {m n : Nat} : climb up (m + n) a = (climb up m a).bind (climb up n) := by
  induction m generalizing a with
  | zero => rw [Nat.zero_add, climb_zero, Option.bind_some]
  | succ m ih =>
      rw [Nat.succ_add, climb_succ, climb_succ, Option.bind_assoc]
      congr 1
      funext x
      exact ih

/-- One more step behind a climb. -/
theorem climb_of_climb {m n : Nat} (h : climb up m a = some b) : climb up (m + n) a = climb up n b := by
  rw [climb_add, h, Option.bind_some]

/-- **No way up returns to where it started.** -/
def Acyclic (up : κ → Option κ) : Prop := ∀ a k, climb up (k + 1) a ≠ some a

/-- An ancestor has one distance. -/
theorem Acyclic.unique (h : Acyclic up) {m n : Nat} (hm : climb up m a = some c)
    (hn : climb up n a = some c) : m = n := by
  rcases lt_trichotomy m n with hlt | heq | hgt
  · obtain ⟨k, rfl⟩ := Nat.exists_eq_add_of_lt hlt
    rw [Nat.add_assoc, climb_of_climb hm] at hn
    exact absurd hn (h c k)
  · exact heq
  · obtain ⟨k, rfl⟩ := Nat.exists_eq_add_of_lt hgt
    rw [Nat.add_assoc, climb_of_climb hn] at hm
    exact absurd hm (h c k)

/-- A change at a node that a climb does not leave from. -/
theorem climb_congr (hup : ∀ c, c ≠ a → up' c = up c) {k : Nat}
    (h : ∀ j < k, climb up j c ≠ some a) : climb up' k c = climb up k c := by
  induction k generalizing c with
  | zero => rfl
  | succ k ih =>
      have hc : c ≠ a := by
        rintro rfl
        exact h 0 (Nat.succ_pos k) rfl
      rw [climb_succ, climb_succ, hup c hc]
      cases hu : up c with
      | none   => rfl
      | some x =>
          apply ih
          intro j hj hx
          apply h (j + 1) (Nat.succ_lt_succ hj)
          rw [climb_succ, hu]
          exact hx

/-- A climb that comes by the changed node. -/
theorem climb_through (h : Acyclic up) (hup : ∀ c, c ≠ a → up' c = up c) {j : Nat}
    (hj : climb up j c = some a) : climb up' j c = some a := by
  rw [climb_congr hup, hj]
  intro i hi hia
  exact absurd (h.unique hia hj) (Nat.ne_of_lt hi)

/-- **A new way up** that does not come back is no loop. -/
theorem Acyclic.redirect (h : Acyclic up) (hup : ∀ c, c ≠ a → up' c = up c)
    (hfree : ∀ q, up' a = some q → ∀ k, climb up k q ≠ some a) : Acyclic up' := by
  -- first that the changed node itself is on no loop
  have ha : ∀ k, climb up' (k + 1) a ≠ some a := by
    intro k hk
    rw [climb_succ] at hk
    cases hq : up' a with
    | none   => simp [hq] at hk
    | some q =>
        rw [hq, Option.bind_some, climb_congr hup (fun j _ => hfree q hq j)] at hk
        exact hfree q hq k hk
  intro c k hk
  by_cases hit : ∃ j, j < k + 1 ∧ climb up j c = some a
  · -- a loop through the changed node is a loop at it
    obtain ⟨j, hj, hja⟩ := hit
    have hja' := climb_through h hup hja
    obtain ⟨i, hi⟩ : ∃ i, k + 1 = j + (i + 1) := ⟨k - j, by omega⟩
    rw [hi, climb_of_climb hja'] at hk
    have : climb up' (i + 1 + j) a = some a := by rw [climb_of_climb hk, hja']
    rw [show i + 1 + j = i + j + 1 by omega] at this
    exact ha (i + j) this
  · rw [climb_congr hup (fun j hj hja => hit ⟨j, hj, hja⟩)] at hk
    exact h c k hk

/-! ## Weights -/

section Weights

variable [DecidableEq κ] {v w : κ → Int} {keys : List κ} {δ ε : Nat → Int}

/-- **The count at a node**: what the nodes at so many steps below it weigh. -/
def weight (up : κ → Option κ) (v : κ → Int) (keys : List κ) (k : Nat) (b : κ) : Int :=
  (keys.map (fun c => if climb up k c = some b then v c else 0)).sum

/-- What an array of counts at a node adds at an ancestor, `d + 1` steps up at most. -/
def lifted (up : κ → Option κ) (δ : Nat → Int) (a b : κ) (d : Nat) : Int :=
  ∑ j ∈ Finset.range (d + 1), if climb up (d + 1 - j) a = some b then δ j else 0

theorem weight_cons {k : Nat} : weight up v (c :: keys) k b =
    (if climb up k c = some b then v c else 0) + weight up v keys k b := by
  unfold weight
  rw [List.map_cons, List.sum_cons]

theorem lifted_add {d : Nat} :
    lifted up (fun j => δ j + ε j) a b d = lifted up δ a b d + lifted up ε a b d := by
  unfold lifted
  rw [← Finset.sum_add_distrib]
  apply Finset.sum_congr rfl
  intro j _
  by_cases h : climb up (d + 1 - j) a = some b
  · rw [if_pos h, if_pos h, if_pos h]
  · rw [if_neg h, if_neg h, if_neg h, add_zero]

theorem lifted_neg {d : Nat} : lifted up (fun j => -δ j) a b d = -lifted up δ a b d := by
  unfold lifted
  rw [← Finset.sum_neg_distrib]
  apply Finset.sum_congr rfl
  intro j _
  by_cases h : climb up (d + 1 - j) a = some b
  · rw [if_pos h, if_pos h]
  · rw [if_neg h, if_neg h, neg_zero]

theorem lifted_congr {d : Nat} (h : ∀ j ≤ d, δ j = ε j) : lifted up δ a b d = lifted up ε a b d := by
  unfold lifted
  apply Finset.sum_congr rfl
  intro j hj
  rw [h j (Nat.lt_succ_iff.mp (Finset.mem_range.mp hj))]

/-- An array with one entry. -/
theorem lifted_single {i d : Nat} {x : Int} (hi : i ≤ d) (h : ∀ j, j ≤ d → j ≠ i → δ j = 0) (hx : δ i = x) :
    lifted up δ a b d = if climb up (d + 1 - i) a = some b then x else 0 := by
  unfold lifted
  rw [Finset.sum_eq_single_of_mem i (Finset.mem_range.mpr (Nat.lt_succ_of_le hi)), hx]
  intro j hj hji
  rw [h j (Nat.lt_succ_iff.mp (Finset.mem_range.mp hj)) hji]
  exact ite_self 0

/-- An empty array. -/
theorem lifted_zero {d : Nat} (h : ∀ j ≤ d, δ j = 0) : lifted up δ a b d = 0 := by
  rw [lifted_single (Nat.zero_le d) (fun j hj _ => h j hj) (h 0 (Nat.zero_le d))]
  exact ite_self 0

/-- Nothing above the node. -/
theorem lifted_root {d : Nat} (h : up a = none) : lifted up δ a b d = 0 := by
  unfold lifted
  apply Finset.sum_eq_zero
  intro j hj
  have hj := Finset.mem_range.mp hj
  rw [show d + 1 - j = d - j + 1 by omega, climb_succ, h]
  exact if_neg (by simp)

/-- One more node, at the end. -/
theorem weight_append {k : Nat} : weight up v (keys ++ [c]) k b =
    weight up v keys k b + if climb up k c = some b then v c else 0 := by
  unfold weight
  rw [List.map_append, List.sum_append, List.map_singleton, List.sum_singleton]

/-- A node with nothing below it at a distance. -/
theorem weight_eq_zero {k : Nat} (h : ∀ c ∈ keys, climb up k c ≠ some b) : weight up v keys k b = 0 := by
  apply List.sum_eq_zero
  intro x hx
  obtain ⟨c, hc, rfl⟩ := List.mem_map.mp hx
  exact if_neg (h c hc)

/-- A node counts for itself at no distance. -/
theorem weight_zero (hkeys : keys.Nodup) (ha : a ∈ keys) : weight up v keys 0 a = v a := by
  induction keys with
  | nil => exact absurd ha (by simp)
  | cons c keys ih =>
      obtain ⟨hc, hkeys⟩ := List.nodup_cons.mp hkeys
      rw [weight_cons, climb_zero]
      by_cases hca : c = a
      · rw [hca, if_pos rfl]
        have hrest : weight up v keys 0 a = 0 := by
          apply weight_eq_zero
          intro c' hc' he
          rw [climb_zero] at he
          exact hc (hca ▸ Option.some.inj he ▸ hc')
        rw [hrest, add_zero]
      · rw [if_neg (fun he => hca (Option.some.inj he)), zero_add]
        exact ih hkeys ((List.mem_cons.mp ha).resolve_left (Ne.symm hca))

/-- **A changed weight** counts at the ancestors of its node. -/
theorem weight_update (hkeys : keys.Nodup) (ha : a ∈ keys) {k : Nat} {x : Int} (hv : w a = v a + x)
    (hne : ∀ c, c ≠ a → w c = v c) :
    weight up w keys k b = weight up v keys k b + if climb up k a = some b then x else 0 := by
  induction keys with
  | nil => exact absurd ha (by simp)
  | cons c keys ih =>
      obtain ⟨hc, hkeys⟩ := List.nodup_cons.mp hkeys
      rw [weight_cons, weight_cons]
      rcases List.mem_cons.mp ha with rfl | ha'
      · have hrest : weight up w keys k b = weight up v keys k b := by
          unfold weight
          apply congrArg List.sum
          apply List.map_congr_left
          intro c' hc'
          rw [hne c' (fun he => hc (he ▸ hc'))]
        rw [hrest, hv]
        by_cases h : climb up k a = some b
        · rw [if_pos h, if_pos h, if_pos h]
          omega
        · rw [if_neg h, if_neg h, if_neg h, add_zero]
      · rw [ih hkeys ha', hne c (fun he => hc (he ▸ ha'))]
        omega

/-- The tree below one node, when the chain of the changed node is exchanged. -/
theorem climb_redirect (h : Acyclic up) (hup : ∀ c, c ≠ a → up' c = up c) {d : Nat} {x : Int} :
    (if climb up' (d + 1) c = some b then x else 0) =
      (if climb up (d + 1) c = some b then x else 0)
        - lifted up (fun j => if climb up j c = some a then x else 0) a b d
        + lifted up' (fun j => if climb up j c = some a then x else 0) a b d := by
  by_cases hit : ∃ j, j ≤ d ∧ climb up j c = some a
  · -- the node is below the changed one, at one distance
    obtain ⟨i, hi, hia⟩ := hit
    have hzero : ∀ j, j ≤ d → j ≠ i → (if climb up j c = some a then x else 0) = 0 := by
      intro j _ hji
      exact if_neg (fun hja => hji (h.unique hja hia))
    have hself : (if climb up i c = some a then x else 0) = x := if_pos hia
    rw [lifted_single hi hzero hself, lifted_single hi hzero hself]
    obtain ⟨e, rfl⟩ := Nat.exists_eq_add_of_le hi
    rw [show i + e + 1 - i = e + 1 by omega, show i + e + 1 = i + (e + 1) by omega,
      climb_of_climb hia, climb_of_climb (climb_through h hup hia), sub_self, zero_add]
  · have hzero : ∀ j ≤ d, (if climb up j c = some a then x else 0) = 0 := by
      intro j hj
      exact if_neg (fun hja => hit ⟨j, hj, hja⟩)
    rw [lifted_zero hzero, lifted_zero hzero,
      climb_congr hup (fun j hj hja => hit ⟨j, Nat.lt_succ_iff.mp hj, hja⟩), sub_zero, add_zero]

/-- **A changed way up**: the counts at the node are taken off its old chain and put on its new one. -/
theorem weight_redirect (h : Acyclic up) (hup : ∀ c, c ≠ a → up' c = up c) {d : Nat} :
    weight up' v keys (d + 1) b = weight up v keys (d + 1) b
      - lifted up (fun j => weight up v keys j a) a b d + lifted up' (fun j => weight up v keys j a) a b d := by
  induction keys with
  | nil =>
      have hzero : ∀ u, lifted u (fun j => weight up v [] j a) a b d = 0 :=
        fun u => lifted_zero (fun _ _ => rfl)
      rw [hzero, hzero]
      rfl
  | cons c keys ih =>
      rw [weight_cons, weight_cons, ih, climb_redirect h hup]
      simp only [weight_cons]
      rw [lifted_add, lifted_add]
      omega

/-- The counts at the same nodes do not move when no node changes. -/
theorem weight_congr {k : Nat} (hup : ∀ c ∈ keys, climb up' k c = climb up k c) (hv : ∀ c ∈ keys, w c = v c) :
    weight up' w keys k b = weight up v keys k b := by
  unfold weight
  apply congrArg List.sum
  apply List.map_congr_left
  intro c hc
  rw [hup c hc, hv c hc]

end Weights

end Forest
