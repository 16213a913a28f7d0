import Mathlib.Data.List.Basic
import Mathlib.Tactic.Common

/-!
# `VizNode.Lib.Merkle` — pairing up a list until one element is left

The elements of a list are paired up from the left, an odd last one is carried up, and this is repeated until one is
left. **The result is the digest of a tree**: the same pairing of trees builds it, and its leaves are the list. So where
digests of trees are injective, the result determines the list, whatever its length.

## Contents
- **Pairing.** `pairUp`, `root`, and what a homomorphism does to them.
- **Trees.** `Tree`, its `leaves` and its `digest`, `leaves_root`.
- **Injectivity.** `Collisionless`, `root_injective`.
-/

namespace Merkle

variable {α β δ : Type}

/-! ## Pairing -/

/-- One level: pairs from the left, an odd last element is carried up unchanged. -/
def pairUp (f : α → α → α) : List α → List α
  | []             => []
  | [x]            => [x]
  | x :: y :: rest => f x y :: pairUp f rest

theorem pairUp_length (f : α → α → α) (l : List α) : (pairUp f l).length = (l.length + 1) / 2 := by
  induction l using pairUp.induct with
  | case1 => simp [pairUp]
  | case2 x => simp [pairUp]
  | case3 x y rest ih =>
      simp only [pairUp, List.length_cons, ih]
      omega

/-- An odd last element is carried up. -/
theorem pairUp_append_singleton (f : α → α → α) {l : List α} (h : l.length % 2 = 0) (z : α) :
    pairUp f (l ++ [z]) = pairUp f l ++ [z] := by
  induction l using pairUp.induct with
  | case1 => simp [pairUp]
  | case2 x => simp at h
  | case3 x y rest ih =>
      have hrest : rest.length % 2 = 0 := by
        simp only [List.length_cons] at h
        omega
      simp only [List.cons_append, pairUp, ih hrest]

/-- **The last element that is left**, if there is one. -/
def root (f : α → α → α) : List α → Option α
  | []             => none
  | [x]            => some x
  | x :: y :: rest => root f (pairUp f (x :: y :: rest))
termination_by l => l.length
decreasing_by
  rw [pairUp_length]
  simp only [List.length_cons]
  omega

/-- A level of a list with more than one element is lower. -/
theorem root_pairUp (f : α → α → α) {l : List α} (h : 1 < l.length) : root f l = root f (pairUp f l) := by
  cases l with
  | nil => exact absurd h (by simp)
  | cons x l =>
      cases l with
      | nil         => exact absurd h (by simp)
      | cons y rest => rw [root]

theorem root_isSome (f : α → α → α) {l : List α} (h : l ≠ []) : ∃ x, root f l = some x := by
  induction l using root.induct (f := f) with
  | case1 => exact absurd rfl h
  | case2 x => exact ⟨x, by rw [root]⟩
  | case3 x y rest ih =>
      rw [root]
      exact ih (by simp [pairUp])

/-- Pairing commutes with a homomorphism. -/
theorem pairUp_map {f : α → α → α} {g : β → β → β} {φ : α → β} (h : ∀ x y, φ (f x y) = g (φ x) (φ y)) (l : List α) :
    pairUp g (l.map φ) = (pairUp f l).map φ := by
  induction l using pairUp.induct with
  | case1 => rfl
  | case2 x => rfl
  | case3 x y rest ih => simp only [List.map_cons, pairUp, ih, h]

theorem root_map {f : α → α → α} {g : β → β → β} {φ : α → β} (h : ∀ x y, φ (f x y) = g (φ x) (φ y)) (l : List α) :
    root g (l.map φ) = (root f l).map φ := by
  induction l using root.induct (f := f) with
  | case1 => simp [root]
  | case2 x => simp [root]
  | case3 x y rest ih =>
      rw [root, ← ih, ← pairUp_map h]
      exact root_pairUp g (by simp)

/-! ## Trees -/

/-- A tree of pairs. -/
inductive Tree (α : Type) where
  | leaf (a : α)
  | node (left right : Tree α)
deriving DecidableEq, Inhabited

namespace Tree

def leaves : Tree α → List α
  | leaf a   => [a]
  | node l r => l.leaves ++ r.leaves

/-- The digest of a tree, from those of its leaves. -/
def digest (d : α → δ) (f : δ → δ → δ) : Tree α → δ
  | leaf a   => d a
  | node l r => f (l.digest d f) (r.digest d f)

end Tree

/-- Pairing keeps the order of the leaves. -/
theorem leaves_pairUp (l : List (Tree α)) : (pairUp .node l).flatMap Tree.leaves = l.flatMap Tree.leaves := by
  induction l using pairUp.induct with
  | case1 => rfl
  | case2 x => rfl
  | case3 x y rest ih => simp only [pairUp, List.flatMap_cons, Tree.leaves, ih, List.append_assoc]

/-- **The leaves of the tree are the list.** -/
theorem leaves_root {l : List (Tree α)} {t : Tree α} (h : root .node l = some t) : t.leaves = l.flatMap Tree.leaves := by
  induction l using root.induct (f := Tree.node) with
  | case1 => simp [root] at h
  | case2 x =>
      rw [root] at h
      cases h
      simp
  | case3 x y rest ih =>
      rw [root] at h
      rw [ih h, leaves_pairUp]

/-- What is left of a list of digests is the digest of a tree with the list as its leaves. -/
theorem root_digest (d : α → δ) (f : δ → δ → δ) {l : List α} {x : δ} (h : root f (l.map d) = some x) :
    ∃ t : Tree α, t.digest d f = x ∧ t.leaves = l := by
  have hmap : l.map d = (l.map Tree.leaf).map (Tree.digest d f) := by
    rw [List.map_map]
    rfl
  rw [hmap, root_map (f := Tree.node) (fun _ _ => rfl)] at h
  obtain ⟨t, ht, hx⟩ := Option.map_eq_some_iff.mp h
  refine ⟨t, hx, ?_⟩
  rw [leaves_root ht, List.flatMap_map]
  exact List.flatMap_singleton' l

/-! ## Injectivity -/

/-- **No collisions**: between leaves, between pairs, and between a leaf and a pair. -/
structure Collisionless (d : α → δ) (f : δ → δ → δ) : Prop where
  leaf     : ∀ a b, d a = d b → a = b
  pair     : ∀ x y x' y', f x y = f x' y' → x = x' ∧ y = y'
  disjoint : ∀ a x y, d a ≠ f x y

theorem Collisionless.digest {d : α → δ} {f : δ → δ → δ} (h : Collisionless d f) :
    ∀ t u : Tree α, t.digest d f = u.digest d f → t = u := by
  intro t
  induction t with
  | leaf a =>
      intro u hu
      cases u with
      | leaf b   => rw [h.leaf a b hu]
      | node l r => exact absurd hu (h.disjoint a _ _)
  | node l r ihl ihr =>
      intro u hu
      cases u with
      | leaf b     => exact absurd hu.symm (h.disjoint b _ _)
      | node l' r' =>
          obtain ⟨hl, hr⟩ := h.pair _ _ _ _ hu
          rw [ihl l' hl, ihr r' hr]

/-- **What is left determines the list.** -/
theorem root_injective {d : α → δ} {f : δ → δ → δ} (h : Collisionless d f) {l m : List α} {x : δ}
    (hl : root f (l.map d) = some x) (hm : root f (m.map d) = some x) : l = m := by
  obtain ⟨t, ht, hleaves⟩ := root_digest d f hl
  obtain ⟨u, hu, hleaves'⟩ := root_digest d f hm
  have htu : t = u := h.digest t u (ht.trans hu.symm)
  rw [← hleaves, ← hleaves', htu]

end Merkle
