import VizNode.Protocol
import VizNode.Lib.Merkle

/-!
# `VizNode.Chain.MerkleRoot` — the merkle root of a block

`signed_block::calculate_merkle_root`. The loop writes the hashes of a level over the level itself: the hash of the
pair at `2 k` goes to place `k`, which has been read by then. **In front of place `k` there is the new level, from place
`2 k` on the old one**, and what is in between is not read any more.

## Contents
- **The loop.** `BlockHashes`, `hashPairs`, `hashRound`, `hashRounds`, `calculateMerkleRoot`.
- **The reference.** `merkleReference`.
- **A level and all levels.** `hashPairs_eq`, `hashRound_eq`, `hashRounds_root`.
- **The root.** `merkle_root_determines`.
-/

namespace VizNode

/-! ## The loop -/

/-- What is hashed: a transaction with its signatures, a pair of digests, and the last digest. `zero` is
    `checksum_type()`. -/
structure BlockHashes (Tx δ γ : Type) where
  merkleDigest : Tx → δ
  hashPair     : δ → δ → δ
  hash         : δ → γ
  zero         : γ

namespace BlockHashes

variable {Tx δ γ : Type} [Inhabited δ] (H : BlockHashes Tx δ γ)

/-- The inner loop, with the number of its turns left: `i` is where it reads, `k` where it writes. -/
def hashPairs : Nat → Nat → Nat → List δ → Nat × List δ
  | 0,     _, k, ids => (k, ids)
  | n + 1, i, k, ids =>
      hashPairs n (i + 2) (k + 1) (ids.set k (H.hashPair (ids.getD i default) (ids.getD (i + 1) default)))

/-- One level of `n` hashes: how many there are above it, and the vector. -/
def hashRound (n : Nat) (ids : List δ) : Nat × List δ :=
  let iMax := n - n % 2
  let r    := H.hashPairs (iMax / 2) 0 0 ids
  if n % 2 = 1 then (r.1 + 1, r.2.set r.1 (r.2.getD iMax default)) else r

/-- The outer loop. Every level has fewer hashes, so the number of them is enough fuel. -/
def hashRounds : Nat → Nat → List δ → List δ
  | 0,        _, ids => ids
  | fuel + 1, n, ids =>
      if 1 < n then
        let r := H.hashRound n ids
        hashRounds fuel r.1 r.2
      else ids

/-- **`calculate_merkle_root`.** -/
def calculateMerkleRoot (txs : List Tx) : γ :=
  if txs.length = 0 then H.zero
  else H.hash ((H.hashRounds txs.length txs.length (txs.map H.merkleDigest)).getD 0 default)

/-! ## The reference -/

omit [Inhabited δ] in
/-- **The recursive reference**: pair up from the left, carry an odd last one up, until one digest is left. -/
def merkleReference (txs : List Tx) : γ :=
  match Merkle.root H.hashPair (txs.map H.merkleDigest) with
  | none   => H.zero
  | some d => H.hash d

omit [Inhabited δ] in
/-- **What is assumed of the hashes**: no collisions, and no hash is zero. -/
structure Ideal : Prop where
  digests : Merkle.Collisionless H.merkleDigest H.hashPair
  hash    : Function.Injective H.hash
  nonzero : ∀ d, H.hash d ≠ H.zero

/-! ## A level and all levels -/

omit [Inhabited δ] in
/-- What is read behind a prefix. -/
theorem getD_behind (l r : List δ) (i : Nat) (d : δ) : (l ++ r).getD (l.length + i) d = r.getD i d := by
  rw [List.getD_eq_getElem?_getD, List.getElem?_append_right (Nat.le_add_right _ _), Nat.add_sub_cancel_left,
    List.getD_eq_getElem?_getD]

/-- The hash of a pair is written behind the new level, over what is not read any more. -/
theorem hashPairs_eq (n : Nat) (done gap rest : List δ) (h : 2 * n ≤ rest.length) :
    ∃ gap', gap'.length = gap.length + n ∧
      H.hashPairs n (done.length + gap.length) done.length (done ++ gap ++ rest) =
        (done.length + n, done ++ Merkle.pairUp H.hashPair (rest.take (2 * n)) ++ gap' ++ rest.drop (2 * n)) := by
  induction n generalizing done gap rest with
  | zero => exact ⟨gap, rfl, by simp [hashPairs, Merkle.pairUp]⟩
  | succ n ih =>
      obtain ⟨x, y, rest, rfl⟩ : ∃ x y l, rest = x :: y :: l := by
        rcases rest with _ | ⟨x, _ | ⟨y, l⟩⟩
        · simp at h
        · simp only [List.length_cons, List.length_nil] at h
          omega
        · exact ⟨x, y, l, rfl⟩
      -- the pair that is read joins the gap, and the gap loses its first place to the new hash
      obtain ⟨m, gap₁, hgap₁⟩ : ∃ m gap₁, gap ++ [x, y] = m :: gap₁ := by
        cases gap with
        | nil       => exact ⟨x, [y], rfl⟩
        | cons m gs => exact ⟨m, gs ++ [x, y], rfl⟩
      have hlen : gap₁.length = gap.length + 1 := by
        have := congrArg List.length hgap₁
        simp only [List.length_append, List.length_cons, List.length_nil] at this
        omega
      have hfront : done.length + gap.length = (done ++ gap).length := List.length_append.symm
      have hx : (done ++ gap ++ x :: y :: rest).getD (done.length + gap.length) default = x := by
        rw [hfront]
        exact getD_behind (done ++ gap) (x :: y :: rest) 0 default
      have hy : (done ++ gap ++ x :: y :: rest).getD (done.length + gap.length + 1) default = y := by
        rw [hfront]
        exact getD_behind (done ++ gap) (x :: y :: rest) 1 default
      have hset : (done ++ gap ++ x :: y :: rest).set done.length (H.hashPair x y) =
          (done ++ [H.hashPair x y]) ++ gap₁ ++ rest := by
        have hsplit : done ++ gap ++ x :: y :: rest = done ++ m :: (gap₁ ++ rest) := by
          rw [← List.cons_append, ← hgap₁]
          simp
        rw [hsplit, List.set_append_right _ _ (Nat.le_refl _), Nat.sub_self, List.set_cons_zero]
        simp
      have hrest : 2 * n ≤ rest.length := by
        simp only [List.length_cons] at h
        omega
      obtain ⟨gap', hgap', heq⟩ := ih (done ++ [H.hashPair x y]) gap₁ rest hrest
      refine ⟨gap', by omega, ?_⟩
      have hi : (done ++ [H.hashPair x y]).length + gap₁.length = done.length + gap.length + 2 := by
        simp only [List.length_append, List.length_singleton]
        omega
      have hk : (done ++ [H.hashPair x y]).length = done.length + 1 := by simp
      have hdone : done.length + 1 + n = done.length + (n + 1) := by omega
      rw [hi, hk, hdone] at heq
      rw [hashPairs, hx, hy, hset, heq]
      simp [Merkle.pairUp, Nat.mul_succ, List.take_succ_cons]

/-- **One level**: in front there is the level above it. -/
theorem hashRound_eq (n : Nat) (ids : List δ) (h : n ≤ ids.length) :
    ∃ rest, H.hashRound n ids =
      ((n + 1) / 2, Merkle.pairUp H.hashPair (ids.take n) ++ rest) := by
  have hmax : n - n % 2 = 2 * (n / 2) := by omega
  obtain ⟨gap, hgap, heq⟩ := H.hashPairs_eq (n / 2) [] [] ids (by omega)
  simp only [List.length_nil, List.nil_append, Nat.zero_add] at hgap heq
  unfold hashRound
  dsimp only
  rw [hmax, Nat.mul_div_cancel_left _ (by omega : 0 < 2), heq]
  have hlevel : (Merkle.pairUp H.hashPair (ids.take (2 * (n / 2)))).length = n / 2 := by
    rw [Merkle.pairUp_length, List.length_take]
    omega
  by_cases hodd : n % 2 = 1
  · rw [if_pos hodd]
    -- the last hash is where it has always been, and it goes behind the new level
    have hlt : 2 * (n / 2) < ids.length := by omega
    obtain ⟨z, rest, hdrop⟩ : ∃ z rest, ids.drop (2 * (n / 2)) = z :: rest := by
      cases hd : ids.drop (2 * (n / 2)) with
      | nil         => exact absurd (List.drop_eq_nil_iff.mp hd) (by omega)
      | cons z rest => exact ⟨z, rest, rfl⟩
    have htake : ids.take n = ids.take (2 * (n / 2)) ++ [z] := by
      have hn : n = 2 * (n / 2) + 1 := by omega
      rw [hn, List.take_add, show (2 * (n / 2) + 1) / 2 = n / 2 by omega, hdrop]
      rfl
    obtain ⟨g, gap₁, hg⟩ : ∃ g gap₁, gap ++ z :: rest = g :: gap₁ := by
      cases gap with
      | nil       => exact ⟨z, rest, rfl⟩
      | cons g gs => exact ⟨g, gs ++ z :: rest, rfl⟩
    have hget : (Merkle.pairUp H.hashPair (ids.take (2 * (n / 2))) ++ gap ++ z :: rest).getD (2 * (n / 2)) default =
        z := by
      have hfront : 2 * (n / 2) = (Merkle.pairUp H.hashPair (ids.take (2 * (n / 2))) ++ gap).length := by
        rw [List.length_append]
        omega
      have hread := getD_behind (Merkle.pairUp H.hashPair (ids.take (2 * (n / 2))) ++ gap) (z :: rest) 0 default
      rw [Nat.add_zero, ← hfront] at hread
      exact hread
    refine ⟨gap₁, ?_⟩
    dsimp only
    rw [hdrop, hget, List.append_assoc, hg, List.set_append_right _ _ (by omega), hlevel, Nat.sub_self,
      List.set_cons_zero, htake, Merkle.pairUp_append_singleton _ (by rw [List.length_take]; omega)]
    rw [List.append_assoc, List.singleton_append, show n / 2 + 1 = (n + 1) / 2 by omega]
  · rw [if_neg hodd]
    refine ⟨gap ++ ids.drop (2 * (n / 2)), ?_⟩
    have hn : 2 * (n / 2) = n := by omega
    rw [hn, List.append_assoc, show (n + 1) / 2 = n / 2 by omega]

/-- **All levels**: the digest that is left is at the front. -/
theorem hashRounds_root {fuel n : Nat} {ids : List δ} (h : n ≤ ids.length) (hpos : 0 < n) (hfuel : n ≤ fuel) :
    Merkle.root H.hashPair (ids.take n) = some ((H.hashRounds fuel n ids).getD 0 default) := by
  induction fuel generalizing n ids with
  | zero => omega
  | succ fuel ih =>
      unfold hashRounds
      by_cases hn : 1 < n
      · rw [if_pos hn]
        obtain ⟨rest, hround⟩ := H.hashRound_eq n ids h
        have hlevel : (Merkle.pairUp H.hashPair (ids.take n)).length = (n + 1) / 2 := by
          rw [Merkle.pairUp_length, List.length_take, Nat.min_eq_left h]
        dsimp only
        rw [hround, Merkle.root_pairUp H.hashPair (by rw [List.length_take]; omega)]
        have hlen : (n + 1) / 2 ≤ (Merkle.pairUp H.hashPair (ids.take n) ++ rest).length := by
          rw [List.length_append, hlevel]
          omega
        rw [← ih hlen (by omega) (by omega), List.take_append_of_le_length (by omega), ← hlevel, List.take_length]
      · rw [if_neg hn]
        have hone : n = 1 := by omega
        subst hone
        cases ids with
        | nil         => simp at h
        | cons z rest => simp [Merkle.root]

/-! ## The root -/

/-- The loop computes the reference. -/
theorem calculateMerkleRoot_eq (txs : List Tx) : H.calculateMerkleRoot txs = H.merkleReference txs := by
  unfold calculateMerkleRoot merkleReference
  by_cases hempty : txs.length = 0
  · rw [if_pos hempty, List.length_eq_zero_iff.mp hempty]
    simp [Merkle.root]
  · rw [if_neg hempty]
    have hroot : Merkle.root H.hashPair ((txs.map H.merkleDigest).take txs.length) =
        some ((H.hashRounds txs.length txs.length (txs.map H.merkleDigest)).getD 0 default) :=
      H.hashRounds_root (by simp) (by omega) (Nat.le_refl _)
    rw [List.take_of_length_le (by simp)] at hroot
    rw [hroot]

omit [Inhabited δ] in
/-- A reference root belongs to one list. -/
theorem merkleReference_injective (h : H.Ideal) {txs txs' : List Tx}
    (heq : H.merkleReference txs = H.merkleReference txs') : txs = txs' := by
  unfold merkleReference at heq
  have hnone : ∀ l : List Tx, Merkle.root H.hashPair (l.map H.merkleDigest) = none → l = [] := by
    intro l hl
    by_contra hne
    obtain ⟨x, hx⟩ := Merkle.root_isSome H.hashPair (l := l.map H.merkleDigest) (by simpa using hne)
    rw [hl] at hx
    cases hx
  cases ha : Merkle.root H.hashPair (txs.map H.merkleDigest) with
  | none =>
      cases hb : Merkle.root H.hashPair (txs'.map H.merkleDigest) with
      | none   => rw [hnone txs ha, hnone txs' hb]
      | some d =>
          rw [ha, hb] at heq
          exact absurd heq.symm (h.nonzero d)
  | some d =>
      cases hb : Merkle.root H.hashPair (txs'.map H.merkleDigest) with
      | none    =>
          rw [ha, hb] at heq
          exact absurd heq (h.nonzero d)
      | some d' =>
          rw [ha, hb] at heq
          have hd : d = d' := h.hash heq
          exact Merkle.root_injective h.digests ha (hd ▸ hb)

/-- **The merkle root**: the loop in place computes the reference, and with ideal hashes two different lists of
    transactions have different roots. -/
theorem merkle_root_determines :
    (∀ txs, H.calculateMerkleRoot txs = H.merkleReference txs) ∧
      (H.Ideal → ∀ txs txs', txs ≠ txs' → H.calculateMerkleRoot txs ≠ H.calculateMerkleRoot txs') := by
  constructor
  · exact H.calculateMerkleRoot_eq
  · intro hideal txs txs' hne heq
    rw [H.calculateMerkleRoot_eq, H.calculateMerkleRoot_eq] at heq
    exact hne (H.merkleReference_injective hideal heq)

/-- Hashes that keep what they hash: a digest is the tree itself. -/
def treeHashes : BlockHashes Nat (Merkle.Tree Nat) (Option (Merkle.Tree Nat)) where
  merkleDigest := .leaf
  hashPair     := .node
  hash         := some
  zero         := none

/-- Three transactions and two of them. -/
theorem merkle_root_determines_sample :
    treeHashes.calculateMerkleRoot [1, 2, 3] ≠ treeHashes.calculateMerkleRoot [1, 2] := by
  have hideal : treeHashes.Ideal := by
    constructor
    · constructor
      · intro a b hab
        exact Merkle.Tree.leaf.inj hab
      · intro x y x' y' hxy
        exact Merkle.Tree.node.inj hxy
      · intro a x y hxy
        cases hxy
    · exact Option.some_injective _
    · intro d hd
      cases hd
  exact (merkle_root_determines treeHashes).2 hideal [1, 2, 3] [1, 2] (by decide)

end BlockHashes

end VizNode
