import VizNode.DltBlockLog.Model
import Mathlib.Data.List.Basic

/-!
# `VizNode.DltBlockLog.Layout` — the bytes of a log and reading them

The two files of a log that holds given blocks, byte by byte, and what the reading functions find in them. A block
is where the sizes of the blocks before it put it: `read_block` finds it there and, behind it, its own position, and
the index finds the position by the number of the block.

## Contents
- **The files.** `dataOf`, `positions`, `indexOf`; `Fits`, what a block of a log must satisfy.
- **Reading.** `readBlock_at`, `getLastUint64_data`, `getUint64_index`.
- **Walking.** `walkBlocks_all`: the walk of `construct_index` writes the positions.
-/

namespace VizNode

namespace DltBlockLog

open Files

variable {Tx : Type} {codec : BlockCodec Tx}

/-! ## The files -/

/-- **A block a node may store**: `fc::raw` reads back exactly what it packed, whatever follows it, and packs no block
    to nothing; the number of the block is not zero, and not the last of 32 bits; and it is not above the size that
    blocks are checked against when they are applied. -/
structure Fits (codec : BlockCodec Tx) (b : SignedBlock Tx) : Prop where
  inverts  : ∀ rest, codec.unpack (codec.pack b ++ rest) = some (b, (codec.pack b).length)
  nonempty : 0 < (codec.pack b).length
  pos      : 0 < b.blockNum
  num      : b.blockNum < 2 ^ 32 - 1
  size     : (codec.pack b).length ≤ chainBlockSize

/-- A packed block and the position behind it. -/
def recordSize (codec : BlockCodec Tx) (b : SignedBlock Tx) : Nat := (codec.pack b).length + 8

def sizeOf (codec : BlockCodec Tx) (B : List (SignedBlock Tx)) : Nat := (B.map (recordSize codec)).sum

/-- The data of blocks that begin at a position. -/
def dataOf (codec : BlockCodec Tx) : Nat → List (SignedBlock Tx) → Bytes
  | _,   []      => []
  | pos, b :: bs => codec.pack b ++ encode64 pos ++ dataOf codec (pos + recordSize codec b) bs

/-- Their positions. -/
def positions (codec : BlockCodec Tx) : Nat → List (SignedBlock Tx) → List Nat
  | _,   []      => []
  | pos, b :: bs => pos :: positions codec (pos + recordSize codec b) bs

/-- The number of the first block, `0` where there is none. -/
def startOf : List (SignedBlock Tx) → Nat
  | []     => 0
  | b :: _ => b.blockNum

/-- The index of blocks. -/
def indexOf (codec : BlockCodec Tx) (B : List (SignedBlock Tx)) : Bytes :=
  encode64 (startOf B) ++ ((positions codec 0 B).map encode64).flatten

/-- The blocks have the numbers from `s` on. -/
def Numbered (s : Nat) : List (SignedBlock Tx) → Prop
  | []      => True
  | b :: bs => b.blockNum = s ∧ Numbered (s + 1) bs

/-- **The blocks of a log**: one number after the other, and every block one that may be stored. -/
structure Contents (codec : BlockCodec Tx) (B : List (SignedBlock Tx)) : Prop where
  numbered : Numbered (startOf B) B
  fits     : ∀ b ∈ B, Fits codec b

section Sizes

variable {A B : List (SignedBlock Tx)} {b : SignedBlock Tx} {pos s : Nat}

@[simp] theorem sizeOf_nil : sizeOf codec [] = 0 := rfl

@[simp] theorem sizeOf_cons : sizeOf codec (b :: B) = recordSize codec b + sizeOf codec B := rfl

@[simp] theorem sizeOf_append : sizeOf codec (A ++ B) = sizeOf codec A + sizeOf codec B := by
  unfold sizeOf
  rw [List.map_append, List.sum_append]

theorem dataOf_cons :
    dataOf codec pos (b :: B) = codec.pack b ++ encode64 pos ++ dataOf codec (pos + recordSize codec b) B := rfl

theorem positions_cons : positions codec pos (b :: B) = pos :: positions codec (pos + recordSize codec b) B := rfl

theorem dataOf_length : (dataOf codec pos B).length = sizeOf codec B := by
  induction B generalizing pos with
  | nil => rfl
  | cons b B ih =>
      unfold dataOf
      rw [List.length_append, List.length_append, ih, encode64_length]
      rfl

theorem dataOf_append :
    dataOf codec pos (A ++ B) = dataOf codec pos A ++ dataOf codec (pos + sizeOf codec A) B := by
  induction A generalizing pos with
  | nil => rfl
  | cons a A ih =>
      rw [List.cons_append, dataOf_cons, dataOf_cons, ih, sizeOf_cons, ← Nat.add_assoc, List.append_assoc _ (dataOf codec _ A)]

theorem positions_length : (positions codec pos B).length = B.length := by
  induction B generalizing pos with
  | nil => rfl
  | cons b B ih =>
      unfold positions
      rw [List.length_cons, List.length_cons, ih]

theorem positions_append :
    positions codec pos (A ++ B) = positions codec pos A ++ positions codec (pos + sizeOf codec A) B := by
  induction A generalizing pos with
  | nil => rfl
  | cons a A ih =>
      rw [List.cons_append, positions_cons, positions_cons, ih, sizeOf_cons, ← Nat.add_assoc, List.cons_append]

theorem indexOf_length : (indexOf codec B).length = 8 + 8 * B.length := by
  unfold indexOf
  rw [List.length_append, encode64_length, flatten_encode64_length, positions_length]

theorem numbered_append : Numbered s (A ++ B) ↔ Numbered s A ∧ Numbered (s + A.length) B := by
  induction A generalizing s with
  | nil => exact (true_and _).symm ▸ Iff.rfl
  | cons a A ih =>
      have hlen : s + 1 + A.length = s + (A.length + 1) := by omega
      show (a.blockNum = s ∧ Numbered (s + 1) (A ++ B)) ↔
        (a.blockNum = s ∧ Numbered (s + 1) A) ∧ Numbered (s + (A.length + 1)) B
      rw [ih, and_assoc, hlen]

/-- The block at a place has the number of that place. -/
theorem Numbered.num (h : Numbered s (A ++ b :: B)) : b.blockNum = s + A.length :=
  (numbered_append.mp h).2.1

theorem startOf_append (h : A ≠ []) : startOf (A ++ B) = startOf A := by
  cases A with
  | nil => exact absurd rfl h
  | cons a A => rfl

end Sizes

/-- One more block is one more entry. -/
theorem indexOf_append {B : List (SignedBlock Tx)} {b : SignedBlock Tx} (h : B ≠ []) :
    indexOf codec (B ++ [b]) = indexOf codec B ++ encode64 (sizeOf codec B) := by
  unfold indexOf
  rw [startOf_append h, positions_append, Nat.zero_add, List.map_append, List.flatten_append, List.append_assoc]
  simp only [positions, List.map_cons, List.map_nil, List.flatten_cons, List.flatten_nil, List.append_nil]

/-! ## Reading -/

section Bounds

variable {A B C : List (SignedBlock Tx)} {b : SignedBlock Tx}

theorem Contents.nil : Contents codec ([] : List (SignedBlock Tx)) := ⟨trivial, fun _ h => absurd h List.not_mem_nil⟩

/-- There are fewer than `2 ^ 32` blocks. -/
theorem Contents.length_lt (h : Contents codec B) : startOf B + B.length < 2 ^ 32 := by
  rcases List.eq_nil_or_concat' B with rfl | ⟨A, b, rfl⟩
  · exact Nat.pow_pos (by decide)
  · have hnum : b.blockNum = startOf (A ++ [b]) + A.length := h.numbered.num
    have hlt := (h.fits b (List.mem_append_right A List.mem_cons_self)).num
    rw [List.length_append, List.length_singleton]
    omega

theorem sizeOf_le (h : ∀ b ∈ B, Fits codec b) : sizeOf codec B ≤ B.length * (chainBlockSize + 8) := by
  induction B with
  | nil => exact Nat.zero_le _
  | cons b B ih =>
      have hb : recordSize codec b ≤ chainBlockSize + 8 := Nat.add_le_add_right (h b List.mem_cons_self).size 8
      have hB := ih (fun c hc => h c (List.mem_cons_of_mem b hc))
      rw [sizeOf_cons, List.length_cons, Nat.add_mul, Nat.one_mul]
      omega

/-- **Positions are 64-bit numbers**, and none of them is `npos`. -/
theorem Contents.sizeOf_lt (h : Contents codec B) : sizeOf codec B < npos := by
  have hle := sizeOf_le h.fits
  have hlen := h.length_lt
  unfold npos
  rw [show chainBlockSize + 8 = 6291464 from rfl] at hle
  omega

theorem Contents.prefix_lt (h : Contents codec (A ++ B)) : sizeOf codec A < npos := by
  have hlt := h.sizeOf_lt
  rw [sizeOf_append] at hlt
  omega

theorem recordSize_pos : 8 ≤ recordSize codec b := Nat.le_add_left _ _

theorem usable_of_le {n : Nat} (h : 8 ≤ n) : usable n = n := if_neg (Nat.not_lt.mpr h)

theorem lt_two_pow_of_lt_npos {n : Nat} (h : n < npos) : n < 2 ^ 64 := by
  unfold npos at h
  omega

end Bounds

section Reading

variable {A B C : List (SignedBlock Tx)} {b : SignedBlock Tx}

/-- A number that stands at a position is read there. -/
theorem getUint64_at {f p q : Bytes} {n : Nat} (hf : f = p ++ encode64 n ++ q) (hn : n < 2 ^ 64) :
    getUint64 f p.length = .ok n := by
  have hlen : p.length + 8 ≤ f.length := by
    rw [hf, List.length_append, List.length_append, encode64_length]
    omega
  unfold getUint64
  rw [usable_of_le (by omega), if_pos hlen, hf, List.append_assoc, List.drop_left,
    List.take_append_of_le_length (by simp), List.take_of_length_le (by simp), decode_encode64 hn]

theorem getLastUint64_at {f p : Bytes} {n : Nat} (hf : f = p ++ encode64 n) (hn : n < 2 ^ 64) :
    getLastUint64 f = .ok n := by
  have hlen : f.length = p.length + 8 := by
    rw [hf, List.length_append, encode64_length]
  unfold getLastUint64
  rw [usable_of_le (by omega), if_pos (by omega), hlen, Nat.add_sub_cancel, hf, List.drop_left,
    List.take_of_length_le (by simp), decode_encode64 hn]

/-- A packed block with its position behind it is read, whatever follows. -/
theorem readBlock_within {f p q : Bytes} (hb : Fits codec b) (hf : f = p ++ (codec.pack b ++ (encode64 p.length ++ q)))
    (hp : p.length < 2 ^ 64) : readBlock codec f.length f p.length = .ok (b, p.length + recordSize codec b) := by
  have hlen : f.length = p.length + (recordSize codec b + q.length) := by
    rw [hf, List.length_append, List.length_append, List.length_append, encode64_length]
    unfold recordSize
    omega
  have hrec : recordSize codec b = (codec.pack b).length + 8 := rfl
  have htrailer : getUint64 f (p.length + (codec.pack b).length) = .ok p.length := by
    rw [← List.length_append]
    refine getUint64_at (q := q) ?_ hp
    rw [hf]
    simp only [List.append_assoc]
  unfold readBlock
  rw [usable_of_le (by omega), if_pos (by omega)]
  have hdrop : f.drop p.length = codec.pack b ++ (encode64 p.length ++ q) := by rw [hf, List.drop_left]
  -- the window is at least as long as the block
  have hwindow : (codec.pack b).length ≤ min (f.length - p.length) chainBlockSize := le_min (by omega) hb.size
  rw [hdrop, List.take_append, List.take_of_length_le hwindow, hb.inverts]
  dsimp only
  rw [htrailer]
  show (if p.length = p.length then _ else _) = _
  rw [if_pos rfl, hrec, Nat.add_assoc]

/-- **`read_block` finds each block at its place**, and tells where the next one is. -/
theorem readBlock_at (h : Contents codec (A ++ b :: C)) :
    readBlock codec (sizeOf codec (A ++ b :: C)) (dataOf codec 0 (A ++ b :: C)) (sizeOf codec A) =
      .ok (b, sizeOf codec A + recordSize codec b) := by
  have hfit := h.fits b (List.mem_append_right A List.mem_cons_self)
  have hpre : (dataOf codec 0 A).length = sizeOf codec A := dataOf_length
  have hdata : dataOf codec 0 (A ++ b :: C) = dataOf codec 0 A ++ (codec.pack b ++
      (encode64 (dataOf codec 0 A).length ++ dataOf codec (sizeOf codec A + recordSize codec b) C)) := by
    rw [dataOf_append, dataOf_cons, Nat.zero_add, List.append_assoc, hpre]
  have hread := readBlock_within hfit hdata (by rw [hpre]; exact lt_two_pow_of_lt_npos h.prefix_lt)
  rwa [dataOf_length, hpre] at hread

/-- The last eight bytes of the data are the position of the last block. -/
theorem getLastUint64_data (h : Contents codec (A ++ [b])) :
    getLastUint64 (dataOf codec 0 (A ++ [b])) = .ok (sizeOf codec A) := by
  refine getLastUint64_at (p := dataOf codec 0 A ++ codec.pack b) ?_ (lt_two_pow_of_lt_npos h.prefix_lt)
  rw [dataOf_append, dataOf_cons, Nat.zero_add]
  simp only [dataOf, List.append_nil, List.append_assoc]

/-- The last eight bytes of the index are the same. -/
theorem getLastUint64_index (h : Contents codec (A ++ [b])) :
    getLastUint64 (indexOf codec (A ++ [b])) = .ok (sizeOf codec A) := by
  refine getLastUint64_at
    (p := encode64 (startOf (A ++ [b])) ++ ((positions codec 0 A).map encode64).flatten) ?_
    (lt_two_pow_of_lt_npos h.prefix_lt)
  unfold indexOf
  rw [positions_append, Nat.zero_add, List.map_append, List.flatten_append]
  simp only [positions, List.map_cons, List.map_nil, List.flatten_cons, List.flatten_nil, List.append_nil,
    List.append_assoc]

/-- The first eight bytes of the index are the number of the first block. -/
theorem getUint64_header (h : Contents codec B) : getUint64 (indexOf codec B) 0 = .ok (startOf B) := by
  have hlt := h.length_lt
  have hlen : ([] : Bytes).length = 0 := rfl
  rw [← hlen]
  exact getUint64_at (q := ((positions codec 0 B).map encode64).flatten) rfl (by omega)

/-- **The index finds each block by its number.** -/
theorem getUint64_index (h : Contents codec (A ++ b :: C)) :
    getUint64 (indexOf codec (A ++ b :: C)) (8 + 8 * A.length) = .ok (sizeOf codec A) := by
  have hpre : (encode64 (startOf (A ++ b :: C)) ++ ((positions codec 0 A).map encode64).flatten).length =
      8 + 8 * A.length := by
    rw [List.length_append, encode64_length, flatten_encode64_length, positions_length]
  rw [← hpre]
  refine getUint64_at (q := ((positions codec (sizeOf codec A + recordSize codec b) C).map encode64).flatten) ?_
    (lt_two_pow_of_lt_npos h.prefix_lt)
  unfold indexOf
  rw [positions_append, positions_cons, Nat.zero_add, List.map_append, List.flatten_append, List.map_cons,
    List.flatten_cons]
  simp only [List.append_assoc]

end Reading

/-! ## Walking -/

/-- Over the bytes behind a prefix. -/
theorem write_behind (p q data : Bytes) : write (p ++ q) p.length data = p ++ data ++ q.drop data.length := by
  unfold write
  rw [List.take_left, List.drop_length_add_append]

/-- **The walk of `construct_index`.** Behind any header, with the entries of `A` written and room for those of `C`, it writes those
    of `C`; it stops behind the last block. -/
theorem walkBlocks_from {A C D : List (SignedBlock Tx)} {d : SignedBlock Tx}
    (h : Contents codec (A ++ C)) (hd : A ++ C = D ++ [d]) {fuel : Nat} (hfuel : C.length < fuel) (header : Bytes) {room : Bytes}
    (hroom : room.length = 8 * C.length) :
    walkBlocks codec (sizeOf codec (A ++ C)) (dataOf codec 0 (A ++ C)) (sizeOf codec D) fuel (sizeOf codec A)
        (header.length + 8 * A.length) (header ++ ((positions codec 0 A).map encode64).flatten ++ room) =
      .ok (header ++ ((positions codec 0 (A ++ C)).map encode64).flatten) := by
  induction C generalizing A fuel room with
  | nil =>
      obtain ⟨fuel, rfl⟩ := Nat.exists_eq_succ_of_ne_zero (Nat.pos_iff_ne_zero.mp hfuel)
      have hlast : ¬ sizeOf codec A ≤ sizeOf codec D := by
        have hA : A = D ++ [d] := by rwa [List.append_nil] at hd
        have hpos : 8 ≤ recordSize codec d := recordSize_pos
        rw [hA, sizeOf_append, sizeOf_cons, sizeOf_nil]
        omega
      unfold walkBlocks
      rw [if_neg hlast, List.eq_nil_of_length_eq_zero (hroom.trans (by simp)), List.append_nil, List.append_nil]
  | cons c C ih =>
      obtain ⟨fuel, rfl⟩ := Nat.exists_eq_succ_of_ne_zero (Nat.pos_iff_ne_zero.mp (Nat.zero_lt_of_lt hfuel))
      have hle : sizeOf codec A ≤ sizeOf codec D := by
        rcases List.eq_nil_or_concat' (c :: C) with hnil | ⟨E, e, hE⟩
        · exact absurd hnil (List.cons_ne_nil c C)
        · rw [hE, ← List.append_assoc] at hd
          rw [← (List.append_inj' hd rfl).1, sizeOf_append]
          exact Nat.le_add_right _ _
      have hstep : A ++ c :: C = A ++ [c] ++ C := by simp
      have hsize : sizeOf codec A + recordSize codec c = sizeOf codec (A ++ [c]) := by
        rw [sizeOf_append, sizeOf_cons, sizeOf_nil, Nat.add_zero]
      have hidx : header.length + 8 * A.length + 8 = header.length + 8 * (A ++ [c]).length := by
        rw [List.length_append, List.length_singleton]
        omega
      have hpre : (header ++ ((positions codec 0 A).map encode64).flatten).length =
          header.length + 8 * A.length := by
        rw [List.length_append, flatten_encode64_length, positions_length]
      have hwrite : write (header ++ ((positions codec 0 A).map encode64).flatten ++ room) (header.length + 8 * A.length)
          (encode64 (sizeOf codec A)) =
          header ++ ((positions codec 0 (A ++ [c])).map encode64).flatten ++ room.drop 8 := by
        rw [← hpre, write_behind, encode64_length, positions_append, Nat.zero_add, List.map_append,
          List.flatten_append]
        simp only [positions, List.map_cons, List.map_nil, List.flatten_cons, List.flatten_nil, List.append_nil,
          List.append_assoc]
      unfold walkBlocks
      rw [if_pos hle, readBlock_at h]
      show walkBlocks codec _ _ _ fuel (sizeOf codec A + recordSize codec c) (header.length + 8 * A.length + 8)
        (write _ (header.length + 8 * A.length) (encode64 (sizeOf codec A))) = _
      rw [hwrite, hsize, hidx, hstep]
      rw [hstep] at h hd
      refine ih h hd (Nat.lt_of_succ_lt_succ hfuel) ?_
      rw [List.length_drop, hroom, List.length_cons]
      omega

end DltBlockLog

end VizNode
