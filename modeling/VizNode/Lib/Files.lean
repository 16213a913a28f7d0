import Mathlib.Algebra.Order.Ring.Nat
import Mathlib.Tactic.Common

/-!
# `VizNode.Lib.Files` — bytes, mapped files and file operations

Files as lists of bytes, and the operations a program makes on them one after the other. A program that stops
between two operations has made a **prefix** of them, so what it leaves behind is `runAll (ops.take k) fs`.

## Contents
- **Numbers.** `encode64`, eight bytes with the lowest first, and `decode`, its inverse.
- **Mapped files.** `resize` and `write`, the two ways a mapped file changes.
- **File operations.** `FileOp`, `run` and `runAll`, with the frame rule `runAll_other`: what an operation does not
  name it does not change.
-/

namespace Files

abbrev Bytes := List UInt8

/-! ## Numbers -/

/-- The `w` lowest bytes of a number, the lowest first. -/
def encode : Nat → Nat → Bytes
  | 0,     _ => []
  | w + 1, n => UInt8.ofNat n :: encode w (n / 256)

/-- The number some bytes spell. -/
def decode : Bytes → Nat
  | []      => 0
  | b :: bs => b.toNat + 256 * decode bs

/-- A `uint64_t` in memory. -/
def encode64 (n : Nat) : Bytes := encode 8 n

@[simp] theorem encode_length {w n : Nat} : (encode w n).length = w := by
  induction w generalizing n with
  | zero => rfl
  | succ w ih =>
      unfold encode
      rw [List.length_cons, ih]

@[simp] theorem encode64_length {n : Nat} : (encode64 n).length = 8 := encode_length

theorem decode_encode {w n : Nat} (h : n < 256 ^ w) : decode (encode w n) = n := by
  induction w generalizing n with
  | zero =>
      rw [pow_zero] at h
      have hzero : n = 0 := by omega
      rw [hzero]
      rfl
  | succ w ih =>
      unfold encode decode
      rw [ih (Nat.div_lt_of_lt_mul (by rw [← pow_succ']; exact h)), UInt8.toNat_ofNat']
      exact Nat.mod_add_div n 256

@[simp] theorem decode_encode64 {n : Nat} (h : n < 2 ^ 64) : decode (encode64 n) = n :=
  decode_encode (by omega)

/-- Fixed-width numbers are found by their place. -/
theorem flatten_encode64_at {l : List Nat} {i : Nat} (h : i < l.length) :
    (((l.map encode64).flatten.drop (8 * i)).take 8) = encode64 (l.get ⟨i, h⟩) := by
  induction l generalizing i with
  | nil => exact absurd h (Nat.not_lt_zero i)
  | cons n l ih =>
      cases i with
      | zero =>
          rw [Nat.mul_zero, List.drop_zero, List.map_cons, List.flatten_cons, List.take_append_of_le_length (by simp)]
          exact List.take_of_length_le (by simp)
      | succ i =>
          have hdrop : 8 * (i + 1) = (encode64 n).length + 8 * i := by
            rw [encode64_length]
            omega
          rw [List.map_cons, List.flatten_cons, hdrop, List.drop_length_add_append]
          exact ih (Nat.lt_of_succ_lt_succ h)

theorem flatten_encode64_length {l : List Nat} : (l.map encode64).flatten.length = 8 * l.length := by
  induction l with
  | nil => rfl
  | cons n l ih =>
      rw [List.map_cons, List.flatten_cons, List.length_append, ih, encode64_length, List.length_cons]
      omega

/-! ## Mapped files -/

/-- Change the length: cut at the end, or fill with zeros. -/
def resize (f : Bytes) (n : Nat) : Bytes := f.take n ++ List.replicate (n - f.length) 0

/-- Copy bytes over those at a position. -/
def write (f : Bytes) (pos : Nat) (data : Bytes) : Bytes := f.take pos ++ data ++ f.drop (pos + data.length)

@[simp] theorem resize_length {f : Bytes} {n : Nat} : (resize f n).length = n := by
  unfold resize
  rw [List.length_append, List.length_take, List.length_replicate]
  omega

theorem resize_self {f : Bytes} : resize f f.length = f := by
  unfold resize
  rw [List.take_length, Nat.sub_self, List.replicate_zero, List.append_nil]

theorem take_resize {f : Bytes} {n k : Nat} (hk : k ≤ n) (hf : k ≤ f.length) : (resize f n).take k = f.take k := by
  unfold resize
  rw [List.take_append_of_le_length (by rw [List.length_take]; omega), List.take_take, min_eq_left hk]

/-- Bytes written at the end of a file that ends with them. -/
theorem write_end {f data : Bytes} {pos : Nat} (h : f.length = pos + data.length) :
    write f pos data = f.take pos ++ data := by
  unfold write
  rw [← h, List.drop_length, List.append_nil]

theorem write_length {f data : Bytes} {pos : Nat} (h : pos + data.length ≤ f.length) :
    (write f pos data).length = f.length := by
  unfold write
  rw [List.length_append, List.length_append, List.length_take, List.length_drop]
  omega

theorem take_write {f data : Bytes} {pos k : Nat} (hk : k ≤ pos) (hf : pos ≤ f.length) :
    (write f pos data).take k = f.take k := by
  unfold write
  rw [List.append_assoc, List.take_append_of_le_length (by rw [List.length_take]; omega), List.take_take,
    min_eq_left hk]

theorem take_write_through {f data : Bytes} {pos : Nat} (hf : pos ≤ f.length) :
    (write f pos data).take (pos + data.length) = f.take pos ++ data := by
  unfold write
  have hlen : (f.take pos ++ data).length = pos + data.length := by
    rw [List.length_append, List.length_take]
    omega
  rw [← hlen, List.take_left]

/-- A file that grows gets zeros. -/
theorem resize_extend {f : Bytes} {n k : Nat} (h : n = f.length + k) : resize f n = f ++ List.replicate k 0 := by
  unfold resize
  rw [List.take_of_length_le (by omega), h, Nat.add_sub_cancel_left]

/-- Bytes written over the first of some zeros. -/
theorem write_zeros (f data : Bytes) (k : Nat) :
    write (f ++ List.replicate (data.length + k) 0) f.length data = f ++ data ++ List.replicate k 0 := by
  unfold write
  rw [List.take_left, List.drop_length_add_append, List.drop_replicate, Nat.add_sub_cancel_left]

theorem encode64_zero : encode64 0 = List.replicate 8 0 := by decide

/-! ## File operations -/

variable {P : Type} [DecidableEq P]

/-- **A file system**: what is at each path. -/
abbrev FileSystem (P : Type) := P → Option Bytes

/-- **One operation on a file.** `touch` writes one zero byte where there is no file or an empty one. -/
inductive FileOp (P : Type) where
  | touch (path : P)
  | resize (path : P) (size : Nat)
  | write (path : P) (pos : Nat) (data : Bytes)
  | remove (path : P)
  | rename (source target : P)

namespace FileOp

/-- The paths an operation names. -/
def touches : FileOp P → List P
  | touch p     => [p]
  | resize p _  => [p]
  | write p _ _ => [p]
  | remove p    => [p]
  | rename p q  => [p, q]

/-- **What an operation does.** -/
def run (fs : FileSystem P) : FileOp P → FileSystem P
  | touch p        => fun q => if q = p then
      (if fs p = none ∨ fs p = some [] then some [0] else fs p) else fs q
  | resize p n     => fun q => if q = p then (fs p).map (Files.resize · n) else fs q
  | write p pos bs => fun q => if q = p then (fs p).map (Files.write · pos bs) else fs q
  | remove p       => fun q => if q = p then none else fs q
  | rename p t     => fun q => if q = t then fs p else if q = p then none else fs q

/-- A path that is not named keeps its file. -/
theorem run_other {fs : FileSystem P} {op : FileOp P} {q : P} (h : q ∉ op.touches) : op.run fs q = fs q := by
  cases op with
  | touch p => exact if_neg (fun he => h (List.mem_singleton.mpr he))
  | resize p n => exact if_neg (fun he => h (List.mem_singleton.mpr he))
  | write p pos bs => exact if_neg (fun he => h (List.mem_singleton.mpr he))
  | remove p => exact if_neg (fun he => h (List.mem_singleton.mpr he))
  | rename p t =>
      have hp : q ≠ p := by
        rintro rfl
        exact h List.mem_cons_self
      have ht : q ≠ t := by
        rintro rfl
        exact h (List.mem_cons_of_mem p List.mem_cons_self)
      show (if q = t then fs p else if q = p then none else fs q) = fs q
      rw [if_neg ht, if_neg hp]

end FileOp

/-- **Operations one after the other.** -/
def runAll (ops : List (FileOp P)) (fs : FileSystem P) : FileSystem P := ops.foldl FileOp.run fs

@[simp] theorem runAll_nil {fs : FileSystem P} : runAll [] fs = fs := rfl

@[simp] theorem runAll_cons {fs : FileSystem P} {op : FileOp P} {ops : List (FileOp P)} :
    runAll (op :: ops) fs = runAll ops (op.run fs) := rfl

theorem runAll_append {fs : FileSystem P} {ops ops' : List (FileOp P)} :
    runAll (ops ++ ops') fs = runAll ops' (runAll ops fs) := List.foldl_append

/-- **The frame rule.** -/
theorem runAll_other {fs : FileSystem P} {ops : List (FileOp P)} {q : P} (h : ∀ op ∈ ops, q ∉ op.touches) :
    runAll ops fs q = fs q := by
  induction ops generalizing fs with
  | nil => rfl
  | cons op ops ih =>
      rw [runAll_cons, ih (fun o ho => h o (List.mem_cons_of_mem op ho))]
      exact FileOp.run_other (h op List.mem_cons_self)

end Files
