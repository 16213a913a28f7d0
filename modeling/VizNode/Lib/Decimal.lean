import Mathlib.Algebra.Order.Ring.Nat
import Mathlib.Algebra.Order.Ring.Int
import Mathlib.Tactic.Common

/-!
# `VizNode.Lib.Decimal` — numerals and 64-bit integers

Texts of decimal digits as lists of characters, what they are worth, and the signed 64-bit integers they are
read into. `Nat.toDigits` and `Nat.ofDigitChars` of the core library print and read them.

## Contents
- **Digits.** `Digits`, `value`; the numeral of `10 ^ d + r`.
- **Searching.** `find`, the position of the first occurrence of a character.
- **Integers.** `InInt64`, `wrap64`.
-/

namespace Decimal

/-! ## Digits -/

/-- Only digits. -/
def Digits (l : List Char) : Prop := ∀ c ∈ l, c.isDigit = true

instance digitsDecidable (l : List Char) : Decidable (Digits l) :=
  decidable_of_iff (l.all Char.isDigit = true) List.all_eq_true

/-- What a text of digits is worth. -/
def value (l : List Char) : Nat := Nat.ofDigitChars 10 l 0

theorem digits_toDigits (n : Nat) : Digits (Nat.toDigits 10 n) :=
  fun _ hc => Nat.isDigit_of_mem_toDigits (by omega) (by omega) hc

@[simp] theorem value_toDigits (n : Nat) : value (Nat.toDigits 10 n) = n := Nat.ofDigitChars_ten_toDigits

theorem value_append (l m : List Char) : value (l ++ m) = 10 ^ m.length * value l + value m := by
  unfold value
  rw [Nat.ofDigitChars_append, Nat.ofDigitChars_eq_ofDigitChars_zero]

theorem value_cons (c : Char) (l : List Char) : value (c :: l) = 10 ^ l.length * (c.toNat - 48) + value l := by
  have h := value_append [c] l
  simpa [value, Nat.ofDigitChars_cons] using h

theorem Digits.append {l m : List Char} (hl : Digits l) (hm : Digits m) : Digits (l ++ m) := by
  intro c hc
  exact (List.mem_append.mp hc).elim (hl c) (hm c)

theorem Digits.not_mem {l : List Char} (h : Digits l) {c : Char} (hc : c.isDigit = false) : c ∉ l := by
  intro hm
  rw [h c hm] at hc
  exact absurd hc (by decide)

/-- A digit is worth less than ten. -/
theorem digit_lt {c : Char} (h : c.isDigit = true) : c.toNat - 48 < 10 := by
  have hle : c.toNat ≤ 57 := by
    simp only [Char.isDigit, Bool.and_eq_true, decide_eq_true_eq] at h
    exact h.2
  omega

theorem Digits.value_lt {l : List Char} (h : Digits l) : value l < 10 ^ l.length := by
  induction l with
  | nil => simp [value]
  | cons c l ih =>
      have hl := ih (fun d hd => h d (List.mem_cons_of_mem _ hd))
      have hc := digit_lt (h c List.mem_cons_self)
      have hmul : 10 ^ l.length * (c.toNat - 48) ≤ 10 ^ l.length * 9 := Nat.mul_le_mul_left _ (by omega)
      rw [value_cons, List.length_cons, Nat.pow_succ]
      omega

/-- **The numeral of a power of ten and something below it** is a one and the digits of the rest, with its
    leading zeros. -/
theorem toDigits_pow_add {d r : Nat} (h : r < 10 ^ d) :
    ∃ l, Nat.toDigits 10 (10 ^ d + r) = '1' :: l ∧ l.length = d ∧ Digits l ∧ value l = r := by
  induction d generalizing r with
  | zero =>
      obtain rfl : r = 0 := by simpa using h
      exact ⟨[], by decide, rfl, by intro c hc; exact absurd hc (by simp), rfl⟩
  | succ d ih =>
      have hr : r / 10 < 10 ^ d := by
        rw [Nat.pow_succ] at h
        omega
      obtain ⟨l, hl, hlen, hdig, hval⟩ := ih hr
      have hlast : r % 10 < 10 := Nat.mod_lt _ (by decide)
      have hpos : 0 < 10 ^ d := Nat.pow_pos (by decide)
      have hsplit : 10 ^ (d + 1) + r = 10 * (10 ^ d + r / 10) + r % 10 := by
        rw [Nat.pow_succ]
        omega
      refine ⟨l ++ Nat.toDigits 10 (r % 10), ?_, ?_, ?_, ?_⟩
      · rw [hsplit, ← Nat.toDigits_append_toDigits (by decide) (by omega) hlast, hl]
        rfl
      · rw [Nat.toDigits_of_lt_base hlast]
        simp [hlen]
      · exact hdig.append (digits_toDigits _)
      · rw [value_append, value_toDigits, hval, Nat.toDigits_of_lt_base hlast]
        simp only [List.length_singleton]
        omega

/-! ## Searching -/

/-- The position of the first occurrence. -/
def find (c : Char) (l : List Char) : Option Nat := l.findIdx? (fun x => decide (x = c))

theorem find_eq_none {c : Char} {l : List Char} : find c l = none ↔ c ∉ l := by
  unfold find
  rw [List.findIdx?_eq_none_iff]
  constructor
  · intro h hc
    exact absurd (h c hc) (by simp)
  · intro h x hx
    exact decide_eq_false (fun he => h (he ▸ hx))

theorem find_append {c : Char} {l m : List Char} (h : c ∉ l) : find c (l ++ m) = (find c m).map (· + l.length) := by
  induction l with
  | nil => simp
  | cons x l ih =>
      have hx : x ≠ c := fun he => h (he ▸ List.mem_cons_self)
      have hl : c ∉ l := fun hm => h (List.mem_cons_of_mem _ hm)
      have hrec := ih hl
      unfold find at hrec ⊢
      rw [List.cons_append, List.findIdx?_cons, if_neg (by simpa using hx), hrec]
      simp only [Option.map_map, List.length_cons]
      congr 1

theorem find_first {c : Char} {l m : List Char} (h : c ∉ l) : find c (l ++ c :: m) = some l.length := by
  rw [find_append h]
  simp [find, List.findIdx?_cons]

/-- What stands around a first occurrence. -/
theorem find_eq_some {c : Char} {s : List Char} {i : Nat} (h : find c s = some i) :
    ∃ l m, s = l ++ c :: m ∧ c ∉ l ∧ l.length = i := by
  induction s generalizing i with
  | nil => exact absurd h (by simp [find])
  | cons x s ih =>
      by_cases hx : x = c
      · subst hx
        have hi : i = 0 := by simpa [find, List.findIdx?_cons] using h.symm
        exact ⟨[], s, rfl, by simp, hi.symm⟩
      · unfold find at h
        rw [List.findIdx?_cons, if_neg (by simpa using hx)] at h
        obtain ⟨j, hj, rfl⟩ := Option.map_eq_some_iff.mp h
        obtain ⟨l, m, rfl, hl, hlen⟩ := ih hj
        exact ⟨x :: l, m, rfl, by simp [hl, Ne.symm hx], by simp [hlen]⟩

/-- A text is cut at a first occurrence in one way. -/
theorem append_first {c : Char} {l l' m m' : List Char} (h : c ∉ l) (h' : c ∉ l')
    (he : l ++ c :: m = l' ++ c :: m') : l = l' ∧ m = m' := by
  have hlen : l.length = l'.length := by
    have hpos := congrArg (find c) he
    rw [find_first h, find_first h'] at hpos
    exact Option.some.inj hpos
  obtain ⟨hl, hm⟩ := List.append_inj he hlen
  exact ⟨hl, (List.cons.inj hm).2⟩

/-! ## Integers -/

/-- The range of a signed 64-bit integer. The bounds are written out, so that they need not be computed. -/
def InInt64 (x : Int) : Prop := -9223372036854775808 ≤ x ∧ x ≤ 9223372036854775807

instance inInt64Decidable (x : Int) : Decidable (InInt64 x) := inferInstanceAs (Decidable (_ ∧ _))

/-- What two's complement makes of a result. -/
def wrap64 (x : Int) : Int := x.bmod (2 ^ 64)

theorem wrap64_eq_self {x : Int} (h : InInt64 x) : wrap64 x = x := by
  apply Int.bmod_eq_of_le_mul_two
  · have := h.1
    push_cast
    omega
  · have := h.2
    push_cast
    omega

theorem wrap64_inInt64 (x : Int) : InInt64 (wrap64 x) := by
  have hle : -(((2 ^ 64 : Nat) : Int) / 2) ≤ wrap64 x := Int.le_bmod (by decide)
  have hlt : wrap64 x < (((2 ^ 64 : Nat) : Int) + 1) / 2 := Int.bmod_lt (by decide)
  unfold InInt64
  push_cast at hle hlt
  omega

theorem wrap64_add (x y : Int) : wrap64 (wrap64 x + y) = wrap64 (x + y) := Int.bmod_add_bmod

theorem wrap64_sub (x y : Int) : wrap64 (wrap64 x - y) = wrap64 (x - y) := Int.bmod_sub_bmod

/-- Two results that wrap to one value differ by a multiple of the range. -/
theorem wrap64_dvd {x y : Int} (h : wrap64 x = y) : (2 ^ 64 : Int) ∣ x - y := by
  rw [← h]
  unfold wrap64
  rw [Int.bmod_eq_self_sub_mul_bdiv]
  exact ⟨Int.bdiv x (2 ^ 64), by push_cast; omega⟩

end Decimal
