import VizNode.Protocol
import Mathlib.Data.List.GetD

/-!
# `VizNode.Protocol.Names` — which strings are account names?

`is_valid_account_name` goes through a string label by label with two indexes: `begin`, where the label starts,
and `stop`, the next dot or the end. It leaves the loop when the label it has checked was the last one.

**The grammar** is said without indexes. A `Label` is a letter, any number of letters, digits and hyphens, and a
letter or digit; a name is a sequence of labels with dots between them. No label has a dot in it, so the labels
of a name are what is left between its dots (`labelSequence_iff`), and these are what the loop looks at.

## Contents
- **The code.** `findFirstOf`, `checkLabel`, `scanLabels`, `isValidAccountName`.
- **The grammar.** `Label`, `LabelSequence`.
- **The loop.** `checkLabel_iff`, `scanLabels_iff`.
-/

namespace VizNode

namespace Config

def minAccountNameLength : Nat := 2
def maxAccountNameLength : Nat := 32

end Config

namespace Names

/-! ## The code -/

def isLetter (c : Char) : Bool := decide ('a' ≤ c ∧ c ≤ 'z')

def isDigit (c : Char) : Bool := decide ('0' ≤ c ∧ c ≤ '9')

/-- The index of the first `c` from `pos` on. -/
def findFirstOf (c : Char) (name : List Char) (pos : Nat) : Option Nat :=
  ((name.drop pos).findIdx? (fun d => decide (d = c))).map (pos + ·)

/-- The checks of one round of the loop: the length of the label, its first and its last character, and those
    between. -/
def checkLabel (name : List Char) (begin stop : Nat) : Bool :=
  decide (Config.minAccountNameLength ≤ stop - begin) &&
    isLetter (name.getD begin '\x00') &&
    (isLetter (name.getD (stop - 1) '\x00') || isDigit (name.getD (stop - 1) '\x00')) &&
    (List.range' (begin + 1) (stop - 1 - (begin + 1))).all (fun i =>
      isLetter (name.getD i '\x00') || isDigit (name.getD i '\x00') || decide (name.getD i '\x00' = '-'))

/-- The end of the label that starts at `begin`. -/
def labelEnd (name : List Char) (begin : Nat) : Nat := (findFirstOf '.' name begin).getD name.length

theorem labelEnd_le (name : List Char) (begin : Nat) : labelEnd name begin ≤ name.length := by
  unfold labelEnd findFirstOf
  cases h : (name.drop begin).findIdx? (fun d => decide (d = '.')) with
  | none => exact Nat.le_refl _
  | some k =>
      have hk := (List.findIdx?_eq_some_iff_findIdx_eq.mp h).1
      rw [List.length_drop] at hk
      show begin + k ≤ name.length
      omega

/-- The loop. -/
def scanLabels (name : List Char) (begin : Nat) : Bool :=
  if hcheck : checkLabel name begin (labelEnd name begin) = true then
    if labelEnd name begin = name.length then true else scanLabels name (labelEnd name begin + 1)
  else false
termination_by name.length + 1 - begin
decreasing_by
  have hlen : 2 ≤ labelEnd name begin - begin := by
    simp only [checkLabel, Bool.and_eq_true, decide_eq_true_eq] at hcheck
    exact hcheck.1.1.1
  have hle := labelEnd_le name begin
  omega

def isValidAccountName (name : List Char) : Bool :=
  if name.length < Config.minAccountNameLength then false
  else if Config.maxAccountNameLength < name.length then false
  else scanLabels name 0

/-! ## The grammar -/

/-- **A label**: a letter, then letters, digits and hyphens, then a letter or digit. -/
def Label (l : List Char) : Prop :=
  Config.minAccountNameLength ≤ l.length ∧ ∃ first middle last, l = first :: (middle ++ [last]) ∧
    isLetter first = true ∧ (isLetter last = true ∨ isDigit last = true) ∧
    ∀ c ∈ middle, isLetter c = true ∨ isDigit c = true ∨ c = '-'

/-- **One or more labels, with a dot between two of them.** -/
def LabelSequence (s : List Char) : Prop :=
  ∃ labels, labels ≠ [] ∧ (∀ l ∈ labels, Label l) ∧ ['.'].intercalate labels = s

theorem Label.dot_not_mem {l : List Char} (h : Label l) : '.' ∉ l := by
  obtain ⟨-, first, middle, last, rfl, hfirst, hlast, hmiddle⟩ := h
  have hletter : isLetter '.' = false := by decide
  have hdigit : isDigit '.' = false := by decide
  intro hdot
  simp only [List.mem_cons, List.mem_append, List.not_mem_nil, or_false] at hdot
  rcases hdot with rfl | hdot | rfl
  · exact absurd hfirst (by simp [hletter])
  · exact absurd (hmiddle _ hdot) (by simp [hletter, hdigit])
  · exact absurd hlast (by simp [hletter, hdigit])

/-- **The labels are what is between the dots.** -/
theorem labelSequence_iff (s : List Char) : LabelSequence s ↔ ∀ l ∈ s.splitOn '.', Label l := by
  constructor
  · rintro ⟨labels, hne, hlabels, rfl⟩
    rw [List.splitOn_intercalate '.' (fun l hl => (hlabels l hl).dot_not_mem) hne]
    exact hlabels
  · intro h
    exact ⟨s.splitOn '.', List.splitOn_ne_nil _ _, h, List.intercalate_splitOn '.'⟩

/-! ## The loop -/

theorem getD_drop (name : List Char) (begin i : Nat) :
    (name.drop begin).getD i '\x00' = name.getD (begin + i) '\x00' := by
  rw [List.getD_eq_getElem?_getD, List.getD_eq_getElem?_getD, List.getElem?_drop]

/-- **The checks by index are the grammar of a label.** -/
theorem checkLabel_iff {name l rest : List Char} {begin : Nat} (hl : name.drop begin = l ++ rest) :
    checkLabel name begin (begin + l.length) = true ↔ Label l := by
  have hget : ∀ i < l.length, name.getD (begin + i) '\x00' = l.getD i '\x00' := by
    intro i hi
    rw [← getD_drop, hl, List.getD_append _ _ _ _ hi]
  have hlen : begin + l.length - begin = l.length := by omega
  unfold checkLabel Label
  simp only [Bool.and_eq_true, Bool.or_eq_true, decide_eq_true_eq, List.all_eq_true, List.mem_range'_1, hlen, and_assoc]
  refine and_congr_right fun hmin => ?_
  have htwo : 2 ≤ l.length := hmin
  -- a list of two or more has a first, a last and what is between them
  obtain ⟨first, middle, last, rfl⟩ : ∃ first middle last, l = first :: (middle ++ [last]) := by
    obtain ⟨first, tail, rfl⟩ := List.exists_cons_of_length_pos (by omega : 0 < l.length)
    have htail : tail ≠ [] := by
      rintro rfl
      exact absurd htwo (by simp)
    exact ⟨first, tail.dropLast, tail.getLast htail, by rw [List.dropLast_concat_getLast]⟩
  have hsize : (first :: (middle ++ [last])).length = middle.length + 2 := by simp
  rw [hsize] at hget ⊢
  have hfirst : name.getD begin '\x00' = first := hget 0 (by omega)
  have hlast : name.getD (begin + (middle.length + 2) - 1) '\x00' = last := by
    have hidx : begin + (middle.length + 2) - 1 = begin + (middle.length + 1) := by omega
    rw [hidx, hget _ (by omega), List.getD_cons_succ, List.getD_append_right _ _ _ _ (Nat.le_refl _), Nat.sub_self]
    rfl
  have hmiddle : ∀ i (hi : i < middle.length), name.getD (begin + 1 + i) '\x00' = middle[i] := by
    intro i hi
    have hidx : begin + 1 + i = begin + (i + 1) := by omega
    rw [hidx, hget _ (by omega), List.getD_cons_succ, List.getD_append _ _ _ _ hi, List.getD_eq_getElem _ _ hi]
  rw [hfirst, hlast]
  constructor
  · rintro ⟨hf, hl, hm⟩
    refine ⟨first, middle, last, rfl, hf, hl, fun c hc => ?_⟩
    obtain ⟨i, hi, rfl⟩ := List.getElem_of_mem hc
    have hin := hm (begin + 1 + i) ⟨by omega, by omega⟩
    rw [hmiddle i hi, or_assoc] at hin
    exact hin
  · rintro ⟨first', middle', last', heq, hf, hl, hm⟩
    obtain ⟨rfl, htail⟩ := List.cons.inj heq
    obtain ⟨rfl, hlast'⟩ := List.append_inj' htail rfl
    obtain rfl : last = last' := by simpa using hlast'
    refine ⟨hf, hl, fun j hj => ?_⟩
    obtain ⟨i, rfl⟩ := Nat.exists_eq_add_of_le hj.1
    have hi : i < middle.length := by omega
    rw [hmiddle i hi, or_assoc]
    exact hm _ (List.getElem_mem hi)

/-- The label that starts at `begin`: up to the next dot, or all there is. -/
theorem labelEnd_cases (name : List Char) {begin : Nat} (hbegin : begin ≤ name.length) :
    ('.' ∉ name.drop begin ∧ labelEnd name begin = begin + (name.drop begin).length ∧
      labelEnd name begin = name.length) ∨
    ∃ l, '.' ∉ l ∧ name.drop begin = l ++ '.' :: name.drop (begin + l.length + 1) ∧
      labelEnd name begin = begin + l.length ∧ labelEnd name begin < name.length := by
  unfold labelEnd findFirstOf
  cases h : (name.drop begin).findIdx? (fun d => decide (d = '.')) with
  | none =>
      refine .inl ⟨fun hdot => ?_, ?_, rfl⟩
      · exact absurd (List.findIdx?_eq_none_iff.mp h '.' hdot) (by simp)
      · rw [List.length_drop]
        show name.length = _
        omega
  | some k =>
      obtain ⟨hk, hdot, hbefore⟩ := List.findIdx?_eq_some_iff_getElem.mp h
      have hklen : (name.drop begin).length = name.length - begin := List.length_drop
      have hchar : (name.drop begin)[k] = '.' := by simpa using hdot
      refine .inr ⟨(name.drop begin).take k, ?_, ?_, ?_, ?_⟩
      · intro hmem
        obtain ⟨i, hi, heq⟩ := List.getElem_of_mem hmem
        have hik : i < k := by
          rw [List.length_take] at hi
          omega
        rw [List.getElem_take] at heq
        exact absurd (hbefore i hik) (by simp [heq])
      · have hsplit := List.take_append_drop k (name.drop begin)
        rw [List.drop_eq_getElem_cons hk, hchar, List.drop_drop] at hsplit
        rw [List.length_take_of_le (Nat.le_of_lt hk), Nat.add_assoc]
        exact hsplit.symm
      · rw [List.length_take_of_le (Nat.le_of_lt hk)]
        rfl
      · show begin + k < name.length
        omega

/-- **The loop accepts the sequences of labels.** -/
theorem scanLabels_iff (name : List Char) {begin : Nat} (hbegin : begin ≤ name.length) :
    scanLabels name begin = true ↔ LabelSequence (name.drop begin) := by
  induction hn : name.length - begin using Nat.strongRecOn generalizing begin with
  | ind n ih =>
      rw [labelSequence_iff, scanLabels]
      rcases labelEnd_cases name hbegin with ⟨hdot, hend, hlast⟩ | ⟨l, hdot, hl, hend, hmore⟩
      · -- the last label
        have hcheck : checkLabel name begin (begin + (name.drop begin).length) = true ↔ Label (name.drop begin) :=
          checkLabel_iff (List.append_nil (name.drop begin)).symm
        rw [List.splitOn_eq_singleton hdot, List.forall_mem_singleton, ← hcheck, ← hend]
        split
        · next h => exact ⟨fun _ => h, fun _ => rfl⟩
        · next h => simp [h]
      · have hcheck := checkLabel_iff hl
        have hsplit : (name.drop begin).splitOn '.' = l :: (name.drop (begin + l.length + 1)).splitOn '.' := by
          conv_lhs => rw [hl]
          exact List.splitOn_append_cons_self_of_not_mem hdot _
        rw [hend] at hmore
        have hnext : begin + l.length + 1 ≤ name.length := by omega
        have hrec := ih (name.length - (begin + l.length + 1)) (by omega) hnext rfl
        rw [hsplit, List.forall_mem_cons, ← hcheck, ← labelSequence_iff, ← hrec, hend]
        split
        · next h => simp [Nat.ne_of_lt hmore, h]
        · next h => simp [h]

/-- **The account names**: within the bounds on the length, and a sequence of labels. -/
theorem isValidAccountName_iff (name : List Char) :
    isValidAccountName name = true ↔
      Config.minAccountNameLength ≤ name.length ∧ name.length ≤ Config.maxAccountNameLength ∧ LabelSequence name := by
  have hscan := scanLabels_iff name (Nat.zero_le _)
  rw [List.drop_zero] at hscan
  unfold isValidAccountName
  rw [← hscan]
  split
  · next hshort => simp [Nat.not_le.mpr hshort]
  · next hmin =>
      split
      · next hlong => simp [Nat.not_le.mpr hlong]
      · next hmax => simp [Nat.not_lt.mp hmin, Nat.not_lt.mp hmax]

end Names

end VizNode
