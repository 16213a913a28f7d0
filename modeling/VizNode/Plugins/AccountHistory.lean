import VizNode.Protocol
import Mathlib.Order.Defs.LinearOrder
import Mathlib.Data.List.Basic
import Mathlib.Data.String.Basic

/-!
# `VizNode.Plugins.AccountHistory` — is the history of an account recorded, numbered and paged?

The plugin keeps an entry for every operation and every account it concerns, with a sequence number of its own
for each account, and an object that says from which number to which the entries of an account go. Old entries
are purged by the number of their block.

**Numbering and paging are right** until a sequence number passes 32 bits: the entries of an account come in the
order of their blocks, so a purge takes away the oldest of them, and what is left is still numbered one by one.
A page goes down from where it is asked for, without a gap, so the next page starts below it (`walk_visits`).

**The ranges of accounts to be tracked are not looked up right.** The lookup takes the first range that starts *at
or behind* the account, which contains it only if it starts with it. An account inside a range is not recorded
(`recorded_iff`).

## Contents
- **The plugin.** `trackedAccounts`, `record`, `onOperation`, `purgeOldHistory`, `getAccountHistory`.
- **Tracking.** `isTracked_iff`.
- **Numbering.** `Numbered`, `Sound`; what an operation and a purge keep.
- **Paging.** `page_eq`, `walk_visits`.
- **Runs.** `history_correct`.
-/

namespace VizNode

namespace AccountHistory

/-! ## The plugin -/

/-- `account_history_object`. -/
structure Entry (A : Type) where
  account  : A
  block    : Nat
  sequence : Nat
  op       : Nat
deriving DecidableEq, Repr

/-- `account_range_object`, without the account. -/
structure AccountRange where
  startSequence : Nat
  endSequence   : Nat
deriving DecidableEq, Repr

/-- `operation_object`: what the history refers to. -/
structure StoredOp where
  id    : Nat
  block : Nat
deriving DecidableEq, Repr

/-- The options of the plugin; `history-count-blocks` is shared with the operation history. -/
structure Options (A : Type) where
  trackAccountRange  : List (A × A) := []
  historyCountBlocks : Nat := 2 ^ 32 - 1

/-- **The two histories**, and the number of the block that is being applied. -/
structure History (A : Type) where
  currentBlock : Nat
  nextOpId     : Nat := 0
  operations   : List StoredOp := []
  entries      : List (Entry A) := []
  ranges       : A → Option AccountRange := fun _ => none

/-- `HistoryError`: the assertions of `get_account_history`. -/
inductive HistoryError where
  | accountNotFound | fromTooLow | fromTooHigh | limitTooHigh | limitZero
deriving DecidableEq, Repr

variable {A : Type} [LinearOrder A]

/-- Insertion into a map that is sorted by its keys: a second pair with the same key is dropped. -/
def insertPair (r : A × A) : List (A × A) → List (A × A)
  | []      => [r]
  | s :: ss => if r.1 < s.1 then r :: s :: ss else if s.1 < r.1 then s :: insertPair r ss else s :: ss

/-- `tracked_accounts`. -/
def trackedAccounts (o : Options A) : List (A × A) := o.trackAccountRange.foldl (fun m r => insertPair r m) []

/-- The test of `on_operation` for one account. -/
def isTracked (o : Options A) (a : A) : Bool :=
  if (trackedAccounts o).length = 0 then true
  else match (trackedAccounts o).find? (fun r => decide (a ≤ r.1)) with
    | none   => false
    | some r => decide (r.1 ≤ a ∧ a ≤ r.2)

def entriesOf (h : History A) (a : A) : List (Entry A) := h.entries.filter (fun e => decide (e.account = a))

/-- The highest sequence number of the account. -/
def lastSequence (h : History A) (a : A) : Option Nat := ((entriesOf h a).map (·.sequence)).max?

/-- `operation_visitor`: one entry. It throws when the account has an entry of this number. -/
def record (op : Nat) (a : A) (h : History A) : Option (History A) :=
  let sequence := match lastSequence h a with
    | some m => (m + 1) % 2 ^ 32
    | none   => 0
  if (entriesOf h a).any (fun e => decide (e.sequence = sequence)) then none
  else some { h with
    entries := h.entries ++ [{ account := a, block := h.currentBlock, sequence := sequence, op := op }]
    ranges  := Function.update h.ranges a (some (match h.ranges a with
      | none   => { startSequence := sequence, endSequence := sequence }
      | some r => { r with endSequence := sequence })) }

/-- The loop of `on_operation`; an exception ends it, and nobody hears of it. -/
def recordAll (o : Options A) (op : Nat) : List A → History A → History A
  | [],      h => h
  | a :: as, h =>
      if isTracked o a then
        match record op a h with
        | none    => h
        | some h' => recordAll o op as h'
      else recordAll o op as h

/-- An operation that concerns these accounts. `stored` says whether the operation history wants it. -/
def onOperation (o : Options A) (impacted : List A) (stored : Bool) (h : History A) : History A :=
  if stored then
    recordAll o h.nextOpId impacted
      { h with
        nextOpId   := h.nextOpId + 1
        operations := h.operations ++ [{ id := h.nextOpId, block := h.currentBlock }] }
  else h

/-- `get_min_keep_block`. -/
def minKeepBlock (o : Options A) (headBlock : Nat) : Nat :=
  if o.historyCountBlocks ≤ headBlock then headBlock - o.historyCountBlocks else 0

/-- What a purge makes of the range of an account whose entries with these numbers are gone. -/
def purgeRange (gone : List Nat) (r : AccountRange) : Option AccountRange :=
  match gone.max? with
  | none   => some r
  | some m =>
      let newStart := (m + 1) % 2 ^ 32
      if r.endSequence < newStart then none
      else if r.startSequence < newStart then some { r with startSequence := newStart }
      else some r

/-- `purge_old_history`. -/
def purgeOldHistory (o : Options A) (headBlock : Nat) (h : History A) : History A :=
  -- both plugins have the same option, so the block the operation history needs is the same
  let needBlock := minKeepBlock o headBlock
  if needBlock = 0 then h
  else { h with
    entries := h.entries.filter (fun e => !decide (e.block ≤ needBlock))
    ranges  := fun a => (h.ranges a).bind (purgeRange
      (((entriesOf h a).filter (fun e => decide (e.block ≤ needBlock))).map (·.sequence))) }

/-- `purge_old_history` of the operation history. -/
def purgeOperations (o : Options A) (headBlock : Nat) (h : History A) : History A :=
  let needBlock := minKeepBlock o headBlock
  if needBlock = 0 then h
  else { h with operations := h.operations.filter (fun p => !decide (p.block ≤ needBlock)) }

/-- `get_account_history`, whose result is the sequence numbers with their operations. -/
def getAccountHistory (h : History A) (a : A) (first limit : Nat) : Except HistoryError (List (Nat × Nat)) :=
  match h.ranges a with
  | none   => .error .accountNotFound
  | some r =>
      if first ≠ 2 ^ 32 - 1 ∧ first < r.startSequence then .error .fromTooLow
      else if first ≠ 2 ^ 32 - 1 ∧ r.endSequence < first then .error .fromTooHigh
      else if 1000 < limit then .error .limitTooHigh
      else if limit = 0 then .error .limitZero
      else
        let actual := if first = 2 ^ 32 - 1 then r.endSequence else first
        -- the index has the higher numbers of an account first
        match (((entriesOf h a).map (·.sequence)).filter (fun n => decide (n ≤ actual))).max? with
        | none     => .ok []
        | some top =>
            let low := if limit ≤ top then top - limit else 0
            let low := if low < r.startSequence ∧ 0 < r.startSequence then r.startSequence - 1 else low
            .ok (((entriesOf h a).filter (fun e => decide (low ≤ e.sequence ∧ e.sequence ≤ top))).filterMap fun e =>
              if h.operations.any (fun p => decide (p.id = e.op)) then some (e.sequence, e.op) else none)

/-- A client that walks the history of an account back: the next page ends below the lowest number it has seen. -/
def walk (h : History A) (a : A) : List Nat → Nat → List (Nat × Nat)
  | [],              _     => []
  | limit :: limits, first =>
      match getAccountHistory h a first limit with
      | .error _ => []
      | .ok page =>
          match (page.map (·.1)).min? with
          | none   => []
          | some m => page ++ (if m = 0 then [] else walk h a limits (m - 1))

/-! ## What may happen -/

/-- What the plugins are told. -/
inductive Event (A : Type) where
  | block
  | operation (impacted : List A) (distinct : impacted.Nodup) (stored : Bool)
  | applied
  | purge (headBlock : Nat)

/-- **One event.** When a block is applied, both histories are purged. -/
def step (o : Options A) (h : History A) : Event A → History A
  | .block                       => { h with currentBlock := h.currentBlock + 1 }
  | .operation impacted _ stored => onOperation o impacted stored h
  | .applied                     => purgeOldHistory o h.currentBlock (purgeOperations o h.currentBlock h)
  | .purge headBlock             => purgeOldHistory o headBlock h

/-- No entry with the last number of 32 bits is purged. -/
def KeepsLast (o : Options A) (headBlock : Nat) (h : History A) : Prop :=
  ∀ e ∈ h.entries, minKeepBlock o headBlock ≠ 0 → e.block ≤ minKeepBlock o headBlock → e.sequence ≠ 2 ^ 32 - 1

/-- **The numbers fit**: no account is given a number behind the last one. -/
def Fits (o : Options A) (h : History A) : Event A → Prop
  | .block                       => True
  | .operation impacted _ stored =>
      stored = true → ∀ a ∈ impacted, isTracked o a = true → lastSequence h a ≠ some (2 ^ 32 - 1)
  | .applied                     => KeepsLast o h.currentBlock h
  | .purge headBlock             => KeepsLast o headBlock h

/-- **The states the plugins come to** from nothing, whatever they are told, as long as the numbers fit. -/
inductive Reaches (o : Options A) : History A → Prop where
  | start (block : Nat) : Reaches o { currentBlock := block }
  | step {h : History A} {e : Event A} (hr : Reaches o h) (hfits : Fits o h e) : Reaches o (step o h e)

/-! ## Tracking -/

/-- The account is in one of the ranges, or there are none. -/
def Tracked (o : Options A) (a : A) : Prop :=
  o.trackAccountRange = [] ∨ ∃ r ∈ o.trackAccountRange, r.1 ≤ a ∧ a ≤ r.2

/-- The first range that starts with the account does not end before it. -/
def Hit (o : Options A) (a : A) : Prop :=
  o.trackAccountRange = [] ∨ ∃ r, o.trackAccountRange.find? (fun r => decide (r.1 = a)) = some r ∧ a ≤ r.2

theorem insertPair_ne_nil (r : A × A) (m : List (A × A)) : insertPair r m ≠ [] := by
  cases m with
  | nil => simp [insertPair]
  | cons s ss =>
      unfold insertPair
      split
      · simp
      · split <;> simp

theorem mem_insertPair {r x : A × A} {m : List (A × A)} (h : x ∈ insertPair r m) : x = r ∨ x ∈ m := by
  induction m with
  | nil => exact .inl (List.mem_singleton.mp h)
  | cons s ss ih =>
      unfold insertPair at h
      split at h
      · exact List.mem_cons.mp h
      · split at h
        · rcases List.mem_cons.mp h with rfl | h
          · exact .inr (List.mem_cons_self ..)
          · rcases ih h with rfl | h
            · exact .inl rfl
            · exact .inr (List.mem_cons_of_mem _ h)
        · exact .inr h

/-- The map stays sorted. -/
theorem insertPair_sorted {r : A × A} {m : List (A × A)} (h : m.Pairwise (fun x y => x.1 < y.1)) :
    (insertPair r m).Pairwise (fun x y => x.1 < y.1) := by
  induction m with
  | nil => exact List.pairwise_singleton _ _
  | cons s ss ih =>
      obtain ⟨hs, hss⟩ := List.pairwise_cons.mp h
      unfold insertPair
      split
      · next hlt =>
          refine List.pairwise_cons.mpr ⟨fun x hx => ?_, h⟩
          rcases List.mem_cons.mp hx with rfl | hx
          · exact hlt
          · exact lt_trans hlt (hs x hx)
      · split
        · next hlt =>
            refine List.pairwise_cons.mpr ⟨fun x hx => ?_, ih hss⟩
            rcases mem_insertPair hx with rfl | hx
            · exact hlt
            · exact hs x hx
        · exact h

/-- **A key keeps its first pair.** -/
theorem find_insertPair (r : A × A) (m : List (A × A)) (hm : m.Pairwise (fun x y => x.1 < y.1)) (a : A) :
    (insertPair r m).find? (fun x => decide (x.1 = a)) =
      (m.find? (fun x => decide (x.1 = a))).or (if r.1 = a then some r else none) := by
  induction m with
  | nil =>
      unfold insertPair
      rw [List.find?_singleton]
      by_cases ha : r.1 = a <;> simp [ha]
  | cons s ss ih =>
      obtain ⟨hs, hss⟩ := List.pairwise_cons.mp hm
      unfold insertPair
      split
      · next hlt =>
          by_cases ha : r.1 = a
          · -- every other key is higher
            have hnone : (s :: ss).find? (fun x => decide (x.1 = a)) = none := by
              refine List.find?_eq_none.mpr fun x hx => ?_
              have hlt' : r.1 < x.1 := by
                rcases List.mem_cons.mp hx with rfl | hx
                · exact hlt
                · exact lt_trans hlt (hs x hx)
              simpa [← ha] using hlt'.ne'
            rw [hnone, List.find?_cons_of_pos (by simp [ha]), if_pos ha]
            rfl
          · rw [List.find?_cons_of_neg (by simp [ha]), if_neg ha, Option.or_none]
      · next hge =>
          by_cases hsa : s.1 = a
          · split
            · rw [List.find?_cons_of_pos (by simp [hsa]), List.find?_cons_of_pos (by simp [hsa])]
              rfl
            · rw [List.find?_cons_of_pos (by simp [hsa])]
              rfl
          · split
            · rw [List.find?_cons_of_neg (by simp [hsa]), List.find?_cons_of_neg (by simp [hsa]), ih hss]
            · next hle =>
                have hra : r.1 ≠ a := by
                  intro hra
                  exact hsa ((le_antisymm (not_lt.mp hge) (not_lt.mp hle)).trans hra)
                rw [if_neg hra, Option.or_none]

/-- **The map of the ranges**: sorted, and for each start the first range that was given. -/
theorem trackedAccounts_spec (o : Options A) :
    (trackedAccounts o).Pairwise (fun x y => x.1 < y.1) ∧
      ∀ a, (trackedAccounts o).find? (fun x => decide (x.1 = a)) =
        o.trackAccountRange.find? (fun x => decide (x.1 = a)) := by
  have hfold : ∀ (rs m : List (A × A)), m.Pairwise (fun x y => x.1 < y.1) →
      (rs.foldl (fun m r => insertPair r m) m).Pairwise (fun x y => x.1 < y.1) ∧
        ∀ a, (rs.foldl (fun m r => insertPair r m) m).find? (fun x => decide (x.1 = a)) =
          (m.find? (fun x => decide (x.1 = a))).or (rs.find? (fun x => decide (x.1 = a))) := by
    intro rs
    induction rs with
    | nil => exact fun m hm => ⟨hm, fun a => (Option.or_none).symm⟩
    | cons r rs ih =>
        intro m hm
        obtain ⟨hsorted, hfind⟩ := ih (insertPair r m) (insertPair_sorted hm)
        refine ⟨hsorted, fun a => ?_⟩
        rw [List.foldl_cons, hfind, find_insertPair r m hm, Option.or_assoc]
        congr 1
        by_cases ha : r.1 = a
        · rw [if_pos ha, List.find?_cons_of_pos (by simp [ha])]
          rfl
        · rw [if_neg ha, List.find?_cons_of_neg (by simp [ha])]
          rfl
  obtain ⟨hsorted, hfind⟩ := hfold o.trackAccountRange [] List.Pairwise.nil
  exact ⟨hsorted, fun a => hfind a⟩

/-- In a sorted map, what starts at or behind an account starts with it only where its own pair is. -/
theorem find_lowerBound {m : List (A × A)} (hm : m.Pairwise (fun x y => x.1 < y.1)) (a : A) (r : A × A) :
    (m.find? (fun x => decide (a ≤ x.1)) = some r ∧ r.1 ≤ a) ↔ m.find? (fun x => decide (x.1 = a)) = some r := by
  induction m with
  | nil => simp
  | cons s ss ih =>
      obtain ⟨hs, hss⟩ := List.pairwise_cons.mp hm
      by_cases hsa : s.1 = a
      · rw [List.find?_cons_of_pos (by simp [hsa]), List.find?_cons_of_pos (by simp [hsa])]
        constructor
        · exact fun h => h.1
        · intro h
          obtain rfl := Option.some.inj h
          exact ⟨rfl, hsa.le⟩
      · rw [List.find?_cons_of_neg (p := fun x : A × A => decide (x.1 = a)) (by simp [hsa])]
        by_cases hle : a ≤ s.1
        · rw [List.find?_cons_of_pos (by simp [hle])]
          constructor
          · rintro ⟨h, hra⟩
            obtain rfl := Option.some.inj h
            exact absurd (le_antisymm hra hle) hsa
          · intro h
            have hmem := List.mem_of_find?_eq_some h
            have hra : r.1 = a := by simpa using List.find?_some h
            exact absurd (hs r hmem) (not_lt.mpr (hra ▸ hle))
        · rw [List.find?_cons_of_neg (by simp [hle])]
          exact ih hss

/-- **What the plugin tracks.** -/
theorem isTracked_iff (o : Options A) (a : A) : isTracked o a = true ↔ Hit o a := by
  obtain ⟨hsorted, hfind⟩ := trackedAccounts_spec o
  have hempty : (trackedAccounts o).length = 0 ↔ o.trackAccountRange = [] := by
    rw [List.length_eq_zero_iff]
    constructor
    · intro h
      cases hr : o.trackAccountRange with
      | nil => rfl
      | cons r rs =>
          have hr' := hfind r.1
          rw [h, hr, List.find?_cons_of_pos (by simp)] at hr'
          exact absurd hr' (by simp)
    · intro h
      unfold trackedAccounts
      rw [h]
      rfl
  unfold isTracked Hit
  by_cases hnil : o.trackAccountRange = []
  · rw [if_pos (hempty.mpr hnil)]
    simp [hnil]
  · rw [if_neg (fun h => hnil (hempty.mp h))]
    constructor
    · intro h
      split at h
      · exact absurd h (by simp)
      · next r hr =>
          have hra := of_decide_eq_true h
          exact .inr ⟨r, (hfind a) ▸ (find_lowerBound hsorted a r).mp ⟨hr, hra.1⟩, hra.2⟩
    · rintro (h | ⟨r, hr, hle⟩)
      · exact absurd h hnil
      · obtain ⟨hlower, hra⟩ := (find_lowerBound hsorted a r).mpr ((hfind a).trans hr)
        rw [hlower]
        exact decide_eq_true ⟨hra, hle⟩

/-- What is tracked is in a range. -/
theorem Hit.tracked {o : Options A} {a : A} (h : Hit o a) : Tracked o a := by
  rcases h with h | ⟨r, hr, hle⟩
  · exact .inl h
  · have hra : r.1 = a := by simpa using List.find?_some hr
    exact .inr ⟨r, List.mem_of_find?_eq_some hr, hra.le, hle⟩

/-! ## Numbering -/

/-- The entries of the account are numbered from `start` on, there are `n` of them, and its range says so. -/
structure Numbered (h : History A) (a : A) (start n : Nat) : Prop where
  numbers : (entriesOf h a).map (·.sequence) = List.range' start n
  range   : h.ranges a = if n = 0 then none else some { startSequence := start, endSequence := start + n - 1 }
  fits    : start + n ≤ 2 ^ 32

/-- **The histories in order.** -/
structure Sound (h : History A) : Prop where
  numbered : ∀ a, ∃ start n, Numbered h a start n
  sorted   : h.entries.Pairwise (fun e e' => e.block ≤ e'.block)
  current  : ∀ e ∈ h.entries, e.block ≤ h.currentBlock
  stored   : ∀ e ∈ h.entries, { id := e.op, block := e.block } ∈ h.operations
  fresh    : ∀ p ∈ h.operations, p.id < h.nextOpId

theorem mem_entriesOf {h : History A} {a : A} {e : Entry A} : e ∈ entriesOf h a ↔ e ∈ h.entries ∧ e.account = a := by
  simp [entriesOf]

/-- The highest of consecutive numbers. -/
theorem max_range' (s n : Nat) : (List.range' s (n + 1)).max? = some (s + n) := by
  refine List.max?_eq_some_iff.mpr ⟨?_, fun x hx => ?_⟩
  · rw [List.mem_range'_1]
    omega
  · rw [List.mem_range'_1] at hx
    omega

/-- Consecutive numbers within bounds are consecutive. -/
theorem filter_range' {s n low high : Nat} (hlow : s ≤ low) (hle : low ≤ high + 1) (hhigh : high < s + n) :
    (List.range' s n).filter (fun x => decide (low ≤ x ∧ x ≤ high)) = List.range' low (high + 1 - low) := by
  have hsplit : List.range' s n =
      List.range' s (low - s) ++ (List.range' low (high + 1 - low) ++ List.range' (high + 1) (s + n - (high + 1))) := by
    have h₁ : List.range' low (high + 1 - low) ++ List.range' (high + 1) (s + n - (high + 1)) =
        List.range' low (s + n - low) := by
      have hnext : low + (high + 1 - low) = high + 1 := by omega
      have happend := List.range'_append_1 (s := low) (m := high + 1 - low) (n := s + n - (high + 1))
      rw [hnext] at happend
      rw [happend]
      congr 1
      omega
    have hnext : s + (low - s) = low := by omega
    have happend := List.range'_append_1 (s := s) (m := low - s) (n := s + n - low)
    rw [hnext] at happend
    rw [h₁, happend]
    congr 1
    omega
  have hbelow : (List.range' s (low - s)).filter (fun x => decide (low ≤ x ∧ x ≤ high)) = [] := by
    refine List.filter_eq_nil_iff.mpr fun x hx => ?_
    rw [List.mem_range'_1] at hx
    simp
    omega
  have habove : (List.range' (high + 1) (s + n - (high + 1))).filter (fun x => decide (low ≤ x ∧ x ≤ high)) = [] := by
    refine List.filter_eq_nil_iff.mpr fun x hx => ?_
    rw [List.mem_range'_1] at hx
    simp
    omega
  have hwithin : (List.range' low (high + 1 - low)).filter (fun x => decide (low ≤ x ∧ x ≤ high)) =
      List.range' low (high + 1 - low) := by
    refine List.filter_eq_self.mpr fun x hx => ?_
    rw [List.mem_range'_1] at hx
    simp
    omega
  rw [hsplit, List.filter_append, List.filter_append, hbelow, habove, hwithin, List.nil_append, List.append_nil]

theorem Numbered.lastSequence {h : History A} {a : A} {start n : Nat} (hn : Numbered h a start n) :
    lastSequence h a = if n = 0 then none else some (start + n - 1) := by
  unfold AccountHistory.lastSequence
  rw [hn.numbers]
  cases n with
  | zero => rfl
  | succ n => exact max_range' start n

/-- **An entry is recorded under the next number.** -/
theorem record_numbered {h : History A} {a : A} {start n : Nat} (op : Nat) (hn : Numbered h a start n)
    (hfits : lastSequence h a ≠ some (2 ^ 32 - 1)) :
    ∃ h' sequence, record op a h = some h' ∧
      h'.entries = h.entries ++ [{ account := a, block := h.currentBlock, sequence := sequence, op := op }] ∧
      h'.currentBlock = h.currentBlock ∧ h'.operations = h.operations ∧ h'.nextOpId = h.nextOpId ∧
      Numbered h' a (if n = 0 then 0 else start) (n + 1) ∧
      ∀ b ≠ a, ∀ s m, Numbered h b s m → Numbered h' b s m := by
  have hlast := hn.lastSequence
  have hother : ∀ (e : Entry A) (r : Option AccountRange), e.account = a → ∀ b ≠ a, ∀ s m, Numbered h b s m →
      Numbered { h with entries := h.entries ++ [e], ranges := Function.update h.ranges a r } b s m := by
    intro e r he b hb s m hm
    have hent : entriesOf { h with entries := h.entries ++ [e], ranges := Function.update h.ranges a r } b =
        entriesOf h b := by
      unfold entriesOf
      rw [List.filter_append, List.filter_singleton, decide_eq_false (he ▸ hb.symm)]
      exact List.append_nil _
    refine ⟨?_, ?_, hm.fits⟩
    · rw [hent]
      exact hm.numbers
    · show Function.update h.ranges a r b = _
      rw [Function.update_of_ne hb]
      exact hm.range
  have hself : ∀ (e : Entry A) (r : Option AccountRange), e.account = a →
      (entriesOf { h with entries := h.entries ++ [e], ranges := Function.update h.ranges a r } a).map (·.sequence) =
        List.range' start n ++ [e.sequence] := by
    intro e r he
    unfold entriesOf
    rw [List.filter_append, List.filter_singleton, decide_eq_true he, List.map_append]
    exact congrArg (· ++ [e.sequence]) hn.numbers
  unfold record
  cases n with
  | zero =>
      rw [hlast, if_pos rfl]
      have hnone : entriesOf h a = [] := List.map_eq_nil_iff.mp (hn.numbers.trans rfl)
      have hrange : h.ranges a = none := hn.range
      rw [hnone, hrange]
      refine ⟨_, 0, rfl, rfl, rfl, rfl, rfl, ⟨?_, ?_, ?_⟩, ?_⟩
      · rw [hself _ _ rfl]
        rfl
      · exact Function.update_self ..
      · rw [if_pos rfl]
        decide
      · exact hother _ _ rfl
  | succ n =>
      rw [hlast, if_neg (Nat.succ_ne_zero n)] at hfits
      rw [hlast, if_neg (Nat.succ_ne_zero n), if_neg (Nat.succ_ne_zero n)]
      have hbound := hn.fits
      have hne : start + (n + 1) - 1 ≠ 2 ^ 32 - 1 := fun he => hfits (congrArg some he)
      have hnext : (start + (n + 1) - 1 + 1) % 2 ^ 32 = start + (n + 1) := by
        rw [Nat.mod_eq_of_lt (by omega)]
        omega
      have hrange : h.ranges a = some { startSequence := start, endSequence := start + (n + 1) - 1 } := hn.range
      have hnew : (entriesOf h a).any (fun e => decide (e.sequence = start + (n + 1))) = false := by
        refine List.any_eq_false.mpr fun e he => ?_
        have hmem : e.sequence ∈ List.range' start (n + 1) := hn.numbers ▸ List.mem_map_of_mem he
        rw [List.mem_range'_1] at hmem
        simp
        omega
      dsimp only
      rw [hnext, hnew, hrange]
      refine ⟨_, start + (n + 1), rfl, rfl, rfl, rfl, rfl, ⟨?_, ?_, ?_⟩, ?_⟩
      · have hconcat : List.range' start (n + 1 + 1) = List.range' start (n + 1) ++ [start + 1 * (n + 1)] :=
          List.range'_concat
        rw [hself _ _ rfl, hconcat, Nat.one_mul]
      · exact Function.update_self ..
      · omega
      · exact hother _ _ rfl

/-- An entry of the block that is being applied. -/
theorem Sound.record {h : History A} (hs : Sound h) {op : Nat} {a : A}
    (hop : { id := op, block := h.currentBlock } ∈ h.operations) (hfits : lastSequence h a ≠ some (2 ^ 32 - 1)) :
    ∃ h' sequence, record op a h = some h' ∧ Sound h' ∧
      h'.entries = h.entries ++ [{ account := a, block := h.currentBlock, sequence := sequence, op := op }] ∧
      h'.currentBlock = h.currentBlock ∧ h'.operations = h.operations ∧
      ∀ b ≠ a, lastSequence h' b = lastSequence h b := by
  obtain ⟨start, n, hn⟩ := hs.numbered a
  obtain ⟨h', sequence, hrec, hentries, hblock, hops, hnext, hself, hother⟩ := record_numbered op hn hfits
  refine ⟨h', sequence, hrec, ⟨fun b => ?_, ?_, ?_, ?_, ?_⟩, hentries, hblock, hops, ?_⟩
  · by_cases hb : b = a
    · exact ⟨_, _, hb ▸ hself⟩
    · obtain ⟨s, m, hm⟩ := hs.numbered b
      exact ⟨s, m, hother b hb s m hm⟩
  · rw [hentries, List.pairwise_append]
    refine ⟨hs.sorted, List.pairwise_singleton _ _, fun e he e' he' => ?_⟩
    obtain rfl := List.mem_singleton.mp he'
    exact hs.current e he
  · rw [hentries, hblock]
    intro e he
    rcases List.mem_append.mp he with he | he
    · exact hs.current e he
    · obtain rfl := List.mem_singleton.mp he
      exact Nat.le_refl _
  · rw [hentries, hops]
    intro e he
    rcases List.mem_append.mp he with he | he
    · exact hs.stored e he
    · obtain rfl := List.mem_singleton.mp he
      exact hop
  · rw [hops, hnext]
    exact hs.fresh
  · intro b hb
    obtain ⟨s, m, hm⟩ := hs.numbered b
    rw [(hother b hb s m hm).lastSequence, hm.lastSequence]

/-- **The accounts that an operation concerns** get an entry each, if they are tracked. -/
theorem recordAll_spec {o : Options A} {op : Nat} {as : List A} {h : History A} (hs : Sound h) (hnodup : as.Nodup)
    (hop : { id := op, block := h.currentBlock } ∈ h.operations)
    (hfits : ∀ a ∈ as, isTracked o a = true → lastSequence h a ≠ some (2 ^ 32 - 1)) :
    Sound (recordAll o op as h) ∧
      ∀ a, (∃ e ∈ (recordAll o op as h).entries, e.account = a ∧ e.op = op) ↔
        (∃ e ∈ h.entries, e.account = a ∧ e.op = op) ∨ (a ∈ as ∧ isTracked o a = true) := by
  induction as generalizing h with
  | nil => exact ⟨hs, fun a => by simp [recordAll]⟩
  | cons b as ih =>
      obtain ⟨hnew, hnodup⟩ := List.nodup_cons.mp hnodup
      unfold recordAll
      by_cases hb : isTracked o b = true
      · rw [if_pos hb]
        obtain ⟨h', sequence, hrec, hs', hentries, hblock, hops, hlast⟩ :=
          hs.record hop (hfits b (List.mem_cons_self ..) hb)
        rw [hrec]
        have hfits' : ∀ a ∈ as, isTracked o a = true → lastSequence h' a ≠ some (2 ^ 32 - 1) := by
          intro a ha htracked
          have hab : a ≠ b := by
            rintro rfl
            exact hnew ha
          rw [hlast a hab]
          exact hfits a (List.mem_cons_of_mem _ ha) htracked
        obtain ⟨hsound, hrecorded⟩ := ih hs' hnodup (by rw [hblock, hops]; exact hop) hfits'
        refine ⟨hsound, fun a => (hrecorded a).trans ?_⟩
        constructor
        · rintro (⟨e, he, hea, heop⟩ | ⟨ha, htracked⟩)
          · rw [hentries] at he
            rcases List.mem_append.mp he with he | he
            · exact .inl ⟨e, he, hea, heop⟩
            · obtain rfl := List.mem_singleton.mp he
              obtain rfl : b = a := hea
              exact .inr ⟨List.mem_cons_self .., hb⟩
          · exact .inr ⟨List.mem_cons_of_mem _ ha, htracked⟩
        · rintro (⟨e, he, hea⟩ | ⟨ha, htracked⟩)
          · exact .inl ⟨e, hentries ▸ List.mem_append_left _ he, hea⟩
          · rcases List.mem_cons.mp ha with rfl | ha
            · exact .inl ⟨_, hentries ▸ List.mem_append_right _ (List.mem_singleton_self _), rfl, rfl⟩
            · exact .inr ⟨ha, htracked⟩
      · rw [if_neg hb]
        obtain ⟨hsound, hrecorded⟩ := ih hs hnodup hop fun a ha => hfits a (List.mem_cons_of_mem _ ha)
        refine ⟨hsound, fun a => (hrecorded a).trans (or_congr_right ?_)⟩
        constructor
        · exact fun ha => ⟨List.mem_cons_of_mem _ ha.1, ha.2⟩
        · rintro ⟨ha, htracked⟩
          rcases List.mem_cons.mp ha with rfl | ha
          · exact absurd htracked hb
          · exact ⟨ha, htracked⟩

/-- **An operation** is recorded for the accounts it concerns if it is stored and they are tracked. -/
theorem onOperation_spec {o : Options A} {h : History A} (hs : Sound h) {impacted : List A}
    {distinct : impacted.Nodup} {stored : Bool} (hfits : Fits o h (.operation impacted distinct stored)) :
    Sound (onOperation o impacted stored h) ∧
      ∀ a, (∃ e ∈ (onOperation o impacted stored h).entries, e.account = a ∧ e.op = h.nextOpId) ↔
        stored = true ∧ a ∈ impacted ∧ isTracked o a = true := by
  have hunused : ∀ e ∈ h.entries, e.op ≠ h.nextOpId := fun e he => Nat.ne_of_lt (hs.fresh _ (hs.stored e he))
  unfold onOperation
  by_cases hst : stored = true
  · rw [if_pos hst]
    have hs' : Sound { h with
        nextOpId   := h.nextOpId + 1
        operations := h.operations ++ [{ id := h.nextOpId, block := h.currentBlock }] } := by
      refine ⟨fun a => ?_, hs.sorted, hs.current, fun e he => List.mem_append_left _ (hs.stored e he), ?_⟩
      · obtain ⟨start, n, hn⟩ := hs.numbered a
        exact ⟨start, n, hn.numbers, hn.range, hn.fits⟩
      · intro p hp
        rcases List.mem_append.mp hp with hp | hp
        · exact Nat.lt_succ_of_lt (hs.fresh p hp)
        · obtain rfl := List.mem_singleton.mp hp
          exact Nat.lt_succ_self _
    obtain ⟨hsound, hrecorded⟩ := recordAll_spec hs' distinct
      (List.mem_append_right _ (List.mem_singleton_self _)) (fun a ha => hfits hst a ha)
    refine ⟨hsound, fun a => (hrecorded a).trans ?_⟩
    constructor
    · rintro (⟨e, he, -, heop⟩ | h)
      · exact absurd heop (hunused e he)
      · exact ⟨hst, h⟩
    · exact fun h => .inr h.2
  · rw [if_neg hst]
    refine ⟨hs, fun a => ?_⟩
    constructor
    · rintro ⟨e, he, -, heop⟩
      exact absurd heop (hunused e he)
    · exact fun h => absurd h.1 hst

omit [LinearOrder A] in
/-- In a list sorted by blocks, the old entries come first. -/
theorem purge_split {l : List (Entry A)} (hl : l.Pairwise (fun e e' => e.block ≤ e'.block)) (need : Nat) :
    l = l.filter (fun e => decide (e.block ≤ need)) ++ l.filter (fun e => !decide (e.block ≤ need)) := by
  induction l with
  | nil => rfl
  | cons e l ih =>
      obtain ⟨he, hl'⟩ := List.pairwise_cons.mp hl
      by_cases hold : e.block ≤ need
      · rw [List.filter_cons_of_pos (by simp [hold]), List.filter_cons_of_neg (by simp [hold]), List.cons_append,
          ← ih hl']
      · have hnone : l.filter (fun e => decide (e.block ≤ need)) = [] := by
          refine List.filter_eq_nil_iff.mpr fun e' he' => ?_
          have := he e' he'
          simp
          omega
        have hall : l.filter (fun e => !decide (e.block ≤ need)) = l := by
          have hsplit := ih hl'
          rw [hnone, List.nil_append] at hsplit
          exact hsplit.symm
        rw [List.filter_cons_of_neg (by simp [hold]), List.filter_cons_of_pos (by simp [hold]), hnone, hall,
          List.nil_append]

/-- **A purge takes the lowest numbers of an account**, and its range follows. -/
theorem purge_numbered {o : Options A} {headBlock : Nat} {h : History A} (hs : Sound h)
    (hkeeps : KeepsLast o headBlock h) (a : A) : ∃ start n, Numbered (purgeOldHistory o headBlock h) a start n := by
  obtain ⟨start, n, hn⟩ := hs.numbered a
  unfold purgeOldHistory
  by_cases hzero : minKeepBlock o headBlock = 0
  · rw [if_pos hzero]
    exact ⟨start, n, hn⟩
  · rw [if_neg hzero]
    generalize hneed : minKeepBlock o headBlock = need at hzero
    have hsorted : (entriesOf h a).Pairwise (fun e e' => e.block ≤ e'.block) := hs.sorted.filter _
    have hsplit := purge_split hsorted need
    generalize hgone : (entriesOf h a).filter (fun e => decide (e.block ≤ need)) = gone at hsplit
    generalize hkept : (entriesOf h a).filter (fun e => !decide (e.block ≤ need)) = kept at hsplit
    have hnumbers := hn.numbers
    rw [hsplit, List.map_append] at hnumbers
    obtain ⟨k, hk, hgonenum, hkeptnum⟩ := List.range'_eq_append_iff.mp hnumbers.symm
    rw [Nat.mul_one] at hkeptnum
    -- what is left of the account, in the new list of entries
    have hleft : (h.entries.filter (fun e => !decide (e.block ≤ need))).filter (fun e => decide (e.account = a)) = kept := by
      rw [← hkept]
      unfold entriesOf
      rw [List.filter_filter, List.filter_filter]
      exact List.filter_congr fun e _ => Bool.and_comm _ _
    refine ⟨if k = n then 0 else start + k, n - k, ?_, ?_, ?_⟩
    · show ((h.entries.filter (fun e => !decide (e.block ≤ need))).filter (fun e => decide (e.account = a))).map _ = _
      rw [hleft, hkeptnum]
      by_cases hkn : k = n
      · rw [hkn, Nat.sub_self]
        rfl
      · rw [if_neg hkn]
    · show (h.ranges a).bind (purgeRange (((entriesOf h a).filter (fun e => decide (e.block ≤ need))).map (·.sequence))) = _
      rw [hgone, hgonenum, hn.range]
      by_cases hnz : n = 0
      · have hkz : n - k = 0 := by omega
        rw [if_pos hnz, if_pos hkz]
        rfl
      · rw [if_neg hnz]
        show purgeRange _ _ = _
        unfold purgeRange
        cases k with
        | zero =>
            rw [if_neg (Nat.ne_of_lt (Nat.pos_of_ne_zero hnz)), Nat.sub_zero, if_neg hnz]
            rfl
        | succ k =>
            rw [max_range']
            have hbound := hn.fits
            -- the last number is not among those that are gone
            have hlast : start + k ≠ 2 ^ 32 - 1 := by
              intro he
              have hmem : start + k ∈ gone.map (·.sequence) := by
                rw [hgonenum, List.mem_range'_1]
                omega
              obtain ⟨e, hemem, heseq⟩ := List.mem_map.mp hmem
              rw [← hgone] at hemem
              obtain ⟨hea, heold⟩ := List.mem_filter.mp hemem
              rw [← hneed] at hzero heold
              exact hkeeps e (mem_entriesOf.mp hea).1 hzero (of_decide_eq_true heold) (heseq.trans he)
            have hnext : (start + k + 1) % 2 ^ 32 = start + (k + 1) := by
              rw [Nat.mod_eq_of_lt (by omega)]
              omega
            dsimp only
            rw [hnext]
            by_cases hkn : k + 1 = n
            · have hall : start + n - 1 < start + (k + 1) := by omega
              have hnone : n - (k + 1) = 0 := by omega
              rw [if_pos hall, if_pos hnone]
            · have hsome : ¬ start + n - 1 < start + (k + 1) := by omega
              have hless : start < start + (k + 1) := by omega
              have hmore : n - (k + 1) ≠ 0 := by omega
              rw [if_neg hsome, if_pos hless, if_neg hmore, if_neg hkn]
              congr 2
              omega
    · have hbound := hn.fits
      split <;> omega

theorem purgeOldHistory_sound {o : Options A} {headBlock : Nat} {h : History A} (hs : Sound h)
    (hkeeps : KeepsLast o headBlock h) : Sound (purgeOldHistory o headBlock h) := by
  refine ⟨purge_numbered hs hkeeps, ?_, ?_, ?_, ?_⟩ <;> unfold purgeOldHistory <;> dsimp only <;> split
  · exact hs.sorted
  · exact hs.sorted.filter _
  · exact hs.current
  · exact fun e he => hs.current e (List.mem_filter.mp he).1
  · exact hs.stored
  · exact fun e he => hs.stored e (List.mem_filter.mp he).1
  · exact hs.fresh
  · exact hs.fresh

/-- **When a block is applied** both histories let go of the same blocks. -/
theorem applied_sound {o : Options A} {h : History A} (hs : Sound h) (hkeeps : KeepsLast o h.currentBlock h) :
    Sound (purgeOldHistory o h.currentBlock (purgeOperations o h.currentBlock h)) := by
  have hpurged := purgeOldHistory_sound hs hkeeps
  unfold purgeOldHistory purgeOperations at *
  by_cases hzero : minKeepBlock o h.currentBlock = 0
  · simp only [hzero, if_true] at hpurged ⊢
    exact hpurged
  · simp only [hzero, if_false] at hpurged ⊢
    refine ⟨fun a => ?_, hpurged.sorted, hpurged.current, ?_, ?_⟩
    · obtain ⟨start, n, hn⟩ := hpurged.numbered a
      exact ⟨start, n, hn.numbers, hn.range, hn.fits⟩
    · intro e he
      have hkept := (List.mem_filter.mp he).2
      exact List.mem_filter.mpr ⟨hpurged.stored e he, hkept⟩
    · exact fun p hp => hs.fresh p (List.mem_filter.mp hp).1

/-- **The histories are in order in every state.** -/
theorem Reaches.sound {o : Options A} {h : History A} (hr : Reaches o h) : Sound h := by
  induction hr with
  | start block =>
      refine ⟨fun a => ⟨0, 0, rfl, rfl, by decide⟩, List.Pairwise.nil, ?_, ?_, ?_⟩
      · exact fun e he => absurd he List.not_mem_nil
      · exact fun e he => absurd he List.not_mem_nil
      · exact fun p hp => absurd hp List.not_mem_nil
  | @step h e _ hfits ih =>
      cases e with
      | block =>
          refine ⟨fun a => ?_, ih.sorted, fun e he => Nat.le_succ_of_le (ih.current e he), ih.stored, ih.fresh⟩
          obtain ⟨start, n, hn⟩ := ih.numbered a
          exact ⟨start, n, hn.numbers, hn.range, hn.fits⟩
      | operation impacted distinct stored => exact (onOperation_spec ih hfits).1
      | applied => exact applied_sound ih hfits
      | purge headBlock => exact purgeOldHistory_sound ih hfits

/-! ## Paging -/

/-- The entries of the account with numbers in these bounds. -/
def between (h : History A) (a : A) (low high : Nat) : List (Nat × Nat) :=
  ((entriesOf h a).filter (fun e => decide (low ≤ e.sequence ∧ e.sequence ≤ high))).map (fun e => (e.sequence, e.op))

theorem min_range' (s n : Nat) : (List.range' s (n + 1)).min? = some s := by
  refine List.min?_eq_some_iff.mpr ⟨?_, fun x hx => ?_⟩
  · rw [List.mem_range'_1]
    omega
  · rw [List.mem_range'_1] at hx
    omega

theorem Numbered.between_numbers {h : History A} {a : A} {start n : Nat} (hn : Numbered h a start n) (low high : Nat)
    (hlow : start ≤ low) (hle : low ≤ high + 1) (hhigh : high < start + n) :
    (between h a low high).map (·.1) = List.range' low (high + 1 - low) := by
  unfold between
  rw [List.map_map, ← filter_range' hlow hle hhigh, ← hn.numbers, List.filter_map]
  rfl

/-- What lies below a number and what does not are together all there is. -/
theorem between_perm (h : History A) (a : A) {low m high : Nat} (hlow : low ≤ m) (hhigh : m ≤ high) (hm : 0 < m) :
    (between h a m high ++ between h a low (m - 1)).Perm (between h a low high) := by
  unfold between
  rw [← List.map_append]
  refine List.Perm.map _ ?_
  have hsplit := List.filter_append_perm (fun e : Entry A => decide (m ≤ e.sequence))
    ((entriesOf h a).filter (fun e => decide (low ≤ e.sequence ∧ e.sequence ≤ high)))
  rw [List.filter_filter, List.filter_filter] at hsplit
  refine (List.Perm.of_eq ?_).trans hsplit
  congr 1 <;> refine List.filter_congr fun e _ => ?_
  · rw [Bool.eq_iff_iff]
    simp
    omega
  · rw [Bool.eq_iff_iff]
    simp
    omega

/-- **A page** goes down from the number it is asked for, by as many entries as the limit says and one more, or to
    the first entry there is. -/
theorem page_eq {h : History A} (hs : Sound h) {a : A} {start n : Nat} (hn : Numbered h a start n)
    {first top limit : Nat} (hstart : start ≤ top) (htop : top < start + n)
    (hfirst : first = top ∨ first = 2 ^ 32 - 1 ∧ top = start + n - 1) (hlimit : 1 ≤ limit ∧ limit ≤ 1000) :
    getAccountHistory h a first limit = .ok (between h a (max start (top - limit)) top) := by
  have hbound := hn.fits
  have hrange := hn.range
  rw [if_neg (by omega : n ≠ 0)] at hrange
  have hactual : (if first = 2 ^ 32 - 1 then start + n - 1 else first) = top := by
    split <;> omega
  have hmax : (((entriesOf h a).map (·.sequence)).filter (fun x => decide (x ≤ top))).max? = some top := by
    refine List.max?_eq_some_iff.mpr ⟨?_, fun x hx => of_decide_eq_true (List.mem_filter.mp hx).2⟩
    rw [hn.numbers, List.mem_filter, List.mem_range'_1]
    exact ⟨⟨hstart, htop⟩, decide_eq_true (Nat.le_refl _)⟩
  -- every entry has its operation
  have hops : ∀ e ∈ entriesOf h a, h.operations.any (fun p => decide (p.id = e.op)) = true := by
    intro e he
    exact List.any_eq_true.mpr ⟨_, hs.stored e (mem_entriesOf.mp he).1, decide_eq_true rfl⟩
  unfold getAccountHistory
  rw [hrange]
  dsimp only
  rw [if_neg (by omega), if_neg (by omega), if_neg (by omega), if_neg (by omega), hactual, hmax]
  dsimp only
  congr 1
  unfold between
  rw [← List.filterMap_eq_map]
  have hsub : (if limit ≤ top then top - limit else 0) = top - limit := by
    split <;> omega
  rw [hsub]
  -- the bound may be one below the first entry
  have hlow : ∀ x, start ≤ x →
      ((if top - limit < start ∧ 0 < start then start - 1 else top - limit) ≤ x ↔ max start (top - limit) ≤ x) := by
    intro x hx
    split <;> omega
  have hfilter : (entriesOf h a).filter (fun e => decide
        ((if top - limit < start ∧ 0 < start then start - 1 else top - limit) ≤ e.sequence ∧ e.sequence ≤ top)) =
      (entriesOf h a).filter (fun e => decide (max start (top - limit) ≤ e.sequence ∧ e.sequence ≤ top)) := by
    refine List.filter_congr fun e he => ?_
    have hmem : e.sequence ∈ List.range' start n := hn.numbers ▸ List.mem_map_of_mem he
    rw [List.mem_range'_1] at hmem
    rw [decide_eq_decide, hlow e.sequence hmem.1]
  rw [hfilter]
  refine List.filterMap_congr fun e he => ?_
  rw [hops e (List.mem_filter.mp he).1, if_pos rfl]
  rfl

/-- Nothing is to be had below the first entry. -/
theorem page_below {h : History A} {a : A} {start n : Nat} (hn : Numbered h a start n) (hpos : 0 < n)
    (hstart : 0 < start) (limit : Nat) : getAccountHistory h a (start - 1) limit = .error .fromTooLow := by
  have hbound := hn.fits
  have hrange := hn.range
  rw [if_neg (by omega : n ≠ 0)] at hrange
  unfold getAccountHistory
  rw [hrange]
  dsimp only
  rw [if_pos (by omega)]

/-- **Walking back**, the pages neither overlap nor leave a gap, and with enough of them the walk comes to the
    first entry. -/
theorem walk_visits {h : History A} (hs : Sound h) {a : A} {start n : Nat} (hn : Numbered h a start n)
    {limits : List Nat} {first : Nat} (top : Nat) (hstart : start ≤ top) (htop : top < start + n)
    (hfirst : first = top ∨ first = 2 ^ 32 - 1 ∧ top = start + n - 1)
    (hlimits : ∀ limit ∈ limits, 1 ≤ limit ∧ limit ≤ 1000) :
    ∃ low, start ≤ low ∧ low ≤ top + 1 ∧ (top + 1 - start ≤ limits.length → low = start) ∧
      (walk h a limits first).Perm (between h a low top) := by
  induction limits generalizing first top with
  | nil =>
      refine ⟨top + 1, by omega, Nat.le_refl _, fun hlen => ?_, ?_⟩
      · rw [List.length_nil] at hlen
        omega
      · have hnumbers := hn.between_numbers (top + 1) top (by omega) (Nat.le_refl _) htop
        rw [Nat.sub_self] at hnumbers
        rw [List.map_eq_nil_iff.mp hnumbers]
        exact List.Perm.nil
  | cons limit limits ih =>
      obtain ⟨hlimit, hlimits⟩ := List.forall_mem_cons.mp hlimits
      have hbound := hn.fits
      generalize hm : max start (top - limit) = m
      have hmtop : m ≤ top := by omega
      have hnumbers := hn.between_numbers m top (by omega) (by omega) htop
      have hcount : top + 1 - m = top - m + 1 := by omega
      rw [hcount] at hnumbers
      unfold walk
      rw [page_eq hs hn hstart htop hfirst hlimit, hm]
      dsimp only
      rw [hnumbers, min_range']
      dsimp only
      by_cases hzero : m = 0
      · refine ⟨m, by omega, by omega, fun _ => by omega, ?_⟩
        rw [if_pos hzero, List.append_nil]
      · rw [if_neg hzero]
        by_cases hlow : m = start
        · -- the next call is refused
          refine ⟨m, by omega, by omega, fun _ => hlow, ?_⟩
          have hnone : walk h a limits (m - 1) = [] := by
            cases limits with
            | nil => rfl
            | cons l ls =>
                unfold walk
                rw [hlow, page_below hn (by omega) (by omega)]
          rw [hnone, List.append_nil]
        · obtain ⟨low, hlow₁, hlow₂, hlow₃, hperm⟩ := ih (m - 1) (by omega) (by omega) (.inl rfl) hlimits
          refine ⟨low, hlow₁, by omega, fun hlen => ?_, ?_⟩
          · rw [List.length_cons] at hlen
            exact hlow₃ (by omega)
          · exact (hperm.append_left _).trans (between_perm h a (by omega) hmtop (by omega))

/-- **The whole history of an account.** -/
theorem walk_all {h : History A} (hs : Sound h) {a : A} {limits : List Nat}
    (hlimits : ∀ limit ∈ limits, 1 ≤ limit ∧ limit ≤ 1000) (hlen : (entriesOf h a).length ≤ limits.length) :
    (walk h a limits (2 ^ 32 - 1)).Perm ((entriesOf h a).map fun e => (e.sequence, e.op)) := by
  obtain ⟨start, n, hn⟩ := hs.numbered a
  have hcount : (entriesOf h a).length = n := by
    rw [← List.length_map (f := fun e : Entry A => e.sequence), hn.numbers, List.length_range']
  by_cases hzero : n = 0
  · -- there is no range
    have hnone : entriesOf h a = [] := List.length_eq_zero_iff.mp (hcount.trans hzero)
    have hrange := hn.range
    rw [if_pos hzero] at hrange
    have hwalk : walk h a limits (2 ^ 32 - 1) = [] := by
      cases limits with
      | nil => rfl
      | cons l ls =>
          unfold walk getAccountHistory
          rw [hrange]
    rw [hwalk, hnone]
    exact List.Perm.nil
  · obtain ⟨low, -, -, hlow, hperm⟩ := walk_visits hs hn (start + n - 1) (by omega) (by omega)
      (.inr ⟨rfl, rfl⟩) hlimits
    rw [hlow (by omega)] at hperm
    refine hperm.trans (List.Perm.of_eq ?_)
    unfold between
    congr 1
    refine List.filter_eq_self.mpr fun e he => ?_
    have hmem : e.sequence ∈ List.range' start n := hn.numbers ▸ List.mem_map_of_mem he
    rw [List.mem_range'_1] at hmem
    exact decide_eq_true (by omega)

/-! ## Runs -/

/-- An operation is recorded for an account. -/
def Recorded (o : Options A) (h : History A) (impacted : List A) (stored : Bool) (a : A) : Prop :=
  ∃ e ∈ (onOperation o impacted stored h).entries, e.account = a ∧ e.op = h.nextOpId

/-- **An operation is recorded for the accounts that are to be tracked exactly when it is stored and each of them
    starts a range that it is in.** In every state that the plugins come to, an account has a range if and only if it
    has entries, they are numbered one by one from its start to its end, and walking back by pages meets each of them
    once. -/
theorem history_correct {o : Options A} {h : History A} (hr : Reaches o h) :
    (∀ impacted distinct stored, Fits o h (.operation impacted distinct stored) → ∀ a ∈ impacted,
      ((Recorded o h impacted stored a ↔ Tracked o a) ↔ (Tracked o a → stored = true ∧ Hit o a))) ∧
    (∀ a, (h.ranges a = none ↔ entriesOf h a = []) ∧ ∀ r, h.ranges a = some r →
      r.startSequence ≤ r.endSequence ∧
        (entriesOf h a).map (·.sequence) = List.range' r.startSequence (r.endSequence + 1 - r.startSequence)) ∧
    ∀ a limits, (∀ limit ∈ limits, 1 ≤ limit ∧ limit ≤ 1000) → (entriesOf h a).length ≤ limits.length →
      (walk h a limits (2 ^ 32 - 1)).Perm ((entriesOf h a).map fun e => (e.sequence, e.op)) := by
  have hs := hr.sound
  refine ⟨fun impacted distinct stored hfits a ha => ?_, fun a => ?_, fun a limits => walk_all hs⟩
  · have hrec : Recorded o h impacted stored a ↔ stored = true ∧ Hit o a := by
      refine ((onOperation_spec hs hfits).2 a).trans (and_congr_right fun _ => ?_)
      rw [isTracked_iff]
      exact and_iff_right ha
    rw [hrec]
    constructor
    · exact fun h => h.mpr
    · exact fun h => ⟨fun hhit => hhit.2.tracked, h⟩
  · obtain ⟨start, n, hn⟩ := hs.numbered a
    have hempty : entriesOf h a = [] ↔ n = 0 := by
      rw [← List.map_eq_nil_iff (f := fun e : Entry A => e.sequence), hn.numbers, List.range'_eq_nil_iff]
    rw [hempty, hn.range]
    refine ⟨?_, fun r hr => ?_⟩
    · by_cases hzero : n = 0 <;> simp [hzero]
    · by_cases hzero : n = 0
      · rw [if_pos hzero] at hr
        exact absurd hr (by simp)
      · rw [if_neg hzero] at hr
        obtain rfl := Option.some.inj hr
        refine ⟨by dsimp only; omega, ?_⟩
        rw [hn.numbers]
        dsimp only
        congr 1
        omega

namespace Sample

/-- Accounts from `a` to `c` are tracked. -/
def tracked : Options String := { trackAccountRange := [("a", "c")] }

def fresh : History String := { currentBlock := 7 }

def recorded : History String := onOperation tracked ["a", "b"] true fresh

end Sample

/-- The first account of the range has its entry, and the histories are in order. -/
theorem history_correct_sample :
    (Recorded Sample.tracked Sample.fresh ["a", "b"] true "a" ↔ Tracked Sample.tracked "a") ∧
      (walk Sample.recorded "a" [1] (2 ^ 32 - 1)).Perm
        ((entriesOf Sample.recorded "a").map fun e => (e.sequence, e.op)) := by
  have hfits : Fits Sample.tracked Sample.fresh (.operation ["a", "b"] (by decide) true) := by
    intro _ a _ _
    show (none : Option Nat) ≠ _
    exact nofun
  have hr := Reaches.start (o := Sample.tracked) 7
  refine ⟨((history_correct hr).1 _ _ _ hfits "a" (List.mem_cons_self ..)).mpr fun _ => ⟨rfl, .inr ⟨("a", "c"), ?_⟩⟩,
    (history_correct (hr.step hfits)).2.2 "a" [1] (by decide) (by decide +kernel)⟩
  decide +kernel

/-- **An account inside the range is not recorded.** -/
theorem inside_not_recorded : Reaches Sample.tracked Sample.fresh ∧ Tracked Sample.tracked "b" ∧
    Sample.recorded.operations ≠ [] ∧ ¬ Recorded Sample.tracked Sample.fresh ["a", "b"] true "b" := by
  refine ⟨.start 7, .inr ⟨("a", "c"), List.mem_singleton_self _, by decide +kernel⟩, by decide +kernel, ?_⟩
  rintro ⟨e, he, hea, -⟩
  have hnone : ∀ e ∈ Sample.recorded.entries, e.account ≠ "b" := by decide +kernel
  exact hnone e he hea

end AccountHistory

end VizNode
