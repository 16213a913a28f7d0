import VizNode.Chain.Reindex

/-!
# `VizNode.Snapshot.Bandwidth` — what a transaction is charged

Every transaction is charged to the accounts whose authority it requires: the bandwidth they have used decays over a
week, and the size of the transaction is added. **The lifetime bandwidth only grows**, so a transaction that was
charged to somebody never leaves the accounts as they were, whatever its operations do.

## Contents
- **The functions.** `updateAccountBandwidth`, `chargeAccounts`, and `meteredRules`: the rules of a chain whose
  accounts have these meters.
- **The meters.** `Grown`, `chargeAccounts_grown`, `chargeAccounts_charged`, `chargeAccounts_free`.
-/

namespace VizNode

/-! ## The functions -/

/-- The three members of `account_object` that only `update_account_bandwidth` writes. -/
structure Bandwidth where
  average    : Int := 0
  lifetime   : Int := 0
  lastUpdate : Nat := 0
deriving DecidableEq, Repr

/-- The meters of the accounts, and the rest of the ledger. -/
structure Metered (R : Type) where
  bandwidth : AccountName → Bandwidth
  rest      : R

/-- The core for code that does not see the meters. -/
def Core.withoutMeter {R : Type} (c : Core (Metered R)) : Core R := { c with ledger := c.ledger.rest }

/-- What is read when a transaction is charged. The size is that of the packed transaction, the accounts are those of
    `get_required_authorities`. -/
structure Meter (U S R : Type) where
  size                       : SignedTx U S → Nat
  size_pos                   : ∀ tx, 0 < size tx
  required                   : U → List AccountName
  dataOperations             : U → Nat
  hasAccount                 : Core R → AccountName → Bool
  totalVestingShares         : Core R → Int
  effectiveVestingShares     : Core R → AccountName → Int
  bandwidthReserveBelow      : Core R → Int
  bandwidthReservePercent    : Core R → Int
  bandwidthReserveCandidates : Core R → Int
  dataOperationsCost         : Core R → Nat

section Functions

variable {U S R : Type} (M : Meter U S R) (producing : Bool) (c : Core R)

/-- Is the share of the account larger than its share of the bandwidth used? -/
def hasBandwidth (account : AccountName) (average : Int) : Bool :=
  let total  := M.totalVestingShares c
  let shares := M.effectiveVestingShares c account
  let shares :=
    if shares < M.bandwidthReserveBelow c then
      total * M.bandwidthReservePercent c / 10000 / M.bandwidthReserveCandidates c
    else shares * (10000 - M.bandwidthReservePercent c) / 10000
  decide (average * total < shares * c.maxVirtualBandwidth)

/-- The meter of an account, `size` bytes later. -/
def Bandwidth.update (now size : Nat) (a : Bandwidth) : Bandwidth :=
  let window : Int := Config.bandwidthAverageWindowSeconds
  let delta  : Int := now - a.lastUpdate
  let kept   : Int := if window < delta then 0 else (window - delta) * a.average / window
  { average    := kept + size * Config.bandwidthPrecision
    lifetime   := a.lifetime + size * Config.bandwidthPrecision
    lastUpdate := now }

/-- `update_account_bandwidth`. -/
def updateAccountBandwidth (account : AccountName) (size : Nat) (meters : AccountName → Bandwidth) :
    Except Nat (AccountName → Bandwidth) :=
  if 0 < M.totalVestingShares c then
    let a := (meters account).update c.time size
    if producing = true ∧ hasBandwidth M c account a.average = false then .error 5
    else .ok (Function.update meters account a)
  else .ok meters

/-- The further charges for operations with data, since hardfork 6. -/
def chargeData (tx : SignedTx U S) (account : AccountName) :
    Nat → (AccountName → Bandwidth) → Except Nat (AccountName → Bandwidth)
  | 0,     meters => .ok meters
  | k + 1, meters => do
      let meters ← updateAccountBandwidth M producing c account (M.size tx * M.dataOperationsCost c / 10000) meters
      chargeData tx account k meters

/-- One account is charged. -/
def chargeAccount (tx : SignedTx U S) (meters : AccountName → Bandwidth) (account : AccountName) :
    Except Nat (AccountName → Bandwidth) :=
  if M.hasAccount c account = false then .error 6
  else do
    let meters ← updateAccountBandwidth M producing c account (M.size tx) meters
    chargeData M producing c tx account (if c.hasHardfork 6 then M.dataOperations tx.unsigned else 0) meters

/-- The accounts of a transaction are charged. -/
def chargeAccounts (tx : SignedTx U S) (meters : AccountName → Bandwidth) : Except Nat (AccountName → Bandwidth) :=
  (M.required tx.unsigned).foldlM (chargeAccount M producing c tx) meters

/-- The rules `K` on a chain whose accounts have meters: the accounts are charged before the operations. -/
def meteredRules (K : TxRules U S R) : TxRules U S (Metered R) where
  validate             := K.validate
  verifyAuthority c tx := K.verifyAuthority c.withoutMeter tx
  refBlockNum          := K.refBlockNum
  refBlockPrefix       := K.refBlockPrefix
  applyOperations tx c := do
    let bandwidth ← chargeAccounts M producing c.withoutMeter tx c.ledger.bandwidth
    let (edits, rest) ← K.applyOperations tx c.withoutMeter
    return (edits, { bandwidth := bandwidth, rest := rest })

end Functions

/-! ## The meters -/

section Meters

open Prog

variable {U S R : Type} {M : Meter U S R} {producing : Bool} {c : Core R} {tx : SignedTx U S}
  {account : AccountName} {meters meters' : AccountName → Bandwidth}

/-- **No lifetime bandwidth has become smaller.** -/
def Grown (meters meters' : AccountName → Bandwidth) : Prop := ∀ a, (meters a).lifetime ≤ (meters' a).lifetime

instance grownPreorder : IsPreorder (AccountName → Bandwidth) Grown where
  refl _ := fun _ => Int.le_refl _
  trans _ _ _ h₁ h₂ := fun a => Int.le_trans (h₁ a) (h₂ a)

theorem Bandwidth.update_lifetime (now size : Nat) (a : Bandwidth) :
    (a.update now size).lifetime = a.lifetime + (size * Config.bandwidthPrecision : Nat) := by
  unfold Bandwidth.update
  simp

/-- The meter of the account is the only one that moves, and it moves if there are vesting shares. -/
theorem updateAccountBandwidth_eq_ok {size : Nat}
    (h : updateAccountBandwidth M producing c account size meters = .ok meters') :
    (0 < M.totalVestingShares c ∧ meters' = Function.update meters account ((meters account).update c.time size)) ∨
      (¬ 0 < M.totalVestingShares c ∧ meters' = meters) := by
  unfold updateAccountBandwidth at h
  by_cases htotal : 0 < M.totalVestingShares c
  · rw [if_pos htotal] at h
    dsimp only at h
    by_cases hrefused : producing = true ∧
        hasBandwidth M c account ((meters account).update c.time size).average = false
    · rw [if_pos hrefused] at h
      cases h
    · rw [if_neg hrefused] at h
      exact .inl ⟨htotal, (Except.ok.inj h).symm⟩
  · rw [if_neg htotal] at h
    exact .inr ⟨htotal, (Except.ok.inj h).symm⟩

theorem updateAccountBandwidth_grown {size : Nat}
    (h : updateAccountBandwidth M producing c account size meters = .ok meters') : Grown meters meters' := by
  rcases updateAccountBandwidth_eq_ok h with ⟨-, rfl⟩ | ⟨-, rfl⟩
  · intro a
    by_cases ha : a = account
    · subst ha
      rw [Function.update_self, Bandwidth.update_lifetime]
      omega
    · rw [Function.update_of_ne ha]
  · exact refl_of Grown _

theorem chargeData_grown {k : Nat} (h : chargeData M producing c tx account k meters = .ok meters') :
    Grown meters meters' := by
  induction k generalizing meters with
  | zero =>
      obtain rfl := Except.ok.inj h
      exact refl_of Grown _
  | succ k ih =>
      obtain ⟨m, hm, h⟩ := except_bind_eq_ok h
      exact trans_of Grown (updateAccountBandwidth_grown hm) (ih h)

/-- A charge of one account, taken apart. -/
theorem chargeAccount_eq_ok (h : chargeAccount M producing c tx meters account = .ok meters') :
    ∃ m k, updateAccountBandwidth M producing c account (M.size tx) meters = .ok m ∧
      chargeData M producing c tx account k m = .ok meters' := by
  unfold chargeAccount at h
  by_cases hknown : M.hasAccount c account = false
  · rw [if_pos hknown] at h
    cases h
  · rw [if_neg hknown] at h
    obtain ⟨m, hm, h⟩ := except_bind_eq_ok h
    exact ⟨m, _, hm, h⟩

theorem chargeAccount_grown (h : chargeAccount M producing c tx meters account = .ok meters') :
    Grown meters meters' := by
  obtain ⟨m, k, hm, hk⟩ := chargeAccount_eq_ok h
  exact trans_of Grown (updateAccountBandwidth_grown hm) (chargeData_grown hk)

theorem chargeAccounts_grown (h : chargeAccounts M producing c tx meters = .ok meters') : Grown meters meters' :=
  foldlM_rel (R := Grown) (fun _ _ _ hm => chargeAccount_grown hm) h

/-- **Somebody pays for the transaction**: it requires the authority of an account, and there are vesting shares. -/
def Meter.Charges (M : Meter U S R) (c : Core R) (tx : SignedTx U S) : Prop :=
  0 < M.totalVestingShares c ∧ M.required tx.unsigned ≠ []

instance (M : Meter U S R) (c : Core R) (tx : SignedTx U S) : Decidable (M.Charges c tx) :=
  inferInstanceAs (Decidable (_ ∧ _))

/-- The lifetime bandwidth of whoever pays has grown. -/
theorem chargeAccounts_charged (hc : M.Charges c tx) (h : chargeAccounts M producing c tx meters = .ok meters') :
    ∃ a, (meters a).lifetime < (meters' a).lifetime := by
  obtain ⟨htotal, hne⟩ := hc
  obtain ⟨account, rest, hlist⟩ := List.exists_cons_of_ne_nil hne
  unfold chargeAccounts at h
  rw [hlist, List.foldlM_cons] at h
  obtain ⟨m, hm, h⟩ := except_bind_eq_ok h
  obtain ⟨m₁, k, hm₁, hk⟩ := chargeAccount_eq_ok hm
  refine ⟨account, ?_⟩
  -- the size of the transaction is not zero
  have hfirst : (meters account).lifetime < (m₁ account).lifetime := by
    rcases updateAccountBandwidth_eq_ok hm₁ with ⟨-, rfl⟩ | ⟨hno, -⟩
    · have hsize : 0 < M.size tx * Config.bandwidthPrecision :=
        Nat.mul_pos (M.size_pos tx) (by decide)
      rw [Function.update_self, Bandwidth.update_lifetime]
      omega
    · exact absurd htotal hno
  have hdata : (m₁ account).lifetime ≤ (m account).lifetime := chargeData_grown hk account
  have hothers : Grown m meters' := foldlM_rel (R := Grown) (fun _ _ _ hm => chargeAccount_grown hm) h
  exact Int.lt_of_lt_of_le hfirst (Int.le_trans hdata (hothers account))

theorem chargeData_free (hfree : ¬ 0 < M.totalVestingShares c) {k : Nat}
    (h : chargeData M producing c tx account k meters = .ok meters') : meters' = meters := by
  induction k generalizing meters with
  | zero => exact (Except.ok.inj h).symm
  | succ k ih =>
      obtain ⟨m, hm, hk⟩ := except_bind_eq_ok h
      rcases updateAccountBandwidth_eq_ok hm with ⟨htotal, -⟩ | ⟨-, hsame⟩
      · exact absurd htotal hfree
      · rw [hsame] at hk
        exact ih hk

/-- Where nobody pays, the meters stand still. -/
theorem chargeAccounts_free (hc : ¬ M.Charges c tx) (h : chargeAccounts M producing c tx meters = .ok meters') :
    meters' = meters := by
  unfold chargeAccounts at h
  by_cases htotal : 0 < M.totalVestingShares c
  · have hnone : M.required tx.unsigned = [] := by
      by_contra hne
      exact hc ⟨htotal, hne⟩
    rw [hnone] at h
    exact (Except.ok.inj h).symm
  · have hstep : ∀ m account m', chargeAccount M producing c tx m account = .ok m' → m' = m := by
      intro m account m' hm
      obtain ⟨m₁, k, hm₁, hk⟩ := chargeAccount_eq_ok hm
      rcases updateAccountBandwidth_eq_ok hm₁ with ⟨hyes, -⟩ | ⟨-, hsame⟩
      · exact absurd hyes htotal
      · rw [hsame] at hk
        exact chargeData_free htotal hk
    exact (foldlM_rel (R := Eq) (fun m account m' hm => (hstep m account m' hm).symm) h).symm

end Meters

end VizNode
