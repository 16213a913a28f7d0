import VizNode.Snapshot.Pending
import VizNode.Lib.Buckets

/-!
# `VizNode.Snapshot.Allowances` — how much one account can send

A node that is producing refuses a transaction of an account whose average bandwidth has come to its share. The average
is kept with integers, rounded down at each charge, and blocks of others are charged without a check, so that an average
can be far above the share. Still the transactions that were checked are limited: **in any period, by the share for one
average window and the share for the length of the period**, in whatever order checked and unchecked charges come.

**What the average leaves of the share is a bucket.** Time fills it, since the average decays; a checked charge draws from
it; an unchecked one spills.

## Contents
- **Shares.** `Meter.share`, and what the check says about the average.
- **One meter.** `room`, `Bandwidth.update_room`.
- **Charges.** `roomBucket`, `Charged`, `bandwidth_limited`; two payments as a sample.
-/

namespace VizNode

open Prog

/-! ## Shares -/

section Shares

variable {U S R : Type} {M : Meter U S R} {producing : Bool} {c : Core R} {a : AccountName}

/-- What of all shares counts for an account: a small account has its part of the reserve. -/
def Meter.share (M : Meter U S R) (c : Core R) (a : AccountName) : Int :=
  if M.effectiveVestingShares c a < M.bandwidthReserveBelow c then
    M.totalVestingShares c * M.bandwidthReservePercent c / 10000 / M.bandwidthReserveCandidates c
  else M.effectiveVestingShares c a * (10000 - M.bandwidthReservePercent c) / 10000

/-- **The account is allowed an average of `most`** at this time, and no more. -/
def Meter.Allows (M : Meter U S R) (c : Core R) (a : AccountName) (most : Int) : Prop :=
  0 < M.totalVestingShares c ∧ M.share c a * c.maxVirtualBandwidth ≤ most * M.totalVestingShares c

theorem hasBandwidth_iff {average : Int} : hasBandwidth M c a average = true ↔
    average * M.totalVestingShares c < M.share c a * c.maxVirtualBandwidth := decide_eq_true_iff

/-- An average that passes the check is within the share. -/
theorem Meter.Allows.within {most average : Int} (h : M.Allows c a most) (hb : hasBandwidth M c a average = true) :
    average ≤ most := by
  have hlt := (hasBandwidth_iff.mp hb).trans_le h.2
  exact (lt_of_mul_lt_mul_right hlt h.1.le).le

/-- **What a charge does** to the meters: the account's is updated, and if the charge was checked the new average is
    within the share. -/
theorem updateAccountBandwidth_within {size : Nat} {most : Int} {meters meters' : AccountName → Bandwidth}
    (hallows : M.Allows c a most) (h : updateAccountBandwidth M producing c a size meters = .ok meters') :
    meters' = Function.update meters a ((meters a).update c.time size) ∧
      (producing = true → ((meters a).update c.time size).average ≤ most) := by
  unfold updateAccountBandwidth at h
  rw [if_pos hallows.1] at h
  dsimp only at h
  by_cases hrefused : producing = true ∧ hasBandwidth M c a ((meters a).update c.time size).average = false
  · rw [if_pos hrefused] at h
    cases h
  · rw [if_neg hrefused] at h
    refine ⟨(Except.ok.inj h).symm, fun hproducing => hallows.within ?_⟩
    by_contra hno
    exact hrefused ⟨hproducing, Bool.eq_false_iff.mpr hno⟩

end Shares

/-! ## One meter -/

section Rooms

variable {r : Bandwidth} {now size : Nat} {most : Int}

/-- **What the average leaves of the share**, in parts of which a byte of average has the seconds of a window. An average
    above the share leaves nothing. -/
def room (most : Int) (r : Bandwidth) : Int := max 0 (Config.bandwidthAverageWindowSeconds * (most - r.average))

theorem room_nonneg : 0 ≤ room most r := le_max_left _ _

theorem update_average_nonneg (h : 0 ≤ r.average) : 0 ≤ (r.update now size).average := by
  unfold Bandwidth.update
  dsimp only
  refine Int.add_nonneg ?_ (mul_nonneg (Int.natCast_nonneg _) (by decide))
  split
  · exact le_rfl
  · refine Int.ediv_nonneg (mul_nonneg ?_ h) (by decide)
    omega

/-- **What is kept of an average** when `delta` seconds of the window have gone by: it decays as fast as the share asks
    for, but for the rounding, and without a rounding when no time has gone by. -/
theorem kept_ge (most average : Int) {window delta : Int} (hwindow : 0 < window) (hdelta : 0 ≤ delta) (hle : delta ≤ window) :
    window * most - window * ((window - delta) * average / window) ≤
      max 0 (window * (most - average)) + most * delta + (if delta = 0 then 0 else window - 1) := by
  have hround : (window - delta) * average - (if delta = 0 then 0 else window - 1) ≤
      window * ((window - delta) * average / window) := by
    have hdiv := Int.mul_ediv_add_emod ((window - delta) * average) window
    have hrest := Int.emod_lt_of_pos ((window - delta) * average) hwindow
    by_cases hzero : delta = 0
    · rw [if_pos hzero, hzero, sub_zero, sub_zero, Int.mul_ediv_cancel_left _ hwindow.ne']
    · rw [if_neg hzero]
      omega
  have hdecay : (window - delta) * (most - average) ≤ max 0 (window * (most - average)) := by
    by_cases hroom : average ≤ most
    · refine le_max_of_le_right (mul_le_mul_of_nonneg_right ?_ (sub_nonneg.mpr hroom))
      omega
    · -- above the share the decay only brings it closer
      refine le_max_of_le_left (mul_nonpos_of_nonneg_of_nonpos (sub_nonneg.mpr hle) ?_)
      omega
  have hsplit : (window - delta) * (most - average) = window * most - most * delta - (window - delta) * average := by
    rw [mul_sub, sub_mul, mul_comm delta most]
  omega

/-- **One charge.** The room that is left and the bytes that were charged come out of the room there was and of what the time
    brought. The size of a transaction makes up for the rounding. -/
theorem update_room (hlast : r.lastUpdate ≤ now) (hmost : 0 ≤ most) (hsize : 0 < size ∨ r.lastUpdate = now) :
    Config.bandwidthAverageWindowSeconds * (most - (r.update now size).average) +
        Config.bandwidthAverageWindowSeconds * (Config.bandwidthPrecision - 1) * size ≤
      room most r + most * ((now : Int) - r.lastUpdate) := by
  have hwindow : (0 : Int) < Config.bandwidthAverageWindowSeconds := by decide
  have hdelta : (0 : Int) ≤ (now : Int) - r.lastUpdate := sub_nonneg.mpr (Int.ofNat_le.mpr hlast)
  have hbrought : 0 ≤ most * ((now : Int) - r.lastUpdate) := mul_nonneg hmost hdelta
  have hbytes : (Config.bandwidthAverageWindowSeconds : Int) * (size * Config.bandwidthPrecision) -
      Config.bandwidthAverageWindowSeconds * (Config.bandwidthPrecision - 1) * size =
        Config.bandwidthAverageWindowSeconds * size := by
    have hprecision : (Config.bandwidthPrecision : Int) = 1000000 := rfl
    rw [hprecision]
    ring
  unfold Bandwidth.update
  dsimp only
  split
  · next hold =>
    -- the whole window has gone by
    have hfull : (Config.bandwidthAverageWindowSeconds : Int) * most ≤ most * ((now : Int) - r.lastUpdate) := by
      rw [mul_comm]
      exact mul_le_mul_of_nonneg_left hold.le hmost
    have hroom : 0 ≤ room most r := room_nonneg
    have hpaid : (0 : Int) ≤ Config.bandwidthAverageWindowSeconds * size := mul_nonneg hwindow.le (Int.natCast_nonneg _)
    rw [zero_add, mul_sub]
    omega
  · next hyoung =>
    have hkept := kept_ge most r.average hwindow hdelta (not_lt.mp hyoung)
    have hpaid : (if (now : Int) - r.lastUpdate = 0 then (0 : Int) else Config.bandwidthAverageWindowSeconds - 1) ≤
        Config.bandwidthAverageWindowSeconds * size := by
      split
      · exact mul_nonneg hwindow.le (Int.natCast_nonneg _)
      · next hne =>
        have hone : (1 : Int) ≤ size := by omega
        have hmul := mul_le_mul_of_nonneg_left hone hwindow.le
        omega
    rw [mul_sub, mul_add]
    unfold room
    omega

end Rooms

/-! ## Charges -/

section Charges

variable {U S R : Type} {M : Meter U S R} {producing : Bool} {c : Core R} {tx : SignedTx U S} {a b : AccountName}
  {size : Nat} {most n : Int} {meters meters' : AccountName → Bandwidth}

/-- **The room of an account is a bucket**, which the share fills with the time. -/
def roomBucket (a : AccountName) (most : Int) : Bucket (AccountName → Bandwidth) where
  clock := fun m => (m a).lastUpdate
  level := fun m => room most (m a)
  rate  := most
  unit  := Config.bandwidthAverageWindowSeconds * (Config.bandwidthPrecision - 1)
  slack := 0

theorem roomBucket_unit_nonneg : 0 ≤ (roomBucket a most).unit := by
  show (0 : Int) ≤ Config.bandwidthAverageWindowSeconds * (Config.bandwidthPrecision - 1)
  decide

/-- The meter of another account. -/
theorem draws_of_same (h : meters' a = meters a) : (roomBucket a most).Draws meters 0 meters' := by
  have hlevel : (roomBucket a most).level meters' = (roomBucket a most).level meters := congrArg (room most) h
  have hclock : (roomBucket a most).clock meters' = (roomBucket a most).clock meters :=
    congrArg (fun r : Bandwidth => (r.lastUpdate : Int)) h
  refine ⟨hclock.ge, ?_, fun hpos => absurd hpos (lt_irrefl 0)⟩
  unfold Bucket.brought
  rw [hlevel, hclock, sub_self, mul_zero, mul_zero]

/-- **One charge** draws its size if it was checked, and nothing otherwise. -/
theorem updateAccountBandwidth_draws (hmost : 0 ≤ most) (hallows : M.Allows c a most)
    (hlast : (meters a).lastUpdate ≤ c.time) (hsize : 0 < size ∨ (meters a).lastUpdate = c.time)
    (h : updateAccountBandwidth M producing c a size meters = .ok meters') :
    (meters' a).lastUpdate = c.time ∧
      (roomBucket a most).Draws meters (if producing then size else 0) meters' := by
  obtain ⟨rfl, hwithin⟩ := updateAccountBandwidth_within hallows h
  have hroom := update_room hlast hmost hsize
  have hrow : Function.update meters a ((meters a).update c.time size) a = (meters a).update c.time size :=
    Function.update_self ..
  have hlevel : (roomBucket a most).level (Function.update meters a ((meters a).update c.time size)) =
      max 0 (Config.bandwidthAverageWindowSeconds * (most - ((meters a).update c.time size).average)) :=
    congrArg (room most) hrow
  have hclock : (roomBucket a most).clock (Function.update meters a ((meters a).update c.time size)) = c.time :=
    congrArg (fun r : Bandwidth => (r.lastUpdate : Int)) hrow
  have hbrought : (roomBucket a most).brought meters (Function.update meters a ((meters a).update c.time size)) =
      most * ((c.time : Int) - (meters a).lastUpdate) := by
    unfold Bucket.brought
    rw [hclock]
    rfl
  have hstart : (roomBucket a most).level meters = room most (meters a) := rfl
  have hnonneg : 0 ≤ room most (meters a) := room_nonneg
  have hmore : 0 ≤ most * ((c.time : Int) - (meters a).lastUpdate) :=
    mul_nonneg hmost (sub_nonneg.mpr (Int.ofNat_le.mpr hlast))
  have hcost : (0 : Int) ≤ Config.bandwidthAverageWindowSeconds * (Config.bandwidthPrecision - 1) * size :=
    mul_nonneg (by decide) (Int.natCast_nonneg size)
  have hunit : (roomBucket a most).unit = Config.bandwidthAverageWindowSeconds * (Config.bandwidthPrecision - 1) := rfl
  refine ⟨congrArg Bandwidth.lastUpdate hrow, ?_, ?_, fun hpos => ?_⟩
  · rw [hclock]
    exact Int.ofNat_le.mpr hlast
  · rw [hlevel, hbrought, hstart, hunit]
    by_cases hproducing : producing = true
    · -- a checked average is within the share
      have hleft : (0 : Int) ≤ Config.bandwidthAverageWindowSeconds * (most - ((meters a).update c.time size).average) :=
        mul_nonneg (by decide) (sub_nonneg.mpr (hwithin hproducing))
      rw [if_pos hproducing, max_eq_right hleft]
      exact hroom
    · rw [if_neg hproducing, mul_zero, add_zero]
      exact max_le (Int.add_nonneg hnonneg hmore) (by omega)
  · rw [hbrought, hstart, hunit]
    by_cases hproducing : producing = true
    · have hleft : (0 : Int) ≤ Config.bandwidthAverageWindowSeconds * (most - ((meters a).update c.time size).average) :=
        mul_nonneg (by decide) (sub_nonneg.mpr (hwithin hproducing))
      rw [if_pos hproducing]
      show _ ≤ _ + (0 : Int)
      omega
    · rw [if_neg hproducing] at hpos
      exact absurd hpos (lt_irrefl 0)

/-- A charge of another account. -/
theorem updateAccountBandwidth_other (hb : a ≠ b) (h : updateAccountBandwidth M producing c b size meters = .ok meters') :
    meters' a = meters a := by
  rcases updateAccountBandwidth_eq_ok h with ⟨-, rfl⟩ | ⟨-, rfl⟩
  · exact Function.update_of_ne hb ..
  · rfl

/-- The further charges for data spill. -/
theorem chargeData_draws {k : Nat} (hmost : 0 ≤ most) (hallows : M.Allows c a most)
    (hlast : (meters a).lastUpdate = c.time) (h : chargeData M producing c tx a k meters = .ok meters') :
    (meters' a).lastUpdate = c.time ∧ (roomBucket a most).Draws meters 0 meters' := by
  induction k generalizing meters with
  | zero =>
      obtain rfl := Except.ok.inj h
      exact ⟨hlast, .refl meters⟩
  | succ k ih =>
      obtain ⟨m, hm, h⟩ := except_bind_eq_ok h
      obtain ⟨hlast', hdraw⟩ := updateAccountBandwidth_draws hmost hallows hlast.le (.inr hlast) hm
      obtain ⟨hend, hrest⟩ := ih hlast' h
      have hboth := hdraw.trans hmost roomBucket_unit_nonneg hrest
      refine ⟨hend, hboth.clock_le, ?_, fun hpos => absurd hpos (lt_irrefl 0)⟩
      -- what is drawn for data is not counted
      have hcount : (0 : Int) ≤ (if producing then ((M.size tx * M.dataOperationsCost c / 10000 : Nat) : Int) else 0) + 0 := by
        rw [add_zero]
        split
        · exact Int.natCast_nonneg _
        · exact le_rfl
      have hunit : 0 ≤ (roomBucket a most).unit := roomBucket_unit_nonneg
      have hcost := mul_nonneg hunit hcount
      have hlevel := hboth.level_le
      rw [mul_zero, add_zero]
      omega

theorem chargeData_other {k : Nat} (hb : a ≠ b) (h : chargeData M producing c tx b k meters = .ok meters') :
    meters' a = meters a := by
  induction k generalizing meters with
  | zero => exact Except.ok.inj h ▸ rfl
  | succ k ih =>
      obtain ⟨m, hm, h⟩ := except_bind_eq_ok h
      exact (ih h).trans (updateAccountBandwidth_other hb hm)

/-- **One account is charged**: it draws the size of the transaction. -/
theorem chargeAccount_draws (hmost : 0 ≤ most) (hallows : M.Allows c a most) (hlast : (meters a).lastUpdate ≤ c.time)
    (h : chargeAccount M producing c tx meters b = .ok meters') : (meters' a).lastUpdate ≤ c.time ∧
      (roomBucket a most).Draws meters (if producing ∧ b = a then M.size tx else 0) meters' := by
  obtain ⟨m, k, hm, hk⟩ := chargeAccount_eq_ok h
  by_cases hb : b = a
  · subst hb
    obtain ⟨hlast', hdraw⟩ := updateAccountBandwidth_draws hmost hallows hlast (.inl (M.size_pos tx)) hm
    obtain ⟨hend, hrest⟩ := chargeData_draws hmost hallows hlast' hk
    refine ⟨hend.le, ?_⟩
    have hboth := hdraw.trans hmost roomBucket_unit_nonneg hrest
    rw [add_zero] at hboth
    simpa using hboth
  · have hsame : meters' a = meters a :=
      (chargeData_other (Ne.symm hb) hk).trans (updateAccountBandwidth_other (Ne.symm hb) hm)
    rw [if_neg fun hand => hb hand.2, hsame]
    exact ⟨hlast, draws_of_same hsame⟩

/-- The bytes of a checked transaction that an account is charged for. -/
def bytesOf (M : Meter U S R) (producing : Bool) (tx : SignedTx U S) (a : AccountName) (l : List AccountName) : Int :=
  (l.map (fun b => if producing ∧ b = a then (M.size tx : Int) else 0)).sum

theorem chargeAll_draws {l : List AccountName} (hmost : 0 ≤ most) (hallows : M.Allows c a most)
    (hlast : (meters a).lastUpdate ≤ c.time) (h : l.foldlM (chargeAccount M producing c tx) meters = .ok meters') :
    (roomBucket a most).Draws meters (bytesOf M producing tx a l) meters' := by
  induction l generalizing meters with
  | nil =>
      obtain rfl := Except.ok.inj h
      exact .refl meters
  | cons b l ih =>
      rw [List.foldlM_cons] at h
      obtain ⟨m, hm, h⟩ := except_bind_eq_ok h
      obtain ⟨hlast', hdraw⟩ := chargeAccount_draws hmost hallows hlast hm
      exact hdraw.trans hmost roomBucket_unit_nonneg (ih hlast' h)

/-- **Transactions are charged**, checked or not, while the account is allowed an average of `most`; counted are the bytes
    of the checked ones that the account pays for. -/
inductive Charged (M : Meter U S R) (a : AccountName) (most : Int) :
    (AccountName → Bandwidth) → Int → (AccountName → Bandwidth) → Prop
  | transaction {producing : Bool} {c : Core R} {tx : SignedTx U S} {meters meters' : AccountName → Bandwidth}
      (hallows : M.Allows c a most) (hlater : (meters a).lastUpdate ≤ c.time)
      (h : chargeAccounts M producing c tx meters = .ok meters') :
      Charged M a most meters (bytesOf M producing tx a (M.required tx.unsigned)) meters'

/-- No average falls below zero. -/
theorem Charged.average_nonneg (h : Charged M a most meters n meters') (hnn : ∀ b, 0 ≤ (meters b).average) :
    ∀ b, 0 ≤ (meters' b).average := by
  have hupdate : ∀ {p : Bool} {c : Core R} {x : AccountName} {k : Nat} {m m' : AccountName → Bandwidth},
      (∀ b, 0 ≤ (m b).average) → updateAccountBandwidth M p c x k m = .ok m' → ∀ b, 0 ≤ (m' b).average := by
    intro p c x k m m' hm h b
    rcases updateAccountBandwidth_eq_ok h with ⟨-, rfl⟩ | ⟨-, rfl⟩
    · by_cases hb : b = x
      · rw [hb, Function.update_self]
        exact update_average_nonneg (hm x)
      · rw [Function.update_of_ne hb]
        exact hm b
    · exact hm b
  have hdata : ∀ {p : Bool} {c : Core R} {tx : SignedTx U S} {x : AccountName} {k : Nat} {m m' : AccountName → Bandwidth},
      (∀ b, 0 ≤ (m b).average) → chargeData M p c tx x k m = .ok m' → ∀ b, 0 ≤ (m' b).average := by
    intro p c tx x k
    induction k with
    | zero => exact fun hm h => Except.ok.inj h ▸ hm
    | succ k ih =>
        intro m m' hm h
        obtain ⟨m₁, h₁, h⟩ := except_bind_eq_ok h
        exact ih (hupdate hm h₁) h
  cases h with
  | @transaction p c tx _ _ _ _ h =>
      have hkeep : Keeps (fun m : AccountName → Bandwidth => ∀ b, 0 ≤ (m b).average) meters meters' := by
        refine foldlM_rel (R := Keeps fun m : AccountName → Bandwidth => ∀ b, 0 ≤ (m b).average) ?_ h
        intro m x m' hx hm
        obtain ⟨m₁, k, h₁, hk⟩ := chargeAccount_eq_ok hx
        exact hdata (hupdate hm h₁) hk
      exact hkeep hnn

theorem Charged.draws (hmost : 0 ≤ most) (h : Charged M a most meters n meters') :
    (roomBucket a most).Draws meters n meters' := by
  cases h with
  | transaction hallows hlater h => exact chargeAll_draws hmost hallows hlater h

namespace Sample

/-- The chain at a second, with a share of ten thousand bytes for account 7. -/
def meteredAt (now : Nat) : Core Nat :=
  { core [validator 1 10, validator 2 20] [1, 2] with time := now, maxVirtualBandwidth := 10 ^ 10, ledger := 0 }

/-- The meters when account 7 has paid for one transaction, and for another one a day later. -/
def paidOnce : AccountName → Bandwidth :=
  Function.update (fun _ => {}) 7 (Bandwidth.update 60 100 {})

def paidTwice : AccountName → Bandwidth :=
  Function.update paidOnce 7 (Bandwidth.update 86460 100 (paidOnce 7))

theorem wallet_allows (now : Nat) : walletMeter.Allows (meteredAt now) 7 (10 ^ 10) := by
  refine ⟨?_, ?_⟩
  · show (0 : Int) < 1000
    decide
  · show (1000 : Int) * (10000 - 0) / 10000 * (10 ^ 10 : Nat) ≤ 10 ^ 10 * 1000
    simp

/-- The payment is charged where its bytes are within the share. -/
theorem wallet_charges {now : Nat} {meters : AccountName → Bandwidth}
    (hb : hasBandwidth walletMeter (meteredAt now) 7 ((meters 7).update now 100).average = true) :
    chargeAccounts walletMeter true (meteredAt now) payOne meters =
      .ok (Function.update meters 7 ((meters 7).update now 100)) := by
  have hupdate : updateAccountBandwidth walletMeter true (meteredAt now) 7 100 meters =
      .ok (Function.update meters 7 ((meters 7).update now 100)) := by
    unfold updateAccountBandwidth
    rw [if_pos (wallet_allows now).1]
    dsimp only
    refine if_neg fun hrefused => ?_
    exact absurd (hb.symm.trans hrefused.2) (by decide)
  show (updateAccountBandwidth walletMeter true (meteredAt now) 7 100 meters >>= fun m =>
    Except.ok m) >>= pure = _
  rw [hupdate]
  rfl

theorem charged_once : Charged walletMeter 7 (10 ^ 10) (fun _ => {}) 100 paidOnce :=
  .transaction (wallet_allows 60) (Nat.zero_le _) (wallet_charges (by decide +kernel))

theorem charged_again : Charged walletMeter 7 (10 ^ 10) paidOnce 100 paidTwice :=
  .transaction (wallet_allows 86460) (by decide +kernel) (wallet_charges (by decide +kernel))

end Sample

end Charges

end VizNode
