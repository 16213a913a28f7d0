import VizNode.Ledger.Sales

/-!
# `VizNode.Ledger.Blocks` — what a block does by itself

The processing behind the transactions of a block, in the order of `_apply_block`: expirations, inflation,
rewards, withdrawals, auctions, the accounts that are emptied, committee requests and subscriptions. The
chain's own part of the block (schedule, irreversibility, hardforks) is elsewhere.

## Contents
- **Expirations.**
- **Funds.** `processFunds`, `processValidatorEpochDistribution`, `cashoutContent`.
- **Accounts that are emptied.** `drainAccount` and the three accounts it is for.
- **Requests and subscriptions.**
- **The block.** `processBlock`.
-/

namespace VizNode

namespace Ledger

/-! ## Expirations -/

/-- One delegation that has come back. -/
def returnDelegation (s : Ledger) (e : DelegationExpiration) : Result Ledger := do
  let _ ← s.getAccount e.delegator
  let s := s.modifyAccount e.delegator (fun a =>
    { a with delegatedVestingShares := a.delegatedVestingShares - e.vestingShares })
  return if s.hasHardfork 10 then s.sharesSenderRecalcEnergy e.delegator e.vestingShares else s

/-- `clear_expired_delegations`. -/
def clearExpiredDelegations (s : Ledger) : Result Ledger :=
  let expired := s.expirations.filter (fun e => decide (e.expiration < s.time))
  (expired.insertionSort (fun a b => a.expiration ≤ b.expiration)).foldlM returnDelegation
    { s with expirations := s.expirations.filter (fun e => !decide (e.expiration < s.time)) }

/-- `clear_used_invites`. -/
def clearUsedInvites (s : Ledger) : Ledger :=
  let old := s.invites.keys.filter (fun k =>
    decide ((s.invites.row k).status ≠ .active ∧
      (s.invites.row k).claimTime < s.time - Config.clearUsedInviteDelay))
  { s with invites := old.foldl Table.erase s.invites }

/-- `clear_closed_committee_requests`. -/
def clearClosedCommitteeRequests (s : Ledger) : Ledger :=
  let closed := s.committeeRequests.keys.filter (fun i =>
    let r := s.committeeRequests.row i
    decide (r.status ≠ .voting ∧ r.status ≠ .approved ∧ r.status ≠ .paid ∧
      r.conclusionTime < s.time - Config.clearClosedCommitteeRequestDelay))
  let votes := s.committeeVotes.keys.filter (fun k => decide (k.1 ∈ closed))
  { s with
    committeeRequests := closed.foldl Table.erase s.committeeRequests
    committeeVotes    := votes.foldl Table.erase s.committeeVotes }

/-- `expire_award_shares_processing`. -/
def expireAwardShares (s : Ledger) : Ledger :=
  let expired := s.awardExpires.filter (fun p => decide (p.1 ≤ s.time))
  { s with
    totalRewardShares := s.totalRewardShares - (expired.map Prod.snd).sum
    awardExpires      := s.awardExpires.filter (fun p => !decide (p.1 ≤ s.time)) }

/-- `account_recovery_processing`. -/
def accountRecoveryProcessing (s : Ledger) : Ledger :=
  let lapsed := s.recoveryRequests.keys.filter (fun a =>
    decide ((s.recoveryRequests.row a).expires ≤ s.time))
  { s with
    recoveryRequests := lapsed.foldl Table.erase s.recoveryRequests
    masterHistory    := s.masterHistory.dropWhile (fun h =>
      decide (h.lastValidTime + Config.masterAuthRecoveryPeriod < s.time)) }

/-- One escrow that was not ratified in time. -/
def expireEscrow (s : Ledger) (key : AccountName × Nat) : Result Ledger := do
  let e := s.escrows.row key
  let _ ← s.getAccount key.1
  let s := (s.adjustBalance key.1 e.tokenBalance).adjustBalance key.1 e.pendingFee
  return { s with escrows := s.escrows.erase key }

/-- `expire_escrow_ratification`. -/
def expireEscrowRatification (s : Ledger) : Result Ledger :=
  let expired := s.escrows.keys.filter (fun k =>
    !(s.escrows.row k).isApproved && decide ((s.escrows.row k).ratificationDeadline ≤ s.time))
  expired.foldlM expireEscrow s

/-! ## Funds -/

/-- `process_inflation_recalc`. -/
def processInflationRecalc (s : Ledger) : Ledger :=
  if s.inflationCalcBlockNum + s.medianProps.inflationRecalcPeriod < s.headBlockNumber then
    { s with
      inflationCalcBlockNum     := s.headBlockNumber
      inflationValidatorPercent := s.medianProps.inflationValidatorPercent
      inflationRatio            := s.medianProps.inflationRatio
      validatorPercent_le       := s.medianProps.validatorPercent_le
      ratio_le                  := s.medianProps.ratio_le }
  else s

/-- The supply after so many years of ten percent, with the last year's part of it. -/
def inflationAfter : Nat → Nat × Nat
  | 0     =>
      let year := Config.fixedInflation * Config.initSupply / Config.hundredPercent
      (Config.initSupply + year, year)
  | n + 1 =>
      let (supply, _) := inflationAfter n
      let year := supply * Config.fixedInflation / Config.hundredPercent
      (supply + year, year)

/-- The tokens a block issues before hardfork 11. -/
def inflationPerBlock (headBlockNumber : Nat) : Nat :=
  (inflationAfter (headBlockNumber / Config.blocksPerYear)).2 / Config.blocksPerYear

/-- New tokens are split: `validatorReward` is returned, the rest has gone to the committee and the reward
    fund, and all of it is in the supply. -/
def issue (s : Ledger) (perBlock : Nat) : Nat × Ledger :=
  let validatorReward := perBlock * s.inflationValidatorPercent / Config.hundredPercent
  let rest := perBlock - validatorReward
  let committee := rest * s.inflationRatio / Config.hundredPercent
  let reward := rest - committee
  (validatorReward, { s with
    committeeFund   := s.committeeFund + committee
    totalRewardFund := s.totalRewardFund + reward
    currentSupply   := s.currentSupply + (validatorReward + committee + reward : Nat) })

/-- The reward of the block's validator. With hardfork 13 a part of it waits for the stakeholders. -/
def payValidator (s : Ledger) (reward : Nat) : Result Ledger := do
  let owner := s.currentValidator
  let w ← s.getValidator owner
  if s.hasHardfork 13 ∧ 0 < w.sharingRate then
    let stakeholder := reward * w.sharingRate / Config.hundredPercent
    let s ← if 0 < reward - stakeholder then s.createVesting owner (reward - stakeholder : Nat) else pure s
    return { s with validators := s.validators.modify owner (fun w =>
      { w with pendingStakeholderReward := w.pendingStakeholderReward + stakeholder }) }
  else s.createVesting owner reward

/-- **`process_funds`.** -/
def processFunds (s : Ledger) : Result Ledger :=
  if s.hasHardfork 11 then
    let (reward, s) := s.issue Config.digitalAssetIssuedPerBlock
    s.payValidator reward
  else if s.hasHardfork 4 then do
    let (reward, s) := s.issue (inflationPerBlock s.headBlockNumber)
    let _ ← s.getValidator s.currentValidator
    s.createVesting s.currentValidator reward
  else do
    let perBlock := inflationPerBlock s.headBlockNumber
    let content := perBlock * Config.rewardFundPercent / Config.hundredPercent
    let vesting := perBlock * Config.vestingFundPercent / Config.hundredPercent
    let committee := perBlock * Config.committeeFundPercent / Config.hundredPercent
    let validator := perBlock - content - vesting - committee
    let _ ← s.getValidator s.currentValidator
    let s := { s with
      totalVestingFund := s.totalVestingFund + vesting
      committeeFund    := s.committeeFund + committee
      totalRewardFund  := s.totalRewardFund + content
      currentSupply    := s.currentSupply + (content + vesting + committee + validator : Nat) }
    s.createVesting s.currentValidator validator

/-- The stakeholders of a validator, each with its weight times the blocks of the epoch it voted in. A weight
    has 63 bits and a number of blocks 32, so the product fits in the 128 bits of the source. -/
def stakeholders (s : Ledger) (validator : AccountName) (epochStart : Nat) : List (AccountName × Nat) :=
  s.accounts.keys.filterMap (fun a =>
    match s.votes.find (a, validator) with
    | none         => none
    | some created =>
        let weight := (s.accounts.row a).validatorVoteFairWeight
        if 0 < weight then
          some (a, weight.toNat * (s.headBlockNumber + 1 - max created epochStart))
        else none)

/-- One stakeholder is paid; `paid` counts what went out. -/
def payStakeholder (total totalWeighted : Nat) (p : Ledger × Nat) (e : AccountName × Nat) :
    Result (Ledger × Nat) := do
  let tokens := total * e.2 % 2 ^ 128 / totalWeighted
  if tokens < Config.minStakeholderRewardPayout then return p
  else
    let s ← p.1.createVesting e.1 tokens
    return (s, p.2 + tokens)

/-- The pool of one validator is paid out. What rounding leaves goes to the validator. A share counts for one
    voter at each of five distances at most, so the sum of the weights fits in 128 bits with all its terms. -/
def distributePool (epochStart : Nat) (s : Ledger) (owner : AccountName) : Result Ledger := do
  let total := (s.validators.row owner).pendingStakeholderReward
  if total = 0 ∨ owner ∉ s.accounts.keys then return s
  else
    let entries := s.stakeholders owner epochStart
    let totalWeighted := (entries.map Prod.snd).sum
    let s ← if totalWeighted = 0 then s.createVesting owner total
      else do
        let (s, paid) ← entries.foldlM (payStakeholder total totalWeighted) (s, 0)
        let dust : Int := (total : Int) - paid
        if 0 < dust then s.createVesting owner dust else pure s
    return { s with validators := s.validators.modify owner (fun w =>
      { w with pendingStakeholderReward := 0 }) }

/-- **`process_validator_epoch_distribution`.** -/
def processValidatorEpochDistribution (s : Ledger) : Result Ledger :=
  let length := s.medianProps.distributionEpochLength
  if length = 0 ∨ s.headBlockNumber % length ≠ 0 then .ok s
  else (s.validators.keys.insertionSort (· ≤ ·)).foldlM (distributePool (s.headBlockNumber - length + 1)) s

/-- What of a `content_object` its payout reads; `curationPercent` is within the consensus bounds. **The weights
    are those of the votes and of the beneficiaries**, as the evaluators of content leave them. -/
structure Content where
  author          : AccountName
  netRshares      : Nat
  curationPercent : Nat
  totalVoteWeight : Nat
  votes           : List (AccountName × Nat)
  beneficiaries   : List Beneficiary
  percent_le      : curationPercent ≤ Config.hundredPercent
  votes_le        : (votes.map Prod.snd).sum ≤ totalVoteWeight
  weights_le      : (beneficiaries.map Beneficiary.weight).sum ≤ Config.hundredPercent

/-- One curator is paid; `unclaimed` is what the others leave. -/
def payCurator (curationTokens : Int) (totalWeight : Nat) (p : Ledger × Int) (v : AccountName × Nat) :
    Result (Ledger × Int) := do
  let claim ← mulDiv curationTokens v.2 totalWeight
  if 0 < claim then
    let s ← p.1.createVesting v.1 claim
    return (s, p.2 - claim)
  else return p

/-- The reward of a content: the curators have their part, the beneficiaries theirs of the rest, and the author
    what they leave, half of it as shares. -/
def payContent (s : Ledger) (c : Content) (reward : Int) : Result Ledger := do
  let curation := reward * c.curationPercent / Config.hundredPercent
  let (s, unclaimed) ← if 0 < c.totalVoteWeight
    then c.votes.foldlM (payCurator curation c.totalVoteWeight) (s, curation) else pure (s, curation)
  let authorTokens := reward - curation + unclaimed
  let (s, paid) ← c.beneficiaries.foldlM (payBeneficiary authorTokens) (s, 0)
  let authorTokens := authorTokens - paid
  let payout := authorTokens.tdiv 2
  let s ← s.createVesting c.author (authorTokens - payout)
  return s.adjustBalance c.author payout

/-- `cashout_content_helper`, before content was closed by hardfork 4. -/
def cashoutContent (s : Ledger) (c : Content) : Result Ledger := do
  require (¬ s.hasHardfork 4) .notEnabled
  if c.netRshares = 0 then return s
  else
    let reward ← mulDiv s.totalRewardFund c.netRshares s.totalRewardShares
    let s := { s with totalRewardFund := s.totalRewardFund - reward }
    let s ← if 0 < reward then s.payContent c reward else pure s
    return { s with totalRewardShares := s.totalRewardShares - c.netRshares }

/-! ## Accounts that are emptied -/

/-- The shares of an account are turned into tokens and taken. -/
def drainShares (s : Ledger) (name : AccountName) : Result (Int × Ledger) := do
  let a ← s.getAccount name
  if 0 < a.vestingShares then
    let converted ← s.sharesToTokens a.vestingShares
    let s := { s with
      totalVestingShares := s.totalVestingShares - a.vestingShares
      totalVestingFund   := s.totalVestingFund - converted }
    return (converted, s.modifyAccount name (fun a => { a with vestingShares := 0 }))
  else return (0, s)

/-- Everything an account has is taken, its shares as the tokens they are worth. The votes of the shares are
    not taken back. -/
def drainAccount (s : Ledger) (name : AccountName) : Result (Int × Ledger) := do
  let a ← s.getAccount name
  let held := max a.balance 0
  let (converted, s) ← (s.adjustBalance name (-held)).drainShares name
  return (held + converted, s)

/-- `clear_null_account_balance`. -/
def clearNullAccountBalance (s : Ledger) : Result Ledger := do
  let (total, s) ← s.drainAccount Config.nullAccount
  return if 0 < total then s.burnAsset (-total) else s

/-- `clear_anonymous_account_balance`. -/
def clearAnonymousAccountBalance (s : Ledger) : Result Ledger := do
  let (total, s) ← s.drainAccount Config.anonymousAccount
  return if 0 < total then s.burnAsset (-total) else s

/-- `claim_committee_account_balance`. -/
def claimCommitteeAccountBalance (s : Ledger) : Result Ledger := do
  let (total, s) ← s.drainAccount Config.committeeAccount
  return if 0 < total then s.adjustCommitteeFund total else s

/-! ## Requests and subscriptions -/

/-- The voters on a request with their votes. -/
def requestVotes (s : Ledger) (id : Nat) : List (AccountName × Int) :=
  (s.committeeVotes.keys.filter (fun k => decide (k.1 = id))).map (fun k => (k.2, s.committeeVotes.row k))

/-- The outcome of a request whose voting has ended: its new status and payout. -/
def requestOutcome (s : Ledger) (id : Nat) (r : CommitteeRequest) : Result (RequestStatus × Nat) := do
  let votes := s.requestVotes id
  require (∀ v ∈ votes, v.1 ∈ s.accounts.keys) .unknownAccount
  let shares := fun a => (s.accounts.row a).effectiveVestingShares
  let maxRshares := (votes.map (fun v => shares v.1)).sum
  let actualRshares := (votes.map (fun v => (shares v.1 * v.2).tdiv Config.hundredPercent)).sum
  let approveMin :=
    (s.totalVestingShares * s.medianProps.committeeRequestApproveMinPercent).tdiv Config.hundredPercent
  if ¬ s.hasHardfork 2 ∨ maxRshares < approveMin then return (.quorumFailed, 0)
  else if actualRshares ≤ 0 then return (.rejected, 0)
  else
    let part ← mulDiv Config.hundredPercent actualRshares maxRshares
    let payment := r.requiredAmountMax * part.toNat / Config.hundredPercent
    return (if payment < r.requiredAmountMin then .rejected else .approved, payment)

/-- The end of the voting on one request. -/
def concludeRequest (s : Ledger) (id : Nat) : Result Ledger := do
  let r := s.committeeRequests.row id
  if r.endTime ≤ s.time then
    let (status, payout) ← s.requestOutcome id r
    return { s with committeeRequests := s.committeeRequests.modify id (fun r =>
      { r with
        status                 := status
        conclusionTime         := s.time
        conclusionPayoutAmount := payout
        remainPayoutAmount     := if status = .approved then payout else r.remainPayoutAmount }) }
  else return s

/-- An instalment for one approved request. What remains is at least the instalment. -/
def payRequest (maxPayment : Int) (s : Ledger) (id : Nat) : Result Ledger := do
  let r := s.committeeRequests.row id
  let payment := min maxPayment r.remainPayoutAmount
  let _ ← s.getAccount r.worker
  let s := (s.adjustBalance r.worker payment).adjustCommitteeFund (-payment)
  let remain := ((r.remainPayoutAmount : Int) - payment).toNat
  return { s with committeeRequests := s.committeeRequests.modify id (fun r =>
    { r with
      payoutAmount       := r.payoutAmount + payment
      remainPayoutAmount := remain
      lastPayoutTime     := s.time
      status             := if remain = 0 then .paid else r.status
      payoutTime         := if remain = 0 then s.time else r.payoutTime }) }

/-- The requests with a status. -/
def requestsWith (s : Ledger) (status : RequestStatus) : List Nat :=
  s.committeeRequests.keys.filter (fun i => decide ((s.committeeRequests.row i).status = status))

/-- **`committee_processing`.** -/
def committeeProcessing (s : Ledger) : Result Ledger := do
  let s ← (s.requestsWith .voting).foldlM concludeRequest s
  if s.headBlockNumber % Config.committeeRequestProcessing ≠ 0 then return s
  else
    let approved := s.requestsWith .approved
    let maxPayment := s.committeeFund.tdiv ((approved.length + 1 : Nat) : Int)
    approved.foldlM (payRequest maxPayment) s

/-- A subscription that is not renewed. -/
def closeSubscribe (p : PaidSubscribe) : PaidSubscribe :=
  { p with endTime := p.nextTime, nextTime := Config.maximumTime, active := false, autoRenewal := false }

/-- A subscription that has come due: it is renewed when nothing got worse for the subscriber and the
    balance suffices. The period of the subscription itself is left as it was. -/
def renewSubscribe (s : Ledger) (key : AccountName × AccountName) : Result Ledger := do
  let ps := s.paidSubscribes.row key
  let closed : Ledger := { s with paidSubscribes := s.paidSubscribes.modify key closeSubscribe }
  match s.paidSubscriptions.find key.2 with
  | none   => return closed
  | some p =>
      if ps.autoRenewal then
        let a ← s.getAccount key.1
        let _ ← s.getAccount key.2
        let level := min ps.level p.levels
        let cost := p.amount * level
        if ps.period ≤ p.period ∧ cost ≤ ps.amount * ps.level ∧ (cost : Int) ≤ a.balance then
          let s := (s.adjustBalance key.1 (-cost)).adjustBalance key.2 cost
          return { s with paidSubscribes := s.paidSubscribes.modify key (fun q =>
            { q with
              amount    := p.amount
              level     := level
              startTime := s.time
              nextTime  := (s.time + p.period * 86400) % 2 ^ 32
              endTime   := Config.maximumTime }) }
        else return closed
      else return closed

/-- The `by_next_time` index. -/
def byNextTime (s : Ledger) : List (AccountName × AccountName) :=
  s.paidSubscribes.keys.insertionSort (fun a b =>
    (s.paidSubscribes.row a).nextTime ≤ (s.paidSubscribes.row b).nextTime)

/-- The loop of `paid_subscribe_processing`. The iterator is moved on after the subscription was changed, so
    it goes on from the new place of the subscription. -/
def subscribeLoop : Nat → Option (AccountName × AccountName) → Ledger → Result Ledger
  | 0,        _,        s => .ok s
  | _,        none,     s => .ok s
  | fuel + 1, some key, s =>
      if (s.paidSubscribes.row key).nextTime ≤ s.time then do
        let s ← if (s.paidSubscribes.row key).active then s.renewSubscribe key else pure s
        subscribeLoop fuel ((s.byNextTime.dropWhile (fun k => decide (k ≠ key))).tail).head? s
      else .ok s

/-- **`paid_subscribe_processing`.** A turn moves on in the index; only a subscription whose new time wraps goes back,
    and once. -/
def paidSubscribeProcessing (s : Ledger) : Result Ledger :=
  subscribeLoop ((s.paidSubscribes.keys.length + 1) * (s.paidSubscribes.keys.length + 1)) s.byNextTime.head? s

/-! ## The block -/

/-- The head block, as far as the ledger reads it. -/
structure Head where
  validator : AccountName
  timestamp : Nat

/-- `update_global_dynamic_data`, as far as the ledger reads it. -/
def moveHead (s : Ledger) (b : Head) : Ledger :=
  { s with
    currentValidator := b.validator
    time             := b.timestamp
    headBlockNumber  := s.headBlockNumber + 1 }

/-- The expirations behind the transactions. -/
def clearExpired (s : Ledger) : Result Ledger := do
  let s ← s.clearExpiredDelegations
  return if s.hasHardfork 9 then s.clearUsedInvites.clearClosedCommitteeRequests else s

/-- Inflation and rewards. -/
def processRewards (s : Ledger) : Result Ledger := do
  let s := if s.hasHardfork 4 then s.processInflationRecalc.expireAwardShares else s
  let s ← s.processFunds
  if s.hasHardfork 13 then s.processValidatorEpochDistribution else return s

/-- Withdrawals, recoveries, escrows and auctions. -/
def processAccounts (s : Ledger) : Result Ledger := do
  let s ← s.processVestingWithdrawals
  let s ← s.accountRecoveryProcessing.expireEscrowRatification
  if s.hasHardfork 11 then s.accountOnAuctionExpiration else return s

/-- The accounts that are emptied, the committee and the subscriptions. -/
def processClosing (s : Ledger) : Result Ledger := do
  let s ← s.clearNullAccountBalance
  let s ← s.clearAnonymousAccountBalance
  let s ← s.claimCommitteeAccountBalance
  let s ← s.committeeProcessing
  s.paidSubscribeProcessing

/-- **The processing of a block**, behind its transactions. -/
def processBlock (s : Ledger) (b : Head) : Result Ledger := do
  let s ← (s.moveHead b).clearExpired
  let s ← s.processRewards
  let s ← s.processAccounts
  s.processClosing

end Ledger

end VizNode
