import VizNode.Ledger.Evaluators

/-!
# `VizNode.Ledger.Services` — validators, invites, subscriptions, requests and awards

The evaluators of the remaining operations that move tokens, apart from the sale of accounts.

An invite secret is the public key that belongs to it, or nothing when it is blank or no WIF key.
-/

namespace VizNode

namespace Ledger

/-! ## Validators -/

/-- A fee goes from an account to the committee fund. -/
def payFee (s : Ledger) (account : AccountName) (fee : Nat) : Result Ledger := do
  let a ← s.getAccount account
  require ((fee : Int) ≤ a.balance) .insufficientFunds
  return (s.adjustBalance account (-fee)).adjustCommitteeFund fee

/-- `validator_update_evaluator`; the key and the url are not part of the ledger. -/
def validatorUpdate (s : Ledger) (owner : AccountName) : Result Ledger := do
  let _ ← s.getAccount owner
  if owner ∈ s.validators.keys then return s
  else
    let s ← if s.hasHardfork 9 then s.payFee owner s.medianProps.validatorDeclarationFee else pure s
    return { s with validators := s.validators.insert owner { rate_le := Nat.zero_le _ } }

def setRewardSharing (s : Ledger) (owner : AccountName) (sharingRate : Nat) : Result Ledger :=
  if h : sharingRate ≤ Config.hundredPercent then do
    require (s.hasHardfork 13) .notEnabled
    let _ ← s.getAccount owner
    let _ ← s.getValidator owner
    return { s with validators := s.validators.modify owner (fun w =>
      { w with sharingRate := sharingRate, rate_le := h }) }
  else .error .validation

/-! ## Invites -/

def createInvite (s : Ledger) (creator : AccountName) (balance : Nat) (inviteKey : PublicKey) :
    Result Ledger := do
  require (0 < balance) .validation
  let a ← s.getAccount creator
  require ((balance : Int) ≤ a.balance) .insufficientFunds
  require (inviteKey ≠ 0) .blankKey
  let minimum := if s.hasHardfork 9
    then s.medianProps.createInviteMinBalance else s.medianProps.accountCreationFee
  require (minimum ≤ balance) .belowMinimum
  require (inviteKey ∉ s.invites.keys) .duplicate
  let s := s.adjustBalance creator (-balance)
  let i : Invite :=
    { creator := creator, balance := balance, createTime := s.time, drained := fun h => absurd rfl h }
  return { s with invites := s.invites.insert inviteKey i }

/-- The invite of a secret, if it was not used yet. -/
def findInvite (s : Ledger) (secret : Option PublicKey) : Result (PublicKey × Invite) := do
  require (secret ≠ none) .blankKey
  let key := secret.getD 0
  match s.invites.find key with
  | none   => .error .unknownInvite
  | some i => do
      require (i.status = .active) .alreadyClaimed
      return (key, i)

/-- The balance of an invite has been taken. -/
def closeInvite (s : Ledger) (key : PublicKey) (status : InviteStatus) (receiver : AccountName) : Ledger :=
  { s with invites := s.invites.modify key (fun i =>
    { i with
      status         := status
      receiver       := receiver
      claimedBalance := i.balance
      balance        := 0
      claimTime      := s.time
      drained        := fun _ => rfl }) }

def claimInviteBalance (s : Ledger) (initiator receiver : AccountName) (secret : Option PublicKey) :
    Result Ledger := do
  let _ ← s.getAccount initiator
  let _ ← s.getAccount receiver
  let (key, i) ← s.findInvite secret
  return (s.adjustBalance receiver i.balance).closeInvite key .claimed receiver

def inviteRegistration (names : Names) (s : Ledger) (initiator newAccountName : AccountName)
    (secret : Option PublicKey) (newAccountKey : PublicKey) : Result Ledger := do
  require (names.validAccountName newAccountName ∧ names.validDomainName newAccountName initiator) .validation
  let _ ← s.getAccount initiator
  let (key, i) ← s.findInvite secret
  let s ← s.createAccount newAccountName
    { memoKey         := newAccountKey
      created         := s.time
      recoveryAccount := i.creator
      referrer        := i.creator }
    (.ofKey newAccountKey 0)
  let s ← s.createVesting newAccountName i.balance
  return s.closeInvite key .registered newAccountName

def useInviteBalance (s : Ledger) (initiator receiver : AccountName) (secret : Option PublicKey) :
    Result Ledger := do
  require (s.hasHardfork 9) .notEnabled
  let _ ← s.getAccount initiator
  let _ ← s.getAccount receiver
  let (key, i) ← s.findInvite secret
  let s ← s.createVesting receiver i.balance
  return s.closeInvite key .used receiver

/-! ## Paid subscriptions -/

def setPaidSubscription (s : Ledger) (account : AccountName) (levels amount period : Nat) :
    Result Ledger := do
  require (levels ≤ Config.paidSubscriptionMaxLevel ∧ 0 < amount ∧ 0 < period ∧
    period ≤ Config.paidSubscriptionMaxPeriod) .validation
  require (s.hasHardfork 5) .notEnabled
  let _ ← s.getAccount account
  let p : PaidSubscription := { levels := levels, amount := amount, period := period, updateTime := s.time }
  match s.paidSubscriptions.find account with
  | some _ => return { s with paidSubscriptions := s.paidSubscriptions.modify account (fun _ => p) }
  | none   =>
      let s ← if s.hasHardfork 9 then s.payFee account s.medianProps.createPaidSubscriptionFee else pure s
      return { s with paidSubscriptions := s.paidSubscriptions.insert account p }

structure PaidSubscribeOp where
  subscriber  : AccountName
  account     : AccountName
  level       : Nat
  amount      : Nat
  period      : Nat
  autoRenewal : Bool

namespace PaidSubscribeOp

/-- The subscription of the operation, running for `seconds`. A time has 32 bits. -/
def subscribe (o : PaidSubscribeOp) (now seconds : Nat) : PaidSubscribe :=
  { level       := o.level
    amount      := o.amount
    period      := o.period
    startTime   := now
    nextTime    := (now + seconds) % 2 ^ 32
    endTime     := Config.maximumTime
    active      := true
    autoRenewal := o.autoRenewal }

end PaidSubscribeOp

/-- Tokens of the subscriber go to the creator. -/
def paySubscription (s : Ledger) (subscriber account : AccountName) (cost : Int) : Result Ledger := do
  let a ← s.getAccount subscriber
  let _ ← s.getAccount account
  require (cost ≤ a.balance) .insufficientFunds
  return (s.adjustBalance subscriber (-cost)).adjustBalance account cost

/-- A running subscription is changed: what is left of the old one counts for the new one. -/
def changeSubscription (s : Ledger) (o : PaidSubscribeOp) (old : PaidSubscribe) : Result Ledger := do
  let key := (o.subscriber, o.account)
  let summary := o.amount * o.level
  let remain ← mulDiv ((old.amount * old.level : Nat) : Int) ((old.nextTime : Int) - s.time)
    ((old.period * 86400 : Nat) : Int)
  if (summary : Int) ≤ remain then
    let seconds := remain.toNat * o.period * 86400 / summary
    return { s with paidSubscribes := s.paidSubscribes.modify key (fun _ => o.subscribe s.time seconds) }
  else
    let s ← s.paySubscription o.subscriber o.account (summary - remain)
    return { s with paidSubscribes := s.paidSubscribes.modify key (fun _ =>
      o.subscribe s.time (o.period * 86400)) }

/-- A new subscription. -/
def newSubscription (s : Ledger) (o : PaidSubscribeOp) : Result Ledger := do
  let s ← s.paySubscription o.subscriber o.account ((o.amount * o.level : Nat) : Int)
  let p := o.subscribe s.time (o.period * 86400)
  return { s with paidSubscribes := s.paidSubscribes.insert (o.subscriber, o.account) p }

def paidSubscribe (s : Ledger) (o : PaidSubscribeOp) : Result Ledger := do
  require (o.level ≤ Config.paidSubscriptionMaxLevel ∧ 0 < o.amount ∧ 0 < o.period ∧
    o.period ≤ Config.paidSubscriptionMaxPeriod) .validation
  require (s.hasHardfork 5) .notEnabled
  require (0 < o.level) .validation
  let _ ← s.getAccount o.subscriber
  let _ ← s.getAccount o.account
  match s.paidSubscriptions.find o.account with
  | none   => .error .unknownSubscription
  | some p => do
      require (p.levels ≠ 0) .levelClosed
      require (o.level ≤ p.levels) .levelTooHigh
      require (p.period = o.period) .periodMismatch
      require (p.amount = o.amount) .amountMismatch
      let key := (o.subscriber, o.account)
      match s.paidSubscribes.find key with
      | none     => s.newSubscription o
      | some old =>
          if old.active then
            if old.amount = o.amount ∧ old.level = o.level ∧ old.period = o.period then do
              require (old.autoRenewal ≠ o.autoRenewal) .renewalUnchanged
              return { s with paidSubscribes := s.paidSubscribes.modify key (fun p =>
                { p with autoRenewal := o.autoRenewal }) }
            else s.changeSubscription o old
          else newSubscription { s with paidSubscribes := s.paidSubscribes.erase key } o

/-! ## The committee -/

structure CommitteeCreateRequest where
  creator           : AccountName
  url               : Nat
  worker            : AccountName
  requiredAmountMin : Nat
  requiredAmountMax : Nat
  duration          : Nat

def committeeWorkerCreateRequest (s : Ledger) (o : CommitteeCreateRequest) : Result Ledger := do
  require (o.requiredAmountMin < o.requiredAmountMax ∧
    o.requiredAmountMax ≤ Config.committeeMaxRequiredAmount ∧
    Config.committeeMinDuration ≤ o.duration ∧ o.duration ≤ Config.committeeMaxDuration) .validation
  let creator ← s.getAccount o.creator
  let _ ← s.getAccount o.worker
  let fee := s.medianProps.committeeCreateRequestFee
  requireIf (s.hasHardfork 9) ((fee : Int) ≤ creator.balance) .insufficientFunds
  let requests := s.committeeRequests
  require (∀ i ∈ requests.keys, ¬ ((requests.row i).creator = o.creator ∧ (requests.row i).url = o.url))
    .requestExists
  require (∀ i ∈ requests.keys, (requests.row i).creator = o.creator →
    Config.committeeRequestPerTime + (requests.row i).startTime ≤ s.time) .requestTooSoon
  let id := s.committeeRequestCount + 1
  require (id ∉ requests.keys) .duplicate
  let r : CommitteeRequest :=
    { creator           := o.creator
      worker            := o.worker
      url               := o.url
      requiredAmountMin := o.requiredAmountMin
      requiredAmountMax := o.requiredAmountMax
      startTime         := s.time
      endTime           := s.time + o.duration }
  let s := { s with committeeRequests := requests.insert id r, committeeRequestCount := id }
  if s.hasHardfork 9 then s.payFee o.creator fee else return s

def committeeWorkerCancelRequest (s : Ledger) (creator : AccountName) (id : Nat) : Result Ledger := do
  let _ ← s.getAccount creator
  match s.committeeRequests.find id with
  | none   => .error .unknownRequest
  | some r => do
      require (r.creator = creator) .notCreator
      require (r.status = .voting) .requestClosed
      return { s with committeeRequests := s.committeeRequests.modify id (fun r =>
        { r with status := .canceled, conclusionTime := s.time }) }

def committeeVoteRequest (s : Ledger) (voter : AccountName) (id : Nat) (votePercent : Int) :
    Result Ledger := do
  require (-Config.hundredPercent ≤ votePercent ∧ votePercent ≤ Config.hundredPercent) .validation
  let _ ← s.getAccount voter
  match s.committeeRequests.find id with
  | none   => .error .unknownRequest
  | some r => do
      require (r.status = .voting) .requestClosed
      match s.committeeVotes.find (id, voter) with
      | some old => do
          require (old ≠ votePercent) .voteUnchanged
          return { s with committeeVotes := s.committeeVotes.modify (id, voter) (fun _ => votePercent) }
      | none =>
          return { s with
            committeeVotes    := s.committeeVotes.insert (id, voter) votePercent
            committeeRequests := s.committeeRequests.modify id (fun r =>
              { r with votesCount := r.votesCount + 1 }) }

/-! ## Awards -/

/-- `calc_rshare_award`: the part of the reward fund that so many reward shares claim. -/
def calcRshareAward (s : Ledger) (rshares : Int) : Result Int := do
  require (0 < rshares) .zeroRshares
  mulDiv s.totalRewardFund rshares (s.totalRewardShares + rshares)

/-- `claim_rshare_award`. -/
def claimRshareAward (s : Ledger) (rshares : Int) : Result (Int × Ledger) := do
  let payout ← s.calcRshareAward rshares
  return (payout, { s with
    totalRewardFund   := s.totalRewardFund - payout
    totalRewardShares := s.totalRewardShares + rshares.toNat
    awardExpires      := s.awardExpires ++ [(s.time + Config.energyRegenerationSeconds, rshares.toNat)] })

/-- A beneficiary of an award. -/
structure Beneficiary where
  account : AccountName
  weight  : Nat
deriving DecidableEq, Repr

/-- One beneficiary is paid its weight of `tokens`; `paid` counts what went out. -/
def payBeneficiary (tokens : Int) (p : Ledger × Int) (b : Beneficiary) : Result (Ledger × Int) := do
  let amount := tokens * b.weight / Config.hundredPercent
  let s ← p.1.createVesting b.account amount
  return (s.modifyAccount b.account (fun a => { a with benefactorAwards := a.benefactorAwards + amount }),
    p.2 + amount)

/-- The beneficiaries share `tokens` by weight, the receiver has what they leave of `own`. -/
def payAward (s : Ledger) (receiver : AccountName) (beneficiaries : List Beneficiary) (tokens own : Int) :
    Result Ledger := do
  let (s, paid) ← beneficiaries.foldlM (payBeneficiary tokens) (s, 0)
  let rest := own - paid
  if 0 < rest then
    let s ← s.createVesting receiver rest
    return s.modifyAccount receiver (fun a => { a with receiverAwards := a.receiverAwards + rest })
  else return s

/-- The weights of the beneficiaries do not add up to more than everything. -/
def weightsWithin (bs : List Beneficiary) : Prop :=
  bs.length < 128 ∧ (bs.map Beneficiary.weight).sum ≤ Config.hundredPercent

instance (bs : List Beneficiary) : Decidable (weightsWithin bs) := inferInstanceAs (Decidable (_ ∧ _))

/-- The initiator has spent energy. -/
def spendEnergy (s : Ledger) (initiator : AccountName) (energy : Int) : Ledger :=
  s.modifyAccount initiator (fun a =>
    { a with energy := energy, lastVoteTime := s.time, voteCount := a.voteCount + 1 })

structure Award where
  initiator     : AccountName
  receiver      : AccountName
  energy        : Nat
  beneficiaries : List Beneficiary

/-- `award_evaluator`; a node that is producing a block also limits the number of beneficiaries. -/
def award (producing : Bool) (s : Ledger) (o : Award) : Result Ledger := do
  require (o.energy ≤ Config.hundredPercent ∧ weightsWithin o.beneficiaries) .validation
  require (s.hasHardfork 4) .notEnabled
  let a ← s.getAccount o.initiator
  let _ ← s.getAccount o.receiver
  let currentEnergy := a.currentEnergy s.time
  require (0 < currentEnergy ∧ (o.energy : Int) ≤ currentEnergy) .insufficientEnergy
  let rshares ← mulDiv a.effectiveVestingShares o.energy Config.hundredPercent
  let (tokens, s) ← if rshares < s.medianProps.voteAccountingMinRshares then pure (0, s)
    else s.claimRshareAward rshares
  let s := s.spendEnergy o.initiator (currentEnergy - o.energy)
  if 0 < tokens then
    requireIf producing (o.beneficiaries.length ≤ Config.maxCommentBeneficiaries) .validation
    s.payAward o.receiver o.beneficiaries tokens tokens
  else return s

structure FixedAward where
  initiator     : AccountName
  receiver      : AccountName
  rewardAmount  : Nat
  maxEnergy     : Nat
  beneficiaries : List Beneficiary

/-- `fixed_award_evaluator`. The shares that earn the reward are worked out backwards, one step of energy is
    added, and what comes out above the reward is meant for the committee fund. -/
def fixedAward (producing : Bool) (s : Ledger) (o : FixedAward) : Result Ledger := do
  require (0 < o.rewardAmount ∧ o.maxEnergy ≤ Config.hundredPercent ∧ weightsWithin o.beneficiaries)
    .validation
  require (s.hasHardfork 11) .notEnabled
  let a ← s.getAccount o.initiator
  let _ ← s.getAccount o.receiver
  let currentEnergy := a.currentEnergy s.time
  require (0 < currentEnergy ∧ (o.maxEnergy : Int) ≤ currentEnergy) .insufficientEnergy
  let maxRshares ← mulDiv a.effectiveVestingShares o.maxEnergy Config.hundredPercent
  let maxReward ← s.calcRshareAward maxRshares
  require ((o.rewardAmount : Int) ≤ maxReward) .rewardTooHigh
  let needed ← mulDiv o.rewardAmount s.totalRewardShares (s.totalRewardFund - o.rewardAmount)
  require (needed ≤ maxRshares) .rewardTooHigh
  let part ← mulDiv needed o.maxEnergy maxRshares
  let needEnergy := min (part + 1) Config.hundredPercent
  let rshares ← mulDiv a.effectiveVestingShares needEnergy Config.hundredPercent
  let counted := if rshares < s.medianProps.voteAccountingMinRshares then 0 else rshares
  let expected ← if counted = 0 then pure 0 else s.calcRshareAward counted
  require ((o.rewardAmount : Int) ≤ expected) .rewardTooHigh
  require (counted ≠ 0) .zeroRshares
  let (tokens, s) ← s.claimRshareAward counted
  require (0 < tokens) .zeroReward
  let s := s.spendEnergy o.initiator (currentEnergy - needEnergy)
  requireIf producing (o.beneficiaries.length ≤ Config.maxCommentBeneficiaries) .validation
  let donation := tokens - o.rewardAmount
  let s ← s.payAward o.receiver o.beneficiaries tokens o.rewardAmount
  if 0 < donation then return s.adjustCommitteeFund donation else return s

end Ledger

end VizNode
