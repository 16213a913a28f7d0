import VizNode.Protocol
import VizNode.Lib.Table

/-!
# `VizNode.Ledger.Objects` — the objects that operations work on

The part of the object database that operation evaluators and the per-block processing read and write:
accounts with their balances, the global funds, escrows, invites, delegations, routes, votes, requests and
subscriptions.

**Amounts.** An amount that an operation carries, or that a check keeps from falling below zero, is a `Nat`.
A field that is only ever added to and subtracted from is an `Int`, whether or not it can become negative.
The source's `safe<int64_t>` throws where a sum leaves 64 bits; the model does not follow it there.

**The split.** `AccountBook` and `Books` hold what the results below are about. The rest of an account and of
the ledger is read and written by the same functions, and no result depends on it.

## Contents
- **Accounts and authorities.**
- **Objects.** Escrows, invites, delegations, routes, votes, requests, subscriptions.
- **The ledger.** `Books`, `Ledger` and what is read off them.
-/

namespace VizNode

namespace Config

def maxProxyRecursionDepth : Nat := 4
def vestingWithdrawIntervals : Nat := 28
def vestingWithdrawIntervalSeconds : Nat := 60 * 60 * 24
def maxWithdrawRoutes : Nat := 10
def energyRegenerationSeconds : Nat := 5 * 60 * 60 * 24
def cashoutWindowSeconds : Nat := 60 * 60 * 24
def maxAccountValidatorVotesPreHf4 : Nat := 2
def maxAccountValidatorVotes : Nat := 100
def accountOnSaleDelay : Nat := 7 * 24 * 60 * 60
def accountAuctionMinStep : Nat := hundredPercent / 10
def accountAuctionExtensionTime : Nat := 5 * 60
def masterUpdateLimit : Nat := 60 * 60
def masterAuthRecoveryPeriod : Nat := 30 * 24 * 60 * 60
def accountRecoveryRequestExpirationPeriod : Nat := 24 * 60 * 60
def clearUsedInviteDelay : Nat := 24 * 60 * 60
def clearClosedCommitteeRequestDelay : Nat := 7 * 24 * 60 * 60
def digitalAssetIssuedPerBlock : Nat := 1000
def minStakeholderRewardPayout : Nat := 1
def blocksPerHour : Nat := 60 * 60 / blockInterval
def blocksPerYear : Nat := 365 * 24 * 60 * 60 / blockInterval
def committeeRequestProcessing : Nat := blocksPerHour / 6
def committeeRequestPerTime : Nat := 60 * 60 * 24
def committeeMinDuration : Nat := 60 * 60 * 24 * 5
def committeeMaxDuration : Nat := 60 * 60 * 24 * 30
def initSupply : Nat := 50000000000
def committeeMaxRequiredAmount : Nat := initSupply / 100
def fixedInflation : Nat := 1000
def vestingFundPercent : Nat := 1000
def rewardFundPercent : Nat := 3500
def committeeFundPercent : Nat := 3500
def maxCommentBeneficiaries : Nat := 64
def paidSubscriptionMaxLevel : Nat := 1000
def paidSubscriptionMaxPeriod : Nat := 1000

/-- `time_point_sec::maximum()`. -/
def maximumTime : Nat := 2 ^ 32 - 1

/-- `"null"`, padded to 32 bytes. -/
def nullAccount : AccountName := 0x6e756c6c * 2 ^ 224

/-- `"committee"`. -/
def committeeAccount : AccountName := emergencyValidatorAccount

/-- `"anonymous"`, padded to 32 bytes. -/
def anonymousAccount : AccountName := 0x616e6f6e796d6f7573 * 2 ^ 184

/-- `"invite"`, padded to 32 bytes. -/
def inviteAccount : AccountName := 0x696e76697465 * 2 ^ 208

/-- `"viz"`, `CHAIN_INITIATOR_NAME`, padded to 32 bytes. -/
def initiatorName : AccountName := 0x76697a * 2 ^ 232

/-- The accounts that genesis creates without a key. -/
def keyless : List AccountName := [nullAccount, committeeAccount, anonymousAccount]

end Config

/-! ## Accounts and authorities -/

/-- `authority`. -/
structure Authority where
  weightThreshold : Nat := 0
  accountAuths    : List (AccountName × Nat) := []
  keyAuths        : List (PublicKey × Nat) := []
deriving DecidableEq, Repr, Inhabited

namespace Authority

/-- `is_impossible`: all the weights together do not reach the threshold. -/
def isImpossible (a : Authority) : Bool :=
  decide ((a.accountAuths.map Prod.snd).sum + (a.keyAuths.map Prod.snd).sum < a.weightThreshold)

/-- One key with all the weight. -/
def ofKey (k : PublicKey) : Authority := { weightThreshold := 1, keyAuths := [(k, 1)] }

end Authority

/-- `account_authority_object`. -/
structure AccountAuthority where
  master           : Authority
  active           : Authority
  regular          : Authority
  lastMasterUpdate : Nat := 0
deriving DecidableEq, Repr, Inhabited

namespace AccountAuthority

/-- Some set of signatures can satisfy one of the three authorities. -/
def canSign (a : AccountAuthority) : Bool :=
  !(a.master.isImpossible && a.active.isImpossible && a.regular.isImpossible)

/-- The same key for everything. -/
def ofKey (k : PublicKey) (now : Nat) : AccountAuthority :=
  { master := .ofKey k, active := .ofKey k, regular := .ofKey k, lastMasterUpdate := now }

end AccountAuthority

/-- `master_authority_history_object`. -/
structure MasterHistory where
  account                 : AccountName
  previousMasterAuthority : Authority
  lastValidTime           : Nat
deriving DecidableEq, Repr

/-- **What an account owns, owes and stands for.** -/
structure AccountBook where
  balance                : Int := 0
  reservedBalance        : Int := 0
  vestingShares          : Int := 0
  delegatedVestingShares : Int := 0
  receivedVestingShares  : Int := 0
  vestingWithdrawRate    : Int := 0
  nextVestingWithdrawal  : Nat := Config.maximumTime
  withdrawn              : Int := 0
  toWithdraw             : Int := 0
  proxy                  : AccountName := 0
  /-- The entries of `fc::array<share_type, CHAIN_MAX_PROXY_RECURSION_DEPTH>`. -/
  proxiedVsfVotes        : Nat → Int := fun _ => 0
  accountOnSale          : Bool := false
  accountOnAuction       : Bool := false
  currentBid             : Nat := 0
  currentBidder          : AccountName := 0

instance : Inhabited AccountBook := ⟨{}⟩

/-- `account_object`. The name is the key of its table, the id its place in it. -/
structure Account extends AccountBook where
  energy                 : Int := Config.hundredPercent
  lastVoteTime           : Nat := 0
  created                : Nat := 0
  memoKey                : PublicKey := 0
  referrer               : AccountName := 0
  recoveryAccount        : AccountName := 0
  lastAccountUpdate      : Nat := 0
  lastAccountRecovery    : Nat := 0
  voteCount              : Nat := 0
  receiverAwards         : Int := 0
  benefactorAwards       : Int := 0
  withdrawRoutes         : Nat := 0
  validatorsVotedFor     : Nat := 0
  validatorsVoteWeight   : Int := 0
  valid                  : Bool := true
  accountSeller          : AccountName := 0
  accountOfferPrice      : Nat := 0
  accountOnSaleStartTime : Nat := 0
  targetBuyer            : AccountName := 0
  currentBidderKey       : PublicKey := 0
  lastBid                : Nat := 0
  subaccountSeller       : AccountName := 0
  subaccountOfferPrice   : Nat := 0
  subaccountOnSale       : Bool := false

instance : Inhabited Account := ⟨{}⟩

namespace Account

/-- `validator_vote_weight`: the account's shares and everything proxied to it. -/
def validatorVoteWeight (a : Account) : Int :=
  a.proxiedVsfVotes 0 + a.proxiedVsfVotes 1 + a.proxiedVsfVotes 2 + a.proxiedVsfVotes 3 + a.vestingShares

/-- `validator_vote_fair_weight_prehf5`: the own shares are split, the proxied ones are not. -/
def validatorVoteFairWeightPreHf5 (a : Account) : Int :=
  let weight := if 0 < a.validatorsVotedFor then a.vestingShares / (a.validatorsVotedFor : Int) else 0
  a.proxiedVsfVotes 0 + a.proxiedVsfVotes 1 + a.proxiedVsfVotes 2 + a.proxiedVsfVotes 3 + weight

/-- `validator_vote_fair_weight`: everything is split among the voted validators. -/
def validatorVoteFairWeight (a : Account) : Int :=
  if 0 < a.validatorsVotedFor then a.validatorVoteWeight / (a.validatorsVotedFor : Int) else 0

/-- `effective_vesting_shares`. -/
def effectiveVestingShares (a : Account) : Int :=
  a.vestingShares - a.delegatedVestingShares + a.receivedVestingShares

/-- `available_vesting_shares`. -/
def availableVestingShares (a : Account) (considerWithdrawal : Bool) : Int :=
  let have_ := a.vestingShares - a.delegatedVestingShares
  if considerWithdrawal then have_ - (a.toWithdraw - a.withdrawn) else have_

/-- The energy that has grown back by `now`, at most all of it. -/
def currentEnergy (a : Account) (now : Nat) : Int :=
  let elapsed : Int := (now : Int) - a.lastVoteTime
  let regenerated := (Config.hundredPercent * elapsed).tdiv Config.energyRegenerationSeconds
  min (a.energy + regenerated) Config.hundredPercent

end Account

/-! ## Objects -/

/-- `escrow_object`. The key is `(from, escrow_id)`. **An approved escrow has paid its fee.** -/
structure Escrow where
  to_                  : AccountName
  agent                : AccountName
  ratificationDeadline : Nat
  escrowExpiration     : Nat
  tokenBalance         : Nat
  pendingFee           : Nat
  toApproved           : Bool := false
  agentApproved        : Bool := false
  disputed             : Bool := false
  feePaid              : toApproved = true → agentApproved = true → pendingFee = 0

instance : Inhabited Escrow :=
  ⟨{ to_ := 0, agent := 0, ratificationDeadline := 0, escrowExpiration := 0, tokenBalance := 0,
     pendingFee := 0, feePaid := fun _ _ => rfl }⟩

namespace Escrow

def isApproved (e : Escrow) : Bool := e.toApproved && e.agentApproved

end Escrow

/-- The status of an invite. -/
inductive InviteStatus where
  | active | claimed | registered | used
deriving DecidableEq, Repr

/-- `invite_object`. The key is the invite key. **An invite that was used is empty.** -/
structure Invite where
  creator        : AccountName
  receiver       : AccountName := 0
  balance        : Nat
  claimedBalance : Nat := 0
  createTime     : Nat
  claimTime      : Nat := 0
  status         : InviteStatus := .active
  drained        : status ≠ .active → balance = 0

instance : Inhabited Invite := ⟨{ creator := 0, balance := 0, createTime := 0, drained := fun _ => rfl }⟩

/-- `vesting_delegation_object`. The key is `(delegator, delegatee)`. -/
structure Delegation where
  vestingShares     : Int
  minDelegationTime : Nat
deriving DecidableEq, Repr, Inhabited

/-- `vesting_delegation_expiration_object`. -/
structure DelegationExpiration where
  delegator     : AccountName
  vestingShares : Int
  expiration    : Nat
deriving DecidableEq, Repr

/-- `withdraw_vesting_route_object`. The key is `(from_account, to_account)`. -/
structure Route where
  percent  : Nat
  autoVest : Bool
deriving DecidableEq, Repr, Inhabited

/-- What of a `validator_object` operations and funds work on. The key is the owner. **The sharing rate is a
    percentage.** -/
structure ValidatorAccount where
  votes                    : Int := 0
  sharingRate              : Nat := 0
  pendingStakeholderReward : Nat := 0
  rate_le                  : sharingRate ≤ Config.hundredPercent

instance : Inhabited ValidatorAccount := ⟨{ rate_le := Nat.zero_le _ }⟩

/-- The status of a committee request. -/
inductive RequestStatus where
  | voting | canceled | quorumFailed | rejected | approved | paid
deriving DecidableEq, Repr

/-- `committee_request_object`. The key is the request id. -/
structure CommitteeRequest where
  creator                : AccountName
  worker                 : AccountName
  url                    : Nat
  requiredAmountMin      : Nat
  requiredAmountMax      : Nat
  startTime              : Nat
  endTime                : Nat
  status                 : RequestStatus := .voting
  votesCount             : Nat := 0
  conclusionTime         : Nat := 0
  conclusionPayoutAmount : Nat := 0
  payoutAmount           : Int := 0
  remainPayoutAmount     : Nat := 0
  lastPayoutTime         : Nat := 0
  payoutTime             : Nat := 0
deriving DecidableEq, Repr, Inhabited

/-- `paid_subscription_object`. The key is the creator. -/
structure PaidSubscription where
  levels     : Nat
  amount     : Nat
  period     : Nat
  updateTime : Nat
deriving DecidableEq, Repr, Inhabited

/-- `paid_subscribe_object`. The key is `(subscriber, creator)`. -/
structure PaidSubscribe where
  level       : Nat
  amount      : Nat
  period      : Nat
  startTime   : Nat
  nextTime    : Nat
  endTime     : Nat
  active      : Bool := false
  autoRenewal : Bool := false
deriving DecidableEq, Repr, Inhabited

/-- The median chain properties that operations read. -/
structure MedianProps where
  accountCreationFee                : Nat
  createAccountDelegationRatio      : Nat
  createAccountDelegationTime       : Nat
  minDelegation                     : Nat
  voteAccountingMinRshares          : Nat
  committeeRequestApproveMinPercent : Nat
  inflationValidatorPercent         : Nat
  inflationRatio                    : Nat
  inflationRecalcPeriod             : Nat
  createInviteMinBalance            : Nat
  committeeCreateRequestFee         : Nat
  createPaidSubscriptionFee         : Nat
  accountOnSaleFee                  : Nat
  subaccountOnSaleFee               : Nat
  validatorDeclarationFee           : Nat
  withdrawIntervals                 : Nat
  distributionEpochLength           : Nat
  validatorPercent_le               : inflationValidatorPercent ≤ Config.hundredPercent
  ratio_le                          : inflationRatio ≤ Config.hundredPercent
deriving DecidableEq, Repr

/-! ## The ledger -/

/-- Objects named by two accounts are looked up in the list of their keys. -/
instance memPairsDecidable (key : AccountName × AccountName) (keys : List (AccountName × AccountName)) :
    Decidable (key ∈ keys) := inferInstance

/-- **The books**: every pool of tokens and shares, and who may sign for an account. -/
structure Books where
  accounts           : Table AccountName Account
  authorities        : Table AccountName AccountAuthority
  masterHistory      : List MasterHistory
  currentSupply      : Int
  totalVestingFund   : Int
  totalVestingShares : Int
  totalRewardFund    : Int
  committeeFund      : Int
  escrows            : Table (AccountName × Nat) Escrow
  invites            : Table PublicKey Invite
  validators         : Table AccountName ValidatorAccount
  delegations        : Table (AccountName × AccountName) Delegation
  expirations        : List DelegationExpiration
  routes             : Table (AccountName × AccountName) Route

/-- The time a recovery request lapses, with the authority it asks for. -/
structure RecoveryRequest where
  newMasterAuthority : Authority
  expires            : Nat
deriving DecidableEq, Repr, Inhabited

/-- **The ledger.** `hardfork` is the number of hardforks applied, `anonymousNum` the counter in the metadata
    of the anonymous account, a vote's row the block it was cast in. -/
structure Ledger extends Books where
  hardfork                  : Nat
  time                      : Nat
  headBlockNumber           : Nat
  currentValidator          : AccountName
  medianProps               : MedianProps
  inflationCalcBlockNum     : Nat
  inflationValidatorPercent : Nat
  inflationRatio            : Nat
  validatorPercent_le       : inflationValidatorPercent ≤ Config.hundredPercent
  ratio_le                  : inflationRatio ≤ Config.hundredPercent
  totalRewardShares         : Nat
  awardExpires              : List (Nat × Nat)
  votes                     : Table (AccountName × AccountName) Nat
  paidSubscriptions         : Table AccountName PaidSubscription
  paidSubscribes            : Table (AccountName × AccountName) PaidSubscribe
  committeeRequestCount     : Nat
  committeeRequests         : Table Nat CommitteeRequest
  committeeVotes            : Table (Nat × AccountName) Int
  recoveryRequests          : Table AccountName RecoveryRequest
  anonymousNum              : Nat

/-- Why an evaluator refuses: an object is missing or exists already, or the check that failed. -/
inductive Refusal where
  | unknownAccount | unknownValidator | unknownEscrow | unknownInvite | unknownRequest | unknownSubscription
  | duplicate | notEnabled | authority | validation
  | insufficientFunds | insufficientShares | insufficientDelegation | insufficientEnergy
  | negativeAmount | zeroDivisor
  | deadlinePassed | partyMismatch | alreadyApproved | notApproved | alreadyDisputed | releaseAmount
  | releaseParty
  | rateUnchanged | zeroRoute | tooManyRoutes | routesAboveHundred
  | proxyUnchanged | proxyLoop | proxyChainTooLong | voteMissing | voteExists | tooManyVotes | votesAboveTotal
  | proxySet
  | belowMinimum | notOnSale | recoveryPending | targetBuyer | bidTooLow | bidPending | priceMismatch
  | nameTaken | nameInvalid | blankKey
  | alreadyClaimed | levelClosed | levelTooHigh | periodMismatch | amountMismatch | renewalUnchanged
  | requestExists | requestTooSoon | requestClosed | notCreator | voteUnchanged
  | recoveryPartner | openAuthority | impossibleAuthority | noRecoveryRequest | recentAuthority
  | updateTooSoon | zeroRshares | rewardTooHigh | zeroReward
deriving DecidableEq, Repr

/-- **What is not modelled further**: names as text, keys in memos and invite secrets. -/
structure Names where
  /-- `is_valid_account_name`. -/
  validAccountName    : AccountName → Bool
  /-- `is_valid_domain_name`. -/
  validDomainName     : AccountName → AccountName → Bool
  /-- `is_valid_create_account_name`. -/
  validCreateName     : AccountName → Bool
  /-- The part before the first dot and the part behind it. -/
  splitName           : AccountName → Option (AccountName × AccountName)
  /-- `"n" + n + ".anonymous"`. -/
  anonymousName       : Nat → AccountName
  /-- A valid name has at least two letters. -/
  empty_invalid       : validAccountName 0 = false

namespace Ledger

abbrev Result := Except Refusal

/-! ## Reading and writing -/

/-- `FC_ASSERT`. -/
def require (c : Prop) [Decidable c] (e : Refusal) : Result Unit := if c then .ok () else .error e

def hasHardfork (s : Ledger) (n : Nat) : Bool := decide (n ≤ s.hardfork)

/-- `get_account`. -/
def getAccount (s : Ledger) (name : AccountName) : Result Account :=
  match s.accounts.find name with
  | some a => .ok a
  | none   => .error .unknownAccount

/-- `modify` on an account. -/
def modifyAccount (s : Ledger) (name : AccountName) (f : Account → Account) : Ledger :=
  { s with accounts := s.accounts.modify name f }

/-- `create<account_object>`, with its authority. -/
def createAccount (s : Ledger) (name : AccountName) (a : Account) (auth : AccountAuthority) :
    Result Ledger :=
  if name ∈ s.accounts.keys then .error .duplicate
  else .ok { s with
    accounts    := s.accounts.insert name a
    authorities := s.authorities.insert name auth }

/-- `get_validator`. -/
def getValidator (s : Ledger) (name : AccountName) : Result ValidatorAccount :=
  match s.validators.find name with
  | some w => .ok w
  | none   => .error .unknownValidator

/-- `adjust_balance`. -/
def adjustBalance (s : Ledger) (name : AccountName) (delta : Int) : Ledger :=
  s.modifyAccount name (fun a => { a with balance := a.balance + delta })

/-- `burn_asset`. -/
def burnAsset (s : Ledger) (delta : Int) : Ledger := { s with currentSupply := s.currentSupply + delta }

def adjustCommitteeFund (s : Ledger) (delta : Int) : Ledger :=
  { s with committeeFund := s.committeeFund + delta }

/-! ## The share price -/

/-- `amount * price` as 128-bit arithmetic has it: a negative product has high bits and is refused. -/
def mulDiv (amount numerator denominator : Int) : Result Int := do
  require (0 < denominator) .zeroDivisor
  require (0 ≤ amount * numerator) .negativeAmount
  return amount * numerator / denominator

/-- `get_vesting_share_price`: so many shares for so many tokens. -/
def vestingSharePrice (s : Ledger) : Int × Int :=
  if s.totalVestingFund = 0 ∨ s.totalVestingShares = 0 then (1000000, 1000)
  else (s.totalVestingShares, s.totalVestingFund)

/-- Tokens at the share price. -/
def tokensToShares (s : Ledger) (tokens : Int) : Result Int :=
  mulDiv tokens s.vestingSharePrice.1 s.vestingSharePrice.2

/-- Shares at the share price. -/
def sharesToTokens (s : Ledger) (shares : Int) : Result Int :=
  mulDiv shares s.vestingSharePrice.2 s.vestingSharePrice.1

/-! ## What a computation that returned says -/

section Inversion

variable {α β : Type} {s : Ledger}

theorem bind_eq_ok {x : Result α} {f : α → Result β} {r : β} :
    x >>= f = .ok r ↔ ∃ a, x = .ok a ∧ f a = .ok r := by
  cases x with
  | error e =>
      constructor
      · intro h
        cases h
      · rintro ⟨a, h, -⟩
        cases h
  | ok a =>
      constructor
      · intro h
        exact ⟨a, rfl, h⟩
      · rintro ⟨a', h, h'⟩
        cases h
        exact h'

/-- A choice with the same continuation. -/
theorem ite_bind_eq_ok {c : Prop} [Decidable c] {x y : Result α} {f : α → Result β} {r : β}
    (h : (if c then x >>= f else y >>= f) = .ok r) : ∃ a, (if c then x else y) = .ok a ∧ f a = .ok r := by
  by_cases hc : c
  · rw [if_pos hc] at h ⊢
    exact bind_eq_ok.mp h
  · rw [if_neg hc] at h ⊢
    exact bind_eq_ok.mp h

theorem pure_eq_ok {x r : α} : (pure x : Result α) = .ok r ↔ x = r :=
  ⟨fun h => Except.ok.inj h, fun h => congrArg Except.ok h⟩

/-- A check that was passed. -/
theorem require_eq_ok {c : Prop} [Decidable c] {e : Refusal} {u : Unit} : require c e = .ok u ↔ c := by
  unfold require
  by_cases h : c
  · rw [if_pos h]
    exact ⟨fun _ => h, fun _ => rfl⟩
  · rw [if_neg h]
    exact ⟨fun he => (by cases he), fun hc => absurd hc h⟩

/-- An account that was found. -/
theorem getAccount_eq_ok {name : AccountName} {a : Account} :
    s.getAccount name = .ok a ↔ name ∈ s.accounts.keys ∧ s.accounts.row name = a := by
  unfold getAccount
  rw [← Table.find_eq_some]
  cases h : s.accounts.find name with
  | none   => exact ⟨fun he => (by cases he), fun he => (by cases he)⟩
  | some x => exact ⟨fun he => congrArg some (Except.ok.inj he), fun he => congrArg Except.ok (Option.some.inj he)⟩

/-- A validator that was found. -/
theorem getValidator_eq_ok {name : AccountName} {w : ValidatorAccount} :
    s.getValidator name = .ok w ↔ name ∈ s.validators.keys ∧ s.validators.row name = w := by
  unfold getValidator
  rw [← Table.find_eq_some]
  cases h : s.validators.find name with
  | none   => exact ⟨fun he => (by cases he), fun he => (by cases he)⟩
  | some x => exact ⟨fun he => congrArg some (Except.ok.inj he), fun he => congrArg Except.ok (Option.some.inj he)⟩

/-- A conversion that went through. -/
theorem mulDiv_eq_ok {amount numerator denominator r : Int} :
    mulDiv amount numerator denominator = .ok r ↔
      0 < denominator ∧ 0 ≤ amount * numerator ∧ amount * numerator / denominator = r := by
  simp only [mulDiv, bind_eq_ok, require_eq_ok, pure_eq_ok, exists_const]

end Inversion

end Ledger

end VizNode
