import VizNode.Ledger.Vesting

/-!
# `VizNode.Ledger.Evaluators` — accounts, transfers, shares and votes

The evaluators of the operations that open accounts and move tokens, shares and votes. Each is the source's
`validate` and `do_apply` in that order: the checks in the order in which the source makes them, then the
changes. An evaluator that refuses answers with the reason, and the caller drops everything it did.

An operation that names an account by the empty string (`to` of a transfer to vesting, a proxy, a referrer)
has `0` there.
-/

namespace VizNode

namespace Ledger

/-- A check that is made only under a condition. -/
def requireIf (cond : Bool) (c : Prop) [Decidable c] (e : Refusal) : Result Unit :=
  if cond then require c e else .ok ()

/-- The accounts an authority names have to exist. -/
def requireAccounts (s : Ledger) (a : Authority) : Result Unit :=
  require (∀ p ∈ a.accountAuths, p.1 ∈ s.accounts.keys) .unknownAccount

/-- `create<vesting_delegation_object>`. -/
def createDelegation (s : Ledger) (key : AccountName × AccountName) (d : Delegation) : Result Ledger :=
  if key ∈ s.delegations.keys then .error .duplicate
  else .ok { s with delegations := s.delegations.insert key d }

/-! ## Accounts -/

structure AccountCreate where
  fee            : Nat
  delegation     : Nat
  creator        : AccountName
  newAccountName : AccountName
  master         : Authority
  active         : Authority
  regular        : Authority
  memoKey        : PublicKey
  referrer       : AccountName

def accountCreate (names : Names) (s : Ledger) (o : AccountCreate) : Result Ledger := do
  require (names.validCreateName o.newAccountName ∧ names.validAccountName o.newAccountName ∧
    names.validAccountName o.creator ∧ names.validDomainName o.newAccountName o.creator) .validation
  let creator ← s.getAccount o.creator
  require ((o.fee : Int) ≤ creator.balance) .insufficientFunds
  require ((o.delegation : Int) ≤ creator.availableVestingShares true) .insufficientShares
  requireIf (s.hasHardfork 6 && decide (0 < o.delegation)) (0 ≤ creator.currentEnergy s.time)
    .insufficientEnergy
  let ratio := s.medianProps.createAccountDelegationRatio
  let target ← s.tokensToShares ((ratio * s.medianProps.accountCreationFee : Nat) : Int)
  let current ← s.tokensToShares ((ratio * o.fee : Nat) : Int)
  require (target ≤ current + o.delegation) .insufficientDelegation
  s.requireAccounts o.master
  s.requireAccounts o.active
  s.requireAccounts o.regular
  requireIf (decide (o.referrer ≠ 0)) (o.referrer ∈ s.accounts.keys) .unknownAccount
  let now := s.time
  let s := s.sharesSenderRecalcEnergy o.creator o.delegation
  let s := s.modifyAccount o.creator (fun c =>
    { c with
      balance                := c.balance - o.fee
      delegatedVestingShares := c.delegatedVestingShares + o.delegation })
  let s ← s.createAccount o.newAccountName
    { receivedVestingShares := o.delegation
      memoKey               := o.memoKey
      created               := now
      lastVoteTime          := now
      recoveryAccount       := o.creator
      referrer              := o.referrer }
    { master := o.master, active := o.active, regular := o.regular }
  let s ← if 0 < o.delegation then
      s.createDelegation (o.creator, o.newAccountName)
        { vestingShares     := o.delegation
          minDelegationTime := now + s.medianProps.createAccountDelegationTime }
    else pure s
  if 0 < o.fee then s.createVesting o.newAccountName o.fee else return s

/-- `update_master_authority`. -/
def updateMasterAuthority (s : Ledger) (account : AccountName) (master : Authority) : Ledger :=
  { s with
    masterHistory := if 1 ≤ s.headBlockNumber then
        s.masterHistory ++
          [{ account := account, previousMasterAuthority := (s.authorities.row account).master,
             lastValidTime := s.time }]
      else s.masterHistory
    authorities := s.authorities.modify account (fun a =>
      { a with master := master, lastMasterUpdate := s.time }) }

structure AccountUpdate where
  account : AccountName
  master  : Option Authority
  active  : Option Authority
  regular : Option Authority
  memoKey : PublicKey

def accountUpdate (names : Names) (s : Ledger) (o : AccountUpdate) : Result Ledger := do
  require (names.validAccountName o.account) .validation
  require (o.account ≠ Config.inviteAccount) .authority
  let _ ← s.getAccount o.account
  let s ← match o.master with
    | none        => pure s
    | some master => do
        require (Config.masterUpdateLimit + (s.authorities.row o.account).lastMasterUpdate < s.time)
          .updateTooSoon
        s.requireAccounts master
        pure (s.updateMasterAuthority o.account master)
  s.requireAccounts (o.active.getD {})
  s.requireAccounts (o.regular.getD {})
  let s := s.modifyAccount o.account (fun a =>
    { a with
      memoKey           := if o.memoKey ≠ 0 then o.memoKey else a.memoKey
      lastAccountUpdate := s.time })
  return { s with authorities := s.authorities.modify o.account (fun a =>
    { a with active := o.active.getD a.active, regular := o.regular.getD a.regular }) }

/-- `request_account_recovery_evaluator`. `topValidator` is the head of the `by_vote_name` index. -/
def requestAccountRecovery (s : Ledger) (topValidator recoveryAccount accountToRecover : AccountName)
    (newMaster : Authority) : Result Ledger := do
  let a ← s.getAccount accountToRecover
  require (recoveryAccount = if a.recoveryAccount ≠ 0 then a.recoveryAccount else topValidator)
    .recoveryPartner
  let request : RecoveryRequest :=
    { newMasterAuthority := newMaster
      expires            := s.time + Config.accountRecoveryRequestExpirationPeriod }
  match s.recoveryRequests.find accountToRecover with
  | none =>
      require (!newMaster.isImpossible) .impossibleAuthority
      require (newMaster.weightThreshold ≠ 0) .openAuthority
      s.requireAccounts newMaster
      return { s with recoveryRequests := s.recoveryRequests.insert accountToRecover request }
  | some _ =>
      if newMaster.weightThreshold = 0 then
        return { s with recoveryRequests := s.recoveryRequests.erase accountToRecover }
      else
        require (!newMaster.isImpossible) .impossibleAuthority
        s.requireAccounts newMaster
        return { s with recoveryRequests := s.recoveryRequests.modify accountToRecover (fun _ => request) }

/-- `recover_account_evaluator`. A sale is called off, but a bid on the account is left standing. -/
def recoverAccount (s : Ledger) (accountToRecover : AccountName) (newMaster recentMaster : Authority) :
    Result Ledger := do
  require (newMaster ≠ recentMaster ∧ !newMaster.isImpossible ∧ !recentMaster.isImpossible ∧
    newMaster.weightThreshold ≠ 0) .validation
  let a ← s.getAccount accountToRecover
  require (Config.masterUpdateLimit + a.lastAccountRecovery < s.time) .updateTooSoon
  require ((s.recoveryRequests.find accountToRecover).map RecoveryRequest.newMasterAuthority =
    some newMaster) .noRecoveryRequest
  require (∃ h ∈ s.masterHistory, h.account = accountToRecover ∧ h.previousMasterAuthority = recentMaster)
    .recentAuthority
  let s := { s with recoveryRequests := s.recoveryRequests.erase accountToRecover }
  let s := s.updateMasterAuthority accountToRecover newMaster
  return s.modifyAccount accountToRecover (fun a =>
    if s.hasHardfork 9 then
      { a with
        lastAccountRecovery    := s.time
        accountSeller          := 0
        accountOfferPrice      := 0
        accountOnSale          := false
        accountOnSaleStartTime := 0 }
    else { a with lastAccountRecovery := s.time })

/-! ## Transfers -/

/-- A memo as the anonymous account reads it: the part before a colon, if there is a colon, and the key in
    the rest, if it is one. -/
structure Memo where
  login : Option AccountName
  key   : Option PublicKey
deriving DecidableEq, Repr

structure Transfer where
  from_  : AccountName
  to_    : AccountName
  amount : Nat
  memo   : Option Memo

/-- The name of the account that a memo asks for, whether the name is valid, and the new counter. -/
def nameFromMemo (names : Names) (s : Ledger) (m : Memo) : Result (AccountName × Bool × Nat) :=
  match s.hasHardfork 6, m.login with
  | true, some login => do
      require (login ∉ s.accounts.keys) .nameTaken
      let valid := names.validDomainName login Config.anonymousAccount && names.validAccountName login
      requireIf (s.hasHardfork 7) (valid = true) .nameInvalid
      return (login, valid, s.anonymousNum)
  | _, none => return (names.anonymousName (s.anonymousNum + 1), true, s.anonymousNum + 1)
  | false, some _ => .error .blankKey

/-- A transfer to the anonymous account opens an account for the key in the memo. -/
def createFromMemo (names : Names) (s : Ledger) (m : Memo) (amount : Nat) : Result Ledger := do
  let (name, valid, num) ← nameFromMemo names s m
  require (m.key ≠ none) .blankKey
  let key := m.key.getD 0
  let s ← { s with anonymousNum := num }.createAccount name
    { memoKey := key, created := s.time, lastVoteTime := s.time, valid := valid } (.ofKey key 0)
  (s.adjustBalance Config.anonymousAccount (-amount)).createVesting name amount

def transfer (names : Names) (s : Ledger) (o : Transfer) : Result Ledger := do
  require (names.validAccountName o.from_ ∧ names.validAccountName o.to_ ∧ 0 < o.amount) .validation
  let from_ ← s.getAccount o.from_
  let _ ← s.getAccount o.to_
  require ((o.amount : Int) ≤ from_.balance) .insufficientFunds
  let s := (s.adjustBalance o.from_ (-o.amount)).adjustBalance o.to_ o.amount
  if o.to_ = Config.anonymousAccount then
    require (s.medianProps.accountCreationFee ≤ o.amount) .belowMinimum
    match o.memo with
    | none   => return s
    | some m => createFromMemo names s m o.amount
  else return s

/-! ## Escrows -/

/-- `get_escrow`. -/
def getEscrow (s : Ledger) (from_ : AccountName) (id : Nat) : Result Escrow :=
  match s.escrows.find (from_, id) with
  | some e => .ok e
  | none   => .error .unknownEscrow

structure EscrowTransfer where
  from_                : AccountName
  to_                  : AccountName
  agent                : AccountName
  escrowId             : Nat
  tokenAmount          : Nat
  fee                  : Nat
  ratificationDeadline : Nat
  escrowExpiration     : Nat

def escrowTransfer (s : Ledger) (o : EscrowTransfer) : Result Ledger := do
  require (o.from_ ≠ o.agent ∧ o.to_ ≠ o.agent ∧ o.ratificationDeadline < o.escrowExpiration) .validation
  let from_ ← s.getAccount o.from_
  let _ ← s.getAccount o.to_
  let _ ← s.getAccount o.agent
  require (s.time < o.ratificationDeadline ∧ s.time < o.escrowExpiration) .deadlinePassed
  let tokenSpent := o.tokenAmount + o.fee
  require ((tokenSpent : Int) ≤ from_.balance) .insufficientFunds
  let s := s.adjustBalance o.from_ (-tokenSpent)
  require ((o.from_, o.escrowId) ∉ s.escrows.keys) .duplicate
  let e : Escrow :=
    { to_                  := o.to_
      agent                := o.agent
      ratificationDeadline := o.ratificationDeadline
      escrowExpiration     := o.escrowExpiration
      tokenBalance         := o.tokenAmount
      pendingFee           := o.fee
      feePaid              := fun h => absurd h (by decide) }
  return { s with escrows := s.escrows.insert (o.from_, o.escrowId) e }

/-- The marks of an approval. With the second one the fee has been paid. -/
def approveEscrow (toApproved agentApproved : Bool) (e : Escrow) : Escrow :=
  if h : toApproved = true ∧ agentApproved = true then
    { e with
      toApproved := toApproved, agentApproved := agentApproved, pendingFee := 0, feePaid := fun _ _ => rfl }
  else
    { e with
      toApproved := toApproved, agentApproved := agentApproved
      feePaid := fun h₁ h₂ => absurd ⟨h₁, h₂⟩ h }

structure EscrowApprove where
  from_    : AccountName
  to_      : AccountName
  agent    : AccountName
  who      : AccountName
  escrowId : Nat
  approve  : Bool

def escrowApprove (s : Ledger) (o : EscrowApprove) : Result Ledger := do
  require (o.who = o.to_ ∨ o.who = o.agent) .validation
  let e ← s.getEscrow o.from_ o.escrowId
  require (e.to_ = o.to_ ∧ e.agent = o.agent) .partyMismatch
  require (s.time ≤ e.ratificationDeadline) .deadlinePassed
  requireIf (decide (o.who = o.to_)) (e.toApproved = false) .alreadyApproved
  requireIf (decide (o.who = o.agent)) (e.agentApproved = false) .alreadyApproved
  if o.approve = false then
    let _ ← s.getAccount o.from_
    let s := (s.adjustBalance o.from_ e.tokenBalance).adjustBalance o.from_ e.pendingFee
    return { s with escrows := s.escrows.erase (o.from_, o.escrowId) }
  else
    let toApproved := e.toApproved || decide (o.who = o.to_)
    let agentApproved := e.agentApproved || decide (o.who = o.agent)
    let s ← if toApproved && agentApproved then do
        let _ ← s.getAccount o.agent
        pure (s.adjustBalance o.agent e.pendingFee)
      else pure s
    return { s with escrows := s.escrows.modify (o.from_, o.escrowId) (approveEscrow toApproved agentApproved) }

def escrowDispute (s : Ledger) (from_ to_ agent who : AccountName) (escrowId : Nat) : Result Ledger := do
  require (who = from_ ∨ who = to_) .validation
  let _ ← s.getAccount from_
  let e ← s.getEscrow from_ escrowId
  require (s.time < e.escrowExpiration) .deadlinePassed
  require (e.isApproved) .notApproved
  require (e.disputed = false) .alreadyDisputed
  require (e.to_ = to_ ∧ e.agent = agent) .partyMismatch
  return { s with escrows := s.escrows.modify (from_, escrowId) (fun e => { e with disputed := true }) }

structure EscrowRelease where
  from_       : AccountName
  to_         : AccountName
  agent       : AccountName
  who         : AccountName
  receiver    : AccountName
  escrowId    : Nat
  tokenAmount : Nat

/-- Who may release to whom. After the expiration an undisputed escrow can go either way. -/
def mayRelease (s : Ledger) (o : EscrowRelease) (e : Escrow) : Prop :=
  if e.disputed then o.who = e.agent
  else (o.who = o.from_ ∨ o.who = e.to_) ∧
    (s.time < e.escrowExpiration →
      (o.who = o.from_ → o.receiver = e.to_) ∧ (o.who ≠ o.from_ → o.who = e.to_ → o.receiver = o.from_))

instance (s : Ledger) (o : EscrowRelease) (e : Escrow) : Decidable (s.mayRelease o e) := by
  unfold mayRelease
  infer_instance

def escrowRelease (s : Ledger) (o : EscrowRelease) : Result Ledger := do
  require ((o.who = o.from_ ∨ o.who = o.to_ ∨ o.who = o.agent) ∧
    (o.receiver = o.from_ ∨ o.receiver = o.to_) ∧ 0 < o.tokenAmount) .validation
  let _ ← s.getAccount o.from_
  let _ ← s.getAccount o.receiver
  let e ← s.getEscrow o.from_ o.escrowId
  require (o.tokenAmount ≤ e.tokenBalance) .releaseAmount
  require (e.to_ = o.to_ ∧ e.agent = o.agent) .partyMismatch
  require (o.receiver = o.from_ ∨ o.receiver = e.to_) .releaseParty
  require (e.isApproved) .notApproved
  require (s.mayRelease o e) .releaseParty
  let s := s.adjustBalance o.receiver o.tokenAmount
  let s := { s with escrows := s.escrows.modify (o.from_, o.escrowId) (fun e =>
    { e with tokenBalance := e.tokenBalance - o.tokenAmount }) }
  if e.tokenBalance - o.tokenAmount = 0 then
    return { s with escrows := s.escrows.erase (o.from_, o.escrowId) }
  else return s

/-! ## Shares -/

def transferToVesting (s : Ledger) (from_ to_ : AccountName) (amount : Nat) : Result Ledger := do
  require (0 < amount) .validation
  let a ← s.getAccount from_
  let receiver := if to_ ≠ 0 then to_ else from_
  let _ ← s.getAccount receiver
  require ((amount : Int) ≤ a.balance) .insufficientFunds
  (s.adjustBalance from_ (-amount)).createVesting receiver amount

/-- The rate of a new withdrawal. -/
def newWithdrawRate (s : Ledger) (a : Account) (shares : Nat) : Int :=
  let intervals : Int :=
    if s.hasHardfork 9 then s.medianProps.withdrawIntervals else Config.vestingWithdrawIntervals
  let rate := if s.hasHardfork 5 then (a.availableVestingShares false).tdiv intervals
    else (shares : Int).tdiv intervals
  if rate = 0 then 1 else rate

def withdrawVesting (s : Ledger) (account : AccountName) (shares : Nat) : Result Ledger := do
  let a ← s.getAccount account
  require (0 ≤ a.vestingShares) .insufficientShares
  require ((shares : Int) ≤ a.availableVestingShares false) .insufficientShares
  if shares = 0 then
    return s.modifyAccount account (fun a =>
      { a with
        vestingWithdrawRate   := 0
        nextVestingWithdrawal := Config.maximumTime
        toWithdraw            := 0
        withdrawn             := 0 })
  else
    let rate := s.newWithdrawRate a shares
    require (a.vestingWithdrawRate ≠ rate) .rateUnchanged
    return s.modifyAccount account (fun a =>
      { a with
        vestingWithdrawRate   := rate
        nextVestingWithdrawal := s.time + Config.vestingWithdrawIntervalSeconds
        toWithdraw            := shares
        withdrawn             := 0 })

structure SetWithdrawVestingRoute where
  fromAccount : AccountName
  toAccount   : AccountName
  percent     : Nat
  autoVest    : Bool

/-- The routes of an account may not promise more than everything. The sum is a 16-bit one. -/
def routesWithin (s : Ledger) (name : AccountName) : Prop :=
  ((s.routesOf name).map (fun r => r.2.percent)).sum % 2 ^ 16 ≤ Config.hundredPercent

instance (s : Ledger) (name : AccountName) : Decidable (s.routesWithin name) :=
  inferInstanceAs (Decidable (_ ≤ _))

def setWithdrawVestingRoute (s : Ledger) (o : SetWithdrawVestingRoute) : Result Ledger := do
  require (o.percent ≤ Config.hundredPercent) .validation
  let a ← s.getAccount o.fromAccount
  let _ ← s.getAccount o.toAccount
  let key := (o.fromAccount, o.toAccount)
  let route : Route := { percent := o.percent, autoVest := o.autoVest }
  let s ← match s.routes.find key with
    | none => do
        require (o.percent ≠ 0) .zeroRoute
        require (a.withdrawRoutes < Config.maxWithdrawRoutes) .tooManyRoutes
        pure ({ s with routes := s.routes.insert key route }.modifyAccount o.fromAccount (fun a =>
          { a with withdrawRoutes := a.withdrawRoutes + 1 }))
    | some _ =>
        if o.percent = 0 then
          pure ({ s with routes := s.routes.erase key }.modifyAccount o.fromAccount (fun a =>
            { a with withdrawRoutes := a.withdrawRoutes - 1 }))
        else pure { s with routes := s.routes.modify key (fun _ => route) }
  require (s.routesWithin o.fromAccount) .routesAboveHundred
  return s

/-- `delegate_vesting_shares_evaluator`. Shares that are taken back return only after a delay. -/
def delegateVestingShares (s : Ledger) (delegator delegatee : AccountName) (shares : Nat) :
    Result Ledger := do
  require (delegator ≠ delegatee) .validation
  let a ← s.getAccount delegator
  let _ ← s.getAccount delegatee
  let delegation := s.delegations.find (delegator, delegatee)
  requireIf delegation.isNone (shares ≠ 0) .insufficientDelegation
  let minDelegation ← s.tokensToShares s.medianProps.minDelegation
  let delta : Int := (shares : Int) - (delegation.map Delegation.vestingShares).getD 0
  let s ← if 0 < delta then do
      require (delta ≤ a.availableVestingShares true) .insufficientShares
      requireIf (s.hasHardfork 6) (0 ≤ a.currentEnergy s.time) .insufficientEnergy
      requireIf delegation.isNone (minDelegation ≤ shares) .belowMinimum
      let d : Delegation := { vestingShares := shares, minDelegationTime := s.time }
      let s := if delegation.isNone
        then { s with delegations := s.delegations.insert (delegator, delegatee) d } else s
      let s := s.sharesSenderRecalcEnergy delegator delta
      pure (s.modifyAccount delegator (fun a =>
        { a with delegatedVestingShares := a.delegatedVestingShares + delta }))
    else do
      require (shares = 0 ∨ minDelegation ≤ shares) .belowMinimum
      let delay := if s.hasHardfork 10 then Config.energyRegenerationSeconds else Config.cashoutWindowSeconds
      let minTime := (delegation.map Delegation.minDelegationTime).getD 0
      pure { s with expirations := s.expirations ++
        [{ delegator := delegator, vestingShares := -delta, expiration := max (s.time + delay) minTime }] }
  let s := s.modifyAccount delegatee (fun a =>
    { a with receivedVestingShares := a.receivedVestingShares + delta })
  if delegation.isNone then return s
  else if 0 < shares then
    return { s with delegations := s.delegations.modify (delegator, delegatee) (fun d =>
      { d with vestingShares := shares }) }
  else return { s with delegations := s.delegations.erase (delegator, delegatee) }

/-! ## Votes -/

/-- What an account counts for: its shares, then what is proxied to it, by distance. -/
def voteArray (a : Account) : Nat → Int
  | 0     => a.vestingShares
  | i + 1 => a.proxiedVsfVotes i

/-- The loop check of a new proxy: follow the chain up from the proxy, and refuse when an account comes up
    twice or when the chain with the account at its foot is longer than the recursion depth. -/
def checkProxyChain (s : Ledger) : Nat → List AccountName → AccountName → Result Unit
  | 0,     _,    _    => .error .proxyChainTooLong
  | n + 1, seen, name => do
      let a ← s.getAccount name
      if a.proxy ≠ 0 then
        let _ ← s.getAccount a.proxy
        require (a.proxy ∉ seen) .proxyLoop
        require (seen.length + 1 ≤ Config.maxProxyRecursionDepth) .proxyChainTooLong
        s.checkProxyChain n (a.proxy :: seen) a.proxy
      else .ok ()

/-- `account_validator_proxy_evaluator`. -/
def accountValidatorProxy (names : Names) (s : Ledger) (account proxy : AccountName) : Result Ledger := do
  require (names.validAccountName account ∧ proxy ≠ account) .validation
  let a ← s.getAccount account
  require (a.proxy ≠ proxy) .proxyUnchanged
  let votes := voteArray a
  let s ← s.adjustProxiedValidatorVotesArray account (fun i => -votes i)
  if proxy ≠ 0 then
    let _ ← s.getAccount proxy
    -- the set of the source starts with the account and its new proxy
    s.checkProxyChain (Config.maxProxyRecursionDepth + 1) [proxy, account] proxy
    let s := s.clearValidatorVotes account
    let s := s.modifyAccount account (fun a => { a with proxy := proxy })
    s.adjustProxiedValidatorVotesArray account votes
  else return s.modifyAccount account (fun a => { a with proxy := proxy })

/-- The vote object and the vote count of the account. -/
def setVote (s : Ledger) (account validator : AccountName) (approve : Bool) : Ledger :=
  let s := { s with votes := if approve
    then s.votes.insert (account, validator) s.headBlockNumber else s.votes.erase (account, validator) }
  s.modifyAccount account (fun a =>
    { a with validatorsVotedFor := if approve then a.validatorsVotedFor + 1 else a.validatorsVotedFor - 1 })

/-- The account's weight is taken off all its votes, the vote is set, and the new weight is put on. -/
def revote (s : Ledger) (account validator : AccountName) (approve : Bool) : Result Ledger := do
  let a ← s.getAccount account
  if s.hasHardfork 5 then
    let s ← s.adjustEach account (-a.validatorsVoteWeight)
    let s := s.setVote account validator approve
    let weight := (s.accounts.row account).validatorVoteFairWeight
    let s := s.modifyAccount account (fun a => { a with validatorsVoteWeight := weight })
    s.adjustEach account weight
  else if s.hasHardfork 4 then
    let s ← s.adjustEach account (-a.validatorVoteFairWeightPreHf5)
    let s := s.setVote account validator approve
    s.adjustEach account (s.accounts.row account).validatorVoteFairWeightPreHf5
  else
    let s ← s.adjustValidatorVote (if approve then a.validatorVoteWeight else -a.validatorVoteWeight) validator
    return s.setVote account validator approve

/-- `account_validator_vote_evaluator`. From hardfork 4 on a vote clears the proxy. -/
def accountValidatorVote (s : Ledger) (account validator : AccountName) (approve : Bool) :
    Result Ledger := do
  let a ← s.getAccount account
  requireIf (!s.hasHardfork 4) (a.proxy = 0) .proxySet
  let s ← if a.proxy ≠ 0 then do
      let votes := voteArray a
      let s ← s.adjustProxiedValidatorVotesArray account (fun i => -votes i)
      pure (s.modifyAccount account (fun a => { a with proxy := 0 }))
    else pure s
  let _ ← s.getValidator validator
  if (account, validator) ∈ s.votes.keys then
    require (approve = false) .voteExists
    s.revote account validator false
  else
    require (approve = true) .voteMissing
    let limit := if s.hasHardfork 4
      then Config.maxAccountValidatorVotes else Config.maxAccountValidatorVotesPreHf4
    require ((s.accounts.row account).validatorsVotedFor < limit) .tooManyVotes
    s.revote account validator true

end Ledger

end VizNode
