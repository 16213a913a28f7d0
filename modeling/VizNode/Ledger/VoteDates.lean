import VizNode.Ledger.Walks

/-!
# `VizNode.Ledger.VoteDates` — when votes were cast

A vote carries the number of the head block it was cast at. A node never dates a vote ahead: only a vote that is cast
writes a date, the date is that of the head, and the head only goes on. So the blocks since a vote can be counted by
subtracting its date from the number of the head.

**Almost nothing touches the dates.** For everything but a vote and the removal of votes the proofs only follow the
programs, by the rules of `Prog.Returns`.

## Contents
- **Dates.** `Dated n`: the head is block `n`, and no vote has a later date.
- **Votes and shares**, **Accounts and services**, **Sales**: the evaluators.
- **Blocks.** The parts of a block.
- **Runs.** `Voted`, and that its votes are dated.
-/

namespace VizNode

namespace Ledger

open Prog (Returns)

variable {s s' : Ledger} {names : Names} {n : Nat} {name : AccountName} {x : Int}

/-! ## Dates -/

/-- **The head is block `n`**, and no vote has a later date. -/
def Dated (n : Nat) (s : Ledger) : Prop := s.headBlockNumber = n ∧ ∀ k ∈ s.votes.keys, s.votes.row k ≤ n

/-- What leaves the head and the votes alone. -/
theorem Dated.of_eq (h : Dated n s) (hhead : s'.headBlockNumber = s.headBlockNumber) (hvotes : s'.votes = s.votes) :
    Dated n s' := by
  unfold Dated
  rw [hhead, hvotes]
  exact h

/-- The ledgers that differ in other things. -/
theorem Dated.accounts (h : Dated n s) (f : Account → Account) : Dated n (s.modifyAccount name f) := h

theorem createAccount_dated (h : Dated n s) {r : Account} {auth : AccountAuthority} :
    Returns (Dated n) (s.createAccount name r auth) := .ite (fun _ => .error _) (fun _ => .ok h)

/-! ## Votes and shares -/

section Shares

theorem adjustValidatorVote_dated (h : Dated n s) : Returns (Dated n) (adjustValidatorVote x s name) := by
  unfold adjustValidatorVote
  exact .after fun _ _ => .after fun _ _ => .pure h

theorem adjustEach_dated (h : Dated n s) : Returns (Dated n) (s.adjustEach name x) :=
  .foldlM (fun _ _ hs => adjustValidatorVote_dated hs) h

theorem adjustValidatorVotes_dated (h : Dated n s) : Returns (Dated n) (s.adjustValidatorVotes name x) := by
  unfold adjustValidatorVotes
  refine .after fun _ _ => .ite (fun _ => .ite (fun _ => ?_) (fun _ => .pure h)) (fun _ => adjustEach_dated h)
  exact adjustEach_dated (h.accounts _)

theorem adjustProxiedFrom_dated {delta : Nat → Int} {left : Nat} (h : Dated n s) :
    Returns (Dated n) (adjustProxiedFrom delta left name s) := by
  induction left generalizing name s with
  | zero =>
      unfold adjustProxiedFrom
      exact .after fun _ _ => .ite (fun _ => .pure h) (fun _ => adjustValidatorVotes_dated h)
  | succ left ih =>
      unfold adjustProxiedFrom
      refine .after fun _ _ => .ite (fun _ => .after fun _ _ => ?_) (fun _ => adjustValidatorVotes_dated h)
      exact ih (h.accounts _)

theorem adjustProxiedBy_dated {left : Nat} (h : Dated n s) : Returns (Dated n) (adjustProxiedBy x left name s) := by
  induction left generalizing name s with
  | zero =>
      unfold adjustProxiedBy
      exact .after fun _ _ => .ite (fun _ => .pure h) (fun _ => adjustValidatorVotes_dated h)
  | succ left ih =>
      unfold adjustProxiedBy
      refine .after fun _ _ => .ite (fun _ => .after fun _ _ => ?_) (fun _ => adjustValidatorVotes_dated h)
      exact ih (h.accounts _)

theorem createVesting_dated (h : Dated n s) : Returns (Dated n) (s.createVesting name x) := by
  unfold createVesting
  exact .after fun _ _ => .after fun _ _ => adjustProxiedBy_dated h

theorem transferToVesting_dated {to_ : AccountName} {amount : Nat} (h : Dated n s) :
    Returns (Dated n) (s.transferToVesting name to_ amount) := by
  unfold transferToVesting
  exact .after fun _ _ => .after fun _ _ => .after fun _ _ => .after fun _ _ => createVesting_dated h

theorem withdrawVesting_dated {shares : Nat} (h : Dated n s) : Returns (Dated n) (s.withdrawVesting name shares) := by
  unfold withdrawVesting
  refine .after fun _ _ => .after fun _ _ => .after fun _ _ => .ite (fun _ => .pure h) (fun _ => ?_)
  exact .after fun _ _ => .pure h

theorem setWithdrawVestingRoute_dated {o : SetWithdrawVestingRoute} (h : Dated n s) :
    Returns (Dated n) (s.setWithdrawVestingRoute o) := by
  unfold setWithdrawVestingRoute
  refine .after fun _ _ => .after fun _ _ => .after fun _ _ => ?_
  have hrest : ∀ s₁, Dated n s₁ → Returns (Dated n) (do
      let s₂ ← pure s₁
      require (s₂.routesWithin o.fromAccount) .routesAboveHundred
      return s₂) := fun _ h₁ => .bind (.pure h₁) fun _ h₂ => .after fun _ _ => .pure h₂
  dsimp only
  cases s.routes.find (o.fromAccount, o.toAccount) with
  | none => exact .after fun _ _ => .after fun _ _ => hrest _ h
  | some _ => exact .ite (fun _ => hrest _ h) (fun _ => hrest _ h)

theorem delegateVestingShares_dated {delegatee : AccountName} {shares : Nat} (h : Dated n s) :
    Returns (Dated n) (s.delegateVestingShares name delegatee shares) := by
  unfold delegateVestingShares
  refine .after fun _ _ => .after fun _ _ => .after fun _ _ => .after fun _ _ => .after fun _ _ => ?_
  dsimp only
  have hreceived : ∀ s₁ : Ledger, Dated n s₁ → ∀ (c c' : Prop) [Decidable c] [Decidable c'] (s₂ s₃ s₄ : Ledger),
      Dated n s₂ → Dated n s₃ → Dated n s₄ → Returns (Dated n)
        (if c then pure s₂ else if c' then pure s₃ else pure s₄ : Result Ledger) :=
    fun _ _ _ _ _ _ _ _ _ h₂ h₃ h₄ => .ite (fun _ => .pure h₂) (fun _ => .ite (fun _ => .pure h₃) (fun _ => .pure h₄))
  refine .ite (fun _ => ?_) (fun _ => ?_)
  · refine .after fun _ _ => .after fun _ _ => .after fun _ _ => .bind (.pure (Q := Dated n) ?_) fun s₁ h₁ => ?_
    · split
      · exact h
      · exact h
    · exact hreceived s₁ h₁ _ _ _ _ _ h₁ h₁ h₁
  · refine .after fun _ _ => .bind (.pure (Q := Dated n) h) fun s₁ h₁ => ?_
    exact hreceived s₁ h₁ _ _ _ _ _ h₁ h₁ h₁

/-- Votes that are removed take their dates with them. -/
theorem Dated.removeVotes (h : Dated n s) : Dated n (s.removeVotes name) := by
  refine ⟨h.1, fun k hk => ?_⟩
  have hmem : ∀ (l : List AccountName) (t : Table (AccountName × AccountName) Nat),
      (∀ k ∈ t.keys, t.row k ≤ n) → ∀ k ∈ (l.foldl (fun t v => t.erase (name, v)) t).keys,
        (l.foldl (fun t v => t.erase (name, v)) t).row k ≤ n := by
    intro l
    induction l with
    | nil => exact fun _ ht => ht
    | cons v l ih => exact fun t ht => ih _ fun k hk => ht k (Table.mem_erase_keys.mp hk).2
  exact hmem _ _ h.2 k hk

theorem accountValidatorProxy_dated {proxy : AccountName} (h : Dated n s) :
    Returns (Dated n) (accountValidatorProxy names s name proxy) := by
  unfold accountValidatorProxy
  refine .after fun _ _ => .after fun _ _ => .after fun _ _ => (adjustProxiedFrom_dated h).bind fun s₁ h₁ => ?_
  refine .ite (fun _ => .after fun _ _ => .after fun _ _ => ?_) (fun _ => .pure h₁)
  exact adjustProxiedFrom_dated ((h₁.removeVotes.accounts _).accounts _)

/-- **A new vote has the date of the head.** -/
theorem Dated.setVote {validator : AccountName} {approve : Bool} (h : Dated n s) :
    Dated n (s.setVote name validator approve) := by
  refine ⟨h.1, ?_⟩
  show ∀ k ∈ (if approve then s.votes.insert (name, validator) s.headBlockNumber
    else s.votes.erase (name, validator)).keys, (if approve then s.votes.insert (name, validator) s.headBlockNumber
      else s.votes.erase (name, validator)).row k ≤ n
  cases approve with
  | true => exact Table.forall_insert (P := fun _ d => d ≤ n) h.2 h.1.le
  | false => exact fun k hk => h.2 k (Table.mem_erase_keys.mp hk).2

theorem revote_dated {validator : AccountName} {approve : Bool} (h : Dated n s) :
    Returns (Dated n) (s.revote name validator approve) := by
  unfold revote
  refine .after fun _ _ => .ite (fun _ => ?_) (fun _ => .ite (fun _ => ?_) (fun _ => ?_))
  · exact (adjustEach_dated h).bind fun _ h₁ => adjustEach_dated (h₁.setVote.accounts _)
  · exact (adjustEach_dated h).bind fun _ h₁ => adjustEach_dated h₁.setVote
  · exact (adjustValidatorVote_dated h).bind fun _ h₁ => .pure h₁.setVote

theorem accountValidatorVote_dated {validator : AccountName} {approve : Bool} (h : Dated n s) :
    Returns (Dated n) (s.accountValidatorVote name validator approve) := by
  unfold accountValidatorVote
  have hrest : ∀ s₂, Dated n s₂ → Returns (Dated n) (do
      let _ ← s₂.getValidator validator
      if (name, validator) ∈ s₂.votes.keys then
        require (approve = false) .voteExists
        s₂.revote name validator false
      else
        require (approve = true) .voteMissing
        let limit := if s₂.hasHardfork 4
          then Config.maxAccountValidatorVotes else Config.maxAccountValidatorVotesPreHf4
        require ((s₂.accounts.row name).validatorsVotedFor < limit) .tooManyVotes
        s₂.revote name validator true) :=
    fun _ h₂ => .after fun _ _ => .ite (fun _ => .after fun _ _ => revote_dated h₂)
      (fun _ => .after fun _ _ => .after fun _ _ => revote_dated h₂)
  refine .after fun _ _ => .after fun _ _ => .ite (fun _ => ?_) (fun _ => .bind (.pure h) hrest)
  exact (adjustProxiedFrom_dated h).bind fun s₁ h₁ => .bind (.pure (h₁.accounts _)) hrest

end Shares

/-! ## Accounts and services -/

section Accounts

theorem accountCreate_dated {o : AccountCreate} (h : Dated n s) : Returns (Dated n) (accountCreate names s o) := by
  unfold accountCreate
  refine .after fun _ _ => .after fun _ _ => .after fun _ _ => .after fun _ _ => .after fun _ _ => ?_
  refine .after fun _ _ => .after fun _ _ => .after fun _ _ => .after fun _ _ => .after fun _ _ => ?_
  refine .after fun _ _ => .after fun _ _ => (createAccount_dated (n := n) ?_).bind fun s₁ h₁ => ?_
  · exact h
  have hvested : ∀ s₂, Dated n s₂ → Returns (Dated n)
      (if 0 < o.fee then s₂.createVesting o.newAccountName o.fee else pure s₂) :=
    fun _ h₂ => .ite (fun _ => createVesting_dated h₂) (fun _ => .pure h₂)
  refine .ite (fun _ => .bind ?_ hvested) (fun _ => .bind (.pure h₁) hvested)
  unfold createDelegation
  exact .ite (fun _ => .error _) (fun _ => .ok h₁)

theorem accountUpdate_dated {o : AccountUpdate} (h : Dated n s) : Returns (Dated n) (accountUpdate names s o) := by
  unfold accountUpdate
  refine .after fun _ _ => .after fun _ _ => .after fun _ _ => ?_
  cases o.master with
  | none => exact .bind (.pure h) fun s₁ h₁ => .after fun _ _ => .after fun _ _ => .pure h₁
  | some master =>
      have hmaster : Dated n (s.updateMasterAuthority o.account master) := h
      refine .after fun _ _ => .after fun _ _ => .bind (.pure hmaster) fun s₁ h₁ => ?_
      exact .after fun _ _ => .after fun _ _ => .pure h₁

theorem requestAccountRecovery_dated {top partner account : AccountName} {master : Authority} (h : Dated n s) :
    Returns (Dated n) (s.requestAccountRecovery top partner account master) := by
  unfold requestAccountRecovery
  refine .after fun _ _ => .after fun _ _ => ?_
  dsimp only
  cases s.recoveryRequests.find account with
  | none => exact .after fun _ _ => .after fun _ _ => .after fun _ _ => .pure h
  | some q => exact .ite (fun _ => .pure h) (fun _ => .after fun _ _ => .after fun _ _ => .pure h)

theorem recoverAccount_dated {account : AccountName} {newMaster recent : Authority} (h : Dated n s) :
    Returns (Dated n) (s.recoverAccount account newMaster recent) := by
  unfold recoverAccount
  exact .after fun _ _ => .after fun _ _ => .after fun _ _ => .after fun _ _ => .after fun _ _ => .pure h

theorem transfer_dated {o : Transfer} (h : Dated n s) : Returns (Dated n) (transfer names s o) := by
  unfold transfer
  refine .after fun _ _ => .after fun _ _ => .after fun _ _ => .after fun _ _ => ?_
  have hmoved : Dated n ((s.adjustBalance o.from_ (-o.amount)).adjustBalance o.to_ o.amount) := h
  refine .ite (fun _ => .after fun _ _ => ?_) (fun _ => .pure hmoved)
  cases o.memo with
  | none => exact .pure hmoved
  | some m =>
      unfold createFromMemo
      refine .after ?_
      rintro ⟨login, valid, num⟩ -
      refine .after fun _ _ => ?_
      have hnum : Dated n { (s.adjustBalance o.from_ (-o.amount)).adjustBalance o.to_ o.amount with
          anonymousNum := num } := h
      exact (createAccount_dated hnum).bind fun _ h₁ => createVesting_dated (h₁.accounts _)

theorem escrowTransfer_dated {o : EscrowTransfer} (h : Dated n s) : Returns (Dated n) (s.escrowTransfer o) := by
  unfold escrowTransfer
  refine .after fun _ _ => .after fun _ _ => .after fun _ _ => .after fun _ _ => .after fun _ _ => ?_
  exact .after fun _ _ => .after fun _ _ => .pure h

theorem escrowApprove_dated {o : EscrowApprove} (h : Dated n s) : Returns (Dated n) (s.escrowApprove o) := by
  unfold escrowApprove
  refine .after fun _ _ => .after fun e _ => .after fun _ _ => .after fun _ _ => .after fun _ _ => ?_
  refine .after fun _ _ => .ite (fun _ => .after fun _ _ => .pure h) (fun _ => .ite (fun _ => .after fun _ _ => ?_)
    (fun _ => ?_))
  · exact .bind (.pure (Q := Dated n) h) fun _ h₁ => .pure h₁
  · exact .bind (.pure (Q := Dated n) h) fun _ h₁ => .pure h₁

theorem escrowDispute_dated {from_ to_ agent who : AccountName} {id : Nat} (h : Dated n s) :
    Returns (Dated n) (s.escrowDispute from_ to_ agent who id) := by
  unfold escrowDispute
  refine .after fun _ _ => .after fun _ _ => .after fun _ _ => .after fun _ _ => .after fun _ _ => ?_
  exact .after fun _ _ => .after fun _ _ => .pure h

theorem escrowRelease_dated {o : EscrowRelease} (h : Dated n s) : Returns (Dated n) (s.escrowRelease o) := by
  unfold escrowRelease
  refine .after fun _ _ => .after fun _ _ => .after fun _ _ => .after fun _ _ => .after fun _ _ => ?_
  refine .after fun _ _ => .after fun _ _ => .after fun _ _ => .after fun _ _ => ?_
  exact .ite (fun _ => .pure h) (fun _ => .pure h)

theorem payFee_dated {fee : Nat} (h : Dated n s) : Returns (Dated n) (s.payFee name fee) := by
  unfold payFee
  exact .after fun _ _ => .after fun _ _ => .pure h

theorem validatorUpdate_dated (h : Dated n s) : Returns (Dated n) (s.validatorUpdate name) := by
  unfold validatorUpdate
  refine .after fun _ _ => .ite (fun _ => .pure h) (fun _ => .ite (fun _ => ?_)
    (fun _ => .bind (.pure h) fun _ h₁ => .pure h₁))
  exact (payFee_dated h).bind fun _ h₁ => .pure h₁

theorem setRewardSharing_dated {rate : Nat} (h : Dated n s) : Returns (Dated n) (s.setRewardSharing name rate) := by
  unfold setRewardSharing
  by_cases hrate : rate ≤ Config.hundredPercent
  · rw [dif_pos hrate]
    exact .after fun _ _ => .after fun _ _ => .after fun _ _ => .pure h
  · rw [dif_neg hrate]
    exact .error _

theorem createInvite_dated {balance : Nat} {key : PublicKey} (h : Dated n s) :
    Returns (Dated n) (s.createInvite name balance key) := by
  unfold createInvite
  refine .after fun _ _ => .after fun _ _ => .after fun _ _ => .after fun _ _ => .after fun _ _ => ?_
  exact .after fun _ _ => .pure h

theorem claimInviteBalance_dated {receiver : AccountName} {secret : Option PublicKey} (h : Dated n s) :
    Returns (Dated n) (s.claimInviteBalance name receiver secret) := by
  unfold claimInviteBalance
  refine .after fun _ _ => .after fun _ _ => .after ?_
  rintro ⟨key, i⟩ -
  exact .pure h

theorem inviteRegistration_dated {new : AccountName} {secret : Option PublicKey} {key : PublicKey} (h : Dated n s) :
    Returns (Dated n) (inviteRegistration names s name new secret key) := by
  unfold inviteRegistration
  refine .after fun _ _ => .after fun _ _ => .after ?_
  rintro ⟨invite, i⟩ -
  exact (createAccount_dated h).bind fun _ h₁ => (createVesting_dated h₁).bind fun _ h₂ => .pure h₂

theorem useInviteBalance_dated {receiver : AccountName} {secret : Option PublicKey} (h : Dated n s) :
    Returns (Dated n) (s.useInviteBalance name receiver secret) := by
  unfold useInviteBalance
  refine .after fun _ _ => .after fun _ _ => .after fun _ _ => .after ?_
  rintro ⟨key, i⟩ -
  exact (createVesting_dated h).bind fun _ h₁ => .pure h₁

theorem setPaidSubscription_dated {levels amount period : Nat} (h : Dated n s) :
    Returns (Dated n) (s.setPaidSubscription name levels amount period) := by
  unfold setPaidSubscription
  refine .after fun _ _ => .after fun _ _ => .after fun _ _ => ?_
  dsimp only
  cases s.paidSubscriptions.find name with
  | some _ => exact .pure h
  | none =>
      refine .ite (fun _ => ?_) (fun _ => .bind (.pure h) fun _ h₁ => .pure h₁)
      exact (payFee_dated h).bind fun _ h₁ => .pure h₁

theorem paidSubscribe_dated {o : PaidSubscribeOp} (h : Dated n s) : Returns (Dated n) (s.paidSubscribe o) := by
  have hpaid : ∀ {s₁ : Ledger} {cost : Int}, Dated n s₁ →
      Returns (Dated n) (s₁.paySubscription o.subscriber o.account cost) := by
    intro s₁ cost h₁
    unfold paySubscription
    exact .after fun _ _ => .after fun _ _ => .after fun _ _ => .pure h₁
  have hnew : ∀ s₁, Dated n s₁ → Returns (Dated n) (s₁.newSubscription o) := by
    intro s₁ h₁
    unfold newSubscription
    exact (hpaid h₁).bind fun _ h₂ => .pure h₂
  unfold paidSubscribe
  refine .after fun _ _ => .after fun _ _ => .after fun _ _ => .after fun _ _ => .after fun _ _ => ?_
  cases s.paidSubscriptions.find o.account with
  | none => exact .error _
  | some p =>
      refine .after fun _ _ => .after fun _ _ => .after fun _ _ => .after fun _ _ => ?_
      dsimp only
      cases s.paidSubscribes.find (o.subscriber, o.account) with
      | none => exact hnew s h
      | some old =>
          refine .ite (fun _ => .ite (fun _ => .after fun _ _ => .pure h) (fun _ => ?_)) (fun _ => hnew _ h)
          unfold changeSubscription
          exact .after fun _ _ => .ite (fun _ => .pure h) (fun _ => (hpaid h).bind fun _ h₁ => .pure h₁)

theorem committeeWorkerCreateRequest_dated {o : CommitteeCreateRequest} (h : Dated n s) :
    Returns (Dated n) (s.committeeWorkerCreateRequest o) := by
  unfold committeeWorkerCreateRequest
  refine .after fun _ _ => .after fun _ _ => .after fun _ _ => .after fun _ _ => .after fun _ _ => ?_
  exact .after fun _ _ => .after fun _ _ => .ite (fun _ => payFee_dated h) (fun _ => .pure h)

theorem committeeWorkerCancelRequest_dated {id : Nat} (h : Dated n s) :
    Returns (Dated n) (s.committeeWorkerCancelRequest name id) := by
  unfold committeeWorkerCancelRequest
  refine .after fun _ _ => ?_
  cases s.committeeRequests.find id with
  | none => exact .error _
  | some r => exact .after fun _ _ => .after fun _ _ => .pure h

theorem committeeVoteRequest_dated {id : Nat} {percent : Int} (h : Dated n s) :
    Returns (Dated n) (s.committeeVoteRequest name id percent) := by
  unfold committeeVoteRequest
  refine .after fun _ _ => .after fun _ _ => ?_
  cases s.committeeRequests.find id with
  | none => exact .error _
  | some r =>
      refine .after fun _ _ => ?_
      cases s.committeeVotes.find (id, name) with
      | none => exact .pure h
      | some old => exact .after fun _ _ => .pure h

theorem payAward_dated {bs : List Beneficiary} {tokens own : Int} (h : Dated n s) :
    Returns (Dated n) (s.payAward name bs tokens own) := by
  unfold payAward
  have hpart : ∀ (p : Ledger × Int) (b : Beneficiary), Dated n p.1 →
      Returns (fun q : Ledger × Int => Dated n q.1) (payBeneficiary tokens p b) := by
    intro p b hp
    unfold payBeneficiary
    exact (createVesting_dated hp).bind fun _ h₁ => .pure h₁
  refine .bind (.foldlM hpart h) ?_
  rintro ⟨s₁, paid⟩ h₁
  exact .ite (fun _ => (createVesting_dated h₁).bind fun _ h₂ => .pure h₂) (fun _ => .pure h₁)

theorem claimRshareAward_dated {rshares : Int} (h : Dated n s) :
    Returns (fun q : Int × Ledger => Dated n q.2) (s.claimRshareAward rshares) := by
  unfold claimRshareAward
  exact .after fun _ _ => .pure h

theorem award_dated {producing : Bool} {o : Award} (h : Dated n s) : Returns (Dated n) (award producing s o) := by
  unfold award
  refine .after fun _ _ => .after fun _ _ => .after fun _ _ => .after fun _ _ => .after fun _ _ => ?_
  refine .after fun rshares _ => ?_
  have hpaid : ∀ (s₁ : Ledger) (tokens energy : Int), Dated n s₁ → Returns (Dated n)
      (if 0 < tokens then do
        requireIf producing (o.beneficiaries.length ≤ Config.maxCommentBeneficiaries) .validation
        (s₁.spendEnergy o.initiator energy).payAward o.receiver o.beneficiaries tokens tokens
      else pure (s₁.spendEnergy o.initiator energy)) :=
    fun _ _ _ h₁ => .ite (fun _ => .after fun _ _ => payAward_dated (h₁.accounts _)) (fun _ => .pure h₁)
  refine .ite (fun _ => hpaid s 0 _ h) (fun _ => .bind (claimRshareAward_dated h) ?_)
  rintro ⟨tokens, s₁⟩ h₁
  exact hpaid s₁ tokens _ h₁

theorem fixedAward_dated {producing : Bool} {o : FixedAward} (h : Dated n s) :
    Returns (Dated n) (fixedAward producing s o) := by
  unfold fixedAward
  refine .after fun _ _ => .after fun _ _ => .after fun _ _ => .after fun _ _ => .after fun _ _ => ?_
  refine .after fun _ _ => .after fun _ _ => .after fun _ _ => .after fun _ _ => .after fun _ _ => ?_
  refine .after fun _ _ => .after fun _ _ => ?_
  have hclaim : ∀ (counted energy : Int), Returns (Dated n) (do
      require (counted ≠ 0) .zeroRshares
      let r ← s.claimRshareAward counted
      require (0 < r.1) .zeroReward
      let s₁ := r.2.spendEnergy o.initiator energy
      requireIf producing (o.beneficiaries.length ≤ Config.maxCommentBeneficiaries) .validation
      let donation := r.1 - o.rewardAmount
      let s₁ ← s₁.payAward o.receiver o.beneficiaries r.1 o.rewardAmount
      if 0 < donation then return s₁.adjustCommitteeFund donation else return s₁) := by
    intro counted energy
    refine .after fun _ _ => (claimRshareAward_dated h).bind fun r hr => .after fun _ _ => .after fun _ _ => ?_
    exact (payAward_dated (hr.accounts _)).bind fun _ h₂ => .ite (fun _ => .pure h₂) (fun _ => .pure h₂)
  refine .ite (fun _ => .after fun _ _ => .after fun _ _ => hclaim _ _) (fun _ => ?_)
  exact .after fun _ _ => .after fun _ _ => hclaim _ _

end Accounts

/-! ## Sales -/

section Sales

theorem paySaleFee_dated {seller : AccountName} {fee : Nat} (h : Dated n s) :
    Returns (Dated n) (s.paySaleFee name seller fee) := by
  unfold paySaleFee
  exact .ite (fun _ => payFee_dated h) (fun _ => .ok h)

theorem returnBid_dated (h : Dated n s) : Returns (Dated n) (s.returnBid name) := by
  unfold returnBid
  exact .after fun _ _ => .after fun _ _ => .pure h

theorem setAccountPrice_dated {o : SetAccountPrice} (h : Dated n s) : Returns (Dated n) (setAccountPrice names s o) := by
  unfold setAccountPrice
  refine .after fun _ _ => .after fun _ _ => .after fun _ _ => .ite (fun _ => ?_) (fun _ => ?_)
  · refine (paySaleFee_dated h).bind fun s₁ h₁ => .ite (fun _ => ?_) (fun _ => ?_)
    · exact (returnBid_dated h₁).bind fun _ h₂ => .pure h₂
    · exact .bind (.pure h₁) fun _ h₂ => .pure h₂
  · refine .ite (fun _ => ?_) (fun _ => .bind (.pure h) fun _ h₁ => .pure h₁)
    exact (paySaleFee_dated h).bind fun _ h₁ => .pure h₁

theorem targetAccountSale_dated {o : TargetAccountSale} (h : Dated n s) :
    Returns (Dated n) (targetAccountSale names s o) := by
  unfold targetAccountSale
  refine .after fun _ _ => .after fun _ _ => .after fun _ _ => .after fun _ _ => ?_
  refine (paySaleFee_dated h).bind fun s₁ h₁ => .ite (fun _ => ?_) (fun _ => ?_)
  · exact (returnBid_dated h₁).bind fun _ h₂ => .pure h₂
  · exact .bind (.pure h₁) fun _ h₂ => .pure h₂

theorem setSubaccountPrice_dated {seller : AccountName} {price : Nat} {onSale : Bool} (h : Dated n s) :
    Returns (Dated n) (setSubaccountPrice names s name seller price onSale) := by
  unfold setSubaccountPrice
  refine .after fun _ _ => .after fun _ _ => .after fun _ _ => .ite (fun _ => ?_) (fun _ => ?_)
  · exact (paySaleFee_dated h).bind fun _ h₁ => .pure h₁
  · exact .bind (.pure h) fun _ h₁ => .pure h₁

theorem payPrice_dated {o : BuyAccount} {seller : AccountName} {price : Nat} (h : Dated n s) :
    Returns (Dated n) (s.payPrice o seller price) := by
  unfold payPrice
  exact .after fun _ _ => .after fun _ _ => .after fun _ _ => .after fun _ _ => .pure h

theorem placeBid_dated {clock : Nat} {o : BuyAccount} (h : Dated n s) : Returns (Dated n) (s.placeBid clock o) := by
  unfold placeBid
  have hbid : ∀ s₁, Dated n s₁ → Returns (Dated n) (do
      let _ ← (s₁.modifyAccount o.account (withBid o clock)).getAccount o.buyer
      return (s₁.modifyAccount o.account (withBid o clock)).modifyAccount o.buyer (fun b =>
        { b with
          reservedBalance := b.reservedBalance + o.accountOfferPrice
          balance         := b.balance - o.accountOfferPrice })) := fun _ h₁ => .after fun _ _ => .pure h₁
  refine .after fun _ _ => .after fun _ _ => .ite (fun _ => ?_) (fun _ => .bind (.pure h) hbid)
  exact (returnBid_dated h).bind hbid

theorem buyNow_dated {o : BuyAccount} (h : Dated n s) : Returns (Dated n) (s.buyNow o) := by
  unfold buyNow
  exact .after fun _ _ => (payPrice_dated h).bind fun s₁ h₁ => (createVesting_dated h₁).bind fun s₂ h₂ => .pure h₂

theorem buyAccount_dated {clock : Nat} {o : BuyAccount} (h : Dated n s) :
    Returns (Dated n) (buyAccount names clock s o) := by
  unfold buyAccount
  refine .after fun _ _ => .after fun _ _ => .after fun _ _ => .after fun _ _ => ?_
  cases s.accounts.find o.account with
  | none =>
      unfold buySubaccount
      dsimp only
      cases names.splitName o.account with
      | none => exact .error _
      | some p =>
          refine .after fun _ _ => .after fun _ _ => .after fun _ _ => (payPrice_dated h).bind fun _ h₁ => ?_
          exact (createAccount_dated h₁).bind fun _ h₂ => createVesting_dated h₂
  | some r =>
      refine .after fun _ _ => .after fun _ _ => ?_
      refine .ite (fun _ => .after fun _ _ => .ite (fun _ => placeBid_dated h) (fun _ => ?_)) (fun _ => ?_)
      · exact .after fun _ _ => buyNow_dated h
      · exact .after fun _ _ => buyNow_dated h

theorem settleAuction_dated (h : Dated n s) : Returns (Dated n) (s.settleAuction name) := by
  unfold settleAuction
  refine .after fun r _ => .ite (fun _ => .ite (fun _ => .pure h) (fun _ => ?_)) (fun _ => .pure h)
  refine .ite (fun _ => .ite (fun _ => ?_) (fun _ => .after fun _ _ => .after fun _ _ => .pure h)) (fun _ => ?_)
  · exact (returnBid_dated h).bind fun _ h₁ => .pure h₁
  · exact (returnBid_dated h).bind fun _ h₁ => .pure h₁

end Sales

/-- **An operation dates no vote ahead.** -/
theorem evaluate_dated {loc : Local} {o : Operation} (h : Dated n s) : Returns (Dated n) (evaluate names loc s o) := by
  cases o with
  | accountCreate o => exact accountCreate_dated h
  | accountUpdate o => exact accountUpdate_dated h
  | requestAccountRecovery p account master => exact requestAccountRecovery_dated h
  | recoverAccount account newMaster recent => exact recoverAccount_dated h
  | transfer o => exact transfer_dated h
  | escrowTransfer o => exact escrowTransfer_dated h
  | escrowApprove o => exact escrowApprove_dated h
  | escrowDispute from_ to_ agent who id => exact escrowDispute_dated h
  | escrowRelease o => exact escrowRelease_dated h
  | transferToVesting from_ to_ amount => exact transferToVesting_dated h
  | withdrawVesting account shares => exact withdrawVesting_dated h
  | setWithdrawVestingRoute o => exact setWithdrawVestingRoute_dated h
  | delegateVestingShares x y shares => exact delegateVestingShares_dated h
  | accountValidatorProxy account proxy => exact accountValidatorProxy_dated h
  | accountValidatorVote account v approve => exact accountValidatorVote_dated h
  | validatorUpdate owner => exact validatorUpdate_dated h
  | setRewardSharing owner rate => exact setRewardSharing_dated h
  | createInvite creator balance key => exact createInvite_dated h
  | claimInviteBalance i receiver secret => exact claimInviteBalance_dated h
  | inviteRegistration i new secret key => exact inviteRegistration_dated h
  | useInviteBalance i receiver secret => exact useInviteBalance_dated h
  | setPaidSubscription account levels amount period => exact setPaidSubscription_dated h
  | paidSubscribe o => exact paidSubscribe_dated h
  | committeeWorkerCreateRequest o => exact committeeWorkerCreateRequest_dated h
  | committeeWorkerCancelRequest creator id => exact committeeWorkerCancelRequest_dated h
  | committeeVoteRequest voter id percent => exact committeeVoteRequest_dated h
  | award o => exact award_dated h
  | fixedAward o => exact fixedAward_dated h
  | setAccountPrice o => exact setAccountPrice_dated h
  | targetAccountSale o => exact targetAccountSale_dated h
  | setSubaccountPrice account seller price onSale => exact setSubaccountPrice_dated h
  | buyAccount o => exact buyAccount_dated h

/-! ## Blocks -/

section Blocks

theorem clearExpired_dated (h : Dated n s) : Returns (Dated n) s.clearExpired := by
  unfold clearExpired clearExpiredDelegations
  have hback : ∀ (u : Ledger) (e : DelegationExpiration), Dated n u → Returns (Dated n) (u.returnDelegation e) := by
    intro u e hu
    unfold returnDelegation
    refine .after fun _ _ => .pure ?_
    split
    · exact hu
    · exact hu
  refine .bind (.foldlM hback h) fun s₁ h₁ => .pure ?_
  split
  · exact h₁
  · exact h₁

theorem processFunds_dated (h : Dated n s) : Returns (Dated n) s.processFunds := by
  have hpay : ∀ (reward : Nat) (u : Ledger), Dated n u → Returns (Dated n) (u.payValidator reward) := by
    intro reward u hu
    unfold payValidator
    refine .after fun _ _ => .ite (fun _ => .ite (fun _ => ?_) (fun _ => ?_)) (fun _ => createVesting_dated hu)
    · exact (createVesting_dated hu).bind fun _ h₁ => .pure h₁
    · exact .bind (.pure hu) fun _ h₁ => .pure h₁
  have hissued : ∀ k, Dated n (s.issue k).2 := fun _ => h
  unfold processFunds
  refine .ite (fun _ => hpay _ _ (hissued _)) (fun _ => .ite (fun _ => ?_) (fun _ => ?_))
  · exact .after fun _ _ => createVesting_dated (hissued _)
  · exact .after fun _ _ => createVesting_dated h

theorem distributePool_dated {epochStart : Nat} (h : Dated n s) :
    Returns (Dated n) (distributePool epochStart s name) := by
  unfold distributePool
  have hpart : ∀ (total weighted : Nat) (p : Ledger × Nat) (e : AccountName × Nat), Dated n p.1 →
      Returns (fun q : Ledger × Nat => Dated n q.1) (payStakeholder total weighted p e) := by
    intro total weighted p e hp
    unfold payStakeholder
    exact .ite (fun _ => .pure hp) (fun _ => (createVesting_dated hp).bind fun _ h₁ => .pure h₁)
  refine .ite (fun _ => .pure h) (fun _ => .ite (fun _ => ?_) (fun _ => ?_))
  · exact (createVesting_dated h).bind fun _ h₁ => .pure h₁
  · refine .bind (.foldlM (hpart _ _) h) ?_
    rintro ⟨s₁, paid⟩ h₁
    refine .ite (fun _ => ?_) (fun _ => .bind (.pure h₁) fun _ h₂ => .pure h₂)
    exact (createVesting_dated h₁).bind fun _ h₂ => .pure h₂

theorem Dated.readied (h : Dated n s) : Dated n s.readied := by
  unfold Ledger.readied processInflationRecalc
  split
  · split
    · exact h
    · exact h
  · exact h

theorem processRewards_dated (h : Dated n s) : Returns (Dated n) s.processRewards := by
  unfold processRewards
  refine (processFunds_dated h.readied).bind fun s₁ h₁ => .ite (fun _ => ?_) (fun _ => .pure h₁)
  unfold processValidatorEpochDistribution
  exact .ite (fun _ => .ok h₁) (fun _ => .foldlM (fun _ _ hs => distributePool_dated hs) h₁)

theorem cashoutContent_dated {c : Content} (h : Dated n s) : Returns (Dated n) (s.cashoutContent c) := by
  unfold cashoutContent
  have hcurator : ∀ (tokens : Int) (whole : Nat) (p : Ledger × Int) (v : AccountName × Nat), Dated n p.1 →
      Returns (fun q : Ledger × Int => Dated n q.1) (payCurator tokens whole p v) := by
    intro tokens whole p v hp
    unfold payCurator
    exact .after fun _ _ => .ite (fun _ => (createVesting_dated hp).bind fun _ h₁ => .pure h₁) (fun _ => .pure hp)
  have hbeneficiary : ∀ (tokens : Int) (p : Ledger × Int) (b : Beneficiary), Dated n p.1 →
      Returns (fun q : Ledger × Int => Dated n q.1) (payBeneficiary tokens p b) := by
    intro tokens p b hp
    unfold payBeneficiary
    exact (createVesting_dated hp).bind fun _ h₁ => .pure h₁
  have hauthor : ∀ (s₁ : Ledger) (tokens : Int), Dated n s₁ → Returns (Dated n) (do
      let r ← c.beneficiaries.foldlM (payBeneficiary tokens) (s₁, 0)
      let s₃ ← r.1.createVesting c.author (tokens - r.2 - (tokens - r.2).tdiv 2)
      return s₃.adjustBalance c.author ((tokens - r.2).tdiv 2)) := by
    intro s₁ tokens h₁
    refine .bind (.foldlM (hbeneficiary _) h₁) ?_
    intro r h₂
    exact (createVesting_dated h₂).bind fun _ h₃ => .pure h₃
  have hpaid : ∀ (s₁ : Ledger) (reward : Int), Dated n s₁ → Returns (Dated n) (s₁.payContent c reward) := by
    intro s₁ reward h₁
    unfold payContent
    refine .ite (fun _ => .bind (.foldlM (hcurator _ _) h₁) ?_) (fun _ => hauthor _ _ h₁)
    rintro ⟨s₂, unclaimed⟩ h₂
    exact hauthor _ _ h₂
  have hfund : ∀ y : Int, Dated n { s with totalRewardFund := y } := fun _ => h
  refine .after fun _ _ => .ite (fun _ => .pure h) (fun _ => .after fun _ _ => .ite (fun _ => ?_) (fun _ => ?_))
  · exact (hpaid _ _ (hfund _)).bind fun _ h₁ => .pure h₁
  · exact .bind (.pure (hfund _)) fun _ h₁ => .pure h₁

theorem withdrawFrom_dated (h : Dated n s) : Returns (Dated n) (s.withdrawFrom name) := fun _ hs =>
  h.of_eq (by rw [(withdrawFrom_turn hs).vested.rest]) (by rw [(withdrawFrom_turn hs).vested.rest])

theorem expireEscrowRatification_dated (h : Dated n s) : Returns (Dated n) s.expireEscrowRatification := by
  unfold expireEscrowRatification
  refine .foldlM (fun u key hu => ?_) h
  unfold expireEscrow
  exact .after fun _ _ => .pure hu

theorem accountOnAuctionExpiration_dated (h : Dated n s) : Returns (Dated n) s.accountOnAuctionExpiration := by
  unfold accountOnAuctionExpiration
  exact .foldlM (fun _ _ hs => settleAuction_dated hs) h

theorem emptyAccounts_dated (h : Dated n s) : Returns (Dated n) s.emptyAccounts := by
  have hdrained : ∀ {s₁ : Ledger} {a : AccountName} (f : Int → Ledger → Ledger), Dated n s₁ →
      (∀ y u, Dated n u → Dated n (f y u)) → Returns (Dated n) (do
        let r ← s₁.drainAccount a
        return if 0 < r.1 then f r.1 r.2 else r.2) := by
    intro s₁ a f h₁ hf
    have hdrain : Returns (fun q : Int × Ledger => Dated n q.2) (s₁.drainAccount a) := by
      unfold drainAccount drainShares
      refine .after fun r _ => .bind (P := fun q : Int × Ledger => Dated n q.2) ?_ ?_
      · exact .after fun _ _ => .ite (fun _ => .after fun _ _ => .pure h₁) (fun _ => .pure h₁)
      · rintro ⟨c, s₂⟩ h₂
        exact .pure h₂
    refine hdrain.bind fun r h₂ => .pure ?_
    split
    · exact hf _ _ h₂
    · exact h₂
  unfold emptyAccounts clearNullAccountBalance clearAnonymousAccountBalance claimCommitteeAccountBalance
  refine (hdrained (fun y u => u.burnAsset (-y)) h fun _ _ hu => hu).bind fun s₁ h₁ => ?_
  refine (hdrained (fun y u => u.burnAsset (-y)) h₁ fun _ _ hu => hu).bind fun s₂ h₂ => ?_
  exact hdrained (fun y u => u.adjustCommitteeFund y) h₂ fun _ _ hu => hu

theorem committeeProcessing_dated (h : Dated n s) : Returns (Dated n) s.committeeProcessing := by
  unfold committeeProcessing
  have hconclude : ∀ (u : Ledger) (id : Nat), Dated n u → Returns (Dated n) (u.concludeRequest id) := by
    intro u id hu
    unfold concludeRequest
    refine .ite (fun _ => .after ?_) (fun _ => .pure hu)
    rintro ⟨status, payout⟩ -
    exact .pure hu
  have hpay : ∀ (most : Int) (u : Ledger) (id : Nat), Dated n u → Returns (Dated n) (payRequest most u id) := by
    intro most u id hu
    unfold payRequest
    exact .after fun _ _ => .pure hu
  exact .bind (.foldlM hconclude h) fun s₁ h₁ => .ite (fun _ => .pure h₁) (fun _ => .foldlM (hpay _) h₁)

theorem paidSubscribeProcessing_dated (h : Dated n s) : Returns (Dated n) s.paidSubscribeProcessing := by
  have hrenew : ∀ (u : Ledger) (key : AccountName × AccountName), Dated n u → Returns (Dated n) (u.renewSubscribe key) := by
    intro u key hu
    unfold renewSubscribe
    dsimp only
    cases u.paidSubscriptions.find key.2 with
    | none => exact .pure hu
    | some p =>
        exact .ite (fun _ => .after fun _ _ => .after fun _ _ => .ite (fun _ => .pure hu) (fun _ => .pure hu))
          (fun _ => .pure hu)
  have hloop : ∀ (fuel : Nat) (next : Option (AccountName × AccountName)) (u : Ledger), Dated n u →
      Returns (Dated n) (subscribeLoop fuel next u) := by
    intro fuel
    induction fuel with
    | zero => exact fun _ _ hu => .ok hu
    | succ fuel ih =>
        intro next u hu
        cases next with
        | none => exact .ok hu
        | some key =>
            refine .ite (fun _ => .ite (fun _ => ?_) (fun _ => .bind (.pure hu) fun _ h₁ => ih _ _ h₁)) (fun _ => .ok hu)
            exact (hrenew _ _ hu).bind fun _ h₁ => ih _ _ h₁
  exact hloop _ _ _ h

end Blocks

/-! ## Runs -/

/-- **The ledgers a node can come to**, by the acts of `Act`. What the ledger does not see leaves the votes and the head
    where they are. -/
inductive Voted (names : Names) : Ledger → Prop
  | genesis (props : MedianProps) (initiatorKey inviteKey : PublicKey) :
      Voted names (genesis props initiatorKey inviteKey)
  | operation {s s' : Ledger} {loc : Local} {o : Operation} (h : Voted names s)
      (ho : evaluate names loc s o = .ok s') : Voted names s'
  | moveHead {s : Ledger} (b : Head) (h : Voted names s) : Voted names (s.moveHead b)
  | clearExpired {s s' : Ledger} (h : Voted names s) (hs : s.clearExpired = .ok s') : Voted names s'
  | processRewards {s s' : Ledger} (h : Voted names s) (hs : s.processRewards = .ok s') : Voted names s'
  | cashoutContent {s s' : Ledger} {c : Content} (h : Voted names s) (hs : s.cashoutContent c = .ok s') : Voted names s'
  | withdrawFrom {s s' : Ledger} {name : AccountName} (h : Voted names s) (hs : s.withdrawFrom name = .ok s') :
      Voted names s'
  | accountRecoveryProcessing {s : Ledger} (h : Voted names s) : Voted names s.accountRecoveryProcessing
  | expireEscrowRatification {s s' : Ledger} (h : Voted names s) (hs : s.expireEscrowRatification = .ok s') :
      Voted names s'
  | accountOnAuctionExpiration {s s' : Ledger} (h : Voted names s) (hs : s.accountOnAuctionExpiration = .ok s') :
      Voted names s'
  | emptyAccounts {s s' : Ledger} (h : Voted names s) (hs : s.emptyAccounts = .ok s') : Voted names s'
  | committeeProcessing {s s' : Ledger} (h : Voted names s) (hs : s.committeeProcessing = .ok s') : Voted names s'
  | paidSubscribeProcessing {s s' : Ledger} (h : Voted names s) (hs : s.paidSubscribeProcessing = .ok s') :
      Voted names s'
  | aside {s s' : Ledger} (h : Voted names s) (hhead : s'.headBlockNumber = s.headBlockNumber)
      (hvotes : s'.votes = s.votes) : Voted names s'

/-- Operations, one after another. -/
theorem Voted.operations {loc : Local} {ops : List Operation} (h : Voted names s)
    (hops : ops.foldlM (evaluate names loc) s = .ok s') : Voted names s' := by
  induction ops generalizing s with
  | nil => exact Except.ok.inj hops ▸ h
  | cons o ops ih =>
      rw [List.foldlM_cons, bind_eq_ok] at hops
      obtain ⟨s₁, ho, hops⟩ := hops
      exact ih (h.operation ho) hops

/-- What the ledger does not see, any number of blocks later. -/
theorem Voted.later (h : Voted names s) (hhead : s.headBlockNumber ≤ s'.headBlockNumber) (hvotes : s'.votes = s.votes) :
    Voted names s' := by
  have hmoved : ∀ k, ∃ u, Voted names u ∧ u.headBlockNumber = s.headBlockNumber + k ∧ u.votes = s.votes := by
    intro k
    induction k with
    | zero => exact ⟨s, h, rfl, rfl⟩
    | succ k ih =>
        obtain ⟨u, hu, hk, hv⟩ := ih
        refine ⟨u.moveHead ⟨u.currentValidator, u.time⟩, hu.moveHead _, ?_, hv⟩
        show u.headBlockNumber + 1 = s.headBlockNumber + (k + 1)
        omega
  obtain ⟨u, hu, hk, hv⟩ := hmoved (s'.headBlockNumber - s.headBlockNumber)
  exact hu.aside (by omega) (hvotes.trans hv.symm)

/-- **The votes of a node are dated.** -/
theorem Voted.dated (h : Voted names s) : Dated s.headBlockNumber s := by
  have hkeep : ∀ {u u' : Ledger}, Dated u.headBlockNumber u → Returns (Dated u.headBlockNumber) (.ok u' : Result Ledger) →
      Dated u'.headBlockNumber u' := by
    intro u u' _ hr
    have hd := hr u' rfl
    exact hd.1.symm ▸ hd
  induction h with
  | genesis => exact ⟨rfl, fun k hk => absurd hk List.not_mem_nil⟩
  | operation _ ho ih => exact hkeep ih (ho ▸ evaluate_dated ih)
  | @moveHead s b _ ih => exact ⟨rfl, fun k hk => (ih.2 k hk).trans (Nat.le_succ _)⟩
  | clearExpired _ hs ih => exact hkeep ih (hs ▸ clearExpired_dated ih)
  | processRewards _ hs ih => exact hkeep ih (hs ▸ processRewards_dated ih)
  | cashoutContent _ hs ih => exact hkeep ih (hs ▸ cashoutContent_dated ih)
  | withdrawFrom _ hs ih => exact hkeep ih (hs ▸ withdrawFrom_dated ih)
  | accountRecoveryProcessing _ ih => exact ih
  | expireEscrowRatification _ hs ih => exact hkeep ih (hs ▸ expireEscrowRatification_dated ih)
  | accountOnAuctionExpiration _ hs ih => exact hkeep ih (hs ▸ accountOnAuctionExpiration_dated ih)
  | emptyAccounts _ hs ih => exact hkeep ih (hs ▸ emptyAccounts_dated ih)
  | committeeProcessing _ hs ih => exact hkeep ih (hs ▸ committeeProcessing_dated ih)
  | paidSubscribeProcessing _ hs ih => exact hkeep ih (hs ▸ paidSubscribeProcessing_dated ih)
  | @aside s s' _ hhead hvotes ih => exact hhead ▸ ih.of_eq hhead hvotes

end Ledger

end VizNode
