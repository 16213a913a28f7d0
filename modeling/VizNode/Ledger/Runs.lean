import VizNode.Ledger.Stakes
import VizNode.Ledger.Auctions
import VizNode.Ledger.Processing

/-!
# `VizNode.Ledger.Runs` — what can happen to the ledger

A ledger starts from genesis. Transactions come in and are processed in blocks: the signatures of a transaction
are checked once, then its operations are evaluated one after another. Behind the transactions a block is
processed in parts. Everything else that a node does, such as metadata, proposals or the properties of the chain,
leaves the books as they are.

**Signatures.** A signature is not modelled further than that an authority nobody can satisfy is not satisfied.

## Contents
- **Operations.** `Operation`, who signs it, and `evaluate`.
- **Genesis.**
- **Steps.** `Step P`, a step whose operations all meet `P`, and `Reachable P`.
- **Runs keep the books in order.** `Reachable.inOrder`, `Reachable.solvent`.
-/

namespace VizNode

namespace Ledger

open Bank Forest

/-! ## Operations -/

/-- **The operations** that the books see. -/
inductive Operation where
  | accountCreate (o : AccountCreate)
  | accountUpdate (o : AccountUpdate)
  | requestAccountRecovery (recoveryAccount accountToRecover : AccountName) (newMaster : Authority)
  | recoverAccount (accountToRecover : AccountName) (newMaster recentMaster : Authority)
  | transfer (o : Transfer)
  | escrowTransfer (o : EscrowTransfer)
  | escrowApprove (o : EscrowApprove)
  | escrowDispute (from_ to_ agent who : AccountName) (escrowId : Nat)
  | escrowRelease (o : EscrowRelease)
  | transferToVesting (from_ to_ : AccountName) (amount : Nat)
  | withdrawVesting (account : AccountName) (shares : Nat)
  | setWithdrawVestingRoute (o : SetWithdrawVestingRoute)
  | delegateVestingShares (delegator delegatee : AccountName) (shares : Nat)
  | accountValidatorProxy (account proxy : AccountName)
  | accountValidatorVote (account validator : AccountName) (approve : Bool)
  | validatorUpdate (owner : AccountName)
  | setRewardSharing (owner : AccountName) (sharingRate : Nat)
  | createInvite (creator : AccountName) (balance : Nat) (inviteKey : PublicKey)
  | claimInviteBalance (initiator receiver : AccountName) (secret : Option PublicKey)
  | inviteRegistration (initiator newAccountName : AccountName) (secret : Option PublicKey)
      (newAccountKey : PublicKey)
  | useInviteBalance (initiator receiver : AccountName) (secret : Option PublicKey)
  | setPaidSubscription (account : AccountName) (levels amount period : Nat)
  | paidSubscribe (o : PaidSubscribeOp)
  | committeeWorkerCreateRequest (o : CommitteeCreateRequest)
  | committeeWorkerCancelRequest (creator : AccountName) (id : Nat)
  | committeeVoteRequest (voter : AccountName) (id : Nat) (votePercent : Int)
  | award (o : Award)
  | fixedAward (o : FixedAward)
  | setAccountPrice (o : SetAccountPrice)
  | targetAccountSale (o : TargetAccountSale)
  | setSubaccountPrice (account seller : AccountName) (price : Nat) (onSale : Bool)
  | buyAccount (o : BuyAccount)

/-- What an evaluator reads that is not in the ledger: the node's clock, whether the node is producing the block,
    and the head of the `by_vote_name` index. -/
structure Local where
  clock        : Nat
  producing    : Bool
  topValidator : AccountName

/-- `get_required_..._authorities`: the account that has to sign. A recovery is signed with two authorities of
    its own instead. -/
def Operation.signer : Operation → Option AccountName
  | .accountCreate o                  => some o.creator
  | .accountUpdate o                  => some o.account
  | .requestAccountRecovery partner _ _ => some partner
  | .recoverAccount _ _ _             => none
  | .transfer o                       => some o.from_
  | .escrowTransfer o                 => some o.from_
  | .escrowApprove o                  => some o.who
  | .escrowDispute _ _ _ who _        => some who
  | .escrowRelease o                  => some o.who
  | .transferToVesting from_ _ _      => some from_
  | .withdrawVesting account _        => some account
  | .setWithdrawVestingRoute o        => some o.fromAccount
  | .delegateVestingShares delegator _ _ => some delegator
  | .accountValidatorProxy account _  => some account
  | .accountValidatorVote account _ _ => some account
  | .validatorUpdate owner            => some owner
  | .setRewardSharing owner _         => some owner
  | .createInvite creator _ _         => some creator
  | .claimInviteBalance initiator _ _ => some initiator
  | .inviteRegistration initiator _ _ _ => some initiator
  | .useInviteBalance initiator _ _   => some initiator
  | .setPaidSubscription account _ _ _ => some account
  | .paidSubscribe o                  => some o.subscriber
  | .committeeWorkerCreateRequest o   => some o.creator
  | .committeeWorkerCancelRequest creator _ => some creator
  | .committeeVoteRequest voter _ _   => some voter
  | .award o                          => some o.initiator
  | .fixedAward o                     => some o.initiator
  | .setAccountPrice o                => some o.account
  | .targetAccountSale o              => some o.account
  | .setSubaccountPrice account _ _ _ => some account
  | .buyAccount o                     => some o.buyer

/-- **The evaluator of an operation.** -/
def evaluate (names : Names) (loc : Local) (s : Ledger) : Operation → Result Ledger
  | .accountCreate o                    => accountCreate names s o
  | .accountUpdate o                    => accountUpdate names s o
  | .requestAccountRecovery partner a m => s.requestAccountRecovery loc.topValidator partner a m
  | .recoverAccount a newMaster recent  => s.recoverAccount a newMaster recent
  | .transfer o                         => transfer names s o
  | .escrowTransfer o                   => s.escrowTransfer o
  | .escrowApprove o                    => s.escrowApprove o
  | .escrowDispute from_ to_ agent who id => s.escrowDispute from_ to_ agent who id
  | .escrowRelease o                    => s.escrowRelease o
  | .transferToVesting from_ to_ amount => s.transferToVesting from_ to_ amount
  | .withdrawVesting account shares     => s.withdrawVesting account shares
  | .setWithdrawVestingRoute o          => s.setWithdrawVestingRoute o
  | .delegateVestingShares x y shares   => s.delegateVestingShares x y shares
  | .accountValidatorProxy account proxy => accountValidatorProxy names s account proxy
  | .accountValidatorVote account v approve => s.accountValidatorVote account v approve
  | .validatorUpdate owner              => s.validatorUpdate owner
  | .setRewardSharing owner rate        => s.setRewardSharing owner rate
  | .createInvite creator balance key   => s.createInvite creator balance key
  | .claimInviteBalance i receiver secret => s.claimInviteBalance i receiver secret
  | .inviteRegistration i name secret key => inviteRegistration names s i name secret key
  | .useInviteBalance i receiver secret => s.useInviteBalance i receiver secret
  | .setPaidSubscription account levels amount period => s.setPaidSubscription account levels amount period
  | .paidSubscribe o                    => s.paidSubscribe o
  | .committeeWorkerCreateRequest o     => s.committeeWorkerCreateRequest o
  | .committeeWorkerCancelRequest creator id => s.committeeWorkerCancelRequest creator id
  | .committeeVoteRequest voter id percent => s.committeeVoteRequest voter id percent
  | .award o                            => award loc.producing s o
  | .fixedAward o                       => fixedAward loc.producing s o
  | .setAccountPrice o                  => setAccountPrice names s o
  | .targetAccountSale o                => targetAccountSale names s o
  | .setSubaccountPrice account seller price onSale => setSubaccountPrice names s account seller price onSale
  | .buyAccount o                       => buyAccount names loc.clock s o

/-- Somebody can have signed for the operation: its account is known, and one of the authorities of the account
    can be satisfied. -/
def signed (s : Ledger) (o : Operation) : Prop :=
  ∀ a ∈ o.signer, a ∈ s.authorities.keys ∧ (s.authorities.row a).canSign = true

instance (s : Ledger) (o : Operation) : Decidable (s.signed o) := by
  unfold signed
  infer_instance

/-! ## Genesis -/

/-- The authority of an account without a key. -/
def noAuthority : AccountAuthority :=
  { master := { weightThreshold := 1 }, active := { weightThreshold := 1 }, regular := { weightThreshold := 1 } }

/-- The accounts of `init_genesis`. -/
def genesisAccounts (initiatorKey : PublicKey) : Table AccountName Account :=
  ((((Table.empty.insert Config.nullAccount {}).insert Config.committeeAccount {}).insert
    Config.anonymousAccount {}).insert Config.inviteAccount {}).insert Config.initiatorName
      { balance := Config.initSupply, memoKey := initiatorKey }

/-- The authorities of `init_genesis`. -/
def genesisAuthorities (initiatorKey inviteKey : PublicKey) : Table AccountName AccountAuthority :=
  ((((Table.empty.insert Config.nullAccount noAuthority).insert Config.committeeAccount noAuthority).insert
    Config.anonymousAccount noAuthority).insert Config.inviteAccount
      { noAuthority with active := .ofKey inviteKey }).insert Config.initiatorName (.ofKey initiatorKey 0)

/-- **`init_genesis`**, without a snapshot. -/
def genesis (props : MedianProps) (initiatorKey inviteKey : PublicKey) : Ledger where
  accounts                  := genesisAccounts initiatorKey
  authorities               := genesisAuthorities initiatorKey inviteKey
  masterHistory             := []
  currentSupply             := Config.initSupply
  totalVestingFund          := 0
  totalVestingShares        := 0
  totalRewardFund           := 0
  committeeFund             := 0
  escrows                   := .empty
  invites                   := .empty
  validators                := Table.empty.insert Config.committeeAccount { rate_le := Nat.zero_le _ }
  delegations               := .empty
  expirations               := []
  routes                    := .empty
  hardfork                  := 0
  time                      := 0
  headBlockNumber           := 0
  currentValidator          := Config.committeeAccount
  medianProps               := props
  inflationCalcBlockNum     := 0
  inflationValidatorPercent := 0
  inflationRatio            := 0
  validatorPercent_le       := Nat.zero_le _
  ratio_le                  := Nat.zero_le _
  totalRewardShares         := 0
  awardExpires              := []
  votes                     := .empty
  paidSubscriptions         := .empty
  paidSubscribes            := .empty
  committeeRequestCount     := 0
  committeeRequests         := .empty
  committeeVotes            := .empty
  recoveryRequests          := .empty
  anonymousNum              := 0

/-! ## Steps -/

/-- The operations of a transaction, or of a proposal that is carried out, one after another; each of them meets
    `P` in the ledger it finds. -/
inductive Performed (names : Names) (P : Ledger → Operation → Prop) : List Operation → Ledger → Ledger → Prop
  | nil (s : Ledger) : Performed names P [] s s
  | cons {s s₁ s' : Ledger} {loc : Local} {o : Operation} {ops : List Operation} (hP : P s o)
      (ho : evaluate names loc s o = .ok s₁) (hops : Performed names P ops s₁ s') :
      Performed names P (o :: ops) s s'

/-- **The steps.** A block makes those behind `transaction` in this order. -/
inductive Step (names : Names) (P : Ledger → Operation → Prop) : Ledger → Ledger → Prop
  | transaction {s s' : Ledger} {ops : List Operation} (hsigned : ∀ o ∈ ops, s.signed o)
      (hops : Performed names P ops s s') : Step names P s s'
  | moveHead {s : Ledger} (b : Head) : Step names P s (s.moveHead b)
  | clearExpired {s s' : Ledger} (h : s.clearExpired = .ok s') : Step names P s s'
  | processRewards {s s' : Ledger} (h : s.processRewards = .ok s') : Step names P s s'
  | cashoutContent {s s' : Ledger} {c : Content} (h : s.cashoutContent c = .ok s') : Step names P s s'
  /-- A turn is a part of `processAccounts`; the ledgers between two turns count as well. -/
  | withdrawFrom {s s' : Ledger} {name : AccountName} (h : s.withdrawFrom name = .ok s') : Step names P s s'
  | processAccounts {s s' : Ledger} (h : s.processAccounts = .ok s') : Step names P s s'
  | processClosing {s s' : Ledger} (h : s.processClosing = .ok s') : Step names P s s'
  /-- What the books do not see. -/
  | aside {s s' : Ledger} (h : s'.bank = s.bank) : Step names P s s'

/-- **The ledgers a node can come to**, by steps whose operations all meet `P`. -/
inductive Reachable (names : Names) (P : Ledger → Operation → Prop) : Ledger → Prop
  | genesis (props : MedianProps) (initiatorKey inviteKey : PublicKey) :
      Reachable names P (genesis props initiatorKey inviteKey)
  | step {s s' : Ledger} (h : Reachable names P s) (hs : Step names P s s') : Reachable names P s'

/-- Any operation at all. -/
def anyOperation (_ : Ledger) (_ : Operation) : Prop := True

/-- A bid is covered. -/
def coveredBid (s : Ledger) : Operation → Prop
  | .buyAccount o => s.Covered o
  | _             => True

/-! ## Runs keep the books in order -/

section Keeping

variable {names : Names} {loc : Local} {s s' : Ledger} {o : Operation} {ops : List Operation}
  {Q : Ledger → Operation → Prop}

/-- **What an operation does to the books.** Only a fixed award can lose tokens. -/
theorem evaluate_course {P : Terms} (h : evaluate names loc s o = .ok s')
    (hk : InOrder 0 s.bank ∧ P.signed → ∀ a ∈ o.signer, a ∉ Config.keyless) (hc : P.covered → s.coveredBid o) :
    ∃ δ, Course P δ s.bank s'.bank ∧ ((∀ f, o ≠ .fixedAward f) → δ = 0) := by
  by_cases hf : ∃ f, o = .fixedAward f
  · obtain ⟨f, rfl⟩ := hf
    obtain ⟨δ, hcourse⟩ := fixedAward_course (P := P) h
    exact ⟨δ, hcourse, fun hne => absurd rfl (hne f)⟩
  refine ⟨0, ?_, fun _ => rfl⟩
  cases o with
  | accountCreate o => exact accountCreate_course h (fun hb => hk hb _ rfl)
  | accountUpdate o => exact accountUpdate_course h (fun hb => hk hb _ rfl)
  | requestAccountRecovery partner account master => exact requestAccountRecovery_course h
  | recoverAccount account newMaster recent => exact recoverAccount_course h
  | transfer o => exact transfer_course h
  | escrowTransfer o => exact escrowTransfer_course h
  | escrowApprove o => exact escrowApprove_course h
  | escrowDispute from_ to_ agent who id => exact escrowDispute_course h
  | escrowRelease o => exact escrowRelease_course h
  | transferToVesting from_ to_ amount => exact transferToVesting_course h
  | withdrawVesting account shares => exact withdrawVesting_course h (fun hb => hk hb _ rfl)
  | setWithdrawVestingRoute o => exact setWithdrawVestingRoute_course h
  | delegateVestingShares x y shares => exact delegateVestingShares_course h (fun hb => hk hb _ rfl)
  | accountValidatorProxy account proxy => exact accountValidatorProxy_course h (fun hb => hk hb _ rfl)
  | accountValidatorVote account v approve => exact accountValidatorVote_course h (fun hb => hk hb _ rfl)
  | validatorUpdate owner => exact validatorUpdate_course h
  | setRewardSharing owner rate => exact setRewardSharing_course h
  | createInvite creator balance key => exact createInvite_course h
  | claimInviteBalance i receiver secret => exact claimInviteBalance_course h
  | inviteRegistration i name secret key => exact inviteRegistration_course h
  | useInviteBalance i receiver secret => exact useInviteBalance_course h
  | setPaidSubscription account levels amount period => exact setPaidSubscription_course h
  | paidSubscribe o => exact paidSubscribe_course h
  | committeeWorkerCreateRequest o => exact committeeWorkerCreateRequest_course h
  | committeeWorkerCancelRequest creator id => exact committeeWorkerCancelRequest_course h
  | committeeVoteRequest voter id percent => exact committeeVoteRequest_course h
  | award o => exact award_course h
  | fixedAward o => exact absurd ⟨o, rfl⟩ hf
  | setAccountPrice o => exact setAccountPrice_course h (fun hb => hk hb _ rfl)
  | targetAccountSale o => exact targetAccountSale_course h (fun hb => hk hb _ rfl)
  | setSubaccountPrice account seller price onSale => exact setSubaccountPrice_course h
  | buyAccount o => exact buyAccount_course h hc

/-- Whoever can sign has a key. -/
theorem signed.not_keyless (h : s.signed o) (hb : InOrder 0 s.bank) : ∀ a ∈ o.signer, a ∉ Config.keyless := by
  intro a ha hk
  have hcan := (h a ha).2
  have hcannot : (s.authorities.row a).canSign = false := hb.sealed.authority a hk
  rw [hcannot] at hcan
  cases hcan

/-- **The operations of a transaction keep the books in order.** -/
theorem Performed.inOrder (h : Performed names Q ops s s') (hk : ∀ o ∈ ops, ∀ a ∈ o.signer, a ∉ Config.keyless)
    (hb : InOrder 0 s.bank) : InOrder 0 s'.bank := by
  induction h with
  | nil s => exact hb
  | @cons s s₁ s' loc o ops hQ ho hops ih =>
      obtain ⟨δ, hcourse, -⟩ := evaluate_course (P := ⟨True, False⟩) ho (fun _ => hk o List.mem_cons_self) False.elim
      exact ih (fun p hp => hk p (List.mem_cons_of_mem o hp)) (hcourse.inOrder trivial hb)

/-- **Operations that cover their bids overdraw nobody.** -/
theorem Performed.solvent (h : Performed names Q ops s s') (hQ : ∀ s o, Q s o → s.coveredBid o)
    (hb : Solvent s.bank) : Solvent s'.bank := by
  induction h with
  | nil s => exact hb
  | @cons s s₁ s' loc o ops hQo ho hops ih =>
      obtain ⟨δ, hcourse, -⟩ := evaluate_course (P := ⟨False, True⟩) ho (fun hf => hf.2.elim) (fun _ => hQ s o hQo)
      exact ih (hcourse.solvent trivial hb)

/-- **A step keeps the books in order.** -/
theorem Step.inOrder (h : Step names Q s s') (hb : InOrder 0 s.bank) : InOrder 0 s'.bank := by
  cases h with
  | transaction hsigned hops => exact hops.inOrder (fun o ho => (hsigned o ho).not_keyless hb) hb
  | moveHead b => exact hb
  | clearExpired h => exact (clearExpired_course (P := ⟨True, True⟩) h).inOrder trivial hb
  | processRewards h => exact (processRewards_course (P := ⟨True, True⟩) h).inOrder trivial hb
  | cashoutContent h => exact (cashoutContent_course (P := ⟨True, True⟩) h).inOrder trivial hb
  | withdrawFrom h => exact ((withdrawFrom_turn h).course ⟨True, True⟩).inOrder trivial hb
  | processAccounts h => exact (processAccounts_course (P := ⟨True, True⟩) h).inOrder trivial hb
  | processClosing h => exact (processClosing_course (P := ⟨True, True⟩) h).inOrder trivial hb
  | aside h => exact h ▸ hb

/-- **A step that covers its bids overdraws nobody.** -/
theorem Step.solvent (h : Step names Q s s') (hQ : ∀ s o, Q s o → s.coveredBid o) (hb : Solvent s.bank) :
    Solvent s'.bank := by
  cases h with
  | transaction hsigned hops => exact hops.solvent hQ hb
  | moveHead b => exact hb
  | clearExpired h => exact (clearExpired_course (P := ⟨True, True⟩) h).solvent trivial hb
  | processRewards h => exact (processRewards_course (P := ⟨True, True⟩) h).solvent trivial hb
  | cashoutContent h => exact (cashoutContent_course (P := ⟨True, True⟩) h).solvent trivial hb
  | withdrawFrom h => exact ((withdrawFrom_turn h).course ⟨True, True⟩).solvent trivial hb
  | processAccounts h => exact (processAccounts_course (P := ⟨True, True⟩) h).solvent trivial hb
  | processClosing h => exact (processClosing_course (P := ⟨True, True⟩) h).solvent trivial hb
  | aside h => exact h ▸ hb

section Genesis

variable {props : MedianProps} {initiatorKey inviteKey : PublicKey}

theorem genesisAccounts_keys : (genesisAccounts initiatorKey).keys =
    [Config.nullAccount, Config.committeeAccount, Config.anonymousAccount, Config.inviteAccount,
      Config.initiatorName] := rfl

/-- Every account of genesis is empty, but for the balance of the initiator. -/
theorem genesisAccounts_book (a : AccountName) : ((genesisAccounts initiatorKey).row a).toAccountBook =
    { balance := if a = Config.initiatorName then Config.initSupply else 0 } := by
  unfold genesisAccounts
  repeat rw [Table.insert_row (by decide)]
  by_cases h : a = Config.initiatorName
  · rw [if_pos h, if_pos h]
  · rw [if_neg h, if_neg h]
    split_ifs <;> rfl

theorem genesis_book (a : AccountName) : (genesis props initiatorKey inviteKey).bank.accounts.row a =
    { balance := if a = Config.initiatorName then Config.initSupply else 0 } := genesisAccounts_book a

/-- No account of genesis has a proxy. -/
theorem genesis_climb (a : AccountName) (k : Nat) :
    climb (proxyOf (genesis props initiatorKey inviteKey).bank.accounts) (k + 1) a = none := by
  rw [climb_succ, proxyOf_eq_none (congrArg AccountBook.proxy (genesis_book a))]
  rfl

theorem genesis_sealed : Sealed (genesis props initiatorKey inviteKey).bank where
  known     := by
    show ∀ k ∈ Config.keyless, k ∈ (genesisAccounts initiatorKey).keys
    rw [genesisAccounts_keys]
    decide
  authority := by
    intro k hk
    simp only [Config.keyless, List.mem_cons, List.not_mem_nil, or_false] at hk
    rcases hk with rfl | rfl | rfl <;> rfl
  history   := List.forall_mem_nil _
  idle      := fun k _ => congrArg AccountBook.acts (genesis_book k)
  lent      := List.forall_mem_nil _
  returning := List.forall_mem_nil _

theorem genesis_proxied : Proxied (genesis props initiatorKey inviteKey).bank.accounts where
  acyclic := by
    intro a k
    rw [genesis_climb]
    exact Option.some_ne_none a ∘ Eq.symm
  known   := fun a _ hne => absurd (congrArg AccountBook.proxy (genesis_book a)) hne
  counts  := by
    intro a _ d _
    rw [genesis_book]
    refine (List.sum_eq_zero ?_).symm
    intro x hx
    obtain ⟨c, -, rfl⟩ := List.mem_map.mp hx
    rw [genesis_climb]
    exact if_neg (Option.some_ne_none a ∘ Eq.symm)

theorem genesis_reserved : Reserved (genesis props initiatorKey inviteKey).bank.accounts where
  sum     := by
    intro c _
    rw [genesis_book, Table.total_eq_zero (fun a _ => by rw [genesis_book]; exact ite_self 0)]
  open_   := by
    intro a _
    rw [genesis_book]
    exact ⟨fun h => absurd rfl h, fun h => absurd h (lt_irrefl 0)⟩
  auction := by
    intro a _
    rw [genesis_book]
    exact ⟨Bool.noConfusion, fun h => absurd rfl h⟩
  known   := fun a _ hne => absurd (congrArg AccountBook.currentBidder (genesis_book a)) hne

/-- **Genesis is in order.** -/
theorem genesis_inOrder : InOrder 0 (genesis props initiatorKey inviteKey).bank where
  sealed    := genesis_sealed
  backed    :=
    { total   := by
        rw [add_zero, Table.total_eq_zero (fun a _ => by rw [genesis_book])]
        rfl
      account := fun a _ => by rw [genesis_book]
      shares  := le_rfl
      backed  := le_rfl }
  routes    := ⟨List.forall_mem_nil _, fun _ => Nat.zero_le _⟩
  proxied   := genesis_proxied
  delegated :=
    { known     := List.forall_mem_nil _
      returning := List.forall_mem_nil _
      delegated := fun c _ => congrArg AccountBook.delegatedVestingShares (genesis_book c)
      received  := fun c _ => congrArg AccountBook.receivedVestingShares (genesis_book c)
      bound     := fun c _ => by rw [genesis_book]; exact le_rfl }
  reserved  := genesis_reserved

/-- **Nobody is overdrawn at genesis.** -/
theorem genesis_solvent : Solvent (genesis props initiatorKey inviteKey).bank where
  account   := by
    intro a _
    rw [genesis_book]
    show 0 ≤ if a = Config.initiatorName then (Config.initSupply : Int) else 0
    split_ifs <;> decide
  committee := le_rfl

end Genesis

/-- **The books are in order in every ledger a node can come to.** -/
theorem Reachable.inOrder (h : Reachable names Q s) : InOrder 0 s.bank := by
  induction h with
  | genesis => exact genesis_inOrder
  | step _ hs ih => exact hs.inOrder ih

/-- **Nobody is overdrawn while all bids are covered.** -/
theorem Reachable.solvent (h : Reachable names Q s) (hQ : ∀ s o, Q s o → s.coveredBid o) : Solvent s.bank := by
  induction h with
  | genesis => exact genesis_solvent
  | step _ hs ih => exact hs.solvent hQ ih

/-! ## A sample ledger -/

/-- The ledger that a computation answers with passes a test. -/
def passes (r : Result Ledger) (p : Ledger → Bool) : Bool :=
  match r with
  | .ok s    => p s
  | .error _ => false

theorem exists_of_passes {r : Result Ledger} {p : Ledger → Bool} (h : passes r p = true) :
    ∃ s, r = .ok s ∧ p s = true := by
  cases r with
  | ok s    => exact ⟨s, rfl, h⟩
  | error e => cases h

/-- Operations that are evaluated one after another on one node. -/
theorem Performed.of_foldlM (h : ops.foldlM (evaluate names loc) s = .ok s') :
    Performed names anyOperation ops s s' := by
  induction ops generalizing s with
  | nil => exact Except.ok.inj h ▸ .nil s
  | cons o ops ih =>
      simp only [List.foldlM_cons, bind_eq_ok] at h
      obtain ⟨s₁, h₁, h⟩ := h
      exact .cons trivial h₁ (ih h)

end Keeping

namespace Sample

/-- `"alice"` and `"bob"`, padded to 32 bytes. -/
def alice : AccountName := 0x616c696365 * 2 ^ 216
def bob : AccountName := 0x626f62 * 2 ^ 232

/-- Every name is a valid one, and none has a dot. -/
def names : Names where
  validAccountName a  := decide (a ≠ 0)
  validDomainName _ _ := true
  validCreateName _   := true
  splitName _         := none
  anonymousName n     := n + 1
  empty_invalid       := rfl

def props : MedianProps where
  accountCreationFee                := 1000
  createAccountDelegationRatio      := 10
  createAccountDelegationTime       := 2592000
  minDelegation                     := 1000
  voteAccountingMinRshares          := 50000
  committeeRequestApproveMinPercent := 1000
  inflationValidatorPercent         := 2000
  inflationRatio                    := 5000
  inflationRecalcPeriod             := 806400
  createInviteMinBalance            := 10000
  committeeCreateRequestFee         := 100000
  createPaidSubscriptionFee         := 100000
  accountOnSaleFee                  := 10000
  subaccountOnSaleFee               := 100000
  validatorDeclarationFee           := 10000
  withdrawIntervals                 := 28
  distributionEpochLength           := 28800
  validatorPercent_le               := by decide
  ratio_le                          := by decide

def loc : Local := { clock := 1000000, producing := false, topValidator := 0 }

/-- Genesis, with all hardforks applied. -/
def start : Ledger := { genesis props 1 2 with hardfork := 13, time := 1000000, headBlockNumber := 1 }

theorem start_reachable {P : Ledger → Operation → Prop} : Reachable names P start :=
  .step (.genesis props 1 2) (.aside rfl)

/-- The initiator opens an account. -/
def openAccount (name : AccountName) (key : PublicKey) : Operation :=
  .accountCreate
    { fee := 1000, delegation := 0, creator := Config.initiatorName, newAccountName := name
      master := .ofKey key, active := .ofKey key, regular := .ofKey key, memoKey := key, referrer := 0 }

end Sample

end Ledger

end VizNode
