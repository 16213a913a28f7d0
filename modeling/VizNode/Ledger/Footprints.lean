import VizNode.Ledger.Runs

/-!
# `VizNode.Ledger.Footprints` — what an operation can touch

The subscriptions, the requests to the committee, the reward shares and the withdrawal an account has planned are each
the matter of a few operations and parts of a block. Everything else leaves them alone, whatever else it does to
accounts and funds. `Plain T s s'` says that a ledger has become another one and only the matters in `T` were touched;
this module goes through all a node can do.

**The proofs follow the programs**, by the rules of `Prog.Returns`.

## Contents
- **Matters.** `Matter`, `Plain`, and which changes of a ledger it does not see.
- **Votes and shares**, **Accounts and transfers**, **Services**, **Sales**: the functions the evaluators share, then
  the evaluators.
- **Operations.** `Operation.touches`, `evaluate_plain`.
- **Blocks.** The parts of a block.
-/

namespace VizNode

namespace Ledger

open Prog (Returns)

/-! ## Matters -/

/-- What of a ledger only a few operations and parts of a block touch. -/
inductive Matter
  | subscriptions
  | committee
  | awards
  /-- The withdrawal an account has planned, and its shares. -/
  | plan (name : AccountName)
  /-- Who can act for an account and recover it, and what is offered and bid for it. -/
  | title (name : AccountName)

/-- Nothing is touched. -/
def nothing (_ : Matter) : Prop := False

/-- What of an account belongs to its title: the recovery partner, the offer and the bids. -/
structure Deed where
  recoveryAccount        : AccountName
  accountSeller          : AccountName
  accountOfferPrice      : Nat
  accountOnSale          : Bool
  accountOnSaleStartTime : Nat
  targetBuyer            : AccountName
  accountOnAuction       : Bool
  currentBid             : Nat
  currentBidder          : AccountName
  currentBidderKey       : PublicKey
  lastBid                : Nat
deriving DecidableEq, Repr

def deed (r : Account) : Deed where
  recoveryAccount        := r.recoveryAccount
  accountSeller          := r.accountSeller
  accountOfferPrice      := r.accountOfferPrice
  accountOnSale          := r.accountOnSale
  accountOnSaleStartTime := r.accountOnSaleStartTime
  targetBuyer            := r.targetBuyer
  accountOnAuction       := r.accountOnAuction
  currentBid             := r.currentBid
  currentBidder          := r.currentBidder
  currentBidderKey       := r.currentBidderKey
  lastBid                := r.lastBid

/-- **The title of an account.** -/
structure Title where
  authority : AccountAuthority
  deed      : Deed
deriving DecidableEq, Repr

def title (s : Ledger) (a : AccountName) : Title := ⟨s.authorities.row a, deed (s.accounts.row a)⟩

/-- What an account has to withdraw, and from what. -/
def stake (r : Account) : (Int × Nat × Int × Int) × Int :=
  ((r.vestingWithdrawRate, r.nextVestingWithdrawal, r.toWithdraw, r.withdrawn), r.vestingShares)

/-- **An account is left to itself**: its withdrawal is as it was planned, and nobody takes its shares. -/
def Undisturbed (r r' : Account) : Prop := (stake r').1 = (stake r).1 ∧ r.vestingShares ≤ r'.vestingShares

/-- **A withdrawal goes forward by whole instalments**, and not beyond what was planned. -/
structure Paced (r : Account) : Prop where
  rate_nonneg      : 0 ≤ r.vestingWithdrawRate
  withdrawn_nonneg : 0 ≤ r.withdrawn
  withdrawn_le     : r.withdrawn ≤ r.toWithdraw
  dvd              : 0 < r.vestingWithdrawRate → r.vestingWithdrawRate ∣ r.withdrawn

/-- No delegation is below zero. -/
def Lends (s : Ledger) : Prop := ∀ k ∈ s.delegations.keys, 0 ≤ (s.delegations.row k).vestingShares

/-- What touching an account would be: its withdrawal or its title. -/
def AccountPlain (T : Matter → Prop) (s₀ s : Ledger) (a : AccountName) : Prop :=
  a ∈ s.accounts.keys ∧ (¬ T (.plan a) → Undisturbed (s₀.accounts.row a) (s.accounts.row a)) ∧
    (¬ T (.title a) → s.title a = s₀.title a ∧ (a ∉ s₀.recoveryRequests.keys → a ∉ s.recoveryRequests.keys))

/-- **Only the matters in `T` are touched.** Accounts stay, a new one withdraws nothing out of pace, the two funds only
    grow, no hardfork is taken back, and no delegation falls below zero. -/
def Plain (T : Matter → Prop) (s₀ s : Ledger) : Prop :=
  (∀ a ∈ s₀.accounts.keys, AccountPlain T s₀ s a) ∧
  (¬ T .subscriptions → s.paidSubscriptions = s₀.paidSubscriptions ∧ s.paidSubscribes = s₀.paidSubscribes) ∧
  (¬ T .committee → (s.committeeRequests = s₀.committeeRequests ∧ s.committeeVotes = s₀.committeeVotes ∧
    s.committeeRequestCount = s₀.committeeRequestCount) ∧ s₀.committeeFund ≤ s.committeeFund) ∧
  (¬ T .awards → (s.totalRewardShares = s₀.totalRewardShares ∧ s.awardExpires = s₀.awardExpires) ∧
    s₀.totalRewardFund ≤ s.totalRewardFund) ∧ s₀.hardfork ≤ s.hardfork ∧
  (∀ a ∈ s.accounts.keys, a ∉ s₀.accounts.keys → ¬ T (.plan a) → Paced (s.accounts.row a)) ∧ (s₀.Lends → s.Lends)

variable {T : Matter → Prop} {s₀ s s' : Ledger} {names : Names}

namespace Undisturbed

theorem refl (r : Account) : Undisturbed r r := ⟨rfl, le_rfl⟩

theorem trans {r₁ r₂ r₃ : Account} (h : Undisturbed r₁ r₂) (h' : Undisturbed r₂ r₃) : Undisturbed r₁ r₃ :=
  ⟨h'.1.trans h.1, h.2.trans h'.2⟩

/-- Nothing of it has changed. -/
theorem of_eq {r r' : Account} (h : stake r' = stake r) : Undisturbed r r' :=
  ⟨congrArg Prod.fst h, (congrArg Prod.snd h).ge⟩

end Undisturbed

namespace Paced

variable {r r' : Account}

/-- The same withdrawal. -/
theorem of_eq (hp : Paced r) (h : (stake r').1 = (stake r).1) : Paced r' := by
  have hrate : r'.vestingWithdrawRate = r.vestingWithdrawRate := congrArg (fun p => p.1) h
  have hto : r'.toWithdraw = r.toWithdraw := congrArg (fun p => p.2.2.1) h
  have hout : r'.withdrawn = r.withdrawn := congrArg (fun p => p.2.2.2) h
  refine ⟨?_, ?_, ?_, ?_⟩
  · exact hrate ▸ hp.rate_nonneg
  · exact hout ▸ hp.withdrawn_nonneg
  · rw [hout, hto]
    exact hp.withdrawn_le
  · rw [hrate, hout]
    exact hp.dvd

/-- Nothing is planned, or it has just been planned. -/
theorem begun (hrate : 0 ≤ r.vestingWithdrawRate) (hto : 0 ≤ r.toWithdraw) (hout : r.withdrawn = 0) : Paced r :=
  ⟨hrate, hout.ge, hout ▸ hto, fun _ => hout ▸ dvd_zero _⟩

/-- **What is left** when it is less than an instalment. -/
theorem rest_eq (h : Paced r) (hlt : r.toWithdraw - r.withdrawn < r.vestingWithdrawRate) :
    r.toWithdraw.tmod r.vestingWithdrawRate = r.toWithdraw - r.withdrawn := by
  have hle := h.withdrawn_le
  have hnonneg := h.withdrawn_nonneg
  obtain ⟨k, hk⟩ := h.dvd (by omega)
  have hto : r.toWithdraw = (r.toWithdraw - r.withdrawn) + r.vestingWithdrawRate * k := by omega
  rw [Int.tmod_eq_emod_of_nonneg (by omega)]
  calc r.toWithdraw % r.vestingWithdrawRate
      = ((r.toWithdraw - r.withdrawn) + r.vestingWithdrawRate * k) % r.vestingWithdrawRate := by rw [← hto]
    _ = (r.toWithdraw - r.withdrawn) % r.vestingWithdrawRate := Int.add_mul_emod_self_left ..
    _ = r.toWithdraw - r.withdrawn := Int.emod_eq_of_lt (by omega) hlt

/-- **What leaves in a turn** of an account that has the shares it withdraws: an instalment, or what is left. -/
theorem amount_eq {w : Int} (h : Paced r) (hw : withdrawalAmount r = .ok w)
    (hshares : r.toWithdraw - r.withdrawn ≤ r.vestingShares) :
    w = min r.vestingWithdrawRate (r.toWithdraw - r.withdrawn) := by
  have hle := h.withdrawn_le
  have hrate := h.rate_nonneg
  unfold withdrawalAmount at hw
  by_cases hlt : r.toWithdraw - r.withdrawn < r.vestingWithdrawRate
  · rw [if_pos hlt] at hw
    simp only [bind_eq_ok, require_eq_ok, pure_eq_ok] at hw
    obtain ⟨-, -, rfl⟩ := hw
    rw [h.rest_eq hlt]
    omega
  · rw [if_neg hlt, pure_eq_ok] at hw
    omega

/-- **A turn keeps the pace.** -/
theorem settle {w c : Int} (h : Paced r) (hs : (stake r').1 = (stake r).1)
    (hw : w = min r.vestingWithdrawRate (r.toWithdraw - r.withdrawn)) : Paced (settleWithdrawal w c r') := by
  have hp := h.of_eq hs
  have hrate : r'.vestingWithdrawRate = r.vestingWithdrawRate := congrArg (fun p => p.1) hs
  have hto : r'.toWithdraw = r.toWithdraw := congrArg (fun p => p.2.2.1) hs
  have hout : r'.withdrawn = r.withdrawn := congrArg (fun p => p.2.2.2) hs
  have hnonneg := hp.rate_nonneg
  have hstart := hp.withdrawn_nonneg
  have hle := hp.withdrawn_le
  unfold settleWithdrawal
  dsimp only
  split
  · refine ⟨le_rfl, ?_, ?_, fun hpos => absurd hpos (lt_irrefl _)⟩
    · show 0 ≤ r'.withdrawn + w
      omega
    · show r'.withdrawn + w ≤ r'.toWithdraw
      omega
  · next hgoes =>
      refine ⟨hnonneg, ?_, ?_, fun hpos => ?_⟩
      · show 0 ≤ r'.withdrawn + w
        omega
      · show r'.withdrawn + w ≤ r'.toWithdraw
        omega
      · -- a turn that is not the last one takes a whole instalment
        have hfull : w = r'.vestingWithdrawRate := by
          have hmore : ¬ r'.toWithdraw ≤ r'.withdrawn + w := fun hend => hgoes (.inl hend)
          omega
        show r'.vestingWithdrawRate ∣ r'.withdrawn + w
        rw [hfull]
        exact dvd_add (hp.dvd hpos) dvd_rfl

end Paced

namespace Plain

theorem account {a : AccountName} (h : Plain T s₀ s) (ha : a ∈ s₀.accounts.keys) : AccountPlain T s₀ s a := h.1 a ha

theorem committee_same (h : Plain T s₀ s) (hT : ¬ T .committee) :
    (s.committeeRequests = s₀.committeeRequests ∧ s.committeeVotes = s₀.committeeVotes ∧
      s.committeeRequestCount = s₀.committeeRequestCount) ∧ s₀.committeeFund ≤ s.committeeFund := h.2.2.1 hT

theorem awards_same (h : Plain T s₀ s) (hT : ¬ T .awards) :
    (s.totalRewardShares = s₀.totalRewardShares ∧ s.awardExpires = s₀.awardExpires) ∧
      s₀.totalRewardFund ≤ s.totalRewardFund := h.2.2.2.1 hT

theorem hardfork_le (h : Plain T s₀ s) : s₀.hardfork ≤ s.hardfork := h.2.2.2.2.1

theorem fresh (h : Plain T s₀ s) :
    ∀ a ∈ s.accounts.keys, a ∉ s₀.accounts.keys → ¬ T (.plan a) → Paced (s.accounts.row a) := h.2.2.2.2.2.1

theorem lends (h : Plain T s₀ s) (hl : s₀.Lends) : s.Lends := h.2.2.2.2.2.2 hl

/-- **The pace of every account** whose withdrawal is not touched, new or old. -/
theorem paced (h : Plain T s₀ s) (hp : ∀ a ∈ s₀.accounts.keys, Paced (s₀.accounts.row a)) :
    ∀ a ∈ s.accounts.keys, ¬ T (.plan a) → Paced (s.accounts.row a) := by
  intro a ha hT
  by_cases hold : a ∈ s₀.accounts.keys
  · exact (hp a hold).of_eq ((h.account hold).2.1 hT).1
  · exact h.fresh a ha hold hT

theorem refl (s : Ledger) : Plain T s s :=
  ⟨fun _ ha => ⟨ha, fun _ => .refl _, fun _ => ⟨rfl, id⟩⟩, fun _ => ⟨rfl, rfl⟩, fun _ => ⟨⟨rfl, rfl, rfl⟩, le_rfl⟩,
    fun _ => ⟨⟨rfl, rfl⟩, le_rfl⟩, le_rfl, fun _ ha hnew => absurd ha hnew, id⟩

theorem trans {s₁ : Ledger} (h : Plain T s₀ s₁) (h' : Plain T s₁ s) : Plain T s₀ s := by
  refine ⟨?_, ?_, ?_, ?_, h.hardfork_le.trans h'.hardfork_le, ?_, fun hl => h'.lends (h.lends hl)⟩
  · intro a ha
    obtain ⟨ha₁, hp, ht⟩ := h.account ha
    obtain ⟨ha₂, hp', ht'⟩ := h'.account ha₁
    refine ⟨ha₂, fun hT => (hp hT).trans (hp' hT), fun hT => ?_⟩
    exact ⟨(ht' hT).1.trans (ht hT).1, fun hr => (ht' hT).2 ((ht hT).2 hr)⟩
  · intro hT
    obtain ⟨h₁, h₂⟩ := h.2.1 hT
    obtain ⟨h₁', h₂'⟩ := h'.2.1 hT
    exact ⟨h₁'.trans h₁, h₂'.trans h₂⟩
  · intro hT
    obtain ⟨⟨h₁, h₂, h₃⟩, hf⟩ := h.committee_same hT
    obtain ⟨⟨h₁', h₂', h₃'⟩, hf'⟩ := h'.committee_same hT
    exact ⟨⟨h₁'.trans h₁, h₂'.trans h₂, h₃'.trans h₃⟩, hf.trans hf'⟩
  · intro hT
    obtain ⟨⟨h₁, h₂⟩, hf⟩ := h.awards_same hT
    obtain ⟨⟨h₁', h₂'⟩, hf'⟩ := h'.awards_same hT
    exact ⟨⟨h₁'.trans h₁, h₂'.trans h₂⟩, hf.trans hf'⟩
  · intro a ha hnew hT
    by_cases ha₁ : a ∈ s₁.accounts.keys
    · exact (h.fresh a ha₁ hnew hT).of_eq ((h'.account ha₁).2.1 hT).1
    · exact h'.fresh a ha ha₁ hT

/-- Touching less is touching more. -/
theorem mono {T' : Matter → Prop} (h : Plain T s₀ s) (hT : ∀ m, T m → T' m) : Plain T' s₀ s := by
  refine ⟨?_, fun hn => h.2.1 (mt (hT _) hn), fun hn => h.committee_same (mt (hT _) hn),
    fun hn => h.awards_same (mt (hT _) hn), h.hardfork_le, fun a ha hnew hn => h.fresh a ha hnew (mt (hT _) hn), h.lends⟩
  intro a ha
  obtain ⟨hmem, hp, ht⟩ := h.account ha
  exact ⟨hmem, fun hn => hp (mt (hT _) hn), fun hn => ht (mt (hT _) hn)⟩

section Frames

variable {name : AccountName} {f : Account → Account}

/-- A change of an account. -/
theorem modify_of (h : Plain T s₀ s) (hs : ¬ T (.plan name) → ∀ r, Undisturbed r (f r))
    (hd : ¬ T (.title name) → ∀ r, deed (f r) = deed r) : Plain T s₀ (s.modifyAccount name f) := by
  have hrow : ∀ a, (s.modifyAccount name f).accounts.row a = if a = name then f (s.accounts.row name) else s.accounts.row a :=
    fun _ => Table.modify_row
  refine ⟨?_, h.2.1, h.2.2.1, h.2.2.2.1, h.hardfork_le, ?_, h.lends⟩
  rotate_left
  · intro a ha hnew hT
    have hold := h.fresh a ha hnew hT
    rw [hrow]
    by_cases hn : a = name
    · subst hn
      rw [if_pos rfl]
      exact hold.of_eq (hs hT _).1
    · rw [if_neg hn]
      exact hold
  intro a ha
  obtain ⟨hmem, hp, ht⟩ := h.account ha
  unfold AccountPlain title
  rw [hrow]
  by_cases hn : a = name
  · subst hn
    rw [if_pos rfl]
    refine ⟨hmem, fun hT => (hp hT).trans (hs hT _), fun hT => ⟨?_, (ht hT).2⟩⟩
    rw [hd hT]
    exact (ht hT).1
  · rw [if_neg hn]
    exact ⟨hmem, hp, ht⟩

/-- A change that neither the withdrawal nor the title of the account has to do with. -/
theorem modify (h : Plain T s₀ s) (hf : ∀ r, (stake (f r), deed (f r)) = (stake r, deed r)) :
    Plain T s₀ (s.modifyAccount name f) :=
  h.modify_of (fun _ r => .of_eq (congrArg Prod.fst (hf r))) (fun _ r => congrArg Prod.snd (hf r))

/-- A change of an account whose withdrawal is touched. -/
theorem replan (h : Plain T s₀ s) (hT : T (.plan name)) (hd : ∀ r, deed (f r) = deed r) :
    Plain T s₀ (s.modifyAccount name f) := h.modify_of (fun hn => absurd hT hn) fun _ => hd

/-- A change of an account whose title is touched. -/
theorem retitle (h : Plain T s₀ s) (hT : T (.title name)) (hs : ∀ r, stake (f r) = stake r) :
    Plain T s₀ (s.modifyAccount name f) := h.modify_of (fun _ r => .of_eq (hs r)) fun hn => absurd hT hn

/-- The authority of an account whose title is touched. -/
theorem reauthorise (h : Plain T s₀ s) (hT : T (.title name)) {g : AccountAuthority → AccountAuthority} :
    Plain T s₀ { s with authorities := s.authorities.modify name g } := by
  refine ⟨?_, h.2⟩
  intro a ha
  obtain ⟨hmem, hp, ht⟩ := h.account ha
  refine ⟨hmem, hp, fun hn => ⟨?_, (ht hn).2⟩⟩
  have hne : a ≠ name := fun he => hn (he ▸ hT)
  rw [← (ht hn).1]
  show Title.mk ((s.authorities.modify name g).row a) (deed (s.accounts.row a)) = _
  rw [Table.modify_row_of_ne hne]
  rfl

theorem adjustBalance (h : Plain T s₀ s) {x : Int} : Plain T s₀ (s.adjustBalance name x) := h.modify fun _ => rfl

/-- Shares come to an account. -/
theorem gain (h : Plain T s₀ s) {n : Int} (hn : 0 ≤ n) :
    Plain T s₀ (s.modifyAccount name (fun r => { r with vestingShares := r.vestingShares + n })) :=
  h.modify_of (fun _ _ => ⟨rfl, Int.le_add_of_nonneg_right hn⟩) fun _ _ => rfl

/-- The committee fund grows. -/
theorem feed (h : Plain T s₀ s) {x : Int} (hx : 0 ≤ x) : Plain T s₀ (s.adjustCommitteeFund x) := by
  refine ⟨h.1, h.2.1, fun hT => ?_, h.2.2.2⟩
  obtain ⟨hsame, hle⟩ := h.committee_same hT
  exact ⟨hsame, hle.trans (Int.le_add_of_nonneg_right hx)⟩

/-- The matters of the subscriptions. -/
theorem subscriptions (h : Plain T s₀ s) (hT : T .subscriptions) {x : Table AccountName PaidSubscription}
    {y : Table (AccountName × AccountName) PaidSubscribe} :
    Plain T s₀ { s with paidSubscriptions := x, paidSubscribes := y } :=
  ⟨h.1, fun hn => absurd hT hn, h.2.2.1, h.2.2.2⟩

/-- The matters of the committee. -/
theorem committee (h : Plain T s₀ s) (hT : T .committee) {x : Table Nat CommitteeRequest}
    {y : Table (Nat × AccountName) Int} {n : Nat} :
    Plain T s₀ { s with committeeRequests := x, committeeVotes := y, committeeRequestCount := n } :=
  ⟨h.1, h.2.1, fun hn => absurd hT hn, h.2.2.2⟩

theorem committeeFund (h : Plain T s₀ s) (hT : T .committee) {x : Int} : Plain T s₀ (s.adjustCommitteeFund x) :=
  ⟨h.1, h.2.1, fun hn => absurd hT hn, h.2.2.2⟩

/-- The matters of the reward shares. -/
theorem awards (h : Plain T s₀ s) (hT : T .awards) {f : Int} {n : Nat} {l : List (Nat × Nat)} :
    Plain T s₀ { s with totalRewardFund := f, totalRewardShares := n, awardExpires := l } :=
  ⟨h.1, h.2.1, h.2.2.1, fun hn => absurd hT hn, h.hardfork_le, h.fresh, h.lends⟩

/-- Delegations that are not below zero. -/
theorem delegate (h : Plain T s₀ s) {y : Table (AccountName × AccountName) Delegation}
    (hy : s.Lends → ∀ k ∈ y.keys, 0 ≤ (y.row k).vestingShares) : Plain T s₀ { s with delegations := y } :=
  ⟨h.1, h.2.1, h.2.2.1, h.2.2.2.1, h.hardfork_le, h.fresh, fun hl => hy (h.lends hl)⟩

end Frames

end Plain

theorem createAccount_plain {name : AccountName} (h : Plain T s₀ s) {r : Account} {auth : AccountAuthority}
    (hr : Paced r) : Returns (Plain T s₀) (s.createAccount name r auth) := by
  unfold createAccount
  refine .ite (fun _ => .error _) (fun hnew => .ok ?_)
  refine ⟨?_, h.2.1, h.2.2.1, h.2.2.2.1, h.hardfork_le, ?_, h.lends⟩
  rotate_left
  · intro a ha hfresh hT
    show Paced ((s.accounts.insert name r).row a)
    rw [Table.insert_row hnew]
    by_cases hn : a = name
    · rw [if_pos hn]
      exact hr
    · rw [if_neg hn]
      exact h.fresh a (((Table.mem_insert_keys hnew).mp ha).resolve_right hn) hfresh hT
  intro a ha
  obtain ⟨hmem, hp, ht⟩ := h.account ha
  -- an account that is there already is another one
  have hne : a ≠ name := fun he => hnew (he ▸ hmem)
  have hrow : (s.accounts.insert name r).row a = s.accounts.row a := Table.insert_row_of_ne hne
  refine ⟨(Table.mem_insert_keys hnew).mpr (.inl hmem), fun hT => ?_, fun hT => ⟨?_, (ht hT).2⟩⟩
  · show Undisturbed _ ((s.accounts.insert name r).row a)
    rw [hrow]
    exact hp hT
  · rw [← (ht hT).1]
    show Title.mk ((s.authorities.insert name auth).row a) (deed ((s.accounts.insert name r).row a)) = _
    rw [hrow, Table.insert_row_of_ne hne]
    rfl

/-! ## Votes and shares -/

section Shares

variable {name : AccountName} {x : Int}

theorem adjustValidatorVote_plain (h : Plain T s₀ s) : Returns (Plain T s₀) (adjustValidatorVote x s name) := by
  unfold adjustValidatorVote
  exact .after fun _ _ => .after fun _ _ => .pure h

theorem adjustEach_plain (h : Plain T s₀ s) : Returns (Plain T s₀) (s.adjustEach name x) :=
  .foldlM (fun _ _ hs => adjustValidatorVote_plain hs) h

theorem adjustValidatorVotes_plain (h : Plain T s₀ s) : Returns (Plain T s₀) (s.adjustValidatorVotes name x) := by
  unfold adjustValidatorVotes
  refine .after fun _ _ => .ite (fun _ => .ite (fun _ => ?_) (fun _ => .pure h)) (fun _ => adjustEach_plain h)
  exact adjustEach_plain (h.modify fun _ => rfl)

theorem adjustProxiedFrom_plain {delta : Nat → Int} {left : Nat} (h : Plain T s₀ s) :
    Returns (Plain T s₀) (adjustProxiedFrom delta left name s) := by
  induction left generalizing name s with
  | zero =>
      unfold adjustProxiedFrom
      exact .after fun _ _ => .ite (fun _ => .pure h) (fun _ => adjustValidatorVotes_plain h)
  | succ left ih =>
      unfold adjustProxiedFrom
      refine .after fun _ _ => .ite (fun _ => .after fun _ _ => ?_) (fun _ => adjustValidatorVotes_plain h)
      exact ih (h.modify fun _ => rfl)

theorem adjustProxiedBy_plain {left : Nat} (h : Plain T s₀ s) : Returns (Plain T s₀) (adjustProxiedBy x left name s) := by
  induction left generalizing name s with
  | zero =>
      unfold adjustProxiedBy
      exact .after fun _ _ => .ite (fun _ => .pure h) (fun _ => adjustValidatorVotes_plain h)
  | succ left ih =>
      unfold adjustProxiedBy
      refine .after fun _ _ => .ite (fun _ => .after fun _ _ => ?_) (fun _ => adjustValidatorVotes_plain h)
      exact ih (h.modify fun _ => rfl)

theorem Plain.recalcEnergy (h : Plain T s₀ s) : Plain T s₀ (s.sharesSenderRecalcEnergy name x) := by
  refine h.modify fun r => ?_
  by_cases hpos : 0 < r.effectiveVestingShares
  · rw [if_pos hpos]
    rfl
  · rw [if_neg hpos]

theorem mulDiv_nonneg {n p q r : Int} (h : mulDiv n p q = .ok r) : 0 ≤ r := by
  obtain ⟨hq, hle, rfl⟩ := mulDiv_eq_ok.mp h
  exact Int.ediv_nonneg hle hq.le

theorem createVesting_plain (h : Plain T s₀ s) : Returns (Plain T s₀) (s.createVesting name x) := by
  unfold createVesting
  refine .after fun y hy => .after fun _ _ => adjustProxiedBy_plain ?_
  exact h.gain (mulDiv_nonneg hy)

theorem transferToVesting_plain {to_ : AccountName} {amount : Nat} (h : Plain T s₀ s) :
    Returns (Plain T s₀) (s.transferToVesting name to_ amount) := by
  unfold transferToVesting
  refine .after fun _ _ => .after fun _ _ => .after fun _ _ => .after fun _ _ => ?_
  exact createVesting_plain h.adjustBalance

theorem withdrawVesting_plain {shares : Nat} (h : Plain T s₀ s) (hT : T (.plan name)) :
    Returns (Plain T s₀) (s.withdrawVesting name shares) := by
  unfold withdrawVesting
  refine .after fun _ _ => .after fun _ _ => .after fun _ _ => .ite (fun _ => .pure (h.replan hT fun _ => rfl)) (fun _ => ?_)
  exact .after fun _ _ => .pure (h.replan hT fun _ => rfl)

theorem newWithdrawRate_nonneg {r : Account} {shares : Nat} (h : 0 ≤ r.availableVestingShares false) :
    0 ≤ s.newWithdrawRate r shares := by
  have hleast : ∀ x : Int, 0 ≤ x → 0 ≤ if x = 0 then 1 else x := by
    intro x hx
    split
    · decide
    · exact hx
  have hintervals : 0 ≤ if s.hasHardfork 9 then (s.medianProps.withdrawIntervals : Int)
      else (Config.vestingWithdrawIntervals : Int) := by
    split
    · exact Int.natCast_nonneg _
    · exact Int.natCast_nonneg _
  unfold newWithdrawRate
  refine hleast _ ?_
  split
  · exact Int.tdiv_nonneg h hintervals
  · exact Int.tdiv_nonneg (Int.natCast_nonneg shares) hintervals

/-- A withdrawal begins at its pace. -/
theorem withdrawVesting_paced {shares : Nat} (h : s.withdrawVesting name shares = .ok s') :
    Paced (s'.accounts.row name) := by
  simp only [withdrawVesting, bind_eq_ok, getAccount_eq_ok, require_eq_ok] at h
  obtain ⟨r, ⟨-, rfl⟩, -, -, -, havail, h⟩ := h
  have hrow : ∀ f : Account → Account, (s.modifyAccount name f).accounts.row name = f (s.accounts.row name) :=
    fun _ => Table.modify_row_self
  by_cases hzero : shares = 0
  · rw [if_pos hzero, pure_eq_ok] at h
    rw [← h, hrow]
    exact .begun le_rfl le_rfl rfl
  · rw [if_neg hzero] at h
    simp only [bind_eq_ok, pure_eq_ok] at h
    obtain ⟨-, -, rfl⟩ := h
    rw [hrow]
    exact .begun (newWithdrawRate_nonneg ((Int.natCast_nonneg shares).trans havail)) (Int.natCast_nonneg shares) rfl

theorem setWithdrawVestingRoute_plain {o : SetWithdrawVestingRoute} (h : Plain T s₀ s) :
    Returns (Plain T s₀) (s.setWithdrawVestingRoute o) := by
  unfold setWithdrawVestingRoute
  refine .after fun _ _ => .after fun r _ => .after fun _ _ => ?_
  have hroutes : ∀ y : Table (AccountName × AccountName) Route, Plain T s₀ { s with routes := y } := fun _ => h
  -- whatever the branch, the sum of the routes is checked behind it
  have hrest : ∀ s₁, Plain T s₀ s₁ → Returns (Plain T s₀) (do
      let s₂ ← pure s₁
      require (s₂.routesWithin o.fromAccount) .routesAboveHundred
      return s₂) := fun _ h₁ => .bind (.pure h₁) fun _ h₂ => .after fun _ _ => .pure h₂
  dsimp only
  cases s.routes.find (o.fromAccount, o.toAccount) with
  | none => exact .after fun _ _ => .after fun _ _ => hrest _ ((hroutes _).modify fun _ => rfl)
  | some _ => exact .ite (fun _ => hrest _ ((hroutes _).modify fun _ => rfl)) (fun _ => hrest _ (hroutes _))

theorem delegateVestingShares_plain {delegatee : AccountName} {shares : Nat} (h : Plain T s₀ s) :
    Returns (Plain T s₀) (s.delegateVestingShares name delegatee shares) := by
  unfold delegateVestingShares
  refine .after fun _ _ => .after fun r _ => .after fun _ _ => .after fun _ _ => .after fun m _ => ?_
  have hchanged : ∀ u : Ledger, Plain T s₀ u → Plain T s₀ { u with
      delegations := u.delegations.modify (name, delegatee) (fun d => { d with vestingShares := shares }) } := by
    intro u hu
    refine hu.delegate fun hd => ?_
    exact Table.forall_modify (P := fun _ d => 0 ≤ Delegation.vestingShares d) hd fun _ => Int.natCast_nonneg shares
  have hended : ∀ u : Ledger, Plain T s₀ u →
      Plain T s₀ { u with delegations := u.delegations.erase (name, delegatee) } :=
    fun _ hu => hu.delegate fun hd k hk => hd k (Table.mem_erase_keys.mp hk).2
  have hreceived : ∀ (u : Ledger) (y : Int), Plain T s₀ u → Plain T s₀ (u.modifyAccount delegatee
      (fun r => { r with receivedVestingShares := r.receivedVestingShares + y })) := fun _ _ hu => hu.modify fun _ => rfl
  dsimp only
  refine .ite (fun _ => ?_) (fun _ => ?_)
  · refine .after fun _ _ => .after fun _ _ => .after fun _ _ => .bind (.pure (Q := Plain T s₀) ?_) fun s₁ h₁ => ?_
    · refine Plain.modify (Plain.recalcEnergy ?_) fun _ => rfl
      by_cases hnew : (s.delegations.find (name, delegatee)).isNone = true
      · rw [if_pos hnew]
        refine h.delegate fun hd => ?_
        exact Table.forall_insert (P := fun _ d => 0 ≤ Delegation.vestingShares d) hd (Int.natCast_nonneg shares)
      · rw [if_neg hnew]
        exact h
    · exact .ite (fun _ => .pure (hreceived _ _ h₁)) (fun _ => .ite
        (fun _ => .pure (hchanged _ (hreceived _ _ h₁))) (fun _ => .pure (hended _ (hreceived _ _ h₁))))
  · refine .after fun _ _ => .bind (.pure (Q := Plain T s₀) ?_) fun s₁ h₁ => ?_
    · exact h
    · exact .ite (fun _ => .pure (hreceived _ _ h₁)) (fun _ => .ite
        (fun _ => .pure (hchanged _ (hreceived _ _ h₁))) (fun _ => .pure (hended _ (hreceived _ _ h₁))))

theorem accountValidatorProxy_plain {proxy : AccountName} (h : Plain T s₀ s) :
    Returns (Plain T s₀) (accountValidatorProxy names s name proxy) := by
  unfold accountValidatorProxy
  refine .after fun _ _ => .after fun _ _ => .after fun _ _ => (adjustProxiedFrom_plain h).bind fun s₁ h₁ => ?_
  refine .ite (fun _ => .after fun _ _ => .after fun _ _ => ?_) (fun _ => .pure (h₁.modify fun _ => rfl))
  have hcleared : Plain T s₀ (s₁.clearValidatorVotes name) := by
    have hremoved : Plain T s₀ (s₁.removeVotes name) := h₁
    exact hremoved.modify fun _ => rfl
  exact adjustProxiedFrom_plain (hcleared.modify fun _ => rfl)

theorem Plain.setVote {validator : AccountName} {approve : Bool} (h : Plain T s₀ s) :
    Plain T s₀ (s.setVote name validator approve) := by
  have hvotes : ∀ v : Table (AccountName × AccountName) Nat, Plain T s₀ { s with votes := v } := fun _ => h
  exact (hvotes _).modify fun _ => rfl

theorem revote_plain {validator : AccountName} {approve : Bool} (h : Plain T s₀ s) :
    Returns (Plain T s₀) (s.revote name validator approve) := by
  unfold revote
  refine .after fun _ _ => .ite (fun _ => ?_) (fun _ => .ite (fun _ => ?_) (fun _ => ?_))
  · exact (adjustEach_plain h).bind fun _ h₁ => adjustEach_plain (h₁.setVote.modify fun _ => rfl)
  · exact (adjustEach_plain h).bind fun _ h₁ => adjustEach_plain h₁.setVote
  · exact (adjustValidatorVote_plain h).bind fun _ h₁ => .pure h₁.setVote

theorem accountValidatorVote_plain {validator : AccountName} {approve : Bool} (h : Plain T s₀ s) :
    Returns (Plain T s₀) (s.accountValidatorVote name validator approve) := by
  unfold accountValidatorVote
  refine .after fun _ _ => .after fun _ _ => .ite (fun _ => ?_) (fun _ => .bind (.pure h) ?_)
  · refine (adjustProxiedFrom_plain h).bind fun s₁ h₁ => .bind (.pure (h₁.modify fun _ => rfl)) fun s₂ h₂ => ?_
    refine .after fun _ _ => .ite (fun _ => .after fun _ _ => revote_plain h₂) (fun _ => ?_)
    exact .after fun _ _ => .after fun _ _ => revote_plain h₂
  · intro s₂ h₂
    refine .after fun _ _ => .ite (fun _ => .after fun _ _ => revote_plain h₂) (fun _ => ?_)
    exact .after fun _ _ => .after fun _ _ => revote_plain h₂

end Shares

/-! ## Accounts and transfers -/

section Accounts

variable {name : AccountName}

theorem accountCreate_plain {o : AccountCreate} (h : Plain T s₀ s) : Returns (Plain T s₀) (accountCreate names s o) := by
  unfold accountCreate
  refine .after fun _ _ => .after fun _ _ => .after fun _ _ => .after fun _ _ => .after fun _ _ => ?_
  refine .after fun _ _ => .after fun _ _ => .after fun _ _ => .after fun _ _ => .after fun _ _ => ?_
  refine .after fun _ _ => .after fun _ _ => (createAccount_plain (Plain.modify h.recalcEnergy ?_)
    (.begun le_rfl le_rfl rfl)).bind fun s₁ h₁ => ?_
  · exact fun _ => rfl
  have hvested : ∀ s₂, Plain T s₀ s₂ → Returns (Plain T s₀)
      (if 0 < o.fee then s₂.createVesting o.newAccountName o.fee else pure s₂) :=
    fun _ h₂ => .ite (fun _ => createVesting_plain h₂) (fun _ => .pure h₂)
  refine .ite (fun _ => ?_) (fun _ => .bind (.pure h₁) hvested)
  refine .bind ?_ hvested
  unfold createDelegation
  refine .ite (fun _ => .error _) (fun _ => .ok (h₁.delegate fun hd => ?_))
  exact Table.forall_insert (P := fun _ d => 0 ≤ Delegation.vestingShares d) hd (Int.natCast_nonneg _)

theorem Plain.updateMaster {master : Authority} (h : Plain T s₀ s) (hT : T (.title name)) :
    Plain T s₀ (s.updateMasterAuthority name master) := by
  have hauth : Plain T s₀ { s with authorities := s.authorities.modify name (fun r =>
      { r with master := master, lastMasterUpdate := s.time }) } := h.reauthorise hT
  exact hauth

theorem accountUpdate_plain {o : AccountUpdate} (h : Plain T s₀ s) (hT : T (.title o.account)) :
    Returns (Plain T s₀) (accountUpdate names s o) := by
  unfold accountUpdate
  refine .after fun _ _ => .after fun _ _ => .after fun _ _ => ?_
  have hrest : ∀ s₁ : Ledger, Plain T s₀ s₁ → Plain T s₀ { s₁.modifyAccount o.account (fun r =>
      { r with
        memoKey           := if o.memoKey ≠ 0 then o.memoKey else r.memoKey
        lastAccountUpdate := s₁.time }) with
      authorities := (s₁.modifyAccount o.account (fun r =>
        { r with
          memoKey           := if o.memoKey ≠ 0 then o.memoKey else r.memoKey
          lastAccountUpdate := s₁.time })).authorities.modify o.account (fun r =>
        { r with active := o.active.getD r.active, regular := o.regular.getD r.regular }) } := by
    intro s₁ h₁
    have hkey : Plain T s₀ (s₁.modifyAccount o.account (fun r =>
        { r with
          memoKey           := if o.memoKey ≠ 0 then o.memoKey else r.memoKey
          lastAccountUpdate := s₁.time })) := h₁.modify fun _ => rfl
    exact hkey.reauthorise hT
  cases o.master with
  | none => exact .bind (.pure h) fun s₁ h₁ => .after fun _ _ => .after fun _ _ => .pure (hrest s₁ h₁)
  | some master =>
      refine .after fun _ _ => .after fun _ _ => .bind (.pure (h.updateMaster hT)) fun s₁ h₁ => ?_
      exact .after fun _ _ => .after fun _ _ => .pure (hrest s₁ h₁)

/-- Recovery requests that only become fewer. -/
theorem Plain.dropRequests {t : Table AccountName RecoveryRequest} (h : Plain T s₀ s)
    (ht : ∀ a ∈ t.keys, a ∈ s.recoveryRequests.keys) : Plain T s₀ { s with recoveryRequests := t } := by
  refine ⟨?_, h.2⟩
  intro a ha
  obtain ⟨hmem, hp, htitle⟩ := h.account ha
  exact ⟨hmem, hp, fun hT => ⟨(htitle hT).1, fun hr hc => (htitle hT).2 hr (ht a hc)⟩⟩

theorem requestAccountRecovery_plain {top partner account : AccountName} {master : Authority} (h : Plain T s₀ s)
    (hT : T (.title account)) : Returns (Plain T s₀) (s.requestAccountRecovery top partner account master) := by
  unfold requestAccountRecovery
  refine .after fun _ _ => .after fun _ _ => ?_
  have hinsert : ∀ q : RecoveryRequest, account ∉ s.recoveryRequests.keys →
      Plain T s₀ { s with recoveryRequests := s.recoveryRequests.insert account q } := by
    intro q hnew
    refine ⟨?_, h.2⟩
    intro a ha
    obtain ⟨hmem, hp, ht⟩ := h.account ha
    refine ⟨hmem, hp, fun hn => ⟨(ht hn).1, fun hr hc => ?_⟩⟩
    rcases (Table.mem_insert_keys hnew).mp hc with hc | rfl
    · exact (ht hn).2 hr hc
    · exact hn hT
  dsimp only
  cases hfind : s.recoveryRequests.find account with
  | none => exact .after fun _ _ => .after fun _ _ => .after fun _ _ => .pure (hinsert _ (Table.find_eq_none.mp hfind))
  | some q =>
      refine .ite (fun _ => .pure ?_) (fun _ => .after fun _ _ => .after fun _ _ => .pure ?_)
      · exact h.dropRequests fun _ hc => (Table.mem_erase_keys.mp hc).2
      · exact h.dropRequests fun _ hc => hc

theorem recoverAccount_plain {account : AccountName} {newMaster recent : Authority} (h : Plain T s₀ s)
    (hT : T (.title account)) : Returns (Plain T s₀) (s.recoverAccount account newMaster recent) := by
  unfold recoverAccount
  refine .after fun _ _ => .after fun _ _ => .after fun _ _ => .after fun _ _ => .after fun _ _ => .pure ?_
  have hdropped : Plain T s₀ { s with recoveryRequests := s.recoveryRequests.erase account } :=
    h.dropRequests fun _ hc => (Table.mem_erase_keys.mp hc).2
  refine Plain.retitle (hdropped.updateMaster hT) hT fun r => ?_
  split
  · rfl
  · rfl

theorem createFromMemo_plain {m : Memo} {amount : Nat} (h : Plain T s₀ s) :
    Returns (Plain T s₀) (createFromMemo names s m amount) := by
  unfold createFromMemo
  refine .after ?_
  rintro ⟨login, valid, num⟩ -
  refine .after fun _ _ => ?_
  have hnum : Plain T s₀ { s with anonymousNum := num } := h
  exact (createAccount_plain hnum (.begun le_rfl le_rfl rfl)).bind fun _ h₁ => createVesting_plain h₁.adjustBalance

theorem transfer_plain {o : Transfer} (h : Plain T s₀ s) : Returns (Plain T s₀) (transfer names s o) := by
  unfold transfer
  refine .after fun _ _ => .after fun _ _ => .after fun _ _ => .after fun _ _ => ?_
  have hmoved : Plain T s₀ ((s.adjustBalance o.from_ (-o.amount)).adjustBalance o.to_ o.amount) :=
    h.adjustBalance.adjustBalance
  refine .ite (fun _ => .after fun _ _ => ?_) (fun _ => .pure hmoved)
  cases o.memo with
  | none => exact .pure hmoved
  | some m => exact createFromMemo_plain hmoved

theorem escrowTransfer_plain {o : EscrowTransfer} (h : Plain T s₀ s) : Returns (Plain T s₀) (s.escrowTransfer o) := by
  unfold escrowTransfer
  refine .after fun _ _ => .after fun _ _ => .after fun _ _ => .after fun _ _ => .after fun _ _ => ?_
  refine .after fun _ _ => .after fun _ _ => .pure ?_
  have hpaid : Plain T s₀ (s.adjustBalance o.from_ (-(o.tokenAmount + o.fee : Nat))) := h.adjustBalance
  exact hpaid

theorem escrowApprove_plain {o : EscrowApprove} (h : Plain T s₀ s) : Returns (Plain T s₀) (s.escrowApprove o) := by
  unfold escrowApprove
  refine .after fun _ _ => .after fun e _ => .after fun _ _ => .after fun _ _ => .after fun _ _ => ?_
  refine .after fun _ _ => .ite (fun _ => .after fun _ _ => .pure ?_) (fun _ => ?_)
  · have hback : Plain T s₀ ((s.adjustBalance o.from_ e.tokenBalance).adjustBalance o.from_ e.pendingFee) :=
      h.adjustBalance.adjustBalance
    exact hback
  · have hescrows : ∀ (u : Ledger) (y : Table (AccountName × Nat) Escrow), Plain T s₀ u →
        Plain T s₀ { u with escrows := y } := fun _ _ hu => hu
    refine .ite (fun _ => .after fun _ _ => ?_) (fun _ => ?_)
    · exact .bind (.pure h.adjustBalance) fun _ h₁ => .pure (hescrows _ _ h₁)
    · exact .bind (.pure h) fun _ h₁ => .pure (hescrows _ _ h₁)

theorem escrowDispute_plain {from_ to_ agent who : AccountName} {id : Nat} (h : Plain T s₀ s) :
    Returns (Plain T s₀) (s.escrowDispute from_ to_ agent who id) := by
  unfold escrowDispute
  refine .after fun _ _ => .after fun _ _ => .after fun _ _ => .after fun _ _ => .after fun _ _ => ?_
  exact .after fun _ _ => .after fun _ _ => .pure h

theorem escrowRelease_plain {o : EscrowRelease} (h : Plain T s₀ s) : Returns (Plain T s₀) (s.escrowRelease o) := by
  unfold escrowRelease
  refine .after fun _ _ => .after fun _ _ => .after fun _ _ => .after fun _ _ => .after fun _ _ => ?_
  refine .after fun _ _ => .after fun _ _ => .after fun _ _ => .after fun _ _ => ?_
  have hpaid : Plain T s₀ (s.adjustBalance o.receiver o.tokenAmount) := h.adjustBalance
  exact .ite (fun _ => .pure hpaid) (fun _ => .pure hpaid)

end Accounts

/-! ## Services -/

section Services

variable {name : AccountName}

theorem payFee_plain {fee : Nat} (h : Plain T s₀ s) : Returns (Plain T s₀) (s.payFee name fee) := by
  unfold payFee
  exact .after fun _ _ => .after fun _ _ => .pure (h.adjustBalance.feed (Int.natCast_nonneg _))

theorem validatorUpdate_plain (h : Plain T s₀ s) : Returns (Plain T s₀) (s.validatorUpdate name) := by
  unfold validatorUpdate
  refine .after fun _ _ => .ite (fun _ => .pure h) (fun _ => ?_)
  have hadded : ∀ (u : Ledger) (y : Table AccountName ValidatorAccount), Plain T s₀ u →
      Plain T s₀ { u with validators := y } := fun _ _ hu => hu
  refine .ite (fun _ => ?_) (fun _ => .bind (.pure h) fun _ h₁ => .pure (hadded _ _ h₁))
  exact (payFee_plain h).bind fun _ h₁ => .pure (hadded _ _ h₁)

theorem setRewardSharing_plain {rate : Nat} (h : Plain T s₀ s) : Returns (Plain T s₀) (s.setRewardSharing name rate) := by
  unfold setRewardSharing
  by_cases hrate : rate ≤ Config.hundredPercent
  · rw [dif_pos hrate]
    exact .after fun _ _ => .after fun _ _ => .after fun _ _ => .pure h
  · rw [dif_neg hrate]
    exact .error _

theorem createInvite_plain {balance : Nat} {key : PublicKey} (h : Plain T s₀ s) :
    Returns (Plain T s₀) (s.createInvite name balance key) := by
  unfold createInvite
  refine .after fun _ _ => .after fun _ _ => .after fun _ _ => .after fun _ _ => .after fun _ _ => ?_
  refine .after fun _ _ => .pure ?_
  have hpaid : Plain T s₀ (s.adjustBalance name (-balance)) := h.adjustBalance
  exact hpaid

theorem Plain.closeInvite {key : PublicKey} {status : InviteStatus} (h : Plain T s₀ s) :
    Plain T s₀ (s.closeInvite key status name) := h

theorem claimInviteBalance_plain {receiver : AccountName} {secret : Option PublicKey} (h : Plain T s₀ s) :
    Returns (Plain T s₀) (s.claimInviteBalance name receiver secret) := by
  unfold claimInviteBalance
  refine .after fun _ _ => .after fun _ _ => .after ?_
  rintro ⟨key, i⟩ -
  exact .pure h.adjustBalance.closeInvite

theorem inviteRegistration_plain {new : AccountName} {secret : Option PublicKey} {key : PublicKey} (h : Plain T s₀ s) :
    Returns (Plain T s₀) (inviteRegistration names s name new secret key) := by
  unfold inviteRegistration
  refine .after fun _ _ => .after fun _ _ => .after ?_
  rintro ⟨invite, i⟩ -
  exact (createAccount_plain h (.begun le_rfl le_rfl rfl)).bind fun _ h₁ => (createVesting_plain h₁).bind fun _ h₂ => .pure h₂.closeInvite

theorem useInviteBalance_plain {receiver : AccountName} {secret : Option PublicKey} (h : Plain T s₀ s) :
    Returns (Plain T s₀) (s.useInviteBalance name receiver secret) := by
  unfold useInviteBalance
  refine .after fun _ _ => .after fun _ _ => .after fun _ _ => .after ?_
  rintro ⟨key, i⟩ -
  exact (createVesting_plain h).bind fun _ h₁ => .pure h₁.closeInvite

theorem setPaidSubscription_plain {levels amount period : Nat} (h : Plain T s₀ s) (hT : T .subscriptions) :
    Returns (Plain T s₀) (s.setPaidSubscription name levels amount period) := by
  unfold setPaidSubscription
  refine .after fun _ _ => .after fun _ _ => .after fun _ _ => ?_
  dsimp only
  cases s.paidSubscriptions.find name with
  | some _ => exact .pure (h.subscriptions hT)
  | none =>
      refine .ite (fun _ => ?_) (fun _ => .bind (.pure h) fun _ h₁ => .pure (h₁.subscriptions hT))
      exact (payFee_plain h).bind fun _ h₁ => .pure (h₁.subscriptions hT)

theorem paySubscription_plain {account : AccountName} {cost : Int} (h : Plain T s₀ s) :
    Returns (Plain T s₀) (s.paySubscription name account cost) := by
  unfold paySubscription
  exact .after fun _ _ => .after fun _ _ => .after fun _ _ => .pure h.adjustBalance.adjustBalance

theorem newSubscription_plain {o : PaidSubscribeOp} (h : Plain T s₀ s) (hT : T .subscriptions) :
    Returns (Plain T s₀) (s.newSubscription o) := by
  unfold newSubscription
  exact (paySubscription_plain h).bind fun s₁ h₁ => .pure (h₁.subscriptions hT)

theorem changeSubscription_plain {o : PaidSubscribeOp} {old : PaidSubscribe} (h : Plain T s₀ s)
    (hT : T .subscriptions) : Returns (Plain T s₀) (s.changeSubscription o old) := by
  unfold changeSubscription
  refine .after fun _ _ => .ite (fun _ => .pure (h.subscriptions hT)) (fun _ => ?_)
  exact (paySubscription_plain h).bind fun s₁ h₁ => .pure (h₁.subscriptions hT)

theorem paidSubscribe_plain {o : PaidSubscribeOp} (h : Plain T s₀ s) (hT : T .subscriptions) :
    Returns (Plain T s₀) (s.paidSubscribe o) := by
  unfold paidSubscribe
  refine .after fun _ _ => .after fun _ _ => .after fun _ _ => .after fun _ _ => .after fun _ _ => ?_
  cases s.paidSubscriptions.find o.account with
  | none => exact .error _
  | some p =>
      refine .after fun _ _ => .after fun _ _ => .after fun _ _ => .after fun _ _ => ?_
      dsimp only
      cases s.paidSubscribes.find (o.subscriber, o.account) with
      | none => exact newSubscription_plain h hT
      | some old =>
          refine .ite (fun _ => .ite (fun _ => .after fun _ _ => .pure (h.subscriptions hT))
            (fun _ => changeSubscription_plain h hT)) (fun _ => ?_)
          exact newSubscription_plain (h.subscriptions hT) hT

theorem committeeWorkerCreateRequest_plain {o : CommitteeCreateRequest} (h : Plain T s₀ s) (hT : T .committee) :
    Returns (Plain T s₀) (s.committeeWorkerCreateRequest o) := by
  unfold committeeWorkerCreateRequest
  refine .after fun _ _ => .after fun _ _ => .after fun _ _ => .after fun _ _ => .after fun _ _ => ?_
  refine .after fun _ _ => .after fun _ _ => ?_
  exact .ite (fun _ => payFee_plain (h.committee hT)) (fun _ => .pure (h.committee hT))

theorem committeeWorkerCancelRequest_plain {id : Nat} (h : Plain T s₀ s) (hT : T .committee) :
    Returns (Plain T s₀) (s.committeeWorkerCancelRequest name id) := by
  unfold committeeWorkerCancelRequest
  refine .after fun _ _ => ?_
  cases s.committeeRequests.find id with
  | none => exact .error _
  | some r => exact .after fun _ _ => .after fun _ _ => .pure (h.committee hT)

theorem committeeVoteRequest_plain {id : Nat} {percent : Int} (h : Plain T s₀ s) (hT : T .committee) :
    Returns (Plain T s₀) (s.committeeVoteRequest name id percent) := by
  unfold committeeVoteRequest
  refine .after fun _ _ => .after fun _ _ => ?_
  cases s.committeeRequests.find id with
  | none => exact .error _
  | some r =>
      refine .after fun _ _ => ?_
      cases s.committeeVotes.find (id, name) with
      | none => exact .pure (h.committee hT)
      | some old => exact .after fun _ _ => .pure (h.committee hT)

theorem payBeneficiary_plain {tokens : Int} {p : Ledger × Int} {b : Beneficiary} (h : Plain T s₀ p.1) :
    Returns (fun q : Ledger × Int => Plain T s₀ q.1) (payBeneficiary tokens p b) := by
  unfold payBeneficiary
  exact (createVesting_plain h).bind fun _ h₁ => .pure (h₁.modify fun _ => rfl)

theorem payAward_plain {bs : List Beneficiary} {tokens own : Int} (h : Plain T s₀ s) :
    Returns (Plain T s₀) (s.payAward name bs tokens own) := by
  unfold payAward
  refine .bind (.foldlM (fun _ _ => payBeneficiary_plain) h) ?_
  rintro ⟨s₁, paid⟩ h₁
  refine .ite (fun _ => ?_) (fun _ => .pure h₁)
  exact (createVesting_plain h₁).bind fun _ h₂ => .pure (h₂.modify fun _ => rfl)

theorem claimRshareAward_plain {rshares : Int} (h : Plain T s₀ s) (hT : T .awards) :
    Returns (fun q : Int × Ledger => Plain T s₀ q.2) (s.claimRshareAward rshares) := by
  unfold claimRshareAward
  exact .after fun _ _ => .pure (h.awards hT)

/-- **What an award does**: it claims its part of the reward fund, if it has any, and pays it out. -/
def Claims (s s' : Ledger) : Prop :=
  Plain nothing s s' ∨ ∃ rshares payout s₁, s.claimRshareAward rshares = .ok (payout, s₁) ∧ Plain nothing s₁ s'

theorem Claims.plain (hc : Claims s s') (h : Plain T s₀ s) (hT : T .awards) : Plain T s₀ s' := by
  rcases hc with hp | ⟨rshares, payout, s₁, hclaim, hp⟩
  · exact h.trans (hp.mono fun _ => False.elim)
  · exact (claimRshareAward_plain h hT _ hclaim).trans (hp.mono fun _ => False.elim)

theorem award_claims {producing : Bool} {o : Award} : Returns (Claims s) (award producing s o) := by
  unfold award
  refine .after fun _ _ => .after fun _ _ => .after fun _ _ => .after fun _ _ => .after fun _ _ => ?_
  refine .after fun rshares _ => ?_
  have hpaid : ∀ (s₁ : Ledger) (tokens energy : Int), Returns (Plain nothing s₁)
      (if 0 < tokens then do
        requireIf producing (o.beneficiaries.length ≤ Config.maxCommentBeneficiaries) .validation
        (s₁.spendEnergy o.initiator energy).payAward o.receiver o.beneficiaries tokens tokens
      else pure (s₁.spendEnergy o.initiator energy)) := by
    intro s₁ tokens energy
    have hspent : Plain nothing s₁ (s₁.spendEnergy o.initiator energy) := (Plain.refl s₁).modify fun _ => rfl
    exact .ite (fun _ => .after fun _ _ => payAward_plain hspent) (fun _ => .pure hspent)
  refine .ite (fun _ s' hs' => .inl (hpaid s 0 _ s' hs')) (fun _ => .after ?_)
  rintro ⟨tokens, s₁⟩ hclaim s' hs'
  exact .inr ⟨_, _, s₁, hclaim, hpaid s₁ tokens _ s' hs'⟩

theorem fixedAward_claims {producing : Bool} {o : FixedAward} : Returns (Claims s) (fixedAward producing s o) := by
  unfold fixedAward
  refine .after fun _ _ => .after fun _ _ => .after fun _ _ => .after fun _ _ => .after fun _ _ => ?_
  refine .after fun _ _ => .after fun _ _ => .after fun _ _ => .after fun _ _ => .after fun _ _ => ?_
  refine .after fun _ _ => .after fun rshares _ => ?_
  have hclaim : ∀ (counted energy : Int), Returns (Claims s) (do
      require (counted ≠ 0) .zeroRshares
      let r ← s.claimRshareAward counted
      require (0 < r.1) .zeroReward
      let s₁ := r.2.spendEnergy o.initiator energy
      requireIf producing (o.beneficiaries.length ≤ Config.maxCommentBeneficiaries) .validation
      let donation := r.1 - o.rewardAmount
      let s₁ ← s₁.payAward o.receiver o.beneficiaries r.1 o.rewardAmount
      if 0 < donation then return s₁.adjustCommitteeFund donation else return s₁) := by
    intro counted energy
    refine .after fun _ _ => .after fun r hclaim => .after fun _ _ => .after fun _ _ => ?_
    have hspent : Plain nothing r.2 (r.2.spendEnergy o.initiator energy) := (Plain.refl r.2).modify fun _ => rfl
    have hpaid : Returns (Plain nothing r.2) (do
        let s₁ ← (r.2.spendEnergy o.initiator energy).payAward o.receiver o.beneficiaries r.1 o.rewardAmount
        if 0 < r.1 - o.rewardAmount then return s₁.adjustCommitteeFund (r.1 - o.rewardAmount) else return s₁) :=
      (payAward_plain hspent).bind fun _ h₂ => .ite (fun hd => .pure (h₂.feed hd.le)) (fun _ => .pure h₂)
    exact fun s' hs' => .inr ⟨counted, r.1, r.2, hclaim, hpaid s' hs'⟩
  refine .ite (fun _ => .after fun _ _ => .after fun _ _ => hclaim _ _) (fun _ => ?_)
  exact .after fun _ _ => .after fun _ _ => hclaim _ _

theorem award_plain {producing : Bool} {o : Award} (h : Plain T s₀ s) (hT : T .awards) :
    Returns (Plain T s₀) (award producing s o) :=
  fun s' hs' => (award_claims s' hs').plain h hT

theorem fixedAward_plain {producing : Bool} {o : FixedAward} (h : Plain T s₀ s) (hT : T .awards) :
    Returns (Plain T s₀) (fixedAward producing s o) :=
  fun s' hs' => (fixedAward_claims s' hs').plain h hT

end Services

/-! ## Sales -/

section Sales

variable {name : AccountName}

theorem paySaleFee_plain {seller : AccountName} {fee : Nat} (h : Plain T s₀ s) :
    Returns (Plain T s₀) (s.paySaleFee name seller fee) := by
  unfold paySaleFee
  exact .ite (fun _ => payFee_plain h) (fun _ => .ok h)

theorem returnBid_plain (h : Plain T s₀ s) : Returns (Plain T s₀) (s.returnBid name) := by
  unfold returnBid
  exact .after fun _ _ => .after fun _ _ => .pure (h.modify fun _ => rfl)

theorem stake_offered {o : SetAccountPrice} {now : Nat} {dropped : Bool} {r : Account} :
    stake (offered o now dropped r) = stake r := by
  unfold offered
  split
  · cases dropped
    · rfl
    · rfl
  · rfl

theorem setAccountPrice_plain {o : SetAccountPrice} (h : Plain T s₀ s) (hT : T (.title o.account)) :
    Returns (Plain T s₀) (setAccountPrice names s o) := by
  unfold setAccountPrice
  refine .after fun _ _ => .after fun _ _ => .after fun _ _ => .ite (fun _ => ?_) (fun _ => ?_)
  · refine (paySaleFee_plain h).bind fun s₁ h₁ => .ite (fun _ => ?_) (fun _ => ?_)
    · exact (returnBid_plain h₁).bind fun _ h₂ => .pure (h₂.retitle hT fun _ => stake_offered)
    · exact .bind (.pure h₁) fun _ h₂ => .pure (h₂.retitle hT fun _ => stake_offered)
  · refine .ite (fun _ => ?_) (fun _ => .bind (.pure h) fun _ h₁ => .pure (h₁.retitle hT fun _ => rfl))
    exact (paySaleFee_plain h).bind fun _ h₁ => .pure (h₁.retitle hT fun _ => rfl)

theorem targetAccountSale_plain {o : TargetAccountSale} (h : Plain T s₀ s) (hT : T (.title o.account)) :
    Returns (Plain T s₀) (targetAccountSale names s o) := by
  unfold targetAccountSale
  refine .after fun _ _ => .after fun _ _ => .after fun _ _ => .after fun _ _ => ?_
  have hoffer : ∀ (s₂ : Ledger) (dropped : Bool), Plain T s₀ s₂ →
      Plain T s₀ (s₂.modifyAccount o.account (fun r =>
        { offered o.toSetAccountPrice s₂.time dropped r with
          targetBuyer := if o.accountOnSale then o.targetBuyer else 0 })) :=
    fun _ _ h₂ => h₂.retitle hT fun _ => stake_offered
  refine (paySaleFee_plain h).bind fun s₁ h₁ => .ite (fun _ => ?_) (fun _ => ?_)
  · exact (returnBid_plain h₁).bind fun _ h₂ => .pure (hoffer _ _ h₂)
  · exact .bind (.pure h₁) fun _ h₂ => .pure (hoffer _ _ h₂)

theorem setSubaccountPrice_plain {seller : AccountName} {price : Nat} {onSale : Bool} (h : Plain T s₀ s) :
    Returns (Plain T s₀) (setSubaccountPrice names s name seller price onSale) := by
  unfold setSubaccountPrice
  refine .after fun _ _ => .after fun _ _ => .after fun _ _ => .ite (fun _ => ?_) (fun _ => ?_)
  · exact (paySaleFee_plain h).bind fun _ h₁ => .pure (h₁.modify fun _ => rfl)
  · exact .bind (.pure h) fun _ h₁ => .pure (h₁.modify fun _ => rfl)

theorem payPrice_plain {o : BuyAccount} {seller : AccountName} {price : Nat} (h : Plain T s₀ s) :
    Returns (Plain T s₀) (s.payPrice o seller price) := by
  unfold payPrice
  refine .after fun _ _ => .after fun _ _ => .after fun _ _ => .after fun _ _ => .pure ?_
  exact h.adjustBalance.adjustBalance.adjustBalance

theorem placeBid_plain {clock : Nat} {o : BuyAccount} (h : Plain T s₀ s) (hT : T (.title o.account)) :
    Returns (Plain T s₀) (s.placeBid clock o) := by
  unfold placeBid
  have hbid : ∀ s₁, Plain T s₀ s₁ → Returns (Plain T s₀) (do
      let _ ← (s₁.modifyAccount o.account (withBid o clock)).getAccount o.buyer
      return (s₁.modifyAccount o.account (withBid o clock)).modifyAccount o.buyer (fun b =>
        { b with
          reservedBalance := b.reservedBalance + o.accountOfferPrice
          balance         := b.balance - o.accountOfferPrice })) :=
    fun _ h₁ => .after fun _ _ => .pure (Plain.modify (Plain.retitle h₁ hT fun _ => rfl) fun _ => rfl)
  refine .after fun _ _ => .after fun _ _ => .ite (fun _ => ?_) (fun _ => .bind (.pure h) hbid)
  exact (returnBid_plain h).bind hbid

theorem buyNow_plain {o : BuyAccount} (h : Plain T s₀ s) (hT : T (.title o.account)) :
    Returns (Plain T s₀) (s.buyNow o) := by
  unfold buyNow
  refine .after fun r _ => (payPrice_plain h).bind fun s₁ h₁ => (createVesting_plain h₁).bind fun s₂ h₂ => .pure ?_
  have hsold : Plain T s₀ (s₂.modifyAccount o.account (fun a =>
      { sold o.accountAuthoritiesKey o.buyer s₂.time a with
        accountOnSaleStartTime := if s₂.hasHardfork 9 then 0 else a.accountOnSaleStartTime })) :=
    h₂.retitle hT fun _ => rfl
  exact hsold.reauthorise hT

theorem buySubaccount_plain {o : BuyAccount} (h : Plain T s₀ s) : Returns (Plain T s₀) (buySubaccount names s o) := by
  unfold buySubaccount
  cases names.splitName o.account with
  | none => exact .error _
  | some p =>
      refine .after fun _ _ => .after fun _ _ => .after fun _ _ => (payPrice_plain h).bind fun _ h₁ => ?_
      exact (createAccount_plain h₁ (.begun le_rfl le_rfl rfl)).bind fun _ h₂ => createVesting_plain h₂

theorem buyAccount_plain {clock : Nat} {o : BuyAccount} (h : Plain T s₀ s) (hT : T (.title o.account)) :
    Returns (Plain T s₀) (buyAccount names clock s o) := by
  unfold buyAccount
  refine .after fun _ _ => .after fun _ _ => .after fun _ _ => .after fun _ _ => ?_
  cases s.accounts.find o.account with
  | none => exact buySubaccount_plain h
  | some r =>
      refine .after fun _ _ => .after fun _ _ => ?_
      refine .ite (fun _ => .after fun _ _ => .ite (fun _ => placeBid_plain h hT) (fun _ => ?_)) (fun _ => ?_)
      · exact .after fun _ _ => buyNow_plain h hT
      · exact .after fun _ _ => buyNow_plain h hT

theorem settleAuction_plain (h : Plain T s₀ s) (hT : T (.title name)) : Returns (Plain T s₀) (s.settleAuction name) := by
  unfold settleAuction
  refine .after fun r _ => .ite (fun _ => .ite (fun _ => .pure (h.retitle hT fun _ => rfl)) (fun _ => ?_))
    (fun _ => .pure h)
  refine .ite (fun _ => .ite (fun _ => ?_) (fun _ => ?_)) (fun _ => ?_)
  · exact (returnBid_plain h).bind fun _ h₁ => .pure (h₁.retitle hT fun _ => rfl)
  · refine .after fun _ _ => .after fun _ _ => .pure ?_
    have hspent : Plain T s₀ (s.modifyAccount r.currentBidder (fun b =>
        { b with reservedBalance := b.reservedBalance - r.currentBid })) := h.modify fun _ => rfl
    exact Plain.retitle (hspent.adjustBalance.reauthorise hT) hT fun _ => rfl
  · exact (returnBid_plain h).bind fun _ h₁ => .pure (h₁.retitle hT fun _ => rfl)

end Sales

/-! ## Operations -/

/-- **What an operation touches.** -/
def Operation.touches : Operation → Matter → Prop
  | .accountUpdate o,                  m => m = .title o.account
  | .requestAccountRecovery _ a _,     m => m = .title a
  | .recoverAccount a _ _,             m => m = .title a
  | .setAccountPrice o,                m => m = .title o.account
  | .targetAccountSale o,              m => m = .title o.account
  | .buyAccount o,                     m => m = .title o.account
  | .withdrawVesting account _,        m => m = .plan account
  | .setPaidSubscription _ _ _ _,      m => m = .subscriptions
  | .paidSubscribe _,                  m => m = .subscriptions
  | .committeeWorkerCreateRequest _,   m => m = .committee
  | .committeeWorkerCancelRequest _ _, m => m = .committee
  | .committeeVoteRequest _ _ _,       m => m = .committee
  | .award _,                          m => m = .awards
  | .fixedAward _,                     m => m = .awards
  | _,                                 _ => False

/-- **An operation leaves alone what it does not touch.** -/
theorem evaluate_plain {loc : Local} {o : Operation} (h : Plain T s₀ s) (hT : ∀ m, o.touches m → T m) :
    Returns (Plain T s₀) (evaluate names loc s o) := by
  cases o with
  | accountCreate o => exact accountCreate_plain h
  | accountUpdate o => exact accountUpdate_plain h (hT _ rfl)
  | requestAccountRecovery p account master => exact requestAccountRecovery_plain h (hT _ rfl)
  | recoverAccount account newMaster recent => exact recoverAccount_plain h (hT _ rfl)
  | transfer o => exact transfer_plain h
  | escrowTransfer o => exact escrowTransfer_plain h
  | escrowApprove o => exact escrowApprove_plain h
  | escrowDispute from_ to_ agent who id => exact escrowDispute_plain h
  | escrowRelease o => exact escrowRelease_plain h
  | transferToVesting from_ to_ amount => exact transferToVesting_plain h
  | withdrawVesting account shares => exact withdrawVesting_plain h (hT _ rfl)
  | setWithdrawVestingRoute o => exact setWithdrawVestingRoute_plain h
  | delegateVestingShares x y shares => exact delegateVestingShares_plain h
  | accountValidatorProxy account proxy => exact accountValidatorProxy_plain h
  | accountValidatorVote account v approve => exact accountValidatorVote_plain h
  | validatorUpdate owner => exact validatorUpdate_plain h
  | setRewardSharing owner rate => exact setRewardSharing_plain h
  | createInvite creator balance key => exact createInvite_plain h
  | claimInviteBalance i receiver secret => exact claimInviteBalance_plain h
  | inviteRegistration i new secret key => exact inviteRegistration_plain h
  | useInviteBalance i receiver secret => exact useInviteBalance_plain h
  | setPaidSubscription account levels amount period => exact setPaidSubscription_plain h (hT _ rfl)
  | paidSubscribe o => exact paidSubscribe_plain h (hT _ rfl)
  | committeeWorkerCreateRequest o => exact committeeWorkerCreateRequest_plain h (hT _ rfl)
  | committeeWorkerCancelRequest creator id => exact committeeWorkerCancelRequest_plain h (hT _ rfl)
  | committeeVoteRequest voter id percent => exact committeeVoteRequest_plain h (hT _ rfl)
  | award o => exact award_plain h (hT _ rfl)
  | fixedAward o => exact fixedAward_plain h (hT _ rfl)
  | setAccountPrice o => exact setAccountPrice_plain h (hT _ rfl)
  | targetAccountSale o => exact targetAccountSale_plain h (hT _ rfl)
  | setSubaccountPrice account seller price onSale => exact setSubaccountPrice_plain h
  | buyAccount o => exact buyAccount_plain h (hT _ rfl)

/-! ## Blocks -/

section Blocks

variable {name : AccountName}

theorem returnDelegation_plain {e : DelegationExpiration} (h : Plain T s₀ s) :
    Returns (Plain T s₀) (s.returnDelegation e) := by
  unfold returnDelegation
  refine .after fun _ _ => .pure ?_
  have hback : Plain T s₀ (s.modifyAccount e.delegator (fun r =>
      { r with delegatedVestingShares := r.delegatedVestingShares - e.vestingShares })) := h.modify fun _ => rfl
  split
  · exact hback.recalcEnergy
  · exact hback

theorem clearExpiredDelegations_plain (h : Plain T s₀ s) : Returns (Plain T s₀) s.clearExpiredDelegations := by
  unfold clearExpiredDelegations
  have hdue : ∀ y : List DelegationExpiration, Plain T s₀ { s with expirations := y } := fun _ => h
  exact .foldlM (fun _ _ hs => returnDelegation_plain hs) (hdue _)

theorem clearExpired_plain (h : Plain T s₀ s) (hT : T .committee) : Returns (Plain T s₀) s.clearExpired := by
  unfold clearExpired
  refine .bind (clearExpiredDelegations_plain h) fun s₁ h₁ => .pure ?_
  split
  · have hinvites : Plain T s₀ s₁.clearUsedInvites := h₁
    exact hinvites.committee hT
  · exact h₁

theorem payValidator_plain {reward : Nat} (h : Plain T s₀ s) : Returns (Plain T s₀) (s.payValidator reward) := by
  unfold payValidator
  have hpending : ∀ (u : Ledger) (y : Table AccountName ValidatorAccount), Plain T s₀ u →
      Plain T s₀ { u with validators := y } := fun _ _ hu => hu
  refine .after fun _ _ => .ite (fun _ => .ite (fun _ => ?_) (fun _ => ?_)) (fun _ => createVesting_plain h)
  · exact (createVesting_plain h).bind fun _ h₁ => .pure (hpending _ _ h₁)
  · exact .bind (.pure h) fun _ h₁ => .pure (hpending _ _ h₁)

/-- New tokens: the two funds grow. -/
theorem Plain.grow (h : Plain T s₀ s) {committee reward : Nat} {vesting supply : Int} :
    Plain T s₀ { s with
      totalVestingFund := vesting
      committeeFund    := s.committeeFund + committee
      totalRewardFund  := s.totalRewardFund + reward
      currentSupply    := supply } := by
  refine ⟨h.1, h.2.1, fun hT => ?_, fun hT => ?_, h.hardfork_le, h.fresh, h.lends⟩
  · obtain ⟨hsame, hle⟩ := h.committee_same hT
    exact ⟨hsame, hle.trans (Int.le_add_of_nonneg_right (Int.natCast_nonneg _))⟩
  · obtain ⟨hsame, hle⟩ := h.awards_same hT
    exact ⟨hsame, hle.trans (Int.le_add_of_nonneg_right (Int.natCast_nonneg _))⟩

theorem processFunds_plain (h : Plain T s₀ s) : Returns (Plain T s₀) s.processFunds := by
  unfold processFunds
  have hissued : ∀ n, Plain T s₀ (s.issue n).2 := fun _ => h.grow
  refine .ite (fun _ => payValidator_plain (hissued _)) (fun _ => .ite (fun _ => ?_) (fun _ => ?_))
  · exact .after fun _ _ => createVesting_plain (hissued _)
  · exact .after fun _ _ => createVesting_plain h.grow

theorem payStakeholder_plain {total weighted : Nat} {p : Ledger × Nat} {e : AccountName × Nat} (h : Plain T s₀ p.1) :
    Returns (fun q : Ledger × Nat => Plain T s₀ q.1) (payStakeholder total weighted p e) := by
  unfold payStakeholder
  exact .ite (fun _ => .pure h) (fun _ => (createVesting_plain h).bind fun _ h₁ => .pure h₁)

theorem distributePool_plain {epochStart : Nat} (h : Plain T s₀ s) :
    Returns (Plain T s₀) (distributePool epochStart s name) := by
  unfold distributePool
  have hpaid : ∀ (u : Ledger) (y : Table AccountName ValidatorAccount), Plain T s₀ u →
      Plain T s₀ { u with validators := y } := fun _ _ hu => hu
  refine .ite (fun _ => .pure h) (fun _ => .ite (fun _ => ?_) (fun _ => ?_))
  · exact (createVesting_plain h).bind fun _ h₁ => .pure (hpaid _ _ h₁)
  · refine .bind (.foldlM (fun _ _ => payStakeholder_plain) h) ?_
    rintro ⟨s₁, paid⟩ h₁
    refine .ite (fun _ => ?_) (fun _ => .bind (.pure h₁) fun _ h₂ => .pure (hpaid _ _ h₂))
    exact (createVesting_plain h₁).bind fun _ h₂ => .pure (hpaid _ _ h₂)

/-- The ledger the rewards are paid from: reward shares that are due have expired. -/
def readied (s : Ledger) : Ledger := if s.hasHardfork 4 then s.processInflationRecalc.expireAwardShares else s

/-- Behind the expirations the rewards touch nothing. -/
theorem processRewards_readied (h : Plain T s₀ s.readied) : Returns (Plain T s₀) s.processRewards := by
  unfold processRewards
  refine (processFunds_plain h).bind fun s₁ h₁ => .ite (fun _ => ?_) (fun _ => .pure h₁)
  unfold processValidatorEpochDistribution
  exact .ite (fun _ => .ok h₁) (fun _ => .foldlM (fun _ _ hs => distributePool_plain hs) h₁)

theorem Plain.inflationRecalc (h : Plain T s₀ s) : Plain T s₀ s.processInflationRecalc := by
  unfold processInflationRecalc
  split
  · exact h
  · exact h

theorem processRewards_plain (h : Plain T s₀ s) (hT : T .awards) : Returns (Plain T s₀) s.processRewards := by
  refine processRewards_readied ?_
  unfold readied
  split
  · exact h.inflationRecalc.awards hT
  · exact h

theorem payCurator_plain {tokens : Int} {whole : Nat} {p : Ledger × Int} {v : AccountName × Nat} (h : Plain T s₀ p.1) :
    Returns (fun q : Ledger × Int => Plain T s₀ q.1) (payCurator tokens whole p v) := by
  unfold payCurator
  refine .after fun _ _ => .ite (fun _ => ?_) (fun _ => .pure h)
  exact (createVesting_plain h).bind fun _ h₁ => .pure h₁

theorem payContent_plain {c : Content} {reward : Int} (h : Plain T s₀ s) :
    Returns (Plain T s₀) (s.payContent c reward) := by
  unfold payContent
  have hauthor : ∀ (s₁ : Ledger) (tokens : Int), Plain T s₀ s₁ → Returns (Plain T s₀) (do
      let r ← c.beneficiaries.foldlM (payBeneficiary tokens) (s₁, 0)
      let s₃ ← r.1.createVesting c.author (tokens - r.2 - (tokens - r.2).tdiv 2)
      return s₃.adjustBalance c.author ((tokens - r.2).tdiv 2)) := by
    intro s₁ tokens h₁
    refine .bind (.foldlM (fun _ _ => payBeneficiary_plain) h₁) ?_
    intro r h₂
    exact (createVesting_plain h₂).bind fun _ h₃ => .pure h₃.adjustBalance
  refine .ite (fun _ => .bind (.foldlM (fun _ _ => payCurator_plain) h) ?_) (fun _ => hauthor _ _ h)
  rintro ⟨s₁, unclaimed⟩ h₁
  exact hauthor _ _ h₁

theorem cashoutContent_plain {c : Content} (h : Plain T s₀ s) (hT : T .awards) :
    Returns (Plain T s₀) (s.cashoutContent c) := by
  unfold cashoutContent
  have hfund : ∀ n : Int, Plain T s₀ { s with totalRewardFund := n } := fun _ => h.awards hT
  refine .after fun _ _ => .ite (fun _ => .pure h) (fun _ => .after fun _ _ => .ite (fun _ => ?_) (fun _ => ?_))
  · exact (payContent_plain (hfund _)).bind fun _ h₁ => .pure (h₁.awards hT)
  · exact .bind (.pure (hfund _)) fun _ h₁ => .pure (h₁.awards hT)

theorem depositShares_plain {w : Int} {p : Ledger × Int} {r : AccountName × Route} (h : Plain T s₀ p.1) :
    Returns (fun q : Ledger × Int => Plain T s₀ q.1) (depositShares w p r) := by
  unfold depositShares
  refine .ite (fun _ => .ite (fun hpos => ?_) (fun _ => .pure h)) (fun _ => .pure h)
  exact (adjustProxiedBy_plain (h.gain hpos.le)).bind fun _ h₁ => .pure h₁

theorem depositTokens_plain {w : Int} {p : Ledger × Int} {r : AccountName × Route} (h : Plain T s₀ p.1) :
    Returns (fun q : Ledger × Int => Plain T s₀ q.1) (depositTokens w p r) := by
  unfold depositTokens
  refine .ite (fun _ => .pure h) (fun _ => .after fun tokens _ => .ite (fun _ => .pure ?_) (fun _ => .pure h))
  have hpaid : Plain T s₀ (p.1.modifyAccount r.1 (fun b => { b with balance := b.balance + tokens })) := h.modify fun _ => rfl
  exact hpaid

theorem deed_settleWithdrawal {w c : Int} {r : Account} : deed (settleWithdrawal w c r) = deed r := by
  unfold settleWithdrawal
  dsimp only
  split
  · rfl
  · rfl

/-- **An account's turn** touches its own withdrawal only. -/
theorem withdrawFrom_plain (h : Plain T s₀ s) (hT : T (.plan name)) : Returns (Plain T s₀) (s.withdrawFrom name) := by
  unfold withdrawFrom
  refine .after fun _ _ => .after fun w _ => .bind (.foldlM (fun _ _ => depositShares_plain) h) ?_
  rintro ⟨s₁, asVests⟩ h₁
  refine .bind (.foldlM (fun _ _ => depositTokens_plain) h₁) ?_
  rintro ⟨s₂, asTokens⟩ h₂
  refine .after fun c _ => ?_
  have hsettled : ∀ x : Int, Plain T s₀ ((s₂.sharesSenderRecalcEnergy name x).modifyAccount name
      (settleWithdrawal w c)) := fun _ => h₂.recalcEnergy.replan hT fun _ => deed_settleWithdrawal
  refine .ite (fun _ => adjustProxiedBy_plain ?_) (fun _ => .pure ?_)
  · exact hsettled _
  · exact hsettled _

/-- **A turn, step by step**: the account withdraws its amount, and nothing else happens to its withdrawal. -/
theorem withdrawFrom_settles (h : s.withdrawFrom name = .ok s') : name ∈ s.accounts.keys ∧
    ∃ w c r, withdrawalAmount (s.accounts.row name) = .ok w ∧ Undisturbed (s.accounts.row name) r ∧
      Undisturbed (settleWithdrawal w c r) (s'.accounts.row name) := by
  simp only [withdrawFrom, bind_eq_ok, getAccount_eq_ok] at h
  obtain ⟨r, ⟨hmem, rfl⟩, w, hw, ⟨s₁, asVests⟩, h₁, ⟨s₂, asTokens⟩, h₂, c, -, h⟩ := h
  refine ⟨hmem, w, c, ?_⟩
  have hp₁ : Plain (fun _ => False) s s₁ := Returns.foldlM (fun _ _ => depositShares_plain) (.refl s) _ h₁
  have hp₂ : Plain (fun _ => False) s s₂ := Returns.foldlM (fun _ _ => depositTokens_plain) hp₁ _ h₂
  have hp₃ : Plain (fun _ => False) s (s₂.sharesSenderRecalcEnergy name (asTokens + max (w - asTokens - asVests) 0)) :=
    hp₂.recalcEnergy
  refine ⟨_, hw, (hp₃.account hmem).2.1 id, ?_⟩
  have hp₄ : Plain (fun _ => False) (s₂.settledLedger name w (max (w - asTokens - asVests) 0) c
      (asTokens + max (w - asTokens - asVests) 0)) s' := by
    by_cases hpos : 0 < w
    · rw [if_pos hpos] at h
      exact adjustProxiedBy_plain (.refl _) _ h
    · rw [if_neg hpos, pure_eq_ok] at h
      exact h ▸ .refl _
  have hrow : (s₂.settledLedger name w (max (w - asTokens - asVests) 0) c
      (asTokens + max (w - asTokens - asVests) 0)).accounts.row name = settleWithdrawal w c
        ((s₂.sharesSenderRecalcEnergy name (asTokens + max (w - asTokens - asVests) 0)).accounts.row name) :=
    Table.modify_row_self
  rw [← hrow]
  exact (hp₄.account (hp₃.account hmem).1).2.1 id

theorem expireEscrow_plain {key : AccountName × Nat} (h : Plain T s₀ s) : Returns (Plain T s₀) (s.expireEscrow key) := by
  unfold expireEscrow
  refine .after fun _ _ => .pure ?_
  have hback : Plain T s₀ ((s.adjustBalance key.1 (s.escrows.row key).tokenBalance).adjustBalance key.1
      (s.escrows.row key).pendingFee) := h.adjustBalance.adjustBalance
  exact hback

theorem expireEscrowRatification_plain (h : Plain T s₀ s) : Returns (Plain T s₀) s.expireEscrowRatification :=
  .foldlM (fun _ _ hs => expireEscrow_plain hs) h

theorem drainAccount_plain (h : Plain T s₀ s) (hT : T (.plan name)) :
    Returns (fun q : Int × Ledger => Plain T s₀ q.2) (s.drainAccount name) := by
  unfold drainAccount drainShares
  refine .after fun r _ => ?_
  have hpaid : Plain T s₀ (s.adjustBalance name (-(max r.balance 0))) := h.adjustBalance
  refine .bind (P := fun q : Int × Ledger => Plain T s₀ q.2) ?_ ?_
  · refine .after fun r' _ => .ite (fun _ => .after fun c _ => .pure ?_) (fun _ => .pure hpaid)
    have htotals : ∀ x y : Int, Plain T s₀ { s.adjustBalance name (-(max r.balance 0)) with
        totalVestingShares := x, totalVestingFund := y } := fun _ _ => hpaid
    exact (htotals _ _).replan hT fun _ => rfl
  · rintro ⟨c, s₁⟩ h₁
    exact .pure h₁

theorem concludeRequest_plain {id : Nat} (h : Plain T s₀ s) (hT : T .committee) :
    Returns (Plain T s₀) (s.concludeRequest id) := by
  unfold concludeRequest
  refine .ite (fun _ => .after ?_) (fun _ => .pure h)
  rintro ⟨status, payout⟩ -
  exact .pure (h.committee hT)

theorem payRequest_plain {most : Int} {id : Nat} (h : Plain T s₀ s) (hT : T .committee) :
    Returns (Plain T s₀) (payRequest most s id) := by
  unfold payRequest
  refine .after fun _ _ => .pure ?_
  exact (h.adjustBalance.committeeFund hT).committee hT

theorem committeeProcessing_plain (h : Plain T s₀ s) (hT : T .committee) :
    Returns (Plain T s₀) s.committeeProcessing := by
  unfold committeeProcessing
  refine .bind (.foldlM (fun _ _ hs => concludeRequest_plain hs hT) h) fun s₁ h₁ => .ite (fun _ => .pure h₁) (fun _ => ?_)
  exact .foldlM (fun _ _ hs => payRequest_plain hs hT) h₁

theorem renewSubscribe_plain {key : AccountName × AccountName} (h : Plain T s₀ s) (hT : T .subscriptions) :
    Returns (Plain T s₀) (s.renewSubscribe key) := by
  unfold renewSubscribe
  dsimp only
  have hclosed := Plain.subscriptions (x := s.paidSubscriptions) (y := s.paidSubscribes.modify key closeSubscribe) h hT
  cases s.paidSubscriptions.find key.2 with
  | none => exact .pure hclosed
  | some p =>
      refine .ite (fun _ => .after fun _ _ => .after fun _ _ => .ite (fun _ => .pure ?_) (fun _ => .pure hclosed))
        (fun _ => .pure hclosed)
      exact h.adjustBalance.adjustBalance.subscriptions hT

theorem paidSubscribeProcessing_plain (h : Plain T s₀ s) (hT : T .subscriptions) :
    Returns (Plain T s₀) s.paidSubscribeProcessing := by
  have hloop : ∀ (fuel : Nat) (next : Option (AccountName × AccountName)) (s : Ledger), Plain T s₀ s →
      Returns (Plain T s₀) (subscribeLoop fuel next s) := by
    intro fuel
    induction fuel with
    | zero => exact fun _ _ hs => .ok hs
    | succ fuel ih =>
        intro next s hs
        cases next with
        | none => exact .ok hs
        | some key =>
            refine .ite (fun _ => .ite (fun _ => ?_) (fun _ => .bind (.pure hs) fun _ h₁ => ih _ _ h₁))
              (fun _ => .ok hs)
            exact (renewSubscribe_plain hs hT).bind fun _ h₁ => ih _ _ h₁
  exact hloop _ _ _ h

/-- The accounts that are emptied at the end of a block. -/
def emptyAccounts (s : Ledger) : Result Ledger := do
  let s ← s.clearNullAccountBalance
  let s ← s.clearAnonymousAccountBalance
  s.claimCommitteeAccountBalance

theorem processClosing_eq : s.processClosing = (do
    let s ← s.emptyAccounts
    let s ← s.committeeProcessing
    s.paidSubscribeProcessing) := by
  unfold processClosing emptyAccounts
  simp only [bind_assoc]

theorem emptyAccounts_plain (h : Plain T s₀ s) (hT : ∀ a ∈ Config.keyless, T (.plan a)) :
    Returns (Plain T s₀) s.emptyAccounts := by
  unfold emptyAccounts clearNullAccountBalance clearAnonymousAccountBalance claimCommitteeAccountBalance
  have hdrained : ∀ {s₁ : Ledger} {x : AccountName} (f : Int → Ledger → Ledger), x ∈ Config.keyless → Plain T s₀ s₁ →
      (∀ n s₂, 0 < n → Plain T s₀ s₂ → Plain T s₀ (f n s₂)) → Returns (Plain T s₀) (do
        let r ← s₁.drainAccount x
        return if 0 < r.1 then f r.1 r.2 else r.2) := by
    intro s₁ x f hx h₁ hf
    refine (drainAccount_plain h₁ (hT x hx)).bind ?_
    intro r h₂
    refine .pure ?_
    split
    · next hpos => exact hf r.1 r.2 hpos h₂
    · exact h₂
  refine (hdrained (fun n s₂ => s₂.burnAsset (-n)) (by decide) h (fun _ _ _ hs => hs)).bind fun s₁ h₁ => ?_
  refine (hdrained (fun n s₂ => s₂.burnAsset (-n)) (by decide) h₁ (fun _ _ _ hs => hs)).bind fun s₂ h₂ => ?_
  exact hdrained (fun n s₂ => s₂.adjustCommitteeFund n) (by decide) h₂ (fun _ _ hn hs => hs.feed hn.le)

theorem accountRecoveryProcessing_plain (h : Plain T s₀ s) : Plain T s₀ s.accountRecoveryProcessing :=
  h.dropRequests fun _ hc => Table.mem_keys_of_mem_foldl_erase hc

theorem accountOnAuctionExpiration_plain (h : Plain T s₀ s) (hT : ∀ a, T (.title a)) :
    Returns (Plain T s₀) s.accountOnAuctionExpiration := by
  unfold accountOnAuctionExpiration
  exact .foldlM (fun _ _ hs => settleAuction_plain hs (hT _)) h

end Blocks

end Ledger

end VizNode
