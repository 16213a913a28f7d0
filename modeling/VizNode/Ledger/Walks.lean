import VizNode.Ledger.Footprints

/-!
# `VizNode.Ledger.Walks` — what a node does, one thing after another

A node works on its ledger by acts: a transaction, a part of a block, or something the ledger does not see. Each act
comes with the matters it touches, and a run is a chain of acts. It is finer than the steps of `Runs`, and it knows
more of each step.

**Withdrawals keep their pace** along a run. The rest of a withdrawal that is less than an instalment is then what the
modulo gives, and whoever withdraws has the shares, so that nobody counts for less than nothing.

## Contents
- **Acts.** `Act` and `Walk`; an act leaves alone what it does not touch, and keeps the books in order.
- **The pace of withdrawals.** `Upright`, `Act.upright`, `Walk.upright`.
- **Blocks.** A block is made of acts.
-/

namespace VizNode

namespace Ledger

open Prog (Returns)

variable {T : Matter → Prop} {s s' : Ledger} {names : Names}

/-! ## Acts -/

/-- **What a node does next**, with what it touches: a transaction, a part of a block, or something the ledger does not
    see. -/
inductive Act (names : Names) : (Matter → Prop) → Ledger → Ledger → Prop
  | transaction {s s' : Ledger} {ops : List Operation} (hsigned : ∀ o ∈ ops, s.signed o)
      (hops : Performed names anyOperation ops s s') : Act names (fun m => ∃ o ∈ ops, o.touches m) s s'
  | moveHead {s : Ledger} (b : Head) : Act names nothing s (s.moveHead b)
  | clearExpired {s s' : Ledger} (h : s.clearExpired = .ok s') : Act names (· = .committee) s s'
  | processRewards {s s' : Ledger} (h : s.processRewards = .ok s') : Act names (· = .awards) s s'
  | cashoutContent {s s' : Ledger} {c : Content} (h : s.cashoutContent c = .ok s') : Act names (· = .awards) s s'
  | withdrawFrom {s s' : Ledger} {name : AccountName} (h : s.withdrawFrom name = .ok s') :
      Act names (· = .plan name) s s'
  | accountRecoveryProcessing (s : Ledger) : Act names nothing s s.accountRecoveryProcessing
  | expireEscrowRatification {s s' : Ledger} (h : s.expireEscrowRatification = .ok s') : Act names nothing s s'
  | accountOnAuctionExpiration {s s' : Ledger} (h : s.accountOnAuctionExpiration = .ok s') :
      Act names (fun m => ∃ a, m = .title a) s s'
  | emptyAccounts {s s' : Ledger} (h : s.emptyAccounts = .ok s') :
      Act names (fun m => ∃ a ∈ Config.keyless, m = .plan a) s s'
  | committeeProcessing {s s' : Ledger} (h : s.committeeProcessing = .ok s') : Act names (· = .committee) s s'
  | paidSubscribeProcessing {s s' : Ledger} (h : s.paidSubscribeProcessing = .ok s') :
      Act names (· = .subscriptions) s s'
  /-- A hardfork begins, and whatever else the books and the matters do not see. -/
  | aside {s s' : Ledger} (hbank : s'.bank = s.bank) (hplain : Plain nothing s s') : Act names nothing s s'

/-- **The ledgers a node can come to.** -/
inductive Walk (names : Names) : Ledger → Prop
  | genesis (props : MedianProps) (initiatorKey inviteKey : PublicKey) :
      Walk names (genesis props initiatorKey inviteKey)
  | act {s s' : Ledger} {T : Matter → Prop} (h : Walk names s) (ha : Act names T s s') : Walk names s'

theorem Performed.plain {s₀ : Ledger} {P : Ledger → Operation → Prop} {ops : List Operation} (h : Performed names P ops s s')
    (hs : Plain T s₀ s) (hT : ∀ o ∈ ops, ∀ m, o.touches m → T m) : Plain T s₀ s' := by
  induction h with
  | nil s => exact hs
  | cons _ ho _ ih =>
      exact ih (evaluate_plain hs (hT _ List.mem_cons_self) _ ho) fun o hmem => hT o (List.mem_cons_of_mem _ hmem)

/-- **An act leaves alone what it does not touch.** -/
theorem Act.plain (h : Act names T s s') : Plain T s s' := by
  cases h with
  | transaction hsigned hops => exact hops.plain (.refl s) fun o ho m hm => ⟨o, ho, hm⟩
  | moveHead b => exact .refl s
  | clearExpired h => exact clearExpired_plain (T := (· = .committee)) (.refl s) rfl _ h
  | processRewards h => exact processRewards_plain (T := (· = .awards)) (.refl s) rfl _ h
  | cashoutContent h => exact cashoutContent_plain (T := (· = .awards)) (.refl s) rfl _ h
  | withdrawFrom h => exact withdrawFrom_plain (T := (· = .plan _)) (.refl s) rfl _ h
  | accountRecoveryProcessing => exact accountRecoveryProcessing_plain (.refl s)
  | expireEscrowRatification h => exact expireEscrowRatification_plain (.refl s) _ h
  | accountOnAuctionExpiration h => exact accountOnAuctionExpiration_plain (.refl s) (fun a => ⟨a, rfl⟩) _ h
  | emptyAccounts h => exact emptyAccounts_plain (.refl s) (fun a ha => ⟨a, ha, rfl⟩) _ h
  | committeeProcessing h => exact committeeProcessing_plain (T := (· = .committee)) (.refl s) rfl _ h
  | paidSubscribeProcessing h => exact paidSubscribeProcessing_plain (T := (· = .subscriptions)) (.refl s) rfl _ h
  | aside hbank hplain => exact hplain

/-- **An act keeps the books in order.** -/
theorem Act.inOrder (h : Act names T s s') (hb : Bank.InOrder 0 s.bank) : Bank.InOrder 0 s'.bank := by
  cases h with
  | transaction hsigned hops => exact hops.inOrder (fun o ho => (hsigned o ho).not_keyless hb) hb
  | moveHead b => exact hb
  | clearExpired h => exact (clearExpired_course (P := ⟨True, True⟩) h).inOrder trivial hb
  | processRewards h => exact (processRewards_course (P := ⟨True, True⟩) h).inOrder trivial hb
  | cashoutContent h => exact (cashoutContent_course (P := ⟨True, True⟩) h).inOrder trivial hb
  | withdrawFrom h => exact ((withdrawFrom_turn h).course ⟨True, True⟩).inOrder trivial hb
  | accountRecoveryProcessing => exact (accountRecoveryProcessing_course (P := ⟨True, True⟩)).inOrder trivial hb
  | expireEscrowRatification h => exact (expireEscrowRatification_course (P := ⟨True, True⟩) h).inOrder trivial hb
  | accountOnAuctionExpiration h => exact (accountOnAuctionExpiration_course (P := ⟨True, True⟩) h).inOrder trivial hb
  | emptyAccounts h =>
      simp only [Ledger.emptyAccounts, bind_eq_ok] at h
      obtain ⟨s₁, h₁, s₂, h₂, h₃⟩ := h
      have hb₁ := (clearNullAccountBalance_course (P := ⟨True, True⟩) h₁).inOrder trivial hb
      have hb₂ := (clearAnonymousAccountBalance_course (P := ⟨True, True⟩) h₂).inOrder trivial hb₁
      exact (claimCommitteeAccountBalance_course (P := ⟨True, True⟩) h₃).inOrder trivial hb₂
  | committeeProcessing h => exact (committeeProcessing_course (P := ⟨True, True⟩) h).inOrder trivial hb
  | paidSubscribeProcessing h => exact (subscribeLoop_course (P := ⟨True, True⟩) h).inOrder trivial hb
  | aside hbank => exact hbank ▸ hb

/-! ## The pace of withdrawals -/

/-- **The ledger is upright**: its books are in order, every withdrawal is paced, and no delegation is below zero. -/
structure Upright (s : Ledger) : Prop where
  inOrder : Bank.InOrder 0 s.bank
  paced   : ∀ a ∈ s.accounts.keys, Paced (s.accounts.row a)
  lends   : s.Lends

namespace Upright

variable {a : AccountName}

/-- What an account lends is not below zero. -/
theorem delegated_nonneg (h : s.Upright) (ha : a ∈ s.accounts.keys) :
    0 ≤ (s.accounts.row a).delegatedVestingShares := by
  have hsum : (s.accounts.row a).delegatedVestingShares = s.bank.lentBy a + Bank.returningTo s.bank.expirations a :=
    h.inOrder.delegated.delegated a ha
  have hlent : 0 ≤ s.bank.lentBy a := by
    refine Table.total_nonneg fun k hk => ?_
    split
    · exact h.lends k hk
    · exact le_rfl
  have hreturns := Bank.returningTo_nonneg (fun e he => (h.inOrder.delegated.returning e he).2) a
  rw [hsum]
  exact Int.add_nonneg hlent hreturns

/-- An account that withdraws has the shares. -/
theorem rest_le (h : s.Upright) (ha : a ∈ s.accounts.keys) :
    (s.accounts.row a).toWithdraw - (s.accounts.row a).withdrawn ≤ (s.accounts.row a).vestingShares := by
  have hfits : (s.accounts.row a).delegatedVestingShares
      + ((s.accounts.row a).toWithdraw - (s.accounts.row a).withdrawn) ≤ (s.accounts.row a).vestingShares :=
    h.inOrder.delegated.bound a ha
  have hlent := h.delegated_nonneg ha
  omega

/-- **Nobody's effective shares are below zero.** -/
theorem effectiveVestingShares_nonneg (h : s.Upright) (ha : a ∈ s.accounts.keys) :
    0 ≤ (s.accounts.row a).effectiveVestingShares := by
  have hfits : (s.accounts.row a).delegatedVestingShares
      + ((s.accounts.row a).toWithdraw - (s.accounts.row a).withdrawn) ≤ (s.accounts.row a).vestingShares :=
    h.inOrder.delegated.bound a ha
  have hpaced := (h.paced a ha).withdrawn_le
  have hsum : (s.accounts.row a).receivedVestingShares = s.bank.lentTo a := h.inOrder.delegated.received a ha
  have hlent : 0 ≤ s.bank.lentTo a := by
    refine Table.total_nonneg fun k hk => ?_
    split
    · exact h.lends k hk
    · exact le_rfl
  unfold Account.effectiveVestingShares
  omega

/-- What touches no withdrawal. -/
theorem of_plain (h : s.Upright) (hp : Plain T s s') (hb : Bank.InOrder 0 s'.bank) (hT : ∀ a, ¬ T (.plan a)) :
    s'.Upright :=
  ⟨hb, fun a ha => hp.paced h.paced a ha (hT a), hp.lends h.lends⟩

/-- **What leaves in a turn**: an instalment, or what is left. -/
theorem amount_eq (h : s.Upright) (ha : a ∈ s.accounts.keys) {w : Int}
    (hw : withdrawalAmount (s.accounts.row a) = .ok w) :
    w = min (s.accounts.row a).vestingWithdrawRate ((s.accounts.row a).toWithdraw - (s.accounts.row a).withdrawn) :=
  (h.paced a ha).amount_eq hw (h.rest_le ha)

end Upright

theorem genesis_upright {props : MedianProps} {initiatorKey inviteKey : PublicKey} :
    (genesis props initiatorKey inviteKey).Upright := by
  have hidle : ∀ r : Account, stake r = stake {} → Paced r :=
    fun r hr => Paced.of_eq (.begun le_rfl le_rfl rfl) (congrArg Prod.fst hr)
  refine ⟨genesis_inOrder, ?_, fun k hk => absurd hk List.not_mem_nil⟩
  refine Table.forall_insert (P := fun _ r => Paced r) (Table.forall_insert (P := fun _ r => Paced r)
    (Table.forall_insert (P := fun _ r => Paced r) (Table.forall_insert (P := fun _ r => Paced r)
      (Table.forall_insert (P := fun _ r => Paced r) ?_ ?_) ?_) ?_) ?_) ?_
  · exact fun a ha => absurd ha List.not_mem_nil
  all_goals exact hidle _ rfl

/-- An operation keeps the pace of every withdrawal. -/
theorem evaluate_paced {loc : Local} {o : Operation} (h : evaluate names loc s o = .ok s')
    (hp : ∀ a ∈ s.accounts.keys, Paced (s.accounts.row a)) : ∀ a ∈ s'.accounts.keys, Paced (s'.accounts.row a) := by
  have hplain : Plain o.touches s s' := evaluate_plain (.refl s) (fun _ hm => hm) _ h
  intro a ha
  by_cases hT : o.touches (.plan a)
  · cases o with
    | withdrawVesting account shares =>
        obtain rfl := Matter.plan.inj hT
        exact withdrawVesting_paced h
    | _ => cases hT
  · exact hplain.paced hp a ha hT

/-- **An operation of somebody who has a key** keeps the ledger upright. -/
theorem evaluate_upright {loc : Local} {o : Operation} (h : evaluate names loc s o = .ok s')
    (hk : ∀ a ∈ o.signer, a ∉ Config.keyless) (hu : s.Upright) : s'.Upright := by
  have hops : Performed names anyOperation [o] s s' := .cons trivial h (.nil s')
  have hplain : Plain o.touches s s' := evaluate_plain (.refl s) (fun _ hm => hm) _ h
  refine ⟨hops.inOrder (fun o' ho => ?_) hu.inOrder, evaluate_paced h hu.paced, hplain.lends hu.lends⟩
  obtain rfl := List.mem_singleton.mp ho
  exact hk

theorem Performed.upright {P : Ledger → Operation → Prop} {ops : List Operation} (h : Performed names P ops s s')
    (hk : ∀ o ∈ ops, ∀ a ∈ o.signer, a ∉ Config.keyless) (hu : s.Upright) : s'.Upright := by
  induction h with
  | nil s => exact hu
  | cons _ ho _ ih =>
      exact ih (fun o hmem => hk o (List.mem_cons_of_mem _ hmem)) (evaluate_upright ho (hk _ List.mem_cons_self) hu)

/-- A turn keeps the pace. -/
theorem withdrawFrom_paced {name : AccountName} (h : s.withdrawFrom name = .ok s') (hu : s.Upright) :
    ∀ a ∈ s'.accounts.keys, Paced (s'.accounts.row a) := by
  have hplain : Plain (· = .plan name) s s' := withdrawFrom_plain (T := (· = .plan name)) (.refl s) rfl _ h
  intro a ha
  by_cases hn : a = name
  · subst hn
    obtain ⟨hmem, w, c, r, hw, hr, hrow⟩ := withdrawFrom_settles h
    exact ((hu.paced a hmem).settle hr.1 (hu.amount_eq hmem hw)).of_eq hrow.1
  · exact hplain.paced hu.paced a ha fun he => hn (Matter.plan.inj he)

/-- **An act keeps the ledger upright.** -/
theorem Act.upright (h : Act names T s s') (hu : s.Upright) : s'.Upright := by
  have hb := h.inOrder hu.inOrder
  have hplain := h.plain
  cases h with
  | transaction hsigned hops => exact hops.upright (fun o ho => (hsigned o ho).not_keyless hu.inOrder) hu
  | withdrawFrom h => exact ⟨hb, withdrawFrom_paced h hu, hplain.lends hu.lends⟩
  | emptyAccounts h =>
      refine ⟨hb, fun a ha => ?_, hplain.lends hu.lends⟩
      by_cases hk : a ∈ Config.keyless
      · -- an account without a key has nothing planned
        exact .begun (hb.sealed.rate_eq hk).ge (hb.sealed.toWithdraw_eq hk).ge (hb.sealed.withdrawn_eq hk)
      · refine hplain.paced hu.paced a ha ?_
        rintro ⟨k, hmem, he⟩
        exact hk (Matter.plan.inj he ▸ hmem)
  | accountOnAuctionExpiration h => exact hu.of_plain hplain hb fun a ⟨_, he⟩ => nomatch he
  | moveHead b => exact hu.of_plain hplain hb fun _ => id
  | accountRecoveryProcessing => exact hu.of_plain hplain hb fun _ => id
  | expireEscrowRatification h => exact hu.of_plain hplain hb fun _ => id
  | aside hbank hplain => exact hu.of_plain hplain hb fun _ => id
  | _ => exact hu.of_plain hplain hb fun _ => (nomatch ·)

/-- **Every ledger a node can come to is upright.** -/
theorem Walk.upright (h : Walk names s) : s.Upright := by
  induction h with
  | genesis => exact genesis_upright
  | act _ ha ih => exact ha.upright ih

/-! ## Blocks -/

/-- The turns of the withdrawals are acts. -/
theorem Walk.withdrawals (h : Walk names s) (hs : s.processVestingWithdrawals = .ok s') : Walk names s' := by
  have hloop : ∀ (fuel : Nat) (next : Option AccountName) (s₁ : Ledger), Walk names s₁ →
      Returns (Walk names) (withdrawalLoop fuel next s₁) := by
    intro fuel
    induction fuel with
    | zero => exact fun _ _ h₁ => .ok h₁
    | succ fuel ih =>
        intro next s₁ h₁
        cases next with
        | none => exact .ok h₁
        | some n =>
            refine .ite (fun _ => ?_) (fun _ => .ok h₁)
            intro s₂ h₂
            obtain ⟨s₃, hturn, hrest⟩ := bind_eq_ok.mp h₂
            exact ih _ _ (h₁.act (.withdrawFrom hturn)) _ hrest
  exact hloop _ _ _ h _ hs

/-- **A block is made of acts**: behind it the node is in a ledger of its run. -/
theorem Walk.processBlock {b : Head} (h : Walk names s) (hs : s.processBlock b = .ok s') : Walk names s' := by
  simp only [Ledger.processBlock, processAccounts, processClosing_eq, bind_eq_ok] at hs
  obtain ⟨s₁, h₁, s₂, h₂, s₃, ⟨s₄, h₄, s₅, h₅, h₃⟩, s₆, h₆, s₇, h₇, h₈⟩ := hs
  have hr₂ := ((h.act (.moveHead b)).act (.clearExpired h₁)).act (.processRewards h₂)
  have hr₅ := ((hr₂.withdrawals h₄).act (.accountRecoveryProcessing s₄)).act (.expireEscrowRatification h₅)
  have hr₃ : Walk names s₃ := by
    split at h₃
    · exact hr₅.act (.accountOnAuctionExpiration h₃)
    · exact pure_eq_ok.mp h₃ ▸ hr₅
  exact ((hr₃.act (.emptyAccounts h₆)).act (.committeeProcessing h₇)).act (.paidSubscribeProcessing h₈)

/-- The start of the samples, at any block. -/
theorem Sample.start_walk (n : Nat) : Walk names { Sample.start with headBlockNumber := n } := by
  refine .act (.genesis Sample.props 1 2) (.aside rfl ⟨?_, fun _ => ⟨rfl, rfl⟩, fun _ => ⟨⟨rfl, rfl, rfl⟩, le_rfl⟩,
    fun _ => ⟨⟨rfl, rfl⟩, le_rfl⟩, Nat.zero_le _, fun a ha hnew => absurd ha hnew, id⟩)
  exact fun a ha => ⟨ha, fun _ => .refl _, fun _ => ⟨rfl, id⟩⟩

end Ledger

end VizNode
