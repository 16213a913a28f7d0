import VizNode.Ledger.Purses
import VizNode.Ledger.Requests
import VizNode.Lib.Buckets

/-!
# `VizNode.Ledger.Spending` — what leaves an account over a run

A run is a chain of transactions and parts of blocks; each counts the energy that one account spends in it.

**The energy is a bucket.** Awards draw from it and the time fills it. However many awards an account makes, and whatever
else happens to its energy in between, what they spend together is limited by the length of the period.

**Who signs nothing keeps what it has.** Along any run in which an account signs no operation, neither its tokens nor its
free shares become fewer, whatever the others do.

## Contents
- **Runs.** `Performs`, `Passes`.
- **Energy.** `energyBucket`, `awards_paced`.
- **Own funds.** `Settled`, `own_funds_stay`.
-/

namespace VizNode

namespace Ledger

open Prog (Returns)

variable {s s₁ s' : Ledger} {names : Names} {a : AccountName} {c e : Int} {Q : Operation → Prop} {w : Watch}

/-! ## Runs -/

/-- **An operation that is carried out**, with the energy that `a` spends in it. -/
inductive Performs (names : Names) (Q : Operation → Prop) (a : AccountName) : Ledger → Int → Ledger → Prop
  | operation {s s' : Ledger} {loc : Local} {o : Operation} (hQ : Q o) (ho : evaluate names loc s o = .ok s') :
      Performs names Q a s (o.energyUsed a s) s'

/-- **What a node does next**, with the energy that `a` spends: a transaction whose operations all meet `Q`, or a part of
    a block. -/
inductive Passes (names : Names) (Q : Operation → Prop) (a : AccountName) : Ledger → Int → Ledger → Prop
  | transaction {s s' : Ledger} {c : Int} (h : Drawn (Performs names (fun o => s.signed o ∧ Q o) a) s c s') :
      Passes names Q a s c s'
  /-- A block is later than the one before it. -/
  | moveHead {s : Ledger} (b : Head) (hlater : s.time ≤ b.timestamp) : Passes names Q a s 0 (s.moveHead b)
  | clearExpired {s s' : Ledger} (h : s.clearExpired = .ok s') : Passes names Q a s 0 s'
  | processRewards {s s' : Ledger} (h : s.processRewards = .ok s') : Passes names Q a s 0 s'
  | cashoutContent {s s' : Ledger} {x : Content} (h : s.cashoutContent x = .ok s') : Passes names Q a s 0 s'
  | withdrawFrom {s s' : Ledger} {name : AccountName} (h : s.withdrawFrom name = .ok s') : Passes names Q a s 0 s'
  | accountRecoveryProcessing (s : Ledger) : Passes names Q a s 0 s.accountRecoveryProcessing
  | expireEscrowRatification {s s' : Ledger} (h : s.expireEscrowRatification = .ok s') : Passes names Q a s 0 s'
  | accountOnAuctionExpiration {s s' : Ledger} (h : s.accountOnAuctionExpiration = .ok s') : Passes names Q a s 0 s'
  | emptyAccounts {s s' : Ledger} (h : s.emptyAccounts = .ok s') : Passes names Q a s 0 s'
  | committeeProcessing {s s' : Ledger} (h : s.committeeProcessing = .ok s') : Passes names Q a s 0 s'
  | paidSubscribeProcessing {s s' : Ledger} (h : s.paidSubscribeProcessing = .ok s') : Passes names Q a s 0 s'
  /-- A hardfork begins, a vote on content is cast, and whatever else the books and the matters do not see: it gives
      nobody energy. -/
  | aside {s s' : Ledger} (hbank : s'.bank = s.bank) (hplain : Plain nothing s s') (htime : s'.time = s.time)
      (hrested : ∀ n x, Rested x s.time (s.accounts.row n) → Rested x s.time (s'.accounts.row n)) : Passes names Q a s 0 s'

/-- One more operation. -/
theorem Performed.snoc {P : Ledger → Operation → Prop} {ops : List Operation} {loc : Local} {o : Operation}
    (h : Performed names P ops s s₁) (hP : P s₁ o) (ho : evaluate names loc s₁ o = .ok s') :
    Performed names P (ops ++ [o]) s s' := by
  induction h with
  | nil s => exact .cons hP ho (.nil s')
  | cons hP' ho' _ ih => exact .cons hP' ho' (ih hP ho)

/-- The operations of a transaction. -/
theorem performed_of_drawn (h : Drawn (Performs names Q a) s c s') :
    ∃ ops, (∀ o ∈ ops, Q o) ∧ Performed names anyOperation ops s s' := by
  induction h with
  | start => exact ⟨[], fun o ho => absurd ho List.not_mem_nil, .nil s⟩
  | step _ hs ih =>
      obtain ⟨ops, hQ, hops⟩ := ih
      cases hs with
      | @operation _ loc o hQo ho =>
          refine ⟨ops ++ [o], fun o' ho' => ?_, hops.snoc trivial ho⟩
          rcases List.mem_append.mp ho' with hmem | hmem
          · exact hQ o' hmem
          · exact List.mem_singleton.mp hmem ▸ hQo

/-- **It is an act** of the node. -/
theorem Passes.act (h : Passes names Q a s c s') : ∃ T, Act names T s s' := by
  cases h with
  | transaction h =>
      obtain ⟨ops, hQ, hops⟩ := performed_of_drawn h
      exact ⟨_, .transaction (fun o ho => (hQ o ho).1) hops⟩
  | moveHead b hlater => exact ⟨_, .moveHead b⟩
  | clearExpired h => exact ⟨_, .clearExpired h⟩
  | processRewards h => exact ⟨_, .processRewards h⟩
  | cashoutContent h => exact ⟨_, .cashoutContent h⟩
  | withdrawFrom h => exact ⟨_, .withdrawFrom h⟩
  | accountRecoveryProcessing => exact ⟨_, .accountRecoveryProcessing s⟩
  | expireEscrowRatification h => exact ⟨_, .expireEscrowRatification h⟩
  | accountOnAuctionExpiration h => exact ⟨_, .accountOnAuctionExpiration h⟩
  | emptyAccounts h => exact ⟨_, .emptyAccounts h⟩
  | committeeProcessing h => exact ⟨_, .committeeProcessing h⟩
  | paidSubscribeProcessing h => exact ⟨_, .paidSubscribeProcessing h⟩
  | aside hbank hplain => exact ⟨_, .aside hbank hplain⟩

/-- What a watch needs of a part of a block: whoever owns something has a key and renews nothing, and the committee fund is
    not below zero. -/
structure Guarded (w : Watch) (s : Ledger) : Prop where
  key       : w.name ∉ Config.keyless
  renews    : RenewsNothing w.name s
  committee : 0 ≤ s.committeeFund
  hardfork  : s.hasHardfork 4 = true

/-- Nothing but a transaction and the time moves a watch. -/
theorem Passes.purse (h : Passes names Q w.name s c s') (hw : Purse w s) (howns : w.owns → Guarded w s) :
    Drawn (Performs names (fun o => s.signed o ∧ Q o) w.name) s c s' ∨
      (∃ b : Head, s.time ≤ b.timestamp ∧ s' = s.moveHead b ∧ c = 0) ∨ (Purse w s' ∧ c = 0) := by
  cases h with
  | transaction h => exact .inl h
  | moveHead b hlater => exact .inr (.inl ⟨b, hlater, rfl, rfl⟩)
  | clearExpired h => exact .inr (.inr ⟨clearExpired_purse hw _ h, rfl⟩)
  | processRewards h => exact .inr (.inr ⟨processRewards_purse hw _ h, rfl⟩)
  | cashoutContent h =>
      refine .inr (.inr ⟨?_, rfl⟩)
      by_cases ho : w.owns
      · -- with hardfork 4 content was closed
        unfold Ledger.cashoutContent at h
        simp only [bind_eq_ok, require_eq_ok] at h
        obtain ⟨-, hno, -⟩ := h
        exact absurd (howns ho).hardfork hno
      · exact cashoutContent_purse hw ho _ h
  | withdrawFrom h => exact .inr (.inr ⟨withdrawFrom_purse hw _ h, rfl⟩)
  | accountRecoveryProcessing => exact .inr (.inr ⟨hw, rfl⟩)
  | expireEscrowRatification h => exact .inr (.inr ⟨expireEscrowRatification_purse hw _ h, rfl⟩)
  | accountOnAuctionExpiration h => exact .inr (.inr ⟨accountOnAuctionExpiration_purse hw _ h, rfl⟩)
  | emptyAccounts h => exact .inr (.inr ⟨emptyAccounts_purse hw (fun ho => (howns ho).key) _ h, rfl⟩)
  | committeeProcessing h =>
      exact .inr (.inr ⟨committeeProcessing_purse hw (fun ho => (howns ho).committee) _ h, rfl⟩)
  | paidSubscribeProcessing h =>
      exact .inr (.inr ⟨(paidSubscribeProcessing_purse hw (fun ho => (howns ho).renews) _ h).1, rfl⟩)
  | aside hbank hplain htime hrested =>
      refine .inr (.inr ⟨?_, rfl⟩)
      have hkeys : s'.accounts.keys = s.accounts.keys := congrArg (fun b => b.accounts.keys) hbank
      have hrow : (s'.accounts.row w.name).toAccountBook = (s.accounts.row w.name).toAccountBook :=
        congrArg (fun b => b.accounts.row w.name) hbank
      have hback : s'.expirations.map (fun d => (d.delegator, d.vestingShares)) =
          s.expirations.map (fun d => (d.delegator, d.vestingShares)) := congrArg Bank.expirations hbank
      refine ⟨htime.trans hw.1, fun d hd => ?_, hkeys ▸ hw.2.2.1, fun hmem => ?_⟩
      · have hmem := hback ▸ List.mem_map_of_mem (f := fun d : DelegationExpiration => (d.delegator, d.vestingShares)) hd
        obtain ⟨d', hd', he⟩ := List.mem_map.mp hmem
        exact (Prod.mk.inj he).2 ▸ hw.2.1 d' hd'
      · obtain ⟨hr, ho⟩ := hw.2.2.2 (hkeys ▸ hmem)
        refine ⟨fun hrests => ?_, fun how => ?_⟩
        · have h' := hrested w.name w.most
          rw [hw.1] at h'
          exact h' (hr hrests)
        · have hbalance : (s'.accounts.row w.name).balance = (s.accounts.row w.name).balance := congrArg (·.balance) hrow
          have hlent : (s'.accounts.row w.name).delegatedVestingShares = (s.accounts.row w.name).delegatedVestingShares :=
            congrArg (·.delegatedVestingShares) hrow
          rw [hbalance, hlent]
          exact ho how

/-! ## Energy -/

section Energy

/-- The vigour of an account; one that is not there yet will begin with all its energy. -/
def level (a : AccountName) (s : Ledger) : Int := if a ∈ s.accounts.keys then vigour (s.accounts.row a) s.time else fullVigour

/-- **The energy of an account is a bucket**: a second brings `CHAIN_100_PERCENT`, and a fixed award can take one step more
    than there is. -/
def energyBucket (a : AccountName) : Bucket Ledger where
  clock := fun s => s.time
  level := level a
  rate  := Config.hundredPercent
  unit  := Config.energyRegenerationSeconds
  slack := Config.energyRegenerationSeconds

/-- The energy of an account, watched from now on. -/
def energyWatch (a : AccountName) (s : Ledger) : Watch where
  name   := a
  time   := s.time
  rests  := True
  most   := level a s
  owns   := False
  tokens := 0
  lent   := 0

theorem level_le_full : level a s ≤ fullVigour := by
  unfold level
  split
  · exact vigour_le_full
  · exact le_rfl

/-- **The level is within the watch**, and can be watched anew. -/
theorem Purse.renew (h : Purse w s) (hr : w.rests) : level w.name s ≤ w.most ∧ Purse (energyWatch w.name s) s := by
  obtain ⟨htime, hback, hnew, hold⟩ := h
  by_cases hmem : w.name ∈ s.accounts.keys
  · have hlevel : level w.name s = vigour (s.accounts.row w.name) s.time := if_pos hmem
    have hrested := (hold hmem).1 hr
    rw [← htime] at hrested
    refine ⟨hlevel ▸ hrested.most, rfl, hback, fun hno => absurd hmem hno, fun _ => ⟨fun _ => ?_, False.elim⟩⟩
    exact ⟨hrested.past, hrested.least, hlevel.ge⟩
  · have hlevel : level w.name s = fullVigour := if_neg hmem
    refine ⟨hlevel ▸ (hnew hmem).2, rfl, hback, fun _ => ⟨id, hlevel.ge⟩, fun hin => absurd hin hmem⟩

/-- An award takes no more than there is. -/
theorem award_energy {producing : Bool} {o : Award} (h : award producing s o = .ok s') :
    o.initiator ∈ s.accounts.keys ∧ (o.energy : Int) ≤ (s.accounts.row o.initiator).currentEnergy s.time := by
  unfold award at h
  simp only [bind_eq_ok, require_eq_ok, getAccount_eq_ok] at h
  obtain ⟨-, -, -, -, r, ⟨hmem, rfl⟩, -, -, -, henergy, -⟩ := h
  exact ⟨hmem, henergy.2⟩

/-- **What an operation spends was there**, but for one step. -/
theorem energyUsed_le {loc : Local} {o : Operation} (h : evaluate names loc s o = .ok s')
    (hw : Purse (energyWatch a s) s) (hpos : 0 < o.energyUsed a s) :
    Config.energyRegenerationSeconds * o.energyUsed a s ≤ level a s + Config.energyRegenerationSeconds := by
  have hunit : (0 : Int) ≤ Config.energyRegenerationSeconds := by decide
  -- an energy of somebody who is there, within one step of what is counted
  have hwithin : ∀ {x : Int}, a ∈ s.accounts.keys → x ≤ (s.accounts.row a).currentEnergy s.time + 1 →
      Config.energyRegenerationSeconds * x ≤ level a s + Config.energyRegenerationSeconds := by
    intro x hmem hx
    have hlevel : level a s = vigour (s.accounts.row a) s.time := if_pos hmem
    have hcounted := currentEnergy_le_vigour ((hw.2.2.2 hmem).1 trivial).past
    calc Config.energyRegenerationSeconds * x
        ≤ Config.energyRegenerationSeconds * ((s.accounts.row a).currentEnergy s.time + 1) :=
          mul_le_mul_of_nonneg_left hx hunit
      _ = Config.energyRegenerationSeconds * (s.accounts.row a).currentEnergy s.time + Config.energyRegenerationSeconds := by
          rw [mul_add, mul_one]
      _ ≤ level a s + Config.energyRegenerationSeconds := Int.add_le_add_right (hlevel ▸ hcounted) _
  cases o with
  | award o =>
      obtain ⟨hmem, henergy⟩ := award_energy h
      unfold Operation.energyUsed at hpos ⊢
      dsimp only at hpos ⊢
      by_cases ha : o.initiator = a
      · subst ha
        rw [if_pos rfl]
        exact hwithin hmem (by omega)
      · rw [if_neg ha] at hpos
        exact absurd hpos (lt_irrefl 0)
  | fixedAward o =>
      obtain ⟨hc, -, hle, -⟩ := fixedAward_eq_ok h
      unfold Operation.energyUsed at hpos ⊢
      dsimp only at hpos ⊢
      by_cases ha : o.initiator = a
      · subst ha
        rw [if_pos rfl]
        exact hwithin hc.initiator (FixedAward.needEnergy_le hc hle)
      · rw [if_neg ha] at hpos
        exact absurd hpos (lt_irrefl 0)
  | _ => exact absurd hpos (lt_irrefl 0)

/-- **An operation draws** what it spends. -/
theorem Performs.draws (h : Performs names Q a s c s') (hw : Purse (energyWatch a s) s) :
    Purse (energyWatch a s') s' ∧ (energyBucket a).Draws s c s' := by
  cases h with
  | @operation _ loc o hQ ho =>
      have hless : Purse ((energyWatch a s).less (o.energyUsed a s)) s' :=
        evaluate_purse hw False.elim False.elim s' ho
      obtain ⟨hlevel, hwatch⟩ := hless.renew trivial
      have htime : s'.time = s.time := hless.1
      have hstill : (energyBucket a).brought s s' = 0 := by
        show (Config.hundredPercent : Int) * ((s'.time : Int) - s.time) = 0
        rw [htime, sub_self, mul_zero]
      refine ⟨hwatch, (congrArg Int.ofNat htime).ge, ?_, fun hpos => ?_⟩
      · rw [hstill, add_zero]
        exact Int.add_le_of_le_sub_right hlevel
      · rw [hstill, add_zero]
        exact energyUsed_le ho hw hpos

theorem rate_nonneg : 0 ≤ (energyBucket a).rate := Int.natCast_nonneg _

theorem unit_nonneg : 0 ≤ (energyBucket a).unit := Int.natCast_nonneg _

/-- **Whatever the node does is a draw.** -/
theorem Passes.draws (h : Passes names Q a s c s') (hw : Purse (energyWatch a s) s) :
    Purse (energyWatch a s') s' ∧ (energyBucket a).Draws s c s' := by
  rcases h.purse (w := energyWatch a s) hw False.elim with h | ⟨b, hlater, rfl, rfl⟩ | ⟨hkept, rfl⟩
  · exact Bucket.draws (I := fun u => Purse (energyWatch a u) u) rate_nonneg unit_nonneg hw (fun hu hs => hs.draws hu) h
  · obtain ⟨hlevel, hwatch⟩ := (hw.moveHead hlater).renew trivial
    refine ⟨hwatch, Int.ofNat_le.mpr hlater, ?_, fun hpos => absurd hpos (lt_irrefl 0)⟩
    rw [mul_zero, add_zero]
    exact hlevel
  · obtain ⟨hlevel, hwatch⟩ := hkept.renew trivial
    have htime : s'.time = s.time := hkept.1
    refine ⟨hwatch, (congrArg Int.ofNat htime).ge, ?_, fun hpos => absurd hpos (lt_irrefl 0)⟩
    have hstill : (energyBucket a).brought s s' = 0 := by
      show (Config.hundredPercent : Int) * ((s'.time : Int) - s.time) = 0
      rw [htime, sub_self, mul_zero]
    rw [hstill, mul_zero, add_zero, add_zero]
    exact hlevel

theorem genesis_watch {props : MedianProps} {initiatorKey inviteKey : PublicKey} :
    Purse (energyWatch a (genesis props initiatorKey inviteKey)) (genesis props initiatorKey inviteKey) := by
  refine ⟨rfl, fun d hd => absurd hd List.not_mem_nil, fun hno => ⟨id, (if_neg hno).ge⟩, fun hmem => ⟨fun _ => ?_, False.elim⟩⟩
  have hlevel : level a (genesis props initiatorKey inviteKey) =
      vigour ((genesis props initiatorKey inviteKey).accounts.row a) 0 := if_pos hmem
  have hrow : ∀ n ∈ (genesisAccounts initiatorKey).keys, Rested fullVigour 0 ((genesisAccounts initiatorKey).row n) := by
    have hfresh : ∀ r : Account, r.energy = Config.hundredPercent → r.lastVoteTime = 0 → Rested fullVigour 0 r :=
      fun r he hl => .fresh he hl.le
    refine Table.forall_insert (P := fun _ r => Rested fullVigour 0 r) (Table.forall_insert
      (P := fun _ r => Rested fullVigour 0 r) (Table.forall_insert (P := fun _ r => Rested fullVigour 0 r)
        (Table.forall_insert (P := fun _ r => Rested fullVigour 0 r) (Table.forall_insert
          (P := fun _ r => Rested fullVigour 0 r) ?_ ?_) ?_) ?_) ?_) ?_
    · exact fun n hn => absurd hn List.not_mem_nil
    all_goals exact hfresh _ rfl rfl
  exact ⟨(hrow a hmem).past, (hrow a hmem).least, hlevel.ge⟩

namespace Sample

/-- Genesis, with all hardforks applied, before the first block. -/
def forked : Ledger := { genesis props 1 2 with hardfork := 13 }

theorem forked_passes : Passes Sample.names Q a (genesis props 1 2) 0 forked := by
  refine .aside rfl ⟨?_, fun _ => ⟨rfl, rfl⟩, fun _ => ⟨⟨rfl, rfl, rfl⟩, le_rfl⟩, fun _ => ⟨⟨rfl, rfl⟩, le_rfl⟩,
    Nat.zero_le _, fun n hn hnew => absurd hn hnew, id⟩ rfl fun _ _ => id
  exact fun n hn => ⟨hn, fun _ => .refl _, fun _ => ⟨rfl, id⟩⟩

/-- The initiator awards with a twentieth of its energy. -/
def thanks : Operation := .award ⟨Config.initiatorName, Config.inviteAccount, 500, []⟩

end Sample

end Energy

/-! ## Own funds -/

section OwnFunds

variable {b v : Int}

/-- The tokens of an account and what it lends, watched with the numbers it has at least and at most. -/
def fundsWatch (a : AccountName) (t : Nat) (tokens lent : Int) : Watch where
  name   := a
  time   := t
  rests  := False
  most   := 0
  owns   := True
  tokens := tokens
  lent   := lent

/-- **An account is left to itself**: nothing more to withdraw, nothing to renew, and at least so much. -/
structure Settled (a : AccountName) (tokens lent shares : Int) (s : Ledger) : Prop where
  mem       : a ∈ s.accounts.keys
  returning : ∀ d ∈ s.expirations, 0 ≤ d.vestingShares
  renews    : RenewsNothing a s
  idle      : (s.accounts.row a).withdrawn = (s.accounts.row a).toWithdraw
  funds     : tokens ≤ (s.accounts.row a).balance ∧ (s.accounts.row a).delegatedVestingShares ≤ lent
  shares    : shares ≤ (s.accounts.row a).vestingShares

theorem Settled.watched {lent : Int} (h : Settled a b lent v s) : Purse (fundsWatch a s.time b lent) s :=
  ⟨rfl, h.returning, fun hno => absurd h.mem hno, fun _ => ⟨False.elim, fun _ => h.funds⟩⟩

/-- What is planned of an account is untouched, and nobody takes its shares. -/
theorem undisturbed_idle {r r' : Account} (h : Undisturbed r r') (hidle : r.withdrawn = r.toWithdraw) :
    r'.withdrawn = r'.toWithdraw ∧ r.vestingShares ≤ r'.vestingShares := by
  have hto : r'.toWithdraw = r.toWithdraw := congrArg (fun p => p.2.2.1) h.1
  have hout : r'.withdrawn = r.withdrawn := congrArg (fun p => p.2.2.2) h.1
  refine ⟨?_, h.2⟩
  rw [hto, hout]
  exact hidle

/-- **The turn of an account with nothing to withdraw** takes nothing from it. -/
theorem withdrawFrom_idle (h : s.withdrawFrom a = .ok s') (hu : s.Upright)
    (hidle : (s.accounts.row a).withdrawn = (s.accounts.row a).toWithdraw) :
    (s'.accounts.row a).withdrawn = (s'.accounts.row a).toWithdraw ∧
      (s.accounts.row a).vestingShares ≤ (s'.accounts.row a).vestingShares := by
  obtain ⟨hmem, amount, converted, r, hamount, hr, hrow⟩ := withdrawFrom_settles h
  have hrate := (hu.paced a hmem).rate_nonneg
  have hzero : amount = 0 := by
    rw [hu.amount_eq hmem hamount, hidle, sub_self]
    exact min_eq_right hrate
  obtain ⟨hidle', hle⟩ := undisturbed_idle hr hidle
  have hsettled : (settleWithdrawal amount converted r).withdrawn = (settleWithdrawal amount converted r).toWithdraw ∧
      (settleWithdrawal amount converted r).vestingShares = r.vestingShares := by
    rw [hzero]
    unfold settleWithdrawal
    dsimp only
    split
    · exact ⟨by rw [add_zero]; exact hidle', sub_zero _⟩
    · exact ⟨by rw [add_zero]; exact hidle', sub_zero _⟩
  obtain ⟨hidle'', hle'⟩ := undisturbed_idle hrow hsettled.1
  exact ⟨hidle'', hle.trans (hsettled.2 ▸ hle')⟩

section Renewals

/-- The subscriptions of others. -/
theorem RenewsNothing.of_eq (h : RenewsNothing a s) (he : s'.paidSubscribes = s.paidSubscribes) : RenewsNothing a s' := by
  unfold RenewsNothing
  rw [he]
  exact h

theorem RenewsNothing.insert {key : AccountName × AccountName} {p : PaidSubscribe} (h : RenewsNothing a s)
    (hkey : key.1 ≠ a) : RenewsNothing a { s with paidSubscribes := s.paidSubscribes.insert key p } :=
  Table.forall_insert (P := fun (k : AccountName × AccountName) (q : PaidSubscribe) => k.1 = a → q.autoRenewal = false) h fun he => absurd he hkey

theorem RenewsNothing.modify {key : AccountName × AccountName} {f : PaidSubscribe → PaidSubscribe} (h : RenewsNothing a s)
    (hkey : key.1 ≠ a) : RenewsNothing a { s with paidSubscribes := s.paidSubscribes.modify key f } := by
  intro k hk ha
  have hne : k ≠ key := fun he => hkey (he ▸ ha)
  show ((s.paidSubscribes.modify key f).row k).autoRenewal = false
  rw [Table.modify_row_of_ne hne]
  exact h k hk ha

theorem RenewsNothing.erase {key : AccountName × AccountName} (h : RenewsNothing a s) :
    RenewsNothing a { s with paidSubscribes := s.paidSubscribes.erase key } :=
  fun k hk => h k (Table.mem_erase_keys.mp hk).2

theorem paySubscription_renews {subscriber account : AccountName} {cost : Int} (h : RenewsNothing a s) :
    Returns (RenewsNothing a) (s.paySubscription subscriber account cost) := by
  unfold paySubscription
  exact .after fun _ _ => .after fun _ _ => .after fun _ _ => .pure h

/-- **Another's subscription** is no renewal of this account. -/
theorem paidSubscribe_renews {o : PaidSubscribeOp} (h : RenewsNothing a s) (hother : o.subscriber ≠ a) :
    Returns (RenewsNothing a) (s.paidSubscribe o) := by
  have hnew : ∀ {u : Ledger}, RenewsNothing a u → Returns (RenewsNothing a) (u.newSubscription o) := by
    intro u hu
    unfold newSubscription
    exact (paySubscription_renews hu).bind fun _ h₁ => .pure (h₁.insert hother)
  unfold paidSubscribe
  refine .after fun _ _ => .after fun _ _ => .after fun _ _ => .after fun _ _ => .after fun _ _ => ?_
  cases s.paidSubscriptions.find o.account with
  | none => exact .error _
  | some p =>
      refine .after fun _ _ => .after fun _ _ => .after fun _ _ => .after fun _ _ => ?_
      dsimp only
      cases s.paidSubscribes.find (o.subscriber, o.account) with
      | none => exact hnew h
      | some old =>
          refine .ite (fun _ => .ite (fun _ => .after fun _ _ => .pure (h.modify hother)) (fun _ => ?_))
            (fun _ => hnew h.erase)
          unfold changeSubscription
          refine .after fun _ _ => .ite (fun _ => .pure (h.modify hother)) (fun _ => ?_)
          exact (paySubscription_renews h).bind fun _ h₁ => .pure (h₁.modify hother)

/-- An operation that the account has not signed renews nothing for it. -/
theorem evaluate_renews {loc : Local} {o : Operation} (ho : evaluate names loc s o = .ok s') (h : RenewsNothing a s)
    (hother : a ∉ o.signer) : RenewsNothing a s' := by
  have hplain : Plain o.touches s s' := evaluate_plain (.refl s) (fun _ hm => hm) _ ho
  by_cases hT : o.touches .subscriptions
  · cases o with
    | paidSubscribe o => exact paidSubscribe_renews h (fun he => hother (congrArg some he)) s' ho
    | setPaidSubscription account levels amount period =>
        have hset : Returns (RenewsNothing a) (s.setPaidSubscription account levels amount period) := by
          unfold setPaidSubscription
          refine .after fun _ _ => .after fun _ _ => .after fun _ _ => ?_
          dsimp only
          cases s.paidSubscriptions.find account with
          | some _ => exact .pure h
          | none =>
              refine .ite (fun _ => .bind (P := RenewsNothing a) ?_ fun _ h₁ => .pure h₁)
                (fun _ => .bind (.pure (Q := RenewsNothing a) h) fun _ h₁ => .pure h₁)
              unfold payFee
              exact .after fun _ _ => .after fun _ _ => .pure h
        exact hset s' ho
    | _ => cases hT
  · exact h.of_eq (hplain.2.1 hT).2

end Renewals

section Runs

variable {lent : Int} {T : Matter → Prop}

/-- **The watch has been kept**, and what was planned of the account was not touched. -/
theorem Settled.of_purse (h : Settled a b lent v s) (hp : Purse w s') (hname : w.name = a) (howns : w.owns)
    (hfunds : b ≤ w.tokens ∧ w.lent ≤ lent) (hmem : a ∈ s'.accounts.keys) (hrenews : RenewsNothing a s')
    (hidle : (s'.accounts.row a).withdrawn = (s'.accounts.row a).toWithdraw ∧
      (s.accounts.row a).vestingShares ≤ (s'.accounts.row a).vestingShares) : Settled a b lent v s' := by
  subst hname
  obtain ⟨htokens, hlent⟩ := (hp.2.2.2 hmem).2 howns
  exact ⟨hmem, hp.2.1, hrenews, hidle.1, ⟨hfunds.1.trans htokens, hlent.trans hfunds.2⟩, h.shares.trans hidle.2⟩

/-- An act that does not touch the account's withdrawal or the subscriptions. -/
theorem Settled.of_plain (h : Settled a b lent v s) (hp : Purse (fundsWatch a s.time b lent) s') (hplain : Plain T s s')
    (hplan : ¬T (.plan a)) (hsubscriptions : ¬T .subscriptions) : Settled a b lent v s' := by
  obtain ⟨hmem, hundisturbed, -⟩ := hplain.account h.mem
  exact h.of_purse hp rfl trivial ⟨le_rfl, le_rfl⟩ hmem (h.renews.of_eq (hplain.2.1 hsubscriptions).2)
    (undisturbed_idle (hundisturbed hplan) h.idle)

/-- **An operation that somebody else has signed.** -/
theorem Settled.performs (h : Settled a b lent v s) (hkey : a ∉ Config.keyless) (hQ : ∀ o, Q o → a ∉ o.signer)
    (hs : Performs names Q a s c s') : Settled a b lent v s' := by
  cases hs with
  | @operation _ loc o hQo ho =>
      have hother := hQ o hQo
      have hplain : Plain o.touches s s' := evaluate_plain (.refl s) (fun _ hm => hm) _ ho
      obtain ⟨hmem, hundisturbed, -⟩ := hplain.account h.mem
      have hplan : ¬o.touches (.plan a) := by
        intro hT
        cases o with
        | withdrawVesting account shares =>
            cases hT
            exact hother rfl
        | _ => cases hT
      exact h.of_purse (evaluate_purse h.watched (fun _ => hother) (fun _ => hkey) s' ho) rfl trivial ⟨le_rfl, le_rfl⟩ hmem
        (evaluate_renews ho h.renews hother) (undisturbed_idle (hundisturbed hplan) h.idle)

/-- **A step of the node** in which the account signs nothing. -/
theorem Settled.passes (h : Settled a b lent v s) (hwalk : Walk names s) (hfork : s.hasHardfork 4 = true)
    (hkey : a ∉ Config.keyless) (hs : Passes names (fun o => a ∉ o.signer) a s c s') : Settled a b lent v s' := by
  obtain ⟨ps, hdealt⟩ := hwalk.dealt
  have hguard : Guarded (fundsWatch a s.time b lent) s := ⟨hkey, h.renews, hdealt.honoured.fund, hfork⟩
  have hkept := hs.purse (w := fundsWatch a s.time b lent) h.watched fun _ => hguard
  -- the parts of a block that touch nothing of the account
  have hplainly : ∀ {T : Matter → Prop}, Plain T s s' → ¬T (.plan a) → ¬T .subscriptions →
      Purse (fundsWatch a s.time b lent) s' → Settled a b lent v s' := fun hp h₁ h₂ hpurse => h.of_plain hpurse hp h₁ h₂
  rcases hkept with hops | ⟨head, hlater, rfl, rfl⟩ | ⟨hpurse, rfl⟩
  · exact hops.keeps h fun hu hstep => hu.performs hkey (fun o ho => ho.2) hstep
  · exact ⟨h.mem, h.returning, h.renews, h.idle, h.funds, h.shares⟩
  cases hs with
  | transaction hops => exact hops.keeps h fun hu hstep => hu.performs hkey (fun o ho => ho.2) hstep
  | moveHead head hlater => exact ⟨h.mem, h.returning, h.renews, h.idle, h.funds, h.shares⟩
  | withdrawFrom hturn =>
      rename_i name
      have hplain : Plain (· = .plan name) s s' := withdrawFrom_plain (T := (· = .plan name)) (.refl s) rfl _ hturn
      by_cases hn : name = a
      · subst hn
        have hrenews := h.renews.of_eq (hplain.2.1 nofun).2
        exact h.of_purse hpurse rfl trivial ⟨le_rfl, le_rfl⟩ (hplain.account h.mem).1 hrenews
          (withdrawFrom_idle hturn hwalk.upright h.idle)
      · exact hplainly hplain (fun he => hn (Matter.plan.inj he).symm) nofun hpurse
  | emptyAccounts hempty =>
      have hplain : Plain (fun m => ∃ k ∈ Config.keyless, m = .plan k) s s' :=
        emptyAccounts_plain (.refl s) (fun k hk => ⟨k, hk, rfl⟩) _ hempty
      refine hplainly hplain ?_ (fun ⟨_, _, he⟩ => nomatch he) hpurse
      rintro ⟨k, hk, he⟩
      exact hkey (Matter.plan.inj he ▸ hk)
  | paidSubscribeProcessing hpaid =>
      have hplain : Plain (· = .subscriptions) s s' :=
        paidSubscribeProcessing_plain (T := (· = .subscriptions)) (.refl s) rfl _ hpaid
      have hrenews := (paidSubscribeProcessing_purse h.watched (fun _ => h.renews) s' hpaid).2 trivial
      obtain ⟨hmem, hundisturbed, -⟩ := hplain.account h.mem
      exact h.of_purse hpurse rfl trivial ⟨le_rfl, le_rfl⟩ hmem hrenews (undisturbed_idle (hundisturbed nofun) h.idle)
  | clearExpired hx => exact hplainly (@Act.clearExpired names _ _ hx).plain nofun nofun hpurse
  | processRewards hx => exact hplainly (@Act.processRewards names _ _ hx).plain nofun nofun hpurse
  | cashoutContent hx => exact hplainly (@Act.cashoutContent names _ _ _ hx).plain nofun nofun hpurse
  | accountRecoveryProcessing => exact hplainly (@Act.accountRecoveryProcessing names s).plain id id hpurse
  | expireEscrowRatification hx => exact hplainly (@Act.expireEscrowRatification names _ _ hx).plain id id hpurse
  | accountOnAuctionExpiration hx =>
      exact hplainly (@Act.accountOnAuctionExpiration names _ _ hx).plain (fun ⟨_, he⟩ => nomatch he)
        (fun ⟨_, he⟩ => nomatch he) hpurse
  | committeeProcessing hx => exact hplainly (@Act.committeeProcessing names _ _ hx).plain nofun nofun hpurse
  | aside hbank hplain => exact hplainly hplain id id hpurse

end Runs

end OwnFunds

end Ledger

end VizNode
