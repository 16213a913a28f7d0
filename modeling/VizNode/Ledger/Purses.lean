import VizNode.Ledger.Walks
import VizNode.Ledger.Awards

/-!
# `VizNode.Ledger.Purses` — the tokens and the energy of one account

What an account has is its own. Tokens leave it, and shares are lent out of it, by the operations it signs; all that
others do can only bring more. Its energy is spent by its awards and grows back with the time; what the chain itself does
to it, when shares are lent, taken back or withdrawn, only lowers it.

**One account is watched.** A `Watch` says what it has at least and what energy it has at most, and `Purse w s` that the
ledger is within the watch. The proofs follow the programs, by the rules of `Prog.Returns`. Either half of a watch can be
left out, so that the same walk serves both.

## Contents
- **Vigour.** The energy of an account at a time, without rounding.
- **Watches.** `Rested`, `Watch`, `Purse`.
- **Shares and votes**, **Accounts and transfers**, **Services**, **Awards**, **Sales**: the evaluators.
- **Operations.** `Operation.energyUsed`, `evaluate_purse`.
- **Blocks.** The parts of a block.
-/

namespace VizNode

namespace Ledger

open Prog (Returns)

variable {s s' : Ledger} {names : Names} {name : AccountName} {x : Int} {r r' : Account} {t t' : Nat}

/-! ## Vigour -/

/-- **The energy of an account at a time**, in parts of which a second brings `CHAIN_100_PERCENT` and an energy has
    `CHAIN_ENERGY_REGENERATION_SECONDS`. -/
def vigour (r : Account) (t : Nat) : Int :=
  min (Config.energyRegenerationSeconds * r.energy + Config.hundredPercent * ((t : Int) - r.lastVoteTime))
    (Config.energyRegenerationSeconds * Config.hundredPercent)

/-- All the energy there is. -/
def fullVigour : Int := Config.energyRegenerationSeconds * Config.hundredPercent

theorem vigour_le_full : vigour r t ≤ fullVigour := min_le_right _ _

/-- **The energy the code counts** is the vigour, rounded down. -/
theorem currentEnergy_le_vigour (h : r.lastVoteTime ≤ t) :
    Config.energyRegenerationSeconds * r.currentEnergy t ≤ vigour r t := by
  have hpos : (0 : Int) < Config.energyRegenerationSeconds := by decide
  have helapsed : (0 : Int) ≤ Config.hundredPercent * ((t : Int) - r.lastVoteTime) := by
    refine mul_nonneg (by decide) ?_
    omega
  unfold Account.currentEnergy vigour
  dsimp only
  rw [Int.tdiv_eq_ediv_of_nonneg helapsed]
  have hround := Int.mul_ediv_self_le (x := (Config.hundredPercent : Int) * ((t : Int) - r.lastVoteTime)) hpos.ne'
  refine le_min ?_ ?_
  · calc (Config.energyRegenerationSeconds : Int) * min (r.energy + _) Config.hundredPercent
        ≤ Config.energyRegenerationSeconds * (r.energy + _) := mul_le_mul_of_nonneg_left (min_le_left _ _) hpos.le
      _ ≤ _ := by
          rw [mul_add]
          exact Int.add_le_add_left hround _
  · exact mul_le_mul_of_nonneg_left (min_le_right _ _) hpos.le

/-! ## Watches -/

/-- **An account has no more vigour than `x`**, was last heard of in the past, and is not deeper in debt than allowed. -/
structure Rested (x : Int) (t : Nat) (r : Account) : Prop where
  past  : r.lastVoteTime ≤ t
  least : -Config.hundredPercent ≤ r.energy
  most  : vigour r t ≤ x

namespace Rested

/-- Only the energy and its date count. -/
theorem of_eq (h : Rested x t r) (he : (r'.energy, r'.lastVoteTime) = (r.energy, r.lastVoteTime)) : Rested x t r' := by
  obtain ⟨henergy, hlast⟩ := Prod.mk.inj he
  refine ⟨hlast ▸ h.past, henergy ▸ h.least, ?_⟩
  unfold vigour
  rw [henergy, hlast]
  exact h.most

theorem mono {y : Int} (h : Rested x t r) (hxy : x ≤ y) : Rested y t r := ⟨h.past, h.least, h.most.trans hxy⟩

/-- **A new account** has all its energy. -/
theorem fresh (he : r.energy = Config.hundredPercent) (hlast : r.lastVoteTime ≤ t) : Rested fullVigour t r := by
  refine ⟨hlast, ?_, vigour_le_full⟩
  rw [he]
  decide

/-- The energy is set anew, to no more than some part of the vigour. -/
theorem reset (henergy : Config.energyRegenerationSeconds * r'.energy ≤ x) (hleast : -Config.hundredPercent ≤ r'.energy)
    (hlast : r'.lastVoteTime = t) : Rested x t r' := by
  refine ⟨hlast.le, hleast, (min_le_left _ _).trans ?_⟩
  rw [hlast, sub_self, mul_zero, add_zero]
  exact henergy

/-- **So much of it is spent.** -/
theorem spend {c : Int} (h : Rested x t r) (hc : c ≤ r.currentEnergy t + 1) (he : r'.energy = r.currentEnergy t - c)
    (hlast : r'.lastVoteTime = t) : Rested (x - Config.energyRegenerationSeconds * c) t r' := by
  refine reset ?_ ?_ hlast
  · have hle := (currentEnergy_le_vigour h.past).trans h.most
    rw [he, mul_sub]
    exact Int.sub_le_sub_right hle _
  · have hwhole : (0 : Int) < Config.hundredPercent := by decide
    omega

/-- **`shares_sender_recalc_energy`** takes energy, down to the debt that is allowed. -/
theorem recalc {cost : Int} (h : Rested x t r) (hcost : 0 ≤ cost)
    (he : r'.energy = max (r.currentEnergy t - cost) (-Config.hundredPercent)) (hlast : r'.lastVoteTime = t) :
    Rested x t r' := by
  refine reset ?_ (he ▸ le_max_right _ _) hlast
  rw [he]
  have hpos : (0 : Int) ≤ Config.energyRegenerationSeconds := by decide
  have hle := (currentEnergy_le_vigour h.past).trans h.most
  rw [mul_max_of_nonneg _ _ hpos]
  refine max_le ?_ ?_
  · exact (mul_le_mul_of_nonneg_left (Int.sub_le_self _ hcost) hpos).trans hle
  · -- a debt that is not deeper than the one allowed
    refine le_trans ?_ h.most
    unfold vigour
    have helapsed : (0 : Int) ≤ Config.hundredPercent * ((t : Int) - r.lastVoteTime) := by
      refine mul_nonneg (by decide) ?_
      have := h.past
      omega
    refine le_min ?_ (by decide)
    exact (mul_le_mul_of_nonneg_left h.least hpos).trans (Int.le_add_of_nonneg_right helapsed)

/-- **Time brings energy.** -/
theorem later (h : Rested x t r) (ht : t ≤ t') : Rested (x + Config.hundredPercent * ((t' : Int) - t)) t' r := by
  refine ⟨h.past.trans ht, h.least, ?_⟩
  refine le_trans ?_ (Int.add_le_add_right h.most _)
  have hmore : (0 : Int) ≤ Config.hundredPercent * ((t' : Int) - t) := by
    refine mul_nonneg (by decide) ?_
    omega
  unfold vigour
  rw [min_add]
  refine min_le_min ?_ (Int.le_add_of_nonneg_right hmore)
  rw [add_assoc, ← mul_add]
  refine le_of_eq (congrArg _ (congrArg _ ?_))
  omega

end Rested

/-- **What is watched**: an account, its tokens and the shares it lends when `owns`, its vigour when `rests`. -/
structure Watch where
  name   : AccountName
  time   : Nat
  rests  : Prop
  most   : Int
  owns   : Prop
  tokens : Int
  lent   : Int

namespace Watch

/-- A row within the watch. -/
def Fits (w : Watch) (r : Account) : Prop :=
  (w.rests → Rested w.most w.time r) ∧ (w.owns → w.tokens ≤ r.balance ∧ r.delegatedVestingShares ≤ w.lent)

/-- So much energy is spent. -/
def less (w : Watch) (c : Int) : Watch := { w with most := w.most - Config.energyRegenerationSeconds * c }

@[simp] theorem less_zero (w : Watch) : w.less 0 = w := by
  unfold less
  rw [mul_zero, sub_zero]

end Watch

/-- **The ledger is within the watch.** No delegation on its way back is below zero; an account that is not there yet has
    nothing, and all its energy before it. -/
def Purse (w : Watch) (s : Ledger) : Prop :=
  s.time = w.time ∧ (∀ e ∈ s.expirations, 0 ≤ e.vestingShares) ∧
    (w.name ∉ s.accounts.keys → ¬w.owns ∧ fullVigour ≤ w.most) ∧
    (w.name ∈ s.accounts.keys → w.Fits (s.accounts.row w.name))

/-- What of an account the watch is about. -/
def purse (r : Account) : (Int × Int) × Int × Nat :=
  ((r.balance, r.delegatedVestingShares), r.energy, r.lastVoteTime)

variable {w : Watch} {f : Account → Account}

theorem Watch.Fits.of_eq (h : w.Fits r) (hp : purse r' = purse r) : w.Fits r' := by
  obtain ⟨hown, hrest⟩ := Prod.mk.inj hp
  obtain ⟨hbalance, hlent⟩ := Prod.mk.inj hown
  refine ⟨fun hr => (h.1 hr).of_eq hrest, fun ho => ?_⟩
  rw [hbalance, hlent]
  exact h.2 ho

namespace Purse

/-- A change of an account. -/
theorem modify (h : Purse w s)
    (hf : w.name = name → name ∈ s.accounts.keys → w.Fits (s.accounts.row name) → w.Fits (f (s.accounts.row name))) :
    Purse w (s.modifyAccount name f) := by
  refine ⟨h.1, h.2.1, h.2.2.1, fun hmem => ?_⟩
  have hfits := h.2.2.2 hmem
  show w.Fits ((s.accounts.modify name f).row w.name)
  by_cases hn : w.name = name
  · rw [hn, Table.modify_row_self]
    exact hf hn (hn ▸ hmem) (hn ▸ hfits)
  · rw [Table.modify_row_of_ne hn]
    exact hfits

/-- A change that the watch does not see. -/
theorem keep (h : Purse w s) (hf : ∀ r, purse (f r) = purse r) : Purse w (s.modifyAccount name f) :=
  h.modify fun _ _ hfits => hfits.of_eq (hf _)

/-- Tokens come, or they are another's. -/
theorem pay (h : Purse w s) (hx : w.owns → w.name = name → 0 ≤ x)
    (hf : ∀ r, purse (f r) = ((r.balance + x, r.delegatedVestingShares), r.energy, r.lastVoteTime)) :
    Purse w (s.modifyAccount name f) := by
  refine h.modify fun hn _ hfits => ?_
  have hp := hf (s.accounts.row name)
  refine ⟨fun hr => (hfits.1 hr).of_eq (congrArg (fun p => p.2) hp), fun ho => ?_⟩
  obtain ⟨hle, hlent⟩ := hfits.2 ho
  have hbalance : (f (s.accounts.row name)).balance = _ := congrArg (fun p => p.1.1) hp
  have hdelegated : (f (s.accounts.row name)).delegatedVestingShares = _ := congrArg (fun p => p.1.2) hp
  rw [hbalance, hdelegated]
  exact ⟨hle.trans (Int.le_add_of_nonneg_right (hx ho hn)), hlent⟩

/-- Shares come back, or they are another's. -/
theorem lend (h : Purse w s) (hx : w.owns → w.name = name → x ≤ 0)
    (hf : ∀ r, purse (f r) = ((r.balance, r.delegatedVestingShares + x), r.energy, r.lastVoteTime)) :
    Purse w (s.modifyAccount name f) := by
  refine h.modify fun hn _ hfits => ?_
  have hp := hf (s.accounts.row name)
  refine ⟨fun hr => (hfits.1 hr).of_eq (congrArg (fun p => p.2) hp), fun ho => ?_⟩
  obtain ⟨hle, hlent⟩ := hfits.2 ho
  have hbalance : (f (s.accounts.row name)).balance = _ := congrArg (fun p => p.1.1) hp
  have hdelegated : (f (s.accounts.row name)).delegatedVestingShares = _ := congrArg (fun p => p.1.2) hp
  rw [hbalance, hdelegated]
  refine ⟨hle, le_trans ?_ hlent⟩
  exact add_le_of_nonpos_right (hx ho hn)

theorem adjustBalance (h : Purse w s) (hx : w.owns → w.name = name → 0 ≤ x) : Purse w (s.adjustBalance name x) :=
  h.pay hx fun _ => rfl

/-- What an account has not signed for is not its own payment. -/
theorem debit (h : Purse w s) (hown : w.owns → w.name ≠ name) : Purse w (s.adjustBalance name x) :=
  h.adjustBalance fun ho hn => absurd hn (hown ho)

theorem credit (h : Purse w s) {n : Nat} : Purse w (s.adjustBalance name n) :=
  h.adjustBalance fun _ _ => Int.natCast_nonneg n

theorem recalcEnergy (h : Purse w s) (hx : 0 ≤ x) : Purse w (s.sharesSenderRecalcEnergy name x) := by
  refine h.modify fun _ _ hfits => ?_
  by_cases hpos : 0 < (s.accounts.row name).effectiveVestingShares
  · rw [if_pos hpos]
    refine ⟨fun hr => ?_, hfits.2⟩
    have hcost : 0 ≤ (Config.hundredPercent * x).tdiv (s.accounts.row name).effectiveVestingShares :=
      Int.tdiv_nonneg (mul_nonneg (by decide) hx) hpos.le
    rw [h.1]
    exact (hfits.1 hr).recalc hcost rfl rfl
  · rw [if_neg hpos]
    exact hfits

/-- **Energy is spent.** -/
theorem spend {c : Int} (h : Purse w s) (hmem : name ∈ s.accounts.keys)
    (hc : c ≤ (s.accounts.row name).currentEnergy s.time + 1) :
    Purse (w.less (if name = w.name then c else 0))
      (s.spendEnergy name ((s.accounts.row name).currentEnergy s.time - c)) := by
  by_cases hn : name = w.name
  · rw [if_pos hn]
    refine ⟨h.1, h.2.1, fun hno => absurd (hn ▸ hmem) hno, fun _ => ?_⟩
    obtain ⟨hrests, howns⟩ := h.2.2.2 (hn ▸ hmem)
    show (w.less c).Fits ((s.accounts.modify name (fun r =>
      { r with
        energy       := (s.accounts.row name).currentEnergy s.time - c
        lastVoteTime := s.time
        voteCount    := r.voteCount + 1 })).row w.name)
    rw [← hn, Table.modify_row_self]
    rw [← hn] at hrests howns
    refine ⟨fun hr => ?_, howns⟩
    rw [h.1] at hc ⊢
    exact (hrests hr).spend hc rfl rfl
  · rw [if_neg hn, Watch.less_zero]
    exact h.modify fun hn' => absurd hn'.symm hn

end Purse

/-- **A new account.** If it is the one that is watched, it begins with all its energy. -/
theorem createAccount_purse (h : Purse w s) {auth : AccountAuthority} (he : r.energy = Config.hundredPercent)
    (hlast : r.lastVoteTime ≤ s.time) : Returns (Purse w) (s.createAccount name r auth) := by
  unfold createAccount
  refine .ite (fun _ => .error _) (fun hnew => .ok ?_)
  have hkeys : w.name ∈ (s.accounts.insert name r).keys ↔ w.name ∈ s.accounts.keys ∨ w.name = name :=
    Table.mem_insert_keys hnew
  refine ⟨h.1, h.2.1, fun hno => h.2.2.1 fun hmem => hno (hkeys.mpr (.inl hmem)), fun hmem => ?_⟩
  show w.Fits ((s.accounts.insert name r).row w.name)
  by_cases hn : w.name = name
  · rw [hn, Table.insert_row_self hnew]
    obtain ⟨hfree, hfull⟩ := h.2.2.1 (hn ▸ hnew)
    rw [h.1] at hlast
    exact ⟨fun _ => (Rested.fresh he hlast).mono hfull, fun ho => absurd ho hfree⟩
  · rw [Table.insert_row_of_ne hn]
    exact h.2.2.2 ((hkeys.mp hmem).resolve_right hn)

/-! ## Shares and votes -/

section Shares

theorem adjustEach_purse (h : Purse w s) : Returns (Purse w) (s.adjustEach name x) := by
  refine .foldlM (fun s₁ v h₁ => ?_) h
  unfold adjustValidatorVote
  exact .after fun _ _ => .after fun _ _ => .pure h₁

theorem adjustValidatorVotes_purse (h : Purse w s) : Returns (Purse w) (s.adjustValidatorVotes name x) := by
  unfold adjustValidatorVotes
  refine .after fun _ _ => .ite (fun _ => .ite (fun _ => ?_) (fun _ => .pure h)) (fun _ => adjustEach_purse h)
  exact adjustEach_purse (h.keep fun _ => rfl)

theorem adjustProxiedFrom_purse {delta : Nat → Int} {left : Nat} (h : Purse w s) :
    Returns (Purse w) (adjustProxiedFrom delta left name s) := by
  induction left generalizing name s with
  | zero =>
      unfold adjustProxiedFrom
      exact .after fun _ _ => .ite (fun _ => .pure h) (fun _ => adjustValidatorVotes_purse h)
  | succ left ih =>
      unfold adjustProxiedFrom
      refine .after fun _ _ => .ite (fun _ => .after fun _ _ => ?_) (fun _ => adjustValidatorVotes_purse h)
      exact ih (h.keep fun _ => rfl)

theorem adjustProxiedBy_purse {left : Nat} (h : Purse w s) : Returns (Purse w) (adjustProxiedBy x left name s) := by
  induction left generalizing name s with
  | zero =>
      unfold adjustProxiedBy
      exact .after fun _ _ => .ite (fun _ => .pure h) (fun _ => adjustValidatorVotes_purse h)
  | succ left ih =>
      unfold adjustProxiedBy
      refine .after fun _ _ => .ite (fun _ => .after fun _ _ => ?_) (fun _ => adjustValidatorVotes_purse h)
      exact ih (h.keep fun _ => rfl)

theorem createVesting_purse (h : Purse w s) : Returns (Purse w) (s.createVesting name x) := by
  unfold createVesting
  refine .after fun y _ => .after fun _ _ => adjustProxiedBy_purse ?_
  have hgained : Purse w (s.modifyAccount name (fun r => { r with vestingShares := r.vestingShares + y })) :=
    h.keep fun _ => rfl
  exact hgained

theorem transferToVesting_purse {to_ : AccountName} {amount : Nat} (h : Purse w s) (hown : w.owns → w.name ≠ name) :
    Returns (Purse w) (s.transferToVesting name to_ amount) := by
  unfold transferToVesting
  exact .after fun _ _ => .after fun _ _ => .after fun _ _ => .after fun _ _ => createVesting_purse (h.debit hown)

theorem withdrawVesting_purse {shares : Nat} (h : Purse w s) : Returns (Purse w) (s.withdrawVesting name shares) := by
  unfold withdrawVesting
  refine .after fun _ _ => .after fun _ _ => .after fun _ _ => .ite (fun _ => .pure (h.keep fun _ => rfl)) (fun _ => ?_)
  exact .after fun _ _ => .pure (h.keep fun _ => rfl)

theorem setWithdrawVestingRoute_purse {o : SetWithdrawVestingRoute} (h : Purse w s) :
    Returns (Purse w) (s.setWithdrawVestingRoute o) := by
  unfold setWithdrawVestingRoute
  refine .after fun _ _ => .after fun _ _ => .after fun _ _ => ?_
  have hroutes : ∀ y : Table (AccountName × AccountName) Route, Purse w { s with routes := y } := fun _ => h
  have hrest : ∀ s₁, Purse w s₁ → Returns (Purse w) (do
      let s₂ ← pure s₁
      require (s₂.routesWithin o.fromAccount) .routesAboveHundred
      return s₂) := fun _ h₁ => .bind (.pure h₁) fun _ h₂ => .after fun _ _ => .pure h₂
  dsimp only
  cases s.routes.find (o.fromAccount, o.toAccount) with
  | none => exact .after fun _ _ => .after fun _ _ => hrest _ ((hroutes _).keep fun _ => rfl)
  | some _ => exact .ite (fun _ => hrest _ ((hroutes _).keep fun _ => rfl)) (fun _ => hrest _ (hroutes _))

theorem delegateVestingShares_purse {delegatee : AccountName} {shares : Nat} (h : Purse w s)
    (hown : w.owns → w.name ≠ name) : Returns (Purse w) (s.delegateVestingShares name delegatee shares) := by
  unfold delegateVestingShares
  refine .after fun _ _ => .after fun _ _ => .after fun _ _ => .after fun _ _ => .after fun _ _ => ?_
  have hreceived : ∀ (u : Ledger) (y : Int), Purse w u → Purse w (u.modifyAccount delegatee
      (fun r => { r with receivedVestingShares := r.receivedVestingShares + y })) := fun _ _ hu => hu.keep fun _ => rfl
  have hrest : ∀ (u : Ledger) (y : Int), Purse w u → ∀ (c c' : Prop) [Decidable c] [Decidable c'], Returns (Purse w)
      (if c then pure (u.modifyAccount delegatee (fun r => { r with receivedVestingShares := r.receivedVestingShares + y }))
        else if c' then pure { u.modifyAccount delegatee
            (fun r => { r with receivedVestingShares := r.receivedVestingShares + y }) with
          delegations := u.delegations.modify (name, delegatee) (fun d => { d with vestingShares := shares }) }
        else pure { u.modifyAccount delegatee
            (fun r => { r with receivedVestingShares := r.receivedVestingShares + y }) with
          delegations := u.delegations.erase (name, delegatee) } : Result Ledger) := by
    intro u y hu c c' _ _
    exact .ite (fun _ => .pure (hreceived u y hu))
      (fun _ => .ite (fun _ => .pure (hreceived u y hu)) (fun _ => .pure (hreceived u y hu)))
  dsimp only
  refine .ite (fun hpos => ?_) (fun hneg => ?_)
  · refine .after fun _ _ => .after fun _ _ => .after fun _ _ => .bind (.pure (Q := Purse w) ?_) fun s₁ h₁ => ?_
    · -- what is lent is the signer's
      refine Purse.lend (Purse.recalcEnergy ?_ hpos.le) (fun ho hn => absurd hn (hown ho)) fun _ => rfl
      split
      · exact h
      · exact h
    · exact hrest s₁ _ h₁ _ _
  · refine .after fun _ _ => .bind (.pure (Q := Purse w) ?_) fun s₁ h₁ => hrest s₁ _ h₁ _ _
    refine ⟨h.1, fun e he => ?_, h.2.2⟩
    rcases List.mem_append.mp he with he | he
    · exact h.2.1 e he
    · -- what is on its way back was taken back
      rw [List.mem_singleton.mp he]
      show 0 ≤ -_
      omega

theorem accountValidatorProxy_purse {proxy : AccountName} (h : Purse w s) :
    Returns (Purse w) (accountValidatorProxy names s name proxy) := by
  unfold accountValidatorProxy
  refine .after fun _ _ => .after fun _ _ => .after fun _ _ => (adjustProxiedFrom_purse h).bind fun s₁ h₁ => ?_
  refine .ite (fun _ => .after fun _ _ => .after fun _ _ => ?_) (fun _ => .pure (h₁.keep fun _ => rfl))
  have hcleared : Purse w (s₁.clearValidatorVotes name) := by
    have hremoved : Purse w (s₁.removeVotes name) := h₁
    exact hremoved.keep fun _ => rfl
  exact adjustProxiedFrom_purse (hcleared.keep fun _ => rfl)

theorem Purse.setVote {validator : AccountName} {approve : Bool} (h : Purse w s) :
    Purse w (s.setVote name validator approve) := by
  have hvotes : ∀ v : Table (AccountName × AccountName) Nat, Purse w { s with votes := v } := fun _ => h
  exact (hvotes _).keep fun _ => rfl

theorem revote_purse {validator : AccountName} {approve : Bool} (h : Purse w s) :
    Returns (Purse w) (s.revote name validator approve) := by
  unfold revote
  refine .after fun _ _ => .ite (fun _ => ?_) (fun _ => .ite (fun _ => ?_) (fun _ => ?_))
  · exact (adjustEach_purse h).bind fun _ h₁ => adjustEach_purse (h₁.setVote.keep fun _ => rfl)
  · exact (adjustEach_purse h).bind fun _ h₁ => adjustEach_purse h₁.setVote
  · unfold adjustValidatorVote
    refine .bind (.after fun _ _ => .after fun _ _ => .pure (Q := Purse w) h) fun _ h₁ => .pure h₁.setVote

theorem accountValidatorVote_purse {validator : AccountName} {approve : Bool} (h : Purse w s) :
    Returns (Purse w) (s.accountValidatorVote name validator approve) := by
  unfold accountValidatorVote
  refine .after fun _ _ => .after fun _ _ => .ite (fun _ => ?_) (fun _ => .bind (.pure h) ?_)
  · refine (adjustProxiedFrom_purse h).bind fun s₁ h₁ => .bind (.pure (h₁.keep fun _ => rfl)) fun s₂ h₂ => ?_
    refine .after fun _ _ => .ite (fun _ => .after fun _ _ => revote_purse h₂) (fun _ => ?_)
    exact .after fun _ _ => .after fun _ _ => revote_purse h₂
  · intro s₂ h₂
    refine .after fun _ _ => .ite (fun _ => .after fun _ _ => revote_purse h₂) (fun _ => ?_)
    exact .after fun _ _ => .after fun _ _ => revote_purse h₂

end Shares

/-! ## Accounts and transfers -/

section Accounts

theorem accountCreate_purse {o : AccountCreate} (h : Purse w s) (hown : w.owns → w.name ≠ o.creator) :
    Returns (Purse w) (accountCreate names s o) := by
  unfold accountCreate
  refine .after fun _ _ => .after fun _ _ => .after fun _ _ => .after fun _ _ => .after fun _ _ => ?_
  refine .after fun _ _ => .after fun _ _ => .after fun _ _ => .after fun _ _ => .after fun _ _ => ?_
  have hrecalced : Purse w (s.sharesSenderRecalcEnergy o.creator o.delegation) := h.recalcEnergy (Int.natCast_nonneg _)
  refine .after fun _ _ => .after fun _ _ => (createAccount_purse (w := w) (hrecalced.modify fun hn _ hfits => ?_) rfl
    le_rfl).bind fun s₁ h₁ => ?_
  · -- the creator pays and lends
    exact ⟨fun hr => (hfits.1 hr).of_eq rfl, fun ho => absurd hn (hown ho)⟩
  have hvested : ∀ s₂, Purse w s₂ → Returns (Purse w)
      (if 0 < o.fee then s₂.createVesting o.newAccountName o.fee else pure s₂) :=
    fun _ h₂ => .ite (fun _ => createVesting_purse h₂) (fun _ => .pure h₂)
  refine .ite (fun _ => .bind ?_ hvested) (fun _ => .bind (.pure h₁) hvested)
  unfold createDelegation
  exact .ite (fun _ => .error _) (fun _ => .ok h₁)

theorem Purse.updateMaster {master : Authority} (h : Purse w s) : Purse w (s.updateMasterAuthority name master) := h

theorem accountUpdate_purse {o : AccountUpdate} (h : Purse w s) : Returns (Purse w) (accountUpdate names s o) := by
  unfold accountUpdate
  refine .after fun _ _ => .after fun _ _ => .after fun _ _ => ?_
  have hrest : ∀ (s₁ : Ledger) (y : Table AccountName AccountAuthority), Purse w s₁ →
      Purse w { s₁.modifyAccount o.account (fun r =>
        { r with
          memoKey           := if o.memoKey ≠ 0 then o.memoKey else r.memoKey
          lastAccountUpdate := s₁.time }) with authorities := y } := by
    intro s₁ y h₁
    have hkey : Purse w (s₁.modifyAccount o.account (fun r =>
        { r with
          memoKey           := if o.memoKey ≠ 0 then o.memoKey else r.memoKey
          lastAccountUpdate := s₁.time })) := h₁.keep fun _ => rfl
    exact hkey
  cases o.master with
  | none => exact .bind (.pure h) fun s₁ h₁ => .after fun _ _ => .after fun _ _ => .pure (hrest s₁ _ h₁)
  | some master =>
      refine .after fun _ _ => .after fun _ _ => .bind (.pure h.updateMaster) fun s₁ h₁ => ?_
      exact .after fun _ _ => .after fun _ _ => .pure (hrest s₁ _ h₁)

theorem requestAccountRecovery_purse {top partner account : AccountName} {master : Authority} (h : Purse w s) :
    Returns (Purse w) (s.requestAccountRecovery top partner account master) := by
  unfold requestAccountRecovery
  refine .after fun _ _ => .after fun _ _ => ?_
  dsimp only
  cases s.recoveryRequests.find account with
  | none => exact .after fun _ _ => .after fun _ _ => .after fun _ _ => .pure h
  | some q => exact .ite (fun _ => .pure h) (fun _ => .after fun _ _ => .after fun _ _ => .pure h)

theorem recoverAccount_purse {account : AccountName} {newMaster recent : Authority} (h : Purse w s) :
    Returns (Purse w) (s.recoverAccount account newMaster recent) := by
  unfold recoverAccount
  refine .after fun _ _ => .after fun _ _ => .after fun _ _ => .after fun _ _ => .after fun _ _ => .pure ?_
  have hdropped : Purse w { s with recoveryRequests := s.recoveryRequests.erase account } := h
  refine hdropped.updateMaster.keep fun r => ?_
  split
  · rfl
  · rfl

theorem createFromMemo_purse {m : Memo} {amount : Nat} (h : Purse w s)
    (hkey : w.owns → w.name ≠ Config.anonymousAccount) : Returns (Purse w) (createFromMemo names s m amount) := by
  unfold createFromMemo
  refine .after ?_
  rintro ⟨login, valid, num⟩ -
  refine .after fun _ _ => ?_
  have hnum : Purse w { s with anonymousNum := num } := h
  exact (createAccount_purse hnum rfl le_rfl).bind fun _ h₁ => createVesting_purse (h₁.debit hkey)

theorem transfer_purse {o : Transfer} (h : Purse w s) (hown : w.owns → w.name ≠ o.from_)
    (hkey : w.owns → w.name ∉ Config.keyless) : Returns (Purse w) (transfer names s o) := by
  unfold transfer
  refine .after fun _ _ => .after fun _ _ => .after fun _ _ => .after fun _ _ => ?_
  have hmoved : Purse w ((s.adjustBalance o.from_ (-o.amount)).adjustBalance o.to_ o.amount) := (h.debit hown).credit
  refine .ite (fun _ => .after fun _ _ => ?_) (fun _ => .pure hmoved)
  cases o.memo with
  | none => exact .pure hmoved
  | some m => exact createFromMemo_purse hmoved fun ho hn => hkey ho (hn ▸ by decide)

theorem escrowTransfer_purse {o : EscrowTransfer} (h : Purse w s) (hown : w.owns → w.name ≠ o.from_) :
    Returns (Purse w) (s.escrowTransfer o) := by
  unfold escrowTransfer
  refine .after fun _ _ => .after fun _ _ => .after fun _ _ => .after fun _ _ => .after fun _ _ => ?_
  refine .after fun _ _ => .after fun _ _ => .pure ?_
  have hpaid : Purse w (s.adjustBalance o.from_ (-(o.tokenAmount + o.fee : Nat))) := h.debit hown
  exact hpaid

theorem escrowApprove_purse {o : EscrowApprove} (h : Purse w s) : Returns (Purse w) (s.escrowApprove o) := by
  unfold escrowApprove
  refine .after fun _ _ => .after fun e _ => .after fun _ _ => .after fun _ _ => .after fun _ _ => ?_
  refine .after fun _ _ => .ite (fun _ => .after fun _ _ => .pure ?_) (fun _ => ?_)
  · have hback : Purse w ((s.adjustBalance o.from_ e.tokenBalance).adjustBalance o.from_ e.pendingFee) := h.credit.credit
    exact hback
  · have hescrows : ∀ (u : Ledger) (y : Table (AccountName × Nat) Escrow), Purse w u → Purse w { u with escrows := y } :=
      fun _ _ hu => hu
    refine .ite (fun _ => .after fun _ _ => ?_) (fun _ => ?_)
    · exact .bind (.pure h.credit) fun _ h₁ => .pure (hescrows _ _ h₁)
    · exact .bind (.pure h) fun _ h₁ => .pure (hescrows _ _ h₁)

theorem escrowDispute_purse {from_ to_ agent who : AccountName} {id : Nat} (h : Purse w s) :
    Returns (Purse w) (s.escrowDispute from_ to_ agent who id) := by
  unfold escrowDispute
  refine .after fun _ _ => .after fun _ _ => .after fun _ _ => .after fun _ _ => .after fun _ _ => ?_
  exact .after fun _ _ => .after fun _ _ => .pure h

theorem escrowRelease_purse {o : EscrowRelease} (h : Purse w s) : Returns (Purse w) (s.escrowRelease o) := by
  unfold escrowRelease
  refine .after fun _ _ => .after fun _ _ => .after fun _ _ => .after fun _ _ => .after fun _ _ => ?_
  refine .after fun _ _ => .after fun _ _ => .after fun _ _ => .after fun _ _ => ?_
  have hpaid : Purse w (s.adjustBalance o.receiver o.tokenAmount) := h.credit
  exact .ite (fun _ => .pure hpaid) (fun _ => .pure hpaid)

end Accounts

/-! ## Services -/

section Services

theorem payFee_purse {fee : Nat} (h : Purse w s) (hown : w.owns → w.name ≠ name) :
    Returns (Purse w) (s.payFee name fee) := by
  unfold payFee
  refine .after fun _ _ => .after fun _ _ => .pure ?_
  have hpaid : Purse w (s.adjustBalance name (-fee)) := h.debit hown
  exact hpaid

theorem validatorUpdate_purse (h : Purse w s) (hown : w.owns → w.name ≠ name) :
    Returns (Purse w) (s.validatorUpdate name) := by
  unfold validatorUpdate
  refine .after fun _ _ => .ite (fun _ => .pure h) (fun _ => .ite (fun _ => ?_) (fun _ => ?_))
  · refine (payFee_purse h hown).bind fun s₁ h₁ => .pure ?_
    exact h₁
  · exact .bind (.pure (Q := Purse w) h) fun s₁ h₁ => .pure h₁

theorem setRewardSharing_purse {rate : Nat} (h : Purse w s) : Returns (Purse w) (s.setRewardSharing name rate) := by
  unfold setRewardSharing
  by_cases hrate : rate ≤ Config.hundredPercent
  · rw [dif_pos hrate]
    exact .after fun _ _ => .after fun _ _ => .after fun _ _ => .pure h
  · rw [dif_neg hrate]
    exact .error _

theorem createInvite_purse {balance : Nat} {key : PublicKey} (h : Purse w s) (hown : w.owns → w.name ≠ name) :
    Returns (Purse w) (s.createInvite name balance key) := by
  unfold createInvite
  refine .after fun _ _ => .after fun _ _ => .after fun _ _ => .after fun _ _ => .after fun _ _ => ?_
  refine .after fun _ _ => .pure ?_
  have hpaid : Purse w (s.adjustBalance name (-balance)) := h.debit hown
  exact hpaid

theorem Purse.closeInvite {key : PublicKey} {status : InviteStatus} (h : Purse w s) :
    Purse w (s.closeInvite key status name) := h

theorem claimInviteBalance_purse {receiver : AccountName} {secret : Option PublicKey} (h : Purse w s) :
    Returns (Purse w) (s.claimInviteBalance name receiver secret) := by
  unfold claimInviteBalance
  refine .after fun _ _ => .after fun _ _ => .after ?_
  rintro ⟨key, i⟩ -
  exact .pure h.credit.closeInvite

theorem inviteRegistration_purse {new : AccountName} {secret : Option PublicKey} {key : PublicKey} (h : Purse w s) :
    Returns (Purse w) (inviteRegistration names s name new secret key) := by
  unfold inviteRegistration
  refine .after fun _ _ => .after fun _ _ => .after ?_
  rintro ⟨invite, i⟩ -
  refine (createAccount_purse h rfl (Nat.zero_le _)).bind fun _ h₁ => (createVesting_purse h₁).bind fun _ h₂ => .pure ?_
  exact h₂.closeInvite

theorem useInviteBalance_purse {receiver : AccountName} {secret : Option PublicKey} (h : Purse w s) :
    Returns (Purse w) (s.useInviteBalance name receiver secret) := by
  unfold useInviteBalance
  refine .after fun _ _ => .after fun _ _ => .after fun _ _ => .after ?_
  rintro ⟨key, i⟩ -
  exact (createVesting_purse h).bind fun _ h₁ => .pure h₁.closeInvite

theorem setPaidSubscription_purse {levels amount period : Nat} (h : Purse w s) (hown : w.owns → w.name ≠ name) :
    Returns (Purse w) (s.setPaidSubscription name levels amount period) := by
  unfold setPaidSubscription
  refine .after fun _ _ => .after fun _ _ => .after fun _ _ => ?_
  dsimp only
  cases s.paidSubscriptions.find name with
  | some _ => exact .pure h
  | none =>
      refine .ite (fun _ => ?_) (fun _ => .bind (.pure (Q := Purse w) h) fun _ h₁ => .pure h₁)
      refine (payFee_purse h hown).bind fun s₁ h₁ => .pure ?_
      exact h₁

/-- What a subscription costs is not below zero. -/
theorem paySubscription_purse {account : AccountName} {cost : Int} (h : Purse w s) (hown : w.owns → w.name ≠ name)
    (hcost : 0 ≤ cost) : Returns (Purse w) (s.paySubscription name account cost) := by
  unfold paySubscription
  exact .after fun _ _ => .after fun _ _ => .after fun _ _ => .pure ((h.debit hown).adjustBalance fun _ _ => hcost)

theorem newSubscription_purse {o : PaidSubscribeOp} (h : Purse w s) (hown : w.owns → w.name ≠ o.subscriber) :
    Returns (Purse w) (s.newSubscription o) := by
  unfold newSubscription
  refine (paySubscription_purse h hown (Int.natCast_nonneg _)).bind fun s₁ h₁ => .pure ?_
  exact h₁

theorem paidSubscribe_purse {o : PaidSubscribeOp} (h : Purse w s) (hown : w.owns → w.name ≠ o.subscriber) :
    Returns (Purse w) (s.paidSubscribe o) := by
  unfold paidSubscribe
  refine .after fun _ _ => .after fun _ _ => .after fun _ _ => .after fun _ _ => .after fun _ _ => ?_
  cases s.paidSubscriptions.find o.account with
  | none => exact .error _
  | some p =>
      refine .after fun _ _ => .after fun _ _ => .after fun _ _ => .after fun _ _ => ?_
      dsimp only
      cases s.paidSubscribes.find (o.subscriber, o.account) with
      | none => exact newSubscription_purse h hown
      | some old =>
          refine .ite (fun _ => .ite (fun _ => .after fun _ _ => .pure h) (fun _ => ?_)) (fun _ => ?_)
          · unfold changeSubscription
            refine .after fun remain _ => .ite (fun _ => .pure h) (fun hmore => ?_)
            refine (paySubscription_purse h hown (by omega)).bind fun s₁ h₁ => .pure ?_
            exact h₁
          · have herased : Purse w { s with paidSubscribes := s.paidSubscribes.erase (o.subscriber, o.account) } := h
            exact newSubscription_purse herased hown

theorem committeeWorkerCreateRequest_purse {o : CommitteeCreateRequest} (h : Purse w s)
    (hown : w.owns → w.name ≠ o.creator) : Returns (Purse w) (s.committeeWorkerCreateRequest o) := by
  unfold committeeWorkerCreateRequest
  refine .after fun _ _ => .after fun _ _ => .after fun _ _ => .after fun _ _ => .after fun _ _ => ?_
  refine .after fun _ _ => .after fun _ _ => ?_
  have hrequested : ∀ (y : Table Nat CommitteeRequest) (n : Nat),
      Purse w { s with committeeRequests := y, committeeRequestCount := n } := fun _ _ => h
  exact .ite (fun _ => payFee_purse (hrequested _ _) hown) (fun _ => .pure (hrequested _ _))

theorem committeeWorkerCancelRequest_purse {id : Nat} (h : Purse w s) :
    Returns (Purse w) (s.committeeWorkerCancelRequest name id) := by
  unfold committeeWorkerCancelRequest
  refine .after fun _ _ => ?_
  cases s.committeeRequests.find id with
  | none => exact .error _
  | some r => exact .after fun _ _ => .after fun _ _ => .pure h

theorem committeeVoteRequest_purse {id : Nat} {percent : Int} (h : Purse w s) :
    Returns (Purse w) (s.committeeVoteRequest name id percent) := by
  unfold committeeVoteRequest
  refine .after fun _ _ => .after fun _ _ => ?_
  cases s.committeeRequests.find id with
  | none => exact .error _
  | some r =>
      refine .after fun _ _ => ?_
      cases s.committeeVotes.find (id, name) with
      | none => exact .pure h
      | some old => exact .after fun _ _ => .pure h

end Services

/-! ## Awards -/

section Awards

theorem payBeneficiary_purse {tokens : Int} {p : Ledger × Int} {b : Beneficiary} (h : Purse w p.1) :
    Returns (fun q : Ledger × Int => Purse w q.1) (payBeneficiary tokens p b) := by
  unfold payBeneficiary
  exact (createVesting_purse h).bind fun _ h₁ => .pure (h₁.keep fun _ => rfl)

theorem payAward_purse {bs : List Beneficiary} {tokens own : Int} (h : Purse w s) :
    Returns (Purse w) (s.payAward name bs tokens own) := by
  unfold payAward
  refine .bind (.foldlM (fun _ _ => payBeneficiary_purse) h) ?_
  rintro ⟨s₁, paid⟩ h₁
  refine .ite (fun _ => ?_) (fun _ => .pure h₁)
  exact (createVesting_purse h₁).bind fun _ h₂ => .pure (h₂.keep fun _ => rfl)

/-- **An award** spends the energy it names. -/
theorem award_purse {producing : Bool} {o : Award} (h : Purse w s) :
    Returns (Purse (w.less (if o.initiator = w.name then o.energy else 0))) (award producing s o) := by
  unfold award
  refine .after fun _ _ => .after fun _ _ => .after fun r hr => .after fun _ _ => .after fun _ hcheck => ?_
  obtain ⟨hmem, rfl⟩ := getAccount_eq_ok.mp hr
  have henergy := (require_eq_ok.mp hcheck).2
  refine .after fun rshares _ => ?_
  have hpaid : ∀ (s₁ : Ledger) (tokens : Int),
      Purse (w.less (if o.initiator = w.name then o.energy else 0))
        (s₁.spendEnergy o.initiator ((s.accounts.row o.initiator).currentEnergy s.time - o.energy)) →
      Returns (Purse (w.less (if o.initiator = w.name then o.energy else 0)))
        (if 0 < tokens then do
          requireIf producing (o.beneficiaries.length ≤ Config.maxCommentBeneficiaries) .validation
          (s₁.spendEnergy o.initiator ((s.accounts.row o.initiator).currentEnergy s.time - o.energy)).payAward
            o.receiver o.beneficiaries tokens tokens
        else pure (s₁.spendEnergy o.initiator ((s.accounts.row o.initiator).currentEnergy s.time - o.energy))) :=
    fun _ _ h₁ => .ite (fun _ => .after fun _ _ => payAward_purse h₁) (fun _ => .pure h₁)
  have hspent := h.spend hmem (c := o.energy) (by omega)
  refine .ite (fun _ => hpaid s 0 hspent) (fun _ => .after ?_)
  rintro ⟨tokens, s₁⟩ hclaim
  unfold claimRshareAward at hclaim
  obtain ⟨payout, -, he⟩ := bind_eq_ok.mp hclaim
  obtain ⟨rfl, rfl⟩ := Prod.mk.inj (pure_eq_ok.mp he)
  exact hpaid _ _ hspent

/-- The energy of a fixed award is within what there is, but for one step. -/
theorem FixedAward.needEnergy_le {o : FixedAward} (hc : o.Checked s) (hle : o.neededRshares s ≤ o.maxRshares s) :
    o.needEnergy s ≤ (s.accounts.row o.initiator).currentEnergy s.time + 1 := by
  have hmax := hc.rshares
  have hlimit := hc.energy.2
  have hpart : o.neededRshares s * o.maxEnergy / o.maxRshares s ≤ o.maxEnergy := by
    refine Int.ediv_le_of_le_mul hmax ?_
    rw [mul_comm]
    exact mul_le_mul_of_nonneg_left hle (Int.natCast_nonneg _)
  unfold FixedAward.needEnergy
  omega

/-- **A fixed award** spends the energy it works out. -/
theorem fixedAward_purse {producing : Bool} {o : FixedAward} (h : Purse w s) :
    Returns (Purse (w.less (if o.initiator = w.name then o.needEnergy s else 0))) (fixedAward producing s o) := by
  intro s' hs'
  rw [fixedAward_eq] at hs'
  obtain ⟨p, hpart, hs'⟩ := bind_eq_ok.mp hs'
  obtain ⟨hc, -, hle, rfl⟩ := fixedAwardPart_eq_ok hpart
  unfold fixedAwardRest at hs'
  dsimp only at hs'
  obtain ⟨counting, -, hs'⟩ := bind_eq_ok.mp hs'
  have hs' : s.fixedAwardPaid producing o ((s.accounts.row o.initiator).currentEnergy s.time - o.needEnergy s) _
    = .ok s' := hs'
  obtain ⟨-, tokens, s₂, -, -, hpay, rfl⟩ := fixedAwardPaid_eq_ok hs'
  have hspent := h.spend hc.initiator (FixedAward.needEnergy_le hc hle)
  have hclaimed : ∀ y, Purse (w.less (if o.initiator = w.name then o.needEnergy s else 0))
      ((s.claimed tokens y).spendEnergy o.initiator
        ((s.accounts.row o.initiator).currentEnergy s.time - o.needEnergy s)) := fun _ => hspent
  have hpaid := payAward_purse (hclaimed _) s₂ hpay
  by_cases hdonated : 0 < tokens - o.rewardAmount
  · rw [if_pos hdonated]
    exact hpaid
  · rw [if_neg hdonated]
    exact hpaid

end Awards

/-! ## Sales -/

section Sales

theorem paySaleFee_purse {seller : AccountName} {fee : Nat} (h : Purse w s) (hown : w.owns → w.name ≠ name) :
    Returns (Purse w) (s.paySaleFee name seller fee) := by
  unfold paySaleFee
  exact .ite (fun _ => payFee_purse h hown) (fun _ => .ok h)

/-- A bid comes back to its bidder. -/
theorem returnBid_purse (h : Purse w s) : Returns (Purse w) (s.returnBid name) := by
  unfold returnBid
  exact .after fun _ _ => .after fun _ _ => .pure (h.pay (fun _ _ => Int.natCast_nonneg _) fun _ => rfl)

theorem purse_offered {o : SetAccountPrice} {now : Nat} {dropped : Bool} : purse (offered o now dropped r) = purse r := by
  unfold offered
  split
  · cases dropped
    · rfl
    · rfl
  · rfl

theorem setAccountPrice_purse {o : SetAccountPrice} (h : Purse w s) (hown : w.owns → w.name ≠ o.account) :
    Returns (Purse w) (setAccountPrice names s o) := by
  unfold setAccountPrice
  refine .after fun _ _ => .after fun _ _ => .after fun _ _ => .ite (fun _ => ?_) (fun _ => ?_)
  · refine (paySaleFee_purse h hown).bind fun s₁ h₁ => .ite (fun _ => ?_) (fun _ => ?_)
    · exact (returnBid_purse h₁).bind fun _ h₂ => .pure (h₂.keep fun _ => purse_offered)
    · exact .bind (.pure h₁) fun _ h₂ => .pure (h₂.keep fun _ => purse_offered)
  · refine .ite (fun _ => ?_) (fun _ => .bind (.pure h) fun _ h₁ => .pure (h₁.keep fun _ => rfl))
    exact (paySaleFee_purse h hown).bind fun _ h₁ => .pure (h₁.keep fun _ => rfl)

theorem targetAccountSale_purse {o : TargetAccountSale} (h : Purse w s) (hown : w.owns → w.name ≠ o.account) :
    Returns (Purse w) (targetAccountSale names s o) := by
  unfold targetAccountSale
  refine .after fun _ _ => .after fun _ _ => .after fun _ _ => .after fun _ _ => ?_
  have hoffer : ∀ (s₂ : Ledger) (dropped : Bool), Purse w s₂ → Purse w (s₂.modifyAccount o.account (fun r =>
      { offered o.toSetAccountPrice s₂.time dropped r with
        targetBuyer := if o.accountOnSale then o.targetBuyer else 0 })) := fun _ _ h₂ => h₂.keep fun _ => purse_offered
  refine (paySaleFee_purse h hown).bind fun s₁ h₁ => .ite (fun _ => ?_) (fun _ => ?_)
  · exact (returnBid_purse h₁).bind fun _ h₂ => .pure (hoffer _ _ h₂)
  · exact .bind (.pure h₁) fun _ h₂ => .pure (hoffer _ _ h₂)

theorem setSubaccountPrice_purse {seller : AccountName} {price : Nat} {onSale : Bool} (h : Purse w s)
    (hown : w.owns → w.name ≠ name) : Returns (Purse w) (setSubaccountPrice names s name seller price onSale) := by
  unfold setSubaccountPrice
  refine .after fun _ _ => .after fun _ _ => .after fun _ _ => .ite (fun _ => ?_) (fun _ => ?_)
  · exact (paySaleFee_purse h hown).bind fun _ h₁ => .pure (h₁.keep fun _ => rfl)
  · exact .bind (.pure h) fun _ h₁ => .pure (h₁.keep fun _ => rfl)

theorem payPrice_purse {o : BuyAccount} {seller : AccountName} {price : Nat} (h : Purse w s)
    (hown : w.owns → w.name ≠ o.buyer) : Returns (Purse w) (s.payPrice o seller price) := by
  unfold payPrice
  exact .after fun _ _ => .after fun _ _ => .after fun _ _ => .after fun _ _ => .pure ((h.debit hown).credit.debit hown)

theorem placeBid_purse {clock : Nat} {o : BuyAccount} (h : Purse w s) (hown : w.owns → w.name ≠ o.buyer) :
    Returns (Purse w) (s.placeBid clock o) := by
  unfold placeBid
  have hbid : ∀ s₁, Purse w s₁ → Returns (Purse w) (do
      let _ ← (s₁.modifyAccount o.account (withBid o clock)).getAccount o.buyer
      return (s₁.modifyAccount o.account (withBid o clock)).modifyAccount o.buyer (fun b =>
        { b with
          reservedBalance := b.reservedBalance + o.accountOfferPrice
          balance         := b.balance - o.accountOfferPrice })) := by
    intro s₁ h₁
    have hoffered : Purse w (s₁.modifyAccount o.account (withBid o clock)) := h₁.keep fun _ => rfl
    exact .after fun _ _ => .pure (hoffered.pay (x := -(o.accountOfferPrice : Int)) (fun ho hn => absurd hn (hown ho))
      fun _ => rfl)
  refine .after fun _ _ => .after fun _ _ => .ite (fun _ => ?_) (fun _ => .bind (.pure h) hbid)
  exact (returnBid_purse h).bind hbid

theorem buyNow_purse {o : BuyAccount} (h : Purse w s) (hown : w.owns → w.name ≠ o.buyer) :
    Returns (Purse w) (s.buyNow o) := by
  unfold buyNow
  refine .after fun r _ => (payPrice_purse h hown).bind fun s₁ h₁ => (createVesting_purse h₁).bind fun s₂ h₂ => .pure ?_
  have hsold : Purse w (s₂.modifyAccount o.account (fun a =>
      { sold o.accountAuthoritiesKey o.buyer s₂.time a with
        accountOnSaleStartTime := if s₂.hasHardfork 9 then 0 else a.accountOnSaleStartTime })) := h₂.keep fun _ => rfl
  exact hsold

theorem buyAccount_purse {clock : Nat} {o : BuyAccount} (h : Purse w s) (hown : w.owns → w.name ≠ o.buyer) :
    Returns (Purse w) (buyAccount names clock s o) := by
  unfold buyAccount
  refine .after fun _ _ => .after fun _ _ => .after fun _ _ => .after fun _ _ => ?_
  cases s.accounts.find o.account with
  | none =>
      unfold buySubaccount
      dsimp only
      cases names.splitName o.account with
      | none => exact .error _
      | some p =>
          refine .after fun _ _ => .after fun _ _ => .after fun _ _ => (payPrice_purse h hown).bind fun _ h₁ => ?_
          exact (createAccount_purse h₁ rfl le_rfl).bind fun _ h₂ => createVesting_purse h₂
  | some r =>
      refine .after fun _ _ => .after fun _ _ => ?_
      refine .ite (fun _ => .after fun _ _ => .ite (fun _ => placeBid_purse h hown) (fun _ => ?_)) (fun _ => ?_)
      · exact .after fun _ _ => buyNow_purse h hown
      · exact .after fun _ _ => buyNow_purse h hown

theorem settleAuction_purse (h : Purse w s) : Returns (Purse w) (s.settleAuction name) := by
  unfold settleAuction
  refine .after fun r _ => .ite (fun _ => .ite (fun _ => .pure (h.keep fun _ => rfl)) (fun _ => ?_)) (fun _ => .pure h)
  refine .ite (fun _ => .ite (fun _ => ?_) (fun _ => ?_)) (fun _ => ?_)
  · exact (returnBid_purse h).bind fun _ h₁ => .pure (h₁.keep fun _ => rfl)
  · refine .after fun _ _ => .after fun _ _ => .pure ?_
    have hspent : Purse w (s.modifyAccount r.currentBidder (fun b =>
        { b with reservedBalance := b.reservedBalance - r.currentBid })) := h.keep fun _ => rfl
    have hpaid : Purse w ((s.modifyAccount r.currentBidder (fun b =>
        { b with reservedBalance := b.reservedBalance - r.currentBid })).adjustBalance r.accountSeller r.currentBid) :=
      hspent.credit
    exact Purse.keep hpaid fun _ => rfl
  · exact (returnBid_purse h).bind fun _ h₁ => .pure (h₁.keep fun _ => rfl)

end Sales

/-! ## Operations -/

/-- **The energy that an account spends in an operation**: that of its awards. -/
def Operation.energyUsed (a : AccountName) (s : Ledger) : Operation → Int
  | .award o      => if o.initiator = a then o.energy else 0
  | .fixedAward o => if o.initiator = a then o.needEnergy s else 0
  | _             => 0

/-- **An operation** spends what it says of the watched account's energy, and takes none of its tokens unless the account
    has signed for it. -/
theorem evaluate_purse {loc : Local} {o : Operation} (h : Purse w s) (hown : w.owns → w.name ∉ o.signer)
    (hkey : w.owns → w.name ∉ Config.keyless) :
    Returns (Purse (w.less (o.energyUsed w.name s))) (evaluate names loc s o) := by
  have hne : ∀ {n : AccountName}, o.signer = some n → w.owns → w.name ≠ n := by
    intro n hs ho he
    exact hown ho (he ▸ hs)
  -- but for the awards nothing is spent
  have hfree : ∀ {e : Result Ledger}, Returns (Purse w) e → Returns (Purse (w.less 0)) e := by
    intro e he
    rw [Watch.less_zero]
    exact he
  cases o with
  | accountCreate o => exact hfree (accountCreate_purse h (hne rfl))
  | accountUpdate o => exact hfree (accountUpdate_purse h)
  | requestAccountRecovery p account master => exact hfree (requestAccountRecovery_purse h)
  | recoverAccount account newMaster recent => exact hfree (recoverAccount_purse h)
  | transfer o => exact hfree (transfer_purse h (hne rfl) hkey)
  | escrowTransfer o => exact hfree (escrowTransfer_purse h (hne rfl))
  | escrowApprove o => exact hfree (escrowApprove_purse h)
  | escrowDispute from_ to_ agent who id => exact hfree (escrowDispute_purse h)
  | escrowRelease o => exact hfree (escrowRelease_purse h)
  | transferToVesting from_ to_ amount => exact hfree (transferToVesting_purse h (hne rfl))
  | withdrawVesting account shares => exact hfree (withdrawVesting_purse h)
  | setWithdrawVestingRoute o => exact hfree (setWithdrawVestingRoute_purse h)
  | delegateVestingShares x y shares => exact hfree (delegateVestingShares_purse h (hne rfl))
  | accountValidatorProxy account proxy => exact hfree (accountValidatorProxy_purse h)
  | accountValidatorVote account v approve => exact hfree (accountValidatorVote_purse h)
  | validatorUpdate owner => exact hfree (validatorUpdate_purse h (hne rfl))
  | setRewardSharing owner rate => exact hfree (setRewardSharing_purse h)
  | createInvite creator balance key => exact hfree (createInvite_purse h (hne rfl))
  | claimInviteBalance i receiver secret => exact hfree (claimInviteBalance_purse h)
  | inviteRegistration i new secret key => exact hfree (inviteRegistration_purse h)
  | useInviteBalance i receiver secret => exact hfree (useInviteBalance_purse h)
  | setPaidSubscription account levels amount period => exact hfree (setPaidSubscription_purse h (hne rfl))
  | paidSubscribe o => exact hfree (paidSubscribe_purse h (hne rfl))
  | committeeWorkerCreateRequest o => exact hfree (committeeWorkerCreateRequest_purse h (hne rfl))
  | committeeWorkerCancelRequest creator id => exact hfree (committeeWorkerCancelRequest_purse h)
  | committeeVoteRequest voter id percent => exact hfree (committeeVoteRequest_purse h)
  | award o => exact award_purse h
  | fixedAward o => exact fixedAward_purse h
  | setAccountPrice o => exact hfree (setAccountPrice_purse h (hne rfl))
  | targetAccountSale o => exact hfree (targetAccountSale_purse h (hne rfl))
  | setSubaccountPrice account seller price onSale => exact hfree (setSubaccountPrice_purse h (hne rfl))
  | buyAccount o => exact hfree (buyAccount_purse h (hne rfl))

/-! ## Blocks -/

section Blocks

theorem Purse.moveHead {b : Head} (h : Purse w s) (hb : s.time ≤ b.timestamp) :
    Purse { w with time := b.timestamp, most := w.most + Config.hundredPercent * ((b.timestamp : Int) - s.time) }
      (s.moveHead b) := by
  obtain ⟨htime, hback, hnew, hold⟩ := h
  rw [htime] at hb ⊢
  have hmore : (0 : Int) ≤ Config.hundredPercent * ((b.timestamp : Int) - w.time) := by
    refine mul_nonneg (by decide) ?_
    omega
  refine ⟨rfl, hback, fun hno => ⟨(hnew hno).1, (hnew hno).2.trans (Int.le_add_of_nonneg_right hmore)⟩, fun hmem => ?_⟩
  exact ⟨fun hr => ((hold hmem).1 hr).later hb, (hold hmem).2⟩

theorem clearExpired_purse (h : Purse w s) : Returns (Purse w) s.clearExpired := by
  unfold clearExpired clearExpiredDelegations
  have hkept : Purse w { s with expirations := s.expirations.filter (fun e => !decide (e.expiration < s.time)) } :=
    ⟨h.1, fun e he => h.2.1 e (List.mem_of_mem_filter he), h.2.2⟩
  -- every delegation on its way back brings its shares
  have hfold : ∀ (l : List DelegationExpiration) (u : Ledger), (∀ e ∈ l, 0 ≤ e.vestingShares) → Purse w u →
      Returns (Purse w) (l.foldlM returnDelegation u) := by
    intro l
    induction l with
    | nil => exact fun _ _ hu => .ok hu
    | cons e l ih =>
        intro u hl hu
        rw [List.foldlM_cons]
        have hshares := hl e List.mem_cons_self
        refine .bind (P := Purse w) ?_ fun u₁ h₁ => ih u₁ (fun e' he' => hl e' (List.mem_cons_of_mem e he')) h₁
        unfold returnDelegation
        refine .after fun _ _ => .pure ?_
        have hback : Purse w (u.modifyAccount e.delegator (fun r =>
            { r with delegatedVestingShares := r.delegatedVestingShares - e.vestingShares })) :=
          hu.lend (x := -e.vestingShares) (fun _ _ => by omega) fun _ => rfl
        split
        · exact hback.recalcEnergy hshares
        · exact hback
  refine .bind (hfold _ _ (fun e he => ?_) hkept) fun s₁ h₁ => .pure ?_
  · exact h.2.1 e (List.mem_of_mem_filter ((List.mem_insertionSort _).mp he))
  · split
    · exact h₁
    · exact h₁

theorem processFunds_purse (h : Purse w s) : Returns (Purse w) s.processFunds := by
  have hpay : ∀ (reward : Nat) (u : Ledger), Purse w u → Returns (Purse w) (u.payValidator reward) := by
    intro reward u hu
    unfold payValidator
    refine .after fun _ _ => .ite (fun _ => .ite (fun _ => ?_) (fun _ => ?_)) (fun _ => createVesting_purse hu)
    · refine (createVesting_purse hu).bind fun s₁ h₁ => .pure ?_
      exact h₁
    · exact .bind (.pure (Q := Purse w) hu) fun _ h₁ => .pure h₁
  have hissued : ∀ k, Purse w (s.issue k).2 := fun _ => h
  unfold processFunds
  refine .ite (fun _ => hpay _ _ (hissued _)) (fun _ => .ite (fun _ => ?_) (fun _ => ?_))
  · exact .after fun _ _ => createVesting_purse (hissued _)
  · refine .after fun _ _ => createVesting_purse ?_
    exact h

theorem distributePool_purse {epochStart : Nat} (h : Purse w s) :
    Returns (Purse w) (distributePool epochStart s name) := by
  unfold distributePool
  have hemptied : ∀ (u : Ledger) (y : Table AccountName ValidatorAccount), Purse w u →
      Purse w { u with validators := y } := fun _ _ hu => hu
  have hpart : ∀ (total weighted : Nat) (p : Ledger × Nat) (e : AccountName × Nat), Purse w p.1 →
      Returns (fun q : Ledger × Nat => Purse w q.1) (payStakeholder total weighted p e) := by
    intro total weighted p e hp
    unfold payStakeholder
    exact .ite (fun _ => .pure hp) (fun _ => (createVesting_purse hp).bind fun _ h₁ => .pure h₁)
  refine .ite (fun _ => .pure h) (fun _ => .ite (fun _ => ?_) (fun _ => ?_))
  · exact (createVesting_purse h).bind fun _ h₁ => .pure (hemptied _ _ h₁)
  · refine .bind (.foldlM (hpart _ _) h) ?_
    rintro ⟨s₁, paid⟩ h₁
    refine .ite (fun _ => ?_) (fun _ => .bind (.pure h₁) fun _ h₂ => .pure (hemptied _ _ h₂))
    exact (createVesting_purse h₁).bind fun _ h₂ => .pure (hemptied _ _ h₂)

theorem Purse.readied (h : Purse w s) : Purse w s.readied := by
  unfold Ledger.readied processInflationRecalc
  split
  · split
    · exact h
    · exact h
  · exact h

theorem processRewards_purse (h : Purse w s) : Returns (Purse w) s.processRewards := by
  unfold processRewards
  refine (processFunds_purse h.readied).bind fun s₁ h₁ => .ite (fun _ => ?_) (fun _ => .pure h₁)
  unfold processValidatorEpochDistribution
  exact .ite (fun _ => .ok h₁) (fun _ => .foldlM (fun _ _ hs => distributePool_purse hs) h₁)

/-- **A content is paid out**, to whoever it is. What its author has is not followed here. -/
theorem cashoutContent_purse {c : Content} (h : Purse w s) (hown : ¬w.owns) :
    Returns (Purse w) (s.cashoutContent c) := by
  unfold cashoutContent payContent
  have hcurator : ∀ (tokens : Int) (whole : Nat) (p : Ledger × Int) (v : AccountName × Nat), Purse w p.1 →
      Returns (fun q : Ledger × Int => Purse w q.1) (payCurator tokens whole p v) := by
    intro tokens whole p v hp
    unfold payCurator
    exact .after fun _ _ => .ite (fun _ => (createVesting_purse hp).bind fun _ h₁ => .pure h₁) (fun _ => .pure hp)
  have hauthor : ∀ (s₁ : Ledger) (tokens : Int), Purse w s₁ → Returns (Purse w) (do
      let r ← c.beneficiaries.foldlM (payBeneficiary tokens) (s₁, 0)
      let s₃ ← r.1.createVesting c.author (tokens - r.2 - (tokens - r.2).tdiv 2)
      return s₃.adjustBalance c.author ((tokens - r.2).tdiv 2)) := by
    intro s₁ tokens h₁
    refine .bind (.foldlM (fun _ _ => payBeneficiary_purse) h₁) ?_
    intro r h₂
    exact (createVesting_purse h₂).bind fun _ h₃ => .pure (h₃.debit fun ho => absurd ho hown)
  have hfund : ∀ y : Int, Purse w { s with totalRewardFund := y } := fun _ => h
  have hshares : ∀ (u : Ledger) (n : Nat), Purse w u → Purse w { u with totalRewardShares := n } := fun _ _ hu => hu
  refine .after fun _ _ => .ite (fun _ => .pure h) (fun _ => .after fun reward _ => .ite (fun _ => ?_) (fun _ => ?_))
  · refine .bind (P := Purse w) ?_ fun s₁ h₁ => .pure (hshares _ _ h₁)
    refine .ite (fun _ => .bind (.foldlM (hcurator _ _) (hfund _)) ?_) (fun _ => hauthor _ _ (hfund _))
    rintro ⟨s₂, unclaimed⟩ h₂
    exact hauthor _ _ h₂
  · exact .bind (.pure (hfund _)) fun _ h₁ => .pure (hshares _ _ h₁)

theorem purse_settleWithdrawal {amount converted : Int} : purse (settleWithdrawal amount converted r) =
    ((r.balance + converted, r.delegatedVestingShares), r.energy, r.lastVoteTime) := by
  unfold settleWithdrawal
  dsimp only
  split
  · rfl
  · rfl

/-- A turn brings the tokens of its shares. -/
theorem withdrawFrom_purse (h : Purse w s) : Returns (Purse w) (s.withdrawFrom name) := by
  unfold withdrawFrom
  refine .after fun r _ => .after fun amount hamount => ?_
  have hdeposit : ∀ p : AccountName × Route, 0 ≤ routeDeposit amount p.2 := fun p =>
    Int.ediv_nonneg (mul_nonneg (withdrawalAmount_spec hamount).1 (Int.natCast_nonneg _)) (by decide)
  have hshares : ∀ (p : Ledger × Int) (to_ : AccountName × Route), Purse w p.1 →
      Returns (fun q : Ledger × Int => Purse w q.1) (depositShares amount p to_) := by
    intro p to_ hp
    unfold depositShares
    have hgained : Purse w (p.1.modifyAccount to_.1 (fun b =>
        { b with vestingShares := b.vestingShares + routeDeposit amount to_.2 })) := hp.keep fun _ => rfl
    refine .ite (fun _ => .ite (fun _ => ?_) (fun _ => .pure hp)) (fun _ => .pure hp)
    exact (adjustProxiedBy_purse hgained).bind fun _ h₁ => .pure h₁
  have htokens : ∀ (p : Ledger × Int) (to_ : AccountName × Route), Purse w p.1 ∧ 0 ≤ p.2 →
      Returns (fun q : Ledger × Int => Purse w q.1 ∧ 0 ≤ q.2) (depositTokens amount p to_) := by
    intro p to_ hp
    have hsum : 0 ≤ p.2 + routeDeposit amount to_.2 := Int.add_nonneg hp.2 (hdeposit to_)
    unfold depositTokens
    refine .ite (fun _ => .pure hp) (fun _ => .after fun tokens hworth => .ite (fun _ => .pure ⟨?_, hsum⟩)
      (fun _ => .pure ⟨hp.1, hsum⟩))
    have hpaid : Purse w (p.1.modifyAccount to_.1 (fun b => { b with balance := b.balance + tokens })) :=
      hp.1.pay (fun _ _ => mulDiv_nonneg hworth) fun _ => rfl
    exact hpaid
  refine .bind (.foldlM hshares h) ?_
  rintro ⟨s₁, asVests⟩ h₁
  refine .bind (.foldlM htokens ⟨h₁, le_rfl⟩) ?_
  rintro ⟨s₂, asTokens⟩ ⟨h₂, hasTokens⟩
  refine .after fun converted hworth => ?_
  have hsettled : Purse w ((s₂.sharesSenderRecalcEnergy name (asTokens + max (amount - asTokens - asVests) 0)).modifyAccount
      name (settleWithdrawal amount converted)) :=
    (h₂.recalcEnergy (Int.add_nonneg hasTokens (le_max_right _ _))).pay (fun _ _ => mulDiv_nonneg hworth)
      fun _ => purse_settleWithdrawal
  exact .ite (fun _ => adjustProxiedBy_purse hsettled) (fun _ => .pure hsettled)

theorem expireEscrowRatification_purse (h : Purse w s) : Returns (Purse w) s.expireEscrowRatification := by
  unfold expireEscrowRatification
  refine .foldlM (fun u key hu => ?_) h
  unfold expireEscrow
  refine .after fun _ _ => .pure ?_
  have hback : Purse w ((u.adjustBalance key.1 (u.escrows.row key).tokenBalance).adjustBalance key.1
      (u.escrows.row key).pendingFee) := hu.credit.credit
  exact hback

theorem accountOnAuctionExpiration_purse (h : Purse w s) : Returns (Purse w) s.accountOnAuctionExpiration := by
  unfold accountOnAuctionExpiration
  exact .foldlM (fun _ _ hs => settleAuction_purse hs) h

/-- **Only the accounts without a key are emptied.** -/
theorem emptyAccounts_purse (h : Purse w s) (hkey : w.owns → w.name ∉ Config.keyless) :
    Returns (Purse w) s.emptyAccounts := by
  have hdrained : ∀ {s₁ : Ledger} {a : AccountName} (f : Int → Ledger → Ledger), a ∈ Config.keyless → Purse w s₁ →
      (∀ y u, Purse w u → Purse w (f y u)) → Returns (Purse w) (do
        let r ← s₁.drainAccount a
        return if 0 < r.1 then f r.1 r.2 else r.2) := by
    intro s₁ a f ha h₁ hf
    have hother : w.owns → w.name ≠ a := fun ho hn => hkey ho (hn ▸ ha)
    have hdrain : Returns (fun q : Int × Ledger => Purse w q.2) (s₁.drainAccount a) := by
      unfold drainAccount drainShares
      refine .after fun r _ => .bind (P := fun q : Int × Ledger => Purse w q.2) ?_ ?_
      · refine .after fun r' _ => .ite (fun _ => .after fun c _ => .pure ?_) (fun _ => .pure (h₁.debit hother))
        have htotals : ∀ y z : Int, Purse w { s₁.adjustBalance a (-(max r.balance 0)) with
            totalVestingShares := y, totalVestingFund := z } := fun _ _ => h₁.debit hother
        exact (htotals _ _).keep fun _ => rfl
      · rintro ⟨c, s₂⟩ h₂
        exact .pure h₂
    refine hdrain.bind fun r h₂ => .pure ?_
    split
    · exact hf _ _ h₂
    · exact h₂
  unfold emptyAccounts clearNullAccountBalance clearAnonymousAccountBalance claimCommitteeAccountBalance
  refine (hdrained (fun y u => u.burnAsset (-y)) (by decide) h fun _ _ hu => hu).bind fun s₁ h₁ => ?_
  refine (hdrained (fun y u => u.burnAsset (-y)) (by decide) h₁ fun _ _ hu => hu).bind fun s₂ h₂ => ?_
  exact hdrained (fun y u => u.adjustCommitteeFund y) (by decide) h₂ fun _ _ hu => hu

/-- **The committee pays**, out of a fund that is not below zero. -/
theorem committeeProcessing_purse (h : Purse w s) (hfund : w.owns → 0 ≤ s.committeeFund) :
    Returns (Purse w) s.committeeProcessing := by
  unfold committeeProcessing
  have hconclude : ∀ (u : Ledger) (id : Nat), Purse w u ∧ u.committeeFund = s.committeeFund →
      Returns (fun q => Purse w q ∧ q.committeeFund = s.committeeFund) (u.concludeRequest id) := by
    intro u id hu
    unfold concludeRequest
    refine .ite (fun _ => .after ?_) (fun _ => .pure hu)
    rintro ⟨status, payout⟩ -
    exact .pure hu
  refine .bind (.foldlM hconclude ⟨h, rfl⟩) fun s₁ h₁ => .ite (fun _ => .pure h₁.1) (fun _ => .foldlM ?_ h₁.1)
  intro u id hu
  unfold payRequest
  refine .after fun _ _ => .pure ?_
  have hmost : w.owns → 0 ≤ min (s₁.committeeFund.tdiv (((s₁.requestsWith .approved).length + 1 : Nat) : Int))
      ((u.committeeRequests.row id).remainPayoutAmount : Int) := by
    intro ho
    rw [h₁.2]
    exact le_min (Int.tdiv_nonneg (hfund ho) (Int.natCast_nonneg _)) (Int.natCast_nonneg _)
  have hpaid : Purse w (u.adjustBalance (u.committeeRequests.row id).worker
      (min (s₁.committeeFund.tdiv (((s₁.requestsWith .approved).length + 1 : Nat) : Int))
        ((u.committeeRequests.row id).remainPayoutAmount : Int))) := hu.adjustBalance fun ho _ => hmost ho
  exact hpaid

/-- **An account renews nothing**: no subscription of its own is to be paid again. -/
def RenewsNothing (a : AccountName) (s : Ledger) : Prop :=
  ∀ k ∈ s.paidSubscribes.keys, k.1 = a → (s.paidSubscribes.row k).autoRenewal = false

/-- **A subscription that comes due** is paid by its subscriber, if it is to be renewed. -/
theorem renewSubscribe_purse {key : AccountName × AccountName} (h : Purse w s ∧ (w.owns → RenewsNothing w.name s))
    (hkey : key ∈ s.paidSubscribes.keys) :
    Returns (fun u => (Purse w u ∧ (w.owns → RenewsNothing w.name u)) ∧ u.paidSubscribes.keys = s.paidSubscribes.keys)
      (s.renewSubscribe key) := by
  unfold renewSubscribe
  obtain ⟨h, hrenews⟩ := h
  have hrows : ∀ g : PaidSubscribe → PaidSubscribe, (∀ p, p.autoRenewal = false → (g p).autoRenewal = false) →
      w.owns → ∀ k ∈ (s.paidSubscribes.modify key g).keys, k.1 = w.name →
        ((s.paidSubscribes.modify key g).row k).autoRenewal = false := by
    intro g hg ho k hk hn
    by_cases hkk : k = key
    · subst hkk
      rw [Table.modify_row_self]
      exact hg _ (hrenews ho k hk hn)
    · rw [Table.modify_row_of_ne hkk]
      exact hrenews ho k hk hn
  have hclosed : (Purse w { s with paidSubscribes := s.paidSubscribes.modify key closeSubscribe } ∧
      (w.owns → RenewsNothing w.name { s with paidSubscribes := s.paidSubscribes.modify key closeSubscribe })) ∧
        (s.paidSubscribes.modify key closeSubscribe).keys = s.paidSubscribes.keys :=
    ⟨⟨h, hrows closeSubscribe fun _ _ => rfl⟩, rfl⟩
  dsimp only
  cases s.paidSubscriptions.find key.2 with
  | none => exact .pure hclosed
  | some p =>
      refine .ite (fun hauto => .after fun _ _ => .after fun _ _ => .ite (fun _ => .pure ?_) (fun _ => .pure hclosed))
        (fun _ => .pure hclosed)
      -- whoever renews nothing is not the one who pays
      have hother : w.owns → w.name ≠ key.1 := by
        intro ho hn
        rw [hrenews ho key hkey hn.symm] at hauto
        exact absurd hauto (by decide)
      have hpaid : Purse w ((s.adjustBalance key.1 (-((p.amount * min (s.paidSubscribes.row key).level p.levels : Nat) : Int)))
          |>.adjustBalance key.2 ((p.amount * min (s.paidSubscribes.row key).level p.levels : Nat) : Int)) :=
        (h.debit hother).credit
      exact ⟨⟨hpaid, hrows _ fun q hq => hq⟩, rfl⟩

theorem paidSubscribeProcessing_purse (h : Purse w s) (hrenews : w.owns → RenewsNothing w.name s) :
    Returns (fun u => Purse w u ∧ (w.owns → RenewsNothing w.name u)) s.paidSubscribeProcessing := by
  have hnext : ∀ (u : Ledger) (key k : AccountName × AccountName),
      ((u.byNextTime.dropWhile (fun k => decide (k ≠ key))).tail).head? = some k → k ∈ u.paidSubscribes.keys := by
    intro u key k hk
    have hmem := List.mem_of_mem_tail (List.mem_of_mem_head? hk)
    exact (List.mem_insertionSort _).mp ((List.dropWhile_sublist _).subset hmem)
  have hloop : ∀ (fuel : Nat) (next : Option (AccountName × AccountName)) (u : Ledger),
      Purse w u ∧ (w.owns → RenewsNothing w.name u) → (∀ k, next = some k → k ∈ u.paidSubscribes.keys) →
        Returns (fun u => Purse w u ∧ (w.owns → RenewsNothing w.name u)) (subscribeLoop fuel next u) := by
    intro fuel
    induction fuel with
    | zero => exact fun _ _ hu _ => .ok hu
    | succ fuel ih =>
        intro next u hu hmem
        cases next with
        | none => exact .ok hu
        | some key =>
            refine .ite (fun _ => .ite (fun _ => ?_) (fun _ => .bind (.pure hu) fun u₁ h₁ => ih _ _ h₁ ?_)) (fun _ => .ok hu)
            · exact (renewSubscribe_purse hu (hmem key rfl)).bind fun u₁ h₁ => ih _ _ h₁.1 (hnext u₁ key)
            · exact hnext u₁ key
  refine hloop _ _ _ ⟨h, hrenews⟩ fun k hk => ?_
  exact (List.mem_insertionSort _).mp (List.mem_of_mem_head? hk)

end Blocks

end Ledger

end VizNode
