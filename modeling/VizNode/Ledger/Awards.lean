import VizNode.Ledger.Supply

/-!
# `VizNode.Ledger.Awards` — where the tokens of a fixed award go, and what energy it takes

A fixed award names the reward. The evaluator works out backwards which part of the energy earns it, adds one step of
energy against rounding, and claims what this energy earns. What was claimed above the reward is meant for the
committee fund.

**Two slips.** The beneficiaries have their weights of what was claimed, not of the reward, so they can have more than
the reward, and then the committee fund is paid on top. And the step of energy is added also when the whole limit is
needed, so the award takes more than the limit. Both are exact: `fixedAward_conserves` and `fixedAward_energy` say when.

## Contents
- **The numbers.** What the evaluator computes, as functions of the ledger and the operation.
- **The divisions.** `fixedAwardPart`, the evaluator up to its last division.
- **The course.** `fixedAward_eq_ok`, everything an accepted fixed award does.
- **Conservation**, and **energy**.
-/

namespace VizNode

namespace Ledger

open Bank
open Prog (Returns)

variable {s s' : Ledger} {a : AccountName}

/-! ## The numbers -/

namespace FixedAward

variable (o : FixedAward) (s : Ledger)

/-- What counts of the initiator. -/
def shares : Int := (s.accounts.row o.initiator).effectiveVestingShares

/-- `max_rshares`: the reward shares of the whole limit. -/
def maxRshares : Int := o.shares s * o.maxEnergy / Config.hundredPercent

/-- `rs`: the reward shares that earn the reward. -/
def neededRshares : Int := o.rewardAmount * s.totalRewardShares / (s.totalRewardFund - o.rewardAmount)

/-- `need_energy`: the part of the limit for them, and one step, but not more than all energy there is. -/
def needEnergy : Int := min (o.neededRshares s * o.maxEnergy / o.maxRshares s + 1) Config.hundredPercent

/-- `rshares`: the reward shares of that energy. -/
def rshares : Int := o.shares s * o.needEnergy s / Config.hundredPercent

/-- `tokens`: what they claim. -/
def claim : Int := s.totalRewardFund * o.rshares s / (s.totalRewardShares + o.rshares s)

/-- **What is checked before the divisions**: the operation is valid, the accounts are there, and the limit is within
    the energy of the initiator and is worth something. -/
structure Checked : Prop where
  valid     : 0 < o.rewardAmount ∧ o.maxEnergy ≤ Config.hundredPercent ∧ weightsWithin o.beneficiaries
  enabled   : s.hasHardfork 11 = true
  initiator : o.initiator ∈ s.accounts.keys
  receiver  : o.receiver ∈ s.accounts.keys
  energy    : 0 < (s.accounts.row o.initiator).currentEnergy s.time ∧
    (o.maxEnergy : Int) ≤ (s.accounts.row o.initiator).currentEnergy s.time
  shares    : 0 ≤ o.shares s * o.maxEnergy
  rshares   : 0 < o.maxRshares s

end FixedAward

/-! ## The divisions -/

/-- **`fixed_award_evaluator` up to its last division**: the initiator, and the part of the limit that is needed. -/
def fixedAwardPart (s : Ledger) (o : FixedAward) : Result (Account × Int) := do
  require (0 < o.rewardAmount ∧ o.maxEnergy ≤ Config.hundredPercent ∧ weightsWithin o.beneficiaries) .validation
  require (s.hasHardfork 11) .notEnabled
  let a ← s.getAccount o.initiator
  let _ ← s.getAccount o.receiver
  let currentEnergy := a.currentEnergy s.time
  require (0 < currentEnergy ∧ (o.maxEnergy : Int) ≤ currentEnergy) .insufficientEnergy
  let maxRshares ← mulDiv a.effectiveVestingShares o.maxEnergy Config.hundredPercent
  let maxReward ← s.calcRshareAward maxRshares
  require ((o.rewardAmount : Int) ≤ maxReward) .rewardTooHigh
  let needed ← mulDiv o.rewardAmount s.totalRewardShares (s.totalRewardFund - o.rewardAmount)
  require (needed ≤ maxRshares) .rewardTooHigh
  let part ← mulDiv needed o.maxEnergy maxRshares
  return (a, part)

/-- So many tokens were claimed by so many reward shares. -/
def claimed (s : Ledger) (tokens rshares : Int) : Ledger :=
  { s with
    totalRewardFund   := s.totalRewardFund - tokens
    totalRewardShares := s.totalRewardShares + rshares.toNat
    awardExpires      := s.awardExpires ++ [(s.time + Config.energyRegenerationSeconds, rshares.toNat)] }

/-- The end of the evaluator, from the reward shares that are counted. -/
def fixedAwardPaid (s : Ledger) (producing : Bool) (o : FixedAward) (energy counted : Int) : Result Ledger := do
  let expected ← if counted = 0 then pure 0 else s.calcRshareAward counted
  require ((o.rewardAmount : Int) ≤ expected) .rewardTooHigh
  require (counted ≠ 0) .zeroRshares
  let (tokens, s) ← s.claimRshareAward counted
  require (0 < tokens) .zeroReward
  let s := s.spendEnergy o.initiator energy
  requireIf producing (o.beneficiaries.length ≤ Config.maxCommentBeneficiaries) .validation
  let donation := tokens - o.rewardAmount
  let s ← s.payAward o.receiver o.beneficiaries tokens o.rewardAmount
  if 0 < donation then return s.adjustCommitteeFund donation else return s

/-- **And what comes behind it.** -/
def fixedAwardRest (producing : Bool) (s : Ledger) (o : FixedAward) (r : Account × Int) : Result Ledger := do
  let currentEnergy := r.1.currentEnergy s.time
  let needEnergy := min (r.2 + 1) Config.hundredPercent
  let rshares ← mulDiv r.1.effectiveVestingShares needEnergy Config.hundredPercent
  s.fixedAwardPaid producing o (currentEnergy - needEnergy)
    (if rshares < s.medianProps.voteAccountingMinRshares then 0 else rshares)

theorem fixedAward_eq (producing : Bool) (o : FixedAward) :
    fixedAward producing s o = s.fixedAwardPart o >>= fixedAwardRest producing s o := by
  unfold fixedAward fixedAwardPart fixedAwardRest fixedAwardPaid
  simp only [bind_assoc, pure_bind]

section Errors

variable {α : Type} {e : Refusal}

theorem require_bind {c : Prop} [Decidable c] {e' : Refusal} {f : Unit → Result α} (hc : c) :
    (require c e' >>= f) = f () := by
  unfold require
  rw [if_pos hc]
  rfl

theorem getAccount_bind {f : Account → Result α} (h : a ∈ s.accounts.keys) :
    (s.getAccount a >>= f) = f (s.accounts.row a) := by
  rw [getAccount_eq_ok.mpr ⟨h, rfl⟩]
  rfl

theorem mulDiv_bind {x n d : Int} {f : Int → Result α} (hd : 0 < d) (hnn : 0 ≤ x * n) :
    (mulDiv x n d >>= f) = f (x * n / d) := by
  rw [mulDiv_eq_ok.mpr ⟨hd, hnn, rfl⟩]
  rfl

/-- A check that is refused for something else was passed. -/
theorem past_require {c : Prop} [Decidable c] {e' : Refusal} {f : Unit → Result α}
    (h : (require c e' >>= f) = .error e) (hne : e' ≠ e) : c ∧ f () = .error e := by
  unfold require at h
  by_cases hc : c
  · rw [if_pos hc] at h
    exact ⟨hc, h⟩
  · rw [if_neg hc] at h
    exact absurd (Except.error.inj h) hne

theorem past_getAccount {f : Account → Result α} (h : (s.getAccount a >>= f) = .error e) (hne : .unknownAccount ≠ e) :
    a ∈ s.accounts.keys ∧ f (s.accounts.row a) = .error e := by
  cases hget : s.getAccount a with
  | ok r =>
      obtain ⟨hin, rfl⟩ := getAccount_eq_ok.mp hget
      rw [hget] at h
      exact ⟨hin, h⟩
  | error e' =>
      rw [hget] at h
      unfold getAccount at hget
      cases hfind : s.accounts.find a with
      | none =>
          rw [hfind] at hget
          exact absurd ((Except.error.inj hget).trans (Except.error.inj h)) hne
      | some r =>
          rw [hfind] at hget
          cases hget

/-- A division is refused for its divisor, or what follows is refused. -/
theorem past_mulDiv {x n d : Int} {f : Int → Result α} (h : (mulDiv x n d >>= f) = .error .zeroDivisor) :
    d ≤ 0 ∨ 0 < d ∧ 0 ≤ x * n ∧ f (x * n / d) = .error .zeroDivisor := by
  by_cases hd : 0 < d
  · unfold mulDiv at h
    simp only [bind_assoc, pure_bind] at h
    rw [require_bind hd] at h
    obtain ⟨hnn, h⟩ := past_require h (by decide)
    exact .inr ⟨hd, hnn, h⟩
  · exact .inl (not_lt.mp hd)

end Errors

section Divisions

variable {o : FixedAward}

/-- What got past the divisions. -/
theorem fixedAwardPart_eq_ok {r : Account × Int} (h : s.fixedAwardPart o = .ok r) :
    o.Checked s ∧ o.rewardAmount < s.totalRewardFund ∧ o.neededRshares s ≤ o.maxRshares s ∧
    r = (s.accounts.row o.initiator, o.neededRshares s * o.maxEnergy / o.maxRshares s) := by
  simp only [fixedAwardPart, calcRshareAward, bind_eq_ok, require_eq_ok, getAccount_eq_ok, mulDiv_eq_ok,
    pure_eq_ok] at h
  obtain ⟨-, hvalid, -, hfork, a, ⟨hin, rfl⟩, -, ⟨hin', -⟩, -, henergy, maxR, ⟨-, hshares, rfl⟩, reward, hreward, -, -,
    needed, ⟨hpos, -, rfl⟩, -, hle, part, ⟨-, -, rfl⟩, rfl⟩ := h
  obtain ⟨-, hmax, -⟩ := hreward
  exact ⟨⟨hvalid, hfork, hin, hin', henergy, hshares, hmax⟩, by omega, hle, rfl⟩

theorem calcRshareAward_of {x : Int} (hx : 0 < x) (hden : 0 < (s.totalRewardShares : Int) + x)
    (hnn : 0 ≤ s.totalRewardFund * x) :
    s.calcRshareAward x = .ok (s.totalRewardFund * x / (s.totalRewardShares + x)) := by
  unfold calcRshareAward
  rw [require_bind hx]
  exact mulDiv_eq_ok.mpr ⟨hden, hnn, rfl⟩

/-- **The reward can be all there is only when nobody competes for it.** -/
theorem reward_lt_fund {maxR reward : Int} (h : s.calcRshareAward maxR = .ok reward) (hra : (o.rewardAmount : Int) ≤ reward)
    (hpos : 0 < o.rewardAmount) : (o.rewardAmount : Int) ≤ s.totalRewardFund ∧
      ((o.rewardAmount : Int) = s.totalRewardFund → s.totalRewardShares = 0) := by
  simp only [calcRshareAward, bind_eq_ok, require_eq_ok, mulDiv_eq_ok] at h
  obtain ⟨-, hmax, hden, hnn, rfl⟩ := h
  have hfund : 0 ≤ s.totalRewardFund := by
    by_contra hneg
    have hlt : s.totalRewardFund * maxR < 0 := mul_neg_of_neg_of_pos (not_le.mp hneg) hmax
    omega
  have hle : s.totalRewardFund * maxR / (s.totalRewardShares + maxR) * (s.totalRewardShares + maxR) ≤
      s.totalRewardFund * maxR := Int.ediv_mul_le _ hden.ne'
  have hmul : (o.rewardAmount : Int) * (s.totalRewardShares + maxR) ≤ s.totalRewardFund * maxR :=
    (mul_le_mul_of_nonneg_right hra hden.le).trans hle
  have hcast : (0 : Int) < o.rewardAmount := by omega
  constructor
  · by_contra hlt
    have hbig : s.totalRewardFund * maxR < o.rewardAmount * maxR := mul_lt_mul_of_pos_right (not_le.mp hlt) hmax
    have hmore : (o.rewardAmount : Int) * maxR ≤ o.rewardAmount * (s.totalRewardShares + maxR) := by
      refine mul_le_mul_of_nonneg_left ?_ hcast.le
      omega
    omega
  · intro heq
    rw [← heq, mul_add] at hmul
    have hzero : (o.rewardAmount : Int) * s.totalRewardShares ≤ 0 := by omega
    by_contra hne
    have hT : (0 : Int) < s.totalRewardShares := by omega
    exact absurd hzero (not_le.mpr (mul_pos hcast hT))

/-- **When the evaluator divides by zero**: everything that is checked before holds, nobody competes for the fund, and
    the reward is all of it. -/
theorem fixedAwardPart_zeroDivisor : s.fixedAwardPart o = .error .zeroDivisor ↔
    o.Checked s ∧ s.totalRewardShares = 0 ∧ (o.rewardAmount : Int) = s.totalRewardFund := by
  constructor
  · intro h
    unfold fixedAwardPart calcRshareAward at h
    simp only [bind_assoc] at h
    obtain ⟨hvalid, h⟩ := past_require h (by decide)
    obtain ⟨hfork, h⟩ := past_require h (by decide)
    obtain ⟨hin, h⟩ := past_getAccount h (by decide)
    obtain ⟨hin', h⟩ := past_getAccount h (by decide)
    obtain ⟨henergy, h⟩ := past_require h (by decide)
    obtain hno | ⟨-, hshares, h⟩ := past_mulDiv h
    · exact absurd hno (by decide)
    obtain ⟨hmax, h⟩ := past_require h (by decide)
    have hc : o.Checked s := ⟨hvalid, hfork, hin, hin', henergy, hshares, hmax⟩
    obtain hno | ⟨hden, hnn, h⟩ := past_mulDiv h
    · omega
    obtain ⟨hra, h⟩ := past_require h (by decide)
    have hreward := reward_lt_fund (o := o) (calcRshareAward_of hmax hden hnn) hra hvalid.1
    obtain hzero | ⟨-, -, h⟩ := past_mulDiv h
    · have heq : (o.rewardAmount : Int) = s.totalRewardFund := by omega
      exact ⟨hc, hreward.2 heq, heq⟩
    · -- the last divisor is not zero
      obtain ⟨-, h⟩ := past_require h (by decide)
      obtain hno | ⟨-, -, h⟩ := past_mulDiv h
      · exact absurd hmax (not_lt.mpr hno)
      · cases h
  · rintro ⟨hc, hT, heq⟩
    have hmax : 0 < o.shares s * o.maxEnergy / Config.hundredPercent := hc.rshares
    have hra : (0 : Int) < o.rewardAmount := by
      have hpos := hc.valid.1
      omega
    have hden : 0 < (s.totalRewardShares : Int) + o.shares s * o.maxEnergy / Config.hundredPercent := by omega
    have hnn : 0 ≤ s.totalRewardFund * (o.shares s * o.maxEnergy / Config.hundredPercent) :=
      mul_nonneg (by omega) hmax.le
    -- nobody competes, so the whole fund could be claimed
    have hall : (o.rewardAmount : Int) ≤ s.totalRewardFund * (o.shares s * o.maxEnergy / Config.hundredPercent) /
        (s.totalRewardShares + o.shares s * o.maxEnergy / Config.hundredPercent) := by
      rw [hT, Nat.cast_zero, zero_add, Int.mul_ediv_cancel _ hmax.ne', heq]
    have hshares : 0 ≤ (s.accounts.row o.initiator).effectiveVestingShares * o.maxEnergy := hc.shares
    have hwhole : (0 : Int) < Config.hundredPercent := by decide
    unfold fixedAwardPart
    rw [require_bind hc.valid, require_bind hc.enabled, getAccount_bind hc.initiator, getAccount_bind hc.receiver]
    dsimp only
    rw [require_bind hc.energy, mulDiv_bind hwhole hshares]
    show (s.calcRshareAward (o.shares s * o.maxEnergy / Config.hundredPercent) >>= _) = _
    rw [calcRshareAward_of hmax hden hnn]
    show (require _ _ >>= _) = _
    rw [require_bind hall]
    unfold mulDiv
    rw [heq, sub_self]
    rfl

end Divisions

/-! ## The course -/

/-- **What an award is judged by**: the three funds, and the energy of every account. -/
structure Stands (fund reward committee : Int) (energy : AccountName → Int) (s : Ledger) : Prop where
  fund      : s.totalVestingFund = fund
  reward    : s.totalRewardFund = reward
  committee : s.committeeFund = committee
  energy    : ∀ n, (s.accounts.row n).energy = energy n

section Course

variable {fund reward committee x : Int} {energy : AccountName → Int} {name : AccountName} {left : Nat}
  {f : Account → Account}

/-- A change of an account that leaves its energy. -/
theorem Stands.modify (h : Stands fund reward committee energy s)
    (hf : (f (s.accounts.row name)).energy = (s.accounts.row name).energy) :
    Stands fund reward committee energy (s.modifyAccount name f) := by
  refine ⟨h.fund, h.reward, h.committee, ?_⟩
  intro n
  rw [← h.energy n]
  show ((s.accounts.modify name f).row n).energy = _
  by_cases hn : n = name
  · rw [hn, Table.modify_row_self, hf]
  · rw [Table.modify_row_of_ne hn]

theorem adjustEach_stands (h : Stands fund reward committee energy s) :
    Returns (Stands fund reward committee energy) (s.adjustEach name x) := by
  refine .foldlM ?_ h
  intro s₁ v h₁
  unfold adjustValidatorVote
  exact .after fun _ _ => .after fun _ _ => .pure ⟨h₁.fund, h₁.reward, h₁.committee, h₁.energy⟩

theorem adjustValidatorVotes_stands (h : Stands fund reward committee energy s) :
    Returns (Stands fund reward committee energy) (s.adjustValidatorVotes name x) := by
  unfold adjustValidatorVotes
  refine .after fun _ _ => .ite (fun _ => .ite (fun _ => ?_) (fun _ => .pure h)) (fun _ => adjustEach_stands h)
  exact adjustEach_stands (h.modify rfl)

theorem adjustProxiedBy_stands (h : Stands fund reward committee energy s) :
    Returns (Stands fund reward committee energy) (adjustProxiedBy x left name s) := by
  induction left generalizing name s with
  | zero =>
      unfold adjustProxiedBy
      exact .after fun _ _ => .ite (fun _ => .pure h) (fun _ => adjustValidatorVotes_stands h)
  | succ left ih =>
      unfold adjustProxiedBy
      refine .after fun _ _ => .ite (fun _ => .after fun _ _ => ?_) (fun _ => adjustValidatorVotes_stands h)
      exact ih (h.modify rfl)

/-- **What is vested goes to the vesting fund.** -/
theorem createVesting_stands {tokens : Int} (h : Stands fund reward committee energy s) :
    Returns (Stands (fund + tokens) reward committee energy) (s.createVesting name tokens) := by
  unfold createVesting
  refine .after fun n _ => .after fun _ _ => adjustProxiedBy_stands ?_
  have hadded : Stands fund reward committee energy
      (s.modifyAccount name (fun r => { r with vestingShares := r.vestingShares + n })) := h.modify rfl
  exact ⟨congrArg (· + tokens) hadded.fund, hadded.reward, hadded.committee, hadded.energy⟩

/-- **The beneficiaries and the receiver** together have what was meant for the receiver, or what the beneficiaries are
    due if that is more. -/
theorem payAward_stands {bs : List Beneficiary} {tokens own : Int} (h : Stands fund reward committee energy s) :
    Returns (Stands (fund + max own (beneficiariesDue tokens bs)) reward committee energy)
      (s.payAward name bs tokens own) := by
  unfold payAward
  have hone : ∀ (p : Ledger × Int) (b : Beneficiary), Stands (fund + p.2) reward committee energy p.1 →
      Returns (fun q : Ledger × Int => Stands (fund + q.2) reward committee energy q.1) (payBeneficiary tokens p b) := by
    intro p b hp
    unfold payBeneficiary
    refine (createVesting_stands hp).bind fun s₁ h₁ => .pure ?_
    rw [add_assoc] at h₁
    exact h₁.modify rfl
  have hzero : Stands (fund + 0) reward committee energy s := (add_zero fund).symm ▸ h
  refine .after fun p hp => ?_
  obtain ⟨s₁, paid⟩ := p
  obtain ⟨hpaid, -⟩ := payBeneficiaries_course (P := ⟨True, True⟩) hp
  have h₁ : Stands (fund + paid) reward committee energy s₁ := Returns.foldlM hone hzero (s₁, paid) hp
  rw [zero_add] at hpaid
  subst hpaid
  refine .ite (fun hpos => ?_) (fun hno => .pure ?_)
  · refine (createVesting_stands h₁).bind fun s₂ h₂ => .pure ?_
    rw [add_assoc, add_sub_cancel] at h₂
    rw [max_eq_left (by omega)]
    exact h₂.modify rfl
  · rw [max_eq_right (by omega)]
    exact h₁

end Course

section FixedAward

variable {producing : Bool} {o : FixedAward}

/-- What is counted is not zero, or the check behind it refuses. -/
theorem fixedAwardPaid_eq_ok {energy c : Int} (h : s.fixedAwardPaid producing o energy c = .ok s') :
    0 < c ∧ ∃ tokens s₂, tokens = s.totalRewardFund * c / (s.totalRewardShares + c) ∧
      (o.rewardAmount : Int) ≤ tokens ∧
      ((s.claimed tokens c).spendEnergy o.initiator energy).payAward o.receiver o.beneficiaries tokens o.rewardAmount
        = .ok s₂ ∧
      (if 0 < tokens - o.rewardAmount then s₂.adjustCommitteeFund (tokens - o.rewardAmount) else s₂) = s' := by
  unfold fixedAwardPaid at h
  by_cases hzero : c = 0
  · rw [if_pos hzero] at h
    simp only [bind_eq_ok, require_eq_ok] at h
    obtain ⟨-, -, -, -, -, hne, -⟩ := h
    exact absurd hzero hne
  · rw [if_neg hzero] at h
    simp only [claimRshareAward, calcRshareAward, bind_eq_ok, require_eq_ok, mulDiv_eq_ok, pure_eq_ok] at h
    obtain ⟨t, ⟨-, hpos, -, -, rfl⟩, -, hle, -, -, r, ⟨t', ⟨-, -, -, -, rfl⟩, rfl⟩, -, -, -, -, s₂, hpay, hend⟩ := h
    refine ⟨hpos, _, s₂, rfl, hle, hpay, ?_⟩
    dsimp only at hend
    by_cases hdon : 0 < s.totalRewardFund * c / (s.totalRewardShares + c) - o.rewardAmount
    · rw [if_pos hdon] at hend ⊢
      exact Except.ok.inj hend
    · rw [if_neg hdon] at hend ⊢
      exact Except.ok.inj hend

/-- **Everything an accepted fixed award does** to the funds and to the energy. -/
theorem fixedAward_eq_ok (h : fixedAward producing s o = .ok s') :
    o.Checked s ∧ o.rewardAmount < s.totalRewardFund ∧ o.neededRshares s ≤ o.maxRshares s ∧
    (o.rewardAmount : Int) ≤ o.claim s ∧
    Stands (s.totalVestingFund + max (o.rewardAmount : Int) (beneficiariesDue (o.claim s) o.beneficiaries))
      (s.totalRewardFund - o.claim s) (s.committeeFund + (o.claim s - o.rewardAmount))
      (fun n => if n = o.initiator then (s.accounts.row o.initiator).currentEnergy s.time - o.needEnergy s
        else (s.accounts.row n).energy) s' := by
  rw [fixedAward_eq] at h
  obtain ⟨r, hpart, h⟩ := bind_eq_ok.mp h
  obtain ⟨hc, hlt, hle, rfl⟩ := fixedAwardPart_eq_ok hpart
  unfold fixedAwardRest at h
  dsimp only at h
  obtain ⟨counting, hcounting, h⟩ := bind_eq_ok.mp h
  obtain ⟨-, -, rfl⟩ := mulDiv_eq_ok.mp hcounting
  have h : s.fixedAwardPaid producing o ((s.accounts.row o.initiator).currentEnergy s.time - o.needEnergy s)
      (if o.rshares s < s.medianProps.voteAccountingMinRshares then 0 else o.rshares s) = .ok s' := h
  by_cases hmin : o.rshares s < s.medianProps.voteAccountingMinRshares
  · rw [if_pos hmin] at h
    exact absurd (fixedAwardPaid_eq_ok h).1 (lt_irrefl 0)
  rw [if_neg hmin] at h
  obtain ⟨-, tokens, s₂, htokens, hle', hpay, hend⟩ := fixedAwardPaid_eq_ok h
  have hclaim : tokens = o.claim s := htokens
  clear htokens
  subst hclaim
  refine ⟨hc, hlt, hle, hle', ?_⟩
  have hspent : Stands s.totalVestingFund (s.totalRewardFund - o.claim s) s.committeeFund
      (fun n => if n = o.initiator then (s.accounts.row o.initiator).currentEnergy s.time - o.needEnergy s
        else (s.accounts.row n).energy)
      ((s.claimed (o.claim s) (o.rshares s)).spendEnergy o.initiator ((s.accounts.row o.initiator).currentEnergy s.time - o.needEnergy s)) := by
    refine ⟨rfl, rfl, rfl, ?_⟩
    intro n
    unfold spendEnergy modifyAccount claimed
    dsimp only
    by_cases hn : n = o.initiator
    · rw [hn, Table.modify_row_self, if_pos rfl]
    · rw [Table.modify_row_of_ne hn, if_neg hn]
  have h₂ := payAward_stands hspent s₂ hpay
  rw [← hend]
  by_cases hdon : 0 < o.claim s - o.rewardAmount
  · rw [if_pos hdon]
    exact ⟨h₂.fund, h₂.reward, congrArg (· + (o.claim s - o.rewardAmount)) h₂.committee, h₂.energy⟩
  · rw [if_neg hdon]
    refine ⟨h₂.fund, h₂.reward, ?_, h₂.energy⟩
    have hnone : o.claim s - o.rewardAmount = 0 := by omega
    rw [hnone, add_zero]
    exact h₂.committee

/-! ## Conservation -/

/-- **What a fixed award moves.** The reward fund loses what was claimed; the beneficiaries and the receiver have the
    reward, the committee fund has the rest, and nothing else comes out. This is so exactly when the beneficiaries are
    not due more than the reward. -/
theorem fixedAward_conserves (h : fixedAward producing s o = .ok s') :
    (s.totalRewardFund - s'.totalRewardFund =
        (s'.totalVestingFund - s.totalVestingFund) + (s'.committeeFund - s.committeeFund) ∧
      s'.totalVestingFund - s.totalVestingFund = o.rewardAmount) ↔
    beneficiariesDue (o.claim s) o.beneficiaries ≤ o.rewardAmount := by
  obtain ⟨-, -, -, -, hs⟩ := fixedAward_eq_ok h
  rw [hs.fund, hs.reward, hs.committee]
  constructor
  · rintro ⟨-, hvested⟩
    have hmax : max (o.rewardAmount : Int) (beneficiariesDue (o.claim s) o.beneficiaries) = o.rewardAmount := by omega
    exact max_eq_left_iff.mp hmax
  · intro hdue
    rw [max_eq_left hdue]
    constructor
    · ring
    · ring

end FixedAward

namespace Sample

/-- Alice awards Bob, with so much in the reward fund and so many shares that compete for it. -/
def awarding (fund : Int) (competing : Nat) (stake energy : Int) : Ledger :=
  { start with
    totalRewardFund   := fund
    totalRewardShares := competing
    awardExpires      := [(1000000 + Config.energyRegenerationSeconds, competing)]
    accounts          := (start.accounts.insert alice
      { (default : Account) with vestingShares := stake, energy := energy, lastVoteTime := 1000000 }).insert bob default }

/-- Bob is to have a thousand, and one beneficiary its weight of what is claimed. -/
def thousand (weight : Nat) : FixedAward where
  initiator     := alice
  receiver      := bob
  rewardAmount  := 1000000
  maxEnergy     := 10000
  beneficiaries := [{ account := bob, weight := weight }]

end Sample

/-- A hundredth for the beneficiary: the committee fund has what was claimed above the reward. -/
theorem fixedAward_conserves_sample :
    ∃ s', fixedAward false (Sample.awarding 1000000000 1000000000 10000000000 10000) (Sample.thousand 100) = .ok s' ∧
      1000000000 - s'.totalRewardFund =
        (s'.totalVestingFund - Sample.start.totalVestingFund) + (s'.committeeFund - Sample.start.committeeFund) ∧
      s'.totalVestingFund - Sample.start.totalVestingFund = 1000000 := by
  obtain ⟨s', hs, -⟩ := exists_of_passes (p := fun _ => true)
    (r := fixedAward false (Sample.awarding 1000000000 1000000000 10000000000 10000) (Sample.thousand 100))
    (by decide +kernel)
  exact ⟨s', hs, (fixedAward_conserves hs).mpr (by decide +kernel)⟩

/-- **The committee fund has what was claimed above the reward, and the beneficiary has it too**: 1996.007 tokens leave
    the reward fund for an award of a thousand, the beneficiary has all of them, and the committee fund has 996.007. -/
theorem fixedAward_makes_tokens :
    ∃ s', fixedAward false (Sample.awarding 1000000000 1000000000 10000000000 10000) (Sample.thousand 10000) = .ok s' ∧
      1000000000 - s'.totalRewardFund = 1996007 ∧
      s'.totalVestingFund - Sample.start.totalVestingFund = 1996007 ∧
      s'.committeeFund - Sample.start.committeeFund = 996007 := by
  obtain ⟨s', hs, hp⟩ := exists_of_passes
    (r := fixedAward false (Sample.awarding 1000000000 1000000000 10000000000 10000) (Sample.thousand 10000))
    (p := fun s' => decide (1000000000 - s'.totalRewardFund = 1996007 ∧
      s'.totalVestingFund - Sample.start.totalVestingFund = 1996007 ∧
      s'.committeeFund - Sample.start.committeeFund = 996007)) (by decide +kernel)
  exact ⟨s', hs, of_decide_eq_true hp⟩

/-! ## Energy -/

section Energy

variable {producing : Bool} {o : FixedAward}

/-- **The step that is added is one too many when all of the limit is needed**, unless the limit is all there is. -/
theorem needEnergy_le_iff (hc : o.Checked s) (hle : o.neededRshares s ≤ o.maxRshares s) :
    o.needEnergy s ≤ o.maxEnergy ↔ o.neededRshares s ≠ o.maxRshares s ∨ o.maxEnergy = Config.hundredPercent := by
  have hmax : 0 < o.maxRshares s := hc.rshares
  have hwhole : o.maxEnergy ≤ Config.hundredPercent := hc.valid.2.1
  have hlimit : (0 : Int) < o.maxEnergy := by
    by_contra hno
    have hzero : (o.maxEnergy : Int) = 0 := by omega
    have hnone : o.maxRshares s = 0 := by
      unfold FixedAward.maxRshares
      rw [hzero, mul_zero, Int.zero_ediv]
    omega
  unfold FixedAward.needEnergy
  by_cases hall : o.neededRshares s = o.maxRshares s
  · -- all of it is needed, and one more
    rw [hall, Int.mul_ediv_cancel_left _ hmax.ne']
    constructor
    · intro h
      right
      omega
    · rintro (hne | hfull)
      · exact absurd rfl hne
      · rw [hfull]
        exact min_le_right _ _
  · have hlt : o.neededRshares s < o.maxRshares s := by omega
    have hpart : o.neededRshares s * o.maxEnergy / o.maxRshares s < o.maxEnergy := by
      apply Int.ediv_lt_of_lt_mul hmax
      rw [mul_comm]
      exact mul_lt_mul_of_pos_left hlt hlimit
    constructor
    · intro _
      exact .inl hall
    · intro _
      exact (min_le_left _ _).trans (by omega)

/-- **What a fixed award takes.** An accepted one spends no more energy than its limit, and leaves the initiator with
    no less than none, exactly when not all reward shares of the limit are needed or the limit is the whole energy.
    And what is computed up to the last division ends at a division by zero exactly when everything that is checked
    before holds, nobody competes for the fund, and the reward is all of it. -/
theorem fixedAward_energy (producing : Bool) (s : Ledger) (o : FixedAward) :
    (∀ s', fixedAward producing s o = .ok s' →
      (((s.accounts.row o.initiator).currentEnergy s.time - (s'.accounts.row o.initiator).energy ≤ o.maxEnergy ∧
          0 ≤ (s'.accounts.row o.initiator).energy) ↔
        o.neededRshares s ≠ o.maxRshares s ∨ o.maxEnergy = Config.hundredPercent)) ∧
    fixedAward producing s o = s.fixedAwardPart o >>= fixedAwardRest producing s o ∧
    (s.fixedAwardPart o = .error .zeroDivisor ↔
      o.Checked s ∧ s.totalRewardShares = 0 ∧ (o.rewardAmount : Int) = s.totalRewardFund) := by
  refine ⟨?_, fixedAward_eq producing o, fixedAwardPart_zeroDivisor⟩
  intro s' h
  obtain ⟨hc, -, hle, -, hs⟩ := fixedAward_eq_ok h
  rw [hs.energy, if_pos rfl, sub_sub_cancel, ← needEnergy_le_iff hc hle]
  constructor
  · rintro ⟨hspent, -⟩
    exact hspent
  · intro hspent
    have henergy := hc.energy.2
    constructor
    · exact hspent
    · omega

end Energy

namespace Sample

/-- Alice gives Bob so much of the fund, for half of her energy at most. -/
def half (reward : Nat) : FixedAward where
  initiator     := alice
  receiver      := bob
  rewardAmount  := reward
  maxEnergy     := 5000
  beneficiaries := []

end Sample

/-- A quarter of the fund takes a third of the limit. -/
theorem fixedAward_energy_sample :
    ∃ s', fixedAward false (Sample.awarding 100000000 100000000 200000000 5000) (Sample.half 25000000) = .ok s' ∧
      5000 - (s'.accounts.row Sample.alice).energy ≤ 5000 ∧ 0 ≤ (s'.accounts.row Sample.alice).energy := by
  obtain ⟨s', hs, -⟩ := exists_of_passes (p := fun _ => true)
    (r := fixedAward false (Sample.awarding 100000000 100000000 200000000 5000) (Sample.half 25000000))
    (by decide +kernel)
  exact ⟨s', hs, ((fixedAward_energy _ _ _).1 s' hs).mpr (by decide +kernel)⟩

/-- **Both go wrong.** Half of the fund takes all of the limit and one step more, and the energy is below zero. All of
    the fund, when nobody competes for it, takes a division by zero. -/
theorem fixedAward_outspends :
    (∃ s', fixedAward false (Sample.awarding 100000000 100000000 200000000 5000) (Sample.half 50000000) = .ok s' ∧
      (Sample.half 50000000).maxEnergy = 5000 ∧ (s'.accounts.row Sample.alice).energy = -1) ∧
    fixedAward false (Sample.awarding 100000000 0 200000000 5000) (Sample.half 100000000) = .error .zeroDivisor := by
  constructor
  · obtain ⟨s', hs, hp⟩ := exists_of_passes
      (r := fixedAward false (Sample.awarding 100000000 100000000 200000000 5000) (Sample.half 50000000))
      (p := fun s' => decide ((s'.accounts.row Sample.alice).energy = -1)) (by decide +kernel)
    exact ⟨s', hs, rfl, of_decide_eq_true hp⟩
  · rw [fixedAward_eq, fixedAwardPart_zeroDivisor.mpr]
    · rfl
    · exact ⟨⟨by decide +kernel, by decide +kernel, by decide +kernel, by decide +kernel, by decide +kernel,
        by decide +kernel, by decide +kernel⟩, rfl, rfl⟩

end Ledger

end VizNode
