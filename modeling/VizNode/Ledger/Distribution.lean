import VizNode.Ledger.Instalments
import VizNode.Ledger.VoteDates

/-!
# `VizNode.Ledger.Distribution` — what stakeholders are paid at the end of an epoch

At the end of an epoch the pools of the validators are paid out one after another. A pool goes to those who vote for the
validator, each by its weight times the blocks of the epoch since its vote, rounded down; what is left goes to the
validator. Each pool is paid out to the last token.

**The weights are those of the moment.** What is paid from one pool becomes shares, so it counts in the weights for the
next one. The blocks are those of the start: a payout neither casts a vote nor moves the head.

## Contents
- **The parts.** `contribution`, `payout`, `payments` and that they come to the whole pool.
- **Buying shares.** `buy`, and what `createVesting` does account by account.
- **One pool.** `PoolPaid` and `distributePool_paid`.
- **The epoch.** `PoolTurns`, `EpochEnds`, and all pools together.
-/

namespace VizNode

namespace Ledger

variable {s s' v : Ledger} {a c owner : AccountName} {start : Nat} {names : Names}

/-! ## The parts -/

/-- The blocks of the epoch since an account voted for the validator, the block of its vote's date included. -/
def blocksVoted (s : Ledger) (start : Nat) (owner a : AccountName) : Nat :=
  (s.votes.find (a, owner)).elim 0 (fun created => s.headBlockNumber + 1 - max created start)

/-- Weight times blocks. -/
def contribution (s : Ledger) (start : Nat) (owner a : AccountName) : Nat :=
  (s.accounts.row a).validatorVoteFairWeight.toNat * s.blocksVoted start owner a

/-- All contributions to a validator. -/
def contributions (s : Ledger) (start : Nat) (owner : AccountName) : Nat :=
  (s.accounts.keys.map (s.contribution start owner)).sum

/-- The part of a voter in a pool, rounded down, when the weights are those of `v`. -/
def payout (v : Ledger) (start : Nat) (owner : AccountName) (pool : Nat) (a : AccountName) : Nat :=
  pool * v.contribution start owner a / v.contributions start owner

/-- The parts that are paid: a part below the minimum is not. -/
def parts (v : Ledger) (start : Nat) (owner : AccountName) (pool : Nat) : List (AccountName × Nat) :=
  (v.accounts.keys.filter (fun a => decide (Config.minStakeholderRewardPayout ≤ v.payout start owner pool a))).map
    (fun a => (a, v.payout start owner pool a))

/-- **What is paid out of a pool**: the parts, and what they leave to the validator. -/
def payments (v : Ledger) (start : Nat) (owner : AccountName) (pool : Nat) : List (AccountName × Int) :=
  let given := ((v.parts start owner pool).map Prod.snd).sum
  (v.parts start owner pool).map (fun e => (e.1, (e.2 : Int))) ++
    if given < pool then [(owner, ((pool - given : Nat) : Int))] else []

theorem sum_filter_le (p : AccountName → Bool) (f : AccountName → Nat) (l : List AccountName) :
    ((l.filter p).map f).sum ≤ (l.map f).sum := by
  induction l with
  | nil => exact le_rfl
  | cons x l ih =>
      rw [List.map_cons, List.sum_cons]
      by_cases hp : p x = true
      · rw [List.filter_cons_of_pos hp, List.map_cons, List.sum_cons]
        exact Nat.add_le_add_left ih _
      · rw [List.filter_cons_of_neg hp]
        exact ih.trans (Nat.le_add_left _ _)

/-- Parts that are rounded down are not more than the whole. -/
theorem sum_payouts_mul_le (f : AccountName → Nat) (pool whole : Nat) (l : List AccountName) :
    ((l.map (fun a => pool * f a / whole)).sum) * whole ≤ pool * (l.map f).sum := by
  induction l with
  | nil => simp
  | cons x l ih =>
      rw [List.map_cons, List.sum_cons, List.map_cons, List.sum_cons, Nat.add_mul, Nat.mul_add]
      exact Nat.add_le_add (Nat.div_mul_le_self _ _) ih

theorem parts_le (v : Ledger) (start : Nat) (owner : AccountName) (pool : Nat) :
    ((v.parts start owner pool).map Prod.snd).sum ≤ pool := by
  have hmap : (v.parts start owner pool).map Prod.snd = (v.accounts.keys.filter
      (fun a => decide (Config.minStakeholderRewardPayout ≤ v.payout start owner pool a))).map
        (v.payout start owner pool) := by
    unfold parts
    rw [List.map_map]
    rfl
  rw [hmap]
  refine (sum_filter_le _ _ _).trans ?_
  have hmul := sum_payouts_mul_le (v.contribution start owner) pool (v.contributions start owner) v.accounts.keys
  by_cases hzero : v.contributions start owner = 0
  · -- nobody votes
    have hnone : ∀ a, v.payout start owner pool a = 0 := fun a => by
      unfold payout
      rw [hzero, Nat.div_zero]
    have hsum : (v.accounts.keys.map (v.payout start owner pool)).sum = 0 :=
      List.sum_eq_zero fun x hx => by
        obtain ⟨a, -, rfl⟩ := List.mem_map.mp hx
        exact hnone a
    rw [hsum]
    exact Nat.zero_le _
  · exact Nat.le_of_mul_le_mul_right hmul (Nat.pos_of_ne_zero hzero)

/-- **The payments come to the whole pool.** -/
theorem payments_whole (pool : Nat) : ((v.payments start owner pool).map Prod.snd).sum = pool := by
  have hle := parts_le v start owner pool
  have hcast : (((v.parts start owner pool).map (fun e => (e.1, (e.2 : Int)))).map Prod.snd).sum =
      (((v.parts start owner pool).map Prod.snd).sum : Nat) := by
    generalize v.parts start owner pool = l
    induction l with
    | nil => rfl
    | cons e l ih =>
        rw [List.map_cons, List.map_cons, List.sum_cons, List.map_cons, List.sum_cons, ih]
        push_cast
        rfl
  unfold payments
  dsimp only
  rw [List.map_append, List.sum_append, hcast]
  split
  · rw [List.map_singleton, List.sum_singleton]
    omega
  · rw [List.map_nil, List.sum_nil]
    omega

/-! ## Buying shares -/

/-- The shares that tokens buy. -/
def sharesFor (p : Int × Int) (tokens : Int) : Result Int :=
  if p.1 = 0 ∨ p.2 = 0 then mulDiv tokens 1000000 1000 else mulDiv tokens p.2 p.1

/-- **Shares are bought**, by one account after another, each at the price the ones before it leave. -/
def buy : List (AccountName × Int) → Int × Int → Result (List (AccountName × Int) × (Int × Int))
  | [],          p => .ok ([], p)
  | (c, d) :: l, p => do
      let shares ← sharesFor p d
      let bought ← buy l (p.1 + d, p.2 + shares)
      return ((c, shares) :: bought.1, bought.2)

theorem tokensToShares_eq {d : Int} : s.tokensToShares d = sharesFor s.pool d := by
  unfold tokensToShares vestingSharePrice sharesFor pool
  split
  · rfl
  · rfl

theorem buy_append {l l' m m' : List (AccountName × Int)} {p p' p'' : Int × Int} (h : buy l p = .ok (m, p'))
    (h' : buy l' p' = .ok (m', p'')) : buy (l ++ l') p = .ok (m ++ m', p'') := by
  induction l generalizing p m with
  | nil =>
      obtain ⟨rfl, rfl⟩ := Prod.mk.inj (Except.ok.inj h)
      exact h'
  | cons e l ih =>
      unfold buy at h
      simp only [bind_eq_ok, pure_eq_ok] at h
      obtain ⟨shares, hshares, ⟨m₁, p₁⟩, hl, he⟩ := h
      obtain ⟨rfl, rfl⟩ := Prod.mk.inj he
      rw [List.cons_append]
      unfold buy
      rw [hshares]
      show (buy (l ++ l') (p.1 + e.2, p.2 + shares) >>= _) = _
      rw [ih hl]
      rfl

/-- **Paid in shares**: every account has what it bought, and no balance changes. -/
structure Bought (got : List (AccountName × Int)) (s s' : Ledger) : Prop where
  keys       : s'.accounts.keys = s.accounts.keys
  shares     : ∀ c ∈ s.accounts.keys, (s'.accounts.row c).vestingShares =
    (s.accounts.row c).vestingShares + receipts got c
  balance    : ∀ c ∈ s.accounts.keys, (s'.accounts.row c).balance = (s.accounts.row c).balance
  validators : Table.Same ValidatorAccount.pendingStakeholderReward s.validators s'.validators
  votes      : s'.votes = s.votes
  head       : s'.headBlockNumber = s.headBlockNumber

namespace Bought

theorem refl (s : Ledger) : Bought [] s s :=
  ⟨rfl, fun _ _ => (add_zero _).symm, fun _ _ => rfl, .refl, rfl, rfl⟩

theorem trans {got got' : List (AccountName × Int)} {s'' : Ledger} (h : Bought got s s') (h' : Bought got' s' s'') :
    Bought (got ++ got') s s'' where
  keys       := h'.keys.trans h.keys
  shares     := by
    intro c hc
    rw [h'.shares c (h.keys ▸ hc), h.shares c hc, receipts_append, add_assoc]
  balance    := fun c hc => (h'.balance c (h.keys ▸ hc)).trans (h.balance c hc)
  validators := h.validators.trans h'.validators
  votes      := h'.votes.trans h.votes
  head       := h'.head.trans h.head

end Bought

/-- **Tokens that become shares**, account by account. -/
theorem createVesting_bought {d : Int} (h : s.createVesting a d = .ok s') :
    ∃ got, buy [(a, d)] s.pool = .ok (got, s'.pool) ∧ Bought got s s' := by
  simp only [createVesting, bind_eq_ok, getAccount_eq_ok, tokensToShares_eq] at h
  obtain ⟨n, hn, -, ⟨ha, -⟩, h⟩ := h
  have hc := adjustProxiedValidatorVotes_carried h
  have hrest := hc.rest
  refine ⟨[(a, n)], ?_, hc.keys, fun c hmem => ?_, fun c hmem => ?_, ?_, ?_, ?_⟩
  · have hpool : s'.pool = (s.pool.1 + d, s.pool.2 + n) := by
      unfold pool
      rw [hrest]
      rfl
    unfold buy
    rw [hn, hpool]
    rfl
  · have hshares := congrArg AccountBook.vestingShares (hc.row c hmem)
    refine hshares.trans ?_
    have hrow := Table.modify_part (t := s.accounts) (k := a) (j := c) (p := fun x => x.vestingShares)
      (f := fun x => { x with vestingShares := x.vestingShares + n }) rfl
    refine hrow.trans ?_
    rw [receipts_cons]
    unfold receipts
    rw [List.map_nil, List.sum_nil, add_zero]
    simp only [eq_comm]
  · have hbal := congrArg AccountBook.balance (hc.row c hmem)
    refine hbal.trans ?_
    exact Table.modify_same (t := s.accounts) (p := fun x => x.balance)
      (f := fun x => { x with vestingShares := x.vestingShares + n }) rfl
  · exact ⟨hc.validators.keys, fun c hmem => congrArg Prod.snd (hc.validators.row c hmem)⟩
  · rw [hrest]
    rfl
  · rw [hrest]
    rfl

/-! ## One pool -/

/-- **The pool of a validator is paid out**, with the weights of `v`. -/
structure PoolPaid (v : Ledger) (start : Nat) (owner : AccountName) (s s' : Ledger) : Prop where
  bought  : ∃ got, buy (v.payments start owner (s.validators.row owner).pendingStakeholderReward) s.pool =
    .ok (got, s'.pool) ∧ ∀ c ∈ s.accounts.keys, (s'.accounts.row c).vestingShares =
      (s.accounts.row c).vestingShares + receipts got c
  balance : ∀ c ∈ s.accounts.keys, (s'.accounts.row c).balance = (s.accounts.row c).balance
  emptied : (s'.validators.row owner).pendingStakeholderReward = 0
  others  : ∀ w ∈ s.validators.keys, w ≠ owner →
    (s'.validators.row w).pendingStakeholderReward = (s.validators.row w).pendingStakeholderReward

/-- The products of the payout fit in 128 bits. -/
def FitsWidth (s : Ledger) (start : Nat) (owner : AccountName) : Prop :=
  ∀ a ∈ s.accounts.keys,
    (s.validators.row owner).pendingStakeholderReward * s.contribution start owner a < 2 ^ 128

instance : Decidable (s.FitsWidth start owner) := inferInstanceAs (Decidable (∀ a ∈ s.accounts.keys, _))

/-- **The stakeholders are paid**, one after another. -/
theorem payStakeholders_bought {total whole : Nat} {l : List (AccountName × Nat)} {p p' : Ledger × Nat}
    (hfits : ∀ e ∈ l, total * e.2 < 2 ^ 128) (h : l.foldlM (payStakeholder total whole) p = .ok p') :
    ∃ got, Bought got p.1 p'.1 ∧
      buy (((l.filter (fun e => decide (Config.minStakeholderRewardPayout ≤ total * e.2 / whole))).map
        (fun e => (e.1, total * e.2 / whole))).map (fun e => (e.1, (e.2 : Int)))) p.1.pool = .ok (got, p'.1.pool) ∧
      p'.2 = p.2 + (((l.filter (fun e => decide (Config.minStakeholderRewardPayout ≤ total * e.2 / whole))).map
        (fun e => (e.1, total * e.2 / whole))).map Prod.snd).sum := by
  induction l generalizing p with
  | nil =>
      obtain rfl := Except.ok.inj h
      exact ⟨[], .refl _, rfl, rfl⟩
  | cons e l ih =>
      rw [List.foldlM_cons, bind_eq_ok] at h
      obtain ⟨q, hq, h⟩ := h
      obtain ⟨got, hbought, hbuy, hpaid⟩ := ih (fun x hx => hfits x (List.mem_cons_of_mem _ hx)) h
      unfold payStakeholder at hq
      dsimp only at hq
      rw [Nat.mod_eq_of_lt (hfits e List.mem_cons_self)] at hq
      by_cases hmin : total * e.2 / whole < Config.minStakeholderRewardPayout
      · -- the part is below the minimum
        rw [if_pos hmin, pure_eq_ok] at hq
        subst hq
        rw [List.filter_cons_of_neg (by rw [decide_eq_true_eq]; omega)]
        exact ⟨got, hbought, hbuy, hpaid⟩
      · rw [if_neg hmin] at hq
        simp only [bind_eq_ok, pure_eq_ok] at hq
        obtain ⟨s₁, h₁, rfl⟩ := hq
        obtain ⟨got₁, hbuy₁, hbought₁⟩ := createVesting_bought h₁
        rw [List.filter_cons_of_pos (by rw [decide_eq_true_eq]; omega), List.map_cons, List.map_cons, List.map_cons,
          List.sum_cons]
        refine ⟨got₁ ++ got, hbought₁.trans hbought, buy_append (l := [(e.1, _)]) hbuy₁ hbuy, ?_⟩
        rw [hpaid]
        dsimp only
        omega

/-- Who votes for the validator, and what it contributes. -/
def stakeholder (s : Ledger) (start : Nat) (owner a : AccountName) : Option (AccountName × Nat) :=
  match s.votes.find (a, owner) with
  | none         => none
  | some created =>
      let weight := (s.accounts.row a).validatorVoteFairWeight
      if 0 < weight then some (a, weight.toNat * (s.headBlockNumber + 1 - max created start)) else none

theorem stakeholders_eq : s.stakeholders owner start = s.accounts.keys.filterMap (s.stakeholder start owner) := rfl

/-- Whoever is not among the stakeholders contributes nothing. -/
theorem stakeholder_eq (s : Ledger) (start : Nat) (owner a : AccountName) :
    s.stakeholder start owner a = some (a, s.contribution start owner a) ∨
    s.stakeholder start owner a = none ∧ s.contribution start owner a = 0 := by
  unfold stakeholder contribution blocksVoted
  cases s.votes.find (a, owner) with
  | none => exact .inr ⟨rfl, Nat.mul_zero _⟩
  | some created =>
      dsimp only [Option.elim_some]
      by_cases hpos : 0 < (s.accounts.row a).validatorVoteFairWeight
      · rw [if_pos hpos]
        exact .inl rfl
      · rw [if_neg hpos, Int.toNat_of_nonpos (Int.not_lt.mp hpos), Nat.zero_mul]
        exact .inr ⟨rfl, rfl⟩

/-- The weights of the stakeholders are the contributions. -/
theorem stakeholders_sum (s : Ledger) (start : Nat) (owner : AccountName) :
    ((s.stakeholders owner start).map Prod.snd).sum = s.contributions start owner := by
  rw [stakeholders_eq]
  unfold contributions
  induction s.accounts.keys with
  | nil => rfl
  | cons a l ih =>
      rw [List.filterMap_cons, List.map_cons, List.sum_cons]
      rcases stakeholder_eq s start owner a with hs | ⟨hs, hzero⟩
      · rw [hs]
        dsimp only
        rw [List.map_cons, List.sum_cons, ih]
      · rw [hs, hzero, Nat.zero_add]
        exact ih

/-- The parts of the stakeholders are the parts. -/
theorem stakeholders_parts (pool : Nat) : (((s.stakeholders owner start).filter (fun e => decide
    (Config.minStakeholderRewardPayout ≤ pool * e.2 / s.contributions start owner))).map
      (fun e => (e.1, pool * e.2 / s.contributions start owner))) = s.parts start owner pool := by
  rw [stakeholders_eq]
  unfold parts payout
  generalize s.contributions start owner = whole
  induction s.accounts.keys with
  | nil => rfl
  | cons a l ih =>
      rw [List.filterMap_cons]
      rcases stakeholder_eq s start owner a with hs | ⟨hs, hzero⟩
      · rw [hs]
        dsimp only
        by_cases hmin : Config.minStakeholderRewardPayout ≤ pool * s.contribution start owner a / whole
        · rw [List.filter_cons_of_pos (by rw [decide_eq_true_eq]; exact hmin),
            List.filter_cons_of_pos (by rw [decide_eq_true_eq]; exact hmin), List.map_cons, List.map_cons, ih]
        · rw [List.filter_cons_of_neg (by rw [decide_eq_true_eq]; exact hmin),
            List.filter_cons_of_neg (by rw [decide_eq_true_eq]; exact hmin), ih]
      · -- nothing is less than the minimum
        rw [hs]
        dsimp only
        have hnot : ¬ Config.minStakeholderRewardPayout ≤ pool * s.contribution start owner a / whole := by
          rw [hzero, Nat.mul_zero, Nat.zero_div]
          decide
        rw [List.filter_cons_of_neg (by rw [decide_eq_true_eq]; exact hnot)]
        exact ih

/-- **One pool is paid out.** -/
theorem distributePool_paid (hmem : owner ∈ s.accounts.keys)
    (hpool : (s.validators.row owner).pendingStakeholderReward ≠ 0) (hfits : s.FitsWidth start owner)
    (h : s.distributePool start owner = .ok s') : PoolPaid s start owner s s' := by
  have hsum := stakeholders_sum s start owner
  have hle := parts_le s start owner (s.validators.row owner).pendingStakeholderReward
  unfold distributePool at h
  dsimp only at h
  rw [if_neg (fun he => he.elim hpool fun hne => hne hmem), hsum] at h
  -- in each case the payments are bought, and then the pool is emptied
  have hpaid : ∃ got s₁, Bought got s s₁ ∧
      buy (s.payments start owner (s.validators.row owner).pendingStakeholderReward) s.pool = .ok (got, s₁.pool) ∧
      { s₁ with validators := s₁.validators.modify owner (fun w => { w with pendingStakeholderReward := 0 }) } = s' := by
    unfold payments
    dsimp only
    by_cases hnone : s.contributions start owner = 0
    · -- nobody votes, so there are no parts
      rw [if_pos hnone] at h
      simp only [bind_eq_ok, pure_eq_ok] at h
      obtain ⟨s₁, h₁, rfl⟩ := h
      obtain ⟨got, hbuy, hbought⟩ := createVesting_bought h₁
      have hparts : s.parts start owner (s.validators.row owner).pendingStakeholderReward = [] := by
        unfold parts payout
        rw [hnone, List.map_eq_nil_iff, List.filter_eq_nil_iff]
        intro a _
        rw [Nat.div_zero, decide_eq_true_eq]
        decide
      rw [hparts, List.map_nil, List.map_nil, List.sum_nil, if_pos (Nat.pos_of_ne_zero hpool)]
      exact ⟨got, s₁, hbought, hbuy, rfl⟩
    · rw [if_neg hnone] at h
      simp only [bind_eq_ok] at h
      obtain ⟨⟨s₁, paid⟩, h₁, h⟩ := h
      have hall : ∀ e ∈ s.stakeholders owner start,
          (s.validators.row owner).pendingStakeholderReward * e.2 < 2 ^ 128 := by
        intro e he
        rw [stakeholders_eq] at he
        obtain ⟨a, ha, hs⟩ := List.mem_filterMap.mp he
        rcases stakeholder_eq s start owner a with hs' | ⟨hs', -⟩
        · rw [hs'] at hs
          exact Option.some.inj hs ▸ hfits a ha
        · rw [hs'] at hs
          cases hs
      obtain ⟨got, hbought, hbuy, hgiven⟩ := payStakeholders_bought hall h₁
      rw [stakeholders_parts] at hbuy hgiven
      dsimp only at hbuy hgiven hbought h
      rw [Nat.zero_add] at hgiven
      subst hgiven
      obtain ⟨s₂, h₂, h⟩ := ite_bind_eq_ok h
      by_cases hdust : ((s.parts start owner (s.validators.row owner).pendingStakeholderReward).map Prod.snd).sum <
          (s.validators.row owner).pendingStakeholderReward
      · rw [if_pos (by omega)] at h₂
        obtain ⟨got₂, hbuy₂, hbought₂⟩ := createVesting_bought h₂
        rw [if_pos hdust]
        refine ⟨got ++ got₂, s₂, hbought.trans hbought₂, buy_append hbuy ?_, pure_eq_ok.mp h⟩
        rw [Nat.cast_sub hle]
        exact hbuy₂
      · rw [if_neg (by omega), pure_eq_ok] at h₂
        subst h₂
        rw [if_neg hdust, List.append_nil]
        exact ⟨got, s₁, hbought, hbuy, pure_eq_ok.mp h⟩
  obtain ⟨got, s₁, hbought, hbuy, rfl⟩ := hpaid
  refine ⟨⟨got, hbuy, hbought.shares⟩, hbought.balance, ?_, fun w hw hne => ?_⟩
  · dsimp only
    rw [Table.modify_row_self]
  · dsimp only
    rw [Table.modify_row_of_ne hne]
    exact hbought.validators.row w hw

/-! ## The epoch -/

/-- What paying out a pool leaves alone. -/
structure PoolFrame (owner : AccountName) (s s' : Ledger) : Prop where
  votes      : s'.votes = s.votes
  head       : s'.headBlockNumber = s.headBlockNumber
  accounts   : s'.accounts.keys = s.accounts.keys
  validators : s'.validators.keys = s.validators.keys
  others     : ∀ w ∈ s.validators.keys, w ≠ owner →
    (s'.validators.row w).pendingStakeholderReward = (s.validators.row w).pendingStakeholderReward

theorem PoolFrame.of_vested {s₁ : Ledger} (h : Vested s s₁) : PoolFrame owner s
    { s₁ with validators := s₁.validators.modify owner (fun w => { w with pendingStakeholderReward := 0 }) } where
  votes      := by
    rw [h.rest]
  head       := by
    rw [h.rest]
  accounts   := h.keys
  validators := h.validators.keys
  others     := by
    intro w hw hne
    dsimp only
    rw [Table.modify_row_of_ne hne]
    exact congrArg Prod.snd (h.validators.row w hw)

theorem distributePool_frame (h : s.distributePool start owner = .ok s') : PoolFrame owner s s' := by
  unfold distributePool at h
  dsimp only at h
  split at h
  · obtain rfl := pure_eq_ok.mp h
    exact ⟨rfl, rfl, rfl, rfl, fun _ _ _ => rfl⟩
  · split at h
    · simp only [bind_eq_ok, pure_eq_ok] at h
      obtain ⟨s₁, h₁, rfl⟩ := h
      exact .of_vested (createVesting_vest h₁).2.1
    · simp only [bind_eq_ok] at h
      obtain ⟨⟨s₁, paid⟩, h₁, h⟩ := h
      obtain ⟨-, -, hvested, -⟩ := payStakeholders_course (P := ⟨True, True⟩) h₁
      dsimp only at h
      obtain ⟨s₂, h₂, h⟩ := ite_bind_eq_ok h
      obtain rfl := pure_eq_ok.mp h
      split at h₂
      · exact .of_vested (hvested.trans (createVesting_vest h₂).2.1)
      · exact .of_vested (pure_eq_ok.mp h₂ ▸ hvested)

theorem distributePool_emptied (hpool : (s.validators.row owner).pendingStakeholderReward ≠ 0)
    (hmem : owner ∈ s.accounts.keys) (h : s.distributePool start owner = .ok s') :
    (s'.validators.row owner).pendingStakeholderReward = 0 := by
  unfold distributePool at h
  dsimp only at h
  rw [if_neg (fun he => he.elim hpool fun hne => hne hmem)] at h
  have hrow : ∀ s₁ : Ledger, (({ s₁ with validators := s₁.validators.modify owner (fun w =>
      { w with pendingStakeholderReward := 0 }) } : Ledger).validators.row owner).pendingStakeholderReward = 0 := by
    intro s₁
    dsimp only
    rw [Table.modify_row_self]
  split at h
  · simp only [bind_eq_ok, pure_eq_ok] at h
    obtain ⟨s₁, -, rfl⟩ := h
    exact hrow s₁
  · simp only [bind_eq_ok] at h
    obtain ⟨⟨s₁, paid⟩, -, h⟩ := h
    obtain ⟨s₂, -, h⟩ := ite_bind_eq_ok h
    exact pure_eq_ok.mp h ▸ hrow s₂

/-- A pool that was paid out: whose it was, and the ledgers around it. -/
structure PoolTurn where
  owner  : AccountName
  before : Ledger
  after  : Ledger

/-- **The pools are paid out one after another**: a validator without a pool or an account is passed over, and every
    other one has its turn in the ledger that the ones before it leave. -/
inductive PoolTurns (start : Nat) : List AccountName → List PoolTurn → Ledger → Ledger → Prop
  | nil (s : Ledger) : PoolTurns start [] [] s s
  | skip {s s' : Ledger} {owner : AccountName} {l : List AccountName} {ts : List PoolTurn}
      (h : (s.validators.row owner).pendingStakeholderReward = 0 ∨ owner ∉ s.accounts.keys)
      (hl : PoolTurns start l ts s s') : PoolTurns start (owner :: l) ts s s'
  | turn {s s₁ s' : Ledger} {owner : AccountName} {l : List AccountName} {ts : List PoolTurn}
      (hpool : (s.validators.row owner).pendingStakeholderReward ≠ 0) (hmem : owner ∈ s.accounts.keys)
      (h : s.distributePool start owner = .ok s₁) (hl : PoolTurns start l ts s₁ s') :
      PoolTurns start (owner :: l) (⟨owner, s, s₁⟩ :: ts) s s'

/-- The loop takes such turns. -/
theorem PoolTurns.of_foldlM {l : List AccountName} (h : l.foldlM (distributePool start) s = .ok s') :
    ∃ turns, PoolTurns start l turns s s' := by
  induction l generalizing s with
  | nil => exact ⟨[], Except.ok.inj h ▸ .nil s⟩
  | cons owner l ih =>
      rw [List.foldlM_cons, bind_eq_ok] at h
      obtain ⟨s₁, h₁, h⟩ := h
      obtain ⟨turns, hturns⟩ := ih h
      by_cases hskip : (s.validators.row owner).pendingStakeholderReward = 0 ∨ owner ∉ s.accounts.keys
      · have hsame : s = s₁ := by
          unfold distributePool at h₁
          dsimp only at h₁
          rw [if_pos hskip] at h₁
          exact pure_eq_ok.mp h₁
        exact ⟨turns, .skip hskip (hsame ▸ hturns)⟩
      · obtain ⟨hpool, hmem⟩ := not_or.mp hskip
        exact ⟨_, .turn hpool (not_not.mp hmem) h₁ hturns⟩

/-- What the turns of other validators leave as it was. -/
structure Awaits (s : Ledger) (u : Ledger) (l : List AccountName) : Prop where
  votes    : u.votes = s.votes
  head     : u.headBlockNumber = s.headBlockNumber
  accounts : u.accounts.keys = s.accounts.keys
  keys     : u.validators.keys = s.validators.keys
  pools    : ∀ w ∈ l, (u.validators.row w).pendingStakeholderReward = (s.validators.row w).pendingStakeholderReward

/-- **Whoever waits finds its pool**, the votes and the head as they were at the start. -/
theorem PoolTurns.spec {u : Ledger} {l : List AccountName} {turns : List PoolTurn}
    (h : PoolTurns start l turns u s') (hl : l.Nodup) (hmem : ∀ w ∈ l, w ∈ s.validators.keys) (ha : Awaits s u l) :
    (∀ t ∈ turns, Awaits s t.before [t.owner] ∧ t.before.distributePool start t.owner = .ok t.after ∧
      (s.validators.row t.owner).pendingStakeholderReward ≠ 0 ∧ t.owner ∈ s.accounts.keys) ∧
    (∀ w ∈ l, (s.validators.row w).pendingStakeholderReward ≠ 0 → w ∈ s.accounts.keys →
      (∃ t ∈ turns, t.owner = w) ∧ (s'.validators.row w).pendingStakeholderReward = 0) ∧
    ∀ w ∈ s.validators.keys, w ∉ l →
      (s'.validators.row w).pendingStakeholderReward = (u.validators.row w).pendingStakeholderReward := by
  induction h with
  | nil s =>
      exact ⟨fun t ht => absurd ht List.not_mem_nil, fun w hw => absurd hw List.not_mem_nil, fun _ _ _ => rfl⟩
  | @skip u s' owner l ts hskip _ ih =>
      obtain ⟨hnew, hl⟩ := List.nodup_cons.mp hl
      obtain ⟨hturns, hserved, hkept⟩ := ih hl (fun w hw => hmem w (List.mem_cons_of_mem _ hw))
        { ha with pools := fun w hw => ha.pools w (List.mem_cons_of_mem _ hw) }
      refine ⟨hturns, fun w hw hpool hacc => ?_, fun w hw hnot => hkept w hw fun h => hnot (List.mem_cons_of_mem _ h)⟩
      rcases List.mem_cons.mp hw with rfl | hw
      · rw [ha.pools w List.mem_cons_self, ha.accounts] at hskip
        exact absurd hskip (not_or.mpr ⟨hpool, not_not.mpr hacc⟩)
      · exact hserved w hw hpool hacc
  | @turn u s₁ s' owner l ts hpool hacc hpaid _ ih =>
      obtain ⟨hnew, hl⟩ := List.nodup_cons.mp hl
      have hf := distributePool_frame hpaid
      have hother : ∀ w ∈ l, w ≠ owner := fun w hw he => hnew (he ▸ hw)
      have hval : ∀ w ∈ s.validators.keys, w ∈ u.validators.keys := fun w hw => ha.keys.symm ▸ hw
      have hawaits : Awaits s s₁ l :=
        { votes    := hf.votes.trans ha.votes
          head     := hf.head.trans ha.head
          accounts := hf.accounts.trans ha.accounts
          keys     := hf.validators.trans ha.keys
          pools    := fun w hw => (hf.others w (hval w (hmem w (List.mem_cons_of_mem _ hw))) (hother w hw)).trans
            (ha.pools w (List.mem_cons_of_mem _ hw)) }
      obtain ⟨hturns, hserved, hkept⟩ := ih hl (fun w hw => hmem w (List.mem_cons_of_mem _ hw)) hawaits
      have hown := ha.pools owner List.mem_cons_self
      refine ⟨fun t ht => ?_, fun w hw hpool' hacc' => ?_, fun w hw hnot => ?_⟩
      · rcases List.mem_cons.mp ht with rfl | ht
        · refine ⟨{ ha with pools := fun w hw => ?_ }, hpaid, hown ▸ hpool, ha.accounts ▸ hacc⟩
          obtain rfl := List.mem_singleton.mp hw
          exact hown
        · exact hturns t ht
      · rcases List.mem_cons.mp hw with rfl | hw
        · refine ⟨⟨_, List.mem_cons_self, rfl⟩, ?_⟩
          rw [hkept w (hmem w List.mem_cons_self) hnew]
          exact distributePool_emptied hpool hacc hpaid
        · obtain ⟨⟨t, ht, he⟩, hzero⟩ := hserved w hw hpool' hacc'
          exact ⟨⟨t, List.mem_cons_of_mem _ ht, he⟩, hzero⟩
      · rw [List.mem_cons, not_or] at hnot
        obtain ⟨hne, hnot⟩ := hnot
        rw [hkept w hw hnot]
        exact hf.others w (hval w hw) hne

/-- **An epoch ends** with the block a node is at: expired things are cleared, and the block's reward is issued. -/
structure EpochEnds (names : Names) (s : Ledger) : Prop where
  block  : ∃ s₀ b s₁, Voted names s₀ ∧ (s₀.moveHead b).clearExpired = .ok s₁ ∧ s₁.readied.processFunds = .ok s
  length : s.medianProps.distributionEpochLength ≠ 0
  last   : s.headBlockNumber % s.medianProps.distributionEpochLength = 0

/-- The first block of the epoch. -/
def epochStart (s : Ledger) : Nat := s.headBlockNumber - s.medianProps.distributionEpochLength + 1

/-- **A voter's blocks are blocks of the epoch**, whatever its length has been before. -/
theorem EpochEnds.blocks_le (h : EpochEnds names s) (hvote : (a, owner) ∈ s.votes.keys) :
    1 ≤ s.blocksVoted s.epochStart owner a ∧
      s.blocksVoted s.epochStart owner a ≤ s.medianProps.distributionEpochLength := by
  obtain ⟨⟨s₀, b, s₁, hvoted, hclear, hfunds⟩, hlength, hlast⟩ := h
  have hmoved : Dated (s₀.headBlockNumber + 1) (s₀.moveHead b) := (hvoted.moveHead b).dated
  have hdated := processFunds_dated (clearExpired_dated hmoved _ hclear).readied _ hfunds
  have hhead : s.headBlockNumber = s₀.headBlockNumber + 1 := hdated.1
  have hdate := hdated.2 _ hvote
  -- the epoch is not longer than the chain
  have hle : s.medianProps.distributionEpochLength ≤ s.headBlockNumber :=
    Nat.le_of_dvd (by omega) (Nat.dvd_of_mod_eq_zero hlast)
  have hpos := Nat.pos_of_ne_zero hlength
  have hfind : s.votes.find (a, owner) = some (s.votes.row (a, owner)) := Table.find_eq_some.mpr ⟨hvote, rfl⟩
  unfold blocksVoted epochStart
  rw [hfind]
  dsimp only [Option.elim_some]
  omega

/-- **Stakeholders are paid.** At the end of an epoch the pool of every validator that has one and an account is paid
    out, one after another, and is empty behind it. Unless the products of its payout are above 128 bits, each voter has
    its part by the weights of the moment, and the validator the rest; the payments come to the pool. A voter's blocks
    are those at the start of the distribution, at least one and at most an epoch. -/
theorem stakeholders_paid (h : EpochEnds names s) (hs : s.processValidatorEpochDistribution = .ok s') :
    ∃ turns, PoolTurns s.epochStart (s.validators.keys.insertionSort (· ≤ ·)) turns s s' ∧
      (∀ w ∈ s.validators.keys, (s.validators.row w).pendingStakeholderReward ≠ 0 → w ∈ s.accounts.keys →
        (∃ t ∈ turns, t.owner = w) ∧ (s'.validators.row w).pendingStakeholderReward = 0) ∧
      ∀ t ∈ turns,
        (t.before.validators.row t.owner).pendingStakeholderReward =
          (s.validators.row t.owner).pendingStakeholderReward ∧
        (t.before.FitsWidth s.epochStart t.owner → PoolPaid t.before s.epochStart t.owner t.before t.after) ∧
        ((t.before.payments s.epochStart t.owner (s.validators.row t.owner).pendingStakeholderReward).map
          Prod.snd).sum = (s.validators.row t.owner).pendingStakeholderReward ∧
        ∀ a, (a, t.owner) ∈ s.votes.keys →
          t.before.blocksVoted s.epochStart t.owner a = s.blocksVoted s.epochStart t.owner a ∧
          1 ≤ s.blocksVoted s.epochStart t.owner a ∧
          s.blocksVoted s.epochStart t.owner a ≤ s.medianProps.distributionEpochLength := by
  unfold processValidatorEpochDistribution at hs
  dsimp only at hs
  rw [if_neg (fun he => he.elim h.length fun hne => hne h.last)] at hs
  obtain ⟨turns, hturns⟩ := PoolTurns.of_foldlM hs
  have hnodup : (s.validators.keys.insertionSort (· ≤ ·)).Nodup :=
    (List.perm_insertionSort _ _).nodup_iff.mpr s.validators.nodup
  obtain ⟨hspec, hserved, -⟩ := hturns.spec (s := s) hnodup (fun w hw => (List.mem_insertionSort _).mp hw)
    ⟨rfl, rfl, rfl, rfl, fun _ _ => rfl⟩
  refine ⟨turns, hturns, fun w hw => hserved w ((List.mem_insertionSort _).mpr hw), fun t ht => ?_⟩
  obtain ⟨hawaits, hpaid, hpool, hacc⟩ := hspec t ht
  have hown := hawaits.pools t.owner List.mem_cons_self
  refine ⟨hown, fun hfits => ?_, payments_whole _, fun a hvote => ⟨?_, h.blocks_le hvote⟩⟩
  · exact distributePool_paid (hawaits.accounts.symm ▸ hacc) (hown.symm ▸ hpool) hfits hpaid
  · unfold blocksVoted
    rw [hawaits.votes, hawaits.head]

namespace Sample

/-- Alice and the initiator are validators that share all of their rewards. Alice votes for both of them, Bob for the
    initiator. -/
def votingPlan : List Operation :=
  [openAccount alice 7, openAccount bob 8, .transfer ⟨Config.initiatorName, alice, 10000, none⟩,
    .validatorUpdate Config.initiatorName, .validatorUpdate alice,
    .setRewardSharing Config.initiatorName 10000, .setRewardSharing alice 10000,
    .accountValidatorVote alice alice true, .accountValidatorVote alice Config.initiatorName true,
    .accountValidatorVote bob Config.initiatorName true]

/-- 29 epochs later, but for two blocks: the validators' part of the inflation is recalculated by then. -/
def epochsLater (s : Ledger) : Ledger := { s with headBlockNumber := 835198 }

/-- The last blocks of the epoch are Alice's and the initiator's. -/
def lastBlocks (p : Ledger → Bool) (s : Ledger) : Bool :=
  passes ((epochsLater s).moveHead ⟨alice, 3505594⟩).clearExpired fun s =>
    passes s.processRewards fun s =>
      passes (s.moveHead ⟨Config.initiatorName, 3505597⟩).clearExpired fun s =>
        passes s.readied.processFunds fun s =>
          decide (s.medianProps.distributionEpochLength ≠ 0 ∧
            s.headBlockNumber % s.medianProps.distributionEpochLength = 0) && p s

/-- What a test finds at the end of that epoch. -/
theorem exists_epochEnds {p : Ledger → Bool} (h : passes (votingPlan.foldlM (evaluate Sample.names loc) Sample.start)
    (fun s => decide (s.headBlockNumber ≤ 835198) && lastBlocks p s) = true) :
    ∃ s, EpochEnds Sample.names s ∧ p s = true := by
  obtain ⟨s₁, hops, ht⟩ := exists_of_passes h
  obtain ⟨hearly, ht⟩ := Bool.and_eq_true_iff.mp ht
  obtain ⟨s₂, hclear, ht⟩ := exists_of_passes ht
  obtain ⟨s₃, hrewards, ht⟩ := exists_of_passes ht
  obtain ⟨s₄, hclear', ht⟩ := exists_of_passes ht
  obtain ⟨s, hfunds, ht⟩ := exists_of_passes ht
  obtain ⟨hends, ht⟩ := Bool.and_eq_true_iff.mp ht
  obtain ⟨hlength, hlast⟩ := of_decide_eq_true hends
  have hstart : Voted Sample.names Sample.start := (Voted.genesis props 1 2).later (Nat.zero_le _) rfl
  have hlate : Voted Sample.names (epochsLater s₁) := (hstart.operations hops).later (of_decide_eq_true hearly) rfl
  exact ⟨s, ⟨⟨s₃, _, s₄, ((hlate.moveHead _).clearExpired hclear).processRewards hrewards, hclear', hfunds⟩,
    hlength, hlast⟩, ht⟩

end Sample

/-- Alice's pool is paid out at the end of the epoch. -/
theorem stakeholders_paid_sample : ∃ s s' before after, EpochEnds Sample.names s ∧
    s.processValidatorEpochDistribution = .ok s' ∧
    (s.validators.row Sample.alice).pendingStakeholderReward = 200 ∧
    before.distributePool s.epochStart Sample.alice = .ok after ∧
    PoolPaid before s.epochStart Sample.alice before after ∧
    (s'.validators.row Sample.alice).pendingStakeholderReward = 0 := by
  obtain ⟨s, hends, ht⟩ := Sample.exists_epochEnds
    (p := fun s => decide (Sample.alice ∈ s.validators.keys ∧ Sample.alice ∈ s.accounts.keys ∧
        (s.validators.row Sample.alice).pendingStakeholderReward = 200 ∧
        s.validators.keys.insertionSort (· ≤ ·) = [Sample.alice, Config.committeeAccount, Config.initiatorName] ∧
        s.FitsWidth s.epochStart Sample.alice) &&
      passes s.processValidatorEpochDistribution (fun _ => true)) (by decide +kernel)
  obtain ⟨hfacts, ht⟩ := Bool.and_eq_true_iff.mp ht
  obtain ⟨hval, hacc, hpool, hsorted, hfits⟩ := of_decide_eq_true hfacts
  obtain ⟨s', hs, -⟩ := exists_of_passes ht
  obtain ⟨turns, hturns, hserved, hspec⟩ := stakeholders_paid hends hs
  have hzero := (hserved Sample.alice hval (by omega) hacc).2
  rw [hsorted] at hturns
  -- hers is the first turn
  cases hturns with
  | skip h _ =>
      rw [hpool] at h
      exact absurd h (not_or.mpr ⟨by decide, not_not.mpr hacc⟩)
  | @turn _ s₁ _ _ _ _ _ _ hpaid _ =>
      obtain ⟨-, hpart, -⟩ := hspec ⟨Sample.alice, s, s₁⟩ List.mem_cons_self
      exact ⟨s, s', s, s₁, hends, hs, hpool, hpaid, hpart hfits, hzero⟩

/-- **A payout counts in the next one.** With the weights of the start Bob would have 133 of the initiator's pool and
    Alice 66, but her own pool comes first, and she has 75 and Bob 125. -/
theorem weights_not_of_start : ∃ s s' turns t, EpochEnds Sample.names s ∧
    s.processValidatorEpochDistribution = .ok s' ∧
    PoolTurns s.epochStart (s.validators.keys.insertionSort (· ≤ ·)) turns s s' ∧ t ∈ turns ∧
    t.before.FitsWidth s.epochStart t.owner ∧ s.FitsWidth s.epochStart t.owner ∧
    ¬ PoolPaid s s.epochStart t.owner t.before t.after := by
  obtain ⟨s, hends, ht⟩ := Sample.exists_epochEnds
    (p := fun s => decide ((s.validators.row Sample.alice).pendingStakeholderReward ≠ 0 ∧
        Sample.alice ∈ s.accounts.keys ∧
        s.validators.keys.insertionSort (· ≤ ·) = [Sample.alice, Config.committeeAccount, Config.initiatorName] ∧
        s.FitsWidth s.epochStart Config.initiatorName) &&
      passes (s.distributePool s.epochStart Sample.alice) fun s₁ =>
        decide ((s₁.validators.row Config.committeeAccount).pendingStakeholderReward = 0 ∧
          (s₁.validators.row Config.initiatorName).pendingStakeholderReward ≠ 0 ∧
          Config.initiatorName ∈ s₁.accounts.keys ∧ Sample.bob ∈ s₁.accounts.keys ∧
          s₁.FitsWidth s.epochStart Config.initiatorName) &&
        passes (s₁.distributePool s.epochStart Config.initiatorName) fun s₂ =>
          decide ((buy (s.payments s.epochStart Config.initiatorName
              (s₁.validators.row Config.initiatorName).pendingStakeholderReward) s₁.pool).toOption.map
                (fun r => receipts r.1 Sample.bob) ≠
            some ((s₂.accounts.row Sample.bob).vestingShares - (s₁.accounts.row Sample.bob).vestingShares)))
    (by decide +kernel)
  obtain ⟨hfacts, ht⟩ := Bool.and_eq_true_iff.mp ht
  obtain ⟨hpool, hacc, hsorted, hfits⟩ := of_decide_eq_true hfacts
  obtain ⟨s₁, h₁, ht⟩ := exists_of_passes ht
  obtain ⟨hfacts, ht⟩ := Bool.and_eq_true_iff.mp ht
  obtain ⟨hnone, hpool₁, hacc₁, hbob, hfits₁⟩ := of_decide_eq_true hfacts
  obtain ⟨s₂, h₂, hdiff⟩ := exists_of_passes ht
  have hturns : PoolTurns s.epochStart (s.validators.keys.insertionSort (· ≤ ·))
      [⟨Sample.alice, s, s₁⟩, ⟨Config.initiatorName, s₁, s₂⟩] s s₂ := by
    rw [hsorted]
    exact .turn hpool hacc h₁ (.skip (.inl hnone) (.turn hpool₁ hacc₁ h₂ (.nil _)))
  have hskip : s₁.distributePool s.epochStart Config.committeeAccount = .ok s₁ := by
    unfold distributePool
    dsimp only
    rw [if_pos (.inl hnone)]
    rfl
  have hs : s.processValidatorEpochDistribution = .ok s₂ := by
    unfold processValidatorEpochDistribution
    dsimp only
    rw [if_neg (fun he => he.elim hends.length fun hne => hne hends.last), hsorted]
    simp only [List.foldlM_cons, List.foldlM_nil, bind_eq_ok, pure_eq_ok]
    exact ⟨s₁, h₁, s₁, hskip, s₂, h₂, rfl⟩
  refine ⟨s, s₂, _, ⟨Config.initiatorName, s₁, s₂⟩, hends, hs, hturns, by simp, hfits₁, hfits, fun hpaid => ?_⟩
  obtain ⟨got, hbuy, hshares⟩ := hpaid.bought
  refine of_decide_eq_true hdiff ?_
  rw [hbuy, hshares Sample.bob hbob]
  show some (receipts got Sample.bob) = _
  rw [add_sub_cancel_left]

end Ledger

end VizNode
