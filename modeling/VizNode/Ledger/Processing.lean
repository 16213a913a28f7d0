import VizNode.Ledger.Auctions
import Mathlib.Algebra.BigOperators.Ring.Finset

/-!
# `VizNode.Ledger.Processing` — what a block does to the bank

The steps of `VizNode.Ledger.Blocks`, in their order. Each is a course that makes and loses nothing, and so is
the block as a whole.

**Rounding.** A pool is shared out by weight with every part rounded down, so the parts together are at most the
pool, and what they leave goes to the validator. The committee pays at most one part in `n + 1` to each of `n`
requests, so its fund does not fall below zero.

## Contents
- **Expirations.** Delegations that come back, invites, escrows.
- **Funds.** Inflation, the validator's reward, the pools of the stakeholders.
- **Accounts that are emptied, requests and subscriptions.**
- **The block.** `processBlock_course`.
- **Content.** Its payout, before hardfork 4.
-/

namespace VizNode

namespace Ledger

open Bank

variable {s s' : Ledger} {a : AccountName} {P : Terms}

/-! ## Expirations -/

/-- What comes back to an account. -/
def returned (l : List DelegationExpiration) (c : AccountName) : Int :=
  (l.map (fun e => if e.delegator = c then e.vestingShares else 0)).sum

theorem returnDelegation_book {e : DelegationExpiration} (h : s.returnDelegation e = .ok s') :
    s'.bank = s.bank.edit e.delegator (.addDelegated (-e.vestingShares)) := by
  simp only [returnDelegation, bind_eq_ok, pure_eq_ok] at h
  obtain ⟨-, -, rfl⟩ := h
  split
  · rw [bank_sharesSenderRecalcEnergy]
    exact bank_modifyAccount rfl
  · exact bank_modifyAccount rfl

/-- Every delegation that has expired comes off its delegator. -/
theorem returnDelegations_book {l : List DelegationExpiration} (h : l.foldlM returnDelegation s = .ok s') :
    s'.bank = { s.bank with accounts := s'.bank.accounts } ∧ s'.accounts.keys = s.accounts.keys ∧
      ∀ c ∈ s.accounts.keys, s'.bank.accounts.row c = (s.bank.accounts.row c).addDelegated (-returned l c) := by
  induction l generalizing s with
  | nil =>
      obtain rfl := Except.ok.inj h
      refine ⟨rfl, rfl, fun c _ => ?_⟩
      unfold AccountBook.addDelegated returned
      simp
  | cons e l ih =>
      simp only [List.foldlM_cons, bind_eq_ok] at h
      obtain ⟨s₁, h₁, h⟩ := h
      have hb := returnDelegation_book h₁
      obtain ⟨hbank, hkeys, hrow⟩ := ih h
      have hkeys₁ : s₁.accounts.keys = s.accounts.keys := congrArg (fun b : Bank => b.accounts.keys) hb
      refine ⟨by rw [hbank, hb]; rfl, hkeys.trans hkeys₁, fun c hc => ?_⟩
      rw [hrow c (hkeys₁ ▸ hc), hb]
      unfold Bank.edit
      dsimp only
      have hcons : returned (e :: l) c = (if e.delegator = c then e.vestingShares else 0) + returned l c :=
        List.sum_cons
      rw [hcons]
      by_cases hec : c = e.delegator
      · rw [hec, Table.modify_row_self, if_pos rfl]
        unfold AccountBook.addDelegated
        dsimp only
        congr 1
        omega
      · rw [Table.modify_row_of_ne hec, if_neg (fun he => hec he.symm), zero_add]

theorem clearExpiredDelegations_course (h : s.clearExpiredDelegations = .ok s') :
    Course P 0 s.bank s'.bank := by
  unfold clearExpiredDelegations at h
  obtain ⟨hbank, hkeys, hrow⟩ := returnDelegations_book h
  -- what has expired and what has not are all there is
  have hperm : s.bank.expirations.Perm
      ((((s.expirations.filter (fun e => decide (e.expiration < s.time))).insertionSort
        (fun a b => a.expiration ≤ b.expiration)).map (fun e => (e.delegator, e.vestingShares))) ++
        (s.expirations.filter (fun e => !decide (e.expiration < s.time))).map
          (fun e => (e.delegator, e.vestingShares))) := by
    rw [← List.map_append]
    apply List.Perm.map
    exact (List.filter_append_perm _ s.expirations).symm.trans ((List.perm_insertionSort _ _).symm.append_right _)
  rw [hbank]
  refine .of_moves (.of (.return_ hperm hkeys (fun c hc => ?_)))
  rw [hrow c hc, List.map_map]
  rfl

/-! ## Invites and escrows -/

theorem clearUsedInvites_course : Course P 0 s.bank s.clearUsedInvites.bank := by
  refine (Course.invites (x := 0) (Eq.trans (Table.total_foldl_erase ?_) (add_zero _).symm)).cast neg_zero
  intro k hk
  have hused := (of_decide_eq_true (List.mem_filter.mp hk).2).1
  rw [(s.invites.row k).drained hused]
  rfl

theorem accountRecoveryProcessing_course : Course P 0 s.bank s.accountRecoveryProcessing.bank := by
  refine .authorise (t := s.authorities) rfl (fun _ _ _ => rfl) (fun _ e he => .inl ?_)
  exact (List.dropWhile_sublist _).subset he

/-- One escrow goes back to its sender. -/
theorem expireEscrow_course {key : AccountName × Nat} (h : s.expireEscrow key = .ok s')
    (hkey : key ∈ s.escrows.keys) : Course P 0 s.bank s'.bank := by
  simp only [expireEscrow, bind_eq_ok, getAccount_eq_ok, pure_eq_ok] at h
  obtain ⟨-, ⟨ha, -⟩, rfl⟩ := h
  have hback : Course P _ s.bank ((s.adjustBalance key.1 (s.escrows.row key).tokenBalance).adjustBalance key.1
      (s.escrows.row key).pendingFee).bank :=
    Course.trans (.credit ha (Int.natCast_nonneg _)) (.credit ha (Int.natCast_nonneg _))
  refine (hback.trans (.escrows ((Table.total_erase hkey).trans (sub_eq_add_neg _ _)))).cast ?_
  unfold Escrow.tokens
  omega

theorem expireEscrow_escrows {key : AccountName × Nat} (h : s.expireEscrow key = .ok s') :
    s'.escrows = s.escrows.erase key := by
  simp only [expireEscrow, bind_eq_ok, pure_eq_ok] at h
  obtain ⟨-, -, rfl⟩ := h
  rfl

theorem expireEscrowRatification_course (h : s.expireEscrowRatification = .ok s') :
    Course P 0 s.bank s'.bank := by
  unfold expireEscrowRatification at h
  -- what is still to come is still there
  have hfold : ∀ l : List (AccountName × Nat), l.Nodup → ∀ s₁ : Ledger, (∀ k ∈ l, k ∈ s₁.escrows.keys) →
      l.foldlM expireEscrow s₁ = .ok s' → Course P 0 s₁.bank s'.bank := by
    intro l
    induction l with
    | nil =>
        intro _ s₁ _ h₁
        exact Except.ok.inj h₁ ▸ .refl
    | cons k l ih =>
        intro hl s₁ hmem h₁
        have hl := List.nodup_cons.mp hl
        simp only [List.foldlM_cons, bind_eq_ok] at h₁
        obtain ⟨s₂, h₂, h₁⟩ := h₁
        refine (expireEscrow_course h₂ (hmem k List.mem_cons_self)).chain (ih hl.2 s₂ ?_ h₁)
        intro j hj
        rw [expireEscrow_escrows h₂]
        exact Table.mem_erase_keys.mpr ⟨fun he => hl.1 (he ▸ hj), hmem j (List.mem_cons_of_mem k hj)⟩
  exact hfold _ (s.escrows.nodup.filter _) s (fun k hk => (List.mem_filter.mp hk).1) h

/-! ## Funds -/

/-- What is issued is in the funds, but for the validator's reward. -/
theorem issue_course {perBlock : Nat} : Course P (s.issue perBlock).1 s.bank (s.issue perBlock).2.bank := by
  unfold issue
  refine .funds le_rfl (le_add_of_nonneg_right (Int.natCast_nonneg _)) rfl ?_
  dsimp only [bank, escrowed, invited, pending]
  omega

/-- **The reward of a validator.** -/
theorem payValidator_course {reward : Nat} (h : s.payValidator reward = .ok s') :
    Course P (-reward) s.bank s'.bank := by
  simp only [payValidator, bind_eq_ok, getValidator_eq_ok] at h
  obtain ⟨-, ⟨hv, rfl⟩, h⟩ := h
  split at h
  · obtain ⟨s₁, h₁, h⟩ := ite_bind_eq_ok h
    have hle : reward * (s.validators.row s.currentValidator).sharingRate / Config.hundredPercent ≤ reward := by
      apply Nat.div_le_of_le_mul
      rw [mul_comm]
      exact Nat.mul_le_mul_right _ (s.validators.row s.currentValidator).rate_le
    generalize reward * (s.validators.row s.currentValidator).sharingRate / Config.hundredPercent = stakeholder
      at h h₁ hle
    -- the validator's own part
    have hown : Course P (-((reward - stakeholder : Nat) : Int)) s.bank s₁.bank ∧
        s.currentValidator ∈ s₁.validators.keys := by
      by_cases hpos : 0 < reward - stakeholder
      · rw [if_pos hpos] at h₁
        have hvest := createVesting_vest h₁
        exact ⟨.vest h₁, hvest.2.1.validators.keys ▸ hv⟩
      · rw [if_neg hpos, pure_eq_ok] at h₁
        subst h₁
        exact ⟨Course.refl.cast (by omega), hv⟩
    rw [← pure_eq_ok.mp h]
    refine (hown.1.trans (.validators (Table.total_modify hown.2))).cast ?_
    dsimp only
    omega
  · exact .vest h

theorem processFunds_course (h : s.processFunds = .ok s') : Course P 0 s.bank s'.bank := by
  unfold processFunds at h
  by_cases h₁₁ : s.hasHardfork 11
  · rw [if_pos h₁₁] at h
    exact (issue_course.trans (payValidator_course h)).cast (add_neg_cancel _)
  · rw [if_neg h₁₁] at h
    by_cases h₄ : s.hasHardfork 4
    · rw [if_pos h₄] at h
      simp only [bind_eq_ok] at h
      obtain ⟨-, -, h⟩ := h
      exact (issue_course.trans (.vest h)).cast (add_neg_cancel _)
    · rw [if_neg h₄] at h
      simp only [bind_eq_ok] at h
      obtain ⟨-, -, h⟩ := h
      refine ((Course.funds (δ := _) ?_ ?_ rfl rfl).trans (.vest h)).cast ?_
      · exact le_add_of_nonneg_right (Int.natCast_nonneg _)
      · exact le_add_of_nonneg_right (Int.natCast_nonneg _)
      · dsimp only [bank, escrowed, invited, pending]
        omega

/-- The stakeholders together have no more than the pool. -/
theorem stakeholdersDue_le {total : Nat} {l : List (AccountName × Nat)} (hpos : (l.map Prod.snd).sum ≠ 0) :
    (l.map (fun e => total * e.2 / (l.map Prod.snd).sum)).sum ≤ total := by
  have hle := sum_parts_le (t := total) (Int.natCast_nonneg _) (Nat.pos_of_ne_zero hpos) le_rfl
  rw [List.map_map] at hle
  rw [← Int.ofNat_le]
  refine le_of_eq_of_le ?_ hle
  rw [Nat.cast_list_sum, List.map_map]
  rfl

/-- **The stakeholders are paid**, together at most the sum of their parts. -/
theorem payStakeholders_course {total weights paid paid' : Nat} {l : List (AccountName × Nat)}
    (h : l.foldlM (payStakeholder total weights) (s, paid) = .ok (s', paid')) :
    paid ≤ paid' ∧ paid' ≤ paid + (l.map (fun e => total * e.2 / weights)).sum ∧ Vested s s' ∧
      Course P ((paid : Int) - paid') s.bank s'.bank := by
  induction l generalizing s paid with
  | nil =>
      obtain ⟨rfl, rfl⟩ := Prod.mk.inj (Except.ok.inj h)
      exact ⟨le_rfl, le_rfl, .refl s, Course.refl.cast (sub_self _).symm⟩
  | cons e l ih =>
      simp only [List.foldlM_cons, bind_eq_ok] at h
      obtain ⟨⟨s₁, p₁⟩, h₁, h⟩ := h
      obtain ⟨hle, hge, hv, hc⟩ := ih h
      -- the product wraps at 128 bits, which only makes the part smaller
      have hpart : total * e.2 % 2 ^ 128 / weights ≤ total * e.2 / weights :=
        Nat.div_le_div_right (Nat.mod_le _ _)
      rw [List.map_cons, List.sum_cons]
      unfold payStakeholder at h₁
      dsimp only at h₁
      generalize total * e.2 % 2 ^ 128 / weights = tokens at h₁ hpart
      by_cases hmin : tokens < Config.minStakeholderRewardPayout
      · rw [if_pos hmin] at h₁
        obtain ⟨rfl, rfl⟩ := Prod.mk.inj (Except.ok.inj h₁)
        exact ⟨hle, by omega, hv, hc⟩
      · rw [if_neg hmin] at h₁
        simp only [bind_eq_ok, pure_eq_ok] at h₁
        obtain ⟨s₂, h₂, he⟩ := h₁
        obtain ⟨rfl, rfl⟩ := Prod.mk.inj he
        exact ⟨by omega, by omega, (createVesting_vest h₂).2.1.trans hv, ((Course.vest h₂).trans hc).cast (by omega)⟩

/-- **The pool of one validator** goes out to the last token. -/
theorem distributePool_course {epochStart : Nat} (h : s.distributePool epochStart a = .ok s')
    (hv : a ∈ s.validators.keys) : Course P 0 s.bank s'.bank ∧ s'.validators.keys = s.validators.keys := by
  unfold distributePool at h
  dsimp only at h
  split at h
  · exact Except.ok.inj h ▸ ⟨.refl, rfl⟩
  · have hpaid : ∃ s₁ : Ledger, Vested s s₁ ∧
        Course P (-((s.validators.row a).pendingStakeholderReward : Int)) s.bank s₁.bank ∧
        { s₁ with validators := s₁.validators.modify a (fun w => { w with pendingStakeholderReward := 0 }) } = s' := by
      split at h
      · simp only [bind_eq_ok, pure_eq_ok] at h
        obtain ⟨s₁, h₁, rfl⟩ := h
        exact ⟨s₁, (createVesting_vest h₁).2.1, .vest h₁, rfl⟩
      · rename_i hweights
        simp only [bind_eq_ok] at h
        obtain ⟨⟨s₁, paid⟩, h₁, h⟩ := h
        obtain ⟨-, hle, hvested, hc⟩ := payStakeholders_course (P := P) h₁
        have hle := hle.trans (Nat.add_le_add_left (stakeholdersDue_le hweights) 0)
        dsimp only at h
        obtain ⟨s₂, h₂, h⟩ := ite_bind_eq_ok h
        by_cases hdust : 0 < ((s.validators.row a).pendingStakeholderReward : Int) - paid
        · rw [if_pos hdust] at h₂
          exact ⟨s₂, hvested.trans (createVesting_vest h₂).2.1, (hc.trans (.vest h₂)).cast (by omega),
            pure_eq_ok.mp h⟩
        · rw [if_neg hdust, pure_eq_ok] at h₂
          subst h₂
          exact ⟨s₁, hvested, hc.cast (by omega), pure_eq_ok.mp h⟩
    obtain ⟨s₁, hvested, hc, rfl⟩ := hpaid
    have hkeys := hvested.validators.keys
    refine ⟨(hc.trans (.validators (Table.total_modify (hkeys ▸ hv)))).cast ?_, hkeys⟩
    rw [hvested.pendingOf hv]
    dsimp only
    omega

theorem processValidatorEpochDistribution_course (h : s.processValidatorEpochDistribution = .ok s') :
    Course P 0 s.bank s'.bank := by
  unfold processValidatorEpochDistribution at h
  dsimp only at h
  split at h
  · exact Except.ok.inj h ▸ .refl
  · have hfold : ∀ l : List AccountName, ∀ s₁ : Ledger, (∀ v ∈ l, v ∈ s₁.validators.keys) →
        l.foldlM (distributePool (s.headBlockNumber - s.medianProps.distributionEpochLength + 1)) s₁ = .ok s' →
          Course P 0 s₁.bank s'.bank := by
      intro l
      induction l with
      | nil =>
          intro s₁ _ h₁
          exact Except.ok.inj h₁ ▸ .refl
      | cons v l ih =>
          intro s₁ hmem h₁
          simp only [List.foldlM_cons, bind_eq_ok] at h₁
          obtain ⟨s₂, h₂, h₁⟩ := h₁
          obtain ⟨hc, hkeys⟩ := distributePool_course (P := P) h₂ (hmem v List.mem_cons_self)
          exact hc.chain (ih s₂ (fun w hw => hkeys ▸ hmem w (List.mem_cons_of_mem v hw)) h₁)
    exact hfold _ s (fun v hv => (List.mem_insertionSort _).mp hv) h

/-! ## Accounts that are emptied -/

/-- The shares of an account without a key are taken. -/
theorem drainShares_course {converted : Int} (hk : a ∈ Config.keyless) (h : s.drainShares a = .ok (converted, s')) :
    0 ≤ converted ∧ Course P converted s.bank s'.bank := by
  simp only [drainShares, bind_eq_ok, getAccount_eq_ok] at h
  obtain ⟨-, ⟨ha, rfl⟩, h⟩ := h
  by_cases hpos : 0 < (s.accounts.row a).vestingShares
  · rw [if_pos hpos] at h
    simp only [bind_eq_ok, pure_eq_ok] at h
    obtain ⟨c, hc, he⟩ := h
    obtain ⟨rfl, hs⟩ := Prod.mk.inj he
    have hworth : s.bank.Worth (s.accounts.row a).vestingShares c := hc
    refine ⟨hworth.nonneg, ?_⟩
    have hbank : s'.bank = { s.bank.edit a .drained with
        fund := s.bank.fund - c, shares := s.bank.shares - (s.accounts.row a).vestingShares } := by
      rw [← hs]
      exact bank_modifyAccount (g := .drained) rfl
    rw [hbank]
    refine .of_moves (.of (.drain hk ha hworth (fun hb => ?_)))
    -- the shares of one account are among all shares
    have hle := Table.le_total (t := s.bank.accounts) (g := fun _ r => r.vestingShares) hb.1.backed.account ha
    have hsum := hb.1.backed.total
    rw [add_zero] at hsum
    exact hle.trans hsum.ge
  · rw [if_neg hpos] at h
    obtain ⟨rfl, rfl⟩ := Prod.mk.inj (Except.ok.inj h)
    exact ⟨le_rfl, .refl⟩

/-- **Everything an account without a key has is taken.** -/
theorem drainAccount_course {total : Int} (hk : a ∈ Config.keyless) (h : s.drainAccount a = .ok (total, s')) :
    0 ≤ total ∧ Course P total s.bank s'.bank := by
  simp only [drainAccount, bind_eq_ok, getAccount_eq_ok, pure_eq_ok] at h
  obtain ⟨-, ⟨ha, rfl⟩, ⟨converted, s₁⟩, h₁, he⟩ := h
  obtain ⟨rfl, rfl⟩ := Prod.mk.inj he
  obtain ⟨hnn, hc⟩ := drainShares_course (P := P) hk h₁
  have hheld : Course P (max (s.accounts.row a).balance 0) s.bank
      (s.adjustBalance a (-max (s.accounts.row a).balance 0)).bank := by
    refine (Course.pay ha (fun hs _ => .inr ?_)).cast (neg_neg _)
    have : 0 ≤ (s.accounts.row a).balance := hs.account a ha
    omega
  exact ⟨by omega, hheld.trans hc⟩

/-- The supply shrinks by what was taken. -/
theorem Course.burn {x : Int} : Course P (-x) s.bank (s.burnAsset (-x)).bank := by
  refine .funds le_rfl le_rfl rfl ?_
  dsimp only [bank, burnAsset, escrowed, invited, pending]
  omega

/-- An account without a key is emptied, and what it had is burnt. -/
theorem burnAccount_course (hk : a ∈ Config.keyless)
    (h : (do
      let (total, s) ← s.drainAccount a
      return if 0 < total then s.burnAsset (-total) else s) = Except.ok s') : Course P 0 s.bank s'.bank := by
  simp only [bind_eq_ok, pure_eq_ok] at h
  obtain ⟨⟨total, s₁⟩, h₁, rfl⟩ := h
  obtain ⟨hnn, hc⟩ := drainAccount_course (P := P) hk h₁
  dsimp only
  by_cases hpos : 0 < total
  · rw [if_pos hpos]
    exact (hc.trans .burn).cast (add_neg_cancel _)
  · rw [if_neg hpos]
    exact hc.cast (by omega)

theorem clearNullAccountBalance_course (h : s.clearNullAccountBalance = .ok s') : Course P 0 s.bank s'.bank :=
  burnAccount_course (by decide) h

theorem clearAnonymousAccountBalance_course (h : s.clearAnonymousAccountBalance = .ok s') :
    Course P 0 s.bank s'.bank := burnAccount_course (by decide) h

theorem claimCommitteeAccountBalance_course (h : s.claimCommitteeAccountBalance = .ok s') :
    Course P 0 s.bank s'.bank := by
  simp only [claimCommitteeAccountBalance, bind_eq_ok, pure_eq_ok] at h
  obtain ⟨⟨total, s₁⟩, h₁, rfl⟩ := h
  obtain ⟨hnn, hc⟩ := drainAccount_course (P := P) (by decide) h₁
  dsimp only
  by_cases hpos : 0 < total
  · rw [if_pos hpos]
    exact (hc.trans (.toCommittee hnn)).cast (add_neg_cancel _)
  · rw [if_neg hpos]
    exact hc.cast (by omega)

/-! ## Requests and subscriptions -/

theorem concludeRequest_bank {id : Nat} (h : s.concludeRequest id = .ok s') : s'.bank = s.bank := by
  unfold concludeRequest at h
  dsimp only at h
  split at h
  · simp only [bind_eq_ok, pure_eq_ok] at h
    obtain ⟨-, -, rfl⟩ := h
    rfl
  · exact Except.ok.inj h ▸ rfl

/-- Tokens leave the committee fund, which has them. -/
theorem Course.fromCommittee {x : Int} (hx : P.covered → x ≤ s.committeeFund) :
    Course P x s.bank (s.adjustCommitteeFund (-x)).bank := by
  refine .of_moves ((Moves.funds (b := s.bank) (c := (s.adjustCommitteeFund (-x)).bank) le_rfl ?_ rfl).cast ?_ rfl)
  · intro hC
    have := hx hC.2
    dsimp only [bank, adjustCommitteeFund]
    omega
  · dsimp only [bank, adjustCommitteeFund, escrowed, invited, pending]
    omega

/-- An instalment: the worker has it from the committee, which can pay it. -/
theorem payRequest_course {maxPayment : Int} {id : Nat} (h : payRequest maxPayment s id = .ok s') :
    Course ⟨P.signed, 0 ≤ maxPayment ∧ maxPayment ≤ s.committeeFund⟩ 0 s.bank s'.bank ∧
      s.committeeFund - maxPayment ≤ s'.committeeFund := by
  simp only [payRequest, bind_eq_ok, getAccount_eq_ok, pure_eq_ok] at h
  obtain ⟨-, ⟨hw, -⟩, rfl⟩ := h
  have hle : min maxPayment ((s.committeeRequests.row id).remainPayoutAmount : Int) ≤ maxPayment := min_le_left _ _
  have hnn : 0 ≤ maxPayment → 0 ≤ min maxPayment ((s.committeeRequests.row id).remainPayoutAmount : Int) :=
    fun h₀ => le_min h₀ (Int.natCast_nonneg _)
  generalize min maxPayment ((s.committeeRequests.row id).remainPayoutAmount : Int) = payment at hle hnn ⊢
  have hpaid : Course ⟨P.signed, 0 ≤ maxPayment ∧ maxPayment ≤ s.committeeFund⟩ 0 s.bank
      ((s.adjustBalance (s.committeeRequests.row id).worker payment).adjustCommitteeFund (-payment)).bank := by
    refine (Course.trans (.pay hw ?_) (.fromCommittee ?_)).cast (neg_add_cancel _)
    · exact fun _ hP => .inl (hnn hP.1)
    · exact fun hP => hle.trans hP.2
  refine ⟨hpaid, ?_⟩
  dsimp only [adjustCommitteeFund, adjustBalance, modifyAccount]
  omega

/-- The instalments of all requests: what is left is enough for the rest of them. -/
theorem payRequests_course {maxPayment : Int} {l : List Nat} (h : l.foldlM (payRequest maxPayment) s = .ok s') :
    Course ⟨P.signed, 0 ≤ maxPayment ∧ l.length * maxPayment ≤ s.committeeFund⟩ 0 s.bank s'.bank := by
  induction l generalizing s with
  | nil => exact Except.ok.inj h ▸ .refl
  | cons id l ih =>
      simp only [List.foldlM_cons, bind_eq_ok] at h
      obtain ⟨s₁, h₁, h⟩ := h
      obtain ⟨hc, hleft⟩ := payRequest_course (P := P) h₁
      refine (hc.mono (fun _ hP => ⟨hP.1, ?_⟩)).chain ((ih h).mono (fun _ hP => ⟨hP.1, ?_⟩))
      · have hrest : 0 ≤ (l.length : Int) * maxPayment := mul_nonneg (Int.natCast_nonneg _) hP.1
        have hall := hP.2
        rw [List.length_cons, Nat.cast_succ, add_mul, one_mul] at hall
        omega
      · have hall := hP.2
        rw [List.length_cons, Nat.cast_succ, add_mul, one_mul] at hall
        omega

/-- **`committee_processing`.** -/
theorem committeeProcessing_course (h : s.committeeProcessing = .ok s') : Course P 0 s.bank s'.bank := by
  simp only [committeeProcessing, bind_eq_ok] at h
  obtain ⟨s₁, h₁, h⟩ := h
  have hbank : Course P 0 s.bank s₁.bank :=
    .foldlM (fun _ _ _ hs => .of_eq (concludeRequest_bank hs)) h₁
  refine hbank.chain ?_
  split at h
  · exact Except.ok.inj h ▸ .refl
  · refine (payRequests_course h).mono (fun hs _ => ?_)
    have hfund : 0 ≤ s₁.committeeFund := hs.committee
    -- one part more than there are requests
    have hmul : s₁.committeeFund.tdiv (((s₁.requestsWith .approved).length + 1 : Nat) : Int)
        * (((s₁.requestsWith .approved).length + 1 : Nat) : Int) ≤ s₁.committeeFund := by
      rw [Int.tdiv_eq_ediv_of_nonneg hfund]
      exact Int.ediv_mul_le _ (by omega)
    have hnn : 0 ≤ s₁.committeeFund.tdiv (((s₁.requestsWith .approved).length + 1 : Nat) : Int) :=
      Int.tdiv_nonneg hfund (Int.natCast_nonneg _)
    generalize s₁.committeeFund.tdiv (((s₁.requestsWith .approved).length + 1 : Nat) : Int) = part at hmul hnn ⊢
    refine ⟨hnn, ?_⟩
    rw [Nat.cast_succ, mul_add, mul_one, mul_comm] at hmul
    omega

theorem renewSubscribe_course {key : AccountName × AccountName} (h : s.renewSubscribe key = .ok s') :
    Course P 0 s.bank s'.bank := by
  unfold renewSubscribe at h
  cases hp : s.paidSubscriptions.find key.2 with
  | none =>
      rw [hp] at h
      exact Except.ok.inj h ▸ .refl
  | some p =>
      rw [hp] at h
      dsimp only at h
      split at h
      · simp only [bind_eq_ok, getAccount_eq_ok] at h
        obtain ⟨-, ⟨hs, rfl⟩, -, ⟨ha, -⟩, h⟩ := h
        split at h
        · rename_i hcost
          obtain ⟨-, -, hle⟩ := hcost
          have hpay := Course.transfer (P := P) hs ha (Int.natCast_nonneg _) hle
          exact Except.ok.inj h ▸ hpay
        · exact Except.ok.inj h ▸ .refl
      · exact Except.ok.inj h ▸ .refl

theorem subscribeLoop_course {fuel : Nat} {next : Option (AccountName × AccountName)}
    (h : subscribeLoop fuel next s = .ok s') : Course P 0 s.bank s'.bank := by
  induction fuel generalizing next s with
  | zero => exact Except.ok.inj h ▸ .refl
  | succ fuel ih =>
      cases next with
      | none => exact Except.ok.inj h ▸ .refl
      | some key =>
          unfold subscribeLoop at h
          split at h
          · obtain ⟨s₁, h₁, h⟩ := ite_bind_eq_ok h
            refine Course.chain ?_ (ih h)
            split at h₁
            · exact renewSubscribe_course h₁
            · exact Except.ok.inj h₁ ▸ .refl
          · exact Except.ok.inj h ▸ .refl

/-! ## The block -/

theorem clearExpired_course (h : s.clearExpired = .ok s') : Course P 0 s.bank s'.bank := by
  simp only [clearExpired, bind_eq_ok, pure_eq_ok] at h
  obtain ⟨s₁, h₁, rfl⟩ := h
  refine (clearExpiredDelegations_course h₁).chain ?_
  split
  · exact clearUsedInvites_course
  · exact .refl

theorem processRewards_course (h : s.processRewards = .ok s') : Course P 0 s.bank s'.bank := by
  simp only [processRewards, bind_eq_ok] at h
  obtain ⟨s₁, h₁, h⟩ := h
  have hrecalc : (if s.hasHardfork 4 then s.processInflationRecalc.expireAwardShares else s).bank = s.bank := by
    split
    · unfold processInflationRecalc
      split
      · rfl
      · rfl
    · rfl
  have hfunds := processFunds_course (P := P) h₁
  rw [hrecalc] at hfunds
  refine hfunds.chain ?_
  split at h
  · exact processValidatorEpochDistribution_course h
  · exact Except.ok.inj h ▸ .refl

theorem processAccounts_course (h : s.processAccounts = .ok s') : Course P 0 s.bank s'.bank := by
  simp only [processAccounts, bind_eq_ok] at h
  obtain ⟨s₁, h₁, s₂, h₂, h⟩ := h
  refine (processVestingWithdrawals_course h₁).1.chain
    (accountRecoveryProcessing_course.chain ((expireEscrowRatification_course h₂).chain ?_))
  split at h
  · exact accountOnAuctionExpiration_course h
  · exact Except.ok.inj h ▸ .refl

theorem processClosing_course (h : s.processClosing = .ok s') : Course P 0 s.bank s'.bank := by
  simp only [processClosing, bind_eq_ok] at h
  obtain ⟨s₁, h₁, s₂, h₂, s₃, h₃, s₄, h₄, h⟩ := h
  exact (clearNullAccountBalance_course h₁).chain ((clearAnonymousAccountBalance_course h₂).chain
    ((claimCommitteeAccountBalance_course h₃).chain ((committeeProcessing_course h₄).chain
      (subscribeLoop_course h))))

/-- **A block by itself is a course** that makes and loses nothing. -/
theorem processBlock_course {b : Head} (h : s.processBlock b = .ok s') : Course P 0 s.bank s'.bank := by
  simp only [processBlock, bind_eq_ok] at h
  obtain ⟨s₁, h₁, s₂, h₂, s₃, h₃, h⟩ := h
  have hexp : Course P 0 s.bank s₁.bank := clearExpired_course (s := s.moveHead b) h₁
  exact hexp.chain ((processRewards_course h₂).chain ((processAccounts_course h₃).chain (processClosing_course h)))

/-! ## Content -/

/-- The curators are paid, each no more than its part. -/
theorem payCurators_course {tokens left left' : Int} {whole : Nat} {l : List (AccountName × Nat)}
    (h : l.foldlM (payCurator tokens whole) (s, left) = .ok (s', left')) :
    left - (l.map (fun v => tokens * v.2 / (whole : Int))).sum ≤ left' ∧
      Course P (left' - left) s.bank s'.bank := by
  induction l generalizing s left with
  | nil =>
      obtain ⟨rfl, rfl⟩ := Prod.mk.inj (Except.ok.inj h)
      exact ⟨(sub_zero left).le, Course.refl.cast (sub_self left).symm⟩
  | cons v l ih =>
      simp only [List.foldlM_cons, payCurator, bind_eq_ok, mulDiv_eq_ok] at h
      obtain ⟨⟨s₁, p₁⟩, ⟨claim, ⟨hpos, hnn, rfl⟩, h₁⟩, h⟩ := h
      obtain ⟨hle, hc⟩ := ih h
      have hclaim : 0 ≤ tokens * v.2 / (whole : Int) := Int.ediv_nonneg hnn hpos.le
      rw [List.map_cons, List.sum_cons]
      split at h₁
      · simp only [bind_eq_ok, pure_eq_ok] at h₁
        obtain ⟨s₂, h₂, he⟩ := h₁
        obtain ⟨rfl, rfl⟩ := Prod.mk.inj he
        exact ⟨by omega, ((Course.vest h₂).trans hc).cast (by omega)⟩
      · obtain ⟨rfl, rfl⟩ := Prod.mk.inj (Except.ok.inj h₁)
        exact ⟨by omega, hc⟩

/-- **The reward of a content** goes out to the last token. -/
theorem payContent_course {c : Content} {reward : Int} (hreward : 0 ≤ reward) (h : s.payContent c reward = .ok s') :
    Course P (-reward) s.bank s'.bank := by
  simp only [payContent] at h
  obtain ⟨⟨s₁, unclaimed⟩, h₁, h⟩ := ite_bind_eq_ok h
  simp only [bind_eq_ok, pure_eq_ok] at h
  obtain ⟨⟨s₂, paid⟩, h₂, s₃, h₃, rfl⟩ := h
  have hmul : reward * c.curationPercent ≤ reward * Config.hundredPercent :=
    mul_le_mul_of_nonneg_left (by exact_mod_cast c.percent_le) hreward
  have hcuration : 0 ≤ reward * c.curationPercent / Config.hundredPercent ∧
      reward * c.curationPercent / Config.hundredPercent ≤ reward :=
    ⟨Int.ediv_nonneg (mul_nonneg hreward (Int.natCast_nonneg _)) (Int.natCast_nonneg _),
      Int.ediv_le_of_le_mul (by decide) hmul⟩
  generalize reward * c.curationPercent / Config.hundredPercent = curation at h₁ h₂ h₃ hcuration ⊢
  have hcurators : 0 ≤ unclaimed ∧ Course P (unclaimed - curation) s.bank s₁.bank := by
    split at h₁
    · rename_i hpos
      obtain ⟨hle, hc⟩ := payCurators_course (P := P) h₁
      have hparts := sum_parts_le hcuration.1 hpos c.votes_le
      rw [List.map_map] at hparts
      exact ⟨(sub_nonneg.mpr hparts).trans hle, hc⟩
    · obtain ⟨rfl, rfl⟩ := Prod.mk.inj (Except.ok.inj h₁)
      exact ⟨hcuration.1, Course.refl.cast (sub_self _).symm⟩
  obtain ⟨hpaid, hbeneficiaries⟩ := payBeneficiaries_course (P := P) h₂
  have hdue := beneficiariesDue_le (t := reward - curation + unclaimed) (by omega) c.weights_le
  rw [zero_add] at hpaid
  dsimp only at hpaid hdue hbeneficiaries h₃ ⊢
  subst hpaid
  generalize beneficiariesDue (reward - curation + unclaimed) c.beneficiaries = due at *
  have hauthor : c.author ∈ s₃.accounts.keys := (createVesting_vest h₃).2.1.keys ▸ (createVesting_vest h₃).1
  have hpayout : Course P _ s₃.bank (s₃.adjustBalance c.author ((reward - curation + unclaimed - due).tdiv 2)).bank :=
    .credit hauthor (Int.tdiv_nonneg (by omega) (by decide))
  exact (((hcurators.2.trans hbeneficiaries).trans (.vest h₃)).trans hpayout).cast (by omega)

/-- **The payout of a content.** -/
theorem cashoutContent_course {c : Content} (h : s.cashoutContent c = .ok s') : Course P 0 s.bank s'.bank := by
  simp only [cashoutContent, bind_eq_ok] at h
  obtain ⟨-, -, h⟩ := h
  split at h
  · exact Except.ok.inj h ▸ .refl
  · simp only [bind_eq_ok, mulDiv_eq_ok] at h
    obtain ⟨reward, ⟨hpos, hnn, hreward⟩, h⟩ := h
    have hreward₀ : 0 ≤ reward := hreward ▸ Int.ediv_nonneg hnn hpos.le
    have hfund : Course P reward s.bank { s with totalRewardFund := s.totalRewardFund - reward }.bank := by
      refine .funds le_rfl le_rfl rfl ?_
      dsimp only [bank, escrowed, invited, pending]
      omega
    obtain ⟨s₁, h₁, h⟩ := ite_bind_eq_ok h
    have hpaid : Course P (-reward) { s with totalRewardFund := s.totalRewardFund - reward }.bank s₁.bank := by
      split at h₁
      · exact payContent_course hreward₀ h₁
      · rw [pure_eq_ok] at h₁
        exact h₁ ▸ Course.refl.cast (by omega)
    rw [← pure_eq_ok.mp h]
    exact (hfund.trans hpaid).cast (add_neg_cancel _)

end Ledger

end VizNode
