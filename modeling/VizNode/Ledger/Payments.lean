import VizNode.Ledger.Stakes

/-!
# `VizNode.Ledger.Payments` — what fees, invites, subscriptions and awards do to the bank

The evaluators of `VizNode.Ledger.Services`. A fee goes to the committee, an invite is entrusted until it is
used, a subscription is a transfer.

**Awards.** The beneficiaries are paid by weight, each rounded down, so together they never have more than the
award, and the receiver has the rest to the last token. A fixed award takes the weights of all that was claimed
but pays the receiver out of the fixed amount, and there the two sides need not meet: its lemma only says that
it is a course, not that it makes and loses nothing.
-/

namespace VizNode

namespace Ledger

open Bank

variable {s s' : Ledger} {a : AccountName} {P : Terms} {names : Names}

/-! ## Validators -/

theorem payFee_eq_ok {fee : Nat} : s.payFee a fee = .ok s' ↔ a ∈ s.accounts.keys ∧
    (fee : Int) ≤ (s.accounts.row a).balance ∧ (s.adjustBalance a (-fee)).adjustCommitteeFund fee = s' := by
  simp only [payFee, bind_eq_ok, require_eq_ok, getAccount_eq_ok, pure_eq_ok]
  constructor
  · rintro ⟨r, ⟨ha, rfl⟩, -, hle, h⟩
    exact ⟨ha, hle, h⟩
  · rintro ⟨ha, hle, h⟩
    exact ⟨_, ⟨ha, rfl⟩, (), hle, h⟩

theorem payFee_course {fee : Nat} (h : s.payFee a fee = .ok s') : Course P 0 s.bank s'.bank := by
  obtain ⟨ha, hle, rfl⟩ := payFee_eq_ok.mp h
  exact (Course.trans (.debit ha hle) (.toCommittee (Int.natCast_nonneg fee))).cast (add_neg_cancel _)

/-- The validators change, and with them what they hold for their stakeholders. -/
theorem Course.validators {t : Table AccountName ValidatorAccount} {x : Int}
    (h : t.total (fun _ w => (w.pendingStakeholderReward : Int)) = s.pending + x) :
    Course P (-x) s.bank { s with validators := t }.bank := by
  refine .entrust (bank_validators.trans ?_)
  rw [h, add_sub_cancel_left]

theorem validatorUpdate_course (h : s.validatorUpdate a = .ok s') : Course P 0 s.bank s'.bank := by
  simp only [validatorUpdate, bind_eq_ok] at h
  obtain ⟨-, -, h⟩ := h
  by_cases hv : a ∈ s.validators.keys
  · rw [if_pos hv] at h
    exact Except.ok.inj h ▸ .refl
  · rw [if_neg hv] at h
    have hnew : ∀ {s₁ : Ledger}, a ∉ s₁.validators.keys →
        Course P 0 s₁.bank { s₁ with validators := s₁.validators.insert a { rate_le := Nat.zero_le _ } }.bank :=
      fun hv₁ => (Course.validators (Table.total_insert hv₁)).cast neg_zero
    by_cases hf : s.hasHardfork 9
    · rw [if_pos hf] at h
      simp only [bind_eq_ok, pure_eq_ok] at h
      obtain ⟨s₁, h₁, rfl⟩ := h
      obtain ⟨-, -, rfl⟩ := payFee_eq_ok.mp h₁
      exact (payFee_course h₁).chain (hnew hv)
    · rw [if_neg hf] at h
      simp only [bind_eq_ok, pure_eq_ok] at h
      obtain ⟨s₁, rfl, rfl⟩ := h
      exact hnew hv

theorem setRewardSharing_course {rate : Nat} (h : s.setRewardSharing a rate = .ok s') :
    Course P 0 s.bank s'.bank := by
  unfold setRewardSharing at h
  by_cases hr : rate ≤ Config.hundredPercent
  · rw [dif_pos hr] at h
    simp only [bind_eq_ok, pure_eq_ok] at h
    obtain ⟨-, -, -, -, -, -, rfl⟩ := h
    exact (Course.validators (x := 0) ((Table.total_modify_same rfl).trans (add_zero _).symm)).cast neg_zero
  · rw [dif_neg hr] at h
    cases h

/-! ## Invites -/

/-- The invites change, and with them what they hold. -/
theorem Course.invites {t : Table PublicKey Invite} {x : Int}
    (h : t.total (fun _ i => (i.balance : Int)) = s.invited + x) :
    Course P (-x) s.bank { s with invites := t }.bank := by
  refine .entrust (bank_invites.trans ?_)
  rw [h, add_sub_cancel_left]

theorem createInvite_course {balance : Nat} {key : PublicKey} (h : s.createInvite a balance key = .ok s') :
    Course P 0 s.bank s'.bank := by
  simp only [createInvite, bind_eq_ok, require_eq_ok, getAccount_eq_ok, pure_eq_ok] at h
  obtain ⟨-, -, -, ⟨ha, rfl⟩, -, hle, -, -, -, -, -, hkey, rfl⟩ := h
  have hpay : Course P balance s.bank (s.adjustBalance a (-balance)).bank := .debit ha hle
  exact (hpay.trans (.invites (Table.total_insert hkey))).cast (add_neg_cancel _)

theorem findInvite_eq_ok {secret : Option PublicKey} {key : PublicKey} {i : Invite}
    (h : s.findInvite secret = .ok (key, i)) : key ∈ s.invites.keys ∧ s.invites.row key = i := by
  simp only [findInvite, bind_eq_ok] at h
  obtain ⟨-, -, h⟩ := h
  cases hf : s.invites.find (secret.getD 0) with
  | none =>
      rw [hf] at h
      cases h
  | some j =>
      rw [hf] at h
      simp only [bind_eq_ok, pure_eq_ok] at h
      obtain ⟨-, -, he⟩ := h
      obtain ⟨rfl, rfl⟩ := Prod.mk.inj he
      exact Table.find_eq_some.mp hf

/-- What an invite held is taken. -/
theorem closeInvite_course {key : PublicKey} {status : InviteStatus} {receiver : AccountName} {i : Invite}
    (hkey : key ∈ s.invites.keys) (hi : s.invites.row key = i) :
    Course P i.balance s.bank (s.closeInvite key status receiver).bank := by
  refine (Course.invites (Table.total_modify hkey)).cast ?_
  rw [hi]
  show -((0 : Int) - i.balance) = i.balance
  omega

theorem claimInviteBalance_course {initiator receiver : AccountName} {secret : Option PublicKey}
    (h : s.claimInviteBalance initiator receiver secret = .ok s') : Course P 0 s.bank s'.bank := by
  simp only [claimInviteBalance, bind_eq_ok, getAccount_eq_ok, pure_eq_ok] at h
  obtain ⟨-, -, -, ⟨hr, -⟩, ⟨key, i⟩, hi, rfl⟩ := h
  obtain ⟨hkey, hrow⟩ := findInvite_eq_ok hi
  exact (Course.trans (.credit hr (Int.natCast_nonneg _)) (closeInvite_course hkey hrow)).cast (neg_add_cancel _)

/-- The shares of an invite. -/
theorem vestInvite_course {key : PublicKey} {status : InviteStatus} {receiver : AccountName} {i : Invite}
    {s₁ : Ledger} (hkey : key ∈ s.invites.keys) (hi : s.invites.row key = i)
    (h : s.createVesting receiver i.balance = .ok s₁) :
    Course P 0 s.bank (s₁.closeInvite key status receiver).bank := by
  have hinvites : s₁.invites = s.invites := by rw [(createVesting_vest h).2.1.rest]
  have hclose : Course P i.balance s₁.bank (s₁.closeInvite key status receiver).bank :=
    closeInvite_course (hinvites ▸ hkey) (hinvites ▸ hi)
  exact ((Course.vest h).trans hclose).cast (neg_add_cancel _)

theorem inviteRegistration_course {initiator name : AccountName} {secret : Option PublicKey} {accountKey : PublicKey}
    (h : inviteRegistration names s initiator name secret accountKey = .ok s') : Course P 0 s.bank s'.bank := by
  simp only [inviteRegistration, bind_eq_ok, createAccount_eq_ok, pure_eq_ok] at h
  obtain ⟨-, -, -, -, ⟨key, i⟩, hi, s₁, ⟨hname, hs₁⟩, s₂, h₂, rfl⟩ := h
  obtain ⟨hkey, hrow⟩ := findInvite_eq_ok hi
  subst hs₁
  exact (Course.openAccount rfl hname).chain (vestInvite_course hkey hrow h₂)

theorem useInviteBalance_course {initiator receiver : AccountName} {secret : Option PublicKey}
    (h : s.useInviteBalance initiator receiver secret = .ok s') : Course P 0 s.bank s'.bank := by
  simp only [useInviteBalance, bind_eq_ok, pure_eq_ok] at h
  obtain ⟨-, -, -, -, -, -, ⟨key, i⟩, hi, s₁, h₁, rfl⟩ := h
  obtain ⟨hkey, hrow⟩ := findInvite_eq_ok hi
  exact vestInvite_course hkey hrow h₁

/-! ## Paid subscriptions -/

theorem setPaidSubscription_course {levels amount period : Nat}
    (h : s.setPaidSubscription a levels amount period = .ok s') : Course P 0 s.bank s'.bank := by
  simp only [setPaidSubscription, bind_eq_ok] at h
  obtain ⟨-, -, -, -, -, -, h⟩ := h
  cases hp : s.paidSubscriptions.find a with
  | some p =>
      rw [hp] at h
      exact Except.ok.inj h ▸ .refl
  | none =>
      rw [hp] at h
      dsimp only at h
      by_cases hf : s.hasHardfork 9
      · rw [if_pos hf] at h
        simp only [bind_eq_ok, pure_eq_ok] at h
        obtain ⟨s₁, h₁, rfl⟩ := h
        have hc : Course P 0 s.bank s₁.bank := payFee_course h₁
        exact hc
      · rw [if_neg hf] at h
        simp only [bind_eq_ok, pure_eq_ok] at h
        obtain ⟨s₁, rfl, rfl⟩ := h
        exact .refl

theorem paySubscription_course {subscriber account : AccountName} {cost : Int} (hcost : 0 ≤ cost)
    (h : s.paySubscription subscriber account cost = .ok s') : Course P 0 s.bank s'.bank := by
  simp only [paySubscription, bind_eq_ok, require_eq_ok, getAccount_eq_ok, pure_eq_ok] at h
  obtain ⟨-, ⟨hs, rfl⟩, -, ⟨ha, -⟩, -, hle, rfl⟩ := h
  exact .transfer hs ha hcost hle

theorem newSubscription_course {o : PaidSubscribeOp} (h : s.newSubscription o = .ok s') :
    Course P 0 s.bank s'.bank := by
  simp only [newSubscription, bind_eq_ok, pure_eq_ok] at h
  obtain ⟨s₁, h₁, rfl⟩ := h
  have hc : Course P 0 s.bank s₁.bank := paySubscription_course (Int.natCast_nonneg _) h₁
  exact hc

theorem changeSubscription_course {o : PaidSubscribeOp} {old : PaidSubscribe}
    (h : s.changeSubscription o old = .ok s') : Course P 0 s.bank s'.bank := by
  simp only [changeSubscription, bind_eq_ok] at h
  obtain ⟨remain, -, h⟩ := h
  by_cases hle : ((o.amount * o.level : Nat) : Int) ≤ remain
  · rw [if_pos hle] at h
    exact Except.ok.inj h ▸ .refl
  · rw [if_neg hle] at h
    simp only [bind_eq_ok, pure_eq_ok] at h
    obtain ⟨s₁, h₁, rfl⟩ := h
    have hc : Course P 0 s.bank s₁.bank := paySubscription_course (by omega) h₁
    exact hc

theorem paidSubscribe_course {o : PaidSubscribeOp} (h : s.paidSubscribe o = .ok s') : Course P 0 s.bank s'.bank := by
  simp only [paidSubscribe, bind_eq_ok] at h
  obtain ⟨-, -, -, -, -, -, -, -, -, -, h⟩ := h
  cases hp : s.paidSubscriptions.find o.account with
  | none =>
      rw [hp] at h
      cases h
  | some p =>
      rw [hp] at h
      simp only [bind_eq_ok] at h
      obtain ⟨-, -, -, -, -, -, -, -, h⟩ := h
      cases ho : s.paidSubscribes.find (o.subscriber, o.account) with
      | none =>
          rw [ho] at h
          exact newSubscription_course h
      | some old =>
          rw [ho] at h
          dsimp only at h
          by_cases hactive : old.active
          · rw [if_pos hactive] at h
            by_cases hsame : old.amount = o.amount ∧ old.level = o.level ∧ old.period = o.period
            · rw [if_pos hsame] at h
              simp only [bind_eq_ok, pure_eq_ok] at h
              obtain ⟨-, -, rfl⟩ := h
              exact .refl
            · rw [if_neg hsame] at h
              exact changeSubscription_course h
          · rw [if_neg hactive] at h
            exact newSubscription_course
              (s := { s with paidSubscribes := s.paidSubscribes.erase (o.subscriber, o.account) }) h

/-! ## The committee -/

theorem committeeWorkerCreateRequest_course {o : CommitteeCreateRequest}
    (h : s.committeeWorkerCreateRequest o = .ok s') : Course P 0 s.bank s'.bank := by
  simp only [committeeWorkerCreateRequest, bind_eq_ok] at h
  obtain ⟨-, -, -, -, -, -, -, -, -, -, -, -, -, -, h⟩ := h
  split at h
  · have hc := payFee_course (P := P) h
    exact hc
  · exact Except.ok.inj h ▸ .refl

theorem committeeWorkerCancelRequest_course {id : Nat} (h : s.committeeWorkerCancelRequest a id = .ok s') :
    Course P 0 s.bank s'.bank := by
  simp only [committeeWorkerCancelRequest, bind_eq_ok] at h
  obtain ⟨-, -, h⟩ := h
  cases hr : s.committeeRequests.find id with
  | none =>
      rw [hr] at h
      cases h
  | some r =>
      rw [hr] at h
      simp only [bind_eq_ok, pure_eq_ok] at h
      obtain ⟨-, -, -, -, rfl⟩ := h
      exact .refl

theorem committeeVoteRequest_course {id : Nat} {percent : Int} (h : s.committeeVoteRequest a id percent = .ok s') :
    Course P 0 s.bank s'.bank := by
  simp only [committeeVoteRequest, bind_eq_ok] at h
  obtain ⟨-, -, -, -, h⟩ := h
  cases hr : s.committeeRequests.find id with
  | none =>
      rw [hr] at h
      cases h
  | some r =>
      rw [hr] at h
      simp only [bind_eq_ok] at h
      obtain ⟨-, -, h⟩ := h
      cases hv : s.committeeVotes.find (id, a) with
      | none =>
          rw [hv] at h
          exact Except.ok.inj h ▸ .refl
      | some old =>
          rw [hv] at h
          simp only [bind_eq_ok, pure_eq_ok] at h
          obtain ⟨-, -, rfl⟩ := h
          exact .refl

/-! ## Awards -/

/-- What so many reward shares claim leaves the reward fund. -/
theorem claimRshareAward_course {rshares payout : Int} (h : s.claimRshareAward rshares = .ok (payout, s')) :
    0 ≤ payout ∧ Course P payout s.bank s'.bank := by
  simp only [claimRshareAward, calcRshareAward, bind_eq_ok, mulDiv_eq_ok, pure_eq_ok] at h
  obtain ⟨p, ⟨-, -, hpos, hnn, rfl⟩, he⟩ := h
  obtain ⟨rfl, rfl⟩ := Prod.mk.inj he
  refine ⟨Int.ediv_nonneg hnn hpos.le, .funds le_rfl le_rfl rfl ?_⟩
  dsimp only [bank, escrowed, invited, pending]
  omega

/-- What the beneficiaries are due of `tokens`. -/
def beneficiariesDue (tokens : Int) (bs : List Beneficiary) : Int :=
  (bs.map (fun b => tokens * b.weight / Config.hundredPercent)).sum

/-- **The beneficiaries are paid what they are due.** -/
theorem payBeneficiaries_course {tokens paid paid' : Int} {bs : List Beneficiary}
    (h : bs.foldlM (payBeneficiary tokens) (s, paid) = .ok (s', paid')) :
    paid' = paid + beneficiariesDue tokens bs ∧ Course P (-beneficiariesDue tokens bs) s.bank s'.bank := by
  induction bs generalizing s paid with
  | nil =>
      obtain ⟨rfl, rfl⟩ := Prod.mk.inj (Except.ok.inj h)
      exact ⟨(add_zero paid).symm, .refl⟩
  | cons b bs ih =>
      simp only [List.foldlM_cons, payBeneficiary, bind_eq_ok, pure_eq_ok] at h
      obtain ⟨⟨s₁, p₁⟩, ⟨s₂, h₂, he⟩, h⟩ := h
      obtain ⟨hs₁, rfl⟩ := Prod.mk.inj he
      obtain ⟨hpaid, hc⟩ := ih h
      have hb : s₁.bank = s₂.bank := by
        rw [← hs₁]
        exact bank_modifyAccount_same rfl
      have hdue : beneficiariesDue tokens (b :: bs) =
          tokens * b.weight / Config.hundredPercent + beneficiariesDue tokens bs := List.sum_cons
      refine ⟨by rw [hpaid, hdue]; ring, ?_⟩
      rw [hb] at hc
      exact ((Course.vest h₂).trans hc).cast (by rw [hdue]; ring)

/-- **Parts by weight, rounded down, are together not more than there is.** -/
theorem sum_parts_le {t : Int} {whole : Nat} {ws : List Nat} (ht : 0 ≤ t) (hpos : 0 < whole)
    (hw : ws.sum ≤ whole) : (ws.map (fun w : Nat => t * w / whole)).sum ≤ t := by
  have hsum : ∀ l : List Nat, (l.map (fun w : Nat => t * w / whole)).sum * whole ≤ t * (l.sum : Nat) := by
    intro l
    induction l with
    | nil => simp
    | cons w l ih =>
        have hone := Int.ediv_mul_le (t * w) (b := (whole : Int)) (by omega)
        rw [List.map_cons, List.sum_cons, List.sum_cons, Nat.cast_add, add_mul, mul_add]
        exact add_le_add hone ih
  have hle : t * (ws.sum : Nat) ≤ t * whole := mul_le_mul_of_nonneg_left (by exact_mod_cast hw) ht
  exact le_of_mul_le_mul_right ((hsum ws).trans hle) (by exact_mod_cast hpos)

/-- The beneficiaries together have no more than there is. -/
theorem beneficiariesDue_le {t : Int} {bs : List Beneficiary} (ht : 0 ≤ t)
    (hw : (bs.map Beneficiary.weight).sum ≤ Config.hundredPercent) : beneficiariesDue t bs ≤ t := by
  have hle := sum_parts_le ht (by decide) hw
  rwa [List.map_map] at hle

/-- An award is paid: to the beneficiaries what they are due, to the receiver what they leave of `own`. -/
theorem payAward_course {receiver : AccountName} {bs : List Beneficiary} {tokens own : Int}
    (h : s.payAward receiver bs tokens own = .ok s') :
    Course P (-max own (beneficiariesDue tokens bs)) s.bank s'.bank := by
  simp only [payAward, bind_eq_ok] at h
  obtain ⟨⟨s₁, paid⟩, h₁, h⟩ := h
  obtain ⟨hpaid, hc⟩ := payBeneficiaries_course (P := P) h₁
  rw [zero_add] at hpaid
  subst hpaid
  dsimp only at h
  by_cases hrest : 0 < own - beneficiariesDue tokens bs
  · rw [if_pos hrest] at h
    simp only [bind_eq_ok, pure_eq_ok] at h
    obtain ⟨s₂, h₂, rfl⟩ := h
    rw [bank_modifyAccount_same rfl]
    exact (hc.trans (.vest h₂)).cast (by omega)
  · rw [if_neg hrest] at h
    exact Except.ok.inj h ▸ hc.cast (by omega)

theorem bank_spendEnergy {energy : Int} : (s.spendEnergy a energy).bank = s.bank := bank_modifyAccount_same rfl

/-- **`award`.** Whatever is claimed is paid. -/
theorem award_course {producing : Bool} {o : Award} (h : award producing s o = .ok s') :
    Course P 0 s.bank s'.bank := by
  simp only [award, bind_eq_ok, require_eq_ok, getAccount_eq_ok] at h
  obtain ⟨-, ⟨-, -, hw⟩, -, -, r, -, -, -, -, -, rshares, -, h⟩ := h
  have hclaim : ∃ tokens : Int, ∃ s₁ : Ledger, 0 ≤ tokens ∧ Course P tokens s.bank s₁.bank ∧
      (if 0 < tokens then do
        requireIf producing (o.beneficiaries.length ≤ Config.maxCommentBeneficiaries) .validation
        (s₁.spendEnergy o.initiator (r.currentEnergy s.time - o.energy)).payAward o.receiver o.beneficiaries
          tokens tokens
      else pure (s₁.spendEnergy o.initiator (r.currentEnergy s.time - o.energy))) = Except.ok s' := by
    by_cases hmin : rshares < s.medianProps.voteAccountingMinRshares
    · rw [if_pos hmin] at h
      simp only [bind_eq_ok, pure_eq_ok] at h
      obtain ⟨-, rfl, h⟩ := h
      refine ⟨0, s, le_rfl, .refl, h⟩
    · rw [if_neg hmin] at h
      simp only [bind_eq_ok] at h
      obtain ⟨⟨tokens, s₁⟩, h₁, h⟩ := h
      obtain ⟨ht, hc⟩ := claimRshareAward_course (P := P) h₁
      exact ⟨tokens, s₁, ht, hc, h⟩
  obtain ⟨tokens, s₁, ht, hc, h⟩ := hclaim
  by_cases hpos : 0 < tokens
  · rw [if_pos hpos] at h
    simp only [bind_eq_ok] at h
    obtain ⟨-, -, h⟩ := h
    have hpay := payAward_course (P := P) h
    rw [bank_spendEnergy, max_eq_left (beneficiariesDue_le ht hw)] at hpay
    exact (hc.trans hpay).cast (add_neg_cancel _)
  · rw [if_neg hpos, pure_eq_ok] at h
    rw [← h, bank_spendEnergy]
    exact hc.cast (by omega)

/-- `fixed_award`. -/
theorem fixedAward_course {producing : Bool} {o : FixedAward} (h : fixedAward producing s o = .ok s') :
    ∃ δ, Course P δ s.bank s'.bank := by
  simp only [fixedAward, bind_eq_ok] at h
  obtain ⟨-, -, -, -, r, -, -, -, -, -, maxR, -, maxReward, -, -, -, needed, -, -, -, part, -, rshares, -, h⟩ := h
  generalize (if rshares < ↑s.medianProps.voteAccountingMinRshares then 0 else rshares) = counted at h
  by_cases hzero : counted = 0
  · -- nothing is counted, and the check behind it refuses
    rw [if_pos hzero] at h
    simp only [bind_eq_ok, require_eq_ok] at h
    obtain ⟨-, -, -, -, -, hne, -⟩ := h
    exact absurd hzero hne
  · rw [if_neg hzero] at h
    simp only [bind_eq_ok] at h
    obtain ⟨-, -, -, -, -, -, ⟨tokens, s₁⟩, h₁, -, -, -, -, s₂, h₂, h⟩ := h
    have hclaim := (claimRshareAward_course (P := P) h₁).2
    have hpay := payAward_course (P := P) h₂
    rw [bank_spendEnergy] at hpay
    dsimp only at h
    by_cases hdonate : 0 < tokens - o.rewardAmount
    · rw [if_pos hdonate, pure_eq_ok] at h
      rw [← h]
      exact ⟨_, (hclaim.trans hpay).trans (.toCommittee hdonate.le)⟩
    · rw [if_neg hdonate, pure_eq_ok] at h
      rw [← h]
      exact ⟨_, hclaim.trans hpay⟩

end Ledger

end VizNode
