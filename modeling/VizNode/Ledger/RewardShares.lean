import VizNode.Ledger.Walks

/-!
# `VizNode.Ledger.RewardShares` — the shares that compete for the reward fund

Whoever awards claims a part of the reward fund: its reward shares divided by all there are, with its own among them.
The shares stay in the total until they expire. The total is kept as one number, and the shares that are to expire as a
list; this module shows that they never part.

**Only a claim and the expirations touch them.** A claim adds the same number to the total and to the list, the
expirations take from the total what leaves the list. Hardfork 4, which brought the awards, began with no shares at all.

## Contents
- **The balance.** `Balanced`; a claim and the expirations keep it, and a claim takes at most what the fund has.
- **Runs.** `Awarding`.
- **The claim.** `award_shares`.
-/

namespace VizNode

namespace Ledger

variable {T : Matter → Prop} {s s' : Ledger} {names : Names}

/-! ## The balance -/

/-- The shares that expire. -/
def expiring (s : Ledger) : Nat := (s.awardExpires.map Prod.snd).sum

/-- The shares that are due to expire now. -/
def expired (s : Ledger) : Nat := ((s.awardExpires.filter (fun p => decide (p.1 ≤ s.time))).map Prod.snd).sum

/-- **The shares balance**: the total is what expires, the fund has something or nothing, and nobody has awarded
    before hardfork 4. -/
structure Balanced (s : Ledger) : Prop where
  total  : s.totalRewardShares = s.expiring
  fund   : 0 ≤ s.totalRewardFund
  before : s.hasHardfork 4 = false → s.totalRewardShares = 0 ∧ s.awardExpires = []

theorem hasHardfork_mono {n : Nat} (hle : s.hardfork ≤ s'.hardfork) (h : s'.hasHardfork n = false) :
    s.hasHardfork n = false := by
  unfold hasHardfork at *
  rw [decide_eq_false_iff_not] at *
  omega

/-- What is not touched keeps its balance. -/
theorem Balanced.of_plain (h : Balanced s) (hp : Plain T s s') (hT : ¬ T .awards) : Balanced s' := by
  obtain ⟨⟨hshares, hexpires⟩, hfund⟩ := hp.awards_same hT
  refine ⟨?_, h.fund.trans hfund, fun hfork => ?_⟩
  · unfold expiring
    rw [hshares, hexpires]
    exact h.total
  · rw [hshares, hexpires]
    exact h.before (hasHardfork_mono hp.hardfork_le hfork)

/-- **A claim** takes at most what the fund has. -/
theorem claimRshareAward_spec {rshares payout : Int} (h : s.claimRshareAward rshares = .ok (payout, s'))
    (hfund : 0 ≤ s.totalRewardFund) : 0 < rshares ∧ 0 ≤ payout ∧ payout ≤ s.totalRewardFund := by
  simp only [claimRshareAward, calcRshareAward, bind_eq_ok, require_eq_ok, mulDiv_eq_ok, pure_eq_ok] at h
  obtain ⟨p, ⟨-, hpos, hwhole, hnonneg, rfl⟩, h⟩ := h
  obtain ⟨rfl, -⟩ := Prod.mk.inj h
  refine ⟨hpos, Int.ediv_nonneg hnonneg hwhole.le, ?_⟩
  calc s.totalRewardFund * rshares / (s.totalRewardShares + rshares)
      ≤ s.totalRewardFund * (s.totalRewardShares + rshares) / (s.totalRewardShares + rshares) := by
        refine Int.ediv_le_ediv hwhole (mul_le_mul_of_nonneg_left ?_ hfund)
        omega
    _ = s.totalRewardFund := Int.mul_ediv_cancel _ hwhole.ne'

theorem claimRshareAward_balanced {rshares payout : Int} (h : s.claimRshareAward rshares = .ok (payout, s'))
    (hfork : s.hasHardfork 4 = true) (hb : Balanced s) : Balanced s' := by
  obtain ⟨-, -, hle⟩ := claimRshareAward_spec h hb.fund
  simp only [claimRshareAward, bind_eq_ok, pure_eq_ok] at h
  obtain ⟨p, -, h⟩ := h
  obtain ⟨rfl, rfl⟩ := Prod.mk.inj h
  refine ⟨?_, ?_, fun hbefore => ?_⟩
  · have htotal := hb.total
    unfold expiring at htotal ⊢
    simp [htotal]
  · show 0 ≤ s.totalRewardFund - p
    omega
  · have hnot : s.hasHardfork 4 = false := hbefore
    rw [hfork] at hnot
    cases hnot

/-- What is due to expire, and the rest. -/
theorem expiring_eq : s.expiring =
    s.expired + ((s.awardExpires.filter (fun p => !decide (p.1 ≤ s.time))).map Prod.snd).sum := by
  have hperm := List.filter_append_perm (fun p : Nat × Nat => decide (p.1 ≤ s.time)) s.awardExpires
  unfold expiring expired
  rw [← (hperm.map Prod.snd).sum_eq, List.map_append, List.sum_append]

/-- What is due to expire is part of the total. -/
theorem Balanced.expired_le (h : Balanced s) : s.expired ≤ s.totalRewardShares := by
  rw [h.total, expiring_eq]
  exact Nat.le_add_right _ _

/-- **The expirations** take from the total what leaves the list. -/
theorem expireAwardShares_balanced (h : Balanced s) : Balanced s.expireAwardShares := by
  refine ⟨?_, h.fund, fun hbefore => ?_⟩
  · show s.totalRewardShares - s.expired = s.expireAwardShares.expiring
    rw [h.total, expiring_eq, Nat.add_sub_cancel_left]
    rfl
  · obtain ⟨hnone, hlist⟩ := h.before hbefore
    have hshares : s.totalRewardShares - s.expired = 0 := by omega
    refine ⟨hshares, ?_⟩
    show s.awardExpires.filter (fun p => !decide (p.1 ≤ s.time)) = []
    rw [hlist]
    rfl

/-- What an award does keeps the balance. -/
theorem Claims.balanced (hc : Claims s s') (hfork : s.hasHardfork 4 = true) (hb : Balanced s) : Balanced s' := by
  rcases hc with hp | ⟨rshares, payout, s₁, hclaim, hp⟩
  · exact hb.of_plain hp id
  · exact (claimRshareAward_balanced hclaim hfork hb).of_plain hp id

theorem award_balanced {producing : Bool} {o : Award} (h : award producing s o = .ok s') (hb : Balanced s) :
    Balanced s' := by
  have hfork : s.hasHardfork 4 = true := by
    simp only [award, bind_eq_ok, require_eq_ok] at h
    obtain ⟨-, -, -, hfork, -⟩ := h
    exact hfork
  exact (award_claims s' h).balanced hfork hb

theorem fixedAward_balanced {producing : Bool} {o : FixedAward} (h : fixedAward producing s o = .ok s')
    (hb : Balanced s) : Balanced s' := by
  have hfork : s.hasHardfork 11 = true := by
    simp only [fixedAward, bind_eq_ok, require_eq_ok] at h
    obtain ⟨-, -, -, hfork, -⟩ := h
    exact hfork
  have hearlier : s.hasHardfork 4 = true := by
    unfold hasHardfork at *
    rw [decide_eq_true_iff] at *
    omega
  exact (fixedAward_claims s' h).balanced hearlier hb

theorem evaluate_balanced {loc : Local} {o : Operation} (h : evaluate names loc s o = .ok s') (hb : Balanced s) :
    Balanced s' := by
  by_cases hT : o.touches .awards
  · cases o with
    | award o => exact award_balanced h hb
    | fixedAward o => exact fixedAward_balanced h hb
    | _ => cases hT
  · have hplain : Plain o.touches s s' := evaluate_plain (.refl s) (fun _ hm => hm) _ h
    exact hb.of_plain hplain hT

theorem Performed.balanced {P : Ledger → Operation → Prop} {ops : List Operation} (h : Performed names P ops s s')
    (hb : Balanced s) : Balanced s' := by
  induction h with
  | nil s => exact hb
  | cons _ ho _ ih => exact ih (evaluate_balanced ho hb)

theorem processRewards_balanced (h : s.processRewards = .ok s') (hb : Balanced s) : Balanced s' := by
  have hplain : Plain nothing s.readied s' := processRewards_readied (.refl _) _ h
  refine Balanced.of_plain ?_ hplain id
  unfold readied
  split
  · exact expireAwardShares_balanced (hb.of_plain (T := nothing) (Plain.refl s).inflationRecalc id)
  · exact hb

/-- Before hardfork 4 nothing is left to cash out, and behind it nothing is. -/
theorem cashoutContent_balanced {c : Content} (h : s.cashoutContent c = .ok s') (hb : Balanced s) : Balanced s' := by
  simp only [cashoutContent, bind_eq_ok, require_eq_ok] at h
  obtain ⟨-, hfork, h⟩ := h
  split at h
  · exact pure_eq_ok.mp h ▸ hb
  · next hsome =>
      simp only [bind_eq_ok, mulDiv_eq_ok] at h
      obtain ⟨-, ⟨hwhole, -⟩, -⟩ := h
      have hnone := (hb.before (by simpa using hfork)).1
      rw [hnone] at hwhole
      exact absurd hwhole (lt_irrefl 0)

/-- **An act keeps the balance.** -/
theorem Act.balanced (h : Act names T s s') (hb : Balanced s) : Balanced s' := by
  by_cases hT : T .awards
  · cases h with
    | transaction hsigned hops => exact hops.balanced hb
    | processRewards h => exact processRewards_balanced h hb
    | cashoutContent h => exact cashoutContent_balanced h hb
    | accountOnAuctionExpiration => exact hT.elim fun _ he => nomatch he
    | emptyAccounts => exact hT.elim fun _ he => nomatch he.2
    | _ => cases hT
  · exact hb.of_plain h.plain hT

/-! ## Runs -/

/-- **The ledgers a node can come to**, operation by operation: from genesis, without the content of the time before
    hardfork 4, or from where `apply_hardfork` has done away with it and its shares. -/
inductive Awarding (names : Names) : Ledger → Prop
  | genesis (props : MedianProps) (initiatorKey inviteKey : PublicKey) :
      Awarding names (genesis props initiatorKey inviteKey)
  | hardfork4 {s : Ledger} (hfork : s.hasHardfork 4 = true) (hshares : s.totalRewardShares = 0)
      (hexpires : s.awardExpires = []) (hfund : 0 ≤ s.totalRewardFund) : Awarding names s
  | operation {s s' : Ledger} {loc : Local} {o : Operation} (h : Awarding names s)
      (ho : evaluate names loc s o = .ok s') : Awarding names s'
  | act {s s' : Ledger} {T : Matter → Prop} (h : Awarding names s) (ha : Act names T s s') : Awarding names s'

theorem Walk.awarding (h : Walk names s) : Awarding names s := by
  induction h with
  | genesis props initiatorKey inviteKey => exact .genesis props initiatorKey inviteKey
  | act _ ha ih => exact ih.act ha

theorem Awarding.balanced (h : Awarding names s) : Balanced s := by
  induction h with
  | genesis => exact ⟨rfl, le_rfl, fun _ => ⟨rfl, rfl⟩⟩
  | hardfork4 hfork hshares hexpires hfund =>
      refine ⟨?_, hfund, fun hbefore => ⟨hshares, hexpires⟩⟩
      unfold expiring
      rw [hshares, hexpires]
      rfl
  | operation _ ho ih => exact evaluate_balanced ho ih
  | act _ ha ih => exact ha.balanced ih

/-! ## The claim of the reward shares -/

/-- **The reward shares**, in every ledger of a run: the total is the sum of what is to expire, what expires now is part
    of it and is just what leaves the list, the fund is not below zero, and nobody claims more than it has. -/
theorem award_shares (h : Awarding names s) :
    s.totalRewardShares = (s.awardExpires.map Prod.snd).sum ∧
    ((s.awardExpires.filter (fun p => decide (p.1 ≤ s.time))).map Prod.snd).sum ≤ s.totalRewardShares ∧
    0 ≤ s.totalRewardFund ∧
    ∀ rshares payout s', s.claimRshareAward rshares = .ok (payout, s') →
      0 ≤ payout ∧ payout ≤ s.totalRewardFund ∧ s'.totalRewardFund = s.totalRewardFund - payout := by
  have hb := h.balanced
  refine ⟨hb.total, hb.expired_le, hb.fund, fun rshares payout s' hc => ?_⟩
  obtain ⟨-, hpos, hle⟩ := claimRshareAward_spec hc hb.fund
  refine ⟨hpos, hle, ?_⟩
  simp only [claimRshareAward, bind_eq_ok, pure_eq_ok] at hc
  obtain ⟨p, -, hc⟩ := hc
  obtain ⟨rfl, rfl⟩ := Prod.mk.inj hc
  rfl

/-- The initiator, who has shares, gives an award with all its energy. -/
def Sample.firstAward : Award := ⟨Config.initiatorName, Config.inviteAccount, 10000, []⟩

/-- The first award takes all of the reward fund, and its million shares are the total. -/
theorem award_shares_sample : ∃ s, Awarding Sample.names s ∧ s.totalRewardShares = 1000000 ∧
    s.totalRewardShares = (s.awardExpires.map Prod.snd).sum ∧ s.awardExpires.length = 1 := by
  have ht : passes (evaluate Sample.names Sample.loc { Sample.start with headBlockNumber := 1 }
      (.transferToVesting Config.initiatorName Config.initiatorName 1000)) (fun s₁ =>
        passes s₁.processRewards (fun s₂ =>
          passes (evaluate Sample.names Sample.loc s₂ (.award Sample.firstAward)) (fun s₃ =>
            decide (s₃.totalRewardShares = 1000000 ∧ s₃.awardExpires.length = 1)))) = true := by decide +kernel
  obtain ⟨s₁, h₁, ht⟩ := exists_of_passes ht
  obtain ⟨s₂, h₂, ht⟩ := exists_of_passes ht
  obtain ⟨s, h, ht⟩ := exists_of_passes ht
  obtain ⟨htotal, hone⟩ := of_decide_eq_true ht
  have hrun : Awarding Sample.names s :=
    .operation (.act (.operation (Sample.start_walk 1).awarding h₁) (.processRewards h₂)) h
  exact ⟨s, hrun, htotal, (award_shares hrun).1, hone⟩

end Ledger

end VizNode
