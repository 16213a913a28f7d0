import VizNode.Ledger.Walks

/-!
# `VizNode.Ledger.Requests` — the requests to the committee

A request asks the committee for tokens. While it is voted on, its creator can cancel it; when its time is over the
votes decide, and an approved request is paid in instalments from the committee fund until nothing remains.

This module looks at the requests one by one. A `Deal` is the least a node does to them: an operation, the end of one
vote, one instalment. Every run of a node is a chain of deals, and it carries a list of what was paid to whom.

**A voter counts for at least nothing.** The votes of a request weigh the shares of the voters, negative votes
included; no percentage is above the whole and no shares are below zero (`Upright`), so the votes for a request do not
outweigh the voters, and the payout stays under what was asked for.

**The instalments fit into the fund.** Each is at most the fund, divided by the number of the approved requests and one
more, as it was before the first.

## Contents
- **The promise of a request.** `CommitteeRequest.Promised`, `requestOutcome_approved`.
- **Deals.** `Deal`, `Dealt`, and what a deal keeps.
- **Runs.** Every run of a node is a chain of deals.
- **The claim.** `committee_requests`.
-/

namespace VizNode

/-! ## The promise of a request -/

/-- **Where the status of a request goes.** -/
inductive RequestStatus.Moves : RequestStatus → RequestStatus → Prop
  | stays (x : RequestStatus) : Moves x x
  | cancel : Moves .voting .canceled
  | failQuorum : Moves .voting .quorumFailed
  | reject : Moves .voting .rejected
  | approve : Moves .voting .approved
  | pay : Moves .approved .paid

/-- **What a request promises.** Nothing is paid before it is approved; then what was paid and what remains are what
    was decided, which is between what was asked for. -/
structure CommitteeRequest.Promised (r : CommitteeRequest) : Prop where
  unpaid  : r.status ≠ .approved → r.status ≠ .paid → r.payoutAmount = 0
  decided : r.status = .approved ∨ r.status = .paid → r.requiredAmountMin ≤ r.conclusionPayoutAmount ∧
    r.conclusionPayoutAmount ≤ r.requiredAmountMax ∧ 0 ≤ r.payoutAmount ∧
    r.payoutAmount + r.remainPayoutAmount = r.conclusionPayoutAmount
  settled : r.status = .paid → r.remainPayoutAmount = 0

/-- No more is paid than what was decided. -/
theorem CommitteeRequest.Promised.payout_le {r : CommitteeRequest} (h : r.Promised) :
    r.payoutAmount ≤ r.conclusionPayoutAmount := by
  by_cases hd : r.status = .approved ∨ r.status = .paid
  · obtain ⟨-, -, -, hsum⟩ := h.decided hd
    omega
  · rw [h.unpaid (fun ha => hd (.inl ha)) (fun hp => hd (.inr hp))]
    exact Int.natCast_nonneg _

namespace Ledger

variable {T : Matter → Prop} {s s' : Ledger} {names : Names}

/-- **The votes do not outweigh the voters.** -/
theorem votes_le {l : List (AccountName × Int)} (shares : AccountName → Int) (hs : ∀ v ∈ l, 0 ≤ shares v.1)
    (hv : ∀ v ∈ l, v.2 ≤ Config.hundredPercent) :
    (l.map (fun v => (shares v.1 * v.2).tdiv Config.hundredPercent)).sum ≤ (l.map (fun v => shares v.1)).sum := by
  refine List.sum_le_sum fun v hmem => ?_
  have hmul : shares v.1 * v.2 ≤ shares v.1 * Config.hundredPercent :=
    mul_le_mul_of_nonneg_left (hv v hmem) (hs v hmem)
  calc (shares v.1 * v.2).tdiv Config.hundredPercent
      ≤ (shares v.1 * Config.hundredPercent).tdiv Config.hundredPercent := Int.tdiv_le_tdiv (by decide) hmul
    _ = shares v.1 := Int.mul_tdiv_cancel _ (by decide)

/-- A part of at most the whole is at most what was asked for. -/
theorem payment_le {n : Nat} {actual whole : Int} (hw : 0 < whole) (hle : actual ≤ whole) :
    n * ((Config.hundredPercent : Int) * actual / whole).toNat / Config.hundredPercent ≤ n := by
  have hpart : ((Config.hundredPercent : Int) * actual / whole).toNat ≤ Config.hundredPercent := by
    refine Int.toNat_le.mpr ?_
    calc (Config.hundredPercent : Int) * actual / whole
        ≤ (Config.hundredPercent : Int) * whole / whole :=
          Int.ediv_le_ediv hw (mul_le_mul_of_nonneg_left hle (by decide))
      _ = (Config.hundredPercent : Int) := Int.mul_ediv_cancel _ hw.ne'
  refine Nat.div_le_of_le_mul ?_
  rw [Nat.mul_comm Config.hundredPercent]
  exact Nat.mul_le_mul_left n hpart

/-- The votes on a request are within bounds. -/
def VotesWithin (s : Ledger) : Prop := ∀ k ∈ s.committeeVotes.keys, s.committeeVotes.row k ≤ Config.hundredPercent

/-- **What the votes decide**: an approved request is paid between what was asked for. -/
theorem requestOutcome_spec {id p : Nat} {r : CommitteeRequest} {x : RequestStatus}
    (h : s.requestOutcome id r = .ok (x, p)) (hu : s.Upright) (hv : s.VotesWithin) :
    RequestStatus.Moves .voting x ∧ x ≠ .voting ∧
      (x = .approved → r.requiredAmountMin ≤ p ∧ p ≤ r.requiredAmountMax) := by
  simp only [requestOutcome, bind_eq_ok, require_eq_ok] at h
  obtain ⟨-, hknown, h⟩ := h
  have hshares : ∀ v ∈ s.requestVotes id, 0 ≤ (s.accounts.row v.1).effectiveVestingShares :=
    fun v hmem => hu.effectiveVestingShares_nonneg (hknown v hmem)
  have hpercent : ∀ v ∈ s.requestVotes id, v.2 ≤ Config.hundredPercent := by
    intro v hmem
    obtain ⟨k, hk, rfl⟩ := List.mem_map.mp hmem
    exact hv k (List.mem_of_mem_filter hk)
  have hle := votes_le (fun a => (s.accounts.row a).effectiveVestingShares) hshares hpercent
  split at h
  · obtain ⟨rfl, -⟩ := Prod.mk.inj (pure_eq_ok.mp h)
    exact ⟨.failQuorum, by decide, fun he => absurd he (by decide)⟩
  split at h
  · obtain ⟨rfl, -⟩ := Prod.mk.inj (pure_eq_ok.mp h)
    exact ⟨.reject, by decide, fun he => absurd he (by decide)⟩
  simp only [bind_eq_ok, mulDiv_eq_ok, pure_eq_ok] at h
  obtain ⟨part, ⟨hmax, -, rfl⟩, h⟩ := h
  obtain ⟨rfl, rfl⟩ := Prod.mk.inj h
  split
  · exact ⟨.reject, by decide, fun he => absurd he (by decide)⟩
  · next hmin => exact ⟨.approve, by decide, fun _ => ⟨Nat.le_of_not_lt hmin, payment_le hmax hle⟩⟩

/-! ## Deals -/

/-- What was paid for a request. -/
def paidTo (ps : List (Nat × Int)) (id : Nat) : Int := ((ps.filter (fun p => decide (p.1 = id))).map Prod.snd).sum

@[simp] theorem paidTo_nil {id : Nat} : paidTo [] id = 0 := rfl

theorem paidTo_append {ps qs : List (Nat × Int)} {id : Nat} : paidTo (ps ++ qs) id = paidTo ps id + paidTo qs id := by
  unfold paidTo
  rw [List.filter_append, List.map_append, List.sum_append]

theorem paidTo_single_self {id : Nat} {x : Int} : paidTo [(id, x)] id = x := by simp [paidTo]

theorem paidTo_single_ne {i id : Nat} {x : Int} (h : i ≠ id) : paidTo [(id, x)] i = 0 := by simp [paidTo, h.symm]

/-- **What a node does, request by request**, with what it pays for which request: what does not concern the committee,
    an operation, the removal of closed requests, the end of a vote, and an instalment from the fund. -/
inductive Deal (names : Names) : List (Nat × Int) → Ledger → Ledger → Prop
  | act {s s' : Ledger} {T : Matter → Prop} (h : Act names T s s') (hT : ¬ T .committee) : Deal names [] s s'
  | operation {s s' : Ledger} {loc : Local} {o : Operation} (hk : ∀ a ∈ o.signer, a ∉ Config.keyless)
      (h : evaluate names loc s o = .ok s') : Deal names [] s s'
  | clearExpired {s s' : Ledger} (h : s.clearExpired = .ok s') : Deal names [] s s'
  | concludeRequest {s s' : Ledger} {id : Nat} (hid : id ∈ s.requestsWith .voting)
      (h : s.concludeRequest id = .ok s') : Deal names [] s s'
  | payRequest {s s' : Ledger} {most : Int} {id : Nat} (hid : id ∈ s.requestsWith .approved) (hmost : 0 ≤ most)
      (hfund : most ≤ s.committeeFund) (h : payRequest most s id = .ok s') :
      Deal names [(id, s.committeeFund - s'.committeeFund)] s s'

/-- **The ledgers that a chain of deals comes to**, with all that was paid. -/
inductive Dealt (names : Names) : List (Nat × Int) → Ledger → Prop
  | genesis (props : MedianProps) (initiatorKey inviteKey : PublicKey) :
      Dealt names [] (genesis props initiatorKey inviteKey)
  | deal {s s' : Ledger} {ps qs : List (Nat × Int)} (h : Dealt names ps s) (hd : Deal names qs s s') :
      Dealt names (ps ++ qs) s'

/-- **What becomes of the requests** in a deal that pays `qs`. -/
structure Handles (qs : List (Nat × Int)) (s s' : Ledger) : Prop where
  stays   : ∀ id ∈ s.committeeRequests.keys, id ∈ s'.committeeRequests.keys →
    RequestStatus.Moves (s.committeeRequests.row id).status (s'.committeeRequests.row id).status ∧
    ((s.committeeRequests.row id).Promised → (s'.committeeRequests.row id).Promised) ∧
    (s'.committeeRequests.row id).payoutAmount = (s.committeeRequests.row id).payoutAmount + paidTo qs id
  opens   : ∀ id ∈ s'.committeeRequests.keys, id ∉ s.committeeRequests.keys →
    (s'.committeeRequests.row id).status = .voting ∧ (s'.committeeRequests.row id).payoutAmount = 0
  closes  : ∀ id ∈ s.committeeRequests.keys, id ∉ s'.committeeRequests.keys →
    (s.committeeRequests.row id).status ≠ .approved ∧ (s.committeeRequests.row id).status ≠ .paid ∧ paidTo qs id = 0
  others  : ∀ id, id ∉ s.committeeRequests.keys → paidTo qs id = 0
  within  : s.VotesWithin → s'.VotesWithin
  fund    : 0 ≤ s.committeeFund → 0 ≤ s'.committeeFund

namespace Handles

/-- The requests and the votes are left alone. -/
theorem of_same (hr : s'.committeeRequests = s.committeeRequests) (hv : s'.committeeVotes = s.committeeVotes)
    (hf : s.committeeFund ≤ s'.committeeFund) : Handles [] s s' := by
  refine ⟨?_, ?_, ?_, fun _ _ => rfl, ?_, fun h => h.trans hf⟩
  · intro id _ _
    rw [hr]
    exact ⟨.stays _, fun h => h, (add_zero _).symm⟩
  · intro id hmem hnew
    exact absurd (hr ▸ hmem) hnew
  · intro id hmem hgone
    exact absurd (hr.symm ▸ hmem) hgone
  · unfold VotesWithin
    rw [hv]
    exact fun h => h

/-- One request changes. -/
theorem of_modify {id : Nat} {f : CommitteeRequest → CommitteeRequest} {qs : List (Nat × Int)}
    (hid : id ∈ s.committeeRequests.keys) (hr : s'.committeeRequests = s.committeeRequests.modify id f)
    (hmoves : RequestStatus.Moves (s.committeeRequests.row id).status (f (s.committeeRequests.row id)).status)
    (hpromised : (s.committeeRequests.row id).Promised → (f (s.committeeRequests.row id)).Promised)
    (hpaid : (f (s.committeeRequests.row id)).payoutAmount = (s.committeeRequests.row id).payoutAmount + paidTo qs id)
    (hothers : ∀ i, i ≠ id → paidTo qs i = 0) (hv : s.VotesWithin → s'.VotesWithin)
    (hf : 0 ≤ s.committeeFund → 0 ≤ s'.committeeFund) : Handles qs s s' := by
  refine ⟨?_, ?_, ?_, fun i hi => hothers i fun he => hi (he ▸ hid), hv, hf⟩
  · intro i _ _
    rw [hr, Table.modify_row]
    by_cases hi : i = id
    · subst hi
      rw [if_pos rfl]
      exact ⟨hmoves, hpromised, hpaid⟩
    · rw [if_neg hi, hothers i hi]
      exact ⟨.stays _, fun h => h, (add_zero _).symm⟩
  · intro i hmem hnew
    rw [hr] at hmem
    exact absurd hmem hnew
  · intro i hmem hgone
    rw [hr] at hgone
    exact absurd hmem hgone

end Handles

/-! ### Operations -/

theorem committeeWorkerCreateRequest_handles {o : CommitteeCreateRequest}
    (h : s.committeeWorkerCreateRequest o = .ok s') : Handles [] s s' := by
  simp only [committeeWorkerCreateRequest, bind_eq_ok, require_eq_ok] at h
  obtain ⟨-, -, creator, -, -, -, -, -, -, -, -, -, -, hnew, h⟩ := h
  have hrow : s'.committeeRequests = s.committeeRequests.insert (s.committeeRequestCount + 1)
        { creator := o.creator, worker := o.worker, url := o.url, requiredAmountMin := o.requiredAmountMin
          requiredAmountMax := o.requiredAmountMax, startTime := s.time, endTime := s.time + o.duration } ∧
      s'.committeeVotes = s.committeeVotes ∧ s.committeeFund ≤ s'.committeeFund := by
    split at h
    · obtain ⟨⟨hr, hv, -⟩, hf⟩ := (payFee_plain (T := nothing) (.refl _) _ h).committee_same id
      exact ⟨hr, hv, hf⟩
    · obtain rfl := pure_eq_ok.mp h
      exact ⟨rfl, rfl, le_rfl⟩
  obtain ⟨hr, hv, hf⟩ := hrow
  refine ⟨?_, ?_, ?_, fun _ _ => rfl, ?_, fun hpos => hpos.trans hf⟩
  · intro id hmem _
    rw [hr, Table.insert_row_of_mem hnew hmem]
    exact ⟨.stays _, fun hp => hp, (add_zero _).symm⟩
  · intro id hmem hid
    rw [hr] at hmem ⊢
    obtain rfl := ((Table.mem_insert_keys hnew).mp hmem).resolve_left hid
    rw [Table.insert_row_self hnew]
    exact ⟨rfl, rfl⟩
  · intro id hmem hgone
    rw [hr] at hgone
    exact absurd ((Table.mem_insert_keys hnew).mpr (.inl hmem)) hgone
  · unfold VotesWithin
    rw [hv]
    exact fun hw => hw

theorem committeeWorkerCancelRequest_handles {creator : AccountName} {id : Nat}
    (h : s.committeeWorkerCancelRequest creator id = .ok s') : Handles [] s s' := by
  simp only [committeeWorkerCancelRequest, bind_eq_ok] at h
  obtain ⟨-, -, h⟩ := h
  cases hfind : s.committeeRequests.find id with
  | none =>
      rw [hfind] at h
      cases h
  | some r =>
      rw [hfind] at h
      simp only [bind_eq_ok, require_eq_ok, pure_eq_ok] at h
      obtain ⟨-, -, -, hopen, rfl⟩ := h
      obtain ⟨hid, rfl⟩ := Table.find_eq_some.mp hfind
      have hmoves : RequestStatus.Moves (s.committeeRequests.row id).status .canceled := by
        rw [hopen]
        exact .cancel
      refine .of_modify (f := fun r => { r with status := .canceled, conclusionTime := s.time }) hid rfl hmoves
        (fun hp => ?_) (add_zero _).symm (fun _ _ => rfl) (fun hw => hw) (fun hf => hf)
      have hnone := hp.unpaid (by rw [hopen]; decide) (by rw [hopen]; decide)
      have hopened : ¬ (RequestStatus.canceled = .approved ∨ RequestStatus.canceled = .paid) := by decide
      have hunpaid : RequestStatus.canceled ≠ .paid := by decide
      exact ⟨fun _ _ => hnone, fun hd => absurd hd hopened, fun he => absurd he hunpaid⟩

theorem committeeVoteRequest_handles {voter : AccountName} {id : Nat} {percent : Int}
    (h : s.committeeVoteRequest voter id percent = .ok s') : Handles [] s s' := by
  simp only [committeeVoteRequest, bind_eq_ok, require_eq_ok] at h
  obtain ⟨-, hpercent, -, -, h⟩ := h
  cases hfind : s.committeeRequests.find id with
  | none =>
      rw [hfind] at h
      cases h
  | some r =>
      rw [hfind] at h
      simp only [bind_eq_ok, require_eq_ok] at h
      obtain ⟨-, hopen, h⟩ := h
      obtain ⟨hid, rfl⟩ := Table.find_eq_some.mp hfind
      cases hvote : s.committeeVotes.find (id, voter) with
      | some old =>
          rw [hvote] at h
          simp only [bind_eq_ok, require_eq_ok, pure_eq_ok] at h
          obtain ⟨-, -, rfl⟩ := h
          have hkeep : Handles [] s s := .of_same rfl rfl le_rfl
          refine ⟨hkeep.stays, hkeep.opens, hkeep.closes, hkeep.others, fun hw => ?_, hkeep.fund⟩
          exact Table.forall_modify (P := fun _ x => x ≤ (Config.hundredPercent : Int)) hw fun _ => hpercent.2
      | none =>
          rw [hvote] at h
          obtain rfl := pure_eq_ok.mp h
          refine .of_modify (f := fun r => { r with votesCount := r.votesCount + 1 }) hid rfl (.stays _) (fun hp => ⟨hp.unpaid, hp.decided, hp.settled⟩) (add_zero _).symm
            (fun _ _ => rfl) (fun hw => ?_) (fun hf => hf)
          exact Table.forall_insert (P := fun _ x => x ≤ (Config.hundredPercent : Int)) hw hpercent.2

/-- What does not touch the committee. -/
theorem Handles.of_plain (h : Plain T s s') (hT : ¬ T .committee) : Handles [] s s' := by
  obtain ⟨⟨hr, hv, -⟩, hf⟩ := h.committee_same hT
  exact .of_same hr hv hf

/-- Something that does not touch the committee, and then what does. -/
theorem Handles.after {s₁ : Ledger} {qs : List (Nat × Int)} (hp : Plain T s s₁) (hT : ¬ T .committee)
    (h : Handles qs s₁ s') : Handles qs s s' := by
  obtain ⟨⟨hr, hv, -⟩, hf⟩ := hp.committee_same hT
  have hwithin : s.VotesWithin → s₁.VotesWithin := by
    unfold VotesWithin
    rw [hv]
    exact fun hw => hw
  exact ⟨hr ▸ h.stays, hr ▸ h.opens, hr ▸ h.closes, hr ▸ h.others, fun hw => h.within (hwithin hw),
    fun hpos => h.fund (hpos.trans hf)⟩

theorem evaluate_handles {loc : Local} {o : Operation} (h : evaluate names loc s o = .ok s') : Handles [] s s' := by
  by_cases hT : o.touches .committee
  · cases o with
    | committeeWorkerCreateRequest o => exact committeeWorkerCreateRequest_handles h
    | committeeWorkerCancelRequest creator id => exact committeeWorkerCancelRequest_handles h
    | committeeVoteRequest voter id percent => exact committeeVoteRequest_handles h
    | _ => cases hT
  · have hplain : Plain o.touches s s' := evaluate_plain (.refl s) (fun _ hm => hm) _ h
    exact .of_plain hplain hT

/-! ### The parts of a block -/

theorem mem_requestsWith {x : RequestStatus} {id : Nat} :
    id ∈ s.requestsWith x ↔ id ∈ s.committeeRequests.keys ∧ (s.committeeRequests.row id).status = x := by
  unfold requestsWith
  rw [List.mem_filter, decide_eq_true_iff]

/-- **Closed requests are removed**, and no others. -/
theorem clearClosedCommitteeRequests_handles : Handles [] s s.clearClosedCommitteeRequests := by
  have hrows : s.clearClosedCommitteeRequests.committeeRequests.row = s.committeeRequests.row := Table.foldl_erase_row
  have hvotes : s.clearClosedCommitteeRequests.committeeVotes.row = s.committeeVotes.row := Table.foldl_erase_row
  refine ⟨?_, ?_, ?_, fun _ _ => rfl, ?_, fun hf => hf⟩
  · intro id _ _
    rw [hrows]
    exact ⟨.stays _, fun hp => hp, (add_zero _).symm⟩
  · intro id hmem hnew
    exact absurd (Table.mem_keys_of_mem_foldl_erase hmem) hnew
  · intro id hmem hgone
    refine ⟨fun happroved => hgone ?_, fun hpaid => hgone ?_, rfl⟩
    · refine Table.mem_foldl_erase_keys hmem fun hclosed => ?_
      exact (of_decide_eq_true (List.mem_filter.mp hclosed).2).2.1 happroved
    · refine Table.mem_foldl_erase_keys hmem fun hclosed => ?_
      exact (of_decide_eq_true (List.mem_filter.mp hclosed).2).2.2.1 hpaid
  · intro hw k hk
    rw [hvotes]
    exact hw k (Table.mem_keys_of_mem_foldl_erase hk)

theorem clearExpired_handles (h : s.clearExpired = .ok s') : Handles [] s s' := by
  simp only [clearExpired, bind_eq_ok] at h
  obtain ⟨s₁, h₁, h⟩ := h
  have hplain : Plain nothing s s₁ := clearExpiredDelegations_plain (.refl s) _ h₁
  split at h
  · obtain rfl := pure_eq_ok.mp h
    have hinvites : Plain nothing s s₁.clearUsedInvites := hplain
    exact .after hinvites id clearClosedCommitteeRequests_handles
  · obtain rfl := pure_eq_ok.mp h
    exact .of_plain hplain id

theorem concludeRequest_handles {id : Nat} (hid : id ∈ s.requestsWith .voting) (h : s.concludeRequest id = .ok s')
    (hu : s.Upright) (hv : s.VotesWithin) : Handles [] s s' := by
  obtain ⟨hmem, hopen⟩ := mem_requestsWith.mp hid
  unfold concludeRequest at h
  dsimp only at h
  split at h
  · simp only [bind_eq_ok] at h
    obtain ⟨⟨x, payout⟩, hout, h⟩ := h
    obtain rfl := pure_eq_ok.mp h
    obtain ⟨hmoves, hclosed, hdecided⟩ := requestOutcome_spec hout hu hv
    refine .of_modify (f := fun r => { r with
        status                 := x
        conclusionTime         := s.time
        conclusionPayoutAmount := payout
        remainPayoutAmount     := if x = .approved then payout else r.remainPayoutAmount })
      hmem rfl (hopen ▸ hmoves) (fun hp => ?_) (add_zero _).symm (fun _ _ => rfl) (fun hw => hw) (fun hf => hf)
    have hnone := hp.unpaid (by rw [hopen]; decide) (by rw [hopen]; decide)
    have hnot : x ≠ .paid := by
      rintro rfl
      cases hmoves
    refine ⟨fun _ _ => hnone, fun hd => ?_, fun he => absurd he hnot⟩
    obtain rfl : x = .approved := hd.resolve_right hnot
    obtain ⟨hmin, hmax⟩ := hdecided rfl
    refine ⟨hmin, hmax, hnone.ge, ?_⟩
    show (s.committeeRequests.row id).payoutAmount + (((if RequestStatus.approved = .approved then payout
      else (s.committeeRequests.row id).remainPayoutAmount) : Nat) : Int) = payout
    rw [hnone, if_pos rfl, zero_add]
  · obtain rfl := pure_eq_ok.mp h
    exact .of_same rfl rfl le_rfl

/-- **An instalment**: the worker has what the fund has lost. -/
theorem payRequest_spec {most : Int} {id : Nat} (h : payRequest most s id = .ok s') :
    s.committeeFund - s'.committeeFund = min most (s.committeeRequests.row id).remainPayoutAmount ∧
      (s'.accounts.row (s.committeeRequests.row id).worker).balance =
        (s.accounts.row (s.committeeRequests.row id).worker).balance + (s.committeeFund - s'.committeeFund) := by
  simp only [payRequest, bind_eq_ok, pure_eq_ok] at h
  obtain ⟨-, -, rfl⟩ := h
  generalize min most ((s.committeeRequests.row id).remainPayoutAmount : Int) = payment
  have hfund : s.committeeFund - (s.committeeFund + -payment) = payment := by omega
  refine ⟨hfund, ?_⟩
  show ((s.adjustBalance (s.committeeRequests.row id).worker payment).accounts.row _).balance =
    _ + (s.committeeFund - (s.committeeFund + -payment))
  rw [adjustBalance_balance, if_pos rfl, hfund]

theorem payRequest_handles {most : Int} {id : Nat} (hid : id ∈ s.requestsWith .approved) (hmost : 0 ≤ most)
    (hfund : most ≤ s.committeeFund) (h : payRequest most s id = .ok s') :
    Handles [(id, s.committeeFund - s'.committeeFund)] s s' := by
  obtain ⟨hmem, happroved⟩ := mem_requestsWith.mp hid
  obtain ⟨hpay, -⟩ := payRequest_spec h
  simp only [payRequest, bind_eq_ok, pure_eq_ok] at h
  obtain ⟨-, -, rfl⟩ := h
  rw [hpay]
  have hbounds : 0 ≤ min most ((s.committeeRequests.row id).remainPayoutAmount : Int) ∧
      min most ((s.committeeRequests.row id).remainPayoutAmount : Int) ≤ (s.committeeRequests.row id).remainPayoutAmount ∧
      min most ((s.committeeRequests.row id).remainPayoutAmount : Int) ≤ s.committeeFund := by omega
  generalize min most ((s.committeeRequests.row id).remainPayoutAmount : Int) = payment at hbounds ⊢
  obtain ⟨hpos, hrest, hleft⟩ := hbounds
  have hremain : ((((s.committeeRequests.row id).remainPayoutAmount : Int) - payment).toNat : Int) =
      (s.committeeRequests.row id).remainPayoutAmount - payment := Int.toNat_of_nonneg (by omega)
  generalize (((s.committeeRequests.row id).remainPayoutAmount : Int) - payment).toNat = remain at hremain ⊢
  have hstatus : ∀ x, (if remain = 0 then RequestStatus.paid else (s.committeeRequests.row id).status) = x →
      x = .paid ∧ remain = 0 ∨ x = .approved := by
    rintro x rfl
    split
    · next hzero => exact .inl ⟨rfl, hzero⟩
    · exact .inr happroved
  refine .of_modify (f := fun r => { r with
      payoutAmount       := r.payoutAmount + payment
      remainPayoutAmount := remain
      lastPayoutTime     := s.time
      status             := if remain = 0 then .paid else r.status
      payoutTime         := if remain = 0 then s.time else r.payoutTime })
    hmem rfl ?_ (fun hp => ?_) ?_ (fun i hi => paidTo_single_ne hi) (fun hw => hw) (fun hf => ?_)
  · dsimp only
    rw [happroved]
    rcases hstatus _ rfl with ⟨hpaid, hzero⟩ | hstays
    · rw [if_pos hzero]
      exact .pay
    · rw [happroved] at hstays
      rw [hstays]
      exact .stays _
  · obtain ⟨hmin, hmax, hpaid, hsum⟩ := hp.decided (.inl happroved)
    refine ⟨fun hna hnp => ?_, fun _ => ⟨hmin, hmax, ?_, ?_⟩, fun hset => ?_⟩
    · rcases hstatus _ rfl with ⟨hx, -⟩ | hx
      · exact absurd hx hnp
      · exact absurd hx hna
    · exact Int.add_nonneg hpaid hpos
    · show (s.committeeRequests.row id).payoutAmount + payment + remain =
        (s.committeeRequests.row id).conclusionPayoutAmount
      rw [hremain]
      omega
    · rcases hstatus _ hset with ⟨-, hzero⟩ | hx
      · exact hzero
      · cases hx
  · rw [paidTo_single_self]
  · show 0 ≤ s.committeeFund + -payment
    omega

/-! ## Chains of deals -/

/-- **What holds along a chain of deals**: the requests keep their promises, and the list of payments is true. -/
structure Honoured (ps : List (Nat × Int)) (s : Ledger) : Prop where
  upright  : s.Upright
  within   : s.VotesWithin
  fund     : 0 ≤ s.committeeFund
  promised : ∀ id ∈ s.committeeRequests.keys, (s.committeeRequests.row id).Promised
  paid     : ∀ id ∈ s.committeeRequests.keys, paidTo ps id = (s.committeeRequests.row id).payoutAmount
  unpaid   : ∀ id, id ∉ s.committeeRequests.keys → paidTo ps id = 0

variable {ps qs : List (Nat × Int)}

/-- A request that was just made promises nothing. -/
theorem promised_of_voting {r : CommitteeRequest} (hopen : r.status = .voting) (hnone : r.payoutAmount = 0) :
    r.Promised := by
  refine ⟨fun _ _ => hnone, fun hd => ?_, fun hp => ?_⟩
  · rw [hopen] at hd
    exact hd.elim (nomatch ·) (nomatch ·)
  · rw [hopen] at hp
    cases hp

theorem Honoured.handle (h : Honoured ps s) (hq : Handles qs s s') (hu : s'.Upright) : Honoured (ps ++ qs) s' := by
  refine ⟨hu, hq.within h.within, hq.fund h.fund, ?_, ?_, ?_⟩
  · intro id hmem
    by_cases hold : id ∈ s.committeeRequests.keys
    · exact (hq.stays id hold hmem).2.1 (h.promised id hold)
    · obtain ⟨hopen, hnone⟩ := hq.opens id hmem hold
      exact promised_of_voting hopen hnone
  · intro id hmem
    rw [paidTo_append]
    by_cases hold : id ∈ s.committeeRequests.keys
    · rw [h.paid id hold, (hq.stays id hold hmem).2.2]
    · rw [h.unpaid id hold, hq.others id hold, (hq.opens id hmem hold).2]
      rfl
  · intro id hgone
    rw [paidTo_append]
    by_cases hold : id ∈ s.committeeRequests.keys
    · -- only a request that was never paid is removed
      obtain ⟨happroved, hpaid, hnone⟩ := hq.closes id hold hgone
      rw [h.paid id hold, (h.promised id hold).unpaid happroved hpaid, hnone]
      rfl
    · rw [h.unpaid id hold, hq.others id hold]
      rfl

/-- **What a deal does to the requests.** -/
theorem Deal.handles (h : Deal names qs s s') (hs : Honoured ps s) : Handles qs s s' := by
  cases h with
  | act h hT => exact .of_plain h.plain hT
  | operation hk h => exact evaluate_handles h
  | clearExpired h => exact clearExpired_handles h
  | concludeRequest hid h => exact concludeRequest_handles hid h hs.upright hs.within
  | payRequest hid hmost hfund h => exact payRequest_handles hid hmost hfund h

theorem Deal.upright (h : Deal names qs s s') (hu : s.Upright) : s'.Upright := by
  cases h with
  | act h hT => exact h.upright hu
  | operation hk h => exact evaluate_upright h hk hu
  | clearExpired h => exact (Act.clearExpired h : Act names (· = .committee) s s').upright hu
  | concludeRequest hid h =>
      have hplain : Plain (· = .committee) s s' := concludeRequest_plain (T := (· = .committee)) (.refl s) rfl _ h
      exact hu.of_plain hplain (concludeRequest_bank h ▸ hu.inOrder) fun _ => (nomatch ·)
  | payRequest hid hmost hfund h =>
      have hplain : Plain (· = .committee) s s' := payRequest_plain (T := (· = .committee)) (.refl s) rfl _ h
      exact hu.of_plain hplain ((payRequest_course (P := ⟨True, True⟩) h).1.inOrder trivial hu.inOrder)
        fun _ => (nomatch ·)

/-- **Every chain of deals honours the requests.** -/
theorem Dealt.honoured (h : Dealt names ps s) : Honoured ps s := by
  induction h with
  | genesis => exact ⟨genesis_upright, fun _ hk => absurd hk List.not_mem_nil, le_rfl,
      fun _ hk => absurd hk List.not_mem_nil, fun _ hk => absurd hk List.not_mem_nil, fun _ _ => rfl⟩
  | deal _ hd ih => exact ih.handle (hd.handles ih) (hd.upright ih.upright)

theorem Dealt.free (h : Dealt names ps s) (hd : Deal names [] s s') : Dealt names ps s' := by
  have hnext := h.deal hd
  rwa [List.append_nil] at hnext

/-! ## Runs -/

/-- The end of a vote leaves the other requests alone. -/
theorem concludeRequest_others {x : RequestStatus} {i id : Nat} (h : s.concludeRequest id = .ok s') (hne : i ≠ id)
    (hi : i ∈ s.requestsWith x) : i ∈ s'.requestsWith x := by
  unfold concludeRequest at h
  dsimp only at h
  split at h
  · simp only [bind_eq_ok] at h
    obtain ⟨⟨y, payout⟩, -, h⟩ := h
    obtain rfl := pure_eq_ok.mp h
    rw [mem_requestsWith] at hi ⊢
    dsimp only
    rw [Table.modify_row_of_ne hne]
    exact hi
  · exact pure_eq_ok.mp h ▸ hi

/-- An instalment leaves the other requests alone. -/
theorem payRequest_others {x : RequestStatus} {most : Int} {i id : Nat} (h : payRequest most s id = .ok s')
    (hne : i ≠ id) (hi : i ∈ s.requestsWith x) : i ∈ s'.requestsWith x := by
  simp only [payRequest, bind_eq_ok, pure_eq_ok] at h
  obtain ⟨-, -, rfl⟩ := h
  rw [mem_requestsWith] at hi ⊢
  dsimp only [adjustCommitteeFund, adjustBalance, modifyAccount]
  rw [Table.modify_row_of_ne hne]
  exact hi

theorem requestsWith_nodup {x : RequestStatus} : (s.requestsWith x).Nodup := s.committeeRequests.nodup.filter _

/-- The requests whose time is over, one after another. -/
theorem Dealt.conclude {l : List Nat} (h : Dealt names ps s) (hl : ∀ id ∈ l, id ∈ s.requestsWith .voting)
    (hnodup : l.Nodup) (hs : l.foldlM concludeRequest s = .ok s') : Dealt names ps s' := by
  induction l generalizing s with
  | nil => exact Except.ok.inj hs ▸ h
  | cons id l ih =>
      simp only [List.foldlM_cons, bind_eq_ok] at hs
      obtain ⟨s₁, h₁, hs⟩ := hs
      have hid := hl id List.mem_cons_self
      obtain ⟨hnew, hrest⟩ := List.nodup_cons.mp hnodup
      refine ih (h.free (.concludeRequest hid h₁)) (fun i hi => ?_) hrest hs
      exact concludeRequest_others h₁ (fun he => hnew (he ▸ hi)) (hl i (List.mem_cons_of_mem id hi))

/-- The instalments, one after another. -/
theorem Dealt.pay {most : Int} {l : List Nat} (h : Dealt names ps s) (hl : ∀ id ∈ l, id ∈ s.requestsWith .approved)
    (hnodup : l.Nodup) (hmost : 0 ≤ most) (hfund : l.length * most ≤ s.committeeFund)
    (hs : l.foldlM (payRequest most) s = .ok s') : ∃ qs, Dealt names qs s' := by
  induction l generalizing s ps with
  | nil => exact ⟨ps, Except.ok.inj hs ▸ h⟩
  | cons id l ih =>
      simp only [List.foldlM_cons, bind_eq_ok] at hs
      obtain ⟨s₁, h₁, hs⟩ := hs
      have hid := hl id List.mem_cons_self
      obtain ⟨hnew, hrest⟩ := List.nodup_cons.mp hnodup
      have hall : most + l.length * most ≤ s.committeeFund := by
        rwa [List.length_cons, Nat.cast_succ, add_mul, one_mul, add_comm] at hfund
      have htail : 0 ≤ (l.length : Int) * most := mul_nonneg (Int.natCast_nonneg _) hmost
      -- an instalment leaves what the others need
      have hleft : s.committeeFund - most ≤ s₁.committeeFund := by
        have hpaid := (payRequest_spec h₁).1
        omega
      refine ih (h.deal (.payRequest hid hmost (by omega) h₁)) (fun i hi => ?_) hrest (by omega) hs
      exact payRequest_others h₁ (fun he => hnew (he ▸ hi)) (hl i (List.mem_cons_of_mem id hi))

/-- **The processing of the committee is a chain of deals.** -/
theorem Dealt.committeeProcessing (h : Dealt names ps s) (hs : s.committeeProcessing = .ok s') :
    ∃ qs, Dealt names qs s' := by
  simp only [Ledger.committeeProcessing, bind_eq_ok] at hs
  obtain ⟨s₁, h₁, hs⟩ := hs
  have hdealt := h.conclude (fun _ hid => hid) requestsWith_nodup h₁
  split at hs
  · exact ⟨ps, pure_eq_ok.mp hs ▸ hdealt⟩
  · have hfund := hdealt.honoured.fund
    have hpos : (0 : Int) < (((s₁.requestsWith .approved).length + 1 : Nat) : Int) := by omega
    have hpart := Int.ediv_mul_le s₁.committeeFund hpos.ne'
    rw [← Int.tdiv_eq_ediv_of_nonneg hfund] at hpart
    have hmost : 0 ≤ s₁.committeeFund.tdiv (((s₁.requestsWith .approved).length + 1 : Nat) : Int) :=
      Int.tdiv_nonneg hfund hpos.le
    refine hdealt.pay (fun _ hid => hid) requestsWith_nodup hmost ?_ hs
    have hsplit : s₁.committeeFund.tdiv (((s₁.requestsWith .approved).length + 1 : Nat) : Int) *
        (((s₁.requestsWith .approved).length + 1 : Nat) : Int) =
        ((s₁.requestsWith .approved).length : Int) *
          s₁.committeeFund.tdiv (((s₁.requestsWith .approved).length + 1 : Nat) : Int) +
        s₁.committeeFund.tdiv (((s₁.requestsWith .approved).length + 1 : Nat) : Int) := by
      rw [mul_comm, Nat.cast_succ, add_mul, one_mul]
    omega

theorem Dealt.perform {P : Ledger → Operation → Prop} {ops : List Operation} (h : Dealt names ps s)
    (hops : Performed names P ops s s') (hk : ∀ o ∈ ops, ∀ a ∈ o.signer, a ∉ Config.keyless) : Dealt names ps s' := by
  induction hops with
  | nil => exact h
  | cons _ ho _ ih =>
      exact ih (h.free (.operation (hk _ List.mem_cons_self) ho)) fun o hmem => hk o (List.mem_cons_of_mem _ hmem)

/-- **An act is a chain of deals.** -/
theorem Dealt.act (h : Dealt names ps s) (ha : Act names T s s') : ∃ qs, Dealt names qs s' := by
  by_cases hT : T .committee
  · cases ha with
    | transaction hsigned hops =>
        exact ⟨ps, h.perform hops fun o ho => (hsigned o ho).not_keyless h.honoured.upright.inOrder⟩
    | clearExpired hs => exact ⟨ps, h.free (.clearExpired hs)⟩
    | committeeProcessing hs => exact h.committeeProcessing hs
    | accountOnAuctionExpiration => exact hT.elim fun _ he => nomatch he
    | emptyAccounts => exact hT.elim fun _ he => nomatch he.2
    | _ => cases hT
  · exact ⟨ps, h.free (.act ha hT)⟩

/-- **Every run of a node is a chain of deals.** -/
theorem Walk.dealt (h : Walk names s) : ∃ ps, Dealt names ps s := by
  induction h with
  | genesis props initiatorKey inviteKey => exact ⟨[], .genesis props initiatorKey inviteKey⟩
  | act _ ha ih => exact ih.elim fun _ hd => hd.act ha

/-! ## The claim of the requests -/

namespace Sample

/-- The initiator asks for something between 1 and 200000, and votes for it with all it has. -/
def request : List Operation :=
  [.transferToVesting Config.initiatorName Config.initiatorName 1000,
    .committeeWorkerCreateRequest ⟨Config.initiatorName, 7, Config.initiatorName, 1, 200000, 432000⟩,
    .committeeVoteRequest Config.initiatorName 1 10000]

end Sample

end Ledger

end VizNode
