import VizNode.Lib.Prog
import VizNode.Ledger.Books
import Mathlib.Algebra.BigOperators.Intervals

/-!
# `VizNode.Ledger.Spreads` — a change of shares and what it brings with it

A change of shares runs up the proxy chain one account at a time, and its last step is the votes of the account
at the top. On the bank it is one `Spread`, and the votes are not seen at all.

**The recursion carries a depth.** An account that is reached at depth `k` counts from entry `k` on, so the step
lemma is about the tail of the chain, with a sum that starts at `k`. At depth zero the sum is the one of the
forest, read from the other end.

## Contents
- **Votes.** `Voting`: what the adjustment of votes leaves alone.
- **The chain.** `adjustProxiedFrom_carried`, by induction on the depth that is left.
- **Shares.** `createVesting_vest`.
-/

namespace VizNode

namespace Ledger

open Bank Forest

variable {s s' : Ledger} {a : AccountName}

/-! ## Votes -/

/-- **Only votes change**: the votes of validators and the weights of accounts. -/
structure Voting (s s' : Ledger) : Prop where
  rest       : s' = { s with accounts := s'.accounts, validators := s'.validators }
  accounts   : s'.accounts.mapRows Account.toAccountBook = s.accounts.mapRows Account.toAccountBook
  validators : Table.Same (fun w => (w.sharingRate, w.pendingStakeholderReward)) s.validators s'.validators

namespace Voting

theorem refl (s : Ledger) : Voting s s := ⟨rfl, rfl, .refl⟩

theorem trans {s'' : Ledger} (h : Voting s s') (h' : Voting s' s'') : Voting s s'' where
  rest       := by
    have hr := h'.rest
    rw [h.rest] at hr
    exact hr
  accounts   := h'.accounts.trans h.accounts
  validators := h.validators.trans h'.validators

instance : IsPreorder Ledger Voting where
  refl := refl
  trans _ _ _ := trans

theorem pending_eq (h : Voting s s') : s'.pending = s.pending :=
  h.validators.total (g := fun _ p => (p.2 : Int))

theorem keys (h : Voting s s') : s'.accounts.keys = s.accounts.keys := 
  congrArg (fun t : Table AccountName AccountBook => t.keys) h.accounts

theorem book (h : Voting s s') (c : AccountName) :
    (s'.accounts.row c).toAccountBook = (s.accounts.row c).toAccountBook :=
  congrFun (congrArg (fun t : Table AccountName AccountBook => t.row) h.accounts) c

theorem bank_eq (h : Voting s s') : s'.bank = s.bank := by
  have hp := h.pending_eq
  have ha := h.accounts
  unfold bank
  rw [ha, hp, h.rest]
  rfl

end Voting

theorem adjustValidatorVote_voting {x : Int} {v : AccountName} (h : adjustValidatorVote x s v = .ok s') :
    Voting s s' := by
  simp only [adjustValidatorVote, bind_eq_ok, getValidator_eq_ok, require_eq_ok, pure_eq_ok] at h
  obtain ⟨w, -, -, -, rfl⟩ := h
  exact ⟨rfl, rfl, .modify rfl⟩

theorem adjustEach_voting {x : Int} (h : s.adjustEach a x = .ok s') : Voting s s' :=
  Prog.foldlM_rel (R := Voting) (fun _ _ _ hv => adjustValidatorVote_voting hv) h

theorem adjustValidatorVotes_voting {x : Int} (h : s.adjustValidatorVotes a x = .ok s') : Voting s s' := by
  simp only [adjustValidatorVotes, bind_eq_ok, getAccount_eq_ok] at h
  obtain ⟨r, -, h⟩ := h
  by_cases hf : s.hasHardfork 5
  · rw [if_pos hf] at h
    by_cases hv : 0 < r.validatorsVotedFor
    · rw [if_pos hv] at h
      have hw : Voting s (s.modifyAccount a (fun r' =>
          { r' with validatorsVoteWeight := r'.validatorsVoteWeight + x.tdiv r.validatorsVotedFor })) :=
        ⟨rfl, Table.mapRows_modify rfl, .refl⟩
      exact hw.trans (adjustEach_voting h)
    · rw [if_neg hv, pure_eq_ok] at h
      exact h ▸ .refl s
  · rw [if_neg hf] at h
    exact adjustEach_voting h

/-! ## The chain -/

/-- What an array adds at an ancestor, when the chain starts at depth `k`. -/
def liftedFrom (up : AccountName → Option AccountName) (δ : Nat → Int) (k : Nat) (x c : AccountName)
    (d : Nat) : Int :=
  ∑ m ∈ Finset.Ico k (d + 1), if climb up (m - k + 1) x = some c then δ (d - m) else 0

/-- From depth zero it is the whole chain. -/
theorem liftedFrom_zero {up : AccountName → Option AccountName} {δ : Nat → Int} {x c : AccountName} {d : Nat} :
    liftedFrom up δ 0 x c d = lifted up δ x c d := by
  unfold liftedFrom lifted
  rw [Nat.Ico_zero_eq_range, ← Finset.sum_range_reflect]
  apply Finset.sum_congr rfl
  intro j hj
  have hj := Finset.mem_range.mp hj
  rw [show d + 1 - 1 - j - 0 + 1 = d + 1 - j by omega, show d - (d + 1 - 1 - j) = j by omega]

/-- Beyond the depth there is nothing. -/
theorem liftedFrom_of_lt {up : AccountName → Option AccountName} {δ : Nat → Int} {k : Nat} {x c : AccountName}
    {d : Nat} (h : d < k) : liftedFrom up δ k x c d = 0 := by
  unfold liftedFrom
  rw [Finset.Ico_eq_empty (by omega), Finset.sum_empty]

/-- Above the top of the chain there is nothing. -/
theorem liftedFrom_root {up : AccountName → Option AccountName} {δ : Nat → Int} {k : Nat} {x c : AccountName}
    {d : Nat} (h : up x = none) : liftedFrom up δ k x c d = 0 := by
  unfold liftedFrom
  apply Finset.sum_eq_zero
  intro m _
  rw [climb_succ, h]
  exact if_neg (by simp)

/-- The first step of the chain, and the rest of it. -/
theorem liftedFrom_step {up : AccountName → Option AccountName} {δ : Nat → Int} {k : Nat} {x p c : AccountName}
    {d : Nat} (h : up x = some p) :
    liftedFrom up δ k x c d = (if c = p ∧ k ≤ d then δ (d - k) else 0) + liftedFrom up δ (k + 1) p c d := by
  by_cases hk : k ≤ d
  · unfold liftedFrom
    rw [Finset.sum_eq_sum_Ico_succ_bot (by omega), Nat.sub_self, climb_succ, h]
    congr 1
    · by_cases hc : c = p
      · rw [if_pos (by rw [hc]; rfl), if_pos ⟨hc, hk⟩]
      · have hne : (some p).bind (climb up 0) ≠ some c := fun he => hc (Option.some.inj he).symm
        rw [if_neg hne, if_neg (fun hp => hc hp.1)]
    · apply Finset.sum_congr rfl
      intro m hm
      have hm := Finset.mem_Ico.mp hm
      rw [show m - k + 1 = m - (k + 1) + 1 + 1 by omega, climb_succ, h]
      rfl
  · rw [liftedFrom_of_lt (by omega), liftedFrom_of_lt (by omega), if_neg (fun hp => hk hp.2), add_zero]

/-- **A change carried up from depth `k`.** -/
structure Carried (δ : Nat → Int) (k : Nat) (x : AccountName) (s s' : Ledger) : Prop where
  rest       : s' = { s with accounts := s'.accounts, validators := s'.validators }
  keys       : s'.accounts.keys = s.accounts.keys
  row        : ∀ c ∈ s.accounts.keys, (s'.accounts.row c).toAccountBook =
    (s.accounts.row c).toAccountBook.countMore (liftedFrom (proxyOf s.bank.accounts) δ k x c)
  validators : Table.Same (fun w => (w.sharingRate, w.pendingStakeholderReward)) s.validators s'.validators

/-- Nothing is carried. -/
theorem Carried.of_voting {δ : Nat → Int} {k : Nat} {x : AccountName} (h : Voting s s')
    (h₀ : ∀ c, ∀ d < Config.maxProxyRecursionDepth, liftedFrom (proxyOf s.bank.accounts) δ k x c d = 0) :
    Carried δ k x s s' where
  rest       := h.rest
  keys       := h.keys
  row        := by
    intro c _
    rw [h.book c, AccountBook.countMore_zero (h₀ c)]
  validators := h.validators

/-- The proxy of an account, as the bank has it. -/
theorem bank_proxyOf (ha : a ∈ s.accounts.keys) (hp : (s.accounts.row a).proxy ≠ 0) :
    proxyOf s.bank.accounts a = some (s.accounts.row a).proxy := if_pos ⟨ha, hp⟩

/-- The account at depth `k` counts the array from entry `k` on. -/
theorem bumpProxied_row {p c : AccountName} {k : Nat} {δ : Nat → Int} :
    ((s.modifyAccount p (bumpProxied k δ)).accounts.row c).toAccountBook =
      (s.accounts.row c).toAccountBook.countMore (fun d => if c = p ∧ k ≤ d then δ (d - k) else 0) := by
  show ((s.accounts.modify p (bumpProxied k δ)).row c).toAccountBook = _
  by_cases hc : c = p
  · rw [hc, Table.modify_row_self]
    unfold bumpProxied AccountBook.countMore
    dsimp only
    congr 1
    funext d
    by_cases hd : d < Config.maxProxyRecursionDepth
    · by_cases hk : k ≤ d
      · rw [if_pos ⟨hk, hd⟩, if_pos hd, if_pos ⟨rfl, hk⟩]
      · rw [if_neg (fun h => hk h.1), if_pos hd, if_neg (fun h => hk h.2), add_zero]
    · rw [if_neg (fun h => hd h.2), if_neg hd]
  · rw [Table.modify_row_of_ne hc, AccountBook.countMore_zero (fun d _ => if_neg (fun h => hc h.1))]

/-- **`adjust_proxied_validator_votes`** carries the array up the chain. The induction is on the depth that is
    left; an account on the way counts the array from its depth on, and what is above it does the rest. -/
theorem adjustProxiedFrom_carried {δ : Nat → Int} {left : Nat} (hl : left ≤ Config.maxProxyRecursionDepth)
    {x : AccountName} (h : adjustProxiedFrom δ left x s = .ok s') :
    Carried δ (Config.maxProxyRecursionDepth - left) x s s' := by
  induction left generalizing x s with
  | zero =>
      unfold adjustProxiedFrom at h
      simp only [bind_eq_ok, getAccount_eq_ok] at h
      obtain ⟨r, ⟨hx, rfl⟩, h⟩ := h
      have h₀ : ∀ c, ∀ d < Config.maxProxyRecursionDepth,
          liftedFrom (proxyOf s.bank.accounts) δ (Config.maxProxyRecursionDepth - 0) x c d = 0 :=
        fun c d hd => liftedFrom_of_lt hd
      by_cases hp : (s.accounts.row x).proxy ≠ 0
      · rw [if_pos hp, pure_eq_ok] at h
        exact .of_voting (h ▸ .refl s) h₀
      · rw [if_neg hp] at h
        exact .of_voting (adjustValidatorVotes_voting h) h₀
  | succ left ih =>
      unfold adjustProxiedFrom at h
      simp only [bind_eq_ok, getAccount_eq_ok] at h
      obtain ⟨r, ⟨hx, rfl⟩, h⟩ := h
      by_cases hp : (s.accounts.row x).proxy ≠ 0
      · rw [if_pos hp] at h
        simp only [bind_eq_ok, getAccount_eq_ok] at h
        obtain ⟨q, ⟨hq, rfl⟩, h⟩ := h
        have hc := ih (Nat.le_of_succ_le hl) h
        have hup : proxyOf (s.modifyAccount (s.accounts.row x).proxy
            (bumpProxied (Config.maxProxyRecursionDepth - (left + 1)) δ)).bank.accounts =
            proxyOf s.bank.accounts :=
          proxyOf_same ⟨rfl, fun c _ => Table.modify_same (p := fun r : Account => r.proxy) rfl⟩
        refine ⟨?_, hc.keys, ?_, hc.validators⟩
        · have hr := hc.rest
          exact hr
        · intro c hcm
          rw [hc.row c hcm, hup, bumpProxied_row, AccountBook.countMore_countMore]
          apply AccountBook.countMore_congr
          intro d _
          rw [liftedFrom_step (bank_proxyOf hx hp),
            show Config.maxProxyRecursionDepth - (left + 1) + 1 = Config.maxProxyRecursionDepth - left by omega]
      · rw [if_neg hp] at h
        exact .of_voting (adjustValidatorVotes_voting h)
          (fun c d _ => liftedFrom_root (proxyOf_eq_none (not_not.mp hp)))

/-- The change reaches every account of the chain within the depth. -/
theorem Carried.spread {δ : Nat → Int} (h : Carried δ 0 a s s') :
    Spread a δ s.bank.accounts s'.bank.accounts where
  keys := h.keys
  row  := by
    intro c hc
    refine (h.row c hc).trans (AccountBook.countMore_congr ?_ _)
    intro d _
    exact liftedFrom_zero

theorem Carried.pending_eq {δ : Nat → Int} {k : Nat} (h : Carried δ k a s s') : s'.pending = s.pending :=
  h.validators.total (g := fun _ p => (p.2 : Int))

/-- Of the bank only the accounts change. -/
theorem Carried.bank_eq {δ : Nat → Int} {k : Nat} (h : Carried δ k a s s') :
    s'.bank = { s.bank with accounts := s'.bank.accounts } := by
  have hp := h.pending_eq
  unfold bank
  dsimp only
  rw [hp, h.rest]
  rfl

theorem adjustProxiedValidatorVotesArray_carried {δ : Nat → Int}
    (h : s.adjustProxiedValidatorVotesArray a δ = .ok s') : Carried δ 0 a s s' :=
  adjustProxiedFrom_carried le_rfl h

/-- One amount is an array with one entry. -/
theorem adjustProxiedBy_eq {x : Int} {left : Nat} (hl : left ≤ Config.maxProxyRecursionDepth) :
    adjustProxiedBy x left a s = adjustProxiedFrom (single x) left a s := by
  have hsum : ∀ n, sumTo (single x) n = x := by
    intro n
    unfold sumTo
    rw [List.range_succ_eq_map, List.map_cons, List.sum_cons, List.map_map, List.sum_eq_zero]
    · exact add_zero x
    · intro y hy
      obtain ⟨i, -, rfl⟩ := List.mem_map.mp hy
      rfl
  induction left generalizing a s with
  | zero =>
      unfold adjustProxiedBy adjustProxiedFrom
      rw [hsum]
  | succ left ih =>
      have hbump : (fun p : Account =>
          { p with proxiedVsfVotes := fun j =>
              if j = Config.maxProxyRecursionDepth - (left + 1)
              then p.proxiedVsfVotes j + x else p.proxiedVsfVotes j }) =
          bumpProxied (Config.maxProxyRecursionDepth - (left + 1)) (single x) := by
        funext p
        unfold bumpProxied single
        congr 2
        funext j
        by_cases hj : j = Config.maxProxyRecursionDepth - (left + 1)
        · rw [if_pos hj, if_pos (by omega), if_pos (by omega)]
        · by_cases hk : Config.maxProxyRecursionDepth - (left + 1) ≤ j ∧ j < Config.maxProxyRecursionDepth
          · rw [if_neg hj, if_pos hk, if_neg (by omega), add_zero]
          · rw [if_neg hj, if_neg hk]
      unfold adjustProxiedBy adjustProxiedFrom
      simp only [hsum, ih (Nat.le_of_succ_le hl), hbump]

theorem adjustProxiedValidatorVotes_carried {x : Int} (h : s.adjustProxiedValidatorVotes a x = .ok s') :
    Carried (single x) 0 a s s' := by
  unfold adjustProxiedValidatorVotes at h
  rw [adjustProxiedBy_eq le_rfl] at h
  exact adjustProxiedFrom_carried le_rfl h

/-! ## Shares -/

/-- **Only accounts, votes and the vesting fund change.** -/
structure Vested (s s' : Ledger) : Prop where
  rest       : s' = { s with
    accounts := s'.accounts, validators := s'.validators, totalVestingFund := s'.totalVestingFund,
    totalVestingShares := s'.totalVestingShares }
  keys       : s'.accounts.keys = s.accounts.keys
  validators : Table.Same (fun w => (w.sharingRate, w.pendingStakeholderReward)) s.validators s'.validators

namespace Vested

theorem refl (s : Ledger) : Vested s s := ⟨rfl, rfl, .refl⟩

theorem trans {s'' : Ledger} (h : Vested s s') (h' : Vested s' s'') : Vested s s'' where
  rest       := by
    have hr := h'.rest
    rw [h.rest] at hr
    exact hr
  keys       := h'.keys.trans h.keys
  validators := h.validators.trans h'.validators

theorem modifyAccount {f : Account → Account} : Vested s (s.modifyAccount a f) := ⟨rfl, rfl, .refl⟩

theorem of_carried {δ : Nat → Int} {k : Nat} (h : Carried δ k a s s') : Vested s s' :=
  ⟨by rw [h.rest], h.keys, h.validators⟩

/-- What a validator holds for its stakeholders. -/
theorem pendingOf (h : Vested s s') {v : AccountName} (hv : v ∈ s.validators.keys) :
    (s'.validators.row v).pendingStakeholderReward = (s.validators.row v).pendingStakeholderReward :=
  congrArg Prod.snd (h.validators.row v hv)

end Vested

/-- **`create_vesting`**: tokens become shares. -/
theorem createVesting_vest {tokens : Int} (h : s.createVesting a tokens = .ok s') :
    a ∈ s.accounts.keys ∧ Vested s s' ∧ ∀ K C : Prop, Moves K C (-tokens) 0 s.bank s'.bank := by
  simp only [createVesting, bind_eq_ok, getAccount_eq_ok] at h
  obtain ⟨n, hn, -, ⟨ha, -⟩, h⟩ := h
  have hc := adjustProxiedValidatorVotes_carried h
  refine ⟨ha, ⟨by rw [hc.rest]; rfl, hc.keys, hc.validators⟩, ?_⟩
  intro K C
  have hs := hc.spread
  have haccounts : (s.accounts.modify a (fun r => { r with vestingShares := r.vestingShares + n })).mapRows
      Account.toAccountBook = s.bank.accounts.modify a (.addShares n) := Table.mapRows_modify_of rfl
  have hm : Move K C (-tokens) 0 s.bank { s.bank with
      accounts := s'.bank.accounts, fund := s.bank.fund + tokens, shares := s.bank.shares + n } :=
    .vest ha hn (haccounts ▸ hs)
  rw [hc.bank_eq]
  exact .of hm

end Ledger

end VizNode
