import VizNode.Lib.Polls
import VizNode.Ledger.Runs

/-!
# `VizNode.Ledger.Tallies` — the votes of validators and the weights of voters

From hardfork 5 on a voter has one weight, and the votes of a validator should be the sum of the weights of those who
vote for it. The node changes both by differences. A change of shares runs up the proxy chain and is split there; a vote
takes the old weight off and puts the new one on; a new proxy takes off the voter's shares, split afresh, and then
removes its votes.

**The split is rounded toward zero**, so the weight of a voter and its shares, split afresh, come apart. What a new proxy
takes off is then not the weight that leaves, and a withdrawal can take off more than there is.

## Contents
- **The poll.** `poll`, `Tallied`, and what the adjustment of votes does to it.
- **Chains.** `voterOf`, `effect`: the one voter at whom a change arrives.
- **Steps.** `TallyStep`, and when a step is clean.
- **Runs.** Clean steps keep the tally.
-/

namespace VizNode

namespace Ledger

open Bank (single)

variable {s s' : Ledger} {a b c v : AccountName} {x : Int} {names : Names}

/-! ## The poll -/

/-- The poll of the validators. -/
def poll (s : Ledger) : Poll AccountName AccountName where
  weight a  := (s.accounts.row a).validatorsVoteWeight
  casts a v := decide (v ∈ s.votedBy a)
  votes v   := (s.validators.row v).votes

/-- The weights of those who have a vote for the validator. -/
def weightsFor (s : Ledger) (v : AccountName) : Int :=
  ((s.accounts.keys.filter (fun a => decide ((a, v) ∈ s.votes.keys))).map
    (fun a => (s.accounts.row a).validatorsVoteWeight)).sum

/-- **The votes of every validator are the weights of its voters**, and no weight is negative. -/
def Tallied (s : Ledger) : Prop :=
  (∀ v ∈ s.validators.keys, (s.validators.row v).votes = s.weightsFor v) ∧
    ∀ a ∈ s.accounts.keys, 0 ≤ (s.accounts.row a).validatorsVoteWeight

instance : Decidable s.Tallied := inferInstanceAs (Decidable ((∀ v ∈ s.validators.keys, _) ∧ ∀ a ∈ s.accounts.keys, _))

theorem mem_votedBy : v ∈ s.votedBy a ↔ v ∈ s.validators.keys ∧ (a, v) ∈ s.votes.keys := by
  unfold votedBy
  rw [List.mem_filter, decide_eq_true_eq]

theorem poll_casts : s.poll.casts a v = true ↔ v ∈ s.validators.keys ∧ (a, v) ∈ s.votes.keys := by
  unfold poll
  dsimp only
  rw [decide_eq_true_eq, mem_votedBy]

theorem tallied_iff : s.Tallied ↔ s.poll.Sound s.accounts.keys s.validators.keys := by
  have hexact : (∀ v ∈ s.validators.keys, (s.validators.row v).votes = s.weightsFor v) ↔
      s.poll.Exact s.accounts.keys s.validators.keys := by
    unfold Poll.Exact
    refine forall_congr' fun v => forall_congr' fun hv => ?_
    have hsum : s.weightsFor v = s.poll.tally s.accounts.keys v := by
      unfold weightsFor Poll.tally
      induction s.accounts.keys with
      | nil => rfl
      | cons a l ih =>
          rw [List.map_cons, List.sum_cons, ← ih]
          unfold Poll.part
          by_cases hvote : (a, v) ∈ s.votes.keys
          · rw [List.filter_cons_of_pos (p := fun a => decide ((a, v) ∈ s.votes.keys)) (decide_eq_true hvote), List.map_cons, List.sum_cons,
              if_pos (poll_casts.mpr ⟨hv, hvote⟩)]
            rfl
          · rw [List.filter_cons_of_neg (p := fun a => decide ((a, v) ∈ s.votes.keys)) (by rw [decide_eq_true_eq]; exact hvote),
              if_neg (fun hc => hvote (poll_casts.mp hc).2), zero_add]
    rw [hsum]
    rfl
  exact ⟨fun h => ⟨hexact.mp h.1, h.2⟩, fun h => ⟨hexact.mpr h.exact, h.weighs⟩⟩

/-- What decides where a change arrives stays. -/
structure Ballots (s s' : Ledger) : Prop where
  hardfork   : s'.hardfork = s.hardfork
  accounts   : s'.accounts.keys = s.accounts.keys
  validators : s'.validators.keys = s.validators.keys
  votes      : s'.votes = s.votes
  proxy      : ∀ c, (s'.accounts.row c).proxy = (s.accounts.row c).proxy
  votedFor   : ∀ c, (s'.accounts.row c).validatorsVotedFor = (s.accounts.row c).validatorsVotedFor

namespace Ballots

theorem refl (s : Ledger) : Ballots s s := ⟨rfl, rfl, rfl, rfl, fun _ => rfl, fun _ => rfl⟩

theorem trans {s'' : Ledger} (h : Ballots s s') (h' : Ballots s' s'') : Ballots s s'' where
  hardfork   := h'.hardfork.trans h.hardfork
  accounts   := h'.accounts.trans h.accounts
  validators := h'.validators.trans h.validators
  votes      := h'.votes.trans h.votes
  proxy      := fun c => (h'.proxy c).trans (h.proxy c)
  votedFor   := fun c => (h'.votedFor c).trans (h.votedFor c)

theorem hasHardfork (h : Ballots s s') {n : Nat} : s'.hasHardfork n = s.hasHardfork n := by
  unfold Ledger.hasHardfork
  rw [h.hardfork]

theorem votedBy (h : Ballots s s') : s'.votedBy = s.votedBy := by
  funext a
  unfold Ledger.votedBy
  rw [h.validators, h.votes]

/-- An account that changes in other things. -/
theorem modifyAccount {f : Account → Account} (hproxy : (f (s.accounts.row a)).proxy = (s.accounts.row a).proxy)
    (hvoted : (f (s.accounts.row a)).validatorsVotedFor = (s.accounts.row a).validatorsVotedFor) :
    Ballots s (s.modifyAccount a f) where
  hardfork   := rfl
  accounts   := rfl
  validators := rfl
  votes      := rfl
  proxy      := fun _ => Table.modify_same (p := fun r : Account => r.proxy) hproxy
  votedFor   := fun _ => Table.modify_same (p := fun r : Account => r.validatorsVotedFor) hvoted

/-- The vesting fund is not part of it. -/
theorem funds (h : Ballots s s') (f n : Int) : Ballots s { s' with totalVestingFund := f, totalVestingShares := n } :=
  ⟨h.hardfork, h.accounts, h.validators, h.votes, h.proxy, h.votedFor⟩

end Ballots

/-- An account that changes in other things than its weight does not change the poll. -/
theorem poll_modifyAccount {f : Account → Account}
    (h : (f (s.accounts.row a)).validatorsVoteWeight = (s.accounts.row a).validatorsVoteWeight) :
    (s.modifyAccount a f).poll = s.poll := by
  have hweight : (s.modifyAccount a f).poll.weight = s.poll.weight := by
    funext c
    exact Table.modify_same (p := fun r : Account => r.validatorsVoteWeight) h
  show Poll.mk (s.modifyAccount a f).poll.weight s.poll.casts s.poll.votes = s.poll
  rw [hweight]

theorem modifyAccount_row_of_ne {f : Account → Account} (hc : c ≠ a) :
    (s.modifyAccount a f).accounts.row c = s.accounts.row c := Table.modify_row_of_ne hc

/-- The weight of an account is set. -/
theorem poll_weigh {f : Account → Account} :
    (s.modifyAccount a f).poll = s.poll.weigh a (f (s.accounts.row a)).validatorsVoteWeight := by
  have hweight : (s.modifyAccount a f).poll.weight =
      Function.update s.poll.weight a (f (s.accounts.row a)).validatorsVoteWeight := by
    funext c
    by_cases hc : c = a
    · rw [hc, Function.update_self]
      exact congrArg Account.validatorsVoteWeight Table.modify_row_self
    · rw [Function.update_of_ne hc]
      exact congrArg Account.validatorsVoteWeight (Table.modify_row_of_ne hc)
  show Poll.mk (s.modifyAccount a f).poll.weight s.poll.casts s.poll.votes = _
  rw [hweight]
  rfl

/-- The loop over a voter's validators: each of them has so much more, and nothing else changes. -/
theorem foldlM_adjust (hfork : s.hasHardfork 5 = true) {l : List AccountName} (hl : l.Nodup)
    (h : l.foldlM (adjustValidatorVote x) s = .ok s') :
    s' = { s with validators := s'.validators } ∧ s'.validators.keys = s.validators.keys ∧
      ∀ v, (s'.validators.row v).votes =
        if v ∈ l then max ((s.validators.row v).votes + x) 0 else (s.validators.row v).votes := by
  induction l generalizing s with
  | nil =>
      obtain rfl := Except.ok.inj h
      exact ⟨rfl, rfl, fun _ => rfl⟩
  | cons w l ih =>
      obtain ⟨hw, hl⟩ := List.nodup_cons.mp hl
      rw [List.foldlM_cons, bind_eq_ok] at h
      obtain ⟨s₁, h₁, h⟩ := h
      simp only [adjustValidatorVote, bind_eq_ok, getValidator_eq_ok, require_eq_ok, pure_eq_ok] at h₁
      obtain ⟨r, ⟨-, rfl⟩, -, -, rfl⟩ := h₁
      obtain ⟨hrest, hkeys, hrow⟩ := ih (s := { s with validators := s.validators.modify w (s.votedValidator x) }) hfork hl h
      refine ⟨hrest, hkeys, fun v => ?_⟩
      rw [hrow v]
      by_cases hv : v = w
      · subst hv
        rw [if_neg hw, if_pos List.mem_cons_self, Table.modify_row_self]
        unfold votedValidator
        dsimp only
        by_cases hneg : (s.validators.row v).votes + x < 0
        · rw [if_pos ⟨hfork, hneg⟩, max_eq_right (by omega)]
        · rw [if_neg (fun hn => hneg hn.2), max_eq_left (by omega)]
      · rw [Table.modify_row_of_ne hv]
        by_cases hvl : v ∈ l
        · rw [if_pos hvl, if_pos (List.mem_cons_of_mem _ hvl)]
        · rw [if_neg hvl, if_neg (fun hm => (List.mem_cons.mp hm).elim hv hvl)]

/-- **`adjust_validator_vote` for every vote of an account** puts the amount on the poll. -/
theorem adjustEach_poll (hfork : s.hasHardfork 5 = true) (h : s.adjustEach a x = .ok s') :
    s'.poll = s.poll.put a x ∧ s' = { s with validators := s'.validators } ∧
      s'.validators.keys = s.validators.keys := by
  obtain ⟨hrest, hkeys, hrow⟩ := foldlM_adjust hfork (s.validators.nodup.filter _) h
  refine ⟨?_, hrest, hkeys⟩
  have hcasts : s'.poll.casts = s.poll.casts := by
    have hvoted : s'.votedBy = s.votedBy := by
      funext c
      unfold votedBy
      rw [hkeys, hrest]
    unfold poll
    dsimp only
    rw [hvoted]
  have hweight : s'.poll.weight = s.poll.weight := by
    unfold poll
    dsimp only
    rw [hrest]
  have hvotes : s'.poll.votes = (s.poll.put a x).votes := by
    funext v
    refine (hrow v).trans ?_
    show _ = if decide (v ∈ s.votedBy a) = true then _ else _
    simp only [decide_eq_true_eq]
    rfl
  show Poll.mk s'.poll.weight s'.poll.casts s'.poll.votes = _
  rw [hcasts, hweight, hvotes]
  rfl

theorem Ballots.of_validators (h : s' = { s with validators := s'.validators })
    (hkeys : s'.validators.keys = s.validators.keys) : Ballots s s' where
  hardfork   := by rw [h]
  accounts   := by rw [h]
  validators := hkeys
  votes      := by rw [h]
  proxy      := fun c => by rw [h]
  votedFor   := fun c => by rw [h]

/-- A change that arrives at a voter: its part of the amount, if it votes. -/
def split (s : Ledger) (a : AccountName) (x : Int) : Option (AccountName × Int) :=
  if 0 < (s.accounts.row a).validatorsVotedFor then some (a, x.tdiv (s.accounts.row a).validatorsVotedFor) else none

/-- **`adjust_validator_votes`** shifts the voter by its part. -/
theorem adjustValidatorVotes_poll (hfork : s.hasHardfork 5 = true) (h : s.adjustValidatorVotes a x = .ok s') :
    s'.poll = s.poll.effect (s.split a x) ∧ Ballots s s' := by
  simp only [adjustValidatorVotes, bind_eq_ok, getAccount_eq_ok] at h
  obtain ⟨r, ⟨-, rfl⟩, h⟩ := h
  rw [if_pos hfork] at h
  unfold split
  by_cases hv : 0 < (s.accounts.row a).validatorsVotedFor
  · rw [if_pos hv] at h ⊢
    obtain ⟨hpoll, hrest, hkeys⟩ := adjustEach_poll (s := s.modifyAccount a _) hfork h
    rw [poll_weigh] at hpoll
    exact ⟨hpoll, (Ballots.modifyAccount rfl rfl).trans (.of_validators hrest hkeys)⟩
  · rw [if_neg hv] at h ⊢
    obtain rfl := pure_eq_ok.mp h
    exact ⟨rfl, .refl s⟩

/-! ## Chains -/

/-- The account at which a change arrives: the first one without a proxy, and the depth that is left there. -/
def voterOf (s : Ledger) : Nat → AccountName → Option (AccountName × Nat)
  | 0,        a => if (s.accounts.row a).proxy ≠ 0 then none else some (a, 0)
  | left + 1, a =>
      if (s.accounts.row a).proxy ≠ 0 then s.voterOf left (s.accounts.row a).proxy else some (a, left + 1)

/-- The proxies on the way. -/
def chainOf (s : Ledger) : Nat → AccountName → List AccountName
  | 0,        _ => []
  | left + 1, a =>
      if (s.accounts.row a).proxy ≠ 0
      then (s.accounts.row a).proxy :: s.chainOf left (s.accounts.row a).proxy else []

/-- **Where a change arrives**, and with how much. -/
def arrival (s : Ledger) (left : Nat) (a : AccountName) (δ : Nat → Int) : Option (AccountName × Int) :=
  (s.voterOf left a).bind (fun t => s.split t.1 (sumTo δ t.2))

/-- Chains that keep clear of `c` do not see what happens to it. -/
theorem voterOf_congr {left : Nat} (hc : c ∉ a :: s.chainOf left a)
    (hproxy : ∀ b, b ≠ c → (s'.accounts.row b).proxy = (s.accounts.row b).proxy) :
    s'.voterOf left a = s.voterOf left a ∧ ∀ t, s.voterOf left a = some t → t.1 ≠ c := by
  induction left generalizing a with
  | zero =>
      have ha : a ≠ c := fun h => hc (h ▸ List.mem_cons_self)
      unfold voterOf
      rw [hproxy a ha]
      refine ⟨rfl, fun t ht => ?_⟩
      by_cases hp : (s.accounts.row a).proxy ≠ 0
      · rw [if_pos hp] at ht
        cases ht
      · rw [if_neg hp] at ht
        exact (Option.some.inj ht) ▸ ha
  | succ left ih =>
      have ha : a ≠ c := fun h => hc (h ▸ List.mem_cons_self)
      have hrest : (s.accounts.row a).proxy ≠ 0 → c ∉ (s.accounts.row a).proxy :: s.chainOf left (s.accounts.row a).proxy := by
        intro hp hm
        apply hc
        unfold chainOf
        rw [if_pos hp]
        exact List.mem_cons_of_mem _ hm
      unfold voterOf
      rw [hproxy a ha]
      by_cases hp : (s.accounts.row a).proxy ≠ 0
      · rw [if_pos hp, if_pos hp]
        exact ih (hrest hp)
      · rw [if_neg hp, if_neg hp]
        exact ⟨rfl, fun t ht => (Option.some.inj ht) ▸ ha⟩

/-- Whoever has a proxy is not where its own change arrives. -/
theorem voterOf_proxy {left : Nat} {t : AccountName × Nat} (h : s.voterOf left a = some t) :
    (s.accounts.row t.1).proxy = 0 := by
  induction left generalizing a with
  | zero =>
      unfold voterOf at h
      by_cases hp : (s.accounts.row a).proxy ≠ 0
      · rw [if_pos hp] at h
        cases h
      · rw [if_neg hp] at h
        exact (Option.some.inj h) ▸ not_not.mp hp
  | succ left ih =>
      unfold voterOf at h
      by_cases hp : (s.accounts.row a).proxy ≠ 0
      · rw [if_pos hp] at h
        exact ih h
      · rw [if_neg hp] at h
        exact (Option.some.inj h) ▸ not_not.mp hp

theorem split_fst {e : AccountName × Int} (h : s.split a x = some e) : e.1 = a := by
  unfold split at h
  by_cases hv : 0 < (s.accounts.row a).validatorsVotedFor
  · rw [if_pos hv] at h
    exact (Option.some.inj h) ▸ rfl
  · rw [if_neg hv] at h
    cases h

theorem arrival_proxy {left : Nat} {δ : Nat → Int} {e : AccountName × Int} (h : s.arrival left a δ = some e) :
    (s.accounts.row e.1).proxy = 0 := by
  obtain ⟨t, ht, he⟩ := Option.bind_eq_some_iff.mp h
  rw [split_fst he]
  exact voterOf_proxy ht

namespace Ballots

theorem voterOf (h : Ballots s s') : s'.voterOf = s.voterOf := by
  funext left a
  induction left generalizing a with
  | zero =>
      unfold Ledger.voterOf
      rw [h.proxy]
  | succ left ih =>
      unfold Ledger.voterOf
      rw [h.proxy, ih]

theorem chainOf (h : Ballots s s') : s'.chainOf = s.chainOf := by
  funext left a
  induction left generalizing a with
  | zero => rfl
  | succ left ih =>
      unfold Ledger.chainOf
      rw [h.proxy, ih]

theorem arrival (h : Ballots s s') : s'.arrival = s.arrival := by
  funext left a δ
  unfold Ledger.arrival
  rw [h.voterOf]
  congr 1
  funext t
  unfold split
  rw [h.votedFor]

end Ballots

/-- **The poll has gone through these changes**, each at an account that exists. -/
structure Shifted (es : List (Option (AccountName × Int))) (s s' : Ledger) : Prop where
  poll    : s'.poll = es.foldl Poll.effect s.poll
  ballots : Ballots s s'
  mem     : ∀ e, some e ∈ es → e.1 ∈ s.accounts.keys

namespace Shifted

variable {es es' : List (Option (AccountName × Int))}

theorem of_poll (h : s'.poll = s.poll) (hb : Ballots s s') : Shifted [] s s' :=
  ⟨h, hb, fun _ he => absurd he List.not_mem_nil⟩

theorem trans {s'' : Ledger} (h : Shifted es s s') (h' : Shifted es' s' s'') : Shifted (es ++ es') s s'' where
  poll    := by
    rw [List.foldl_append, ← h.poll]
    exact h'.poll
  ballots := h.ballots.trans h'.ballots
  mem     := by
    intro e he
    rcases List.mem_append.mp he with he | he
    · exact h.mem e he
    · exact h.ballots.accounts ▸ h'.mem e he

/-- A change of other things first. -/
theorem after {s₁ : Ledger} (h : Shifted es s₁ s') (hb : Ballots s s₁) (hpoll : s₁.poll = s.poll) : Shifted es s s' :=
  (of_poll hpoll hb).trans h

/-- **A change that its voter can bear** keeps the tally. -/
theorem tallied {e : Option (AccountName × Int)} (h : Shifted [e] s s') (ht : s.Tallied) (hbears : s.poll.Bears e) :
    s'.Tallied := by
  rw [tallied_iff] at ht ⊢
  rw [h.poll, h.ballots.accounts, h.ballots.validators]
  exact ht.effect s.accounts.nodup (fun t he => h.mem t (he ▸ List.mem_singleton_self _)) hbears

end Shifted

/-- A change that has arrived. -/
theorem adjustValidatorVotes_shifted {δ : Nat → Int} {left k : Nat} (hfork : s.hasHardfork 5 = true)
    (ha : a ∈ s.accounts.keys) (hvoter : s.voterOf left a = some (a, k))
    (h : s.adjustValidatorVotes a (sumTo δ k) = .ok s') : Shifted [s.arrival left a δ] s s' := by
  obtain ⟨hpoll, hballots⟩ := adjustValidatorVotes_poll hfork h
  have hsplit : s.arrival left a δ = s.split a (sumTo δ k) := by
    unfold arrival
    rw [hvoter]
    rfl
  rw [hsplit]
  refine ⟨hpoll, hballots, fun e he => ?_⟩
  rw [split_fst (List.mem_singleton.mp he).symm]
  exact ha

/-- **A change runs up the proxy chain** and arrives at one voter. What it leaves on the way does not change the poll, and
    only the proxies of the chain see it. -/
theorem adjustProxiedFrom_shifted {δ : Nat → Int} {left : Nat} (hfork : s.hasHardfork 5 = true)
    (h : adjustProxiedFrom δ left a s = .ok s') :
    Shifted [s.arrival left a δ] s s' ∧
      ∀ c ∉ s.chainOf left a, (s'.accounts.row c).toAccountBook = (s.accounts.row c).toAccountBook := by
  induction left generalizing a s with
  | zero =>
      unfold adjustProxiedFrom at h
      simp only [bind_eq_ok, getAccount_eq_ok] at h
      obtain ⟨r, ⟨ha, rfl⟩, h⟩ := h
      by_cases hp : (s.accounts.row a).proxy ≠ 0
      · rw [if_pos hp] at h
        obtain rfl := pure_eq_ok.mp h
        have hnone : s.arrival 0 a δ = none := by
          unfold arrival voterOf
          rw [if_pos hp]
          rfl
        rw [hnone]
        refine ⟨⟨rfl, .refl s, fun e he => ?_⟩, fun _ _ => rfl⟩
        cases List.mem_singleton.mp he
      · rw [if_neg hp] at h
        refine ⟨adjustValidatorVotes_shifted hfork ha ?_ h, fun c _ => (adjustValidatorVotes_voting h).book c⟩
        unfold voterOf
        rw [if_neg hp]
  | succ left ih =>
      unfold adjustProxiedFrom at h
      simp only [bind_eq_ok, getAccount_eq_ok] at h
      obtain ⟨r, ⟨ha, rfl⟩, h⟩ := h
      by_cases hp : (s.accounts.row a).proxy ≠ 0
      · rw [if_pos hp] at h
        simp only [bind_eq_ok, getAccount_eq_ok] at h
        obtain ⟨q, ⟨-, rfl⟩, h⟩ := h
        -- the proxy counts the change, which the poll does not see
        have hb : Ballots s (s.modifyAccount (s.accounts.row a).proxy
            (bumpProxied (Config.maxProxyRecursionDepth - (left + 1)) δ)) := .modifyAccount rfl rfl
        obtain ⟨hs, hbook⟩ := ih (s := s.modifyAccount _ _) hfork h
        have harrival : s.arrival (left + 1) a δ = s.arrival left (s.accounts.row a).proxy δ := by
          unfold arrival
          rw [voterOf, if_pos hp]
        have hchain : s.chainOf (left + 1) a =
            (s.accounts.row a).proxy :: s.chainOf left (s.accounts.row a).proxy := by
          rw [chainOf, if_pos hp]
        rw [hb.arrival] at hs
        rw [hb.chainOf] at hbook
        rw [harrival, hchain]
        refine ⟨hs.after hb (poll_modifyAccount rfl), fun c hc => ?_⟩
        rw [List.mem_cons, not_or] at hc
        obtain ⟨hne, hc⟩ := hc
        refine (hbook c hc).trans ?_
        exact congrArg Account.toAccountBook (Table.modify_row_of_ne hne)
      · rw [if_neg hp] at h
        refine ⟨adjustValidatorVotes_shifted hfork ha ?_ h, fun c _ => (adjustValidatorVotes_voting h).book c⟩
        unfold voterOf
        rw [if_neg hp]

/-- One amount runs up as an array with one entry. -/
theorem adjustProxiedValidatorVotes_shifted (hfork : s.hasHardfork 5 = true)
    (h : s.adjustProxiedValidatorVotes a x = .ok s') :
    Shifted [s.arrival Config.maxProxyRecursionDepth a (single x)] s s' := by
  unfold adjustProxiedValidatorVotes at h
  rw [adjustProxiedBy_eq le_rfl] at h
  exact (adjustProxiedFrom_shifted hfork h).1

/-! ## Shares -/

/-- Tokens become shares. -/
theorem createVesting_shifted {tokens : Int} (hfork : s.hasHardfork 5 = true) (h : s.createVesting a tokens = .ok s') :
    ∃ n, s.tokensToShares tokens = .ok n ∧
      Shifted [s.arrival Config.maxProxyRecursionDepth a (single n)] s s' := by
  simp only [createVesting, bind_eq_ok, getAccount_eq_ok] at h
  obtain ⟨n, hn, -, -, h⟩ := h
  refine ⟨n, hn, ?_⟩
  have hb := (Ballots.modifyAccount (s := s) (a := a) (f := fun r => { r with vestingShares := r.vestingShares + n })
    rfl rfl).funds (s.totalVestingFund + tokens) (s.totalVestingShares + n)
  have hs := adjustProxiedValidatorVotes_shifted (hb.hasHardfork.trans hfork) h
  rw [hb.arrival] at hs
  exact hs.after hb (poll_modifyAccount (f := fun r => { r with vestingShares := r.vestingShares + n }) rfl)

/-- The change that a route brings in the turn of an account that withdraws `w` shares. -/
def broughtBy (s : Ledger) (w : Int) (to_ : AccountName × Route) : Option (AccountName × Int) :=
  if to_.2.autoVest = true ∧ 0 < routeDeposit w to_.2
  then s.arrival Config.maxProxyRecursionDepth to_.1 (single (routeDeposit w to_.2)) else none

/-- **The changes of a withdrawal** of `w` shares: what the routes bring, and what is taken off. -/
def withdrawals (s : Ledger) (a : AccountName) (w : Int) : List (Option (AccountName × Int)) :=
  (s.routesOf a).map (s.broughtBy w) ++
    [if 0 < w then s.arrival Config.maxProxyRecursionDepth a (single (-w)) else none]

theorem Ballots.broughtBy (h : Ballots s s') : s'.broughtBy = s.broughtBy := by
  funext w to_
  unfold Ledger.broughtBy
  rw [h.arrival]

/-- A route that keeps shares. -/
theorem depositShares_shifted {w : Int} {p p' : Ledger × Int} {to_ : AccountName × Route}
    (hfork : p.1.hasHardfork 5 = true) (h : depositShares w p to_ = .ok p') :
    Shifted [p.1.broughtBy w to_] p.1 p'.1 := by
  have hnone : ∀ q : Ledger, Shifted [none] q q := fun q =>
    ⟨rfl, .refl q, fun e he => by cases List.mem_singleton.mp he⟩
  unfold depositShares at h
  unfold broughtBy
  dsimp only at h
  by_cases hauto : to_.2.autoVest = true
  · rw [if_pos hauto] at h
    by_cases hpos : 0 < routeDeposit w to_.2
    · rw [if_pos hpos] at h
      simp only [bind_eq_ok, pure_eq_ok] at h
      obtain ⟨s₁, h₁, rfl⟩ := h
      rw [if_pos ⟨hauto, hpos⟩]
      have hb : Ballots p.1 (p.1.modifyAccount to_.1 (fun a =>
          { a with vestingShares := a.vestingShares + routeDeposit w to_.2 })) := .modifyAccount rfl rfl
      have hs := adjustProxiedValidatorVotes_shifted (s := p.1.modifyAccount _ _) hfork h₁
      rw [hb.arrival] at hs
      exact hs.after hb (poll_modifyAccount rfl)
    · rw [if_neg hpos, pure_eq_ok] at h
      subst h
      rw [if_neg (fun hc => hpos hc.2)]
      exact hnone _
  · rw [if_neg hauto, pure_eq_ok] at h
    subst h
    rw [if_neg (fun hc => hauto hc.1)]
    exact hnone _

/-- A route that pays out. -/
theorem depositTokens_shifted {w : Int} {p p' : Ledger × Int} {to_ : AccountName × Route}
    (h : depositTokens w p to_ = .ok p') : Shifted [] p.1 p'.1 := by
  unfold depositTokens at h
  dsimp only at h
  by_cases hauto : to_.2.autoVest = true
  · rw [if_pos hauto, pure_eq_ok] at h
    exact h ▸ .of_poll rfl (.refl _)
  · rw [if_neg hauto] at h
    simp only [bind_eq_ok] at h
    obtain ⟨c, -, h⟩ := h
    by_cases hpos : 0 < routeDeposit w to_.2
    · rw [if_pos hpos, pure_eq_ok] at h
      subst h
      refine .of_poll (poll_modifyAccount (f := fun a => { a with balance := a.balance + c }) rfl) ?_
      exact (Ballots.modifyAccount (f := fun a => { a with balance := a.balance + c }) rfl rfl).funds _ _
    · rw [if_neg hpos, pure_eq_ok] at h
      exact h ▸ .of_poll rfl (.refl _)

theorem depositShares_all {w : Int} {l : List (AccountName × Route)} {p p' : Ledger × Int}
    (hfork : p.1.hasHardfork 5 = true) (h : l.foldlM (depositShares w) p = .ok p') :
    Shifted (l.map (p.1.broughtBy w)) p.1 p'.1 := by
  induction l generalizing p with
  | nil =>
      obtain rfl := Except.ok.inj h
      exact .of_poll rfl (.refl _)
  | cons to_ l ih =>
      rw [List.foldlM_cons, bind_eq_ok] at h
      obtain ⟨q, hq, h⟩ := h
      have hone := depositShares_shifted hfork hq
      have hrest := ih (hone.ballots.hasHardfork.trans hfork) h
      rw [hone.ballots.broughtBy] at hrest
      exact hone.trans hrest

theorem depositTokens_all {w : Int} {l : List (AccountName × Route)} {p p' : Ledger × Int}
    (h : l.foldlM (depositTokens w) p = .ok p') : Shifted [] p.1 p'.1 := by
  induction l generalizing p with
  | nil =>
      obtain rfl := Except.ok.inj h
      exact .of_poll rfl (.refl _)
  | cons to_ l ih =>
      rw [List.foldlM_cons, bind_eq_ok] at h
      obtain ⟨q, hq, h⟩ := h
      exact (depositTokens_shifted hq).trans (ih h)

/-- The end of an account's turn does not concern its vote. -/
theorem settleWithdrawal_vote {w c : Int} {r : Account} : (settleWithdrawal w c r).proxy = r.proxy ∧
    (settleWithdrawal w c r).validatorsVotedFor = r.validatorsVotedFor ∧
    (settleWithdrawal w c r).validatorsVoteWeight = r.validatorsVoteWeight := by
  unfold settleWithdrawal
  dsimp only
  split
  · exact ⟨rfl, rfl, rfl⟩
  · exact ⟨rfl, rfl, rfl⟩

/-- **One account's turn to withdraw.** -/
theorem withdrawFrom_shifted (hfork : s.hasHardfork 5 = true) (h : s.withdrawFrom a = .ok s') :
    ∃ w, withdrawalAmount (s.accounts.row a) = .ok w ∧ Shifted (s.withdrawals a w) s s' := by
  simp only [withdrawFrom, bind_eq_ok, getAccount_eq_ok] at h
  obtain ⟨r, ⟨ha, rfl⟩, w, hw, ⟨s₁, asVests⟩, h₁, ⟨s₂, asTokens⟩, h₂, c, -, h⟩ := h
  dsimp only at h₁ h₂ h
  have hin := depositShares_all (p := (s, 0)) hfork h₁
  have hout := hin.trans (depositTokens_all (p := (s₁, 0)) h₂)
  rw [List.append_nil] at hout
  refine ⟨w, hw, ?_⟩
  unfold withdrawals
  refine hout.trans ?_
  -- the turn is settled, which the poll does not see
  have henergy : Ballots s₂ (s₂.sharesSenderRecalcEnergy a (asTokens + max (w - asTokens - asVests) 0)) ∧
      (s₂.sharesSenderRecalcEnergy a (asTokens + max (w - asTokens - asVests) 0)).poll = s₂.poll := by
    unfold sharesSenderRecalcEnergy
    refine ⟨.modifyAccount ?_ ?_, poll_modifyAccount ?_⟩
    · split <;> rfl
    · split <;> rfl
    · split <;> rfl
  have hb := (henergy.1.trans (.modifyAccount (a := a) (f := settleWithdrawal w c) settleWithdrawal_vote.1
    settleWithdrawal_vote.2.1)).funds (s₂.totalVestingFund - c) (s₂.totalVestingShares - max (w - asTokens - asVests) 0)
  have hpoll := (poll_modifyAccount (a := a) (f := settleWithdrawal w c) settleWithdrawal_vote.2.2).trans henergy.2
  by_cases hpos : 0 < w
  · rw [if_pos hpos] at h ⊢
    have hs := adjustProxiedValidatorVotes_shifted (hb.hasHardfork.trans (hout.ballots.hasHardfork.trans hfork)) h
    rw [hb.arrival, hout.ballots.arrival] at hs
    exact hs.after hb hpoll
  · rw [if_neg hpos, pure_eq_ok] at h
    rw [if_neg hpos]
    subst h
    exact ⟨hpoll, hb, fun e he => by cases List.mem_singleton.mp he⟩

/-! ## Votes and proxies -/

/-- What an account weighs once it has cast or taken back a vote. -/
def newWeight (s : Ledger) (a : AccountName) (approve : Bool) : Int :=
  let r := s.accounts.row a
  ({ r with validatorsVotedFor := if approve then r.validatorsVotedFor + 1 else r.validatorsVotedFor - 1 } :
    Account).validatorVoteFairWeight

/-- Whom an account votes for then. -/
def newChoice (s : Ledger) (a v : AccountName) (approve : Bool) (w : AccountName) : Bool :=
  if w = v then approve else s.poll.casts a w

/-- The accounts, the validators and the hardfork stay. -/
structure SameSeats (s s' : Ledger) : Prop where
  hardfork   : s'.hardfork = s.hardfork
  accounts   : s'.accounts.keys = s.accounts.keys
  validators : s'.validators.keys = s.validators.keys

theorem SameSeats.trans {s'' : Ledger} (h : SameSeats s s') (h' : SameSeats s' s'') : SameSeats s s'' :=
  ⟨h'.hardfork.trans h.hardfork, h'.accounts.trans h.accounts, h'.validators.trans h.validators⟩

theorem Ballots.seats (h : Ballots s s') : SameSeats s s' := ⟨h.hardfork, h.accounts, h.validators⟩

theorem setVote_accounts {approve : Bool} : (s.setVote a v approve).accounts = s.accounts.modify a (fun r =>
    { r with validatorsVotedFor := if approve then r.validatorsVotedFor + 1 else r.validatorsVotedFor - 1 }) := rfl

/-- A vote object is created or removed. -/
theorem poll_setVote {approve : Bool} (hv : v ∈ s.validators.keys) (hnew : approve = true → (a, v) ∉ s.votes.keys) :
    (s.setVote a v approve).poll = s.poll.choose a (s.newChoice a v approve) := by
  have hweight : (s.setVote a v approve).poll.weight = s.poll.weight := by
    funext c
    unfold poll
    dsimp only
    rw [setVote_accounts]
    exact Table.modify_same (p := fun r : Account => r.validatorsVoteWeight) rfl
  have hcasts : (s.setVote a v approve).poll.casts = Function.update s.poll.casts a (s.newChoice a v approve) := by
    funext b w
    rw [Bool.eq_iff_iff, poll_casts]
    have hkeys : (b, w) ∈ (s.setVote a v approve).votes.keys ↔
        if (b, w) = (a, v) then approve = true else (b, w) ∈ s.votes.keys := by
      unfold setVote
      dsimp only
      show (b, w) ∈ (if approve then s.votes.insert (a, v) s.headBlockNumber else s.votes.erase (a, v)).keys ↔ _
      cases approve with
      | true =>
          rw [if_pos rfl, Table.mem_insert_keys (hnew rfl)]
          by_cases he : (b, w) = (a, v)
          · rw [if_pos he]
            exact ⟨fun _ => rfl, fun _ => .inr he⟩
          · rw [if_neg he]
            exact ⟨fun h => h.resolve_right he, .inl⟩
      | false =>
          rw [if_neg Bool.false_ne_true, Table.mem_erase_keys]
          by_cases he : (b, w) = (a, v)
          · rw [if_pos he]
            exact ⟨fun h => absurd he h.1, fun h => absurd h Bool.false_ne_true⟩
          · rw [if_neg he]
            exact ⟨fun h => h.2, fun h => ⟨he, h⟩⟩
    rw [hkeys]
    show w ∈ s.validators.keys ∧ _ ↔ _
    by_cases hb : b = a
    · subst hb
      rw [Function.update_self]
      unfold newChoice
      by_cases hw : w = v
      · rw [if_pos (by rw [hw]), if_pos hw]
        exact ⟨fun h => h.2, fun h => ⟨hw ▸ hv, h⟩⟩
      · rw [if_neg (fun he => hw (Prod.mk.inj he).2), if_neg hw, poll_casts]
    · rw [Function.update_of_ne hb, if_neg (fun he => hb (Prod.mk.inj he).1), poll_casts]
  show Poll.mk (s.setVote a v approve).poll.weight (s.setVote a v approve).poll.casts s.poll.votes = _
  rw [hweight, hcasts]
  rfl

/-- **A vote is cast anew** with the new weight. -/
theorem revote_poll {approve : Bool} (hfork : s.hasHardfork 5 = true) (hv : v ∈ s.validators.keys)
    (hnew : approve = true → (a, v) ∉ s.votes.keys) (h : s.revote a v approve = .ok s') :
    s'.poll = s.poll.recast a (s.newChoice a v approve) (s.newWeight a approve) ∧ SameSeats s s' := by
  simp only [revote, bind_eq_ok, getAccount_eq_ok] at h
  obtain ⟨r, ⟨-, rfl⟩, h⟩ := h
  rw [if_pos hfork] at h
  obtain ⟨s₁, h₁, h⟩ := bind_eq_ok.mp h
  obtain ⟨hpoll₁, hrest₁, hkeys₁⟩ := adjustEach_poll hfork h₁
  have hb₁ := Ballots.of_validators hrest₁ hkeys₁
  have hv₁ : v ∈ s₁.validators.keys := hkeys₁ ▸ hv
  have hset : (s₁.setVote a v approve).poll = s₁.poll.choose a (s₁.newChoice a v approve) :=
    poll_setVote hv₁ (fun hap => by rw [hb₁.votes]; exact hnew hap)
  have hseats₂ : SameSeats s₁ (s₁.setVote a v approve) := ⟨rfl, rfl, rfl⟩
  have hchoice : s₁.newChoice a v approve = s.newChoice a v approve := by
    funext w
    unfold newChoice
    rw [hpoll₁]
    rfl
  have hweight : ((s₁.setVote a v approve).accounts.row a).validatorVoteFairWeight = s.newWeight a approve := by
    unfold newWeight
    rw [setVote_accounts, Table.modify_row_self, hrest₁]
  rw [hweight] at h
  have hfork₂ : (s₁.setVote a v approve).hasHardfork 5 = true := hb₁.hasHardfork.trans hfork
  obtain ⟨hpoll₃, hrest₃, hkeys₃⟩ := adjustEach_poll (s := (s₁.setVote a v approve).modifyAccount a _) hfork₂ h
  rw [poll_weigh, hset, hpoll₁, hchoice] at hpoll₃
  refine ⟨hpoll₃, (hb₁.seats.trans hseats₂).trans ?_⟩
  exact ⟨by rw [hrest₃]; rfl, by rw [hrest₃]; rfl, hkeys₃⟩

/-- What is taken off at the end of an account's chain, when all that it stands for is withdrawn. -/
def takenOff (s : Ledger) (a : AccountName) : Option (AccountName × Int) :=
  s.arrival Config.maxProxyRecursionDepth a (fun i => -voteArray (s.accounts.row a) i)

/-- What a vote does first: from hardfork 4 on it clears the proxy. -/
def unproxied (s : Ledger) (a : AccountName) : Option (AccountName × Int) :=
  if (s.accounts.row a).proxy ≠ 0 then s.takenOff a else none

/-- **A vote**, by an account that may have had a proxy but is not on its own chain. -/
theorem accountValidatorVote_poll {approve : Bool} (hfork : s.hasHardfork 5 = true)
    (hchain : a ∉ s.chainOf Config.maxProxyRecursionDepth a) (h : s.accountValidatorVote a v approve = .ok s') :
    ∃ s₁, Shifted [s.unproxied a] s s₁ ∧ a ∈ s.accounts.keys ∧
      s'.poll = s₁.poll.recast a (s.newChoice a v approve) (s.newWeight a approve) ∧ SameSeats s s' := by
  simp only [accountValidatorVote, bind_eq_ok, getAccount_eq_ok] at h
  obtain ⟨r, ⟨ha, rfl⟩, -, -, h⟩ := h
  -- the vote itself, in a ledger in which the account has no proxy any more
  have hrest : ∀ {s₀ s₁ : Ledger}, (do
      let _ ← s₁.getValidator v
      if (a, v) ∈ s₁.votes.keys then
        require (approve = false) .voteExists
        s₁.revote a v false
      else
        require (approve = true) .voteMissing
        let limit := if s₁.hasHardfork 4
          then Config.maxAccountValidatorVotes else Config.maxAccountValidatorVotesPreHf4
        require ((s₁.accounts.row a).validatorsVotedFor < limit) .tooManyVotes
        s₁.revote a v true) = Except.ok s' → Shifted [s.unproxied a] s s₀ → s₁.poll = s₀.poll → SameSeats s s₁ →
      (s₁.accounts.row a).validatorsVotedFor = (s.accounts.row a).validatorsVotedFor →
      (s₁.accounts.row a).validatorVoteWeight = (s.accounts.row a).validatorVoteWeight →
      s'.poll = s₀.poll.recast a (s.newChoice a v approve) (s.newWeight a approve) ∧ SameSeats s s' := by
    intro s₀ s₁ hs₁ hs₀ hpoll₁ hseats hvoted hweight
    have hfork₁ : s₁.hasHardfork 5 = true := by
      unfold hasHardfork at hfork ⊢
      rw [hseats.hardfork]
      exact hfork
    have hchoice : s₁.newChoice a v approve = s.newChoice a v approve := by
      have hcasts : s₁.poll.casts = s.poll.casts := by
        rw [hpoll₁, hs₀.poll, Poll.foldl_effect_casts]
      unfold newChoice
      rw [hcasts]
    have hnew : s₁.newWeight a approve = s.newWeight a approve := by
      unfold newWeight Account.validatorVoteFairWeight
      dsimp only
      rw [hvoted]
      unfold Account.validatorVoteWeight at hweight ⊢
      dsimp only
      rw [hweight]
    simp only [bind_eq_ok, getValidator_eq_ok] at hs₁
    obtain ⟨w, ⟨hv, -⟩, hs₁⟩ := hs₁
    have hdone : s₁.revote a v approve = .ok s' → (approve = true → (a, v) ∉ s₁.votes.keys) →
        s'.poll = s₀.poll.recast a (s.newChoice a v approve) (s.newWeight a approve) ∧ SameSeats s s' := by
      intro hu hap
      obtain ⟨hpoll, hseats'⟩ := revote_poll hfork₁ hv hap hu
      rw [hpoll, hpoll₁, hchoice, hnew]
      exact ⟨rfl, hseats.trans hseats'⟩
    by_cases hvote : (a, v) ∈ s₁.votes.keys
    · rw [if_pos hvote] at hs₁
      simp only [bind_eq_ok, require_eq_ok] at hs₁
      obtain ⟨-, rfl, hs₁⟩ := hs₁
      exact hdone hs₁ (fun hf => absurd hf Bool.false_ne_true)
    · rw [if_neg hvote] at hs₁
      simp only [bind_eq_ok, require_eq_ok] at hs₁
      obtain ⟨-, rfl, -, -, hs₁⟩ := hs₁
      exact hdone hs₁ (fun _ => hvote)
  by_cases hp : (s.accounts.row a).proxy ≠ 0
  · rw [if_pos hp] at h
    simp only [bind_eq_ok, pure_eq_ok] at h
    obtain ⟨s₀, h₀, s₁, rfl, h⟩ := h
    obtain ⟨hs, hbook⟩ := adjustProxiedFrom_shifted hfork h₀
    have hun : s.unproxied a = s.arrival Config.maxProxyRecursionDepth a (fun i => -voteArray (s.accounts.row a) i) := by
      unfold unproxied
      rw [if_pos hp]
      rfl
    rw [← hun] at hs
    refine ⟨s₀, hs, ha, hrest (by simp only [bind_eq_ok]; exact h) hs (poll_modifyAccount rfl)
      ⟨hs.ballots.hardfork, hs.ballots.accounts, hs.ballots.validators⟩ ?_ ?_⟩
    · exact (Table.modify_same (p := fun r : Account => r.validatorsVotedFor)
        (f := fun r : Account => { r with proxy := 0 }) rfl).trans (hs.ballots.votedFor a)
    · refine (Table.modify_same (p := Account.validatorVoteWeight) (f := fun r : Account => { r with proxy := 0 }) rfl).trans ?_
      unfold Account.validatorVoteWeight
      rw [hbook a hchain]
  · rw [if_neg hp] at h
    simp only [bind_eq_ok, pure_eq_ok] at h
    obtain ⟨s₁, rfl, h⟩ := h
    have hun : s.unproxied a = none := by
      unfold unproxied
      rw [if_neg hp]
    have hs : Shifted [s.unproxied a] s s := by
      rw [hun]
      exact ⟨rfl, .refl s, fun e he => by cases List.mem_singleton.mp he⟩
    exact ⟨s, hs, ha, hrest (by simp only [bind_eq_ok]; exact h) hs rfl ⟨rfl, rfl, rfl⟩ rfl rfl⟩

/-- A proxy that was accepted is not on a chain with the account. -/
theorem checkProxyChain_chain {n left : Nat} {seen : List AccountName} {p : AccountName} {u : Unit}
    (h : s.checkProxyChain n seen p = .ok u) (ha : a ∈ seen) : a ∉ s.chainOf left p := by
  induction left generalizing n seen p with
  | zero => exact List.not_mem_nil
  | succ left ih =>
      unfold chainOf
      by_cases hp : (s.accounts.row p).proxy ≠ 0
      · rw [if_pos hp]
        cases n with
        | zero => cases h
        | succ n =>
            unfold checkProxyChain at h
            simp only [bind_eq_ok, getAccount_eq_ok] at h
            obtain ⟨r, ⟨-, rfl⟩, h⟩ := h
            rw [if_pos hp] at h
            simp only [bind_eq_ok, require_eq_ok] at h
            obtain ⟨-, -, -, hnew, -, -, h⟩ := h
            rw [List.mem_cons, not_or]
            exact ⟨fun he => hnew (he ▸ ha), ih h (List.mem_cons_of_mem _ ha)⟩
      · rw [if_neg hp]
        exact List.not_mem_nil

theorem clearValidatorVotes_accounts : (s.clearValidatorVotes a).accounts = s.accounts.modify a (fun r =>
    { r with
      validatorsVotedFor   := 0
      validatorsVoteWeight := if s.hasHardfork 5 then 0 else r.validatorsVoteWeight }) := rfl

/-- All votes of an account are removed. -/
theorem poll_clearValidatorVotes (hfork : s.hasHardfork 5 = true) :
    (s.clearValidatorVotes a).poll = s.poll.leave a := by
  have hmem : ∀ (l : List AccountName) (t : Table (AccountName × AccountName) Nat) (k : AccountName × AccountName),
      k ∈ (l.foldl (fun t v => t.erase (a, v)) t).keys ↔ k ∈ t.keys ∧ ∀ w ∈ l, k ≠ (a, w) := by
    intro l
    induction l with
    | nil => exact fun t k => ⟨fun h => ⟨h, fun _ hw => absurd hw List.not_mem_nil⟩, fun h => h.1⟩
    | cons w l ih =>
        intro t k
        rw [List.foldl_cons, ih, Table.mem_erase_keys, List.forall_mem_cons]
        exact ⟨fun h => ⟨h.1.2, h.1.1, h.2⟩, fun h => ⟨⟨h.2.1, h.1⟩, h.2.2⟩⟩
  have hcasts : (s.clearValidatorVotes a).poll.casts = Function.update s.poll.casts a (fun _ => false) := by
    funext b w
    rw [Bool.eq_iff_iff, poll_casts]
    show w ∈ s.validators.keys ∧ (b, w) ∈ ((s.votedBy a).foldl (fun t v => t.erase (a, v)) s.votes).keys ↔ _
    rw [hmem]
    by_cases hb : b = a
    · subst hb
      rw [Function.update_self]
      exact ⟨fun h => absurd rfl (h.2.2 w (mem_votedBy.mpr ⟨h.1, h.2.1⟩)), fun h => absurd h Bool.false_ne_true⟩
    · rw [Function.update_of_ne hb, poll_casts]
      exact ⟨fun h => ⟨h.1, h.2.1⟩, fun h => ⟨h.1, h.2, fun _ _ he => hb (Prod.mk.inj he).1⟩⟩
  have hweight : (s.clearValidatorVotes a).poll.weight = Function.update s.poll.weight a 0 := by
    funext c
    show ((s.clearValidatorVotes a).accounts.row c).validatorsVoteWeight = _
    rw [clearValidatorVotes_accounts]
    by_cases hc : c = a
    · rw [hc, Function.update_self, Table.modify_row_self]
      exact if_pos hfork
    · rw [Function.update_of_ne hc, Table.modify_row_of_ne hc]
      rfl
  show Poll.mk (s.clearValidatorVotes a).poll.weight (s.clearValidatorVotes a).poll.casts s.poll.votes = _
  rw [hcasts, hweight]
  rfl

/-- What is put on at the end of a new proxy's chain. -/
def putOn (s : Ledger) (a p : AccountName) : Option (AccountName × Int) :=
  s.arrival (Config.maxProxyRecursionDepth - 1) p (voteArray (s.accounts.row a))

/-- **A new proxy**: what the account stands for is taken off, it leaves the poll, and the new chain takes it on. -/
theorem accountValidatorProxy_poll {p : AccountName} (hfork : s.hasHardfork 5 = true)
    (h : accountValidatorProxy names s a p = .ok s') :
    ∃ s₁, Shifted [s.takenOff a] s s₁ ∧ a ∈ s.accounts.keys ∧ (s.accounts.row a).proxy ≠ p ∧
      (p = 0 → s'.poll = s₁.poll ∧ SameSeats s s') ∧
      (p ≠ 0 → ∃ s₂, s₂.poll = s₁.poll.leave a ∧ SameSeats s s₂ ∧ Shifted [s.putOn a p] s₂ s') := by
  simp only [accountValidatorProxy, bind_eq_ok, getAccount_eq_ok, require_eq_ok] at h
  obtain ⟨-, ⟨-, hself⟩, r, ⟨ha, rfl⟩, -, hne, s₁, h₁, h⟩ := h
  have hs := (adjustProxiedFrom_shifted hfork h₁).1
  refine ⟨s₁, hs, ha, hne, fun hp => ?_, fun hp => ?_⟩
  · rw [if_neg (not_not.mpr hp), pure_eq_ok] at h
    subst h
    exact ⟨poll_modifyAccount rfl, hs.ballots.hardfork, hs.ballots.accounts, hs.ballots.validators⟩
  · rw [if_pos hp] at h
    simp only [bind_eq_ok] at h
    obtain ⟨-, -, u, hcheck, h⟩ := h
    have hfork₁ : s₁.hasHardfork 5 = true := hs.ballots.hasHardfork.trans hfork
    -- the ledger in between: the account has left, and has its new proxy
    obtain ⟨s₂, hs₂⟩ : ∃ s₂, s₂ = (s₁.clearValidatorVotes a).modifyAccount a (fun r => { r with proxy := p }) := ⟨_, rfl⟩
    have hpoll : s₂.poll = s₁.poll.leave a := by
      rw [hs₂]
      exact (poll_modifyAccount rfl).trans (poll_clearValidatorVotes hfork₁)
    have hrow : ∀ b, b ≠ a → s₂.accounts.row b = s₁.accounts.row b := by
      intro b hb
      have hclear : (s₁.clearValidatorVotes a).accounts.row b = s₁.accounts.row b := by
        rw [clearValidatorVotes_accounts, Table.modify_row_of_ne hb]
      rw [hs₂, ← hclear]
      exact modifyAccount_row_of_ne hb
    have hproxy : (s₂.accounts.row a).proxy = p := by
      rw [hs₂]
      exact congrArg (fun r : Account => r.proxy) (Table.modify_row_self (f := fun r : Account => { r with proxy := p }))
    have hseats : SameSeats s s₂ := hs₂ ▸ ⟨hs.ballots.hardfork, hs.ballots.accounts, hs.ballots.validators⟩
    have hfork₂ : s₂.hasHardfork 5 = true := hs₂ ▸ hfork₁
    refine ⟨s₂, hpoll, hseats, ?_⟩
    have hon := (adjustProxiedFrom_shifted hfork₂ (hs₂ ▸ h)).1
    -- the new chain keeps clear of the account, so it is the chain of before
    have hfree : a ∉ p :: s.chainOf 3 p := by
      have hchain : a ∉ chainOf _ 3 p := checkProxyChain_chain hcheck (List.mem_cons_of_mem _ List.mem_cons_self)
      rw [hs.ballots.chainOf] at hchain
      rw [List.mem_cons, not_or]
      exact ⟨fun he => hself he.symm, hchain⟩
    have hproxies : ∀ b, b ≠ a → (s₂.accounts.row b).proxy = (s.accounts.row b).proxy := fun b hb => by
      rw [hrow b hb]
      exact hs.ballots.proxy b
    obtain ⟨hvoter, hclear⟩ := voterOf_congr hfree hproxies
    have harrival : s₂.arrival 4 a (voteArray (s.accounts.row a)) = s.putOn a p := by
      unfold putOn arrival
      show (s₂.voterOf (3 + 1) a).bind _ = (s.voterOf 3 p).bind _
      rw [voterOf, if_pos (by rw [hproxy]; exact hp), hproxy, hvoter]
      cases hv : s.voterOf 3 p with
      | none => rfl
      | some t =>
          show s₂.split t.1 _ = s.split t.1 _
          unfold split
          rw [hrow t.1 (hclear t hv), hs.ballots.votedFor]
    exact harrival ▸ hon

/-! ## Steps -/

/-- **What changes votes and weights**: the two evaluators, and shares that come or go. -/
inductive TallyStep
  | vote (account validator : AccountName) (approve : Bool)
  | proxy (account proxy : AccountName)
  | createVesting (account : AccountName) (tokens : Int)
  | withdraw (account : AccountName)

def TallyStep.run (names : Names) (s : Ledger) : TallyStep → Result Ledger
  | .vote a v approve     => s.accountValidatorVote a v approve
  | .proxy a p            => accountValidatorProxy names s a p
  | .createVesting a x    => s.createVesting a x
  | .withdraw a           => s.withdrawFrom a

/-- **A clean step**: what it takes off, the voter can bear, and whoever leaves for a proxy takes off what it weighs. -/
def Clean (s : Ledger) : TallyStep → Prop
  | .vote a _ approve  =>
      a ∉ s.chainOf Config.maxProxyRecursionDepth a ∧ s.poll.Bears (s.unproxied a) ∧ 0 ≤ s.newWeight a approve
  | .proxy a p         =>
      s.poll.Bears (s.takenOff a) ∧
        (p ≠ 0 → (s.poll.effect (s.takenOff a)).weight a = 0 ∧ ∀ t, s.putOn a p = some t → 0 ≤ t.2)
  | .createVesting a x =>
      ∀ n, s.tokensToShares x = .ok n → s.poll.Bears (s.arrival Config.maxProxyRecursionDepth a (single n))
  | .withdraw a        =>
      ∀ w, withdrawalAmount (s.accounts.row a) = .ok w → 0 < w →
        s.poll.Bears (s.arrival Config.maxProxyRecursionDepth a (single (-w)))

instance {n : Result Int} {p : Int → Prop} [DecidablePred p] : Decidable (∀ x, n = .ok x → p x) :=
  match n with
  | .ok x    => decidable_of_iff (p x) ⟨fun h _ he => Except.ok.inj he ▸ h, fun h => h x rfl⟩
  | .error _ => .isTrue fun _ he => by cases he

instance : ∀ t, Decidable (s.Clean t)
  | .vote ..        => inferInstanceAs (Decidable (_ ∧ _ ∧ _))
  | .proxy a p      => inferInstanceAs (Decidable (_ ∧ (p ≠ 0 → _ ∧ ∀ t ∈ s.putOn a p, _)))
  | .createVesting .. => inferInstanceAs (Decidable (∀ n, _ = Except.ok n → _))
  | .withdraw ..    => inferInstanceAs (Decidable (∀ w, _ = Except.ok w → (0 < w → _)))

theorem split_nonneg {t : AccountName × Int} (hx : 0 ≤ x) (h : s.split a x = some t) : 0 ≤ t.2 := by
  unfold split at h
  by_cases hv : 0 < (s.accounts.row a).validatorsVotedFor
  · rw [if_pos hv] at h
    exact (Option.some.inj h) ▸ Int.tdiv_nonneg hx (by omega)
  · rw [if_neg hv] at h
    cases h

/-- What comes with shares is no loss to anybody. -/
theorem arrival_nonneg {left : Nat} {n : Int} {t : AccountName × Int} (hn : 0 ≤ n)
    (h : s.arrival left a (single n) = some t) : 0 ≤ t.2 := by
  obtain ⟨u, -, hsplit⟩ := Option.bind_eq_some_iff.mp h
  refine split_nonneg (List.sum_nonneg fun y hy => ?_) hsplit
  obtain ⟨i, -, rfl⟩ := List.mem_map.mp hy
  unfold single
  split
  · exact hn
  · exact le_rfl

theorem broughtBy_nonneg {w : Int} {to_ : AccountName × Route} {t : AccountName × Int}
    (h : s.broughtBy w to_ = some t) : 0 ≤ t.2 := by
  unfold broughtBy at h
  by_cases hc : to_.2.autoVest = true ∧ 0 < routeDeposit w to_.2
  · rw [if_pos hc] at h
    exact arrival_nonneg hc.2.le h
  · rw [if_neg hc] at h
    cases h

/-- **The routes of a withdrawal only add**, so what the account's own voter could bear before, it can bear after them. -/
theorem withdrawals_tallied {w : Int} (h : Shifted (s.withdrawals a w) s s') (ht : s.Tallied)
    (hbears : 0 < w → s.poll.Bears (s.arrival Config.maxProxyRecursionDepth a (single (-w)))) : s'.Tallied := by
  rw [tallied_iff] at ht ⊢
  have hadd : ∀ t, some t ∈ (s.routesOf a).map (s.broughtBy w) → 0 ≤ t.2 := by
    intro t hm
    obtain ⟨to_, -, he⟩ := List.mem_map.mp hm
    exact broughtBy_nonneg he
  have hmem : ∀ t, some t ∈ (s.routesOf a).map (s.broughtBy w) → t.1 ∈ s.accounts.keys :=
    fun t hm => h.mem t (List.mem_append_left _ hm)
  have hin := ht.effects s.accounts.nodup hmem hadd
  rw [h.poll, h.ballots.accounts, h.ballots.validators]
  unfold withdrawals
  rw [List.foldl_append]
  refine hin.effect s.accounts.nodup (fun t he => h.mem t (List.mem_append_right _ (he ▸ List.mem_singleton_self _))) ?_
  by_cases hw : 0 < w
  · rw [if_pos hw]
    have hb := hbears hw
    cases he : s.arrival Config.maxProxyRecursionDepth a (single (-w)) with
    | none => exact trivial
    | some t =>
        rw [he] at hb
        have hle := Poll.weight_le_effects (p := s.poll) (a := t.1) hadd
        exact le_trans hb (Int.add_le_add_right hle _)
  · rw [if_neg hw]
    exact trivial

/-- **A clean step keeps the tally.** -/
theorem TallyStep.tallied {step : TallyStep} (hfork : s.hasHardfork 5 = true) (ht : s.Tallied) (hclean : s.Clean step)
    (h : step.run names s = .ok s') : s'.Tallied ∧ SameSeats s s' := by
  cases step with
  | vote a v approve =>
      obtain ⟨hchain, hoff, hw⟩ := hclean
      obtain ⟨s₁, hs, ha, hpoll, hseats⟩ := accountValidatorVote_poll hfork hchain h
      refine ⟨?_, hseats⟩
      have h₁ := tallied_iff.mp (hs.tallied ht hoff)
      rw [hs.ballots.accounts, hs.ballots.validators] at h₁
      rw [tallied_iff, hpoll, hseats.accounts, hseats.validators]
      exact h₁.recast s.accounts.nodup ha hw
  | proxy a p =>
      obtain ⟨hoff, hleave⟩ := hclean
      obtain ⟨s₁, hs, ha, -, hnone, hsome⟩ := accountValidatorProxy_poll hfork h
      have h₁ := tallied_iff.mp (hs.tallied ht hoff)
      rw [hs.ballots.accounts, hs.ballots.validators] at h₁
      by_cases hp : p = 0
      · obtain ⟨hpoll, hseats⟩ := hnone hp
        rw [tallied_iff, hpoll, hseats.accounts, hseats.validators]
        exact ⟨h₁, hseats⟩
      · obtain ⟨hzero, hon⟩ := hleave hp
        obtain ⟨s₂, hpoll₂, hseats₂, hs₂⟩ := hsome hp
        have hsound := h₁.leave s.accounts.nodup ha (hs.poll ▸ hzero)
        rw [← hpoll₂, ← hseats₂.accounts, ← hseats₂.validators] at hsound
        refine ⟨hs₂.tallied (tallied_iff.mpr hsound) ?_, hseats₂.trans hs₂.ballots.seats⟩
        cases he : s.putOn a p with
        | none => exact trivial
        | some t =>
            have hw := hsound.weighs t.1 (hs₂.mem t (he ▸ List.mem_singleton_self _))
            exact Int.add_nonneg hw (hon t he)
  | createVesting a x =>
      obtain ⟨n, hn, hs⟩ := createVesting_shifted hfork h
      exact ⟨hs.tallied ht (hclean n hn), hs.ballots.seats⟩
  | withdraw a =>
      obtain ⟨w, hw, hs⟩ := withdrawFrom_shifted hfork h
      exact ⟨withdrawals_tallied hs ht (hclean w hw), hs.ballots.seats⟩

/-! ## Runs -/

/-- **Any order of clean steps**, with whatever else in between that leaves the poll alone. -/
inductive TallyRun (names : Names) (s : Ledger) : Ledger → Prop
  | refl : TallyRun names s s
  | step {s₁ s₂ : Ledger} {t : TallyStep} (h : TallyRun names s s₁) (hclean : s₁.Clean t)
      (ht : t.run names s₁ = .ok s₂) : TallyRun names s s₂
  | aside {s₁ s₂ : Ledger} (h : TallyRun names s s₁) (hpoll : s₂.poll = s₁.poll) (hseats : SameSeats s₁ s₂) :
      TallyRun names s s₂

namespace Sample

/-- Two accounts with shares; Alice is a validator. -/
def polled : Ledger :=
  { start with
    accounts           := (Table.empty.insert alice { vestingShares := 2000 }).insert bob { vestingShares := 1000 }
    validators         := Table.empty.insert alice { rate_le := Nat.zero_le _ }
    totalVestingShares := 3000 }

end Sample

end Ledger

end VizNode
