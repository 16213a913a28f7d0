import VizNode.Ledger.Evaluations

/-!
# `VizNode.Ledger.Stakes` — what the evaluators of shares and votes do to the bank

The evaluators of the last two sections of `VizNode.Ledger.Evaluators`. A withdrawal that is planned, a route,
a delegation and a proxy are one move each; votes are not on the bank.

## Contents
- **Withdrawals.** `withdrawVesting_course`, and the routes with their 16-bit sum.
- **Delegations.** `delegateVestingShares_course`.
- **Votes.** `checkProxyChain_free`, what the loop check says about the whole chain; `accountValidatorProxy_course`,
  `accountValidatorVote_course`.
-/

namespace VizNode

namespace Ledger

open Bank Forest

variable {s s' : Ledger} {a : AccountName} {P : Terms} {names : Names}

/-! ## Withdrawals -/

theorem transferToVesting_course {from_ to_ : AccountName} {amount : Nat}
    (h : s.transferToVesting from_ to_ amount = .ok s') : Course P 0 s.bank s'.bank := by
  simp only [transferToVesting, bind_eq_ok, require_eq_ok, getAccount_eq_ok] at h
  obtain ⟨-, -, -, ⟨hf, rfl⟩, -, -, -, hle, h⟩ := h
  exact (Course.trans (.debit hf hle) (.vest h)).cast (add_neg_cancel _)

theorem withdrawVesting_course {shares : Nat} (h : s.withdrawVesting a shares = .ok s')
    (hk : InOrder 0 s.bank ∧ P.signed → a ∉ Config.keyless) : Course P 0 s.bank s'.bank := by
  simp only [withdrawVesting, bind_eq_ok, require_eq_ok, getAccount_eq_ok] at h
  obtain ⟨-, ⟨ha, rfl⟩, -, -, -, hle, h⟩ := h
  have hle : (shares : Int) ≤ (s.accounts.row a).vestingShares - (s.accounts.row a).delegatedVestingShares := hle
  by_cases hzero : shares = 0
  · rw [if_pos hzero, pure_eq_ok] at h
    rw [← h, bank_modifyAccount (g := .planned 0 Config.maximumTime 0) rfl]
    refine .of_moves (.of (.plan _ _ _ ha hk (fun _ => ?_)))
    rw [hzero] at hle
    exact hle
  · rw [if_neg hzero] at h
    simp only [bind_eq_ok, pure_eq_ok] at h
    obtain ⟨-, -, rfl⟩ := h
    rw [bank_modifyAccount (g := .planned (s.newWithdrawRate (s.accounts.row a) shares)
      (s.time + Config.vestingWithdrawIntervalSeconds) shares) rfl]
    exact .of_moves (.of (.plan _ _ _ ha hk (fun _ => hle)))

/-- The part of one receiver in what an account routes. -/
def routed (routes : Table (AccountName × AccountName) Route) (a to_ : AccountName) : Nat :=
  ((routes.find (a, to_)).map Route.percent).getD 0

/-- What an account routes, receiver by receiver. -/
theorem routesFrom_sum {keys : List AccountName} {routes : Table (AccountName × AccountName) Route} :
    ((routesFrom keys routes a).map (fun r => r.2.percent)).sum = ((keys.drop 1).map (routed routes a)).sum := by
  unfold routesFrom
  induction keys.drop 1 with
  | nil => rfl
  | cons to_ rest ih =>
      rw [List.filterMap_cons, List.map_cons, List.sum_cons, ← ih]
      unfold routed
      cases routes.find (a, to_) with
      | none => exact (Nat.zero_add _).symm
      | some r => rfl

/-- A sum with one part changed. -/
theorem sum_le_of_one {l : List AccountName} {f g : AccountName → Nat} {k : AccountName} {c : Nat} (hl : l.Nodup)
    (hne : ∀ j ∈ l, j ≠ k → g j = f j) (hk : g k ≤ c) : (l.map g).sum ≤ (l.map f).sum + c := by
  induction l with
  | nil => exact Nat.zero_le _
  | cons x l ih =>
      have hl := List.nodup_cons.mp hl
      rw [List.map_cons, List.map_cons, List.sum_cons, List.sum_cons]
      by_cases hx : x = k
      · -- the changed part comes once
        have hrest : l.map g = l.map f :=
          List.map_congr_left (fun j hj => hne j (List.mem_cons_of_mem x hj) (fun he => hl.1 (hx ▸ he ▸ hj)))
        rw [hrest, hx]
        omega
      · have := ih hl.2 (fun j hj => hne j (List.mem_cons_of_mem x hj))
        rw [hne x List.mem_cons_self hx]
        omega

/-- **A new route keeps the routes in order.** The source adds the percentages up in 16 bits; from routes in
    order one more cannot make that sum wrap. -/
theorem RoutesWithin.setRoute {keys : List AccountName} {routes routes' : Table (AccountName × AccountName) Route}
    {from_ to_ : AccountName} (h : RoutesWithin keys routes) (hkeys : keys.Nodup) (hto : to_ ∈ keys)
    (hknown : ∀ key ∈ routes'.keys, key ∈ routes.keys ∨ key = (from_, to_))
    (hne : ∀ key, key ≠ (from_, to_) → routes'.find key = routes.find key)
    (hpart : routed routes' from_ to_ ≤ Config.hundredPercent)
    (hsum : ((routesFrom keys routes' from_).map (fun r => r.2.percent)).sum % 2 ^ 16 ≤ Config.hundredPercent) :
    RoutesWithin keys routes' where
  known  := by
    intro key hkey
    rcases hknown key hkey with hkey | rfl
    · exact h.known key hkey
    · exact hto
  within := by
    intro c
    by_cases hc : c = from_
    · have hold := h.within from_
      rw [routesFrom_sum] at hsum hold
      have hle := sum_le_of_one (f := routed routes from_) (g := routed routes' from_) (k := to_)
        (hkeys.sublist (List.drop_sublist 1 keys))
        (fun j _ hj => by
          unfold routed
          rw [hne _ (fun he => hj (congrArg Prod.snd he))]) hpart
      have hsmall : ((keys.drop 1).map (routed routes' from_)).sum < 2 ^ 16 := by
        unfold Config.hundredPercent at *
        omega
      rw [Nat.mod_eq_of_lt hsmall] at hsum
      rw [hc, routesFrom_sum]
      exact hsum
    · have hsame : routesFrom keys routes' c = routesFrom keys routes c := by
        unfold routesFrom
        congr 1
        funext j
        rw [hne _ (fun he => hc (congrArg Prod.fst he))]
      rw [hsame]
      exact h.within c

/-- The routes change, and the number of routes that the account keeps. -/
theorem Course.reroute {f : Account → Account} {routes : Table (AccountName × AccountName) Route}
    (hf : (f (s.accounts.row a)).toAccountBook = (s.accounts.row a).toAccountBook)
    (h : InOrder 0 s.bank ∧ P.signed → RoutesWithin s.accounts.keys routes) :
    Course P 0 s.bank (modifyAccount { s with routes := routes } a f).bank := by
  rw [bank_modifyAccount_same (s := { s with routes := routes }) hf]
  exact .of_moves (.of (.reroute h))

theorem setWithdrawVestingRoute_course {o : SetWithdrawVestingRoute}
    (h : s.setWithdrawVestingRoute o = .ok s') : Course P 0 s.bank s'.bank := by
  simp only [setWithdrawVestingRoute, bind_eq_ok, require_eq_ok, getAccount_eq_ok] at h
  obtain ⟨-, hpct, -, ⟨hf, rfl⟩, -, ⟨hto, -⟩, h⟩ := h
  cases hfind : s.routes.find (o.fromAccount, o.toAccount) with
  | none =>
      have hkey := Table.find_eq_none.mp hfind
      rw [hfind] at h
      simp only [bind_eq_ok, require_eq_ok, pure_eq_ok] at h
      obtain ⟨-, -, -, -, s₁, rfl, -, hsum, rfl⟩ := h
      refine .reroute rfl (fun hb => RoutesWithin.setRoute hb.1.routes s.accounts.nodup hto ?_ ?_ ?_ hsum)
      · exact fun key hk => (Table.mem_insert_keys hkey).mp hk
      · exact fun key hne => Table.find_insert_of_ne hkey hne
      · unfold routed
        rw [Table.find_insert_self hkey]
        exact hpct
  | some r =>
      have hkey := (Table.find_eq_some.mp hfind).1
      rw [hfind] at h
      dsimp only at h
      by_cases hzero : o.percent = 0
      · rw [if_pos hzero] at h
        simp only [bind_eq_ok, require_eq_ok, pure_eq_ok] at h
        obtain ⟨s₁, rfl, -, hsum, rfl⟩ := h
        refine .reroute rfl (fun hb => RoutesWithin.setRoute hb.1.routes s.accounts.nodup hto ?_ ?_ ?_ hsum)
        · exact fun key hk => .inl (Table.mem_erase_keys.mp hk).2
        · exact fun key hne => Table.find_erase_of_ne hne
        · unfold routed
          rw [Table.find_erase_self]
          exact Nat.zero_le _
      · rw [if_neg hzero] at h
        simp only [bind_eq_ok, require_eq_ok, pure_eq_ok] at h
        obtain ⟨s₁, rfl, -, hsum, rfl⟩ := h
        refine .of_moves (.of (.reroute (fun hb =>
          RoutesWithin.setRoute hb.1.routes s.accounts.nodup hto ?_ ?_ ?_ hsum)))
        · exact fun key hk => .inl hk
        · exact fun key hne => Table.find_modify_of_ne hne
        · unfold routed
          rw [Table.find_modify_self hkey]
          exact hpct

/-! ## Delegations -/

theorem lent_eq {key : AccountName × AccountName} :
    s.bank.lent key = ((s.delegations.find key).map Delegation.vestingShares).getD 0 := by
  show ((s.delegations.mapRows Delegation.vestingShares).find key).getD 0 = _
  rw [Table.mapRows_find]

/-- What an account lends another is set anew, as the evaluator does it. -/
def setDelegation (s : Ledger) (key : AccountName × AccountName) (shares : Nat) : Ledger :=
  if 0 < shares then { s with delegations := s.delegations.modify key (fun d => { d with vestingShares := shares }) }
  else { s with delegations := s.delegations.erase key }

theorem setDelegation_eq_ok {key : AccountName × AccountName} {shares : Nat}
    (h : (if 0 < shares
      then pure { s with delegations := s.delegations.modify key (fun d => { d with vestingShares := shares }) }
      else pure { s with delegations := s.delegations.erase key } : Result Ledger) = .ok s') :
    s.setDelegation key shares = s' := by
  unfold setDelegation
  by_cases hpos : 0 < shares
  · rw [if_pos hpos, pure_eq_ok] at h
    rw [if_pos hpos, h]
  · rw [if_neg hpos, pure_eq_ok] at h
    rw [if_neg hpos, h]

theorem bank_setDelegation {key : AccountName × AccountName} {shares : Nat} (hkey : key ∈ s.delegations.keys) :
    (s.setDelegation key shares).bank = { s.bank with delegations := s.bank.delegations.setTo key shares } := by
  unfold setDelegation Table.setTo
  by_cases h : 0 < shares
  · rw [if_pos h, if_neg (by omega), if_pos (by exact hkey)]
    unfold bank
    dsimp only
    rw [Table.mapRows_modify_of (e := fun _ => (shares : Int)) rfl]
    rfl
  · rw [if_neg h, if_pos (by omega)]
    rfl

theorem delegateVestingShares_course {x y : AccountName} {shares : Nat}
    (h : s.delegateVestingShares x y shares = .ok s') (hk : InOrder 0 s.bank ∧ P.signed → x ∉ Config.keyless) :
    Course P 0 s.bank s'.bank := by
  simp only [delegateVestingShares, bind_eq_ok, require_eq_ok, requireIf_eq_ok, getAccount_eq_ok] at h
  obtain ⟨-, hxy, -, ⟨hx, rfl⟩, -, ⟨hy, -⟩, -, hsome, least, -, h⟩ := h
  rw [← lent_eq] at h
  -- more is lent
  have hmore : ∀ {s₃ : Ledger}, (shares : Int) - s.bank.lent (x, y) ≤ (s.accounts.row x).availableVestingShares true →
      s₃.bank = { s.bank with
        accounts    := (s.bank.accounts.modify x (.addDelegated (shares - s.bank.lent (x, y)))).modify y
          (.addReceived (shares - s.bank.lent (x, y)))
        delegations := s.bank.delegations.setTo (x, y) shares } → Course P 0 s.bank s₃.bank := by
    intro s₃ hav hb
    rw [hb]
    refine .of_moves (.of (.delegate hx hy hxy hk (fun _ => ?_)))
    unfold Account.availableVestingShares at hav
    rw [if_pos rfl] at hav
    dsimp only [bank_row]
    omega
  cases hfind : s.delegations.find (x, y) with
  | none =>
      have hkey : (x, y) ∉ s.delegations.keys := Table.find_eq_none.mp hfind
      have hshares : shares ≠ 0 := hsome (by rw [hfind]; rfl)
      have hlent : s.bank.lent (x, y) = 0 := by rw [lent_eq, hfind]; rfl
      rw [if_pos (by rw [hlent]; omega)] at h
      simp only [hfind, Option.isNone_none, if_true, bind_eq_ok, require_eq_ok, requireIf_eq_ok, pure_eq_ok] at h
      obtain ⟨-, hav, -, -, -, -, s₃, hs₃, rfl⟩ := h
      refine hmore hav ?_
      have hset : s.bank.delegations.setTo (x, y) shares = s.bank.delegations.insert (x, y) shares := by
        unfold Table.setTo
        rw [if_neg (by omega), if_neg (by exact hkey)]
      rw [bank_modifyAccount (g := .addReceived (shares - s.bank.lent (x, y))) rfl, ← hs₃,
        bank_modifyAccount (g := .addDelegated (shares - s.bank.lent (x, y))) rfl, bank_sharesSenderRecalcEnergy,
        bank_insertDelegation, hset]
      rfl
  | some d =>
      have hkey : (x, y) ∈ s.delegations.keys := (Table.find_eq_some.mp hfind).1
      by_cases hd : 0 < (shares : Int) - s.bank.lent (x, y)
      · rw [if_pos hd] at h
        simp only [hfind, Option.isNone_some, Bool.false_eq_true, if_false, bind_eq_ok, require_eq_ok,
          requireIf_eq_ok, pure_eq_ok] at h
        obtain ⟨-, hav, -, -, -, -, s₃, hs₃, h⟩ := h
        have hkey₃ : (x, y) ∈ s₃.delegations.keys := hs₃ ▸ hkey
        refine hmore hav ?_
        rw [← setDelegation_eq_ok h, bank_setDelegation (by exact hkey₃),
          bank_modifyAccount (g := .addReceived (shares - s.bank.lent (x, y))) rfl, ← hs₃,
          bank_modifyAccount (g := .addDelegated (shares - s.bank.lent (x, y))) rfl, bank_sharesSenderRecalcEnergy]
        rfl
      · rw [if_neg hd] at h
        simp only [hfind, Option.isNone_some, Bool.false_eq_true, if_false, bind_eq_ok, require_eq_ok,
          pure_eq_ok] at h
        obtain ⟨-, -, s₃, hs₃, h⟩ := h
        -- less is lent, and the rest is on its way back
        have hkey₃ : (x, y) ∈ s₃.delegations.keys := hs₃ ▸ hkey
        rw [← setDelegation_eq_ok h, bank_setDelegation (by exact hkey₃),
          bank_modifyAccount (g := .addReceived (shares - s.bank.lent (x, y))) rfl]
        have hback : s₃.bank = { s.bank with
            expirations := s.bank.expirations ++ [(x, -(shares - s.bank.lent (x, y)))] } := by
          rw [← hs₃]
          unfold bank
          dsimp only
          rw [List.map_append]
          rfl
        rw [hback]
        exact .of_moves (.of (.undelegate hx hy hk (fun _ => by omega)))

/-! ## Votes -/

/-- **The loop check covers the whole chain.** It ends only where an account has no proxy, and on the way it
    has met nobody it had seen before. -/
theorem checkProxyChain_free {n : Nat} {seen : List AccountName} {name : AccountName} {u : Unit}
    (h : s.checkProxyChain n seen name = .ok u) (ha : a ∈ seen) (hne : name ≠ a) :
    ∀ k, climb (proxyOf s.bank.accounts) k name ≠ some a := by
  induction n generalizing seen name with
  | zero => cases h
  | succ n ih =>
      simp only [checkProxyChain, bind_eq_ok, getAccount_eq_ok] at h
      obtain ⟨-, ⟨hname, rfl⟩, h⟩ := h
      intro k hk
      cases k with
      | zero => exact hne (Option.some.inj hk)
      | succ k =>
          rw [climb_succ] at hk
          by_cases hp : (s.accounts.row name).proxy ≠ 0
          · rw [if_pos hp] at h
            simp only [bind_eq_ok, require_eq_ok] at h
            obtain ⟨-, -, -, hseen, -, -, h⟩ := h
            rw [bank_proxyOf hname hp, Option.bind_some] at hk
            exact ih h (List.mem_cons_of_mem _ ha) (fun he => hseen (he ▸ ha)) k hk
          · rw [proxyOf_eq_none (t := s.bank.accounts) (not_not.mp hp)] at hk
            cases hk

/-- Nothing is carried up from an account without a proxy. -/
theorem Spread.root {t : Table AccountName AccountBook} {δ : Nat → Int} (h : (t.row a).proxy = 0) :
    Spread a δ t t where
  keys := rfl
  row  := by
    intro c _
    refine (AccountBook.countMore_zero (fun d _ => ?_) _).symm
    rw [← liftedFrom_zero]
    exact liftedFrom_root (proxyOf_eq_none h)

theorem voteArray_eq {r : Account} : voteArray r = r.toAccountBook.counts := by
  funext i
  cases i with
  | zero   => rfl
  | succ i => rfl

/-- **Another proxy**: the two passes of the source are the one move of the bank. -/
theorem setProxy_course {s₁ s₂ s₃ : Ledger} {q : AccountName} (ha : a ∈ s.accounts.keys)
    (hk : InOrder 0 s.bank ∧ P.signed → a ∉ Config.keyless)
    (h₁ : s.adjustProxiedValidatorVotesArray a (fun i => -voteArray (s.accounts.row a) i) = .ok s₁)
    (hq : q ≠ 0 → q ∈ s.accounts.keys ∧ ∀ k, climb (proxyOf s.bank.accounts) k q ≠ some a)
    (h₂ : s₂.bank = s₁.bank.edit a (.withProxy q))
    (h₃ : s₃.bank = { s₂.bank with accounts := s₃.bank.accounts })
    (hspread : Spread a (voteArray (s.accounts.row a)) s₂.bank.accounts s₃.bank.accounts) :
    Course P 0 s.bank s₃.bank := by
  have hc₁ := adjustProxiedValidatorVotesArray_carried h₁
  have hs₁ := hc₁.spread
  rw [voteArray_eq] at hs₁ hspread
  have haccounts : s₂.bank.accounts = s₁.bank.accounts.modify a (.withProxy q) :=
    congrArg (fun b : Bank => b.accounts) h₂
  rw [haccounts] at hspread
  rw [h₃, h₂, hc₁.bank_eq]
  exact .of_moves (.of (.setProxy ha hk hq hs₁ hspread))

/-- The proxy goes. -/
theorem clearProxy_course {s₁ : Ledger} (ha : a ∈ s.accounts.keys) (hk : InOrder 0 s.bank ∧ P.signed → a ∉ Config.keyless)
    (h₁ : s.adjustProxiedValidatorVotesArray a (fun i => -voteArray (s.accounts.row a) i) = .ok s₁) :
    Course P 0 s.bank (s₁.modifyAccount a (fun r => { r with proxy := 0 })).bank := by
  refine setProxy_course (q := 0) ha hk h₁ (fun he => absurd rfl he) (bank_modifyAccount rfl) rfl (Spread.root ?_)
  rw [bank_modifyAccount (g := .withProxy 0) rfl]
  show ((s₁.bank.accounts.modify a (.withProxy 0)).row a).proxy = 0
  rw [Table.modify_row_self]
  rfl

/-- The votes of an account are removed. -/
theorem bank_clearValidatorVotes : (s.clearValidatorVotes a).bank = s.bank :=
  bank_modifyAccount_same (s := s.removeVotes a) rfl

theorem accountValidatorProxy_course {account proxy : AccountName}
    (h : accountValidatorProxy names s account proxy = .ok s')
    (hk : InOrder 0 s.bank ∧ P.signed → account ∉ Config.keyless) : Course P 0 s.bank s'.bank := by
  simp only [accountValidatorProxy, bind_eq_ok, require_eq_ok, getAccount_eq_ok] at h
  obtain ⟨-, ⟨-, hne⟩, -, ⟨ha, rfl⟩, -, -, s₁, h₁, h⟩ := h
  have hc₁ := adjustProxiedValidatorVotesArray_carried h₁
  have hup : proxyOf s₁.bank.accounts = proxyOf s.bank.accounts :=
    proxyOf_same (hc₁.spread.same (fun _ _ => rfl))
  by_cases hp : proxy ≠ 0
  · rw [if_pos hp] at h
    simp only [bind_eq_ok, getAccount_eq_ok] at h
    obtain ⟨-, ⟨hproxy, -⟩, u, hcheck, h⟩ := h
    have hc₂ := adjustProxiedValidatorVotesArray_carried h
    refine setProxy_course (q := proxy) ha hk h₁ (fun _ => ⟨hc₁.keys ▸ hproxy, ?_⟩) ?_ hc₂.bank_eq hc₂.spread
    · rw [← hup]
      exact checkProxyChain_free hcheck (List.mem_cons_of_mem _ List.mem_cons_self) hne
    · rw [bank_modifyAccount (g := .withProxy proxy) rfl, bank_clearValidatorVotes]
  · rw [if_neg hp, pure_eq_ok] at h
    rw [← h, not_not.mp hp]
    exact clearProxy_course ha hk h₁

/-- The vote object and the vote count of an account are not on the bank. -/
theorem bank_setVote {validator : AccountName} {approve : Bool} :
    (s.setVote a validator approve).bank = s.bank :=
  bank_modifyAccount_same rfl

theorem revote_bank {validator : AccountName} {approve : Bool} (h : s.revote a validator approve = .ok s') :
    s'.bank = s.bank := by
  simp only [revote, bind_eq_ok, getAccount_eq_ok] at h
  obtain ⟨r, -, h⟩ := h
  by_cases h₅ : s.hasHardfork 5
  · rw [if_pos h₅] at h
    simp only [bind_eq_ok] at h
    obtain ⟨s₁, h₁, h⟩ := h
    rw [(adjustEach_voting h).bank_eq, bank_modifyAccount_same rfl, bank_setVote, (adjustEach_voting h₁).bank_eq]
  · rw [if_neg h₅] at h
    by_cases h₄ : s.hasHardfork 4
    · rw [if_pos h₄] at h
      simp only [bind_eq_ok] at h
      obtain ⟨s₁, h₁, h⟩ := h
      rw [(adjustEach_voting h).bank_eq, bank_setVote, (adjustEach_voting h₁).bank_eq]
    · rw [if_neg h₄] at h
      simp only [bind_eq_ok, pure_eq_ok] at h
      obtain ⟨s₁, h₁, rfl⟩ := h
      rw [bank_setVote, (adjustValidatorVote_voting h₁).bank_eq]

theorem accountValidatorVote_course {account validator : AccountName} {approve : Bool}
    (h : s.accountValidatorVote account validator approve = .ok s')
    (hk : InOrder 0 s.bank ∧ P.signed → account ∉ Config.keyless) : Course P 0 s.bank s'.bank := by
  simp only [accountValidatorVote, bind_eq_ok, requireIf_eq_ok, getAccount_eq_ok] at h
  obtain ⟨-, ⟨ha, rfl⟩, -, -, h⟩ := h
  -- the vote itself is not seen
  have hrest : ∀ {s₁ : Ledger}, (do
      let _ ← s₁.getValidator validator
      if (account, validator) ∈ s₁.votes.keys then
        require (approve = false) .voteExists
        s₁.revote account validator false
      else
        require (approve = true) .voteMissing
        let limit := if s₁.hasHardfork 4
          then Config.maxAccountValidatorVotes else Config.maxAccountValidatorVotesPreHf4
        require ((s₁.accounts.row account).validatorsVotedFor < limit) .tooManyVotes
        s₁.revote account validator true) = Except.ok s' → s'.bank = s₁.bank := by
    intro s₁ hs₁
    simp only [bind_eq_ok] at hs₁
    obtain ⟨-, -, hs₁⟩ := hs₁
    by_cases hv : (account, validator) ∈ s₁.votes.keys
    · rw [if_pos hv] at hs₁
      simp only [bind_eq_ok] at hs₁
      obtain ⟨-, -, hs₁⟩ := hs₁
      exact revote_bank hs₁
    · rw [if_neg hv] at hs₁
      simp only [bind_eq_ok] at hs₁
      obtain ⟨-, -, -, -, hs₁⟩ := hs₁
      exact revote_bank hs₁
  by_cases hp : (s.accounts.row account).proxy ≠ 0
  · rw [if_pos hp] at h
    simp only [bind_eq_ok, pure_eq_ok] at h
    obtain ⟨s₁, h₁, s₂, rfl, h⟩ := h
    rw [hrest (by simp only [bind_eq_ok]; exact h)]
    exact clearProxy_course ha hk h₁
  · rw [if_neg hp] at h
    simp only [bind_eq_ok, pure_eq_ok] at h
    obtain ⟨s₁, rfl, h⟩ := h
    exact .of_eq (hrest (by simp only [bind_eq_ok]; exact h))

end Ledger

end VizNode
