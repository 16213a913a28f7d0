import VizNode.Ledger.Walks
import VizNode.Lib.Places
import Mathlib.Tactic.Ring

/-!
# `VizNode.Ledger.Instalments` — a withdrawal from the first instalment to the last

An account that asks for shares has them in instalments. Each instalment is a turn of the account: it takes the rate,
or what is left when that is less, and divides it among the routes of the account and the account itself.

**The instalments add up.** Whatever else a node does in between, they come to what was asked for, in as many turns as
the rate goes into it, rounded up. The argument is the state of the plan after so many turns, `Stage`.

**Each instalment is divided as the routes say**, if the account has no route to the first account of all. The search
for the routes begins behind that one, so a route to it is accepted and never paid.

## Contents
- **The parts.** `routesFor`, `rest`, `Sold`, and `PaidOut`, what a turn should do.
- **A turn.** `withdrawFrom_paidOut`.
- **The plan.** `Stage` and one turn of it.
- **Runs.** `Paying`, `Asked`, and the course of a withdrawal.
- **Blocks.** A block gives a turn to everybody whose turn is due.
-/

namespace VizNode

namespace Ledger

open Bank

variable {s s' : Ledger} {a c : AccountName} {w : Int} {names : Names}

/-! ## The parts -/

/-- The routes of an account, to whomever they lead. -/
def routesFor (s : Ledger) (name : AccountName) : List (AccountName × Route) :=
  s.accounts.keys.filterMap (fun to_ => (s.routes.find (name, to_)).map (fun r => (to_, r)))

/-- What of `w` shares the routes leave to the account itself. -/
def rest (s : Ledger) (name : AccountName) (w : Int) : Int :=
  w - ((s.routesFor name).map (fun r => routeDeposit w r.2)).sum

/-- What a route keeps as shares for an account. -/
def vested (s : Ledger) (name : AccountName) (w : Int) (c : AccountName) : Int :=
  (s.routes.find (name, c)).elim 0 (fun r => if r.autoVest then routeDeposit w r else 0)

/-- The parts that become tokens, in the order in which they do; that of the account itself is the last. -/
def sales (s : Ledger) (name : AccountName) (w : Int) : List (AccountName × Int) :=
  ((s.routesFor name).filter (fun r => !r.2.autoVest)).map (fun r => (r.1, routeDeposit w r.2)) ++
    [(name, s.rest name w)]

/-- The vesting fund, and the shares in it. -/
def pool (s : Ledger) : Int × Int := (s.totalVestingFund, s.totalVestingShares)

/-- What shares are worth in tokens. -/
def worth (p : Int × Int) (shares : Int) : Result Int :=
  if p.1 = 0 ∨ p.2 = 0 then mulDiv shares 1000 1000000 else mulDiv shares p.1 p.2

/-- **Parts are sold**, one after another, each at the price the ones before it leave. -/
inductive Sold : Int × Int → List (AccountName × Int) → List (AccountName × Int) → Int × Int → Prop
  | nil (p : Int × Int) : Sold p [] [] p
  | cons {p p' : Int × Int} {c : AccountName} {d t : Int} {l paid : List (AccountName × Int)} (h : worth p d = .ok t)
      (hl : Sold (p.1 - t, p.2 - d) l paid p') : Sold p ((c, d) :: l) ((c, t) :: paid) p'

/-- What an account has of the amounts in a list. -/
def receipts (l : List (AccountName × Int)) (c : AccountName) : Int :=
  (l.map (fun e => if e.1 = c then e.2 else 0)).sum

/-- **A turn that pays `w` shares out.** Every route has its part of them, as shares or sold; what the routes leave is
    sold for the account itself, and the account gives all of it. -/
structure PaidOut (name : AccountName) (w : Int) (s s' : Ledger) : Prop where
  rest_nonneg : 0 ≤ s.rest name w
  shares      : ∀ c ∈ s.accounts.keys, (s'.accounts.row c).vestingShares =
    (s.accounts.row c).vestingShares + s.vested name w c - if c = name then w else 0
  tokens      : ∃ paid, Sold s.pool (s.sales name w) paid s'.pool ∧ ∀ c ∈ s.accounts.keys,
    (s'.accounts.row c).balance = (s.accounts.row c).balance + receipts paid c

/-- The account has no route to the first account of all. -/
def FirstUnrouted (s : Ledger) (name : AccountName) : Prop :=
  ∀ c ∈ s.accounts.keys.head?, (name, c) ∉ s.routes.keys

theorem sharesToTokens_eq {d : Int} : s.sharesToTokens d = worth s.pool d := by
  unfold sharesToTokens vestingSharePrice worth pool
  split
  · rfl
  · rfl

theorem worth_zero {p : Int × Int} {t : Int} (h : worth p 0 = .ok t) : t = 0 := by
  unfold worth at h
  split at h
  · obtain ⟨-, -, ht⟩ := mulDiv_eq_ok.mp h
    rw [← ht, zero_mul, Int.zero_ediv]
  · obtain ⟨-, -, ht⟩ := mulDiv_eq_ok.mp h
    rw [← ht, zero_mul, Int.zero_ediv]

theorem Sold.append {p p' p'' : Int × Int} {l l' m m' : List (AccountName × Int)} (h : Sold p l m p')
    (h' : Sold p' l' m' p'') : Sold p (l ++ l') (m ++ m') p'' := by
  induction h with
  | nil p => exact h'
  | cons ht _ ih => exact .cons ht (ih h')

theorem receipts_cons {e : AccountName × Int} {l : List (AccountName × Int)} :
    receipts (e :: l) c = (if e.1 = c then e.2 else 0) + receipts l c := by
  unfold receipts
  rw [List.map_cons, List.sum_cons]

theorem receipts_append {l m : List (AccountName × Int)} : receipts (l ++ m) c = receipts l c + receipts m c := by
  unfold receipts
  rw [List.map_append, List.sum_append]

/-- **The turn sees every route** of an account that has none to the first account. -/
theorem routesOf_eq (h : s.FirstUnrouted a) : s.routesOf a = s.routesFor a := by
  unfold routesOf routesFor
  unfold FirstUnrouted at h
  cases hkeys : s.accounts.keys with
  | nil => rfl
  | cons first ks =>
      have hnone : s.routes.find (a, first) = none := by
        apply Table.find_eq_none.mpr
        apply h
        rw [hkeys]
        rfl
      rw [List.filterMap_cons, hnone]
      rfl

/-- What the routes have together. -/
theorem due_eq (w : Int) (l : List (AccountName × Route)) :
    sharesDue w l + tokensDue w l = (l.map (fun r => routeDeposit w r.2)).sum := by
  induction l with
  | nil => rfl
  | cons r l ih =>
      rw [sharesDue_cons, tokensDue_cons, List.map_cons, List.sum_cons, ← ih]
      by_cases hv : r.2.autoVest
      · rw [if_pos hv, if_pos hv]
        omega
      · rw [if_neg hv, if_neg hv]
        omega

/-- **One route leads to each account**, so what the routes have for it is what its route has. -/
theorem sum_routes {g : Route → Int} {f : AccountName → Option Route} {ks : List AccountName} (hks : ks.Nodup)
    (hc : c ∈ ks) : ((ks.filterMap (fun k => (f k).map (fun r => (k, r)))).map
      (fun r => if r.1 = c then g r.2 else 0)).sum = (f c).elim 0 g := by
  -- behind the account nothing is for it
  have hnone : ∀ l : List AccountName, c ∉ l → ((l.filterMap (fun k => (f k).map (fun r => (k, r)))).map
      (fun r => if r.1 = c then g r.2 else 0)).sum = 0 := by
    intro l hl
    apply List.sum_eq_zero
    intro x hx
    obtain ⟨r, hr, rfl⟩ := List.mem_map.mp hx
    obtain ⟨k, hk, hkr⟩ := List.mem_filterMap.mp hr
    obtain ⟨y, -, rfl⟩ := Option.map_eq_some_iff.mp hkr
    exact if_neg fun he : k = c => hl (he ▸ hk)
  induction ks with
  | nil => exact absurd hc List.not_mem_nil
  | cons k ks ih =>
      obtain ⟨hk, hks⟩ := List.nodup_cons.mp hks
      rw [List.filterMap_cons]
      by_cases hck : c = k
      · subst hck
        cases hf : f c with
        | none => exact hnone ks hk
        | some r =>
            dsimp only [Option.map_some]
            rw [List.map_cons, List.sum_cons, hnone ks hk, if_pos rfl, add_zero]
            rfl
      · have hrest := ih hks (List.mem_of_ne_of_mem hck hc)
        cases hf : f k with
        | none => exact hrest
        | some r =>
            dsimp only [Option.map_some]
            rw [List.map_cons, List.sum_cons, if_neg (fun he => hck he.symm), zero_add]
            exact hrest

/-! ## A turn -/

/-- **The first pass**, account by account. -/
theorem depositShares_rows (hw : 0 ≤ w) {l : List (AccountName × Route)} {p p' : Ledger × Int}
    (h : l.foldlM (depositShares w) p = .ok p') (hc : c ∈ p.1.accounts.keys) :
    c ∈ p'.1.accounts.keys ∧ (p'.1.accounts.row c).balance = (p.1.accounts.row c).balance ∧
      (p'.1.accounts.row c).vestingShares = (p.1.accounts.row c).vestingShares +
        (l.map (fun r => if r.1 = c then (if r.2.autoVest then routeDeposit w r.2 else 0) else 0)).sum := by
  induction l generalizing p with
  | nil =>
      obtain rfl := Except.ok.inj h
      exact ⟨hc, rfl, (add_zero _).symm⟩
  | cons r l ih =>
      rw [List.foldlM_cons, bind_eq_ok] at h
      obtain ⟨q, hq, h⟩ := h
      have hnn := routeDeposit_nonneg hw r.2
      have hstep : c ∈ q.1.accounts.keys ∧ (q.1.accounts.row c).balance = (p.1.accounts.row c).balance ∧
          (q.1.accounts.row c).vestingShares = (p.1.accounts.row c).vestingShares +
            if r.1 = c then (if r.2.autoVest then routeDeposit w r.2 else 0) else 0 := by
        unfold depositShares at hq
        by_cases hv : r.2.autoVest
        · rw [if_pos hv] at hq ⊢
          dsimp only at hq
          by_cases hpos : 0 < routeDeposit w r.2
          · rw [if_pos hpos] at hq
            simp only [bind_eq_ok, pure_eq_ok] at hq
            obtain ⟨s₁, hs₁, rfl⟩ := hq
            have hcar := adjustProxiedValidatorVotes_carried hs₁
            have hbook : (s₁.accounts.row c).toAccountBook = _ := hcar.row c hc
            refine ⟨hcar.keys.symm ▸ hc, ?_, ?_⟩
            · have hbal := congrArg AccountBook.balance hbook
              refine hbal.trans ?_
              exact Table.modify_same (t := p.1.accounts) (p := fun x => x.balance)
                (f := fun x => { x with vestingShares := x.vestingShares + routeDeposit w r.2 }) rfl
            · have hshares := congrArg AccountBook.vestingShares hbook
              refine hshares.trans ?_
              have hrow := Table.modify_part (t := p.1.accounts) (k := r.1) (j := c) (p := fun x => x.vestingShares)
                (f := fun x => { x with vestingShares := x.vestingShares + routeDeposit w r.2 }) rfl
              refine hrow.trans ?_
              simp only [eq_comm]
          · rw [if_neg hpos, pure_eq_ok] at hq
            subst hq
            have hzero : routeDeposit w r.2 = 0 := by omega
            rw [hzero, ite_self]
            exact ⟨hc, rfl, (add_zero _).symm⟩
        · rw [if_neg hv, pure_eq_ok] at hq
          subst hq
          rw [if_neg hv, ite_self]
          exact ⟨hc, rfl, (add_zero _).symm⟩
      obtain ⟨hmem, hbal, hshares⟩ := hstep
      obtain ⟨hmem', hbal', hshares'⟩ := ih h hmem
      refine ⟨hmem', hbal'.trans hbal, ?_⟩
      rw [hshares', hshares, List.map_cons, List.sum_cons, add_assoc]

/-- **The second pass**: the parts are sold. -/
theorem depositTokens_rows (hw : 0 ≤ w) {l : List (AccountName × Route)} {p p' : Ledger × Int}
    (h : l.foldlM (depositTokens w) p = .ok p') :
    ∃ paid, Sold p.1.pool ((l.filter (fun r => !r.2.autoVest)).map (fun r => (r.1, routeDeposit w r.2))) paid p'.1.pool ∧
      ∀ c ∈ p.1.accounts.keys, c ∈ p'.1.accounts.keys ∧
        (p'.1.accounts.row c).balance = (p.1.accounts.row c).balance + receipts paid c ∧
        (p'.1.accounts.row c).vestingShares = (p.1.accounts.row c).vestingShares := by
  induction l generalizing p with
  | nil =>
      obtain rfl := Except.ok.inj h
      exact ⟨[], .nil _, fun c hc => ⟨hc, (add_zero _).symm, rfl⟩⟩
  | cons r l ih =>
      rw [List.foldlM_cons, bind_eq_ok] at h
      obtain ⟨q, hq, h⟩ := h
      obtain ⟨paid, hsold, hrows⟩ := ih h
      have hnn := routeDeposit_nonneg hw r.2
      unfold depositTokens at hq
      by_cases hv : r.2.autoVest
      · rw [if_pos hv, pure_eq_ok] at hq
        subst hq
        rw [List.filter_cons_of_neg (by rw [hv]; decide)]
        exact ⟨paid, hsold, hrows⟩
      · rw [if_neg hv] at hq
        simp only [bind_eq_ok] at hq
        obtain ⟨t, ht, hq⟩ := hq
        rw [sharesToTokens_eq] at ht
        rw [List.filter_cons_of_pos (by simp [hv]), List.map_cons]
        by_cases hpos : 0 < routeDeposit w r.2
        · rw [if_pos hpos, pure_eq_ok] at hq
          subst hq
          refine ⟨(r.1, t) :: paid, .cons ht hsold, fun c hc => ?_⟩
          obtain ⟨hmem, hbal, hshares⟩ := hrows c hc
          have hrow := Table.modify_part (t := p.1.accounts) (k := r.1) (j := c) (p := fun x => x.balance)
            (f := fun x => { x with balance := x.balance + t }) rfl
          have hbal₁ : ((p.1.cashShares r.1 (routeDeposit w r.2) t).accounts.row c).balance =
              (p.1.accounts.row c).balance + if c = r.1 then t else 0 := hrow
          have hshares₁ : ((p.1.cashShares r.1 (routeDeposit w r.2) t).accounts.row c).vestingShares =
              (p.1.accounts.row c).vestingShares :=
            Table.modify_same (t := p.1.accounts) (p := fun x => x.vestingShares)
              (f := fun x => { x with balance := x.balance + t }) rfl
          refine ⟨hmem, ?_, hshares.trans hshares₁⟩
          rw [hbal, hbal₁, receipts_cons, add_assoc]
          simp only [eq_comm]
        · -- nothing of nothing: the price is asked for, and the pool stays
          rw [if_neg hpos, pure_eq_ok] at hq
          subst hq
          have hzero : routeDeposit w r.2 = 0 := by omega
          rw [hzero] at ht ⊢
          obtain rfl := worth_zero ht
          refine ⟨(r.1, 0) :: paid, .cons ht (by rw [sub_zero, sub_zero]; exact hsold), fun c hc => ?_⟩
          rw [receipts_cons, ite_self, zero_add]
          exact hrows c hc

/-- What the routes keep for an account is what its route keeps. -/
theorem vested_eq (hc : c ∈ s.accounts.keys) : ((s.routesFor a).map
    (fun r => if r.1 = c then (if r.2.autoVest then routeDeposit w r.2 else 0) else 0)).sum = s.vested a w c :=
  sum_routes (g := fun r => if r.autoVest then routeDeposit w r else 0) (f := fun k => s.routes.find (a, k))
    s.accounts.nodup hc

/-- **A turn pays out.** -/
theorem withdrawFrom_paidOut (hb : Bank.InOrder 0 s.bank) (hfirst : s.FirstUnrouted a)
    (hw : withdrawalAmount (s.accounts.row a) = .ok w) (h : s.withdrawFrom a = .ok s') : PaidOut a w s s' := by
  simp only [withdrawFrom, bind_eq_ok, getAccount_eq_ok] at h
  obtain ⟨r, ⟨ha, rfl⟩, w', hw', ⟨s₁, asVests⟩, h₁, ⟨s₂, asTokens⟩, h₂, t, ht, h⟩ := h
  obtain rfl : w' = w := Except.ok.inj (hw'.symm.trans hw)
  obtain ⟨hw₀, -, -⟩ := withdrawalAmount_spec hw
  have hroutes : ∀ r ∈ s.routesOf a, r.1 ∈ s.accounts.keys := fun r hr => mem_routesOf hr
  obtain ⟨hV, hsh⟩ := depositShares_fold hw₀ hroutes h₁
  obtain ⟨hT, -⟩ := depositTokens_fold hw₀ (fun r hr => hsh.vested.keys ▸ hroutes r hr) h₂
  have hrows₁ := fun c (hc : c ∈ s.accounts.keys) => depositShares_rows hw₀ h₁ (c := c) hc
  obtain ⟨paid, hsold, hrows₂⟩ := depositTokens_rows hw₀ h₂
  dsimp only at hV hT hsh hsold hrows₁ hrows₂ ht h
  rw [zero_add] at hV hT
  subst hV hT
  obtain ⟨-, hfund, hshares, rate, next, -, hspread, -⟩ := settle_moves (s := s₂) hw₀ h
  -- what the routes have is not more than there is
  have hdue : sharesDue w' (s.routesOf a) + tokensDue w' (s.routesOf a) ≤ w' := due_le hw₀ (hb.routes.within a)
  have hrest : s.rest a w' = w' - tokensDue w' (s.routesOf a) - sharesDue w' (s.routesOf a) := by
    have hsum := due_eq w' (s.routesOf a)
    rw [routesOf_eq hfirst] at hsum
    unfold rest
    rw [← hsum, routesOf_eq hfirst]
    omega
  have hmax : max (w' - tokensDue w' (s.routesOf a) - sharesDue w' (s.routesOf a)) 0 = s.rest a w' := by
    rw [hrest]
    omega
  rw [hmax, sharesToTokens_eq] at ht
  rw [hmax] at hshares
  have hpool : s₁.pool = s.pool := by
    unfold pool
    rw [hsh.fund, hsh.shares]
  refine ⟨by rw [hrest]; omega, fun c hc => ?_, paid ++ [(a, t)], ?_, fun c hc => ?_⟩
  · obtain ⟨hmem₁, -, hvest₁⟩ := hrows₁ c hc
    obtain ⟨hmem₂, -, hvest₂⟩ := hrows₂ c hmem₁
    have hrow := (hspread.same (g := AccountBook.vestingShares) (fun _ _ => rfl)).row c hmem₂
    have hend : (s'.accounts.row c).vestingShares =
        (s₂.accounts.row c).vestingShares - if c = a then w' else 0 := by
      refine hrow.trans ?_
      by_cases hca : c = a
      · subst hca
        rw [Table.modify_row_self, if_pos rfl]
        rfl
      · rw [Table.modify_row_of_ne hca, if_neg hca, sub_zero]
        rfl
    rw [hend, hvest₂, hvest₁, routesOf_eq hfirst, vested_eq hc]
  · rw [hpool, routesOf_eq hfirst] at hsold
    refine hsold.append (.cons ht ?_)
    have hpool' : s'.pool = (s₂.pool.1 - t, s₂.pool.2 - s.rest a w') := Prod.ext hfund hshares
    rw [hpool']
    exact .nil _
  · obtain ⟨hmem₁, hbal₁, -⟩ := hrows₁ c hc
    obtain ⟨hmem₂, hbal₂, -⟩ := hrows₂ c hmem₁
    have hrow := (hspread.same (g := AccountBook.balance) (fun _ _ => rfl)).row c hmem₂
    have hend : (s'.accounts.row c).balance = (s₂.accounts.row c).balance + if c = a then t else 0 := by
      refine hrow.trans ?_
      by_cases hca : c = a
      · subst hca
        rw [Table.modify_row_self, if_pos rfl]
        rfl
      · rw [Table.modify_row_of_ne hca, if_neg hca, add_zero]
        rfl
    rw [hend, hbal₂, hbal₁, receipts_append, receipts_cons, add_assoc]
    simp only [eq_comm, receipts, List.map_nil, List.sum_nil, add_zero]

/-! ## The plan -/

/-- Where a withdrawal of `W` shares at a rate stands after `k` instalments; the first of them was due at `start`. -/
def Stage (W rate : Int) (start k : Nat) (r : Account) : Prop :=
  r.toWithdraw = W ∧ r.withdrawn = min (k * rate) W ∧
    if (k : Int) * rate < W then
      r.vestingWithdrawRate = rate ∧
        r.nextVestingWithdrawal = start + k * Config.vestingWithdrawIntervalSeconds
    else r.vestingWithdrawRate = 0 ∧ r.nextVestingWithdrawal = Config.maximumTime

section Stage

variable {W rate : Int} {start k : Nat} {r r' : Account}

/-- The plan is the same. -/
theorem Stage.of_eq (h : Stage W rate start k r) (he : (stake r').1 = (stake r).1) : Stage W rate start k r' := by
  have hrate : r'.vestingWithdrawRate = r.vestingWithdrawRate := congrArg (fun p => p.1) he
  have hnext : r'.nextVestingWithdrawal = r.nextVestingWithdrawal := congrArg (fun p => p.2.1) he
  have hto : r'.toWithdraw = r.toWithdraw := congrArg (fun p => p.2.2.1) he
  have hout : r'.withdrawn = r.withdrawn := congrArg (fun p => p.2.2.2) he
  unfold Stage
  rw [hrate, hnext, hto, hout]
  exact h

/-- **An instalment brings the plan on.** It takes the rate or what is left, and the account has that. -/
theorem Stage.settle {c : Int} (h : Stage W rate start k r) (hrate : 0 ≤ rate)
    (hw : w = min r.vestingWithdrawRate (r.toWithdraw - r.withdrawn)) (hhas : W - r.withdrawn ≤ r.vestingShares) :
    Stage W rate start (k + 1) (settleWithdrawal w c r) ∧ w = min ((k + 1 : Nat) * rate) W - min (k * rate) W := by
  obtain ⟨hto, hout, hgoes⟩ := h
  have hsucc : ((k + 1 : Nat) : Int) * rate = k * rate + rate := by
    push_cast
    ring
  have hstep : ((k + 1 : Nat) : Int) * Config.vestingWithdrawIntervalSeconds =
      k * Config.vestingWithdrawIntervalSeconds + Config.vestingWithdrawIntervalSeconds := by
    push_cast
    ring
  rw [hto, hout] at hw
  rw [hout] at hhas
  unfold Stage settleWithdrawal
  rw [hsucc]
  dsimp only
  by_cases hlt : (k : Int) * rate < W
  · rw [if_pos hlt] at hgoes
    rw [hgoes.1] at hw
    rw [hto, hout]
    by_cases hlast : (k : Int) * rate + rate < W
    · -- more will follow
      rw [if_neg (by omega), if_pos hlast]
      refine ⟨⟨rfl, by dsimp only; omega, hgoes.1, ?_⟩, by omega⟩
      dsimp only
      rw [hgoes.2, Nat.add_mul, Nat.one_mul, Nat.add_assoc]
    · rw [if_pos (by omega), if_neg hlast]
      exact ⟨⟨rfl, by dsimp only; omega, rfl, rfl⟩, by omega⟩
  · -- all of it has been paid, and a turn takes nothing
    rw [if_neg hlt] at hgoes
    rw [hgoes.1] at hw
    rw [hto, hout, if_pos (by omega), if_neg (by omega)]
    exact ⟨⟨rfl, by dsimp only; omega, rfl, rfl⟩, by omega⟩

end Stage

/-! ## Runs -/

/-- A turn that was taken: the ledger before it, what left the account, and the ledger behind it. -/
structure Instalment where
  before : Ledger
  amount : Int
  after  : Ledger

/-- **A withdrawal runs its course**: the account has its turns when they are due, and in between a node does whatever
    does not ask for another withdrawal of the account. -/
inductive Paying (names : Names) (a : AccountName) : Ledger → List Instalment → Ledger → Prop
  | start (s : Ledger) : Paying names a s [] s
  | act {s s₁ s₂ : Ledger} {is : List Instalment} {T : Matter → Prop} (h : Paying names a s is s₁)
      (ha : Act names T s₁ s₂) (hT : ¬ T (.plan a)) : Paying names a s is s₂
  | turn {s s₁ s₂ : Ledger} {is : List Instalment} {w : Int} (h : Paying names a s is s₁)
      (hdue : (s₁.accounts.row a).nextVestingWithdrawal ≤ s₁.time)
      (hw : withdrawalAmount (s₁.accounts.row a) = .ok w) (hturn : s₁.withdrawFrom a = .ok s₂) :
      Paying names a s (is ++ [⟨s₁, w, s₂⟩]) s₂

/-- **`W` shares were asked for**, in a transaction that does not ask again behind it. -/
def Asked (names : Names) (a : AccountName) (W : Nat) (s : Ledger) : Prop :=
  ∃ s₀ before later, Walk names s₀ ∧ (∀ o ∈ before ++ .withdrawVesting a W :: later, s₀.signed o) ∧
    Performed names anyOperation (before ++ .withdrawVesting a W :: later) s₀ s ∧ ∀ o ∈ later, ¬ o.touches (.plan a)

theorem Performed.append {P : Ledger → Operation → Prop} {l m : List Operation} (h : Performed names P (l ++ m) s s') :
    ∃ s₁, Performed names P l s s₁ ∧ Performed names P m s₁ s' := by
  induction l generalizing s with
  | nil => exact ⟨s, .nil s, h⟩
  | cons o l ih =>
      cases h with
      | cons hP ho hops =>
          obtain ⟨s₁, h₁, h₂⟩ := ih hops
          exact ⟨s₁, .cons hP ho h₁, h₂⟩

/-- What is known of the ledger behind the request. -/
structure Begun (a : AccountName) (W : Int) (s : Ledger) : Prop where
  upright : s.Upright
  mem     : a ∈ s.accounts.keys
  rate    : 0 ≤ (s.accounts.row a).vestingWithdrawRate
  moves   : 0 < W → (s.accounts.row a).vestingWithdrawRate ≠ 0
  stage   : Stage W (s.accounts.row a).vestingWithdrawRate (s.accounts.row a).nextVestingWithdrawal 0
    (s.accounts.row a)

theorem newWithdrawRate_ne_zero {r : Account} {W : Nat} : s.newWithdrawRate r W ≠ 0 := by
  have hone : ∀ x : Int, (if x = 0 then 1 else x) ≠ 0 := by
    intro x
    split
    · exact one_ne_zero
    · next h => exact h
  exact hone _

/-- The operation itself. -/
theorem withdrawVesting_begun {W : Nat} (h : s.withdrawVesting a W = .ok s') : a ∈ s'.accounts.keys ∧
    (0 < (W : Int) → (s'.accounts.row a).vestingWithdrawRate ≠ 0) ∧
    Stage W (s'.accounts.row a).vestingWithdrawRate (s'.accounts.row a).nextVestingWithdrawal 0 (s'.accounts.row a) := by
  simp only [withdrawVesting, bind_eq_ok, getAccount_eq_ok, require_eq_ok] at h
  obtain ⟨r, ⟨hmem, rfl⟩, -, -, -, -, h⟩ := h
  have hzero : ((0 : Nat) : Int) = 0 := rfl
  by_cases hW : W = 0
  · rw [if_pos hW, pure_eq_ok] at h
    subst h hW
    refine ⟨hmem, fun hpos => absurd hpos (lt_irrefl _), ?_⟩
    unfold Stage
    rw [modifyAccount, Table.modify_row_self, if_neg (by omega)]
    dsimp only
    exact ⟨rfl, by omega, rfl, rfl⟩
  · rw [if_neg hW] at h
    simp only [bind_eq_ok, pure_eq_ok] at h
    obtain ⟨-, -, rfl⟩ := h
    refine ⟨hmem, fun _ => ?_, ?_⟩
    · rw [modifyAccount, Table.modify_row_self]
      exact newWithdrawRate_ne_zero
    unfold Stage
    rw [modifyAccount, Table.modify_row_self, if_pos (by omega)]
    dsimp only
    exact ⟨rfl, by omega, rfl, by omega⟩

theorem Asked.begun {W : Nat} (h : Asked names a W s) : Begun a W s := by
  obtain ⟨s₀, before, later, hwalk, hsigned, hops, hlater⟩ := h
  obtain ⟨s₁, hbefore, hops⟩ := hops.append
  cases hops with
  | @cons _ s₂ _ loc _ _ _ ho hops =>
      have hkeys : ∀ o ∈ before ++ .withdrawVesting a W :: later, ∀ x ∈ o.signer, x ∉ Config.keyless :=
        fun o hmem => (hsigned o hmem).not_keyless hwalk.upright.inOrder
      have hup₁ := hbefore.upright (fun o hmem => hkeys o (List.mem_append_left _ hmem)) hwalk.upright
      have hup₂ := evaluate_upright ho (hkeys _ (List.mem_append_right _ List.mem_cons_self)) hup₁
      have hup : s.Upright := hops.upright
        (fun o hmem => hkeys o (List.mem_append_right _ (List.mem_cons_of_mem _ hmem))) hup₂
      obtain ⟨hmem, hmoves, hstage⟩ := withdrawVesting_begun (a := a) (W := W) ho
      -- what follows in the transaction leaves the plan alone
      have hplain : Plain (fun m => ∃ o ∈ later, o.touches m) s₂ s :=
        hops.plain (.refl s₂) fun o ho m hm => ⟨o, ho, hm⟩
      have hacc := hplain.account hmem
      have hsame := (hacc.2.1 fun ⟨o, ho, ht⟩ => hlater o ho ht).1
      have hrate : (s.accounts.row a).vestingWithdrawRate = (s₂.accounts.row a).vestingWithdrawRate :=
        congrArg (fun p => p.1) hsame
      have hnext : (s.accounts.row a).nextVestingWithdrawal = (s₂.accounts.row a).nextVestingWithdrawal :=
        congrArg (fun p => p.2.1) hsame
      refine ⟨hup, hacc.1, (hup.paced a hacc.1).rate_nonneg, ?_, ?_⟩
      · rw [hrate]
        exact hmoves
      · rw [hrate, hnext]
        exact hstage.of_eq hsame

/-- **The course of a withdrawal**, as far as it has come. -/
structure Progress (a : AccountName) (W rate : Int) (start : Nat) (is : List Instalment) (s : Ledger) : Prop where
  upright : s.Upright
  mem     : a ∈ s.accounts.keys
  stage   : Stage W rate start is.length (s.accounts.row a)
  sum     : (is.map Instalment.amount).sum = min (is.length * rate) W
  paid    : ∀ i ∈ is, i.before.FirstUnrouted a → PaidOut a i.amount i.before i.after

/-- **Each step keeps the course.** -/
theorem Paying.progress {W : Int} {is : List Instalment} (hbegun : Begun a W s) (hW : 0 ≤ W)
    (h : Paying names a s is s') :
    Progress a W (s.accounts.row a).vestingWithdrawRate (s.accounts.row a).nextVestingWithdrawal is s' := by
  induction h with
  | start =>
      refine ⟨hbegun.upright, hbegun.mem, hbegun.stage, ?_, fun i hi => absurd hi List.not_mem_nil⟩
      have hzero : (([] : List Instalment).length : Int) = 0 := rfl
      rw [hzero, zero_mul, min_eq_left hW]
      rfl
  | act _ ha hT hp =>
      have hacc := ha.plain.account hp.mem
      exact ⟨ha.upright hp.upright, hacc.1, hp.stage.of_eq (hacc.2.1 hT).1, hp.sum, hp.paid⟩
  | @turn s₁ s₂ is w _ hdue hw hturn hp =>
      obtain ⟨-, w', c, r, hw', hr, hrow⟩ := withdrawFrom_settles hturn
      obtain rfl : w' = w := Except.ok.inj (hw'.symm.trans hw)
      have hrest := hp.upright.rest_le hp.mem
      have hamount := hp.upright.amount_eq hp.mem hw
      have hto : r.toWithdraw = (s₁.accounts.row a).toWithdraw := congrArg (fun p => p.2.2.1) hr.1
      have hout : r.withdrawn = (s₁.accounts.row a).withdrawn := congrArg (fun p => p.2.2.2) hr.1
      have hrate : r.vestingWithdrawRate = (s₁.accounts.row a).vestingWithdrawRate := congrArg (fun p => p.1) hr.1
      have hshares : (s₁.accounts.row a).vestingShares ≤ r.vestingShares := hr.2
      have hW' : (s₁.accounts.row a).toWithdraw = W := hp.stage.1
      obtain ⟨hstage, hdiff⟩ := (hp.stage.of_eq hr.1).settle (w := w') (c := c) hbegun.rate
        (by rw [hrate, hto, hout]; exact hamount) (by rw [hout]; omega)
      have hact : Act names (· = .plan a) s₁ s₂ := .withdrawFrom hturn
      have hmem := (hact.plain.account hp.mem).1
      refine ⟨hact.upright hp.upright, hmem, ?_, ?_, ?_⟩
      · rw [List.length_append, List.length_singleton]
        exact hstage.of_eq hrow.1
      · rw [List.map_append, List.sum_append, hp.sum, List.length_append, List.length_singleton]
        rw [List.map_singleton, List.sum_singleton, hdiff]
        exact add_sub_cancel _ _
      · intro i hi hfirst
        rcases List.mem_append.mp hi with hi | hi
        · exact hp.paid i hi hfirst
        · obtain rfl := List.mem_singleton.mp hi
          exact withdrawFrom_paidOut hp.upright.inOrder hfirst hw hturn

/-- So many turns are enough, and no fewer. -/
theorem steps_le_iff {W rate : Int} {k : Nat} (hrate : 0 < rate) :
    (W + rate - 1) / rate ≤ k ↔ W ≤ k * rate := by
  rw [← Int.lt_add_one_iff, Int.ediv_lt_iff_lt_mul hrate, add_mul, one_mul]
  omega

/-- Where an account stands in the `by_next_vesting_withdrawal` index. -/
def standing (s : Ledger) (name : AccountName) : Nat :=
  Places.place s.accounts.keys (fun c => (s.accounts.row c).nextVestingWithdrawal) name

/-- A turn moves nobody else in the index. -/
theorem withdrawFrom_standing {name : AccountName} (h : s.withdrawFrom name = .ok s') (hc : c ∈ s.accounts.keys)
    (hne : c ≠ name) : s'.standing c = s.standing c := by
  have hplain : Plain (· = .plan name) s s' := withdrawFrom_plain (T := (· = .plan name)) (.refl s) rfl _ h
  have hsame := ((hplain.account hc).2.1 fun he => hne (Matter.plan.inj he)).1
  have hnext : (s'.accounts.row c).nextVestingWithdrawal = (s.accounts.row c).nextVestingWithdrawal :=
    congrArg (fun p => p.2.1) hsame
  unfold standing Places.place
  dsimp only
  rw [(withdrawFrom_turn h).vested.keys, hnext]

theorem Vested.time_eq (h : Vested s s') : s'.time = s.time := by rw [h.rest]

/-- **The loop** goes from place to place, so it comes to everybody who stands behind and is due. -/
theorem Paying.loop {s₀ : Ledger} {is : List Instalment} {fuel : Nat} {next : Option AccountName}
    (h : Paying names a s₀ is s) (hloop : withdrawalLoop fuel next s = .ok s') :
    ∃ more, Paying names a s₀ (is ++ more) s' ∧ ∀ name, next = some name → name ∈ s.accounts.keys →
      a ∈ s.accounts.keys → (s.accounts.row a).nextVestingWithdrawal ≤ s.time → s.standing name ≤ s.standing a →
      (s.time + 1) * s.accounts.keys.length ≤ fuel + s.standing name → more ≠ [] := by
  have hnothing : Paying names a s₀ (is ++ []) s := (List.append_nil is).symm ▸ h
  induction fuel generalizing next is s with
  | zero =>
      obtain rfl := Except.ok.inj hloop
      refine ⟨[], hnothing, fun name _ _ ha hdue hle hfuel => absurd hfuel ?_⟩
      have hlt : s.standing a < _ := Places.place_lt ha hdue
      omega
  | succ fuel ih =>
      cases next with
      | none =>
          obtain rfl := Except.ok.inj hloop
          exact ⟨[], hnothing, fun name hname => absurd hname (by simp)⟩
      | some name =>
          unfold withdrawalLoop at hloop
          by_cases hdue : (s.accounts.row name).nextVestingWithdrawal ≤ s.time
          · rw [if_pos hdue, bind_eq_ok] at hloop
            obtain ⟨s₁, hturn, hloop⟩ := hloop
            have hvested := (withdrawFrom_turn hturn).vested
            by_cases hna : name = a
            · -- the turn of the account itself
              subst hna
              obtain ⟨-, w, -, -, hw, -⟩ := withdrawFrom_settles hturn
              have h₁ := h.turn hdue hw hturn
              obtain ⟨more, hmore, -⟩ := ih h₁ hloop ((List.append_nil _).symm ▸ h₁)
              rw [List.append_assoc] at hmore
              exact ⟨_, hmore, fun _ _ _ _ _ _ _ => by simp⟩
            · have h₁ := h.act (.withdrawFrom hturn) fun he => hna (Matter.plan.inj he).symm
              obtain ⟨more, hmore, hserves⟩ := ih h₁ hloop ((List.append_nil _).symm ▸ h₁)
              refine ⟨more, hmore, fun name' hname' hmem ha hdue' hle hfuel => ?_⟩
              obtain rfl := Option.some.inj hname'
              -- whoever stands behind has not moved, and neither has what comes next
              have hlt : s.standing name < s.standing a :=
                lt_of_le_of_ne hle fun he => hna (Places.eq_of_place_eq hmem ha he)
              obtain ⟨b, hb, hnext, hlt', hle'⟩ := Places.next_place
                (Places.sorted_places (f := fun c => (s.accounts.row c).nextVestingWithdrawal) s.accounts.nodup)
                ((List.mem_insertionSort _).mpr hmem) ((List.mem_insertionSort _).mpr ha) hlt
              have hb' := (List.mem_insertionSort _).mp hb
              have hbn : b ≠ name := fun he => absurd hlt' (he ▸ lt_irrefl _)
              have hsb := withdrawFrom_standing hturn hb' hbn
              have hsa := withdrawFrom_standing hturn ha (Ne.symm hna)
              have hlt'' : s.standing name < s.standing b := hlt'
              have hle'' : s.standing b ≤ s.standing a := hle'
              have hnexta : (s₁.accounts.row a).nextVestingWithdrawal = (s.accounts.row a).nextVestingWithdrawal := by
                have hplain : Plain (· = .plan name) s s₁ :=
                  withdrawFrom_plain (T := (· = .plan name)) (.refl s) rfl _ hturn
                have hsame := ((hplain.account ha).2.1 fun he => hna (Matter.plan.inj he).symm).1
                exact congrArg (fun p => p.2.1) hsame
              refine hserves b hnext (hvested.keys.symm ▸ hb') (hvested.keys.symm ▸ ha) ?_ ?_ ?_
              · rw [hnexta, hvested.time_eq]
                exact hdue'
              · rw [hsa, hsb]
                exact hle''
              · rw [hsb, hvested.time_eq, hvested.keys]
                omega
          · rw [if_neg hdue] at hloop
            obtain rfl := Except.ok.inj hloop
            refine ⟨[], hnothing, fun name' hname' _ ha hdue' hle _ => ?_⟩
            obtain rfl := Option.some.inj hname'
            exact absurd ((Places.le_of_place_le ha hle).trans hdue') hdue

/-- **The withdrawals of a block** belong to the run, and whoever is due has a turn. -/
theorem Paying.withdrawals {s₀ : Ledger} {is : List Instalment} (h : Paying names a s₀ is s)
    (hs : s.processVestingWithdrawals = .ok s') : ∃ more, Paying names a s₀ (is ++ more) s' ∧
      (a ∈ s.accounts.keys → (s.accounts.row a).nextVestingWithdrawal ≤ s.time → more ≠ []) := by
  obtain ⟨more, hmore, hserves⟩ := h.loop hs
  refine ⟨more, hmore, fun ha hdue => ?_⟩
  obtain ⟨b, hb, hhead, hle⟩ := Places.head_place
    (Places.sorted_places (f := fun c => (s.accounts.row c).nextVestingWithdrawal) s.accounts.nodup)
    ((List.mem_insertionSort _).mpr ha)
  exact hserves b hhead ((List.mem_insertionSort _).mp hb) ha hdue hle (Nat.le_add_right _ _)

namespace Sample

/-- The initiator has shares, one route that keeps shares and one that pays out, and asks for 28000 shares. -/
def plan (heir : AccountName) : List Operation :=
  [.transferToVesting Config.initiatorName Config.initiatorName 1000000,
    .setWithdrawVestingRoute
      { fromAccount := Config.initiatorName, toAccount := heir, percent := 5000, autoVest := true },
    .setWithdrawVestingRoute
      { fromAccount := Config.initiatorName, toAccount := Config.anonymousAccount, percent := 2500, autoVest := false },
    .withdrawVesting Config.initiatorName 28000000]

/-- The block in which the first instalment is due. -/
def firstDue (s : Ledger) : Ledger := s.moveHead ⟨Config.committeeAccount, 1000000 + Config.vestingWithdrawIntervalSeconds⟩

/-- The first instalment is paid. -/
theorem firstInstalment (heir : AccountName) {p : Ledger → Ledger → Bool}
    (hsigned : ∀ o ∈ plan heir, start.signed o)
    (h : passes ((plan heir).foldlM (evaluate Sample.names loc) { start with headBlockNumber := 1 }) (fun s =>
      decide (((firstDue s).accounts.row Config.initiatorName).nextVestingWithdrawal ≤ (firstDue s).time) &&
      decide ((withdrawalAmount ((firstDue s).accounts.row Config.initiatorName)).toOption = some 28000000) &&
      passes ((firstDue s).withdrawFrom Config.initiatorName) (fun s' => p (firstDue s) s')) = true) :
    ∃ s s' i, Asked Sample.names Config.initiatorName 28000000 s ∧ Paying Sample.names Config.initiatorName s [i] s' ∧
      i.amount = 28000000 ∧ p i.before i.after = true := by
  obtain ⟨s, hops, ht⟩ := exists_of_passes h
  obtain ⟨hdue, ht⟩ := Bool.and_eq_true_iff.mp ht
  obtain ⟨hdue, hw⟩ := Bool.and_eq_true_iff.mp hdue
  obtain ⟨s', hturn, hp⟩ := exists_of_passes ht
  obtain ⟨-, w, -, -, hw', -⟩ := withdrawFrom_settles hturn
  have hwhole : w = 28000000 := by
    have hsome := of_decide_eq_true hw
    rw [hw'] at hsome
    exact Option.some.inj hsome
  refine ⟨s, s', ⟨firstDue s, w, s'⟩, ⟨_, (plan heir).take 3, [], start_walk 1, hsigned, .of_foldlM hops, ?_⟩, ?_,
    hwhole, hp⟩
  · exact fun o ho => absurd ho List.not_mem_nil
  · exact .turn (.act (.start s) (.moveHead _) id) (of_decide_eq_true hdue) hw' hturn

end Sample

instance {a : AccountName} : Decidable (s.FirstUnrouted a) :=
  inferInstanceAs (Decidable (∀ c ∈ s.accounts.keys.head?, (a, c) ∉ s.routes.keys))

end Ledger

end VizNode
