import VizNode.Ledger.Spreads
import Mathlib.Tactic.Ring

/-!
# `VizNode.Ledger.Withdrawals` — an account's turn to withdraw

A turn takes an amount of shares off an account. Routes send parts of it elsewhere, first as shares and then as
tokens, and what is left becomes tokens of the account itself. Each part is rounded down by itself; since the
routes of an account promise at most everything, the parts never exceed the amount, and **what the account
loses is exactly what arrives**.

## Contents
- **The parts.** `sharesDue`, `tokensDue`, and that they fit.
- **The passes.** One fold each.
- **The turn.** `withdrawFrom_course`, and the price over it.
-/

namespace VizNode

namespace Ledger

open Bank

variable {s s' : Ledger} {a : AccountName} {w : Int}

/-! ## The parts -/

/-- What routes take as shares. -/
def sharesDue (w : Int) (l : List (AccountName × Route)) : Int :=
  (l.map (fun r => if r.2.autoVest then routeDeposit w r.2 else 0)).sum

/-- What routes take as tokens. -/
def tokensDue (w : Int) (l : List (AccountName × Route)) : Int :=
  (l.map (fun r => if r.2.autoVest then 0 else routeDeposit w r.2)).sum

theorem routeDeposit_nonneg (hw : 0 ≤ w) (r : Route) : 0 ≤ routeDeposit w r :=
  Int.ediv_nonneg (Int.mul_nonneg hw (Int.natCast_nonneg _)) (by decide)

theorem sharesDue_cons {r : AccountName × Route} {l : List (AccountName × Route)} :
    sharesDue w (r :: l) = (if r.2.autoVest then routeDeposit w r.2 else 0) + sharesDue w l := by
  unfold sharesDue
  rw [List.map_cons, List.sum_cons]

theorem tokensDue_cons {r : AccountName × Route} {l : List (AccountName × Route)} :
    tokensDue w (r :: l) = (if r.2.autoVest then 0 else routeDeposit w r.2) + tokensDue w l := by
  unfold tokensDue
  rw [List.map_cons, List.sum_cons]

theorem sharesDue_nonneg (hw : 0 ≤ w) (l : List (AccountName × Route)) : 0 ≤ sharesDue w l := by
  induction l with
  | nil => exact le_refl (0 : Int)
  | cons r l ih =>
      have := routeDeposit_nonneg hw r.2
      rw [sharesDue_cons]
      by_cases hv : r.2.autoVest
      · rw [if_pos hv]
        omega
      · rw [if_neg hv]
        omega

theorem tokensDue_nonneg (hw : 0 ≤ w) (l : List (AccountName × Route)) : 0 ≤ tokensDue w l := by
  induction l with
  | nil => exact le_refl (0 : Int)
  | cons r l ih =>
      have := routeDeposit_nonneg hw r.2
      rw [tokensDue_cons]
      by_cases hv : r.2.autoVest
      · rw [if_pos hv]
        omega
      · rw [if_neg hv]
        omega

/-- The parts are rounded down, so they do not exceed what the percentages add up to. -/
theorem due_mul_le (w : Int) (l : List (AccountName × Route)) :
    (sharesDue w l + tokensDue w l) * Config.hundredPercent ≤ w * ((l.map (fun r => r.2.percent)).sum : Nat) := by
  induction l with
  | nil => simp [sharesDue, tokensDue]
  | cons r l ih =>
      have hpart : routeDeposit w r.2 * Config.hundredPercent ≤ w * r.2.percent :=
        Int.ediv_mul_le _ (by decide)
      have hsum : sharesDue w (r :: l) + tokensDue w (r :: l) =
          routeDeposit w r.2 + (sharesDue w l + tokensDue w l) := by
        rw [sharesDue_cons, tokensDue_cons]
        by_cases hv : r.2.autoVest
        · rw [if_pos hv, if_pos hv]
          omega
        · rw [if_neg hv, if_neg hv]
          omega
      rw [hsum, List.map_cons, List.sum_cons, add_mul, Nat.cast_add, mul_add]
      exact add_le_add hpart ih

/-- **The parts fit**, when the routes promise at most everything. -/
theorem due_le (hw : 0 ≤ w) {l : List (AccountName × Route)}
    (hl : (l.map (fun r => r.2.percent)).sum ≤ Config.hundredPercent) : sharesDue w l + tokensDue w l ≤ w := by
  have h := due_mul_le w l
  have hle : w * ((l.map (fun r => r.2.percent)).sum : Nat) ≤ w * (Config.hundredPercent : Nat) :=
    mul_le_mul_of_nonneg_left (Int.ofNat_le.mpr hl) hw
  exact le_of_mul_le_mul_right (h.trans hle) (by decide)

/-- What leaves in a turn. -/
theorem withdrawalAmount_spec {r : Account} (h : withdrawalAmount r = .ok w) :
    0 ≤ w ∧ w ≤ max r.vestingShares 0 ∧
      (r.toWithdraw = 0 → r.withdrawn = 0 → r.vestingWithdrawRate = 0 → w = 0) := by
  unfold withdrawalAmount at h
  by_cases hr : r.toWithdraw - r.withdrawn < r.vestingWithdrawRate
  · rw [if_pos hr] at h
    simp only [bind_eq_ok, require_eq_ok, pure_eq_ok] at h
    obtain ⟨-, hne, rfl⟩ := h
    refine ⟨le_max_right _ _, max_le_max (min_le_left _ _) le_rfl, ?_⟩
    intro _ _ hrate
    exact absurd hrate hne
  · rw [if_neg hr, pure_eq_ok] at h
    subst h
    refine ⟨le_max_right _ _, max_le_max (min_le_left _ _) le_rfl, ?_⟩
    intro _ _ hrate
    rw [hrate]
    exact max_eq_right (min_le_right _ _)

/-! ## The passes -/

/-- **Shares were sent**, `n` of them. Nobody's shares become fewer. -/
structure Shared (n : Int) (s s' : Ledger) : Prop where
  vested : Vested s s'
  shares : s'.totalVestingShares = s.totalVestingShares
  fund   : s'.totalVestingFund = s.totalVestingFund
  grows  : ∀ c ∈ s.accounts.keys, (s.accounts.row c).vestingShares ≤ (s'.accounts.row c).vestingShares
  moves  : ∀ K C : Prop, Moves K C 0 (-n) s.bank s'.bank

namespace Shared

theorem refl (s : Ledger) : Shared 0 s s := ⟨.refl s, rfl, rfl, fun _ _ => le_rfl, fun _ _ => .refl _⟩

theorem trans {n m : Int} {s'' : Ledger} (h : Shared n s s') (h' : Shared m s' s'') : Shared (n + m) s s'' where
  vested := h.vested.trans h'.vested
  shares := h'.shares.trans h.shares
  fund   := h'.fund.trans h.fund
  grows  := fun c hc => (h.grows c hc).trans (h'.grows c (h.vested.keys ▸ hc))
  moves  := fun K C => ((h.moves K C).trans (h'.moves K C)).cast (add_zero 0) (neg_add n m).symm

/-- One account has the shares, and its chain counts them. -/
theorem of_gain {n : Int} (ha : a ∈ s.accounts.keys) (hn : 0 ≤ n)
    (h : (s.modifyAccount a (fun r => { r with vestingShares := r.vestingShares + n })).adjustProxiedValidatorVotes
      a n = .ok s') : Shared n s s' := by
  have hc := adjustProxiedValidatorVotes_carried h
  have haccounts : (s.accounts.modify a (fun r => { r with vestingShares := r.vestingShares + n })).mapRows
      Account.toAccountBook = s.bank.accounts.modify a (.addShares n) := Table.mapRows_modify_of rfl
  have hspread : Spread a (single n) (s.bank.accounts.modify a (.addShares n)) s'.bank.accounts :=
    haccounts ▸ hc.spread
  refine ⟨⟨by rw [hc.rest]; rfl, hc.keys, hc.validators⟩, by rw [hc.rest]; rfl, by rw [hc.rest]; rfl, ?_, ?_⟩
  · intro c hcm
    have hrow := (hspread.same (g := AccountBook.vestingShares) (fun _ _ => rfl)).row c hcm
    rw [Table.modify_part (p := AccountBook.vestingShares) rfl] at hrow
    refine le_of_le_of_eq ?_ hrow.symm
    by_cases hca : c = a
    · rw [if_pos hca]
      exact le_add_of_nonneg_right hn
    · rw [if_neg hca]
      exact le_of_eq (add_zero _).symm
  · intro K C
    have hm : Move K C 0 (-n) s.bank { s.bank with accounts := s'.bank.accounts } := .gain ha hn hspread
    rw [hc.bank_eq]
    exact .of hm

end Shared

/-- **The first pass** sends shares. -/
theorem depositShares_fold (hw : 0 ≤ w) {l : List (AccountName × Route)} {p p' : Ledger × Int}
    (hl : ∀ r ∈ l, r.1 ∈ p.1.accounts.keys) (h : l.foldlM (depositShares w) p = .ok p') :
    p'.2 = p.2 + sharesDue w l ∧ Shared (sharesDue w l) p.1 p'.1 := by
  induction l generalizing p with
  | nil =>
      obtain rfl := Except.ok.inj h
      exact ⟨(add_zero _).symm, .refl _⟩
  | cons r l ih =>
      rw [List.foldlM_cons, bind_eq_ok] at h
      obtain ⟨q, hq, h⟩ := h
      have hnn := routeDeposit_nonneg hw r.2
      -- one route: its part goes out, or it has none
      have hstep : q.2 = p.2 + (if r.2.autoVest then routeDeposit w r.2 else 0) ∧
          Shared (if r.2.autoVest then routeDeposit w r.2 else 0) p.1 q.1 := by
        unfold depositShares at hq
        by_cases hv : r.2.autoVest
        · rw [if_pos hv] at hq ⊢
          dsimp only at hq
          by_cases hpos : 0 < routeDeposit w r.2
          · rw [if_pos hpos] at hq
            simp only [bind_eq_ok, pure_eq_ok] at hq
            obtain ⟨s₁, hs₁, rfl⟩ := hq
            exact ⟨rfl, .of_gain (hl r List.mem_cons_self) hnn hs₁⟩
          · rw [if_neg hpos, pure_eq_ok] at hq
            subst hq
            have hzero : routeDeposit w r.2 = 0 := by omega
            rw [hzero]
            exact ⟨rfl, .refl _⟩
        · rw [if_neg hv, pure_eq_ok] at hq
          subst hq
          rw [if_neg hv]
          exact ⟨(add_zero _).symm, .refl _⟩
      obtain ⟨h₁, hs₁⟩ := hstep
      obtain ⟨h₂, hs₂⟩ := ih (fun x hx => hs₁.vested.keys ▸ hl x (List.mem_cons_of_mem r hx)) h
      rw [sharesDue_cons]
      exact ⟨by rw [h₂, h₁, add_assoc], hs₁.trans hs₂⟩

/-- **The price holds**: while there are shares, they are not backed worse than before. -/
def PriceHolds (b b' : Bank) : Prop :=
  0 < b'.shares → 0 < b.shares ∧ b.fund * b'.shares ≤ b'.fund * b.shares

theorem PriceHolds.trans {b b' b'' : Bank} (h : PriceHolds b b') (h' : PriceHolds b' b'') :
    PriceHolds b b'' := by
  intro hpos
  obtain ⟨hpos', hle'⟩ := h' hpos
  obtain ⟨hpos₀, hle⟩ := h hpos'
  refine ⟨hpos₀, ?_⟩
  apply le_of_mul_le_mul_right _ hpos'
  calc b.fund * b''.shares * b'.shares
      = b.fund * b'.shares * b''.shares := by ring
    _ ≤ b'.fund * b.shares * b''.shares := mul_le_mul_of_nonneg_right hle hpos.le
    _ = b'.fund * b''.shares * b.shares := by ring
    _ ≤ b''.fund * b'.shares * b.shares := mul_le_mul_of_nonneg_right hle' hpos₀.le
    _ = b''.fund * b.shares * b'.shares := by ring

/-- **Shares were cashed**, `n` of them. -/
structure Cashed (n : Int) (s s' : Ledger) : Prop where
  vested : Vested s s'
  shares : s'.totalVestingShares = s.totalVestingShares - n
  same   : ∀ c ∈ s.accounts.keys, (s'.accounts.row c).vestingShares = (s.accounts.row c).vestingShares
  moves  : ∀ K C : Prop, (K → n ≤ s.totalVestingShares) → Moves K C 0 (-n) s.bank s'.bank
  price  : ∀ τ, Bank.Backed τ s.bank → n ≤ s.totalVestingShares → PriceHolds s.bank s'.bank

namespace Cashed

theorem refl (s : Ledger) : Cashed 0 s s :=
  ⟨.refl s, (sub_zero _).symm, fun _ _ => rfl, fun _ _ _ => .refl _, fun _ _ _ hpos => ⟨hpos, le_rfl⟩⟩

theorem trans {n m : Int} {s'' : Ledger} (hm : 0 ≤ m) (h : Cashed n s s') (h' : Cashed m s' s'') :
    Cashed (n + m) s s'' where
  vested := h.vested.trans h'.vested
  shares := by
    rw [h'.shares, h.shares]
    omega
  same   := fun c hc => (h'.same c (h.vested.keys ▸ hc)).trans (h.same c hc)
  moves  := by
    intro K C hK
    refine ((h.moves K C (fun k => by have := hK k; omega)).trans (h'.moves K C ?_)).cast (add_zero 0)
      (neg_add n m).symm
    intro k
    have := hK k
    rw [h.shares]
    omega
  price  := by
    intro τ hb hle
    have hn : n ≤ s.totalVestingShares := by omega
    have hmid : Bank.Backed (τ + -n) s'.bank := (h.moves True True (fun _ => hn)).backed trivial hb
    refine (h.price τ hb hn).trans (h'.price _ hmid ?_)
    rw [h.shares]
    omega

/-- One account has the tokens. -/
theorem of_cash {d c : Int} (ha : a ∈ s.accounts.keys) (hd : 0 ≤ d) (hc : s.sharesToTokens d = .ok c) :
    Cashed d s (s.cashShares a d c) := by
  have hedit : (s.modifyAccount a (fun r => { r with balance := r.balance + c })).bank =
      s.bank.edit a (.addBalance c) := bank_modifyAccount rfl
  have hbank : (s.cashShares a d c).bank =
      { s.bank.edit a (.addBalance c) with fund := s.bank.fund - c, shares := s.bank.shares - d } :=
    congrArg (fun b : Bank => { b with fund := s.bank.fund - c, shares := s.bank.shares - d }) hedit
  refine ⟨⟨rfl, rfl, .refl⟩, rfl, fun x _ => Table.modify_same (t := s.accounts)
    (f := fun r => { r with balance := r.balance + c }) (p := fun r => r.vestingShares) rfl, ?_, ?_⟩
  · intro K C hK
    rw [hbank]
    exact .of (.cash ha hc (fun k => ⟨hd, hK k⟩))
  · intro τ hb hle hpos
    rw [hbank] at hpos ⊢
    have hpos₀ : 0 < s.bank.shares := by
      have : 0 < s.bank.shares - d := hpos
      omega
    exact ⟨hpos₀, (hb.worth hd hle hc).2.2 hpos₀⟩

end Cashed

/-- **The second pass** sends tokens. -/
theorem depositTokens_fold (hw : 0 ≤ w) {l : List (AccountName × Route)} {p p' : Ledger × Int}
    (hl : ∀ r ∈ l, r.1 ∈ p.1.accounts.keys) (h : l.foldlM (depositTokens w) p = .ok p') :
    p'.2 = p.2 + tokensDue w l ∧ Cashed (tokensDue w l) p.1 p'.1 := by
  induction l generalizing p with
  | nil =>
      obtain rfl := Except.ok.inj h
      exact ⟨(add_zero _).symm, .refl _⟩
  | cons r l ih =>
      rw [List.foldlM_cons, bind_eq_ok] at h
      obtain ⟨q, hq, h⟩ := h
      have hnn := routeDeposit_nonneg hw r.2
      have hstep : q.2 = p.2 + (if r.2.autoVest then 0 else routeDeposit w r.2) ∧
          Cashed (if r.2.autoVest then 0 else routeDeposit w r.2) p.1 q.1 := by
        unfold depositTokens at hq
        by_cases hv : r.2.autoVest
        · rw [if_pos hv, pure_eq_ok] at hq
          subst hq
          rw [if_pos hv]
          exact ⟨(add_zero _).symm, .refl _⟩
        · rw [if_neg hv] at hq ⊢
          simp only [bind_eq_ok] at hq
          obtain ⟨c, hc, hq⟩ := hq
          by_cases hpos : 0 < routeDeposit w r.2
          · rw [if_pos hpos, pure_eq_ok] at hq
            subst hq
            exact ⟨rfl, .of_cash (hl r List.mem_cons_self) hnn hc⟩
          · rw [if_neg hpos, pure_eq_ok] at hq
            subst hq
            have hzero : routeDeposit w r.2 = 0 := by omega
            rw [hzero]
            exact ⟨rfl, .refl _⟩
      obtain ⟨h₁, hs₁⟩ := hstep
      obtain ⟨h₂, hs₂⟩ := ih (fun x hx => hs₁.vested.keys ▸ hl x (List.mem_cons_of_mem r hx)) h
      rw [tokensDue_cons]
      exact ⟨by rw [h₂, h₁, add_assoc], hs₁.trans (tokensDue_nonneg hw l) hs₂⟩

/-! ## The turn -/

/-- The end of a turn, on the book of the account. -/
theorem settleWithdrawal_book {w c : Int} {r : Account} : ∃ rate next,
    (settleWithdrawal w c r).toAccountBook = r.toAccountBook.settled w c rate next ∧
      (r.vestingWithdrawRate = 0 → rate = 0) := by
  unfold settleWithdrawal
  dsimp only
  by_cases hend : r.toWithdraw ≤ r.withdrawn + w ∨ r.vestingShares - w = 0
  · rw [if_pos hend]
    exact ⟨0, _, rfl, fun _ => rfl⟩
  · rw [if_neg hend]
    exact ⟨r.vestingWithdrawRate, _, rfl, id⟩

/-- The ledger at the end of a turn, before the votes are adjusted. -/
def settledLedger (s : Ledger) (name : AccountName) (w d c shares : Int) : Ledger :=
  let s₁ := (s.sharesSenderRecalcEnergy name shares).modifyAccount name (settleWithdrawal w c)
  { s₁ with totalVestingFund := s₁.totalVestingFund - c, totalVestingShares := s₁.totalVestingShares - d }

theorem settledLedger_bank (s : Ledger) (name : AccountName) (w d c shares : Int) : ∃ rate next,
    (s.settledLedger name w d c shares).bank =
      { s.bank.edit name (.settled w c rate next) with fund := s.bank.fund - c, shares := s.bank.shares - d } ∧
      ((s.accounts.row name).vestingWithdrawRate = 0 → rate = 0) := by
  have hrow : ((s.sharesSenderRecalcEnergy name shares).accounts.row name).toAccountBook =
      (s.accounts.row name).toAccountBook :=
    congrArg (fun b : Bank => b.accounts.row name) (bank_sharesSenderRecalcEnergy (s := s))
  obtain ⟨rate, next, hbook, hrate⟩ :=
    settleWithdrawal_book (w := w) (c := c) (r := (s.sharesSenderRecalcEnergy name shares).accounts.row name)
  refine ⟨rate, next, ?_, ?_⟩
  · have hedit : ((s.sharesSenderRecalcEnergy name shares).modifyAccount name (settleWithdrawal w c)).bank =
        s.bank.edit name (.settled w c rate next) := by
      rw [bank_modifyAccount hbook, bank_sharesSenderRecalcEnergy]
    exact congrArg (fun b : Bank => { b with fund := s.bank.fund - c, shares := s.bank.shares - d }) hedit
  · intro h₀
    apply hrate
    rw [hrow]
    exact h₀

/-- **The end of a turn** is one settlement. -/
theorem settle_moves {name : AccountName} {w d c shares : Int} (hw : 0 ≤ w)
    (h : (if 0 < w then (s.settledLedger name w d c shares).adjustProxiedValidatorVotes name (-w)
      else .ok (s.settledLedger name w d c shares)) = .ok s') :
    Vested s s' ∧ s'.bank.fund = s.bank.fund - c ∧ s'.bank.shares = s.bank.shares - d ∧
      ∃ rate next, ((s.accounts.row name).vestingWithdrawRate = 0 → rate = 0) ∧
        Spread name (single (-w)) (s.bank.accounts.modify name (.settled w c rate next)) s'.bank.accounts ∧
        s'.bank = { s.bank with
          accounts := s'.bank.accounts, fund := s.bank.fund - c, shares := s.bank.shares - d } := by
  obtain ⟨rate, next, hbank, hrate⟩ := settledLedger_bank s name w d c shares
  have hvested : Vested s (s.settledLedger name w d c shares) := ⟨rfl, rfl, .refl⟩
  by_cases hpos : 0 < w
  · rw [if_pos hpos] at h
    have hc := adjustProxiedValidatorVotes_carried h
    have heq := hc.bank_eq
    rw [hbank] at heq
    refine ⟨hvested.trans (.of_carried hc), by rw [heq], by rw [heq], rate, next, hrate, ?_, heq⟩
    have hs := hc.spread
    rw [hbank] at hs
    exact hs
  · rw [if_neg hpos] at h
    obtain rfl := Except.ok.inj h
    have hzero : w = 0 := by omega
    refine ⟨hvested, by rw [hbank], by rw [hbank], rate, next, hrate, ?_, by rw [hbank]; rfl⟩
    rw [hbank, hzero]
    refine ⟨rfl, fun c' _ => ?_⟩
    refine (AccountBook.countMore_zero (fun d _ => ?_) _).symm
    exact Forest.lifted_zero (fun j _ => by unfold single; rw [neg_zero, ite_self])

/-- What is known when an account's turn is over. -/
structure Turn (name : AccountName) (s s' : Ledger) : Prop where
  mem    : name ∈ s.accounts.keys
  vested : Vested s s'
  course : ∀ P : Terms, Course P 0 s.bank s'.bank
  price  : InOrder 0 s.bank → PriceHolds s.bank s'.bank

/-- The routes of an account lead to accounts. -/
theorem mem_routesOf {r : AccountName × Route} (h : r ∈ s.routesOf a) : r.1 ∈ s.accounts.keys := by
  unfold routesOf at h
  obtain ⟨x, hx, hr⟩ := List.mem_filterMap.mp h
  obtain ⟨y, -, rfl⟩ := Option.map_eq_some_iff.mp hr
  exact List.mem_of_mem_drop hx

/-- **One account's turn.** -/
theorem withdrawFrom_turn {name : AccountName} (h : s.withdrawFrom name = .ok s') : Turn name s s' := by
  simp only [withdrawFrom, bind_eq_ok, getAccount_eq_ok] at h
  obtain ⟨r, ⟨hname, rfl⟩, w, hw, ⟨s₁, asVests⟩, h₁, ⟨s₂, asTokens⟩, h₂, c, hc, h⟩ := h
  obtain ⟨hw₀, hwle, hwzero⟩ := withdrawalAmount_spec hw
  have hroutes : ∀ r ∈ s.routesOf name, r.1 ∈ s.accounts.keys := fun r hr => mem_routesOf hr
  obtain ⟨hV, hsh⟩ := depositShares_fold hw₀ hroutes h₁
  obtain ⟨hT, hca⟩ := depositTokens_fold hw₀ (fun r hr => hsh.vested.keys ▸ hroutes r hr) h₂
  dsimp only at hV hT hsh hca hc h
  rw [zero_add] at hV hT
  subst hV hT
  obtain ⟨hvested, hfund, hshares, rate, next, hrate, hspread, hbank⟩ := settle_moves (s := s₂) hw₀ h
  -- what the routes and the books in order say about the amounts
  have hdue : InOrder 0 s.bank → sharesDue w (s.routesOf name) + tokensDue w (s.routesOf name) ≤ w :=
    fun hb => due_le hw₀ (hb.routes.within name)
  have hhas : InOrder 0 s.bank → w ≤ (s.accounts.row name).vestingShares := by
    intro hb
    have := hb.backed.account name hname
    exact hwle.trans (max_eq_left this).le
  have htotal : InOrder 0 s.bank → w ≤ s.totalVestingShares := by
    intro hb
    have hle := Table.le_total (t := s.bank.accounts) (g := fun _ r => r.vestingShares) hb.backed.account hname
    have hsum := hb.backed.total
    rw [add_zero] at hsum
    exact (hhas hb).trans (hle.trans hsum.ge)
  have hVnn := sharesDue_nonneg hw₀ (s.routesOf name)
  have hTnn := tokensDue_nonneg hw₀ (s.routesOf name)
  have hname₂ : name ∈ s₂.accounts.keys := hca.vested.keys.symm ▸ hsh.vested.keys.symm ▸ hname
  have hshares₂ : s₂.bank.shares = s.bank.shares - tokensDue w (s.routesOf name) :=
    hca.shares.trans (congrArg (· - _) hsh.shares)
  have hfits : InOrder 0 s.bank → tokensDue w (s.routesOf name) ≤ s₁.totalVestingShares := by
    intro hb
    have := hdue hb
    have := htotal hb
    rw [hsh.shares]
    omega
  have hconv : InOrder 0 s.bank → 0 ≤ max (w - tokensDue w (s.routesOf name) - sharesDue w (s.routesOf name)) 0 ∧
      max (w - tokensDue w (s.routesOf name) - sharesDue w (s.routesOf name)) 0 ≤ s₂.bank.shares := by
    intro hb
    have := hdue hb
    have : w ≤ s.bank.shares := htotal hb
    rw [hshares₂]
    omega
  refine ⟨hname, hsh.vested.trans (hca.vested.trans hvested), ?_, ?_⟩
  · intro P
    have hm₁ := hsh.moves (InOrder 0 s.bank) (Solvent s.bank ∧ P.covered)
    have hm₂ := hca.moves (InOrder 0 s.bank) (Solvent s.bank ∧ P.covered) hfits
    have hw₂ : InOrder 0 s.bank → 0 ≤ w ∧ w ≤ (s₂.bank.accounts.row name).vestingShares := by
      intro hb
      have hgrow := hsh.grows name hname
      have hsame := hca.same name (hsh.vested.keys.symm ▸ hname)
      exact ⟨hw₀, (hhas hb).trans (hgrow.trans hsame.ge)⟩
    have hk₂ : InOrder 0 s.bank → name ∈ Config.keyless → w = 0 ∧ rate = 0 := by
      intro hb hk
      have hb₂ := hm₂.inOrder hb (hm₁.inOrder hb hb)
      exact ⟨hwzero (hb.sealed.toWithdraw_eq hk) (hb.sealed.withdrawn_eq hk) (hb.sealed.rate_eq hk),
        hrate (hb₂.sealed.rate_eq hk)⟩
    have hm₃ := Moves.of (Move.settle (C := Solvent s.bank ∧ P.covered) (b := s₂.bank) hname₂ hc hconv hw₂ hk₂ hspread)
    rw [← hbank] at hm₃
    have hm := ((hm₁.trans hm₂).trans hm₃).mono (fun hK : InOrder 0 s.bank ∧ P.signed => hK.1) id
    refine ⟨_, hm.cast (by decide) rfl, ?_⟩
    intro hb
    have := hdue hb.1
    omega
  · intro hb
    have hsame : PriceHolds s.bank s₁.bank := by
      intro hpos
      have h₁ : s₁.bank.shares = s.bank.shares := hsh.shares
      have h₂ : s₁.bank.fund = s.bank.fund := hsh.fund
      rw [h₁] at hpos ⊢
      rw [h₂]
      exact ⟨hpos, le_rfl⟩
    have hb₁ := (hsh.moves True True).backed trivial hb.backed
    have hb₂ := (hca.moves True True (fun _ => hfits hb)).backed trivial hb₁
    refine hsame.trans ((hca.price _ hb₁ (hfits hb)).trans ?_)
    intro hpos
    have hpos₂ : 0 < s₂.bank.shares := by
      have := (hconv hb).1
      omega
    refine ⟨hpos₂, ?_⟩
    rw [hfund, hshares]
    exact (hb₂.worth (hconv hb).1 (hconv hb).2 hc).2.2 hpos₂

/-- **The loop over the accounts that are due.** -/
theorem withdrawalLoop_course {fuel : Nat} {next : Option AccountName} {P : Terms}
    (h : withdrawalLoop fuel next s = .ok s') : Course P 0 s.bank s'.bank ∧ Vested s s' := by
  induction fuel generalizing next s with
  | zero =>
      obtain rfl := Except.ok.inj h
      exact ⟨.refl, .refl s⟩
  | succ fuel ih =>
      cases next with
      | none =>
          obtain rfl := Except.ok.inj h
          exact ⟨.refl, .refl s⟩
      | some name =>
          unfold withdrawalLoop at h
          by_cases hdue : (s.accounts.row name).nextVestingWithdrawal ≤ s.time
          · rw [if_pos hdue, bind_eq_ok] at h
            obtain ⟨s₁, h₁, h⟩ := h
            have hturn := withdrawFrom_turn h₁
            obtain ⟨hc, hv⟩ := ih h
            exact ⟨(hturn.course P).trans hc, hturn.vested.trans hv⟩
          · rw [if_neg hdue] at h
            obtain rfl := Except.ok.inj h
            exact ⟨.refl, .refl s⟩

theorem processVestingWithdrawals_course {P : Terms} (h : s.processVestingWithdrawals = .ok s') :
    Course P 0 s.bank s'.bank ∧ Vested s s' := withdrawalLoop_course h

end Ledger

end VizNode
