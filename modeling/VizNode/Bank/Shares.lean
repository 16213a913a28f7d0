import VizNode.Bank.Moves
import Mathlib.Tactic.Linarith

/-!
# `VizNode.Bank.Shares` — shares and what backs them

The shares on the books are the shares of the accounts, and the vesting fund backs them at no less than the
price at which the first ones were sold, a thousand for a token. The second half is what keeps the price
well defined: **a fund that runs empty has no shares left**, so the starting price never comes back while
somebody holds shares.

Every conversion rounds against the one who converts. That is why the price never falls for the others.
-/

namespace VizNode

namespace Bank

/-- **Shares in order**: the shares on the books are those of the accounts and `τ` more, which are in flight;
    no account has fewer than none; and the fund backs them. -/
structure Backed (τ : Int) (b : Bank) : Prop where
  total   : b.shares = b.accounts.total (fun _ r => r.vestingShares) + τ
  account : ∀ a ∈ b.accounts.keys, 0 ≤ (b.accounts.row a).vestingShares
  shares  : 0 ≤ b.shares
  backed  : b.shares ≤ 1000 * b.fund

namespace Backed

variable {τ : Int} {b : Bank} {tokens n d c : Int}

/-- **What tokens buy**: the price does not fall. -/
theorem buys (h : Backed τ b) (hb : b.Buys tokens n) :
    0 ≤ tokens ∧ 0 ≤ n ∧ b.shares + n ≤ 1000 * (b.fund + tokens) ∧
      (0 < b.shares → b.fund * (b.shares + n) ≤ (b.fund + tokens) * b.shares) := by
  have hs := h.shares
  have hf := h.backed
  unfold Bank.Buys Bank.price at hb
  by_cases hz : b.fund = 0 ∨ b.shares = 0
  · rw [if_pos hz] at hb
    obtain ⟨-, hnn, hn⟩ := Ledger.mulDiv_eq_ok.mp hb
    dsimp only at hnn hn
    refine ⟨by omega, by omega, by omega, ?_⟩
    intro hpos
    omega
  · rw [if_neg hz] at hb
    obtain ⟨hfund, hnn, hn⟩ := Ledger.mulDiv_eq_ok.mp hb
    dsimp only at hfund hnn hn
    have hpos : 0 < b.shares := by omega
    have ht : 0 ≤ tokens := nonneg_of_mul_nonneg_left hnn hpos
    have hle : n * b.fund ≤ tokens * b.shares := hn ▸ Int.ediv_mul_le _ (ne_of_gt hfund)
    have hback : tokens * b.shares ≤ tokens * (1000 * b.fund) := mul_le_mul_of_nonneg_left hf ht
    have hn1000 : n ≤ 1000 * tokens := by
      apply le_of_mul_le_mul_right _ hfund
      linarith
    refine ⟨ht, hn ▸ Int.ediv_nonneg hnn hfund.le, by omega, ?_⟩
    intro _
    linarith

/-- **What shares are worth**: the price does not fall. -/
theorem worth (h : Backed τ b) (hd₀ : 0 ≤ d) (hd : d ≤ b.shares) (hc : b.Worth d c) :
    0 ≤ c ∧ b.shares - d ≤ 1000 * (b.fund - c) ∧
      (0 < b.shares → b.fund * (b.shares - d) ≤ (b.fund - c) * b.shares) := by
  have hs := h.shares
  have hf := h.backed
  unfold Bank.Worth Bank.price at hc
  by_cases hz : b.fund = 0 ∨ b.shares = 0
  · -- without a fund there are no shares, and none can be turned in
    rw [if_pos hz] at hc
    obtain ⟨-, -, hc⟩ := Ledger.mulDiv_eq_ok.mp hc
    dsimp only at hc
    refine ⟨by omega, by omega, ?_⟩
    intro hpos
    omega
  · rw [if_neg hz] at hc
    obtain ⟨hpos, hnn, hc⟩ := Ledger.mulDiv_eq_ok.mp hc
    dsimp only at hpos hnn hc
    have hle : c * b.shares ≤ d * b.fund := hc ▸ Int.ediv_mul_le _ (ne_of_gt hpos)
    refine ⟨hc ▸ Int.ediv_nonneg hnn hpos.le, ?_, fun _ => by linarith⟩
    apply le_of_mul_le_mul_right _ hpos
    have hback : (b.shares - d) * b.shares ≤ (b.shares - d) * (1000 * b.fund) :=
      mul_le_mul_of_nonneg_left hf (by omega)
    linarith

end Backed

/-! ## What a move does -/

section Steps

variable {K C : Prop} {δ σ τ : Int} {b b' : Bank} {t t' : Table AccountName AccountBook}

/-- The accounts' shares do not change. -/
theorem Backed.of_same {e : Bank} (h : Backed τ b)
    (hs : Table.Same AccountBook.vestingShares b.accounts e.accounts) (hshares : e.shares = b.shares)
    (hfund : b.fund ≤ e.fund) : Backed τ e where
  total   := by
    rw [hshares, h.total]
    exact congrArg (· + τ) (hs.total (g := fun _ n => n)).symm
  account := by
    intro a ha
    rw [hs.keys] at ha
    rw [hs.row a ha]
    exact h.account a ha
  shares  := hshares ▸ h.shares
  backed  := by
    have := h.backed
    omega

/-- Shares come to one account, or leave it. -/
theorem Backed.of_edit {e : Bank} {a : AccountName} {f : AccountBook → AccountBook} {n : Int}
    (h : Backed τ b) (ha : a ∈ b.accounts.keys)
    (hf : (f (b.accounts.row a)).vestingShares = (b.accounts.row a).vestingShares + n)
    (hn : 0 ≤ (b.accounts.row a).vestingShares + n)
    (hs : Table.Same AccountBook.vestingShares (b.accounts.modify a f) e.accounts)
    (hshares : 0 ≤ e.shares) (hback : e.shares ≤ 1000 * e.fund) (hτ : e.shares - b.shares - n = σ) :
    Backed (τ + σ) e where
  total   := by
    have htotal := h.total
    have hsum := hs.total (g := fun _ n => n)
    have hmod := Table.total_modify (g := fun _ r => r.vestingShares) (f := f) ha
    omega
  account := by
    intro c hc
    rw [hs.keys] at hc
    rw [hs.row c hc]
    exact Table.forall_modify (P := fun _ r => 0 ≤ r.vestingShares) h.account (fun _ => hf ▸ hn) c hc
  shares  := hshares
  backed  := hback

/-- **A move keeps the shares in order.** -/
theorem Move.backed (h : Move K C δ σ b b') (hK : K) (hb : Backed τ b) : Backed (τ + σ) b' := by
  have hshares := hb.shares
  have hback := hb.backed
  -- a move that leaves the shares of every account and the total alone
  have quiet : ∀ {e : Bank}, Table.Same AccountBook.vestingShares b.accounts e.accounts →
      e.shares = b.shares → b.fund ≤ e.fund → Backed (τ + 0) e := by
    intro e hs he hf
    rw [add_zero]
    exact hb.of_same hs he hf
  cases h with
  | funds _ supply fund _ _ _ hfund => exact quiet .refl rfl (by dsimp only; omega)
  | pay ha => exact quiet (.modify rfl) rfl le_rfl
  | @vest _ a tokens n t ha hn ht =>
      obtain ⟨htok, hn₀, hback', -⟩ := hb.buys hn
      exact hb.of_edit ha rfl (add_nonneg (hb.account a ha) hn₀) (ht.same (fun _ _ => rfl))
        (by dsimp only; omega) hback' (by dsimp only; omega)
  | @gain _ a n t ha hn ht =>
      exact hb.of_edit ha rfl (add_nonneg (hb.account a ha) hn) (ht.same (fun _ _ => rfl)) hshares hback
        (by dsimp only; omega)
  | @cash _ a d c ha hc hd =>
      obtain ⟨hd₀, hd⟩ := hd hK
      obtain ⟨-, hback', -⟩ := hb.worth hd₀ hd hc
      exact hb.of_edit (n := 0) ha (add_zero _).symm (by rw [add_zero]; exact hb.account a ha) .refl
        (by dsimp only; omega) hback' (by dsimp only; omega)
  | @settle _ a w d c rate next t ha hc hd hw hk ht =>
      obtain ⟨hd₀, hd⟩ := hd hK
      obtain ⟨-, hback', -⟩ := hb.worth hd₀ hd hc
      have hw := (hw hK).2
      exact hb.of_edit (n := -w) ha rfl (by omega) (ht.same (fun _ _ => rfl)) (by dsimp only; omega) hback'
        (by dsimp only; omega)
  | @drain _ a c hk ha hc hd =>
      obtain ⟨-, hback', -⟩ := hb.worth (hb.account a ha) (hd hK) hc
      have hd := hd hK
      exact hb.of_edit (n := -(b.accounts.row a).vestingShares) ha (add_neg_cancel _).symm
        (add_neg_cancel _).symm.le .refl (by dsimp only; omega) hback' (by dsimp only; omega)
  | @openAccount _ a auth ha =>
      have htotal := hb.total
      have hsum := Table.total_insert (g := fun _ (r : AccountBook) => r.vestingShares) (x := {}) ha
      dsimp only at hsum
      exact
        { total   := by dsimp only; omega
          account := Table.forall_insert (P := fun _ (r : AccountBook) => 0 ≤ r.vestingShares) hb.account le_rfl
          shares  := hshares
          backed  := hback }
  | authorise => exact quiet .refl rfl le_rfl
  | delegate => exact quiet ((Table.Same.modify rfl).trans (.modify rfl)) rfl le_rfl
  | undelegate => exact quiet (.modify rfl) rfl le_rfl
  | return_ hl hkeys ht => exact quiet ⟨hkeys, fun c hc => by rw [ht c hc]; rfl⟩ rfl le_rfl
  | plan => exact quiet (.modify rfl) rfl le_rfl
  | reroute => exact quiet .refl rfl le_rfl
  | setProxy ha hk hq ht ht' =>
      exact quiet (((ht.same (fun _ _ => rfl)).trans (.modify rfl)).trans (ht'.same (fun _ _ => rfl))) rfl le_rfl
  | offer => exact quiet (.modify rfl) rfl le_rfl
  | bid => exact quiet ((Table.Same.modify rfl).trans (.modify rfl)) rfl le_rfl
  | release => exact quiet ((Table.Same.modify rfl).trans (.modify rfl)) rfl le_rfl
  | sell => exact quiet (((Table.Same.modify rfl).trans (.modify rfl)).trans (.modify rfl)) rfl le_rfl
  | unbid => exact quiet (.modify rfl) rfl le_rfl

theorem Moves.backed (h : Moves K C δ σ b b') (hK : K) (hb : Backed τ b) : Backed (τ + σ) b' := by
  induction h with
  | refl => rwa [add_zero]
  | tail _ hm ih =>
      rw [← add_assoc]
      exact hm.backed hK (ih hb)

end Steps

end Bank

end VizNode
