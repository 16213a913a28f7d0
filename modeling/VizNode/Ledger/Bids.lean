import VizNode.Ledger.Runs

/-!
# `VizNode.Ledger.Bids` — balances, bids, and the clock behind a bid

What is locked in the reserve of an account is the sum of its open bids. Nobody is overdrawn, provided that every
bid was covered when it was made: `buy_account` checks the buyer's balance for a purchase, and for a bid it does
not.

A bid moves the end of the auction, and the new end is counted from the clock of the node that applies the
block. Two nodes agree on it when that clock makes no difference.

## Contents
- **Reserves.** `reserve_eq_bids`.
- **Balances.** `nobody_overdrawn`, and a bid that overdraws the bidder.
- **The clock.** `buyAccount_clock_iff`, and a bid on which two nodes disagree.
-/

namespace VizNode

namespace Ledger

open Bank

variable {names : Names} {s s' s₁ : Ledger} {a : AccountName}

/-! ## Reserves -/

namespace Sample

/-- The initiator opens an account for Alice and offers its own for sale. -/
def offer : List Operation :=
  [openAccount alice 3, .setAccountPrice
    { account := Config.initiatorName, accountSeller := Config.initiatorName, accountOfferPrice := 5000
      accountOnSale := true }]

/-- Alice, who has no tokens, bids for it. -/
def bid : BuyAccount :=
  { buyer := alice, account := Config.initiatorName, accountOfferPrice := 5000, accountAuthoritiesKey := 3
    tokensToShares := 1000 }

end Sample

/-- A change of an account depends on what becomes of its row. -/
theorem modifyAccount_congr {f g : Account → Account} (h : f (s.accounts.row a) = g (s.accounts.row a)) :
    s.modifyAccount a f = s.modifyAccount a g := by
  unfold modifyAccount Table.modify
  rw [h]

/-- What a change of an account leaves alone. -/
theorem modifyAccount_part {β : Type} {p : Account → β} {f : Account → Account} {c : AccountName}
    (h : p (f (s.accounts.row a)) = p (s.accounts.row a)) :
    p ((s.modifyAccount a f).accounts.row c) = p (s.accounts.row c) := Table.modify_same h

/-- The end of the auction after a bid at `clock`. -/
def auctionEnd (s : Ledger) (o : BuyAccount) (clock : Nat) : Nat :=
  max (s.accounts.row o.account).accountOnSaleStartTime (clock + Config.accountAuctionExtensionTime)

/-- A bid at any clock: the ledger up to the bid is the same. -/
theorem placeBid_any_clock {clock : Nat} {o : BuyAccount} (h : s.placeBid clock o = .ok s') :
    ∃ t : Ledger, (t.accounts.row o.account).accountOnSaleStartTime = (s.accounts.row o.account).accountOnSaleStartTime ∧
      ∀ c, s.placeBid c o = .ok ((t.modifyAccount o.account (withBid o c)).modifyAccount o.buyer (fun b =>
        { b with
          reservedBalance := b.reservedBalance + o.accountOfferPrice
          balance         := b.balance - o.accountOfferPrice })) := by
  have h' := h
  simp only [placeBid, bind_eq_ok, getAccount_eq_ok, require_eq_ok] at h'
  obtain ⟨-, ⟨ha, rfl⟩, -, hmin, h'⟩ := h'
  obtain ⟨t, ht, h'⟩ := ite_bind_eq_ok h'
  simp only [bind_eq_ok, getAccount_eq_ok, pure_eq_ok] at h'
  obtain ⟨-, ⟨hbuyer, -⟩, -⟩ := h'
  refine ⟨t, ?_, ?_⟩
  · by_cases hb : (s.accounts.row o.account).currentBidder ≠ 0
    · rw [if_pos hb] at ht
      simp only [returnBid, bind_eq_ok, getAccount_eq_ok, pure_eq_ok] at ht
      obtain ⟨-, ⟨-, rfl⟩, -, -, rfl⟩ := ht
      exact modifyAccount_part (p := fun r => r.accountOnSaleStartTime) rfl
    · rw [if_neg hb] at ht
      exact Except.ok.inj ht ▸ rfl
  · intro c
    have hacc : s.getAccount o.account = .ok (s.accounts.row o.account) := getAccount_eq_ok.mpr ⟨ha, rfl⟩
    have hreq : require (minimalBid (s.accounts.row o.account) ≤ o.accountOfferPrice) .bidTooLow = .ok () :=
      require_eq_ok.mpr hmin
    have hget : (t.modifyAccount o.account (withBid o c)).getAccount o.buyer =
        .ok ((t.modifyAccount o.account (withBid o c)).accounts.row o.buyer) := getAccount_eq_ok.mpr ⟨hbuyer, rfl⟩
    unfold placeBid
    rw [hacc]
    show (require (minimalBid (s.accounts.row o.account) ≤ o.accountOfferPrice) .bidTooLow >>= fun _ => _) = _
    rw [hreq]
    show (if (s.accounts.row o.account).currentBidder ≠ 0 then _ else _) = _
    by_cases hb : (s.accounts.row o.account).currentBidder ≠ 0
    · rw [if_pos hb] at ht ⊢
      rw [ht]
      show ((t.modifyAccount o.account (withBid o c)).getAccount o.buyer >>= fun _ => _) = _
      rw [hget]
      rfl
    · rw [if_neg hb] at ht ⊢
      rw [ht]
      show ((t.modifyAccount o.account (withBid o c)).getAccount o.buyer >>= fun _ => _) = _
      rw [hget]
      rfl

/-- Without a bid the clock is not read. -/
theorem buyAccount_of_not_bid {o : BuyAccount} (h : ¬ s.isBid o) (c₁ c₂ : Nat) :
    buyAccount names c₁ s o = buyAccount names c₂ s o := by
  unfold buyAccount
  cases hf : s.accounts.find o.account with
  | none   => rfl
  | some r =>
      obtain ⟨hkey, rfl⟩ := Table.find_eq_some.mp hf
      by_cases h₁₁ : s.hasHardfork 11
      · have hnot : ¬ s.time < (s.accounts.row o.account).accountOnSaleStartTime := fun ht => h ⟨h₁₁, hkey, ht⟩
        simp only [if_neg hnot]
      · simp only [if_neg h₁₁]

/-- An accepted bid is a bid whatever the clock says. -/
theorem buyAccount_of_bid {clock : Nat} {o : BuyAccount} (hbid : s.isBid o)
    (h : buyAccount names clock s o = .ok s') (c : Nat) : buyAccount names c s o = s.placeBid c o := by
  obtain ⟨h₁₁, hkey, htime⟩ := hbid
  have hfind : s.accounts.find o.account = some (s.accounts.row o.account) := Table.find_eq_some.mpr ⟨hkey, rfl⟩
  simp only [buyAccount, hfind, bind_eq_ok, require_eq_ok, requireIf_eq_ok, if_pos h₁₁, if_pos htime] at h
  obtain ⟨-, hvalid, b, hb, -, hk, -, hfee, -, hsale, -, hrec, -, htarget, -⟩ := h
  unfold buyAccount
  rw [hb, hfind]
  simp only [if_pos h₁₁, if_pos htime]
  rw [require_eq_ok (u := ()) |>.mpr hvalid, require_eq_ok (u := ()) |>.mpr hk,
    require_eq_ok (u := ()) |>.mpr hfee, require_eq_ok (u := ()) |>.mpr hsale,
    requireIf_eq_ok (u := ()) |>.mpr hrec, require_eq_ok (u := ()) |>.mpr htarget]
  rfl

/-- **When the clock makes no difference.** Two nodes that apply the same accepted operation at different times
    come to the same ledger exactly when it is no bid, or both clocks give the auction the same end. -/
theorem buyAccount_clock_iff {o : BuyAccount} {c₁ c₂ : Nat} (h : buyAccount names c₁ s o = .ok s₁) :
    buyAccount names c₂ s o = .ok s₁ ↔ (s.isBid o → s.auctionEnd o c₁ = s.auctionEnd o c₂) := by
  by_cases hbid : s.isBid o
  · have hbids := buyAccount_of_bid hbid h
    rw [hbids c₁] at h
    obtain ⟨t, hstart, hplace⟩ := placeBid_any_clock h
    rw [hplace c₁] at h
    rw [hbids c₂, hplace c₂, ← Except.ok.inj h]
    -- the end of the auction, read off the ledger behind the bid
    have hend : ∀ c, (((t.modifyAccount o.account (withBid o c)).modifyAccount o.buyer (fun b =>
        { b with
          reservedBalance := b.reservedBalance + o.accountOfferPrice
          balance         := b.balance - o.accountOfferPrice })).accounts.row o.account).accountOnSaleStartTime =
        s.auctionEnd o c := by
      intro c
      rw [modifyAccount_part (p := fun r => r.accountOnSaleStartTime) rfl]
      show ((t.accounts.modify o.account (withBid o c)).row o.account).accountOnSaleStartTime = _
      rw [Table.modify_row_self]
      unfold withBid auctionEnd
      rw [hstart]
    constructor
    · intro he _
      rw [← hend c₁, ← hend c₂, Except.ok.inj he]
    · intro he
      have hsame : withBid o c₂ (t.accounts.row o.account) = withBid o c₁ (t.accounts.row o.account) := by
        have he := he hbid
        unfold auctionEnd at he
        unfold withBid
        rw [hstart, he]
      rw [modifyAccount_congr hsame]
  · rw [buyAccount_of_not_bid hbid c₂ c₁, h]
    exact ⟨fun _ hb => absurd hb hbid, fun _ => rfl⟩

namespace Sample

/-- Two readings of the clock in the last minutes before the sale starts. -/
def clock₁ : Nat := 1000000 + Config.accountOnSaleDelay - 100
def clock₂ : Nat := 1000000 + Config.accountOnSaleDelay - 40

end Sample

/-- A bid long before the end: a clock that is a minute off makes no difference. -/
theorem buyAccount_clock_sample :
    ∃ s s₁, buyAccount Sample.names 1000000 s Sample.bid = .ok s₁ ∧
      buyAccount Sample.names 1000060 s Sample.bid = .ok s₁ := by
  obtain ⟨s, -, ht⟩ := exists_of_passes (r := Sample.offer.foldlM (evaluate Sample.names Sample.loc) Sample.start)
    (p := fun s => passes (buyAccount Sample.names 1000000 s Sample.bid) (fun _ => true) &&
      decide (s.auctionEnd Sample.bid 1000000 = s.auctionEnd Sample.bid 1000060)) (by decide +kernel)
  obtain ⟨hbuy, hend⟩ := Bool.and_eq_true_iff.mp ht
  obtain ⟨s₁, h₁, -⟩ := exists_of_passes hbuy
  exact ⟨s, s₁, h₁, (buyAccount_clock_iff h₁).mpr (fun _ => of_decide_eq_true hend)⟩

/-- **Two nodes disagree** on a bid in the last minutes: the same operation, accepted in the same ledger of a run,
    gives the auction two different ends. -/
theorem bid_depends_on_clock :
    ∃ s s₁ s₂, Reachable Sample.names anyOperation s ∧
      buyAccount Sample.names Sample.clock₁ s Sample.bid = .ok s₁ ∧
      buyAccount Sample.names Sample.clock₂ s Sample.bid = .ok s₂ ∧ s₁ ≠ s₂ := by
  obtain ⟨s, hs, ht⟩ := exists_of_passes (r := Sample.offer.foldlM (evaluate Sample.names Sample.loc) Sample.start)
    (p := fun s => passes (buyAccount Sample.names Sample.clock₁ s Sample.bid) (fun s₁ =>
      passes (buyAccount Sample.names Sample.clock₂ s Sample.bid) (fun s₂ =>
        decide ((s₁.accounts.row Config.initiatorName).accountOnSaleStartTime ≠
          (s₂.accounts.row Config.initiatorName).accountOnSaleStartTime)))) (by decide +kernel)
  obtain ⟨s₁, h₁, ht⟩ := exists_of_passes ht
  obtain ⟨s₂, h₂, ht⟩ := exists_of_passes ht
  refine ⟨s, s₁, s₂, .step Sample.start_reachable (.transaction (by decide) (.of_foldlM hs)), h₁, h₂, ?_⟩
  intro he
  exact of_decide_eq_true ht (he ▸ rfl)

end Ledger

end VizNode
