import VizNode.Ledger.Payments

/-!
# `VizNode.Ledger.Auctions` — what the sale of accounts does to the bank

The evaluators of `VizNode.Ledger.Sales`. A bid that goes back and the traces it leaves on the account are one
move, however far apart the source writes them: the bidder first, the account at the very end of the operation.

**The bid is the only place where tokens leave an account unchecked.** `Covered` says when the buyer has them,
and the course of a purchase counts on it only to say that nobody is overdrawn.

## Contents
- **Bids that go back.** `returnBid_course`.
- **Offers, purchases, the end of an auction.**
-/

namespace VizNode

namespace Bank

variable {b : Bank} {a : AccountName}

/-- Two changes of one account. -/
theorem edit_edit {f g : AccountBook → AccountBook} : (b.edit a f).edit a g = b.edit a (fun r => g (f r)) :=
  congrArg (fun t => { b with accounts := t }) Table.modify_modify

end Bank

namespace Ledger

open Bank

variable {s s' s₁ : Ledger} {a : AccountName} {P : Terms} {names : Names}

/-! ## Bids that go back -/

/-- A bid goes back, and the account has none. -/
theorem returnBid_course (h : s.returnBid a = .ok s₁) : Course P 0 s.bank (s₁.bank.edit a .unbid) := by
  simp only [returnBid, bind_eq_ok, getAccount_eq_ok, pure_eq_ok] at h
  obtain ⟨-, ⟨ha, rfl⟩, -, ⟨hb, -⟩, rfl⟩ := h
  rw [bank_modifyAccount (g := .unlock (s.accounts.row a).currentBid) rfl]
  exact .of_moves (.of (.release ha hb))

theorem returnBid_keys (h : s.returnBid a = .ok s₁) : s₁.accounts.keys = s.accounts.keys := by
  simp only [returnBid, bind_eq_ok, pure_eq_ok] at h
  obtain ⟨r, -, -, -, rfl⟩ := h
  rfl

/-- The account is off the market: no bid and no offer. -/
theorem withdrawnOffer_course {f : Account → Account} {b : Bank} (hc : Course P 0 b (s.bank.edit a .unbid))
    (hf : (f (s.accounts.row a)).toAccountBook = (s.accounts.row a).toAccountBook.unbid.forSale false) :
    Course P 0 b (s.modifyAccount a f).bank := by
  rw [bank_modifyAccount (g := fun r => r.unbid.forSale false) hf, ← edit_edit]
  exact hc.next (.offer false (fun _ he => absurd he Bool.false_ne_true))

/-! ## Offers -/

theorem paySaleFee_course {seller : AccountName} {fee : Nat} (h : s.paySaleFee a seller fee = .ok s') :
    Course P 0 s.bank s'.bank := by
  unfold paySaleFee at h
  by_cases hs : seller = 0
  · rw [if_pos hs] at h
    exact payFee_course h
  · rw [if_neg hs] at h
    exact Except.ok.inj h ▸ .refl

/-- What a new offer leaves on the book of an account. -/
theorem offered_book {o : SetAccountPrice} {now : Nat} {dropped : Bool} {r : Account} :
    (offered o now dropped r).toAccountBook = if o.accountOnSale
      then (if dropped then r.toAccountBook.unbid else r.toAccountBook).forSale true
      else r.toAccountBook.unbid.forSale false := by
  unfold offered
  cases o.accountOnSale with
  | false => rfl
  | true =>
      cases dropped with
      | false => rfl
      | true  => rfl

/-- **A new offer.** `dropped` is whether it sends the bid back; when the sale is called off it has to, if there
    is a bid. -/
theorem offered_course {b : Bank} {o : SetAccountPrice} {dropped : Bool} {s₂ : Ledger} {f : Account → Account}
    (hc : Course P 0 b s₁.bank) (hk : InOrder 0 b ∧ P.signed → a ∉ Config.keyless)
    (hdrop : o.accountOnSale = false → dropped = false →
      (s₁.accounts.row a).accountOnAuction = false ∨ (s₁.accounts.row a).currentBidder = 0)
    (h₂ : (if dropped then s₁.returnBid a else pure s₁) = .ok s₂)
    (hf : ∀ r, (f r).toAccountBook = (offered o s₂.time dropped r).toAccountBook) :
    Course P 0 b (s₂.modifyAccount a f).bank := by
  have hbook := hf (s₂.accounts.row a)
  rw [offered_book] at hbook
  cases hd : dropped with
  | true =>
      rw [hd, if_pos rfl] at h₂
      have hback := hc.chain (returnBid_course h₂)
      cases hs : o.accountOnSale with
      | false =>
          rw [hs, if_neg Bool.false_ne_true] at hbook
          exact withdrawnOffer_course hback hbook
      | true =>
          rw [hs, hd, if_pos rfl, if_pos rfl] at hbook
          rw [bank_modifyAccount (g := fun r => r.unbid.forSale true) hbook, ← edit_edit]
          exact hback.next (.offer true (fun hb _ => hk hb))
  | false =>
      rw [hd, if_neg Bool.false_ne_true, pure_eq_ok] at h₂
      subst h₂
      cases hs : o.accountOnSale with
      | false =>
          rw [hs, if_neg Bool.false_ne_true] at hbook
          exact withdrawnOffer_course (hc.next (.unbid (fun _ => hdrop hs hd))) hbook
      | true =>
          rw [hs, hd, if_pos rfl, if_neg Bool.false_ne_true] at hbook
          rw [bank_modifyAccount (g := .forSale true) hbook]
          exact hc.next (.offer true (fun hb _ => hk hb))

/-- Without a sale the bid goes back whenever there is one. -/
theorem auction_of_not_dropped {r : Account} (h : (r.accountOnAuction && decide (r.currentBidder ≠ 0)) = false) :
    r.accountOnAuction = false ∨ r.currentBidder = 0 := by
  rcases Bool.and_eq_false_iff.mp h with h | h
  · exact .inl h
  · exact .inr (not_not.mp (of_decide_eq_false h))

theorem setAccountPrice_course {o : SetAccountPrice} (h : setAccountPrice names s o = .ok s')
    (hk : InOrder 0 s.bank ∧ P.signed → o.account ∉ Config.keyless) : Course P 0 s.bank s'.bank := by
  simp only [setAccountPrice, bind_eq_ok, getAccount_eq_ok] at h
  obtain ⟨-, -, -, ⟨-, rfl⟩, -, -, h⟩ := h
  by_cases h₁₁ : s.hasHardfork 11
  · rw [if_pos h₁₁] at h
    simp only [bind_eq_ok] at h
    obtain ⟨s₁, h₁, h⟩ := h
    obtain ⟨s₂, h₂, h⟩ := ite_bind_eq_ok h
    rw [← pure_eq_ok.mp h]
    refine offered_course (paySaleFee_course h₁) hk (fun hs hd => auction_of_not_dropped ?_) h₂ (fun _ => rfl)
    unfold offerDropsBid at hd
    rwa [hs, if_neg Bool.false_ne_true] at hd
  · rw [if_neg h₁₁] at h
    obtain ⟨s₁, h₁, h⟩ := ite_bind_eq_ok h
    have hfee : Course P 0 s.bank s₁.bank := by
      by_cases h₉ : s.hasHardfork 9
      · rw [if_pos h₉] at h₁
        exact paySaleFee_course h₁
      · rw [if_neg h₉] at h₁
        exact Except.ok.inj h₁ ▸ .refl
    rw [← pure_eq_ok.mp h, bank_modifyAccount (g := .forSale o.accountOnSale) rfl]
    exact hfee.next (.offer o.accountOnSale (fun hb _ => hk hb))

theorem targetAccountSale_course {o : TargetAccountSale} (h : targetAccountSale names s o = .ok s')
    (hk : InOrder 0 s.bank ∧ P.signed → o.account ∉ Config.keyless) : Course P 0 s.bank s'.bank := by
  simp only [targetAccountSale, bind_eq_ok] at h
  obtain ⟨-, -, r, -, -, -, -, -, s₁, h₁, h⟩ := h
  obtain ⟨s₂, h₂, h⟩ := ite_bind_eq_ok h
  rw [← pure_eq_ok.mp h]
  refine offered_course (paySaleFee_course h₁) hk (fun hs hd => auction_of_not_dropped ?_) h₂ (fun _ => rfl)
  unfold targetDropsBid at hd
  rwa [hs, if_neg Bool.false_ne_true] at hd

theorem setSubaccountPrice_course {account seller : AccountName} {price : Nat} {onSale : Bool}
    (h : setSubaccountPrice names s account seller price onSale = .ok s') : Course P 0 s.bank s'.bank := by
  simp only [setSubaccountPrice, bind_eq_ok] at h
  obtain ⟨-, -, r, -, -, -, h⟩ := h
  obtain ⟨s₁, h₁, h⟩ := ite_bind_eq_ok h
  rw [← pure_eq_ok.mp h, bank_modifyAccount_same rfl]
  by_cases h₉ : s.hasHardfork 9
  · rw [if_pos h₉] at h₁
    exact paySaleFee_course h₁
  · rw [if_neg h₉] at h₁
    exact Except.ok.inj h₁ ▸ .refl

/-! ## Purchases -/

/-- A purchase is a bid while the sale has not started. -/
def isBid (s : Ledger) (o : BuyAccount) : Prop :=
  s.hasHardfork 11 = true ∧ o.account ∈ s.accounts.keys ∧
    s.time < (s.accounts.row o.account).accountOnSaleStartTime

instance (s : Ledger) (o : BuyAccount) : Decidable (s.isBid o) := inferInstanceAs (Decidable (_ ∧ _))

/-- **The buyer has the bid**, counting what its own last bid on the account gives back. -/
def Covered (s : Ledger) (o : BuyAccount) : Prop :=
  s.isBid o → (o.accountOfferPrice : Int) ≤ (s.accounts.row o.buyer).balance
    + if (s.accounts.row o.account).currentBidder = o.buyer then ((s.accounts.row o.account).currentBid : Int) else 0

instance (s : Ledger) (o : BuyAccount) : Decidable (s.Covered o) := inferInstanceAs (Decidable (_ → _))

/-- An account that is on sale has a key. -/
theorem not_keyless_of_onSale (h : (s.accounts.row a).accountOnSale = true) (hb : InOrder 0 s.bank ∧ P.signed) :
    a ∉ Config.keyless := by
  intro hk
  have hoff : (s.accounts.row a).accountOnSale = false := hb.1.sealed.not_onSale hk
  rw [h] at hoff
  cases hoff

/-- The last bid is gone, and the bidder has it back. -/
theorem outbid_course {c : AccountName}
    (h : (if (s.accounts.row a).currentBidder ≠ 0 then s.returnBid a else pure s) = .ok s₁) :
    Course P 0 s.bank (s₁.bank.edit a .unbid) ∧ s₁.accounts.keys = s.accounts.keys ∧
      (c ≠ 0 → (s₁.accounts.row c).balance = (s.accounts.row c).balance
        + if (s.accounts.row a).currentBidder = c then ((s.accounts.row a).currentBid : Int) else 0) := by
  by_cases hb : (s.accounts.row a).currentBidder ≠ 0
  · rw [if_pos hb] at h
    refine ⟨returnBid_course h, returnBid_keys h, ?_⟩
    intro _
    simp only [returnBid, bind_eq_ok, getAccount_eq_ok, pure_eq_ok] at h
    obtain ⟨-, ⟨-, rfl⟩, -, -, rfl⟩ := h
    have hpart := Table.modify_part (t := s.accounts) (j := c) (k := (s.accounts.row a).currentBidder)
      (f := fun b : Account => { b with
        reservedBalance := b.reservedBalance - (s.accounts.row a).currentBid
        balance         := b.balance + (s.accounts.row a).currentBid })
      (p := fun r : Account => r.balance) (x := (s.accounts.row a).currentBid) rfl
    refine hpart.trans (congrArg ((s.accounts.row c).balance + ·) ?_)
    by_cases hc : c = (s.accounts.row a).currentBidder
    · rw [if_pos hc, if_pos hc.symm]
    · rw [if_neg hc, if_neg (fun he => hc he.symm)]
  · rw [if_neg hb, pure_eq_ok] at h
    have hb := not_not.mp hb
    subst h
    refine ⟨.next .refl (.unbid (fun _ => .inr hb)), rfl, ?_⟩
    intro hc
    rw [hb, if_neg (Ne.symm hc), add_zero]

/-- **A bid.** -/
theorem placeBid_course {clock : Nat} {o : BuyAccount} (h : s.placeBid clock o = .ok s')
    (hpos : 0 < o.accountOfferPrice) (hbuyer : o.buyer ≠ 0)
    (hsale : (s.accounts.row o.account).accountOnSale = true)
    (hP : P.covered → (o.accountOfferPrice : Int) ≤ (s.accounts.row o.buyer).balance
      + if (s.accounts.row o.account).currentBidder = o.buyer
        then ((s.accounts.row o.account).currentBid : Int) else 0) :
    Course P 0 s.bank s'.bank := by
  simp only [placeBid, bind_eq_ok, getAccount_eq_ok] at h
  obtain ⟨-, ⟨ha, rfl⟩, -, -, h⟩ := h
  obtain ⟨s₁, h₁, h⟩ := ite_bind_eq_ok h
  simp only [bind_eq_ok, getAccount_eq_ok, pure_eq_ok] at h
  obtain ⟨-, ⟨hb, -⟩, rfl⟩ := h
  obtain ⟨hc₁, hkeys, hbal⟩ := outbid_course (P := P) (c := o.buyer) h₁
  have hbid := hc₁.next (.bid (a := o.account) (x := o.accountOfferPrice)
    (hkeys ▸ ha) hb hpos hbuyer (fun _ => congrArg AccountBook.currentBidder Table.modify_row_self)
    (not_keyless_of_onSale hsale) (fun hC => by
      rw [show ((s₁.bank.edit o.account .unbid).accounts.row o.buyer).balance = (s₁.accounts.row o.buyer).balance from
        Table.modify_same (p := AccountBook.balance) rfl, hbal hbuyer]
      exact hP hC.2))
  rw [edit_edit] at hbid
  rw [bank_modifyAccount (g := .lock o.accountOfferPrice) rfl,
    bank_modifyAccount (g := .bidden o.accountOfferPrice o.buyer) rfl]
  exact hbid

/-- The buyer pays the price, and gives up the tokens for the shares. -/
theorem payPrice_course {o : BuyAccount} {seller : AccountName} {price : Nat}
    (h : s.payPrice o seller price = .ok s') : Course P o.tokensToShares s.bank s'.bank := by
  simp only [payPrice, bind_eq_ok, require_eq_ok, getAccount_eq_ok, pure_eq_ok] at h
  obtain ⟨-, ⟨hb, rfl⟩, -, ⟨hs, -⟩, -, -, -, hle, rfl⟩ := h
  have hprice : (price : Int) ≤ (s.accounts.row o.buyer).balance := by omega
  refine (Course.transfer hb hs (Int.natCast_nonneg price) hprice).trans (.debit (by exact hb) ?_) |>.cast
    (zero_add _)
  rw [adjustBalance_balance, adjustBalance_balance, if_pos rfl]
  by_cases hself : o.buyer = seller
  · rw [if_pos hself]
    omega
  · rw [if_neg hself]
    omega

theorem payPrice_frame {o : BuyAccount} {seller : AccountName} {price : Nat}
    (h : s.payPrice o seller price = .ok s') : s'.accounts.keys = s.accounts.keys := by
  simp only [payPrice, bind_eq_ok, pure_eq_ok] at h
  obtain ⟨r, -, -, -, -, -, -, -, rfl⟩ := h
  rfl

/-- An account of the market has another owner, who alone may sign for it. -/
theorem handedOver_course {b : Bank} {f : Account → Account} {auth : AccountAuthority} (hc : Course P 0 b s.bank)
    (hk : InOrder 0 b ∧ P.signed → a ∉ Config.keyless)
    (hf : (f (s.accounts.row a)).toAccountBook = (s.accounts.row a).toAccountBook.forSale false) :
    Course P 0 b { s.modifyAccount a f with authorities := s.authorities.modify a (fun _ => auth) }.bank := by
  have hbank : { s.modifyAccount a f with authorities := s.authorities.modify a (fun _ => auth) }.bank =
      { s.bank.edit a (.forSale false) with authorities := s.authorities.modify a (fun _ => auth) } :=
    congrArg (fun b : Bank => { b with authorities := s.authorities.modify a (fun _ => auth) })
      (bank_modifyAccount hf)
  rw [hbank]
  have hsold := hc.next (.offer (a := a) false (fun _ he => absurd he Bool.false_ne_true))
  exact hsold.next (.authorise (fun hb => modifyAuthority_keyless (hk hb)) (fun _ e he => .inl he))

/-- **A purchase.** -/
theorem buyNow_course {o : BuyAccount} (h : s.buyNow o = .ok s')
    (hsale : (s.accounts.row o.account).accountOnSale = true) : Course P 0 s.bank s'.bank := by
  simp only [buyNow, bind_eq_ok, pure_eq_ok] at h
  obtain ⟨r, -, s₁, h₁, s₂, h₂, rfl⟩ := h
  have hpaid : Course P 0 s.bank s₂.bank := ((payPrice_course h₁).trans (.vest h₂)).cast (add_neg_cancel _)
  exact handedOver_course hpaid (not_keyless_of_onSale hsale) rfl

/-- **A new subaccount.** -/
theorem buySubaccount_course {o : BuyAccount} (h : buySubaccount names s o = .ok s') :
    Course P 0 s.bank s'.bank := by
  unfold buySubaccount at h
  cases hn : names.splitName o.account with
  | none =>
      rw [hn] at h
      cases h
  | some p =>
      rw [hn] at h
      simp only [bind_eq_ok, createAccount_eq_ok] at h
      obtain ⟨r, -, -, -, -, -, s₁, h₁, s₂, ⟨hname, rfl⟩, h⟩ := h
      exact (((payPrice_course h₁).trans (.openAccount rfl hname)).trans (.vest h)).cast (by omega)

/-- **`buy_account`.** -/
theorem buyAccount_course {clock : Nat} {o : BuyAccount} (h : buyAccount names clock s o = .ok s')
    (hP : P.covered → s.Covered o) : Course P 0 s.bank s'.bank := by
  simp only [buyAccount, bind_eq_ok, require_eq_ok] at h
  obtain ⟨-, ⟨hvalid, -, hpos, -⟩, -, -, -, -, -, -, h⟩ := h
  have hbuyer : o.buyer ≠ 0 := by
    intro he
    rw [he, names.empty_invalid] at hvalid
    cases hvalid
  cases hf : s.accounts.find o.account with
  | none =>
      rw [hf] at h
      exact buySubaccount_course h
  | some r =>
      obtain ⟨ha, rfl⟩ := Table.find_eq_some.mp hf
      rw [hf] at h
      simp only [bind_eq_ok, require_eq_ok, requireIf_eq_ok] at h
      obtain ⟨-, hsale, -, -, h⟩ := h
      by_cases h₁₁ : s.hasHardfork 11
      · rw [if_pos h₁₁] at h
        simp only [bind_eq_ok] at h
        obtain ⟨-, -, h⟩ := h
        by_cases htime : s.time < (s.accounts.row o.account).accountOnSaleStartTime
        · rw [if_pos htime] at h
          exact placeBid_course h hpos hbuyer hsale (fun hp => hP hp ⟨h₁₁, ha, htime⟩)
        · rw [if_neg htime] at h
          simp only [bind_eq_ok] at h
          obtain ⟨-, -, h⟩ := h
          exact buyNow_course h hsale
      · rw [if_neg h₁₁] at h
        simp only [bind_eq_ok] at h
        obtain ⟨-, -, h⟩ := h
        exact buyNow_course h hsale

/-! ## The end of an auction -/

theorem settleAuction_course {name : AccountName} (h : s.settleAuction name = .ok s') :
    Course P 0 s.bank s'.bank := by
  simp only [settleAuction, bind_eq_ok, getAccount_eq_ok] at h
  obtain ⟨-, ⟨ha, rfl⟩, h⟩ := h
  by_cases hstart : (s.accounts.row name).accountOnSaleStartTime ≤ s.time
  · rw [if_pos hstart] at h
    by_cases hnone : (s.accounts.row name).currentBidder = 0
    · rw [if_pos hnone, pure_eq_ok] at h
      rw [← h, bank_modifyAccount (g := .unbid) rfl]
      exact .next .refl (.unbid (fun _ => .inr hnone))
    · rw [if_neg hnone] at h
      by_cases hwins : bidWins (s.accounts.row name)
      · rw [if_pos hwins] at h
        by_cases hrec : name ∈ s.recoveryRequests.keys
        · rw [if_pos hrec] at h
          simp only [bind_eq_ok, pure_eq_ok] at h
          obtain ⟨s₁, h₁, rfl⟩ := h
          exact withdrawnOffer_course (returnBid_course h₁) rfl
        · rw [if_neg hrec] at h
          simp only [bind_eq_ok, getAccount_eq_ok, pure_eq_ok] at h
          obtain ⟨-, ⟨hs, -⟩, -, ⟨hb, -⟩, rfl⟩ := h
          have hsale : (s.accounts.row name).accountOnSale = true :=
            (Bool.and_eq_true_iff.mp (Bool.and_eq_true_iff.mp hwins).1).2
          have hsold := Course.refl (P := P) (b := s.bank) |>.next (.sell ha hb hs)
          have hoff := hsold.next (.offer (a := name) false (fun _ he => absurd he Bool.false_ne_true))
          have hauth := hoff.next (.authorise
            (fun hin => modifyAuthority_keyless (not_keyless_of_onSale hsale hin)
              (f := fun _ => .ofKey (s.accounts.row name).currentBidderKey s.time)) (fun _ e (he : e ∈ s.masterHistory) => .inl he))
          have hbank : ((s.modifyAccount (s.accounts.row name).currentBidder (fun b =>
              { b with reservedBalance := b.reservedBalance - (s.accounts.row name).currentBid })).adjustBalance
                (s.accounts.row name).accountSeller (s.accounts.row name).currentBid).bank =
              (s.bank.edit (s.bank.accounts.row name).currentBidder (.spend (s.bank.accounts.row name).currentBid)).edit
                (s.accounts.row name).accountSeller (.addBalance (s.bank.accounts.row name).currentBid) := by
            rw [bank_adjustBalance, bank_modifyAccount (g := .spend (s.accounts.row name).currentBid) rfl]
            rfl
          rw [edit_edit, ← hbank] at hauth
          rw [bank_modifyAccount (g := fun r => r.unbid.forSale false) rfl]
          exact hauth
      · rw [if_neg hwins] at h
        simp only [bind_eq_ok, pure_eq_ok] at h
        obtain ⟨s₁, h₁, rfl⟩ := h
        rw [bank_modifyAccount (g := .unbid) rfl]
        exact returnBid_course h₁
  · rw [if_neg hstart] at h
    exact Except.ok.inj h ▸ .refl

/-- **`account_on_auction_expiration`.** -/
theorem accountOnAuctionExpiration_course (h : s.accountOnAuctionExpiration = .ok s') :
    Course P 0 s.bank s'.bank := by
  exact .foldlM (fun _ _ _ hs => settleAuction_course hs) h

end Ledger

end VizNode
