import VizNode.Ledger.Services

/-!
# `VizNode.Ledger.Sales` — accounts for sale

An account that is offered for sale can be bid for until its sale starts. A bid locks the bidder's tokens in
the reserved balance; the next higher bid, a change of the offer or the end of the auction unlocks them.
When the sale starts, the account goes to the last bidder, or to the first one who pays the price.

**The bid reads a clock.** Every other function here takes the time from the head block. `buyAccount` has the
node's wall clock as an argument.

## Contents
- **Bids.** `returnBid`, `clearBid`.
- **Offers.** `setAccountPrice`, `targetAccountSale`, `setSubaccountPrice`.
- **Purchases.** `buyAccount` with its three ways: a bid, a purchase, a new subaccount.
- **The end of an auction.** `settleAuction`.
-/

namespace VizNode

namespace Ledger

/-! ## Bids -/

/-- The bid on an account goes back to its bidder. -/
def returnBid (s : Ledger) (account : AccountName) : Result Ledger := do
  let a ← s.getAccount account
  let _ ← s.getAccount a.currentBidder
  return s.modifyAccount a.currentBidder (fun b =>
    { b with reservedBalance := b.reservedBalance - a.currentBid, balance := b.balance + a.currentBid })

/-- The auction data of an account are emptied. -/
def clearBid (a : Account) : Account :=
  { a with accountOnAuction := false, currentBid := 0, currentBidder := 0, currentBidderKey := 0, lastBid := 0 }

/-- The offer data of an account are emptied. -/
def clearOffer (a : Account) : Account :=
  { a with accountOnSale := false, accountOfferPrice := 0, accountOnSaleStartTime := 0 }

/-! ## Offers -/

structure SetAccountPrice where
  account           : AccountName
  accountSeller     : AccountName
  accountOfferPrice : Nat
  accountOnSale     : Bool

/-- Does a new offer send the bid back? When the sale is called off it does if the account is on auction,
    otherwise if the bid is below a higher price. -/
def offerDropsBid (o : SetAccountPrice) (a : Account) : Bool :=
  if o.accountOnSale then
    decide (a.accountOfferPrice < o.accountOfferPrice) && decide (a.currentBidder ≠ 0) &&
      decide (a.currentBid < o.accountOfferPrice)
  else a.accountOnAuction && decide (a.currentBidder ≠ 0)

/-- The account under its new offer. -/
def offered (o : SetAccountPrice) (now : Nat) (dropped : Bool) (a : Account) : Account :=
  let a := { a with accountSeller := o.accountSeller }
  if o.accountOnSale then
    let a := if dropped then clearBid a else a
    { a with
      accountOfferPrice      := o.accountOfferPrice
      accountOnSaleStartTime := if a.accountOnSale then a.accountOnSaleStartTime
        else now + Config.accountOnSaleDelay
      accountOnSale          := true }
  else { clearBid (clearOffer a) with accountOfferPrice := o.accountOfferPrice }

/-- The offer before hardfork 11, when there was no auction. -/
def offeredPreHf11 (o : SetAccountPrice) (hf9 : Bool) (now : Nat) (a : Account) : Account :=
  { a with
    accountSeller          := o.accountSeller
    accountOfferPrice      := o.accountOfferPrice
    accountOnSaleStartTime :=
      if hf9 then
        if o.accountOnSale then
          if a.accountOnSale then a.accountOnSaleStartTime else now + Config.accountOnSaleDelay
        else 0
      else a.accountOnSaleStartTime
    accountOnSale          := o.accountOnSale }

/-- The fee for an offer, which is due while the account has no seller. -/
def paySaleFee (s : Ledger) (account : AccountName) (seller : AccountName) (fee : Nat) : Result Ledger :=
  if seller = 0 then s.payFee account fee else .ok s

def setAccountPrice (names : Names) (s : Ledger) (o : SetAccountPrice) : Result Ledger := do
  require (names.validAccountName o.account ∧ names.validAccountName o.accountSeller ∧
    0 < o.accountOfferPrice) .validation
  let a ← s.getAccount o.account
  let _ ← s.getAccount o.accountSeller
  if s.hasHardfork 11 then
    let s ← s.paySaleFee o.account a.accountSeller s.medianProps.accountOnSaleFee
    let dropped := offerDropsBid o (s.accounts.row o.account)
    let s ← if dropped then s.returnBid o.account else pure s
    return s.modifyAccount o.account (offered o s.time dropped)
  else
    let s ← if s.hasHardfork 9
      then s.paySaleFee o.account a.accountSeller s.medianProps.accountOnSaleFee else pure s
    return s.modifyAccount o.account (offeredPreHf11 o (s.hasHardfork 9) s.time)

structure TargetAccountSale extends SetAccountPrice where
  targetBuyer : AccountName

/-- Does a targeted offer send the bid back? -/
def targetDropsBid (o : TargetAccountSale) (a : Account) : Bool :=
  if o.accountOnSale then
    decide (a.currentBidder ≠ 0) &&
      if a.accountOfferPrice < o.accountOfferPrice then
        -- a bid that is enough for the new price still has to be the target's
        if o.accountOfferPrice ≤ a.currentBid then decide (a.currentBidder ≠ o.targetBuyer) else true
      else decide (a.currentBidder ≠ o.targetBuyer)
  else a.accountOnAuction && decide (a.currentBidder ≠ 0)

def targetAccountSale (names : Names) (s : Ledger) (o : TargetAccountSale) : Result Ledger := do
  require (names.validAccountName o.account ∧ names.validAccountName o.accountSeller ∧
    names.validAccountName o.targetBuyer ∧ 0 < o.accountOfferPrice) .validation
  let a ← s.getAccount o.account
  let _ ← s.getAccount o.accountSeller
  let _ ← s.getAccount o.targetBuyer
  let s ← s.paySaleFee o.account a.accountSeller s.medianProps.accountOnSaleFee
  let dropped := targetDropsBid o (s.accounts.row o.account)
  let s ← if dropped then s.returnBid o.account else pure s
  return s.modifyAccount o.account (fun a =>
    { offered o.toSetAccountPrice s.time dropped a with
      targetBuyer := if o.accountOnSale then o.targetBuyer else 0 })

def setSubaccountPrice (names : Names) (s : Ledger) (account seller : AccountName) (price : Nat)
    (onSale : Bool) : Result Ledger := do
  require (names.validAccountName account ∧ names.validAccountName seller ∧ 0 < price) .validation
  let a ← s.getAccount account
  let _ ← s.getAccount seller
  let s ← if s.hasHardfork 9
    then s.paySaleFee account a.subaccountSeller s.medianProps.subaccountOnSaleFee else pure s
  return s.modifyAccount account (fun a =>
    { a with subaccountSeller := seller, subaccountOfferPrice := price, subaccountOnSale := onSale })

/-! ## Purchases -/

structure BuyAccount where
  buyer                 : AccountName
  account               : AccountName
  accountOfferPrice     : Nat
  accountAuthoritiesKey : PublicKey
  tokensToShares        : Nat

/-- The least bid an account takes: the price when there was none, otherwise a step above the last. -/
def minimalBid (a : Account) : Int :=
  let step : Int := (a.accountOfferPrice * Config.accountAuctionMinStep / Config.hundredPercent : Nat)
  let step := if a.lastBid ≠ 0 then max step ((a.currentBid : Int) - a.lastBid) else step
  let step := if a.currentBid = 0 then (a.accountOfferPrice : Int) else step
  a.currentBid + step

/-- The account with its new bid. The end of the auction moves to five minutes past the clock. -/
def withBid (o : BuyAccount) (clock : Nat) (a : Account) : Account :=
  { a with
    lastBid                := if a.currentBidder ≠ 0 ∧ a.currentBidder ≠ o.buyer then a.currentBid else a.lastBid
    currentBid             := o.accountOfferPrice
    currentBidder          := o.buyer
    currentBidderKey       := o.accountAuthoritiesKey
    accountOnAuction       := true
    accountOnSaleStartTime := max a.accountOnSaleStartTime (clock + Config.accountAuctionExtensionTime) }

/-- **A bid.** The old bid goes back, the new one is taken from the buyer's balance. -/
def placeBid (s : Ledger) (clock : Nat) (o : BuyAccount) : Result Ledger := do
  let a ← s.getAccount o.account
  require (minimalBid a ≤ o.accountOfferPrice) .bidTooLow
  let s ← if a.currentBidder ≠ 0 then s.returnBid o.account else pure s
  let s := s.modifyAccount o.account (withBid o clock)
  let _ ← s.getAccount o.buyer
  return s.modifyAccount o.buyer (fun b =>
    { b with
      reservedBalance := b.reservedBalance + o.accountOfferPrice
      balance         := b.balance - o.accountOfferPrice })

/-- The account changes hands. -/
def sold (key : PublicKey) (newOwner : AccountName) (now : Nat) (a : Account) : Account :=
  { a with
    accountSeller          := 0
    accountOfferPrice      := 0
    accountOnSale          := false
    accountOnSaleStartTime := 0
    subaccountSeller       := 0
    subaccountOfferPrice   := 0
    subaccountOnSale       := false
    memoKey                := key
    recoveryAccount        := newOwner
    lastAccountUpdate      := now }

/-- The buyer pays the seller, and the shares of the account. -/
def payPrice (s : Ledger) (o : BuyAccount) (seller : AccountName) (price : Nat) : Result Ledger := do
  let buyer ← s.getAccount o.buyer
  let _ ← s.getAccount seller
  require (price = o.accountOfferPrice) .priceMismatch
  require (((price + o.tokensToShares : Nat) : Int) ≤ buyer.balance) .insufficientFunds
  let s := (s.adjustBalance o.buyer (-price)).adjustBalance seller price
  return s.adjustBalance o.buyer (-o.tokensToShares)

/-- **A purchase** at the price of the offer. Before hardfork 9 the sale had no start time. -/
def buyNow (s : Ledger) (o : BuyAccount) : Result Ledger := do
  let a ← s.getAccount o.account
  let s ← s.payPrice o a.accountSeller a.accountOfferPrice
  let s ← s.createVesting o.account o.tokensToShares
  let s := s.modifyAccount o.account (fun a =>
    { sold o.accountAuthoritiesKey o.buyer s.time a with
      accountOnSaleStartTime := if s.hasHardfork 9 then 0 else a.accountOnSaleStartTime })
  return { s with authorities := s.authorities.modify o.account (fun _ =>
    .ofKey o.accountAuthoritiesKey s.time) }

/-- **A new subaccount** of an account that sells them. -/
def buySubaccount (names : Names) (s : Ledger) (o : BuyAccount) : Result Ledger :=
  match names.splitName o.account with
  | none              => .error .unknownAccount
  | some (sub, account) => do
      let a ← s.getAccount account
      require (names.validAccountName account ∧ names.validAccountName sub ∧
        names.validDomainName sub account) .nameInvalid
      require (a.subaccountOnSale = true) .notOnSale
      let s ← s.payPrice o a.subaccountSeller a.subaccountOfferPrice
      let s ← s.createAccount o.account
        { memoKey         := o.accountAuthoritiesKey
          created         := s.time
          lastVoteTime    := s.time
          recoveryAccount := o.buyer }
        (.ofKey o.accountAuthoritiesKey 0)
      s.createVesting o.account o.tokensToShares

/-- `buy_account_evaluator`. -/
def buyAccount (names : Names) (clock : Nat) (s : Ledger) (o : BuyAccount) : Result Ledger := do
  require (names.validAccountName o.buyer ∧ names.validAccountName o.account ∧ 0 < o.accountOfferPrice ∧
    0 < o.tokensToShares) .validation
  let _ ← s.getAccount o.buyer
  require (o.accountAuthoritiesKey ≠ 0) .blankKey
  require (s.medianProps.accountCreationFee ≤ o.tokensToShares) .belowMinimum
  match s.accounts.find o.account with
  | none   => buySubaccount names s o
  | some a => do
      require (a.accountOnSale = true) .notOnSale
      requireIf (s.hasHardfork 9) (o.account ∉ s.recoveryRequests.keys) .recoveryPending
      if s.hasHardfork 11 then
        require (a.targetBuyer = 0 ∨ a.targetBuyer = o.buyer) .targetBuyer
        if s.time < a.accountOnSaleStartTime then s.placeBid clock o
        else
          require (a.currentBidder = 0) .bidPending
          s.buyNow o
      else
        requireIf (s.hasHardfork 9) (a.accountOnSaleStartTime ≤ s.time) .notOnSale
        s.buyNow o

/-! ## The end of an auction -/

/-- Has the last bid bought the account? -/
def bidWins (a : Account) : Bool :=
  (decide (a.targetBuyer = 0) || decide (a.currentBidder = a.targetBuyer)) &&
    a.accountOnSale && decide (a.accountOfferPrice ≤ a.currentBid)

/-- **The end of one auction** in `account_on_auction_expiration`. The source writes the cases out twice,
    with a target buyer and without one. -/
def settleAuction (s : Ledger) (name : AccountName) : Result Ledger := do
  let a ← s.getAccount name
  if a.accountOnSaleStartTime ≤ s.time then
    if a.currentBidder = 0 then return s.modifyAccount name clearBid
    else if bidWins a then
      if name ∈ s.recoveryRequests.keys then
        let s ← s.returnBid name
        return s.modifyAccount name (fun a => { clearBid (clearOffer a) with targetBuyer := 0 })
      else
        let _ ← s.getAccount a.accountSeller
        let _ ← s.getAccount a.currentBidder
        let s := s.modifyAccount a.currentBidder (fun b =>
          { b with reservedBalance := b.reservedBalance - a.currentBid })
        let s := s.adjustBalance a.accountSeller a.currentBid
        let s := { s with authorities := s.authorities.modify name (fun _ => .ofKey a.currentBidderKey s.time) }
        return s.modifyAccount name (fun b =>
          { clearBid (sold a.currentBidderKey a.currentBidder s.time b) with targetBuyer := 0 })
    else
      let s ← s.returnBid name
      return s.modifyAccount name clearBid
  else return s

/-- `account_on_auction_expiration`. -/
def accountOnAuctionExpiration (s : Ledger) : Result Ledger :=
  (s.accounts.keys.filter (fun a => (s.accounts.row a).accountOnAuction)).foldlM settleAuction s

end Ledger

end VizNode
