import VizNode.Ledger.Objects
import Mathlib.Data.List.Sort

/-!
# `VizNode.Ledger.Vesting` — shares, the votes behind them, and their withdrawal

A change of an account's shares runs up its proxy chain: every account on the way counts the change at the
distance it has, and the account at the top, which has no proxy, spreads it over the validators it votes
for. The chain is followed for at most `CHAIN_MAX_PROXY_RECURSION_DEPTH` steps.

## Contents
- **Votes.** `adjustValidatorVote`, `adjustValidatorVotes`, `adjustProxiedValidatorVotes` (for one amount and
  for a whole array), `clearValidatorVotes`.
- **Shares.** `createVesting`, `sharesSenderRecalcEnergy`.
- **Withdrawals.** `withdrawFrom`, one account's turn, and the loop over the due accounts.
-/

namespace VizNode

namespace Ledger

/-! ## Votes -/

/-- The validators an account votes for, in the order of the `by_account_validator` index. -/
def votedBy (s : Ledger) (account : AccountName) : List AccountName :=
  s.validators.keys.filter (fun v => decide ((account, v) ∈ s.votes.keys))

/-- The vote change on the validator object; from hardfork 5 on it stops at zero. -/
def votedValidator (s : Ledger) (delta : Int) (w : ValidatorAccount) : ValidatorAccount :=
  { w with votes := if s.hasHardfork 5 ∧ w.votes + delta < 0 then 0 else w.votes + delta }

/-- `adjust_validator_vote`. The virtual schedule that the source updates here as well is not part of the
    ledger. -/
def adjustValidatorVote (delta : Int) (s : Ledger) (validator : AccountName) : Result Ledger := do
  let w ← s.getValidator validator
  require ((s.votedValidator delta w).votes ≤ s.totalVestingShares) .votesAboveTotal
  return { s with validators := s.validators.modify validator (s.votedValidator delta) }

/-- The loop over an account's votes. -/
def adjustEach (s : Ledger) (account : AccountName) (delta : Int) : Result Ledger :=
  (s.votedBy account).foldlM (adjustValidatorVote delta) s

/-- `adjust_validator_votes`. From hardfork 5 on the change is split among the voted validators. -/
def adjustValidatorVotes (s : Ledger) (account : AccountName) (delta : Int) : Result Ledger := do
  let a ← s.getAccount account
  if s.hasHardfork 5 then
    if 0 < a.validatorsVotedFor then
      let fairDelta := delta.tdiv a.validatorsVotedFor
      let s := s.modifyAccount account (fun a =>
        { a with validatorsVoteWeight := a.validatorsVoteWeight + fairDelta })
      s.adjustEach account fairDelta
    else return s
  else s.adjustEach account delta

/-- The entries of a proxy's array from `depth` on take in the array `delta`. -/
def bumpProxied (depth : Nat) (delta : Nat → Int) (a : Account) : Account :=
  { a with proxiedVsfVotes := fun j =>
      if depth ≤ j ∧ j < Config.maxProxyRecursionDepth
      then a.proxiedVsfVotes j + delta (j - depth) else a.proxiedVsfVotes j }

/-- The sum of the first `n + 1` entries. -/
def sumTo (delta : Nat → Int) (n : Nat) : Int := ((List.range (n + 1)).map delta).sum

/-- `adjust_proxied_validator_votes` with an array; `left` is what the recursion depth leaves. -/
def adjustProxiedFrom (delta : Nat → Int) : Nat → AccountName → Ledger → Result Ledger
  | left, account, s => do
      let a ← s.getAccount account
      if a.proxy ≠ 0 then
        match left with
        -- nested proxies beyond the depth do not count
        | 0        => return s
        | left + 1 =>
            let _ ← s.getAccount a.proxy
            let depth := Config.maxProxyRecursionDepth - (left + 1)
            adjustProxiedFrom delta left a.proxy (s.modifyAccount a.proxy (bumpProxied depth delta))
      else s.adjustValidatorVotes account (sumTo delta left)

def adjustProxiedValidatorVotesArray (s : Ledger) (account : AccountName) (delta : Nat → Int) :
    Result Ledger :=
  adjustProxiedFrom delta Config.maxProxyRecursionDepth account s

/-- `adjust_proxied_validator_votes` with one amount. -/
def adjustProxiedBy (delta : Int) : Nat → AccountName → Ledger → Result Ledger
  | left, account, s => do
      let a ← s.getAccount account
      if a.proxy ≠ 0 then
        match left with
        | 0        => return s
        | left + 1 =>
            let _ ← s.getAccount a.proxy
            let depth := Config.maxProxyRecursionDepth - (left + 1)
            adjustProxiedBy delta left a.proxy (s.modifyAccount a.proxy (fun p =>
              { p with proxiedVsfVotes := fun j =>
                  if j = depth then p.proxiedVsfVotes j + delta else p.proxiedVsfVotes j }))
      else s.adjustValidatorVotes account delta

def adjustProxiedValidatorVotes (s : Ledger) (account : AccountName) (delta : Int) : Result Ledger :=
  adjustProxiedBy delta Config.maxProxyRecursionDepth account s

/-- Remove every vote object of an account. -/
def removeVotes (s : Ledger) (account : AccountName) : Ledger :=
  { s with votes := (s.votedBy account).foldl (fun t v => t.erase (account, v)) s.votes }

/-- `clear_validator_votes`. -/
def clearValidatorVotes (s : Ledger) (account : AccountName) : Ledger :=
  (s.removeVotes account).modifyAccount account (fun a =>
    { a with
      validatorsVotedFor   := 0
      validatorsVoteWeight := if s.hasHardfork 5 then 0 else a.validatorsVoteWeight })

/-! ## Shares -/

/-- `shares_sender_recalc_energy`. -/
def sharesSenderRecalcEnergy (s : Ledger) (sender : AccountName) (shares : Int) : Ledger :=
  s.modifyAccount sender (fun a =>
    if 0 < a.effectiveVestingShares then
      let cost := (Config.hundredPercent * shares).tdiv a.effectiveVestingShares
      { a with
        energy       := max (a.currentEnergy s.time - cost) (-Config.hundredPercent)
        lastVoteTime := s.time }
    else a)

/-- **`create_vesting`**: tokens become shares at the share price. -/
def createVesting (s : Ledger) (toAccount : AccountName) (tokens : Int) : Result Ledger := do
  let newVesting ← s.tokensToShares tokens
  let _ ← s.getAccount toAccount
  let s := s.modifyAccount toAccount (fun a => { a with vestingShares := a.vestingShares + newVesting })
  let s := { s with
    totalVestingFund   := s.totalVestingFund + tokens
    totalVestingShares := s.totalVestingShares + newVesting }
  s.adjustProxiedValidatorVotes toAccount newVesting

/-! ## Withdrawals -/

/-- The shares that leave an account in its turn. -/
def withdrawalAmount (a : Account) : Result Int := do
  if a.toWithdraw - a.withdrawn < a.vestingWithdrawRate then
    require (a.vestingWithdrawRate ≠ 0) .zeroDivisor
    return max (min a.vestingShares (a.toWithdraw.tmod a.vestingWithdrawRate)) 0
  else return max (min a.vestingShares a.vestingWithdrawRate) 0

/-- The routes of an account in the order of the receiver's id. The search starts behind `(from, 0)`, so a
    route to the first account of all is never seen. -/
def routesOf (s : Ledger) (name : AccountName) : List (AccountName × Route) :=
  (s.accounts.keys.drop 1).filterMap (fun to_ => (s.routes.find (name, to_)).map (fun r => (to_, r)))

/-- The share of a route in a withdrawal. -/
def routeDeposit (toWithdraw : Int) (r : Route) : Int := toWithdraw * r.percent / Config.hundredPercent

/-- First pass: a route that keeps shares as shares. -/
def depositShares (toWithdraw : Int) (p : Ledger × Int) (to_ : AccountName × Route) :
    Result (Ledger × Int) := do
  if to_.2.autoVest then
    let deposit := routeDeposit toWithdraw to_.2
    if 0 < deposit then
      let s := p.1.modifyAccount to_.1 (fun a => { a with vestingShares := a.vestingShares + deposit })
      let s ← s.adjustProxiedValidatorVotes to_.1 deposit
      return (s, p.2 + deposit)
    else return (p.1, p.2 + deposit)
  else return p

/-- Shares leave the vesting fund, and the tokens they are worth go to an account. -/
def cashShares (s : Ledger) (to_ : AccountName) (shares tokens : Int) : Ledger :=
  let s := s.modifyAccount to_ (fun a => { a with balance := a.balance + tokens })
  { s with
    totalVestingFund   := s.totalVestingFund - tokens
    totalVestingShares := s.totalVestingShares - shares }

/-- Second pass: a route that pays out. -/
def depositTokens (toWithdraw : Int) (p : Ledger × Int) (to_ : AccountName × Route) :
    Result (Ledger × Int) := do
  if to_.2.autoVest then return p
  else
    let deposit := routeDeposit toWithdraw to_.2
    let converted ← p.1.sharesToTokens deposit
    if 0 < deposit then return (p.1.cashShares to_.1 deposit converted, p.2 + deposit)
    else return (p.1, p.2 + deposit)

/-- The end of an account's turn. -/
def settleWithdrawal (toWithdraw converted : Int) (a : Account) : Account :=
  let a := { a with
    vestingShares := a.vestingShares - toWithdraw
    balance       := a.balance + converted
    withdrawn     := a.withdrawn + toWithdraw }
  if a.toWithdraw ≤ a.withdrawn ∨ a.vestingShares = 0 then
    { a with vestingWithdrawRate := 0, nextVestingWithdrawal := Config.maximumTime }
  else
    { a with nextVestingWithdrawal := a.nextVestingWithdrawal + Config.vestingWithdrawIntervalSeconds }

/-- **One account's turn** in `process_vesting_withdrawals`. -/
def withdrawFrom (s : Ledger) (name : AccountName) : Result Ledger := do
  let a ← s.getAccount name
  let toWithdraw ← withdrawalAmount a
  let routes := s.routesOf name
  let (s, asVests) ← routes.foldlM (depositShares toWithdraw) (s, 0)
  let (s, asTokens) ← routes.foldlM (depositTokens toWithdraw) (s, 0)
  let toConvert := max (toWithdraw - asTokens - asVests) 0
  let converted ← s.sharesToTokens toConvert
  let s := s.sharesSenderRecalcEnergy name (asTokens + toConvert)
  let s := s.modifyAccount name (settleWithdrawal toWithdraw converted)
  let s := { s with
    totalVestingFund   := s.totalVestingFund - converted
    totalVestingShares := s.totalVestingShares - toConvert }
  if 0 < toWithdraw then s.adjustProxiedValidatorVotes name (-toWithdraw) else return s

/-- The `by_next_vesting_withdrawal` index: by time, then by id. -/
def byNextVestingWithdrawal (s : Ledger) : List AccountName :=
  s.accounts.keys.insertionSort (fun a b =>
    (s.accounts.row a).nextVestingWithdrawal ≤ (s.accounts.row b).nextVestingWithdrawal)

/-- The account behind this one in the index. -/
def nextInLine (s : Ledger) (name : AccountName) : Option AccountName :=
  ((s.byNextVestingWithdrawal.dropWhile (fun a => decide (a ≠ name))).tail).head?

/-- The loop of `process_vesting_withdrawals`. The iterator is moved on before the account is changed, so an
    account that is due again behind its successor has another turn. -/
def withdrawalLoop : Nat → Option AccountName → Ledger → Result Ledger
  | 0,        _,         s => .ok s
  | _,        none,      s => .ok s
  | fuel + 1, some name, s =>
      if (s.accounts.row name).nextVestingWithdrawal ≤ s.time then do
        let next := s.nextInLine name
        let s ← s.withdrawFrom name
        withdrawalLoop fuel next s
      else .ok s

/-- **`process_vesting_withdrawals`.** Every turn has a later place in the index than the one before it, and
    there are at most so many places up to the present time. -/
def processVestingWithdrawals (s : Ledger) : Result Ledger :=
  withdrawalLoop ((s.time + 1) * s.accounts.keys.length) s.byNextVestingWithdrawal.head? s

end Ledger

end VizNode
