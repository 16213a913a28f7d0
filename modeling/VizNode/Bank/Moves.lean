import VizNode.Ledger.Objects
import VizNode.Lib.Forest

/-!
# `VizNode.Bank.Moves` — the books in the abstract

A bank keeps accounts in tokens and in shares, a vesting fund that backs the shares, and the other funds. Every
operation and every step of the block processing comes down to a few **moves** between them. A move says what
changes and under which condition; it says nothing about who may ask for it, when, or for what reason.

A move carries two labels. The first is what it does to the **surplus**, the supply less everything that is
held; the second what it does to the **share surplus**, the shares on the books less the shares of the accounts.
An operation adds up to zero in both, but a single move need not: tokens that leave one account are in no other
yet.

**Two kinds of conditions.** `K` stands for "the books were in order when the operation began" and `C` for
"nobody was overdrawn then, and the bid is covered". A condition that only holds for that reason is stated
under `K` or `C`, so the labels are there for every state, in order or not.

## Contents
- **The bank.** `Bank`, the share price, `surplus`.
- **Proxies.** `proxyOf`, `Spread`: a change carried up a proxy chain.
- **Moves.** `Move` and its chains `Moves`.
- **The surplus.** `Moves.surplus_eq`.
-/

namespace VizNode

/-! ## The bank -/

/-- **The bank**: the accounts, who may sign for them, the funds, and the shares that are lent or routed. -/
structure Bank where
  accounts      : Table AccountName AccountBook
  authorities   : Table AccountName AccountAuthority
  masterHistory : List MasterHistory
  supply        : Int
  fund          : Int
  shares        : Int
  reward        : Int
  committee     : Int
  /-- Escrows, invites, and what validators hold for their stakeholders. -/
  entrusted     : Int
  delegations   : Table (AccountName × AccountName) Int
  expirations   : List (AccountName × Int)
  routes        : Table (AccountName × AccountName) Route

namespace AccountBook

def addBalance (x : Int) (r : AccountBook) : AccountBook := { r with balance := r.balance + x }

def addShares (n : Int) (r : AccountBook) : AccountBook := { r with vestingShares := r.vestingShares + n }

/-- Shares leave by a withdrawal, and tokens for a part of them come in. -/
def settled (w c rate : Int) (next : Nat) (r : AccountBook) : AccountBook :=
  { r with
    vestingShares         := r.vestingShares - w
    balance               := r.balance + c
    withdrawn             := r.withdrawn + w
    vestingWithdrawRate   := rate
    nextVestingWithdrawal := next }

/-- A withdrawal is planned anew. -/
def planned (rate : Int) (next : Nat) (toWithdraw : Int) (r : AccountBook) : AccountBook :=
  { r with
    vestingWithdrawRate   := rate
    nextVestingWithdrawal := next
    toWithdraw            := toWithdraw
    withdrawn             := 0 }

def addDelegated (n : Int) (r : AccountBook) : AccountBook :=
  { r with delegatedVestingShares := r.delegatedVestingShares + n }

def addReceived (n : Int) (r : AccountBook) : AccountBook :=
  { r with receivedVestingShares := r.receivedVestingShares + n }

/-- Tokens go from the reserve back to the balance. -/
def unlock (x : Int) (r : AccountBook) : AccountBook :=
  { r with reservedBalance := r.reservedBalance - x, balance := r.balance + x }

/-- Tokens go from the balance to the reserve. -/
def lock (x : Int) (r : AccountBook) : AccountBook :=
  { r with reservedBalance := r.reservedBalance + x, balance := r.balance - x }

/-- Tokens leave the reserve. -/
def spend (x : Int) (r : AccountBook) : AccountBook :=
  { r with reservedBalance := r.reservedBalance - x }

/-- The account has no bid. -/
def unbid (r : AccountBook) : AccountBook :=
  { r with accountOnAuction := false, currentBid := 0, currentBidder := 0 }

/-- The account has a bid. -/
def bidden (x : Nat) (bidder : AccountName) (r : AccountBook) : AccountBook :=
  { r with accountOnAuction := true, currentBid := x, currentBidder := bidder }

def drained (r : AccountBook) : AccountBook := { r with vestingShares := 0 }

def forSale (onSale : Bool) (r : AccountBook) : AccountBook := { r with accountOnSale := onSale }

def withProxy (q : AccountName) (r : AccountBook) : AccountBook := { r with proxy := q }

/-- More is proxied to the account, by distance. -/
def countMore (g : Nat → Int) (r : AccountBook) : AccountBook :=
  { r with proxiedVsfVotes := fun d => if d < Config.maxProxyRecursionDepth
      then r.proxiedVsfVotes d + g d else r.proxiedVsfVotes d }

/-- What an account counts for: its shares, then what is proxied to it, by distance. -/
def counts (r : AccountBook) : Nat → Int
  | 0     => r.vestingShares
  | i + 1 => r.proxiedVsfVotes i

theorem countMore_congr {f g : Nat → Int} (h : ∀ d < Config.maxProxyRecursionDepth, f d = g d)
    (r : AccountBook) : r.countMore f = r.countMore g := by
  unfold countMore
  congr 1
  funext d
  by_cases hd : d < Config.maxProxyRecursionDepth
  · rw [if_pos hd, if_pos hd, h d hd]
  · rw [if_neg hd, if_neg hd]

theorem countMore_zero {g : Nat → Int} (h : ∀ d < Config.maxProxyRecursionDepth, g d = 0) (r : AccountBook) :
    r.countMore g = r := by
  rw [countMore_congr h]
  unfold countMore
  simp only [add_zero, ite_self]

theorem countMore_countMore {f g : Nat → Int} (r : AccountBook) :
    (r.countMore f).countMore g = r.countMore (fun d => f d + g d) := by
  unfold countMore
  congr 1
  funext d
  dsimp only
  by_cases hd : d < Config.maxProxyRecursionDepth
  · rw [if_pos hd, if_pos hd, if_pos hd, add_assoc]
  · rw [if_neg hd, if_neg hd, if_neg hd]

end AccountBook

namespace Bank

/-- So many shares for so many tokens. -/
def price (b : Bank) : Int × Int :=
  if b.fund = 0 ∨ b.shares = 0 then (1000000, 1000) else (b.shares, b.fund)

/-- So many tokens buy so many shares. -/
def Buys (b : Bank) (tokens shares : Int) : Prop := Ledger.mulDiv tokens b.price.1 b.price.2 = .ok shares

/-- So many shares are worth so many tokens. -/
def Worth (b : Bank) (shares tokens : Int) : Prop := Ledger.mulDiv shares b.price.2 b.price.1 = .ok tokens

/-- Everything that somebody holds. -/
def held (b : Bank) : Int :=
  b.accounts.total (fun _ r => r.balance) + b.accounts.total (fun _ r => r.reservedBalance) + b.fund
    + b.reward + b.committee + b.entrusted

/-- **The surplus**: the supply less what is held. -/
def surplus (b : Bank) : Int := b.supply - b.held

/-- A change of one account. -/
def edit (b : Bank) (a : AccountName) (f : AccountBook → AccountBook) : Bank :=
  { b with accounts := b.accounts.modify a f }

/-- The shares that one account lends another. -/
def lent (b : Bank) (key : AccountName × AccountName) : Int := (b.delegations.find key).getD 0

/-! ## Proxies -/

/-- The proxy of an account, if it has one. -/
def proxyOf (t : Table AccountName AccountBook) (a : AccountName) : Option AccountName :=
  if a ∈ t.keys ∧ (t.row a).proxy ≠ 0 then some (t.row a).proxy else none

/-- An array with one entry, in front. -/
def single (n : Int) (i : Nat) : Int := if i = 0 then n else 0

/-- **A change carried up the proxy chain**: every account on it counts the change at its distance. -/
structure Spread (a : AccountName) (δ : Nat → Int) (t t' : Table AccountName AccountBook) : Prop where
  keys : t'.keys = t.keys
  row  : ∀ c ∈ t.keys, t'.row c = (t.row c).countMore (Forest.lifted (proxyOf t) δ a c)

/-- What a spread leaves alone. -/
theorem Spread.same {β : Type} {a : AccountName} {δ : Nat → Int} {t t' : Table AccountName AccountBook}
    (h : Spread a δ t t') {g : AccountBook → β}
    (hg : ∀ (r : AccountBook) p, g { r with proxiedVsfVotes := p } = g r) : Table.Same g t t' := by
  refine ⟨h.keys, ?_⟩
  intro c hc
  rw [h.row c hc]
  exact hg _ _

/-- The routes of an account in the order of the receivers, without the first of all accounts. -/
def routesFrom (keys : List AccountName) (routes : Table (AccountName × AccountName) Route)
    (a : AccountName) : List (AccountName × Route) :=
  (keys.drop 1).filterMap (fun to_ => (routes.find (a, to_)).map (fun r => (to_, r)))

/-- **Routes in order**: they lead to accounts, and nobody promises more than everything. -/
structure RoutesWithin (keys : List AccountName) (routes : Table (AccountName × AccountName) Route) :
    Prop where
  known  : ∀ key ∈ routes.keys, key.2 ∈ keys
  within : ∀ a, ((routesFrom keys routes a).map (fun r => r.2.percent)).sum ≤ Config.hundredPercent

/-! ## Moves -/

open AccountBook in
/-- **The moves.** -/
inductive Move (K C : Prop) : Int → Int → Bank → Bank → Prop
  /-- The supply and the funds. The vesting fund only grows this way. -/
  | funds (b : Bank) (supply fund reward committee entrusted : Int) (hfund : 0 ≤ fund)
      (hc : C → 0 ≤ committee ∨ 0 ≤ b.committee + committee) :
      Move K C (supply - (fund + reward + committee + entrusted)) 0 b
        { b with
          supply    := b.supply + supply
          fund      := b.fund + fund
          reward    := b.reward + reward
          committee := b.committee + committee
          entrusted := b.entrusted + entrusted }
  /-- Tokens come to an account, or leave it. -/
  | pay {b : Bank} {a : AccountName} {x : Int} (ha : a ∈ b.accounts.keys)
      (hx : C → 0 ≤ x ∨ 0 ≤ (b.accounts.row a).balance + x) :
      Move K C (-x) 0 b (b.edit a (addBalance x))
  /-- Tokens become shares. -/
  | vest {b : Bank} {a : AccountName} {tokens n : Int} {t : Table AccountName AccountBook}
      (ha : a ∈ b.accounts.keys) (hn : b.Buys tokens n)
      (ht : Spread a (single n) (b.accounts.modify a (addShares n)) t) :
      Move K C (-tokens) 0 b
        { b with accounts := t, fund := b.fund + tokens, shares := b.shares + n }
  /-- Shares come to an account. -/
  | gain {b : Bank} {a : AccountName} {n : Int} {t : Table AccountName AccountBook}
      (ha : a ∈ b.accounts.keys) (hn : 0 ≤ n)
      (ht : Spread a (single n) (b.accounts.modify a (addShares n)) t) :
      Move K C 0 (-n) b { b with accounts := t }
  /-- Shares on the books become tokens of an account. -/
  | cash {b : Bank} {a : AccountName} {d c : Int} (ha : a ∈ b.accounts.keys) (hc : b.Worth d c)
      (hd : K → 0 ≤ d ∧ d ≤ b.shares) :
      Move K C 0 (-d) b { b.edit a (addBalance c) with fund := b.fund - c, shares := b.shares - d }
  /-- Shares leave an account by a withdrawal. -/
  | settle {b : Bank} {a : AccountName} {w d c rate : Int} {next : Nat} {t : Table AccountName AccountBook}
      (ha : a ∈ b.accounts.keys) (hc : b.Worth d c) (hd : K → 0 ≤ d ∧ d ≤ b.shares)
      (hw : K → 0 ≤ w ∧ w ≤ (b.accounts.row a).vestingShares)
      (hk : K → a ∈ Config.keyless → w = 0 ∧ rate = 0)
      (ht : Spread a (single (-w)) (b.accounts.modify a (settled w c rate next)) t) :
      Move K C 0 (w - d) b { b with accounts := t, fund := b.fund - c, shares := b.shares - d }
  /-- An account without a key loses its shares. -/
  | drain {b : Bank} {a : AccountName} {c : Int} (hk : a ∈ Config.keyless) (ha : a ∈ b.accounts.keys)
      (hc : b.Worth (b.accounts.row a).vestingShares c)
      (hd : K → (b.accounts.row a).vestingShares ≤ b.shares) :
      Move K C c 0 b
        { b.edit a drained with
          fund := b.fund - c, shares := b.shares - (b.accounts.row a).vestingShares }
  /-- A new account. -/
  | openAccount {b : Bank} {a : AccountName} (auth : AccountAuthority) (ha : a ∉ b.accounts.keys) :
      Move K C 0 0 b
        { b with accounts := b.accounts.insert a {}, authorities := b.authorities.insert a auth }
  /-- Somebody else may sign. -/
  | authorise {b : Bank} {auths : Table AccountName AccountAuthority} {hist : List MasterHistory}
      (ha : K → ∀ k ∈ Config.keyless, auths.row k = b.authorities.row k)
      (hh : K → ∀ e ∈ hist, e ∈ b.masterHistory ∨ e.account ∉ Config.keyless) :
      Move K C 0 0 b { b with authorities := auths, masterHistory := hist }
  /-- More shares are lent. -/
  | delegate {b : Bank} {x y : AccountName} {n : Int} (hx : x ∈ b.accounts.keys)
      (hy : y ∈ b.accounts.keys) (hxy : x ≠ y) (hk : K → x ∉ Config.keyless)
      (hn : K → (b.accounts.row x).delegatedVestingShares
        + ((b.accounts.row x).toWithdraw - (b.accounts.row x).withdrawn) + (n - b.lent (x, y))
          ≤ (b.accounts.row x).vestingShares) :
      Move K C 0 0 b
        { b with
          accounts    := (b.accounts.modify x (addDelegated (n - b.lent (x, y)))).modify y
            (addReceived (n - b.lent (x, y)))
          delegations := b.delegations.setTo (x, y) n }
  /-- Fewer shares are lent. They stay with nobody for a while. -/
  | undelegate {b : Bank} {x y : AccountName} {n : Int} (hx : x ∈ b.accounts.keys)
      (hy : y ∈ b.accounts.keys) (hk : K → x ∉ Config.keyless) (hn : K → n ≤ b.lent (x, y)) :
      Move K C 0 0 b
        { b with
          accounts    := b.accounts.modify y (addReceived (n - b.lent (x, y)))
          delegations := b.delegations.setTo (x, y) n
          expirations := b.expirations ++ [(x, -(n - b.lent (x, y)))] }
  /-- Shares that were lent are back. -/
  | return_ {b : Bank} {l rest : List (AccountName × Int)} {t : Table AccountName AccountBook}
      (hl : b.expirations.Perm (l ++ rest)) (hkeys : t.keys = b.accounts.keys)
      (ht : ∀ c ∈ b.accounts.keys, t.row c =
        addDelegated (-(l.map (fun e => if e.1 = c then e.2 else 0)).sum) (b.accounts.row c)) :
      Move K C 0 0 b { b with accounts := t, expirations := rest }
  /-- A withdrawal is planned. -/
  | plan {b : Bank} {a : AccountName} (rate : Int) (next : Nat) (toWithdraw : Int)
      (ha : a ∈ b.accounts.keys) (hk : K → a ∉ Config.keyless)
      (hw : K → toWithdraw ≤ (b.accounts.row a).vestingShares - (b.accounts.row a).delegatedVestingShares) :
      Move K C 0 0 b (b.edit a (planned rate next toWithdraw))
  /-- The routes of withdrawals change. -/
  | reroute {b : Bank} {routes : Table (AccountName × AccountName) Route}
      (h : K → RoutesWithin b.accounts.keys routes) : Move K C 0 0 b { b with routes := routes }
  /-- An account has another proxy: what it counts for leaves the old chain and joins the new one. -/
  | setProxy {b : Bank} {a q : AccountName} {t t' : Table AccountName AccountBook}
      (ha : a ∈ b.accounts.keys) (hk : K → a ∉ Config.keyless)
      (hq : q ≠ 0 → q ∈ b.accounts.keys ∧ ∀ k, Forest.climb (proxyOf b.accounts) k q ≠ some a)
      (ht : Spread a (fun i => -(b.accounts.row a).counts i) b.accounts t)
      (ht' : Spread a (b.accounts.row a).counts (t.modify a (withProxy q)) t') :
      Move K C 0 0 b { b with accounts := t' }
  /-- An account is offered for sale, or no longer. -/
  | offer {b : Bank} {a : AccountName} (onSale : Bool) (hk : K → onSale = true → a ∉ Config.keyless) :
      Move K C 0 0 b (b.edit a (forSale onSale))
  /-- A bid is placed. -/
  | bid {b : Bank} {a bidder : AccountName} {x : Nat} (ha : a ∈ b.accounts.keys)
      (hb : bidder ∈ b.accounts.keys) (hx : 0 < x) (hb₀ : bidder ≠ 0)
      (hfree : K → (b.accounts.row a).currentBidder = 0) (hk : K → a ∉ Config.keyless)
      (hc : C → (x : Int) ≤ (b.accounts.row bidder).balance) :
      Move K C 0 0 b ((b.edit a (bidden x bidder)).edit bidder (lock x))
  /-- A bid goes back. -/
  | release {b : Bank} {a : AccountName} (ha : a ∈ b.accounts.keys)
      (hb : (b.accounts.row a).currentBidder ∈ b.accounts.keys) :
      Move K C 0 0 b
        ((b.edit (b.accounts.row a).currentBidder (unlock (b.accounts.row a).currentBid)).edit a unbid)
  /-- A bid has bought the account. -/
  | sell {b : Bank} {a seller : AccountName} (ha : a ∈ b.accounts.keys)
      (hb : (b.accounts.row a).currentBidder ∈ b.accounts.keys) (hs : seller ∈ b.accounts.keys) :
      Move K C 0 0 b
        (((b.edit (b.accounts.row a).currentBidder (spend (b.accounts.row a).currentBid)).edit seller
          (addBalance (b.accounts.row a).currentBid)).edit a unbid)
  /-- The traces of a bid that is not there. -/
  | unbid {b : Bank} {a : AccountName}
      (h : K → (b.accounts.row a).accountOnAuction = false ∨ (b.accounts.row a).currentBidder = 0) :
      Move K C 0 0 b (b.edit a unbid)

/-- **A chain of moves**, with the sums of their labels. -/
inductive Moves (K C : Prop) : Int → Int → Bank → Bank → Prop
  | refl (b : Bank) : Moves K C 0 0 b b
  | tail {δ σ δ' σ' : Int} {b b' b'' : Bank} (h : Moves K C δ σ b b') (h' : Move K C δ' σ' b' b'') :
      Moves K C (δ + δ') (σ + σ') b b''

namespace Moves

variable {K C K' C' : Prop} {δ σ δ' σ' : Int} {b b' b'' : Bank}

theorem of (h : Move K C δ σ b b') : Moves K C δ σ b b' := by
  have := Moves.tail (.refl b) h
  rwa [zero_add, zero_add] at this

theorem trans (h : Moves K C δ σ b b') (h' : Moves K C δ' σ' b' b'') :
    Moves K C (δ + δ') (σ + σ') b b'' := by
  induction h' with
  | refl => rwa [add_zero, add_zero]
  | tail _ hm ih =>
      rw [← add_assoc, ← add_assoc]
      exact (ih h).tail hm

/-- The same chain under other names of its labels. -/
theorem cast (h : Moves K C δ σ b b') (hδ : δ = δ') (hσ : σ = σ') : Moves K C δ' σ' b b' := hδ ▸ hσ ▸ h

theorem move_mono (hK : K' → K) (hC : C' → C) (h : Move K C δ σ b b') : Move K' C' δ σ b b' := by
  cases h with
  | funds _ supply fund reward committee entrusted hfund hc =>
      exact .funds _ supply fund reward committee entrusted hfund (hc ∘ hC)
  | pay ha hx => exact .pay ha (hx ∘ hC)
  | vest ha hn ht => exact .vest ha hn ht
  | gain ha hn ht => exact .gain ha hn ht
  | cash ha hc hd => exact .cash ha hc (hd ∘ hK)
  | settle ha hc hd hw hk ht => exact .settle ha hc (hd ∘ hK) (hw ∘ hK) (hk ∘ hK) ht
  | drain hk ha hc hd => exact .drain hk ha hc (hd ∘ hK)
  | openAccount auth ha => exact .openAccount auth ha
  | authorise ha hh => exact .authorise (ha ∘ hK) (hh ∘ hK)
  | delegate hx hy hxy hk hn => exact .delegate hx hy hxy (hk ∘ hK) (hn ∘ hK)
  | undelegate hx hy hk hn => exact .undelegate hx hy (hk ∘ hK) (hn ∘ hK)
  | return_ hl hkeys ht => exact .return_ hl hkeys ht
  | plan rate next toWithdraw ha hk hw => exact .plan rate next toWithdraw ha (hk ∘ hK) (hw ∘ hK)
  | reroute h => exact .reroute (h ∘ hK)
  | setProxy ha hk hq ht ht' => exact .setProxy ha (hk ∘ hK) hq ht ht'
  | offer onSale hk => exact .offer onSale (hk ∘ hK)
  | bid ha hb hx hb₀ hfree hk hc => exact .bid ha hb hx hb₀ (hfree ∘ hK) (hk ∘ hK) (hc ∘ hC)
  | release ha hb => exact .release ha hb
  | sell ha hb hs => exact .sell ha hb hs
  | unbid h => exact .unbid (h ∘ hK)

/-- Weaker reasons for the conditions. -/
theorem mono (hK : K' → K) (hC : C' → C) (h : Moves K C δ σ b b') : Moves K' C' δ σ b b' := by
  induction h with
  | refl => exact .refl _
  | tail _ hm ih => exact ih.tail (move_mono hK hC hm)

end Moves

/-! ## The surplus -/

section Surplus

variable {K C : Prop} {δ σ : Int} {b b' : Bank} {t t' : Table AccountName AccountBook} {a : AccountName}
  {f : AccountBook → AccountBook}

/-- The tokens on the accounts. -/
def tokens (t : Table AccountName AccountBook) : Int :=
  t.total (fun _ r => r.balance) + t.total (fun _ r => r.reservedBalance)

theorem surplus_def : b.surplus =
    b.supply - (tokens b.accounts + b.fund + b.reward + b.committee + b.entrusted) := rfl

/-- Tables with the same tokens. -/
theorem tokens_same (h : Table.Same (fun r => (r.balance, r.reservedBalance)) t t') :
    tokens t' = tokens t := by
  have hb := h.total (g := fun _ p => p.1)
  have hr := h.total (g := fun _ p => p.2)
  exact congrArg₂ (· + ·) hb hr

/-- A change of one account changes the tokens by its part. -/
theorem tokens_modify (ha : a ∈ t.keys) : tokens (t.modify a f) = tokens t
    + ((f (t.row a)).balance - (t.row a).balance)
    + ((f (t.row a)).reservedBalance - (t.row a).reservedBalance) := by
  unfold tokens
  rw [Table.total_modify ha, Table.total_modify ha]
  omega

/-- A change of one account that leaves its tokens alone. -/
theorem tokens_modify_same (hb : (f (t.row a)).balance = (t.row a).balance)
    (hr : (f (t.row a)).reservedBalance = (t.row a).reservedBalance) :
    tokens (t.modify a f) = tokens t :=
  tokens_same (.modify (Prod.ext hb hr))

theorem tokens_spread {x : AccountName} {ε : Nat → Int} (h : Spread x ε t t') : tokens t' = tokens t :=
  tokens_same (h.same (fun _ _ => rfl))

/-- **What a move does to the surplus.** -/
theorem Move.surplus_eq (h : Move K C δ σ b b') : b'.surplus = b.surplus + δ := by
  rw [surplus_def, surplus_def]
  cases h with
  | funds => dsimp only; omega
  | pay ha =>
      dsimp only [Bank.edit]
      rw [tokens_modify ha]
      dsimp only [AccountBook.addBalance]
      omega
  | vest ha hn ht =>
      have := tokens_spread ht
      rw [tokens_modify_same rfl rfl] at this
      dsimp only
      omega
  | gain ha hn ht =>
      have := tokens_spread ht
      rw [tokens_modify_same rfl rfl] at this
      dsimp only
      omega
  | cash ha =>
      dsimp only [Bank.edit]
      rw [tokens_modify ha]
      dsimp only [AccountBook.addBalance]
      omega
  | settle ha hc hd hw hk ht =>
      have := tokens_spread ht
      rw [tokens_modify ha] at this
      dsimp only [AccountBook.settled] at this ⊢
      omega
  | drain hk ha =>
      have := tokens_modify (f := AccountBook.drained) ha
      dsimp only [Bank.edit, AccountBook.drained] at this ⊢
      omega
  | openAccount auth ha =>
      have hb := Table.total_insert (g := fun _ r => r.balance) (x := ({} : AccountBook)) ha
      have hr := Table.total_insert (g := fun _ r => r.reservedBalance) (x := ({} : AccountBook)) ha
      dsimp only [tokens] at hb hr ⊢
      omega
  | authorise => dsimp only; omega
  | delegate hx hy =>
      dsimp only
      rw [tokens_modify_same rfl rfl, tokens_modify_same rfl rfl]
      omega
  | undelegate hx hy =>
      dsimp only
      rw [tokens_modify_same rfl rfl]
      omega
  | return_ hl hkeys ht =>
      have := tokens_same (t := b.accounts) ⟨hkeys, fun c hc => by rw [ht c hc]; rfl⟩
      dsimp only
      omega
  | plan =>
      dsimp only [Bank.edit]
      rw [tokens_modify_same rfl rfl]
      omega
  | reroute => dsimp only; omega
  | setProxy ha hk hq ht ht' =>
      have h₁ := tokens_spread ht
      have h₂ := tokens_spread ht'
      rw [tokens_modify_same rfl rfl] at h₂
      dsimp only
      omega
  | offer =>
      dsimp only [Bank.edit]
      rw [tokens_modify_same rfl rfl]
      omega
  | bid ha hb =>
      dsimp only [Bank.edit]
      rw [tokens_modify (t := b.accounts.modify _ _) hb, tokens_modify_same rfl rfl]
      dsimp only [AccountBook.lock]
      omega
  | release ha hb =>
      dsimp only [Bank.edit]
      rw [tokens_modify_same rfl rfl, tokens_modify hb]
      dsimp only [AccountBook.unlock]
      omega
  | sell ha hb hs =>
      dsimp only [Bank.edit]
      rw [tokens_modify_same rfl rfl, tokens_modify (t := b.accounts.modify _ _) hs, tokens_modify hb]
      dsimp only [AccountBook.spend, AccountBook.addBalance]
      omega
  | unbid =>
      dsimp only [Bank.edit]
      rw [tokens_modify_same rfl rfl]
      omega

/-- **What a chain of moves does to the surplus.** -/
theorem Moves.surplus_eq (h : Moves K C δ σ b b') : b'.surplus = b.surplus + δ := by
  induction h with
  | refl => rw [add_zero]
  | tail _ hm ih => rw [hm.surplus_eq, ih, add_assoc]

end Surplus

end Bank

end VizNode
