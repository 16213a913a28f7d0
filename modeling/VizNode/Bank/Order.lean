import VizNode.Bank.Reserve
import VizNode.Bank.Proxies
import VizNode.Bank.Delegations

/-!
# `VizNode.Bank.Order` — the books in order

The invariant of the bank as a whole. Its parts are not independent. The accounts without a key lose their
shares at the end of every block, and neither their votes nor their delegations are taken back; that does no
harm because **nobody can act for them**: they have no proxy, lend nothing, plan no withdrawal and are not for
sale. That in turn rests on nobody ever coming to sign for them.

## Contents
- **Accounts without a key.** `Sealed`.
- **Routes.**
- **The books in order.** `InOrder`, kept by every move made in order.
- **Nobody overdrawn.** `Solvent`, kept by every covered move.
-/

namespace VizNode

/-- What of a row shows that somebody acted for the account. -/
def AccountBook.acts (r : AccountBook) : Bool × Bool × AccountName × Int × Int × Int :=
  (r.accountOnSale, r.accountOnAuction, r.proxy, r.toWithdraw, r.withdrawn, r.vestingWithdrawRate)

namespace Bank

variable {K C : Prop} {δ σ τ : Int} {b b' : Bank} {a : AccountName}

/-! ## Accounts without a key -/

/-- **Nobody acts for an account without a key.** -/
structure Sealed (b : Bank) : Prop where
  known     : ∀ k ∈ Config.keyless, k ∈ b.accounts.keys
  authority : ∀ k ∈ Config.keyless, (b.authorities.row k).canSign = false
  history   : ∀ e ∈ b.masterHistory, e.account ∉ Config.keyless
  idle      : ∀ k ∈ Config.keyless, (b.accounts.row k).acts = (false, false, 0, 0, 0, 0)
  lent      : ∀ key ∈ b.delegations.keys, key.1 ∉ Config.keyless
  returning : ∀ e ∈ b.expirations, e.1 ∉ Config.keyless

namespace Sealed

variable {k : AccountName}

theorem not_onSale (h : Sealed b) (hk : k ∈ Config.keyless) : (b.accounts.row k).accountOnSale = false :=
  congrArg (fun p => p.1) (h.idle k hk)

theorem not_onAuction (h : Sealed b) (hk : k ∈ Config.keyless) : (b.accounts.row k).accountOnAuction = false :=
  congrArg (fun p => p.2.1) (h.idle k hk)

theorem proxy_eq (h : Sealed b) (hk : k ∈ Config.keyless) : (b.accounts.row k).proxy = 0 :=
  congrArg (fun p => p.2.2.1) (h.idle k hk)

theorem toWithdraw_eq (h : Sealed b) (hk : k ∈ Config.keyless) : (b.accounts.row k).toWithdraw = 0 :=
  congrArg (fun p => p.2.2.2.1) (h.idle k hk)

theorem withdrawn_eq (h : Sealed b) (hk : k ∈ Config.keyless) : (b.accounts.row k).withdrawn = 0 :=
  congrArg (fun p => p.2.2.2.2.1) (h.idle k hk)

theorem rate_eq (h : Sealed b) (hk : k ∈ Config.keyless) : (b.accounts.row k).vestingWithdrawRate = 0 :=
  congrArg (fun p => p.2.2.2.2.2) (h.idle k hk)

/-- An account without a key has promised no shares. -/
theorem free (h : Sealed b) (hd : Delegated b) (hk : k ∈ Config.keyless) (ha : k ∈ b.accounts.keys) :
    (b.accounts.row k).delegatedVestingShares
      + ((b.accounts.row k).toWithdraw - (b.accounts.row k).withdrawn) ≤ 0 := by
  have hlent : b.lentBy k = 0 := Delegated.lentBy_eq_zero (fun key hkey he => h.lent key hkey (he ▸ hk))
  have hret : returningTo b.expirations k = 0 := returningTo_eq_zero (fun e he hek => h.returning e he (hek ▸ hk))
  rw [hd.delegated k ha, hlent, hret, h.toWithdraw_eq hk, h.withdrawn_eq hk]
  decide

/-- Only accounts change, and none without a key in what shows. -/
theorem of_rows {e : Bank} (h : Sealed b) (hkeys : e.accounts.keys = b.accounts.keys)
    (hrow : ∀ k ∈ Config.keyless, (e.accounts.row k).acts = (b.accounts.row k).acts)
    (hauth : e.authorities = b.authorities) (hhist : e.masterHistory = b.masterHistory)
    (hd : e.delegations = b.delegations) (he : e.expirations = b.expirations) : Sealed e where
  known     := hkeys ▸ h.known
  authority := hauth ▸ h.authority
  history   := hhist ▸ h.history
  idle      := fun k hk => (hrow k hk).trans (h.idle k hk)
  lent      := hd ▸ h.lent
  returning := he ▸ h.returning

theorem of_same {e : Bank} (h : Sealed b) (hs : Table.Same AccountBook.acts b.accounts e.accounts)
    (hauth : e.authorities = b.authorities) (hhist : e.masterHistory = b.masterHistory)
    (hd : e.delegations = b.delegations) (he : e.expirations = b.expirations) : Sealed e :=
  h.of_rows hs.keys (fun k hk => hs.row k (h.known k hk)) hauth hhist hd he

/-- Somebody acts for an account that has a key. -/
theorem of_edit {e : Bank} {f : AccountBook → AccountBook} (h : Sealed b) (ha : a ∉ Config.keyless)
    (hs : Table.Same AccountBook.acts (b.accounts.modify a f) e.accounts)
    (hauth : e.authorities = b.authorities) (hhist : e.masterHistory = b.masterHistory)
    (hd : e.delegations = b.delegations) (he : e.expirations = b.expirations) : Sealed e := by
  refine h.of_rows hs.keys ?_ hauth hhist hd he
  intro k hk
  rw [hs.row k (h.known k hk), Table.modify_row_of_ne (fun hka : k = a => ha (hka ▸ hk))]

theorem lent_setTo {x y : AccountName} {n : Int} (h : Sealed b) (hx : x ∉ Config.keyless) :
    ∀ key ∈ (b.delegations.setTo (x, y) n).keys, key.1 ∉ Config.keyless := by
  intro key hkey
  rcases Table.mem_setTo_keys hkey with hkey | rfl
  · exact h.lent key hkey
  · exact hx

/-- An account without a key had no bid to lose. -/
theorem unbid (h : Sealed b) : Sealed (b.edit a .unbid) := by
  by_cases hak : a ∈ Config.keyless
  · refine h.of_same (.modify ?_) rfl rfl rfl rfl
    have hauction := h.not_onAuction hak
    unfold AccountBook.acts AccountBook.unbid
    dsimp only
    rw [hauction]
  · exact h.of_edit hak .refl rfl rfl rfl rfl

end Sealed

/-- **A move keeps the accounts without a key sealed.** -/
theorem Move.sealed (h : Move K C δ σ b b') (hK : K) (hb : Sealed b) : Sealed b' := by
  cases h with
  | funds => exact hb.of_same .refl rfl rfl rfl rfl
  | pay => exact hb.of_same (.modify rfl) rfl rfl rfl rfl
  | vest ha hn ht => exact hb.of_same ((Table.Same.modify rfl).trans (ht.same (fun _ _ => rfl))) rfl rfl rfl rfl
  | gain ha hn ht => exact hb.of_same ((Table.Same.modify rfl).trans (ht.same (fun _ _ => rfl))) rfl rfl rfl rfl
  | cash => exact hb.of_same (.modify rfl) rfl rfl rfl rfl
  | @settle _ a w d c rate next t ha hc hd hw hk ht =>
      by_cases hak : a ∈ Config.keyless
      · -- a turn of an account without a plan
        obtain ⟨rfl, rfl⟩ := hk hK hak
        refine hb.of_same (Table.Same.trans (.modify ?_) (ht.same (fun _ _ => rfl))) rfl rfl rfl rfl
        have hrate := hb.rate_eq hak
        unfold AccountBook.acts AccountBook.settled
        dsimp only
        rw [add_zero, hrate]
      · exact hb.of_edit hak (ht.same (fun _ _ => rfl)) rfl rfl rfl rfl
  | drain => exact hb.of_same (.modify rfl) rfl rfl rfl rfl
  | @openAccount _ a auth ha =>
      have hne : ∀ k ∈ Config.keyless, k ≠ a := fun k hk he => ha (he ▸ hb.known k hk)
      exact
        { known     := fun k hk => (Table.mem_insert_keys ha).mpr (.inl (hb.known k hk))
          authority := by
            intro k hk
            dsimp only
            rw [Table.insert_row_of_ne (hne k hk)]
            exact hb.authority k hk
          history   := hb.history
          idle      := by
            intro k hk
            dsimp only
            rw [Table.insert_row_of_ne (hne k hk)]
            exact hb.idle k hk
          lent      := hb.lent
          returning := hb.returning }
  | authorise ha hh =>
      exact
        { known     := hb.known
          authority := fun k hk => (congrArg (fun x => x.canSign) (ha hK k hk)).trans (hb.authority k hk)
          history   := fun e he => (hh hK e he).elim (hb.history e) id
          idle      := hb.idle
          lent      := hb.lent
          returning := hb.returning }
  | @delegate _ x y n hx hy hxy hk hn =>
      have hs := hb.of_same (e := (b.edit x (.addDelegated (n - b.lent (x, y)))).edit y
        (.addReceived (n - b.lent (x, y)))) ((Table.Same.modify rfl).trans (.modify rfl)) rfl rfl rfl rfl
      exact { hs with lent := hb.lent_setTo (hk hK) }
  | @undelegate _ x y n hx hy hk hn =>
      have hs := hb.of_same (e := b.edit y (.addReceived (n - b.lent (x, y)))) (.modify rfl) rfl rfl rfl rfl
      refine { hs with lent := hb.lent_setTo (hk hK), returning := ?_ }
      intro e he
      rcases List.mem_append.mp he with he | he
      · exact hb.returning e he
      · rw [List.mem_singleton.mp he]
        exact hk hK
  | @return_ _ l rest t hl hkeys ht =>
      have hs := hb.of_same (e := { b with accounts := t }) ⟨hkeys, fun c hc => by rw [ht c hc]; rfl⟩
        rfl rfl rfl rfl
      exact { hs with returning := fun e he => hb.returning e (hl.symm.subset (List.mem_append_right l he)) }
  | plan rate next toWithdraw ha hk hw => exact hb.of_edit (hk hK) .refl rfl rfl rfl rfl
  | reroute => exact hb.of_same .refl rfl rfl rfl rfl
  | @setProxy _ a q t t' ha hk hq ht ht' =>
      refine hb.of_rows (ht'.keys.trans ht.keys) ?_ rfl rfl rfl rfl
      intro k hk'
      have hkeys := hb.known k hk'
      have h₁ := (ht.same (g := AccountBook.acts) (fun _ _ => rfl)).row k hkeys
      have h₂ := (ht'.same (g := AccountBook.acts) (fun _ _ => rfl)).row k (ht.keys ▸ hkeys)
      rw [h₂, Table.modify_row_of_ne (fun hka : k = a => hk hK (hka ▸ hk')), h₁]
  | @offer _ a onSale hk =>
      by_cases hak : a ∈ Config.keyless
      · have hoff : onSale = false := by
          by_contra hne
          exact hk hK (Bool.eq_true_of_not_eq_false hne) hak
        refine hb.of_same (.modify ?_) rfl rfl rfl rfl
        have hsale := hb.not_onSale hak
        unfold AccountBook.acts AccountBook.forSale
        dsimp only
        rw [hoff, hsale]
      · exact hb.of_edit hak .refl rfl rfl rfl rfl
  | bid ha hbidder hx hb₀ hfree hk hc => exact hb.of_edit (hk hK) (.modify rfl) rfl rfl rfl rfl
  | release => exact Sealed.unbid (hb.of_same (.modify rfl) rfl rfl rfl rfl)
  | sell => exact Sealed.unbid (hb.of_same ((Table.Same.modify rfl).trans (.modify rfl)) rfl rfl rfl rfl)
  | unbid => exact hb.unbid

/-! ## Routes -/

/-- A new account is on nobody's route. -/
theorem RoutesWithin.append {keys : List AccountName} {routes : Table (AccountName × AccountName) Route}
    (h : RoutesWithin keys routes) (ha : a ∉ keys) : RoutesWithin (keys ++ [a]) routes where
  known  := fun key hkey => List.mem_append_left [a] (h.known key hkey)
  within := by
    intro c
    have hnone : routes.find (c, a) = none := Table.find_eq_none.mpr (fun hkey => ha (h.known _ hkey))
    have hsame : routesFrom (keys ++ [a]) routes c = routesFrom keys routes c := by
      unfold routesFrom
      cases keys with
      | nil => rfl
      | cons x keys =>
          rw [List.cons_append, List.drop_one, List.drop_one, List.tail_cons, List.tail_cons,
            List.filterMap_append]
          simp [hnone]
    rw [hsame]
    exact h.within c

/-- **A move keeps the routes in order.** -/
theorem Move.routes (h : Move K C δ σ b b') (hK : K) (hb : RoutesWithin b.accounts.keys b.routes) :
    RoutesWithin b'.accounts.keys b'.routes := by
  cases h with
  | vest ha hn ht => exact ht.keys.symm ▸ hb
  | gain ha hn ht => exact ht.keys.symm ▸ hb
  | settle ha hc hd hw hk ht => exact ht.keys.symm ▸ hb
  | openAccount auth ha =>
      dsimp only
      rw [Table.insert_keys ha]
      exact hb.append ha
  | return_ hl hkeys ht => exact hkeys.symm ▸ hb
  | reroute h => exact h hK
  | setProxy ha hk hq ht ht' => exact (ht'.keys.trans ht.keys).symm ▸ hb
  | _ => exact hb

/-! ## The books in order -/

/-- **The books are in order**, but for `τ` shares in flight. -/
structure InOrder (τ : Int) (b : Bank) : Prop where
  sealed    : Sealed b
  backed    : Backed τ b
  routes    : RoutesWithin b.accounts.keys b.routes
  proxied   : Proxied b.accounts
  delegated : Delegated b
  reserved  : Reserved b.accounts

/-- **A move keeps the books in order.** -/
theorem Move.inOrder (h : Move K C δ σ b b') (hK : K) (hb : InOrder τ b) : InOrder (τ + σ) b' where
  sealed    := h.sealed hK hb.sealed
  backed    := h.backed hK hb.backed
  routes    := h.routes hK hb.routes
  proxied   := h.proxied (fun _ hk _ => hb.sealed.proxy_eq hk) hb.proxied
  delegated := h.delegated hK hb.backed (fun _ hk ha => hb.sealed.free hb.delegated hk ha) hb.delegated
  reserved  := h.reserved hK hb.reserved

theorem Moves.inOrder (h : Moves K C δ σ b b') (hK : K) (hb : InOrder τ b) : InOrder (τ + σ) b' := by
  induction h with
  | refl => rwa [add_zero]
  | tail _ hm ih =>
      rw [← add_assoc]
      exact hm.inOrder hK (ih hb)

/-- A chain that brings everything it takes keeps the books in order. -/
theorem Moves.order (h : Moves (InOrder 0 b) C δ 0 b b') (hb : InOrder 0 b) : InOrder 0 b' :=
  h.inOrder hb hb

/-- **Two chains in a row.** The second one starts from books that the first one has kept in order. -/
theorem Moves.next {C' : Prop} {δ' σ' : Int} {b'' : Bank} (h : Moves (InOrder 0 b) C δ 0 b b')
    (h' : Moves (InOrder 0 b') C' δ' σ' b' b'') (hC : C → C') : Moves (InOrder 0 b) C (δ + δ') σ' b b'' :=
  (h.trans (h'.mono h.order hC)).cast rfl (zero_add σ')

/-! ## Nobody overdrawn -/

/-- **Nobody is overdrawn.** -/
structure Solvent (b : Bank) : Prop where
  account   : ∀ a ∈ b.accounts.keys, 0 ≤ (b.accounts.row a).balance
  committee : 0 ≤ b.committee

/-- Shares are not worth less than nothing. -/
theorem Worth.nonneg {d c : Int} (h : b.Worth d c) : 0 ≤ c := by
  obtain ⟨hpos, hnn, rfl⟩ := Ledger.mulDiv_eq_ok.mp h
  exact Int.ediv_nonneg hnn hpos.le

namespace Solvent

theorem of_same {e : Bank} (h : Solvent b) (hs : Table.Same AccountBook.balance b.accounts e.accounts)
    (hc : e.committee = b.committee) : Solvent e where
  account   := by
    intro a ha
    rw [hs.keys] at ha
    rw [hs.row a ha]
    exact h.account a ha
  committee := hc ▸ h.committee

/-- Tokens come to an account, or leave it. -/
theorem of_edit {e : Bank} {f : AccountBook → AccountBook} (h : Solvent b)
    (hf : a ∈ b.accounts.keys → 0 ≤ (b.accounts.row a).balance → 0 ≤ (f (b.accounts.row a)).balance)
    (hs : Table.Same AccountBook.balance (b.accounts.modify a f) e.accounts)
    (hc : e.committee = b.committee) : Solvent e := by
  have hmid : Solvent (b.edit a f) :=
    { account   := Table.forall_modify (P := fun _ (r : AccountBook) => 0 ≤ r.balance) h.account
        (fun ha => hf ha (h.account a ha))
      committee := h.committee }
  exact hmid.of_same hs hc

end Solvent

/-- **A covered move overdraws nobody.** -/
theorem Move.solvent (h : Move K C δ σ b b') (hC : C) (hb : Solvent b) : Solvent b' := by
  cases h with
  | funds _ supply fund reward committee entrusted hfund hc =>
      refine ⟨hb.account, ?_⟩
      have := hb.committee
      have := hc hC
      dsimp only
      omega
  | pay ha hx =>
      refine hb.of_edit ?_ .refl rfl
      intro _ h₀
      have := hx hC
      unfold AccountBook.addBalance
      dsimp only
      omega
  | vest ha hn ht => exact hb.of_same ((Table.Same.modify rfl).trans (ht.same (fun _ _ => rfl))) rfl
  | gain ha hn ht => exact hb.of_same ((Table.Same.modify rfl).trans (ht.same (fun _ _ => rfl))) rfl
  | cash ha hc hd =>
      refine hb.of_edit ?_ .refl rfl
      intro _ h₀
      exact add_nonneg h₀ hc.nonneg
  | settle ha hc hd hw hk ht =>
      refine hb.of_edit ?_ (ht.same (fun _ _ => rfl)) rfl
      intro _ h₀
      exact add_nonneg h₀ hc.nonneg
  | drain => exact hb.of_same (.modify rfl) rfl
  | openAccount auth ha =>
      exact ⟨Table.forall_insert (P := fun _ (r : AccountBook) => 0 ≤ r.balance) hb.account (le_refl (0 : Int)),
        hb.committee⟩
  | authorise => exact hb.of_same .refl rfl
  | delegate => exact hb.of_same ((Table.Same.modify rfl).trans (.modify rfl)) rfl
  | undelegate => exact hb.of_same (.modify rfl) rfl
  | return_ hl hkeys ht => exact hb.of_same ⟨hkeys, fun c hc => by rw [ht c hc]; rfl⟩ rfl
  | plan => exact hb.of_same (.modify rfl) rfl
  | reroute => exact hb.of_same .refl rfl
  | setProxy ha hk hq ht ht' =>
      exact hb.of_same (((ht.same (fun _ _ => rfl)).trans (.modify rfl)).trans (ht'.same (fun _ _ => rfl))) rfl
  | offer => exact hb.of_same (.modify rfl) rfl
  | @bid _ a bidder x ha hbidder hx hb₀ hfree hk hc =>
      have hmid : Solvent (b.edit a (.bidden x bidder)) := hb.of_same (.modify rfl) rfl
      refine hmid.of_edit ?_ .refl rfl
      intro _ _
      have hrow : ((b.edit a (.bidden x bidder)).accounts.row bidder).balance = (b.accounts.row bidder).balance :=
        Table.modify_same (p := AccountBook.balance) rfl
      have := hc hC
      show 0 ≤ ((b.edit a (.bidden x bidder)).accounts.row bidder).balance - x
      omega
  | release =>
      refine hb.of_edit ?_ (.modify rfl) rfl
      intro _ h₀
      exact add_nonneg h₀ (Int.natCast_nonneg _)
  | @sell _ a seller ha hbidder hs =>
      have hmid : Solvent (b.edit (b.accounts.row a).currentBidder (.spend (b.accounts.row a).currentBid)) :=
        hb.of_same (.modify rfl) rfl
      refine hmid.of_edit (a := seller) ?_ (.modify rfl) rfl
      intro _ h₀
      exact add_nonneg h₀ (Int.natCast_nonneg _)
  | unbid => exact hb.of_same (.modify rfl) rfl

theorem Moves.solvent (h : Moves K C δ σ b b') (hC : C) (hb : Solvent b) : Solvent b' := by
  induction h with
  | refl => exact hb
  | tail _ hm ih => exact hm.solvent hC (ih hb)

end Bank

end VizNode
