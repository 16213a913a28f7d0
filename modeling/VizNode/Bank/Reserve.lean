import VizNode.Bank.Moves

/-!
# `VizNode.Bank.Reserve` — bids and the tokens locked for them

A bid on an account locks tokens of the bidder. The bidder may have bids on several accounts, and may be on
auction itself, so its reserve is a sum over all accounts. What keeps the sum right is that **every change of
a bid moves exactly the old bid out of the reserve of the old bidder, and the new one into the reserve of the
new one**.
-/

namespace VizNode

/-- What of a row is about bids on the account. -/
def AccountBook.bids (r : AccountBook) : AccountName × Nat × Bool :=
  (r.currentBidder, r.currentBid, r.accountOnAuction)

/-- The bid on an account, as far as it is `c`'s. -/
def AccountBook.bidOf (c : AccountName) (r : AccountBook) : Int :=
  if r.currentBidder = c then (r.currentBid : Int) else 0

namespace Bank

variable {K C : Prop} {δ σ : Int} {b b' : Bank} {t t' : Table AccountName AccountBook} {a : AccountName}

/-- **Reserves in order.** -/
structure Reserved (t : Table AccountName AccountBook) : Prop where
  sum     : ∀ c ∈ t.keys, (t.row c).reservedBalance = t.total (fun _ r => r.bidOf c)
  open_   : ∀ a ∈ t.keys, (t.row a).currentBidder ≠ 0 ↔ 0 < (t.row a).currentBid
  auction : ∀ a ∈ t.keys, (t.row a).accountOnAuction = true ↔ (t.row a).currentBidder ≠ 0
  known   : ∀ a ∈ t.keys, (t.row a).currentBidder ≠ 0 → (t.row a).currentBidder ∈ t.keys

namespace Reserved

/-- An account without a bidder has no bid. -/
theorem bid_eq_zero (h : Reserved t) (ha : a ∈ t.keys) (h₀ : (t.row a).currentBidder = 0) :
    (t.row a).currentBid = 0 := by
  by_contra hne
  exact (h.open_ a ha).mpr (Nat.pos_of_ne_zero hne) h₀

/-- Reserves cannot be negative. -/
theorem nonneg (h : Reserved t) (ha : a ∈ t.keys) : 0 ≤ (t.row a).reservedBalance := by
  rw [h.sum a ha]
  apply Table.total_nonneg
  intro c _
  unfold AccountBook.bidOf
  by_cases hc : (t.row c).currentBidder = a
  · rw [if_pos hc]
    exact Int.natCast_nonneg _
  · rw [if_neg hc]

/-- Neither a bid nor a reserve changes. -/
theorem of_same (h : Reserved t) (hs : Table.Same (fun r => (r.bids, r.reservedBalance)) t t') :
    Reserved t' := by
  have hbids : ∀ c ∈ t.keys, (t'.row c).bids = (t.row c).bids := fun c hc => (Prod.mk.inj (hs.row c hc)).1
  have hbidder : ∀ c ∈ t.keys, (t'.row c).currentBidder = (t.row c).currentBidder :=
    fun c hc => congrArg Prod.fst (hbids c hc)
  have hbid : ∀ c ∈ t.keys, (t'.row c).currentBid = (t.row c).currentBid :=
    fun c hc => congrArg (fun p => p.2.1) (hbids c hc)
  have hauction : ∀ c ∈ t.keys, (t'.row c).accountOnAuction = (t.row c).accountOnAuction :=
    fun c hc => congrArg (fun p => p.2.2) (hbids c hc)
  refine ⟨?_, ?_, ?_, ?_⟩ <;> intro c hc <;> rw [hs.keys] at hc
  · rw [(Prod.mk.inj (hs.row c hc)).2, h.sum c hc]
    refine (Table.total_congr hs.keys ?_).symm
    intro d hd
    unfold AccountBook.bidOf
    rw [hbidder d hd, hbid d hd]
  · rw [hbidder c hc, hbid c hc]
    exact h.open_ c hc
  · rw [hauction c hc, hbidder c hc]
    exact h.auction c hc
  · rw [hbidder c hc, hs.keys]
    exact h.known c hc

/-- **The bid on one account changes**, and the reserves follow it. -/
theorem of_change {f : AccountBook → AccountBook} (h : Reserved t) (ha : a ∈ t.keys)
    (hs : Table.Same AccountBook.bids (t.modify a f) t')
    (hopen : (f (t.row a)).currentBidder ≠ 0 ↔ 0 < (f (t.row a)).currentBid)
    (hauction : (f (t.row a)).accountOnAuction = true ↔ (f (t.row a)).currentBidder ≠ 0)
    (hknown : (f (t.row a)).currentBidder ≠ 0 → (f (t.row a)).currentBidder ∈ t.keys)
    (hres : ∀ c ∈ t.keys, (t'.row c).reservedBalance =
      (t.row c).reservedBalance + ((f (t.row a)).bidOf c - (t.row a).bidOf c)) : Reserved t' := by
  have hkeys : t'.keys = t.keys := hs.keys
  have hbidder : ∀ c ∈ t.keys, (t'.row c).currentBidder = ((t.modify a f).row c).currentBidder :=
    fun c hc => congrArg Prod.fst (hs.row c hc)
  have hbid : ∀ c ∈ t.keys, (t'.row c).currentBid = ((t.modify a f).row c).currentBid :=
    fun c hc => congrArg (fun p => p.2.1) (hs.row c hc)
  have hauction' : ∀ c ∈ t.keys, (t'.row c).accountOnAuction = ((t.modify a f).row c).accountOnAuction :=
    fun c hc => congrArg (fun p => p.2.2) (hs.row c hc)
  refine ⟨?_, ?_, ?_, ?_⟩ <;> intro c hc <;> rw [hkeys] at hc
  · have hsum : t'.total (fun _ r => r.bidOf c) = (t.modify a f).total (fun _ r => r.bidOf c) := by
      refine Table.total_congr hkeys ?_
      intro d hd
      unfold AccountBook.bidOf
      rw [hbidder d hd, hbid d hd]
    rw [hres c hc, hsum, Table.total_modify ha, h.sum c hc]
  · rw [hbidder c hc, hbid c hc]
    exact Table.forall_modify (P := fun _ r => r.currentBidder ≠ 0 ↔ 0 < r.currentBid) h.open_
      (fun _ => hopen) c hc
  · rw [hauction' c hc, hbidder c hc]
    exact Table.forall_modify (P := fun _ r => r.accountOnAuction = true ↔ r.currentBidder ≠ 0) h.auction
      (fun _ => hauction) c hc
  · rw [hbidder c hc, hkeys]
    exact Table.forall_modify (P := fun _ r => r.currentBidder ≠ 0 → r.currentBidder ∈ t.keys) h.known
      (fun _ => hknown) c hc

/-- A bid is placed on an account that has none. -/
theorem bid (h : Reserved t) (ha : a ∈ t.keys) {bidder : AccountName} {x : Nat} (hb : bidder ∈ t.keys)
    (hx : 0 < x) (hb₀ : bidder ≠ 0) (hfree : (t.row a).currentBidder = 0) :
    Reserved ((t.modify a (.bidden x bidder)).modify bidder (.lock x)) := by
  have hzero : ∀ c, (t.row a).bidOf c = 0 := by
    intro c
    unfold AccountBook.bidOf
    rw [h.bid_eq_zero ha hfree]
    exact ite_self 0
  refine h.of_change ha (.modify rfl) ⟨fun _ => hx, fun _ => hb₀⟩ ⟨fun _ => hb₀, fun _ => rfl⟩
    (fun _ => hb) ?_
  intro c _
  rw [hzero, sub_zero, Table.modify_part (p := AccountBook.reservedBalance) (x := x) rfl,
    Table.modify_same (p := AccountBook.reservedBalance) rfl]
  congr 1
  exact if_congr eq_comm rfl rfl

/-- The bid on an account is taken away, and so is the bidder's reserve for it. -/
theorem unbid (h : Reserved t) (ha : a ∈ t.keys) {t₁ : Table AccountName AccountBook}
    (hs : Table.Same AccountBook.bids t t₁)
    (hres : ∀ c ∈ t.keys, (t₁.row c).reservedBalance = (t.row c).reservedBalance
      + if c = (t.row a).currentBidder then -((t.row a).currentBid : Int) else 0) :
    Reserved (t₁.modify a .unbid) := by
  refine h.of_change (f := .unbid) ha ⟨hs.keys, ?_⟩
    ⟨fun hne => absurd rfl hne, fun hlt => absurd hlt (Nat.lt_irrefl 0)⟩
    ⟨fun he => absurd he Bool.false_ne_true, fun hne => absurd rfl hne⟩ (fun hne => absurd rfl hne) ?_
  · intro c hc
    by_cases hca : c = a
    · rw [hca, Table.modify_row_self, Table.modify_row_self]
      rfl
    · rw [Table.modify_row_of_ne hca, Table.modify_row_of_ne hca]
      exact hs.row c hc
  · intro c hc
    have hnew : ((t.row a).unbid).bidOf c = 0 := ite_self 0
    rw [Table.modify_same (p := AccountBook.reservedBalance) rfl, hres c hc, hnew, zero_sub]
    unfold AccountBook.bidOf
    by_cases hcb : c = (t.row a).currentBidder
    · rw [if_pos hcb, if_pos hcb.symm]
    · rw [if_neg hcb, if_neg (Ne.symm hcb), neg_zero]

/-- A new account has no bid and makes none. -/
theorem insert (h : Reserved t) (ha : a ∉ t.keys) : Reserved (t.insert a {}) := by
  have hsum : ∀ c, (t.insert a {}).total (fun _ r => r.bidOf c) = t.total (fun _ r => r.bidOf c) := by
    intro c
    rw [Table.total_insert ha]
    have : ({} : AccountBook).bidOf c = 0 := ite_self 0
    rw [this, add_zero]
  refine ⟨?_, ?_, ?_, ?_⟩
  · intro c hc
    rw [hsum c]
    rcases (Table.mem_insert_keys ha).mp hc with hc | rfl
    · rw [Table.insert_row_of_mem ha hc]
      exact h.sum c hc
    · -- nobody bids in the name of an account that is not there
      rw [Table.insert_row_self ha, Table.total_eq_zero]
      intro d hd
      unfold AccountBook.bidOf
      by_cases hdc : (t.row d).currentBidder = c
      · by_cases hd₀ : (t.row d).currentBidder = 0
        · rw [h.bid_eq_zero hd hd₀]
          exact ite_self 0
        · exact absurd (hdc ▸ h.known d hd hd₀) ha
      · exact if_neg hdc
  · exact Table.forall_insert (P := fun _ (r : AccountBook) => r.currentBidder ≠ 0 ↔ 0 < r.currentBid)
      h.open_ ⟨fun hne => absurd rfl hne, fun hlt => absurd hlt (by decide)⟩
  · exact Table.forall_insert
      (P := fun _ (r : AccountBook) => r.accountOnAuction = true ↔ r.currentBidder ≠ 0) h.auction
      ⟨fun he => absurd he (by decide), fun hne => absurd rfl hne⟩
  · refine Table.forall_insert
      (P := fun _ (r : AccountBook) => r.currentBidder ≠ 0 → r.currentBidder ∈ (t.insert a {}).keys) ?_
      (fun hne => absurd rfl hne)
    intro c hc hne
    exact (Table.mem_insert_keys ha).mpr (.inl (h.known c hc hne))

end Reserved

/-- **A move keeps the reserves in order.** -/
theorem Move.reserved (h : Move K C δ σ b b') (hK : K) (hb : Reserved b.accounts) : Reserved b'.accounts := by
  cases h with
  | funds => exact hb
  | pay => exact hb.of_same (.modify rfl)
  | vest ha hn ht => exact hb.of_same ((Table.Same.modify rfl).trans (ht.same (fun _ _ => rfl)))
  | gain ha hn ht => exact hb.of_same ((Table.Same.modify rfl).trans (ht.same (fun _ _ => rfl)))
  | cash => exact hb.of_same (.modify rfl)
  | settle ha hc hd hw hk ht => exact hb.of_same ((Table.Same.modify rfl).trans (ht.same (fun _ _ => rfl)))
  | drain => exact hb.of_same (.modify rfl)
  | openAccount auth ha => exact hb.insert ha
  | authorise => exact hb
  | delegate => exact hb.of_same ((Table.Same.modify rfl).trans (.modify rfl))
  | undelegate => exact hb.of_same (.modify rfl)
  | return_ hl hkeys ht => exact hb.of_same ⟨hkeys, fun c hc => by rw [ht c hc]; rfl⟩
  | plan => exact hb.of_same (.modify rfl)
  | reroute => exact hb
  | setProxy ha hk hq ht ht' =>
      exact hb.of_same (((ht.same (fun _ _ => rfl)).trans (.modify rfl)).trans (ht'.same (fun _ _ => rfl)))
  | offer => exact hb.of_same (.modify rfl)
  | bid ha hbidder hx hb₀ hfree => exact hb.bid ha hbidder hx hb₀ (hfree hK)
  | release ha hbidder =>
      refine hb.unbid ha (.modify rfl) ?_
      intro c _
      exact Table.modify_part (p := AccountBook.reservedBalance) (sub_eq_add_neg _ _)
  | @sell _ a seller ha hbidder hs =>
      refine hb.unbid ha ((Table.Same.modify rfl).trans (.modify rfl)) ?_
      intro c _
      dsimp only [Bank.edit]
      rw [Table.modify_same (p := AccountBook.reservedBalance) rfl]
      exact Table.modify_part (p := AccountBook.reservedBalance) (sub_eq_add_neg _ _)
  | @unbid _ a h =>
      by_cases ha : a ∈ b.accounts.keys
      · -- the account had no bid, so nothing changes
        have hbidder : (b.accounts.row a).currentBidder = 0 := by
          rcases h hK with hauction | hbidder
          · by_contra hne
            rw [(hb.auction a ha).mpr hne] at hauction
            exact absurd hauction (by decide)
          · exact hbidder
        have hauction : (b.accounts.row a).accountOnAuction = false := by
          by_contra hne
          exact (hb.auction a ha).mp (Bool.eq_true_of_not_eq_false hne) hbidder
        refine hb.of_same (.modify ?_)
        unfold AccountBook.bids AccountBook.unbid
        rw [hbidder, hauction, hb.bid_eq_zero ha hbidder]
      · exact hb.of_same (.modify_of_not_mem ha)

end Bank

end VizNode
