import VizNode.Bank.Shares

/-!
# `VizNode.Bank.Delegations` — shares that are lent, and shares that are on their way out

An account can lend shares, and it can plan to withdraw shares. Shares that are taken back from a borrower are
not free at once: for a while they are nobody's, and the lender still counts them as lent. **What is lent, what
is coming back and what is planned to leave never exceed what the account has**, so no share is promised
twice.
-/

namespace VizNode

/-- What of a row is about shares that are lent or planned to leave. -/
def AccountBook.promised (r : AccountBook) : Int × Int × Int × Int × Int :=
  (r.delegatedVestingShares, r.receivedVestingShares, r.toWithdraw, r.withdrawn, r.vestingShares)

/-- What is lent and what is planned to leave does not exceed what is there. -/
def AccountBook.Fits (r : AccountBook) : Prop :=
  r.delegatedVestingShares + (r.toWithdraw - r.withdrawn) ≤ r.vestingShares

namespace Bank

variable {K C : Prop} {δ σ τ : Int} {b b' : Bank} {a : AccountName}

/-- The shares an account lends. -/
def lentBy (b : Bank) (c : AccountName) : Int :=
  b.delegations.total (fun key n => if key.1 = c then n else 0)

/-- The shares an account borrows. -/
def lentTo (b : Bank) (c : AccountName) : Int :=
  b.delegations.total (fun key n => if key.2 = c then n else 0)

/-- What of a list of returning shares is an account's. -/
def returningTo (l : List (AccountName × Int)) (c : AccountName) : Int :=
  (l.map (fun e => if e.1 = c then e.2 else 0)).sum

/-- **Delegations in order.** -/
structure Delegated (b : Bank) : Prop where
  known     : ∀ key ∈ b.delegations.keys, key.1 ∈ b.accounts.keys ∧ key.2 ∈ b.accounts.keys
  returning : ∀ e ∈ b.expirations, e.1 ∈ b.accounts.keys ∧ 0 ≤ e.2
  delegated : ∀ c ∈ b.accounts.keys,
    (b.accounts.row c).delegatedVestingShares = b.lentBy c + returningTo b.expirations c
  received  : ∀ c ∈ b.accounts.keys, (b.accounts.row c).receivedVestingShares = b.lentTo c
  bound     : ∀ c ∈ b.accounts.keys, (b.accounts.row c).Fits

theorem returningTo_append {l l' : List (AccountName × Int)} {c : AccountName} :
    returningTo (l ++ l') c = returningTo l c + returningTo l' c := by
  unfold returningTo
  rw [List.map_append, List.sum_append]

theorem returningTo_perm {l l' : List (AccountName × Int)} (h : l.Perm l') {c : AccountName} :
    returningTo l c = returningTo l' c := (h.map _).sum_eq

theorem returningTo_nonneg {l : List (AccountName × Int)} (h : ∀ e ∈ l, 0 ≤ e.2) (c : AccountName) :
    0 ≤ returningTo l c := by
  apply List.sum_nonneg
  intro x hx
  obtain ⟨e, he, rfl⟩ := List.mem_map.mp hx
  by_cases hc : e.1 = c
  · rw [if_pos hc]
    exact h e he
  · rw [if_neg hc]

/-- An account that appears in no entry. -/
theorem returningTo_eq_zero {l : List (AccountName × Int)} {c : AccountName} (h : ∀ e ∈ l, e.1 ≠ c) :
    returningTo l c = 0 := by
  apply List.sum_eq_zero
  intro x hx
  obtain ⟨e, he, rfl⟩ := List.mem_map.mp hx
  exact if_neg (h e he)

namespace Delegated

/-- An account that lends nothing. -/
theorem lentBy_eq_zero (h : ∀ key ∈ b.delegations.keys, key.1 ≠ a) : b.lentBy a = 0 :=
  Table.total_eq_zero (fun key hkey => if_neg (h key hkey))

theorem lentTo_eq_zero (h : ∀ key ∈ b.delegations.keys, key.2 ≠ a) : b.lentTo a = 0 :=
  Table.total_eq_zero (fun key hkey => if_neg (h key hkey))

/-- What is lent stays, and every account's own numbers leave it the room. -/
theorem of_rows {e : Bank} (h : Delegated b) (hkeys : e.accounts.keys = b.accounts.keys)
    (hd : e.delegations = b.delegations) (he : e.expirations = b.expirations)
    (hdel : ∀ c ∈ b.accounts.keys,
      (e.accounts.row c).delegatedVestingShares = (b.accounts.row c).delegatedVestingShares)
    (hrec : ∀ c ∈ b.accounts.keys,
      (e.accounts.row c).receivedVestingShares = (b.accounts.row c).receivedVestingShares)
    (hbound : ∀ c ∈ b.accounts.keys, (e.accounts.row c).Fits) : Delegated e where
  known     := by
    rw [hd, hkeys]
    exact h.known
  returning := by
    rw [he, hkeys]
    exact h.returning
  delegated := by
    intro c hc
    rw [hkeys] at hc
    rw [hdel c hc, h.delegated c hc, he]
    unfold Bank.lentBy
    rw [hd]
  received  := by
    intro c hc
    rw [hkeys] at hc
    rw [hrec c hc, h.received c hc]
    unfold Bank.lentTo
    rw [hd]
  bound     := by
    intro c hc
    exact hbound c (hkeys ▸ hc)

/-- Nothing of it changes. -/
theorem of_same {e : Bank} (h : Delegated b)
    (hs : Table.Same AccountBook.promised b.accounts e.accounts) (hd : e.delegations = b.delegations)
    (he : e.expirations = b.expirations) : Delegated e := by
  have hrow : ∀ c ∈ b.accounts.keys, (e.accounts.row c).promised = (b.accounts.row c).promised := hs.row
  refine h.of_rows hs.keys hd he (fun c hc => congrArg Prod.fst (hrow c hc))
    (fun c hc => congrArg (fun p => p.2.1) (hrow c hc)) ?_
  intro c hc
  have hp := hrow c hc
  simp only [AccountBook.promised, Prod.mk.injEq] at hp
  obtain ⟨h₁, -, h₃, h₄, h₅⟩ := hp
  unfold AccountBook.Fits
  rw [h₁, h₃, h₄, h₅]
  exact h.bound c hc

/-- The numbers of one account change, and leave the room. -/
theorem of_edit {e : Bank} {f : AccountBook → AccountBook} (h : Delegated b)
    (hs : Table.Same AccountBook.promised (b.accounts.modify a f) e.accounts)
    (hd : e.delegations = b.delegations) (he : e.expirations = b.expirations)
    (hdel : (f (b.accounts.row a)).delegatedVestingShares = (b.accounts.row a).delegatedVestingShares)
    (hrec : (f (b.accounts.row a)).receivedVestingShares = (b.accounts.row a).receivedVestingShares)
    (hbound : a ∈ b.accounts.keys → (f (b.accounts.row a)).Fits) : Delegated e := by
  have hmid : Delegated (b.edit a f) := by
    refine h.of_rows rfl rfl rfl
      (fun c _ => Table.modify_same (p := AccountBook.delegatedVestingShares) hdel)
      (fun c _ => Table.modify_same (p := AccountBook.receivedVestingShares) hrec) ?_
    exact Table.forall_modify (P := fun _ => AccountBook.Fits) h.bound hbound
  exact hmid.of_same hs hd he

/-- A new account lends and borrows nothing. -/
theorem insert (h : Delegated b) (ha : a ∉ b.accounts.keys) (auths : Table AccountName AccountAuthority) :
    Delegated { b with accounts := b.accounts.insert a {}, authorities := auths } where
  known     := fun key hkey =>
    ⟨(Table.mem_insert_keys ha).mpr (.inl (h.known key hkey).1),
      (Table.mem_insert_keys ha).mpr (.inl (h.known key hkey).2)⟩
  returning := fun e he => ⟨(Table.mem_insert_keys ha).mpr (.inl (h.returning e he).1), (h.returning e he).2⟩
  delegated := by
    intro c hc
    rcases (Table.mem_insert_keys ha).mp hc with hc | rfl
    · dsimp only
      rw [Table.insert_row_of_mem ha hc]
      exact h.delegated c hc
    · have h₁ : b.lentBy c = 0 := lentBy_eq_zero (fun key hkey he => ha (he ▸ (h.known key hkey).1))
      have h₂ : returningTo b.expirations c = 0 :=
        returningTo_eq_zero (fun e he hec => ha (hec ▸ (h.returning e he).1))
      dsimp only
      rw [Table.insert_row_self ha]
      exact (congrArg₂ (· + ·) h₁ h₂).symm
  received  := by
    intro c hc
    rcases (Table.mem_insert_keys ha).mp hc with hc | rfl
    · dsimp only
      rw [Table.insert_row_of_mem ha hc]
      exact h.received c hc
    · have h₁ : b.lentTo c = 0 := lentTo_eq_zero (fun key hkey he => ha (he ▸ (h.known key hkey).2))
      dsimp only
      rw [Table.insert_row_self ha]
      exact h₁.symm
  bound     := Table.forall_insert (P := fun _ => AccountBook.Fits) h.bound (le_refl (0 : Int))

variable {x y : AccountName} {n : Int}

theorem lentBy_setTo {c : AccountName} {acc : Table AccountName AccountBook} {l : List (AccountName × Int)} :
    Bank.lentBy { b with accounts := acc, delegations := b.delegations.setTo (x, y) n, expirations := l } c =
      b.lentBy c + if x = c then n - b.lent (x, y) else 0 := Table.total_setTo (p := fun key : AccountName × AccountName => key.1 = c)

theorem lentTo_setTo {c : AccountName} {acc : Table AccountName AccountBook} {l : List (AccountName × Int)} :
    Bank.lentTo { b with accounts := acc, delegations := b.delegations.setTo (x, y) n, expirations := l } c =
      b.lentTo c + if y = c then n - b.lent (x, y) else 0 := Table.total_setTo (p := fun key : AccountName × AccountName => key.2 = c)

theorem known_setTo (h : Delegated b) (hx : x ∈ b.accounts.keys) (hy : y ∈ b.accounts.keys) :
    ∀ key ∈ (b.delegations.setTo (x, y) n).keys, key.1 ∈ b.accounts.keys ∧ key.2 ∈ b.accounts.keys := by
  intro key hkey
  rcases Table.mem_setTo_keys hkey with hkey | rfl
  · exact h.known key hkey
  · exact ⟨hx, hy⟩

/-- More shares are lent. -/
theorem delegate (h : Delegated b) (hx : x ∈ b.accounts.keys) (hy : y ∈ b.accounts.keys)
    (hn : (b.accounts.row x).delegatedVestingShares
      + ((b.accounts.row x).toWithdraw - (b.accounts.row x).withdrawn) + (n - b.lent (x, y))
        ≤ (b.accounts.row x).vestingShares) :
    Delegated { b with
      accounts    := (b.accounts.modify x (.addDelegated (n - b.lent (x, y)))).modify y
        (.addReceived (n - b.lent (x, y)))
      delegations := b.delegations.setTo (x, y) n } where
  known     := h.known_setTo hx hy
  returning := h.returning
  delegated := by
    intro c hc
    rw [lentBy_setTo]
    dsimp only
    rw [Table.modify_same (p := AccountBook.delegatedVestingShares) rfl,
      Table.modify_part (p := AccountBook.delegatedVestingShares) rfl, h.delegated c hc,
      if_congr (eq_comm (a := c) (b := x)) rfl rfl]
    omega
  received  := by
    intro c hc
    rw [lentTo_setTo]
    dsimp only
    rw [Table.modify_part (p := AccountBook.receivedVestingShares) rfl,
      Table.modify_same (p := AccountBook.receivedVestingShares) rfl, h.received c hc,
      if_congr (eq_comm (a := c) (b := y)) rfl rfl]
  bound     := by
    have hmid := Table.forall_modify (P := fun _ => AccountBook.Fits) (k := x)
      (f := .addDelegated (n - b.lent (x, y))) h.bound
      (fun _ => by unfold AccountBook.Fits AccountBook.addDelegated; dsimp only; omega)
    exact Table.forall_modify (P := fun _ => AccountBook.Fits) (f := .addReceived (n - b.lent (x, y))) hmid
      (hmid y)

/-- Fewer shares are lent. -/
theorem undelegate (h : Delegated b) (hx : x ∈ b.accounts.keys) (hy : y ∈ b.accounts.keys)
    (hn : n ≤ b.lent (x, y)) :
    Delegated { b with
      accounts    := b.accounts.modify y (.addReceived (n - b.lent (x, y)))
      delegations := b.delegations.setTo (x, y) n
      expirations := b.expirations ++ [(x, -(n - b.lent (x, y)))] } where
  known     := h.known_setTo hx hy
  returning := by
    intro e he
    rcases List.mem_append.mp he with he | he
    · exact h.returning e he
    · rw [List.mem_singleton.mp he]
      exact ⟨hx, by dsimp only; omega⟩
  delegated := by
    intro c hc
    rw [lentBy_setTo, returningTo_append]
    dsimp only
    rw [Table.modify_same (p := AccountBook.delegatedVestingShares) rfl, h.delegated c hc]
    have hsingle : returningTo [(x, -(n - b.lent (x, y)))] c = if x = c then -(n - b.lent (x, y)) else 0 :=
      List.sum_singleton
    rw [hsingle]
    by_cases hxc : x = c
    · rw [if_pos hxc, if_pos hxc]
      omega
    · rw [if_neg hxc, if_neg hxc]
      omega
  received  := by
    intro c hc
    rw [lentTo_setTo]
    dsimp only
    rw [Table.modify_part (p := AccountBook.receivedVestingShares) rfl, h.received c hc,
      if_congr (eq_comm (a := c) (b := y)) rfl rfl]
  bound     := Table.forall_modify (P := fun _ => AccountBook.Fits) (f := .addReceived (n - b.lent (x, y)))
    h.bound (h.bound y)

/-- Shares that were lent are back. -/
theorem return_ {l rest : List (AccountName × Int)} {t : Table AccountName AccountBook} (h : Delegated b)
    (hl : b.expirations.Perm (l ++ rest)) (hkeys : t.keys = b.accounts.keys)
    (ht : ∀ c ∈ b.accounts.keys, t.row c = .addDelegated (-returningTo l c) (b.accounts.row c)) :
    Delegated { b with accounts := t, expirations := rest } where
  known     := fun key hkey => hkeys.symm ▸ h.known key hkey
  returning := fun e he => hkeys.symm ▸ h.returning e (hl.symm.subset (List.mem_append_right l he))
  delegated := by
    intro c hc
    dsimp only at hc ⊢
    rw [hkeys] at hc
    have hsum := h.delegated c hc
    rw [returningTo_perm hl, returningTo_append] at hsum
    rw [ht c hc]
    show (b.accounts.row c).delegatedVestingShares + -returningTo l c = b.lentBy c + returningTo rest c
    omega
  received  := by
    intro c hc
    dsimp only at hc ⊢
    rw [hkeys] at hc
    rw [ht c hc]
    exact h.received c hc
  bound     := by
    intro c hc
    dsimp only at hc ⊢
    rw [hkeys] at hc
    have hnn := returningTo_nonneg (fun e he => (h.returning e (hl.symm.subset (List.mem_append_left rest he))).2) c
    have hfits := h.bound c hc
    rw [ht c hc]
    unfold AccountBook.Fits AccountBook.addDelegated at *
    dsimp only
    omega

end Delegated

/-- **A move keeps the delegations in order.** An account that loses its shares at once has promised none. -/
theorem Move.delegated (h : Move K C δ σ b b') (hK : K) (hs : Backed τ b)
    (hfree : ∀ a ∈ Config.keyless, a ∈ b.accounts.keys → (b.accounts.row a).delegatedVestingShares
      + ((b.accounts.row a).toWithdraw - (b.accounts.row a).withdrawn) ≤ 0)
    (hb : Delegated b) : Delegated b' := by
  cases h with
  | funds => exact hb.of_same .refl rfl rfl
  | pay => exact hb.of_same (.modify rfl) rfl rfl
  | @vest _ a _ n _ ha hn ht =>
      refine hb.of_edit (ht.same (fun _ _ => rfl)) rfl rfl rfl rfl ?_
      intro _
      have hn := (hs.buys hn).2.1
      have hfits := hb.bound a ha
      unfold AccountBook.Fits AccountBook.addShares at *
      dsimp only
      omega
  | @gain _ a n _ ha hn ht =>
      refine hb.of_edit (ht.same (fun _ _ => rfl)) rfl rfl rfl rfl ?_
      intro _
      have hfits := hb.bound a ha
      unfold AccountBook.Fits AccountBook.addShares at *
      dsimp only
      omega
  | cash => exact hb.of_same (.modify rfl) rfl rfl
  | @settle _ a w d c rate next _ ha hc hd hw hk ht =>
      refine hb.of_edit (ht.same (fun _ _ => rfl)) rfl rfl rfl rfl ?_
      intro _
      have hfits := hb.bound a ha
      unfold AccountBook.Fits AccountBook.settled at *
      dsimp only
      omega
  | @drain _ a _ hk ha => exact hb.of_edit .refl rfl rfl rfl rfl (hfree a hk)
  | openAccount auth ha => exact hb.insert ha _
  | authorise => exact hb.of_same .refl rfl rfl
  | delegate hx hy hxy hk hn => exact hb.delegate hx hy (hn hK)
  | undelegate hx hy hk hn => exact hb.undelegate hx hy (hn hK)
  | return_ hl hkeys ht => exact hb.return_ hl hkeys ht
  | @plan _ a rate next toWithdraw ha hk hw =>
      refine hb.of_edit .refl rfl rfl rfl rfl ?_
      intro _
      have := hw hK
      unfold AccountBook.Fits AccountBook.planned
      dsimp only
      omega
  | reroute => exact hb.of_same .refl rfl rfl
  | setProxy ha hk hq ht ht' =>
      exact hb.of_same (((ht.same (fun _ _ => rfl)).trans (.modify rfl)).trans (ht'.same (fun _ _ => rfl))) rfl rfl
  | offer => exact hb.of_same (.modify rfl) rfl rfl
  | bid => exact hb.of_same ((Table.Same.modify rfl).trans (.modify rfl)) rfl rfl
  | release => exact hb.of_same ((Table.Same.modify rfl).trans (.modify rfl)) rfl rfl
  | sell => exact hb.of_same (((Table.Same.modify rfl).trans (.modify rfl)).trans (.modify rfl)) rfl rfl
  | unbid => exact hb.of_same (.modify rfl) rfl rfl

end Bank

end VizNode
