import VizNode.Bank.Moves

/-!
# `VizNode.Bank.Proxies` — what is proxied to an account

An account's array holds, by distance, the shares of the accounts whose proxy chain reaches it. It is kept by
changes alone: a change of shares runs up the chain, and an account that changes its proxy takes its own array
off the old chain and puts it on the new one. The forest of `VizNode.Lib.Forest` says what these changes add up
to; here it is the forest of the proxies, and the weights are the shares.

The array ends after `CHAIN_MAX_PROXY_RECURSION_DEPTH` entries. That truncates what is counted, not what is
carried: an entry within the depth only ever needs entries within the depth.
-/

namespace VizNode

namespace Bank

open Forest

variable {K C : Prop} {δ σ : Int} {b b' : Bank} {t t' : Table AccountName AccountBook} {a : AccountName}

/-- The shares of an account. -/
def sharesIn (t : Table AccountName AccountBook) (c : AccountName) : Int := (t.row c).vestingShares

/-- **Proxies in order**: no chain returns, proxies exist, and every array counts what it says. -/
structure Proxied (t : Table AccountName AccountBook) : Prop where
  acyclic : Acyclic (proxyOf t)
  known   : ∀ a ∈ t.keys, (t.row a).proxy ≠ 0 → (t.row a).proxy ∈ t.keys
  counts  : ∀ a ∈ t.keys, ∀ d < Config.maxProxyRecursionDepth,
    (t.row a).proxiedVsfVotes d = weight (proxyOf t) (sharesIn t) t.keys (d + 1) a

/-- The proxies do not change. -/
theorem proxyOf_same (h : Table.Same AccountBook.proxy t t') : proxyOf t' = proxyOf t := by
  funext c
  unfold proxyOf
  rw [h.keys]
  by_cases hc : c ∈ t.keys
  · rw [h.row c hc]
  · rw [if_neg (fun hp => hc hp.1), if_neg (fun hp => hc hp.1)]

theorem proxyOf_eq_none (h : (t.row a).proxy = 0) : proxyOf t a = none := if_neg (fun hp => hp.2 h)

/-- The proxies change for one account at most. -/
theorem proxyOf_modify_of_ne {f : AccountBook → AccountBook} {c : AccountName} (hc : c ≠ a) :
    proxyOf (t.modify a f) c = proxyOf t c := by
  unfold proxyOf
  rw [Table.modify_keys, Table.modify_row_of_ne hc]

namespace Proxied

/-- A chain stays among the accounts. -/
theorem climb_known (h : Proxied t) {k : Nat} {c x : AccountName} (hx : climb (proxyOf t) (k + 1) c = some x) :
    x ∈ t.keys := by
  induction k generalizing c with
  | zero =>
      rw [climb_succ] at hx
      obtain ⟨p, hp, hx⟩ := Option.bind_eq_some_iff.mp hx
      obtain rfl := Option.some.inj hx
      unfold proxyOf at hp
      by_cases hc : c ∈ t.keys ∧ (t.row c).proxy ≠ 0
      · rw [if_pos hc] at hp
        exact Option.some.inj hp ▸ h.known c hc.1 hc.2
      · rw [if_neg hc] at hp
        exact absurd hp (by simp)
  | succ k ih =>
      rw [climb_succ] at hx
      obtain ⟨p, -, hx⟩ := Option.bind_eq_some_iff.mp hx
      exact ih hx

/-- What the account counts for is what the tree below it weighs. -/
theorem counts_eq (h : Proxied t) (ha : a ∈ t.keys) {j : Nat} (hj : j ≤ Config.maxProxyRecursionDepth) :
    (t.row a).counts j = weight (proxyOf t) (sharesIn t) t.keys j a := by
  cases j with
  | zero   => exact (weight_zero (v := sharesIn t) t.nodup ha).symm
  | succ j => exact h.counts a ha j hj

/-- Neither proxies, shares nor arrays change. -/
theorem of_same (h : Proxied t)
    (hs : Table.Same (fun r => (r.proxy, r.vestingShares, r.proxiedVsfVotes)) t t') : Proxied t' := by
  have hproxy : Table.Same AccountBook.proxy t t' := ⟨hs.keys, fun c hc => congrArg (fun p => p.1) (hs.row c hc)⟩
  have hvesting : ∀ c ∈ t.keys, sharesIn t' c = sharesIn t c :=
    fun c hc => congrArg (fun p => p.2.1) (hs.row c hc)
  have hcounts : ∀ c ∈ t.keys, (t'.row c).proxiedVsfVotes = (t.row c).proxiedVsfVotes :=
    fun c hc => congrArg (fun p => p.2.2) (hs.row c hc)
  refine ⟨?_, ?_, ?_⟩
  · rw [proxyOf_same hproxy]
    exact h.acyclic
  · intro c hc
    rw [hs.keys] at hc ⊢
    rw [hproxy.row c hc]
    exact h.known c hc
  · intro c hc d hd
    rw [hs.keys] at hc ⊢
    rw [hcounts c hc, h.counts c hc d hd, proxyOf_same hproxy]
    exact (weight_congr (fun _ _ => rfl) hvesting).symm

/-- **The shares of one account change**, and the change runs up its chain. -/
theorem spread {f : AccountBook → AccountBook} {n : Int} (h : Proxied t) (ha : a ∈ t.keys)
    (hn : (f (t.row a)).vestingShares = (t.row a).vestingShares + n)
    (hp : (f (t.row a)).proxy = (t.row a).proxy)
    (hf : (f (t.row a)).proxiedVsfVotes = (t.row a).proxiedVsfVotes)
    (hs : Spread a (single n) (t.modify a f) t') : Proxied t' := by
  have hmod : Table.Same AccountBook.proxy t (t.modify a f) := .modify hp
  have hproxy : Table.Same AccountBook.proxy t t' := hmod.trans (hs.same (fun _ _ => rfl))
  have hup : proxyOf (t.modify a f) = proxyOf t := proxyOf_same hmod
  have hkeys : t'.keys = t.keys := hs.keys
  have hvesting : ∀ c ∈ t.keys, sharesIn t' c = ((t.modify a f).row c).vestingShares := by
    intro c hc
    unfold sharesIn
    rw [hs.row c hc]
    rfl
  refine ⟨proxyOf_same hproxy ▸ h.acyclic, ?_, ?_⟩
  · intro c hc
    rw [hkeys] at hc ⊢
    rw [hproxy.row c hc]
    exact h.known c hc
  · intro c hc d hd
    rw [hkeys] at hc ⊢
    rw [hs.row c hc]
    dsimp only [AccountBook.countMore]
    rw [if_pos hd, Table.modify_same (p := AccountBook.proxiedVsfVotes) hf,
      h.counts c hc d hd, hup, proxyOf_same hproxy,
      lifted_single (δ := single n) (Nat.zero_le d) (fun j _ hj => if_neg hj) (if_pos rfl), Nat.sub_zero,
      weight_congr (w := sharesIn t') (v := fun c => ((t.modify a f).row c).vestingShares)
        (fun _ _ => rfl) hvesting]
    refine (weight_update t.nodup ha ?_ ?_).symm
    · rw [Table.modify_row_self]
      exact hn
    · intro x hx
      rw [Table.modify_row_of_ne hx]
      rfl

/-- The shares of an account without a proxy count nowhere else. -/
theorem root {f : AccountBook → AccountBook} (h : Proxied t) (ha : a ∈ t.keys) (h₀ : (t.row a).proxy = 0)
    (hp : (f (t.row a)).proxy = (t.row a).proxy)
    (hf : (f (t.row a)).proxiedVsfVotes = (t.row a).proxiedVsfVotes) : Proxied (t.modify a f) := by
  have hroot : proxyOf (t.modify a f) a = none := by
    rw [proxyOf_same (.modify hp)]
    exact proxyOf_eq_none h₀
  refine h.spread (n := (f (t.row a)).vestingShares - (t.row a).vestingShares) ha (by omega) hp hf ⟨rfl, ?_⟩
  intro c hc
  rw [AccountBook.countMore_zero (fun d _ => lifted_root hroot)]

/-- A new account is nobody's proxy and has none. -/
theorem insert (h : Proxied t) (ha : a ∉ t.keys) : Proxied (t.insert a {}) := by
  have hup : proxyOf (t.insert a {}) = proxyOf t := by
    funext c
    by_cases hca : c = a
    · rw [hca, proxyOf_eq_none (congrArg AccountBook.proxy (Table.insert_row_self ha))]
      exact (if_neg (fun hp => ha hp.1)).symm
    · simp only [proxyOf, Table.mem_insert_keys ha, Table.insert_row ha, hca, if_false, or_false]
  refine ⟨hup ▸ h.acyclic, ?_, ?_⟩
  · refine Table.forall_insert
      (P := fun _ (r : AccountBook) => r.proxy ≠ 0 → r.proxy ∈ (t.insert a {}).keys) ?_
      (fun hne => absurd rfl hne)
    intro c hc hne
    exact (Table.mem_insert_keys ha).mpr (.inl (h.known c hc hne))
  · intro c hc d hd
    have hzero : sharesIn (t.insert a {}) a = 0 := by
      unfold sharesIn
      rw [Table.insert_row_self ha]
    rw [hup, Table.insert_keys ha, weight_append, hzero, ite_self, add_zero,
      weight_congr (v := sharesIn t) (fun _ _ => rfl)
        (fun x hx => by unfold sharesIn; rw [Table.insert_row_of_mem ha hx])]
    rcases (Table.mem_insert_keys ha).mp hc with hc | rfl
    · rw [Table.insert_row_of_mem ha hc]
      exact h.counts c hc d hd
    · rw [Table.insert_row_self ha, weight_eq_zero (fun x _ hx => ha (h.climb_known hx))]

/-- **An account changes its proxy.** -/
theorem setProxy {q : AccountName} {t₁ : Table AccountName AccountBook} (h : Proxied t) (ha : a ∈ t.keys)
    (hq : q ≠ 0 → q ∈ t.keys ∧ ∀ k, climb (proxyOf t) k q ≠ some a)
    (ht : Spread a (fun i => -(t.row a).counts i) t t₁)
    (ht' : Spread a (t.row a).counts (t₁.modify a (.withProxy q)) t') : Proxied t' := by
  have hkeys : t'.keys = t.keys := ht'.keys.trans ht.keys
  have hup₁ : proxyOf t₁ = proxyOf t := proxyOf_same (ht.same (fun _ _ => rfl))
  have hup₂ : proxyOf t' = proxyOf (t₁.modify a (.withProxy q)) := proxyOf_same (ht'.same (fun _ _ => rfl))
  have hne : ∀ c, c ≠ a → proxyOf t' c = proxyOf t c := by
    intro c hc
    rw [hup₂, proxyOf_modify_of_ne hc, hup₁]
  -- the new proxy, read off the row
  have hself : (t'.row a).proxy = q := by
    have := ht'.row a (ht.keys ▸ ha)
    rw [this, Table.modify_row_self]
    rfl
  refine ⟨?_, ?_, ?_⟩
  · refine h.acyclic.redirect hne ?_
    intro p hp
    unfold proxyOf at hp
    rw [hself] at hp
    by_cases hc : a ∈ t'.keys ∧ q ≠ 0
    · rw [if_pos hc] at hp
      exact Option.some.inj hp ▸ (hq hc.2).2
    · rw [if_neg hc] at hp
      exact absurd hp (by simp)
  · intro c hc hpc
    rw [hkeys] at hc ⊢
    by_cases hca : c = a
    · rw [hca, hself] at hpc ⊢
      exact (hq hpc).1
    · have hrow : (t'.row c).proxy = (t.row c).proxy := by
        rw [ht'.row c (ht.keys ▸ hc), Table.modify_row_of_ne hca, ht.row c hc]
        rfl
      rw [hrow] at hpc ⊢
      exact h.known c hc hpc
  · intro c hc d hd
    rw [hkeys] at hc ⊢
    have hshares : ∀ x ∈ t.keys, sharesIn t' x = sharesIn t x := by
      intro x hx
      have h₂ := (ht'.same (g := AccountBook.vestingShares) (fun _ _ => rfl)).row x (ht.keys ▸ hx)
      have h₁ := (ht.same (g := AccountBook.vestingShares) (fun _ _ => rfl)).row x hx
      unfold sharesIn
      rw [h₂, Table.modify_same (p := AccountBook.vestingShares) rfl, h₁]
    have hcounts : ∀ up, lifted up (t.row a).counts a c d =
        lifted up (fun j => weight (proxyOf t) (sharesIn t) t.keys j a) a c d := by
      intro up
      apply lifted_congr
      intro j hj
      exact h.counts_eq ha (hj.trans hd.le)
    rw [weight_congr (v := sharesIn t) (fun _ _ => rfl) hshares, weight_redirect h.acyclic hne,
      ← hcounts, ← hcounts, ← h.counts c hc d hd, ht'.row c (ht.keys ▸ hc)]
    dsimp only [AccountBook.countMore]
    rw [if_pos hd, Table.modify_same (p := AccountBook.proxiedVsfVotes) rfl, ht.row c hc]
    dsimp only [AccountBook.countMore]
    rw [if_pos hd, lifted_neg, hup₂]
    omega

end Proxied

/-- **A move keeps the proxies in order.** An account that loses its shares without a word to its proxy has
    none. -/
theorem Move.proxied (h : Move K C δ σ b b')
    (hroot : ∀ a ∈ Config.keyless, a ∈ b.accounts.keys → (b.accounts.row a).proxy = 0)
    (hb : Proxied b.accounts) : Proxied b'.accounts := by
  cases h with
  | funds => exact hb
  | pay => exact hb.of_same (.modify rfl)
  | vest ha hn ht => exact hb.spread ha rfl rfl rfl ht
  | gain ha hn ht => exact hb.spread ha rfl rfl rfl ht
  | cash => exact hb.of_same (.modify rfl)
  | settle ha hc hd hw hk ht => exact hb.spread ha rfl rfl rfl ht
  | drain hk ha => exact hb.root ha (hroot _ hk ha) rfl rfl
  | openAccount auth ha => exact hb.insert ha
  | authorise => exact hb
  | delegate => exact hb.of_same ((Table.Same.modify rfl).trans (.modify rfl))
  | undelegate => exact hb.of_same (.modify rfl)
  | return_ hl hkeys ht => exact hb.of_same ⟨hkeys, fun c hc => by rw [ht c hc]; rfl⟩
  | plan => exact hb.of_same (.modify rfl)
  | reroute => exact hb
  | setProxy ha hk hq ht ht' => exact hb.setProxy ha hq ht ht'
  | offer => exact hb.of_same (.modify rfl)
  | bid => exact hb.of_same ((Table.Same.modify rfl).trans (.modify rfl))
  | release => exact hb.of_same ((Table.Same.modify rfl).trans (.modify rfl))
  | sell => exact hb.of_same (((Table.Same.modify rfl).trans (.modify rfl)).trans (.modify rfl))
  | unbid => exact hb.of_same (.modify rfl)

end Bank

end VizNode
