import VizNode.Lib.Forest
import VizNode.ForkDatabase.Branches
import VizNode.Chain.Pending

/-!
# `VizNode.Chain.Extension` — where two branches end, and the linear extension

`fetch_branch_from` stops at two blocks that name the same parent. Its callers want to know something else:
whether the branches *fork* there or whether one tip was on the branch of the other all along. They tell the
cases apart by the last two blocks, which are the same block exactly in the second case.

**Why the ends decide.** The first two loops lower one tip to the height of the other. If they meet in one
block the third loop stops at once. If they do not, the parents of two different blocks are compared by id
before they are reached, so the third loop never steps onto a common block: whatever it ends in, the ends
differ.

## Contents
- **Descent.** `Descends`, the blocks below an item; one of each height.
- **The loops.** They end, and they return when the branches meet.
- **The ends.** `fetchBranchFrom_ends`, and the test of the fork switch.
-/

namespace VizNode

namespace ForkDatabase

open Forest (climb)

variable {Tx : Type} {U : SignedBlock Tx → Prop} {f : ForkDatabase Tx}

/-! ## Descent -/

/-- The item a parent pointer leads to. -/
def parent (f : ForkDatabase Tx) (x : ForkItem Tx) : Option (ForkItem Tx) := f.lock x.prev

/-- **`z` is `x` or an ancestor of it**, by the parent pointers. -/
def Descends (f : ForkDatabase Tx) (x z : ForkItem Tx) : Prop := ∃ k, climb f.parent k x = some z

/-- Two items lead down to children of one block. -/
def Meet (f : ForkDatabase Tx) (x y : ForkItem Tx) : Prop :=
  ∃ p q, f.Descends x p ∧ f.Descends y q ∧ p.previousId = q.previousId

/-- The block with this id is `x` or an ancestor of it. -/
def HasAncestor (f : ForkDatabase Tx) (x : ForkItem Tx) (id : BlockId) : Prop := ∃ z, f.Descends x z ∧ z.id = id

theorem Universe.num_pos (hU : Universe U) {b : SignedBlock Tx} (hb : U b) : 0 < b.blockNum := by
  rw [hU.num_eq hb]
  exact Nat.succ_pos _

theorem Linked.parent_num (hU : Universe U) (h : Linked U f) {x p : ForkItem Tx} (hx : x ∈ f.live)
    (hp : f.parent x = some p) : p ∈ f.live ∧ p.num + 1 = x.num :=
  ⟨(lock_mem hp).1, h.lock_num hx hp (Universe.num_pos hU (h.data x hx))⟩

/-- **One step down is one number down.** -/
theorem climb_num (hU : Universe U) (h : Linked U f) {k : Nat} {x z : ForkItem Tx} (hx : x ∈ f.live)
    (hc : climb f.parent k x = some z) : z ∈ f.live ∧ z.num + k = x.num := by
  induction k generalizing x with
  | zero =>
      obtain rfl := Option.some.inj hc
      exact ⟨hx, rfl⟩
  | succ k ih =>
      rw [Forest.climb_succ, Option.bind_eq_some_iff] at hc
      obtain ⟨p, hp, hc⟩ := hc
      obtain ⟨hpl, hpn⟩ := h.parent_num hU hx hp
      obtain ⟨hzl, hzn⟩ := ih hpl hc
      exact ⟨hzl, by omega⟩

/-- **There is one item of each height below an item.** -/
theorem climb_unique (hU : Universe U) (h : Linked U f) {j k : Nat} {x z w : ForkItem Tx} (hx : x ∈ f.live)
    (hz : climb f.parent j x = some z) (hw : climb f.parent k x = some w) (hn : z.num = w.num) : z = w := by
  have hzn := (climb_num hU h hx hz).2
  have hwn := (climb_num hU h hx hw).2
  obtain rfl : j = k := by omega
  rw [hz] at hw
  exact Option.some.inj hw

/-- A trail goes down its tip. -/
theorem Trail.climb {l : List (ForkItem Tx)} {x z : ForkItem Tx} (h : Trail f (l ++ [z]))
    (hh : (l ++ [z]).head? = some x) : climb f.parent l.length x = some z := by
  induction l generalizing x with
  | nil => simpa using hh.symm
  | cons y l ih =>
      obtain rfl : y = x := by simpa using hh
      cases l with
      | nil =>
          have hp : f.parent y = some z := (List.isChain_cons_cons.mp h).1
          simp [Forest.climb_succ, hp]
      | cons w l =>
          have hp : f.parent y = some w := (List.isChain_cons_cons.mp h).1
          rw [List.length_cons, Forest.climb_succ, hp]
          exact ih h.of_cons rfl

/-! ## The loops -/

/-- A sequence does not fail in a way its two parts do not. -/
theorem bind_ne_error {α β : Type} {e : Exn} {r : Except Exn α} {g : α → Except Exn β} (hr : r ≠ .error e)
    (hg : ∀ a, r = .ok a → g a ≠ .error e) : r.bind g ≠ .error e := by
  cases r with
  | error e' => simpa [Except.bind] using hr
  | ok a => exact hg a rfl

theorem map_ne_error {α β : Type} {e : Exn} {r : Except Exn α} {g : α → β} (hr : r ≠ .error e) :
    r.map g ≠ .error e := by
  cases r with
  | error e' => simpa [Except.map] using hr
  | ok a => simp [Except.map]

/-- The lowering loop ends: every round goes down by one. -/
theorem lowerTo_terminates (hU : Universe U) (h : Linked U f) {t n : Nat} {x : ForkItem Tx} (hx : x ∈ f.live)
    (hn : x.num < n) : lowerTo f t n x ≠ .error .outOfFuel := by
  induction n generalizing x with
  | zero => exact absurd hn (Nat.not_lt_zero _)
  | succ n ih =>
      unfold lowerTo
      split
      · split
        · simp
        · next p hp =>
            obtain ⟨hpl, hpn⟩ := h.parent_num hU hx hp
            exact map_ne_error (ih hpl (by omega))
      · simp

theorem lowerBoth_terminates (hU : Universe U) (h : Linked U f) {n : Nat} {x y : ForkItem Tx} (hx : x ∈ f.live)
    (hn : x.num < n) : lowerBoth f n x y ≠ .error .outOfFuel := by
  induction n generalizing x y with
  | zero => exact absurd hn (Nat.not_lt_zero _)
  | succ n ih =>
      unfold lowerBoth
      split
      · simp
      · split
        · next x' y' hx' hy' =>
            obtain ⟨hpl, hpn⟩ := h.parent_num hU hx hx'
            exact map_ne_error (ih hpl (by omega))
        · simp

/-- **`fetch_branch_from` ends**, whatever it is asked for. -/
theorem fetchBranchFrom_terminates (hU : Universe U) (h : Linked U f) (a b : BlockId) :
    f.fetchBranchFrom a b ≠ .error .outOfFuel := by
  cases hx : find f.index a with
  | none => simp [fetchBranchFrom, hx]
  | some x =>
      cases hy : find f.index b with
      | none => simp [fetchBranchFrom, hx, hy]
      | some y =>
          have hxl := mem_live_of_index (find_mem hx).1
          have hyl := mem_live_of_index (find_mem hy).1
          rw [fetchBranchFrom_eq hx hy]
          apply bind_ne_error (lowerTo_terminates hU h hxl (Nat.lt_succ_self _))
          intro r hr
          have hrl := (lowerTo_ok h hxl hr).1
          apply bind_ne_error (lowerTo_terminates hU h hyl (Nat.lt_succ_self _))
          intro s _
          exact map_ne_error (lowerBoth_terminates hU h hrl (Nat.lt_succ_self _))

/-- **The lowering loop returns** when the height it was given can be reached. -/
theorem lowerTo_returns (hU : Universe U) (h : Linked U f) {t k n : Nat} {x z : ForkItem Tx} (hx : x ∈ f.live)
    (hc : climb f.parent k x = some z) (hz : z.num = min t x.num) (hn : k < n) :
    ∃ l, lowerTo f t n x = .ok (z, l) := by
  induction k generalizing x n with
  | zero =>
      obtain rfl := Option.some.inj hc
      obtain ⟨n, rfl⟩ := Nat.exists_eq_succ_of_ne_zero (by omega : n ≠ 0)
      exact ⟨[], lowerTo_self (by omega)⟩
  | succ k ih =>
      obtain ⟨n, rfl⟩ := Nat.exists_eq_succ_of_ne_zero (by omega : n ≠ 0)
      have hzn := (climb_num hU h hx hc).2
      rw [Forest.climb_succ, Option.bind_eq_some_iff] at hc
      obtain ⟨p, hp, hc⟩ := hc
      obtain ⟨hpl, hpn⟩ := h.parent_num hU hx hp
      obtain ⟨l, hl⟩ := ih hpl hc (by omega) (by omega : k < n)
      refine ⟨x :: l, ?_⟩
      unfold lowerTo
      rw [if_pos (by omega : t < x.num)]
      have hlock : f.lock x.prev = some p := hp
      simp [hlock, hl, Except.map]

/-- **The last loop returns** when the two tips lead down to children of one block in equally many steps. -/
theorem lowerBoth_returns {k n : Nat} {x y p q : ForkItem Tx} (hp : climb f.parent k x = some p)
    (hq : climb f.parent k y = some q) (hprev : p.previousId = q.previousId) (hn : k < n) :
    ∃ r, lowerBoth f n x y = .ok r := by
  induction k generalizing x y n with
  | zero =>
      obtain rfl := Option.some.inj hp
      obtain rfl := Option.some.inj hq
      obtain ⟨n, rfl⟩ := Nat.exists_eq_succ_of_ne_zero (by omega : n ≠ 0)
      exact ⟨([x], [y]), by simp [lowerBoth, hprev]⟩
  | succ k ih =>
      obtain ⟨n, rfl⟩ := Nat.exists_eq_succ_of_ne_zero (by omega : n ≠ 0)
      rw [Forest.climb_succ, Option.bind_eq_some_iff] at hp hq
      obtain ⟨x', hx', hp⟩ := hp
      obtain ⟨y', hy', hq⟩ := hq
      obtain ⟨r, hr⟩ := ih hp hq (by omega : k < n)
      have hlx : f.lock x.prev = some x' := hx'
      have hly : f.lock y.prev = some y' := hy'
      unfold lowerBoth
      split
      · exact ⟨_, rfl⟩
      · exact ⟨(x :: r.1, y :: r.2), by simp [hlx, hly, hr, Except.map]⟩

/-- **Two tips that meet have branches.** -/
theorem fetchBranchFrom_returns (hU : Universe U) (h : Linked U f) {a b : BlockId} {x y : ForkItem Tx}
    (hx : find f.index a = some x) (hy : find f.index b = some y) (hm : f.Meet x y) :
    ∃ as bs, f.fetchBranchFrom a b = .ok (as, bs) := by
  obtain ⟨p, q, ⟨j, hj⟩, ⟨k, hk⟩, hprev⟩ := hm
  have hxl := mem_live_of_index (find_mem hx).1
  have hyl := mem_live_of_index (find_mem hy).1
  obtain ⟨hpl, hpn⟩ := climb_num hU h hxl hj
  obtain ⟨hql, hqn⟩ := climb_num hU h hyl hk
  -- children of one block have one height, so what the tips differ by is what the paths differ by
  have hnum : p.num = q.num := by
    have e₁ : p.num = p.previousId.num + 1 := hU.num_eq (h.data p hpl)
    have e₂ : q.num = q.previousId.num + 1 := hU.num_eq (h.data q hql)
    rw [e₁, e₂, hprev]
  obtain ⟨x', hx', hxp⟩ : ∃ x', climb f.parent (j - min j k) x = some x' ∧ climb f.parent (min j k) x' = some p := by
    rw [← Nat.sub_add_cancel (Nat.min_le_left j k), Forest.climb_add, Option.bind_eq_some_iff] at hj
    exact hj
  obtain ⟨y', hy', hyq⟩ : ∃ y', climb f.parent (k - min j k) y = some y' ∧ climb f.parent (min j k) y' = some q := by
    rw [← Nat.sub_add_cancel (Nat.min_le_right j k), Forest.climb_add, Option.bind_eq_some_iff] at hk
    exact hk
  obtain ⟨hxl', hxn'⟩ := climb_num hU h hxl hx'
  obtain ⟨hyl', hyn'⟩ := climb_num hU h hyl hy'
  have hpn' := (climb_num hU h hxl' hxp).2
  obtain ⟨l, hl⟩ := lowerTo_returns hU h (t := y.num) (n := x.num + 1) hxl hx' (by omega) (by omega)
  obtain ⟨m, hm⟩ := lowerTo_returns hU h (t := x'.num) (n := y.num + 1) hyl hy' (by omega) (by omega)
  obtain ⟨r, hr⟩ := lowerBoth_returns (n := x'.num + 1) hxp hyq hprev (by omega)
  refine ⟨l ++ r.1, m ++ r.2, ?_⟩
  rw [fetchBranchFrom_eq hx hy, hl]
  simp [Except.bind, Except.map, hm, hr]

/-! ## The ends -/

/-- **The last loop never steps onto a common block.** -/
theorem lowerBoth_apart (h : Linked U f) {n : Nat} {x y : ForkItem Tx} {as bs : List (ForkItem Tx)}
    (hx : x ∈ f.live) (hy : y ∈ f.live) (hne : x.id ≠ y.id) (hr : lowerBoth f n x y = .ok (as, bs)) :
    ∃ as' bs' p q, as = as' ++ [p] ∧ bs = bs' ++ [q] ∧ p.id ≠ q.id := by
  induction n generalizing x y as bs with
  | zero => exact absurd hr (by simp [lowerBoth])
  | succ n ih =>
      unfold lowerBoth at hr
      split at hr
      · obtain ⟨rfl, rfl⟩ := Prod.mk.inj (Except.ok.inj hr)
        exact ⟨[], [], x, y, rfl, rfl, hne⟩
      · next hprev =>
          split at hr
          · next x' y' hx' hy' =>
              cases hrec : lowerBoth f n x' y' with
              | error e => rw [hrec] at hr; exact absurd hr (by simp [Except.map])
              | ok r =>
                  rw [hrec] at hr
                  obtain ⟨rfl, rfl⟩ := Prod.mk.inj (Except.ok.inj hr)
                  -- the parents were compared before they were reached
                  have hne' : x'.id ≠ y'.id := by
                    rw [h.lock_id hx hx', h.lock_id hy hy']
                    exact hprev
                  obtain ⟨as', bs', p, q, has, hbs, hpq⟩ := ih (lock_mem hx').1 (lock_mem hy').1 hne' hrec
                  exact ⟨x :: as', y :: bs', p, q, by simp [has], by simp [hbs], hpq⟩
          · exact absurd hr (by simp)

/-- A tip that is no higher than the other one is lowered to itself. -/
theorem lowerTo_low {t n : Nat} {x x' : ForkItem Tx} {l : List (ForkItem Tx)} (hle : x.num ≤ t)
    (hr : lowerTo f t n x = .ok (x', l)) : x' = x ∧ l = [] := by
  cases n with
  | zero => exact absurd hr (by simp [lowerTo])
  | succ n =>
      rw [lowerTo_self hle] at hr
      obtain ⟨rfl, rfl⟩ := Prod.mk.inj (Except.ok.inj hr)
      exact ⟨rfl, rfl⟩

/-- **The two blocks the last loop starts from** decide what the branches end in: one of them is a tip, the
    other the block of its height below the other tip, and the ends are one block exactly when these are. -/
theorem fetchBranchFrom_levels (hU : Universe U) (h : Linked U f) {a b : BlockId} {x y : ForkItem Tx}
    {as bs : List (ForkItem Tx)} (hx : find f.index a = some x) (hy : find f.index b = some y)
    (hr : f.fetchBranchFrom a b = .ok (as, bs)) :
    ∃ x' y', f.Descends x x' ∧ f.Descends y y' ∧ x'.num = min x.num y.num ∧ y'.num = min x.num y.num ∧
      (as.getLast?.map (·.id) = bs.getLast?.map (·.id) ↔ x'.id = y'.id) ∧
      (x'.id = y'.id → y.num ≤ x.num → bs = [y]) := by
  obtain ⟨r, s, ⟨t₁, t₂⟩, h₁, h₂, h₃, heq⟩ := fetchBranchFrom_stages hx hy hr
  obtain ⟨rfl, rfl⟩ := Prod.mk.inj heq
  have hxl := mem_live_of_index (find_mem hx).1
  have hyl := mem_live_of_index (find_mem hy).1
  obtain ⟨hrl, htr, hhr, hlr, hmr⟩ := lowerTo_ok h hxl h₁
  obtain ⟨hsl, hts, hhs, hls, hms⟩ := lowerTo_ok h hyl h₂
  have hdx : f.Descends x r.1 := ⟨_, htr.climb hhr⟩
  have hdy : f.Descends y s.1 := ⟨_, hts.climb hhs⟩
  -- over one block the last loop stops at once
  have hstop : r.1.id = s.1.id → t₁ = [r.1] ∧ t₂ = [s.1] := by
    intro hid
    have hdata : r.1.data = s.1.data := hU.inj _ _ (h.data _ hrl) (h.data _ hsl) hid
    have hprev : r.1.previousId = s.1.previousId := congrArg SignedBlock.previous hdata
    unfold lowerBoth at h₃
    rw [if_pos hprev] at h₃
    obtain ⟨e₁, e₂⟩ := Prod.mk.inj (Except.ok.inj h₃)
    exact ⟨e₁.symm, e₂.symm⟩
  refine ⟨r.1, s.1, hdx, hdy, by omega, by omega, ?_, ?_⟩
  · constructor
    · intro hends
      by_contra hne
      obtain ⟨as', bs', p, q, rfl, rfl, hpq⟩ := lowerBoth_apart h hrl hsl hne h₃
      refine hpq ?_
      simpa [List.getLast?_append] using hends
    · intro hid
      obtain ⟨rfl, rfl⟩ := hstop hid
      simpa [List.getLast?_append] using hid
  · intro hid hle
    obtain ⟨e₁, e₂⟩ := lowerTo_low (by omega : y.num ≤ r.1.num) h₂
    rw [(hstop hid).2, e₁, e₂]
    rfl

/-- The block at the height of an ancestor is that ancestor. -/
theorem HasAncestor.level (hU : Universe U) (h : Linked U f) {x x' : ForkItem Tx} {id : BlockId} (hx : x ∈ f.live)
    (hd : f.Descends x x') (hn : x'.num = id.num) (ha : f.HasAncestor x id) : x'.id = id := by
  obtain ⟨j, hj⟩ := hd
  obtain ⟨z, ⟨k, hk⟩, rfl⟩ := ha
  rw [climb_unique hU h hx hj hk hn]

/-- **Where the branches end**: in one block exactly when one of the tips is on the branch of the other. -/
theorem fetchBranchFrom_ends (hU : Universe U) (h : Linked U f) {a b : BlockId} {x y : ForkItem Tx}
    {as bs : List (ForkItem Tx)} (hx : find f.index a = some x) (hy : find f.index b = some y)
    (hr : f.fetchBranchFrom a b = .ok (as, bs)) :
    as.getLast?.map (·.id) = bs.getLast?.map (·.id) ↔ f.HasAncestor x b ∨ f.HasAncestor y a := by
  obtain ⟨x', y', ⟨j, hj⟩, ⟨k, hk⟩, hxn, hyn, hends, -⟩ := fetchBranchFrom_levels hU h hx hy hr
  obtain ⟨hxm, rfl⟩ := find_mem hx
  obtain ⟨hym, rfl⟩ := find_mem hy
  have hxl := mem_live_of_index hxm
  have hyl := mem_live_of_index hym
  have hxid : x.id.num = x.num := rfl
  have hyid : y.id.num = y.num := rfl
  rw [hends]
  constructor
  · intro hid
    rcases Nat.le_total y.num x.num with hle | hle
    · -- the second tip was not lowered
      obtain rfl : y' = y := climb_unique hU h hyl hk (k := 0) rfl (by omega)
      exact .inl ⟨x', ⟨j, hj⟩, hid⟩
    · obtain rfl : x' = x := climb_unique hU h hxl hj (k := 0) rfl (by omega)
      exact .inr ⟨y', ⟨k, hk⟩, hid.symm⟩
  · rintro (ha | ha)
    · obtain ⟨z, ⟨i, hi⟩, hz⟩ := id ha
      have hzn := (climb_num hU h hxl hi).2
      have hzy : z.num = y.num := congrArg BlockId.num hz
      obtain rfl : y' = y := climb_unique hU h hyl hk (k := 0) rfl (by omega)
      exact ha.level hU h hxl ⟨j, hj⟩ (by omega)
    · obtain ⟨z, ⟨i, hi⟩, hz⟩ := id ha
      have hzn := (climb_num hU h hyl hi).2
      have hzx : z.num = x.num := congrArg BlockId.num hz
      obtain rfl : x' = x := climb_unique hU h hxl hj (k := 0) rfl (by omega)
      exact (ha.level hU h hyl ⟨k, hk⟩ (by omega)).symm

/-- Each block of a trail names the next one as its parent. -/
theorem Trail.named (h : Linked U f) {l : List (ForkItem Tx)} (ht : Trail f l) (hl : ∀ z ∈ l, z ∈ f.live) :
    l.IsChain (fun c p => c.previousId = p.id) := by
  induction l with
  | nil => exact .nil
  | cons c l ih =>
      cases l with
      | nil => exact .singleton _
      | cons p l =>
          obtain ⟨hp, ht⟩ := List.isChain_cons_cons.mp ht
          refine List.isChain_cons_cons.mpr ⟨(h.lock_id (hl c (by simp)) hp).symm, ih ht ?_⟩
          intro z hz
          exact hl z (List.mem_cons_of_mem _ hz)

end ForkDatabase

/-! ## The test of the fork switch -/

namespace Database

open ForkDatabase (Linked find find_mem mem_live_of_index fetchBranchFrom_ends fetchBranchFrom_levels
  fetchBranchFrom_ok fetchBranchFrom_known)

variable {Tx L : Type} {U : SignedBlock Tx → Prop} {db : Database Tx L}

theorem isLinearExtension_iff {first second : List (ForkItem Tx)} : db.isLinearExtension first second = true ↔
    ∃ y, second = [y] ∧ y.id = db.headBlockId ∧ first.getLast?.map (·.id) = some y.id := by
  unfold isLinearExtension
  split
  · next y => simp
  · next hne =>
      constructor
      · intro h
        exact absurd h (by simp)
      · rintro ⟨y, rfl, -⟩
        exact absurd rfl (hne y)

/-- **The test is true exactly when nothing has to be popped**: the applied head is on the branch of the new
    one. -/
theorem isLinearExtension_ancestor (hU : Universe U) (h : Linked U db.forkDb) {newHead : BlockId} {x : ForkItem Tx}
    {first second : List (ForkItem Tx)} (hx : find db.forkDb.index newHead = some x)
    (hr : db.forkDb.fetchBranchFrom newHead db.headBlockId = .ok (first, second)) :
    db.isLinearExtension first second = true ↔ db.forkDb.HasAncestor x db.headBlockId := by
  obtain ⟨-, y, -, hy⟩ := fetchBranchFrom_known hr
  have hxl := mem_live_of_index (find_mem hx).1
  have hyid : y.id = db.headBlockId := (find_mem hy).2
  obtain ⟨x', y', ⟨j, hj⟩, hdy, hxn, hyn, hends, hsingle⟩ := fetchBranchFrom_levels hU h hx hy hr
  rw [isLinearExtension_iff]
  constructor
  · rintro ⟨z, rfl, hz, hlast⟩
    have hforked := fetchBranchFrom_ok h hr
    have hid : x'.id = y'.id := hends.mp (by simpa using hlast)
    -- the branch of the head is the head alone, so the new head is not below it
    have hle : y.num ≤ x.num := by
      have hz : z.num = y.num := congrArg BlockId.num (hz.trans hyid.symm)
      have hlen := hforked.lenA
      have hpos := List.length_pos_of_ne_nil hforked.neA
      have hlast : (first.getLast hforked.neA).num = z.num := by
        have e₁ := hU.num_eq (h.data _ (hforked.liveA _ (List.getLast_mem hforked.neA)))
        have e₂ := hU.num_eq (h.data _ (hforked.liveB z (by simp)))
        have hfork := congrArg BlockId.num hforked.fork
        exact e₁.trans ((congrArg (· + 1) hfork).trans e₂.symm)
      have hnew : newHead.num = x.num := (congrArg BlockId.num (find_mem hx).2).symm
      omega
    obtain ⟨k, hk⟩ := hdy
    obtain rfl : y' = y := ForkDatabase.climb_unique hU h (mem_live_of_index (find_mem hy).1) hk (k := 0) rfl
      (by omega)
    exact ⟨x', ⟨j, hj⟩, hid.trans hyid⟩
  · intro ha
    obtain ⟨z, ⟨i, hi⟩, hz⟩ := id ha
    have hzn := (ForkDatabase.climb_num hU h hxl hi).2
    have hzy : z.num = y.num := congrArg BlockId.num (hz.trans hyid.symm)
    have hnum : y.num = db.headBlockId.num := congrArg BlockId.num hyid
    obtain ⟨k, hk⟩ := hdy
    obtain rfl : y' = y := ForkDatabase.climb_unique hU h (mem_live_of_index (find_mem hy).1) hk (k := 0) rfl
      (by omega)
    have hx' : x'.id = db.headBlockId := ha.level hU h hxl ⟨j, hj⟩ (by omega)
    have hid : x'.id = y'.id := hx'.trans hyid.symm
    obtain rfl := hsingle hid (by omega)
    exact ⟨y', rfl, hyid, by simpa using hends.mpr hid⟩

/-- **`fetch_branch_from` is correct.** It ends; over two tips that meet it returns the paths down to two
    blocks with one parent, each named by the block above it; these are one block exactly when a tip is on
    the branch of the other; and the fork switch takes a branch for a linear extension exactly when the
    applied head is on it. -/
theorem fetchBranchFrom_correct (hU : Universe U) (h : Linked U db.forkDb) :
    (∀ a b, db.forkDb.fetchBranchFrom a b ≠ .error .outOfFuel) ∧
    (∀ a b x y, find db.forkDb.index a = some x → find db.forkDb.index b = some y → db.forkDb.Meet x y →
      ∃ as bs p q, db.forkDb.fetchBranchFrom a b = .ok (as, bs) ∧ as.head? = some x ∧ bs.head? = some y ∧
        as.IsChain (fun c d => c.previousId = d.id) ∧ bs.IsChain (fun c d => c.previousId = d.id) ∧
        as.getLast? = some p ∧ bs.getLast? = some q ∧ p.previousId = q.previousId ∧
        (p.id = q.id ↔ db.forkDb.HasAncestor x b ∨ db.forkDb.HasAncestor y a)) ∧
    (∀ newHead x first second, find db.forkDb.index newHead = some x →
      db.forkDb.fetchBranchFrom newHead db.headBlockId = .ok (first, second) →
      (db.isLinearExtension first second = true ↔ db.forkDb.HasAncestor x db.headBlockId)) := by
  refine ⟨ForkDatabase.fetchBranchFrom_terminates hU h, ?_, ?_⟩
  · intro a b x y hx hy hm
    obtain ⟨as, bs, hr⟩ := ForkDatabase.fetchBranchFrom_returns hU h hx hy hm
    have hforked := fetchBranchFrom_ok h hr
    have hlastA := List.getLast?_eq_some_getLast hforked.neA
    have hlastB := List.getLast?_eq_some_getLast hforked.neB
    have hends := fetchBranchFrom_ends hU h hx hy hr
    refine ⟨as, bs, _, _, hr, ?_, ?_, ?_, ?_, hlastA, hlastB, hforked.fork, ?_⟩
    · rw [hforked.tipA, hx]
    · rw [hforked.tipB, hy]
    · exact hforked.trailA.named h hforked.liveA
    · exact hforked.trailB.named h hforked.liveB
    · rw [hlastA, hlastB] at hends
      simpa using hends
  · intro newHead x first second hx hr
    exact isLinearExtension_ancestor hU h hx hr

open Sample in
/-- Of two competing blocks the applied one is not on the branch of the other. -/
theorem fetchBranchFrom_correct_sample :
    let db := push four [block block1.id 6 3 2, block block1.id 9 4 3]
    (∀ a b, db.forkDb.fetchBranchFrom a b ≠ .error .outOfFuel) ∧ db.headBlockId = ⟨2, 2⟩ ∧
      ∃ x, find db.forkDb.index ⟨2, 3⟩ = some x ∧ ¬ db.forkDb.HasAncestor x db.headBlockId := by
  intro db
  have hU : Universe (· ∈ [block1, block block1.id 6 3 2, block block1.id 9 4 3]) :=
    .of_list (by decide +kernel) (by decide +kernel)
  have hs : Stored (· ∈ [block1, block block1.id 6 3 2, block block1.id 9 4 3]) db :=
    push_stored (node_stored (by simp) _ _) (by simp)
  have hall := fetchBranchFrom_correct hU hs.sound.linked
  have hfork : (db.forkDb.fetchBranchFrom ⟨2, 3⟩ db.headBlockId).toOption.map
      (fun r => db.isLinearExtension r.1 r.2) = some false := by decide +kernel
  refine ⟨hall.1, by decide +kernel, ?_⟩
  obtain ⟨x, hx⟩ := Option.isSome_iff_exists.mp (by decide +kernel : (find db.forkDb.index ⟨2, 3⟩).isSome = true)
  refine ⟨x, hx, ?_⟩
  intro ha
  cases hr : db.forkDb.fetchBranchFrom ⟨2, 3⟩ db.headBlockId with
  | error e => rw [hr] at hfork; exact absurd hfork (by simp [Except.toOption])
  | ok r =>
      have hlin := (hall.2.2 ⟨2, 3⟩ x r.1 r.2 hx hr).mpr ha
      rw [hr] at hfork
      simp [Except.toOption, hlin] at hfork

end Database

end VizNode
