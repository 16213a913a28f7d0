import VizNode.ForkDatabase.Model

/-!
# `VizNode.ForkDatabase.Links` — the parent pointers lead to the parents

**The invariant.** `Linked U f`: every owned item carries a block of the universe `U`, identities are not
reused, two copies of an item carry the same block, and *a parent pointer that can still be followed leads
to the block its child names*. Everything the fork database does keeps it: most operations only forget
items or move the head to an owned one (`Linked.mono`), and the others insert one item (`Linked.attach`) or
set a dead pointer again (`Linked.repair`).

## Contents
- **Owned items.** Membership in `live`; what `lock` and `find` return is owned.
- **`Linked`** and its preservation by every operation.
- **Heights.** A followed pointer goes down by one.
-/

namespace VizNode

namespace ForkDatabase

variable {Tx : Type} {U : SignedBlock Tx → Prop} {f f' : ForkDatabase Tx}

/-! ## Owned items -/

theorem mem_live {x : ForkItem Tx} :
    x ∈ f.live ↔ x ∈ f.index ∨ x ∈ f.unlinkedIndex ∨ f.head = some x ∨ x ∈ f.held := by
  simp [live]

theorem mem_live_of_index {x : ForkItem Tx} (h : x ∈ f.index) : x ∈ f.live := mem_live.mpr (.inl h)

theorem mem_live_of_head {x : ForkItem Tx} (h : f.head = some x) : x ∈ f.live :=
  mem_live.mpr (.inr (.inr (.inl h)))

theorem lock_mem {p : Option Nat} {x : ForkItem Tx} (h : f.lock p = some x) :
    x ∈ f.live ∧ p = some x.ptr := by
  unfold lock at h
  split at h
  · exact absurd h (by simp)
  · next q =>
      refine ⟨List.mem_of_find?_eq_some h, ?_⟩
      have := List.find?_some h
      simp only [decide_eq_true_eq] at this
      rw [this]

theorem find_mem {l : List (ForkItem Tx)} {id : BlockId} {x : ForkItem Tx} (h : find l id = some x) :
    x ∈ l ∧ x.id = id := by
  refine ⟨List.mem_of_find?_eq_some h, ?_⟩
  simpa using List.find?_some h

theorem find_isSome {l : List (ForkItem Tx)} {id : BlockId} :
    (find l id).isSome = true ↔ ∃ x ∈ l, x.id = id := by
  simp [find, List.find?_isSome]

theorem mem_insertUnique {l : List (ForkItem Tx)} {x y : ForkItem Tx} (h : y ∈ insertUnique l x) :
    y ∈ l ∨ y = x := by
  unfold insertUnique at h
  split at h
  · exact .inl h
  · simpa using h

theorem mem_insertUnique_of_mem {l : List (ForkItem Tx)} {x y : ForkItem Tx} (h : y ∈ l) :
    y ∈ insertUnique l x := by
  unfold insertUnique
  split
  · exact h
  · exact List.mem_append_left _ h

theorem mem_insertUnique_self {l : List (ForkItem Tx)} {x : ForkItem Tx} (h : find l x.id = none) :
    x ∈ insertUnique l x := by
  simp [insertUnique, h]

/-! ## The invariant -/

/-- **The parent pointers lead to the parents.** -/
structure Linked (U : SignedBlock Tx → Prop) (f : ForkDatabase Tx) : Prop where
  data   : ∀ x ∈ f.live, U x.data
  fresh  : ∀ x ∈ f.live, x.ptr < f.nextPtr
  shared : ∀ x ∈ f.live, ∀ y ∈ f.live, x.ptr = y.ptr → x.data = y.data
  prev   : ∀ x ∈ f.live, ∀ q, x.prev = some q → q < f.nextPtr
  link   : ∀ x ∈ f.live, ∀ y ∈ f.live, x.prev = some y.ptr → y.id = x.previousId

/-- **Forgetting keeps the invariant**, and so does moving the head to an owned item. -/
theorem Linked.mono (h : Linked U f) (hsub : ∀ x ∈ f'.live, x ∈ f.live) (hptr : f.nextPtr ≤ f'.nextPtr) :
    Linked U f' where
  data x hx := h.data x (hsub x hx)
  fresh x hx := Nat.lt_of_lt_of_le (h.fresh x (hsub x hx)) hptr
  shared x hx y hy := h.shared x (hsub x hx) y (hsub y hy)
  prev x hx q hq := Nat.lt_of_lt_of_le (h.prev x (hsub x hx) q hq) hptr
  link x hx y hy := h.link x (hsub x hx) y (hsub y hy)

/-- No block names itself as its parent: the numbers differ. -/
theorem id_ne_previousId (x : ForkItem Tx) : x.id ≠ x.previousId := by
  intro h
  have hn : (x.data.previous.num + 1) % 2 ^ 32 = x.data.previous.num := congrArg BlockId.num h
  omega

/-- A parent pointer for `x`: if it can be followed, it leads to the block `x` names. -/
def GoodPrev (f : ForkDatabase Tx) (x : ForkItem Tx) (p : Option Nat) : Prop :=
  ∀ q, p = some q → q < f.nextPtr ∧ q ≠ x.ptr ∧ ∀ y ∈ f.live, y.ptr = q → y.id = x.previousId

/-- An item that may be inserted: what is said of it agrees with the items that are owned already. -/
structure Attachable (U : SignedBlock Tx → Prop) (f : ForkDatabase Tx) (x : ForkItem Tx) : Prop where
  data   : U x.data
  fresh  : x.ptr < f.nextPtr
  shared : ∀ y ∈ f.live, y.ptr = x.ptr → y.data = x.data
  link   : ∀ y ∈ f.live, y.prev = some x.ptr → x.id = y.previousId
  prev   : GoodPrev f x x.prev

theorem Linked.attachable (h : Linked U f) {x : ForkItem Tx} (hx : x ∈ f.live) : Attachable U f x where
  data := h.data x hx
  fresh := h.fresh x hx
  shared y hy he := h.shared y hy x hx he
  link y hy he := h.link y hy x hx he
  prev q hq := by
    refine ⟨h.prev x hx q hq, ?_, ?_⟩
    · rintro rfl
      exact id_ne_previousId x (h.link x hx x hx hq)
    · rintro y hy rfl
      exact h.link x hx y hy hq

theorem Attachable.mono {x : ForkItem Tx} (h : Attachable U f x) (hsub : ∀ y ∈ f'.live, y ∈ f.live)
    (hptr : f.nextPtr ≤ f'.nextPtr) : Attachable U f' x where
  data := h.data
  fresh := Nat.lt_of_lt_of_le h.fresh hptr
  shared y hy := h.shared y (hsub y hy)
  link y hy := h.link y (hsub y hy)
  prev q hq :=
    have hq' := h.prev q hq
    ⟨Nat.lt_of_lt_of_le hq'.1 hptr, hq'.2.1, fun y hy => hq'.2.2 y (hsub y hy)⟩

/-- A parent found in the linked index is a good one. -/
theorem Attachable.goodPrev {x p : ForkItem Tx} (h : Linked U f) (ha : Attachable U f x)
    (hp : p ∈ f.live) (hid : p.id = x.previousId) : GoodPrev f x (some p.ptr) := by
  intro q hq
  obtain rfl : p.ptr = q := by simpa using hq
  refine ⟨h.fresh p hp, ?_, ?_⟩
  · intro he
    have hd : p.data = x.data := ha.shared p hp he
    exact id_ne_previousId x (by rw [← hid, ForkItem.id, ForkItem.id, hd])
  · intro y hy he
    have hd : y.data = p.data := h.shared y hy p hp he
    rw [← hid, ForkItem.id, ForkItem.id, hd]

/-- **One item is inserted**, with a good parent pointer. -/
theorem Linked.attach (h : Linked U f) {x : ForkItem Tx} (ha : Attachable U f x) {p : Option Nat}
    (hp : GoodPrev f x p) (hsub : ∀ z ∈ f'.live, z ∈ f.live ∨ z = { x with prev := p })
    (hptr : f.nextPtr = f'.nextPtr) : Linked U f' where
  data z hz := by
    rcases hsub z hz with hz | rfl
    · exact h.data z hz
    · exact ha.data
  fresh z hz := by
    rw [← hptr]
    rcases hsub z hz with hz | rfl
    · exact h.fresh z hz
    · exact ha.fresh
  shared z hz w hw he := by
    rcases hsub z hz with hz | rfl <;> rcases hsub w hw with hw | rfl
    · exact h.shared z hz w hw he
    · exact ha.shared z hz he
    · exact (ha.shared w hw he.symm).symm
    · rfl
  prev z hz q hq := by
    rw [← hptr]
    rcases hsub z hz with hz | rfl
    · exact h.prev z hz q hq
    · exact (hp q hq).1
  link z hz w hw he := by
    rcases hsub z hz with hz | rfl <;> rcases hsub w hw with hw | rfl
    · exact h.link z hz w hw he
    · exact ha.link z hz he
    · exact (hp _ he).2.2 w hw rfl
    · exact absurd rfl (hp _ he).2.1

/-! ## The operations keep it -/

theorem Linked.reset (h : Linked U f) : Linked U f.reset :=
  h.mono (by intro x hx; simp [ForkDatabase.reset, mem_live] at hx; simp [mem_live, hx]) (Nat.le_refl _)

theorem Linked.setHead (h : Linked U f) {x : ForkItem Tx} (hx : x ∈ f.live) : Linked U (f.setHead x) := by
  refine h.mono ?_ (Nat.le_refl _)
  intro y hy
  simp only [ForkDatabase.setHead, mem_live, Option.some.injEq] at hy
  rcases hy with hy | hy | rfl | hy
  · exact mem_live.mpr (.inl hy)
  · exact mem_live.mpr (.inr (.inl hy))
  · exact hx
  · exact mem_live.mpr (.inr (.inr (.inr hy)))

theorem Linked.setEmergencyMode (h : Linked U f) (active : Bool) : Linked U (f.setEmergencyMode active) :=
  h.mono (fun _ hx => hx) (Nat.le_refl _)

theorem Linked.remove (h : Linked U f) (id : BlockId) : Linked U (f.remove id) := by
  refine h.mono ?_ (Nat.le_refl _)
  intro y hy
  simp only [ForkDatabase.remove, mem_live, List.mem_filter] at hy
  exact mem_live.mpr (hy.imp_left And.left)

theorem Linked.setMaxSize (h : Linked U f) (s : Nat) : Linked U (f.setMaxSize s) := by
  refine h.mono ?_ ?_
  · intro y hy
    unfold ForkDatabase.setMaxSize at hy
    split at hy
    · exact hy
    · simp only [mem_live, List.mem_filter] at hy
      exact mem_live.mpr (hy.imp And.left (Or.imp_left And.left))
  · unfold ForkDatabase.setMaxSize
    split <;> exact Nat.le_refl _

/-- Local variables own items that were owned before. -/
theorem Linked.hold (h : Linked U f) {items : List (ForkItem Tx)} (hi : ∀ x ∈ items, x ∈ f.live) :
    Linked U { f with held := items } := by
  refine h.mono ?_ (Nat.le_refl _)
  intro y hy
  simp only [mem_live] at hy
  rcases hy with hy | hy | hy | hy
  · exact mem_live.mpr (.inl hy)
  · exact mem_live.mpr (.inr (.inl hy))
  · exact mem_live.mpr (.inr (.inr (.inl hy)))
  · exact hi y hy

/-- A program of the fork database that keeps the invariant. -/
abbrev KeepsLinked (U : SignedBlock Tx → Prop) {α : Type} (m : M Tx α) (f : ForkDatabase Tx) : Prop :=
  Prog.MovesAt (Prog.Keeps (Linked U)) m f

theorem popBlock_keepsLinked (f : ForkDatabase Tx) : KeepsLinked U popBlock f := by
  refine Prog.MovesAt.get_bind ?_
  split
  · exact Prog.MovesAt.throw _ _
  · split
    · exact Prog.MovesAt.throw _ _
    · next p hp => exact Prog.MovesAt.set fun h => h.setHead (lock_mem hp).1

/-- The state in which an item has just been made: its identity is its own. -/
theorem attachable_makeItem (h : Linked U f) {b : SignedBlock Tx} (hb : U b) :
    Attachable U { f with nextPtr := f.nextPtr + 1 } { ptr := f.nextPtr, data := b } where
  data := hb
  fresh := Nat.lt_succ_self _
  shared y hy he := absurd (h.fresh y hy) (by simp [he])
  link y hy he := absurd (h.prev y hy _ he) (by simp)
  prev q hq := absurd hq (by simp)

theorem startBlock_keepsLinked {b : SignedBlock Tx} (hb : U b) (f : ForkDatabase Tx) :
    KeepsLinked U (startBlock b) f := by
  intro h
  have h' : Linked U { f with nextPtr := f.nextPtr + 1 } := h.mono (fun _ hx => hx) (Nat.le_succ _)
  refine h'.attach (p := none) (attachable_makeItem h hb) (fun q hq => absurd hq (by simp)) ?_ rfl
  intro z hz
  simp only [Prog.after, startBlock, makeItem, Prog.bind_run, Prog.get_run, Prog.set_run, Prog.pure_run,
    Prog.modify_run, mem_live, Option.some.injEq] at hz
  rcases hz with hz | hz | rfl | hz
  · rcases mem_insertUnique hz with hz | rfl
    · exact .inl (mem_live.mpr (.inl hz))
    · exact .inr rfl
  · exact .inl (mem_live.mpr (.inr (.inl hz)))
  · exact .inr rfl
  · exact .inl (mem_live.mpr (.inr (.inr (.inr hz))))

/-- What the link check returns: the item, with a good parent pointer. -/
theorem linkItem_eq_ok (h : Linked U f) {x x' : ForkItem Tx} (ha : Attachable U f x)
    (hl : linkItem f x = .ok x') : ∃ p, x' = { x with prev := p } ∧ GoodPrev f x p := by
  unfold linkItem at hl
  split at hl
  · exact ⟨x.prev, (Except.ok.inj hl).symm, ha.prev⟩
  · split at hl
    · exact absurd hl (by simp)
    · split at hl
      · exact ⟨x.prev, (Except.ok.inj hl).symm, ha.prev⟩
      · split at hl
        · exact absurd hl (by simp)
        · next p hp =>
            split at hl
            · exact absurd hl (by simp)
            · obtain ⟨hmem, hid⟩ := find_mem hp
              exact ⟨some p.ptr, (Except.ok.inj hl).symm, ha.goodPrev h (mem_live_of_index hmem) hid⟩

/-- Either the head stays or the new item becomes it. -/
theorem pickHead_cases (f : ForkDatabase Tx) (x : ForkItem Tx) :
    pickHead f x = some x ∨ (pickHead f x = f.head ∧ f.head ≠ none) := by
  unfold pickHead
  split
  · exact .inl rfl
  · next h hh =>
      split
      · exact .inl rfl
      · split
        · exact .inl rfl
        · exact .inr ⟨hh.symm, by simp [hh]⟩

/-- The insertion itself keeps the invariant. -/
theorem Linked.insert (h : Linked U f) {x x' : ForkItem Tx} (ha : Attachable U f x)
    (hl : linkItem f x = .ok x') :
    Linked U { f with index := insertUnique f.index x', head := pickHead f x' } := by
  obtain ⟨p, rfl, hp⟩ := linkItem_eq_ok h ha hl
  refine h.attach ha hp ?_ rfl
  intro z hz
  simp only [mem_live] at hz
  rcases hz with hz | hz | hz | hz
  · rcases mem_insertUnique hz with hz | rfl
    · exact .inl (mem_live_of_index hz)
    · exact .inr rfl
  · exact .inl (mem_live.mpr (.inr (.inl hz)))
  · rcases pickHead_cases f { x with prev := p } with hk | ⟨hk, -⟩
    · rw [hk] at hz
      exact .inr (Option.some.inj hz).symm
    · rw [hk] at hz
      exact .inl (mem_live_of_head hz)
  · exact .inl (mem_live.mpr (.inr (.inr (.inr hz))))

/-- Taking blocks out of the cache only forgets. -/
theorem live_uncache (f : ForkDatabase Tx) (id : BlockId) : ∀ z ∈ live
    { f with unlinkedIndex := f.unlinkedIndex.filter (fun x => decide (x.id ≠ id)) }, z ∈ f.live := by
  intro z hz
  simp only [mem_live, List.mem_filter] at hz
  exact mem_live.mpr (hz.imp_right (Or.imp_left And.left))

theorem pushNext_keepsLinked {push : ForkItem Tx → M Tx Unit} {id : BlockId}
    (hpush : ∀ x g, Attachable U g x → KeepsLinked U (push x) g) :
    ∀ n f, KeepsLinked U (pushNext push id n) f := by
  intro n
  induction n with
  | zero => exact fun f => Prog.MovesAt.throw _ _
  | succ n ih =>
      intro f
      refine Prog.MovesAt.get_bind ?_
      split
      · exact Prog.MovesAt.pure _ _
      · next tmp htmp =>
          intro h
          have hmem : tmp ∈ f.live := mem_live.mpr (.inr (.inl (List.mem_of_find?_eq_some htmp)))
          refine Prog.MovesAt.bind (R := Prog.Keeps (Linked U))
            (Prog.MovesAt.set fun h => h.mono (live_uncache f tmp.id) (Nat.le_refl _)) ?_ h
          rintro ⟨⟩ g hg
          obtain rfl := (EStateM.Result.ok.inj hg).2
          exact Prog.MovesAt.bind
            (hpush tmp _ ((h.attachable hmem).mono (live_uncache f tmp.id) (Nat.le_refl _)))
            fun _ g' _ => ih g'

/-- **The insertion with its waiting descendants keeps the invariant.** -/
theorem pushItem_keepsLinked :
    ∀ n (x : ForkItem Tx) (f : ForkDatabase Tx), Attachable U f x → KeepsLinked U (pushItem n x) f := by
  intro n
  induction n with
  | zero => exact fun x f _ => Prog.MovesAt.throw _ _
  | succ n ih =>
      intro x f ha
      refine Prog.MovesAt.get_bind ?_
      split
      · exact Prog.MovesAt.pure _ _
      · split
        · exact Prog.MovesAt.throw _ _
        · next x' hx' =>
            refine Prog.MovesAt.bind (Prog.MovesAt.set fun h => h.insert ha hx') ?_
            exact fun _ g _ => pushNext_keepsLinked ih (n + 1) g

/-! ## The linked index only grows -/

/-- Every linked block stays linked, and the callers keep their items. -/
def Grows (f f' : ForkDatabase Tx) : Prop := (∀ x ∈ f.index, x ∈ f'.index) ∧ f'.held = f.held

instance growsPreorder : IsPreorder (ForkDatabase Tx) Grows where
  refl _ := ⟨fun _ h => h, rfl⟩
  trans _ _ _ h₁ h₂ := ⟨fun x hx => h₂.1 x (h₁.1 x hx), h₂.2.trans h₁.2⟩

theorem Grows.find_isSome (h : Grows f f') {id : BlockId} (hf : (find f.index id).isSome = true) :
    (find f'.index id).isSome = true := by
  obtain ⟨x, hx, hid⟩ := ForkDatabase.find_isSome.mp hf
  exact ForkDatabase.find_isSome.mpr ⟨x, h.1 x hx, hid⟩

theorem pushNext_grows {push : ForkItem Tx → M Tx Unit} {id : BlockId}
    (hpush : ∀ x g, Prog.MovesAt Grows (push x) g) : ∀ n f, Prog.MovesAt Grows (pushNext push id n) f := by
  intro n
  induction n with
  | zero => exact fun f => Prog.MovesAt.throw _ _
  | succ n ih =>
      intro f
      refine Prog.MovesAt.get_bind ?_
      split
      · exact Prog.MovesAt.pure _ _
      · exact Prog.MovesAt.bind (Prog.MovesAt.set ⟨fun _ hx => hx, rfl⟩) fun _ _ _ =>
          Prog.MovesAt.bind (hpush _ _) fun _ g _ => ih g

theorem pushItem_grows : ∀ n (x : ForkItem Tx) f, Prog.MovesAt Grows (pushItem n x) f := by
  intro n
  induction n with
  | zero => exact fun x f => Prog.MovesAt.throw _ _
  | succ n ih =>
      intro x f
      refine Prog.MovesAt.get_bind ?_
      split
      · exact Prog.MovesAt.pure _ _
      · split
        · exact Prog.MovesAt.throw _ _
        · refine Prog.MovesAt.bind (Prog.MovesAt.set ⟨fun _ hx => mem_insertUnique_of_mem hx, rfl⟩) ?_
          exact fun _ g _ => pushNext_grows ih (n + 1) g

/-- The link check only sets the parent pointer. -/
theorem linkItem_data {x x' : ForkItem Tx} (hl : linkItem f x = .ok x') :
    x'.ptr = x.ptr ∧ x'.data = x.data := by
  unfold linkItem at hl
  split at hl
  · rw [← Except.ok.inj hl]; exact ⟨rfl, rfl⟩
  · split at hl
    · exact absurd hl (by simp)
    · split at hl
      · rw [← Except.ok.inj hl]; exact ⟨rfl, rfl⟩
      · split at hl
        · exact absurd hl (by simp)
        · split at hl
          · exact absurd hl (by simp)
          · rw [← Except.ok.inj hl]; exact ⟨rfl, rfl⟩

theorem linkItem_find_none {x x' : ForkItem Tx} (hnew : ¬ (find f.index x.id).isSome = true)
    (hl : linkItem f x = .ok x') : find f.index x'.id = none := by
  have hid : x'.id = x.id := by rw [ForkItem.id, ForkItem.id, (linkItem_data hl).2]
  rw [hid]
  simpa using hnew

/-- A block whose parent is linked does not fail to link. -/
theorem linkItem_ne_unlinkable {x : ForkItem Tx} (h : (find f.index x.previousId).isSome = true) :
    linkItem f x ≠ .error .unlinkableBlock := by
  unfold linkItem
  obtain ⟨p, hp⟩ := Option.isSome_iff_exists.mp h
  rw [hp]
  split
  · simp
  · split
    · simp
    · split
      · simp
      · simp only
        split <;> simp

theorem pushNext_ne_unlinkable {push : ForkItem Tx → M Tx Unit} {id : BlockId}
    (hgrow : ∀ x g, Prog.MovesAt Grows (push x) g)
    (hpush : ∀ x g g', (find g.index x.previousId).isSome = true → push x g ≠ .error .unlinkableBlock g') :
    ∀ n (f g : ForkDatabase Tx), (find f.index id).isSome = true →
      pushNext push id n f ≠ .error .unlinkableBlock g := by
  intro n
  induction n with
  | zero => intro f g _; simp [pushNext]
  | succ n ih =>
      intro f g hf herr
      simp only [pushNext, Prog.get_bind_run] at herr
      cases htmp : f.unlinkedIndex.find? (fun x => decide (x.previousId = id)) with
      | none => rw [htmp] at herr; exact absurd herr (by simp)
      | some tmp =>
          rw [htmp] at herr
          have hprev : tmp.previousId = id := by simpa using List.find?_some htmp
          rcases Prog.bind_eq_error herr with h | ⟨_, g₁, h₁, herr⟩
          · exact absurd h (by simp)
          obtain rfl := (EStateM.Result.ok.inj h₁).2
          rcases Prog.bind_eq_error herr with h | ⟨_, g₂, h₂, herr⟩
          · exact hpush tmp _ g (by rw [hprev]; exact hf) h
          · have hg : Grows _ g₂ := (hgrow tmp _).of_ok h₂
            exact ih g₂ g (hg.find_isSome hf) herr

/-- **Only the block itself can fail to link**, never one of its waiting descendants. -/
theorem pushItem_ne_unlinkable : ∀ n (x : ForkItem Tx) (f g : ForkDatabase Tx),
    (find f.index x.previousId).isSome = true → pushItem n x f ≠ .error .unlinkableBlock g := by
  intro n
  induction n with
  | zero => intro x f g _; simp [pushItem]
  | succ n ih =>
      intro x f g hf herr
      simp only [pushItem, Prog.get_bind_run] at herr
      by_cases hnew : (find f.index x.id).isSome = true
      · rw [if_pos hnew] at herr
        exact absurd herr (by simp)
      rw [if_neg hnew] at herr
      cases hx' : linkItem f x with
      | error e =>
          rw [hx'] at herr
          obtain rfl := (EStateM.Result.error.inj herr).1
          exact linkItem_ne_unlinkable hf hx'
      | ok x' =>
          rw [hx'] at herr
          rcases Prog.bind_eq_error herr with h | ⟨_, g₁, h₁, herr⟩
          · exact absurd h (by simp)
          obtain rfl := (EStateM.Result.ok.inj h₁).2
          refine pushNext_ne_unlinkable (pushItem_grows n) ih (n + 1) _ g ?_ herr
          exact find_isSome.mpr ⟨x', mem_insertUnique_self (linkItem_find_none hnew hx'), rfl⟩

/-- **A block that does not link changes nothing** but the next identity, until it is cached. -/
theorem pushItem_unlinkable {n : Nat} {x : ForkItem Tx} {f g : ForkDatabase Tx}
    (h : pushItem n x f = .error .unlinkableBlock g) : g = f := by
  cases n with
  | zero => simp [pushItem] at h
  | succ n =>
      by_cases hprev : (find f.index x.previousId).isSome = true
      · exact absurd h (pushItem_ne_unlinkable _ x f g hprev)
      simp only [pushItem, Prog.get_bind_run] at h
      by_cases hnew : (find f.index x.id).isSome = true
      · rw [if_pos hnew] at h
        exact absurd h (by simp)
      rw [if_neg hnew] at h
      cases hl : linkItem f x with
      | error e =>
          rw [hl] at h
          exact (EStateM.Result.error.inj h).2.symm
      | ok x' =>
          -- without a linked parent the check passes only for a root, which nothing precedes
          rw [hl] at h
          rcases Prog.bind_eq_error h with h | ⟨_, g₁, h₁, herr⟩
          · exact absurd h (by simp)
          obtain rfl := (EStateM.Result.ok.inj h₁).2
          refine absurd herr (pushNext_ne_unlinkable (pushItem_grows n) (pushItem_ne_unlinkable n) _ _ _ ?_)
          exact find_isSome.mpr ⟨x', mem_insertUnique_self (linkItem_find_none hnew hl), rfl⟩

theorem pushBlock_keepsLinked {b : SignedBlock Tx} (hb : U b) (f : ForkDatabase Tx) :
    KeepsLinked U (pushBlock b) f := by
  intro h
  have h' : Linked U { f with nextPtr := f.nextPtr + 1 } := h.mono (fun _ hx => hx) (Nat.le_succ _)
  have ha := attachable_makeItem h hb
  refine Prog.MovesAt.bind (R := Prog.Keeps (Linked U)) (fun _ => h') ?_ h
  intro item g hg
  obtain ⟨rfl, rfl⟩ := EStateM.Result.ok.inj hg
  refine Prog.MovesAt.get_bind (Prog.MovesAt.bind (R := Prog.Keeps (Linked U))
    (Prog.MovesAt.tryCatch ?_ ?_) ?_)
  · exact pushItem_keepsLinked _ _ _ ha
  · intro e g hg
    dsimp only
    split
    · next he =>
        -- the state is the one in which the item was made, so it may be cached
        subst he
        obtain rfl := pushItem_unlinkable hg
        refine Prog.MovesAt.bind (Prog.MovesAt.modify fun hl => hl.attach ha ha.prev ?_ rfl)
          fun _ _ _ => Prog.MovesAt.throw _ _
        intro z hz
        simp only [mem_live] at hz
        rcases hz with hz | hz | hz | hz
        · exact .inl (mem_live_of_index hz)
        · rcases mem_insertUnique hz with hz | rfl
          · exact .inl (mem_live.mpr (.inr (.inl hz)))
          · exact .inr rfl
        · exact .inl (mem_live_of_head hz)
        · exact .inl (mem_live.mpr (.inr (.inr (.inr hz))))
    · exact Prog.MovesAt.throw _ _
  · intro _ g _
    exact Prog.MovesAt.get_bind (Prog.MovesAt.pure _ _)

theorem pushBlock_grows (b : SignedBlock Tx) (f : ForkDatabase Tx) : Prog.MovesAt Grows (pushBlock b) f := by
  refine Prog.MovesAt.bind (R := Grows) ⟨fun _ hx => hx, rfl⟩ fun item g _ => Prog.MovesAt.get_bind ?_
  refine Prog.MovesAt.bind (R := Grows) (Prog.MovesAt.tryCatch (pushItem_grows _ _ _) ?_) ?_
  · intro e g _
    dsimp only
    split
    · exact Prog.MovesAt.bind (R := Grows) (Prog.MovesAt.modify ⟨fun _ hx => hx, rfl⟩)
        fun _ _ _ => Prog.MovesAt.throw _ _
    · exact Prog.MovesAt.throw _ _
  · exact fun _ g _ => Prog.MovesAt.get_bind (Prog.MovesAt.pure _ _)

/-! ## Anchoring -/

/-- A repaired item is the item, or it is linked to the block it names. -/
theorem repairLink_cases (f : ForkDatabase Tx) (parent x : ForkItem Tx) :
    repairLink f parent x = x ∨
    (repairLink f parent x = { x with prev := some parent.ptr } ∧ x.previousId = parent.id) := by
  unfold repairLink
  split
  · next h => exact .inr ⟨rfl, h.2.1⟩
  · exact .inl rfl

/-- Every item of the repaired database is an owned item or one that was linked to `parent`. -/
theorem live_repair {parent z : ForkItem Tx} (hz : z ∈ (repairChildPrevLinks parent f).live) :
    ∃ x ∈ f.live, z = x ∨ (z = { x with prev := some parent.ptr } ∧ x.previousId = parent.id) := by
  have hcase : ∀ x, x ∈ f.live →
      ∃ y ∈ f.live, repairLink f parent x = y ∨
        (repairLink f parent x = { y with prev := some parent.ptr } ∧ y.previousId = parent.id) :=
    fun x hx => ⟨x, hx, repairLink_cases f parent x⟩
  have hshared : ∀ x, x ∈ f.live →
      ∃ y ∈ f.live, (if f.index.any (fun y => decide (y.ptr = x.ptr)) then repairLink f parent x else x) = y ∨
        ((if f.index.any (fun y => decide (y.ptr = x.ptr)) then repairLink f parent x else x) =
          { y with prev := some parent.ptr } ∧ y.previousId = parent.id) := by
    intro x hx
    split
    · exact hcase x hx
    · exact ⟨x, hx, .inl rfl⟩
  simp only [repairChildPrevLinks, mem_live, List.mem_map, Option.map_eq_some_iff] at hz
  rcases hz with ⟨x, hx, rfl⟩ | hz | ⟨x, hx, rfl⟩ | ⟨x, hx, rfl⟩
  · exact hcase x (mem_live_of_index hx)
  · exact ⟨z, mem_live.mpr (.inr (.inl hz)), .inl rfl⟩
  · exact hshared x (mem_live_of_head hx)
  · exact hshared x (mem_live.mpr (.inr (.inr (.inr hx))))

theorem Linked.repair (h : Linked U f) {parent : ForkItem Tx} (hp : parent ∈ f.live) :
    Linked U (repairChildPrevLinks parent f) where
  data z hz := by
    obtain ⟨x, hx, hzx⟩ := live_repair hz
    have := h.data x hx
    rcases hzx with rfl | ⟨rfl, -⟩ <;> exact this
  fresh z hz := by
    obtain ⟨x, hx, hzx⟩ := live_repair hz
    have := h.fresh x hx
    rcases hzx with rfl | ⟨rfl, -⟩ <;> exact this
  shared z hz w hw he := by
    obtain ⟨x, hx, hzx⟩ := live_repair hz
    obtain ⟨y, hy, hwy⟩ := live_repair hw
    have hzd : z.ptr = x.ptr ∧ z.data = x.data := by
      rcases hzx with rfl | ⟨rfl, -⟩ <;> exact ⟨rfl, rfl⟩
    have hwd : w.ptr = y.ptr ∧ w.data = y.data := by
      rcases hwy with rfl | ⟨rfl, -⟩ <;> exact ⟨rfl, rfl⟩
    rw [hzd.2, hwd.2]
    exact h.shared x hx y hy (by rw [← hzd.1, ← hwd.1, he])
  prev z hz q hq := by
    obtain ⟨x, hx, rfl | ⟨rfl, -⟩⟩ := live_repair hz
    · exact h.prev z hx q hq
    · obtain rfl : parent.ptr = q := by simpa using hq
      exact h.fresh parent hp
  link z hz w hw he := by
    obtain ⟨x, hx, hzx⟩ := live_repair hz
    obtain ⟨y, hy, hwy⟩ := live_repair hw
    have hwd : w.ptr = y.ptr ∧ w.id = y.id := by
      rcases hwy with rfl | ⟨rfl, -⟩ <;> exact ⟨rfl, rfl⟩
    rw [hwd.2]
    rcases hzx with rfl | ⟨rfl, hid⟩
    · exact h.link z hx y hy (by rw [he, hwd.1])
    · have hyp : y.ptr = parent.ptr := by rw [← hwd.1]; simpa using he.symm
      have hd : y.data = parent.data := h.shared y hy parent hp hyp
      show y.id = x.previousId
      rw [hid, ForkItem.id, ForkItem.id, hd]

theorem insertAsBase_keepsLinked {b : SignedBlock Tx} (hb : U b) (f : ForkDatabase Tx) :
    KeepsLinked U (insertAsBase b) f := by
  refine Prog.MovesAt.get_bind ?_
  cases hfind : find f.index b.id with
  | some x => exact Prog.MovesAt.set fun h => h.repair (mem_live_of_index (find_mem hfind).1)
  | none =>
      intro h
      have ha := attachable_makeItem h hb
      have h' : Linked U { f with nextPtr := f.nextPtr + 1 } := h.mono (fun _ hx => hx) (Nat.le_succ _)
      have hins : Linked U { f with nextPtr := f.nextPtr + 1,
                                    index := insertUnique f.index { ptr := f.nextPtr, data := b } } := by
        refine h'.attach ha ha.prev ?_ rfl
        intro z hz
        simp only [mem_live] at hz
        rcases hz with hz | hz | hz | hz
        · rcases mem_insertUnique hz with hz | rfl
          · exact .inl (mem_live_of_index hz)
          · exact .inr rfl
        · exact .inl (mem_live.mpr (.inr (.inl hz)))
        · exact .inl (mem_live_of_head hz)
        · exact .inl (mem_live.mpr (.inr (.inr (.inr hz))))
      refine Prog.MovesAt.bind (R := Prog.Keeps (Linked U)) (fun _ => h') ?_ h
      intro item g hg
      obtain ⟨rfl, rfl⟩ := EStateM.Result.ok.inj hg
      refine Prog.MovesAt.bind (Prog.MovesAt.modify fun _ => hins) ?_
      intro _ g hg
      obtain rfl := (EStateM.Result.ok.inj hg).2
      refine Prog.MovesAt.get_bind (Prog.MovesAt.bind (pushNext_keepsLinked (pushItem_keepsLinked _) _ _) ?_)
      intro _ g hg
      have hgrow := (pushNext_grows (pushItem_grows _) _ _).of_ok hg
      refine Prog.MovesAt.modify fun hl => hl.repair (mem_live_of_index (hgrow.1 _ ?_))
      exact mem_insertUnique_self hfind

/-- Anchoring a block while no caller holds an item. -/
theorem insertAsBase_held (b : SignedBlock Tx) (f : ForkDatabase Tx) :
    Prog.MovesAt (Prog.Keeps (fun g => g.held = [])) (insertAsBase b) f := by
  refine Prog.MovesAt.get_bind ?_
  have hrepair : ∀ (p : ForkItem Tx) (g : ForkDatabase Tx), g.held = [] →
      (repairChildPrevLinks p g).held = [] := by
    intro p g hg
    simp [repairChildPrevLinks, hg]
  cases find f.index b.id with
  | some x => exact Prog.MovesAt.set (hrepair x f)
  | none =>
      refine Prog.MovesAt.bind (R := Prog.Keeps (fun g : ForkDatabase Tx => g.held = [])) id fun item g _ => ?_
      refine Prog.MovesAt.bind (Prog.MovesAt.modify fun h => h) fun _ g _ => ?_
      refine Prog.MovesAt.get_bind (Prog.MovesAt.bind ?_ fun _ g _ => Prog.MovesAt.modify (hrepair item g))
      exact fun h => (pushNext_grows (pushItem_grows _) _ _ : Grows _ _).2.trans h

end ForkDatabase

end VizNode
