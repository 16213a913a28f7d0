import VizNode.ForkDatabase.Branches

/-!
# `VizNode.ForkDatabase.Tips` — the head is a linked block

**The invariant.** `InShape U f`: besides the parent pointers leading to the parents, the head is in the
linked index, no item is linked and cached at once, and nobody's parent is cached. In such a database a
parent pointer that can be followed leads into the linked index (`InShape.lock_linked`).

Everything the fork database does by itself keeps it, except for two operations: `remove` may take the head
out of the index, and `set_head` may name an item that is not in it.
-/

namespace VizNode

namespace ForkDatabase

variable {Tx : Type} {U : SignedBlock Tx → Prop} {f f' : ForkDatabase Tx}

/-- **The fork database is in shape.** -/
structure InShape (U : SignedBlock Tx → Prop) (f : ForkDatabase Tx) : Prop where
  linked    : Linked U f
  head      : ∀ h, f.head = some h → h ∈ f.index
  apart     : ∀ x ∈ f.index, ∀ y ∈ f.unlinkedIndex, x.ptr ≠ y.ptr
  childless : ∀ x ∈ f.live, ∀ y ∈ f.unlinkedIndex, x.prev ≠ some y.ptr

/-- The shape without the head. -/
structure Sorted (U : SignedBlock Tx → Prop) (f : ForkDatabase Tx) : Prop where
  linked    : Linked U f
  apart     : ∀ x ∈ f.index, ∀ y ∈ f.unlinkedIndex, x.ptr ≠ y.ptr
  childless : ∀ x ∈ f.live, ∀ y ∈ f.unlinkedIndex, x.prev ≠ some y.ptr

theorem InShape.sorted (h : InShape U f) : Sorted U f := ⟨h.linked, h.apart, h.childless⟩

/-- Forgetting keeps a database sorted, and so does moving the head to an owned item. -/
theorem Sorted.mono (h : Sorted U f) (hlive : ∀ x ∈ f'.live, x ∈ f.live) (hptr : f.nextPtr ≤ f'.nextPtr)
    (hindex : ∀ x ∈ f'.index, x ∈ f.index) (hcache : ∀ x ∈ f'.unlinkedIndex, x ∈ f.unlinkedIndex) :
    Sorted U f' where
  linked := h.linked.mono hlive hptr
  apart x hx y hy := h.apart x (hindex x hx) y (hcache y hy)
  childless x hx y hy := h.childless x (hlive x hx) y (hcache y hy)

/-- **A parent pointer leads into the linked index**, while the callers hold linked items only. -/
theorem InShape.lock_linked (h : InShape U f) (hheld : ∀ x ∈ f.held, x ∈ f.index) {x p : ForkItem Tx}
    (hx : x ∈ f.live) (hp : f.lock x.prev = some p) : p ∈ f.index := by
  obtain ⟨hmem, hptr⟩ := lock_mem hp
  rcases mem_live.mp hmem with hi | hu | hh | hd
  · exact hi
  · exact absurd hptr (h.childless x hx p hu)
  · exact h.head p hh
  · exact hheld p hd

theorem Sorted.inShape (h : Sorted U f) (hhead : ∀ x, f.head = some x → x ∈ f.index) : InShape U f :=
  ⟨h.linked, hhead, h.apart, h.childless⟩

/-- Forgetting keeps the shape, as long as the head stays in the index. -/
theorem InShape.mono (h : InShape U f) (hlive : ∀ x ∈ f'.live, x ∈ f.live) (hptr : f.nextPtr ≤ f'.nextPtr)
    (hindex : ∀ x ∈ f'.index, x ∈ f.index) (hcache : ∀ x ∈ f'.unlinkedIndex, x ∈ f.unlinkedIndex)
    (hhead : ∀ x, f'.head = some x → x ∈ f'.index) : InShape U f' :=
  (h.sorted.mono hlive hptr hindex hcache).inShape hhead

/-! ## Forgetting -/

theorem InShape.reset (h : InShape U f) : InShape U f.reset := by
  refine h.mono ?_ (Nat.le_refl _) ?_ ?_ ?_
  · intro x hx
    simp [ForkDatabase.reset, mem_live] at hx
    simp [mem_live, hx]
  · intro x hx
    exact absurd hx (by simp [ForkDatabase.reset])
  · intro x hx
    exact absurd hx (by simp [ForkDatabase.reset])
  · intro x hx
    exact absurd hx (by simp [ForkDatabase.reset])

theorem Sorted.setHead (h : Sorted U f) {x : ForkItem Tx} (hx : x ∈ f.live) : Sorted U (f.setHead x) := by
  refine h.mono ?_ (Nat.le_refl _) (fun _ hy => hy) (fun _ hy => hy)
  intro y hy
  simp only [ForkDatabase.setHead, mem_live, Option.some.injEq] at hy
  rcases hy with hy | hy | rfl | hy
  · exact mem_live_of_index hy
  · exact mem_live.mpr (.inr (.inl hy))
  · exact hx
  · exact mem_live.mpr (.inr (.inr (.inr hy)))

theorem Sorted.setHead_inShape (h : Sorted U f) {x : ForkItem Tx} (hx : x ∈ f.index) : InShape U (f.setHead x) := by
  refine (h.setHead (mem_live_of_index hx)).inShape ?_
  intro y hy
  exact Option.some.inj hy ▸ hx

theorem Sorted.remove (h : Sorted U f) (id : BlockId) : Sorted U (f.remove id) := by
  refine h.mono ?_ (Nat.le_refl _) ?_ (fun _ hx => hx)
  · intro y hy
    simp only [ForkDatabase.remove, mem_live, List.mem_filter] at hy
    exact mem_live.mpr (hy.imp_left And.left)
  · intro x hx
    exact (List.mem_filter.mp hx).1

/-- **A block other than the head may be removed.** -/
theorem InShape.remove (h : InShape U f) {id : BlockId} (hid : ∀ x, f.head = some x → x.id ≠ id) :
    InShape U (f.remove id) := by
  refine (h.sorted.remove id).inShape ?_
  intro x hx
  refine List.mem_filter.mpr ⟨h.head x hx, ?_⟩
  simpa using hid x hx

/-- **The window is trimmed**: items are dropped, but none that is at least as high as the head. -/
structure Trimmed (f f' : ForkDatabase Tx) : Prop where
  index   : ∀ x ∈ f'.index, x ∈ f.index
  cache   : ∀ x ∈ f'.unlinkedIndex, x ∈ f.unlinkedIndex
  head    : f'.head = f.head
  held    : f'.held = f.held
  nextPtr : f'.nextPtr = f.nextPtr
  kept    : ∀ x ∈ f.index, (∀ h, f.head = some h → h.num ≤ x.num) → x ∈ f'.index

instance trimmedPreorder : IsPreorder (ForkDatabase Tx) Trimmed where
  refl _ := ⟨fun _ hx => hx, fun _ hx => hx, rfl, rfl, rfl, fun _ hx _ => hx⟩
  trans _ _ _ h₁ h₂ :=
    { index := fun x hx => h₁.index x (h₂.index x hx)
      cache := fun x hx => h₁.cache x (h₂.cache x hx)
      head := h₂.head.trans h₁.head
      held := h₂.held.trans h₁.held
      nextPtr := h₂.nextPtr.trans h₁.nextPtr
      kept := fun x hx hn => h₂.kept x (h₁.kept x hx hn) fun h hh => hn h (h₁.head ▸ hh) }

theorem setMaxSize_trimmed (s : Nat) (f : ForkDatabase Tx) : Trimmed f (f.setMaxSize s) := by
  unfold ForkDatabase.setMaxSize
  split
  · exact ⟨fun _ hx => hx, fun _ hx => hx, rfl, rfl, rfl, fun _ hx _ => hx⟩
  · next h hh =>
      refine ⟨?_, ?_, rfl, rfl, rfl, ?_⟩
      · intro x hx
        exact (List.mem_filter.mp hx).1
      · intro x hx
        exact (List.mem_filter.mp hx).1
      · intro x hx hn
        have := hn h hh
        refine List.mem_filter.mpr ⟨hx, ?_⟩
        simp
        omega

theorem setEmergencyMode_trimmed (active : Bool) (f : ForkDatabase Tx) : Trimmed f (f.setEmergencyMode active) :=
  ⟨fun _ hx => hx, fun _ hx => hx, rfl, rfl, rfl, fun _ hx _ => hx⟩

theorem Sorted.trimmed (h : Sorted U f) (t : Trimmed f f') : Sorted U f' := by
  refine h.mono ?_ (Nat.le_of_eq t.nextPtr.symm) t.index t.cache
  intro x hx
  rcases mem_live.mp hx with hx | hx | hx | hx
  · exact mem_live_of_index (t.index x hx)
  · exact mem_live.mpr (.inr (.inl (t.cache x hx)))
  · exact mem_live_of_head (t.head ▸ hx)
  · exact mem_live.mpr (.inr (.inr (.inr (t.held ▸ hx))))

/-- The window never drops the head. -/
theorem InShape.trimmed (h : InShape U f) (t : Trimmed f f') : InShape U f' := by
  refine (h.sorted.trimmed t).inShape ?_
  intro x hx
  rw [t.head] at hx
  refine t.kept x (h.head x hx) ?_
  intro y hy
  obtain rfl := Option.some.inj (hx.symm.trans hy)
  exact Nat.le_refl _

theorem Sorted.hold (h : Sorted U f) {items : List (ForkItem Tx)} (hi : ∀ x ∈ items, x ∈ f.live) :
    Sorted U { f with held := items } := by
  refine h.mono ?_ (Nat.le_refl _) (fun _ hx => hx) (fun _ hx => hx)
  intro x hx
  simp only [mem_live] at hx
  rcases hx with hx | hx | hx | hx
  · exact mem_live_of_index hx
  · exact mem_live.mpr (.inr (.inl hx))
  · exact mem_live_of_head hx
  · exact hi x hx

theorem InShape.hold (h : InShape U f) {items : List (ForkItem Tx)} (hi : ∀ x ∈ items, x ∈ f.live) :
    InShape U { f with held := items } := (h.sorted.hold hi).inShape h.head

/-- A program of the fork database that keeps it in shape. -/
abbrev KeepsShape (U : SignedBlock Tx → Prop) {α : Type} (m : M Tx α) (f : ForkDatabase Tx) : Prop :=
  Prog.MovesAt (Prog.Keeps (InShape U)) m f

theorem popBlock_keepsShape (hheld : ∀ x ∈ f.held, x ∈ f.index) : KeepsShape U popBlock f := by
  refine Prog.MovesAt.get_bind ?_
  split
  · exact Prog.MovesAt.throw _ _
  · next h hh =>
      split
      · exact Prog.MovesAt.throw _ _
      · next p hp =>
          refine Prog.MovesAt.set fun hs => hs.sorted.setHead_inShape ?_
          exact hs.lock_linked hheld (mem_live_of_head hh) hp

/-! ## Insertion -/

/-- An item that is not cached, and whose parent is not either. -/
def Loose (f : ForkDatabase Tx) (x : ForkItem Tx) : Prop :=
  ∀ y ∈ f.unlinkedIndex, x.ptr ≠ y.ptr ∧ x.prev ≠ some y.ptr

/-- The link check points a loose item to a linked parent, or leaves its pointer alone. -/
theorem linkItem_loose (h : InShape U f) {x x' : ForkItem Tx} (hx : Loose f x) (hl : linkItem f x = .ok x') :
    Loose f x' := by
  have hkeep : ∀ p ∈ f.index, Loose f { x with prev := some p.ptr } := by
    intro p hp y hy
    refine ⟨(hx y hy).1, ?_⟩
    intro he
    exact h.apart p hp y hy (Option.some.inj he)
  unfold linkItem at hl
  split at hl
  · exact Except.ok.inj hl ▸ hx
  · split at hl
    · exact absurd hl (by simp)
    · split at hl
      · exact Except.ok.inj hl ▸ hx
      · split at hl
        · exact absurd hl (by simp)
        · next p hp =>
            split at hl
            · exact absurd hl (by simp)
            · exact Except.ok.inj hl ▸ hkeep p (find_mem hp).1

/-- **One item is linked**: it is the head, or the head stays. -/
theorem InShape.insert (h : InShape U f) {x x' : ForkItem Tx} (ha : Attachable U f x) (hx : Loose f x)
    (hnew : ¬ (find f.index x.id).isSome = true) (hl : linkItem f x = .ok x') :
    InShape U { f with index := insertUnique f.index x', head := pickHead f x' } := by
  have hloose := linkItem_loose h hx hl
  have hself : x' ∈ insertUnique f.index x' := mem_insertUnique_self (linkItem_find_none hnew hl)
  refine ⟨h.linked.insert ha hl, ?_, ?_, ?_⟩
  · intro y hy
    rcases pickHead_cases f x' with hk | ⟨hk, -⟩
    · rw [hk] at hy
      exact Option.some.inj hy ▸ hself
    · rw [hk] at hy
      exact mem_insertUnique_of_mem (h.head y hy)
  · intro y hy z hz
    rcases mem_insertUnique hy with hy | rfl
    · exact h.apart y hy z hz
    · exact (hloose z hz).1
  · intro y hy z hz
    simp only [mem_live] at hy
    rcases hy with hy | hy | hy | hy
    · rcases mem_insertUnique hy with hy | rfl
      · exact h.childless y (mem_live_of_index hy) z hz
      · exact (hloose z hz).2
    · exact h.childless y (mem_live.mpr (.inr (.inl hy))) z hz
    · rcases pickHead_cases f x' with hk | ⟨hk, -⟩
      · rw [hk] at hy
        exact Option.some.inj hy ▸ (hloose z hz).2
      · rw [hk] at hy
        exact h.childless y (mem_live_of_head hy) z hz
    · exact h.childless y (mem_live.mpr (.inr (.inr (.inr hy)))) z hz

/-- A block taken out of the cache is loose: two copies of an item carry the same id. -/
theorem InShape.uncached (h : InShape U f) {y : ForkItem Tx} (hy : y ∈ f.unlinkedIndex) :
    Loose { f with unlinkedIndex := f.unlinkedIndex.filter (fun x => decide (x.id ≠ y.id)) } y := by
  intro z hz
  obtain ⟨hz, hne⟩ := List.mem_filter.mp hz
  have hyl : y ∈ f.live := mem_live.mpr (.inr (.inl hy))
  have hzl : z ∈ f.live := mem_live.mpr (.inr (.inl hz))
  constructor
  · intro he
    have hdata := h.linked.shared y hyl z hzl he
    have hid : z.id = y.id := congrArg SignedBlock.id hdata.symm
    exact absurd hid (by simpa using hne)
  · exact h.childless y hyl z hz

theorem pushNext_keepsShape {push : ForkItem Tx → M Tx Unit} {id : BlockId}
    (hpush : ∀ x g, Attachable U g x → Loose g x → KeepsShape U (push x) g) :
    ∀ n f, KeepsShape U (pushNext push id n) f := by
  intro n
  induction n with
  | zero => exact fun f => Prog.MovesAt.throw _ _
  | succ n ih =>
      intro f
      refine Prog.MovesAt.get_bind ?_
      split
      · exact Prog.MovesAt.pure _ _
      · next tmp htmp =>
          intro h
          have hmem : tmp ∈ f.unlinkedIndex := List.mem_of_find?_eq_some htmp
          have hlive := live_uncache f tmp.id
          have hout : InShape U
              { f with unlinkedIndex := f.unlinkedIndex.filter (fun x => decide (x.id ≠ tmp.id)) } :=
            h.mono hlive (Nat.le_refl _) (fun _ hx => hx) (fun _ hx => (List.mem_filter.mp hx).1) h.head
          have ha : Attachable U _ tmp :=
            (h.linked.attachable (mem_live.mpr (.inr (.inl hmem)))).mono hlive (Nat.le_refl _)
          refine Prog.MovesAt.bind (R := Prog.Keeps (InShape U)) (Prog.MovesAt.set fun _ => hout) ?_ h
          intro _ g hg
          obtain rfl := (EStateM.Result.ok.inj hg).2
          exact Prog.MovesAt.bind (hpush tmp _ ha (h.uncached hmem)) fun _ g _ => ih g

theorem pushItem_keepsShape :
    ∀ n (x : ForkItem Tx) (f : ForkDatabase Tx), Attachable U f x → Loose f x → KeepsShape U (pushItem n x) f := by
  intro n
  induction n with
  | zero => exact fun x f _ _ => Prog.MovesAt.throw _ _
  | succ n ih =>
      intro x f ha hx
      refine Prog.MovesAt.get_bind ?_
      split
      · exact Prog.MovesAt.pure _ _
      · next hnew =>
          split
          · exact Prog.MovesAt.throw _ _
          · next x' hx' =>
              refine Prog.MovesAt.bind (Prog.MovesAt.set fun h => h.insert ha hx hnew hx') ?_
              exact fun _ g _ => pushNext_keepsShape ih (n + 1) g

/-! ## Whole operations -/

theorem InShape.numbered (h : InShape U f) : InShape U { f with nextPtr := f.nextPtr + 1 } :=
  h.mono (fun _ hx => hx) (Nat.le_succ _) (fun _ hx => hx) (fun _ hx => hx) h.head

/-- A new item is loose. -/
theorem loose_makeItem (h : InShape U f) (b : SignedBlock Tx) :
    Loose { f with nextPtr := f.nextPtr + 1 } { ptr := f.nextPtr, data := b } := by
  intro y hy
  have hfresh : y.ptr < f.nextPtr := h.linked.fresh y (mem_live.mpr (.inr (.inl hy)))
  exact ⟨Nat.ne_of_gt hfresh, by simp⟩

theorem startBlock_keepsShape {b : SignedBlock Tx} (hb : U b) (hnew : find f.index b.id = none) :
    KeepsShape U (startBlock b) f := by
  intro h
  have hl : Linked U _ := startBlock_keepsLinked hb f h.linked
  have hloose := loose_makeItem h b
  have hself : ({ ptr := f.nextPtr, data := b } : ForkItem Tx) ∈
      insertUnique f.index { ptr := f.nextPtr, data := b } := mem_insertUnique_self hnew
  refine ⟨hl, ?_, ?_, ?_⟩
  · intro x hx
    exact Option.some.inj hx ▸ hself
  · intro x hx y hy
    rcases mem_insertUnique hx with hx | rfl
    · exact h.apart x hx y hy
    · exact (hloose y hy).1
  · intro x hx y hy
    rcases mem_live.mp hx with hx | hx | hx | hx
    · rcases mem_insertUnique hx with hx | rfl
      · exact h.childless x (mem_live_of_index hx) y hy
      · exact (hloose y hy).2
    · exact h.childless x (mem_live.mpr (.inr (.inl hx))) y hy
    · exact Option.some.inj hx ▸ (hloose y hy).2
    · exact h.childless x (mem_live.mpr (.inr (.inr (.inr hx)))) y hy

theorem pushBlock_keepsShape {b : SignedBlock Tx} (hb : U b) (f : ForkDatabase Tx) :
    KeepsShape U (pushBlock b) f := by
  intro h
  have ha := attachable_makeItem h.linked hb
  have hx := loose_makeItem h b
  refine Prog.MovesAt.bind (R := Prog.Keeps (InShape U)) (fun _ => h.numbered) ?_ h
  intro item g hg
  obtain ⟨rfl, rfl⟩ := EStateM.Result.ok.inj hg
  refine Prog.MovesAt.get_bind (Prog.MovesAt.bind (R := Prog.Keeps (InShape U))
    (Prog.MovesAt.tryCatch ?_ ?_) ?_)
  · exact pushItem_keepsShape _ _ _ ha hx
  · intro e g hg
    dsimp only
    split
    · next he =>
        subst he
        obtain rfl := pushItem_unlinkable hg
        refine Prog.MovesAt.bind (Prog.MovesAt.modify fun hs => ?_) fun _ _ _ => Prog.MovesAt.throw _ _
        -- the new item is nobody's parent: its identity was not in use
        have hfresh : ∀ z ∈ f.live, z.ptr ≠ f.nextPtr ∧ z.prev ≠ some f.nextPtr := by
          intro z hz
          refine ⟨Nat.ne_of_lt (h.linked.fresh z hz), ?_⟩
          intro hp
          exact Nat.lt_irrefl _ (h.linked.prev z hz _ hp)
        refine ⟨hs.linked.attach ha ha.prev ?_ rfl, hs.head, ?_, ?_⟩
        · intro z hz
          rcases mem_live.mp hz with hz | hz | hz | hz
          · exact .inl (mem_live_of_index hz)
          · rcases mem_insertUnique hz with hz | rfl
            · exact .inl (mem_live.mpr (.inr (.inl hz)))
            · exact .inr rfl
          · exact .inl (mem_live_of_head hz)
          · exact .inl (mem_live.mpr (.inr (.inr (.inr hz))))
        · intro z hz y hy
          rcases mem_insertUnique hy with hy | rfl
          · exact hs.apart z hz y hy
          · exact (hfresh z (mem_live_of_index hz)).1
        · intro z hz y hy
          have hcase : z ∈ f.live ∨ z = { ptr := f.nextPtr, data := b } := by
            rcases mem_live.mp hz with hz | hz | hz | hz
            · exact .inl (mem_live_of_index hz)
            · rcases mem_insertUnique hz with hz | rfl
              · exact .inl (mem_live.mpr (.inr (.inl hz)))
              · exact .inr rfl
            · exact .inl (mem_live_of_head hz)
            · exact .inl (mem_live.mpr (.inr (.inr (.inr hz))))
          rcases hcase with hz | rfl
          · rcases mem_insertUnique hy with hy | rfl
            · exact hs.childless z hz y hy
            · exact (hfresh z hz).2
          · simp
    · exact Prog.MovesAt.throw _ _
  · intro _ g _
    exact Prog.MovesAt.get_bind (Prog.MovesAt.pure _ _)

/-- The repaired pointers lead to a linked block. -/
theorem InShape.repair (h : InShape U f) {parent : ForkItem Tx} (hp : parent ∈ f.index) :
    InShape U (repairChildPrevLinks parent f) := by
  refine ⟨h.linked.repair (mem_live_of_index hp), ?_, ?_, ?_⟩
  · intro x hx
    obtain ⟨y, hy, rfl⟩ := Option.map_eq_some_iff.mp hx
    have hany : f.index.any (fun z => decide (z.ptr = y.ptr)) = true :=
      List.any_eq_true.mpr ⟨y, h.head y hy, by simp⟩
    rw [if_pos hany]
    exact List.mem_map.mpr ⟨y, h.head y hy, rfl⟩
  · intro x hx y hy
    obtain ⟨z, hz, rfl⟩ := List.mem_map.mp hx
    have hptr : (repairLink f parent z).ptr = z.ptr := by
      rcases repairLink_cases f parent z with he | ⟨he, -⟩ <;> rw [he]
    rw [hptr]
    exact h.apart z hz y hy
  · intro x hx y hy
    obtain ⟨z, hz, rfl | ⟨rfl, -⟩⟩ := live_repair hx
    · exact h.childless x hz y hy
    · intro he
      exact h.apart parent hp y hy (Option.some.inj he)

/-- `f` with a new item for `b` in the linked index, linked to nothing. -/
def anchored (f : ForkDatabase Tx) (b : SignedBlock Tx) : ForkDatabase Tx :=
  { f with
    index   := insertUnique f.index { ptr := f.nextPtr, data := b }
    nextPtr := f.nextPtr + 1 }

theorem InShape.anchored (h : InShape U f) {b : SignedBlock Tx} (hb : U b) :
    InShape U (ForkDatabase.anchored f b) := by
  have ha := attachable_makeItem h.linked hb
  have hx := loose_makeItem h b
  have hcase : ∀ z ∈ (ForkDatabase.anchored f b).live, z ∈ f.live ∨ z = { ptr := f.nextPtr, data := b } := by
    intro z hz
    rcases mem_live.mp hz with hz | hz | hz | hz
    · rcases mem_insertUnique hz with hz | rfl
      · exact .inl (mem_live_of_index hz)
      · exact .inr rfl
    · exact .inl (mem_live.mpr (.inr (.inl hz)))
    · exact .inl (mem_live_of_head hz)
    · exact .inl (mem_live.mpr (.inr (.inr (.inr hz))))
  refine ⟨h.numbered.linked.attach ha ha.prev hcase rfl, ?_, ?_, ?_⟩
  · intro y hy
    exact mem_insertUnique_of_mem (h.head y hy)
  · intro y hy z hz
    rcases mem_insertUnique hy with hy | rfl
    · exact h.apart y hy z hz
    · exact (hx z hz).1
  · intro y hy z hz
    rcases hcase y hy with hy | rfl
    · exact h.childless y hy z hz
    · exact (hx z hz).2

theorem insertAsBase_keepsShape {b : SignedBlock Tx} (hb : U b) (f : ForkDatabase Tx) :
    KeepsShape U (insertAsBase b) f := by
  refine Prog.MovesAt.get_bind ?_
  cases hfind : find f.index b.id with
  | some x => exact Prog.MovesAt.set fun h => h.repair (find_mem hfind).1
  | none =>
      intro h
      refine Prog.MovesAt.bind (R := Prog.Keeps (InShape U)) (fun _ => h.numbered) ?_ h
      intro item g hg
      obtain ⟨rfl, rfl⟩ := EStateM.Result.ok.inj hg
      refine Prog.MovesAt.bind (Prog.MovesAt.modify fun _ => h.anchored hb) ?_
      intro _ g hg
      obtain rfl := (EStateM.Result.ok.inj hg).2
      refine Prog.MovesAt.get_bind (Prog.MovesAt.bind (pushNext_keepsShape (pushItem_keepsShape _) _ _) ?_)
      intro _ g hg
      have hgrow := (pushNext_grows (pushItem_grows _) _ _).of_ok hg
      refine Prog.MovesAt.modify fun hs => hs.repair (hgrow.1 _ ?_)
      exact mem_insertUnique_self hfind

end ForkDatabase

end VizNode
