import Mathlib.Data.Finset.Insert
import Mathlib.Data.List.Perm.Basic
import Mathlib.Data.List.Nodup
import VizNode.ForkDatabase.Links

/-!
# `VizNode.ForkDatabase.Arrivals` — the order of arrival does not matter

Blocks arrive in any order, some of them more than once and some before their parents. The fork database
caches a block without a parent and links it, with everything that waits for it, as soon as the parent
arrives.

**What it computes.** `Connected S r`: the blocks reached from the root `r` by going from a block to a child
in `S`. Once every block of `S` has arrived these are the linked blocks, and the others are still cached
(`Settled`), so nothing is left of the order.

**The invariant.** `Grown r S A f`: what is linked is connected, every linked block points to its linked
parent, and no cached block waits for a linked one, except for the ids in `A`. Inside the depth-first
insertion `A` holds the blocks whose children are still being looked for; `pushNext` takes its own block out
of `A` again.
-/

namespace VizNode

namespace ForkDatabase

variable {Tx : Type} {r : SignedBlock Tx} {S : SignedBlock Tx → Prop} {f f' : ForkDatabase Tx}

/-! ## What arrives -/

/-- **The blocks connected to the root** through `S`. -/
inductive Connected (S : SignedBlock Tx → Prop) (r : SignedBlock Tx) : SignedBlock Tx → Prop
  | root : Connected S r r
  | child {a b : SignedBlock Tx} (ha : Connected S r a) (hb : S b) (hp : b.previous = a.id) : Connected S r b

/-- **What may arrive**: no two blocks share an id, no block but the root may be without a parent, and all
    numbers stay inside the window of size `m`. -/
structure Arrivable (m : Nat) (r : SignedBlock Tx) (S : SignedBlock Tx → Prop) : Prop where
  unique : ∀ a b, (a = r ∨ S a) → (b = r ∨ S b) → a.id = b.id → a = b
  parent : ∀ b, S b → b.previous ≠ BlockId.zero
  window : ∀ a b, (a = r ∨ S a) → S b → a.blockNum - m < b.blockNum

/-- A fork database that owns nothing, such as a new one or one that was reset. -/
structure Blank (f : ForkDatabase Tx) : Prop where
  head     : f.head = none
  index    : f.index = []
  unlinked : f.unlinkedIndex = []
  held     : f.held = []

/-- The fork database after `start_block(r)` and the pushes of `bs`, whether they threw or not. -/
def arrivals (r : SignedBlock Tx) (bs : List (SignedBlock Tx)) (f : ForkDatabase Tx) : ForkDatabase Tx :=
  bs.foldl (fun f b => Prog.after (pushBlock b) f) (Prog.after (startBlock r) f)

/-- Some item, linked or cached, carries the block. -/
def Carries (f : ForkDatabase Tx) (b : SignedBlock Tx) : Prop :=
  ∃ x, (x ∈ f.index ∨ x ∈ f.unlinkedIndex) ∧ x.data = b

/-! ## The invariant -/

/-- `y` is no better head than `h`: it is lower, or of the same height without a lower id. -/
def NoBetter (h y : ForkItem Tx) : Prop := y.num < h.num ∨ (y.num = h.num ∧ y.id.lt h.id = false)

/-- **The tree grown so far.** Cached blocks wait for unlinked parents, or for those in `A`. -/
structure Grown (r : SignedBlock Tx) (S : SignedBlock Tx → Prop) (A : BlockId → Prop) (f : ForkDatabase Tx) :
    Prop where
  root      : ∃ x ∈ f.index, x.data = r
  connected : ∀ x ∈ f.index, Connected S r x.data
  cached    : ∀ x ∈ f.unlinkedIndex, S x.data
  valid     : ∀ x, (x ∈ f.index ∨ x ∈ f.unlinkedIndex) → x.invalid = false
  linkedIds : (f.index.map ForkItem.id).Nodup
  cachedIds : (f.unlinkedIndex.map ForkItem.id).Nodup
  apart     : ∀ x ∈ f.index, ∀ y ∈ f.unlinkedIndex, x.id ≠ y.id
  links     : ∀ x ∈ f.index, (x.data = r ∧ x.prev = none) ∨
                (x.data ≠ r ∧ ∃ p ∈ f.index, p.id = x.previousId ∧ x.prev = some p.ptr)
  waiting   : ∀ y ∈ f.unlinkedIndex, ∀ p ∈ f.index, p.id = y.previousId → A y.previousId
  head      : ∃ h ∈ f.index, f.head = some h ∧
                (f.emergencyConsensusActive = true → ∀ y ∈ f.index, NoBetter h y)

/-- An insertion: nothing linked is lost, the window and the mode stay, and the cache does not grow. -/
structure Extends (f f' : ForkDatabase Tx) : Prop where
  index  : ∀ x ∈ f.index, x ∈ f'.index
  size   : f'.maxSize = f.maxSize
  mode   : f'.emergencyConsensusActive = f.emergencyConsensusActive
  cached : f'.unlinkedIndex.length ≤ f.unlinkedIndex.length

theorem Extends.refl (f : ForkDatabase Tx) : Extends f f := ⟨fun _ h => h, rfl, rfl, Nat.le_refl _⟩

theorem Extends.trans {g : ForkDatabase Tx} (h₁ : Extends f f') (h₂ : Extends f' g) : Extends f g where
  index x hx := h₂.index x (h₁.index x hx)
  size := h₂.size.trans h₁.size
  mode := h₂.mode.trans h₁.mode
  cached := Nat.le_trans h₂.cached h₁.cached

theorem Connected.mem {b : SignedBlock Tx} (h : Connected S r b) : b = r ∨ S b := by
  cases h with
  | root => exact .inl rfl
  | child _ hb _ => exact .inr hb

/-- **The ids in `A` may be dropped** when nothing is cached under them. -/
theorem Grown.narrow {A B : BlockId → Prop} (h : Grown r S A f)
    (hA : ∀ y ∈ f.unlinkedIndex, A y.previousId → B y.previousId) : Grown r S B f :=
  { h with waiting := fun y hy p hp he => hA y hy (h.waiting y hy p hp he) }

/-- The next identity plays no part. -/
theorem Grown.nextPtr {A : BlockId → Prop} (h : Grown r S A f) (n : Nat) :
    Grown r S A { f with nextPtr := n } :=
  { h with }

/-! ## One block is linked -/

/-- A block ready to be linked: its parent `p` is linked, and nothing else carries its id. -/
structure Ready (S : SignedBlock Tx → Prop) (f : ForkDatabase Tx) (x p : ForkItem Tx) : Prop where
  mem     : S x.data
  valid   : x.invalid = false
  parent  : p ∈ f.index ∧ p.id = x.previousId
  linked  : ∀ y ∈ f.index, y.id ≠ x.id
  cached  : ∀ y ∈ f.unlinkedIndex, y.id ≠ x.id

/-- `f` with `x` linked to `p`. -/
def linkTo (f : ForkDatabase Tx) (x p : ForkItem Tx) : ForkDatabase Tx :=
  { f with
    index := insertUnique f.index { x with prev := some p.ptr }
    head  := pickHead f { x with prev := some p.ptr } }

theorem find_eq_none {l : List (ForkItem Tx)} {id : BlockId} (h : ∀ y ∈ l, y.id ≠ id) : find l id = none := by
  simpa [find] using h

/-- In an index without repeated ids, an item is found under its id. -/
theorem find_of_mem {l : List (ForkItem Tx)} (hl : (l.map ForkItem.id).Nodup) {x : ForkItem Tx} (hx : x ∈ l) :
    find l x.id = some x := by
  obtain ⟨y, hy⟩ := Option.isSome_iff_exists.mp (find_isSome.mpr ⟨x, hx, rfl⟩)
  obtain ⟨hmem, hid⟩ := find_mem hy
  rw [hy, List.inj_on_of_nodup_map hl hmem hx hid]

/-- **The checks of `_push_block` pass** for a block that is ready. -/
theorem linkItem_ready {A : BlockId → Prop} (hS : Arrivable f.maxSize r S) (h : Grown r S A f)
    {x p : ForkItem Tx} (hx : Ready S f x p) : linkItem f x = .ok { x with prev := some p.ptr } := by
  obtain ⟨hd, hmem, hhead, -⟩ := h.head
  have hwin : ¬ x.num ≤ hd.num - f.maxSize :=
    Nat.not_le.mpr (hS.window hd.data x.data (h.connected hd hmem).mem hx.mem)
  have hprev : x.previousId ≠ BlockId.zero := hS.parent x.data hx.mem
  have hfind : find f.index x.previousId = some p := by
    rw [← hx.parent.2]
    exact find_of_mem h.linkedIds hx.parent.1
  have hvalid : p.invalid = false := h.valid p (.inl hx.parent.1)
  simp [linkItem, hhead, hwin, hprev, hfind, hvalid]

theorem linkTo_index {x p : ForkItem Tx} (hx : Ready S f x p) :
    (linkTo f x p).index = f.index ++ [{ x with prev := some p.ptr }] := by
  have hnone : find f.index ({ x with prev := some p.ptr } : ForkItem Tx).id = none := find_eq_none hx.linked
  simp [linkTo, insertUnique, hnone]

theorem mem_linkTo {x p y : ForkItem Tx} (hx : Ready S f x p) :
    y ∈ (linkTo f x p).index ↔ y ∈ f.index ∨ y = { x with prev := some p.ptr } := by
  rw [linkTo_index hx]
  simp

theorem noBetter_self (h : ForkItem Tx) : NoBetter h h := by
  right
  simp [BlockId.lt]

theorem NoBetter.trans {x y z : ForkItem Tx} (h₁ : NoBetter x y) (h₂ : NoBetter y z) : NoBetter x z := by
  unfold NoBetter at *
  simp only [BlockId.lt, Bool.or_eq_false_iff, Bool.and_eq_false_imp, decide_eq_false_iff_not,
    decide_eq_true_eq] at *
  have hx : x.id.num = x.num := rfl
  have hy : y.id.num = y.num := rfl
  have hz : z.id.num = z.num := rfl
  omega

/-- **The head rule**: the old head or the new block, and no block is better than it. -/
theorem pickHead_best {h x : ForkItem Tx} (hh : f.head = some h) :
    ∃ h', pickHead f x = some h' ∧ (h' = h ∨ h' = x) ∧
      (f.emergencyConsensusActive = true → NoBetter h' h ∧ NoBetter h' x) := by
  unfold pickHead
  rw [hh]
  dsimp only
  split
  · next hlt => exact ⟨x, rfl, .inr rfl, fun _ => ⟨.inl hlt, noBetter_self x⟩⟩
  · next hle =>
      split
      · next htie =>
          refine ⟨x, rfl, .inr rfl, fun _ => ⟨.inr ⟨htie.1.symm, ?_⟩, noBetter_self x⟩⟩
          -- ids are compared strictly, so the old head is not below the new one
          have hlt := htie.2.1
          simp only [BlockId.lt, Bool.or_eq_true, Bool.and_eq_true, decide_eq_true_eq] at hlt
          simp only [BlockId.lt, Bool.or_eq_false_iff, Bool.and_eq_false_imp, decide_eq_false_iff_not,
            decide_eq_true_eq]
          omega
      · next htie =>
          refine ⟨h, rfl, .inl rfl, fun he => ⟨noBetter_self h, ?_⟩⟩
          rcases Nat.lt_or_eq_of_le (Nat.not_lt.mp hle) with hlt | heq
          · exact .inl hlt
          · refine .inr ⟨heq, ?_⟩
            simpa [heq, he] using htie

/-- **Linking one block** lets its own children wait. -/
theorem Grown.link {A : BlockId → Prop} (h : Grown r S A f) {x p : ForkItem Tx} (hx : Ready S f x p) :
    Grown r S (fun i => A i ∨ i = x.id) (linkTo f x p) where
  root := by
    obtain ⟨y, hy, he⟩ := h.root
    exact ⟨y, (mem_linkTo hx).mpr (.inl hy), he⟩
  connected y hy := by
    rcases (mem_linkTo hx).mp hy with hy | rfl
    · exact h.connected y hy
    · exact .child (h.connected p hx.parent.1) hx.mem hx.parent.2.symm
  cached := h.cached
  valid y hy := by
    rcases hy with hy | hy
    · rcases (mem_linkTo hx).mp hy with hy | rfl
      · exact h.valid y (.inl hy)
      · exact hx.valid
    · exact h.valid y (.inr hy)
  linkedIds := by
    rw [linkTo_index hx, List.map_append, List.nodup_append]
    refine ⟨h.linkedIds, by simp, ?_⟩
    rintro i hi j hj rfl
    obtain ⟨y, hy, rfl⟩ := List.mem_map.mp hi
    exact hx.linked y hy (List.mem_singleton.mp hj)
  cachedIds := h.cachedIds
  apart y hy z hz := by
    rcases (mem_linkTo hx).mp hy with hy | rfl
    · exact h.apart y hy z hz
    · exact fun he => hx.cached z hz he.symm
  links y hy := by
    rcases (mem_linkTo hx).mp hy with hy | rfl
    · refine (h.links y hy).imp_right ?_
      rintro ⟨hne, q, hq, he⟩
      exact ⟨hne, q, (mem_linkTo hx).mpr (.inl hq), he⟩
    · refine .inr ⟨?_, p, (mem_linkTo hx).mpr (.inl hx.parent.1), hx.parent.2, rfl⟩
      -- the root is linked already, so it is not the block that is linked now
      obtain ⟨y, hy, he⟩ := h.root
      intro hr
      exact hx.linked y hy (by rw [ForkItem.id, ForkItem.id, he]; exact congrArg SignedBlock.id hr.symm)
  waiting y hy q hq he := by
    rcases (mem_linkTo hx).mp hq with hq | rfl
    · exact .inl (h.waiting y hy q hq he)
    · exact .inr he.symm
  head := by
    obtain ⟨hd, hmem, hhead, hbest⟩ := h.head
    obtain ⟨h', hpick, hor, hnb⟩ := pickHead_best (x := { x with prev := some p.ptr }) hhead
    refine ⟨h', ?_, hpick, fun he y hy => ?_⟩
    · rcases hor with rfl | rfl
      · exact (mem_linkTo hx).mpr (.inl hmem)
      · exact (mem_linkTo hx).mpr (.inr rfl)
    · rcases (mem_linkTo hx).mp hy with hy | rfl
      · exact (hnb he).1.trans (hbest he y hy)
      · exact (hnb he).2

theorem extends_linkTo {x p : ForkItem Tx} (hx : Ready S f x p) : Extends f (linkTo f x p) where
  index _ hy := (mem_linkTo hx).mpr (.inl hy)
  size := rfl
  mode := rfl
  cached := Nat.le_refl _

theorem carries_linkTo {x p : ForkItem Tx} (hx : Ready S f x p) (b : SignedBlock Tx) :
    Carries (linkTo f x p) b ↔ Carries f b ∨ b = x.data := by
  constructor
  · rintro ⟨y, hy | hy, rfl⟩
    · rcases (mem_linkTo hx).mp hy with hy | rfl
      · exact .inl ⟨y, .inl hy, rfl⟩
      · exact .inr rfl
    · exact .inl ⟨y, .inr hy, rfl⟩
  · rintro (⟨y, hy | hy, rfl⟩ | rfl)
    · exact ⟨y, .inl ((mem_linkTo hx).mpr (.inl hy)), rfl⟩
    · exact ⟨y, .inr hy, rfl⟩
    · exact ⟨_, .inl ((mem_linkTo hx).mpr (.inr rfl)), rfl⟩

/-! ## The waiting descendants -/

/-- `f` with the cached block of id `i` taken out. -/
def uncache (f : ForkDatabase Tx) (i : BlockId) : ForkDatabase Tx :=
  { f with unlinkedIndex := f.unlinkedIndex.filter (fun x => decide (x.id ≠ i)) }

theorem mem_uncache {i : BlockId} {y : ForkItem Tx} :
    y ∈ (uncache f i).unlinkedIndex ↔ y ∈ f.unlinkedIndex ∧ y.id ≠ i := by
  simp [uncache]

theorem Grown.uncache {A : BlockId → Prop} (h : Grown r S A f) (i : BlockId) : Grown r S A (uncache f i) where
  root := h.root
  connected := h.connected
  cached y hy := h.cached y (mem_uncache.mp hy).1
  valid y hy := h.valid y (hy.imp_right fun hy => (mem_uncache.mp hy).1)
  linkedIds := h.linkedIds
  cachedIds := h.cachedIds.sublist (List.filter_sublist.map ForkItem.id)
  apart y hy z hz := h.apart y hy z (mem_uncache.mp hz).1
  links := h.links
  waiting y hy := h.waiting y (mem_uncache.mp hy).1
  head := h.head

theorem uncache_length {y : ForkItem Tx} (hy : y ∈ f.unlinkedIndex) :
    (uncache f y.id).unlinkedIndex.length < f.unlinkedIndex.length := by
  refine List.length_filter_lt_length_iff_exists.mpr ⟨y, hy, ?_⟩
  simp

theorem carries_uncache {A : BlockId → Prop} (h : Grown r S A f) {y : ForkItem Tx} (hy : y ∈ f.unlinkedIndex)
    (b : SignedBlock Tx) : Carries f b ↔ Carries (uncache f y.id) b ∨ b = y.data := by
  constructor
  · rintro ⟨z, hz | hz, rfl⟩
    · exact .inl ⟨z, .inl hz, rfl⟩
    · by_cases he : z.id = y.id
      · exact .inr (by rw [List.inj_on_of_nodup_map h.cachedIds hz hy he])
      · exact .inl ⟨z, .inr (mem_uncache.mpr ⟨hz, he⟩), rfl⟩
  · rintro (⟨z, hz | hz, rfl⟩ | rfl)
    · exact ⟨z, .inl hz, rfl⟩
    · exact ⟨z, .inr (mem_uncache.mp hz).1, rfl⟩
    · exact ⟨y, .inr hy, rfl⟩

/-- A cached block whose parent is linked is ready as soon as it is taken out of the cache. -/
theorem Grown.ready {A : BlockId → Prop} (h : Grown r S A f) {y p : ForkItem Tx} (hy : y ∈ f.unlinkedIndex)
    (hp : p ∈ f.index) (he : p.id = y.previousId) : Ready S (ForkDatabase.uncache f y.id) y p where
  mem := h.cached y hy
  valid := h.valid y (.inr hy)
  parent := ⟨hp, he⟩
  linked z hz := h.apart z hz y hy
  cached _ hz := (mem_uncache.mp hz).2

/-- **What an insertion does**: it returns, and the tree is grown by the blocks `added`, with the ids in `A`
    still waiting. -/
def Inserts (r : SignedBlock Tx) (S : SignedBlock Tx → Prop) (A : BlockId → Prop) (m : M Tx Unit)
    (f : ForkDatabase Tx) (added : SignedBlock Tx → Prop) : Prop :=
  ∃ f', m f = .ok () f' ∧ Grown r S A f' ∧ Extends f f' ∧ ∀ b, Carries f' b ↔ Carries f b ∨ added b

/-- **`_push_next` empties the cache of the children of `p`**, given that the nested pushes do their work. The
    fuel `m` bounds the length of the cache, which every round shortens. -/
theorem pushNext_inserts {A : BlockId → Prop} {n : Nat} {p : ForkItem Tx}
    (hpush : ∀ (g : ForkDatabase Tx) (x : ForkItem Tx), Arrivable g.maxSize r S →
      Grown r S (fun i => A i ∨ i = p.id) g → Ready S g x p → g.unlinkedIndex.length < n →
      Inserts r S (fun i => A i ∨ i = p.id) (pushItem n x) g (fun b => b = x.data)) :
    ∀ m (f : ForkDatabase Tx), Arrivable f.maxSize r S → Grown r S (fun i => A i ∨ i = p.id) f →
      p ∈ f.index → f.unlinkedIndex.length < m → f.unlinkedIndex.length ≤ n →
      Inserts r S A (pushNext (pushItem n) p.id m) f (fun _ => False) := by
  intro m
  induction m with
  | zero => intro f _ _ _ hm; exact absurd hm (Nat.not_lt_zero _)
  | succ m ih =>
      intro f hS h hp hm hn
      unfold Inserts
      simp only [pushNext, Prog.get_bind_run]
      cases hfind : f.unlinkedIndex.find? (fun x => decide (x.previousId = p.id)) with
      | none =>
          -- nothing waits for `p` any more
          refine ⟨f, rfl, h.narrow ?_, Extends.refl f, by simp⟩
          rintro y hy (hA | he)
          · exact hA
          · exact absurd (List.find?_eq_none.mp hfind y hy) (by simp [he])
      | some y =>
          have hy : y ∈ f.unlinkedIndex := List.mem_of_find?_eq_some hfind
          have he : y.previousId = p.id := by simpa using List.find?_some hfind
          have hlen := uncache_length hy
          obtain ⟨g, hg, hgrown, hext, hcar⟩ :=
            hpush (uncache f y.id) y hS (h.uncache y.id) (h.ready hy hp he.symm) (by omega)
          have hcached := hext.cached
          obtain ⟨f', hf', hgrown', hext', hcar'⟩ :=
            ih g (by rw [hext.size]; exact hS) hgrown (hext.index p hp) (by omega) (by omega)
          refine ⟨f', ?_, hgrown', ?_, ?_⟩
          · have hset : ∀ (k : M Tx Unit), (do set (uncache f y.id); k) f = k (uncache f y.id) :=
              fun _ => rfl
            show (do set (uncache f y.id); pushItem n y; pushNext (pushItem n) p.id m) f = _
            rw [hset, Prog.bind_run, hg]
            exact hf'
          · refine Extends.trans ?_ hext'
            exact ⟨hext.index, hext.size, hext.mode, by omega⟩
          · intro b
            rw [hcar' b, hcar b, carries_uncache h hy b]

/-- **`_push_block` of a ready block** links it with all its waiting descendants. The fuel bounds the cache:
    every nested call works on a shorter one. -/
theorem pushItem_inserts : ∀ n {A : BlockId → Prop} (f : ForkDatabase Tx) (x p : ForkItem Tx),
    Arrivable f.maxSize r S → Grown r S A f → Ready S f x p → f.unlinkedIndex.length < n →
    Inserts r S A (pushItem n x) f (fun b => b = x.data) := by
  intro n
  induction n with
  | zero => intro A f x p _ _ _ hn; exact absurd hn (Nat.not_lt_zero _)
  | succ n ih =>
      intro A f x p hS h hx hn
      have hx' : ({ x with prev := some p.ptr } : ForkItem Tx) ∈ (linkTo f x p).index :=
        (mem_linkTo hx).mpr (.inr rfl)
      have hlink := h.link hx
      obtain ⟨f', hf', hgrown, hext, hcar⟩ := pushNext_inserts (p := { x with prev := some p.ptr })
        (fun g y => ih g y _) (n + 1) (linkTo f x p) hS hlink hx' hn (Nat.le_of_lt_succ hn)
      refine ⟨f', ?_, hgrown, (extends_linkTo hx).trans hext, ?_⟩
      · have hnew : find f.index x.id = none := find_eq_none hx.linked
        simp only [pushItem, Prog.get_bind_run, hnew, linkItem_ready hS h hx]
        exact hf'
      · intro b
        rw [hcar b, carries_linkTo hx b]
        simp

/-! ## One arrival -/

/-- The item `push_block` makes for `b`, and the database it is pushed into. -/
def newItem (f : ForkDatabase Tx) (b : SignedBlock Tx) : ForkItem Tx := { ptr := f.nextPtr, data := b }

def numbered (f : ForkDatabase Tx) : ForkDatabase Tx := { f with nextPtr := f.nextPtr + 1 }

/-- `f` with `b` cached. -/
def cache (f : ForkDatabase Tx) (b : SignedBlock Tx) : ForkDatabase Tx :=
  { numbered f with unlinkedIndex := insertUnique f.unlinkedIndex (newItem f b) }

theorem pushBlock_of_ok {b : SignedBlock Tx} {g : ForkDatabase Tx}
    (h : pushItem f.pushFuel (newItem f b) (numbered f) = .ok () g) : Prog.after (pushBlock b) f = g := by
  refine Prog.after_ok (a := g.head) ?_
  show ((tryCatch (pushItem f.pushFuel (newItem f b)) _ : M Tx Unit) >>= _) (numbered f) = _
  rw [Prog.bind_run, Prog.tryCatch_run, h]
  rfl

theorem pushBlock_of_unlinkable {b : SignedBlock Tx}
    (h : pushItem f.pushFuel (newItem f b) (numbered f) = .error .unlinkableBlock (numbered f)) :
    Prog.after (pushBlock b) f = cache f b := by
  refine Prog.after_error (e := .unlinkableBlock) ?_
  show ((tryCatch (pushItem f.pushFuel (newItem f b)) _ : M Tx Unit) >>= _) (numbered f) = _
  rw [Prog.bind_run, Prog.tryCatch_run, h]
  rfl

/-- Nothing waits: every cached block misses its parent. -/
abbrev Complete (r : SignedBlock Tx) (S : SignedBlock Tx → Prop) (f : ForkDatabase Tx) : Prop :=
  Grown r S (fun _ => False) f

theorem Grown.mem {A : BlockId → Prop} (h : Grown r S A f) {x : ForkItem Tx}
    (hx : x ∈ f.index ∨ x ∈ f.unlinkedIndex) : x.data = r ∨ S x.data :=
  hx.elim (fun hx => (h.connected x hx).mem) fun hx => .inr (h.cached x hx)

/-- A block that carries the id of one already held is that block. -/
theorem Grown.carries_of_id {A : BlockId → Prop} {m : Nat} (hS : Arrivable m r S) (h : Grown r S A f)
    {b : SignedBlock Tx} (hb : S b) {x : ForkItem Tx} (hx : x ∈ f.index ∨ x ∈ f.unlinkedIndex)
    (he : x.id = b.id) : Carries f b :=
  ⟨x, hx, hS.unique x.data b (h.mem hx) (.inr hb) he⟩

/-- **A block without a linked parent is cached**, once. -/
theorem Grown.cache {m : Nat} (hS : Arrivable m r S) (h : Complete r S f) {b : SignedBlock Tx} (hb : S b)
    (hnew : ∀ x ∈ f.index, x.id ≠ b.id) (hpar : ∀ p ∈ f.index, p.id ≠ b.previous) :
    Complete r S (cache f b) ∧ ∀ c, Carries (cache f b) c ↔ Carries f c ∨ c = b := by
  by_cases hold : (find f.unlinkedIndex b.id).isSome = true
  · have hsame : ForkDatabase.cache f b = numbered f := by
      have hold' : (find f.unlinkedIndex (newItem f b).id).isSome = true := hold
      simp [ForkDatabase.cache, numbered, insertUnique, hold']
    obtain ⟨x, hx, he⟩ := find_isSome.mp hold
    rw [hsame]
    refine ⟨h.nextPtr _, fun c => ⟨.inl, ?_⟩⟩
    rintro (hc | rfl)
    · exact hc
    · exact h.carries_of_id hS hb (.inr hx) he
  · have hnone : find f.unlinkedIndex (newItem f b).id = none := Option.not_isSome_iff_eq_none.mp hold
    have hcached : ∀ y ∈ f.unlinkedIndex, y.id ≠ b.id := fun y hy he => hold (find_isSome.mpr ⟨y, hy, he⟩)
    have hlist : (ForkDatabase.cache f b).unlinkedIndex = f.unlinkedIndex ++ [newItem f b] := by
      simp [ForkDatabase.cache, insertUnique, hnone]
    have hmem : ∀ y, y ∈ (ForkDatabase.cache f b).unlinkedIndex ↔ y ∈ f.unlinkedIndex ∨ y = newItem f b := by
      intro y
      rw [hlist]
      simp
    refine ⟨{ h with
      cached := ?_, valid := ?_, cachedIds := ?_, apart := ?_, waiting := ?_ }, ?_⟩
    · intro y hy
      rcases (hmem y).mp hy with hy | rfl
      · exact h.cached y hy
      · exact hb
    · intro y hy
      rcases hy with hy | hy
      · exact h.valid y (.inl hy)
      · rcases (hmem y).mp hy with hy | rfl
        · exact h.valid y (.inr hy)
        · rfl
    · rw [hlist, List.map_append, List.nodup_append]
      refine ⟨h.cachedIds, by simp, ?_⟩
      rintro i hi j hj rfl
      obtain ⟨y, hy, rfl⟩ := List.mem_map.mp hi
      exact hcached y hy (List.mem_singleton.mp hj)
    · intro x hx y hy
      rcases (hmem y).mp hy with hy | rfl
      · exact h.apart x hx y hy
      · exact hnew x hx
    · intro y hy p hp he
      rcases (hmem y).mp hy with hy | rfl
      · exact h.waiting y hy p hp he
      · exact hpar p hp he
    · intro c
      constructor
      · rintro ⟨y, hy | hy, rfl⟩
        · exact .inl ⟨y, .inl hy, rfl⟩
        · rcases (hmem y).mp hy with hy | rfl
          · exact .inl ⟨y, .inr hy, rfl⟩
          · exact .inr rfl
      · rintro (⟨y, hy | hy, rfl⟩ | rfl)
        · exact ⟨y, .inl hy, rfl⟩
        · exact ⟨y, .inr ((hmem y).mpr (.inl hy)), rfl⟩
        · exact ⟨_, .inr ((hmem _).mpr (.inr rfl)), rfl⟩

/-- **One arrival** keeps the tree complete and adds the block, linked or cached. -/
theorem pushBlock_complete (hS : Arrivable f.maxSize r S) (h : Complete r S f) {b : SignedBlock Tx} (hb : S b) :
    Complete r S (Prog.after (pushBlock b) f) ∧
    (Prog.after (pushBlock b) f).maxSize = f.maxSize ∧
    (Prog.after (pushBlock b) f).emergencyConsensusActive = f.emergencyConsensusActive ∧
    ∀ c, Carries (Prog.after (pushBlock b) f) c ↔ Carries f c ∨ c = b := by
  have hfuel : f.pushFuel = f.unlinkedIndex.length + 1 := rfl
  by_cases hold : (find f.index b.id).isSome = true
  · -- the block is linked already
    obtain ⟨x, hx, he⟩ := find_isSome.mp hold
    have hrun : pushItem f.pushFuel (newItem f b) (numbered f) = .ok () (numbered f) := by
      have hold' : (find (numbered f).index (newItem f b).id).isSome = true := hold
      rw [hfuel]
      simp only [pushItem, Prog.get_bind_run, hold', if_true, Prog.pure_run]
    rw [pushBlock_of_ok hrun]
    refine ⟨h.nextPtr _, rfl, rfl, fun c => ⟨.inl, ?_⟩⟩
    rintro (hc | rfl)
    · exact hc
    · exact h.carries_of_id hS hb (.inl hx) he
  have hnew : ∀ x ∈ f.index, x.id ≠ b.id := fun x hx he => hold (find_isSome.mpr ⟨x, hx, he⟩)
  by_cases hpar : (find f.index b.previous).isSome = true
  · -- its parent is linked, so it is not cached either: nothing waits for a linked block
    obtain ⟨p, hp, he⟩ := find_isSome.mp hpar
    have hready : Ready S (numbered f) (newItem f b) p :=
      { mem := hb, valid := rfl, parent := ⟨hp, he⟩, linked := hnew
        cached := by
          intro y hy hid
          have hdata : y.data = b := hS.unique y.data b (h.mem (.inr hy)) (.inr hb) hid
          refine h.waiting y hy p hp ?_
          rw [he, ForkItem.previousId, hdata] }
    obtain ⟨g, hg, hgrown, hext, hcar⟩ :=
      pushItem_inserts f.pushFuel (numbered f) (newItem f b) p hS (h.nextPtr _) hready (by rw [hfuel]; exact Nat.lt_succ_self _)
    rw [pushBlock_of_ok hg]
    exact ⟨hgrown, hext.size, hext.mode, hcar⟩
  · have hnone : find f.index b.previous = none := by simpa using hpar
    have hparent : ∀ p ∈ f.index, p.id ≠ b.previous := fun p hp he => hpar (find_isSome.mpr ⟨p, hp, he⟩)
    have hrun : pushItem f.pushFuel (newItem f b) (numbered f) = .error .unlinkableBlock (numbered f) := by
      have hlink : linkItem (numbered f) (newItem f b) = .error .unlinkableBlock := by
        obtain ⟨hd, hmem, hhead, -⟩ := h.head
        have hhead' : (numbered f).head = some hd := hhead
        have hwin : ¬ (newItem f b).num ≤ hd.num - (numbered f).maxSize :=
          Nat.not_le.mpr (hS.window hd.data b (h.connected hd hmem).mem hb)
        have hprev : (newItem f b).previousId ≠ BlockId.zero := hS.parent b hb
        have hnone' : find (numbered f).index (newItem f b).previousId = none := hnone
        simp [linkItem, hhead', hwin, hprev, hnone']
      have hold' : ¬ (find (numbered f).index (newItem f b).id).isSome = true := hold
      rw [hfuel]
      simp only [pushItem, Prog.get_bind_run, hold', hlink]
      rfl
    rw [pushBlock_of_unlinkable hrun]
    obtain ⟨hcomplete, hcar⟩ := h.cache hS hb hnew hparent
    exact ⟨hcomplete, rfl, rfl, hcar⟩

/-! ## All arrivals -/

theorem startBlock_complete (hf : Blank f) :
    Complete r S (Prog.after (startBlock r) f) ∧
    (Prog.after (startBlock r) f).maxSize = f.maxSize ∧
    (Prog.after (startBlock r) f).emergencyConsensusActive = f.emergencyConsensusActive ∧
    ∀ c, Carries (Prog.after (startBlock r) f) c ↔ c = r := by
  have hrun : Prog.after (startBlock r) f =
      { numbered f with index := [newItem f r], head := some (newItem f r) } := by
    refine Prog.after_ok (a := ⟨⟩) ?_
    show EStateM.Result.ok _ _ = _
    simp [insertUnique, hf.index, find, numbered, newItem]
  rw [hrun]
  refine ⟨?_, rfl, rfl, ?_⟩
  · constructor <;> simp [hf.unlinked, newItem, numbered, Connected.root, NoBetter, BlockId.lt]
  · intro c
    simp [Carries, hf.unlinked, newItem, numbered, eq_comm]

/-- **A whole run**: the tree is complete, and it holds the root and what arrived. -/
theorem arrivals_complete (hf : Blank f) (hS : Arrivable f.maxSize r S) {bs : List (SignedBlock Tx)}
    (hbs : ∀ b ∈ bs, S b) :
    Complete r S (arrivals r bs f) ∧
    (arrivals r bs f).emergencyConsensusActive = f.emergencyConsensusActive ∧
    ∀ c, Carries (arrivals r bs f) c ↔ c = r ∨ c ∈ bs := by
  -- the same for a run that starts from any complete tree
  have hrun : ∀ (bs : List (SignedBlock Tx)) (g : ForkDatabase Tx), (∀ b ∈ bs, S b) →
      Arrivable g.maxSize r S → Complete r S g →
      Complete r S (bs.foldl (fun f b => Prog.after (pushBlock b) f) g) ∧
      (bs.foldl (fun f b => Prog.after (pushBlock b) f) g).emergencyConsensusActive =
        g.emergencyConsensusActive ∧
      ∀ c, Carries (bs.foldl (fun f b => Prog.after (pushBlock b) f) g) c ↔ Carries g c ∨ c ∈ bs := by
    intro bs
    induction bs with
    | nil => intro g _ _ h; exact ⟨h, rfl, by simp⟩
    | cons b bs ih =>
        intro g hbs hS h
        obtain ⟨hcomplete, hsize, hmode, hcar⟩ := pushBlock_complete hS h (hbs b (by simp))
        obtain ⟨hcomplete', hmode', hcar'⟩ := ih (Prog.after (pushBlock b) g)
          (fun c hc => hbs c (by simp [hc])) (by rw [hsize]; exact hS) hcomplete
        refine ⟨hcomplete', hmode'.trans hmode, fun c => ?_⟩
        rw [List.foldl_cons, hcar' c, hcar c, List.mem_cons, or_assoc]
  obtain ⟨hcomplete, hsize, hmode, hcar⟩ := startBlock_complete (r := r) (S := S) hf
  obtain ⟨hcomplete', hmode', hcar'⟩ := hrun bs _ hbs (by rw [hsize]; exact hS) hcomplete
  refine ⟨hcomplete', hmode'.trans hmode, fun c => ?_⟩
  rw [arrivals, hcar' c, hcar c]

theorem arrivals_linked (hf : Blank f) {bs : List (SignedBlock Tx)} (hbs : ∀ b ∈ bs, S b) :
    Linked (fun b => b = r ∨ S b) (arrivals r bs f) := by
  have hrun : ∀ (bs : List (SignedBlock Tx)) (g : ForkDatabase Tx), (∀ b ∈ bs, S b) →
      Linked (fun b => b = r ∨ S b) g →
      Linked (fun b => b = r ∨ S b) (bs.foldl (fun f b => Prog.after (pushBlock b) f) g) := by
    intro bs
    induction bs with
    | nil => intro g _ h; exact h
    | cons b bs ih =>
        intro g hbs h
        exact ih _ (fun c hc => hbs c (by simp [hc])) (pushBlock_keepsLinked (.inr (hbs b (by simp))) g h)
  refine hrun bs _ hbs (startBlock_keepsLinked (.inl rfl) f ?_)
  -- nothing is owned yet
  have hlive : f.live = [] := by simp [live, hf.head, hf.index, hf.unlinked, hf.held]
  constructor <;> simp [hlive]

/-! ## Nothing is left of the order -/

def linkedBlocks (f : ForkDatabase Tx) : List (SignedBlock Tx) := f.index.map ForkItem.data
def cachedBlocks (f : ForkDatabase Tx) : List (SignedBlock Tx) := f.unlinkedIndex.map ForkItem.data

/-- The block the parent pointer of the linked block with id `i` leads to. -/
def parentOf (f : ForkDatabase Tx) (i : BlockId) : Option (SignedBlock Tx) :=
  (find f.index i).bind fun x => (f.lock x.prev).map ForkItem.data

/-- **What is left when all of `S` has arrived**, said without the order. -/
structure Settled (r : SignedBlock Tx) (S : SignedBlock Tx → Prop) (f : ForkDatabase Tx) : Prop where
  linked  : ∀ b, b ∈ f.linkedBlocks ↔ Connected S r b
  once    : f.linkedBlocks.Nodup ∧ f.cachedBlocks.Nodup
  parents : ∀ i a, f.parentOf i = some a ↔
              Connected S r a ∧ ∃ b, Connected S r b ∧ b ≠ r ∧ b.id = i ∧ b.previous = a.id
  cached  : ∀ b, b ∈ f.cachedBlocks ↔ S b ∧ ¬ Connected S r b
  head    : f.emergencyConsensusActive = true → ∃ h, f.head = some h ∧ h.data ∈ f.linkedBlocks ∧
              ∀ b ∈ f.linkedBlocks, b.blockNum < h.num ∨ (b.blockNum = h.num ∧ b.id.lt h.id = false)

/-- A followed parent pointer of a linked block leads to the linked block it names. -/
theorem Linked.lock_map {U : SignedBlock Tx → Prop} (hl : Linked U f) {x p : ForkItem Tx} (hp : p ∈ f.index) (he : x.prev = some p.ptr) : (f.lock x.prev).map ForkItem.data = some p.data := by
  have hsome : (f.lock x.prev).isSome = true := by
    rw [he, ForkDatabase.lock, List.find?_isSome]
    exact ⟨p, mem_live_of_index hp, by simp⟩
  obtain ⟨q, hq⟩ := Option.isSome_iff_exists.mp hsome
  obtain ⟨hmem, hptr⟩ := lock_mem hq
  rw [hq, Option.map_some, hl.shared q hmem p (mem_live_of_index hp) ?_]
  exact Option.some.inj (hptr.symm.trans he)

/-- **A complete tree that holds all of `S` is settled.** -/
theorem Complete.settled {m : Nat} {U : SignedBlock Tx → Prop} (hS : Arrivable m r S) (h : Complete r S f)
    (hl : Linked U f) (hcar : ∀ b, Carries f b ↔ b = r ∨ S b) : Settled r S f := by
  have hlinked : ∀ b, b ∈ f.linkedBlocks ↔ Connected S r b := by
    intro b
    constructor
    · intro hb
      obtain ⟨x, hx, rfl⟩ := List.mem_map.mp hb
      exact h.connected x hx
    · intro hb
      induction hb with
      | root =>
          obtain ⟨x, hx, he⟩ := h.root
          exact List.mem_map.mpr ⟨x, hx, he⟩
      | @child a b _ hb hp ih =>
          -- the parent is linked, so the block cannot be waiting in the cache
          obtain ⟨p, hpm, rfl⟩ := List.mem_map.mp ih
          obtain ⟨x, hx | hx, rfl⟩ := (hcar b).mpr (.inr hb)
          · exact List.mem_map.mpr ⟨x, hx, rfl⟩
          · exact (h.waiting x hx p hpm hp.symm).elim
  refine ⟨hlinked, ⟨?_, ?_⟩, ?_, ?_, ?_⟩
  · exact List.Nodup.of_map SignedBlock.id (by rw [linkedBlocks, List.map_map]; exact h.linkedIds)
  · exact List.Nodup.of_map SignedBlock.id (by rw [cachedBlocks, List.map_map]; exact h.cachedIds)
  · intro i a
    constructor
    · intro hpar
      obtain ⟨x, hx, ha⟩ := Option.bind_eq_some_iff.mp hpar
      obtain ⟨hmem, rfl⟩ := find_mem hx
      rcases h.links x hmem with ⟨-, hnone⟩ | ⟨hne, p, hp, hid, hprev⟩
      · rw [hnone] at ha
        exact absurd ha (by simp [ForkDatabase.lock])
      · rw [hl.lock_map hp hprev] at ha
        obtain rfl := Option.some.inj ha
        exact ⟨h.connected p hp, x.data, h.connected x hmem, hne, rfl, hid.symm⟩
    · rintro ⟨ha, b, hb, hne, rfl, hprev⟩
      obtain ⟨x, hx, rfl⟩ := List.mem_map.mp ((hlinked b).mpr hb)
      have hfind : find f.index x.data.id = some x := find_of_mem h.linkedIds hx
      rw [parentOf, hfind, Option.bind_some]
      rcases h.links x hx with ⟨hroot, -⟩ | ⟨-, p, hp, hid, hptr⟩
      · exact absurd hroot hne
      · have hpa : p.data = a :=
          hS.unique p.data a (h.connected p hp).mem ha.mem (hid.trans hprev)
        rw [hl.lock_map hp hptr, hpa]
  · intro b
    constructor
    · intro hb
      obtain ⟨y, hy, rfl⟩ := List.mem_map.mp hb
      refine ⟨h.cached y hy, fun hc => ?_⟩
      obtain ⟨x, hx, he⟩ := List.mem_map.mp ((hlinked y.data).mpr hc)
      exact h.apart x hx y hy (by rw [ForkItem.id, he]; rfl)
    · rintro ⟨hb, hc⟩
      obtain ⟨x, hx | hx, rfl⟩ := (hcar b).mpr (.inr hb)
      · exact absurd (h.connected x hx) hc
      · exact List.mem_map.mpr ⟨x, hx, rfl⟩
  · intro he
    obtain ⟨hd, hmem, hhead, hbest⟩ := h.head
    refine ⟨hd, hhead, List.mem_map.mpr ⟨hd, hmem, rfl⟩, fun b hb => ?_⟩
    obtain ⟨y, hy, rfl⟩ := List.mem_map.mp hb
    exact hbest he y hy

/-- Of two blocks neither of which is the better head, the ids agree. -/
theorem id_eq_of_noBetter {a b : SignedBlock Tx}
    (h₁ : a.blockNum < b.blockNum ∨ (a.blockNum = b.blockNum ∧ a.id.lt b.id = false))
    (h₂ : b.blockNum < a.blockNum ∨ (b.blockNum = a.blockNum ∧ b.id.lt a.id = false)) : a.id = b.id := by
  have hnum : a.blockNum = b.blockNum := by omega
  have hhash : a.hash = b.hash := by
    have h₁' := (h₁.resolve_left (by omega)).2
    have h₂' := (h₂.resolve_left (by omega)).2
    simp [BlockId.lt, SignedBlock.id, hnum] at h₁' h₂'
    omega
  rw [SignedBlock.id, SignedBlock.id, hnum, hhash]

/-- **The order of arrival does not matter.** The blocks of `S` are pushed in two orders, with repetitions,
    into fork databases started from the same root. Both link the blocks connected to the root, each to its
    parent, and cache the others; in emergency mode both heads are the linked block of greatest height with
    the lowest id. -/
theorem arrivals_converge {g : ForkDatabase Tx} (hf : Blank f) (hg : Blank g) (hsize : g.maxSize = f.maxSize)
    (hmode : g.emergencyConsensusActive = f.emergencyConsensusActive) {S : Finset (SignedBlock Tx)}
    (hS : Arrivable f.maxSize r (· ∈ S)) {bs cs : List (SignedBlock Tx)} (hbs : ∀ b, b ∈ bs ↔ b ∈ S)
    (hcs : ∀ b, b ∈ cs ↔ b ∈ S) :
    (∀ b, b ∈ (arrivals r bs f).linkedBlocks ↔ Connected (· ∈ S) r b) ∧
    (arrivals r bs f).linkedBlocks.Perm (arrivals r cs g).linkedBlocks ∧
    (∀ b ∈ (arrivals r bs f).linkedBlocks, b ≠ r →
      ∃ a ∈ (arrivals r bs f).linkedBlocks, (arrivals r bs f).parentOf b.id = some a ∧ b.previous = a.id) ∧
    (∀ i, (arrivals r bs f).parentOf i = (arrivals r cs g).parentOf i) ∧
    (∀ b, b ∈ (arrivals r bs f).cachedBlocks ↔ b ∈ S ∧ ¬ Connected (· ∈ S) r b) ∧
    (arrivals r bs f).cachedBlocks.Perm (arrivals r cs g).cachedBlocks ∧
    (f.emergencyConsensusActive = true → ∃ h ∈ (arrivals r bs f).linkedBlocks,
      (arrivals r bs f).head.map ForkItem.data = some h ∧ (arrivals r cs g).head.map ForkItem.data = some h ∧
      ∀ b ∈ (arrivals r bs f).linkedBlocks,
        b.blockNum < h.blockNum ∨ (b.blockNum = h.blockNum ∧ b.id.lt h.id = false)) := by
  have settle : ∀ (k : ForkDatabase Tx) (ds : List (SignedBlock Tx)), Blank k → k.maxSize = f.maxSize →
      (∀ b, b ∈ ds ↔ b ∈ S) → Settled r (· ∈ S) (arrivals r ds k) := by
    intro k ds hk hs hds
    have hSk : Arrivable k.maxSize r (· ∈ S) := by rw [hs]; exact hS
    have hmem : ∀ b ∈ ds, b ∈ S := fun b hb => (hds b).mp hb
    obtain ⟨hcomplete, -, hcar⟩ := arrivals_complete hk hSk hmem
    refine Complete.settled hSk hcomplete (arrivals_linked hk hmem) fun b => ?_
    rw [hcar b, hds b]
  have hF := settle f bs hf rfl hbs
  have hG := settle g cs hg hsize hcs
  refine ⟨hF.linked, ?_, ?_, ?_, hF.cached, ?_, ?_⟩
  · refine (List.perm_ext_iff_of_nodup hF.once.1 hG.once.1).mpr fun b => ?_
    rw [hF.linked, hG.linked]
  · intro b hb hne
    cases (hF.linked b).mp hb with
    | root => exact absurd rfl hne
    | @child a _ ha hb hp =>
        exact ⟨a, (hF.linked a).mpr ha, (hF.parents b.id a).mpr ⟨ha, b, .child ha hb hp, hne, rfl, hp⟩, hp⟩
  · intro i
    refine Option.ext fun a => ?_
    rw [hF.parents, hG.parents]
  · refine (List.perm_ext_iff_of_nodup hF.once.2 hG.once.2).mpr fun b => ?_
    rw [hF.cached, hG.cached]
  · intro he
    have hmodes : (arrivals r bs f).emergencyConsensusActive = true ∧
        (arrivals r cs g).emergencyConsensusActive = true :=
      ⟨(arrivals_complete hf hS fun b hb => (hbs b).mp hb).2.1.trans he,
        (arrivals_complete hg (by rw [hsize]; exact hS) fun b hb => (hcs b).mp hb).2.1.trans (hmode.trans he)⟩
    obtain ⟨x, hx, hxm, hxb⟩ := hF.head hmodes.1
    obtain ⟨y, hy, hym, hyb⟩ := hG.head hmodes.2
    refine ⟨x.data, hxm, by rw [hx]; rfl, ?_, hxb⟩
    -- each head is in both indexes, so neither is better than the other
    have hxc := (hF.linked x.data).mp hxm
    have hyc := (hG.linked y.data).mp hym
    have hid : y.data.id = x.data.id :=
      id_eq_of_noBetter (hxb y.data ((hF.linked y.data).mpr hyc)) (hyb x.data ((hG.linked x.data).mpr hxc))
    rw [hy, Option.map_some, hS.unique y.data x.data hyc.mem hxc.mem hid]

namespace Family

/-- A root of height 7, two children and a grandchild. -/
def root7 : SignedBlock Nat := ⟨⟨6, 0⟩, 0, 0, 0, [], 0, [], 70⟩
def left8 : SignedBlock Nat := ⟨root7.id, 3, 0, 0, [], 0, [], 81⟩
def right8 : SignedBlock Nat := ⟨root7.id, 3, 1, 0, [], 0, [], 80⟩
def right9 : SignedBlock Nat := ⟨right8.id, 6, 1, 0, [], 0, [], 90⟩

def family : Finset (SignedBlock Nat) := {left8, right8, right9}

def opened : ForkDatabase Nat :=
  { index := [], unlinkedIndex := [], head := none, emergencyConsensusActive := true, nextPtr := 0 }

theorem family_arrivable : Arrivable opened.maxSize root7 (· ∈ family) := by
  constructor
  · intro x y hx hy
    simp only [family, Finset.mem_insert, Finset.mem_singleton] at hx hy
    rcases hx with rfl | rfl | rfl | rfl <;> rcases hy with rfl | rfl | rfl | rfl <;> decide
  · intro x hx
    simp only [family, Finset.mem_insert, Finset.mem_singleton] at hx
    rcases hx with rfl | rfl | rfl <;> decide
  · intro x y hx hy
    simp only [family, Finset.mem_insert, Finset.mem_singleton] at hx hy
    rcases hx with rfl | rfl | rfl | rfl <;> rcases hy with rfl | rfl | rfl <;> decide

end Family

open Family in
/-- The family pushed parents first, and children first with a repetition. -/
theorem arrivals_converge_sample :
    (arrivals root7 [left8, right8, right9] opened).linkedBlocks.Perm
      (arrivals root7 [right9, right8, right9, left8] opened).linkedBlocks ∧
    (arrivals root7 [right9, right8, right9, left8] opened).parentOf right9.id = some right8 ∧
    (arrivals root7 [right9, right8, right9, left8] opened).head.map ForkItem.data = some right9 := by
  have hdown : ∀ x, x ∈ [left8, right8, right9] ↔ x ∈ family := by
    intro x
    simp [family]
  have hup : ∀ x, x ∈ [right9, right8, right9, left8] ↔ x ∈ family := by
    intro x
    simp [family]
    tauto
  have hconv := arrivals_converge (f := opened) (g := opened) ⟨rfl, rfl, rfl, rfl⟩ ⟨rfl, rfl, rfl, rfl⟩ rfl rfl
    family_arrivable hdown hup
  exact ⟨hconv.2.1, by decide, by decide⟩

end ForkDatabase

end VizNode
