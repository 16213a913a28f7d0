import VizNode.ForkDatabase.Arrivals

/-!
# `VizNode.ForkDatabase.Seeds` — a new fork database that is filled block by block

`start_block` with one block and `push_block` with its descendants in order, as a node fills its fork database from a
log. The result is known exactly: `seeded bs`, one item after another, each with its pointer to the one before, and
the walk from the head finds all of them (`walk_seeded`).

In any other order the pointers are not there. A block below the head does not become the head, and no pointer of the
head is set by it (`pushBlock_below`).

## Contents
- **One push** into a database without cached blocks.
- **Blocks in order.** `seeded`, `pushBlock_seeded`, `walk_seeded`.
- **Blocks below the head.** `pushBlock_below`, `pushBlock_orphan`.
-/

namespace VizNode

namespace ForkDatabase

variable {Tx : Type} {f f' : ForkDatabase Tx} {b : SignedBlock Tx}

/-! ## One push -/

/-- `f` with a linked item. -/
def withLinked (f : ForkDatabase Tx) (x : ForkItem Tx) : ForkDatabase Tx :=
  { f with index := insertUnique f.index x, head := pickHead f x }

/-- **A push into a database without cached blocks** is the check of the link, and nothing waits behind it. -/
theorem pushItem_alone {x : ForkItem Tx} (hun : f.unlinkedIndex = []) (hnew : find f.index x.id = none) :
    pushItem 1 x f = match linkItem f x with
      | .error e => .error e f
      | .ok y    => .ok () (withLinked f y) := by
  unfold pushItem
  simp only [Prog.get_bind_run, hnew, Option.isSome_none, Bool.false_eq_true, if_false]
  cases linkItem f x with
  | error e => rfl
  | ok y =>
      show (pushNext _ y.id 1) (withLinked f y) = _
      unfold pushNext
      simp only [Prog.get_bind_run]
      have hnone : (withLinked f y).unlinkedIndex.find? (fun z => decide (z.previousId = y.id)) = none := by
        show f.unlinkedIndex.find? _ = none
        rw [hun]
        rfl
      rw [hnone]
      rfl

theorem pushFuel_alone (hun : f.unlinkedIndex = []) : (numbered f).pushFuel = 1 := by
  show f.unlinkedIndex.length + 1 = 1
  rw [hun]
  rfl

theorem pushBlock_alone {x : ForkItem Tx} (hun : f.unlinkedIndex = []) (hnew : find f.index b.id = none)
    (hlink : linkItem (numbered f) (newItem f b) = .ok x) :
    pushBlock b f = .ok (pickHead (numbered f) x) (withLinked (numbered f) x) := by
  have hpush : pushItem (numbered f).pushFuel (newItem f b) (numbered f) = .ok () (withLinked (numbered f) x) := by
    rw [pushFuel_alone hun, pushItem_alone (f := numbered f) (x := newItem f b) hun hnew, hlink]
  show ((tryCatch (pushItem (numbered f).pushFuel (newItem f b)) _ : M Tx Unit) >>= _) (numbered f) = _
  rw [Prog.bind_run, Prog.tryCatch_run, hpush]
  rfl

theorem pushBlock_refused {e : Exn} (hun : f.unlinkedIndex = []) (hnew : find f.index b.id = none)
    (hlink : linkItem (numbered f) (newItem f b) = .error e) : ∃ g, pushBlock b f = .error e g := by
  have hpush : pushItem (numbered f).pushFuel (newItem f b) (numbered f) = .error e (numbered f) := by
    rw [pushFuel_alone hun, pushItem_alone (f := numbered f) (x := newItem f b) hun hnew, hlink]
  have hrun : pushBlock b f = ((tryCatch (pushItem (numbered f).pushFuel (newItem f b)) _ : M Tx Unit) >>= _)
      (numbered f) := rfl
  rw [hrun, Prog.bind_run, Prog.tryCatch_run, hpush]
  dsimp only
  by_cases hlost : e = .unlinkableBlock
  · rw [if_pos hlost]
    exact ⟨_, rfl⟩
  · rw [if_neg hlost]
    exact ⟨_, rfl⟩

/-! ## Blocks in order -/

section Seeded

/-- The item of the `i`-th block. -/
def seedItem (i : Nat) (b : SignedBlock Tx) : ForkItem Tx :=
  { ptr := i, prev := if i = 0 then none else some (i - 1), data := b }

/-- **A new fork database with blocks in order**, oldest first: each points to the one before. -/
def seeded (bs : List (SignedBlock Tx)) : ForkDatabase Tx where
  index         := bs.mapIdx seedItem
  unlinkedIndex := []
  head          := (bs.mapIdx seedItem).getLast?
  nextPtr       := bs.length

variable {bs : List (SignedBlock Tx)} {last : SignedBlock Tx} {i : Nat}

theorem mem_seeded {x : ForkItem Tx} : x ∈ (seeded bs).index ↔ ∃ i b, bs[i]? = some b ∧ x = seedItem i b := by
  unfold seeded
  rw [List.mem_mapIdx]
  constructor
  · rintro ⟨i, hi, rfl⟩
    exact ⟨i, bs[i], List.getElem?_eq_getElem hi, rfl⟩
  · rintro ⟨i, b, hb, rfl⟩
    obtain ⟨hi, rfl⟩ := List.getElem?_eq_some_iff.mp hb
    exact ⟨i, hi, rfl⟩

theorem seeded_head (hlast : bs.getLast? = some last) : (seeded bs).head = some (seedItem (bs.length - 1) last) := by
  unfold seeded
  rw [List.getLast?_eq_getElem?, List.getElem?_mapIdx, List.length_mapIdx, ← List.getLast?_eq_getElem?, hlast]
  rfl

theorem seeded_live {x : ForkItem Tx} (h : x ∈ (seeded bs).live) : x ∈ (seeded bs).index := by
  rcases mem_live.mp h with hx | hx | hx | hx
  · exact hx
  · cases hx
  · exact List.mem_of_getLast? hx
  · cases hx

/-- **The pointers lead from each block to the one before.** -/
theorem lock_seeded (hb : bs[i]? = some b) : (seeded bs).lock (some i) = some (seedItem i b) := by
  have hmem : seedItem i b ∈ (seeded bs).live := mem_live_of_index (mem_seeded.mpr ⟨i, b, hb, rfl⟩)
  have hsome : ((seeded bs).lock (some i)).isSome := by
    unfold lock
    rw [List.find?_isSome]
    exact ⟨seedItem i b, hmem, decide_eq_true rfl⟩
  obtain ⟨x, hx⟩ := Option.isSome_iff_exists.mp hsome
  obtain ⟨hlive, hptr⟩ := lock_mem hx
  obtain ⟨j, c, hc, rfl⟩ := mem_seeded.mp (seeded_live hlive)
  obtain rfl : i = j := Option.some.inj hptr
  rw [hx, Option.some.inj (hc.symm.trans hb)]

/-- The blocks have consecutive numbers, and no two of them an id. -/
structure InOrder (first : Nat) (bs : List (SignedBlock Tx)) : Prop where
  numbers : ∀ i b, bs[i]? = some b → b.blockNum = first + i
  ids     : (bs.map SignedBlock.id).Nodup

theorem seeded_ids (hids : (bs.map SignedBlock.id).Nodup) : ((seeded bs).index.map ForkItem.id).Nodup := by
  have hmap : (seeded bs).index.map ForkItem.id = bs.map SignedBlock.id := by
    apply List.ext_getElem?
    intro i
    unfold seeded
    rw [List.getElem?_map, List.getElem?_mapIdx, List.getElem?_map, Option.map_map]
    rfl
  rw [hmap]
  exact hids

/-- **The next block is linked to the last one**, and is the head. -/
theorem pushBlock_seeded (hids : (bs.map SignedBlock.id).Nodup) (hlast : bs.getLast? = some last)
    (hprev : b.previous = last.id) (hzero : b.previous ≠ BlockId.zero) (hnew : ∀ c ∈ bs, c.id ≠ b.id)
    (hnum : last.blockNum < b.blockNum) :
    ∃ h, pushBlock b (seeded bs) = .ok h (seeded (bs ++ [b])) := by
  have hhead := seeded_head hlast
  have hunknown : find (seeded bs).index b.id = none := by
    apply find_eq_none
    intro y hy
    obtain ⟨i, c, hc, rfl⟩ := mem_seeded.mp hy
    exact hnew c (List.mem_of_getElem? hc)
  have hlen : 0 < bs.length := by
    cases bs with
    | nil => cases hlast
    | cons _ _ => exact Nat.succ_pos _
  have hparent : find (seeded bs).index b.previous = some (seedItem (bs.length - 1) last) := by
    rw [hprev]
    apply find_of_mem (x := seedItem (bs.length - 1) last) (seeded_ids hids)
    exact List.mem_of_getLast? hhead
  have hlink : linkItem (numbered (seeded bs)) (newItem (seeded bs) b) = .ok (seedItem bs.length b) := by
    have hwindow : ¬ (newItem (seeded bs) b).num ≤
        (seedItem (bs.length - 1) last).num - (numbered (seeded bs)).maxSize := by
      show ¬ b.blockNum ≤ last.blockNum - _
      omega
    have hparent' : find (numbered (seeded bs)).index (newItem (seeded bs) b).previousId =
        some (seedItem (bs.length - 1) last) := hparent
    have hhead' : (numbered (seeded bs)).head = some (seedItem (bs.length - 1) last) := hhead
    have hzero' : (newItem (seeded bs) b).previousId ≠ BlockId.zero := hzero
    have hitem : seedItem bs.length b = ⟨bs.length, some (bs.length - 1), false, b⟩ := by
      unfold seedItem
      rw [if_neg hlen.ne']
    unfold linkItem
    simp only [hhead', if_neg hwindow, hparent']
    rw [if_neg hzero', hitem]
    rfl
  have hhigher : pickHead (numbered (seeded bs)) (seedItem bs.length b) = some (seedItem bs.length b) := by
    have hhead' : (numbered (seeded bs)).head = some (seedItem (bs.length - 1) last) := hhead
    unfold pickHead
    simp only [hhead']
    exact if_pos hnum
  refine ⟨_, (pushBlock_alone rfl hunknown hlink).trans (congrArg _ ?_)⟩
  unfold withLinked insertUnique
  rw [hhigher]
  have hunknown' : find (numbered (seeded bs)).index (seedItem bs.length b).id = none := hunknown
  rw [hunknown']
  unfold seeded
  rw [List.mapIdx_concat, List.getLast?_concat, List.length_append]
  rfl

/-- **The walk from the head** finds every block. -/
theorem walkDown_seeded {first num fuel : Nat} (h : InOrder first bs) (hb : bs[i]? = some b) (hlo : first ≤ num)
    (hhi : num ≤ b.blockNum) (hfuel : b.blockNum - num < fuel) :
    ∃ c, bs[num - first]? = some c ∧
      walkDown (seeded bs) num fuel (some (seedItem i b)) = some (seedItem (num - first) c) := by
  induction fuel generalizing i b with
  | zero => omega
  | succ fuel ih =>
      have hnum := h.numbers i b hb
      unfold walkDown
      by_cases hlt : num < (seedItem i b).num
      · rw [if_pos hlt]
        have hlt : num < b.blockNum := hlt
        have hi : i ≠ 0 := by omega
        have hlen : i < bs.length := (List.getElem?_eq_some_iff.mp hb).1
        have hbelow : bs[i - 1]? = some bs[i - 1] := List.getElem?_eq_getElem (by omega)
        have hbelow_num := h.numbers (i - 1) _ hbelow
        have hprev : (seedItem i b).prev = some (i - 1) := if_neg hi
        rw [hprev, lock_seeded hbelow]
        exact ih hbelow (by omega) (by omega)
      · rw [if_neg hlt]
        have hnlt : ¬ num < b.blockNum := hlt
        have hi : num - first = i := by omega
        rw [hi]
        exact ⟨b, hb, rfl⟩

theorem walk_seeded {first num : Nat} (h : InOrder first bs) (hlast : bs.getLast? = some last) (hlo : first ≤ num)
    (hhi : num ≤ last.blockNum) :
    ∃ c, bs[num - first]? = some c ∧
      (seeded bs).walkMainBranchToNum num = some (seedItem (num - first) c) := by
  have hb : bs[bs.length - 1]? = some last := List.getLast?_eq_getElem? ▸ hlast
  unfold walkMainBranchToNum
  simp only [seeded_head hlast]
  have hnlt : ¬ (seedItem (bs.length - 1) last).num < num := not_lt.mpr hhi
  rw [if_neg hnlt]
  apply walkDown_seeded h hb hlo hhi
  show last.blockNum - num < last.blockNum + 1
  omega

end Seeded

/-! ## Blocks below the head -/

section Below

variable {h : ForkItem Tx} {r : Option (ForkItem Tx)}

/-- **A block below the head changes nothing about the head**, nor about its pointer. -/
theorem pushBlock_below (hun : f.unlinkedIndex = []) (hhead : f.head = some h) (hlow : b.blockNum < h.num)
    (hr : pushBlock b f = .ok r f') : f'.unlinkedIndex = [] ∧ f'.head = some h := by
  have hafter := Prog.after_ok hr
  by_cases hknown : (find f.index b.id).isSome
  · -- it is linked already
    have hpush : pushItem f.pushFuel (newItem f b) (numbered f) = .ok () (numbered f) := by
      have hknown' : (find (numbered f).index (newItem f b).id).isSome = true := hknown
      unfold pushFuel pushItem
      simp only [Prog.get_bind_run, hknown', if_true]
      rfl
    rw [pushBlock_of_ok hpush] at hafter
    rw [← hafter]
    exact ⟨hun, hhead⟩
  · have hnew : find f.index b.id = none := Option.not_isSome_iff_eq_none.mp hknown
    cases hlink : linkItem (numbered f) (newItem f b) with
    | error e =>
        obtain ⟨g, hthrow⟩ := pushBlock_refused hun hnew hlink
        rw [hthrow] at hr
        cases hr
    | ok y =>
        rw [pushBlock_alone hun hnew hlink] at hr
        have hy : y.num < h.num := by
          have hdata : y.data = b := (linkItem_data hlink).2
          unfold ForkItem.num
          rw [hdata]
          exact hlow
        obtain ⟨-, rfl⟩ := EStateM.Result.ok.inj hr
        refine ⟨hun, ?_⟩
        have hhead' : (numbered f).head = some h := hhead
        show pickHead (numbered f) y = some h
        unfold pickHead
        simp only [hhead']
        rw [if_neg (by omega), if_neg (by omega)]

/-- **A block whose parent is not there** does not link. -/
theorem pushBlock_orphan (hun : f.unlinkedIndex = []) (hnew : find f.index b.id = none) (hhead : f.head = some h)
    (hwindow : ¬ b.blockNum ≤ h.num - f.maxSize) (hzero : b.previous ≠ BlockId.zero)
    (hparent : find f.index b.previous = none) : ∃ g, pushBlock b f = .error .unlinkableBlock g := by
  apply pushBlock_refused hun hnew
  have hhead' : (numbered f).head = some h := hhead
  have hparent' : find (numbered f).index (newItem f b).previousId = none := hparent
  have hwindow' : ¬ (newItem f b).num ≤ h.num - (numbered f).maxSize := hwindow
  have hzero' : (newItem f b).previousId ≠ BlockId.zero := hzero
  unfold linkItem
  simp only [hhead', if_neg hwindow', if_neg hzero', hparent']

end Below

end ForkDatabase

end VizNode
