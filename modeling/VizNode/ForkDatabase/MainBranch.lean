import VizNode.ForkDatabase.Branches
import VizNode.ForkDatabase.Arrivals
import VizNode.Chain.Runs

/-!
# `VizNode.ForkDatabase.MainBranch` — is it the main branch that is looked up?

The main branch of a fork database is the path from its head down the previous-ids of its linked blocks
(`mainPath`). `fetch_block_on_main_branch_by_number` does not walk it. It takes **a shortcut** when there is a
single linked block of the height, which need not be on the path at all, and it walks down **the parent pointers**
(`pointerPath`) otherwise, which are dead where a parent was forgotten, even if it was linked again since.

As far as both paths go they visit the same blocks (`paths_agree`). So the lookup is right exactly if the shortcut
is not taken off the path, and the two paths reach the height together (`Intact`, `mainBranch_iff`).

## Contents
- **Operations.** `Reachable`, and `Reachable.linked`.
- **Two paths.** `mainPath`, `pointerPath`, `paths_agree`.
- **The lookup.** `walkMainBranchToNum_eq`, `mainBranch_iff`.
-/

namespace VizNode

namespace ForkDatabase

variable {Tx : Type} {U : SignedBlock Tx → Prop} {f : ForkDatabase Tx}

/-! ## Operations -/

/-- **The states of a fork database.** Operations that throw leave a state behind as well. Callers keep items
    alive, and may make one of them the head. -/
inductive Reachable (U : SignedBlock Tx → Prop) : ForkDatabase Tx → Prop where
  | empty (nextPtr : Nat) : Reachable U { index := [], unlinkedIndex := [], head := none, nextPtr := nextPtr }
  | startBlock {f : ForkDatabase Tx} {b : SignedBlock Tx} (h : Reachable U f) (hb : U b) :
      Reachable U (Prog.after (startBlock b) f)
  | pushBlock {f : ForkDatabase Tx} {b : SignedBlock Tx} (h : Reachable U f) (hb : U b) :
      Reachable U (Prog.after (pushBlock b) f)
  | insertAsBase {f : ForkDatabase Tx} {b : SignedBlock Tx} (h : Reachable U f) (hb : U b) :
      Reachable U (Prog.after (insertAsBase b) f)
  | popBlock {f : ForkDatabase Tx} (h : Reachable U f) : Reachable U (Prog.after popBlock f)
  | setHead {f : ForkDatabase Tx} {x : ForkItem Tx} (h : Reachable U f) (hx : x ∈ f.live) : Reachable U (f.setHead x)
  | remove {f : ForkDatabase Tx} (h : Reachable U f) (id : BlockId) : Reachable U (f.remove id)
  | reset {f : ForkDatabase Tx} (h : Reachable U f) : Reachable U f.reset
  | setMaxSize {f : ForkDatabase Tx} (h : Reachable U f) (s : Nat) : Reachable U (f.setMaxSize s)
  | setEmergencyMode {f : ForkDatabase Tx} (h : Reachable U f) (active : Bool) :
      Reachable U (f.setEmergencyMode active)
  | hold {f : ForkDatabase Tx} {items : List (ForkItem Tx)} (h : Reachable U f) (hi : ∀ x ∈ items, x ∈ f.live) :
      Reachable U { f with held := items }

/-- Parent pointers lead to the parents in every state. -/
theorem Reachable.linked (h : Reachable U f) : Linked U f := by
  induction h with
  | empty nextPtr =>
      have hnone : ∀ x : ForkItem Tx,
          x ∉ live { index := [], unlinkedIndex := [], head := none, nextPtr := nextPtr } := by
        intro x hx
        simp [live] at hx
      constructor
      · exact fun x hx => absurd hx (hnone x)
      · exact fun x hx => absurd hx (hnone x)
      · exact fun x hx => absurd hx (hnone x)
      · exact fun x hx => absurd hx (hnone x)
      · exact fun x hx => absurd hx (hnone x)
  | startBlock _ hb ih => exact startBlock_keepsLinked hb _ ih
  | pushBlock _ hb ih => exact pushBlock_keepsLinked hb _ ih
  | insertAsBase _ hb ih => exact insertAsBase_keepsLinked hb _ ih
  | popBlock _ ih => exact popBlock_keepsLinked _ ih
  | setHead _ hx ih => exact ih.setHead hx
  | remove _ id ih => exact ih.remove id
  | reset _ ih => exact ih.reset
  | setMaxSize _ s ih => exact ih.setMaxSize s
  | setEmergencyMode _ active ih => exact ih.setEmergencyMode active
  | hold _ hi ih => exact ih.hold hi

/-! ## Two paths -/

/-- **The main branch**: `k` blocks below the head, by the previous-ids of linked blocks. -/
def mainPath (f : ForkDatabase Tx) : Nat → Option (SignedBlock Tx)
  | 0     => f.head.map ForkItem.data
  | k + 1 => (f.mainPath k).bind fun c => (find f.index c.previous).map ForkItem.data

/-- `k` items below the head, by the parent pointers. -/
def pointerPath (f : ForkDatabase Tx) : Nat → Option (ForkItem Tx)
  | 0     => f.head
  | k + 1 => (f.pointerPath k).bind fun x => f.lock x.prev

theorem mainPath_succ {k : Nat} {b : SignedBlock Tx} (hb : f.mainPath (k + 1) = some b) :
    ∃ c y, f.mainPath k = some c ∧ y ∈ f.index ∧ y.id = c.previous ∧ y.data = b := by
  obtain ⟨c, hc, hb⟩ := Option.bind_eq_some_iff.mp hb
  obtain ⟨y, hy, rfl⟩ := Option.map_eq_some_iff.mp hb
  exact ⟨c, y, hc, (find_mem hy).1, (find_mem hy).2, rfl⟩

theorem pointerPath_succ {k : Nat} {x : ForkItem Tx} (hx : f.pointerPath (k + 1) = some x) :
    ∃ y, f.pointerPath k = some y ∧ f.lock y.prev = some x := Option.bind_eq_some_iff.mp hx

/-- Blocks on the main branch are blocks of the universe. -/
theorem mainPath_mem (h : Linked U f) {k : Nat} {b : SignedBlock Tx} (hb : f.mainPath k = some b) : U b := by
  cases k with
  | zero =>
      obtain ⟨x, hx, rfl⟩ := Option.map_eq_some_iff.mp hb
      exact h.data x (mem_live_of_head hx)
  | succ k =>
      obtain ⟨c, y, -, hy, -, rfl⟩ := mainPath_succ hb
      exact h.data y (mem_live_of_index hy)

/-- **The main branch goes down one block at a time.** -/
theorem mainPath_num (hU : Universe U) (h : Linked U f) {t : ForkItem Tx} (ht : f.head = some t) {k : Nat}
    {b : SignedBlock Tx} (hb : f.mainPath k = some b) : b.blockNum + k = t.num := by
  induction k generalizing b with
  | zero =>
      obtain ⟨x, hx, rfl⟩ := Option.map_eq_some_iff.mp hb
      obtain rfl := Option.some.inj (ht.symm.trans hx)
      rfl
  | succ k ih =>
      obtain ⟨c, y, hc, hy, hid, rfl⟩ := mainPath_succ hb
      have hcnum : c.blockNum = c.previous.num + 1 := hU.num_eq (mainPath_mem h hc)
      have hynum : y.data.blockNum = c.previous.num := congrArg BlockId.num hid
      have := ih hc
      omega

/-- The pointers go down one block at a time, and never off the items somebody owns. -/
theorem pointerPath_num (h : Linked U f) {t : ForkItem Tx} (ht : f.head = some t) {k : Nat} (hk : k ≤ t.num)
    {x : ForkItem Tx} (hx : f.pointerPath k = some x) : x ∈ f.live ∧ x.num + k = t.num := by
  induction k generalizing x with
  | zero =>
      obtain rfl := Option.some.inj (ht.symm.trans hx)
      exact ⟨mem_live_of_head ht, rfl⟩
  | succ k ih =>
      obtain ⟨y, hy, hlock⟩ := pointerPath_succ hx
      obtain ⟨hlive, hnum⟩ := ih (by omega) hy
      have hdown := h.lock_num hlive hlock (by omega)
      exact ⟨(lock_mem hlock).1, by omega⟩

/-- **As far as both paths go they visit the same blocks.** -/
theorem paths_agree (hU : Universe U) (h : Linked U f) {t : ForkItem Tx} (ht : f.head = some t) {k : Nat}
    (hk : k ≤ t.num) {x : ForkItem Tx} {b : SignedBlock Tx} (hx : f.pointerPath k = some x)
    (hb : f.mainPath k = some b) : x.data = b := by
  induction k generalizing x b with
  | zero =>
      obtain ⟨y, hy, rfl⟩ := Option.map_eq_some_iff.mp hb
      obtain rfl := Option.some.inj (hx.symm.trans hy)
      rfl
  | succ k ih =>
      obtain ⟨y, hy, hlock⟩ := pointerPath_succ hx
      obtain ⟨c, z, hc, hz, hid, rfl⟩ := mainPath_succ hb
      have hyc : y.data = c := ih (by omega) hy hc
      have hlive : y ∈ f.live := (pointerPath_num h ht (by omega) hy).1
      have hxid : x.id = y.previousId := h.lock_id hlive hlock
      refine hU.inj _ _ (h.data x (lock_mem hlock).1) (h.data z (mem_live_of_index hz)) ?_
      show x.id = z.id
      rw [hxid, hid, ← hyc]
      rfl

/-! ## The lookup -/

/-- The loop follows the pointers for as many steps as there are to the height. -/
theorem walkDown_eq (h : Linked U f) {t : ForkItem Tx} (ht : f.head = some t) (num : Nat) {d : Nat} (k fuel : Nat)
    (hd : num + d + k = t.num) (hfuel : d < fuel) :
    walkDown f num fuel (f.pointerPath k) = f.pointerPath (k + d) := by
  induction d generalizing k fuel with
  | zero =>
      obtain ⟨fuel, rfl⟩ := Nat.exists_eq_succ_of_ne_zero (Nat.ne_of_gt hfuel)
      cases hx : f.pointerPath k with
      | none => rfl
      | some x =>
          have hnum := (pointerPath_num h ht (by omega) hx).2
          rw [walkDown, if_neg (by omega)]
  | succ d ih =>
      obtain ⟨fuel, rfl⟩ := Nat.exists_eq_succ_of_ne_zero (Nat.ne_of_gt (Nat.lt_of_le_of_lt (Nat.zero_le _) hfuel))
      have hnext : k + (d + 1) = k + 1 + d := by omega
      have hrec := ih (k + 1) fuel (by omega) (by omega)
      cases hx : f.pointerPath k with
      | none =>
          -- a path that has ended stays ended
          have hend : f.pointerPath (k + 1) = none := by
            unfold pointerPath
            rw [hx]
            rfl
          rw [hend] at hrec
          rw [walkDown, hnext, ← hrec]
          cases fuel <;> rfl
      | some x =>
          have hnum := (pointerPath_num h ht (by omega) hx).2
          have hstep : f.pointerPath (k + 1) = f.lock x.prev := by
            show (f.pointerPath k).bind (fun x => f.lock x.prev) = _
            rw [hx]
            rfl
          rw [walkDown, if_pos (by omega), ← hstep, hrec, hnext]

/-- **The walk** is the pointer path, at the height it was given. -/
theorem walkMainBranchToNum_eq (h : Linked U f) {t : ForkItem Tx} (ht : f.head = some t) {num : Nat}
    (hle : num ≤ t.num) : f.walkMainBranchToNum num = f.pointerPath (t.num - num) := by
  have hwalk := walkDown_eq h ht num (d := t.num - num) 0 (t.num + 1) (by omega) (by omega)
  rw [Nat.zero_add] at hwalk
  unfold walkMainBranchToNum
  rw [ht]
  dsimp only
  rw [if_neg (by omega), ← hwalk]
  show walkDown f num (t.num + 1) (some t) = walkDown f num (t.num + 1) f.head
  rw [ht]

/-- **The lookup finds the block of the main branch**: it returns, and what it returns is that block. With
    several linked blocks of the height the head is looked at without a check, so there has to be one. -/
structure FindsMain (f : ForkDatabase Tx) (num : Nat) : Prop where
  returns : 1 < (f.fetchBlockByNumber num).length → f.head ≠ none
  found   : ∀ b, (f.fetchBlockOnMainBranchByNumber num).map ForkItem.data = some b ↔
    b.blockNum = num ∧ ∃ k, f.mainPath k = some b

/-- **The main branch is intact down to this height**, as far as the lookup can tell. -/
def Intact (f : ForkDatabase Tx) (num : Nat) : Prop :=
  match f.fetchBlockByNumber num with
  | []  => ∀ t, f.head = some t → t.num ≠ num
  | [x] => ∃ k, f.mainPath k = some x.data
  | _   => ∃ t, f.head = some t ∧
      (num ≤ t.num → ((f.pointerPath (t.num - num)).isSome = true ↔ (f.mainPath (t.num - num)).isSome = true))

/-- Below the head, a block of the main branch is linked. -/
theorem mem_of_mainPath {num k : Nat} {b : SignedBlock Tx} (hb : f.mainPath k = some b) (hnum : b.blockNum = num) :
    (∃ x ∈ f.fetchBlockByNumber num, x.data = b) ∨ ∃ t, f.head = some t ∧ t.data = b := by
  cases k with
  | zero => exact .inr (Option.map_eq_some_iff.mp hb)
  | succ k =>
      obtain ⟨c, y, -, hy, -, rfl⟩ := mainPath_succ hb
      exact .inl ⟨y, mem_fetchBlockByNumber.mpr ⟨hy, hnum⟩, rfl⟩

/-- There is one block of a height on the main branch at most. -/
theorem mainPath_unique (hU : Universe U) (h : Linked U f) {j k : Nat} {a b : SignedBlock Tx}
    (ha : f.mainPath j = some a) (hb : f.mainPath k = some b) (hnum : a.blockNum = b.blockNum) : a = b := by
  cases ht : f.head with
  | none =>
      have hnone : ∀ k, f.mainPath k = none := by
        intro k
        induction k with
        | zero =>
            show f.head.map ForkItem.data = none
            rw [ht]
            rfl
        | succ k ih =>
            show (f.mainPath k).bind _ = none
            rw [ih]
            rfl
      exact absurd ((hnone j).symm.trans ha) (by simp)
  | some t =>
      have hj := mainPath_num hU h ht ha
      have hk := mainPath_num hU h ht hb
      obtain rfl : j = k := by omega
      exact Option.some.inj (ha.symm.trans hb)

/-- **The lookup on the main branch**, in every state and for every number: it finds the block of the main branch
    exactly if the main branch is intact down to there. -/
theorem mainBranch_iff (hU : Universe U) (hf : Reachable U f) (num : Nat) : FindsMain f num ↔ Intact f num := by
  have h := hf.linked
  unfold Intact
  cases hl : f.fetchBlockByNumber num with
  | nil =>
      have hnone : f.fetchBlockOnMainBranchByNumber num = none := by
        unfold fetchBlockOnMainBranchByNumber
        rw [hl]
      constructor
      · intro hfinds t ht hnum
        have hmain := (hfinds.found t.data).mpr ⟨hnum, 0, congrArg (Option.map ForkItem.data) ht⟩
        rw [hnone] at hmain
        exact absurd hmain (by simp)
      · intro hintact
        refine ⟨fun hlen => absurd hlen (by simp [hl]), fun b => ?_⟩
        rw [hnone]
        refine ⟨fun hb => absurd hb (by simp), fun hb => ?_⟩
        obtain ⟨hnum, k, hk⟩ := hb
        rcases mem_of_mainPath hk hnum with ⟨x, hx, -⟩ | ⟨t, ht, rfl⟩
        · rw [hl] at hx
          exact absurd hx List.not_mem_nil
        · exact absurd hnum (hintact t ht)
  | cons x rest =>
      cases rest with
      | nil =>
          have hsome : f.fetchBlockOnMainBranchByNumber num = some x := by
            unfold fetchBlockOnMainBranchByNumber
            rw [hl]
          have hxnum : x.data.blockNum = num :=
            (mem_fetchBlockByNumber.mp (hl ▸ List.mem_singleton_self x : x ∈ f.fetchBlockByNumber num)).2
          constructor
          · intro hfinds
            exact ((hfinds.found x.data).mp (by rw [hsome]; rfl)).2
          · rintro ⟨j, hj⟩
            refine ⟨fun hlen => absurd hlen (by simp [hl]), fun b => ?_⟩
            rw [hsome]
            constructor
            · intro hb
              obtain rfl := Option.some.inj hb
              exact ⟨hxnum, j, hj⟩
            · rintro ⟨hnum, k, hk⟩
              exact congrArg some (mainPath_unique hU h hj hk (hxnum.trans hnum.symm))
      | cons y rest =>
          have hwalk : f.fetchBlockOnMainBranchByNumber num = f.walkMainBranchToNum num := by
            unfold fetchBlockOnMainBranchByNumber
            rw [hl]
          have hmany : 1 < (f.fetchBlockByNumber num).length := by rw [hl]; simp
          constructor
          · intro hfinds
            obtain ⟨t, ht⟩ := Option.ne_none_iff_exists'.mp (hfinds.returns hmany)
            refine ⟨t, ht, fun hle => ?_⟩
            have hpath := hwalk.trans (walkMainBranchToNum_eq h ht hle)
            constructor
            · intro hpointer
              obtain ⟨z, hz⟩ := Option.isSome_iff_exists.mp hpointer
              obtain ⟨hnum, k, hk⟩ := (hfinds.found z.data).mp (by rw [hpath, hz]; rfl)
              have hheight := mainPath_num hU h ht hk
              obtain rfl : k = t.num - num := by omega
              rw [hk]
              rfl
            · intro hmain
              obtain ⟨b, hb⟩ := Option.isSome_iff_exists.mp hmain
              have hheight := mainPath_num hU h ht hb
              have hfound := (hfinds.found b).mpr ⟨by omega, _, hb⟩
              rw [hpath] at hfound
              obtain ⟨z, hz, -⟩ := Option.map_eq_some_iff.mp hfound
              rw [hz]
              rfl
          · rintro ⟨t, ht, hboth⟩
            refine ⟨fun _ => by rw [ht]; simp, fun b => ?_⟩
            by_cases hle : num ≤ t.num
            · have hpath := hwalk.trans (walkMainBranchToNum_eq h ht hle)
              rw [hpath]
              constructor
              · intro hb
                obtain ⟨z, hz, rfl⟩ := Option.map_eq_some_iff.mp hb
                obtain ⟨c, hc⟩ := Option.isSome_iff_exists.mp ((hboth hle).mp (by rw [hz]; rfl))
                have hnum := (pointerPath_num h ht (Nat.sub_le ..) hz).2
                have hsame := paths_agree hU h ht (Nat.sub_le ..) hz hc
                refine ⟨?_, _, hsame ▸ hc⟩
                show z.num = num
                omega
              · rintro ⟨hnum, k, hk⟩
                have hheight := mainPath_num hU h ht hk
                obtain rfl : k = t.num - num := by omega
                obtain ⟨z, hz⟩ := Option.isSome_iff_exists.mp ((hboth hle).mpr (by rw [hk]; rfl))
                rw [hz, ← paths_agree hU h ht (Nat.sub_le ..) hz hk]
                rfl
            · -- nothing on either path is above the head
              have hnone : f.walkMainBranchToNum num = none := by
                unfold walkMainBranchToNum
                rw [ht]
                dsimp only
                rw [if_pos (by omega)]
              rw [hwalk, hnone]
              refine ⟨fun hb => absurd hb (by simp), ?_⟩
              rintro ⟨hnum, k, hk⟩
              have hheight := mainPath_num hU h ht hk
              omega

/-! ## The family -/

namespace Family

theorem family_universe : Universe (· ∈ [root7, left8, right8, right9]) :=
  Universe.of_list (by decide) (by decide)

/-- The root with these blocks pushed on top. -/
def pushed (bs : List (SignedBlock Nat)) : ForkDatabase Nat :=
  bs.foldl (fun f b => Prog.after (pushBlock b) f)
    (Prog.after (startBlock root7) { index := [], unlinkedIndex := [], head := none, nextPtr := 0 })

theorem pushed_reachable {bs : List (SignedBlock Nat)} (hbs : ∀ b ∈ bs, b ∈ [root7, left8, right8, right9]) :
    Reachable (· ∈ [root7, left8, right8, right9]) (pushed bs) := by
  have hroot : Reachable (· ∈ [root7, left8, right8, right9])
      (Prog.after (startBlock root7) { index := [], unlinkedIndex := [], head := none, nextPtr := 0 }) :=
    (Reachable.empty 0).startBlock (by simp)
  unfold pushed
  generalize Prog.after (startBlock root7) _ = f at hroot
  induction bs generalizing f with
  | nil => exact hroot
  | cons b bs ih =>
      exact ih (fun c hc => hbs c (List.mem_cons_of_mem _ hc)) _ (hroot.pushBlock (hbs b (List.mem_cons_self ..)))

/-- **The shortcut leaves the main branch**: when the head is popped, its block is still the only one of its height. -/
theorem popped_block_found :
    Reachable (· ∈ [root7, left8, right8, right9]) (Prog.after popBlock (pushed [left8])) ∧
    ¬ FindsMain (Prog.after popBlock (pushed [left8])) 8 := by
  have hreach : Reachable (· ∈ [root7, left8, right8, right9]) (Prog.after popBlock (pushed [left8])) :=
    (pushed_reachable (by simp)).popBlock
  refine ⟨hreach, fun hfinds => ?_⟩
  obtain ⟨t, ht, hnum⟩ : ∃ t, (Prog.after popBlock (pushed [left8])).head = some t ∧ t.num = 7 := ⟨_, rfl, by decide⟩
  obtain ⟨-, k, hk⟩ := (hfinds.found left8).mp (by decide)
  have hheight := mainPath_num family_universe hreach.linked ht hk
  have hleft : left8.blockNum = 8 := by decide
  omega

/-- With two blocks of the height the walk finds the one below the head. -/
theorem mainBranch_iff_sample :
    ((pushed [left8, right8, right9]).fetchBlockOnMainBranchByNumber 8).map ForkItem.data = some right8 := by
  have hreach : Reachable (· ∈ [root7, left8, right8, right9]) (pushed [left8, right8, right9]) :=
    pushed_reachable (by simp)
  refine (((mainBranch_iff family_universe hreach 8).mpr ?_).found right8).mpr ⟨by decide, 1, by decide⟩
  obtain ⟨x, y, hl⟩ : ∃ x y, (pushed [left8, right8, right9]).fetchBlockByNumber 8 = [x, y] := ⟨_, _, rfl⟩
  unfold Intact
  rw [hl]
  exact ⟨_, rfl, fun _ => by decide⟩

end Family

end ForkDatabase

end VizNode
