import VizNode.Chain.Determined
import VizNode.Chain.Logs
import VizNode.Chain.Preference

/-!
# `VizNode.Chain.Choice` — where a block goes

`_push_block` decides with the head of the *fork database* in hand, not with the block it was given. A
block that extends the applied head is applied; any other block is left in the fork database, unless the
fork database's head is preferred to the applied head, which is then switched to. The test for "applied"
asks the wrong block as well: when the fork database's head is a child of the applied head that was never
applied, every side block is sent the way of an extension, where it is refused and removed.

## Contents
- **Insertion and the head.** `Away H`: the head of the fork database is not a child of `H`. An insertion
  keeps that, or brings it about.
- **Side blocks.** `KeepsApart`, the condition under which the choice tells a side block from an extension,
  and what a push then owes the block.
- **Preference.** What is known about the fork database's head when a push has made its choice.
-/

namespace VizNode

/-! ## Insertion and the head -/

namespace ForkDatabase

variable {Tx : Type} {f g : ForkDatabase Tx} {H : BlockId}

/-- The head is not a child of `H`. -/
def Away (H : BlockId) (f : ForkDatabase Tx) : Prop := ∀ h, f.head = some h → h.previousId ≠ H

/-- Block `H` does not come out of the cache: it is linked already, or it is not waiting. -/
def Barred (H : BlockId) (f : ForkDatabase Tx) : Prop :=
  (find f.index H).isSome = true ∨ (find f.unlinkedIndex H).isSome = false

instance barredDecidable (H : BlockId) (f : ForkDatabase Tx) : Decidable (Barred H f) :=
  inferInstanceAs (Decidable (_ ∨ _))

/-- The insertion keeps the head away from `H`. -/
def StaysAway (H : BlockId) (f g : ForkDatabase Tx) : Prop := Barred H f → Away H f → Barred H g ∧ Away H g

instance staysAwayPreorder (H : BlockId) : IsPreorder (ForkDatabase Tx) (StaysAway H) where
  refl _ hb ha := ⟨hb, ha⟩
  trans _ _ _ h₁ h₂ hb ha := by
    obtain ⟨hb', ha'⟩ := h₁ hb ha
    exact h₂ hb' ha'

theorem barred_insert {x : ForkItem Tx} {head : Option (ForkItem Tx)} (h : Barred H f) :
    Barred H { f with index := insertUnique f.index x, head := head } := by
  rcases h with h | h
  · left
    obtain ⟨y, hy, hid⟩ := find_isSome.mp h
    exact find_isSome.mpr ⟨y, mem_insertUnique_of_mem hy, hid⟩
  · exact .inr h

theorem barred_uncache {id : BlockId} (h : Barred H f) :
    Barred H { f with unlinkedIndex := f.unlinkedIndex.filter (fun x => decide (x.id ≠ id)) } := by
  rcases h with h | h
  · exact .inl h
  · right
    rw [Bool.eq_false_iff] at h ⊢
    intro hs
    obtain ⟨y, hy, hid⟩ := find_isSome.mp hs
    exact h (find_isSome.mpr ⟨y, List.mem_of_mem_filter hy, hid⟩)

theorem away_pickHead {x : ForkItem Tx} {index : List (ForkItem Tx)} (h : Away H f) (hx : x.previousId ≠ H) :
    Away H { f with index := index, head := pickHead f x } := by
  intro y hy
  rcases pickHead_cases f x with hp | ⟨hp, -⟩
  · rw [hp] at hy
    rw [← Option.some.inj hy]
    exact hx
  · rw [hp] at hy
    exact h y hy

/-- The waiting children of a block other than `H`. -/
theorem pushNext_staysAway {push : ForkItem Tx → M Tx Unit} {id : BlockId} (hid : id ≠ H)
    (hpush : ∀ x g, x.previousId ≠ H → (x.id = H → (find g.index H).isSome = true) →
      Prog.MovesAt (StaysAway H) (push x) g) :
    ∀ n (f : ForkDatabase Tx), Prog.MovesAt (StaysAway H) (pushNext push id n) f := by
  intro n
  induction n with
  | zero => exact fun f => Prog.MovesAt.throw _ _
  | succ n ih =>
      intro f hb ha
      refine Prog.MovesAt.get_bind (R := StaysAway H) ?_ hb ha
      split
      · exact Prog.MovesAt.pure _ _
      · next tmp htmp =>
          have hprev : tmp.previousId = id := by simpa using List.find?_some htmp
          refine Prog.MovesAt.bind (Prog.MovesAt.set fun hb ha => ⟨barred_uncache hb, ha⟩) fun _ g hg => ?_
          obtain rfl := (EStateM.Result.ok.inj hg).2
          refine Prog.MovesAt.bind (hpush tmp _ (by rw [hprev]; exact hid) ?_) fun _ g _ => ih g
          -- a waiting block with the id of `H` is there only when `H` is linked as well
          intro hH
          rcases hb with hb | hb
          · exact hb
          · rw [Bool.eq_false_iff] at hb
            exact absurd (find_isSome.mpr ⟨tmp, List.mem_of_find?_eq_some htmp, hH⟩) hb

/-- **An item that is no child of `H` does not make a child of `H` the head**, and neither do its waiting
    descendants. -/
theorem pushItem_staysAway : ∀ n (x : ForkItem Tx) (f : ForkDatabase Tx), x.previousId ≠ H →
    (x.id = H → (find f.index H).isSome = true) → Prog.MovesAt (StaysAway H) (pushItem n x) f := by
  intro n
  induction n with
  | zero => exact fun x f _ _ => Prog.MovesAt.throw _ _
  | succ n ih =>
      intro x f hprev hid
      refine Prog.MovesAt.get_bind ?_
      split
      · exact Prog.MovesAt.pure _ _
      · next hnew =>
          split
          · exact Prog.MovesAt.throw _ _
          · next x' hx' =>
              have hdata := (linkItem_data hx').2
              have hprev' : x'.previousId ≠ H := by rw [ForkItem.previousId, hdata]; exact hprev
              have hid' : x'.id ≠ H := by
                intro hc
                have hxid : x.id = H := by rw [← hc, ForkItem.id, ForkItem.id, hdata]
                exact hnew (by rw [hxid]; exact hid hxid)
              refine Prog.MovesAt.bind (Prog.MovesAt.set fun hb ha => ?_) fun _ g _ =>
                pushNext_staysAway hid' ih (n + 1) g
              exact ⟨barred_insert hb, away_pickHead ha hprev'⟩

/-- What an insertion that returned did: the block was linked already and nothing happened, or it was
    linked and its waiting descendants after it. -/
theorem pushItem_ok {n : Nat} {x : ForkItem Tx} (h : pushItem n x f = .ok () g) :
    ((find f.index x.id).isSome = true ∧ g = f) ∨
    ∃ m x', (find f.index x.id).isSome = false ∧ linkItem f x = .ok x' ∧
      pushNext (pushItem m) x'.id (m + 1)
        { f with index := insertUnique f.index x', head := pickHead f x' } = .ok () g := by
  cases n with
  | zero => exact absurd h (by simp [pushItem])
  | succ n =>
      simp only [pushItem, Prog.get_bind_run] at h
      by_cases hnew : (find f.index x.id).isSome = true
      · rw [if_pos hnew] at h
        exact .inl ⟨hnew, (EStateM.Result.ok.inj h).2.symm⟩
      · rw [if_neg hnew] at h
        cases hl : linkItem f x with
        | error e => rw [hl] at h; exact absurd h (by simp)
        | ok x' =>
            rw [hl] at h
            obtain ⟨_, g₁, h₁, h⟩ := Prog.bind_eq_ok h
            obtain rfl := (EStateM.Result.ok.inj h₁).2
            exact .inr ⟨n, x', by simpa using hnew, rfl, h⟩

/-- A block that was pushed is linked. -/
theorem pushItem_linked {n : Nat} {x : ForkItem Tx} (h : pushItem n x f = .ok () g) :
    (find g.index x.id).isSome = true := by
  rcases pushItem_ok h with ⟨hs, rfl⟩ | ⟨m, x', hnew, hl, hn⟩
  · exact hs
  · have hg : Grows _ g := (pushNext_grows (pushItem_grows m) (m + 1) _).of_ok hn
    have hnone := linkItem_find_none (by simp [hnew]) hl
    have hid : x'.id = x.id := by rw [ForkItem.id, ForkItem.id, (linkItem_data hl).2]
    rw [← hid]
    exact hg.find_isSome (find_isSome.mpr ⟨x', mem_insertUnique_self hnone, rfl⟩)

/-- Block `b` takes over from `h` as the head when it is linked. -/
def Overtakes (f : ForkDatabase Tx) (h : ForkItem Tx) (b : SignedBlock Tx) : Prop :=
  (find f.index b.id).isSome = false ∧
    (h.num < b.blockNum ∨ (b.blockNum = h.num ∧ b.id.lt h.id = true ∧ f.emergencyConsensusActive = true))

instance overtakesDecidable (f : ForkDatabase Tx) (h : ForkItem Tx) (b : SignedBlock Tx) :
    Decidable (Overtakes f h b) := inferInstanceAs (Decidable (_ ∧ _))

theorem Overtakes.pickHead {h x : ForkItem Tx} (ho : Overtakes f h x.data) (hh : f.head = some h) :
    pickHead f x = some x := by
  unfold ForkDatabase.pickHead
  rw [hh]
  dsimp only
  by_cases hlt : h.num < x.num
  · rw [if_pos hlt]
  · rw [if_neg hlt]
    rcases ho.2 with hc | hc
    · exact absurd hc hlt
    · exact if_pos hc

/-- **An insertion after which the head is no child of `H`**: it was none before, or the item takes
    over. -/
theorem pushItem_away {n : Nat} {x : ForkItem Tx} (h : pushItem n x f = .ok () g) (hprev : x.previousId ≠ H)
    (hid : x.id = H → (find f.index H).isSome = true) (hb : Barred H f)
    (hhead : ∀ h, f.head = some h → h.previousId = H → Overtakes f h x.data) : Away H g := by
  rcases pushItem_ok h with ⟨hs, rfl⟩ | ⟨m, x', hnew, hl, hn⟩
  · -- an old block changes nothing and overtakes nobody
    intro y hy hc
    have hold : (find g.index x.id).isSome = false := (hhead y hy hc).1
    rw [hs] at hold
    exact absurd hold (by simp)
  · have hdata : x'.data = x.data := (linkItem_data hl).2
    have hprev' : x'.previousId ≠ H := by
      rw [ForkItem.previousId, hdata]
      exact hprev
    have hid' : x'.id ≠ H := by
      intro hc
      have hxid : x.id = H := by rw [← hc, ForkItem.id, ForkItem.id, hdata]
      rw [hxid, hid hxid] at hnew
      exact absurd hnew (by simp)
    refine ((pushNext_staysAway hid' (pushItem_staysAway m) (m + 1) _).of_ok hn (barred_insert hb) ?_).2
    intro y hy hc
    rcases pickHead_cases f x' with hk | ⟨hk, -⟩
    · rw [hk] at hy
      rw [← Option.some.inj hy] at hc
      exact hprev' hc
    · rw [hk] at hy
      have hov : Overtakes f y x'.data := by
        rw [hdata]
        exact hhead y hy hc
      rw [hov.pickHead hy, hy] at hk
      rw [← Option.some.inj hk] at hc
      exact hprev' hc

/-- A push that returned is an insertion that returned. -/
theorem pushBlock_ok {b : SignedBlock Tx} {r : Option (ForkItem Tx)} (h : pushBlock b f = .ok r g) :
    ∃ n, pushItem n { ptr := f.nextPtr, data := b } { f with nextPtr := f.nextPtr + 1 } = .ok () g := by
  obtain ⟨item, f₁, hmk, h⟩ := Prog.bind_eq_ok h
  obtain ⟨rfl, rfl⟩ := EStateM.Result.ok.inj hmk
  obtain ⟨_, _, h₁, h⟩ := Prog.bind_eq_ok h
  obtain ⟨rfl, rfl⟩ := EStateM.Result.ok.inj h₁
  obtain ⟨_, g', hp, h⟩ := Prog.bind_eq_ok h
  obtain rfl : g' = g := (EStateM.Result.ok.inj h).2
  rcases Prog.tryCatch_eq_ok hp with hp | ⟨e, s, -, hp⟩
  · exact ⟨_, hp⟩
  · -- the handler always throws
    dsimp only at hp
    split at hp
    · obtain ⟨_, _, -, hp⟩ := Prog.bind_eq_ok hp
      exact absurd hp (by simp)
    · exact absurd hp (by simp)

/-- A block other than `H` and its children, pushed or cached. -/
theorem pushBlock_staysAway {b : SignedBlock Tx} (hprev : b.previous ≠ H) (hid : b.id ≠ H)
    (f : ForkDatabase Tx) : Prog.MovesAt (StaysAway H) (pushBlock b) f := by
  refine Prog.MovesAt.bind (R := StaysAway H) (fun hb ha => ⟨hb, ha⟩) fun item g hg => ?_
  obtain ⟨rfl, rfl⟩ := EStateM.Result.ok.inj hg
  refine Prog.MovesAt.get_bind (Prog.MovesAt.bind (R := StaysAway H) (Prog.MovesAt.tryCatch ?_ ?_) ?_)
  · exact pushItem_staysAway _ _ _ hprev fun hc => absurd hc hid
  · intro e g _
    dsimp only
    split
    · refine Prog.MovesAt.bind (R := StaysAway H) (Prog.MovesAt.modify fun hb ha => ⟨?_, ha⟩)
        fun _ _ _ => Prog.MovesAt.throw _ _
      rcases hb with hb | hb
      · exact .inl hb
      · right
        rw [Bool.eq_false_iff] at hb ⊢
        intro hs
        obtain ⟨y, hy, hyid⟩ := find_isSome.mp hs
        rcases mem_insertUnique hy with hy | rfl
        · exact hb (find_isSome.mpr ⟨y, hy, hyid⟩)
        · exact hid hyid
    · exact Prog.MovesAt.throw _ _
  · exact fun _ g _ => Prog.MovesAt.get_bind (Prog.MovesAt.pure _ _)

/-- **What a push that threw did**: its insertion threw, and a block that does not link was cached. -/
theorem pushBlock_error {b : SignedBlock Tx} {e : Exn} (h : pushBlock b f = .error e g) :
    ∃ n g', pushItem n { ptr := f.nextPtr, data := b } { f with nextPtr := f.nextPtr + 1 } = .error e g' ∧
      g = if e = .unlinkableBlock then
        { g' with unlinkedIndex := insertUnique g'.unlinkedIndex { ptr := f.nextPtr, data := b } } else g' := by
  rcases Prog.bind_eq_error h with h | ⟨item, f₁, hmk, h⟩
  · exact absurd (show EStateM.Result.ok _ _ = EStateM.Result.error e g from h) (by simp)
  obtain ⟨rfl, rfl⟩ := EStateM.Result.ok.inj hmk
  rcases Prog.bind_eq_error h with h | ⟨_, _, h₁, h⟩
  · exact absurd h (by simp)
  obtain ⟨rfl, rfl⟩ := EStateM.Result.ok.inj h₁
  rcases Prog.bind_eq_error h with h | ⟨_, _, -, h⟩
  · obtain ⟨e', g', hp, h⟩ := Prog.tryCatch_eq_error h
    dsimp only at h
    by_cases he : e' = .unlinkableBlock
    · rw [if_pos he] at h
      simp only [Prog.bind_run, Prog.modify_run, Prog.throw_run] at h
      obtain ⟨rfl, rfl⟩ := EStateM.Result.error.inj h
      exact ⟨_, g', hp, (if_pos he).symm⟩
    · rw [if_neg he] at h
      obtain ⟨rfl, rfl⟩ := EStateM.Result.error.inj h
      exact ⟨_, g', hp, (if_neg he).symm⟩
  · exact absurd h (by simp)

end ForkDatabase

/-! ## Side blocks -/

namespace Database

open Prog Relation UndoDb ForkDatabase

variable {Tx L : Type} {U : SignedBlock Tx → Prop} {base : BlockId} {db db' : Database Tx L}
  {b : SignedBlock Tx} {skip : Skip}

/-- **The choice tells `b` from an extension of the head.** Either it is one; or the applied head does not
    come in with `b`, and a fork database whose head is a child of the applied head gives way to `b`. -/
def KeepsApart (b : SignedBlock Tx) (db : Database Tx L) : Prop :=
  b.previous = db.headBlockId ∨
    (Barred db.headBlockId db.forkDb ∧
      (b.id = db.headBlockId → (find db.forkDb.index db.headBlockId).isSome = true) ∧
      ∀ h ∈ db.forkDb.head, h.previousId = db.headBlockId → Overtakes db.forkDb h b)

instance keepsApartDecidable (b : SignedBlock Tx) (db : Database Tx L) : Decidable (KeepsApart b db) :=
  inferInstanceAs (Decidable (_ ∨ _))

/-- The fork database only grows, and its head stays away from the children of the applied head. -/
def SeedsAway (db db' : Database Tx L) : Prop :=
  db'.chainbase = db.chainbase ∧ Grows db.forkDb db'.forkDb ∧
    StaysAway db.headBlockId db.forkDb db'.forkDb

instance seedsAwayPreorder : IsPreorder (Database Tx L) SeedsAway where
  refl db := ⟨rfl, refl_of Grows _, refl_of (StaysAway _) _⟩
  trans db db₁ db₂ h₁ h₂ := by
    have hid : db₁.headBlockId = db.headBlockId := by unfold headBlockId state; rw [h₁.1]
    refine ⟨h₂.1.trans h₁.1, trans_of Grows h₁.2.1 h₂.2.1, ?_⟩
    exact trans_of (StaysAway db.headBlockId) h₁.2.2 (hid ▸ h₂.2.2)

/-- A block at or below the head has a parent that is neither the head nor a child of it. -/
theorem low_parent (hU : Universe U) (hb : U b) (hwf : db.state.WellFormed U base)
    (hlow : b.blockNum ≤ db.headBlockNum) {p : SignedBlock Tx} (hp : U p) (hid : p.id = b.previous) :
    p.previous ≠ db.headBlockId ∧ p.id ≠ db.headBlockId := by
  have hbn := hU.num_eq hb
  have hpn := hU.num_eq hp
  have hnum : b.previous.num = p.blockNum := by rw [← hid]; rfl
  have hhead : db.headBlockNum = db.headBlockId.num := hwf.headNum
  constructor
  · intro hc
    rw [← hc] at hhead
    omega
  · intro hc
    rw [← hc] at hhead
    rw [SignedBlock.id_num] at hhead
    omega

theorem seedParent_seedsAway (hU : Universe U) (hb : U b) (hs : Sound U db)
    (hwf : db.state.WellFormed U base) (hlow : b.blockNum ≤ db.headBlockNum) :
    MovesAt SeedsAway (seedParent b) db := by
  refine MovesAt.get_bind ?_
  split
  · split
    · exact MovesAt.throw _ _
    · next p hp =>
        obtain ⟨hpU, hpid⟩ := hs.fetchBlockById hp
        obtain ⟨h₁, h₂⟩ := low_parent hU hb hwf hlow hpU hpid
        refine MovesAt.bind (MovesAt.tryCatch (MovesAt.zoom ?_) fun e x _ => ?_) fun _ _ _ => MovesAt.pure _ _
        · exact ⟨rfl, pushBlock_grows p _, pushBlock_staysAway h₁ h₂ _⟩
        · split
          · exact MovesAt.pure _ _
          · exact MovesAt.throw _ _
  · exact MovesAt.pure _ _

/-- A block at or below the head overtakes no child of the head. -/
theorem away_of_low (hU : Universe U) (hs : Sound U db) (hwf : db.state.WellFormed U base)
    (hlow : b.blockNum ≤ db.headBlockNum)
    (hhead : ∀ h ∈ db.forkDb.head, h.previousId = db.headBlockId → Overtakes db.forkDb h b) :
    Away db.headBlockId db.forkDb := by
  intro h hh hc
  have hn : h.num = db.headBlockNum + 1 := by
    have hnum := hU.num_eq (hs.linked.data h (mem_live_of_head hh))
    have hprev : h.data.previous = db.state.headBlockId := hc
    rw [hprev, ← hwf.headNum] at hnum
    exact hnum
  rcases (hhead h hh hc).2 with hlt | ⟨heq, -⟩
  · omega
  · omega

/-- **The screening of a side block** leaves the fork database alone, or with a head that is no child of
    the applied head. -/
theorem screenBlock_apart (hU : Universe U) (hb : U b) (hs : Sound U db) (hwf : db.state.WellFormed U base)
    (hprev : b.previous ≠ db.headBlockId) (hapart : KeepsApart b db) {expect : Bool}
    (h : screenBlock b db = .ok (.proceed expect) db') :
    SeedsAway db db' ∧
      (db' = db ∨ Barred db.headBlockId db'.forkDb ∧ Away db.headBlockId db'.forkDb) := by
  obtain ⟨hbar, -, hhead⟩ := hapart.resolve_left hprev
  simp only [screenBlock, get_bind_run] at h
  by_cases hlow : b.blockNum ≤ db.headBlockNum
  · rw [if_pos hlow] at h
    split at h
    · split at h
      · obtain ⟨_, _, -, h⟩ := bind_eq_ok h
        exact absurd (EStateM.Result.ok.inj h).1 (by simp)
      · exact absurd (EStateM.Result.ok.inj h).1 (by simp)
    · obtain ⟨_, x, hx, h⟩ := bind_eq_ok h
      obtain rfl := (EStateM.Result.ok.inj h).2
      have hm : SeedsAway db x := (seedParent_seedsAway hU hb hs hwf hlow).of_ok hx
      exact ⟨hm, .inr (hm.2.2 hbar (away_of_low hU hs hwf hlow hhead))⟩
  · rw [if_neg hlow] at h
    -- above the head nothing is touched
    have hsame : db' = db := by
      split at h
      · split at h
        · exact absurd (EStateM.Result.ok.inj h).1 (by simp)
        · exact (EStateM.Result.ok.inj h).2.symm
      · exact (EStateM.Result.ok.inj h).2.symm
    rw [hsame]
    exact ⟨refl_of SeedsAway db, .inl rfl⟩

/-- The head is put into the fork database for its extensions only. -/
theorem seedHead_side (hprev : b.previous ≠ db.headBlockId) : seedHead b db = .ok () db := by
  simp only [seedHead, get_bind_run]
  rw [if_neg (fun hc => hprev hc.1)]
  rfl

/-- A block was put into the fork database, whose head was returned. -/
theorem linkBlock_ok {expect : Bool} {newHead : ForkItem Tx}
    (h : linkBlock b expect db = .ok (some newHead) db') :
    ForkDatabase.pushBlock b db.forkDb = .ok (some newHead) db'.forkDb := by
  rcases tryCatch_eq_ok h with h | ⟨e, y, -, h⟩
  · exact (onForkDb_eq_ok h).1
  · split at h
    · exact absurd (EStateM.Result.ok.inj h).1 (by simp)
    · exact absurd h (by simp)

/-- **A side block is not applied directly**, when the choice tells it from an extension. -/
theorem planPush_apart (hU : Universe U) (hb : U b) (hs : Sound U db) (hwf : db.state.WellFormed U base)
    (hfork : skip.forkDb = false) (hprev : b.previous ≠ db.headBlockId) (hapart : KeepsApart b db) :
    planPush b skip db ≠ .ok .direct db' := by
  intro h
  obtain ⟨hbar, hid, hhead⟩ := hapart.resolve_left hprev
  obtain ⟨r, x, hx, h⟩ := bind_eq_ok h
  cases r with
  | done => exact absurd (EStateM.Result.ok.inj h).1 (by simp)
  | proceed expect =>
      obtain ⟨⟨hcb, hgrow, -⟩, haway⟩ := screenBlock_apart hU hb hs hwf hprev hapart hx
      have hhid : x.headBlockId = db.headBlockId := by unfold headBlockId state; rw [hcb]
      simp only [hfork, Bool.false_eq_true, if_false] at h
      obtain ⟨r, y, hy, h⟩ := bind_eq_ok h
      have hside : b.previous ≠ x.headBlockId := by rw [hhid]; exact hprev
      obtain ⟨_, _, hseed, hlink⟩ := bind_eq_ok hy
      obtain rfl := (EStateM.Result.ok.inj ((seedHead_side hside).symm.trans hseed)).2
      cases r with
      | none => exact absurd (EStateM.Result.ok.inj h).1 (by simp)
      | some newHead =>
          obtain ⟨hroute, rfl⟩ := EStateM.Result.ok.inj h
          have honly := (linkBlock_only b expect x).of_ok hlink
          obtain ⟨n, hpush⟩ := pushBlock_ok (linkBlock_ok hlink)
          -- whichever way the screening went, the head of the fork database ends up elsewhere
          have hend : Away db.headBlockId y.forkDb := by
            rcases haway with rfl | ⟨hbar', haway⟩
            · exact pushItem_away hpush hprev hid hbar hhead
            · refine pushItem_away hpush hprev (fun hc => hgrow.find_isSome (hid hc)) hbar' ?_
              intro h hh hc
              exact absurd hc (haway h hh)
          have hyid : y.headBlockId = db.headBlockId := by
            unfold headBlockId state
            rw [honly.chainbase, hcb]
          unfold chooseRoute at hroute
          rw [hyid, if_neg hprev, if_neg (hend newHead (linkBlock_head hlink))] at hroute
          split at hroute
          · exact absurd hroute (by simp)
          · exact absurd hroute (by simp)

/-! ### The call -/

/-- **What a push leaves**, apart from the pending transactions: the chain state and the fork database its
    stages left, and their answer. -/
theorem pushBlock_stages {env : Env Tx L} (hb : U b) (h : InOrder U base db) {a : Bool}
    (hr : pushBlock env b skip db = .ok a db') :
    ∃ y, pushBlockStages env b skip db.clearPending = .ok a y ∧ db'.forkDb = y.forkDb ∧
      db'.clearPending.state = y.state ∧ db'.clearPending.forkDb = y.forkDb := by
  obtain ⟨y, hy, -, hafter, ht⟩ := pushBlock_moving hb (stopsAt_never b skip db.clearPending) h.stored
  have hopen : PendingOpen (after (pushBlockStages env b skip) db.clearPending) := by
    intro hp
    rw [← hafter, hy.idle] at hp
    exact absurd hp (by simp)
  rw [after_ok hr] at ht
  have hstage : ∃ z, pushBlockStages env b skip db.clearPending = .ok a z := by
    obtain ⟨z, -, ⟨a', ⟨w, hw⟩, hz⟩ | ⟨e, -, hz⟩⟩ := pushBlock_run b skip hopen
    · rw [hr] at hz
      rw [(EStateM.Result.ok.inj hz).1]
      exact ⟨w, hw⟩
    · rw [hr] at hz
      exact absurd hz (by simp)
  obtain ⟨z, hz⟩ := hstage
  obtain rfl : y = z := hafter.trans (after_ok hz)
  have hfork : db'.forkDb = y.forkDb := (TxMoves.storage ht).forkDb
  refine ⟨y, hz, hfork, ?_, (clearPending_storage db').forkDb.trans hfork⟩
  -- the newest layer that blocks have made is the state of `y`
  have hlay : db'.clearPending.chainbase.layers = y.chainbase.layers := by
    have hopen' : PendingOpen db' := TxMoves.pendingOpen ht (by rw [hafter]; exact hopen)
    rw [clearPending_layers hopen', TxMoves.blockLayers ht]
    simp [blockLayers, hy.idle]
  exact (List.cons.inj hlay).1

/-- The screening turns the block away: it is on our chain already, or too far ahead. -/
def TurnedAway (b : SignedBlock Tx) (db : Database Tx L) : Prop :=
  (b.blockNum ≤ db.headBlockNum ∧ db.findBlockIdForNum b.blockNum = b.id) ∨
    db.headBlockNum + 100 < b.blockNum

instance turnedAwayDecidable (b : SignedBlock Tx) (db : Database Tx L) : Decidable (TurnedAway b db) :=
  inferInstanceAs (Decidable (_ ∨ _))

/-- A block with a linked parent passes the screening, and nothing is touched. -/
theorem screenBlock_linked (hparent : (find db.forkDb.index b.previous).isSome = true)
    (hturn : ¬ TurnedAway b db) : ∃ expect, screenBlock b db = .ok (.proceed expect) db := by
  simp only [screenBlock, get_bind_run]
  by_cases hlow : b.blockNum ≤ db.headBlockNum
  · rw [if_pos hlow, if_neg (fun hc => hturn (.inl ⟨hlow, hc⟩))]
    have hknown : db.forkDb.isKnownBlock b.previous = true := by simp [isKnownBlock, hparent]
    refine ⟨false, ?_⟩
    simp [seedParent, hknown, bind_run]
  · rw [if_neg hlow]
    split
    · rw [if_neg (fun hc => hturn (.inr (by omega)))]
      exact ⟨true, rfl⟩
    · exact ⟨false, rfl⟩

/-- A block with a linked parent was put into the fork database: it is linked, and the head is returned. -/
theorem linkBlock_linked {expect : Bool} (hparent : (find db.forkDb.index b.previous).isSome = true)
    {r : Option (ForkItem Tx)} (h : linkBlock b expect db = .ok r db') :
    r = db'.forkDb.head ∧ (find db'.forkDb.index b.id).isSome = true := by
  rcases tryCatch_eq_ok h with h | ⟨e, y, he, h⟩
  · have hpush := (onForkDb_eq_ok h).1
    obtain ⟨n, hn⟩ := pushBlock_ok hpush
    exact ⟨forkPush_head hpush, pushItem_linked hn⟩
  · -- only a block without a parent is expected not to link
    split at h
    · next hc =>
        exfalso
        unfold onForkDb zoom at he
        dsimp only at he
        cases hp : ForkDatabase.pushBlock b db.forkDb with
        | ok a g => rw [hp] at he; exact absurd he (by simp)
        | error e' g =>
            rw [hp] at he
            obtain ⟨n, g', hg', -⟩ := pushBlock_error hp
            rw [(EStateM.Result.error.inj he).1, hc.1] at hg'
            exact pushItem_ne_unlinkable n _ _ g' hparent hg'
    · exact absurd h (by simp)

/-- **The plan for a side block whose parent is linked**: the block is linked, and the route is chosen with
    the head of the fork database, if it has one. -/
theorem planPush_side (hfork : skip.forkDb = false) (hprev : b.previous ≠ db.headBlockId)
    (hparent : (find db.forkDb.index b.previous).isSome = true) (hturn : ¬ TurnedAway b db)
    {route : Route Tx} (h : planPush b skip db = .ok route db') :
    (find db'.forkDb.index b.id).isSome = true ∧
      ((db'.forkDb.head = none ∧ route = .keep) ∨
        ∃ newHead, db'.forkDb.head = some newHead ∧ route = db'.chooseRoute b newHead) := by
  obtain ⟨expect, hscreen⟩ := screenBlock_linked hparent hturn
  obtain ⟨r, x, hx, h⟩ := bind_eq_ok h
  rw [hscreen] at hx
  obtain ⟨rfl, rfl⟩ := EStateM.Result.ok.inj hx
  simp only [hfork, Bool.false_eq_true, if_false] at h
  obtain ⟨r, y, hy, h⟩ := bind_eq_ok h
  obtain ⟨_, z, hseed, hlink⟩ := bind_eq_ok hy
  obtain rfl := (EStateM.Result.ok.inj ((seedHead_side hprev).symm.trans hseed)).2
  obtain ⟨hr, hlinked⟩ := linkBlock_linked hparent hlink
  cases r with
  | none =>
      obtain ⟨rfl, rfl⟩ := EStateM.Result.ok.inj h
      exact ⟨hlinked, .inl ⟨hr.symm, rfl⟩⟩
  | some newHead =>
      obtain ⟨rfl, rfl⟩ := EStateM.Result.ok.inj h
      exact ⟨hlinked, .inr ⟨newHead, hr.symm, rfl⟩⟩

/-- **What a push owes a block** that meets the fork database. It is applied directly only onto its parent;
    a block that is put aside is answered with `false`, not with an exception, and the fork database stays
    as the insertion left it; and the insertion links every side block whose parent is linked, unless the
    screening turned it away. -/
structure PutAside (env : Env Tx L) (b : SignedBlock Tx) (skip : Skip) (db : Database Tx L) : Prop where
  direct : ∀ x, planPush b skip db.clearPending = .ok .direct x → b.previous = db.clearPending.headBlockId
  kept   : ∀ x, planPush b skip db.clearPending = .ok .keep x →
    ∃ db', pushBlock env b skip db = .ok false db' ∧ db'.forkDb = x.forkDb
  linked : b.previous ≠ db.clearPending.headBlockId → ¬ TurnedAway b db.clearPending →
    (find db.forkDb.index b.previous).isSome = true → ∀ route x, planPush b skip db.clearPending = .ok route x →
    (find x.forkDb.index b.id).isSome = true

/-- A push of a block that is put aside. -/
theorem pushBlock_keep {env : Env Tx L} (hb : U b) (h : InOrder U base db) {x : Database Tx L}
    (hplan : planPush b skip db.clearPending = .ok .keep x) :
    ∃ db', pushBlock env b skip db = .ok false db' ∧ db'.forkDb = x.forkDb := by
  have hstage : pushBlockStages env b skip db.clearPending = .ok false x := by
    rw [pushBlockStages, bind_run, hplan]
    rfl
  obtain ⟨y, hy, -, hafter, ht⟩ := pushBlock_moving hb (stopsAt_never b skip db.clearPending) h.stored
  obtain rfl : y = x := hafter.trans (after_ok hstage)
  have hopen : PendingOpen (after (pushBlockStages env b skip) db.clearPending) := by
    intro hp
    rw [← hafter, hy.idle] at hp
    exact absurd hp (by simp)
  obtain ⟨z, htz, ⟨a, ⟨w, hw⟩, hz⟩ | ⟨e, ⟨w, hw⟩, -⟩⟩ := pushBlock_run b skip hopen
  · rw [hstage] at hw
    obtain ⟨rfl, -⟩ := EStateM.Result.ok.inj hw
    refine ⟨z, hz, ?_⟩
    rw [← hafter] at htz
    exact (TxMoves.storage htz).forkDb
  · rw [hstage] at hw
    exact absurd hw (by simp)

/-- **A side block is put aside, in every state a run reaches** in which the choice can tell it from an
    extension of the head. -/
theorem side_block_put_aside {env : Env Tx L} (hU : Universe U) (h : InOrder U base db)
    {steps : List (Step Tx)} (hs : ∀ x ∈ steps, x.From U) (hb : U b) (hfork : skip.forkDb = false)
    (hapart : KeepsApart b (run env db steps).clearPending) : PutAside env b skip (run env db steps) := by
  have hrun : InOrder U base (run env db steps) := (run_inOrder hU hs h).1
  have hsound : Sound U (run env db steps).clearPending :=
    (hrun.stored.congr (clearPending_storage _)).sound
  have hwf : (run env db steps).clearPending.state.WellFormed U base :=
    (clearPending_advances _ hrun.layers).1.wellFormed
  refine ⟨fun x hx => ?_, fun x hx => pushBlock_keep hb hrun hx, ?_⟩
  · by_contra hprev
    exact planPush_apart hU hb hsound hwf hfork hprev hapart hx
  · intro hprev hturn hparent route x hx
    refine (planPush_side hfork hprev ?_ hturn hx).1
    rw [(clearPending_storage _).forkDb]
    exact hparent

end Database

namespace Sample

/-- A block on top of `b2` by a validator whose turn it is not, and a sibling of `b2`. -/
def early3 : SignedBlock Tx := block b2.id 9 1 30
def sibling2 : SignedBlock Tx := block block1.id 9 4 20

end Sample

namespace Database

open Sample Prog ForkDatabase

/-- **A sibling of the head is taken for an extension.** The block out of turn stays in the fork database
    as its head, a child of the applied head that is not applied; the sibling that arrives next is sent the
    direct way, refused for its parent and removed. -/
theorem side_block_refused :
    (push four [b2, early3]).headBlockId = b2.id ∧ sibling2.previous ≠ b2.id ∧
    (find (push four [b2, early3]).forkDb.index sibling2.previous).isSome = true ∧
    ¬ TurnedAway sibling2 (push four [b2, early3]).clearPending ∧
    returned (planPush sibling2 Skip.nothing) (push four [b2, early3]).clearPending = some .direct ∧
    thrown (pushBlock env sibling2 Skip.nothing) (push four [b2, early3]) =
      some (.assertion .previousId) ∧
    (find (push four [b2, early3, sibling2]).forkDb.index sibling2.id).isSome = false := by
  decide +kernel

/-- The same sibling, when the head of the fork database is the applied head. -/
theorem side_block_put_aside_sample :
    PutAside env sibling2 Skip.nothing (run env four [.block b2 Skip.nothing]) ∧
    (find (push four [b2, sibling2]).forkDb.index sibling2.id).isSome = true := by
  have hU : Universe (· ∈ [block1, b2, sibling2]) := Universe.of_list (by decide +kernel) (by decide +kernel)
  refine ⟨?_, by decide +kernel⟩
  exact side_block_put_aside hU (node_inOrder (by simp) (by decide) _) (by decide +kernel) (by simp) rfl
    (by decide +kernel)

end Database

/-! ## Preference -/

namespace Database

open Prog Relation UndoDb ForkDatabase

variable {Tx L : Type} {U : SignedBlock Tx → Prop} {base : BlockId} {db db' : Database Tx L}
  {b : SignedBlock Tx} {skip : Skip} {env : Env Tx L}

/-- The ticks of a block application leave the head where it is. -/
theorem BlockTick.headId (t : BlockTick env b db db') : db'.headBlockId = db.headBlockId := by
  cases t with
  | lib t =>
      unfold headBlockId ChainState.headBlockId
      rw [t.frame.1]
  | scheduled h => exact (Core.finishSchedule_head h).id
  | funded h => exact (Core.finishLedger_head h).id
  | removed o => rfl
  | mode active => rfl
  | created => rfl
  | completed => rfl

theorem BlockTicks.headId (t : BlockTicks env b db db') : db'.headBlockId = db.headBlockId := by
  induction t with
  | refl => rfl
  | tail _ t ih => exact t.headId.trans ih

/-- An applied block is the head. -/
theorem applyInSession_headId (h : applyInSession env b skip db = .ok () db') : db'.headBlockId = b.id := by
  rcases applyInSession_cases env b skip db with
    ⟨e, he⟩ | ⟨skip', c, x, -, hc, ht, ⟨-, hr⟩ | ⟨e, -, hr⟩⟩
  · exact absurd (he.symm.trans h) (by simp)
  · obtain rfl := (EStateM.Result.ok.inj (hr.symm.trans h)).2
    rw [BlockTicks.headId ht]
    unfold headBlockId state
    rw [(entered_chainbase b skip' c db.startUndoSession).1]
    exact (Core.beginBlock_head hc).2.1
  · exact absurd (hr.symm.trans h) (by simp)

theorem applyRelaxing_headId {r : Bool} (h : applyRelaxing env b skip db = .ok (.applied r) db') :
    db'.headBlockId = b.id := by
  rcases tryCatch_eq_ok h with h | ⟨e, x, -, h⟩
  · obtain ⟨⟨⟩, y, hy, h⟩ := bind_eq_ok h
    obtain rfl := (EStateM.Result.ok.inj h).2
    exact applyInSession_headId hy
  · split at h
    · rcases tryCatch_eq_ok h with h | ⟨e₂, y, -, h⟩
      · obtain ⟨⟨⟩, z, hz, h⟩ := bind_eq_ok h
        obtain rfl := (EStateM.Result.ok.inj h).2
        exact applyInSession_headId hz
      · exact absurd (EStateM.Result.ok.inj h).1 (by simp)
    · exact absurd (EStateM.Result.ok.inj h).1 (by simp)

/-- A branch that was applied as a whole ends in its last block. -/
theorem applyBranch_headId {recover : DbM Tx L Unit} {xs : List (ForkItem Tx)} {relaxed r : Bool}
    (h : applyBranch env skip recover xs relaxed db = .ok (true, r) db') :
    db'.headBlockId = (xs.getLast?.map (·.id)).getD db.headBlockId := by
  induction xs generalizing relaxed db with
  | nil =>
      rw [← (EStateM.Result.ok.inj h).2]
      rfl
  | cons x xs ih =>
      obtain ⟨o, y, hy, h⟩ := bind_eq_ok h
      cases o with
      | applied r' =>
          rw [ih h, applyRelaxing_headId hy]
          cases xs with
          | nil => rfl
          | cons z zs =>
              rw [List.getLast?_cons_cons, List.getLast?_eq_some_getLast (List.cons_ne_nil z zs)]
              rfl
      | failed e =>
          obtain ⟨_, _, -, h⟩ := bind_eq_ok h
          obtain ⟨_, _, -, h⟩ := bind_eq_ok h
          exact absurd (Prod.mk.inj (EStateM.Result.ok.inj h).1).1 (by simp)

/-- The last block a switch applies is the tip it switches to; without a block to apply the tip is the
    head already. -/
theorem switch_tip {f : ForkDatabase Tx} {a id : BlockId} {first second : List (ForkItem Tx)}
    (ancestor : ForkItem Tx) (hf : Forked f a id first second) :
    (∃ x, first.reverse.getLast? = some x ∧ x.id = a) ∧
      (first.getLast?.map (·.id) = some ancestor.id → ancestor.id = id →
        ((first.reverse.filter (fun x => decide (x.id ≠ ancestor.id))).getLast?.map (·.id)).getD id = a) := by
  obtain ⟨x, hx⟩ := Option.isSome_iff_exists.mp (List.isSome_head?.mpr hf.neA)
  have hxa : x.id = a := by
    have htip := hf.tipA
    rw [hx] at htip
    exact (find_mem htip.symm).2
  refine ⟨⟨x, by rw [List.getLast?_reverse]; exact hx, hxa⟩, ?_⟩
  intro hanc hid
  obtain ⟨rest, rfl⟩ : ∃ rest, first = x :: rest := by
    cases first with
    | nil => exact absurd hx (by simp)
    | cons y ys => exact ⟨ys, by rw [Option.some.inj hx]⟩
  by_cases hxid : x.id = ancestor.id
  · -- the tip is the head: the branch has one block, which is not applied again
    have hlen := hf.lenA
    have hnum : ((x :: rest).getLast hf.neA).num = a.num := by
      rw [List.getLast?_eq_some_getLast hf.neA] at hanc
      have hida := Option.some.inj hanc
      rw [← hxid, hxa] at hida
      exact congrArg BlockId.num hida
    rw [hnum, List.length_cons] at hlen
    have hnil : rest = [] := List.eq_nil_of_length_eq_zero (by omega)
    subst hnil
    simp [hxid, ← hid, ← hxa]
  · have hkeep : [x].filter (fun x => decide (x.id ≠ ancestor.id)) = [x] := by simp [hxid]
    rw [List.reverse_cons, List.filter_append, hkeep, List.getLast?_concat]
    exact hxa

theorem finishSwitch_head {newHead : ForkItem Tx} {correct : Bool}
    (h : finishSwitch newHead correct db = .ok () db') :
    db'.headBlockId = db.headBlockId ∧ db'.forkDb.head = some newHead := by
  unfold finishSwitch at h
  dsimp only at h
  split at h
  · obtain ⟨_, x, hx, h⟩ := bind_eq_ok h
    obtain rfl := (EStateM.Result.ok.inj hx).2
    obtain rfl := (EStateM.Result.ok.inj h).2
    exact ⟨rfl, rfl⟩
  · obtain rfl := (EStateM.Result.ok.inj h).2
    exact ⟨rfl, rfl⟩

/-- What a linear extension is. -/
theorem isLinearExtension_ends {first second : List (ForkItem Tx)} {ancestor : ForkItem Tx}
    (h : db.isLinearExtension first second = true) (hlast : second.getLast? = some ancestor) :
    ancestor.id = db.headBlockId ∧ first.getLast?.map (·.id) = some ancestor.id := by
  unfold isLinearExtension at h
  split at h
  · next x =>
      obtain rfl : x = ancestor := by simpa using hlast
      simpa using h
  · exact absurd h (by simp)

/-- The body of a switch that succeeded. -/
theorem runSwitch_head {newHead ancestor : ForkItem Tx} {first second : List (ForkItem Tx)}
    (hlast : second.getLast? = some ancestor)
    (h : runSwitch env skip newHead first second ancestor db = .ok true db')
    (htip : ∃ x, first.reverse.getLast? = some x ∧ x.id = newHead.id)
    (hlinear : first.getLast?.map (·.id) = some ancestor.id → ancestor.id = db.headBlockId →
      ((first.reverse.filter (fun x => decide (x.id ≠ ancestor.id))).getLast?.map (·.id)).getD
        db.headBlockId = newHead.id) :
    db'.headBlockId = newHead.id ∧ db'.forkDb.head = some newHead := by
  obtain ⟨x, hx, hxid⟩ := htip
  -- both kinds of switch end in the same way
  have hend : ∀ {d : Database Tx L} {p : Bool × Bool} {c : Bool} {u : Database Tx L},
      u.headBlockId = newHead.id → (do
        if p.1 = true then finishSwitch newHead c
        return p.1 : DbM Tx L Bool) u = .ok true d → d.headBlockId = newHead.id ∧ d.forkDb.head = some newHead := by
    intro d p c u hu hd
    obtain ⟨p₁, p₂⟩ := p
    cases p₁ with
    | false => exact absurd (EStateM.Result.ok.inj hd).1 (by simp)
    | true =>
        obtain ⟨_, v, hv, hd⟩ := bind_eq_ok hd
        obtain rfl := (EStateM.Result.ok.inj hd).2
        obtain ⟨hid, hhead⟩ := finishSwitch_head hv
        exact ⟨hid.trans hu, hhead⟩
  have happlied : ∀ {recover : DbM Tx L Unit} {xs : List (ForkItem Tx)} {d u : Database Tx L} {c : Bool → Bool},
      (xs.getLast?.map (·.id)).getD d.headBlockId = newHead.id → (do
        let p ← applyBranch env skip recover xs false
        if p.1 = true then finishSwitch newHead (c p.2)
        return p.1 : DbM Tx L Bool) d = .ok true u → u.headBlockId = newHead.id ∧ u.forkDb.head = some newHead := by
    intro recover xs d u c hxs hu
    obtain ⟨⟨p₁, p₂⟩, v, hv, hu⟩ := bind_eq_ok hu
    cases p₁ with
    | false => exact absurd (EStateM.Result.ok.inj hu).1 (by simp)
    | true => exact hend (by rw [applyBranch_headId hv]; exact hxs) hu
  simp only [runSwitch, get_bind_run] at h
  cases hlin : db.isLinearExtension first second with
  | true =>
      rw [hlin] at h
      simp only [Bool.not_true, Bool.false_eq_true, if_false, if_true] at h
      obtain ⟨hanc, hfirst⟩ := isLinearExtension_ends hlin hlast
      exact happlied (c := (· && true)) (hlinear hfirst hanc) h
  | false =>
      rw [hlin] at h
      simp only [Bool.not_false, Bool.false_eq_true, if_false, if_true] at h
      obtain ⟨_, d, -, h⟩ := bind_eq_ok h
      refine happlied (c := (· && false)) ?_ h
      rw [hx]
      exact hxid

/-- A run that returned while items were held. -/
theorem holding_eq_ok {α : Type} {xs : List (ForkItem Tx)} {m : DbM Tx L α} {a : α}
    (h : holding xs m db = .ok a db') :
    ∃ y, m (db.modifyForkDb fun f => { f with held := xs }) = .ok a y ∧
      db' = y.modifyForkDb fun f => { f with held := [] } := by
  obtain ⟨_, d, hd, h⟩ := bind_eq_ok h
  obtain rfl := (EStateM.Result.ok.inj hd).2
  obtain ⟨a', y, hy, h⟩ := bind_eq_ok h
  obtain ⟨_, z, hz, h⟩ := bind_eq_ok h
  obtain ⟨rfl, rfl⟩ := EStateM.Result.ok.inj h
  refine ⟨y, ?_, (EStateM.Result.ok.inj hz).2.symm⟩
  rcases tryCatch_eq_ok hy with hy | ⟨e, w, -, hy⟩
  · exact hy
  · obtain ⟨_, _, -, hy⟩ := bind_eq_ok hy
    exact absurd hy (by simp)

/-- **A switch that succeeded** has moved both heads to its tip. -/
theorem switchForks_head (hlink : Linked U db.forkDb) {newHead : ForkItem Tx}
    (h : switchForks env skip newHead db = .ok true db') :
    db'.headBlockId = newHead.id ∧ db'.forkDb.head = some newHead := by
  simp only [switchForks, get_bind_run] at h
  by_cases hknown : (!db.forkDb.isKnownBlock db.headBlockId) = true
  · rw [if_pos hknown] at h
    obtain ⟨_, _, -, h⟩ := bind_eq_ok h
    exact absurd h (by simp)
  rw [if_neg hknown] at h
  cases hr : db.forkDb.fetchBranchFrom newHead.id db.headBlockId with
  | error e =>
      rw [hr] at h
      obtain ⟨_, _, -, h⟩ := bind_eq_ok h
      exact absurd h (by simp)
  | ok r =>
  obtain ⟨first, second⟩ := r
  rw [hr] at h
  dsimp only at h
  cases hlast : second.getLast? with
  | none => rw [hlast] at h; exact absurd h (by simp)
  | some ancestor =>
      rw [hlast] at h
      obtain ⟨⟨x, hx, hxid⟩, hlinear⟩ := switch_tip ancestor (fetchBranchFrom_ok hlink hr)
      obtain ⟨y, hy, rfl⟩ := holding_eq_ok h
      show y.headBlockId = newHead.id ∧ y.forkDb.head = some newHead
      exact runSwitch_head hlast hy ⟨x, hx, hxid⟩ hlinear

theorem compareForkBranches_self (hlink : Linked U db.forkDb) (a : BlockId) :
    db.compareForkBranches a a = 0 := by
  have hswap := compareForkBranches_swap hlink a a
  omega

/-- What the fork choice saw: after HF12, a head of the fork database at least as high as ours that is not
    switched to is not preferred. -/
theorem compare_le_of_keep {newHead : ForkItem Tx} (hfork : db.state.core.hasHardfork 12 = true)
    (h : db.chooseRoute b newHead = .keep) (hnum : db.headBlockNum ≤ newHead.num) :
    db.compareForkBranches newHead.id db.headBlockId ≤ 0 := by
  by_contra hpos
  have hgt : 0 < db.compareForkBranches newHead.id db.headBlockId := by omega
  have hknown : db.forkDb.isKnownBlock db.headBlockId = true := by
    by_contra hc
    unfold compareForkBranches at hgt
    rw [if_pos (by simp [hc])] at hgt
    exact absurd hgt (by simp)
  have hswitch : db.shouldSwitch newHead = true := by
    unfold shouldSwitch
    rw [if_pos hfork, if_pos ⟨hnum, hknown⟩]
    simp [hgt]
  unfold chooseRoute at h
  rw [if_pos hswitch] at h
  split at h
  · exact absurd h (by simp)
  · split at h
    · exact absurd h (by simp)
    · exact absurd h (by simp)

/-- **The head of the fork database is not preferred** after a push of a side block that got as far as the
    fork choice: its parent is linked, the screening does not turn it away, the choice can tell it from an
    extension of the head, and a switch that was tried succeeded. The preference is that of the chain state
    without pending transactions. -/
theorem head_not_outweighed (hU : Universe U) (h : InOrder U base db) {steps : List (Step Tx)}
    (hs : ∀ x ∈ steps, x.From U) (hb : U b) (hfork : skip.forkDb = false)
    (hhf : (run env db steps).clearPending.state.core.hasHardfork 12 = true)
    (hparent : (find (run env db steps).forkDb.index b.previous).isSome = true)
    (hside : b.previous ≠ (run env db steps).clearPending.headBlockId)
    (hturn : ¬ TurnedAway b (run env db steps).clearPending)
    (hapart : KeepsApart b (run env db steps).clearPending) {a : Bool}
    (hr : pushBlock env b skip (run env db steps) = .ok a db')
    (hswitch : ∀ x newHead, planPush b skip (run env db steps).clearPending = .ok (.switchTo newHead) x →
      a = true) :
    ∀ t, db'.forkDb.head = some t → db'.clearPending.headBlockNum ≤ t.num →
      db'.clearPending.compareForkBranches t.id db'.clearPending.headBlockId ≤ 0 := by
  have hrun : InOrder U base (run env db steps) := (run_inOrder hU hs h).1
  have hsound : Sound U (run env db steps).clearPending :=
    (hrun.stored.congr (clearPending_storage _)).sound
  have hwf : (run env db steps).clearPending.state.WellFormed U base :=
    (clearPending_advances _ hrun.layers).1.wellFormed
  have hstored : Stored U db' := by
    have hstep : Stored U (step env (run env db steps) (.block b skip)) := step_stored _ hb hrun.stored
    rwa [step, after_ok hr] at hstep
  obtain ⟨y, hy, hf, hstate, hf'⟩ := pushBlock_stages hb hrun hr
  intro t ht hnum
  rw [hf] at ht
  have hcmp : db'.clearPending.compareForkBranches t.id db'.clearPending.headBlockId =
      y.compareForkBranches t.id y.headBlockId := by
    unfold compareForkBranches headBlockId
    rw [hf', hstate]
  rw [hcmp]
  have hnum : y.headBlockNum ≤ t.num := by
    unfold headBlockNum at hnum ⊢
    rwa [hstate] at hnum
  obtain ⟨route, x, hx, hroute⟩ := bind_eq_ok hy
  have honly := (planPush_only b skip _).of_ok hx
  have hparent' : (find (run env db steps).clearPending.forkDb.index b.previous).isSome = true := by
    rw [(clearPending_storage _).forkDb]
    exact hparent
  cases route with
  | direct => exact absurd hx (planPush_apart hU hb hsound hwf hfork hside hapart)
  | switchTo newHead =>
      obtain rfl := hswitch x newHead hx
      have hlinkx : Linked U x.forkDb := by
        have hm : Moving env U (fun _ => False) [] _ x := (planPush_moving hb skip _).of_ok hx
        exact (hm hrun.stored.pushing).1.sound.linked
      obtain ⟨hid, hhead⟩ := switchForks_head hlinkx hroute
      have ht' : t = newHead := by
        rw [hhead] at ht
        exact (Option.some.inj ht).symm
      rw [ht', hid]
      have hlinky : Linked U y.forkDb := hf ▸ hstored.sound.linked
      exact (compareForkBranches_self hlinky newHead.id).le
  | keep =>
      obtain rfl := (EStateM.Result.ok.inj hroute).2
      rcases (planPush_side hfork hside hparent' hturn hx).2 with ⟨hnone, -⟩ | ⟨newHead, hhead, hkeep⟩
      · rw [hnone] at ht
        exact absurd ht (by simp)
      · rw [hhead] at ht
        obtain rfl := Option.some.inj ht
        refine compare_le_of_keep ?_ hkeep.symm hnum
        unfold state at hhf ⊢
        rw [honly.chainbase]
        exact hhf

end Database

namespace Sample

/-- A third block that moves votes to the second validator. -/
def vote3 : SignedBlock Tx := block b2.id 9 4 3 [[.adjustVote 2 1000]]

/-- The two light blocks arrive while the same votes are pending. -/
def pendingVote : Database Tx Unit :=
  Database.run { env with pendingLimit := 1 } four [.block b2 Skip.nothing,
    .transaction [.adjustVote 2 1000] Skip.nothing, .block f2 Skip.nothing, .block f3 Skip.nothing]

/-- The second of the two light blocks arrives. -/
def lighterKept : Database Tx Unit :=
  Prog.after (Database.pushBlock env f3 Skip.nothing) (Database.run env four (blocks [b2, f2]))

end Sample

namespace Database

open Sample ForkDatabase

/-- **A heavier branch can be passed over.** A sibling of the head with more votes is never compared, for
    the fork database keeps the block it saw first; an extension of the head is applied without a
    comparison, though its votes may make the other branch the heavier one, and coming again it is turned
    away; and pending transactions are put back behind the comparison. -/
theorem heavier_branch_passed_over :
    ((push four [b2, sibling2]).headBlockId = b2.id ∧
      0 < (push four [b2, sibling2]).compareForkBranches sibling2.id b2.id) ∧
    ((push four [b2, f2, f3, vote3]).headBlockId = vote3.id ∧
      0 < (push four [b2, f2, f3, vote3]).compareForkBranches f3.id vote3.id) ∧
    ((push four [b2, f2, f3, vote3, vote3]).headBlockId = vote3.id ∧
      0 < (push four [b2, f2, f3, vote3, vote3]).compareForkBranches f3.id vote3.id) ∧
    (pendingVote.headBlockId = b2.id ∧ 0 < pendingVote.compareForkBranches f3.id b2.id) := by
  refine ⟨⟨by decide +kernel, by decide +kernel⟩, ⟨by decide +kernel, by decide +kernel⟩,
    ⟨by decide +kernel, by decide +kernel⟩, by decide +kernel, by decide +kernel⟩

/-- A longer branch that is lighter is left alone. -/
theorem head_not_outweighed_sample :
    lighterKept.forkDb.head.map (·.id) = some f3.id ∧
    lighterKept.clearPending.compareForkBranches f3.id lighterKept.clearPending.headBlockId ≤ 0 := by
  have hU : Universe (· ∈ [block1, b2, f2, f3]) := Universe.of_list (by decide +kernel) (by decide +kernel)
  have hr : pushBlock env f3 Skip.nothing (run env four (blocks [b2, f2])) = .ok false lighterKept :=
    Prog.eq_ok_of_returned (by decide +kernel)
  have hplan : Prog.returned (planPush f3 Skip.nothing) (run env four (blocks [b2, f2])).clearPending =
      some .keep := by decide +kernel
  have hhead : lighterKept.forkDb.head.map (·.id) = some f3.id := by decide +kernel
  obtain ⟨t, ht, hid⟩ := Option.map_eq_some_iff.mp hhead
  have hnum : lighterKept.clearPending.headBlockNum ≤ f3.id.num := by decide +kernel
  rw [← hid] at hnum ⊢
  refine ⟨hhead.trans (congrArg some hid.symm), ?_⟩
  have hstart : InOrder (· ∈ [block1, b2, f2, f3]) block1.id four := node_inOrder (by simp) (by decide) _
  refine head_not_outweighed hU hstart ?_ ?_ rfl ?_ ?_ ?_ ?_ ?_ hr ?_ t ht hnum
  · decide +kernel
  · simp
  · decide +kernel
  · decide +kernel
  · decide +kernel
  · decide +kernel
  · decide +kernel
  · intro x newHead hx
    rw [Prog.returned, hx] at hplan
    exact absurd hplan (by simp)

end Database

end VizNode
