import VizNode.Chain.Cascade
import VizNode.ForkDatabase.Tips

/-!
# `VizNode.Chain.ForkHead` — is the head of the fork database a linked block?

A push inserts a block into the fork database, applies it or switches to its branch, and takes blocks out
again that were refused. `remove` forgets a block without a look at the head, and the recoveries set the head
without a look at the index.

**What holds by design.** `Tended`, a push under way with the fork database in shape, is kept by everything a
push does, except at the places listed in `KeepsTip`: a refused block that is the head, a head that is pruned
as a dead fork, a switch that ends before its first pop, and a recovery that throws or puts back a head the
window has dropped. A block refused for its schedule stays in the fork database on purpose and may be its head.

## Contents
- **Keeping the shape**, stage by stage.
- **The conditions.** `KeepsTip`, and `Refused`, the blocks a push was refused.
- **Runs** of pushes and pops.
-/

namespace VizNode

namespace Database

open Prog ForkDatabase

variable {Tx L : Type} {U : SignedBlock Tx → Prop} {env : Env Tx L} {skip : Skip} {b : SignedBlock Tx}
  {db db' : Database Tx L} {items : List (ForkItem Tx)}

/-- **A push is under way, and the fork database is in shape.** -/
structure Tended (U : SignedBlock Tx → Prop) (items : List (ForkItem Tx)) (db : Database Tx L) : Prop where
  pushing : Pushing U items db
  shape   : InShape U db.forkDb

/-- A program of the node that keeps it so. -/
abbrev KeepsTended (U : SignedBlock Tx → Prop) (items : List (ForkItem Tx)) {α : Type} (m : DbM Tx L α)
    (db : Database Tx L) : Prop := MovesAt (Keeps (Tended U items)) m db

/-! ## The plan -/

theorem tended_forkDb {f : ForkDatabase Tx} (h : Tended U items db) (hs : InShape U f) (hh : f.held = items) :
    Tended U items { db with forkDb := f } :=
  ⟨⟨⟨hs.linked, h.pushing.sound.log, h.pushing.sound.dltLog⟩, hh, h.pushing.idle⟩, hs⟩

theorem onForkDb_tended {α : Type} {m : ForkDatabase.M Tx α} (hs : KeepsShape U m db.forkDb)
    (hh : db.forkDb.held = items → (after m db.forkDb).held = items) : KeepsTended U items (onForkDb m) db :=
  MovesAt.zoom fun h => tended_forkDb h (hs h.shape) (hh h.pushing.held)

theorem forkPush_held (p : SignedBlock Tx) (f : ForkDatabase Tx) :
    (after (ForkDatabase.pushBlock p) f).held = f.held := (pushBlock_grows p f : Grows _ _).2

theorem seedParent_tended (db : Database Tx L) : KeepsTended U [] (seedParent b) db := by
  refine MovesAt.get_bind ?_
  split
  · split
    · exact MovesAt.throw _ _
    · next p hp =>
        intro h
        have hU := (h.pushing.sound.fetchBlockById hp).1
        refine MovesAt.bind (R := Keeps (Tended U [])) (MovesAt.tryCatch ?_ fun e x _ => ?_)
          (fun _ _ _ => MovesAt.pure _ _) h
        · exact onForkDb_tended (pushBlock_keepsShape hU _) fun hh => (forkPush_held p _).trans hh
        · split
          · exact MovesAt.pure _ _
          · exact MovesAt.throw _ _
  · exact MovesAt.pure _ _

theorem screenBlock_tended (hb : U b) (db : Database Tx L) : KeepsTended U [] (screenBlock b) db := by
  refine MovesAt.get_bind ?_
  split
  · split
    · dsimp only
      split
      · refine MovesAt.bind (onForkDb_tended (insertAsBase_keepsShape hb _) ?_) fun _ _ _ => MovesAt.pure _ _
        exact insertAsBase_held b _
      · exact MovesAt.pure _ _
    · exact MovesAt.bind (seedParent_tended db) fun _ _ _ => MovesAt.pure _ _
  · split
    · split <;> exact MovesAt.pure _ _
    · exact MovesAt.pure _ _

theorem find_of_unknown {f : ForkDatabase Tx} {id : BlockId} (h : f.isKnownBlock id = false) :
    find f.index id = none := by
  unfold isKnownBlock at h
  simpa using (Bool.or_eq_false_iff.mp h).1

theorem seedHead_tended (b : SignedBlock Tx) (db : Database Tx L) : KeepsTended U [] (seedHead b) db := by
  refine MovesAt.get_bind ?_
  split
  · next hc =>
      split
      · exact MovesAt.pure _ _
      · next c hc' =>
          intro h
          obtain ⟨hU, hid⟩ := h.pushing.sound.fetchBlockById hc'
          refine onForkDb_tended (startBlock_keepsShape hU ?_) id h
          rw [hid]
          exact find_of_unknown (by simpa using hc.2)
  · exact MovesAt.pure _ _

theorem linkBlock_tended (hb : U b) (expect : Bool) (db : Database Tx L) :
    KeepsTended U [] (linkBlock b expect) db := by
  refine MovesAt.tryCatch ?_ fun e y _ => ?_
  · exact onForkDb_tended (pushBlock_keepsShape hb _) fun hh => (forkPush_held b _).trans hh
  · split
    · exact MovesAt.pure _ _
    · exact MovesAt.throw _ _

theorem planPush_tended (hb : U b) (skip : Skip) (db : Database Tx L) : KeepsTended U [] (planPush b skip) db := by
  refine MovesAt.bind (screenBlock_tended hb db) fun r x _ => ?_
  cases r with
  | done => exact MovesAt.pure _ _
  | proceed expect =>
      dsimp only
      split
      · exact MovesAt.pure _ _
      · refine MovesAt.bind (MovesAt.bind (seedHead_tended b x) fun _ y _ => linkBlock_tended hb expect y)
          fun r y _ => ?_
        cases r with
        | none => exact MovesAt.pure _ _
        | some newHead => exact MovesAt.get_bind (MovesAt.pure _ _)

/-! ## Applying and popping -/

/-- **What a block application does to the fork database**: it may set the mode and trim the window. -/
abbrev Trims (db db' : Database Tx L) : Prop := Trimmed db.forkDb db'.forkDb

instance trimsPreorder : IsPreorder (Database Tx L) Trims where
  refl _ := refl_of Trimmed _
  trans _ _ _ h₁ h₂ := trans_of Trimmed h₁ h₂

theorem LibTick.trims (t : LibTick db db') : Trims db db' := by
  cases t with
  | supported _ =>
      unfold raiseSupported
      split <;> exact refl_of Trimmed _
  | written hw =>
      have hfork : db'.forkDb = db.forkDb := hw.forkDb
      unfold Trims
      rw [hfork]
      exact refl_of Trimmed _
  | trimmed => exact setMaxSize_trimmed _ _
  | _ => exact refl_of Trimmed _

theorem BlockTick.trims (t : BlockTick env b db db') : Trims db db' := by
  cases t with
  | lib t => exact t.trims
  | mode active => exact setEmergencyMode_trimmed active _
  | _ => exact refl_of Trimmed _

theorem BlockTicks.trims (t : BlockTicks env b db db') : Trims db db' := by
  induction t with
  | refl => exact refl_of Trims _
  | tail _ t ih => exact trans_of Trims ih t.trims

theorem entered_trims (b : SignedBlock Tx) (skip : Skip) (c : Core L) (db : Database Tx L) :
    Trims db (db.startUndoSession.entered b skip c) := by
  unfold Database.entered notifyEmergency
  split
  · exact refl_of Trimmed _
  · exact setEmergencyMode_trimmed _ _

theorem applyInSession_trims (b : SignedBlock Tx) (skip : Skip) (db : Database Tx L) :
    MovesAt Trims (applyInSession env b skip) db := by
  rcases applyInSession_cases env b skip db with
    ⟨e, he⟩ | ⟨skip', c, x, -, -, ht, ⟨-, hr⟩ | ⟨e, -, hr⟩⟩
  · show Trims db (after _ db)
    rw [after_error he]
    exact refl_of Trims _
  · show Trims db (after _ db)
    rw [after_ok hr]
    exact trans_of Trims (entered_trims b skip' c db) (BlockTicks.trims ht)
  · show Trims db (after _ db)
    rw [after_error hr]
    have hx : Trims db x := trans_of Trims (entered_trims b skip' c db) (BlockTicks.trims ht)
    exact hx

theorem applyInSession_tended (b : SignedBlock Tx) (skip : Skip) (db : Database Tx L) :
    KeepsTended U items (applyInSession env b skip) db := fun h =>
  ⟨applyInSession_pushing b skip db h.pushing, h.shape.trimmed (applyInSession_trims b skip db)⟩

theorem applyCascade_tended (skip : Skip) (xs : List (ForkItem Tx)) (db : Database Tx L) :
    KeepsTended U items (applyCascade env skip xs) db := by
  induction xs generalizing db with
  | nil => exact MovesAt.pure _ _
  | cons x xs ih =>
      refine MovesAt.get_bind ?_
      dsimp only
      split
      · exact MovesAt.bind (applyInSession_tended x.data skip db) fun _ y _ => ih y
      · exact ih db

/-- The callers hold linked items only. -/
structure Clean (U : SignedBlock Tx → Prop) (items : List (ForkItem Tx)) (db : Database Tx L) : Prop where
  tended : Tended U items db
  linked : ∀ x ∈ items, x ∈ db.forkDb.index

theorem forkPop_cases (f : ForkDatabase Tx) :
    (∃ e, (ForkDatabase.popBlock : ForkDatabase.M Tx Unit) f = .error e f) ∨
    ∃ h p, f.head = some h ∧ f.lock h.prev = some p ∧ ForkDatabase.popBlock f = .ok () (f.setHead p) := by
  simp only [ForkDatabase.popBlock, get_bind_run]
  cases hh : f.head with
  | none => exact .inl ⟨_, rfl⟩
  | some h =>
      cases hp : f.lock h.prev with
      | none => exact .inl ⟨.assertion .forkDbLastBlock, by simp [hp]⟩
      | some p => exact .inr ⟨h, p, rfl, hp, by simp [hp]⟩

/-- **What a pop does to the fork database**: nothing when it throws, else the head moves to its parent. -/
theorem popBlock_fork (db : Database Tx L) :
    (∃ e x, popBlock db = .error e x ∧ x.forkDb = db.forkDb) ∨
    ∃ x h p, popBlock db = .ok () x ∧ db.forkDb.head = some h ∧ db.forkDb.lock h.prev = some p ∧
      x.forkDb = db.forkDb.setHead p := by
  have hreset : db.resetPendingSession.forkDb = db.forkDb := by
    unfold resetPendingSession
    split <;> rfl
  cases hblk : db.resetPendingSession.fetchBlockById db.resetPendingSession.headBlockId with
  | none =>
      refine .inl ⟨.popEmptyChain, db.resetPendingSession, ?_, hreset⟩
      simp only [popBlock, bind_run, modify_run, get_run, hblk, throw_run]
  | some blk =>
      rcases forkPop_cases db.forkDb with ⟨e, he⟩ | ⟨h, p, hh, hp, hr⟩
      · refine .inl ⟨e, { db.resetPendingSession with forkDb := db.forkDb }, ?_, rfl⟩
        simp only [popBlock, bind_run, modify_run, get_run, hblk, onForkDb, zoom, hreset, he]
      · refine .inr ⟨{ ({ db.resetPendingSession with forkDb := db.forkDb.setHead p } : Database Tx L).undo with
            poppedTx := blk.transactions ++ db.resetPendingSession.poppedTx }, h, p, ?_, hh, hp, rfl⟩
        simp only [popBlock, bind_run, modify_run, get_run, hblk, onForkDb, zoom, hreset, hr]

theorem popBlock_pushing (env : Env Tx L) (db : Database Tx L) : MovesAt (Keeps (Pushing U items)) popBlock db := by
  intro h
  have hmove : MovesAt (Moving env U (fun _ => False) items) popBlock db := popBlock_moving id
  exact (hmove h).1

/-- The head of the fork database is at height `n` or below it. -/
def HeadWithin (n : Nat) (db : Database Tx L) : Prop := ∀ h, db.forkDb.head = some h → h.num ≤ n

/-- The head of the fork database is below height `n`. -/
def HeadBelow (n : Nat) (db : Database Tx L) : Prop := ∀ h, db.forkDb.head = some h → h.num < n

/-- **A pop keeps the shape and lowers the head**, while the callers hold linked items only. -/
theorem Clean.pop (env : Env Tx L) (hU : Universe U) (h : Clean U items db) (hr : popBlock db = .ok () db') :
    Clean U items db' ∧ ∀ n, HeadWithin n db → HeadBelow n db' := by
  rcases popBlock_fork db with ⟨e, x, he, -⟩ | ⟨x, y, p, hx, hhead, hlock, hfork⟩
  · exact absurd (he.symm.trans hr) (by simp)
  obtain rfl := (EStateM.Result.ok.inj (hx.symm.trans hr)).2
  have hheld : ∀ z ∈ db.forkDb.held, z ∈ db.forkDb.index := by
    rw [h.tended.pushing.held]
    exact h.linked
  have hlive : y ∈ db.forkDb.live := mem_live_of_head hhead
  have hp : p ∈ db.forkDb.index := h.tended.shape.lock_linked hheld hlive hlock
  have hpush : Pushing U items x := (popBlock_pushing env db).of_ok hr h.tended.pushing
  refine ⟨⟨⟨hpush, ?_⟩, ?_⟩, ?_⟩
  · rw [hfork]
    exact h.tended.shape.sorted.setHead_inShape hp
  · rw [hfork]
    exact h.linked
  · intro n hn w hw
    rw [hfork] at hw
    obtain rfl : p = w := Option.some.inj hw
    have hpos : 0 < y.num := by
      show 0 < y.data.blockNum
      rw [hU.num_eq (h.tended.shape.linked.data y hlive)]
      exact Nat.succ_pos _
    have hnum := h.tended.shape.linked.lock_num hlive hlock hpos
    have := hn y hhead
    omega

section Rewinding

variable {target : BlockId} {lib n : Nat} {guard : DbM Tx L Unit}

/-- One turn of the loop of pops that does pop. -/
theorem popBack_turn {k : Nat} (hne : db.headBlockId ≠ target) (hlib : ¬ db.headBlockNum ≤ lib) :
    popBack target lib guard (k + 1) db = (popBlock >>= fun _ => popBack target lib guard k) db := by
  simp only [popBack, get_bind_run, if_neg hne, if_neg hlib]

/-- **The loop of pops below height `n`.** What is left is in shape, and when the loop returns the callers'
    items are still linked. -/
theorem popBack_lowered (env : Env Tx L) (hU : Universe U)
    (hguard : ∀ x, Clean U items x → HeadBelow n x → InShape U (after guard x).forkDb)
    (hthrow : ∀ x y, guard x ≠ .ok () y) (k : Nat) (h : Clean U items db) (hlow : HeadBelow n db) :
    InShape U (after (popBack target lib guard k) db).forkDb ∧
    ∀ s, popBack target lib guard k db = .ok () s → Clean U items s ∧ HeadBelow n s := by
  induction k generalizing db with
  | zero => exact ⟨h.tended.shape, fun s hs => absurd hs (by simp [popBack])⟩
  | succ k ih =>
      by_cases hne : db.headBlockId = target
      · have hstop : popBack target lib guard (k + 1) db = .ok () db := by
          simp only [popBack, get_bind_run, if_pos hne, pure_run]
        rw [after_ok hstop]
        refine ⟨h.tended.shape, ?_⟩
        intro s hs
        obtain rfl := (EStateM.Result.ok.inj (hstop.symm.trans hs)).2
        exact ⟨h, hlow⟩
      by_cases hlib : db.headBlockNum ≤ lib
      · have hstop : popBack target lib guard (k + 1) db = guard db := by
          simp only [popBack, get_bind_run, if_neg hne, if_pos hlib]
        refine ⟨?_, fun s hs => absurd (hstop.symm.trans hs) (hthrow db s)⟩
        have := hguard db h hlow
        unfold after at this ⊢
        rw [hstop]
        exact this
      have hturn : popBack target lib guard (k + 1) db = _ := popBack_turn hne hlib
      rcases popBlock_fork db with ⟨e, x, he, hfork⟩ | ⟨x, -, -, hx, -, -, -⟩
      · have herr : popBack target lib guard (k + 1) db = .error e x := by rw [hturn, bind_run, he]
        rw [after_error herr, hfork]
        exact ⟨h.tended.shape, fun s hs => absurd (herr.symm.trans hs) (by simp)⟩
      · obtain ⟨hc, hl⟩ := h.pop env hU hx
        have hrun : popBack target lib guard (k + 1) db = popBack target lib guard k x := by
          rw [hturn, bind_run, hx]
        unfold after
        rw [hrun]
        exact ih hc (hl n fun w hw => Nat.le_of_lt (hlow w hw))

/-- The whole loop, when it starts with a pop or has nothing to do. -/
theorem popBack_within (env : Env Tx L) (hU : Universe U)
    (hguard : ∀ x, Clean U items x → HeadBelow n x → InShape U (after guard x).forkDb)
    (hthrow : ∀ x y, guard x ≠ .ok () y) (k : Nat) (h : Clean U items db) (hlow : HeadWithin n db)
    (hlib : lib < db.headBlockNum) :
    InShape U (after (popBack target lib guard k) db).forkDb ∧
    ∀ s, popBack target lib guard k db = .ok () s → Clean U items s ∧ HeadWithin n s := by
  cases k with
  | zero => exact ⟨h.tended.shape, fun s hs => absurd hs (by simp [popBack])⟩
  | succ k =>
      by_cases hne : db.headBlockId = target
      · have hstop : popBack target lib guard (k + 1) db = .ok () db := by
          simp only [popBack, get_bind_run, if_pos hne, pure_run]
        rw [after_ok hstop]
        refine ⟨h.tended.shape, ?_⟩
        intro s hs
        obtain rfl := (EStateM.Result.ok.inj (hstop.symm.trans hs)).2
        exact ⟨h, hlow⟩
      have hturn : popBack target lib guard (k + 1) db = _ := popBack_turn hne (Nat.not_le.mpr hlib)
      rcases popBlock_fork db with ⟨e, x, he, hfork⟩ | ⟨x, -, -, hx, -, -, -⟩
      · have herr : popBack target lib guard (k + 1) db = .error e x := by rw [hturn, bind_run, he]
        rw [after_error herr, hfork]
        exact ⟨h.tended.shape, fun s hs => absurd (herr.symm.trans hs) (by simp)⟩
      · obtain ⟨hc, hl⟩ := h.pop env hU hx
        have hrun : popBack target lib guard (k + 1) db = popBack target lib guard k x := by
          rw [hturn, bind_run, hx]
        unfold after
        rw [hrun]
        obtain ⟨hs, hok⟩ := popBack_lowered env hU hguard hthrow k hc (hl n hlow)
        refine ⟨hs, ?_⟩
        intro s hr
        obtain ⟨hcs, hls⟩ := hok s hr
        exact ⟨hcs, fun w hw => Nat.le_of_lt (hls w hw)⟩

end Rewinding

/-! ## The rewind -/

/-- Items leave the linked index, and the database stays sorted. -/
def Shrinks (U : SignedBlock Tx → Prop) (db db' : Database Tx L) : Prop :=
  (Sorted U db.forkDb → Sorted U db'.forkDb) ∧ ∀ x ∈ db'.forkDb.index, x ∈ db.forkDb.index

instance shrinksPreorder : IsPreorder (Database Tx L) (Shrinks U) where
  refl _ := ⟨id, fun _ hx => hx⟩
  trans _ _ _ h₁ h₂ := ⟨fun h => h₂.1 (h₁.1 h), fun x hx => h₁.2 x (h₂.2 x hx)⟩

theorem shrinks_of_trims (t : Trims db db') : Shrinks U db db' := ⟨fun h => h.trimmed t, t.index⟩

theorem popBlock_shrinks (db : Database Tx L) : MovesAt (Shrinks U) popBlock db := by
  show Shrinks U db (after popBlock db)
  rcases popBlock_fork db with ⟨e, x, he, hfork⟩ | ⟨x, h, p, hx, -, hp, hfork⟩
  · rw [after_error he]
    constructor
    · rw [hfork]
      exact id
    · rw [hfork]
      exact fun _ hy => hy
  · rw [after_ok hx]
    constructor
    · rw [hfork]
      exact fun hs => hs.setHead (lock_mem hp).1
    · rw [hfork]
      exact fun _ hy => hy

theorem popBack_shrinks (target : BlockId) (lib n : Nat) (db : Database Tx L) :
    MovesAt (Shrinks U) (popBack target lib (pure ()) n) db := by
  induction n generalizing db with
  | zero => exact MovesAt.throw _ _
  | succ n ih =>
      refine MovesAt.get_bind ?_
      split
      · exact MovesAt.pure _ _
      · split
        · exact MovesAt.pure _ _
        · exact MovesAt.bind (popBlock_shrinks db) fun _ x _ => ih x

theorem applyAll_shrinks (skip : Skip) (xs : List (ForkItem Tx)) (db : Database Tx L) :
    MovesAt (Shrinks U) (applyAll env skip xs) db := by
  induction xs generalizing db with
  | nil => exact MovesAt.pure _ _
  | cons x xs ih =>
      have hx : MovesAt (Shrinks U) (applyInSession env x.data skip) db :=
        shrinks_of_trims (applyInSession_trims x.data skip db)
      exact MovesAt.bind hx fun _ y _ => ih y

/-- The blocks `xs` leave the linked index. -/
def removeAll (xs : List (ForkItem Tx)) (db : Database Tx L) : Database Tx L :=
  db.modifyForkDb fun f => xs.foldl (fun f y => f.remove y.id) f

theorem removeAll_shrinks (xs : List (ForkItem Tx)) (db : Database Tx L) : Shrinks U db (removeAll xs db) := by
  have h : ∀ f : ForkDatabase Tx, (Sorted U f → Sorted U (xs.foldl (fun f y => f.remove y.id) f)) ∧
      ∀ z ∈ (xs.foldl (fun f y => f.remove y.id) f).index, z ∈ f.index := by
    induction xs with
    | nil => exact fun f => ⟨id, fun _ hz => hz⟩
    | cons x xs ih =>
        intro f
        obtain ⟨hs, hi⟩ := ih (f.remove x.id)
        exact ⟨fun hf => hs (hf.remove x.id), fun z hz => (List.mem_filter.mp (hi z hz)).1⟩
  exact h db.forkDb

/-- **Removed is removed.** -/
theorem removeAll_gone {xs : List (ForkItem Tx)} {x : ForkItem Tx} (hx : x ∈ xs) (db : Database Tx L) :
    ∀ y ∈ (removeAll xs db).forkDb.index, y.id ≠ x.id := by
  have h : ∀ (zs : List (ForkItem Tx)) (f : ForkDatabase Tx),
      ∀ y ∈ (zs.foldl (fun f y => f.remove y.id) f).index, y ∈ f.index ∧ ∀ z ∈ zs, y.id ≠ z.id := by
    intro zs
    induction zs with
    | nil => exact fun f y hy => ⟨hy, fun z hz => absurd hz (by simp)⟩
    | cons z zs ih =>
        intro f y hy
        obtain ⟨hm, hne⟩ := ih (f.remove z.id) y hy
        obtain ⟨hm, hz⟩ := List.mem_filter.mp hm
        refine ⟨hm, ?_⟩
        intro w hw
        rcases List.mem_cons.mp hw with rfl | hw
        · simpa using hz
        · exact hne w hw
  exact fun y hy => (h xs db.forkDb y hy).2 x hx

/-! ## The new branch -/

/-- A block of the new branch is tried and, whatever happens, only the window is trimmed. -/
theorem applyRelaxing_trims (b : SignedBlock Tx) (skip : Skip) (db : Database Tx L) :
    ∃ o d, applyRelaxing env b skip db = .ok o d ∧ Trims db d := by
  have h₁ : MovesAt Trims (applyInSession env b skip) db := applyInSession_trims b skip db
  simp only [applyRelaxing, tryCatch_run, bind_run]
  cases hr : applyInSession env b skip db with
  | ok u d => exact ⟨_, d, rfl, h₁.of_ok hr⟩
  | error e d =>
      dsimp only
      split
      · have h₂ : MovesAt Trims (applyInSession env b skip.relaxSchedule) d := applyInSession_trims b _ d
        simp only [tryCatch_run, bind_run]
        cases hr₂ : applyInSession env b skip.relaxSchedule d with
        | ok u d' => exact ⟨_, d', rfl, trans_of Trims (h₁.of_error hr) (h₂.of_ok hr₂)⟩
        | error e' d' => exact ⟨_, d', rfl, trans_of Trims (h₁.of_error hr) (h₂.of_error hr₂)⟩
      · exact ⟨_, d, rfl, h₁.of_error hr⟩

/-- **The two outcomes of a branch.** All of it is applied, or one block fails, and the rest of the branch
    leaves the fork database before the recovery runs. -/
theorem applyBranch_cases (env : Env Tx L) (skip : Skip) (todo : List (ForkItem Tx)) (relaxed : Bool)
    (s : Database Tx L) :
    (∃ r d, Trims s d ∧ ∀ recover, applyBranch env skip recover todo relaxed s = .ok (true, r) d) ∨
    ∃ done x above r d e d', todo = done ++ x :: above ∧ Trims s d' ∧
      applyBranch env skip (pure ()) done relaxed s = .ok (true, r) d ∧
      applyRelaxing env x.data skip d = .ok (.failed e) d' := by
  induction todo generalizing relaxed s with
  | nil => exact .inl ⟨relaxed, s, refl_of Trims _, fun _ => rfl⟩
  | cons x xs ih =>
      obtain ⟨o, d, hr, ht⟩ : ∃ o d, applyRelaxing env x.data skip s = .ok o d ∧ Trims s d :=
        applyRelaxing_trims x.data skip s
      cases o with
      | failed e => exact .inr ⟨[], x, xs, relaxed, s, e, d, rfl, ht, rfl, hr⟩
      | applied r =>
          rcases ih (relaxed || r) d with ⟨r', d', ht', h⟩ | ⟨done, y, above, r', d₁, e, d₂, rfl, ht', h, hf⟩
          · refine .inl ⟨r', d', trans_of Trims ht ht', ?_⟩
            intro recover
            simp only [applyBranch, bind_run, hr]
            exact h recover
          · refine .inr ⟨x :: done, y, above, r', d₁, e, d₂, rfl, trans_of Trims ht ht', ?_, hf⟩
            simp only [applyBranch, bind_run, hr]
            exact h

/-- A branch that stops at `x` goes on with the removal and the recovery. -/
theorem applyBranch_failed {done above : List (ForkItem Tx)} {x : ForkItem Tx} {relaxed r : Bool}
    {s d d' : Database Tx L} {e : Exn} (recover : DbM Tx L Unit)
    (hdone : applyBranch env skip (pure ()) done relaxed s = .ok (true, r) d)
    (hx : applyRelaxing env x.data skip d = .ok (.failed e) d') :
    applyBranch env skip recover (done ++ x :: above) relaxed s =
      (recover >>= fun _ => pure (false, r)) (removeAll (x :: above) d') := by
  induction done generalizing relaxed s with
  | nil =>
      obtain ⟨hr, rfl⟩ := EStateM.Result.ok.inj hdone
      obtain rfl : relaxed = r := (Prod.mk.inj hr).2
      simp only [List.nil_append, applyBranch, bind_run, hx, modify_run]
      rfl
  | cons y ys ih =>
      simp only [List.cons_append, applyBranch, bind_run] at hdone ⊢
      cases hr : applyRelaxing env y.data skip s with
      | error e' s' =>
          rw [hr] at hdone
          exact absurd hdone (by simp)
      | ok o s' =>
          rw [hr] at hdone
          cases o with
          | applied r' => exact ih hdone
          | failed e' =>
              simp only [bind_run, modify_run, pure_run] at hdone
              exact absurd (EStateM.Result.ok.inj hdone).1 (by simp)

/-! ## The switch -/

/-- A switch that would pop an irreversible block drops its tip and throws. -/
def giveUp (newHead : ForkItem Tx) : DbM Tx L Unit := do
  modify (modifyForkDb (ForkDatabase.remove newHead.id))
  throw .unlinkableBlock

/-- The pops of a switch, before the new branch is applied. -/
def unwind (newHead ancestor : ForkItem Tx) (linear : Bool) : DbM Tx L Unit := do
  let db ← get
  if linear then pure () else popBack ancestor.previousId db.lib (giveUp newHead) db.popFuel

/-- The blocks a switch applies, oldest first. -/
def newBlocks (linear : Bool) (first : List (ForkItem Tx)) (ancestor : ForkItem Tx) : List (ForkItem Tx) :=
  if linear then first.reverse.filter (fun x => decide (x.id ≠ ancestor.id)) else first.reverse

/-- The way back after a failed switch, up to the new head of the fork database. -/
def rewind (env : Env Tx L) (skip : Skip) (linear : Bool) (second : List (ForkItem Tx)) (ancestor : ForkItem Tx) :
    DbM Tx L Unit := do
  let db ← get
  popBack (if linear then ancestor.id else ancestor.previousId) db.lib (pure ()) db.popFuel
  if linear then pure () else applyAll env skip second.reverse

section Switching

variable {newHead ancestor front : ForkItem Tx} {first second : List (ForkItem Tx)}

/-- The end of a switch. -/
def endSwitch (newHead : ForkItem Tx) (linear : Bool) (r : Bool × Bool) : DbM Tx L Bool := do
  if r.1 then finishSwitch newHead (r.2 && linear)
  return r.1

/-- **The switch in four parts**: the pops, the new branch, the way back, the end. -/
theorem runSwitch_eq (hlast : second.getLast? = some ancestor) (hfront : second.head? = some front)
    (db : Database Tx L) :
    runSwitch env skip newHead first second ancestor db =
      (unwind newHead ancestor (db.isLinearExtension first second) >>= fun _ =>
        applyBranch env skip (do
            rewind env skip (db.isLinearExtension first second) second ancestor
            modify (modifyForkDb (ForkDatabase.setHead front)))
          (newBlocks (db.isLinearExtension first second) first ancestor) false >>=
        endSwitch newHead (db.isLinearExtension first second)) db := by
  cases hlin : db.isLinearExtension first second with
  | false =>
      simp only [runSwitch, get_bind_run, hlin, unwind, newBlocks, rewind, recoverFork, hlast, hfront, bind_assoc,
        Bool.not_false, Bool.false_eq_true, if_true, if_false]
      rfl
  | true =>
      obtain ⟨y, rfl⟩ : ∃ y, second = [y] := by
        unfold isLinearExtension at hlin
        split at hlin
        · exact ⟨_, rfl⟩
        · exact absurd hlin (by simp)
      obtain rfl : y = ancestor := by simpa using hlast
      obtain rfl : y = front := by simpa using hfront
      simp only [runSwitch, get_bind_run, hlin, unwind, newBlocks, rewind, recoverLinear, bind_assoc, pure_bind,
        Bool.not_true, Bool.false_eq_true, if_true, if_false]
      rfl

/-- **The switch stops at block `x`**: `above` is what is left of the new branch, `d'` what the refusal leaves. -/
def SwitchFails (env : Env Tx L) (skip : Skip) (newHead : ForkItem Tx) (first second : List (ForkItem Tx))
    (ancestor : ForkItem Tx) (db : Database Tx L) (x : ForkItem Tx) (above : List (ForkItem Tx))
    (d' : Database Tx L) : Prop :=
  ∃ s done r d e, unwind newHead ancestor (db.isLinearExtension first second) db = .ok () s ∧
    newBlocks (db.isLinearExtension first second) first ancestor = done ++ x :: above ∧
    applyBranch env skip (pure ()) done false s = .ok (true, r) d ∧
    applyRelaxing env x.data skip d = .ok (.failed e) d'

theorem giveUp_shape (x : Database Tx L) (hc : Clean U items x) (hlow : HeadBelow newHead.num x) :
    InShape U (after (giveUp newHead) x).forkDb := by
  refine hc.tended.shape.remove ?_
  intro h hh he
  have hnum : h.num = newHead.num := congrArg BlockId.num he
  exact absurd (hlow h hh) (by omega)

/-- **The pops of a switch** leave the fork database in shape, with its head at most as high as the new tip. -/
theorem unwind_shape (env : Env Tx L) (hU : Universe U) {linear : Bool} (hc : Clean U items db)
    (hhead : HeadWithin newHead.num db) (hpops : linear = true ∨ db.lib < db.headBlockNum) :
    InShape U (after (unwind newHead ancestor linear) db).forkDb ∧
    ∀ s, unwind newHead ancestor linear db = .ok () s → Clean U items s ∧ HeadWithin newHead.num s := by
  cases linear with
  | true =>
      refine ⟨hc.tended.shape, ?_⟩
      intro s hs
      obtain rfl := (EStateM.Result.ok.inj hs).2
      exact ⟨hc, hhead⟩
  | false =>
      refine popBack_within env hU giveUp_shape ?_ db.popFuel hc hhead ?_
      · intro x y h
        exact absurd h (by simp [giveUp, bind_run])
      · exact hpops.resolve_left (by simp)

/-- The end of a switch that went through: the tip is linked still. -/
theorem endSwitch_shape {linear r : Bool} {d : Database Tx L} (hs : Sorted U d.forkDb)
    (hnew : newHead ∈ d.forkDb.index) :
    InShape U (after (endSwitch newHead linear (true, r)) d).forkDb := by
  unfold endSwitch finishSwitch
  cases r && linear with
  | false => exact hs.setHead_inShape hnew
  | true => exact hs.setHead_inShape hnew

/-- **The recovery puts back the old head**: it returns, and the head is linked still. -/
def Recovers (env : Env Tx L) (skip : Skip) (linear : Bool) (second : List (ForkItem Tx))
    (ancestor front : ForkItem Tx) (d : Database Tx L) : Prop :=
  ∃ d', rewind env skip linear second ancestor d = .ok () d' ∧ front ∈ d'.forkDb.index

theorem rewind_shrinks (linear : Bool) (d : Database Tx L) :
    MovesAt (Shrinks U) (rewind env skip linear second ancestor) d := by
  refine MovesAt.get_bind (MovesAt.bind (popBack_shrinks _ _ _ d) fun _ x _ => ?_)
  split
  · exact MovesAt.pure _ _
  · exact applyAll_shrinks skip _ x

/-- **What a switch that stopped at `x` leaves**: the old head, which is not `x`. -/
theorem SwitchFails.leaves (U : SignedBlock Tx → Prop) (hlast : second.getLast? = some ancestor)
    (hfront : second.head? = some front) {x : ForkItem Tx} {above : List (ForkItem Tx)} {d' : Database Tx L}
    (hf : SwitchFails env skip newHead first second ancestor db x above d')
    (hrec : Recovers env skip (db.isLinearExtension first second) second ancestor front (removeAll (x :: above) d')) :
    ∃ z, runSwitch env skip newHead first second ancestor db =
        .ok false (z.modifyForkDb (ForkDatabase.setHead front)) ∧
      Shrinks U d' z ∧ front ∈ z.forkDb.index ∧ front.id ≠ x.id := by
  obtain ⟨s, done, r, d, e, hun, htodo, hdone, hx⟩ := hf
  obtain ⟨z, hz, hmem⟩ := hrec
  have hback : Shrinks U (removeAll (x :: above) d') z := (rewind_shrinks _ _).of_ok hz
  refine ⟨z, ?_, trans_of (Shrinks U) (removeAll_shrinks _ _) hback, hmem, ?_⟩
  · rw [runSwitch_eq hlast hfront, bind_run, hun, htodo]
    simp only [bind_run, applyBranch_failed _ hdone hx, hz, modify_run, pure_run]
    rfl
  · exact removeAll_gone List.mem_cons_self d' front (hback.2 front hmem)

/-- **The switch keeps the fork database in shape**, when its first pop is not refused and its recovery, if there
    is one, puts back a linked head. -/
theorem runSwitch_shape (hU : Universe U) (hlast : second.getLast? = some ancestor)
    (hfront : second.head? = some front) (hc : Clean U items db) (hnew : newHead ∈ items)
    (hhead : HeadWithin newHead.num db)
    (hpops : db.isLinearExtension first second = true ∨ db.lib < db.headBlockNum)
    (hrec : ∀ x above d', SwitchFails env skip newHead first second ancestor db x above d' →
      Recovers env skip (db.isLinearExtension first second) second ancestor front (removeAll (x :: above) d')) :
    InShape U (after (runSwitch env skip newHead first second ancestor) db).forkDb := by
  obtain ⟨hshape, hok⟩ : _ ∧ ∀ s, unwind newHead ancestor _ db = .ok () s → _ := unwind_shape env hU hc hhead hpops
  cases hun : unwind newHead ancestor (db.isLinearExtension first second) db with
  | error e s =>
      have hrun : runSwitch env skip newHead first second ancestor db = .error e s := by
        rw [runSwitch_eq hlast hfront, bind_run, hun]
      rw [after_error hrun]
      rw [after_error hun] at hshape
      exact hshape
  | ok u s =>
      obtain ⟨hcs, hhs⟩ := hok s hun
      rcases applyBranch_cases env skip (newBlocks (db.isLinearExtension first second) first ancestor) false s with
        ⟨r, d, ht, hbr⟩ | ⟨done, x, above, r, d, e, d', htodo, ht, hdone, hx⟩
      · have hrun : after (runSwitch env skip newHead first second ancestor) db =
            after (endSwitch newHead (db.isLinearExtension first second) (true, r)) d := by
          unfold after
          rw [runSwitch_eq hlast hfront, bind_run, hun]
          simp only [bind_run, hbr]
        rw [hrun]
        exact endSwitch_shape (hcs.tended.shape.sorted.trimmed ht) (ht.kept _ (hcs.linked _ hnew) hhs)
      · have hf : SwitchFails env skip newHead first second ancestor db x above d' :=
          ⟨s, done, r, d, e, hun, htodo, hdone, hx⟩
        obtain ⟨z, hrun, hshrink, hmem, -⟩ := hf.leaves U hlast hfront (hrec x above d' hf)
        rw [after_ok hrun]
        exact (hshrink.1 (hcs.tended.shape.sorted.trimmed ht)).setHead_inShape hmem

/-- A trail that starts in the linked index stays there. -/
theorem trail_linked {f : ForkDatabase Tx} (h : InShape U f) (hheld : ∀ x ∈ f.held, x ∈ f.index)
    {l : List (ForkItem Tx)} (ht : Trail f l) (hh : ∀ x, l.head? = some x → x ∈ f.index) : ∀ x ∈ l, x ∈ f.index := by
  induction l with
  | nil => exact fun x hx => absurd hx (by simp)
  | cons y l ih =>
      have hy : y ∈ f.index := hh y rfl
      intro x hx
      rcases List.mem_cons.mp hx with rfl | hx
      · exact hy
      · refine ih ht.of_cons ?_ x hx
        intro z hz
        cases l with
        | nil => exact absurd hz (by simp)
        | cons w l =>
            obtain rfl : w = z := by simpa using hz
            exact h.lock_linked hheld (mem_live_of_index hy) (List.isChain_cons_cons.mp ht).1

/-- The branches of a switch are linked. -/
theorem branches_linked {f : ForkDatabase Tx} (h : InShape U f) (hheld : f.held = []) {a c : BlockId}
    (hr : f.fetchBranchFrom a c = .ok (first, second)) : ∀ x ∈ first ++ second, x ∈ f.index := by
  have hforked := fetchBranchFrom_ok h.linked hr
  have hnone : ∀ x ∈ f.held, x ∈ f.index := by
    rw [hheld]
    exact fun x hx => absurd hx (by simp)
  intro x hx
  rcases List.mem_append.mp hx with hx | hx
  · refine trail_linked h hnone hforked.trailA ?_ x hx
    intro y hy
    exact (find_mem (hforked.tipA.symm.trans hy)).1
  · refine trail_linked h hnone hforked.trailB ?_ x hx
    intro y hy
    exact (find_mem (hforked.tipB.symm.trans hy)).1

/-- The node with the items of local variables held. -/
def hold (items : List (ForkItem Tx)) (db : Database Tx L) : Database Tx L :=
  db.modifyForkDb fun f => { f with held := items }

theorem Tended.clean (h : Tended U [] db) (hi : ∀ x ∈ items, x ∈ db.forkDb.index) :
    Clean U items (db.hold items) := by
  have hs : InShape U (db.hold items).forkDb := h.shape.hold fun x hx => mem_live_of_index (hi x hx)
  exact ⟨⟨⟨⟨hs.linked, h.pushing.sound.log, h.pushing.sound.dltLog⟩, rfl, h.pushing.idle⟩, hs⟩, hi⟩

theorem holding_shape {α : Type} {m : DbM Tx L α} (h : InShape U (after m (db.hold items)).forkDb) :
    InShape U (after (holding items m) db).forkDb := by
  rw [after_holding]
  exact h.hold fun x hx => absurd hx (by simp)

/-- The fork database is emptied and started again with a block in existence. -/
theorem restart_shape {blk : Option (SignedBlock Tx)} (hb : ∀ c, blk = some c → U c) {x : Database Tx L}
    (hs : InShape U x.forkDb) :
    InShape U (after (do
      modify (modifyForkDb ForkDatabase.reset)
      match blk with
      | none   => pure ()
      | some b => onForkDb (ForkDatabase.startBlock b) : DbM Tx L Unit) x).forkDb := by
  cases blk with
  | none => exact hs.reset
  | some c =>
      have hstart : KeepsShape U (startBlock c) x.forkDb.reset := startBlock_keepsShape (hb c rfl) rfl
      exact hstart hs.reset

end Switching

/-! ## The direct application -/

/-- **A linked block that is not a dead fork survives the pruning.** -/
theorem pruneCompeting_keeps (hU : Universe U) {f : ForkDatabase Tx} (hl : Linked U f) {h : ForkItem Tx}
    (hh : h ∈ f.index) (hkeep : h.num = b.blockNum → h.id ≠ b.id → f.isKnownBlock h.previousId = true) :
    h ∈ (pruneCompeting b f).index := by
  have hUh : U h.data := hl.data h (mem_live_of_index hh)
  have hcs : ∀ c ∈ f.fetchBlockByNumber b.blockNum, U c.data ∧ c.num = b.blockNum := by
    intro c hc
    obtain ⟨hc, hn⟩ := List.mem_filter.mp hc
    exact ⟨hl.data c (mem_live_of_index hc), by simpa using hn⟩
  unfold pruneCompeting
  clear hl
  generalize f.fetchBlockByNumber b.blockNum = cs at hcs
  induction cs generalizing f with
  | nil => exact hh
  | cons c cs ih =>
      rw [List.foldl_cons]
      obtain ⟨hUc, hcn⟩ := hcs c (by simp)
      have hrest : ∀ d ∈ cs, U d.data ∧ d.num = b.blockNum := fun d hd => hcs d (by simp [hd])
      split
      · next hdead =>
          have hne : h.id ≠ c.id := by
            intro he
            have hdata : h.data = c.data := hU.inj _ _ hUh hUc he
            have hnum : h.num = b.blockNum := (congrArg SignedBlock.blockNum hdata).trans hcn
            have hknown := hkeep hnum (he ▸ hdead.1)
            have hprev : h.previousId = c.previousId := congrArg SignedBlock.previous hdata
            rw [hprev] at hknown
            exact absurd hdead.2 (by simp [hknown])
          refine ih (List.mem_filter.mpr ⟨hh, by simpa using hne⟩) ?_ hrest
          intro hnum hb
          have hknown := hkeep hnum hb
          -- a removed block is as high as `h`, so it is not the parent of `h`
          have hparent : h.previousId ≠ c.id := by
            intro he
            have hup : h.num = h.previousId.num + 1 := hU.num_eq hUh
            have hc : c.id.num = c.num := rfl
            rw [he, hc, hcn, hnum] at hup
            omega
          unfold isKnownBlock at hknown ⊢
          rcases Bool.or_eq_true_iff.mp hknown with hi | hu
          · obtain ⟨y, hy, hid⟩ := find_isSome.mp hi
            refine Bool.or_eq_true_iff.mpr (.inl (find_isSome.mpr ⟨y, ?_, hid⟩))
            exact List.mem_filter.mpr ⟨hy, by simpa [hid] using hparent⟩
          · exact Bool.or_eq_true_iff.mpr (.inr hu)
      · exact ih hh hkeep hrest

theorem pruneCompeting_sorted (b : SignedBlock Tx) {f : ForkDatabase Tx} (hs : Sorted U f) :
    Sorted U (pruneCompeting b f) := by
  unfold pruneCompeting
  generalize f.fetchBlockByNumber b.blockNum = cs
  induction cs generalizing f with
  | nil => exact hs
  | cons c cs ih =>
      rw [List.foldl_cons]
      split
      · exact ih (hs.remove c.id)
      · exact ih hs

/-- Pops keep the shape. -/
theorem popAbove_shape (env : Env Tx L) (hU : Universe U) (original lib n : Nat) (h : Clean U items db) :
    InShape U (after (popAbove original lib n) db).forkDb := by
  induction n generalizing db with
  | zero => exact h.tended.shape
  | succ n ih =>
      unfold after
      simp only [popAbove, get_bind_run]
      by_cases habove : original < db.headBlockNum ∧ lib < db.headBlockNum
      · rw [if_pos habove, bind_run]
        rcases popBlock_fork db with ⟨e, x, he, hfork⟩ | ⟨x, -, -, hx, -, -, -⟩
        · rw [he]
          dsimp only
          rw [hfork]
          exact h.tended.shape
        · rw [hx]
          exact ih (h.pop env hU hx).1
      · rw [if_neg habove]
        exact h.tended.shape

theorem recoverCascade_shape (env : Env Tx L) (hU : Universe U) (n : Nat) (h : Clean U items db) :
    InShape U (after (recoverCascade n) db).forkDb := by
  have hfetch : ∀ c, db.fetchBlockById db.headBlockId = some c → U c := fun c hc =>
    (h.tended.pushing.sound.fetchBlockById hc).1
  have hpops := popAbove_shape env hU n db.lib db.popFuel h
  unfold after at hpops ⊢
  simp only [recoverCascade, get_bind_run]
  cases hp : popAbove n db.lib db.popFuel db with
  | error e x =>
      rw [hp] at hpops
      rw [bind_run, hp]
      exact hpops
  | ok u x =>
      rw [hp] at hpops
      rw [bind_run, hp]
      exact restart_shape hfetch hpops

/-- **A cascade keeps the shape**, whether it goes through or is given up. -/
theorem tryCascade_tended {fb : ForkItem Tx} (hfb : db.forkDb.head = some fb) :
    KeepsTended U [] (tryCascade env skip fb) db := by
  intro h
  have hmove : MovesAt (Moving env U (fun _ => False) []) (tryCascade env skip fb) db := tryCascade_moving hfb
  refine ⟨(hmove h.pushing).1, ?_⟩
  have hindex := h.shape.head fb hfb
  unfold after
  simp only [tryCascade, get_bind_run]
  cases hr : db.forkDb.fetchBranchFrom fb.id db.headBlockId with
  | error e => exact h.shape
  | ok r =>
      dsimp only
      by_cases hlin : db.isLinearExtension r.1 r.2 = true
      · rw [if_pos hlin]
        refine holding_shape (m := do
          applyCascade env skip r.1.reverse
          modify (modifyForkDb (ForkDatabase.setHead fb))) ?_
        have hlinked : ∀ x ∈ fb :: (r.1 ++ r.2), x ∈ db.forkDb.index := by
          intro x hx
          rcases List.mem_cons.mp hx with rfl | hx
          · exact hindex
          · exact branches_linked h.shape h.pushing.held hr x hx
        have hc : Clean U (fb :: (r.1 ++ r.2)) (db.hold (fb :: (r.1 ++ r.2))) := h.clean hlinked
        refine (MovesAt.bind (R := Keeps (Tended U (fb :: (r.1 ++ r.2))))
          (applyCascade_tended skip _ _) ?_ hc.tended : Tended U _ _).shape
        intro _ x hx
        refine MovesAt.modify fun ht => ?_
        -- the window never drops the head, and the head has not moved
        have hhead : x.forkDb.head = some fb := ((applyCascade_kept skip _ _).of_ok hx : SameKept _ _).head.trans hfb
        refine tended_forkDb ht (ht.shape.sorted.setHead_inShape (ht.shape.head fb hhead)) ?_
        exact ht.pushing.held
      · rw [if_neg hlin]
        exact h.shape

theorem cascade_shape (hU : Universe U) (h : Tended U [] db) :
    InShape U (after (cascade env b skip) db).forkDb := by
  unfold after
  simp only [cascade, get_bind_run]
  cases hfb : db.forkDb.head with
  | none => exact h.shape
  | some fb =>
      dsimp only
      by_cases habove : b.blockNum < fb.num ∧ db.headBlockNum < fb.num ∧ db.forkDb.isKnownBlock db.headBlockId = true
      · rw [if_pos habove, tryCatch_run]
        have htry : KeepsTended U [] (tryCascade env skip fb) db := tryCascade_tended hfb
        cases hr : tryCascade env skip fb db with
        | ok u x => exact (htry.of_ok hr h).shape
        | error e x =>
            have hx : Tended U [] x := htry.of_error hr h
            have hhead : x.forkDb.head = some fb := (tryCascade_error hr).trans hfb
            refine holding_shape (m := recoverCascade db.headBlockNum) (recoverCascade_shape env hU _ (hx.clean ?_))
            intro y hy
            rw [List.mem_singleton.mp hy]
            exact hx.shape.head fb hhead
      · rw [if_neg habove]
        exact h.shape

end Database

end VizNode
