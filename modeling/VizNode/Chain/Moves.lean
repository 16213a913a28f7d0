import VizNode.Chain.Stages

/-!
# `VizNode.Chain.Moves` — what a push is made of

Whatever route a pushed block takes, the node changes in five ways only: the fork database changes, a
block is applied in a session of its own, the newest session is undone, popped transactions are noted, and
the absolute slot is corrected. `Move` lists them, and `pushBlockStages_moving` is the traversal of
`_push_block` that every invariant below is derived from.

**The stop.** A loop of pops ends at a known place. `stop` marks the states that are not undone, so that a
caller who knows the target of the pops learns that nothing below it is undone.

## Contents
- **Soundness.** `Sound U`: the fork database is linked and the logs hold blocks in existence.
- **Moves** and the traversal of the fork switch, of the direct application and of their recoveries.
- **The plan** of a push, which changes the fork database only.
-/

namespace VizNode

namespace Database

open Prog Relation
open ForkDatabase (Linked)

variable {Tx L : Type} {U : SignedBlock Tx → Prop} {db db' : Database Tx L}

/-! ## Soundness -/

/-- **The fork database is linked, and the logs hold blocks in existence.** -/
structure Sound (U : SignedBlock Tx → Prop) (db : Database Tx L) : Prop where
  linked : db.forkDb.Linked U
  log    : ∀ b ∈ db.blockLog, U b
  dltLog : ∀ b ∈ db.dltBlockLog, U b

theorem Sound.onMain (h : Sound U db) {n : Nat} {b : SignedBlock Tx} (hb : db.OnMain n b) : U b := by
  obtain ⟨x, hx, rfl⟩ := hb
  exact h.linked.data x (ForkDatabase.fetchBlockOnMainBranchByNumber_cases h.linked hx).1

theorem readLog_mem {log : List (SignedBlock Tx)} {start num : Nat} {b : SignedBlock Tx}
    (h : readLog log start num = some b) : b ∈ log := by
  unfold readLog at h
  split at h
  · exact List.mem_of_getElem? h
  · exact absurd h (by simp)

theorem Sound.fetchBlockById (h : Sound U db) {id : BlockId} {b : SignedBlock Tx}
    (hb : db.fetchBlockById id = some b) : U b ∧ b.id = id := by
  unfold Database.fetchBlockById at hb
  split at hb
  · next x hx =>
      obtain rfl := Option.some.inj hb
      unfold ForkDatabase.fetchBlock at hx
      split at hx
      · next y hy =>
          obtain rfl := Option.some.inj hx
          exact ⟨h.linked.data _ (ForkDatabase.mem_live_of_index (ForkDatabase.find_mem hy).1),
            (ForkDatabase.find_mem hy).2⟩
      · exact ⟨h.linked.data _ (ForkDatabase.mem_live.mpr (.inr (.inl (ForkDatabase.find_mem hx).1))),
          (ForkDatabase.find_mem hx).2⟩
  · split at hb
    · next c hc =>
        obtain rfl := Option.some.inj hb
        obtain ⟨hr, hid⟩ := Option.filter_eq_some_iff.mp hc
        exact ⟨h.log _ (readLog_mem hr), by simpa using hid⟩
    · obtain ⟨hr, hid⟩ := Option.filter_eq_some_iff.mp hb
      exact ⟨h.dltLog _ (readLog_mem hr), by simpa using hid⟩

/-- Only the storage outside the undoable state matters. -/
theorem Sound.congr (h : Sound U db) (hf : db'.forkDb = db.forkDb) (hl : db'.blockLog = db.blockLog)
    (hd : db'.dltBlockLog = db.dltBlockLog) : Sound U db' :=
  ⟨hf ▸ h.linked, hl ▸ h.log, hd ▸ h.dltLog⟩

theorem LibTick.sound (t : LibTick db db') (h : Sound U db) : Sound U db' := by
  cases t with
  | supported _ =>
      unfold raiseSupported
      split <;> exact h.congr rfl rfl rfl
  | confirmed _ _ => exact h.congr rfl rfl rfl
  | written hw =>
      have h' : Sound U db.noteFinalizing := h.congr rfl rfl rfl
      refine ⟨hw.forkDb ▸ h'.linked, fun b hb => ?_, fun b hb => ?_⟩
      · exact (hw.log b hb).elim (h.log b) fun ⟨_, hn⟩ => h'.onMain hn
      · exact (hw.dltLog b hb).elim (h.dltLog b) fun ⟨_, hn⟩ => h'.onMain hn
  | identified => exact h.congr rfl rfl rfl
  | trimmed => exact ⟨h.linked.setMaxSize _, h.log, h.dltLog⟩

theorem BlockTick.sound {env : Env Tx L} {b : SignedBlock Tx} (t : BlockTick env b db db')
    (h : Sound U db) : Sound U db' := by
  cases t with
  | lib t => exact t.sound h
  | mode active => exact ⟨h.linked.setEmergencyMode active, h.log, h.dltLog⟩
  | _ => exact h.congr rfl rfl rfl

theorem setMaxSize_frame (s : Nat) (f : ForkDatabase Tx) :
    (f.setMaxSize s).held = f.held ∧ (f.setMaxSize s).head = f.head := by
  unfold ForkDatabase.setMaxSize
  split <;> exact ⟨rfl, rfl⟩

/-- What a block application does not touch: the callers' items, the head of the fork database, the
    pending session and the checkpoints. -/
structure SameKept (db db' : Database Tx L) : Prop where
  held        : db'.forkDb.held = db.forkDb.held
  head        : db'.forkDb.head = db.forkDb.head
  session     : db'.pendingTxSession = db.pendingTxSession
  checkpoints : db'.checkpoints = db.checkpoints

instance sameKeptPreorder : IsPreorder (Database Tx L) SameKept where
  refl _ := ⟨rfl, rfl, rfl, rfl⟩
  trans _ _ _ h₁ h₂ :=
    ⟨h₂.held.trans h₁.held, h₂.head.trans h₁.head, h₂.session.trans h₁.session,
      h₂.checkpoints.trans h₁.checkpoints⟩

theorem LibTick.kept (t : LibTick db db') : SameKept db db' := by
  cases t with
  | supported _ =>
      unfold raiseSupported
      split <;> exact ⟨rfl, rfl, rfl, rfl⟩
  | written hw => rw [hw.frame]; exact ⟨rfl, rfl, rfl, rfl⟩
  | trimmed => exact ⟨(setMaxSize_frame _ _).1, (setMaxSize_frame _ _).2, rfl, rfl⟩
  | _ => exact ⟨rfl, rfl, rfl, rfl⟩

theorem BlockTick.kept {env : Env Tx L} {b : SignedBlock Tx} (t : BlockTick env b db db') :
    SameKept db db' := by
  cases t with
  | lib t => exact t.kept
  | _ => exact ⟨rfl, rfl, rfl, rfl⟩

theorem BlockTicks.kept {env : Env Tx L} {b : SignedBlock Tx} (t : BlockTicks env b db db') :
    SameKept db db' := by
  induction t with
  | refl => exact refl_of _ _
  | tail _ t ih => exact trans_of SameKept ih t.kept

theorem entered_kept (b : SignedBlock Tx) (skip : Skip) (c : Core L) (db : Database Tx L) :
    SameKept db (db.entered b skip c) := by
  unfold entered notifyEmergency
  split <;> exact ⟨rfl, rfl, rfl, rfl⟩

theorem applyInSession_kept {env : Env Tx L} (b : SignedBlock Tx) (skip : Skip) (db : Database Tx L) :
    MovesAt SameKept (applyInSession env b skip) db := by
  have hstart : SameKept db db.startUndoSession := ⟨rfl, rfl, rfl, rfl⟩
  have hent : ∀ skip' c, SameKept db (db.startUndoSession.entered b skip' c) := fun skip' c =>
    trans_of SameKept hstart (entered_kept b skip' c _)
  rcases applyInSession_cases env b skip db with
    ⟨e, he⟩ | ⟨skip', c, x, -, -, ht, ⟨-, hr⟩ | ⟨e, -, hr⟩⟩
  · show SameKept db (after _ db)
    rw [after_error he]
    exact refl_of _ _
  · show SameKept db (after _ db)
    rw [after_ok hr]
    exact trans_of SameKept (hent skip' c) (BlockTicks.kept ht)
  · show SameKept db (after _ db)
    rw [after_error hr]
    have hx := trans_of SameKept (hent skip' c) (BlockTicks.kept ht)
    exact ⟨hx.held, hx.head, hx.session, hx.checkpoints⟩

theorem LibTick.history_length (t : LibTick db db') : db'.state.history.length = db.state.history.length := by
  cases t with
  | supported _ =>
      unfold raiseSupported
      split <;> rfl
  | confirmed _ _ => rfl
  | written hw =>
      have hc : db'.chainbase = db.chainbase := hw.chainbase
      unfold Database.state
      rw [hc]
  | identified => exact List.length_modifyHead
  | trimmed => rfl

theorem BlockTick.history_length {env : Env Tx L} {b : SignedBlock Tx} (t : BlockTick env b db db') :
    db'.state.history.length = db.state.history.length := by
  cases t with
  | lib t => exact t.history_length
  | completed => exact List.length_modifyHead
  | _ => rfl

/-- A block that was applied is in the history. -/
theorem applyInSession_history {env : Env Tx L} {b : SignedBlock Tx} {skip : Skip}
    (h : applyInSession env b skip db = .ok () db') : db'.state.history ≠ [] := by
  rcases applyInSession_cases env b skip db with
    ⟨e, he⟩ | ⟨skip', c, x, -, -, ht, ⟨-, hr⟩ | ⟨e, -, hr⟩⟩
  · exact absurd (he.symm.trans h) (by simp)
  · obtain rfl := (EStateM.Result.ok.inj (hr.symm.trans h)).2
    have hlen : x.state.history.length =
        (db.startUndoSession.entered b skip' c).state.history.length := by
      clear hr h
      induction ht with
      | refl => rfl
      | tail _ t ih => exact t.history_length.trans ih
    have hent : 0 < (db.startUndoSession.entered b skip' c).state.history.length := by
      unfold entered notifyEmergency
      split <;> exact Nat.succ_pos _
    exact List.ne_nil_of_length_pos (hlen ▸ hent)
  · exact absurd (hr.symm.trans h) (by simp)

/-- **A push is under way**, and its local variables hold `items`. -/
structure Pushing (U : SignedBlock Tx → Prop) (items : List (ForkItem Tx)) (db : Database Tx L) : Prop where
  sound : Sound U db
  held  : db.forkDb.held = items
  idle  : db.pendingTxSession = false

theorem BlockTicks.pushing {env : Env Tx L} {b : SignedBlock Tx} {items : List (ForkItem Tx)}
    (t : BlockTicks env b db db') (h : Pushing U items db) : Pushing U items db' := by
  induction t with
  | refl => exact h
  | tail _ t ih => exact ⟨t.sound ih.sound, t.kept.held.trans ih.held, t.kept.session.trans ih.idle⟩

theorem Pushing.entered {items : List (ForkItem Tx)} (h : Pushing U items db) (b : SignedBlock Tx)
    (skip : Skip) (c : Core L) : Pushing U items (db.entered b skip c) := by
  unfold Database.entered notifyEmergency
  split
  · exact ⟨h.sound.congr rfl rfl rfl, h.held, h.idle⟩
  · exact ⟨⟨h.sound.linked.setEmergencyMode _, h.sound.log, h.sound.dltLog⟩, h.held, h.idle⟩

theorem applyInSession_pushing {env : Env Tx L} {items : List (ForkItem Tx)} (b : SignedBlock Tx)
    (skip : Skip) (db : Database Tx L) : MovesAt (Keeps (Pushing U items)) (applyInSession env b skip) db := by
  intro h
  have hstart : Pushing U items db.startUndoSession := ⟨h.sound.congr rfl rfl rfl, h.held, h.idle⟩
  rcases applyInSession_cases env b skip db with
    ⟨e, he⟩ | ⟨skip', c, x, -, -, ht, ⟨-, hr⟩ | ⟨e, -, hr⟩⟩
  · rw [after_error he]; exact h
  · rw [after_ok hr]; exact BlockTicks.pushing ht (hstart.entered b skip' c)
  · have hx := BlockTicks.pushing ht (hstart.entered b skip' c)
    rw [after_error hr]
    exact ⟨hx.sound.congr rfl rfl rfl, hx.held, hx.idle⟩

/-! ## Moves -/

/-- **What a push is made of.** -/
inductive Move (env : Env Tx L) (U : SignedBlock Tx → Prop) (stop : ChainState Tx L → Prop) :
    Database Tx L → Database Tx L → Prop where
  | forkDb {db : Database Tx L} (f : ForkDatabase Tx) (hf : f.Linked U) :
      Move env U stop db { db with forkDb := f }
  | popped {db : Database Tx L} (txs : List Tx) : Move env U stop db { db with poppedTx := txs }
  | applied {db : Database Tx L} {b : SignedBlock Tx} (hb : U b) (skip : Skip) :
      Move env U stop db (after (applyInSession env b skip) db)
  | undone {db : Database Tx L} (h : ¬ stop db.state) : Move env U stop db db.undo
  | aslot {db : Database Tx L} (h : db.state.history ≠ []) (name : AccountName) :
      Move env U stop db (correctAslot name db)

/-- While a push is under way it goes on by moves. -/
def Moving (env : Env Tx L) (U : SignedBlock Tx → Prop) (stop : ChainState Tx L → Prop)
    (items : List (ForkItem Tx)) (db db' : Database Tx L) : Prop :=
  Pushing U items db → Pushing U items db' ∧ ReflTransGen (Move env U stop) db db'

instance movingPreorder (env : Env Tx L) (U : SignedBlock Tx → Prop) (stop : ChainState Tx L → Prop)
    (items : List (ForkItem Tx)) : IsPreorder (Database Tx L) (Moving env U stop items) where
  refl _ h := ⟨h, .refl⟩
  trans _ _ _ h₁ h₂ h := ⟨(h₂ (h₁ h).1).1, (h₁ h).2.trans (h₂ (h₁ h).1).2⟩

section Traversal

variable {env : Env Tx L} {stop : ChainState Tx L → Prop} {items : List (ForkItem Tx)}

theorem moving_forkDb {f : ForkDatabase Tx} (h : Pushing U items db → f.Linked U ∧ f.held = items) :
    Moving env U stop items db { db with forkDb := f } := fun hp =>
  ⟨⟨⟨(h hp).1, hp.sound.log, hp.sound.dltLog⟩, (h hp).2, hp.idle⟩, .single (.forkDb f (h hp).1)⟩

/-- A program of the fork database that keeps it linked, and the callers' items. -/
theorem onForkDb_moving {α : Type} {m : ForkDatabase.M Tx α}
    (hl : ForkDatabase.KeepsLinked U m db.forkDb)
    (hh : db.forkDb.held = items → (after m db.forkDb).held = items) :
    MovesAt (Moving env U stop items) (onForkDb m) db :=
  MovesAt.zoom (moving_forkDb fun hp => ⟨hl hp.sound.linked, hh hp.held⟩)

theorem applyInSession_moving {b : SignedBlock Tx} (hb : U b) (skip : Skip) (db : Database Tx L) :
    MovesAt (Moving env U stop items) (applyInSession env b skip) db := fun hp =>
  ⟨applyInSession_pushing b skip db hp, .single (.applied hb skip)⟩

theorem forkPop_held (f : ForkDatabase Tx) :
    (after (ForkDatabase.popBlock : ForkDatabase.M Tx Unit) f).held = f.held := by
  unfold after ForkDatabase.popBlock
  simp only [get_bind_run]
  cases hh : f.head with
  | none => rfl
  | some h => cases hl : f.lock h.prev <;> simp [hl, ForkDatabase.setHead]

/-- **A pop** undoes the newest session, in a state that is not marked. -/
theorem popBlock_moving (hstop : ¬ stop db.state) : MovesAt (Moving env U stop items) popBlock db := by
  intro hp
  have hreset : db.resetPendingSession = db := by simp [resetPendingSession, hp.idle]
  refine MovesAt.bind (R := Moving env U stop items) (MovesAt.modify ?_) ?_ hp
  · rw [hreset]; exact refl_of _ _
  rintro ⟨⟩ x hx
  obtain rfl : x = db := by
    rw [modify_run, hreset] at hx
    exact (EStateM.Result.ok.inj hx).2.symm
  refine MovesAt.get_bind ?_
  split
  · exact MovesAt.throw _ _
  · next b _ =>
      refine MovesAt.bind (onForkDb_moving (ForkDatabase.popBlock_keepsLinked _)
        fun h => (forkPop_held _).trans h) fun _ y hy => ?_
      have hstate : y.state = x.state := by
        unfold onForkDb zoom at hy
        dsimp only at hy
        split at hy
        · rw [← (EStateM.Result.ok.inj hy).2]; rfl
        · exact absurd hy (by simp)
      refine MovesAt.modify fun hq => ⟨⟨hq.sound.congr rfl rfl rfl, hq.held, hq.idle⟩, ?_⟩
      exact .tail (.single (.undone (hstate ▸ hstop))) (.popped _)

/-- A loop of pops down to a target that covers the marked states. -/
theorem popBack_moving {target : BlockId} {lib : Nat} {guard : DbM Tx L Unit}
    (hstop : ∀ s, stop s → s.headBlockId = target)
    (hguard : ∀ x, MovesAt (Moving env U stop items) guard x) (n : Nat) (db : Database Tx L) :
    MovesAt (Moving env U stop items) (popBack target lib guard n) db := by
  induction n generalizing db with
  | zero => exact MovesAt.throw _ _
  | succ n ih =>
      refine MovesAt.get_bind ?_
      split
      · exact MovesAt.pure _ _
      · next hne =>
          split
          · exact hguard db
          · exact MovesAt.bind (popBlock_moving fun hs => hne (hstop _ hs)) fun _ x _ => ih x

theorem popAbove_moving {original lib : Nat} (hstop : ∀ s, stop s → s.headBlockNum ≤ original) (n : Nat)
    (db : Database Tx L) : MovesAt (Moving env U stop items) (popAbove original lib n) db := by
  induction n generalizing db with
  | zero => exact MovesAt.throw _ _
  | succ n ih =>
      refine MovesAt.get_bind ?_
      split
      · next habove =>
          refine MovesAt.bind (popBlock_moving fun hs => ?_) fun _ x _ => ih x
          exact absurd (hstop _ hs) (Nat.not_le.mpr habove.1)
      · exact MovesAt.pure _ _

/-! ### The fork switch -/

theorem applyRelaxing_moving {b : SignedBlock Tx} (hb : U b) (skip : Skip) (db : Database Tx L) :
    MovesAt (Moving env U stop items) (applyRelaxing env b skip) db := by
  refine MovesAt.tryCatch (MovesAt.bind (applyInSession_moving hb skip db) fun _ _ _ => MovesAt.pure _ _) ?_
  intro e x _
  split
  · refine MovesAt.tryCatch ?_ fun _ _ _ => MovesAt.pure _ _
    exact MovesAt.bind (applyInSession_moving hb _ x) fun _ _ _ => MovesAt.pure _ _
  · exact MovesAt.pure _ _

theorem applyRelaxing_history {b : SignedBlock Tx} {skip : Skip} {relaxed : Bool}
    (h : applyRelaxing env b skip db = .ok (.applied relaxed) db') : db'.state.history ≠ [] := by
  rcases tryCatch_eq_ok h with h | ⟨e, x, -, h⟩
  · obtain ⟨⟨⟩, y, hy, h⟩ := bind_eq_ok h
    obtain rfl := (EStateM.Result.ok.inj h).2
    exact applyInSession_history hy
  · split at h
    · rcases tryCatch_eq_ok h with h | ⟨e₂, y, -, h⟩
      · obtain ⟨⟨⟩, z, hz, h⟩ := bind_eq_ok h
        obtain rfl := (EStateM.Result.ok.inj h).2
        exact applyInSession_history hz
      · exact absurd (EStateM.Result.ok.inj h).1 (by simp)
    · exact absurd (EStateM.Result.ok.inj h).1 (by simp)

/-- A branch was applied as a whole: it was empty, or the history is not. -/
theorem applyBranch_history {skip : Skip} {recover : DbM Tx L Unit} {xs : List (ForkItem Tx)}
    {relaxed r : Bool} (h : applyBranch env skip recover xs relaxed db = .ok (true, r) db') :
    (r = relaxed ∧ db' = db) ∨ db'.state.history ≠ [] := by
  induction xs generalizing relaxed db with
  | nil =>
      obtain ⟨hr, hdb⟩ := EStateM.Result.ok.inj h
      exact .inl ⟨(Prod.mk.inj hr).2.symm, hdb.symm⟩
  | cons x xs ih =>
      obtain ⟨o, y, hy, h⟩ := bind_eq_ok h
      cases o with
      | applied r' =>
          rcases ih h with ⟨-, rfl⟩ | hne
          · exact .inr (applyRelaxing_history hy)
          · exact .inr hne
      | failed e =>
          obtain ⟨_, _, -, h⟩ := bind_eq_ok h
          obtain ⟨_, _, -, h⟩ := bind_eq_ok h
          exact absurd (Prod.mk.inj (EStateM.Result.ok.inj h).1).1 (by simp)

theorem applyAll_moving (skip : Skip) (xs : List (ForkItem Tx)) (hxs : ∀ x ∈ xs, U x.data)
    (db : Database Tx L) : MovesAt (Moving env U stop items) (applyAll env skip xs) db := by
  induction xs generalizing db with
  | nil => exact MovesAt.pure _ _
  | cons x xs ih =>
      exact MovesAt.bind (applyInSession_moving (hxs x (by simp)) skip db)
        fun _ y _ => ih (fun z hz => hxs z (by simp [hz])) y

/-- The head of the fork database may be set to an item a local variable holds. -/
theorem setHead_moving {x : ForkItem Tx} (hx : x ∈ items) (db : Database Tx L) :
    Moving env U stop items db (db.modifyForkDb (ForkDatabase.setHead x)) :=
  moving_forkDb fun hp =>
    ⟨hp.sound.linked.setHead (ForkDatabase.mem_live.mpr (.inr (.inr (.inr (hp.held ▸ hx))))), hp.held⟩

theorem remove_moving (ids : List BlockId) (db : Database Tx L) :
    Moving env U stop items db (db.modifyForkDb fun f => ids.foldl (fun f id => f.remove id) f) := by
  have h : ∀ f : ForkDatabase Tx, f.Linked U → f.held = items →
      (ids.foldl (fun f id => ForkDatabase.remove id f) f).Linked U ∧
        (ids.foldl (fun f id => ForkDatabase.remove id f) f).held = items := by
    induction ids with
    | nil => exact fun f hl hh => ⟨hl, hh⟩
    | cons id ids ih => exact fun f hl hh => ih _ (hl.remove id) hh
  exact moving_forkDb fun hp => h _ hp.sound.linked hp.held

theorem remove_one_moving (id : BlockId) (db : Database Tx L) :
    Moving env U stop items db (db.modifyForkDb (ForkDatabase.remove id)) := remove_moving [id] db

/-- Emptying the fork database and starting it again with a block in existence. -/
theorem restart_moving {b : Option (SignedBlock Tx)} (hb : ∀ c, b = some c → U c) (db : Database Tx L) :
    MovesAt (Moving env U stop items) (do
      modify (modifyForkDb ForkDatabase.reset)
      match b with
      | none   => pure ()
      | some b => onForkDb (ForkDatabase.startBlock b)) db := by
  refine MovesAt.bind (MovesAt.modify (moving_forkDb fun hp => ⟨hp.sound.linked.reset, hp.held⟩))
    fun _ x _ => ?_
  cases b with
  | none => exact MovesAt.pure _ _
  | some b => exact onForkDb_moving (ForkDatabase.startBlock_keepsLinked (hb b rfl) _) id

theorem resetForkDbToHead_moving (db : Database Tx L) :
    MovesAt (Moving env U stop items) resetForkDbToHead db := fun hp =>
  restart_moving (fun _ hb => (hp.sound.fetchBlockById hb).1) db hp

theorem recoverLinear_moving {ancestor : ForkItem Tx} (ha : ancestor ∈ items)
    (hstop : ∀ s, stop s → s.headBlockId = ancestor.id) (db : Database Tx L) :
    MovesAt (Moving env U stop items) (recoverLinear ancestor) db :=
  MovesAt.get_bind (MovesAt.bind (popBack_moving hstop (fun _ => MovesAt.pure _ _) _ db)
    fun _ x _ => MovesAt.modify (setHead_moving ha x))

theorem recoverFork_moving {skip : Skip} {second : List (ForkItem Tx)} {ancestor : ForkItem Tx}
    (hlast : second.getLast? = some ancestor) (hsub : ∀ x ∈ second, x ∈ items)
    (hU : ∀ x ∈ second, U x.data) (hstop : ∀ s, stop s → s.headBlockId = ancestor.previousId)
    (db : Database Tx L) : MovesAt (Moving env U stop items) (recoverFork env skip second) db := by
  refine MovesAt.get_bind ?_
  rw [hlast]
  cases hfront : second.head? with
  | none => exact resetForkDbToHead_moving db
  | some front =>
      refine MovesAt.bind (popBack_moving hstop (fun _ => MovesAt.pure _ _) _ db) fun _ x _ => ?_
      refine MovesAt.bind (applyAll_moving skip _ (fun y hy => hU y (List.mem_reverse.mp hy)) x)
        fun _ y _ => MovesAt.modify (setHead_moving (hsub front (List.mem_of_mem_head? hfront)) y)

theorem applyBranch_moving {skip : Skip} {recover : DbM Tx L Unit}
    (hrec : ∀ x, MovesAt (Moving env U stop items) recover x) (xs : List (ForkItem Tx))
    (hU : ∀ x ∈ xs, U x.data) (relaxed : Bool) (db : Database Tx L) :
    MovesAt (Moving env U stop items) (applyBranch env skip recover xs relaxed) db := by
  induction xs generalizing relaxed db with
  | nil => exact MovesAt.pure _ _
  | cons x xs ih =>
      refine MovesAt.bind (applyRelaxing_moving (hU x (by simp)) skip db) fun r y _ => ?_
      cases r with
      | applied r => exact ih (fun z hz => hU z (by simp [hz])) _ y
      | failed e =>
          refine MovesAt.bind (MovesAt.modify ?_) fun _ z _ =>
            MovesAt.bind (hrec z) fun _ _ _ => MovesAt.pure _ _
          have h : Moving env U stop items y _ := remove_moving ((x :: xs).map (·.id)) y
          simpa only [List.foldl_map] using h

theorem finishSwitch_moving {newHead : ForkItem Tx} (hn : newHead ∈ items) {correct : Bool}
    (hc : correct = true → db.state.history ≠ []) :
    MovesAt (Moving env U stop items) (finishSwitch newHead correct) db := by
  unfold finishSwitch
  dsimp only
  split
  · next hcorrect =>
      refine MovesAt.bind (MovesAt.modify ?_) fun _ y _ => MovesAt.modify (setHead_moving hn y)
      exact fun hp => ⟨⟨hp.sound.congr rfl rfl rfl, hp.held, hp.idle⟩, .single (.aslot (hc hcorrect) _)⟩
  · exact MovesAt.modify (setHead_moving hn db)

/-- **The body of the switch.** Nothing at or below the fork is undone; in a linear extension nothing at or
    below the old head. -/
theorem runSwitch_moving {skip : Skip} {newHead ancestor : ForkItem Tx} {first second : List (ForkItem Tx)}
    (hlast : second.getLast? = some ancestor) (hitems : ∀ x ∈ newHead :: (first ++ second), x ∈ items)
    (hU : ∀ x ∈ first ++ second, U x.data) (db : Database Tx L)
    (hstop : ∀ s, stop s → s.headBlockId =
      if db.isLinearExtension first second then ancestor.id else ancestor.previousId) :
    MovesAt (Moving env U stop items) (runSwitch env skip newHead first second ancestor) db := by
  have hanc : ancestor ∈ second := List.mem_of_getLast? hlast
  have hsec : ∀ x ∈ second, x ∈ items := fun x hx => hitems x (by simp [hx])
  have hrev : ∀ x ∈ first.reverse, U x.data := fun x hx =>
    hU x (List.mem_append_left _ (List.mem_reverse.mp hx))
  have hend : ∀ (r : Bool × Bool) (c : Bool) (x : Database Tx L),
      (r.1 = true → c = true → x.state.history ≠ []) → MovesAt (Moving env U stop items) (do
      if r.1 then finishSwitch newHead c
      return r.1 : DbM Tx L Bool) x := by
    intro r c x hc
    dsimp only
    split
    · next hr =>
        exact MovesAt.bind (finishSwitch_moving (hitems newHead (by simp)) (hc hr)) fun _ _ _ =>
          MovesAt.pure _ _
    · exact MovesAt.pure _ _
  refine MovesAt.get_bind ?_
  cases hlin : db.isLinearExtension first second with
  | true =>
      rw [hlin] at hstop
      simp only [Bool.not_true, Bool.false_eq_true, if_false, if_true]
      refine MovesAt.bind (applyBranch_moving (recoverLinear_moving (hsec ancestor hanc) hstop) _
        (fun x hx => hrev x (List.mem_of_mem_filter hx)) _ db) ?_
      rintro ⟨r₁, r₂⟩ x hx
      refine hend (r₁, r₂) (r₂ && true) x fun hr hc => ?_
      obtain rfl : r₁ = true := hr
      rcases applyBranch_history hx with ⟨rfl, -⟩ | hne
      · exact absurd hc (by simp)
      · exact hne
  | false =>
      rw [hlin] at hstop
      simp only [Bool.not_false, Bool.false_eq_true, if_false, if_true]
      refine MovesAt.bind (popBack_moving hstop (fun x => ?_) _ db) fun _ x _ => ?_
      · exact MovesAt.bind (MovesAt.modify (remove_one_moving _ x)) fun _ _ _ => MovesAt.throw _ _
      · exact MovesAt.bind (applyBranch_moving (recoverFork_moving hlast hsec
          (fun y hy => hU y (List.mem_append_right _ hy)) hstop) _ hrev _ x) fun r y _ => hend r (r.2 && false) y
          fun _ hc => absurd hc (by simp)

theorem after_holding {α : Type} (xs : List (ForkItem Tx)) (m : DbM Tx L α) (db : Database Tx L) :
    after (holding xs m) db =
      (after m (db.modifyForkDb fun f => { f with held := xs })).modifyForkDb
        (fun f => { f with held := [] }) := by
  simp only [after, holding, bind_run, modify_run, tryCatch_run, throw_run]
  cases m (db.modifyForkDb fun f => { f with held := xs }) <;> rfl

/-- Items that are owned may be held while `m` runs. -/
theorem holding_moving {α : Type} {m : DbM Tx L α} (items : List (ForkItem Tx)) (hsub : Pushing U [] db → ∀ x ∈ items, x ∈ db.forkDb.live)
    (hm : MovesAt (Moving env U stop items) m (db.modifyForkDb fun f => { f with held := items })) :
    MovesAt (Moving env U stop []) (holding items m) db := by
  intro hp
  have hstart : Pushing U items (db.modifyForkDb fun f => { f with held := items }) :=
    ⟨⟨hp.sound.linked.hold (hsub hp), hp.sound.log, hp.sound.dltLog⟩, rfl, hp.idle⟩
  obtain ⟨hq, ht⟩ := hm hstart
  rw [after_holding]
  have hend := hq.sound.linked.hold (fun x (hx : x ∈ []) => absurd hx (by simp))
  refine ⟨⟨⟨hend, hq.sound.log, hq.sound.dltLog⟩, rfl, hq.idle⟩, ?_⟩
  exact .tail (.head (.forkDb _ hstart.sound.linked) ht) (.forkDb _ hend)

/-- The target of a switch to `newHead`: the place where its pops end. -/
def switchTarget (db : Database Tx L) (newHead : ForkItem Tx) : Option BlockId :=
  match db.forkDb.fetchBranchFrom newHead.id db.headBlockId with
  | .error _            => none
  | .ok (first, second) => second.getLast?.map (fun ancestor =>
      if db.isLinearExtension first second then ancestor.id else ancestor.previousId)

/-- **The fork switch.** -/
theorem switchForks_moving {skip : Skip} {newHead : ForkItem Tx} (hn : newHead ∈ db.forkDb.live)
    (hstop : ∀ s, stop s → ∀ id, db.switchTarget newHead = some id → s.headBlockId = id) :
    MovesAt (Moving env U stop []) (switchForks env skip newHead) db := by
  refine MovesAt.get_bind ?_
  split
  · exact MovesAt.bind (MovesAt.modify (remove_one_moving _ db)) fun _ _ _ => MovesAt.throw _ _
  · split
    · exact MovesAt.bind (resetForkDbToHead_moving db) fun _ _ _ => MovesAt.throw _ _
    · next first second hr =>
        split
        · exact MovesAt.throw _ _
        · next ancestor hlast =>
            intro hp
            have hforked := ForkDatabase.fetchBranchFrom_ok hp.sound.linked hr
            have hlive : ∀ x ∈ first ++ second, x ∈ db.forkDb.live := fun x hx =>
              (List.mem_append.mp hx).elim (hforked.liveA x) (hforked.liveB x)
            refine holding_moving (newHead :: (first ++ second)) (fun _ x hx => ?_) ?_ hp
            · rcases List.mem_cons.mp hx with rfl | hx
              · exact hn
              · exact hlive x hx
            · refine runSwitch_moving hlast (fun _ hx => hx)
                (fun x hx => hp.sound.linked.data x (hlive x hx)) _ fun s hs => ?_
              exact hstop s hs _ (by simp only [switchTarget, hr, hlast, Option.map_some]; rfl)

/-! ### The direct application -/

theorem prune_moving (b : SignedBlock Tx) (db : Database Tx L) :
    Moving env U stop items db (db.modifyForkDb (pruneCompeting b)) := by
  have h : ∀ (cs : List (ForkItem Tx)) (f : ForkDatabase Tx), f.Linked U → f.held = items →
      (cs.foldl (fun f cb => if cb.id ≠ b.id ∧ !f.isKnownBlock cb.previousId then f.remove cb.id else f)
        f).Linked U ∧
      (cs.foldl (fun f cb => if cb.id ≠ b.id ∧ !f.isKnownBlock cb.previousId then f.remove cb.id else f)
        f).held = items := by
    intro cs
    induction cs with
    | nil => exact fun f hl hh => ⟨hl, hh⟩
    | cons c cs ih =>
        intro f hl hh
        rw [List.foldl_cons]
        split
        · exact ih _ (hl.remove c.id) hh
        · exact ih _ hl hh
  exact moving_forkDb fun hp => h _ _ hp.sound.linked hp.held

theorem applyCascade_moving (skip : Skip) (xs : List (ForkItem Tx)) (hU : ∀ x ∈ xs, U x.data)
    (db : Database Tx L) : MovesAt (Moving env U stop items) (applyCascade env skip xs) db := by
  induction xs generalizing db with
  | nil => exact MovesAt.pure _ _
  | cons x xs ih =>
      have hrest : ∀ y, MovesAt (Moving env U stop items) (applyCascade env skip xs) y :=
        ih fun z hz => hU z (by simp [hz])
      refine MovesAt.get_bind ?_
      dsimp only
      split
      · exact MovesAt.bind (applyInSession_moving (hU x (by simp)) skip db) fun _ y _ => hrest y
      · exact hrest db

theorem recoverCascade_moving {original : Nat} (hstop : ∀ s, stop s → s.headBlockNum ≤ original)
    (db : Database Tx L) : MovesAt (Moving env U stop items) (recoverCascade original) db := by
  intro hp
  refine MovesAt.get_bind (R := Moving env U stop items)
    (MovesAt.bind (popAbove_moving hstop _ db) fun _ x _ => ?_) hp
  exact restart_moving (fun _ hb => (hp.sound.fetchBlockById hb).1) x

theorem applyCascade_kept (skip : Skip) (xs : List (ForkItem Tx)) (db : Database Tx L) :
    MovesAt SameKept (applyCascade env skip xs) db := by
  induction xs generalizing db with
  | nil => exact MovesAt.pure _ _
  | cons x xs ih =>
      refine MovesAt.get_bind ?_
      dsimp only
      split
      · exact MovesAt.bind (applyInSession_kept x.data skip db) fun _ y _ => ih y
      · exact ih db

theorem tryCascade_moving {skip : Skip} {fb : ForkItem Tx} (hfb : db.forkDb.head = some fb) :
    MovesAt (Moving env U stop []) (tryCascade env skip fb) db := by
  refine MovesAt.get_bind ?_
  split
  · exact MovesAt.throw _ _
  · next first second hr =>
      split
      · intro hp
        have hforked := ForkDatabase.fetchBranchFrom_ok hp.sound.linked hr
        refine holding_moving (fb :: (first ++ second)) (fun _ x hx => ?_) ?_ hp
        · rcases List.mem_cons.mp hx with rfl | hx
          · exact ForkDatabase.mem_live_of_head hfb
          · exact (List.mem_append.mp hx).elim (hforked.liveA x) (hforked.liveB x)
        · refine MovesAt.bind (applyCascade_moving skip _ (fun x hx => ?_) _) fun _ y _ =>
            MovesAt.modify (setHead_moving (by simp) y)
          exact hp.sound.linked.data x (hforked.liveA x (List.mem_reverse.mp hx))
      · exact MovesAt.pure _ _

theorem holding_eq_error {α : Type} {xs : List (ForkItem Tx)} {m : DbM Tx L α} {e : Exn}
    (h : holding xs m db = .error e db') :
    ∃ x, m (db.modifyForkDb fun f => { f with held := xs }) = .error e x ∧
      db' = x.modifyForkDb (fun f => { f with held := [] }) := by
  simp only [holding, bind_run, modify_run, tryCatch_run, throw_run] at h
  cases hm : m (db.modifyForkDb fun f => { f with held := xs }) with
  | ok a x => rw [hm] at h; exact absurd h (by simp)
  | error e' x =>
      rw [hm] at h
      obtain ⟨rfl, rfl⟩ := EStateM.Result.error.inj h
      exact ⟨x, rfl, rfl⟩

/-- A cascade that throws has left the head of the fork database where it was. -/
theorem tryCascade_error {skip : Skip} {fb : ForkItem Tx} {e : Exn}
    (h : tryCascade env skip fb db = .error e db') : db'.forkDb.head = db.forkDb.head := by
  simp only [tryCascade, get_bind_run] at h
  cases hr : db.forkDb.fetchBranchFrom fb.id db.headBlockId with
  | error e' =>
      rw [hr] at h
      obtain rfl := (EStateM.Result.error.inj h).2
      rfl
  | ok r =>
      rw [hr] at h
      by_cases hlin : db.isLinearExtension r.1 r.2 = true
      · simp only [hlin, if_true] at h
        obtain ⟨x, hx, rfl⟩ := holding_eq_error h
        rcases bind_eq_error hx with hx | ⟨_, y, -, hy⟩
        · have hkept := (applyCascade_kept skip _ _).of_error hx
          exact hkept.head
        · exact absurd hy (by simp)
      · simp only [hlin] at h
        exact absurd h (by simp)

theorem cascade_moving {b : SignedBlock Tx} {skip : Skip}
    (hstop : ∀ s, stop s → s.headBlockNum ≤ db.headBlockNum) :
    MovesAt (Moving env U stop []) (cascade env b skip) db := by
  refine MovesAt.get_bind ?_
  split
  · exact MovesAt.pure _ _
  · next fb hfb =>
      split
      · refine MovesAt.tryCatch (tryCascade_moving hfb) fun e x hx => ?_
        refine holding_moving [fb] (fun _ y hy => ?_) (recoverCascade_moving hstop _)
        rw [List.mem_singleton.mp hy]
        exact ForkDatabase.mem_live_of_head ((tryCascade_error hx).trans hfb)
      · exact MovesAt.pure _ _

theorem applyOrKeep_moving {b : SignedBlock Tx} (hb : U b) (skip : Skip) (db : Database Tx L) :
    MovesAt (Moving env U stop items) (applyOrKeep env b skip) db := by
  refine MovesAt.tryCatch
    (MovesAt.bind (applyInSession_moving hb skip db) fun _ _ _ => MovesAt.pure _ _) fun e x _ => ?_
  split
  · exact MovesAt.pure _ _
  · exact MovesAt.bind (MovesAt.modify (remove_one_moving _ x)) fun _ _ _ => MovesAt.throw _ _

/-- The block was applied. -/
theorem applyOrKeep_eq_true {b : SignedBlock Tx} {skip : Skip}
    (h : applyOrKeep env b skip db = .ok true db') : applyInSession env b skip db = .ok () db' := by
  rcases tryCatch_eq_ok h with h | ⟨e, x, -, h⟩
  · obtain ⟨⟨⟩, y, hy, h⟩ := bind_eq_ok h
    rw [hy, (EStateM.Result.ok.inj h).2]
  · split at h
    · exact absurd (EStateM.Result.ok.inj h).1 (by simp)
    · exact absurd h (by simp [bind_run])

theorem applyDirect_moving {b : SignedBlock Tx} {skip : Skip} (hb : U b)
    (hstop : ∀ x, applyInSession env b skip db = .ok () x → ∀ s, stop s → s.headBlockNum ≤ x.headBlockNum) :
    MovesAt (Moving env U stop []) (applyDirect env b skip) db := by
  refine MovesAt.bind (applyOrKeep_moving hb skip db) fun applied x hx => ?_
  cases applied with
  | false => exact MovesAt.pure _ _
  | true =>
      refine MovesAt.bind (MovesAt.modify (prune_moving b x)) fun _ y hy => ?_
      obtain rfl := (EStateM.Result.ok.inj hy).2
      exact MovesAt.bind (cascade_moving (hstop x (applyOrKeep_eq_true hx))) fun _ _ _ => MovesAt.pure _ _

/-! ### The push -/

theorem seedParent_moving {b : SignedBlock Tx} (db : Database Tx L) :
    MovesAt (Moving env U stop []) (seedParent b) db := by
  refine MovesAt.get_bind ?_
  split
  · split
    · exact MovesAt.throw _ _
    · next p hp =>
        intro hpush
        have hU := (hpush.sound.fetchBlockById hp).1
        refine MovesAt.bind (R := Moving env U stop []) (MovesAt.tryCatch ?_ fun e x _ => ?_)
          (fun _ _ _ => MovesAt.pure _ _) hpush
        · exact onForkDb_moving (ForkDatabase.pushBlock_keepsLinked hU _)
            fun h => (ForkDatabase.pushBlock_grows p _ : ForkDatabase.Grows _ _).2.trans h
        · split
          · exact MovesAt.pure _ _
          · exact MovesAt.throw _ _
  · exact MovesAt.pure _ _

theorem screenBlock_moving {b : SignedBlock Tx} (hb : U b) (db : Database Tx L) :
    MovesAt (Moving env U stop []) (screenBlock b) db := by
  refine MovesAt.get_bind ?_
  split
  · split
    · dsimp only
      split
      · exact MovesAt.bind (onForkDb_moving (ForkDatabase.insertAsBase_keepsLinked hb _)
          (ForkDatabase.insertAsBase_held b _)) fun _ _ _ => MovesAt.pure _ _
      · exact MovesAt.pure _ _
    · exact MovesAt.bind (seedParent_moving db) fun _ _ _ => MovesAt.pure _ _
  · split
    · split <;> exact MovesAt.pure _ _
    · exact MovesAt.pure _ _

theorem seedHead_moving (b : SignedBlock Tx) (db : Database Tx L) :
    MovesAt (Moving env U stop []) (seedHead b) db := by
  refine MovesAt.get_bind ?_
  split
  · split
    · exact MovesAt.pure _ _
    · next h hh =>
        intro hp
        exact onForkDb_moving (ForkDatabase.startBlock_keepsLinked (hp.sound.fetchBlockById hh).1 _) id hp
  · exact MovesAt.pure _ _

theorem linkBlock_moving {b : SignedBlock Tx} (hb : U b) (expect : Bool) (db : Database Tx L) :
    MovesAt (Moving env U stop []) (linkBlock b expect) db := by
  refine MovesAt.tryCatch ?_ fun e y _ => ?_
  · exact onForkDb_moving (ForkDatabase.pushBlock_keepsLinked hb _)
      fun h => (ForkDatabase.pushBlock_grows b _ : ForkDatabase.Grows _ _).2.trans h
  · split
    · exact MovesAt.pure _ _
    · exact MovesAt.throw _ _

theorem planPush_moving {b : SignedBlock Tx} (hb : U b) (skip : Skip) (db : Database Tx L) :
    MovesAt (Moving env U stop []) (planPush b skip) db := by
  refine MovesAt.bind (screenBlock_moving hb db) fun r x _ => ?_
  cases r with
  | done => exact MovesAt.pure _ _
  | proceed expect =>
      dsimp only
      split
      · exact MovesAt.pure _ _
      · refine MovesAt.bind (MovesAt.bind (seedHead_moving b x) fun _ y _ => linkBlock_moving hb expect y)
          fun r y _ => ?_
        cases r with
        | none => exact MovesAt.pure _ _
        | some newHead => exact MovesAt.get_bind (MovesAt.pure _ _)

end Traversal

/-! ### The plan changes the fork database only -/

/-- Only the fork database changes. -/
def ForkDbOnly (db db' : Database Tx L) : Prop := db' = { db with forkDb := db'.forkDb }

instance forkDbOnlyPreorder : IsPreorder (Database Tx L) ForkDbOnly where
  refl _ := rfl
  trans _ _ _ h₁ h₂ := by
    unfold ForkDbOnly at h₁ h₂ ⊢
    rw [h₂, h₁]

theorem ForkDbOnly.chainbase (h : ForkDbOnly db db') : db'.chainbase = db.chainbase := by rw [h]

theorem onForkDb_only {α : Type} (m : ForkDatabase.M Tx α) (db : Database Tx L) :
    MovesAt ForkDbOnly (onForkDb m) db := MovesAt.zoom rfl

theorem seedParent_only (b : SignedBlock Tx) (db : Database Tx L) :
    MovesAt ForkDbOnly (seedParent b) db := by
  refine MovesAt.get_bind ?_
  split
  · split
    · exact MovesAt.throw _ _
    · refine MovesAt.bind (MovesAt.tryCatch (onForkDb_only _ db) fun e x _ => ?_) fun _ _ _ =>
        MovesAt.pure _ _
      split
      · exact MovesAt.pure _ _
      · exact MovesAt.throw _ _
  · exact MovesAt.pure _ _

theorem screenBlock_only (b : SignedBlock Tx) (db : Database Tx L) :
    MovesAt ForkDbOnly (screenBlock b) db := by
  refine MovesAt.get_bind ?_
  split
  · split
    · dsimp only
      split
      · exact MovesAt.bind (onForkDb_only _ db) fun _ _ _ => MovesAt.pure _ _
      · exact MovesAt.pure _ _
    · exact MovesAt.bind (seedParent_only b db) fun _ _ _ => MovesAt.pure _ _
  · split
    · split <;> exact MovesAt.pure _ _
    · exact MovesAt.pure _ _

theorem seedHead_only (b : SignedBlock Tx) (db : Database Tx L) : MovesAt ForkDbOnly (seedHead b) db := by
  refine MovesAt.get_bind ?_
  split
  · split
    · exact MovesAt.pure _ _
    · exact onForkDb_only _ db
  · exact MovesAt.pure _ _

theorem linkBlock_only (b : SignedBlock Tx) (expect : Bool) (db : Database Tx L) :
    MovesAt ForkDbOnly (linkBlock b expect) db := by
  refine MovesAt.tryCatch (onForkDb_only _ db) fun e y _ => ?_
  split
  · exact MovesAt.pure _ _
  · exact MovesAt.throw _ _

theorem insertBlock_only (b : SignedBlock Tx) (expect : Bool) (db : Database Tx L) :
    MovesAt ForkDbOnly (insertBlock b expect) db :=
  MovesAt.bind (seedHead_only b db) fun _ x _ => linkBlock_only b expect x

theorem planPush_only (b : SignedBlock Tx) (skip : Skip) (db : Database Tx L) :
    MovesAt ForkDbOnly (planPush b skip) db := by
  refine MovesAt.bind (screenBlock_only b db) fun r x _ => ?_
  cases r with
  | done => exact MovesAt.pure _ _
  | proceed expect =>
      dsimp only
      split
      · exact MovesAt.pure _ _
      · refine MovesAt.bind (insertBlock_only b expect x) fun r y _ => ?_
        cases r with
        | none => exact MovesAt.pure _ _
        | some newHead => exact MovesAt.get_bind (MovesAt.pure _ _)

/-- The fork database answers a push with its own head. -/
theorem forkPush_head {b : SignedBlock Tx} {f g : ForkDatabase Tx} {r : Option (ForkItem Tx)}
    (h : ForkDatabase.pushBlock b f = .ok r g) : r = g.head := by
  obtain ⟨_, _, -, h⟩ := bind_eq_ok h
  obtain ⟨_, _, -, h⟩ := bind_eq_ok h
  obtain ⟨_, _, -, h⟩ := bind_eq_ok h
  obtain ⟨rfl, rfl⟩ := EStateM.Result.ok.inj h
  rfl

theorem onForkDb_eq_ok {α : Type} {m : ForkDatabase.M Tx α} {a : α} (h : onForkDb m db = .ok a db') :
    m db.forkDb = .ok a db'.forkDb ∧ ForkDbOnly db db' := by
  refine ⟨?_, (onForkDb_only m db).of_ok h⟩
  unfold onForkDb zoom at h
  dsimp only at h
  cases hm : m db.forkDb with
  | ok b f =>
      rw [hm] at h
      obtain ⟨rfl, rfl⟩ := EStateM.Result.ok.inj h
      rfl
  | error e f => rw [hm] at h; exact absurd h (by simp)

/-- What the insertion returns is the head of the fork database. -/
theorem linkBlock_head {b : SignedBlock Tx} {expect : Bool} {newHead : ForkItem Tx}
    (h : linkBlock b expect db = .ok (some newHead) db') : db'.forkDb.head = some newHead := by
  rcases tryCatch_eq_ok h with h | ⟨e, y, -, h⟩
  · exact (forkPush_head (onForkDb_eq_ok h).1).symm
  · split at h
    · exact absurd (EStateM.Result.ok.inj h).1 (by simp)
    · exact absurd h (by simp)

/-- **What the plan decides.** The block is not pursued, or it goes the way the fork choice says, with the
    head of the fork database in hand. -/
theorem planPush_cases {b : SignedBlock Tx} {skip : Skip} {route : Route Tx}
    (h : planPush b skip db = .ok route db') :
    route = .keep ∨ (route = .direct ∧ skip.forkDb = true) ∨
      ∃ newHead, db'.forkDb.head = some newHead ∧ route = db'.chooseRoute b newHead := by
  obtain ⟨r, x, -, h⟩ := bind_eq_ok h
  cases r with
  | done => exact .inl (EStateM.Result.ok.inj h).1.symm
  | proceed expect =>
      by_cases hs : skip.forkDb = true
      · simp only [hs, if_true] at h
        exact .inr (.inl ⟨(EStateM.Result.ok.inj h).1.symm, hs⟩)
      · simp only [hs] at h
        obtain ⟨r, y, hy, h⟩ := bind_eq_ok h
        obtain ⟨_, z, -, hy⟩ := bind_eq_ok hy
        cases r with
        | none => exact .inl (EStateM.Result.ok.inj h).1.symm
        | some newHead =>
            obtain ⟨rfl, rfl⟩ := EStateM.Result.ok.inj h
            exact .inr (.inr ⟨newHead, linkBlock_head hy, rfl⟩)

theorem planPush_switch {b : SignedBlock Tx} {skip : Skip} {newHead : ForkItem Tx}
    (h : planPush b skip db = .ok (.switchTo newHead) db') :
    db'.forkDb.head = some newHead ∧ db'.chooseRoute b newHead = .switchTo newHead := by
  rcases planPush_cases h with hr | ⟨hr, -⟩ | ⟨x, hx, hr⟩
  · exact absurd hr (by simp)
  · exact absurd hr (by simp)
  · have hr' := hr.symm
    unfold chooseRoute at hr
    split at hr
    · exact absurd hr (by simp)
    · split at hr
      · exact absurd hr (by simp)
      · split at hr
        · obtain rfl := Route.switchTo.inj hr
          exact ⟨hx, hr'⟩
        · exact absurd hr (by simp)

/-! ### The call -/

/-- The states a push from `db` does not undo: `stop` says so for the route it takes. -/
structure StopsAt (env : Env Tx L) (b : SignedBlock Tx) (skip : Skip) (stop : ChainState Tx L → Prop)
    (db : Database Tx L) : Prop where
  direct : ∀ x y, planPush b skip db = .ok .direct x → applyInSession env b skip x = .ok () y →
    ∀ s, stop s → s.headBlockNum ≤ y.headBlockNum
  switch : ∀ x h, planPush b skip db = .ok (.switchTo h) x →
    ∀ s, stop s → ∀ id, x.switchTarget h = some id → s.headBlockId = id

/-- **A push goes on by moves.** -/
theorem pushBlockStages_moving {env : Env Tx L} {b : SignedBlock Tx} (hb : U b) {skip : Skip}
    {stop : ChainState Tx L → Prop} (hstop : StopsAt env b skip stop db) :
    MovesAt (Moving env U stop []) (pushBlockStages env b skip) db := by
  refine MovesAt.bind (planPush_moving hb skip db) fun route x hx => ?_
  cases route with
  | direct => exact applyDirect_moving hb fun y hy => hstop.direct x y hx hy
  | switchTo h =>
      exact switchForks_moving (ForkDatabase.mem_live_of_head (planPush_switch hx).1) (hstop.switch x h hx)
  | keep => exact MovesAt.pure _ _

/-- The moves of a push about whose pops nothing is said. -/
theorem pushBlockStages_moves {env : Env Tx L} {b : SignedBlock Tx} (hb : U b) (skip : Skip)
    (db : Database Tx L) : MovesAt (Moving env U (fun _ => False) []) (pushBlockStages env b skip) db :=
  pushBlockStages_moving hb ⟨fun _ _ _ _ _ hs => hs.elim, fun _ _ _ _ hs => hs.elim⟩

end Database

end VizNode
