import VizNode.Chain.Moves

/-!
# `VizNode.Chain.Pending` — the pending transactions around a push

`push_block` takes the pending session away before it starts and pushes the pending transactions again on
either way out. **Nothing of this reaches below the pending session**: the chain state without the pending
session (`settled`) is what blocks have made of it.

## Contents
- **Transactions.** `TxMove`, what a pushed transaction does, and `restorePending_moves`.
- **The call.** `pushBlock_run`: a push is its stages between taking the pending session away and putting
  the transactions back.
- **Steps.** `step_stored`, `run_stored`: the storage of a node stays in order.
-/

namespace VizNode

namespace Database

open Prog Relation

variable {Tx L : Type} {db db' : Database Tx L} {env : Env Tx L}

/-! ## Transactions -/

/-- The pending session is one of the saved states. -/
def PendingOpen (db : Database Tx L) : Prop := db.pendingTxSession = true → db.chainbase.stack ≠ []

/-- **What pending transactions do.** -/
inductive TxMove (env : Env Tx L) : Database Tx L → Database Tx L → Prop where
  | queued {db : Database Tx L} (pending popped : List Tx) :
      TxMove env db { db with pendingTx := pending, poppedTx := popped }
  | opened {db : Database Tx L} : TxMove env db db.openPendingSession
  | executed {db : Database Tx L} {c : Core L} {skip : Skip} {tx : Tx} (hp : db.pendingTxSession = true)
      (h : db.state.core.runLedger env (env.applyTransaction skip tx) = .ok c) :
      TxMove env db (db.modifyState (fun s => { s with core := c }))

theorem pendingOpen_openPendingSession (h : PendingOpen db) : PendingOpen db.openPendingSession := by
  unfold openPendingSession
  split
  · exact h
  · intro _
    simp [startUndoSession]

theorem openPendingSession_pending (db : Database Tx L) : db.openPendingSession.pendingTxSession = true := by
  unfold openPendingSession
  split
  · next h => exact h
  · rfl

theorem TxMove.pendingOpen (t : TxMove env db db') (h : PendingOpen db) : PendingOpen db' := by
  cases t with
  | queued _ _ => exact h
  | opened => exact pendingOpen_openPendingSession h
  | executed _ _ => exact h

/-- **What a pushed transaction does.** It throws and leaves the pending session open, or it runs in it. -/
theorem pushTransaction_cases (env : Env Tx L) (h : PendingOpen db) (tx : Tx) (skip : Skip) :
    (∃ e, pushTransaction env tx skip db = .error e db.openPendingSession) ∨
    ∃ c, db.openPendingSession.state.core.runLedger env
        (env.applyTransaction skip.forTransactions tx) = .ok c ∧
      pushTransaction env tx skip db = .ok () { db.openPendingSession.modifyState
        (fun s => { s with core := c }) with pendingTx := db.openPendingSession.pendingTx ++ [tx] } := by
  have hundo : db.openPendingSession.startUndoSession.undo = db.openPendingSession := by
    simp [undo, startUndoSession, UndoDb.undo, UndoDb.startSession]
  have hstate : db.openPendingSession.startUndoSession.state = db.openPendingSession.state := rfl
  obtain ⟨e, st, hst⟩ := List.exists_cons_of_ne_nil
    (pendingOpen_openPendingSession h (openPendingSession_pending db))
  simp only [pushTransaction, bind_run, modify_run, get_run, hstate]
  cases hc : db.openPendingSession.state.core.runLedger env
      (env.applyTransaction skip.forTransactions tx) with
  | error x => exact .inl ⟨x, by simp only [bind_run, modify_run, throw_run, hundo]⟩
  | ok c =>
      refine .inr ⟨c, rfl, ?_⟩
      simp only [set_run]
      simp [startUndoSession, UndoDb.startSession, UndoDb.squash, UndoDb.modify, modifyState, hst]

theorem pushTransaction_moves (h : PendingOpen db) (tx : Tx) (skip : Skip) :
    ReflTransGen (TxMove env) db (after (pushTransaction env tx skip) db) := by
  rcases pushTransaction_cases env h tx skip with ⟨e, he⟩ | ⟨c, hc, he⟩
  · rw [after_error he]
    exact .single .opened
  · rw [after_ok he]
    exact .tail (.tail (.single .opened) (.executed (openPendingSession_pending db) hc)) (.queued _ _)

theorem TxMoves.pendingOpen (t : ReflTransGen (TxMove env) db db') (h : PendingOpen db) :
    PendingOpen db' := by
  induction t with
  | refl => exact h
  | tail _ t ih => exact t.pendingOpen ih

/-- Putting transactions back never throws. -/
theorem repushTransactions_moves (env : Env Tx L) (skip : Skip) (txs : List Tx) (h : PendingOpen db) :
    ∃ db', repushTransactions env skip txs db = .ok () db' ∧ ReflTransGen (TxMove env) db db' := by
  induction txs generalizing db with
  | nil => exact ⟨db, rfl, .refl⟩
  | cons tx txs ih =>
      simp only [repushTransactions, get_bind_run]
      split
      · have ht : ReflTransGen (TxMove env) db _ := pushTransaction_moves h tx skip
        obtain ⟨y, hy, hm⟩ := ih (TxMoves.pendingOpen ht h)
        refine ⟨y, ?_, ht.trans hm⟩
        rw [bind_run, tryCatch_run]
        unfold after at hy
        cases hr : pushTransaction env tx skip db <;> simpa [hr] using hy
      · exact ih h

theorem restorePending_moves (env : Env Tx L) (skip : Skip) (pending : List Tx) (h : PendingOpen db) :
    ∃ db', restorePending env skip pending db = .ok () db' ∧ ReflTransGen (TxMove env) db db' := by
  have h' : PendingOpen { db with poppedTx := [] } := h
  obtain ⟨y, hy, hm⟩ := repushTransactions_moves env skip
    ((db.poppedTx ++ pending).take env.pendingLimit) h'
  refine ⟨_, ?_, .tail (.head (.queued db.pendingTx []) hm)
    (.queued (y.pendingTx ++ (db.poppedTx ++ pending).drop env.pendingLimit) y.poppedTx)⟩
  simp only [restorePending, bind_run, get_run, set_run, hy, modify_run]

/-! ## The call -/

/-- **The node a push starts from and the node it leaves**, around its stages. The answer is that of the
    stages. -/
theorem pushBlock_run (b : SignedBlock Tx) (skip : Skip)
    (hopen : PendingOpen (after (pushBlockStages env b skip) db.clearPending)) :
    ∃ db', ReflTransGen (TxMove env) (after (pushBlockStages env b skip) db.clearPending) db' ∧
      ((∃ a, (∃ x, pushBlockStages env b skip db.clearPending = .ok a x) ∧
          pushBlock env b skip db = .ok a db') ∨
        ∃ e, (∃ x, pushBlockStages env b skip db.clearPending = .error e x) ∧
          pushBlock env b skip db = .error e db') := by
  obtain ⟨y, hy, hm⟩ := restorePending_moves env skip db.pendingTx hopen
  refine ⟨y, hm, ?_⟩
  unfold after at hy
  cases hr : pushBlockStages env b skip db.clearPending with
  | ok a x =>
      rw [hr] at hy
      dsimp only at hy
      refine .inl ⟨a, ⟨x, rfl⟩, ?_⟩
      simp only [pushBlock, withoutPending, bind_run, get_run, set_run, tryCatch_run, hr, hy, pure_run]
  | error e x =>
      rw [hr] at hy
      dsimp only at hy
      refine .inr ⟨e, ⟨x, rfl⟩, ?_⟩
      simp only [pushBlock, withoutPending, bind_run, get_run, set_run, tryCatch_run, hr, hy, throw_run]

/-! ## Steps -/

/-- The storage outside the chain state, and the journal. -/
structure SameStorage (db db' : Database Tx L) : Prop where
  forkDb  : db'.forkDb = db.forkDb
  log     : db'.blockLog = db.blockLog
  dltLog  : db'.dltBlockLog = db.dltBlockLog
  journal : db'.journal = db.journal

instance sameStoragePreorder : IsPreorder (Database Tx L) SameStorage where
  refl _ := ⟨rfl, rfl, rfl, rfl⟩
  trans _ _ _ h₁ h₂ :=
    ⟨h₂.forkDb.trans h₁.forkDb, h₂.log.trans h₁.log, h₂.dltLog.trans h₁.dltLog,
      h₂.journal.trans h₁.journal⟩

theorem TxMoves.storage (t : ReflTransGen (TxMove env) db db') : SameStorage db db' := by
  induction t with
  | refl => exact refl_of _ _
  | tail _ t ih =>
      refine trans_of SameStorage ih ?_
      cases t with
      | queued _ _ => exact ⟨rfl, rfl, rfl, rfl⟩
      | opened =>
          unfold openPendingSession
          split <;> exact ⟨rfl, rfl, rfl, rfl⟩
      | executed _ _ => exact ⟨rfl, rfl, rfl, rfl⟩

theorem pushTransaction_storage (tx : Tx) (skip : Skip) (db : Database Tx L) :
    MovesAt SameStorage (pushTransaction env tx skip) db := by
  have hopen : SameStorage db db.openPendingSession.startUndoSession := by
    unfold openPendingSession
    split <;> exact ⟨rfl, rfl, rfl, rfl⟩
  refine MovesAt.bind (MovesAt.modify hopen) fun _ x _ => MovesAt.get_bind ?_
  split
  · exact MovesAt.bind (R := SameStorage) (MovesAt.modify ⟨rfl, rfl, rfl, rfl⟩) fun _ _ _ => MovesAt.throw _ _
  · exact MovesAt.set ⟨rfl, rfl, rfl, rfl⟩

/-- **The storage of the node is in order between steps**: sound, with no item held. -/
structure Stored (U : SignedBlock Tx → Prop) (db : Database Tx L) : Prop where
  sound : Sound U db
  held  : db.forkDb.held = []

theorem Stored.congr {U : SignedBlock Tx → Prop} (h : Stored U db) (hs : SameStorage db db') : Stored U db' :=
  ⟨h.sound.congr hs.forkDb hs.log hs.dltLog, hs.forkDb ▸ h.held⟩

theorem clearPending_storage (db : Database Tx L) : SameStorage db db.clearPending := by
  unfold clearPending resetPendingSession
  split <;> exact ⟨rfl, rfl, rfl, rfl⟩

theorem clearPending_idle (db : Database Tx L) : db.clearPending.pendingTxSession = false := by
  unfold clearPending resetPendingSession
  split
  · rfl
  · next h => simpa using h

theorem Stored.pushing {U : SignedBlock Tx → Prop} (h : Stored U db) : Pushing U [] db.clearPending :=
  have hc := h.congr (clearPending_storage db)
  ⟨hc.sound, hc.held, clearPending_idle db⟩

/-- **A push, as a whole**: the pending session is taken away, the stages go by moves, and transactions
    are put back. -/
theorem pushBlock_moving {U : SignedBlock Tx → Prop} {b : SignedBlock Tx} (hb : U b) {skip : Skip}
    {stop : ChainState Tx L → Prop} (hstop : StopsAt env b skip stop db.clearPending) (h : Stored U db) :
    ∃ x, Pushing U [] x ∧ ReflTransGen (Move env U stop) db.clearPending x ∧
      x = after (pushBlockStages env b skip) db.clearPending ∧
      ReflTransGen (TxMove env) x (after (pushBlock env b skip) db) := by
  obtain ⟨hx, hm⟩ := pushBlockStages_moving hb hstop h.pushing
  have hopen : PendingOpen (after (pushBlockStages env b skip) db.clearPending) := fun hp =>
    absurd hx.idle (by simp [hp])
  obtain ⟨y, hy, ⟨a, -, hr⟩ | ⟨e, -, hr⟩⟩ := pushBlock_run b skip hopen
  · exact ⟨_, hx, hm, rfl, by rw [after_ok hr]; exact hy⟩
  · exact ⟨_, hx, hm, rfl, by rw [after_error hr]; exact hy⟩

/-- The push of a node about whose pops nothing is said. -/
theorem stopsAt_never (b : SignedBlock Tx) (skip : Skip) (db : Database Tx L) :
    StopsAt env b skip (fun _ => False) db :=
  ⟨fun _ _ _ _ _ hs => hs.elim, fun _ _ _ _ hs => hs.elim⟩

theorem ConfirmTick.stored {U : SignedBlock Tx → Prop} {id : BlockId} {account : AccountName}
    (t : ConfirmTick id account db db') (h : Stored U db) : Stored U db' := by
  cases t with
  | lib t => exact ⟨t.sound h.sound, t.kept.held.trans h.held⟩
  | marked _ _ => exact h.congr ⟨rfl, rfl, rfl, rfl⟩

theorem step_stored {U : SignedBlock Tx → Prop} (x : Step Tx) (hx : x.From U) (h : Stored U db) :
    Stored U (step env db x) := by
  cases x with
  | block b skip =>
      obtain ⟨y, hy, -, -, ht⟩ := pushBlock_moving hx (stopsAt_never b skip db.clearPending) h
      exact Stored.congr ⟨hy.sound, hy.held⟩ (TxMoves.storage ht)
  | confirmation id account =>
      exact applyBlockPostValidation_moves (R := Keeps (Stored U)) (fun _ _ t => t.stored) db h
  | transaction tx skip => exact h.congr (pushTransaction_storage tx skip db)

/-- **The storage is in order in every state a run reaches.** -/
theorem run_stored {U : SignedBlock Tx → Prop} {steps : List (Step Tx)} (hs : ∀ x ∈ steps, x.From U)
    (h : Stored U db) : Stored U (run env db steps) :=
  run_induction (fun _ x hx => step_stored x hx) h hs

end Database

/-- A node of the sample network starts in order. -/
theorem Sample.node_stored {U : SignedBlock Sample.Tx → Prop} (hU : U Sample.block1)
    (validators : List Validator) (schedule : List AccountName) :
    Database.Stored U (Sample.node validators schedule) := by
  have hlive : ∀ x ∈ (Sample.node validators schedule).forkDb.live, x = { ptr := 0, data := Sample.block1 } := by
    intro x hx
    rcases ForkDatabase.mem_live.mp hx with h | h | h | h
    · exact List.mem_singleton.mp h
    · exact absurd h (by simp [Sample.node])
    · exact (Option.some.inj h).symm
    · exact absurd h (by simp [Sample.node])
  refine ⟨⟨⟨?_, ?_, ?_, ?_, ?_⟩, ?_, ?_⟩, rfl⟩
  · intro x hx; rw [hlive x hx]; exact hU
  · intro x hx; rw [hlive x hx]; exact Nat.zero_lt_one
  · intro x hx y hy _; rw [hlive x hx, hlive y hy]
  · intro x hx q hq; rw [hlive x hx] at hq; exact absurd hq (by simp)
  · intro x hx y hy hq; rw [hlive x hx] at hq; exact absurd hq (by simp)
  · intro b hb; rw [List.mem_singleton.mp hb]; exact hU
  · intro b hb; exact absurd hb (by simp [Sample.node])

/-- Whatever blocks arrive, a node of the sample network stays in order. -/
theorem Sample.push_stored {U : SignedBlock Sample.Tx → Prop} {db : Database Sample.Tx Unit}
    (h : Database.Stored U db) {blocks : List (SignedBlock Sample.Tx)} (hU : ∀ b ∈ blocks, U b) :
    Database.Stored U (Sample.push db blocks) := by
  refine Database.run_stored (fun x hx => ?_) h
  obtain ⟨b, hb, rfl⟩ := List.mem_map.mp hx
  exact hU b hb

end VizNode
