import VizNode.Chain.Irreversible

/-!
# `VizNode.Chain.ApplyBlock` — applying and popping blocks

`apply_block` with its side effects, the undo session around it, `pop_block`, and the pending
transactions that `push_block` takes away and puts back.

A block application throws without cleaning up: it is the undo session of the caller that restores the
chain state. The fork database, the logs and the emergency flag of the fork database are not restored.
When the application has made its own block irreversible, its own session is committed and nothing is
left to restore.
-/

namespace VizNode

namespace Database

variable {Tx L : Type}

/-! ## Blocks -/

/-- The timestamp the emergency check compares with: it is looked up only when the check is made. -/
def libTime (db : Database Tx L) : Option Nat :=
  if db.state.core.hasHardfork 12 && !db.state.core.emergencyConsensusActive && decide (0 < db.lib) then
    (db.fetchBlockByNumber db.lib).map (·.timestamp)
  else none

/-- The head has moved: the new core, and a record in the history. -/
def enterBlock (b : SignedBlock Tx) (skip : Skip) (time : Option Nat) (c : Core L) (db : Database Tx L) :
    Database Tx L :=
  db.modifyState (fun s =>
    { s with
      core    := c
      history := { block := b, txSkip := skip.forTransactions, libTime := time } :: s.history })

/-- The fork database follows a change of the emergency mode. -/
def notifyEmergency (before after : Bool) (db : Database Tx L) : Database Tx L :=
  if before = after then db else db.modifyForkDb (ForkDatabase.setEmergencyMode after)

/-- What follows in `_apply_block` when the head has moved to `b`; `active` is the emergency mode at this
    point. -/
def finishStages (env : Env Tx L) (skip : Skip) (b : SignedBlock Tx) (active : Bool) : DbM Tx L Unit := do
  updateLastIrreversibleBlock skip
  onCore (Core.finishSchedule env b)
  modify fun db => db.notifyEmergency active db.state.core.emergencyConsensusActive
  onCore (Core.finishLedger env)
  checkBlockPostValidationChain
  modify (createBlockPostValidation b.blockNum b.id b.validator)

/-- The second half of `_apply_block`; the history records that it came to its end. -/
def finishBlock (env : Env Tx L) (skip : Skip) (b : SignedBlock Tx) (active : Bool) : DbM Tx L Unit := do
  finishStages env skip b active
  modify (modifyRecord (fun r => { r with complete := true }))

/-- `_apply_block`. -/
def applyBlockStages (env : Env Tx L) (skip : Skip) (b : SignedBlock Tx) : DbM Tx L Unit := do
  let db ← get
  match db.state.core.beginBlock env skip db.lib db.libTime b with
  | .error e => throw e
  | .ok c    => do
      set ((db.enterBlock b skip db.libTime c).notifyEmergency
        db.state.core.emergencyConsensusActive c.emergencyConsensusActive)
      finishBlock env skip b c.emergencyConsensusActive

/-- The flags up to the last checkpoint. -/
def checkpointSkip (db : Database Tx L) (b : SignedBlock Tx) (skip : Skip) : Except Exn Skip :=
  match db.checkpoints.getLast? with
  | none            => .ok skip
  | some (num, id)  =>
      if id = BlockId.zero then .ok skip
      else match db.checkpoints.find? (fun p => decide (p.1 = b.blockNum)) with
        | some p => if b.id ≠ p.2 then .error (.assertion .checkpoint)
                    else .ok (if b.blockNum ≤ num then Skip.beforeCheckpoint else skip)
        | none   => .ok (if b.blockNum ≤ num then Skip.beforeCheckpoint else skip)

/-- `apply_block`. -/
def applyBlock (env : Env Tx L) (b : SignedBlock Tx) (skip : Skip) : DbM Tx L Unit := do
  let db ← get
  match db.checkpointSkip b skip with
  | .error e  => throw e
  | .ok skip' => applyBlockStages env skip' b

def startUndoSession (db : Database Tx L) : Database Tx L := { db with chainbase := db.chainbase.startSession }

def undo (db : Database Tx L) : Database Tx L := { db with chainbase := db.chainbase.undo }

/-- Apply a block in an undo session of its own: the session is kept on return and undone on a throw. -/
def applyInSession (env : Env Tx L) (b : SignedBlock Tx) (skip : Skip) : DbM Tx L Unit := do
  modify startUndoSession
  tryCatch (applyBlock env b skip) fun e => do
    modify undo
    throw e

/-- `_pending_tx_session.reset()`. -/
def resetPendingSession (db : Database Tx L) : Database Tx L :=
  if db.pendingTxSession then { db.undo with pendingTxSession := false } else db

/-- `pop_block`: the fork database moves its own head back, whichever block that is. -/
def popBlock : DbM Tx L Unit := do
  modify resetPendingSession
  let db ← get
  match db.fetchBlockById db.headBlockId with
  | none   => throw .popEmptyChain
  | some b => do
      onForkDb ForkDatabase.popBlock
      modify fun db => { db.undo with poppedTx := b.transactions ++ db.poppedTx }

/-! ## Pending transactions -/

/-- `clear_pending`. -/
def clearPending (db : Database Tx L) : Database Tx L := { db.resetPendingSession with pendingTx := [] }

/-- The pending session is opened with the first pending transaction. -/
def openPendingSession (db : Database Tx L) : Database Tx L :=
  if db.pendingTxSession then db else { db.startUndoSession with pendingTxSession := true }

/-- `_push_transaction`: the transaction runs in a session of its own, which is merged into the pending
    session on success. -/
def pushTransaction (env : Env Tx L) (tx : Tx) (skip : Skip) : DbM Tx L Unit := do
  modify fun db => db.openPendingSession.startUndoSession
  let db ← get
  match db.state.core.runLedger env (env.applyTransaction skip.forTransactions tx) with
  | .error e => do
      modify undo
      throw e
  | .ok c    =>
      set { db with
        chainbase := (db.chainbase.modify (fun (s : ChainState Tx L) => { s with core := c })).squash
        pendingTx := db.pendingTx ++ [tx] }

/-- Put transactions back, skipping the known ones and those that fail by now. -/
def repushTransactions (env : Env Tx L) (skip : Skip) : List Tx → DbM Tx L Unit
  | []        => pure ()
  | tx :: txs => do
      let db ← get
      if !env.isKnownTransaction db.state.core.ledger tx then
        tryCatch (pushTransaction env tx skip) fun _ => pure ()
      repushTransactions env skip txs

/-- The destructor of `pending_transactions_restorer`: popped transactions first, then the pending ones;
    past the execution limit they are only queued. -/
def restorePending (env : Env Tx L) (skip : Skip) (pending : List Tx) : DbM Tx L Unit := do
  let db ← get
  let txs := db.poppedTx ++ pending
  set { db with poppedTx := [] }
  repushTransactions env skip (txs.take env.pendingLimit)
  modify fun db => { db with pendingTx := db.pendingTx ++ txs.drop env.pendingLimit }

/-- `without_pending_transactions`: the pending transactions are put back on either way out. -/
def withoutPending {α : Type} (env : Env Tx L) (skip : Skip) (m : DbM Tx L α) : DbM Tx L α := do
  let db ← get
  set db.clearPending
  let a ← tryCatch m fun e => do
    restorePending env skip db.pendingTx
    throw e
  restorePending env skip db.pendingTx
  return a

end Database

end VizNode
