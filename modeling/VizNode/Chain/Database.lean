import VizNode.Chain.Apply
import VizNode.ForkDatabase.Model
import VizNode.Lib.Undo

/-!
# `VizNode.Chain.Database` — the node and its block storage

`Database` is the node: the undoable chain state, the pending transactions, the fork database and the
block logs. The logs are not undoable, and neither is the fork database.

`journal` is a record kept for the proofs: the blocks that were written to a log and the confirmations
that raised the last irreversible block, each with what was the case at that moment. No modelled function
of the node reads it.

## Contents
- **The node.** `Database`, its programs `DbM`, access to the chain state.
- **Block lookups**, by id and by number, over the fork database and the two logs.
-/

namespace VizNode

/-- What the journal records. -/
inductive Event (Tx : Type) where
  /-- The blocks above `logged` up to `lib` are going to be written, with this fork database and head. -/
  | finalizing (forkDb : ForkDatabase Tx) (head : BlockId) (logged lib : Nat)
  /-- `block` was appended to a log while `head` was the applied head. -/
  | appended (block : SignedBlock Tx) (head : BlockId)
  /-- The last irreversible block was raised from `lib` to the block of `object` by its confirmations,
      under `schedule` and with `chain` applied, newest block first. -/
  | raised (lib : Nat) (object : ValidatorConfirmation) (schedule : ValidatorSchedule)
      (chain : List (AppliedBlock Tx))
deriving DecidableEq

/-- **The node.** `pendingTxSession` says whether the newest undo session holds pending transactions;
    `blockLog` holds block `n` at index `n - 1`, `dltBlockLog` starts at the number of its first block. -/
structure Database (Tx L : Type) where
  chainbase            : UndoDb (ChainState Tx L)
  pendingTxSession     : Bool
  pendingTx            : List Tx
  poppedTx             : List Tx
  forkDb               : ForkDatabase Tx
  blockLog             : List (SignedBlock Tx)
  dltBlockLog          : List (SignedBlock Tx)
  dltMode              : Bool
  dltBlockLogMaxBlocks : Nat
  checkpoints          : List (Nat × BlockId)
  journal              : List (Event Tx)

/-- A program of the node. -/
abbrev DbM (Tx L : Type) := EStateM Exn (Database Tx L)

namespace Database

variable {Tx L : Type}

/-! ## The chain state -/

def state (db : Database Tx L) : ChainState Tx L := db.chainbase.state

def headBlockNum (db : Database Tx L) : Nat := db.state.headBlockNum
def headBlockId (db : Database Tx L) : BlockId := db.state.headBlockId
def lib (db : Database Tx L) : Nat := db.state.lib

/-- `modify` on objects of the chain state. -/
def modifyState (f : ChainState Tx L → ChainState Tx L) (db : Database Tx L) : Database Tx L :=
  { db with chainbase := db.chainbase.modify f }

def modifyFinality (f : Finality → Finality) (db : Database Tx L) : Database Tx L :=
  db.modifyState (fun s => { s with fin := f s.fin })

/-- The newest record of the history. -/
def modifyRecord (f : AppliedBlock Tx → AppliedBlock Tx) (db : Database Tx L) : Database Tx L :=
  db.modifyState (fun s => { s with history := s.history.modifyHead f })

def modifyForkDb (f : ForkDatabase Tx → ForkDatabase Tx) (db : Database Tx L) : Database Tx L :=
  { db with forkDb := f db.forkDb }

/-- A program of the fork database, as a program of the node. -/
def onForkDb {α : Type} (m : ForkDatabase.M Tx α) : DbM Tx L α :=
  Prog.zoom (·.forkDb) (fun f db => { db with forkDb := f }) m

/-- Run a stage of the block application on the core. -/
def onCore (f : Core L → Except Exn (Core L)) : DbM Tx L Unit := do
  let db ← get
  match f db.state.core with
  | .error e => throw e
  | .ok c    => set (db.modifyState (fun s => { s with core := c }))

/-! ## Block lookups -/

/-- `read_block_by_num` on a log whose first block has number `start`. -/
def readLog (log : List (SignedBlock Tx)) (start num : Nat) : Option (SignedBlock Tx) :=
  if 0 < start ∧ start ≤ num then log[num - start]? else none

/-- The number of the first block of a log, `0` for an empty one. -/
def firstNum (log : List (SignedBlock Tx)) : Nat := (log.head?.map (·.blockNum)).getD 0

/-- The number of the last block of a log, `0` for an empty one. -/
def lastNum (log : List (SignedBlock Tx)) : Nat := (log.getLast?.map (·.blockNum)).getD 0

def readBlockLog (db : Database Tx L) (num : Nat) : Option (SignedBlock Tx) := readLog db.blockLog 1 num

def readDltBlockLog (db : Database Tx L) (num : Nat) : Option (SignedBlock Tx) :=
  readLog db.dltBlockLog (firstNum db.dltBlockLog) num

/-- `fetch_block_by_id`. -/
def fetchBlockById (db : Database Tx L) (id : BlockId) : Option (SignedBlock Tx) :=
  match db.forkDb.fetchBlock id with
  | some x => some x.data
  | none   =>
      match (db.readBlockLog id.num).filter (fun b => decide (b.id = id)) with
      | some b => some b
      | none   => (db.readDltBlockLog id.num).filter (fun b => decide (b.id = id))

/-- `fetch_block_by_number`. -/
def fetchBlockByNumber (db : Database Tx L) (num : Nat) : Option (SignedBlock Tx) :=
  match db.forkDb.fetchBlockByNumber num with
  | [x] => some x.data
  | _   =>
      match db.forkDb.walkMainBranchToNum num with
      | some x => some x.data
      | none   =>
          match db.readBlockLog num with
          | some b => some b
          | none   => db.readDltBlockLog num

/-- `find_block_id_for_num`. -/
def findBlockIdForNum (db : Database Tx L) (num : Nat) : BlockId :=
  if num = 0 then BlockId.zero
  else if (db.state.core.blockSummary (num % 2 ^ 16)).num = num then
    db.state.core.blockSummary (num % 2 ^ 16)
  else match db.readBlockLog num with
    | some b => b.id
    | none   =>
        match db.readDltBlockLog num with
        | some b => b.id
        | none   =>
            match db.forkDb.fetchBlockOnMainBranchByNumber num with
            | some x => x.id
            | none   => BlockId.zero

end Database

end VizNode
