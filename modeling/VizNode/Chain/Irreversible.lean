import VizNode.Chain.Database

/-!
# `VizNode.Chain.Irreversible` — the last irreversible block

Three functions of the source move the last irreversible block: `update_last_irreversible_block` inside a
block application, by the support of the scheduled validators; `check_block_post_validation_chain` at the
end of it and `apply_block_post_validation` between blocks, by confirmations. Each of them then commits
the undo stack, writes the newly irreversible blocks to a log, looks the id of the last one up and trims
the fork database. These four steps stand three times in the source and once here.

## Contents
- **The logs.** `writeIrreversible`: the block log, or the rolling log of a node without history.
- **Support.** `nextIrreversible`, `updateLastIrreversibleBlock`.
- **Confirmations.** `raiseIrreversible`, `checkBlockPostValidationChain`, `applyBlockPostValidation`,
  `createBlockPostValidation`.
-/

namespace VizNode

namespace Database

variable {Tx L : Type}

/-! ## The logs -/

/-- Append to the block log: the position must be the one the number asks for. -/
def appendBlockLog (b : SignedBlock Tx) : DbM Tx L Unit := do
  let db ← get
  if db.blockLog.length + 1 = b.blockNum then
    set { db with
      blockLog := db.blockLog ++ [b], journal := .appended b db.headBlockId :: db.journal }
  else throw (.assertion .logPosition)

/-- Append to the rolling log: the first block sets its start. -/
def appendDltBlockLog (b : SignedBlock Tx) : DbM Tx L Unit := do
  let db ← get
  if db.dltBlockLog.isEmpty ∨ firstNum db.dltBlockLog + db.dltBlockLog.length = b.blockNum then
    set { db with
      dltBlockLog := db.dltBlockLog ++ [b], journal := .appended b db.headBlockId :: db.journal }
  else throw (.assertion .logPosition)

/-- Write `count` blocks to the block log, the first one being number `num + 1`. -/
def writeBlockLog : Nat → Nat → DbM Tx L Unit
  | 0,         _   => pure ()
  | count + 1, num => do
      let db ← get
      match db.forkDb.fetchBlockOnMainBranchByNumber (num + 1) with
      | none   => throw (.assertion .irreversibleBlockMissing)
      | some x => do
          appendBlockLog x.data
          writeBlockLog count (num + 1)

/-- Write blocks to the rolling log as long as the fork database has them. -/
def writeDltWhileKnown : Nat → Nat → DbM Tx L Unit
  | 0,         _   => pure ()
  | count + 1, num => do
      let db ← get
      match db.forkDb.fetchBlockOnMainBranchByNumber (num + 1) with
      | none   => pure ()
      | some x => do
          appendDltBlockLog x.data
          writeDltWhileKnown count (num + 1)

/-- Write `count` blocks to the rolling log, the first one being number `num + 1`. When that one is not in
    the fork database there is a gap: the log starts over with the first later block that is. -/
def writeDltBlockLog : Nat → Nat → DbM Tx L Unit
  | 0,         _   => pure ()
  | count + 1, num => do
      let db ← get
      match db.forkDb.fetchBlockOnMainBranchByNumber (num + 1) with
      | some x => do
          appendDltBlockLog x.data
          writeDltBlockLog count (num + 1)
      | none   =>
          match (List.range count).find? (fun i =>
              (db.forkDb.fetchBlockOnMainBranchByNumber (num + 2 + i)).isSome) with
          | none   => pure ()
          | some i => do
              set { db with dltBlockLog := [] }
              writeDltWhileKnown (count - i) (num + 1 + i)

/-- The rolling truncation: past twice the limit, the log is cut to the limit. -/
def truncateDltBlockLog (db : Database Tx L) : Database Tx L :=
  if db.dltBlockLogMaxBlocks * 2 < db.dltBlockLog.length then
    { db with dltBlockLog := db.dltBlockLog.drop (db.dltBlockLog.length - db.dltBlockLogMaxBlocks) }
  else db

/-- The number of the last block that is in the log. An empty rolling log starts with the last
    irreversible block itself: what is below it came with the snapshot. -/
def logged (db : Database Tx L) : Nat :=
  if !db.dltMode then lastNum db.blockLog
  else if lastNum db.dltBlockLog = 0 then db.lib - 1 else lastNum db.dltBlockLog

/-- The journal records the moment at which the irreversible blocks are written. -/
def noteFinalizing (db : Database Tx L) : Database Tx L :=
  { db with journal := .finalizing db.forkDb db.headBlockId db.logged db.lib :: db.journal }

/-- Output the irreversible blocks that are not in the log yet. -/
def writeIrreversible (skipLog : Bool) : DbM Tx L Unit := do
  let db ← get
  if skipLog then pure ()
  else do
    modify noteFinalizing
    if !db.dltMode then writeBlockLog (db.lib - db.logged) db.logged
    else if 0 < db.dltBlockLogMaxBlocks then do
      writeDltBlockLog (db.lib - db.logged) db.logged
      modify truncateDltBlockLog

/-- The last irreversible block as local storage knows it. -/
def readIrreversible (db : Database Tx L) : Option (SignedBlock Tx) :=
  let fromForkDb := (db.forkDb.fetchBlockOnMainBranchByNumber db.lib).map (·.data)
  if !db.dltMode then
    match db.readBlockLog db.lib with
    | some b => some b
    | none   => fromForkDb
  else if 0 < db.dltBlockLogMaxBlocks then
    match db.readDltBlockLog db.lib with
    | some b => some b
    | none   => fromForkDb
  else none

/-- The second word of an id, `_hash[1]`, in the byte order of the machine. -/
def refPrefix (id : BlockId) : Nat :=
  let w := id.hash / 2 ^ 96 % 2 ^ 32
  w / 2 ^ 24 + w / 2 ^ 16 % 2 ^ 8 * 2 ^ 8 + w / 2 ^ 8 % 2 ^ 8 * 2 ^ 16 + w % 2 ^ 8 * 2 ^ 24

/-- The number alone is raised first, the id follows once it is known. -/
def raiseFinality (num : Nat) (fin : Finality) : Finality :=
  { fin with
    lastIrreversibleBlockNum       := num
    lastIrreversibleBlockId        := BlockId.zero
    lastIrreversibleBlockRefNum    := 0
    lastIrreversibleBlockRefPrefix := 0 }

/-- The id of the last irreversible block, when local storage gave one. -/
def setFinalityId (id : Option BlockId) (fin : Finality) : Finality :=
  match id with
  | none    => fin
  | some id =>
      { fin with
        lastIrreversibleBlockId        := id
        lastIrreversibleBlockRefNum    := fin.lastIrreversibleBlockNum % 2 ^ 16
        lastIrreversibleBlockRefPrefix := refPrefix id }

/-- Look the id up and store it; the history records the answer. -/
def setIrreversibleId (db : Database Tx L) : Database Tx L :=
  let id := db.readIrreversible.map (·.id)
  (db.modifyFinality (setFinalityId id)).modifyRecord (fun r => { r with libIds := r.libIds ++ [id] })

/-- `_fork_db.set_max_size(head - lib + 1)`. -/
def trimForkDb (db : Database Tx L) : Database Tx L :=
  db.modifyForkDb (ForkDatabase.setMaxSize ((u32Sub db.headBlockNum db.lib + 1) % 2 ^ 32))

/-- `commit` of the revisions up to the last irreversible block. -/
def commitIrreversible (db : Database Tx L) : Database Tx L :=
  { db with chainbase := db.chainbase.commit db.lib }

end Database

/-! ## Support -/

/-- The block that enough scheduled validators support, in emergency mode at most the one below the
    head, so that the block being applied keeps its undo session. -/
def Core.nextIrreversible {L : Type} (c : Core L) : Except Exn Nat := do
  let ws ← c.schedule.scheduled.mapM c.getValidator
  let offset := (Config.hundredPercent - Config.irreversibleThreshold) * ws.length / Config.hundredPercent
  let num := ((ws.map (·.lastSupportedBlockNum)).insertionSort (· ≤ ·)).getD offset 0 % 2 ^ 32
  if c.hasHardfork 12 && c.emergencyConsensusActive && decide (c.headBlockNumber ≤ num) then
    return c.headBlockNumber - 1
  else return num

namespace Database

variable {Tx L : Type}

/-- `update_last_irreversible_block`. -/
def updateLastIrreversibleBlock (skip : Skip) : DbM Tx L Unit := do
  let db ← get
  match db.state.core.nextIrreversible with
  | .error e => throw e
  | .ok num  => do
      if db.lib < num then modify (modifyFinality (raiseFinality num))
      modify commitIrreversible
      writeIrreversible skip.blockLog
      modify fun db => if num = db.lib then db.setIrreversibleId else db
      modify trimForkDb

/-! ## Confirmations -/

end Database

namespace ValidatorConfirmation

/-- The number of confirmed slots. -/
def count (o : ValidatorConfirmation) : Nat := (o.slots.filter (·.2)).length

/-- The confirmation of `account`, in every slot it holds. -/
def mark (account : AccountName) (o : ValidatorConfirmation) : ValidatorConfirmation :=
  { o with slots := o.slots.map (fun p => if p.1 = account then (p.1, true) else p) }

def holds (account : AccountName) (o : ValidatorConfirmation) : Bool :=
  o.slots.any (fun p => decide (p.1 = account))

end ValidatorConfirmation

/-- The number of confirmations a block needs. -/
def Core.confirmationThreshold {L : Type} (c : Core L) : Nat :=
  c.schedule.numScheduledValidators * Config.irreversibleThreshold / Config.hundredPercent

namespace Database

variable {Tx L : Type}

/-- In emergency mode confirmations do not count. -/
def inEmergency (db : Database Tx L) : Bool :=
  db.state.core.hasHardfork 12 && db.state.core.emergencyConsensusActive

/-- Does this object raise the last irreversible block? -/
def confirms (db : Database Tx L) (o : ValidatorConfirmation) : Bool :=
  decide (1 + db.lib = o.blockNum) && decide (db.state.core.confirmationThreshold ≤ o.count)

/-- Raise the last irreversible block to that of `o`. -/
def raiseIrreversible (o : ValidatorConfirmation) : DbM Tx L Unit := do
  modify fun db =>
    { db.modifyFinality (raiseFinality o.blockNum) with
      journal := .raised db.lib o db.state.core.schedule db.state.history :: db.journal }
  modify commitIrreversible
  writeIrreversible false
  modify setIrreversibleId
  modify trimForkDb

def removeConfirmation (o : ValidatorConfirmation) (fin : Finality) : Finality :=
  { fin with confirmations := fin.confirmations.erase o }

/-- The loop of `check_block_post_validation_chain`, over the objects in the order of their ids. -/
def checkConfirmations : List ValidatorConfirmation → DbM Tx L Unit
  | []      => pure ()
  | o :: os => do
      let db ← get
      if db.confirms o then do
        raiseIrreversible o
        modify (modifyFinality (removeConfirmation o))
      checkConfirmations os

def checkBlockPostValidationChain : DbM Tx L Unit := do
  let db ← get
  if db.inEmergency then pure () else checkConfirmations db.state.fin.confirmations

/-- `apply_block_post_validation`: a confirmation of `blockId` by `account` arrives. -/
def applyBlockPostValidation (blockId : BlockId) (account : AccountName) : DbM Tx L Unit := do
  let db ← get
  if db.inEmergency ∨ account ∉ db.state.core.schedule.scheduled then pure ()
  else match db.state.fin.confirmations.find? (fun o => decide (o.blockId = blockId)) with
    | none   => pure ()
    | some o => do
        let o' := o.mark account
        modify (modifyFinality (fun fin =>
          { fin with confirmations := fin.confirmations.replace o o' }))
        let db ← get
        if o.holds account ∧ db.confirms o' then raiseIrreversible o'

/-- A new object: the scheduled validators without the producer, none of them marked. -/
def newConfirmation (num : Nat) (id : BlockId) (account : AccountName) (schedule : ValidatorSchedule) :
    ValidatorConfirmation :=
  let slots := (schedule.scheduled.filter (fun n => decide (n ≠ account))).map (·, false)
  let padding := List.replicate (Config.maxValidators - slots.length) (0, false)
  { blockNum := num, blockId := id, slots := slots ++ padding }

/-- Objects at or below the last irreversible block go, the oldest ones go when there are too many. -/
def addConfirmation (o : ValidatorConfirmation) (fin : Finality) : Finality :=
  let kept := fin.confirmations.filter (fun o => decide (fin.lastIrreversibleBlockNum < o.blockNum))
  { fin with confirmations :=
      kept.drop (kept.length - (Config.maxBlockPostValidationCount - 1)) ++ [o] }

/-- `create_block_post_validation`. -/
def createBlockPostValidation (num : Nat) (id : BlockId) (account : AccountName)
    (db : Database Tx L) : Database Tx L :=
  db.modifyFinality (addConfirmation (newConfirmation num id account db.state.core.schedule))

end Database

end VizNode
