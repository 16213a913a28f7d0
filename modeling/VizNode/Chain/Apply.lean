import VizNode.Chain.Schedule

/-!
# `VizNode.Chain.Apply` — what a block does to the core

`_apply_block` without the irreversibility part, as functions on the core. The source interleaves the two
only at fixed places, so the application is cut there:

1. `beginBlock`: block and header checks, header extensions, transactions, the update of the dynamic
   global properties (with missed slots and the emergency activation) and of the signing validator;
2. *(the last irreversible block is updated here)*
3. `finishSchedule`: the block summary, expirations and the validator schedule;
4. `finishLedger`: medians, funds and hardforks;
5. *(the confirmation chain is checked here)*

The emergency activation needs the timestamp of the last irreversible block, which the node looks up in
its own storage. It is the argument `libTime`.
-/

namespace VizNode

namespace Core

variable {Tx L : Type}

/-! ## Checks -/

/-- `_validate_block`. A wrong merkle root passes when the shared database lists it for this number. -/
def validateBlock (env : Env Tx L) (skip : Skip) (b : SignedBlock Tx) (c : Core L) : Except Exn Unit := do
  if !skip.merkleCheck then
    let root := env.calculateMerkleRoot b.transactions
    if b.transactionMerkleRoot ≠ root ∧ env.sharedDbMerkle b.blockNum ≠ some root then
      throw (.assertion .merkleRoot)
  if !skip.blockSizeCheck then
    if c.maximumBlockSize < env.packSize b then throw (.assertion .blockSize)

/-- The schedule check of `validate_block_header`. In emergency mode any scheduled validator may produce;
    otherwise a mismatch is a typed exception, because the caller keeps such a block. -/
def checkSchedule (b : SignedBlock Tx) (c : Core L) : Except Exn Unit :=
  let slotNum := c.getSlotAtTime b.timestamp
  if slotNum = 0 then .error (.assertion .slotZero)
  else if b.validator = c.getScheduledValidator slotNum then .ok ()
  else if c.hasHardfork 12 && c.emergencyConsensusActive then
    if b.validator ∈ c.schedule.scheduled then .ok () else .error (.assertion .notInSchedule)
  else .error .wrongScheduledValidator

/-- `validate_block_header`. -/
def validateBlockHeader (env : Env Tx L) (skip : Skip) (b : SignedBlock Tx) (c : Core L) :
    Except Exn Unit := do
  if c.headBlockId ≠ b.previous then throw (.assertion .previousId)
  if b.timestamp ≤ c.time then throw (.assertion .timestamp)
  let w ← c.getValidator b.validator
  if !skip.validatorSignature then
    if w.signingKey = 0 then throw (.assertion .nullSigningKey)
    if !env.validateSignee b w.signingKey then throw (.assertion .signee)
  if !skip.validatorScheduleCheck then c.checkSchedule b

/-! ## The header -/

/-- The first block fixes the genesis time. -/
def changeGenesis (b : SignedBlock Tx) (c : Core L) : Core L :=
  if b.blockNum = 1 then
    let genesisTime := b.timestamp - Config.blockInterval
    { c with
      genesisTime := genesisTime
      hardforks   := { c.hardforks with
        processedHardforks := c.hardforks.processedHardforks.set 0 genesisTime } }
  else c

/-- One header extension, reported by the block's validator. -/
def applyExtension (b : SignedBlock Tx) (c : Core L) : HeaderExtension → Core L
  | .void                    => c
  | .version v               => c.modifyValidator b.validator (fun w => { w with runningVersion := v })
  | .hardforkVersionVote v t => c.modifyValidator b.validator (fun w =>
      { w with hardforkVersionVote := v, hardforkTimeVote := t })

/-- `process_header_extensions`. -/
def processHeaderExtensions (b : SignedBlock Tx) (c : Core L) : Core L :=
  b.extensions.foldl (applyExtension b) c

/-! ## The dynamic global properties -/

/-- In emergency mode the validators that the committee stands in for are not penalized. -/
def emergencyOffline (b : SignedBlock Tx) (c : Core L) (w : Validator) : Bool :=
  c.hasHardfork 12 && c.emergencyConsensusActive && decide (w.owner ≠ b.validator) &&
    decide (w.owner ≠ Config.emergencyValidatorAccount)

/-- The validator of a missed slot. -/
def missedValidator (b : SignedBlock Tx) (c : Core L) (w : Validator) : Validator :=
  if w.owner = b.validator then w
  else
    let w := { w with currentRun := 0 }
    let gap := u64Sub c.headBlockNumber w.lastConfirmedBlockNum
    if c.emergencyOffline b w then
      if w.signingKey ≠ 0 ∧ Config.emergencyMaxValidatorMissedBlocks < gap then
        { w with signingKey := 0 }
      else w
    else
      let percent := (w.penaltyPercent + c.schedule.medianProps.validatorMissPenaltyPercent) % 2 ^ 32
      let w : Validator := if c.hasHardfork 6 then
          { w with
            totalMissed    := w.totalMissed + 1
            penaltyPercent := percent
            countedVotes   := penalizedVotes w.votes percent }
        else { w with totalMissed := w.totalMissed + 1 }
      if w.signingKey ≠ 0 ∧ Config.maxValidatorMissedBlocks < gap then { w with signingKey := 0 } else w

/-- One missed slot: the validator loses its run, and outside the emergency rule its votes for a time. -/
def missSlot (b : SignedBlock Tx) (c : Core L) (i : Nat) : Except Exn (Core L) := do
  let w ← c.getValidator (c.getScheduledValidator (i + 1))
  let c' := c.modifyValidator w.owner (c.missedValidator b)
  if w.owner ≠ b.validator ∧ !c.emergencyOffline b w ∧ c.hasHardfork 6 then
    return { c' with penalties := c'.penalties ++
      [{ validator      := w.owner
         penaltyPercent := c.schedule.medianProps.validatorMissPenaltyPercent
         expires        := c.time + c.schedule.medianProps.validatorMissPenaltyDuration }] }
  else return c'

/-- One shift of the participation window: the first slot of a block is filled, the others missed. -/
def fillSlot (p : Nat × Nat) (i : Nat) : Nat × Nat :=
  let dropped := if 2 ^ 127 ≤ p.1 then 1 else 0
  let filled := if i = 0 then 1 else 0
  ((p.1 * 2 + filled) % 2 ^ 128, (p.2 + 256 - dropped + filled) % 256)

/-- About once a minute the reserve ratio follows the average block size. -/
def reserveRatio (c : Core L) (headNum averageSize : Nat) : Nat :=
  if headNum % 20 = 0 then
    let ratio := if c.maximumBlockSize / 4 < averageSize
      then c.currentReserveRatio / 2 else c.currentReserveRatio + 1
    max (min ratio Config.maxReserveRatio) (Config.maxReserveRatio / 10)
  else c.currentReserveRatio

/-- The head moves to the block. -/
def moveHead (env : Env Tx L) (b : SignedBlock Tx) (missed : Nat) (c : Core L) : Core L :=
  let window := (List.range (missed + 1)).foldl fillSlot (c.recentSlotsFilled, c.participationCount)
  let averageSize := (99 * c.averageBlockSize + env.packSize b) / 100
  let ratio := c.reserveRatio b.blockNum averageSize
  { c with
    recentSlotsFilled   := window.1
    participationCount  := window.2
    headBlockNumber     := b.blockNum
    headBlockId         := b.id
    time                := b.timestamp
    currentAslot        := c.currentAslot + missed + 1
    averageBlockSize    := averageSize
    currentReserveRatio := ratio
    maxVirtualBandwidth := c.maximumBlockSize * ratio * Config.bandwidthPrecision *
      Config.bandwidthAverageWindowSeconds % 2 ^ 64 / Config.blockInterval }

/-- Is the last irreversible block, as far as this node can tell, too old? -/
def emergencyDue (b : SignedBlock Tx) (libTime : Option Nat) (c : Core L) : Bool :=
  c.hasHardfork 12 && !c.emergencyConsensusActive &&
    match libTime with
    | none   => false
    | some t => decide (Config.emergencyConsensusTimeoutSec ≤ u32Sub b.timestamp t)

/-- The committee validator at the start of the emergency mode. -/
def committeeValidator (c : Core L) (w : Validator) : Validator :=
  { w with
    signingKey          := Config.emergencyValidatorPublicKey
    schedule            := .top
    runningVersion      := Config.chainVersion
    hardforkVersionVote := c.hardforks.currentHardforkVersion
    hardforkTimeVote    := c.hardforks.processedHardforks.getD c.hardforks.lastHardfork 0
    props               := c.schedule.medianProps }

/-- A real validator at the start of the emergency mode: its key is blanked, its penalties forgiven. -/
def blankedValidator (w : Validator) : Validator :=
  if w.owner = Config.emergencyValidatorAccount then w
  else { w with signingKey := 0, penaltyPercent := 0, countedVotes := w.votes, currentRun := 0 }

/-- **The emergency activation**: only the committee can produce from here on. -/
def activateEmergency (b : SignedBlock Tx) (c : Core L) : Core L :=
  let c := { c with emergencyConsensusActive := true, emergencyConsensusStartBlock := b.blockNum }
  let c := c.upsertValidator Config.emergencyValidatorAccount (committeeValidator c)
  let n := c.schedule.numScheduledValidators
  { c with
    validators := c.validators.map blankedValidator
    penalties  := []
    schedule   := { c.schedule with
      currentShuffledValidators :=
        (c.schedule.currentShuffledValidators.take n).map (fun _ => Config.emergencyValidatorAccount) ++
          c.schedule.currentShuffledValidators.drop n
      nextShuffleBlockNum := c.headBlockNumber + n } }

/-- `update_global_dynamic_data`. `lib` is the number of the last irreversible block. -/
def updateGlobalDynamicData (env : Env Tx L) (skip : Skip) (lib : Nat) (libTime : Option Nat)
    (b : SignedBlock Tx) (c : Core L) : Except Exn (Core L) := do
  let slots := c.getSlotAtTime b.timestamp
  if c.time ≠ 0 ∧ slots = 0 then throw (.assertion .missedBlocksZero)
  let missed := if c.time ≠ 0 then slots - 1 else 0
  let c ← (List.range missed).foldlM (missSlot b) c
  let c := c.moveHead env b missed
  if !skip.undoHistoryCheck ∧ Config.maxUndoHistory ≤ u32Sub c.headBlockNumber lib then
    throw .undoDatabase
  if c.emergencyDue b libTime then return c.activateEmergency b else return c

/-- `update_signing_validator`. -/
def updateSigningValidator (b : SignedBlock Tx) (c : Core L) : Core L :=
  c.modifyValidator b.validator (fun w =>
    { w with
      lastAslot             := c.currentAslot + c.getSlotAtTime b.timestamp
      lastConfirmedBlockNum := b.blockNum
      lastSupportedBlockNum := if Config.irreversibleSupportMinRun ≤ w.currentRun
        then b.blockNum else w.lastSupportedBlockNum
      currentRun            := w.currentRun + 1 })

/-! ## The stages -/

/-- The checks and effects of the header, up to the first transaction. -/
def openBlock (env : Env Tx L) (skip : Skip) (b : SignedBlock Tx) (c : Core L) : Except Exn (Core L) := do
  c.validateBlock env skip b
  c.validateBlockHeader env skip b
  let c := ({ c with currentValidator := b.validator }.changeGenesis b).processHeaderExtensions b
  let w ← c.getValidator b.validator
  if w.runningVersion < c.hardforks.currentHardforkVersion then throw (.assertion .validatorVersion)
  return c

/-- **Stage one**: everything before the last irreversible block is updated. -/
def beginBlock (env : Env Tx L) (skip : Skip) (lib : Nat) (libTime : Option Nat) (b : SignedBlock Tx)
    (c : Core L) : Except Exn (Core L) := do
  let c ← c.openBlock env skip b
  let c ← b.transactions.foldlM (fun c tx => runLedger env (env.applyTransaction skip.forTransactions tx) c) c
  let c ← c.updateGlobalDynamicData env skip lib libTime b
  return c.updateSigningValidator b

/-- `create_block_summary`. -/
def createBlockSummary (b : SignedBlock Tx) (c : Core L) : Core L :=
  { c with blockSummary := Function.update c.blockSummary (b.blockNum % 2 ^ 16) b.id }

/-- **Stage three**: up to the end of the emergency mode. -/
def finishSchedule (env : Env Tx L) (b : SignedBlock Tx) (c : Core L) : Except Exn (Core L) := do
  let c ← (c.createBlockSummary b).runLedger env env.clearExpired
  c.updateValidatorSchedule

/-- **Stage four**: medians, funds and hardforks. -/
def finishLedger (env : Env Tx L) (c : Core L) : Except Exn (Core L) := do
  let c ← if c.headBlockNumber % Config.maxValidators = 0 then c.updateMedianValidatorProps else pure c
  let c ← c.runLedger env env.processFunds
  c.processHardforks env (Config.numHardforks + 2)

end Core

end VizNode
