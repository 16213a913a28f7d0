import VizNode.Protocol
import Mathlib.Logic.Function.Basic

/-!
# `VizNode.Chain.Objects` — the objects of the chain state

The part of the object database that block application reads and writes: the dynamic global properties,
the validators and their schedule, the hardfork state, the block summaries and the confirmation objects.
Balances, content, committee requests and the other objects only operations touch are one value `L`.

**The split is by who may write.** `Core` is what a block determines. `Finality` is what irreversibility
writes: the last irreversible block and the confirmation objects, which messages between blocks also
change. Operation evaluators and the per-block processing are parameters (`Env`): they see the core, and
they answer with an edited `L` and a list of `ValidatorEdit`s, the only ways in which they touch a
validator.

`history` in `ChainState` is a record kept for the proofs: the applied blocks with what was looked up in
local storage while they were applied. No modelled function of the node reads it.
-/

namespace VizNode

/-! ## Validators and the schedule -/

/-- `validator_schedule_type`. -/
inductive ScheduleType where
  | top | support | none
deriving DecidableEq, Repr

/-- The chain properties a modelled function reads. -/
structure ChainProperties where
  maximumBlockSize             : Nat := 131072
  validatorMissPenaltyPercent  : Nat := 100
  validatorMissPenaltyDuration : Nat := 86400
deriving DecidableEq, Repr

/-- `validator_object`. -/
structure Validator where
  owner                 : AccountName
  totalMissed           : Nat := 0
  lastAslot             : Nat := 0
  lastConfirmedBlockNum : Nat := 0
  currentRun            : Nat := 0
  lastSupportedBlockNum : Nat := 0
  signingKey            : PublicKey := 0
  props                 : ChainProperties := {}
  votes                 : Int := 0
  penaltyPercent        : Nat := 0
  countedVotes          : Int := 0
  schedule              : ScheduleType := .none
  virtualLastUpdate     : Nat := 0
  virtualPosition       : Nat := 0
  virtualScheduledTime  : Nat := 2 ^ 128 - 1
  runningVersion        : Nat := 0
  hardforkVersionVote   : Nat := 0
  hardforkTimeVote      : Nat := 0
deriving DecidableEq, Repr

/-- `validator_penalty_expire_object`. -/
structure PenaltyExpire where
  validator      : AccountName
  penaltyPercent : Nat
  expires        : Nat
deriving DecidableEq, Repr

/-- `validator_schedule_object`. `currentShuffledValidators` has `CHAIN_MAX_VALIDATORS` slots, of which the
    first `numScheduledValidators` are in use. -/
structure ValidatorSchedule where
  currentVirtualTime        : Nat := 0
  nextShuffleBlockNum       : Nat := 1
  currentShuffledValidators : List AccountName
  numScheduledValidators    : Nat := 1
  medianProps               : ChainProperties := {}
  majorityVersion           : Nat := 0
deriving DecidableEq, Repr

namespace ValidatorSchedule

/-- Slot `i` of the array. -/
def slot (w : ValidatorSchedule) (i : Nat) : AccountName := w.currentShuffledValidators.getD i 0

/-- The slots in use. -/
def scheduled (w : ValidatorSchedule) : List AccountName :=
  w.currentShuffledValidators.take w.numScheduledValidators

end ValidatorSchedule

/-- `hardfork_property_object`. -/
structure HardforkProperty where
  processedHardforks     : List Nat
  lastHardfork           : Nat
  currentHardforkVersion : Nat
  nextHardfork           : Nat
  nextHardforkTime       : Nat
deriving DecidableEq, Repr

/-! ## The state -/

/-- **What a block determines.** The fields up to `emergencyConsensusStartBlock` are those of the dynamic
    global properties that do not belong to `Finality` or `L`. -/
structure Core (L : Type) where
  headBlockNumber              : Nat
  headBlockId                  : BlockId
  genesisTime                  : Nat
  time                         : Nat
  currentValidator             : AccountName
  averageBlockSize             : Nat
  maximumBlockSize             : Nat
  currentAslot                 : Nat
  recentSlotsFilled            : Nat
  participationCount           : Nat
  maxVirtualBandwidth          : Nat
  currentReserveRatio          : Nat
  emergencyConsensusActive     : Bool
  emergencyConsensusStartBlock : Nat
  schedule                     : ValidatorSchedule
  validators                   : List Validator
  penalties                    : List PenaltyExpire
  hardforks                    : HardforkProperty
  blockSummary                 : Nat → BlockId
  ledger                       : L

/-- `validator_confirmation_object`: the slots of the schedule at the block's creation, without the
    producer's, each with the mark of its confirmation. -/
structure ValidatorConfirmation where
  blockNum : Nat
  blockId  : BlockId
  slots    : List (AccountName × Bool)
deriving DecidableEq, Repr

/-- **What irreversibility writes.** -/
structure Finality where
  lastIrreversibleBlockNum       : Nat
  lastIrreversibleBlockId        : BlockId
  lastIrreversibleBlockRefNum    : Nat
  lastIrreversibleBlockRefPrefix : Nat
  confirmations                  : List ValidatorConfirmation
deriving DecidableEq, Repr

/-- A block as it was applied: the block, the timestamp of the last irreversible block as local storage
    gave it, the ids local storage gave for newly irreversible blocks, the later corrections of the
    absolute slot, and whether the application came to its end. -/
structure AppliedBlock (Tx : Type) where
  block      : SignedBlock Tx
  txSkip     : Skip
  libTime    : Option Nat
  libIds     : List (Option BlockId) := []
  aslotDelta : Nat := 0
  complete   : Bool := false
deriving DecidableEq

/-- **The chain state**, what an undo session saves and restores. -/
structure ChainState (Tx L : Type) where
  core    : Core L
  fin     : Finality
  history : List (AppliedBlock Tx)

/-! ## What operations may do to validators -/

/-- The ways in which evaluators and per-block processing change validators: `validator_update`, the two
    chain property operations, `adjust_validator_vote`, the vote reset of two hardforks, and the removal of a
    validator by two others, of which one also blanks its slots. -/
inductive ValidatorEdit where
  | updateKey (owner : AccountName) (key : PublicKey)
  | updateProps (owner : AccountName) (props : ChainProperties)
  | adjustVote (owner : AccountName) (delta : Int)
  | clearVotes
  | remove (owner : AccountName) (unschedule : Bool)
deriving DecidableEq, Repr

/-- **What is not modelled further.** Serialization, hashing and signatures, the hardfork tables, and the
    code that works on `L`. The code of an error is whatever identifies it. -/
structure Env (Tx L : Type) where
  packSize            : SignedBlock Tx → Nat
  calculateMerkleRoot : List Tx → Nat
  sharedDbMerkle      : Nat → Option Nat
  validateSignee      : SignedBlock Tx → PublicKey → Bool
  hardforkTime        : Nat → Nat
  hardforkVersion     : Nat → Nat
  totalVestingShares  : L → Int
  /-- Is the transaction in the deduplication index? -/
  isKnownTransaction  : L → Tx → Bool
  /-- `_apply_transaction`. -/
  applyTransaction    : Skip → Tx → Core L → Except Nat (List ValidatorEdit × L)
  /-- `clear_expired_proposals` to `update_bandwidth_reserve_candidates`. -/
  clearExpired        : Core L → Except Nat (List ValidatorEdit × L)
  /-- `process_funds` to `paid_subscribe_processing`, behind the inflation recalculation. -/
  processFunds        : Core L → Except Nat (List ValidatorEdit × L)
  /-- The migration code of one hardfork. -/
  migrate             : Nat → Core L → Except Nat (List ValidatorEdit × L)
  /-- How many transactions are re-applied before the pending execution limit is reached. -/
  pendingLimit        : Nat

/-! ## Reading the state -/

/-- `a - b` in 32-bit arithmetic. -/
def u32Sub (a b : Nat) : Nat := (a + 2 ^ 32 - b) % 2 ^ 32

/-- `a - b` in 64-bit arithmetic. -/
def u64Sub (a b : Nat) : Nat := (a + 2 ^ 64 - b) % 2 ^ 64

namespace Core

variable {L : Type}

def hasHardfork (c : Core L) (n : Nat) : Bool := decide (n < c.hardforks.processedHardforks.length)

def findValidator (c : Core L) (name : AccountName) : Option Validator :=
  c.validators.find? (fun w => decide (w.owner = name))

def getValidator (c : Core L) (name : AccountName) : Except Exn Validator :=
  match c.findValidator name with
  | some w => .ok w
  | none   => .error .unknownKey

/-- `modify` on the validator with this name. -/
def modifyValidator (name : AccountName) (f : Validator → Validator) (c : Core L) : Core L :=
  { c with validators := c.validators.map (fun w => if w.owner = name then f w else w) }

/-- `get_scheduled_validator`. -/
def getScheduledValidator (c : Core L) (slotNum : Nat) : AccountName :=
  c.schedule.slot ((c.currentAslot + slotNum) % c.schedule.numScheduledValidators)

/-- `get_slot_time`. -/
def getSlotTime (c : Core L) (slotNum : Nat) : Nat :=
  if slotNum = 0 then 0
  else if c.headBlockNumber = 0 then c.time - Config.blockInterval + slotNum * Config.blockInterval
  else c.time / Config.blockInterval * Config.blockInterval + slotNum * Config.blockInterval

/-- `get_slot_at_time`. -/
def getSlotAtTime (c : Core L) (when_ : Nat) : Nat :=
  if when_ < c.getSlotTime 1 then 0
  else (when_ - c.getSlotTime 1) / Config.blockInterval + 1

end Core

namespace ChainState

variable {Tx L : Type}

def headBlockNum (s : ChainState Tx L) : Nat := s.core.headBlockNumber
def headBlockId (s : ChainState Tx L) : BlockId := s.core.headBlockId
def lib (s : ChainState Tx L) : Nat := s.fin.lastIrreversibleBlockNum

end ChainState

end VizNode
