import Mathlib.Algebra.Order.Ring.Nat
import Mathlib.Algebra.Order.Ring.Int
import Mathlib.Tactic.Common

/-!
# `VizNode.Protocol` — blocks, ids, constants and exceptions

The data the node exchanges and the constants of the main network configuration.

## Contents
- **Ids and blocks.** `BlockId` carries the block number in its first four bytes, so the number of a block
  is read off its parent's id. The hash part of a block's own id is carried as data: no property below
  depends on how it is computed, and where two blocks must not share an id this is a hypothesis.
- **Configuration.** The `CHAIN_*` constants the modelled functions read.
- **Exceptions.** `Exn`, one constructor for each exception type a handler of the node tells apart, with
  the check that failed for a plain assertion.
- **Skip flags.** The bits of the `skip` argument.
-/

namespace VizNode

/-! ## Ids and blocks -/

/-- A fixed-width account name, as the number its 32 bytes spell; the empty name is `0`. -/
abbrev AccountName := Nat

/-- A public key, as the number its 33 bytes spell; the null key `public_key_type()` is `0`. -/
abbrev PublicKey := Nat

/-- **A block id**: the block number in the first four bytes, the hash in the rest. -/
structure BlockId where
  num  : Nat
  hash : Nat
deriving DecidableEq, Repr

namespace BlockId

/-- `block_id_type()`, the all-zero id. -/
def zero : BlockId := ⟨0, 0⟩

/-- The bytewise order of ids: the number first, then the hash. -/
def lt (a b : BlockId) : Bool := decide (a.num < b.num) || (decide (a.num = b.num) && decide (a.hash < b.hash))

end BlockId

/-- `block_header_extensions`: the three alternatives of the variant. -/
inductive HeaderExtension where
  | void
  | version (v : Nat)
  | hardforkVersionVote (hfVersion hfTime : Nat)
deriving DecidableEq, Repr

/-- **A signed block.** `hash` is the part of `sha224(header)` that `id()` keeps behind the number. -/
structure SignedBlock (Tx : Type) where
  previous              : BlockId
  timestamp             : Nat
  validator             : AccountName
  transactionMerkleRoot : Nat
  extensions            : List HeaderExtension
  validatorSignature    : Nat
  transactions          : List Tx
  hash                  : Nat
deriving DecidableEq

namespace SignedBlock

variable {Tx : Type}

/-- `num_from_id(previous) + 1`, a 32-bit sum. -/
def blockNum (b : SignedBlock Tx) : Nat := (b.previous.num + 1) % 2 ^ 32

def id (b : SignedBlock Tx) : BlockId := ⟨b.blockNum, b.hash⟩

@[simp] theorem id_num (b : SignedBlock Tx) : b.id.num = b.blockNum := rfl

end SignedBlock

/-! ## Configuration -/

namespace Config

def blockInterval : Nat := 3
def maxTopValidators : Nat := 11
def maxSupportValidators : Nat := 10
def maxValidators : Nat := maxTopValidators + maxSupportValidators
def hundredPercent : Nat := 10000
def irreversibleThreshold : Nat := 7500
def irreversibleSupportMinRun : Nat := 2
def hardforkRequiredValidators : Nat := 17
def maxBlockPostValidationCount : Nat := 20
def maxUndoHistory : Nat := 10000
def maxValidatorMissedBlocks : Nat := 200
def emergencyMaxValidatorMissedBlocks : Nat := 5 * maxValidators
def emergencyConsensusTimeoutSec : Nat := 3600
def maxReserveRatio : Nat := 20000
def bandwidthPrecision : Nat := 1000000
def bandwidthAverageWindowSeconds : Nat := 60 * 60 * 24 * 7
def numHardforks : Nat := 13
def maxBlockReordering : Nat := 2400
def virtualScheduleLapLength2 : Nat := 2 ^ 128 - 1

/-- `"committee"`, padded to 32 bytes. -/
def emergencyValidatorAccount : AccountName := 0x636f6d6d6974746565 * 2 ^ 184

/-- `VIZ75CRHVHPwYiUESy1bgN3KhVFbZCQQRA9jT6TnpzKAmpxMPD6Xv`, decoded. -/
def emergencyValidatorPublicKey : PublicKey :=
  0x031fb4c22be3da41a9dbd73c307cc24f51786c5990bdbc2fe387750d24e3be4a01

/-- `version(3, 2, 0)`: 8 bits of major, 8 of hardfork and 16 of revision number. -/
def chainVersion : Nat := 3 * 2 ^ 24 + 2 * 2 ^ 16

end Config

/-! ## Exceptions -/

/-- The check behind an `fc::assert_exception`. -/
inductive Check where
  | forkDbEmpty | forkDbLastBlock | parentInvalid | branchUnknown | branchBroken
  | merkleRoot | blockSize | previousId | timestamp | nullSigningKey | signee | slotZero
  | notInSchedule | checkpoint | validatorVersion | missedBlocksZero
  | logPosition | irreversibleBlockMissing | hardforkOrder | votesAboveTotal | unknownBlockId
  | stateMatchesLog
deriving DecidableEq, Repr

/-- **The exceptions a handler can tell apart.** `FC_CAPTURE_AND_RETHROW` keeps the type of an
    `fc::exception`; `unknownKey` is the `std::out_of_range` of a failed `get`, `evaluation` whatever an
    operation's evaluator throws, and `outOfFuel` marks a loop that does not end. -/
inductive Exn where
  | assertion (c : Check)
  | unlinkableBlock
  | blockTooOld
  | wrongScheduledValidator
  | popEmptyChain
  | undoDatabase
  | unknownHardfork
  | databaseRevision
  | blockLog
  | unknownKey
  | evaluation (code : Nat)
  | outOfFuel
deriving DecidableEq, Repr

namespace Exn

/-- `catch (const fc::assert_exception &)`. -/
def isAssert : Exn → Bool
  | assertion _ => true
  | _           => false

end Exn

/-! ## Skip flags -/

/-- The `skip` argument, one field for each bit a modelled function tests. -/
structure Skip where
  validatorSignature     : Bool := false
  transactionSignatures  : Bool := false
  transactionDupeCheck   : Bool := false
  forkDb                 : Bool := false
  blockSizeCheck         : Bool := false
  taposCheck             : Bool := false
  authorityCheck         : Bool := false
  merkleCheck            : Bool := false
  undoHistoryCheck       : Bool := false
  validatorScheduleCheck : Bool := false
  validateOperations     : Bool := false
  blockLog               : Bool := false
deriving DecidableEq, Repr

namespace Skip

/-- `skip_nothing`. -/
def nothing : Skip := {}

/-- `skip | skip_validator_schedule_check`. -/
def relaxSchedule (skip : Skip) : Skip := { skip with validatorScheduleCheck := true }

/-- The flags the transaction code tests. -/
def forTransactions (skip : Skip) : Skip where
  transactionSignatures := skip.transactionSignatures
  transactionDupeCheck  := skip.transactionDupeCheck
  taposCheck            := skip.taposCheck
  authorityCheck        := skip.authorityCheck
  validateOperations    := skip.validateOperations

/-- The flags of `reindex` and `reindex_from_dlt`. -/
def reindex : Skip where
  blockSizeCheck         := true
  validatorSignature     := true
  transactionSignatures  := true
  transactionDupeCheck   := true
  taposCheck             := true
  merkleCheck            := true
  validatorScheduleCheck := true
  authorityCheck         := true
  validateOperations     := true
  blockLog               := true

/-- The flags `apply_block` uses up to the last checkpoint: everything but the merkle check. -/
def beforeCheckpoint : Skip where
  validatorSignature     := true
  transactionSignatures  := true
  transactionDupeCheck   := true
  forkDb                 := true
  blockSizeCheck         := true
  taposCheck             := true
  authorityCheck         := true
  undoHistoryCheck       := true
  validatorScheduleCheck := true
  validateOperations     := true

end Skip

end VizNode
