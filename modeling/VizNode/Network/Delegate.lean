import VizNode.Chain.Logs

/-!
# `VizNode.Network.Delegate` — what the peer-to-peer layer asks the chain

`dlt_delegate` of the p2p plugin, as far as it reads blocks, and the replies of `dlt_p2p_node` that are made of what
it reads; and what the fork tracker asks. The rolling log of a node without history is always open here.

## Contents
- **Lookups.** `readBlockByNum`, `getDltEarliestBlock`, `getDltLatestBlock`.
- **Replies.** `onDltGetBlock`, `onDltGetBlockRange`, `onDltGapFillRequest`.
- **Forks.** `getForkBranchTips`, `isHeadOnBranch`, `switchToFork`.
-/

namespace VizNode

namespace Database

variable {Tx L : Type}

/-! ## Lookups -/

def getDltEarliestBlock (db : Database Tx L) : Nat := if db.dltMode then firstNum db.dltBlockLog else 0

def getDltLatestBlock (db : Database Tx L) : Nat := if db.dltMode then lastNum db.dltBlockLog else db.headBlockNum

/-- **`read_block_by_num`** of the delegate: the rolling log first, then the first block of that height in the fork
    database, whichever branch it is on. -/
def readBlockByNum (db : Database Tx L) (num : Nat) : Option (SignedBlock Tx) :=
  match if db.dltMode then db.readDltBlockLog num else none with
  | some b => some b
  | none   => (db.forkDb.fetchBlockByNumber num).head?.map (·.data)

/-! ## Replies -/

/-- `GAP_FILL_MAX_BLOCKS`. -/
def gapFillMaxBlocks : Nat := 100

/-- `MAX_MESSAGE_SIZE` without the headroom of 64 kB. -/
def replyBudget : Nat := 1024 * 1024 * 2 - 64 * 1024

/-- The bytes of a packed `fc::unsigned_int`: seven bits in each. -/
def unsignedIntSize (n : Nat) : Nat := 1 + ([2 ^ 7, 2 ^ 14, 2 ^ 21, 2 ^ 28].filter (fun m => decide (m ≤ n))).length

/-- `pack_size` of a reply with these blocks: the vector, a number and a flag. -/
def replySize (env : Env Tx L) (blocks : List (SignedBlock Tx)) : Nat :=
  unsignedIntSize blocks.length + (blocks.map env.packSize).sum + 5

/-- `dlt_block_range_reply_message`. -/
structure RangeReply (Tx : Type) where
  blocks                 : List (SignedBlock Tx)
  lastBlockNextAvailable : Nat := 0
  isLast                 : Bool := false

/-- The loop of `on_dlt_get_block_range` over `count` heights from `num` on. Heights without a block are skipped; a
    block that does not fit any more ends the reply, and its height is returned. -/
def rangeBlocks (env : Env Tx L) (db : Database Tx L) :
    Nat → Nat → List (SignedBlock Tx) → List (SignedBlock Tx) × Option Nat
  | _,   0,         blocks => (blocks, none)
  | num, count + 1, blocks =>
    match db.readBlockByNum num with
    | none   => rangeBlocks env db (num + 1) count blocks
    | some b =>
      if replyBudget < replySize env blocks + env.packSize b ∧ blocks ≠ [] then (blocks, some num)
      else rangeBlocks env db (num + 1) count (blocks ++ [b])

/-- **`on_dlt_get_block_range`.** -/
def onDltGetBlockRange (env : Env Tx L) (db : Database Tx L) (startBlockNum endBlockNum : Nat) : RangeReply Tx :=
  let latest := db.getDltLatestBlock
  match db.rangeBlocks env startBlockNum (min endBlockNum latest + 1 - startBlockNum) [] with
  | (blocks, some n) => { blocks := blocks, lastBlockNextAvailable := n }
  | (blocks, none)   =>
    match blocks.getLast? with
    | none   => { blocks := [] }
    | some b =>
      { blocks                 := blocks
        lastBlockNextAvailable := if b.blockNum < latest then b.blockNum + 1 else 0
        isLast                 := decide (latest ≤ b.blockNum) }

/-- `on_dlt_get_block`: the block with the next number and whether it is the last one, or not available. -/
def onDltGetBlock (db : Database Tx L) (num : Nat) : Option (SignedBlock Tx × Nat × Bool) :=
  (db.readBlockByNum num).map fun b =>
    (b, if b.blockNum < db.getDltLatestBlock then b.blockNum + 1 else 0,
      decide (db.getDltLatestBlock ≤ b.blockNum))

/-- `on_dlt_gap_fill_request`: `none` when the request itself is refused. -/
def onDltGapFillRequest (db : Database Tx L) (nums : List Nat) : Option (List (SignedBlock Tx)) :=
  if nums = [] ∨ gapFillMaxBlocks < nums.length then none
  else some ((nums.filter (fun n =>
    decide (db.getDltEarliestBlock ≤ n) && decide (n ≤ db.headBlockNum + gapFillMaxBlocks))).filterMap
      db.readBlockByNum)

/-! ## Forks -/

/-- **`get_fork_branch_tips`**: every linked block from the height of the head up to five above it. -/
def getForkBranchTips (db : Database Tx L) : List BlockId :=
  let first := (db.headBlockNum + 1) % 2 ^ 32
  let last  := (db.headBlockNum + 5) % 2 ^ 32
  (db.headBlockNum :: (List.range (last + 1 - first)).map (first + ·)).flatMap
    (fun n => (db.forkDb.fetchBlockByNumber n).map (·.id))

/-- **`is_head_on_branch`.** -/
def isHeadOnBranch (db : Database Tx L) (tip : BlockId) : Bool :=
  if tip = db.headBlockId then true
  else if !db.forkDb.isKnownBlock tip || !db.forkDb.isKnownBlock db.headBlockId then false
  else match db.forkDb.fetchBranchFrom tip db.headBlockId with
    | .ok (_, second) => !second.isEmpty
    | .error _        => false

/-- **`switch_to_fork`**: the block is pushed again, and an exception is swallowed. -/
def switchToFork (env : Env Tx L) (db : Database Tx L) (newHead : BlockId) : Database Tx L :=
  match db.forkDb.fetchBlock newHead with
  | some x => Prog.after (pushBlock env x.data Skip.nothing) db
  | none   => db

end Database

end VizNode
