import VizNode.DltBlockLog.Layout

/-!
# `VizNode.BlockLog.Model` — the block log of a full node

`block_log.cpp`: the same data file as the rolling log has, and an index file of positions without a header, so that
the log begins at block 1. There is no truncation and nothing to recover from: `open` compares the last eight bytes
of the two files, and builds the index again where they differ.

The reading functions are those of the rolling log, with the size of the mapped file for the size that is tracked.

## Contents
- **Reading.** `getBlockPos`, `readBlockByNum`.
- **Writing.** `appendOps`.
- **Opening.** `constructIndex`, `openFiles`.
- **Commands.** `exec`, `step` and `run`.
-/

namespace VizNode

namespace BlockLog

open Files DltBlockLog

variable {Tx : Type}

/-- The files of a log. -/
inductive Path where
  | block | index
deriving DecidableEq, Repr

/-- The members of `block_log_impl` beside the paths. -/
structure Impl (Tx : Type) where
  isOpen : Bool := false
  head   : Option (SignedBlock Tx) := none
  headId : BlockId := .zero

/-- **The log**: its files and its members. -/
structure Log (Tx : Type) where
  files : FileSystem Path
  impl  : Impl Tx

/-- The bytes at a path. -/
def bytesAt (fs : FileSystem Path) (p : Path) : Bytes := (fs p).getD []

/-! ## Reading -/

namespace Log

/-- `get_block_pos`. -/
def getBlockPos (log : Log Tx) (blockNum : Nat) : Except LogError Nat :=
  match log.impl.head with
  | none   => .ok npos
  | some _ =>
    if blockNum ≤ log.impl.headId.num ∧ 0 < blockNum then getUint64 (bytesAt log.files .index) (8 * (blockNum - 1))
    else .ok npos

/-- **`read_block_by_num`.** -/
def readBlockByNum (codec : BlockCodec Tx) (log : Log Tx) (blockNum : Nat) :
    Except LogError (Option (SignedBlock Tx)) := do
  let pos ← log.getBlockPos blockNum
  if pos ≠ npos then
    let r ← readBlock codec (bytesAt log.files .block).length (bytesAt log.files .block) pos
    if r.1.blockNum = blockNum then .ok (some r.1) else .error .wrongBlock
  else .ok none

end Log

/-! ## Writing -/

/-- **`append`**: what it writes, in this order, and the members afterwards. -/
def appendOps (log : Log Tx) (b : SignedBlock Tx) (data : Bytes) :
    Except LogError (List (FileOp Path) × Impl Tx) :=
  let indexPos := usable (bytesAt log.files .index).length
  let blockPos := usable (bytesAt log.files .block).length
  -- `block_num() - 1` is a `uint32_t`
  if indexPos = 8 * ((b.blockNum + 2 ^ 32 - 1) % 2 ^ 32) then
    .ok ([.resize .block (blockPos + data.length + 8), .write .block blockPos data,
          .write .block (blockPos + data.length) (encode64 blockPos),
          .resize .index (indexPos + 8), .write .index indexPos (encode64 blockPos)],
      { log.impl with head := some b, headId := b.id })
  else .error .appendPosition

/-! ## Opening -/

/-- **`construct_index`**, of a log that has a head. -/
def Log.constructIndex (codec : BlockCodec Tx) (log : Log Tx) (head : SignedBlock Tx) : Except LogError (Log Tx) := do
  let fs := runAll [.remove .index, .touch .index] log.files
  let data := bytesAt fs .block
  let idx := Files.resize (bytesAt fs .index) (head.blockNum * 8)
  let endPos ← getLastUint64 data
  let idx ← walkBlocks codec data.length data endPos (data.length + 1) 0 0 idx
  .ok { files := fun p => if p = .index then some idx else fs p, impl := log.impl }

/-- **`open`** on the files of a log. A head that was there before stays where there is no data. -/
def openFiles (codec : BlockCodec Tx) (m : Impl Tx) (files : FileSystem Path) : Except LogError (Log Tx) := do
  let fs := runAll [.touch .block, .touch .index] files
  let data := bytesAt fs .block
  let idx := bytesAt fs .index
  if 8 < data.length then
    let pos ← getLastUint64 data
    let head ← readBlock codec data.length data pos
    let log : Log Tx := { files := fs, impl := { isOpen := true, head := some head.1, headId := head.1.id } }
    if 8 ≤ idx.length then
      let indexPos ← getLastUint64 idx
      if pos ≠ indexPos then log.constructIndex codec head.1 else .ok log
    else log.constructIndex codec head.1
  else
    let log : Log Tx := { files := fs, impl := { m with isOpen := true } }
    if 8 ≤ idx.length then
      -- no data but an index: both files start again
      .ok { log with files := runAll [.remove .block, .remove .index, .touch .block, .touch .index] fs }
    else .ok log

/-! ## Commands -/

/-- What a client may do with a log. -/
inductive Command (Tx : Type) where
  | append (b : SignedBlock Tx)
  | close
  | openLog

namespace Log

/-- `close` of the members. -/
def close (log : Log Tx) : Log Tx := { log with impl := {} }

/-- **A command that returns.** The files of a closed log are not mapped. -/
def exec (codec : BlockCodec Tx) (log : Log Tx) : Command Tx → Except LogError (Log Tx)
  | .append b =>
    if log.impl.isOpen then do
      let a ← appendOps log b (codec.pack b)
      .ok { files := runAll a.1 log.files, impl := a.2 }
    else .error .fileClosed
  | .close    => .ok log.close
  | .openLog  => openFiles codec log.impl log.files

/-- **A command**, also when it throws. -/
def step (codec : BlockCodec Tx) (log : Log Tx) (c : Command Tx) : Log Tx :=
  match log.exec codec c with
  | .ok log'  => log'
  | .error _  => log

/-- **A run**, from a log object that was never opened, over no files. -/
def run (codec : BlockCodec Tx) (cs : List (Command Tx)) : Log Tx :=
  cs.foldl (step codec) { files := fun _ => none, impl := {} }

end Log

end BlockLog

end VizNode
