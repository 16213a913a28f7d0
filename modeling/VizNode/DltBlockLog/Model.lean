import VizNode.Protocol
import VizNode.Lib.Files

/-!
# `VizNode.DltBlockLog.Model` — the rolling block log of a snapshot node

`dlt_block_log.cpp`: an append-only data file of packed blocks, each followed by its position, and an index file
with the number of the first block and the positions. The log may begin at any block; `truncate_before` moves the
beginning by copying what stays into temporary files and swapping them in.

Mapped files are the bytes of their files: writing through the mapping is writing the file, and `mapped_file.size()`
is the size of the file. What the log changes on disk is a list of `FileOp`s, in the order the source makes them.

## Contents
- **Layout.** The six paths, and what is parametric: the codec of `fc::raw`.
- **Reading.** `getBlockPos`, `readBlock`, `readHead`, `readBlockByNum`.
- **Writing.** `appendOps`; the first block also writes the header of the index.
- **Opening.** `recover` after an interrupted truncation, `constructIndex`, `openFiles`.
- **Truncating.** `truncateOps` builds the temporary files and swaps them.
- **Commands.** `exec` and `step`.
-/

namespace VizNode

namespace DltBlockLog

open Files

variable {Tx : Type}

/-! ## Layout -/

/-- The files of a log. -/
inductive LogPath where
  | block | index | blockTmp | indexTmp | blockBak | indexBak
deriving DecidableEq, Repr

/-- `CHAIN_BLOCK_SIZE`. -/
def chainBlockSize : Nat := 2 * 1024 * 1024 * Config.blockInterval

/-- `INDEX_HEADER_SIZE`, and `dlt_min_valid_file_size`. -/
def indexHeaderSize : Nat := 8

/-- `dlt_block_log::npos`. -/
def npos : Nat := 2 ^ 64 - 1

/-- **`fc::raw`**: `pack`, and `unpack` with the number of bytes it reads. -/
structure BlockCodec (Tx : Type) where
  pack   : SignedBlock Tx → Bytes
  unpack : Bytes → Option (SignedBlock Tx × Nat)

inductive LogError where
  | readPosition | shortFile | unpackFailed | wrongTrailer | wrongBlock | appendPosition | fileClosed | outOfFuel
deriving DecidableEq, Repr

/-- The members of `dlt_block_log_impl` beside the paths. -/
structure Impl (Tx : Type) where
  isOpen           : Bool := false
  head             : Option (SignedBlock Tx) := none
  headId           : BlockId := .zero
  startBlockNum    : Nat := 0
  logicalBlockSize : Nat := 0
  logicalIndexSize : Nat := 0

/-- **The log**: its files and its members. -/
structure Log (Tx : Type) where
  files : FileSystem LogPath
  impl  : Impl Tx

/-- The bytes at a path. -/
def bytesAt (fs : FileSystem LogPath) (p : LogPath) : Bytes := (fs p).getD []

/-! ## Reading -/

/-- `get_mapped_size`, and `logical_block_size`: sizes below eight count as nothing. -/
def usable (n : Nat) : Nat := if n < indexHeaderSize then 0 else n

/-- `get_uint64`. -/
def getUint64 (f : Bytes) (pos : Nat) : Except LogError Nat :=
  if pos + 8 ≤ usable f.length then .ok (decode ((f.drop pos).take 8)) else .error .shortFile

/-- `get_last_uint64`. -/
def getLastUint64 (f : Bytes) : Except LogError Nat :=
  if 8 ≤ usable f.length then .ok (decode ((f.drop (usable f.length - 8)).take 8)) else .error .shortFile

/-- **`read_block`**: the block at a position, and the position of the next one. -/
def readBlock (codec : BlockCodec Tx) (logicalSize : Nat) (f : Bytes) (pos : Nat) :
    Except LogError (SignedBlock Tx × Nat) :=
  if pos < usable logicalSize then
    match codec.unpack ((f.drop pos).take (min (usable logicalSize - pos) chainBlockSize)) with
    | none => .error .unpackFailed
    | some (b, used) => do
      let trailer ← getUint64 f (pos + used)
      if trailer = pos then .ok (b, pos + used + 8) else .error .wrongTrailer
  else .error .readPosition

namespace Log

/-- `get_block_pos`. The differences are those of `uint32_t`, below which the checks keep them. -/
def getBlockPos (log : Log Tx) (blockNum : Nat) : Except LogError Nat :=
  match log.impl.head with
  | none   => .ok npos
  | some _ =>
    if log.impl.startBlockNum = 0 then .ok npos
    else if blockNum < log.impl.startBlockNum ∨ log.impl.headId.num < blockNum then .ok npos
    else if usable log.impl.logicalIndexSize < indexHeaderSize + 8 * (blockNum - log.impl.startBlockNum) + 8 then
      .ok npos
    else getUint64 (bytesAt log.files .index) (indexHeaderSize + 8 * (blockNum - log.impl.startBlockNum))

/-- **`read_block_by_num`.** -/
def readBlockByNum (codec : BlockCodec Tx) (log : Log Tx) (blockNum : Nat) :
    Except LogError (Option (SignedBlock Tx)) := do
  let pos ← log.getBlockPos blockNum
  if pos ≠ npos then
    let r ← readBlock codec log.impl.logicalBlockSize (bytesAt log.files .block) pos
    if r.1.blockNum = blockNum then .ok (some r.1) else .error .wrongBlock
  else .ok none

def startBlockNum (log : Log Tx) : Nat := log.impl.startBlockNum

def headBlockNum (log : Log Tx) : Nat :=
  match log.impl.head with
  | none   => 0
  | some _ => log.impl.headId.num

/-- `num_blocks`, a `uint32_t`. -/
def numBlocks (log : Log Tx) : Nat :=
  match log.impl.head with
  | none   => 0
  | some _ =>
    if log.impl.startBlockNum = 0 then 0
    else (log.impl.headId.num + 2 ^ 32 - log.impl.startBlockNum + 1) % 2 ^ 32

end Log

/-! ## Writing -/

/-- **`append`** of a log at the two paths: what it writes, in this order, and its members afterwards. -/
def appendOps (bp ip : LogPath) (m : Impl Tx) (b : SignedBlock Tx) (data : Bytes) :
    Except LogError (List (FileOp LogPath) × Impl Tx) :=
  let idxSize := usable m.logicalIndexSize
  let blockPos := usable m.logicalBlockSize
  if m.startBlockNum = 0 then
    -- the first block ever written: the header of the index comes first
    .ok ([.resize ip (indexHeaderSize + 8), .write ip 0 (encode64 b.blockNum),
          .resize bp (blockPos + data.length + 8), .write bp blockPos data,
          .write bp (blockPos + data.length) (encode64 blockPos), .write ip indexHeaderSize (encode64 blockPos)],
      { m with
        startBlockNum    := b.blockNum
        logicalIndexSize := indexHeaderSize + 8
        logicalBlockSize := blockPos + data.length + 8
        head             := some b
        headId           := b.id })
  else if idxSize = indexHeaderSize + 8 * ((b.blockNum + 2 ^ 32 - m.startBlockNum) % 2 ^ 32) then
    .ok ([.resize bp (blockPos + data.length + 8), .write bp blockPos data,
          .write bp (blockPos + data.length) (encode64 blockPos),
          .resize ip (idxSize + 8), .write ip idxSize (encode64 blockPos)],
      { m with
        logicalIndexSize := idxSize + 8
        logicalBlockSize := blockPos + data.length + 8
        head             := some b
        headId           := b.id })
  else .error .appendPosition

/-! ## Opening -/

/-- A file that counts as lost: not there, or at most the byte `create_nonexist_file` writes. -/
def lost (fs : FileSystem LogPath) (p : LogPath) : Prop := (bytesAt fs p).length ≤ 1

instance (fs : FileSystem LogPath) (p : LogPath) : Decidable (lost fs p) := inferInstanceAs (Decidable (_ ≤ _))

/-- One file and its backup: restore the backup where the file is lost, else drop it. -/
def restore (p bak : LogPath) (fs : FileSystem LogPath) : FileSystem LogPath :=
  if fs bak = none then fs
  else if lost fs p then runAll [.remove p, .rename bak p] fs
  else runAll [.remove bak] fs

/-- **The recovery of `open`**: backups, then stale temporary files, then both files are there. -/
def recover (fs : FileSystem LogPath) : FileSystem LogPath :=
  runAll [.remove .blockTmp, .remove .indexTmp, .touch .block, .touch .index]
    (restore .index .indexBak (restore .block .blockBak fs))

/-- `sync_logical_sizes`. -/
def Log.syncLogicalSizes (log : Log Tx) : Log Tx :=
  { log with impl := { log.impl with
      logicalBlockSize := (bytesAt log.files .block).length
      logicalIndexSize := (bytesAt log.files .index).length } }

/-- The loop of `construct_index`: entry after entry, while the walk is not past the last block. -/
def walkBlocks (codec : BlockCodec Tx) (logicalSize : Nat) (f : Bytes) (endPos : Nat) :
    Nat → Nat → Nat → Bytes → Except LogError Bytes
  | 0,        _,   _,      _   => .error .outOfFuel
  | fuel + 1, pos, idxPos, idx =>
    if pos ≤ endPos then do
      let r ← readBlock codec logicalSize f pos
      walkBlocks codec logicalSize f endPos fuel r.2 (idxPos + 8) (write idx idxPos (encode64 pos))
    else .ok idx

/-- **`construct_index`**, of a log that has a head. -/
def Log.constructIndex (codec : BlockCodec Tx) (log : Log Tx) (head : SignedBlock Tx) : Except LogError (Log Tx) := do
  let fs := runAll [.remove .index, .touch .index] log.files
  let data := bytesAt fs .block
  let endPos ← getLastUint64 data
  let first ← readBlock codec log.impl.logicalBlockSize data 0
  let count := (head.blockNum + 2 ^ 32 - first.1.blockNum + 1) % 2 ^ 32
  let idx := write (Files.resize (bytesAt fs .index) (indexHeaderSize + count * 8)) 0 (encode64 first.1.blockNum)
  let idx ← walkBlocks codec log.impl.logicalBlockSize data endPos (data.length + 1) 0 indexHeaderSize idx
  .ok ({ files := fun p => if p = .index then some idx else fs p
         impl := { log.impl with startBlockNum := first.1.blockNum } } : Log Tx).syncLogicalSizes

/-- **`open`** on the files of a log. -/
def openFiles (codec : BlockCodec Tx) (files : FileSystem LogPath) : Except LogError (Log Tx) := do
  let fs := recover files
  let data := bytesAt fs .block
  let idx := bytesAt fs .index
  let log : Log Tx := ({ files := fs, impl := { isOpen := true } } : Log Tx).syncLogicalSizes
  if indexHeaderSize < data.length then
    let pos ← getLastUint64 data
    let head ← readBlock codec log.impl.logicalBlockSize data pos
    let log := { log with impl := { log.impl with head := some head.1, headId := head.1.id } }
    if indexHeaderSize < idx.length then
      let start ← getUint64 idx 0
      let indexPos ← getLastUint64 idx
      let log := { log with impl := { log.impl with startBlockNum := start % 2 ^ 32 } }
      if pos ≠ indexPos then log.constructIndex codec head.1 else .ok log
    else log.constructIndex codec head.1
  else if indexHeaderSize < idx.length then
    -- no data but an index: both files start again
    .ok ({ log with files := runAll [.remove .block, .remove .index, .touch .block, .touch .index] fs }).syncLogicalSizes
  else .ok log

/-! ## Truncating -/

/-- The temporary files: each retained block is read from the log and appended. -/
def copyOps (codec : BlockCodec Tx) (log : Log Tx) :
    List Nat → Impl Tx → Except LogError (List (FileOp LogPath))
  | [], _ => .ok []
  | n :: ns, m => do
    let pos ← log.getBlockPos n
    if pos = npos then copyOps codec log ns m
    else
      let r ← readBlock codec log.impl.logicalBlockSize (bytesAt log.files .block) pos
      let a ← appendOps .blockTmp .indexTmp m r.1 (codec.pack r.1)
      let rest ← copyOps codec log ns a.2
      .ok (a.1 ++ rest)

/-- The swap: originals to backups, temporaries to originals, backups away. -/
def swapOps : List (FileOp LogPath) :=
  [.remove .blockBak, .remove .indexBak, .rename .block .blockBak, .rename .index .indexBak,
    .rename .blockTmp .block, .rename .indexTmp .index, .remove .blockBak, .remove .indexBak]

/-- **The file operations of `truncate_before`**, none where there is nothing to truncate. -/
def truncateOps (codec : BlockCodec Tx) (log : Log Tx) (newStart : Nat) :
    Except LogError (List (FileOp LogPath)) :=
  match log.impl.head with
  | none   => .ok []
  | some _ =>
    if log.impl.startBlockNum = 0 ∨ newStart ≤ log.impl.startBlockNum ∨ log.impl.headId.num < newStart then .ok []
    else do
      let copy ← copyOps codec log (List.range' newStart (log.impl.headId.num + 1 - newStart)) {}
      .ok ([.remove .blockTmp, .remove .indexTmp, .touch .blockTmp, .touch .indexTmp] ++ copy ++ swapOps)

/-! ## Commands -/

/-- What a client may do with a log. -/
inductive Command (Tx : Type) where
  | append (b : SignedBlock Tx)
  | truncateBefore (newStart : Nat)
  | reset
  | close
  | openLog

namespace Log

/-- `close` of the members. -/
def close (log : Log Tx) : Log Tx := { log with impl := {} }

/-- **A command that returns.** -/
def exec (codec : BlockCodec Tx) (log : Log Tx) : Command Tx → Except LogError (Log Tx)
  | .append b => do
    let a ← appendOps .block .index log.impl b (codec.pack b)
    if log.impl.isOpen then .ok { files := runAll a.1 log.files, impl := a.2 } else .error .fileClosed
  | .truncateBefore newStart => do
    let ops ← truncateOps codec log newStart
    if ops = [] then .ok log else openFiles codec (runAll ops log.files)
  | .reset => openFiles codec (runAll [.remove .block, .remove .index, .remove .blockTmp, .remove .indexTmp,
      .remove .blockBak, .remove .indexBak] log.files)
  | .close => .ok log.close
  | .openLog => openFiles codec log.files

/-- **A command**, also when it throws. An append to a closed log has set the first number by then; an append at the
    wrong place has changed nothing. -/
def step (codec : BlockCodec Tx) (log : Log Tx) (c : Command Tx) : Log Tx :=
  match log.exec codec c, c with
  | .ok log',  _         => log'
  | .error _, .append b =>
    if log.impl.startBlockNum = 0 then { log with impl := { log.impl with startBlockNum := b.blockNum } } else log
  | .error _, _         => log

/-- **A run**, from a log object that was never opened, over no files. -/
def run (codec : BlockCodec Tx) (cs : List (Command Tx)) : Log Tx :=
  cs.foldl (step codec) { files := fun _ => none, impl := {} }

end Log

end DltBlockLog

end VizNode
