import VizNode.Protocol
import VizNode.Lib.Prog

/-!
# `VizNode.ForkDatabase.Model` — the tree of candidate blocks

`fork_database` as the code computes it: a linked index of blocks, a cache of blocks whose parent is not
known yet, and the head, the highest linked block.

**Items are shared.** A `fork_item` is reached through shared pointers from the two indexes, from the head
and from local variables of the callers, and through the *weak* pointer `prev` from its children. `ptr` is
the identity of an item, `prev` the identity of the parent it was linked to, and `lock` follows it as long
as somebody still owns that item. Two items can carry the same block: a block that was removed while it
was the head and arrives again gets a new item.

## Contents
- **Items and lookups.** `lock`, `fetchBlock`, `fetchBlockByNumber`.
- **Insertion.** `pushItem` and `pushNext`, the depth-first insertion of the waiting descendants.
- **Branches.** `fetchBranchFrom` down to the fork, `walkMainBranchToNum` along the head's branch.
-/

namespace VizNode

/-- **A block of the fork database.** `num` and `id` are those of its block. -/
structure ForkItem (Tx : Type) where
  ptr     : Nat
  prev    : Option Nat := none
  invalid : Bool := false
  data    : SignedBlock Tx
deriving DecidableEq

namespace ForkItem

variable {Tx : Type}

def num (x : ForkItem Tx) : Nat := x.data.blockNum
def id (x : ForkItem Tx) : BlockId := x.data.id
def previousId (x : ForkItem Tx) : BlockId := x.data.previous

end ForkItem

/-- **The fork database.** The indexes are in insertion order; `held` are the items a caller's local
    variables keep alive, and `nextPtr` is the identity of the next item to be made. -/
structure ForkDatabase (Tx : Type) where
  index                    : List (ForkItem Tx)
  unlinkedIndex            : List (ForkItem Tx)
  head                     : Option (ForkItem Tx)
  maxSize                  : Nat := Config.maxBlockReordering
  emergencyConsensusActive : Bool := false
  held                     : List (ForkItem Tx) := []
  nextPtr                  : Nat
deriving DecidableEq

namespace ForkDatabase

variable {Tx : Type}

/-- A program on the fork database. -/
abbrev M (Tx : Type) := EStateM Exn (ForkDatabase Tx)

/-! ## Items and lookups -/

/-- Every item some shared pointer owns. -/
def live (f : ForkDatabase Tx) : List (ForkItem Tx) :=
  f.index ++ (f.unlinkedIndex ++ (f.head.toList ++ f.held))

/-- `prev.lock()`: the parent item, as long as somebody owns it. -/
def lock (f : ForkDatabase Tx) (p : Option Nat) : Option (ForkItem Tx) :=
  match p with
  | none   => none
  | some q => f.live.find? (fun x => decide (x.ptr = q))

/-- The item with a given id in one of the two indexes, where ids are unique. -/
def find (l : List (ForkItem Tx)) (id : BlockId) : Option (ForkItem Tx) :=
  l.find? (fun x => decide (x.id = id))

/-- Insertion into an index that is unique by id: a second item with the same id is refused. -/
def insertUnique (l : List (ForkItem Tx)) (x : ForkItem Tx) : List (ForkItem Tx) :=
  if (find l x.id).isSome then l else l ++ [x]

def isKnownBlock (f : ForkDatabase Tx) (id : BlockId) : Bool :=
  (find f.index id).isSome || (find f.unlinkedIndex id).isSome

def fetchBlock (f : ForkDatabase Tx) (id : BlockId) : Option (ForkItem Tx) :=
  match find f.index id with
  | some x => some x
  | none   => find f.unlinkedIndex id

def fetchBlockByNumber (f : ForkDatabase Tx) (num : Nat) : List (ForkItem Tx) :=
  f.index.filter (fun x => decide (x.num = num))

/-! ## Updates of the head and of the indexes -/

/-- `reset`: the head and both indexes are cleared, the window size and the mode are not. -/
def reset (f : ForkDatabase Tx) : ForkDatabase Tx :=
  { f with head := none, index := [], unlinkedIndex := [] }

def setHead (h : ForkItem Tx) (f : ForkDatabase Tx) : ForkDatabase Tx := { f with head := some h }

def setEmergencyMode (active : Bool) (f : ForkDatabase Tx) : ForkDatabase Tx :=
  { f with emergencyConsensusActive := active }

/-- `remove`: only the linked index forgets the block. -/
def remove (id : BlockId) (f : ForkDatabase Tx) : ForkDatabase Tx :=
  { f with index := f.index.filter (fun x => decide (x.id ≠ id)) }

/-- `set_max_size`: everything more than `s` below the head is dropped from both indexes. -/
def setMaxSize (s : Nat) (f : ForkDatabase Tx) : ForkDatabase Tx :=
  match f.head with
  | none   => { f with maxSize := s }
  | some h =>
      { f with
        maxSize       := s
        index         := f.index.filter (fun x => decide (h.num - s ≤ x.num))
        unlinkedIndex := f.unlinkedIndex.filter (fun x => decide (h.num - s ≤ x.num)) }

/-- `pop_block`: the head moves to its parent. -/
def popBlock : M Tx Unit := do
  let f ← get
  match f.head with
  | none   => throw (.assertion .forkDbEmpty)
  | some h =>
      match f.lock h.prev with
      | none   => throw (.assertion .forkDbLastBlock)
      | some p => set (f.setHead p)

/-- `make_shared<fork_item>`: a new item, not linked to anything. -/
def makeItem (b : SignedBlock Tx) : M Tx (ForkItem Tx) := do
  let f ← get
  set { f with nextPtr := f.nextPtr + 1 }
  return { ptr := f.nextPtr, data := b }

def startBlock (b : SignedBlock Tx) : M Tx Unit := do
  let item ← makeItem b
  modify fun f => { f with index := insertUnique f.index item, head := some item }

/-- Link `candidate` to `parent` when it names it and its own parent pointer is dead. -/
def repairLink (f : ForkDatabase Tx) (parent candidate : ForkItem Tx) : ForkItem Tx :=
  if candidate.num = (parent.num + 1) % 2 ^ 32 ∧ candidate.previousId = parent.id ∧
      (f.lock candidate.prev).isNone then
    { candidate with prev := some parent.ptr }
  else candidate

/-- `_repair_child_prev_links`: the children of `parent` in the linked index get their pointer back. The
    other copies of an item in this model follow the one in the index. -/
def repairChildPrevLinks (parent : ForkItem Tx) (f : ForkDatabase Tx) : ForkDatabase Tx :=
  let repairShared := fun (x : ForkItem Tx) =>
    if f.index.any (fun y => decide (y.ptr = x.ptr)) then repairLink f parent x else x
  { f with
    index := f.index.map (repairLink f parent)
    head  := f.head.map repairShared
    held  := f.held.map repairShared }

/-! ## Insertion -/

/-- `_push_next`: every cached block that names `newId` as its parent is taken out and pushed. -/
def pushNext (push : ForkItem Tx → M Tx Unit) (newId : BlockId) : Nat → M Tx Unit
  | 0     => throw .outOfFuel
  | n + 1 => do
      let f ← get
      match f.unlinkedIndex.find? (fun x => decide (x.previousId = newId)) with
      | none     => pure ()
      | some tmp => do
          set { f with unlinkedIndex := f.unlinkedIndex.filter (fun x => decide (x.id ≠ tmp.id)) }
          push tmp
          pushNext push newId n

/-- The window and link checks of `_push_block`; returns the item with its parent pointer set. -/
def linkItem (f : ForkDatabase Tx) (item : ForkItem Tx) : Except Exn (ForkItem Tx) :=
  match f.head with
  | none   => .ok item
  | some h =>
      if item.num ≤ h.num - f.maxSize then .error .blockTooOld
      else if item.previousId = BlockId.zero then .ok item
      else match find f.index item.previousId with
        | none   => .error .unlinkableBlock
        | some p => if p.invalid then .error (.assertion .parentInvalid)
                    else .ok { item with prev := some p.ptr }

/-- The new head after `item` was linked: the higher block wins, and in emergency mode the lower id wins
    between blocks of the same height. -/
def pickHead (f : ForkDatabase Tx) (item : ForkItem Tx) : Option (ForkItem Tx) :=
  match f.head with
  | none   => some item
  | some h =>
      if h.num < item.num then some item
      else if item.num = h.num ∧ item.id.lt h.id ∧ f.emergencyConsensusActive then some item
      else some h

/-- `_push_block`, with its descendants waiting in the cache. -/
def pushItem : Nat → ForkItem Tx → M Tx Unit
  | 0,     _    => throw .outOfFuel
  | n + 1, item => do
      let f ← get
      -- a block that is linked already is ignored
      if (find f.index item.id).isSome then pure ()
      else match linkItem f item with
        | .error e  => throw e
        | .ok item' => do
            set { f with index := insertUnique f.index item', head := pickHead f item' }
            pushNext (pushItem n) item'.id (n + 1)

/-- Enough for the insertion of one block: every nested call takes a block out of the cache. -/
def pushFuel (f : ForkDatabase Tx) : Nat := f.unlinkedIndex.length + 1

/-- `push_block`: returns the head of the fork database, whichever block that is. A block that does not
    link is cached before the exception leaves. -/
def pushBlock (b : SignedBlock Tx) : M Tx (Option (ForkItem Tx)) := do
  let item ← makeItem b
  let f ← get
  tryCatch (pushItem f.pushFuel item) fun e => do
    if e = .unlinkableBlock then
      modify fun f => { f with unlinkedIndex := insertUnique f.unlinkedIndex item }
    throw e
  let f ← get
  return f.head

/-- `insert_as_base`: anchor a block of the main chain without asking for its parent. -/
def insertAsBase (b : SignedBlock Tx) : M Tx Unit := do
  let f ← get
  match find f.index b.id with
  | some existing => set (repairChildPrevLinks existing f)
  | none => do
      let item ← makeItem b
      modify fun f => { f with index := insertUnique f.index item }
      let f ← get
      pushNext (pushItem f.pushFuel) item.id f.pushFuel
      modify (repairChildPrevLinks item)

/-! ## Branches -/

/-- The first or second loop of `fetch_branch_from`: walk down to height `target`, collecting. -/
def lowerTo (f : ForkDatabase Tx) (target : Nat) :
    Nat → ForkItem Tx → Except Exn (ForkItem Tx × List (ForkItem Tx))
  | 0,     _ => .error .outOfFuel
  | n + 1, x =>
      if target < x.num then
        match f.lock x.prev with
        | none   => .error (.assertion .branchBroken)
        | some p => (lowerTo f target n p).map (fun r => (r.1, x :: r.2))
      else .ok (x, [])

/-- The third loop: walk both branches down until they name the same parent; the two blocks on top of
    that parent close the branches. -/
def lowerBoth (f : ForkDatabase Tx) :
    Nat → ForkItem Tx → ForkItem Tx → Except Exn (List (ForkItem Tx) × List (ForkItem Tx))
  | 0,     _, _ => .error .outOfFuel
  | n + 1, x, y =>
      if x.previousId = y.previousId then .ok ([x], [y])
      else match f.lock x.prev, f.lock y.prev with
        | some x', some y' => (lowerBoth f n x' y').map (fun r => (x :: r.1, y :: r.2))
        | _,       _       => .error (.assertion .branchBroken)

/-- `fetch_branch_from`: the two branches, tips first, down to the blocks above their common parent. For
    a tip above the other one both branches end in the lower tip itself. -/
def fetchBranchFrom (f : ForkDatabase Tx) (first second : BlockId) :
    Except Exn (List (ForkItem Tx) × List (ForkItem Tx)) :=
  match find f.index first, find f.index second with
  | some x, some y => do
      let (x', as) ← lowerTo f y.num (x.num + 1) x
      let (y', bs) ← lowerTo f x'.num (y.num + 1) y
      let (as', bs') ← lowerBoth f (x'.num + 1) x' y'
      return (as ++ as', bs ++ bs')
  | _, _ => .error (.assertion .branchUnknown)

/-- The loop of `walk_main_branch_to_num`. -/
def walkDown (f : ForkDatabase Tx) (num : Nat) : Nat → Option (ForkItem Tx) → Option (ForkItem Tx)
  | 0,     _      => none
  | _ + 1, none   => none
  | n + 1, some x => if num < x.num then walkDown f num n (f.lock x.prev) else some x

def walkMainBranchToNum (f : ForkDatabase Tx) (num : Nat) : Option (ForkItem Tx) :=
  match f.head with
  | none   => none
  | some h => if h.num < num then none else walkDown f num (h.num + 1) (some h)

/-- `fetch_block_on_main_branch_by_number`: with a single block of that height in the linked index there
    is no walk. -/
def fetchBlockOnMainBranchByNumber (f : ForkDatabase Tx) (num : Nat) : Option (ForkItem Tx) :=
  match f.fetchBlockByNumber num with
  | []  => none
  | [x] => some x
  | _   => f.walkMainBranchToNum num

end ForkDatabase

end VizNode
