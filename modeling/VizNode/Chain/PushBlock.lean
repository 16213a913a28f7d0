import VizNode.Chain.ApplyBlock

/-!
# `VizNode.Chain.PushBlock` — a block arrives

`push_block` and `_push_block`: the screening of the block, its insertion into the fork database, the fork
choice, the fork switch with its recoveries, and the direct application with the cascade over blocks that
were waiting for this one.

## Contents
- **The preference.** `compareForkBranches`.
- **The stages of `_push_block`.** `screenBlock`, `insertBlock`, `chooseRoute`, `switchForks`,
  `applyDirect`. The source's handler around the comparison is left out: `compare_fork_branches` catches
  every exception itself.
- **The call.** `pushBlock`.
-/

namespace VizNode

/-! ## The preference -/

/-- A sum of two 64-bit amounts, or nothing when it overflows. -/
def safeAdd (a b : Int) : Option Int :=
  if -2 ^ 63 ≤ a + b ∧ a + b < 2 ^ 63 then some (a + b) else none

/-- What `compute_branch_info` has collected so far. -/
structure BranchInfo where
  seen         : List AccountName := []
  weight       : Int := 0
  hasEmergency : Bool := false
deriving DecidableEq, Repr

namespace Core

variable {Tx L : Type}

/-- One block of a branch. The committee has no weight of its own, a validator counts once, and one that
    is unknown or overflows the sum is passed over. -/
def addBlockWeight (c : Core L) (r : BranchInfo) (x : ForkItem Tx) : BranchInfo :=
  let name := x.data.validator
  if name = Config.emergencyValidatorAccount then { r with hasEmergency := true }
  else if name ∈ r.seen then r
  else
    { r with
      seen   := name :: r.seen
      weight := match c.findValidator name with
        | none   => r.weight
        | some w => (safeAdd r.weight w.votes).getD r.weight }

/-- `compute_branch_info`. -/
def branchInfo (c : Core L) (branch : List (ForkItem Tx)) : BranchInfo :=
  branch.foldl c.addBlockWeight {}

/-- The longer branch counts for ten percent more. -/
def bonusWeight (longer : Bool) (weight : Int) : Option Int :=
  if longer then safeAdd weight (weight.tdiv 10) else some weight

/-- The comparison of two branches whose tips have these heights. -/
def compareBranches (c : Core L) (aNum bNum : Nat) (as bs : List (ForkItem Tx)) : Int :=
  let a := c.branchInfo as
  let b := c.branchInfo bs
  if c.emergencyConsensusActive ∧ a.hasEmergency ∧ !b.hasEmergency then 1
  else if c.emergencyConsensusActive ∧ !a.hasEmergency ∧ b.hasEmergency then -1
  else match bonusWeight (decide (bNum < aNum)) a.weight, bonusWeight (decide (aNum < bNum)) b.weight with
    | some wa, some wb => if wb < wa then 1 else if wa < wb then -1 else 0
    | _,       _       => 0

end Core

namespace Database

variable {Tx L : Type}

/-- `compare_fork_branches`: positive when the branch of `a` is preferred, `0` also when the branches
    cannot be compared. -/
def compareForkBranches (db : Database Tx L) (a b : BlockId) : Int :=
  if !db.forkDb.isKnownBlock a || !db.forkDb.isKnownBlock b then 0
  else match db.forkDb.fetchBranchFrom a b with
    | .error _      => 0
    | .ok (as, bs)  => db.state.core.compareBranches a.num b.num as bs

/-! ## Screening and insertion -/

/-- What the screening of a block decides. -/
inductive Screening where
  | done
  | proceed (expectUnlinkable : Bool)
deriving DecidableEq, Repr

/-- A block at or below the head that is not on our chain: its parent is fetched into the fork database
    when only the logs have it. -/
def seedParent (b : SignedBlock Tx) : DbM Tx L Unit := do
  let db ← get
  if b.previous ≠ BlockId.zero ∧ !db.forkDb.isKnownBlock b.previous then
    match db.fetchBlockById b.previous with
    | none   => throw .unlinkableBlock
    | some p => do
        let _ ← tryCatch (onForkDb (ForkDatabase.pushBlock p)) fun e =>
          if e.isAssert then pure none else throw e

/-- The early rejections of `_push_block`. -/
def screenBlock (b : SignedBlock Tx) : DbM Tx L Screening := do
  let db ← get
  if b.blockNum ≤ db.headBlockNum then
    if db.findBlockIdForNum b.blockNum = b.id then do
      if !db.forkDb.isKnownBlock b.id then onForkDb (ForkDatabase.insertAsBase b)
      return .done
    else do
      seedParent b
      return .proceed false
  else if b.previous ≠ BlockId.zero ∧ b.previous ≠ db.headBlockId then
    if 100 < b.blockNum - db.headBlockNum then return .done else return .proceed true
  else return .proceed false

/-- The current head is put into the fork database when the block extends it and it is missing there. -/
def seedHead (b : SignedBlock Tx) : DbM Tx L Unit := do
  let db ← get
  if b.previous = db.headBlockId ∧ !db.forkDb.isKnownBlock db.headBlockId then
    match db.fetchBlockById db.headBlockId with
    | none   => pure ()
    | some h => onForkDb (ForkDatabase.startBlock h)

/-- Put the block into the fork database, whose head is returned. Nothing is returned for a block that was
    expected not to link. -/
def linkBlock (b : SignedBlock Tx) (expectUnlinkable : Bool) : DbM Tx L (Option (ForkItem Tx)) :=
  tryCatch (onForkDb (ForkDatabase.pushBlock b)) fun e =>
    if e = .unlinkableBlock ∧ expectUnlinkable then pure none else throw e

def insertBlock (b : SignedBlock Tx) (expectUnlinkable : Bool) : DbM Tx L (Option (ForkItem Tx)) := do
  seedHead b
  linkBlock b expectUnlinkable

/-! ## The fork choice -/

/-- Where the block goes after its insertion. -/
inductive Route (Tx : Type) where
  | direct
  | switchTo (newHead : ForkItem Tx)
  | keep
deriving DecidableEq

/-- Is the fork database's head to be switched to? -/
def shouldSwitch (db : Database Tx L) (newHead : ForkItem Tx) : Bool :=
  if db.state.core.hasHardfork 12 then
    if db.headBlockNum ≤ newHead.num ∧ db.forkDb.isKnownBlock db.headBlockId then
      let cmp := db.compareForkBranches newHead.id db.headBlockId
      decide (0 < cmp) || (decide (cmp = 0) && decide (db.headBlockNum < newHead.num))
    else false
  else decide (db.headBlockNum < newHead.num)

/-- The fork choice. The second test asks whether the *head of the fork database* extends our head. -/
def chooseRoute (db : Database Tx L) (b : SignedBlock Tx) (newHead : ForkItem Tx) : Route Tx :=
  if b.previous = db.headBlockId then .direct
  else if newHead.previousId = db.headBlockId then .direct
  else if db.shouldSwitch newHead then .switchTo newHead
  else .keep

/-! ## The fork switch -/

/-- The fork database is emptied down to the current head. -/
def resetForkDbToHead : DbM Tx L Unit := do
  let db ← get
  let headBlk := db.fetchBlockById db.headBlockId
  modify (modifyForkDb ForkDatabase.reset)
  match headBlk with
  | none   => pure ()
  | some b => onForkDb (ForkDatabase.startBlock b)

/-- Both branches end in the current head: nothing has to be popped. -/
def isLinearExtension (db : Database Tx L) (first second : List (ForkItem Tx)) : Bool :=
  match second with
  | [x] => decide (x.id = db.headBlockId) && decide (first.getLast?.map (·.id) = some x.id)
  | _   => false

/-- Enough for a loop of pops: every pop moves the head of the fork database down. -/
def popFuel (db : Database Tx L) : Nat := (db.forkDb.head.map (·.num)).getD 0 + 1

/-- Pop until the head is `target`; `guard` runs instead of a pop below block `lib`. -/
def popBack (target : BlockId) (lib : Nat) (guard : DbM Tx L Unit) : Nat → DbM Tx L Unit
  | 0     => throw .outOfFuel
  | n + 1 => do
      let db ← get
      if db.headBlockId = target then pure ()
      else if db.headBlockNum ≤ lib then guard
      else do
        popBlock
        popBack target lib guard n

/-- The outcome of applying one block of the new branch. -/
inductive Outcome where
  | applied (relaxed : Bool)
  | failed (e : Exn)
deriving DecidableEq, Repr

/-- Apply a block of the new branch; a schedule mismatch is retried with the schedule check skipped. -/
def applyRelaxing (env : Env Tx L) (b : SignedBlock Tx) (skip : Skip) : DbM Tx L Outcome :=
  tryCatch (do applyInSession env b skip; return .applied false) fun e =>
    if e = .wrongScheduledValidator then
      tryCatch (do applyInSession env b skip.relaxSchedule; return .applied true) fun e2 =>
        return .failed e2
    else return .failed e

/-- Apply the blocks of a branch, oldest first, without a retry. -/
def applyAll (env : Env Tx L) (skip : Skip) : List (ForkItem Tx) → DbM Tx L Unit
  | []      => pure ()
  | x :: xs => do
      applyInSession env x.data skip
      applyAll env skip xs

/-- The recovery of a failed linear extension: pop back to the old head. -/
def recoverLinear (ancestor : ForkItem Tx) : DbM Tx L Unit := do
  let db ← get
  popBack ancestor.id db.lib (pure ()) db.popFuel
  modify (modifyForkDb (ForkDatabase.setHead ancestor))

/-- The recovery of a failed switch: pop back to the fork and apply the old branch again. -/
def recoverFork (env : Env Tx L) (skip : Skip) (second : List (ForkItem Tx)) : DbM Tx L Unit := do
  let db ← get
  match second.getLast?, second.head? with
  | some last, some front => do
      popBack last.previousId db.lib (pure ()) db.popFuel
      applyAll env skip second.reverse
      modify (modifyForkDb (ForkDatabase.setHead front))
  | _, _ => resetForkDbToHead

/-- Apply the new branch, oldest block first. On a failure the rest of the branch leaves the fork database
    and `recover` runs. Answers whether all blocks were applied, and whether a schedule check was relaxed. -/
def applyBranch (env : Env Tx L) (skip : Skip) (recover : DbM Tx L Unit) :
    List (ForkItem Tx) → Bool → DbM Tx L (Bool × Bool)
  | [],      relaxed => return (true, relaxed)
  | x :: xs, relaxed => do
      match ← applyRelaxing env x.data skip with
      | .applied r => applyBranch env skip recover xs (relaxed || r)
      | .failed _  => do
          modify (modifyForkDb fun f => (x :: xs).foldl (fun f y => f.remove y.id) f)
          recover
          return (false, relaxed)

/-- The position of the head's validator in the schedule. -/
def schedulePosition (c : Core L) (name : AccountName) : Option Nat :=
  (List.range c.schedule.numScheduledValidators).find? (fun i => decide (c.schedule.slot i = name))

/-- The correction of `current_aslot` after a relaxed linear extension: by how much it is moved on. -/
def aslotCorrection (c : Core L) (name : AccountName) : Nat :=
  match schedulePosition c name with
  | none        => 0
  | some actual =>
      let cur := c.currentAslot % c.schedule.numScheduledValidators
      if cur ≤ actual then actual - cur else actual + c.schedule.numScheduledValidators - cur

def correctAslot (name : AccountName) (db : Database Tx L) : Database Tx L :=
  let delta := aslotCorrection db.state.core name
  (db.modifyState (fun s =>
      { s with core := { s.core with currentAslot := s.core.currentAslot + delta } })).modifyRecord
    (fun r => { r with aslotDelta := r.aslotDelta + delta })

/-- The end of a successful switch: the correction of the slot, and the new head. -/
def finishSwitch (newHead : ForkItem Tx) (correct : Bool) : DbM Tx L Unit := do
  if correct then modify (correctAslot newHead.data.validator)
  modify (modifyForkDb (ForkDatabase.setHead newHead))

/-- The body of the switch, between the lookup of the branches and its return. -/
def runSwitch (env : Env Tx L) (skip : Skip) (newHead : ForkItem Tx)
    (first second : List (ForkItem Tx)) (ancestor : ForkItem Tx) : DbM Tx L Bool := do
  let db ← get
  let linear := db.isLinearExtension first second
  if !linear then
    popBack ancestor.previousId db.lib
      (do modify (modifyForkDb (ForkDatabase.remove newHead.id)); throw .unlinkableBlock) db.popFuel
  let todo := if linear then first.reverse.filter (fun x => decide (x.id ≠ ancestor.id)) else first.reverse
  let recover := if linear then recoverLinear ancestor else recoverFork env skip second
  let (switched, relaxed) ← applyBranch env skip recover todo false
  if switched then finishSwitch newHead (relaxed && linear)
  return switched

/-- The items of local variables are owned as long as `m` runs. -/
def holding {α : Type} (items : List (ForkItem Tx)) (m : DbM Tx L α) : DbM Tx L α := do
  modify (modifyForkDb fun f => { f with held := items })
  let a ← tryCatch m fun e => do
    modify (modifyForkDb fun f => { f with held := [] })
    throw e
  modify (modifyForkDb fun f => { f with held := [] })
  return a

/-- **The fork switch.** -/
def switchForks (env : Env Tx L) (skip : Skip) (newHead : ForkItem Tx) : DbM Tx L Bool := do
  let db ← get
  if !db.forkDb.isKnownBlock db.headBlockId then do
    modify (modifyForkDb (ForkDatabase.remove newHead.id))
    throw .unlinkableBlock
  else match db.forkDb.fetchBranchFrom newHead.id db.headBlockId with
    | .error _             => do
        resetForkDbToHead
        throw .unlinkableBlock
    | .ok (first, second)  =>
        match second.getLast? with
        | none          => throw .unlinkableBlock
        | some ancestor =>
            holding (newHead :: (first ++ second)) (runSwitch env skip newHead first second ancestor)

/-! ## The direct application -/

/-- Blocks of the same height whose parent is gone leave the fork database. -/
def pruneCompeting (b : SignedBlock Tx) (f : ForkDatabase Tx) : ForkDatabase Tx :=
  (f.fetchBlockByNumber b.blockNum).foldl (fun f cb =>
    if cb.id ≠ b.id ∧ !f.isKnownBlock cb.previousId then f.remove cb.id else f) f

/-- Apply the blocks of the cascade, passing over the block that is the head already. -/
def applyCascade (env : Env Tx L) (skip : Skip) : List (ForkItem Tx) → DbM Tx L Unit
  | []      => pure ()
  | x :: xs => do
      let db ← get
      if x.id ≠ db.headBlockId then applyInSession env x.data skip
      applyCascade env skip xs

/-- Pop while the head is above both bounds. -/
def popAbove (original lib : Nat) : Nat → DbM Tx L Unit
  | 0     => throw .outOfFuel
  | n + 1 => do
      let db ← get
      if original < db.headBlockNum ∧ lib < db.headBlockNum then do
        popBlock
        popAbove original lib n
      else pure ()

/-- The recovery of a failed cascade. The block that will seed the fork database is fetched before the
    pops. -/
def recoverCascade (original : Nat) : DbM Tx L Unit := do
  let db ← get
  let headBlk := db.fetchBlockById db.headBlockId
  popAbove original db.lib db.popFuel
  modify (modifyForkDb ForkDatabase.reset)
  match headBlk with
  | none   => pure ()
  | some b => onForkDb (ForkDatabase.startBlock b)

/-- Apply the branch of `fb`, when it extends our head linearly. -/
def tryCascade (env : Env Tx L) (skip : Skip) (fb : ForkItem Tx) : DbM Tx L Unit := do
  let db ← get
  match db.forkDb.fetchBranchFrom fb.id db.headBlockId with
  | .error e            => throw e
  | .ok (first, second) =>
      if db.isLinearExtension first second then
        holding (fb :: (first ++ second)) do
          applyCascade env skip first.reverse
          modify (modifyForkDb (ForkDatabase.setHead fb))
      else pure ()

/-- Blocks that were waiting for the applied one are applied as well, when they extend it linearly. -/
def cascade (env : Env Tx L) (b : SignedBlock Tx) (skip : Skip) : DbM Tx L Unit := do
  let db ← get
  match db.forkDb.head with
  | none    => pure ()
  | some fb =>
      if b.blockNum < fb.num ∧ db.headBlockNum < fb.num ∧ db.forkDb.isKnownBlock db.headBlockId then
        tryCatch (tryCascade env skip fb) (fun _ => holding [fb] (recoverCascade db.headBlockNum))
      else pure ()

/-- Apply the block. A schedule mismatch keeps it in the fork database; any other failure removes it. -/
def applyOrKeep (env : Env Tx L) (b : SignedBlock Tx) (skip : Skip) : DbM Tx L Bool :=
  tryCatch (do applyInSession env b skip; return true) fun e =>
    if e = .wrongScheduledValidator then return false
    else do
      modify (modifyForkDb (ForkDatabase.remove b.id))
      throw e

/-- **The direct application.** -/
def applyDirect (env : Env Tx L) (b : SignedBlock Tx) (skip : Skip) : DbM Tx L Bool := do
  let applied ← applyOrKeep env b skip
  if applied then do
    modify (modifyForkDb (pruneCompeting b))
    cascade env b skip
  return applied

/-! ## The call -/

/-- The first half of `_push_block`: where does the block go? A block that is not pursued any further is
    kept, wherever it is. -/
def planPush (b : SignedBlock Tx) (skip : Skip) : DbM Tx L (Route Tx) := do
  match ← screenBlock b with
  | .done                     => return .keep
  | .proceed expectUnlinkable =>
      if skip.forkDb then return .direct
      else do
        match ← insertBlock b expectUnlinkable with
        | none         => return .keep
        | some newHead => do
            let db ← get
            return db.chooseRoute b newHead

/-- The second half of `_push_block`. -/
def followRoute (env : Env Tx L) (b : SignedBlock Tx) (skip : Skip) : Route Tx → DbM Tx L Bool
  | .direct     => applyDirect env b skip
  | .switchTo h => switchForks env skip h
  | .keep       => return false

/-- `_push_block`. -/
def pushBlockStages (env : Env Tx L) (b : SignedBlock Tx) (skip : Skip) : DbM Tx L Bool := do
  let route ← planPush b skip
  followRoute env b skip route

/-- **`push_block`.** -/
def pushBlock (env : Env Tx L) (b : SignedBlock Tx) (skip : Skip) : DbM Tx L Bool :=
  withoutPending env skip (pushBlockStages env b skip)

end Database

end VizNode
