import VizNode.Chain.Runs

/-!
# `VizNode.Validators.Production` — does a validator sign two blocks for one slot?

The production thread of the validator plugin: four times a second `maybe_validate_block` asks whether a validator of
the node is scheduled, and `_generate_block` makes, signs and pushes the block. The thread goes by phases. In a phase
it looks at the chain as it is then, and between two phases blocks may arrive and the head may move, also back.

**Nothing remembers what was signed.** The one thing that keeps the thread from a slot it has filled is that the
slot is not later than the head. A slot is taken only in its own second. So two blocks for it are signed in the same
second, when the head is before the slot again.

## Contents
- **The plugin.** `Options`, `Node`, `Phase`.
- **`maybe_validate_block`.** `enter`, `chooseSlot`, `checkCollision`, `checkPause`.
- **`_generate_block`.** `checkGenerate`, `collectTransactions`, `makeBlock`, `pushSealed`.
- **Runs.** `act`, `run`.
- **What should hold.** `NeverTwice`, and `Calm`, when it does.
- **Steps and runs.** `Honest`, `never_signs_twice`, and samples.
-/

namespace VizNode

namespace Production

/-! ## The plugin -/

/-- `block_validation_condition`. -/
inductive Condition where
  | produced | notSynced | notMyTurn | notTimeYet | noPrivateKey | lowParticipation | lag | consecutive
  | exceptionValidatingBlock | forkCollision | minorityFork
deriving DecidableEq, Repr

/-- The options. A private key is named by its public key. -/
structure Options where
  validators                 : List AccountName
  privateKeys                : List PublicKey
  requiredParticipation      : Nat := 3300
  forkCollisionTimeoutBlocks : Nat := 21

/-- How blocks are packed and signed: the size of an empty block and of a transaction, when a transaction expires, the
    signature under a key, and the hash of the signed header. -/
structure Packing (Tx : Type) where
  maxHeaderSize : Nat
  txSize        : Tx → Nat
  expiration    : Tx → Nat
  sign          : PublicKey → SignedBlock Tx → Nat
  hash          : SignedBlock Tx → Nat

/-- A slot that is going to be filled: its time, its validator, and the key to sign with. -/
structure Job where
  time      : Nat
  validator : AccountName
  key       : PublicKey
deriving DecidableEq, Repr

/-- What the production thread does next. `attempt` counts the exceptions of `generate_block`. -/
inductive Phase (Tx : Type) where
  | idle
  | checkSlot (emergency : Bool)
  | checkCollision (emergency : Bool) (j : Job)
  | checkPause (j : Job)
  | generate (j : Job) (attempt : Nat)
  | collect (j : Job) (attempt : Nat)
  | make (j : Job) (attempt : Nat) (txs : List Tx)
  | push (j : Job) (attempt : Nat) (b : SignedBlock Tx)

/-- **The node with its production thread**: the clock in microseconds, the flag of `_production_skip_flags`, and the
    blocks that were signed and broadcast. -/
structure Node (Tx L : Type) where
  db                      : Database Tx L
  clock                   : Nat
  skipUndoHistoryCheck    : Bool := false
  forkCollisionDeferCount : Nat := 0
  phase                   : Phase Tx := .idle
  lastResult              : Option Condition := none
  broadcast               : List (SignedBlock Tx) := []

/-- What the thread reads besides the chain: how far the clock has moved on, and the state of other plugins. -/
structure Pulse where
  elapsed            : Nat := 0
  syncing            : Bool := false
  snapshotInProgress : Bool := false
  catchingUp         : Bool := false
deriving DecidableEq, Repr

section Functions

variable {Tx L : Type}

def Node.core (n : Node Tx L) : Core L := n.db.state.core

/-- `now`: a quarter of a second is added, and the fraction is dropped. -/
def Node.second (n : Node Tx L) : Nat := (250000 + n.clock) / 1000000

/-- `_production_skip_flags`. -/
def Node.skip (n : Node Tx L) : Skip := { undoHistoryCheck := n.skipUndoHistoryCheck }

/-- `maybe_validate_block` returns; its caller resets the counter of deferrals. -/
def Node.finish (r : Condition) (n : Node Tx L) : Node Tx L :=
  { n with
    phase                   := .idle
    lastResult              := some r
    forkCollisionDeferCount :=
      if r = .produced ∨ r = .notSynced ∨ r = .notMyTurn then 0 else n.forkCollisionDeferCount }

/-! ## `maybe_validate_block` -/

def Options.holdsCommittee (o : Options) : Bool := decide (Config.emergencyValidatorAccount ∈ o.validators)

/-- `popcount` of a word of `bits` bits. -/
def popcount (bits x : Nat) : Nat := ((List.range bits).filter x.testBit).length

/-- `validator_participation_rate`. -/
def participationRate (c : Core L) : Nat := Config.hundredPercent * popcount 128 c.recentSlotsFilled / 128

/-- With a third of the slots filled the override of the operator is taken away. -/
def settleFlags (n : Node Tx L) : Node Tx L :=
  if n.core.hasHardfork 12 && !n.core.emergencyConsensusActive && decide (3300 ≤ participationRate n.core) then
    { n with skipUndoHistoryCheck := false }
  else n

def Node.lowParticipation (o : Options) (n : Node Tx L) : Bool :=
  decide (participationRate n.core < o.requiredParticipation) && !n.skipUndoHistoryCheck

/-- The walk down from the head of the fork database: are these many blocks there, and all ours? -/
def allOurs (o : Options) (f : ForkDatabase Tx) : Nat → Option (ForkItem Tx) → Bool
  | 0,     _      => true
  | _ + 1, none   => false
  | k + 1, some x => decide (x.data.validator ∈ o.validators) && allOurs o f k (f.lock x.prev)

/-- Has nobody else produced for a whole round? The master of an emergency is not asked. -/
def minorityFork (o : Options) (n : Node Tx L) : Bool :=
  let isolated := allOurs o n.db.forkDb Config.maxValidators n.db.forkDb.head
  let master   := o.holdsCommittee && decide (Config.emergencyValidatorAccount ∈ n.core.schedule.scheduled)
  if n.core.emergencyConsensusActive then n.db.dltMode && !master && isolated
  else isolated && !n.skipUndoHistoryCheck

/-- The gates at the entry, up to the detection of a minority fork. -/
def enter (o : Options) (p : Pulse) (n : Node Tx L) : Node Tx L :=
  let emergency := n.core.emergencyConsensusActive
  if n.db.dltMode && p.syncing && !(emergency && o.holdsCommittee) then n.finish .notSynced
  else if p.snapshotInProgress || p.catchingUp then n.finish .notSynced
  else
    let n := settleFlags n
    if n.core.hasHardfork 12 && !emergency && decide (participationRate n.core < 3300) && n.lowParticipation o then
      n.finish .lowParticipation
    else if minorityFork o n then n.finish .minorityFork
    else { n with phase := .checkSlot emergency }

/-- **The slot checks.** The clock is read again in front of them. A scheduled validator that is not in the index is
    no case of the source, which reads behind the end there. -/
def chooseSlot (o : Options) (n : Node Tx L) : Except Condition Job :=
  let c    := n.core
  let slot := c.getSlotAtTime n.second
  let name := c.getScheduledValidator slot
  let time := c.getSlotTime slot
  if slot = 0 then .error .notTimeYet
  else if name ∉ o.validators then .error .notMyTurn
  else match c.findValidator name with
    | none   => .error .exceptionValidatingBlock
    | some w =>
        if time ≤ c.time then .error .notTimeYet
        else if w.signingKey = 0 then .error .notMyTurn
        else if w.signingKey ∉ o.privateKeys then .error .noPrivateKey
        else if !c.hasHardfork 12 && n.lowParticipation o then .error .lowParticipation
        -- both times are whole seconds
        else if 500000 < ((time : Int) - n.second).natAbs * 1000000 then .error .lag
        else .ok ⟨time, name, w.signingKey⟩

def checkSlot (o : Options) (emergency : Bool) (n : Node Tx L) : Node Tx L :=
  match chooseSlot o n with
  | .error r => n.finish r
  | .ok j    => { n with phase := .checkCollision emergency j }

/-- A block that competes with the one to be made: of the same height, from another validator and on another parent;
    in emergency mode any block of the height. -/
def competingBlock (db : Database Tx L) (emergency : Bool) (name : AccountName) : Option (ForkItem Tx) :=
  let existing := db.forkDb.fetchBlockByNumber ((db.headBlockNum + 1) % 2 ^ 32)
  if emergency then existing.head?
  else existing.find? fun x => decide (x.data.validator ≠ name) && decide (x.previousId ≠ db.headBlockId)

/-- `remove_blocks_by_number`. -/
def removeBlocksByNumber (num : Nat) (f : ForkDatabase Tx) : ForkDatabase Tx :=
  (f.fetchBlockByNumber num).foldl (fun f x => f.remove x.id) f

/-- **The collision check.** -/
def checkCollision (o : Options) (emergency : Bool) (j : Job) (n : Node Tx L) : Node Tx L :=
  match competingBlock n.db emergency j.validator with
  | none   => { n with phase := .checkPause j }
  | some x =>
      let count := n.forkCollisionDeferCount + 1
      if o.forkCollisionTimeoutBlocks < count then
        { n with
          db                      := n.db.modifyForkDb (removeBlocksByNumber ((n.db.headBlockNum + 1) % 2 ^ 32))
          forkCollisionDeferCount := 0
          phase                   := .checkPause j }
      else if n.core.hasHardfork 12 && decide (n.db.compareForkBranches x.id n.db.headBlockId < 0) then
        { n with
          db                      := n.db.modifyForkDb (ForkDatabase.remove x.id)
          forkCollisionDeferCount := 0
          phase                   := .checkPause j }
      else { n with forkCollisionDeferCount := count }.finish .forkCollision

def checkPause (p : Pulse) (j : Job) (n : Node Tx L) : Node Tx L :=
  if p.snapshotInProgress || p.catchingUp then n.finish .notTimeYet else { n with phase := .generate j 0 }

/-! ## `_generate_block` -/

/-- `generate_block` has thrown: the pending transactions are dropped, and it is called once more. -/
def retry (j : Job) (attempt : Nat) (n : Node Tx L) : Node Tx L :=
  let n := { n with db := n.db.clearPending }
  if attempt + 1 < 2 then { n with phase := .generate j (attempt + 1) } else n.finish .exceptionValidatingBlock

/-- The assertions. -/
def checkGenerate (j : Job) (attempt : Nat) (n : Node Tx L) : Node Tx L :=
  let slot := n.core.getSlotAtTime j.time
  if 0 < slot ∧ n.core.getScheduledValidator slot = j.validator ∧
      (n.core.findValidator j.validator).map (·.signingKey) = some j.key then
    { n with phase := .collect j attempt }
  else retry j attempt n

/-- A pending transaction is applied in a session of its own. -/
def tryTransaction (env : Env Tx L) (skip : Skip) (tx : Tx) (db : Database Tx L) : Option (Database Tx L) :=
  let db := db.startUndoSession
  match db.state.core.runLedger env (env.applyTransaction skip.forTransactions tx) with
  | .error _ => none
  | .ok c    => some { db with
      chainbase := (db.chainbase.modify (fun (s : ChainState Tx L) => { s with core := c })).squash }

/-- The loop over the pending transactions. Too many that do not fit end it, and one that fails is left out. -/
def selectTransactions (env : Env Tx L) (k : Packing Tx) (skip : Skip) (time maxSize : Nat) :
    List Tx → Nat → Nat → Database Tx L → List Tx
  | [],         _,    _,         _  => []
  | tx :: rest, size, postponed, db =>
      if k.expiration tx < time then selectTransactions env k skip time maxSize rest size postponed db
      else if maxSize ≤ size + k.txSize tx then
        if 5 < postponed then []
        else selectTransactions env k skip time maxSize rest size (postponed + 1) db
      else
        match tryTransaction env skip tx db with
        | none     => selectTransactions env k skip time maxSize rest size postponed db
        | some db' => tx :: selectTransactions env k skip time maxSize rest (size + k.txSize tx) postponed db'

/-- The transactions of the block: the pending session is rebuilt on the head, and dropped. -/
def collectTransactions (env : Env Tx L) (k : Packing Tx) (time : Nat) (n : Node Tx L) : List Tx :=
  selectTransactions env k n.skip time n.core.maximumBlockSize n.db.pendingTx k.maxHeaderSize 0
    n.db.resetPendingSession.startUndoSession

/-- Should the block vote for a hardfork, and for which? The committee of an emergency does not vote. -/
def voteExtension (env : Env Tx L) (c : Core L) (w : Validator) : List HeaderExtension :=
  let last := c.hardforks.lastHardfork
  if c.hasHardfork 12 && c.emergencyConsensusActive && decide (w.owner = Config.emergencyValidatorAccount) then []
  else if c.hardforks.currentHardforkVersion < Config.chainVersion ∧
      (w.hardforkVersionVote ≠ env.hardforkVersion (last + 1) ∨ w.hardforkTimeVote ≠ env.hardforkTime (last + 1)) then
    [.hardforkVersionVote (env.hardforkVersion (last + 1)) (env.hardforkTime (last + 1))]
  else if c.hardforks.currentHardforkVersion = Config.chainVersion ∧ Config.chainVersion < w.hardforkVersionVote then
    [.hardforkVersionVote (env.hardforkVersion last) (env.hardforkTime last)]
  else []

/-- The block on the present head, not signed. -/
def draft (env : Env Tx L) (db : Database Tx L) (j : Job) (w : Validator) (txs : List Tx) : SignedBlock Tx where
  previous              := db.headBlockId
  timestamp             := j.time
  validator             := j.validator
  transactionMerkleRoot := env.calculateMerkleRoot txs
  extensions            := (if w.runningVersion = Config.chainVersion then [] else [.version Config.chainVersion]) ++
    voteExtension env db.state.core w
  validatorSignature    := 0
  transactions          := txs
  hash                  := 0

/-- `sign`. -/
def signBlock (k : Packing Tx) (key : PublicKey) (b : SignedBlock Tx) : SignedBlock Tx :=
  let b := { b with validatorSignature := k.sign key b }
  { b with hash := k.hash b }

/-- **The block is made and signed**, and must not be too large. -/
def sealBlock (env : Env Tx L) (k : Packing Tx) (j : Job) (txs : List Tx) (db : Database Tx L) :
    Except Exn (SignedBlock Tx) := do
  let w ← db.state.core.getValidator j.validator
  let b := signBlock k j.key (draft env db j w txs)
  if env.packSize b ≤ 2 * 1024 * 1024 * Config.blockInterval then return b else throw (.assertion .blockSize)

def makeBlock (env : Env Tx L) (k : Packing Tx) (j : Job) (attempt : Nat) (txs : List Tx) (n : Node Tx L) : Node Tx L :=
  match sealBlock env k j txs n.db with
  | .error _ => retry j attempt n
  | .ok b    => { n with phase := .push j attempt b }

/-- **The block is pushed, and broadcast when nothing was thrown.** What `push_block` answers is not looked at. -/
def pushSealed (env : Env Tx L) (j : Job) (attempt : Nat) (b : SignedBlock Tx) (n : Node Tx L) : Node Tx L :=
  match Database.pushBlock env b n.skip n.db with
  | .ok _ db    => { n with db := db, broadcast := n.broadcast ++ [b] }.finish .produced
  | .error e db =>
      if e = .unlinkableBlock then { n with db := db }.finish .minorityFork else retry j attempt { n with db := db }

/-! ## Runs -/

/-- The thread goes on by one phase. -/
def advance (env : Env Tx L) (o : Options) (k : Packing Tx) (p : Pulse) (n : Node Tx L) : Node Tx L :=
  match n.phase with
  | .idle                       => enter o p n
  | .checkSlot emergency        => checkSlot o emergency n
  | .checkCollision emergency j => checkCollision o emergency j n
  | .checkPause j               => checkPause p j n
  | .generate j attempt         => checkGenerate j attempt n
  | .collect j attempt          =>
      { n with db := n.db.resetPendingSession, phase := .make j attempt (collectTransactions env k j.time n) }
  | .make j attempt txs         => makeBlock env k j attempt txs n
  | .push j attempt b           => pushSealed env j attempt b n

/-- The clock moves forward only. -/
def Node.wait (elapsed : Nat) (n : Node Tx L) : Node Tx L := { n with clock := n.clock + elapsed }

/-- What can happen: the production thread goes on, the chain receives something, a block is popped. -/
inductive Action (Tx : Type) where
  | produce (p : Pulse)
  | chain (x : Step Tx)
  | pop

def act (env : Env Tx L) (o : Options) (k : Packing Tx) (n : Node Tx L) : Action Tx → Node Tx L
  | .produce p => advance env o k p (n.wait p.elapsed)
  | .chain x   => { n with db := n.db.step env x }
  | .pop       => { n with db := Prog.after Database.popBlock n.db }

/-- A node whose production thread starts. -/
def start (db : Database Tx L) (clock : Nat) (stale : Bool) : Node Tx L :=
  { db := db, clock := clock, skipUndoHistoryCheck := stale }

def run (env : Env Tx L) (o : Options) (k : Packing Tx) (n : Node Tx L) (xs : List (Action Tx)) : Node Tx L :=
  xs.foldl (act env o k) n

end Functions

/-! ## What should hold -/

section Claims

variable {Tx L : Type}

/-- **No validator has two different blocks for one slot.** -/
def NeverTwice (blocks : List (SignedBlock Tx)) : Prop :=
  ∀ a ∈ blocks, ∀ b ∈ blocks, a.validator = b.validator → a.timestamp = b.timestamp → a = b

/-- **The head has not moved back behind what was signed**: for the second in which the thread looks for a slot it has
    broadcast no block of the validator that is scheduled now, or the head is not before that second. -/
def Node.headKept (n : Node Tx L) : Prop :=
  ∀ b ∈ n.broadcast, b.timestamp = n.second →
    b.validator = n.core.getScheduledValidator (n.core.getSlotAtTime n.second) → n.second ≤ n.core.time

/-- The condition at one action: it concerns the look for a slot. -/
def Calm (n : Node Tx L) : Action Tx → Prop
  | .produce p =>
      match n.phase with
      | .checkSlot _ => (n.wait p.elapsed).headKept
      | _            => True
  | _          => True

instance headKeptDecidable (n : Node Tx L) : Decidable n.headKept :=
  inferInstanceAs (Decidable (∀ b ∈ n.broadcast, _ → _ → _))

instance calmDecidable (n : Node Tx L) : ∀ x : Action Tx, Decidable (Calm n x)
  | .produce p =>
      match h : n.phase with
      | .checkSlot _ => decidable_of_iff (n.wait p.elapsed).headKept (by simp [Calm, h])
      | .idle | .checkCollision _ _ | .checkPause _ | .generate _ _ | .collect _ _ | .make _ _ _ | .push _ _ _ =>
          .isTrue (by simp [Calm, h])
  | .chain _   => .isTrue trivial
  | .pop       => .isTrue trivial

/-- At every action of a run. -/
def CalmRun (env : Env Tx L) (o : Options) (k : Packing Tx) : Node Tx L → List (Action Tx) → Prop
  | _, []      => True
  | n, x :: xs => Calm n x ∧ CalmRun env o k (act env o k n x) xs

instance calmRunDecidable (env : Env Tx L) (o : Options) (k : Packing Tx) :
    ∀ (n : Node Tx L) (xs : List (Action Tx)), Decidable (CalmRun env o k n xs)
  | _, []      => .isTrue trivial
  | n, x :: xs => @instDecidableAnd _ _ _ (calmRunDecidable env o k (act env o k n x) xs)

end Claims

/-! ## Steps and runs -/

section Invariant

variable {Tx L : Type}

/-- The slot the thread is working on. -/
def Phase.job : Phase Tx → Option Job
  | .idle               => none
  | .checkSlot _        => none
  | .checkCollision _ j => some j
  | .checkPause j       => some j
  | .generate j _       => some j
  | .collect j _        => some j
  | .make j _ _         => some j
  | .push j _ _         => some j

/-- The block that is pushed is the one for the slot. -/
def Phase.Matches : Phase Tx → Prop
  | .push j _ b => b.timestamp = j.time ∧ b.validator = j.validator
  | _           => True

/-- The slot is not that of a block that was broadcast. -/
def Free (blocks : List (SignedBlock Tx)) (j : Job) : Prop :=
  ∀ b ∈ blocks, b.timestamp = j.time → b.validator ≠ j.validator

/-- **The slot the thread is working on is free**, and no slot was filled twice. -/
structure Honest (n : Node Tx L) : Prop where
  once : NeverTwice n.broadcast
  free : ∀ j, n.phase.job = some j → Free n.broadcast j
  made : n.phase.Matches

/-- What a phase may do that broadcasts nothing: the thread stays with the slot, or gives it up. -/
structure Follows (j : Job) (n n' : Node Tx L) : Prop where
  log  : n'.broadcast = n.broadcast
  job  : ∀ j', n'.phase.job = some j' → j' = j
  made : n'.phase.Matches

theorem Honest.follow {n n' : Node Tx L} {j : Job} (h : Honest n) (hj : n.phase.job = some j)
    (hf : Follows j n n') : Honest n' := by
  constructor
  · rw [hf.log]
    exact h.once
  · intro j' hj'
    rw [hf.log, hf.job j' hj']
    exact h.free j hj
  · exact hf.made

/-- A thread that works on no slot. -/
theorem Honest.rest {n n' : Node Tx L} (h : Honest n) (hlog : n'.broadcast = n.broadcast)
    (hjob : n'.phase.job = none) (hmade : n'.phase.Matches) : Honest n' := by
  constructor
  · rw [hlog]
    exact h.once
  · intro j hj
    rw [hjob] at hj
    cases hj
  · exact hmade

/-- The thread is not asked what else has happened. -/
theorem Honest.congr {n n' : Node Tx L} (h : Honest n) (hlog : n'.broadcast = n.broadcast)
    (hphase : n'.phase = n.phase) : Honest n' := by
  constructor
  · rw [hlog]
    exact h.once
  · rw [hlog, hphase]
    exact h.free
  · rw [hphase]
    exact h.made

@[simp] theorem Node.finish_broadcast (r : Condition) (n : Node Tx L) : (n.finish r).broadcast = n.broadcast := rfl

@[simp] theorem Node.finish_phase (r : Condition) (n : Node Tx L) : (n.finish r).phase = .idle := rfl

theorem follows_finish {n : Node Tx L} {j : Job} {n' : Node Tx L} (hlog : n'.broadcast = n.broadcast) (r : Condition) :
    Follows j n (n'.finish r) := by
  constructor
  · simpa using hlog
  · intro j' hj'
    simp [Phase.job] at hj'
  · simp [Phase.Matches]

theorem follows_phase {n n' : Node Tx L} {j : Job} (hlog : n'.broadcast = n.broadcast)
    (hjob : n'.phase.job = some j) (hmade : n'.phase.Matches) : Follows j n n' := by
  refine ⟨hlog, fun j' hj' => ?_, hmade⟩
  rw [hjob] at hj'
  exact (Option.some.inj hj').symm

/-! ### The stages -/

/-- What the flags are set to concerns neither the thread nor the log. -/
theorem settleFlags_frame (n : Node Tx L) :
    (settleFlags n).broadcast = n.broadcast ∧ (settleFlags n).phase = n.phase := by
  unfold settleFlags
  split
  · exact ⟨rfl, rfl⟩
  · exact ⟨rfl, rfl⟩

theorem enter_frame (o : Options) (p : Pulse) (n : Node Tx L) :
    (enter o p n).broadcast = n.broadcast ∧ (enter o p n).phase.job = none ∧ (enter o p n).phase.Matches := by
  have hlog := (settleFlags_frame n).1
  unfold enter
  dsimp only
  split
  · exact ⟨rfl, rfl, trivial⟩
  split
  · exact ⟨rfl, rfl, trivial⟩
  split
  · exact ⟨hlog, rfl, trivial⟩
  split
  · exact ⟨hlog, rfl, trivial⟩
  · exact ⟨hlog, rfl, trivial⟩

/-- **A slot that is taken** is that of the present second, which is later than the head, and its validator is the
    one that is scheduled now. -/
theorem chooseSlot_ok {o : Options} {n : Node Tx L} {j : Job} (h : chooseSlot o n = .ok j) :
    j.time = n.second ∧ n.core.time < n.second ∧
      j.validator = n.core.getScheduledValidator (n.core.getSlotAtTime n.second) := by
  unfold chooseSlot at h
  dsimp only at h
  split at h
  · cases h
  split at h
  · cases h
  split at h
  · cases h
  split at h
  · cases h
  rename_i hlater
  split at h
  · cases h
  split at h
  · cases h
  split at h
  · cases h
  split at h
  · cases h
  rename_i hlag
  -- half a second is less than the distance of two different seconds
  have htime : n.core.getSlotTime (n.core.getSlotAtTime n.second) = n.second := by omega
  cases h
  refine ⟨htime, ?_, rfl⟩
  rw [htime] at hlater
  omega

theorem checkSlot_error {o : Options} {emergency : Bool} {n : Node Tx L} {r : Condition}
    (h : chooseSlot o n = .error r) : checkSlot o emergency n = n.finish r := by
  unfold checkSlot
  rw [h]

theorem checkSlot_ok {o : Options} {emergency : Bool} {n : Node Tx L} {j : Job} (h : chooseSlot o n = .ok j) :
    checkSlot o emergency n = { n with phase := .checkCollision emergency j } := by
  unfold checkSlot
  rw [h]

/-- A slot is taken only when it is free. -/
theorem Honest.checkSlot {n : Node Tx L} (h : Honest n) (o : Options) (emergency : Bool) (hkept : n.headKept) :
    Honest (checkSlot o emergency n) := by
  rcases hslot : chooseSlot o n with r | j
  · rw [checkSlot_error hslot]
    apply h.rest
    · rfl
    · rfl
    · exact trivial
  · obtain ⟨htime, hlater, hname⟩ := chooseSlot_ok hslot
    rw [checkSlot_ok hslot]
    constructor
    · exact h.once
    · intro j' hj' b hb hbtime hbname
      cases Option.some.inj hj'
      have hhead := hkept b hb (hbtime.trans htime) (hbname.trans hname)
      exact absurd hhead (Nat.not_le.mpr hlater)
    · exact trivial

theorem checkCollision_follows (o : Options) (emergency : Bool) (j : Job) (n : Node Tx L) :
    Follows j n (checkCollision o emergency j n) := by
  unfold checkCollision
  split
  · exact follows_phase rfl rfl trivial
  dsimp only
  split
  · exact follows_phase rfl rfl trivial
  split
  · exact follows_phase rfl rfl trivial
  · apply follows_finish
    rfl

theorem checkPause_follows (p : Pulse) (j : Job) (n : Node Tx L) : Follows j n (checkPause p j n) := by
  unfold checkPause
  split
  · exact follows_finish rfl .notTimeYet
  · exact follows_phase rfl rfl trivial

/-- An attempt that has failed is followed by another one for the same slot, or by none. -/
theorem retry_follows {n n' : Node Tx L} (hlog : n'.broadcast = n.broadcast) (j : Job) (attempt : Nat) :
    Follows j n (retry j attempt n') := by
  unfold retry
  dsimp only
  split
  · exact follows_phase hlog rfl trivial
  · apply follows_finish
    exact hlog

theorem checkGenerate_follows (j : Job) (attempt : Nat) (n : Node Tx L) : Follows j n (checkGenerate j attempt n) := by
  unfold checkGenerate
  dsimp only
  split
  · exact follows_phase rfl rfl trivial
  · exact retry_follows rfl j attempt

/-- The block that is signed is one for the slot. -/
theorem sealBlock_ok {env : Env Tx L} {k : Packing Tx} {j : Job} {txs : List Tx} {db : Database Tx L}
    {b : SignedBlock Tx} (h : sealBlock env k j txs db = .ok b) :
    b.timestamp = j.time ∧ b.validator = j.validator := by
  unfold sealBlock at h
  obtain ⟨w, -, h⟩ := Prog.except_bind_eq_ok h
  dsimp only at h
  split at h
  · cases h
    exact ⟨rfl, rfl⟩
  · cases h

theorem makeBlock_follows (env : Env Tx L) (k : Packing Tx) (j : Job) (attempt : Nat) (txs : List Tx) (n : Node Tx L) :
    Follows j n (makeBlock env k j attempt txs n) := by
  unfold makeBlock
  cases hseal : sealBlock env k j txs n.db with
  | error e => exact retry_follows rfl j attempt
  | ok b    => exact follows_phase rfl rfl (sealBlock_ok hseal)

/-- A block for a free slot may be broadcast. -/
theorem NeverTwice.snoc {blocks : List (SignedBlock Tx)} {j : Job} {b : SignedBlock Tx} (h : NeverTwice blocks)
    (hfree : Free blocks j) (htime : b.timestamp = j.time) (hname : b.validator = j.validator) :
    NeverTwice (blocks ++ [b]) := by
  have hnew : ∀ a ∈ blocks, a.validator = b.validator → a.timestamp = b.timestamp → False :=
    fun a ha hav hat => hfree a ha (hat.trans htime) (hav.trans hname)
  intro x hx y hy hvalidator htimestamp
  rcases List.mem_append.mp hx with hx | hx
  · rcases List.mem_append.mp hy with hy | hy
    · exact h x hx y hy hvalidator htimestamp
    · cases List.mem_singleton.mp hy
      exact (hnew x hx hvalidator htimestamp).elim
  · cases List.mem_singleton.mp hx
    rcases List.mem_append.mp hy with hy | hy
    · exact (hnew y hy hvalidator.symm htimestamp.symm).elim
    · exact (List.mem_singleton.mp hy).symm

/-- Whatever `push_block` answers, the slot was free, and the thread is done with it. -/
theorem Honest.pushSealed {n : Node Tx L} (h : Honest n) {j : Job} {attempt : Nat} {b : SignedBlock Tx}
    (hphase : n.phase = .push j attempt b) (env : Env Tx L) : Honest (pushSealed env j attempt b n) := by
  have hjob : n.phase.job = some j := by rw [hphase]; rfl
  have hmade := h.made
  rw [hphase] at hmade
  obtain ⟨htime, hname⟩ := hmade
  unfold Production.pushSealed
  cases Database.pushBlock env b n.skip n.db with
  | ok r db =>
      constructor
      · exact h.once.snoc (h.free j hjob) htime hname
      · intro j' hj'
        simp [Phase.job] at hj'
      · exact trivial
  | error e db =>
      dsimp only
      split
      · apply h.follow hjob
        apply follows_finish
        rfl
      · apply h.follow hjob
        apply retry_follows
        rfl

/-! ### Steps and runs -/

/-- **One phase of the thread**, behind the movement of the clock. -/
theorem Honest.phase {n : Node Tx L} (h : Honest n) (env : Env Tx L) (o : Options) (k : Packing Tx) (p : Pulse)
    (hkept : ∀ emergency, n.phase = .checkSlot emergency → n.headKept) : Honest (advance env o k p n) := by
  unfold advance
  cases hphase : n.phase with
  | idle =>
      obtain ⟨hlog, hjob, hmade⟩ := enter_frame o p n
      exact h.rest hlog hjob hmade
  | checkSlot emergency => exact h.checkSlot o emergency (hkept emergency hphase)
  | checkCollision emergency j =>
      apply h.follow (congrArg Phase.job hphase)
      exact checkCollision_follows o emergency j n
  | checkPause j =>
      apply h.follow (congrArg Phase.job hphase)
      exact checkPause_follows p j n
  | generate j attempt =>
      apply h.follow (congrArg Phase.job hphase)
      exact checkGenerate_follows j attempt n
  | collect j attempt =>
      apply h.follow (congrArg Phase.job hphase)
      exact follows_phase rfl rfl trivial
  | make j attempt txs =>
      apply h.follow (congrArg Phase.job hphase)
      exact makeBlock_follows env k j attempt txs n
  | push j attempt b => exact h.pushSealed hphase env

theorem Honest.act {n : Node Tx L} (h : Honest n) (env : Env Tx L) (o : Options) (k : Packing Tx) (x : Action Tx)
    (hcalm : Calm n x) : Honest (act env o k n x) := by
  cases x with
  | produce p =>
      have hwait : Honest (n.wait p.elapsed) := h.congr rfl rfl
      apply hwait.phase env o k p
      intro emergency hphase
      unfold Calm at hcalm
      rw [show n.phase = .checkSlot emergency from hphase] at hcalm
      exact hcalm
  | chain x   => exact h.congr rfl rfl
  | pop       => exact h.congr rfl rfl

theorem Honest.run {n : Node Tx L} (h : Honest n) (env : Env Tx L) (o : Options) (k : Packing Tx)
    (xs : List (Action Tx)) (hcalm : CalmRun env o k n xs) : Honest (run env o k n xs) := by
  induction xs generalizing n with
  | nil => exact h
  | cons x xs ih => exact ih (h.act env o k x hcalm.1) hcalm.2

theorem honest_start (db : Database Tx L) (clock : Nat) (stale : Bool) : Honest (start db clock stale) := by
  constructor
  · intro a ha
    cases ha
  · intro j hj
    cases hj
  · exact trivial

/-- **A validator does not sign two blocks for one slot** as long as the head does not move back behind what was
    signed within the second of its slot: whatever arrives, between whichever phases. -/
theorem never_signs_twice (env : Env Tx L) (o : Options) (k : Packing Tx) (db : Database Tx L) (clock : Nat)
    (stale : Bool) (xs : List (Action Tx)) (hcalm : CalmRun env o k (start db clock stale) xs) :
    NeverTwice (run env o k (start db clock stale) xs).broadcast :=
  ((honest_start db clock stale).run env o k xs hcalm).once

end Invariant

/-! ### Samples -/

/-- The node of validator 1. The slots of its chain have all been filled so far. -/
def sampleNode : Node Sample.Tx Unit :=
  start { Sample.four with
    chainbase := Sample.four.chainbase.modify fun s =>
      { s with core := { s.core with recentSlotsFilled := 2 ^ 128 - 1 } } } 11750000 false

def sampleOptions : Options := { validators := [1], privateKeys := [1] }

def samplePacking : Packing Sample.Tx where
  maxHeaderSize := 100
  txSize _      := 10
  expiration _  := 1000
  sign key _    := key
  hash b        := b.previous.hash * 100 + b.timestamp

/-- Eight phases, from the entry to the broadcast of a block. -/
def sampleTick (elapsed : Nat) : List (Action Sample.Tx) :=
  .produce { elapsed := elapsed } :: List.replicate 7 (.produce {})

/-- The blocks of the two slots before that of validator 1. -/
def late2 : SignedBlock Sample.Tx := Sample.block Sample.block1.id 6 3 22
def late3 : SignedBlock Sample.Tx := Sample.block late2.id 9 4 23

/-- Two ticks within the second of the slot: the second one finds the block of the first one as the head. -/
theorem never_signs_twice_sample :
    NeverTwice (run Sample.env sampleOptions samplePacking sampleNode (sampleTick 0 ++ sampleTick 250000)).broadcast :=
  never_signs_twice Sample.env sampleOptions samplePacking _ 11750000 false (sampleTick 0 ++ sampleTick 250000)
    (by decide +kernel)

/-- What two blocks for one slot look like. -/
theorem not_neverTwice {Tx : Type} {blocks : List (SignedBlock Tx)} {time h h' : Nat} {name : AccountName}
    (hblocks : blocks.map (fun b => (b.timestamp, b.validator, b.hash)) = [(time, name, h), (time, name, h')])
    (hne : h ≠ h') : ¬ NeverTwice blocks := by
  intro hnever
  obtain ⟨a, rest, rfl, ha, hrest⟩ := List.map_eq_cons_iff.mp hblocks
  obtain ⟨b, rest, rfl, hb, -⟩ := List.map_eq_cons_iff.mp hrest
  simp only [Prod.mk.injEq] at ha hb
  have hab := hnever a (by simp) b (by simp) (ha.2.1.trans hb.2.1.symm) (ha.1.trans hb.1.symm)
  apply hne
  rw [← ha.2.2, ← hb.2.2, hab]

/-- **Two blocks for one slot.** The two blocks before the slot arrive a moment after it was filled; they are the longer
    branch, and the next tick finds their head and fills the slot again. -/
theorem signs_twice :
    ¬ NeverTwice (run Sample.env sampleOptions samplePacking sampleNode (sampleTick 0 ++
      [.chain (.block late2 Skip.nothing), .chain (.block late3 Skip.nothing)] ++ sampleTick 250000)).broadcast := by
  have hblocks : (run Sample.env sampleOptions samplePacking sampleNode (sampleTick 0 ++
      [.chain (.block late2 Skip.nothing), .chain (.block late3 Skip.nothing)] ++
      sampleTick 250000)).broadcast.map (fun b => (b.timestamp, b.validator, b.hash)) =
      [(12, 1, 112), (12, 1, 2312)] := by decide +kernel
  exact not_neverTwice hblocks (by decide)

end Production

end VizNode
