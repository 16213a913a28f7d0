import VizNode.Chain.PushBlock

/-!
# `VizNode.Chain.Runs` — what can happen to a node

A node receives blocks, confirmations and transactions, in any order. Each of them is one `Step`, and a
run is a list of steps. A step that throws is a step as well: the node goes on from the state the throw
left behind.

## Contents
- **Steps and runs.** `Step`, `Database.step`, `Database.run`, and `Meets P`, a run whose steps all meet `P`.
- **The blocks of a run.** `Universe U`: the blocks in existence, with ids that do not collide.
- **A sample network** of a few validators, on which concrete runs can be evaluated.
-/

namespace VizNode

/-! ## Steps and runs -/

/-- What a node receives. -/
inductive Step (Tx : Type) where
  | block (b : SignedBlock Tx) (skip : Skip)
  | confirmation (id : BlockId) (account : AccountName)
  | transaction (tx : Tx) (skip : Skip)
deriving DecidableEq

namespace Database

variable {Tx L : Type}

/-- One step of the node, whether it returns or throws. -/
def step (env : Env Tx L) (db : Database Tx L) : Step Tx → Database Tx L
  | .block b skip            => Prog.after (pushBlock env b skip) db
  | .confirmation id account => Prog.after (applyBlockPostValidation id account) db
  | .transaction tx skip     => Prog.after (pushTransaction env tx skip) db

/-- A run of the node. -/
def run (env : Env Tx L) (db : Database Tx L) (steps : List (Step Tx)) : Database Tx L :=
  steps.foldl (step env) db

@[simp] theorem run_nil (env : Env Tx L) (db : Database Tx L) : run env db [] = db := rfl

@[simp] theorem run_cons (env : Env Tx L) (db : Database Tx L) (x : Step Tx) (xs : List (Step Tx)) :
    run env db (x :: xs) = run env (step env db x) xs := rfl

/-- **The run rule.** What every step keeps holds after every run, the steps being those in `P`. -/
theorem run_induction {env : Env Tx L} {P : Step Tx → Prop} {I : Database Tx L → Prop}
    (hstep : ∀ db x, P x → I db → I (step env db x)) {db : Database Tx L} (hI : I db)
    {steps : List (Step Tx)} (hP : ∀ x ∈ steps, P x) : I (run env db steps) := by
  induction steps generalizing db with
  | nil => exact hI
  | cons x xs ih =>
      exact ih (hstep db x (hP x (by simp)) hI) (fun y hy => hP y (by simp [hy]))

theorem run_append (env : Env Tx L) (db : Database Tx L) (xs ys : List (Step Tx)) :
    run env db (xs ++ ys) = run env (run env db xs) ys := List.foldl_append

/-- **Every step of the run meets `P`**, in the state it starts from. -/
def Meets (P : Database Tx L → Step Tx → Prop) (env : Env Tx L) : Database Tx L → List (Step Tx) → Prop
  | _,  []      => True
  | db, x :: xs => P db x ∧ Meets P env (step env db x) xs

instance meetsDecidable {P : Database Tx L → Step Tx → Prop} [∀ db x, Decidable (P db x)] (env : Env Tx L) :
    ∀ (db : Database Tx L) (steps : List (Step Tx)), Decidable (Meets P env db steps)
  | _,  []      => .isTrue trivial
  | db, x :: xs => @instDecidableAnd _ _ _ (meetsDecidable env (step env db x) xs)

theorem Meets.append {P : Database Tx L → Step Tx → Prop} {env : Env Tx L} {db : Database Tx L}
    {xs ys : List (Step Tx)} (h : Meets P env db (xs ++ ys)) :
    Meets P env db xs ∧ Meets P env (run env db xs) ys := by
  induction xs generalizing db with
  | nil => exact ⟨trivial, h⟩
  | cons x xs ih => exact ⟨⟨h.1, (ih h.2).1⟩, (ih h.2).2⟩

end Database

/-! ## The blocks of a run -/

/-- **The blocks in existence**: their ids do not collide, and their numbers stay within 32 bits. -/
structure Universe {Tx : Type} (U : SignedBlock Tx → Prop) : Prop where
  inj    : ∀ a b, U a → U b → a.id = b.id → a = b
  noWrap : ∀ b, U b → b.previous.num + 1 < 2 ^ 32

/-- The step brings a block of the universe, if it brings a block. -/
def Step.From {Tx : Type} (U : SignedBlock Tx → Prop) : Step Tx → Prop
  | .block b _ => U b
  | _          => True

instance stepFromDecidable {Tx : Type} (U : SignedBlock Tx → Prop) [DecidablePred U] :
    ∀ x : Step Tx, Decidable (x.From U)
  | .block b _        => inferInstanceAs (Decidable (U b))
  | .confirmation _ _ => .isTrue trivial
  | .transaction _ _  => .isTrue trivial

/-- Finitely many blocks whose ids differ. -/
theorem Universe.of_list {Tx : Type} {blocks : List (SignedBlock Tx)}
    (hinj : ∀ a ∈ blocks, ∀ b ∈ blocks, a.id = b.id → a = b)
    (hnum : ∀ b ∈ blocks, b.previous.num + 1 < 2 ^ 32) : Universe (· ∈ blocks) :=
  ⟨fun a b ha hb => hinj a ha b hb, hnum⟩

theorem Universe.num_eq {Tx : Type} {U : SignedBlock Tx → Prop} (h : Universe U) {b : SignedBlock Tx}
    (hb : U b) : b.blockNum = b.previous.num + 1 := Nat.mod_eq_of_lt (h.noWrap b hb)

/-! ## A sample network -/

namespace Sample

/-- A transaction of the sample network is the list of its effects on the validators. -/
abbrev Tx := List ValidatorEdit

def env : Env Tx Unit where
  packSize _            := 100
  calculateMerkleRoot _ := 0
  sharedDbMerkle _      := none
  validateSignee b k    := decide (b.validatorSignature = k)
  hardforkTime _        := 0
  hardforkVersion _     := 0
  totalVestingShares _  := 1000000
  isKnownTransaction _ _ := false
  applyTransaction _ tx c := .ok (tx, c.ledger)
  clearExpired c        := .ok ([], c.ledger)
  processFunds c        := .ok ([], c.ledger)
  migrate _ c           := .ok ([], c.ledger)
  pendingLimit          := 0

/-- A validator whose key is its name. -/
def validator (name : AccountName) (votes : Int) : Validator :=
  { owner := name, signingKey := name, votes := votes, countedVotes := votes }

/-- A block, signed by its validator. -/
def block (previous : BlockId) (time : Nat) (name : AccountName) (hash : Nat)
    (transactions : List Tx := []) : SignedBlock Tx :=
  { previous := previous, timestamp := time, validator := name, transactionMerkleRoot := 0
    extensions := [], validatorSignature := name, transactions := transactions, hash := hash }

/-- The first block of every sample chain. -/
def block1 : SignedBlock Tx := block BlockId.zero 3 1 1

/-- The state after `block1`, with all hardforks applied, for the given validators and schedule. -/
def core (validators : List Validator) (schedule : List AccountName) : Core Unit where
  headBlockNumber              := 1
  headBlockId                  := block1.id
  genesisTime                  := 0
  time                         := 3
  currentValidator             := 1
  averageBlockSize             := 0
  maximumBlockSize             := 131072
  currentAslot                 := 1
  recentSlotsFilled            := 1
  participationCount           := 1
  maxVirtualBandwidth          := 0
  currentReserveRatio          := 1
  emergencyConsensusActive     := false
  emergencyConsensusStartBlock := 0
  schedule                     := { currentShuffledValidators := Core.padSlots schedule
                                    numScheduledValidators := schedule.length }
  validators                   := validators
  penalties                    := []
  hardforks                    := { processedHardforks := List.replicate 14 0, lastHardfork := 13
                                    currentHardforkVersion := 0, nextHardfork := 0, nextHardforkTime := 0 }
  blockSummary                 := fun n => if n = 1 then block1.id else BlockId.zero
  ledger                       := ()

/-- A node that has just been opened on `block1`. -/
def node (validators : List Validator) (schedule : List AccountName) : Database Tx Unit where
  chainbase            := ⟨⟨core validators schedule, ⟨1, block1.id, 1, 0, []⟩, []⟩, [], 1⟩
  pendingTxSession     := false
  pendingTx            := []
  poppedTx             := []
  forkDb               := { index := [{ ptr := 0, data := block1 }], unlinkedIndex := []
                            head := some { ptr := 0, data := block1 }, nextPtr := 1 }
  blockLog             := [block1]
  dltBlockLog          := []
  dltMode              := false
  dltBlockLogMaxBlocks := 0
  checkpoints          := []
  journal              := []

/-- Four validators with votes 10, 20, 30 and 40, scheduled in this order. -/
def four : Database Tx Unit :=
  node [validator 1 10, validator 2 20, validator 3 30, validator 4 40] [1, 2, 3, 4]

/-- The node after the given blocks arrived. -/
def push (db : Database Tx Unit) (blocks : List (SignedBlock Tx)) : Database Tx Unit :=
  db.run env (blocks.map (.block · Skip.nothing))

/-- The node after confirmations of `id` by the given accounts arrived. -/
def confirm (db : Database Tx Unit) (id : BlockId) (accounts : List AccountName) : Database Tx Unit :=
  db.run env (accounts.map (.confirmation id ·))

/-- Two blocks on top of the first one. -/
def b2 : SignedBlock Tx := block block1.id 6 3 2
def b3 : SignedBlock Tx := block b2.id 9 4 3

/-- They arrive, and three of four validators confirm the second block. -/
def confirmB2 : List (Step Tx) :=
  [.block b2 Skip.nothing, .block b3 Skip.nothing, .confirmation b2.id 2, .confirmation b2.id 1,
    .confirmation b2.id 4]

end Sample

end VizNode
