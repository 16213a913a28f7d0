import VizNode.Signing.SignState
import VizNode.Lib.Prog

/-!
# `VizNode.Proposals.Model` — proposals and their execution

A proposal is a list of operations that waits for approvals. It is executed inside an undo session of its own: by the
update that completes its approvals, or when it expires. The operations of a proposal can be operations on proposals,
so an execution can lead to another one, in the middle of the first.

**References.** `push_proposal` and `clear_expired_proposals` hold a reference to a proposal while its operations run.
`removals` counts how often the object of an id was destroyed, and undoing does not take that back: a reference is good
while its object is there and the count is the one it was taken with. What the source does behind a bad reference is
not defined, and neither is it here: the computation halts.

**The journal** is not in the source. It records which proposals began and which of their operations were applied; an
undo session takes it back with everything else. `disturbed` says that a proposal was destroyed, or began once more,
while it was being executed.

## Contents
- **Data.** `Operation`, `Proposal`, `State`; everything that is no proposal is a parameter.
- **Approvals.** `isAuthorizedToExecute`, `assertIrrelevantProposalAuthority`.
- **Evaluators.** `createProposal`, `updateProposal`, `deleteProposal`, with `pushProposal`; `applyOperation` ties the
  knot, and its fuel is the depth of the calls.
- **Blocks.** `clearExpiredProposals`.
- **Runs.** `Step`, `Reachable`.
-/

namespace VizNode

namespace Proposals

open Signing

/-! ## Data -/

abbrev ProposalId := Nat

/-- `CHAIN_MAX_PROPOSAL_LIFETIME_SEC`, `CHAIN_MAX_PROPOSAL_DEPTH`. -/
def maxProposalLifetimeSec : Nat := 60 * 60 * 24 * 7 * 4
def maxProposalDepth : Nat := 2

/-- Approvals of the four kinds, each a `flat_set`. -/
structure Approved where
  active  : List AccountName := []
  master  : List AccountName := []
  regular : List AccountName := []
  keys    : List PublicKey := []
deriving DecidableEq, Repr, Inhabited

/-- `proposal_update_operation`. -/
structure Update where
  author   : AccountName
  title    : String
  toAdd    : Approved := {}
  toRemove : Approved := {}
deriving DecidableEq, Repr

/-- **An operation**: one on proposals, or any other. The memo of a proposal is not read by anything. -/
inductive Operation (O : Type) where
  | other (o : O)
  | create (author : AccountName) (title : String) (expirationTime : Nat) (reviewPeriodTime : Option Nat)
      (proposedOperations : List (Operation O))
  | update (u : Update)
  | delete (author : AccountName) (title : String) (requester : AccountName)

/-- `proposal_object`. -/
structure Proposal (O : Type) where
  author           : AccountName
  title            : String
  expirationTime   : Nat
  reviewPeriodTime : Option Nat
  operations       : List (Operation O)
  requiredActive   : List AccountName
  requiredMaster   : List AccountName
  requiredRegular  : List AccountName
  available        : Approved := {}

instance {O : Type} : Inhabited (Proposal O) :=
  ⟨{ author := 0, title := "", expirationTime := 0, reviewPeriodTime := none, operations := [],
     requiredActive := [], requiredMaster := [], requiredRegular := [] }⟩

/-- What happened to a proposal: it began, with the approvals and the rest of the database at that moment, or one of
    its operations was applied. -/
inductive Entry (O L : Type) where
  | began (id : ProposalId) (p : Proposal O) (rest : L)
  | applied (id : ProposalId) (op : Operation O)

/-- **The state**: the proposals and the head block time, the rest of the database, and the proposals whose execution
    is under way, the innermost first. -/
structure State (O L : Type) where
  rest      : L
  proposals : Table ProposalId (Proposal O) := .empty
  nextId    : ProposalId := 0
  now       : Nat := 0
  executing : List ProposalId := []
  removals  : ProposalId → Nat := fun _ => 0
  journal   : List (Entry O L) := []
  disturbed : Bool := false

/-- **Everything that is no proposal**: the evaluators of the other operations, which can refuse, what they require and
    whether they validate, and the accounts with their authorities. -/
structure Env (O L : Type) where
  apply            : L → O → Option L
  required         : O → Required
  validate         : O → Bool
  validAccountName : AccountName → Bool
  accountExists    : L → AccountName → Bool
  authority        : L → AccountName → Option AccountAuthority

/-- Why a computation does not return: it throws, it uses a reference whose object is gone, or the fuel is used up. -/
inductive Halt where
  | refused
  | undefined
  | outOfFuel
deriving DecidableEq, Repr

abbrev M (O L : Type) := EStateM Halt (State O L)

variable {O L : Type}

/-- `FC_ASSERT`. -/
def check (c : Prop) [Decidable c] : M O L Unit := if c then pure () else throw .refused

/-! ## Approvals -/

/-- `flat_set::insert` of a range. -/
def insertAll (s : List Nat) (l : List Nat) : List Nat := l.foldl (fun s a => flatInsert a s) s

/-- `remove_existing`. -/
def removeExisting (s : List Nat) (l : List Nat) : List Nat := s.filter (fun a => decide (a ∉ l))

namespace Approved

def add (a b : Approved) : Approved where
  active  := insertAll a.active b.active
  master  := insertAll a.master b.master
  regular := insertAll a.regular b.regular
  keys    := insertAll a.keys b.keys

def remove (a b : Approved) : Approved where
  active  := removeExisting a.active b.active
  master  := removeExisting a.master b.master
  regular := removeExisting a.regular b.regular
  keys    := removeExisting a.keys b.keys

def IsEmpty (a : Approved) : Prop := a.active = [] ∧ a.master = [] ∧ a.regular = [] ∧ a.keys = []

instance (a : Approved) : Decidable a.IsEmpty := inferInstanceAs (Decidable (_ ∧ _))

/-- Every approval of the one is among those of the other. -/
def Within (a b : Approved) : Prop :=
  (∀ x ∈ a.active, x ∈ b.active) ∧ (∀ x ∈ a.master, x ∈ b.master) ∧ (∀ x ∈ a.regular, x ∈ b.regular) ∧
    ∀ x ∈ a.keys, x ∈ b.keys

/-- No approval of the one is among those of the other. -/
def Apart (a b : Approved) : Prop :=
  (∀ x ∈ a.active, x ∉ b.active) ∧ (∀ x ∈ a.master, x ∉ b.master) ∧ (∀ x ∈ a.regular, x ∉ b.regular) ∧
    ∀ x ∈ a.keys, x ∉ b.keys

instance (a b : Approved) : Decidable (a.Within b) := inferInstanceAs (Decidable (_ ∧ _))

instance (a b : Approved) : Decidable (a.Apart b) := inferInstanceAs (Decidable (_ ∧ _))

end Approved

/-- `proposal_update_operation::get_required_authorities`: one authority of all the keys together. -/
def Update.keyAuthority (u : Update) : List Authority :=
  let keys := insertAll (insertAll [] u.toAdd.keys) u.toRemove.keys
  if keys = [] then [] else [{ weightThreshold := keys.length, keyAuths := keys.map (fun k => (k, 1)) }]

namespace Operation

/-- `operation_get_required_authorities`. -/
def required (env : Env O L) : Operation O → Required
  | .other o              => env.required o
  | .create author _ _ _ _ => { active := [author] }
  | .update u             =>
    { active  := insertAll (insertAll [] u.toAdd.active) u.toRemove.active
      master  := insertAll (insertAll [] u.toAdd.master) u.toRemove.master
      regular := insertAll (insertAll [] u.toAdd.regular) u.toRemove.regular
      other   := u.keyAuthority }
  | .delete _ _ requester => { active := [requester] }

mutual

/-- `operation_validate`. -/
def validate (env : Env O L) : Operation O → Bool
  | .other o                   => env.validate o
  | .create author title _ _ ops =>
    env.validAccountName author && decide (title ≠ "" ∧ title.utf8ByteSize < 256) && !ops.isEmpty && validateAll env ops
  | .update u                  =>
    env.validAccountName u.author && decide (u.title ≠ "" ∧ ¬(u.toAdd.IsEmpty ∧ u.toRemove.IsEmpty) ∧
      u.toAdd.Apart u.toRemove)
  | .delete author title _     => env.validAccountName author && decide (title ≠ "")

def validateAll (env : Env O L) : List (Operation O) → Bool
  | []        => true
  | op :: ops => validate env op && validateAll env ops

end

end Operation

/-- The getters of `proposal_object::verify_authority`. -/
def Env.getters (env : Env O L) (rest : L) : Getters :=
  let get := fun (part : AccountAuthority → Authority) (a : AccountName) =>
    match env.authority rest a with
    | some r => Except.ok (part r)
    | none   => .error (AuthorityError.unknownAccount a)
  { active  := get AccountAuthority.active
    master  := get AccountAuthority.master
    regular := get AccountAuthority.regular }

namespace Proposal

/-- What the operations of a proposal require. -/
def required (env : Env O L) (p : Proposal O) : Required := Required.of (Operation.required env) p.operations

/-- `proposal_object::verify_authority`, with further approvals. -/
def verifyAuthority (env : Env O L) (rest : L) (p : Proposal O) (further : Approvals) : Except AuthorityError Unit :=
  Signing.verifyAuthority (Operation.required env) p.operations p.available.keys (env.getters rest) maxSigCheckDepth
    { active  := insertAll p.available.active further.active
      master  := insertAll p.available.master further.master
      regular := insertAll p.available.regular further.regular }

/-- **`is_authorized_to_execute`**: what is too much does not matter. -/
def isAuthorizedToExecute (env : Env O L) (rest : L) (p : Proposal O) : Bool :=
  match p.verifyAuthority env rest {} with
  | .ok ()                          => true
  | .error (.irrelevantSig _)       => true
  | .error (.irrelevantApproval _)  => true
  | .error _                        => false

/-- The loop of `assert_irrelevant_proposal_authority`: missing approvals are added, those of each kind once, until
    something is too much; it must not have come with the update. `false` is a throw. -/
def irrelevantLoop (env : Env O L) (rest : L) (p : Proposal O) (u : Update) :
    Nat → Approvals → List PublicKey → Bool
  | 0, _, _ => true
  | n + 1, further, used =>
    match p.verifyAuthority env rest further with
    | .ok () => true
    | .error (.missingActiveAuth accounts sigs) =>
      further.active.isEmpty &&
        irrelevantLoop env rest p u n { further with active := insertAll [] accounts } (used ++ sigs)
    | .error (.missingMasterAuth accounts sigs) =>
      further.master.isEmpty &&
        irrelevantLoop env rest p u n { further with master := insertAll [] accounts } (used ++ sigs)
    | .error (.missingRegularAuth accounts sigs) =>
      further.regular.isEmpty &&
        irrelevantLoop env rest p u n { further with regular := insertAll [] accounts } (used ++ sigs)
    | .error (.irrelevantSig unused) => decide (∀ k ∈ unused, k ∈ u.toAdd.keys → k ∈ used)
    | .error (.irrelevantApproval unused) =>
      decide (∀ a ∈ unused, a ∉ u.toAdd.active ++ u.toAdd.master ++ u.toAdd.regular)
    | .error _ => false

/-- `assert_irrelevant_proposal_authority`. -/
def assertIrrelevantProposalAuthority (env : Env O L) (rest : L) (p : Proposal O) (u : Update) : Bool :=
  p.irrelevantLoop env rest u 3 {} []

end Proposal

/-! ## References -/

/-- A reference to a proposal: its id, and how often the object was destroyed when it was taken. -/
structure Ref where
  id       : ProposalId
  removals : Nat

namespace State

/-- `find_proposal`. -/
def findProposal (s : State O L) (author : AccountName) (title : String) : Option ProposalId :=
  s.proposals.keys.find? (fun i => decide ((s.proposals.row i).author = author ∧ (s.proposals.row i).title = title))

def ref (s : State O L) (id : ProposalId) : Ref := ⟨id, s.removals id⟩

/-- The object of the reference is there, and is the one it was taken of. -/
def Good (s : State O L) (r : Ref) : Prop := r.id ∈ s.proposals.keys ∧ s.removals r.id = r.removals

instance (s : State O L) (r : Ref) : Decidable (s.Good r) := inferInstanceAs (Decidable (_ ∧ _))

/-- The object of an id is destroyed. -/
def removeProposal (s : State O L) (id : ProposalId) : State O L :=
  { s with
    proposals := s.proposals.erase id
    removals  := Function.update s.removals id (s.removals id + 1)
    disturbed := s.disturbed || decide (id ∈ s.executing) }

/-- **An undo session that is not squashed** restores the objects, at new places if they were destroyed. -/
def undo (s old : State O L) : State O L := { old with removals := s.removals, disturbed := s.disturbed }

/-- A proposal begins. -/
def begin (s : State O L) (id : ProposalId) : State O L :=
  { s with
    executing := id :: s.executing
    journal   := s.journal ++ [.began id (s.proposals.row id) s.rest]
    disturbed := s.disturbed || decide (id ∈ s.executing) }

/-- An operation of a proposal was applied. -/
def record (s : State O L) (id : ProposalId) (op : Operation O) : State O L :=
  { s with journal := s.journal ++ [.applied id op] }

/-- The last operation of a proposal was applied. -/
def finish (s : State O L) : State O L := { s with executing := s.executing.tail }

end State

/-- Use a reference. -/
def deref (r : Ref) : M O L Unit := do
  let s ← get
  if s.Good r then pure () else throw .undefined

/-- `database::remove`. -/
def remove (r : Ref) : M O L Unit := do
  deref r
  modify fun s => s.removeProposal r.id

/-! ## Evaluators -/

/-- `proposal_create_evaluator`. Its depth never exceeds one. -/
def createProposal (env : Env O L) (author : AccountName) (title : String) (expirationTime : Nat)
    (reviewPeriodTime : Option Nat) (ops : List (Operation O)) : M O L Unit := do
  let s ← get
  check (env.accountExists s.rest author = true)
  check (s.findProposal author title = none)
  check (s.now < expirationTime ∧ expirationTime ≤ s.now + maxProposalLifetimeSec)
  check (∀ r ∈ reviewPeriodTime, s.now < r ∧ r < expirationTime)
  let req := Required.of (Operation.required env) ops
  check (req.other = [])
  let active := removeExisting req.active req.master
  let total := insertAll req.master active
  check (req.regular = [] ↔ ¬ total = [])
  let total := insertAll total req.regular
  check (∀ a ∈ total, env.accountExists s.rest a = true)
  check (total ≠ [])
  check (Operation.validateAll env ops = true ∧ ops ≠ [])
  set { s with
    proposals := s.proposals.insert s.nextId
      { author := author, title := title, expirationTime := expirationTime, reviewPeriodTime := reviewPeriodTime
        operations := ops, requiredActive := active, requiredMaster := req.master, requiredRegular := req.regular }
    nextId    := s.nextId + 1 }

/-- The operations of a proposal, one after another. -/
def applyAll (apply : Operation O → M O L Unit) (id : ProposalId) : List (Operation O) → M O L Unit
  | []        => pure ()
  | op :: ops => do
    apply op
    modify fun s => s.record id op
    applyAll apply id ops

/-- What throws out of an undo session undoes it, and the handler that adds the author and the title to the exception
    reads the proposal. -/
def undoing (r : Ref) (old : State O L) : Halt → M O L Unit
  | .refused => do
    modify fun s => s.undo old
    deref r
    throw .refused
  | e        => throw e

/-- The session of `push_proposal`. -/
def session (r : Ref) (old : State O L) (body : M O L Unit) : M O L Unit := tryCatch body (undoing r old)

/-- **`push_proposal`.** -/
def pushProposal (apply : Operation O → M O L Unit) (r : Ref) : M O L Unit := do
  deref r
  let s ← get
  session r s do
    set (s.begin r.id)
    applyAll apply r.id (s.proposals.row r.id).operations
    modify State.finish
  remove r

/-- A `catch (fc::exception&)` that goes on. -/
def ignoring (body : M O L Unit) : M O L Unit :=
  tryCatch body fun e => if e = .refused then pure () else throw e

/-- **`proposal_update_evaluator`**, `depth` of them deep. -/
def updateProposal (env : Env O L) (producing : Bool) (depth : Nat) (apply : Operation O → M O L Unit) (u : Update) :
    M O L Unit := do
  check (producing = true → depth ≤ maxProposalDepth)
  let s ← get
  match s.findProposal u.author u.title with
  | none    => throw .refused
  | some id => do
    let p := s.proposals.row id
    let inReview := p.reviewPeriodTime.any (fun r => decide (r ≤ s.now))
    check (inReview = true → u.toAdd.IsEmpty)
    check (u.toRemove.Within p.available)
    check (u.toAdd.Apart p.available)
    let p := { p with available := (p.available.add u.toAdd).remove u.toRemove }
    set { s with proposals := s.proposals.modify id (fun _ => p) }
    if p.reviewPeriodTime.isSome then
      if inReview ∧ p.available.IsEmpty then remove (s.ref id) else pure ()
    else
      check (p.assertIrrelevantProposalAuthority env s.rest u = true)
      if p.isAuthorizedToExecute env s.rest then ignoring (pushProposal apply (s.ref id)) else pure ()

/-- `proposal_delete_evaluator`. -/
def deleteProposal (author : AccountName) (title : String) (requester : AccountName) : M O L Unit := do
  let s ← get
  match s.findProposal author title with
  | none    => throw .refused
  | some id => do
    let p := s.proposals.row id
    check (p.author = requester ∨ requester ∈ p.requiredActive ∨ requester ∈ p.requiredMaster ∨
      requester ∈ p.requiredRegular)
    remove (s.ref id)

/-- **`apply_operation`.** The fuel is the depth of the calls, `depth` that of the updates alone. -/
def applyOperation (env : Env O L) (producing : Bool) : Nat → Nat → Operation O → M O L Unit
  | 0,        _,     _  => throw .outOfFuel
  | fuel + 1, depth, op =>
    match op with
    | .other o => do
      let s ← get
      match env.apply s.rest o with
      | none      => throw .refused
      | some rest => set { s with rest := rest }
    | .create author title expirationTime reviewPeriodTime ops =>
      createProposal env author title expirationTime reviewPeriodTime ops
    | .update u => updateProposal env producing (depth + 1) (applyOperation env producing fuel (depth + 1)) u
    | .delete author title requester => deleteProposal author title requester

/-! ## Blocks -/

/-- The proposal that expires first, the oldest of several. -/
def State.firstToExpire (s : State O L) : Option ProposalId :=
  s.proposals.keys.find? (fun i => decide (∀ j ∈ s.proposals.keys,
    (s.proposals.row i).expirationTime ≤ (s.proposals.row j).expirationTime))

/-- One turn of the loop of `clear_expired_proposals`. -/
def clearExpiredProposal (env : Env O L) (apply : Operation O → M O L Unit) (id : ProposalId) : M O L Unit := do
  let s ← get
  let p := s.proposals.row id
  if p.isAuthorizedToExecute env s.rest then
    tryCatch (pushProposal apply (s.ref id)) fun e => if e = .refused then remove (s.ref id) else throw e
  else remove (s.ref id)

/-- **`clear_expired_proposals`.** `turns` is a bound on the turns of the loop. -/
def clearExpiredProposals (env : Env O L) (producing : Bool) (fuel : Nat) : Nat → M O L Unit
  | 0         => throw .outOfFuel
  | turns + 1 => do
    let s ← get
    match s.firstToExpire with
    | none    => pure ()
    | some id =>
      if (s.proposals.row id).expirationTime ≤ s.now then do
        clearExpiredProposal env (applyOperation env producing fuel 0) id
        clearExpiredProposals env producing fuel turns
      else pure ()

/-! ## Runs -/

/-- What happens to a node: a transaction, which is undone if it throws, a block, which moves the head block time and
    clears the proposals that have expired, and anything else that is no matter of proposals. -/
inductive Step (O L : Type) where
  | transaction (ops : List (Operation O))
  | block (now : Nat)
  | aside (rest : L)

/-- `_apply_transaction`, as far as it evaluates. -/
def applyTransaction (env : Env O L) (producing : Bool) (fuel : Nat) (ops : List (Operation O)) : M O L Unit :=
  match ops with
  | []        => pure ()
  | op :: ops => do
    applyOperation env producing fuel 0 op
    applyTransaction env producing fuel ops

/-- A transaction that throws is undone. -/
def rollback (old : State O L) : Halt → M O L Unit
  | .refused => do
    modify fun s => s.undo old
    throw .refused
  | e        => throw e

/-- **The program of a step**, with bounds on the depth of the calls and on the turns of the loop. -/
def Step.exec (env : Env O L) (producing : Bool) (fuel turns : Nat) : Step O L → M O L Unit
  | .transaction ops => do
    let old ← get
    ignoring (tryCatch (applyTransaction env producing fuel ops) (rollback old))
  | .block now       => do
    modify fun s => { s with now := now }
    clearExpiredProposals env producing fuel turns
  | .aside rest      => modify fun s => { s with rest := rest }

/-- **The states of the undisturbed runs**: no proposal was destroyed, or began once more, while it was being
    executed. Every step can be that of a node that is producing, or of one that is not. -/
inductive Reachable (env : Env O L) : State O L → Prop
  | start (rest : L) (now : Nat) : Reachable env { rest := rest, now := now }
  | step {s s' : State O L} {step : Step O L} {producing : Bool} {fuel turns : Nat} (h : Reachable env s)
      (hrun : step.exec env producing fuel turns s = .ok () s') (hquiet : s'.disturbed = false) : Reachable env s'

end Proposals

end VizNode
