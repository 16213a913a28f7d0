import VizNode.Ledger.Objects

/-!
# `VizNode.Signing.SignState` — `sign_state` and `verify_authority`

Before a transaction is evaluated, and before a proposal is executed, the keys that signed it are weighed against
the authorities its operations require. An authority gives weights to keys and to other accounts, so the check
follows accounts into their authorities, up to a depth, and remembers on the way which accounts it has approved
and which keys it has used.

## Contents
- **The state.** `SignState`: the provided keys, each with whether it was used, and the approved accounts.
- **Checks.** `checkAuthority` follows the accounts of an authority; the depth left is its recursion.
- **The verdict.** `verifyAuthority`, over any type of operations that say what they require.
-/

namespace VizNode

namespace Signing

/-- `CHAIN_MAX_SIG_CHECK_DEPTH`. -/
def maxSigCheckDepth : Nat := 2

/-- `"temp"`, padded to 32 bytes: the name `sign_state` approves by itself. -/
def tempAccount : AccountName := 0x74656d70 * 2 ^ 224

/-- What `verify_authority` throws. A getter of an account that is not there throws as well. -/
inductive AuthorityError where
  | unknownAccount (name : AccountName)
  | mixedWithRegular
  | missingRegularAuth (accounts : List AccountName) (used : List PublicKey)
  | missingOtherAuth (auths : List Authority)
  | missingActiveAuth (accounts : List AccountName) (used : List PublicKey)
  | missingMasterAuth (accounts : List AccountName) (used : List PublicKey)
  | irrelevantSig (unused : List PublicKey)
  | irrelevantApproval (unused : List AccountName)
deriving DecidableEq, Repr

/-- `authority_getter`. -/
abbrev AuthorityGetter := AccountName → Except AuthorityError Authority

/-! ## The state -/

/-- `map[k] = x`. -/
def put {κ α : Type} [DecidableEq κ] (t : Table κ α) (k : κ) (x : α) : Table κ α :=
  if k ∈ t.keys then t.modify k (fun _ => x) else t.insert k x

/-- **`sign_state`**: the keys that may sign as well, the provided keys and the approved accounts, each with
    whether it was used. -/
structure SignState where
  availableKeys      : List PublicKey
  providedSignatures : Table PublicKey Bool
  approvedBy         : Table AccountName Bool

namespace SignState

/-- The constructor: no key is used yet, and `temp` is approved. -/
def init (sigs keys : List PublicKey) : SignState where
  availableKeys      := keys
  providedSignatures := sigs.foldl (fun t k => put t k false) .empty
  approvedBy         := put .empty tempAccount true

/-- `approved_by[id] = used`. -/
def approve (s : SignState) (id : AccountName) (used : Bool) : SignState :=
  { s with approvedBy := put s.approvedBy id used }

/-- **`signed_by`**: is there a signature for this key, or could there be. -/
def signedBy (s : SignState) (k : PublicKey) : Bool × SignState :=
  if k ∈ s.providedSignatures.keys then
    (true, { s with providedSignatures := s.providedSignatures.modify k (fun _ => true) })
  else if k ∈ s.availableKeys then
    (true, { s with providedSignatures := put s.providedSignatures k true })
  else (false, s)

/-! ## Checks -/

/-- The first loop of `check_authority`. `none` is the `return true` inside it; otherwise the weight so far,
    a 32-bit sum. -/
def weighKeys (threshold : Nat) : List (PublicKey × Nat) → Nat → SignState → Option Nat × SignState
  | [], total, s => (some total, s)
  | (k, w) :: ks, total, s =>
    match s.signedBy k with
    | (true, s)  =>
      if threshold ≤ (total + w) % 2 ^ 32 then (none, s) else weighKeys threshold ks ((total + w) % 2 ^ 32) s
    | (false, s) => weighKeys threshold ks total s

/-- The second loop of `check_authority`. `nested` checks an account that is not approved yet; there is none at
    the last depth. -/
def weighAccounts (nested : Option (AccountName → SignState → Except AuthorityError (Bool × SignState)))
    (threshold : Nat) : List (AccountName × Nat) → Nat → SignState → Except AuthorityError (Bool × SignState)
  | [], total, s => .ok (decide (threshold ≤ total), s)
  | (a, w) :: as, total, s =>
    if a ∈ s.approvedBy.keys then
      if threshold ≤ (total + w) % 2 ^ 32 then .ok (true, s)
      else weighAccounts nested threshold as ((total + w) % 2 ^ 32) s
    else
      match nested with
      | none       => weighAccounts nested threshold as total s
      | some check => do
        let r ← check a s
        if r.1 then
          let s := r.2.approve a true
          if threshold ≤ (total + w) % 2 ^ 32 then .ok (true, s)
          else weighAccounts nested threshold as ((total + w) % 2 ^ 32) s
        else weighAccounts nested threshold as total r.2

/-- Both loops over one authority. -/
def weigh (nested : Option (AccountName → SignState → Except AuthorityError (Bool × SignState)))
    (auth : Authority) (s : SignState) : Except AuthorityError (Bool × SignState) :=
  match weighKeys auth.weightThreshold auth.keyAuths 0 s with
  | (none, s)       => .ok (true, s)
  | (some total, s) => weighAccounts nested auth.weightThreshold auth.accountAuths total s

/-- **`check_authority(auth, depth)`**, where `max_recursion - depth` levels are left. -/
def checkAuthority (getActive : AuthorityGetter) :
    Nat → Authority → SignState → Except AuthorityError (Bool × SignState)
  | 0,        auth, s => weigh none auth s
  | left + 1, auth, s =>
    weigh (some fun a s => do
      let auth ← getActive a
      checkAuthority getActive left auth s) auth s

/-- **`check_authority(id)`**: an approved account is not looked into. -/
def checkAccount (getActive : AuthorityGetter) (maxRecursion : Nat) (id : AccountName) (s : SignState) :
    Except AuthorityError (Bool × SignState) :=
  if id ∈ s.approvedBy.keys then .ok (true, s.approve id true)
  else do
    let auth ← getActive id
    checkAuthority getActive maxRecursion auth s

/-- The keys that were used, and those that were not: what `remove_unused_signatures` sorts out. -/
def usedSignatures (s : SignState) : List PublicKey :=
  s.providedSignatures.keys.filter (fun k => s.providedSignatures.row k)

def unusedSignatures (s : SignState) : List PublicKey :=
  s.providedSignatures.keys.filter (fun k => !s.providedSignatures.row k)

/-- What `filter_unused_approvals` collects. -/
def unusedApprovals (s : SignState) : List AccountName :=
  s.approvedBy.keys.filter (fun a => !s.approvedBy.row a)

/-- `assert_unused_approvals`. -/
def assertUnusedApprovals (s : SignState) : Except AuthorityError Unit :=
  if s.unusedSignatures ≠ [] then .error (.irrelevantSig s.unusedSignatures)
  else if s.unusedApprovals ≠ [] then .error (.irrelevantApproval s.unusedApprovals)
  else .ok ()

/-- One of the loops that collect what is missing. -/
def collectMissing {α : Type} (check : α → SignState → Except AuthorityError (Bool × SignState)) :
    List α → SignState → Except AuthorityError (List α × SignState)
  | [], s => .ok ([], s)
  | x :: xs, s => do
    let r ← check x s
    let m ← collectMissing check xs r.2
    .ok (if r.1 then m.1 else x :: m.1, m.2)

/-- `!check(..) && !..`: the second check is made when the first one fails. -/
def orElse (first second : SignState → Except AuthorityError (Bool × SignState)) (s : SignState) :
    Except AuthorityError (Bool × SignState) := do
  let r ← first s
  if r.1 then .ok (true, r.2) else second r.2

end SignState

/-! ## The verdict -/

/-- Insert into a `flat_set`. -/
def flatInsert (a : Nat) : List Nat → List Nat
  | []     => [a]
  | b :: l => if a < b then a :: b :: l else if a = b then b :: l else b :: flatInsert a l

/-- What operations require. -/
structure Required where
  active  : List AccountName := []
  master  : List AccountName := []
  regular : List AccountName := []
  other   : List Authority := []
deriving DecidableEq, Repr

namespace Required

/-- `operation_get_required_authorities`: an operation adds what it requires to the four collections. -/
def add (r q : Required) : Required where
  active  := q.active.foldl (fun l a => flatInsert a l) r.active
  master  := q.master.foldl (fun l a => flatInsert a l) r.master
  regular := q.regular.foldl (fun l a => flatInsert a l) r.regular
  other   := r.other ++ q.other

/-- What a list of operations requires. -/
def of {Op : Type} (required : Op → Required) (ops : List Op) : Required :=
  ops.foldl (fun r op => r.add (required op)) {}

end Required

/-- **The authorities of every account**, at the three levels. -/
structure Getters where
  active  : AuthorityGetter
  master  : AuthorityGetter
  regular : AuthorityGetter

/-- The approvals given beside the keys. -/
structure Approvals where
  active  : List AccountName := []
  master  : List AccountName := []
  regular : List AccountName := []

open SignState

/-- The check of a required regular account: its regular authority, else its active, else its master one.
    Accounts inside them are followed through their regular authorities. -/
def checkRegular (get : Getters) (depth : Nat) (id : AccountName) :
    SignState → Except AuthorityError (Bool × SignState) :=
  orElse (checkAccount get.regular depth id) (orElse
    (fun s => do
      let auth ← get.active id
      checkAuthority get.regular depth auth s)
    (fun s => do
      let auth ← get.master id
      checkAuthority get.regular depth auth s))

/-- The check of a required active account: its active authority, else its master one. -/
def checkActive (get : Getters) (depth : Nat) (id : AccountName) :
    SignState → Except AuthorityError (Bool × SignState) :=
  orElse (checkAccount get.active depth id) (fun s => do
    let auth ← get.master id
    checkAuthority get.active depth auth s)

/-- The check of a required master account. From then on the account counts as approved. -/
def checkMaster (get : Getters) (depth : Nat) (approvals : List AccountName) (id : AccountName) (s : SignState) :
    Except AuthorityError (Bool × SignState) :=
  if id ∈ approvals then .ok (true, s.approve id true)
  else do
    let auth ← get.master id
    let r ← checkAuthority get.active depth auth s
    .ok (if r.1 then (true, r.2.approve id true) else r)

/-- The branch of `verify_authority` for operations that require regular authorities. -/
def verifyRegular (get : Getters) (depth : Nat) (sigs : List PublicKey) (approvals : Approvals) (req : Required) :
    Except AuthorityError Unit := do
  if req.active ≠ [] ∨ req.master ≠ [] ∨ req.other ≠ [] then
    .error .mixedWithRegular
  else
    let s := approvals.regular.foldl (fun s id => s.approve id false) (SignState.init sigs [])
    let r ← collectMissing (checkRegular get depth) req.regular s
    if r.1 ≠ [] then .error (.missingRegularAuth r.1 r.2.usedSignatures)
    else r.2.assertUnusedApprovals

/-- The branch of `verify_authority` for all other operations. -/
def verifyActive (get : Getters) (depth : Nat) (sigs : List PublicKey) (approvals : Approvals) (req : Required) :
    Except AuthorityError Unit := do
  let s := approvals.active.foldl (fun s id => s.approve id false) (SignState.init sigs [])
  let s := approvals.master.foldl (fun s id => s.approve id false) s
  let r ← collectMissing (checkAuthority get.active depth) req.other s
  if r.1 ≠ [] then .error (.missingOtherAuth r.1)
  else
    let r ← collectMissing (checkActive get depth) req.active r.2
    if r.1 ≠ [] then .error (.missingActiveAuth r.1 r.2.usedSignatures)
    else
      let r ← collectMissing (checkMaster get depth approvals.master) req.master r.2
      if r.1 ≠ [] then .error (.missingMasterAuth r.1 r.2.usedSignatures)
      else r.2.assertUnusedApprovals

/-- **`verify_authority`.** -/
def verifyAuthority {Op : Type} (required : Op → Required) (ops : List Op) (sigs : List PublicKey)
    (get : Getters) (maxRecursionDepth : Nat) (approvals : Approvals) : Except AuthorityError Unit :=
  let req := Required.of required ops
  if req.regular ≠ [] then verifyRegular get maxRecursionDepth sigs approvals req
  else verifyActive get maxRecursionDepth sigs approvals req

end Signing

end VizNode
