import VizNode.Chain.Rebuilt
import VizNode.Snapshot.Bandwidth

/-!
# `VizNode.Snapshot.Pending` — is a snapshot the state of the head block?

`serialize_state` reads the indexes as they are, with everything the pending transactions have done since the last
block. It leaves out the rows that these transactions have in the deduplication index, and nothing else. So a node
that loads the snapshot has their effects and does not know them: **it applies them once more** when a block brings
them.

The snapshot is the state of the head block exactly if the pending transactions have done nothing but leave these
rows. Every one that is charged to an account has done more.

## Contents
- **The snapshot.** `createSnapshot`, `headSnapshot`, and `importState`.
- **The pending transactions.** `pushAll`, `Pushed`, `pushAll_pushed`.
- **The result** and samples.
-/

namespace VizNode

/-! ## The snapshot -/

/-- The objects of a snapshot with its label. -/
structure StateSnapshot (L : Type) where
  blockNum : Nat
  blockId  : BlockId
  core     : Core L
  fin      : Finality

section Snapshots

variable {U S Id R : Type} [DecidableEq Id]

/-- The rows of the index whose transactions are not pending. -/
def confirmedRows (F : TxFormat U Id) (pending : List (SignedTx U S)) (index : List (Id × Nat)) : List (Id × Nat) :=
  index.filter fun row => decide (row.1 ∉ pending.map fun tx => F.id tx.unsigned)

/-- **`create_snapshot`**: the objects as they are now, without the rows of pending transactions. -/
def createSnapshot (F : TxFormat U Id) (db : Database (SignedTx U S) (Dedup Id R)) : StateSnapshot (Dedup Id R) :=
  { blockNum := db.headBlockNum
    blockId  := db.headBlockId
    core     := { db.state.core with
      ledger := { db.state.core.ledger with index := confirmedRows F db.pendingTx db.state.core.ledger.index } }
    fin      := db.state.fin }

/-- The objects of the chain state, nothing left out. -/
def headSnapshot {Tx L : Type} (db : Database Tx L) : StateSnapshot L :=
  { blockNum := db.headBlockNum, blockId := db.headBlockId, core := db.state.core, fin := db.state.fin }

/-- A node with the objects of a snapshot: the head is irreversible, and there is nothing to undo. The fork database
    is that of the node. -/
def importState {Tx L : Type} (s : StateSnapshot L) (db : Database Tx L) : Database Tx L :=
  { db with
    chainbase := {
      state    := {
        core    := s.core
        fin     := { s.fin with
          lastIrreversibleBlockNum       := s.core.headBlockNumber
          lastIrreversibleBlockId        := BlockId.zero
          lastIrreversibleBlockRefNum    := 0
          lastIrreversibleBlockRefPrefix := 0 }
        history := [] }
      stack    := []
      revision := s.blockNum } }

end Snapshots

/-! ## The pending transactions -/

section Rows

open Prog

variable {U S Id R : Type} [DecidableEq Id] {F : TxFormat U Id} {M : Meter U S R} {K : TxRules U S R}
  {base : Env (SignedTx U S) (Metered R)}

/-- The core for code that sees neither the index nor the meters. -/
def Core.bare (c : Core (Dedup Id (Metered R))) : Core R := c.withoutIndex.withoutMeter

omit [DecidableEq Id] in
/-- The index, the meters and the rest are the core. -/
theorem core_ext {c d : Core (Dedup Id (Metered R))} (hbare : c.bare = d.bare)
    (hindex : c.ledger.index = d.ledger.index) (hmeters : c.ledger.rest.bandwidth = d.ledger.rest.bandwidth) :
    c = d := by
  have hput : ∀ e : Core (Dedup Id (Metered R)), e =
      { e.bare with ledger := ⟨e.ledger.index, ⟨e.ledger.rest.bandwidth, e.bare.ledger⟩⟩ } := fun _ => rfl
  rw [hput c, hput d, hbare, hindex, hmeters]

/-- What a transaction that applies leaves in the index is a row of its own. -/
theorem applyDeduped_rows {env : Env (SignedTx U S) R} {skip : Skip} {tx : SignedTx U S} {c : Core (Dedup Id R)}
    {edits : List ValidatorEdit} {l : Dedup Id R} (h : applyDeduped F env skip tx c = .ok (edits, l)) :
    (∃ rows, l.index = c.ledger.index ++ rows ∧ ∀ row ∈ rows, row.1 = F.id tx.unsigned) ∧
      env.applyTransaction skip tx c.withoutIndex = .ok (edits, l.rest) := by
  constructor
  · unfold applyDeduped at h
    by_cases hdup : skip.transactionDupeCheck = false ∧ F.id tx.unsigned ∈ c.ledger.index.map Prod.fst
    · rw [if_pos hdup] at h
      cases h
    · rw [if_neg hdup] at h
      by_cases hwin : c.withinWindow (F.expiration tx.unsigned)
      · rw [if_neg (not_not.mpr hwin)] at h
        obtain ⟨r, -, hr⟩ := except_bind_eq_ok h
        obtain ⟨-, hl⟩ := Prod.mk.inj (Except.ok.inj hr)
        rw [← hl]
        cases hskip : skip.transactionDupeCheck with
        | true => exact ⟨[], by simp, fun row hrow => absurd hrow List.not_mem_nil⟩
        | false =>
            refine ⟨[F.row tx], by simp [TxFormat.row], fun row hrow => ?_⟩
            rw [List.mem_singleton.mp hrow]
            rfl
      · rw [if_pos hwin] at h
        cases h
  · rw [← applyDeduped_bare h, h]
    rfl

/-- The meters after a transaction are those its charges leave. -/
theorem metered_charges {producing : Bool} {skip : Skip} {tx : SignedTx U S} {c : Core (Metered R)}
    {edits : List ValidatorEdit} {l : Metered R}
    (h : (bareEnv (meteredRules M producing K) base).applyTransaction skip tx c = .ok (edits, l)) :
    chargeAccounts M producing c.withoutMeter tx c.ledger.bandwidth = .ok l.bandwidth := by
  obtain ⟨⟨⟩, -, hops⟩ := except_bind_eq_ok h
  obtain ⟨bandwidth, hcharge, hrest⟩ := except_bind_eq_ok hops
  obtain ⟨r, -, hr⟩ := except_bind_eq_ok hrest
  obtain ⟨-, hl⟩ := Prod.mk.inj (Except.ok.inj hr)
  rw [← hl]
  exact hcharge

end Rows

namespace Database

open Prog

section Pushes

variable {U S Id R : Type} [DecidableEq Id] (F : TxFormat U Id) (M : Meter U S R) (K : TxRules U S R)
  (base : Env (SignedTx U S) (Metered R))

/-- A transaction that is pushed, by `push_transaction` (`producing`) or when it is put back after a block. -/
structure Push (U S : Type) where
  tx        : SignedTx U S
  skip      : Skip
  producing : Bool

/-- The chain with a deduplication index, on which accounts are charged. -/
abbrev meteredEnv (producing : Bool) : Env (SignedTx U S) (Dedup Id (Metered R)) :=
  chainEnv F (meteredRules M producing K) base

/-- Transactions are pushed one after the other, and none of them throws. -/
def pushAll : List (Push U S) → DbM (SignedTx U S) (Dedup Id (Metered R)) Unit
  | []      => pure ()
  | p :: ps => do
      pushTransaction (meteredEnv F M K base p.producing) p.tx p.skip
      pushAll ps

/-- **Nobody is charged** for any of the transactions, each on the node that the ones before have left. -/
def NobodyCharged : List (Push U S) → Database (SignedTx U S) (Dedup Id (Metered R)) → Prop
  | [],      _  => True
  | p :: ps, db =>
      ¬ M.Charges db.state.core.bare p.tx ∧
        NobodyCharged ps (after (pushTransaction (meteredEnv F M K base p.producing) p.tx p.skip) db)

end Pushes

variable {U S Id R : Type} [DecidableEq Id] {F : TxFormat U Id} {M : Meter U S R} {K : TxRules U S R}
  {base : Env (SignedTx U S) (Metered R)} {db db' node : Database (SignedTx U S) (Dedup Id (Metered R))}

/-- The meters of a node. -/
def meters (db : Database (SignedTx U S) (Dedup Id (Metered R))) : AccountName → Bandwidth :=
  db.state.core.ledger.rest.bandwidth

/-- The deduplication index of a node. -/
def txIndex (db : Database (SignedTx U S) (Dedup Id R)) : List (Id × Nat) := db.state.core.ledger.index

/-- **What pushed transactions leave behind.** -/
structure Pushed (F : TxFormat U Id) (txs : List (SignedTx U S))
    (db db' : Database (SignedTx U S) (Dedup Id (Metered R))) : Prop where
  opened  : PendingOpen db'
  fin     : db'.state.fin = db.state.fin
  pending : db'.pendingTx = db.pendingTx ++ txs
  index   : ∃ rows, db'.txIndex = db.txIndex ++ rows ∧ ∀ row ∈ rows, row.1 ∈ txs.map fun tx => F.id tx.unsigned
  grown   : Grown db.meters db'.meters

theorem openPendingSession_state {Tx L : Type} (db : Database Tx L) : db.openPendingSession.state = db.state := by
  unfold openPendingSession
  split <;> rfl

theorem openPendingSession_pendingTx {Tx L : Type} (db : Database Tx L) :
    db.openPendingSession.pendingTx = db.pendingTx := by
  unfold openPendingSession
  split <;> rfl

/-- One transaction: its row, and a charge unless nobody pays. -/
theorem pushTransaction_pushed {p : Push U S} (hopen : PendingOpen db)
    (h : pushTransaction (meteredEnv F M K base p.producing) p.tx p.skip db = .ok ⟨⟩ db') :
    Pushed F [p.tx] db db' ∧
      (M.Charges db.state.core.bare p.tx → ∃ a, (db.meters a).lifetime < (db'.meters a).lifetime) ∧
      (¬ M.Charges db.state.core.bare p.tx → db'.meters = db.meters) := by
  rcases pushTransaction_cases (meteredEnv F M K base p.producing) hopen p.tx p.skip with ⟨e, he⟩ | ⟨c, hc, hok⟩
  · rw [he] at h
    cases h
  · obtain rfl := (EStateM.Result.ok.inj (hok.symm.trans h)).2
    rw [openPendingSession_state] at hc
    obtain ⟨edits, hledger, -⟩ := Core.runLedger_still hc
    obtain ⟨⟨rows, hrows, hids⟩, hmetered⟩ := applyDeduped_rows hledger
    have hcharge := metered_charges hmetered
    refine ⟨?_, ?_, ?_⟩
    · constructor
      · exact pendingOpen_openPendingSession hopen
      · show db.openPendingSession.state.fin = _
        rw [openPendingSession_state]
      · show db.openPendingSession.pendingTx ++ [p.tx] = _
        rw [openPendingSession_pendingTx]
      · exact ⟨rows, hrows, fun row hrow => by simp [hids row hrow]⟩
      · exact chargeAccounts_grown hcharge
    · intro hc
      exact chargeAccounts_charged hc hcharge
    · intro hc
      exact chargeAccounts_free hc hcharge

/-- **All of them**: the meters are as they were if and only if nobody was charged. -/
theorem pushAll_pushed {pushes : List (Push U S)} (hopen : PendingOpen db)
    (h : pushAll F M K base pushes db = .ok ⟨⟩ db') :
    Pushed F (pushes.map (·.tx)) db db' ∧ (db'.meters = db.meters ↔ NobodyCharged F M K base pushes db) := by
  induction pushes generalizing db with
  | nil =>
      obtain rfl := (EStateM.Result.ok.inj h).2
      refine ⟨?_, ⟨fun _ => trivial, fun _ => rfl⟩⟩
      constructor
      · exact hopen
      · rfl
      · simp
      · exact ⟨[], by simp, fun row hrow => absurd hrow List.not_mem_nil⟩
      · exact refl_of Grown _
  | cons p ps ih =>
      obtain ⟨⟨⟩, d, hd, hrest⟩ := Prog.bind_eq_ok h
      obtain ⟨hfirst, hpays, hfree⟩ := pushTransaction_pushed hopen hd
      obtain ⟨hlast, hiff⟩ := ih hfirst.opened hrest
      obtain ⟨rows₁, hrows₁, hids₁⟩ := hfirst.index
      obtain ⟨rows₂, hrows₂, hids₂⟩ := hlast.index
      have hafter : after (pushTransaction (meteredEnv F M K base p.producing) p.tx p.skip) db = d := after_ok hd
      refine ⟨?_, ?_⟩
      · constructor
        · exact hlast.opened
        · rw [hlast.fin, hfirst.fin]
        · rw [hlast.pending, hfirst.pending, List.append_assoc]
          rfl
        · refine ⟨rows₁ ++ rows₂, by rw [hrows₂, hrows₁, List.append_assoc], fun row hrow => ?_⟩
          rcases List.mem_append.mp hrow with hrow | hrow
          · have := hids₁ row hrow
            simp only [List.map_cons, List.map_nil, List.mem_singleton] at this
            simp [this]
          · have := hids₂ row hrow
            simp only [List.map_cons, List.mem_cons]
            exact .inr this
        · exact trans_of Grown hfirst.grown hlast.grown
      · unfold NobodyCharged
        rw [hafter]
        constructor
        · intro hsame
          have hno : ¬ M.Charges db.state.core.bare p.tx := by
            intro hc
            obtain ⟨a, ha⟩ := hpays hc
            have hle := hlast.grown a
            rw [hsame] at hle
            exact absurd ha (Int.not_lt.mpr hle)
          refine ⟨hno, hiff.mp ?_⟩
          rw [hsame, hfree hno]
        · rintro ⟨hno, hrest⟩
          rw [hiff.mpr hrest, hfree hno]

/-! ## The result -/

/-- More transactions wait in the queue, which have not been executed. -/
def queue {Tx L : Type} (queued : List Tx) (db : Database Tx L) : Database Tx L :=
  { db with pendingTx := db.pendingTx ++ queued }

/-- The rows that are left out are those of the pending transactions, if none of them has been confirmed. -/
theorem confirmedRows_eq_iff {pending : List (SignedTx U S)} {old new : List (Id × Nat)}
    (hnew : ∀ row ∈ new, row.1 ∈ pending.map fun tx => F.id tx.unsigned) :
    confirmedRows F pending (old ++ new) = old ↔ ∀ tx ∈ pending, F.id tx.unsigned ∉ old.map Prod.fst := by
  have hgone : new.filter (fun row => decide (row.1 ∉ pending.map fun tx => F.id tx.unsigned)) = [] := by
    apply List.filter_eq_nil_iff.mpr
    intro row hrow
    simpa using hnew row hrow
  unfold confirmedRows
  rw [List.filter_append, hgone, List.append_nil, List.filter_eq_self]
  constructor
  · intro h tx htx hmem
    obtain ⟨row, hrow, hid⟩ := List.mem_map.mp hmem
    exact of_decide_eq_true (h row hrow) (List.mem_map.mpr ⟨tx, htx, hid.symm⟩)
  · intro h row hrow
    apply decide_eq_true
    intro hmem
    obtain ⟨tx, htx, hid⟩ := List.mem_map.mp hmem
    exact h tx htx (List.mem_map.mpr ⟨row, hrow, hid.symm⟩)

/-- **A snapshot is the state of the head block exactly if the pending transactions have left nothing behind.** The
    node is between two blocks, then transactions are pushed, and more of them are queued without being executed. The
    snapshot has the objects of the head block if and only if nobody was charged for a transaction, the operations
    together have left everything as it was, and no pending transaction is in a block already. -/
theorem snapshot_of_head_iff (pushes : List (Push U S)) (queued : List (SignedTx U S))
    (hidle : node.pendingTxSession = false) (hempty : node.pendingTx = [])
    (hpush : pushAll F M K base pushes node = .ok ⟨⟩ db) :
    createSnapshot F (db.queue queued) = headSnapshot node ↔
      NobodyCharged F M K base pushes node ∧ db.state.core.bare = node.state.core.bare ∧
        ∀ tx ∈ pushes.map (·.tx) ++ queued, F.id tx.unsigned ∉ node.txIndex.map Prod.fst := by
  have hopen : PendingOpen node := fun hp => absurd hp (by simp [hidle])
  obtain ⟨hpushed, hmeters⟩ := pushAll_pushed hopen hpush
  obtain ⟨rows, hrows, hids⟩ := hpushed.index
  have hpending : (db.queue queued).pendingTx = pushes.map (·.tx) ++ queued := by
    show db.pendingTx ++ queued = _
    rw [hpushed.pending, hempty, List.nil_append]
  have hindex : confirmedRows F (db.queue queued).pendingTx db.txIndex = node.txIndex ↔
      ∀ tx ∈ pushes.map (·.tx) ++ queued, F.id tx.unsigned ∉ node.txIndex.map Prod.fst := by
    rw [hpending, hrows]
    apply confirmedRows_eq_iff
    intro row hrow
    rw [List.map_append]
    exact List.mem_append_left _ (hids row hrow)
  rw [← hmeters, ← hindex]
  constructor
  · intro h
    have hcore : (createSnapshot F (db.queue queued)).core = node.state.core := congrArg StateSnapshot.core h
    have hbare : (createSnapshot F (db.queue queued)).core.bare = node.state.core.bare := congrArg Core.bare hcore
    exact ⟨congrArg (fun c => c.ledger.rest.bandwidth) hcore, hbare, congrArg (fun c => c.ledger.index) hcore⟩
  · rintro ⟨hmeters, hbare, hindex⟩
    have hcore : (createSnapshot F (db.queue queued)).core = node.state.core := core_ext hbare hindex hmeters
    have hparts : createSnapshot F (db.queue queued) =
        { blockNum := db.state.core.bare.headBlockNumber, blockId := db.state.core.bare.headBlockId
          core := (createSnapshot F (db.queue queued)).core, fin := db.state.fin } := rfl
    rw [hparts, hcore, hbare, hpushed.fin]
    rfl

end Database

/-! ## Samples -/

namespace Sample

/-- A balance, and transactions that pay one out of it until they expire. The first number tells them apart. -/
def walletFormat : TxFormat (Nat × Nat) (Nat × Nat) := ⟨fun u => u, Prod.snd, fun _ _ h => h⟩

def walletRules : TxRules (Nat × Nat) Unit Nat where
  validate _           := true
  verifyAuthority _ _  := true
  refBlockNum _        := 0
  refBlockPrefix _     := 0
  applyOperations _ c  :=
    match c.ledger with
    | 0     => .error 7
    | n + 1 => .ok ([], n)

/-- Account 7 pays for all of them. -/
def walletMeter : Meter (Nat × Nat) Unit Nat where
  size _                       := 100
  size_pos _                   := by decide
  required _                   := [7]
  dataOperations _             := 0
  hasAccount _ _               := true
  totalVestingShares _         := 1000
  effectiveVestingShares _ _   := 1000
  bandwidthReserveBelow _      := 0
  bandwidthReservePercent _    := 0
  bandwidthReserveCandidates _ := 1
  dataOperationsCost _         := 0

def walletBase : Env (SignedTx (Nat × Nat) Unit) (Metered Nat) where
  packSize _              := 100
  calculateMerkleRoot _   := 0
  sharedDbMerkle _        := none
  validateSignee b k      := decide (b.validatorSignature = k)
  hardforkTime _          := 0
  hardforkVersion _       := 0
  totalVestingShares _    := 1000
  isKnownTransaction _ _  := false
  applyTransaction _ _ c  := .ok ([], c.ledger)
  clearExpired c          := .ok ([], c.ledger)
  processFunds c          := .ok ([], c.ledger)
  migrate _ c             := .ok ([], c.ledger)
  pendingLimit            := 0

abbrev walletEnv (producing : Bool) : Env (SignedTx (Nat × Nat) Unit) (Dedup (Nat × Nat) (Metered Nat)) :=
  Database.meteredEnv walletFormat walletMeter walletRules walletBase producing

/-- The first block. -/
def walletFirst : SignedBlock (SignedTx (Nat × Nat) Unit) :=
  { previous := BlockId.zero, timestamp := 3, validator := 1, transactionMerkleRoot := 0, extensions := []
    validatorSignature := 1, transactions := [], hash := 1 }

/-- A node behind the first block, with a balance of two. -/
def walletHead : Database (SignedTx (Nat × Nat) Unit) (Dedup (Nat × Nat) (Metered Nat)) where
  chainbase            :=
    ⟨⟨{ core [validator 1 10, validator 2 20, validator 3 30, validator 4 40] [1, 2, 3, 4] with
        maxVirtualBandwidth := 10 ^ 12, ledger := ⟨[], ⟨fun _ => {}, 2⟩⟩ }, ⟨1, block1.id, 1, 0, []⟩, []⟩, [], 1⟩
  pendingTxSession     := false
  pendingTx            := []
  poppedTx             := []
  forkDb               := { index := [{ ptr := 0, data := walletFirst }], unlinkedIndex := []
                            head := some { ptr := 0, data := walletFirst }, nextPtr := 1 }
  blockLog             := [walletFirst]
  dltBlockLog          := []
  dltMode              := false
  dltBlockLogMaxBlocks := 0
  checkpoints          := []
  journal              := []

/-- A payment, until second 60. -/
def payOne : SignedTx (Nat × Nat) Unit := ⟨(1, 60), ()⟩

/-- The block that brings the payment. -/
def paying2 : SignedBlock (SignedTx (Nat × Nat) Unit) :=
  { previous := block1.id, timestamp := 6, validator := 3, transactionMerkleRoot := 0, extensions := []
    validatorSignature := 3, transactions := [payOne], hash := 2 }

/-- The payment is pending. -/
def walletPending : Database (SignedTx (Nat × Nat) Unit) (Dedup (Nat × Nat) (Metered Nat)) :=
  Prog.after (Database.pushAll walletFormat walletMeter walletRules walletBase [⟨payOne, Skip.nothing, true⟩])
    walletHead

/-- The balance after the block that brings the payment. -/
def balanceAfter (db : Database (SignedTx (Nat × Nat) Unit) (Dedup (Nat × Nat) (Metered Nat))) : Option Nat :=
  match Database.pushBlock (walletEnv false) paying2 Skip.nothing db with
  | .ok _ x    => some x.state.core.ledger.rest.rest
  | .error _ _ => none

end Sample

namespace Database

open Prog Sample

/-- A payment that has not been executed yet does not matter. -/
theorem snapshot_of_head_iff_sample :
    createSnapshot walletFormat (walletHead.queue [payOne]) = headSnapshot walletHead := by
  have hpush : pushAll walletFormat walletMeter walletRules walletBase [] walletHead = .ok ⟨⟩ walletHead := rfl
  apply (snapshot_of_head_iff [] [payOne] (by decide +kernel) (by decide +kernel) hpush).mpr
  refine ⟨trivial, rfl, ?_⟩
  decide +kernel

/-- **The payment is made twice**: the snapshot of the node where it is pending has it already, and not in the index.
    A node that loads this snapshot pays two when the block comes, all others pay one. -/
theorem payment_made_twice :
    walletPending.pendingTx = [payOne] ∧
    (createSnapshot walletFormat walletPending).blockId = walletHead.headBlockId ∧
    (createSnapshot walletFormat walletPending).core.ledger.index = [] ∧
    (createSnapshot walletFormat walletPending).core.ledger.rest.rest = 1 ∧
    (headSnapshot walletHead).core.ledger.rest.rest = 2 ∧
    balanceAfter walletPending = some 1 ∧
    balanceAfter (importState (createSnapshot walletFormat walletPending) walletHead) = some 0 := by
  decide +kernel

end Database

end VizNode
