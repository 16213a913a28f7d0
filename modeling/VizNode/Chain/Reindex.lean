import VizNode.Chain.Accepted
import VizNode.Chain.Bare

/-!
# `VizNode.Chain.Reindex` — rebuilding the state from a log

`reindex` and `reindex_from_dlt` apply the blocks of a log with ten checks switched off and without undo sessions.

A check that passed when the block was accepted passes again, so leaving it out changes nothing. **One of them also
writes**: with `skip_transaction_dupe_check` a transaction is not entered in the deduplication index. The rows of the
transactions that have not expired yet are missing from the rebuilt state, and the node takes a block that brings one of
them again.

## Contents
- **The functions.** `reindexDatabase`, `reindexFromDlt`, and `_validate_transaction` with its flags.
- **One block** on a node that is being rebuilt.
-/

namespace VizNode

/-! ## The functions -/

section Rules

variable {U S R : Type}

/-- What `_apply_transaction` is made of, besides the deduplication index and the expiration: `validate` of the
    operations, `verify_authority` with the list that excuses a missing one, the referenced block, and at last
    the bandwidth and the operations. -/
structure TxRules (U S R : Type) where
  validate        : SignedTx U S → Bool
  verifyAuthority : Core R → SignedTx U S → Bool
  refBlockNum     : U → Nat
  refBlockPrefix  : U → Nat
  applyOperations : SignedTx U S → Core R → Except Nat (List ValidatorEdit × R)

/-- The checks of `_validate_transaction` in front of the expiration. -/
def validateTransaction (K : TxRules U S R) (skip : Skip) (tx : SignedTx U S) (c : Core R) : Except Nat Unit :=
  if skip.validateOperations = false ∧ K.validate tx = false then .error 2
  else if skip.transactionSignatures = false ∧ skip.authorityCheck = false ∧ K.verifyAuthority c tx = false then .error 3
  else if 0 < c.headBlockNumber ∧ skip.taposCheck = false ∧
      K.refBlockPrefix tx.unsigned ≠ Database.refPrefix (c.blockSummary (K.refBlockNum tx.unsigned)) then .error 4
  else .ok ()

/-- The bare chain with these rules. -/
def bareEnv (K : TxRules U S R) (base : Env (SignedTx U S) R) : Env (SignedTx U S) R :=
  { base with
    applyTransaction := fun skip tx c => do
      validateTransaction K skip tx c
      K.applyOperations tx c }

/-- A check that is made and passes may as well be left out. -/
theorem validateTransaction_skipped {K : TxRules U S R} {tx : SignedTx U S} {c : Core R}
    (h : validateTransaction K Skip.nothing tx c = .ok ()) (skip : Skip) :
    validateTransaction K skip tx c = .ok () := by
  unfold validateTransaction at h ⊢
  by_cases h₁ : K.validate tx = false
  · rw [if_pos ⟨rfl, h₁⟩] at h
    cases h
  · rw [if_neg fun hc => h₁ hc.2] at h ⊢
    by_cases h₂ : K.verifyAuthority c tx = false
    · rw [if_pos ⟨rfl, rfl, h₂⟩] at h
      cases h
    · rw [if_neg fun hc => h₂ hc.2.2] at h ⊢
      by_cases h₃ : 0 < c.headBlockNumber ∧
          K.refBlockPrefix tx.unsigned ≠ Database.refPrefix (c.blockSummary (K.refBlockNum tx.unsigned))
      · rw [if_pos ⟨h₃.1, rfl, h₃.2⟩] at h
        cases h
      · rw [if_neg fun hc => h₃ ⟨hc.1, hc.2.2⟩]

end Rules

namespace Database

variable {Tx L : Type}

/-- `set_revision(head_block_num())`: not while there is something to undo. -/
def setRevision : DbM Tx L Unit := do
  let db ← get
  if db.chainbase.stack.isEmpty then set { db with chainbase := { db.chainbase with revision := db.headBlockNum } }
  else throw .databaseRevision

/-- A block of the log is applied. -/
def reindexBlock (env : Env Tx L) (num : Nat) (b : SignedBlock Tx) : DbM Tx L Unit := do
  applyBlock env b Skip.reindex
  if num % 1000 = 0 then setRevision

/-- The loop of `reindex`: `k` blocks from `num` on. -/
def reindexLoop (env : Env Tx L) (num : Nat) : Nat → DbM Tx L Unit
  | 0     => pure ()
  | k + 1 => do
      let db ← get
      match db.readBlockLog num with
      -- the source takes the block without looking whether there is one
      | none   => throw .unknownKey
      | some b => do
          reindexBlock env num b
          reindexLoop env (num + 1) k

/-- **`reindex`**: the last block is applied behind the loop. -/
def reindexDatabase (env : Env Tx L) (fromBlockNum : Nat) : DbM Tx L Unit := do
  modify (modifyForkDb ForkDatabase.reset)
  let db ← get
  match db.blockLog.getLast? with
  | none      => throw .blockLog
  | some head => do
      reindexLoop env fromBlockNum (head.blockNum - fromBlockNum)
      let db ← get
      match db.readBlockLog (fromBlockNum + (head.blockNum - fromBlockNum)) with
      | none   => throw .unknownKey
      | some b => do
          applyBlock env b Skip.reindex
          setRevision
          onForkDb (ForkDatabase.startBlock head)

/-- The loop of `reindex_from_dlt`, up to a block that is not found. -/
def reindexDltLoop (env : Env Tx L) (num : Nat) : Nat → DbM Tx L Unit
  | 0     => pure ()
  | k + 1 => do
      let db ← get
      match db.readDltBlockLog num with
      | none   => pure ()
      | some b => do
          reindexBlock env num b
          reindexDltLoop env (num + 1) k

/-- Does the first block of the rolling log link to the head? -/
def dltLinks (db : Database Tx L) : Bool :=
  match db.dltBlockLog.head? with
  | some b => decide (b.previous = db.headBlockId)
  | none   => true

/-- **`reindex_from_dlt`.** -/
def reindexFromDlt (env : Env Tx L) (fromBlockNum : Nat) : DbM Tx L Unit := do
  modify fun db => { db with dltMode := true }.modifyForkDb ForkDatabase.reset
  let db ← get
  match db.dltBlockLog.getLast? with
  | none      => throw .blockLog
  | some head =>
      let start := firstNum db.dltBlockLog
      if fromBlockNum < start ∧ db.dltLinks = false then pure ()
      else if head.blockNum < max fromBlockNum start then pure ()
      else do
        reindexDltLoop env (max fromBlockNum start) (head.blockNum + 1 - max fromBlockNum start)
        setRevision
        let db ← get
        match db.dltBlockLog.getLast? with
        | none      => pure ()
        | some head => onForkDb (ForkDatabase.startBlock head)

end Database

/-! ## Transactions without the check for duplicates -/

section Transactions

open Prog

variable {U S Id R : Type} [DecidableEq Id] {F : TxFormat U Id} {K : TxRules U S R} {base : Env (SignedTx U S) R}

/-- The chain with a deduplication index and these rules. -/
abbrev chainEnv (F : TxFormat U Id) (K : TxRules U S R) (base : Env (SignedTx U S) R) :
    Env (SignedTx U S) (Dedup Id R) := dedupEnv F (bareEnv K base)

/-- The row of a transaction in the index. -/
def TxFormat.row (F : TxFormat U Id) (tx : SignedTx U S) : Id × Nat := (F.id tx.unsigned, F.expiration tx.unsigned)

/-- What an accepted transaction does besides its row. -/
theorem applyDeduped_bare {skip : Skip} {tx : SignedTx U S} {c : Core (Dedup Id R)}
    {r : List ValidatorEdit × Dedup Id R} (h : applyDeduped F base skip tx c = .ok r) :
    (applyDeduped F base skip tx c).map (Prod.map id Dedup.rest) = base.applyTransaction skip tx c.withoutIndex := by
  unfold applyDeduped at h ⊢
  by_cases hdup : skip.transactionDupeCheck = false ∧ F.id tx.unsigned ∈ c.ledger.index.map Prod.fst
  · rw [if_pos hdup] at h
    cases h
  · rw [if_neg hdup] at h ⊢
    by_cases hwin : c.withinWindow (F.expiration tx.unsigned)
    · rw [if_neg (not_not.mpr hwin)]
      cases base.applyTransaction skip tx c.withoutIndex <;> rfl
    · rw [if_pos hwin] at h
      cases h

/-- Without the check a transaction leaves no row. -/
theorem applyDeduped_skipped {skip : Skip} (hskip : skip.transactionDupeCheck = true) {tx : SignedTx U S}
    {c : Core (Dedup Id R)} (hwin : c.withinWindow (F.expiration tx.unsigned)) {edits : List ValidatorEdit} {rest : R}
    (h : base.applyTransaction skip tx c.withoutIndex = .ok (edits, rest)) :
    applyDeduped F base skip tx c = .ok (edits, ⟨c.ledger.index, rest⟩) := by
  unfold applyDeduped
  rw [if_neg fun hc => Bool.noConfusion (hc.1.symm.trans hskip), if_neg (not_not.mpr hwin), h]
  simp [hskip, bind, Except.bind, pure, Except.pure]

/-- The checks of a transaction that was accepted with all of them. -/
theorem bareEnv_skipped {tx : SignedTx U S} {c : Core R} {r : List ValidatorEdit × R}
    (h : (bareEnv K base).applyTransaction Skip.nothing tx c = .ok r) (skip : Skip) :
    (bareEnv K base).applyTransaction skip tx c = .ok r := by
  obtain ⟨⟨⟩, hchecks, hops⟩ := except_bind_eq_ok h
  show (validateTransaction K skip tx c >>= fun _ => K.applyOperations tx c) = _
  rw [validateTransaction_skipped hchecks skip]
  exact hops

omit [DecidableEq Id] in
/-- The result of a stage on the bare chain comes from a result on the chain. -/
theorem bare_eq_ok {x : Except Exn (Core (Dedup Id R))} {c : Core R} (h : x.map Core.withoutIndex = .ok c) :
    ∃ d, x = .ok d ∧ d.withoutIndex = c := by
  cases x with
  | error e => cases h
  | ok d => exact ⟨d, rfl, Except.ok.inj h⟩

/-- **A transaction that was accepted with all checks** is accepted again without them, by a node that differs in
    nothing but its index. It has left a row, and leaves none now. -/
theorem transaction_twin {tx : SignedTx U S} {c c' d : Core (Dedup Id R)}
    (h : c.runLedger (chainEnv F K base) ((chainEnv F K base).applyTransaction Skip.nothing tx) = .ok c')
    (htwin : d.withoutIndex = c.withoutIndex) :
    c'.ledger.index = c.ledger.index ++ [F.row tx] ∧
    ∃ d', d.runLedger (chainEnv F K base)
        ((chainEnv F K base).applyTransaction Skip.reindex.forTransactions tx) = .ok d' ∧
      d'.withoutIndex = c'.withoutIndex ∧ d'.ledger.index = d.ledger.index := by
  obtain ⟨edits, hl, -⟩ := Core.runLedger_still h
  obtain ⟨-, hwin, hindex⟩ := applyDeduped_ok rfl hl
  refine ⟨hindex, ?_⟩
  -- the same transaction on the bare chain, with all checks and without
  have hbare : (bareEnv K base).applyTransaction Skip.nothing tx c.withoutIndex = .ok (edits, c'.ledger.rest) := by
    rw [← applyDeduped_bare hl]
    exact congrArg (Except.map (Prod.map id Dedup.rest)) hl
  have hagain := bareEnv_skipped hbare Skip.reindex.forTransactions
  have hlive : c.withoutIndex.runLedger (bareEnv K base) ((bareEnv K base).applyTransaction Skip.nothing tx) =
      .ok c'.withoutIndex := by
    rw [← Core.runLedger_bare (F := F) (applyDeduped_bare hl)]
    exact congrArg (Except.map Core.withoutIndex) h
  have hwin' : d.withoutIndex.withinWindow (F.expiration tx.unsigned) := by
    rw [htwin]
    exact hwin
  have hskipped : applyDeduped F (bareEnv K base) Skip.reindex.forTransactions tx d =
      .ok (edits, ⟨d.ledger.index, c'.ledger.rest⟩) :=
    applyDeduped_skipped rfl hwin' (htwin ▸ hagain)
  have hrun : (d.runLedger (chainEnv F K base)
      ((chainEnv F K base).applyTransaction Skip.reindex.forTransactions tx)).map Core.withoutIndex =
      .ok c'.withoutIndex := by
    rw [Core.runLedger_bare (f := (chainEnv F K base).applyTransaction Skip.reindex.forTransactions tx)
      (applyDeduped_bare hskipped), htwin, ← hlive]
    unfold Core.runLedger
    rw [hagain, hbare]
  obtain ⟨d', hd', htwin'⟩ := bare_eq_ok hrun
  obtain ⟨edits', hl', -⟩ := Core.runLedger_still hd'
  refine ⟨d', hd', htwin', ?_⟩
  have hledger := (Prod.mk.inj (Except.ok.inj (hskipped.symm.trans hl'))).2
  rw [← hledger]

/-- The transactions of a block. -/
theorem transactions_twin {txs : List (SignedTx U S)} {c c' d : Core (Dedup Id R)}
    (h : txs.foldlM (fun c tx => Core.runLedger (chainEnv F K base)
      ((chainEnv F K base).applyTransaction Skip.nothing tx) c) c = .ok c')
    (htwin : d.withoutIndex = c.withoutIndex) :
    c'.ledger.index = c.ledger.index ++ txs.map F.row ∧
    ∃ d', txs.foldlM (fun c tx => Core.runLedger (chainEnv F K base)
        ((chainEnv F K base).applyTransaction Skip.reindex.forTransactions tx) c) d = .ok d' ∧
      d'.withoutIndex = c'.withoutIndex ∧ d'.ledger.index = d.ledger.index := by
  induction txs generalizing c d with
  | nil =>
      obtain rfl := Except.ok.inj h
      exact ⟨(List.append_nil _).symm, d, rfl, htwin, rfl⟩
  | cons tx txs ih =>
      rw [List.foldlM_cons] at h
      obtain ⟨c₁, h₁, h⟩ := except_bind_eq_ok h
      obtain ⟨hrow, d₁, hd₁, htwin₁, hindex₁⟩ := transaction_twin h₁ htwin
      obtain ⟨hrows, d', hd', htwin', hindex'⟩ := ih h htwin₁
      refine ⟨?_, d', ?_, htwin', hindex'.trans hindex₁⟩
      · rw [hrows, hrow, List.append_assoc]
        rfl
      · rw [List.foldlM_cons, hd₁]
        exact hd'

end Transactions

/-! ## One block -/

namespace Core

open Prog

variable {Tx L : Type} {env : Env Tx L} {b : SignedBlock Tx} {c c' : Core L}

/-- The header of a block that was accepted passes the checks that are left. -/
theorem validateBlockHeader_reindex {skip : Skip} {u : Unit} (h : c.validateBlockHeader env skip b = .ok u) :
    c.validateBlockHeader env Skip.reindex b = .ok () := by
  unfold validateBlockHeader at h ⊢
  by_cases hp : c.headBlockId = b.previous
  · by_cases ht : b.timestamp ≤ c.time
    · simp [hp, ht, throw, throwThe, MonadExceptOf.throw, bind, Except.bind] at h
    · cases hw : c.getValidator b.validator with
      | error e => simp [hp, ht, hw, bind, Except.bind] at h
      | ok w => simp [hp, ht, Skip.reindex, bind, Except.bind, pure, Except.pure]
  · simp [hp, throw, throwThe, MonadExceptOf.throw, bind, Except.bind] at h

/-- The header of a block does the same, whatever was checked. -/
theorem openBlock_reindex {skip : Skip} (h : c.openBlock env skip b = .ok c') :
    c.openBlock env Skip.reindex b = .ok c' := by
  unfold openBlock at h ⊢
  obtain ⟨_, -, h⟩ := except_bind_eq_ok h
  obtain ⟨_, hv, h⟩ := except_bind_eq_ok h
  have hblock : c.validateBlock env Skip.reindex b = .ok () := rfl
  rw [hblock, validateBlockHeader_reindex hv]
  exact h

/-- The head moves the same way, if the node finds the block late or not as before and still has room to undo. -/
theorem updateGlobalDynamicData_lookups {skip skip' : Skip} {lib lib' : Nat} {time time' : Option Nat}
    (h : c.updateGlobalDynamicData env skip lib time b = .ok c') (hlate : b.late time' = b.late time)
    (hroom : u32Sub b.blockNum lib' < Config.maxUndoHistory) :
    c.updateGlobalDynamicData env skip' lib' time' b = .ok c' := by
  have hmissed : (if c.time ≠ 0 then c.getSlotAtTime b.timestamp - 1 else 0) = c.missed b := rfl
  obtain ⟨c₁, h₁, hc'⟩ := updateGlobalDynamicData_eq h
  have hslots : ¬ (c.time ≠ 0 ∧ c.getSlotAtTime b.timestamp = 0) := by
    intro hs
    unfold updateGlobalDynamicData at h
    dsimp only at h
    rw [if_pos hs] at h
    cases h
  have hundo : ¬ ((!skip'.undoHistoryCheck) = true ∧
      Config.maxUndoHistory ≤ u32Sub (c₁.moveHead env b (c.missed b)).headBlockNumber lib') :=
    fun hc => absurd hroom (not_lt.mpr hc.2)
  unfold updateGlobalDynamicData
  dsimp only
  rw [if_neg hslots, hmissed, h₁]
  show (if _ then _ else _) = _
  rw [if_neg hundo, emergencyDue_eq, hlate, ← emergencyDue_eq, hc']
  split <;> rfl

end Core

section Blocks

open Prog

variable {U S Id R : Type} [DecidableEq Id] {F : TxFormat U Id} {K : TxRules U S R} {base : Env (SignedTx U S) R}
  {b : SignedBlock (SignedTx U S)} {c c₁ c₂ c₃ d : Core (Dedup Id R)}

/-- The rows of the index that have not expired. -/
def unexpired (time : Nat) (rows : List (Id × Nat)) : List (Id × Nat) := rows.filter (fun p => !decide (p.2 < time))

/-- **Stage one** of an accepted block, on a node that differs in nothing but its index. -/
theorem beginBlock_twin {skip : Skip} {lib lib' : Nat} {time time' : Option Nat}
    (h : c.beginBlock (chainEnv F K base) skip lib time b = .ok c₁) (hskip : skip.forTransactions = Skip.nothing)
    (htwin : d.withoutIndex = c.withoutIndex) (hlate : b.late time' = b.late time)
    (hroom : u32Sub b.blockNum lib' < Config.maxUndoHistory) :
    (c.time < b.timestamp ∧ c₁.time = b.timestamp ∧
      c₁.ledger.index = c.ledger.index ++ b.transactions.map F.row) ∧
    ∃ d₁, d.beginBlock (chainEnv F K base) Skip.reindex lib' time' b = .ok d₁ ∧
      d₁.withoutIndex = c₁.withoutIndex ∧ d₁.ledger.index = d.ledger.index := by
  obtain ⟨o, ho, h⟩ := except_bind_eq_ok h
  obtain ⟨t, ht, h⟩ := except_bind_eq_ok h
  obtain ⟨g, hg, h⟩ := except_bind_eq_ok h
  obtain rfl := Except.ok.inj h
  obtain ⟨hlt, hstill⟩ := Core.openBlock_still ho
  -- the header
  have hopen : (d.openBlock (chainEnv F K base) Skip.reindex b).map Core.withoutIndex = .ok o.withoutIndex := by
    rw [Core.openBlock_bare, htwin, ← Core.openBlock_bare (F := F), Core.openBlock_reindex ho]
    rfl
  obtain ⟨o', ho', htwin₁⟩ := bare_eq_ok hopen
  have hindex₁ : o'.ledger.index = d.ledger.index := congrArg Dedup.index (Core.openBlock_still ho').2.ledger
  -- the transactions
  rw [hskip] at ht
  obtain ⟨hrows, t', ht', htwin₂, hindex₂⟩ := transactions_twin ht htwin₁
  -- the dynamic global properties
  have hglobal : (t'.updateGlobalDynamicData (chainEnv F K base) Skip.reindex lib' time' b).map Core.withoutIndex =
      .ok g.withoutIndex := by
    rw [Core.updateGlobalDynamicData_bare, htwin₂, ← Core.updateGlobalDynamicData_bare (F := F),
      Core.updateGlobalDynamicData_lookups hg hlate hroom]
    rfl
  obtain ⟨g', hg', htwin₃⟩ := bare_eq_ok hglobal
  obtain ⟨htime, hledger⟩ := Core.updateGlobalDynamicData_still hg
  have hindex₃ : g'.ledger.index = t'.ledger.index :=
    congrArg Dedup.index (Core.updateGlobalDynamicData_still hg').2
  refine ⟨⟨hlt, htime, ?_⟩, g'.updateSigningValidator b, ?_, ?_, hindex₃.trans (hindex₂.trans hindex₁)⟩
  · show g.ledger.index = _
    rw [hledger, hrows, hstill.ledger]
  · unfold Core.beginBlock
    rw [ho']
    dsimp only [bind, Except.bind]
    rw [ht']
    dsimp only
    rw [hg']
    rfl
  · rw [Core.updateSigningValidator_bare, Core.updateSigningValidator_bare, htwin₃]

/-- **The stages behind it.** -/
theorem finish_twin (h₂ : c₁.finishSchedule (chainEnv F K base) b = .ok c₂)
    (h₃ : c₂.finishLedger (chainEnv F K base) = .ok c₃) {d₁ : Core (Dedup Id R)}
    (htwin : d₁.withoutIndex = c₁.withoutIndex) :
    c₃.time = c₁.time ∧ c₃.ledger.index = unexpired c₁.time c₁.ledger.index ∧
    ∃ d₂ d₃, d₁.finishSchedule (chainEnv F K base) b = .ok d₂ ∧ d₂.finishLedger (chainEnv F K base) = .ok d₃ ∧
      d₃.withoutIndex = c₃.withoutIndex ∧ d₃.ledger.index = unexpired c₁.time d₁.ledger.index := by
  obtain ⟨ht₂, hi₂⟩ := finishSchedule_index h₂
  have hs₃ := finishLedger_index h₃
  have hschedule : (d₁.finishSchedule (chainEnv F K base) b).map Core.withoutIndex = .ok c₂.withoutIndex := by
    rw [Core.finishSchedule_bare, htwin, ← Core.finishSchedule_bare (F := F), h₂]
    rfl
  obtain ⟨d₂, hd₂, htwin₂⟩ := bare_eq_ok hschedule
  have hledger : (d₂.finishLedger (chainEnv F K base)).map Core.withoutIndex = .ok c₃.withoutIndex := by
    rw [Core.finishLedger_bare, htwin₂, ← Core.finishLedger_bare (F := F), h₃]
    rfl
  obtain ⟨d₃, hd₃, htwin₃⟩ := bare_eq_ok hledger
  have htime : d₁.withoutIndex.time = c₁.withoutIndex.time := by rw [htwin]
  obtain ⟨-, hi₂'⟩ := finishSchedule_index hd₂
  refine ⟨hs₃.time.trans ht₂, hs₃.index.trans hi₂, d₂, d₃, hd₂, hd₃, htwin₃, ?_⟩
  rw [(finishLedger_index hd₃).index, hi₂']
  exact congrArg (fun time => unexpired time d₁.ledger.index) htime

end Blocks

/-! ## The node that is being rebuilt -/

namespace Database

open Prog

variable {Tx L : Type} {env : Env Tx L} {last : Nat} {node db x : Database Tx L} {b : SignedBlock Tx}

/-- **The log reaches up to block `last`**, and the rolling one is not going to be cut. -/
structure Stocked (last : Nat) (db : Database Tx L) : Prop where
  blockLog : db.dltMode = false → last ≤ lastNum db.blockLog
  rolling  : db.dltMode = true → 0 < lastNum db.dltBlockLog ∧ last ≤ lastNum db.dltBlockLog
  fits     : db.dltMode = true → 0 < db.dltBlockLogMaxBlocks → db.dltBlockLog.length ≤ db.dltBlockLogMaxBlocks * 2

/-- **The node while it is rebuilt**: the logs stay, there is nothing to undo, and no object waits for the
    confirmation of a block above `last`. -/
structure Rebuilding (last : Nat) (node db : Database Tx L) : Prop where
  blockLog    : db.blockLog = node.blockLog
  dltBlockLog : db.dltBlockLog = node.dltBlockLog
  dltMode     : db.dltMode = node.dltMode
  maxBlocks   : db.dltBlockLogMaxBlocks = node.dltBlockLogMaxBlocks
  checkpoints : db.checkpoints = node.checkpoints
  stack       : db.chainbase.stack = []
  objects     : ∀ o ∈ db.state.fin.confirmations, o.blockNum ≤ last

theorem Rebuilding.stocked (h : Rebuilding last node db) (hs : Stocked last node) : Stocked last db := by
  constructor
  · rw [h.dltMode, h.blockLog]
    exact hs.blockLog
  · rw [h.dltMode, h.dltBlockLog]
    exact hs.rolling
  · rw [h.dltMode, h.dltBlockLog, h.maxBlocks]
    exact hs.fits

/-- The node with another journal. -/
def withJournal (db : Database Tx L) (j : List (Event Tx)) : Database Tx L := { db with journal := j }

/-- Nothing is missing in the log, so nothing is written. -/
theorem writeIrreversible_stocked (hs : Stocked last db) (hlib : db.lib ≤ last) (skipLog : Bool) :
    ∃ j, writeIrreversible skipLog db = .ok ⟨⟩ (db.withJournal j) := by
  unfold writeIrreversible
  simp only [get_bind_run]
  cases skipLog with
  | true => exact ⟨db.journal, rfl⟩
  | false =>
      refine ⟨db.noteFinalizing.journal, ?_⟩
      cases hm : db.dltMode with
      | false =>
          have hlogged : db.logged = lastNum db.blockLog := by simp [logged, hm]
          have hnone : db.lib - db.logged = 0 := by
            rw [hlogged]
            exact Nat.sub_eq_zero_of_le (hlib.trans (hs.blockLog hm))
          rw [hnone]
          rfl
      | true =>
          obtain ⟨hpos, hreach⟩ := hs.rolling hm
          have hlogged : db.logged = lastNum db.dltBlockLog := by simp [logged, hm, hpos.ne']
          have hnone : db.lib - db.logged = 0 := by
            rw [hlogged]
            exact Nat.sub_eq_zero_of_le (hlib.trans hreach)
          rw [hnone]
          by_cases hmax : 0 < db.dltBlockLogMaxBlocks
          · have hkept : truncateDltBlockLog db.noteFinalizing = db.noteFinalizing := by
              unfold truncateDltBlockLog
              exact if_neg (not_lt.mpr (hs.fits hm hmax))
            simp only [hmax, if_true]
            show EStateM.Result.ok PUnit.unit (truncateDltBlockLog db.noteFinalizing) = _
            rw [hkept]
            rfl
          · simp only [hmax, if_false]
            rfl

/-- With nothing to undo, a commit does nothing. -/
theorem Rebuilding.commit (h : Rebuilding last node db) : db.commitIrreversible = db := by
  obtain ⟨⟨state, stack, revision⟩, _, _, _, _, _, _, _, _, _, _⟩ := db
  obtain rfl : stack = [] := h.stack
  rfl

theorem Rebuilding.journal (h : Rebuilding last node db) (j : List (Event Tx)) : Rebuilding last node (db.withJournal j) :=
  ⟨h.blockLog, h.dltBlockLog, h.dltMode, h.maxBlocks, h.checkpoints, h.stack, h.objects⟩

theorem Rebuilding.trim (h : Rebuilding last node db) : Rebuilding last node (trimForkDb db) :=
  ⟨h.blockLog, h.dltBlockLog, h.dltMode, h.maxBlocks, h.checkpoints, h.stack, h.objects⟩

theorem Rebuilding.identify (h : Rebuilding last node db) : Rebuilding last node db.setIrreversibleId := by
  refine ⟨h.blockLog, h.dltBlockLog, h.dltMode, h.maxBlocks, h.checkpoints, h.stack, ?_⟩
  show ∀ o ∈ (setFinalityId _ db.state.fin).confirmations, _
  rw [(setFinalityId_kept _ db.state.fin).1]
  exact h.objects

/-- Finality changes, and no object waits above `last` afterwards. -/
theorem Rebuilding.finality (h : Rebuilding last node db) {f : Finality → Finality}
    (hf : ∀ o ∈ (f db.state.fin).confirmations, o.blockNum ≤ last) : Rebuilding last node (db.modifyFinality f) :=
  ⟨h.blockLog, h.dltBlockLog, h.dltMode, h.maxBlocks, h.checkpoints, h.stack, hf⟩

/-- The core changes. -/
theorem Rebuilding.core (h : Rebuilding last node db) (c : Core L) :
    Rebuilding last node (db.modifyState fun s => { s with core := c }) :=
  ⟨h.blockLog, h.dltBlockLog, h.dltMode, h.maxBlocks, h.checkpoints, h.stack, h.objects⟩

theorem Rebuilding.notify (h : Rebuilding last node db) (before after : Bool) :
    Rebuilding last node (db.notifyEmergency before after) := by
  unfold notifyEmergency
  split
  · exact h
  · exact ⟨h.blockLog, h.dltBlockLog, h.dltMode, h.maxBlocks, h.checkpoints, h.stack, h.objects⟩

/-- **A raise** by confirmations. -/
theorem raiseIrreversible_rebuilding {o : ValidatorConfirmation} (hs : Stocked last node)
    (h : Rebuilding last node db) (ho : o.blockNum ≤ last) :
    ∃ x, raiseIrreversible o db = .ok ⟨⟩ x ∧ Rebuilding last node x ∧ x.state.core = db.state.core := by
  have hraised : Rebuilding last node (db.noteRaised o) :=
    ⟨h.blockLog, h.dltBlockLog, h.dltMode, h.maxBlocks, h.checkpoints, h.stack, h.objects⟩
  obtain ⟨j, hw⟩ := writeIrreversible_stocked (hraised.stocked hs) (show (db.noteRaised o).lib ≤ last from ho) false
  refine ⟨trimForkDb ((db.noteRaised o).withJournal j).setIrreversibleId, ?_, (hraised.journal j).identify.trim, rfl⟩
  have hrun : raiseIrreversible o db = (do
      writeIrreversible false
      modify setIrreversibleId
      modify trimForkDb : DbM Tx L PUnit) (db.noteRaised o).commitIrreversible := rfl
  rw [hrun, hraised.commit, bind_run, hw]
  rfl

/-- The objects of the blocks so far. -/
theorem checkConfirmations_rebuilding {os : List ValidatorConfirmation} (hs : Stocked last node)
    (h : Rebuilding last node db) (hos : ∀ o ∈ os, o.blockNum ≤ last) :
    ∃ x, checkConfirmations os db = .ok ⟨⟩ x ∧ Rebuilding last node x ∧ x.state.core = db.state.core := by
  induction os generalizing db with
  | nil => exact ⟨db, rfl, h, rfl⟩
  | cons o os ih =>
      have hrest : ∀ p ∈ os, p.blockNum ≤ last := fun p hp => hos p (List.mem_cons_of_mem _ hp)
      unfold checkConfirmations
      simp only [get_bind_run]
      by_cases hc : db.confirms o = true
      · obtain ⟨y, hy, hry, hcore⟩ := raiseIrreversible_rebuilding hs h (hos o List.mem_cons_self)
        have hremoved : Rebuilding last node (y.modifyFinality (removeConfirmation o)) :=
          hry.finality fun p hp => hry.objects p (List.mem_of_mem_erase hp)
        obtain ⟨x, hx, hrx, hcore'⟩ := ih hremoved hrest
        refine ⟨x, ?_, hrx, hcore'.trans hcore⟩
        rw [if_pos hc, bind_run, hy]
        exact hx
      · obtain ⟨x, hx, hrx, hcore'⟩ := ih h hrest
        refine ⟨x, ?_, hrx, hcore'⟩
        rw [if_neg hc]
        exact hx

/-- **The last irreversible block** of a block that is applied again. -/
theorem updateLastIrreversibleBlock_rebuilding {num : Nat} (hnum : db.state.core.nextIrreversible = .ok num)
    (h : Rebuilding last node db) :
    ∃ x, updateLastIrreversibleBlock Skip.reindex db = .ok ⟨⟩ x ∧ Rebuilding last node x ∧
      x.state.core = db.state.core := by
  have hraised : Rebuilding last node (db.raiseSupported num) := by
    unfold raiseSupported
    split
    · exact h.finality h.objects
    · exact h
  have hcore : (db.raiseSupported num).state.core = db.state.core := by
    unfold raiseSupported
    split <;> rfl
  have hrun : updateLastIrreversibleBlock Skip.reindex db = (do
      writeIrreversible true
      modify (fun x => if num = x.lib then x.setIrreversibleId else x)
      modify trimForkDb : DbM Tx L PUnit) (db.raiseSupported num).commitIrreversible := by
    unfold updateLastIrreversibleBlock raiseSupported
    simp only [get_bind_run, hnum]
    split <;> rfl
  rw [hrun, hraised.commit]
  by_cases hid : num = (db.raiseSupported num).lib
  · refine ⟨trimForkDb (db.raiseSupported num).setIrreversibleId, ?_, hraised.identify.trim, hcore⟩
    show EStateM.Result.ok PUnit.unit (trimForkDb (if _ then _ else _)) = _
    rw [if_pos hid]
  · refine ⟨trimForkDb (db.raiseSupported num), ?_, hraised.trim, hcore⟩
    show EStateM.Result.ok PUnit.unit (trimForkDb (if _ then _ else _)) = _
    rw [if_neg hid]

theorem onCore_run {f : Core L → Except Exn (Core L)} {c : Core L} (h : f db.state.core = .ok c) :
    onCore f db = .ok ⟨⟩ (db.modifyState fun s => { s with core := c }) := by
  unfold onCore
  simp only [get_bind_run, h]
  rfl

theorem checkBlockPostValidationChain_rebuilding (hs : Stocked last node) (h : Rebuilding last node db) :
    ∃ x, checkBlockPostValidationChain db = .ok ⟨⟩ x ∧ Rebuilding last node x ∧ x.state.core = db.state.core := by
  unfold checkBlockPostValidationChain
  simp only [get_bind_run]
  by_cases hem : db.inEmergency = true
  · rw [if_pos hem]
    exact ⟨db, rfl, h, rfl⟩
  · rw [if_neg hem]
    exact checkConfirmations_rebuilding hs h h.objects

/-- The object of the block is the newest one. -/
theorem Rebuilding.confirmable (h : Rebuilding last node db) {num : Nat} (hnum : num ≤ last) (id : BlockId)
    (account : AccountName) : Rebuilding last node (createBlockPostValidation num id account db) := by
  refine h.finality fun o ho => ?_
  rcases List.mem_append.mp ho with ho | ho
  · exact h.objects o (List.mem_of_mem_filter (List.mem_of_mem_drop ho))
  · rw [List.mem_singleton.mp ho]
    exact hnum

/-- The stages behind the head, one after the other. -/
theorem finishBlock_rebuilding {c₂ c₃ : Core L} {num : Nat} (active : Bool) (hs : Stocked last node)
    (h : Rebuilding last node db) (hnum : db.state.core.nextIrreversible = .ok num)
    (h₂ : db.state.core.finishSchedule env b = .ok c₂) (h₃ : c₂.finishLedger env = .ok c₃)
    (hlast : b.blockNum ≤ last) :
    ∃ x, finishBlock env Skip.reindex b active db = .ok ⟨⟩ x ∧ Rebuilding last node x ∧ x.state.core = c₃ := by
  obtain ⟨x₁, hx₁, r₁, hc₁⟩ := updateLastIrreversibleBlock_rebuilding hnum h
  have hx₂ : onCore (Core.finishSchedule env b) x₁ = .ok ⟨⟩ (x₁.modifyState fun s => { s with core := c₂ }) :=
    onCore_run (by rw [hc₁]; exact h₂)
  obtain ⟨x₃, hx₃⟩ : ∃ x₃, x₃ = (x₁.modifyState fun s => { s with core := c₂ }).notifyEmergency active
    c₂.emergencyConsensusActive := ⟨_, rfl⟩
  have hs₃ : x₃.state.core = c₂ := by
    rw [hx₃, notifyEmergency_state]
    rfl
  have hx₄ : onCore (Core.finishLedger env) x₃ = .ok ⟨⟩ (x₃.modifyState fun s => { s with core := c₃ }) :=
    onCore_run (by rw [hs₃]; exact h₃)
  have r₄ : Rebuilding last node (x₃.modifyState fun s => { s with core := c₃ }) :=
    (hx₃ ▸ (r₁.core c₂).notify active _).core c₃
  obtain ⟨x₅, hx₅, r₅, hc₅⟩ := checkBlockPostValidationChain_rebuilding hs r₄
  have hstages : finishStages env Skip.reindex b active db =
      .ok ⟨⟩ (createBlockPostValidation b.blockNum b.id b.validator x₅) := by
    unfold finishStages
    simp only [bind_run, hx₁, hx₂, modify_run]
    have hactive : (x₁.modifyState fun s => { s with core := c₂ }).state.core = c₂ := rfl
    rw [hactive, ← hx₃, hx₄]
    dsimp only
    rw [hx₅]
  have r₆ := r₅.confirmable hlast b.id b.validator
  refine ⟨(createBlockPostValidation b.blockNum b.id b.validator x₅).modifyRecord
    (fun r => { r with complete := true }), ?_, ?_, ?_⟩
  · unfold finishBlock
    rw [bind_run, hstages]
    rfl
  · exact ⟨r₆.blockLog, r₆.dltBlockLog, r₆.dltMode, r₆.maxBlocks, r₆.checkpoints, r₆.stack, r₆.objects⟩
  · exact hc₅

/-- **A block of the log is applied** as the stages of the core say. -/
theorem applyBlock_rebuilding {c₁ c₂ c₃ : Core L} {num : Nat} (hs : Stocked last node)
    (h : Rebuilding last node db) (hcp : node.checkpoints = [])
    (hb : db.state.core.beginBlock env Skip.reindex db.lib db.libTime b = .ok c₁)
    (hnum : c₁.nextIrreversible = .ok num) (h₂ : c₁.finishSchedule env b = .ok c₂)
    (h₃ : c₂.finishLedger env = .ok c₃) (hlast : b.blockNum ≤ last) :
    ∃ x, applyBlock env b Skip.reindex db = .ok ⟨⟩ x ∧ Rebuilding last node x ∧ x.state.core = c₃ := by
  have hskip : db.checkpointSkip b Skip.reindex = .ok Skip.reindex := by
    unfold checkpointSkip
    rw [h.checkpoints, hcp]
    rfl
  have hentered : Rebuilding last node (db.entered b Skip.reindex c₁) :=
    (⟨h.blockLog, h.dltBlockLog, h.dltMode, h.maxBlocks, h.checkpoints, h.stack, h.objects⟩ :
      Rebuilding last node (db.enterBlock b Skip.reindex db.libTime c₁)).notify _ _
  have hcore : (db.entered b Skip.reindex c₁).state.core = c₁ := by
    unfold entered
    rw [notifyEmergency_state]
    rfl
  obtain ⟨x, hx, hrx, hcx⟩ := finishBlock_rebuilding c₁.emergencyConsensusActive hs hentered
    (hcore.symm ▸ hnum) (hcore.symm ▸ h₂) h₃ hlast
  refine ⟨x, ?_, hrx, hcx⟩
  unfold applyBlock applyBlockStages
  simp only [get_bind_run, hskip, hb]
  exact hx

end Database

end VizNode
