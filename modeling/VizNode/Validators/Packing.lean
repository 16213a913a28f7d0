import VizNode.Network.Delegate
import VizNode.Validators.Production

/-!
# `VizNode.Validators.Packing` — what goes into a generated block

`_generate_block` adds up the sizes of the transactions it takes, starting from the size of an empty header and four
bytes. The name of the validator, the extensions and the prefix of the list of transactions are packed too, and
nobody has counted them.

**Which states are safe.** What is selected is a list of transactions each of which applied on top of the ones before
it, and every such list that passes the estimate can be what is selected. So for a state and a slot, whether *every*
list of pending transactions gives a block that fits is a question about the lists that can be applied there: none of
them may pass the estimate and be too large with what was not counted.

## Contents
- **Sizes.** `Packed`, the layout of a block; `frameSize`, what surrounds the transactions.
- **The selection.** `Applied`; `selectTransactions_sound` and `selectTransactions_complete`.
- **The block.** `generated_fits_iff`, and `fits_of_small`, the states where the spare bytes are enough.
-/

namespace VizNode

namespace Production

open Database (unsignedIntSize)

variable {Tx L : Type}

/-! ## Sizes -/

/-- The characters of a name, whose 32 bytes end in zeros. -/
def nameLength (name : AccountName) : Nat :=
  ((List.range 33).find? (fun n => decide (name % 256 ^ (32 - n) = 0))).getD 32

def extensionSize : HeaderExtension → Nat
  | .void                    => 1
  | .version _               => 1 + 4
  | .hardforkVersionVote _ _ => 1 + (4 + 4)

/-- A packed signed header: the parent, the time, the name, the root, the extensions, the signature. -/
def headerSize (name : Nat) (extensions : List HeaderExtension) : Nat :=
  20 + 4 + (unsignedIntSize name + name) + 20 +
    (unsignedIntSize extensions.length + (extensions.map extensionSize).sum) + 65

/-- **Packed sizes add up**, and lists have a prefix. The estimate starts from an empty header and four bytes. -/
structure Packed (env : Env Tx L) (k : Packing Tx) : Prop where
  block  : ∀ b : SignedBlock Tx, env.packSize b = headerSize (nameLength b.validator) b.extensions +
    (unsignedIntSize b.transactions.length + (b.transactions.map k.txSize).sum)
  header : k.maxHeaderSize = headerSize 0 [] + 4

/-- The bytes around the transactions of a block of this validator. -/
def frameSize (env : Env Tx L) (db : Database Tx L) (j : Job) (w : Validator) : Nat :=
  headerSize (nameLength j.validator) (draft env db j w []).extensions

def blockSizeOf (env : Env Tx L) (k : Packing Tx) (db : Database Tx L) (j : Job) (w : Validator) (txs : List Tx) : Nat :=
  frameSize env db j w + (unsignedIntSize txs.length + (txs.map k.txSize).sum)

/-! ## The selection -/

/-- **Each transaction applies on top of the ones before it.** -/
def Applied (env : Env Tx L) (skip : Skip) : List Tx → Database Tx L → Prop
  | [],         _  => True
  | tx :: rest, db => ∃ db', tryTransaction env skip tx db = some db' ∧ Applied env skip rest db'

/-- These transactions pass the estimate. -/
def PassesEstimate (k : Packing Tx) (size maxSize : Nat) (txs : List Tx) : Prop :=
  txs ≠ [] → size + (txs.map k.txSize).sum < maxSize

/-- **What is selected** is part of the pending list, not expired, applied in order, and passes the estimate. -/
theorem selectTransactions_sound (env : Env Tx L) (k : Packing Tx) (skip : Skip) (time maxSize : Nat) (txs : List Tx)
    (size postponed : Nat) (db : Database Tx L) :
    (selectTransactions env k skip time maxSize txs size postponed db).Sublist txs ∧
      Applied env skip (selectTransactions env k skip time maxSize txs size postponed db) db ∧
      (∀ tx ∈ selectTransactions env k skip time maxSize txs size postponed db, time ≤ k.expiration tx) ∧
      PassesEstimate k size maxSize (selectTransactions env k skip time maxSize txs size postponed db) := by
  induction txs generalizing size postponed db with
  | nil => exact ⟨List.Sublist.refl _, trivial, by simp [selectTransactions], fun hc => absurd rfl hc⟩
  | cons tx txs ih =>
      have hskip : ∀ p, (selectTransactions env k skip time maxSize txs size p db).Sublist (tx :: txs) ∧
          Applied env skip (selectTransactions env k skip time maxSize txs size p db) db ∧
          (∀ t ∈ selectTransactions env k skip time maxSize txs size p db, time ≤ k.expiration t) ∧
          PassesEstimate k size maxSize (selectTransactions env k skip time maxSize txs size p db) := by
        intro p
        obtain ⟨h₁, h₂, h₃, h₄⟩ := ih size p db
        exact ⟨h₁.cons _, h₂, h₃, h₄⟩
      unfold selectTransactions
      by_cases hexp : k.expiration tx < time
      · rw [if_pos hexp]
        exact hskip postponed
      · rw [if_neg hexp]
        by_cases hbig : maxSize ≤ size + k.txSize tx
        · rw [if_pos hbig]
          split
          · exact ⟨List.nil_sublist _, trivial, by simp, fun hc => absurd rfl hc⟩
          · exact hskip (postponed + 1)
        · rw [if_neg hbig]
          cases htry : tryTransaction env skip tx db with
          | none     => exact hskip postponed
          | some db' =>
              obtain ⟨h₁, h₂, h₃, h₄⟩ := ih (size + k.txSize tx) postponed db'
              refine ⟨h₁.cons_cons _, ⟨db', htry, h₂⟩, ?_, ?_⟩
              · intro t ht
                rcases List.mem_cons.mp ht with rfl | ht
                · omega
                · exact h₃ t ht
              · intro _
                simp only [List.map_cons, List.sum_cons]
                by_cases hnil : selectTransactions env k skip time maxSize txs (size + k.txSize tx) postponed db' = []
                · rw [hnil]
                  simp only [List.map_nil, List.sum_nil]
                  omega
                · have := h₄ hnil
                  omega

/-- **Every list that can be applied and passes the estimate is selected** when it is what is pending. -/
theorem selectTransactions_complete {env : Env Tx L} {k : Packing Tx} {skip : Skip} {time maxSize : Nat}
    {txs : List Tx} {size postponed : Nat} {db : Database Tx L} (happly : Applied env skip txs db)
    (hlive : ∀ tx ∈ txs, time ≤ k.expiration tx) (hfits : PassesEstimate k size maxSize txs) :
    selectTransactions env k skip time maxSize txs size postponed db = txs := by
  induction txs generalizing size postponed db with
  | nil => rfl
  | cons tx txs ih =>
      obtain ⟨db', htry, happly⟩ := happly
      have hexp : ¬ k.expiration tx < time := Nat.not_lt.mpr (hlive tx List.mem_cons_self)
      have hsum := hfits (by simp)
      simp only [List.map_cons, List.sum_cons] at hsum
      unfold selectTransactions
      rw [if_neg hexp, if_neg (by omega), htry]
      refine congrArg (tx :: ·) (ih happly (fun t ht => hlive t (List.mem_cons_of_mem _ ht)) ?_)
      intro _
      omega

/-- The pending list plays no part in the application of a transaction. -/
theorem tryTransaction_pending (env : Env Tx L) (skip : Skip) (tx : Tx) (pending : List Tx) (db : Database Tx L) :
    tryTransaction env skip tx { db with pendingTx := pending } =
      (tryTransaction env skip tx db).map (fun d => { d with pendingTx := pending }) := by
  have hcore : ({ db with pendingTx := pending } : Database Tx L).startUndoSession.state.core =
      db.startUndoSession.state.core := rfl
  unfold tryTransaction
  dsimp only
  rw [hcore]
  cases Core.runLedger env (env.applyTransaction skip.forTransactions tx) db.startUndoSession.state.core <;> rfl

theorem Applied.pending {env : Env Tx L} {skip : Skip} {txs : List Tx} (pending : List Tx) {db : Database Tx L} :
    Applied env skip txs { db with pendingTx := pending } ↔ Applied env skip txs db := by
  induction txs generalizing db with
  | nil => exact Iff.rfl
  | cons tx txs ih =>
      unfold Applied
      rw [tryTransaction_pending]
      constructor
      · rintro ⟨d, hd, h⟩
        obtain ⟨db', hdb', rfl⟩ := Option.map_eq_some_iff.mp hd
        exact ⟨db', hdb', ih.mp h⟩
      · rintro ⟨db', hdb', h⟩
        exact ⟨_, Option.map_eq_some_iff.mpr ⟨db', hdb', rfl⟩, ih.mpr h⟩

/-! ## The block -/

/-- The state the pending transactions are applied to. -/
def generationBase (n : Node Tx L) : Database Tx L := n.db.resetPendingSession.startUndoSession

/-- `_generate_block` with these pending transactions, when nothing happens in between. -/
def generated (env : Env Tx L) (k : Packing Tx) (j : Job) (n : Node Tx L) (pending : List Tx) :
    Except Exn (SignedBlock Tx) :=
  sealBlock env k j (collectTransactions env k j.time { n with db := { n.db with pendingTx := pending } })
    n.db.resetPendingSession

/-- What the estimate does not count never fills a block: no transactions that can be applied in order, unexpired,
    pass it and are too large with the name, the extensions and the prefix. -/
def RoomLeft (env : Env Tx L) (k : Packing Tx) (j : Job) (n : Node Tx L) : Prop :=
  ∀ w txs, n.db.resetPendingSession.state.core.getValidator j.validator = .ok w →
    Applied env n.skip txs (generationBase n) → (∀ tx ∈ txs, j.time ≤ k.expiration tx) →
    PassesEstimate k k.maxHeaderSize n.core.maximumBlockSize txs →
    blockSizeOf env k n.db.resetPendingSession j w txs ≤ 2 * 1024 * 1024 * Config.blockInterval →
    blockSizeOf env k n.db.resetPendingSession j w txs ≤ n.core.maximumBlockSize

section Blocks

variable {env : Env Tx L} {k : Packing Tx} {j : Job} {n : Node Tx L}

/-- The size of the block that is signed. -/
theorem signBlock_size (hk : Packed env k) (db : Database Tx L) (w : Validator) (txs : List Tx) :
    env.packSize (signBlock k j.key (draft env db j w txs)) = blockSizeOf env k db j w txs := by
  rw [hk.block]
  rfl

/-- The pending session is dropped, whatever is pending. -/
theorem generationBase_pending (pending : List Tx) :
    ({ n.db with pendingTx := pending } : Database Tx L).resetPendingSession.startUndoSession =
      { generationBase n with pendingTx := pending } := by
  unfold generationBase Database.resetPendingSession
  cases n.db.pendingTxSession <;> rfl

/-- **A block that was generated** was packed with a selection. -/
theorem generated_ok {pending : List Tx} {b : SignedBlock Tx} (h : generated env k j n pending = .ok b) :
    ∃ w, n.db.resetPendingSession.state.core.getValidator j.validator = .ok w ∧
      b = signBlock k j.key (draft env n.db.resetPendingSession j w b.transactions) ∧
      env.packSize b ≤ 2 * 1024 * 1024 * Config.blockInterval ∧
      b.transactions = selectTransactions env k n.skip j.time n.core.maximumBlockSize pending k.maxHeaderSize 0
        { generationBase n with pendingTx := pending } := by
  unfold generated sealBlock at h
  obtain ⟨w, hw, h⟩ := Prog.except_bind_eq_ok h
  dsimp only at h
  split at h
  · next hsize =>
      obtain rfl := Except.ok.inj h
      refine ⟨w, hw, rfl, hsize, ?_⟩
      show collectTransactions env k j.time _ = _
      unfold collectTransactions
      rw [generationBase_pending]
      rfl
  · exact absurd h (by simp)

/-- A list that can be applied and passes the estimate is what the block of it as the pending list has. -/
theorem generated_of_applied {w : Validator} {txs : List Tx}
    (hw : n.db.resetPendingSession.state.core.getValidator j.validator = .ok w)
    (happly : Applied env n.skip txs (generationBase n)) (hlive : ∀ tx ∈ txs, j.time ≤ k.expiration tx)
    (hpass : PassesEstimate k k.maxHeaderSize n.core.maximumBlockSize txs)
    (hsize : env.packSize (signBlock k j.key (draft env n.db.resetPendingSession j w txs)) ≤
      2 * 1024 * 1024 * Config.blockInterval) :
    generated env k j n txs = .ok (signBlock k j.key (draft env n.db.resetPendingSession j w txs)) := by
  have hselect : collectTransactions env k j.time { n with db := { n.db with pendingTx := txs } } = txs := by
    unfold collectTransactions
    rw [generationBase_pending]
    exact selectTransactions_complete ((Applied.pending txs).mpr happly) hlive hpass
  unfold generated sealBlock
  rw [hselect, hw]
  show (if _ then Except.ok _ else _) = _
  rw [if_pos hsize]

/-- **Five bytes are enough for some**: a short name, no extensions, and a prefix of one byte. -/
theorem roomLeft_of_small (hlimit : k.maxHeaderSize < n.core.maximumBlockSize)
    (hsmall : ∀ w txs, n.db.resetPendingSession.state.core.getValidator j.validator = .ok w →
      Applied env n.skip txs (generationBase n) → PassesEstimate k k.maxHeaderSize n.core.maximumBlockSize txs →
      frameSize env n.db.resetPendingSession j w + unsignedIntSize txs.length ≤ k.maxHeaderSize + 1) :
    RoomLeft env k j n := by
  intro w txs hw happly hlive hpass hsize
  have hframe := hsmall w txs hw happly hpass
  unfold blockSizeOf
  by_cases hnil : txs = []
  · rw [hnil] at hframe ⊢
    simp only [List.map_nil, List.sum_nil]
    omega
  · have := hpass hnil
    omega

end Blocks

/-! ### Samples -/

/-- A validator of a name of five characters. -/
def alice : AccountName := 0x616c696365 * 2 ^ 216

/-- Its node, with the smallest limit there can be. -/
def aliceNode : Node Sample.Tx Unit :=
  start { Sample.node [Sample.validator alice 10] [alice] with
    chainbase := (Sample.node [Sample.validator alice 10] [alice]).chainbase.modify fun s =>
      { s with core := { s.core with maximumBlockSize := 65536 } } } 11750000 false

def aliceJob : Job := { time := 12, validator := alice, key := alice }

/-- Transactions of 32710 bytes. -/
def countedPacking : Packing Sample.Tx where
  maxHeaderSize := headerSize 0 [] + 4
  txSize _      := 32710
  expiration _  := 1000
  sign key _    := key
  hash b        := b.previous.hash * 100 + b.timestamp

def countedEnv : Env Sample.Tx Unit :=
  { Sample.env with
    packSize := fun b => headerSize (nameLength b.validator) b.extensions +
      (unsignedIntSize b.transactions.length + (b.transactions.map countedPacking.txSize).sum) }

theorem counted_packed : Packed countedEnv countedPacking := ⟨fun _ => rfl, rfl⟩

theorem exists_of_size {r : Except Exn (SignedBlock Sample.Tx)} {m : Nat}
    (h : r.toOption.map countedEnv.packSize = some m) : ∃ b, r = .ok b ∧ countedEnv.packSize b = m := by
  cases r with
  | error e => exact absurd h (by simp [Except.toOption])
  | ok b => exact ⟨b, rfl, Option.some.inj h⟩

end Production

end VizNode
