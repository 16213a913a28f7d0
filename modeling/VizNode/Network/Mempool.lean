import Mathlib.Data.List.Sort
import VizNode.Network.Sync

/-!
# `VizNode.Network.Mempool` — two indexes and a counter

The transactions the network layer keeps to relay: a map by id, a multimap by expiration, and the bytes of all of them
in 32 bits. Seven operations change the three by hand.

**The indexes always agree**, and the counter always agrees with the sizes modulo 2^32 (`Indexed`). It is the sum of
the sizes as long as this sum fits: the counter is compared with the limit before the new transaction is added, so a
limit close to 2^32 is passed by an addition that wraps (`wraps`). With limits that leave room for one more
transaction below 2^32 this does not happen (`roomy_of_limits`).

## Contents
- **The mempool** and its operations.
- **Actions.** `step`, `Run`.
- **The invariant.** `Indexed`, kept by the insertion and the two removals, and so by everything.
- **The representation.** `Faithful`, and `mempool_faithful`.
-/

namespace VizNode

namespace Network

/-- `transaction_id_type`. -/
abbrev TransactionId := Nat

/-- What the mempool reads of a `signed_transaction`; `packSize` is its `fc::raw::pack_size`. -/
structure Transaction where
  id             : TransactionId
  expiration     : Nat
  refBlockNum    : Nat
  refBlockPrefix : Nat
  packSize       : Nat
deriving DecidableEq, Repr, Inhabited

/-- `dlt_mempool_entry`. -/
structure MempoolEntry where
  trx           : Transaction
  isProvisional : Bool
deriving DecidableEq, Repr, Inhabited

/-- `set_mempool_limits`. -/
structure MempoolLimits where
  maxTx              : UInt32 := 10000
  maxBytes           : UInt32 := 100 * 1024 * 1024
  maxTxSize          : UInt32 := 64 * 1024
  maxExpirationHours : UInt32 := 24
deriving DecidableEq, Repr

/-- **The mempool** of the node. -/
structure Mempool where
  byId       : Table TransactionId MempoolEntry := .empty
  /-- `_mempool_by_expiry`, in the order of the multimap. -/
  byExpiry   : List (Nat × TransactionId) := []
  totalBytes : UInt32 := 0
  nodeStatus : NodeStatus := .sync

/-- What `add_to_mempool` did: a refusal can strike the sender, a new transaction can be relayed. -/
inductive AddResult where
  | refused (strike : Bool)
  | added (relay : Bool)
deriving DecidableEq, Repr

/-- `insert` of a multimap: behind all entries with the same key. -/
def insertByKey (l : List (Nat × TransactionId)) (e : Nat × TransactionId) : List (Nat × TransactionId) :=
  l.orderedInsert (fun x y => x.1 < y.1) e

/-- `estimated_size`, and the size that `add_to_mempool` counts. -/
def Transaction.estimatedSize (trx : Transaction) : UInt32 := UInt32.ofNat trx.packSize

namespace Mempool

/-! ## Operations -/

-- `check_tapos_block_summary` of the delegate, and the limits
variable (check : Nat → Nat → Bool) (cfg : MempoolLimits)

/-- `is_tapos_valid`. -/
def isTaposValid (trx : Transaction) : Bool := decide (trx.refBlockNum = 0) || check trx.refBlockNum trx.refBlockPrefix

/-- `is_mempool_full`. -/
def isMempoolFull (p : Mempool) : Bool :=
  decide (cfg.maxTx.toNat ≤ p.byId.keys.length) || decide (cfg.maxBytes ≤ p.totalBytes)

/-- An entry leaves by its id: the counter, the one entry of the multimap, and the map. -/
def remove (p : Mempool) (id : TransactionId) : Mempool :=
  { p with
    totalBytes := p.totalBytes - (p.byId.row id).trx.estimatedSize
    byExpiry   := p.byExpiry.erase ((p.byId.row id).trx.expiration, id)
    byId       := p.byId.erase id }

/-- The first entry of the multimap leaves, and what the map has for it. -/
def removeFirst (p : Mempool) : Mempool :=
  match p.byExpiry with
  | []             => p
  | (_, id) :: rest =>
    if id ∈ p.byId.keys then
      { p with
        totalBytes := p.totalBytes - (p.byId.row id).trx.estimatedSize
        byId       := p.byId.erase id
        byExpiry   := rest }
    else { p with byExpiry := rest }

/-- `evict_oldest_expiry_mempool_entries`. -/
def evictOldestExpiry : Nat → Mempool → Mempool
  | 0,         p => p
  | count + 1, p => if p.byExpiry = [] then p else evictOldestExpiry count p.removeFirst

/-- The checks of `add_to_mempool` before it makes room: `some` when one fails, with the strike for the sender. -/
def refusal (now : Nat) (p : Mempool) (trx : Transaction) : Option Bool :=
  if trx.id ∈ p.byId.keys then some false
  else if trx.expiration < now then some true
  else if now + 3600 * cfg.maxExpirationHours.toNat < trx.expiration then some true
  else if cfg.maxTxSize < trx.estimatedSize then some true
  else if isTaposValid check trx then none
  else some false

/-- A full mempool gives up the entry that expires first. -/
def makeRoom (p : Mempool) : Mempool := if p.isMempoolFull cfg then evictOldestExpiry 1 p else p

/-- The new entry, in all three. -/
def insertEntry (p : Mempool) (trx : Transaction) : Mempool :=
  { p with
    byId       := p.byId.insert trx.id { trx := trx, isProvisional := decide (p.nodeStatus = .sync) }
    byExpiry   := insertByKey p.byExpiry (trx.expiration, trx.id)
    totalBytes := p.totalBytes + trx.estimatedSize }

/-- **`add_to_mempool`** for a transaction of ours, or of a peer. -/
def addToMempool (now : Nat) (fromPeer : Bool) (sender : PeerId) (p : Mempool) (trx : Transaction) :
    AddResult × Mempool :=
  match refusal check cfg now p trx with
  | some strike => (.refused (strike && fromPeer && decide (sender ≠ 0)), p)
  | none =>
    if (p.makeRoom cfg).isMempoolFull cfg then (.refused false, p.makeRoom cfg)
    else (.added (fromPeer && decide (sender ≠ 0)), (p.makeRoom cfg).insertEntry trx)

/-- `remove_transactions_in_block`, for the ids of its transactions. -/
def removeTransactionsInBlock (p : Mempool) (ids : List TransactionId) : Mempool :=
  ids.foldl (fun p id => if id ∈ p.byId.keys then p.remove id else p) p

/-- `prune_mempool_on_fork_switch`. -/
def pruneMempoolOnForkSwitch (p : Mempool) : Mempool :=
  p.byId.keys.foldl (fun p id => if isTaposValid check (p.byId.row id).trx then p else p.remove id) p

/-- What expired is removed; the multimap has at most so many entries. -/
def pruneExpired (now : Nat) : Nat → Mempool → Mempool
  | 0,     p => p
  | n + 1, p =>
    match p.byExpiry with
    | []     => p
    | e :: _ => if now ≤ e.1 then p else pruneExpired now n p.removeFirst

/-- `periodic_mempool_cleanup`. -/
def periodicMempoolCleanup (now : Nat) (p : Mempool) : Mempool :=
  let p := pruneExpired now p.byExpiry.length p
  if p.nodeStatus = .forward then p.pruneMempoolOnForkSwitch check else p

/-- One provisional entry is judged again. -/
def revalidate (p : Mempool) (id : TransactionId) : Mempool :=
  if (p.byId.row id).isProvisional then
    if isTaposValid check (p.byId.row id).trx then
      { p with byId := p.byId.modify id (fun e => { e with isProvisional := false }) }
    else p.remove id
  else p

/-- `transition_to_forward`, as far as the mempool goes. -/
def transitionToForward (p : Mempool) : Mempool :=
  if p.nodeStatus = .forward then p
  else p.byId.keys.foldl (revalidate check) { p with nodeStatus := .forward }

/-- `transition_to_sync`. -/
def transitionToSync (p : Mempool) : Mempool := { p with nodeStatus := .sync }

/-! ## Actions -/

/-- What is done with the mempool. -/
inductive Action where
  | add (now : Nat) (trx : Transaction) (fromPeer : Bool) (sender : PeerId)
  | block (ids : List TransactionId)
  | forkSwitch
  | evict (count : Nat)
  | cleanup (now : Nat)
  | forward
  | sync
deriving DecidableEq, Repr

/-- **An action**, with what the chain says of TaPoS at that time. -/
def step (p : Mempool) : Action → Mempool
  | .add now trx fromPeer sender => (addToMempool check cfg now fromPeer sender p trx).2
  | .block ids                   => p.removeTransactionsInBlock ids
  | .forkSwitch                  => p.pruneMempoolOnForkSwitch check
  | .evict count                 => evictOldestExpiry count p
  | .cleanup now                 => p.periodicMempoolCleanup check now
  | .forward                     => p.transitionToForward check
  | .sync                        => p.transitionToSync

/-- The sizes of what is stored, added up. -/
def storedBytes (p : Mempool) : Nat := (p.byId.keys.map (fun id => (p.byId.row id).trx.packSize)).sum

/-- **When the counter does not wrap**: a transaction that is added leaves the sizes below 2^32. -/
def Roomy (p : Mempool) : Action → Prop
  | .add now trx _ _ =>
    refusal check cfg now p trx = none → (p.makeRoom cfg).isMempoolFull cfg = false →
      (p.makeRoom cfg).storedBytes + trx.packSize < 2 ^ 32
  | _ => True

/-- **A run** of actions that all meet a condition; what the chain says of TaPoS changes from action to action. -/
inductive Run (ok : (Nat → Nat → Bool) → Mempool → Action → Prop) : Mempool → Mempool → Prop
  | nil (p : Mempool) : Run ok p p
  | snoc {p p' : Mempool} (a : Action) (check : Nat → Nat → Bool) (hr : Run ok p p') (ha : ok check p' a) :
      Run ok p (p'.step check cfg a)

/-! ## The invariant -/

/-- **The indexes agree**: for each transaction of the map one entry of the multimap and no other, in order, and the
    counter is the sum of the sizes modulo 2^32. -/
structure Indexed (p : Mempool) : Prop where
  indexed : p.byExpiry.Perm (p.byId.keys.map (fun id => ((p.byId.row id).trx.expiration, id)))
  sorted  : p.byExpiry.Pairwise (fun x y => x.1 ≤ y.1)
  counted : p.totalBytes = UInt32.ofNat p.storedBytes

variable {check cfg} {p p' : Mempool} {id : TransactionId} {trx : Transaction}

section Lists

variable {l : List (Nat × TransactionId)} {e : Nat × TransactionId}

theorem insertByKey_perm : (insertByKey l e).Perm (e :: l) := List.perm_orderedInsert _ _ _

theorem insertByKey_sorted (h : l.Pairwise (fun x y => x.1 ≤ y.1)) :
    (insertByKey l e).Pairwise (fun x y => x.1 ≤ y.1) := by
  unfold insertByKey
  induction l with
  | nil => exact List.pairwise_singleton _ e
  | cons x l ih =>
      obtain ⟨hx, hl⟩ := List.pairwise_cons.mp h
      rw [List.orderedInsert_cons]
      by_cases hlt : e.1 < x.1
      · -- the new entry comes first
        rw [if_pos hlt, List.pairwise_cons]
        refine ⟨?_, h⟩
        intro y hy
        rcases List.mem_cons.mp hy with rfl | hy
        · exact hlt.le
        · exact hlt.le.trans (hx y hy)
      · rw [if_neg hlt, List.pairwise_cons]
        refine ⟨?_, ih hl⟩
        intro y hy
        rcases (List.mem_orderedInsert _).mp hy with rfl | hy
        · exact not_lt.mp hlt
        · exact hx y hy

end Lists

/-- The entry of the multimap that belongs to an id. -/
def entryOf (p : Mempool) (id : TransactionId) : Nat × TransactionId := ((p.byId.row id).trx.expiration, id)

theorem entryOf_injective : Function.Injective p.entryOf := fun _ _ h => congrArg Prod.snd h

/-- What is stored without one id. -/
theorem storedBytes_erase (hid : id ∈ p.byId.keys) :
    p.storedBytes = ((p.byId.keys.erase id).map (fun j => (p.byId.row j).trx.packSize)).sum +
      (p.byId.row id).trx.packSize := by
  unfold storedBytes
  rw [((List.perm_cons_erase hid).map _).sum_nat, List.map_cons, List.sum_cons, add_comm]

/-- **An entry that leaves by its id.** -/
theorem Indexed.remove (h : Indexed p) (hid : id ∈ p.byId.keys) : Indexed (p.remove id) := by
  refine ⟨?_, h.sorted.sublist List.erase_sublist, ?_⟩
  · have hperm : (p.byExpiry.erase (p.entryOf id)).Perm ((p.byId.keys.map p.entryOf).erase (p.entryOf id)) :=
      h.indexed.erase _
    rw [← List.map_erase entryOf_injective] at hperm
    exact hperm
  · show p.totalBytes - _ = _
    rw [h.counted, storedBytes_erase hid, UInt32.ofNat_add]
    exact UInt32.add_sub_cancel _ _

/-- What `storedBytes` becomes with a new entry. -/
theorem storedBytes_insertEntry (hid : trx.id ∉ p.byId.keys) :
    (p.insertEntry trx).storedBytes = p.storedBytes + trx.packSize := by
  have hkeys : (p.insertEntry trx).byId.keys = p.byId.keys ++ [trx.id] := Table.insert_keys hid
  have hnew : ((p.insertEntry trx).byId.row trx.id).trx = trx :=
    congrArg MempoolEntry.trx (Table.insert_row_self hid)
  have hold : p.byId.keys.map (fun j => ((p.insertEntry trx).byId.row j).trx.packSize) =
      p.byId.keys.map (fun j => (p.byId.row j).trx.packSize) := by
    apply List.map_congr_left
    intro j hj
    exact congrArg (fun e => e.trx.packSize) (Table.insert_row_of_mem hid hj)
  unfold storedBytes
  rw [hkeys, List.map_append, List.sum_append, List.map_singleton, List.sum_singleton, hnew, hold]

/-- **A new entry.** -/
theorem Indexed.insertEntry (h : Indexed p) (hid : trx.id ∉ p.byId.keys) : Indexed (p.insertEntry trx) := by
  have hkeys : (p.insertEntry trx).byId.keys = p.byId.keys ++ [trx.id] := Table.insert_keys hid
  have hnew : ((p.insertEntry trx).byId.row trx.id).trx = trx :=
    congrArg MempoolEntry.trx (Table.insert_row_self hid)
  have hold : p.byId.keys.map (p.insertEntry trx).entryOf = p.byId.keys.map p.entryOf := by
    apply List.map_congr_left
    intro j hj
    exact congrArg (fun e => (e.trx.expiration, j)) (Table.insert_row_of_mem hid hj)
  constructor
  · show (insertByKey p.byExpiry _).Perm ((p.insertEntry trx).byId.keys.map (p.insertEntry trx).entryOf)
    rw [hkeys, List.map_append, hold, List.map_singleton]
    unfold entryOf
    rw [hnew]
    refine insertByKey_perm.trans ?_
    refine .trans (.cons _ h.indexed) ?_
    exact (List.perm_append_singleton _ _).symm
  · exact insertByKey_sorted h.sorted
  · show p.totalBytes + _ = _
    rw [storedBytes_insertEntry hid, h.counted, UInt32.ofNat_add]
    rfl

/-- **The first entry of the multimap belongs to the map**, so it leaves as by its id. -/
theorem Indexed.removeFirst_eq {e : Nat × TransactionId} {rest : List (Nat × TransactionId)} (h : Indexed p)
    (hfirst : p.byExpiry = e :: rest) : e.2 ∈ p.byId.keys ∧ p.removeFirst = p.remove e.2 := by
  have hmem : e ∈ p.byId.keys.map p.entryOf := by
    apply h.indexed.mem_iff.mp
    rw [hfirst]
    exact List.mem_cons_self
  obtain ⟨id, hid, rfl⟩ := List.mem_map.mp hmem
  refine ⟨hid, ?_⟩
  unfold Mempool.removeFirst Mempool.remove
  rw [hfirst]
  show (if id ∈ p.byId.keys then _ else _) = _
  rw [if_pos hid]
  show _ = Mempool.mk _ ((p.entryOf id :: rest).erase (p.entryOf id)) _ _
  rw [List.erase_cons_head]
  rfl

/-! ## Removals -/

/-- **Only removals lie between**: the indexes still agree, and there is no more than before. -/
structure Shrunk (p p' : Mempool) : Prop where
  indexed : Indexed p → Indexed p'
  count   : p'.byId.keys.length ≤ p.byId.keys.length
  bytes   : p'.storedBytes ≤ p.storedBytes

theorem Shrunk.refl : Shrunk p p := ⟨id, le_rfl, le_rfl⟩

theorem Shrunk.trans {p₁ p₂ p₃ : Mempool} (h : Shrunk p₁ p₂) (h' : Shrunk p₂ p₃) : Shrunk p₁ p₃ :=
  ⟨fun hi => h'.indexed (h.indexed hi), h'.count.trans h.count, h'.bytes.trans h.bytes⟩

theorem remove_shrunk (hid : id ∈ p.byId.keys) : Shrunk p (p.remove id) := by
  refine ⟨fun h => h.remove hid, List.length_erase_le, ?_⟩
  rw [storedBytes_erase hid]
  exact Nat.le_add_right _ _

theorem removeFirst_shrunk (h : Indexed p) : Shrunk p p.removeFirst := by
  cases hfirst : p.byExpiry with
  | nil =>
      unfold removeFirst
      rw [hfirst]
      exact .refl
  | cons e rest =>
      obtain ⟨hid, heq⟩ := h.removeFirst_eq hfirst
      rw [heq]
      exact remove_shrunk hid

theorem evictOldestExpiry_shrunk {count : Nat} (h : Indexed p) : Shrunk p (evictOldestExpiry count p) := by
  induction count generalizing p with
  | zero => exact .refl
  | succ count ih =>
      unfold evictOldestExpiry
      by_cases hempty : p.byExpiry = []
      · rw [if_pos hempty]
        exact .refl
      · rw [if_neg hempty]
        have hfirst := removeFirst_shrunk h
        exact hfirst.trans (ih (hfirst.indexed h))

theorem makeRoom_shrunk (h : Indexed p) : Shrunk p (p.makeRoom cfg) := by
  unfold makeRoom
  by_cases hfull : p.isMempoolFull cfg
  · rw [if_pos hfull]
    exact evictOldestExpiry_shrunk h
  · rw [if_neg hfull]
    exact .refl

theorem pruneExpired_shrunk {now n : Nat} (h : Indexed p) : Shrunk p (pruneExpired now n p) := by
  induction n generalizing p with
  | zero => exact .refl
  | succ n ih =>
      unfold pruneExpired
      cases hfirst : p.byExpiry with
      | nil => exact .refl
      | cons e rest =>
          show Shrunk p (if now ≤ e.1 then p else pruneExpired now n p.removeFirst)
          by_cases hnow : now ≤ e.1
          · rw [if_pos hnow]
            exact .refl
          · rw [if_neg hnow]
            have hremoved := removeFirst_shrunk h
            exact hremoved.trans (ih (hremoved.indexed h))

theorem removeTransactionsInBlock_shrunk {ids : List TransactionId} : Shrunk p (p.removeTransactionsInBlock ids) := by
  unfold removeTransactionsInBlock
  induction ids generalizing p with
  | nil => exact .refl
  | cons id ids ih =>
      rw [List.foldl_cons]
      refine .trans ?_ ih
      by_cases hid : id ∈ p.byId.keys
      · rw [if_pos hid]
        exact remove_shrunk hid
      · rw [if_neg hid]
        exact .refl

/-- **A loop over all ids**: each is still there in its turn when its predecessors took nothing but themselves. -/
theorem foldl_shrunk {f : Mempool → TransactionId → Mempool} {ids : List TransactionId}
    (hf : ∀ q id, id ∈ q.byId.keys → Shrunk q (f q id) ∧ ∀ j ∈ q.byId.keys, j ≠ id → j ∈ (f q id).byId.keys)
    (hids : ids.Nodup) (hmem : ∀ id ∈ ids, id ∈ p.byId.keys) : Shrunk p (ids.foldl f p) := by
  induction ids generalizing p with
  | nil => exact .refl
  | cons id ids ih =>
      obtain ⟨hnot, hids⟩ := List.nodup_cons.mp hids
      obtain ⟨hone, hothers⟩ := hf p id (hmem id List.mem_cons_self)
      rw [List.foldl_cons]
      refine hone.trans (ih hids ?_)
      intro j hj
      apply hothers j (hmem j (List.mem_cons_of_mem id hj))
      intro he
      exact hnot (he ▸ hj)

theorem mem_remove_keys {j : TransactionId} (hj : j ∈ p.byId.keys) (hne : j ≠ id) : j ∈ (p.remove id).byId.keys :=
  Table.mem_erase_keys.mpr ⟨hne, hj⟩

theorem pruneMempoolOnForkSwitch_shrunk : Shrunk p (p.pruneMempoolOnForkSwitch check) := by
  unfold pruneMempoolOnForkSwitch
  refine foldl_shrunk ?_ p.byId.nodup (fun _ hid => hid)
  intro q id hid
  by_cases hvalid : isTaposValid check (q.byId.row id).trx
  · rw [if_pos hvalid]
    exact ⟨.refl, fun _ hj _ => hj⟩
  · rw [if_neg hvalid]
    exact ⟨remove_shrunk hid, fun _ hj hne => mem_remove_keys hj hne⟩

theorem periodicMempoolCleanup_shrunk {now : Nat} (h : Indexed p) : Shrunk p (p.periodicMempoolCleanup check now) := by
  unfold periodicMempoolCleanup
  have hexpired : Shrunk p (pruneExpired now p.byExpiry.length p) := pruneExpired_shrunk h
  by_cases hforward : (pruneExpired now p.byExpiry.length p).nodeStatus = .forward
  · rw [if_pos hforward]
    exact hexpired.trans pruneMempoolOnForkSwitch_shrunk
  · rw [if_neg hforward]
    exact hexpired

/-- An entry that is only marked. -/
theorem modify_shrunk {f : MempoolEntry → MempoolEntry} (hf : ∀ e, (f e).trx = e.trx) :
    Shrunk p { p with byId := p.byId.modify id f } := by
  have htrx : ∀ j, ((p.byId.modify id f).row j).trx = (p.byId.row j).trx := by
    intro j
    by_cases hj : j = id
    · rw [hj, Table.modify_row_self, hf]
    · rw [Table.modify_row_of_ne hj]
  have hbytes : Mempool.storedBytes { p with byId := p.byId.modify id f } = p.storedBytes := by
    unfold storedBytes
    simp only [htrx, Table.modify_keys]
  refine ⟨?_, le_rfl, hbytes.le⟩
  intro h
  refine ⟨?_, h.sorted, h.counted.trans (congrArg UInt32.ofNat hbytes.symm)⟩
  simp only [htrx, Table.modify_keys]
  exact h.indexed

theorem transitionToForward_shrunk : Shrunk p (p.transitionToForward check) := by
  unfold transitionToForward
  by_cases hforward : p.nodeStatus = .forward
  · rw [if_pos hforward]
    exact .refl
  rw [if_neg hforward]
  have hmarked : Shrunk p { p with nodeStatus := .forward } := ⟨fun h => ⟨h.indexed, h.sorted, h.counted⟩, le_rfl, le_rfl⟩
  refine hmarked.trans (foldl_shrunk ?_ p.byId.nodup (fun _ hid => hid))
  intro q id hid
  unfold revalidate
  by_cases hprovisional : (q.byId.row id).isProvisional
  · rw [if_pos hprovisional]
    by_cases hvalid : isTaposValid check (q.byId.row id).trx
    · rw [if_pos hvalid]
      exact ⟨modify_shrunk fun _ => rfl, fun _ hj _ => hj⟩
    · rw [if_neg hvalid]
      exact ⟨remove_shrunk hid, fun _ hj hne => mem_remove_keys hj hne⟩
  · rw [if_neg hprovisional]
    exact ⟨.refl, fun _ hj _ => hj⟩

/-! ## The representation -/

/-- **What the mempool should be**: the indexes agree, the counter is the sum of the sizes, and the limits are kept. -/
structure Faithful (cfg : MempoolLimits) (p : Mempool) : Prop where
  indexed : p.byExpiry.Perm (p.byId.keys.map (fun id => ((p.byId.row id).trx.expiration, id)))
  bytes   : p.totalBytes.toNat = p.storedBytes
  count   : p.byId.keys.length ≤ cfg.maxTx.toNat
  room    : p.totalBytes.toNat < cfg.maxBytes.toNat + cfg.maxTxSize.toNat

/-- **What every action keeps.** -/
structure Bounded (cfg : MempoolLimits) (p : Mempool) : Prop where
  indexed : Indexed p
  fits    : p.storedBytes < 2 ^ 32
  count   : p.byId.keys.length ≤ cfg.maxTx.toNat
  room    : p.storedBytes < cfg.maxBytes.toNat + cfg.maxTxSize.toNat

theorem Indexed.toNat_totalBytes (h : Indexed p) (hfits : p.storedBytes < 2 ^ 32) :
    p.totalBytes.toNat = p.storedBytes := by
  rw [h.counted, UInt32.toNat_ofNat']
  exact Nat.mod_eq_of_lt hfits

theorem Bounded.faithful (h : Bounded cfg p) : Faithful cfg p :=
  have hbytes := h.indexed.toNat_totalBytes h.fits
  ⟨h.indexed.indexed, hbytes, h.count, hbytes ▸ h.room⟩

theorem Bounded.shrunk (h : Bounded cfg p) (hs : Shrunk p p') : Bounded cfg p' :=
  ⟨hs.indexed h.indexed, hs.bytes.trans_lt h.fits, hs.count.trans h.count, hs.bytes.trans_lt h.room⟩

theorem empty_indexed : Indexed {} := ⟨.refl _, .nil, rfl⟩

/-- What passes the checks is new and not too large. -/
theorem refusal_eq_none {now : Nat} (h : refusal check cfg now p trx = none) :
    trx.id ∉ p.byId.keys ∧ trx.estimatedSize ≤ cfg.maxTxSize := by
  unfold refusal at h
  by_cases hid : trx.id ∈ p.byId.keys
  · rw [if_pos hid] at h
    cases h
  rw [if_neg hid] at h
  by_cases hexpired : trx.expiration < now
  · rw [if_pos hexpired] at h
    cases h
  rw [if_neg hexpired] at h
  by_cases hfar : now + 3600 * cfg.maxExpirationHours.toNat < trx.expiration
  · rw [if_pos hfar] at h
    cases h
  rw [if_neg hfar] at h
  by_cases hlarge : cfg.maxTxSize < trx.estimatedSize
  · rw [if_pos hlarge] at h
    cases h
  exact ⟨hid, UInt32.not_lt.mp hlarge⟩

/-- Making room takes no new ids in. -/
theorem mem_keys_of_makeRoom {j : TransactionId} (h : Indexed p) (hj : j ∈ (p.makeRoom cfg).byId.keys) :
    j ∈ p.byId.keys := by
  unfold makeRoom at hj
  by_cases hfull : p.isMempoolFull cfg
  · rw [if_pos hfull] at hj
    unfold evictOldestExpiry at hj
    cases hfirst : p.byExpiry with
    | nil =>
        rw [if_pos hfirst] at hj
        exact hj
    | cons e rest =>
        rw [if_neg (by rw [hfirst]; exact List.cons_ne_nil e rest)] at hj
        rw [(h.removeFirst_eq hfirst).2] at hj
        exact (Table.mem_erase_keys.mp hj).2
  · rw [if_neg hfull] at hj
    exact hj

/-- **What `add_to_mempool` leaves**: what was there, or room, or room and the transaction. -/
theorem addToMempool_cases {now : Nat} {fromPeer : Bool} {sender : PeerId} (h : Indexed p) :
    (addToMempool check cfg now fromPeer sender p trx).2 = p ∨
    (addToMempool check cfg now fromPeer sender p trx).2 = p.makeRoom cfg ∨
    refusal check cfg now p trx = none ∧ (p.makeRoom cfg).isMempoolFull cfg = false ∧
      trx.id ∉ (p.makeRoom cfg).byId.keys ∧ trx.estimatedSize ≤ cfg.maxTxSize ∧
      (addToMempool check cfg now fromPeer sender p trx).2 = (p.makeRoom cfg).insertEntry trx := by
  unfold addToMempool
  cases hrefusal : refusal check cfg now p trx with
  | some strike => exact .inl rfl
  | none =>
      obtain ⟨hnew, hsize⟩ := refusal_eq_none hrefusal
      cases hfull : (p.makeRoom cfg).isMempoolFull cfg with
      | true => exact .inr (.inl rfl)
      | false => exact .inr (.inr ⟨rfl, rfl, fun hid => hnew (mem_keys_of_makeRoom h hid), hsize, rfl⟩)

/-- **The indexes agree after every action.** -/
theorem Indexed.step {a : Action} (h : Indexed p) : Indexed (p.step check cfg a) := by
  cases a with
  | add now trx fromPeer sender =>
      show Indexed (addToMempool check cfg now fromPeer sender p trx).2
      have hroom : Indexed (p.makeRoom cfg) := (makeRoom_shrunk h).indexed h
      rcases addToMempool_cases h with hp | hp | ⟨-, -, hid, -, hp⟩
      · rw [hp]
        exact h
      · rw [hp]
        exact hroom
      · rw [hp]
        exact hroom.insertEntry hid
  | block ids => exact removeTransactionsInBlock_shrunk.indexed h
  | forkSwitch => exact pruneMempoolOnForkSwitch_shrunk.indexed h
  | evict count => exact (evictOldestExpiry_shrunk h).indexed h
  | cleanup now => exact (periodicMempoolCleanup_shrunk h).indexed h
  | forward => exact transitionToForward_shrunk.indexed h
  | sync => exact ⟨h.indexed, h.sorted, h.counted⟩

/-- **The indexes agree in every run**, whatever the limits. -/
theorem Run.indexed {ok : (Nat → Nat → Bool) → Mempool → Action → Prop} (hr : Run cfg ok p p') (h : Indexed p) :
    Indexed p' := by
  induction hr with
  | nil => exact h
  | snoc a check _ _ ih => exact ih.step

/-- **An addition keeps the bounds**: the mempool was not full, and the transaction is not too large. -/
theorem Bounded.insertEntry (h : Bounded cfg p) (hfull : p.isMempoolFull cfg = false) (hid : trx.id ∉ p.byId.keys)
    (hsize : trx.estimatedSize ≤ cfg.maxTxSize) (hfits : p.storedBytes + trx.packSize < 2 ^ 32) :
    Bounded cfg (p.insertEntry trx) := by
  simp only [isMempoolFull, Bool.or_eq_false_iff, decide_eq_false_iff_not] at hfull
  obtain ⟨hcount, hbytes⟩ := hfull
  have hkeys : (p.insertEntry trx).byId.keys = p.byId.keys ++ [trx.id] := Table.insert_keys hid
  have htotal : p.totalBytes.toNat < cfg.maxBytes.toNat := UInt32.lt_iff_toNat_lt.mp (UInt32.not_le.mp hbytes)
  rw [h.indexed.toNat_totalBytes h.fits] at htotal
  have hpacked : trx.estimatedSize.toNat = trx.packSize := by
    unfold Transaction.estimatedSize
    rw [UInt32.toNat_ofNat']
    apply Nat.mod_eq_of_lt
    omega
  have hsize : trx.packSize ≤ cfg.maxTxSize.toNat := hpacked ▸ UInt32.le_iff_toNat_le.mp hsize
  refine ⟨h.indexed.insertEntry hid, ?_, ?_, ?_⟩
  · rw [storedBytes_insertEntry hid]
    exact hfits
  · rw [hkeys, List.length_append, List.length_singleton]
    omega
  · rw [storedBytes_insertEntry hid]
    omega

/-- **An action keeps the bounds**, when an addition has room in the counter. -/
theorem Bounded.step {a : Action} (h : Bounded cfg p) (hroomy : Roomy check cfg p a) :
    Bounded cfg (p.step check cfg a) := by
  cases a with
  | add now trx fromPeer sender =>
      show Bounded cfg (addToMempool check cfg now fromPeer sender p trx).2
      have hroom : Bounded cfg (p.makeRoom cfg) := h.shrunk (makeRoom_shrunk h.indexed)
      rcases addToMempool_cases h.indexed with hp | hp | ⟨hpassed, hfull, hid, hsize, hp⟩
      · rw [hp]
        exact h
      · rw [hp]
        exact hroom
      · rw [hp]
        exact hroom.insertEntry hfull hid hsize (hroomy hpassed hfull)
  | block ids => exact h.shrunk removeTransactionsInBlock_shrunk
  | forkSwitch => exact h.shrunk pruneMempoolOnForkSwitch_shrunk
  | evict count => exact h.shrunk (evictOldestExpiry_shrunk h.indexed)
  | cleanup now => exact h.shrunk (periodicMempoolCleanup_shrunk h.indexed)
  | forward => exact h.shrunk transitionToForward_shrunk
  | sync => exact ⟨⟨h.indexed.indexed, h.indexed.sorted, h.indexed.counted⟩, h.fits, h.count, h.room⟩

theorem Run.bounded (hr : Run cfg (fun check p a => Roomy check cfg p a) p p') (h : Bounded cfg p) :
    Bounded cfg p' := by
  induction hr with
  | nil => exact h
  | snoc a check _ hroomy ih => exact ih.step hroomy

/-- **The mempool is what it should be** after every run of actions in which no addition wraps the counter. -/
theorem mempool_faithful (hlimits : 0 < cfg.maxBytes.toNat + cfg.maxTxSize.toNat)
    (hr : Run cfg (fun check p a => Roomy check cfg p a) {} p) : Faithful cfg p := by
  have hempty : Bounded cfg {} := ⟨empty_indexed, by decide, Nat.zero_le _, hlimits⟩
  exact (hr.bounded hempty).faithful

/-- **Limits that leave room** for one more transaction below 2^32: the counter never wraps, for transactions whose
    size fits into 32 bits. -/
theorem roomy_of_limits {a : Action} (h : Bounded cfg p)
    (hlimits : cfg.maxBytes.toNat + cfg.maxTxSize.toNat ≤ 2 ^ 32)
    (ha : ∀ now trx fromPeer sender, a = .add now trx fromPeer sender → trx.packSize < 2 ^ 32) :
    Roomy check cfg p a := by
  cases a with
  | add now trx fromPeer sender =>
      intro hpassed hfull
      have hroom : Bounded cfg (p.makeRoom cfg) := h.shrunk (makeRoom_shrunk h.indexed)
      simp only [isMempoolFull, Bool.or_eq_false_iff, decide_eq_false_iff_not] at hfull
      have htotal : (p.makeRoom cfg).totalBytes.toNat < cfg.maxBytes.toNat :=
        UInt32.lt_iff_toNat_lt.mp (UInt32.not_le.mp hfull.2)
      rw [hroom.indexed.toNat_totalBytes hroom.fits] at htotal
      have hsize := UInt32.le_iff_toNat_le.mp (refusal_eq_none hpassed).2
      unfold Transaction.estimatedSize at hsize
      rw [UInt32.toNat_ofNat', Nat.mod_eq_of_lt (ha now trx fromPeer sender rfl)] at hsize
      omega
  | block _ => trivial
  | forkSwitch => trivial
  | evict _ => trivial
  | cleanup _ => trivial
  | forward => trivial
  | sync => trivial

end Mempool

namespace Sample

/-- Transactions of a mebibyte, without TaPoS. -/
def mebibyte (id : TransactionId) : Transaction where
  id             := id
  expiration     := 100
  refBlockNum    := 0
  refBlockPrefix := 0
  packSize       := 2 ^ 20

/-- As many bytes as the option can say, and transactions as large as a message. -/
def wideLimits : MempoolLimits := { maxBytes := 0xFFFFFFFF, maxTxSize := 0x200000 }

end Sample

namespace Mempool

open Sample

/-- One transaction comes in, and then a block with it. -/
theorem mempool_faithful_sample :
    Faithful wideLimits ((step (fun _ _ => true) wideLimits {} (.add 0 (mebibyte 7) false 0)).step (fun _ _ => true)
      wideLimits (.block [7])) := by
  apply mempool_faithful
  · decide
  · apply Run.snoc (.block [7]) (fun _ _ => true)
    · apply Run.snoc (.add 0 (mebibyte 7) false 0) (fun _ _ => true) (.nil _)
      intro _ _
      decide
    · trivial

/-- With the wide limits every new transaction of a mebibyte is added, up to 2^32 bytes. -/
theorem crowd {n : Nat} (hn : n ≤ 4096) :
    ∃ p, Run wideLimits (fun _ _ _ => True) {} p ∧ p.byId.keys = List.range n ∧ p.storedBytes = n * 2 ^ 20 := by
  induction n with
  | zero => exact ⟨{}, .nil _, rfl, rfl⟩
  | succ n ih =>
      obtain ⟨p, hr, hkeys, hbytes⟩ := ih (by omega)
      have hindexed : Indexed p := hr.indexed empty_indexed
      have htotal : p.totalBytes.toNat = n * 2 ^ 20 := by
        rw [hindexed.toNat_totalBytes (by omega), hbytes]
      have hid : (mebibyte n).id ∉ p.byId.keys := by
        rw [hkeys]
        exact List.not_mem_range_self
      have hfull : p.isMempoolFull wideLimits = false := by
        have hcount : ¬ wideLimits.maxTx.toNat ≤ p.byId.keys.length := by
          rw [hkeys, List.length_range]
          show ¬ 10000 ≤ n
          omega
        have hspace : ¬ wideLimits.maxBytes ≤ p.totalBytes := by
          rw [UInt32.le_iff_toNat_le, htotal]
          show ¬ 4294967295 ≤ n * 2 ^ 20
          omega
        simp [isMempoolFull, hcount, hspace]
      have hroom : p.makeRoom wideLimits = p := by simp [makeRoom, hfull]
      have hpassed : refusal (fun _ _ => true) wideLimits 0 p (mebibyte n) = none := by
        unfold refusal
        rw [if_neg hid]
        rfl
      have hadd : p.step (fun _ _ => true) wideLimits (.add 0 (mebibyte n) false 0) = p.insertEntry (mebibyte n) := by
        simp [step, addToMempool, hpassed, hroom, hfull]
      refine ⟨p.insertEntry (mebibyte n), ?_, ?_, ?_⟩
      · rw [← hadd]
        exact .snoc _ _ hr trivial
      · show (p.byId.insert (mebibyte n).id _).keys = _
        rw [Table.insert_keys hid, hkeys, List.range_succ]
        rfl
      · rw [storedBytes_insertEntry hid, hbytes]
        exact (Nat.succ_mul n (2 ^ 20)).symm

/-- **The counter wraps**: 4096 transactions of a mebibyte each are stored, and the counter is zero. -/
theorem counter_wraps :
    ∃ p, Run wideLimits (fun _ _ _ => True) {} p ∧ p.byId.keys.length = 4096 ∧ p.storedBytes = 2 ^ 32 ∧
      p.totalBytes = 0 ∧ ¬ Faithful wideLimits p := by
  obtain ⟨p, hr, hkeys, hbytes⟩ := crowd (le_refl 4096)
  have hzero : p.totalBytes = 0 := by
    rw [(hr.indexed empty_indexed).counted, hbytes]
    rfl
  refine ⟨p, hr, ?_, hbytes, hzero, ?_⟩
  · rw [hkeys, List.length_range]
  · intro h
    have hexact := h.bytes
    rw [hzero, hbytes] at hexact
    exact absurd hexact (by decide)

end Mempool

end Network

end VizNode
