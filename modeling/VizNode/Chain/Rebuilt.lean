import VizNode.Chain.Reindex

/-!
# `VizNode.Chain.Rebuilt` — is the rebuilt state the live one?

A node that rebuilds its state applies the blocks that were accepted live, in the same order, and two things outside the
chain state take part: the timestamp of the last irreversible block, for the emergency check, and its number, for the
limit of the undo history. Confirmations raise the last irreversible block, and they are not in the blocks.

**Where the answers agree, the rebuilt core is the live one but for the deduplication index** (`loop_twin`). The live
index has the rows of the transactions that have not expired, the rebuilt one has none of them. So the cores are equal
if and only if every transaction of the rebuilt blocks has expired (`rebuilt_equals_live`).

## Contents
- **What should hold.** `Coincide`: equal cores, and from then on the same blocks are accepted.
- **The loop** over the accepted blocks, for either log.
- **The result.** `rebuilt_equals_live`, and a transaction that is taken twice.
-/

namespace VizNode

/-! ## What should hold -/

/-- What a block is judged by besides the core: the last irreversible block, and its timestamp if it is asked for. -/
structure Look where
  lib     : Nat
  libTime : Option Nat
deriving DecidableEq, Repr

/-- Two nodes judge the same block, and both find it late or not, and both have room to undo it or not. -/
structure Alike {Tx : Type} (p q : SignedBlock Tx × Look) : Prop where
  block : p.1 = q.1
  late  : p.1.late p.2.libTime = p.1.late q.2.libTime
  room  : Config.maxUndoHistory ≤ u32Sub p.1.blockNum p.2.lib ↔ Config.maxUndoHistory ≤ u32Sub p.1.blockNum q.2.lib

namespace Core

variable {Tx L : Type} {env : Env Tx L}

/-- **A block is accepted**, with all checks. -/
def acceptBlock (env : Env Tx L) (b : SignedBlock Tx) (look : Look) (c : Core L) : Except Exn (Core L) := do
  let c ← c.beginBlock env Skip.nothing look.lib look.libTime b
  let _ ← c.nextIrreversible
  let c ← c.finishSchedule env b
  c.finishLedger env

/-- Block after block. -/
def acceptBlocks (env : Env Tx L) (l : List (SignedBlock Tx × Look)) (c : Core L) : Except Exn (Core L) :=
  l.foldlM (fun c p => c.acceptBlock env p.1 p.2) c

/-- **The rebuilt core is the live one**, and from then on the two nodes accept the same blocks, as long as the last
    irreversible block makes no difference. -/
structure Coincide (env : Env Tx L) (live rebuilt : Core L) : Prop where
  same   : rebuilt = live
  goesOn : ∀ l l' : List (SignedBlock Tx × Look), List.Forall₂ Alike l l' →
    live.acceptBlocks env l = rebuilt.acceptBlocks env l'

open Prog in
theorem acceptBlock_alike {p q : SignedBlock Tx × Look} (h : Alike p q) (c : Core L) :
    c.acceptBlock env p.1 p.2 = c.acceptBlock env q.1 q.2 := by
  have hglobal : ∀ d : Core L, d.updateGlobalDynamicData env Skip.nothing p.2.lib p.2.libTime p.1 =
      d.updateGlobalDynamicData env Skip.nothing q.2.lib q.2.libTime p.1 := by
    intro d
    -- what stands behind a throw is not looked at
    have hthrow : ∀ (e : Exn) (f g : PUnit → Except Exn (Core L)), (throw e >>= f) = (throw e >>= g) :=
      fun _ _ _ => rfl
    unfold updateGlobalDynamicData
    dsimp only
    refine if_congr Iff.rfl (hthrow _ _ _) (bind_congr fun e => ?_)
    refine if_congr (and_congr_right fun _ => h.room) (hthrow _ _ _) ?_
    rw [emergencyDue_eq, emergencyDue_eq, h.late]
  unfold acceptBlock beginBlock
  rw [← h.block]
  simp only [hglobal]

/-- Equal cores go on alike. -/
theorem acceptBlocks_alike {l l' : List (SignedBlock Tx × Look)} (h : List.Forall₂ Alike l l') (c : Core L) :
    c.acceptBlocks env l = c.acceptBlocks env l' := by
  induction h generalizing c with
  | nil => rfl
  | @cons p q l l' hpq _ ih =>
      unfold acceptBlocks at ih ⊢
      rw [List.foldlM_cons, List.foldlM_cons, acceptBlock_alike hpq]
      cases c.acceptBlock env q.1 q.2 with
      | error e => rfl
      | ok d => exact ih d

theorem coincide_iff {c d : Core L} : Coincide env c d ↔ d = c := by
  constructor
  · exact Coincide.same
  · rintro rfl
    exact ⟨rfl, fun l l' h => acceptBlocks_alike h _⟩

/-! ## The chain, oldest block first -/

/-- The oldest block of an accepted chain is accepted first. -/
theorem Accepted.oldest {c₀ c : Core L} {l : List (Entry Tx)} {r : Entry Tx} (h : Accepted env c₀ (l ++ [r]) c) :
    ∃ c₁, Accepted env c₀ [r] c₁ ∧ Accepted env c₁ l c := by
  induction l generalizing c with
  | nil => exact ⟨c, h, .start⟩
  | cons r' l ih =>
      cases h with
      | block h hskip hb hnum h₂ h₃ =>
          obtain ⟨c₁, hfirst, hrest⟩ := ih h
          exact ⟨c₁, hfirst, .block hrest hskip hb hnum h₂ h₃⟩

end Core

/-! ## The two indexes -/

section Twins

open Prog Core

variable {U S Id R : Type} [DecidableEq Id] {F : TxFormat U Id} {K : TxRules U S R} {base : Env (SignedTx U S) R}

omit [DecidableEq Id] in
theorem unexpired_append (t : Nat) (rows rows' : List (Id × Nat)) :
    unexpired t (rows ++ rows') = unexpired t rows ++ unexpired t rows' := List.filter_append ..

omit [DecidableEq Id] in
/-- What has expired stays expired. -/
theorem unexpired_later {t t' : Nat} (h : t ≤ t') (rows : List (Id × Nat)) :
    unexpired t' (unexpired t rows) = unexpired t' rows := by
  unfold unexpired
  rw [List.filter_filter]
  refine List.filter_congr fun p _ => ?_
  by_cases hp : p.2 < t'
  · simp [hp]
  · have hp' : ¬ p.2 < t := fun hlt => hp (hlt.trans_le h)
    simp [hp, hp']

/-- **From `c` to `c'` live, from `d` to `d'` rebuilt**: the cores differ in nothing but their indexes, and of the two
    indexes only the live one has gained the rows. -/
structure InStep (rows : List (Id × Nat)) (c d c' d' : Core (Dedup Id R)) : Prop where
  twin    : d'.withoutIndex = c'.withoutIndex
  time    : c.time ≤ c'.time
  live    : ∀ t, c'.time ≤ t → unexpired t c'.ledger.index = unexpired t (c.ledger.index ++ rows)
  rebuilt : ∀ t, c'.time ≤ t → unexpired t d'.ledger.index = unexpired t d.ledger.index

/-- The rows that have expired are gone from both indexes. -/
structure Cleared (c' d' : Core (Dedup Id R)) : Prop where
  live    : unexpired c'.time c'.ledger.index = c'.ledger.index
  rebuilt : unexpired c'.time d'.ledger.index = d'.ledger.index

omit [DecidableEq Id] in
theorem InStep.refl {c d : Core (Dedup Id R)} (h : d.withoutIndex = c.withoutIndex) : InStep [] c d c d :=
  ⟨h, Nat.le_refl _, fun t _ => by rw [List.append_nil], fun _ _ => rfl⟩

omit [DecidableEq Id] in
theorem InStep.trans {rows rows' : List (Id × Nat)} {c d c' d' c'' d'' : Core (Dedup Id R)}
    (h : InStep rows c d c' d') (h' : InStep rows' c' d' c'' d'') : InStep (rows ++ rows') c d c'' d'' where
  twin    := h'.twin
  time    := h.time.trans h'.time
  live    := by
    intro t ht
    rw [h'.live t ht, unexpired_append, h.live t (h'.time.trans ht), ← unexpired_append, List.append_assoc]
  rebuilt := fun t ht => (h'.rebuilt t ht).trans (h.rebuilt t (h'.time.trans ht))

omit [DecidableEq Id] in
/-- **The indexes are equal exactly if every row has expired.** -/
theorem InStep.index_iff {rows : List (Id × Nat)} {c d c' d' : Core (Dedup Id R)} (h : InStep rows c d c' d')
    (hc : Cleared c' d') (hstart : d.ledger.index = c.ledger.index) :
    d'.ledger.index = c'.ledger.index ↔ ∀ p ∈ rows, p.2 < c'.time := by
  rw [← hc.live, ← hc.rebuilt, h.live _ (Nat.le_refl _), h.rebuilt _ (Nat.le_refl _), hstart, unexpired_append]
  constructor
  · intro he p hp
    by_contra hlt
    have hnil : unexpired c'.time rows = [] := List.append_right_eq_self.mp he.symm
    have hmem : p ∈ unexpired c'.time rows := List.mem_filter.mpr ⟨hp, by simp [hlt]⟩
    rw [hnil] at hmem
    cases hmem
  · intro hall
    have hnil : unexpired c'.time rows = [] := List.filter_eq_nil_iff.mpr fun p hp => by simp [hall p hp]
    rw [hnil, List.append_nil]

/-- The rows that the transactions of a block have left. -/
def blockRows (F : TxFormat U Id) (b : SignedBlock (SignedTx U S)) : List (Id × Nat) := b.transactions.map F.row

namespace Database

variable {last : Nat} {node db : Database (SignedTx U S) (Dedup Id R)} {c c' : Core (Dedup Id R)}
  {r : Entry (SignedTx U S)}

/-- **What the node that is rebuilt has to agree on at a block**: whether it is late, and there must be room to undo. -/
def Agrees {Tx L : Type} (db : Database Tx L) (r : Entry Tx) : Prop :=
  r.block.late db.libTime = r.block.late r.libTime ∧ u32Sub r.block.blockNum db.lib < Config.maxUndoHistory

instance {Tx L : Type} (db : Database Tx L) (r : Entry Tx) : Decidable (db.Agrees r) := inferInstanceAs (Decidable (_ ∧ _))

/-- The node agrees at every block of the list, in the state in which it applies it. -/
def Follows {Tx L : Type} (env : Env Tx L) : Database Tx L → List (Entry Tx) → Prop
  | _,  []      => True
  | db, r :: rs => db.Agrees r ∧ Follows env (after (reindexBlock env r.block.blockNum r.block) db) rs

/-- **One accepted block is applied again.** -/
theorem applyBlock_twin (hs : Stocked last node) (h : Rebuilding last node db) (hcp : node.checkpoints = [])
    (hlast : r.block.blockNum ≤ last) (hacc : Accepted (chainEnv F K base) c [r] c') (hskip : r.txSkip = Skip.nothing)
    (htwin : db.state.core.withoutIndex = c.withoutIndex) (hagree : db.Agrees r) :
    ∃ x, applyBlock (chainEnv F K base) r.block Skip.reindex db = .ok ⟨⟩ x ∧ Rebuilding last node x ∧
      InStep (blockRows F r.block) c db.state.core c' x.state.core ∧ Cleared c' x.state.core := by
  cases hacc with
  | block hstart hflags hb hnum h₂ h₃ =>
      cases hstart with
      | start =>
          obtain ⟨⟨hlt, htime₁, hrows⟩, d₁, hd₁, htwin₁, hindex₁⟩ :=
            beginBlock_twin hb (hflags.symm.trans hskip) htwin hagree.1 hagree.2
          obtain ⟨htime, hlive, d₂, d₃, hd₂, hd₃, htwin₃, hrebuilt⟩ := finish_twin h₂ h₃ htwin₁
          obtain ⟨num, hnum'⟩ : ∃ num, d₁.withoutIndex.nextIrreversible = .ok num := by
            rw [htwin₁]
            exact ⟨_, hnum⟩
          obtain ⟨x, hx, hrx, hcx⟩ := applyBlock_rebuilding hs h hcp hd₁ hnum' hd₂ hd₃ hlast
          have hclock : c'.time = r.block.timestamp := htime.trans htime₁
          have hlive' : c'.ledger.index = unexpired c'.time (c.ledger.index ++ blockRows F r.block) := by
            rw [hlive, hrows, htime]
            rfl
          have hrebuilt' : d₃.ledger.index = unexpired c'.time db.state.core.ledger.index := by
            rw [hrebuilt, hindex₁, htime]
          refine ⟨x, hx, hrx, ⟨hcx ▸ htwin₃, hclock ▸ hlt.le, ?_, ?_⟩, ?_, ?_⟩
          · intro t ht
            rw [hlive', unexpired_later ht]
          · intro t ht
            rw [hcx, hrebuilt', unexpired_later ht]
          · rw [hlive', unexpired_later (Nat.le_refl _)]
          · rw [hcx, hrebuilt', unexpired_later (Nat.le_refl _)]

/-- Nothing is there to undo, so the revision may be set. -/
theorem setRevision_rebuilding {Tx L : Type} {last : Nat} {node db : Database Tx L} (h : Rebuilding last node db) :
    ∃ x, setRevision db = .ok ⟨⟩ x ∧ Rebuilding last node x ∧ x.state = db.state := by
  refine ⟨{ db with chainbase := { db.chainbase with revision := db.headBlockNum } }, ?_, ?_, rfl⟩
  · unfold setRevision
    simp only [get_bind_run, h.stack, List.isEmpty_nil, if_true]
    rfl
  · exact ⟨h.blockLog, h.dltBlockLog, h.dltMode, h.maxBlocks, h.checkpoints, h.stack, h.objects⟩

/-- A block, with the revision that is set behind it now and then. -/
theorem reindexBlock_twin (hs : Stocked last node) (h : Rebuilding last node db) (hcp : node.checkpoints = [])
    (hlast : r.block.blockNum ≤ last) (hacc : Accepted (chainEnv F K base) c [r] c') (hskip : r.txSkip = Skip.nothing)
    (htwin : db.state.core.withoutIndex = c.withoutIndex) (hagree : db.Agrees r) (num : Nat) :
    ∃ x, reindexBlock (chainEnv F K base) num r.block db = .ok ⟨⟩ x ∧ Rebuilding last node x ∧
      InStep (blockRows F r.block) c db.state.core c' x.state.core ∧ Cleared c' x.state.core := by
  obtain ⟨x, hx, hrx, hstep, hclear⟩ := applyBlock_twin hs h hcp hlast hacc hskip htwin hagree
  unfold reindexBlock
  rw [bind_run, hx]
  dsimp only
  by_cases hnum : num % 1000 = 0
  · obtain ⟨y, hy, hry, hstate⟩ := setRevision_rebuilding hrx
    rw [if_pos hnum]
    exact ⟨y, hy, hry, hstate ▸ hstep, hstate ▸ hclear⟩
  · rw [if_neg hnum]
    exact ⟨x, rfl, hrx, hstep, hclear⟩

/-- The rows that the transactions of a chain have left, oldest block first. -/
def chainRows (F : TxFormat U Id) (rs : List (Entry (SignedTx U S))) : List (Id × Nat) :=
  rs.flatMap fun r => blockRows F r.block

/-- **The loop over accepted blocks**, for a loop that reads the blocks from `num` on and applies them, and with blocks
    left to follow. -/
theorem loop_twin (loop : Nat → Nat → DbM (SignedTx U S) (Dedup Id R) Unit)
    (read : Database (SignedTx U S) (Dedup Id R) → Nat → Option (SignedBlock (SignedTx U S)))
    (hzero : ∀ n x, loop n 0 x = .ok ⟨⟩ x)
    (hsucc : ∀ n k x b, read x n = some b →
      loop n (k + 1) x = (reindexBlock (chainEnv F K base) n b >>= fun _ => loop (n + 1) k) x)
    (hs : Stocked last node) (hcp : node.checkpoints = []) (rs rest : List (Entry (SignedTx U S))) (num : Nat)
    (hread : ∀ i r, rs[i]? = some r → r.block.blockNum = num + i ∧ r.block.blockNum ≤ last ∧
      ∀ x, Rebuilding last node x → read x (num + i) = some r.block)
    (hskip : ∀ r ∈ rs, r.txSkip = Skip.nothing) (h : Rebuilding last node db)
    (hacc : Accepted (chainEnv F K base) c rs.reverse c') (htwin : db.state.core.withoutIndex = c.withoutIndex)
    (hfollows : Follows (chainEnv F K base) db (rs ++ rest)) :
    ∃ x, loop num rs.length db = .ok ⟨⟩ x ∧ Rebuilding last node x ∧
      InStep (chainRows F rs) c db.state.core c' x.state.core ∧ (rs ≠ [] → Cleared c' x.state.core) ∧
      Follows (chainEnv F K base) x rest := by
  induction rs generalizing db c num with
  | nil =>
      cases hacc with
      | start => exact ⟨db, hzero num db, h, .refl htwin, fun hne => absurd rfl hne, hfollows⟩
  | cons r rs ih =>
      rw [List.reverse_cons] at hacc
      obtain ⟨c₁, hfirst, hrest⟩ := hacc.oldest
      obtain ⟨hagree, hfollows⟩ := hfollows
      obtain ⟨hnum, hlast, hstored⟩ := hread 0 r rfl
      rw [Nat.add_zero] at hnum hstored
      obtain ⟨x₁, hx₁, hr₁, hstep₁, hclear₁⟩ := reindexBlock_twin hs h hcp hlast hfirst
        (hskip r List.mem_cons_self) htwin hagree num
      have hafter : after (reindexBlock (chainEnv F K base) r.block.blockNum r.block) db = x₁ := by
        rw [hnum]
        exact after_ok hx₁
      rw [hafter] at hfollows
      obtain ⟨x, hx, hrx, hstep, hclear, hleft⟩ := ih (num + 1)
        (fun i r' hi => by
          obtain ⟨hn, hl, hst⟩ := hread (i + 1) r' hi
          have hshift : num + (i + 1) = num + 1 + i := by omega
          rw [hshift] at hn hst
          exact ⟨hn, hl, hst⟩)
        (fun r' hr' => hskip r' (List.mem_cons_of_mem _ hr')) hr₁ hrest hstep₁.twin hfollows
      refine ⟨x, ?_, hrx, hstep₁.trans hstep, fun _ => ?_, hleft⟩
      · rw [List.length_cons, hsucc num rs.length db r.block (hstored db h), bind_run, hx₁]
        exact hx
      · cases rs with
        | nil =>
            cases hrest with
            | start =>
                obtain rfl : x₁ = x := (EStateM.Result.ok.inj ((hzero _ _).symm.trans hx)).2
                exact hclear₁
        | cons r' rs' => exact hclear (List.cons_ne_nil _ _)

/-! ## The result -/

/-- **The node from which the state is rebuilt**: it has the core at the first block, nothing to undo, no checkpoint, and
    no object waits for the confirmation of a block to come. -/
structure Ready {Tx L : Type} (c₀ : Core L) (node : Database Tx L) : Prop where
  core        : node.state.core = c₀
  stack       : node.chainbase.stack = []
  checkpoints : node.checkpoints = []
  objects     : ∀ o ∈ node.state.fin.confirmations, o.blockNum ≤ c₀.headBlockNumber

/-- Its block log has the chain on top of block `num`. -/
structure HasBlockLog {Tx L : Type} (num : Nat) (chain : List (SignedBlock Tx)) (node : Database Tx L) : Prop where
  dltMode : node.dltMode = false
  chain   : node.blockLog.drop num = chain.reverse

/-- Its rolling log has the chain on top of block `num`, and is not longer than it may become. -/
structure HasDltBlockLog {Tx L : Type} (num : Nat) (chain : List (SignedBlock Tx)) (node : Database Tx L) : Prop where
  start : 0 < firstNum node.dltBlockLog ∧ firstNum node.dltBlockLog ≤ num + 1
  chain : node.dltBlockLog.drop (num + 1 - firstNum node.dltBlockLog) = chain.reverse
  fits  : 0 < node.dltBlockLogMaxBlocks → node.dltBlockLog.length ≤ node.dltBlockLogMaxBlocks * 2

/-- **Every transaction of the chain has expired** by the time of the head. -/
def Expired (F : TxFormat U Id) (s : ChainState (SignedTx U S) (Dedup Id R)) : Prop :=
  ∀ b ∈ s.chain, ∀ tx ∈ b.transactions, F.expiration tx.unsigned < s.core.time

/-- The blocks of a chain are numbered one by one. -/
theorem chained_num {Tx : Type} {P : SignedBlock Tx → Prop} (hU : Universe P) {base : BlockId}
    {chain : List (SignedBlock Tx)} (hc : Chained base chain) (hP : ∀ b ∈ chain, P b) :
    (tipId base chain).num = base.num + chain.length ∧
      ∀ i b, chain.reverse[i]? = some b → b.blockNum = base.num + 1 + i := by
  induction chain with
  | nil => exact ⟨rfl, fun i b hb => nomatch hb⟩
  | cons b bs ih =>
      obtain ⟨htip, hnums⟩ := ih hc.2 fun x hx => hP x (List.mem_cons_of_mem _ hx)
      have hb : b.blockNum = base.num + 1 + bs.length := by
        rw [hU.num_eq (hP b List.mem_cons_self), hc.1, htip]
        omega
      refine ⟨?_, fun i x hx => ?_⟩
      · show b.blockNum = _
        rw [hb, List.length_cons]
        omega
      · rw [List.reverse_cons, List.getElem?_append, List.length_reverse] at hx
        by_cases hi : i < bs.length
        · rw [if_pos hi] at hx
          exact hnums i x hx
        · rw [if_neg hi] at hx
          obtain ⟨h0, rfl⟩ := List.getElem?_eq_some_iff.mp hx
          have hi' : i = bs.length := by
            rw [List.length_singleton] at h0
            omega
          have hx' : [b][i - bs.length] = b := by simp
          rw [hx', hb, hi']

omit [DecidableEq Id] in
/-- The rows of the chain have expired exactly if its transactions have. -/
theorem chainRows_expired {s : ChainState (SignedTx U S) (Dedup Id R)} :
    (∀ p ∈ chainRows F s.entries.reverse, p.2 < s.core.time) ↔ Expired F s := by
  unfold chainRows Expired ChainState.entries ChainState.chain blockRows
  constructor
  · intro h b hb tx htx
    obtain ⟨r, hr, rfl⟩ := List.mem_map.mp hb
    refine h (F.row tx) (List.mem_flatMap.mpr ⟨r.entry, ?_, List.mem_map_of_mem htx⟩)
    exact List.mem_reverse.mpr (List.mem_map_of_mem hr)
  · intro h p hp
    obtain ⟨e, he, hp⟩ := List.mem_flatMap.mp hp
    obtain ⟨tx, htx, rfl⟩ := List.mem_map.mp hp
    obtain ⟨r, hr, rfl⟩ := List.mem_map.mp (List.mem_reverse.mp he)
    exact h r.block (List.mem_map_of_mem hr) tx htx

omit [DecidableEq Id] in
/-- Two cores that differ in nothing but their indexes are equal if the indexes are. -/
theorem core_eq_iff {c d : Core (Dedup Id R)} (h : d.withoutIndex = c.withoutIndex) :
    d = c ↔ d.ledger.index = c.ledger.index := by
  constructor
  · rintro rfl
    rfl
  · intro hi
    have hrest : d.ledger.rest = c.ledger.rest := congrArg Core.ledger h
    obtain ⟨_, _, _, _, _, _, _, _, _, _, _, _, _, _, _, _, _, _, _, i, r⟩ := c
    obtain ⟨_, _, _, _, _, _, _, _, _, _, _, _, _, _, _, _, _, _, _, i', r'⟩ := d
    obtain rfl : i' = i := hi
    obtain rfl : r' = r := hrest
    simp only [Core.withoutIndex, Core.mk.injEq] at h
    simp [h]

/-- The blocks of a list of entries, oldest first, are numbered from `num + 1` on. -/
def NumberedFrom {Tx : Type} (num : Nat) (rs : List (Entry Tx)) : Prop :=
  ∀ i r, rs[i]? = some r → r.block.blockNum = num + 1 + i

/-- What a log has on top of block `num`, entry by entry. -/
theorem log_getElem {Tx : Type} {log : List (SignedBlock Tx)} {k i : Nat} {es : List (Entry Tx)} {r : Entry Tx}
    (hlog : log.drop k = (es.map (·.block)).reverse) (hi : es.reverse[i]? = some r) : log[k + i]? = some r.block := by
  rw [← List.getElem?_drop, hlog, ← List.map_reverse, List.getElem?_map, hi]
  rfl

theorem log_last {Tx : Type} {log : List (SignedBlock Tx)} {k : Nat} {z : Entry Tx} {es : List (Entry Tx)}
    (hlog : log.drop k = ((z :: es).map (·.block)).reverse) : log.getLast? = some z.block := by
  rw [← List.take_append_drop k log, hlog, List.getLast?_append]
  simp

/-- **From the block log.** -/
theorem reindexDatabase_twin {num : Nat} {z : Entry (SignedTx U S)} {es : List (Entry (SignedTx U S))}
    (hready : Ready c node) (hnum : c.headBlockNumber = num)
    (hlog : HasBlockLog num ((z :: es).map (·.block)) node) (hnums : NumberedFrom num (z :: es).reverse)
    (hacc : Accepted (chainEnv F K base) c (z :: es) c') (hskip : ∀ r ∈ z :: es, r.txSkip = Skip.nothing)
    (hfollows : Follows (chainEnv F K base) (node.modifyForkDb ForkDatabase.reset) (z :: es).reverse) :
    ∃ x, reindexDatabase (chainEnv F K base) (num + 1) node = .ok ⟨⟩ x ∧
      InStep (chainRows F (z :: es).reverse) c node.state.core c' x.state.core ∧ Cleared c' x.state.core := by
  obtain ⟨db, hdb⟩ : ∃ db, db = node.modifyForkDb ForkDatabase.reset := ⟨_, rfl⟩
  have hlast : z.block.blockNum = num + 1 + es.length := by
    refine hnums es.length z ?_
    rw [List.reverse_cons, List.getElem?_append_right (by simp)]
    simp
  have hhead : node.blockLog.getLast? = some z.block := log_last hlog.chain
  have hstock : Stocked z.block.blockNum node := by
    refine ⟨fun _ => ?_, fun hm => ?_, fun hm => ?_⟩
    · unfold lastNum
      rw [hhead]
      rfl
    · exact absurd (hm.symm.trans hlog.dltMode) (by simp)
    · exact absurd (hm.symm.trans hlog.dltMode) (by simp)
  have hstart : Rebuilding z.block.blockNum node db := by
    rw [hdb]
    refine ⟨rfl, rfl, rfl, rfl, rfl, hready.stack, fun o ho => ?_⟩
    have := hready.objects o ho
    omega
  have hread : ∀ x i r, Rebuilding z.block.blockNum node x → (z :: es).reverse[i]? = some r →
      x.readBlockLog (num + 1 + i) = some r.block := by
    intro x i r hx hi
    have hget := log_getElem hlog.chain hi
    unfold readBlockLog readLog
    rw [hx.blockLog, if_pos ⟨Nat.one_pos, by omega⟩, ← hget]
    congr 1
    omega
  obtain ⟨c₁, hinit, hz⟩ : ∃ c₁, Accepted (chainEnv F K base) c es c₁ ∧ Accepted (chainEnv F K base) c₁ [z] c' := by
    cases hacc with
    | block h hskip hb hnum h₂ h₃ => exact ⟨_, h, .block .start hskip hb hnum h₂ h₃⟩
  rw [← hdb, List.reverse_cons] at hfollows
  -- the blocks below the last one
  obtain ⟨x, hx, hrx, hstep, -, hfollows⟩ := loop_twin (reindexLoop (chainEnv F K base))
    readBlockLog (fun _ _ => rfl) (fun n k y b hb => by
      show (get >>= fun y => _ : DbM (SignedTx U S) (Dedup Id R) Unit) y = _
      rw [get_bind_run, hb]) hstock hready.checkpoints
    es.reverse [z] (num + 1) (fun i r hi => by
      obtain ⟨hlt, -⟩ := List.getElem?_eq_some_iff.mp hi
      have hi' : (z :: es).reverse[i]? = some r := by
        rw [List.reverse_cons, List.getElem?_append_left hlt]
        exact hi
      have hr := hnums i r hi'
      rw [List.length_reverse] at hlt
      exact ⟨hr, by omega, fun y hy => hread y i r hy hi'⟩)
    (fun r hr => hskip r (List.mem_cons_of_mem _ (List.mem_reverse.mp hr))) hstart
    (by rw [List.reverse_reverse]; exact hinit) (by rw [hdb, ← hready.core]; rfl) hfollows
  -- the last one
  obtain ⟨y, hy, hry, hstep', hclear⟩ := applyBlock_twin hstock hrx hready.checkpoints (Nat.le_refl _) hz
    (hskip z List.mem_cons_self) hstep.twin hfollows.1
  obtain ⟨w, hw, -, hstate⟩ := setRevision_rebuilding hry
  have hlen : z.block.blockNum - (num + 1) = es.reverse.length := by
    rw [List.length_reverse]
    omega
  have hreadz : x.readBlockLog (num + 1 + es.reverse.length) = some z.block := by
    refine hread x es.reverse.length z hrx ?_
    rw [List.reverse_cons, List.getElem?_append_right (Nat.le_refl _), Nat.sub_self]
    rfl
  have hblockLog : db.blockLog.getLast? = some z.block := by
    rw [hstart.blockLog]
    exact hhead
  refine ⟨after (onForkDb (ForkDatabase.startBlock z.block)) w, ?_, ?_, ?_⟩
  · unfold reindexDatabase
    rw [bind_run, modify_run, ← hdb]
    simp only [get_bind_run, hblockLog, hlen]
    rw [bind_run, hx]
    simp only [get_bind_run, hreadz]
    rw [bind_run, hy]
    dsimp only
    rw [bind_run, hw]
    rfl
  · have hall := hstep.trans hstep'
    have hrows : chainRows F (z :: es).reverse = chainRows F es.reverse ++ blockRows F z.block := by
      unfold chainRows
      rw [List.reverse_cons, List.flatMap_append]
      simp
    rw [hrows]
    rw [← hstate] at hall
    rw [hdb] at hall
    exact hall
  · rw [← hstate] at hclear
    exact hclear

/-- The node with which `reindex_from_dlt` begins. -/
def inDltMode {Tx L : Type} (db : Database Tx L) : Database Tx L :=
  { db with dltMode := true }.modifyForkDb ForkDatabase.reset

/-- **From the rolling log.** -/
theorem reindexFromDlt_twin {num : Nat} {z : Entry (SignedTx U S)} {es : List (Entry (SignedTx U S))}
    (hready : Ready c node) (hnum : c.headBlockNumber = num)
    (hlog : HasDltBlockLog num ((z :: es).map (·.block)) node) (hnums : NumberedFrom num (z :: es).reverse)
    (hacc : Accepted (chainEnv F K base) c (z :: es) c') (hskip : ∀ r ∈ z :: es, r.txSkip = Skip.nothing)
    (hfollows : Follows (chainEnv F K base) node.inDltMode (z :: es).reverse) :
    ∃ x, reindexFromDlt (chainEnv F K base) (num + 1) node = .ok ⟨⟩ x ∧
      InStep (chainRows F (z :: es).reverse) c node.state.core c' x.state.core ∧ Cleared c' x.state.core := by
  have hlast : z.block.blockNum = num + 1 + es.length := by
    refine hnums es.length z ?_
    rw [List.reverse_cons, List.getElem?_append_right (by simp)]
    simp
  have hhead : node.dltBlockLog.getLast? = some z.block := log_last hlog.chain
  have hlastNum : lastNum node.dltBlockLog = z.block.blockNum := by
    unfold lastNum
    rw [hhead]
    rfl
  have hstock : Stocked z.block.blockNum node.inDltMode := by
    refine ⟨fun hm => absurd hm (by simp [inDltMode, modifyForkDb]), fun _ => ?_, fun _ => hlog.fits⟩
    show 0 < lastNum node.dltBlockLog ∧ _ ≤ lastNum node.dltBlockLog
    rw [hlastNum]
    omega
  have hstart : Rebuilding z.block.blockNum node.inDltMode node.inDltMode := by
    refine ⟨rfl, rfl, rfl, rfl, rfl, hready.stack, fun o ho => ?_⟩
    have := hready.objects o ho
    omega
  have hread : ∀ i r, (z :: es).reverse[i]? = some r → r.block.blockNum = num + 1 + i ∧
      r.block.blockNum ≤ z.block.blockNum ∧
      ∀ x, Rebuilding z.block.blockNum node.inDltMode x → x.readDltBlockLog (num + 1 + i) = some r.block := by
    intro i r hi
    have hr := hnums i r hi
    obtain ⟨hlt, -⟩ := List.getElem?_eq_some_iff.mp hi
    rw [List.length_reverse, List.length_cons] at hlt
    refine ⟨hr, by omega, fun x hx => ?_⟩
    have hget := log_getElem hlog.chain hi
    have hdlt : x.dltBlockLog = node.dltBlockLog := hx.dltBlockLog
    obtain ⟨hpos, hfrom⟩ := hlog.start
    unfold readDltBlockLog readLog
    rw [hdlt, if_pos ⟨hpos, by omega⟩, ← hget]
    congr 1
    omega
  obtain ⟨x, hx, hrx, hstep, hclear, -⟩ := loop_twin (reindexDltLoop (chainEnv F K base))
    readDltBlockLog (fun _ _ => rfl) (fun n k y b hb => by
      show (get >>= fun y => _ : DbM (SignedTx U S) (Dedup Id R) Unit) y = _
      rw [get_bind_run, hb]) hstock hready.checkpoints
    (z :: es).reverse [] (num + 1) hread
    (fun r hr => hskip r (List.mem_reverse.mp hr)) hstart
    (by rw [List.reverse_reverse]; exact hacc) (by rw [← hready.core]; rfl) (by rw [List.append_nil]; exact hfollows)
  obtain ⟨w, hw, hrw, hstate⟩ := setRevision_rebuilding hrx
  have hmax : max (num + 1) (firstNum node.dltBlockLog) = num + 1 := Nat.max_eq_left hlog.start.2
  have hlen : z.block.blockNum + 1 - (num + 1) = (z :: es).reverse.length := by
    rw [List.length_reverse, List.length_cons]
    omega
  have hwhead : w.dltBlockLog.getLast? = some z.block := by
    rw [hrw.dltBlockLog]
    exact hhead
  have hdltLog : node.inDltMode.dltBlockLog = node.dltBlockLog := rfl
  refine ⟨after (onForkDb (ForkDatabase.startBlock z.block)) w, ?_, ?_, ?_⟩
  · have hno : ¬ (num + 1 < firstNum node.dltBlockLog ∧ node.inDltMode.dltLinks = false) :=
      fun hc => absurd hc.1 (not_lt.mpr hlog.start.2)
    unfold reindexFromDlt
    rw [bind_run, modify_run]
    show (get >>= fun y => _ : DbM (SignedTx U S) (Dedup Id R) Unit) node.inDltMode = _
    simp only [get_bind_run, hdltLog, hhead, hmax, hlen]
    rw [if_neg hno, if_neg (by omega), bind_run, hx]
    dsimp only
    rw [bind_run, hw]
    dsimp only
    simp only [get_bind_run, hwhead]
    rfl
  · rw [← hstate] at hstep
    exact hstep
  · have hdone := hclear (by simp)
    rw [← hstate] at hdone
    exact hdone

section Result

variable {P : SignedBlock (SignedTx U S) → Prop} {base₀ : BlockId} {live₀ : Database (SignedTx U S) (Dedup Id R)}
  {live : ChainState (SignedTx U S) (Dedup Id R)}

/-- **The rebuilt state is the live one exactly if every transaction has expired.** A node accepts blocks with all
    checks, in any order and with confirmations and transactions in between, and none of them is left half applied or has
    its slot corrected. A node that applies the blocks of its chain from a log, and at each of them agrees on whether it
    is late and has room to undo, comes to the end. Then the two cores are equal, and the nodes accept the same blocks
    from then on, if and only if every transaction of these blocks has expired at the head. -/
theorem rebuilt_equals_live (hU : Universe P) (h : InOrder P base₀ live₀) (hopen : Opened live₀)
    {steps : List (Step (SignedTx U S))} (hs : ∀ x ∈ steps, x.From P)
    (hlive : live = (run (chainEnv F K base) live₀ steps).clearPending.state) (hne : live.history ≠ [])
    (hclean : live.Clean) (hskip : ∀ r ∈ live.history, r.txSkip = Skip.nothing) :
    (∀ node, Ready live₀.state.core node → HasBlockLog live₀.headBlockNum live.chain node →
      Follows (chainEnv F K base) (node.modifyForkDb ForkDatabase.reset) live.entries.reverse →
      ∃ x, reindexDatabase (chainEnv F K base) (live₀.headBlockNum + 1) node = .ok ⟨⟩ x ∧
        (Coincide (chainEnv F K base) live.core x.state.core ↔ Expired F live)) ∧
    (∀ node, Ready live₀.state.core node → HasDltBlockLog live₀.headBlockNum live.chain node →
      Follows (chainEnv F K base) node.inDltMode live.entries.reverse →
      ∃ x, reindexFromDlt (chainEnv F K base) (live₀.headBlockNum + 1) node = .ok ⟨⟩ x ∧
        (Coincide (chainEnv F K base) live.core x.state.core ↔ Expired F live)) := by
  have hacc : Accepted (chainEnv F K base) live₀.state.core live.entries live.core := by
    rw [hlive] at hclean ⊢
    exact run_accepted hU h hopen hs hclean
  have hwf : live.WellFormed P base₀ := by
    rw [hlive]
    exact (clearPending_advances _ (run_inOrder hU hs h).1.layers).1.wellFormed
  have hstart := h.layers.wellFormed
  have hbase : base₀.num = live₀.headBlockNum := by
    have hid : live₀.state.headBlockId = base₀ := by
      rw [hstart.headId]
      unfold ChainState.chain
      rw [hopen.history]
      rfl
    rw [← hid]
    exact hstart.headNum.symm
  have hchain : live.chain = live.entries.map (·.block) := by
    unfold ChainState.chain ChainState.entries
    rw [List.map_map]
    rfl
  have hnums : NumberedFrom live₀.headBlockNum live.entries.reverse := by
    intro i r hi
    rw [← hbase]
    refine (chained_num hU hwf.chained hwf.exists_).2 i r.block ?_
    rw [hchain, ← List.map_reverse, List.getElem?_map, hi]
    rfl
  have hflags : ∀ r ∈ live.entries, r.txSkip = Skip.nothing := by
    intro r hr
    obtain ⟨a, ha, rfl⟩ := List.mem_map.mp hr
    exact hskip a ha
  have hfinal : ∀ {node : Database (SignedTx U S) (Dedup Id R)} {d : Core (Dedup Id R)},
      Ready live₀.state.core node → InStep (chainRows F live.entries.reverse) live₀.state.core node.state.core live.core d →
      Cleared live.core d → (Coincide (chainEnv F K base) live.core d ↔ Expired F live) := by
    intro node d hready hstep hclear
    rw [coincide_iff, core_eq_iff hstep.twin, hstep.index_iff hclear (by rw [hready.core]), chainRows_expired]
  have hentries : ∃ z es, live.entries = z :: es := by
    obtain ⟨a, as, ha⟩ := List.exists_cons_of_ne_nil hne
    refine ⟨a.entry, as.map (·.entry), ?_⟩
    unfold ChainState.entries
    rw [ha]
    rfl
  obtain ⟨z, es, hes⟩ := hentries
  rw [hchain]
  rw [hes] at hacc hnums hflags hfinal ⊢
  refine ⟨fun node hready hlog hfollows => ?_, fun node hready hlog hfollows => ?_⟩
  · obtain ⟨x, hx, hstep, hclear⟩ := reindexDatabase_twin hready rfl hlog hnums hacc hflags hfollows
    exact ⟨x, hx, hfinal hready hstep hclear⟩
  · obtain ⟨x, hx, hstep, hclear⟩ := reindexFromDlt_twin hready rfl hlog hnums hacc hflags hfollows
    exact ⟨x, hx, hfinal hready hstep hclear⟩

end Result

end Database

end Twins

/-! ## A transaction that is taken twice -/

namespace Sample

/-- Rules under which every transaction passes and does nothing. -/
def lenient : TxRules Nat Unit Unit where
  validate _          := true
  verifyAuthority _ _ := true
  refBlockNum _       := 0
  refBlockPrefix _    := 0
  applyOperations _ c := .ok ([], c.ledger)

abbrev indexedEnv : Env (SignedTx Nat Unit) (Dedup Nat Unit) := chainEnv format lenient txEnv

/-- A block with transactions, signed by its validator. -/
def filled (previous : BlockId) (time : Nat) (name : AccountName) (hash : Nat) (expirations : List Nat) :
    SignedBlock (SignedTx Nat Unit) :=
  { previous := previous, timestamp := time, validator := name, transactionMerkleRoot := 0, extensions := []
    validatorSignature := name, transactions := expirations.map (⟨·, ()⟩), hash := hash }

/-- Two blocks at seconds 3 and 6, whose transactions have all expired at second 6. -/
def aged1 : SignedBlock (SignedTx Nat Unit) := filled BlockId.zero 3 2 1 [2, 4]
def aged2 : SignedBlock (SignedTx Nat Unit) := filled aged1.id 6 3 2 [5]

/-- A block with a transaction that expires at second 6, and a block that brings it again. -/
def fresh1 : SignedBlock (SignedTx Nat Unit) := filled BlockId.zero 3 2 1 [6]
def again2 : SignedBlock (SignedTx Nat Unit) := filled fresh1.id 6 3 2 [6]

/-- The node without a block accepts the blocks. -/
def live (blocks : List (SignedBlock (SignedTx Nat Unit))) : Database (SignedTx Nat Unit) (Dedup Nat Unit) :=
  Database.run indexedEnv genesisNode (blocks.map (.block · Skip.nothing))

/-- The node without a block has them in its block log. -/
def logOf (blocks : List (SignedBlock (SignedTx Nat Unit))) : Database (SignedTx Nat Unit) (Dedup Nat Unit) :=
  { genesisNode with blockLog := blocks }

/-- Or in its rolling log. -/
def dltLogOf (blocks : List (SignedBlock (SignedTx Nat Unit))) : Database (SignedTx Nat Unit) (Dedup Nat Unit) :=
  { genesisNode with dltBlockLog := blocks }

theorem genesis_inOrder {P : SignedBlock (SignedTx Nat Unit) → Prop} :
    Database.InOrder P BlockId.zero genesisNode := by
  have hlayer : ∀ s ∈ genesisNode.chainbase.layers, s = genesisNode.state := fun s hs => List.mem_singleton.mp hs
  have hnone : ∀ x ∈ genesisNode.forkDb.live, False := by decide
  refine ⟨⟨⟨⟨?_, ?_, ?_, ?_, ?_⟩, ?_, ?_⟩, rfl⟩, ⟨⟨?_, ?_, ?_, ?_⟩, fun _ => rfl, ?_⟩⟩
  iterate 5 exact fun x hx => (hnone x hx).elim
  · exact fun b hb => nomatch hb
  · exact fun b hb => nomatch hb
  · intro s hs
    rw [hlayer s hs]
    exact
      { chained := trivial
        exists_ := fun b hb => nomatch hb
        headId  := rfl
        headNum := rfl
        support := by
          unfold Core.SupportsUpTo
          decide
        objects := fun o ho => nomatch ho
        lib_le  := Nat.le_refl 0 }
  · exact List.pairwise_singleton _ _
  · exact ⟨trivial, fun e he => nomatch he⟩
  · intro s hs
    rw [hlayer s hs]
    exact Nat.le_refl 0
  · exact fun hp => nomatch hp

end Sample

namespace Database

open Prog Sample

/-- Two blocks, from either log. -/
theorem rebuilt_equals_live_sample :
    (∃ x, reindexDatabase indexedEnv 1 (logOf [aged1, aged2]) = .ok ⟨⟩ x ∧
      x.state.core = (live [aged1, aged2]).clearPending.state.core) ∧
    (∃ x, reindexFromDlt indexedEnv 1 (dltLogOf [aged1, aged2]) = .ok ⟨⟩ x ∧
      x.state.core = (live [aged1, aged2]).clearPending.state.core) := by
  have hU : Universe (· ∈ [aged1, aged2]) := Universe.of_list (by decide +kernel) (by decide +kernel)
  have hopen : Opened genesisNode := ⟨rfl, rfl, rfl⟩
  have hlive : (live [aged1, aged2]).clearPending.state =
      (run indexedEnv genesisNode ([aged1, aged2].map (.block · Skip.nothing))).clearPending.state := rfl
  obtain ⟨hlog, hdlt⟩ := rebuilt_equals_live hU genesis_inOrder hopen (by decide +kernel) hlive
    (by decide +kernel) (by decide +kernel) (by decide +kernel)
  have hentries : (live [aged1, aged2]).clearPending.state.entries.reverse =
      [⟨aged1, Skip.nothing, none⟩, ⟨aged2, Skip.nothing, none⟩] := by decide +kernel
  have hexpired : Expired format (live [aged1, aged2]).clearPending.state := by
    unfold Expired
    decide +kernel
  rw [hentries] at hlog hdlt
  obtain ⟨x, hx, hsame⟩ := hlog (logOf [aged1, aged2]) ⟨rfl, rfl, rfl, by decide +kernel⟩ ⟨rfl, by decide +kernel⟩
    ⟨by decide +kernel, by decide +kernel, trivial⟩
  obtain ⟨y, hy, hsame'⟩ := hdlt (dltLogOf [aged1, aged2]) ⟨rfl, rfl, rfl, by decide +kernel⟩
    ⟨by decide +kernel, by decide +kernel, by decide +kernel⟩ ⟨by decide +kernel, by decide +kernel, trivial⟩
  exact ⟨⟨x, hx, (hsame.mpr hexpired).same⟩, ⟨y, hy, (hsame'.mpr hexpired).same⟩⟩

/-- **The rebuilt node takes a transaction twice**: the live node refuses the second block for it, and the node that
    was rebuilt from the same first block accepts it. -/
theorem rebuilt_takes_twice :
    thrown (pushBlock indexedEnv again2 Skip.nothing) (live [fresh1]) = some (.evaluation 0) ∧
    (returned (reindexDatabase indexedEnv 1) (logOf [fresh1])).isSome ∧
    (after (reindexDatabase indexedEnv 1) (logOf [fresh1])).headBlockId = (live [fresh1]).headBlockId ∧
    (returned (pushBlock indexedEnv again2 Skip.nothing)
      (after (reindexDatabase indexedEnv 1) (logOf [fresh1]))).isSome := by
  decide +kernel

end Database

end VizNode
