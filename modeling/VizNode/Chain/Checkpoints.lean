import VizNode.Chain.Determined
import VizNode.Chain.Quorum
import VizNode.Chain.Traces

/-!
# `VizNode.Chain.Checkpoints` — no fork below a checkpoint

A checkpoint names the block at a height, and a node applies no other block there. Blocks come and go, branches are
switched and undone, pending transactions come on top, and in every state the node is in or can come back to, the block
at the height of a checkpoint is the one it names (`checkpoints_kept`).

A block names the one below it, so a checkpoint settles everything up to it: **two nodes with a checkpoint in common
whose chains have come to it have the same chain up to it** (`no_fork_below_checkpoint`), whatever came to them and in
whatever order.

## Contents
- **Blocks.** `InForce`, `Vouched`, and what `checkpointSkip` lets through.
- **Layers.** `Guarded`, step by step.
- **Two nodes.**
-/

namespace VizNode

open Prog Relation UndoDb

variable {Tx L : Type} {U : SignedBlock Tx → Prop} {base : BlockId} {cps : List (Nat × BlockId)} {b : SignedBlock Tx}

/-! ## Blocks -/

/-- There is a last checkpoint, and it names a block. -/
def InForce (cps : List (Nat × BlockId)) : Prop := ∃ p, cps.getLast? = some p ∧ p.2 ≠ BlockId.zero

/-- **The block is the one the checkpoints name**, if they name one at its height. -/
def Vouched (cps : List (Nat × BlockId)) (b : SignedBlock Tx) : Prop :=
  ∀ p, cps.find? (fun p => decide (p.1 = b.blockNum)) = some p → b.id = p.2

/-- No other block gets through. -/
theorem Database.checkpointSkip_vouched {db : Database Tx L} {skip skip' : Skip} (hforce : InForce db.checkpoints)
    (h : db.checkpointSkip b skip = .ok skip') : Vouched db.checkpoints b := by
  obtain ⟨⟨num, id⟩, hlast, hid⟩ := hforce
  intro p hp
  unfold Database.checkpointSkip at h
  rw [hlast] at h
  dsimp only at h
  rw [if_neg hid, hp] at h
  dsimp only at h
  by_contra hne
  rw [if_pos hne] at h
  exact absurd h (by simp)

/-- A checkpoint is found by its height. -/
theorem Vouched.id_eq {id : BlockId} (h : Vouched cps b) (hkeys : (cps.map Prod.fst).Nodup)
    (hmem : (b.blockNum, id) ∈ cps) : b.id = id := by
  refine h (b.blockNum, id) ?_
  induction cps with
  | nil => exact absurd hmem List.not_mem_nil
  | cons p ps ih =>
      obtain ⟨hfirst, hrest⟩ := List.nodup_cons.mp hkeys
      rcases List.mem_cons.mp hmem with rfl | hps
      · exact List.find?_cons_of_pos (decide_eq_true rfl)
      · have hne : p.1 ≠ b.blockNum := fun he => hfirst (he ▸ List.mem_map_of_mem hps)
        rw [List.find?_cons_of_neg (by simpa using hne)]
        refine ih (fun q hq => ?_) hrest hps
        exact h q (by rw [List.find?_cons_of_neg (by simpa using hne)]; exact hq)

/-! ## Layers -/

namespace Database

variable {env : Env Tx L} {db db' : Database Tx L}

/-- **Every block below every layer is vouched for.** -/
structure Guarded (cps : List (Nat × BlockId)) (db : Database Tx L) : Prop where
  checkpoints : db.checkpoints = cps
  vouched     : ∀ s ∈ db.chainbase.layers, ∀ b ∈ s.chain, Vouched cps b

/-- Layers may be dropped, and the newest state may change if it keeps its chain. -/
theorem Guarded.of_tick (h : Guarded cps db) (hcps : db'.checkpoints = db.checkpoints)
    (hchain : db'.state.chain = db.state.chain) (hstack : db'.chainbase.stack <+: db.chainbase.stack) :
    Guarded cps db' := by
  refine ⟨hcps.trans h.checkpoints, fun s hs b hb => ?_⟩
  rcases mem_layers.mp hs with rfl | ⟨e, he, rfl⟩
  · refine h.vouched _ (state_mem_layers _) b ?_
    show b ∈ db.state.chain
    rw [← hchain]
    exact hb
  · exact h.vouched _ (mem_layers.mpr (.inr ⟨e, hstack.subset he, rfl⟩)) b hb

theorem Guarded.of_subset (h : Guarded cps db) (hcps : db'.checkpoints = db.checkpoints)
    (hl : ∀ s ∈ db'.chainbase.layers, s ∈ db.chainbase.layers) : Guarded cps db' :=
  ⟨hcps.trans h.checkpoints, fun s hs => h.vouched s (hl s hs)⟩

theorem BlockTicks.guarded (t : BlockTicks env b db db') (h : Guarded cps db) : Guarded cps db' := by
  refine h.of_tick (BlockTicks.kept t).checkpoints ?_ (BlockTicks.raises t).2
  induction t with
  | refl => rfl
  | tail _ t ih => exact t.chain.trans ih

theorem applyInSession_guarded (b : SignedBlock Tx) (skip : Skip) (hforce : InForce cps) (h : Guarded cps db) :
    Guarded cps (after (applyInSession env b skip) db) := by
  rcases applyInSession_cases env b skip db with ⟨e, he⟩ | ⟨skip', c, x, hskip, -, ht, hrun⟩
  · rw [after_error he]
    exact h
  · -- the block is on the new layer, and the check came before it
    have hb : Vouched cps b := by
      rw [← h.checkpoints] at hforce ⊢
      exact checkpointSkip_vouched hforce hskip
    have hent : Guarded cps (db.startUndoSession.entered b skip' c) := by
      refine ⟨((entered_kept b skip' c db.startUndoSession).checkpoints).trans h.checkpoints, fun s hs d hd => ?_⟩
      rw [(entered_chainbase b skip' c db.startUndoSession).1] at hs
      rcases mem_layers.mp hs with rfl | ⟨e, he, rfl⟩
      · rcases List.mem_cons.mp hd with rfl | hd
        · exact hb
        · exact h.vouched _ (state_mem_layers _) d hd
      · rcases List.mem_cons.mp he with rfl | he
        · exact h.vouched _ (state_mem_layers _) d hd
        · exact h.vouched _ (mem_layers.mpr (.inr ⟨e, he, rfl⟩)) d hd
    have hx : Guarded cps x := BlockTicks.guarded ht hent
    rcases hrun with ⟨-, hr⟩ | ⟨e, -, hr⟩
    · rw [after_ok hr]
      exact hx
    · rw [after_error hr]
      exact hx.of_subset rfl fun _ hs => mem_layers_undo hs

theorem Move.guarded {stop : ChainState Tx L → Prop} (m : Move env U stop db db') (hforce : InForce cps)
    (h : Guarded cps db) : Guarded cps db' := by
  cases m with
  | forkDb f => exact h.of_subset rfl fun _ hs => hs
  | popped txs => exact h.of_subset rfl fun _ hs => hs
  | applied hb skip => exact applyInSession_guarded _ skip hforce h
  | undone _ => exact h.of_subset rfl fun _ hs => mem_layers_undo hs
  | aslot hne name => exact h.of_tick rfl (chain_modifyHead db.state fun _ => rfl) List.prefix_rfl

/-- Pending transactions come on top of a chain, and leave it. -/
theorem TxMove.guarded (t : TxMove env db db') (h : Guarded cps db) : Guarded cps db' := by
  cases t with
  | queued pending popped => exact h.of_subset rfl fun _ hs => hs
  | opened =>
      unfold openPendingSession
      split
      · exact h
      · refine h.of_subset rfl fun s hs => ?_
        rcases List.mem_cons.mp hs with rfl | hs
        · exact state_mem_layers _
        · exact hs
  | executed hp _ => exact h.of_tick rfl rfl List.prefix_rfl

/-- Irreversibility leaves the chain alone. -/
theorem LibTick.chain (t : LibTick db db') : db'.state.chain = db.state.chain := by
  have hblocks : ∀ s : ChainState Tx L, s.chain = s.entries.map (fun e => e.block) := fun s => by
    unfold ChainState.chain ChainState.entries
    rw [List.map_map]
    rfl
  rw [hblocks, hblocks, t.entries.2]

theorem ConfirmTick.guarded {id : BlockId} {account : AccountName} (t : ConfirmTick id account db db')
    (h : Guarded cps db) : Guarded cps db' := by
  cases t with
  | lib t => exact h.of_tick t.kept.checkpoints t.chain t.raises.2
  | marked _ _ => exact h.of_tick rfl rfl List.prefix_rfl

theorem step_guarded {x : Step Tx} (hx : x.From U) (hst : Stored U db) (hopen : PendingOpen db) (hforce : InForce cps)
    (h : Guarded cps db) : Guarded cps (step env db x) := by
  have htxs : ∀ {y z : Database Tx L}, ReflTransGen (TxMove env) y z → Guarded cps y → Guarded cps z := by
    intro y z t hy
    induction t with
    | refl => exact hy
    | tail _ t ih => exact t.guarded ih
  cases x with
  | block b skip =>
      obtain ⟨y, -, hm, -, ht⟩ := pushBlock_moving hx (stopsAt_never b skip db.clearPending) hst
      refine htxs ht ?_
      clear ht
      have hclear : Guarded cps db.clearPending := by
        refine h.of_subset ?_ fun s hs => ?_
        · unfold clearPending resetPendingSession
          split <;> rfl
        · unfold clearPending resetPendingSession at hs
          split at hs
          · exact mem_layers_undo hs
          · exact hs
      induction hm with
      | refl => exact hclear
      | tail _ m ih => exact m.guarded hforce ih
  | confirmation id account =>
      exact applyBlockPostValidation_moves (R := Keeps (Guarded cps)) (fun _ _ t => t.guarded) db h
  | transaction tx skip => exact htxs (pushTransaction_moves hopen tx skip) h

/-- **Where a checkpoint names a block, no state of any run has another one.** -/
theorem checkpoints_kept (hU : Universe U) (h : InOrder U base db) (hopen : Opened db)
    (hforce : InForce db.checkpoints) {steps : List (Step Tx)} (hs : ∀ x ∈ steps, x.From U) :
    Guarded db.checkpoints (run env db steps) := by
  have hrun : InOrder U base (run env db steps) ∧ Guarded db.checkpoints (run env db steps) := by
    refine run_induction (P := fun x => x.From U)
      (I := fun x => InOrder U base x ∧ Guarded db.checkpoints x) (fun x e he hI => ⟨?_, ?_⟩) ⟨h, rfl, ?_⟩ hs
    · have hord : InOrder U base (run env x [e]) := (run_inOrder hU (by simpa using he) hI.1).1
      exact hord
    · exact step_guarded he hI.1.stored hI.1.layers.pendingOpen hforce hI.2
    · -- the node has just been opened and has applied nothing
      intro s hs b hb
      have heq : s = db.chainbase.state := by simpa [layers, hopen.stack] using hs
      have hnone : db.chainbase.state.history = [] := hopen.history
      subst heq
      unfold ChainState.chain at hb
      rw [hnone] at hb
      exact absurd hb List.not_mem_nil
  exact hrun.2

end Database

/-! ## Two nodes -/

/-- A chain has a block at every height above its base. -/
theorem Chained.exists_at (hU : Universe U) {c : List (SignedBlock Tx)} (h : Chained base c) (hmem : ∀ b ∈ c, U b)
    {n : Nat} (hlow : base.num < n) (hhigh : n ≤ (tipId base c).num) :
    ∃ above q below, c = above ++ q :: below ∧ q.blockNum = n := by
  induction c with
  | nil => exact absurd hhigh (Nat.not_le_of_lt hlow)
  | cons b bs ih =>
      have hnum : b.blockNum = (tipId base bs).num + 1 := by
        rw [hU.num_eq (hmem b List.mem_cons_self), h.1]
      by_cases hb : b.blockNum = n
      · exact ⟨[], b, bs, rfl, hb⟩
      · have hle : n ≤ b.blockNum := hhigh
        obtain ⟨above, q, below, rfl, hq⟩ := ih h.2 (fun x hx => hmem x (List.mem_cons_of_mem _ hx)) (by omega)
        exact ⟨b :: above, q, below, rfl, hq⟩

namespace Database

/-- A node that has just been opened, with a checkpoint at height `n`. -/
structure Pinned (U : SignedBlock Tx → Prop) (base : BlockId) (n : Nat) (id : BlockId) (db : Database Tx L) : Prop where
  inOrder : InOrder U base db
  opened  : Opened db
  inForce : InForce db.checkpoints
  keys    : (db.checkpoints.map Prod.fst).Nodup
  pinned  : (n, id) ∈ db.checkpoints

/-- The block of the checkpoint is in the chain, as soon as the chain has come to it. -/
theorem Pinned.exists_block {env : Env Tx L} {db : Database Tx L} {n : Nat} {id : BlockId} (hU : Universe U)
    (h : Pinned U base n id db) (hn : base.num < n) {steps : List (Step Tx)} (hs : ∀ x ∈ steps, x.From U)
    {s : ChainState Tx L} (hstate : s ∈ (run env db steps).chainbase.layers) (hreach : n ≤ s.headBlockNum) :
    ∃ above q below, s.chain = above ++ q :: below ∧ q.id = id := by
  have hwell : s.WellFormed U base := (run_inOrder hU hs h.inOrder).1.layers.stacked.each s hstate
  have hguard : Guarded db.checkpoints (run env db steps) := checkpoints_kept hU h.inOrder h.opened h.inForce hs
  have hhigh : n ≤ (tipId base s.chain).num := by
    rw [← hwell.headId, ← hwell.headNum]
    exact hreach
  obtain ⟨above, q, below, hsplit, rfl⟩ := hwell.chained.exists_at hU hwell.exists_ hn hhigh
  refine ⟨above, q, below, hsplit, ?_⟩
  have hq : q ∈ s.chain := by
    rw [hsplit]
    exact List.mem_append_right _ List.mem_cons_self
  exact (hguard.vouched s hstate q hq).id_eq h.keys h.pinned

/-- **There is no fork below a checkpoint**: two nodes whose chains have come to a checkpoint they have in common have
    the same chain up to it. -/
theorem no_fork_below_checkpoint {env₁ env₂ : Env Tx L} {db₁ db₂ : Database Tx L} {n : Nat} {id : BlockId}
    (hU : Universe U) (h₁ : Pinned U base n id db₁) (h₂ : Pinned U base n id db₂) (hn : base.num < n)
    {steps₁ steps₂ : List (Step Tx)} (hs₁ : ∀ x ∈ steps₁, x.From U) (hs₂ : ∀ x ∈ steps₂, x.From U)
    {s t : ChainState Tx L} (hs : s ∈ (run env₁ db₁ steps₁).chainbase.layers)
    (ht : t ∈ (run env₂ db₂ steps₂).chainbase.layers) (hreach : n ≤ s.headBlockNum) (hreach' : n ≤ t.headBlockNum) :
    ∃ q below above above', q.id = id ∧ s.chain = above ++ q :: below ∧ t.chain = above' ++ q :: below := by
  obtain ⟨above, q, below, hsplit, hq⟩ := h₁.exists_block hU hn hs₁ hs hreach
  obtain ⟨above', q', below', hsplit', hq'⟩ := h₂.exists_block hU hn hs₂ ht hreach'
  have hwell : s.WellFormed U base := (run_inOrder hU hs₁ h₁.inOrder).1.layers.stacked.each s hs
  have hwell' : t.WellFormed U base := (run_inOrder hU hs₂ h₂.inOrder).1.layers.stacked.each t ht
  have hsuffix : q :: below <:+ s.chain := ⟨above, hsplit.symm⟩
  have hsuffix' : q' :: below' <:+ t.chain := ⟨above', hsplit'.symm⟩
  -- the two ends have one tip, and the tip determines the chain
  have hsame : q :: below = q' :: below' :=
    Chained.unique hU (hwell.chained.of_suffix hsuffix) (hwell'.chained.of_suffix hsuffix')
      (fun b hb => hwell.exists_ b (hsuffix.subset hb)) (fun b hb => hwell'.exists_ b (hsuffix'.subset hb))
      (hq.trans hq'.symm)
  exact ⟨q, below, above, above', hq, hsplit, hsame ▸ hsplit'⟩

end Database

/-! ## The sample network -/

namespace Sample

/-- The node of the sample network, with a checkpoint at the second block. -/
def pinned : Database Sample.Tx Unit := { four with checkpoints := [(2, b2.id)] }

/-- Another second block. -/
def rival2 : SignedBlock Sample.Tx := block block1.id 9 4 7

end Sample

namespace Database

open Sample

/-- One node gets the rival of the checkpoint first, the other one does not get it at all. -/
theorem no_fork_below_checkpoint_sample : ∃ q below above above', q.id = b2.id ∧
    (run env pinned ([rival2, b2, b3].map (Step.block · Skip.nothing))).state.chain = above ++ q :: below ∧
    (run env pinned ([b2].map (Step.block · Skip.nothing))).state.chain = above' ++ q :: below := by
  have hU : Universe (· ∈ [block1, b2, b3, rival2]) := Universe.of_list (by decide +kernel) (by decide +kernel)
  have hfour : InOrder (· ∈ [block1, b2, b3, rival2]) block1.id four := node_inOrder (by simp) (by decide +kernel) _
  have hpinned : Pinned (· ∈ [block1, b2, b3, rival2]) block1.id 2 b2.id pinned :=
    { inOrder := ⟨hfour.stored.congr ⟨rfl, rfl, rfl, rfl⟩,
        ⟨hfour.layers.stacked, hfour.layers.idle, hfour.layers.pending⟩⟩
      opened  := ⟨rfl, rfl, rfl⟩
      inForce := ⟨(2, b2.id), rfl, by decide⟩
      keys    := by decide
      pinned  := List.mem_cons_self }
  exact no_fork_below_checkpoint hU hpinned hpinned (by decide) (by decide +kernel) (by decide +kernel)
    (state_mem_layers _) (state_mem_layers _) (by decide +kernel) (by decide +kernel)

end Database

end VizNode
