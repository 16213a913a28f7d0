import VizNode.Chain.Finality
import VizNode.Chain.Replay

/-!
# `VizNode.Chain.Determined` — is the state a function of the applied chain?

Blocks reach a node in any order, and a block is applied directly, in a fork switch, in a cascade or in a
recovery. **The way does not matter**: every state a node can come back to was built by applying its
blocks one by one (`Built`), so two nodes with the same head have the same blocks and, with the same
lookups, the same state.

**Two things leave a trace.** A fork switch that extends the head linearly over blocks of a relaxed
schedule corrects the absolute slot, and a block that fails after it became irreversible itself stays half
applied. `Clean` says that no block of the chain was affected.

## Contents
- **Built states.** `Built` and `Built.determined`.
- **Every layer is built**, unless it is not clean: moves, transactions, steps.
- **Two nodes.** `state_of_chain`.
-/

namespace VizNode

open Database

/-- No confirmation arrives. -/
def Step.Silent {Tx : Type} : Step Tx → Prop
  | .confirmation _ _ => False
  | _                 => True

instance stepSilentDecidable {Tx : Type} : ∀ x : Step Tx, Decidable x.Silent
  | .block _ _        => .isTrue trivial
  | .confirmation _ _ => .isFalse fun h => h
  | .transaction _ _  => .isTrue trivial

/-! ## Built states -/

section Built

variable {Tx L : Type} {env : Env Tx L} {s₀ s s₁ s₂ : ChainState Tx L}

/-- **The state was built from `s₀`** by block applications that returned. -/
inductive Built (env : Env Tx L) (s₀ : ChainState Tx L) : ChainState Tx L → Prop where
  | start : Built env s₀ s₀
  | applied {db x : Database Tx L} {b : SignedBlock Tx} {skip : Skip} (h : Built env s₀ db.state)
      (hr : applyInSession env b skip db = .ok () x) : Built env s₀ x.state

/-- No block was left half applied, and no slot was corrected. -/
def ChainState.Clean (s : ChainState Tx L) : Prop := ∀ r ∈ s.history, r.complete = true ∧ r.aslotDelta = 0

instance cleanDecidable (s : ChainState Tx L) : Decidable s.Clean :=
  inferInstanceAs (Decidable (∀ r ∈ s.history, r.complete = true ∧ r.aslotDelta = 0))

/-- What a block application adds to the history. -/
theorem applyInSession_record {db x : Database Tx L} {b : SignedBlock Tx} {skip : Skip}
    (h : applyInSession env b skip db = .ok () x) :
    ∃ r, r.block = b ∧ x.state.history = r :: db.state.history := by
  obtain ⟨_, _, _, _, _, _, -, -, -, -, -, hx⟩ := applyInSession_ok h
  exact ⟨_, rfl, by rw [hx]⟩

/-- **The blocks and the lookups determine a built state.** -/
theorem Built.determined (h₁ : Built env s₀ s₁) (h₂ : Built env s₀ s₂) (h₀ : s₀.history = [])
    (hchain : s₁.chain = s₂.chain)
    (hlook : s₁.history.map (·.lookups) = s₂.history.map (·.lookups)) :
    s₁.core = s₂.core ∧ s₁.fin = s₂.fin := by
  unfold ChainState.chain at hchain
  induction h₁ generalizing s₂ with
  | start =>
      cases h₂ with
      | start => exact ⟨rfl, rfl⟩
      | applied h hr =>
          obtain ⟨r, -, hx⟩ := applyInSession_record hr
          rw [hx, h₀] at hchain
          exact absurd hchain (by simp)
  | applied h hr ih =>
      obtain ⟨r, hb, hx⟩ := applyInSession_record hr
      cases h₂ with
      | start =>
          rw [hx, h₀] at hchain
          exact absurd hchain (by simp)
      | applied h' hr' =>
          obtain ⟨r', hb', hx'⟩ := applyInSession_record hr'
          rw [hx, hx'] at hchain hlook
          obtain ⟨hblock, hchain⟩ := List.cons.inj hchain
          obtain ⟨hrec, hlook⟩ := List.cons.inj hlook
          obtain ⟨hcore, hfin⟩ := ih h' hchain hlook
          obtain rfl := hb.symm.trans (hblock.trans hb')
          exact applyInSession_determined hr hr' hcore hfin (by rw [hx, hx']; exact congrArg some hrec)

end Built

namespace Database

open Prog Relation UndoDb

variable {Tx L : Type} {U : SignedBlock Tx → Prop} {env : Env Tx L} {s₀ : ChainState Tx L}
  {db db' : Database Tx L}

/-! ## Every layer is built -/

/-- The newest block is not completely applied yet. -/
def HeadOpen (db : Database Tx L) : Prop := ∃ r rs, db.state.history = r :: rs ∧ r.complete = false

theorem LibTick.headOpen (t : LibTick db db') (h : HeadOpen db) : HeadOpen db' := by
  obtain ⟨r, rs, hh, hr⟩ := h
  cases t with
  | supported _ =>
      unfold raiseSupported
      split <;> exact ⟨r, rs, hh, hr⟩
  | confirmed _ _ => exact ⟨r, rs, hh, hr⟩
  | written hw =>
      have hc : db'.chainbase = db.chainbase := hw.chainbase
      unfold HeadOpen Database.state
      rw [hc]
      exact ⟨r, rs, hh, hr⟩
  | identified =>
      refine ⟨{ r with libIds := r.libIds ++ [db.readIrreversible.map (·.id)] }, rs, ?_, hr⟩
      show db.state.history.modifyHead _ = _
      rw [hh]
      rfl
  | trimmed => exact ⟨r, rs, hh, hr⟩

/-- Only the last step of a block application completes the record. -/
theorem finishStages_headOpen (skip : Skip) (b : SignedBlock Tx) (active : Bool) (db : Database Tx L) :
    MovesAt (Keeps HeadOpen) (finishStages env skip b active) db := by
  refine MovesAt.bind (updateLastIrreversibleBlock_moves (R := Keeps HeadOpen)
    (fun _ _ t => t.headOpen) skip db) fun _ x₁ _ => ?_
  refine MovesAt.bind (onCore_moves x₁ fun _ _ h => h) fun _ x₂ _ => ?_
  refine MovesAt.bind (MovesAt.modify ?_) fun _ x₃ _ => ?_
  · intro h
    unfold HeadOpen
    rw [notifyEmergency_state]
    exact h
  refine MovesAt.bind (onCore_moves x₃ fun _ _ h => h) fun _ x₄ _ => ?_
  refine MovesAt.bind (checkBlockPostValidationChain_moves (R := Keeps HeadOpen)
    (fun _ _ t => t.headOpen) (fun _ _ h => h) x₄) fun _ x₅ _ => ?_
  exact MovesAt.modify fun h => h

/-- **A block application that threw after the head had moved** left the record of the block open. -/
theorem finishBlock_error {skip skip' : Skip} {b : SignedBlock Tx} {active : Bool} {c : Core L} {e : Exn}
    (h : finishBlock env skip b active (db.startUndoSession.entered b skip' c) = .error e db') :
    HeadOpen db' := by
  have hent : HeadOpen (db.startUndoSession.entered b skip' c) := by
    refine ⟨{ block := b, txSkip := skip'.forTransactions, libTime := db.startUndoSession.libTime },
      db.state.history, ?_, rfl⟩
    unfold Database.state
    rw [(entered_chainbase b skip' c db.startUndoSession).1]
    rfl
  rcases bind_eq_error h with h | ⟨_, _, -, h⟩
  · exact (finishStages_headOpen skip b active _).of_error h hent
  · exact absurd h (by simp)

/-- **Every clean layer is built from `s₀`.** -/
def AllBuilt (env : Env Tx L) (s₀ : ChainState Tx L) (db : Database Tx L) : Prop :=
  ∀ s ∈ db.chainbase.layers, s.Clean → Built env s₀ s

theorem AllBuilt.of_subset (h : AllBuilt env s₀ db)
    (hl : ∀ s ∈ db'.chainbase.layers, s ∈ db.chainbase.layers) : AllBuilt env s₀ db' :=
  fun s hs => h s (hl s hs)

theorem applyInSession_allBuilt (b : SignedBlock Tx) (skip : Skip) (h : AllBuilt env s₀ db) :
    AllBuilt env s₀ (after (applyInSession env b skip) db) := by
  rcases applyInSession_cases env b skip db with
    ⟨e, he⟩ | ⟨skip', c, x, -, -, ht, hrun⟩
  · rw [after_error he]
    exact h
  · have hst : x.chainbase.stack <+: (db.chainbase.revision + 1, db.state) :: db.chainbase.stack := by
      have := (BlockTicks.raises ht).2
      rw [(entered_chainbase b skip' c db.startUndoSession).1] at this
      exact this
    have hsaved : ∀ e ∈ x.chainbase.stack, e.2 ∈ db.chainbase.layers := by
      intro e he
      rcases List.mem_cons.mp (hst.subset he) with rfl | he
      · exact state_mem_layers _
      · exact List.mem_cons_of_mem _ (List.mem_map_of_mem he)
    rcases hrun with ⟨-, hr⟩ | ⟨e, hf, hr⟩
    · rw [after_ok hr]
      intro s hs hclean
      rcases mem_layers.mp hs with rfl | ⟨e, he, rfl⟩
      · obtain ⟨r, -, hx⟩ := applyInSession_record hr
        refine .applied (h _ (state_mem_layers _) fun r' hr' => hclean r' ?_) hr
        show r' ∈ x.state.history
        rw [hx]
        exact List.mem_cons_of_mem _ hr'
      · exact h _ (hsaved e he) hclean
    · rw [after_error hr]
      intro s hs hclean
      have hs' : s ∈ x.chainbase.undo.layers := hs
      rcases undo_cases x.chainbase with ⟨hnil, hu⟩ | ⟨e', st, hcons, hu⟩
      · -- the block's own session was committed: what is left is half applied
        rw [hu] at hs'
        obtain ⟨r, rs, hh, hopen⟩ := finishBlock_error hf
        have heq : s = x.chainbase.state := by simpa [layers, hnil] using hs'
        have := (hclean r (by rw [heq]; exact hh ▸ List.mem_cons_self)).1
        exact absurd this (by simp [hopen])
      · rw [hu] at hs'
        refine h s ?_ hclean
        rcases List.mem_cons.mp hs' with rfl | hs'
        · exact hsaved e' (by simp [hcons])
        · obtain ⟨e'', he'', rfl⟩ := List.mem_map.mp hs'
          exact hsaved e'' (by simp [hcons, he''])

/-- A correction by nothing is none, and any other one leaves its trace. -/
theorem correctAslot_clean {name : AccountName} (hne : db.state.history ≠ [])
    (hc : (correctAslot name db).state.Clean) : (correctAslot name db).state = db.state := by
  obtain ⟨r, rs, hh⟩ := List.exists_cons_of_ne_nil hne
  have hstate : (correctAslot name db).state =
      { db.state with
        core    := { db.state.core with
                     currentAslot := db.state.core.currentAslot + aslotCorrection db.state.core name }
        history := { r with aslotDelta := r.aslotDelta + aslotCorrection db.state.core name } :: rs } := by
    show ChainState.mk _ _ (db.state.history.modifyHead _) = _
    rw [hh]
    rfl
  have hdelta := (hc { r with aslotDelta := r.aslotDelta + aslotCorrection db.state.core name }
    (by rw [hstate]; simp)).2
  have hzero : aslotCorrection db.state.core name = 0 := Nat.eq_zero_of_add_eq_zero_left hdelta
  rw [hstate, hzero, Nat.add_zero, Nat.add_zero]
  show ({ db.state with history := r :: rs } : ChainState Tx L) = db.state
  rw [← hh]

theorem Move.allBuilt {stop : ChainState Tx L → Prop} (m : Move env U stop db db')
    (h : AllBuilt env s₀ db) : AllBuilt env s₀ db' := by
  cases m with
  | forkDb f => exact h
  | popped txs => exact h
  | applied hb skip => exact applyInSession_allBuilt _ skip h
  | undone _ => exact h.of_subset fun _ hs => mem_layers_undo hs
  | aslot hne name =>
      intro s hs hclean
      rcases List.mem_cons.mp hs with rfl | hs
      · have heq := correctAslot_clean hne hclean
        show Built env s₀ (correctAslot name db).state
        rw [heq]
        exact h _ (state_mem_layers _) (heq ▸ hclean)
      · exact h s (List.mem_cons_of_mem _ hs) hclean

theorem Moves.allBuilt {stop : ChainState Tx L → Prop} (m : ReflTransGen (Move env U stop) db db')
    (h : AllBuilt env s₀ db) : AllBuilt env s₀ db' := by
  induction m with
  | refl => exact h
  | tail _ m ih => exact m.allBuilt ih

/-- The layers blocks have made: all of them, without the newest one while it holds pending
    transactions. -/
def blockLayers (db : Database Tx L) : List (ChainState Tx L) :=
  if db.pendingTxSession then db.chainbase.stack.map Prod.snd else db.chainbase.layers

theorem TxMoves.blockLayers (t : ReflTransGen (TxMove env) db db') : db'.blockLayers = db.blockLayers := by
  induction t with
  | refl => rfl
  | tail _ t ih =>
      refine Eq.trans ?_ ih
      cases t with
      | queued _ _ => rfl
      | opened =>
          unfold openPendingSession
          split
          · rfl
          · next hp => simp [Database.blockLayers, hp, startUndoSession, layers]
      | executed hp _ => simp [Database.blockLayers, hp, modifyState]

theorem clearPending_layers (h : PendingOpen db) : db.clearPending.chainbase.layers = db.blockLayers := by
  unfold clearPending resetPendingSession blockLayers
  split
  · next hp =>
      obtain ⟨e, st, hst⟩ := List.exists_cons_of_ne_nil (h hp)
      simp [undo, UndoDb.undo, hst, layers]
  · rfl

/-- Every clean layer that blocks have made is built. -/
def BlocksBuilt (env : Env Tx L) (s₀ : ChainState Tx L) (db : Database Tx L) : Prop :=
  ∀ s ∈ db.blockLayers, s.Clean → Built env s₀ s

theorem step_blocksBuilt {x : Step Tx} (hx : x.From U) (hsil : x.Silent) (hst : Stored U db)
    (hopen : PendingOpen db) (h : BlocksBuilt env s₀ db) : BlocksBuilt env s₀ (step env db x) := by
  cases x with
  | block b skip =>
      obtain ⟨y, hy, hm, -, ht⟩ := pushBlock_moving hx (stopsAt_never b skip db.clearPending) hst
      have hclear : AllBuilt env s₀ db.clearPending := by
        unfold AllBuilt
        rw [clearPending_layers hopen]
        exact h
      have hlayers : y.blockLayers = y.chainbase.layers := by simp [blockLayers, hy.idle]
      show ∀ s ∈ (after (pushBlock env b skip) db).blockLayers, _
      rw [TxMoves.blockLayers ht, hlayers]
      exact Moves.allBuilt hm hclear
  | confirmation id account => exact hsil.elim
  | transaction tx skip =>
      show ∀ s ∈ (after (pushTransaction env tx skip) db).blockLayers, _
      rw [TxMoves.blockLayers (pushTransaction_moves hopen tx skip)]
      exact h

/-! ## Two nodes -/

/-- **A node that has just been opened**: nothing applied yet, nothing to undo, nothing pending. -/
structure Opened (db : Database Tx L) : Prop where
  history : db.state.history = []
  stack   : db.chainbase.stack = []
  idle    : db.pendingTxSession = false

/-- The state without pending transactions was built by the run, if it is clean. -/
theorem run_built {base : BlockId} (hU : Universe U) (h : InOrder U base db) (hopen : Opened db)
    {steps : List (Step Tx)} (hs : ∀ x ∈ steps, x.From U ∧ x.Silent)
    (hclean : (run env db steps).clearPending.state.Clean) :
    Built env db.state (run env db steps).clearPending.state := by
  have hrun : InOrder U base (run env db steps) ∧ BlocksBuilt env db.state (run env db steps) := by
    refine run_induction (P := fun x => x.From U ∧ x.Silent)
      (I := fun x => InOrder U base x ∧ BlocksBuilt env db.state x) (fun x e he hI => ⟨?_, ?_⟩) ⟨h, ?_⟩ hs
    · have hord : InOrder U base (run env x [e]) := (run_inOrder hU (by simpa using he.1) hI.1).1
      exact hord
    · exact step_blocksBuilt he.1 he.2 hI.1.stored hI.1.layers.pendingOpen hI.2
    · intro s hs' _
      have heq : s = db.chainbase.state := by
        simpa [blockLayers, hopen.idle, layers, hopen.stack] using hs'
      rw [heq]
      exact .start
  refine hrun.2 _ ?_ hclean
  rw [← clearPending_layers hrun.1.layers.pendingOpen]
  exact state_mem_layers _

end Database

/-- **The head determines the chain.** -/
theorem Chained.unique {Tx : Type} {U : SignedBlock Tx → Prop} (hU : Universe U) {base : BlockId}
    {c d : List (SignedBlock Tx)} (hc : Chained base c) (hd : Chained base d) (hcU : ∀ b ∈ c, U b)
    (hdU : ∀ b ∈ d, U b) (htip : tipId base c = tipId base d) : c = d := by
  have hpos : ∀ (b : SignedBlock Tx) (bs : List (SignedBlock Tx)), Chained base (b :: bs) →
      (∀ x ∈ b :: bs, U x) → b.id ≠ base := by
    intro b bs hch hmem hid
    have hlt := (Chained.num_le (c := []) hU (by simpa using hch) (by simpa using hmem)).2 b (by simp)
    rw [← hid] at hlt
    exact Nat.lt_irrefl _ hlt
  induction c generalizing d with
  | nil =>
      cases d with
      | nil => rfl
      | cons b bs => exact absurd htip.symm (hpos b bs hd hdU)
  | cons a as ih =>
      cases d with
      | nil => exact absurd htip (hpos a as hc hcU)
      | cons b bs =>
          obtain rfl := hU.inj _ _ (hcU a (by simp)) (hdU b (by simp)) htip
          rw [ih hc.2 hd.2 (fun x hx => hcU x (by simp [hx])) (fun x hx => hdU x (by simp [hx]))
            (hc.1.symm.trans hd.1)]

namespace Database

variable {Tx L : Type} {U : SignedBlock Tx → Prop} {env : Env Tx L} {db₁ db₂ : Database Tx L}

/-- **The state is a function of the applied chain**, where the chain was applied cleanly and the lookups
    agree. Two nodes start in the same state and receive blocks in any order, but no confirmations. If they
    end with the same head, then without their pending transactions they are in the same state. -/
theorem state_of_chain {base : BlockId} (hU : Universe U) (h₁ : InOrder U base db₁)
    (h₂ : InOrder U base db₂) (ho₁ : Opened db₁) (ho₂ : Opened db₂) (hstate : db₁.state = db₂.state)
    {steps₁ steps₂ : List (Step Tx)} (hs₁ : ∀ x ∈ steps₁, x.From U ∧ x.Silent)
    (hs₂ : ∀ x ∈ steps₂, x.From U ∧ x.Silent)
    (hhead : (run env db₁ steps₁).clearPending.headBlockId = (run env db₂ steps₂).clearPending.headBlockId)
    (hclean₁ : (run env db₁ steps₁).clearPending.state.Clean)
    (hclean₂ : (run env db₂ steps₂).clearPending.state.Clean)
    (hlook : (run env db₁ steps₁).clearPending.state.history.map (·.lookups) =
      (run env db₂ steps₂).clearPending.state.history.map (·.lookups)) :
    (run env db₁ steps₁).clearPending.state.core = (run env db₂ steps₂).clearPending.state.core ∧
      (run env db₁ steps₁).clearPending.state.fin = (run env db₂ steps₂).clearPending.state.fin := by
  have hwf : ∀ {db : Database Tx L} {steps : List (Step Tx)}, InOrder U base db →
      (∀ x ∈ steps, x.From U ∧ x.Silent) → (run env db steps).clearPending.state.WellFormed U base := by
    intro db steps hord hs
    have hrun : InOrder U base (run env db steps) := (run_inOrder hU (fun x hx => (hs x hx).1) hord).1
    exact (clearPending_advances _ hrun.layers).1.wellFormed
  have hw₁ := hwf h₁ hs₁
  have hw₂ := hwf h₂ hs₂
  have hb₂ := run_built hU h₂ ho₂ hs₂ hclean₂
  rw [← hstate] at hb₂
  refine (run_built hU h₁ ho₁ hs₁ hclean₁).determined hb₂ ho₁.history ?_ hlook
  exact Chained.unique hU hw₁.chained hw₂.chained hw₁.exists_ hw₂.exists_
    (hw₁.headId.symm.trans (hhead.trans hw₂.headId))

end Database

namespace Sample

/-- Two blocks out of schedule, and a block that competes with the first of them. -/
def m2 : SignedBlock Tx := block block1.id 6 4 2
def m3 : SignedBlock Tx := block m2.id 9 3 3
def side2 : SignedBlock Tx := block block1.id 6 3 5

/-- A light block that competes with `b2`. -/
def light2 : SignedBlock Tx := block block1.id 12 1 30

/-- The late node, without any stored block. -/
def lateNodeEmpty : Database Tx Unit :=
  { lateNode with forkDb := { index := [], unlinkedIndex := [], head := none, nextPtr := 2 } }

def blocks (bs : List (SignedBlock Tx)) : List (Step Tx) := bs.map (.block · Skip.nothing)

end Sample

namespace Database

open Sample in
/-- **The state depends on the way**: the absolute slot is corrected when blocks out of schedule extend the
    head, and not when they come by a fork switch; and nodes that start in the same state, one of them
    without stored blocks, disagree on the emergency mode. -/
theorem state_depends_on_way :
    ((run env four (blocks [m2, m3])).headBlockId = (run env four (blocks [side2, m2, m3])).headBlockId ∧
      (run env four (blocks [m2, m3])).clearPending.state.core.currentAslot = 6 ∧
      (run env four (blocks [side2, m2, m3])).clearPending.state.core.currentAslot = 3) ∧
    (lateNode.state = lateNodeEmpty.state ∧
      (run env lateNode (blocks [late3])).headBlockId = (run env lateNodeEmpty (blocks [late3])).headBlockId ∧
      (run env lateNode (blocks [late3])).clearPending.state.core.emergencyConsensusActive = true ∧
      (run env lateNodeEmpty (blocks [late3])).clearPending.state.core.emergencyConsensusActive = false) :=
  ⟨by decide +kernel, rfl, by decide +kernel⟩

open Sample in
/-- A fork switch ends in the state of a linear chain. -/
theorem state_of_chain_sample :
    (run env four (blocks [b2, b3])).clearPending.headBlockId = b3.id ∧
    (run env four (blocks [b2, b3])).clearPending.state.core =
      (run env four (blocks [light2, b2, b3])).clearPending.state.core := by
  have hU : Universe (· ∈ [block1, b2, b3, light2]) :=
    Universe.of_list (by decide +kernel) (by decide +kernel)
  have hord : InOrder (· ∈ [block1, b2, b3, light2]) block1.id four :=
    node_inOrder (by simp) (by decide +kernel) _
  have hopen : Opened four := ⟨rfl, rfl, rfl⟩
  refine ⟨by decide +kernel, (state_of_chain hU hord hord hopen hopen rfl ?_ ?_ ?_ ?_ ?_ ?_).1⟩ <;>
    decide +kernel

end Database

end VizNode
