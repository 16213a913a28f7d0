import VizNode.Chain.Determined

/-!
# `VizNode.Chain.Traces` — the core of every state, traced along its chain

An invariant of the core is proved about one block at a time. **Every state a node is in, or can come back to,
was made that way**: its core is traced from the core the node was opened with by applying the recorded blocks
one after the other (`run_traced`), whatever routes the blocks took and whatever was undone in between. On top of
the newest block there may be pending transactions.

A trace does not say how far the application of a block came, nor whether the absolute slot was corrected
afterwards: `Finish` allows any of it.
-/

namespace VizNode

/-- A block with what its application took from outside. -/
structure Entry (Tx : Type) where
  block   : SignedBlock Tx
  txSkip  : Skip
  libTime : Option Nat
deriving DecidableEq

def AppliedBlock.entry {Tx : Type} (r : AppliedBlock Tx) : Entry Tx := ⟨r.block, r.txSkip, r.libTime⟩

/-- The blocks of the state's chain, newest first. -/
def ChainState.entries {Tx L : Type} (s : ChainState Tx L) : List (Entry Tx) := s.history.map (·.entry)

/-! ## Traces -/

namespace Core

open Relation

variable {Tx L : Type} {env : Env Tx L} {c₀ c c' : Core L}

/-- What may happen to the core once the head has moved to `b`. -/
inductive Finish (env : Env Tx L) (b : SignedBlock Tx) : Core L → Core L → Prop where
  | scheduled {c c' : Core L} (h : c.finishSchedule env b = .ok c') : Finish env b c c'
  | funded {c c' : Core L} (h : c.finishLedger env = .ok c') : Finish env b c c'
  | shifted {c : Core L} (n : Nat) : Finish env b c { c with currentAslot := c.currentAslot + n }

/-- A pending transaction is executed. -/
inductive Executes (env : Env Tx L) : Core L → Core L → Prop where
  | transaction {c c' : Core L} {skip : Skip} {tx : Tx}
      (h : c.runLedger env (env.applyTransaction skip tx) = .ok c') : Executes env c c'

/-- **The core was made from `c₀`** by the blocks of the list, newest first. -/
inductive Traced (env : Env Tx L) (c₀ : Core L) : List (Entry Tx) → Core L → Prop where
  | start : Traced env c₀ [] c₀
  | block {rs : List (Entry Tx)} {c c₁ c' : Core L} {r : Entry Tx} {skip : Skip} {lib : Nat}
      (h : Traced env c₀ rs c) (hskip : r.txSkip = skip.forTransactions)
      (hb : c.beginBlock env skip lib r.libTime r.block = .ok c₁)
      (hf : ReflTransGen (Finish env r.block) c₁ c') : Traced env c₀ (r :: rs) c'

/-- The newest block goes on. -/
theorem Traced.finish {r : Entry Tx} {rs : List (Entry Tx)} (h : Traced env c₀ (r :: rs) c)
    (hf : Finish env r.block c c') : Traced env c₀ (r :: rs) c' := by
  cases h with
  | block h hskip hb hf' => exact .block h hskip hb (hf'.tail hf)

/-- **The trace rule.** What the first core has, and every block and its finish keep, every traced core has. -/
theorem Traced.induction {P : Core L → Prop} {l : List (Entry Tx)} (h : Traced env c₀ l c) (h₀ : P c₀)
    (hbegin : ∀ r rs, r :: rs <:+ l → ∀ d skip lib d', Traced env c₀ rs d → r.txSkip = skip.forTransactions →
      d.beginBlock env skip lib r.libTime r.block = .ok d' → P d → P d')
    (hfinish : ∀ b d d', Finish env b d d' → P d → P d') : P c := by
  induction h with
  | start => exact h₀
  | @block rs d d₁ d' r skip lib h hskip hb hf ih =>
      have hd : P d := ih fun r' rs' hs => hbegin r' rs' (hs.trans (List.suffix_cons r rs))
      have hd₁ : P d₁ := hbegin r rs List.suffix_rfl d skip lib d₁ h hskip hb hd
      clear hb
      induction hf with
      | refl => exact hd₁
      | tail _ hf ih => exact hfinish _ _ _ hf ih

end Core

/-! ## Every layer is traced -/

namespace Database

open Prog Relation UndoDb Core

variable {Tx L : Type} {U : SignedBlock Tx → Prop} {env : Env Tx L} {c₀ : Core L} {b : SignedBlock Tx}
  {db db' : Database Tx L}

/-- The core of the state is traced along the state's chain. -/
def TracedState (env : Env Tx L) (c₀ : Core L) (s : ChainState Tx L) : Prop := Traced env c₀ s.entries s.core

/-- The record of the newest block keeps its entry. -/
theorem entries_modifyHead (s : ChainState Tx L) {f : AppliedBlock Tx → AppliedBlock Tx}
    (hf : ∀ r, (f r).entry = r.entry) : (s.history.modifyHead f).map (·.entry) = s.entries := by
  unfold ChainState.entries
  cases s.history with
  | nil => rfl
  | cons r rs => simp [hf]

/-- Irreversibility leaves the core and the entries alone. -/
theorem LibTick.entries (t : LibTick db db') :
    db'.state.core = db.state.core ∧ db'.state.entries = db.state.entries := by
  refine ⟨t.frame.1, ?_⟩
  cases t with
  | supported _ =>
      unfold raiseSupported
      split <;> rfl
  | written hw =>
      have hc : db'.chainbase = db.chainbase := hw.chainbase
      unfold Database.state
      rw [hc]
  | identified => exact entries_modifyHead db.state fun _ => rfl
  | _ => rfl

/-- The newest state is traced, and its newest block is `b`. -/
structure Applying (env : Env Tx L) (c₀ : Core L) (b : SignedBlock Tx) (db : Database Tx L) : Prop where
  traced : TracedState env c₀ db.state
  newest : ∃ r rs, db.state.entries = r :: rs ∧ r.block = b

theorem Applying.congr (h : Applying env c₀ b db) (hc : db'.state.core = db.state.core)
    (he : db'.state.entries = db.state.entries) : Applying env c₀ b db' := by
  refine ⟨?_, he ▸ h.newest⟩
  unfold TracedState
  rw [hc, he]
  exact h.traced

theorem Applying.finish {c : Core L} (h : Applying env c₀ b db) (hf : Finish env b db.state.core c) :
    Applying env c₀ b (db.modifyState fun s => { s with core := c }) := by
  obtain ⟨r, rs, he, hr⟩ := h.newest
  refine ⟨?_, h.newest⟩
  show Traced env c₀ db.state.entries c
  have ht : Traced env c₀ db.state.entries db.state.core := h.traced
  rw [he] at ht ⊢
  rw [← hr] at hf
  exact ht.finish hf

theorem BlockTick.applying (t : BlockTick env b db db') (h : Applying env c₀ b db) : Applying env c₀ b db' := by
  cases t with
  | lib t => exact h.congr t.entries.1 t.entries.2
  | scheduled hf => exact h.finish (.scheduled hf)
  | funded hf => exact h.finish (.funded hf)
  | completed => exact h.congr rfl (entries_modifyHead db.state fun _ => rfl)
  | _ => exact h.congr rfl rfl

theorem BlockTicks.applying (t : BlockTicks env b db db') (h : Applying env c₀ b db) : Applying env c₀ b db' := by
  induction t with
  | refl => exact h
  | tail _ t ih => exact t.applying ih

/-- **Every layer is traced.** -/
def AllTraced (env : Env Tx L) (c₀ : Core L) (db : Database Tx L) : Prop :=
  ∀ s ∈ db.chainbase.layers, TracedState env c₀ s

theorem AllTraced.of_subset (h : AllTraced env c₀ db)
    (hl : ∀ s ∈ db'.chainbase.layers, s ∈ db.chainbase.layers) : AllTraced env c₀ db' :=
  fun s hs => h s (hl s hs)

theorem applyInSession_allTraced (b : SignedBlock Tx) (skip : Skip) (h : AllTraced env c₀ db) :
    AllTraced env c₀ (after (applyInSession env b skip) db) := by
  rcases applyInSession_cases env b skip db with ⟨e, he⟩ | ⟨skip', c, x, -, hb, ht, hrun⟩
  · rw [after_error he]
    exact h
  · have hent : Applying env c₀ b (db.startUndoSession.entered b skip' c) := by
      have hstate : (db.startUndoSession.entered b skip' c).state =
          { db.state with
            core    := c
            history := { block := b, txSkip := skip'.forTransactions, libTime := db.libTime } ::
              db.state.history } := by
        unfold Database.state
        rw [(entered_chainbase b skip' c db.startUndoSession).1]
        rfl
      refine ⟨?_, ?_⟩
      · unfold TracedState
        rw [hstate]
        exact .block (h _ (state_mem_layers _)) rfl hb .refl
      · rw [hstate]
        exact ⟨_, _, rfl, rfl⟩
    have hx : Applying env c₀ b x := BlockTicks.applying ht hent
    have hst : x.chainbase.stack <+: (db.chainbase.revision + 1, db.state) :: db.chainbase.stack := by
      have := (BlockTicks.raises ht).2
      rw [(entered_chainbase b skip' c db.startUndoSession).1] at this
      exact this
    have hlayers : AllTraced env c₀ x := by
      intro s hs
      rcases mem_layers.mp hs with rfl | ⟨e, he, rfl⟩
      · exact hx.traced
      · rcases List.mem_cons.mp (hst.subset he) with rfl | he
        · exact h _ (state_mem_layers _)
        · exact h _ (List.mem_cons_of_mem _ (List.mem_map_of_mem he))
    rcases hrun with ⟨-, hr⟩ | ⟨e, -, hr⟩
    · rw [after_ok hr]
      exact hlayers
    · rw [after_error hr]
      exact hlayers.of_subset fun _ hs => mem_layers_undo hs

theorem Move.allTraced {stop : ChainState Tx L → Prop} (m : Move env U stop db db') (h : AllTraced env c₀ db) :
    AllTraced env c₀ db' := by
  cases m with
  | forkDb f => exact h
  | popped txs => exact h
  | applied hb skip => exact applyInSession_allTraced _ skip h
  | undone _ => exact h.of_subset fun _ hs => mem_layers_undo hs
  | aslot hne name =>
      intro s hs
      rcases List.mem_cons.mp hs with rfl | hs
      · obtain ⟨r, rs, hh⟩ := List.exists_cons_of_ne_nil hne
        have hstate : TracedState env c₀ db.state := h _ (state_mem_layers _)
        have happ : Applying env c₀ r.block db := ⟨hstate, r.entry, rs.map (·.entry), by
          unfold ChainState.entries
          rw [hh]
          rfl, rfl⟩
        have hshift := happ.finish (.shifted (aslotCorrection db.state.core name))
        have hdone : Applying env c₀ r.block (correctAslot name db) :=
          hshift.congr rfl (entries_modifyHead db.state fun _ => rfl)
        exact hdone.traced
      · exact h s (List.mem_cons_of_mem _ hs)

theorem Moves.allTraced {stop : ChainState Tx L → Prop} (m : ReflTransGen (Move env U stop) db db')
    (h : AllTraced env c₀ db) : AllTraced env c₀ db' := by
  induction m with
  | refl => exact h
  | tail _ m ih => exact m.allTraced ih

/-! ## Runs -/

/-- **The node is traced**: the layers blocks have made are, and on the newest of them come the pending
    transactions. -/
structure NodeTraced (env : Env Tx L) (c₀ : Core L) (db : Database Tx L) : Prop where
  blocks : ∀ s ∈ db.blockLayers, TracedState env c₀ s
  newest : ∃ c, Traced env c₀ db.state.entries c ∧ ReflTransGen (Executes env) c db.state.core

theorem nodeTraced_of_idle (h : AllTraced env c₀ db) (hidle : db.pendingTxSession = false) :
    NodeTraced env c₀ db := by
  refine ⟨?_, db.state.core, h _ (state_mem_layers _), .refl⟩
  have hlayers : db.blockLayers = db.chainbase.layers := by simp [blockLayers, hidle]
  rw [hlayers]
  exact h

theorem TxMoves.nodeTraced (t : ReflTransGen (TxMove env) db db') (h : NodeTraced env c₀ db) :
    NodeTraced env c₀ db' := by
  refine ⟨?_, ?_⟩
  · rw [TxMoves.blockLayers t]
    exact h.blocks
  · induction t with
    | refl => exact h.newest
    | tail _ t ih =>
        obtain ⟨c, hc, he⟩ := ih
        cases t with
        | queued _ _ => exact ⟨c, hc, he⟩
        | opened =>
            refine ⟨c, ?_, ?_⟩
            · unfold openPendingSession
              split <;> exact hc
            · unfold openPendingSession
              split <;> exact he
        | executed _ h => exact ⟨c, hc, he.tail (.transaction h)⟩

/-- Layers may be dropped, as long as the newest state keeps its core and its entries. -/
theorem NodeTraced.congr (h : NodeTraced env c₀ db) (hcore : db'.state.core = db.state.core)
    (hentries : db'.state.entries = db.state.entries) (hsess : db'.pendingTxSession = db.pendingTxSession)
    (hstack : db'.chainbase.stack <+: db.chainbase.stack) : NodeTraced env c₀ db' := by
  have hold := h.blocks
  refine ⟨?_, ?_⟩
  · intro s hs
    unfold blockLayers at hs hold
    rw [hsess] at hs
    cases hp : db.pendingTxSession with
    | true =>
        rw [hp, if_pos rfl] at hs hold
        obtain ⟨e, he, rfl⟩ := List.mem_map.mp hs
        exact hold _ (List.mem_map_of_mem (hstack.subset he))
    | false =>
        rw [hp, if_neg (by simp)] at hs hold
        rcases mem_layers.mp hs with rfl | ⟨e, he, rfl⟩
        · show Traced env c₀ db'.state.entries db'.state.core
          rw [hcore, hentries]
          exact hold _ (state_mem_layers _)
        · exact hold _ (mem_layers.mpr (.inr ⟨e, hstack.subset he, rfl⟩))
  · rw [hcore, hentries]
    exact h.newest

theorem ConfirmTick.nodeTraced {id : BlockId} {account : AccountName} (t : ConfirmTick id account db db')
    (h : NodeTraced env c₀ db) : NodeTraced env c₀ db' := by
  cases t with
  | lib t => exact h.congr t.entries.1 t.entries.2 t.kept.session t.raises.2
  | marked _ _ => exact h.congr rfl rfl rfl (List.prefix_refl _)

theorem step_nodeTraced {x : Step Tx} (hx : x.From U) (hst : Stored U db) (hopen : PendingOpen db)
    (h : NodeTraced env c₀ db) : NodeTraced env c₀ (step env db x) := by
  cases x with
  | block b skip =>
      obtain ⟨y, hy, hm, -, ht⟩ := pushBlock_moving hx (stopsAt_never b skip db.clearPending) hst
      have hclear : AllTraced env c₀ db.clearPending := by
        unfold AllTraced
        rw [clearPending_layers hopen]
        exact h.blocks
      exact TxMoves.nodeTraced ht (nodeTraced_of_idle (Moves.allTraced hm hclear) hy.idle)
  | confirmation id account =>
      exact applyBlockPostValidation_moves (R := Keeps (NodeTraced env c₀)) (fun _ _ t => t.nodeTraced) db h
  | transaction tx skip => exact TxMoves.nodeTraced (pushTransaction_moves hopen tx skip) h

/-- **Every state of a run is traced from the start.** -/
theorem run_traced {base : BlockId} (hU : Universe U) (h : InOrder U base db) (hopen : Opened db)
    {steps : List (Step Tx)} (hs : ∀ x ∈ steps, x.From U) : NodeTraced env db.state.core (run env db steps) := by
  have hrun : InOrder U base (run env db steps) ∧ NodeTraced env db.state.core (run env db steps) := by
    refine run_induction (P := fun x => x.From U)
      (I := fun x => InOrder U base x ∧ NodeTraced env db.state.core x) (fun x e he hI => ⟨?_, ?_⟩) ⟨h, ?_⟩ hs
    · have hord : InOrder U base (run env x [e]) := (run_inOrder hU (by simpa using he) hI.1).1
      exact hord
    · exact step_nodeTraced he hI.1.stored hI.1.layers.pendingOpen hI.2
    · refine nodeTraced_of_idle (fun s hs => ?_) hopen.idle
      have heq : s = db.chainbase.state := by simpa [layers, hopen.stack] using hs
      rw [heq]
      unfold TracedState ChainState.entries
      have hh : db.chainbase.state.history = [] := hopen.history
      rw [hh]
      exact .start
  exact hrun.2

end Database

end VizNode
