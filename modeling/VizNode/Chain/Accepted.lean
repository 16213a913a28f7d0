import VizNode.Chain.Traces

/-!
# `VizNode.Chain.Accepted` — the blocks a node has accepted

A trace does not say how far the application of a block came. For a **clean** chain, without a half applied block and
without a correction of the absolute slot, it does: the core was made by the applications of its blocks, each of them
from the first stage to the last (`run_accepted`). What arrived between the blocks does not matter, confirmations
included, for they do not touch the core.
-/

namespace VizNode

/-! ## Accepted blocks -/

namespace Core

variable {Tx L : Type}

/-- **The core was made from `c₀`** by the complete application of the blocks of the list, newest first. -/
inductive Accepted (env : Env Tx L) (c₀ : Core L) : List (Entry Tx) → Core L → Prop where
  | start : Accepted env c₀ [] c₀
  | block {rs : List (Entry Tx)} {c c₁ c₂ c₃ : Core L} {r : Entry Tx} {skip : Skip} {lib num : Nat}
      (h : Accepted env c₀ rs c) (hskip : r.txSkip = skip.forTransactions)
      (hb : c.beginBlock env skip lib r.libTime r.block = .ok c₁) (hnum : c₁.nextIrreversible = .ok num)
      (h₂ : c₁.finishSchedule env r.block = .ok c₂) (h₃ : c₂.finishLedger env = .ok c₃) :
      Accepted env c₀ (r :: rs) c₃

end Core

namespace Database

open Prog Relation UndoDb Core

variable {Tx L : Type} {U : SignedBlock Tx → Prop} {env : Env Tx L} {c₀ : Core L} {b : SignedBlock Tx}
  {db db' : Database Tx L}

/-- The core of the state was made by its blocks, if the state is clean. -/
def AcceptedState (env : Env Tx L) (c₀ : Core L) (s : ChainState Tx L) : Prop :=
  s.Clean → Accepted env c₀ s.entries s.core

/-- What a record has noted besides makes no difference. -/
theorem AcceptedState.congr {s s' : ChainState Tx L} (h : AcceptedState env c₀ s) (hcore : s'.core = s.core)
    (hentries : s'.entries = s.entries) (hclean : s'.Clean → s.Clean) : AcceptedState env c₀ s' := by
  intro hc
  rw [hcore, hentries]
  exact h (hclean hc)

/-- The clean records under a newest record of which only the ids have changed. -/
theorem clean_modifyHead (s : ChainState Tx L) {f : AppliedBlock Tx → AppliedBlock Tx}
    (hf : ∀ r, (f r).complete = r.complete ∧ (f r).aslotDelta = r.aslotDelta)
    (h : ({ s with history := s.history.modifyHead f } : ChainState Tx L).Clean) : s.Clean := by
  obtain ⟨core, fin, history⟩ := s
  cases history with
  | nil => exact fun _ hr => nomatch hr
  | cons r rs =>
      intro r' hr'
      rcases List.mem_cons.mp hr' with rfl | hr'
      · obtain ⟨hc, hd⟩ := h (f r') (by simp)
        exact ⟨(hf r').1 ▸ hc, (hf r').2 ▸ hd⟩
      · exact h r' (by simpa using Or.inr hr')

/-- Irreversibility makes no state clean that was not. -/
theorem LibTick.clean (t : LibTick db db') (h : db'.state.Clean) : db.state.Clean := by
  cases t with
  | supported _ =>
      unfold raiseSupported at h
      split at h <;> exact h
  | confirmed _ _ => exact h
  | written hw =>
      have hc : db'.chainbase = db.chainbase := hw.chainbase
      unfold Database.state at h
      rwa [hc] at h
  | identified =>
      exact clean_modifyHead db.state
        (f := fun r => { r with libIds := r.libIds ++ [db.readIrreversible.map (·.id)] }) (fun _ => ⟨rfl, rfl⟩) h
  | trimmed => exact h

/-! ## Every layer -/

/-- **Every clean layer was made by accepted blocks.** -/
def AllAccepted (env : Env Tx L) (c₀ : Core L) (db : Database Tx L) : Prop :=
  ∀ s ∈ db.chainbase.layers, AcceptedState env c₀ s

theorem AllAccepted.of_subset (h : AllAccepted env c₀ db)
    (hl : ∀ s ∈ db'.chainbase.layers, s ∈ db.chainbase.layers) : AllAccepted env c₀ db' :=
  fun s hs => h s (hl s hs)

theorem applyInSession_allAccepted (b : SignedBlock Tx) (skip : Skip) (h : AllAccepted env c₀ db) :
    AllAccepted env c₀ (after (applyInSession env b skip) db) := by
  rcases applyInSession_cases env b skip db with ⟨e, he⟩ | ⟨skip', c, x, -, -, ht, hrun⟩
  · rw [after_error he]
    exact h
  · have hst : x.chainbase.stack <+: (db.chainbase.revision + 1, db.state) :: db.chainbase.stack := by
      have := (BlockTicks.raises ht).2
      rw [(entered_chainbase b skip' c db.startUndoSession).1] at this
      exact this
    have hsaved : ∀ e ∈ x.chainbase.stack, e.2 ∈ db.chainbase.layers := by
      intro e he
      rcases List.mem_cons.mp (hst.subset he) with rfl | he
      · exact state_mem_layers _
      · exact List.mem_cons_of_mem _ (List.mem_map_of_mem he)
    rcases hrun with ⟨-, hr⟩ | ⟨e, hf, hr⟩
    · rw [after_ok hr]
      intro s hs hclean
      rcases mem_layers.mp hs with rfl | ⟨e, he, rfl⟩
      · obtain ⟨s', num, c₁, c₂, c₃, ids, -, hb, hnum, h₂, h₃, hx⟩ := applyInSession_ok hr
        have hbelow : db.state.Clean := by
          intro r' hr'
          refine hclean r' ?_
          show r' ∈ x.state.history
          rw [hx]
          exact List.mem_cons_of_mem _ hr'
        show Accepted env c₀ x.state.entries x.state.core
        rw [hx]
        exact .block (h _ (state_mem_layers _) hbelow) rfl hb hnum h₂ h₃
      · exact h _ (hsaved e he) hclean
    · rw [after_error hr]
      intro s hs hclean
      have hs' : s ∈ x.chainbase.undo.layers := hs
      rcases undo_cases x.chainbase with ⟨hnil, hu⟩ | ⟨e', st, hcons, hu⟩
      · -- the block's own session was committed: what is left is half applied
        rw [hu] at hs'
        obtain ⟨r, rs, hh, hopen⟩ := finishBlock_error hf
        have heq : s = x.chainbase.state := by simpa [layers, hnil] using hs'
        have := (hclean r (by rw [heq]; exact hh ▸ List.mem_cons_self)).1
        exact absurd this (by simp [hopen])
      · rw [hu] at hs'
        refine h s ?_ hclean
        rcases List.mem_cons.mp hs' with rfl | hs'
        · exact hsaved e' (by simp [hcons])
        · obtain ⟨e'', he'', rfl⟩ := List.mem_map.mp hs'
          exact hsaved e'' (by simp [hcons, he''])

theorem Move.allAccepted {stop : ChainState Tx L → Prop} (m : Move env U stop db db') (h : AllAccepted env c₀ db) :
    AllAccepted env c₀ db' := by
  cases m with
  | forkDb f => exact h
  | popped txs => exact h
  | applied hb skip => exact applyInSession_allAccepted _ skip h
  | undone _ => exact h.of_subset fun _ hs => mem_layers_undo hs
  | aslot hne name =>
      intro s hs hclean
      rcases List.mem_cons.mp hs with rfl | hs
      · have heq := correctAslot_clean hne hclean
        show Accepted env c₀ (correctAslot name db).state.entries (correctAslot name db).state.core
        rw [heq]
        exact h _ (state_mem_layers _) (heq ▸ hclean)
      · exact h s (List.mem_cons_of_mem _ hs) hclean

theorem Moves.allAccepted {stop : ChainState Tx L → Prop} (m : ReflTransGen (Move env U stop) db db')
    (h : AllAccepted env c₀ db) : AllAccepted env c₀ db' := by
  induction m with
  | refl => exact h
  | tail _ m ih => exact m.allAccepted ih

/-! ## Runs -/

/-- Every clean layer that blocks have made was made by accepted blocks. -/
def BlocksAccepted (env : Env Tx L) (c₀ : Core L) (db : Database Tx L) : Prop :=
  ∀ s ∈ db.blockLayers, AcceptedState env c₀ s

/-- A message may drop layers and write to the newest state, under which pending transactions may stand. -/
theorem BlocksAccepted.congr (h : BlocksAccepted env c₀ db) (hsess : db'.pendingTxSession = db.pendingTxSession)
    (hstack : db'.chainbase.stack <+: db.chainbase.stack) (hcore : db'.state.core = db.state.core)
    (hentries : db'.state.entries = db.state.entries) (hclean : db'.state.Clean → db.state.Clean) :
    BlocksAccepted env c₀ db' := by
  intro s hs
  unfold BlocksAccepted blockLayers at h
  unfold blockLayers at hs
  rw [hsess] at hs
  cases hp : db.pendingTxSession with
  | true =>
      rw [hp, if_pos rfl] at hs h
      obtain ⟨e, he, rfl⟩ := List.mem_map.mp hs
      exact h _ (List.mem_map_of_mem (hstack.subset he))
  | false =>
      rw [hp, if_neg (by simp)] at hs h
      rcases mem_layers.mp hs with rfl | ⟨e, he, rfl⟩
      · exact (h _ (state_mem_layers _)).congr hcore hentries hclean
      · exact h _ (mem_layers.mpr (.inr ⟨e, hstack.subset he, rfl⟩))

theorem ConfirmTick.accepted {id : BlockId} {account : AccountName} (t : ConfirmTick id account db db')
    (h : BlocksAccepted env c₀ db) : BlocksAccepted env c₀ db' := by
  cases t with
  | lib t => exact h.congr t.kept.session t.raises.2 t.entries.1 t.entries.2 t.clean
  | marked _ _ => exact h.congr rfl (List.prefix_refl _) rfl rfl fun hc => hc

theorem step_accepted {x : Step Tx} (hx : x.From U) (hst : Stored U db) (hopen : PendingOpen db)
    (h : BlocksAccepted env c₀ db) : BlocksAccepted env c₀ (step env db x) := by
  cases x with
  | block b skip =>
      obtain ⟨y, hy, hm, -, ht⟩ := pushBlock_moving hx (stopsAt_never b skip db.clearPending) hst
      have hclear : AllAccepted env c₀ db.clearPending := by
        unfold AllAccepted
        rw [clearPending_layers hopen]
        exact h
      have hlayers : y.blockLayers = y.chainbase.layers := by simp [blockLayers, hy.idle]
      show ∀ s ∈ (after (pushBlock env b skip) db).blockLayers, _
      rw [TxMoves.blockLayers ht, hlayers]
      exact Moves.allAccepted hm hclear
  | confirmation id account =>
      exact applyBlockPostValidation_moves (R := Keeps (BlocksAccepted env c₀)) (fun _ _ t => t.accepted) db h
  | transaction tx skip =>
      show ∀ s ∈ (after (pushTransaction env tx skip) db).blockLayers, _
      rw [TxMoves.blockLayers (pushTransaction_moves hopen tx skip)]
      exact h

/-- **The state without pending transactions was made by its blocks**, if it is clean. -/
theorem run_accepted {base : BlockId} (hU : Universe U) (h : InOrder U base db) (hopen : Opened db)
    {steps : List (Step Tx)} (hs : ∀ x ∈ steps, x.From U) :
    AcceptedState env db.state.core (run env db steps).clearPending.state := by
  have hrun : InOrder U base (run env db steps) ∧ BlocksAccepted env db.state.core (run env db steps) := by
    refine run_induction (P := fun x => x.From U)
      (I := fun x => InOrder U base x ∧ BlocksAccepted env db.state.core x) (fun x e he hI => ⟨?_, ?_⟩) ⟨h, ?_⟩ hs
    · have hord : InOrder U base (run env x [e]) := (run_inOrder hU (by simpa using he) hI.1).1
      exact hord
    · exact step_accepted he hI.1.stored hI.1.layers.pendingOpen hI.2
    · intro s hs' _
      have heq : s = db.chainbase.state := by simpa [blockLayers, hopen.idle, layers, hopen.stack] using hs'
      have hh : db.chainbase.state.history = [] := hopen.history
      rw [heq]
      unfold ChainState.entries
      rw [hh]
      exact .start
  refine hrun.2 _ ?_
  rw [← clearPending_layers hrun.1.layers.pendingOpen]
  exact state_mem_layers _

end Database

end VizNode
