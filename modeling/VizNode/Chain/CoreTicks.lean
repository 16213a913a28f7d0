import VizNode.Chain.Traces

/-!
# `VizNode.Chain.CoreTicks` — what a block does to the core, one thing after the other

A block application is a handful of functions that run on the core in a fixed order. Many properties of the
core do not depend on the order: each function keeps them. `CoreTick` lists what these functions do, and a
block is ticks, then **the head moves once**, then ticks again (`beginBlock_ticks`).

A property that every tick and the move of the head keep holds in every state a node is in or can come back
to (`run_kept`).

## Contents
- **Ticks.** `CoreTick`, and the stages of a block as ticks.
- **Runs.** `Traced.kept` and `run_kept`.
-/

namespace VizNode

namespace Core

open Prog Relation

variable {Tx L : Type} {env : Env Tx L} {b : SignedBlock Tx} {c₀ c c' : Core L}

/-! ## Ticks -/

/-- **One thing that a block or a transaction does to the core**, apart from moving the head. -/
inductive CoreTick (env : Env Tx L) (b : SignedBlock Tx) : Core L → Core L → Prop where
  | edited {c c' : Core L} {e : ValidatorEdit} (h : c.applyEdit env e = .ok c') : CoreTick env b c c'
  | ledger {c : Core L} (l : L) : CoreTick env b c { c with ledger := l }
  | opened {c : Core L} : CoreTick env b c (({ c with currentValidator := b.validator } : Core L).changeGenesis b)
  | extended {c : Core L} (e : HeaderExtension) : CoreTick env b c (c.applyExtension b e)
  | missed {c c' : Core L} {i : Nat} (h : missSlot b c i = .ok c') : CoreTick env b c c'
  | emergency {c : Core L} : CoreTick env b c (c.activateEmergency b)
  | signed {c : Core L} : CoreTick env b c (c.updateSigningValidator b)
  | summary {c : Core L} : CoreTick env b c (c.createBlockSummary b)
  | expired {c c' : Core L} (h : c.expirePenalties = .ok c') : CoreTick env b c c'
  | round {c c' : Core L} (h : c.newRound = .ok c') : CoreTick env b c c'
  | median {c c' : Core L} (h : c.updateMedianValidatorProps = .ok c') : CoreTick env b c c'
  | hardfork {c : Core L} (p : HardforkProperty) : CoreTick env b c { c with hardforks := p }
  | shifted {c : Core L} (n : Nat) : CoreTick env b c { c with currentAslot := c.currentAslot + n }

/-- Ticks in a row. -/
abbrev CoreTicks (env : Env Tx L) (b : SignedBlock Tx) : Core L → Core L → Prop := ReflTransGen (CoreTick env b)

theorem runLedger_ticks {f : Core L → Except Nat (List ValidatorEdit × L)} (h : c.runLedger env f = .ok c') :
    CoreTicks env b c c' := by
  unfold runLedger at h
  split at h
  · exact absurd h (by simp)
  · next edits l _ =>
      refine ReflTransGen.head (.ledger l) ?_
      exact foldlM_rel (R := CoreTicks env b) (fun _ _ _ he => .single (.edited he)) h

theorem openBlock_ticks {skip : Skip} (h : c.openBlock env skip b = .ok c') : CoreTicks env b c c' := by
  obtain rfl := openBlock_eq h
  refine ReflTransGen.head .opened ?_
  unfold processHeaderExtensions
  generalize ({ c with currentValidator := b.validator } : Core L).changeGenesis b = d
  induction b.extensions generalizing d with
  | nil => exact .refl
  | cons e es ih => exact .head (.extended e) (ih _)

/-- **A block**: ticks, the head moves, ticks. -/
theorem beginBlock_ticks {skip : Skip} {lib : Nat} {libTime : Option Nat}
    (h : c.beginBlock env skip lib libTime b = .ok c') :
    ∃ d e, CoreTicks env b c d ∧ CoreTicks env b d e ∧ CoreTicks env b (e.moveHead env b (d.missed b)) c' := by
  obtain ⟨c₁, h₁, h⟩ := except_bind_eq_ok h
  obtain ⟨c₂, h₂, h⟩ := except_bind_eq_ok h
  obtain ⟨c₃, h₃, h⟩ := except_bind_eq_ok h
  obtain rfl := Except.ok.inj h
  obtain ⟨e, he, hc₃⟩ := updateGlobalDynamicData_eq h₃
  have hopen : CoreTicks env b c c₁ := openBlock_ticks h₁
  have htxs : CoreTicks env b c₁ c₂ := foldlM_rel (R := CoreTicks env b) (fun _ _ _ => runLedger_ticks) h₂
  have hmiss : CoreTicks env b c₂ e := foldlM_rel (R := CoreTicks env b) (fun _ _ _ hm => .single (.missed hm)) he
  refine ⟨c₂, e, hopen.trans htxs, hmiss, ?_⟩
  rw [hc₃]
  split
  · exact (ReflTransGen.single .emergency).tail .signed
  · exact .single .signed

theorem finishSchedule_ticks (h : c.finishSchedule env b = .ok c') : CoreTicks env b c c' := by
  obtain ⟨d, hd, h⟩ := except_bind_eq_ok h
  refine ReflTransGen.head .summary ((runLedger_ticks hd).trans ?_)
  unfold updateValidatorSchedule at h
  split at h
  · exact Except.ok.inj h ▸ .refl
  · split at h
    · obtain ⟨e, he, h⟩ := except_bind_eq_ok h
      exact (ReflTransGen.single (.expired he)).tail (.round h)
    · exact .single (.round h)

theorem processHardforks_ticks {n : Nat} (h : c.processHardforks env n = .ok c') : CoreTicks env b c c' := by
  induction n generalizing c with
  | zero => exact absurd h (by simp [processHardforks])
  | succ n ih =>
      unfold processHardforks at h
      split at h
      · split at h
        · obtain ⟨d, hd, h⟩ := except_bind_eq_ok h
          obtain ⟨e, he, hd⟩ := except_bind_eq_ok hd
          refine (runLedger_ticks he).trans (.trans ?_ (ih h))
          split at hd
          · obtain rfl := Except.ok.inj hd
            exact .single (.hardfork _)
          · exact absurd hd (by simp [throw, throwThe, MonadExceptOf.throw])
        · exact absurd h (by simp)
      · exact Except.ok.inj h ▸ .refl

theorem finishLedger_ticks (h : c.finishLedger env = .ok c') : CoreTicks env b c c' := by
  unfold finishLedger at h
  dsimp only at h
  have hrest : ∀ {d : Core L}, (do
      let c ← d.runLedger env env.processFunds
      c.processHardforks env (Config.numHardforks + 2)) = .ok c' → CoreTicks env b d c' := by
    intro d hd
    obtain ⟨e, he, hd⟩ := except_bind_eq_ok hd
    exact (runLedger_ticks he).trans (processHardforks_ticks hd)
  split at h
  · obtain ⟨d, hd, h⟩ := except_bind_eq_ok h
    exact .head (.median hd) (hrest h)
  · exact hrest h

theorem Finish.ticks (h : Finish env b c c') : CoreTicks env b c c' := by
  cases h with
  | scheduled h => exact finishSchedule_ticks h
  | funded h => exact finishLedger_ticks h
  | shifted n => exact .single (.shifted n)

/-- Pending transactions belong to no block; they are ticks of any. -/
def noBlock (Tx : Type) : SignedBlock Tx :=
  { previous := BlockId.zero, timestamp := 0, validator := 0, transactionMerkleRoot := 0, extensions := []
    validatorSignature := 0, transactions := [], hash := 0 }

theorem Executes.ticks (b : SignedBlock Tx) (h : ReflTransGen (Executes env) c c') : CoreTicks env b c c' := by
  induction h with
  | refl => exact .refl
  | tail _ h ih =>
      obtain ⟨h⟩ := h
      exact ih.trans (runLedger_ticks h)

/-- What every tick keeps, ticks in a row keep. -/
theorem CoreTicks.kept {P : Core L → Prop} (h : CoreTicks env b c c')
    (htick : ∀ {c c'}, CoreTick env b c c' → P c → P c') (hc : P c) : P c' := by
  induction h with
  | refl => exact hc
  | tail _ t ih => exact htick t ih

/-! ## Runs -/

/-- **The invariant rule.** What every tick and every move of the head keep, every traced core has. -/
theorem Traced.kept {P : Core L → Prop} {l : List (Entry Tx)} (h : Traced env c₀ l c) (h₀ : P c₀)
    (htick : ∀ {b : SignedBlock Tx} {c c' : Core L}, CoreTick env b c c' → P c → P c')
    (hmove : ∀ (b : SignedBlock Tx) (n : Nat) (c : Core L), P c → P (c.moveHead env b n)) : P c := by
  refine h.induction h₀ ?_ ?_
  · intro r rs _ d skip lib d' _ _ hb hd
    obtain ⟨e, f, he, hf, hd'⟩ := beginBlock_ticks hb
    exact hd'.kept htick (hmove _ _ _ (hf.kept htick (he.kept htick hd)))
  · intro b d d' hf hd
    exact hf.ticks.kept htick hd

end Core

namespace Database

open Core UndoDb Relation

variable {Tx L : Type} {U : SignedBlock Tx → Prop} {env : Env Tx L} {base : BlockId} {db : Database Tx L}

/-- **Every state a node is in or can come back to** was made by the blocks of its chain, with pending
    transactions on top. -/
theorem run_layer (hU : Universe U) (h : InOrder U base db) (hopen : Opened db) {steps : List (Step Tx)}
    (hs : ∀ x ∈ steps, x.From U) {s : ChainState Tx L} (hstate : s ∈ (run env db steps).chainbase.layers) :
    ∃ c, Traced env db.state.core s.entries c ∧ ReflTransGen (Executes env) c s.core := by
  have htraced : NodeTraced env db.state.core (run env db steps) := run_traced hU h hopen hs
  rcases List.mem_cons.mp hstate with rfl | hstack
  · exact htraced.newest
  · refine ⟨s.core, htraced.blocks s ?_, .refl⟩
    unfold blockLayers
    split
    · exact hstack
    · exact hstate

/-- **The invariant rule for nodes.** -/
theorem run_kept {P : Core L → Prop} (hU : Universe U) (h : InOrder U base db) (hopen : Opened db)
    {steps : List (Step Tx)} (hs : ∀ x ∈ steps, x.From U) {s : ChainState Tx L}
    (hstate : s ∈ (run env db steps).chainbase.layers) (h₀ : P db.state.core)
    (htick : ∀ {b : SignedBlock Tx} {c c' : Core L}, CoreTick env b c c' → P c → P c')
    (hmove : ∀ (b : SignedBlock Tx) (n : Nat) (c : Core L), P c → P (c.moveHead env b n)) : P s.core := by
  obtain ⟨c, hc, hexec⟩ := run_layer hU h hopen hs hstate
  have hP : P c := hc.kept h₀ htick hmove
  exact (Executes.ticks (noBlock Tx) hexec).kept htick hP

end Database

end VizNode
