import VizNode.Chain.Dedup

/-!
# `VizNode.Chain.Bare` — the chain without its deduplication index

Only transactions look at the deduplication index, and only to be refused. Everything else a block does is the same on
**the bare chain**, the one without an index: each stage commutes with `Core.withoutIndex`. So two nodes that differ in
nothing but the index go on in step, as long as no transaction is refused for being known.

## Contents
- **Functions of the core** that do not run code of the ledger.
- **Code of the ledger**, and the stages that run it.
-/

namespace VizNode

open Prog

section Bare

variable {U S Id R : Type} [DecidableEq Id] {F : TxFormat U Id} {base : Env (SignedTx U S) R}
  {b : SignedBlock (SignedTx U S)}

namespace Core

/-! ## Functions of the core -/

omit [DecidableEq Id] in
/-- A function that keeps to the core may be followed by another one. -/
theorem bare_bind {α : Type} {x : Except Exn α} {f : α → Except Exn (Core (Dedup Id R))}
    {g : α → Except Exn (Core R)} (h : ∀ a, (f a).map withoutIndex = g a) :
    (x >>= f).map withoutIndex = x >>= g := by
  cases x with
  | error e => rfl
  | ok a => exact h a

omit [DecidableEq Id] in
theorem bare_seq {x : Except Exn (Core (Dedup Id R))} {y : Except Exn (Core R)}
    {f : Core (Dedup Id R) → Except Exn (Core (Dedup Id R))} {g : Core R → Except Exn (Core R)}
    (hx : x.map withoutIndex = y) (h : ∀ c, (f c).map withoutIndex = g c.withoutIndex) :
    (x >>= f).map withoutIndex = y >>= g := by
  subst hx
  cases x with
  | error e => rfl
  | ok c => exact h c

omit [DecidableEq Id] in
/-- The same branch is taken. -/
theorem bare_ite {p : Prop} [Decidable p] {x x' : Except Exn (Core (Dedup Id R))} {y y' : Except Exn (Core R)}
    (h : x.map withoutIndex = y) (h' : x'.map withoutIndex = y') :
    (if p then x else x').map withoutIndex = if p then y else y' := by
  split
  · exact h
  · exact h'

omit [DecidableEq Id] in
theorem bare_foldlM {α : Type} {f : Core (Dedup Id R) → α → Except Exn (Core (Dedup Id R))}
    {g : Core R → α → Except Exn (Core R)} (h : ∀ c a, (f c a).map withoutIndex = g c.withoutIndex a)
    (as : List α) (c : Core (Dedup Id R)) :
    (as.foldlM f c).map withoutIndex = as.foldlM g c.withoutIndex := by
  induction as generalizing c with
  | nil => rfl
  | cons a as ih =>
      rw [List.foldlM_cons, List.foldlM_cons]
      exact bare_seq (h c a) ih

theorem openBlock_bare (skip : Skip) (c : Core (Dedup Id R)) :
    (c.openBlock (dedupEnv F base) skip b).map withoutIndex = c.withoutIndex.openBlock base skip b := by
  have hext : ∀ (es : List HeaderExtension) (d : Core (Dedup Id R)),
      (es.foldl (applyExtension b) d).withoutIndex = es.foldl (applyExtension b) d.withoutIndex := by
    intro es
    induction es with
    | nil => exact fun _ => rfl
    | cons e es ih =>
        intro d
        rw [List.foldl_cons, List.foldl_cons, ih]
        cases e <;> rfl
  have hgenesis : ∀ d : Core (Dedup Id R), (d.changeGenesis b).withoutIndex = d.withoutIndex.changeGenesis b := by
    intro d
    unfold changeGenesis
    split <;> rfl
  unfold openBlock
  refine bare_bind fun _ => bare_bind fun _ => ?_
  have hopen : (({ c with currentValidator := b.validator } : Core (Dedup Id R)).changeGenesis b
      |>.processHeaderExtensions b).withoutIndex =
      (({ c.withoutIndex with currentValidator := b.validator } : Core R).changeGenesis b).processHeaderExtensions b := by
    unfold processHeaderExtensions
    rw [hext, hgenesis]
    rfl
  dsimp only
  rw [← hopen]
  exact bare_bind fun w => bare_ite rfl rfl

omit [DecidableEq Id] in
theorem missSlot_bare (i : Nat) (c : Core (Dedup Id R)) :
    (missSlot b c i).map withoutIndex = missSlot b c.withoutIndex i := by
  unfold missSlot
  exact bare_bind fun w => bare_ite rfl rfl

omit [DecidableEq Id] in
theorem upsertValidator_bare (name : AccountName) (f : Validator → Validator) (c : Core (Dedup Id R)) :
    (c.upsertValidator name f).withoutIndex = c.withoutIndex.upsertValidator name f := by
  have hfind : c.withoutIndex.findValidator name = c.findValidator name := rfl
  unfold upsertValidator
  rw [hfind]
  cases c.findValidator name <;> rfl

omit [DecidableEq Id] in
theorem activateEmergency_bare (c : Core (Dedup Id R)) :
    (c.activateEmergency b).withoutIndex = c.withoutIndex.activateEmergency b := by
  have hswitched : upsertValidator Config.emergencyValidatorAccount
        (committeeValidator { c.withoutIndex with
          emergencyConsensusActive := true, emergencyConsensusStartBlock := b.blockNum })
        { c.withoutIndex with emergencyConsensusActive := true, emergencyConsensusStartBlock := b.blockNum } =
      (upsertValidator Config.emergencyValidatorAccount
        (committeeValidator { c with
          emergencyConsensusActive := true, emergencyConsensusStartBlock := b.blockNum })
        { c with emergencyConsensusActive := true, emergencyConsensusStartBlock := b.blockNum }).withoutIndex :=
    (upsertValidator_bare _ _ { c with
      emergencyConsensusActive := true, emergencyConsensusStartBlock := b.blockNum }).symm
  unfold activateEmergency
  dsimp only
  rw [hswitched]
  rfl

theorem updateGlobalDynamicData_bare (skip : Skip) (lib : Nat) (libTime : Option Nat) (c : Core (Dedup Id R)) :
    (c.updateGlobalDynamicData (dedupEnv F base) skip lib libTime b).map withoutIndex =
      c.withoutIndex.updateGlobalDynamicData base skip lib libTime b := by
  unfold updateGlobalDynamicData
  refine bare_ite rfl (bare_seq (bare_foldlM (fun c i => missSlot_bare i c) _ c) fun d => ?_)
  refine bare_ite rfl (bare_ite ?_ rfl)
  exact congrArg Except.ok (activateEmergency_bare _)

omit [DecidableEq Id] in
theorem updateSigningValidator_bare (c : Core (Dedup Id R)) :
    (c.updateSigningValidator b).withoutIndex = c.withoutIndex.updateSigningValidator b := rfl

theorem applyEdit_bare (e : ValidatorEdit) (c : Core (Dedup Id R)) :
    (c.applyEdit (dedupEnv F base) e).map withoutIndex = c.withoutIndex.applyEdit base e := by
  cases e with
  | updateKey owner key => exact congrArg Except.ok (upsertValidator_bare owner _ c)
  | updateProps owner props => exact congrArg Except.ok (upsertValidator_bare owner _ c)
  | adjustVote owner delta =>
      exact bare_bind fun w => bare_ite rfl rfl
  | clearVotes => rfl
  | remove owner unschedule => rfl

/-! ### The round -/

omit [DecidableEq Id] in
theorem expirePenalties_bare (c : Core (Dedup Id R)) :
    c.expirePenalties.map withoutIndex = c.withoutIndex.expirePenalties := by
  unfold expirePenalties
  exact bare_foldlM (fun d p => bare_bind fun _ => rfl) _ _

omit [DecidableEq Id] in
theorem supportWalk_bare (top : List AccountName) (ws : List Validator) (count : Nat) (r : SupportWalk)
    (c : Core (Dedup Id R)) : c.withoutIndex.supportWalk top ws count r = c.supportWalk top ws count r := by
  induction ws generalizing count r with
  | nil => rfl
  | cons w ws ih =>
      have heligible : c.withoutIndex.eligible w = c.eligible w := rfl
      unfold supportWalk
      simp only [heligible, ih]

omit [DecidableEq Id] in
theorem advanceVirtual_bare (now : Nat) (names : List AccountName) (c : Core (Dedup Id R)) :
    advanceVirtual now names c.withoutIndex =
      ((advanceVirtual now names c).1.withoutIndex, (advanceVirtual now names c).2) := by
  induction names generalizing c with
  | nil => rfl
  | cons name ns ih =>
      have hfind : c.withoutIndex.findValidator name = c.findValidator name := rfl
      unfold advanceVirtual
      rw [hfind]
      cases c.findValidator name with
      | none => exact ih c
      | some w =>
          dsimp only
          split
          · rfl
          · exact ih (c.modifyValidator name _)

omit [DecidableEq Id] in
theorem hybridSchedule_bare (c : Core (Dedup Id R)) : c.hybridSchedule.withoutIndex = c.withoutIndex.hybridSchedule := by
  have hmode : (c.withoutIndex.hasHardfork 12 && c.withoutIndex.emergencyConsensusActive) =
      (c.hasHardfork 12 && c.emergencyConsensusActive) := rfl
  have havailable : c.withoutIndex.slotAvailable = c.slotAvailable := rfl
  unfold hybridSchedule
  rw [hmode, havailable]
  dsimp only
  split
  · split <;> rfl
  · rfl

omit [DecidableEq Id] in
theorem newRound_bare (c : Core (Dedup Id R)) : c.newRound.map withoutIndex = c.withoutIndex.newRound := by
  have htop : c.withoutIndex.topValidators = c.topValidators := rfl
  have hvalidators : c.withoutIndex.validators = c.validators := rfl
  have hschedule : c.withoutIndex.schedule = c.schedule := rfl
  have hclasses : ∀ active support, c.withoutIndex.setClasses active support =
      (c.setClasses active support).withoutIndex := fun _ _ => rfl
  unfold newRound
  dsimp only
  rw [htop, hvalidators, hschedule, supportWalk_bare, hclasses, advanceVirtual_bare]
  generalize c.supportWalk _ _ _ _ = walk
  generalize advanceVirtual _ _ _ = advanced
  obtain ⟨d, overflow⟩ := advanced
  have hround : ∀ (d : Core (Dedup Id R)) (now : Nat), (do
        let ws ← d.talliedValidators
        return (shuffle c.topValidators walk.support now (majorityVersion ws d.schedule.majorityVersion)
          (tallyVersions ws d)).hybridSchedule : Except Exn (Core (Dedup Id R))).map withoutIndex = (do
        let ws ← d.withoutIndex.talliedValidators
        return (shuffle c.topValidators walk.support now (majorityVersion ws d.withoutIndex.schedule.majorityVersion)
          (tallyVersions ws d.withoutIndex)).hybridSchedule) := by
    intro d now
    refine bare_bind fun ws => congrArg Except.ok ((hybridSchedule_bare _).trans ?_)
    have htally : (tallyVersions ws d).withoutIndex = tallyVersions ws d.withoutIndex := by
      unfold tallyVersions
      split <;> rfl
    rw [← htally]
    rfl
  cases overflow with
  | false => exact hround d _
  | true => exact hround d.resetVirtualScheduleTime 0

omit [DecidableEq Id] in
theorem updateValidatorSchedule_bare (c : Core (Dedup Id R)) :
    c.updateValidatorSchedule.map withoutIndex = c.withoutIndex.updateValidatorSchedule := by
  unfold updateValidatorSchedule
  exact bare_ite rfl (bare_ite (bare_seq (expirePenalties_bare c) newRound_bare) (newRound_bare c))

omit [DecidableEq Id] in
theorem updateMedianValidatorProps_bare (c : Core (Dedup Id R)) :
    c.updateMedianValidatorProps.map withoutIndex = c.withoutIndex.updateMedianValidatorProps := by
  unfold updateMedianValidatorProps
  exact bare_bind fun active => bare_ite rfl rfl

/-! ## Code of the ledger -/

/-- Code that answers on the bare chain as it does on the chain. -/
theorem runLedger_bare {f : Core (Dedup Id R) → Except Nat (List ValidatorEdit × Dedup Id R)}
    {g : Core R → Except Nat (List ValidatorEdit × R)} {c : Core (Dedup Id R)}
    (h : (f c).map (Prod.map id Dedup.rest) = g c.withoutIndex) :
    (c.runLedger (dedupEnv F base) f).map withoutIndex = c.withoutIndex.runLedger base g := by
  unfold runLedger
  rw [← h]
  cases f c with
  | error code => rfl
  | ok r => exact bare_foldlM (fun d e => applyEdit_bare e d) _ _

omit [DecidableEq Id] in
theorem besideIndex_bare (f : Core R → Except Nat (List ValidatorEdit × R)) (c : Core (Dedup Id R)) :
    (besideIndex f c).map (Prod.map id Dedup.rest) = f c.withoutIndex := by
  unfold besideIndex
  cases f c.withoutIndex <;> rfl

omit [DecidableEq Id] in
theorem clearExpired_bare (c : Core (Dedup Id R)) :
    (clearExpiredTransactions base c).map (Prod.map id Dedup.rest) = base.clearExpired c.withoutIndex := by
  unfold clearExpiredTransactions
  cases base.clearExpired c.withoutIndex <;> rfl

theorem finishSchedule_bare (c : Core (Dedup Id R)) :
    (c.finishSchedule (dedupEnv F base) b).map withoutIndex = c.withoutIndex.finishSchedule base b := by
  unfold finishSchedule
  exact bare_seq (runLedger_bare (clearExpired_bare (c.createBlockSummary b))) updateValidatorSchedule_bare

theorem applyHardfork_bare (n : Nat) (c : Core (Dedup Id R)) :
    (c.applyHardfork (dedupEnv F base) n).map withoutIndex = c.withoutIndex.applyHardfork base n := by
  unfold applyHardfork
  exact bare_seq (runLedger_bare (besideIndex_bare _ c)) fun d => bare_ite rfl rfl

theorem processHardforks_bare (n : Nat) (c : Core (Dedup Id R)) :
    (c.processHardforks (dedupEnv F base) n).map withoutIndex = c.withoutIndex.processHardforks base n := by
  induction n generalizing c with
  | zero => rfl
  | succ n ih =>
      unfold processHardforks
      exact bare_ite (bare_ite (bare_seq (applyHardfork_bare _ c) ih) rfl) rfl

theorem finishLedger_bare (c : Core (Dedup Id R)) :
    (c.finishLedger (dedupEnv F base)).map withoutIndex = c.withoutIndex.finishLedger base := by
  have hfunds : ∀ d : Core (Dedup Id R), (do
        let d ← d.runLedger (dedupEnv F base) (dedupEnv F base).processFunds
        d.processHardforks (dedupEnv F base) (Config.numHardforks + 2)).map withoutIndex = (do
        let d ← d.withoutIndex.runLedger base base.processFunds
        d.processHardforks base (Config.numHardforks + 2)) :=
    fun d => bare_seq (runLedger_bare (besideIndex_bare _ d)) (processHardforks_bare _)
  unfold finishLedger
  exact bare_ite (bare_seq (updateMedianValidatorProps_bare c) hfunds) (hfunds c)

end Core

end Bare

end VizNode
