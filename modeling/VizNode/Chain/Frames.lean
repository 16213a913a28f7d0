import VizNode.Chain.Apply
import VizNode.Lib.Prog

/-!
# `VizNode.Chain.Frames` — what the stages of a block leave alone

Of the many fields of the core the invariants of a run need three: the number of the head, its id, and the
block up to which each validator is known to support the chain. **The head moves once in a block**, in
`moveHead`, and **the support of a validator is set once**, in `updateSigningValidator`, to the number of
the block. Everything else keeps all three (`SameHead`).

## Contents
- **`SameHead`**, a preorder, and the functions that move along it.
- **The stages.** `beginBlock_head` says what stage one does to the head; the others leave it alone.
-/

namespace VizNode

namespace Core

open Prog

variable {Tx L : Type}

/-! ## The head and the support -/

/-- No validator is known to support a block above `n`. -/
def SupportsUpTo (n : Nat) (c : Core L) : Prop := ∀ w ∈ c.validators, w.lastSupportedBlockNum ≤ n

/-- **The head stays, and the support does not grow.** -/
structure SameHead (c c' : Core L) : Prop where
  id      : c'.headBlockId = c.headBlockId
  num     : c'.headBlockNumber = c.headBlockNumber
  support : ∀ n, c.SupportsUpTo n → c'.SupportsUpTo n

instance sameHeadPreorder : IsPreorder (Core L) SameHead where
  refl _ := ⟨rfl, rfl, fun _ h => h⟩
  trans _ _ _ h₁ h₂ := ⟨h₂.id.trans h₁.id, h₂.num.trans h₁.num, fun n h => h₂.support n (h₁.support n h)⟩

theorem SameHead.rfl' {c : Core L} : SameHead c c := refl_of _ _

/-- Validators are rewritten one by one, none with more support than it had. -/
theorem sameHead_map {c c' : Core L} {f : Validator → Validator}
    (hf : ∀ w ∈ c.validators, (f w).lastSupportedBlockNum ≤ w.lastSupportedBlockNum)
    (hid : c'.headBlockId = c.headBlockId) (hnum : c'.headBlockNumber = c.headBlockNumber)
    (hv : c'.validators = c.validators.map f) : SameHead c c' := by
  refine ⟨hid, hnum, fun n h w hw => ?_⟩
  rw [hv] at hw
  obtain ⟨w', hw', rfl⟩ := List.mem_map.mp hw
  exact Nat.le_trans (hf w' hw') (h w' hw')

theorem sameHead_modifyValidator (c : Core L) (name : AccountName) {f : Validator → Validator}
    (hf : ∀ w, (f w).lastSupportedBlockNum = w.lastSupportedBlockNum) :
    SameHead c (c.modifyValidator name f) := by
  refine sameHead_map (f := fun w => if w.owner = name then f w else w) (fun w _ => ?_) rfl rfl rfl
  split
  · exact (hf w).le
  · exact Nat.le_refl _

theorem sameHead_upsert (c : Core L) (name : AccountName) {f : Validator → Validator}
    (hf : ∀ w, (f w).lastSupportedBlockNum = w.lastSupportedBlockNum) :
    SameHead c (c.upsertValidator name f) := by
  unfold upsertValidator
  split
  · exact sameHead_modifyValidator c name hf
  · refine ⟨rfl, rfl, fun n h w hw => ?_⟩
    rcases List.mem_append.mp hw with hw | hw
    · exact h w hw
    · rw [List.mem_singleton.mp hw, hf]
      exact Nat.zero_le n

/-! ## Votes and the ledger -/

theorem applyEdit_head {env : Env Tx L} {c c' : Core L} {e : ValidatorEdit}
    (h : c.applyEdit env e = .ok c') : SameHead c c' := by
  cases e with
  | updateKey owner key =>
      obtain rfl := Except.ok.inj h
      exact sameHead_upsert c owner fun _ => by rfl
  | updateProps owner props =>
      obtain rfl := Except.ok.inj h
      exact sameHead_upsert c owner fun _ => by rfl
  | adjustVote owner delta =>
      obtain ⟨w, -, h⟩ := except_bind_eq_ok h
      split at h
      · obtain rfl := Except.ok.inj h
        exact sameHead_modifyValidator c owner fun _ => by rfl
      · exact absurd h (by simp [throw, throwThe, MonadExceptOf.throw])
  | clearVotes =>
      obtain rfl := Except.ok.inj h
      exact sameHead_map (f := fun w => { w with votes := 0, countedVotes := 0 })
        (fun _ _ => Nat.le_refl _) rfl rfl rfl
  | remove owner unschedule =>
      obtain rfl := Except.ok.inj h
      exact ⟨rfl, rfl, fun n hn w hw => hn w (List.mem_filter.mp hw).1⟩

/-- **Operations and per-block processing leave the head alone.** -/
theorem runLedger_head {env : Env Tx L} {f : Core L → Except Nat (List ValidatorEdit × L)} {c c' : Core L}
    (h : c.runLedger env f = .ok c') : SameHead c c' := by
  unfold runLedger at h
  split at h
  · exact absurd h (by simp)
  · next edits l _ =>
      have hl : SameHead c { c with ledger := l } := ⟨rfl, rfl, fun _ h => h⟩
      exact trans_of SameHead hl (foldlM_rel (fun _ _ _ => applyEdit_head) h)

/-! ## The round -/

theorem expirePenalties_head {c c' : Core L} (h : c.expirePenalties = .ok c') : SameHead c c' := by
  unfold expirePenalties at h
  have hstart : SameHead c { c with penalties := c.penalties.filter (fun p => !decide (p.expires ≤ c.time)) } :=
    ⟨rfl, rfl, fun _ h => h⟩
  refine trans_of SameHead hstart (foldlM_rel (fun d p d' hd => ?_) h)
  obtain ⟨w, -, hd⟩ := except_bind_eq_ok hd
  obtain rfl := Except.ok.inj hd
  exact sameHead_modifyValidator d p.validator fun _ => by rfl

theorem advanceVirtual_head (now : Nat) (names : List AccountName) (c : Core L) :
    SameHead c (advanceVirtual now names c).1 := by
  induction names generalizing c with
  | nil => exact SameHead.rfl'
  | cons name ns ih =>
      unfold advanceVirtual
      split
      · exact ih c
      · dsimp only
        split
        · exact SameHead.rfl'
        · exact trans_of SameHead (sameHead_modifyValidator c name fun _ => by rfl) (ih _)

theorem hybridSchedule_head (c : Core L) : SameHead c c.hybridSchedule := by
  have hfill : SameHead c c.fillSlots := ⟨rfl, rfl, fun _ h => h⟩
  have hsync : SameHead c c.fillSlots.syncCommittee :=
    trans_of SameHead hfill (sameHead_modifyValidator _ _ fun _ => by rfl)
  unfold hybridSchedule
  split
  · dsimp only
    split
    · exact ⟨hsync.id, hsync.num, hsync.support⟩
    · exact hsync
  · exact SameHead.rfl'

theorem tallyVersions_head (ws : List Validator) (c : Core L) : SameHead c (tallyVersions ws c) := by
  unfold tallyVersions
  split <;> exact ⟨rfl, rfl, fun _ h => h⟩

theorem setClasses_head (active support : List AccountName) (c : Core L) :
    SameHead c (setClasses active support c) := by
  refine sameHead_map (f := fun w =>
    if w.owner ∈ active then { w with schedule := .top }
    else if w.owner ∈ support then { w with schedule := .support } else w) (fun w _ => ?_) rfl rfl rfl
  split
  · exact Nat.le_refl _
  · split <;> exact Nat.le_refl _

theorem resetVirtualScheduleTime_head (c : Core L) : SameHead c c.resetVirtualScheduleTime :=
  sameHead_map (f := fun w =>
      { w with
        virtualPosition := 0, virtualLastUpdate := 0
        virtualScheduledTime := virtualLap w.countedVotes })
    (fun _ _ => Nat.le_refl _) rfl rfl rfl

theorem newRound_head {c c' : Core L} (h : c.newRound = .ok c') : SameHead c c' := by
  obtain ⟨ws, -, h⟩ := except_bind_eq_ok h
  obtain rfl := Except.ok.inj h
  refine trans_of SameHead ?_ (hybridSchedule_head _)
  refine trans_of SameHead ?_ (⟨rfl, rfl, fun _ h => h⟩ : SameHead (tallyVersions ws _) (shuffle _ _ _ _ _))
  refine trans_of SameHead ?_ (tallyVersions_head ws _)
  split
  · exact trans_of SameHead (trans_of SameHead (setClasses_head _ _ c) (advanceVirtual_head _ _ _))
      (resetVirtualScheduleTime_head _)
  · exact trans_of SameHead (setClasses_head _ _ c) (advanceVirtual_head _ _ _)

/-- **The update of the schedule leaves the head alone.** -/
theorem updateValidatorSchedule_head {c c' : Core L} (h : c.updateValidatorSchedule = .ok c') :
    SameHead c c' := by
  unfold updateValidatorSchedule at h
  split at h
  · obtain rfl := Except.ok.inj h
    exact SameHead.rfl'
  · split at h
    · obtain ⟨c₁, h₁, h⟩ := except_bind_eq_ok h
      exact trans_of SameHead (expirePenalties_head h₁) (newRound_head h)
    · exact newRound_head h

/-! ## The stages -/

theorem finishSchedule_head {env : Env Tx L} {b : SignedBlock Tx} {c c' : Core L}
    (h : c.finishSchedule env b = .ok c') : SameHead c c' := by
  obtain ⟨c₁, h₁, h⟩ := except_bind_eq_ok h
  have hs : SameHead c (c.createBlockSummary b) := ⟨rfl, rfl, fun _ h => h⟩
  exact trans_of SameHead (trans_of SameHead hs (runLedger_head h₁)) (updateValidatorSchedule_head h)

theorem updateMedianValidatorProps_head {c c' : Core L} (h : c.updateMedianValidatorProps = .ok c') :
    SameHead c c' := by
  obtain ⟨ws, -, h⟩ := except_bind_eq_ok h
  dsimp only at h
  split at h <;>
  · obtain rfl := Except.ok.inj h
    exact ⟨rfl, rfl, fun _ h => h⟩

theorem applyHardfork_head {env : Env Tx L} {n : Nat} {c c' : Core L} (h : c.applyHardfork env n = .ok c') :
    SameHead c c' := by
  obtain ⟨c₁, h₁, h⟩ := except_bind_eq_ok h
  split at h
  · obtain rfl := Except.ok.inj h
    have h₂ := runLedger_head h₁
    exact ⟨h₂.id, h₂.num, h₂.support⟩
  · exact absurd h (by simp [throw, throwThe, MonadExceptOf.throw])

theorem processHardforks_head {env : Env Tx L} (n : Nat) {c c' : Core L}
    (h : c.processHardforks env n = .ok c') : SameHead c c' := by
  induction n generalizing c with
  | zero => exact absurd h (by simp [processHardforks])
  | succ n ih =>
      unfold processHardforks at h
      split at h
      · split at h
        · obtain ⟨c₁, h₁, h⟩ := except_bind_eq_ok h
          exact trans_of SameHead (applyHardfork_head h₁) (ih h)
        · exact absurd h (by simp)
      · obtain rfl := Except.ok.inj h
        exact SameHead.rfl'

theorem finishLedger_head {env : Env Tx L} {c c' : Core L} (h : c.finishLedger env = .ok c') :
    SameHead c c' := by
  unfold finishLedger at h
  dsimp only at h
  have hrest : ∀ {d : Core L}, (do
      let c ← d.runLedger env env.processFunds
      c.processHardforks env (Config.numHardforks + 2)) = .ok c' → SameHead d c' := by
    intro d hd
    obtain ⟨c₂, h₂, hd⟩ := except_bind_eq_ok hd
    exact trans_of SameHead (runLedger_head h₂) (processHardforks_head _ hd)
  split at h
  · obtain ⟨c₁, h₁, h⟩ := except_bind_eq_ok h
    exact trans_of SameHead (updateMedianValidatorProps_head h₁) (hrest h)
  · exact hrest h

theorem sameHead_extensions (b : SignedBlock Tx) (c : Core L) : SameHead c (c.processHeaderExtensions b) := by
  unfold processHeaderExtensions
  induction b.extensions generalizing c with
  | nil => exact SameHead.rfl'
  | cons e es ih =>
      refine trans_of SameHead ?_ (ih (c.applyExtension b e))
      cases e with
      | void => exact SameHead.rfl'
      | version v => exact sameHead_modifyValidator c _ fun _ => by rfl
      | hardforkVersionVote v t => exact sameHead_modifyValidator c _ fun _ => by rfl

/-- **The header is checked against the head**, whatever checks are skipped. -/
theorem validateBlockHeader_previous {env : Env Tx L} {skip : Skip} {b : SignedBlock Tx} {c : Core L}
    {u : Unit} (h : c.validateBlockHeader env skip b = .ok u) : b.previous = c.headBlockId := by
  unfold validateBlockHeader at h
  by_cases hp : c.headBlockId = b.previous
  · exact hp.symm
  · simp [hp, throw, throwThe, MonadExceptOf.throw, bind, Except.bind] at h

theorem openBlock_head {env : Env Tx L} {skip : Skip} {b : SignedBlock Tx} {c c' : Core L}
    (h : c.openBlock env skip b = .ok c') : b.previous = c.headBlockId ∧ SameHead c c' := by
  obtain ⟨_, -, h⟩ := except_bind_eq_ok h
  obtain ⟨_, hv, h⟩ := except_bind_eq_ok h
  obtain ⟨w, -, h⟩ := except_bind_eq_ok h
  refine ⟨validateBlockHeader_previous hv, ?_⟩
  have hg : SameHead c (({ c with currentValidator := b.validator } : Core L).changeGenesis b) := by
    unfold changeGenesis
    split <;> exact ⟨rfl, rfl, fun _ h => h⟩
  dsimp only at h
  split at h
  · exact absurd h (by simp [throw, throwThe, MonadExceptOf.throw, bind, Except.bind])
  · obtain rfl := Except.ok.inj h
    exact trans_of SameHead hg (sameHead_extensions b _)

theorem missSlot_head {b : SignedBlock Tx} {c c' : Core L} {i : Nat} (h : missSlot b c i = .ok c') :
    SameHead c c' := by
  obtain ⟨w, -, h⟩ := except_bind_eq_ok h
  have hm : SameHead c (c.modifyValidator w.owner (c.missedValidator b)) := by
    refine sameHead_modifyValidator c _ fun v => ?_
    unfold missedValidator
    dsimp only
    split
    · rfl
    · split
      · split <;> rfl
      · split <;> split <;> rfl
  dsimp only at h
  split at h
  · obtain rfl := Except.ok.inj h
    exact ⟨hm.id, hm.num, hm.support⟩
  · obtain rfl := Except.ok.inj h
    exact hm

theorem activateEmergency_head (b : SignedBlock Tx) (c : Core L) : SameHead c (c.activateEmergency b) := by
  unfold activateEmergency
  dsimp only
  have h₁ : SameHead c { c with emergencyConsensusActive := true, emergencyConsensusStartBlock := b.blockNum } :=
    ⟨rfl, rfl, fun _ h => h⟩
  have h₂ := trans_of SameHead h₁ (sameHead_upsert _ Config.emergencyValidatorAccount
    (f := committeeValidator { c with emergencyConsensusActive := true
                                      emergencyConsensusStartBlock := b.blockNum }) fun _ => by rfl)
  have hb : ∀ w : Validator, (blankedValidator w).lastSupportedBlockNum ≤ w.lastSupportedBlockNum := by
    intro w
    unfold blankedValidator
    split <;> exact Nat.le_refl _
  refine ⟨h₂.id, h₂.num, fun n hn w hw => ?_⟩
  obtain ⟨w', hw', rfl⟩ := List.mem_map.mp hw
  exact Nat.le_trans (hb w') (h₂.support n hn w' hw')

/-- The update of the dynamic global properties moves the head. -/
theorem updateGlobalDynamicData_head {env : Env Tx L} {skip : Skip} {lib : Nat} {libTime : Option Nat}
    {b : SignedBlock Tx} {c c' : Core L} (h : c.updateGlobalDynamicData env skip lib libTime b = .ok c') :
    c'.headBlockId = b.id ∧ c'.headBlockNumber = b.blockNum ∧
      ∀ n, c.SupportsUpTo n → c'.SupportsUpTo n := by
  unfold updateGlobalDynamicData at h
  dsimp only at h
  split at h
  · exact absurd h (by simp [throw, throwThe, MonadExceptOf.throw, bind, Except.bind])
  · generalize (if c.time ≠ 0 then c.getSlotAtTime b.timestamp - 1 else 0) = missed at h
    obtain ⟨c₁, h₁, h⟩ := except_bind_eq_ok h
    have s₁ : SameHead c c₁ := foldlM_rel (fun _ _ _ => missSlot_head) h₁
    split at h
    · exact absurd h (by simp [throw, throwThe, MonadExceptOf.throw, bind, Except.bind])
    · split at h
      · obtain rfl := Except.ok.inj h
        have s₂ := activateEmergency_head b (c₁.moveHead env b missed)
        exact ⟨s₂.id, s₂.num, fun n hn => s₂.support n (s₁.support n hn)⟩
      · obtain rfl := Except.ok.inj h
        exact ⟨rfl, rfl, fun n hn => s₁.support n hn⟩

/-- **Stage one moves the head to the block**, and only its validator's support may grow, to its number. -/
theorem beginBlock_head {env : Env Tx L} {skip : Skip} {lib : Nat} {libTime : Option Nat}
    {b : SignedBlock Tx} {c c' : Core L} (h : c.beginBlock env skip lib libTime b = .ok c') :
    b.previous = c.headBlockId ∧ c'.headBlockId = b.id ∧ c'.headBlockNumber = b.blockNum ∧
      ∀ n, b.blockNum ≤ n → c.SupportsUpTo n → c'.SupportsUpTo n := by
  obtain ⟨c₁, h₁, h⟩ := except_bind_eq_ok h
  obtain ⟨c₂, h₂, h⟩ := except_bind_eq_ok h
  obtain ⟨c₃, h₃, h⟩ := except_bind_eq_ok h
  obtain rfl := Except.ok.inj h
  obtain ⟨hprev, s₁⟩ := openBlock_head h₁
  have s₂ : SameHead c₁ c₂ := foldlM_rel (fun _ _ _ => runLedger_head) h₂
  obtain ⟨hid, hnum, s₃⟩ := updateGlobalDynamicData_head h₃
  refine ⟨hprev, hid, hnum, fun n hn hc w hw => ?_⟩
  have hc₃ := s₃ n (s₂.support n (s₁.support n hc))
  obtain ⟨v, hv, rfl⟩ := List.mem_map.mp hw
  have hvn := hc₃ v hv
  split
  · dsimp only
    split
    · exact hn
    · exact hvn
  · exact hvn

end Core

end VizNode
