import VizNode.Chain.CoreTicks
import VizNode.Chain.Accepted

/-!
# `VizNode.Chain.Timeline` — where a chain is in time

Time is cut into slots of three seconds. A block takes the slot of its timestamp, and the slots between it and the head
count as missed.

**At most one block in a slot.** The blocks of a chain have increasing slots, whatever checks were skipped and however
the node came to this chain (`one_block_a_slot`).

**Whose turn it is depends on the time alone.** The absolute slot moves by the slots that went by, so that two nodes with
the same schedule expect the same validator at the same time, whatever blocks they have (`same_turn`).

## Contents
- **Slots.** `slotNumber`.
- **The place of the head.** `place`, and the functions that keep it.
- **One block.** `beginBlock_place`.
- **Chains**, and runs.
-/

namespace VizNode

/-! ## Slots -/

/-- The number of the slot that a point in time is in. -/
def slotNumber (t : Nat) : Nat := t / Config.blockInterval

namespace Core

open Prog Relation

variable {Tx L : Type} {env : Env Tx L} {b : SignedBlock Tx} {c₀ c c' : Core L}

/-- **`get_slot_at_time` counts the slots since the head.** -/
theorem getSlotAtTime_eq (hnum : c.headBlockNumber ≠ 0) (t : Nat) :
    c.getSlotAtTime t = slotNumber t - slotNumber c.time := by
  unfold getSlotAtTime getSlotTime slotNumber Config.blockInterval
  rw [if_neg Nat.one_ne_zero, if_neg hnum]
  split
  · omega
  · omega

/-- **`get_slot_time` is its inverse**: the slot begins at that time. -/
theorem getSlotAtTime_getSlotTime (hnum : c.headBlockNumber ≠ 0) {n : Nat} (hn : n ≠ 0) :
    c.getSlotAtTime (c.getSlotTime n) = n := by
  rw [getSlotAtTime_eq hnum]
  unfold getSlotTime slotNumber Config.blockInterval
  rw [if_neg hn, if_neg hnum]
  omega

/-! ## The place of the head -/

/-- The head, its time and its absolute slot, and the block summary. -/
structure Place where
  id      : BlockId
  num     : Nat
  time    : Nat
  aslot   : Nat
  summary : Nat → BlockId

def place (c : Core L) : Place := ⟨c.headBlockId, c.headBlockNumber, c.time, c.currentAslot, c.blockSummary⟩

theorem upsertValidator_place (name : AccountName) (f : Validator → Validator) (c : Core L) :
    (c.upsertValidator name f).place = c.place := by
  unfold upsertValidator
  split <;> rfl

theorem applyEdit_place {e : ValidatorEdit} (h : c.applyEdit env e = .ok c') : c'.place = c.place := by
  cases e with
  | updateKey owner key => exact Except.ok.inj h ▸ upsertValidator_place owner _ c
  | updateProps owner props => exact Except.ok.inj h ▸ upsertValidator_place owner _ c
  | adjustVote owner delta =>
      obtain ⟨w, -, h⟩ := except_bind_eq_ok h
      split at h
      · exact Except.ok.inj h ▸ rfl
      · exact absurd h (by simp [throw, throwThe, MonadExceptOf.throw])
  | clearVotes => exact Except.ok.inj h ▸ rfl
  | remove owner unschedule => exact Except.ok.inj h ▸ rfl

/-- A loop keeps the place if every turn does. -/
theorem foldlM_place {α : Type} {f : Core L → α → Except Exn (Core L)} {l : List α}
    (hf : ∀ {d d' : Core L} {x : α}, f d x = .ok d' → d'.place = d.place) (h : l.foldlM f c = .ok c') :
    c'.place = c.place := by
  induction l generalizing c with
  | nil => exact Except.ok.inj h ▸ rfl
  | cons x l ih =>
      obtain ⟨d, hd, h⟩ := except_bind_eq_ok h
      exact (ih h).trans (hf hd)

theorem runLedger_place {f : Core L → Except Nat (List ValidatorEdit × L)} (h : c.runLedger env f = .ok c') :
    c'.place = c.place := by
  unfold runLedger at h
  split at h
  · exact absurd h (by simp)
  · next edits l _ => exact foldlM_place (c := { c with ledger := l }) applyEdit_place h

theorem openBlock_place {skip : Skip} (h : c.openBlock env skip b = .ok c') : c'.place = c.place := by
  obtain rfl := openBlock_eq h
  have hgenesis : (({ c with currentValidator := b.validator } : Core L).changeGenesis b).place = c.place := by
    unfold changeGenesis
    split <;> rfl
  rw [← hgenesis]
  unfold processHeaderExtensions
  generalize ({ c with currentValidator := b.validator } : Core L).changeGenesis b = d
  induction b.extensions generalizing d with
  | nil => rfl
  | cons e es ih =>
      refine (ih (d.applyExtension b e)).trans ?_
      cases e <;> rfl

theorem missSlot_place {i : Nat} (h : missSlot b c i = .ok c') : c'.place = c.place := by
  obtain ⟨w, -, h⟩ := except_bind_eq_ok h
  dsimp only at h
  split at h <;> exact Except.ok.inj h ▸ rfl

theorem expirePenalties_place (h : c.expirePenalties = .ok c') : c'.place = c.place := by
  refine foldlM_place (c := { c with penalties := c.penalties.filter (fun p => !decide (p.expires ≤ c.time)) })
    (fun {d d' p} hd => ?_) h
  obtain ⟨w, -, hd⟩ := except_bind_eq_ok hd
  exact Except.ok.inj hd ▸ rfl

theorem advanceVirtual_place (now : Nat) (names : List AccountName) (c : Core L) :
    (advanceVirtual now names c).1.place = c.place := by
  induction names generalizing c with
  | nil => rfl
  | cons name ns ih =>
      unfold advanceVirtual
      split
      · exact ih c
      · dsimp only
        split
        · rfl
        · exact ih _

theorem hybridSchedule_place (c : Core L) : c.hybridSchedule.place = c.place := by
  unfold hybridSchedule
  split
  · dsimp only
    split <;> rfl
  · rfl

theorem newRound_place (h : c.newRound = .ok c') : c'.place = c.place := by
  obtain ⟨ws, -, h⟩ := except_bind_eq_ok h
  obtain rfl := Except.ok.inj h
  rw [hybridSchedule_place]
  have htally : ∀ d : Core L, (tallyVersions ws d).place = d.place := by
    intro d
    unfold tallyVersions
    split <;> rfl
  refine (htally _).trans ?_
  split
  · exact advanceVirtual_place _ _ _
  · exact advanceVirtual_place _ _ _

theorem updateValidatorSchedule_place (h : c.updateValidatorSchedule = .ok c') : c'.place = c.place := by
  unfold updateValidatorSchedule at h
  split at h
  · exact Except.ok.inj h ▸ rfl
  · split at h
    · obtain ⟨d, hd, h⟩ := except_bind_eq_ok h
      exact (newRound_place h).trans (expirePenalties_place hd)
    · exact newRound_place h

/-- **The third stage writes the block summary**, and the place is the same but for that. -/
theorem finishSchedule_place (h : c.finishSchedule env b = .ok c') : c'.place = (c.createBlockSummary b).place := by
  obtain ⟨d, hd, h⟩ := except_bind_eq_ok h
  exact (updateValidatorSchedule_place h).trans (runLedger_place hd)

theorem processHardforks_place {n : Nat} (h : c.processHardforks env n = .ok c') : c'.place = c.place := by
  induction n generalizing c with
  | zero => exact absurd h (by simp [processHardforks])
  | succ n ih =>
      unfold processHardforks at h
      split at h
      · split at h
        · obtain ⟨d, hd, h⟩ := except_bind_eq_ok h
          obtain ⟨e, he, hd⟩ := except_bind_eq_ok hd
          refine (ih h).trans ((?_ : d.place = e.place).trans (runLedger_place he))
          split at hd
          · exact Except.ok.inj hd ▸ rfl
          · exact absurd hd (by simp [throw, throwThe, MonadExceptOf.throw])
        · exact absurd h (by simp)
      · exact Except.ok.inj h ▸ rfl

theorem finishLedger_place (h : c.finishLedger env = .ok c') : c'.place = c.place := by
  unfold finishLedger at h
  dsimp only at h
  have hrest : ∀ {d : Core L}, (do
      let c ← d.runLedger env env.processFunds
      c.processHardforks env (Config.numHardforks + 2)) = .ok c' → c'.place = d.place := by
    intro d hd
    obtain ⟨e, he, hd⟩ := except_bind_eq_ok hd
    exact (processHardforks_place hd).trans (runLedger_place he)
  split at h
  · obtain ⟨d, hd, h⟩ := except_bind_eq_ok h
    refine (hrest h).trans ?_
    obtain ⟨ws, -, hd⟩ := except_bind_eq_ok hd
    dsimp only at hd
    split at hd <;> exact Except.ok.inj hd ▸ rfl
  · exact hrest h

/-! ## One block -/

/-- What a block needs of the place it is applied to. -/
structure Follows (c : Core L) (b : SignedBlock Tx) : Prop where
  previous : c.headBlockId = b.previous
  time     : c.time < b.timestamp
  slot     : c.time ≠ 0 → c.headBlockNumber ≠ 0 → slotNumber c.time < slotNumber b.timestamp

theorem validateBlockHeader_follows {skip : Skip} {u : Unit} (h : c.validateBlockHeader env skip b = .ok u) :
    c.headBlockId = b.previous ∧ c.time < b.timestamp := by
  unfold validateBlockHeader at h
  by_cases hp : c.headBlockId = b.previous
  · refine ⟨hp, not_le.mp fun hle => ?_⟩
    simp [hp, hle, throw, throwThe, MonadExceptOf.throw, bind, Except.bind] at h
  · simp [hp, throw, throwThe, MonadExceptOf.throw, bind, Except.bind] at h

/-- `update_global_dynamic_data` refuses a block in the slot of the head. -/
theorem updateGlobalDynamicData_slot {skip : Skip} {lib : Nat} {libTime : Option Nat}
    (h : c.updateGlobalDynamicData env skip lib libTime b = .ok c') : ¬ (c.time ≠ 0 ∧ c.getSlotAtTime b.timestamp = 0) := by
  intro hzero
  unfold updateGlobalDynamicData at h
  dsimp only at h
  rw [if_pos hzero] at h
  cases h

/-- **Stage one moves the head**, by as many slots as went by. -/
theorem beginBlock_place {skip : Skip} {lib : Nat} {libTime : Option Nat}
    (h : c.beginBlock env skip lib libTime b = .ok c') :
    c.Follows b ∧ c'.place = ⟨b.id, b.blockNum, b.timestamp, c.currentAslot + c.missed b + 1, c.blockSummary⟩ := by
  obtain ⟨c₁, h₁, h⟩ := except_bind_eq_ok h
  obtain ⟨c₂, h₂, h⟩ := except_bind_eq_ok h
  obtain ⟨c₃, h₃, h⟩ := except_bind_eq_ok h
  obtain rfl := Except.ok.inj h
  have hplace : c₂.place = c.place := (foldlM_place (fun h => runLedger_place h) h₂).trans (openBlock_place h₁)
  obtain ⟨_, -, h₁⟩ := except_bind_eq_ok h₁
  obtain ⟨_, hheader, -⟩ := except_bind_eq_ok h₁
  obtain ⟨hprev, htime⟩ := validateBlockHeader_follows hheader
  have hslots : c₂.getSlotAtTime b.timestamp = c.getSlotAtTime b.timestamp := by
    unfold getSlotAtTime getSlotTime
    rw [show c₂.headBlockNumber = c.headBlockNumber from congrArg Place.num hplace,
      show c₂.time = c.time from congrArg Place.time hplace]
  refine ⟨⟨hprev, htime, fun ht hn => ?_⟩, ?_⟩
  · by_contra hle
    refine updateGlobalDynamicData_slot h₃ ⟨?_, ?_⟩
    · rw [show c₂.time = c.time from congrArg Place.time hplace]
      exact ht
    · rw [hslots, getSlotAtTime_eq hn]
      omega
  · obtain ⟨d, hd, hc₃⟩ := updateGlobalDynamicData_eq h₃
    have hmissed : c₂.missed b = c.missed b := by
      unfold missed
      rw [hslots, show c₂.time = c.time from congrArg Place.time hplace]
    have hd' : d.place = c.place := (foldlM_place (fun h => missSlot_place h) hd).trans hplace
    have hmoved : (d.moveHead env b (c₂.missed b)).place =
        ⟨b.id, b.blockNum, b.timestamp, c.currentAslot + c.missed b + 1, c.blockSummary⟩ := by
      rw [hmissed]
      show Place.mk b.id b.blockNum b.timestamp (d.currentAslot + c.missed b + 1) d.blockSummary = _
      rw [show d.currentAslot = c.currentAslot from congrArg Place.aslot hd',
        show d.blockSummary = c.blockSummary from congrArg Place.summary hd']
    rw [← hmoved, hc₃]
    show (updateSigningValidator b _).place = _
    split
    · show ((d.moveHead env b (c₂.missed b)).activateEmergency b).place = _
      exact upsertValidator_place _ _ _
    · rfl

/-! ## Chains -/

/-- The slots of the blocks of a chain, newest first, and below them the slot of the start. -/
def timeline (c₀ : Core L) (l : List (Entry Tx)) : List Nat :=
  l.map (fun r => slotNumber r.block.timestamp) ++ [slotNumber c₀.time]

/-- The start has a head and a time. -/
structure Started (c : Core L) : Prop where
  num  : c.headBlockNumber ≠ 0
  time : c.time ≠ 0

/-- The slot of the newest block. -/
theorem timeline_head (c₀ : Core L) (l : List (Entry Tx)) :
    ∃ ts, timeline c₀ l = slotNumber (l.head?.elim c₀.time (fun r => r.block.timestamp)) :: ts := by
  cases l with
  | nil => exact ⟨[], rfl⟩
  | cons r rs => exact ⟨_, rfl⟩

/-- What follows on the first stage keeps the head and its time. -/
theorem Finish.head (h : Finish env b c c') : c'.headBlockNumber = c.headBlockNumber ∧ c'.time = c.time := by
  cases h with
  | scheduled h => exact ⟨congrArg Place.num (finishSchedule_place h), congrArg Place.time (finishSchedule_place h)⟩
  | funded h => exact ⟨congrArg Place.num (finishLedger_place h), congrArg Place.time (finishLedger_place h)⟩
  | shifted n => exact ⟨rfl, rfl⟩

/-- **The core of a chain knows its newest block.** -/
theorem Traced.head {l : List (Entry Tx)} (h : Traced env c₀ l c) :
    c.headBlockNumber = l.head?.elim c₀.headBlockNumber (fun r => r.block.blockNum) ∧
      c.time = l.head?.elim c₀.time (fun r => r.block.timestamp) := by
  cases h with
  | start => exact ⟨rfl, rfl⟩
  | @block rs d d₁ _ r skip lib _ _ hb hf =>
      obtain ⟨-, hplace⟩ := beginBlock_place hb
      induction hf with
      | refl => exact ⟨congrArg Place.num hplace, congrArg Place.time hplace⟩
      | tail _ hf ih => exact ⟨hf.head.1.trans ih.1, hf.head.2.trans ih.2⟩

/-- **The slots of a chain increase.** -/
theorem Traced.timeline {l : List (Entry Tx)} (h : Traced env c₀ l c) (h₀ : c₀.Started)
    (hnum : ∀ r ∈ l, r.block.blockNum ≠ 0) : (timeline c₀ l).Pairwise (· > ·) ∧ c.Started := by
  induction h with
  | start => exact ⟨List.pairwise_singleton _ _, h₀⟩
  | @block rs d d₁ d' r skip lib hd hskip hb hf ih =>
      obtain ⟨hslots, hstarted⟩ := ih fun q hq => hnum q (List.mem_cons_of_mem _ hq)
      obtain ⟨hfollows, -⟩ := beginBlock_place hb
      obtain ⟨hnew, htime⟩ := (Traced.block hd hskip hb hf).head
      refine ⟨?_, ⟨hnew ▸ hnum r List.mem_cons_self, fun hz => ?_⟩⟩
      · obtain ⟨ts, hts⟩ := timeline_head c₀ rs
        have hlt := hfollows.slot hstarted.time hstarted.num
        rw [hd.head.2] at hlt
        show (slotNumber r.block.timestamp :: Core.timeline c₀ rs).Pairwise (· > ·)
        rw [hts] at hslots ⊢
        refine List.pairwise_cons.mpr ⟨fun t ht => ?_, hslots⟩
        rcases List.mem_cons.mp ht with rfl | ht
        · exact hlt
        · exact lt_trans ((List.pairwise_cons.mp hslots).1 t ht) hlt
      · have hnone : r.block.timestamp = 0 := htime.symm.trans hz
        exact absurd (hnone ▸ hfollows.time) (Nat.not_lt_zero _)

/-- **On a clean chain the absolute slot moves with the time.** -/
theorem Accepted.aslot {l : List (Entry Tx)} (h : Accepted env c₀ l c) (h₀ : c₀.Started)
    (hnum : ∀ r ∈ l, r.block.blockNum ≠ 0) :
    c.currentAslot + slotNumber c₀.time = c₀.currentAslot + slotNumber c.time ∧ c.Started ∧
      slotNumber c₀.time ≤ slotNumber c.time := by
  induction h with
  | start => exact ⟨rfl, h₀, le_rfl⟩
  | @block rs d d₁ d₂ d₃ r skip lib num _ _ hb _ h₂ h₃ ih =>
      obtain ⟨haslot, hstarted, hle⟩ := ih fun q hq => hnum q (List.mem_cons_of_mem _ hq)
      obtain ⟨hfollows, hplace⟩ := beginBlock_place hb
      have hslot := hfollows.slot hstarted.time hstarted.num
      have hrest := (finishLedger_place h₃).trans (finishSchedule_place h₂)
      have htime : d₃.time = r.block.timestamp :=
        (congrArg Place.time hrest).trans (congrArg Place.time hplace)
      have hfinal : d₃.currentAslot = d.currentAslot + d.missed r.block + 1 :=
        (congrArg Place.aslot hrest).trans (congrArg Place.aslot hplace)
      have hmissed : d.missed r.block + 1 = slotNumber r.block.timestamp - slotNumber d.time := by
        unfold missed
        rw [if_pos hstarted.time, getSlotAtTime_eq hstarted.num]
        omega
      refine ⟨?_, ⟨?_, ?_⟩, ?_⟩
      · rw [hfinal, htime]
        omega
      · rw [show d₃.headBlockNumber = r.block.blockNum from
          (congrArg Place.num hrest).trans (congrArg Place.num hplace)]
        exact hnum r List.mem_cons_self
      · rw [htime]
        exact fun hz => absurd (hz ▸ hfollows.time) (Nat.not_lt_zero _)
      · rw [htime]
        omega

/-- The validator whose turn it is at a time. -/
def turnAt (c : Core L) (t : Nat) : AccountName := c.getScheduledValidator (c.getSlotAtTime t)

/-- **Whose turn it is** is read off the schedule at a place that the time alone determines. -/
theorem Accepted.turnAt {l : List (Entry Tx)} (h : Accepted env c₀ l c) (h₀ : c₀.Started)
    (hnum : ∀ r ∈ l, r.block.blockNum ≠ 0) {t : Nat} (ht : slotNumber c.time ≤ slotNumber t) :
    c.turnAt t = c.schedule.slot
      ((c₀.currentAslot + (slotNumber t - slotNumber c₀.time)) % c.schedule.numScheduledValidators) := by
  obtain ⟨haslot, hstarted, hle⟩ := h.aslot h₀ hnum
  unfold Core.turnAt getScheduledValidator
  rw [getSlotAtTime_eq hstarted.num]
  congr 2
  omega

end Core

/-! ## Runs -/

namespace Database

open Core UndoDb Relation

variable {Tx L : Type} {U : SignedBlock Tx → Prop} {env : Env Tx L} {base : BlockId} {db : Database Tx L}

/-- The blocks of a layer have numbers. -/
theorem layer_numbered (hU : Universe U) (h : InOrder U base db) {steps : List (Step Tx)} (hs : ∀ x ∈ steps, x.From U)
    {s : ChainState Tx L} (hstate : s ∈ (run env db steps).chainbase.layers) : ∀ r ∈ s.entries, r.block.blockNum ≠ 0 := by
  intro r hr
  obtain ⟨q, hq, rfl⟩ := List.mem_map.mp hr
  have hwell : s.WellFormed U base := (run_inOrder hU hs h).1.layers.stacked.each s hstate
  have hnum := hU.num_eq (hwell.exists_ q.block (List.mem_map.mpr ⟨q, hq, rfl⟩))
  show q.block.blockNum ≠ 0
  omega

/-- Pending transactions do not move the head. -/
theorem executes_place {c c' : Core L} (h : ReflTransGen (Executes env) c c') : c'.place = c.place := by
  induction h with
  | refl => rfl
  | tail _ hx ih =>
      obtain ⟨hx⟩ := hx
      exact (runLedger_place hx).trans ih

/-- What a run makes of the chain: the state without the pending transactions. -/
def outcome (env : Env Tx L) (db : Database Tx L) (steps : List (Step Tx)) : ChainState Tx L :=
  (run env db steps).clearPending.state

/-- **Whose turn it is** depends on the start, the time and the schedule. -/
theorem turn_of_time (hU : Universe U) (h : InOrder U base db) (hopen : Opened db) (h₀ : db.state.core.Started)
    {steps : List (Step Tx)} (hs : ∀ x ∈ steps, x.From U) (hclean : (outcome env db steps).Clean) {t : Nat}
    (ht : slotNumber (outcome env db steps).core.time ≤ slotNumber t) :
    (outcome env db steps).core.turnAt t = (outcome env db steps).core.schedule.slot
      ((db.state.core.currentAslot + (slotNumber t - slotNumber db.state.core.time)) %
        (outcome env db steps).core.schedule.numScheduledValidators) := by
  have hacc : Accepted env db.state.core (outcome env db steps).entries (outcome env db steps).core :=
    run_accepted hU h hopen hs hclean
  refine hacc.turnAt h₀ ?_ ht
  have hlayer : outcome env db steps ∈ (run env db steps).chainbase.layers := by
    have hmem : outcome env db steps ∈ (run env db steps).blockLayers := by
      rw [← clearPending_layers (run_inOrder hU hs h).1.layers.pendingOpen]
      exact state_mem_layers _
    unfold blockLayers at hmem
    split at hmem
    · exact List.mem_cons_of_mem _ hmem
    · exact hmem
  exact layer_numbered hU h hs hlayer

end Database

end VizNode
