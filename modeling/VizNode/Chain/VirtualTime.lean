import VizNode.Chain.CoreTicks

/-!
# `VizNode.Chain.VirtualTime` — is the virtual schedule in order?

Validators outside the top take turns by *virtual time*: each runs laps at the speed of its counted votes, and
the one that finishes its lap first is scheduled next. The state keeps the virtual time `now`, and for every
validator where it was at its last update and when it will be round.

**Nobody is late** (`virtual_schedule_order`): every lap ends at `now` or later. A vote change ends the lap
anew, and an end that does not fit into 128 bits becomes the latest end there is. A new round goes through the
validators by the end of their lap and moves `now` to the last one it looked at, so whoever it has not looked
at ends later (`supportWalk_spec`); the others start a lap, and when one of these does not fit, all clocks go
back to zero.

The lap is the largest number of 128 bits, so a position never exceeds it.

## Contents
- **Laps.** `Validator.OnLap`, `OnTime`.
- **The round.** `supportWalk_spec`, `advanceVirtual_spec`, `newRound_onTime`.
- **Everything else**, and runs.
-/

namespace VizNode

/-! ## Laps -/

/-- **The validator is on its lap** when the virtual time is `now`. -/
structure Validator.OnLap (now : Nat) (w : Validator) : Prop where
  position  : w.virtualPosition ≤ Config.virtualScheduleLapLength2
  updated   : w.virtualLastUpdate ≤ now
  scheduled : now ≤ w.virtualScheduledTime
  bounded   : w.virtualScheduledTime < 2 ^ 128

/-- The part of a validator that the virtual schedule is about. -/
def Validator.lap (w : Validator) : AccountName × Nat × Nat × Nat :=
  (w.owner, w.virtualPosition, w.virtualLastUpdate, w.virtualScheduledTime)

theorem Validator.OnLap.congr {now : Nat} {v w : Validator} (h : v.OnLap now) (hlap : w.lap = v.lap) :
    w.OnLap now := by
  simp only [lap, Prod.mk.injEq] at hlap
  obtain ⟨-, hp, hu, hs⟩ := hlap
  exact ⟨hp ▸ h.position, hu ▸ h.updated, hs ▸ h.scheduled, hs ▸ h.bounded⟩

/-- A new validator is scheduled as late as possible. -/
theorem Validator.onLap_new {now : Nat} (hnow : now < 2 ^ 128) (owner : AccountName) :
    ({ owner := owner } : Validator).OnLap now := by
  refine ⟨Nat.zero_le _, Nat.zero_le _, ?_, ?_⟩
  · show now ≤ 2 ^ 128 - 1
    omega
  · show 2 ^ 128 - 1 < 2 ^ 128
    decide

theorem virtualLap_lt (votes : Int) : virtualLap votes < 2 ^ 128 := by
  have hlap : virtualLap votes ≤ Config.virtualScheduleLapLength2 := Nat.div_le_self _ _
  have hlen : Config.virtualScheduleLapLength2 < 2 ^ 128 := by decide
  omega

namespace Core

open Prog

variable {Tx L : Type} {env : Env Tx L} {b : SignedBlock Tx} {c c' : Core L}

/-- **Every validator is on its lap.** -/
structure OnTime (c : Core L) : Prop where
  now   : c.schedule.currentVirtualTime < 2 ^ 128
  onLap : ∀ w ∈ c.validators, w.OnLap c.schedule.currentVirtualTime

/-- Validators and virtual time may be replaced where the laps stay. -/
theorem OnTime.congr (h : OnTime c) (hnow : c'.schedule.currentVirtualTime = c.schedule.currentVirtualTime)
    (hv : ∀ w ∈ c'.validators, ∃ v ∈ c.validators, w.lap = v.lap) : OnTime c' := by
  refine ⟨hnow ▸ h.now, fun w hw => ?_⟩
  obtain ⟨v, hvm, hlap⟩ := hv w hw
  rw [hnow]
  exact (h.onLap v hvm).congr hlap

/-- Nothing the virtual schedule is about changes. -/
theorem OnTime.same (h : OnTime c) (hs : c'.schedule.currentVirtualTime = c.schedule.currentVirtualTime)
    (hv : c'.validators = c.validators) : OnTime c' :=
  h.congr hs fun w hw => ⟨w, hv ▸ hw, rfl⟩

theorem OnTime.map (h : OnTime c) {f : Validator → Validator} (hf : ∀ w, (f w).lap = w.lap)
    (hs : c'.schedule.currentVirtualTime = c.schedule.currentVirtualTime) (hv : c'.validators = c.validators.map f) :
    OnTime c' := by
  refine h.congr hs fun w hw => ?_
  rw [hv] at hw
  obtain ⟨v, hvm, rfl⟩ := List.mem_map.mp hw
  exact ⟨v, hvm, hf v⟩

theorem OnTime.modify (h : OnTime c) (name : AccountName) {f : Validator → Validator}
    (hf : ∀ w, (f w).lap = w.lap) : OnTime (c.modifyValidator name f) := by
  refine h.map (f := fun w => if w.owner = name then f w else w) (fun w => ?_) rfl rfl
  split
  · exact hf w
  · rfl

theorem OnTime.upsert (h : OnTime c) (name : AccountName) {f : Validator → Validator}
    (hf : ∀ w, (f w).lap = w.lap) : OnTime (c.upsertValidator name f) := by
  unfold upsertValidator
  split
  · exact h.modify name hf
  · refine ⟨h.now, fun w hw => ?_⟩
    rcases List.mem_append.mp hw with hw | hw
    · exact h.onLap w hw
    · obtain rfl := List.mem_singleton.mp hw
      exact (Validator.onLap_new h.now name).congr (hf _)

/-! ## Votes -/

/-- An end that lies in the past has overflowed, and becomes the latest end there is. -/
theorem latest_or_later {now : Nat} (hnow : now < 2 ^ 128) (x : Nat) :
    now ≤ (if x % 2 ^ 128 < now then 2 ^ 128 - 1 else x % 2 ^ 128) ∧
      (if x % 2 ^ 128 < now then 2 ^ 128 - 1 else x % 2 ^ 128) < 2 ^ 128 := by
  have hx : x % 2 ^ 128 < 2 ^ 128 := Nat.mod_lt _ (by decide)
  split
  · exact ⟨Nat.le_sub_one_of_lt hnow, by decide⟩
  · next hlate => exact ⟨Nat.le_of_not_lt hlate, hx⟩

/-- **A vote change starts from where the validator is**, and its lap ends later than now. -/
theorem votedValidator_onLap (hnow : c.schedule.currentVirtualTime < 2 ^ 128) (delta : Int) (w : Validator) :
    (c.votedValidator delta w).OnLap c.schedule.currentVirtualTime := by
  unfold votedValidator
  have hmod : ∀ x : Nat, x % 2 ^ 128 ≤ Config.virtualScheduleLapLength2 :=
    fun x => Nat.le_sub_one_of_lt (Nat.mod_lt x (by decide))
  exact ⟨hmod _, Nat.le_refl _, (latest_or_later hnow _).1, (latest_or_later hnow _).2⟩

theorem adjustValidatorVote_onTime {name : AccountName} {delta : Int}
    (h : c.adjustValidatorVote env name delta = .ok c') (ht : OnTime c) : OnTime c' := by
  obtain ⟨w, -, h⟩ := except_bind_eq_ok h
  split at h
  · obtain rfl := Except.ok.inj h
    refine ⟨ht.now, fun v hv => ?_⟩
    obtain ⟨u, hu, rfl⟩ := List.mem_map.mp hv
    split
    · exact votedValidator_onLap ht.now delta u
    · exact ht.onLap u hu
  · exact absurd h (by simp [throw, throwThe, MonadExceptOf.throw])

theorem applyEdit_onTime {e : ValidatorEdit} (h : c.applyEdit env e = .ok c') (ht : OnTime c) : OnTime c' := by
  cases e with
  | updateKey owner key =>
      obtain rfl := Except.ok.inj h
      exact ht.upsert owner fun _ => rfl
  | updateProps owner props =>
      obtain rfl := Except.ok.inj h
      exact ht.upsert owner fun _ => rfl
  | adjustVote owner delta => exact adjustValidatorVote_onTime h ht
  | clearVotes =>
      obtain rfl := Except.ok.inj h
      exact ht.map (f := fun w => { w with votes := 0, countedVotes := 0 }) (fun _ => rfl) rfl rfl
  | remove owner unschedule =>
      obtain rfl := Except.ok.inj h
      refine ht.congr ?_ fun w hw => ⟨w, (List.mem_filter.mp hw).1, rfl⟩
      show (if unschedule then unscheduled owner c.schedule else c.schedule).currentVirtualTime = _
      split <;> rfl

/-! ## The round -/

/-- **The walk stops at a virtual time that only processed validators can be behind.** -/
theorem supportWalk_spec (top : List AccountName) {ws : List Validator} (count : Nat) (r : SupportWalk)
    (hsorted : ws.Pairwise (fun v w => v.virtualScheduledTime ≤ w.virtualScheduledTime))
    (hnow : ∀ w ∈ ws, r.virtualTime ≤ w.virtualScheduledTime) :
    r.processed ⊆ (c.supportWalk top ws count r).processed ∧
      r.virtualTime ≤ (c.supportWalk top ws count r).virtualTime ∧
      ((c.supportWalk top ws count r).virtualTime = r.virtualTime ∨
        ∃ w ∈ ws, (c.supportWalk top ws count r).virtualTime = w.virtualScheduledTime) ∧
      ∀ w ∈ ws, w.owner ∉ (c.supportWalk top ws count r).processed →
        (c.supportWalk top ws count r).virtualTime ≤ w.virtualScheduledTime := by
  induction ws generalizing count r with
  | nil => exact ⟨fun _ h => h, Nat.le_refl _, .inl rfl, fun w hw => absurd hw List.not_mem_nil⟩
  | cons w ws ih =>
      obtain ⟨hfirst, hrest⟩ := List.pairwise_cons.mp hsorted
      -- whether or not `w` joins the support validators, it is processed, and `now` moves to it
      have hgo : ∀ (count : Nat) (support : List AccountName),
          let r' := c.supportWalk top ws count ⟨support, r.processed ++ [w.owner], w.virtualScheduledTime⟩
          r.processed ⊆ r'.processed ∧ r.virtualTime ≤ r'.virtualTime ∧
            (r'.virtualTime = r.virtualTime ∨ ∃ v ∈ w :: ws, r'.virtualTime = v.virtualScheduledTime) ∧
            ∀ v ∈ w :: ws, v.owner ∉ r'.processed → r'.virtualTime ≤ v.virtualScheduledTime := by
        intro count support
        obtain ⟨hsub, hle, hat, hbehind⟩ :=
          ih count ⟨support, r.processed ++ [w.owner], w.virtualScheduledTime⟩ hrest hfirst
        refine ⟨fun x hx => hsub (List.mem_append_left _ hx),
          Nat.le_trans (hnow w (List.mem_cons_self ..)) hle, .inr ?_, ?_⟩
        · rcases hat with hat | ⟨v, hv, hat⟩
          · exact ⟨w, List.mem_cons_self .., hat⟩
          · exact ⟨v, List.mem_cons_of_mem _ hv, hat⟩
        · intro v hv hout
          rcases List.mem_cons.mp hv with rfl | hv
          · exact absurd (hsub (List.mem_append_right _ (List.mem_singleton_self _))) hout
          · exact hbehind v hv hout
      unfold supportWalk
      split
      · dsimp only
        split
        · exact hgo (count + 1) (r.support ++ [w.owner])
        · exact hgo count r.support
      · exact ⟨fun _ h => h, Nat.le_refl _, .inl rfl, fun v hv _ => hnow v hv⟩

/-- **Whoever is processed starts a lap now**, unless a lap overflows; the others stay as they are. -/
theorem advanceVirtual_spec (now : Nat) (names : List AccountName) (c : Core L)
    (hfits : (advanceVirtual now names c).2 = false) :
    ∀ w ∈ (advanceVirtual now names c).1.validators,
      w.OnLap now ∨ (w ∈ c.validators ∧ w.owner ∉ names) := by
  induction names generalizing c with
  | nil => exact fun w hw => .inr ⟨hw, List.not_mem_nil⟩
  | cons name ns ih =>
      intro w hw
      unfold advanceVirtual at hfits hw
      split at hfits
      · next hnone =>
          rw [hnone] at hw
          rcases ih c hfits w hw with hlap | ⟨hmem, hout⟩
          · exact .inl hlap
          · refine .inr ⟨hmem, ?_⟩
            rw [List.mem_cons, not_or]
            refine ⟨fun ho => ?_, hout⟩
            have hfind := List.find?_eq_none.mp hnone w hmem
            exact hfind (by simp [ho])
      · next v hv =>
          rw [hv] at hw
          dsimp only at hfits hw
          split at hfits
          · exact absurd hfits (by simp)
          · next hlate =>
              rw [if_neg hlate] at hw
              rcases ih _ hfits w hw with hlap | ⟨hmem, hout⟩
              · exact .inl hlap
              · obtain ⟨u, hu, rfl⟩ := List.mem_map.mp hmem
                by_cases ho : u.owner = name
                · rw [if_pos ho]
                  refine .inl ⟨Nat.zero_le _, Nat.le_refl _, Nat.le_of_not_lt hlate, ?_⟩
                  exact Nat.mod_lt _ (by decide)
                · rw [if_neg ho] at hout ⊢
                  refine .inr ⟨hu, ?_⟩
                  rw [List.mem_cons, not_or]
                  exact ⟨ho, hout⟩

/-- After a reset everybody starts a lap at zero. -/
theorem resetVirtualScheduleTime_onTime (c : Core L) : OnTime c.resetVirtualScheduleTime := by
  have hzero : (0 : Nat) < 2 ^ 128 := by decide
  refine ⟨hzero, fun w hw => ?_⟩
  obtain ⟨v, -, rfl⟩ := List.mem_map.mp hw
  exact ⟨Nat.zero_le _, Nat.le_refl _, Nat.zero_le _, virtualLap_lt _⟩

theorem setClasses_lap {active support : List AccountName} {w : Validator}
    (hw : w ∈ (setClasses active support c).validators) : ∃ v ∈ c.validators, w.lap = v.lap := by
  obtain ⟨v, hv, rfl⟩ := List.mem_map.mp hw
  refine ⟨v, hv, ?_⟩
  split
  · rfl
  · split <;> rfl

theorem hybridSchedule_onTime (h : OnTime c) : OnTime c.hybridSchedule := by
  have hfill : OnTime c.fillSlots := h.same rfl rfl
  have hsync : OnTime c.fillSlots.syncCommittee := hfill.modify _ fun _ => rfl
  unfold hybridSchedule
  split
  · dsimp only
    split
    · exact hsync.same rfl rfl
    · exact hsync
  · exact h

/-- **A new round keeps everybody on time.** -/
theorem newRound_onTime (h : c.newRound = .ok c') (ht : OnTime c) : OnTime c' := by
  obtain ⟨ws, -, h⟩ := except_bind_eq_ok h
  obtain rfl := Except.ok.inj h
  apply hybridSchedule_onTime
  generalize hwalk : c.supportWalk _ _ _ _ = walk
  obtain ⟨-, hle, hat, hbehind⟩ := supportWalk_spec (c := c) c.topValidators c.topValidators.length
    ⟨[], [], c.schedule.currentVirtualTime⟩
    (List.pairwise_insertionSort (fun a b : Validator => a.virtualScheduledTime ≤ b.virtualScheduledTime) _)
    (fun w hw => (ht.onLap w ((List.mem_insertionSort _).mp hw)).scheduled)
  rw [hwalk] at hle hat hbehind
  have hnow : walk.virtualTime < 2 ^ 128 := by
    rcases hat with hat | ⟨w, hw, hat⟩
    · rw [hat]
      exact ht.now
    · rw [hat]
      exact (ht.onLap w ((List.mem_insertionSort _).mp hw)).bounded
  have hadvanced := advanceVirtual_spec walk.virtualTime walk.processed
    (c.setClasses c.topValidators walk.support)
  generalize advanceVirtual walk.virtualTime walk.processed _ = advanced at hadvanced
  -- the tally leaves the validators alone, and `shuffle` sets the virtual time
  have htally : ∀ (now version : Nat) (d : Core L), now < 2 ^ 128 → (∀ w ∈ d.validators, w.OnLap now) →
      OnTime (shuffle c.topValidators walk.support now version (tallyVersions ws d)) := by
    intro now version d hn hd
    unfold tallyVersions
    split <;> exact ⟨hn, hd⟩
  cases hover : advanced.2 with
  | true => exact htally 0 _ _ (by decide) (resetVirtualScheduleTime_onTime advanced.1).onLap
  | false =>
      refine htally walk.virtualTime _ _ hnow fun w hw => ?_
      rcases hadvanced hover w hw with hlap | ⟨hmem, hout⟩
      · exact hlap
      · obtain ⟨v, hv, hvlap⟩ := setClasses_lap hmem
        have hon := (ht.onLap v hv).congr hvlap
        have howner : w.owner = v.owner := congrArg Prod.fst hvlap
        have hlate := hbehind v ((List.mem_insertionSort _).mpr hv) (howner ▸ hout)
        have hsched : w.virtualScheduledTime = v.virtualScheduledTime :=
          congrArg (fun x => x.2.2.2) hvlap
        exact ⟨hon.position, Nat.le_trans hon.updated hle, hsched ▸ hlate, hon.bounded⟩

/-! ## Everything else -/

theorem expirePenalties_onTime (h : c.expirePenalties = .ok c') (ht : OnTime c) : OnTime c' := by
  unfold expirePenalties at h
  dsimp only at h
  have hstart : OnTime { c with penalties := c.penalties.filter (fun p => !decide (p.expires ≤ c.time)) } :=
    ht.same rfl rfl
  refine foldlM_rel (R := Keeps OnTime) (fun d p d' hd htd => ?_) h hstart
  obtain ⟨w, -, hd⟩ := except_bind_eq_ok hd
  obtain rfl := Except.ok.inj hd
  refine htd.modify _ fun w => ?_
  simp only [Validator.lap]

theorem missSlot_onTime {i : Nat} (h : missSlot b c i = .ok c') (ht : OnTime c) : OnTime c' := by
  obtain ⟨w, -, h⟩ := except_bind_eq_ok h
  have hm : OnTime (c.modifyValidator w.owner (c.missedValidator b)) := by
    refine ht.modify _ fun v => ?_
    unfold missedValidator
    dsimp only
    split
    · rfl
    · split
      · split <;> rfl
      · split <;> split <;> rfl
  dsimp only at h
  split at h
  · obtain rfl := Except.ok.inj h
    exact hm.same rfl rfl
  · obtain rfl := Except.ok.inj h
    exact hm

theorem activateEmergency_onTime (b : SignedBlock Tx) (ht : OnTime c) : OnTime (c.activateEmergency b) := by
  have hstart : OnTime { c with emergencyConsensusActive := true, emergencyConsensusStartBlock := b.blockNum } :=
    ht.same rfl rfl
  have hup := hstart.upsert Config.emergencyValidatorAccount
    (f := committeeValidator { c with emergencyConsensusActive := true
                                      emergencyConsensusStartBlock := b.blockNum }) fun _ => rfl
  refine hup.map (f := blankedValidator) (fun w => ?_) rfl rfl
  unfold blankedValidator
  split <;> rfl

theorem updateMedianValidatorProps_onTime (h : c.updateMedianValidatorProps = .ok c') (ht : OnTime c) :
    OnTime c' := by
  obtain ⟨active, -, h⟩ := except_bind_eq_ok h
  dsimp only at h
  split at h
  · exact Except.ok.inj h ▸ ht
  · obtain rfl := Except.ok.inj h
    exact ht.same rfl rfl

/-- **Nothing a block does makes a validator late.** -/
theorem CoreTick.onTime (t : CoreTick env b c c') (ht : OnTime c) : OnTime c' := by
  cases t with
  | edited h => exact applyEdit_onTime h ht
  | ledger l => exact ht.same rfl rfl
  | opened =>
      unfold changeGenesis
      split <;> exact ht.same rfl rfl
  | extended e =>
      cases e with
      | void => exact ht
      | version v => exact ht.modify _ fun _ => rfl
      | hardforkVersionVote v t => exact ht.modify _ fun _ => rfl
  | missed h => exact missSlot_onTime h ht
  | emergency => exact activateEmergency_onTime b ht
  | signed => exact ht.modify _ fun _ => rfl
  | summary => exact ht.same rfl rfl
  | expired h => exact expirePenalties_onTime h ht
  | round h => exact newRound_onTime h ht
  | median h => exact updateMedianValidatorProps_onTime h ht
  | hardfork p => exact ht.same rfl rfl
  | shifted n => exact ht.same rfl rfl

end Core

/-! ## Runs -/

namespace Database

open Core UndoDb

variable {Tx L : Type} {U : SignedBlock Tx → Prop} {env : Env Tx L} {base : BlockId} {db : Database Tx L}

/-- **The virtual schedule is in order** in every state a node is in or can come back to, if it was when the
    node was opened: no lap ends before the virtual time, and no position is beyond the lap, neither in the
    state nor in the middle of a vote change. -/
theorem virtual_schedule_order (hU : Universe U) (h : InOrder U base db) (hopen : Opened db)
    (h₀ : OnTime db.state.core) {steps : List (Step Tx)} (hs : ∀ x ∈ steps, x.From U) {s : ChainState Tx L}
    (hstate : s ∈ (run env db steps).chainbase.layers) {w : Validator} (hw : w ∈ s.core.validators) :
    s.core.schedule.currentVirtualTime ≤ w.virtualScheduledTime ∧
      w.virtualPosition ≤ Config.virtualScheduleLapLength2 ∧
      w.virtualLastUpdate ≤ s.core.schedule.currentVirtualTime ∧
      ∀ delta, (s.core.votedValidator delta w).virtualPosition ≤ Config.virtualScheduleLapLength2 := by
  have ht : OnTime s.core := by
    refine run_kept hU h hopen hs hstate h₀ (fun t ht => t.onTime ht) fun b n c ht => ?_
    exact ht.same rfl rfl
  have hlap := ht.onLap w hw
  exact ⟨hlap.scheduled, hlap.position, hlap.updated, fun delta => (votedValidator_onLap ht.now delta w).position⟩

end Database

/-! ## The sample network -/

namespace Sample

theorem four_onTime : Core.OnTime four.state.core := by
  refine ⟨by decide, fun w hw => ?_⟩
  have hw' : w ∈ [validator 1 10, validator 2 20, validator 3 30, validator 4 40] := hw
  have hlap : w.lap = (w.owner, 0, 0, 2 ^ 128 - 1) := by
    simp only [List.mem_cons, List.not_mem_nil, or_false] at hw'
    rcases hw' with rfl | rfl | rfl | rfl <;> rfl
  exact (Validator.onLap_new (by decide) w.owner).congr hlap

/-- A block that brings a new validator and moves votes. -/
def voting2 : SignedBlock Tx := block block1.id 6 3 20 [[.updateKey 9 9, .adjustVote 1 5]]

/-- It arrives. -/
def voting : List (Step Tx) := [.block voting2 Skip.nothing]

/-- Nobody is late after it, the new validator included. -/
theorem virtual_schedule_order_sample :
    (four.run env voting).state.core.validators.length = 5 ∧
    (four.run env voting).state.core.validators.all (fun w =>
      decide ((four.run env voting).state.core.schedule.currentVirtualTime ≤ w.virtualScheduledTime)) = true := by
  have hU : Universe (· ∈ [block1, voting2]) := Universe.of_list (by decide) (by decide)
  have hstart : Database.InOrder (· ∈ [block1, voting2]) block1.id four := node_inOrder (by simp) (by decide) _
  have hopen : Database.Opened four := ⟨rfl, rfl, rfl⟩
  have hs : ∀ x ∈ voting, x.From (· ∈ [block1, voting2]) := by simp [voting, Step.From]
  refine ⟨by decide +kernel, List.all_eq_true.mpr fun w hw => decide_eq_true ?_⟩
  exact (Database.virtual_schedule_order (s := (four.run env voting).state) hU hstart hopen four_onTime hs
    (UndoDb.state_mem_layers _) hw).1

end Sample

end VizNode
