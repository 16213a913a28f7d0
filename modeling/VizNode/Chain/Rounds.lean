import VizNode.Chain.CoreTicks
import Mathlib.Data.Nat.ModEq

/-!
# `VizNode.Chain.Rounds` — the turns of a round

The schedule has 21 slots, of which the first so many are in use, and the slots in use take turns: the absolute slot,
modulo their number, says whose turn it is.

**In any run of turns as long as the schedule each scheduled validator has exactly one** (`one_turn_each`), apart from
the committee, which may stand in for several in an emergency. For this no name may be in two slots, in every state of
every run, and there has to be a slot. A round takes its names from the validator table: the ones with the most votes,
then others; they differ because the owners of the table do. What happens to a schedule between the rounds only empties
slots or gives them to the committee.

## Contents
- **Rosters.** `Rostered`, `ValidatorSchedule.Refines`.
- **The round.** `newRound_rostered`.
- **Everything else**, and runs.
- **Turns.** `one_turn_each`.
-/

namespace VizNode

/-! ## Rosters -/

/-- A name that only one slot may hold: neither empty nor the committee. -/
def OwnName (name : AccountName) : Prop := name ≠ 0 ∧ name ≠ Config.emergencyValidatorAccount

instance {name : AccountName} : Decidable (OwnName name) := inferInstanceAs (Decidable (_ ∧ _))

namespace ValidatorSchedule

/-- **A roster**: 21 slots, at least one of them in use, and no name in two of these. -/
structure Rostered (w : ValidatorSchedule) : Prop where
  length : w.currentShuffledValidators.length = Config.maxValidators
  pos    : 0 < w.numScheduledValidators
  le     : w.numScheduledValidators ≤ Config.maxValidators
  once   : ∀ i < w.numScheduledValidators, ∀ j < w.numScheduledValidators, w.slot i = w.slot j →
    OwnName (w.slot i) → i = j

/-- The slots of the new schedule have the names they had, or none, or the committee. -/
structure Refines (w w' : ValidatorSchedule) : Prop where
  length : w'.currentShuffledValidators.length = w.currentShuffledValidators.length
  slot   : ∀ i < w'.numScheduledValidators, OwnName (w'.slot i) →
    w'.slot i = w.slot i ∧ i < w.numScheduledValidators

variable {w w' : ValidatorSchedule}

theorem Rostered.refines (h : w.Rostered) (hr : Refines w w') (hpos : 0 < w'.numScheduledValidators)
    (hle : w'.numScheduledValidators ≤ Config.maxValidators) : w'.Rostered where
  length := hr.length.trans h.length
  pos    := hpos
  le     := hle
  once   := by
    intro i hi j hj he hown
    obtain ⟨hslot, hin⟩ := hr.slot i hi hown
    obtain ⟨hslot', hin'⟩ := hr.slot j hj (he ▸ hown)
    exact h.once i hin j hin' (by rw [← hslot, ← hslot', he]) (hslot ▸ hown)

/-- A roster with other times, properties or versions. -/
theorem Rostered.same (h : w.Rostered) (hs : w'.currentShuffledValidators = w.currentShuffledValidators)
    (hn : w'.numScheduledValidators = w.numScheduledValidators) : w'.Rostered := by
  have hslot : w'.slot = w.slot := by
    unfold slot
    rw [hs]
  exact h.refines ⟨by rw [hs], fun i hi _ => ⟨by rw [hslot], hn ▸ hi⟩⟩ (hn ▸ h.pos) (hn ▸ h.le)

/-- The slots in use are rewritten one by one. -/
theorem slot_rewritten {f : AccountName → AccountName} {n i : Nat} (hn : n ≤ w.currentShuffledValidators.length)
    (hi : i < n) {v : ValidatorSchedule}
    (hv : v.currentShuffledValidators =
      (w.currentShuffledValidators.take n).map f ++ w.currentShuffledValidators.drop n) :
    v.slot i = f (w.slot i) := by
  unfold slot
  rw [hv, List.getD_eq_getElem?_getD, List.getD_eq_getElem?_getD, List.getElem?_append_left (by simp; omega),
    List.getElem?_map, List.getElem?_take_of_lt hi, List.getElem?_eq_getElem (by omega)]
  rfl

/-- **Slots are emptied, or given to the committee.** -/
theorem Rostered.rewritten (h : w.Rostered) {f : AccountName → AccountName} (hf : ∀ name, f name = name ∨ ¬ OwnName (f name))
    {v : ValidatorSchedule}
    (hv : v.currentShuffledValidators = (w.currentShuffledValidators.take w.numScheduledValidators).map f ++
      w.currentShuffledValidators.drop w.numScheduledValidators)
    (hn : v.numScheduledValidators = w.numScheduledValidators) : v.Rostered := by
  have hle : w.numScheduledValidators ≤ w.currentShuffledValidators.length := h.length ▸ h.le
  refine h.refines ⟨?_, fun i hi hown => ?_⟩ (hn ▸ h.pos) (hn ▸ h.le)
  · rw [hv, List.length_append, List.length_map, ← List.length_append, List.take_append_drop]
  · rw [hn] at hi
    rw [slot_rewritten hle hi hv] at hown ⊢
    exact ⟨(hf _).resolve_right (not_not.mpr hown), hi⟩

end ValidatorSchedule

namespace Core

open Prog ValidatorSchedule

variable {Tx L : Type} {env : Env Tx L} {b : SignedBlock Tx} {c c' : Core L}

/-- The owners of the validator table. -/
def owners (c : Core L) : List AccountName := c.validators.map (·.owner)

/-- **The core has a roster**, and no account has two entries in the validator table. -/
structure Rostered (c : Core L) : Prop where
  owners   : c.owners.Nodup
  schedule : c.schedule.Rostered

theorem Rostered.same (h : c.Rostered) (ho : c'.owners = c.owners) (hs : c'.schedule = c.schedule) : c'.Rostered :=
  ⟨ho ▸ h.owners, hs ▸ h.schedule⟩

theorem owners_map {f : Validator → Validator} (hf : ∀ w, (f w).owner = w.owner) (hv : c'.validators = c.validators.map f) :
    c'.owners = c.owners := by
  unfold owners
  rw [hv, List.map_map]
  exact List.map_congr_left fun w _ => hf w

theorem owners_modify (name : AccountName) {f : Validator → Validator} (hf : ∀ w, (f w).owner = w.owner) :
    (c.modifyValidator name f).owners = c.owners := by
  refine owners_map (f := fun w => if w.owner = name then f w else w) (fun w => ?_) rfl
  split
  · exact hf w
  · rfl

theorem Rostered.modify (h : c.Rostered) (name : AccountName) {f : Validator → Validator}
    (hf : ∀ w, (f w).owner = w.owner) : (c.modifyValidator name f).Rostered := h.same (owners_modify name hf) rfl

theorem Rostered.map (h : c.Rostered) {f : Validator → Validator} (hf : ∀ w, (f w).owner = w.owner)
    (hv : c'.validators = c.validators.map f) (hs : c'.schedule = c.schedule) : c'.Rostered :=
  h.same (owners_map hf hv) hs

theorem upsertValidator_schedule (name : AccountName) (f : Validator → Validator) (c : Core L) :
    (c.upsertValidator name f).schedule = c.schedule := by
  unfold upsertValidator
  split <;> rfl

theorem Rostered.upsert (h : c.Rostered) (name : AccountName) {f : Validator → Validator}
    (hf : ∀ w, (f w).owner = w.owner) : (c.upsertValidator name f).Rostered := by
  unfold upsertValidator
  split
  · exact h.modify name hf
  · next hnone =>
      refine ⟨?_, h.schedule⟩
      have hnew : name ∉ c.owners := by
        intro hm
        obtain ⟨w, hw, ho⟩ := List.mem_map.mp hm
        have hfind := List.find?_eq_none.mp hnone w hw
        exact hfind (decide_eq_true ho)
      show ((c.validators ++ [f { owner := name }]).map (·.owner)).Nodup
      rw [List.map_append, List.map_singleton, hf]
      refine List.nodup_append.mpr ⟨h.owners, List.nodup_singleton _, fun a ha b hb he => ?_⟩
      have hname : b = name := List.mem_singleton.mp hb
      exact hnew (hname ▸ he ▸ ha)

theorem applyEdit_rostered {e : ValidatorEdit} (h : c.applyEdit env e = .ok c') (hr : c.Rostered) : c'.Rostered := by
  cases e with
  | updateKey owner key => exact Except.ok.inj h ▸ hr.upsert owner fun _ => rfl
  | updateProps owner props => exact Except.ok.inj h ▸ hr.upsert owner fun _ => rfl
  | adjustVote owner delta =>
      obtain ⟨w, -, h⟩ := except_bind_eq_ok h
      split at h
      · exact Except.ok.inj h ▸ hr.modify owner fun _ => rfl
      · exact absurd h (by simp [throw, throwThe, MonadExceptOf.throw])
  | clearVotes =>
      obtain rfl := Except.ok.inj h
      exact hr.map (f := fun w => { w with votes := 0, countedVotes := 0 }) (fun _ => rfl) rfl rfl
  | remove owner unschedule =>
      obtain rfl := Except.ok.inj h
      refine ⟨hr.owners.sublist (List.filter_sublist.map _), ?_⟩
      show (if unschedule then unscheduled owner c.schedule else c.schedule).Rostered
      split
      · refine hr.schedule.rewritten (f := fun name => if name = owner then 0 else name) (fun name => ?_) rfl rfl
        split
        · exact .inr fun hown => hown.1 rfl
        · exact .inl rfl
      · exact hr.schedule

/-! ## The round -/

/-- The top validators have entries of their own. -/
theorem topValidators_nodup (h : c.owners.Nodup) : c.topValidators.Nodup := by
  have hsorted : ((c.validators.insertionSort (fun a b => b.countedVotes < a.countedVotes ∨
      (a.countedVotes = b.countedVotes ∧ a.owner ≤ b.owner))).map (·.owner)).Nodup :=
    ((List.perm_insertionSort _ c.validators).map _).nodup_iff.mpr h
  exact hsorted.sublist (((List.take_sublist _ _).trans List.filter_sublist).map _)

theorem topValidators_length : c.topValidators.length ≤ Config.maxTopValidators := by
  unfold topValidators
  rw [List.length_map]
  exact List.length_take_le _ _

/-- **The walk fills the schedule with others**, until it has 21 names. -/
theorem supportWalk_roster {top : List AccountName} {ws : List Validator} {count : Nat} {r : SupportWalk}
    (hnodup : (r.support ++ ws.map (·.owner)).Nodup) (hother : ∀ x ∈ r.support, x ∉ top)
    (hcount : count = top.length + r.support.length) (hle : count ≤ Config.maxValidators) :
    (c.supportWalk top ws count r).support.Nodup ∧ (∀ x ∈ (c.supportWalk top ws count r).support, x ∉ top) ∧
      top.length + (c.supportWalk top ws count r).support.length ≤ Config.maxValidators := by
  induction ws generalizing count r with
  | nil =>
      unfold supportWalk
      exact ⟨(List.nodup_append.mp hnodup).1, hother, hcount ▸ hle⟩
  | cons w ws ih =>
      unfold supportWalk
      split
      · next hlt =>
          dsimp only
          split
          · next hw =>
              refine ih ?_ ?_ ?_ hlt
              · show (r.support ++ [w.owner] ++ ws.map (·.owner)).Nodup
                rw [List.append_assoc]
                exact hnodup
              · intro x hx
                rcases List.mem_append.mp hx with hx | hx
                · exact hother x hx
                · exact (List.mem_singleton.mp hx) ▸ hw.2
              · show count + 1 = top.length + (r.support ++ [w.owner]).length
                rw [List.length_append, List.length_singleton]
                omega
          · exact ih (hnodup.sublist (List.Sublist.append_left (List.sublist_cons_self _ _) _)) hother hcount hle
      · exact ⟨(List.nodup_append.mp hnodup).1, hother, hcount ▸ hle⟩

theorem interleave_perm (as ss : List AccountName) : (interleave as ss).Perm (as ++ ss) := by
  induction as generalizing ss with
  | nil =>
      unfold interleave
      exact .refl _
  | cons a as ih =>
      cases ss with
      | nil =>
          unfold interleave
          rw [List.append_nil]
      | cons s ss =>
          unfold interleave
          refine List.Perm.cons a ?_
          exact (List.Perm.cons s (ih ss)).trans List.perm_middle.symm

theorem padSlots_length {names : List AccountName} (h : names.length ≤ Config.maxValidators) :
    (padSlots names).length = Config.maxValidators := by
  unfold padSlots
  rw [List.length_append, List.length_replicate]
  omega

/-- **The shuffled names are a roster.** -/
theorem shuffle_rostered {active support : List AccountName} {now version : Nat} (hnodup : (active ++ support).Nodup)
    (hle : active.length + support.length ≤ Config.maxValidators) (ho : c.owners.Nodup) :
    (shuffle active support now version c).Rostered := by
  have hperm := interleave_perm active support
  have hlen : (interleave active support).length = active.length + support.length :=
    hperm.length_eq.trans List.length_append
  have hpositive : 1 ≤ Config.maxValidators := by decide
  refine ⟨ho, padSlots_length (hlen ▸ hle), Nat.lt_of_lt_of_le Nat.zero_lt_one (le_max_right _ _),
    max_le hle hpositive, ?_⟩
  have hslot : ∀ i, OwnName ((shuffle active support now version c).schedule.slot i) →
      (interleave active support)[i]? = some ((shuffle active support now version c).schedule.slot i) := by
    intro i hown
    have hget : (shuffle active support now version c).schedule.slot i = (padSlots (interleave active support)).getD i 0 := rfl
    rw [hget] at hown ⊢
    unfold padSlots at hown ⊢
    rw [List.getD_eq_getElem?_getD] at hown ⊢
    by_cases hi : i < (interleave active support).length
    · rw [List.getElem?_append_left hi, List.getElem?_eq_getElem hi]
      rfl
    · rw [List.getElem?_append_right (not_lt.mp hi)] at hown
      refine absurd ?_ hown.1
      rw [List.getElem?_replicate]
      split <;> rfl
  intro i _ j _ he hown
  have hi := hslot i hown
  have hj := hslot j (he ▸ hown)
  rw [← he] at hj
  obtain ⟨hi', hvi⟩ := List.getElem?_eq_some_iff.mp hi
  obtain ⟨hj', hvj⟩ := List.getElem?_eq_some_iff.mp hj
  exact (hperm.nodup_iff.mpr hnodup).getElem_inj_iff.mp (hvi.trans hvj.symm)

/-- An available slot is one in use. -/
theorem slotAvailable_lt {i : Nat} (h : c.slotAvailable i = true) : i < c.schedule.numScheduledValidators := by
  unfold slotAvailable at h
  by_contra hlt
  rw [if_neg hlt] at h
  simp at h

/-- **The committee stands in** for whoever is not available. -/
theorem fillSlots_rostered (h : c.Rostered) : c.fillSlots.Rostered := by
  have hlength : c.fillSlots.schedule.currentShuffledValidators.length = Config.maxValidators := by
    show ((List.range Config.maxValidators).map _).length = _
    rw [List.length_map, List.length_range]
  refine ⟨h.owners, h.schedule.refines ⟨hlength.trans h.schedule.length.symm, fun i hi hown => ?_⟩ ?_ le_rfl⟩
  swap
  · show 0 < Config.maxValidators
    decide
  have hi' : i < Config.maxValidators := hi
  have hslot : c.fillSlots.schedule.slot i =
      if c.slotAvailable i then c.schedule.slot i else Config.emergencyValidatorAccount := by
    unfold slot fillSlots
    dsimp only
    rw [List.getD_eq_getElem?_getD, List.getElem?_map, List.getElem?_range hi']
    rfl
  rw [hslot] at hown ⊢
  by_cases havail : c.slotAvailable i = true
  · rw [if_pos havail]
    exact ⟨rfl, slotAvailable_lt havail⟩
  · rw [if_neg havail] at hown
    exact absurd rfl hown.2

theorem hybridSchedule_rostered (h : c.Rostered) : c.hybridSchedule.Rostered := by
  have hsync : c.fillSlots.syncCommittee.Rostered := (fillSlots_rostered h).modify _ fun _ => rfl
  unfold hybridSchedule
  split
  · dsimp only
    split
    · exact hsync.same rfl rfl
    · exact hsync
  · exact h

theorem advanceVirtual_owners (now : Nat) (names : List AccountName) (c : Core L) :
    (advanceVirtual now names c).1.owners = c.owners := by
  induction names generalizing c with
  | nil => rfl
  | cons name ns ih =>
      unfold advanceVirtual
      split
      · exact ih c
      · dsimp only
        split
        · rfl
        · exact (ih _).trans (owners_modify name fun _ => rfl)

theorem setClasses_owners (active support : List AccountName) (c : Core L) : (setClasses active support c).owners = c.owners := by
  refine owners_map (f := fun w => if w.owner ∈ active then { w with schedule := .top }
    else if w.owner ∈ support then { w with schedule := .support } else w) (fun w => ?_) rfl
  split
  · rfl
  · split <;> rfl

/-- **A new round is a roster.** -/
theorem newRound_rostered (h : c.newRound = .ok c') (hr : c.Rostered) : c'.Rostered := by
  obtain ⟨ws, -, h⟩ := except_bind_eq_ok h
  obtain rfl := Except.ok.inj h
  apply hybridSchedule_rostered
  generalize hwalk : c.supportWalk _ _ _ _ = walk
  have htop := topValidators_nodup hr.owners
  have hlen := topValidators_length (c := c)
  obtain ⟨hsupport, hother, hcount⟩ := @supportWalk_roster _ c c.topValidators
    (c.validators.insertionSort (fun a b => a.virtualScheduledTime ≤ b.virtualScheduledTime))
    c.topValidators.length ⟨[], [], c.schedule.currentVirtualTime⟩
    (((List.perm_insertionSort _ c.validators).map _).nodup_iff.mpr hr.owners)
    (fun _ hx => absurd hx List.not_mem_nil) rfl (hlen.trans (by decide))
  rw [hwalk] at hsupport hother hcount
  refine shuffle_rostered (List.nodup_append.mpr ⟨htop, hsupport, fun a ha b hb he => hother b hb (he ▸ ha)⟩) hcount ?_
  have htally : ∀ d : Core L, (tallyVersions ws d).owners = d.owners := by
    intro d
    unfold tallyVersions
    split <;> rfl
  have hadvanced := (advanceVirtual_owners walk.virtualTime walk.processed (c.setClasses c.topValidators walk.support)).trans
    (setClasses_owners _ _ c)
  have hreset : ∀ d : Core L, d.resetVirtualScheduleTime.owners = d.owners := fun d =>
    owners_map (f := fun w => { w with
      virtualPosition := 0, virtualLastUpdate := 0
      virtualScheduledTime := virtualLap w.countedVotes }) (fun _ => rfl) rfl
  rw [htally]
  split
  · exact ((hreset _).trans hadvanced) ▸ hr.owners
  · exact hadvanced ▸ hr.owners

/-! ## Everything else -/

theorem expirePenalties_rostered (h : c.expirePenalties = .ok c') (hr : c.Rostered) : c'.Rostered := by
  unfold expirePenalties at h
  dsimp only at h
  have hstart : Rostered { c with penalties := c.penalties.filter (fun p => !decide (p.expires ≤ c.time)) } :=
    hr.same rfl rfl
  refine foldlM_rel (R := Keeps Rostered) (fun d p d' hd hrd => ?_) h hstart
  obtain ⟨w, -, hd⟩ := except_bind_eq_ok hd
  obtain rfl := Except.ok.inj hd
  exact hrd.modify _ fun _ => rfl

theorem missSlot_rostered {i : Nat} (h : missSlot b c i = .ok c') (hr : c.Rostered) : c'.Rostered := by
  obtain ⟨w, -, h⟩ := except_bind_eq_ok h
  have hm : (c.modifyValidator w.owner (c.missedValidator b)).Rostered := by
    refine hr.modify _ fun v => ?_
    unfold missedValidator
    dsimp only
    split
    · rfl
    · split
      · split <;> rfl
      · split <;> split <;> rfl
  dsimp only at h
  split at h
  · exact Except.ok.inj h ▸ hm.same rfl rfl
  · exact Except.ok.inj h ▸ hm

/-- At the start of an emergency every slot in use is the committee's. -/
theorem activateEmergency_rostered (b : SignedBlock Tx) (hr : c.Rostered) : (c.activateEmergency b).Rostered := by
  have hstart : Rostered { c with emergencyConsensusActive := true, emergencyConsensusStartBlock := b.blockNum } :=
    hr.same rfl rfl
  have hup := hstart.upsert Config.emergencyValidatorAccount
    (f := committeeValidator { c with emergencyConsensusActive := true
                                      emergencyConsensusStartBlock := b.blockNum }) fun _ => rfl
  refine ⟨?_, ?_⟩
  · rw [owners_map (f := blankedValidator) (fun w => ?_) rfl]
    · exact hup.owners
    · unfold blankedValidator
      split <;> rfl
  · exact hup.schedule.rewritten (f := fun _ => Config.emergencyValidatorAccount)
      (fun _ => .inr fun hown => hown.2 rfl) rfl rfl

theorem updateMedianValidatorProps_rostered (h : c.updateMedianValidatorProps = .ok c') (hr : c.Rostered) :
    c'.Rostered := by
  obtain ⟨active, -, h⟩ := except_bind_eq_ok h
  dsimp only at h
  split at h
  · exact Except.ok.inj h ▸ hr
  · obtain rfl := Except.ok.inj h
    exact ⟨hr.owners, hr.schedule.same rfl rfl⟩

/-- **Everything a block does keeps the roster.** -/
theorem CoreTick.rostered (t : CoreTick env b c c') (hr : c.Rostered) : c'.Rostered := by
  cases t with
  | edited h => exact applyEdit_rostered h hr
  | ledger l => exact hr.same rfl rfl
  | opened =>
      unfold changeGenesis
      split <;> exact hr.same rfl rfl
  | extended e =>
      cases e with
      | void => exact hr
      | version v => exact hr.modify _ fun _ => rfl
      | hardforkVersionVote v t => exact hr.modify _ fun _ => rfl
  | missed h => exact missSlot_rostered h hr
  | emergency => exact activateEmergency_rostered b hr
  | signed => exact hr.modify _ fun _ => rfl
  | summary => exact hr.same rfl rfl
  | expired h => exact expirePenalties_rostered h hr
  | round h => exact newRound_rostered h hr
  | median h => exact updateMedianValidatorProps_rostered h hr
  | hardfork p => exact hr.same rfl rfl
  | shifted n => exact hr.same rfl rfl

/-! ## Turns -/

/-- **`n` turns in a row visit every place once.** -/
theorem exists_unique_turn {n m : Nat} (hm : m < n) (a : Nat) : ∃! i, i < n ∧ (a + i) % n = m := by
  have hn : 0 < n := Nat.zero_lt_of_lt hm
  have hlt : a % n < n := Nat.mod_lt a hn
  have hvisit : (a + (m + (n - a % n)) % n) % n = m := by
    calc (a + (m + (n - a % n)) % n) % n
        = (a % n + (m + (n - a % n))) % n := by rw [Nat.add_mod, Nat.mod_mod, ← Nat.add_mod, Nat.mod_add_mod]
      _ = (m + n) % n := by congr 1; omega
      _ = m := by rw [Nat.add_mod_right, Nat.mod_eq_of_lt hm]
  refine ⟨(m + (n - a % n)) % n, ⟨Nat.mod_lt _ hn, hvisit⟩, ?_⟩
  rintro j ⟨hj, hjm⟩
  have hmod : Nat.ModEq n j ((m + (n - a % n)) % n) := Nat.ModEq.add_left_cancel' a (hjm.trans hvisit.symm)
  exact (Nat.mod_eq_of_lt hj).symm.trans (hmod.trans (Nat.mod_eq_of_lt (Nat.mod_lt _ hn)))

/-- A scheduled validator has one turn in a run of turns as long as the schedule. -/
theorem Rostered.turn (h : c.Rostered) {name : AccountName} (hown : OwnName name) (hmem : name ∈ c.schedule.scheduled)
    (k : Nat) : ∃! i, i < c.schedule.numScheduledValidators ∧ c.getScheduledValidator (k + i) = name := by
  obtain ⟨m, hm, hname⟩ := List.mem_iff_getElem.mp hmem
  have hlt : m < c.schedule.numScheduledValidators := by
    unfold scheduled at hm
    rw [List.length_take] at hm
    omega
  have hslot : c.schedule.slot m = name := by
    have hget := List.getElem?_eq_getElem hm
    unfold scheduled at hget
    rw [List.getElem?_take_of_lt hlt] at hget
    unfold slot
    rw [List.getD_eq_getElem?_getD, hget, ← hname]
    rfl
  obtain ⟨i, ⟨hi, him⟩, hunique⟩ := exists_unique_turn hlt (c.currentAslot + k)
  refine ⟨i, ⟨hi, ?_⟩, ?_⟩
  · unfold getScheduledValidator
    rw [← Nat.add_assoc, him, hslot]
  · rintro j ⟨hj, hjn⟩
    refine hunique j ⟨hj, ?_⟩
    unfold getScheduledValidator at hjn
    rw [← Nat.add_assoc, ← hslot] at hjn
    have hpos := h.schedule.pos
    exact h.schedule.once _ (Nat.mod_lt _ hpos) m hlt hjn (hjn ▸ hslot ▸ hown)

end Core

/-! ## Runs -/

namespace Database

open Core UndoDb

variable {Tx L : Type} {U : SignedBlock Tx → Prop} {env : Env Tx L} {base : BlockId} {db : Database Tx L}

/-- **Each scheduled validator has exactly one turn** in any run of turns as long as the schedule, whatever came to the
    node and in whatever order, if its validator table and its schedule were in order when it was opened. There is a slot
    in use, and not more than 21. -/
theorem one_turn_each (hU : Universe U) (h : InOrder U base db) (hopen : Opened db) (h₀ : db.state.core.Rostered)
    {steps : List (Step Tx)} (hs : ∀ x ∈ steps, x.From U) {s : ChainState Tx L}
    (hstate : s ∈ (run env db steps).chainbase.layers) :
    1 ≤ s.core.schedule.numScheduledValidators ∧ s.core.schedule.numScheduledValidators ≤ Config.maxValidators ∧
      ∀ name ∈ s.core.schedule.scheduled, OwnName name → ∀ k,
        ∃! i, i < s.core.schedule.numScheduledValidators ∧ s.core.getScheduledValidator (k + i) = name := by
  have hr : s.core.Rostered :=
    run_kept hU h hopen hs hstate h₀ (fun t ht => t.rostered ht) fun b n c ht => ht.same rfl rfl
  exact ⟨hr.schedule.pos, hr.schedule.le, fun name hmem hown k => hr.turn hown hmem k⟩

end Database

/-! ## The sample network -/

namespace Sample

theorem four_rostered : Core.Rostered four.state.core where
  owners   := by decide
  schedule := ⟨by decide, by decide, by decide, by decide +kernel⟩

/-- The third validator has one of the next four turns, after two blocks. -/
theorem one_turn_each_sample :
    (four.run env (blocks [b2, b3])).state.core.schedule.numScheduledValidators = 4 ∧
    ∃! i, i < (four.run env (blocks [b2, b3])).state.core.schedule.numScheduledValidators ∧
      (four.run env (blocks [b2, b3])).state.core.getScheduledValidator (1 + i) = 3 := by
  have hU : Universe (· ∈ [block1, b2, b3]) := Universe.of_list (by decide +kernel) (by decide +kernel)
  have hstart : Database.InOrder (· ∈ [block1, b2, b3]) block1.id four := node_inOrder (by simp) (by decide +kernel) _
  have hopen : Database.Opened four := ⟨rfl, rfl, rfl⟩
  refine ⟨by decide +kernel, ?_⟩
  have hs : ∀ x ∈ blocks [b2, b3], x.From (· ∈ [block1, b2, b3]) := by decide +kernel
  exact (Database.one_turn_each (s := (four.run env (blocks [b2, b3])).state) hU hstart hopen four_rostered hs
    (UndoDb.state_mem_layers _)).2.2 3 (by decide +kernel) (by decide +kernel) 1

end Sample

end VizNode
