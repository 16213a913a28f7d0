import VizNode.Chain.Quorum
import VizNode.Chain.Traces

/-!
# `VizNode.Chain.Penalties` — are the penalties of the validators accounted for?

A missed slot adds to the penalty of a validator and leaves an object that takes it back when it expires. The
penalty is unsigned, so it must never be less than what the objects will take back.

**The invariant.** `Booked`: the penalty of every validator is the sum of its outstanding objects, and its votes
count without that share. Votes, expiries, rounds, migrations and the end of the emergency mode keep it.

**Where it breaks.** The start of the emergency mode deletes all objects, and forgives every validator except the
committee. So a committee that has missed slots keeps a penalty that nothing takes back. `Forgives` says that this
does not happen, and that no penalty runs over its 32 bits; `penalties_accounted` is the result for every state of
every run.

## Contents
- **Standing.** `SameStanding`: most of a block leaves votes, penalties and objects alone.
- **The writers**, one by one.
- **Runs** and samples.
-/

namespace VizNode

/-- What the outstanding objects will take back from a validator. -/
def owed (ps : List PenaltyExpire) (name : AccountName) : Nat :=
  ((ps.filter (fun p => decide (p.validator = name))).map (·.penaltyPercent)).sum

@[simp] theorem owed_nil (name : AccountName) : owed [] name = 0 := rfl

theorem owed_append (ps qs : List PenaltyExpire) (name : AccountName) :
    owed (ps ++ qs) name = owed ps name + owed qs name := by
  simp [owed]

theorem owed_cons (p : PenaltyExpire) (ps : List PenaltyExpire) (name : AccountName) :
    owed (p :: ps) name = (if p.validator = name then p.penaltyPercent else 0) + owed ps name := by
  unfold owed
  by_cases h : p.validator = name
  · simp [h]
  · simp [h]

theorem owed_perm {ps qs : List PenaltyExpire} (h : ps.Perm qs) (name : AccountName) :
    owed ps name = owed qs name := ((h.filter _).map _).sum_nat

/-- The objects of others do not matter. -/
theorem owed_eq_zero {ps : List PenaltyExpire} {name : AccountName} (h : ∀ p ∈ ps, p.validator ≠ name) :
    owed ps name = 0 := by
  unfold owed
  rw [List.filter_eq_nil_iff.mpr fun p hp => by simpa using h p hp]
  rfl

theorem owed_le {ps : List PenaltyExpire} {p : PenaltyExpire} (h : p ∈ ps) :
    p.penaltyPercent ≤ owed ps p.validator := by
  induction ps with
  | nil => exact absurd h List.not_mem_nil
  | cons q qs ih =>
      rw [owed_cons]
      rcases List.mem_cons.mp h with rfl | h
      · rw [if_pos rfl]
        exact Nat.le_add_right _ _
      · exact Nat.le_trans (ih h) (Nat.le_add_left _ _)

theorem owed_filter_ne {ps : List PenaltyExpire} {name other : AccountName} (h : name ≠ other) :
    owed (ps.filter (fun p => decide (p.validator ≠ other))) name = owed ps name := by
  unfold owed
  rw [List.filter_filter]
  congr 2
  refine List.filter_congr fun p _ => ?_
  by_cases hp : p.validator = name
  · simp [hp, h]
  · simp [hp]

theorem penalizedVotes_none (votes : Int) : penalizedVotes votes 0 = votes := by
  simp [penalizedVotes]

theorem penalizedVotes_zero (percent : Nat) : penalizedVotes 0 percent = 0 := by
  simp [penalizedVotes]

namespace Core

open Prog Relation

variable {Tx L : Type} {env : Env Tx L} {b : SignedBlock Tx} {c c' d : Core L}

/-- **The penalties are booked.** -/
structure Booked (c : Core L) : Prop where
  /-- The penalty of a validator is what its objects will take back. -/
  percent : ∀ w ∈ c.validators, w.penaltyPercent = owed c.penalties w.owner
  /-- Its votes count without that share. -/
  counted : ∀ w ∈ c.validators, w.countedVotes = penalizedVotes w.votes w.penaltyPercent
  small   : ∀ w ∈ c.validators, w.penaltyPercent < 2 ^ 32
  /-- Only validators are penalized, and none before the sixth hardfork. -/
  known   : ∀ p ∈ c.penalties, ∃ w ∈ c.validators, w.owner = p.validator
  early   : c.hasHardfork 6 = false → ∀ w ∈ c.validators, w.penaltyPercent = 0

/-! ## Standing -/

/-- What the bookkeeping is about. -/
def standing (w : Validator) : AccountName × Int × Nat × Int := (w.owner, w.votes, w.penaltyPercent, w.countedVotes)

/-- **Nobody's standing changes.** -/
structure SameStanding (c c' : Core L) : Prop where
  validators : c'.validators.map standing = c.validators.map standing
  penalties  : c'.penalties = c.penalties
  hardfork   : c.hasHardfork 6 = true → c'.hasHardfork 6 = true

instance sameStandingPreorder : IsPreorder (Core L) SameStanding where
  refl _ := ⟨rfl, rfl, id⟩
  trans _ _ _ h₁ h₂ :=
    ⟨h₂.validators.trans h₁.validators, h₂.penalties.trans h₁.penalties, fun h => h₂.hardfork (h₁.hardfork h)⟩

theorem SameStanding.rfl' {c : Core L} : SameStanding c c := refl_of _ _

theorem SameStanding.exists (h : SameStanding c c') {w' : Validator} (hw : w' ∈ c'.validators) :
    ∃ w ∈ c.validators, standing w = standing w' := by
  have hmem : standing w' ∈ c.validators.map standing := by
    rw [← h.validators]
    exact List.mem_map_of_mem hw
  obtain ⟨w, hw, he⟩ := List.mem_map.mp hmem
  exact ⟨w, hw, he⟩

theorem Booked.congr (h : Booked c) (hs : SameStanding c c') : Booked c' := by
  have hback : ∀ w' ∈ c'.validators, ∃ w ∈ c.validators, w.owner = w'.owner ∧ w.votes = w'.votes ∧
      w.penaltyPercent = w'.penaltyPercent ∧ w.countedVotes = w'.countedVotes := by
    intro w' hw'
    obtain ⟨w, hw, he⟩ := hs.exists hw'
    simp only [standing, Prod.mk.injEq] at he
    exact ⟨w, hw, he⟩
  constructor
  · intro w' hw'
    obtain ⟨w, hw, ho, -, hp, -⟩ := hback w' hw'
    rw [← hp, ← ho, hs.penalties]
    exact h.percent w hw
  · intro w' hw'
    obtain ⟨w, hw, -, hv, hp, hc⟩ := hback w' hw'
    rw [← hc, ← hv, ← hp]
    exact h.counted w hw
  · intro w' hw'
    obtain ⟨w, hw, -, -, hp, -⟩ := hback w' hw'
    rw [← hp]
    exact h.small w hw
  · intro p hp
    rw [hs.penalties] at hp
    obtain ⟨w, hw, ho⟩ := h.known p hp
    have hmem : standing w ∈ c'.validators.map standing := by
      rw [hs.validators]
      exact List.mem_map_of_mem hw
    obtain ⟨w', hw', he⟩ := List.mem_map.mp hmem
    exact ⟨w', hw', (congrArg Prod.fst he).trans ho⟩
  · intro hh w' hw'
    obtain ⟨w, hw, -, -, hp, -⟩ := hback w' hw'
    rw [← hp]
    refine h.early ?_ w hw
    by_contra hne
    have htrue : c.hasHardfork 6 = true := by simpa using hne
    exact absurd (hs.hardfork htrue) (by simp [hh])

/-- Validators are rewritten one by one. -/
theorem sameStanding_map {f : Validator → Validator} (hf : ∀ w, standing (f w) = standing w)
    (hv : c'.validators = c.validators.map f) (hp : c'.penalties = c.penalties)
    (hh : c'.hardforks = c.hardforks) : SameStanding c c' := by
  refine ⟨?_, hp, ?_⟩
  · rw [hv, List.map_map]
    exact List.map_congr_left fun w _ => hf w
  · unfold hasHardfork
    rw [hh]
    exact id

theorem sameStanding_modify (c : Core L) (name : AccountName) {f : Validator → Validator}
    (hf : ∀ w, w.owner = name → standing (f w) = standing w) : SameStanding c (c.modifyValidator name f) := by
  refine sameStanding_map (f := fun w => if w.owner = name then f w else w) (fun w => ?_) rfl rfl rfl
  split
  · next ho => exact hf w ho
  · rfl

/-! ## The writers -/

/-- A new validator starts without a penalty: nobody was penalized under its name. -/
theorem Booked.upsert (h : Booked c) (name : AccountName) {f : Validator → Validator}
    (hf : ∀ w, standing (f w) = standing w) : Booked (c.upsertValidator name f) := by
  unfold upsertValidator
  split
  · exact h.congr (sameStanding_modify c name fun w _ => hf w)
  · next hnone =>
      have hnew : ∀ w ∈ c.validators, w.owner ≠ name := by
        intro w hw
        simpa using List.find?_eq_none.mp hnone w hw
      have hfree : owed c.penalties name = 0 := by
        refine owed_eq_zero fun p hp he => ?_
        obtain ⟨w, hw, ho⟩ := h.known p hp
        exact hnew w hw (ho.trans he)
      obtain ⟨ho, hv, hp, hc⟩ : (f { owner := name }).owner = name ∧ (f { owner := name }).votes = 0 ∧
          (f { owner := name }).penaltyPercent = 0 ∧ (f { owner := name }).countedVotes = 0 := by
        simpa only [standing, Prod.mk.injEq] using hf { owner := name }
      refine ⟨?_, ?_, ?_, ?_, ?_⟩
      · intro w hw
        rcases List.mem_append.mp hw with hw | hw
        · exact h.percent w hw
        · rw [List.mem_singleton.mp hw, hp, ho, hfree]
      · intro w hw
        rcases List.mem_append.mp hw with hw | hw
        · exact h.counted w hw
        · rw [List.mem_singleton.mp hw, hp, hv, hc]
          rfl
      · intro w hw
        rcases List.mem_append.mp hw with hw | hw
        · exact h.small w hw
        · rw [List.mem_singleton.mp hw, hp]
          decide
      · intro p hp
        obtain ⟨w, hw, ho⟩ := h.known p hp
        exact ⟨w, List.mem_append_left _ hw, ho⟩
      · intro hh w hw
        rcases List.mem_append.mp hw with hw | hw
        · exact h.early hh w hw
        · rw [List.mem_singleton.mp hw, hp]

/-- **A vote** changes the votes, and those that count with them. -/
theorem Booked.vote (h : Booked c) (name : AccountName) (delta : Int) :
    Booked (c.modifyValidator name (c.votedValidator delta)) := by
  have hcase : ∀ w ∈ c.validators, ∀ v, v = (if w.owner = name then c.votedValidator delta w else w) →
      v.owner = w.owner ∧ v.penaltyPercent = w.penaltyPercent ∧
        v.countedVotes = penalizedVotes v.votes w.penaltyPercent := by
    rintro w hw v rfl
    split
    · refine ⟨rfl, rfl, ?_⟩
      by_cases hh : c.hasHardfork 6 = true
      · simp only [votedValidator, hh, if_true]
      · have hzero : w.penaltyPercent = 0 := h.early (by simpa using hh) w hw
        simp only [votedValidator, hh, hzero, penalizedVotes_none]
        rfl
    · exact ⟨rfl, rfl, h.counted w hw⟩
  refine ⟨?_, ?_, ?_, ?_, ?_⟩
  · intro v hv
    obtain ⟨w, hw, he⟩ := List.mem_map.mp hv
    obtain ⟨ho, hp, -⟩ := hcase w hw v he.symm
    rw [ho, hp]
    exact h.percent w hw
  · intro v hv
    obtain ⟨w, hw, he⟩ := List.mem_map.mp hv
    obtain ⟨-, hp, hc⟩ := hcase w hw v he.symm
    rw [hc, hp]
  · intro v hv
    obtain ⟨w, hw, he⟩ := List.mem_map.mp hv
    rw [(hcase w hw v he.symm).2.1]
    exact h.small w hw
  · intro p hp
    obtain ⟨w, hw, ho⟩ := h.known p hp
    exact ⟨_, List.mem_map_of_mem hw, (hcase w hw _ rfl).1.trans ho⟩
  · intro hh v hv
    obtain ⟨w, hw, he⟩ := List.mem_map.mp hv
    rw [(hcase w hw v he.symm).2.1]
    exact h.early hh w hw

theorem Booked.clearVotes (h : Booked c) :
    Booked { c with validators := c.validators.map (fun w => { w with votes := 0, countedVotes := 0 }) } := by
  refine ⟨?_, ?_, ?_, ?_, ?_⟩
  · intro v hv
    obtain ⟨w, hw, rfl⟩ := List.mem_map.mp hv
    exact h.percent w hw
  · intro v hv
    obtain ⟨w, hw, rfl⟩ := List.mem_map.mp hv
    exact (penalizedVotes_zero _).symm
  · intro v hv
    obtain ⟨w, hw, rfl⟩ := List.mem_map.mp hv
    exact h.small w hw
  · intro p hp
    obtain ⟨w, hw, ho⟩ := h.known p hp
    exact ⟨_, List.mem_map_of_mem hw, ho⟩
  · intro hh v hv
    obtain ⟨w, hw, rfl⟩ := List.mem_map.mp hv
    exact h.early hh w hw

/-- A validator goes with its objects. -/
theorem Booked.remove (h : Booked c) (owner : AccountName) (unschedule : Bool) :
    Booked (c.removeValidator owner unschedule) := by
  have hkeep : ∀ w ∈ (c.removeValidator owner unschedule).validators, w ∈ c.validators ∧ w.owner ≠ owner := by
    intro w hw
    obtain ⟨hw, hne⟩ := List.mem_filter.mp hw
    exact ⟨hw, by simpa using hne⟩
  refine ⟨?_, ?_, ?_, ?_, ?_⟩
  · intro w hw
    obtain ⟨hw, hne⟩ := hkeep w hw
    show _ = owed (c.penalties.filter (fun p => decide (p.validator ≠ owner))) w.owner
    rw [owed_filter_ne hne]
    exact h.percent w hw
  · intro w hw
    exact h.counted w (hkeep w hw).1
  · intro w hw
    exact h.small w (hkeep w hw).1
  · intro p hp
    obtain ⟨hp, hne⟩ := List.mem_filter.mp hp
    obtain ⟨w, hw, ho⟩ := h.known p hp
    refine ⟨w, List.mem_filter.mpr ⟨hw, ?_⟩, ho⟩
    rw [ho]
    exact hne
  · intro hh w hw
    exact h.early hh w (hkeep w hw).1

theorem applyEdit_booked {e : ValidatorEdit} (h : c.applyEdit env e = .ok c') (hb : Booked c) : Booked c' := by
  cases e with
  | updateKey owner key => exact Except.ok.inj h ▸ hb.upsert owner fun _ => rfl
  | updateProps owner props => exact Except.ok.inj h ▸ hb.upsert owner fun _ => rfl
  | adjustVote owner delta =>
      obtain ⟨w, -, h⟩ := except_bind_eq_ok h
      split at h
      · exact Except.ok.inj h ▸ hb.vote owner delta
      · exact absurd h (by simp [throw, throwThe, MonadExceptOf.throw])
  | clearVotes => exact Except.ok.inj h ▸ hb.clearVotes
  | remove owner unschedule => exact Except.ok.inj h ▸ hb.remove owner unschedule

/-- **Operations and per-block processing keep the books.** -/
theorem runLedger_booked {f : Core L → Except Nat (List ValidatorEdit × L)} (h : c.runLedger env f = .ok c')
    (hb : Booked c) : Booked c' := by
  unfold runLedger at h
  split at h
  · exact absurd h (by simp)
  · next edits l _ =>
      have hl : Booked { c with ledger := l } := hb.congr ⟨rfl, rfl, id⟩
      exact foldlM_rel (R := Keeps Booked) (fun _ _ _ => applyEdit_booked) h hl

/-! ## The header and the missed slots -/

theorem changeGenesis_standing (b : SignedBlock Tx) (c : Core L) : SameStanding c (c.changeGenesis b) := by
  unfold changeGenesis
  split
  · refine ⟨rfl, rfl, fun h => ?_⟩
    simpa [hasHardfork] using h
  · exact SameStanding.rfl'

theorem processHeaderExtensions_standing (b : SignedBlock Tx) (c : Core L) :
    SameStanding c (c.processHeaderExtensions b) := by
  unfold processHeaderExtensions
  induction b.extensions generalizing c with
  | nil => exact SameStanding.rfl'
  | cons e es ih =>
      refine trans_of SameStanding ?_ (ih (c.applyExtension b e))
      cases e with
      | void => exact SameStanding.rfl'
      | version v => exact sameStanding_modify c _ fun _ _ => rfl
      | hardforkVersionVote v t => exact sameStanding_modify c _ fun _ _ => rfl

theorem openBlock_standing {skip : Skip} (h : c.openBlock env skip b = .ok c') : SameStanding c c' := by
  rw [openBlock_eq h]
  have hstart : SameStanding c { c with currentValidator := b.validator } := ⟨rfl, rfl, id⟩
  exact trans_of SameStanding hstart
    (trans_of SameStanding (changeGenesis_standing b _) (processHeaderExtensions_standing b _))

/-- Is the validator of a missed slot penalized? -/
def penalizes (b : SignedBlock Tx) (c : Core L) (w : Validator) : Prop :=
  w.owner ≠ b.validator ∧ !c.emergencyOffline b w ∧ c.hasHardfork 6

instance (b : SignedBlock Tx) (c : Core L) (w : Validator) : Decidable (c.penalizes b w) :=
  inferInstanceAs (Decidable (_ ∧ _ ∧ _))

/-- **A further penalty fits into the 32 bits** of the validators in the missed slot. -/
def RoomFor (b : SignedBlock Tx) (c : Core L) (i : Nat) : Prop :=
  ∀ w ∈ c.validators, w.owner = c.getScheduledValidator (i + 1) → c.penalizes b w →
    w.penaltyPercent + c.schedule.medianProps.validatorMissPenaltyPercent < 2 ^ 32

theorem missedValidator_spared {w : Validator} (h : ¬c.penalizes b w) :
    standing (c.missedValidator b w) = standing w := by
  unfold missedValidator
  split
  · rfl
  · next hne =>
      have hcase : c.emergencyOffline b w = true ∨ c.hasHardfork 6 = false := by
        by_contra hno
        push Not at hno
        exact h ⟨hne, by simpa using hno.1, by simpa using hno.2⟩
      have hoff : c.emergencyOffline b { w with currentRun := 0 } = c.emergencyOffline b w := rfl
      dsimp only
      rw [hoff]
      rcases hcase with hc | hc
      · rw [if_pos hc]
        split <;> rfl
      · simp only [hc, Bool.false_eq_true, if_false]
        split
        · split <;> rfl
        · split <;> rfl

theorem missedValidator_penalized {w : Validator} (h : c.penalizes b w) :
    standing (c.missedValidator b w) =
      standing { w with
        penaltyPercent := (w.penaltyPercent + c.schedule.medianProps.validatorMissPenaltyPercent) % 2 ^ 32
        countedVotes   := penalizedVotes w.votes
          ((w.penaltyPercent + c.schedule.medianProps.validatorMissPenaltyPercent) % 2 ^ 32) } := by
  obtain ⟨hne, hoff, hh⟩ := h
  have hon : c.emergencyOffline b w = false := by simpa using hoff
  have hoff' : c.emergencyOffline b { w with currentRun := 0 } = false := hon
  unfold missedValidator
  rw [if_neg hne]
  dsimp only
  rw [hoff', if_neg (by simp)]
  simp only [hh, if_true]
  split <;> rfl

theorem getValidator_eq_ok {name : AccountName} {w : Validator} (h : c.getValidator name = .ok w) :
    w ∈ c.validators ∧ w.owner = name := by
  unfold getValidator at h
  split at h
  · next v hf =>
      obtain rfl := Except.ok.inj h
      refine ⟨List.mem_of_find?_eq_some hf, ?_⟩
      simpa using List.find?_some hf
  · exact absurd h (by simp)

/-- Whether a validator is penalized is a matter of its name. -/
theorem penalizes_congr {w v : Validator} (h : w.owner = v.owner) : c.penalizes b w ↔ c.penalizes b v := by
  unfold penalizes emergencyOffline
  rw [h]

/-- **A new penalty** comes with the object that takes it back. -/
theorem Booked.penalize (h : Booked c) {name : AccountName} {percent expires : Nat} {f : Validator → Validator}
    (hname : ∃ w ∈ c.validators, w.owner = name) (hh : c.hasHardfork 6 = true)
    (hroom : ∀ w ∈ c.validators, w.owner = name → w.penaltyPercent + percent < 2 ^ 32)
    (hf : ∀ w ∈ c.validators, w.owner = name → standing (f w) =
      (w.owner, w.votes, w.penaltyPercent + percent, penalizedVotes w.votes (w.penaltyPercent + percent))) :
    Booked { c.modifyValidator name f with penalties := c.penalties ++ [⟨name, percent, expires⟩] } := by
  have hcase : ∀ w ∈ c.validators, ∀ v, v = (if w.owner = name then f w else w) → v.owner = w.owner ∧
      v.penaltyPercent = w.penaltyPercent + (if name = w.owner then percent else 0) ∧
      v.penaltyPercent < 2 ^ 32 ∧ v.countedVotes = penalizedVotes v.votes v.penaltyPercent := by
    rintro w hw v rfl
    by_cases ho : w.owner = name
    · have hs := hf w hw ho
      simp only [standing, Prod.mk.injEq] at hs
      obtain ⟨h₁, h₂, h₃, h₄⟩ := hs
      rw [if_pos ho, if_pos ho.symm]
      refine ⟨h₁, h₃, ?_, ?_⟩
      · rw [h₃]
        exact hroom w hw ho
      · rw [h₄, h₂, h₃]
    · rw [if_neg ho, if_neg (Ne.symm ho)]
      exact ⟨rfl, rfl, h.small w hw, h.counted w hw⟩
  have hback : ∀ v ∈ (c.modifyValidator name f).validators,
      ∃ w ∈ c.validators, v = (if w.owner = name then f w else w) := by
    intro v hv
    obtain ⟨w, hw, he⟩ := List.mem_map.mp hv
    exact ⟨w, hw, he.symm⟩
  refine ⟨?_, ?_, ?_, ?_, ?_⟩
  · intro v hv
    obtain ⟨w, hw, he⟩ := hback v hv
    obtain ⟨ho, hp, -, -⟩ := hcase w hw v he
    show _ = owed (c.penalties ++ [⟨name, percent, expires⟩]) v.owner
    rw [owed_append, owed_cons, owed_nil, ho, hp, h.percent w hw]
    rfl
  · intro v hv
    obtain ⟨w, hw, he⟩ := hback v hv
    exact (hcase w hw v he).2.2.2
  · intro v hv
    obtain ⟨w, hw, he⟩ := hback v hv
    exact (hcase w hw v he).2.2.1
  · intro p hp
    have hp' : ∃ w ∈ c.validators, w.owner = p.validator := by
      rcases List.mem_append.mp hp with hp | hp
      · exact h.known p hp
      · rw [List.mem_singleton.mp hp]
        exact hname
    obtain ⟨w, hw, ho⟩ := hp'
    exact ⟨_, List.mem_map_of_mem hw, (hcase w hw _ rfl).1.trans ho⟩
  · intro hno
    exact absurd hh (by
      have : c.hasHardfork 6 = false := hno
      simp [this])

/-- **A missed slot keeps the books**, as long as the penalty fits. -/
theorem missSlot_booked {i : Nat} (h : missSlot b c i = .ok c') (hroom : RoomFor b c i) (hb : Booked c) :
    Booked c' := by
  obtain ⟨w, hw, h⟩ := except_bind_eq_ok h
  obtain ⟨hmem, howner⟩ := getValidator_eq_ok hw
  dsimp only at h
  split at h
  · next hpen =>
      have hsame : ∀ v ∈ c.validators, v.owner = w.owner → c.penalizes b v := by
        intro v _ hv
        exact (penalizes_congr hv).mpr hpen
      obtain rfl := Except.ok.inj h
      refine hb.penalize ⟨w, hmem, rfl⟩ hpen.2.2 ?_ ?_
      · intro v hv ho
        exact hroom v hv (ho.trans howner) (hsame v hv ho)
      · intro v hv ho
        have hfit := hroom v hv (ho.trans howner) (hsame v hv ho)
        rw [missedValidator_penalized (hsame v hv ho), Nat.mod_eq_of_lt hfit]
        rfl
  · next hpen =>
      obtain rfl := Except.ok.inj h
      refine hb.congr (sameStanding_modify c w.owner fun v hv => missedValidator_spared ?_)
      exact fun hv' => hpen ((penalizes_congr hv).mp hv')

/-! ## Expiry -/

/-- What expires is what was added: the subtraction does not wrap. -/
theorem u32Sub_eq {x y : Nat} (hle : y ≤ x) (hlt : x < 2 ^ 32) : u32Sub x y = x - y := by
  unfold u32Sub
  omega

/-- **An expired object** takes its share back. -/
theorem Booked.expire {p : PenaltyExpire} {ps : List PenaltyExpire} (hc : c.penalties = p :: ps)
    (h : Booked c) :
    Booked { c.modifyValidator p.validator (fun w =>
        let percent := u32Sub w.penaltyPercent p.penaltyPercent
        { w with penaltyPercent := percent, countedVotes := penalizedVotes w.votes percent }) with
      penalties := ps } := by
  have hcase : ∀ w ∈ c.validators, ∀ v, v = (if w.owner = p.validator then
        { w with
          penaltyPercent := u32Sub w.penaltyPercent p.penaltyPercent
          countedVotes   := penalizedVotes w.votes (u32Sub w.penaltyPercent p.penaltyPercent) } else w) →
      v.owner = w.owner ∧ v.penaltyPercent = owed ps w.owner ∧
        v.countedVotes = penalizedVotes v.votes v.penaltyPercent := by
    rintro w hw v rfl
    have hsum := h.percent w hw
    rw [hc, owed_cons] at hsum
    by_cases ho : w.owner = p.validator
    · rw [if_pos ho]
      rw [if_pos ho.symm] at hsum
      refine ⟨rfl, ?_, rfl⟩
      show u32Sub w.penaltyPercent p.penaltyPercent = owed ps w.owner
      rw [u32Sub_eq (by omega) (h.small w hw)]
      omega
    · rw [if_neg ho]
      rw [if_neg (Ne.symm ho), Nat.zero_add] at hsum
      exact ⟨rfl, hsum, h.counted w hw⟩
  have hle : ∀ w ∈ c.validators, owed ps w.owner ≤ w.penaltyPercent := by
    intro w hw
    rw [h.percent w hw, hc, owed_cons]
    exact Nat.le_add_left _ _
  refine ⟨?_, ?_, ?_, ?_, ?_⟩
  · intro v hv
    obtain ⟨w, hw, he⟩ := List.mem_map.mp hv
    obtain ⟨ho, hp, -⟩ := hcase w hw v he.symm
    rw [hp, ho]
  · intro v hv
    obtain ⟨w, hw, he⟩ := List.mem_map.mp hv
    exact (hcase w hw v he.symm).2.2
  · intro v hv
    obtain ⟨w, hw, he⟩ := List.mem_map.mp hv
    rw [(hcase w hw v he.symm).2.1]
    exact Nat.lt_of_le_of_lt (hle w hw) (h.small w hw)
  · intro q hq
    obtain ⟨w, hw, ho⟩ := h.known q (hc ▸ List.mem_cons_of_mem _ hq)
    exact ⟨_, List.mem_map_of_mem hw, (hcase w hw _ rfl).1.trans ho⟩
  · intro hh v hv
    obtain ⟨w, hw, he⟩ := List.mem_map.mp hv
    rw [(hcase w hw v he.symm).2.1]
    exact Nat.le_zero.mp (h.early hh w hw ▸ hle w hw)

theorem Booked.perm {ps : List PenaltyExpire} (h : Booked c) (hp : ps.Perm c.penalties) :
    Booked { c with penalties := ps } := by
  refine ⟨?_, h.counted, h.small, ?_, h.early⟩
  · intro w hw
    show _ = owed ps w.owner
    rw [owed_perm hp]
    exact h.percent w hw
  · intro p hp'
    exact h.known p (hp.subset hp')

theorem expirePenalties_booked (h : c.expirePenalties = .ok c') (hb : Booked c) : Booked c' := by
  unfold expirePenalties at h
  dsimp only at h
  have hsplit : ((c.penalties.insertionSort (fun p q => p.expires ≤ q.expires)).filter
        (fun p => decide (p.expires ≤ c.time)) ++
      c.penalties.filter (fun p => !decide (p.expires ≤ c.time))).Perm c.penalties := by
    have hsort := (List.perm_insertionSort (fun p q : PenaltyExpire => p.expires ≤ q.expires) c.penalties).filter
      (fun p => decide (p.expires ≤ c.time))
    exact (hsort.append_right _).trans (List.filter_append_perm _ _)
  have hstart := hb.perm hsplit
  -- the expired objects that are still to be taken back stand in front of the others
  clear hb hsplit
  revert h hstart
  generalize (c.penalties.insertionSort (fun p q => p.expires ≤ q.expires)).filter
    (fun p => decide (p.expires ≤ c.time)) = expired
  generalize c.penalties.filter (fun p => !decide (p.expires ≤ c.time)) = ps
  intro h hstart
  induction expired generalizing c with
  | nil => exact Except.ok.inj h ▸ hstart
  | cons p expired ih =>
      rw [List.foldlM_cons] at h
      obtain ⟨d, hd, h⟩ := except_bind_eq_ok h
      obtain ⟨w, -, hd⟩ := except_bind_eq_ok hd
      obtain rfl := Except.ok.inj hd
      exact ih h (Booked.expire rfl hstart)

/-! ## The round and the stages -/

theorem advanceVirtual_standing (now : Nat) (names : List AccountName) (c : Core L) :
    SameStanding c (advanceVirtual now names c).1 := by
  induction names generalizing c with
  | nil => exact SameStanding.rfl'
  | cons name ns ih =>
      unfold advanceVirtual
      split
      · exact ih c
      · dsimp only
        split
        · exact SameStanding.rfl'
        · exact trans_of SameStanding (sameStanding_modify c name fun _ _ => by rfl) (ih _)

theorem setClasses_standing (active support : List AccountName) (c : Core L) :
    SameStanding c (setClasses active support c) := by
  refine sameStanding_map (f := fun w =>
    if w.owner ∈ active then { w with schedule := .top }
    else if w.owner ∈ support then { w with schedule := .support } else w) (fun w => ?_) rfl rfl rfl
  split
  · rfl
  · split <;> rfl

theorem tallyVersions_standing (ws : List Validator) (c : Core L) : SameStanding c (tallyVersions ws c) := by
  unfold tallyVersions
  split <;> exact ⟨rfl, rfl, id⟩

theorem hybridSchedule_standing (c : Core L) : SameStanding c c.hybridSchedule := by
  have hfill : SameStanding c c.fillSlots := ⟨rfl, rfl, id⟩
  have hsync : SameStanding c c.fillSlots.syncCommittee :=
    trans_of SameStanding hfill (sameStanding_modify _ _ fun _ _ => by rfl)
  unfold hybridSchedule
  split
  · dsimp only
    split
    · exact ⟨hsync.validators, hsync.penalties, hsync.hardfork⟩
    · exact hsync
  · exact SameStanding.rfl'

theorem resetVirtualScheduleTime_standing (c : Core L) : SameStanding c c.resetVirtualScheduleTime :=
  sameStanding_map (f := fun w =>
      { w with
        virtualPosition := 0, virtualLastUpdate := 0
        virtualScheduledTime := virtualLap w.countedVotes })
    (fun _ => rfl) rfl rfl rfl

theorem newRound_standing (h : c.newRound = .ok c') : SameStanding c c' := by
  obtain ⟨ws, -, h⟩ := except_bind_eq_ok h
  obtain rfl := Except.ok.inj h
  refine trans_of SameStanding ?_ (hybridSchedule_standing _)
  refine trans_of SameStanding ?_ (⟨rfl, rfl, id⟩ : SameStanding (tallyVersions ws _) (shuffle _ _ _ _ _))
  refine trans_of SameStanding ?_ (tallyVersions_standing ws _)
  split
  · exact trans_of SameStanding (trans_of SameStanding (setClasses_standing _ _ c)
      (advanceVirtual_standing _ _ _)) (resetVirtualScheduleTime_standing _)
  · exact trans_of SameStanding (setClasses_standing _ _ c) (advanceVirtual_standing _ _ _)

theorem updateValidatorSchedule_booked (h : c.updateValidatorSchedule = .ok c') (hb : Booked c) : Booked c' := by
  unfold updateValidatorSchedule at h
  split at h
  · exact Except.ok.inj h ▸ hb
  · split at h
    · obtain ⟨d, hd, h⟩ := except_bind_eq_ok h
      exact (expirePenalties_booked hd hb).congr (newRound_standing h)
    · exact hb.congr (newRound_standing h)

/-- A hardfork is never taken back. -/
theorem applyHardfork_booked {n : Nat} (h : c.applyHardfork env n = .ok c') (hb : Booked c) : Booked c' := by
  obtain ⟨d, hd, h⟩ := except_bind_eq_ok h
  have hbd := runLedger_booked hd hb
  split at h
  · obtain rfl := Except.ok.inj h
    refine hbd.congr ⟨rfl, rfl, fun hh => ?_⟩
    unfold hasHardfork at hh ⊢
    simp only [List.length_append, decide_eq_true_eq] at hh ⊢
    omega
  · exact absurd h (by simp [throw, throwThe, MonadExceptOf.throw])

theorem processHardforks_booked (n : Nat) (h : c.processHardforks env n = .ok c') (hb : Booked c) :
    Booked c' := by
  induction n generalizing c with
  | zero => exact absurd h (by simp [processHardforks])
  | succ n ih =>
      unfold processHardforks at h
      split at h
      · split at h
        · obtain ⟨d, hd, h⟩ := except_bind_eq_ok h
          exact ih h (applyHardfork_booked hd hb)
        · exact absurd h (by simp)
      · exact Except.ok.inj h ▸ hb

theorem updateMedianValidatorProps_standing (h : c.updateMedianValidatorProps = .ok c') : SameStanding c c' := by
  obtain ⟨ws, -, h⟩ := except_bind_eq_ok h
  dsimp only at h
  split at h <;>
  · obtain rfl := Except.ok.inj h
    exact ⟨rfl, rfl, id⟩

theorem finishLedger_booked (h : c.finishLedger env = .ok c') (hb : Booked c) : Booked c' := by
  unfold finishLedger at h
  dsimp only at h
  have hrest : ∀ {d : Core L}, (do
      let c ← d.runLedger env env.processFunds
      c.processHardforks env (Config.numHardforks + 2)) = .ok c' → Booked d → Booked c' := by
    intro d h hd
    obtain ⟨e, he, h⟩ := except_bind_eq_ok h
    exact processHardforks_booked _ h (runLedger_booked he hd)
  split at h
  · obtain ⟨d, hd, h⟩ := except_bind_eq_ok h
    exact hrest h (hb.congr (updateMedianValidatorProps_standing hd))
  · exact hrest h hb

/-- **What follows when the head has moved keeps the books.** -/
theorem Finish.booked (h : Finish env b c c') (hb : Booked c) : Booked c' := by
  cases h with
  | scheduled h =>
      obtain ⟨d, hd, h⟩ := except_bind_eq_ok h
      have hs : SameStanding c (c.createBlockSummary b) := ⟨rfl, rfl, id⟩
      exact updateValidatorSchedule_booked h (runLedger_booked hd (hb.congr hs))
  | funded h => exact finishLedger_booked h hb
  | shifted n => exact hb.congr ⟨rfl, rfl, id⟩

/-! ## Stage one -/

/-- The committee carries no penalty. -/
def CommitteeClear (c : Core L) : Prop :=
  ∀ w ∈ c.validators, w.owner = Config.emergencyValidatorAccount → w.penaltyPercent = 0

theorem CommitteeClear.upsert (h : c.CommitteeClear) (name : AccountName) {f : Validator → Validator}
    (hf : ∀ w, standing (f w) = standing w) : (c.upsertValidator name f).CommitteeClear := by
  have hfw : ∀ w, (f w).owner = w.owner ∧ (f w).penaltyPercent = w.penaltyPercent := by
    intro w
    have hs := hf w
    simp only [standing, Prod.mk.injEq] at hs
    exact ⟨hs.1, hs.2.2.1⟩
  unfold upsertValidator
  split
  · intro w hw ho
    obtain ⟨v, hv, rfl⟩ := List.mem_map.mp hw
    by_cases hv' : v.owner = name
    · rw [if_pos hv'] at ho ⊢
      rw [(hfw v).2]
      exact h v hv ((hfw v).1.symm.trans ho)
    · rw [if_neg hv'] at ho ⊢
      exact h v hv ho
  · intro w hw ho
    rcases List.mem_append.mp hw with hw | hw
    · exact h w hw ho
    · rw [List.mem_singleton.mp hw, (hfw _).2]

/-- Everybody but the committee is forgiven, and no object is left. -/
theorem Booked.blank (hb : Booked c) (hclear : c.CommitteeClear) :
    Booked { c with validators := c.validators.map blankedValidator, penalties := [] } := by
  have hcase : ∀ w ∈ c.validators, (blankedValidator w).penaltyPercent = 0 ∧
      (blankedValidator w).countedVotes = (blankedValidator w).votes := by
    intro w hw
    unfold blankedValidator
    split
    · next ho =>
        have hzero := hclear w hw ho
        refine ⟨hzero, ?_⟩
        rw [hb.counted w hw, hzero, penalizedVotes_none]
    · exact ⟨rfl, rfl⟩
  refine ⟨?_, ?_, ?_, ?_, ?_⟩
  · intro v hv
    obtain ⟨w, hw, rfl⟩ := List.mem_map.mp hv
    exact (hcase w hw).1
  · intro v hv
    obtain ⟨w, hw, rfl⟩ := List.mem_map.mp hv
    rw [(hcase w hw).1, (hcase w hw).2, penalizedVotes_none]
  · intro v hv
    obtain ⟨w, hw, rfl⟩ := List.mem_map.mp hv
    rw [(hcase w hw).1]
    decide
  · intro p hp
    exact absurd hp List.not_mem_nil
  · intro _ v hv
    obtain ⟨w, hw, rfl⟩ := List.mem_map.mp hv
    exact (hcase w hw).1

/-- **The start of the emergency mode** forgives everybody but the committee, so the books are right after it only
    when the committee had nothing to be forgiven. -/
theorem activateEmergency_booked (hb : Booked c) (hclear : c.CommitteeClear) : Booked (c.activateEmergency b) := by
  have hstart : SameStanding c { c with emergencyConsensusActive := true
                                        emergencyConsensusStartBlock := b.blockNum } := ⟨rfl, rfl, id⟩
  have hup := (hb.congr hstart).upsert Config.emergencyValidatorAccount (f := committeeValidator c) fun _ => by rfl
  have hfree : CommitteeClear { c with emergencyConsensusActive := true
                                       emergencyConsensusStartBlock := b.blockNum } := hclear
  have hblank := hup.blank (hfree.upsert Config.emergencyValidatorAccount fun _ => by rfl)
  exact hblank.congr ⟨rfl, rfl, id⟩

/-- The core at the end of the block's transactions, before its missed slots are charged. -/
def prepared (env : Env Tx L) (r : Entry Tx) (c : Core L) : Except Exn (Core L) :=
  r.block.transactions.foldlM (fun c tx => runLedger env (env.applyTransaction r.txSkip tx) c)
    (({ c with currentValidator := r.block.validator }.changeGenesis r.block).processHeaderExtensions r.block)

/-- The core when `i` missed slots are charged. -/
def charged (env : Env Tx L) (r : Entry Tx) (i : Nat) (c : Core L) : Except Exn (Core L) := do
  let d ← c.prepared env r
  (List.range i).foldlM (missSlot r.block) d

/-- **The block forgives everybody or nobody**: none of its penalties runs over, and when it starts the emergency
    mode the committee carries no penalty. -/
structure Forgives (env : Env Tx L) (r : Entry Tx) (c : Core L) : Prop where
  room  : ∀ d, c.prepared env r = .ok d → ∀ i < d.missed r.block, ∀ e, c.charged env r i = .ok e →
    RoomFor r.block e i
  clear : ∀ d, c.prepared env r = .ok d → ∀ e, c.charged env r (d.missed r.block) = .ok e →
    (e.moveHead env r.block (d.missed r.block)).emergencyDue r.block r.libTime = true → e.CommitteeClear

/-- The missed slots, one after the other. -/
theorem missSlots_booked {n : Nat} (h : (List.range n).foldlM (missSlot b) c = .ok c')
    (hroom : ∀ i < n, ∀ d, (List.range i).foldlM (missSlot b) c = .ok d → RoomFor b d i) (hb : Booked c) :
    Booked c' := by
  induction n generalizing c' with
  | zero => exact Except.ok.inj h ▸ hb
  | succ n ih =>
      rw [List.range_succ, List.foldlM_append] at h
      obtain ⟨d, hd, h⟩ := except_bind_eq_ok h
      have hbd := ih hd fun i hi => hroom i (Nat.lt_succ_of_lt hi)
      rw [List.foldlM_cons] at h
      obtain ⟨e, he, h⟩ := except_bind_eq_ok h
      obtain rfl := Except.ok.inj h
      exact missSlot_booked he (hroom n (Nat.lt_succ_self n) d hd) hbd

/-- **Stage one keeps the books** of a block that forgives everybody or nobody. -/
theorem beginBlock_booked {r : Entry Tx} {skip : Skip} {lib : Nat} (hskip : r.txSkip = skip.forTransactions)
    (h : c.beginBlock env skip lib r.libTime r.block = .ok c') (hforgives : c.Forgives env r) (hb : Booked c) :
    Booked c' := by
  obtain ⟨c₁, h₁, h⟩ := except_bind_eq_ok h
  obtain ⟨c₂, h₂, h⟩ := except_bind_eq_ok h
  obtain ⟨c₃, h₃, h⟩ := except_bind_eq_ok h
  obtain rfl := Except.ok.inj h
  have hprep : c.prepared env r = .ok c₂ := by
    unfold prepared
    rw [hskip, ← openBlock_eq h₁]
    exact h₂
  have hcharged : ∀ i, c.charged env r i = (List.range i).foldlM (missSlot r.block) c₂ := by
    intro i
    unfold charged
    rw [hprep]
    rfl
  have hb₂ : Booked c₂ := foldlM_rel (R := Keeps Booked) (fun _ _ _ => runLedger_booked) h₂
    (hb.congr (openBlock_standing h₁))
  obtain ⟨e, he, hc₃⟩ := updateGlobalDynamicData_eq h₃
  have hbe : Booked e := by
    refine missSlots_booked he (fun i hi d hd => ?_) hb₂
    exact hforgives.room c₂ hprep i hi d (hcharged i ▸ hd)
  have hmoved : Booked (e.moveHead env r.block (c₂.missed r.block)) := hbe.congr ⟨rfl, rfl, id⟩
  have hb₃ : Booked c₃ := by
    rw [hc₃]
    split
    · next hdue =>
        refine activateEmergency_booked hmoved ?_
        exact hforgives.clear c₂ hprep e (hcharged _ ▸ he) hdue
    · exact hmoved
  exact hb₃.congr (sameStanding_modify c₃ _ fun _ _ => by rfl)

/-- **Every block of the chain forgives everybody or nobody.** -/
def ForgivenChain (env : Env Tx L) (c₀ : Core L) (l : List (Entry Tx)) : Prop :=
  ∀ r rs, r :: rs <:+ l → ∀ d, Traced env c₀ rs d → d.Forgives env r

theorem Traced.booked {c₀ : Core L} {l : List (Entry Tx)} (h : Traced env c₀ l c)
    (hforgiven : ForgivenChain env c₀ l) (h₀ : Booked c₀) : Booked c := by
  refine h.induction h₀ ?_ ?_
  · intro r rs hs d skip lib d' ht hskip hb hd
    exact beginBlock_booked hskip hb (hforgiven r rs hs d ht) hd
  · intro b d d' hf hd
    exact hf.booked hd

theorem Executes.booked (h : ReflTransGen (Executes env) c c') (hb : Booked c) : Booked c' := by
  induction h with
  | refl => exact hb
  | tail _ h ih =>
      obtain ⟨h⟩ := h
      exact runLedger_booked h ih

/-! ## Runs -/

/-- Whether a check of the result passes, when there is one. -/
instance decidableForallOk {ε α : Type} (x : Except ε α) (P : α → Prop) [DecidablePred P] :
    Decidable (∀ a, x = .ok a → P a) :=
  match x with
  | .error _ => isTrue fun _ h => nomatch h
  | .ok a    => decidable_of_iff (P a) ⟨fun hp _ h => Except.ok.inj h ▸ hp, fun h => h a rfl⟩

instance (b : SignedBlock Tx) (c : Core L) (i : Nat) : Decidable (RoomFor b c i) :=
  inferInstanceAs (Decidable (∀ w ∈ c.validators, _ → _ → _))

instance (c : Core L) : Decidable c.CommitteeClear :=
  inferInstanceAs (Decidable (∀ w ∈ c.validators, _ → _))

instance (env : Env Tx L) (r : Entry Tx) (c : Core L) : Decidable (c.Forgives env r) :=
  decidable_of_iff
    ((∀ d, c.prepared env r = .ok d → ∀ i < d.missed r.block, ∀ e, c.charged env r i = .ok e → RoomFor r.block e i) ∧
      ∀ d, c.prepared env r = .ok d → ∀ e, c.charged env r (d.missed r.block) = .ok e →
        (e.moveHead env r.block (d.missed r.block)).emergencyDue r.block r.libTime = true → e.CommitteeClear)
    ⟨fun h => ⟨h.1, h.2⟩, fun h => ⟨h.room, h.clear⟩⟩

/-- A chain of one block. -/
theorem forgivenChain_single {r : Entry Tx} (h : c.Forgives env r) : ForgivenChain env c [r] := by
  intro r' rs hs d ht
  rcases List.suffix_cons_iff.mp hs with he | hs
  · obtain ⟨rfl, rfl⟩ := List.cons.inj he
    cases ht
    exact h
  · exact absurd (List.eq_nil_of_suffix_nil hs) (List.cons_ne_nil _ _)

/-- **The penalties are accounted for.** -/
structure Accounted (c : Core L) : Prop where
  percent   : ∀ w ∈ c.validators, w.penaltyPercent = owed c.penalties w.owner
  /-- What expires can be taken back. -/
  covered   : ∀ p ∈ c.penalties, ∀ w ∈ c.validators, w.owner = p.validator → p.penaltyPercent ≤ w.penaltyPercent
  counted   : ∀ w ∈ c.validators,
    w.countedVotes = w.votes - w.votes * (min w.penaltyPercent 10000 : Nat) / 10000

theorem Booked.accounted (h : Booked c) : Accounted c := by
  refine ⟨h.percent, ?_, h.counted⟩
  intro p hp w hw ho
  rw [h.percent w hw, ho]
  exact owed_le hp

/-- Where nobody is penalized the books are right. -/
theorem booked_unpenalized (hp : c.penalties = [])
    (hw : ∀ w ∈ c.validators, w.penaltyPercent = 0 ∧ w.countedVotes = w.votes) : Booked c := by
  refine ⟨?_, ?_, ?_, ?_, ?_⟩
  · intro w h
    rw [(hw w h).1, hp, owed_nil]
  · intro w h
    rw [(hw w h).1, (hw w h).2, penalizedVotes_none]
  · intro w h
    rw [(hw w h).1]
    decide
  · intro p h
    rw [hp] at h
    exact absurd h List.not_mem_nil
  · intro _ w h
    exact (hw w h).1

end Core

namespace Database

open Core UndoDb

variable {Tx L : Type} {U : SignedBlock Tx → Prop} {env : Env Tx L} {base : BlockId} {db : Database Tx L}

/-- **In every state a node is in or can come back to, the penalties are accounted for**, if every block of its
    chain forgives everybody or nobody. -/
theorem penalties_accounted (hU : Universe U) (h : InOrder U base db) (hopen : Opened db)
    (h₀ : Booked db.state.core) {steps : List (Step Tx)} (hs : ∀ x ∈ steps, x.From U) {s : ChainState Tx L}
    (hstate : s ∈ (run env db steps).chainbase.layers)
    (hforgiven : ForgivenChain env db.state.core s.entries) : Accounted s.core := by
  have htraced : NodeTraced env db.state.core (run env db steps) := run_traced hU h hopen hs
  rcases List.mem_cons.mp hstate with rfl | hstack
  · -- the pending transactions come on top of the newest block
    obtain ⟨c, hc, hexec⟩ := htraced.newest
    exact (Executes.booked hexec (hc.booked hforgiven h₀)).accounted
  · have hmem : s ∈ (run env db steps).blockLayers := by
      unfold blockLayers
      split
      · exact hstack
      · exact hstate
    exact (Traced.booked (htraced.blocks s hmem) hforgiven h₀).accounted

end Database

namespace Sample

/-- Fifteen validators whose last irreversible block is an hour old. -/
def h19 : SignedBlock Tx := block ⟨18, 18⟩ 3600 1 19

/-- Starts the emergency mode. -/
def h20 : SignedBlock Tx := block h19.id 3603 2 20

/-- All validators register their keys again, and the new round ends the emergency mode. -/
def h21 : SignedBlock Tx :=
  { committeeBlock h20.id 3606 21 with
    transactions := [(List.range 15).map (fun i => .updateKey (i + 1) (i + 1))] }

/-- Skips the six slots that the committee has kept, and starts the emergency mode again. -/
def h22 : SignedBlock Tx := block h21.id 3654 15 22

def staleCore : Core Unit :=
  { core ((List.range 15).map (fun i => validator (i + 1) (i + 1))) ((List.range 15).map (· + 1)) with
    headBlockNumber := 19
    headBlockId     := h19.id
    time            := 3600
    currentAslot    := 1200
    blockSummary    := fun n => if n = 19 then h19.id else BlockId.zero }

def staleNode : Database Tx Unit :=
  { node [] [] with
    chainbase := ⟨⟨staleCore, ⟨1, block1.id, 1, 0, []⟩, []⟩, [], 19⟩
    forkDb    := { index := [{ ptr := 0, data := h19 }], unlinkedIndex := []
                   head := some { ptr := 0, data := h19 }, nextPtr := 1 } }

/-- A block that skips the slot of validator 3. -/
def skips3 : SignedBlock Tx := block block1.id 9 4 2

/-- The committee among the validators of the newest state, with its penalty. -/
def committeePenalty (db : Database Tx Unit) : Option Nat :=
  (db.state.core.findValidator committee).map (·.penaltyPercent)

end Sample

namespace Database

open Sample Core in
theorem not_accounted_of_penalty {db : Database Tx Unit} {n : Nat} (hn : committeePenalty db = some (n + 1))
    (hnone : db.state.core.penalties = []) : ¬Accounted db.state.core := by
  intro h
  obtain ⟨w, hw, hp⟩ := Option.map_eq_some_iff.mp hn
  have hzero := h.percent w (List.mem_of_find?_eq_some hw)
  rw [hp, hnone, owed_nil] at hzero
  exact absurd hzero (Nat.succ_ne_zero n)

open Sample Core in
/-- **The committee is not forgiven**: its penalty of six missed slots stays, without an object. -/
theorem committee_not_forgiven :
    Booked staleNode.state.core ∧ committeePenalty (push staleNode [h20, h21, h22]) = some 600 ∧
      (push staleNode [h20, h21, h22]).state.core.penalties = [] ∧
      (push staleNode [h20, h21, h22]).state.core.hasHardfork 6 = true ∧
      ¬Accounted (push staleNode [h20, h21, h22]).state.core := by
  have hpenalty : committeePenalty (push staleNode [h20, h21, h22]) = some 600 := by decide +kernel
  have hnone : (push staleNode [h20, h21, h22]).state.core.penalties = [] := by decide +kernel
  exact ⟨booked_unpenalized rfl (by decide +kernel), hpenalty, hnone, by decide +kernel,
    not_accounted_of_penalty hpenalty hnone⟩

open Sample Core in
/-- The penalty of a skipped validator is accounted for. -/
theorem penalties_accounted_sample :
    (push four [skips3]).state.core.penalties = [⟨3, 100, 86403⟩] ∧
      Accounted (push four [skips3]).state.core := by
  have hU : Universe (· ∈ [block1, skips3]) := Universe.of_list (by decide +kernel) (by decide +kernel)
  have hstart : InOrder (· ∈ [block1, skips3]) block1.id four := node_inOrder (by simp) (by decide +kernel) _
  have hentries : (push four [skips3]).state.entries = [⟨skips3, {}, some 3⟩] := by decide +kernel
  have hbooked : Booked four.state.core := booked_unpenalized rfl (by decide +kernel)
  have hall : ∀ (db : Database Tx Unit) (steps : List (Step Tx)), InOrder (· ∈ [block1, skips3]) block1.id db →
      Opened db → Booked db.state.core → (∀ x ∈ steps, x.From (· ∈ [block1, skips3])) →
      ForgivenChain env db.state.core (run env db steps).state.entries →
      Accounted (run env db steps).state.core :=
    fun db steps h hopen hb hs hf => penalties_accounted hU h hopen hb hs (UndoDb.state_mem_layers _) hf
  have hchain : ForgivenChain env four.state.core [⟨skips3, {}, some 3⟩] :=
    forgivenChain_single (by decide +kernel)
  rw [← hentries] at hchain
  exact ⟨by decide +kernel, hall four ([skips3].map (.block · Skip.nothing)) hstart ⟨rfl, rfl, rfl⟩ hbooked
    (by decide +kernel) hchain⟩

end Database

end VizNode
