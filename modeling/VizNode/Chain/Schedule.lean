import VizNode.Chain.Objects
import Mathlib.Data.List.Sort
import Mathlib.Data.List.Dedup

/-!
# `VizNode.Chain.Schedule` — votes, the validator schedule and hardforks

The functions a block application runs on the core after its transactions: vote adjustment with the
virtual schedule, the round update with the hybrid schedule of the emergency mode, the median of the chain
properties and the hardfork processing.

## Contents
- **Votes.** `adjustValidatorVote`, `ValidatorEdit.apply` and `runLedger`.
- **The round.** `updateValidatorSchedule`, cut at the places where the source has its own headings:
  expired penalties, selection, virtual time, version tally, shuffle, hybrid override.
- **Hardforks.** `applyHardfork`, `processHardforks`.
-/

namespace VizNode

/-! ## Votes -/

/-- The votes that count: the penalty is taken off, at most all of them. -/
def penalizedVotes (votes : Int) (penaltyPercent : Nat) : Int :=
  votes - votes * (min penaltyPercent Config.hundredPercent : Nat) / (Config.hundredPercent : Nat)

/-- The time of a full virtual lap at this speed. -/
def virtualLap (countedVotes : Int) : Nat :=
  Config.virtualScheduleLapLength2 / (countedVotes.toNat + 1)

namespace Core

variable {Tx L : Type}

/-- `adjust_validator_vote` on the validator object. -/
def votedValidator (c : Core L) (delta : Int) (w : Validator) : Validator :=
  let now := c.schedule.currentVirtualTime
  let position := (w.virtualPosition +
    w.countedVotes.toNat * ((now + 2 ^ 128 - w.virtualLastUpdate) % 2 ^ 128)) % 2 ^ 128
  let votes := if c.hasHardfork 5 ∧ w.votes + delta < 0 then 0 else w.votes + delta
  let counted := if c.hasHardfork 6 then penalizedVotes votes w.penaltyPercent else votes
  let scheduled := (now +
    (Config.virtualScheduleLapLength2 - position) / (counted.toNat + 1)) % 2 ^ 128
  { w with
    virtualPosition      := position
    virtualLastUpdate    := now
    votes                := votes
    countedVotes         := counted
    -- a low number of votes can overflow the time field
    virtualScheduledTime := if scheduled < now then 2 ^ 128 - 1 else scheduled }

def adjustValidatorVote (env : Env Tx L) (name : AccountName) (delta : Int) (c : Core L) :
    Except Exn (Core L) := do
  let w ← c.getValidator name
  if (c.votedValidator delta w).votes ≤ env.totalVestingShares c.ledger then
    return c.modifyValidator name (c.votedValidator delta)
  else throw (.assertion .votesAboveTotal)

/-- Modify the validator with this name, or create it. -/
def upsertValidator (name : AccountName) (f : Validator → Validator) (c : Core L) : Core L :=
  match c.findValidator name with
  | some _ => c.modifyValidator name f
  | none   => { c with validators := c.validators ++ [f { owner := name }] }

/-- The slots in use that `owner` holds are left without a name. -/
def unscheduled (owner : AccountName) (w : ValidatorSchedule) : ValidatorSchedule :=
  { w with currentShuffledValidators :=
      w.scheduled.map (fun name => if name = owner then 0 else name) ++
        w.currentShuffledValidators.drop w.numScheduledValidators }

/-- A validator is removed with its outstanding penalties. -/
def removeValidator (owner : AccountName) (unschedule : Bool) (c : Core L) : Core L :=
  { c with
    penalties  := c.penalties.filter (fun p => decide (p.validator ≠ owner))
    schedule   := if unschedule then unscheduled owner c.schedule else c.schedule
    validators := c.validators.filter (fun w => decide (w.owner ≠ owner)) }

/-- One edit of the validator table. -/
def applyEdit (env : Env Tx L) (c : Core L) : ValidatorEdit → Except Exn (Core L)
  | .updateKey owner key     => .ok (c.upsertValidator owner (fun w => { w with signingKey := key }))
  | .updateProps owner props => .ok (c.upsertValidator owner (fun w => { w with props := props }))
  | .adjustVote owner delta  => c.adjustValidatorVote env owner delta
  | .clearVotes =>
      .ok { c with validators := c.validators.map (fun w => { w with votes := 0, countedVotes := 0 }) }
  | .remove owner unschedule => .ok (c.removeValidator owner unschedule)

/-- Run code that works on the ledger: it answers with the new ledger and the validator edits. -/
def runLedger (env : Env Tx L) (f : Core L → Except Nat (List ValidatorEdit × L)) (c : Core L) :
    Except Exn (Core L) :=
  match f c with
  | .error code      => .error (.evaluation code)
  | .ok (edits, l)   => edits.foldlM (applyEdit env) { c with ledger := l }

/-! ## The round -/

/-- The expired penalties are taken back. -/
def expirePenalties (c : Core L) : Except Exn (Core L) :=
  let expired := (c.penalties.insertionSort (fun a b => a.expires ≤ b.expires)).filter
    (fun p => decide (p.expires ≤ c.time))
  expired.foldlM (fun (c : Core L) p => do
      let _ ← c.getValidator p.validator
      return c.modifyValidator p.validator (fun w =>
        let percent := u32Sub w.penaltyPercent p.penaltyPercent
        { w with penaltyPercent := percent, countedVotes := penalizedVotes w.votes percent }))
    { c with penalties := c.penalties.filter (fun p => !decide (p.expires ≤ c.time)) }

/-- May the validator be scheduled by votes? The committee only fills gaps. -/
def eligible (c : Core L) (w : Validator) : Bool :=
  decide (w.signingKey ≠ 0) &&
    !(c.hasHardfork 12 && decide (w.owner = Config.emergencyValidatorAccount))

/-- The highest voted validators, in the order of the `by_counted_vote_name` index. -/
def topValidators (c : Core L) : List AccountName :=
  (((c.validators.insertionSort (fun a b =>
      b.countedVotes < a.countedVotes ∨ (a.countedVotes = b.countedVotes ∧ a.owner ≤ b.owner))).filter
    c.eligible).take Config.maxTopValidators).map (·.owner)

/-- The result of the walk over the `by_schedule_time` index. -/
structure SupportWalk where
  support     : List AccountName
  processed   : List AccountName
  virtualTime : Nat
deriving DecidableEq, Repr

/-- Walk the validators in the order of their virtual time until the schedule is full. -/
def supportWalk (c : Core L) (top : List AccountName) :
    List Validator → Nat → SupportWalk → SupportWalk
  | [],      _,     r => r
  | w :: ws, count, r =>
      if count < Config.maxValidators then
        let r' := { r with
          processed := r.processed ++ [w.owner], virtualTime := w.virtualScheduledTime }
        if c.eligible w ∧ w.owner ∉ top then
          supportWalk c top ws (count + 1) { r' with support := r.support ++ [w.owner] }
        else supportWalk c top ws count r'
      else r

/-- The processed validators start their next lap; an overflow stops the update. -/
def advanceVirtual (now : Nat) : List AccountName → Core L → Core L × Bool
  | [],         c => (c, false)
  | name :: ns, c =>
      match c.findValidator name with
      | none   => advanceVirtual now ns c
      | some w =>
          let next := (now + virtualLap w.countedVotes) % 2 ^ 128
          if next < now then (c, true)
          else advanceVirtual now ns (c.modifyValidator name (fun w =>
            { w with virtualPosition := 0, virtualLastUpdate := now, virtualScheduledTime := next }))

/-- `reset_virtual_schedule_time`. -/
def resetVirtualScheduleTime (c : Core L) : Core L :=
  { c with
    schedule   := { c.schedule with currentVirtualTime := 0 }
    validators := c.validators.map (fun w =>
      { w with
        virtualPosition := 0, virtualLastUpdate := 0
        virtualScheduledTime := virtualLap w.countedVotes }) }

/-- The scheduled validators whose versions are tallied: without the committee in emergency mode. -/
def talliedValidators (c : Core L) : Except Exn (List Validator) :=
  (c.schedule.scheduled.filter (fun name =>
      !(c.hasHardfork 12 && c.emergencyConsensusActive &&
        decide (name = Config.emergencyValidatorAccount)))).mapM c.getValidator

/-- The highest version that enough validators run, if any. -/
def majorityVersion (ws : List Validator) (old : Nat) : Nat :=
  let versions := ws.map (·.runningVersion)
  ((versions.insertionSort (· ≥ ·)).dedup.find? (fun v =>
    decide (Config.hardforkRequiredValidators ≤ (versions.filter (fun u => decide (v ≤ u))).length))).getD old

/-- The hardfork vote that enough validators share, if any. -/
def hardforkVote (ws : List Validator) : Option (Nat × Nat) :=
  let votes := ws.map (fun w => (w.hardforkVersionVote, w.hardforkTimeVote))
  (votes.insertionSort (fun a b => a.1 < b.1 ∨ (a.1 = b.1 ∧ a.2 ≤ b.2))).dedup.find? (fun v =>
    decide (Config.hardforkRequiredValidators ≤ votes.count v))

def tallyVersions (ws : List Validator) (c : Core L) : Core L :=
  match hardforkVote ws with
  | some v => { c with hardforks := { c.hardforks with nextHardfork := v.1, nextHardforkTime := v.2 } }
  | none   => { c with hardforks := { c.hardforks with nextHardfork := c.hardforks.currentHardforkVersion } }

/-- Top and support validators take turns; what is left of the longer list follows. -/
def interleave : List AccountName → List AccountName → List AccountName
  | [],      ss      => ss
  | as,      []      => as
  | a :: as, s :: ss => a :: s :: interleave as ss

/-- The array of `CHAIN_MAX_VALIDATORS` slots that starts with these names. -/
def padSlots (names : List AccountName) : List AccountName :=
  names ++ List.replicate (Config.maxValidators - names.length) 0

/-- The new schedule of the round. -/
def shuffle (active support : List AccountName) (now version : Nat) (c : Core L) : Core L :=
  let num := max (active.length + support.length) 1
  { c with schedule := { c.schedule with
      currentShuffledValidators := padSlots (interleave active support)
      numScheduledValidators    := num
      currentVirtualTime        := now
      nextShuffleBlockNum       := c.headBlockNumber + num
      majorityVersion           := version } }

/-- Is the slot of the new schedule held by a validator with a key? -/
def slotAvailable (c : Core L) (i : Nat) : Bool :=
  let name := if i < c.schedule.numScheduledValidators then c.schedule.slot i else 0
  decide (name ≠ 0) &&
    match c.findValidator name with
    | some w => decide (w.signingKey ≠ 0)
    | none   => false

/-- The committee votes for the applied hardfork and copies the median properties. -/
def syncCommittee (c : Core L) : Core L :=
  c.modifyValidator Config.emergencyValidatorAccount (fun w =>
    { w with
      props               := c.schedule.medianProps
      runningVersion      := Config.chainVersion
      hardforkVersionVote := c.hardforks.currentHardforkVersion
      hardforkTimeVote    := c.hardforks.processedHardforks.getD c.hardforks.lastHardfork 0 })

/-- The committee takes every slot without an available validator. -/
def fillSlots (c : Core L) : Core L :=
  { c with schedule := { c.schedule with
    currentShuffledValidators := (List.range Config.maxValidators).map (fun i =>
      if c.slotAvailable i then c.schedule.slot i else Config.emergencyValidatorAccount)
    numScheduledValidators    := Config.maxValidators
    nextShuffleBlockNum       := c.headBlockNumber + Config.maxValidators } }

/-- The hybrid schedule of the emergency mode; enough available validators end the mode. -/
def hybridSchedule (c : Core L) : Core L :=
  if c.hasHardfork 12 && c.emergencyConsensusActive then
    let real := ((List.range Config.maxValidators).filter c.slotAvailable).length
    let c' := c.fillSlots.syncCommittee
    if Config.maxValidators * Config.irreversibleThreshold / Config.hundredPercent ≤ real then
      { c' with emergencyConsensusActive := false }
    else c'
  else c

/-- The classes of the selected validators. -/
def setClasses (active support : List AccountName) (c : Core L) : Core L :=
  { c with validators := c.validators.map (fun w =>
    if w.owner ∈ active then { w with schedule := .top }
    else if w.owner ∈ support then { w with schedule := .support } else w) }

/-- The new round: selection, virtual time, tally, shuffle. -/
def newRound (c : Core L) : Except Exn (Core L) := do
  let active := c.topValidators
  let walk := c.supportWalk active
    (c.validators.insertionSort (fun a b => a.virtualScheduledTime ≤ b.virtualScheduledTime))
    active.length ⟨[], [], c.schedule.currentVirtualTime⟩
  let advanced := advanceVirtual walk.virtualTime walk.processed (c.setClasses active walk.support)
  let c := if advanced.2 then advanced.1.resetVirtualScheduleTime else advanced.1
  let now := if advanced.2 then 0 else walk.virtualTime
  let ws ← c.talliedValidators
  let version := majorityVersion ws c.schedule.majorityVersion
  return (shuffle active walk.support now version (tallyVersions ws c)).hybridSchedule

/-- `update_validator_schedule` up to the end of the emergency block. -/
def updateValidatorSchedule (c : Core L) : Except Exn (Core L) :=
  if c.headBlockNumber % Config.maxValidators ≠ 0 then .ok c
  else if c.hasHardfork 6 then c.expirePenalties >>= newRound
  else c.newRound

/-- The element `nth_element` puts into the middle. -/
def median (xs : List Nat) : Nat := (xs.insertionSort (· ≤ ·)).getD (xs.length / 2) 0

/-- `update_median_validator_props`. -/
def updateMedianValidatorProps (c : Core L) : Except Exn (Core L) := do
  let active ← c.talliedValidators
  if active.isEmpty then return c
  let defaults : ChainProperties := {}
  let props : ChainProperties :=
    { maximumBlockSize := median (active.map (·.props.maximumBlockSize))
      validatorMissPenaltyPercent := if c.hasHardfork 6 then
        median (active.map (·.props.validatorMissPenaltyPercent)) else defaults.validatorMissPenaltyPercent
      validatorMissPenaltyDuration := if c.hasHardfork 6 then
        median (active.map (·.props.validatorMissPenaltyDuration)) else defaults.validatorMissPenaltyDuration }
  return { c with
    schedule         := { c.schedule with medianProps := props }
    maximumBlockSize := props.maximumBlockSize }

/-! ## Hardforks -/

/-- `apply_hardfork`. -/
def applyHardfork (env : Env Tx L) (n : Nat) (c : Core L) : Except Exn (Core L) := do
  let c ← c.runLedger env (env.migrate n)
  if n = c.hardforks.lastHardfork + 1 ∧ c.hardforks.processedHardforks.length = n then
    return { c with hardforks := { c.hardforks with
      processedHardforks     := c.hardforks.processedHardforks ++ [env.hardforkTime n]
      lastHardfork           := n
      currentHardforkVersion := env.hardforkVersion n } }
  else throw (.assertion .hardforkOrder)

/-- The loop of `process_hardforks`; every round applies a hardfork or throws. -/
def processHardforks (env : Env Tx L) : Nat → Core L → Except Exn (Core L)
  | 0,     _ => .error .outOfFuel
  | n + 1, c =>
      if env.hardforkVersion c.hardforks.lastHardfork < c.hardforks.nextHardfork ∧
          c.hardforks.nextHardforkTime ≤ c.time then
        if c.hardforks.lastHardfork < Config.numHardforks then do
          let c ← c.applyHardfork env (c.hardforks.lastHardfork + 1)
          processHardforks env n c
        else .error .unknownHardfork
      else .ok c

end Core

end VizNode
