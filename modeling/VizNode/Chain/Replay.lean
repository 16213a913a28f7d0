import VizNode.Chain.Layers

/-!
# `VizNode.Chain.Replay` — does the block sequence determine the state?

A block application reads more than the chain state: the timestamp of the last irreversible block for the
emergency check, and the id of a block that becomes irreversible, are looked up in *local storage*. The
history records the answers. **Everything else is determined**: two nodes in equal states that apply the
same block and get the same answers end in equal states (`applyInSession_determined`).

The number of the last irreversible block, whose timestamp is looked up, is itself moved by confirmation
messages between blocks. So two nodes with the same blocks can disagree on the emergency mode, and
`replay_deterministic` says when they do not.

## Contents
- **The core.** `beginBlock_determined`: of the lookups only the verdict of the emergency check matters.
- **Finality.** `Finality.afterBlock`, a block's effect on irreversibility as a function of the answers.
- **Two nodes.** `replay_deterministic`.
-/

namespace VizNode

/-! ## The core -/

/-- Is the block late, compared with the timestamp of the last irreversible block? -/
def SignedBlock.late {Tx : Type} (b : SignedBlock Tx) : Option Nat → Bool
  | none   => false
  | some t => decide (Config.emergencyConsensusTimeoutSec ≤ u32Sub b.timestamp t)

namespace Core

open Prog

variable {Tx L : Type} {env : Env Tx L} {b : SignedBlock Tx} {c c' : Core L}

theorem emergencyDue_eq (b : SignedBlock Tx) (time : Option Nat) (c : Core L) :
    c.emergencyDue b time = (c.hasHardfork 12 && !c.emergencyConsensusActive && b.late time) := rfl

/-- What the header makes of the core, whatever checks are made. -/
theorem openBlock_eq {skip : Skip} (h : c.openBlock env skip b = .ok c') :
    c' = ({ c with currentValidator := b.validator }.changeGenesis b).processHeaderExtensions b := by
  obtain ⟨_, -, h⟩ := except_bind_eq_ok h
  obtain ⟨_, -, h⟩ := except_bind_eq_ok h
  obtain ⟨w, -, h⟩ := except_bind_eq_ok h
  dsimp only at h
  split at h
  · exact absurd h (by simp [throw, throwThe, MonadExceptOf.throw, bind, Except.bind])
  · exact (Except.ok.inj h).symm

/-- The number of slots between the head and the block. -/
def missed (b : SignedBlock Tx) (c : Core L) : Nat :=
  if c.time ≠ 0 then c.getSlotAtTime b.timestamp - 1 else 0

theorem updateGlobalDynamicData_eq {skip : Skip} {lib : Nat} {time : Option Nat}
    (h : c.updateGlobalDynamicData env skip lib time b = .ok c') :
    ∃ c₁, (List.range (c.missed b)).foldlM (missSlot b) c = .ok c₁ ∧
      c' = if (c₁.moveHead env b (c.missed b)).emergencyDue b time
        then (c₁.moveHead env b (c.missed b)).activateEmergency b else c₁.moveHead env b (c.missed b) := by
  have hmissed : (if c.time ≠ 0 then c.getSlotAtTime b.timestamp - 1 else 0) = c.missed b := rfl
  unfold updateGlobalDynamicData at h
  dsimp only at h
  rw [hmissed] at h
  split at h
  · exact absurd h (by simp [throw, throwThe, MonadExceptOf.throw, bind, Except.bind])
  · obtain ⟨c₁, h₁, h⟩ := except_bind_eq_ok h
    refine ⟨c₁, h₁, ?_⟩
    generalize c.missed b = n at h ⊢
    split at h
    · exact absurd h (by simp [throw, throwThe, MonadExceptOf.throw, bind, Except.bind])
    · split at h
      · next hd => rw [if_pos hd]; exact (Except.ok.inj h).symm
      · next hd => rw [if_neg hd]; exact (Except.ok.inj h).symm

/-- **Stage one is determined** by the core, the flags of the transactions and the emergency verdict. -/
theorem beginBlock_determined {skip₁ skip₂ : Skip} {lib₁ lib₂ : Nat} {time₁ time₂ : Option Nat}
    {c₁ c₂ : Core L} (h₁ : c.beginBlock env skip₁ lib₁ time₁ b = .ok c₁)
    (h₂ : c.beginBlock env skip₂ lib₂ time₂ b = .ok c₂)
    (hskip : skip₁.forTransactions = skip₂.forTransactions) (hlate : b.late time₁ = b.late time₂) :
    c₁ = c₂ := by
  obtain ⟨d₁, o₁, h₁⟩ := except_bind_eq_ok h₁
  obtain ⟨d₂, o₂, h₂⟩ := except_bind_eq_ok h₂
  obtain rfl : d₁ = d₂ := (openBlock_eq o₁).trans (openBlock_eq o₂).symm
  obtain ⟨e₁, t₁, h₁⟩ := except_bind_eq_ok h₁
  obtain ⟨e₂, t₂, h₂⟩ := except_bind_eq_ok h₂
  rw [hskip] at t₁
  obtain rfl : e₁ = e₂ := Except.ok.inj (t₁.symm.trans t₂)
  obtain ⟨f₁, g₁, h₁⟩ := except_bind_eq_ok h₁
  obtain ⟨f₂, g₂, h₂⟩ := except_bind_eq_ok h₂
  obtain ⟨m₁, l₁, hf₁⟩ := updateGlobalDynamicData_eq g₁
  obtain ⟨m₂, l₂, hf₂⟩ := updateGlobalDynamicData_eq g₂
  obtain rfl : m₁ = m₂ := Except.ok.inj (l₁.symm.trans l₂)
  rw [emergencyDue_eq, hlate, ← emergencyDue_eq] at hf₁
  obtain rfl : f₁ = f₂ := hf₁.trans hf₂.symm
  exact (Except.ok.inj h₁).symm.trans (Except.ok.inj h₂)

end Core

/-! ## Finality -/

section Answers

open Database

/-- Irreversibility by support: the next answer is used when the last irreversible block is the supported
    one. The answers that are left are returned. -/
def Finality.bySupport (num : Nat) (ids : List (Option BlockId)) (fin : Finality) :
    Finality × List (Option BlockId) :=
  let fin := if fin.lastIrreversibleBlockNum < num then raiseFinality num fin else fin
  if num = fin.lastIrreversibleBlockNum then (setFinalityId (ids.headD none) fin, ids.tail) else (fin, ids)

/-- Irreversibility by confirmations: every raise uses an answer. -/
def Finality.byConfirmations (threshold : Nat) :
    List ValidatorConfirmation → List (Option BlockId) → Finality → Finality × List (Option BlockId)
  | [],      ids, fin => (fin, ids)
  | o :: os, ids, fin =>
      if 1 + fin.lastIrreversibleBlockNum = o.blockNum ∧ threshold ≤ o.count then
        byConfirmations threshold os ids.tail
          (removeConfirmation o (setFinalityId (ids.headD none) (raiseFinality o.blockNum fin)))
      else byConfirmations threshold os ids fin

/-- **What a block makes of finality**, when it ends in core `c` and its lookups answer `ids`. -/
def Finality.afterBlock {Tx L : Type} (b : SignedBlock Tx) (num : Nat) (c : Core L)
    (ids : List (Option BlockId)) (fin : Finality) : Finality :=
  let r := fin.bySupport num ids
  let r := if c.hasHardfork 12 && c.emergencyConsensusActive then r
    else Finality.byConfirmations c.confirmationThreshold r.1.confirmations r.2 r.1
  addConfirmation (newConfirmation b.blockNum b.id b.validator c.schedule) r.1

end Answers

namespace Database

open Prog Relation

variable {Tx L : Type} {env : Env Tx L} {db db' x : Database Tx L}

/-- **The lookups answered `ids`**: the core is the same, and the newest record has noted the answers. -/
structure Answered (ids : List (Option BlockId)) (db db' : Database Tx L) : Prop where
  core    : db'.state.core = db.state.core
  history : db'.state.history =
    db.state.history.modifyHead (fun r => { r with libIds := r.libIds ++ ids })

theorem Answered.nil (h : db'.state = db.state) : Answered [] db db' := by
  refine ⟨by rw [h], ?_⟩
  rw [h]
  cases db.state.history with
  | nil => rfl
  | cons r rs => simp

theorem Answered.trans {ids₁ ids₂ : List (Option BlockId)} (h₁ : Answered ids₁ db db')
    (h₂ : Answered ids₂ db' x) : Answered (ids₁ ++ ids₂) db x := by
  refine ⟨h₂.core.trans h₁.core, ?_⟩
  rw [h₂.history, h₁.history]
  cases db.state.history with
  | nil => rfl
  | cons r rs => simp [List.append_assoc]

theorem Answered.of_fin {ids : List (Option BlockId)} (h : Answered ids db db') {f : Finality → Finality} :
    Answered ids db (db'.modifyFinality f) := ⟨h.core, h.history⟩

instance sameChainbasePreorder : IsPreorder (Database Tx L) (fun x y => y.chainbase = x.chainbase) where
  refl _ := rfl
  trans _ _ _ h₁ h₂ := h₂.trans h₁

theorem writeIrreversible_chainbase (skipLog : Bool) (db : Database Tx L) :
    MovesAt (fun x y => y.chainbase = x.chainbase) (writeIrreversible skipLog) db :=
  writeIrreversible_moves db (fun _ hw => hw.chainbase) skipLog

/-- The four steps behind a raise: an answer is noted when the id is asked for. -/
theorem settle_ok {db x : Database Tx L} (skipLog : Bool) (p : Database Tx L → Bool)
    (hp : ∀ y, y.chainbase = db.chainbase → p y = p db) {u : PUnit}
    (h : (do
      writeIrreversible skipLog
      modify fun db => if p db then db.setIrreversibleId else db
      modify trimForkDb : DbM Tx L PUnit) db = .ok u x) :
    if p db then ∃ id, Answered [id] db x ∧ x.state.fin = setFinalityId id db.state.fin
    else x.state = db.state := by
  obtain ⟨⟨⟩, y, hy, h⟩ := bind_eq_ok h
  have hc : y.chainbase = db.chainbase := (writeIrreversible_chainbase skipLog db).of_ok hy
  have hstate : y.state = db.state := congrArg UndoDb.state hc
  have hx : trimForkDb (if p y then y.setIrreversibleId else y) = x := (EStateM.Result.ok.inj h).2
  rw [hp y hc] at hx
  by_cases hpd : p db = true
  · rw [if_pos hpd] at hx ⊢
    subst hx
    refine ⟨y.readIrreversible.map (·.id), ⟨?_, ?_⟩, ?_⟩
    · show y.state.core = _
      rw [hstate]
    · show y.state.history.modifyHead _ = _
      rw [hstate]
    · show setFinalityId _ y.state.fin = _
      rw [hstate]
  · rw [if_neg hpd] at hx ⊢
    subst hx
    exact hstate

theorem updateLastIrreversibleBlock_ok {skip : Skip} {u : Unit}
    (h : updateLastIrreversibleBlock skip db = .ok u x) :
    ∃ num ids, db.state.core.nextIrreversible = .ok num ∧ Answered ids db x ∧
      ∀ rest, db.state.fin.bySupport num (ids ++ rest) = (x.state.fin, rest) := by
  simp only [updateLastIrreversibleBlock, get_bind_run] at h
  cases hnum : db.state.core.nextIrreversible with
  | error e =>
      rw [hnum] at h
      exact absurd h (by simp)
  | ok num =>
      rw [hnum] at h
      refine ⟨num, ?_⟩
      have hset := @settle_ok _ _ (db.raiseSupported num).commitIrreversible x skip.blockLog
        (fun y => decide (num = y.lib)) (fun y hc => by unfold lib state; rw [hc]) u (by
          by_cases hlt : db.lib < num <;> simpa [bind_run, raiseSupported, hlt] using h)
      have hfin : (db.raiseSupported num).commitIrreversible.state.fin =
          if db.state.fin.lastIrreversibleBlockNum < num then raiseFinality num db.state.fin
          else db.state.fin := by
        unfold raiseSupported
        split
        · next hlt => exact (if_pos hlt).symm
        · next hlt => exact (if_neg hlt).symm
      have hraise : Answered [] db (db.raiseSupported num).commitIrreversible := by
        have hnil : Answered [] db db := Answered.nil rfl
        unfold raiseSupported
        split <;> exact ⟨hnil.core, hnil.history⟩
      unfold Finality.bySupport
      rw [← hfin]
      dsimp only
      by_cases hid : num = (db.raiseSupported num).commitIrreversible.lib
      · rw [if_pos (by simpa using hid)] at hset
        obtain ⟨id, hans, hf⟩ := hset
        refine ⟨[id], rfl, hraise.trans hans, fun rest => ?_⟩
        rw [hf]
        exact if_pos hid
      · rw [if_neg (by simpa using hid)] at hset
        refine ⟨[], rfl, hraise.trans (Answered.nil hset), fun rest => ?_⟩
        rw [hset]
        exact if_neg hid

theorem raiseIrreversible_ok {o : ValidatorConfirmation} {u : Unit} (h : raiseIrreversible o db = .ok u x) :
    ∃ id, Answered [id] db x ∧
      x.state.fin = setFinalityId id (raiseFinality o.blockNum db.state.fin) := by
  have hset := @settle_ok _ _ (db.noteRaised o).commitIrreversible x false
    (fun _ => true) (fun _ _ => rfl) u (by
      simpa [bind_run, raiseIrreversible, noteRaised] using h)
  obtain ⟨id, hans, hf⟩ := hset
  have hnil : Answered [] db db := Answered.nil rfl
  have hraise : Answered [] db (db.noteRaised o).commitIrreversible := ⟨hnil.core, hnil.history⟩
  exact ⟨id, hraise.trans hans, hf⟩

/-- The loop over the objects uses the answers one by one. -/
theorem checkConfirmations_ok {os : List ValidatorConfirmation} {u : Unit}
    (h : checkConfirmations os db = .ok u x) :
    ∃ ids, Answered ids db x ∧ ∀ rest, Finality.byConfirmations db.state.core.confirmationThreshold os
      (ids ++ rest) db.state.fin = (x.state.fin, rest) := by
  induction os generalizing db with
  | nil =>
      obtain rfl := (EStateM.Result.ok.inj h).2
      exact ⟨[], Answered.nil rfl, fun rest => rfl⟩
  | cons o os ih =>
      simp only [checkConfirmations, get_bind_run] at h
      have hiff : db.confirms o = true ↔
          1 + db.state.fin.lastIrreversibleBlockNum = o.blockNum ∧
            db.state.core.confirmationThreshold ≤ o.count := by
        unfold confirms
        rw [Bool.and_eq_true, decide_eq_true_iff, decide_eq_true_iff]
        rfl
      split at h
      · next hc =>
          obtain ⟨⟨⟩, y, hy, h⟩ := bind_eq_ok h
          obtain ⟨id, hans, hf⟩ := raiseIrreversible_ok hy
          obtain ⟨⟨⟩, z, hz, h⟩ := bind_eq_ok h
          obtain rfl : y.modifyFinality (removeConfirmation o) = z := (EStateM.Result.ok.inj hz).2
          obtain ⟨ids, hans', hrest⟩ := ih h
          refine ⟨id :: ids, hans.of_fin.trans hans', fun rest => ?_⟩
          unfold Finality.byConfirmations
          rw [if_pos (hiff.mp hc), ← hrest rest]
          show _ = Finality.byConfirmations y.state.core.confirmationThreshold os (ids ++ rest)
            (removeConfirmation o y.state.fin)
          rw [hf, hans.core]
          rfl
      · next hc =>
          obtain ⟨ids, hans, hrest⟩ := ih h
          refine ⟨ids, hans, fun rest => ?_⟩
          unfold Finality.byConfirmations
          rw [if_neg fun hcc => hc (hiff.mpr hcc)]
          exact hrest rest

theorem checkBlockPostValidationChain_ok {u : Unit} (h : checkBlockPostValidationChain db = .ok u x) :
    ∃ ids, Answered ids db x ∧ ∀ rest,
      (if db.state.core.hasHardfork 12 && db.state.core.emergencyConsensusActive
        then (db.state.fin, ids ++ rest)
        else Finality.byConfirmations db.state.core.confirmationThreshold db.state.fin.confirmations
          (ids ++ rest) db.state.fin) = (x.state.fin, rest) := by
  unfold checkBlockPostValidationChain at h
  rw [get_bind_run] at h
  split at h
  · next hem =>
      obtain rfl := (EStateM.Result.ok.inj h).2
      exact ⟨[], Answered.nil rfl, fun rest => if_pos hem⟩
  · next hem =>
      obtain ⟨ids, hans, hrest⟩ := checkConfirmations_ok h
      exact ⟨ids, hans, fun rest => (if_neg hem).trans (hrest rest)⟩

theorem onCore_ok {f : Core L → Except Exn (Core L)} {u : Unit} (h : onCore f db = .ok u x) :
    ∃ c, f db.state.core = .ok c ∧ x = db.modifyState (fun s => { s with core := c }) := by
  simp only [onCore, get_bind_run] at h
  cases hc : f db.state.core with
  | error e => rw [hc] at h; exact absurd h (by simp)
  | ok c => rw [hc] at h; exact ⟨c, rfl, (EStateM.Result.ok.inj h).2.symm⟩

theorem notifyEmergency_state (before after : Bool) (db : Database Tx L) :
    (db.notifyEmergency before after).state = db.state := by
  unfold notifyEmergency
  split <;> rfl

/-- **The second half of a block application that returned.** -/
theorem finishBlock_ok {b : SignedBlock Tx} {skip : Skip} {active : Bool} {u : Unit}
    (h : finishBlock env skip b active db = .ok u x) :
    ∃ num c₂ c₃ ids, db.state.core.nextIrreversible = .ok num ∧
      db.state.core.finishSchedule env b = .ok c₂ ∧ c₂.finishLedger env = .ok c₃ ∧
      x.state =
        { core    := c₃
          fin     := db.state.fin.afterBlock b num c₃ ids
          history := db.state.history.modifyHead
            (fun r => { r with libIds := r.libIds ++ ids, complete := true }) } := by
  obtain ⟨⟨⟩, x₆, h₆, h⟩ := bind_eq_ok h
  obtain ⟨⟨⟩, x₁, h₁, h₆⟩ := bind_eq_ok h₆
  obtain ⟨⟨⟩, x₂, h₂, h₆⟩ := bind_eq_ok h₆
  obtain ⟨⟨⟩, x₃, h₃, h₆⟩ := bind_eq_ok h₆
  obtain ⟨⟨⟩, x₄, h₄, h₆⟩ := bind_eq_ok h₆
  obtain ⟨⟨⟩, x₅, h₅, h₆⟩ := bind_eq_ok h₆
  obtain ⟨num, ids₁, hnum, hans₁, hfin₁⟩ := updateLastIrreversibleBlock_ok h₁
  obtain ⟨c₂, hc₂, hx₂⟩ := onCore_ok h₂
  have hx₃ : x₃.state = x₂.state := by
    rw [← (EStateM.Result.ok.inj h₃).2, notifyEmergency_state]
  obtain ⟨c₃, hc₃, hx₄⟩ := onCore_ok h₄
  obtain ⟨ids₂, hans₂, hfin₂⟩ := checkBlockPostValidationChain_ok h₅
  obtain rfl := (EStateM.Result.ok.inj h₆).2
  obtain rfl := (EStateM.Result.ok.inj h).2
  -- the core goes from stage to stage, finality and the history through the two irreversible stages
  have hs₄ : x₄.state = { x₁.state with core := c₃ } := by
    rw [hx₄]
    show { x₃.state with core := c₃ } = _
    rw [hx₃, hx₂]
    rfl
  have hcore₅ : x₅.state.core = c₃ := by rw [hans₂.core, hs₄]
  refine ⟨num, c₂, c₃, ids₁ ++ ids₂, hnum, hans₁.core ▸ hc₂, ?_, ?_⟩
  · rw [hx₃, hx₂] at hc₃
    exact hc₃
  · have hhist : x₅.state.history.modifyHead (fun r => { r with complete := true }) =
        db.state.history.modifyHead
          (fun r => { r with libIds := r.libIds ++ (ids₁ ++ ids₂), complete := true }) := by
      rw [hans₂.history, hs₄, hans₁.history]
      cases db.state.history with
      | nil => rfl
      | cons r rs => simp [List.append_assoc]
    have hfin : x₅.state.fin = (if c₃.hasHardfork 12 && c₃.emergencyConsensusActive
        then (db.state.fin.bySupport num (ids₁ ++ ids₂))
        else Finality.byConfirmations c₃.confirmationThreshold
          (db.state.fin.bySupport num (ids₁ ++ ids₂)).1.confirmations
          (db.state.fin.bySupport num (ids₁ ++ ids₂)).2 (db.state.fin.bySupport num (ids₁ ++ ids₂)).1).1 := by
      have h₂ := hfin₂ []
      rw [hs₄, List.append_nil] at h₂
      rw [hfin₁ ids₂]
      exact (congrArg Prod.fst h₂).symm
    show ({ core    := x₅.state.core
            fin     := addConfirmation (newConfirmation b.blockNum b.id b.validator x₅.state.core.schedule)
              x₅.state.fin
            history := x₅.state.history.modifyHead (fun r => { r with complete := true }) } :
          ChainState Tx L) = _
    rw [hhist, hfin, hcore₅]
    rfl

/-- **A block application that returned**: the new state, with the record of what was looked up. -/
theorem applyInSession_ok {b : SignedBlock Tx} {skip : Skip} (h : applyInSession env b skip db = .ok () x) :
    ∃ skip' num c₁ c₂ c₃ ids, db.checkpointSkip b skip = .ok skip' ∧
      db.state.core.beginBlock env skip' db.lib db.libTime b = .ok c₁ ∧ c₁.nextIrreversible = .ok num ∧
      c₁.finishSchedule env b = .ok c₂ ∧ c₂.finishLedger env = .ok c₃ ∧
      x.state =
        { core    := c₃
          fin     := db.state.fin.afterBlock b num c₃ ids
          history :=
            { block := b, txSkip := skip'.forTransactions, libTime := db.libTime, libIds := ids
              complete := true } :: db.state.history } := by
  rcases applyInSession_cases env b skip db with ⟨e, he⟩ | ⟨skip', c₁, y, hs, hb, -, ⟨hf, hr⟩ | ⟨e, -, hr⟩⟩
  · exact absurd (he.symm.trans h) (by simp)
  · obtain rfl := (EStateM.Result.ok.inj (hr.symm.trans h)).2
    obtain ⟨num, c₂, c₃, ids, hnum, hc₂, hc₃, hstate⟩ := finishBlock_ok hf
    have hent : (db.startUndoSession.entered b skip' c₁).state =
        { db.state with
          core    := c₁
          history := { block := b, txSkip := skip'.forTransactions, libTime := db.libTime } ::
            db.state.history } := by
      unfold Database.state
      rw [(entered_chainbase b skip' c₁ db.startUndoSession).1]
      rfl
    rw [hent] at hnum hc₂ hstate
    exact ⟨skip', num, c₁, c₂, c₃, ids, hs, hb, hnum, hc₂, hc₃, hstate⟩
  · exact absurd (hr.symm.trans h) (by simp)

/-! ## Two nodes -/

end Database

/-- What a block application took from outside the chain state: the flags of its transactions, the verdict
    of the emergency check and the answers for new irreversible blocks. -/
def AppliedBlock.lookups {Tx : Type} (r : AppliedBlock Tx) : Skip × Bool × List (Option BlockId) :=
  (r.txSkip, r.block.late r.libTime, r.libIds)

namespace Database

variable {Tx L : Type} {env : Env Tx L} {db₁ db₂ x₁ x₂ : Database Tx L} {b : SignedBlock Tx}

/-- The stages behind the first one are functions of the core. -/
theorem stages_determined {c c₂ c₃ d₂ d₃ : Core L} (h₂ : c.finishSchedule env b = .ok c₂)
    (h₃ : c₂.finishLedger env = .ok c₃) (g₂ : c.finishSchedule env b = .ok d₂)
    (g₃ : d₂.finishLedger env = .ok d₃) : c₃ = d₃ := by
  obtain rfl : c₂ = d₂ := Except.ok.inj (h₂.symm.trans g₂)
  exact Except.ok.inj (h₃.symm.trans g₃)

/-- **A block application is determined** by the chain state and by what it took from outside. -/
theorem applyInSession_determined {skip₁ skip₂ : Skip} (h₁ : applyInSession env b skip₁ db₁ = .ok () x₁)
    (h₂ : applyInSession env b skip₂ db₂ = .ok () x₂) (hcore : db₁.state.core = db₂.state.core)
    (hfin : db₁.state.fin = db₂.state.fin)
    (hlook : x₁.state.history.head?.map (·.lookups) = x₂.state.history.head?.map (·.lookups)) :
    x₁.state.core = x₂.state.core ∧ x₁.state.fin = x₂.state.fin := by
  obtain ⟨_, num, c₁, c₂, c₃, ids, -, hb, hnum, hc₂, hc₃, hx⟩ := applyInSession_ok h₁
  obtain ⟨_, num', d₁, d₂, d₃, ids', -, gb, gnum, gc₂, gc₃, gx⟩ := applyInSession_ok h₂
  rw [hx, gx] at hlook ⊢
  obtain ⟨hskip, hlate, rfl⟩ := by simpa [AppliedBlock.lookups] using hlook
  rw [hcore] at hb
  obtain rfl := Core.beginBlock_determined hb gb hskip hlate
  obtain rfl := stages_determined hc₂ hc₃ gc₂ gc₃
  obtain rfl : num = num' := Except.ok.inj (hnum.symm.trans gnum)
  exact ⟨rfl, by rw [hfin]⟩

/-- The core needs less: the same flags and the same verdict. -/
theorem applyInSession_core {skip : Skip} (h₁ : applyInSession env b skip db₁ = .ok () x₁)
    (h₂ : applyInSession env b skip db₂ = .ok () x₂) (hcp : db₁.checkpoints = db₂.checkpoints)
    (hcore : db₁.state.core = db₂.state.core) (hlate : b.late db₁.libTime = b.late db₂.libTime) :
    x₁.state.core = x₂.state.core := by
  obtain ⟨s, _, c₁, c₂, c₃, _, hs, hb, -, hc₂, hc₃, hx⟩ := applyInSession_ok h₁
  obtain ⟨s', _, d₁, d₂, d₃, _, gs, gb, -, gc₂, gc₃, gx⟩ := applyInSession_ok h₂
  have hsame : db₁.checkpointSkip b skip = db₂.checkpointSkip b skip := by
    unfold checkpointSkip
    rw [hcp]
  obtain rfl : s = s' := Except.ok.inj (hs.symm.trans (hsame.trans gs))
  rw [hcore] at hb
  obtain rfl := Core.beginBlock_determined hb gb rfl hlate
  rw [hx, gx]
  exact stages_determined hc₂ hc₃ gc₂ gc₃

/-- What happens to a node between two blocks, as far as the chain state is concerned: confirmations
    arrive, and its block storage changes in any way. -/
inductive Between (Tx : Type) where
  | message (id : BlockId) (account : AccountName)
  | stored (forkDb : ForkDatabase Tx) (blockLog dltBlockLog : List (SignedBlock Tx))

def between (db : Database Tx L) : Between Tx → Database Tx L
  | .message id account                   => Prog.after (applyBlockPostValidation id account) db
  | .stored forkDb blockLog dltBlockLog   =>
      { db with forkDb := forkDb, blockLog := blockLog, dltBlockLog := dltBlockLog }

/-- The turn of a block at a node: what happens before it, the block, and the flags of its application. -/
structure Turn (Tx : Type) where
  before : List (Between Tx)
  block  : SignedBlock Tx
  skip   : Skip

/-- The block of the turn is applied. -/
def turn (env : Env Tx L) (db : Database Tx L) (t : Turn Tx) : Except Exn (Database Tx L) :=
  match applyInSession env t.block t.skip (t.before.foldl between db) with
  | .ok _ x    => .ok x
  | .error e _ => .error e

/-- A node applies the blocks of its turns. -/
def replay (env : Env Tx L) (db : Database Tx L) (turns : List (Turn Tx)) : Except Exn (Database Tx L) :=
  turns.foldlM (turn env) db

/-- **The verdicts of a node**: for each of its turns, does it find the block late? -/
def verdicts (env : Env Tx L) : Database Tx L → List (Turn Tx) → List Bool
  | _,  []      => []
  | db, t :: ts =>
      t.block.late (t.before.foldl between db).libTime ::
        match turn env db t with
        | .ok x    => verdicts env x ts
        | .error _ => []

/-- Nothing between two blocks changes the core or the checkpoints. -/
theorem between_frame (db : Database Tx L) (e : Between Tx) :
    (db.between e).state.core = db.state.core ∧ (db.between e).checkpoints = db.checkpoints := by
  cases e with
  | stored _ _ _ => exact ⟨rfl, rfl⟩
  | message id account =>
      refine applyBlockPostValidation_moves (R := Prog.Keeps fun x : Database Tx L =>
        x.state.core = db.state.core ∧ x.checkpoints = db.checkpoints) (fun x y t hx => ?_) db ⟨rfl, rfl⟩
      cases t with
      | lib t => exact ⟨t.frame.1.trans hx.1, t.kept.checkpoints.trans hx.2⟩
      | marked _ _ => exact hx

theorem before_frame (before : List (Between Tx)) (db : Database Tx L) :
    (before.foldl between db).state.core = db.state.core ∧
      (before.foldl between db).checkpoints = db.checkpoints := by
  induction before generalizing db with
  | nil => exact ⟨rfl, rfl⟩
  | cons e es ih =>
      have he := between_frame db e
      exact ⟨(ih _).1.trans he.1, (ih _).2.trans he.2⟩

theorem turn_ok {db x : Database Tx L} {t : Turn Tx} (h : turn env db t = .ok x) :
    applyInSession env t.block t.skip (t.before.foldl between db) = .ok () x := by
  unfold turn at h
  split at h
  · next u y hy => rw [hy, Except.ok.inj h]
  · exact absurd h (by simp)

/-- **Replay is deterministic where the verdicts agree.** Two nodes with equal cores and checkpoints that
    apply the same blocks with the same flags end in equal cores, whatever they store and whatever
    confirmations reach them, if at every block they agree on whether it is late. -/
theorem replay_deterministic {turns₁ turns₂ : List (Turn Tx)}
    (hsame : turns₁.map (fun t => (t.block, t.skip)) = turns₂.map (fun t => (t.block, t.skip)))
    (hcore : db₁.state.core = db₂.state.core) (hcp : db₁.checkpoints = db₂.checkpoints)
    (hv : verdicts env db₁ turns₁ = verdicts env db₂ turns₂)
    (h₁ : replay env db₁ turns₁ = .ok x₁) (h₂ : replay env db₂ turns₂ = .ok x₂) :
    x₁.state.core = x₂.state.core := by
  induction turns₁ generalizing turns₂ db₁ db₂ with
  | nil =>
      obtain rfl : turns₂ = [] := by simpa using hsame.symm
      obtain rfl := Except.ok.inj h₁
      obtain rfl := Except.ok.inj h₂
      exact hcore
  | cons t ts ih =>
      cases turns₂ with
      | nil => exact absurd hsame (by simp)
      | cons t' ts' =>
          obtain ⟨⟨hblock, hskip⟩, hsame⟩ := by simpa using hsame
          obtain ⟨y₁, hy₁, h₁⟩ := Prog.except_bind_eq_ok h₁
          obtain ⟨y₂, hy₂, h₂⟩ := Prog.except_bind_eq_ok h₂
          simp only [verdicts, hy₁, hy₂, List.cons.injEq] at hv
          have hf := before_frame t.before db₁
          have hf' := before_frame t'.before db₂
          have ha := turn_ok hy₁
          have ha' := turn_ok hy₂
          rw [← hblock, ← hskip] at ha'
          have hy : y₁.state.core = y₂.state.core :=
            applyInSession_core ha ha' (hf.2.trans (hcp.trans hf'.2.symm))
              (hf.1.trans (hcore.trans hf'.1.symm)) (by rw [hv.1, hblock])
          have hk := ((applyInSession_kept _ _ _).of_ok ha).checkpoints.trans hf.2
          have hk' := ((applyInSession_kept _ _ _).of_ok ha').checkpoints.trans hf'.2
          exact ih hsame hy (hk.trans (hcp.trans hk'.symm)) hv.2 h₁ h₂

end Database

namespace Sample

/-- The second block comes an hour late. -/
def late2 : SignedBlock Tx := block block1.id 3600 1 2
def late3 : SignedBlock Tx := block late2.id 3603 2 3

/-- A node without a block log, whose head is the late block while the first block is the last
    irreversible one. -/
def lateNode : Database Tx Unit :=
  { four with
    dltMode   := true
    blockLog  := []
    chainbase :=
      ⟨⟨{ four.state.core with headBlockNumber := 2, headBlockId := late2.id, time := 3600
                               currentAslot := 1200 },
        ⟨1, block1.id, 1, 0, [Database.newConfirmation 2 late2.id 1 four.state.core.schedule]⟩, []⟩, [], 2⟩
    forkDb := { index := [{ ptr := 0, data := block1 }, { ptr := 1, prev := some 0, data := late2 }]
                unlinkedIndex := [], head := some { ptr := 1, prev := some 0, data := late2 }, nextPtr := 2 } }

/-- The third block arrives, without anything before it. -/
def quietTurn : Database.Turn Tx := ⟨[], late3, Skip.nothing⟩

/-- Before it, the other validators confirm the second block. -/
def confirmedTurn : Database.Turn Tx :=
  ⟨[.message late2.id 2, .message late2.id 3, .message late2.id 4], late3, Skip.nothing⟩

/-- Before it, only one of them does. -/
def hintedTurn : Database.Turn Tx := ⟨[.message late2.id 2], late3, Skip.nothing⟩

/-- Before it, the node loses its stored blocks. -/
def forgetfulTurn : Database.Turn Tx :=
  ⟨[.stored { index := [], unlinkedIndex := [], head := none, nextPtr := 2 } [] []], late3, Skip.nothing⟩

/-- Is the emergency mode active after the turns? -/
def emergencyAfter (turns : List (Database.Turn Tx)) : Option Bool :=
  match Database.replay env lateNode turns with
  | .ok x    => some x.state.core.emergencyConsensusActive
  | .error _ => none

end Sample

namespace Database

open Sample in
/-- **Nodes disagree on the emergency mode**: one that received the confirmations of the second block does
    not enter it, nor does one that has no block of its own to compare with. -/
theorem replay_diverges :
    emergencyAfter [quietTurn] = some true ∧ emergencyAfter [confirmedTurn] = some false ∧
      emergencyAfter [forgetfulTurn] = some false := by
  decide +kernel

open Sample in
/-- A confirmation that raises nothing makes no difference. -/
theorem replay_deterministic_sample :
    ∃ x₁ x₂, replay env lateNode [quietTurn] = .ok x₁ ∧ replay env lateNode [hintedTurn] = .ok x₂ ∧
      x₁.state.core = x₂.state.core := by
  have hok : (replay env lateNode [quietTurn]).isOk ∧ (replay env lateNode [hintedTurn]).isOk := by
    decide +kernel
  cases h₁ : replay env lateNode [quietTurn] with
  | error e => rw [h₁] at hok; exact absurd hok.1 (by simp [Except.isOk, Except.toBool])
  | ok x₁ =>
      cases h₂ : replay env lateNode [hintedTurn] with
      | error e => rw [h₂] at hok; exact absurd hok.2 (by simp [Except.isOk, Except.toBool])
      | ok x₂ =>
          have hsame : verdicts env lateNode [quietTurn] = verdicts env lateNode [hintedTurn] := by
            decide +kernel
          have hblocks : [quietTurn].map (fun t => (t.block, t.skip)) =
              [hintedTurn].map (fun t => (t.block, t.skip)) := rfl
          exact ⟨x₁, x₂, rfl, rfl, replay_deterministic hblocks rfl rfl hsame h₁ h₂⟩

end Database

end VizNode
