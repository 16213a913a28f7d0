import VizNode.Protocol
import Mathlib.Logic.Function.Basic

/-!
# `VizNode.Validators.Guard` — does the guard undo its own shutdown?

The guard restores the signing key of a validator of its own when the key is null on chain, and sets it to null when
the validator has produced too many blocks in a row. **What keeps the two apart is a mark**: a validator that the guard
has disabled is not restored.

The mark is set when the transaction is broadcast, and taken away by every check that sees a key. Until the
transaction is in a block every check sees the old key. So the mark is lost if a check runs in between, and one may
run in the call that has just sent the transaction. Then the guard finds the null key it has asked for, and restores
the old one.

The log of the model remembers how keys moved on chain and what was broadcast.

## Contents
- **The guard.** `State`, the sends, `checkAndRestore`, `onAppliedBlock`.
- **Runs.** `System.step`, `start`.
- **What should hold.** `Released`, `NeverUndone`, and `Calm`, when it does.
- **Steps and runs.** `Marked`, `guard_keeps_disabled`, and samples.
-/

namespace VizNode

namespace Guard

/-! ## The guard -/

/-- The options, and the validators that are monitored with the keys they are restored to. -/
structure Options where
  checkInterval    : Nat := 20
  disableThreshold : Nat := 5
  validators       : List (AccountName × PublicKey)

/-- `_validator_configs.count`. -/
def Options.monitors (o : Options) (name : AccountName) : Bool := o.validators.any fun p => decide (p.1 = name)

/-- The members of the plugin that change. -/
structure State (Id : Type) where
  initialCheckDone      : Bool := false
  staleProductionConfig : Bool := false
  consecutiveBlocks     : AccountName → Nat := fun _ => 0
  autoDisabled          : List AccountName := []
  restorePending        : AccountName → Option Nat := fun _ => none
  pendingConfirmations  : List (Id × AccountName × Nat) := []

/-- A signing key changes on chain: a `validator_update` of a transaction, or, without one, the chain itself (a block
    is popped). -/
structure KeyMove (Id : Type) where
  owner : AccountName
  key   : PublicKey
  tx    : Option Id
deriving DecidableEq

/-- What is remembered: a key has moved, a transaction that disables or restores a validator was broadcast. -/
inductive Event (Id : Type) where
  | moved (m : KeyMove Id)
  | disabled (name : AccountName) (id : Id)
  | restored (name : AccountName) (id : Id)
deriving DecidableEq

/-- The state of the chain that a check reads. -/
structure View where
  now               : Nat
  headTime          : Nat
  libTime           : Option Nat
  emergencyActive   : Bool := false
  participationRate : Nat := 10000

/-- The id of a transaction that is made now, and whether it can be broadcast. -/
structure Outbox (Id : Type) where
  txId  : AccountName → PublicKey → Id
  works : AccountName → Bool

/-- The signing keys on chain; there is none for a name that is no validator. The null key is zero. -/
abbrev Keys := AccountName → Option PublicKey

/-- The plugin with what it has done. -/
abbrev Work (Id : Type) := State Id × List (Event Id)

section Functions

variable {Id : Type} [DecidableEq Id]

/-- `send_validator_update`. -/
def sendValidatorUpdate (out : Outbox Id) (now : Nat) (name : AccountName) (key : PublicKey) (w : Work Id) : Work Id :=
  let id      := out.txId name key
  let pending := if 1000 < w.1.pendingConfirmations.length then [] else w.1.pendingConfirmations
  if out.works name then
    ({ w.1 with
        restorePending       := Function.update w.1.restorePending name (some (now + 30))
        pendingConfirmations := (id, name, now + 30) :: pending.filter fun p => decide (p.1 ≠ id) },
      w.2 ++ [.restored name id])
  else ({ w.1 with pendingConfirmations := pending }, w.2)

/-- `send_validator_disable`: the validator is marked. -/
def sendValidatorDisable (out : Outbox Id) (name : AccountName) (w : Work Id) : Work Id :=
  if out.works name then
    ({ w.1 with autoDisabled := name :: w.1.autoDisabled }, w.2 ++ [.disabled name (out.txId name 0)])
  else w

/-- Transactions that have expired are forgotten. -/
def expirePending (now : Nat) (s : State Id) : State Id :=
  let expired := s.pendingConfirmations.filter fun p => decide (p.2.2 < now)
  { s with
    restorePending       := fun name =>
      if expired.any fun p => decide (p.2.1 = name) then none else s.restorePending name
    pendingConfirmations := s.pendingConfirmations.filter fun p => decide (¬ p.2.2 < now) }

/-- A validator is checked. With a key on chain it needs nothing, and is not marked any more. -/
def checkValidator (out : Outbox Id) (now : Nat) (keys : Keys) (w : Work Id) (p : AccountName × PublicKey) : Work Id :=
  match keys p.1 with
  | none     => w
  | some key =>
      if key ≠ 0 then
        ({ w.1 with
            restorePending := Function.update w.1.restorePending p.1 none
            autoDisabled   := w.1.autoDisabled.filter fun name => decide (name ≠ p.1) }, w.2)
      else if p.1 ∈ w.1.autoDisabled then w
      else
        match w.1.restorePending p.1 with
        | none            => sendValidatorUpdate out now p.1 p.2 w
        | some expiration => if now ≤ expiration then w else sendValidatorUpdate out now p.1 p.2 w

/-- The override for stale production ends when a third of the network takes part. -/
def clearStale (v : View) (s : State Id) : State Id :=
  if s.staleProductionConfig && !v.emergencyActive && decide (3300 ≤ v.participationRate) then
    { s with staleProductionConfig := false }
  else s

omit [DecidableEq Id] in
/-- The head is recent and so is the last irreversible block, if it is found. -/
def inSync (v : View) (s : State Id) : Bool :=
  !(s.staleProductionConfig && !v.emergencyActive) && !decide (v.headTime + 6 < v.now) &&
    match v.libTime with
    | none   => true
    | some t => !decide (t + 200 < v.now)

/-- **`check_and_restore_internal`**, with its answer: was the check performed? -/
def checkAndRestore (o : Options) (out : Outbox Id) (v : View) (keys : Keys) (w : Work Id) : Bool × Work Id :=
  let s := clearStale v w.1
  if inSync v s then (true, o.validators.foldl (checkValidator out v.now keys) (expirePending v.now s, w.2))
  else (false, (s, w.2))

/-- A block that has been applied, the keys that have moved since the last one, and what the handler reads then. -/
structure Applied (Id : Type) where
  num       : Nat
  producer  : AccountName
  txs       : List Id := []
  moves     : List (KeyMove Id) := []
  scheduled : List AccountName
  view      : View
  out       : Outbox Id

/-- The blocks in a row of the validators that are monitored. -/
def countBlock (o : Options) (producer : AccountName) (s : State Id) : State Id :=
  { s with
    consecutiveBlocks := fun name =>
      if 0 < o.disableThreshold ∧ o.monitors producer = true ∧ name = producer then s.consecutiveBlocks name + 1
      else 0 }

/-- Step 0: a validator that has produced too many blocks is disabled. -/
def autoDisable (o : Options) (x : Applied Id) (keys : Keys) (w : Work Id) : Work Id :=
  let s := countBlock o x.producer w.1
  if 0 < o.disableThreshold ∧ o.monitors x.producer = true ∧
      o.disableThreshold ≤ s.consecutiveBlocks x.producer ∧ x.producer ∉ s.autoDisabled ∧ (keys x.producer).isSome then
    sendValidatorDisable x.out x.producer (s, w.2)
  else (s, w.2)

/-- Step 1: transactions of the guard that are in the block. -/
def confirm (txs : List Id) (s : State Id) : State Id :=
  let confirmed := s.pendingConfirmations.filter fun p => decide (p.1 ∈ txs)
  { s with
    restorePending       := fun name =>
      if confirmed.any fun p => decide (p.2.1 = name) then none else s.restorePending name
    pendingConfirmations := s.pendingConfirmations.filter fun p => decide (p.1 ∉ txs) }

omit [DecidableEq Id] in
/-- Step 2: one of the validators produces within three slots. -/
def scheduledSoon (o : Options) (x : Applied Id) (s : State Id) : Bool :=
  s.initialCheckDone && x.scheduled.any o.monitors

/-- Steps 0 and 1. -/
def beforeCheck (o : Options) (x : Applied Id) (keys : Keys) (w : Work Id) : Work Id :=
  let w := autoDisable o x keys w
  (confirm x.txs w.1, w.2)

/-- **The handler of `applied_block`.** -/
def onAppliedBlock (o : Options) (x : Applied Id) (keys : Keys) (w : Work Id) : Work Id :=
  let w := beforeCheck o x keys w
  if scheduledSoon o x w.1 then (checkAndRestore o x.out x.view keys w).2
  else if w.1.initialCheckDone = false ∧ x.num % 10 = 0 then
    let r := checkAndRestore o x.out x.view keys w
    if r.1 then ({ r.2.1 with initialCheckDone := true }, r.2.2) else r.2
  else if x.num % o.checkInterval = 0 then (checkAndRestore o x.out x.view keys w).2
  else w

/-! ## Runs -/

/-- The guard, the keys on chain, and what has happened. -/
structure System (Id : Type) where
  guard : State Id
  keys  : Keys
  log   : List (Event Id)

/-- A key moves. -/
def moveKey (keys : Keys) (m : KeyMove Id) : Keys := Function.update keys m.owner (some m.key)

/-- A block is applied: the keys move, and the guard is told. -/
def System.step (o : Options) (s : System Id) (x : Applied Id) : System Id :=
  let keys := x.moves.foldl moveKey s.keys
  let w    := onAppliedBlock o x keys (s.guard, s.log ++ x.moves.map .moved)
  { guard := w.1, keys := keys, log := w.2 }

/-- `plugin_startup`: a first check, of a guard that has done nothing. -/
def start (o : Options) (stale : Bool) (out : Outbox Id) (v : View) (keys : Keys) : System Id :=
  let r := checkAndRestore o out v keys ({ staleProductionConfig := stale }, [])
  { guard := { r.2.1 with initialCheckDone := r.1 }, keys := keys, log := r.2.2 }

/-- The blocks of a run. -/
def run (o : Options) (s : System Id) (xs : List (Applied Id)) : System Id := xs.foldl (System.step o) s

end Functions

/-! ## What should hold -/

section Claims

variable {Id : Type}

/-- **The validator may be restored again**: after the transaction `id` took effect, a transaction that is none of the
    guard's has set the key. -/
def Released (before later : List (Event Id)) (name : AccountName) (id : Id) : Prop :=
  ∃ a m b m' c other, later = a ++ .moved m :: (b ++ .moved m' :: c) ∧ m.owner = name ∧ m.tx = some id ∧
    m'.owner = name ∧ m'.key ≠ 0 ∧ m'.tx = some other ∧
    ∀ n, Event.restored n other ∉ before ++ .disabled name id :: (a ++ .moved m :: b)

/-- The guard has disabled the validator, and nobody has released it since. -/
def Unreleased (log : List (Event Id)) (name : AccountName) : Prop :=
  ∃ before id later, log = before ++ .disabled name id :: later ∧ ¬ Released before later name id

/-- **The guard never undoes its own shutdown.** -/
def NeverUndone (log : List (Event Id)) : Prop :=
  ∀ before name id after, log = before ++ .restored name id :: after → ¬ Unreleased before name

end Claims

section Condition

variable {Id : Type} [DecidableEq Id]

/-- The keys after a block. -/
def keysAfter (s : System Id) (x : Applied Id) : Keys := x.moves.foldl moveKey s.keys

/-- The guard when it decides on a check. -/
def atCheck (o : Options) (s : System Id) (x : Applied Id) : Work Id :=
  beforeCheck o x (keysAfter s x) (s.guard, s.log ++ x.moves.map .moved)

/-- A check is due, and it is performed. -/
def checks (o : Options) (s : System Id) (x : Applied Id) : Bool :=
  let g := (atCheck o s x).1
  (scheduledSoon o x g || (!g.initialCheckDone && decide (x.num % 10 = 0)) || decide (x.num % o.checkInterval = 0)) &&
    inSync x.view (clearStale x.view g)

/-- The validator has a key on chain. -/
def hasKey (keys : Keys) (name : AccountName) : Bool :=
  match keys name with
  | none     => false
  | some key => decide (key ≠ 0)

/-- **No check sees the key of a validator that is marked**, unless it has been released. -/
def Calm (o : Options) (s : System Id) (x : Applied Id) : Prop :=
  checks o s x = true → ∀ p ∈ o.validators, hasKey (keysAfter s x) p.1 = true →
    p.1 ∈ (atCheck o s x).1.autoDisabled → ¬ Unreleased (atCheck o s x).2 p.1

/-- At every block of a run. -/
def CalmRun (o : Options) : System Id → List (Applied Id) → Prop
  | _, []      => True
  | s, x :: xs => Calm o s x ∧ CalmRun o (s.step o x) xs

end Condition

/-! ## Steps and runs -/

section Invariant

variable {Id : Type}

theorem Released.append {before later : List (Event Id)} {name : AccountName} {id : Id}
    (h : Released before later name id) (more : List (Event Id)) : Released before (later ++ more) name id := by
  obtain ⟨a, m, b, m', c, other, hlater, howner, htx, howner', hkey, htx', hnot⟩ := h
  refine ⟨a, m, b, m', c ++ more, other, ?_, howner, htx, howner', hkey, htx', hnot⟩
  rw [hlater]
  simp

/-- One more event: it disables the validator, or the validator was waiting before. -/
theorem unreleased_snoc {log : List (Event Id)} {e : Event Id} {name : AccountName}
    (h : Unreleased (log ++ [e]) name) : Unreleased log name ∨ ∃ id, e = .disabled name id := by
  obtain ⟨before, id, later, hlog, hnot⟩ := h
  rcases List.eq_nil_or_concat later with rfl | ⟨rest, x, rfl⟩
  · right
    refine ⟨id, ?_⟩
    have hlast := congrArg List.getLast? hlog
    simpa using hlast
  · left
    rw [List.concat_eq_append] at hlog hnot
    rw [← List.cons_append, ← List.append_assoc] at hlog
    obtain ⟨hinit, hx⟩ := List.append_inj' hlog rfl
    exact ⟨before, id, rest, hinit, fun hr => hnot (hr.append [x])⟩

theorem neverUndone_snoc {log : List (Event Id)} {e : Event Id} (h : NeverUndone log)
    (he : ∀ name id, e = .restored name id → ¬ Unreleased log name) : NeverUndone (log ++ [e]) := by
  intro before name id after hlog
  rcases List.eq_nil_or_concat after with rfl | ⟨rest, x, rfl⟩
  · obtain ⟨rfl, hx⟩ := List.append_inj' hlog rfl
    exact he name id (List.singleton_inj.mp hx)
  · rw [List.concat_eq_append, ← List.cons_append, ← List.append_assoc] at hlog
    obtain ⟨hinit, -⟩ := List.append_inj' hlog rfl
    exact h before name id rest hinit

/-- **Whoever has been disabled and not released is marked**, and nothing has been undone. -/
structure Marked (w : Work Id) : Prop where
  marks  : ∀ name, Unreleased w.2 name → name ∈ w.1.autoDisabled
  undone : NeverUndone w.2

/-- Keys move on chain. -/
theorem Marked.moved {g : State Id} {log : List (Event Id)} (h : Marked (g, log)) (moves : List (KeyMove Id)) :
    Marked (g, log ++ moves.map .moved) := by
  induction moves generalizing log with
  | nil => simpa using h
  | cons m ms ih =>
      have hone : Marked (g, log ++ [.moved m]) := by
        constructor
        · intro name hname
          rcases unreleased_snoc hname with hname | ⟨id, he⟩
          · exact h.marks name hname
          · cases he
        · apply neverUndone_snoc h.undone
          intro name id he
          cases he
      have := ih hone
      simpa using this

/-- What the marks do not depend on. -/
theorem Marked.congr {w w' : Work Id} (h : Marked w) (hlog : w'.2 = w.2)
    (hmarks : w'.1.autoDisabled = w.1.autoDisabled) : Marked w' := by
  constructor
  · intro name hname
    rw [hmarks]
    exact h.marks name (hlog ▸ hname)
  · exact hlog ▸ h.undone

variable [DecidableEq Id]

omit [DecidableEq Id] in
/-- A validator that is disabled is marked. -/
theorem Marked.disable {w : Work Id} (h : Marked w) (out : Outbox Id) (name : AccountName) :
    Marked (sendValidatorDisable out name w) := by
  unfold sendValidatorDisable
  by_cases hworks : out.works name = true
  · rw [if_pos hworks]
    constructor
    · intro other hother
      rcases unreleased_snoc hother with hother | ⟨id, he⟩
      · exact List.mem_cons_of_mem name (h.marks other hother)
      · cases he
        exact List.mem_cons_self
    · apply neverUndone_snoc h.undone
      intro other id he
      cases he
  · rw [if_neg hworks]
    exact h

/-- A validator without a mark is restored. -/
theorem Marked.update {w : Work Id} (h : Marked w) (out : Outbox Id) (now : Nat) {name : AccountName} (key : PublicKey)
    (hname : name ∉ w.1.autoDisabled) : Marked (sendValidatorUpdate out now name key w) := by
  unfold sendValidatorUpdate
  dsimp only
  by_cases hworks : out.works name = true
  · rw [if_pos hworks]
    constructor
    · intro other hother
      rcases unreleased_snoc hother with hother | ⟨id, he⟩
      · exact h.marks other hother
      · cases he
    · apply neverUndone_snoc h.undone
      intro other id he
      cases he
      exact fun hwaits => hname (h.marks name hwaits)
  · rw [if_neg hworks]
    exact h.congr rfl rfl

/-- Restoring a validator leaves the marks alone, and makes nobody wait. -/
theorem sendValidatorUpdate_frame (out : Outbox Id) (now : Nat) (name : AccountName) (key : PublicKey) (w : Work Id) :
    (sendValidatorUpdate out now name key w).1.autoDisabled = w.1.autoDisabled ∧
      ∀ other, Unreleased (sendValidatorUpdate out now name key w).2 other → Unreleased w.2 other := by
  unfold sendValidatorUpdate
  dsimp only
  by_cases hworks : out.works name = true
  · rw [if_pos hworks]
    refine ⟨rfl, fun other hother => ?_⟩
    rcases unreleased_snoc hother with hother | ⟨id, he⟩
    · exact hother
    · cases he
  · rw [if_neg hworks]
    exact ⟨rfl, fun _ hother => hother⟩

/-- What a check of one validator can do: it takes the mark of a validator with a key, or it restores one that is not
    marked, or it does neither. -/
theorem checkValidator_cases (out : Outbox Id) (now : Nat) (keys : Keys) (w : Work Id) (p : AccountName × PublicKey) :
    (hasKey keys p.1 = true ∧ (checkValidator out now keys w p).2 = w.2 ∧
      (checkValidator out now keys w p).1.autoDisabled = w.1.autoDisabled.filter fun n => decide (n ≠ p.1)) ∨
    (p.1 ∉ w.1.autoDisabled ∧ checkValidator out now keys w p = sendValidatorUpdate out now p.1 p.2 w) ∨
    checkValidator out now keys w p = w := by
  unfold checkValidator hasKey
  cases hkey : keys p.1 with
  | none => exact .inr (.inr rfl)
  | some key =>
      dsimp only
      by_cases hzero : key ≠ 0
      · rw [if_pos hzero]
        exact .inl ⟨decide_eq_true hzero, rfl, rfl⟩
      · rw [if_neg hzero]
        by_cases hmark : p.1 ∈ w.1.autoDisabled
        · rw [if_pos hmark]
          exact .inr (.inr rfl)
        · rw [if_neg hmark]
          cases w.1.restorePending p.1 with
          | none => exact .inr (.inl ⟨hmark, rfl⟩)
          | some expiration =>
              dsimp only
              by_cases hnow : now ≤ expiration
              · rw [if_pos hnow]
                exact .inr (.inr rfl)
              · rw [if_neg hnow]
                exact .inr (.inl ⟨hmark, rfl⟩)

/-- **A check keeps the marks that are needed**, if nobody with a key on chain needs one. -/
theorem Marked.checkAll {out : Outbox Id} {now : Nat} {keys : Keys} (ps : List (AccountName × PublicKey)) {w : Work Id}
    (h : Marked w)
    (hcalm : ∀ p ∈ ps, hasKey keys p.1 = true → p.1 ∈ w.1.autoDisabled → ¬ Unreleased w.2 p.1) :
    Marked (ps.foldl (checkValidator out now keys) w) := by
  induction ps generalizing w with
  | nil => exact h
  | cons p ps ih =>
      rw [List.foldl_cons]
      have hrest : ∀ q ∈ ps, hasKey keys q.1 = true → q.1 ∈ w.1.autoDisabled → ¬ Unreleased w.2 q.1 :=
        fun q hq => hcalm q (List.mem_cons_of_mem p hq)
      rcases checkValidator_cases out now keys w p with ⟨hkey, hlog, hmarks⟩ | ⟨hmark, heq⟩ | heq
      · -- the mark of `p` is taken, and `p` was not waiting
        have hfree : ¬ Unreleased w.2 p.1 := by
          by_cases hmark : p.1 ∈ w.1.autoDisabled
          · exact hcalm p List.mem_cons_self hkey hmark
          · exact fun hwaits => hmark (h.marks p.1 hwaits)
        apply ih
        · constructor
          · intro name hname
            rw [hlog] at hname
            rw [hmarks]
            refine List.mem_filter.mpr ⟨h.marks name hname, decide_eq_true ?_⟩
            rintro rfl
            exact hfree hname
          · exact hlog ▸ h.undone
        · intro q hq hqkey hqmark
          rw [hmarks] at hqmark
          rw [hlog]
          exact hrest q hq hqkey (List.mem_filter.mp hqmark).1
      · rw [heq]
        obtain ⟨hmarks, hwaits⟩ := sendValidatorUpdate_frame out now p.1 p.2 w
        apply ih (h.update out now p.2 hmark)
        intro q hq hqkey hqmark hq'
        rw [hmarks] at hqmark
        exact hrest q hq hqkey hqmark (hwaits q.1 hq')
      · rw [heq]
        exact ih h hrest

omit [DecidableEq Id] in
theorem clearStale_autoDisabled (v : View) (g : State Id) : (clearStale v g).autoDisabled = g.autoDisabled := by
  unfold clearStale
  split <;> rfl

/-- A check that is performed or not. -/
theorem Marked.check {o : Options} {out : Outbox Id} {v : View} {keys : Keys} {w : Work Id} (h : Marked w)
    (hcalm : inSync v (clearStale v w.1) = true → ∀ p ∈ o.validators, hasKey keys p.1 = true →
      p.1 ∈ w.1.autoDisabled → ¬ Unreleased w.2 p.1) :
    Marked (checkAndRestore o out v keys w).2 := by
  unfold checkAndRestore
  dsimp only
  have hstale : Marked (clearStale v w.1, w.2) := h.congr rfl (clearStale_autoDisabled v w.1)
  by_cases hsync : inSync v (clearStale v w.1) = true
  · rw [if_pos hsync]
    apply Marked.checkAll o.validators (w := (expirePending v.now (clearStale v w.1), w.2)) (hstale.congr rfl rfl)
    intro p hp hkey hmark
    have hmark' : p.1 ∈ (clearStale v w.1).autoDisabled := hmark
    rw [clearStale_autoDisabled] at hmark'
    exact hcalm hsync p hp hkey hmark'
  · rw [if_neg hsync]
    exact hstale

theorem Marked.beforeCheck {o : Options} {x : Applied Id} {keys : Keys} {w : Work Id} (h : Marked w) :
    Marked (beforeCheck o x keys w) := by
  have hcount : Marked (countBlock o x.producer w.1, w.2) := h.congr rfl rfl
  have hdisable : Marked (autoDisable o x keys w) := by
    unfold autoDisable
    dsimp only
    split
    · exact hcount.disable x.out x.producer
    · exact hcount
  exact hdisable.congr rfl rfl

/-- **One block.** -/
theorem Marked.step {o : Options} {s : System Id} {x : Applied Id} (h : Marked (s.guard, s.log))
    (hcalm : Calm o s x) : Marked ((s.step o x).guard, (s.step o x).log) := by
  have hbefore : Marked (atCheck o s x) := (h.moved x.moves).beforeCheck
  show Marked (onAppliedBlock o x (keysAfter s x) (s.guard, s.log ++ x.moves.map .moved))
  unfold Calm checks at hcalm
  unfold onAppliedBlock
  dsimp only
  change Marked (if scheduledSoon o x (atCheck o s x).1 then _ else _)
  by_cases hsoon : scheduledSoon o x (atCheck o s x).1 = true
  · rw [if_pos hsoon]
    exact hbefore.check fun hsync => hcalm (by simp [hsoon, hsync])
  · rw [if_neg hsoon]
    by_cases hprobe : (atCheck o s x).1.initialCheckDone = false ∧ x.num % 10 = 0
    · change Marked (if (atCheck o s x).1.initialCheckDone = false ∧ x.num % 10 = 0 then _ else _)
      rw [if_pos hprobe]
      have hchecked : Marked (checkAndRestore o x.out x.view (keysAfter s x) (atCheck o s x)).2 :=
        hbefore.check fun hsync => hcalm (by simp [hprobe.1, hprobe.2, hsync])
      change Marked (if (checkAndRestore o x.out x.view (keysAfter s x) (atCheck o s x)).1 then _ else _)
      split
      · exact hchecked.congr rfl rfl
      · exact hchecked
    · change Marked (if (atCheck o s x).1.initialCheckDone = false ∧ x.num % 10 = 0 then _ else _)
      rw [if_neg hprobe]
      by_cases hperiod : x.num % o.checkInterval = 0
      · rw [if_pos hperiod]
        exact hbefore.check fun hsync => hcalm (by simp [hperiod, hsync])
      · rw [if_neg hperiod]
        exact hbefore

theorem start_marked (o : Options) (stale : Bool) (out : Outbox Id) (v : View) (keys : Keys) :
    Marked ((start o stale out v keys).guard, (start o stale out v keys).log) := by
  have hfresh : Marked ((({ staleProductionConfig := stale } : State Id), []) : Work Id) := by
    constructor
    · rintro name ⟨before, id, later, hlog, -⟩
      simp at hlog
    · intro before name id after hlog
      simp at hlog
  have hchecked : Marked (checkAndRestore o out v keys ({ staleProductionConfig := stale }, [])).2 :=
    hfresh.check fun _ p _ _ hmark => absurd hmark List.not_mem_nil
  exact hchecked.congr rfl rfl

/-- **A guard whose checks see no key of a marked validator never undoes its own shutdown.** The run starts with the
    plugin; blocks are applied in any order, with any keys moved, by anybody, in between. -/
theorem guard_keeps_disabled (o : Options) (stale : Bool) (out : Outbox Id) (v : View) (keys : Keys)
    (xs : List (Applied Id)) (hcalm : CalmRun o (start o stale out v keys) xs) :
    NeverUndone (run o (start o stale out v keys) xs).log := by
  have hrun : ∀ (xs : List (Applied Id)) (s : System Id), Marked (s.guard, s.log) → CalmRun o s xs →
      Marked ((run o s xs).guard, (run o s xs).log) := by
    intro xs
    induction xs with
    | nil => exact fun s h _ => h
    | cons x xs ih =>
        intro s h hc
        exact ih (s.step o x) (h.step hc.1) hc.2
  exact (hrun xs _ (start_marked o stale out v keys) hcalm).undone

/-- No check is performed, or it sees no key. -/
def harmless (o : Options) (s : System Id) (x : Applied Id) : Bool :=
  !checks o s x || o.validators.all fun p => !hasKey (keysAfter s x) p.1

def harmlessRun (o : Options) : System Id → List (Applied Id) → Bool
  | _, []      => true
  | s, x :: xs => harmless o s x && harmlessRun o (s.step o x) xs

theorem calm_of_harmless {o : Options} {s : System Id} {x : Applied Id} (h : harmless o s x = true) : Calm o s x := by
  intro hchecks p hp hkey
  unfold harmless at h
  rw [hchecks, Bool.not_true, Bool.false_or] at h
  have hno := List.all_eq_true.mp h p hp
  rw [hkey] at hno
  cases hno

theorem calmRun_of_harmless {o : Options} {s : System Id} {xs : List (Applied Id)} (h : harmlessRun o s xs = true) :
    CalmRun o s xs := by
  induction xs generalizing s with
  | nil => trivial
  | cons x xs ih =>
      obtain ⟨hx, hxs⟩ := Bool.and_eq_true_iff.mp h
      exact ⟨calm_of_harmless hx, ih hxs⟩

end Invariant

end Guard

/-! ## Samples -/

namespace Sample

open Guard

/-- Validator 7 is monitored, and restored to key 70. -/
def guardOptions : Options := { validators := [(7, 70)] }

/-- The transaction that disables is number 1, one that restores is number 2. -/
def guardOutbox : Outbox Nat := { txId := fun _ key => if key = 0 then 1 else 2, works := fun _ => true }

def guardView (num : Nat) : View := { now := 3 * num, headTime := 3 * num, libTime := none }

/-- Block `num` of validator `producer`, with these validators in the next slots. -/
def guardBlock (num : Nat) (producer : AccountName) (scheduled : List AccountName) (moves : List (KeyMove Nat)) :
    Applied Nat :=
  { num := num, producer := producer, moves := moves, scheduled := scheduled, view := guardView num
    out := guardOutbox }

/-- The guard starts while validator 7 has its key. -/
def guardStart : System Nat :=
  start guardOptions false guardOutbox (guardView 100) fun name => if name = 7 then some 70 else none

/-- Validator 7 produces five blocks, then another validator one that brings the transaction. -/
def shutdownRun (scheduled : List AccountName) : List (Applied Nat) :=
  [guardBlock 101 7 scheduled [], guardBlock 102 7 scheduled [], guardBlock 103 7 scheduled [],
    guardBlock 104 7 scheduled [], guardBlock 105 7 scheduled [], guardBlock 106 8 [7] [⟨7, 0, some 1⟩]]

end Sample

namespace Guard

open Sample

/-- Nobody looks before the transaction is in a block. -/
theorem guard_keeps_disabled_sample :
    NeverUndone (run guardOptions guardStart (shutdownRun [8])).log ∧
      (run guardOptions guardStart (shutdownRun [8])).log = [.disabled 7 1, .moved ⟨7, 0, some 1⟩] := by
  refine ⟨?_, by decide +kernel⟩
  apply guard_keeps_disabled
  apply calmRun_of_harmless
  decide +kernel

/-- **The guard restores what it has just disabled**: validator 7 is scheduled again, so the call that sends the
    transaction checks the key and takes the mark away. The next block brings the null key, and the guard sends the
    old one. -/
theorem guard_undoes_shutdown :
    (run guardOptions guardStart (shutdownRun [7])).log = [.disabled 7 1, .moved ⟨7, 0, some 1⟩, .restored 7 2] ∧
      ¬ NeverUndone (run guardOptions guardStart (shutdownRun [7])).log := by
  have hlog : (run guardOptions guardStart (shutdownRun [7])).log =
      [.disabled 7 1, .moved ⟨7, 0, some 1⟩, .restored 7 2] := by decide +kernel
  refine ⟨hlog, fun hnever => ?_⟩
  rw [hlog] at hnever
  apply hnever [.disabled 7 1, .moved ⟨7, 0, some 1⟩] 7 2 [] rfl
  refine ⟨[], 1, [.moved ⟨7, 0, some 1⟩], rfl, ?_⟩
  -- nobody has set a key
  rintro ⟨a, m, b, m', c, other, hlater, -, -, -, hkey, -, -⟩
  have hmem : Event.moved m' ∈ ([.moved ⟨7, 0, some 1⟩] : List (Event Nat)) := by
    rw [hlater]
    simp
  have hm : m' = ⟨7, 0, some 1⟩ := by simpa using hmem
  exact hkey (by rw [hm])

end Guard

end VizNode
