import VizNode.Chain.Layers

/-!
# `VizNode.Chain.Quorum` — who has confirmed an irreversible block?

A confirmation object lists the slots of the schedule at its block's creation, without the producer's. A
confirmation marks *every* slot its account holds, and the object raises the last irreversible block when
enough *slots* are marked.

**Slots are not accounts.** After the end of the emergency mode the committee holds every slot without an
available validator, and its single confirmation counts for all of them. With one scheduled validator the
threshold is zero. `Event.OneSlotEach` excludes exactly these two, and on a run whose raises all meet it
there is a quorum of distinct accounts behind every raise.

## Contents
- **Backing.** `Backed M chain o`: the object belongs to an applied block, and each mark to a message in `M`.
- **Steps.** Every tick, move and step keeps the objects of *all* layers backed.
- **Runs.** `Confirmed`, the messages of a run, and `raised_quorum`.
-/

namespace VizNode

/-! ## Backing -/

section Backing

variable {Tx : Type}

/-- The accounts of the marked slots. -/
def ValidatorConfirmation.confirmers (o : ValidatorConfirmation) : List AccountName :=
  (o.slots.filter (·.2)).map (·.1)

/-- **The object belongs to a block of the chain, and every mark in it to a message in `M`.** Only the
    padding can carry the producer's name. -/
structure Backed (M : BlockId → AccountName → Prop) (chain : List (SignedBlock Tx))
    (o : ValidatorConfirmation) : Prop where
  block  : ∃ b ∈ chain, b.id = o.blockId ∧ b.blockNum = o.blockNum ∧
    ∀ p ∈ o.slots, p.1 = b.validator → p.1 = 0
  marked : ∀ p ∈ o.slots, p.2 = true → M o.blockId p.1

theorem Backed.mono {M M' : BlockId → AccountName → Prop} {chain chain' : List (SignedBlock Tx)}
    {o : ValidatorConfirmation} (h : Backed M chain o) (hM : ∀ id a, M id a → M' id a)
    (hc : ∀ b ∈ chain, b ∈ chain') : Backed M' chain' o := by
  obtain ⟨b, hb, hrest⟩ := h.block
  exact ⟨⟨b, hc b hb, hrest⟩, fun p hp hm => hM _ _ (h.marked p hp hm)⟩

/-- A new object is backed by its block alone. -/
theorem backed_newConfirmation (M : BlockId → AccountName → Prop) {chain : List (SignedBlock Tx)}
    {b : SignedBlock Tx} (hb : b ∈ chain) (schedule : ValidatorSchedule) :
    Backed M chain (Database.newConfirmation b.blockNum b.id b.validator schedule) := by
  have hslots : ∀ p ∈ (Database.newConfirmation b.blockNum b.id b.validator schedule).slots,
      p.2 = false ∧ (p.1 = b.validator → p.1 = 0) := by
    intro p hp
    rcases List.mem_append.mp hp with hp | hp
    · obtain ⟨n, hn, rfl⟩ := List.mem_map.mp hp
      have hne : n ≠ b.validator := by simpa using (List.mem_filter.mp hn).2
      exact ⟨rfl, fun heq => absurd heq hne⟩
    · rw [List.eq_of_mem_replicate hp]
      exact ⟨rfl, fun _ => rfl⟩
  refine ⟨⟨b, hb, rfl, rfl, fun p hp => (hslots p hp).2⟩, fun p hp hm => ?_⟩
  exact absurd hm (by simp [(hslots p hp).1])

/-- A mark needs the message. -/
theorem Backed.mark {M : BlockId → AccountName → Prop} {chain : List (SignedBlock Tx)}
    {o : ValidatorConfirmation} (h : Backed M chain o) {account : AccountName}
    (hm : M o.blockId account) : Backed M chain (o.mark account) := by
  have hslot : ∀ p ∈ (o.mark account).slots, ∃ q ∈ o.slots, p.1 = q.1 ∧ (p.2 = true → q.2 = true ∨ q.1 = account) := by
    intro p hp
    obtain ⟨q, hq, rfl⟩ := List.mem_map.mp hp
    refine ⟨q, hq, ?_⟩
    split
    · next heq => exact ⟨rfl, fun _ => .inr heq⟩
    · exact ⟨rfl, .inl⟩
  obtain ⟨b, hb, hid, hnum, hpad⟩ := h.block
  refine ⟨⟨b, hb, hid, hnum, fun p hp heq => ?_⟩, fun p hp hmark => ?_⟩
  · obtain ⟨q, hq, hpq, -⟩ := hslot p hp
    rw [hpq] at heq ⊢
    exact hpad q hq heq
  · obtain ⟨q, hq, hpq, hor⟩ := hslot p hp
    rw [hpq]
    rcases hor hmark with hq' | hq'
    · exact h.marked q hq hq'
    · rw [hq']
      exact hm

/-- **What the journal says about a raise**: the object was backed and had enough marks. -/
def Event.RaisedBy (M : BlockId → AccountName → Prop) : Event Tx → Prop
  | .raised lib o schedule chain => 1 + lib = o.blockNum ∧
      schedule.numScheduledValidators * Config.irreversibleThreshold / Config.hundredPercent ≤ o.count ∧
      Backed M (chain.map (·.block)) o
  | _ => True

theorem Event.RaisedBy.mono {M M' : BlockId → AccountName → Prop} {e : Event Tx} (h : e.RaisedBy M)
    (hM : ∀ id a, M id a → M' id a) : e.RaisedBy M' := by
  cases e with
  | raised lib o schedule chain => exact ⟨h.1, h.2.1, h.2.2.mono hM fun _ hb => hb⟩
  | finalizing _ _ _ _ => trivial
  | appended _ _ => trivial

end Backing

namespace Database

open Prog Relation UndoDb

variable {Tx L : Type} {U : SignedBlock Tx → Prop} {M : BlockId → AccountName → Prop}
  {db db' : Database Tx L} {env : Env Tx L}

/-- Every object of the state is backed. -/
def ObjectsBacked (M : BlockId → AccountName → Prop) (s : ChainState Tx L) : Prop :=
  ∀ o ∈ s.fin.confirmations, Backed M s.chain o

/-- **Every object of every layer is backed, and so was every raise.** -/
structure QuorumKept (M : BlockId → AccountName → Prop) (db : Database Tx L) : Prop where
  layers  : ∀ s ∈ db.chainbase.layers, ObjectsBacked M s
  journal : ∀ e ∈ db.journal, e.RaisedBy M

theorem QuorumKept.state (h : QuorumKept M db) : ObjectsBacked M db.state :=
  h.layers _ (state_mem_layers _)

theorem QuorumKept.mono {M' : BlockId → AccountName → Prop} (h : QuorumKept M db)
    (hM : ∀ id a, M id a → M' id a) : QuorumKept M' db :=
  ⟨fun s hs o ho => (h.layers s hs o ho).mono hM fun _ hb => hb, fun e he => (h.journal e he).mono hM⟩

/-- The layers may shrink. -/
theorem QuorumKept.of_subset (h : QuorumKept M db)
    (hl : ∀ s ∈ db'.chainbase.layers, s ∈ db.chainbase.layers) (hj : db'.journal = db.journal) :
    QuorumKept M db' := ⟨fun s hs => h.layers s (hl s hs), hj ▸ h.journal⟩

/-- The newest layer may be rewritten, as long as its objects are backed. -/
theorem QuorumKept.modify (h : QuorumKept M db) {f : ChainState Tx L → ChainState Tx L}
    (hc : db'.chainbase = db.chainbase.modify f) (hj : db'.journal = db.journal)
    (hf : ObjectsBacked M (f db.state)) : QuorumKept M db' := by
  refine ⟨fun s hs => ?_, hj ▸ h.journal⟩
  rw [hc] at hs
  rcases List.mem_cons.mp hs with rfl | hs
  · exact hf
  · exact h.layers s (List.mem_cons_of_mem _ hs)

/-- The newest layer keeps its blocks and its objects. -/
theorem QuorumKept.frame (h : QuorumKept M db) {f : ChainState Tx L → ChainState Tx L}
    (hc : db'.chainbase = db.chainbase.modify f) (hj : db'.journal = db.journal)
    (hchain : (f db.state).chain = db.state.chain)
    (hobj : (f db.state).fin.confirmations = db.state.fin.confirmations) : QuorumKept M db' := by
  refine h.modify hc hj fun o ho => ?_
  rw [hchain]
  exact h.state o (hobj ▸ ho)

/-! ## Steps -/

theorem commit_layers_subset (n : Nat) (db : Database Tx L) :
    ∀ s ∈ ({ db with chainbase := db.chainbase.commit n } : Database Tx L).chainbase.layers,
      s ∈ db.chainbase.layers := fun _ hs => (commit_layers_le n db.chainbase).subset hs

theorem LibTick.quorumKept (t : LibTick db db') (h : QuorumKept M db) : QuorumKept M db' := by
  cases t with
  | @supported num _ =>
      have hraise : QuorumKept M (db.raiseSupported num) := ?_
      · exact hraise.of_subset (commit_layers_subset _ _) rfl
      unfold raiseSupported
      split
      · exact h.frame (f := fun s : ChainState Tx L => { s with fin := raiseFinality num s.fin }) rfl rfl rfl rfl
      · exact h
  | @confirmed o ho hc =>
      have hraise : QuorumKept M (db.noteRaised o) := ?_
      · exact hraise.of_subset (commit_layers_subset _ _) rfl
      have hmod : QuorumKept M (db.modifyFinality (raiseFinality o.blockNum)) := h.frame
        (f := fun s : ChainState Tx L => { s with fin := raiseFinality o.blockNum s.fin }) rfl rfl rfl rfl
      refine ⟨hmod.layers, fun e he => ?_⟩
      rcases List.mem_cons.mp he with rfl | he
      · obtain ⟨hnum, hcount⟩ := Bool.and_eq_true_iff.mp hc
        exact ⟨by simpa using hnum, of_decide_eq_true hcount, h.state o ho⟩
      · exact h.journal e he
  | written hw =>
      obtain ⟨es, hj, hes⟩ := hw.events
      have hc : db'.chainbase = db.chainbase := hw.chainbase
      refine ⟨fun s hs => h.layers s (hc ▸ hs), fun e he => ?_⟩
      rw [hj] at he
      rcases List.mem_append.mp he with he | he
      · obtain ⟨_, _, -, -, -, rfl⟩ := hes e he
        trivial
      · rcases List.mem_cons.mp he with rfl | he
        · trivial
        · exact h.journal e he
  | identified =>
      refine h.frame (f := fun s : ChainState Tx L =>
        { s with
          fin     := setFinalityId (db.readIrreversible.map (·.id)) s.fin
          history := s.history.modifyHead (fun r =>
            { r with libIds := r.libIds ++ [db.readIrreversible.map (·.id)] }) }) rfl rfl ?_ ?_
      · exact chain_modifyHead db.state fun _ => rfl
      · exact (setFinalityId_kept _ _).1
  | trimmed => exact h.of_subset (fun _ hs => hs) rfl

/-- A block application keeps the chain. -/
theorem BlockTick.chain {b : SignedBlock Tx} (t : BlockTick env b db db') :
    db'.state.chain = db.state.chain := by
  cases t with
  | lib t =>
      cases t with
      | supported _ =>
          unfold raiseSupported
          split <;> rfl
      | written hw =>
          have hc : db'.chainbase = db.chainbase := hw.chainbase
          unfold Database.state
          rw [hc]
      | identified => exact chain_modifyHead _ fun _ => rfl
      | _ => rfl
  | completed => exact chain_modifyHead _ fun _ => rfl
  | _ => rfl

theorem BlockTick.quorumKept {b : SignedBlock Tx} (t : BlockTick env b db db')
    (hb : b ∈ db.state.chain) (h : QuorumKept M db) : QuorumKept M db' := by
  cases t with
  | lib t => exact t.quorumKept h
  | scheduled _ => exact h.frame (f := fun s : ChainState Tx L => { s with core := _ }) rfl rfl rfl rfl
  | funded _ => exact h.frame (f := fun s : ChainState Tx L => { s with core := _ }) rfl rfl rfl rfl
  | removed o =>
      exact h.modify (f := fun s : ChainState Tx L => { s with fin := removeConfirmation o s.fin }) rfl rfl
        fun x hx => h.state x (List.mem_of_mem_erase hx)
  | mode active => exact h.of_subset (fun _ hs => hs) rfl
  | created =>
      refine h.modify (f := fun s : ChainState Tx L =>
        { s with
          fin := addConfirmation (newConfirmation b.blockNum b.id b.validator db.state.core.schedule) s.fin })
        rfl rfl fun o ho => ?_
      rcases List.mem_append.mp ho with ho | ho
      · exact h.state o (List.mem_of_mem_filter (List.mem_of_mem_drop ho))
      · rw [List.mem_singleton.mp ho]
        exact backed_newConfirmation M hb _
  | completed =>
      exact h.frame (f := fun s : ChainState Tx L =>
        { s with history := s.history.modifyHead (fun r => { r with complete := true }) }) rfl rfl
        (chain_modifyHead db.state fun _ => rfl) rfl

theorem BlockTicks.quorumKept {b : SignedBlock Tx} (t : BlockTicks env b db db')
    (hb : b ∈ db.state.chain) (h : QuorumKept M db) : QuorumKept M db' ∧ b ∈ db'.state.chain := by
  induction t with
  | refl => exact ⟨h, hb⟩
  | tail _ t ih => exact ⟨t.quorumKept ih.2 ih.1, t.chain ▸ ih.2⟩

theorem startUndoSession_quorumKept (h : QuorumKept M db) : QuorumKept M db.startUndoSession := by
  refine h.of_subset (fun s hs => ?_) rfl
  rcases List.mem_cons.mp hs with rfl | hs
  · exact state_mem_layers _
  · exact hs

theorem undo_quorumKept (h : QuorumKept M db) : QuorumKept M db.undo :=
  h.of_subset (fun _ hs => mem_layers_undo hs) rfl

theorem applyInSession_quorumKept (b : SignedBlock Tx) (skip : Skip) (h : QuorumKept M db) :
    QuorumKept M (after (applyInSession env b skip) db) := by
  have hent : ∀ skip' c, QuorumKept M (db.startUndoSession.entered b skip' c) ∧
      b ∈ (db.startUndoSession.entered b skip' c).state.chain := by
    intro skip' c
    have hc := (entered_chainbase b skip' c db.startUndoSession).1
    have hj : (db.startUndoSession.entered b skip' c).journal = db.journal := by
      unfold entered notifyEmergency
      split <;> rfl
    refine ⟨(startUndoSession_quorumKept h).modify hc hj fun o ho => ?_, ?_⟩
    · exact (h.state o ho).mono (fun _ _ hM => hM) fun _ hx => List.mem_cons_of_mem _ hx
    · unfold Database.state
      rw [hc]
      exact List.mem_cons_self
  rcases applyInSession_cases env b skip db with
    ⟨e, he⟩ | ⟨skip', c, x, -, -, ht, ⟨-, hr⟩ | ⟨e, -, hr⟩⟩
  · rw [after_error he]
    exact h
  · rw [after_ok hr]
    exact (BlockTicks.quorumKept ht (hent skip' c).2 (hent skip' c).1).1
  · rw [after_error hr]
    exact undo_quorumKept (BlockTicks.quorumKept ht (hent skip' c).2 (hent skip' c).1).1

theorem Move.quorumKept {stop : ChainState Tx L → Prop} (m : Move env U stop db db')
    (h : QuorumKept M db) : QuorumKept M db' := by
  cases m with
  | forkDb f => exact h.of_subset (fun _ hs => hs) rfl
  | popped txs => exact h.of_subset (fun _ hs => hs) rfl
  | applied hb skip => exact applyInSession_quorumKept _ skip h
  | undone _ => exact undo_quorumKept h
  | aslot _ name =>
      exact h.frame (f := fun s : ChainState Tx L =>
        { s with
          core    := { s.core with currentAslot := s.core.currentAslot + aslotCorrection db.state.core name }
          history := s.history.modifyHead (fun r =>
            { r with aslotDelta := r.aslotDelta + aslotCorrection db.state.core name }) })
        rfl rfl (chain_modifyHead db.state fun _ => rfl) rfl

theorem Moves.quorumKept {stop : ChainState Tx L → Prop} (m : ReflTransGen (Move env U stop) db db')
    (h : QuorumKept M db) : QuorumKept M db' := by
  induction m with
  | refl => exact h
  | tail _ m ih => exact m.quorumKept ih

theorem TxMoves.quorumKept (t : ReflTransGen (TxMove env) db db') (h : QuorumKept M db) :
    QuorumKept M db' := by
  induction t with
  | refl => exact h
  | tail _ t ih =>
      cases t with
      | queued _ _ => exact ih.of_subset (fun _ hs => hs) rfl
      | opened =>
          unfold openPendingSession
          split
          · exact ih
          · exact (startUndoSession_quorumKept ih).of_subset (fun _ hs => hs) rfl
      | executed _ _ => exact ih.frame (f := fun s : ChainState Tx L => { s with core := _ }) rfl rfl rfl rfl

theorem clearPending_quorumKept (h : QuorumKept M db) : QuorumKept M db.clearPending := by
  unfold clearPending resetPendingSession
  split
  · exact (undo_quorumKept h).of_subset (fun _ hs => hs) rfl
  · exact h.of_subset (fun _ hs => hs) rfl

/-- A confirmation is a message of `M` when its account is scheduled. -/
theorem applyBlockPostValidation_quorumKept {id : BlockId} {account : AccountName}
    (hM : account ∈ db.state.core.schedule.scheduled → M id account) (h : QuorumKept M db) :
    QuorumKept M (after (applyBlockPostValidation id account) db) := by
  -- the schedule is that of the start, so the check made at the start speaks about every tick
  have hmoves : MovesAt (Keeps fun x : Database Tx L =>
      x.state.core.schedule = db.state.core.schedule ∧ QuorumKept M x)
      (applyBlockPostValidation id account) db :=
    applyBlockPostValidation_moves (fun x y t hx => ?_) db
  · exact (hmoves ⟨rfl, h⟩).2
  · obtain ⟨hsched, hq⟩ := hx
    cases t with
    | lib t => exact ⟨by rw [t.frame.1, hsched], t.quorumKept hq⟩
    | @marked o hs ho =>
        refine ⟨hsched, hq.modify (f := fun s : ChainState Tx L =>
          { s with fin := markConfirmation o account s.fin }) rfl rfl fun y hy => ?_⟩
        have hmem : o ∈ x.state.fin.confirmations := List.mem_of_find?_eq_some ho
        have hid : o.blockId = id := by simpa using List.find?_some ho
        obtain ⟨l₁, l₂, hl, hr⟩ := replace_split (b := o.mark account) hmem
        have hy' : y ∈ x.state.fin.confirmations.replace o (o.mark account) := hy
        rw [hr] at hy'
        rcases List.mem_append.mp hy' with hy' | hy'
        · exact hq.state y (by rw [hl]; exact List.mem_append_left _ hy')
        · rcases List.mem_cons.mp hy' with rfl | hy'
          · exact (hq.state o hmem).mark (hid ▸ hM (hsched ▸ hs))
          · exact hq.state y (by rw [hl]; exact List.mem_append_right _ (List.mem_cons_of_mem _ hy'))

/-! ## Runs -/

/-- **`account` confirmed the block `id` during the run**, at a moment at which it was scheduled. -/
def Confirmed (env : Env Tx L) (db : Database Tx L) (steps : List (Step Tx)) (id : BlockId)
    (account : AccountName) : Prop :=
  ∃ pre post, steps = pre ++ .confirmation id account :: post ∧
    account ∈ (run env db pre).state.core.schedule.scheduled

theorem Confirmed.append {steps : List (Step Tx)} {id : BlockId} {account : AccountName}
    (h : Confirmed env db steps id account) (more : List (Step Tx)) :
    Confirmed env db (steps ++ more) id account := by
  obtain ⟨pre, post, rfl, hs⟩ := h
  exact ⟨pre, post ++ more, by simp, hs⟩

theorem step_quorumKept {x : Step Tx} (hx : x.From U) (hst : Stored U db) (hopen : PendingOpen db)
    (hM : ∀ id account, x = .confirmation id account →
      account ∈ db.state.core.schedule.scheduled → M id account) (h : QuorumKept M db) :
    QuorumKept M (step env db x) := by
  cases x with
  | block b skip =>
      obtain ⟨y, -, hm, -, ht⟩ := pushBlock_moving hx (stopsAt_never b skip db.clearPending) hst
      exact TxMoves.quorumKept ht (Moves.quorumKept hm (clearPending_quorumKept h))
  | confirmation id account => exact applyBlockPostValidation_quorumKept (hM id account rfl) h
  | transaction tx skip => exact TxMoves.quorumKept (pushTransaction_moves hopen tx skip) h

/-- **The objects of all layers are backed by the messages of the run.** -/
theorem run_quorumKept {base : BlockId} (hU : Universe U) (h : InOrder U base db)
    (hstart : QuorumKept (fun _ _ => False) db) (steps : List (Step Tx)) (hs : ∀ x ∈ steps, x.From U) :
    QuorumKept (Confirmed env db steps) (run env db steps) := by
  induction steps using List.reverseRecOn with
  | nil => exact hstart.mono fun _ _ hf => hf.elim
  | append_singleton steps x ih =>
      have hs' : ∀ y ∈ steps, y.From U := fun y hy => hs y (List.mem_append_left _ hy)
      have hord : InOrder U base (run env db steps) := (run_inOrder hU hs' h).1
      rw [run_append]
      refine step_quorumKept (hs x (by simp)) hord.stored hord.layers.pendingOpen ?_
        ((ih hs').mono fun _ _ hc => hc.append [x])
      rintro id account rfl hsched
      exact ⟨steps, [], rfl, hsched⟩

end Database

/-- **No account counts twice and the threshold is not zero**: the marked slots of the object carry
    different names, none of them empty, and at least two validators are scheduled. -/
def Event.OneSlotEach {Tx : Type} : Event Tx → Prop
  | .raised _ o schedule _ =>
      o.confirmers.Nodup ∧ 0 ∉ o.confirmers ∧ 2 ≤ schedule.numScheduledValidators
  | _                      => True

namespace Database

variable {Tx L : Type} {U : SignedBlock Tx → Prop} {base : BlockId} {db : Database Tx L} {env : Env Tx L}

/-- **A quorum of distinct validators is behind every raise that meets the condition.** The raise is by
    one block, to a block of the applied chain, and enough accounts, at least one, other than the block's
    producer, have confirmed that block while they were scheduled. -/
theorem raised_quorum (hU : Universe U) (h : InOrder U base db)
    (hobj : ∀ s ∈ db.chainbase.layers, s.fin.confirmations = []) (hj : db.journal = [])
    {steps : List (Step Tx)} (hs : ∀ x ∈ steps, x.From U) {lib : Nat} {o : ValidatorConfirmation}
    {schedule : ValidatorSchedule} {chain : List (AppliedBlock Tx)}
    (he : .raised lib o schedule chain ∈ (run env db steps).journal)
    (hone : (Event.raised lib o schedule chain).OneSlotEach) :
    ∃ b ∈ chain.map (·.block), b.blockNum = lib + 1 ∧ o.blockNum = b.blockNum ∧
      ∃ accounts : List AccountName, accounts.Nodup ∧ accounts ≠ [] ∧
        schedule.numScheduledValidators * Config.irreversibleThreshold / Config.hundredPercent ≤
          accounts.length ∧
        ∀ a ∈ accounts, a ≠ b.validator ∧ Confirmed env db steps b.id a := by
  have hstart : QuorumKept (fun _ _ => False) db :=
    ⟨fun s hs' x hx => absurd (hobj s hs' ▸ hx) (by simp), fun e he' => absurd (hj ▸ he') (by simp)⟩
  have hkept : QuorumKept (Confirmed env db steps) (run env db steps) := run_quorumKept hU h hstart steps hs
  obtain ⟨hnum, hcount, hback⟩ := hkept.journal _ he
  obtain ⟨b, hb, hid, hbnum, hpad⟩ := hback.block
  obtain ⟨hnodup, hzero, htwo⟩ := hone
  have hlen : o.confirmers.length = o.count := List.length_map _
  refine ⟨b, hb, by omega, hbnum.symm, o.confirmers, hnodup, ?_, hlen ▸ hcount, fun a ha => ?_⟩
  · -- two scheduled validators make a threshold of one
    have hpos : 1 ≤ schedule.numScheduledValidators * Config.irreversibleThreshold / Config.hundredPercent := by
      unfold Config.irreversibleThreshold Config.hundredPercent
      omega
    exact List.ne_nil_of_length_pos (by omega)
  · obtain ⟨p, hp, rfl⟩ := List.mem_map.mp ha
    obtain ⟨hslot, hmark⟩ := List.mem_filter.mp hp
    refine ⟨fun heq => hzero ?_, hid ▸ hback.marked p hslot hmark⟩
    rw [← hpad p hslot heq]
    exact ha

end Database

namespace Sample

/-- The committee of the emergency mode. -/
def committee : AccountName := Config.emergencyValidatorAccount

/-- A block of the committee. -/
def committeeBlock (previous : BlockId) (time hash : Nat) : SignedBlock Tx :=
  { block previous time committee hash with validatorSignature := Config.emergencyValidatorPublicKey }

def block20 : SignedBlock Tx := committeeBlock ⟨19, 19⟩ 60 20
def block21 : SignedBlock Tx := committeeBlock block20.id 63 21
def block22 : SignedBlock Tx := block block21.id 66 1 22

/-- The emergency mode at block 20, with 15 validators that have their keys back. -/
def emergencyCore : Core Unit :=
  { core ({ validator committee 0 with
              signingKey := Config.emergencyValidatorPublicKey, lastSupportedBlockNum := 20, currentRun := 20 } ::
      (List.range 15).map (fun i => validator (i + 1) (i + 1))) (List.replicate 21 committee) with
    headBlockNumber              := 20
    headBlockId                  := block20.id
    time                         := 60
    currentAslot                 := 20
    emergencyConsensusActive     := true
    emergencyConsensusStartBlock := 2
    blockSummary                 := fun n => if n = 20 then block20.id else BlockId.zero }

/-- A node that was opened on this state. -/
def emergencyNode : Database Tx Unit :=
  { node [] [] with
    chainbase := ⟨⟨emergencyCore, ⟨19, ⟨19, 19⟩, 19, 0, []⟩, []⟩, [], 20⟩
    forkDb    := { index := [{ ptr := 0, data := block20 }], unlinkedIndex := []
                   head := some { ptr := 0, data := block20 }, nextPtr := 1
                   emergencyConsensusActive := true }
    blockLog  := []
    dltMode   := true }

/-- The emergency mode ends with block 21, which all 15 validators confirm; block 22 arrives. -/
def emergencyEnd : List (Step Tx) :=
  .block block21 Skip.nothing ::
    ((List.range 15).map (fun i => .confirmation block21.id (i + 1)) ++ [.block block22 Skip.nothing])

/-- The committee and nine validators confirm block 22. -/
def tenAccounts : List AccountName := committee :: (List.range 9).map (· + 2)

def tenConfirmations : List (Step Tx) := tenAccounts.map (.confirmation block22.id ·)

end Sample

namespace Database

open Sample in
/-- **Ten accounts are enough where fifteen are asked for**: the committee still holds six slots of the
    schedule after the end of the emergency mode. And with one scheduled validator, none is. -/
theorem raised_without_quorum :
    ((run env emergencyNode emergencyEnd).lib = 21 ∧
      (run env emergencyNode emergencyEnd).inEmergency = false ∧
      (run env emergencyNode emergencyEnd).state.core.confirmationThreshold = 15 ∧
      (run env emergencyNode (emergencyEnd ++ tenConfirmations)).lib = 22 ∧
      ∀ accounts : List AccountName, accounts.Nodup →
        (∀ a ∈ accounts, .confirmation block22.id a ∈ emergencyEnd ++ tenConfirmations) →
        accounts.length ≤ 10) ∧
    (push (node [validator 1 10] [1]) [block block1.id 6 1 2, block ⟨2, 2⟩ 9 1 3]).lib = 2 := by
  refine ⟨⟨by decide +kernel, by decide +kernel, by decide +kernel, by decide +kernel, ?_⟩, by decide +kernel⟩
  intro accounts hnodup hall
  have hsub : accounts ⊆ tenAccounts := by
    intro a ha
    have hne : block21.id ≠ block22.id := by decide +kernel
    have hmem := hall a ha
    simp only [emergencyEnd, tenConfirmations, List.mem_append, List.mem_cons, List.mem_map,
      Step.confirmation.injEq, reduceCtorEq, false_or, hne, false_and, and_false, exists_false,
      List.not_mem_nil, or_false, true_and, exists_eq_right] at hmem
    exact hmem
  exact List.Nodup.length_le_of_subset hnodup hsub

open Sample in
/-- Three of four validators raise the last irreversible block to `b2`. -/
theorem raised_quorum_sample :
    ∃ b ∈ [b3, b2], b.blockNum = 2 ∧ ∃ accounts : List AccountName, accounts.Nodup ∧ 3 ≤ accounts.length ∧
      ∀ a ∈ accounts, a ≠ b.validator ∧ Confirmed env four confirmB2 b.id a := by
  have hU : Universe (· ∈ [block1, b2, b3]) := Universe.of_list (by decide +kernel) (by decide +kernel)
  have hstart : InOrder (· ∈ [block1, b2, b3]) block1.id four := node_inOrder (by simp) (by decide +kernel) _
  have hraised : .raised 1 ⟨2, b2.id, [(1, true), (2, true), (4, true)] ++ List.replicate 18 (0, false)⟩
      four.state.core.schedule [{ block := b3, txSkip := {}, libTime := some 3, complete := true },
        { block := b2, txSkip := {}, libTime := some 3, complete := true }] ∈
      (run env four confirmB2).journal := by decide +kernel
  obtain ⟨b, hb, hnum, -, accounts, hnodup, -, hlen, hall⟩ := raised_quorum hU hstart (by decide +kernel) rfl
    (by decide +kernel) hraised ⟨by decide +kernel, by decide +kernel, by decide +kernel⟩
  exact ⟨b, hb, hnum, accounts, hnodup, hlen, hall⟩

end Database

end VizNode
