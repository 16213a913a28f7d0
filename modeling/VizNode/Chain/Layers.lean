import VizNode.Chain.Pending
import VizNode.Chain.Frames

/-!
# `VizNode.Chain.Layers` — the states that can be undone

A node carries its current state and the states its undo sessions saved. **Each of them is a state of one
growing chain**: the blocks of an older layer are the last blocks of a newer one, the number of a layer is
the number of its session, and no layer claims a last irreversible block above the head of the oldest
layer. The last point is what makes irreversibility final: a raise commits every session below it, so the
oldest layer that is left cannot be undone any more.

## Contents
- **One layer.** `ChainState.WellFormed`: the applied blocks form a chain up to the head.
- **All layers.** `Layers`, kept by every tick, every move and every step (`run_layers`).
- **Finality.** `Grounded`: what the oldest layer has applied stays applied.
-/

namespace VizNode

/-! ## One layer -/

section Chains

variable {Tx L : Type}

/-- The applied blocks, newest first. -/
def ChainState.chain (s : ChainState Tx L) : List (SignedBlock Tx) := s.history.map (·.block)

/-- The id of the newest block of a chain over `base`. -/
def tipId (base : BlockId) : List (SignedBlock Tx) → BlockId
  | []     => base
  | b :: _ => b.id

/-- Every block of the chain names the one below it. -/
def Chained (base : BlockId) : List (SignedBlock Tx) → Prop
  | []      => True
  | b :: bs => b.previous = tipId base bs ∧ Chained base bs

/-- **A well-formed state** over `base`, the head at the time the node was opened. -/
structure ChainState.WellFormed (U : SignedBlock Tx → Prop) (base : BlockId) (s : ChainState Tx L) :
    Prop where
  chained : Chained base s.chain
  exists_ : ∀ b ∈ s.chain, U b
  headId  : s.headBlockId = tipId base s.chain
  headNum : s.headBlockNum = s.headBlockId.num
  support : s.core.SupportsUpTo s.headBlockNum
  objects : ∀ o ∈ s.fin.confirmations, o.blockNum ≤ s.headBlockNum
  lib_le  : s.lib ≤ s.headBlockNum

/-- A newer layer is above an older one: it has the same blocks at its bottom. -/
def Above (newer older : ChainState Tx L) : Prop :=
  older.chain <:+ newer.chain ∧ older.headBlockNum ≤ newer.headBlockNum

theorem Above.refl (s : ChainState Tx L) : Above s s := ⟨List.suffix_rfl, Nat.le_refl _⟩

theorem Above.trans (r s t : ChainState Tx L) (h₁ : Above r s) (h₂ : Above s t) : Above r t :=
  ⟨h₂.1.trans h₁.1, Nat.le_trans h₂.2 h₁.2⟩

theorem Above.congr {s s' : ChainState Tx L} (hc : s'.chain = s.chain)
    (hn : s'.headBlockNum = s.headBlockNum) (t : ChainState Tx L) (h : Above s t) : Above s' t := by
  unfold Above at h ⊢
  rw [hc, hn]
  exact h

/-- The record of the newest block may be completed. -/
theorem chain_modifyHead (s : ChainState Tx L) {f : AppliedBlock Tx → AppliedBlock Tx}
    (hf : ∀ r, (f r).block = r.block) :
    ({ s with history := s.history.modifyHead f } : ChainState Tx L).chain = s.chain := by
  unfold ChainState.chain
  dsimp only
  cases s.history with
  | nil => rfl
  | cons r rs => simp [hf]

/-- **What is read off the head, the objects and the last irreversible block alone.** -/
theorem ChainState.WellFormed.congr {U : SignedBlock Tx → Prop} {base : BlockId} {s s' : ChainState Tx L}
    (h : s.WellFormed U base) (hc : s'.chain = s.chain) (hcore : Core.SameHead s.core s'.core)
    (hobj : ∀ o ∈ s'.fin.confirmations, o.blockNum ≤ s.headBlockNum) (hlib : s'.lib ≤ s.headBlockNum) :
    s'.WellFormed U base := by
  have hid : s'.headBlockId = s.headBlockId := hcore.id
  have hnum : s'.headBlockNum = s.headBlockNum := hcore.num
  exact
    { chained := hc ▸ h.chained
      exists_ := hc ▸ h.exists_
      headId := by rw [hid, hc, h.headId]
      headNum := by rw [hnum, hid, h.headNum]
      support := by rw [hnum]; exact hcore.support _ h.support
      objects := by rw [hnum]; exact hobj
      lib_le := by rw [hnum]; exact hlib }

/-- The support of the scheduled validators does not reach above the head. -/
theorem Core.nextIrreversible_le {c : Core L} {n num : Nat} (hs : c.SupportsUpTo n)
    (hn : c.headBlockNumber = n) (h : c.nextIrreversible = .ok num) : num ≤ n := by
  obtain ⟨ws, hws, h⟩ := Prog.except_bind_eq_ok h
  have hmem : ∀ w ∈ ws, w ∈ c.validators := by
    refine Prog.mapM_forall (fun name w hw => ?_) hws
    unfold Core.getValidator Core.findValidator at hw
    split at hw
    · next hf => exact Except.ok.inj hw ▸ List.mem_of_find?_eq_some hf
    · exact absurd hw (by simp)
  have hsorted : ∀ x ∈ (ws.map (·.lastSupportedBlockNum)).insertionSort (· ≤ ·), x ≤ n := by
    intro x hx
    rw [List.mem_insertionSort] at hx
    obtain ⟨w, hw, rfl⟩ := List.mem_map.mp hx
    exact hs w (hmem w hw)
  dsimp only at h
  split at h
  · obtain rfl := Except.ok.inj h
    omega
  · obtain rfl := Except.ok.inj h
    refine Nat.le_trans (Nat.mod_le _ _) ?_
    rw [List.getD_eq_getElem?_getD]
    cases hget : ((ws.map (·.lastSupportedBlockNum)).insertionSort (· ≤ ·))[
        (Config.hundredPercent - Config.irreversibleThreshold) * ws.length / Config.hundredPercent]? with
    | none => exact Nat.zero_le n
    | some x => exact hsorted x (List.mem_of_getElem? hget)

end Chains

/-! ## All layers -/

namespace Database

open Prog Relation UndoDb

variable {Tx L : Type} {U : SignedBlock Tx → Prop} {base : BlockId} {db db' : Database Tx L}

/-- **The layers of a node are in order.** The session of the next block is the one after the current
    revision, or the pending one. -/
structure Layers (U : SignedBlock Tx → Prop) (base : BlockId) (db : Database Tx L) : Prop where
  stacked : Stacked (ChainState.WellFormed U base) Above ChainState.headBlockNum ChainState.lib db.chainbase
  idle    : db.pendingTxSession = false → db.headBlockNum = db.chainbase.revision
  pending : db.pendingTxSession = true →
    db.headBlockNum + 1 = db.chainbase.revision ∧ db.chainbase.stack ≠ []

/-- The layers stay in order, and what can no longer be undone stays. -/
def Advances (U : SignedBlock Tx → Prop) (base : BlockId) (db db' : Database Tx L) : Prop :=
  Layers U base db → Layers U base db' ∧ Grounded Above db.chainbase db'.chainbase

instance advancesPreorder : IsPreorder (Database Tx L) (Advances U base) where
  refl _ h := ⟨h, h.stacked.grounded Above.refl⟩
  trans _ _ _ h₁ h₂ h :=
    ⟨(h₂ (h₁ h).1).1, (h₁ h).2.trans Above.trans (h₂ (h₁ h).1).2⟩

theorem Layers.wellFormed (h : Layers U base db) : db.state.WellFormed U base :=
  h.stacked.each _ (state_mem_layers _)

theorem above_num (s t : ChainState Tx L) (h : Above s t) : t.headBlockNum ≤ s.headBlockNum := h.2

theorem wellFormed_lib (s : ChainState Tx L) (h : s.WellFormed U base) : s.lib ≤ s.headBlockNum := h.lib_le

/-- Whatever does not touch the chain state. -/
theorem advances_of_eq (hc : db'.chainbase = db.chainbase)
    (hp : db'.pendingTxSession = db.pendingTxSession) : Advances U base db db' := by
  intro h
  have hg := h.stacked.grounded Above.refl
  refine ⟨⟨hc ▸ h.stacked, ?_, ?_⟩, hc ▸ hg⟩
  · intro hidle
    unfold headBlockNum state
    rw [hc]
    exact h.idle (hp ▸ hidle)
  · intro hpend
    unfold headBlockNum state
    rw [hc]
    exact h.pending (hp ▸ hpend)

/-- **A write to the current state that keeps its blocks** and does not raise the last irreversible
    block. -/
theorem advances_modify {f : ChainState Tx L → ChainState Tx L} (hc : db'.chainbase = db.chainbase.modify f)
    (hp : db'.pendingTxSession = db.pendingTxSession) (hchain : (f db.state).chain = db.state.chain)
    (hcore : Core.SameHead db.state.core (f db.state).core)
    (hobj : db.state.WellFormed U base → ∀ o ∈ (f db.state).fin.confirmations, o.blockNum ≤ db.headBlockNum)
    (hlib : (f db.state).lib ≤ db.lib) : Advances U base db db' := by
  intro h
  have hwf := h.wellFormed
  have hnum : (f db.state).headBlockNum = db.headBlockNum := hcore.num
  obtain ⟨hs, hg⟩ := h.stacked.modify Above.refl wellFormed_lib (f := f)
    (hwf.congr hchain hcore (hobj hwf) (Nat.le_trans hlib hwf.lib_le))
    (Above.congr hchain hnum) hlib
  refine ⟨⟨hc ▸ hs, ?_, ?_⟩, hc ▸ hg⟩
  · intro hidle
    have := h.idle (hp ▸ hidle)
    unfold headBlockNum state
    rw [hc]
    exact hnum.trans this
  · intro hpend
    obtain ⟨hr, hne⟩ := h.pending (hp ▸ hpend)
    unfold headBlockNum state
    rw [hc]
    refine ⟨?_, hne⟩
    rw [modify_state, modify_revision, ← hr]
    exact congrArg (· + 1) hnum

/-- **A raise with its commit.** -/
theorem advances_raise (num : Nat) {f : ChainState Tx L → ChainState Tx L}
    (hc : db'.chainbase = (db.chainbase.modify f).commit num) (hn : (f db.state).lib = num)
    (hp : db'.pendingTxSession = db.pendingTxSession) (hchain : (f db.state).chain = db.state.chain)
    (hcore : (f db.state).core = db.state.core)
    (hobj : (f db.state).fin.confirmations = db.state.fin.confirmations)
    (hle : db.state.WellFormed U base → num ≤ db.headBlockNum) : Advances U base db db' := by
  intro h
  have hwf := h.wellFormed
  have hsame : Core.SameHead db.state.core (f db.state).core := by rw [hcore]; exact Core.SameHead.rfl'
  have hnum : (f db.state).headBlockNum = db.headBlockNum := hsame.num
  have hwf' : (f db.state).WellFormed U base :=
    hwf.congr hchain hsame (hobj ▸ hwf.objects) (hn ▸ hle hwf)
  obtain ⟨hs, hg⟩ := h.stacked.raise Above.refl above_num wellFormed_lib (f := f) hwf'
    (Above.congr hchain hnum)
  have hc' : db'.chainbase = (db.chainbase.modify f).commit (f db.chainbase.state).lib := by rw [hc, ← hn]; rfl
  refine ⟨⟨hc' ▸ hs, ?_, ?_⟩, hc' ▸ hg⟩
  · intro hidle
    have := h.idle (hp ▸ hidle)
    unfold headBlockNum state
    rw [hc]
    exact hnum.trans this
  · intro hpend
    obtain ⟨hr, hne⟩ := h.pending (hp ▸ hpend)
    obtain ⟨e, st, hst⟩ := List.exists_cons_of_ne_nil hne
    have hdesc := h.stacked.numbered.desc
    rw [hst] at hdesc
    have hlt : num < e.1 := by
      have := hle hwf
      have := hdesc.1
      omega
    unfold headBlockNum state
    rw [hc]
    refine ⟨?_, commit_stack_ne_nil (e := e) (by simp [hst]) hlt⟩
    rw [commit_state, commit_revision, modify_state, modify_revision, ← hr]
    exact congrArg (· + 1) hnum

theorem setFinalityId_kept (id : Option BlockId) (fin : Finality) :
    (setFinalityId id fin).confirmations = fin.confirmations ∧
      (setFinalityId id fin).lastIrreversibleBlockNum = fin.lastIrreversibleBlockNum := by
  cases id <;> exact ⟨rfl, rfl⟩

theorem LibTick.advances (t : LibTick db db') : Advances U base db db' := by
  cases t with
  | @supported num hnum =>
      unfold raiseSupported
      split
      · refine advances_raise num
          (f := fun s : ChainState Tx L => { s with fin := raiseFinality num s.fin }) rfl rfl rfl rfl rfl rfl ?_
        exact fun hwf => Core.nextIrreversible_le hwf.support rfl hnum
      · refine advances_raise db.lib (f := id) rfl rfl rfl rfl rfl rfl ?_
        exact fun hwf => hwf.lib_le
  | @confirmed o ho hc =>
      refine advances_raise o.blockNum
        (f := fun s : ChainState Tx L => { s with fin := raiseFinality o.blockNum s.fin }) rfl rfl rfl rfl rfl rfl ?_
      exact fun hwf => hwf.objects o ho
  | written hw => exact advances_of_eq hw.chainbase (by rw [hw.frame]; rfl)
  | identified =>
      refine advances_modify (f := fun s : ChainState Tx L =>
        { s with
          fin     := setFinalityId (db.readIrreversible.map (·.id)) s.fin
          history := s.history.modifyHead (fun r =>
            { r with libIds := r.libIds ++ [db.readIrreversible.map (·.id)] }) })
        rfl rfl ?_ Core.SameHead.rfl' ?_ ?_
      · exact chain_modifyHead db.state fun _ => rfl
      · intro hwf
        rw [(setFinalityId_kept _ _).1]
        exact hwf.objects
      · exact (setFinalityId_kept _ _).2.le
  | trimmed => exact advances_of_eq rfl rfl

/-- The ticks of a block application, while the head is the block. -/
theorem BlockTick.advances {env : Env Tx L} {b : SignedBlock Tx} (t : BlockTick env b db db')
    (hb : db.headBlockNum = b.blockNum) : Advances U base db db' ∧ db'.headBlockNum = b.blockNum := by
  cases t with
  | lib t =>
      refine ⟨t.advances, ?_⟩
      unfold headBlockNum ChainState.headBlockNum
      rw [t.frame.1]
      exact hb
  | scheduled h =>
      have hs := Core.finishSchedule_head h
      exact ⟨advances_modify (f := fun s : ChainState Tx L => { s with core := _ }) rfl rfl rfl hs
        (fun hwf => hwf.objects) (Nat.le_refl _), hs.num.trans hb⟩
  | funded h =>
      have hs := Core.finishLedger_head h
      exact ⟨advances_modify (f := fun s : ChainState Tx L => { s with core := _ }) rfl rfl rfl hs
        (fun hwf => hwf.objects) (Nat.le_refl _), hs.num.trans hb⟩
  | removed o =>
      refine ⟨advances_modify (f := fun s : ChainState Tx L => { s with fin := removeConfirmation o s.fin })
        rfl rfl rfl Core.SameHead.rfl' ?_ (Nat.le_refl _), hb⟩
      exact fun hwf x hx => hwf.objects x (List.mem_of_mem_erase hx)
  | mode active => exact ⟨advances_of_eq rfl rfl, hb⟩
  | created =>
      refine ⟨advances_modify (f := fun s : ChainState Tx L =>
        { s with
          fin := addConfirmation (newConfirmation b.blockNum b.id b.validator db.state.core.schedule) s.fin })
        rfl rfl rfl Core.SameHead.rfl' ?_ (Nat.le_refl _), hb⟩
      intro hwf o ho
      rcases List.mem_append.mp ho with ho | ho
      · exact hwf.objects o (List.mem_of_mem_filter (List.mem_of_mem_drop ho))
      · rw [List.mem_singleton.mp ho]
        exact hb.symm.le
  | completed =>
      refine ⟨advances_modify (f := fun s : ChainState Tx L =>
        { s with history := s.history.modifyHead (fun r => { r with complete := true }) }) rfl rfl ?_
        Core.SameHead.rfl' (fun hwf => hwf.objects) (Nat.le_refl _), hb⟩
      exact chain_modifyHead db.state fun _ => rfl

theorem BlockTicks.advances {env : Env Tx L} {b : SignedBlock Tx} (t : BlockTicks env b db db')
    (hb : db.headBlockNum = b.blockNum) : Advances U base db db' ∧ db'.headBlockNum = b.blockNum := by
  induction t with
  | refl => exact ⟨refl_of _ _, hb⟩
  | tail _ t ih =>
      obtain ⟨hadv, hnum⟩ : Advances U base _ _ ∧ _ := t.advances ih.2
      exact ⟨trans_of (Advances U base) ih.1 hadv, hnum⟩

theorem entered_chainbase (b : SignedBlock Tx) (skip : Skip) (c : Core L) (db : Database Tx L) :
    (db.entered b skip c).chainbase = db.chainbase.modify (fun s =>
      { s with
        core    := c
        history := { block := b, txSkip := skip.forTransactions, libTime := db.libTime } :: s.history }) ∧
    (db.entered b skip c).pendingTxSession = db.pendingTxSession := by
  unfold entered notifyEmergency
  split <;> exact ⟨rfl, rfl⟩

/-- **The head moves in a session of its own.** -/
theorem entered_advances {env : Env Tx L} {b : SignedBlock Tx} {skip : Skip} {c : Core L}
    (hU : Universe U) (hb : U b) (hidle : db.pendingTxSession = false)
    (hc : db.state.core.beginBlock env skip db.lib db.libTime b = .ok c) :
    Advances U base db (db.startUndoSession.entered b skip c) ∧
      (db.startUndoSession.entered b skip c).headBlockNum = b.blockNum := by
  obtain ⟨hprev, hid, hnum, hsup⟩ := Core.beginBlock_head hc
  obtain ⟨hcb, hpend⟩ := entered_chainbase b skip c db.startUndoSession
  have hhead : (db.startUndoSession.entered b skip c).headBlockNum = b.blockNum := by
    unfold headBlockNum state
    rw [hcb]
    exact hnum
  refine ⟨fun h => ?_, hhead⟩
  have hwf := h.wellFormed
  -- the number of the block is the next one
  have hnext : b.blockNum = db.headBlockNum + 1 := by
    have hid' : b.previous = db.state.headBlockId := hprev
    rw [hU.num_eq hb, hid', ← hwf.headNum]
    rfl
  obtain ⟨hs, hg⟩ := h.stacked.startSession Above.refl (h.idle hidle)
  have hwf' : ChainState.WellFormed U base
      { db.state with
        core    := c
        history := { block := b, txSkip := skip.forTransactions, libTime := db.libTime } ::
          db.state.history } :=
    { chained := ⟨hprev.trans hwf.headId, hwf.chained⟩
      exists_ := by
        intro x hx
        rcases List.mem_cons.mp hx with rfl | hx
        · exact hb
        · exact hwf.exists_ x hx
      headId := hid
      headNum := hnum.trans (congrArg BlockId.num hid).symm
      support := by
        have hsup' := hsup b.blockNum (Nat.le_refl _) fun w hw =>
          Nat.le_trans (hwf.support w hw) (by rw [hnext]; exact Nat.le_succ _)
        show Core.SupportsUpTo c.headBlockNumber c
        rw [hnum]
        exact hsup'
      objects := by
        intro o ho
        have := hwf.objects o ho
        show o.blockNum ≤ c.headBlockNumber
        rw [hnum, hnext]
        exact Nat.le_succ_of_le this
      lib_le := by
        have := hwf.lib_le
        show db.state.fin.lastIrreversibleBlockNum ≤ c.headBlockNumber
        rw [hnum, hnext]
        exact Nat.le_succ_of_le this }
  obtain ⟨hs', hg'⟩ := hs.modify Above.refl wellFormed_lib (f := fun s : ChainState Tx L =>
      { s with
        core    := c
        history := { block := b, txSkip := skip.forTransactions, libTime := db.startUndoSession.libTime } ::
          s.history }) hwf'
    (fun t ht => ⟨ht.1.trans (List.suffix_cons _ _), by
      have hle : t.headBlockNum ≤ db.headBlockNum := ht.2
      show t.headBlockNum ≤ c.headBlockNumber
      rw [hnum, hnext]
      exact Nat.le_succ_of_le hle⟩) (Nat.le_refl _)
  refine ⟨⟨hcb ▸ hs', fun _ => ?_, fun hp => ?_⟩, ?_⟩
  · rw [hhead, hcb, hnext, h.idle hidle]
    rfl
  · rw [hpend] at hp
    exact absurd hp (by simp [startUndoSession, hidle])
  · rw [hcb]
    exact hg.trans Above.trans hg'

/-- The newest session is undone. -/
theorem undo_advances (hc : db'.chainbase = db.chainbase.undo) (hp : db'.pendingTxSession = false) :
    Advances U base db db' := by
  intro h
  obtain ⟨hs, hg⟩ := h.stacked.undo Above.refl
  refine ⟨⟨hc ▸ hs, fun _ => ?_, fun hpend => absurd hpend (by simp [hp])⟩, hc ▸ hg⟩
  unfold headBlockNum state
  rw [hc]
  rcases undo_cases db.chainbase with ⟨hst, hu⟩ | ⟨e, st, hst, hu⟩
  · rw [hu]
    cases hpd : db.pendingTxSession with
    | false => exact h.idle hpd
    | true => exact absurd hst (h.pending hpd).2
  · have hdesc := h.stacked.numbered.desc
    have hsaved := h.stacked.numbered.saved e (by simp [hst])
    rw [hst] at hdesc
    rw [hu]
    show ChainState.headBlockNum e.2 = db.chainbase.revision - 1
    have := hdesc.1
    omega

theorem applyInSession_advances {env : Env Tx L} {b : SignedBlock Tx} (hU : Universe U) (hb : U b)
    (skip : Skip) (hidle : db.pendingTxSession = false) :
    Advances U base db (after (applyInSession env b skip) db) := by
  rcases applyInSession_cases env b skip db with
    ⟨e, he⟩ | ⟨skip', c, x, -, hc, ht, ⟨-, hr⟩ | ⟨e, -, hr⟩⟩
  · rw [after_error he]
    exact refl_of _ _
  · rw [after_ok hr]
    obtain ⟨hent, hnum⟩ : Advances U base db _ ∧ _ := entered_advances hU hb hidle hc
    exact trans_of (Advances U base) hent (BlockTicks.advances ht hnum).1
  · rw [after_error hr]
    obtain ⟨hent, hnum⟩ : Advances U base db _ ∧ _ := entered_advances hU hb hidle hc
    refine trans_of (Advances U base) hent (trans_of (Advances U base) (BlockTicks.advances ht hnum).1 ?_)
    refine undo_advances rfl ?_
    exact (BlockTicks.kept ht).session.trans ((entered_kept b skip' c db.startUndoSession).session.trans hidle)

theorem Move.idle {env : Env Tx L} {stop : ChainState Tx L → Prop} (m : Move env U stop db db')
    (hidle : db.pendingTxSession = false) : db'.pendingTxSession = false := by
  cases m with
  | applied hb skip => exact (applyInSession_kept _ skip db : SameKept _ _).session.trans hidle
  | _ => exact hidle

theorem Move.advances {env : Env Tx L} {stop : ChainState Tx L → Prop} (hU : Universe U)
    (m : Move env U stop db db') (hidle : db.pendingTxSession = false) : Advances U base db db' := by
  cases m with
  | forkDb f => exact advances_of_eq rfl rfl
  | popped txs => exact advances_of_eq rfl rfl
  | applied hb skip => exact applyInSession_advances hU hb skip hidle
  | undone h => exact undo_advances rfl hidle
  | aslot _ name =>
      refine advances_modify (f := fun s : ChainState Tx L =>
        { s with
          core    := { s.core with currentAslot := s.core.currentAslot + aslotCorrection db.state.core name }
          history := s.history.modifyHead (fun r =>
            { r with aslotDelta := r.aslotDelta + aslotCorrection db.state.core name }) })
        rfl rfl ?_ ⟨rfl, rfl, fun _ h => h⟩ (fun hwf => hwf.objects) (Nat.le_refl _)
      exact chain_modifyHead db.state fun _ => rfl

theorem Moves.advances {env : Env Tx L} {stop : ChainState Tx L → Prop} (hU : Universe U)
    (m : ReflTransGen (Move env U stop) db db') (hidle : db.pendingTxSession = false) :
    Advances U base db db' ∧ db'.pendingTxSession = false := by
  induction m with
  | refl => exact ⟨refl_of _ _, hidle⟩
  | tail _ m ih => exact ⟨trans_of (Advances U base) ih.1 (m.advances hU ih.2), m.idle ih.2⟩

theorem TxMove.advances {env : Env Tx L} (t : TxMove env db db') : Advances U base db db' := by
  cases t with
  | queued _ _ => exact advances_of_eq rfl rfl
  | opened =>
      unfold openPendingSession
      split
      · exact refl_of _ _
      · next hp =>
          intro h
          have hidle := h.idle (by simpa using hp)
          obtain ⟨hs, hg⟩ := h.stacked.startSession Above.refl hidle
          refine ⟨⟨hs, fun hf => absurd hf (by simp), fun _ => ⟨?_, by simp [startUndoSession]⟩⟩, hg⟩
          exact congrArg (· + 1) hidle
  | executed hp h =>
      exact advances_modify (f := fun s : ChainState Tx L => { s with core := _ }) rfl rfl rfl
        (Core.runLedger_head h) (fun hwf => hwf.objects) (Nat.le_refl _)

theorem TxMoves.advances {env : Env Tx L} (t : ReflTransGen (TxMove env) db db') : Advances U base db db' := by
  induction t with
  | refl => exact refl_of _ _
  | tail _ t ih => exact trans_of (Advances U base) ih t.advances

theorem clearPending_advances (db : Database Tx L) : Advances U base db db.clearPending := by
  unfold clearPending resetPendingSession
  split
  · exact undo_advances rfl rfl
  · exact advances_of_eq rfl rfl

theorem mark_blockNum {fin : Finality} {o : ValidatorConfirmation} {account : AccountName} {n : Nat}
    (ho : o ∈ fin.confirmations) (h : ∀ x ∈ fin.confirmations, x.blockNum ≤ n) :
    ∀ x ∈ (markConfirmation o account fin).confirmations, x.blockNum ≤ n := by
  obtain ⟨l₁, l₂, hl, hr⟩ := replace_split (b := o.mark account) ho
  intro x hx
  unfold markConfirmation at hx
  dsimp only at hx
  rw [hr] at hx
  rcases List.mem_append.mp hx with hx | hx
  · exact h x (by rw [hl]; exact List.mem_append_left _ hx)
  · rcases List.mem_cons.mp hx with rfl | hx
    · exact h o ho
    · exact h x (by rw [hl]; exact List.mem_append_right _ (List.mem_cons_of_mem _ hx))

theorem ConfirmTick.advances {id : BlockId} {account : AccountName} (t : ConfirmTick id account db db') :
    Advances U base db db' := by
  cases t with
  | lib t => exact t.advances
  | @marked o hs ho =>
      exact advances_modify (f := fun s : ChainState Tx L => { s with fin := markConfirmation o account s.fin })
        rfl rfl rfl Core.SameHead.rfl'
        (fun hwf => mark_blockNum (List.mem_of_find?_eq_some ho) hwf.objects) (Nat.le_refl _)

theorem Layers.pendingOpen (h : Layers U base db) : PendingOpen db := fun hp => (h.pending hp).2

/-- **Every step keeps the layers in order.** -/
theorem step_advances {env : Env Tx L} (hU : Universe U) {x : Step Tx} (hx : x.From U) (hst : Stored U db) :
    Advances U base db (step env db x) := by
  cases x with
  | block b skip =>
      obtain ⟨y, -, hm, -, ht⟩ := pushBlock_moving hx (stopsAt_never b skip db.clearPending) hst
      refine trans_of (Advances U base) (clearPending_advances db) (trans_of (Advances U base) ?_
        (TxMoves.advances ht))
      exact (Moves.advances hU hm (clearPending_idle db)).1
  | confirmation id account => exact applyBlockPostValidation_moves (fun _ _ t => t.advances) db
  | transaction tx skip =>
      exact fun h => TxMoves.advances (pushTransaction_moves h.pendingOpen tx skip) h

/-- **A node in order**: its storage and its layers. -/
structure InOrder (U : SignedBlock Tx → Prop) (base : BlockId) (db : Database Tx L) : Prop where
  stored : Stored U db
  layers : Layers U base db

/-- **The node is in order in every state a run reaches**, and nothing that could not be undone is gone. -/
theorem run_inOrder {env : Env Tx L} (hU : Universe U) {steps : List (Step Tx)}
    (hs : ∀ x ∈ steps, x.From U) (h : InOrder U base db) :
    InOrder U base (run env db steps) ∧ Grounded Above db.chainbase (run env db steps).chainbase := by
  induction steps generalizing db with
  | nil => exact ⟨h, h.layers.stacked.grounded Above.refl⟩
  | cons x xs ih =>
      have hx := hs x (by simp)
      obtain ⟨hl, hg⟩ : Layers U base (step env db x) ∧ _ := step_advances hU hx h.stored h.layers
      have hstep : InOrder U base (step env db x) := ⟨step_stored x hx h.stored, hl⟩
      obtain ⟨hrun, hg'⟩ := ih (fun y hy => hs y (by simp [hy])) hstep
      exact ⟨hrun, hg.trans Above.trans hg'⟩

end Database

/-- A node of the sample network starts in order. -/
theorem Sample.node_inOrder {U : SignedBlock Sample.Tx → Prop} (hU : U Sample.block1)
    {validators : List Validator} (hv : ∀ w ∈ validators, w.lastSupportedBlockNum ≤ 1)
    (schedule : List AccountName) :
    Database.InOrder U Sample.block1.id (Sample.node validators schedule) := by
  have hlayer : ∀ s ∈ (Sample.node validators schedule).chainbase.layers,
      s = (Sample.node validators schedule).state := fun s hs => List.mem_singleton.mp hs
  refine ⟨Sample.node_stored hU validators schedule, ⟨⟨?_, ?_, ?_, ?_⟩, fun _ => rfl, ?_⟩⟩
  · intro s hs
    rw [hlayer s hs]
    exact
      { chained := trivial
        exists_ := fun b hb => absurd hb (by simp [ChainState.chain, Sample.node, Database.state])
        headId := rfl
        headNum := rfl
        support := hv
        objects := fun o ho => absurd ho (by simp [Sample.node, Database.state])
        lib_le := Nat.le_refl 1 }
  · exact List.pairwise_singleton _ _
  · exact ⟨trivial, fun e he => absurd he (by simp [Sample.node])⟩
  · intro s hs
    rw [hlayer s hs]
    exact Nat.le_refl 1
  · intro hp
    exact absurd hp (by simp [Sample.node])

end VizNode
