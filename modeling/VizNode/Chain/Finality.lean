import VizNode.Chain.Layers

/-!
# `VizNode.Chain.Finality` — is irreversibility final?

Two things hold on every run: the last irreversible block is at most the head, and the ids of the applied
chain up to it never change, because no session below it is left to be undone.

**The number itself can go back.** It is part of the undoable state, so an undone session takes back what
was raised inside it: the pending session when a push starts, and the sessions a fork switch pops.
`KeepsLib` is the condition under which a push restores no state with a lower number, and on a run whose
steps all meet it the number never decreases.

## Contents
- **Ids.** `idAt`, the applied block at a height, and its stability.
- **The number.** `Floor`: down to a mark, no layer has less than a given last irreversible block.
- **Runs.** `Meets`, `lib_final`.
-/

namespace VizNode

/-! ## Ids -/

section Ids

variable {Tx L : Type} {U : SignedBlock Tx → Prop} {base : BlockId}

/-- The id of the applied block at height `n`, among the blocks applied since the node was opened. -/
def ChainState.idAt (s : ChainState Tx L) (n : Nat) : Option BlockId :=
  (s.chain.find? (fun b => decide (b.blockNum = n))).map (·.id)

theorem Chained.of_suffix {c d : List (SignedBlock Tx)} (h : Chained base d) (hs : c <:+ d) :
    Chained base c := by
  obtain ⟨pre, rfl⟩ := hs
  induction pre with
  | nil => exact h
  | cons b pre ih => exact ih h.2

/-- Numbers grow along a chain. -/
theorem Chained.num_le {pre c : List (SignedBlock Tx)} (hU : Universe U) (h : Chained base (pre ++ c))
    (hmem : ∀ b ∈ pre ++ c, U b) :
    (tipId base c).num ≤ (tipId base (pre ++ c)).num ∧ ∀ b ∈ pre, (tipId base c).num < b.blockNum := by
  induction pre with
  | nil => exact ⟨Nat.le_refl _, fun b hb => absurd hb (by simp)⟩
  | cons x pre ih =>
      obtain ⟨hle, hall⟩ := ih h.2 fun b hb => hmem b (by simp [List.mem_append.mp hb])
      have hx : x.blockNum = (tipId base (pre ++ c)).num + 1 := by
        rw [hU.num_eq (hmem x (by simp)), h.1]
        rfl
      refine ⟨?_, fun b hb => ?_⟩
      · show _ ≤ x.blockNum
        omega
      · rcases List.mem_cons.mp hb with rfl | hb
        · omega
        · exact hall b hb

/-- **A newer state has the older one's blocks at the older one's heights.** -/
theorem ChainState.idAt_of_suffix (hU : Universe U) {s t : ChainState Tx L} (hs : s.WellFormed U base)
    (ht : t.WellFormed U base) (h : t.chain <:+ s.chain) {n : Nat} (hn : n ≤ t.headBlockNum) :
    s.idAt n = t.idAt n := by
  obtain ⟨pre, hpre⟩ := h
  have hc := hs.chained
  have hm := hs.exists_
  rw [← hpre] at hc hm
  have hnum : n ≤ (tipId base t.chain).num := by rw [← ht.headId, ← ht.headNum]; exact hn
  have hnone : pre.find? (fun b => decide (b.blockNum = n)) = none := by
    rw [List.find?_eq_none]
    intro b hb
    have := (hc.num_le hU hm).2 b hb
    simp only [decide_eq_true_eq]
    omega
  unfold ChainState.idAt
  rw [← hpre, List.find?_append, hnone]
  rfl

end Ids

namespace Database

open Prog Relation UndoDb

variable {Tx L : Type} {U : SignedBlock Tx → Prop} {base : BlockId} {db db' : Database Tx L}
  {env : Env Tx L}

/-- **Up to the last irreversible block the applied ids stay**, whatever happens. -/
theorem idAt_stable (hU : Universe U) (h : Layers U base db) (h' : Layers U base db')
    (hg : Grounded Above db.chainbase db'.chainbase) {n : Nat} (hn : n ≤ db.lib) :
    db'.state.idAt n = db.state.idAt n := by
  have hold : n ≤ db.chainbase.oldest.headBlockNum :=
    Nat.le_trans hn (h.stacked.settled _ (state_mem_layers _))
  have hwf := h.stacked.each _ (oldest_mem_layers db.chainbase)
  have h₁ := ChainState.idAt_of_suffix hU h.wellFormed hwf
    (h.stacked.grounded Above.refl _ (state_mem_layers _)).1 hold
  have h₂ := ChainState.idAt_of_suffix hU h'.wellFormed hwf (hg _ (state_mem_layers _)).1 hold
  exact h₂.trans h₁.symm

/-! ## The number -/

/-- **Down to the first marked layer, no layer has a last irreversible block below `n`.** -/
def Floor (stop : ChainState Tx L → Prop) (n : Nat) : List (ChainState Tx L) → Prop
  | []      => True
  | s :: ss => n ≤ s.lib ∧ (stop s ∨ Floor stop n ss)

theorem Floor.of_prefix {stop : ChainState Tx L → Prop} {n : Nat} {l m : List (ChainState Tx L)}
    (h : Floor stop n l) (hm : m <+: l) : Floor stop n m := by
  induction m generalizing l with
  | nil => trivial
  | cons s m ih =>
      cases l with
      | nil => exact absurd hm (by simp)
      | cons t l =>
          obtain ⟨rfl, hm'⟩ := List.cons_prefix_cons.mp hm
          exact ⟨h.1, h.2.imp_right fun h' => ih h' hm'⟩

/-- Irreversibility only raises the number, and only commits sessions. -/
theorem LibTick.raises (t : LibTick db db') :
    db.lib ≤ db'.lib ∧ db'.chainbase.stack <+: db.chainbase.stack := by
  cases t with
  | @supported num h =>
      unfold raiseSupported
      split
      · next hlt => exact ⟨Nat.le_of_lt hlt, commit_stack_le _ (db.modifyFinality _).chainbase⟩
      · exact ⟨Nat.le_refl _, commit_stack_le _ _⟩
  | @confirmed o ho h =>
      refine ⟨?_, commit_stack_le _ (db.noteRaised o).chainbase⟩
      have hnum : 1 + db.lib = o.blockNum := by simpa using (Bool.and_eq_true_iff.mp h).1
      show db.lib ≤ o.blockNum
      omega
  | written hw =>
      have hc : db'.chainbase = db.chainbase := hw.chainbase
      unfold Database.lib Database.state
      rw [hc]
      exact ⟨Nat.le_refl _, List.prefix_rfl⟩
  | identified => exact ⟨(setFinalityId_kept _ _).2.ge, List.prefix_rfl⟩
  | trimmed => exact ⟨Nat.le_refl _, List.prefix_rfl⟩

theorem BlockTick.raises {b : SignedBlock Tx} (t : BlockTick env b db db') :
    db.lib ≤ db'.lib ∧ db'.chainbase.stack <+: db.chainbase.stack := by
  cases t with
  | lib t => exact t.raises
  | _ => exact ⟨Nat.le_refl _, List.prefix_rfl⟩

theorem BlockTicks.raises {b : SignedBlock Tx} (t : BlockTicks env b db db') :
    db.lib ≤ db'.lib ∧ db'.chainbase.stack <+: db.chainbase.stack := by
  induction t with
  | refl => exact ⟨Nat.le_refl _, List.prefix_rfl⟩
  | tail _ t ih => exact ⟨Nat.le_trans ih.1 t.raises.1, t.raises.2.trans ih.2⟩

/-- The floor of the layers of a node. -/
def HasFloor (stop : ChainState Tx L → Prop) (n : Nat) (db : Database Tx L) : Prop :=
  Floor stop n db.chainbase.layers

theorem applyInSession_floor {stop : ChainState Tx L → Prop} {n : Nat} (b : SignedBlock Tx) (skip : Skip)
    (h : HasFloor stop n db) : HasFloor stop n (after (applyInSession env b skip) db) := by
  have hent : ∀ skip' c, (db.startUndoSession.entered b skip' c).lib = db.lib ∧
      (db.startUndoSession.entered b skip' c).chainbase.stack =
        (db.chainbase.revision + 1, db.state) :: db.chainbase.stack := by
    intro skip' c
    unfold lib state
    rw [(entered_chainbase b skip' c db.startUndoSession).1]
    exact ⟨rfl, rfl⟩
  rcases applyInSession_cases env b skip db with
    ⟨e, he⟩ | ⟨skip', c, x, -, -, ht, hrun⟩
  · rw [after_error he]
    exact h
  · obtain ⟨hlib, hst⟩ := BlockTicks.raises ht
    rw [(hent skip' c).1] at hlib
    rw [(hent skip' c).2] at hst
    have hn : n ≤ x.lib := Nat.le_trans h.1 hlib
    rcases hrun with ⟨-, hr⟩ | ⟨e, -, hr⟩
    · rw [after_ok hr]
      exact ⟨hn, .inr (Floor.of_prefix h (hst.map Prod.snd))⟩
    · rw [after_error hr]
      show Floor stop n x.chainbase.undo.layers
      rcases undo_cases x.chainbase with ⟨hnil, hu⟩ | ⟨e', st, hcons, hu⟩
      · -- the session of the block is committed: the throw leaves its state behind
        rw [hu]
        unfold layers
        rw [hnil]
        exact ⟨hn, .inr trivial⟩
      · rw [hcons] at hst
        obtain ⟨rfl, hst'⟩ := List.cons_prefix_cons.mp hst
        rw [hu]
        refine Floor.of_prefix h (List.cons_prefix_cons.mpr ⟨rfl, ?_⟩)
        exact hst'.map Prod.snd

/-- The mark of a state depends on its head. -/
def OfHead (stop : ChainState Tx L → Prop) : Prop := ∀ s s', s'.headBlockId = s.headBlockId →
  s'.headBlockNum = s.headBlockNum → stop s → stop s'

theorem Move.floor {stop : ChainState Tx L → Prop} {n : Nat} (hstop : OfHead stop)
    (m : Move env U stop db db') (h : HasFloor stop n db) : HasFloor stop n db' := by
  cases m with
  | forkDb f => exact h
  | popped txs => exact h
  | applied hb skip => exact applyInSession_floor _ skip h
  | undone hs =>
      show Floor stop n db.chainbase.undo.layers
      rcases undo_cases db.chainbase with ⟨-, hu⟩ | ⟨e, st, hst, hu⟩
      · rw [hu]
        exact h
      · have h' : Floor stop n (db.chainbase.state :: db.chainbase.stack.map Prod.snd) := h
        rw [hst] at h'
        rw [hu]
        exact h'.2.resolve_left hs
  | aslot _ name =>
      have h' : Floor stop n (db.state :: db.chainbase.stack.map Prod.snd) := h
      exact ⟨h'.1, h'.2.imp_left (hstop db.state (correctAslot name db).state rfl rfl)⟩

theorem Moves.floor {stop : ChainState Tx L → Prop} {n : Nat} (hstop : OfHead stop)
    (m : ReflTransGen (Move env U stop) db db') (h : HasFloor stop n db) : HasFloor stop n db' := by
  induction m with
  | refl => exact h
  | tail _ m ih => exact m.floor hstop ih

theorem TxMoves.lib (t : ReflTransGen (TxMove env) db db') : db'.lib = db.lib := by
  induction t with
  | refl => rfl
  | tail _ t ih =>
      refine Eq.trans ?_ ih
      cases t with
      | queued _ _ => rfl
      | opened =>
          unfold openPendingSession
          split <;> rfl
      | executed _ _ => rfl

/-! ## Runs -/

/-- A block that is applied becomes the head, and names the old one. -/
theorem applyInSession_head {b : SignedBlock Tx} {skip : Skip} (hU : Universe U) (hb : U b)
    (hidle : db.pendingTxSession = false) (h : applyInSession env b skip db = .ok () db') :
    b.previous = db.headBlockId ∧ db'.headBlockNum = b.blockNum := by
  rcases applyInSession_cases env b skip db with
    ⟨e, he⟩ | ⟨skip', c, x, -, hc, ht, ⟨-, hr⟩ | ⟨e, -, hr⟩⟩
  · exact absurd (he.symm.trans h) (by simp)
  · obtain rfl := (EStateM.Result.ok.inj (hr.symm.trans h)).2
    obtain ⟨-, hnum⟩ : Advances U BlockId.zero db _ ∧ _ := entered_advances hU hb hidle hc
    obtain ⟨-, hnum'⟩ : Advances U BlockId.zero _ _ ∧ _ := BlockTicks.advances ht hnum
    exact ⟨(Core.beginBlock_head hc).1, hnum'⟩
  · exact absurd (hr.symm.trans h) (by simp)

/-- The layers from the newest one down to the one with head `id`. -/
def downTo (id : BlockId) : List (ChainState Tx L) → List (ChainState Tx L)
  | []      => []
  | s :: ss => if s.headBlockId = id then [s] else s :: downTo id ss

theorem floor_of_downTo {id : BlockId} {stop : ChainState Tx L → Prop} {n : Nat}
    (hstop : ∀ s, s.headBlockId = id → stop s) {l : List (ChainState Tx L)}
    (h : ∀ s ∈ downTo id l, n ≤ s.lib) : Floor stop n l := by
  induction l with
  | nil => trivial
  | cons s l ih =>
      unfold downTo at h
      split at h
      · next hid => exact ⟨h s (by simp), .inl (hstop s hid)⟩
      · exact ⟨h s (by simp), .inr (ih fun t ht => h t (by simp [ht]))⟩

/-- Where the pops of a push end, when it switches forks. -/
def switchPoint (b : SignedBlock Tx) (skip : Skip) (db : Database Tx L) : Option BlockId :=
  match planPush b skip db.clearPending with
  | .ok (.switchTo h) x => x.switchTarget h
  | _                   => none

/-- The states a push may restore by its pops. -/
def restorable (b : SignedBlock Tx) (skip : Skip) (db : Database Tx L) : List (ChainState Tx L) :=
  match db.switchPoint b skip with
  | none    => []
  | some id => downTo id db.clearPending.chainbase.layers

/-- **The step restores no state with a lower last irreversible block**: neither the one below the pending
    session nor one down to the fork of a switch. Only a push restores states. -/
def KeepsLib (db : Database Tx L) : Step Tx → Prop
  | .block b skip => db.lib ≤ db.clearPending.lib ∧ ∀ s ∈ db.restorable b skip, db.lib ≤ s.lib
  | _             => True

instance keepsLibDecidable (db : Database Tx L) : ∀ x, Decidable (KeepsLib db x)
  | .block _ _        => inferInstanceAs (Decidable (_ ∧ _))
  | .confirmation _ _ => .isTrue trivial
  | .transaction _ _  => .isTrue trivial

/-- What a push does not undo: below the applied block when it goes directly, and at the fork or below
    when it switches. -/
def pushStop (env : Env Tx L) (b : SignedBlock Tx) (skip : Skip) (db : Database Tx L)
    (s : ChainState Tx L) : Prop :=
  (∀ x y, planPush b skip db = .ok .direct x → applyInSession env b skip x = .ok () y →
    s.headBlockNum ≤ y.headBlockNum) ∧
  ∀ x h, planPush b skip db = .ok (.switchTo h) x → ∀ id, x.switchTarget h = some id → s.headBlockId = id

theorem pushStop_ofHead (b : SignedBlock Tx) (skip : Skip) : OfHead (pushStop env b skip db) := by
  intro s s' hid hnum h
  unfold pushStop at h ⊢
  rw [hid, hnum]
  exact h

/-- **The floor a push starts with.** -/
theorem KeepsLib.floor {b : SignedBlock Tx} {skip : Skip} (hU : Universe U) (hb : U b)
    (hl : Layers U base db.clearPending) (h : KeepsLib db (.block b skip)) :
    HasFloor (pushStop env b skip db.clearPending) db.lib db.clearPending := by
  obtain ⟨hpend, hrest⟩ := h
  unfold restorable switchPoint at hrest
  cases hplan : planPush b skip db.clearPending with
  | error e x => exact ⟨hpend, .inl ⟨by simp [hplan], by simp [hplan]⟩⟩
  | ok route x =>
      have honly := (planPush_only b skip db.clearPending).of_ok hplan
      cases route with
      | keep => exact ⟨hpend, .inl ⟨by simp [hplan], by simp [hplan]⟩⟩
      | direct =>
          refine ⟨hpend, .inl ⟨fun x' y hx' hy => ?_, by simp [hplan]⟩⟩
          obtain rfl := (EStateM.Result.ok.inj (hplan.symm.trans hx')).2
          have hidle : x.pendingTxSession = false := by rw [honly]; exact clearPending_idle db
          obtain ⟨hprev, hnum⟩ := applyInSession_head hU hb hidle hy
          have hhead : x.headBlockId = db.clearPending.headBlockId := by rw [honly]; rfl
          have hwf := hl.wellFormed.headNum
          have hid : b.previous = db.clearPending.state.headBlockId := hprev.trans hhead
          rw [hnum, hU.num_eq hb, hid]
          exact Nat.le_succ_of_le hwf.le
      | switchTo h =>
          rw [hplan] at hrest
          dsimp only at hrest
          cases htarget : x.switchTarget h with
          | none =>
              refine ⟨hpend, .inl ⟨by simp [hplan], fun x' h' hx' id hid => ?_⟩⟩
              obtain ⟨hh, rfl⟩ := EStateM.Result.ok.inj (hplan.symm.trans hx')
              obtain rfl := Route.switchTo.inj hh
              exact absurd (htarget.symm.trans hid) (by simp)
          | some id =>
              rw [htarget] at hrest
              refine floor_of_downTo (fun s (hs : s.headBlockId = id) => ⟨by simp [hplan], ?_⟩) hrest
              intro x' h' hx' id' hid'
              obtain ⟨hh, rfl⟩ := EStateM.Result.ok.inj (hplan.symm.trans hx')
              obtain rfl := Route.switchTo.inj hh
              rw [hs]
              exact Option.some.inj (htarget.symm.trans hid')

theorem ConfirmTick.lib_le {id : BlockId} {account : AccountName} (t : ConfirmTick id account db db') :
    db.lib ≤ db'.lib := by
  cases t with
  | lib t => exact t.raises.1
  | marked _ _ => exact Nat.le_refl _

/-- **A step that meets the condition does not lower the last irreversible block.** -/
theorem step_lib_le (hU : Universe U) {x : Step Tx} (hx : x.From U) (h : InOrder U base db)
    (hk : KeepsLib db x) : db.lib ≤ (step env db x).lib := by
  cases x with
  | block b skip =>
      have hl := (clearPending_advances db h.layers).1
      have hstops : StopsAt env b skip (pushStop env b skip db.clearPending) db.clearPending :=
        ⟨fun x y hp hy s hs => hs.1 x y hp hy, fun x h' hp s hs id hid => hs.2 x h' hp id hid⟩
      obtain ⟨y, -, hm, -, ht⟩ := pushBlock_moving hx hstops h.stored
      have hfloor := Moves.floor (pushStop_ofHead b skip) hm (hk.floor hU hx hl)
      show db.lib ≤ (after (pushBlock env b skip) db).lib
      rw [TxMoves.lib ht]
      exact hfloor.1
  | confirmation id account => exact applyBlockPostValidation_moves (fun _ _ t => t.lib_le) db
  | transaction tx skip =>
      exact (TxMoves.lib (pushTransaction_moves h.layers.pendingOpen tx skip)).ge

theorem run_lib_le (hU : Universe U) {steps : List (Step Tx)} (hs : ∀ x ∈ steps, x.From U)
    (h : InOrder U base db) (hk : Meets KeepsLib env db steps) : db.lib ≤ (run env db steps).lib := by
  induction steps generalizing db with
  | nil => exact Nat.le_refl _
  | cons x xs ih =>
      have hx := hs x (by simp)
      have hstep : db.lib ≤ (step env db x).lib := step_lib_le hU hx h hk.1
      have hord : InOrder U base (run env db [x]) := (run_inOrder hU (by simpa using hx) h).1
      exact Nat.le_trans hstep (ih (fun y hy => hs y (by simp [hy])) hord hk.2)

/-- **Irreversibility is final on a run that restores no lower last irreversible block.** Between any two
    of its states the number does not decrease, it is at most the head, and up to it the applied ids stay. -/
theorem lib_final (hU : Universe U) {steps₁ steps₂ : List (Step Tx)}
    (hs : ∀ x ∈ steps₁ ++ steps₂, x.From U) (h : InOrder U base db)
    (hk : Meets KeepsLib env db (steps₁ ++ steps₂)) :
    (run env db steps₁).lib ≤ (run env db (steps₁ ++ steps₂)).lib ∧
    (run env db (steps₁ ++ steps₂)).lib ≤ (run env db (steps₁ ++ steps₂)).headBlockNum ∧
    ∀ n ≤ (run env db steps₁).lib,
      (run env db (steps₁ ++ steps₂)).state.idAt n = (run env db steps₁).state.idAt n := by
  have hs₁ : ∀ x ∈ steps₁, x.From U := fun x hx => hs x (List.mem_append_left _ hx)
  have hs₂ : ∀ x ∈ steps₂, x.From U := fun x hx => hs x (List.mem_append_right _ hx)
  have h₁ : InOrder U base (run env db steps₁) := (run_inOrder hU hs₁ h).1
  obtain ⟨h₂, hg⟩ : InOrder U base (run env (run env db steps₁) steps₂) ∧ _ := run_inOrder hU hs₂ h₁
  rw [run_append]
  exact ⟨run_lib_le hU hs₂ h₁ hk.append.2, h₂.layers.wellFormed.lib_le,
    fun n hn => idAt_stable hU h₁.layers h₂.layers hg hn⟩

end Database

namespace Sample

/-- Two blocks that leave the chain at the second block. -/
def c3 : SignedBlock Tx := block b2.id 18 3 20
def c4 : SignedBlock Tx := block c3.id 21 4 21

end Sample

namespace Database

open Sample in
/-- **A fork switch takes the last irreversible block back**: the second block became irreversible while
    the third one was applied, and goes back to being reversible with it. -/
theorem lib_decreases :
    (run env four confirmB2).lib = 2 ∧
    (run env four (confirmB2 ++ [.block c3 Skip.nothing, .block c4 Skip.nothing])).lib = 1 := by
  decide +kernel

open Sample in
/-- A run on which the number is raised, and stays. -/
theorem lib_final_sample :
    (run env four confirmB2).lib = 2 ∧
    2 ≤ (run env four (confirmB2 ++ [.block (block b3.id 12 1 4) Skip.nothing])).lib := by
  have hlib : (run env four confirmB2).lib = 2 := by decide +kernel
  have hU : Universe (· ∈ [block1, b2, b3, block b3.id 12 1 4]) :=
    Universe.of_list (by decide +kernel) (by decide +kernel)
  have hstart : InOrder (· ∈ [block1, b2, b3, block b3.id 12 1 4]) block1.id four :=
    node_inOrder (by simp) (by decide +kernel) _
  refine ⟨hlib, hlib ▸ (lib_final hU ?_ hstart ?_).1⟩
  · decide +kernel
  · decide +kernel

end Database

end VizNode
