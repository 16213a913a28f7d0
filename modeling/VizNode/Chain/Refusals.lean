import VizNode.Chain.ForkHead

/-!
# `VizNode.Chain.Refusals` — the head after a refused block

**What holds by design.** In a run of pushes and pops the head of the fork database is a linked block, the
parent pointers lead to the parents, and a refused block is not the head (`tip_stays_linked`). A block refused
for its schedule is kept on purpose, and may be the head.

**Where the design is missed.** `remove` does not look at the head. `KeepsTip` lists the five places where that
shows: a block refused while it is the head, a head pruned as a dead fork, a switch whose own block or first pop
is missing, a recovery that throws or comes back to a head the window has dropped, and a cascade whose rollback
does not get below the refused block.

## Contents
- **Refused blocks.** `Switching`, `Refused`, `KeepsTip`.
- **One push** keeps the shape, and its refused blocks are not the head.
- **Runs** of commands, and samples.
-/

namespace VizNode

namespace Database

open Prog Relation ForkDatabase

variable {Tx L : Type} {U : SignedBlock Tx → Prop} {env : Env Tx L} {skip : Skip} {b x : SignedBlock Tx}
  {db p : Database Tx L} {newHead ancestor front : ForkItem Tx} {first second : List (ForkItem Tx)}

/-! ## Refused blocks -/

/-- **The push of `b` switches forks**: node `p` is about to leave its branch `second` for the branch `first` of
    `newHead`. -/
structure Switching (b : SignedBlock Tx) (skip : Skip) (db p : Database Tx L) (newHead : ForkItem Tx)
    (first second : List (ForkItem Tx)) (ancestor front : ForkItem Tx) : Prop where
  plan   : planPush b skip db.clearPending = .ok (.switchTo newHead) p
  known  : p.forkDb.isKnownBlock p.headBlockId = true
  branch : p.forkDb.fetchBranchFrom newHead.id p.headBlockId = .ok (first, second)
  last   : second.getLast? = some ancestor
  front  : second.head? = some front

/-- **Block `x` is refused** while `b` is pushed: `b` itself, for another reason than its schedule, or a block of
    the branch that is switched to, or a block of the cascade. -/
inductive Refused (env : Env Tx L) (b : SignedBlock Tx) (skip : Skip) (db : Database Tx L) : SignedBlock Tx → Prop where
  | direct {p q : Database Tx L} {e : Exn} (hplan : planPush b skip db.clearPending = .ok .direct p)
      (happ : applyInSession env b skip p = .error e q) (he : e ≠ .wrongScheduledValidator) : Refused env b skip db b
  | switched {p d : Database Tx L} {newHead ancestor front y : ForkItem Tx}
      {first second above : List (ForkItem Tx)} (hs : Switching b skip db p newHead first second ancestor front)
      (hf : SwitchFails env skip newHead first second ancestor (p.hold (newHead :: (first ++ second))) y above d) :
      Refused env b skip db y.data
  | cascaded {c d d' : Database Tx L} {fb y : ForkItem Tx} {first second done : List (ForkItem Tx)}
      (hc : Cascading env b skip db c fb first second) (hf : FailsAfter env skip c fb first second done y d d') :
      Refused env b skip db y.data

/-- **The push of `b` keeps the tip**: it does not come to one of the places where the head is lost. -/
structure KeepsTip (env : Env Tx L) (b : SignedBlock Tx) (skip : Skip) (db : Database Tx L) : Prop where
  /-- A block that is refused, other than for its schedule, is not the head. -/
  refused  : ∀ p q e h, planPush b skip db.clearPending = .ok .direct p →
    applyInSession env b skip p = .error e q → e ≠ .wrongScheduledValidator → p.forkDb.head = some h → h.id ≠ b.id
  /-- A head beside the applied block is not a dead fork. -/
  pruned   : ∀ p q h, planPush b skip db.clearPending = .ok .direct p → applyInSession env b skip p = .ok () q →
    q.forkDb.head = some h → h.num = b.blockNum → h.id ≠ b.id → q.forkDb.isKnownBlock h.previousId = true
  /-- The rollback of a cascade returns, and starts below the refused block. -/
  cascaded : ∀ c fb first second done y d d', Cascading env b skip db c fb first second →
    FailsAfter env skip c fb first second done y d d' →
    d'.headBlockId ≠ y.id ∧ ∃ z, recoverCascade c.headBlockNum (d'.hold [fb]) = .ok () z
  /-- The fork database knows the block a switch starts from. -/
  known    : ∀ p h, planPush b skip db.clearPending = .ok (.switchTo h) p →
    p.forkDb.isKnownBlock p.headBlockId = true
  /-- A switch that has to pop may pop the first block. -/
  pops     : ∀ p h first second ancestor front, Switching b skip db p h first second ancestor front →
    p.isLinearExtension first second = true ∨ p.lib < p.headBlockNum
  /-- The recovery of a switch puts back a linked head. -/
  recovers : ∀ p h first second ancestor front y above d, Switching b skip db p h first second ancestor front →
    SwitchFails env skip h first second ancestor (p.hold (h :: (first ++ second))) y above d →
    Recovers env skip (p.isLinearExtension first second) second ancestor front (removeAll (y :: above) d)

/-! ## One push -/

/-- **The direct application keeps the shape.** -/
theorem applyDirect_shape (hU : Universe U) (hk : KeepsTip env b skip db)
    (hplan : planPush b skip db.clearPending = .ok .direct p) (h : Tended U [] p) :
    InShape U (after (applyDirect env b skip) p).forkDb := by
  unfold after
  have happly : KeepsTended U [] (applyInSession env b skip) p := applyInSession_tended b skip p
  have htrims : MovesAt Trims (applyInSession env b skip) p := applyInSession_trims b skip p
  cases hr : applyInSession env b skip p with
  | ok u q =>
      have hq : Tended U [] q := happly.of_ok hr h
      have hprune : Tended U [] (q.modifyForkDb (pruneCompeting b)) := by
        have hmove : Moving env U (fun _ => False) [] q (q.modifyForkDb (pruneCompeting b)) := prune_moving b q
        refine ⟨(hmove hq.pushing).1, (pruneCompeting_sorted b hq.shape.sorted).inShape ?_⟩
        intro y hy
        have hhead : q.forkDb.head = some y := (pruneCompeting_head b q.forkDb).symm.trans hy
        exact pruneCompeting_keeps hU hq.shape.linked (hq.shape.head y hhead) (hk.pruned p q y hplan hr hhead)
      have hcas : InShape U (after (cascade env b skip) _).forkDb := cascade_shape hU hprune
      unfold after at hcas
      simp only [applyDirect, bind_run, applyOrKeep_of_ok hr, if_true, modify_run, pure_run]
      cases hc : cascade env b skip (q.modifyForkDb (pruneCompeting b)) with
      | ok v z =>
          rw [hc] at hcas
          exact hcas
      | error e z =>
          rw [hc] at hcas
          exact hcas
  | error e q =>
      have hq : Tended U [] q := happly.of_error hr h
      by_cases he : e = .wrongScheduledValidator
      · subst he
        simp only [applyDirect, applyOrKeep, bind_run, tryCatch_run, hr, if_true, pure_run]
        exact hq.shape
      · simp only [applyDirect, applyOrKeep, bind_run, tryCatch_run, hr, if_neg he, modify_run, throw_run]
        refine hq.shape.remove ?_
        intro y hy
        exact hk.refused p q e y hplan hr he ((htrims.of_error hr).head.symm.trans hy)

theorem Switching.clean (hs : Switching b skip db p newHead first second ancestor front) (h : Tended U [] p) :
    Clean U (newHead :: (first ++ second)) (p.hold (newHead :: (first ++ second))) := by
  refine h.clean ?_
  intro y hy
  rcases List.mem_cons.mp hy with rfl | hy
  · exact h.shape.head y (planPush_switch hs.plan).1
  · exact branches_linked h.shape h.pushing.held hs.branch y hy

/-- The body of a switch is what its push comes to. -/
theorem Switching.stages (hs : Switching b skip db p newHead first second ancestor front) :
    switchForks env skip newHead p =
      holding (newHead :: (first ++ second)) (runSwitch env skip newHead first second ancestor) p := by
  simp only [switchForks, get_bind_run, hs.known, hs.branch, hs.last, Bool.not_true, Bool.false_eq_true, if_false]

/-- **The switch keeps the shape.** -/
theorem switchForks_shape (hU : Universe U) (hk : KeepsTip env b skip db)
    (hplan : planPush b skip db.clearPending = .ok (.switchTo newHead) p) (h : Tended U [] p) :
    InShape U (after (switchForks env skip newHead) p).forkDb := by
  have hknown := hk.known p newHead hplan
  cases hr : p.forkDb.fetchBranchFrom newHead.id p.headBlockId with
  | error e =>
      have hrun : switchForks env skip newHead p = (resetForkDbToHead >>= fun _ => throw .unlinkableBlock) p := by
        simp only [switchForks, get_bind_run, hknown, hr, Bool.not_true, Bool.false_eq_true, if_false]
      have hreset : InShape U (after resetForkDbToHead p).forkDb :=
        restart_shape (fun c hc => (h.pushing.sound.fetchBlockById hc).1) h.shape
      unfold after at hreset ⊢
      rw [hrun, bind_run]
      cases hz : resetForkDbToHead p with
      | ok u z =>
          rw [hz] at hreset
          exact hreset
      | error e z =>
          rw [hz] at hreset
          exact hreset
  | ok r =>
      have hforked := fetchBranchFrom_ok h.shape.linked hr
      obtain ⟨ancestor, hlast⟩ : ∃ a, r.2.getLast? = some a := ⟨_, List.getLast?_eq_some_getLast hforked.neB⟩
      obtain ⟨front, hfront⟩ : ∃ a, r.2.head? = some a := ⟨_, List.head?_eq_some_head hforked.neB⟩
      have hs : Switching b skip db p newHead r.1 r.2 ancestor front := ⟨hplan, hknown, hr, hlast, hfront⟩
      have hhead : HeadWithin newHead.num (p.hold (newHead :: (r.1 ++ r.2))) := by
        intro y hy
        obtain rfl := Option.some.inj ((planPush_switch hplan).1.symm.trans hy)
        exact Nat.le_refl _
      unfold after
      rw [hs.stages]
      refine holding_shape (m := runSwitch env skip newHead r.1 r.2 ancestor) ?_
      exact runSwitch_shape hU hlast hfront (hs.clean h) List.mem_cons_self hhead
        (hk.pops p newHead r.1 r.2 ancestor front hs) fun y above d => hk.recovers p newHead r.1 r.2 ancestor front y above d hs

/-- **The stages of a push keep the shape.** -/
theorem pushBlockStages_shape (hU : Universe U) (hb : U b) (hk : KeepsTip env b skip db)
    (h : Tended U [] db.clearPending) : InShape U (after (pushBlockStages env b skip) db.clearPending).forkDb := by
  have hplan : KeepsTended U [] (planPush b skip) db.clearPending := planPush_tended hb skip _
  unfold after
  cases hr : planPush b skip db.clearPending with
  | error e p =>
      simp only [pushBlockStages, bind_run, hr]
      exact (hplan.of_error hr h).shape
  | ok route p =>
      have hp : Tended U [] p := hplan.of_ok hr h
      simp only [pushBlockStages, bind_run, hr]
      cases route with
      | direct => exact applyDirect_shape hU hk hr hp
      | switchTo newHead => exact switchForks_shape hU hk hr hp
      | keep => exact hp.shape

/-- **The node is at rest**: its storage is in order, and the fork database in shape. -/
structure AtRest (U : SignedBlock Tx → Prop) (db : Database Tx L) : Prop where
  stored : Stored U db
  shape  : InShape U db.forkDb

theorem AtRest.tended (h : AtRest U db) : Tended U [] db.clearPending := by
  refine ⟨h.stored.pushing, ?_⟩
  rw [(clearPending_storage db).forkDb]
  exact h.shape

/-- What the stages leave in the fork database is what the push leaves. -/
theorem pushBlock_forkDb (hb : U b) (h : Stored U db) :
    (after (pushBlock env b skip) db).forkDb = (after (pushBlockStages env b skip) db.clearPending).forkDb := by
  obtain ⟨y, -, -, rfl, ht⟩ := pushBlock_moving hb (stopsAt_never b skip db.clearPending) h
  exact (TxMoves.storage ht).forkDb

/-- **A refused block is not the head afterwards.** -/
theorem Refused.not_head (hU : Universe U) (hb : U b) (hk : KeepsTip env b skip db) (h : AtRest U db)
    (hx : Refused env b skip db x) :
    ∀ y, (after (pushBlock env b skip) db).forkDb.head = some y → y.id ≠ x.id := by
  rw [pushBlock_forkDb hb h.stored]
  cases hx with
  | direct hplan happ he =>
      rename_i p q e
      intro y hy
      refine hk.refused p q e y hplan happ he ?_
      have htrims : Trims p q := (applyInSession_trims b skip p).of_error happ
      unfold after at hy
      simp only [pushBlockStages, bind_run, hplan, followRoute, applyDirect, applyOrKeep, tryCatch_run, happ,
        if_neg he, modify_run, throw_run] at hy
      exact htrims.head.symm.trans hy
  | switched hs hf =>
      rename_i p d newHead ancestor front w first second above
      obtain ⟨z, hrun, -, -, hne⟩ := hf.leaves U hs.last hs.front
        (hk.recovers p newHead first second ancestor front w above d hs hf)
      have hstages : pushBlockStages env b skip db.clearPending =
          .ok false ((z.modifyForkDb (ForkDatabase.setHead front)).hold []) := by
        simp only [pushBlockStages, bind_run, hs.plan, followRoute, hs.stages]
        simp only [holding, bind_run, modify_run, tryCatch_run]
        rw [show modifyForkDb (fun f => { f with held := newHead :: (first ++ second) }) p =
          p.hold (newHead :: (first ++ second)) from rfl, hrun]
        rfl
      intro y hy
      rw [after_ok hstages] at hy
      obtain rfl : front = y := Option.some.inj hy
      exact hne
  | cascaded hc hf =>
      rename_i c d d' fb w first second done
      have hlink : Linked U c.forkDb := (hc.pushing hb h.stored).sound.linked
      obtain ⟨hne, z, hz⟩ := hk.cascaded c fb first second done w d d' hc hf
      have hstages : pushBlockStages env b skip db.clearPending = .ok true (z.hold []) := by
        rw [hc.stages, bind_run, hf.cascade_eq hU hlink hc]
        simp only [holding, bind_run, modify_run, tryCatch_run]
        rw [show modifyForkDb (fun f => { f with held := [fb] }) (modifyForkDb (fun f => { f with held := [] }) d') =
          d'.hold [fb] from rfl, hz]
        rfl
      intro y hy
      rw [after_ok hstages] at hy
      -- the fork database was started again with the block the refusal left as the head
      have hblk := recoverCascade_forkHead hz
      have hhead : z.forkDb.head = some y := hy
      rw [hhead, Option.map_some] at hblk
      intro he
      exact hne ((fetchBlockById_id hblk.symm).symm.trans he)

/-! ## Runs -/

/-- What a node is told: a step, or to pop its head. -/
inductive Command (Tx : Type) where
  | step (x : Step Tx)
  | pop

/-- A block that is brought is one of `U`. -/
def Command.From (U : SignedBlock Tx → Prop) : Command Tx → Prop
  | .step x => x.From U
  | .pop    => True

/-- One command, whether it returns or throws. -/
def execute (env : Env Tx L) (db : Database Tx L) : Command Tx → Database Tx L
  | .step x => step env db x
  | .pop    => after popBlock db

def executeAll (env : Env Tx L) (db : Database Tx L) (cmds : List (Command Tx)) : Database Tx L :=
  cmds.foldl (execute env) db

/-- A push among the commands keeps the tip. -/
def TipKept (env : Env Tx L) (db : Database Tx L) : Command Tx → Prop
  | .step (.block b skip) => KeepsTip env b skip db
  | _                     => True

/-- **Every push of the run keeps the tip**, in the state it starts from. -/
def Steady (env : Env Tx L) : Database Tx L → List (Command Tx) → Prop
  | _,  []      => True
  | db, x :: xs => TipKept env db x ∧ Steady env (execute env db x) xs

theorem Steady.append {xs ys : List (Command Tx)} (h : Steady env db (xs ++ ys)) :
    Steady env db xs ∧ Steady env (executeAll env db xs) ys := by
  induction xs generalizing db with
  | nil => exact ⟨trivial, h⟩
  | cons x xs ih => exact ⟨⟨h.1, (ih h.2).1⟩, (ih h.2).2⟩

theorem ConfirmTick.trims {id : BlockId} {account : AccountName} {db' : Database Tx L}
    (t : ConfirmTick id account db db') : Trims db db' := by
  cases t with
  | lib t => exact t.trims
  | marked _ _ => exact refl_of Trimmed _

/-- A pop takes the pending session away first. -/
theorem popBlock_reset (db : Database Tx L) : popBlock db.resetPendingSession = popBlock db := by
  have hreset : db.resetPendingSession.resetPendingSession = db.resetPendingSession := by
    cases hp : db.pendingTxSession with
    | true => simp [resetPendingSession, hp]
    | false => simp [resetPendingSession, hp]
  simp only [popBlock, bind_run, modify_run, hreset]

theorem popBlock_atRest (env : Env Tx L) (hU : Universe U) (h : AtRest U db) : AtRest U (after popBlock db) := by
  have hstorage : SameStorage db db.resetPendingSession := by
    unfold resetPendingSession
    split <;> exact ⟨rfl, rfl, rfl, rfl⟩
  have hidle : db.resetPendingSession.pendingTxSession = false := clearPending_idle db
  have hstored := h.stored.congr hstorage
  have hpush : Pushing U [] db.resetPendingSession := ⟨hstored.sound, hstored.held, hidle⟩
  have hclean : Clean U [] db.resetPendingSession := by
    refine ⟨⟨hpush, ?_⟩, fun y hy => absurd hy (by simp)⟩
    rw [hstorage.forkDb]
    exact h.shape
  have hafter : after popBlock db = after popBlock db.resetPendingSession := by
    unfold after
    rw [popBlock_reset]
  have hkept : Pushing U [] (after popBlock db.resetPendingSession) := popBlock_pushing env _ hpush
  rw [hafter]
  refine ⟨⟨hkept.sound, hkept.held⟩, ?_⟩
  rcases popBlock_fork db.resetPendingSession with ⟨e, y, he, hfork⟩ | ⟨y, -, -, hy, -, -, -⟩
  · rw [after_error he, hfork]
    exact hclean.tended.shape
  · rw [after_ok hy]
    exact (hclean.pop env hU hy).1.tended.shape

/-- **Every command leaves the node at rest.** -/
theorem execute_atRest (hU : Universe U) {c : Command Tx} (hc : c.From U) (hk : TipKept env db c) (h : AtRest U db) :
    AtRest U (execute env db c) := by
  cases c with
  | pop => exact popBlock_atRest env hU h
  | step s =>
      refine ⟨step_stored s hc h.stored, ?_⟩
      cases s with
      | block b skip =>
          show InShape U (after (pushBlock env b skip) db).forkDb
          rw [pushBlock_forkDb hc h.stored]
          exact pushBlockStages_shape hU hc hk h.tended
      | confirmation id account =>
          refine h.shape.trimmed ?_
          exact applyBlockPostValidation_moves (R := Trims) (fun _ _ t => t.trims) db
      | transaction tx skip =>
          have hs : SameStorage db (after (pushTransaction env tx skip) db) := pushTransaction_storage tx skip db
          show InShape U (after (pushTransaction env tx skip) db).forkDb
          rw [hs.forkDb]
          exact h.shape

theorem executeAll_atRest (hU : Universe U) {cmds : List (Command Tx)} (hfrom : ∀ c ∈ cmds, c.From U)
    (hk : Steady env db cmds) (h : AtRest U db) : AtRest U (executeAll env db cmds) := by
  induction cmds generalizing db with
  | nil => exact h
  | cons c cs ih =>
      exact ih (fun d hd => hfrom d (by simp [hd])) hk.2 (execute_atRest hU (hfrom c (by simp)) hk.1 h)

/-- **The fork database is consistent**: its head is linked, and a parent pointer that can be followed leads to
    the linked parent. -/
structure Consistent (f : ForkDatabase Tx) : Prop where
  head : ∀ h, f.head = some h → h ∈ f.index
  prev : ∀ x ∈ f.index, ∀ p, f.lock x.prev = some p → p ∈ f.index ∧ p.id = x.previousId ∧ p.num + 1 = x.num

theorem AtRest.consistent (hU : Universe U) (h : AtRest U db) : Consistent db.forkDb := by
  refine ⟨h.shape.head, ?_⟩
  intro y hy q hq
  have hlive : y ∈ db.forkDb.live := mem_live_of_index hy
  have hpos : 0 < y.num := by
    show 0 < y.data.blockNum
    rw [hU.num_eq (h.shape.linked.data y hlive)]
    exact Nat.succ_pos _
  refine ⟨h.shape.lock_linked ?_ hlive hq, h.shape.linked.lock_id hlive hq, h.shape.linked.lock_num hlive hq hpos⟩
  rw [h.stored.held]
  exact fun z hz => absurd hz (by simp)

/-- **The tip stays linked.** A node at rest is told anything, in any order, and no push comes to one of the
    places where the head is lost: then the fork database is consistent, and after a push no block refused in it
    is the head. -/
theorem tip_stays_linked (hU : Universe U) (h : AtRest U db) {cmds : List (Command Tx)}
    (hfrom : ∀ c ∈ cmds, c.From U) (hk : Steady env db cmds) :
    Consistent (executeAll env db cmds).forkDb ∧
    ∀ before b skip, cmds = before ++ [.step (.block b skip)] →
      ∀ x, Refused env b skip (executeAll env db before) x →
        ∀ y, (executeAll env db cmds).forkDb.head = some y → y.id ≠ x.id := by
  refine ⟨(executeAll_atRest hU hfrom hk h).consistent hU, ?_⟩
  rintro before b skip rfl x hx
  obtain ⟨hpre, hlast⟩ := hk.append
  have hb : U b := hfrom (.step (.block b skip)) (by simp)
  have hrest : AtRest U (executeAll env db before) :=
    executeAll_atRest hU (fun c hc => hfrom c (by simp [hc])) hpre h
  have hrun : executeAll env db (before ++ [.step (.block b skip)]) =
      after (pushBlock env b skip) (executeAll env db before) := by
    unfold executeAll
    rw [List.foldl_append]
    rfl
  rw [hrun]
  exact hx.not_head hU hb hlast.1 hrest

theorem isLinearExtension_hold (items : List (ForkItem Tx)) (db : Database Tx L) (first second : List (ForkItem Tx)) :
    (db.hold items).isLinearExtension first second = db.isLinearExtension first second := rfl

/-! ## Pushes that keep the tip -/

/-- A block that is put aside. -/
theorem KeepsTip.of_keep (hplan : planPush b skip db.clearPending = .ok .keep p) : KeepsTip env b skip db := by
  refine ⟨?_, ?_, ?_, ?_, ?_, ?_⟩
  · intro p' q e h hp
    exact absurd (hplan.symm.trans hp) (by simp)
  · intro p' q h hp
    exact absurd (hplan.symm.trans hp) (by simp)
  · intro c fb first second done y d d' hc
    obtain ⟨p', q, hp, -, -⟩ := hc.applied
    exact absurd (hplan.symm.trans hp) (by simp)
  · intro p' h hp
    exact absurd (hplan.symm.trans hp) (by simp)
  · intro p' h first second ancestor front hs
    exact absurd (hplan.symm.trans hs.plan) (by simp)
  · intro p' h first second ancestor front y above d hs
    exact absurd (hplan.symm.trans hs.plan) (by simp)

/-- A block that is applied and is the head. -/
theorem KeepsTip.of_applied {q : Database Tx L} (hplan : planPush b skip db.clearPending = .ok .direct p)
    (happ : applyInSession env b skip p = .ok () q) (hhead : q.forkDb.head.map (·.id) = some b.id) :
    KeepsTip env b skip db := by
  obtain ⟨y, hy, hid⟩ := Option.map_eq_some_iff.mp hhead
  refine ⟨?_, ?_, ?_, ?_, ?_, ?_⟩
  · intro p' q' e h hp ha
    obtain rfl := (EStateM.Result.ok.inj (hplan.symm.trans hp)).2
    exact absurd (happ.symm.trans ha) (by simp)
  · intro p' q' h hp ha hh _ hne
    obtain rfl := (EStateM.Result.ok.inj (hplan.symm.trans hp)).2
    obtain rfl := (EStateM.Result.ok.inj (happ.symm.trans ha)).2
    obtain rfl := Option.some.inj (hy.symm.trans hh)
    exact absurd hid hne
  · intro c fb first second done z d d' hc
    obtain ⟨p', q', hp, ha, hcq⟩ := hc.applied
    obtain rfl := (EStateM.Result.ok.inj (hplan.symm.trans hp)).2
    obtain rfl := (EStateM.Result.ok.inj (happ.symm.trans ha)).2
    have hfb : q.forkDb.head = some fb := by
      rw [← hc.head, hcq]
      exact (pruneCompeting_head b q.forkDb).symm
    obtain rfl := Option.some.inj (hy.symm.trans hfb)
    have hnum : y.num = b.blockNum := congrArg BlockId.num hid
    exact absurd hc.above.1 (by omega)
  · intro p' h hp
    exact absurd (hplan.symm.trans hp) (by simp)
  · intro p' h first second ancestor front hs
    exact absurd (hplan.symm.trans hs.plan) (by simp)
  · intro p' h first second ancestor front z above d hs
    exact absurd (hplan.symm.trans hs.plan) (by simp)

/-- A switch that is refused its first block, and recovers. -/
theorem KeepsTip.of_first {s d : Database Tx L} {y : ForkItem Tx} {above : List (ForkItem Tx)} {e : Exn}
    (hs : Switching b skip db p newHead first second ancestor front) (hpops : p.lib < p.headBlockNum)
    (hun : unwind newHead ancestor (p.isLinearExtension first second) (p.hold (newHead :: (first ++ second))) = .ok () s)
    (htodo : newBlocks (p.isLinearExtension first second) first ancestor = y :: above)
    (hfail : applyRelaxing env y.data skip s = .ok (.failed e) d)
    (hrec : Recovers env skip (p.isLinearExtension first second) second ancestor front (removeAll (y :: above) d)) :
    KeepsTip env b skip db := by
  refine ⟨?_, ?_, ?_, ?_, ?_, ?_⟩
  · intro p' q e h hp
    exact absurd (hs.plan.symm.trans hp) (by simp)
  · intro p' q h hp
    exact absurd (hs.plan.symm.trans hp) (by simp)
  · intro c fb first second done z d d' hc
    obtain ⟨p', q, hp, -, -⟩ := hc.applied
    exact absurd (hs.plan.symm.trans hp) (by simp)
  · intro p' h hp
    obtain rfl := (EStateM.Result.ok.inj (hs.plan.symm.trans hp)).2
    exact hs.known
  · intro p' h first' second' ancestor' front' hs'
    obtain rfl := (EStateM.Result.ok.inj (hs.plan.symm.trans hs'.plan)).2
    exact .inr hpops
  · intro p' h first' second' ancestor' front' z above' d' hs' hf
    obtain ⟨hroute, rfl⟩ := EStateM.Result.ok.inj (hs.plan.symm.trans hs'.plan)
    obtain rfl := Route.switchTo.inj hroute
    obtain ⟨rfl, rfl⟩ := Prod.mk.inj (Except.ok.inj (hs.branch.symm.trans hs'.branch))
    obtain rfl := Option.some.inj (hs.last.symm.trans hs'.last)
    obtain rfl := Option.some.inj (hs.front.symm.trans hs'.front)
    obtain ⟨s', done, r, d₁, e', hun', htodo', hdone, hz⟩ := hf
    obtain rfl := (EStateM.Result.ok.inj (hun.symm.trans hun')).2
    have hsplit : y :: above = done ++ z :: above' := htodo.symm.trans htodo'
    cases done with
    | nil =>
        obtain ⟨rfl, rfl⟩ := List.cons.inj hsplit
        obtain rfl := (EStateM.Result.ok.inj hdone).2
        obtain rfl := (EStateM.Result.ok.inj (hfail.symm.trans hz)).2
        exact hrec
    | cons w done =>
        -- nothing is applied before the first block
        obtain ⟨rfl, -⟩ := List.cons.inj hsplit
        simp only [applyBranch, bind_run, hfail, modify_run, pure_run] at hdone
        exact absurd (EStateM.Result.ok.inj hdone).1 (by simp)

end Database

/-! ## Samples -/

namespace Sample

/-- A block by a validator that is not scheduled. -/
def stray2 : SignedBlock Tx := block block1.id 6 2 20

/-- A block beside `b2` with a signature that is not its validator's, and a block on top of it. -/
def forged2 : SignedBlock Tx := { block block1.id 9 4 22 with validatorSignature := 9 }
def onForged3 : SignedBlock Tx := block forged2.id 12 1 23

/-- The three blocks arrive. -/
def forgedRun : List (Database.Command Tx) :=
  [.step (.block b2 Skip.nothing), .step (.block forged2 Skip.nothing)] ++ [.step (.block onForged3 Skip.nothing)]

theorem execute_block (db : Database Tx Unit) (a : SignedBlock Tx) :
    Database.execute env db (.step (.block a Skip.nothing)) = push db [a] := rfl

theorem push_push (db : Database Tx Unit) (a b : SignedBlock Tx) : push (push db [a]) [b] = push db [a, b] := rfl

/-- The items of the three blocks. -/
def item2 : ForkItem Tx := ⟨1, some 0, false, b2⟩
def forgedItem2 : ForkItem Tx := ⟨2, some 0, false, forged2⟩
def forgedItem3 : ForkItem Tx := ⟨3, some 2, false, onForged3⟩

/-- The node that is about to switch to `onForged3`, and the one that has popped `b2` for it. -/
def beforeSwitch : Database Tx Unit :=
  Prog.after (Database.planPush onForged3 Skip.nothing) (push four [b2, forged2]).clearPending

def unwound : Database Tx Unit :=
  Prog.after (Database.unwind forgedItem3 item2 false)
    (beforeSwitch.hold (forgedItem3 :: ([forgedItem3, forgedItem2] ++ [item2])))

/-- The node that has refused `forged2`. -/
def forgedRefused : Database Tx Unit :=
  Prog.after (Database.applyRelaxing env forged2 Skip.nothing) unwound

/-- A node at rest after `block1`. -/
theorem four_atRest {U : SignedBlock Tx → Prop} (hU : U block1) : Database.AtRest U four := by
  have hstored : Database.Stored U four := node_stored hU _ _
  refine ⟨hstored, hstored.sound.linked, ?_, ?_, ?_⟩
  · intro h hh
    obtain rfl := Option.some.inj hh
    exact List.mem_singleton.mpr rfl
  · intro x _ y hy
    exact absurd hy (by simp [four, node])
  · intro x _ y hy
    exact absurd hy (by simp [four, node])

end Sample

namespace Database

open Prog ForkDatabase Sample

/-- A block by the wrong validator is refused, and is the head of the fork database afterwards. A forged block is
    refused, removed from the linked index, and is the head all the same. -/
theorem refused_block_is_head :
    (thrown (applyInSession env stray2 Skip.nothing) (after (planPush stray2 Skip.nothing) four.clearPending) =
        some .wrongScheduledValidator ∧
      (push four [stray2]).forkDb.head.map (·.id) = some stray2.id) ∧
    (thrown (pushBlock env forged2 Skip.nothing) four = some (.assertion .signee) ∧
      (push four [forged2]).forkDb.head.map (·.id) = some forged2.id ∧
      ¬ Consistent (push four [forged2]).forkDb) := by
  refine ⟨⟨by decide +kernel, by decide +kernel⟩, by decide +kernel, by decide +kernel, ?_⟩
  intro hc
  have hhead : (push four [forged2]).forkDb.head = some ⟨1, some 0, false, forged2⟩ := by decide +kernel
  exact absurd (hc.head _ hhead) (by decide +kernel)

theorem forged_switching : Switching onForged3 Skip.nothing (push four [b2, forged2]) beforeSwitch forgedItem3
    [forgedItem3, forgedItem2] [item2] item2 item2 :=
  ⟨eq_ok_of_returned (by decide +kernel), by decide +kernel, by decide +kernel, rfl, rfl⟩

theorem forged_notLinear : beforeSwitch.isLinearExtension [forgedItem3, forgedItem2] [item2] = false := by
  decide +kernel

theorem forged_unwind : unwind forgedItem3 item2 (beforeSwitch.isLinearExtension [forgedItem3, forgedItem2] [item2])
    (beforeSwitch.hold (forgedItem3 :: ([forgedItem3, forgedItem2] ++ [item2]))) = .ok () unwound := by
  rw [forged_notLinear]
  exact eq_ok_of_returned (by decide +kernel)

theorem forged_blocks : newBlocks (beforeSwitch.isLinearExtension [forgedItem3, forgedItem2] [item2])
    [forgedItem3, forgedItem2] item2 = forgedItem2 :: [forgedItem3] := by
  rw [forged_notLinear]
  rfl

theorem forged_fails :
    applyRelaxing env forged2 Skip.nothing unwound = .ok (.failed (.assertion .signee)) forgedRefused :=
  eq_ok_of_returned (by decide +kernel)

theorem forged_recovers : Recovers env Skip.nothing (beforeSwitch.isLinearExtension [forgedItem3, forgedItem2] [item2])
    [item2] item2 item2 (removeAll (forgedItem2 :: [forgedItem3]) forgedRefused) := by
  rw [forged_notLinear]
  exact ⟨_, eq_ok_of_returned (by decide +kernel), by decide +kernel⟩

theorem forged_keepsTip : KeepsTip env onForged3 Skip.nothing (push four [b2, forged2]) := by
  have hpops : beforeSwitch.lib < beforeSwitch.headBlockNum := by decide +kernel
  exact .of_first forged_switching hpops forged_unwind forged_blocks forged_fails forged_recovers

theorem forged_refused : Refused env onForged3 Skip.nothing (push four [b2, forged2]) forged2 := by
  refine .switched (y := forgedItem2) forged_switching (?_ : SwitchFails _ _ _ _ _ _ _ _ [forgedItem3] forgedRefused)
  unfold SwitchFails
  rw [isLinearExtension_hold]
  exact ⟨unwound, [], false, unwound, .assertion .signee, forged_unwind, forged_blocks, rfl, forged_fails⟩

/-- A switch to the branch of a forged block fails: the old head is put back, and the forged block is not it. -/
theorem tip_stays_linked_sample :
    Consistent (executeAll env four forgedRun).forkDb ∧
    ∀ y, (executeAll env four forgedRun).forkDb.head = some y → y.id ≠ forged2.id := by
  have hU : Universe (· ∈ [block1, b2, forged2, onForged3]) := Universe.of_list (by decide +kernel) (by decide +kernel)
  have h₁ : KeepsTip env b2 Skip.nothing four :=
    .of_applied (p := after (planPush b2 Skip.nothing) four.clearPending) (eq_ok_of_returned (by decide +kernel))
      (eq_ok_of_returned (by decide +kernel)) (by decide +kernel)
  have h₂ : KeepsTip env forged2 Skip.nothing (push four [b2]) :=
    .of_keep (p := after (planPush forged2 Skip.nothing) (push four [b2]).clearPending)
      (eq_ok_of_returned (by decide +kernel))
  have hfrom : ∀ c ∈ forgedRun, c.From (· ∈ [block1, b2, forged2, onForged3]) := by
    simp [forgedRun, Command.From, Step.From]
  have hrest : AtRest (· ∈ [block1, b2, forged2, onForged3]) four := four_atRest (by simp)
  have hsteady : Steady env four forgedRun := by
    unfold forgedRun
    simp only [List.cons_append, List.nil_append, Steady, TipKept, execute_block, push_push]
    exact ⟨h₁, h₂, forged_keepsTip, trivial⟩
  obtain ⟨hc, hr⟩ := tip_stays_linked hU hrest hfrom hsteady
  refine ⟨hc, hr _ onForged3 Skip.nothing rfl forged2 ?_⟩
  simp only [executeAll, List.foldl_cons, List.foldl_nil, execute_block, push_push]
  exact forged_refused

end Database

end VizNode
