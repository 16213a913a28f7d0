import VizNode.Chain.Choice
import VizNode.ForkDatabase.Arrivals

/-!
# `VizNode.Chain.Cascade` — when a block that was waiting fails

A pushed block can link blocks that arrived before it. Once it is applied itself, the cascade applies these
as well, oldest first; when one of them fails, a recovery is meant to bring the node back to the pushed block
and to start the fork database again from there.

**What the recovery does.** It looks up the *current* head before it pops, so the fork database starts again
from the last block the cascade applied, while the pops go on down to the pushed block. The two heads agree
only when the cascade had applied nothing (`cascade_recovers_iff`).

## Contents
- **The failing application** and the head it leaves.
- **The run.** `Cascading`, `FailsAfter`: the cascade of a push, and where it stops.
- **The recovery.** `Recovered`, and exactly when the code achieves it.
-/

namespace VizNode

namespace ForkDatabase

variable {Tx : Type} {U : SignedBlock Tx → Prop} {f : ForkDatabase Tx}

/-- Along a trail the heights go down, so nothing above its end is as low. -/
theorem Trail.last_lt (hU : Universe U) (h : Linked U f) {l : List (ForkItem Tx)} {a : ForkItem Tx}
    (ht : Trail f (l ++ [a])) (hlive : ∀ z ∈ l, z ∈ f.live) : ∀ z ∈ l, a.num < z.num := by
  induction l with
  | nil => intro z hz; exact absurd hz (by simp)
  | cons y l ih =>
      have hy : y ∈ f.live := hlive y (by simp)
      have hpos : 0 < y.num := by
        show 0 < y.data.blockNum
        rw [hU.num_eq (h.data y hy)]
        exact Nat.succ_pos _
      have hrest : ∀ z ∈ l, a.num < z.num := ih ht.of_cons fun z hz => hlive z (by simp [hz])
      have hfirst : a.num < y.num := by
        cases l with
        | nil =>
            have hlock : f.lock y.prev = some a := (List.isChain_cons_cons.mp ht).1
            have := h.lock_num hy hlock hpos
            omega
        | cons w l =>
            have hlock : f.lock y.prev = some w := (List.isChain_cons_cons.mp ht).1
            have hw := hrest w (by simp)
            have := h.lock_num hy hlock hpos
            omega
      intro z hz
      rcases List.mem_cons.mp hz with rfl | hz
      · exact hfirst
      · exact hrest z hz

/-- **A child of the only block** links to it and becomes the head. -/
theorem pushBlock_onto {y : ForkItem Tx} {c : SignedBlock Tx} (hindex : f.index = [y])
    (hcache : f.unlinkedIndex = []) (hhead : f.head = some y) (hvalid : y.invalid = false)
    (hprev : c.previous = y.id) (hnum : y.num < c.blockNum) :
    ∃ x g, pushBlock c f = .ok (some x) g ∧ x.data = c ∧ g.head = some x ∧ (find g.index c.id).isSome = true := by
  have hne : y.id ≠ c.id := fun he => absurd (congrArg BlockId.num he) (Nat.ne_of_lt hnum)
  have hnew : find (numbered f).index (newItem f c).id = none := by
    show find f.index c.id = none
    rw [hindex]
    exact find_eq_none (by simpa using hne)
  have hhead' : (numbered f).head = some y := hhead
  have hlink : ∃ x, linkItem (numbered f) (newItem f c) = .ok x := by
    have hfind : find (numbered f).index (newItem f c).previousId = some y := by
      show find f.index c.previous = some y
      rw [hindex, hprev]
      simp [find]
    have hwin : ¬ (newItem f c).num ≤ y.num - (numbered f).maxSize := by
      show ¬ c.blockNum ≤ _
      omega
    by_cases hzero : (newItem f c).previousId = BlockId.zero
    · exact ⟨newItem f c, by simp [linkItem, hhead', hwin, hzero]⟩
    · exact ⟨{ newItem f c with prev := some y.ptr }, by simp [linkItem, hhead', hwin, hzero, hfind, hvalid]⟩
  obtain ⟨x, hx⟩ := hlink
  have hdata : x.data = c := (linkItem_data hx).2
  have hnew' : find (numbered f).index x.id = none := linkItem_find_none (by simp [hnew]) hx
  have hpick : pickHead (numbered f) x = some x := by
    have hlt : y.num < x.num := by
      show y.num < x.data.blockNum
      rw [hdata]
      exact hnum
    simp [pickHead, hhead', hlt]
  have hpush : pushItem f.pushFuel (newItem f c) (numbered f) =
      .ok () { numbered f with index := f.index ++ [x], head := some x } := by
    have hfuel : f.pushFuel = 0 + 1 := by simp [pushFuel, hcache]
    have hempty : (numbered f).unlinkedIndex = [] := hcache
    rw [hfuel]
    simp only [pushItem, Prog.get_bind_run, hnew, hx, hpick]
    have hins : insertUnique (numbered f).index x = f.index ++ [x] := by
      simp only [insertUnique, hnew']
      rfl
    rw [hins]
    simp [Prog.bind_run, pushNext, hempty]
  refine ⟨x, { numbered f with index := f.index ++ [x], head := some x }, ?_, hdata, rfl, ?_⟩
  · show ((tryCatch (pushItem f.pushFuel (newItem f c)) _ : M Tx Unit) >>= _) (numbered f) = _
    rw [Prog.bind_run, Prog.tryCatch_run, hpush]
    rfl
  · exact find_isSome.mpr ⟨x, by simp, by rw [ForkItem.id, hdata]⟩

end ForkDatabase

namespace Database

open Prog Relation ForkDatabase

variable {Tx L : Type} {U : SignedBlock Tx → Prop} {base : BlockId} {env : Env Tx L} {skip : Skip}
  {b : SignedBlock Tx} {db c d d' : Database Tx L} {fb x : ForkItem Tx} {first second done : List (ForkItem Tx)}

/-! ## The failing application -/

/-- **A refused block** is undone, unless it had made itself irreversible: then it stays the head. -/
theorem applyInSession_refused {e : Exn} (h : applyInSession env b skip d = .error e d') :
    d'.state = d.state ∨ d'.headBlockId = b.id := by
  rcases applyInSession_cases env b skip d with
    ⟨e', he⟩ | ⟨skip', c, y, -, hc, ht, ⟨-, hr⟩ | ⟨e', -, hr⟩⟩
  · obtain rfl := (EStateM.Result.error.inj (he.symm.trans h)).2
    exact .inl rfl
  · exact absurd (hr.symm.trans h) (by simp)
  · obtain rfl := (EStateM.Result.error.inj (hr.symm.trans h)).2
    have hstack := (BlockTicks.raises ht).2
    rw [(entered_chainbase b skip' c d.startUndoSession).1] at hstack
    cases hst : y.chainbase.stack with
    | nil =>
        right
        have hstate : y.undo.headBlockId = y.headBlockId := by
          simp [headBlockId, state, undo, UndoDb.undo, hst]
        rw [hstate, BlockTicks.headId ht]
        unfold headBlockId state
        rw [(entered_chainbase b skip' c d.startUndoSession).1]
        exact (Core.beginBlock_head hc).2.1
    | cons s st =>
        left
        -- only the oldest sessions are committed, so the newest one is that of this block
        rw [hst] at hstack
        have hs : s = (d.chainbase.revision + 1, d.state) := (List.cons_prefix_cons.mp hstack).1
        simp [state, undo, UndoDb.undo, hst, hs]

theorem TxMoves.headId (t : ReflTransGen (TxMove env) db d) : d.headBlockId = db.headBlockId := by
  induction t with
  | refl => rfl
  | tail _ t ih =>
      refine Eq.trans ?_ ih
      cases t with
      | queued _ _ => rfl
      | opened =>
          unfold openPendingSession
          split <;> rfl
      | executed _ h => exact (Core.runLedger_head h).id

/-! ## The run -/

/-- **The push of `b` cascades**: `b` is applied, and at node `c` the branch `first` up to the head `fb` of the
    fork database is about to be applied. -/
structure Cascading (env : Env Tx L) (b : SignedBlock Tx) (skip : Skip) (db c : Database Tx L) (fb : ForkItem Tx)
    (first second : List (ForkItem Tx)) : Prop where
  applied : ∃ p q, planPush b skip db.clearPending = .ok .direct p ∧ applyInSession env b skip p = .ok () q ∧
              c = q.modifyForkDb (pruneCompeting b)
  head    : c.forkDb.head = some fb
  above   : b.blockNum < fb.num ∧ c.headBlockNum < fb.num
  known   : c.forkDb.isKnownBlock c.headBlockId = true
  branch  : c.forkDb.fetchBranchFrom fb.id c.headBlockId = .ok (first, second)
  linear  : c.isLinearExtension first second = true

/-- **The cascade stops**: it applies the blocks `done` above the pushed one, coming to node `d`, and the next
    block `x` is refused there; `d'` is what the refusal leaves. -/
def FailsAfter (env : Env Tx L) (skip : Skip) (c : Database Tx L) (fb : ForkItem Tx)
    (first second done : List (ForkItem Tx)) (x : ForkItem Tx) (d d' : Database Tx L) : Prop :=
  ∃ ancestor above e, first.reverse = ancestor :: (done ++ x :: above) ∧
    applyCascade env skip (ancestor :: done)
      (c.modifyForkDb fun f => { f with held := fb :: (first ++ second) }) = .ok () d ∧
    applyInSession env x.data skip d = .error e d'

theorem applyOrKeep_of_ok (h : applyInSession env b skip d = .ok () d') :
    applyOrKeep env b skip d = .ok true d' := by
  simp only [applyOrKeep, tryCatch_run, bind_run, h, pure_run]

/-- The stages of a push that cascades are those of its cascade. -/
theorem Cascading.stages (h : Cascading env b skip db c fb first second) :
    pushBlockStages env b skip db.clearPending = (cascade env b skip >>= fun _ => pure true) c := by
  obtain ⟨p, q, hplan, happ, rfl⟩ := h.applied
  simp only [pushBlockStages, bind_run, hplan, followRoute, applyDirect, applyOrKeep_of_ok happ, if_true,
    modify_run]

theorem Cascading.headId (h : Cascading env b skip db c fb first second) : c.headBlockId = b.id := by
  obtain ⟨p, q, -, happ, rfl⟩ := h.applied
  show q.headBlockId = b.id
  exact applyInSession_headId happ

/-- A cascade that goes through some blocks ends in the last of them. -/
theorem applyCascade_headId {xs : List (ForkItem Tx)} (h : applyCascade env skip xs d = .ok () d')
    (hne : xs ≠ []) : d'.headBlockId = (xs.getLast hne).id := by
  induction xs generalizing d with
  | nil => exact absurd rfl hne
  | cons y ys ih =>
      simp only [applyCascade, get_bind_run] at h
      have hstep : ∃ z, applyCascade env skip ys z = .ok () d' ∧ z.headBlockId = y.id := by
        by_cases hy : y.id = d.headBlockId
        · rw [if_neg (not_not.mpr hy)] at h
          exact ⟨d, h, hy.symm⟩
        · rw [if_pos hy] at h
          obtain ⟨⟨⟩, z, hz, h⟩ := bind_eq_ok h
          exact ⟨z, h, applyInSession_headId hz⟩
      obtain ⟨z, hz, hid⟩ := hstep
      cases ys with
      | nil =>
          obtain rfl := (EStateM.Result.ok.inj hz).2
          exact hid
      | cons w ys =>
          rw [ih hz (by simp)]
          simp

/-- A cascade goes on with the next block. -/
theorem applyCascade_append {xs ys : List (ForkItem Tx)} (h : applyCascade env skip xs d = .ok () d') :
    applyCascade env skip (xs ++ ys) d = applyCascade env skip ys d' := by
  induction xs generalizing d with
  | nil =>
      obtain rfl := (EStateM.Result.ok.inj h).2
      rfl
  | cons y xs ih =>
      simp only [List.cons_append, applyCascade, get_bind_run] at h ⊢
      by_cases hy : y.id = d.headBlockId
      · rw [if_neg (not_not.mpr hy)] at h ⊢
        exact ih h
      · rw [if_pos hy] at h ⊢
        obtain ⟨⟨⟩, z, hz, h⟩ := bind_eq_ok h
        rw [bind_run, hz]
        exact ih h

theorem Cascading.pushing (h : Cascading env b skip db c fb first second) (hb : U b) (hs : Stored U db) :
    Pushing U [] c := by
  obtain ⟨p, q, hplan, happ, rfl⟩ := h.applied
  have hmove : Moving env U (fun _ => False) [] db.clearPending p := (planPush_moving hb skip _).of_ok hplan
  have hq : Pushing U [] q := (applyInSession_pushing b skip p).of_ok happ (hmove hs.pushing).1
  have hprune : Moving env U (fun _ => False) [] q (q.modifyForkDb (pruneCompeting b)) := prune_moving b q
  exact (hprune hq).1

theorem Cascading.headNum (h : Cascading env b skip db c fb first second) (hU : Universe U) (hb : U b)
    (hs : Stored U db) : c.headBlockNum = b.blockNum := by
  obtain ⟨p, q, hplan, happ, rfl⟩ := h.applied
  have hmove : Moving env U (fun _ => False) [] db.clearPending p := (planPush_moving hb skip _).of_ok hplan
  exact (applyInSession_head hU hb (hmove hs.pushing).1.idle happ).2

/-- What comes later in a cascade is higher. -/
theorem Cascading.num_lt (hU : Universe U) (hlink : Linked U c.forkDb)
    (h : Cascading env b skip db c fb first second) {us vs : List (ForkItem Tx)} {w : ForkItem Tx}
    (hsplit : first.reverse = us ++ w :: vs) : ∀ z ∈ vs, w.num < z.num := by
  have hforked := fetchBranchFrom_ok hlink h.branch
  have hfirst : first = (vs.reverse ++ [w]) ++ us.reverse := by
    rw [← List.reverse_reverse first, hsplit]
    simp
  have htrail : Trail c.forkDb (vs.reverse ++ [w]) := by
    have := hforked.trailA
    rw [hfirst] at this
    exact this.left_of_append
  have hlive : ∀ z ∈ vs.reverse, z ∈ c.forkDb.live := by
    intro z hz
    refine hforked.liveA z ?_
    rw [hfirst]
    simp [List.mem_reverse.mp hz]
  intro z hz
  exact htrail.last_lt hU hlink hlive z (List.mem_reverse.mpr hz)

/-- The lowest block of the branch is the pushed one. -/
theorem Cascading.ancestor (h : Cascading env b skip db c fb first second) {ancestor : ForkItem Tx}
    {vs : List (ForkItem Tx)} (hsplit : first.reverse = ancestor :: vs) : ancestor.id = b.id := by
  have hlast : first.getLast? = some ancestor := by
    rw [← List.head?_reverse, hsplit]
    rfl
  obtain ⟨y, rfl⟩ : ∃ y, second = [y] := by
    have hlin := h.linear
    unfold isLinearExtension at hlin
    split at hlin
    · exact ⟨_, rfl⟩
    · exact absurd hlin (by simp)
  obtain ⟨hy, hends⟩ := isLinearExtension_ends h.linear (rfl : [y].getLast? = some y)
  rw [hlast] at hends
  rw [← h.headId, ← hy]
  exact Option.some.inj hends

/-- **No block of the cascade is the pushed block**, and the failing one is not the head it meets. -/
theorem FailsAfter.apart (hU : Universe U) (hlink : Linked U c.forkDb)
    (hc : Cascading env b skip db c fb first second) (hf : FailsAfter env skip c fb first second done x d d') :
    (d.headBlockId = b.id ↔ done = []) ∧ x.id ≠ b.id ∧ x.id ≠ d.headBlockId := by
  obtain ⟨ancestor, above, e, hsplit, hdone, hfail⟩ := hf
  have hanc : ancestor.id = b.id := hc.ancestor hsplit
  have hbottom : first.reverse = [] ++ ancestor :: (done ++ x :: above) := hsplit
  have hhigher : ∀ z ∈ done ++ x :: above, ancestor.num < z.num := hc.num_lt hU hlink hbottom
  have hne : ∀ z ∈ done ++ x :: above, z.id ≠ b.id := by
    intro z hz he
    exact absurd (congrArg BlockId.num (he.trans hanc.symm)) (Nat.ne_of_gt (hhigher z hz))
  have hlast := applyCascade_headId hdone (by simp)
  refine ⟨?_, hne x (by simp), ?_⟩
  · constructor
    · intro he
      by_contra hd
      rw [List.getLast_cons hd] at hlast
      exact hne _ (by simp [List.getLast_mem hd]) (hlast.symm.trans he)
    · rintro rfl
      rw [hlast]
      exact hanc
  · -- the head that `x` meets is the block right before it
    rw [hlast]
    intro he
    have hdecomp : first.reverse =
        (ancestor :: done).dropLast ++ (ancestor :: done).getLast (by simp) :: (x :: above) := by
      rw [hsplit, ← List.singleton_append (l := x :: above), ← List.append_assoc, List.dropLast_append_getLast]
      simp
    have hlt := hc.num_lt hU hlink hdecomp x (by simp)
    exact absurd (congrArg BlockId.num he) (Nat.ne_of_gt hlt)

/-! ## The recovery -/

theorem fetchBlockById_id {id : BlockId} {blk : SignedBlock Tx} (h : d.fetchBlockById id = some blk) :
    blk.id = id := by
  unfold fetchBlockById at h
  split at h
  · next y hy =>
      obtain rfl := Option.some.inj h
      unfold ForkDatabase.fetchBlock at hy
      split at hy
      · next z hz =>
          obtain rfl := Option.some.inj hy
          exact (find_mem hz).2
      · exact (find_mem hy).2
  · split at h
    · next z hz =>
        obtain rfl := Option.some.inj h
        simpa using (Option.filter_eq_some_iff.mp hz).2
    · simpa using (Option.filter_eq_some_iff.mp h).2

theorem pruneCompeting_head (b : SignedBlock Tx) (f : ForkDatabase Tx) : (pruneCompeting b f).head = f.head := by
  unfold pruneCompeting
  generalize f.fetchBlockByNumber b.blockNum = cs
  induction cs generalizing f with
  | nil => rfl
  | cons cb cs ih =>
      rw [List.foldl_cons, ih]
      split <;> rfl

/-- **A cascade that fails** is the recovery, run on what the refused block left. -/
theorem FailsAfter.cascade_eq (hU : Universe U) (hlink : Linked U c.forkDb)
    (hc : Cascading env b skip db c fb first second) (hf : FailsAfter env skip c fb first second done x d d') :
    cascade env b skip c =
      holding [fb] (recoverCascade c.headBlockNum) (d'.modifyForkDb fun f => { f with held := [] }) := by
  have hne := (hf.apart hU hlink hc).2.2
  obtain ⟨ancestor, above, e, hsplit, hdone, hfail⟩ := hf
  have hcas : applyCascade env skip first.reverse
      (c.modifyForkDb fun f => { f with held := fb :: (first ++ second) }) = .error e d' := by
    have hlist : first.reverse = (ancestor :: done) ++ x :: above := hsplit
    rw [hlist, applyCascade_append hdone]
    simp only [applyCascade, get_bind_run, if_pos hne]
    rw [bind_run, hfail]
  have htry : tryCascade env skip fb c = .error e (d'.modifyForkDb fun f => { f with held := [] }) := by
    simp only [tryCascade, get_bind_run, hc.branch, hc.linear, if_true]
    simp only [holding, bind_run, modify_run, tryCatch_run, hcas, throw_run]
  simp only [cascade, get_bind_run, hc.head]
  rw [if_pos ⟨hc.above.1, hc.above.2, hc.known⟩, tryCatch_run, htry]

/-- The recovery starts the fork database from the block that was the head when it began. -/
theorem recoverCascade_forkHead {n : Nat} (h : recoverCascade n d = .ok () d') :
    d'.forkDb.head.map (·.data) = d.fetchBlockById d.headBlockId := by
  simp only [recoverCascade, get_bind_run] at h
  obtain ⟨⟨⟩, y, -, h⟩ := bind_eq_ok h
  obtain ⟨⟨⟩, z, hz, h⟩ := bind_eq_ok h
  obtain rfl := (EStateM.Result.ok.inj hz).2
  cases hblk : d.fetchBlockById d.headBlockId with
  | none =>
      rw [hblk] at h
      obtain rfl := (EStateM.Result.ok.inj h).2
      rfl
  | some blk =>
      rw [hblk] at h
      have hg := (EStateM.Result.ok.inj (onForkDb_eq_ok h).1).2
      rw [← hg]
      rfl

/-- **The node takes the next block**: it links, the push goes on to apply it, and when the application is not
    refused the push answers that the block is the new head. -/
def TakesNext (env : Env Tx L) (next : SignedBlock Tx) (skip : Skip) (db : Database Tx L) : Prop :=
  ∃ p, planPush next skip db.clearPending = .ok .direct p ∧ (find p.forkDb.index next.id).isSome = true ∧
    ∀ q, applyInSession env next skip p = .ok () q →
      ∃ db', pushBlock env next skip db = .ok true db' ∧ db'.headBlockId = next.id

/-- **What the recovery is for**: the push returns, the pushed block is the applied head and the head of the fork
    database, and the node takes whatever block comes next on top of it. -/
def Recovered (env : Env Tx L) (b : SignedBlock Tx) (skip : Skip) (db : Database Tx L) : Prop :=
  ∃ db', pushBlock env b skip db = .ok true db' ∧ db'.headBlockId = b.id ∧
    db'.forkDb.head.map (·.id) = some b.id ∧
    ∀ next skip', next.previous = b.id → skip'.forkDb = false → TakesNext env next skip' db'

/-- A push whose stages return without a pending session returns their answer. -/
theorem pushBlock_of_stages {a : Bool} (h : pushBlockStages env b skip db.clearPending = .ok a d)
    (hidle : d.pendingTxSession = false) :
    ∃ db', pushBlock env b skip db = .ok a db' ∧ ReflTransGen (TxMove env) d db' := by
  have hopen : PendingOpen (after (pushBlockStages env b skip) db.clearPending) := by
    rw [after_ok h]
    intro hp
    exact absurd (hidle.symm.trans hp) (by simp)
  obtain ⟨db', ht, hres⟩ := pushBlock_run b skip hopen
  rw [after_ok h] at ht
  refine ⟨db', ?_, ht⟩
  rcases hres with ⟨a', ⟨w, hw⟩, hr⟩ | ⟨e, ⟨w, hw⟩, hr⟩
  · rw [hr, (EStateM.Result.ok.inj (hw.symm.trans h)).1]
  · exact absurd (hw.symm.trans h) (by simp)

/-- **A fork database that holds only the applied head** takes the next block. -/
theorem takesNext_of_single {y : ForkItem Tx} {next : SignedBlock Tx} (hindex : db.clearPending.forkDb.index = [y])
    (hcache : db.clearPending.forkDb.unlinkedIndex = []) (hhead : db.clearPending.forkDb.head = some y)
    (hvalid : y.invalid = false) (hid : db.clearPending.headBlockId = y.id)
    (hnum : db.clearPending.headBlockNum = y.num) (hlt : y.num + 1 < 2 ^ 32) (hprev : next.previous = y.id)
    (hfork : skip.forkDb = false) : TakesNext env next skip db := by
  have hnext : next.blockNum = y.num + 1 := by
    have hn : next.blockNum = (next.previous.num + 1) % 2 ^ 32 := rfl
    rw [hn, hprev]
    exact Nat.mod_eq_of_lt hlt
  have hscreen : screenBlock next db.clearPending = .ok (.proceed false) db.clearPending := by
    have hle : ¬ next.blockNum ≤ db.clearPending.headBlockNum := by rw [hnum, hnext]; omega
    have hside : ¬ (next.previous ≠ BlockId.zero ∧ next.previous ≠ db.clearPending.headBlockId) := by
      rw [hprev, hid]
      exact fun h => h.2 rfl
    simp only [screenBlock, get_bind_run, if_neg hle, if_neg hside, pure_run]
  have hseed : seedHead next db.clearPending = .ok () db.clearPending := by
    have hknown : db.clearPending.forkDb.isKnownBlock db.clearPending.headBlockId = true := by
      rw [hid]
      simp [isKnownBlock, hindex, find]
    simp [seedHead, hknown]
  obtain ⟨z, g, hpush, hdata, hgh, hgf⟩ :=
    pushBlock_onto hindex hcache hhead hvalid hprev (by rw [hnext]; exact Nat.lt_succ_self _)
  have hinsert : insertBlock next false db.clearPending = .ok (some z) { db.clearPending with forkDb := g } := by
    have hon : (onForkDb (ForkDatabase.pushBlock next) : DbM Tx L _) db.clearPending =
        .ok (some z) { db.clearPending with forkDb := g } := by
      simp only [onForkDb, zoom, hpush]
    simp only [insertBlock, linkBlock, bind_run, hseed, tryCatch_run, hon]
  have hroute : chooseRoute ({ db.clearPending with forkDb := g } : Database Tx L) next z = .direct := by
    unfold chooseRoute
    rw [if_pos]
    rw [hprev]
    exact hid.symm
  have hplan : planPush next skip db.clearPending = .ok .direct { db.clearPending with forkDb := g } := by
    simp only [planPush, bind_run, hscreen, hfork, Bool.false_eq_true, if_false, hinsert, get_run, hroute,
      pure_run]
  refine ⟨{ db.clearPending with forkDb := g }, hplan, hgf, ?_⟩
  intro q hq
  -- the next block is the highest one, so nothing is left for the cascade
  have hkept : SameKept { db.clearPending with forkDb := g } q := (applyInSession_kept next skip _).of_ok hq
  have hcascade : cascade env next skip (q.modifyForkDb (pruneCompeting next)) =
      .ok () (q.modifyForkDb (pruneCompeting next)) := by
    have hqh : (q.modifyForkDb (pruneCompeting next)).forkDb.head = some z :=
      (pruneCompeting_head next q.forkDb).trans (hkept.head.trans hgh)
    have hlow : ¬ (next.blockNum < z.num ∧ (q.modifyForkDb (pruneCompeting next)).headBlockNum < z.num ∧
        (q.modifyForkDb (pruneCompeting next)).forkDb.isKnownBlock
          (q.modifyForkDb (pruneCompeting next)).headBlockId = true) := by
      rintro ⟨hz, -⟩
      rw [ForkItem.num, hdata] at hz
      exact Nat.lt_irrefl _ hz
    simp only [cascade, get_bind_run, hqh, if_neg hlow, pure_run]
  have hstages : pushBlockStages env next skip db.clearPending =
      .ok true (q.modifyForkDb (pruneCompeting next)) := by
    simp only [pushBlockStages, bind_run, hplan, followRoute, applyDirect, applyOrKeep_of_ok hq, if_true,
      modify_run, hcascade, pure_run]
  have hidle : q.pendingTxSession = false := hkept.session.trans (clearPending_idle db)
  obtain ⟨db', hr, ht⟩ := pushBlock_of_stages hstages hidle
  refine ⟨db', hr, ?_⟩
  rw [TxMoves.headId ht]
  show q.headBlockId = next.id
  exact applyInSession_headId hq

theorem applyCascade_skip {y : ForkItem Tx} (h : ¬ y.id ≠ d.headBlockId) :
    applyCascade env skip [y] d = .ok () d := by
  simp only [applyCascade, get_bind_run, if_neg h, pure_run]

/-- The node whose fork database was started again from `blk`. -/
def restarted (d : Database Tx L) (blk : SignedBlock Tx) : Database Tx L :=
  { d with
    forkDb := { d.forkDb with
      index         := [newItem d.forkDb blk]
      unlinkedIndex := []
      head          := some (newItem d.forkDb blk)
      held          := []
      nextPtr       := d.forkDb.nextPtr + 1 } }

/-- The recovery, when the refused block left the pushed one as the head: nothing is popped. -/
theorem recoverCascade_at {n : Nat} {blk : SignedBlock Tx} (hnum : d.headBlockNum = n)
    (hfetch : d.fetchBlockById d.headBlockId = some blk) :
    recoverCascade n d = .ok () ((restarted d blk).modifyForkDb fun f => { f with held := d.forkDb.held }) := by
  have hpop : popAbove n d.lib d.popFuel d = .ok () d := by
    have hlow : ¬ (n < d.headBlockNum ∧ d.lib < d.headBlockNum) := fun h => absurd h.1 (by omega)
    have hfuel : d.popFuel = (d.forkDb.head.map (·.num)).getD 0 + 1 := rfl
    rw [hfuel]
    simp only [popAbove, get_bind_run, if_neg hlow, pure_run]
  simp only [recoverCascade, bind_run, get_run, hpop, modify_run, hfetch]
  rfl

/-- **The recovery succeeds exactly when nothing had been applied.** A cascade applies the blocks `done` and is
    refused the next one: the pushed block is then both heads, and the node takes the next block, if and only if
    `done` is empty and the refusal was undone, with the pushed block still there to be fetched. -/
theorem cascade_recovers_iff (hU : Universe U) (h : InOrder U base db) (hb : U b)
    (hc : Cascading env b skip db c fb first second) (hf : FailsAfter env skip c fb first second done x d d') :
    Recovered env b skip db ↔
      done = [] ∧ d'.headBlockId = b.id ∧ (d'.fetchBlockById b.id).isSome = true := by
  have hpush := hc.pushing hb h.stored
  have hlink : Linked U c.forkDb := hpush.sound.linked
  obtain ⟨hdone, hxb, -⟩ := hf.apart hU hlink hc
  have hcas := hf.cascade_eq hU hlink hc
  have hstages := hc.stages
  have hrefused : d'.state = d.state ∨ d'.headBlockId = x.id := by
    obtain ⟨_, _, e, -, -, hfail⟩ := hf
    exact applyInSession_refused hfail
  constructor
  · rintro ⟨db', hr, -, hhead, -⟩
    obtain ⟨y, hy, hfork, -, -⟩ := pushBlock_stages hb h hr
    rw [hstages] at hy
    obtain ⟨⟨⟩, z, hz, hy⟩ := bind_eq_ok hy
    obtain rfl := (EStateM.Result.ok.inj hy).2
    rw [hcas] at hz
    obtain ⟨w, hw, rfl⟩ := holding_eq_ok hz
    have hblk := recoverCascade_forkHead hw
    -- the head of the fork database is the block that was the head when the recovery began
    have hsame : db'.forkDb.head.map (·.data) = d'.fetchBlockById d'.headBlockId := by
      rw [hfork]
      exact hblk
    obtain ⟨i, hi, hid⟩ := Option.map_eq_some_iff.mp hhead
    rw [hi, Option.map_some] at hsame
    have hback : d'.headBlockId = b.id := by
      have := fetchBlockById_id hsame.symm
      rw [← this]
      exact hid
    refine ⟨?_, hback, by rw [← hback, ← hsame]; rfl⟩
    rcases hrefused with hst | hx
    · refine hdone.mp ?_
      rw [← hback]
      unfold headBlockId
      rw [hst]
    · exact absurd (hx.symm.trans hback) hxb
  · rintro ⟨rfl, hback, hfetch⟩
    obtain ⟨blk, hblk⟩ := Option.isSome_iff_exists.mp hfetch
    have hid : blk.id = b.id := fetchBlockById_id hblk
    have hst : d'.state = d.state := hrefused.resolve_right fun hx => hxb (hx.symm.trans hback)
    have hcd : d.state = c.state ∧ d'.pendingTxSession = false := by
      obtain ⟨ancestor, above, e, hsplit, hnone, hfail⟩ := hf
      have hanc : ¬ ancestor.id ≠ c.headBlockId := not_not.mpr ((hc.ancestor hsplit).trans hc.headId.symm)
      have hskip : applyCascade env skip [ancestor]
          (c.modifyForkDb fun f => { f with held := fb :: (first ++ second) }) = .ok () _ := applyCascade_skip hanc
      obtain rfl := (EStateM.Result.ok.inj (hskip.symm.trans hnone)).2
      have hkept : SameKept _ d' := (applyInSession_kept x.data skip _).of_error hfail
      exact ⟨rfl, hkept.session.trans hpush.idle⟩
    have hnum : d'.headBlockNum = c.headBlockNum := by
      unfold headBlockNum
      rw [hst, hcd.1]
    have hfetch' : d'.fetchBlockById d'.headBlockId = some blk := by rw [hback, hblk]
    have hrec : recoverCascade c.headBlockNum (d'.modifyForkDb fun f => { f with held := [fb] }) = .ok () _ :=
      recoverCascade_at hnum hfetch'
    have hrun : cascade env b skip c = .ok () (restarted d' blk) := by
      rw [hcas]
      show holding [fb] _ _ = _
      simp only [holding, bind_run, modify_run, tryCatch_run]
      rw [show modifyForkDb (fun f => { f with held := [fb] }) (modifyForkDb (fun f => { f with held := [] }) d') =
        modifyForkDb (fun f => { f with held := [fb] }) d' from rfl, hrec]
      rfl
    have hok : pushBlockStages env b skip db.clearPending = .ok true (restarted d' blk) := by
      rw [hstages, bind_run, hrun]
      rfl
    obtain ⟨db', hr, ht⟩ := pushBlock_of_stages hok hcd.2
    obtain ⟨y, hy, hfork, hsettled, hsettledFork⟩ := pushBlock_stages hb h hr
    obtain rfl := (EStateM.Result.ok.inj (hok.symm.trans hy)).2
    have hstate : (restarted d' blk).state = c.state := hst.trans hcd.1
    refine ⟨db', hr, ?_, ?_, ?_⟩
    · rw [TxMoves.headId ht]
      exact hback
    · rw [hfork]
      exact congrArg some hid
    · intro next skip' hprev hskip'
      have hblknum : blk.blockNum = b.blockNum := congrArg BlockId.num hid
      refine takesNext_of_single (y := newItem d'.forkDb blk) ?_ ?_ ?_ rfl ?_ ?_ ?_ (hprev.trans hid.symm) hskip'
      · rw [hsettledFork]
        rfl
      · rw [hsettledFork]
        rfl
      · rw [hsettledFork]
        rfl
      · unfold headBlockId
        rw [hsettled, hstate]
        exact hc.headId.trans hid.symm
      · unfold headBlockNum
        rw [hsettled, hstate]
        exact (hc.headNum hU hb h.stored).trans hblknum.symm
      · have hlt : fb.num < 2 ^ 32 := Nat.mod_lt _ (by decide)
        have habove := hc.above.1
        show blk.blockNum + 1 < 2 ^ 32
        omega

end Database

/-! ## Samples -/

namespace Sample

/-- A third block and a fourth one by validators that are not scheduled, and a valid third one. -/
def stray3 : SignedBlock Tx := block b2.id 9 2 31
def stray4 : SignedBlock Tx := block b3.id 12 2 41
def other3 : SignedBlock Tx := block b2.id 9 4 32

/-- The node on which `b2` is about to be applied, and the one that has applied it. -/
def planned (db : Database Tx Unit) : Database Tx Unit :=
  Prog.after (Database.planPush b2 Skip.nothing) db.clearPending

def applied (db : Database Tx Unit) : Database Tx Unit :=
  Prog.after (Database.applyInSession env b2 Skip.nothing) (planned db)

/-- The push of `b2` comes to its cascade. -/
theorem reaches_cascade {db : Database Tx Unit}
    (hplan : Prog.returned (Database.planPush b2 Skip.nothing) db.clearPending = some .direct)
    (happ : Prog.returned (Database.applyInSession env b2 Skip.nothing) (planned db) = some ()) :
    ∃ p q, Database.planPush b2 Skip.nothing db.clearPending = .ok .direct p ∧
      Database.applyInSession env b2 Skip.nothing p = .ok () q ∧
      (applied db).modifyForkDb (Database.pruneCompeting b2) = q.modifyForkDb (Database.pruneCompeting b2) :=
  ⟨planned db, applied db, Prog.eq_ok_of_returned hplan, Prog.eq_ok_of_returned happ, rfl⟩

end Sample

namespace Database

open Prog ForkDatabase Sample

/-- `b3` and a block that will be refused wait for `b2`. When `b2` arrives, `b3` is applied and popped again: the
    fork database is left with `b3`, and the next block on top of the applied head does not link. -/
theorem cascade_leaves_popped_head :
    (∃ c fb first second done x d d', Cascading env b2 Skip.nothing (push four [b3, stray4]) c fb first second ∧
      FailsAfter env Skip.nothing c fb first second done x d d') ∧
    ¬ Recovered env b2 Skip.nothing (push four [b3, stray4]) ∧
    (push four [b3, stray4, b2]).headBlockId = b2.id ∧
    (push four [b3, stray4, b2]).forkDb.head.map (·.id) = some b3.id ∧
    thrown (pushBlock env other3 Skip.nothing) (push four [b3, stray4, b2]) = some .unlinkableBlock := by
  refine ⟨?_, ?_, by decide +kernel, by decide +kernel, by decide +kernel⟩
  · refine ⟨(applied (push four [b3, stray4])).modifyForkDb (pruneCompeting b2), ⟨2, some 1, false, stray4⟩,
      [⟨2, some 1, false, stray4⟩, ⟨1, some 3, false, b3⟩, ⟨3, some 0, false, b2⟩], [⟨3, some 0, false, b2⟩],
      [⟨1, some 3, false, b3⟩], ⟨2, some 1, false, stray4⟩, _, _,
      ⟨reaches_cascade (by decide +kernel) (by decide +kernel), by decide +kernel, by decide +kernel,
        by decide +kernel, by decide +kernel, by decide +kernel⟩,
      ⟨3, some 0, false, b2⟩, [], .wrongScheduledValidator, by decide,
      eq_ok_of_returned (by decide +kernel), eq_error_of_thrown (by decide +kernel)⟩
  · rintro ⟨db', hr, -, hhead, -⟩
    have hafter : (after (pushBlock env b2 Skip.nothing) (push four [b3, stray4])).forkDb.head.map (·.id) =
        some b3.id := by decide +kernel
    rw [after_ok hr, hhead] at hafter
    exact absurd hafter (by decide)

/-- Only a block that will be refused waits for `b2`. -/
theorem cascade_recovers_iff_sample : Recovered env b2 Skip.nothing (push four [stray3]) := by
  have hU : Universe (· ∈ [block1, b2, stray3]) := Universe.of_list (by decide +kernel) (by decide +kernel)
  have hstart : InOrder (· ∈ [block1, b2, stray3]) block1.id four := node_inOrder (by simp) (by decide) _
  have horder : InOrder (· ∈ [block1, b2, stray3]) block1.id (push four [stray3]) :=
    (run_inOrder hU (by simp [Step.From]) hstart).1
  have hc : Cascading env b2 Skip.nothing (push four [stray3])
      ((applied (push four [stray3])).modifyForkDb (pruneCompeting b2)) ⟨1, some 2, false, stray3⟩
      [⟨1, some 2, false, stray3⟩, ⟨2, some 0, false, b2⟩] [⟨2, some 0, false, b2⟩] :=
    ⟨reaches_cascade (by decide +kernel) (by decide +kernel), by decide +kernel, by decide +kernel,
      by decide +kernel, by decide +kernel, by decide +kernel⟩
  have hf : FailsAfter env Skip.nothing ((applied (push four [stray3])).modifyForkDb (pruneCompeting b2))
      ⟨1, some 2, false, stray3⟩ [⟨1, some 2, false, stray3⟩, ⟨2, some 0, false, b2⟩] [⟨2, some 0, false, b2⟩] []
      ⟨1, some 2, false, stray3⟩ _ _ :=
    ⟨⟨2, some 0, false, b2⟩, [], .wrongScheduledValidator, rfl, eq_ok_of_returned (by decide +kernel),
      eq_error_of_thrown (by decide +kernel)⟩
  exact (cascade_recovers_iff hU horder (by simp) hc hf).mpr ⟨rfl, by decide +kernel, by decide +kernel⟩

end Database

end VizNode
