import VizNode.Chain.Runs
import VizNode.ForkDatabase.Branches
import Mathlib.Logic.Relation

/-!
# `VizNode.Chain.Stages` — what a block application is made of

**Say once what can happen.** `LibTick` are the ways in which irreversibility changes a node, `BlockTick`
those in which the application of a block does after the head has moved. Every tick carries the guard
under which the code takes it. `applyInSession_cases` then says what the application of a block in its own
undo session amounts to, and every invariant of a block application is a case analysis of the ticks.

## Contents
- **Writing the logs.** `Written`: only the logs and the journal change, and what is appended was looked
  up on the main branch of the fork database.
- **Ticks.** `LibTick`, `BlockTick`, and the functions that move along them.
- **The session.** `applyInSession_cases`.
-/

namespace VizNode

namespace Database

open Prog Relation

variable {Tx L : Type} {db db' db'' : Database Tx L}

/-! ## Writing the logs -/

/-- `b` is what the fork database has on its main branch at height `n`. -/
def OnMain (db : Database Tx L) (n : Nat) (b : SignedBlock Tx) : Prop :=
  ∃ x, db.forkDb.fetchBlockOnMainBranchByNumber n = some x ∧ x.data = b

/-- **The blocks of a rolling log follow each other by number.** -/
def Numbered (log : List (SignedBlock Tx)) : Prop := ∀ i b, log[i]? = some b → b.blockNum = firstNum log + i

theorem numbered_nil : Numbered ([] : List (SignedBlock Tx)) := by
  intro i b h
  exact absurd h (by simp)

theorem Numbered.append {log : List (SignedBlock Tx)} (h : Numbered log) {b : SignedBlock Tx}
    (hb : log.isEmpty ∨ firstNum log + log.length = b.blockNum) : Numbered (log ++ [b]) := by
  intro i c hc
  cases log with
  | nil =>
      obtain ⟨rfl, rfl⟩ : i = 0 ∧ c = b := by
        cases i with
        | zero => exact ⟨rfl, (Option.some.inj hc).symm⟩
        | succ i => exact absurd hc (by simp)
      rfl
  | cons a log =>
      have hfirst : firstNum (a :: log ++ [b]) = firstNum (a :: log) := rfl
      rw [hfirst]
      rcases hb with hb | hb
      · exact absurd hb (by simp)
      · by_cases hi : i < (a :: log).length
        · rw [List.getElem?_append_left hi] at hc
          exact h i c hc
        · rw [List.getElem?_append_right (Nat.not_lt.mp hi)] at hc
          have hlast : i - (a :: log).length = 0 ∧ c = b := by
            cases hk : i - (a :: log).length with
            | zero =>
                rw [hk] at hc
                exact ⟨rfl, (Option.some.inj hc).symm⟩
            | succ k =>
                rw [hk] at hc
                exact absurd hc (by simp)
          rw [hlast.2, ← hb]
          omega

theorem Numbered.drop {log : List (SignedBlock Tx)} (h : Numbered log) (k : Nat) : Numbered (log.drop k) := by
  intro i b hb
  rw [List.getElem?_drop] at hb
  rw [h (k + i) b hb]
  have hk : k < log.length := by
    have := (List.getElem?_eq_some_iff.mp hb).1
    omega
  have hfirst : firstNum (log.drop k) = firstNum log + k := by
    rw [← h k log[k] (List.getElem?_eq_getElem hk)]
    simp [firstNum, List.head?_drop, List.getElem?_eq_getElem hk]
  rw [hfirst]
  omega

/-- **Only the logs and the journal change**, by blocks of the main branch with numbers in `(lo, hi]`. -/
structure Written (lo hi : Nat) (db db' : Database Tx L) : Prop where
  frame  : db' = { db with blockLog := db'.blockLog, dltBlockLog := db'.dltBlockLog, journal := db'.journal }
  events : ∃ es, db'.journal = es ++ db.journal ∧
    ∀ e ∈ es, ∃ n b, lo < n ∧ n ≤ hi ∧ db.OnMain n b ∧ e = .appended b db.headBlockId
  log    : ∀ b ∈ db'.blockLog, b ∈ db.blockLog ∨ ∃ n, db.OnMain n b
  dltLog : ∀ b ∈ db'.dltBlockLog, b ∈ db.dltBlockLog ∨ ∃ n, db.OnMain n b
  number : Numbered db.dltBlockLog → Numbered db'.dltBlockLog

theorem Written.forkDb {lo hi : Nat} (h : Written lo hi db db') : db'.forkDb = db.forkDb := by rw [h.frame]

theorem Written.chainbase {lo hi : Nat} (h : Written lo hi db db') : db'.chainbase = db.chainbase := by
  rw [h.frame]

theorem Written.headBlockId {lo hi : Nat} (h : Written lo hi db db') : db'.headBlockId = db.headBlockId := by
  rw [h.frame]; rfl

theorem Written.onMain {lo hi n : Nat} {b : SignedBlock Tx} (h : Written lo hi db db') :
    db'.OnMain n b ↔ db.OnMain n b := by
  unfold OnMain
  rw [h.forkDb]

instance writtenPreorder (lo hi : Nat) : IsPreorder (Database Tx L) (Written lo hi) where
  refl db :=
    { frame := rfl
      events := ⟨[], rfl, by simp⟩
      log := fun _ hb => .inl hb
      dltLog := fun _ hb => .inl hb
      number := id }
  trans db db' db'' h₁ h₂ :=
    { frame := by
        have h₁' := h₁.frame
        have h₂' := h₂.frame
        rw [h₂', h₁']
      events := by
        obtain ⟨es₁, hj₁, he₁⟩ := h₁.events
        obtain ⟨es₂, hj₂, he₂⟩ := h₂.events
        refine ⟨es₂ ++ es₁, by rw [hj₂, hj₁, List.append_assoc], ?_⟩
        intro e he
        rcases List.mem_append.mp he with he | he
        · obtain ⟨n, b, hlo, hhi, hb, rfl⟩ := he₂ e he
          exact ⟨n, b, hlo, hhi, h₁.onMain.mp hb, by rw [h₁.headBlockId]⟩
        · exact he₁ e he
      log := by
        intro b hb
        rcases h₂.log b hb with hb | ⟨n, hn⟩
        · exact h₁.log b hb
        · exact .inr ⟨n, h₁.onMain.mp hn⟩
      dltLog := by
        intro b hb
        rcases h₂.dltLog b hb with hb | ⟨n, hn⟩
        · exact h₁.dltLog b hb
        · exact .inr ⟨n, h₁.onMain.mp hn⟩
      number := fun h => h₂.number (h₁.number h) }

theorem appendBlockLog_written {lo hi n : Nat} {b : SignedBlock Tx} (hlo : lo < n) (hhi : n ≤ hi)
    (hb : db.OnMain n b) : MovesAt (Written lo hi) (appendBlockLog b) db := by
  refine MovesAt.get_bind ?_
  split
  · refine MovesAt.set ⟨rfl, ⟨[_], rfl, ?_⟩, ?_, fun _ h => .inl h, id⟩
    · intro e he
      exact ⟨n, b, hlo, hhi, hb, List.mem_singleton.mp he⟩
    · intro c hc
      rcases List.mem_append.mp hc with hc | hc
      · exact .inl hc
      · exact .inr ⟨n, List.mem_singleton.mp hc ▸ hb⟩
  · exact MovesAt.throw _ _

theorem appendDltBlockLog_written {lo hi n : Nat} {b : SignedBlock Tx} (hlo : lo < n) (hhi : n ≤ hi)
    (hb : db.OnMain n b) : MovesAt (Written lo hi) (appendDltBlockLog b) db := by
  refine MovesAt.get_bind ?_
  split
  · next hpos =>
    refine MovesAt.set ⟨rfl, ⟨[_], rfl, ?_⟩, fun _ h => .inl h, ?_, fun h => h.append hpos⟩
    · intro e he
      exact ⟨n, b, hlo, hhi, hb, List.mem_singleton.mp he⟩
    · intro c hc
      rcases List.mem_append.mp hc with hc | hc
      · exact .inl hc
      · exact .inr ⟨n, List.mem_singleton.mp hc ▸ hb⟩
  · exact MovesAt.throw _ _

theorem writeBlockLog_written {lo hi : Nat} (count num : Nat) (hlo : lo ≤ num) (hhi : num + count ≤ hi)
    (db : Database Tx L) : MovesAt (Written lo hi) (writeBlockLog count num) db := by
  induction count generalizing num db with
  | zero => exact MovesAt.pure _ _
  | succ count ih =>
      refine MovesAt.get_bind ?_
      split
      · exact MovesAt.throw _ _
      · next x hx =>
          exact MovesAt.bind (appendBlockLog_written (by omega) (by omega) ⟨x, hx, rfl⟩)
            fun _ db' _ => ih (num + 1) (by omega) (by omega) db'

theorem writeDltWhileKnown_written {lo hi : Nat} (count num : Nat) (hlo : lo ≤ num)
    (hhi : num + count ≤ hi) (db : Database Tx L) :
    MovesAt (Written lo hi) (writeDltWhileKnown count num) db := by
  induction count generalizing num db with
  | zero => exact MovesAt.pure _ _
  | succ count ih =>
      refine MovesAt.get_bind ?_
      split
      · exact MovesAt.pure _ _
      · next x hx =>
          exact MovesAt.bind (appendDltBlockLog_written (by omega) (by omega) ⟨x, hx, rfl⟩)
            fun _ db' _ => ih (num + 1) (by omega) (by omega) db'

/-- The rolling log forgets blocks. -/
theorem written_of_forget {lo hi : Nat} {log : List (SignedBlock Tx)}
    (h : ∀ b ∈ log, b ∈ db.dltBlockLog) (hn : Numbered db.dltBlockLog → Numbered log) :
    Written lo hi db { db with dltBlockLog := log } :=
  ⟨rfl, ⟨[], rfl, by simp⟩, fun _ hb => .inl hb, fun b hb => .inl (h b hb), hn⟩

theorem writeDltBlockLog_written {lo hi : Nat} (count num : Nat) (hlo : lo ≤ num)
    (hhi : num + count ≤ hi) (db : Database Tx L) :
    MovesAt (Written lo hi) (writeDltBlockLog count num) db := by
  induction count generalizing num db with
  | zero => exact MovesAt.pure _ _
  | succ count ih =>
      refine MovesAt.get_bind ?_
      split
      · next x hx =>
          exact MovesAt.bind (appendDltBlockLog_written (by omega) (by omega) ⟨x, hx, rfl⟩)
            fun _ db' _ => ih (num + 1) (by omega) (by omega) db'
      · split
        · exact MovesAt.pure _ _
        · next i hi' =>
            have hlt : i < count := List.mem_range.mp (List.mem_of_find?_eq_some hi')
            exact MovesAt.bind (MovesAt.set (written_of_forget (by simp) fun _ => numbered_nil))
              fun _ db' _ => writeDltWhileKnown_written (count - i) (num + 1 + i) (by omega) (by omega) db'

theorem truncateDltBlockLog_written {lo hi : Nat} (db : Database Tx L) :
    Written lo hi db (truncateDltBlockLog db) := by
  unfold truncateDltBlockLog
  split
  · exact written_of_forget (fun b hb => List.mem_of_mem_drop hb) fun h => h.drop _
  · exact refl_of _ _

/-! ## Ticks -/

/-- The last irreversible block is raised by `o`, and the journal says so. -/
def noteRaised (o : ValidatorConfirmation) (db : Database Tx L) : Database Tx L :=
  { db.modifyFinality (raiseFinality o.blockNum) with
    journal := .raised db.lib o db.state.core.schedule db.state.history :: db.journal }

/-- The last irreversible block is raised to what the validators support, if that is higher. -/
def raiseSupported (num : Nat) (db : Database Tx L) : Database Tx L :=
  if db.lib < num then db.modifyFinality (raiseFinality num) else db

/-- The confirmation of `account` is marked in its object. -/
def markConfirmation (o : ValidatorConfirmation) (account : AccountName) (fin : Finality) : Finality :=
  { fin with confirmations := fin.confirmations.replace o (o.mark account) }

/-- **How irreversibility changes a node.** Raising and committing are one tick: nothing can come
    between them. -/
inductive LibTick : Database Tx L → Database Tx L → Prop where
  | supported {db : Database Tx L} {num : Nat} (h : db.state.core.nextIrreversible = .ok num) :
      LibTick db (db.raiseSupported num).commitIrreversible
  | confirmed {db : Database Tx L} {o : ValidatorConfirmation} (ho : o ∈ db.state.fin.confirmations)
      (h : db.confirms o = true) : LibTick db (db.noteRaised o).commitIrreversible
  | written {db db' : Database Tx L} (h : Written db.logged db.lib db.noteFinalizing db') : LibTick db db'
  | identified {db : Database Tx L} : LibTick db db.setIrreversibleId
  | trimmed {db : Database Tx L} : LibTick db db.trimForkDb

/-- **How the application of `b` changes a node**, once the head has moved to `b`. -/
inductive BlockTick (env : Env Tx L) (b : SignedBlock Tx) : Database Tx L → Database Tx L → Prop where
  | lib {db db' : Database Tx L} (h : LibTick db db') : BlockTick env b db db'
  | scheduled {db : Database Tx L} {c : Core L} (h : db.state.core.finishSchedule env b = .ok c) :
      BlockTick env b db (db.modifyState (fun s => { s with core := c }))
  | funded {db : Database Tx L} {c : Core L} (h : db.state.core.finishLedger env = .ok c) :
      BlockTick env b db (db.modifyState (fun s => { s with core := c }))
  | removed {db : Database Tx L} (o : ValidatorConfirmation) :
      BlockTick env b db (db.modifyFinality (removeConfirmation o))
  | mode {db : Database Tx L} (active : Bool) :
      BlockTick env b db (db.modifyForkDb (ForkDatabase.setEmergencyMode active))
  | created {db : Database Tx L} :
      BlockTick env b db (db.createBlockPostValidation b.blockNum b.id b.validator)
  | completed {db : Database Tx L} :
      BlockTick env b db (db.modifyRecord (fun r => { r with complete := true }))

/-- **How a confirmation of `id` by `account` changes a node.** -/
inductive ConfirmTick (id : BlockId) (account : AccountName) : Database Tx L → Database Tx L → Prop where
  | lib {db db' : Database Tx L} (h : LibTick db db') : ConfirmTick id account db db'
  | marked {db : Database Tx L} {o : ValidatorConfirmation}
      (hs : account ∈ db.state.core.schedule.scheduled)
      (ho : db.state.fin.confirmations.find? (fun o => decide (o.blockId = id)) = some o) :
      ConfirmTick id account db (db.modifyFinality (markConfirmation o account))

section Moves

variable {R : Database Tx L → Database Tx L → Prop} [IsPreorder (Database Tx L) R]

theorem writeIrreversible_moves (db : Database Tx L)
    (hR : ∀ y, Written db.logged db.lib db.noteFinalizing y → R db y) (skipLog : Bool) :
    MovesAt R (writeIrreversible skipLog) db := by
  cases skipLog with
  | true => exact MovesAt.pure _ _
  | false =>
      refine hR _ ?_
      by_cases hd : db.dltMode
      · by_cases hm : 0 < db.dltBlockLogMaxBlocks
        · have h : MovesAt (Written db.logged db.lib) (do
              writeDltBlockLog (db.lib - db.logged) db.logged
              modify truncateDltBlockLog) db.noteFinalizing := by
            refine MovesAt.bind ?_ fun _ db' _ => MovesAt.modify (truncateDltBlockLog_written db')
            by_cases hle : db.logged ≤ db.lib
            · exact writeDltBlockLog_written _ _ (Nat.le_refl _) (by omega) _
            · rw [Nat.sub_eq_zero_of_le (by omega)]
              exact MovesAt.pure _ _
          simpa [MovesAt, after, writeIrreversible, hd, hm, bind_run] using h
        · have h : Written db.logged db.lib db.noteFinalizing db.noteFinalizing := refl_of _ _
          simpa [after, writeIrreversible, hd, hm, bind_run] using h
      · have h : MovesAt (Written db.logged db.lib) (writeBlockLog (db.lib - db.logged) db.logged)
            db.noteFinalizing := by
          by_cases hle : db.logged ≤ db.lib
          · exact writeBlockLog_written _ _ (Nat.le_refl _) (by omega) _
          · rw [Nat.sub_eq_zero_of_le (by omega)]
            exact MovesAt.pure _ _
        simpa [MovesAt, after, writeIrreversible, hd, bind_run] using h

/-- The four steps behind a raise, without the raise. -/
theorem settle_moves (hR : ∀ x y, LibTick x y → R x y) (skipLog : Bool) (p : Database Tx L → Bool)
    (db : Database Tx L) : MovesAt R (do
      writeIrreversible skipLog
      modify fun db => if p db then db.setIrreversibleId else db
      modify trimForkDb) db := by
  refine MovesAt.bind (writeIrreversible_moves db (fun y hw => hR _ _ (.written hw)) skipLog) fun _ x _ => ?_
  refine MovesAt.bind (MovesAt.modify ?_) fun _ y _ => MovesAt.modify (hR _ _ .trimmed)
  split
  · exact hR _ _ .identified
  · exact refl_of R _

theorem updateLastIrreversibleBlock_moves (hR : ∀ x y, LibTick x y → R x y) (skip : Skip)
    (db : Database Tx L) : MovesAt R (updateLastIrreversibleBlock skip) db := by
  refine MovesAt.get_bind ?_
  split
  · exact MovesAt.throw _ _
  · next num hnum =>
      have hrest := settle_moves hR skip.blockLog (fun x => decide (num = x.lib))
        (db.raiseSupported num).commitIrreversible
      have hfirst : R db (db.raiseSupported num).commitIrreversible := hR _ _ (.supported hnum)
      refine trans_of R hfirst ?_
      unfold MovesAt after at hrest
      by_cases hlt : db.lib < num <;>
        simpa [after, bind_run, raiseSupported, hlt] using hrest

theorem raiseIrreversible_moves (hR : ∀ x y, LibTick x y → R x y) {o : ValidatorConfirmation}
    (ho : o ∈ db.state.fin.confirmations) (h : db.confirms o = true) :
    MovesAt R (raiseIrreversible o) db := by
  have hrest := settle_moves hR false (fun _ => true) (db.noteRaised o).commitIrreversible
  refine trans_of R (hR _ _ (.confirmed ho h)) ?_
  unfold MovesAt after at hrest
  simpa [after, bind_run, raiseIrreversible, noteRaised] using hrest

omit [IsPreorder (Database Tx L) R] in
/-- Irreversibility itself leaves the core and the confirmation objects alone. -/
theorem LibTick.frame (h : LibTick db db') :
    db'.state.core = db.state.core ∧ db'.state.fin.confirmations = db.state.fin.confirmations := by
  cases h with
  | supported _ =>
      unfold raiseSupported
      split <;> exact ⟨rfl, rfl⟩
  | confirmed _ _ => exact ⟨rfl, rfl⟩
  | written h =>
      have hc : db'.chainbase = db.chainbase := h.chainbase
      unfold state
      rw [hc]
      exact ⟨rfl, rfl⟩
  | identified =>
      unfold setIrreversibleId setFinalityId
      dsimp only
      cases db.readIrreversible <;> exact ⟨rfl, rfl⟩
  | trimmed => exact ⟨rfl, rfl⟩

instance frameKept : IsPreorder (Database Tx L) (fun x y =>
    y.state.core = x.state.core ∧ y.state.fin.confirmations = x.state.fin.confirmations) where
  refl _ := ⟨rfl, rfl⟩
  trans _ _ _ h₁ h₂ := ⟨h₂.1.trans h₁.1, h₂.2.trans h₁.2⟩

/-- The loop over the objects: those still to come are objects of the state. -/
theorem checkConfirmations_moves (hR : ∀ x y, LibTick x y → R x y)
    (hrem : ∀ x o, R x (modifyFinality (removeConfirmation o) x)) (os : List ValidatorConfirmation)
    (db : Database Tx L) (hos : os.Sublist db.state.fin.confirmations) :
    MovesAt R (checkConfirmations os) db := by
  induction os generalizing db with
  | nil => exact MovesAt.pure _ _
  | cons o os ih =>
      have ho : o ∈ db.state.fin.confirmations := hos.subset (by simp)
      refine MovesAt.get_bind ?_
      dsimp only
      split
      · next h =>
          refine MovesAt.bind (raiseIrreversible_moves hR ho h) fun _ x hx => ?_
          refine MovesAt.bind (MovesAt.modify (hrem x o)) fun _ y hy => ih y ?_
          obtain rfl := (EStateM.Result.ok.inj hy).2
          have hfr := (raiseIrreversible_moves (fun _ _ t => t.frame) ho h).of_ok hx
          show os.Sublist (x.state.fin.confirmations.erase o)
          rw [hfr.2]
          simpa using hos.erase o
      · exact ih db ((List.sublist_cons_self o os).trans hos)

theorem checkBlockPostValidationChain_moves (hR : ∀ x y, LibTick x y → R x y)
    (hrem : ∀ x o, R x (modifyFinality (removeConfirmation o) x)) (db : Database Tx L) :
    MovesAt R checkBlockPostValidationChain db := by
  refine MovesAt.get_bind ?_
  split
  · exact MovesAt.pure _ _
  · exact checkConfirmations_moves hR hrem _ db (List.Sublist.refl _)

omit [IsPreorder (Database Tx L) R] in
/-- What a replacement in a list is. -/
theorem replace_split {α : Type} [BEq α] [LawfulBEq α] {l : List α} {a b : α} (h : a ∈ l) :
    ∃ l₁ l₂, l = l₁ ++ a :: l₂ ∧ l.replace a b = l₁ ++ b :: l₂ := by
  obtain ⟨l₁, l₂, rfl, hn⟩ := List.eq_append_cons_of_mem h
  exact ⟨l₁, l₂, rfl, by rw [List.replace_append_right hn, List.replace_cons_self]⟩

theorem applyBlockPostValidation_moves {id : BlockId} {account : AccountName}
    (hR : ∀ x y, ConfirmTick id account x y → R x y) (db : Database Tx L) :
    MovesAt R (applyBlockPostValidation id account) db := by
  refine MovesAt.get_bind ?_
  split
  · exact MovesAt.pure _ _
  · next hguard =>
      split
      · exact MovesAt.pure _ _
      · next o ho =>
          have hs : account ∈ db.state.core.schedule.scheduled := by
            by_contra hc
            exact hguard (.inr hc)
          refine MovesAt.bind (MovesAt.modify (hR _ _ (.marked hs ho))) fun _ x hx => ?_
          obtain rfl := (EStateM.Result.ok.inj hx).2
          refine MovesAt.get_bind ?_
          split
          · next hc =>
              refine raiseIrreversible_moves (fun x y t => hR x y (.lib t)) ?_ hc.2
              obtain ⟨l₁, l₂, -, hr⟩ := replace_split (b := o.mark account) (List.mem_of_find?_eq_some ho)
              show o.mark account ∈ db.state.fin.confirmations.replace o (o.mark account)
              rw [hr]
              simp
          · exact MovesAt.pure _ _

/-- The node after the head has moved to `b`. -/
def entered (b : SignedBlock Tx) (skip : Skip) (c : Core L) (db : Database Tx L) : Database Tx L :=
  (db.enterBlock b skip db.libTime c).notifyEmergency
    db.state.core.emergencyConsensusActive c.emergencyConsensusActive

theorem onCore_moves {f : Core L → Except Exn (Core L)} (db : Database Tx L)
    (h : ∀ c, f db.state.core = .ok c → R db (db.modifyState (fun s => { s with core := c }))) :
    MovesAt R (onCore f) db := by
  refine MovesAt.get_bind ?_
  split
  · exact MovesAt.throw _ _
  · next c hc => exact MovesAt.set (h c hc)

theorem finishStages_moves {env : Env Tx L} {b : SignedBlock Tx} (hR : ∀ x y, BlockTick env b x y → R x y)
    (skip : Skip) (active : Bool) (db : Database Tx L) : MovesAt R (finishStages env skip b active) db := by
  refine MovesAt.bind (updateLastIrreversibleBlock_moves (fun x y t => hR x y (.lib t)) skip _)
    fun _ x₁ _ => ?_
  refine MovesAt.bind (onCore_moves x₁ fun c h => hR _ _ (.scheduled h)) fun _ x₂ _ => ?_
  refine MovesAt.bind (MovesAt.modify ?_) fun _ x₃ _ => ?_
  · unfold notifyEmergency
    split
    · exact refl_of R _
    · exact hR _ _ (.mode _)
  refine MovesAt.bind (onCore_moves x₃ fun c h => hR _ _ (.funded h)) fun _ x₄ _ => ?_
  refine MovesAt.bind (checkBlockPostValidationChain_moves (fun x y t => hR x y (.lib t))
    (fun x o => hR x _ (.removed o)) x₄) fun _ x₅ _ => ?_
  exact MovesAt.modify (hR _ _ .created)

theorem finishBlock_moves {env : Env Tx L} {b : SignedBlock Tx} (hR : ∀ x y, BlockTick env b x y → R x y)
    (skip : Skip) (active : Bool) (db : Database Tx L) : MovesAt R (finishBlock env skip b active) db :=
  MovesAt.bind (finishStages_moves hR skip active db) fun _ _ _ => MovesAt.modify (hR _ _ .completed)

end Moves

/-! ## The session -/

/-- **The stages of a block application**: the first one throws and changes nothing, or the head moves and
    the second half runs. -/
theorem applyBlockStages_cases (env : Env Tx L) (b : SignedBlock Tx) (skip : Skip) (db : Database Tx L) :
    (∃ e, applyBlockStages env skip b db = .error e db) ∨
    ∃ c, db.state.core.beginBlock env skip db.lib db.libTime b = .ok c ∧
      applyBlockStages env skip b db =
        finishBlock env skip b c.emergencyConsensusActive (db.entered b skip c) := by
  cases hc : db.state.core.beginBlock env skip db.lib db.libTime b with
  | error e => exact .inl ⟨e, by simp [applyBlockStages, hc]⟩
  | ok c => exact .inr ⟨c, rfl, by simp only [applyBlockStages, get_bind_run, hc]; rfl⟩

/-- The ticks of one block application. -/
abbrev BlockTicks (env : Env Tx L) (b : SignedBlock Tx) : Database Tx L → Database Tx L → Prop :=
  ReflTransGen (BlockTick env b)

instance blockTicksPreorder (env : Env Tx L) (b : SignedBlock Tx) :
    IsPreorder (Database Tx L) (BlockTicks env b) where
  refl _ := .refl
  trans _ _ _ := .trans

theorem applyInSession_of_ok {env : Env Tx L} {b : SignedBlock Tx} {skip : Skip} {u : Unit}
    (h : applyBlock env b skip db.startUndoSession = .ok u db') :
    applyInSession env b skip db = .ok u db' := by
  simp only [applyInSession, bind_run, modify_run, tryCatch_run, h]

theorem applyInSession_of_error {env : Env Tx L} {b : SignedBlock Tx} {skip : Skip} {e : Exn}
    (h : applyBlock env b skip db.startUndoSession = .error e db') :
    applyInSession env b skip db = .error e db'.undo := by
  simp only [applyInSession, bind_run, modify_run, tryCatch_run, throw_run, h]

/-- **What the application of a block in its own session does.** It throws at once and changes nothing; or
    the head moves inside a new session, some ticks follow, and the session is kept or undone. -/
theorem applyInSession_cases (env : Env Tx L) (b : SignedBlock Tx) (skip : Skip) (db : Database Tx L) :
    (∃ e, applyInSession env b skip db = .error e db) ∨
    ∃ skip' c db', db.checkpointSkip b skip = .ok skip' ∧
      db.state.core.beginBlock env skip' db.lib db.libTime b = .ok c ∧
      BlockTicks env b (db.startUndoSession.entered b skip' c) db' ∧
      ((finishBlock env skip' b c.emergencyConsensusActive (db.startUndoSession.entered b skip' c) =
          .ok () db' ∧ applyInSession env b skip db = .ok () db') ∨
        ∃ e, finishBlock env skip' b c.emergencyConsensusActive
            (db.startUndoSession.entered b skip' c) = .error e db' ∧
          applyInSession env b skip db = .error e db'.undo) := by
  have hundo : db.startUndoSession.undo = db := by
    simp [undo, startUndoSession, UndoDb.undo, UndoDb.startSession]
  cases hs : db.startUndoSession.checkpointSkip b skip with
  | error e =>
      have happ : applyBlock env b skip db.startUndoSession = .error e db.startUndoSession := by
        simp [applyBlock, hs]
      exact .inl ⟨e, by rw [applyInSession_of_error happ, hundo]⟩
  | ok skip' =>
      have happ : applyBlock env b skip db.startUndoSession =
          applyBlockStages env skip' b db.startUndoSession := by
        simp [applyBlock, hs]
      rcases applyBlockStages_cases env b skip' db.startUndoSession with ⟨e, he⟩ | ⟨c, hc, he⟩
      · exact .inl ⟨e, by rw [applyInSession_of_error (happ.trans he), hundo]⟩
      · have hm := finishBlock_moves (R := BlockTicks env b) (fun _ _ t => .single t) skip'
          c.emergencyConsensusActive (db.startUndoSession.entered b skip' c)
        cases hf : finishBlock env skip' b c.emergencyConsensusActive
            (db.startUndoSession.entered b skip' c) with
        | ok u x =>
            exact .inr ⟨skip', c, x, hs, hc, hm.of_ok hf,
              .inl ⟨hf, applyInSession_of_ok (happ.trans (he.trans hf))⟩⟩
        | error e x =>
            exact .inr ⟨skip', c, x, hs, hc, hm.of_error hf,
              .inr ⟨e, hf, applyInSession_of_error (happ.trans (he.trans hf))⟩⟩

end Database

end VizNode
