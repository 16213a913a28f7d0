import VizNode.Chain.Pending

/-!
# `VizNode.Chain.Logs` — which blocks become irreversible on disk?

The block that is written at a height is looked up in the fork database, on the branch of *its own* head,
or without a walk when only one block of that height is linked. The applied head plays no part in it.

**The two heads can be on different branches**: since the fork choice goes by votes, the fork database
keeps a longer and lighter branch whose tip is its head. `Event.Settled` is the condition on the moment of
a write under which the lookup finds the applied block, and on a run whose writes all meet it only blocks
of the applied chain are written.

## Contents
- **Paths.** A path of previous-links has one block at each height.
- **Events.** `Settled` and `OnChain`, and the moves of a node.
- **Runs.** `written_onChain`.
-/

namespace VizNode

open ForkDatabase (Path)

/-! ## Paths -/

section Paths

variable {Tx : Type} {U : SignedBlock Tx → Prop}

theorem path_num_le (hU : Universe U) {id : BlockId} {b : SignedBlock Tx} (h : Path U id b) :
    b.blockNum ≤ id.num := by
  induction h with
  | tip _ => exact Nat.le_refl _
  | @down c b hc _ ih =>
      show b.blockNum ≤ c.blockNum
      rw [hU.num_eq hc]
      exact Nat.le_succ_of_le ih

/-- A path from a block consists of the block and the path from its parent. -/
theorem path_cases (hU : Universe U) {c b : SignedBlock Tx} (hc : U c) (h : Path U c.id b) :
    b = c ∨ Path U c.previous b := by
  generalize hid : c.id = id at h
  cases h with
  | tip hb => exact .inl (hU.inj _ _ hb hc hid.symm)
  | down hd hp =>
      obtain rfl := hU.inj _ _ hc hd hid
      exact .inr hp

/-- **A path has one block at each height.** -/
theorem path_unique (hU : Universe U) {id : BlockId} {a b : SignedBlock Tx} (ha : Path U id a)
    (hb : Path U id b) (hn : a.blockNum = b.blockNum) : a = b := by
  induction ha with
  | @tip a hUa =>
      rcases path_cases hU hUa hb with rfl | hp
      · rfl
      · have hle := path_num_le hU hp
        rw [← hn, hU.num_eq hUa] at hle
        omega
  | @down c a hc hp ih =>
      rcases path_cases hU hc hb with rfl | hq
      · have hle := path_num_le hU hp
        rw [hn, hU.num_eq hc] at hle
        omega
      · exact ih hq hn

/-- What is lower on a path is on the path from the parent. -/
theorem path_below (hU : Universe U) {id : BlockId} {a b : SignedBlock Tx} (ha : Path U id a) (hb : Path U id b)
    (hlt : a.blockNum < b.blockNum) : Path U b.previous a := by
  induction hb with
  | @tip b hb =>
      rcases path_cases hU hb ha with rfl | hp
      · exact absurd hlt (Nat.lt_irrefl _)
      · exact hp
  | @down c b hc hp ih =>
      rcases path_cases hU hc ha with rfl | hq
      · have hle := path_num_le hU hp
        rw [hU.num_eq hc] at hlt
        omega
      · exact ih hq hlt

/-- **Neighbours on a path are linked.** -/
theorem path_linked (hU : Universe U) {id : BlockId} {a b : SignedBlock Tx} (ha : Path U id a) (hb : Path U id b)
    (hnum : b.blockNum = a.blockNum + 1) : b.previous = a.id := by
  have hp := path_below hU ha hb (by omega)
  have hprev : b.previous.num = a.blockNum := by
    have := hU.num_eq hb.mem
    omega
  generalize b.previous = id' at hp hprev
  cases hp with
  | tip _ => rfl
  | @down c _ hc hp =>
      have hle := path_num_le hU hp
      have hc' : c.blockNum = a.blockNum := hprev
      rw [hU.num_eq hc] at hc'
      omega

end Paths

/-! ## Events -/

section Events

variable {Tx : Type}

/-- **The condition on a write.** At each height that is going to be written and that the fork database
    knows, the block of the applied chain is linked, and when it is not the only one, the fork database's
    head is on top of it too. -/
def Event.Settled (U : SignedBlock Tx → Prop) : Event Tx → Prop
  | .finalizing f head logged lib => ∀ n, logged < n → n ≤ lib → f.fetchBlockByNumber n ≠ [] →
      ∃ x ∈ f.fetchBlockByNumber n, Path U head x.data ∧
        (1 < (f.fetchBlockByNumber n).length → ∃ t, f.head = some t ∧ Path U t.id x.data)
  | _                             => True

/-- **What was appended was on the path from the applied head.** -/
def Event.OnChain (U : SignedBlock Tx → Prop) : Event Tx → Prop
  | .appended b head => Path U head b
  | _                => True

end Events

namespace Database

open Prog Relation

variable {Tx L : Type} {U : SignedBlock Tx → Prop} {db db' : Database Tx L} {env : Env Tx L}

/-- If every write met the condition, only blocks of the applied chain were written. -/
def LogsChain (U : SignedBlock Tx → Prop) (db : Database Tx L) : Prop :=
  (∀ e ∈ db.journal, e.Settled U) → ∀ e ∈ db.journal, e.OnChain U

theorem LogsChain.congr (h : LogsChain U db) (hj : db'.journal = db.journal) : LogsChain U db' := by
  unfold LogsChain
  rw [hj]
  exact h

/-- A write that meets the condition finds the applied block. -/
theorem onMain_path (hU : Universe U) (h : Sound U db) {n : Nat} {b : SignedBlock Tx} (hb : db.OnMain n b)
    (hlo : db.logged < n) (hhi : n ≤ db.lib)
    (hs : (Event.finalizing db.forkDb db.headBlockId db.logged db.lib).Settled U) :
    Path U db.headBlockId b := by
  obtain ⟨x, hx, rfl⟩ := hb
  obtain ⟨-, hnum, hcases⟩ := ForkDatabase.fetchBlockOnMainBranchByNumber_cases h.linked hx
  have hne : db.forkDb.fetchBlockByNumber n ≠ [] := by
    intro hnil
    simp [ForkDatabase.fetchBlockOnMainBranchByNumber, hnil] at hx
  obtain ⟨y, hy, hpath, htwo⟩ := hs n hlo hhi hne
  obtain ⟨hyi, hyn⟩ := ForkDatabase.mem_fetchBlockByNumber.mp hy
  rcases hcases with ⟨-, hone⟩ | ⟨hlen, t, ht, hwalk⟩
  · rw [← hone y hyi hyn]
    exact hpath
  · obtain ⟨t', ht', hpath'⟩ := htwo hlen
    obtain rfl := Option.some.inj (ht.symm.trans ht')
    have hdata : x.data = y.data := path_unique hU hwalk hpath' (hnum.trans hyn.symm)
    rw [hdata]
    exact hpath

theorem LibTick.logsChain (hU : Universe U) (t : LibTick db db') (hs : Sound U db) (h : LogsChain U db) :
    LogsChain U db' := by
  cases t with
  | supported _ =>
      unfold raiseSupported
      split <;> exact h.congr rfl
  | confirmed _ _ =>
      intro hset e he
      rcases List.mem_cons.mp he with rfl | he
      · trivial
      · exact h (fun e he => hset e (List.mem_cons_of_mem _ he)) e he
  | written hw =>
      obtain ⟨es, hj, hes⟩ := hw.events
      have hj' : db'.journal = es ++ .finalizing db.forkDb db.headBlockId db.logged db.lib :: db.journal := hj
      intro hset
      rw [hj'] at hset ⊢
      intro e he
      rcases List.mem_append.mp he with he | he
      · obtain ⟨n, b, hlo, hhi, hb, rfl⟩ := hes e he
        exact onMain_path hU hs hb hlo hhi (hset _ (by simp))
      · rcases List.mem_cons.mp he with rfl | he
        · trivial
        · exact h (fun e he => hset e (by simp [he])) e he
  | identified => exact h.congr rfl
  | trimmed => exact h.congr rfl

/-- **The logs of a sound node hold the applied chain.** -/
structure LogsSound (U : SignedBlock Tx → Prop) (db : Database Tx L) : Prop where
  sound : Sound U db
  chain : LogsChain U db

theorem BlockTick.logsSound {b : SignedBlock Tx} (hU : Universe U) (t : BlockTick env b db db')
    (h : LogsSound U db) : LogsSound U db' := by
  refine ⟨t.sound h.sound, ?_⟩
  cases t with
  | lib t => exact t.logsChain hU h.sound h.chain
  | _ => exact h.chain.congr rfl

theorem BlockTicks.logsSound {b : SignedBlock Tx} (hU : Universe U) (t : BlockTicks env b db db')
    (h : LogsSound U db) : LogsSound U db' := by
  induction t with
  | refl => exact h
  | tail _ t ih => exact t.logsSound hU ih

theorem entered_logsSound (b : SignedBlock Tx) (skip : Skip) (c : Core L) (h : LogsSound U db) :
    LogsSound U (db.startUndoSession.entered b skip c) := by
  unfold entered notifyEmergency
  split
  · exact ⟨h.sound.congr rfl rfl rfl, h.chain.congr rfl⟩
  · exact ⟨⟨h.sound.linked.setEmergencyMode _, h.sound.log, h.sound.dltLog⟩, h.chain.congr rfl⟩

theorem applyInSession_logsSound (hU : Universe U) (b : SignedBlock Tx) (skip : Skip)
    (h : LogsSound U db) : LogsSound U (after (applyInSession env b skip) db) := by
  rcases applyInSession_cases env b skip db with
    ⟨e, he⟩ | ⟨skip', c, x, -, -, ht, ⟨-, hr⟩ | ⟨e, -, hr⟩⟩
  · rw [after_error he]
    exact h
  · rw [after_ok hr]
    exact BlockTicks.logsSound hU ht (entered_logsSound b skip' c h)
  · have hx := BlockTicks.logsSound hU ht (entered_logsSound b skip' c h)
    rw [after_error hr]
    exact ⟨hx.sound.congr rfl rfl rfl, hx.chain.congr rfl⟩

theorem Move.logsSound {stop : ChainState Tx L → Prop} (hU : Universe U) (m : Move env U stop db db')
    (h : LogsSound U db) : LogsSound U db' := by
  cases m with
  | forkDb f hf => exact ⟨⟨hf, h.sound.log, h.sound.dltLog⟩, h.chain.congr rfl⟩
  | applied hb skip => exact applyInSession_logsSound hU _ skip h
  | _ => exact ⟨h.sound.congr rfl rfl rfl, h.chain.congr rfl⟩

theorem Moves.logsSound {stop : ChainState Tx L → Prop} (hU : Universe U)
    (m : ReflTransGen (Move env U stop) db db') (h : LogsSound U db) : LogsSound U db' := by
  induction m with
  | refl => exact h
  | tail _ m ih => exact m.logsSound hU ih

/-! ## Runs -/

theorem LogsSound.congr (h : LogsSound U db) (hs : SameStorage db db') : LogsSound U db' :=
  ⟨h.sound.congr hs.forkDb hs.log hs.dltLog, h.chain.congr hs.journal⟩

theorem step_logsSound (hU : Universe U) {x : Step Tx} (hx : x.From U) (hst : Stored U db)
    (h : LogsSound U db) : LogsSound U (step env db x) := by
  cases x with
  | block b skip =>
      obtain ⟨y, -, hm, -, ht⟩ := pushBlock_moving hx (stopsAt_never b skip db.clearPending) hst
      exact (Moves.logsSound hU hm (h.congr (clearPending_storage db))).congr (TxMoves.storage ht)
  | confirmation id account =>
      refine applyBlockPostValidation_moves (R := Keeps (LogsSound U)) (fun x y t hl => ?_) db h
      cases t with
      | lib t => exact ⟨t.sound hl.sound, t.logsChain hU hl.sound hl.chain⟩
      | marked _ _ => exact hl.congr ⟨rfl, rfl, rfl, rfl⟩
  | transaction tx skip => exact h.congr (pushTransaction_storage tx skip db)

/-- **Only the applied chain becomes irreversible on disk**, on every run whose writes all meet the
    condition: every block that was appended to a log was on the path of previous-links from the applied
    head at that moment. -/
theorem written_onChain (hU : Universe U) {steps : List (Step Tx)} (hs : ∀ x ∈ steps, x.From U)
    (h : Stored U db) (hj : db.journal = []) (hset : ∀ e ∈ (run env db steps).journal, e.Settled U) :
    ∀ b head, .appended b head ∈ (run env db steps).journal → Path U head b := by
  have hstart : LogsSound U db := ⟨h.sound, fun _ e he => absurd he (by simp [hj])⟩
  have hrun : Stored U (run env db steps) ∧ LogsSound U (run env db steps) :=
    run_induction (I := fun db => Stored U db ∧ LogsSound U db)
      (fun _ x hx hI => ⟨step_stored x hx hI.1, step_logsSound hU hx hI.1 hI.2⟩) ⟨h, hstart⟩ hs
  exact fun b head he => hrun.2.chain hset _ he

end Database

/-! ## Samples -/

section Samples

variable {Tx : Type} [DecidableEq Tx]

/-- The blocks on the path from `id`, as far as `blocks` has them. -/
def pathIn (blocks : List (SignedBlock Tx)) : Nat → BlockId → List (SignedBlock Tx)
  | 0,     _  => []
  | n + 1, id =>
      match blocks.find? (fun b => decide (b.id = id)) with
      | none   => []
      | some b => b :: pathIn blocks n b.previous

omit [DecidableEq Tx] in
theorem path_of_mem_pathIn {blocks : List (SignedBlock Tx)} {n : Nat} {id : BlockId} {b : SignedBlock Tx}
    (h : b ∈ pathIn blocks n id) : Path (· ∈ blocks) id b := by
  induction n generalizing id with
  | zero => exact absurd h (by simp [pathIn])
  | succ n ih =>
      unfold pathIn at h
      split at h
      · exact absurd h (by simp)
      · next c hc =>
          have hmem : c ∈ blocks := List.mem_of_find?_eq_some hc
          have hid : c.id = id := by simpa using List.find?_some hc
          subst hid
          rcases List.mem_cons.mp h with rfl | h
          · exact .tip hmem
          · exact .down hmem (ih h)

/-- The condition on a write, computed for finitely many blocks. -/
def Event.settledIn (blocks : List (SignedBlock Tx)) : Event Tx → Bool
  | .finalizing f head logged lib => (List.range (lib + 1)).all fun n =>
      decide (n ≤ logged) || (f.fetchBlockByNumber n).isEmpty ||
        (f.fetchBlockByNumber n).any fun x =>
          decide (x.data ∈ pathIn blocks blocks.length head) &&
            (decide ((f.fetchBlockByNumber n).length ≤ 1) ||
              f.head.any fun t => decide (x.data ∈ pathIn blocks blocks.length t.id))
  | _                             => true

theorem Event.settled_of_settledIn {blocks : List (SignedBlock Tx)} {e : Event Tx}
    (h : e.settledIn blocks = true) : e.Settled (· ∈ blocks) := by
  cases e with
  | finalizing f head logged lib =>
      intro n hlo hhi hne
      have hn := List.all_eq_true.mp h n (List.mem_range.mpr (Nat.lt_succ_of_le hhi))
      simp only [Bool.or_eq_true, decide_eq_true_eq, List.isEmpty_iff, List.any_eq_true, Bool.and_eq_true,
        Option.any_eq_true] at hn
      rcases hn with (hle | hnil) | ⟨x, hx, hpath, htwo⟩
      · omega
      · exact absurd hnil hne
      · refine ⟨x, hx, path_of_mem_pathIn hpath, fun hlen => ?_⟩
        obtain hle | ⟨t, ht, htpath⟩ := htwo
        · omega
        · exact ⟨t, ht, path_of_mem_pathIn htpath⟩
  | appended _ _ => trivial
  | raised _ _ _ _ => trivial

end Samples

namespace Sample

/-- A longer branch of less weight than `b2`. -/
def f2 : SignedBlock Tx := block block1.id 15 2 10
def f3 : SignedBlock Tx := block f2.id 27 2 11

/-- The second block is applied, the lighter branch is not, and the second block is confirmed. -/
def lighterBranch : List (Step Tx) :=
  [.block b2 Skip.nothing, .block f2 Skip.nothing, .block f3 Skip.nothing, .confirmation b2.id 2,
    .confirmation b2.id 1, .confirmation b2.id 4]

end Sample

namespace Database

open Sample in
/-- **The lighter branch is written to the log**: `b2` is applied and becomes irreversible, and `f2`, the
    block of the same height below the fork database's head, is appended. -/
theorem written_offChain :
    .appended f2 b2.id ∈ (run env four lighterBranch).journal ∧
    (run env four lighterBranch).headBlockId = b2.id ∧ (run env four lighterBranch).lib = 2 ∧
    ¬ Path (· ∈ [block1, b2, f2, f3]) b2.id f2 := by
  refine ⟨by decide +kernel, by decide +kernel, by decide +kernel, fun h => ?_⟩
  have hU : Universe (· ∈ [block1, b2, f2, f3]) := Universe.of_list (by decide +kernel) (by decide +kernel)
  exact absurd (path_unique hU h (.tip (by simp)) (by decide +kernel)) (by decide +kernel)

open Sample in
/-- A run on which a confirmed block is written. -/
theorem written_onChain_sample :
    .appended b2 b3.id ∈ (run env four confirmB2).journal ∧ Path (· ∈ [block1, b2, b3]) b3.id b2 := by
  have hU : Universe (· ∈ [block1, b2, b3]) := Universe.of_list (by decide +kernel) (by decide +kernel)
  have hmem : .appended b2 b3.id ∈ (run env four confirmB2).journal := by decide +kernel
  have hset : ∀ e ∈ (run env four confirmB2).journal, e.settledIn [block1, b2, b3] = true := by decide +kernel
  exact ⟨hmem, written_onChain hU (by decide +kernel) (node_stored (by simp) _ _) rfl
    (fun e he => Event.settled_of_settledIn (hset e he)) _ _ hmem⟩

end Database

end VizNode
