import VizNode.Chain.Logs
import VizNode.ForkDatabase.Seeds

/-!
# `VizNode.Chain.Restart` — what `open` makes of a node that was closed

`database::open` goes back to the last irreversible block and fills the fork database with the last hundred blocks of
the logs.

**Two orders.** From the rolling log the blocks come oldest first, so each is linked to the one before and the last is
the head. From `block_log` the head comes first. The oldest block of the hundred does not link then, unless it is block
1, and the exception leaves `open`; and if it is block 1, the blocks are linked to each other but not to the head.
A rolling log of one block is taken for a corrupted one.

## Contents
- **The functions.** `openDatabase`.
- **What should hold.** `Closed`, `Restarted`, and `Restartable`, when it does.
- **From `block_log`**, and **from the rolling log.**
- **The result.** `open_restarts_iff`.
-/

namespace VizNode

namespace Database

open Prog
open ForkDatabase (Path)

variable {Tx L : Type}

/-! ## The functions -/

/-- What is left of a node that was closed: the shared memory and the two logs. -/
def closed (db : Database Tx L) : Database Tx L :=
  { db with
    pendingTxSession := false
    pendingTx        := []
    poppedTx         := []
    forkDb           := { index := [], unlinkedIndex := [], head := none, nextPtr := 0 }
    dltMode          := false }

/-- The shared memory is opened again, and `undo_all` goes back to what was committed. -/
def reopened (db : Database Tx L) : Database Tx L := { db.closed with chainbase := db.chainbase.undoAll }

/-- `is_consistent_with` of the rolling log. -/
def dltConsistentWith (log : List (SignedBlock Tx)) (headNum : Nat) : Bool :=
  let blocks := if log.isEmpty then 0 else lastNum log - firstNum log + 1
  decide (headNum = 0) || decide (blocks = 0) ||
    !(decide (blocks = 1 ∧ 1 < headNum) || decide (headNum < lastNum log) ||
      decide (lastNum log + 1000 < headNum ∧ blocks < 10))

/-- The lowest height that is looked at, of the last `FORK_DB_SEED_DEPTH` ones. -/
def seedStart (headNum : Nat) : Nat := if 100 < headNum then headNum - 100 + 1 else 1

/-- A block of either log goes into the fork database. -/
def seedOne (n : Nat) : DbM Tx L Unit := do
  let db ← get
  match (db.readBlockLog n).or (db.readDltBlockLog n) with
  | some b => do
      let _ ← onForkDb (ForkDatabase.pushBlock b)
      pure ()
  | none   => pure ()

/-- The loop over the heights below the head, from `n`. -/
def seedBelow (n : Nat) : Nat → DbM Tx L Unit
  | 0     => pure ()
  | k + 1 => do
      seedOne n
      seedBelow (n + 1) k

/-- **From `block_log`**: the head first. -/
def seedFromBlockLog (head : SignedBlock Tx) : DbM Tx L Unit := do
  let db ← get
  if head.id ≠ db.headBlockId then throw (.assertion .stateMatchesLog)
  else do
    onForkDb (ForkDatabase.startBlock head)
    seedBelow (seedStart db.headBlockNum) (db.headBlockNum - seedStart db.headBlockNum)

/-- The loop over the rolling log, from `n`, up to a height without a block or with one that does not link. -/
def seedUp (n : Nat) : Nat → DbM Tx L Unit
  | 0     => pure ()
  | k + 1 => do
      let db ← get
      match db.readDltBlockLog n with
      | none   => pure ()
      | some b => do
          let linked ← tryCatch (do let _ ← onForkDb (ForkDatabase.pushBlock b); return true) (fun _ => return false)
          if linked then seedUp (n + 1) k else pure ()

/-- A fork database whose head is not the applied head is given up. -/
def resetUnlessAtHead (db : Database Tx L) : Database Tx L :=
  if db.forkDb.head.map (·.id) = some db.headBlockId then db else db.modifyForkDb .reset

/-- **From the rolling log**: the oldest first. -/
def seedFromDltBlockLog : DbM Tx L Unit := do
  let db ← get
  let h := db.headBlockNum
  match (List.range' (seedStart h) (h + 1 - seedStart h)).find? (fun n => (db.readDltBlockLog n).isSome) with
  | none       => pure ()
  | some start =>
      match db.readDltBlockLog start with
      | none      => pure ()
      | some root => do
          onForkDb (ForkDatabase.startBlock root)
          seedUp (start + 1) (h - start)
          modify resetUnlessAtHead

/-- A rolling log that looks corrupted is emptied. -/
def resetCorrupted (db : Database Tx L) : Database Tx L :=
  if dltConsistentWith db.dltBlockLog db.headBlockNum then db else { db with dltBlockLog := [] }

/-- **The seeding of the fork database.** -/
def seedForkDb : DbM Tx L Unit := do
  modify resetCorrupted
  let db ← get
  match db.readBlockLog db.headBlockNum with
  | some head => seedFromBlockLog head
  | none      => do
      modify fun db => { db with dltMode := true }
      seedFromDltBlockLog

/-- The committee in every slot, and the emergency mode switched on. -/
def fillWithCommittee (c : Core L) : Core L :=
  { c with
    emergencyConsensusActive     := true
    emergencyConsensusStartBlock :=
      if c.emergencyConsensusActive then c.emergencyConsensusStartBlock else c.headBlockNumber
    schedule := { c.schedule with
      currentShuffledValidators := List.replicate Config.maxValidators Config.emergencyValidatorAccount
      numScheduledValidators    := Config.maxValidators
      nextShuffleBlockNum       := c.headBlockNumber + Config.maxValidators } }

/-- The repair of a schedule with empty slots, and the mode of the fork database. -/
def repairSchedule (db : Database Tx L) : Database Tx L :=
  let c := db.state.core
  if (List.range c.schedule.numScheduledValidators).any (fun i => decide (c.schedule.slot i = 0)) then
    let db := if c.emergencyConsensusActive then db else db.modifyForkDb (.setEmergencyMode true)
    db.modifyState (fun s => { s with core := fillWithCommittee s.core })
  else if c.emergencyConsensusActive then db.modifyForkDb (.setEmergencyMode true)
  else db

/-- **`database::open`** of a node that was closed. -/
def openDatabase : DbM Tx L Unit := do
  modify reopened
  let db ← get
  if db.chainbase.revision ≠ db.headBlockNum then throw .databaseRevision
  else if db.headBlockNum = 0 then pure ()
  else do
    seedForkDb
    modify repairSchedule

/-! ## What should hold -/

/-- The block is in one of the logs. -/
def Logged (db : Database Tx L) (n : Nat) (b : SignedBlock Tx) : Prop :=
  db.readBlockLog n = some b ∨ db.readDltBlockLog n = some b

/-- **A node that can be closed**: the oldest state is that of the last irreversible block, and the logs have blocks
    of its chain. -/
structure Closed (U : SignedBlock Tx → Prop) (db : Database Tx L) : Prop where
  revision : db.chainbase.undoAll.revision = db.lib
  final    : db.chainbase.undoAll.state.headBlockNum = db.lib
  headId   : db.chainbase.undoAll.state.headBlockId.num = db.lib
  logged   : ∀ n b, db.Logged n b → b.blockNum = n ∧ Path U db.chainbase.undoAll.state.headBlockId b

/-- **What a restart should give**: the last irreversible block is the head, the fork database is empty only if no log
    has it and otherwise has it as its head, and its walk from the head finds what the logs have at the last hundred
    heights. -/
structure Restarted (db db' : Database Tx L) : Prop where
  head     : db'.headBlockNum = db.lib ∧ db'.headBlockId = db.chainbase.undoAll.state.headBlockId
  empty    : db'.forkDb.head = none → ∀ b, ¬ db.Logged db.lib b
  forkHead : ∀ t, db'.forkDb.head = some t → t.id = db'.headBlockId
  linked   : ∀ n b, db.lib < n + 100 → n ≤ db.lib → db.Logged n b →
    ∃ x ∈ db'.forkDb.index, db'.forkDb.walkMainBranchToNum n = some x ∧ x.data = b

/-- **When it does**: `block_log` has the head only if this is block 1; else the rolling log is not the head alone, and
    with every logged block of the last hundred heights it has all blocks from there to the head. -/
def Restartable (db : Database Tx L) : Prop :=
  ((db.readBlockLog db.lib).isSome ∧ db.lib = 1) ∨
  (db.readBlockLog db.lib = none ∧
    ¬ (1 < db.lib ∧ db.dltBlockLog.length = 1 ∧ (db.readDltBlockLog db.lib).isSome) ∧
    ∀ n b, db.lib < n + 100 → n ≤ db.lib → db.Logged n b → ∀ m, n ≤ m → m ≤ db.lib → (db.readDltBlockLog m).isSome)

section Paths

variable {U : SignedBlock Tx → Prop} {b c : SignedBlock Tx} {id : BlockId}

/-- The top of a path is its tip. -/
theorem path_top (hU : Universe U) (hb : Path U id b) (hnum : b.blockNum = id.num) : b.id = id := by
  cases hb with
  | tip _ => rfl
  | @down c b hc hp =>
      have hle := path_num_le hU hp
      have hc' := hU.num_eq hc
      have hcid : c.id.num = c.blockNum := rfl
      omega

end Paths

/-! ## From `block_log` -/

section FromBlockLog

variable {db db' : Database Tx L} {h : ForkItem Tx}

/-- What the seeding leaves alone. -/
structure SameNode (db db' : Database Tx L) : Prop where
  chainbase : db'.chainbase = db.chainbase
  log       : db'.blockLog = db.blockLog
  dltLog    : db'.dltBlockLog = db.dltBlockLog

theorem SameNode.refl : SameNode db db := ⟨rfl, rfl, rfl⟩

theorem SameNode.trans {db₁ db₂ db₃ : Database Tx L} (h : SameNode db₁ db₂) (h' : SameNode db₂ db₃) :
    SameNode db₁ db₃ :=
  ⟨h'.chainbase.trans h.chainbase, h'.log.trans h.log, h'.dltLog.trans h.dltLog⟩

/-- **Blocks below the head** do not change the head. -/
theorem seedOne_below {n : Nat} (hun : db.forkDb.unlinkedIndex = []) (hhead : db.forkDb.head = some h)
    (hlow : ∀ b, db.Logged n b → b.blockNum < h.num) (hr : seedOne n db = .ok () db') :
    db'.forkDb.unlinkedIndex = [] ∧ db'.forkDb.head = some h ∧ SameNode db db' := by
  unfold seedOne at hr
  simp only [get_bind_run] at hr
  cases hread : (db.readBlockLog n).or (db.readDltBlockLog n) with
  | none =>
      rw [hread] at hr
      obtain ⟨-, rfl⟩ := EStateM.Result.ok.inj hr
      exact ⟨hun, hhead, .refl⟩
  | some b =>
      rw [hread] at hr
      obtain ⟨r, d, hpush, hr⟩ := bind_eq_ok hr
      obtain ⟨-, rfl⟩ := EStateM.Result.ok.inj hr
      have hlogged : db.Logged n b := by
        rcases Option.or_eq_some_iff.mp hread with hb | ⟨-, hb⟩
        · exact .inl hb
        · exact .inr hb
      unfold onForkDb zoom at hpush
      cases hfork : ForkDatabase.pushBlock b db.forkDb with
      | ok r' f' =>
          rw [hfork] at hpush
          obtain ⟨-, rfl⟩ := EStateM.Result.ok.inj hpush
          obtain ⟨hun', hhead'⟩ := ForkDatabase.pushBlock_below hun hhead (hlow b hlogged) hfork
          exact ⟨hun', hhead', rfl, rfl, rfl⟩
      | error e f' =>
          rw [hfork] at hpush
          cases hpush

theorem SameNode.logged (hs : SameNode db db') {n : Nat} {b : SignedBlock Tx} : db'.Logged n b ↔ db.Logged n b := by
  unfold Logged readBlockLog readDltBlockLog
  rw [hs.log, hs.dltLog]

theorem seedBelow_below {n k : Nat} (hun : db.forkDb.unlinkedIndex = []) (hhead : db.forkDb.head = some h)
    (hlow : ∀ m b, m < n + k → db.Logged m b → b.blockNum < h.num) (hr : seedBelow n k db = .ok () db') :
    db'.forkDb.head = some h ∧ SameNode db db' := by
  induction k generalizing n db with
  | zero =>
      obtain ⟨-, rfl⟩ := EStateM.Result.ok.inj hr
      exact ⟨hhead, .refl⟩
  | succ k ih =>
      obtain ⟨_, d, hone, hrest⟩ := bind_eq_ok hr
      obtain ⟨hun', hhead', hsame⟩ := seedOne_below hun hhead (fun b hb => hlow n b (by omega) hb) hone
      obtain ⟨hfinal, hsame'⟩ := ih hun' hhead'
        (fun m b hm hb => hlow m b (by omega) (hsame.logged.mp hb)) hrest
      exact ⟨hfinal, hsame.trans hsame'⟩

/-- Nothing is found below a head without a parent. -/
theorem walk_root {f : ForkDatabase Tx} {num : Nat} (hhead : f.head = some h) (hprev : h.prev = none)
    (hlt : num < h.num) : f.walkMainBranchToNum num = none := by
  unfold ForkDatabase.walkMainBranchToNum
  simp only [hhead]
  rw [if_neg (not_lt.mpr hlt.le)]
  unfold ForkDatabase.walkDown
  rw [if_pos hlt, hprev]
  cases h.num with
  | zero => rfl
  | succ _ => rfl

end FromBlockLog

/-! ## From the rolling log -/

section FromDltBlockLog

variable {U : SignedBlock Tx → Prop} {db : Database Tx L} {a : Nat} {bs : List (SignedBlock Tx)} {id : BlockId}

/-- The node with another fork database. -/
def withFork (db : Database Tx L) (f : ForkDatabase Tx) : Database Tx L := { db with forkDb := f }

theorem onForkDb_run (db : Database Tx L) {α : Type} {m : ForkDatabase.M Tx α} {r : α} {f : ForkDatabase Tx}
    (h : m db.forkDb = .ok r f) : onForkDb m db = .ok r (db.withFork f) := by
  unfold onForkDb zoom
  rw [h]
  rfl

theorem onForkDb_throw (db : Database Tx L) {α : Type} {m : ForkDatabase.M Tx α} {e : Exn} {f : ForkDatabase Tx}
    (h : m db.forkDb = .error e f) : onForkDb m db = .error e (db.withFork f) := by
  unfold onForkDb zoom
  rw [h]
  rfl

theorem readDlt_pos {n : Nat} {b : SignedBlock Tx} (h : db.readDltBlockLog n = some b) : 0 < n := by
  unfold readDltBlockLog readLog at h
  by_cases hc : 0 < firstNum db.dltBlockLog ∧ firstNum db.dltBlockLog ≤ n
  · exact hc.1.trans_le hc.2
  · rw [if_neg hc] at h
    cases h

/-- The blocks stand in the rolling log, from height `a` on. -/
def Drawn (db : Database Tx L) (a : Nat) (bs : List (SignedBlock Tx)) : Prop :=
  ∀ i b, bs[i]? = some b → db.readDltBlockLog (a + i) = some b

/-- What the rolling log holds is on the path from the head. -/
def OnPath (U : SignedBlock Tx → Prop) (db : Database Tx L) (id : BlockId) : Prop :=
  ∀ n b, db.readDltBlockLog n = some b → b.blockNum = n ∧ Path U id b

theorem Drawn.inOrder (h : Drawn db a bs) (hpath : OnPath U db id) : ForkDatabase.InOrder a bs := by
  have hnum : ∀ i b, bs[i]? = some b → b.blockNum = a + i := fun i b hb => (hpath _ b (h i b hb)).1
  refine ⟨hnum, ?_⟩
  rw [List.Nodup, List.pairwise_map, List.pairwise_iff_getElem]
  intro i j hi hj hlt he
  have hbi := hnum i _ (List.getElem?_eq_getElem hi)
  have hbj := hnum j _ (List.getElem?_eq_getElem hj)
  have heq : bs[i].blockNum = bs[j].blockNum := congrArg BlockId.num he
  omega

theorem Drawn.concat {b : SignedBlock Tx} (h : Drawn db a bs) (hb : db.readDltBlockLog (a + bs.length) = some b) :
    Drawn db a (bs ++ [b]) := by
  intro i c hc
  by_cases hi : i < bs.length
  · rw [List.getElem?_append_left hi] at hc
    exact h i c hc
  · have hlen := (List.getElem?_eq_some_iff.mp hc).1
    rw [List.length_append, List.length_singleton] at hlen
    have hi' : i = bs.length := by omega
    rw [hi', List.getElem?_concat_length] at hc
    rw [hi', ← Option.some.inj hc]
    exact hb

/-- **The next block of the log is linked.** -/
theorem pushBlock_drawn (hU : Universe U) (hpath : OnPath U db id) (h : Drawn db a bs) (hne : bs ≠ [])
    {b : SignedBlock Tx} (hb : db.readDltBlockLog (a + bs.length) = some b) :
    ∃ r, ForkDatabase.pushBlock b (ForkDatabase.seeded bs) = .ok r (ForkDatabase.seeded (bs ++ [b])) := by
  have hlen := List.length_pos_of_ne_nil hne
  have horder := h.inOrder hpath
  have hlast : bs.getLast? = some (bs.getLast hne) := List.getLast?_eq_some_getLast hne
  have hread := h (bs.length - 1) (bs.getLast hne) (List.getLast?_eq_getElem? ▸ hlast)
  obtain ⟨hlast_num, hlast_path⟩ := hpath _ _ hread
  obtain ⟨hnum, hb_path⟩ := hpath _ _ hb
  have hprev : b.previous = (bs.getLast hne).id := path_linked hU hlast_path hb_path (by omega)
  apply ForkDatabase.pushBlock_seeded horder.ids hlast hprev
  · -- the block before has a number
    intro hzero
    have hpos := readDlt_pos hread
    have hn : (bs.getLast hne).blockNum = 0 := congrArg BlockId.num (hprev.symm.trans hzero)
    omega
  · intro c hc he
    obtain ⟨i, hi⟩ := List.mem_iff_getElem?.mp hc
    have hc_num := horder.numbers i c hi
    have hilt := (List.getElem?_eq_some_iff.mp hi).1
    have heq : c.blockNum = b.blockNum := congrArg BlockId.num he
    omega
  · omega

/-- **The loop links the log up to its end**, or up to the number of heights it is given. -/
theorem seedUp_run (hU : Universe U) (hpath : OnPath U db id) {k : Nat} (h : Drawn db a bs) (hne : bs ≠ []) :
    ∃ cs, seedUp (a + bs.length) k (db.withFork (.seeded bs)) = .ok () (db.withFork (.seeded cs)) ∧
      Drawn db a cs ∧ cs ≠ [] ∧ cs.length ≤ bs.length + k ∧
      (cs.length < bs.length + k → db.readDltBlockLog (a + cs.length) = none) := by
  induction k generalizing bs with
  | zero => exact ⟨bs, rfl, h, hne, le_rfl, fun hlt => absurd hlt (lt_irrefl _)⟩
  | succ k ih =>
      unfold seedUp
      simp only [get_bind_run]
      cases hread : (db.withFork (.seeded bs)).readDltBlockLog (a + bs.length) with
      | none => exact ⟨bs, rfl, h, hne, Nat.le_add_right _ _, fun _ => hread⟩
      | some b =>
          obtain ⟨r, hpush⟩ := pushBlock_drawn hU hpath h hne hread
          obtain ⟨cs, hrun, hdrawn, hcs, hle, hend⟩ := ih (h.concat hread) (List.concat_ne_nil b bs)
          rw [List.length_append, List.length_singleton] at hrun hle hend
          refine ⟨cs, ?_, hdrawn, hcs, by omega, fun hlt => hend (by omega)⟩
          have hlink := onForkDb_run (db.withFork (.seeded bs)) hpush
          have hstep : (tryCatch (do let _ ← onForkDb (ForkDatabase.pushBlock b); return true) (fun _ => return false) :
              DbM Tx L Bool) (db.withFork (.seeded bs)) = .ok true (db.withFork (.seeded (bs ++ [b]))) := by
            rw [tryCatch_run, bind_run, hlink]
            rfl
          dsimp only
          rw [bind_run, hstep]
          exact hrun

/-- The rolling log has no gaps. -/
theorem readDlt_between {n m k : Nat} (hn : (db.readDltBlockLog n).isSome) (hk : (db.readDltBlockLog k).isSome)
    (hnm : n ≤ m) (hmk : m ≤ k) : (db.readDltBlockLog m).isSome := by
  unfold readDltBlockLog readLog at *
  by_cases hc : 0 < firstNum db.dltBlockLog ∧ firstNum db.dltBlockLog ≤ n
  · have hck : 0 < firstNum db.dltBlockLog ∧ firstNum db.dltBlockLog ≤ k := ⟨hc.1, by omega⟩
    have hcm : 0 < firstNum db.dltBlockLog ∧ firstNum db.dltBlockLog ≤ m := ⟨hc.1, by omega⟩
    rw [if_pos hck, Option.isSome_iff_ne_none, ne_eq, List.getElem?_eq_none_iff] at hk
    rw [if_pos hcm, Option.isSome_iff_ne_none, ne_eq, List.getElem?_eq_none_iff]
    omega
  · rw [if_neg hc] at hn
    cases hn

theorem seedStart_le {n : Nat} (hn : 0 < n) : seedStart n ≤ n := by
  unfold seedStart
  by_cases h : 100 < n
  · rw [if_pos h]
    omega
  · rw [if_neg h]
    omega

/-- **What comes of the rolling log**: nothing when it does not have the head, else all it has of the heights that are
    looked at. -/
theorem seedFromDltBlockLog_run (hU : Universe U) (hpath : OnPath U db db.headBlockId)
    (hid : db.headBlockId.num = db.headBlockNum) (hpos : 0 < db.headBlockNum)
    (hblank : db.forkDb = { index := [], unlinkedIndex := [], head := none, nextPtr := 0 }) :
    ∃ f, seedFromDltBlockLog db = .ok () (db.withFork f) ∧
      (f.head = none ∧ f.index = [] ∧ db.readDltBlockLog db.headBlockNum = none ∨
        ∃ start cs, f = .seeded cs ∧ cs ≠ [] ∧ Drawn db start cs ∧ start + cs.length = db.headBlockNum + 1 ∧
          ∀ n, seedStart db.headBlockNum ≤ n → (db.readDltBlockLog n).isSome → start ≤ n) := by
  cases hfind : (List.range' (seedStart db.headBlockNum) (db.headBlockNum + 1 - seedStart db.headBlockNum)).find?
      (fun n => (db.readDltBlockLog n).isSome) with
  | none =>
      have hrun : seedFromDltBlockLog db = .ok () (db.withFork db.forkDb) := by
        unfold seedFromDltBlockLog
        simp only [get_bind_run, hfind]
        rfl
      refine ⟨db.forkDb, hrun, .inl ⟨by rw [hblank], by rw [hblank], ?_⟩⟩
      have hle := seedStart_le hpos
      have hnone := List.find?_range'_eq_none.mp hfind db.headBlockNum hle (by omega)
      simpa using hnone
  | some start =>
      obtain ⟨hstart, hmem, hleast⟩ := List.find?_range'_eq_some.mp hfind
      rw [List.mem_range'_1] at hmem
      obtain ⟨root, hroot⟩ := Option.isSome_iff_exists.mp hstart
      have hdrawn : Drawn db start [root] := by
        intro i b hb
        obtain ⟨hi, rfl⟩ := List.getElem?_eq_some_iff.mp hb
        have hi' : i = 0 := by
          rw [List.length_singleton] at hi
          omega
        subst hi'
        exact hroot
      obtain ⟨cs, hrun, hcs, hne, hle, hend⟩ := seedUp_run hU hpath (k := db.headBlockNum - start) hdrawn
        (List.cons_ne_nil root [])
      rw [List.length_singleton] at hrun hle hend
      have hbegin : (onForkDb (ForkDatabase.startBlock root) : DbM Tx L Unit) db =
          .ok () (db.withFork (.seeded [root])) := by
        apply onForkDb_run
        rw [hblank]
        rfl
      have hseeded : seedFromDltBlockLog db = .ok () (resetUnlessAtHead (db.withFork (.seeded cs))) := by
        unfold seedFromDltBlockLog
        simp only [get_bind_run, hfind, hroot]
        rw [bind_run, hbegin]
        dsimp only
        rw [bind_run, hrun]
        rfl
      have hlen := List.length_pos_of_ne_nil hne
      have hlast : cs.getLast? = some (cs.getLast hne) := List.getLast?_eq_some_getLast hne
      have hread := hcs (cs.length - 1) (cs.getLast hne) (List.getLast?_eq_getElem? ▸ hlast)
      obtain ⟨hlast_num, hlast_path⟩ := hpath _ _ hread
      have hhead : (db.withFork (.seeded cs)).forkDb.head.map (·.id) = some (cs.getLast hne).id := by
        show (ForkDatabase.seeded cs).head.map _ = _
        rw [ForkDatabase.seeded_head hlast]
        rfl
      unfold resetUnlessAtHead at hseeded
      rw [hhead] at hseeded
      by_cases hfull : start + cs.length = db.headBlockNum + 1
      · -- the log reaches the head
        have htop : (cs.getLast hne).id = db.headBlockId := path_top hU hlast_path (by omega)
        have hid' : some (cs.getLast hne).id = some (db.withFork (.seeded cs)).headBlockId := congrArg some htop
        rw [if_pos hid'] at hseeded
        refine ⟨.seeded cs, hseeded, .inr ⟨start, cs, rfl, hne, hcs, hfull, ?_⟩⟩
        intro n hn hread'
        by_contra hlt
        have hno := hleast n hn (by omega)
        rw [hread'] at hno
        cases hno
      · have hid' : ¬ some (cs.getLast hne).id = some (db.withFork (.seeded cs)).headBlockId := by
          intro he
          have heq : (cs.getLast hne).blockNum = db.headBlockId.num := congrArg BlockId.num (Option.some.inj he)
          omega
        rw [if_neg hid'] at hseeded
        refine ⟨(ForkDatabase.seeded cs).reset, hseeded, .inl ⟨rfl, rfl, ?_⟩⟩
        have hmissing := hend (by omega)
        by_contra hsome
        have hbetween := readDlt_between (Option.isSome_iff_exists.mpr ⟨root, hroot⟩)
          (Option.isSome_iff_ne_none.mpr hsome) (Nat.le_add_right start cs.length) (by omega)
        rw [hmissing] at hbetween
        cases hbetween

end FromDltBlockLog

/-! ## The result -/

section Result

variable {U : SignedBlock Tx → Prop} {db d : Database Tx L}

/-- The walk does not look at the mode. -/
theorem walk_setEmergencyMode {f : ForkDatabase Tx} {active : Bool} (n : Nat) :
    (f.setEmergencyMode active).walkMainBranchToNum n = f.walkMainBranchToNum n := by
  have hdown : ∀ fuel (x : Option (ForkItem Tx)),
      ForkDatabase.walkDown (f.setEmergencyMode active) n fuel x = ForkDatabase.walkDown f n fuel x := by
    intro fuel
    induction fuel with
    | zero => intro x; rfl
    | succ fuel ih =>
        intro x
        cases x with
        | none => rfl
        | some x =>
            unfold ForkDatabase.walkDown
            rw [ih]
            rfl
  unfold ForkDatabase.walkMainBranchToNum
  simp only [hdown]
  rfl

theorem Restarted.congr {d d' : Database Tx L} (h : Restarted db d) (hnum : d'.headBlockNum = d.headBlockNum)
    (hid : d'.headBlockId = d.headBlockId) (hhead : d'.forkDb.head = d.forkDb.head)
    (hindex : d'.forkDb.index = d.forkDb.index)
    (hwalk : ∀ n, d'.forkDb.walkMainBranchToNum n = d.forkDb.walkMainBranchToNum n) : Restarted db d' := by
  refine ⟨⟨hnum.trans h.head.1, hid.trans h.head.2⟩, ?_, ?_, ?_⟩
  · rw [hhead]
    exact h.empty
  · rw [hhead, hid]
    exact h.forkHead
  · intro n b hlo hhi hb
    rw [hindex, hwalk]
    exact h.linked n b hlo hhi hb

/-- **The repair of the schedule** does not matter here. -/
theorem restarted_repair : Restarted db (repairSchedule d) ↔ Restarted db d := by
  have hcases : (repairSchedule d).headBlockNum = d.headBlockNum ∧ (repairSchedule d).headBlockId = d.headBlockId ∧
      ((repairSchedule d).forkDb = d.forkDb ∨ (repairSchedule d).forkDb = d.forkDb.setEmergencyMode true) := by
    unfold repairSchedule
    by_cases hbroken : (List.range d.state.core.schedule.numScheduledValidators).any
        (fun i => decide (d.state.core.schedule.slot i = 0))
    · by_cases hactive : d.state.core.emergencyConsensusActive
      · simp only [hbroken, hactive, if_true]
        exact ⟨rfl, rfl, .inl rfl⟩
      · simp only [hbroken, hactive, if_true]
        exact ⟨rfl, rfl, .inr rfl⟩
    · by_cases hactive : d.state.core.emergencyConsensusActive
      · simp only [hbroken, hactive, if_true]
        exact ⟨rfl, rfl, .inr rfl⟩
      · simp only [hbroken, hactive]
        exact ⟨rfl, rfl, .inl rfl⟩
  obtain ⟨hnum, hid, hfork | hfork⟩ := hcases
  · constructor
    · intro h
      exact h.congr hnum.symm hid.symm (by rw [hfork]) (by rw [hfork]) (fun n => by rw [hfork])
    · intro h
      exact h.congr hnum hid (by rw [hfork]) (by rw [hfork]) (fun n => by rw [hfork])
  · constructor
    · intro h
      exact h.congr hnum.symm hid.symm (by rw [hfork]; rfl) (by rw [hfork]; rfl)
        (fun n => by rw [hfork, walk_setEmergencyMode])
    · intro h
      exact h.congr hnum hid (by rw [hfork]; rfl) (by rw [hfork]; rfl)
        (fun n => by rw [hfork, walk_setEmergencyMode])

theorem Closed.headNum (hc : Closed U db) : (reopened db).headBlockNum = db.lib := hc.final

/-- `open` of a node that is not at its beginning. -/
theorem openDatabase_eq (hc : Closed U db) (hpos : 0 < db.lib) :
    openDatabase db = (seedForkDb >>= fun _ => modify repairSchedule) (reopened db) := by
  have hrev : ¬ (reopened db).chainbase.revision ≠ (reopened db).headBlockNum :=
    not_not.mpr (hc.revision.trans hc.final.symm)
  have hnum : ¬ (reopened db).headBlockNum = 0 := by
    rw [hc.headNum]
    omega
  unfold openDatabase
  rw [bind_run, modify_run]
  simp only [get_bind_run]
  rw [if_neg hrev, if_neg hnum]

theorem openDatabase_zero (hc : Closed U db) (hzero : db.lib = 0) : openDatabase db = .ok () (reopened db) := by
  have hrev : ¬ (reopened db).chainbase.revision ≠ (reopened db).headBlockNum :=
    not_not.mpr (hc.revision.trans hc.final.symm)
  unfold openDatabase
  rw [bind_run, modify_run]
  simp only [get_bind_run]
  rw [if_neg hrev, if_pos (hc.headNum.trans hzero)]
  rfl

/-- There is no block 0. -/
theorem logged_pos {n : Nat} {b : SignedBlock Tx} (h : db.Logged n b) : 0 < n := by
  rcases h with h | h
  · unfold readBlockLog readLog at h
    by_cases hc : 0 < 1 ∧ 1 ≤ n
    · exact hc.2
    · rw [if_neg hc] at h
      cases h
  · exact readDlt_pos h

/-- An opened node whose fork database is empty. -/
theorem restarted_of_empty (hnum : d.headBlockNum = db.lib)
    (hid : d.headBlockId = db.chainbase.undoAll.state.headBlockId) (hhead : d.forkDb.head = none) :
    Restarted db d ↔ ∀ n b, db.lib < n + 100 → n ≤ db.lib → ¬ db.Logged n b := by
  constructor
  · intro h n b hlo hhi hb
    obtain ⟨x, -, hwalk, -⟩ := h.linked n b hlo hhi hb
    unfold ForkDatabase.walkMainBranchToNum at hwalk
    simp only [hhead] at hwalk
    cases hwalk
  · intro h
    refine ⟨⟨hnum, hid⟩, fun _ b => h db.lib b (by omega) le_rfl, ?_, ?_⟩
    · intro t ht
      rw [hhead] at ht
      cases ht
    · intro n b hlo hhi hb
      exact absurd hb (h n b hlo hhi)

/-- The opened node after the check of its rolling log. -/
def checked (db : Database Tx L) : Database Tx L := resetCorrupted (reopened db)

theorem checked_cases (db : Database Tx L) : checked db = reopened db ∨ checked db = { reopened db with dltBlockLog := [] } := by
  unfold checked resetCorrupted
  by_cases hok : dltConsistentWith (reopened db).dltBlockLog (reopened db).headBlockNum
  · rw [if_pos hok]
    exact .inl rfl
  · rw [if_neg hok]
    exact .inr rfl

/-- What it reads, the node that was closed had in its logs. -/
theorem logged_of_checked {n : Nat} {b : SignedBlock Tx} (h : (checked db).Logged n b) : db.Logged n b := by
  rcases checked_cases db with he | he
  · rw [he] at h
    exact h
  · rw [he] at h
    rcases h with h | h
    · exact .inl h
    · cases h

theorem checked_core (db : Database Tx L) : (checked db).blockLog = db.blockLog ∧ (checked db).chainbase = db.chainbase.undoAll ∧
    (checked db).forkDb = { index := [], unlinkedIndex := [], head := none, nextPtr := 0 } := by
  rcases checked_cases db with he | he
  · rw [he]
    exact ⟨rfl, rfl, rfl⟩
  · rw [he]
    exact ⟨rfl, rfl, rfl⟩

theorem checked_head (hc : Closed U db) : (checked db).headBlockNum = db.lib ∧
    (checked db).headBlockId = db.chainbase.undoAll.state.headBlockId := by
  obtain ⟨-, hbase, -⟩ := checked_core db
  unfold headBlockNum headBlockId state
  rw [hbase]
  exact ⟨hc.final, rfl⟩

theorem seedForkDb_log {head : SignedBlock Tx}
    (h : (checked db).readBlockLog (checked db).headBlockNum = some head) :
    seedForkDb (reopened db) = seedFromBlockLog head (checked db) := by
  unfold checked at h
  unfold seedForkDb
  rw [bind_run, modify_run]
  simp only [get_bind_run, h]
  rfl

theorem seedForkDb_dlt (h : (checked db).readBlockLog (checked db).headBlockNum = none) :
    seedForkDb (reopened db) = seedFromDltBlockLog { checked db with dltMode := true } := by
  unfold checked at h
  unfold seedForkDb
  rw [bind_run, modify_run]
  simp only [get_bind_run, h]
  rfl

/-- A restart that gets through the seeding. -/
theorem open_of_seeded (hc : Closed U db) (hpos : 0 < db.lib) :
    (∃ d, openDatabase db = .ok () d ∧ Restarted db d) ↔ ∃ d, seedForkDb (reopened db) = .ok () d ∧ Restarted db d := by
  rw [openDatabase_eq hc hpos]
  constructor
  · rintro ⟨d, hr, h⟩
    obtain ⟨_, d', hseed, hrepair⟩ := bind_eq_ok hr
    obtain ⟨-, rfl⟩ := EStateM.Result.ok.inj hrepair
    exact ⟨d', hseed, restarted_repair.mp h⟩
  · rintro ⟨d, hseed, h⟩
    refine ⟨repairSchedule d, ?_, restarted_repair.mpr h⟩
    rw [bind_run, hseed]
    rfl

/-- **The head of `block_log` comes first**, then the blocks below it. -/
theorem seed_from_head (hU : Universe U) (hc : Closed U db) {head : SignedBlock Tx}
    (hread : db.readBlockLog db.lib = some head) :
    seedForkDb (reopened db) = seedBelow (seedStart db.lib) (db.lib - seedStart db.lib)
      ((checked db).withFork (.seeded [head])) := by
  obtain ⟨hnum, hpath⟩ := hc.logged _ _ (.inl hread)
  obtain ⟨hlog, -, hblank⟩ := checked_core db
  obtain ⟨hheadNum, hheadId⟩ := checked_head hc
  have hid : head.id = (checked db).headBlockId := by
    rw [hheadId]
    exact path_top hU hpath (hnum.trans hc.headId.symm)
  have hread' : (checked db).readBlockLog (checked db).headBlockNum = some head := by
    unfold readBlockLog
    rw [hlog, hheadNum]
    exact hread
  have hbegin : (onForkDb (ForkDatabase.startBlock head) : DbM Tx L Unit) (checked db) =
      .ok () ((checked db).withFork (.seeded [head])) := by
    apply onForkDb_run
    rw [hblank]
    rfl
  rw [seedForkDb_log hread']
  unfold seedFromBlockLog
  simp only [get_bind_run]
  rw [if_neg (not_not.mpr hid), bind_run, hbegin, hheadNum]

/-- **With the head in `block_log`** only block 1 survives a restart: another head has no parent in the fork
    database. -/
theorem open_from_blockLog (hU : Universe U) (hc : Closed U db) {head : SignedBlock Tx}
    (hread : db.readBlockLog db.lib = some head) :
    (∃ d, openDatabase db = .ok () d ∧ Restarted db d) ↔ db.lib = 1 := by
  obtain ⟨hnum, hpath⟩ := hc.logged _ _ (.inl hread)
  have hpos : 0 < db.lib := logged_pos (.inl hread)
  obtain ⟨hheadNum, hheadId⟩ := checked_head hc
  rw [open_of_seeded hc hpos, seed_from_head hU hc hread]
  constructor
  · rintro ⟨d, hr, h⟩
    by_contra hne
    -- the head has no parent afterwards, so the walk does not get below it
    obtain ⟨hfinal, -⟩ := seedBelow_below (h := ForkDatabase.seedItem 0 head) rfl rfl
      (by
        intro m b hm hb
        have hle := seedStart_le hpos
        have hm' := (hc.logged m b (logged_of_checked hb)).1
        show b.blockNum < head.blockNum
        omega) hr
    have hlen : db.lib - 1 < db.blockLog.length := by
      unfold readBlockLog readLog at hread
      rw [if_pos ⟨Nat.one_pos, hpos⟩] at hread
      exact (List.getElem?_eq_some_iff.mp hread).1
    obtain ⟨c, hc'⟩ : ∃ c, db.blockLog[db.lib - 1 - 1]? = some c :=
      ⟨_, List.getElem?_eq_getElem ((Nat.sub_le _ _).trans_lt hlen)⟩
    have hbelow : db.Logged (db.lib - 1) c := by
      left
      unfold readBlockLog readLog
      rw [if_pos ⟨Nat.one_pos, by omega⟩]
      exact hc'
    obtain ⟨x, -, hwalk, -⟩ := h.linked _ _ (by omega) (Nat.sub_le _ _) hbelow
    rw [walk_root hfinal rfl] at hwalk
    · cases hwalk
    · show db.lib - 1 < head.blockNum
      omega
  · intro hone
    have hnone : db.lib - seedStart db.lib = 0 := by
      rw [hone]
      rfl
    rw [hnone]
    refine ⟨_, rfl, ⟨hheadNum, hheadId⟩, ?_, ?_, ?_⟩
    · intro hempty
      cases hempty
    · intro t ht
      obtain rfl := Option.some.inj ht
      exact (path_top hU hpath (hnum.trans hc.headId.symm)).trans hheadId.symm
    · intro n b hlo hhi hb
      have hn : n = db.lib := by
        have hpos' := logged_pos hb
        omega
      subst hn
      have heq : b = head := by
        obtain ⟨hnum', hpath'⟩ := hc.logged _ _ hb
        exact path_unique hU hpath' hpath (hnum'.trans hnum.symm)
      have horder : ForkDatabase.InOrder head.blockNum [head] := by
        refine ⟨?_, List.nodup_singleton _⟩
        intro i c hc'
        obtain ⟨hi, rfl⟩ := List.getElem?_eq_some_iff.mp hc'
        have hi' : i = 0 := by
          rw [List.length_singleton] at hi
          omega
        subst hi'
        rfl
      obtain ⟨c, hc', hwalk⟩ := ForkDatabase.walk_seeded horder rfl hnum.le hnum.ge
      rw [hnum, Nat.sub_self] at hc' hwalk
      obtain rfl := Option.some.inj hc'
      exact ⟨_, ForkDatabase.mem_seeded.mpr ⟨0, _, rfl, rfl⟩, hwalk, heq.symm⟩

/-- The rolling log with the head ends there. -/
theorem dltLog_ends (hU : Universe U) (hc : Closed U db) (h : (db.readDltBlockLog db.lib).isSome) :
    0 < db.dltBlockLog.length ∧ lastNum db.dltBlockLog = db.lib ∧
      firstNum db.dltBlockLog + db.dltBlockLog.length = db.lib + 1 := by
  obtain ⟨b, hb⟩ := Option.isSome_iff_exists.mp h
  have hb' := hb
  unfold readDltBlockLog readLog at hb'
  by_cases hrange : 0 < firstNum db.dltBlockLog ∧ firstNum db.dltBlockLog ≤ db.lib
  · rw [if_pos hrange] at hb'
    have hlt := (List.getElem?_eq_some_iff.mp hb').1
    -- the last block is not above the head
    obtain ⟨last, hlast⟩ : ∃ last, db.dltBlockLog[db.dltBlockLog.length - 1]? = some last :=
      ⟨_, List.getElem?_eq_getElem (Nat.sub_lt (Nat.zero_lt_of_lt hlt) Nat.one_pos)⟩
    have hread : db.readDltBlockLog (firstNum db.dltBlockLog + (db.dltBlockLog.length - 1)) = some last := by
      unfold readDltBlockLog readLog
      rw [if_pos ⟨hrange.1, Nat.le_add_right _ _⟩, Nat.add_sub_cancel_left]
      exact hlast
    obtain ⟨hnum, hpath⟩ := hc.logged _ _ (.inr hread)
    have hle := path_num_le hU hpath
    rw [hc.headId] at hle
    have hlastNum : lastNum db.dltBlockLog = last.blockNum := by
      unfold lastNum
      rw [List.getLast?_eq_getElem?, hlast]
      rfl
    refine ⟨Nat.zero_lt_of_lt hlt, ?_, by omega⟩
    omega
  · rw [if_neg hrange] at hb'
    cases hb'

/-- **A rolling log is kept** that has the head, unless the head is all it has. -/
theorem checked_dlt (hU : Universe U) (hc : Closed U db) :
    ((checked db).readDltBlockLog db.lib).isSome ↔
      (db.readDltBlockLog db.lib).isSome ∧ ¬ (1 < db.lib ∧ db.dltBlockLog.length = 1) := by
  have hnum := hc.headNum
  constructor
  · intro h
    obtain ⟨b, hb⟩ := Option.isSome_iff_exists.mp h
    have hsome : (db.readDltBlockLog db.lib).isSome := by
      rcases checked_cases db with he | he
      · rw [he] at h
        exact h
      · rw [he] at hb
        cases hb
    refine ⟨hsome, ?_⟩
    rintro ⟨hlib, hone⟩
    obtain ⟨hpos, hlast, hlen⟩ := dltLog_ends hU hc hsome
    have hempty : db.dltBlockLog.isEmpty = false := by
      rw [List.isEmpty_eq_false_iff, ← List.length_pos_iff]
      exact hpos
    have hbad : dltConsistentWith (reopened db).dltBlockLog (reopened db).headBlockNum = false := by
      show dltConsistentWith db.dltBlockLog _ = false
      unfold dltConsistentWith
      rw [hnum, hempty, hlast]
      have hblocks : db.lib - firstNum db.dltBlockLog + 1 = 1 := by omega
      simp [hblocks, hlib]
      omega
    unfold checked resetCorrupted at hb
    rw [hbad] at hb
    cases hb
  · rintro ⟨hsome, hmany⟩
    obtain ⟨hpos, hlast, hlen⟩ := dltLog_ends hU hc hsome
    have hempty : db.dltBlockLog.isEmpty = false := by
      rw [List.isEmpty_eq_false_iff, ← List.length_pos_iff]
      exact hpos
    have hgood : dltConsistentWith (reopened db).dltBlockLog (reopened db).headBlockNum = true := by
      show dltConsistentWith db.dltBlockLog _ = true
      unfold dltConsistentWith
      rw [hnum, hempty, hlast]
      have hblocks : ¬ (db.lib - firstNum db.dltBlockLog + 1 = 1 ∧ 1 < db.lib) := by
        rintro ⟨hb, hlib⟩
        exact hmany ⟨hlib, by omega⟩
      have hfar : ¬ (db.lib + 1000 < db.lib ∧ db.lib - firstNum db.dltBlockLog + 1 < 10) := by omega
      simp only [Bool.false_eq_true, if_false, hblocks, hfar, lt_irrefl, decide_false, Bool.or_false, Bool.not_false,
        Bool.or_true]
    unfold checked resetCorrupted
    rw [if_pos hgood]
    exact hsome

/-- The opened node without the head in `block_log`. -/
def dltOpened (db : Database Tx L) : Database Tx L := { checked db with dltMode := true }

/-- **Without the head in `block_log`** it is the rolling log that counts. -/
theorem open_from_dltBlockLog (hU : Universe U) (hc : Closed U db) (hpos : 0 < db.lib)
    (hread : db.readBlockLog db.lib = none) :
    (∃ d, openDatabase db = .ok () d ∧ Restarted db d) ↔
      ¬ (1 < db.lib ∧ db.dltBlockLog.length = 1 ∧ (db.readDltBlockLog db.lib).isSome) ∧
      ∀ n b, db.lib < n + 100 → n ≤ db.lib → db.Logged n b →
        ∀ m, n ≤ m → m ≤ db.lib → (db.readDltBlockLog m).isSome := by
  obtain ⟨hlog, -, hblank⟩ := checked_core db
  obtain ⟨hnum, hid⟩ : (dltOpened db).headBlockNum = db.lib ∧
      (dltOpened db).headBlockId = db.chainbase.undoAll.state.headBlockId := checked_head hc
  have hread' : (checked db).readBlockLog (checked db).headBlockNum = none := by
    have hnum' : (checked db).headBlockNum = db.lib := hnum
    unfold readBlockLog
    rw [hlog, hnum']
    exact hread
  have hpath : OnPath U (dltOpened db) (dltOpened db).headBlockId := by
    intro n b hb
    rw [hid]
    exact hc.logged n b (logged_of_checked (.inr hb))
  obtain ⟨f, hrun, hf⟩ := seedFromDltBlockLog_run hU hpath (by rw [hid, hnum]; exact hc.headId) (by rw [hnum]; exact hpos)
    hblank
  have hseed : seedForkDb (reopened db) = .ok () ((dltOpened db).withFork f) := (seedForkDb_dlt hread').trans hrun
  have hiff : (∃ d, openDatabase db = .ok () d ∧ Restarted db d) ↔ Restarted db ((dltOpened db).withFork f) := by
    rw [open_of_seeded hc hpos, hseed]
    constructor
    · rintro ⟨d, hd, h⟩
      obtain ⟨-, rfl⟩ := EStateM.Result.ok.inj hd
      exact h
    · intro h
      exact ⟨_, rfl, h⟩
  rw [hiff]
  have hkept := checked_dlt hU hc
  rw [hnum] at hf
  rcases hf with ⟨hhead, -, hnone⟩ | ⟨start, cs, rfl, hne, hcs, hlen, hleast⟩
  · -- the fork database is empty
    rw [restarted_of_empty (d := (dltOpened db).withFork f) hnum hid hhead]
    have hnone' : (checked db).readDltBlockLog db.lib = none := hnone
    constructor
    · intro h
      constructor
      · rintro ⟨-, -, hsome⟩
        obtain ⟨b, hb⟩ := Option.isSome_iff_exists.mp hsome
        exact h db.lib b (by omega) le_rfl (.inr hb)
      · intro n b hlo hhi hb
        exact absurd hb (h n b hlo hhi)
    · rintro ⟨hsingle, hall⟩ n b hlo hhi hb
      have hsome := hall n b hlo hhi hb db.lib hhi le_rfl
      have hsome' := hkept.mpr ⟨hsome, fun h => hsingle ⟨h.1, h.2, hsome⟩⟩
      rw [hnone'] at hsome'
      cases hsome'
  · -- it has all the rolling log has of the last heights
    have hlast : cs.getLast? = some (cs.getLast hne) := List.getLast?_eq_some_getLast hne
    have hpos' := List.length_pos_of_ne_nil hne
    have hread_last := hcs (cs.length - 1) (cs.getLast hne) (List.getLast?_eq_getElem? ▸ hlast)
    rw [show start + (cs.length - 1) = db.lib by omega] at hread_last
    obtain ⟨hlast_num, hlast_path⟩ := hpath _ _ hread_last
    obtain ⟨-, hmany⟩ := hkept.mp (Option.isSome_iff_exists.mpr ⟨_, hread_last⟩)
    have hsame : ∀ n, (dltOpened db).readDltBlockLog n = db.readDltBlockLog n := by
      intro n
      rcases checked_cases db with he | he
      · show (checked db).readDltBlockLog n = _
        rw [he]
        rfl
      · have hgone : (checked db).readDltBlockLog db.lib = some (cs.getLast hne) := hread_last
        rw [he] at hgone
        cases hgone
    constructor
    · intro h
      refine ⟨fun hs => hmany ⟨hs.1, hs.2.1⟩, ?_⟩
      intro n b hlo hhi hb m hnm hml
      obtain ⟨x, hx, -, rfl⟩ := h.linked n b hlo hhi hb
      obtain ⟨i, c, hci, rfl⟩ := ForkDatabase.mem_seeded.mp hx
      have hc_num : c.blockNum = start + i := (hpath _ _ (hcs i c hci)).1
      have hn : c.blockNum = n := (hc.logged n c hb).1
      have hm : m - start < cs.length := by omega
      have hread_m := hcs (m - start) _ (List.getElem?_eq_getElem hm)
      rw [show start + (m - start) = m by omega, hsame] at hread_m
      exact Option.isSome_iff_exists.mpr ⟨_, hread_m⟩
    · rintro ⟨-, hall⟩
      have hhead : (ForkDatabase.seeded cs).head = some _ := ForkDatabase.seeded_head hlast
      refine ⟨⟨hnum, hid⟩, ?_, ?_, ?_⟩
      · intro hempty
        rw [show ((dltOpened db).withFork (.seeded cs)).forkDb.head = _ from hhead] at hempty
        cases hempty
      · intro t ht
        obtain rfl := Option.some.inj (hhead.symm.trans ht)
        have hid_num : (dltOpened db).headBlockId.num = db.lib := by
          rw [hid]
          exact hc.headId
        exact path_top hU hlast_path (hlast_num.trans hid_num.symm)
      · intro n b hlo hhi hb
        have hn_pos := logged_pos hb
        have hn := hall n b hlo hhi hb n le_rfl hhi
        have hstart : start ≤ n := by
          apply hleast n
          · unfold seedStart
            by_cases hfar : 100 < db.lib
            · rw [if_pos hfar]
              omega
            · rw [if_neg hfar]
              exact hn_pos
          · rw [hsame]
            exact hn
        obtain ⟨c, hci, hwalk⟩ := ForkDatabase.walk_seeded (hcs.inOrder hpath) hlast hstart (by omega)
        refine ⟨_, ForkDatabase.mem_seeded.mpr ⟨_, c, hci, rfl⟩, hwalk, ?_⟩
        have hread_n := hcs _ c hci
        rw [show start + (n - start) = n by omega] at hread_n
        obtain ⟨hc_num, hc_path⟩ := hpath _ _ hread_n
        obtain ⟨hb_num, hb_path⟩ := hc.logged n b hb
        rw [hid] at hc_path
        exact path_unique hU hc_path hb_path (hc_num.trans hb_num.symm)

/-- **When a restart works.** A node that was closed is opened with its last irreversible block as the head, at the
    head of a fork database that links the last hundred blocks of the logs, exactly when it is `Restartable`. -/
theorem open_restarts_iff (hU : Universe U) (hc : Closed U db) :
    (∃ d, openDatabase db = .ok () d ∧ Restarted db d) ↔ Restartable db := by
  by_cases hzero : db.lib = 0
  · -- nothing was applied
    have hnone : ∀ n b, n ≤ db.lib → ¬ db.Logged n b := by
      intro n b hn hb
      have hpos := logged_pos hb
      omega
    constructor
    · intro _
      refine .inr ⟨?_, ?_, ?_⟩
      · cases hread : db.readBlockLog db.lib with
        | none => rfl
        | some b => exact absurd (.inl hread) (hnone db.lib b le_rfl)
      · rintro ⟨hlib, -⟩
        omega
      · intro n b _ hn hb
        exact absurd hb (hnone n b hn)
    · intro _
      refine ⟨reopened db, openDatabase_zero hc hzero, ?_⟩
      rw [restarted_of_empty hc.headNum rfl rfl]
      intro n b _ hn
      exact hnone n b hn
  · have hpos : 0 < db.lib := Nat.pos_of_ne_zero hzero
    unfold Restartable
    cases hread : db.readBlockLog db.lib with
    | some head =>
        rw [open_from_blockLog hU hc hread]
        simp
    | none =>
        rw [open_from_dltBlockLog hU hc hpos hread]
        simp

/-- **Above height 100 the node does not open**: the oldest of the hundred blocks has no parent in the fork database,
    and nothing catches the exception. -/
theorem open_throws (hU : Universe U) (hc : Closed U db) {head : SignedBlock Tx}
    (hread : db.readBlockLog db.lib = some head) (hfar : 100 < db.lib) :
    ∃ d, openDatabase db = .error .unlinkableBlock d := by
  obtain ⟨hnum, -⟩ := hc.logged _ _ (.inl hread)
  rw [openDatabase_eq hc (by omega), bind_run, seed_from_head hU hc hread]
  have hstart : seedStart db.lib = db.lib - 100 + 1 := if_pos hfar
  have hsteps : db.lib - seedStart db.lib = 98 + 1 := by omega
  -- the first of the blocks below the head
  have hlen : db.lib - 1 < db.blockLog.length := by
    unfold readBlockLog readLog at hread
    rw [if_pos ⟨Nat.one_pos, by omega⟩] at hread
    exact (List.getElem?_eq_some_iff.mp hread).1
  obtain ⟨b, hb⟩ : ∃ b, db.readBlockLog (seedStart db.lib) = some b := by
    unfold readBlockLog readLog
    rw [if_pos ⟨Nat.one_pos, by omega⟩]
    exact ⟨_, List.getElem?_eq_getElem (by omega)⟩
  obtain ⟨hb_num, hb_path⟩ := hc.logged _ _ (.inl hb)
  have hprev_num : b.previous.num + 1 = db.lib - 100 + 1 := by
    rw [← hU.num_eq hb_path.mem, hb_num, hstart]
  have hmem : ∀ y ∈ (ForkDatabase.seeded [head]).index, y.id.num = db.lib := by
    intro y hy
    obtain ⟨i, c, hci, rfl⟩ := ForkDatabase.mem_seeded.mp hy
    rw [List.mem_singleton.mp (List.mem_of_getElem? hci)]
    exact hnum
  obtain ⟨g, hthrow⟩ := ForkDatabase.pushBlock_orphan (f := ForkDatabase.seeded [head]) (b := b) rfl
    (ForkDatabase.find_eq_none (fun y hy he => by
      have hy_num := hmem y hy
      have hn : y.id.num = b.blockNum := congrArg BlockId.num he
      omega))
    rfl
    (by
      show ¬ b.blockNum ≤ head.blockNum - 2400
      omega)
    (by
      intro hzero
      have hn : b.previous.num = 0 := congrArg BlockId.num hzero
      omega)
    (ForkDatabase.find_eq_none (fun y hy he => by
      have hy_num := hmem y hy
      have hn : y.id.num = b.previous.num := congrArg BlockId.num he
      omega))
  have hread' : ((checked db).withFork (.seeded [head])).readBlockLog (seedStart db.lib) = some b := by
    show readLog (checked db).blockLog 1 _ = some b
    rw [(checked_core db).1]
    exact hb
  have hone : seedOne (seedStart db.lib) ((checked db).withFork (.seeded [head])) =
      .error .unlinkableBlock ((checked db).withFork g) := by
    have hpush : (onForkDb (ForkDatabase.pushBlock b) : DbM Tx L _) ((checked db).withFork (.seeded [head])) =
        .error .unlinkableBlock ((checked db).withFork g) := onForkDb_throw ((checked db).withFork (.seeded [head])) hthrow
    unfold seedOne
    simp only [get_bind_run, hread', Option.some_or]
    rw [bind_run, hpush]
  refine ⟨(checked db).withFork g, ?_⟩
  rw [hsteps]
  unfold seedBelow
  rw [bind_run, hone]

end Result

end Database

/-! ## Samples -/

namespace Sample

/-- The node with four validators, with a rolling log. -/
def rolling : Database Tx Unit :=
  { four with dltMode := true, dltBlockLogMaxBlocks := 100, blockLog := [], dltBlockLog := [block1] }

/-- A block of a log of two. -/
theorem readLog_pair {x y b : SignedBlock Tx} {n : Nat} (h : Database.readLog [x, y] 1 n = some b) :
    n = 1 ∧ b = x ∨ n = 2 ∧ b = y := by
  unfold Database.readLog at h
  by_cases hn : 0 < 1 ∧ 1 ≤ n
  · rw [if_pos hn] at h
    obtain ⟨hlt, hb⟩ := List.getElem?_eq_some_iff.mp h
    rw [List.length_cons, List.length_singleton] at hlt
    obtain rfl | rfl : n = 1 ∨ n = 2 := by omega
    · exact .inl ⟨rfl, hb.symm⟩
    · exact .inr ⟨rfl, hb.symm⟩
  · rw [if_neg hn] at h
    cases h

end Sample

namespace Database

open Sample Prog

/-- The rolling node after two blocks have become irreversible. -/
theorem rolling_closed : Closed (· ∈ [block1, b2, b3]) (run env rolling confirmB2) := by
  refine ⟨by decide +kernel, by decide +kernel, by decide +kernel, ?_⟩
  have hlogs : (run env rolling confirmB2).blockLog = [] ∧
      (run env rolling confirmB2).dltBlockLog = [block1, b2] := by decide +kernel
  have hpath : ∀ b ∈ [block1, b2], b ∈ pathIn [block1, b2, b3] 3
      (run env rolling confirmB2).chainbase.undoAll.state.headBlockId := by decide +kernel
  intro n b hb
  unfold Logged readBlockLog readDltBlockLog at hb
  rw [hlogs.1, hlogs.2] at hb
  rcases hb with hb | hb
  · unfold readLog at hb
    simp at hb
  · obtain ⟨rfl, rfl⟩ | ⟨rfl, rfl⟩ := readLog_pair hb
    · exact ⟨rfl, path_of_mem_pathIn (hpath _ (by simp))⟩
    · exact ⟨rfl, path_of_mem_pathIn (hpath _ (by simp))⟩

/-- A node with a rolling log of two blocks restarts. -/
theorem open_restarts_sample : ∃ d, openDatabase (run env rolling confirmB2) = .ok () d ∧
    Restarted (run env rolling confirmB2) d := by
  have hU : Universe (· ∈ [block1, b2, b3]) := Universe.of_list (by decide +kernel) (by decide +kernel)
  apply (open_restarts_iff hU rolling_closed).mpr
  have hlib : (run env rolling confirmB2).lib = 2 := by decide +kernel
  refine .inr ⟨by decide +kernel, by decide +kernel, ?_⟩
  rw [hlib]
  intro n b _ _ hb m hnm hm
  have hpos := logged_pos hb
  have hread : (readDltBlockLog (run env rolling confirmB2) 1).isSome ∧
      (readDltBlockLog (run env rolling confirmB2) 2).isSome := by decide +kernel
  exact readDlt_between hread.1 hread.2 (by omega) hm

/-- **A restart loses the links**: the node with `block_log` opens at block 2, which has no parent in its fork
    database, although the parent is stored and linked. -/
theorem head_without_parent :
    ∃ d, openDatabase (run env four confirmB2) = .ok () d ∧ (run env four confirmB2).lib = 2 ∧
      d.headBlockId = b2.id ∧ (run env four confirmB2).readBlockLog 1 = some block1 ∧
      block1.id ∈ d.forkDb.index.map ForkItem.id ∧ d.forkDb.walkMainBranchToNum 1 = none ∧
      ¬ Restarted (run env four confirmB2) d := by
  have hreturned : returned openDatabase (run env four confirmB2) = some () := by decide +kernel
  obtain ⟨d, hd⟩ : ∃ d, openDatabase (run env four confirmB2) = .ok () d := ⟨_, eq_ok_of_returned hreturned⟩
  have hafter : after openDatabase (run env four confirmB2) = d := after_ok hd
  have hwalk : d.forkDb.walkMainBranchToNum 1 = none := by
    rw [← hafter]
    decide +kernel
  refine ⟨d, hd, by decide +kernel, ?_, by decide +kernel, ?_, hwalk, ?_⟩
  · rw [← hafter]
    decide +kernel
  · rw [← hafter]
    decide +kernel
  · intro h
    have hlogged : (run env four confirmB2).Logged 1 block1 := .inl (by decide +kernel)
    obtain ⟨x, -, hx, -⟩ := h.linked 1 block1 (by decide +kernel) (by decide +kernel) hlogged
    rw [hwalk] at hx
    cases hx

end Database

end VizNode
