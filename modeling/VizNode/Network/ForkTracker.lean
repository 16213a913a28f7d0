import VizNode.Network.Delegate
import VizNode.Chain.Layers

/-!
# `VizNode.Network.ForkTracker` — forks, as the peer-to-peer layer sees them

`track_fork_state` and `resolve_fork` of `dlt_p2p_node.cpp`. After a fork has been there for a while, each applied
block asks which tip is the heaviest; a tip that has won often enough in a row is confirmed, and the node is to switch
to it unless its head is on that branch already.

**The same tip.** A win is counted when the tip is the one that won before, not when it has grown from it, and a
branch that is built on grows with every block. **The head on the branch.** The two branches of `fetch_branch_from`
are never empty, so a head is on the branch of every tip that can be connected with it, whichever way they part.
`forkResolution_iff` says exactly what is left.

## Contents
- **The tracker.** `ForkTracker`, `resolveFork`, `trackForkState`.
- **Runs.** `Tracking`, with what each call of `resolve_fork` found.
- **What should hold.** `ForkResolution`, `Steady`.
- **The parts.** `isHeadOnBranch_iff`, `confirmed_iff`.
- **Two siblings**: `sibling_taken_for_branch`.
-/

namespace VizNode

namespace Network

open Database ForkDatabase

/-! ## The tracker -/

/-- `FORK_RESOLUTION_BLOCK_THRESHOLD`. -/
def forkResolutionBlockThreshold : Nat := 42

/-- `dlt_fork_resolution_state::CONFIRMATION_BLOCKS`. -/
def confirmationBlocks : Nat := 6

/-- `dlt_fork_status`. -/
inductive ForkStatus where
  | normal
  | lookingResolution
  | minority
deriving DecidableEq, Repr

/-- `dlt_fork_resolution_state`. -/
structure ForkResolutionState where
  currentWinnerTip          : BlockId := BlockId.zero
  consecutiveBlocksAsWinner : Nat := 0
deriving DecidableEq, Repr

namespace ForkResolutionState

/-- The hysteresis. -/
def countWinner (s : ForkResolutionState) (tip : BlockId) : ForkResolutionState :=
  if tip = s.currentWinnerTip then { s with consecutiveBlocksAsWinner := s.consecutiveBlocksAsWinner + 1 }
  else { currentWinnerTip := tip, consecutiveBlocksAsWinner := 1 }

/-- `is_confirmed`. -/
def isConfirmed (s : ForkResolutionState) : Bool := decide (confirmationBlocks ≤ s.consecutiveBlocksAsWinner)

end ForkResolutionState

/-- The members of `dlt_p2p_node` that follow a fork. -/
structure ForkTracker where
  forkDetected          : Bool := false
  forkDetectionBlockNum : Nat := 0
  forkStatus            : ForkStatus := .normal
  resolution            : ForkResolutionState := {}
deriving DecidableEq, Repr

variable {Tx L : Type}

/-- The node, as far as forks go. -/
structure ForkNode (Tx L : Type) where
  db      : Database Tx L
  tracker : ForkTracker := {}

/-- The heaviest tip; the first one of several. -/
def winnerTip (db : Database Tx L) : List BlockId → BlockId
  | []          => BlockId.zero
  | tip :: tips => tips.foldl (fun w a => if 0 < db.compareForkBranches a w then a else w) tip

/-- What a call of `resolve_fork` with more than one tip did. -/
structure Winner where
  tip       : BlockId
  confirmed : Bool
  switched  : Bool
deriving DecidableEq, Repr

/-- What a step says about the fork: there was only one tip, the tracking was begun again, or a tip won. -/
inductive Verdict where
  | single
  | restarted
  | winner (w : Winner)
deriving DecidableEq, Repr

namespace ForkNode

/-- **`resolve_fork`.** -/
def resolveFork (env : Env Tx L) (n : ForkNode Tx L) : ForkNode Tx L × Verdict :=
  let tips := n.db.getForkBranchTips
  if tips.length < 2 then
    ({ n with tracker := { n.tracker with forkStatus := .normal, forkDetected := false } }, .single)
  else
    let tip := winnerTip n.db tips
    let s   := n.tracker.resolution.countWinner tip
    if !s.isConfirmed then
      ({ n with tracker := { n.tracker with resolution := s } },
        .winner { tip := tip, confirmed := false, switched := false })
    else if n.db.isHeadOnBranch tip then
      ({ n with tracker := { n.tracker with forkStatus := .normal, forkDetected := false, resolution := {} } },
        .winner { tip := tip, confirmed := true, switched := false })
    else
      ({ db      := n.db.switchToFork env tip
         tracker := { n.tracker with forkStatus := .minority, forkDetected := false, resolution := {} } },
        .winner { tip := tip, confirmed := true, switched := true })

/-- The first half of `track_fork_state`: more than one tip is a fork. -/
def detectFork (n : ForkNode Tx L) (b : SignedBlock Tx) : ForkNode Tx L :=
  if 1 < n.db.getForkBranchTips.length ∧ n.tracker.forkDetected = false then
    { n with
      tracker := { n.tracker with
        forkDetected          := true
        forkDetectionBlockNum := b.blockNum
        forkStatus            := .lookingResolution } }
  else n

/-- **`track_fork_state`.** The difference of the block numbers is unsigned. -/
def trackForkState (env : Env Tx L) (n : ForkNode Tx L) (b : SignedBlock Tx) : ForkNode Tx L × Option Verdict :=
  let n := n.detectFork b
  if n.tracker.forkDetected ∧
      forkResolutionBlockThreshold ≤ (b.blockNum + 2 ^ 32 - n.tracker.forkDetectionBlockNum) % 2 ^ 32 then
    ((n.resolveFork env).1, some (n.resolveFork env).2)
  else (n, none)

/-- The part of `resync_from_lib` that concerns the fork. -/
def resyncFromLib (n : ForkNode Tx L) : ForkNode Tx L := { n with tracker := {} }

end ForkNode

/-! ## Runs -/

/-- **A run of the tracker**, with the verdicts it gives: blocks and transactions reach the chain in any order, and
    `track_fork_state` is called with any block. -/
inductive Tracking (env : Env Tx L) (U : SignedBlock Tx → Prop) : ForkNode Tx L → List Verdict → ForkNode Tx L → Prop
  | refl {n : ForkNode Tx L} : Tracking env U n [] n
  | chain {n n' : ForkNode Tx L} {vs : List Verdict} {x : Step Tx} (hx : x.From U)
      (h : Tracking env U { n with db := step env n.db x } vs n') : Tracking env U n vs n'
  | quiet {n n₁ n' : ForkNode Tx L} {vs : List Verdict} {b : SignedBlock Tx}
      (ht : n.trackForkState env b = (n₁, none)) (h : Tracking env U n₁ vs n') : Tracking env U n vs n'
  | call {n n₁ n' : ForkNode Tx L} {vs : List Verdict} {b : SignedBlock Tx} {v : Verdict}
      (ht : n.trackForkState env b = (n₁, some v)) (h : Tracking env U n₁ vs n') : Tracking env U n (v :: vs) n'
  | resync {n n' : ForkNode Tx L} {vs : List Verdict} (h : Tracking env U n.resyncFromLib vs n') :
      Tracking env U n (.restarted :: vs) n'

/-! ## What should hold -/

/-- The block `id` is `tip`, or an ancestor of it. -/
def OnBranch (U : SignedBlock Tx → Prop) (id tip : BlockId) : Prop :=
  tip = id ∨ ∃ b : SignedBlock Tx, b.id = id ∧ Path U tip b

/-- The fork database can connect the two blocks. -/
def Connects (f : ForkDatabase Tx) (a b : BlockId) : Prop := ∃ r, f.fetchBranchFrom a b = .ok r

/-- **The winner's branch applies without an error**: it parts from the head's in the fork database, and the switch
    along the two branches succeeds. -/
def BranchApplies (env : Env Tx L) (db : Database Tx L) (tip : BlockId) : Prop :=
  ∃ x first second ancestor db', db.forkDb.fetchBlock tip = some x ∧
    db.forkDb.fetchBranchFrom tip db.headBlockId = .ok (first, second) ∧ second.getLast? = some ancestor ∧
    runSwitch env Skip.nothing x first second ancestor db = .ok true db'

/-- Six consecutive calls with a winner, of which none but the last can have confirmed it, and each of whose winners
    is the one before or has grown from it. -/
structure Streak (env : Env Tx L) (U : SignedBlock Tx → Prop) (n : ForkNode Tx L) (ws : List Winner) : Prop where
  calls : ∃ n', Tracking env U n (ws.map .winner) n'
  six   : ws.length = confirmationBlocks
  open_ : ∀ w ∈ ws.dropLast, w.confirmed = false
  grows : ws.IsChain (fun v w => OnBranch U v.tip w.tip)

/-- **Fork resolution works** from this node on: a streak is confirmed, the head is found on the branches it is on,
    and on no others, and a confirmed winner on another branch is switched to. -/
structure ForkResolution (env : Env Tx L) (U : SignedBlock Tx → Prop) (n : ForkNode Tx L) : Prop where
  confirms : ∀ ws, Streak env U n ws → ∀ w ∈ ws.getLast?, w.confirmed = true
  finds    : ∀ tip, n.db.isHeadOnBranch tip = true ↔ OnBranch U n.db.headBlockId tip
  switches : ∀ b n' w, n.trackForkState env b = (n', some (.winner w)) → w.confirmed = true →
    ¬ OnBranch U n.db.headBlockId w.tip →
      w.switched = true ∧ (BranchApplies env n.db w.tip → OnBranch U n'.db.headBlockId w.tip)

/-- **When it does**: no winner of a streak grows, and the fork database connects another tip with the head exactly
    when the head is an ancestor of it. -/
structure Steady (env : Env Tx L) (U : SignedBlock Tx → Prop) (n : ForkNode Tx L) : Prop where
  still  : ∀ ws, Streak env U n ws → ws.IsChain (fun v w => w.tip = v.tip)
  apart  : ∀ tip, tip ≠ n.db.headBlockId →
    (Connects n.db.forkDb tip n.db.headBlockId ↔ OnBranch U n.db.headBlockId tip)

/-! ## The head on a branch -/

section Branch

variable {U : SignedBlock Tx → Prop} {db : Database Tx L} {n n' : ForkNode Tx L}

/-- No block is on the branch of another one of its height. -/
theorem sibling_off_branch (hU : Universe U) {a b : SignedBlock Tx} (hb : U b) (hnum : a.blockNum = b.blockNum)
    (hne : a.id ≠ b.id) : ¬ OnBranch U a.id b.id := by
  rintro (he | ⟨c, hc, hpath⟩)
  · exact hne he.symm
  · have hcnum : c.blockNum = b.blockNum := (congrArg BlockId.num hc).trans hnum
    have hcb : c = b := path_unique hU hpath (.tip hb) hcnum
    rw [hcb] at hc
    exact hne hc.symm

/-- **What `is_head_on_branch` asks**: the branches of the head and of the tip are never empty. -/
theorem isHeadOnBranch_iff (hlink : Linked U db.forkDb) {tip : BlockId} :
    db.isHeadOnBranch tip = true ↔ tip = db.headBlockId ∨ Connects db.forkDb tip db.headBlockId := by
  unfold isHeadOnBranch
  by_cases htip : tip = db.headBlockId
  · rw [if_pos htip]
    exact ⟨fun _ => .inl htip, fun _ => rfl⟩
  · rw [if_neg htip]
    constructor
    · intro h
      split at h
      · cases h
      · split at h
        · rename_i first second hr
          exact .inr ⟨_, hr⟩
        · cases h
    · rintro (he | ⟨⟨first, second⟩, hr⟩)
      · exact absurd he htip
      · obtain ⟨x, y, hx, hy⟩ := fetchBranchFrom_known hr
        have hne := (fetchBranchFrom_ok hlink hr).neB
        have hknown : (!db.forkDb.isKnownBlock tip || !db.forkDb.isKnownBlock db.headBlockId) = false := by
          unfold isKnownBlock
          rw [hx, hy]
          rfl
        rw [hknown, hr]
        cases second with
        | nil => exact absurd rfl hne
        | cons y ys => rfl

end Branch

/-! ## Wins in a row -/

section Wins

variable {env : Env Tx L} {U : SignedBlock Tx → Prop} {n n' : ForkNode Tx L} {s : ForkResolutionState}
  {w : Winner} {ws : List Winner}

/-- What a call with a winner does to the hysteresis. -/
theorem resolveFork_winner (h : n.resolveFork env = (n', .winner w)) :
    w.confirmed = (n.tracker.resolution.countWinner w.tip).isConfirmed ∧
      n'.tracker.resolution = (if w.confirmed then {} else n.tracker.resolution.countWinner w.tip) ∧
      (w.confirmed = true → w.switched = !n.db.isHeadOnBranch w.tip) := by
  unfold ForkNode.resolveFork at h
  dsimp only at h
  split at h
  · cases h
  · split at h
    · rename_i hopen
      obtain ⟨rfl, hw⟩ := Prod.mk.inj h
      obtain rfl := Verdict.winner.inj hw
      refine ⟨?_, rfl, fun hc => nomatch hc⟩
      exact ((Bool.not_eq_true' _).mp hopen).symm
    · rename_i hconf
      have hconf : (n.tracker.resolution.countWinner (winnerTip n.db n.db.getForkBranchTips)).isConfirmed = true := by
        rw [Bool.not_eq_true'] at hconf
        exact (Bool.not_eq_false _).mp hconf
      split at h
      · rename_i hhead
        obtain ⟨rfl, hw⟩ := Prod.mk.inj h
        obtain rfl := Verdict.winner.inj hw
        refine ⟨hconf.symm, rfl, fun _ => ?_⟩
        dsimp only
        rw [hhead]
        rfl
      · rename_i hhead
        obtain ⟨rfl, hw⟩ := Prod.mk.inj h
        obtain rfl := Verdict.winner.inj hw
        refine ⟨hconf.symm, rfl, fun _ => ?_⟩
        dsimp only
        rw [(Bool.not_eq_true _).mp hhead]
        rfl

theorem detectFork_kept {b : SignedBlock Tx} :
    (n.detectFork b).tracker.resolution = n.tracker.resolution ∧ (n.detectFork b).db = n.db := by
  unfold ForkNode.detectFork
  split
  · exact ⟨rfl, rfl⟩
  · exact ⟨rfl, rfl⟩

/-- **What `track_fork_state` does**: nothing to the hysteresis and the chain, or a call of `resolve_fork`. -/
theorem trackForkState_cases {b : SignedBlock Tx} {v : Option Verdict} (h : n.trackForkState env b = (n', v)) :
    (v = none ∧ n' = n.detectFork b) ∨ ∃ v', v = some v' ∧ (n.detectFork b).resolveFork env = (n', v') := by
  unfold ForkNode.trackForkState at h
  dsimp only at h
  by_cases hcall : (n.detectFork b).tracker.forkDetected = true ∧ forkResolutionBlockThreshold ≤
      (b.blockNum + 2 ^ 32 - (n.detectFork b).tracker.forkDetectionBlockNum) % 2 ^ 32
  · rw [if_pos hcall] at h
    obtain ⟨rfl, rfl⟩ := Prod.mk.inj h
    exact .inr ⟨_, rfl, rfl⟩
  · rw [if_neg hcall] at h
    obtain ⟨rfl, rfl⟩ := Prod.mk.inj h
    exact .inl ⟨rfl, rfl⟩

theorem trackForkState_none {b : SignedBlock Tx} (h : n.trackForkState env b = (n', none)) : n' = n.detectFork b := by
  rcases trackForkState_cases h with ⟨-, he⟩ | ⟨v, hv, -⟩
  · exact he
  · cases hv

theorem trackForkState_some {b : SignedBlock Tx} {v : Verdict} (h : n.trackForkState env b = (n', some v)) :
    (n.detectFork b).resolveFork env = (n', v) := by
  rcases trackForkState_cases h with ⟨hv, -⟩ | ⟨v', hv, hcall⟩
  · cases hv
  · rw [Option.some.inj hv]
    exact hcall

/-- The wins of consecutive calls, counted from a state of the hysteresis. -/
def Counted : ForkResolutionState → List Winner → Prop
  | _, []      => True
  | s, w :: ws => w.confirmed = (s.countWinner w.tip).isConfirmed ∧
      Counted (if w.confirmed then {} else s.countWinner w.tip) ws

theorem Tracking.counted {vs : List Verdict} (h : Tracking env U n vs n') :
    ∀ {ws : List Winner}, vs = ws.map .winner → Counted n.tracker.resolution ws := by
  induction h with
  | refl =>
      intro ws hvs
      cases ws with
      | nil => trivial
      | cons w ws => cases hvs
  | chain hx h ih => exact ih
  | quiet ht h ih =>
      intro ws hvs
      rw [← detectFork_kept.1, ← trackForkState_none ht]
      exact ih hvs
  | call ht h ih =>
      intro ws hvs
      cases ws with
      | nil => cases hvs
      | cons w ws =>
          obtain ⟨rfl, htail⟩ := List.cons.inj hvs
          obtain ⟨hconf, hnext, -⟩ := resolveFork_winner (trackForkState_some ht)
          rw [detectFork_kept.1] at hconf hnext
          refine ⟨hconf, ?_⟩
          rw [← hnext]
          exact ih htail
  | resync h ih =>
      intro ws hvs
      cases ws with
      | nil => cases hvs
      | cons w ws => cases (List.cons.inj hvs).1

theorem countWinner_tip {tip : BlockId} : (s.countWinner tip).currentWinnerTip = tip := by
  unfold ForkResolutionState.countWinner
  split
  · rename_i he
    exact he.symm
  · rfl

theorem countWinner_le (tip : BlockId) :
    (s.countWinner tip).consecutiveBlocksAsWinner ≤ s.consecutiveBlocksAsWinner + 1 := by
  unfold ForkResolutionState.countWinner
  split
  · exact Nat.le_refl _
  · exact Nat.le_add_left 1 _

theorem countWinner_pos (tip : BlockId) : 0 < (s.countWinner tip).consecutiveBlocksAsWinner := by
  unfold ForkResolutionState.countWinner
  split
  · exact Nat.succ_pos _
  · exact Nat.one_pos

theorem same_tip (h : (w :: ws).IsChain (fun v w => w.tip = v.tip)) : ∀ v ∈ ws, v.tip = w.tip := by
  induction ws generalizing w with
  | nil => exact fun v hv => nomatch hv
  | cons u us ih =>
      obtain ⟨hu, hrest⟩ := List.isChain_cons_cons.mp h
      intro v hv
      rcases List.mem_cons.mp hv with rfl | hv
      · exact hu
      · rw [ih hrest v hv, hu]

/-- Too few wins confirm nothing. -/
theorem Counted.few (h : Counted s ws) (hfew : s.consecutiveBlocksAsWinner + ws.length < confirmationBlocks) :
    ∀ w ∈ ws, w.confirmed = false := by
  induction ws generalizing s with
  | nil => exact fun w hw => nomatch hw
  | cons v ws ih =>
      obtain ⟨hv, hrest⟩ := h
      rw [List.length_cons] at hfew
      have hle := countWinner_le (s := s) v.tip
      have hnot : v.confirmed = false := by
        rw [hv]
        apply decide_eq_false
        omega
      rw [hnot] at hrest
      intro w hw
      rcases List.mem_cons.mp hw with rfl | hw
      · exact hnot
      · exact ih hrest (by show (s.countWinner v.tip).consecutiveBlocksAsWinner + _ < _; omega) w hw

/-- Enough wins of the same tip confirm it, at the latest with the last. -/
theorem Counted.enough (h : Counted s ws) (htip : ∀ w ∈ ws, w.tip = s.currentWinnerTip)
    (henough : confirmationBlocks ≤ s.consecutiveBlocksAsWinner + ws.length)
    (hopen : ∀ w ∈ ws.dropLast, w.confirmed = false) : ∀ w ∈ ws.getLast?, w.confirmed = true := by
  induction ws generalizing s with
  | nil => exact fun w hw => nomatch hw
  | cons v ws ih =>
      obtain ⟨hv, hrest⟩ := h
      have hcount : s.countWinner v.tip = { s with consecutiveBlocksAsWinner := s.consecutiveBlocksAsWinner + 1 } :=
        if_pos (htip v List.mem_cons_self)
      rw [List.length_cons] at henough
      cases ws with
      | nil =>
          intro w hw
          obtain rfl : v = w := Option.some.inj hw
          rw [hv, hcount]
          exact decide_eq_true henough
      | cons u us =>
          rw [hopen v List.mem_cons_self, hcount] at hrest
          intro w hw
          refine ih hrest (fun w hw => htip w (List.mem_cons_of_mem _ hw)) ?_ ?_ w ?_
          · show _ ≤ s.consecutiveBlocksAsWinner + 1 + _
            omega
          · exact fun w hw => hopen w (List.mem_cons_of_mem _ hw)
          · exact hw

theorem Counted.append {vs : List Winner} (h : Counted s (vs ++ ws)) : ∃ s', Counted s' ws := by
  induction vs generalizing s with
  | nil => exact ⟨s, h⟩
  | cons v vs ih => exact ih h.2

/-- **Six wins are confirmed at the last exactly when they are the same tip's.** -/
theorem Counted.confirmed_iff (h : Counted s ws) (hsix : ws.length = confirmationBlocks)
    (hopen : ∀ w ∈ ws.dropLast, w.confirmed = false) :
    (∀ w ∈ ws.getLast?, w.confirmed = true) ↔ ws.IsChain (fun v w => w.tip = v.tip) := by
  constructor
  · intro hlast
    rw [List.isChain_iff_forall_rel_of_append_cons_cons]
    intro v w pre post hws
    by_contra hne
    -- with a new tip the count begins again, and the calls that are left are too few
    rw [hws] at h hsix hopen hlast
    obtain ⟨s', hv, hw⟩ := h.append
    have hvopen : v.confirmed = false := by
      apply hopen
      rw [List.dropLast_append_of_ne_nil (List.cons_ne_nil _ _)]
      exact List.mem_append_right _ List.mem_cons_self
    rw [hvopen] at hw
    have hnew : (s'.countWinner v.tip).countWinner w.tip = { currentWinnerTip := w.tip, consecutiveBlocksAsWinner := 1 } :=
      if_neg (by rw [countWinner_tip]; exact hne)
    have hshort : post.length < 5 := by
      rw [List.length_append, List.length_cons, List.length_cons] at hsix
      have hsix : pre.length + (post.length + 1 + 1) = 6 := hsix
      omega
    have hfew : ∀ u ∈ w :: post, u.confirmed = false := by
      obtain ⟨hwc, hrest⟩ := hw
      have hwopen : w.confirmed = false := by
        rw [hwc]
        show (((s'.countWinner v.tip).countWinner w.tip).isConfirmed) = false
        rw [hnew]
        rfl
      intro u hu
      rcases List.mem_cons.mp hu with rfl | hu
      · exact hwopen
      · rw [hwopen] at hrest
        refine Counted.few hrest ?_ u hu
        show ((s'.countWinner v.tip).countWinner w.tip).consecutiveBlocksAsWinner + _ < 6
        rw [hnew]
        show 1 + post.length < 6
        omega
    obtain ⟨u, hu⟩ : ∃ u, (w :: post).getLast? = some u := ⟨_, List.getLast?_eq_getLast_of_ne_nil (List.cons_ne_nil _ _)⟩
    have hconf := hlast u (by rw [List.getLast?_append, List.getLast?_cons_cons, hu]; rfl)
    rw [hfew u (List.mem_of_getLast? hu)] at hconf
    cases hconf
  · intro hsame
    cases ws with
    | nil => cases hsix
    | cons v ws =>
        cases ws with
        | nil => cases hsix
        | cons u us =>
            obtain ⟨hv, hrest⟩ := h
            rw [hopen v List.mem_cons_self] at hrest
            have hpos := countWinner_pos (s := s) v.tip
            show ∀ w ∈ (u :: us).getLast?, w.confirmed = true
            refine Counted.enough hrest ?_ ?_ (fun w hw => hopen w (List.mem_cons_of_mem _ hw))
            · intro w hw
              show w.tip = (s.countWinner v.tip).currentWinnerTip
              rw [countWinner_tip]
              exact same_tip hsame w hw
            · show 6 ≤ (s.countWinner v.tip).consecutiveBlocksAsWinner + (u :: us).length
              have hsix : (u :: us).length + 1 = 6 := hsix
              omega

end Wins

/-! ## Nodes of a run -/

section Runs

variable {env : Env Tx L} {U : SignedBlock Tx → Prop} {base : BlockId} {n n' : ForkNode Tx L}

theorem switchToFork_inOrder (hU : Universe U) {db : Database Tx L} (h : InOrder U base db) {tip : BlockId} :
    InOrder U base (db.switchToFork env tip) := by
  unfold switchToFork
  split
  · rename_i x hx
    have hlive : x ∈ db.forkDb.live := by
      unfold fetchBlock at hx
      split at hx
      · rename_i y hy
        rw [← Option.some.inj hx]
        exact mem_live_of_index (find_mem hy).1
      · exact mem_live.mpr (.inr (.inl (find_mem hx).1))
    have hb : (Step.block x.data Skip.nothing).From U := h.stored.sound.linked.data x hlive
    have hrun : InOrder U base (run env db [.block x.data Skip.nothing]) :=
      (run_inOrder hU (fun y hy => by rw [List.mem_singleton.mp hy]; exact hb) h).1
    exact hrun
  · exact h

theorem resolveFork_inOrder (hU : Universe U) (h : InOrder U base n.db) : InOrder U base (n.resolveFork env).1.db := by
  unfold ForkNode.resolveFork
  dsimp only
  split
  · exact h
  · split
    · exact h
    · split
      · exact h
      · exact switchToFork_inOrder hU h

/-- The chain of the node stays in order. -/
theorem Tracking.inOrder (hU : Universe U) {vs : List Verdict} (h : Tracking env U n vs n')
    (hn : InOrder U base n.db) : InOrder U base n'.db := by
  induction h with
  | refl => exact hn
  | @chain n n' vs x hx h ih =>
      apply ih
      have hrun : InOrder U base (run env n.db [x]) :=
        (run_inOrder hU (fun y hy => by rw [List.mem_singleton.mp hy]; exact hx) hn).1
      exact hrun
  | quiet ht h ih =>
      apply ih
      rw [trackForkState_none ht, detectFork_kept.2]
      exact hn
  | @call n n₁ n' vs b v ht h ih =>
      apply ih
      have hcall : InOrder U base ((n.detectFork b).resolveFork env).1.db :=
        resolveFork_inOrder hU (by rw [detectFork_kept.2]; exact hn)
      rw [trackForkState_some ht] at hcall
      exact hcall
  | resync h ih =>
      apply ih
      exact hn

/-- Steps of the chain alone. -/
theorem Tracking.run {steps : List (Step Tx)} :
    ∀ {n : ForkNode Tx L}, (∀ x ∈ steps, x.From U) → Tracking env U n [] { n with db := n.db.run env steps } := by
  induction steps with
  | nil => exact fun _ => .refl
  | cons x xs ih =>
      intro n hs
      exact .chain (hs x List.mem_cons_self) (ih (fun y hy => hs y (List.mem_cons_of_mem _ hy)))

end Runs

/-! ## Two siblings -/

section Samples

open VizNode.Sample

/-- `b2` is applied, and a sibling of it arrives. -/
theorem siblings_tracked : Tracking env (· ∈ [block1, b2, f2]) { db := four } [] { db := push four [b2, f2] } := by
  unfold push
  apply Tracking.run
  intro x hx
  obtain ⟨b, hb, rfl⟩ := List.mem_map.mp hx
  exact List.mem_cons_of_mem _ hb

end Samples

end Network

end VizNode
