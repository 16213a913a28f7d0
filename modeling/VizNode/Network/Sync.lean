import VizNode.Protocol
import VizNode.Lib.Table

/-!
# `VizNode.Network.Sync` — which blocks a syncing node asks for

`request_blocks_from_peer` asks a peer that is ahead for at most 200 blocks. The range begins at the head, or at the
last irreversible block when the peer is far ahead, or at the first block the peer has; when the peer's blocks begin
too late another peer is asked instead, by a recursive call.

**The recursion is bounded.** The start of a range is the head or the last irreversible block, and a bridge is only
chosen when its blocks begin at or below the start. So after the last irreversible block no further bridge is needed:
three calls are enough (`requestBlocks_returns`).

**Where the range is useless.** Its length is counted from the start. When the last irreversible block is 199 or more
blocks behind the head, a range that begins there ends at or below the head, and its reply has only known blocks.
`requestBlocks_useful_iff` says exactly when the range is useful.
-/

namespace VizNode

namespace Network

/-- `peer_id`; `INVALID_PEER_ID` and `peer_id()` are `0`. -/
abbrev PeerId := Nat

/-- `dlt_peer_lifecycle_state`. -/
inductive Lifecycle where
  | connecting | handshaking | syncing | active | disconnected | banned
deriving DecidableEq, Repr

/-- `dlt_node_status`. -/
inductive NodeStatus where
  | sync | forward
deriving DecidableEq, Repr

/-- `FORWARD_FALLBEHIND_THRESHOLD`. -/
def forwardFallbehindThreshold : Nat := 2

/-- The part of `dlt_peer_state` that syncing reads and writes. -/
structure SyncState where
  lifecycle         : Lifecycle := .disconnected
  peerHeadId        : BlockId := .zero
  peerHeadNum       : Nat := 0
  peerDltEarliest   : Nat := 0
  peerDltLatest     : Nat := 0
  exchangeEnabled   : Bool := false
  forkAlignment     : Bool := false
  expectedNextBlock : Nat := 0
  pendingSyncStart  : Nat := 0
  pendingSyncEnd    : Nat := 0
deriving DecidableEq, Repr

/-- The messages the functions below send. -/
inductive SyncMessage where
  | getBlockRange (startBlockNum endBlockNum : Nat) (prevBlockId : BlockId)
  | forkStatus (headBlockId : BlockId) (headBlockNum : Nat) (status : NodeStatus)
deriving DecidableEq, Repr

/-- **The node**, with what it asks its delegate. The table keeps the order of `std::map`. -/
structure SyncNode where
  peerStates        : Table PeerId SyncState
  nodeStatus        : NodeStatus
  catchupAfterPause : Bool
  headBlockNum      : Nat
  headBlockId       : BlockId
  libBlockNum       : Nat
  isBlockKnown      : BlockId → Bool
  /-- What was sent, oldest first. -/
  sent              : List (PeerId × SyncMessage)

namespace SyncState

/-- The freshest view of the peer's highest block. -/
def latest (s : SyncState) : Nat := max s.peerDltLatest s.peerHeadNum

/-- Is the peer `ACTIVE` or `SYNCING`? -/
def connected (s : SyncState) : Bool := decide (s.lifecycle = .active) || decide (s.lifecycle = .syncing)

end SyncState

namespace SyncNode

/-! ## The model -/

def send (peer : PeerId) (msg : SyncMessage) (n : SyncNode) : SyncNode := { n with sent := n.sent ++ [(peer, msg)] }

/-- What `transition_to_forward` does to a peer: it is no longer syncing, and it exchanges blocks if its head is
    known by now. -/
def forwardPeer (n : SyncNode) (s : SyncState) : SyncState :=
  let s := if s.lifecycle = .syncing then { s with lifecycle := .active } else s
  if !s.exchangeEnabled && decide (s.lifecycle = .active) && decide (0 < s.peerHeadNum) &&
      n.isBlockKnown s.peerHeadId then
    { s with exchangeEnabled := true, forkAlignment := true }
  else s

/-- **`transition_to_forward`**: all connected peers are told. -/
def transitionToForward (n : SyncNode) : SyncNode :=
  let n := { n with catchupAfterPause := false }
  if n.nodeStatus = .forward then n
  else
    let n := { n with nodeStatus := .forward, peerStates := n.peerStates.mapRows n.forwardPeer }
    (n.peerStates.keys.filter (fun p => (n.peerStates.row p).connected)).foldl
      (fun n p => n.send p (.forkStatus n.headBlockId n.headBlockNum .forward)) n

/-- Has every connected peer been caught up with? -/
def allCaughtUp (n : SyncNode) : Bool :=
  n.peerStates.keys.all fun p =>
    !((n.peerStates.row p).connected && decide (n.headBlockNum < (n.peerStates.row p).latest))

/-- Where the range begins, before the peer's own range is looked at: at the head, or at the last irreversible block
    when the peer is far ahead. -/
def wantedStart (n : SyncNode) (s : SyncState) : Nat :=
  if forwardFallbehindThreshold < s.latest - n.headBlockNum ∧ 0 < n.libBlockNum ∧ n.libBlockNum < n.headBlockNum then
    n.libBlockNum
  else n.headBlockNum

/-- Can this peer serve from `start` on? -/
def canBridge (n : SyncNode) (peer : PeerId) (start : Nat) (q : PeerId) : Bool :=
  let s := n.peerStates.row q
  decide (q ≠ peer) && s.connected && decide (0 < s.peerDltEarliest) && decide (s.peerDltEarliest ≤ start) &&
    decide (n.headBlockNum < s.latest)

/-- The first peer that can bridge the gap; the id `0` counts as none. -/
def bridgingPeer (n : SyncNode) (peer : PeerId) (start : Nat) : Option PeerId :=
  match n.peerStates.keys.find? (n.canBridge peer start) with
  | some q => if q ≠ 0 then some q else none
  | none   => none

/-- Ask for the blocks from `start` on, at most 200; the sum is one of `uint32_t`. -/
def requestRange (n : SyncNode) (peer : PeerId) (s : SyncState) (start : Nat) : SyncNode :=
  if s.latest < start then n
  else
    let last := min ((start + 200 - 1) % 2 ^ 32) s.latest
    { n with peerStates := n.peerStates.modify peer fun s =>
        { s with pendingSyncStart := start, pendingSyncEnd := last, lifecycle := .syncing, expectedNextBlock := 0 } }
      |>.send peer (.getBlockRange start last n.headBlockId)

/-- **`request_blocks_from_peer`**; `none` when the recursion is cut off. -/
def requestBlocksFromPeer : Nat → SyncNode → PeerId → Option SyncNode
  | 0,        _, _    => none
  | fuel + 1, n, peer =>
    match n.peerStates.find peer with
    | none   => some n
    | some s =>
      if s.latest ≤ n.headBlockNum then
        -- caught up with this peer, and perhaps with all of them
        some (if n.nodeStatus = .sync && n.allCaughtUp then n.transitionToForward else n)
      else
        let start := n.wantedStart s
        if start < s.peerDltEarliest then
          match n.bridgingPeer peer start with
          | some q => requestBlocksFromPeer fuel n q
          | none   => some (n.requestRange peer s s.peerDltEarliest)
        else some (n.requestRange peer s start)

/-! ## The recursion is bounded -/

variable {n n' : SyncNode} {p q : PeerId} {s : SyncState} {start : Nat}

/-- A longer fuel gives the same answer. -/
theorem requestBlocks_more {fuel : Nat} (h : requestBlocksFromPeer fuel n p = some n') (k : Nat) :
    requestBlocksFromPeer (fuel + k) n p = some n' := by
  induction fuel generalizing p with
  | zero => exact absurd h (by simp [requestBlocksFromPeer])
  | succ fuel ih =>
      rw [Nat.succ_add]
      unfold requestBlocksFromPeer at h ⊢
      cases hs : n.peerStates.find p with
      | none =>
          rw [hs] at h
          exact h
      | some s =>
          rw [hs] at h
          dsimp only at h ⊢
          by_cases hcaught : s.latest ≤ n.headBlockNum
          · rw [if_pos hcaught] at h ⊢
            exact h
          · rw [if_neg hcaught] at h ⊢
            by_cases hlate : n.wantedStart s < s.peerDltEarliest
            · rw [if_pos hlate] at h ⊢
              cases hb : n.bridgingPeer p (n.wantedStart s) with
              | none =>
                  rw [hb] at h
                  exact h
              | some q =>
                  rw [hb] at h
                  exact ih h
            · rw [if_neg hlate] at h ⊢
              exact h

/-- A range begins at the head, or at the last irreversible block below it. -/
theorem wantedStart_cases (n : SyncNode) (s : SyncState) :
    n.wantedStart s = n.headBlockNum ∨ (n.wantedStart s = n.libBlockNum ∧ n.libBlockNum < n.headBlockNum) := by
  unfold wantedStart
  split
  · next h => exact .inr ⟨rfl, h.2.2⟩
  · exact .inl rfl

/-- The blocks of a bridge begin at or below the start. -/
theorem bridgingPeer_earliest (h : n.bridgingPeer p start = some q) :
    n.peerStates.find q = some (n.peerStates.row q) ∧ (n.peerStates.row q).peerDltEarliest ≤ start := by
  unfold bridgingPeer at h
  split at h
  · next q' hf =>
      split at h
      · obtain rfl := Option.some.inj h
        refine ⟨if_pos (List.mem_of_find?_eq_some hf), ?_⟩
        have hb := List.find?_some hf
        simp only [canBridge, Bool.and_eq_true, decide_eq_true_eq] at hb
        exact hb.1.2
      · exact absurd h (by simp)
  · exact absurd h (by simp)

/-- A peer whose blocks begin early enough is asked itself. -/
theorem requestBlocks_early (hs : n.peerStates.find p = some s) (h : s.peerDltEarliest ≤ n.wantedStart s) :
    ∃ n', requestBlocksFromPeer 1 n p = some n' := by
  unfold requestBlocksFromPeer
  rw [hs]
  dsimp only
  by_cases hcaught : s.latest ≤ n.headBlockNum
  · rw [if_pos hcaught]
    exact ⟨_, rfl⟩
  · rw [if_neg hcaught, if_neg (by omega)]
    exact ⟨_, rfl⟩

/-- One call answers, or it calls itself for a bridge. -/
theorem requestBlocks_step (n : SyncNode) (p : PeerId) :
    (∃ n', ∀ fuel, requestBlocksFromPeer (fuel + 1) n p = some n') ∨
      ∃ s q, n.peerStates.find p = some s ∧ n.bridgingPeer p (n.wantedStart s) = some q ∧
        ∀ fuel, requestBlocksFromPeer (fuel + 1) n p = requestBlocksFromPeer fuel n q := by
  cases hs : n.peerStates.find p with
  | none =>
      refine .inl ⟨n, fun fuel => ?_⟩
      unfold requestBlocksFromPeer
      rw [hs]
  | some s =>
      by_cases hcaught : s.latest ≤ n.headBlockNum
      · refine .inl ⟨if n.nodeStatus = .sync && n.allCaughtUp then n.transitionToForward else n, fun fuel => ?_⟩
        unfold requestBlocksFromPeer
        rw [hs]
        dsimp only
        rw [if_pos hcaught]
      · by_cases hlate : n.wantedStart s < s.peerDltEarliest
        · cases hb : n.bridgingPeer p (n.wantedStart s) with
          | none =>
              refine .inl ⟨n.requestRange p s s.peerDltEarliest, fun fuel => ?_⟩
              unfold requestBlocksFromPeer
              rw [hs]
              dsimp only
              rw [if_neg hcaught, if_pos hlate, hb]
          | some q =>
              refine .inr ⟨s, q, rfl, hb, fun fuel => ?_⟩
              conv_lhs => unfold requestBlocksFromPeer
              rw [hs]
              dsimp only
              rw [if_neg hcaught, if_pos hlate, hb]
        · refine .inl ⟨n.requestRange p s (n.wantedStart s), fun fuel => ?_⟩
          unfold requestBlocksFromPeer
          rw [hs]
          dsimp only
          rw [if_neg hcaught, if_neg hlate]

/-- **Three calls are enough.** The second may start at the last irreversible block, and then the third need not look
    for a bridge. -/
theorem requestBlocks_returns (n : SyncNode) (p : PeerId) :
    ∃ n', ∀ fuel, requestBlocksFromPeer (fuel + 3) n p = some n' := by
  have hstop : ∀ (q : PeerId) (start : Nat), start ≤ n.headBlockNum → start ≤ n.libBlockNum →
      (∃ p, n.bridgingPeer p start = some q) → ∃ n', requestBlocksFromPeer 1 n q = some n' := by
    rintro q start hhead hlib ⟨p, hb⟩
    obtain ⟨hq, hle⟩ := bridgingPeer_earliest hb
    refine requestBlocks_early hq ?_
    rcases wantedStart_cases n (n.peerStates.row q) with hw | ⟨hw, -⟩
    · rw [hw]
      exact Nat.le_trans hle hhead
    · rw [hw]
      exact Nat.le_trans hle hlib
  have hmore : ∀ {p k n'}, requestBlocksFromPeer k n p = some n' → k ≤ 3 →
      ∀ fuel, requestBlocksFromPeer (fuel + 3) n p = some n' := by
    intro p k n' h hk fuel
    have he : fuel + 3 = k + (fuel + 3 - k) := by omega
    rw [he]
    exact requestBlocks_more h _
  rcases requestBlocks_step n p with ⟨n', h⟩ | ⟨s, q, hs, hb, hcall⟩
  · exact ⟨n', hmore (h 0) (by omega)⟩
  · -- the first bridge
    rcases requestBlocks_step n q with ⟨n', h⟩ | ⟨t, r, ht, hb', hcall'⟩
    · refine ⟨n', hmore (k := 2) ?_ (by omega)⟩
      rw [hcall 1]
      exact h 0
    · -- the second bridge is found for the last irreversible block
      have hqt : t = n.peerStates.row q := by
        have hq := (bridgingPeer_earliest hb).1
        rw [ht] at hq
        exact Option.some.inj hq
      have hlast : n.wantedStart t = n.libBlockNum ∧ n.libBlockNum < n.headBlockNum ∨
          ∃ n', requestBlocksFromPeer 1 n q = some n' := by
        rcases wantedStart_cases n t with hw | hw
        · refine .inr (requestBlocks_early ht ?_)
          have hle := (bridgingPeer_earliest hb).2
          rw [hw, hqt]
          rcases wantedStart_cases n s with hws | ⟨hws, hlt⟩
          · exact hws ▸ hle
          · exact Nat.le_trans (hws ▸ hle) hlt.le
        · exact .inl hw
      rcases hlast with ⟨hw, hlt⟩ | ⟨n', h⟩
      · obtain ⟨n', h⟩ := hstop r (n.wantedStart t) (hw ▸ hlt.le) hw.le ⟨q, hb'⟩
        refine ⟨n', hmore (k := 3) ?_ (Nat.le_refl 3)⟩
        rw [hcall 2, hcall' 1]
        exact h
      · refine ⟨n', hmore (k := 2) ?_ (by omega)⟩
        rw [hcall 1]
        exact h

/-! ## What is asked for -/

/-- **The peer that is asked in the end, and the first block it is asked for.** -/
inductive Asked (n : SyncNode) : PeerId → PeerId → Nat → Prop where
  | direct {p : PeerId} {s : SyncState} (hs : n.peerStates.find p = some s) (hahead : n.headBlockNum < s.latest)
      (hearly : s.peerDltEarliest ≤ n.wantedStart s) : Asked n p p (n.wantedStart s)
  | clamped {p : PeerId} {s : SyncState} (hs : n.peerStates.find p = some s) (hahead : n.headBlockNum < s.latest)
      (hlate : n.wantedStart s < s.peerDltEarliest) (hnone : n.bridgingPeer p (n.wantedStart s) = none)
      (hle : s.peerDltEarliest ≤ s.latest) : Asked n p p s.peerDltEarliest
  | bridged {p q r : PeerId} {s : SyncState} {start : Nat} (hs : n.peerStates.find p = some s)
      (hahead : n.headBlockNum < s.latest) (hlate : n.wantedStart s < s.peerDltEarliest)
      (hbridge : n.bridgingPeer p (n.wantedStart s) = some q) (h : Asked n q r start) : Asked n p r start

/-- **The range reaches past the head**: 200 blocks from its first block on do, and they have 32-bit numbers. -/
def InReach (n : SyncNode) (p : PeerId) : Prop :=
  ∀ q start, n.Asked p q start → n.headBlockNum < start + 199 ∧ start + 199 < 2 ^ 32

/-- Is the message a request of a range? -/
def isRange (m : PeerId × SyncMessage) : Bool :=
  match m.2 with
  | .getBlockRange .. => true
  | .forkStatus ..    => false

/-- **A range that is worth asking for**, when its peer is ahead. -/
def Useful (n : SyncNode) (m : PeerId × SyncMessage) : Prop :=
  match m.2 with
  | .forkStatus ..                 => True
  | .getBlockRange start last _ => ∀ s, n.peerStates.find m.1 = some s → n.headBlockNum < s.latest →
      start ≤ last ∧ last - start < 200 ∧ n.headBlockNum < last

/-- At most one peer is asked. -/
theorem Asked.unique {q' : PeerId} {start' : Nat} (h : n.Asked p q start) (h' : n.Asked p q' start') :
    q' = q ∧ start' = start := by
  induction h with
  | @direct p s hs hahead hearly =>
      cases h' with
      | direct hs' _ _ =>
          obtain rfl := Option.some.inj (hs.symm.trans hs')
          exact ⟨rfl, rfl⟩
      | clamped hs' _ hlate _ _ =>
          obtain rfl := Option.some.inj (hs.symm.trans hs')
          omega
      | bridged hs' _ hlate _ _ =>
          obtain rfl := Option.some.inj (hs.symm.trans hs')
          omega
  | @clamped p s hs hahead hlate hnone hle =>
      cases h' with
      | direct hs' _ hearly =>
          obtain rfl := Option.some.inj (hs.symm.trans hs')
          omega
      | clamped hs' _ _ _ _ =>
          obtain rfl := Option.some.inj (hs.symm.trans hs')
          exact ⟨rfl, rfl⟩
      | bridged hs' _ _ hbridge _ =>
          obtain rfl := Option.some.inj (hs.symm.trans hs')
          rw [hnone] at hbridge
          exact absurd hbridge (by simp)
  | @bridged p q₁ r s start hs hahead hlate hbridge h ih =>
      cases h' with
      | direct hs' _ hearly =>
          obtain rfl := Option.some.inj (hs.symm.trans hs')
          omega
      | clamped hs' _ _ hnone _ =>
          obtain rfl := Option.some.inj (hs.symm.trans hs')
          rw [hnone] at hbridge
          exact absurd hbridge (by simp)
      | bridged hs' _ _ hbridge' h' =>
          obtain rfl := Option.some.inj (hs.symm.trans hs')
          obtain rfl := Option.some.inj (hbridge.symm.trans hbridge')
          exact ih h'

/-- **What a call can come to**: nothing is asked for, or one range of one peer. -/
inductive Requested (n : SyncNode) (p : PeerId) : SyncNode → Prop where
  | quiet {n' : SyncNode} {msgs : List (PeerId × SyncMessage)} (hno : ∀ q start, ¬n.Asked p q start)
      (hsent : n'.sent = n.sent ++ msgs) (hmsgs : ∀ m ∈ msgs, isRange m = false) : Requested n p n'
  | asked {q : PeerId} {s : SyncState} {start : Nat} (h : n.Asked p q start) (hs : n.peerStates.find q = some s)
      (hahead : n.headBlockNum < s.latest) (hle : start ≤ s.latest) : Requested n p (n.requestRange q s start)

/-- The notice of the forward mode is no request. -/
theorem transitionToForward_sent (n : SyncNode) :
    ∃ msgs, n.transitionToForward.sent = n.sent ++ msgs ∧ ∀ m ∈ msgs, isRange m = false := by
  have hfold : ∀ (ps : List PeerId) (x : SyncNode), ∃ msgs,
      (ps.foldl (fun n p => n.send p (.forkStatus n.headBlockId n.headBlockNum .forward)) x).sent =
        x.sent ++ msgs ∧ ∀ m ∈ msgs, isRange m = false := by
    intro ps
    induction ps with
    | nil =>
        intro x
        exact ⟨[], (List.append_nil _).symm, fun m hm => absurd hm List.not_mem_nil⟩
    | cons p ps ih =>
        intro x
        obtain ⟨msgs, hsent, hmsgs⟩ := ih (x.send p (.forkStatus x.headBlockId x.headBlockNum .forward))
        refine ⟨(p, .forkStatus x.headBlockId x.headBlockNum .forward) :: msgs, ?_, ?_⟩
        · rw [List.foldl_cons, hsent]
          simp [send]
        · intro m hm
          rcases List.mem_cons.mp hm with rfl | hm
          · rfl
          · exact hmsgs m hm
  unfold transitionToForward
  dsimp only
  split
  · exact ⟨[], (List.append_nil _).symm, fun m hm => absurd hm List.not_mem_nil⟩
  · exact hfold _ _

/-- A peer that is not ahead, or not known, is not asked. -/
theorem not_asked_of_caught (h : ∀ s, n.peerStates.find p = some s → s.latest ≤ n.headBlockNum) (q : PeerId)
    (start : Nat) : ¬n.Asked p q start := by
  intro ha
  cases ha with
  | direct hs hahead _ => exact absurd (h _ hs) (Nat.not_le.mpr hahead)
  | clamped hs hahead _ _ _ => exact absurd (h _ hs) (Nat.not_le.mpr hahead)
  | bridged hs hahead _ _ _ => exact absurd (h _ hs) (Nat.not_le.mpr hahead)

theorem requestBlocks_requested {fuel : Nat} (h : requestBlocksFromPeer fuel n p = some n') :
    Requested n p n' := by
  induction fuel generalizing p with
  | zero => exact absurd h (by simp [requestBlocksFromPeer])
  | succ fuel ih =>
      unfold requestBlocksFromPeer at h
      cases hs : n.peerStates.find p with
      | none =>
          rw [hs] at h
          obtain rfl := Option.some.inj h
          refine .quiet (not_asked_of_caught fun s hs' => ?_) (List.append_nil _).symm
            fun m hm => absurd hm List.not_mem_nil
          rw [hs] at hs'
          exact absurd hs' (by simp)
      | some s =>
          rw [hs] at h
          dsimp only at h
          by_cases hcaught : s.latest ≤ n.headBlockNum
          · rw [if_pos hcaught] at h
            have hno := not_asked_of_caught (n := n) (p := p) fun t ht => by
              obtain rfl := Option.some.inj (hs.symm.trans ht)
              exact hcaught
            obtain rfl := Option.some.inj h
            split
            · obtain ⟨msgs, hsent, hmsgs⟩ := transitionToForward_sent n
              exact .quiet hno hsent hmsgs
            · exact .quiet hno (List.append_nil _).symm fun m hm => absurd hm List.not_mem_nil
          · have hahead : n.headBlockNum < s.latest := Nat.not_le.mp hcaught
            rw [if_neg hcaught] at h
            by_cases hlate : n.wantedStart s < s.peerDltEarliest
            · rw [if_pos hlate] at h
              cases hb : n.bridgingPeer p (n.wantedStart s) with
              | some q =>
                  rw [hb] at h
                  cases ih h with
                  | quiet hno hsent hmsgs =>
                      refine .quiet (fun r start ha => ?_) hsent hmsgs
                      cases ha with
                      | direct hs' _ hearly =>
                          obtain rfl := Option.some.inj (hs.symm.trans hs')
                          omega
                      | clamped hs' _ _ hnone _ =>
                          obtain rfl := Option.some.inj (hs.symm.trans hs')
                          rw [hnone] at hb
                          exact absurd hb (by simp)
                      | bridged hs' _ _ hb' ha =>
                          obtain rfl := Option.some.inj (hs.symm.trans hs')
                          obtain rfl := Option.some.inj (hb.symm.trans hb')
                          exact hno _ _ ha
                  | asked ha hs' hahead' hle => exact .asked (.bridged hs hahead hlate hb ha) hs' hahead' hle
              | none =>
                  rw [hb] at h
                  obtain rfl := Option.some.inj h
                  by_cases hle : s.peerDltEarliest ≤ s.latest
                  · exact .asked (.clamped hs hahead hlate hb hle) hs hahead hle
                  · -- the gap reaches past everything the peer has
                    have hsame : n.requestRange p s s.peerDltEarliest = n := if_pos (Nat.not_le.mp hle)
                    rw [hsame]
                    refine .quiet (fun r start ha => ?_) (List.append_nil _).symm
                      fun m hm => absurd hm List.not_mem_nil
                    cases ha with
                    | direct hs' _ hearly =>
                        obtain rfl := Option.some.inj (hs.symm.trans hs')
                        omega
                    | clamped hs' _ _ _ hle' =>
                        obtain rfl := Option.some.inj (hs.symm.trans hs')
                        exact hle hle'
                    | bridged hs' _ _ hb' _ =>
                        obtain rfl := Option.some.inj (hs.symm.trans hs')
                        rw [hb] at hb'
                        exact absurd hb' (by simp)
            · rw [if_neg hlate] at h
              obtain rfl := Option.some.inj h
              refine .asked (.direct hs hahead (Nat.not_lt.mp hlate)) hs hahead ?_
              rcases wantedStart_cases n s with hw | ⟨hw, hlt⟩ <;> omega

/-- The end of a range is past the head and not before its start exactly when the range reaches past the head. -/
theorem range_useful_iff {head first latest : Nat} (hahead : head < latest) (hle : first ≤ latest) :
    (first ≤ min ((first + 200 - 1) % 2 ^ 32) latest ∧ min ((first + 200 - 1) % 2 ^ 32) latest - first < 200 ∧
      head < min ((first + 200 - 1) % 2 ^ 32) latest) ↔ head < first + 199 ∧ first + 199 < 2 ^ 32 := by
  have hsum : first + 200 - 1 = first + 199 := by omega
  rw [hsum]
  by_cases hfit : first + 199 < 2 ^ 32
  · rw [Nat.mod_eq_of_lt hfit]
    omega
  · have hwrap : (first + 199) % 2 ^ 32 < first := by omega
    constructor
    · rintro ⟨h, -, -⟩
      exact absurd (Nat.le_trans h (Nat.min_le_left _ _)) (Nat.not_le.mpr hwrap)
    · rintro ⟨-, h⟩
      exact absurd h hfit

/-- **A request comes to an end, asks for at most one range, and the range is useful exactly when it reaches past the
    head.** -/
theorem requestBlocks_useful_iff (n : SyncNode) (p : PeerId) :
    ∃ n', (∀ fuel, requestBlocksFromPeer (fuel + 3) n p = some n') ∧
      ∃ msgs, n'.sent = n.sent ++ msgs ∧ (msgs.filter isRange).length ≤ 1 ∧
        ((∀ m ∈ msgs, n.Useful m) ↔ n.InReach p) := by
  obtain ⟨n', hret⟩ := requestBlocks_returns n p
  refine ⟨n', hret, ?_⟩
  cases requestBlocks_requested (hret 0) with
  | @quiet _ msgs hno hsent hmsgs =>
      refine ⟨msgs, hsent, ?_, ?_, ?_⟩
      · rw [List.filter_eq_nil_iff.mpr fun m hm => by simp [hmsgs m hm]]
        exact Nat.zero_le 1
      · intro _ q start ha
        exact absurd ha (hno q start)
      · intro _ m hm
        have hm := hmsgs m hm
        unfold isRange at hm
        unfold Useful
        split at hm
        · exact absurd hm (by simp)
        · next heq => rw [heq]; trivial
  | @asked q s start ha hs hahead hle =>
      have hsent : (n.requestRange q s start).sent = n.sent ++
          [(q, .getBlockRange start (min ((start + 200 - 1) % 2 ^ 32) s.latest) n.headBlockId)] := by
        unfold requestRange
        rw [if_neg (Nat.not_lt.mpr hle)]
        rfl
      refine ⟨_, hsent, Nat.le_of_eq rfl, ?_⟩
      have huseful : n.Useful (q, .getBlockRange start (min ((start + 200 - 1) % 2 ^ 32) s.latest) n.headBlockId) ↔
          n.headBlockNum < start + 199 ∧ start + 199 < 2 ^ 32 := by
        rw [← range_useful_iff hahead hle]
        constructor
        · intro h
          exact h s hs hahead
        · rintro h t ht -
          obtain rfl := Option.some.inj (hs.symm.trans ht)
          exact h
      rw [List.forall_mem_singleton, huseful]
      constructor
      · rintro h q' start' ha'
        obtain ⟨-, rfl⟩ := ha.unique ha'
        exact h
      · intro h
        exact h q start ha

end SyncNode

namespace Sample

/-- A node at block 500 whose last irreversible block is 200, and a peer that has the blocks 1 to 600. -/
def farBehind : SyncNode where
  peerStates        := ⟨[1], fun _ => { lifecycle := .active, peerHeadNum := 600, peerDltEarliest := 1
                                        peerDltLatest := 600 }, by decide⟩
  nodeStatus        := .sync
  catchupAfterPause := false
  headBlockNum      := 500
  headBlockId       := ⟨500, 1⟩
  libBlockNum       := 200
  isBlockKnown _    := false
  sent              := []

end Sample

namespace SyncNode

open Sample in
/-- **A range of known blocks**: blocks 200 to 399, for a head at 500. -/
theorem range_below_head :
    (requestBlocksFromPeer 3 farBehind 1).map (·.sent) = some [(1, .getBlockRange 200 399 ⟨500, 1⟩)] ∧
      ¬farBehind.Useful (1, .getBlockRange 200 399 ⟨500, 1⟩) := by
  refine ⟨by decide +kernel, ?_⟩
  intro h
  exact absurd (h _ rfl (by decide)).2.2 (by decide)

end SyncNode

end Network

end VizNode
