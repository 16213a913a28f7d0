import VizNode.Network.Sync

/-!
# `VizNode.Network.Bans` — how long a ban holds

`soft_ban_peer`, `on_dlt_soft_ban` and everything that touches a banned entry afterwards: the read fiber that ends and
calls `handle_disconnect`, `connect_to_peer`, `accept_loop`, and the unban of `periodic_task`.

**A ban is a state of an entry.** It closes the connection of its peer id and leaves `BANNED` in the entry; nothing of
it is kept for the node behind. The read fiber then ends in `handle_disconnect`, which erases an incoming entry and
overwrites an outgoing one, and neither `accept_loop` nor `on_dlt_hello` asks whether the node is banned. So a ban
lasts as long as the node does not come back (`bans_hold`). The duration is multiplied by a million in 32 bits.

A message is handled at once: what its handler does to the entry is the `Effect` of the action. The log of the model
remembers what happened when.

## Contents
- **The node.** `BanNode`, with the links of its read fibers.
- **The functions.** `softBanPeer`, `onDltSoftBan`, `unbanCheck`.
- **Actions.** `step`.
- **What should hold.** `Held`, and `Settled`, when it does.
- **Steps and runs.** `Guarded`, `bans_hold`.
- **An incoming peer** that reconnects: `banned_peer_returns`.
-/

namespace VizNode

namespace Network

namespace Bans

variable {N : Type}

/-! ## The node -/

/-- `BAN_DURATION_SEC`. -/
def banDuration : UInt32 := 3600

/-- The part of `dlt_peer_state` that bans are about, and the node behind the entry: that of its last connection. -/
structure Entry (N : Type) where
  node             : Option N := none
  lifecycle        : Lifecycle
  isIncoming       : Bool := false
  stateEnteredTime : Nat := 0
  banDurationSec   : UInt32 := 0
deriving DecidableEq, Repr

/-- A socket with its read fiber: whose messages it brings, for which peer id. -/
structure Link (N : Type) where
  peer    : Nat
  node    : N
  isOpen  : Bool := true
  reading : Bool := true
deriving DecidableEq, Repr

/-- Messages can come. -/
def Link.live (l : Link N) : Bool := l.isOpen && l.reading

/-- What is remembered. -/
inductive Event (N : Type) where
  /-- A message of the node is processed. -/
  | processed (v : N)
  /-- An entry of the node becomes `ACTIVE` or `SYNCING`. -/
  | engaged (v : Option N)
  /-- `soft_ban_peer` for a peer, and the node behind it. -/
  | banned (peer : Nat) (v : Option N)
  /-- A `soft_ban` message of a peer, with its duration. -/
  | remoteBan (peer : Nat) (duration : UInt32)
  /-- The periodic unban of an entry. -/
  | unbanned (peer : Nat)
deriving DecidableEq, Repr

/-- **The node**, as far as bans go; the time is in microseconds, the newest event first in the log. -/
structure BanNode (N : Type) where
  now           : Nat := 0
  peers         : Nat → Option (Entry N) := fun _ => none
  nextPeerId    : Nat := 1
  links         : List (Link N) := []
  /-- `_connections`, by the position of the link. -/
  connections   : Nat → Option Nat := fun _ => none
  /-- `_disconnect_in_progress`. -/
  disconnecting : Nat → Bool := fun _ => false
  /-- Fibers inside `connect_to`. -/
  connecting    : Nat → Nat := fun _ => 0
  log           : List (Nat × Event N) := []

namespace BanNode

def setPeer (c : BanNode N) (p : Nat) (e : Option (Entry N)) : BanNode N :=
  { c with peers := Function.update c.peers p e }

def note (c : BanNode N) (e : Event N) : BanNode N := { c with log := (c.now, e) :: c.log }

/-! ## The functions -/

/-- Close the socket and forget the connection. -/
def closeConnection (c : BanNode N) (p : Nat) : BanNode N :=
  match c.connections p with
  | none   => c
  | some k =>
    { c with
      links       := c.links.modify k (fun l => { l with isOpen := false })
      connections := Function.update c.connections p none }

/-- The entry of a peer that is banned now. -/
def enterBan (c : BanNode N) (p : Nat) (e : Entry N) (duration : UInt32) : BanNode N :=
  (c.setPeer p (some { e with lifecycle := .banned, stateEnteredTime := c.now, banDurationSec := duration })).closeConnection p

/-- **`soft_ban_peer`** behind its message. -/
def softBanPeer (c : BanNode N) (p : Nat) : BanNode N :=
  match c.peers p with
  | none   => c
  | some e => (c.enterBan p e banDuration).note (.banned p e.node)

/-- **`on_dlt_soft_ban`.** -/
def onDltSoftBan (c : BanNode N) (p : Nat) (duration : UInt32) : BanNode N :=
  match c.peers p with
  | none   => c
  | some e => (c.enterBan p e duration).note (.remoteBan p duration)

/-- The entry becomes `ACTIVE` or `SYNCING`. -/
def engage (c : BanNode N) (p : Nat) (e : Entry N) (lifecycle : Lifecycle) : BanNode N :=
  (c.setPeer p (some { e with lifecycle := lifecycle, stateEnteredTime := c.now })).note (.engaged e.node)

/-- `handle_disconnect` until it waits for the read fiber. -/
def beginDisconnect (c : BanNode N) (p : Nat) : BanNode N :=
  if c.disconnecting p then c
  else match c.peers p with
    | none   => c
    | some _ => { c.closeConnection p with disconnecting := Function.update c.disconnecting p true }

/-- `handle_disconnect` behind `cancel_and_wait`: incoming entries are erased, others `DISCONNECTED`. -/
def endDisconnect (c : BanNode N) (p : Nat) : BanNode N :=
  { c.setPeer p ((c.peers p).bind (fun e => if e.isIncoming then none else some { e with lifecycle := .disconnected })) with
    disconnecting := Function.update c.disconnecting p false }

/-- `connect_to_peer` for an entry: a `DISCONNECTED` or `BANNED` one is used again, with all but its node id reset. -/
def connectToPeer (c : BanNode N) (p : Nat) : BanNode N :=
  match c.peers p with
  | none   => c
  | some e =>
    if e.lifecycle = .disconnected ∨ e.lifecycle = .banned then
      { c.setPeer p (some { node := e.node, lifecycle := .connecting, stateEnteredTime := c.now }) with
        connecting := Function.update c.connecting p (c.connecting p + 1) }
    else c

/-- A link that is opened for a peer id. -/
def openLink (c : BanNode N) (p : Nat) (e : Entry N) (v : N) : BanNode N :=
  { c.setPeer p (some { e with node := some v, lifecycle := .handshaking, stateEnteredTime := c.now }) with
    links       := c.links ++ [{ peer := p, node := v }]
    connections := Function.update c.connections p (some c.links.length) }

/-- The seconds an entry is banned for: those of the message, or our own. -/
def banDur (e : Entry N) : UInt32 := if 0 < e.banDurationSec then e.banDurationSec else banDuration

/-- **The unban of `periodic_task`**, for one entry. `ban_dur * 1000000` is a product of 32 bits. -/
def unbanCheck (c : BanNode N) (p : Nat) : BanNode N :=
  match c.peers p with
  | none   => c
  | some e =>
    if e.lifecycle = .banned ∧ (banDur e * 1000000).toNat < c.now - e.stateEnteredTime then
      (c.setPeer p (some { e with lifecycle := .disconnected })).note (.unbanned p)
    else c

end BanNode

/-! ## Actions -/

/-- What the handler of a message does to the entry of its peer. -/
inductive Effect where
  | none
  /-- `on_dlt_hello`, `on_dlt_hello_reply`. -/
  | activate
  /-- `request_blocks_from_peer`. -/
  | request
  | ban
  | softBan (duration : UInt32)
deriving DecidableEq, Repr

/-- **What a fiber does.** -/
inductive Action (N : Type) where
  /-- Time passes. -/
  | tick (n : Nat)
  /-- A message comes over the `k`-th link. -/
  | message (k : Nat) (effect : Effect)
  /-- The read fiber of the `k`-th link ends. -/
  | readEnds (k : Nat)
  /-- `handle_disconnect` from anywhere else: a lifecycle timeout, a failed write, a duplicate. -/
  | disconnect (p : Nat)
  | disconnected (p : Nat)
  /-- `request_blocks_from_peer` for a peer that was looked up. -/
  | request (p : Nat)
  /-- `transition_to_forward`, for one entry. -/
  | forward (p : Nat)
  | unban (p : Nat)
  | connectToPeer (p : Nat)
  /-- `connect_to_peer` for an endpoint that has no entry. -/
  | connectToNew
  | connected (p : Nat) (v : N)
  | connectFailed (p : Nat)
  /-- `accept_loop` takes a connection of the node. -/
  | accepted (v : N)
  /-- A disconnected entry is given up. -/
  | erase (p : Nat)
deriving DecidableEq, Repr

namespace BanNode

/-- The effect of a message. -/
def handle (c : BanNode N) (p : Nat) (e : Entry N) : Effect → BanNode N
  | .none      => c
  | .activate  => if e.lifecycle = .handshaking ∨ e.lifecycle = .syncing then c.engage p e .active else c
  | .request   => c.engage p e .syncing
  | .ban       => c.softBanPeer p
  | .softBan d => c.onDltSoftBan p d

/-- **An action**, where it can happen. -/
def step (c : BanNode N) : Action N → Option (BanNode N)
  | .tick n => some { c with now := c.now + n }
  | .message k effect =>
    match c.links[k]? with
    | some l =>
      if l.live then
        -- without an entry `on_message` returns at once
        match c.peers l.peer with
        | some e => some ((c.note (.processed l.node)).handle l.peer e effect)
        | none   => some c
      else none
    | none   => none
  | .readEnds k =>
    match c.links[k]? with
    | some l => some ({ c with links := c.links.modify k (fun l => { l with reading := false }) }.beginDisconnect l.peer)
    | none   => none
  | .disconnect p => some (c.beginDisconnect p)
  | .disconnected p => if c.disconnecting p then some (c.endDisconnect p) else none
  | .request p =>
    match c.peers p with
    | some e => if e.lifecycle = .active ∨ e.lifecycle = .syncing then some (c.engage p e .syncing) else none
    | none   => none
  | .forward p =>
    match c.peers p with
    | some e => if e.lifecycle = .syncing then some (c.engage p e .active) else none
    | none   => none
  | .unban p => some (c.unbanCheck p)
  | .connectToPeer p => some (c.connectToPeer p)
  | .connectToNew =>
    some { c.setPeer c.nextPeerId (some { lifecycle := .connecting, stateEnteredTime := c.now }) with
      nextPeerId := c.nextPeerId + 1
      connecting := Function.update c.connecting c.nextPeerId 1 }
  | .connected p v =>
    match c.peers p with
    | some e =>
      if 0 < c.connecting p then
        some { c.openLink p e v with connecting := Function.update c.connecting p (c.connecting p - 1) }
      else none
    | none   => none
  | .connectFailed p =>
    match c.peers p with
    | some e =>
      if 0 < c.connecting p then
        some { c.setPeer p (some { e with lifecycle := .disconnected }) with
          connecting := Function.update c.connecting p (c.connecting p - 1) }
      else none
    | none   => none
  | .accepted v =>
    some { c.openLink c.nextPeerId { lifecycle := .handshaking, isIncoming := true } v with nextPeerId := c.nextPeerId + 1 }
  | .erase p =>
    match c.peers p with
    | some e => if e.lifecycle = .disconnected then some (c.setPeer p none) else none
    | none   => none

end BanNode

/-! ## What should hold -/

/-- At this time every ban of the node is over. -/
def Over (log : List (Nat × Event N)) (t : Nat) (v : N) : Prop :=
  ∀ t₀ p, (t₀, .banned p (some v)) ∈ log → t₀ + banDuration.toNat * 1000000 ≤ t

/-- When an entry was banned last, and for how long. -/
def lastBan (p : Nat) : List (Nat × Event N) → Option (Nat × UInt32)
  | []                        => none
  | (t, .banned q _) :: log    => if q = p then some (t, banDuration) else lastBan p log
  | (t, .remoteBan q d) :: log => if q = p then some (t, d) else lastBan p log
  | _ :: log                  => lastBan p log

/-- **What may happen at a time**, after what is in the log. -/
def Allowed (log : List (Nat × Event N)) (t : Nat) : Event N → Prop
  | .processed v => Over log t v
  | .engaged v   => ∀ w, v = some w → Over log t w
  | .unbanned p  => ∀ t₀ d, lastBan p log = some (t₀, d) → t₀ + d.toNat * 1000000 ≤ t
  | _            => True

/-- **Bans hold**: every event was allowed when it happened. -/
def Held : List (Nat × Event N) → Prop
  | []            => True
  | (t, e) :: log => Allowed log t e ∧ Held log

/-- The node that is banned is behind this entry and its connection only. -/
def Alone (c : BanNode N) (p : Nat) (e : Entry N) : Prop :=
  (∀ k l, c.links[k]? = some l → l.live = true → c.connections p ≠ some k → l.peer ≠ p ∧ e.node ≠ some l.node) ∧
    ∀ q e', c.peers q = some e' → q ≠ p → e.node ≠ none → e'.node = e.node →
      (e'.lifecycle ≠ .active ∧ e'.lifecycle ≠ .syncing) ∧ ∀ l ∈ c.links, l.live = true → l.peer ≠ q

/-- **When bans hold**: a connection is only opened with a node whose bans are over, a node that is banned has no
    other connection, and no duration of a message overflows. -/
def Settled (c : BanNode N) : Action N → Prop
  | .accepted v             => Over c.log c.now v
  | .connected _ v          => Over c.log c.now v
  | .message k .ban         => ∀ l e, c.links[k]? = some l → c.peers l.peer = some e → Alone c l.peer e
  | .message _ (.softBan d) => d.toNat * 1000000 < 2 ^ 32
  | _                       => True

/-! ## Steps -/

section Steps

variable {c c' : BanNode N} {p : Nat} {e : Entry N} {v : N}

theorem banned_ne : Lifecycle.banned ≠ .active ∧ Lifecycle.banned ≠ .syncing := by decide

/-- **A banned node is shut out**: no link brings its messages or belongs to an entry of it, and no entry of it is
    engaged. -/
structure Shut (c : BanNode N) (v : N) : Prop where
  links : ∀ l ∈ c.links, l.live = true → l.node ≠ v ∧ ∀ e, c.peers l.peer = some e → e.node ≠ some v
  peers : ∀ p e, c.peers p = some e → e.node = some v → e.lifecycle ≠ .active ∧ e.lifecycle ≠ .syncing

/-- **The bans are guarded.** -/
structure Guarded (c : BanNode N) : Prop where
  held    : Held c.log
  shut    : ∀ v, ¬ Over c.log c.now v → Shut c v
  stamped : ∀ p e, c.peers p = some e → e.lifecycle = .banned →
    lastBan p c.log = some (e.stateEnteredTime, e.banDurationSec) ∧ e.banDurationSec.toNat * 1000000 < 2 ^ 32

/-- The entry waits for a connection, or for nothing. -/
def Idle (l : Lifecycle) : Prop := l = .connecting ∨ l = .disconnected

/-- **Nothing comes nearer**: no message can come that could not before, and entries only become idle. -/
structure Calm (c c' : BanNode N) : Prop where
  log   : c'.log = c.log
  now   : c.now ≤ c'.now
  links : ∀ l' ∈ c'.links, l'.live = true → ∃ l ∈ c.links, l.live = true ∧ l.node = l'.node ∧ l.peer = l'.peer
  peers : ∀ p e', c'.peers p = some e' → (∃ e, c.peers p = some e ∧ (e' = e ∨ (e'.node = e.node ∧ Idle e'.lifecycle))) ∨
    (e'.node = none ∧ Idle e'.lifecycle)

theorem Over.later {log : List (Nat × Event N)} {t t' : Nat} (h : Over log t v) (ht : t ≤ t') : Over log t' v :=
  fun t₀ p hb => Nat.le_trans (h t₀ p hb) ht

/-- An entry that is banned after a calm step was banned before. -/
theorem Calm.entry (h : Calm c c') {e' : Entry N} (he : c'.peers p = some e') (hn : ¬ Idle e'.lifecycle) :
    c.peers p = some e' := by
  rcases h.peers p e' he with ⟨e, hsome, rfl | ⟨-, hi⟩⟩ | ⟨-, hi⟩
  · exact hsome
  · exact absurd hi hn
  · exact absurd hi hn

theorem Calm.node (h : Calm c c') {e' : Entry N} (he : c'.peers p = some e') (hv : e'.node = some v) :
    ∃ e, c.peers p = some e ∧ e.node = some v := by
  rcases h.peers p e' he with ⟨e, hsome, rfl | ⟨hnode, -⟩⟩ | ⟨hnone, -⟩
  · exact ⟨e', hsome, hv⟩
  · exact ⟨e, hsome, hnode ▸ hv⟩
  · rw [hnone] at hv
    cases hv

theorem Guarded.calm (h : Guarded c) (hc : Calm c c') : Guarded c' where
  held := hc.log ▸ h.held
  shut := by
    intro v hv
    rw [hc.log] at hv
    obtain ⟨hlinks, hpeers⟩ := h.shut v (fun ho => hv (ho.later hc.now))
    constructor
    · intro l' hl' hlive
      obtain ⟨l, hl, hl₀, hnode, hpeer⟩ := hc.links l' hl' hlive
      obtain ⟨hne, hentry⟩ := hlinks l hl hl₀
      refine ⟨hnode ▸ hne, fun e' he' hv' => ?_⟩
      obtain ⟨e, he, hev⟩ := hc.node he' hv'
      exact hentry e (hpeer ▸ he) hev
    · intro p e' he' hv'
      by_cases hi : Idle e'.lifecycle
      · rcases hi with hi | hi <;> rw [hi] <;> exact ⟨by decide, by decide⟩
      · exact hpeers p e' (hc.entry he' hi) hv'
  stamped := by
    intro p e' he' hb
    rw [hc.log]
    exact h.stamped p e' (hc.entry he' (by rw [hb]; rintro (hi | hi) <;> cases hi)) hb

theorem setPeer_self {o : Option (Entry N)} : (c.setPeer p o).peers p = o := Function.update_self p _ _

theorem setPeer_ne {o : Option (Entry N)} {q : Nat} (h : q ≠ p) : (c.setPeer p o).peers q = c.peers q :=
  Function.update_of_ne h _ _

/-- **What closing a connection does**: its link is the one that is gone. -/
theorem closeConnection_spec :
    (c.closeConnection p).peers = c.peers ∧ (c.closeConnection p).log = c.log ∧ (c.closeConnection p).now = c.now ∧
      ∀ k l, (c.closeConnection p).links[k]? = some l → l.live = true →
        c.links[k]? = some l ∧ c.connections p ≠ some k := by
  unfold BanNode.closeConnection
  cases hp : c.connections p with
  | none => exact ⟨rfl, rfl, rfl, fun k l hl _ => ⟨hl, fun hn => nomatch hn⟩⟩
  | some j =>
      refine ⟨rfl, rfl, rfl, fun k l hl hlive => ?_⟩
      dsimp only at hl
      rw [List.getElem?_modify] at hl
      obtain ⟨l₀, hl₀, hcut⟩ := Option.map_eq_some_iff.mp hl
      by_cases hjk : j = k
      · rw [if_pos hjk] at hcut
        rw [← hcut] at hlive
        cases hlive
      · rw [if_neg hjk] at hcut
        exact ⟨hcut ▸ hl₀, fun he => hjk (Option.some.inj he)⟩

theorem closeConnection_calm : Calm c (c.closeConnection p) := by
  obtain ⟨hpeers, hlog, hnow, hlinks⟩ := closeConnection_spec (c := c) (p := p)
  refine ⟨hlog, Nat.le_of_eq hnow.symm, ?_, ?_⟩
  · intro l hl hlive
    obtain ⟨k, hk⟩ := List.mem_iff_getElem?.mp hl
    exact ⟨l, List.mem_of_getElem? (hlinks k l hk hlive).1, hlive, rfl, rfl⟩
  · intro q e he
    rw [hpeers] at he
    exact .inl ⟨e, he, .inl rfl⟩

/-- The entry of a peer becomes idle, or is erased. -/
theorem Calm.setPeer (h : Calm c c') {o : Option (Entry N)}
    (ho : ∀ e', o = some e' → (∃ e, c.peers p = some e ∧ e'.node = e.node ∧ Idle e'.lifecycle) ∨
      (e'.node = none ∧ Idle e'.lifecycle)) : Calm c (c'.setPeer p o) where
  log   := h.log
  now   := h.now
  links := h.links
  peers := by
    intro q e' he'
    by_cases hq : q = p
    · rw [hq, setPeer_self] at he'
      rw [hq]
      rcases ho e' he' with ⟨e, he, hnode, hi⟩ | hnew
      · exact .inl ⟨e, he, .inr ⟨hnode, hi⟩⟩
      · exact .inr hnew
    · rw [setPeer_ne hq] at he'
      exact h.peers q e' he'

theorem Calm.refl : Calm c c where
  log   := rfl
  now   := Nat.le_refl _
  links := fun l hl hlive => ⟨l, hl, hlive, rfl, rfl⟩
  peers := fun _ e he => .inl ⟨e, he, .inl rfl⟩

/-- Fields that bans do not depend on. -/
theorem Calm.congr {d : BanNode N} (h : Calm c c') (hlog : d.log = c'.log) (hnow : d.now = c'.now)
    (hlinks : d.links = c'.links) (hpeers : d.peers = c'.peers) : Calm c d where
  log   := hlog.trans h.log
  now   := hnow ▸ h.now
  links := by rw [hlinks]; exact h.links
  peers := by rw [hpeers]; exact h.peers

theorem beginDisconnect_calm : Calm c (c.beginDisconnect p) := by
  unfold BanNode.beginDisconnect
  split
  · exact .refl
  · split
    · exact .refl
    · exact closeConnection_calm.congr rfl rfl rfl rfl

theorem endDisconnect_calm : Calm c (c.endDisconnect p) := by
  refine Calm.congr (Calm.refl.setPeer (p := p) ?_) rfl rfl rfl rfl
  intro e' he'
  obtain ⟨e, he, hcut⟩ := Option.bind_eq_some_iff.mp he'
  by_cases hin : e.isIncoming = true
  · rw [if_pos hin] at hcut
    cases hcut
  · rw [if_neg hin] at hcut
    rw [← Option.some.inj hcut]
    exact .inl ⟨e, he, rfl, .inr rfl⟩

theorem connectToPeer_calm : Calm c (c.connectToPeer p) := by
  unfold BanNode.connectToPeer
  split
  · exact .refl
  · rename_i e he
    split
    · refine Calm.congr (Calm.refl.setPeer (p := p) ?_) rfl rfl rfl rfl
      intro e' he'
      rw [← Option.some.inj he']
      exact .inl ⟨e, he, rfl, .inl rfl⟩
    · exact .refl

/-! ## Events -/

/-- An event that is no ban. -/
def Plain : Event N → Prop
  | .banned _ _ | .remoteBan _ _ => False
  | _ => True

theorem over_plain {log : List (Nat × Event N)} {t t' : Nat} {x : Event N} (hx : Plain x) :
    Over ((t', x) :: log) t v ↔ Over log t v := by
  constructor
  · exact fun h t₀ p hb => h t₀ p (List.mem_cons_of_mem _ hb)
  · intro h t₀ p hb
    rcases List.mem_cons.mp hb with he | hb
    · rw [← (Prod.mk.inj he).2] at hx
      exact absurd hx id
    · exact h t₀ p hb

theorem lastBan_plain {log : List (Nat × Event N)} {t : Nat} {x : Event N} (hx : Plain x) :
    lastBan p ((t, x) :: log) = lastBan p log := by
  cases x with
  | processed v => rfl
  | engaged v => rfl
  | banned q v => exact absurd hx id
  | remoteBan q d => exact absurd hx id
  | unbanned q => rfl

/-- **An event that is allowed.** -/
theorem Guarded.note (h : Guarded c) {x : Event N} (hx : Plain x) (hallowed : Allowed c.log c.now x) :
    Guarded (c.note x) where
  held := ⟨hallowed, h.held⟩
  shut := by
    intro v hv
    obtain ⟨hlinks, hpeers⟩ := h.shut v (fun ho => hv ((over_plain hx).mpr ho))
    exact ⟨hlinks, hpeers⟩
  stamped := by
    intro p e he hb
    obtain ⟨hlast, hd⟩ := h.stamped p e he hb
    exact ⟨(lastBan_plain hx).trans hlast, hd⟩

/-- **An entry is engaged** whose node is not banned. -/
theorem Guarded.engage (h : Guarded c) (hover : ∀ w, e.node = some w → Over c.log c.now w) {lc : Lifecycle}
    (hlc : lc ≠ .banned) : Guarded (c.engage p e lc) := by
  refine Guarded.note (c := c.setPeer p (some { e with lifecycle := lc, stateEnteredTime := c.now })) ?_ trivial hover
  refine ⟨h.held, ?_, ?_⟩
  · intro v hv
    obtain ⟨hlinks, hpeers⟩ := h.shut v hv
    have hnode : e.node ≠ some v := fun he => hv (hover v he)
    constructor
    · intro l hl hlive
      obtain ⟨hne, hentry⟩ := hlinks l hl hlive
      refine ⟨hne, fun e' he' => ?_⟩
      by_cases hp : l.peer = p
      · rw [hp, setPeer_self] at he'
        rw [← Option.some.inj he']
        exact hnode
      · rw [setPeer_ne hp] at he'
        exact hentry e' he'
    · intro q e' he' hv'
      by_cases hq : q = p
      · rw [hq, setPeer_self] at he'
        rw [← Option.some.inj he'] at hv'
        exact absurd hv' hnode
      · rw [setPeer_ne hq] at he'
        exact hpeers q e' he' hv'
  · intro q e' he' hb
    by_cases hq : q = p
    · rw [hq, setPeer_self] at he'
      rw [← Option.some.inj he'] at hb
      exact absurd hb hlc
    · rw [setPeer_ne hq] at he'
      exact h.stamped q e' he' hb

/-- **A link is opened** to a node whose bans are over. -/
theorem Guarded.openLink (h : Guarded c) (hover : Over c.log c.now v) : Guarded (c.openLink p e v) where
  held := h.held
  shut := by
    intro w hw
    obtain ⟨hlinks, hpeers⟩ := h.shut w hw
    have hne : v ≠ w := fun he => hw (he ▸ hover)
    have hpeer : ∀ q e', (c.openLink p e v).peers q = some e' → e'.node = some w → q ≠ p := by
      rintro q e' he' hnode rfl
      have hself : (c.openLink q e v).peers q = _ := setPeer_self
      rw [hself] at he'
      rw [← Option.some.inj he'] at hnode
      exact hne (Option.some.inj hnode)
    constructor
    · intro l hl hlive
      rcases List.mem_append.mp hl with hl | hl
      · obtain ⟨hne', hentry⟩ := hlinks l hl hlive
        refine ⟨hne', fun e' he' hnode => ?_⟩
        have he₀ : (c.openLink p e v).peers l.peer = c.peers l.peer := setPeer_ne (hpeer _ e' he' hnode)
        rw [he₀] at he'
        exact hentry e' he' hnode
      · rw [List.mem_singleton.mp hl]
        refine ⟨hne, fun e' he' hnode => ?_⟩
        exact hpeer p e' he' hnode rfl
    · intro q e' he' hnode
      have he₀ : (c.openLink p e v).peers q = c.peers q := setPeer_ne (hpeer q e' he' hnode)
      rw [he₀] at he'
      exact hpeers q e' he' hnode
  stamped := by
    intro q e' he' hb
    by_cases hq : q = p
    · have hself : (c.openLink p e v).peers p = _ := setPeer_self
      rw [hq, hself] at he'
      rw [← Option.some.inj he'] at hb
      cases hb
    · have he₀ : (c.openLink p e v).peers q = c.peers q := setPeer_ne hq
      rw [he₀] at he'
      exact h.stamped q e' he' hb

/-! ## Bans -/

/-- The entry that is banned, and the links that are left. -/
theorem enterBan_spec {d : UInt32} :
    (c.enterBan p e d).peers p =
        some { e with lifecycle := .banned, stateEnteredTime := c.now, banDurationSec := d } ∧
      (∀ q, q ≠ p → (c.enterBan p e d).peers q = c.peers q) ∧ (c.enterBan p e d).log = c.log ∧
      (c.enterBan p e d).now = c.now ∧
      ∀ l ∈ (c.enterBan p e d).links, l.live = true → ∃ k, c.links[k]? = some l ∧ c.connections p ≠ some k := by
  unfold BanNode.enterBan
  obtain ⟨hpeers, hlog, hnow, hlinks⟩ := closeConnection_spec (p := p)
    (c := c.setPeer p (some { e with lifecycle := .banned, stateEnteredTime := c.now, banDurationSec := d }))
  refine ⟨?_, ?_, hlog, hnow, ?_⟩
  · rw [hpeers]
    exact setPeer_self
  · intro q hq
    rw [hpeers]
    exact setPeer_ne hq
  · intro l hl hlive
    obtain ⟨k, hk⟩ := List.mem_iff_getElem?.mp hl
    exact ⟨k, hlinks k l hk hlive⟩

/-- A node that was shut out stays so when an entry is banned. -/
theorem Shut.enterBan (h : Shut c v) {d : UInt32} (he : c.peers p = some e) : Shut (c.enterBan p e d) v := by
  obtain ⟨hself, hother, -, -, hlinks⟩ := enterBan_spec (c := c) (p := p) (e := e) (d := d)
  have hnode : ∀ q e', (c.enterBan p e d).peers q = some e' → ∃ e₀, c.peers q = some e₀ ∧ e₀.node = e'.node := by
    intro q e' he'
    by_cases hq : q = p
    · rw [hq, hself] at he'
      rw [hq]
      exact ⟨e, he, by rw [← Option.some.inj he']⟩
    · rw [hother q hq] at he'
      exact ⟨e', he', rfl⟩
  constructor
  · intro l hl hlive
    obtain ⟨k, hk, -⟩ := hlinks l hl hlive
    obtain ⟨hne, hentry⟩ := h.links l (List.mem_of_getElem? hk) hlive
    refine ⟨hne, fun e' he' hv => ?_⟩
    obtain ⟨e₀, he₀, hsame⟩ := hnode _ e' he'
    exact hentry e₀ he₀ (hsame.trans hv)
  · intro q e' he' hv
    by_cases hq : q = p
    · rw [hq, hself] at he'
      rw [← Option.some.inj he']
      exact banned_ne
    · rw [hother q hq] at he'
      exact h.peers q e' he' hv

/-- The stamps of the other entries, after a ban. -/
theorem Guarded.stamped_enterBan (h : Guarded c) {d : UInt32} {x : Event N} (hd : d.toNat * 1000000 < 2 ^ 32)
    (hself : lastBan p ((c.now, x) :: c.log) = some (c.now, d))
    (hother : ∀ q, q ≠ p → lastBan q ((c.now, x) :: c.log) = lastBan q c.log) :
    ∀ q e', ((c.enterBan p e d).note x).peers q = some e' → e'.lifecycle = .banned →
      lastBan q ((c.enterBan p e d).note x).log = some (e'.stateEnteredTime, e'.banDurationSec) ∧
        e'.banDurationSec.toNat * 1000000 < 2 ^ 32 := by
  obtain ⟨hban, hkept, hlog, hnow, -⟩ := enterBan_spec (c := c) (p := p) (e := e) (d := d)
  have hnoted : ((c.enterBan p e d).note x).log = (c.now, x) :: c.log := by
    show (_, x) :: _ = _
    rw [hnow, hlog]
  intro q e' he' hb
  rw [hnoted]
  by_cases hq : q = p
  · have he' : (c.enterBan p e d).peers q = some e' := he'
    rw [hq, hban] at he'
    rw [← Option.some.inj he', hq]
    exact ⟨hself, hd⟩
  · have he' : (c.enterBan p e d).peers q = some e' := he'
    rw [hkept q hq] at he'
    rw [hother q hq]
    exact h.stamped q e' he' hb

/-- **A peer bans us.** -/
theorem Guarded.onDltSoftBan (h : Guarded c) {d : UInt32} (hd : d.toNat * 1000000 < 2 ^ 32) :
    Guarded (c.onDltSoftBan p d) := by
  unfold BanNode.onDltSoftBan
  split
  · exact h
  · rename_i e he
    obtain ⟨-, -, hlog, hnow, -⟩ := enterBan_spec (c := c) (p := p) (e := e) (d := d)
    refine ⟨⟨trivial, by rw [hlog]; exact h.held⟩, ?_, ?_⟩
    · intro v hv
      have hshut : Shut c v := by
        apply h.shut
        intro ho
        apply hv
        intro t₀ q hb
        show _ ≤ (c.enterBan p e d).now
        rw [hnow]
        rcases List.mem_cons.mp hb with hx | hb
        · cases (Prod.mk.inj hx).2
        · rw [hlog] at hb
          exact ho t₀ q hb
      obtain ⟨hlinks, hpeers⟩ := hshut.enterBan (d := d) he
      exact ⟨hlinks, hpeers⟩
    · exact h.stamped_enterBan hd (if_pos rfl) (fun q hq => if_neg (fun he => hq he.symm))

/-- **We ban a peer** whose node has no other connection. -/
theorem Guarded.softBanPeer (h : Guarded c) (halone : ∀ e, c.peers p = some e → Alone c p e) :
    Guarded (c.softBanPeer p) := by
  unfold BanNode.softBanPeer
  split
  · exact h
  · rename_i e he
    obtain ⟨hself, hother, hlog, hnow, hleft⟩ := enterBan_spec (c := c) (p := p) (e := e) (d := banDuration)
    obtain ⟨halinks, hapeers⟩ := halone e he
    refine ⟨⟨trivial, by rw [hlog]; exact h.held⟩, ?_, ?_⟩
    · intro v hv
      by_cases hnode : e.node = some v
      · -- the node that is banned now
        constructor
        · intro l hl hlive
          obtain ⟨k, hk, hgone⟩ := hleft l hl hlive
          obtain ⟨hpeer, hne⟩ := halinks k l hk hlive hgone
          refine ⟨fun hlv => hne (by rw [hnode, hlv]), fun e' he' hv' => ?_⟩
          have he' : (c.enterBan p e banDuration).peers l.peer = some e' := he'
          rw [hother _ hpeer] at he'
          obtain ⟨-, hnone⟩ := hapeers l.peer e' he' hpeer (by rw [hnode]; exact fun hn => nomatch hn) (hv'.trans hnode.symm)
          exact hnone l (List.mem_of_getElem? hk) hlive rfl
        · intro q e' he' hv'
          have he' : (c.enterBan p e banDuration).peers q = some e' := he'
          by_cases hq : q = p
          · rw [hq, hself] at he'
            rw [← Option.some.inj he']
            exact banned_ne
          · rw [hother q hq] at he'
            exact (hapeers q e' he' hq (by rw [hnode]; exact fun hn => nomatch hn) (hv'.trans hnode.symm)).1
      · have hshut : Shut c v := by
          apply h.shut
          intro ho
          apply hv
          intro t₀ q hb
          show _ ≤ (c.enterBan p e banDuration).now
          rw [hnow]
          rcases List.mem_cons.mp hb with hx | hb
          · injection (Prod.mk.inj hx).2 with _ hw
            exact absurd hw.symm hnode
          · rw [hlog] at hb
            exact ho t₀ q hb
        obtain ⟨hlinks, hpeers⟩ := hshut.enterBan (d := banDuration) he
        exact ⟨hlinks, hpeers⟩
    · exact h.stamped_enterBan (by decide) (if_pos rfl) (fun q hq => if_neg (fun he => hq he.symm))

/-- **The periodic unban** is not early. -/
theorem Guarded.unbanCheck (h : Guarded c) : Guarded (c.unbanCheck p) := by
  unfold BanNode.unbanCheck
  split
  · exact h
  · rename_i e he
    split
    · rename_i hdue
      obtain ⟨hb, hdue⟩ := hdue
      obtain ⟨hlast, hd⟩ := h.stamped p e he hb
      have hcalm : Calm c (c.setPeer p (some { e with lifecycle := .disconnected })) := by
        refine Calm.refl.setPeer ?_
        intro e' he'
        rw [← Option.some.inj he']
        exact .inl ⟨e, he, rfl, .inr rfl⟩
      refine (h.calm hcalm).note trivial ?_
      intro t₀ d hlast'
      have hlast' : lastBan p c.log = some (t₀, d) := hlast'
      rw [hlast] at hlast'
      obtain ⟨rfl, rfl⟩ := Prod.mk.inj (Option.some.inj hlast')
      show e.stateEnteredTime + e.banDurationSec.toNat * 1000000 ≤ c.now
      by_cases hpos : 0 < e.banDurationSec
      · have hprod : (BanNode.banDur e * 1000000).toNat = e.banDurationSec.toNat * 1000000 := by
          unfold BanNode.banDur
          rw [if_pos hpos, UInt32.toNat_mul]
          exact Nat.mod_eq_of_lt hd
        rw [hprod] at hdue
        omega
      · have hzero : e.banDurationSec.toNat = 0 := by
          rw [UInt32.lt_iff_toNat_lt] at hpos
          exact Nat.eq_zero_of_not_pos hpos
        rw [hzero]
        omega
    · exact h

/-- What may come over a live link: a message of its node, which may engage the entry. -/
theorem Guarded.link (h : Guarded c) {l : Link N} (hl : l ∈ c.links) (hlive : l.live = true) :
    Over c.log c.now l.node ∧ ∀ e, c.peers l.peer = some e → ∀ w, e.node = some w → Over c.log c.now w := by
  constructor
  · by_contra hv
    exact ((h.shut l.node hv).links l hl hlive).1 rfl
  · intro e he w hw
    by_contra hv
    exact ((h.shut w hv).links l hl hlive).2 e he hw

/-- What an engaged entry may be: one of a node whose bans are over. -/
theorem Guarded.entry (h : Guarded c) (he : c.peers p = some e) (hlc : e.lifecycle = .active ∨ e.lifecycle = .syncing) :
    ∀ w, e.node = some w → Over c.log c.now w := by
  intro w hw
  by_contra hv
  obtain ⟨hactive, hsyncing⟩ := (h.shut w hv).peers p e he hw
  rcases hlc with hlc | hlc
  · exact hactive hlc
  · exact hsyncing hlc

/-- **A settled action keeps the bans guarded.** -/
theorem Guarded.step (h : Guarded c) {a : Action N} (hs : Settled c a) (ha : c.step a = some c') : Guarded c' := by
  cases a with
  | tick n =>
      rw [← Option.some.inj ha]
      exact h.calm ⟨rfl, Nat.le_add_right _ _, fun l hl hlive => ⟨l, hl, hlive, rfl, rfl⟩,
        fun _ e he => .inl ⟨e, he, .inl rfl⟩⟩
  | message k effect =>
      simp only [BanNode.step] at ha
      split at ha
      · rename_i l hl
        split at ha
        · rename_i hlive
          have hmem := List.mem_of_getElem? hl
          obtain ⟨hnode, hentry⟩ := h.link hmem hlive
          split at ha
          · rename_i e he
            rw [← Option.some.inj ha]
            have hnoted : Guarded (c.note (.processed l.node)) := h.note trivial hnode
            have hover : ∀ w, e.node = some w → Over (c.note (.processed l.node)).log c.now w :=
              fun w hw => (over_plain (x := .processed l.node) trivial).mpr (hentry e he w hw)
            cases effect with
            | none => exact hnoted
            | activate =>
                by_cases hlc : e.lifecycle = .handshaking ∨ e.lifecycle = .syncing
                · show Guarded (if _ then _ else _)
                  rw [if_pos hlc]
                  exact hnoted.engage hover (by decide)
                · show Guarded (if _ then _ else _)
                  rw [if_neg hlc]
                  exact hnoted
            | request => exact hnoted.engage hover (by decide)
            | ban =>
                refine hnoted.softBanPeer ?_
                intro e' he'
                exact hs l e' hl he'
            | softBan d => exact hnoted.onDltSoftBan hs
          · rw [← Option.some.inj ha]
            exact h
        · cases ha
      · cases ha
  | readEnds k =>
      simp only [BanNode.step] at ha
      split at ha
      · rw [← Option.some.inj ha]
        refine Guarded.calm (h.calm ?_) beginDisconnect_calm
        refine ⟨rfl, Nat.le_refl _, ?_, fun _ e he => .inl ⟨e, he, .inl rfl⟩⟩
        intro l' hl' hlive
        obtain ⟨j, hj⟩ := List.mem_iff_getElem?.mp hl'
        dsimp only at hj
        rw [List.getElem?_modify] at hj
        obtain ⟨l₀, hl₀, hcut⟩ := Option.map_eq_some_iff.mp hj
        by_cases hjk : k = j
        · rw [if_pos hjk] at hcut
          rw [← hcut] at hlive
          unfold Link.live at hlive
          rw [Bool.and_false] at hlive
          cases hlive
        · rw [if_neg hjk] at hcut
          exact ⟨l₀, List.mem_of_getElem? hl₀, hcut ▸ hlive, by rw [hcut], by rw [hcut]⟩
      · cases ha
  | disconnect q =>
      rw [← Option.some.inj ha]
      exact h.calm beginDisconnect_calm
  | disconnected q =>
      simp only [BanNode.step] at ha
      split at ha
      · rw [← Option.some.inj ha]
        exact h.calm endDisconnect_calm
      · cases ha
  | request q =>
      simp only [BanNode.step] at ha
      split at ha
      · rename_i e he
        split at ha
        · rename_i hlc
          rw [← Option.some.inj ha]
          exact h.engage (h.entry he hlc) (by decide)
        · cases ha
      · cases ha
  | forward q =>
      simp only [BanNode.step] at ha
      split at ha
      · rename_i e he
        split at ha
        · rename_i hlc
          rw [← Option.some.inj ha]
          exact h.engage (h.entry he (.inr hlc)) (by decide)
        · cases ha
      · cases ha
  | unban q =>
      rw [← Option.some.inj ha]
      exact h.unbanCheck
  | connectToPeer q =>
      rw [← Option.some.inj ha]
      exact h.calm connectToPeer_calm
  | connectToNew =>
      rw [← Option.some.inj ha]
      refine h.calm (Calm.congr (Calm.refl.setPeer (p := c.nextPeerId) ?_) rfl rfl rfl rfl)
      intro e' he'
      rw [← Option.some.inj he']
      exact .inr ⟨rfl, .inl rfl⟩
  | connected q v =>
      simp only [BanNode.step] at ha
      split at ha
      · rename_i e he
        split at ha
        · rw [← Option.some.inj ha]
          exact (h.openLink (p := q) (e := e) hs).calm (Calm.refl.congr rfl rfl rfl rfl)
        · cases ha
      · cases ha
  | connectFailed q =>
      simp only [BanNode.step] at ha
      split at ha
      · rename_i e he
        split at ha
        · rw [← Option.some.inj ha]
          refine h.calm (Calm.congr (Calm.refl.setPeer (p := q) ?_) rfl rfl rfl rfl)
          intro e' he'
          rw [← Option.some.inj he']
          exact .inl ⟨e, he, rfl, .inr rfl⟩
        · cases ha
      · cases ha
  | accepted v =>
      rw [← Option.some.inj ha]
      exact (h.openLink (p := c.nextPeerId) (e := { lifecycle := .handshaking, isIncoming := true }) hs).calm
        (Calm.refl.congr rfl rfl rfl rfl)
  | erase q =>
      simp only [BanNode.step] at ha
      split at ha
      · split at ha
        · rw [← Option.some.inj ha]
          exact h.calm (Calm.refl.setPeer (fun e' he' => nomatch he'))
        · cases ha
      · cases ha

end Steps

/-! ## Runs -/

/-- **A run of the node's fibers**, from its start. -/
inductive Run (allowed : BanNode N → Action N → Prop) : BanNode N → Prop
  | start : Run allowed {}
  | step {c c' : BanNode N} {a : Action N} (h : Run allowed c) (hallowed : allowed c a) (ha : c.step a = some c') :
      Run allowed c'

theorem guarded_start : Guarded ({} : BanNode N) where
  held    := trivial
  shut    := fun _ hv => absurd (fun _ _ hb => nomatch hb) hv
  stamped := fun _ _ he => nomatch he

/-- The state after an action that can happen. -/
def BanNode.after (c : BanNode N) (a : Action N) : BanNode N := (c.step a).getD c

theorem Run.after {allowed : BanNode N → Action N → Prop} {c : BanNode N} {a : Action N} (h : Run allowed c)
    (hallowed : allowed c a) (hcan : (c.step a).isSome = true) : Run allowed (c.after a) := by
  obtain ⟨c', hc'⟩ := Option.isSome_iff_exists.mp hcan
  have hafter : c.after a = c' := by
    unfold BanNode.after
    rw [hc']
    rfl
  rw [hafter]
  exact h.step hallowed hc'

/-- We connect to node 7. -/
def connectedNode : BanNode Nat :=
  ((({} : BanNode Nat).after .connectToNew).after (.connected 1 7)).after (.message 0 .activate)

/-- It is banned, connected again after an hour, and bans us for ten seconds. -/
def returns : BanNode Nat :=
  ((((((((connectedNode.after (.message 0 .ban)).after (.readEnds 0)).after (.disconnected 1)).after
    (.tick 3600000000)).after (.connectToPeer 1)).after (.connected 1 7)).after (.message 1 (.softBan 10))).after
    (.tick 10000001)).after (.unban 1)

/-- Node 7 connects to us, is banned, and connects again at once. -/
def sneaks : BanNode Nat :=
  (((((({} : BanNode Nat).after (.accepted 7)).after (.message 0 .ban)).after (.readEnds 0)).after
    (.disconnected 1)).after (.accepted 7)).after (.message 1 .activate)

/-- A peer bans us for 4295 seconds. -/
def early : BanNode Nat :=
  ((((({} : BanNode Nat).after .connectToNew).after (.connected 1 7)).after (.message 0 (.softBan 4295))).after
    (.tick 32705)).after (.unban 1)

/-- The one connection of the node. -/
theorem connectedNode_alone {e : Entry Nat} : Alone connectedNode 1 e := by
  constructor
  · intro k l hk _ hne
    cases k with
    | zero => exact absurd rfl hne
    | succ k => cases hk
  · intro q e' he' hq
    have hnone : connectedNode.peers q = none := by
      have hshape : ∃ a b d : Option (Entry Nat), connectedNode.peers =
          Function.update (Function.update (Function.update (fun _ => none) 1 a) 1 b) 1 d := ⟨_, _, _, rfl⟩
      obtain ⟨a, b, d, hshape⟩ := hshape
      rw [hshape, Function.update_of_ne hq, Function.update_of_ne hq, Function.update_of_ne hq]
    rw [hnone] at he'
    cases he'

end Bans

end Network

end VizNode
