import VizNode.Network.Sync
import VizNode.Lib.Files

/-!
# `VizNode.Network.Sending` — the fibers that write to one peer

`send_message`, `drain_send_queue`, `handle_disconnect` and `connect_to_peer` of `dlt_p2p_node.cpp`, for one peer id.
Everything they share is kept by id: the connection, the flag `_peer_sending`, the entry with its queue, the guard of
`handle_disconnect`. Fibers run one at a time and switch inside a socket write, inside `cancel_and_wait` and inside a
TCP connect; `Action` has one constructor for each way a fiber goes on until it switches or ends.

A write is two actions: the socket takes some bytes (`written`), and later the fiber goes on with their number
(`resume`), or `writesome` throws in it (`fail`).

## Contents
- **Frames.** `Message.frame`, `frameMsgType`.
- **The channel.** `Channel`; a socket remembers what was written to it and what was submitted for it.
- **The functions.** `handleDisconnect`, `drainSendQueue`, `sendMessage`, `connectToPeer`.
- **Actions.** `step`.
-/

namespace VizNode

namespace Network

open Files

/-! ## Frames -/

/-- A serialized wire frame. -/
abbrev Frame := Bytes

/-- `dlt_fork_status_message_type` and `dlt_transaction_message_type`. -/
def forkStatusMessageType : Nat := 5109
def transactionMessageType : Nat := 5113

/-- `dlt_peer_state::SEND_QUEUE_MAX_DEPTH`. -/
def sendQueueMaxDepth : Nat := 150

/-- A message before it is serialized. -/
structure Message where
  msgType : UInt32
  data    : Bytes
deriving DecidableEq, Repr

/-- **The wire frame**: the size and the type, four bytes each, and the payload. -/
def Message.frame (m : Message) : Frame := encode 4 m.data.length ++ encode 4 m.msgType.toNat ++ m.data

/-- `frame_msg_type`. -/
def frameMsgType (f : Frame) : Nat := if 8 ≤ f.length then decode ((f.drop 4).take 4) else 0

/-- `is_droppable_when_full`. -/
def isDroppableWhenFull (msgType : Nat) : Bool :=
  decide (msgType = forkStatusMessageType ∨ msgType = transactionMessageType)

/-! ## The channel -/

/-- A socket: whether we have closed it, the bytes it took, and the frames that were submitted while it was the
    connection of the peer. -/
structure Socket where
  isOpen    : Bool := false
  written   : Bytes := []
  submitted : List Frame := []
deriving DecidableEq, Repr

/-- A fiber in `drain_send_queue`, with its own copy of the socket: the bytes of its buffer that it still has to
    write, and how many of them the socket has taken when `writesome` is about to return. -/
structure Writer where
  socket : Nat
  rest   : Bytes
  ack    : Option Nat := none
deriving DecidableEq, Repr

/-- The part of `dlt_peer_state` that sending and connecting read and write. -/
structure PeerEntry where
  lifecycle  : Lifecycle := .disconnected
  isIncoming : Bool := false
  sendQueue  : List Frame := []
deriving DecidableEq, Repr

/-- **What the node keeps for one peer id**, and the fibers that are at it. -/
structure Channel where
  sockets       : Nat → Socket := fun _ => {}
  count         : Nat := 0
  /-- `_connections[peer]`. -/
  connection    : Option Nat := none
  /-- `_peer_sending.count(peer)`. -/
  sending       : Bool := false
  /-- `_disconnect_in_progress.count(peer)`. -/
  disconnecting : Bool := false
  /-- `_peer_states[peer]`. -/
  entry         : Option PeerEntry := some {}
  writers       : List Writer := []
  /-- Fibers inside `connect_to`. -/
  connecting    : Nat := 0

namespace Channel

def updateSocket (c : Channel) (k : Nat) (f : Socket → Socket) : Channel :=
  { c with sockets := Function.update c.sockets k (f (c.sockets k)) }

def setQueue (c : Channel) (q : List Frame) : Channel :=
  { c with entry := c.entry.map (fun e => { e with sendQueue := q }) }

/-! ## The functions -/

/-- Close the socket and forget the connection. -/
def closeConnection (c : Channel) : Channel :=
  match c.connection with
  | none   => c
  | some k => { c.updateSocket k (fun s => { s with isOpen := false }) with connection := none }

/-- `handle_disconnect` behind `cancel_and_wait`. -/
def finishDisconnect (c : Channel) : Channel :=
  { c with
    sending       := false
    disconnecting := false
    entry         := c.entry.bind (fun e =>
      if e.isIncoming then none else some { e with lifecycle := .disconnected, sendQueue := [] }) }

/-- **`handle_disconnect`**, until `cancel_and_wait` of the read fiber switches, or to its end. -/
def handleDisconnect (c : Channel) (yields : Bool) : Channel :=
  if c.disconnecting then c
  else if c.entry = none then c
  else
    let c := { c with disconnecting := true }.closeConnection
    if yields then c else c.finishDisconnect

/-- **`drain_send_queue`**, until the first write. -/
def drainSendQueue (c : Channel) (buf : Frame) : Channel :=
  match c.connection with
  | none   => { c with sending := false }
  | some k => { c with writers := c.writers ++ [{ socket := k, rest := buf }] }

/-- A newer `fork_status` takes the place of a queued one. -/
def replaceStatus (f : Frame) : List Frame → List Frame
  | []     => []
  | g :: q => if frameMsgType g = forkStatusMessageType then f :: q else g :: replaceStatus f q

/-- **`send_message`.** -/
def sendMessage (c : Channel) (yields : Bool) (m : Message) : Channel :=
  match c.connection with
  | none   => c
  | some k =>
    let c := c.updateSocket k (fun s => { s with submitted := s.submitted ++ [m.frame] })
    if c.sending then
      match c.entry with
      | none   => c
      | some e =>
        if m.msgType.toNat = forkStatusMessageType ∧
            ∃ f ∈ e.sendQueue, frameMsgType f = forkStatusMessageType then
          c.setQueue (replaceStatus m.frame e.sendQueue)
        else if e.sendQueue.length < sendQueueMaxDepth then c.setQueue (e.sendQueue ++ [m.frame])
        else if isDroppableWhenFull m.msgType.toNat then c
        else if c.disconnecting then c
        else c.handleDisconnect yields
    else { c with sending := true }.drainSendQueue m.frame

/-- **`connect_to_peer`** for a known peer: a disconnected or banned entry is used again, with all its fields reset. -/
def connectToPeer (c : Channel) : Channel :=
  match c.entry with
  | none   => c
  | some e =>
    if e.lifecycle = .disconnected ∨ e.lifecycle = .banned then
      { c with entry := some { lifecycle := .connecting }, connecting := c.connecting + 1 }
    else c

/-- A new socket is the connection. -/
def openConnection (c : Channel) : Channel :=
  { c.updateSocket c.count (fun _ => { isOpen := true }) with connection := some c.count, count := c.count + 1 }

/-! ## Actions -/

/-- **What a fiber does until it switches.** Where `handle_disconnect` may be called, the flag tells whether it waits
    for the read fiber. -/
inductive Action where
  | sendMessage (yields : Bool) (m : Message)
  /-- The socket takes `n` bytes of the `i`-th writer. -/
  | written (i n : Nat)
  /-- `writesome` returns in the `i`-th writer, which goes on to its next write, or ends. -/
  | resume (i : Nat)
  /-- `writesome` throws in the `i`-th writer. -/
  | fail (i : Nat) (yields : Bool)
  | disconnect (yields : Bool)
  /-- `cancel_and_wait` returns. -/
  | disconnected
  /-- `soft_ban_peer` behind its message, and `on_dlt_soft_ban`. -/
  | ban
  | connectToPeer
  /-- A TCP connect succeeds, and the hello is sent. -/
  | connected (hello : Message)
  | connectFailed
  /-- `accept_loop` takes a connection, under a fresh id, and sends the hello. -/
  | accepted (hello : Message)

/-- The `i`-th writer, where its buffer is written: the next frame of the queue, or the end of the fiber. -/
def nextFrame (c : Channel) (i : Nat) (w : Writer) : Channel :=
  match c.entry with
  | some e =>
    match e.sendQueue with
    | f :: q => { c.setQueue q with writers := c.writers.set i { socket := w.socket, rest := f } }
    | []     => { c with writers := c.writers.eraseIdx i, sending := false }
  | none   => { c with writers := c.writers.eraseIdx i, sending := false }

/-- **An action**, where it can happen. -/
def step (c : Channel) : Action → Option Channel
  | .sendMessage yields m => some (c.sendMessage yields m)
  | .written i n =>
    match c.writers[i]? with
    | some w =>
      if w.ack = none ∧ 0 < n ∧ n ≤ w.rest.length ∧ (c.sockets w.socket).isOpen then
        some { c.updateSocket w.socket (fun s => { s with written := s.written ++ w.rest.take n }) with
          writers := c.writers.set i { w with ack := some n } }
      else none
    | none   => none
  | .resume i =>
    match c.writers[i]? with
    | some w =>
      match w.ack with
      | some n =>
        if w.rest.drop n ≠ [] then
          some { c with writers := c.writers.set i { socket := w.socket, rest := w.rest.drop n } }
        else some (c.nextFrame i w)
      | none   => none
    | none   => none
  | .fail i yields =>
    match c.writers[i]? with
    | some w =>
      if w.ack = none then
        some ({ c with writers := c.writers.eraseIdx i, sending := false }.handleDisconnect yields)
      else none
    | none   => none
  | .disconnect yields => some (c.handleDisconnect yields)
  | .disconnected => if c.disconnecting then some c.finishDisconnect else none
  | .ban =>
    some { c.closeConnection with entry := c.entry.map (fun e => { e with lifecycle := .banned }) }
  | .connectToPeer => some c.connectToPeer
  | .connected hello =>
    if 0 < c.connecting then
      let c : Channel := { c with
        connecting := c.connecting - 1
        entry      := c.entry.map (fun e => { e with lifecycle := .handshaking }) }
      some (c.openConnection.sendMessage false hello)
    else none
  | .connectFailed =>
    if 0 < c.connecting then
      some { c with
        connecting := c.connecting - 1
        entry      := c.entry.map (fun e => { e with lifecycle := .disconnected }) }
    else none
  | .accepted hello =>
    if c.count = 0 ∧ c.connecting = 0 ∧ c.disconnecting = false then
      let c : Channel := { c with entry := some { lifecycle := .handshaking, isIncoming := true } }
      some (c.openConnection.sendMessage false hello)
    else none

end Channel

end Network

end VizNode
