import VizNode.Network.Sending

/-!
# `VizNode.Network.Framing` — what is on the wire

A socket should carry whole frames, in the order they were submitted for it. What may be missing is a status that a
newer one replaced in the queue, and what was dropped because the queue was full. This is `Kept`: the history of a
connection with one writer.

**One writer.** The flag that keeps a second fiber from writing is set by peer id and cleared by peer id, by the
writer that ends, the writer that fails, and `handle_disconnect`. As long as a connection is only opened when the
last one is gone with all its fibers, the flag tells the truth (`Orderly`), and every socket is framed
(`frames_kept`). A TCP connect that outlives its timeout comes back to an entry that has another connection by then.

## Contents
- **Histories.** `Kept`, `Framed`.
- **Orderly channels.** `Orderly`, and its cases with and without a connection.
- **Steps.** `Orderly.step`.
- **Runs.** `frames_kept`.
- **Two connects** for one entry: `hello_on_other_socket`.
-/

namespace VizNode

namespace Network

open Files Channel

/-! ## Histories -/

/-- **The history of a connection**: of the frames that were submitted, some have been begun, some wait in the queue,
    in this order. -/
inductive Kept : List Frame → List Frame → List Frame → Prop
  | start : Kept [] [] []
  /-- Nothing waits: the frame is begun at once. -/
  | sent {S B : List Frame} {f : Frame} (h : Kept S B []) : Kept (S ++ [f]) (B ++ [f]) []
  | queued {S B Q : List Frame} {f : Frame} (h : Kept S B Q) : Kept (S ++ [f]) B (Q ++ [f])
  /-- A newer status in the place of a queued one. -/
  | replaced {S B Q₁ Q₂ : List Frame} {f g : Frame} (h : Kept S B (Q₁ ++ g :: Q₂))
      (hf : frameMsgType f = forkStatusMessageType) (hg : frameMsgType g = forkStatusMessageType) :
      Kept (S ++ [f]) B (Q₁ ++ f :: Q₂)
  | dropped {S B Q : List Frame} {f : Frame} (h : Kept S B Q) (hfull : sendQueueMaxDepth ≤ Q.length)
      (hf : isDroppableWhenFull (frameMsgType f) = true) : Kept (S ++ [f]) B Q
  | begun {S B Q : List Frame} {f : Frame} (h : Kept S B (f :: Q)) : Kept S (B ++ [f]) Q

/-- Frames that must not be dropped are all there. -/
theorem Kept.exact {S B Q : List Frame} (h : Kept S B Q)
    (hS : ∀ f ∈ S, isDroppableWhenFull (frameMsgType f) = false) : B ++ Q = S := by
  have hlast : ∀ {S : List Frame} {f : Frame}, (∀ g ∈ S ++ [f], isDroppableWhenFull (frameMsgType g) = false) →
      (∀ g ∈ S, isDroppableWhenFull (frameMsgType g) = false) ∧ isDroppableWhenFull (frameMsgType f) = false :=
    fun h => ⟨fun g hg => h g (List.mem_append_left _ hg), h _ (List.mem_append_right _ List.mem_cons_self)⟩
  induction h with
  | start => rfl
  | sent h ih =>
      have hB := ih (hlast hS).1
      rw [List.append_nil] at hB ⊢
      rw [hB]
  | queued h ih => rw [← List.append_assoc, ih (hlast hS).1]
  | replaced h hf hg ih =>
      have hno := (hlast hS).2
      rw [hf] at hno
      cases hno
  | dropped h hfull hf ih => exact absurd (hf.symm.trans (hlast hS).2) (by decide)
  | begun h ih => rw [List.append_assoc, List.singleton_append, ih hS]

/-- The bytes of a writer's buffer that the socket has not taken. -/
def Writer.unsent (w : Writer) : Bytes := w.rest.drop (w.ack.getD 0)

/-- **A socket is framed.** Its bytes are those of whole frames, kept from what was submitted for it, the last frame
    possibly in part. While it is the connection nothing that was kept is lost: what is not written is with the one
    writer or in the queue. -/
def Framed (c : Channel) (k : Nat) : Prop :=
  ∃ S B Q, S <+: (c.sockets k).submitted ∧ Kept S B Q ∧ (c.sockets k).written <+: B.flatten ∧
    (c.connection = some k → S = (c.sockets k).submitted ∧ c.entry.map PeerEntry.sendQueue = some Q ∧
      (c.sockets k).written ++ (c.writers.map Writer.unsent).flatten = B.flatten)

/-! ## Orderly channels -/

/-- The connection: there is no writer and nothing to write, or the one writer has what is not written. -/
inductive Writing (c : Channel) (k : Nat) (B Q : List Frame) : Prop
  | idle (hs : c.sending = false) (hw : c.writers = []) (hQ : Q = []) (hb : (c.sockets k).written = B.flatten)
  | busy {w : Writer} (hs : c.sending = true) (hw : c.writers = [w]) (hk : w.socket = k)
      (hack : w.ack.getD 0 ≤ w.rest.length) (hb : (c.sockets k).written ++ w.unsent = B.flatten)

/-- **The channel is orderly.** -/
structure Orderly (c : Channel) : Prop where
  within  : ∀ k, c.connection = some k → k < c.count
  opened  : ∀ k, (c.sockets k).isOpen = true → c.connection = some k
  fibers  : ∀ w ∈ c.writers, w.socket < c.count
  owned   : c.sending = true → c.writers ≠ []
  waiting : ∀ e, c.entry = some e → e.sendQueue ≠ [] → c.sending = true ∨ c.disconnecting = true
  closing : c.disconnecting = true → c.connection = none
  closed  : ∀ k < c.count, c.connection ≠ some k →
    ∃ S B Q, S <+: (c.sockets k).submitted ∧ Kept S B Q ∧ (c.sockets k).written <+: B.flatten
  current : ∀ k, c.connection = some k →
    ∃ e B, c.entry = some e ∧ Kept (c.sockets k).submitted B e.sendQueue ∧ Writing c k B e.sendQueue

section Orderly

variable {c c' : Channel} {k : Nat} {e : PeerEntry} {m : Message}

theorem Orderly.framed (h : Orderly c) (hk : k < c.count) : Framed c k := by
  by_cases hc : c.connection = some k
  · obtain ⟨e, B, he, hkept, hwriting⟩ := h.current k hc
    have hbytes : (c.sockets k).written ++ (c.writers.map Writer.unsent).flatten = B.flatten := by
      cases hwriting with
      | idle hs hw hQ hb =>
          rw [hw, hb]
          exact List.append_nil _
      | busy hs hw hk hack hb =>
          rw [hw, ← hb, List.map_singleton, List.flatten_singleton]
    refine ⟨_, B, e.sendQueue, List.prefix_refl _, hkept, ⟨_, hbytes⟩, fun _ => ⟨rfl, ?_, hbytes⟩⟩
    rw [he]
    rfl
  · obtain ⟨S, B, Q, hS, hkept, hb⟩ := h.closed k hk hc
    exact ⟨S, B, Q, hS, hkept, hb, fun hk => absurd hk hc⟩

/-- An orderly connection that is closed. -/
theorem Orderly.closed_all (h : Orderly c) (hk : k < c.count) :
    ∃ S B Q, S <+: (c.sockets k).submitted ∧ Kept S B Q ∧ (c.sockets k).written <+: B.flatten := by
  obtain ⟨S, B, Q, hS, hkept, hb, -⟩ := h.framed hk
  exact ⟨S, B, Q, hS, hkept, hb⟩

/-- **Without a connection** the sockets are as they were, and the flags have to tell the truth. -/
theorem Orderly.disconnected (h : Orderly c) (hnone : c'.connection = none) (hcount : c'.count = c.count)
    (hsockets : ∀ k, (c'.sockets k).isOpen = false ∧ (c'.sockets k).written = (c.sockets k).written ∧
      (c.sockets k).submitted <+: (c'.sockets k).submitted)
    (hfibers : ∀ w ∈ c'.writers, w.socket < c.count) (howned : c'.sending = true → c'.writers ≠ [])
    (hwaiting : ∀ e, c'.entry = some e → e.sendQueue ≠ [] → c'.sending = true ∨ c'.disconnecting = true) :
    Orderly c' where
  within  := fun k hk => by rw [hnone] at hk; cases hk
  opened  := fun k hk => by rw [(hsockets k).1] at hk; cases hk
  fibers  := by rw [hcount]; exact hfibers
  owned   := howned
  waiting := hwaiting
  closing := fun _ => hnone
  closed  := by
    intro k hk _
    rw [hcount] at hk
    obtain ⟨S, B, Q, hS, hkept, hb⟩ := h.closed_all hk
    refine ⟨S, B, Q, hS.trans (hsockets k).2.2, hkept, ?_⟩
    rw [(hsockets k).2.1]
    exact hb
  current := fun k hk => by rw [hnone] at hk; cases hk

/-- **With the same connection** only its own socket has changed. -/
theorem Orderly.connected (h : Orderly c) (hk : c.connection = some k) (hconn : c'.connection = some k)
    (hcount : c'.count = c.count) (hdisc : c'.disconnecting = c.disconnecting)
    (hoff : ∀ j ≠ k, c'.sockets j = c.sockets j) (hfibers : ∀ w ∈ c'.writers, w.socket = k)
    {B : List Frame} (he : c'.entry = some e) (hkept : Kept (c'.sockets k).submitted B e.sendQueue)
    (hwriting : Writing c' k B e.sendQueue) : Orderly c' where
  within  := by
    intro j hj
    rw [hconn] at hj
    rw [← Option.some.inj hj, hcount]
    exact h.within k hk
  opened  := by
    intro j hj
    by_cases hjk : j = k
    · rw [hjk, hconn]
    · rw [hoff j hjk] at hj
      exact absurd (Option.some.inj ((h.opened j hj).symm.trans hk)) hjk
  fibers  := by
    intro w hw
    rw [hfibers w hw, hcount]
    exact h.within k hk
  owned   := by
    intro hs
    cases hwriting with
    | idle hs' hw hQ hb => exact absurd (hs.symm.trans hs') (by decide)
    | busy hs' hw hk hack hb =>
        rw [hw]
        exact List.cons_ne_nil _ _
  waiting := by
    intro e' he' hq
    cases hwriting with
    | idle hs hw hQ hb =>
        rw [Option.some.inj (he'.symm.trans he)] at hq
        exact absurd hQ hq
    | busy hs hw hk hack hb => exact .inl hs
  closing := by
    intro hd
    rw [hdisc] at hd
    rw [h.closing hd] at hk
    cases hk
  closed  := by
    intro j hj hne
    have hjk : j ≠ k := fun he => hne (by rw [hconn, he])
    rw [hcount] at hj
    rw [hoff j hjk]
    exact h.closed j hj (fun hc => hjk (Option.some.inj (hc.symm.trans hk)))
  current := by
    intro j hj
    obtain rfl : k = j := Option.some.inj (hconn.symm.trans hj)
    exact ⟨e, B, he, hkept, hwriting⟩

end Orderly

/-! ## Steps -/

section Steps

variable {c c' : Channel} {k : Nat} {e : PeerEntry} {m : Message} {w : Writer} {f : Frame}

theorem updateSocket_self {g : Socket → Socket} : (c.updateSocket k g).sockets k = g (c.sockets k) :=
  Function.update_self k _ _

theorem updateSocket_ne {g : Socket → Socket} {j : Nat} (h : j ≠ k) : (c.updateSocket k g).sockets j = c.sockets j :=
  Function.update_of_ne h _ _

/-- A channel whose connection is closed. -/
theorem closeConnection_spec (h : ∀ k, (c.sockets k).isOpen = true → c.connection = some k) :
    c.closeConnection.connection = none ∧ c.closeConnection.count = c.count ∧
      c.closeConnection.sending = c.sending ∧ c.closeConnection.disconnecting = c.disconnecting ∧
      c.closeConnection.entry = c.entry ∧ c.closeConnection.writers = c.writers ∧
      ∀ j, (c.closeConnection.sockets j).isOpen = false ∧
        (c.closeConnection.sockets j).written = (c.sockets j).written ∧
        (c.closeConnection.sockets j).submitted = (c.sockets j).submitted := by
  have hclosed : ∀ j, c.connection ≠ some j → (c.sockets j).isOpen = false :=
    fun j hj => by rw [← Bool.not_eq_true]; exact fun ho => hj (h j ho)
  unfold closeConnection
  cases hc : c.connection with
  | none => exact ⟨hc, rfl, rfl, rfl, rfl, rfl, fun j => ⟨hclosed j (by rw [hc]; exact fun hn => nomatch hn), rfl, rfl⟩⟩
  | some k =>
      refine ⟨rfl, rfl, rfl, rfl, rfl, rfl, fun j => ?_⟩
      dsimp only
      by_cases hj : j = k
      · rw [hj, updateSocket_self]
        exact ⟨rfl, rfl, rfl⟩
      · rw [updateSocket_ne hj]
        exact ⟨hclosed j (fun he => hj (Option.some.inj (he.symm.trans hc))), rfl, rfl⟩

/-- **The connection is torn down**, with a writer that has failed or a frame too many. -/
theorem Orderly.torn (h : Orderly c) {yields : Bool} (hconn : c'.connection = c.connection)
    (hcount : c'.count = c.count) (hdisc : c'.disconnecting = c.disconnecting) (hentry : c'.entry = c.entry)
    (hsockets : ∀ k, (c'.sockets k).isOpen = (c.sockets k).isOpen ∧ (c'.sockets k).written = (c.sockets k).written ∧
      (c.sockets k).submitted <+: (c'.sockets k).submitted)
    (hfibers : ∀ w ∈ c'.writers, w.socket < c.count) (howned : c'.sending = true → c'.writers ≠ []) :
    Orderly (c'.handleDisconnect yields) := by
  have hshut : c.connection = none → ∀ k, (c'.sockets k).isOpen = false ∧ (c'.sockets k).written = (c.sockets k).written ∧
      (c.sockets k).submitted <+: (c'.sockets k).submitted := by
    intro hnone k
    refine ⟨?_, (hsockets k).2⟩
    rw [(hsockets k).1, ← Bool.not_eq_true]
    exact fun ho => by rw [h.opened k ho] at hnone; cases hnone
  unfold handleDisconnect
  by_cases hd : c'.disconnecting = true
  · rw [if_pos hd]
    have hnone := h.closing (hdisc ▸ hd)
    exact h.disconnected (hconn.trans hnone) hcount (hshut hnone) hfibers howned (fun _ _ _ => .inr hd)
  · rw [if_neg hd]
    by_cases he : c'.entry = none
    · rw [if_pos he]
      have hnone : c.connection = none := by
        cases hc : c.connection with
        | none => rfl
        | some k =>
            obtain ⟨e, B, hsome, -⟩ := h.current k hc
            rw [hentry, hsome] at he
            cases he
      exact h.disconnected (hconn.trans hnone) hcount (hshut hnone) hfibers howned
        (fun e hsome _ => by rw [he] at hsome; cases hsome)
    · rw [if_neg he]
      obtain ⟨h₁, h₂, h₃, h₄, h₅, h₆, h₇⟩ := closeConnection_spec (c := { c' with disconnecting := true })
        (fun k hk => by rw [(hsockets k).1] at hk; exact hconn.trans (h.opened k hk))
      dsimp only
      generalize ({ c' with disconnecting := true } : Channel).closeConnection = d at h₁ h₂ h₃ h₄ h₅ h₆ h₇
      have hold : ∀ k, (d.sockets k).isOpen = false ∧ (d.sockets k).written = (c.sockets k).written ∧
          (c.sockets k).submitted <+: (d.sockets k).submitted := by
        intro k
        obtain ⟨ho, hw, hs⟩ := h₇ k
        rw [hw, hs]
        exact ⟨ho, (hsockets k).2⟩
      have hfib : ∀ w ∈ d.writers, w.socket < c.count := by rw [h₆]; exact hfibers
      by_cases hy : yields = true
      · rw [if_pos hy]
        exact h.disconnected h₁ (h₂.trans hcount) hold hfib (by rw [h₃, h₆]; exact howned) (fun _ _ _ => .inr h₄)
      · rw [if_neg hy]
        have hdone : d.finishDisconnect.connection = none := h₁
        refine h.disconnected hdone (h₂.trans hcount) hold hfib (fun hs => nomatch hs) ?_
        intro e hsome hq
        obtain ⟨e', -, hcut⟩ := Option.bind_eq_some_iff.mp hsome
        by_cases hin : e'.isIncoming = true
        · rw [if_pos hin] at hcut
          cases hcut
        · rw [if_neg hin] at hcut
          rw [← Option.some.inj hcut] at hq
          exact absurd rfl hq

theorem Orderly.disconnect (h : Orderly c) {yields : Bool} : Orderly (c.handleDisconnect yields) :=
  h.torn rfl rfl rfl rfl (fun _ => ⟨rfl, rfl, List.prefix_refl _⟩) h.fibers h.owned

/-- A frame has the type of its message. -/
theorem frameMsgType_frame : frameMsgType m.frame = m.msgType.toNat := by
  have hlen : 8 ≤ m.frame.length := by
    unfold Message.frame
    rw [List.length_append, List.length_append, encode_length, encode_length]
    omega
  unfold frameMsgType
  rw [if_pos hlen]
  unfold Message.frame
  rw [List.append_assoc, List.drop_left' encode_length, List.take_left' encode_length]
  exact decode_encode (m.msgType.toNat_lt)

/-- The status that is replaced. -/
theorem replaceStatus_eq {q : List Frame} (h : ∃ g ∈ q, frameMsgType g = forkStatusMessageType) :
    ∃ q₁ g q₂, q = q₁ ++ g :: q₂ ∧ frameMsgType g = forkStatusMessageType ∧ replaceStatus f q = q₁ ++ f :: q₂ := by
  induction q with
  | nil =>
      obtain ⟨g, hg, -⟩ := h
      cases hg
  | cons a q ih =>
      unfold replaceStatus
      by_cases ha : frameMsgType a = forkStatusMessageType
      · rw [if_pos ha]
        exact ⟨[], a, q, rfl, ha, rfl⟩
      · rw [if_neg ha]
        obtain ⟨g, hg, htype⟩ := h
        rcases List.mem_cons.mp hg with rfl | hg
        · exact absurd htype ha
        · obtain ⟨q₁, g', q₂, hq, hg', hrep⟩ := ih ⟨g, hg, htype⟩
          refine ⟨a :: q₁, g', q₂, ?_, hg', ?_⟩
          · rw [hq]
            rfl
          · rw [hrep]
            rfl

theorem drainSendQueue_eq (h : c.connection = some k) :
    c.drainSendQueue f = { c with writers := c.writers ++ [{ socket := k, rest := f }] } := by
  unfold drainSendQueue
  rw [h]

theorem setQueue_eq {q : List Frame} (h : c.entry = some e) :
    c.setQueue q = { c with entry := some { e with sendQueue := q } } := by
  unfold setQueue
  rw [h]
  rfl

/-- **A message is sent.** -/
theorem Orderly.sendMessage (h : Orderly c) {yields : Bool} : Orderly (c.sendMessage yields m) := by
  unfold Channel.sendMessage
  cases hc : c.connection with
  | none => exact h
  | some k =>
      dsimp only
      obtain ⟨e, B, he, hkept, hwriting⟩ := h.current k hc
      have hself : (c.updateSocket k (fun s => { s with submitted := s.submitted ++ [m.frame] })).sockets k =
          { c.sockets k with submitted := (c.sockets k).submitted ++ [m.frame] } := updateSocket_self
      have hoff : ∀ j ≠ k, (c.updateSocket k (fun s => { s with submitted := s.submitted ++ [m.frame] })).sockets j =
          c.sockets j := fun j hj => updateSocket_ne hj
      have hentry : (c.updateSocket k (fun s => { s with submitted := s.submitted ++ [m.frame] })).entry = some e := he
      have hrest : ∀ d : Channel, c.updateSocket k (fun s => { s with submitted := s.submitted ++ [m.frame] }) = d →
          d.connection = some k ∧ d.count = c.count ∧ d.disconnecting = c.disconnecting ∧ d.sending = c.sending ∧
            d.writers = c.writers := by
        rintro d rfl
        exact ⟨hc, rfl, rfl, rfl, rfl⟩
      generalize hd : c.updateSocket k (fun s => { s with submitted := s.submitted ++ [m.frame] }) = d at hself hoff hentry ⊢
      obtain ⟨hdc, hcount, hdisc, hsend, hwr⟩ := hrest d hd
      cases hwriting with
      | idle hs hw hQ hb =>
          rw [if_neg (by rw [hsend, hs]; decide), drainSendQueue_eq (c := { d with sending := true }) hdc]
          rw [hQ] at hkept
          refine h.connected (k := k) (e := e) (B := B ++ [m.frame]) hc hdc hcount hdisc hoff ?_ hentry ?_ ?_
          · intro w hw'
            rw [hwr, hw] at hw'
            rw [List.mem_singleton.mp hw']
          · show Kept (d.sockets k).submitted _ _
            rw [hself, hQ]
            exact .sent hkept
          · refine .busy (w := { socket := k, rest := m.frame }) rfl (by rw [hwr, hw]; rfl) rfl (Nat.zero_le _) ?_
            show (d.sockets k).written ++ m.frame = _
            rw [hself, List.flatten_append, List.flatten_singleton, hb]
      | busy hs hw hk hack hb =>
          rename_i w
          have hfib : ∀ w' ∈ d.writers, w'.socket = k := by
            intro w' hw'
            rw [hwr, hw] at hw'
            rw [List.mem_singleton.mp hw']
            exact hk
          -- whatever becomes of the queue, the writer goes on
          have hqueue : ∀ q, Kept ((c.sockets k).submitted ++ [m.frame]) B q → Orderly (d.setQueue q) := by
            intro q hq
            rw [setQueue_eq hentry]
            refine h.connected (k := k) (B := B) hc hdc hcount hdisc hoff hfib rfl ?_ ?_
            · show Kept (d.sockets k).submitted _ _
              rw [hself]
              exact hq
            · refine .busy (w := w) (hsend.trans hs) (hwr.trans hw) hk hack ?_
              show (d.sockets k).written ++ _ = _
              rw [hself]
              exact hb
          have hdrop : isDroppableWhenFull m.msgType.toNat = true → sendQueueMaxDepth ≤ e.sendQueue.length →
              Orderly d := by
            intro hdroppable hfull
            have hsame : d.setQueue e.sendQueue = d := by
              rw [setQueue_eq hentry]
              obtain ⟨sockets, count, connection, sending, disconnecting, entry, writers, connecting⟩ := d
              dsimp only at hentry
              rw [hentry]
            rw [← hsame]
            exact hqueue _ (.dropped hkept hfull (by rw [frameMsgType_frame]; exact hdroppable))
          rw [if_pos (hsend.trans hs), hentry]
          dsimp only
          by_cases hrep : m.msgType.toNat = forkStatusMessageType ∧
              ∃ f ∈ e.sendQueue, frameMsgType f = forkStatusMessageType
          · rw [if_pos hrep]
            obtain ⟨q₁, g, q₂, hq, hg, hnew⟩ := replaceStatus_eq (f := m.frame) hrep.2
            rw [hnew]
            rw [hq] at hkept
            exact hqueue _ (.replaced hkept (frameMsgType_frame.trans hrep.1) hg)
          · rw [if_neg hrep]
            by_cases hroom : e.sendQueue.length < sendQueueMaxDepth
            · rw [if_pos hroom]
              exact hqueue _ (.queued hkept)
            · rw [if_neg hroom]
              by_cases hdroppable : isDroppableWhenFull m.msgType.toNat = true
              · rw [if_pos hdroppable]
                exact hdrop hdroppable (Nat.not_lt.mp hroom)
              · have hnot : ¬ d.disconnecting = true := by
                  intro hd'
                  rw [h.closing (hdisc ▸ hd')] at hc
                  cases hc
                rw [if_neg hdroppable, if_neg hnot]
                refine h.torn (hdc.trans hc.symm) hcount hdisc (hentry.trans he.symm) ?_ ?_ ?_
                · intro j
                  by_cases hj : j = k
                  · rw [hj, hself]
                    exact ⟨rfl, rfl, List.prefix_append _ _⟩
                  · rw [hoff j hj]
                    exact ⟨rfl, rfl, List.prefix_refl _⟩
                · rw [hwr]
                  exact h.fibers
                · rw [hsend, hwr]
                  exact h.owned

/-- **A connection is opened** where the last one is gone, with its fibers. -/
theorem Orderly.openConnection (h : Orderly c) (hnone : c.connection = none) (hw : c.writers = [])
    (hd : c.disconnecting = false) (he : c.entry = some e) : Orderly c.openConnection := by
  have hs : c.sending = false := by
    rw [← Bool.not_eq_true]
    exact fun hs => h.owned hs hw
  have hq : e.sendQueue = [] := by
    by_contra hq
    rcases h.waiting e he hq with hs' | hd'
    · exact absurd (hs'.symm.trans hs) (by decide)
    · exact absurd (hd'.symm.trans hd) (by decide)
  have hself : c.openConnection.sockets c.count = { isOpen := true } :=
    updateSocket_self (c := c) (g := fun _ => { isOpen := true })
  have hoff : ∀ j ≠ c.count, c.openConnection.sockets j = c.sockets j :=
    fun j hj => updateSocket_ne (c := c) (g := fun _ => { isOpen := true }) hj
  have hlt : ∀ k < c.count, k ≠ c.count := fun k hk => Nat.ne_of_lt hk
  refine ⟨?_, ?_, ?_, ?_, ?_, ?_, ?_, ?_⟩
  · intro k hk
    rw [← Option.some.inj hk]
    exact Nat.lt_succ_self _
  · intro k hk
    by_cases hkc : k = c.count
    · rw [hkc]
      rfl
    · rw [hoff k hkc] at hk
      rw [h.opened k hk] at hnone
      cases hnone
  · intro w hmem
    exact Nat.lt_succ_of_lt (h.fibers w hmem)
  · exact h.owned
  · exact h.waiting
  · intro hd'
    exact absurd (hd'.symm.trans hd) (by decide)
  · intro k hk hne
    have hkc : k ≠ c.count := fun hk' => hne (by rw [hk']; rfl)
    have hk' : k < c.count := by
      have hk : k < c.count + 1 := hk
      omega
    rw [hoff k hkc]
    exact h.closed k hk' (by rw [hnone]; exact fun hn => nomatch hn)
  · intro k hk
    obtain rfl : c.count = k := Option.some.inj hk
    refine ⟨e, [], he, ?_, ?_⟩
    · rw [hself, hq]
      exact .start
    · exact .idle hs hw hq (by rw [hself]; rfl)

/-- The connection is gone, and no fiber of it is left: none writes, and none waits in `handle_disconnect`. -/
def Quiet (c : Channel) : Prop := c.connection = none ∧ c.writers = [] ∧ c.disconnecting = false

/-- **No connection comes before the last one is gone**: where `connect_to_peer` resets the entry there is no
    connection, and where a TCP connect comes back no fiber of one is left either. -/
def Settled (c : Channel) : Action → Prop
  | .connectToPeer => ∀ e, c.entry = some e → e.lifecycle = .disconnected ∨ e.lifecycle = .banned → c.connection = none
  | .connected _   => Quiet c
  | _              => True

/-- **The bytes are taken.** -/
theorem Orderly.written (h : Orderly c) {i n : Nat} (hw : c.writers[i]? = some w) (hack : w.ack = none)
    (hn : n ≤ w.rest.length) (hopen : (c.sockets w.socket).isOpen = true) :
    Orderly { c.updateSocket w.socket (fun s => { s with written := s.written ++ w.rest.take n }) with
      writers := c.writers.set i { w with ack := some n } } := by
  have hc := h.opened _ hopen
  obtain ⟨e, B, he, hkept, hwriting⟩ := h.current _ hc
  cases hwriting with
  | idle hs hnil hQ hb =>
      rw [hnil] at hw
      cases hw
  | busy hs hone hk hle hb =>
      rename_i w'
      rw [hone] at hw
      obtain ⟨rfl, rfl⟩ : i = 0 ∧ w' = w := by
        cases i with
        | zero => exact ⟨rfl, Option.some.inj hw⟩
        | succ i => cases hw
      have hset : c.writers.set 0 { w' with ack := some n } = [{ w' with ack := some n }] := by
        rw [hone]
        rfl
      have hself : (c.updateSocket w'.socket (fun s => { s with written := s.written ++ w'.rest.take n })).sockets
          w'.socket = { c.sockets w'.socket with written := (c.sockets w'.socket).written ++ w'.rest.take n } :=
        updateSocket_self
      refine h.connected (k := w'.socket) (B := B) hc hc rfl rfl (fun j hj => by dsimp only; exact updateSocket_ne hj)
        ?_ he ?_ ?_
      · intro x hx
        rw [hset] at hx
        rw [List.mem_singleton.mp hx]
      · dsimp only
        rw [hself]
        exact hkept
      · refine .busy (w := { w' with ack := some n }) hs hset rfl hn ?_
        dsimp only
        rw [hself, ← hb]
        unfold Writer.unsent
        rw [hack]
        show (c.sockets w'.socket).written ++ w'.rest.take n ++ w'.rest.drop n = _ ++ w'.rest.drop 0
        rw [List.append_assoc, List.take_append_drop, List.drop_zero]

theorem mem_of_set {l : List Writer} {i : Nat} {x y : Writer} (h : x ∈ l.set i y) : x ∈ l ∨ x = y :=
  List.mem_or_eq_of_mem_set h

theorem set_ne_nil {l : List Writer} {i : Nat} {y : Writer} (h : l ≠ []) : l.set i y ≠ [] := by
  intro hn
  have hlen : (l.set i y).length = 0 := by rw [hn]; rfl
  rw [List.length_set] at hlen
  exact h (List.eq_nil_of_length_eq_zero hlen)

theorem nextFrame_none {i : Nat} (h : c.entry = none) :
    c.nextFrame i w = { c with writers := c.writers.eraseIdx i, sending := false } := by
  unfold nextFrame
  rw [h]

theorem nextFrame_nil {i : Nat} (h : c.entry = some e) (hq : e.sendQueue = []) :
    c.nextFrame i w = { c with writers := c.writers.eraseIdx i, sending := false } := by
  unfold nextFrame
  rw [h]
  dsimp only
  rw [hq]

theorem nextFrame_cons {i : Nat} {q : List Frame} (h : c.entry = some e) (hq : e.sendQueue = f :: q) :
    c.nextFrame i w = { c with
      entry   := some { e with sendQueue := q }
      writers := c.writers.set i { socket := w.socket, rest := f } } := by
  unfold nextFrame
  rw [h]
  dsimp only
  rw [hq]
  dsimp only
  rw [setQueue_eq h]

/-- **A writer goes on.** -/
theorem Orderly.resume (h : Orderly c) {i n : Nat} (hw : c.writers[i]? = some w) (hack : w.ack = some n) :
    Orderly (if w.rest.drop n ≠ [] then
      { c with writers := c.writers.set i { socket := w.socket, rest := w.rest.drop n } } else c.nextFrame i w) := by
  have hmem : w ∈ c.writers := List.mem_of_getElem? hw
  have hne : c.writers ≠ [] := List.ne_nil_of_mem hmem
  by_cases hc : c.connection = none
  · have hsockets : ∀ k, (c.sockets k).isOpen = false ∧ (c.sockets k).written = (c.sockets k).written ∧
        (c.sockets k).submitted <+: (c.sockets k).submitted := by
      intro k
      refine ⟨?_, rfl, List.prefix_refl _⟩
      rw [← Bool.not_eq_true]
      exact fun ho => by rw [h.opened k ho] at hc; cases hc
    have hset : ∀ r, ∀ x ∈ c.writers.set i { socket := w.socket, rest := r }, x.socket < c.count := by
      intro r x hx
      rcases mem_of_set hx with hx | rfl
      · exact h.fibers x hx
      · exact h.fibers w hmem
    have herase : ∀ x ∈ c.writers.eraseIdx i, x.socket < c.count :=
      fun x hx => h.fibers x (List.mem_of_mem_eraseIdx hx)
    by_cases hrest : w.rest.drop n ≠ []
    · rw [if_pos hrest]
      exact h.disconnected hc rfl hsockets (hset _) (fun _ => set_ne_nil hne) h.waiting
    · rw [if_neg hrest]
      by_cases he : c.entry = none
      · rw [nextFrame_none he]
        exact h.disconnected hc rfl hsockets herase (fun hs => nomatch hs)
          (fun e' he' => absurd (he.symm.trans he') (by simp))
      · obtain ⟨e, he⟩ := Option.ne_none_iff_exists'.mp he
        by_cases hq : e.sendQueue = []
        · rw [nextFrame_nil he hq]
          refine h.disconnected hc rfl hsockets herase (fun hs => nomatch hs) ?_
          intro e' he' hq'
          rw [← Option.some.inj (he.symm.trans he')] at hq'
          exact absurd hq hq'
        · obtain ⟨f, q, hfq⟩ := List.exists_cons_of_ne_nil hq
          rw [nextFrame_cons he hfq]
          exact h.disconnected hc rfl hsockets (hset _) (fun _ => set_ne_nil hne) (fun _ _ _ => h.waiting e he hq)
  · obtain ⟨k, hc⟩ := Option.ne_none_iff_exists'.mp hc
    obtain ⟨e, B, he, hkept, hwriting⟩ := h.current k hc
    cases hwriting with
    | idle hs hnil hQ hb => exact absurd hnil hne
    | busy hs hone hk hle hb =>
        rename_i w'
        rw [hone] at hw
        obtain ⟨rfl, rfl⟩ : i = 0 ∧ w' = w := by
          cases i with
          | zero => exact ⟨rfl, Option.some.inj hw⟩
          | succ i => cases hw
        have hunsent : w'.unsent = w'.rest.drop n := by
          unfold Writer.unsent
          rw [hack]
          rfl
        rw [hunsent] at hb
        have hset : ∀ r, c.writers.set 0 { socket := w'.socket, rest := r } = [{ socket := k, rest := r }] := by
          intro r
          rw [hone, hk]
          rfl
        have hfib : ∀ r, ∀ x ∈ c.writers.set 0 { socket := w'.socket, rest := r }, x.socket = k := by
          intro r x hx
          rw [hset] at hx
          rw [List.mem_singleton.mp hx]
        by_cases hrest : w'.rest.drop n ≠ []
        · rw [if_pos hrest]
          exact h.connected (k := k) (B := B) hc hc rfl rfl (fun _ _ => rfl) (hfib _) he hkept
            (.busy hs (hset _) rfl (Nat.zero_le _) hb)
        · rw [if_neg hrest]
          have hdone : (c.sockets k).written = B.flatten := by
            rw [← hb, not_not.mp hrest, List.append_nil]
          by_cases hq : e.sendQueue = []
          · have herase : c.writers.eraseIdx 0 = [] := by rw [hone]; rfl
            rw [nextFrame_nil he hq]
            refine h.connected (k := k) (B := B) hc hc rfl rfl (fun _ _ => rfl) ?_ he hkept ?_
            · intro x hx
              dsimp only at hx
              rw [herase] at hx
              cases hx
            · exact .idle rfl herase hq hdone
          · obtain ⟨f, q, hfq⟩ := List.exists_cons_of_ne_nil hq
            rw [nextFrame_cons he hfq]
            rw [hfq] at hkept
            refine h.connected (k := k) (B := B ++ [f]) hc hc rfl rfl (fun _ _ => rfl) (hfib _) rfl (.begun hkept) ?_
            refine .busy hs (hset _) rfl (Nat.zero_le _) ?_
            show (c.sockets k).written ++ f = _
            rw [hdone, List.flatten_append, List.flatten_singleton]

/-- Behind `cancel_and_wait`. -/
theorem Orderly.finishDisconnect (h : Orderly c) (hd : c.disconnecting = true) : Orderly c.finishDisconnect := by
  have hnone := h.closing hd
  refine h.disconnected hnone rfl ?_ h.fibers (fun hs => nomatch hs) ?_
  · intro k
    refine ⟨?_, rfl, List.prefix_refl _⟩
    rw [← Bool.not_eq_true]
    exact fun ho => by rw [h.opened k ho] at hnone; cases hnone
  · intro e he hq
    obtain ⟨e', -, hcut⟩ := Option.bind_eq_some_iff.mp he
    by_cases hin : e'.isIncoming = true
    · rw [if_pos hin] at hcut
      cases hcut
    · rw [if_neg hin] at hcut
      rw [← Option.some.inj hcut] at hq
      exact absurd rfl hq

/-- Fields that the flags do not depend on. -/
theorem Orderly.entry (h : Orderly c) {g : PeerEntry → PeerEntry} (hg : ∀ e, (g e).sendQueue = e.sendQueue) {n : Nat} :
    Orderly { c with entry := c.entry.map g, connecting := n } where
  within  := h.within
  opened  := h.opened
  fibers  := h.fibers
  owned   := h.owned
  waiting := by
    intro e he hq
    obtain ⟨e', he', rfl⟩ := Option.map_eq_some_iff.mp he
    rw [hg] at hq
    exact h.waiting e' he' hq
  closing := h.closing
  closed  := h.closed
  current := by
    intro k hk
    obtain ⟨e, B, he, hkept, hwriting⟩ := h.current k hk
    refine ⟨g e, B, ?_, ?_, ?_⟩
    · show c.entry.map g = _
      rw [he]
      rfl
    · rw [hg]
      exact hkept
    · rw [hg]
      cases hwriting with
      | idle hs hw hQ hb => exact .idle hs hw hQ hb
      | busy hs hw hk hack hb => exact .busy hs hw hk hack hb

/-- A connect is under way for an entry that is there, and not an incoming one. -/
def Known (c : Channel) : Prop := 0 < c.connecting → ∃ e, c.entry = some e ∧ e.isIncoming = false

theorem Known.finish (h : Known c) : Known c.finishDisconnect := by
  intro hn
  obtain ⟨e, he, hin⟩ := h hn
  refine ⟨{ e with lifecycle := .disconnected, sendQueue := [] }, ?_, hin⟩
  show c.entry.bind _ = _
  rw [he, Option.bind_some, if_neg (by rw [hin]; decide)]

theorem closeConnection_entry : c.closeConnection.entry = c.entry ∧ c.closeConnection.connecting = c.connecting := by
  unfold closeConnection
  split
  · exact ⟨rfl, rfl⟩
  · exact ⟨rfl, rfl⟩

/-- What is known depends on the entry and on the connects. -/
theorem Known.congr (h : Known c) (he : c'.entry = c.entry) (hn : c'.connecting = c.connecting) : Known c' := by
  unfold Known
  rw [he, hn]
  exact h

theorem Known.map (h : Known c) {g : PeerEntry → PeerEntry} (hg : ∀ e, (g e).isIncoming = e.isIncoming)
    (he : c'.entry = c.entry.map g) (hn : c'.connecting ≤ c.connecting) : Known c' := by
  intro hpos
  obtain ⟨e, hsome, hin⟩ := h (Nat.lt_of_lt_of_le hpos hn)
  refine ⟨g e, ?_, (hg e).trans hin⟩
  rw [he, hsome]
  rfl

theorem Known.handle (h : Known c) {yields : Bool} : Known (c.handleDisconnect yields) := by
  obtain ⟨he, hn⟩ := closeConnection_entry (c := { c with disconnecting := true })
  have hclose : Known ({ c with disconnecting := true } : Channel).closeConnection := h.congr he hn
  unfold handleDisconnect
  by_cases hd : c.disconnecting = true
  · rw [if_pos hd]
    exact h
  · rw [if_neg hd]
    by_cases hnone : c.entry = none
    · rw [if_pos hnone]
      exact h
    · rw [if_neg hnone]
      dsimp only
      cases yields with
      | true => exact hclose
      | false => exact hclose.finish

theorem Known.send (h : Known c) {yields : Bool} : Known (c.sendMessage yields m) := by
  unfold sendMessage
  split
  · exact h
  · rename_i k hc
    dsimp only
    have hk : Known (c.updateSocket k (fun s => { s with submitted := s.submitted ++ [m.frame] })) := h.congr rfl rfl
    generalize c.updateSocket k (fun s => { s with submitted := s.submitted ++ [m.frame] }) = d at hk
    have hqueue : ∀ q, Known (d.setQueue q) := fun q =>
      hk.map (g := fun e => { e with sendQueue := q }) (fun _ => rfl) rfl (Nat.le_refl _)
    by_cases hs : d.sending = true
    · rw [if_pos hs]
      split
      · exact hk
      · split
        · exact hqueue _
        · split
          · exact hqueue _
          · split
            · exact hk
            · split
              · exact hk
              · exact hk.handle
    · rw [if_neg hs]
      unfold drainSendQueue
      split
      · exact hk.congr rfl rfl
      · exact hk.congr rfl rfl

theorem Known.next (h : Known c) {i : Nat} : Known (c.nextFrame i w) := by
  by_cases he : c.entry = none
  · rw [nextFrame_none he]
    exact h.congr rfl rfl
  · obtain ⟨e, he⟩ := Option.ne_none_iff_exists'.mp he
    by_cases hq : e.sendQueue = []
    · rw [nextFrame_nil he hq]
      exact h.congr rfl rfl
    · obtain ⟨f, q, hfq⟩ := List.exists_cons_of_ne_nil hq
      rw [nextFrame_cons he hfq]
      refine h.map (g := fun e => { e with sendQueue := q }) (fun _ => rfl) ?_ (Nat.le_refl _)
      rw [he]
      rfl

theorem Known.step (h : Known c) {a : Action} (ha : c.step a = some c') : Known c' := by
  cases a with
  | sendMessage yields m =>
      rw [← Option.some.inj ha]
      exact h.send
  | written i n =>
      simp only [Channel.step] at ha
      split at ha
      · split at ha
        · rw [← Option.some.inj ha]
          exact h.congr rfl rfl
        · cases ha
      · cases ha
  | resume i =>
      simp only [Channel.step] at ha
      split at ha
      · split at ha
        · split at ha
          · rw [← Option.some.inj ha]
            exact h.congr rfl rfl
          · rw [← Option.some.inj ha]
            exact h.next
        · cases ha
      · cases ha
  | fail i yields =>
      simp only [Channel.step] at ha
      split at ha
      · split at ha
        · rw [← Option.some.inj ha]
          have hfreed : Known { c with writers := c.writers.eraseIdx i, sending := false } := h.congr rfl rfl
          exact hfreed.handle
        · cases ha
      · cases ha
  | disconnect yields =>
      rw [← Option.some.inj ha]
      exact h.handle
  | disconnected =>
      simp only [Channel.step] at ha
      split at ha
      · rw [← Option.some.inj ha]
        exact h.finish
      · cases ha
  | ban =>
      rw [← Option.some.inj ha]
      refine h.map (g := fun e => { e with lifecycle := .banned }) (fun _ => rfl) rfl ?_
      exact Nat.le_of_eq closeConnection_entry.2
  | connectToPeer =>
      rw [← Option.some.inj ha]
      unfold Channel.connectToPeer
      split
      · exact h
      · split
        · intro _
          exact ⟨_, rfl, rfl⟩
        · exact h
  | connected hello =>
      simp only [Channel.step] at ha
      split at ha
      · rw [← Option.some.inj ha]
        apply Known.send
        exact h.map (g := fun e => { e with lifecycle := .handshaking }) (fun _ => rfl) rfl (Nat.sub_le _ _)
      · cases ha
  | connectFailed =>
      simp only [Channel.step] at ha
      split at ha
      · rw [← Option.some.inj ha]
        exact h.map (g := fun e => { e with lifecycle := .disconnected }) (fun _ => rfl) rfl (Nat.sub_le _ _)
      · cases ha
  | accepted hello =>
      simp only [Channel.step] at ha
      split at ha
      · rename_i hzero
        rw [← Option.some.inj ha]
        apply Known.send
        intro hpos
        exact absurd hzero.2.1 (Nat.ne_of_gt hpos)
      · cases ha

/-- **A settled step keeps the channel orderly.** -/
theorem Orderly.step (h : Orderly c) (hknown : Known c) {a : Action} (hsettled : Settled c a)
    (ha : c.step a = some c') : Orderly c' := by
  cases a with
  | sendMessage yields m =>
      rw [← Option.some.inj ha]
      exact h.sendMessage
  | written i n =>
      simp only [Channel.step] at ha
      split at ha
      · rename_i w hw
        split at ha
        · rename_i hcan
          rw [← Option.some.inj ha]
          exact h.written hw hcan.1 hcan.2.2.1 hcan.2.2.2
        · cases ha
      · cases ha
  | resume i =>
      simp only [Channel.step] at ha
      split at ha
      · rename_i w hw
        split at ha
        · rename_i n hn
          have hgoes := h.resume hw hn
          split at ha
          · rename_i hrest
            rw [if_pos hrest] at hgoes
            rw [← Option.some.inj ha]
            exact hgoes
          · rename_i hrest
            rw [if_neg hrest] at hgoes
            rw [← Option.some.inj ha]
            exact hgoes
        · cases ha
      · cases ha
  | fail i yields =>
      simp only [Channel.step] at ha
      split at ha
      · split at ha
        · rw [← Option.some.inj ha]
          refine h.torn rfl rfl rfl rfl (fun _ => ⟨rfl, rfl, List.prefix_refl _⟩) ?_ (fun hs => nomatch hs)
          exact fun x hx => h.fibers x (List.mem_of_mem_eraseIdx hx)
        · cases ha
      · cases ha
  | disconnect yields =>
      rw [← Option.some.inj ha]
      exact h.disconnect
  | disconnected =>
      simp only [Channel.step] at ha
      split at ha
      · rename_i hd
        rw [← Option.some.inj ha]
        exact h.finishDisconnect hd
      · cases ha
  | ban =>
      rw [← Option.some.inj ha]
      obtain ⟨h₁, h₂, h₃, h₄, h₅, h₆, h₇⟩ := closeConnection_spec h.opened
      refine h.disconnected h₁ h₂ ?_ ?_ ?_ ?_
      · intro j
        obtain ⟨ho, hw, hs⟩ := h₇ j
        exact ⟨ho, hw, hs ▸ List.prefix_refl _⟩
      · show ∀ w ∈ c.closeConnection.writers, _
        rw [h₆]
        exact h.fibers
      · show c.closeConnection.sending = true → c.closeConnection.writers ≠ []
        rw [h₃, h₆]
        exact h.owned
      · intro e he hq
        obtain ⟨e', he', rfl⟩ := Option.map_eq_some_iff.mp he
        show c.closeConnection.sending = true ∨ c.closeConnection.disconnecting = true
        rw [h₃, h₄]
        exact h.waiting e' he' hq
  | connectToPeer =>
      rw [← Option.some.inj ha]
      unfold Channel.connectToPeer
      split
      · exact h
      · rename_i e he
        split
        · rename_i hreset
          -- the entry is reset, its queue with it
          have hnone : c.connection = none := hsettled e he hreset
          refine h.disconnected hnone rfl ?_ h.fibers h.owned ?_
          · intro j
            refine ⟨?_, rfl, List.prefix_refl _⟩
            rw [← Bool.not_eq_true]
            exact fun ho => by rw [h.opened j ho] at hnone; cases hnone
          · intro e' he' hq
            rw [← Option.some.inj he'] at hq
            exact absurd rfl hq
        · exact h
  | connected hello =>
      simp only [Channel.step] at ha
      split at ha
      · rename_i hpos
        rw [← Option.some.inj ha]
        obtain ⟨hnone, hw, hd⟩ : Quiet c := hsettled
        obtain ⟨e, he, -⟩ := hknown hpos
        have hreset := h.entry (g := fun e => { e with lifecycle := .handshaking }) (fun _ => rfl) (n := c.connecting - 1)
        apply Orderly.sendMessage
        refine hreset.openConnection (e := { e with lifecycle := .handshaking }) hnone hw hd ?_
        show c.entry.map _ = _
        rw [he]
        rfl
      · cases ha
  | connectFailed =>
      simp only [Channel.step] at ha
      split at ha
      · rw [← Option.some.inj ha]
        exact h.entry (g := fun e => { e with lifecycle := .disconnected }) (fun _ => rfl)
      · cases ha
  | accepted hello =>
      simp only [Channel.step] at ha
      split at ha
      · rename_i hfresh
        rw [← Option.some.inj ha]
        obtain ⟨hcount, -, hd⟩ := hfresh
        -- the id is fresh: it has had no connection, so it has no fiber either
        have hnone : c.connection = none := by
          by_contra hc
          obtain ⟨k, hc⟩ := Option.ne_none_iff_exists'.mp hc
          have hk := h.within k hc
          omega
        have hw : c.writers = [] := by
          apply List.eq_nil_iff_forall_not_mem.mpr
          intro w hmem
          have hk := h.fibers w hmem
          omega
        apply Orderly.sendMessage
        refine Orderly.openConnection ?_ hnone hw hd rfl
        refine h.disconnected hnone rfl ?_ h.fibers h.owned ?_
        · intro j
          refine ⟨?_, rfl, List.prefix_refl _⟩
          rw [← Bool.not_eq_true]
          exact fun ho => by rw [h.opened j ho] at hnone; cases hnone
        · intro e he hq
          rw [← Option.some.inj he] at hq
          exact absurd rfl hq
      · cases ha

end Steps

/-! ## Runs -/

/-- What the node keeps for an id that has had no connection. -/
theorem orderly_start : Orderly {} where
  within  := fun k hk => nomatch hk
  opened  := fun k hk => nomatch hk
  fibers  := fun w hw => nomatch hw
  owned   := fun hs => nomatch hs
  waiting := by
    intro e he hq
    rw [← Option.some.inj he] at hq
    exact absurd rfl hq
  closing := fun hd => nomatch hd
  closed  := fun k hk => absurd hk (Nat.not_lt_zero k)
  current := fun k hk => nomatch hk

/-- **A run of the fibers**: their actions one after another, in any order in which they can happen. -/
inductive Run (allowed : Channel → Action → Prop) : Channel → Prop
  | start : Run allowed {}
  | step {c c' : Channel} {a : Action} (h : Run allowed c) (hallowed : allowed c a) (ha : c.step a = some c') :
      Run allowed c'

/-- The actions of a list, one after another, where each is allowed. -/
def Channel.run (allowed : Channel → Action → Prop) [∀ c a, Decidable (allowed c a)] :
    List Action → Channel → Option Channel
  | [], c      => some c
  | a :: as, c => if allowed c a then (c.step a).bind (run allowed as) else none

theorem Run.append {allowed : Channel → Action → Prop} [∀ c a, Decidable (allowed c a)] {as : List Action} :
    ∀ {c c' : Channel}, Run allowed c → Channel.run allowed as c = some c' → Run allowed c' := by
  induction as with
  | nil =>
      intro c c' h hr
      rw [← Option.some.inj hr]
      exact h
  | cons a as ih =>
      intro c c' h hr
      unfold Channel.run at hr
      by_cases hall : allowed c a
      · rw [if_pos hall] at hr
        obtain ⟨d, hd, hr⟩ := Option.bind_eq_some_iff.mp hr
        exact ih (h.step hall hd) hr
      · rw [if_neg hall] at hr
        cases hr

instance (c : Channel) (a : Action) : Decidable (Settled c a) :=
  match a with
  | .connectToPeer =>
      inferInstanceAs (Decidable (∀ e ∈ c.entry, e.lifecycle = .disconnected ∨ e.lifecycle = .banned →
        c.connection = none))
  | .connected _ =>
      inferInstanceAs (Decidable (c.connection = none ∧ c.writers = [] ∧ c.disconnecting = false))
  | .sendMessage _ _ | .written _ _ | .resume _ | .fail _ _ | .disconnect _ | .disconnected | .ban |
    .connectFailed | .accepted _ => isTrue trivial

theorem Run.orderly {c : Channel} (h : Run Settled c) : Orderly c ∧ Known c := by
  induction h with
  | start => exact ⟨orderly_start, fun hpos => absurd hpos (Nat.lt_irrefl 0)⟩
  | step h hs ha ih => exact ⟨ih.1.step ih.2 hs ha, ih.2.step ha⟩

/-- **The wire is framed.** In a run in which no connection of the peer comes before the last one is gone, every
    socket carries whole frames of its own, in order. -/
theorem frames_kept {c : Channel} (h : Run Settled c) {k : Nat} (hk : k < c.count) : Framed c k :=
  h.orderly.1.framed hk

namespace Sample

/-- Two hellos and a message of the peer. -/
def hello₁ : Message := { msgType := 5100, data := [1] }
def hello₂ : Message := { msgType := 5100, data := [2] }
def status : Message := { msgType := 5109, data := [3, 3] }

/-- A connection that is closed with a frame half written, and the next one. -/
def reconnects : List Action :=
  [.connectToPeer, .connected hello₁, .written 0 9, .sendMessage false status, .resume 0, .written 0 4,
    .disconnect true, .resume 0, .fail 0 false, .disconnected, .connectToPeer, .connected hello₂, .written 0 9]

end Sample

open Sample in
theorem frames_kept_sample : ∃ c, Run Settled c ∧ c.count = 2 ∧
    (c.sockets 0).written = hello₁.frame ++ status.frame.take 4 ∧ (c.sockets 1).written = hello₂.frame ∧
    Framed c 0 ∧ Framed c 1 := by
  have hends : (Channel.run Settled reconnects {}).any (fun c => decide (c.count = 2 ∧
      (c.sockets 0).written = hello₁.frame ++ status.frame.take 4 ∧ (c.sockets 1).written = hello₂.frame)) = true := by
    decide +kernel
  obtain ⟨c, hc, hfacts⟩ := (Option.any_eq_true _ _).mp hends
  obtain ⟨hcount, h₀, h₁⟩ := of_decide_eq_true hfacts
  have hrun : Run Settled c := Run.start.append hc
  refine ⟨c, hrun, hcount, h₀, h₁, frames_kept hrun ?_, frames_kept hrun ?_⟩
  · omega
  · omega

/-! ## Two connects -/

namespace Sample

/-- A TCP connect outlives its timeout, and a second one is made; both come back. The hello of the second is queued
    behind that of the first, whose writer has the other socket. -/
def crossed : List Action :=
  [.connectToPeer, .disconnect false, .connectToPeer, .connected hello₁, .connected hello₂,
    .written 0 9, .resume 0, .written 0 9]

end Sample

open Sample in
/-- **The hello of one connection goes out on the other**, which never had it submitted. -/
theorem hello_on_other_socket : ∃ c, Run (fun _ _ => True) c ∧ 0 < c.count ∧
    (c.sockets 0).written = hello₁.frame ++ hello₂.frame ∧ (c.sockets 0).submitted = [hello₁.frame] ∧
    (c.sockets 1).written = [] ∧ ¬ Framed c 0 := by
  have hends : (Channel.run (fun _ _ => True) crossed {}).any (fun c => decide (0 < c.count ∧
      (c.sockets 0).written = hello₁.frame ++ hello₂.frame ∧ (c.sockets 0).submitted = [hello₁.frame] ∧
      (c.sockets 1).written = [])) = true := by
    decide +kernel
  obtain ⟨c, hc, hfacts⟩ := (Option.any_eq_true _ _).mp hends
  obtain ⟨hcount, h₀, hsub, h₁⟩ := of_decide_eq_true hfacts
  refine ⟨c, Run.start.append hc, hcount, h₀, hsub, h₁, ?_⟩
  rintro ⟨S, B, Q, hS, hkept, hB, -⟩
  rw [hsub] at hS
  have hhello : ∀ f ∈ S, isDroppableWhenFull (frameMsgType f) = false := by
    intro f hf
    rw [List.mem_singleton.mp (hS.subset hf)]
    decide +kernel
  -- eighteen bytes are written, of at most nine that were submitted
  have hlen : B.flatten.length ≤ 9 := by
    calc B.flatten.length ≤ (B ++ Q).flatten.length := by
          rw [List.flatten_append, List.length_append]
          exact Nat.le_add_right _ _
      _ = S.flatten.length := by rw [hkept.exact hhello]
      _ ≤ [hello₁.frame].flatten.length := by
          obtain ⟨T, hT⟩ := hS
          rw [← hT, List.flatten_append, List.length_append]
          exact Nat.le_add_right _ _
      _ = 9 := by decide +kernel
  have hwritten := hB.length_le
  rw [h₀] at hwritten
  have htwo : (hello₁.frame ++ hello₂.frame).length = 18 := by decide +kernel
  omega

end Network

end VizNode
