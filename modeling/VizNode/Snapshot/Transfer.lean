import VizNode.Protocol
import Mathlib.Data.List.Basic
import Mathlib.Tactic.Common

/-!
# `VizNode.Snapshot.Transfer` — what a node serves of a snapshot, and what it downloads

A node asks a trusted peer for its snapshot piece by piece and writes what comes to a file, until the announced size is
reached or a piece is marked as the last one. It does not look at the offset of a piece, and need not: nothing is
loaded unless the bytes of the whole file have the announced checksum.

**Behind the end of the file the server computes with numbers that wrap.** What is left of the file is the size less
the offset, taken to 32 bits; where the offset is larger than the size that is anything up to 4 GB, and the reply has as
many zeros (`serveChunk_iff`).

**The client waits for empty pieces without an end.** A piece that is empty and not the last one neither brings it
forward nor ends its loop (`download_iff`).

## Contents
- **The server.** `serveChunk`.
- **The client.** `accept`, `progress`, `Downloads`.
- **Pieces.** `serveChunk_iff`.
- **The loop.** `download_iff`, `download_served`.
-/

namespace VizNode

namespace SnapshotTransfer

/-! ## The server -/

/-- A snapshot file. A file has less than `2 ^ 63` bytes. -/
structure SnapshotFile where
  bytes : List UInt8
  fits  : bytes.length < 2 ^ 63

/-- `cached_snap_size`. -/
def SnapshotFile.size (f : SnapshotFile) : UInt64 := UInt64.ofNat f.bytes.length

/-- `snapshot_data_request_data`. -/
structure DataRequest where
  blockNum  : UInt32 := 0
  offset    : UInt64 := 0
  chunkSize : UInt32 := 0
deriving DecidableEq, Repr

/-- `snapshot_data_reply_data`. -/
structure DataReply where
  offset : UInt64 := 0
  data   : List UInt8 := []
  isLast : Bool := false
deriving DecidableEq, Repr

/-- `seekg` and `read` into a buffer of zeros. An offset that is negative as a signed number cannot be sought, and
    behind the end of the file nothing is read. -/
def readAt (bytes : List UInt8) (offset : UInt64) (n : UInt32) : List UInt8 :=
  let read := if offset.toNat < 2 ^ 63 then (bytes.drop offset.toNat).take n.toNat else []
  read ++ List.replicate (n.toNat - read.length) 0

/-- `to_read`: what is asked for, or what is left. -/
def toRead (f : SnapshotFile) (req : DataRequest) : UInt32 :=
  if req.offset + req.chunkSize.toUInt64 > f.size then (f.size - req.offset).toUInt32 else req.chunkSize

/-- **The reply to a data request.** -/
def serveChunk (f : SnapshotFile) (req : DataRequest) : DataReply where
  offset := req.offset
  data   := readAt f.bytes req.offset (toRead f req)
  isLast := decide (req.offset + (toRead f req).toUInt64 ≥ f.size)

/-! ## The client -/

/-- `MAX_SNAPSHOT_SIZE`. -/
def maxSnapshotSize : UInt64 := 2 * 1024 * 1024 * 1024

/-- The limit for the payload of a data reply. -/
def maxPayload : Nat := 64 * 1024 * 1024

/-- What the client reads after a request: a data reply, or something else that ends the attempt (a timeout, another
    message, a message that is too large or cannot be unpacked). -/
inductive PeerMessage where
  | reply (r : DataReply) (fits : r.data.length ≤ maxPayload)
  | other

/-- The state of the loop: the file so far, and how many bytes were counted. -/
structure Download where
  offset  : UInt64 := 0
  written : List UInt8 := []
deriving DecidableEq, Repr

/-- A reply that is sent, as the client reads it. -/
def PeerMessage.ofReply (r : DataReply) : PeerMessage :=
  if h : r.data.length ≤ maxPayload then .reply r h else .other

inductive Progress where
  | running (d : Download)
  | complete (d : Download)
  | failed
deriving DecidableEq, Repr

/-- The data of a reply is written and counted. -/
def Download.write (d : Download) (data : List UInt8) : Download :=
  if data ≠ [] then { offset := d.offset + UInt64.ofNat data.length, written := d.written ++ data } else d

/-- One turn of the loop, with the reply that came. -/
def accept (total : UInt64) (r : DataReply) (d : Download) : Progress :=
  let d := d.write r.data
  if r.isLast then .complete d else if d.offset < total then .running d else .complete d

/-- **The loop of the download**, after so many messages of the peer. -/
def progress (total : UInt64) (messages : Nat → PeerMessage) : Nat → Progress
  | 0     => if 0 < total then .running {} else .complete {}
  | n + 1 =>
    match progress total messages n with
    | .running d =>
      match messages n with
      | .reply r _ => accept total r d
      | .other     => .failed
    | p => p

/-- A peer that has sent its snapshot info, and the messages that are to come from it. -/
structure Peer (Digest : Type) where
  blockNum       : UInt32
  checksum       : Digest
  compressedSize : UInt64
  messages       : Nat → PeerMessage

variable {Digest : Type} (sha256 : List UInt8 → Digest)

/-- **An attempt with one peer**: nothing, or the block number that names the file, with its bytes. -/
inductive Attempt (p : Peer Digest) : Option (UInt32 × List UInt8) → Prop
  | tooLarge (h : maxSnapshotSize < p.compressedSize) : Attempt p none
  | broken (n : Nat) (hsize : p.compressedSize ≤ maxSnapshotSize)
      (h : progress p.compressedSize p.messages n = .failed) : Attempt p none
  | mismatch (n : Nat) (d : Download) (hsize : p.compressedSize ≤ maxSnapshotSize)
      (h : progress p.compressedSize p.messages n = .complete d) (hsum : sha256 d.written ≠ p.checksum) :
      Attempt p none
  | verified (n : Nat) (d : Download) (hsize : p.compressedSize ≤ maxSnapshotSize)
      (h : progress p.compressedSize p.messages n = .complete d) (hsum : sha256 d.written = p.checksum) :
      Attempt p (some (p.blockNum, d.written))

/-- **`download_snapshot_from_peers`**, over the peers from the best to the worst; `none` is one that could not be
    reached. -/
inductive Downloads : List (Option (Peer Digest)) → Option (UInt32 × List UInt8) → Prop
  | exhausted : Downloads [] none
  | unreachable {ps : List (Option (Peer Digest))} {r : Option (UInt32 × List UInt8)} (h : Downloads ps r) :
      Downloads (none :: ps) r
  | returned {p : Peer Digest} {ps : List (Option (Peer Digest))} {r : UInt32 × List UInt8}
      (h : Attempt sha256 p (some r)) : Downloads (some p :: ps) (some r)
  | next {p : Peer Digest} {ps : List (Option (Peer Digest))} {r : Option (UInt32 × List UInt8)}
      (h : Attempt sha256 p none) (hr : Downloads ps r) : Downloads (some p :: ps) r

/-! ## Pieces -/

/-- The reply has the bytes of the file from the offset on, as many as were asked for and are there, and says whether
    they reach the end of the file. -/
def Serves (f : SnapshotFile) (req : DataRequest) : Prop :=
  (serveChunk f req).data = (f.bytes.drop req.offset.toNat).take req.chunkSize.toNat ∧
    ((serveChunk f req).isLast = true ↔ f.bytes.length ≤ req.offset.toNat + req.chunkSize.toNat)

/-- The offset is behind the end of the file by a multiple of `2 ^ 32`, and the end of what is asked for does not wrap
    around to within the file. -/
def Harmless (f : SnapshotFile) (req : DataRequest) : Prop :=
  (req.offset.toNat - f.bytes.length) % 2 ^ 32 = 0 ∧
    f.bytes.length < (req.offset.toNat + req.chunkSize.toNat) % 2 ^ 64

theorem SnapshotFile.size_toNat (f : SnapshotFile) : f.size.toNat = f.bytes.length := by
  have hfits := f.fits
  unfold SnapshotFile.size
  rw [UInt64.toNat_ofNat']
  exact Nat.mod_eq_of_lt (by omega)

/-- The buffer is filled from the file as far as the file goes. -/
theorem readAt_length (bytes : List UInt8) (offset : UInt64) (n : UInt32) : (readAt bytes offset n).length = n.toNat := by
  unfold readAt
  dsimp only
  rw [List.length_append, List.length_replicate]
  split
  · have hle : ((bytes.drop offset.toNat).take n.toNat).length ≤ n.toNat := List.length_take_le _ _
    omega
  · rw [List.length_nil]
    omega

/-- Within the file only bytes of the file are read. -/
theorem readAt_within {bytes : List UInt8} {offset : UInt64} {n : UInt32} (hfits : bytes.length < 2 ^ 63)
    (h : offset.toNat + n.toNat ≤ bytes.length) : readAt bytes offset n = (bytes.drop offset.toNat).take n.toNat := by
  unfold readAt
  dsimp only
  rw [if_pos (by omega)]
  have hlen : ((bytes.drop offset.toNat).take n.toNat).length = n.toNat := by
    rw [List.length_take, List.length_drop]
    omega
  rw [hlen, Nat.sub_self, List.replicate_zero, List.append_nil]

theorem toRead_toNat (f : SnapshotFile) (req : DataRequest) : (toRead f req).toNat =
    if f.bytes.length < (req.offset.toNat + req.chunkSize.toNat) % 2 ^ 64 then
      (2 ^ 64 - req.offset.toNat + f.bytes.length) % 2 ^ 64 % 2 ^ 32
    else req.chunkSize.toNat := by
  unfold toRead
  simp only [gt_iff_lt, UInt64.lt_iff_toNat_lt, UInt64.toNat_add, UInt32.toNat_toUInt64, f.size_toNat]
  split
  · rw [UInt64.toNat_toUInt32, UInt64.toNat_sub, f.size_toNat]
  · rfl

/-- **The server is right about every request that starts within the file**, and behind its end only by chance. -/
theorem serveChunk_iff (f : SnapshotFile) (req : DataRequest) :
    Serves f req ↔ req.offset.toNat ≤ f.bytes.length ∨ Harmless f req := by
  have hfits := f.fits
  have hoffset := req.offset.toNat_lt
  have hchunk := req.chunkSize.toNat_lt
  have hread := toRead_toNat f req
  have hlast : (serveChunk f req).isLast = true ↔
      f.bytes.length ≤ (req.offset.toNat + (toRead f req).toNat) % 2 ^ 64 := by
    unfold serveChunk
    simp only [ge_iff_le, decide_eq_true_eq, UInt64.le_iff_toNat_le, UInt64.toNat_add, UInt32.toNat_toUInt64,
      f.size_toNat]
  unfold Serves Harmless
  rw [hlast]
  unfold serveChunk
  by_cases hin : req.offset.toNat ≤ f.bytes.length
  · refine iff_of_true ?_ (.inl hin)
    have hsum : (req.offset.toNat + req.chunkSize.toNat) % 2 ^ 64 = req.offset.toNat + req.chunkSize.toNat :=
      Nat.mod_eq_of_lt (by omega)
    rw [hsum] at hread
    by_cases hmore : f.bytes.length < req.offset.toNat + req.chunkSize.toNat
    · -- less is left than was asked for
      rw [if_pos hmore] at hread
      have hleft : (toRead f req).toNat = f.bytes.length - req.offset.toNat := by omega
      constructor
      · dsimp only
        rw [readAt_within hfits (by omega), hleft, List.take_of_length_le (by rw [List.length_drop]),
          List.take_of_length_le (by rw [List.length_drop]; omega)]
      · omega
    · rw [if_neg hmore] at hread
      constructor
      · dsimp only
        rw [readAt_within hfits (by omega), hread]
      · omega
  · have hnone : (f.bytes.drop req.offset.toNat).take req.chunkSize.toNat = [] := by
      rw [List.drop_eq_nil_of_le (by omega), List.take_nil]
    have hempty : readAt f.bytes req.offset (toRead f req) = [] ↔ (toRead f req).toNat = 0 := by
      rw [← List.length_eq_zero_iff, readAt_length]
    dsimp only
    rw [hnone, hempty, or_iff_right hin]
    by_cases hwrap : f.bytes.length < (req.offset.toNat + req.chunkSize.toNat) % 2 ^ 64
    · rw [if_pos hwrap] at hread
      rw [and_iff_left hwrap]
      constructor
      · rintro ⟨hzero, -⟩
        omega
      · intro hmul
        have hzero : (toRead f req).toNat = 0 := by omega
        refine ⟨hzero, ?_⟩
        rw [hzero, Nat.add_zero, Nat.mod_eq_of_lt hoffset]
        omega
    · -- the end of what is asked for wraps around, and so much is read
      rw [if_neg hwrap] at hread
      refine iff_of_false ?_ fun h => hwrap h.2
      rintro ⟨hzero, -⟩
      omega

/-! ## The loop -/

variable {total : UInt64} {messages : Nat → PeerMessage} {d d' : Download} {n : Nat}

/-- The loop comes to an end. -/
def Ends (total : UInt64) (messages : Nat → PeerMessage) : Prop := ∃ n, ∀ d, progress total messages n ≠ .running d

/-- Every reply that is accepted brings the loop forward or ends it. -/
def Moves (total : UInt64) (messages : Nat → PeerMessage) : Prop :=
  ∀ n d d', progress total messages n = .running d → progress total messages (n + 1) = .running d' →
    d.offset < d'.offset

/-- No reply that the loop takes is empty and not the last one. -/
def NeverIdle (total : UInt64) (messages : Nat → PeerMessage) : Prop :=
  ∀ n d r h, progress total messages n = .running d → messages n = .reply r h → r.data ≠ [] ∨ r.isLast = true

/-- What a turn of a running loop came from. -/
theorem progress_succ (h : progress total messages (n + 1) = .running d') :
    ∃ d r hr, progress total messages n = .running d ∧ messages n = .reply r hr ∧ accept total r d = .running d' := by
  rw [progress] at h
  cases hp : progress total messages n with
  | running d =>
      rw [hp] at h
      dsimp only at h
      cases hm : messages n with
      | reply r hr =>
          rw [hm] at h
          exact ⟨d, r, hr, rfl, rfl, h⟩
      | other =>
          rw [hm] at h
          nomatch h
  | complete d =>
      rw [hp] at h
      nomatch h
  | failed =>
      rw [hp] at h
      nomatch h

@[simp] theorem write_written (d : Download) (data : List UInt8) : (d.write data).written = d.written ++ data := by
  unfold Download.write
  split
  · rfl
  · next hnil => rw [not_not.mp hnil, List.append_nil]

/-- A turn that goes on has written the data of the reply. -/
theorem accept_running {r : DataReply} (h : accept total r d = .running d') :
    r.isLast = false ∧ d' = d.write r.data ∧ d'.offset < total := by
  unfold accept at h
  dsimp only at h
  by_cases hlast : r.isLast = true
  · rw [if_pos hlast] at h
    nomatch h
  · rw [if_neg hlast] at h
    by_cases hless : (d.write r.data).offset < total
    · rw [if_pos hless] at h
      obtain rfl := Progress.running.inj h
      exact ⟨Bool.eq_false_iff.mpr hlast, rfl, hless⟩
    · rw [if_neg hless] at h
      nomatch h

/-- **What is counted is what is written**, and it is less than the total while the loop goes on. -/
theorem progress_counted (htotal : total ≤ maxSnapshotSize) (h : progress total messages n = .running d) :
    d.offset.toNat = d.written.length ∧ d.offset < total := by
  induction n generalizing d with
  | zero =>
      rw [progress] at h
      split at h
      · next hpos =>
          obtain rfl := Progress.running.inj h
          exact ⟨rfl, hpos⟩
      · nomatch h
  | succ n ih =>
      obtain ⟨d₀, r, hr, hp, -, hacc⟩ := progress_succ h
      obtain ⟨-, rfl, hless⟩ := accept_running hacc
      obtain ⟨hcount, hbefore⟩ := ih hp
      have hmax : total.toNat ≤ 2 ^ 31 := UInt64.le_iff_toNat_le.mp htotal
      have hbefore' := UInt64.lt_iff_toNat_lt.mp hbefore
      refine ⟨?_, hless⟩
      rw [write_written, List.length_append, ← hcount]
      unfold Download.write
      split
      · -- the payload is bounded, so the count does not wrap
        unfold maxPayload at hr
        rw [UInt64.toNat_add, UInt64.toNat_ofNat']
        omega
      · next hnil =>
          rw [not_not.mp hnil]
          rfl

/-- **Replies that are never idle bring the loop to its end**: each running turn has written a byte more. -/
theorem ends_of_neverIdle (htotal : total ≤ maxSnapshotSize) (h : NeverIdle total messages) : Ends total messages := by
  have hgrow : ∀ n d, progress total messages n = .running d → n ≤ d.written.length := by
    intro n
    induction n with
    | zero => exact fun _ _ => Nat.zero_le _
    | succ n ih =>
        intro d' hrun
        obtain ⟨d, r, hr, hp, hm, hacc⟩ := progress_succ hrun
        obtain ⟨hlast, rfl, -⟩ := accept_running hacc
        have hdata : r.data ≠ [] := (h n d r hr hp hm).resolve_right (by rw [hlast]; exact Bool.false_ne_true)
        have hpos := List.length_pos_iff.mpr hdata
        have hbefore := ih d hp
        rw [write_written, List.length_append]
        omega
  refine ⟨total.toNat, fun d hrun => ?_⟩
  obtain ⟨hcount, hless⟩ := progress_counted htotal hrun
  have hbytes := hgrow _ d hrun
  have hless' := UInt64.lt_iff_toNat_lt.mp hless
  omega

/-- **The download ends, with every reply bringing it forward, exactly when no reply is idle.** -/
theorem download_iff (htotal : total ≤ maxSnapshotSize) :
    Ends total messages ∧ Moves total messages ↔ NeverIdle total messages := by
  constructor
  · rintro ⟨-, hmoves⟩ n d r hr hp hm
    by_contra hidle
    obtain ⟨hdata, hlast⟩ := not_or.mp hidle
    -- an idle reply leaves the loop as it was
    have hnext : progress total messages (n + 1) = .running d := by
      rw [progress, hp, hm]
      show accept total r d = _
      unfold accept Download.write
      rw [if_neg hdata, if_neg hlast]
      exact if_pos (progress_counted htotal hp).2
    exact absurd (hmoves n d d hp hnext) (UInt64.lt_irrefl _)
  · intro h
    refine ⟨ends_of_neverIdle htotal h, fun n d d' hp hp' => ?_⟩
    obtain ⟨d₀, r, hr, hp₀, hm, hacc⟩ := progress_succ hp'
    obtain rfl := Progress.running.inj (hp.symm.trans hp₀)
    obtain ⟨hlast, rfl, -⟩ := accept_running hacc
    have hdata : r.data ≠ [] := (h n d r hr hp hm).resolve_right (by rw [hlast]; exact Bool.false_ne_true)
    have hpos := List.length_pos_iff.mpr hdata
    rw [UInt64.lt_iff_toNat_lt, (progress_counted htotal hp).1, (progress_counted htotal hp').1, write_written,
      List.length_append]
    omega

/-- **A path is returned only for a file with the announced checksum.** -/
theorem downloads_verified {sha256 : List UInt8 → Digest} {ps : List (Option (Peer Digest))}
    {file : UInt32 × List UInt8} {r : Option (UInt32 × List UInt8)} (h : Downloads sha256 ps r) (hr : r = some file) :
    ∃ p, some p ∈ ps ∧ p.blockNum = file.1 ∧ sha256 file.2 = p.checksum := by
  induction h with
  | exhausted => nomatch hr
  | unreachable _ ih =>
      obtain ⟨p, hp, h⟩ := ih hr
      exact ⟨p, List.mem_cons_of_mem _ hp, h⟩
  | returned h =>
      obtain rfl := Option.some.inj hr
      cases h with
      | verified n d hsize h hsum => exact ⟨_, List.mem_cons_self, rfl, hsum⟩
  | next _ _ ih =>
      obtain ⟨p, hp, h⟩ := ih hr
      exact ⟨p, List.mem_cons_of_mem _ hp, h⟩

/-- The peer answers what the loop asks for, from this file. -/
def AnsweredFrom (f : SnapshotFile) (messages : Nat → PeerMessage) : Prop :=
  ∀ n d, progress f.size messages n = .running d →
    messages n = .ofReply (serveChunk f { offset := d.offset, chunkSize := 1048576 })

/-- **One turn with a peer that serves the file**: the next bytes of the file are written, and the loop ends with the
    last of them. -/
theorem accept_served {f : SnapshotFile} (hcount : d.offset.toNat = d.written.length)
    (hsofar : d.written = f.bytes.take d.written.length) (hless : d.offset < f.size) :
    ∃ r hr, PeerMessage.ofReply (serveChunk f { offset := d.offset, chunkSize := 1048576 }) = .reply r hr ∧
      r.data ≠ [] ∧ (accept f.size r d = .running (d.write r.data) ∨ accept f.size r d = .complete (d.write r.data)) ∧
      (d.write r.data).written = f.bytes.take (d.write r.data).written.length ∧
      (accept f.size r d = .complete (d.write r.data) → (d.write r.data).written = f.bytes) := by
  have hlt := UInt64.lt_iff_toNat_lt.mp hless
  rw [f.size_toNat] at hlt
  have hfits := f.fits
  obtain ⟨hdata, hlast⟩ := (serveChunk_iff f { offset := d.offset, chunkSize := 1048576 }).mpr (.inl (Nat.le_of_lt hlt))
  dsimp only at hdata hlast
  have hchunk : (1048576 : UInt32).toNat = 1048576 := rfl
  rw [hchunk] at hdata hlast
  generalize serveChunk f { offset := d.offset, chunkSize := 1048576 } = r at hdata hlast
  have hlen : r.data.length = min 1048576 (f.bytes.length - d.offset.toNat) := by
    rw [hdata, List.length_take, List.length_drop]
  have hr : r.data.length ≤ maxPayload := by
    unfold maxPayload
    omega
  have hnil : r.data ≠ [] := by
    intro hnil
    rw [hnil, List.length_nil] at hlen
    omega
  have hwritten : (d.write r.data).written = f.bytes.take (d.offset.toNat + 1048576) := by
    rw [write_written, hdata, List.take_add, hcount, ← hsofar]
  refine ⟨r, hr, dif_pos hr, hnil, ?_, ?_, fun hdone => ?_⟩
  · unfold accept
    dsimp only
    split
    · exact .inr rfl
    · split
      · exact .inl rfl
      · exact .inr rfl
  · rw [hwritten, List.length_take]
    by_cases hall : f.bytes.length ≤ d.offset.toNat + 1048576
    · rw [Nat.min_eq_right hall, List.take_of_length_le hall, List.take_length]
    · rw [Nat.min_eq_left (by omega)]
  · rw [hwritten]
    refine List.take_of_length_le ?_
    by_contra hmore
    -- neither the reply nor the count ends the loop
    have hnot : ¬ r.isLast = true := fun h => hmore (hlast.mp h)
    unfold accept at hdone
    dsimp only at hdone
    have hoffset : (d.write r.data).offset < f.size := by
      unfold Download.write
      rw [if_pos hnil, UInt64.lt_iff_toNat_lt, UInt64.toNat_add, UInt64.toNat_ofNat', f.size_toNat]
      omega
    rw [if_neg hnot, if_pos hoffset] at hdone
    nomatch hdone

/-- **From a peer that serves a file the client downloads that file.** -/
theorem download_served {f : SnapshotFile} (hsize : f.size ≤ maxSnapshotSize) (h : AnsweredFrom f messages) :
    ∃ n d, progress f.size messages n = .complete d ∧ d.written = f.bytes := by
  have hstate : ∀ n, (∃ d, progress f.size messages n = .running d ∧ d.written = f.bytes.take d.written.length) ∨
      ∃ d, progress f.size messages n = .complete d ∧ d.written = f.bytes := by
    intro n
    induction n with
    | zero =>
        rw [progress]
        by_cases hpos : 0 < f.size
        · rw [if_pos hpos]
          exact .inl ⟨{}, rfl, rfl⟩
        · rw [if_neg hpos]
          refine .inr ⟨{}, rfl, ?_⟩
          have hzero : f.bytes.length = 0 := by
            rw [UInt64.lt_iff_toNat_lt, f.size_toNat] at hpos
            exact Nat.eq_zero_of_not_pos hpos
          exact (List.length_eq_zero_iff.mp hzero).symm
    | succ n ih =>
        rcases ih with ⟨d, hp, hsofar⟩ | ⟨d, hp, hall⟩
        · obtain ⟨hcount, hless⟩ := progress_counted hsize hp
          obtain ⟨r, hr, hreply, -, hacc, hnext, hdone⟩ := accept_served hcount hsofar hless
          have hstep : progress f.size messages (n + 1) = accept f.size r d := by
            rw [progress, hp, h n d hp, hreply]
          rcases hacc with hacc | hacc
          · exact .inl ⟨_, hstep.trans hacc, hnext⟩
          · exact .inr ⟨_, hstep.trans hacc, hdone hacc⟩
        · refine .inr ⟨d, ?_, hall⟩
          rw [progress, hp]
  have hbusy : NeverIdle f.size messages := by
    intro n d r hr hp hm
    rcases hstate n with ⟨d', hp', hsofar⟩ | ⟨d', hp', -⟩
    · obtain rfl := Progress.running.inj (hp.symm.trans hp')
      obtain ⟨hcount, hless⟩ := progress_counted hsize hp
      obtain ⟨r', hr', hreply, hdata, -⟩ := accept_served hcount hsofar hless
      have hsame := hm.symm.trans ((h n d hp).trans hreply)
      obtain rfl := (PeerMessage.reply.inj hsame)
      exact .inl hdata
    · nomatch hp.symm.trans hp'
  obtain ⟨n, hend⟩ := ends_of_neverIdle hsize hbusy
  rcases hstate n with ⟨d, hp, -⟩ | ⟨d, hp, hall⟩
  · exact absurd hp (hend d)
  · exact ⟨n, d, hp, hall⟩

/-- **The transfer of a snapshot.** The server is right about a request exactly if it starts within the file, or behind
    its end at a harmless place; the client's loop ends, with every reply bringing it forward, exactly if no reply is
    idle; and a path is returned only for a file with the announced checksum. -/
theorem snapshot_transfer (sha256 : List UInt8 → Digest) :
    (∀ f req, Serves f req ↔ req.offset.toNat ≤ f.bytes.length ∨ Harmless f req) ∧
    (∀ total messages, total ≤ maxSnapshotSize →
      (Ends total messages ∧ Moves total messages ↔ NeverIdle total messages)) ∧
    ∀ ps blockNum bytes, Downloads sha256 ps (some (blockNum, bytes)) →
      ∃ p, some p ∈ ps ∧ p.blockNum = blockNum ∧ sha256 bytes = p.checksum :=
  ⟨serveChunk_iff, fun _ _ htotal => download_iff htotal, fun _ _ _ h => downloads_verified h rfl⟩

/-- **A reply behind the end of the file, and a download without an end.** A file of one byte is asked for one byte at
    `2 ^ 32`, and a zero is sent; a peer that sends empty pieces keeps the client waiting. -/
theorem zero_served_and_client_held :
    (serveChunk { bytes := [7], fits := by decide } { offset := 4294967296, chunkSize := 1 }).data = [0] ∧
      ¬ Ends 1 (fun _ => .reply {} (Nat.zero_le _)) := by
  refine ⟨by decide +kernel, ?_⟩
  rintro ⟨n, hend⟩
  have hheld : progress 1 (fun _ => .reply {} (Nat.zero_le _)) n = .running {} := by
    clear hend
    induction n with
    | zero => rfl
    | succ n ih =>
        rw [progress, ih]
        rfl
  exact hend {} hheld

end SnapshotTransfer

end VizNode
