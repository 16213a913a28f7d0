import VizNode.BlockLog.Images
import VizNode.DltBlockLog.Appends

/-!
# `VizNode.BlockLog.Appends` — an append that is interrupted, in both logs

The block log appends and opens as the rolling log does, and it loses its blocks at the same place: between the first
step of an append and the third, the last eight bytes of the data are zeros.

## Contents
- **Opening.** `openFiles_head`, `holds_one`, `constructIndex_first`.
- **When an append survives.** `crashSafe_iff`, and `append_crash_safe_iff` for both logs.
- **A log that is cut** to its first block.
-/

namespace VizNode

namespace BlockLog

open Files DltBlockLog

variable {Tx : Type} {codec : BlockCodec Tx} {B : List (SignedBlock Tx)} {a b : SignedBlock Tx}

/-! ## Opening -/

/-- **The log holds the blocks**: the last of them is its head, and it reads each of them under its number and
    nothing else. -/
def Holds (codec : BlockCodec Tx) (log : Log Tx) (B : List (SignedBlock Tx)) : Prop :=
  log.impl.head = B.getLast? ∧ ∀ n, log.readBlockByNum codec n = .ok (B.find? (fun b => b.blockNum = n))

section Opening

variable {log log' : Log Tx} {data idx : Bytes} {m : Impl Tx} {pos next : Nat} {z : SignedBlock Tx}

theorem holds_image (h : FromOne codec B) : Holds codec (image codec B) B := ⟨rfl, fun _ => readBlockByNum_image h⟩

/-- Building the index leaves the head. -/
theorem constructIndex_head (h : log.constructIndex codec a = .ok log') : log'.impl.head = log.impl.head := by
  unfold Log.constructIndex at h
  dsimp only at h
  obtain ⟨endPos, -, h⟩ := Prog.except_bind_eq_ok h
  obtain ⟨idx, -, h⟩ := Prog.except_bind_eq_ok h
  rw [← Except.ok.inj h]

/-- **Data has a head**: the block at the position its last eight bytes give. -/
theorem openFiles_data (hlen : 8 < data.length) (hi : idx ≠ []) :
    openFiles codec m (filesWith data idx) = (do
      let pos ← getLastUint64 data
      let head ← readBlock codec data.length data pos
      let log : Log Tx := { files := filesWith data idx, impl := { isOpen := true, head := some head.1, headId := head.1.id } }
      if 8 ≤ idx.length then
        let indexPos ← getLastUint64 idx
        if pos ≠ indexPos then log.constructIndex codec head.1 else .ok log
      else log.constructIndex codec head.1) := by
  have hd : data ≠ [] := fun h => by rw [h] at hlen; cases hlen
  unfold openFiles
  dsimp only
  rw [touch_filesWith hd hi, bytesAt_block, bytesAt_index, if_pos hlen]

/-- The head is what is read where the last eight bytes point. -/
theorem openFiles_head (hlen : 8 < data.length) (hi : idx ≠ []) (hpos : getLastUint64 data = .ok pos)
    (hread : readBlock codec data.length data pos = .ok (z, next))
    (h : openFiles codec m (filesWith data idx) = .ok log') : log'.impl.head = some z := by
  rw [openFiles_data hlen hi, hpos] at h
  simp only [bind, Except.bind, hread] at h
  by_cases hidx : 8 ≤ idx.length
  · rw [if_pos hidx] at h
    obtain ⟨indexPos, -, h⟩ := Prog.except_bind_eq_ok h
    by_cases hne : pos ≠ indexPos
    · rw [if_pos hne] at h
      exact constructIndex_head h
    · rw [if_neg hne] at h
      rw [← Except.ok.inj h]
  · rw [if_neg hidx] at h
    exact constructIndex_head h

/-- The position behind a block that was read. -/
theorem readBlock_next (h : readBlock codec data.length data pos = .ok (z, next)) : pos < next := by
  unfold readBlock at h
  by_cases hpos : pos < usable data.length
  · rw [if_pos hpos] at h
    split at h
    · cases h
    · obtain ⟨trailer, -, h⟩ := Prog.except_bind_eq_ok h
      by_cases htr : trailer = pos
      · rw [if_pos htr] at h
        have hnext := (Prod.mk.inj (Except.ok.inj h)).2
        omega
      · rw [if_neg htr] at h
        cases h
  · rw [if_neg hpos] at h
    cases h

/-- The index of a first block at the beginning. -/
theorem constructIndex_first (hz : z.blockNum = 1) (hpos : getLastUint64 data = .ok 0)
    (hread : readBlock codec data.length data 0 = .ok (z, next)) :
    (Log.mk (filesWith data idx) m).constructIndex codec z = .ok ⟨filesWith data (encode64 0), m⟩ := by
  have hblock : bytesAt (runAll [.remove .index, .touch .index] (filesWith data idx)) .block = data := rfl
  have hindex : bytesAt (runAll [.remove .index, .touch .index] (filesWith data idx)) .index = [0] := rfl
  have hnext := readBlock_next hread
  have hroom : write (Files.resize [0] (1 * 8)) 0 (encode64 0) = encode64 0 := by decide
  -- one block is read, and the walk is past the end
  have hwalk : walkBlocks codec data.length data 0 (data.length + 1) 0 0 (Files.resize [0] (1 * 8)) =
      .ok (encode64 0) := by
    obtain ⟨n, hn⟩ : ∃ n, data.length = n + 1 := by
      refine Nat.exists_eq_succ_of_ne_zero ?_
      intro hz
      rw [List.length_eq_zero_iff.mp hz] at hread
      cases hread
    unfold walkBlocks
    rw [if_pos (Nat.le_refl 0), hread]
    show walkBlocks codec data.length data 0 data.length next (0 + 8) (write _ 0 _) = _
    rw [hroom]
    generalize data.length = len at hn
    subst hn
    unfold walkBlocks
    rw [if_neg (by omega)]
  unfold Log.constructIndex
  dsimp only
  rw [hblock, hindex, hpos, hz]
  simp only [bind, Except.bind]
  rw [hwalk]
  refine congrArg Except.ok (congrArg (fun f => Log.mk f m) ?_)
  funext q
  cases q with
  | block => rfl
  | index => rfl

/-- **One block with the index of it is a log of this block**, whatever is behind it. -/
theorem holds_one (hb : b.blockNum = 1) (hread : readBlock codec data.length data 0 = .ok (b, next)) :
    Holds codec { files := filesWith data (encode64 0), impl := { isOpen := true, head := some b, headId := b.id } }
      [b] := by
  have hid : b.id.num = b.blockNum := rfl
  have hentry : getUint64 (encode64 0) (8 * (1 - 1)) = .ok 0 := by decide
  refine ⟨rfl, fun n => ?_⟩
  unfold Log.readBlockByNum Log.getBlockPos
  dsimp only
  rw [hid, hb, bytesAt_index, bytesAt_block]
  by_cases hn : n = 1
  · have hfind : [b].find? (fun c => c.blockNum = n) = some b := by
      rw [List.find?_singleton, if_pos (by simpa [hb] using hn.symm)]
    subst hn
    rw [if_pos (by omega), hentry, hfind]
    simp only [bind, Except.bind]
    rw [if_pos (by decide), hread]
    exact if_pos hb
  · have hnone : [b].find? (fun c => c.blockNum = n) = none := by
      rw [List.find?_singleton, if_neg (by simpa [hb] using Ne.symm hn)]
    rw [if_neg (by omega), hnone]
    rfl

/-- Data that begins with the first block and ends with zeros, with an index of one entry or none. -/
theorem opens_first (hb : b.blockNum = 1) (hlen : 8 < data.length) (hi : idx ≠ [])
    (hidx : idx = encode64 0 ∨ idx.length < 8) (hpos : getLastUint64 data = .ok 0)
    (hread : readBlock codec data.length data 0 = .ok (b, next)) :
    ∃ log', openFiles codec m (filesWith data idx) = .ok log' ∧ Holds codec log' [b] := by
  refine ⟨_, ?_, holds_one hb hread⟩
  rw [openFiles_data hlen hi, hpos]
  simp only [bind, Except.bind, hread]
  rcases hidx with rfl | hshort
  · have hlast : getLastUint64 (encode64 0) = .ok 0 := getLastUint64_torn (t := [])
    rw [if_pos (by decide), hlast]
    exact if_neg (not_not.mpr rfl)
  · rw [if_neg (Nat.not_le.mpr hshort)]
    exact constructIndex_first hb hpos hread

end Opening

/-! ## When an append survives -/

/-- **A crash-safe append**: wherever it stops, the next process opens the log, which holds the blocks before it, or
    these and the new one. -/
def CrashSafe (codec : BlockCodec Tx) (log : Log Tx) (B : List (SignedBlock Tx)) (b : SignedBlock Tx) : Prop :=
  ∃ ops m, appendOps log b (codec.pack b) = .ok (ops, m) ∧
    ∀ k, ∃ log', openFiles codec {} (runAll (ops.take k) log.files) = .ok log' ∧
      (Holds codec log' B ∨ Holds codec log' (B ++ [b]))

section Survival

variable {m : Impl Tx}

theorem crashSafe_image (h : FromOne codec B) (hb : Fits codec b) (hnum : b.blockNum = B.length + 1) :
    CrashSafe codec (image codec B) B b ↔
      ∀ k, ∃ log', openFiles codec {} (runAll ((opsOf codec B b).take k) (filesOf codec B)) = .ok log' ∧
        (Holds codec log' B ∨ Holds codec log' (B ++ [b])) := by
  have happ := appendOps_image h hb
  rw [if_pos hnum] at happ
  constructor
  · rintro ⟨ops, m', hops, hall⟩
    obtain ⟨rfl, -⟩ := Prod.mk.inj (Except.ok.inj (happ.symm.trans hops))
    exact hall
  · intro hall
    exact ⟨_, _, happ, hall⟩

/-- **The third step saves the block.** -/
theorem opens_extended (h : FromOne codec (B ++ [b])) (hB : Contents codec B) (hne : B ≠ []) {g : Bytes}
    (hg : g = entries codec B ∨ g = entries codec B ++ encode64 0) :
    openFiles codec m (filesWith (dataOf codec 0 (B ++ [b])) g) = .ok (image codec (B ++ [b])) := by
  have hpos : 0 < B.length := List.length_pos_iff.mpr hne
  have hlen : 8 ≤ g.length := by
    rcases hg with rfl | rfl
    · rw [entries_length]
      omega
    · rw [List.length_append, entries_length]
      omega
  have hi : g ≠ [] := fun he => by rw [he] at hlen; cases hlen
  refine openFiles_of h hi (.inr (.inr ⟨hlen, ?_⟩))
  -- the index does not end with the position of the new block
  rcases hg with rfl | rfl
  · rcases List.eq_nil_or_concat' B with hnil | ⟨D, d, rfl⟩
    · exact absurd hnil hne
    · refine ⟨_, getLastUint64_entries hB, ?_⟩
      have hpos : 8 ≤ recordSize codec d := recordSize_pos
      rw [sizeOf_append, sizeOf_cons, sizeOf_nil]
      omega
  · refine ⟨0, getLastUint64_torn, ?_⟩
    have hlt := eight_lt_sizeOf hB hne
    omega

theorem entries_one : entries codec [a] = encode64 0 := List.append_nil _

/-- **A log of one block survives.** -/
theorem crashSafe_one (h : FromOne codec [a]) (hb : Fits codec b) (hnum : b.blockNum = 2) :
    CrashSafe codec (image codec [a]) [a] b := by
  have hfull := fromOne_append h hb hnum
  have hfits := h.contents.fits a List.mem_cons_self
  have hne : [a] ≠ [] := List.cons_ne_nil a []
  have htorn : ∀ t : Bytes, ∃ log', openFiles codec {}
      (filesWith (dataOf codec 0 [a] ++ (t ++ encode64 0)) (encode64 0)) = .ok log' ∧ Holds codec log' [a] := by
    intro t
    refine opens_first h.first.1 (torn_length h.contents) (by decide) (.inl rfl) ?_
      (readBlock_torn (B := []) (t := t ++ encode64 0) hfits)
    rw [← List.append_assoc]
    exact getLastUint64_torn
  have hindex : indexFile codec [a] = encode64 0 := entries_one
  rw [crashSafe_image h hb hnum]
  intro k
  rw [files_of_stage]
  match k with
  | 0     => exact ⟨_, openFiles_image h (.inr hne), .inl (holds_image h)⟩
  | 1     =>
      obtain ⟨log', hopen, hholds⟩ := htorn (List.replicate (codec.pack b).length 0)
      rw [← List.append_assoc, ← extended_eq, ← hindex] at hopen
      exact ⟨log', hopen, .inl hholds⟩
  | 2     =>
      obtain ⟨log', hopen, hholds⟩ := htorn (codec.pack b)
      rw [← List.append_assoc, ← hindex] at hopen
      exact ⟨log', hopen, .inl hholds⟩
  | 3     => exact ⟨_, opens_extended hfull h.contents hne (.inl rfl), .inr (holds_image hfull)⟩
  | 4     => exact ⟨_, opens_extended hfull h.contents hne (.inr rfl), .inr (holds_image hfull)⟩
  | _ + 5 => exact ⟨_, openFiles_image hfull (.inr snoc_ne_nil), .inr (holds_image hfull)⟩

/-- **A longer log does not.** -/
theorem not_crashSafe_long (h : FromOne codec (a :: B)) (hB : B ≠ []) (hb : Fits codec b)
    (hnum : b.blockNum = (a :: B).length + 1) : ¬ CrashSafe codec (image codec (a :: B)) (a :: B) b := by
  have hfull := fromOne_append h hb hnum
  rw [crashSafe_image h hb hnum]
  intro hall
  obtain ⟨log', hopen, hholds⟩ := hall 1
  rw [files_of_stage] at hopen
  dsimp only at hopen
  have hpos : getLastUint64 (dataOf codec 0 (a :: B) ++ List.replicate (recordSize codec b) 0) = .ok 0 := by
    rw [extended_eq]
    exact getLastUint64_torn
  have hhead := openFiles_head (torn_length h.contents) indexFile_ne_nil hpos
    (readBlock_torn (h.contents.fits a List.mem_cons_self)) hopen
  rcases hholds with hold | hnew
  · exact hB (h.first.eq_nil_of_last (hold.1.symm.trans hhead))
  · have hnil := hfull.first.eq_nil_of_last (hnew.1.symm.trans hhead)
    exact snoc_ne_nil hnil

/-- **An empty log survives exactly when zeros are read as the block.** -/
theorem crashSafe_empty (hb : Fits codec b) (hnum : b.blockNum = 1) :
    CrashSafe codec (image codec []) [] b ↔ ReadsZeros codec b := by
  have hone : FromOne codec [b] := fromOne_append .nil hb hnum
  have hlen : 8 < (List.replicate (recordSize codec b) (0 : UInt8)).length := zeros_length hb
  have hzeros : getLastUint64 (List.replicate (recordSize codec b) 0) = .ok 0 := getLastUint64_zeros
  have hshort : (indexFile codec ([] : List (SignedBlock Tx))).length < 8 := by
    show 1 < 8
    decide
  rw [crashSafe_image .nil hb hnum]
  constructor
  · intro hall
    obtain ⟨log', hopen, hholds⟩ := hall 1
    rw [files_of_stage] at hopen
    dsimp only [dataOf, List.nil_append] at hopen
    cases hread : readBlock codec (List.replicate (recordSize codec b) (0 : UInt8)).length
        (List.replicate (recordSize codec b) 0) 0 with
    | error e =>
        rw [openFiles_data hlen indexFile_ne_nil, hzeros] at hopen
        simp only [bind, Except.bind, hread] at hopen
        cases hopen
    | ok r =>
        have hhead := openFiles_head hlen indexFile_ne_nil hzeros hread hopen
        rcases hholds with hold | hnew
        · exact absurd (hold.1.symm.trans hhead) (by simp)
        · have hr : r.1 = b := (Option.some.inj (hnew.1.symm.trans hhead)).symm
          refine ⟨r.2, ?_⟩
          rw [List.length_replicate] at hread
          rw [hread, ← hr]
  · rintro ⟨next, hread⟩ k
    rw [files_of_stage]
    match k with
    | 0     => exact ⟨_, openFiles_image .nil (.inl ⟨rfl, rfl⟩), .inl (holds_image .nil)⟩
    | 1     =>
        have hread : readBlock codec (List.replicate (recordSize codec b) (0 : UInt8)).length
            (List.replicate (recordSize codec b) 0) 0 = .ok (b, next) := by rwa [List.length_replicate]
        obtain ⟨log', hopen, hholds⟩ := opens_first (m := {}) hnum hlen (List.cons_ne_nil 0 []) (.inr (by decide))
          hzeros hread
        exact ⟨log', hopen, .inr hholds⟩
    | 2     =>
        -- the position of the first block is the zeros that stand there
        have hdata : dataOf codec 0 [] ++ codec.pack b ++ encode64 0 = dataOf codec 0 [b] := by
          simp only [dataOf, List.nil_append, List.append_nil]
        rw [hdata]
        exact ⟨_, openFiles_of (D := []) hone indexFile_ne_nil (.inr (.inl hshort)), .inr (holds_image hone)⟩
    | 3     =>
        exact ⟨_, openFiles_of (D := []) hone indexFile_ne_nil (.inr (.inl hshort)), .inr (holds_image hone)⟩
    | 4     =>
        have hne : entries codec ([] : List (SignedBlock Tx)) ++ encode64 0 ≠ [] := by
          show encode64 0 ≠ []
          decide
        exact ⟨_, openFiles_of (D := []) hone hne (.inl entries_one.symm), .inr (holds_image hone)⟩
    | _ + 5 => exact ⟨_, openFiles_image hone (.inr snoc_ne_nil), .inr (holds_image hone)⟩

theorem crashSafe_iff (h : FromOne codec B) (hb : Fits codec b) (hnum : b.blockNum = B.length + 1) :
    CrashSafe codec (image codec B) B b ↔ Survives codec B b := by
  unfold Survives
  match B with
  | []          => simpa using crashSafe_empty hb hnum
  | [a]         => exact iff_of_true (crashSafe_one h hb hnum) (.inl rfl)
  | a :: c :: B =>
      refine iff_of_false (not_crashSafe_long h (List.cons_ne_nil c B) hb hnum) ?_
      rintro (hone | ⟨hnil, -⟩)
      · cases hone
      · cases hnil

/-- A block that was taken was the next one. -/
theorem Refines.takes {log log' : Log Tx} {v : View Tx} (h : Refines codec log v) (hb : Fits codec b)
    (happ : log.exec codec (.append b) = .ok log') : log = image codec v.blocks ∧ b.blockNum = v.blocks.length + 1 := by
  cases hopen : v.isOpen with
  | true =>
      have hlog := h.opened hopen
      rw [hlog, exec_append h.contents hb] at happ
      refine ⟨hlog, ?_⟩
      by_contra hnum
      rw [if_neg hnum] at happ
      cases happ
  | false =>
      have himpl : log.impl.isOpen = false := by rw [(h.closed hopen).1]
      rw [exec_append_closed himpl] at happ
      cases happ

end Survival

/-- **When an append can be interrupted at any step.** In both logs, after any commands and for any block that the
    log takes next: exactly when the log has one block, or it is empty and the zeros in the place of the new block
    are read as that block. -/
theorem append_crash_safe_iff (codec : BlockCodec Tx) (b : SignedBlock Tx) (hb : Fits codec b) :
    (∀ cs : List (DltBlockLog.Command Tx), (∀ c, .append c ∈ cs → Fits codec c) →
      (∃ log', (DltBlockLog.Log.run codec cs).exec codec (.append b) = .ok log') →
      (DltBlockLog.CrashSafe codec (DltBlockLog.Log.run codec cs) (DltBlockLog.View.run cs).blocks b ↔
        Survives codec (DltBlockLog.View.run cs).blocks b)) ∧
    ∀ cs : List (Command Tx), (∀ c, .append c ∈ cs → Fits codec c) →
      (∃ log', (Log.run codec cs).exec codec (.append b) = .ok log') →
      (CrashSafe codec (Log.run codec cs) (View.run cs).blocks b ↔ Survives codec (View.run cs).blocks b) := by
  constructor
  · intro cs hfit happ
    have hr := DltBlockLog.run_refines cs hfit
    obtain ⟨hopen, hacc⟩ := (hr.takes hb).mp happ
    rw [hr.opened hopen]
    exact DltBlockLog.crashSafe_iff hr.contents hb hacc
  · rintro cs hfit ⟨log', happ⟩
    have hr := run_refines cs hfit
    obtain ⟨hlog, hnum⟩ := hr.takes hb happ
    rw [hlog]
    exact crashSafe_iff hr.contents hb hnum

namespace Sample

open DltBlockLog.Sample

/-- A rolling log and a block log, from a first block on. -/
def rolling (ns : List Nat) : List (DltBlockLog.Command Unit) := .openLog :: ns.map (fun n => .append (block n))
def whole (ns : List Nat) : List (Command Unit) := .openLog :: ns.map (fun n => .append (block n))

theorem fits_small {n : Nat} (h : 0 < n ∧ n < 256) : Fits oneByte (block n) :=
  fits_block (by omega) (Nat.mod_eq_of_lt h.2) h.1

theorem rolling_fits {ns : List Nat} (h : ∀ n ∈ ns, 0 < n ∧ n < 256) :
    ∀ b, .append b ∈ rolling ns → Fits oneByte b := by
  intro b hb
  rcases List.mem_cons.mp hb with hopen | hmem
  · cases hopen
  · obtain ⟨n, hn, heq⟩ := List.mem_map.mp hmem
    rw [← DltBlockLog.Command.append.inj heq]
    exact fits_small (h n hn)

theorem whole_fits {ns : List Nat} (h : ∀ n ∈ ns, 0 < n ∧ n < 256) : ∀ b, .append b ∈ whole ns → Fits oneByte b := by
  intro b hb
  rcases List.mem_cons.mp hb with hopen | hmem
  · cases hopen
  · obtain ⟨n, hn, heq⟩ := List.mem_map.mp hmem
    rw [← Command.append.inj heq]
    exact fits_small (h n hn)

end Sample

section Samples

open DltBlockLog.Sample

/-- A log of the block 1 takes the block 2 in any case. -/
theorem append_crash_safe_iff_sample :
    DltBlockLog.CrashSafe oneByte (DltBlockLog.Log.run oneByte (Sample.rolling [1])) [block 1] (block 2) ∧
    CrashSafe oneByte (Log.run oneByte (Sample.whole [1])) [block 1] (block 2) := by
  have hone : ∀ n ∈ [1], 0 < n ∧ n < 256 := by decide
  have hb : Fits oneByte (block 2) := Sample.fits_small (by decide)
  obtain ⟨hrolling, hwhole⟩ := append_crash_safe_iff oneByte (block 2) hb
  refine ⟨(hrolling (Sample.rolling [1]) (Sample.rolling_fits hone) ⟨_, rfl⟩).mpr (.inl rfl), ?_⟩
  exact (hwhole (Sample.whole [1]) (Sample.whole_fits hone) ⟨_, rfl⟩).mpr (.inl rfl)

/-- **A log of two blocks is cut to the first of them**, when the append of the third one stops after its first
    step. -/
theorem second_block_lost :
    (∃ log', (DltBlockLog.Log.run oneByte (Sample.rolling [5, 6])).exec oneByte (.append (block 7)) = .ok log') ∧
    ¬ DltBlockLog.CrashSafe oneByte (DltBlockLog.Log.run oneByte (Sample.rolling [5, 6])) [block 5, block 6] (block 7) ∧
    (∃ log', (Log.run oneByte (Sample.whole [1, 2])).exec oneByte (.append (block 3)) = .ok log') ∧
    ¬ CrashSafe oneByte (Log.run oneByte (Sample.whole [1, 2])) [block 1, block 2] (block 3) := by
  have hr := DltBlockLog.run_refines (Sample.rolling [5, 6]) (Sample.rolling_fits (by decide))
  have hw := run_refines (Sample.whole [1, 2]) (Sample.whole_fits (by decide))
  refine ⟨⟨_, rfl⟩, ?_, ⟨_, rfl⟩, ?_⟩
  · rw [hr.opened rfl]
    exact DltBlockLog.not_crashSafe_long hr.contents (List.cons_ne_nil _ _) (Sample.fits_small (by decide)) (.inr rfl)
  · rw [hw.opened rfl]
    exact not_crashSafe_long hw.contents (List.cons_ne_nil _ _) (Sample.fits_small (by decide)) rfl

end Samples

end BlockLog

end VizNode
