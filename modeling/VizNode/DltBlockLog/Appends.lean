import VizNode.DltBlockLog.Refinement
import VizNode.Lib.Prog

/-!
# `VizNode.DltBlockLog.Appends` — an append that is interrupted

An append extends the data file, fills it, closes it with the position of the block, and then does the same to the
index. `open` finds the head by the last eight bytes of the data. Between the first step and the third these are
zeros, so it finds the *first* block: a log of one block survives that, a longer one is cut to its first block.

An empty log has no first block. After the first step its data is zeros, and what `fc::raw` makes of them is taken
for the head.

## Contents
- **Torn data.** `getLastUint64_torn`, `readBlock_torn`, for both logs.
- **Stages.** `files_of_stage`, `files_of_first_stage`.
- **Opening.** `open_torn_head`, `open_torn_one`, `open_zeros`.
- **When an append survives.** `crashSafe_iff`.
-/

namespace VizNode

namespace DltBlockLog

open Files

variable {Tx : Type} {codec : BlockCodec Tx} {A B : List (SignedBlock Tx)} {a b : SignedBlock Tx}

/-! ## Torn data -/

section Torn

variable {t : Bytes}

/-- What an append has torn ends with zeros. -/
theorem getLastUint64_torn : getLastUint64 (t ++ encode64 0) = .ok 0 := getLastUint64_at rfl (Nat.two_pow_pos 64)

/-- The first block is still there. -/
theorem readBlock_torn (h : Fits codec a) :
    readBlock codec (dataOf codec 0 (a :: B) ++ t).length (dataOf codec 0 (a :: B) ++ t) 0 =
      .ok (a, recordSize codec a) := by
  have hf : dataOf codec 0 (a :: B) ++ t = [] ++ (codec.pack a ++ (encode64 ([] : Bytes).length ++
      (dataOf codec (0 + recordSize codec a) B ++ t))) := by
    rw [dataOf_cons]
    simp only [List.nil_append, List.append_assoc, List.length_nil]
  have hread := readBlock_within (p := []) h hf (Nat.two_pow_pos 64)
  rwa [List.length_nil, Nat.zero_add] at hread

/-- What extends the data ends with zeros. -/
theorem extended_eq : dataOf codec 0 B ++ List.replicate (recordSize codec b) 0 =
    dataOf codec 0 B ++ List.replicate (codec.pack b).length 0 ++ encode64 0 := by
  rw [encode64_zero, List.append_assoc, List.replicate_append_replicate]
  rfl

/-- The place of a first block, not yet filled. -/
theorem zeros_length (hb : Fits codec b) : 8 < (List.replicate (recordSize codec b) (0 : UInt8)).length := by
  have hpos := hb.nonempty
  rw [List.length_replicate]
  show 8 < (codec.pack b).length + 8
  omega

theorem getLastUint64_zeros : getLastUint64 (List.replicate (recordSize codec b) 0) = .ok 0 := by
  have htorn : List.replicate (recordSize codec b) 0 = List.replicate (codec.pack b).length 0 ++ encode64 0 := by
    rw [encode64_zero, List.replicate_append_replicate]
    rfl
  rw [htorn]
  exact getLastUint64_torn

/-- Only in a log of one block is the first block the last. -/
theorem Numbered.eq_nil_of_last {s : Nat} (h : Numbered s (a :: B)) (hlast : (a :: B).getLast? = some a) : B = [] := by
  rcases List.eq_nil_or_concat' B with rfl | ⟨D, d, rfl⟩
  · rfl
  · rw [← List.cons_append] at h hlast
    have hd : d = a := Option.some.inj (getLast?_snoc.symm.trans hlast)
    have hnum : d.blockNum = s + (a :: D).length := h.num
    have hfirst : a.blockNum = s := h.1
    rw [hd, List.length_cons] at hnum
    omega

/-- **Zeros in the place of the first block are read as the block.** -/
def ReadsZeros (codec : BlockCodec Tx) (b : SignedBlock Tx) : Prop :=
  ∃ next, readBlock codec (recordSize codec b) (List.replicate (recordSize codec b) 0) 0 = .ok (b, next)

/-- **An append to a log of given blocks can be interrupted at any step**: the log has one block, or it has none and
    the zeros in the place of the first one are read as that block. -/
def Survives (codec : BlockCodec Tx) (B : List (SignedBlock Tx)) (b : SignedBlock Tx) : Prop :=
  B.length = 1 ∨ B = [] ∧ ReadsZeros codec b

end Torn

/-! ## Stages -/

/-- The two files, and no others. -/
def filesWith (data idx : Bytes) : FileSystem LogPath
  | .block => some data
  | .index => some idx
  | _      => none

section Stages

variable {data idx bytes : Bytes} {pos : Nat}

theorem filesOf_eq : filesOf codec B = filesWith (blockFile codec B) (indexFile codec B) := by
  funext q
  cases q <;> rfl

theorem recover_filesWith (hd : data ≠ []) (hi : idx ≠ []) : recover (filesWith data idx) = filesWith data idx := by
  have hblock : kept (filesWith data idx) .block .blockBak = some data := if_neg (fun h => h.1 rfl)
  have hindex : kept (filesWith data idx) .index .indexBak = some idx := if_neg (fun h => h.1 rfl)
  rw [recover_eq, hblock, hindex, touched_some hd, touched_some hi]
  funext q
  cases q <;> rfl

@[simp] theorem bytesAt_block : bytesAt (filesWith data idx) .block = data := rfl

@[simp] theorem bytesAt_index : bytesAt (filesWith data idx) .index = idx := rfl

@[simp] theorem run_resize_block :
    (FileOp.resize .block pos).run (filesWith data idx) = filesWith (Files.resize data pos) idx := by
  funext q
  cases q <;> rfl

@[simp] theorem run_resize_index :
    (FileOp.resize .index pos).run (filesWith data idx) = filesWith data (Files.resize idx pos) := by
  funext q
  cases q <;> rfl

@[simp] theorem run_write_block :
    (FileOp.write .block pos bytes).run (filesWith data idx) = filesWith (write data pos bytes) idx := by
  funext q
  cases q <;> rfl

@[simp] theorem run_write_index :
    (FileOp.write .index pos bytes).run (filesWith data idx) = filesWith data (write idx pos bytes) := by
  funext q
  cases q <;> rfl

end Stages

/-- The operations of an append to a log that has blocks. -/
def opsOf (codec : BlockCodec Tx) (B : List (SignedBlock Tx)) (b : SignedBlock Tx) : List (FileOp LogPath) :=
  [.resize .block (sizeOf codec B + (codec.pack b).length + 8), .write .block (sizeOf codec B) (codec.pack b),
    .write .block (sizeOf codec B + (codec.pack b).length) (encode64 (sizeOf codec B)),
    .resize .index (8 + 8 * B.length + 8), .write .index (8 + 8 * B.length) (encode64 (sizeOf codec B))]

/-- The operations of the first append. -/
def firstOpsOf (codec : BlockCodec Tx) (b : SignedBlock Tx) : List (FileOp LogPath) :=
  [.resize .index 16, .write .index 0 (encode64 b.blockNum), .resize .block ((codec.pack b).length + 8),
    .write .block 0 (codec.pack b), .write .block (codec.pack b).length (encode64 0), .write .index 8 (encode64 0)]

theorem appendOps_image (h : Contents codec B) (hb : Fits codec b) (hacc : Accepts B b) :
    ∃ m, appendOps .block .index (image codec B).impl b (codec.pack b) =
      .ok (if B = [] then firstOpsOf codec b else opsOf codec B b, m) := by
  by_cases hne : B = []
  · subst hne
    have hsize : usable (image codec ([] : List (SignedBlock Tx))).impl.logicalBlockSize = 0 := rfl
    refine ⟨extended codec (implOf codec []) [] b, ?_⟩
    unfold appendOps
    dsimp only
    rw [if_pos (by rfl), if_pos rfl, hsize, Nat.zero_add]
    rfl
  · have hm : Describes codec B (image codec B).impl := describes_implOf
    have hpaths : LogPath.block ≠ .index := by decide
    obtain ⟨ops, happ, -, -⟩ := appendOps_spec h hm hb hacc hpaths
    have hops := happ
    unfold appendOps at hops
    dsimp only at hops
    rw [hm.start, hm.index, hm.block, if_neg (startOf_ne_zero h hne), if_neg hne,
      if_pos ((accepts_iff h hb hne).mpr hacc)] at hops
    obtain ⟨rfl, -⟩ := Prod.mk.inj (Except.ok.inj hops)
    rw [if_neg hne]
    exact ⟨_, happ⟩

/-- **The files after each step of an append** to a log that has blocks. -/
theorem files_of_stage (hne : B ≠ []) (k : Nat) :
    runAll ((opsOf codec B b).take k) (filesOf codec B) = match k with
      | 0     => filesOf codec B
      | 1     => filesWith (dataOf codec 0 B ++ List.replicate (recordSize codec b) 0) (indexOf codec B)
      | 2     => filesWith (dataOf codec 0 B ++ codec.pack b ++ encode64 0) (indexOf codec B)
      | 3     => filesWith (dataOf codec 0 (B ++ [b])) (indexOf codec B)
      | 4     => filesWith (dataOf codec 0 (B ++ [b])) (indexOf codec B ++ encode64 0)
      | _ + 5 => filesOf codec (B ++ [b]) := by
  obtain ⟨h₁, h₂, h₃⟩ := blockFile_stages codec B b
  have h₄ : Files.resize (indexOf codec B) (8 + 8 * B.length + 8) = indexOf codec B ++ encode64 0 := by
    rw [encode64_zero]
    exact resize_extend (by rw [indexOf_length])
  have h₅ : write (indexOf codec B ++ encode64 0) (8 + 8 * B.length) (encode64 (sizeOf codec B)) =
      indexOf codec (B ++ [b]) := by
    have hwrite := write_zeros (indexOf codec B) (encode64 (sizeOf codec B)) 0
    rw [encode64_length, indexOf_length] at hwrite
    rw [encode64_zero, hwrite, indexOf_append hne, List.replicate_zero, List.append_nil]
  have hfull : filesOf codec (B ++ [b]) = filesWith (dataOf codec 0 (B ++ [b])) (indexOf codec (B ++ [b])) := by
    rw [filesOf_eq, blockFile_of_ne snoc_ne_nil, indexFile_of_ne snoc_ne_nil]
  have hfiles : filesOf codec B = filesWith (blockFile codec B) (indexOf codec B) := by
    rw [filesOf_eq, indexFile_of_ne hne]
  match k with
  | 0     => rfl
  | 1     =>
      show (FileOp.resize .block _).run (filesOf codec B) = _
      rw [hfiles, run_resize_block, h₁]
  | 2     =>
      show (FileOp.write .block _ _).run ((FileOp.resize .block _).run (filesOf codec B)) = _
      rw [hfiles, run_resize_block, h₁, run_write_block, h₂]
  | 3     =>
      show (FileOp.write .block _ _).run ((FileOp.write .block _ _).run ((FileOp.resize .block _).run
        (filesOf codec B))) = _
      rw [hfiles, run_resize_block, h₁, run_write_block, h₂, run_write_block, h₃]
  | 4     =>
      show (FileOp.resize .index _).run ((FileOp.write .block _ _).run ((FileOp.write .block _ _).run
        ((FileOp.resize .block _).run (filesOf codec B)))) = _
      rw [hfiles, run_resize_block, h₁, run_write_block, h₂, run_write_block, h₃, run_resize_index, h₄]
  | k + 5 =>
      rw [List.take_of_length_le (by unfold opsOf; simp)]
      show (FileOp.write .index _ _).run ((FileOp.resize .index _).run ((FileOp.write .block _ _).run
        ((FileOp.write .block _ _).run ((FileOp.resize .block _).run (filesOf codec B))))) = _
      rw [hfiles, run_resize_block, h₁, run_write_block, h₂, run_write_block, h₃, run_resize_index, h₄,
        run_write_index, h₅, hfull]

/-- The files after so many steps of the first append. -/
def firstStage (codec : BlockCodec Tx) (b : SignedBlock Tx) : Nat → FileSystem LogPath
  | 0     => filesOf codec []
  | 1     => filesWith [0] (List.replicate 16 0)
  | 2     => filesWith [0] (indexOf codec [b])
  | 3     => filesWith (List.replicate (recordSize codec b) 0) (indexOf codec [b])
  | _ + 4 => filesOf codec [b]

/-- **The files after each step of the first append.** -/
theorem files_of_first_stage (k : Nat) :
    runAll ((firstOpsOf codec b).take k) (filesOf codec []) = firstStage codec b k := by
  obtain ⟨h₁, h₂, h₃⟩ := blockFile_stages codec [] b
  rw [sizeOf_nil, Nat.zero_add] at h₁ h₃
  rw [sizeOf_nil] at h₂
  have hindex : indexOf codec [b] = encode64 b.blockNum ++ encode64 0 := by
    unfold indexOf
    simp only [positions, List.map_cons, List.map_nil, List.flatten_cons, List.flatten_nil, List.append_nil]
    rfl
  have h₄ : write (List.replicate 16 0) 0 (encode64 b.blockNum) = indexOf codec [b] := by
    have hwrite := write_zeros [] (encode64 b.blockNum) 8
    rw [encode64_length] at hwrite
    rw [hindex, encode64_zero]
    exact hwrite
  have h₅ : write (indexOf codec [b]) 8 (encode64 0) = indexOf codec [b] := by
    have hwrite := write_behind (encode64 b.blockNum) (encode64 0) (encode64 0)
    rw [encode64_length] at hwrite
    rw [hindex, hwrite, encode64_length, List.drop_of_length_le (Nat.le_of_eq encode64_length), List.append_nil]
  -- the position of the first block is the zeros that stand there
  have h₆ : dataOf codec 0 [] ++ codec.pack b ++ encode64 0 = dataOf codec 0 [b] := by
    simp only [dataOf, List.nil_append, List.append_nil]
  have hfull : filesOf codec [b] = filesWith (dataOf codec 0 [b]) (indexOf codec [b]) := filesOf_eq
  have hfiles : filesOf codec ([] : List (SignedBlock Tx)) = filesWith [0] [0] := filesOf_eq
  have h₀ : Files.resize [0] 16 = List.replicate 16 0 := rfl
  have h₁ : Files.resize [0] ((codec.pack b).length + 8) = List.replicate (recordSize codec b) 0 := h₁
  have h₂ : write (List.replicate (recordSize codec b) 0) 0 (codec.pack b) = dataOf codec 0 [b] := h₂.trans h₆
  have h₃ : write (dataOf codec 0 [b]) (codec.pack b).length (encode64 0) = dataOf codec 0 [b] := by
    rw [h₆] at h₃
    exact h₃
  unfold firstStage
  rcases k with _ | _ | _ | _ | _ | _ | k
  · rfl
  · show (FileOp.resize .index 16).run (filesOf codec []) = _
    rw [hfiles, run_resize_index, h₀]
  · show (FileOp.write .index 0 _).run ((FileOp.resize .index 16).run (filesOf codec [])) = _
    rw [hfiles, run_resize_index, h₀, run_write_index, h₄]
  · show (FileOp.resize .block _).run ((FileOp.write .index 0 _).run ((FileOp.resize .index 16).run
      (filesOf codec []))) = _
    rw [hfiles, run_resize_index, h₀, run_write_index, h₄, run_resize_block, h₁]
  · show (FileOp.write .block 0 _).run ((FileOp.resize .block _).run ((FileOp.write .index 0 _).run
      ((FileOp.resize .index 16).run (filesOf codec [])))) = _
    rw [hfiles, run_resize_index, h₀, run_write_index, h₄, run_resize_block, h₁, run_write_block, h₂, hfull]
  · show (FileOp.write .block _ _).run ((FileOp.write .block 0 _).run ((FileOp.resize .block _).run
      ((FileOp.write .index 0 _).run ((FileOp.resize .index 16).run (filesOf codec []))))) = _
    rw [hfiles, run_resize_index, h₀, run_write_index, h₄, run_resize_block, h₁, run_write_block, h₂,
      run_write_block, h₃, hfull]
  · rw [List.take_of_length_le (by unfold firstOpsOf; simp)]
    show (FileOp.write .index 8 _).run ((FileOp.write .block _ _).run ((FileOp.write .block 0 _).run
      ((FileOp.resize .block _).run ((FileOp.write .index 0 _).run ((FileOp.resize .index 16).run
        (filesOf codec [])))))) = _
    rw [hfiles, run_resize_index, h₀, run_write_index, h₄, run_resize_block, h₁, run_write_block, h₂,
      run_write_block, h₃, run_write_index, h₅, hfull]

/-! ## Opening -/

/-- **The log holds the blocks**: the last of them is its head, and it reads each of them under its number and
    nothing else. -/
def Holds (codec : BlockCodec Tx) (log : Log Tx) (B : List (SignedBlock Tx)) : Prop :=
  log.impl.head = B.getLast? ∧ ∀ n, log.readBlockByNum codec n = .ok (B.find? (fun b => b.blockNum = n))

section Opening

variable {log log' : Log Tx} {t idx : Bytes}

theorem holds_image (h : Contents codec B) : Holds codec (image codec B) B := ⟨rfl, fun _ => readBlockByNum_image h⟩

/-- Building the index leaves the head. -/
theorem constructIndex_head (h : log.constructIndex codec a = .ok log') : log'.impl.head = log.impl.head := by
  unfold Log.constructIndex at h
  dsimp only at h
  obtain ⟨endPos, -, h⟩ := Prog.except_bind_eq_ok h
  obtain ⟨first, -, h⟩ := Prog.except_bind_eq_ok h
  obtain ⟨idx, -, h⟩ := Prog.except_bind_eq_ok h
  rw [← Except.ok.inj h]
  rfl

/-- **Data has a head**: the block at the position its last eight bytes give. -/
theorem openFiles_data {data : Bytes} (hlen : indexHeaderSize < data.length) (hi : idx ≠ []) :
    openFiles codec (filesWith data idx) = (do
      let pos ← getLastUint64 data
      let head ← readBlock codec data.length data pos
      let log : Log Tx := { files := filesWith data idx, impl := {
        isOpen := true, head := some head.1, headId := head.1.id
        logicalBlockSize := data.length, logicalIndexSize := idx.length } }
      if indexHeaderSize < idx.length then
        let start ← getUint64 idx 0
        let indexPos ← getLastUint64 idx
        let log := { log with impl := { log.impl with startBlockNum := start % 2 ^ 32 } }
        if pos ≠ indexPos then log.constructIndex codec head.1 else .ok log
      else log.constructIndex codec head.1) := by
  have hd : data ≠ [] := fun h => by rw [h] at hlen; cases hlen
  unfold openFiles
  rw [recover_filesWith hd hi]
  dsimp only [Log.syncLogicalSizes]
  rw [bytesAt_block, bytesAt_index, if_pos hlen]

/-- The head is what is read where the last eight bytes point. -/
theorem openFiles_head {data : Bytes} {pos next : Nat} {z : SignedBlock Tx} (hlen : indexHeaderSize < data.length) (hi : idx ≠ [])
    (hpos : getLastUint64 data = .ok pos) (hread : readBlock codec data.length data pos = .ok (z, next))
    (h : openFiles codec (filesWith data idx) = .ok log') : log'.impl.head = some z := by
  rw [openFiles_data hlen hi, hpos] at h
  simp only [bind, Except.bind, hread] at h
  by_cases hidx : indexHeaderSize < idx.length
  · rw [if_pos hidx] at h
    obtain ⟨start, -, h⟩ := Prog.except_bind_eq_ok h
    obtain ⟨indexPos, -, h⟩ := Prog.except_bind_eq_ok h
    by_cases hne : pos ≠ indexPos
    · rw [if_pos hne] at h
      exact constructIndex_head h
    · rw [if_neg hne] at h
      rw [← Except.ok.inj h]
  · rw [if_neg hidx] at h
    exact constructIndex_head h

/-- A position that fits is read where the index ends with it. -/
theorem openFiles_same {data : Bytes} {pos next start : Nat} {z : SignedBlock Tx} (hlen : indexHeaderSize < data.length)
    (hidx : indexHeaderSize < idx.length) (hpos : getLastUint64 data = .ok pos)
    (hread : readBlock codec data.length data pos = .ok (z, next)) (hstart : getUint64 idx 0 = .ok start)
    (hlast : getLastUint64 idx = .ok pos) :
    openFiles codec (filesWith data idx) = .ok { files := filesWith data idx, impl := {
      isOpen := true, head := some z, headId := z.id, startBlockNum := start % 2 ^ 32
      logicalBlockSize := data.length, logicalIndexSize := idx.length } } := by
  have hi : idx ≠ [] := fun h => by rw [h] at hidx; cases hidx
  rw [openFiles_data hlen hi, hpos]
  simp only [bind, Except.bind, hread]
  rw [if_pos hidx, hstart, hlast]
  exact if_neg (not_not.mpr rfl)

/-- An index without data is dropped. -/
theorem openFiles_wiped (hidx : indexHeaderSize < idx.length) :
    openFiles codec (filesWith [0] idx) = .ok (image codec []) := by
  have hi : idx ≠ [] := fun h => by rw [h] at hidx; cases hidx
  have hfiles : runAll [.remove .block, .remove .index, .touch .block, .touch .index] (filesWith [0] idx) =
      filesOf codec ([] : List (SignedBlock Tx)) := by
    funext q
    cases q <;> rfl
  unfold openFiles
  rw [recover_filesWith (List.cons_ne_nil _ _) hi]
  dsimp only
  rw [bytesAt_block, bytesAt_index, if_neg (by decide), if_pos hidx, hfiles]
  rfl

/-- **One block with the index of it is a log of this block**, whatever is behind it. -/
theorem holds_one {data : Bytes} {next : Nat} (hb : Fits codec b)
    (hread : readBlock codec data.length data 0 = .ok (b, next)) :
    Holds codec { files := filesWith data (indexOf codec [b]), impl := {
      isOpen := true, head := some b, headId := b.id, startBlockNum := b.blockNum % 2 ^ 32
      logicalBlockSize := data.length, logicalIndexSize := (indexOf codec [b]).length } } [b] := by
  have hnum := hb.num
  have hpos := hb.pos
  have hmod : b.blockNum % 2 ^ 32 = b.blockNum := Nat.mod_eq_of_lt (by omega)
  have hid : b.id.num = b.blockNum := rfl
  have hc : Contents codec ([] ++ b :: []) := contents_append .nil hb (.inl rfl)
  have hentry : getUint64 (indexOf codec [b]) 8 = .ok 0 := getUint64_index hc
  refine ⟨rfl, fun n => ?_⟩
  unfold Log.readBlockByNum Log.getBlockPos
  dsimp only
  rw [hmod, if_neg (by omega), hid]
  by_cases hn : b.blockNum = n
  · subst hn
    have hroom : ¬ usable (indexOf codec [b]).length < indexHeaderSize + 8 * 0 + 8 := by
      rw [indexOf_length]
      show ¬ usable 16 < 16
      decide
    have hfind : [b].find? (fun c => c.blockNum = b.blockNum) = some b := find?_at (A := []) hc.numbered
    rw [if_neg (by omega), Nat.sub_self, if_neg hroom, bytesAt_index, bytesAt_block, hfind]
    show (getUint64 (indexOf codec [b]) 8 >>= _) = _
    rw [hentry]
    simp only [bind, Except.bind]
    rw [if_pos (by decide), hread]
    exact if_pos rfl
  · have hout : n < b.blockNum ∨ b.blockNum < n := by omega
    rw [if_pos hout]
    have hnone : [b].find? (fun c => c.blockNum = n) = none := by
      rw [List.find?_singleton, if_neg (by simpa using hn)]
    rw [hnone]
    rfl

end Opening

/-! ## When an append survives -/

/-- **A crash-safe append**: wherever it stops, the log opens again and holds the blocks before it, or these and the
    new one. -/
def CrashSafe (codec : BlockCodec Tx) (log : Log Tx) (B : List (SignedBlock Tx)) (b : SignedBlock Tx) : Prop :=
  ∃ ops m, appendOps .block .index log.impl b (codec.pack b) = .ok (ops, m) ∧
    ∀ k, ∃ log', openFiles codec (runAll (ops.take k) log.files) = .ok log' ∧
      (Holds codec log' B ∨ Holds codec log' (B ++ [b]))

section Survival

theorem crashSafe_image (h : Contents codec B) (hb : Fits codec b) (hacc : Accepts B b) :
    CrashSafe codec (image codec B) B b ↔
      ∀ k, ∃ log', openFiles codec
          (runAll ((if B = [] then firstOpsOf codec b else opsOf codec B b).take k) (filesOf codec B)) = .ok log' ∧
        (Holds codec log' B ∨ Holds codec log' (B ++ [b])) := by
  obtain ⟨m, happ⟩ := appendOps_image h hb hacc
  constructor
  · rintro ⟨ops, m', hops, hall⟩
    obtain ⟨rfl, -⟩ := Prod.mk.inj (Except.ok.inj (happ.symm.trans hops))
    exact hall
  · intro hall
    exact ⟨_, m, happ, hall⟩

/-- What is torn is longer than an empty file. -/
theorem torn_length (h : Contents codec (a :: B)) {t : Bytes} : indexHeaderSize < (dataOf codec 0 (a :: B) ++ t).length := by
  have hlt := eight_lt_sizeOf h (List.cons_ne_nil a B)
  rw [List.length_append, dataOf_length]
  exact Nat.lt_add_right _ hlt

/-- **The third step saves the block**: from there on the index is the one of the data, or it is built again. -/
theorem opens_extended (h : Contents codec (B ++ [b])) (hne : B ≠ []) {g : Bytes}
    (hg : g = indexOf codec B ∨ g = indexOf codec B ++ encode64 0) :
    ∃ log', openFiles codec (filesWith (dataOf codec 0 (B ++ [b])) g) = .ok log' ∧ Holds codec log' (B ++ [b]) := by
  have hlen : indexHeaderSize < g.length := by
    have hpos : 0 < B.length := List.length_pos_iff.mpr hne
    rcases hg with rfl | rfl
    · rw [indexOf_length]
      show 8 < _
      omega
    · rw [List.length_append, indexOf_length]
      show 8 < _
      omega
  have hi : g ≠ [] := fun he => by rw [he] at hlen; cases hlen
  have hd : dataOf codec 0 (B ++ [b]) ≠ [] := by
    rw [← blockFile_of_ne snoc_ne_nil]
    exact blockFile_ne_nil
  have hB : Contents codec B := ⟨by
    have hnum := (numbered_append.mp h.numbered).1
    rwa [startOf_append hne] at hnum, fun c hc => h.fits c (List.mem_append_left _ hc)⟩
  -- the index does not end with the position of the new block
  have hlast : ∃ p, getLastUint64 g = .ok p ∧ p ≠ sizeOf codec B := by
    rcases hg with rfl | rfl
    · rcases List.eq_nil_or_concat' B with hnil | ⟨D, d, rfl⟩
      · exact absurd hnil hne
      · refine ⟨_, getLastUint64_index hB, ?_⟩
        have hpos : 8 ≤ recordSize codec d := recordSize_pos
        rw [sizeOf_append, sizeOf_cons, sizeOf_nil]
        omega
    · refine ⟨0, getLastUint64_torn, ?_⟩
      have hlt := eight_lt_sizeOf hB hne
      omega
  have hrec := recover_filesWith hd hi
  have hblock : recover (filesWith (dataOf codec 0 (B ++ [b])) g) .block = some (dataOf codec 0 (B ++ [b])) := by
    rw [hrec]
    rfl
  have hindex : recover (filesWith (dataOf codec 0 (B ++ [b])) g) .index = some g := by
    rw [hrec]
    rfl
  have hopen := openFiles_of_recovered h hblock hindex (.inr (.inr ⟨hlen, hlast⟩))
  refine ⟨_, hopen, ?_⟩
  have himage : image codec (B ++ [b]) = ⟨fun p => if p = .index then some (indexOf codec (B ++ [b]))
      else recover (filesWith (dataOf codec 0 (B ++ [b])) g) p, implOf codec (B ++ [b])⟩ := by
    rw [hrec]
    refine congrArg (fun f => Log.mk f (implOf codec (B ++ [b]))) ?_
    rw [filesOf_eq, blockFile_of_ne snoc_ne_nil, indexFile_of_ne snoc_ne_nil]
    funext q
    cases q <;> rfl
  rw [← himage]
  exact holds_image h

/-- **A log of one block survives.** -/
theorem crashSafe_one (h : Contents codec [a]) (hb : Fits codec b) (hacc : Accepts [a] b) :
    CrashSafe codec (image codec [a]) [a] b := by
  have hne : [a] ≠ [] := List.cons_ne_nil a []
  have hfull := contents_append h hb hacc
  have hfits := h.fits a List.mem_cons_self
  -- while the data is torn it is read as a log of its first block
  have htorn : ∀ t : Bytes, ∃ log', openFiles codec
      (filesWith (dataOf codec 0 [a] ++ (t ++ encode64 0)) (indexOf codec [a])) = .ok log' ∧ Holds codec log' [a] := by
    intro t
    have hlen : indexHeaderSize < (indexOf codec [a]).length := by rw [indexOf_length]; show 8 < 16; decide
    have hpos : getLastUint64 (dataOf codec 0 [a] ++ (t ++ encode64 0)) = .ok 0 := by
      rw [← List.append_assoc]
      exact getLastUint64_torn
    have hread := readBlock_torn (B := []) (t := t ++ encode64 0) hfits
    exact ⟨_, openFiles_same (torn_length h) hlen hpos hread (getUint64_header h) (getLastUint64_index (A := []) h),
      holds_one hfits hread⟩
  rw [crashSafe_image h hb hacc, if_neg hne]
  intro k
  rw [files_of_stage hne]
  match k with
  | 0     => exact ⟨_, openFiles_image h, .inl (holds_image h)⟩
  | 1     =>
      obtain ⟨log', hopen, hholds⟩ := htorn (List.replicate (codec.pack b).length 0)
      rw [← List.append_assoc, ← extended_eq] at hopen
      exact ⟨log', hopen, .inl hholds⟩
  | 2     =>
      obtain ⟨log', hopen, hholds⟩ := htorn (codec.pack b)
      rw [← List.append_assoc] at hopen
      exact ⟨log', hopen, .inl hholds⟩
  | 3     =>
      obtain ⟨log', hopen, hholds⟩ := opens_extended hfull hne (.inl rfl)
      exact ⟨log', hopen, .inr hholds⟩
  | 4     =>
      obtain ⟨log', hopen, hholds⟩ := opens_extended hfull hne (.inr rfl)
      exact ⟨log', hopen, .inr hholds⟩
  | _ + 5 => exact ⟨_, openFiles_image hfull, .inr (holds_image hfull)⟩

/-- **A longer log does not**: it comes back with its first block for a head. -/
theorem not_crashSafe_long (h : Contents codec (a :: B)) (hB : B ≠ []) (hb : Fits codec b) (hacc : Accepts (a :: B) b) :
    ¬ CrashSafe codec (image codec (a :: B)) (a :: B) b := by
  have hne : a :: B ≠ [] := List.cons_ne_nil a B
  have hfull := contents_append h hb hacc
  rw [crashSafe_image h hb hacc, if_neg hne]
  intro hall
  obtain ⟨log', hopen, hholds⟩ := hall 1
  rw [files_of_stage hne] at hopen
  dsimp only at hopen
  have hpos : getLastUint64 (dataOf codec 0 (a :: B) ++ List.replicate (recordSize codec b) 0) = .ok 0 := by
    rw [extended_eq]
    exact getLastUint64_torn
  have hi : indexOf codec (a :: B) ≠ [] := by
    rw [← indexFile_of_ne hne]
    exact indexFile_ne_nil
  have hhead := openFiles_head (torn_length h) hi hpos (readBlock_torn (h.fits a List.mem_cons_self)) hopen
  rcases hholds with hold | hnew
  · exact hB (h.numbered.eq_nil_of_last (hold.1.symm.trans hhead))
  · have hnil := hfull.numbered.eq_nil_of_last (hnew.1.symm.trans hhead)
    exact snoc_ne_nil hnil

/-- **An empty log survives exactly when zeros are read as the block.** -/
theorem crashSafe_empty (hb : Fits codec b) : CrashSafe codec (image codec []) [] b ↔ ReadsZeros codec b := by
  have hone : Contents codec [b] := contents_append .nil hb (.inl rfl)
  have hlen : indexHeaderSize < (List.replicate (recordSize codec b) (0 : UInt8)).length := zeros_length hb
  have hzeros : getLastUint64 (List.replicate (recordSize codec b) 0) = .ok 0 := getLastUint64_zeros
  have hindex : indexHeaderSize < (indexOf codec [b]).length := by rw [indexOf_length]; show 8 < 16; decide
  rw [crashSafe_image .nil hb (.inl rfl), if_pos rfl]
  constructor
  · intro hall
    obtain ⟨log', hopen, hholds⟩ := hall 3
    rw [files_of_first_stage] at hopen
    dsimp only [firstStage] at hopen
    have hi : indexOf codec [b] ≠ [] := fun he => by rw [he] at hindex; cases hindex
    cases hread : readBlock codec (List.replicate (recordSize codec b) (0 : UInt8)).length
        (List.replicate (recordSize codec b) 0) 0 with
    | error e =>
        rw [openFiles_data hlen hi, hzeros] at hopen
        simp only [bind, Except.bind, hread] at hopen
        cases hopen
    | ok r =>
        have hhead := openFiles_head hlen hi hzeros hread hopen
        rcases hholds with hold | hnew
        · exact absurd (hold.1.symm.trans hhead) (by simp)
        · have hr : r.1 = b := by
            have heq := hnew.1.symm.trans hhead
            exact (Option.some.inj heq).symm
          refine ⟨r.2, ?_⟩
          rw [List.length_replicate] at hread
          rw [hread, ← hr]
  · rintro ⟨next, hread⟩ k
    rw [files_of_first_stage]
    unfold firstStage
    match k with
    | 0     => exact ⟨_, openFiles_image .nil, .inl (holds_image .nil)⟩
    | 1     => exact ⟨_, openFiles_wiped (by decide), .inl (holds_image .nil)⟩
    | 2     => exact ⟨_, openFiles_wiped hindex, .inl (holds_image .nil)⟩
    | 3     =>
        have hread : readBlock codec (List.replicate (recordSize codec b) (0 : UInt8)).length
            (List.replicate (recordSize codec b) 0) 0 = .ok (b, next) := by rwa [List.length_replicate]
        exact ⟨_, openFiles_same hlen hindex hzeros hread (getUint64_header hone)
          (getLastUint64_index (A := []) hone), .inr (holds_one hb hread)⟩
    | _ + 4 => exact ⟨_, openFiles_image hone, .inr (holds_image hone)⟩

/-- **When an append survives.** -/
theorem crashSafe_iff (h : Contents codec B) (hb : Fits codec b) (hacc : Accepts B b) :
    CrashSafe codec (image codec B) B b ↔ Survives codec B b := by
  unfold Survives
  match B with
  | []          => simpa using crashSafe_empty hb
  | [a]         => exact iff_of_true (crashSafe_one h hb hacc) (.inl rfl)
  | a :: c :: B =>
      refine iff_of_false (not_crashSafe_long h (List.cons_ne_nil c B) hb hacc) ?_
      rintro (hone | ⟨hnil, -⟩)
      · cases hone
      · cases hnil

end Survival

end DltBlockLog

end VizNode
