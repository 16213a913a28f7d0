import VizNode.BlockLog.Model
import VizNode.DltBlockLog.Images

/-!
# `VizNode.BlockLog.Images` — the log of given blocks

The files and the members of a log that holds the blocks `1, 2, …`, and what opening, reading and appending do with
them. A run of a log is a run of lists of blocks: `run_refines`.

## Contents
- **Images.** `filesOf`, `image`.
- **Appending.** `files_of_stage`: the files after each step of an append.
- **Opening.** `openFiles_of`: the index is the one of the data, or it is built again.
- **Reading.** `readBlockByNum_image`.
- **Runs.** `View`, and `run_refines`.
-/

namespace VizNode

namespace BlockLog

open Files DltBlockLog

variable {Tx : Type} {codec : BlockCodec Tx}

/-! ## Images -/

/-- The entries of the index. -/
def entries (codec : BlockCodec Tx) (B : List (SignedBlock Tx)) : Bytes := ((positions codec 0 B).map encode64).flatten

/-- The index file. -/
def indexFile (codec : BlockCodec Tx) : List (SignedBlock Tx) → Bytes
  | [] => [0]
  | B  => entries codec B

/-- The two files. -/
def filesWith (data idx : Bytes) : FileSystem Path
  | .block => some data
  | .index => some idx

def filesOf (codec : BlockCodec Tx) (B : List (SignedBlock Tx)) : FileSystem Path :=
  filesWith (blockFile codec B) (indexFile codec B)

/-- The members of an open log. -/
def implOf (B : List (SignedBlock Tx)) : Impl Tx where
  isOpen := true
  head   := B.getLast?
  headId := (B.getLast?.map SignedBlock.id).getD .zero

/-- **The log of given blocks.** -/
def image (codec : BlockCodec Tx) (B : List (SignedBlock Tx)) : Log Tx := ⟨filesOf codec B, implOf B⟩

/-- **The blocks of a log**, from block 1 on. -/
structure FromOne (codec : BlockCodec Tx) (B : List (SignedBlock Tx)) : Prop where
  contents : Contents codec B
  first    : Numbered 1 B

section Images

variable {A B C D : List (SignedBlock Tx)} {b d : SignedBlock Tx} {log : Log Tx} {fs : FileSystem Path} {m : Impl Tx}
  {n : Nat}

theorem FromOne.nil : FromOne codec ([] : List (SignedBlock Tx)) := ⟨.nil, trivial⟩

theorem FromOne.startOf (h : FromOne codec B) (hne : B ≠ []) : startOf B = 1 := by
  cases B with
  | nil => exact absurd rfl hne
  | cons b B => exact h.first.1

theorem entries_length : (entries codec B).length = 8 * B.length := by
  unfold entries
  rw [flatten_encode64_length, positions_length]

theorem entries_append : entries codec (A ++ [b]) = entries codec A ++ encode64 (sizeOf codec A) := by
  unfold entries
  rw [positions_append, Nat.zero_add, List.map_append, List.flatten_append]
  simp only [positions, List.map_cons, List.map_nil, List.flatten_cons, List.flatten_nil, List.append_nil]

theorem indexFile_of_ne (h : B ≠ []) : indexFile codec B = entries codec B := by
  cases B with
  | nil => exact absurd rfl h
  | cons b B => rfl

theorem usable_indexFile : usable (indexFile codec B).length = 8 * B.length := by
  cases B with
  | nil => rfl
  | cons b B =>
      rw [indexFile_of_ne (List.cons_ne_nil b B), entries_length, List.length_cons]
      exact usable_of_le (by omega)

theorem indexFile_ne_nil : indexFile codec B ≠ [] := by
  cases B with
  | nil => exact List.cons_ne_nil _ _
  | cons b B =>
      intro h
      have hlen : (indexFile codec (b :: B)).length = 0 := by rw [h]; rfl
      rw [indexFile_of_ne (List.cons_ne_nil b B), entries_length, List.length_cons] at hlen
      omega

theorem getLastUint64_entries (h : Contents codec (A ++ [b])) :
    getLastUint64 (entries codec (A ++ [b])) = .ok (sizeOf codec A) :=
  getLastUint64_at entries_append (lt_two_pow_of_lt_npos h.prefix_lt)

/-- **The index finds each block by its number.** -/
theorem getUint64_entries (h : Contents codec (A ++ b :: C)) :
    getUint64 (entries codec (A ++ b :: C)) (8 * A.length) = .ok (sizeOf codec A) := by
  have hpre : (entries codec A).length = 8 * A.length := entries_length
  rw [← hpre]
  refine getUint64_at (q := ((positions codec (sizeOf codec A + recordSize codec b) C).map encode64).flatten) ?_
    (lt_two_pow_of_lt_npos h.prefix_lt)
  unfold entries
  rw [positions_append, positions_cons, Nat.zero_add, List.map_append, List.flatten_append, List.map_cons,
    List.flatten_cons, List.append_assoc]

/-- The last block has the number of blocks for its number. -/
theorem FromOne.last_num (h : FromOne codec (D ++ [d])) : d.blockNum = (D ++ [d]).length := by
  have hnum : d.blockNum = 1 + D.length := h.first.num
  rw [List.length_append, List.length_singleton]
  omega

/-! ## Appending -/

/-- The operations of an append. -/
def opsOf (codec : BlockCodec Tx) (B : List (SignedBlock Tx)) (b : SignedBlock Tx) : List (FileOp Path) :=
  [.resize .block (sizeOf codec B + (codec.pack b).length + 8), .write .block (sizeOf codec B) (codec.pack b),
    .write .block (sizeOf codec B + (codec.pack b).length) (encode64 (sizeOf codec B)),
    .resize .index (8 * B.length + 8), .write .index (8 * B.length) (encode64 (sizeOf codec B))]

section Stages

variable {data idx bytes : Bytes} {pos : Nat}

@[simp] theorem run_resize_block :
    (FileOp.resize .block pos).run (filesWith data idx) = filesWith (Files.resize data pos) idx := by
  funext q
  cases q <;> rfl

@[simp] theorem run_resize_index :
    (FileOp.resize .index pos).run (filesWith data idx) = filesWith data (Files.resize idx pos) := by
  funext q
  cases q <;> rfl

@[simp] theorem run_write_block :
    (FileOp.write .block pos bytes).run (filesWith data idx) = filesWith (write data pos bytes) idx := by
  funext q
  cases q <;> rfl

@[simp] theorem run_write_index :
    (FileOp.write .index pos bytes).run (filesWith data idx) = filesWith data (write idx pos bytes) := by
  funext q
  cases q <;> rfl

end Stages

/-- **The files after each step of an append.** The data is extended, filled and closed with its position, then the
    index likewise. -/
theorem files_of_stage (k : Nat) :
    runAll ((opsOf codec B b).take k) (filesOf codec B) = match k with
      | 0     => filesOf codec B
      | 1     => filesWith (dataOf codec 0 B ++ List.replicate (recordSize codec b) 0) (indexFile codec B)
      | 2     => filesWith (dataOf codec 0 B ++ codec.pack b ++ encode64 0) (indexFile codec B)
      | 3     => filesWith (dataOf codec 0 (B ++ [b])) (indexFile codec B)
      | 4     => filesWith (dataOf codec 0 (B ++ [b])) (entries codec B ++ encode64 0)
      | _ + 5 => filesOf codec (B ++ [b]) := by
  obtain ⟨h₁, h₂, h₃⟩ := blockFile_stages codec B b
  have h₄ : Files.resize (indexFile codec B) (8 * B.length + 8) = entries codec B ++ encode64 0 := by
    cases B with
    | nil => rfl
    | cons c B =>
        rw [indexFile_of_ne (List.cons_ne_nil c B), encode64_zero]
        exact resize_extend (by rw [entries_length])
  have h₅ : write (entries codec B ++ encode64 0) (8 * B.length) (encode64 (sizeOf codec B)) =
      entries codec (B ++ [b]) := by
    have hwrite := write_zeros (entries codec B) (encode64 (sizeOf codec B)) 0
    rw [encode64_length, entries_length] at hwrite
    rw [encode64_zero, hwrite, entries_append, List.replicate_zero, List.append_nil]
  have hfull : filesOf codec (B ++ [b]) = filesWith (dataOf codec 0 (B ++ [b])) (entries codec (B ++ [b])) := by
    unfold filesOf
    rw [blockFile_of_ne snoc_ne_nil, indexFile_of_ne snoc_ne_nil]
  match k with
  | 0     => rfl
  | 1     =>
      show (FileOp.resize .block _).run (filesWith _ _) = _
      rw [run_resize_block, h₁]
  | 2     =>
      show (FileOp.write .block _ _).run ((FileOp.resize .block _).run (filesWith _ _)) = _
      rw [run_resize_block, h₁, run_write_block, h₂]
  | 3     =>
      show (FileOp.write .block _ _).run ((FileOp.write .block _ _).run ((FileOp.resize .block _).run
        (filesWith _ _))) = _
      rw [run_resize_block, h₁, run_write_block, h₂, run_write_block, h₃]
  | 4     =>
      show (FileOp.resize .index _).run ((FileOp.write .block _ _).run ((FileOp.write .block _ _).run
        ((FileOp.resize .block _).run (filesWith _ _)))) = _
      rw [run_resize_block, h₁, run_write_block, h₂, run_write_block, h₃, run_resize_index, h₄]
  | k + 5 =>
      rw [List.take_of_length_le (by unfold opsOf; simp)]
      show (FileOp.write .index _ _).run ((FileOp.resize .index _).run ((FileOp.write .block _ _).run
        ((FileOp.write .block _ _).run ((FileOp.resize .block _).run (filesWith _ _))))) = _
      rw [run_resize_block, h₁, run_write_block, h₂, run_write_block, h₃, run_resize_index, h₄, run_write_index, h₅,
        hfull]

/-! ## Opening -/

/-- Files that are there are mapped as they are. -/
theorem touch_filesWith {data idx : Bytes} (hd : data ≠ []) (hi : idx ≠ []) :
    runAll [.touch .block, .touch .index] (filesWith data idx) = filesWith data idx := by
  funext q
  cases q with
  | block => exact if_neg (fun h => h.elim (fun hn => nomatch hn) (fun hs => hd (Option.some.inj hs)))
  | index => exact if_neg (fun h => h.elim (fun hn => nomatch hn) (fun hs => hi (Option.some.inj hs)))

@[simp] theorem bytesAt_block {data idx : Bytes} : bytesAt (filesWith data idx) .block = data := rfl

@[simp] theorem bytesAt_index {data idx : Bytes} : bytesAt (filesWith data idx) .index = idx := rfl

/-- **The index built from the data is the index of its blocks.** -/
theorem constructIndex_spec (h : FromOne codec (D ++ [d])) {idx : Bytes} :
    (Log.mk (filesWith (dataOf codec 0 (D ++ [d])) idx) m).constructIndex codec d =
      .ok ⟨filesWith (dataOf codec 0 (D ++ [d])) (entries codec (D ++ [d])), m⟩ := by
  have hblock : bytesAt (runAll [.remove .index, .touch .index] (filesWith (dataOf codec 0 (D ++ [d])) idx)) .block =
      dataOf codec 0 (D ++ [d]) := rfl
  have hindex : bytesAt (runAll [.remove .index, .touch .index] (filesWith (dataOf codec 0 (D ++ [d])) idx)) .index =
      [0] := rfl
  have hfuel : (D ++ [d]).length < (dataOf codec 0 (D ++ [d])).length + 1 := by
    have hle : 8 * (D ++ [d]).length ≤ sizeOf codec (D ++ [d]) := length_le_sizeOf
    rw [dataOf_length]
    omega
  have hspace : (Files.resize [0] (d.blockNum * 8)).length = 8 * (D ++ [d]).length := by
    rw [resize_length, h.last_num, Nat.mul_comm]
  have hwalk : walkBlocks codec (sizeOf codec (D ++ [d])) (dataOf codec 0 (D ++ [d])) (sizeOf codec D)
      ((dataOf codec 0 (D ++ [d])).length + 1) 0 0 (Files.resize [0] (d.blockNum * 8)) =
      .ok (entries codec (D ++ [d])) :=
    walkBlocks_from (A := []) h.contents rfl hfuel [] hspace
  unfold Log.constructIndex
  dsimp only
  rw [hblock, hindex, getLastUint64_data h.contents]
  simp only [bind, Except.bind, dataOf_length] at hwalk ⊢
  rw [hwalk]
  refine congrArg Except.ok (congrArg (fun f => Log.mk f m) ?_)
  funext q
  cases q with
  | block => rfl
  | index => rfl

/-- **Opening files that hold blocks.** -/
theorem openFiles_of (h : FromOne codec (D ++ [d])) {g : Bytes} (hg : g ≠ [])
    (hidx : g = entries codec (D ++ [d]) ∨ g.length < 8 ∨ 8 ≤ g.length ∧ ∃ p, getLastUint64 g = .ok p ∧ p ≠ sizeOf codec D) :
    openFiles codec m (filesWith (dataOf codec 0 (D ++ [d])) g) = .ok (image codec (D ++ [d])) := by
  have hread := readBlock_at (C := []) h.contents
  have hlong : 8 < (dataOf codec 0 (D ++ [d])).length := by
    rw [dataOf_length]
    exact eight_lt_sizeOf h.contents snoc_ne_nil
  have hdata : dataOf codec 0 (D ++ [d]) ≠ [] := by
    rw [← blockFile_of_ne snoc_ne_nil]
    exact blockFile_ne_nil
  have himage : image codec (D ++ [d]) = ⟨filesWith (dataOf codec 0 (D ++ [d])) (entries codec (D ++ [d])),
      { isOpen := true, head := some d, headId := d.id }⟩ := by
    unfold image filesOf implOf
    rw [blockFile_of_ne snoc_ne_nil, indexFile_of_ne snoc_ne_nil, getLast?_snoc]
    rfl
  unfold openFiles
  dsimp only
  rw [touch_filesWith hdata hg, himage, bytesAt_block, bytesAt_index, if_pos hlong, getLastUint64_data h.contents]
  simp only [bind, Except.bind]
  rw [dataOf_length, hread]
  dsimp only
  rcases hidx with rfl | hshort | ⟨hlen, p, hp, hne⟩
  · have hlen : 8 ≤ (entries codec (D ++ [d])).length := by
      rw [entries_length, List.length_append, List.length_singleton]
      omega
    rw [if_pos hlen, getLastUint64_entries h.contents]
    exact if_neg (not_not.mpr rfl)
  · rw [if_neg (Nat.not_le.mpr hshort)]
    exact constructIndex_spec h
  · rw [if_pos hlen, hp]
    dsimp only
    rw [if_pos (fun he => hne he.symm)]
    exact constructIndex_spec h

/-- **Opening the files of a log gives back the log.** -/
theorem openFiles_image (h : FromOne codec B) (hm : m.head = none ∧ m.headId = .zero ∨ B ≠ []) :
    openFiles codec m (filesOf codec B) = .ok (image codec B) := by
  rcases List.eq_nil_or_concat' B with rfl | ⟨D, d, rfl⟩
  · obtain ⟨h₁, h₂⟩ := hm.resolve_right (fun hne => hne rfl)
    have hfiles : filesOf codec ([] : List (SignedBlock Tx)) = filesWith [0] [0] := rfl
    unfold openFiles
    dsimp only
    rw [hfiles, touch_filesWith (List.cons_ne_nil _ _) (List.cons_ne_nil _ _), bytesAt_block, bytesAt_index,
      if_neg (by decide), if_neg (by decide)]
    obtain ⟨o, head, headId⟩ := m
    cases h₁
    cases h₂
    rfl
  · unfold filesOf
    rw [blockFile_of_ne snoc_ne_nil]
    exact openFiles_of h indexFile_ne_nil (.inl (indexFile_of_ne snoc_ne_nil))

/-- A log object over no files starts empty. -/
theorem openFiles_none (hm : m.head = none ∧ m.headId = .zero) :
    openFiles codec m (fun _ => none) = .ok (image codec []) := by
  rw [← openFiles_image FromOne.nil (.inl hm)]
  unfold openFiles
  dsimp only
  have htouch : runAll [.touch .block, .touch .index] (fun _ => none) =
      runAll [.touch .block, .touch .index] (filesOf codec ([] : List (SignedBlock Tx))) := by
    funext q
    cases q <;> rfl
  rw [htouch]

end Images

/-! ## Reading -/

section Reading

variable {A B C D : List (SignedBlock Tx)} {b d : SignedBlock Tx} {n : Nat}

theorem headId_num (h : FromOne codec B) (hne : B ≠ []) : (image codec B).impl.headId.num = B.length := by
  rcases List.eq_nil_or_concat' B with rfl | ⟨D, d, rfl⟩
  · exact absurd rfl hne
  · have hid : (image codec (D ++ [d])).impl.headId = d.id := by
      show ((D ++ [d]).getLast?.map SignedBlock.id).getD .zero = d.id
      rw [getLast?_snoc]
      rfl
    rw [hid]
    exact h.last_num

theorem head_image : (image codec (D ++ [d])).impl.head = some d := getLast?_snoc

theorem getBlockPos_at (h : FromOne codec (A ++ b :: C)) :
    (image codec (A ++ b :: C)).getBlockPos b.blockNum = .ok (sizeOf codec A) := by
  have hne : A ++ b :: C ≠ [] := List.append_ne_nil_of_right_ne_nil A (List.cons_ne_nil b C)
  have hnum : b.blockNum = 1 + A.length := h.first.num
  have hhead := headId_num h hne
  rw [List.length_append, List.length_cons] at hhead
  have hidx : bytesAt (image codec (A ++ b :: C)).files .index = entries codec (A ++ b :: C) := indexFile_of_ne hne
  obtain ⟨e, he⟩ : ∃ e, (image codec (A ++ b :: C)).impl.head = some e := ⟨_, List.getLast?_eq_some_getLast hne⟩
  unfold Log.getBlockPos
  rw [he]
  dsimp only
  rw [if_pos (by omega), hidx, hnum, Nat.add_sub_cancel_left]
  exact getUint64_entries h.contents

theorem getBlockPos_out (h : FromOne codec B) (hn : n < 1 ∨ 1 + B.length ≤ n) :
    (image codec B).getBlockPos n = .ok npos := by
  rcases List.eq_nil_or_concat' B with rfl | ⟨D, d, rfl⟩
  · rfl
  · have hhead := headId_num h snoc_ne_nil
    unfold Log.getBlockPos
    rw [head_image]
    dsimp only
    rw [if_neg (by omega)]

/-- **`read_block_by_num` finds each block of the log, and nothing else.** -/
theorem readBlockByNum_image (h : FromOne codec B) :
    (image codec B).readBlockByNum codec n = .ok (B.find? (fun b => b.blockNum = n)) := by
  unfold Log.readBlockByNum
  rcases h.first.find (n := n) with hlow | hhigh | ⟨A, b, C, rfl, rfl⟩
  · rw [getBlockPos_out h (.inl hlow), find?_out h.first (.inl hlow)]
    rfl
  · rw [getBlockPos_out h (.inr hhigh), find?_out h.first (.inr hhigh)]
    rfl
  · have hne : A ++ b :: C ≠ [] := List.append_ne_nil_of_right_ne_nil A (List.cons_ne_nil b C)
    have hdata : bytesAt (image codec (A ++ b :: C)).files .block = dataOf codec 0 (A ++ b :: C) := blockFile_of_ne hne
    have hlt : sizeOf codec A ≠ npos := Nat.ne_of_lt h.contents.prefix_lt
    rw [getBlockPos_at h, find?_at h.first]
    simp only [bind, Except.bind]
    rw [if_pos hlt, hdata, dataOf_length, readBlock_at h.contents]
    dsimp only
    rw [if_pos rfl]

end Reading

/-! ## Runs -/

/-- **The abstract log**: its blocks, and whether it is open. -/
structure View (Tx : Type) where
  blocks : List (SignedBlock Tx) := []
  isOpen : Bool := false

namespace View

/-- What a command means. -/
def step (v : View Tx) : Command Tx → View Tx
  | .append b => if v.isOpen = true ∧ b.blockNum = v.blocks.length + 1 then { v with blocks := v.blocks ++ [b] } else v
  | .close    => { v with isOpen := false }
  | .openLog  => { v with isOpen := true }

theorem step_append {v : View Tx} {b : SignedBlock Tx} : v.step (.append b) =
    if v.isOpen = true ∧ b.blockNum = v.blocks.length + 1 then { v with blocks := v.blocks ++ [b] } else v := rfl

def run (cs : List (Command Tx)) : View Tx := cs.foldl step {}

end View

/-- **The log of files refines the abstract log.** -/
structure Refines (codec : BlockCodec Tx) (log : Log Tx) (v : View Tx) : Prop where
  contents : FromOne codec v.blocks
  opened   : v.isOpen = true → log = image codec v.blocks
  closed   : v.isOpen = false → log.impl = {} ∧
    (log.files = filesOf codec v.blocks ∨ v.blocks = [] ∧ log.files = fun _ => none)

section Runs

variable {B : List (SignedBlock Tx)} {b : SignedBlock Tx} {log : Log Tx} {v : View Tx}

theorem fromOne_append (h : FromOne codec B) (hb : Fits codec b) (hnum : b.blockNum = B.length + 1) :
    FromOne codec (B ++ [b]) := by
  refine ⟨contents_append h.contents hb ?_, numbered_append.mpr ⟨h.first, ?_, trivial⟩⟩
  · by_cases hne : B = []
    · exact .inl hne
    · refine .inr ?_
      rw [h.startOf hne]
      omega
  · omega

/-- **Appending to an open log**: the next block, and no other one. -/
theorem appendOps_image (h : FromOne codec B) (hb : Fits codec b) :
    appendOps (image codec B) b (codec.pack b) =
      if b.blockNum = B.length + 1 then .ok (opsOf codec B b, { implOf B with head := some b, headId := b.id })
      else .error .appendPosition := by
  have hindex : usable (bytesAt (image codec B).files .index).length = 8 * B.length := usable_indexFile
  have hblock : usable (bytesAt (image codec B).files .block).length = sizeOf codec B := usable_blockFile
  have hlen := h.contents.length_lt
  have hnum := hb.num
  have hpos := hb.pos
  unfold appendOps
  dsimp only
  rw [hindex, hblock]
  by_cases hacc : b.blockNum = B.length + 1
  · rw [if_pos hacc, if_pos (by omega)]
    rfl
  · rw [if_neg hacc, if_neg (by omega)]

theorem image_append : image codec (B ++ [b]) =
    ⟨filesOf codec (B ++ [b]), { implOf B with head := some b, headId := b.id }⟩ := by
  unfold image implOf
  rw [getLast?_snoc]
  rfl

theorem runAll_opsOf : runAll (opsOf codec B b) (filesOf codec B) = filesOf codec (B ++ [b]) := files_of_stage 5

/-- **An open log takes the next block**, and no other one. -/
theorem exec_append (h : FromOne codec B) (hb : Fits codec b) :
    (image codec B).exec codec (.append b) =
      if b.blockNum = B.length + 1 then .ok (image codec (B ++ [b])) else .error .appendPosition := by
  show (appendOps (image codec B) b (codec.pack b) >>= fun a =>
    Except.ok (Log.mk (runAll a.1 (filesOf codec B)) a.2)) = _
  rw [appendOps_image h hb]
  by_cases hnum : b.blockNum = B.length + 1
  · rw [if_pos hnum, if_pos hnum]
    show Except.ok (Log.mk (runAll (opsOf codec B b) (filesOf codec B)) _) = _
    rw [runAll_opsOf, image_append]
  · rw [if_neg hnum, if_neg hnum]
    rfl

/-- A closed log takes no block. -/
theorem exec_append_closed (h : log.impl.isOpen = false) : log.exec codec (.append b) = .error .fileClosed := by
  show (if log.impl.isOpen = true then _ else _) = _
  rw [h]
  rfl

theorem Refines.start : Refines codec ({ files := fun _ => none, impl := {} } : Log Tx) {} where
  contents := .nil
  opened   := fun h => absurd h Bool.false_ne_true
  closed   := fun _ => ⟨rfl, .inr ⟨rfl, rfl⟩⟩

/-- Opening the files, whether the log was open or not. -/
theorem Refines.openFiles_eq (h : Refines codec log v) :
    openFiles codec log.impl log.files = .ok (image codec v.blocks) := by
  cases hopen : v.isOpen with
  | true =>
      rw [h.opened hopen]
      refine openFiles_image h.contents ?_
      by_cases hne : v.blocks = []
      · left
        rw [hne]
        exact ⟨rfl, rfl⟩
      · exact .inr hne
  | false =>
      obtain ⟨himpl, hfiles | ⟨hnil, hfiles⟩⟩ := h.closed hopen
      · rw [himpl, hfiles]
        exact openFiles_image h.contents (.inl ⟨rfl, rfl⟩)
      · rw [himpl, hfiles, hnil]
        exact openFiles_none ⟨rfl, rfl⟩

/-- **Every command refines its meaning.** -/
theorem Refines.step (h : Refines codec log v) {c : Command Tx} (hfit : ∀ b, c = .append b → Fits codec b) :
    Refines codec (log.step codec c) (v.step c) := by
  cases c with
  | append b =>
      have hb := hfit b rfl
      cases hopen : v.isOpen with
      | true =>
          have hlog := h.opened hopen
          unfold Log.step
          rw [hlog, exec_append h.contents hb, View.step_append]
          by_cases hnum : b.blockNum = v.blocks.length + 1
          · rw [if_pos hnum, if_pos ⟨hopen, hnum⟩]
            exact ⟨fromOne_append h.contents hb hnum, fun _ => rfl, fun hc => absurd (hopen.symm.trans hc) (by decide)⟩
          · rw [if_neg hnum, if_neg (fun hk => hnum hk.2), ← hlog]
            exact h
      | false =>
          have himpl : log.impl.isOpen = false := by rw [(h.closed hopen).1]
          unfold Log.step
          rw [exec_append_closed himpl, View.step_append, if_neg (fun hk => absurd (hopen.symm.trans hk.1) (by decide))]
          exact h
  | close =>
      refine ⟨h.contents, fun hk => absurd hk Bool.false_ne_true, fun _ => ⟨rfl, ?_⟩⟩
      show log.files = _ ∨ _ ∧ log.files = _
      cases hopen : v.isOpen with
      | true =>
          rw [h.opened hopen]
          exact .inl rfl
      | false => exact (h.closed hopen).2
  | openLog =>
      have hstep : log.step codec .openLog = image codec v.blocks := by
        have hexec : log.exec codec .openLog = .ok (image codec v.blocks) := h.openFiles_eq
        unfold Log.step
        rw [hexec]
      rw [hstep]
      exact ⟨h.contents, fun _ => rfl, fun hc => absurd hc.symm Bool.false_ne_true⟩

/-- **Every run refines the run of lists.** -/
theorem run_refines (cs : List (Command Tx)) (hfit : ∀ b, .append b ∈ cs → Fits codec b) :
    Refines codec (Log.run codec cs) (View.run cs) := by
  have hrun : ∀ (cs : List (Command Tx)) (log : Log Tx) (v : View Tx), (∀ b, .append b ∈ cs → Fits codec b) →
      Refines codec log v → Refines codec (cs.foldl (Log.step codec) log) (cs.foldl View.step v) := by
    intro cs
    induction cs with
    | nil => exact fun _ _ _ h => h
    | cons c cs ih =>
        intro log v hfit h
        refine ih _ _ (fun b hb => hfit b (List.mem_cons_of_mem c hb)) (h.step ?_)
        rintro b rfl
        exact hfit b List.mem_cons_self
  exact hrun cs _ _ hfit Refines.start

end Runs

end BlockLog

end VizNode
