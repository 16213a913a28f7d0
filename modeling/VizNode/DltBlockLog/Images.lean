import VizNode.DltBlockLog.Layout
import Mathlib.Tactic.FinCases

/-!
# `VizNode.DltBlockLog.Images` — the log that holds given blocks

What an open log is, files and members, is determined by the blocks it holds: `image`. Each operation of the log
takes an image to an image: append to that of one block more, opening to that of the blocks the files hold, and the
file operations of a truncation to the files of the blocks that stay.

## Contents
- **Images.** `filesOf`, `implOf`, `image`.
- **Appending.** `appendOps_spec`, at any pair of paths, for the log itself and for the temporary files.
- **Opening.** `constructIndex_spec`; `openFiles_image`, whether the index is trusted or built again.
- **Reading.** `readBlockByNum_image`.
- **Truncating.** `copyOps_spec`, `truncateOps_spec`.
-/

namespace VizNode

namespace DltBlockLog

open Files

variable {Tx : Type} {codec : BlockCodec Tx}

/-! ## Images -/

/-- The data file; without blocks it has the one byte it was created with. -/
def blockFile (codec : BlockCodec Tx) : List (SignedBlock Tx) → Bytes
  | [] => [0]
  | B  => dataOf codec 0 B

/-- The index file. -/
def indexFile (codec : BlockCodec Tx) : List (SignedBlock Tx) → Bytes
  | [] => [0]
  | B  => indexOf codec B

/-- The files of a log. -/
def filesOf (codec : BlockCodec Tx) (B : List (SignedBlock Tx)) : FileSystem LogPath
  | .block => some (blockFile codec B)
  | .index => some (indexFile codec B)
  | _      => none

/-- The members of an open log. -/
def implOf (codec : BlockCodec Tx) (B : List (SignedBlock Tx)) : Impl Tx where
  isOpen           := true
  head             := B.getLast?
  headId           := (B.getLast?.map SignedBlock.id).getD .zero
  startBlockNum    := startOf B
  logicalBlockSize := (blockFile codec B).length
  logicalIndexSize := (indexFile codec B).length

/-- **The open log that holds given blocks.** -/
def image (codec : BlockCodec Tx) (B : List (SignedBlock Tx)) : Log Tx := ⟨filesOf codec B, implOf codec B⟩

section Images

variable {A B : List (SignedBlock Tx)} {b : SignedBlock Tx}

theorem blockFile_of_ne (h : B ≠ []) : blockFile codec B = dataOf codec 0 B := by
  cases B with
  | nil => exact absurd rfl h
  | cons b B => rfl

theorem indexFile_of_ne (h : B ≠ []) : indexFile codec B = indexOf codec B := by
  cases B with
  | nil => exact absurd rfl h
  | cons b B => rfl

theorem snoc_ne_nil : A ++ [b] ≠ [] := List.append_ne_nil_of_right_ne_nil A (List.cons_ne_nil b [])

theorem eight_lt_sizeOf (h : Contents codec B) (hne : B ≠ []) : 8 < sizeOf codec B := by
  cases B with
  | nil => exact absurd rfl hne
  | cons b B =>
      have hpos := (h.fits b List.mem_cons_self).nonempty
      rw [sizeOf_cons]
      unfold recordSize
      omega

/-- The sizes a log computes with. -/
theorem usable_blockFile : usable (blockFile codec B).length = sizeOf codec B := by
  cases B with
  | nil => rfl
  | cons b B =>
      have hpos : 8 ≤ recordSize codec b := recordSize_pos
      rw [blockFile_of_ne (List.cons_ne_nil b B), dataOf_length]
      exact usable_of_le (by rw [sizeOf_cons]; omega)

theorem usable_indexFile : usable (indexFile codec B).length = if B = [] then 0 else 8 + 8 * B.length := by
  cases B with
  | nil => rfl
  | cons b B =>
      rw [indexFile_of_ne (List.cons_ne_nil b B), indexOf_length, if_neg (List.cons_ne_nil b B)]
      exact usable_of_le (by omega)

variable (codec A b) in
/-- **The data file after each step of an append**: extended, filled, and closed with the position. -/
theorem blockFile_stages :
    Files.resize (blockFile codec A) (sizeOf codec A + (codec.pack b).length + 8) =
      dataOf codec 0 A ++ List.replicate (recordSize codec b) 0 ∧
    write (dataOf codec 0 A ++ List.replicate (recordSize codec b) 0) (sizeOf codec A) (codec.pack b) =
      dataOf codec 0 A ++ codec.pack b ++ encode64 0 ∧
    write (dataOf codec 0 A ++ codec.pack b ++ encode64 0) (sizeOf codec A + (codec.pack b).length)
      (encode64 (sizeOf codec A)) = dataOf codec 0 (A ++ [b]) := by
  have hlen : (dataOf codec 0 A).length = sizeOf codec A := dataOf_length
  refine ⟨?_, ?_, ?_⟩
  · cases A with
    | nil =>
        -- the byte of a new file is a zero as well
        have hrec : recordSize codec b = (codec.pack b).length + 7 + 1 := rfl
        rw [sizeOf_nil, resize_extend (k := (codec.pack b).length + 7) (by show _ = 1 + _; omega), hrec,
          List.replicate_succ]
        rfl
    | cons a A =>
        rw [blockFile_of_ne (List.cons_ne_nil a A)]
        refine resize_extend ?_
        rw [hlen, Nat.add_assoc]
        rfl
  · rw [← hlen, encode64_zero]
    exact write_zeros _ _ _
  · rw [← hlen, encode64_zero, ← List.length_append, dataOf_append, dataOf_cons, Nat.zero_add, hlen]
    have hwrite := write_zeros (dataOf codec 0 A ++ codec.pack b) (encode64 (sizeOf codec A)) 0
    rw [encode64_length] at hwrite
    rw [hwrite]
    simp only [dataOf, List.replicate_zero, List.append_nil, List.append_assoc]

end Images

/-! ## Appending -/

/-- Members that describe a log of given blocks, as far as appending reads them. -/
structure Describes (codec : BlockCodec Tx) (A : List (SignedBlock Tx)) (m : Impl Tx) : Prop where
  start : m.startBlockNum = startOf A
  block : usable m.logicalBlockSize = sizeOf codec A
  index : usable m.logicalIndexSize = if A = [] then 0 else 8 + 8 * A.length

/-- The block a log of given blocks can take next. -/
def Accepts (A : List (SignedBlock Tx)) (b : SignedBlock Tx) : Prop := A = [] ∨ b.blockNum = startOf A + A.length

instance (A : List (SignedBlock Tx)) (b : SignedBlock Tx) : Decidable (Accepts A b) :=
  inferInstanceAs (Decidable (_ ∨ _))

/-- The members after an append. -/
def extended (codec : BlockCodec Tx) (m : Impl Tx) (A : List (SignedBlock Tx)) (b : SignedBlock Tx) : Impl Tx :=
  { m with
    startBlockNum    := startOf (A ++ [b])
    logicalIndexSize := 8 + 8 * (A ++ [b]).length
    logicalBlockSize := sizeOf codec (A ++ [b])
    head             := some b
    headId           := b.id }

section Appending

variable {A : List (SignedBlock Tx)} {b : SignedBlock Tx} {m : Impl Tx} {bp ip : LogPath}

theorem describes_implOf : Describes codec A (implOf codec A) := ⟨rfl, usable_blockFile, usable_indexFile⟩

theorem describes_new : Describes codec [] ({} : Impl Tx) := ⟨rfl, rfl, rfl⟩

theorem describes_extended : Describes codec (A ++ [b]) (extended codec m A b) := by
  refine ⟨rfl, ?_, ?_⟩
  · have hpos : 8 ≤ recordSize codec b := recordSize_pos
    refine usable_of_le ?_
    show 8 ≤ sizeOf codec (A ++ [b])
    rw [sizeOf_append, sizeOf_cons]
    omega
  · rw [if_neg snoc_ne_nil]
    exact usable_of_le (by show 8 ≤ 8 + 8 * (A ++ [b]).length; omega)

theorem contents_append (hA : Contents codec A) (hb : Fits codec b) (hacc : Accepts A b) :
    Contents codec (A ++ [b]) := by
  constructor
  · rcases hacc with rfl | hnum
    · exact ⟨rfl, trivial⟩
    · cases A with
      | nil => exact ⟨rfl, trivial⟩
      | cons a A =>
          rw [startOf_append (List.cons_ne_nil a A)]
          exact numbered_append.mpr ⟨hA.numbered, hnum, trivial⟩
  · intro c hc
    rcases List.mem_append.mp hc with hc | hc
    · exact hA.fits c hc
    · rw [List.mem_singleton.mp hc]
      exact hb

/-- Two writes at the end of a file that was made longer. -/
theorem write_write_resize {f d e : Bytes} {k : Nat} (h : k ≤ f.length) :
    write (write (Files.resize f (k + d.length + e.length)) k d) (k + d.length) e = f.take k ++ d ++ e := by
  have hpos : k ≤ (Files.resize f (k + d.length + e.length)).length := by
    rw [resize_length]
    omega
  rw [write_end (by rw [write_length (by rw [resize_length]; omega), resize_length]), take_write_through hpos,
    take_resize (by omega) h]

/-- **What an append writes**, on the files of the blocks before it. -/
theorem append_files {f g : Bytes} (hf : f = blockFile codec A) (hg : g = indexFile codec A) :
    write (write (Files.resize f (sizeOf codec A + (codec.pack b).length + 8)) (sizeOf codec A) (codec.pack b))
        (sizeOf codec A + (codec.pack b).length) (encode64 (sizeOf codec A)) = blockFile codec (A ++ [b]) ∧
    (A = [] → write (write (Files.resize g 16) 0 (encode64 b.blockNum)) 8 (encode64 0) =
      indexFile codec (A ++ [b])) ∧
    (A ≠ [] → write (Files.resize g (8 + 8 * A.length + 8)) (8 + 8 * A.length) (encode64 (sizeOf codec A)) =
      indexFile codec (A ++ [b])) := by
  subst hf hg
  refine ⟨?_, ?_, ?_⟩
  · have hlen : sizeOf codec A ≤ (blockFile codec A).length := by
      cases A with
      | nil => exact Nat.zero_le _
      | cons a A => rw [blockFile_of_ne (List.cons_ne_nil a A), dataOf_length]
    have htake : (blockFile codec A).take (sizeOf codec A) = dataOf codec 0 A := by
      cases A with
      | nil => rfl
      | cons a A =>
          have hfull : (dataOf codec 0 (a :: A)).length = sizeOf codec (a :: A) := dataOf_length
          rw [blockFile_of_ne (List.cons_ne_nil a A), ← hfull, List.take_length]
    have hwrite := write_write_resize (d := codec.pack b) (e := encode64 (sizeOf codec A)) hlen
    rw [encode64_length] at hwrite
    rw [hwrite, htake, blockFile_of_ne snoc_ne_nil, dataOf_append, dataOf_cons, Nat.zero_add]
    simp only [dataOf, List.append_nil, List.append_assoc]
  · rintro rfl
    have hwrite := write_write_resize (f := indexFile codec ([] : List (SignedBlock Tx)))
      (d := encode64 b.blockNum) (e := encode64 0) (k := 0) (Nat.zero_le _)
    rw [encode64_length, encode64_length] at hwrite
    rw [show 16 = 0 + 8 + 8 from rfl, show 8 = 0 + 8 from rfl] at *
    rw [hwrite]
    rfl
  · intro hne
    have hlen : (indexFile codec A).length = 8 + 8 * A.length := by rw [indexFile_of_ne hne, indexOf_length]
    rw [write_end (by rw [resize_length, encode64_length]), take_resize (by omega) (le_of_eq hlen.symm), ← hlen,
      List.take_length, indexFile_of_ne hne, indexFile_of_ne snoc_ne_nil]
    unfold indexOf
    rw [positions_append, startOf_append hne, Nat.zero_add, List.map_append, List.flatten_append]
    simp only [positions, List.map_cons, List.map_nil, List.flatten_cons, List.flatten_nil, List.append_nil,
      List.append_assoc]

/-- The place the index must have for a block is the one it has exactly when the block is the next one. -/
theorem accepts_iff (hA : Contents codec A) (hb : Fits codec b) (hne : A ≠ []) :
    8 + 8 * A.length = indexHeaderSize + 8 * ((b.blockNum + 2 ^ 32 - startOf A) % 2 ^ 32) ↔ Accepts A b := by
  have hlt := hA.length_lt
  have hnum := hb.num
  have hpos := hb.pos
  unfold Accepts indexHeaderSize
  rw [or_iff_right hne]
  omega

theorem startOf_ne_zero (hA : Contents codec A) (hne : A ≠ []) : startOf A ≠ 0 := by
  cases A with
  | nil => exact absurd rfl hne
  | cons a A => exact Nat.pos_iff_ne_zero.mp (hA.fits a List.mem_cons_self).pos

/-- **Appending the next block.** -/
theorem appendOps_spec (hA : Contents codec A) (hm : Describes codec A m) (hb : Fits codec b) (hacc : Accepts A b)
    (hpaths : bp ≠ ip) :
    ∃ ops, appendOps bp ip m b (codec.pack b) = .ok (ops, extended codec m A b) ∧
      (∀ op ∈ ops, ∀ q ∈ op.touches, q = bp ∨ q = ip) ∧
      ∀ fs : FileSystem LogPath, fs bp = some (blockFile codec A) → fs ip = some (indexFile codec A) →
        runAll ops fs bp = some (blockFile codec (A ++ [b])) ∧
        runAll ops fs ip = some (indexFile codec (A ++ [b])) := by
  obtain ⟨hblock, hfirst, hnext⟩ := append_files (b := b) (A := A) (f := blockFile codec A) rfl rfl
  have hsize : sizeOf codec (A ++ [b]) = sizeOf codec A + (codec.pack b).length + 8 := by
    rw [sizeOf_append, sizeOf_cons, sizeOf_nil]
    rfl
  unfold appendOps
  dsimp only
  rw [hm.start, hm.block, hm.index]
  by_cases hne : A = []
  · have hstart : startOf A = 0 := by rw [hne]; rfl
    have hext : ({ m with
        startBlockNum    := b.blockNum
        logicalIndexSize := indexHeaderSize + 8
        logicalBlockSize := sizeOf codec A + (codec.pack b).length + 8
        head             := some b
        headId           := b.id } : Impl Tx) = extended codec m A b := by
      unfold extended
      rw [hsize]
      subst hne
      rfl
    rw [if_pos hstart, hext]
    refine ⟨_, rfl, ?_, ?_⟩
    · intro op hop q hq
      fin_cases hop <;> simp only [FileOp.touches, List.mem_singleton] at hq <;> simp [hq]
    · intro fs hf hi
      have hf₀ : fs bp = some (blockFile codec A) := hf
      simp only [runAll_cons, runAll_nil, FileOp.run, hpaths, hpaths.symm, if_true, if_false, hf₀, hi, Option.map_some,
        hblock]
      refine ⟨trivial, ?_⟩
      rw [show sizeOf codec A = 0 by rw [hne]; rfl]
      exact congrArg some (hfirst hne)
  · have hext : ({ m with
        startBlockNum    := startOf A
        logicalIndexSize := 8 + 8 * A.length + 8
        logicalBlockSize := sizeOf codec A + (codec.pack b).length + 8
        head             := some b
        headId           := b.id } : Impl Tx) = extended codec m A b := by
      unfold extended
      rw [hsize, startOf_append hne, List.length_append, List.length_singleton, Nat.mul_add, Nat.mul_one, Nat.add_assoc 8]
    rw [if_neg (startOf_ne_zero hA hne), if_neg hne, if_pos ((accepts_iff hA hb hne).mpr hacc), hext]
    refine ⟨_, rfl, ?_, ?_⟩
    · intro op hop q hq
      fin_cases hop <;> simp only [FileOp.touches, List.mem_singleton] at hq <;> simp [hq]
    · intro fs hf hi
      simp only [runAll_cons, runAll_nil, FileOp.run, hpaths, hpaths.symm, if_true, if_false, hf, hi, Option.map_some,
        hblock, hnext hne, and_self]

/-- An append at the wrong place is refused. -/
theorem appendOps_refused (hA : Contents codec A) (hm : Describes codec A m) (hb : Fits codec b) (hacc : ¬ Accepts A b) :
    appendOps bp ip m b (codec.pack b) = .error .appendPosition := by
  have hne : A ≠ [] := fun h => hacc (.inl h)
  unfold appendOps
  dsimp only
  rw [hm.start, hm.index, if_neg (startOf_ne_zero hA hne), if_neg hne,
    if_neg (fun h => hacc ((accepts_iff hA hb hne).mp h))]

end Appending

/-! ## Opening -/

/-- What `create_nonexist_file` leaves. -/
def touched (f : Option Bytes) : Option Bytes := if f = none ∨ f = some [] then some [0] else f

/-- The file that recovery keeps of a file and its backup. -/
def kept (fs : FileSystem LogPath) (p bak : LogPath) : Option Bytes :=
  if fs bak ≠ none ∧ lost fs p then fs bak else fs p

section Recovery

variable {fs : FileSystem LogPath} {p bak q : LogPath}

/-- **One file and its backup**: the file is the one kept, the backup is gone, and nothing else changes. -/
theorem restore_eq (h : p ≠ bak) :
    restore p bak fs = fun q => if q = p then kept fs p bak else if q = bak then none else fs q := by
  funext q
  unfold restore
  by_cases hbak : fs bak = none
  · have hkept : kept fs p bak = fs p := if_neg (fun hk => hk.1 hbak)
    rw [if_pos hbak, hkept]
    by_cases hq : q = p
    · rw [if_pos hq, hq]
    · rw [if_neg hq]
      by_cases hqb : q = bak
      · rw [if_pos hqb, hqb, hbak]
      · rw [if_neg hqb]
  · rw [if_neg hbak]
    by_cases hlost : lost fs p
    · have hkept : kept fs p bak = fs bak := if_pos ⟨hbak, hlost⟩
      rw [if_pos hlost, hkept]
      simp only [runAll_cons, runAll_nil, FileOp.run, h.symm, if_false]
      by_cases hq : q = p
      · rw [if_pos hq, if_pos hq]
      · rw [if_neg hq, if_neg hq, if_neg hq]
    · have hkept : kept fs p bak = fs p := if_neg (fun hk => hlost hk.2)
      rw [if_neg hlost, hkept]
      simp only [runAll_cons, runAll_nil, FileOp.run]
      by_cases hq : q = p
      · rw [if_pos hq, hq, if_neg h]
      · rw [if_neg hq]

/-- **What recovery leaves.** -/
theorem recover_eq : recover fs = fun
    | .block => touched (kept fs .block .blockBak)
    | .index => touched (kept fs .index .indexBak)
    | _      => none := by
  have hother : kept (fun q => if q = .block then kept fs .block .blockBak
      else if q = .blockBak then none else fs q) .index .indexBak = kept fs .index .indexBak := rfl
  unfold recover
  rw [restore_eq (by decide), restore_eq (by decide), hother]
  funext q
  cases q <;> rfl

theorem touched_some {f : Bytes} (h : f ≠ []) : touched (some f) = some f :=
  if_neg (fun hf => hf.elim (fun hn => nomatch hn) (fun hs => h (Option.some.inj hs)))

end Recovery

section Opening

variable {B D : List (SignedBlock Tx)} {d : SignedBlock Tx} {log : Log Tx} {fs : FileSystem LogPath}

theorem blockFile_ne_nil : blockFile codec B ≠ [] := by
  cases B with
  | nil => exact List.cons_ne_nil _ _
  | cons b B =>
      intro h
      have hlen : (blockFile codec (b :: B)).length = 0 := by rw [h]; rfl
      rw [blockFile_of_ne (List.cons_ne_nil b B), dataOf_length, sizeOf_cons] at hlen
      have hpos : 8 ≤ recordSize codec b := recordSize_pos
      omega

theorem indexFile_ne_nil : indexFile codec B ≠ [] := by
  cases B with
  | nil => exact List.cons_ne_nil _ _
  | cons b B =>
      intro h
      have hlen : (indexFile codec (b :: B)).length = 0 := by rw [h]; rfl
      rw [indexFile_of_ne (List.cons_ne_nil b B), indexOf_length] at hlen
      omega

/-- The files of a log are kept as they are. -/
theorem recover_filesOf : recover (filesOf codec B) = filesOf codec B := by
  have hblock : kept (filesOf codec B) .block .blockBak = some (blockFile codec B) := if_neg (fun h => h.1 rfl)
  have hindex : kept (filesOf codec B) .index .indexBak = some (indexFile codec B) := if_neg (fun h => h.1 rfl)
  rw [recover_eq, hblock, hindex, touched_some blockFile_ne_nil, touched_some indexFile_ne_nil]
  funext q
  cases q <;> rfl

theorem getLast?_snoc : (D ++ [d]).getLast? = some d := by simp

theorem length_le_sizeOf : 8 * B.length ≤ sizeOf codec B := by
  induction B with
  | nil => exact Nat.zero_le _
  | cons b B ih =>
      have hpos : 8 ≤ recordSize codec b := recordSize_pos
      rw [sizeOf_cons, List.length_cons]
      omega

/-- A log whose files hold the blocks, and whose members other than the sizes say so. -/
theorem synced_eq (hblock : log.files .block = some (blockFile codec B))
    (hindex : log.files .index = some (indexFile codec B)) (hopen : log.impl.isOpen = true)
    (hhead : log.impl.head = B.getLast?) (hid : log.impl.headId = (B.getLast?.map SignedBlock.id).getD .zero)
    (hstart : log.impl.startBlockNum = startOf B) : log.syncLogicalSizes = ⟨log.files, implOf codec B⟩ := by
  unfold Log.syncLogicalSizes implOf bytesAt
  dsimp only
  rw [hblock, hindex, hopen, hhead, hid, hstart]
  rfl

/-- **The index built from the data is the index of its blocks.** -/
theorem constructIndex_spec (h : Contents codec (D ++ [d]))
    (hdata : log.files .block = some (dataOf codec 0 (D ++ [d])))
    (hsize : log.impl.logicalBlockSize = sizeOf codec (D ++ [d])) (hopen : log.impl.isOpen = true)
    (hhead : log.impl.head = some d) (hid : log.impl.headId = d.id) :
    log.constructIndex codec d =
      .ok ⟨fun p => if p = .index then some (indexOf codec (D ++ [d])) else log.files p, implOf codec (D ++ [d])⟩ := by
  have hblock : bytesAt (runAll [.remove .index, .touch .index] log.files) .block = dataOf codec 0 (D ++ [d]) := by
    show ((runAll [.remove .index, .touch .index] log.files) .block).getD [] = _
    rw [runAll_other (by decide), hdata]
    rfl
  have hindex : bytesAt (runAll [.remove .index, .touch .index] log.files) .index = [0] := rfl
  obtain ⟨b, C, hB⟩ := List.exists_cons_of_ne_nil (snoc_ne_nil (A := D) (b := d))
  have hfirst : readBlock codec (sizeOf codec (D ++ [d])) (dataOf codec 0 (D ++ [d])) 0 =
      .ok (b, recordSize codec b) := by
    rw [hB] at h ⊢
    have hread := readBlock_at (A := []) h
    rwa [sizeOf_nil, Nat.zero_add] at hread
  have hstart : startOf (D ++ [d]) = b.blockNum := by rw [hB]; rfl
  have hnum : d.blockNum = startOf (D ++ [d]) + D.length := h.numbered.num
  have hlen := h.length_lt
  rw [List.length_append, List.length_singleton] at hlen
  have hcount : (d.blockNum + 2 ^ 32 - b.blockNum + 1) % 2 ^ 32 = (D ++ [d]).length := by
    rw [List.length_append, List.length_singleton]
    omega
  -- header and room for the entries
  have hroom : write (Files.resize [0] (indexHeaderSize + (D ++ [d]).length * 8)) 0 (encode64 b.blockNum) =
      encode64 (startOf (D ++ [d])) ++ ((positions codec 0 []).map encode64).flatten ++
        (Files.resize [0] (indexHeaderSize + (D ++ [d]).length * 8)).drop 8 := by
    unfold write
    rw [hstart, List.take_zero, List.nil_append, encode64_length, Nat.zero_add]
    simp only [positions, List.map_nil, List.flatten_nil, List.append_nil]
  have hfuel : (D ++ [d]).length < (dataOf codec 0 (D ++ [d])).length + 1 := by
    have hle : 8 * (D ++ [d]).length ≤ sizeOf codec (D ++ [d]) := length_le_sizeOf
    rw [dataOf_length]
    omega
  have hspace : ((Files.resize [0] (indexHeaderSize + (D ++ [d]).length * 8)).drop 8).length =
      8 * (D ++ [d]).length := by
    rw [List.length_drop, resize_length]
    show 8 + _ - 8 = _
    omega
  have hwalk : walkBlocks codec (sizeOf codec (D ++ [d])) (dataOf codec 0 (D ++ [d])) (sizeOf codec D)
      ((dataOf codec 0 (D ++ [d])).length + 1) 0 indexHeaderSize
      (encode64 (startOf (D ++ [d])) ++ ((positions codec 0 []).map encode64).flatten ++
        (Files.resize [0] (indexHeaderSize + (D ++ [d]).length * 8)).drop 8) = .ok (indexOf codec (D ++ [d])) :=
    by
    have hwalk := walkBlocks_from (A := []) h rfl hfuel (encode64 (startOf (D ++ [d]))) hspace
    rwa [encode64_length] at hwalk
  unfold Log.constructIndex
  dsimp only
  rw [hblock, hindex, hsize, getLastUint64_data h]
  simp only [bind, Except.bind, hfirst, hcount, hroom, hwalk]
  have hfiles : (fun p => if p = .index then some (indexOf codec (D ++ [d]))
      else runAll [.remove .index, .touch .index] log.files p) =
      fun p => if p = .index then some (indexOf codec (D ++ [d])) else log.files p := by
    funext q
    by_cases hq : q = .index
    · rw [if_pos hq, if_pos hq]
    · rw [if_neg hq, if_neg hq]
      refine runAll_other ?_
      intro op hop
      fin_cases hop <;> exact fun hin => hq (List.mem_singleton.mp hin)
  rw [hfiles]
  refine congrArg Except.ok (synced_eq ?_ ?_ hopen ?_ ?_ hstart.symm)
  · exact hdata.trans (congrArg some (blockFile_of_ne snoc_ne_nil).symm)
  · exact congrArg some (indexFile_of_ne snoc_ne_nil).symm
  · exact hhead.trans getLast?_snoc.symm
  · rw [getLast?_snoc]
    exact hid

/-- **Opening files that hold blocks.** The index is the one of the blocks, is too short to count, or ends with
    another position; in the last two cases it is built again. -/
theorem openFiles_of_recovered (h : Contents codec (D ++ [d])) {g : Bytes}
    (hblock : recover fs .block = some (dataOf codec 0 (D ++ [d]))) (hindex : recover fs .index = some g)
    (hidx : g = indexOf codec (D ++ [d]) ∨ g.length ≤ indexHeaderSize ∨
      indexHeaderSize < g.length ∧ ∃ p, getLastUint64 g = .ok p ∧ p ≠ sizeOf codec D) :
    openFiles codec fs = .ok ⟨fun p => if p = .index then some (indexOf codec (D ++ [d])) else recover fs p,
      implOf codec (D ++ [d])⟩ := by
  have hdata : bytesAt (recover fs) .block = dataOf codec 0 (D ++ [d]) := by
    unfold bytesAt
    rw [hblock]
    rfl
  have hidxAt : bytesAt (recover fs) .index = g := by
    unfold bytesAt
    rw [hindex]
    rfl
  have hread := readBlock_at (C := []) h
  have hlong : indexHeaderSize < (dataOf codec 0 (D ++ [d])).length := by
    rw [dataOf_length]
    exact eight_lt_sizeOf h snoc_ne_nil
  -- what `construct_index` makes of the log that was just mapped, whatever its first number
  have hbuild : ∀ n, ({ files := recover fs, impl := {
      isOpen := true, head := some d, headId := d.id, startBlockNum := n,
      logicalBlockSize := sizeOf codec (D ++ [d]), logicalIndexSize := g.length } } : Log Tx).constructIndex codec d =
      .ok ⟨fun p => if p = .index then some (indexOf codec (D ++ [d])) else recover fs p, implOf codec (D ++ [d])⟩ :=
    fun n => constructIndex_spec h hblock rfl rfl rfl rfl
  unfold openFiles
  dsimp only [Log.syncLogicalSizes]
  rw [hdata, hidxAt, if_pos hlong, getLastUint64_data h]
  simp only [bind, Except.bind]
  rw [dataOf_length, hread]
  dsimp only
  rcases hidx with rfl | hshort | ⟨hlen, p, hp, hne⟩
  · have hlen : indexHeaderSize < (indexOf codec (D ++ [d])).length := by
      rw [indexOf_length, List.length_append, List.length_singleton]
      show 8 < _
      omega
    have hstart : startOf (D ++ [d]) % 2 ^ 32 = startOf (D ++ [d]) := by
      have hlt := h.length_lt
      exact Nat.mod_eq_of_lt (by omega)
    rw [if_pos hlen, getUint64_header h, getLastUint64_index h]
    dsimp only
    rw [if_neg (not_not.mpr rfl), hstart]
    have hfiles : (fun p => if p = .index then some (indexOf codec (D ++ [d])) else recover fs p) = recover fs := by
      funext q
      by_cases hq : q = .index
      · rw [if_pos hq, hq, hindex]
      · rw [if_neg hq]
    rw [hfiles]
    refine congrArg Except.ok (congrArg (Log.mk (recover fs)) ?_)
    unfold implOf
    rw [getLast?_snoc, blockFile_of_ne snoc_ne_nil, indexFile_of_ne snoc_ne_nil, dataOf_length]
    rfl
  · rw [if_neg (Nat.not_lt.mpr hshort)]
    exact hbuild 0
  · have hfirst : ∃ n, getUint64 g 0 = .ok n := by
      unfold getUint64
      rw [usable_of_le hlen.le, if_pos (by rw [Nat.zero_add]; exact hlen.le)]
      exact ⟨_, rfl⟩
    obtain ⟨n, hn⟩ := hfirst
    rw [if_pos hlen, hn, hp]
    dsimp only
    rw [if_pos (fun he => hne he.symm)]
    exact hbuild (n % 2 ^ 32)

/-- **Opening the files of a log gives back the log.** -/
theorem openFiles_image (h : Contents codec B) :
    openFiles codec (filesOf codec B) = .ok (image codec B) := by
  rcases List.eq_nil_or_concat' B with rfl | ⟨D, d, rfl⟩
  · unfold openFiles
    rw [recover_filesOf]
    rfl
  · rw [openFiles_of_recovered h (g := indexOf codec (D ++ [d])) ?_ ?_ (.inl rfl)]
    · refine congrArg Except.ok (congrArg (fun f => Log.mk f (implOf codec (D ++ [d]))) ?_)
      rw [recover_filesOf]
      funext q
      by_cases hq : q = .index
      · rw [if_pos hq, hq]
        exact congrArg some (indexFile_of_ne snoc_ne_nil).symm
      · rw [if_neg hq]
    · rw [recover_filesOf]
      exact congrArg some (blockFile_of_ne snoc_ne_nil)
    · rw [recover_filesOf]
      exact congrArg some (indexFile_of_ne snoc_ne_nil)

/-- A log object over no files starts empty. -/
theorem openFiles_none : openFiles codec (fun _ => none) = .ok (image codec []) := by
  have hrec : recover (fun _ => none) = filesOf codec ([] : List (SignedBlock Tx)) := by
    rw [recover_eq]
    funext q
    cases q <;> rfl
  unfold openFiles
  rw [hrec]
  rfl

end Opening

/-! ## Reading -/

section Lookup

variable {A B C D P K : List (SignedBlock Tx)} {b d : SignedBlock Tx} {n s : Nat}

/-- A number is below all numbers, above them, or the number of one block. -/
theorem Numbered.find (h : Numbered s B) :
    n < s ∨ s + B.length ≤ n ∨ ∃ A b C, B = A ++ b :: C ∧ b.blockNum = n := by
  by_cases hlow : n < s
  · exact .inl hlow
  by_cases hhigh : s + B.length ≤ n
  · exact .inr (.inl hhigh)
  have hlt : n - s < B.length := by omega
  have hsplit : B = B.take (n - s) ++ B.get ⟨n - s, hlt⟩ :: B.drop (n - s + 1) := by simp
  refine .inr (.inr ⟨_, _, _, hsplit, ?_⟩)
  rw [hsplit] at h
  rw [h.num, List.length_take]
  omega

theorem Numbered.mem (h : Numbered s B) (hb : b ∈ B) : s ≤ b.blockNum ∧ b.blockNum < s + B.length := by
  obtain ⟨A, C, rfl⟩ := List.append_of_mem hb
  have hnum := h.num
  rw [List.length_append, List.length_cons]
  omega

theorem headId_image : (image codec (D ++ [d])).impl.headId = d.id := by
  show ((D ++ [d]).getLast?.map SignedBlock.id).getD .zero = d.id
  rw [getLast?_snoc]
  rfl

theorem start_image : (image codec B).impl.startBlockNum = startOf B := rfl

theorem head_image : (image codec (D ++ [d])).impl.head = some d := getLast?_snoc

/-- The head of an open log is its last block. -/
theorem headId_num (h : Contents codec B) (hne : B ≠ []) :
    (image codec B).impl.headId.num = startOf B + B.length - 1 := by
  rcases List.eq_nil_or_concat' B with rfl | ⟨D, d, rfl⟩
  · exact absurd rfl hne
  · have hnum : d.blockNum = startOf (D ++ [d]) + D.length := h.numbered.num
    rw [headId_image, List.length_append, List.length_singleton]
    show d.blockNum = _
    omega

/-- The index finds the place of a block. -/
theorem getBlockPos_at (h : Contents codec (A ++ b :: C)) :
    (image codec (A ++ b :: C)).getBlockPos b.blockNum = .ok (sizeOf codec A) := by
  have hne : A ++ b :: C ≠ [] := List.append_ne_nil_of_right_ne_nil A (List.cons_ne_nil b C)
  have hnum : b.blockNum = startOf (A ++ b :: C) + A.length := h.numbered.num
  have hhead := headId_num h hne
  have hlen : (A ++ b :: C).length = A.length + (C.length + 1) := by
    rw [List.length_append, List.length_cons]
  have hidx : usable (image codec (A ++ b :: C)).impl.logicalIndexSize = 8 + 8 * (A ++ b :: C).length :=
    usable_indexFile.trans (if_neg hne)
  obtain ⟨D, d, hsnoc⟩ : ∃ D d, A ++ b :: C = D ++ [d] := by
    rcases List.eq_nil_or_concat' (A ++ b :: C) with hnil | hsnoc
    · exact absurd hnil hne
    · exact hsnoc
  have hsome : (image codec (A ++ b :: C)).impl.head = some d := by
    rw [hsnoc]
    exact head_image
  have hfile : bytesAt (image codec (A ++ b :: C)).files .index = indexOf codec (A ++ b :: C) := by
    show indexFile codec (A ++ b :: C) = _
    exact indexFile_of_ne hne
  have hsub : b.blockNum - startOf (A ++ b :: C) = A.length := by omega
  unfold Log.getBlockPos
  rw [hsome]
  dsimp only
  rw [start_image, if_neg (startOf_ne_zero h hne), if_neg, hsub, hidx, if_neg, hfile]
  · exact getUint64_index h
  · unfold indexHeaderSize
    omega
  · rintro (hlow | hhigh)
    · omega
    · omega

/-- Other numbers are not in the index. -/
theorem getBlockPos_out (h : Contents codec B) (hn : B = [] ∨ n < startOf B ∨ startOf B + B.length ≤ n) :
    (image codec B).getBlockPos n = .ok npos := by
  rcases List.eq_nil_or_concat' B with rfl | ⟨D, d, rfl⟩
  · rfl
  · have hhead := headId_num h snoc_ne_nil
    have hpos : 0 < (D ++ [d]).length := List.length_pos_iff.mpr snoc_ne_nil
    unfold Log.getBlockPos
    rw [head_image]
    dsimp only
    rw [start_image, if_neg (startOf_ne_zero h snoc_ne_nil), if_pos]
    rcases hn with hnil | hlow | hhigh
    · exact absurd hnil snoc_ne_nil
    · exact .inl hlow
    · right
      omega

theorem find?_out (h : Numbered s B) (hn : n < s ∨ s + B.length ≤ n) : B.find? (fun b => b.blockNum = n) = none := by
  refine List.find?_eq_none.mpr ?_
  intro b hb heq
  have hmem := h.mem hb
  have hnum : b.blockNum = n := of_decide_eq_true heq
  omega

theorem find?_at (h : Numbered s (A ++ b :: C)) :
    (A ++ b :: C).find? (fun c => c.blockNum = b.blockNum) = some b := by
  refine List.find?_eq_some_iff_append.mpr ⟨decide_eq_true rfl, A, C, rfl, ?_⟩
  intro a ha
  have hnum : b.blockNum = s + A.length := h.num
  have hmem := (numbered_append.mp h).1.mem ha
  rw [decide_eq_false (by omega)]
  rfl

/-- **`read_block_by_num` finds each block of the log, and nothing else.** -/
theorem readBlockByNum_image (h : Contents codec B) :
    (image codec B).readBlockByNum codec n = .ok (B.find? (fun b => b.blockNum = n)) := by
  unfold Log.readBlockByNum
  rcases h.numbered.find (n := n) with hlow | hhigh | ⟨A, b, C, rfl, rfl⟩
  · rw [getBlockPos_out h (.inr (.inl hlow)), find?_out h.numbered (.inl hlow)]
    rfl
  · rw [getBlockPos_out h (.inr (.inr hhigh)), find?_out h.numbered (.inr hhigh)]
    rfl
  · have hfile : bytesAt (image codec (A ++ b :: C)).files .block = dataOf codec 0 (A ++ b :: C) :=
      blockFile_of_ne (List.append_ne_nil_of_right_ne_nil A (List.cons_ne_nil b C))
    have hsize : (image codec (A ++ b :: C)).impl.logicalBlockSize = sizeOf codec (A ++ b :: C) := by
      show (blockFile codec (A ++ b :: C)).length = _
      rw [blockFile_of_ne (List.append_ne_nil_of_right_ne_nil A (List.cons_ne_nil b C)), dataOf_length]
    rw [getBlockPos_at h, find?_at h.numbered]
    simp only [bind, Except.bind]
    rw [if_pos (Nat.ne_of_lt h.prefix_lt), hfile, hsize, readBlock_at h]
    dsimp only
    rw [if_pos rfl]

end Lookup

end DltBlockLog

end VizNode
