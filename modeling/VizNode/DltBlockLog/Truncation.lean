import VizNode.DltBlockLog.Images

/-!
# `VizNode.DltBlockLog.Truncation` — moving the beginning of a log, and being interrupted

`truncate_before` copies the blocks that stay into temporary files and swaps the files by renaming. A process may
stop between any two of these file operations. What the next `open` then finds is one of a few combinations of the
six files, and in each of them it comes to the old log or to the new one.

## Contents
- **Copying.** `copyOps_spec`: the temporary files hold the blocks that were copied.
- **Swapping.** `truncateOps_spec`, what all the operations do together.
- **Interruption.** `truncate_crash_safe`.
-/

namespace VizNode

namespace DltBlockLog

open Files

variable {Tx : Type} {codec : BlockCodec Tx}

section Copying

variable {B C P K : List (SignedBlock Tx)} {m : Impl Tx} {n : Nat}

/-- A stretch of the blocks of a log is the blocks of a log. -/
theorem Contents.segment (h : Contents codec (P ++ K ++ C)) :
    Contents codec K ∧ (K ≠ [] → startOf K = startOf (P ++ K ++ C) + P.length) := by
  have hK : Numbered (startOf (P ++ K ++ C) + P.length) K :=
    (numbered_append.mp (numbered_append.mp h.numbered).1).2
  have hfits : ∀ b ∈ K, Fits codec b :=
    fun b hb => h.fits b (List.mem_append_left C (List.mem_append_right P hb))
  cases K with
  | nil => exact ⟨.nil, fun hne => absurd rfl hne⟩
  | cons b K =>
      have hstart : startOf (b :: K) = startOf (P ++ (b :: K) ++ C) + P.length := hK.1
      exact ⟨⟨hstart ▸ hK, hfits⟩, fun _ => hstart⟩

/-- **Copying.** With the blocks `K` copied, the loop copies the blocks `C` that are left. -/
theorem copyOps_spec (h : Contents codec (P ++ K ++ C)) (hm : Describes codec K m)
    (hn : n = startOf (P ++ K ++ C) + P.length + K.length) :
    ∃ ops, copyOps codec (image codec (P ++ K ++ C)) (List.range' n C.length) m = .ok ops ∧
      (∀ op ∈ ops, ∀ q ∈ op.touches, q = .blockTmp ∨ q = .indexTmp) ∧
      ∀ fs : FileSystem LogPath, fs .blockTmp = some (blockFile codec K) → fs .indexTmp = some (indexFile codec K) →
        runAll ops fs .blockTmp = some (blockFile codec (K ++ C)) ∧
        runAll ops fs .indexTmp = some (indexFile codec (K ++ C)) := by
  induction C generalizing K m n with
  | nil =>
      refine ⟨[], rfl, fun op hop => absurd hop List.not_mem_nil, ?_⟩
      intro fs hf hi
      rw [List.append_nil]
      exact ⟨hf, hi⟩
  | cons c C ih =>
      have hsplit : P ++ K ++ c :: C = P ++ (K ++ [c]) ++ C := by simp
      have hnum : c.blockNum = n := by
        rw [h.numbered.num, List.length_append, hn, Nat.add_assoc]
      obtain ⟨hK, hstart⟩ := h.segment
      have hfit : Fits codec c := h.fits c (List.mem_append_right _ List.mem_cons_self)
      have hacc : Accepts K c := by
        by_cases hnil : K = []
        · exact .inl hnil
        · right
          rw [hstart hnil, hnum, hn]
      obtain ⟨ops₁, happ, htouch₁, hrun₁⟩ :
          ∃ ops, appendOps .blockTmp .indexTmp m c (codec.pack c) = .ok (ops, extended codec m K c) ∧ _ :=
        appendOps_spec hK hm hfit hacc (by decide)
      have hn' : n + 1 = startOf (P ++ (K ++ [c]) ++ C) + P.length + (K ++ [c]).length := by
        rw [← hsplit, hn, List.length_append, List.length_singleton]
        omega
      obtain ⟨ops₂, hcopy, htouch₂, hrun₂⟩ := ih (hsplit ▸ h) (describes_extended (m := m)) hn'
      have hpos := getBlockPos_at h
      rw [hnum] at hpos
      have hne : P ++ K ++ c :: C ≠ [] := List.append_ne_nil_of_right_ne_nil _ (List.cons_ne_nil c C)
      have hfile : bytesAt (image codec (P ++ K ++ c :: C)).files .block = dataOf codec 0 (P ++ K ++ c :: C) :=
        blockFile_of_ne hne
      have hsize : (image codec (P ++ K ++ c :: C)).impl.logicalBlockSize = sizeOf codec (P ++ K ++ c :: C) := by
        show (blockFile codec (P ++ K ++ c :: C)).length = _
        rw [blockFile_of_ne hne, dataOf_length]
      refine ⟨ops₁ ++ ops₂, ?_, ?_, ?_⟩
      · rw [List.length_cons, List.range'_succ]
        unfold copyOps
        simp only [bind, Except.bind]
        rw [hpos]
        dsimp only
        rw [if_neg (Nat.ne_of_lt h.prefix_lt), hfile, hsize, readBlock_at h]
        dsimp only
        rw [happ]
        dsimp only
        rw [hsplit, hcopy]
      · intro op hop
        rcases List.mem_append.mp hop with hop | hop
        · exact htouch₁ op hop
        · exact htouch₂ op hop
      · intro fs hf hi
        obtain ⟨hf₁, hi₁⟩ := hrun₁ fs hf hi
        obtain ⟨hf₂, hi₂⟩ := hrun₂ _ hf₁ hi₁
        rw [runAll_append]
        rw [List.append_assoc] at hf₂ hi₂
        exact ⟨hf₂, hi₂⟩

end Copying

/-! ## Swapping -/

/-- **The blocks that stay**: those from `n` on, where `n` is inside the log. -/
def truncated (B : List (SignedBlock Tx)) (n : Nat) : List (SignedBlock Tx) :=
  if startOf B < n ∧ n < startOf B + B.length then B.filter (fun b => n ≤ b.blockNum) else B

/-- The operations up to the swap: fresh temporary files, and the copies. -/
def prepareOps (copy : List (FileOp LogPath)) : List (FileOp LogPath) :=
  [.remove .blockTmp, .remove .indexTmp, .touch .blockTmp, .touch .indexTmp] ++ copy

section Swapping

variable {B P K : List (SignedBlock Tx)} {n : Nat}

/-- A number inside the log splits it. -/
theorem truncated_cases (h : Contents codec B) :
    (truncated B n = B ∧ ¬ (startOf B < n ∧ n < startOf B + B.length)) ∨
      ∃ P K, B = P ++ K ∧ P ≠ [] ∧ K ≠ [] ∧ n = startOf B + P.length ∧ truncated B n = K := by
  unfold truncated
  by_cases hin : startOf B < n ∧ n < startOf B + B.length
  · right
    have hsplit : B = B.take (n - startOf B) ++ B.drop (n - startOf B) := (List.take_append_drop _ B).symm
    have hlen : (B.take (n - startOf B)).length = n - startOf B := by
      rw [List.length_take]
      omega
    have hnum := h.numbered
    rw [hsplit, numbered_append, hlen, ← hsplit] at hnum
    refine ⟨_, _, hsplit, ?_, ?_, by rw [hlen]; omega, ?_⟩
    · exact List.ne_nil_of_length_pos (by rw [hlen]; omega)
    · refine List.ne_nil_of_length_pos ?_
      rw [List.length_drop]
      omega
    · rw [if_pos hin]
      conv_lhs => rw [hsplit]
      rw [List.filter_append, List.filter_eq_nil_iff.mpr, List.filter_eq_self.mpr, List.nil_append]
      · intro b hb
        have hmem := hnum.2.mem hb
        exact decide_eq_true (by omega)
      · intro b hb hle
        have hmem := hnum.1.mem hb
        have hge : n ≤ b.blockNum := of_decide_eq_true hle
        rw [hlen] at hmem
        omega
  · exact .inl ⟨if_neg hin, hin⟩

/-- Outside the log there is nothing to do. -/
theorem truncateOps_noop (h : Contents codec B) (hn : ¬ (startOf B < n ∧ n < startOf B + B.length)) :
    truncateOps codec (image codec B) n = .ok [] := by
  rcases List.eq_nil_or_concat' B with rfl | ⟨D, d, rfl⟩
  · rfl
  · have hhead := headId_num h snoc_ne_nil
    have hpos : 0 < (D ++ [d]).length := List.length_pos_iff.mpr snoc_ne_nil
    unfold truncateOps
    rw [head_image]
    dsimp only
    rw [start_image, if_pos]
    right
    by_cases hle : n ≤ startOf (D ++ [d])
    · exact .inl hle
    · right
      omega

/-- **The operations of a truncation**: what is copied is in the temporary files before the swap begins, and the
    log has not been touched. -/
theorem truncateOps_spec (h : Contents codec (P ++ K)) (hP : P ≠ []) (hK : K ≠ [])
    (hn : n = startOf (P ++ K) + P.length) :
    ∃ copy, truncateOps codec (image codec (P ++ K)) n = .ok (prepareOps copy ++ swapOps) ∧
      (∀ op ∈ prepareOps copy, ∀ q ∈ op.touches, q = .blockTmp ∨ q = .indexTmp) ∧
      runAll (prepareOps copy) (filesOf codec (P ++ K)) = fun
        | .block    => some (blockFile codec (P ++ K))
        | .index    => some (indexFile codec (P ++ K))
        | .blockTmp => some (blockFile codec K)
        | .indexTmp => some (indexFile codec K)
        | _         => none := by
  have hne : P ++ K ≠ [] := List.append_ne_nil_of_left_ne_nil hP K
  have hlen : (P ++ K).length = P.length + K.length := List.length_append
  have hPpos : 0 < P.length := List.length_pos_iff.mpr hP
  have hKpos : 0 < K.length := List.length_pos_iff.mpr hK
  have hhead := headId_num h hne
  obtain ⟨d, hsome⟩ : ∃ d, (image codec (P ++ K)).impl.head = some d := by
    rcases List.eq_nil_or_concat' (P ++ K) with hnil | ⟨D, d, hsnoc⟩
    · exact absurd hnil hne
    · rw [hsnoc]
      exact ⟨d, head_image⟩
  have hnil : P ++ [] ++ K = P ++ K := by rw [List.append_nil]
  obtain ⟨copy, hcopy, htouch, hrun⟩ := copyOps_spec (K := []) (hnil ▸ h) describes_new
    (show n = _ by rw [hnil]; exact hn)
  rw [hnil] at hcopy
  have htouchAll : ∀ op ∈ prepareOps copy, ∀ q ∈ op.touches, q = .blockTmp ∨ q = .indexTmp := by
    intro op hop q hq
    rcases List.mem_append.mp hop with hop | hop
    · fin_cases hop <;> simp only [FileOp.touches, List.mem_singleton] at hq <;> simp [hq]
    · exact htouch op hop q hq
  refine ⟨copy, ?_, htouchAll, ?_⟩
  · unfold truncateOps
    rw [hsome]
    dsimp only
    rw [start_image, if_neg, show (image codec (P ++ K)).impl.headId.num + 1 - n = K.length by omega, hcopy]
    · rfl
    · rintro (hzero | hle | hgt)
      · exact startOf_ne_zero h hne hzero
      · omega
      · omega
  · obtain ⟨hblock, hindex⟩ := hrun
      (runAll [.remove .blockTmp, .remove .indexTmp, .touch .blockTmp, .touch .indexTmp] (filesOf codec (P ++ K))) rfl rfl
    have hother : ∀ q, q ≠ .blockTmp → q ≠ .indexTmp →
        runAll (prepareOps copy) (filesOf codec (P ++ K)) q = filesOf codec (P ++ K) q := by
      intro q hb hi
      refine runAll_other ?_
      intro op hop hq
      exact (htouchAll op hop q hq).elim hb hi
    funext q
    cases q with
    | block => exact hother _ (by decide) (by decide)
    | index => exact hother _ (by decide) (by decide)
    | blockTmp =>
        unfold prepareOps
        rw [runAll_append]
        exact hblock
    | indexTmp =>
        unfold prepareOps
        rw [runAll_append]
        exact hindex
    | blockBak => exact hother _ (by decide) (by decide)
    | indexBak => exact hother _ (by decide) (by decide)

/-- What the swap does. -/
theorem runAll_swapOps {fs : FileSystem LogPath} : runAll swapOps fs = fun
    | .block => fs .blockTmp
    | .index => fs .indexTmp
    | _      => none := by
  funext q
  cases q <;> rfl

end Swapping

/-! ## Interruption -/

section Interruption

variable {B P K : List (SignedBlock Tx)} {fs : FileSystem LogPath} {n : Nat}

/-- Opening sees the files only after recovery. -/
theorem openFiles_congr {fs' : FileSystem LogPath} (h : recover fs = recover fs') :
    openFiles codec fs = openFiles codec fs' := by
  unfold openFiles
  rw [h]

/-- Recovery finds the files of a log. -/
theorem openFiles_kept (h : Contents codec B)
    (hblock : kept fs .block .blockBak = some (blockFile codec B))
    (hindex : kept fs .index .indexBak = some (indexFile codec B)) : openFiles codec fs = .ok (image codec B) := by
  have hrec : recover fs = recover (filesOf codec B) := by
    rw [recover_filesOf, recover_eq, hblock, hindex, touched_some blockFile_ne_nil, touched_some indexFile_ne_nil]
    funext q
    cases q <;> rfl
  rw [openFiles_congr hrec]
  exact openFiles_image h

/-- **New data beside the old index.** The old index ends with a later position than the new data, so it is built
    again. -/
theorem openFiles_oldIndex (h : Contents codec (P ++ K)) (hP : P ≠ []) (hK : K ≠ [])
    (hblock : kept fs .block .blockBak = some (blockFile codec K))
    (hindex : kept fs .index .indexBak = some (indexFile codec (P ++ K))) :
    openFiles codec fs = .ok (image codec K) := by
  have hnil : P ++ K ++ [] = P ++ K := List.append_nil _
  have hKc : Contents codec K := (Contents.segment (C := []) (hnil.symm ▸ h)).1
  have hPc : Contents codec P := (Contents.segment (P := []) h).1
  obtain ⟨D, d, rfl⟩ : ∃ D d, K = D ++ [d] := by
    rcases List.eq_nil_or_concat' K with hK' | hK'
    · exact absurd hK' hK
    · exact hK'
  have hne : P ++ (D ++ [d]) ≠ [] := List.append_ne_nil_of_left_ne_nil hP _
  have hpos : getLastUint64 (indexOf codec (P ++ D ++ [d])) = .ok (sizeOf codec (P ++ D)) :=
    getLastUint64_index (by rw [List.append_assoc]; exact h)
  rw [List.append_assoc] at hpos
  have hrec : recover fs = fun
      | .block => some (dataOf codec 0 (D ++ [d]))
      | .index => some (indexOf codec (P ++ (D ++ [d])))
      | _      => none := by
    funext q
    rw [recover_eq]
    cases q with
    | block =>
        show touched (kept fs .block .blockBak) = _
        rw [hblock, touched_some blockFile_ne_nil, blockFile_of_ne snoc_ne_nil]
    | index =>
        show touched (kept fs .index .indexBak) = _
        rw [hindex, touched_some indexFile_ne_nil, indexFile_of_ne hne]
    | _ => rfl
  have hlast : sizeOf codec (P ++ D) ≠ sizeOf codec D := by
    have hlt := eight_lt_sizeOf hPc hP
    rw [sizeOf_append]
    omega
  have hlong : indexHeaderSize < (indexOf codec (P ++ (D ++ [d]))).length := by
    have hpos : 0 < (P ++ (D ++ [d])).length := List.length_pos_iff.mpr hne
    rw [indexOf_length]
    show 8 < _
    omega
  rw [openFiles_of_recovered hKc (congrFun hrec .block) (congrFun hrec .index)
    (.inr (.inr ⟨hlong, _, hpos, hlast⟩))]
  refine congrArg Except.ok (congrArg (fun f => Log.mk f (implOf codec (D ++ [d]))) ?_)
  rw [hrec]
  funext q
  cases q with
  | block => exact congrArg some (blockFile_of_ne snoc_ne_nil).symm
  | index => exact congrArg some (indexFile_of_ne snoc_ne_nil).symm
  | _ => rfl

/-- A file of a log that has blocks is not lost. -/
theorem not_lost_block (hKc : Contents codec K) (hK : K ≠ []) (h : fs .block = some (blockFile codec K)) :
    ¬ lost fs .block := by
  have hlt := eight_lt_sizeOf hKc hK
  unfold lost bytesAt
  rw [h, Option.getD_some, blockFile_of_ne hK, dataOf_length]
  omega

theorem not_lost_index (hK : K ≠ []) (h : fs .index = some (indexFile codec K)) : ¬ lost fs .index := by
  have hpos : 0 < K.length := List.length_pos_iff.mpr hK
  unfold lost bytesAt
  rw [h, Option.getD_some, indexFile_of_ne hK, indexOf_length]
  omega

/-- The files just before the swap. -/
def prepared (codec : BlockCodec Tx) (B K : List (SignedBlock Tx)) : FileSystem LogPath
  | .block    => some (blockFile codec B)
  | .index    => some (indexFile codec B)
  | .blockTmp => some (blockFile codec K)
  | .indexTmp => some (indexFile codec K)
  | _         => none

/-- **The swap, interrupted.** Up to the fourth operation the old log comes back; from the fifth on, when the new
    data file is in place, the new one does. -/
theorem openFiles_swap (h : Contents codec (P ++ K)) (hP : P ≠ []) (hK : K ≠ []) (j : Nat) :
    openFiles codec (runAll (swapOps.take j) (prepared codec (P ++ K) K)) =
      .ok (image codec (if j ≤ 4 then P ++ K else K)) := by
  have hKc : Contents codec K := (Contents.segment (C := []) ((List.append_nil (P ++ K)).symm ▸ h)).1
  rcases Nat.lt_or_ge j 8 with hj | hj
  · obtain rfl | rfl | rfl | rfl | rfl | rfl | rfl | rfl :
        j = 0 ∨ j = 1 ∨ j = 2 ∨ j = 3 ∨ j = 4 ∨ j = 5 ∨ j = 6 ∨ j = 7 := by omega
    · exact openFiles_kept h rfl rfl
    · exact openFiles_kept h rfl rfl
    · exact openFiles_kept h rfl rfl
    · exact openFiles_kept h rfl rfl
    · exact openFiles_kept h rfl rfl
    · exact openFiles_oldIndex h hP hK
        (if_neg (fun hk => not_lost_block hKc hK rfl hk.2)) rfl
    · exact openFiles_kept hKc (if_neg (fun hk => not_lost_block hKc hK rfl hk.2))
        (if_neg (fun hk => not_lost_index hK rfl hk.2))
    · exact openFiles_kept hKc (if_neg (fun hk => hk.1 rfl)) (if_neg (fun hk => not_lost_index hK rfl hk.2))
  · rw [List.take_of_length_le hj, if_neg (by omega), runAll_swapOps]
    exact openFiles_kept hKc rfl rfl

/-- **A truncation, interrupted anywhere.** -/
theorem openFiles_interrupted (h : Contents codec B) :
    ∃ ops, truncateOps codec (image codec B) n = .ok ops ∧
      (∀ k, openFiles codec (runAll (ops.take k) (filesOf codec B)) = .ok (image codec B) ∨
        openFiles codec (runAll (ops.take k) (filesOf codec B)) = .ok (image codec (truncated B n))) ∧
      openFiles codec (runAll ops (filesOf codec B)) = .ok (image codec (truncated B n)) := by
  rcases truncated_cases (n := n) h with ⟨hsame, hout⟩ | ⟨P, K, rfl, hP, hK, hn, hcut⟩
  · refine ⟨[], truncateOps_noop h hout, ?_, ?_⟩
    · intro k
      rw [List.take_nil]
      exact .inl (openFiles_image h)
    · rw [hsame]
      exact openFiles_image h
  · obtain ⟨copy, hops, htouch, hprep⟩ := truncateOps_spec h hP hK hn
    have hprep' : runAll (prepareOps copy) (filesOf codec (P ++ K)) = prepared codec (P ++ K) K := by
      rw [hprep]
      funext q
      cases q <;> rfl
    refine ⟨_, hops, ?_, ?_⟩
    · intro k
      rw [hcut, List.take_append, runAll_append]
      rcases Nat.le_total k (prepareOps copy).length with hk | hk
      · -- only temporary files have been touched
        left
        rw [Nat.sub_eq_zero_of_le hk, List.take_zero, runAll_nil]
        have hother : ∀ q, q ≠ .blockTmp → q ≠ .indexTmp →
            runAll ((prepareOps copy).take k) (filesOf codec (P ++ K)) q = filesOf codec (P ++ K) q := by
          intro q hb hi
          refine runAll_other ?_
          intro op hop hq
          exact (htouch op (List.mem_of_mem_take hop) q hq).elim hb hi
        refine openFiles_kept h ?_ ?_
        · unfold kept
          rw [if_neg (fun hk => hk.1 (hother _ (by decide) (by decide)))]
          exact hother _ (by decide) (by decide)
        · unfold kept
          rw [if_neg (fun hk => hk.1 (hother _ (by decide) (by decide)))]
          exact hother _ (by decide) (by decide)
      · rw [List.take_of_length_le hk, hprep', openFiles_swap h hP hK]
        by_cases hj : k - (prepareOps copy).length ≤ 4
        · rw [if_pos hj]
          exact .inl rfl
        · rw [if_neg hj]
          exact .inr rfl
    · have hall := openFiles_swap h hP hK swapOps.length
      rw [List.take_length, if_neg (by decide)] at hall
      rw [hcut, runAll_append, hprep', hall]

end Interruption

end DltBlockLog

end VizNode
