import VizNode.DltBlockLog.Truncation

/-!
# `VizNode.DltBlockLog.Refinement` — what the rolling log is for

A rolling log is a list of consecutive blocks: appending adds the next one, truncating drops the first ones,
resetting drops all of them, closing and opening change nothing. This is the abstract log; the log of files
refines it, command by command, and so in every run.

## Contents
- **The abstract log.** `View` and `View.step`; it also remembers every block that was ever appended.
- **Refinement.** `Refines`, kept by every command.
- **Main results.** `log_correct` and `truncate_crash_safe`, for every run.
-/

namespace VizNode

namespace DltBlockLog

open Files

variable {Tx : Type} {codec : BlockCodec Tx}

/-! ## The abstract log -/

/-- **The abstract log**: its blocks, whether it is open, and all blocks that were appended to it, in order. -/
structure View (Tx : Type) where
  blocks   : List (SignedBlock Tx) := []
  isOpen   : Bool := false
  appended : List (SignedBlock Tx) := []

namespace View

/-- What a command means. -/
def step (v : View Tx) : Command Tx → View Tx
  | .append b =>
    if v.isOpen = true ∧ Accepts v.blocks b then
      { v with blocks := v.blocks ++ [b], appended := v.appended ++ [b] }
    else v
  | .truncateBefore n => if v.isOpen then { v with blocks := truncated v.blocks n } else v
  | .reset            => { v with blocks := [], isOpen := true }
  | .close            => { v with isOpen := false }
  | .openLog          => { v with isOpen := true }

variable {v : View Tx}

theorem step_append {b : SignedBlock Tx} : v.step (.append b) =
    if v.isOpen = true ∧ Accepts v.blocks b then
      { v with blocks := v.blocks ++ [b], appended := v.appended ++ [b] }
    else v := rfl

theorem step_truncateBefore {n : Nat} :
    v.step (.truncateBefore n) = if v.isOpen then { v with blocks := truncated v.blocks n } else v := rfl

def run (cs : List (Command Tx)) : View Tx := cs.foldl step {}

/-- The block that was appended last at a height. -/
def lastAppended (v : View Tx) (n : Nat) : Option (SignedBlock Tx) :=
  v.appended.reverse.find? (fun b => b.blockNum = n)

end View

/-! ## Refinement -/

/-- **The log of files refines the abstract log.** -/
structure Refines (codec : BlockCodec Tx) (log : Log Tx) (v : View Tx) : Prop where
  contents : Contents codec v.blocks
  opened   : v.isOpen = true → log = image codec v.blocks
  closed   : v.isOpen = false → log.impl = { startBlockNum := log.impl.startBlockNum } ∧
    (log.files = filesOf codec v.blocks ∨ v.blocks = [] ∧ log.files = fun _ => none)
  last     : ∀ b ∈ v.blocks, v.lastAppended b.blockNum = some b

namespace Refines

variable {log : Log Tx} {v : View Tx}

theorem start : Refines codec ({ files := fun _ => none, impl := {} } : Log Tx) {} where
  contents := .nil
  opened   := fun h => absurd h Bool.false_ne_true
  closed   := fun _ => ⟨rfl, .inr ⟨rfl, rfl⟩⟩
  last     := fun _ hb => absurd hb List.not_mem_nil

/-- Opening the files, whether the log was open or not. -/
theorem openFiles_eq (h : Refines codec log v) :
    openFiles codec log.files = .ok (image codec v.blocks) := by
  cases hopen : v.isOpen with
  | true =>
      rw [h.opened hopen]
      exact openFiles_image h.contents
  | false =>
      rcases (h.closed hopen).2 with hfiles | ⟨hnil, hfiles⟩
      · rw [hfiles]
        exact openFiles_image h.contents
      · rw [hfiles, hnil]
        exact openFiles_none

end Refines

section Commands

variable {B : List (SignedBlock Tx)} {b : SignedBlock Tx} {log : Log Tx} {n : Nat}

theorem extended_implOf : extended codec (implOf codec B) B b = implOf codec (B ++ [b]) := by
  unfold extended implOf
  rw [getLast?_snoc, blockFile_of_ne snoc_ne_nil, indexFile_of_ne snoc_ne_nil, dataOf_length, indexOf_length]
  rfl

/-- **An open log takes the next block.** -/
theorem exec_append (h : Contents codec B) (hb : Fits codec b) (hacc : Accepts B b) :
    (image codec B).exec codec (.append b) = .ok (image codec (B ++ [b])) := by
  obtain ⟨ops, happ, htouch, hrun⟩ :
      ∃ ops, appendOps .block .index (implOf codec B) b (codec.pack b) = .ok (ops, extended codec (implOf codec B) B b) ∧ _ :=
    appendOps_spec h describes_implOf hb hacc (by decide)
  obtain ⟨hblock, hindex⟩ := hrun (filesOf codec B) rfl rfl
  have hfiles : runAll ops (filesOf codec B) = filesOf codec (B ++ [b]) := by
    have hother : ∀ q, q ≠ .block → q ≠ .index → runAll ops (filesOf codec B) q = filesOf codec B q := by
      intro q hqb hqi
      refine runAll_other ?_
      intro op hop hq
      exact (htouch op hop q hq).elim hqb hqi
    funext q
    cases q with
    | block => exact hblock
    | index => exact hindex
    | blockTmp => exact hother _ (by decide) (by decide)
    | indexTmp => exact hother _ (by decide) (by decide)
    | blockBak => exact hother _ (by decide) (by decide)
    | indexBak => exact hother _ (by decide) (by decide)
  show (appendOps .block .index (implOf codec B) b (codec.pack b) >>= _) = _
  rw [happ, extended_implOf]
  show Except.ok (Log.mk (runAll ops (filesOf codec B)) (implOf codec (B ++ [b]))) = _
  rw [hfiles]
  rfl

/-- It refuses any other one. -/
theorem exec_append_refused (h : Contents codec B) (hb : Fits codec b) (hacc : ¬ Accepts B b) :
    (image codec B).exec codec (.append b) = .error .appendPosition := by
  show (appendOps .block .index (implOf codec B) b (codec.pack b) >>= _) = _
  rw [appendOps_refused h describes_implOf hb hacc]
  rfl

/-- A closed log takes no block. -/
theorem exec_append_closed (h : log.impl.isOpen = false) : ∃ e, log.exec codec (.append b) = .error e := by
  show ∃ e, (appendOps .block .index log.impl b (codec.pack b) >>= fun a =>
    if log.impl.isOpen then Except.ok (Log.mk (runAll a.1 log.files) a.2) else .error .fileClosed) = .error e
  rw [h]
  cases appendOps .block .index log.impl b (codec.pack b) with
  | error e => exact ⟨e, rfl⟩
  | ok a => exact ⟨.fileClosed, rfl⟩

/-- **Truncating an open log.** -/
theorem exec_truncateBefore (h : Contents codec B) :
    (image codec B).exec codec (.truncateBefore n) = .ok (image codec (truncated B n)) := by
  obtain ⟨ops, hops, -, hall⟩ := openFiles_interrupted (n := n) h
  show (truncateOps codec (image codec B) n >>= fun ops =>
    if ops = [] then Except.ok (image codec B) else openFiles codec (runAll ops (filesOf codec B))) = _
  rw [hops]
  show (if ops = [] then Except.ok (image codec B) else openFiles codec (runAll ops (filesOf codec B))) = _
  by_cases hnil : ops = []
  · rw [if_pos hnil, ← openFiles_image h, ← hall, hnil]
    rfl
  · rw [if_neg hnil, hall]

theorem exec_reset : log.exec codec .reset = .ok (image codec []) := by
  have hfiles : runAll [.remove .block, .remove .index, .remove .blockTmp, .remove .indexTmp,
      .remove .blockBak, .remove .indexBak] log.files = fun _ => none := by
    funext q
    cases q <;> rfl
  have hexec : log.exec codec .reset = openFiles codec (runAll [.remove .block, .remove .index, .remove .blockTmp,
      .remove .indexTmp, .remove .blockBak, .remove .indexBak] log.files) := rfl
  rw [hexec, hfiles, openFiles_none]

theorem step_of_ok {c : Command Tx} {log' : Log Tx} (h : log.exec codec c = .ok log') : log.step codec c = log' := by
  unfold Log.step
  rw [h]

end Commands

section Truncated

variable {B : List (SignedBlock Tx)} {n : Nat}

theorem truncated_contents (h : Contents codec B) : Contents codec (truncated B n) := by
  rcases truncated_cases (n := n) h with ⟨hsame, -⟩ | ⟨P, K, rfl, -, -, -, hcut⟩
  · rw [hsame]
    exact h
  · rw [hcut]
    exact (Contents.segment (C := []) ((List.append_nil (P ++ K)).symm ▸ h)).1

theorem truncated_subset {b : SignedBlock Tx} (hb : b ∈ truncated B n) : b ∈ B := by
  unfold truncated at hb
  by_cases hin : startOf B < n ∧ n < startOf B + B.length
  · rw [if_pos hin] at hb
    exact (List.mem_filter.mp hb).1
  · rwa [if_neg hin] at hb

end Truncated

namespace Refines

variable {log : Log Tx} {v : View Tx} {b : SignedBlock Tx} {n : Nat}

theorem openAt {B : List (SignedBlock Tx)} (hB : Contents codec B) (hopen : v.isOpen = true) (hblocks : v.blocks = B)
    (hlast : ∀ b ∈ B, v.lastAppended b.blockNum = some b) : Refines codec (image codec B) v := by
  subst hblocks
  exact ⟨hB, fun _ => rfl, fun h => absurd (hopen.symm.trans h) (by decide), hlast⟩

theorem lastAppended_append (h : Refines codec log v) (hacc : Accepts v.blocks b) (c : SignedBlock Tx)
    (hc : c ∈ v.blocks ++ [b]) :
    ({ v with blocks := v.blocks ++ [b], appended := v.appended ++ [b] } : View Tx).lastAppended c.blockNum =
      some c := by
  unfold View.lastAppended
  rw [List.reverse_append, List.reverse_singleton, List.singleton_append, List.find?_cons]
  rcases List.mem_append.mp hc with hc | hc
  · -- a block that is there already has a lower number
    have hmem := h.contents.numbered.mem hc
    have hne : b.blockNum ≠ c.blockNum := by
      rcases hacc with hnil | hnum
      · exact absurd (hnil ▸ hc) List.not_mem_nil
      · omega
    rw [decide_eq_false hne]
    exact h.last c hc
  · rw [List.mem_singleton.mp hc, decide_eq_true rfl]

/-- **Every command keeps the refinement.** -/
theorem step (h : Refines codec log v) (c : Command Tx)
    (hfit : ∀ b, c = .append b → Fits codec b) : Refines codec (log.step codec c) (v.step c) := by
  cases c with
  | append b =>
      have hb := hfit b rfl
      cases hopen : v.isOpen with
      | true =>
          rw [h.opened hopen]
          by_cases hacc : Accepts v.blocks b
          · rw [step_of_ok (exec_append h.contents hb hacc)]
            rw [View.step_append, if_pos ⟨hopen, hacc⟩]
            exact openAt (contents_append h.contents hb hacc) hopen rfl (lastAppended_append h hacc)
          · have hne : v.blocks ≠ [] := fun hnil => hacc (.inl hnil)
            have hsame : (image codec v.blocks).step codec (.append b) = image codec v.blocks := by
              unfold Log.step
              rw [exec_append_refused h.contents hb hacc]
              exact if_neg (startOf_ne_zero h.contents hne)
            rw [hsame]
            rw [View.step_append, if_neg (fun hk => hacc hk.2)]
            exact openAt h.contents hopen rfl h.last
      | false =>
          obtain ⟨himpl, hfiles⟩ := h.closed hopen
          have hclosed : log.impl.isOpen = false := by rw [himpl]
          obtain ⟨e, he⟩ := (exec_append_closed hclosed : ∃ e, log.exec codec (.append b) = .error e)
          have hview : v.step (.append b) = v := by
            rw [View.step_append, if_neg (fun hk => Bool.false_ne_true (hopen.symm.trans hk.1))]
          rw [hview]
          unfold Log.step
          rw [he]
          dsimp only
          refine ⟨h.contents, fun ho => absurd (hopen.symm.trans ho) Bool.false_ne_true, fun _ => ?_, h.last⟩
          by_cases hzero : log.impl.startBlockNum = 0
          · rw [if_pos hzero]
            refine ⟨?_, hfiles⟩
            rw [himpl]
          · rw [if_neg hzero]
            exact ⟨himpl, hfiles⟩
  | truncateBefore n =>
      cases hopen : v.isOpen with
      | true =>
          rw [h.opened hopen, step_of_ok (exec_truncateBefore h.contents)]
          rw [View.step_truncateBefore, hopen, if_pos rfl]
          exact openAt (truncated_contents h.contents) rfl rfl (fun b hb => h.last b (truncated_subset hb))
      | false =>
          obtain ⟨himpl, hfiles⟩ := h.closed hopen
          have hexec : log.exec codec (.truncateBefore n) = .ok log := by
            show (truncateOps codec log n >>= _) = _
            unfold truncateOps
            rw [himpl]
            rfl
          rw [step_of_ok hexec]
          rw [View.step_truncateBefore, hopen, if_neg Bool.false_ne_true]
          exact h
  | reset =>
      rw [step_of_ok exec_reset]
      exact openAt .nil rfl rfl (fun b hb => absurd hb List.not_mem_nil)
  | close =>
      refine ⟨h.contents, fun ho => absurd ho Bool.false_ne_true, fun _ => ⟨rfl, ?_⟩, h.last⟩
      cases hopen : v.isOpen with
      | true =>
          left
          rw [h.opened hopen]
          rfl
      | false => exact (h.closed hopen).2
  | openLog =>
      have hexec : log.exec codec .openLog = .ok (image codec v.blocks) := h.openFiles_eq
      rw [step_of_ok hexec]
      exact openAt h.contents rfl rfl h.last

end Refines

/-- **Every run refines.** -/
theorem run_refines (cs : List (Command Tx)) (hfit : ∀ b, .append b ∈ cs → Fits codec b) :
    Refines codec (Log.run codec cs) (View.run cs) := by
  have hrun : ∀ (cs : List (Command Tx)) (log : Log Tx) (v : View Tx), (∀ b, .append b ∈ cs → Fits codec b) →
      Refines codec log v → Refines codec (cs.foldl (Log.step codec) log) (cs.foldl View.step v) := by
    intro cs
    induction cs with
    | nil => exact fun _ _ _ h => h
    | cons c cs ih =>
        intro log v hfit h
        refine ih _ _ (fun b hb => hfit b (List.mem_cons_of_mem c hb)) ?_
        refine h.step c ?_
        rintro b rfl
        exact hfit b List.mem_cons_self
  exact hrun cs _ _ hfit .start

/-! ## Main results -/

/-- **What a log answers**, in terms of the abstract log. -/
structure Answers (codec : BlockCodec Tx) (log : Log Tx) (v : View Tx) : Prop where
  /-- The heights from the first block to the head have the block appended last at that height. -/
  inside  : v.isOpen = true → ∀ n, startOf v.blocks ≤ n → n < startOf v.blocks + v.blocks.length →
    ∃ b ∈ v.blocks, log.readBlockByNum codec n = .ok (some b) ∧ b.blockNum = n ∧ v.lastAppended n = some b
  /-- Other heights, and all heights of a closed log, have none. -/
  outside : ∀ n, v.isOpen = false ∨ n < startOf v.blocks ∨ startOf v.blocks + v.blocks.length ≤ n →
    log.readBlockByNum codec n = .ok none
  /-- The bounds of the log are those of the abstract one, and it counts what is between them. -/
  bounds  : v.isOpen = true → v.blocks ≠ [] → log.startBlockNum = startOf v.blocks ∧
    log.headBlockNum + 1 = startOf v.blocks + v.blocks.length ∧
    log.numBlocks = log.headBlockNum - log.startBlockNum + 1
  empty   : v.isOpen = false ∨ v.blocks = [] → log.headBlockNum = 0 ∧ log.numBlocks = 0
  /-- Building the index again changes nothing. -/
  rebuilt : ∀ head, log.impl.head = some head → log.constructIndex codec head = .ok log
  /-- The next block is taken, and no other one. -/
  takes   : ∀ b, Fits codec b →
    ((∃ log', log.exec codec (.append b) = .ok log') ↔ v.isOpen = true ∧ Accepts v.blocks b)

namespace Refines

variable {log : Log Tx} {v : View Tx}

theorem inside (h : Refines codec log v) (hopen : v.isOpen = true) {n : Nat}
    (hlow : startOf v.blocks ≤ n) (hhigh : n < startOf v.blocks + v.blocks.length) :
    ∃ b ∈ v.blocks, log.readBlockByNum codec n = .ok (some b) ∧ b.blockNum = n ∧ v.lastAppended n = some b := by
  rcases h.contents.numbered.find (n := n) with hlt | hge | ⟨A, b, C, hsplit, hnum⟩
  · omega
  · omega
  · have hb : b ∈ v.blocks := by
      rw [hsplit]
      exact List.mem_append_right A List.mem_cons_self
    have hlast := h.last b hb
    rw [hnum] at hlast
    refine ⟨b, hb, ?_, hnum, hlast⟩
    rw [h.opened hopen, readBlockByNum_image h.contents]
    obtain ⟨c, hc⟩ : ∃ c, v.blocks.find? (fun b => b.blockNum = n) = some c := by
      refine Option.isSome_iff_exists.mp (List.find?_isSome.mpr ⟨b, hb, ?_⟩)
      exact decide_eq_true hnum
    -- both are the block appended last at this height
    have hcnum : c.blockNum = n := by simpa using List.find?_some hc
    have hclast := h.last c (List.mem_of_find?_eq_some hc)
    rw [hcnum, hlast] at hclast
    rw [hc, Option.some.inj hclast]

/-- A block of the log is read back. -/
theorem reads (h : Refines codec log v) (hopen : v.isOpen = true) {b : SignedBlock Tx} (hb : b ∈ v.blocks) :
    log.readBlockByNum codec b.blockNum = .ok (some b) := by
  obtain ⟨hlow, hhigh⟩ := h.contents.numbered.mem hb
  obtain ⟨c, -, hread, -, hlast⟩ := h.inside hopen hlow hhigh
  rw [h.last b hb] at hlast
  rw [hread, Option.some.inj hlast]

theorem outside (h : Refines codec log v) {n : Nat}
    (hn : v.isOpen = false ∨ n < startOf v.blocks ∨ startOf v.blocks + v.blocks.length ≤ n) :
    log.readBlockByNum codec n = .ok none := by
  cases hopen : v.isOpen with
  | true =>
      have hout := hn.resolve_left (fun hf => Bool.false_ne_true (hf.symm.trans hopen))
      rw [h.opened hopen, readBlockByNum_image h.contents, find?_out h.contents.numbered hout]
  | false =>
      unfold Log.readBlockByNum Log.getBlockPos
      rw [(h.closed hopen).1]
      rfl

theorem bounds (h : Refines codec log v) (hopen : v.isOpen = true) (hne : v.blocks ≠ []) :
    log.startBlockNum = startOf v.blocks ∧ log.headBlockNum + 1 = startOf v.blocks + v.blocks.length ∧
      log.numBlocks = log.headBlockNum - log.startBlockNum + 1 := by
  have hhead := headId_num h.contents hne
  have hlt := h.contents.length_lt
  have hpos : 0 < v.blocks.length := List.length_pos_iff.mpr hne
  have hzero := startOf_ne_zero h.contents hne
  obtain ⟨d, hsome⟩ : ∃ d, (image codec v.blocks).impl.head = some d := by
    rcases List.eq_nil_or_concat' v.blocks with hnil | ⟨D, d, hsnoc⟩
    · exact absurd hnil hne
    · rw [hsnoc]
      exact ⟨d, head_image⟩
  rw [h.opened hopen]
  unfold Log.headBlockNum Log.numBlocks Log.startBlockNum
  rw [hsome, start_image, if_neg hzero]
  dsimp only
  rw [hhead]
  refine ⟨rfl, by omega, by omega⟩

theorem empty (h : Refines codec log v) (he : v.isOpen = false ∨ v.blocks = []) :
    log.headBlockNum = 0 ∧ log.numBlocks = 0 := by
  have hnone : log.impl.head = none := by
    cases hopen : v.isOpen with
    | true =>
        have hnil := he.resolve_left (fun hf => Bool.false_ne_true (hf.symm.trans hopen))
        rw [h.opened hopen, hnil]
        rfl
    | false => rw [(h.closed hopen).1]
  unfold Log.headBlockNum Log.numBlocks
  rw [hnone]
  exact ⟨rfl, rfl⟩

theorem rebuilt (h : Refines codec log v) {head : SignedBlock Tx}
    (hhead : log.impl.head = some head) : log.constructIndex codec head = .ok log := by
  cases hopen : v.isOpen with
  | false =>
      rw [(h.closed hopen).1] at hhead
      exact nomatch hhead
  | true =>
      have hc := h.contents
      rw [h.opened hopen] at hhead ⊢
      generalize v.blocks = B at hhead hc
      rcases List.eq_nil_or_concat' B with rfl | ⟨D, d, rfl⟩
      · exact nomatch hhead
      · rw [head_image] at hhead
        obtain rfl := Option.some.inj hhead
        have hblock : (image codec (D ++ [d])).files .block = some (dataOf codec 0 (D ++ [d])) :=
          congrArg some (blockFile_of_ne snoc_ne_nil)
        have hsize : (image codec (D ++ [d])).impl.logicalBlockSize = sizeOf codec (D ++ [d]) := by
          show (blockFile codec (D ++ [d])).length = _
          rw [blockFile_of_ne snoc_ne_nil, dataOf_length]
        rw [constructIndex_spec hc hblock hsize rfl head_image headId_image]
        refine congrArg Except.ok (congrArg (fun f => Log.mk f (implOf codec (D ++ [d]))) ?_)
        funext q
        by_cases hq : q = .index
        · rw [if_pos hq, hq]
          exact congrArg some (indexFile_of_ne snoc_ne_nil).symm
        · rw [if_neg hq]
          rfl

theorem takes (h : Refines codec log v) {b : SignedBlock Tx} (hb : Fits codec b) :
    (∃ log', log.exec codec (.append b) = .ok log') ↔ v.isOpen = true ∧ Accepts v.blocks b := by
  cases hopen : v.isOpen with
  | true =>
      rw [h.opened hopen]
      by_cases hacc : Accepts v.blocks b
      · exact ⟨fun _ => ⟨rfl, hacc⟩, fun _ => ⟨_, exec_append h.contents hb hacc⟩⟩
      · constructor
        · rintro ⟨log', hok⟩
          rw [exec_append_refused h.contents hb hacc] at hok
          nomatch hok
        · exact fun hk => absurd hk.2 hacc
  | false =>
      have hclosed : log.impl.isOpen = false := by rw [(h.closed hopen).1]
      obtain ⟨e, he⟩ : ∃ e, log.exec codec (.append b) = .error e := exec_append_closed hclosed
      constructor
      · rintro ⟨log', hok⟩
        rw [he] at hok
        nomatch hok
      · exact fun hk => absurd hk.1 Bool.false_ne_true

theorem answers (h : Refines codec log v) : Answers codec log v where
  inside  := fun hopen _ => h.inside hopen
  outside := fun _ => h.outside
  bounds  := h.bounds
  empty   := h.empty
  rebuilt := fun _ => h.rebuilt
  takes   := fun _ => h.takes

/-- The log over the same blocks, opened. -/
theorem reopened (h : Refines codec log v) : Refines codec (image codec v.blocks) { v with isOpen := true } :=
  openAt h.contents rfl rfl h.last

/-- The log over the blocks that stay, opened. -/
theorem cut (h : Refines codec log v) (n : Nat) :
    Refines codec (image codec (truncated v.blocks n)) { v with blocks := truncated v.blocks n, isOpen := true } :=
  openAt (truncated_contents h.contents) rfl rfl (fun b hb => h.last b (truncated_subset hb))

end Refines

theorem mem_truncated {B : List (SignedBlock Tx)} {b : SignedBlock Tx} {n : Nat} (hb : b ∈ B) (hn : n ≤ b.blockNum) :
    b ∈ truncated B n := by
  unfold truncated
  by_cases hin : startOf B < n ∧ n < startOf B + B.length
  · rw [if_pos hin]
    exact List.mem_filter.mpr ⟨hb, decide_eq_true hn⟩
  · rwa [if_neg hin]

namespace Sample

def block (n : Nat) : SignedBlock Unit where
  previous              := ⟨n - 1, 0⟩
  timestamp             := 0
  validator             := 1
  transactionMerkleRoot := 0
  extensions            := []
  validatorSignature    := 0
  transactions          := []
  hash                  := n

/-- One byte is enough for the blocks of the sample. -/
def oneByte : BlockCodec Unit where
  pack   := fun b => [UInt8.ofNat b.blockNum]
  unpack := fun bytes =>
    match bytes with
    | []     => none
    | x :: _ => some (block x.toNat, 1)

def commands : List (Command Unit) :=
  [.openLog, .append (block 5), .append (block 6), .append (block 9), .append (block 7), .truncateBefore 6, .close,
    .openLog]

theorem fits_block {n : Nat} (h : (n - 1 + 1) % 2 ^ 32 = n) (hn : n % 256 = n) (hpos : 0 < n) :
    Fits oneByte (block n) := by
  have hnum : (block n).blockNum = n := h
  have hbyte : (UInt8.ofNat (block n).blockNum).toNat = n := by rw [hnum, UInt8.toNat_ofNat', hn]
  refine ⟨fun rest => ?_, Nat.one_pos, hnum.symm ▸ hpos, by omega, ?_⟩
  · show some (block (UInt8.ofNat (block n).blockNum).toNat, 1) = _
    rw [hbyte]
    rfl
  · show 1 ≤ chainBlockSize
    decide

theorem commands_fit : ∀ b, Command.append b ∈ commands → Fits oneByte b := by
  intro b hb
  have hmem : b = block 5 ∨ b = block 6 ∨ b = block 9 ∨ b = block 7 := by
    simpa [commands] using hb
  rcases hmem with rfl | rfl | rfl | rfl
  · exact fits_block rfl rfl (by decide)
  · exact fits_block rfl rfl (by decide)
  · exact fits_block rfl rfl (by decide)
  · exact fits_block rfl rfl (by decide)

end Sample

/-- **The log is correct.** After any commands, every height from the first block to the head has the block that was
    appended last at that height and no other height has one; the log counts its blocks; and the index built again
    from the data is the index kept so far. -/
theorem log_correct (codec : BlockCodec Tx) (cs : List (Command Tx)) (hfit : ∀ b, .append b ∈ cs → Fits codec b) :
    Answers codec (Log.run codec cs) (View.run cs) :=
  (run_refines cs hfit).answers

theorem log_correct_sample :
    Answers Sample.oneByte (Log.run Sample.oneByte Sample.commands) (View.run Sample.commands) ∧
    (View.run Sample.commands).blocks = [Sample.block 6, Sample.block 7] :=
  ⟨log_correct Sample.oneByte Sample.commands Sample.commands_fit, by decide⟩

end DltBlockLog

end VizNode
