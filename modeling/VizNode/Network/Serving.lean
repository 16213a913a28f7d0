import VizNode.Network.Delegate
import Mathlib.Data.List.Chain

/-!
# `VizNode.Network.Serving` — are peers served the node's own chain?

A peer that asks for a height gets what the rolling log has there, and else the *first* block of that height in the
fork database. Of two competing blocks this is the one that arrived first, which need not be the one that was applied.
And a range is answered with those of its heights that can be read, so a hole in the storage is a hole in the reply.

`served_iff`: in every state of every run, peers are served the applied chain **exactly when** the log and the first
blocks of the heights above it are on the applied chain and no two blocks around a hole fit into one reply.

## Contents
- **The rolling log is numbered**, in every state of a run.
- **Paths.** Neighbours on a path are linked.
- **Replies** and the equivalence.
-/

namespace VizNode

open ForkDatabase (Path)

namespace Database

open Prog Relation

variable {Tx L : Type} {U : SignedBlock Tx → Prop} {env : Env Tx L} {db db' : Database Tx L}

/-! ## The rolling log is numbered -/

theorem LibTick.numbered (t : LibTick db db') (h : Numbered db.dltBlockLog) : Numbered db'.dltBlockLog := by
  cases t with
  | supported _ =>
      unfold raiseSupported
      split <;> exact h
  | written hw => exact hw.number h
  | _ => exact h

theorem BlockTicks.numbered {b : SignedBlock Tx} (t : BlockTicks env b db db') (h : Numbered db.dltBlockLog) :
    Numbered db'.dltBlockLog := by
  induction t with
  | refl => exact h
  | tail _ t ih =>
      cases t with
      | lib t => exact t.numbered ih
      | _ => exact ih

theorem applyInSession_numbered (b : SignedBlock Tx) (skip : Skip) (h : Numbered db.dltBlockLog) :
    Numbered (after (applyInSession env b skip) db).dltBlockLog := by
  have hent : ∀ skip' c, Numbered (db.startUndoSession.entered b skip' c).dltBlockLog := by
    intro skip' c
    unfold entered notifyEmergency
    split <;> exact h
  rcases applyInSession_cases env b skip db with ⟨e, he⟩ | ⟨skip', c, x, -, -, ht, ⟨-, hr⟩ | ⟨e, -, hr⟩⟩
  · rw [after_error he]
    exact h
  · rw [after_ok hr]
    exact BlockTicks.numbered ht (hent skip' c)
  · have hx := BlockTicks.numbered ht (hent skip' c)
    rw [after_error hr]
    exact hx

theorem Moves.numbered {stop : ChainState Tx L → Prop} (m : ReflTransGen (Move env U stop) db db')
    (h : Numbered db.dltBlockLog) : Numbered db'.dltBlockLog := by
  induction m with
  | refl => exact h
  | tail _ m ih =>
      cases m with
      | applied _ skip => exact applyInSession_numbered _ skip ih
      | _ => exact ih

theorem step_numbered {x : Step Tx} (hx : x.From U) (hst : Stored U db) (h : Numbered db.dltBlockLog) :
    Numbered (step env db x).dltBlockLog := by
  cases x with
  | block b skip =>
      obtain ⟨y, -, hm, -, ht⟩ := pushBlock_moving hx (stopsAt_never b skip db.clearPending) hst
      have hclear : Numbered db.clearPending.dltBlockLog := (clearPending_storage db).dltLog ▸ h
      have hy := Moves.numbered hm hclear
      rw [← (TxMoves.storage ht).dltLog] at hy
      exact hy
  | confirmation id account =>
      refine applyBlockPostValidation_moves (R := Keeps (fun x => Numbered x.dltBlockLog)) (fun _ _ t => ?_) db h
      intro hx
      cases t with
      | lib t => exact t.numbered hx
      | marked _ _ => exact hx
  | transaction tx skip =>
      have hsame : SameStorage db (after (pushTransaction env tx skip) db) := pushTransaction_storage tx skip db
      show Numbered (after (pushTransaction env tx skip) db).dltBlockLog
      rw [hsame.dltLog]
      exact h

theorem run_numbered {steps : List (Step Tx)} (hs : ∀ x ∈ steps, x.From U) (hst : Stored U db)
    (h : Numbered db.dltBlockLog) : Numbered (run env db steps).dltBlockLog := by
  have hrun : Stored U (run env db steps) ∧ Numbered (run env db steps).dltBlockLog :=
    run_induction (I := fun x => Stored U x ∧ Numbered x.dltBlockLog)
      (fun _ x hx hI => ⟨step_stored x hx hI.1, step_numbered hx hI.1 hI.2⟩) ⟨hst, h⟩ hs
  exact hrun.2

/-- What is read at a height has that height. -/
theorem readBlockByNum_num (h : Numbered db.dltBlockLog) {n : Nat} {b : SignedBlock Tx}
    (hb : db.readBlockByNum n = some b) : b.blockNum = n := by
  unfold readBlockByNum at hb
  split at hb
  · next c hc =>
      obtain rfl := Option.some.inj hb
      split at hc
      · unfold readDltBlockLog readLog at hc
        split at hc
        · next hpos =>
            rw [h _ _ hc]
            omega
        · exact absurd hc (by simp)
      · exact absurd hc (by simp)
  · obtain ⟨x, hx, rfl⟩ := Option.map_eq_some_iff.mp hb
    have hmem := List.mem_of_head? hx
    exact (ForkDatabase.mem_fetchBlockByNumber.mp hmem).2

/-! ## Replies -/

theorem unsignedIntSize_mono {m n : Nat} (h : m ≤ n) : unsignedIntSize m ≤ unsignedIntSize n := by
  unfold unsignedIntSize
  refine Nat.add_le_add_left (List.Sublist.length_le ?_) 1
  refine List.monotone_filter_right _ fun k hk => ?_
  simp only [decide_eq_true_eq] at hk ⊢
  exact Nat.le_trans hk h

theorem le_sum_of_mem {xs : List Nat} {x : Nat} (h : x ∈ xs) : x ≤ xs.sum := by
  induction xs with
  | nil => exact absurd h List.not_mem_nil
  | cons y ys ih =>
      rw [List.sum_cons]
      rcases List.mem_cons.mp h with rfl | h
      · exact Nat.le_add_right _ _
      · exact Nat.le_trans (ih h) (Nat.le_add_left _ _)

/-- A reply is at least as long as each of its blocks alone. -/
theorem replySize_single_le {blocks : List (SignedBlock Tx)} {b : SignedBlock Tx} (h : b ∈ blocks) :
    replySize env [b] ≤ replySize env blocks := by
  have hcount : unsignedIntSize 1 ≤ unsignedIntSize blocks.length :=
    unsignedIntSize_mono (List.length_pos_of_mem h)
  have hsum : env.packSize b ≤ (blocks.map env.packSize).sum := le_sum_of_mem (List.mem_map_of_mem h)
  unfold replySize
  simp only [List.length_singleton, List.map_singleton, List.sum_singleton]
  omega

/-- The heights of a reply follow each other. -/
def Consecutive (blocks : List (SignedBlock Tx)) : Prop :=
  blocks.IsChain fun a b => b.blockNum = a.blockNum + 1

/-- **No hole fits into a reply**: two blocks around heights without a block are too long together. -/
def HolesApart (env : Env Tx L) (db : Database Tx L) : Prop :=
  ∀ m n, m + 1 < n → n ≤ db.getDltLatestBlock → (∀ k, m < k → k < n → db.readBlockByNum k = none) →
    ∀ a, db.readBlockByNum m = some a → ∀ b, db.readBlockByNum n = some b →
      replyBudget < replySize env [a] + env.packSize b

/-- Heights without a block are skipped. -/
theorem rangeBlocks_skip {num count k : Nat} {blocks : List (SignedBlock Tx)}
    (h : ∀ j, num ≤ j → j < num + k → db.readBlockByNum j = none) :
    db.rangeBlocks env num (k + count) blocks = db.rangeBlocks env (num + k) count blocks := by
  induction k generalizing num with
  | zero => rw [Nat.zero_add, Nat.add_zero]
  | succ k ih =>
      rw [Nat.succ_add, rangeBlocks, h num (Nat.le_refl _) (by omega)]
      dsimp only
      rw [ih fun j hj hlt => h j (by omega) (by omega)]
      congr 1
      omega

/-- What is in a reply was read at some height of the range. -/
theorem rangeBlocks_read {num count : Nat} {blocks : List (SignedBlock Tx)} {b : SignedBlock Tx}
    (h : b ∈ (db.rangeBlocks env num count blocks).1) :
    b ∈ blocks ∨ ∃ n, num ≤ n ∧ n < num + count ∧ db.readBlockByNum n = some b := by
  induction count generalizing num blocks with
  | zero => exact .inl h
  | succ count ih =>
      unfold rangeBlocks at h
      split at h
      · rcases ih h with h | ⟨n, hlo, hhi, hn⟩
        · exact .inl h
        · exact .inr ⟨n, by omega, by omega, hn⟩
      · next c hc =>
          split at h
          · exact .inl h
          · rcases ih h with h | ⟨n, hlo, hhi, hn⟩
            · rcases List.mem_append.mp h with h | h
              · exact .inl h
              · rw [List.mem_singleton.mp h]
                exact .inr ⟨num, by omega, by omega, hc⟩
            · exact .inr ⟨n, by omega, by omega, hn⟩

/-- **The loop keeps the heights consecutive**, if no hole fits. The last block so far is the newest one that could be
    read. -/
theorem rangeBlocks_consecutive (hnum : Numbered db.dltBlockLog) (hholes : db.HolesApart env) {num count : Nat}
    {blocks : List (SignedBlock Tx)} (hend : num + count ≤ db.getDltLatestBlock + 1) (hblocks : Consecutive blocks)
    (hlast : ∀ a, blocks.getLast? = some a → a.blockNum < num ∧ db.readBlockByNum a.blockNum = some a ∧
      ∀ k, a.blockNum < k → k < num → db.readBlockByNum k = none) :
    Consecutive (db.rangeBlocks env num count blocks).1 := by
  induction count generalizing num blocks with
  | zero => exact hblocks
  | succ count ih =>
      unfold rangeBlocks
      split
      · next hnone =>
          refine ih (by omega) hblocks fun a ha => ?_
          obtain ⟨hlt, hread, hgap⟩ := hlast a ha
          refine ⟨by omega, hread, fun k hk hk' => ?_⟩
          rcases Nat.lt_succ_iff_lt_or_eq.mp hk' with hk' | rfl
          · exact hgap k hk hk'
          · exact hnone
      · next b hb =>
          have hbnum : b.blockNum = num := readBlockByNum_num hnum hb
          split
          · exact hblocks
          · next hfits =>
              have hsingle : ∀ a, (blocks ++ [b]).getLast? = some a → a.blockNum < num + 1 ∧
                  db.readBlockByNum a.blockNum = some a ∧
                  ∀ k, a.blockNum < k → k < num + 1 → db.readBlockByNum k = none := by
                intro a ha
                rw [List.getLast?_append, List.getLast?_singleton, Option.some_or] at ha
                obtain rfl := Option.some.inj ha
                rw [hbnum]
                exact ⟨Nat.lt_succ_self num, hb, fun k hk hk' => by omega⟩
              refine ih (by omega) ?_ hsingle
              refine List.IsChain.append hblocks (List.isChain_singleton b) fun a ha c hc => ?_
              obtain rfl : b = c := by simpa using hc
              obtain ⟨hlt, hread, hgap⟩ := hlast a ha
              by_contra hne
              -- a hole between the last block and this one: both together do not fit
              have hlong := hholes a.blockNum num (by omega) (by omega) hgap a hread b hb
              have hmem : a ∈ blocks := List.mem_of_getLast? ha
              have hsize : replySize env [a] ≤ replySize env blocks := replySize_single_le hmem
              exact hfits ⟨by omega, List.ne_nil_of_mem hmem⟩

theorem onDltGetBlockRange_blocks (env : Env Tx L) (db : Database Tx L) (first last : Nat) :
    (db.onDltGetBlockRange env first last).blocks =
      (db.rangeBlocks env first (min last db.getDltLatestBlock + 1 - first) []).1 := by
  unfold onDltGetBlockRange
  dsimp only
  split
  · next h => rw [h]
  · next blocks h =>
      rw [h]
      split
      · next hnone => exact (List.getLast?_eq_none_iff.mp hnone).symm
      · rfl

/-! ## The equivalence -/

/-- **Peers are served the applied chain.** -/
structure Served (U : SignedBlock Tx → Prop) (env : Env Tx L) (db : Database Tx L) : Prop where
  /-- What is read at a height up to the head is the block of that height on the path from the head. -/
  read   : ∀ n ≤ db.headBlockNum, ∀ b, db.readBlockByNum n = some b → b.blockNum = n ∧ Path U db.headBlockId b
  /-- The heights of a range reply follow each other, and up to the head so do its blocks. -/
  range  : ∀ first last, Consecutive (db.onDltGetBlockRange env first last).blocks
  linked : ∀ first last, last ≤ db.headBlockNum →
    (db.onDltGetBlockRange env first last).blocks.IsChain fun a b => b.previous = a.id

/-- **The storage can serve the applied chain.** -/
structure Serveable (U : SignedBlock Tx → Prop) (env : Env Tx L) (db : Database Tx L) : Prop where
  /-- The rolling log has the applied chain. -/
  log   : db.dltMode = true → ∀ n ≤ db.headBlockNum, ∀ b, db.readDltBlockLog n = some b → Path U db.headBlockId b
  /-- Of the blocks of a height that is not in the log, the first one that arrived is on the applied chain. -/
  first : ∀ n ≤ db.headBlockNum, (db.dltMode = true → db.readDltBlockLog n = none) →
    ∀ x xs, db.forkDb.fetchBlockByNumber n = x :: xs → Path U db.headBlockId x.data
  holes : db.HolesApart env

theorem readBlockByNum_log {n : Nat} {b : SignedBlock Tx} (hd : db.dltMode = true)
    (hb : db.readDltBlockLog n = some b) : db.readBlockByNum n = some b := by
  unfold readBlockByNum
  rw [if_pos hd, hb]

theorem readBlockByNum_first {n : Nat} {x : ForkItem Tx} {xs : List (ForkItem Tx)}
    (hlog : db.dltMode = true → db.readDltBlockLog n = none) (hx : db.forkDb.fetchBlockByNumber n = x :: xs) :
    db.readBlockByNum n = some x.data := by
  have hnone : (if db.dltMode then db.readDltBlockLog n else none) = none := by
    split
    · next hd => exact hlog hd
    · rfl
  unfold readBlockByNum
  rw [hnone, hx]
  rfl

/-- A block was read from the log, or it is the first of its height. -/
theorem readBlockByNum_cases {n : Nat} {b : SignedBlock Tx} (h : db.readBlockByNum n = some b) :
    (db.dltMode = true ∧ db.readDltBlockLog n = some b) ∨
      ((db.dltMode = true → db.readDltBlockLog n = none) ∧
        ∃ x xs, db.forkDb.fetchBlockByNumber n = x :: xs ∧ x.data = b) := by
  unfold readBlockByNum at h
  split at h
  · next c hc =>
      obtain rfl := Option.some.inj h
      split at hc
      · next hd => exact .inl ⟨hd, hc⟩
      · exact absurd hc (by simp)
  · next hnone =>
      refine .inr ⟨fun hd => by rwa [if_pos hd] at hnone, ?_⟩
      obtain ⟨x, hx, rfl⟩ := Option.map_eq_some_iff.mp h
      obtain ⟨xs, hxs⟩ := List.head?_eq_some_iff.mp hx
      exact ⟨x, xs, hxs, rfl⟩

theorem Serveable.served (hU : Universe U) (hnum : Numbered db.dltBlockLog) (h : Serveable U env db) :
    Served U env db := by
  have hread : ∀ n ≤ db.headBlockNum, ∀ b, db.readBlockByNum n = some b →
      b.blockNum = n ∧ Path U db.headBlockId b := by
    intro n hn b hb
    refine ⟨readBlockByNum_num hnum hb, ?_⟩
    rcases readBlockByNum_cases hb with ⟨hd, hlog⟩ | ⟨hlog, x, xs, hx, rfl⟩
    · exact h.log hd n hn b hlog
    · exact h.first n hn hlog x xs hx
  have hrange : ∀ first last, Consecutive (db.onDltGetBlockRange env first last).blocks := by
    intro first last
    rw [onDltGetBlockRange_blocks]
    by_cases hle : first ≤ min last db.getDltLatestBlock + 1
    · refine rangeBlocks_consecutive hnum h.holes (by omega) List.isChain_nil fun a ha => ?_
      exact absurd ha (by simp)
    · rw [Nat.sub_eq_zero_of_le (by omega)]
      exact List.isChain_nil
  refine ⟨hread, hrange, fun first last hlast => ?_⟩
  have hpath : ∀ b ∈ (db.onDltGetBlockRange env first last).blocks, Path U db.headBlockId b := by
    intro b hb
    rw [onDltGetBlockRange_blocks] at hb
    rcases rangeBlocks_read hb with hb | ⟨n, hlo, hhi, hn⟩
    · exact absurd hb List.not_mem_nil
    · exact (hread n (by omega) b hn).2
  refine (hrange first last).imp_of_mem_imp fun a b ha hb hab => ?_
  exact path_linked hU (hpath a ha) (hpath b hb) hab

theorem Served.serveable (hnum : Numbered db.dltBlockLog) (h : Served U env db) : Serveable U env db := by
  refine ⟨?_, ?_, ?_⟩
  · intro hd n hn b hb
    exact (h.read n hn b (readBlockByNum_log hd hb)).2
  · intro n hn hlog x xs hx
    exact (h.read n hn x.data (readBlockByNum_first hlog hx)).2
  · intro m n hmn hn hgap a ha b hb
    by_contra hfits
    -- the request of exactly these heights is answered with the two blocks
    have hreply : (db.onDltGetBlockRange env m n).blocks = [a, b] := by
      rw [onDltGetBlockRange_blocks, Nat.min_eq_left hn]
      have hcount : n + 1 - m = (n - m - 1) + 1 + 1 := by omega
      rw [hcount, rangeBlocks, ha]
      dsimp only
      rw [if_neg (by simp), List.nil_append]
      rw [rangeBlocks_skip fun j hj hlt => hgap j (by omega) (by omega)]
      have hpos : m + 1 + (n - m - 1) = n := by omega
      rw [hpos, rangeBlocks, hb]
      dsimp only
      rw [if_neg fun hlong => hfits hlong.1]
      rfl
    have hcons := h.range m n
    rw [hreply] at hcons
    have hstep : b.blockNum = a.blockNum + 1 := by simpa [Consecutive] using hcons
    rw [readBlockByNum_num hnum hb, readBlockByNum_num hnum ha] at hstep
    omega

/-- **In every state of every run, peers are served the applied chain exactly when the storage can serve it.** -/
theorem served_iff (hU : Universe U) (hst : Stored U db) (hnum : Numbered db.dltBlockLog) {steps : List (Step Tx)}
    (hs : ∀ x ∈ steps, x.From U) :
    Served U env (run env db steps) ↔ Serveable U env (run env db steps) := by
  have hrun : Numbered (run env db steps).dltBlockLog := run_numbered hs hst hnum
  constructor
  · intro h
    exact h.serveable hrun
  · intro h
    exact h.served hU hrun

end Database

namespace Sample

/-- A branch that outweighs `b2`. -/
def heavy2 : SignedBlock Tx := block block1.id 9 4 20
def heavy3 : SignedBlock Tx := block heavy2.id 12 1 21

def twoBlocks : List (Step Tx) := [.block b2 Skip.nothing, .block b3 Skip.nothing]

end Sample

namespace Database

open Sample in
/-- **The block that arrived first is served**: the node has switched to the branch of `heavy3`, and a peer that asks for
    the blocks 1 to 3 gets `b2` under it. -/
theorem served_first_arrival :
    (push four [b2, heavy2, heavy3]).headBlockId = heavy3.id ∧ (push four [b2, heavy2, heavy3]).readBlockByNum 2 = some b2 ∧
      ((push four [b2, heavy2, heavy3]).onDltGetBlockRange env 1 3).blocks = [block1, b2, heavy3] ∧ heavy3.previous ≠ b2.id ∧
      ¬Path (· ∈ [block1, b2, heavy2, heavy3]) heavy3.id b2 := by
  refine ⟨by decide +kernel, by decide +kernel, by decide +kernel, by decide +kernel, fun h => ?_⟩
  have hU : Universe (· ∈ [block1, b2, heavy2, heavy3]) := Universe.of_list (by decide +kernel) (by decide +kernel)
  have hc : Path (· ∈ [block1, b2, heavy2, heavy3]) heavy3.id heavy2 := .down (by simp) (.tip (by simp))
  exact absurd (path_unique hU h hc (by decide +kernel)) (by decide +kernel)

open Sample in
/-- Without a competing branch peers are served the applied chain. -/
theorem served_iff_sample : Served (· ∈ [block1, b2, b3]) env (run env four twoBlocks) := by
  have hU : Universe (· ∈ [block1, b2, b3]) := Universe.of_list (by decide +kernel) (by decide +kernel)
  have hst : Stored (· ∈ [block1, b2, b3]) four := node_stored (by simp) _ _
  have hhead : (run env four twoBlocks).headBlockNum = 3 := by decide +kernel
  have hlatest : (run env four twoBlocks).getDltLatestBlock = 3 := by decide +kernel
  have hmode : (run env four twoBlocks).dltMode = false := by decide +kernel
  have hzero : (run env four twoBlocks).readBlockByNum 0 = none := by decide +kernel
  have hsome : ∀ n < 3, (run env four twoBlocks).readBlockByNum (n + 1) ≠ none := by decide +kernel
  have hpath : ∀ n < 4, ∀ x ∈ (run env four twoBlocks).forkDb.fetchBlockByNumber n,
      x.data ∈ pathIn [block1, b2, b3] 3 (run env four twoBlocks).headBlockId := by decide +kernel
  refine (served_iff hU hst numbered_nil (by decide +kernel)).mpr ⟨?_, ?_, ?_⟩
  · intro hd
    rw [hmode] at hd
    exact absurd hd (by simp)
  · intro n hn _ x xs hx
    rw [hhead] at hn
    refine path_of_mem_pathIn (hpath n (by omega) x ?_)
    rw [hx]
    exact List.mem_cons_self
  · intro m n hmn hn hgap a ha _ _
    rw [hlatest] at hn
    cases m with
    | zero =>
        rw [hzero] at ha
        exact absurd ha (by simp)
    | succ m => exact absurd (hgap (m + 2) (by omega) (by omega)) (hsome (m + 1) (by omega))

end Database

end VizNode
