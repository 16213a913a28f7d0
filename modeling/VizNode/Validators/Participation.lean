import VizNode.Chain.CoreTicks
import VizNode.Validators.Production

/-!
# `VizNode.Validators.Participation` — does the window show which slots were filled?

The state keeps a window of 128 bits, one for each of the last slots, and beside it the number of ones, from
which the participation of the validators is computed. Every block shifts the window by the slots it came
late and by its own.

**The number is right** in every state, however late blocks come. **The order of the bits is not**: the loop
shifts the one of the block in *first* and the zeros of the missed slots after it, so that the block appears in
the oldest of these slots. Where no slot is missed there is nothing to get wrong, and a missed slot is shown
wrongly until it has left the window (`slots_shown_iff`).

## Contents
- **Bits.** `fillSlot` and the loop over the slots of a block, bit by bit.
- **Slots.** `slotsFilled` is how the slots of a block should look; `slotHistory` puts them together along a chain.
- **Traces and runs.**
-/

namespace VizNode

open Production

/-! ## Bits -/

theorem popcount_eq_countP (bits x : Nat) : popcount bits x = (List.range bits).countP x.testBit :=
  List.countP_eq_length_filter.symm

theorem popcount_le (bits x : Nat) : popcount bits x ≤ bits := by
  have hle := List.countP_le_length (p := x.testBit) (l := List.range bits)
  rw [List.length_range] at hle
  rw [popcount_eq_countP]
  exact hle

/-- The top bit of a word is the last one to be counted. -/
theorem popcount_succ (bits x : Nat) : popcount (bits + 1) x = popcount bits x + (x.testBit bits).toNat := by
  rw [popcount_eq_countP, popcount_eq_countP, List.range_succ, List.countP_append, List.countP_singleton]
  cases x.testBit bits <;> rfl

/-- **A shift** counts the bit that comes in, and all others but the top one. -/
theorem popcount_shift (bits : Nat) {x y : Nat} (hy : ∀ i < bits, y.testBit (i + 1) = x.testBit i) :
    popcount (bits + 1) y = (y.testBit 0).toNat + popcount bits x := by
  have hrest : (List.range bits).countP (y.testBit ∘ Nat.succ) = (List.range bits).countP x.testBit := by
    refine List.countP_congr fun i hi => ?_
    rw [Function.comp, hy i (List.mem_range.mp hi)]
  rw [popcount_eq_countP, popcount_eq_countP, List.range_succ_eq_map, List.countP_cons, List.countP_map, hrest]
  cases y.testBit 0
  · simp
  · simp
    omega

/-- The bits after a shift. -/
theorem testBit_shift (bits x : Nat) {f : Nat} (hf : f ≤ 1) (i : Nat) :
    ((x * 2 + f) % 2 ^ bits).testBit i =
      (decide (i < bits) && if i = 0 then decide (f = 1) else x.testBit (i - 1)) := by
  rw [Nat.testBit_mod_two_pow]
  cases i with
  | zero =>
      have hodd : (x * 2 + f) % 2 = f := by omega
      rw [Nat.testBit_zero, hodd, if_pos rfl]
  | succ i =>
      have hhalf : (x * 2 + f) / 2 = x := by omega
      rw [Nat.testBit_succ, hhalf, if_neg (Nat.succ_ne_zero i), Nat.add_sub_cancel]

/-- The top bit of a word of 128 bits. -/
theorem testBit_top {x : Nat} (hx : x < 2 ^ 128) : (x.testBit 127).toNat = if 2 ^ 127 ≤ x then 1 else 0 := by
  rw [Nat.testBit_eq_decide_div_mod_eq]
  split
  · have hdiv : x / 2 ^ 127 = 1 := by omega
    rw [hdiv]
    rfl
  · have hdiv : x / 2 ^ 127 = 0 := by omega
    rw [hdiv]
    rfl

namespace Core

open Prog Relation

variable {Tx L : Type} {U : SignedBlock Tx → Prop} {env : Env Tx L} {b : SignedBlock Tx} {c₀ c c' : Core L}

theorem fillSlot_testBit (p : Nat × Nat) (k i : Nat) :
    (fillSlot p k).1.testBit i =
      (decide (i < 128) && if i = 0 then decide (k = 0) else p.1.testBit (i - 1)) := by
  have hfilled : (if k = 0 then 1 else 0) ≤ 1 := by split <;> omega
  have hbit : decide ((if k = 0 then 1 else 0) = 1) = decide (k = 0) := by split <;> simp_all
  have hshift := testBit_shift 128 p.1 hfilled i
  rw [hbit] at hshift
  exact hshift

/-- **The counter counts the window.** -/
structure Counts (p : Nat × Nat) : Prop where
  bounded : p.1 < 2 ^ 128
  count   : p.2 = popcount 128 p.1

/-- **Every shift keeps the count**: what drops out is taken off, what comes in is added. -/
theorem fillSlot_counts {p : Nat × Nat} (h : Counts p) (k : Nat) : Counts (fillSlot p k) := by
  have hmod : (fillSlot p k).1 < 2 ^ 128 := Nat.mod_lt _ (Nat.two_pow_pos 128)
  refine ⟨hmod, ?_⟩
  have hin : (fillSlot p k).1.testBit 0 = decide (k = 0) := by
    rw [fillSlot_testBit, if_pos rfl]
    exact Bool.true_and _
  have hshift : popcount 128 (fillSlot p k).1 = ((fillSlot p k).1.testBit 0).toNat + popcount 127 p.1 := by
    refine popcount_shift 127 fun i hi => ?_
    have hlt : i + 1 < 128 := by omega
    rw [fillSlot_testBit, decide_eq_true hlt, if_neg (Nat.succ_ne_zero i), Nat.add_sub_cancel, Bool.true_and]
  have hdrop : popcount 128 p.1 = popcount 127 p.1 + (p.1.testBit 127).toNat := popcount_succ 127 p.1
  rw [testBit_top h.bounded] at hdrop
  have hcount : (fillSlot p k).2 =
      (p.2 + 256 - (if 2 ^ 127 ≤ p.1 then 1 else 0) + (if k = 0 then 1 else 0)) % 256 := rfl
  have hle : popcount 127 p.1 ≤ 127 := popcount_le 127 p.1
  have hbit : (decide (k = 0)).toNat = if k = 0 then 1 else 0 := by split <;> simp_all
  rw [hcount, hshift, hin, hbit, h.count, hdrop]
  generalize popcount 127 p.1 = n at hle
  generalize (if 2 ^ 127 ≤ p.1 then 1 else 0) = top
  split <;> omega

/-- The window and its counter after a block that came `m` slots late. -/
def shiftedWindow (m : Nat) (p : Nat × Nat) : Nat × Nat := (List.range (m + 1)).foldl fillSlot p

theorem shiftedWindow_succ (m : Nat) (p : Nat × Nat) :
    shiftedWindow (m + 1) p = fillSlot (shiftedWindow m p) (m + 1) := by
  unfold shiftedWindow
  rw [List.range_succ, List.foldl_append]
  rfl

theorem shiftedWindow_counts (m : Nat) {p : Nat × Nat} (h : Counts p) : Counts (shiftedWindow m p) := by
  induction m with
  | zero => exact fillSlot_counts h 0
  | succ m ih =>
      rw [shiftedWindow_succ]
      exact fillSlot_counts ih (m + 1)

/-- How the loop shows the slots of a block that came `m` slots late: the block first, then the missed ones. -/
def slotsShown (m : Nat) (past : Nat → Bool) (i : Nat) : Bool :=
  if i < m then false else if i = m then true else past (i - m - 1)

theorem slotsShown_congr {m : Nat} {past past' : Nat → Bool} (h : ∀ i < 128, past i = past' i) {i : Nat}
    (hi : i < 128) : slotsShown m past i = slotsShown m past' i := by
  unfold slotsShown
  split
  · rfl
  · split
    · rfl
    · exact h _ (by omega)

/-- **What the loop makes of the window.** -/
theorem shiftedWindow_testBit (m : Nat) (p : Nat × Nat) {i : Nat} (hi : i < 128) :
    (shiftedWindow m p).1.testBit i = slotsShown m p.1.testBit i := by
  induction m generalizing i with
  | zero =>
      show (fillSlot p 0).1.testBit i = _
      rw [fillSlot_testBit, decide_eq_true hi, Bool.true_and]
      unfold slotsShown
      cases i with
      | zero => rfl
      | succ i => simp
  | succ m ih =>
      rw [shiftedWindow_succ, fillSlot_testBit, decide_eq_true hi, Bool.true_and]
      unfold slotsShown
      cases i with
      | zero => simp
      | succ i =>
          -- the slots shown so far move up by one
          rw [if_neg (Nat.succ_ne_zero i), Nat.add_sub_cancel, ih (by omega)]
          unfold slotsShown
          have hsub : i + 1 - (m + 1) - 1 = i - m - 1 := by omega
          simp only [Nat.add_lt_add_iff_right, Nat.add_right_cancel_iff, hsub]

end Core

/-! ## Slots -/

/-- **How the slots of a block should look** that came `m` slots late: its own is filled, those before it were
    missed, and the past comes after them. -/
def slotsFilled (m : Nat) (past : Nat → Bool) (i : Nat) : Bool :=
  if i = 0 then true else if i ≤ m then false else past (i - m - 1)

/-- **Which slot was filled**, counted back from the head, when the blocks came so many slots late, newest first. -/
def slotHistory (past : Nat → Bool) : List Nat → Nat → Bool
  | []      => past
  | m :: ms => slotsFilled m (slotHistory past ms)

/-- What the window shows instead. -/
def windowHistory (past : Nat → Bool) : List Nat → Nat → Bool
  | []      => past
  | m :: ms => Core.slotsShown m (windowHistory past ms)

/-- **The two agree where no block came late.** -/
theorem windowHistory_iff (past : Nat → Bool) (ms : List Nat) (n : Nat) :
    (∀ i < n, windowHistory past ms i = slotHistory past ms i) ↔ ∀ m ∈ ms.take n, m = 0 := by
  induction ms generalizing n with
  | nil => simp [windowHistory, slotHistory]
  | cons m ms ih =>
      cases n with
      | zero => simp
      | succ n =>
          rw [List.take_succ_cons, List.forall_mem_cons, ← ih n]
          simp only [windowHistory, slotHistory]
          constructor
          · intro h
            -- the newest slot is filled, and the window says so if the block was in time
            have hm : m = 0 := by
              by_contra hne
              have hzero := h 0 (Nat.succ_pos n)
              simp [Core.slotsShown, slotsFilled, Nat.pos_of_ne_zero hne] at hzero
            subst hm
            refine ⟨rfl, fun i hi => ?_⟩
            have hi' := h (i + 1) (by omega)
            simpa [Core.slotsShown, slotsFilled] using hi'
          · rintro ⟨rfl, h⟩ i hi
            cases i with
            | zero => rfl
            | succ i => simpa [Core.slotsShown, slotsFilled] using h i (by omega)

/-- How many slots a block came late, when its parent has the time `parent`. -/
def slotsMissed (parent time : Nat) : Nat :=
  if parent = 0 then 0 else time / Config.blockInterval - parent / Config.blockInterval - 1

/-- The time of the newest block of a chain that starts at the time `start`. -/
def headTime {Tx : Type} (start : Nat) : List (SignedBlock Tx) → Nat
  | []     => start
  | b :: _ => b.timestamp

/-- How many slots the blocks of a chain came late, newest first. -/
def missedSlots {Tx : Type} (start : Nat) : List (SignedBlock Tx) → List Nat
  | []      => []
  | b :: bs => slotsMissed (headTime start bs) b.timestamp :: missedSlots start bs

/-! ## Traces and runs -/

namespace Core

open Prog Relation

variable {Tx L : Type} {U : SignedBlock Tx → Prop} {env : Env Tx L} {b : SignedBlock Tx} {c₀ c c' : Core L}

/-- **The window, the time and the number of the head stay.** -/
structure SameWindow (c c' : Core L) : Prop where
  filled : c'.recentSlotsFilled = c.recentSlotsFilled
  count  : c'.participationCount = c.participationCount
  time   : c'.time = c.time
  num    : c'.headBlockNumber = c.headBlockNumber

instance sameWindowPreorder : IsPreorder (Core L) SameWindow where
  refl _ := ⟨rfl, rfl, rfl, rfl⟩
  trans _ _ _ h₁ h₂ := ⟨h₂.filled.trans h₁.filled, h₂.count.trans h₁.count, h₂.time.trans h₁.time, h₂.num.trans h₁.num⟩

theorem SameWindow.rfl' {c : Core L} : SameWindow c c := refl_of _ _

theorem upsertValidator_window (name : AccountName) (f : Validator → Validator) (c : Core L) :
    SameWindow c (c.upsertValidator name f) := by
  unfold upsertValidator
  split <;> exact ⟨rfl, rfl, rfl, rfl⟩

theorem applyEdit_window {e : ValidatorEdit} (h : c.applyEdit env e = .ok c') : SameWindow c c' := by
  cases e with
  | updateKey owner key => exact Except.ok.inj h ▸ upsertValidator_window owner _ c
  | updateProps owner props => exact Except.ok.inj h ▸ upsertValidator_window owner _ c
  | adjustVote owner delta =>
      obtain ⟨w, -, h⟩ := except_bind_eq_ok h
      split at h
      · exact Except.ok.inj h ▸ ⟨rfl, rfl, rfl, rfl⟩
      · exact absurd h (by simp [throw, throwThe, MonadExceptOf.throw])
  | clearVotes => exact Except.ok.inj h ▸ ⟨rfl, rfl, rfl, rfl⟩
  | remove owner unschedule => exact Except.ok.inj h ▸ ⟨rfl, rfl, rfl, rfl⟩

theorem missSlot_window {i : Nat} (h : missSlot b c i = .ok c') : SameWindow c c' := by
  obtain ⟨w, -, h⟩ := except_bind_eq_ok h
  dsimp only at h
  split at h <;> exact Except.ok.inj h ▸ ⟨rfl, rfl, rfl, rfl⟩

theorem expirePenalties_window (h : c.expirePenalties = .ok c') : SameWindow c c' := by
  unfold expirePenalties at h
  dsimp only at h
  have hstart : SameWindow c { c with penalties := c.penalties.filter (fun p => !decide (p.expires ≤ c.time)) } :=
    ⟨rfl, rfl, rfl, rfl⟩
  refine trans_of SameWindow hstart (foldlM_rel (fun d p d' hd => ?_) h)
  obtain ⟨w, -, hd⟩ := except_bind_eq_ok hd
  exact Except.ok.inj hd ▸ ⟨rfl, rfl, rfl, rfl⟩

theorem advanceVirtual_window (now : Nat) (names : List AccountName) (c : Core L) :
    SameWindow c (advanceVirtual now names c).1 := by
  induction names generalizing c with
  | nil => exact SameWindow.rfl'
  | cons name ns ih =>
      unfold advanceVirtual
      split
      · exact ih c
      · dsimp only
        split
        · exact SameWindow.rfl'
        · exact trans_of SameWindow (⟨rfl, rfl, rfl, rfl⟩ : SameWindow c (c.modifyValidator name _)) (ih _)

theorem newRound_window (h : c.newRound = .ok c') : SameWindow c c' := by
  obtain ⟨ws, -, h⟩ := except_bind_eq_ok h
  obtain rfl := Except.ok.inj h
  have hhybrid : ∀ d : Core L, SameWindow d d.hybridSchedule := by
    intro d
    unfold hybridSchedule
    split
    · dsimp only
      split <;> exact ⟨rfl, rfl, rfl, rfl⟩
    · exact SameWindow.rfl'
  have htally : ∀ d : Core L, SameWindow d (tallyVersions ws d) := by
    intro d
    unfold tallyVersions
    split <;> exact ⟨rfl, rfl, rfl, rfl⟩
  refine trans_of SameWindow ?_ (hhybrid _)
  refine trans_of SameWindow ?_ (⟨rfl, rfl, rfl, rfl⟩ : SameWindow (tallyVersions ws _) (shuffle _ _ _ _ _))
  refine trans_of SameWindow ?_ (htally _)
  have hreset : ∀ d : Core L, SameWindow d d.resetVirtualScheduleTime := fun _ => ⟨rfl, rfl, rfl, rfl⟩
  have hclasses : ∀ active support, SameWindow c (setClasses active support c) := fun _ _ => ⟨rfl, rfl, rfl, rfl⟩
  split
  · exact trans_of SameWindow (trans_of SameWindow (hclasses _ _) (advanceVirtual_window _ _ _)) (hreset _)
  · exact trans_of SameWindow (hclasses _ _) (advanceVirtual_window _ _ _)

theorem activateEmergency_window (b : SignedBlock Tx) (c : Core L) : SameWindow c (c.activateEmergency b) := by
  have hup := upsertValidator_window Config.emergencyValidatorAccount
    (committeeValidator { c with emergencyConsensusActive := true, emergencyConsensusStartBlock := b.blockNum })
    { c with emergencyConsensusActive := true, emergencyConsensusStartBlock := b.blockNum }
  exact ⟨hup.filled, hup.count, hup.time, hup.num⟩

/-- **Only the move of the head touches the window.** -/
theorem CoreTick.window (t : CoreTick env b c c') : SameWindow c c' := by
  cases t with
  | edited h => exact applyEdit_window h
  | opened =>
      unfold changeGenesis
      split <;> exact ⟨rfl, rfl, rfl, rfl⟩
  | extended e => cases e <;> exact ⟨rfl, rfl, rfl, rfl⟩
  | missed h => exact missSlot_window h
  | emergency => exact activateEmergency_window b c
  | expired h => exact expirePenalties_window h
  | round h => exact newRound_window h
  | median h =>
      obtain ⟨active, -, h⟩ := except_bind_eq_ok h
      dsimp only at h
      split at h <;> exact Except.ok.inj h ▸ ⟨rfl, rfl, rfl, rfl⟩
  | ledger l => exact ⟨rfl, rfl, rfl, rfl⟩
  | signed => exact ⟨rfl, rfl, rfl, rfl⟩
  | summary => exact ⟨rfl, rfl, rfl, rfl⟩
  | hardfork p => exact ⟨rfl, rfl, rfl, rfl⟩
  | shifted n => exact ⟨rfl, rfl, rfl, rfl⟩

theorem CoreTicks.window (t : CoreTicks env b c c') : SameWindow c c' := by
  induction t with
  | refl => exact SameWindow.rfl'
  | tail _ t ih => exact trans_of SameWindow ih t.window

/-- The slots between the head and the block, once there is a head. -/
theorem missed_eq (b : SignedBlock Tx) (c : Core L) (hc : c.headBlockNumber ≠ 0 ∨ c.time = 0) :
    c.missed b = slotsMissed c.time b.timestamp := by
  unfold missed slotsMissed getSlotAtTime getSlotTime
  have hint : Config.blockInterval = 3 := rfl
  by_cases ht : c.time = 0
  · rw [if_neg (not_not.mpr ht), if_pos ht]
  · have hnum : c.headBlockNumber ≠ 0 := hc.resolve_right ht
    rw [if_pos ht, if_neg ht, if_neg (by decide : ¬ 1 = 0), if_neg hnum, hint]
    split <;> omega

/-- **What the window shows after the blocks of a chain.** -/
structure Shows (past : Nat → Bool) (start : Nat) (bs : List (SignedBlock Tx)) (c : Core L) : Prop where
  counts : Counts (c.recentSlotsFilled, c.participationCount)
  bits   : ∀ i < 128, c.recentSlotsFilled.testBit i = windowHistory past (missedSlots start bs) i
  time   : c.time = headTime start bs
  begun  : c.headBlockNumber ≠ 0 ∨ c.time = 0

theorem Shows.congr {past : Nat → Bool} {start : Nat} {bs : List (SignedBlock Tx)} (h : Shows past start bs c)
    (hs : SameWindow c c') : Shows past start bs c' := by
  refine ⟨?_, ?_, hs.time.trans h.time, ?_⟩
  · rw [hs.filled, hs.count]
    exact h.counts
  · rw [hs.filled]
    exact h.bits
  · rw [hs.num, hs.time]
    exact h.begun

/-- **A block adds its slots to the window.** -/
theorem Shows.moveHead {past : Nat → Bool} {start : Nat} {bs : List (SignedBlock Tx)} (h : Shows past start bs c)
    (hnum : b.blockNum ≠ 0) : Shows past start (b :: bs) (c.moveHead env b (c.missed b)) := by
  have hmissed : c.missed b = slotsMissed (headTime start bs) b.timestamp := h.time ▸ missed_eq b c h.begun
  refine ⟨?_, fun i hi => ?_, rfl, .inl hnum⟩
  · exact shiftedWindow_counts (c.missed b) h.counts
  · show (shiftedWindow (c.missed b) (c.recentSlotsFilled, c.participationCount)).1.testBit i = _
    rw [shiftedWindow_testBit _ _ hi, slotsShown_congr h.bits hi, hmissed]
    rfl

theorem Traced.shows {past : Nat → Bool} {l : List (Entry Tx)} (h : Traced env c₀ l c)
    (hnum : ∀ r ∈ l, r.block.blockNum ≠ 0) (h₀ : Shows past c₀.time ([] : List (SignedBlock Tx)) c₀) :
    Shows past c₀.time (l.map (·.block)) c := by
  induction h with
  | start => exact h₀
  | @block rs d d₁ d' r skip lib _ _ hb hf ih =>
      have hd := ih fun r' hr' => hnum r' (List.mem_cons_of_mem _ hr')
      obtain ⟨e, f, he, hef, hmoved⟩ := beginBlock_ticks hb
      have hsame : SameWindow e f := hef.window
      have hf' := (hd.congr he.window).congr hsame
      have hmissed : e.missed r.block = f.missed r.block := by
        rw [missed_eq _ _ (hd.congr he.window).begun, missed_eq _ _ hf'.begun, hsame.time]
      rw [hmissed] at hmoved
      have hblock := (hf'.moveHead (hnum r (List.mem_cons_self ..))).congr hmoved.window
      have hfinish : SameWindow d₁ d' := by
        clear hb hmoved hblock
        induction hf with
        | refl => exact SameWindow.rfl'
        | tail _ hf ih => exact trans_of SameWindow ih hf.ticks.window
      exact hblock.congr hfinish

end Core

namespace Database

open Core UndoDb

variable {Tx L : Type} {U : SignedBlock Tx → Prop} {env : Env Tx L} {base : BlockId} {db : Database Tx L}

/-- **The counter is right in every state** a node is in or can come back to, **and the window shows which slots
    were filled exactly if none of the newest 128 blocks came late**. -/
theorem slots_shown_iff (hU : Universe U) (h : InOrder U base db) (hopen : Opened db) {past : Nat → Bool}
    (h₀ : Shows past db.state.core.time ([] : List (SignedBlock Tx)) db.state.core) {steps : List (Step Tx)}
    (hs : ∀ x ∈ steps, x.From U) {s : ChainState Tx L} (hstate : s ∈ (run env db steps).chainbase.layers) :
    s.core.participationCount = popcount 128 s.core.recentSlotsFilled ∧
      ((∀ i < 128, s.core.recentSlotsFilled.testBit i =
          slotHistory past (missedSlots db.state.core.time s.chain) i) ↔
        ∀ m ∈ (missedSlots db.state.core.time s.chain).take 128, m = 0) := by
  obtain ⟨c, htraced, hexec⟩ := run_layer hU h hopen hs hstate
  have hwell : s.WellFormed U base := (run_inOrder hU hs h).1.layers.stacked.each s hstate
  have hblocks : s.entries.map (·.block) = s.chain := by
    unfold ChainState.entries ChainState.chain
    rw [List.map_map]
    rfl
  have hnum : ∀ r ∈ s.entries, r.block.blockNum ≠ 0 := by
    intro r hr
    have hmem : r.block ∈ s.chain := hblocks ▸ List.mem_map_of_mem hr
    rw [hU.num_eq (hwell.exists_ _ hmem)]
    omega
  have hshows := (htraced.shows hnum h₀).congr (Executes.ticks (noBlock Tx) hexec).window
  rw [hblocks] at hshows
  refine ⟨hshows.counts.count, ?_⟩
  rw [← windowHistory_iff]
  constructor
  · intro hbits i hi
    rw [← hshows.bits i hi, hbits i hi]
  · intro hbits i hi
    rw [hshows.bits i hi, hbits i hi]

end Database

/-! ## The sample network -/

namespace Sample

open Core

/-- The window of the sample network has seen one block. -/
def seenOne (i : Nat) : Bool := i == 0

theorem four_shows : Shows seenOne four.state.core.time ([] : List (SignedBlock Tx)) four.state.core := by
  refine ⟨⟨by decide +kernel, by decide +kernel⟩, fun i _ => ?_, rfl, .inl (by decide)⟩
  show Nat.testBit 1 i = _
  cases i with
  | zero => rfl
  | succ i =>
      rw [Nat.testBit_succ]
      exact Nat.zero_testBit i

/-- A block that comes one slot late. -/
def tardy2 : SignedBlock Tx := block block1.id 9 4 2

/-- **The window of a late block shows the head slot as missed**, and the missed slot as filled. -/
theorem late_block_shown_as_missed :
    (push four [tardy2]).state.chain = [tardy2] ∧
    slotHistory seenOne (missedSlots four.state.core.time [tardy2]) 0 = true ∧
    (push four [tardy2]).state.core.recentSlotsFilled.testBit 0 = false ∧
    slotHistory seenOne (missedSlots four.state.core.time [tardy2]) 1 = false ∧
    (push four [tardy2]).state.core.recentSlotsFilled.testBit 1 = true := by
  decide +kernel

/-- Two blocks in time. -/
def inTime : List (Step Tx) := [.block b2 Skip.nothing, .block b3 Skip.nothing]

/-- They are shown as they are. -/
theorem slots_shown_iff_sample :
    (four.run env inTime).state.core.participationCount = popcount 128 (four.run env inTime).state.core.recentSlotsFilled ∧
    ∀ i < 128, (four.run env inTime).state.core.recentSlotsFilled.testBit i =
      slotHistory seenOne (missedSlots four.state.core.time (four.run env inTime).state.chain) i := by
  have hU : Universe (· ∈ [block1, b2, b3]) := Universe.of_list (by decide) (by decide)
  have hstart : Database.InOrder (· ∈ [block1, b2, b3]) block1.id four := node_inOrder (by simp) (by decide) _
  have hs : ∀ x ∈ inTime, x.From (· ∈ [block1, b2, b3]) := by simp [inTime, Step.From]
  have hmissed : ∀ m ∈ (missedSlots four.state.core.time (four.run env inTime).state.chain).take 128, m = 0 := by
    decide +kernel
  have hopen : Database.Opened four := ⟨rfl, rfl, rfl⟩
  obtain ⟨hcount, hbits⟩ := Database.slots_shown_iff (s := (four.run env inTime).state) hU hstart hopen four_shows hs
    (UndoDb.state_mem_layers _)
  exact ⟨hcount, hbits.mpr hmissed⟩

end Sample

end VizNode
