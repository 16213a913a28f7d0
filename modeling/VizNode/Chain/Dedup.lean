import VizNode.Chain.Replay

/-!
# `VizNode.Chain.Dedup` — no transaction is applied twice

The node remembers the ids of the transactions it has applied, each with its expiration, and forgets those that
have expired. A transaction is refused while its id is remembered, and once it has expired. **The two checks leave
no gap**: an id is forgotten only when the time of the head is past the expiration, and the time of the head
never goes back.

The check of the expiration is not made in the first block. It need not be: nothing has been forgotten by then,
and what the first block brings already expired is refused from the second block on.

## Contents
- **The deduplication index.** `Dedup`, and the environment `dedupEnv` of a ledger that keeps one.
- **What stands still.** `Still`: the parts of a block that move neither the clock nor the ledger.
- **What is remembered.** `Remembers`, kept by every block.
- **No transaction twice.** `no_replay`.
-/

namespace VizNode

/-! ## The deduplication index -/

/-- `signed_transaction`: what is signed, and the signatures. -/
structure SignedTx (U S : Type) where
  unsigned   : U
  signatures : S
deriving DecidableEq

/-- What is read off a transaction. **The id is a collision-free function of what is signed.** -/
structure TxFormat (U Id : Type) where
  id         : U → Id
  expiration : U → Nat
  inj        : Function.Injective id

/-- A ledger with the rows of the `transaction_index`. -/
structure Dedup (Id R : Type) where
  index : List (Id × Nat)
  rest  : R

namespace Config

/-- `CHAIN_MAX_TIME_UNTIL_EXPIRATION`. -/
def maxTimeUntilExpiration : Nat := 60 * 60

end Config

section Index

variable {U S Id R : Type} [DecidableEq Id]

/-- The core for code that does not see the index. -/
def Core.withoutIndex (c : Core (Dedup Id R)) : Core R := { c with ledger := c.ledger.rest }

/-- The expiration check of `_validate_transaction`. -/
def Core.withinWindow {L : Type} (c : Core L) (expiration : Nat) : Prop :=
  0 < c.headBlockNumber → expiration ≤ c.time + Config.maxTimeUntilExpiration ∧ c.time < expiration

instance {L : Type} (c : Core L) (expiration : Nat) : Decidable (c.withinWindow expiration) :=
  inferInstanceAs (Decidable (_ → _))

/-- `_apply_transaction`; `base` is what it does besides. -/
def applyDeduped (F : TxFormat U Id) (base : Env (SignedTx U S) R) (skip : Skip) (tx : SignedTx U S)
    (c : Core (Dedup Id R)) : Except Nat (List ValidatorEdit × Dedup Id R) :=
  if skip.transactionDupeCheck = false ∧ F.id tx.unsigned ∈ c.ledger.index.map Prod.fst then .error 0
  else if ¬ c.withinWindow (F.expiration tx.unsigned) then .error 1
  else do
    let (edits, rest) ← base.applyTransaction skip tx c.withoutIndex
    return (edits,
      { index := if skip.transactionDupeCheck then c.ledger.index
          else c.ledger.index ++ [(F.id tx.unsigned, F.expiration tx.unsigned)]
        rest  := rest })

/-- `clear_expired_transactions`: the rows are taken out by expiration, up to the time of the head. -/
def clearExpiredTransactions (base : Env (SignedTx U S) R) (c : Core (Dedup Id R)) :
    Except Nat (List ValidatorEdit × Dedup Id R) := do
  let (edits, rest) ← base.clearExpired c.withoutIndex
  return (edits, { index := c.ledger.index.filter (fun p => !decide (p.2 < c.time)), rest := rest })

/-- Code that does not see the index. -/
def besideIndex (f : Core R → Except Nat (List ValidatorEdit × R)) (c : Core (Dedup Id R)) :
    Except Nat (List ValidatorEdit × Dedup Id R) := do
  let (edits, rest) ← f c.withoutIndex
  return (edits, { c.ledger with rest := rest })

/-- **A chain that keeps a deduplication index.** -/
def dedupEnv (F : TxFormat U Id) (base : Env (SignedTx U S) R) : Env (SignedTx U S) (Dedup Id R) where
  packSize              := base.packSize
  calculateMerkleRoot   := base.calculateMerkleRoot
  sharedDbMerkle        := base.sharedDbMerkle
  validateSignee        := base.validateSignee
  hardforkTime          := base.hardforkTime
  hardforkVersion       := base.hardforkVersion
  totalVestingShares l  := base.totalVestingShares l.rest
  isKnownTransaction l tx := decide (F.id tx.unsigned ∈ l.index.map Prod.fst)
  applyTransaction      := applyDeduped F base
  clearExpired          := clearExpiredTransactions base
  processFunds          := besideIndex base.processFunds
  migrate n             := besideIndex (base.migrate n)
  pendingLimit          := base.pendingLimit

end Index

/-! ## What stands still -/

namespace Core

open Prog

variable {Tx L : Type}

/-- **Neither the clock nor the ledger moves.** -/
structure Still (c c' : Core L) : Prop where
  time   : c'.time = c.time
  ledger : c'.ledger = c.ledger

instance stillPreorder : IsPreorder (Core L) Still where
  refl _ := ⟨rfl, rfl⟩
  trans _ _ _ h₁ h₂ := ⟨h₂.time.trans h₁.time, h₂.ledger.trans h₁.ledger⟩

theorem Still.rfl' {c : Core L} : Still c c := ⟨rfl, rfl⟩

theorem still_modifyValidator (c : Core L) (name : AccountName) (f : Validator → Validator) :
    Still c (c.modifyValidator name f) := ⟨rfl, rfl⟩

theorem still_upsert (c : Core L) (name : AccountName) (f : Validator → Validator) :
    Still c (c.upsertValidator name f) := by
  unfold upsertValidator
  split <;> exact ⟨rfl, rfl⟩

theorem applyEdit_still {env : Env Tx L} {c c' : Core L} {e : ValidatorEdit} (h : c.applyEdit env e = .ok c') :
    Still c c' := by
  cases e with
  | updateKey owner key => exact Except.ok.inj h ▸ still_upsert c owner _
  | updateProps owner props => exact Except.ok.inj h ▸ still_upsert c owner _
  | adjustVote owner delta =>
      obtain ⟨w, -, h⟩ := except_bind_eq_ok h
      split at h
      · exact Except.ok.inj h ▸ ⟨rfl, rfl⟩
      · exact absurd h (by simp [throw, throwThe, MonadExceptOf.throw])
  | clearVotes => exact Except.ok.inj h ▸ ⟨rfl, rfl⟩
  | remove owner unschedule => exact Except.ok.inj h ▸ ⟨rfl, rfl⟩

/-- Code that ran on the ledger has left the clock alone and brought the ledger it answered with. -/
theorem runLedger_still {env : Env Tx L} {f : Core L → Except Nat (List ValidatorEdit × L)} {c c' : Core L}
    (h : c.runLedger env f = .ok c') : ∃ edits, f c = .ok (edits, c'.ledger) ∧ c'.time = c.time := by
  unfold runLedger at h
  split at h
  · exact absurd h (by simp)
  · next edits l hf =>
      have hs : Still { c with ledger := l } c' := foldlM_rel (fun _ _ _ => applyEdit_still) h
      exact ⟨edits, hs.ledger ▸ hf, hs.time⟩

theorem expirePenalties_still {c c' : Core L} (h : c.expirePenalties = .ok c') : Still c c' := by
  unfold expirePenalties at h
  have hstart : Still c { c with penalties := c.penalties.filter (fun p => !decide (p.expires ≤ c.time)) } :=
    ⟨rfl, rfl⟩
  refine trans_of Still hstart (foldlM_rel (fun d p d' hd => ?_) h)
  obtain ⟨w, -, hd⟩ := except_bind_eq_ok hd
  exact Except.ok.inj hd ▸ ⟨rfl, rfl⟩

theorem advanceVirtual_still (now : Nat) (names : List AccountName) (c : Core L) :
    Still c (advanceVirtual now names c).1 := by
  induction names generalizing c with
  | nil => exact Still.rfl'
  | cons name ns ih =>
      unfold advanceVirtual
      split
      · exact ih c
      · dsimp only
        split
        · exact Still.rfl'
        · exact trans_of Still (still_modifyValidator c name _) (ih _)

theorem hybridSchedule_still (c : Core L) : Still c c.hybridSchedule := by
  unfold hybridSchedule
  split
  · dsimp only
    split <;> exact ⟨rfl, rfl⟩
  · exact Still.rfl'

theorem newRound_still {c c' : Core L} (h : c.newRound = .ok c') : Still c c' := by
  obtain ⟨ws, -, h⟩ := except_bind_eq_ok h
  obtain rfl := Except.ok.inj h
  refine trans_of Still ?_ (hybridSchedule_still _)
  have htally : ∀ d : Core L, Still d (tallyVersions ws d) := by
    intro d
    unfold tallyVersions
    split <;> exact ⟨rfl, rfl⟩
  refine trans_of Still ?_ (⟨rfl, rfl⟩ : Still (tallyVersions ws _) (shuffle _ _ _ _ _))
  refine trans_of Still ?_ (htally _)
  have hclass : ∀ (active support : List AccountName), Still c (setClasses active support c) :=
    fun _ _ => ⟨rfl, rfl⟩
  have hreset : ∀ d : Core L, Still d d.resetVirtualScheduleTime := fun _ => ⟨rfl, rfl⟩
  split
  · exact trans_of Still (trans_of Still (hclass _ _) (advanceVirtual_still _ _ _)) (hreset _)
  · exact trans_of Still (hclass _ _) (advanceVirtual_still _ _ _)

theorem updateValidatorSchedule_still {c c' : Core L} (h : c.updateValidatorSchedule = .ok c') : Still c c' := by
  unfold updateValidatorSchedule at h
  split at h
  · exact Except.ok.inj h ▸ Still.rfl'
  · split at h
    · obtain ⟨c₁, h₁, h⟩ := except_bind_eq_ok h
      exact trans_of Still (expirePenalties_still h₁) (newRound_still h)
    · exact newRound_still h

theorem updateMedianValidatorProps_still {c c' : Core L} (h : c.updateMedianValidatorProps = .ok c') :
    Still c c' := by
  obtain ⟨ws, -, h⟩ := except_bind_eq_ok h
  dsimp only at h
  split at h <;> exact Except.ok.inj h ▸ ⟨rfl, rfl⟩

theorem openBlock_still {env : Env Tx L} {skip : Skip} {b : SignedBlock Tx} {c c' : Core L}
    (h : c.openBlock env skip b = .ok c') : c.time < b.timestamp ∧ Still c c' := by
  obtain ⟨_, -, h⟩ := except_bind_eq_ok h
  obtain ⟨_, hv, h⟩ := except_bind_eq_ok h
  obtain ⟨w, -, h⟩ := except_bind_eq_ok h
  constructor
  · unfold validateBlockHeader at hv
    by_contra hle
    by_cases hp : c.headBlockId = b.previous
    · simp [hp, not_lt.mp hle, throw, throwThe, MonadExceptOf.throw, bind, Except.bind] at hv
    · simp [hp, throw, throwThe, MonadExceptOf.throw, bind, Except.bind] at hv
  · have hg : Still c (({ c with currentValidator := b.validator } : Core L).changeGenesis b) := by
      unfold changeGenesis
      split <;> exact ⟨rfl, rfl⟩
    have he : ∀ d : Core L, Still d (d.processHeaderExtensions b) := by
      intro d
      unfold processHeaderExtensions
      induction b.extensions generalizing d with
      | nil => exact Still.rfl'
      | cons e es ih =>
          refine trans_of Still ?_ (ih (d.applyExtension b e))
          cases e <;> exact ⟨rfl, rfl⟩
    dsimp only at h
    split at h
    · exact absurd h (by simp [throw, throwThe, MonadExceptOf.throw, bind, Except.bind])
    · exact Except.ok.inj h ▸ trans_of Still hg (he _)

theorem missSlot_still {b : SignedBlock Tx} {c c' : Core L} {i : Nat} (h : missSlot b c i = .ok c') :
    Still c c' := by
  obtain ⟨w, -, h⟩ := except_bind_eq_ok h
  dsimp only at h
  split at h <;> exact Except.ok.inj h ▸ ⟨rfl, rfl⟩

/-- The clock moves with the head, the ledger does not. -/
theorem updateGlobalDynamicData_still {env : Env Tx L} {skip : Skip} {lib : Nat} {libTime : Option Nat}
    {b : SignedBlock Tx} {c c' : Core L} (h : c.updateGlobalDynamicData env skip lib libTime b = .ok c') :
    c'.time = b.timestamp ∧ c'.ledger = c.ledger := by
  unfold updateGlobalDynamicData at h
  dsimp only at h
  split at h
  · exact absurd h (by simp [throw, throwThe, MonadExceptOf.throw, bind, Except.bind])
  · generalize (if c.time ≠ 0 then c.getSlotAtTime b.timestamp - 1 else 0) = missed at h
    obtain ⟨c₁, h₁, h⟩ := except_bind_eq_ok h
    have s₁ : Still c c₁ := foldlM_rel (fun _ _ _ => missSlot_still) h₁
    split at h
    · exact absurd h (by simp [throw, throwThe, MonadExceptOf.throw, bind, Except.bind])
    · split at h
      · obtain rfl := Except.ok.inj h
        have hup := still_upsert (L := L) { c₁.moveHead env b missed with
          emergencyConsensusActive := true, emergencyConsensusStartBlock := b.blockNum }
          Config.emergencyValidatorAccount (committeeValidator { c₁.moveHead env b missed with
            emergencyConsensusActive := true, emergencyConsensusStartBlock := b.blockNum })
        exact ⟨hup.time, hup.ledger.trans s₁.ledger⟩
      · obtain rfl := Except.ok.inj h
        exact ⟨rfl, s₁.ledger⟩

end Core

/-! ## What is remembered -/

section Remembering

open Prog

variable {U S Id R : Type} [DecidableEq Id] {F : TxFormat U Id} {base : Env (SignedTx U S) R}

/-- **What the index remembers of the applied transactions**: their ids are all different, and each of them is in
    the index or has expired. -/
structure Remembers (F : TxFormat U Id) (c : Core (Dedup Id R)) (applied : List U) : Prop where
  nodup : (applied.map F.id).Nodup
  known : ∀ u ∈ applied, (F.id u, F.expiration u) ∈ c.ledger.index ∨
    0 < c.headBlockNumber ∧ F.expiration u < c.time

namespace Remembers

variable {c c' : Core (Dedup Id R)} {applied : List U}

omit [DecidableEq Id] in
/-- The clock goes on, and the index keeps what has not expired. -/
theorem mono (h : Remembers F c applied) (hnum : 0 < c'.headBlockNumber) (htime : c.time ≤ c'.time)
    (hindex : ∀ p ∈ c.ledger.index, p ∈ c'.ledger.index ∨ p.2 < c'.time) : Remembers F c' applied where
  nodup := h.nodup
  known := by
    intro u hu
    rcases h.known u hu with hin | ⟨-, hexp⟩
    · rcases hindex _ hin with hin' | hexp
      · exact .inl hin'
      · exact .inr ⟨hnum, hexp⟩
    · exact .inr ⟨hnum, hexp.trans_le htime⟩

omit [DecidableEq Id] in
/-- Nothing that is remembered changes. -/
theorem of_same (h : Remembers F c applied) (hnum : c'.headBlockNumber = c.headBlockNumber)
    (htime : c'.time = c.time) (hindex : c'.ledger.index = c.ledger.index) : Remembers F c' applied where
  nodup := h.nodup
  known := by
    intro u hu
    rw [hindex, hnum, htime]
    exact h.known u hu

end Remembers

/-- What an accepted transaction has passed, and what it leaves in the index. -/
theorem applyDeduped_ok {skip : Skip} {tx : SignedTx U S} {c : Core (Dedup Id R)} {edits : List ValidatorEdit}
    {l : Dedup Id R} (hskip : skip.transactionDupeCheck = false)
    (h : applyDeduped F base skip tx c = .ok (edits, l)) :
    F.id tx.unsigned ∉ c.ledger.index.map Prod.fst ∧ c.withinWindow (F.expiration tx.unsigned) ∧
      l.index = c.ledger.index ++ [(F.id tx.unsigned, F.expiration tx.unsigned)] := by
  unfold applyDeduped at h
  by_cases hdup : skip.transactionDupeCheck = false ∧ F.id tx.unsigned ∈ c.ledger.index.map Prod.fst
  · rw [if_pos hdup] at h
    cases h
  · rw [if_neg hdup] at h
    by_cases hwin : c.withinWindow (F.expiration tx.unsigned)
    · rw [if_neg (not_not.mpr hwin)] at h
      obtain ⟨⟨e, rest⟩, -, h⟩ := except_bind_eq_ok h
      rw [hskip] at h
      obtain rfl := (Prod.mk.inj (Except.ok.inj h)).2
      exact ⟨fun hin => hdup ⟨hskip, hin⟩, hwin, rfl⟩
    · rw [if_pos hwin] at h
      cases h

/-- **An accepted transaction is a new one.** -/
theorem applyDeduped_remembers {skip : Skip} {tx : SignedTx U S} {c c' : Core (Dedup Id R)} {applied : List U}
    (hskip : skip.transactionDupeCheck = false)
    (h : c.runLedger (dedupEnv F base) ((dedupEnv F base).applyTransaction skip tx) = .ok c')
    (hr : Remembers F c applied) : Remembers F c' (applied ++ [tx.unsigned]) := by
  obtain ⟨edits, hl, htime⟩ := Core.runLedger_still h
  have hnum : c'.headBlockNumber = c.headBlockNumber := (Core.runLedger_head h).num
  obtain ⟨hnew, hwin, hindex⟩ := applyDeduped_ok hskip hl
  have hfresh : ∀ u ∈ applied, u ≠ tx.unsigned := by
    rintro u hu rfl
    rcases hr.known _ hu with hin | ⟨hpos, hexp⟩
    · exact hnew (List.mem_map_of_mem (f := Prod.fst) hin)
    · exact absurd (hwin hpos).2 (not_lt.mpr hexp.le)
  constructor
  · rw [List.map_append, List.nodup_append]
    refine ⟨hr.nodup, List.nodup_singleton _, ?_⟩
    intro x hx y hy hxy
    obtain ⟨u, hu, rfl⟩ := List.mem_map.mp hx
    rw [List.map_singleton, List.mem_singleton] at hy
    exact hfresh u hu (F.inj (hxy.trans hy))
  · intro u hu
    rw [hindex, hnum, htime]
    rcases List.mem_append.mp hu with hu | hu
    · exact (hr.known u hu).imp_left (List.mem_append_left _)
    · rw [List.mem_singleton.mp hu]
      exact .inl (List.mem_append_right _ (List.mem_singleton_self _))

/-- The transactions of a block. -/
theorem transactions_remembers {skip : Skip} {txs : List (SignedTx U S)} {c c' : Core (Dedup Id R)}
    {applied : List U} (hskip : skip.transactionDupeCheck = false)
    (h : txs.foldlM (fun c tx => Core.runLedger (dedupEnv F base) ((dedupEnv F base).applyTransaction skip tx) c) c
      = .ok c') (hr : Remembers F c applied) : Remembers F c' (applied ++ txs.map (·.unsigned)) := by
  induction txs generalizing c applied with
  | nil =>
      obtain rfl := Except.ok.inj h
      rwa [List.map_nil, List.append_nil]
  | cons tx txs ih =>
      rw [List.foldlM_cons] at h
      obtain ⟨c₁, h₁, h⟩ := except_bind_eq_ok h
      have hall := ih h (applyDeduped_remembers hskip h₁ hr)
      rwa [List.append_assoc] at hall

/-- **Stage one**: the transactions of the block are new, and the clock goes on. -/
theorem beginBlock_remembers {skip : Skip} {lib : Nat} {libTime : Option Nat} {b : SignedBlock (SignedTx U S)}
    {c c' : Core (Dedup Id R)} {applied : List U} (hskip : skip.transactionDupeCheck = false)
    (h : c.beginBlock (dedupEnv F base) skip lib libTime b = .ok c') (hpos : 0 < b.blockNum)
    (hr : Remembers F c applied) :
    c.time < b.timestamp ∧ c'.time = b.timestamp ∧
      Remembers F c' (applied ++ b.transactions.map (·.unsigned)) := by
  obtain ⟨c₁, h₁, h⟩ := except_bind_eq_ok h
  obtain ⟨c₂, h₂, h⟩ := except_bind_eq_ok h
  obtain ⟨c₃, h₃, h⟩ := except_bind_eq_ok h
  obtain rfl := Except.ok.inj h
  obtain ⟨hlt, s₁⟩ := Core.openBlock_still h₁
  have hr₁ : Remembers F c₁ applied :=
    hr.of_same (Core.openBlock_head h₁).2.num s₁.time (congrArg Dedup.index s₁.ledger)
  have hdupe : skip.forTransactions.transactionDupeCheck = false := hskip
  have hr₂ := transactions_remembers hdupe h₂ hr₁
  have ht₂ : c₂.time = c₁.time := by
    refine foldlM_rel (R := fun x y : Core (Dedup Id R) => y.time = x.time) ?_ h₂
    intro d tx d' hd
    exact (Core.runLedger_still hd).choose_spec.2
  obtain ⟨ht₃, hl₃⟩ := Core.updateGlobalDynamicData_still h₃
  obtain ⟨-, hn₃, -⟩ := Core.updateGlobalDynamicData_head h₃
  refine ⟨hlt, ht₃, ?_⟩
  have hpos₃ : 0 < (c₃.updateSigningValidator b).headBlockNumber := hn₃ ▸ hpos
  refine hr₂.mono hpos₃ ?_ ?_
  · show c₂.time ≤ c₃.time
    rw [ht₃, ht₂, s₁.time]
    exact hlt.le
  · intro p hp
    show p ∈ c₃.ledger.index ∨ _
    rw [hl₃]
    exact .inl hp

/-- **Neither the clock nor the index moves.** -/
structure Core.SameIndex (c c' : Core (Dedup Id R)) : Prop where
  time  : c'.time = c.time
  index : c'.ledger.index = c.ledger.index

omit [DecidableEq Id] in
theorem Core.SameIndex.trans {c d e : Core (Dedup Id R)} (h : c.SameIndex d) (h' : d.SameIndex e) : c.SameIndex e :=
  ⟨h'.time.trans h.time, h'.index.trans h.index⟩

omit [DecidableEq Id] in
theorem Core.Still.sameIndex {c d : Core (Dedup Id R)} (h : Core.Still c d) : c.SameIndex d :=
  ⟨h.time, congrArg Dedup.index h.ledger⟩

/-- Code that does not see the index leaves it alone. -/
theorem besideIndex_index {f : Core R → Except Nat (List ValidatorEdit × R)} {c c' : Core (Dedup Id R)}
    (h : c.runLedger (dedupEnv F base) (besideIndex f) = .ok c') : c.SameIndex c' := by
  obtain ⟨edits, hl, htime⟩ := Core.runLedger_still h
  obtain ⟨⟨e, rest⟩, -, hl⟩ := except_bind_eq_ok hl
  exact ⟨htime, by rw [← (Prod.mk.inj (Except.ok.inj hl)).2]⟩

/-- Hardforks leave the index alone. -/
theorem processHardforks_index {n : Nat} {c c' : Core (Dedup Id R)}
    (h : c.processHardforks (dedupEnv F base) n = .ok c') : c.SameIndex c' := by
  induction n generalizing c with
  | zero => cases h
  | succ n ih =>
      unfold Core.processHardforks at h
      split at h
      · split at h
        · obtain ⟨c₁, h₁, h⟩ := except_bind_eq_ok h
          obtain ⟨c₂, h₂, h₁⟩ := except_bind_eq_ok h₁
          split at h₁
          · obtain rfl := Except.ok.inj h₁
            have hmigrated : c.SameIndex c₂ := besideIndex_index h₂
            have hlast := ih h
            exact ⟨hlast.time.trans hmigrated.time, hlast.index.trans hmigrated.index⟩
          · exact absurd h₁ (by simp [throw, throwThe, MonadExceptOf.throw])
        · cases h
      · obtain rfl := Except.ok.inj h
        exact ⟨rfl, rfl⟩

/-- **Stage three**: the rows that have expired are taken out. -/
theorem finishSchedule_index {b : SignedBlock (SignedTx U S)} {c c' : Core (Dedup Id R)}
    (h : c.finishSchedule (dedupEnv F base) b = .ok c') :
    c'.time = c.time ∧ c'.ledger.index = c.ledger.index.filter (fun p => !decide (p.2 < c.time)) := by
  obtain ⟨c₁, h₁, h⟩ := except_bind_eq_ok h
  obtain ⟨edits, hl, ht₁⟩ := Core.runLedger_still h₁
  obtain ⟨⟨e, rest⟩, -, hl⟩ := except_bind_eq_ok hl
  have hindex : c₁.ledger.index = c.ledger.index.filter (fun p => !decide (p.2 < c.time)) := by
    rw [← (Prod.mk.inj (Except.ok.inj hl)).2]
    rfl
  have s₂ := (Core.updateValidatorSchedule_still h).sameIndex
  exact ⟨s₂.time.trans ht₁, s₂.index.trans hindex⟩

/-- **Stage four** leaves the index alone. -/
theorem finishLedger_index {c c' : Core (Dedup Id R)} (h : c.finishLedger (dedupEnv F base) = .ok c') :
    c.SameIndex c' := by
  have hrest : ∀ {d : Core (Dedup Id R)}, (do
      let c ← d.runLedger (dedupEnv F base) (dedupEnv F base).processFunds
      c.processHardforks (dedupEnv F base) (Config.numHardforks + 2)) = .ok c' → d.SameIndex c' := by
    intro d hd
    obtain ⟨c₂, h₂, hd⟩ := except_bind_eq_ok hd
    exact (besideIndex_index h₂).trans (processHardforks_index hd)
  unfold Core.finishLedger at h
  dsimp only at h
  split at h
  · obtain ⟨c₁, h₁, h⟩ := except_bind_eq_ok h
    exact (Core.updateMedianValidatorProps_still h₁).sameIndex.trans (hrest h)
  · exact hrest h

/-- What is forgotten in stage three has expired. -/
theorem finishSchedule_remembers {b : SignedBlock (SignedTx U S)} {c c' : Core (Dedup Id R)} {applied : List U}
    (h : c.finishSchedule (dedupEnv F base) b = .ok c') (hpos : 0 < c.headBlockNumber)
    (hr : Remembers F c applied) : c'.time = c.time ∧ Remembers F c' applied := by
  obtain ⟨htime, hindex⟩ := finishSchedule_index h
  have hnum : c'.headBlockNumber = c.headBlockNumber := (Core.finishSchedule_head h).num
  refine ⟨htime, hr.mono (hnum ▸ hpos) htime.ge ?_⟩
  intro p hp
  rw [hindex, htime]
  by_cases hexp : p.2 < c.time
  · exact .inr hexp
  · refine .inl (List.mem_filter.mpr ⟨hp, ?_⟩)
    rw [decide_eq_false hexp]
    rfl

/-- Nothing is forgotten in stage four. -/
theorem finishLedger_remembers {c c' : Core (Dedup Id R)} {applied : List U}
    (h : c.finishLedger (dedupEnv F base) = .ok c') (hr : Remembers F c applied) :
    c'.time = c.time ∧ Remembers F c' applied :=
  ⟨(finishLedger_index h).time,
    hr.of_same (Core.finishLedger_head h).num (finishLedger_index h).time (finishLedger_index h).index⟩

/-! ## No transaction twice -/

/-- The number of the head is that of its id, and there are no more blocks than seconds. -/
structure Core.Counted {L : Type} (c : Core L) : Prop where
  num  : c.headBlockId.num = c.headBlockNumber
  time : c.headBlockNumber ≤ c.time

/-- A node at genesis: no block, and no checkpoint. -/
structure Database.AtGenesis (db : Database (SignedTx U S) (Dedup Id R)) : Prop where
  num         : db.state.core.headBlockNumber = 0
  id          : db.state.core.headBlockId.num = 0
  checkpoints : db.checkpoints = []

namespace Database

variable {db x : Database (SignedTx U S) (Dedup Id R)}

/-- **A block that is applied with all checks** brings only transactions that are new. -/
theorem turn_remembers {t : Turn (SignedTx U S)} {applied : List U} (h : turn (dedupEnv F base) db t = .ok x)
    (hskip : t.skip = Skip.nothing) (htime : t.block.timestamp < 2 ^ 32) (hcp : db.checkpoints = [])
    (hcount : db.state.core.Counted) (hr : Remembers F db.state.core applied) :
    x.state.core.Counted ∧ x.checkpoints = [] ∧
      Remembers F x.state.core (applied ++ t.block.transactions.map (·.unsigned)) := by
  have h := turn_ok h
  obtain ⟨hcore, hcps⟩ := before_frame t.before db
  obtain ⟨skip, num, c₁, c₂, c₃, ids, hs, hb, -, h₂, h₃, hx⟩ := applyInSession_ok h
  rw [hcore] at hb
  have hskip' : skip.transactionDupeCheck = false := by
    have hnone : (t.before.foldl between db).checkpointSkip t.block t.skip = .ok t.skip := by
      unfold checkpointSkip
      rw [hcps, hcp]
      rfl
    rw [← Except.ok.inj (hnone.symm.trans hs), hskip]
    rfl
  obtain ⟨hprev, hid, hnum, -⟩ := Core.beginBlock_head hb
  -- the number does not wrap: there were fewer blocks than seconds
  have hlt : db.state.core.time < t.block.timestamp := by
    obtain ⟨d, hd, -⟩ := except_bind_eq_ok hb
    exact (Core.openBlock_still hd).1
  have hblock : t.block.blockNum = db.state.core.headBlockNumber + 1 := by
    have := hcount.time
    unfold SignedBlock.blockNum
    rw [hprev, hcount.num]
    exact Nat.mod_eq_of_lt (by omega)
  obtain ⟨-, ht₁, hr₁⟩ := beginBlock_remembers hskip' hb (hblock ▸ Nat.succ_pos _) hr
  obtain ⟨ht₂, hr₂⟩ := finishSchedule_remembers h₂ (hnum ▸ hblock ▸ Nat.succ_pos _) hr₁
  obtain ⟨ht₃, hr₃⟩ := finishLedger_remembers h₃ hr₂
  have hcore' : x.state.core = c₃ := by rw [hx]
  have hhead := trans_of Core.SameHead (Core.finishSchedule_head h₂) (Core.finishLedger_head h₃)
  refine ⟨⟨?_, ?_⟩, ((applyInSession_kept _ _ _).of_ok h).checkpoints.trans (hcps.trans hcp), hcore' ▸ hr₃⟩
  · rw [hcore', hhead.id, hhead.num, hid, hnum]
    rfl
  · have := hcount.time
    rw [hcore', hhead.num, hnum, hblock, ht₃, ht₂, ht₁]
    omega

/-- A run of blocks, from any point on. -/
theorem replay_remembers {turns : List (Turn (SignedTx U S))} {applied : List U}
    (h : replay (dedupEnv F base) db turns = .ok x) (hskip : ∀ t ∈ turns, t.skip = Skip.nothing)
    (htime : ∀ t ∈ turns, t.block.timestamp < 2 ^ 32) (hcp : db.checkpoints = [])
    (hcount : db.state.core.Counted) (hr : Remembers F db.state.core applied) :
    Remembers F x.state.core (applied ++ turns.flatMap (fun t => t.block.transactions.map (·.unsigned))) := by
  induction turns generalizing db applied with
  | nil =>
      obtain rfl := Except.ok.inj h
      rwa [List.flatMap_nil, List.append_nil]
  | cons t ts ih =>
      obtain ⟨y, hy, h⟩ := except_bind_eq_ok h
      obtain ⟨hcount', hcp', hr'⟩ := turn_remembers hy (hskip t List.mem_cons_self) (htime t List.mem_cons_self)
        hcp hcount hr
      have hall := ih h (fun t ht => hskip t (List.mem_cons_of_mem _ ht))
        (fun t ht => htime t (List.mem_cons_of_mem _ ht)) hcp' hcount' hr'
      rwa [List.append_assoc] at hall

/-- **No transaction is applied twice.** In every sequence of blocks that a node applies from genesis with all
    checks, whatever reaches it in between, no two transactions have the same id. -/
theorem no_replay {turns : List (Turn (SignedTx U S))} (hgenesis : db.AtGenesis)
    (h : replay (dedupEnv F base) db turns = .ok x) (hskip : ∀ t ∈ turns, t.skip = Skip.nothing)
    (htime : ∀ t ∈ turns, t.block.timestamp < 2 ^ 32) :
    ((turns.flatMap (fun t => t.block.transactions)).map (fun tx => F.id tx.unsigned)).Nodup := by
  have hcount : db.state.core.Counted :=
    ⟨hgenesis.id.trans hgenesis.num.symm, hgenesis.num ▸ Nat.zero_le _⟩
  have hstart : Remembers F db.state.core [] := ⟨List.nodup_nil, List.forall_mem_nil _⟩
  have hall := (replay_remembers h hskip htime hgenesis.checkpoints hcount hstart).nodup
  rw [List.nil_append, List.map_flatMap] at hall
  rw [List.map_flatMap]
  simp only [List.map_map] at hall
  exact hall

end Database

end Remembering

namespace Sample

/-- A transaction that is nothing but its expiration. -/
def format : TxFormat Nat Nat := ⟨id, id, fun _ _ h => h⟩

def txEnv : Env (SignedTx Nat Unit) Unit where
  packSize _              := 100
  calculateMerkleRoot _   := 0
  sharedDbMerkle _        := none
  validateSignee b k      := decide (b.validatorSignature = k)
  hardforkTime _          := 0
  hardforkVersion _       := 0
  totalVestingShares _    := 1000000
  isKnownTransaction _ _  := false
  applyTransaction _ _ c  := .ok ([], c.ledger)
  clearExpired c          := .ok ([], c.ledger)
  processFunds c          := .ok ([], c.ledger)
  migrate _ c             := .ok ([], c.ledger)
  pendingLimit            := 0

/-- A node with four validators and no block. -/
def genesisNode : Database (SignedTx Nat Unit) (Dedup Nat Unit) where
  chainbase            :=
    ⟨⟨{ core [validator 1 10, validator 2 20, validator 3 30, validator 4 40] [1, 2, 3, 4] with
        headBlockNumber := 0, headBlockId := BlockId.zero, time := 0, currentAslot := 0
        blockSummary := fun _ => BlockId.zero, ledger := ⟨[], ()⟩ }, ⟨0, BlockId.zero, 0, 0, []⟩, []⟩, [], 0⟩
  pendingTxSession     := false
  pendingTx            := []
  poppedTx             := []
  forkDb               := { index := [], unlinkedIndex := [], head := none, nextPtr := 0 }
  blockLog             := []
  dltBlockLog          := []
  dltMode              := false
  dltBlockLogMaxBlocks := 0
  checkpoints          := []
  journal              := []

/-- Two blocks; the transaction of the first one expires with the second one. -/
def dedupTurns : List (Database.Turn (SignedTx Nat Unit)) :=
  let b₁ : SignedBlock (SignedTx Nat Unit) :=
    { previous := BlockId.zero, timestamp := 3, validator := 2, transactionMerkleRoot := 0, extensions := []
      validatorSignature := 2, transactions := [⟨6, ()⟩], hash := 1 }
  let b₂ : SignedBlock (SignedTx Nat Unit) :=
    { previous := b₁.id, timestamp := 6, validator := 3, transactionMerkleRoot := 0, extensions := []
      validatorSignature := 3, transactions := [⟨7, ()⟩, ⟨8, ()⟩], hash := 2 }
  [⟨[], b₁, Skip.nothing⟩, ⟨[], b₂, Skip.nothing⟩]

/-- Does the node accept the blocks? -/
def accepts (turns : List (Database.Turn (SignedTx Nat Unit))) : Bool :=
  match Database.replay (dedupEnv format txEnv) genesisNode turns with
  | .ok _    => true
  | .error _ => false

end Sample

/-- Two blocks with three transactions. -/
theorem Database.no_replay_sample : Sample.accepts Sample.dedupTurns = true ∧
    ((Sample.dedupTurns.flatMap (fun t => t.block.transactions)).map (fun tx => Sample.format.id tx.unsigned)).Nodup := by
  have haccept : Sample.accepts Sample.dedupTurns = true := by decide +kernel
  refine ⟨haccept, ?_⟩
  unfold Sample.accepts at haccept
  split at haccept
  · next x hx => exact no_replay ⟨rfl, rfl, rfl⟩ hx (by decide) (by decide)
  · cases haccept

end VizNode
