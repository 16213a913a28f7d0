import VizNode.Chain.Timeline
import VizNode.Chain.Rebuilt

/-!
# `VizNode.Chain.Tapos` — transactions as proof of stake

A transaction names a block by the low half of its number and by a word of its id. The node looks the number up in the
block summary, where every block leaves its id, and refuses a transaction whose word is another one.

**The block summary is about one chain**: a slot holds what it held when the node was opened, or the id of a block of the
chain the state belongs to (`Traced.summary`). So a transaction is applied only on a chain with the block it names
(`refers_to_own_chain`), and whoever signs for one fork does not sign for another (`only_on_its_fork`).

## Contents
- **The summary** along a chain.
- **Transactions** of a block.
- **Runs.**
-/

namespace VizNode

namespace Core

open Prog Relation

variable {Tx L : Type} {env : Env Tx L} {b : SignedBlock Tx} {c₀ c c' : Core L}

/-! ## The summary -/

/-- **What a slot of the block summary holds on a chain**: what it held at the start, or a block of the chain. -/
def Summarized (c₀ : Core L) (l : List (Entry Tx)) (slot : Nat) (id : BlockId) : Prop :=
  id = c₀.blockSummary slot ∨ ∃ r ∈ l, r.block.id = id ∧ r.block.blockNum % 2 ^ 16 = slot

theorem Summarized.cons {l : List (Entry Tx)} {slot : Nat} {id : BlockId} (h : Summarized c₀ l slot id) (r : Entry Tx) :
    Summarized c₀ (r :: l) slot id :=
  h.imp_right fun ⟨q, hq, hid⟩ => ⟨q, List.mem_cons_of_mem _ hq, hid⟩

/-- What follows on the first stage writes the block's own slot or none. -/
theorem Finish.summary (h : Finish env b c c') (slot : Nat) :
    c'.blockSummary slot = c.blockSummary slot ∨ (b.id = c'.blockSummary slot ∧ b.blockNum % 2 ^ 16 = slot) := by
  cases h with
  | scheduled h =>
      rw [show c'.blockSummary = (c.createBlockSummary b).blockSummary from congrArg Place.summary (finishSchedule_place h)]
      show Function.update c.blockSummary (b.blockNum % 2 ^ 16) b.id slot = _ ∨ _
      by_cases hslot : slot = b.blockNum % 2 ^ 16
      · right
        refine ⟨?_, hslot.symm⟩
        show b.id = Function.update c.blockSummary (b.blockNum % 2 ^ 16) b.id slot
        rw [hslot, Function.update_self]
      · left
        exact Function.update_of_ne hslot _ _
  | funded h => exact .inl (congrFun (congrArg Place.summary (finishLedger_place h)) slot)
  | shifted n => exact .inl rfl

/-- **The summary is about the chain.** -/
theorem Traced.summary {l : List (Entry Tx)} (h : Traced env c₀ l c) (slot : Nat) :
    Summarized c₀ l slot (c.blockSummary slot) := by
  induction h with
  | start => exact .inl rfl
  | @block rs d d₁ d' r skip lib _ _ hb hf ih =>
      have hfirst : Summarized c₀ (r :: rs) slot (d₁.blockSummary slot) := by
        rw [show d₁.blockSummary = d.blockSummary from congrArg Place.summary (beginBlock_place hb).2]
        exact ih.cons r
      clear hb
      induction hf with
      | refl => exact hfirst
      | tail _ hf ih =>
          rcases hf.summary slot with hkept | ⟨hid, hnum⟩
          · rw [hkept]
            exact ih
          · exact .inr ⟨r, List.mem_cons_self, hid, hnum⟩

/-! ## Transactions -/

/-- Whatever a loop ran on was run on a core at the same place. -/
theorem foldlM_mem_place {α : Type} {f : Core L → α → Except Exn (Core L)} {l : List α} {x : α} (hx : x ∈ l)
    (hf : ∀ {d d' : Core L} {x : α}, f d x = .ok d' → d'.place = d.place) (h : l.foldlM f c = .ok c') :
    ∃ d d', d.place = c.place ∧ f d x = .ok d' := by
  induction l generalizing c with
  | nil => exact absurd hx List.not_mem_nil
  | cons y l ih =>
      obtain ⟨d, hd, h⟩ := except_bind_eq_ok h
      rcases List.mem_cons.mp hx with rfl | hx
      · exact ⟨c, d, rfl, hd⟩
      · obtain ⟨e, e', he, hstep⟩ := ih hx h
        exact ⟨e, e', he.trans (hf hd), hstep⟩

/-- A transaction of a block was accepted at the place the block was applied to. -/
theorem beginBlock_transaction {skip : Skip} {lib : Nat} {libTime : Option Nat} {tx : Tx}
    (h : c.beginBlock env skip lib libTime b = .ok c') (htx : tx ∈ b.transactions) :
    ∃ d r, d.place = c.place ∧ env.applyTransaction skip.forTransactions tx d = .ok r := by
  obtain ⟨c₁, h₁, h⟩ := except_bind_eq_ok h
  obtain ⟨c₂, h₂, -⟩ := except_bind_eq_ok h
  obtain ⟨d, d', hplace, hd⟩ := foldlM_mem_place htx (fun h => runLedger_place h) h₂
  obtain ⟨edits, happlied, -⟩ := runLedger_still hd
  exact ⟨d, _, hplace.trans (openBlock_place h₁), happlied⟩

end Core

/-! ## Runs -/

namespace Database

open Prog Core UndoDb Relation

variable {U S Id R : Type} [DecidableEq Id] {F : TxFormat U Id} {K : TxRules U S R} {base : Env (SignedTx U S) R}

/-- A transaction that is applied with the check names the block of its slot. -/
theorem chainEnv_names {skip : Skip} {tx : SignedTx U S} {c : Core (Dedup Id R)} {r : List ValidatorEdit × Dedup Id R}
    (h : (chainEnv F K base).applyTransaction skip tx c = .ok r) (hskip : skip.taposCheck = false)
    (hnum : 0 < c.headBlockNumber) :
    K.refBlockPrefix tx.unsigned = refPrefix (c.blockSummary (K.refBlockNum tx.unsigned)) := by
  have hbare : (applyDeduped F (bareEnv K base) skip tx c).map (Prod.map id Dedup.rest) =
      (bareEnv K base).applyTransaction skip tx c.withoutIndex := applyDeduped_bare h
  rw [show applyDeduped F (bareEnv K base) skip tx c = .ok r from h] at hbare
  obtain ⟨u, hchecks, -⟩ := except_bind_eq_ok hbare.symm
  unfold validateTransaction at hchecks
  by_contra hne
  by_cases h₁ : skip.validateOperations = false ∧ K.validate tx = false
  · rw [if_pos h₁] at hchecks
    cases hchecks
  · rw [if_neg h₁] at hchecks
    split at hchecks
    · cases hchecks
    · rw [if_pos ⟨hnum, hskip, hne⟩] at hchecks
      cases hchecks

variable {V : SignedBlock (SignedTx U S) → Prop} {start : BlockId} {db : Database (SignedTx U S) (Dedup Id R)}

/-- **Every transaction names a block of its own chain.** In any run, for every block of a state the node is in or can
    come back to, and every transaction that was applied with this check: the block it names is below its own, or it is
    the one the node was opened with. -/
theorem refers_to_own_chain (hV : Universe V) (h : InOrder V start db) (hopen : Opened db)
    {steps : List (Step (SignedTx U S))} (hs : ∀ x ∈ steps, x.From V) {s : ChainState (SignedTx U S) (Dedup Id R)}
    (hstate : s ∈ (run (chainEnv F K base) db steps).chainbase.layers) {r : Entry (SignedTx U S)}
    {rs : List (Entry (SignedTx U S))} (hsuffix : r :: rs <:+ s.entries) (hfirst : 0 < db.headBlockNum ∨ rs ≠ [])
    (hskip : r.txSkip.taposCheck = false) {tx : SignedTx U S} (htx : tx ∈ r.block.transactions) :
    ∃ id, Summarized db.state.core rs (K.refBlockNum tx.unsigned) id ∧ refPrefix id = K.refBlockPrefix tx.unsigned := by
  obtain ⟨c, hc, -⟩ := run_layer hV h hopen hs hstate
  have hnumbered := layer_numbered hV h hs hstate
  generalize s.entries = l at hc hsuffix hnumbered
  induction hc with
  | start => exact absurd (List.suffix_nil.mp hsuffix) (List.cons_ne_nil _ _)
  | @block qs d d₁ d' q skip lib hd hq hb _ ih =>
      rcases List.suffix_cons_iff.mp hsuffix with heq | hsuffix
      · obtain ⟨rfl, rfl⟩ := List.cons.inj heq
        obtain ⟨e, _, hplace, happlied⟩ := beginBlock_transaction hb htx
        have hsummary : e.blockSummary = d.blockSummary := congrArg Place.summary hplace
        refine ⟨_, hd.summary (K.refBlockNum tx.unsigned), ?_⟩
        rw [← hsummary]
        refine (chainEnv_names happlied (by rw [← hq]; exact hskip) ?_).symm
        -- the chain below the block is not empty
        rw [show e.headBlockNumber = d.headBlockNumber from congrArg Place.num hplace, hd.head.1]
        cases rs with
        | nil => exact hfirst.resolve_right (fun hne => hne rfl)
        | cons p rs => exact Nat.pos_of_ne_zero (hnumbered p (List.mem_cons_of_mem _ List.mem_cons_self))
      · exact ih hsuffix fun p hp => hnumbered p (List.mem_cons_of_mem _ hp)

/-- **Whoever signs for a fork signs for that fork alone.** If no other block has the number and the word of `q`, a
    transaction that names `q` is applied only on top of `q`. -/
theorem only_on_its_fork (hV : Universe V) (h : InOrder V start db) (hopen : Opened db)
    {steps : List (Step (SignedTx U S))} (hs : ∀ x ∈ steps, x.From V) {s : ChainState (SignedTx U S) (Dedup Id R)}
    (hstate : s ∈ (run (chainEnv F K base) db steps).chainbase.layers) {r : Entry (SignedTx U S)}
    {rs : List (Entry (SignedTx U S))} (hsuffix : r :: rs <:+ s.entries) (hfirst : 0 < db.headBlockNum ∨ rs ≠ [])
    (hskip : r.txSkip.taposCheck = false) {tx : SignedTx U S} (htx : tx ∈ r.block.transactions)
    {q : SignedBlock (SignedTx U S)}
    (hold : refPrefix (db.state.core.blockSummary (K.refBlockNum tx.unsigned)) ≠ K.refBlockPrefix tx.unsigned)
    (honly : ∀ b, V b → b.blockNum % 2 ^ 16 = K.refBlockNum tx.unsigned →
      refPrefix b.id = K.refBlockPrefix tx.unsigned → b = q) : q ∈ rs.map (fun e => e.block) := by
  obtain ⟨id, hid, hprefix⟩ := refers_to_own_chain hV h hopen hs hstate hsuffix hfirst hskip htx
  rcases hid with rfl | ⟨e, he, rfl, hnum⟩
  · exact absurd hprefix hold
  · have hwell : s.WellFormed V start := (run_inOrder hV hs h).1.layers.stacked.each s hstate
    obtain ⟨a, ha, hentry⟩ := List.mem_map.mp (hsuffix.subset (List.mem_cons_of_mem _ he))
    have hblock : V e.block := hentry ▸ hwell.exists_ a.block (List.mem_map.mpr ⟨a, ha, rfl⟩)
    exact List.mem_map.mpr ⟨e, he, honly e.block hblock hnum hprefix⟩

end Database

namespace Sample

/-- Transactions that name block 1 by the word of `named1`. -/
def naming : TxRules Nat Unit Unit :=
  { lenient with refBlockNum := fun _ => 1, refBlockPrefix := fun _ => 5 * 2 ^ 24 }

/-- Two blocks; the transaction of the second one names the first one. -/
def named1 : SignedBlock (SignedTx Nat Unit) := filled BlockId.zero 3 2 (5 * 2 ^ 96) []
def naming2 : SignedBlock (SignedTx Nat Unit) := filled named1.id 6 3 2 [100]

/-- Another first block, and a block on top of it with the same transaction. -/
def other1 : SignedBlock (SignedTx Nat Unit) := filled BlockId.zero 3 2 (7 * 2 ^ 96) []
def misplaced2 : SignedBlock (SignedTx Nat Unit) := filled other1.id 6 3 3 [100]

end Sample

namespace Database

open Prog Core UndoDb Sample

/-- The transaction is taken on its fork and refused on the other. -/
theorem only_on_its_fork_sample :
    named1 ∈ ([⟨named1, Skip.nothing, none⟩] : List (Entry (SignedTx Nat Unit))).map (fun e => e.block) ∧
    (run (chainEnv format naming txEnv) genesisNode (([named1, naming2] : List _).map (.block · Skip.nothing))).headBlockNum = 2 ∧
    (run (chainEnv format naming txEnv) genesisNode (([other1, misplaced2] : List _).map (.block · Skip.nothing))).headBlockNum = 1 := by
  have hU : Universe (· ∈ [named1, naming2]) := Universe.of_list (by decide +kernel) (by decide +kernel)
  have hopen : Opened genesisNode := ⟨rfl, rfl, rfl⟩
  have hentries : (run (chainEnv format naming txEnv) genesisNode
      (([named1, naming2] : List _).map (.block · Skip.nothing))).state.entries =
      [⟨naming2, Skip.nothing, none⟩, ⟨named1, Skip.nothing, none⟩] := by decide +kernel
  refine ⟨?_, by decide +kernel, by decide +kernel⟩
  have hs : ∀ x ∈ [named1, naming2].map (Step.block · Skip.nothing), x.From (· ∈ [named1, naming2]) := by
    decide +kernel
  have hsuffix : [⟨naming2, Skip.nothing, none⟩, ⟨named1, Skip.nothing, none⟩] <:+ (run (chainEnv format naming txEnv)
      genesisNode ([named1, naming2].map (Step.block · Skip.nothing))).state.entries :=
    hentries ▸ List.suffix_rfl
  have htx : (⟨100, ()⟩ : SignedTx Nat Unit) ∈ naming2.transactions := by decide
  exact only_on_its_fork (K := naming) (F := format) hU genesis_inOrder hopen hs (state_mem_layers _) hsuffix
    (.inr (by decide)) rfl htx (by decide) (by decide +kernel)

end Database

end VizNode
