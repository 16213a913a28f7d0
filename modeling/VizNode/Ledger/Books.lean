import VizNode.Ledger.Blocks
import VizNode.Bank.Order

/-!
# `VizNode.Ledger.Books` — the ledger as a bank

`bank s` forgets everything of a ledger that the bank does not keep: of an account all but its book, of escrows,
invites and validators all but what they hold together. What an evaluator does to the ledger is then a chain of
moves of the bank, and the invariants of the bank are invariants of the ledger.

## Contents
- **The bank of a ledger.** `bank`, and what the elementary changes of a ledger are on it.
- **Courses.** `Course`: a chain of moves that an operation makes, with the conditions it may count on.
-/

namespace VizNode

namespace Ledger

open Bank

variable {s s' : Ledger} {a : AccountName}

/-! ## The bank of a ledger -/

/-- The tokens that escrows hold. -/
def escrowed (s : Ledger) : Int := s.escrows.total (fun _ e => (e.tokenBalance : Int) + e.pendingFee)

/-- The tokens that invites hold. -/
def invited (s : Ledger) : Int := s.invites.total (fun _ i => (i.balance : Int))

/-- The tokens that validators hold for their stakeholders. -/
def pending (s : Ledger) : Int := s.validators.total (fun _ w => (w.pendingStakeholderReward : Int))

/-- **The bank of a ledger.** -/
def bank (s : Ledger) : Bank :=
  { accounts      := s.accounts.mapRows Account.toAccountBook
    authorities   := s.authorities
    masterHistory := s.masterHistory
    supply        := s.currentSupply
    fund          := s.totalVestingFund
    shares        := s.totalVestingShares
    reward        := s.totalRewardFund
    committee     := s.committeeFund
    entrusted     := s.escrowed + s.invited + s.pending
    delegations   := s.delegations.mapRows Delegation.vestingShares
    expirations   := s.expirations.map (fun e => (e.delegator, e.vestingShares))
    routes        := s.routes }

@[simp] theorem bank_keys : s.bank.accounts.keys = s.accounts.keys := rfl

@[simp] theorem bank_row : s.bank.accounts.row a = (s.accounts.row a).toAccountBook := rfl

/-- A change of an account is a change of its book. -/
theorem bank_modifyAccount {f : Account → Account} {g : AccountBook → AccountBook}
    (h : (f (s.accounts.row a)).toAccountBook = g (s.accounts.row a).toAccountBook) :
    (s.modifyAccount a f).bank = s.bank.edit a g := by
  unfold bank modifyAccount Bank.edit
  dsimp only
  rw [Table.mapRows_modify_of h]
  rfl

/-- A change of an account that its book does not show. -/
theorem bank_modifyAccount_same {f : Account → Account}
    (h : (f (s.accounts.row a)).toAccountBook = (s.accounts.row a).toAccountBook) :
    (s.modifyAccount a f).bank = s.bank := by
  unfold bank modifyAccount
  dsimp only
  rw [Table.mapRows_modify h]
  rfl

@[simp] theorem modifyAccount_keys {f : Account → Account} :
    (s.modifyAccount a f).accounts.keys = s.accounts.keys := rfl

theorem bank_adjustBalance {x : Int} : (s.adjustBalance a x).bank = s.bank.edit a (.addBalance x) :=
  bank_modifyAccount rfl

@[simp] theorem adjustBalance_keys {x : Int} : (s.adjustBalance a x).accounts.keys = s.accounts.keys := rfl

theorem adjustBalance_balance {x : Int} {c : AccountName} :
    ((s.adjustBalance a x).accounts.row c).balance = (s.accounts.row c).balance + if c = a then x else 0 := by
  show ((s.accounts.modify a (fun r => { r with balance := r.balance + x })).row c).balance = _
  exact Table.modify_part (p := fun r : Account => r.balance) rfl

theorem bank_sharesSenderRecalcEnergy {shares : Int} : (s.sharesSenderRecalcEnergy a shares).bank = s.bank := by
  apply bank_modifyAccount_same
  by_cases h : 0 < (s.accounts.row a).effectiveVestingShares
  · rw [if_pos h]
  · rw [if_neg h]

/-! ## Courses -/

/-- **The terms of an operation**: whoever acts has a key, and a bid is covered. -/
structure Terms where
  signed  : Prop
  covered : Prop

/-- **The course of an operation**: a chain of moves that, from books in order, brings all the shares it takes.
    It may count on the books being in order and on nobody being overdrawn, each on its terms. -/
def Course (P : Terms) (δ : Int) (b b' : Bank) : Prop :=
  ∃ σ, Moves (InOrder 0 b ∧ P.signed) (Solvent b ∧ P.covered) δ σ b b' ∧ (InOrder 0 b ∧ P.signed → σ = 0)

namespace Course

variable {P : Terms} {δ δ' : Int} {b b' b'' : Bank}

theorem refl : Course P 0 b b := ⟨0, .refl b, fun _ => rfl⟩

theorem of_moves (h : Moves (InOrder 0 b ∧ P.signed) (Solvent b ∧ P.covered) δ 0 b b') : Course P δ b b' :=
  ⟨0, h, fun _ => rfl⟩

theorem inOrder (h : Course P δ b b') (hP : P.signed) (hb : InOrder 0 b) : InOrder 0 b' := by
  obtain ⟨σ, hm, hσ⟩ := h
  have := hm.inOrder ⟨hb, hP⟩ hb
  rwa [hσ ⟨hb, hP⟩, add_zero] at this

theorem solvent (h : Course P δ b b') (hP : P.covered) (hb : Solvent b) : Solvent b' := by
  obtain ⟨σ, hm, -⟩ := h
  exact hm.solvent ⟨hb, hP⟩ hb

theorem surplus_eq (h : Course P δ b b') : b'.surplus = b.surplus + δ := by
  obtain ⟨σ, hm, -⟩ := h
  exact hm.surplus_eq

/-- **One course after another.** The second starts from what the first has kept in order. -/
theorem trans (h : Course P δ b b') (h' : Course P δ' b' b'') : Course P (δ + δ') b b'' := by
  have hin := h.inOrder
  have hsol := h.solvent
  obtain ⟨σ, hm, hσ⟩ := h
  obtain ⟨σ', hm', hσ'⟩ := h'
  refine ⟨σ + σ', hm.trans (hm'.mono (fun hK => ⟨hin hK.2 hK.1, hK.2⟩) (fun hC => ⟨hsol hC.2 hC.1, hC.2⟩)), ?_⟩
  intro hb
  rw [hσ hb, hσ' ⟨hin hb.2 hb.1, hb.2⟩, add_zero]

/-- A last move that counts on the books as they were at the beginning. -/
theorem next (h : Course P δ b b') (h' : Move (InOrder 0 b ∧ P.signed) (Solvent b ∧ P.covered) δ' 0 b' b'') :
    Course P (δ + δ') b b'' := by
  obtain ⟨σ, hm, hσ⟩ := h
  refine ⟨σ + 0, hm.tail h', ?_⟩
  intro hb
  rw [hσ hb, add_zero]

theorem cast (h : Course P δ b b') (hδ : δ = δ') : Course P δ' b b' := hδ ▸ h

/-- Two courses that make and lose nothing. -/
theorem chain (h : Course P 0 b b') (h' : Course P 0 b' b'') : Course P 0 b b'' := h.trans h'

/-- A course with a bid that is covered for another reason. -/
theorem mono {Q : Prop} (h : Course P δ b b') (hP : Solvent b → Q → P.covered) :
    Course { P with covered := Q } δ b b' := by
  obtain ⟨σ, hm, hσ⟩ := h
  exact ⟨σ, hm.mono id (fun hC => ⟨hC.1, hP hC.1 hC.2⟩), hσ⟩

end Course

end Ledger

/-- The funds change, and nothing else does. -/
theorem Bank.Moves.funds {K C : Prop} {b c : Bank} (hfund : b.fund ≤ c.fund)
    (hc : C → b.committee ≤ c.committee ∨ 0 ≤ c.committee)
    (h : c = { b with
      supply := c.supply, fund := c.fund, reward := c.reward, committee := c.committee,
      entrusted := c.entrusted }) :
    Moves K C (c.supply - b.supply - (c.fund - b.fund + (c.reward - b.reward)
      + (c.committee - b.committee) + (c.entrusted - b.entrusted))) 0 b c := by
  have hm := Move.funds (K := K) (C := C) b (c.supply - b.supply) (c.fund - b.fund) (c.reward - b.reward)
    (c.committee - b.committee) (c.entrusted - b.entrusted) (by omega)
    (fun hC => (hc hC).imp (fun hle => by omega) (fun hle => by omega))
  simp only [add_sub_cancel] at hm
  rw [← h] at hm
  exact .of hm

end VizNode
