import VizNode.Ledger.Footprints

/-!
# `VizNode.Ledger.Titles` — what leaves an account with its owner

The title of an account is who can act for it, who can recover it, and what is offered and bid for it. Few
operations mean to change it, and each of them is in the name of one account. `Held a t s` says that the title of
`a` is `t` and that no recovery of `a` is under way; it stays held, unless an operation is in the name of the account
or of its recovery partner.

**An operation that would touch a settled title fails**: its account is not on sale, not on auction, and nobody is
recovering it. Whatever succeeds leaves the title alone, and so do the parts of a block.

## Contents
- **Titles.** `Held`, and which changes of a ledger it does not see.
- **Operations.** `evaluate_held`.
- **Blocks.** The parts of a block.
-/

namespace VizNode

namespace Ledger

open Prog (Returns)

/-! ## Titles -/

/-- **The title is held**: the account has it, and nobody is recovering the account. -/
def Held (a : AccountName) (t : Title) (s : Ledger) : Prop :=
  a ∈ s.accounts.keys ∧ s.title a = t ∧ a ∉ s.recoveryRequests.keys

variable {a : AccountName} {t : Title} {s s' : Ledger} {names : Names}

section Frames

variable {name : AccountName} {f : Account → Account}

theorem Held.onSale_eq (h : Held a t s) : (s.accounts.row a).accountOnSale = t.deed.accountOnSale := by
  rw [← h.2.1]
  rfl

theorem Held.recovery_eq (h : Held a t s) : (s.accounts.row a).recoveryAccount = t.deed.recoveryAccount := by
  rw [← h.2.1]
  rfl

theorem Held.onAuction_eq (h : Held a t s) : (s.accounts.row a).accountOnAuction = t.deed.accountOnAuction := by
  rw [← h.2.1]
  rfl

/-- **What the title is not touched by.** -/
theorem Held.of_plain {T : Matter → Prop} (h : Held a t s) (hp : Plain T s s') (hT : ¬ T (.title a)) : Held a t s' := by
  obtain ⟨hmem, -, htitle⟩ := hp.account h.1
  exact ⟨hmem, (htitle hT).1.trans h.2.1, (htitle hT).2 h.2.2⟩

theorem Held.returns {T : Matter → Prop} {x : Result Ledger} (h : Held a t s) (hx : Returns (Plain T s) x)
    (hT : ¬ T (.title a)) : Returns (Held a t) x :=
  fun s₁ h₁ => h.of_plain (hx s₁ h₁) hT

/-- A change of an account that leaves its deed. -/
theorem Held.modify (h : Held a t s) (hf : deed (f (s.accounts.row a)) = deed (s.accounts.row a)) :
    Held a t (s.modifyAccount name f) := by
  refine ⟨h.1, ?_, h.2.2⟩
  rw [← h.2.1]
  show Title.mk (s.authorities.row a) (deed ((s.accounts.modify name f).row a)) = _
  by_cases hn : a = name
  · subst hn
    rw [Table.modify_row_self, hf]
    rfl
  · rw [Table.modify_row_of_ne hn]
    rfl

/-- A change of another account. -/
theorem Held.modify_other (h : Held a t s) (hn : a ≠ name) : Held a t (s.modifyAccount name f) := by
  refine ⟨h.1, ?_, h.2.2⟩
  rw [← h.2.1]
  show Title.mk (s.authorities.row a) (deed ((s.accounts.modify name f).row a)) = _
  rw [Table.modify_row_of_ne hn]
  rfl

theorem Held.adjustBalance (h : Held a t s) {x : Int} : Held a t (s.adjustBalance name x) := h.modify rfl

theorem createVesting_held {x : Int} (h : Held a t s) : Returns (Held a t) (s.createVesting name x) :=
  h.returns (createVesting_plain (T := fun _ => False) (.refl s)) id

theorem payPrice_held {o : BuyAccount} {seller : AccountName} {price : Nat} (h : Held a t s) :
    Returns (Held a t) (s.payPrice o seller price) :=
  h.returns (payPrice_plain (T := fun _ => False) (.refl s)) id

end Frames

/-! ## Operations -/

/-- **A title that is settled**: the account is not on sale and not on auction, and it has a recovery partner. -/
structure Title.Settled (t : Title) (partner : AccountName) : Prop where
  partner_ne   : partner ≠ 0
  recovery_eq  : t.deed.recoveryAccount = partner
  not_sale     : t.deed.accountOnSale = false
  not_auction  : t.deed.accountOnAuction = false

/-- Somebody else is not the partner who can ask for a recovery. -/
theorem requestAccountRecovery_fails {top partner : AccountName} {master : Authority} (h : Held a t s)
    (hpartner : t.deed.recoveryAccount ≠ 0) (hn : partner ≠ t.deed.recoveryAccount) :
    Returns (fun _ => False) (s.requestAccountRecovery top partner a master) := by
  unfold requestAccountRecovery
  refine .after fun r hr => .after fun _ hreq => ?_
  obtain ⟨-, rfl⟩ := getAccount_eq_ok.mp hr
  have heq := require_eq_ok.mp hreq
  rw [h.recovery_eq, if_pos hpartner] at heq
  exact absurd heq hn

/-- Without a request there is no recovery. -/
theorem recoverAccount_fails {newMaster recent : Authority} (h : Held a t s) :
    Returns (fun _ => False) (s.recoverAccount a newMaster recent) := by
  unfold recoverAccount
  refine .after fun _ _ => .after fun _ _ => .after fun _ _ => .after fun _ hreq => ?_
  have hfind := require_eq_ok.mp hreq
  rw [Table.find_eq_none.mpr h.2.2] at hfind
  cases hfind

/-- An account that is not on sale is not bought. -/
theorem buyAccount_fails {clock : Nat} {o : BuyAccount} (h : Held o.account t s) (hoff : t.deed.accountOnSale = false) :
    Returns (fun _ => False) (buyAccount names clock s o) := by
  unfold buyAccount
  refine .after fun _ _ => .after fun _ _ => .after fun _ _ => .after fun _ _ => ?_
  cases hfind : s.accounts.find o.account with
  | none => exact absurd h.1 (Table.find_eq_none.mp hfind)
  | some r =>
      refine .after fun _ hon => ?_
      have hon := require_eq_ok.mp hon
      rw [← (Table.find_eq_some.mp hfind).2, h.onSale_eq, hoff] at hon
      cases hon

/-- **An operation that would touch a settled title fails**, unless the account or its recovery partner signs it. -/
theorem evaluate_spares {loc : Local} {o : Operation} {partner : AccountName} (h : Held a t s) (ht : t.Settled partner)
    (hsigner : ∀ x ∈ o.signer, x ≠ a ∧ x ≠ partner) (hT : o.touches (.title a)) :
    Returns (fun _ => False) (evaluate names loc s o) := by
  cases o with
  | accountUpdate o => exact absurd (Matter.title.inj hT).symm (hsigner o.account rfl).1
  | requestAccountRecovery p account master =>
      obtain rfl := Matter.title.inj hT
      refine requestAccountRecovery_fails h ?_ ?_
      · exact ht.recovery_eq ▸ ht.partner_ne
      · exact ht.recovery_eq ▸ (hsigner p rfl).2
  | recoverAccount account newMaster recent =>
      obtain rfl := Matter.title.inj hT
      exact recoverAccount_fails h
  | setAccountPrice o => exact absurd (Matter.title.inj hT).symm (hsigner o.account rfl).1
  | targetAccountSale o => exact absurd (Matter.title.inj hT).symm (hsigner o.account rfl).1
  | buyAccount o =>
      obtain rfl := Matter.title.inj hT
      exact buyAccount_fails h ht.not_sale
  | _ => cases hT

/-- **An operation that neither the account nor its recovery partner signs** leaves a settled title. -/
theorem evaluate_held {loc : Local} {o : Operation} {partner : AccountName} (h : Held a t s) (ht : t.Settled partner)
    (hsigner : ∀ x ∈ o.signer, x ≠ a ∧ x ≠ partner) : Returns (Held a t) (evaluate names loc s o) := by
  intro s₁ h₁
  have hplain : Plain o.touches s s₁ := evaluate_plain (.refl s) (fun _ hm => hm) _ h₁
  exact h.of_plain hplain fun hT => evaluate_spares h ht hsigner hT s₁ h₁

/-! ## Blocks -/

section Blocks

variable {name : AccountName}

theorem clearExpired_held (h : Held a t s) : Returns (Held a t) s.clearExpired :=
  h.returns (clearExpired_plain (T := (· = .committee)) (.refl s) rfl) (nomatch ·)

theorem processRewards_held (h : Held a t s) : Returns (Held a t) s.processRewards :=
  h.returns (processRewards_plain (T := (· = .awards)) (.refl s) rfl) (nomatch ·)

theorem cashoutContent_held {c : Content} (h : Held a t s) : Returns (Held a t) (s.cashoutContent c) :=
  h.returns (cashoutContent_plain (T := (· = .awards)) (.refl s) rfl) (nomatch ·)

theorem withdrawFrom_held (h : Held a t s) : Returns (Held a t) (s.withdrawFrom name) :=
  h.returns (withdrawFrom_plain (T := (· = .plan name)) (.refl s) rfl) (nomatch ·)

theorem processVestingWithdrawals_held (h : Held a t s) : Returns (Held a t) s.processVestingWithdrawals := by
  have hloop : ∀ (fuel : Nat) (next : Option AccountName) (s : Ledger), Held a t s →
      Returns (Held a t) (withdrawalLoop fuel next s) := by
    intro fuel
    induction fuel with
    | zero => exact fun _ _ hs => .ok hs
    | succ fuel ih =>
        intro next s hs
        cases next with
        | none => exact .ok hs
        | some n => exact .ite (fun _ => (withdrawFrom_held hs).bind fun _ h₁ => ih _ _ h₁) (fun _ => .ok hs)
  exact hloop _ _ _ h

theorem Held.accountRecoveryProcessing (h : Held a t s) : Held a t s.accountRecoveryProcessing :=
  h.of_plain (T := fun _ => False) (accountRecoveryProcessing_plain (.refl s)) id

theorem expireEscrowRatification_held (h : Held a t s) : Returns (Held a t) s.expireEscrowRatification :=
  h.returns (expireEscrowRatification_plain (T := fun _ => False) (.refl s)) id

theorem settleAuction_held (h : Held a t s) (hn : a ≠ name) : Returns (Held a t) (s.settleAuction name) :=
  h.returns (settleAuction_plain (T := (· = .title name)) (.refl s) rfl) fun he => hn (Matter.title.inj he)

theorem processClosing_held (h : Held a t s) : Returns (Held a t) s.processClosing := by
  rw [processClosing_eq]
  have hempty : Returns (Held a t) s.emptyAccounts :=
    h.returns (emptyAccounts_plain (T := fun m => ∃ x, m = .plan x) (.refl s) fun x _ => ⟨x, rfl⟩) (fun ⟨_, he⟩ => nomatch he)
  refine hempty.bind fun s₁ h₁ => ?_
  have hcommittee : Returns (Held a t) s₁.committeeProcessing :=
    h₁.returns (committeeProcessing_plain (T := (· = .committee)) (.refl s₁) rfl) (nomatch ·)
  refine hcommittee.bind fun s₂ h₂ => ?_
  exact h₂.returns (paidSubscribeProcessing_plain (T := (· = .subscriptions)) (.refl s₂) rfl) (nomatch ·)

end Blocks

end Ledger

end VizNode
