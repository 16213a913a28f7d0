import VizNode.Ledger.Titles
import VizNode.Signing.Verdict

/-!
# `VizNode.Ledger.Handover` — what becomes of an account that was sold

A sale gives the buyer the authorities of the account and makes the buyer its recovery partner. Some requests take
effect long after they were filed: a recovery, an auction, and a change of the recovery partner, which waits for thirty
days. This module adds the last of them to the ledger, with the signatures of transactions, and follows a sold account
through every later run in which the buyer does nothing.

**A sale does not look at the requests to change the recovery partner.** One that was filed before the sale takes
effect after it, and the partner it names can then recover the account. `sold_account_is_free` says that this and a
proposal in the name of the account are the only ways; an account called `temp` needs no signature at all.

## Contents
- **The registry.** `Registry`, `changeRecoveryAccount`, `accountRecoveryProcessing`.
- **Signatures.** What operations require, and `verified`.
- **Turns.** `Turn`, one step with what happened in it, and `Run`.
- **Sales.** `Sale`, and what it leaves behind.
- **The sold account.** `sold_account_is_free`, and the request that outlives the sale.
-/

namespace VizNode

namespace Ledger

open Bank Signing
open Prog (Returns)

/-! ## The registry -/

/-- `change_recovery_account_request_object`. The key is the account. -/
structure ChangeRequest where
  recoveryAccount : AccountName
  effectiveOn     : Nat
deriving DecidableEq, Repr, Inhabited

/-- The ledger and the changes of recovery partners that have not taken effect. -/
structure Registry where
  ledger  : Ledger
  changes : Table AccountName ChangeRequest

/-- An operation on the registry. -/
inductive RegistryOp where
  | of (o : Operation)
  | changeRecoveryAccount (accountToRecover newRecoveryAccount : AccountName)

namespace Registry

/-- `change_recovery_account_evaluator`. A second request replaces the first one, unless it asks for the partner the
    account has: then both are gone. -/
def changeRecoveryAccount (names : Names) (r : Registry) (account partner : AccountName) : Result Registry := do
  require (names.validAccountName account ∧ names.validAccountName partner) .validation
  let _ ← r.ledger.getAccount partner
  let a ← r.ledger.getAccount account
  let request : ChangeRequest :=
    { recoveryAccount := partner, effectiveOn := r.ledger.time + Config.masterAuthRecoveryPeriod }
  match r.changes.find account with
  | none   => return { r with changes := r.changes.insert account request }
  | some _ =>
      if a.recoveryAccount ≠ partner then
        return { r with changes := r.changes.modify account (fun _ => request) }
      else return { r with changes := r.changes.erase account }

/-- A request takes effect. -/
def applyChange (r : Registry) (account : AccountName) : Result Registry := do
  let _ ← r.ledger.getAccount account
  return {
    ledger  := r.ledger.modifyAccount account (fun a =>
      { a with recoveryAccount := (r.changes.row account).recoveryAccount })
    changes := r.changes.erase account }

/-- `account_recovery_processing`, with the requests that have come due. -/
def accountRecoveryProcessing (r : Registry) : Result Registry :=
  let due := r.changes.keys.filter (fun a => decide ((r.changes.row a).effectiveOn ≤ r.ledger.time))
  due.foldlM applyChange { r with ledger := r.ledger.accountRecoveryProcessing }

/-- A computation on the ledger. -/
def onLedger (r : Registry) (x : Result Ledger) : Result Registry := do
  let s ← x
  return { r with ledger := s }

/-- `process_vesting_withdrawals` and what follows it, up to the auctions. -/
def processAccounts (r : Registry) : Result Registry := do
  let r ← r.onLedger r.ledger.processVestingWithdrawals
  let r ← r.accountRecoveryProcessing
  let r ← r.onLedger r.ledger.expireEscrowRatification
  if r.ledger.hasHardfork 11 then r.onLedger r.ledger.accountOnAuctionExpiration else return r

def evaluate (names : Names) (loc : Local) (r : Registry) : RegistryOp → Result Registry
  | .of o => r.onLedger (Ledger.evaluate names loc r.ledger o)
  | .changeRecoveryAccount account partner => changeRecoveryAccount names r account partner

end Registry

/-! ## Signatures -/

/-- `get_required_..._authorities`. -/
def Operation.required (o : Operation) : Required :=
  match o with
  | .accountUpdate u => if u.master.isSome then { master := [u.account] } else { active := [u.account] }
  | .recoverAccount _ newMaster recent => { other := [newMaster, recent] }
  | .setAccountPrice _ | .targetAccountSale _ | .setSubaccountPrice _ _ _ _ => { master := o.signer.toList }
  | .committeeWorkerCreateRequest _ | .committeeWorkerCancelRequest _ _ | .committeeVoteRequest _ _ _
  | .award _ | .fixedAward _ => { regular := o.signer.toList }
  | _ => { active := o.signer.toList }

namespace RegistryOp

def signer : RegistryOp → Option AccountName
  | .of o                            => o.signer
  | .changeRecoveryAccount account _ => some account

def required : RegistryOp → Required
  | .of o                            => o.required
  | .changeRecoveryAccount account _ => { master := [account] }

end RegistryOp

/-- The getters of `_validate_transaction`, of one level. -/
def getter (s : Ledger) (part : AccountAuthority → Authority) : AuthorityGetter := fun a =>
  match s.authorities.find a with
  | some r => .ok (part r)
  | none   => .error (.unknownAccount a)

def getters (s : Ledger) : Getters where
  active  := s.getter AccountAuthority.active
  master  := s.getter AccountAuthority.master
  regular := s.getter AccountAuthority.regular

/-- **The keys are enough for the operations**, as `_validate_transaction` sees it. -/
def verified (s : Ledger) (sigs : List PublicKey) (ops : List RegistryOp) : Prop :=
  verifyAuthority RegistryOp.required ops sigs s.getters maxSigCheckDepth {} = .ok ()

instance (s : Ledger) (sigs : List PublicKey) (ops : List RegistryOp) : Decidable (s.verified sigs ops) :=
  match h : verifyAuthority RegistryOp.required ops sigs s.getters maxSigCheckDepth {} with
  | .ok ()   => isTrue h
  | .error _ => isFalse fun hok => nomatch h.symm.trans hok

section Signatures

variable {s : Ledger} {sigs : List PublicKey} {ops : List RegistryOp} {o : RegistryOp} {x : AccountName}

/-- Whoever signs is among what is required. -/
theorem signer_required (h : x ∈ o.signer) :
    x ∈ o.required.active ∨ x ∈ o.required.master ∨ x ∈ o.required.regular := by
  cases o with
  | changeRecoveryAccount account partner =>
      obtain rfl : account = x := Option.some.inj h
      exact .inr (.inl List.mem_cons_self)
  | of o =>
      have hx : x ∈ o.signer.toList := Option.mem_toList.mpr h
      cases o with
      | accountUpdate u =>
          obtain rfl : u.account = x := Option.some.inj h
          simp only [RegistryOp.required, Operation.required]
          by_cases hm : u.master.isSome = true
          · rw [if_pos hm]
            exact .inr (.inl List.mem_cons_self)
          · rw [if_neg hm]
            exact .inl List.mem_cons_self
      | recoverAccount account newMaster recent => cases h
      | _ => first | exact .inl hx | exact .inr (.inl hx) | exact .inr (.inr hx)

/-- The authorities of an account are those of its row. -/
theorem holds_getter {part : AccountAuthority → Authority} {keys : Set PublicKey} {S : Set AccountName}
    (h : Holds (s.getter part) keys S x) : Reached keys S (part (s.authorities.row x)) := by
  obtain ⟨auth, hget, hreached⟩ := h
  unfold getter at hget
  cases hfind : s.authorities.find x with
  | none =>
      rw [hfind] at hget
      cases hget
  | some r =>
      rw [hfind] at hget
      rw [(Table.find_eq_some.mp hfind).2, Except.ok.inj hget]
      exact hreached

/-- **Whoever signs has an authority that the keys reach**, unless it is `temp`. -/
theorem verified.reached (h : s.verified sigs ops) (ho : o ∈ ops) (hx : x ∈ o.signer) :
    x = tempAccount ∨ ∃ S, ∃ auth ∈ [(s.authorities.row x).master, (s.authorities.row x).active,
      (s.authorities.row x).regular], Reached { k | k ∈ sigs } S auth := by
  obtain ⟨hall, hactive, hmaster, hregular, -⟩ := verifyAuthority_sound _ _ _ _ _ _ h
  have hmaster_mem : ∀ {S : Set AccountName}, Holds s.getters.master { k | k ∈ sigs } S x →
      ∃ S, ∃ auth ∈ [(s.authorities.row x).master, (s.authorities.row x).active, (s.authorities.row x).regular],
        Reached { k | k ∈ sigs } S auth := fun hh => ⟨_, _, List.mem_cons_self, holds_getter hh⟩
  have hactive_mem : ∀ {S : Set AccountName}, Holds s.getters.active { k | k ∈ sigs } S x →
      ∃ S, ∃ auth ∈ [(s.authorities.row x).master, (s.authorities.row x).active, (s.authorities.row x).regular],
        Reached { k | k ∈ sigs } S auth := fun hh => ⟨_, _, by simp, holds_getter hh⟩
  rcases signer_required hx with hreq | hreq | hreq
  · rcases hall.active x ((hactive x).mpr ⟨o, ho, hreq⟩) with hg | hh | hh
    · exact .inl (hg.resolve_right (by simp))
    · exact .inr (hactive_mem hh)
    · exact .inr (hmaster_mem hh)
  · rcases hall.master x ((hmaster x).mpr ⟨o, ho, hreq⟩) with hg | hh
    · exact absurd hg List.not_mem_nil
    · exact .inr (hmaster_mem hh)
  · rcases hall.regular x ((hregular x).mpr ⟨o, ho, hreq⟩) with hg | hh | hh | hh
    · exact .inl (hg.resolve_right (by simp))
    · exact .inr ⟨_, _, by simp, holds_getter hh⟩
    · exact .inr (hactive_mem hh)
    · exact .inr (hmaster_mem hh)

/-- An authority of one key is reached with that key only. -/
theorem not_reached_ofKey {k : PublicKey} {S : Set AccountName} (hk : k ∉ sigs) :
    ¬ Reached { k | k ∈ sigs } S (.ofKey k) := by
  intro h
  unfold Reached Authority.ofKey at h
  rw [weightIn_eq_zero, weightIn_eq_zero (by simp)] at h
  · exact absurd h (Nat.not_succ_le_zero 0)
  · intro e he hmem
    obtain rfl := List.mem_singleton.mp he
    exact hk hmem

/-- **Nobody signs for an account without its one key.** -/
theorem verified.not_signer {k : PublicKey} {now : Nat} (h : s.verified sigs ops) (ho : o ∈ ops)
    (hkey : s.authorities.row x = .ofKey k now) (hk : k ∉ sigs) (htemp : x ≠ tempAccount) : x ∉ o.signer := by
  intro hx
  obtain ⟨S, auth, hauth, hreached⟩ := (h.reached ho hx).resolve_left htemp
  rw [hkey] at hauth
  have hone : auth = .ofKey k := by
    simp only [AccountAuthority.ofKey, List.mem_cons, or_self, List.not_mem_nil, or_false] at hauth
    exact hauth
  exact not_reached_ofKey hk (hone ▸ hreached)

/-- All the weights of an authority. -/
theorem weightIn_le_sum {α : Type} {T : Set α} {l : List (α × Nat)} : weightIn T l ≤ (l.map Prod.snd).sum := by
  classical
  induction l with
  | nil => exact Nat.le_refl _
  | cons e l ih =>
      unfold weightIn at ih ⊢
      rw [List.map_cons, List.sum_cons, List.map_cons, List.sum_cons]
      split <;> omega

/-- Whoever signs has a key. -/
theorem verified.not_keyless (h : s.verified sigs ops) (hb : InOrder 0 s.bank) (ho : o ∈ ops) (hx : x ∈ o.signer) :
    x ∉ Config.keyless := by
  intro hkeyless
  rcases h.reached ho hx with rfl | ⟨S, auth, hauth, hreached⟩
  · exact absurd hkeyless (by decide)
  · have hcannot : (s.authorities.row x).canSign = false := hb.sealed.authority x hkeyless
    have himpossible : auth.isImpossible = true := by
      simp only [AccountAuthority.canSign, Bool.not_eq_false', Bool.and_eq_true] at hcannot
      obtain ⟨⟨hm, ha⟩, hr⟩ := hcannot
      simp only [List.mem_cons, List.not_mem_nil, or_false] at hauth
      rcases hauth with rfl | rfl | rfl
      · exact hm
      · exact ha
      · exact hr
    have hlt := of_decide_eq_true himpossible
    unfold Reached at hreached
    have hkeys : weightIn { k | k ∈ sigs } auth.keyAuths ≤ _ := weightIn_le_sum
    have haccounts : weightIn S auth.accountAuths ≤ _ := weightIn_le_sum
    omega

end Signatures

/-- `_apply_transaction`: the signatures are checked once, then the operations are evaluated. -/
def Registry.applyTransaction (names : Names) (loc : Local) (r : Registry) (sigs : List PublicKey)
    (ops : List RegistryOp) : Result Registry :=
  if r.ledger.verified sigs ops then ops.foldlM (Registry.evaluate names loc) r else .error .authority

/-! ## Turns -/

namespace Registry

/-- The operations of a transaction or of a proposal, one after another. -/
inductive Carried (names : Names) : List RegistryOp → Registry → Registry → Prop
  | nil (r : Registry) : Carried names [] r r
  | cons {r r₁ r' : Registry} {loc : Local} {o : RegistryOp} {ops : List RegistryOp}
      (ho : r.evaluate names loc o = .ok r₁) (hops : Carried names ops r₁ r') : Carried names (o :: ops) r r'

/-- What happens in a turn: a transaction with its signatures, a proposal that is carried out, or a part of a block. -/
inductive Event where
  | transaction (sigs : List PublicKey) (ops : List RegistryOp)
  | proposal (ops : List RegistryOp)
  | block

/-- **The turns.** A proposal was approved earlier, by accounts that could sign. A block has its parts in this order,
    with one turn for every auction; what neither the books nor the titles see is `aside`. -/
inductive Turn (names : Names) : Event → Registry → Registry → Prop
  | transaction {r r' : Registry} {sigs : List PublicKey} {ops : List RegistryOp} (hv : r.ledger.verified sigs ops)
      (hops : Carried names ops r r') : Turn names (.transaction sigs ops) r r'
  | proposal {r r' : Registry} {ops : List RegistryOp}
      (happroved : ∀ o ∈ ops, ∀ x ∈ o.signer, (r.ledger.authorities.row x).canSign = true)
      (hops : Carried names ops r r') : Turn names (.proposal ops) r r'
  | moveHead {r : Registry} (b : Head) : Turn names .block r { r with ledger := r.ledger.moveHead b }
  | clearExpired {r r' : Registry} (h : r.onLedger r.ledger.clearExpired = .ok r') : Turn names .block r r'
  | processRewards {r r' : Registry} (h : r.onLedger r.ledger.processRewards = .ok r') : Turn names .block r r'
  | cashoutContent {r r' : Registry} {c : Content} (h : r.onLedger (r.ledger.cashoutContent c) = .ok r') :
      Turn names .block r r'
  | processVestingWithdrawals {r r' : Registry} (h : r.onLedger r.ledger.processVestingWithdrawals = .ok r') :
      Turn names .block r r'
  | accountRecoveryProcessing {r r' : Registry} (h : r.accountRecoveryProcessing = .ok r') : Turn names .block r r'
  | expireEscrowRatification {r r' : Registry} (h : r.onLedger r.ledger.expireEscrowRatification = .ok r') :
      Turn names .block r r'
  | settleAuction {r r' : Registry} {name : AccountName} (hname : name ∈ r.ledger.accounts.keys)
      (hon : (r.ledger.accounts.row name).accountOnAuction = true)
      (h : r.onLedger (r.ledger.settleAuction name) = .ok r') : Turn names .block r r'
  | processClosing {r r' : Registry} (h : r.onLedger r.ledger.processClosing = .ok r') : Turn names .block r r'
  | aside {r r' : Registry} (hbank : r'.ledger.bank = r.ledger.bank) (htitle : r'.ledger.title = r.ledger.title)
      (hrequests : r'.ledger.recoveryRequests = r.ledger.recoveryRequests) (hchanges : r'.changes = r.changes) :
      Turn names .block r r'

/-- **A run**, with what happened in it. -/
inductive Run (names : Names) : List Event → Registry → Registry → Prop
  | nil (r : Registry) : Run names [] r r
  | snoc {r r₁ r' : Registry} {es : List Event} {e : Event} (h : Run names es r r₁) (ht : Turn names e r₁ r') :
      Run names (es ++ [e]) r r'

/-- **The registries a node can come to.** -/
def Reachable (names : Names) (r : Registry) : Prop :=
  ∃ props initiatorKey inviteKey es, Run names es ⟨Ledger.genesis props initiatorKey inviteKey, .empty⟩ r

section Books

variable {names : Names} {r r' : Registry} {o : RegistryOp} {ops : List RegistryOp}

theorem onLedger_eq_ok {x : Result Ledger} : r.onLedger x = .ok r' ↔ ∃ s, x = .ok s ∧ { r with ledger := s } = r' := by
  unfold onLedger
  simp only [bind_eq_ok, pure_eq_ok]

/-- A change of the recovery partner is not in the books. -/
theorem applyChange_bank {a : AccountName} (h : r.applyChange a = .ok r') : r'.ledger.bank = r.ledger.bank := by
  simp only [applyChange, bind_eq_ok, pure_eq_ok] at h
  obtain ⟨-, -, rfl⟩ := h
  exact bank_modifyAccount_same rfl

theorem changeRecoveryAccount_ledger {account partner : AccountName}
    (h : r.changeRecoveryAccount names account partner = .ok r') : r'.ledger = r.ledger := by
  simp only [changeRecoveryAccount, bind_eq_ok] at h
  obtain ⟨-, -, -, -, a, -, h⟩ := h
  cases hfind : r.changes.find account with
  | none =>
      rw [hfind] at h
      rw [← pure_eq_ok.mp h]
  | some q =>
      rw [hfind] at h
      by_cases hp : a.recoveryAccount ≠ partner
      · simp only [if_pos hp, pure_eq_ok] at h
        rw [← h]
      · simp only [if_neg hp, pure_eq_ok] at h
        rw [← h]

/-- **Operations keep the books in order.** -/
theorem Carried.inOrder (h : Carried names ops r r') (hk : ∀ o ∈ ops, ∀ x ∈ o.signer, x ∉ Config.keyless)
    (hb : InOrder 0 r.ledger.bank) : InOrder 0 r'.ledger.bank := by
  induction h with
  | nil r => exact hb
  | @cons r r₁ r' loc o ops ho hops ih =>
      refine ih (fun p hp => hk p (List.mem_cons_of_mem o hp)) ?_
      cases o with
      | of o =>
          obtain ⟨s, hs, rfl⟩ := onLedger_eq_ok.mp ho
          have hsigner : ∀ x ∈ o.signer, x ∉ Config.keyless := hk (.of o) List.mem_cons_self
          obtain ⟨δ, hcourse, -⟩ := evaluate_course (P := ⟨True, False⟩) hs (fun _ => hsigner) False.elim
          exact hcourse.inOrder trivial hb
      | changeRecoveryAccount account partner =>
          rw [changeRecoveryAccount_ledger ho]
          exact hb

/-- **A turn keeps the books in order.** -/
theorem Turn.inOrder {e : Event} (h : Turn names e r r') (hb : InOrder 0 r.ledger.bank) :
    InOrder 0 r'.ledger.bank := by
  have hcourse : ∀ {x : Result Ledger}, (∀ s, x = .ok s → Course ⟨True, True⟩ 0 r.ledger.bank s.bank) →
      r.onLedger x = .ok r' → InOrder 0 r'.ledger.bank := by
    intro x hx hr
    obtain ⟨s, hs, rfl⟩ := onLedger_eq_ok.mp hr
    exact (hx s hs).inOrder trivial hb
  cases h with
  | transaction hv hops => exact hops.inOrder (fun o ho x hx => hv.not_keyless hb ho hx) hb
  | proposal happroved hops =>
      refine hops.inOrder (fun o ho x hx hkeyless => ?_) hb
      have hcannot : (r.ledger.authorities.row x).canSign = false := hb.sealed.authority x hkeyless
      rw [happroved o ho x hx] at hcannot
      cases hcannot
  | moveHead b => exact hb
  | clearExpired h => exact hcourse (fun _ hs => clearExpired_course hs) h
  | processRewards h => exact hcourse (fun _ hs => processRewards_course hs) h
  | cashoutContent h => exact hcourse (fun _ hs => cashoutContent_course hs) h
  | processVestingWithdrawals h => exact hcourse (fun _ hs => (processVestingWithdrawals_course hs).1) h
  | accountRecoveryProcessing h =>
      have hbank : ∀ r₁ r₂ : Registry, InOrder 0 r₁.ledger.bank → ∀ a, r₁.applyChange a = .ok r₂ →
          InOrder 0 r₂.ledger.bank := fun _ _ hb₁ _ h₁ => (applyChange_bank h₁).symm ▸ hb₁
      have hstart : InOrder 0 r.ledger.accountRecoveryProcessing.bank :=
        (accountRecoveryProcessing_course (P := ⟨True, True⟩)).inOrder trivial hb
      exact Returns.foldlM (Q := fun r : Registry => InOrder 0 r.ledger.bank)
        (fun r₁ a hb₁ r₂ h₂ => hbank r₁ r₂ hb₁ a h₂) hstart r' h
  | expireEscrowRatification h => exact hcourse (fun _ hs => expireEscrowRatification_course hs) h
  | settleAuction hname hon h => exact hcourse (fun _ hs => settleAuction_course hs) h
  | processClosing h => exact hcourse (fun _ hs => processClosing_course hs) h
  | aside hbank htitle hrequests hchanges => exact hbank.symm ▸ hb

theorem Run.inOrder {es : List Event} (h : Run names es r r') (hb : InOrder 0 r.ledger.bank) :
    InOrder 0 r'.ledger.bank := by
  induction h with
  | nil => exact hb
  | snoc _ ht ih => exact ht.inOrder (ih hb)

/-- **The books are in order in every registry a node can come to.** -/
theorem Reachable.inOrder (h : Reachable names r) : InOrder 0 r.ledger.bank := by
  obtain ⟨props, initiatorKey, inviteKey, es, hrun⟩ := h
  exact hrun.inOrder genesis_inOrder

end Books

/-! ## The loop of a block

The auctions of a block are turns of their own. -/

section Auctions

variable {names : Names} {r r' : Registry} {x name : AccountName} {s : Ledger}

/-- The account is there, and on auction. -/
def OnAuction (x : AccountName) (s : Ledger) : Prop :=
  x ∈ s.accounts.keys ∧ (s.accounts.row x).accountOnAuction = true

theorem OnAuction.modify (h : OnAuction x s) {f : Account → Account}
    (hf : x = name → (f (s.accounts.row name)).accountOnAuction = (s.accounts.row name).accountOnAuction) :
    OnAuction x (s.modifyAccount name f) := by
  refine ⟨h.1, ?_⟩
  show ((s.accounts.modify name f).row x).accountOnAuction = true
  by_cases hx : x = name
  · rw [hx, Table.modify_row_self, hf hx, ← hx]
    exact h.2
  · rw [Table.modify_row_of_ne hx]
    exact h.2

theorem returnBid_onAuction (h : OnAuction x s) : Returns (OnAuction x) (s.returnBid name) := by
  unfold returnBid
  exact .after fun _ _ => .after fun _ _ => .pure (h.modify (fun _ => rfl))

/-- The end of one auction is not that of another. -/
theorem settleAuction_onAuction (h : OnAuction x s) (hx : x ≠ name) :
    Returns (OnAuction x) (s.settleAuction name) := by
  have hother : ∀ {s₁ : Ledger} {f : Account → Account}, OnAuction x s₁ → OnAuction x (s₁.modifyAccount name f) :=
    fun h₁ => h₁.modify (fun he => absurd he hx)
  unfold Ledger.settleAuction
  refine .after fun a _ => .ite (fun _ => .ite (fun _ => .pure (hother h)) (fun _ => ?_)) (fun _ => .pure h)
  refine .ite (fun _ => .ite (fun _ => ?_) (fun _ => ?_)) (fun _ => ?_)
  · exact (returnBid_onAuction h).bind fun _ h₁ => .pure (hother h₁)
  · refine .after fun _ _ => .after fun _ _ => .pure ?_
    have hspent : OnAuction x (s.modifyAccount a.currentBidder (fun b =>
        { b with reservedBalance := b.reservedBalance - a.currentBid })) := h.modify (fun _ => rfl)
    have hpaid : OnAuction x ((s.modifyAccount a.currentBidder (fun b =>
        { b with reservedBalance := b.reservedBalance - a.currentBid })).adjustBalance a.accountSeller a.currentBid) :=
      hspent.modify (fun _ => rfl)
    have hauth : ∀ y : Table AccountName AccountAuthority, OnAuction x { (s.modifyAccount a.currentBidder (fun b =>
        { b with reservedBalance := b.reservedBalance - a.currentBid })).adjustBalance a.accountSeller a.currentBid with
        authorities := y } := fun _ => hpaid
    exact hother (hauth _)
  · exact (returnBid_onAuction h).bind fun _ h₁ => .pure (hother h₁)

theorem Run.append {es₁ es₂ : List Event} {r₁ : Registry} (h₁ : Run names es₁ r r₁) (h₂ : Run names es₂ r₁ r') :
    Run names (es₁ ++ es₂) r r' := by
  induction h₂ with
  | nil => rwa [List.append_nil]
  | snoc _ ht ih =>
      rw [← List.append_assoc]
      exact (ih h₁).snoc ht

/-- A transaction that is applied is a turn. -/
theorem Turn.of_applyTransaction {loc : Local} {sigs : List PublicKey} {ops : List RegistryOp}
    (h : r.applyTransaction names loc sigs ops = .ok r') : Turn names (.transaction sigs ops) r r' := by
  unfold applyTransaction at h
  by_cases hv : r.ledger.verified sigs ops
  · rw [if_pos hv] at h
    refine .transaction hv ?_
    clear hv
    induction ops generalizing r with
    | nil => exact Except.ok.inj h ▸ .nil r
    | cons o ops ih =>
        simp only [List.foldlM_cons, bind_eq_ok] at h
        obtain ⟨r₁, h₁, h⟩ := h
        exact .cons h₁ (ih h)
  · rw [if_neg hv] at h
    cases h

theorem Turn.run {e : Event} (h : Turn names e r r') : Run names [e] r r' := (Run.nil r).snoc h

/-- **The loop over the auctions** is a turn for each account that is on auction. -/
theorem settleAuctions_run {l : List AccountName} (hl : l.Nodup) {r : Registry} (hon : ∀ x ∈ l, OnAuction x r.ledger)
    {s : Ledger} (h : l.foldlM settleAuction r.ledger = .ok s) :
    Run names (l.map fun _ => Event.block) r { r with ledger := s } := by
  induction l generalizing r with
  | nil =>
      obtain rfl := Except.ok.inj h
      exact .nil _
  | cons x l ih =>
      simp only [List.foldlM_cons, bind_eq_ok] at h
      obtain ⟨s₁, h₁, h⟩ := h
      obtain ⟨hx, hl⟩ := List.nodup_cons.mp hl
      have hturn : Turn names .block r { r with ledger := s₁ } :=
        .settleAuction (hon x List.mem_cons_self).1 (hon x List.mem_cons_self).2 (onLedger_eq_ok.mpr ⟨s₁, h₁, rfl⟩)
      refine hturn.run.append (ih hl (fun y hy => ?_) h)
      have hne : y ≠ x := fun he => hx (he ▸ hy)
      exact settleAuction_onAuction (hon y (List.mem_cons_of_mem x hy)) hne s₁ h₁

/-- **The part of a block that works on accounts** is a run of turns. -/
theorem processAccounts_run (h : r.processAccounts = .ok r') : ∃ es, Run names es r r' ∧ ∀ e ∈ es, e = .block := by
  simp only [processAccounts, bind_eq_ok] at h
  obtain ⟨r₁, h₁, r₂, h₂, r₃, h₃, h⟩ := h
  have hrun : Run names [.block, .block, .block] r r₃ :=
    (((Run.nil r).snoc (.processVestingWithdrawals h₁)).snoc (.accountRecoveryProcessing h₂)).snoc
      (.expireEscrowRatification h₃)
  by_cases h₁₁ : r₃.ledger.hasHardfork 11
  · rw [if_pos h₁₁] at h
    obtain ⟨s, hs, rfl⟩ := onLedger_eq_ok.mp h
    have hon : ∀ x ∈ r₃.ledger.accounts.keys.filter (fun a => (r₃.ledger.accounts.row a).accountOnAuction),
        OnAuction x r₃.ledger := fun x hx => List.mem_filter.mp hx
    refine ⟨_, hrun.append (settleAuctions_run (r₃.ledger.accounts.nodup.filter _) hon hs), ?_⟩
    simp
  · rw [if_neg h₁₁] at h
    obtain rfl := pure_eq_ok.mp h
    exact ⟨_, hrun, by simp⟩

end Auctions

/-! ## Titles along a run -/

section Titles

variable {names : Names} {r r' : Registry} {a partner : AccountName} {t : Title} {o : RegistryOp}
  {ops : List RegistryOp} {e : Event}

/-- **The title is held**, and no change of the recovery partner is on its way. -/
def Held (a : AccountName) (t : Title) (r : Registry) : Prop := Ledger.Held a t r.ledger ∧ a ∉ r.changes.keys

theorem onLedger_held {x : Result Ledger} (h : Held a t r) (hx : Returns (Ledger.Held a t) x) :
    Returns (Held a t) (r.onLedger x) := by
  unfold onLedger
  exact hx.bind fun _ h₁ => .pure ⟨h₁, h.2⟩

theorem changeRecoveryAccount_held {account : AccountName} (h : Held a t r) (hn : a ≠ account) :
    Returns (Held a t) (r.changeRecoveryAccount names account partner) := by
  unfold changeRecoveryAccount
  refine .after fun _ _ => .after fun _ _ => .after fun b _ => ?_
  dsimp only
  cases hfind : r.changes.find account with
  | none =>
      refine .pure ⟨h.1, fun hmem => ?_⟩
      exact h.2 (((Table.mem_insert_keys (Table.find_eq_none.mp hfind)).mp hmem).resolve_right hn)
  | some q =>
      refine .ite (fun _ => .pure h) (fun _ => .pure ⟨h.1, fun hmem => ?_⟩)
      exact h.2 (Table.mem_erase_keys.mp hmem).2

theorem evaluate_held {loc : Local} (h : Held a t r) (ht : t.Settled partner)
    (hsigner : ∀ x ∈ o.signer, x ≠ a ∧ x ≠ partner) : Returns (Held a t) (r.evaluate names loc o) := by
  cases o with
  | of o => exact onLedger_held h (Ledger.evaluate_held h.1 ht hsigner)
  | changeRecoveryAccount account partner => exact changeRecoveryAccount_held h (hsigner account rfl).1.symm

theorem Carried.held (hops : Carried names ops r r') (h : Held a t r) (ht : t.Settled partner)
    (hsigner : ∀ o ∈ ops, ∀ x ∈ o.signer, x ≠ a ∧ x ≠ partner) : Held a t r' := by
  induction hops with
  | nil => exact h
  | cons ho _ ih =>
      exact ih (evaluate_held h ht (hsigner _ List.mem_cons_self) _ ho)
        (fun o ho => hsigner o (List.mem_cons_of_mem _ ho))

/-- A request of another account takes effect. -/
theorem applyChange_held {account : AccountName} (h : Held a t r) (hn : a ≠ account) :
    Returns (Held a t) (r.applyChange account) := by
  unfold applyChange
  exact .after fun _ _ => .pure ⟨h.1.modify_other hn, fun hmem => h.2 (Table.mem_erase_keys.mp hmem).2⟩

theorem accountRecoveryProcessing_held (h : Held a t r) : Returns (Held a t) r.accountRecoveryProcessing := by
  have hloop : ∀ (l : List AccountName) (r₁ : Registry), (∀ x ∈ l, x ∈ r.changes.keys) → Held a t r₁ →
      Returns (Held a t) (l.foldlM applyChange r₁) := by
    intro l
    induction l with
    | nil => exact fun _ _ h₁ => .ok h₁
    | cons x l ih =>
        intro r₁ hl h₁
        rw [List.foldlM_cons]
        have hne : a ≠ x := fun he => h.2 (he ▸ hl x List.mem_cons_self)
        exact (applyChange_held h₁ hne).bind fun r₂ h₂ => ih r₂ (fun y hy => hl y (List.mem_cons_of_mem x hy)) h₂
  exact hloop _ _ (fun x hx => (List.mem_filter.mp hx).1) ⟨h.1.accountRecoveryProcessing, h.2⟩

/-- **Neither the key nor the account authorises anything** in what happens. -/
def Event.Without (k : PublicKey) (b : AccountName) : Event → Prop
  | .transaction sigs ops => k ∉ sigs ∧ ∀ o ∈ ops, b ∉ o.signer
  | .proposal ops         => ∀ o ∈ ops, b ∉ o.signer
  | .block                => True

/-- **No proposal in the name of the account** is carried out. -/
def Event.Spares (a : AccountName) : Event → Prop
  | .proposal ops => ∀ o ∈ ops, a ∉ o.signer
  | _             => True

/-- **A turn leaves a settled title** whose account has one key, when neither that key nor the recovery partner
    authorises anything in it. -/
theorem Turn.held {k : PublicKey} {now : Nat} (h : Turn names e r r') (hr : Held a t r) (ht : t.Settled partner)
    (hkey : t.authority = .ofKey k now) (htemp : a ≠ tempAccount) (hwithout : e.Without k partner)
    (hspares : e.Spares a) : Held a t r' := by
  cases h with
  | transaction hv hops =>
      refine hops.held hr ht (fun o ho x hx => ⟨?_, ?_⟩)
      · rintro rfl
        have hauth : r.ledger.authorities.row x = .ofKey k now := by
          rw [← hkey, ← hr.1.2.1]
          rfl
        exact hv.not_signer ho hauth hwithout.1 htemp hx
      · rintro rfl
        exact hwithout.2 o ho hx
  | proposal happroved hops =>
      refine hops.held hr ht (fun o ho x hx => ⟨?_, ?_⟩)
      · rintro rfl
        exact hspares o ho hx
      · rintro rfl
        exact hwithout o ho hx
  | moveHead b => exact hr
  | clearExpired h => exact onLedger_held hr (clearExpired_held hr.1) r' h
  | processRewards h => exact onLedger_held hr (processRewards_held hr.1) r' h
  | cashoutContent h => exact onLedger_held hr (cashoutContent_held hr.1) r' h
  | processVestingWithdrawals h => exact onLedger_held hr (processVestingWithdrawals_held hr.1) r' h
  | accountRecoveryProcessing h => exact accountRecoveryProcessing_held hr r' h
  | expireEscrowRatification h => exact onLedger_held hr (expireEscrowRatification_held hr.1) r' h
  | @settleAuction _ _ name hname hon h =>
      have hne : a ≠ name := by
        rintro rfl
        rw [hr.1.onAuction_eq, ht.not_auction] at hon
        cases hon
      exact onLedger_held hr (settleAuction_held hr.1 hne) r' h
  | processClosing h => exact onLedger_held hr (processClosing_held hr.1) r' h
  | aside hbank htitle hrequests hchanges =>
      refine ⟨⟨?_, ?_, ?_⟩, hchanges ▸ hr.2⟩
      · have hkeys : r'.ledger.bank.accounts.keys = r.ledger.bank.accounts.keys := by rw [hbank]
        exact hkeys ▸ hr.1.1
      · exact htitle ▸ hr.1.2.1
      · exact hrequests ▸ hr.1.2.2

theorem Run.held {k : PublicKey} {now : Nat} {es : List Event} (h : Run names es r r') (hr : Held a t r)
    (ht : t.Settled partner) (hkey : t.authority = .ofKey k now) (htemp : a ≠ tempAccount)
    (hwithout : ∀ e ∈ es, e.Without k partner) (hspares : ∀ e ∈ es, e.Spares a) : Held a t r' := by
  induction h with
  | nil => exact hr
  | snoc h hturn ih =>
      have hbefore := ih hr (fun e he => hwithout e (List.mem_append_left _ he))
        (fun e he => hspares e (List.mem_append_left _ he))
      exact hturn.held hbefore ht hkey htemp (hwithout _ (by simp)) (hspares _ (by simp))

end Titles

/-! ## Sales -/

/-- **A completed sale** of the account `a` to `b`, who asked for the key `k`: a purchase while nothing is bid, from
    hardfork 11 on, or the end of an auction that the last bid wins. -/
inductive Sale (names : Names) : AccountName → AccountName → PublicKey → Registry → Registry → Prop
  | direct {r r' : Registry} {clock : Nat} {o : BuyAccount} (h₁₁ : r.ledger.hasHardfork 11 = true)
      (hsold : o.account ∈ r.ledger.accounts.keys)
      (hstart : (r.ledger.accounts.row o.account).accountOnSaleStartTime ≤ r.ledger.time)
      (h : r.onLedger (buyAccount names clock r.ledger o) = .ok r') :
      Sale names o.account o.buyer o.accountAuthoritiesKey r r'
  | auction {r r' : Registry} {name : AccountName} (hname : name ∈ r.ledger.accounts.keys)
      (hon : (r.ledger.accounts.row name).accountOnAuction = true)
      (hend : (r.ledger.accounts.row name).accountOnSaleStartTime ≤ r.ledger.time)
      (hwins : bidWins (r.ledger.accounts.row name) = true) (hfree : name ∉ r.ledger.recoveryRequests.keys)
      (hbid : (r.ledger.accounts.row name).currentBidder ≠ 0)
      (h : r.onLedger (r.ledger.settleAuction name) = .ok r') :
      Sale names name (r.ledger.accounts.row name).currentBidder (r.ledger.accounts.row name).currentBidderKey r r'

/-- **What a sale leaves**: the account has one key, the buyer is its recovery partner, and it is neither on sale nor
    on auction. -/
def Sold (a b : AccountName) (k : PublicKey) (s : Ledger) : Prop :=
  ∃ t, Ledger.Held a t s ∧ t.Settled b ∧ ∃ now, t.authority = .ofKey k now

section Sales

variable {names : Names} {s : Ledger} {t : Title} {r r' : Registry} {a b : AccountName} {k : PublicKey}

/-- The new title of an account that is written at last. -/
theorem sold_of {now : Nat} {f : Account → Account} (h : Ledger.Held a t s) (hb : b ≠ 0)
    (hf : ∀ x, (f x).recoveryAccount = b ∧ (f x).accountOnSale = false)
    (hauction : (f (s.accounts.row a)).accountOnAuction = false) :
    Sold a b k { s.modifyAccount a f with authorities := s.authorities.modify a (fun _ => .ofKey k now) } := by
  have hrow : ((s.accounts.modify a f).row a) = f (s.accounts.row a) := Table.modify_row_self
  refine ⟨_, ⟨h.1, rfl, h.2.2⟩, ⟨hb, ?_, ?_, ?_⟩, now, ?_⟩
  · show ((s.accounts.modify a f).row a).recoveryAccount = b
    rw [hrow]
    exact (hf _).1
  · show ((s.accounts.modify a f).row a).accountOnSale = false
    rw [hrow]
    exact (hf _).2
  · show ((s.accounts.modify a f).row a).accountOnAuction = false
    rw [hrow]
    exact hauction
  · show (s.authorities.modify a (fun _ => .ofKey k now)).row a = _
    exact Table.modify_row_self

/-- A purchase at the price of the offer sells the account. -/
theorem buyNow_sold {o : BuyAccount} (h : Ledger.Held o.account t s) (hb : o.buyer ≠ 0)
    (hauction : t.deed.accountOnAuction = false) :
    Returns (Sold o.account o.buyer o.accountAuthoritiesKey) (s.buyNow o) := by
  unfold buyNow
  refine .after fun _ _ => (payPrice_held h).bind fun s₁ h₁ => (createVesting_held h₁).bind fun s₂ h₂ => .pure ?_
  refine sold_of h₂ hb (fun x => ⟨rfl, rfl⟩) ?_
  show (s₂.accounts.row o.account).accountOnAuction = false
  rw [h₂.onAuction_eq, hauction]

/-- A purchase after the start of the sale, which nobody has bid for. -/
theorem buyAccount_sold {clock : Nat} {o : BuyAccount} (hbook : InOrder 0 s.bank) (h₁₁ : s.hasHardfork 11 = true)
    (hsold : o.account ∈ s.accounts.keys) (hstart : (s.accounts.row o.account).accountOnSaleStartTime ≤ s.time) :
    Returns (Sold o.account o.buyer o.accountAuthoritiesKey) (buyAccount names clock s o) := by
  have h₉ : s.hasHardfork 9 = true := by
    have hle := of_decide_eq_true h₁₁
    exact decide_eq_true (by omega)
  unfold buyAccount
  refine .after fun _ hvalid => .after fun _ _ => .after fun _ _ => .after fun _ _ => ?_
  have hbuyer : o.buyer ≠ 0 := by
    intro hzero
    have hname := (require_eq_ok.mp hvalid).1
    rw [hzero, names.empty_invalid] at hname
    cases hname
  rw [Table.find_eq_some.mpr ⟨hsold, rfl⟩]
  refine .after fun _ hon => .after fun _ hfree => .ite (fun _ => .after fun _ _ => ?_) (fun hno => absurd h₁₁ hno)
  refine .ite (fun hearly => absurd hstart (Nat.not_le.mpr hearly)) (fun _ => .after fun _ hbidder => ?_)
  have hrequest : o.account ∉ s.recoveryRequests.keys := by
    unfold requireIf at hfree
    rw [if_pos h₉] at hfree
    exact require_eq_ok.mp hfree
  -- the books say that an account that is on auction has a bidder
  have hauction : (s.title o.account).deed.accountOnAuction = false := by
    cases hc : (s.title o.account).deed.accountOnAuction with
    | false => rfl
    | true  => exact absurd (require_eq_ok.mp hbidder) ((hbook.reserved.auction o.account hsold).mp hc)
  exact buyNow_sold ⟨hsold, rfl, hrequest⟩ hbuyer hauction

/-- The end of an auction that the last bid wins. -/
theorem settleAuction_sold {name : AccountName} (hname : name ∈ s.accounts.keys)
    (hend : (s.accounts.row name).accountOnSaleStartTime ≤ s.time) (hwins : bidWins (s.accounts.row name) = true)
    (hfree : name ∉ s.recoveryRequests.keys) (hbid : (s.accounts.row name).currentBidder ≠ 0) :
    Returns (Sold name (s.accounts.row name).currentBidder (s.accounts.row name).currentBidderKey)
      (s.settleAuction name) := by
  unfold Ledger.settleAuction
  refine .after fun x hx => ?_
  obtain ⟨-, rfl⟩ := getAccount_eq_ok.mp hx
  rw [if_pos hend, if_neg hbid, if_pos hwins, if_neg hfree]
  refine .after fun _ _ => .after fun _ _ => .pure ?_
  have hstart : Ledger.Held name (s.title name) s := ⟨hname, rfl, hfree⟩
  have hspent : Ledger.Held name (s.title name) (s.modifyAccount (s.accounts.row name).currentBidder (fun b =>
      { b with reservedBalance := b.reservedBalance - (s.accounts.row name).currentBid })) := hstart.modify rfl
  exact sold_of hspent.adjustBalance hbid (fun x => ⟨rfl, rfl⟩) rfl

theorem Sale.sold (h : Sale names a b k r r') (hbook : InOrder 0 r.ledger.bank) :
    Sold a b k r'.ledger ∧ r'.changes = r.changes := by
  cases h with
  | direct h₁₁ hsold hstart h =>
      obtain ⟨s, hs, rfl⟩ := onLedger_eq_ok.mp h
      exact ⟨buyAccount_sold hbook h₁₁ hsold hstart s hs, rfl⟩
  | auction hname hon hend hwins hfree hbid h =>
      obtain ⟨s, hs, rfl⟩ := onLedger_eq_ok.mp h
      exact ⟨settleAuction_sold hname hend hwins hfree hbid s hs, rfl⟩

end Sales

/-! ## The sold account -/

/-- **A sold account is free of its previous owner**, in every run in which neither the buyer's key nor the buyer
    authorises anything, when no change of its recovery partner was on its way, no proposal in its name is carried out,
    and it is not the account whose signatures are not checked. -/
theorem sold_account_is_free {names : Names} {r₀ r r' : Registry} {a b : AccountName} {k : PublicKey}
    {es : List Event} (hreach : r₀.Reachable names) (hsale : Sale names a b k r₀ r) (hrun : Run names es r r')
    (hwithout : ∀ e ∈ es, e.Without k b) (hchange : a ∉ r₀.changes.keys) (htemp : a ≠ tempAccount)
    (hspares : ∀ e ∈ es, e.Spares a) : r'.ledger.title a = r.ledger.title a := by
  obtain ⟨⟨t, hheld, hsettled, now, hkey⟩, hchanges⟩ := hsale.sold hreach.inOrder
  have hafter := hrun.held ⟨hheld, hchanges ▸ hchange⟩ hsettled hkey htemp hwithout hspares
  rw [hafter.1.2.1, hheld.2.1]

end Registry

namespace Sample

open Registry

theorem exists_ok_of_any {α : Type} {x : Result α} {p : α → Bool} (h : x.toOption.any p = true) :
    ∃ y, x = .ok y ∧ p y = true := by
  cases x with
  | ok y    => exact ⟨y, rfl, h⟩
  | error _ => cases h

/-- The initiator opens accounts for alice and bob, and alice offers hers; `requests` she files before. -/
def forSale (requests : List RegistryOp) : Result Registry := do
  let r : Registry := ⟨start, .empty⟩
  let r ← r.applyTransaction names loc [1] [.of (openAccount alice 7), .of (openAccount bob 8),
    .of (.transfer { from_ := Config.initiatorName, to_ := alice, amount := 20000, memo := none })]
  let r ← r.applyTransaction names loc [7] (requests ++ [.of (.setAccountPrice
    { account := alice, accountSeller := alice, accountOfferPrice := 1000, accountOnSale := true })])
  return { r with ledger := r.ledger.moveHead ⟨Config.committeeAccount, 1000000 + Config.accountOnSaleDelay⟩ }

/-- The initiator buys the account of alice. -/
def purchase : BuyAccount where
  buyer                 := Config.initiatorName
  account               := alice
  accountOfferPrice     := 1000
  accountAuthoritiesKey := 9
  tokensToShares        := 1000

/-- Thirty days go by. -/
def later (r : Registry) : Registry :=
  { r with ledger := r.ledger.moveHead ⟨Config.committeeAccount, 1000000 + Config.masterAuthRecoveryPeriod⟩ }

/-- The sale, and the block thirty days later. -/
def sell (requests : List RegistryOp) : Result (Registry × Registry × Registry) := do
  let r₀ ← forSale requests
  let r ← r₀.onLedger (buyAccount names 0 r₀.ledger purchase)
  let r' ← (later r).accountRecoveryProcessing
  return (r₀, r, r')

theorem sell_spec {requests : List RegistryOp} {r₀ r r' : Registry} (h : sell requests = .ok (r₀, r, r')) :
    r₀.Reachable names ∧ r₀.onLedger (buyAccount names 0 r₀.ledger purchase) = .ok r ∧
      Run names [.block, .block] r r' := by
  simp only [sell, bind_eq_ok, pure_eq_ok, Prod.mk.injEq] at h
  obtain ⟨q₀, h₀, q, hbuy, q', hlast, rfl, rfl, rfl⟩ := h
  simp only [forSale, bind_eq_ok, pure_eq_ok] at h₀
  obtain ⟨q₁, h₁, q₂, h₂, rfl⟩ := h₀
  have hforks : Registry.Turn names .block ⟨genesis props 1 2, .empty⟩ ⟨start, .empty⟩ := .aside rfl rfl rfl rfl
  refine ⟨⟨props, 1, 2, _, ((hforks.run.snoc (.of_applyTransaction h₁)).snoc
    (.of_applyTransaction h₂)).snoc (.moveHead _)⟩, hbuy, ?_⟩
  exact ((Run.nil q).snoc (.moveHead _)).snoc (.accountRecoveryProcessing hlast)

/-- The purchase is a sale, and the title of alice's account is what a test finds. -/
theorem sell_sample (requests : List RegistryOp) {p : Registry → Registry → Registry → Bool}
    (h : (sell requests).toOption.any (fun x => decide (x.1.ledger.hasHardfork 11 = true ∧
      alice ∈ x.1.ledger.accounts.keys ∧
      (x.1.ledger.accounts.row alice).accountOnSaleStartTime ≤ x.1.ledger.time) && p x.1 x.2.1 x.2.2) = true) :
    ∃ r₀ r r', r₀.Reachable names ∧ Sale names alice Config.initiatorName 9 r₀ r ∧
      Run names [.block, .block] r r' ∧ p r₀ r r' = true := by
  obtain ⟨⟨r₀, r, r'⟩, hsell, hp⟩ := exists_ok_of_any h
  obtain ⟨hreach, hbuy, hrun⟩ := sell_spec hsell
  obtain ⟨hsale, hp⟩ := Bool.and_eq_true_iff.mp hp
  obtain ⟨h₁₁, hsold, hstart⟩ := of_decide_eq_true hsale
  have hdirect : Sale names purchase.account purchase.buyer purchase.accountAuthoritiesKey r₀ r :=
    .direct h₁₁ hsold hstart hbuy
  exact ⟨r₀, r, r', hreach, hdirect, hrun, hp⟩

end Sample

namespace Registry

theorem sold_account_is_free_sample : ∃ r₀ r r', r₀.Reachable Sample.names ∧
    Sale Sample.names Sample.alice Config.initiatorName 9 r₀ r ∧ Run Sample.names [.block, .block] r r' ∧
    r'.ledger.title Sample.alice = r.ledger.title Sample.alice := by
  obtain ⟨r₀, r, r', hreach, hsale, hrun, hp⟩ := Sample.sell_sample []
    (p := fun r₀ _ _ => decide (Sample.alice ∉ r₀.changes.keys)) (by decide +kernel)
  refine ⟨r₀, r, r', hreach, hsale, hrun, ?_⟩
  exact sold_account_is_free hreach hsale hrun (by simp [Event.Without]) (of_decide_eq_true hp) (by decide)
    (by simp [Event.Spares])

/-- **A request that was filed before the sale takes effect after it.** Alice asks for bob as her recovery partner and
    sells her account; thirty days later bob is the partner of the account, and the buyer has done nothing. -/
theorem request_outlives_sale : ∃ r₀ r r', r₀.Reachable Sample.names ∧
    Sale Sample.names Sample.alice Config.initiatorName 9 r₀ r ∧ Run Sample.names [.block, .block] r r' ∧
    (∀ e ∈ [Event.block, .block], e.Without 9 Config.initiatorName) ∧
    (r.ledger.title Sample.alice).deed.recoveryAccount = Config.initiatorName ∧
    (r'.ledger.title Sample.alice).deed.recoveryAccount = Sample.bob := by
  obtain ⟨r₀, r, r', hreach, hsale, hrun, hp⟩ :=
    Sample.sell_sample [.changeRecoveryAccount Sample.alice Sample.bob]
      (p := fun _ r r' => decide ((r.ledger.title Sample.alice).deed.recoveryAccount = Config.initiatorName ∧
        (r'.ledger.title Sample.alice).deed.recoveryAccount = Sample.bob)) (by decide +kernel)
  exact ⟨r₀, r, r', hreach, hsale, hrun, by simp [Event.Without], of_decide_eq_true hp⟩

end Registry

end Ledger

end VizNode
