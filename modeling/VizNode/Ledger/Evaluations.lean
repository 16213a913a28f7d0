import VizNode.Ledger.Withdrawals

/-!
# `VizNode.Ledger.Evaluations` — what the evaluators do to the bank

One lemma for each evaluator of `VizNode.Ledger.Evaluators`: what it did, when it returned, was a course of the
bank that neither makes nor loses tokens. The checks of the evaluator are what the moves ask for. Where a move
asks that the account has a key, the lemma asks it of the account that signs.

## Contents
- **Steps.** The course of each elementary change.
- **Accounts, transfers, escrows, shares, votes.** In the order of the evaluators.
-/

namespace VizNode

namespace Ledger

open Bank

variable {s s' : Ledger} {a : AccountName} {P : Terms} {names : Names}

/-! ## Steps -/

theorem requireIf_eq_ok {cond : Bool} {c : Prop} [Decidable c] {e : Refusal} {u : Unit} :
    requireIf cond c e = .ok u ↔ (cond = true → c) := by
  unfold requireIf
  cases cond with
  | true  => exact require_eq_ok.trans ⟨fun h _ => h, fun h => h rfl⟩
  | false => exact ⟨fun _ h => absurd h Bool.false_ne_true, fun _ => rfl⟩

theorem createAccount_eq_ok {name : AccountName} {r : Account} {auth : AccountAuthority} :
    s.createAccount name r auth = .ok s' ↔ name ∉ s.accounts.keys ∧ { s with
      accounts := s.accounts.insert name r, authorities := s.authorities.insert name auth } = s' := by
  unfold createAccount
  by_cases h : name ∈ s.accounts.keys
  · rw [if_pos h]
    exact ⟨fun he => (by cases he), fun he => absurd h he.1⟩
  · rw [if_neg h]
    exact ⟨fun he => ⟨h, Except.ok.inj he⟩, fun he => congrArg Except.ok he.2⟩

/-- A new account on the bank. -/
theorem bank_insertAccount {name : AccountName} {r : Account} {auth : AccountAuthority} {book : AccountBook}
    (hr : r.toAccountBook = book) :
    { s with accounts := s.accounts.insert name r, authorities := s.authorities.insert name auth }.bank =
      { s.bank with
        accounts    := s.bank.accounts.insert name book
        authorities := s.bank.authorities.insert name auth } := by
  rw [← hr]
  unfold bank
  dsimp only
  rw [Table.mapRows_insert]
  rfl

namespace Course

theorem of_eq {b b' : Bank} (h : b' = b) : Course P 0 b b' := h ▸ .refl

instance : IsPreorder Ledger (fun s t => Course P 0 s.bank t.bank) where
  refl _ := .refl
  trans _ _ _ := chain

/-- A course for every element of a list. -/
theorem foldlM {α : Type} {f : Ledger → α → Result Ledger} (hf : ∀ s x t, f s x = .ok t → Course P 0 s.bank t.bank)
    {xs : List α} (h : xs.foldlM f s = .ok s') : Course P 0 s.bank s'.bank :=
  Prog.foldlM_rel (R := fun s t : Ledger => Course P 0 s.bank t.bank) hf h

/-- Tokens come to an account, or leave it. -/
theorem pay {x : Int} (ha : a ∈ s.accounts.keys)
    (hx : Solvent s.bank → P.covered → 0 ≤ x ∨ 0 ≤ (s.accounts.row a).balance + x) :
    Course P (-x) s.bank (s.adjustBalance a x).bank := by
  rw [bank_adjustBalance]
  exact of_moves (.of (.pay ha (fun hC => hx hC.1 hC.2)))

/-- Tokens come to an account. -/
theorem credit {x : Int} (ha : a ∈ s.accounts.keys) (hx : 0 ≤ x) :
    Course P (-x) s.bank (s.adjustBalance a x).bank := pay ha (fun _ _ => .inl hx)

/-- Tokens leave an account that has them. -/
theorem debit {x : Int} (ha : a ∈ s.accounts.keys) (hx : x ≤ (s.accounts.row a).balance) :
    Course P x s.bank (s.adjustBalance a (-x)).bank :=
  (pay ha (fun _ _ => .inr (by omega))).cast (neg_neg x)

/-- The funds change, and nothing else does. -/
theorem funds {b b' : Bank} {δ : Int} (hfund : b.fund ≤ b'.fund) (hc : b.committee ≤ b'.committee)
    (h : b' = { b with
      supply := b'.supply, fund := b'.fund, reward := b'.reward, committee := b'.committee,
      entrusted := b'.entrusted })
    (hδ : b'.supply - b.supply - (b'.fund - b.fund + (b'.reward - b.reward)
      + (b'.committee - b.committee) + (b'.entrusted - b.entrusted)) = δ) : Course P δ b b' :=
  of_moves ((Moves.funds hfund (fun _ => .inl hc) h).cast hδ rfl)

theorem toCommittee {x : Int} (hx : 0 ≤ x) : Course P (-x) s.bank (s.adjustCommitteeFund x).bank := by
  refine funds le_rfl (le_add_of_nonneg_right hx) rfl ?_
  dsimp only [bank, adjustCommitteeFund, escrowed, invited, pending]
  omega

/-- What others hold for somebody changes. -/
theorem entrust {x : Int} (h : s'.bank = { s.bank with entrusted := s.bank.entrusted + x }) :
    Course P (-x) s.bank s'.bank := by
  rw [h]
  refine funds le_rfl le_rfl rfl ?_
  dsimp only
  omega

theorem vest {tokens : Int} (h : s.createVesting a tokens = .ok s') : Course P (-tokens) s.bank s'.bank :=
  of_moves ((createVesting_vest h).2.2 _ _)

/-- A new account, with nothing. -/
theorem openAccount {name : AccountName} {r : Account} {auth : AccountAuthority}
    (hr : r.toAccountBook = {}) (hname : name ∉ s.accounts.keys) :
    Course P 0 s.bank { s with
      accounts := s.accounts.insert name r, authorities := s.authorities.insert name auth }.bank := by
  rw [bank_insertAccount hr]
  exact of_moves (.of (.openAccount auth hname))

/-- Somebody else may sign, for an account that has a key. -/
theorem authorise {t : Table AccountName AccountAuthority} {hist : List MasterHistory}
    (h : s'.bank = { s.bank with authorities := t, masterHistory := hist })
    (ha : InOrder 0 s.bank ∧ P.signed → ∀ k ∈ Config.keyless, t.row k = s.authorities.row k)
    (hh : InOrder 0 s.bank ∧ P.signed → ∀ e ∈ hist, e ∈ s.masterHistory ∨ e.account ∉ Config.keyless) :
    Course P 0 s.bank s'.bank := by
  rw [h]
  exact of_moves (.of (.authorise ha hh))

end Course

/-- An escrow's part in what is entrusted. -/
theorem bank_escrows {t : Table (AccountName × Nat) Escrow} :
    { s with escrows := t }.bank = { s.bank with entrusted := s.bank.entrusted
      + (t.total (fun _ e => (e.tokenBalance : Int) + e.pendingFee) - s.escrowed) } := by
  unfold bank
  congr 1
  show t.total (fun _ e => (e.tokenBalance : Int) + e.pendingFee) + s.invited + s.pending
    = s.escrowed + s.invited + s.pending + _
  omega

/-- An invite's part in what is entrusted. -/
theorem bank_invites {t : Table PublicKey Invite} :
    { s with invites := t }.bank = { s.bank with entrusted := s.bank.entrusted
      + (t.total (fun _ i => (i.balance : Int)) - s.invited) } := by
  unfold bank
  congr 1
  show s.escrowed + t.total (fun _ i => (i.balance : Int)) + s.pending
    = s.escrowed + s.invited + s.pending + _
  omega

/-- A validator's part in what is entrusted. -/
theorem bank_validators {t : Table AccountName ValidatorAccount} :
    { s with validators := t }.bank = { s.bank with entrusted := s.bank.entrusted
      + (t.total (fun _ w => (w.pendingStakeholderReward : Int)) - s.pending) } := by
  unfold bank
  congr 1
  show s.escrowed + s.invited + t.total (fun _ w => (w.pendingStakeholderReward : Int))
    = s.escrowed + s.invited + s.pending + _
  omega

/-! ## Accounts -/

theorem createDelegation_eq_ok {key : AccountName × AccountName} {d : Delegation} :
    s.createDelegation key d = .ok s' ↔
      key ∉ s.delegations.keys ∧ { s with delegations := s.delegations.insert key d } = s' := by
  unfold createDelegation
  by_cases h : key ∈ s.delegations.keys
  · rw [if_pos h]
    exact ⟨fun he => (by cases he), fun he => absurd h he.1⟩
  · rw [if_neg h]
    exact ⟨fun he => ⟨h, Except.ok.inj he⟩, fun he => congrArg Except.ok he.2⟩

/-- A new delegation on the bank. -/
theorem bank_insertDelegation {key : AccountName × AccountName} {d : Delegation} :
    { s with delegations := s.delegations.insert key d }.bank =
      { s.bank with delegations := s.bank.delegations.insert key d.vestingShares } := by
  unfold bank
  dsimp only
  rw [Table.mapRows_insert]
  rfl

section Opening

variable {K C : Prop} {b : Bank} {x y : AccountName} {fee n : Int} {auth : AccountAuthority}

/-- An account pays for a new one. -/
theorem openPaid_moves {g : AccountAuthority} (hx : x ∈ b.accounts.keys) (hy : y ∉ b.accounts.keys)
    (hfee : fee ≤ (b.accounts.row x).balance) :
    Moves K C fee 0 b { b with
      accounts    := (b.accounts.modify x (.addBalance (-fee))).insert y {}
      authorities := b.authorities.insert y g } := by
  have hpay : Move K C (-(-fee)) 0 b (b.edit x (.addBalance (-fee))) := .pay hx (fun _ => .inr (by omega))
  exact ((Moves.of hpay).tail (.openAccount g hy)).cast (by omega) rfl

/-- An account pays for a new one, and lends it shares. -/
theorem openLending_moves (hx : x ∈ b.accounts.keys) (hy : y ∉ b.accounts.keys)
    (hfee : fee ≤ (b.accounts.row x).balance) (hn : n ≠ 0) (hkey : (x, y) ∉ b.delegations.keys)
    (hk : K → x ∉ Config.keyless)
    (hav : K → (b.accounts.row x).delegatedVestingShares
      + ((b.accounts.row x).toWithdraw - (b.accounts.row x).withdrawn) + n ≤ (b.accounts.row x).vestingShares) :
    Moves K C fee 0 b { b with
      accounts    := (b.accounts.modify x (fun r => (r.addBalance (-fee)).addDelegated n)).insert y
        { receivedVestingShares := n }
      authorities := b.authorities.insert y auth
      delegations := b.delegations.insert (x, y) n } := by
  have hxy : x ≠ y := fun he => hy (he ▸ hx)
  have hfind : b.delegations.find (x, y) = none := Table.find_eq_none.mpr hkey
  have hset : b.delegations.setTo (x, y) n = b.delegations.insert (x, y) n := by
    unfold Table.setTo
    rw [if_neg hn, if_neg hkey]
  have hy' : y ∉ (b.accounts.modify x (.addBalance (-fee))).keys := hy
  have hopen := openPaid_moves (K := K) (C := C) (g := auth) hx hy hfee
  have hlend := Move.delegate (K := K) (C := C) (n := n) (b := { b with
      accounts    := (b.accounts.modify x (.addBalance (-fee))).insert y {}
      authorities := b.authorities.insert y auth })
    ((Table.mem_insert_keys hy').mpr (.inl hx)) ((Table.mem_insert_keys hy').mpr (.inr rfl)) hxy hk
    (by
      intro hK
      have := hav hK
      dsimp only [Bank.lent]
      rw [Table.insert_row_of_ne hxy, Table.modify_row_self, hfind]
      dsimp only [AccountBook.addBalance, Option.getD_none]
      omega)
  dsimp only [Bank.lent] at hlend
  rw [hfind, Option.getD_none, sub_zero, hset, Table.insert_modify_of_ne hy' hxy, Table.modify_modify,
    Table.insert_modify (t := b.accounts.modify x _) hy] at hlend
  have hbook : AccountBook.addReceived n {} = { receivedVestingShares := n } := by
    unfold AccountBook.addReceived
    rw [zero_add]
  rw [hbook] at hlend
  exact (hopen.tail hlend).cast (add_zero fee) rfl

end Opening

theorem accountCreate_course {o : AccountCreate} (h : accountCreate names s o = .ok s')
    (hk : InOrder 0 s.bank ∧ P.signed → o.creator ∉ Config.keyless) : Course P 0 s.bank s'.bank := by
  simp only [accountCreate, bind_eq_ok, require_eq_ok, requireIf_eq_ok, getAccount_eq_ok, createAccount_eq_ok]
    at h
  obtain ⟨-, -, -, ⟨hc, rfl⟩, -, hfee, -, hav, -, -, -, -, -, -, -, -, -, -, -, -, -, -, -, -, s₁, ⟨hnew, hs₁⟩, h⟩ := h
  have hnew : o.newAccountName ∉ s.bank.accounts.keys := hnew
  have hb₁ : s₁.bank = { s.bank with
      accounts    := (s.bank.accounts.modify o.creator (fun r => (r.addBalance (-o.fee)).addDelegated
        o.delegation)).insert o.newAccountName { receivedVestingShares := o.delegation }
      authorities := s.bank.authorities.insert o.newAccountName
        { master := o.master, active := o.active, regular := o.regular } } := by
    rw [← hs₁, bank_insertAccount rfl, bank_modifyAccount
      (g := fun r => (r.addBalance (-o.fee)).addDelegated o.delegation) rfl, bank_sharesSenderRecalcEnergy]
    rfl
  have hlend : ∃ s₂ : Ledger, Course P o.fee s.bank s₂.bank ∧
      (if 0 < o.fee then s₂.createVesting o.newAccountName o.fee else pure s₂) = .ok s' := by
    by_cases hd : 0 < o.delegation
    · rw [if_pos hd] at h
      simp only [bind_eq_ok, createDelegation_eq_ok] at h
      obtain ⟨s₂, ⟨hkey, hs₂⟩, h⟩ := h
      refine ⟨s₂, ?_, h⟩
      have hkey : (o.creator, o.newAccountName) ∉ s.bank.delegations.keys := by
        rw [← hs₁] at hkey
        exact hkey
      rw [← hs₂, bank_insertDelegation, hb₁]
      refine .of_moves (openLending_moves hc hnew hfee (by omega) hkey hk ?_)
      intro _
      unfold Account.availableVestingShares at hav
      rw [if_pos rfl] at hav
      dsimp only [bank_row]
      omega
    · -- nothing is lent, and there is no delegation
      rw [if_neg hd] at h
      simp only [bind_eq_ok, pure_eq_ok] at h
      obtain ⟨s₂, rfl, h⟩ := h
      refine ⟨s₁, ?_, h⟩
      have hzero : o.delegation = 0 := by omega
      have hbooks : (fun r : AccountBook => (r.addBalance (-o.fee)).addDelegated (o.delegation : Nat)) =
          AccountBook.addBalance (-o.fee) := by
        funext r
        unfold AccountBook.addDelegated
        rw [hzero]
        exact congrArg (fun d => { r.addBalance (-o.fee) with delegatedVestingShares := d }) (add_zero _)
      rw [hb₁, hbooks, hzero]
      exact .of_moves (openPaid_moves hc hnew hfee)
  obtain ⟨s₂, hc₂, h⟩ := hlend
  by_cases hf : 0 < o.fee
  · rw [if_pos hf] at h
    exact (hc₂.trans (.vest h)).cast (by omega)
  · rw [if_neg hf, pure_eq_ok] at h
    exact h ▸ hc₂.cast (by omega)

/-- The authority of an account that has a key changes. -/
theorem modifyAuthority_keyless {f : AccountAuthority → AccountAuthority} {auths : Table AccountName AccountAuthority}
    (ha : a ∉ Config.keyless) : ∀ k ∈ Config.keyless, (auths.modify a f).row k = auths.row k :=
  fun _ hk => Table.modify_row_of_ne (fun he => ha (he ▸ hk))

/-- **`update_master_authority`** of an account that has a key. -/
theorem updateMasterAuthority_course {master : Authority} (hk : InOrder 0 s.bank ∧ P.signed → a ∉ Config.keyless) :
    Course P 0 s.bank (s.updateMasterAuthority a master).bank := by
  refine .authorise (t := s.authorities.modify a (fun r =>
    { r with master := master, lastMasterUpdate := s.time })) rfl (fun hb => modifyAuthority_keyless (hk hb)) ?_
  intro hb e he
  unfold updateMasterAuthority at he
  dsimp only at he
  by_cases hhead : 1 ≤ s.headBlockNumber
  · rw [if_pos hhead] at he
    rcases List.mem_append.mp he with he | he
    · exact .inl he
    · rw [List.mem_singleton.mp he]
      exact .inr (hk hb)
  · rw [if_neg hhead] at he
    exact .inl he

theorem bank_authorities {auths : Table AccountName AccountAuthority} :
    { s with authorities := auths }.bank = { s.bank with authorities := auths } := rfl

theorem accountUpdate_course {o : AccountUpdate} (h : accountUpdate names s o = .ok s')
    (hk : InOrder 0 s.bank ∧ P.signed → o.account ∉ Config.keyless) : Course P 0 s.bank s'.bank := by
  simp only [accountUpdate, bind_eq_ok] at h
  obtain ⟨-, -, -, -, -, -, h⟩ := h
  have hmaster : ∃ s₁ : Ledger, Course P 0 s.bank s₁.bank ∧
      s'.bank = { s₁.bank with authorities := s₁.authorities.modify o.account (fun a =>
        { a with active := o.active.getD a.active, regular := o.regular.getD a.regular }) } := by
    cases hm : o.master with
    | none =>
        rw [hm] at h
        simp only [bind_eq_ok, pure_eq_ok] at h
        obtain ⟨s₁, rfl, -, -, -, -, rfl⟩ := h
        refine ⟨s, .refl, ?_⟩
        rw [bank_authorities, bank_modifyAccount_same rfl]
        rfl
    | some master =>
        rw [hm] at h
        simp only [bind_eq_ok, pure_eq_ok] at h
        obtain ⟨-, -, -, -, s₁, rfl, -, -, -, -, rfl⟩ := h
        refine ⟨s.updateMasterAuthority o.account master, updateMasterAuthority_course hk, ?_⟩
        rw [bank_authorities, bank_modifyAccount_same rfl]
        rfl
  obtain ⟨s₁, hc₁, hbank⟩ := hmaster
  rw [hbank]
  exact hc₁.next (.authorise (fun hb => modifyAuthority_keyless (hk hb)) (fun _ e he => .inl he))

/-- A request for recovery is not on the bank. -/
theorem requestAccountRecovery_course {top partner account : AccountName} {master : Authority}
    (h : s.requestAccountRecovery top partner account master = .ok s') : Course P 0 s.bank s'.bank := by
  simp only [requestAccountRecovery, bind_eq_ok] at h
  obtain ⟨-, -, -, -, h⟩ := h
  cases hr : s.recoveryRequests.find account with
  | none =>
      rw [hr] at h
      simp only [bind_eq_ok, pure_eq_ok] at h
      obtain ⟨-, -, -, -, -, -, rfl⟩ := h
      exact .refl
  | some r =>
      rw [hr] at h
      by_cases hopen : master.weightThreshold = 0
      · rw [if_pos hopen] at h
        exact Except.ok.inj h ▸ .refl
      · rw [if_neg hopen] at h
        simp only [bind_eq_ok, pure_eq_ok] at h
        obtain ⟨-, -, -, -, rfl⟩ := h
        exact .refl

/-- **`recover_account`.** Whoever has a history had a key. -/
theorem recoverAccount_course {account : AccountName} {newMaster recentMaster : Authority}
    (h : s.recoverAccount account newMaster recentMaster = .ok s') : Course P 0 s.bank s'.bank := by
  simp only [recoverAccount, bind_eq_ok, require_eq_ok, getAccount_eq_ok, pure_eq_ok] at h
  obtain ⟨-, -, -, ⟨ha, -⟩, -, -, -, -, -, ⟨e, he, hea, -⟩, rfl⟩ := h
  have hk : InOrder 0 s.bank ∧ P.signed → account ∉ Config.keyless := fun hb => hea ▸ hb.1.sealed.history e he
  have hc₁ : Course P 0 s.bank
      (updateMasterAuthority { s with recoveryRequests := s.recoveryRequests.erase account } account newMaster).bank :=
    updateMasterAuthority_course (s := { s with recoveryRequests := s.recoveryRequests.erase account }) hk
  generalize updateMasterAuthority { s with recoveryRequests := s.recoveryRequests.erase account } account newMaster
    = s₁ at hc₁ ⊢
  by_cases hf : s₁.hasHardfork 9
  · refine hc₁.chain ?_
    rw [bank_modifyAccount (g := .forSale false) (by rw [if_pos hf]; rfl)]
    exact .of_moves (.of (.offer false (fun _ he => absurd he Bool.false_ne_true)))
  · rw [bank_modifyAccount_same (by rw [if_neg hf])]
    exact hc₁

/-! ## Transfers -/

/-- Tokens go from one account to another. -/
theorem Course.transfer {x y : AccountName} {n : Int} (hx : x ∈ s.accounts.keys) (hy : y ∈ s.accounts.keys)
    (hn : 0 ≤ n) (hle : n ≤ (s.accounts.row x).balance) :
    Course P 0 s.bank ((s.adjustBalance x (-n)).adjustBalance y n).bank :=
  (Course.trans (.debit hx hle) (.credit hy hn)).cast (add_neg_cancel n)

/-- **An account for the key in a memo**, with what the anonymous account was sent. -/
theorem createFromMemo_course {b : Bank} {m : Memo} {amount : Nat} (h : createFromMemo names s m amount = .ok s')
    (hc : Course P 0 b s.bank) (ha : Config.anonymousAccount ∈ s.accounts.keys)
    (hbal : Solvent b → (amount : Int) ≤ (s.accounts.row Config.anonymousAccount).balance) :
    Course P 0 b s'.bank := by
  simp only [createFromMemo, bind_eq_ok, createAccount_eq_ok] at h
  obtain ⟨⟨name, valid, num⟩, -, -, -, s₁, ⟨hname, hs₁⟩, h⟩ := h
  have hname : name ∉ s.accounts.keys := hname
  have hopen : Course P 0 s.bank s₁.bank := by
    rw [← hs₁]
    exact .openAccount (s := { s with anonymousNum := num }) rfl hname
  have hrow : s₁.accounts.row Config.anonymousAccount = s.accounts.row Config.anonymousAccount := by
    rw [← hs₁]
    exact Table.insert_row_of_mem hname ha
  have ha₁ : Config.anonymousAccount ∈ s₁.accounts.keys := by
    rw [← hs₁]
    exact (Table.mem_insert_keys hname).mpr (.inl ha)
  have hpay := (hc.chain hopen).next (.pay (x := -amount) ha₁ (fun hC => .inr (by
    have := hbal hC.1
    rw [bank_row, hrow]
    omega)))
  rw [← bank_adjustBalance] at hpay
  exact (hpay.trans (.vest h)).cast (by omega)

theorem transfer_course {o : Transfer} (h : transfer names s o = .ok s') : Course P 0 s.bank s'.bank := by
  simp only [transfer, bind_eq_ok, require_eq_ok, getAccount_eq_ok] at h
  obtain ⟨-, -, -, ⟨hf, rfl⟩, -, ⟨ht, -⟩, -, hle, h⟩ := h
  have hc : Course P 0 s.bank ((s.adjustBalance o.from_ (-o.amount)).adjustBalance o.to_ o.amount).bank :=
    .transfer hf ht (Int.natCast_nonneg _) hle
  by_cases hto : o.to_ = Config.anonymousAccount
  · rw [if_pos hto] at h
    simp only [bind_eq_ok] at h
    obtain ⟨-, -, h⟩ := h
    cases hm : o.memo with
    | none =>
        rw [hm] at h
        exact Except.ok.inj h ▸ hc
    | some m =>
        rw [hm] at h
        refine createFromMemo_course h hc (hto ▸ ht) ?_
        -- the anonymous account has at least what was sent, also when it is the sender
        intro hs
        have hto₀ := hs.account o.to_ ht
        rw [← hto, adjustBalance_balance, if_pos rfl, adjustBalance_balance]
        by_cases hft : o.to_ = o.from_
        · rw [if_pos hft, hft]
          omega
        · rw [if_neg hft]
          exact le_add_of_nonneg_left (by rw [add_zero]; exact hto₀)
  · rw [if_neg hto] at h
    exact Except.ok.inj h ▸ hc

/-! ## Escrows -/

theorem getEscrow_eq_ok {from_ : AccountName} {id : Nat} {e : Escrow} :
    s.getEscrow from_ id = .ok e ↔ (from_, id) ∈ s.escrows.keys ∧ s.escrows.row (from_, id) = e := by
  unfold getEscrow
  rw [← Table.find_eq_some]
  cases h : s.escrows.find (from_, id) with
  | none   => exact ⟨fun he => (by cases he), fun he => (by cases he)⟩
  | some x => exact ⟨fun he => congrArg some (Except.ok.inj he), fun he => congrArg Except.ok (Option.some.inj he)⟩

/-- The tokens of an escrow. -/
def Escrow.tokens (_ : AccountName × Nat) (e : Escrow) : Int := (e.tokenBalance : Int) + e.pendingFee

/-- The escrows change, and with them what they hold. -/
theorem Course.escrows {t : Table (AccountName × Nat) Escrow} {x : Int}
    (h : t.total Escrow.tokens = s.escrows.total Escrow.tokens + x) :
    Course P (-x) s.bank { s with escrows := t }.bank := by
  refine .entrust (bank_escrows.trans ?_)
  have hx : t.total (fun _ e => (e.tokenBalance : Int) + e.pendingFee) - s.escrowed = x :=
    sub_eq_iff_eq_add'.mpr h
  rw [hx]

theorem approveEscrow_tokens {toApproved agentApproved : Bool} {e : Escrow} {key : AccountName × Nat} :
    Escrow.tokens key (approveEscrow toApproved agentApproved e) =
      if toApproved = true ∧ agentApproved = true then (e.tokenBalance : Int) else Escrow.tokens key e := by
  unfold approveEscrow
  by_cases h : toApproved = true ∧ agentApproved = true
  · rw [dif_pos h, if_pos h]
    exact add_zero _
  · rw [dif_neg h, if_neg h]
    rfl

theorem escrowTransfer_course {o : EscrowTransfer} (h : s.escrowTransfer o = .ok s') :
    Course P 0 s.bank s'.bank := by
  simp only [escrowTransfer, bind_eq_ok, require_eq_ok, getAccount_eq_ok, pure_eq_ok] at h
  obtain ⟨-, -, -, ⟨hf, rfl⟩, -, -, -, -, -, -, -, hle, -, hkey, rfl⟩ := h
  have hpay : Course P ((o.tokenAmount + o.fee : Nat) : Int) s.bank
      (s.adjustBalance o.from_ (-((o.tokenAmount + o.fee : Nat) : Int))).bank := .debit hf hle
  refine (hpay.trans (.escrows (Table.total_insert hkey))).cast ?_
  unfold Escrow.tokens
  dsimp only
  omega

theorem escrowApprove_course {o : EscrowApprove} (h : s.escrowApprove o = .ok s') :
    Course P 0 s.bank s'.bank := by
  simp only [escrowApprove, bind_eq_ok, require_eq_ok, requireIf_eq_ok, getEscrow_eq_ok] at h
  obtain ⟨-, -, e, ⟨hkey, rfl⟩, -, -, -, -, -, -, -, -, h⟩ := h
  by_cases hno : o.approve = false
  · -- refused: everything goes back
    rw [if_pos hno] at h
    simp only [bind_eq_ok, getAccount_eq_ok, pure_eq_ok] at h
    obtain ⟨-, ⟨hf, -⟩, rfl⟩ := h
    have hback : Course P _ s.bank ((s.adjustBalance o.from_ (s.escrows.row (o.from_, o.escrowId)).tokenBalance).adjustBalance
        o.from_ (s.escrows.row (o.from_, o.escrowId)).pendingFee).bank :=
      Course.trans (.credit hf (Int.natCast_nonneg _)) (.credit hf (Int.natCast_nonneg _))
    refine (hback.trans (.escrows ((Table.total_erase hkey).trans (sub_eq_add_neg _ _)))).cast ?_
    unfold Escrow.tokens
    omega
  · rw [if_neg hno] at h
    by_cases hboth : ((s.escrows.row (o.from_, o.escrowId)).toApproved || decide (o.who = o.to_)) &&
        ((s.escrows.row (o.from_, o.escrowId)).agentApproved || decide (o.who = o.agent))
    · -- the second approval pays the agent
      rw [if_pos hboth] at h
      simp only [bind_eq_ok, getAccount_eq_ok, pure_eq_ok] at h
      obtain ⟨-, ⟨hag, -⟩, s₁, rfl, rfl⟩ := h
      have hfee : Course P _ s.bank (s.adjustBalance o.agent (s.escrows.row (o.from_, o.escrowId)).pendingFee).bank :=
        .credit hag (Int.natCast_nonneg _)
      refine (hfee.trans (.escrows (Table.total_modify hkey))).cast ?_
      rw [approveEscrow_tokens, if_pos (Bool.and_eq_true_iff.mp hboth)]
      unfold Escrow.tokens
      dsimp only [adjustBalance, modifyAccount]
      omega
    · rw [if_neg hboth] at h
      simp only [bind_eq_ok, pure_eq_ok] at h
      obtain ⟨s₁, rfl, rfl⟩ := h
      refine (Course.escrows (x := 0) (Eq.trans (Table.total_modify_same ?_) (add_zero _).symm)).cast neg_zero
      rw [approveEscrow_tokens, if_neg (fun hb => hboth (Bool.and_eq_true_iff.mpr hb))]

theorem escrowDispute_course {from_ to_ agent who : AccountName} {id : Nat}
    (h : s.escrowDispute from_ to_ agent who id = .ok s') : Course P 0 s.bank s'.bank := by
  simp only [escrowDispute, bind_eq_ok, require_eq_ok, pure_eq_ok] at h
  obtain ⟨-, -, -, -, -, -, -, -, -, -, -, -, -, -, rfl⟩ := h
  exact (Course.escrows (x := 0) ((Table.total_modify_same rfl).trans (add_zero _).symm)).cast neg_zero

theorem escrowRelease_course {o : EscrowRelease} (h : s.escrowRelease o = .ok s') :
    Course P 0 s.bank s'.bank := by
  simp only [escrowRelease, bind_eq_ok, require_eq_ok, getAccount_eq_ok, getEscrow_eq_ok] at h
  obtain ⟨-, -, -, -, -, ⟨hr, -⟩, e, ⟨hkey, rfl⟩, -, hle, -, -, -, -, -, happr, -, -, h⟩ := h
  have happr := Bool.and_eq_true_iff.mp happr
  have hpaid := (s.escrows.row (o.from_, o.escrowId)).feePaid happr.1 happr.2
  have hcredit : Course P (-o.tokenAmount) s.bank (s.adjustBalance o.receiver o.tokenAmount).bank :=
    .credit hr (Int.natCast_nonneg _)
  by_cases hend : (s.escrows.row (o.from_, o.escrowId)).tokenBalance - o.tokenAmount = 0
  · -- nothing is left, not even the fee
    rw [if_pos hend, pure_eq_ok] at h
    rw [← h]
    refine (hcredit.trans (.escrows (x := -o.tokenAmount) ?_)).cast ?_
    · rw [Table.total_erase (by exact hkey), Table.total_modify (by exact hkey), Table.modify_row_self]
      unfold Escrow.tokens
      dsimp only [adjustBalance, modifyAccount]
      rw [hpaid]
      omega
    · omega
  · rw [if_neg hend, pure_eq_ok] at h
    rw [← h]
    refine (hcredit.trans (.escrows (Table.total_modify hkey))).cast ?_
    unfold Escrow.tokens
    dsimp only [adjustBalance, modifyAccount]
    omega

end Ledger

end VizNode
