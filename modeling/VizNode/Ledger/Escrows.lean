import VizNode.Ledger.Runs

/-!
# `VizNode.Ledger.Escrows` — the life of an escrow

An escrow begins with a transfer. The receiver and the agent ratify it or refuse it, in either order, until the
deadline; a ratified one can be disputed, and is released in parts until nothing is left. Between two moves of
one escrow anything else can happen, to other escrows too.

What an escrow pays is read off the balances: the difference that a move of *this* escrow makes to an account.

## Contents
- **Moves.** `EscrowMove`, `Moved`, and `Life`, a run of moves while the escrow is there.
- **The pass of a block** is a sequence of moves, `expireEscrowRatification_passes`.
- **Turns.** `EscrowTurn`: all that a move can do to an escrow.
- **Standing.** `EscrowStanding`, kept by every turn.
- **The law of escrows.** `escrow_law`.
-/

namespace VizNode

namespace Ledger

variable {s s₀ s₁ s₂ s' : Ledger} {k : AccountName × Nat} {a : AccountName}

/-! ## Moves -/

/-- Under which key an operation finds its escrow. -/
def EscrowTransfer.key (o : EscrowTransfer) : AccountName × Nat := (o.from_, o.escrowId)
def EscrowApprove.key (o : EscrowApprove) : AccountName × Nat := (o.from_, o.escrowId)
def EscrowRelease.key (o : EscrowRelease) : AccountName × Nat := (o.from_, o.escrowId)

/-- **What can happen to the escrows**: the four operations, and the end of the time to ratify. -/
inductive EscrowMove where
  | transfer (o : EscrowTransfer)
  | approve (o : EscrowApprove)
  | dispute (from_ to_ agent who : AccountName) (escrowId : Nat)
  | release (o : EscrowRelease)
  | expire (key : AccountName × Nat)
  /-- Anything else; nothing else touches an escrow. -/
  | aside

/-- The escrow that is moved. -/
def EscrowMove.key : EscrowMove → Option (AccountName × Nat)
  | .transfer o            => some o.key
  | .approve o             => some o.key
  | .dispute from_ _ _ _ n => some (from_, n)
  | .release o             => some o.key
  | .expire k              => some k
  | .aside                 => none

/-- The pass of a block takes this escrow. -/
def Lapsed (s : Ledger) (k : AccountName × Nat) : Prop :=
  k ∈ s.escrows.keys ∧ (s.escrows.row k).isApproved = false ∧ (s.escrows.row k).ratificationDeadline ≤ s.time

/-- **A move** that was not refused. -/
inductive Moved : EscrowMove → Ledger → Ledger → Prop
  | transfer {s s' : Ledger} {o : EscrowTransfer} (h : s.escrowTransfer o = .ok s') : Moved (.transfer o) s s'
  | approve {s s' : Ledger} {o : EscrowApprove} (h : s.escrowApprove o = .ok s') : Moved (.approve o) s s'
  | dispute {s s' : Ledger} {from_ to_ agent who : AccountName} {n : Nat}
      (h : s.escrowDispute from_ to_ agent who n = .ok s') : Moved (.dispute from_ to_ agent who n) s s'
  | release {s s' : Ledger} {o : EscrowRelease} (h : s.escrowRelease o = .ok s') : Moved (.release o) s s'
  | expire {s s' : Ledger} {k : AccountName × Nat} (hl : s.Lapsed k) (h : s.expireEscrow k = .ok s') :
      Moved (.expire k) s s'
  | aside {s s' : Ledger} (h : s'.escrows = s.escrows) : Moved .aside s s'

/-- A move between two ledgers. -/
structure EscrowStep where
  before : Ledger
  move   : EscrowMove
  after  : Ledger

/-- **What the escrow `k` pays to `a`** in a step: nothing, unless it is the one that is moved. -/
def EscrowStep.pays (st : EscrowStep) (k : AccountName × Nat) (a : AccountName) : Int :=
  if st.move.key = some k then (st.after.accounts.row a).balance - (st.before.accounts.row a).balance else 0

/-- What the escrow `k` has paid to `a`. -/
def paid (k : AccountName × Nat) (steps : List EscrowStep) (a : AccountName) : Int :=
  (steps.map (fun st => st.pays k a)).sum

/-- What the escrow `k` holds. -/
def escrowHolds (s : Ledger) (k : AccountName × Nat) : Int :=
  match s.escrows.find k with
  | some e => e.tokenBalance + e.pendingFee
  | none   => 0

/-- **A life**: the moves of a run, for as long as the escrow `k` is there to be moved. -/
inductive Life (k : AccountName × Nat) (s : Ledger) : List EscrowStep → Ledger → Prop
  | start : Life k s [] s
  | step {steps : List EscrowStep} {s₁ s₂ : Ledger} {m : EscrowMove} (h : Life k s steps s₁)
      (hk : k ∈ s₁.escrows.keys) (hm : Moved m s₁ s₂) : Life k s (steps ++ [⟨s₁, m, s₂⟩]) s₂

/-- Any step of a life has a life before it. -/
theorem Life.before {steps before after : List EscrowStep} {st : EscrowStep} (h : Life k s steps s')
    (hsplit : steps = before ++ st :: after) :
    Life k s before st.before ∧ k ∈ st.before.escrows.keys ∧ Moved st.move st.before st.after := by
  induction h generalizing after with
  | start => exact absurd hsplit (by simp)
  | step h hk hm ih =>
      -- the step is the last one, or it lies in what went before
      cases List.eq_nil_or_concat after with
      | inl hnil =>
          rw [hnil] at hsplit
          obtain ⟨rfl, hst⟩ := List.append_inj' hsplit rfl
          rw [← (List.cons.inj hst).1]
          exact ⟨h, hk, hm⟩
      | inr hlast =>
          obtain ⟨rest, last, rfl⟩ := hlast
          rw [List.concat_eq_append, ← List.cons_append, ← List.append_assoc] at hsplit
          exact ih (List.append_inj' hsplit rfl).1

/-! ## The pass of a block -/

/-- **The pass of a block over the escrows is a sequence of moves**, one for each that has lapsed. -/
theorem expireEscrowRatification_passes (h : s.expireEscrowRatification = .ok s') :
    Relation.ReflTransGen (fun x y => ∃ k, Moved (.expire k) x y) s s' := by
  unfold expireEscrowRatification at h
  have hfold : ∀ l : List (AccountName × Nat), l.Nodup → ∀ s₁ : Ledger, (∀ k ∈ l, s₁.Lapsed k) →
      l.foldlM expireEscrow s₁ = .ok s' → Relation.ReflTransGen (fun x y => ∃ k, Moved (.expire k) x y) s₁ s' := by
    intro l
    induction l with
    | nil =>
        intro _ s₁ _ h₁
        rw [← Except.ok.inj h₁]
    | cons k l ih =>
        intro hl s₁ hlapsed h₁
        have hl := List.nodup_cons.mp hl
        simp only [List.foldlM_cons, bind_eq_ok] at h₁
        obtain ⟨s₂, h₂, h₁⟩ := h₁
        -- an expiration keeps the time and the other escrows
        have hrest : ∀ j ∈ l, s₂.Lapsed j := by
          intro j hj
          obtain ⟨hmem, happ, hdue⟩ := hlapsed j (List.mem_cons_of_mem k hj)
          simp only [expireEscrow, bind_eq_ok, pure_eq_ok] at h₂
          obtain ⟨-, -, rfl⟩ := h₂
          exact ⟨Table.mem_erase_keys.mpr ⟨fun he => hl.1 (he ▸ hj), hmem⟩, happ, hdue⟩
        exact .head ⟨k, .expire (hlapsed k List.mem_cons_self) h₂⟩ (ih hl.2 s₂ hrest h₁)
  refine hfold _ (s.escrows.nodup.filter _) s ?_ h
  intro k hk
  obtain ⟨hmem, hcond⟩ := List.mem_filter.mp hk
  obtain ⟨happ, hdue⟩ := Bool.and_eq_true_iff.mp hcond
  exact ⟨hmem, by simpa using happ, of_decide_eq_true hdue⟩

/-! ## Turns -/

/-- **All that a step can do to the escrow `k`**, which stands at `e` before it. -/
inductive EscrowTurn (k : AccountName × Nat) (e : Escrow) (st : EscrowStep) : Prop
  /-- Another escrow is moved, or none. -/
  | other (hk : st.move.key ≠ some k) (hafter : st.after.escrows.find k = some e)
  /-- A party ratifies. The second of the two has the agent paid. -/
  | ratified {o : EscrowApprove} (hm : st.move = .approve o) (hk : o.key = k) (hyes : o.approve = true)
      (hwho : o.who = e.to_ ∨ o.who = e.agent) (hto : o.to_ = e.to_) (hagent : o.agent = e.agent)
      (hopen : e.isApproved = false)
      (hafter : st.after.escrows.find k =
        some (approveEscrow (e.toApproved || decide (o.who = e.to_)) (e.agentApproved || decide (o.who = e.agent)) e))
      (hpays : ∀ a, st.pays k a = if a = e.agent ∧
        ((e.toApproved || decide (o.who = e.to_)) && (e.agentApproved || decide (o.who = e.agent))) = true
          then (e.pendingFee : Int) else 0)
  /-- One party refuses, or the time is up: everything goes back. -/
  | returned (hm : (∃ o, st.move = .approve o ∧ o.approve = false) ∨ st.move = .expire k)
      (hopen : e.isApproved = false) (hafter : st.after.escrows.find k = none)
      (hpays : ∀ a, st.pays k a = if a = k.1 then (e.tokenBalance : Int) + e.pendingFee else 0)
  | disputed {from_ to_ agent who : AccountName} {n : Nat} (hm : st.move = .dispute from_ to_ agent who n)
      (hk : (from_, n) = k) (hopen : e.isApproved = true)
      (hafter : st.after.escrows.find k = some { e with disputed := true }) (hpays : ∀ a, st.pays k a = 0)
  | released {o : EscrowRelease} (hm : st.move = .release o) (hk : o.key = k) (hopen : e.isApproved = true)
      (hwho : e.disputed = true → o.who = e.agent) (hreceiver : o.receiver = k.1 ∨ o.receiver = e.to_)
      (hle : o.tokenAmount ≤ e.tokenBalance)
      (hafter : st.after.escrows.find k =
        if e.tokenBalance - o.tokenAmount = 0 then none
        else some { e with tokenBalance := e.tokenBalance - o.tokenAmount })
      (hpays : ∀ a, st.pays k a = if a = o.receiver then (o.tokenAmount : Int) else 0)

section Turns

variable {e : Escrow} {m : EscrowMove}

theorem pays_of_key (hk : m.key = some k) :
    (EscrowStep.mk s m s').pays k a = (s'.accounts.row a).balance - (s.accounts.row a).balance := if_pos hk

/-- A refund is seen in the balance of the sender alone. -/
theorem refund_balance {x y : Int} {b : AccountName} :
    (((s.adjustBalance b x).adjustBalance b y).accounts.row a).balance - (s.accounts.row a).balance =
      if a = b then x + y else 0 := by
  rw [adjustBalance_balance, adjustBalance_balance]
  by_cases h : a = b
  · rw [if_pos h, if_pos h, if_pos h]
    ring
  · rw [if_neg h, if_neg h, if_neg h]
    ring

theorem credit_balance {x : Int} {b : AccountName} :
    ((s.adjustBalance b x).accounts.row a).balance - (s.accounts.row a).balance = if a = b then x else 0 := by
  rw [adjustBalance_balance, add_sub_cancel_left]

/-- A transfer opens an escrow under a key of its own. -/
theorem escrowTransfer_turn {o : EscrowTransfer} (h : s.escrowTransfer o = .ok s')
    (hk : s.escrows.find k = some e) : EscrowTurn k e ⟨s, .transfer o, s'⟩ := by
  simp only [escrowTransfer, bind_eq_ok, require_eq_ok, getAccount_eq_ok, pure_eq_ok] at h
  obtain ⟨-, -, -, -, -, -, -, -, -, -, -, -, -, hnew, rfl⟩ := h
  have hne : k ≠ o.key := by
    rintro rfl
    exact hnew (Table.find_eq_some.mp hk).1
  refine .other (fun he => hne (Option.some.inj he).symm) ?_
  exact (Table.find_insert_of_ne hnew hne).trans hk

/-- **What an approval does.** Whoever speaks has not spoken before, so the escrow is not ratified yet. -/
theorem escrowApprove_result {o : EscrowApprove} (h : s.escrowApprove o = .ok s') :
    ∃ e, s.escrows.find o.key = some e ∧ o.to_ = e.to_ ∧ o.agent = e.agent ∧
      (o.who = e.to_ ∨ o.who = e.agent) ∧ e.isApproved = false ∧
      if o.approve = false then
        s'.escrows = s.escrows.erase o.key ∧ ∀ a, (s'.accounts.row a).balance - (s.accounts.row a).balance =
          if a = o.from_ then (e.tokenBalance : Int) + e.pendingFee else 0
      else
        s'.escrows = s.escrows.modify o.key
          (approveEscrow (e.toApproved || decide (o.who = e.to_)) (e.agentApproved || decide (o.who = e.agent))) ∧
        ∀ a, (s'.accounts.row a).balance - (s.accounts.row a).balance = if a = e.agent ∧
          ((e.toApproved || decide (o.who = e.to_)) && (e.agentApproved || decide (o.who = e.agent))) = true
            then (e.pendingFee : Int) else 0 := by
  simp only [escrowApprove, bind_eq_ok, require_eq_ok, requireIf_eq_ok, getEscrow_eq_ok] at h
  obtain ⟨-, hwho, e, ⟨hmem, he⟩, -, ⟨hto, hagent⟩, -, -, -, htoOpen, -, hagentOpen, h⟩ := h
  have hopen : e.isApproved = false := by
    unfold Escrow.isApproved
    cases hwho with
    | inl hw => rw [htoOpen (decide_eq_true hw), Bool.false_and]
    | inr hw => rw [hagentOpen (decide_eq_true hw), Bool.and_false]
  rw [← hto, ← hagent] at hwho
  refine ⟨e, Table.find_eq_some.mpr ⟨hmem, he⟩, hto.symm, hagent.symm, hwho, hopen, ?_⟩
  by_cases hno : o.approve = false
  · rw [if_pos hno] at h ⊢
    simp only [bind_eq_ok, pure_eq_ok] at h
    obtain ⟨-, -, rfl⟩ := h
    exact ⟨rfl, fun a => refund_balance⟩
  · rw [if_neg hno] at h ⊢
    rw [← hto, ← hagent] at h
    by_cases hboth : ((e.toApproved || decide (o.who = e.to_)) && (e.agentApproved || decide (o.who = e.agent))) = true
    · -- the second approval pays the agent
      rw [if_pos hboth] at h
      simp only [bind_eq_ok, pure_eq_ok] at h
      obtain ⟨-, -, s₁, rfl, rfl⟩ := h
      refine ⟨rfl, fun a => credit_balance.trans ?_⟩
      simp only [hboth, and_true]
    · rw [if_neg hboth] at h
      simp only [bind_eq_ok, pure_eq_ok] at h
      obtain ⟨s₁, rfl, rfl⟩ := h
      refine ⟨rfl, fun a => ?_⟩
      rw [if_neg (fun hb => hboth hb.2)]
      exact sub_self _

theorem escrowApprove_turn {o : EscrowApprove} (h : s.escrowApprove o = .ok s')
    (hk : s.escrows.find k = some e) : EscrowTurn k e ⟨s, .approve o, s'⟩ := by
  obtain ⟨e', he', hto, hagent, hwho, hopen, hresult⟩ := escrowApprove_result h
  by_cases hkey : o.key = k
  · subst hkey
    obtain rfl := Option.some.inj (hk.symm.trans he')
    by_cases hno : o.approve = false
    · rw [if_pos hno] at hresult
      refine .returned (.inl ⟨o, rfl, hno⟩) hopen ?_ (fun a => (pays_of_key rfl).trans (hresult.2 a))
      rw [hresult.1]
      exact Table.find_erase_self
    · rw [if_neg hno] at hresult
      have hyes : o.approve = true := by simpa using hno
      refine .ratified rfl rfl hyes hwho hto hagent hopen ?_ (fun a => (pays_of_key rfl).trans (hresult.2 a))
      obtain ⟨hmem, hrow⟩ := Table.find_eq_some.mp hk
      rw [hresult.1, Table.find_modify_self hmem, hrow]
  · refine .other (fun he => hkey (Option.some.inj he)) ?_
    refine Eq.trans ?_ hk
    have hne : k ≠ o.key := fun he => hkey he.symm
    by_cases hno : o.approve = false
    · rw [if_pos hno] at hresult
      rw [hresult.1]
      exact Table.find_erase_of_ne hne
    · rw [if_neg hno] at hresult
      rw [hresult.1]
      exact Table.find_modify_of_ne hne

theorem escrowDispute_turn {from_ to_ agent who : AccountName} {n : Nat}
    (h : s.escrowDispute from_ to_ agent who n = .ok s') (hk : s.escrows.find k = some e) :
    EscrowTurn k e ⟨s, .dispute from_ to_ agent who n, s'⟩ := by
  simp only [escrowDispute, bind_eq_ok, require_eq_ok, pure_eq_ok, getEscrow_eq_ok] at h
  obtain ⟨-, -, -, -, e', ⟨hmem, he'⟩, -, -, -, hopen, -, -, -, -, rfl⟩ := h
  by_cases hkey : (from_, n) = k
  · subst hkey
    obtain rfl : e' = e := he'.symm.trans (Table.find_eq_some.mp hk).2
    refine .disputed rfl rfl hopen ?_ (fun a => (pays_of_key rfl).trans (sub_self _))
    exact (Table.find_modify_self hmem).trans (by rw [he'])
  · refine .other (fun he => hkey (Option.some.inj he)) ?_
    exact (Table.find_modify_of_ne (fun he => hkey he.symm)).trans hk

/-- **What a release does.** -/
theorem escrowRelease_result {o : EscrowRelease} (h : s.escrowRelease o = .ok s') :
    ∃ e, s.escrows.find o.key = some e ∧ e.isApproved = true ∧ o.tokenAmount ≤ e.tokenBalance ∧
      (o.receiver = o.from_ ∨ o.receiver = e.to_) ∧ (e.disputed = true → o.who = e.agent) ∧
      (∀ j, s'.escrows.find j = if j = o.key then
        (if e.tokenBalance - o.tokenAmount = 0 then none
          else some { e with tokenBalance := e.tokenBalance - o.tokenAmount }) else s.escrows.find j) ∧
      ∀ a, (s'.accounts.row a).balance - (s.accounts.row a).balance =
        if a = o.receiver then (o.tokenAmount : Int) else 0 := by
  simp only [escrowRelease, bind_eq_ok, require_eq_ok, getEscrow_eq_ok] at h
  obtain ⟨-, -, -, -, -, -, e, ⟨hmem, he⟩, -, hle, -, -, -, hreceiver, -, hopen, -, hmay, h⟩ := h
  have hwho : e.disputed = true → o.who = e.agent := by
    intro hd
    unfold mayRelease at hmay
    rwa [if_pos hd] at hmay
  refine ⟨e, Table.find_eq_some.mpr ⟨hmem, he⟩, hopen, hle, hreceiver, hwho, ?_⟩
  by_cases hend : e.tokenBalance - o.tokenAmount = 0
  · rw [if_pos hend, pure_eq_ok] at h
    rw [← h]
    refine ⟨fun j => ?_, fun a => credit_balance⟩
    by_cases hj : j = o.key
    · rw [if_pos hj, if_pos hend, hj]
      exact Table.find_erase_self
    · rw [if_neg hj]
      exact (Table.find_erase_of_ne hj).trans (Table.find_modify_of_ne hj)
  · rw [if_neg hend, pure_eq_ok] at h
    rw [← h]
    refine ⟨fun j => ?_, fun a => credit_balance⟩
    by_cases hj : j = o.key
    · rw [if_pos hj, if_neg hend, hj]
      exact (Table.find_modify_self hmem).trans (by rw [he])
    · rw [if_neg hj]
      exact Table.find_modify_of_ne hj

theorem escrowRelease_turn {o : EscrowRelease} (h : s.escrowRelease o = .ok s')
    (hk : s.escrows.find k = some e) : EscrowTurn k e ⟨s, .release o, s'⟩ := by
  obtain ⟨e', he', hopen, hle, hreceiver, hwho, hfind, hpays⟩ := escrowRelease_result h
  by_cases hkey : o.key = k
  · subst hkey
    obtain rfl := Option.some.inj (hk.symm.trans he')
    exact .released rfl rfl hopen hwho hreceiver hle ((hfind o.key).trans (if_pos rfl))
      (fun a => (pays_of_key rfl).trans (hpays a))
  · refine .other (fun he => hkey (Option.some.inj he)) ?_
    exact ((hfind k).trans (if_neg (fun he => hkey he.symm))).trans hk

theorem expireEscrow_turn {j : AccountName × Nat} (hl : s.Lapsed j) (h : s.expireEscrow j = .ok s')
    (hk : s.escrows.find k = some e) : EscrowTurn k e ⟨s, .expire j, s'⟩ := by
  simp only [expireEscrow, bind_eq_ok, pure_eq_ok] at h
  obtain ⟨-, -, rfl⟩ := h
  by_cases hkey : j = k
  · subst hkey
    obtain ⟨-, hrow⟩ := Table.find_eq_some.mp hk
    obtain ⟨-, hopen, -⟩ := hl
    rw [hrow] at hopen
    refine .returned (.inr rfl) hopen Table.find_erase_self (fun a => (pays_of_key rfl).trans ?_)
    rw [← hrow]
    exact refund_balance
  · refine .other (fun he => hkey (Option.some.inj he)) ?_
    exact (Table.find_erase_of_ne (fun he => hkey he.symm)).trans hk

/-- **Every move is a turn.** -/
theorem Moved.turn (h : Moved m s s') (hk : s.escrows.find k = some e) : EscrowTurn k e ⟨s, m, s'⟩ := by
  cases h with
  | transfer h  => exact escrowTransfer_turn h hk
  | approve h   => exact escrowApprove_turn h hk
  | dispute h   => exact escrowDispute_turn h hk
  | release h   => exact escrowRelease_turn h hk
  | expire hl h => exact expireEscrow_turn hl h hk
  | aside h     => exact .other (fun he => by cases he) ((congrArg (fun t => t.find k) h).trans hk)

end Turns

/-! ## Standing -/

/-- The approval of `who`. -/
def EscrowTransfer.approval (o : EscrowTransfer) (who : AccountName) : EscrowApprove :=
  { from_ := o.from_, to_ := o.to_, agent := o.agent, who := who, escrowId := o.escrowId, approve := true }

/-- The sender, the receiver and the agent. -/
def EscrowTransfer.parties (o : EscrowTransfer) : Finset AccountName := {o.from_, o.to_, o.agent}

def ApprovedBy (o : EscrowTransfer) (who : AccountName) (steps : List EscrowStep) : Prop :=
  ∃ st ∈ steps, st.move = .approve (o.approval who)

/-- Both the receiver and the agent have approved. -/
def Ratified (o : EscrowTransfer) (steps : List EscrowStep) : Prop :=
  ApprovedBy o o.to_ steps ∧ ApprovedBy o o.agent steps

def Disputed (o : EscrowTransfer) (steps : List EscrowStep) : Prop :=
  ∃ st ∈ steps, ∃ to_ agent who, st.move = .dispute o.from_ to_ agent who o.escrowId

/-- `f` is `x` in one step and nothing in all others. -/
def Once (steps : List EscrowStep) (f : EscrowStep → Int) (x : Int) : Prop :=
  ∃ before st after, steps = before ++ st :: after ∧ f st = x ∧ ∀ y ∈ before ++ after, f y = 0

/-- **The standing of an open escrow**, and what it has paid by then. -/
structure EscrowStanding (o : EscrowTransfer) (steps : List EscrowStep) (e : Escrow) : Prop where
  receiver         : e.to_ = o.to_
  agent            : e.agent = o.agent
  receiverApproved : e.toApproved = true ↔ ApprovedBy o o.to_ steps
  agentApproved    : e.agentApproved = true ↔ ApprovedBy o o.agent steps
  disputed         : Disputed o steps → e.disputed = true
  conserved        : (∑ a ∈ o.parties, paid o.key steps a) + (e.tokenBalance + e.pendingFee) = o.tokenAmount + o.fee
  nobodyElse       : ∀ a ∉ o.parties, paid o.key steps a = 0
  /-- Until it is ratified nothing has been paid. -/
  waiting          : e.isApproved = false → e.tokenBalance = o.tokenAmount ∧ e.pendingFee = o.fee ∧
                       ∀ st ∈ steps, ∀ a, st.pays o.key a = 0
  settled          : e.isApproved = true → Once steps (fun st => st.pays o.key o.agent) o.fee

section Standing

variable {o : EscrowTransfer} {e e' : Escrow} {steps : List EscrowStep} {st : EscrowStep} {who : AccountName}

@[simp] theorem paid_nil : paid k [] a = 0 := rfl

theorem paid_concat : paid k (steps ++ [st]) a = paid k steps a + st.pays k a := by
  unfold paid
  rw [List.map_append, List.sum_append, List.map_singleton, List.sum_singleton]

theorem sum_paid_concat : (∑ a ∈ o.parties, paid k (steps ++ [st]) a) =
    (∑ a ∈ o.parties, paid k steps a) + ∑ a ∈ o.parties, st.pays k a := by
  rw [← Finset.sum_add_distrib]
  exact Finset.sum_congr rfl (fun a _ => paid_concat)

theorem approvedBy_concat :
    ApprovedBy o who (steps ++ [st]) ↔ ApprovedBy o who steps ∨ st.move = .approve (o.approval who) := by
  unfold ApprovedBy
  simp only [List.mem_append, List.mem_singleton, or_and_right, exists_or, exists_eq_left]

theorem Once.concat {f : EscrowStep → Int} {x : Int} (h : Once steps f x) (hst : f st = 0) :
    Once (steps ++ [st]) f x := by
  obtain ⟨before, y, after, rfl, hy, hrest⟩ := h
  refine ⟨before, y, after ++ [st], by simp, hy, ?_⟩
  intro z hz
  rw [← List.append_assoc] at hz
  rcases List.mem_append.mp hz with hz | hz
  · exact hrest z hz
  · rw [List.mem_singleton.mp hz]
    exact hst

theorem Once.last {f : EscrowStep → Int} {x : Int} (h : ∀ y ∈ steps, f y = 0) (hst : f st = x) :
    Once (steps ++ [st]) f x := by
  refine ⟨steps, st, [], rfl, hst, ?_⟩
  rw [List.append_nil]
  exact h

/-- What is paid to one party is paid to the parties. -/
theorem sum_to_party {b : AccountName} {x : Int} (hb : b ∈ o.parties) :
    (∑ a ∈ o.parties, if a = b then x else 0) = x := by
  rw [Finset.sum_ite_eq' o.parties b, if_pos hb]

theorem ne_of_not_party {b : AccountName} (hb : b ∈ o.parties) (ha : a ∉ o.parties) : a ≠ b :=
  fun he => ha (he ▸ hb)

theorem sender_party : o.key.1 ∈ o.parties := Finset.mem_insert_self _ _

theorem receiver_party : o.to_ ∈ o.parties := Finset.mem_insert_of_mem (Finset.mem_insert_self _ _)

theorem agent_party : o.agent ∈ o.parties :=
  Finset.mem_insert_of_mem (Finset.mem_insert_of_mem (Finset.mem_singleton_self _))

/-- A step without a payment. -/
theorem EscrowStanding.quiet (hs : EscrowStanding o steps e) (hpays : ∀ a, st.pays o.key a = 0)
    (hto : e'.to_ = e.to_) (hagent : e'.agent = e.agent)
    (hreceiver : e'.toApproved = true ↔ ApprovedBy o o.to_ (steps ++ [st]))
    (happroved : e'.agentApproved = true ↔ ApprovedBy o o.agent (steps ++ [st]))
    (hdisputed : Disputed o (steps ++ [st]) → e'.disputed = true)
    (hbalance : e'.tokenBalance = e.tokenBalance) (hfee : e'.pendingFee = e.pendingFee)
    (hopen : e'.isApproved = e.isApproved) : EscrowStanding o (steps ++ [st]) e' where
  receiver         := hto.trans hs.receiver
  agent            := hagent.trans hs.agent
  receiverApproved := hreceiver
  agentApproved    := happroved
  disputed         := hdisputed
  conserved        := by
    rw [sum_paid_concat, hbalance, hfee, Finset.sum_eq_zero (fun a _ => hpays a), add_zero]
    exact hs.conserved
  nobodyElse       := by
    intro a ha
    rw [paid_concat, hs.nobodyElse a ha, hpays a, add_zero]
  waiting          := by
    intro hw
    obtain ⟨h₁, h₂, h₃⟩ := hs.waiting (hopen.symm.trans hw)
    refine ⟨hbalance.trans h₁, hfee.trans h₂, ?_⟩
    intro y hy
    rcases List.mem_append.mp hy with hy | hy
    · exact h₃ y hy
    · rw [List.mem_singleton.mp hy]
      exact hpays
  settled          := fun hd => (hs.settled (hopen.symm.trans hd)).concat (hpays _)

/-- Who has approved is seen in the marks. -/
theorem EscrowStanding.isApproved_iff (hs : EscrowStanding o steps e) : e.isApproved = true ↔ Ratified o steps := by
  unfold Escrow.isApproved Ratified
  rw [Bool.and_eq_true, hs.receiverApproved, hs.agentApproved]

theorem approveEscrow_marks {x y : Bool} :
    (approveEscrow x y e).to_ = e.to_ ∧ (approveEscrow x y e).agent = e.agent ∧
      (approveEscrow x y e).toApproved = x ∧ (approveEscrow x y e).agentApproved = y ∧
      (approveEscrow x y e).disputed = e.disputed ∧ (approveEscrow x y e).tokenBalance = e.tokenBalance ∧
      (approveEscrow x y e).pendingFee = if (x && y) = true then 0 else e.pendingFee := by
  unfold approveEscrow
  by_cases h : x = true ∧ y = true
  · rw [dif_pos h, if_pos (Bool.and_eq_true_iff.mpr h)]
    exact ⟨rfl, rfl, rfl, rfl, rfl, rfl, rfl⟩
  · rw [dif_neg h, if_neg (fun hb => h (Bool.and_eq_true_iff.mp hb))]
    exact ⟨rfl, rfl, rfl, rfl, rfl, rfl, rfl⟩

theorem disputed_concat (h : Disputed o (steps ++ [st])) (hst : ∀ to_ agent who,
    st.move ≠ .dispute o.from_ to_ agent who o.escrowId) : Disputed o steps := by
  obtain ⟨y, hy, to_, agent, who, hm⟩ := h
  rcases List.mem_append.mp hy with hy | hy
  · exact ⟨y, hy, to_, agent, who, hm⟩
  · rw [List.mem_singleton.mp hy] at hm
    exact absurd hm (hst to_ agent who)

/-- A step that is not an approval of this escrow leaves the approvals as they are. -/
theorem approvedBy_concat_of_ne (h : ∀ who, st.move ≠ .approve (o.approval who)) :
    ApprovedBy o who (steps ++ [st]) ↔ ApprovedBy o who steps :=
  approvedBy_concat.trans (or_iff_left (h who))

/-- An approval that fits the escrow is one of its approvals. -/
theorem eq_approval {q : EscrowApprove} (hk : q.key = o.key) (hyes : q.approve = true) (hto : q.to_ = o.to_)
    (hagent : q.agent = o.agent) : q = o.approval q.who := by
  obtain ⟨from_, to_, agent, who, n, yes⟩ := q
  obtain ⟨hf, hn⟩ := Prod.mk.inj hk
  dsimp only at hf hn hyes hto hagent
  rw [hf, hn, hyes, hto, hagent]
  rfl

theorem approve_eq_iff {q : EscrowApprove} (hq : q = o.approval q.who) :
    EscrowMove.approve q = .approve (o.approval who) ↔ q.who = who := by
  constructor
  · intro h
    exact congrArg EscrowApprove.who (EscrowMove.approve.inj h)
  · rintro rfl
    rw [← hq]

/-- **A party ratifies.** -/
theorem EscrowStanding.ratified (hs : EscrowStanding o steps e) {q : EscrowApprove} (hm : st.move = .approve q)
    (hk : q.key = o.key) (hyes : q.approve = true) (hto : q.to_ = e.to_) (hagent : q.agent = e.agent)
    (hopen : e.isApproved = false)
    (hpays : ∀ a, st.pays o.key a = if a = e.agent ∧
      ((e.toApproved || decide (q.who = e.to_)) && (e.agentApproved || decide (q.who = e.agent))) = true
        then (e.pendingFee : Int) else 0) :
    EscrowStanding o (steps ++ [st]) (approveEscrow (e.toApproved || decide (q.who = e.to_))
      (e.agentApproved || decide (q.who = e.agent)) e) := by
  have hq : q = o.approval q.who := eq_approval hk hyes (hto.trans hs.receiver) (hagent.trans hs.agent)
  -- the marks follow the approvals
  have hreceiver : (e.toApproved || decide (q.who = e.to_)) = true ↔ ApprovedBy o o.to_ (steps ++ [st]) := by
    rw [approvedBy_concat, hm, approve_eq_iff hq, Bool.or_eq_true, hs.receiverApproved, decide_eq_true_iff,
      hs.receiver]
  have happroved : (e.agentApproved || decide (q.who = e.agent)) = true ↔ ApprovedBy o o.agent (steps ++ [st]) := by
    rw [approvedBy_concat, hm, approve_eq_iff hq, Bool.or_eq_true, hs.agentApproved, decide_eq_true_iff, hs.agent]
  have hdisputed : Disputed o (steps ++ [st]) → e.disputed = true := fun hd =>
    hs.disputed (disputed_concat hd (fun to_ agent who he => by rw [hm] at he; cases he))
  obtain ⟨hbalance, hfee, hnone⟩ := hs.waiting hopen
  generalize (e.toApproved || decide (q.who = e.to_)) = x at *
  generalize (e.agentApproved || decide (q.who = e.agent)) = y at *
  obtain ⟨m₁, m₂, m₃, m₄, m₅, m₆, m₇⟩ := approveEscrow_marks (x := x) (y := y) (e := e)
  by_cases hboth : (x && y) = true
  · -- the fee is paid, and never before
    have hpays : ∀ a, st.pays o.key a = if a = o.agent then (o.fee : Int) else 0 := by
      intro a
      rw [hpays a, hs.agent, hfee]
      simp only [hboth, and_true]
    rw [if_pos hboth] at m₇
    refine ⟨m₁.trans hs.receiver, m₂.trans hs.agent, by rw [m₃]; exact hreceiver, by rw [m₄]; exact happroved,
      fun hd => m₅.trans (hdisputed hd), ?_, ?_, ?_, ?_⟩
    · have hc := hs.conserved
      rw [sum_paid_concat, Finset.sum_congr rfl (fun a _ => hpays a), sum_to_party agent_party, m₆, m₇]
      rw [hfee] at hc
      push_cast
      omega
    · intro a ha
      rw [paid_concat, hs.nobodyElse a ha, hpays a, if_neg (ne_of_not_party agent_party ha), add_zero]
    · intro hw
      unfold Escrow.isApproved at hw
      rw [m₃, m₄, hboth] at hw
      exact absurd hw (by decide)
    · intro _
      refine Once.last (fun y hy => hnone y hy _) ?_
      rw [hpays, if_pos rfl]
  · have hpays : ∀ a, st.pays o.key a = 0 := fun a => (hpays a).trans (if_neg (fun hb => hboth hb.2))
    rw [if_neg hboth] at m₇
    refine hs.quiet hpays m₁ m₂ (by rw [m₃]; exact hreceiver) (by rw [m₄]; exact happroved)
      (fun hd => m₅.trans (hdisputed hd)) m₆ m₇ ?_
    rw [hopen]
    unfold Escrow.isApproved
    rw [m₃, m₄]
    simpa using hboth

/-- **A release** that leaves something. -/
theorem EscrowStanding.released (hs : EscrowStanding o steps e) {r : EscrowRelease} (hm : st.move = .release r)
    (hopen : e.isApproved = true) (hreceiver : r.receiver = o.key.1 ∨ r.receiver = e.to_)
    (hne : o.from_ ≠ o.agent ∧ o.to_ ≠ o.agent) (hle : r.tokenAmount ≤ e.tokenBalance)
    (hpays : ∀ a, st.pays o.key a = if a = r.receiver then (r.tokenAmount : Int) else 0) :
    EscrowStanding o (steps ++ [st]) { e with tokenBalance := e.tokenBalance - r.tokenAmount } := by
  have hnot : ∀ who, st.move ≠ .approve (o.approval who) := fun who he => by rw [hm] at he; cases he
  have hparty : r.receiver ∈ o.parties := by
    rcases hreceiver with h | h
    · rw [h]
      exact sender_party
    · rw [h, hs.receiver]
      exact receiver_party
  have hagent : o.agent ≠ r.receiver := by
    rcases hreceiver with h | h
    · rw [h]
      exact hne.1.symm
    · rw [h, hs.receiver]
      exact hne.2.symm
  refine ⟨hs.receiver, hs.agent, hs.receiverApproved.trans (approvedBy_concat_of_ne hnot).symm,
    hs.agentApproved.trans (approvedBy_concat_of_ne hnot).symm, ?_, ?_, ?_, ?_, ?_⟩
  · intro hd
    exact hs.disputed (disputed_concat hd (fun to_ agent who he => by rw [hm] at he; cases he))
  · have hc := hs.conserved
    rw [sum_paid_concat, Finset.sum_congr rfl (fun a _ => hpays a), sum_to_party hparty]
    dsimp only
    rw [Nat.cast_sub hle]
    omega
  · intro a ha
    rw [paid_concat, hs.nobodyElse a ha, hpays a, if_neg (ne_of_not_party hparty ha), add_zero]
  · intro hw
    exact absurd (hopen.symm.trans hw) (by decide)
  · intro _
    refine (hs.settled hopen).concat ?_
    rw [hpays, if_neg hagent]

/-- **A turn keeps the standing** of an escrow that stays open. -/
theorem EscrowStanding.turn (hs : EscrowStanding o steps e) (hne : o.from_ ≠ o.agent ∧ o.to_ ≠ o.agent)
    (ht : EscrowTurn o.key e st) (hafter : st.after.escrows.find o.key = some e') :
    EscrowStanding o (steps ++ [st]) e' := by
  cases ht with
  | other hk hsame =>
      obtain rfl := Option.some.inj (hsame.symm.trans hafter)
      have hnot : ∀ who, st.move ≠ .approve (o.approval who) := fun who he => hk (by rw [he]; rfl)
      refine hs.quiet (fun a => if_neg hk) rfl rfl (hs.receiverApproved.trans (approvedBy_concat_of_ne hnot).symm)
        (hs.agentApproved.trans (approvedBy_concat_of_ne hnot).symm) ?_ rfl rfl rfl
      intro hd
      exact hs.disputed (disputed_concat hd (fun to_ agent who he => hk (by rw [he]; rfl)))
  | ratified hm hk hyes hwho hto hagent hopen hfind hpays =>
      obtain rfl := Option.some.inj (hfind.symm.trans hafter)
      exact hs.ratified hm hk hyes hto hagent hopen hpays
  | returned hm hopen hgone hpays => exact absurd (hgone.symm.trans hafter) (by simp)
  | disputed hm hk hopen hfind hpays =>
      obtain rfl := Option.some.inj (hfind.symm.trans hafter)
      have hnot : ∀ who, st.move ≠ .approve (o.approval who) := fun who he => by rw [hm] at he; cases he
      exact hs.quiet hpays rfl rfl (hs.receiverApproved.trans (approvedBy_concat_of_ne hnot).symm)
        (hs.agentApproved.trans (approvedBy_concat_of_ne hnot).symm) (fun _ => rfl) rfl rfl rfl
  | released hm hk hopen hwho hreceiver hle hfind hpays =>
      -- the last of it would have closed the escrow
      rw [hfind] at hafter
      split at hafter
      · cases hafter
      · obtain rfl := Option.some.inj hafter
        exact hs.released hm hopen hreceiver hne hle hpays

/-- The standing of a new escrow. -/
theorem escrowTransfer_standing (h : s₀.escrowTransfer o = .ok s) :
    (o.from_ ≠ o.agent ∧ o.to_ ≠ o.agent) ∧ ∃ e, s.escrows.find o.key = some e ∧ EscrowStanding o [] e := by
  simp only [escrowTransfer, bind_eq_ok, require_eq_ok, pure_eq_ok] at h
  obtain ⟨-, ⟨hf, ht, -⟩, -, -, -, -, -, -, -, -, -, -, -, hnew, rfl⟩ := h
  refine ⟨⟨hf, ht⟩, _, Table.find_insert_self hnew, ?_⟩
  have hnobody : ∀ who, ¬ ApprovedBy o who [] := by
    rintro who ⟨_, hmem, _⟩
    exact absurd hmem List.not_mem_nil
  refine ⟨rfl, rfl, iff_of_false Bool.false_ne_true (hnobody _),
    iff_of_false Bool.false_ne_true (hnobody _), ?_, ?_, fun _ _ => rfl,
    fun _ => ⟨rfl, rfl, fun _ hmem => absurd hmem List.not_mem_nil⟩, fun hd => absurd hd Bool.false_ne_true⟩
  · rintro ⟨_, hmem, _⟩
    exact absurd hmem List.not_mem_nil
  · rw [Finset.sum_eq_zero (fun a _ => paid_nil), zero_add]

/-- **The standing is kept for life.** -/
theorem Life.standing (hopen : s₀.escrowTransfer o = .ok s) (h : Life o.key s steps s') :
    ∀ e, s'.escrows.find o.key = some e → EscrowStanding o steps e := by
  obtain ⟨hne, e₀, he₀, hs₀⟩ := escrowTransfer_standing hopen
  induction h with
  | start =>
      intro e he
      rw [← Option.some.inj (he₀.symm.trans he)]
      exact hs₀
  | step h hk hm ih =>
      intro e he
      have hfind := Table.find_eq_some.mpr ⟨hk, rfl⟩
      exact (ih _ hfind).turn hne (hm.turn hfind) he

end Standing

/-! ## The law of escrows -/

/-- **The law** of an escrow over its life. -/
structure EscrowLaw (o : EscrowTransfer) (steps : List EscrowStep) (s' : Ledger) : Prop where
  /-- What the parties were paid and what is still held is what the sender put in. -/
  conserved   : (∑ a ∈ o.parties, paid o.key steps a) + s'.escrowHolds o.key = o.tokenAmount + o.fee
  nobodyElse  : ∀ a ∉ o.parties, paid o.key steps a = 0
  /-- Both have approved: the agent is paid the fee once. -/
  feePaid     : Ratified o steps → Once steps (fun st => st.pays o.key o.agent) o.fee
  /-- Otherwise the sender gets it back once, with the amount, when the escrow ends; until then nobody gets
      anything. -/
  feeRefunded : ¬ Ratified o steps →
    if o.key ∈ s'.escrows.keys then ∀ st ∈ steps, ∀ a, st.pays o.key a = 0
    else Once steps (fun st => st.pays o.key o.from_) (o.tokenAmount + o.fee) ∧
      ∀ a ≠ o.from_, ∀ st ∈ steps, st.pays o.key a = 0
  /-- After both approvals, a step that pays or ends the escrow is a release. -/
  onlyRelease : ∀ before st after, steps = before ++ st :: after → Ratified o before →
    (∃ a, st.pays o.key a ≠ 0) ∨ o.key ∉ st.after.escrows.keys → ∃ r, st.move = .release r ∧ r.key = o.key
  onlyAgent   : ∀ before st after, steps = before ++ st :: after → Disputed o before →
    ∀ r, st.move = .release r → r.key = o.key → r.who = o.agent

section Law

variable {o : EscrowTransfer} {e : Escrow} {steps before after : List EscrowStep} {st : EscrowStep}

/-- A ratified escrow moves by releases. -/
theorem EscrowTurn.release_of_ratified (ht : EscrowTurn k e st) (happ : e.isApproved = true)
    (hmoves : (∃ a, st.pays k a ≠ 0) ∨ k ∉ st.after.escrows.keys) : ∃ r, st.move = .release r ∧ r.key = k := by
  -- a turn that leaves the escrow and pays nobody is none of those
  have hquiet : ∀ e', st.after.escrows.find k = some e' → (∀ a, st.pays k a = 0) → False := by
    intro e' hfind hpays
    rcases hmoves with ⟨a, ha⟩ | hgone
    · exact ha (hpays a)
    · exact hgone (Table.find_eq_some.mp hfind).1
  cases ht with
  | other hk hafter => exact (hquiet e hafter (fun a => if_neg hk)).elim
  | ratified hm hk hyes hwho hto hagent hopen hafter hpays => exact absurd (happ.symm.trans hopen) (by decide)
  | returned hm hopen hafter hpays => exact absurd (happ.symm.trans hopen) (by decide)
  | disputed hm hk hopen hafter hpays => exact (hquiet _ hafter hpays).elim
  | released hm hk hopen hwho hreceiver hle hafter hpays => exact ⟨_, hm, hk⟩

/-- A disputed escrow is released by its agent. -/
theorem EscrowTurn.agent_of_disputed (ht : EscrowTurn k e st) (hd : e.disputed = true) {r : EscrowRelease}
    (hm : st.move = .release r) (hk : r.key = k) : r.who = e.agent := by
  cases ht with
  | other hother hafter => exact absurd (by rw [hm, ← hk]; rfl) hother
  | ratified hm' => exact absurd (hm.symm.trans hm') (by simp)
  | returned hm' =>
      rcases hm' with ⟨q, hm', -⟩ | hm'
      · exact absurd (hm.symm.trans hm') (by simp)
      · exact absurd (hm.symm.trans hm') (by simp)
  | disputed hm' => exact absurd (hm.symm.trans hm') (by simp)
  | released hm' hk' hopen hwho =>
      obtain rfl := EscrowMove.release.inj (hm.symm.trans hm')
      exact hwho hd

/-- What an escrow has paid when it is closed. -/
theorem EscrowStanding.closes (hs : EscrowStanding o steps e) (hne : o.from_ ≠ o.agent ∧ o.to_ ≠ o.agent)
    (ht : EscrowTurn o.key e st) (hgone : st.after.escrows.find o.key = none) :
    (∑ a ∈ o.parties, paid o.key (steps ++ [st]) a) = o.tokenAmount + o.fee ∧
    (∀ a ∉ o.parties, paid o.key (steps ++ [st]) a = 0) ∧
    (Ratified o (steps ++ [st]) → Once (steps ++ [st]) (fun st => st.pays o.key o.agent) o.fee) ∧
    (¬ Ratified o (steps ++ [st]) →
      Once (steps ++ [st]) (fun st => st.pays o.key o.from_) (o.tokenAmount + o.fee) ∧
        ∀ a ≠ o.from_, ∀ y ∈ steps ++ [st], y.pays o.key a = 0) := by
  cases ht with
  | other hk hafter => exact absurd (hgone.symm.trans hafter) (by simp)
  | ratified hm hk hyes hwho hto hagent hopen hafter hpays => exact absurd (hgone.symm.trans hafter) (by simp)
  | disputed hm hk hopen hafter hpays => exact absurd (hgone.symm.trans hafter) (by simp)
  | returned hm hopen hafter hpays =>
      obtain ⟨hbalance, hfee, hnone⟩ := hs.waiting hopen
      rw [hbalance, hfee] at hpays
      have hnot : ∀ who, st.move ≠ .approve (o.approval who) := by
        intro who he
        rcases hm with ⟨q, hm, hno⟩ | hm
        · obtain rfl := EscrowMove.approve.inj (hm.symm.trans he)
          cases hno
        · exact absurd (hm.symm.trans he) (by simp)
      have hopen' : ¬ Ratified o (steps ++ [st]) := by
        rintro ⟨h₁, h₂⟩
        have hr := hs.isApproved_iff.mpr ⟨(approvedBy_concat_of_ne hnot).mp h₁, (approvedBy_concat_of_ne hnot).mp h₂⟩
        exact absurd (hr.symm.trans hopen) (by decide)
      refine ⟨?_, ?_, fun hr => absurd hr hopen', fun _ => ⟨?_, ?_⟩⟩
      · have hc := hs.conserved
        rw [sum_paid_concat, Finset.sum_congr rfl (fun a _ => hpays a), sum_to_party sender_party]
        omega
      · intro a ha
        rw [paid_concat, hs.nobodyElse a ha, hpays a, if_neg (ne_of_not_party sender_party ha), add_zero]
      · exact Once.last (fun y hy => hnone y hy _) ((hpays _).trans (if_pos rfl))
      · intro a ha y hy
        rcases List.mem_append.mp hy with hy | hy
        · exact hnone y hy a
        · rw [List.mem_singleton.mp hy, hpays]
          exact if_neg ha
  | released hm hk hopen hwho hreceiver hle hafter hpays =>
      -- the last release leaves nothing, and the fee is gone already
      have hs' := hs.released hm hopen hreceiver hne hle hpays
      rename_i r
      have hlast : e.tokenBalance - r.tokenAmount = 0 := by
        by_contra hleft
        rw [if_neg hleft, hgone] at hafter
        cases hafter
      have hfee : e.pendingFee = 0 := by
        obtain ⟨h₁, h₂⟩ := Bool.and_eq_true_iff.mp hopen
        exact e.feePaid h₁ h₂
      have hr : Ratified o (steps ++ [st]) := hs'.isApproved_iff.mp hopen
      refine ⟨?_, hs'.nobodyElse, fun _ => hs'.settled hopen, fun hn => absurd hr hn⟩
      have hc := hs'.conserved
      dsimp only at hc
      rw [hlast, hfee] at hc
      simpa using hc

/-- **The law of escrows.** Over the life of an escrow, whoever moves it and in whatever order, the tokens it has
    paid and those it holds are those it was given; the agent is paid the fee once if the receiver and the agent
    have approved, and otherwise the sender gets it back once; after both approvals it pays by releases only,
    and after a dispute only the agent releases. -/
theorem escrow_law (hopen : s₀.escrowTransfer o = .ok s) (hlife : Life o.key s steps s') :
    EscrowLaw o steps s' := by
  obtain ⟨hne, e₀, he₀, -⟩ := escrowTransfer_standing hopen
  -- the standing before any step, and the turn it makes
  have hstep : ∀ {before st after}, steps = before ++ st :: after →
      ∃ e, EscrowStanding o before e ∧ EscrowTurn o.key e st := by
    intro before st after hsplit
    obtain ⟨hbefore, hk, hm⟩ := hlife.before hsplit
    have hfind := Table.find_eq_some.mpr ⟨hk, rfl⟩
    exact ⟨_, hbefore.standing hopen _ hfind, hm.turn hfind⟩
  have honlyRelease : ∀ before st after, steps = before ++ st :: after → Ratified o before →
      (∃ a, st.pays o.key a ≠ 0) ∨ o.key ∉ st.after.escrows.keys → ∃ r, st.move = .release r ∧ r.key = o.key := by
    intro before st after hsplit hr
    obtain ⟨e, hs, ht⟩ := hstep hsplit
    exact ht.release_of_ratified (hs.isApproved_iff.mpr hr)
  have honlyAgent : ∀ before st after, steps = before ++ st :: after → Disputed o before →
      ∀ r, st.move = .release r → r.key = o.key → r.who = o.agent := by
    intro before st after hsplit hd r hm hk
    obtain ⟨e, hs, ht⟩ := hstep hsplit
    exact (ht.agent_of_disputed (hs.disputed hd) hm hk).trans hs.agent
  cases hfind : s'.escrows.find o.key with
  | some e =>
      have hs := hlife.standing hopen e hfind
      have hkey := (Table.find_eq_some.mp hfind).1
      refine ⟨?_, hs.nobodyElse, fun hr => hs.settled (hs.isApproved_iff.mpr hr), fun hn => ?_, honlyRelease, honlyAgent⟩
      · unfold escrowHolds
        rw [hfind]
        exact hs.conserved
      · rw [if_pos hkey]
        have hw : e.isApproved = false := by
          rw [← Bool.not_eq_true]
          exact fun ha => hn (hs.isApproved_iff.mp ha)
        exact (hs.waiting hw).2.2
  | none =>
      have hkey := Table.find_eq_none.mp hfind
      cases hlife with
      | start => exact absurd (he₀.symm.trans hfind) (by simp)
      | step h hk hm =>
          obtain ⟨e, hs, ht⟩ := hstep rfl
          obtain ⟨hsum, hnobody, hpaid, hrefund⟩ := hs.closes hne ht hfind
          refine ⟨?_, hnobody, hpaid, fun hn => ?_, honlyRelease, honlyAgent⟩
          · unfold escrowHolds
            rw [hfind, add_zero]
            exact hsum
          · rw [if_neg hkey]
            exact hrefund hn

end Law

namespace Sample

/-- The initiator pays into an escrow; the two others of it are accounts of genesis. -/
def escrow : EscrowTransfer :=
  { from_ := Config.initiatorName, to_ := Config.inviteAccount, agent := Config.committeeAccount, escrowId := 7
    tokenAmount := 500, fee := 20, ratificationDeadline := 1000100, escrowExpiration := 1000200 }

end Sample

/-- Both approve, and the sender releases everything to the receiver. -/
theorem escrow_law_sample : ∃ s steps s', Sample.start.escrowTransfer Sample.escrow = .ok s ∧
    Life Sample.escrow.key s steps s' ∧ steps.length = 3 ∧ EscrowLaw Sample.escrow steps s' := by
  let e := Sample.escrow
  let r : EscrowRelease :=
    { from_ := e.from_, to_ := e.to_, agent := e.agent, who := e.from_, receiver := e.to_, escrowId := e.escrowId
      tokenAmount := 500 }
  obtain ⟨s, hs, ht⟩ := exists_of_passes (r := Sample.start.escrowTransfer e)
    (p := fun s => decide (e.key ∈ s.escrows.keys) && passes (s.escrowApprove (e.approval e.to_)) (fun s₁ =>
      decide (e.key ∈ s₁.escrows.keys) && passes (s₁.escrowApprove (e.approval e.agent)) (fun s₂ =>
        decide (e.key ∈ s₂.escrows.keys) && passes (s₂.escrowRelease r) (fun _ => true)))) (by decide)
  obtain ⟨hk, ht⟩ := Bool.and_eq_true_iff.mp ht
  obtain ⟨s₁, h₁, ht⟩ := exists_of_passes ht
  obtain ⟨hk₁, ht⟩ := Bool.and_eq_true_iff.mp ht
  obtain ⟨s₂, h₂, ht⟩ := exists_of_passes ht
  obtain ⟨hk₂, ht⟩ := Bool.and_eq_true_iff.mp ht
  obtain ⟨s₃, h₃, -⟩ := exists_of_passes ht
  have hlife : Life e.key s _ s₃ :=
    .step (.step (.step .start (of_decide_eq_true hk) (.approve h₁)) (of_decide_eq_true hk₁) (.approve h₂))
      (of_decide_eq_true hk₂) (.release h₃)
  exact ⟨s, _, s₃, hs, hlife, rfl, escrow_law hs hlife⟩

end Ledger

end VizNode
