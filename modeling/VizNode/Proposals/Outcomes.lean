import VizNode.Proposals.Execution
import VizNode.Signing.Sufficiency

/-!
# `VizNode.Proposals.Outcomes` — what becomes of proposals over a run

In a run that disturbs no execution every proposal is executed at most once, completely, and with approvals that were
enough; a block leaves no proposal that has expired, and with enough fuel every step returns.

**A proposal may name itself.** One whose operations take an approval back and give it again begins once more inside
itself, and so on without end, unless the node is producing, which stops at the third update. One that deletes itself
leaves `push_proposal` with a reference to an object that is gone.

## Contents
- **Approvals** that are enough, as `Granted`.
- **Steps.** `Step.settles`, and the invariant of the runs.
- **Outcomes.** `executed_at_most_once`.
- **Proposals that name themselves.**
-/

namespace VizNode

namespace Proposals

open Prog Signing

variable {O L : Type}

/-! ## Approvals -/

/-- The approvals of a proposal that are no keys. -/
def Proposal.approvals (p : Proposal O) : Approvals :=
  { active := p.available.active, master := p.available.master, regular := p.available.regular }

/-- **The stored approvals satisfy what the operations require.** -/
def Proposal.Approved (env : Env O L) (rest : L) (p : Proposal O) : Prop :=
  Granted (p.required env) p.available.keys (env.getters rest) p.approvals

theorem Env.getters_plain (env : Env O L) (rest : L) : (env.getters rest).Plain := by
  refine ⟨?_, ?_, ?_⟩
  all_goals
    intro a
    unfold Env.getters
    dsimp only
    cases env.authority rest a with
    | none => exact Throws.error id
    | some r => exact Throws.ok _

/-- **`is_authorized_to_execute` is right.** -/
theorem Proposal.approved_of_isAuthorizedToExecute {env : Env O L} {rest : L} {p : Proposal O}
    (h : p.isAuthorizedToExecute env rest = true) : p.Approved env rest := by
  have hsuff : Sufficient (p.verifyAuthority env rest {}) → p.Approved env rest :=
    granted_of_sufficient (env.getters_plain rest)
  unfold isAuthorizedToExecute at h
  apply hsuff
  cases hv : p.verifyAuthority env rest {} with
  | ok u => exact trivial
  | error e =>
      rw [hv] at h
      cases e with
      | irrelevantSig unused => exact trivial
      | irrelevantApproval unused => exact trivial
      | unknownAccount name => exact absurd h Bool.false_ne_true
      | mixedWithRegular => exact absurd h Bool.false_ne_true
      | missingRegularAuth accounts used => exact absurd h Bool.false_ne_true
      | missingOtherAuth auths => exact absurd h Bool.false_ne_true
      | missingActiveAuth accounts used => exact absurd h Bool.false_ne_true
      | missingMasterAuth accounts used => exact absurd h Bool.false_ne_true

/-! ## Steps -/

/-- What a step may add to the potential. -/
def Step.weight : Step O L → Nat
  | .transaction ops => Operation.weightAll ops
  | .block _         => 0
  | .aside _         => 0

/-- **The state between two steps.** -/
structure Between (env : Env O L) (s : State O L) : Prop where
  settled   : Settled env s
  executing : s.executing = []
  expired   : s.expired = ∅

/-- **Every step leaves such a state**, unless one of its bounds is too small. -/
theorem Step.settles {env : Env O L} {s : State O L} (h : Between env s) (step : Step O L) (producing : Bool)
    (fuel turns : Nat) :
    Undisturbed (Between env)
      (fun e _ => e = .outOfFuel ∧ (fuel ≤ s.potential + step.weight ∨ turns ≤ s.proposals.keys.length))
      (step.exec env producing fuel turns) s := by
  have hafter : ∀ {w t}, After env w nothing s t → Between env t := by
    intro w t ht
    refine ⟨ht.1, ht.2.executing.trans h.executing, ?_⟩
    exact Finset.subset_empty.mp (h.expired ▸ ht.2.expired)
  cases step with
  | transaction ops =>
      refine .get_bind ?_
      have hundone : Undisturbed (Between env)
          (fun e t => e = .refused ∧ Between env t ∨ e = .outOfFuel ∧ fuel ≤ s.potential + Operation.weightAll ops)
          (tryCatch (applyTransaction env producing fuel ops) (rollback s)) s := by
        refine .tryCatch (rollback_lasting s) ((applyTransaction_advances env producing fuel ops h.settled).mono
          (fun t ht => hafter ht) (fun _ _ ht => ht)) ?_
        intro e t _ ht
        cases e with
        | refused =>
            have hrem : ∀ i ∈ s.executing, t.removals i = s.removals i := ht
            exact .modify_bind (.of_throw (.inl ⟨rfl, hafter (h.settled.restored hrem)⟩))
        | undefined => exact absurd ht id
        | outOfFuel => exact .of_throw (.inr ⟨rfl, ht⟩)
      refine .tryCatch (fun e => Lasting.ite Lasting.of_pure (Lasting.of_throw e)) hundone ?_
      rintro e t - (⟨rfl, ht⟩ | ⟨rfl, hshort⟩)
      · rw [if_pos rfl]
        exact .of_pure ht
      · rw [if_neg (fun he : Halt.outOfFuel = .refused => nomatch he)]
        exact .of_throw ⟨rfl, .inl hshort⟩
  | block now =>
      refine .modify_bind ?_
      have hs := h.settled
      have hset : Settled env { s with now := now } := ⟨hs.fresh, hs.running, hs.known, hs.idle, hs.whole⟩
      refine (clearExpiredProposals_advances env producing fuel turns hset).mono ?_ ?_
      · rintro t ⟨ht, hnone⟩
        exact ⟨ht.1, ht.2.executing.trans h.executing, hnone⟩
      · rintro e t ⟨rfl, hshort | hshort⟩
        · exact ⟨rfl, .inl (Nat.le_of_lt hshort)⟩
        · refine ⟨rfl, .inr (hshort.trans ?_)⟩
          exact (Finset.card_filter_le _ _).trans (List.toFinset_card_le _)
  | aside rest =>
      have hs := h.settled
      have hexpired : ({ s with rest := rest } : State O L).expired = s.expired := rfl
      intro _
      exact ⟨⟨hs.fresh, hs.running, hs.known, hs.idle, hs.whole⟩, h.executing, hexpired.trans h.expired⟩

/-- **Every undisturbed run** leaves such states. -/
theorem Reachable.between {env : Env O L} {s : State O L} (h : Reachable env s) : Between env s := by
  induction h with
  | start rest now =>
      refine ⟨⟨?_, ?_, ?_, ?_, fun _ _ => .inl rfl⟩, rfl, rfl⟩
      · exact fun i hi => absurd hi List.not_mem_nil
      · exact fun i hi => absurd hi List.not_mem_nil
      · exact fun e he => absurd he List.not_mem_nil
      · exact fun i hi => absurd hi List.not_mem_nil
  | @step s s' step producing fuel turns _ hrun hquiet ih =>
      have hq : Quiet (step.exec env producing fuel turns) s := by
        unfold Quiet
        rw [after_ok hrun]
        exact hquiet
      exact (step.settles ih producing fuel turns hq).of_ok hrun

/-! ## Outcomes -/

namespace Sample

/-- A world where every operation requires the active authority of one account, and succeeds. -/
def world : Env AccountName Unit where
  apply            := fun rest _ => some rest
  required         := fun a => { active := [a] }
  validate         := fun _ => true
  validAccountName := fun _ => true
  accountExists    := fun _ _ => true
  authority        := fun _ _ => some (.ofKey 1 0)

def before : State AccountName Unit := { rest := (), now := 10 }

/-- The account `2` approves a proposal of the account `1`, or takes the approval back. -/
def approve (title : String) : Operation AccountName :=
  .update { author := 1, title := title, toAdd := { active := [2] } }

def withdraw (title : String) : Operation AccountName :=
  .update { author := 1, title := title, toRemove := { active := [2] } }

/-- One step of a node that is not producing. -/
def run (step : Step AccountName Unit) (s : State AccountName Unit) : State AccountName Unit :=
  after (step.exec world false 5 5) s

theorem reachable_run {s : State AccountName Unit} (h : Reachable world s) {step : Step AccountName Unit}
    (hok : returned (step.exec world false 5 5) s = some ()) (hquiet : (run step s).disturbed = false) :
    Reachable world (run step s) := .step h (eq_ok_of_returned hok) hquiet

end Sample

namespace Sample

/-- A proposal of two operations is created and approved. -/
def approved : State AccountName Unit :=
  run (.transaction [.create 1 "a" 100 none [.other 2, .other 2], approve "a"]) before

end Sample

section Endless

variable {env : Env O L} {s : State O L} {id : ProposalId}

/-- An update of a proposal without a review period, on a node that is not producing. -/
theorem updateProposal_run {depth : Nat} {apply : Operation O → M O L Unit} {u : Update} {p : Proposal O}
    (hfind : s.findProposal u.author u.title = some id) (hreview : (s.proposals.row id).reviewPeriodTime = none)
    (hwithin : u.toRemove.Within (s.proposals.row id).available) (hapart : u.toAdd.Apart (s.proposals.row id).available)
    (hp : p = { s.proposals.row id with
      available := ((s.proposals.row id).available.add u.toAdd).remove u.toRemove })
    (hright : p.assertIrrelevantProposalAuthority env s.rest u = true) :
    updateProposal env false depth apply u s =
      (if p.isAuthorizedToExecute env s.rest then ignoring (pushProposal apply (s.ref id)) else pure ())
        { s with proposals := s.proposals.modify id (fun _ => p) } := by
  obtain rfl := hp
  have hcheck : ∀ {c : Prop} [Decidable c] (f : Unit → M O L Unit) (t : State O L), c → (check c >>= f) t = f () t := by
    intro c _ f t hc
    unfold check
    rw [if_pos hc]
    rfl
  have hno : ¬ (s.proposals.row id).reviewPeriodTime.isSome = true := by
    rw [hreview]
    exact Bool.false_ne_true
  unfold updateProposal
  rw [hcheck _ _ (fun he => nomatch he), get_bind_run, hfind]
  dsimp only
  rw [hcheck _ _ (by rw [hreview]; exact fun he => nomatch he), hcheck _ _ hwithin, hcheck _ _ hapart]
  rw [bind_run, set_run]
  dsimp only
  rw [if_neg hno, hcheck _ _ hright]

theorem applyAll_ok {apply : Operation O → M O L Unit} {op : Operation O} {t : State O L} (id : ProposalId)
    (ops : List (Operation O)) (h : apply op s = .ok () t) :
    applyAll apply id (op :: ops) s = applyAll apply id ops (t.record id op) := by
  show (apply op >>= _) s = _
  rw [bind_run, h]
  rfl

theorem applyAll_error {apply : Operation O → M O L Unit} {op : Operation O} {e : Halt} {t : State O L}
    (id : ProposalId) (ops : List (Operation O)) (h : apply op s = .error e t) :
    applyAll apply id (op :: ops) s = .error e t := by
  show (apply op >>= _) s = _
  rw [bind_run, h]

/-- A run that is out of fuel inside an execution is out of fuel. -/
theorem pushProposal_outOfFuel {apply : Operation O → M O L Unit} {t : State O L} (hin : id ∈ s.proposals.keys)
    (h : applyAll apply id (s.proposals.row id).operations (s.begin id) = .error .outOfFuel t) :
    pushProposal apply (s.ref id) s = .error .outOfFuel t := by
  unfold pushProposal session
  rw [bind_run, deref_run ⟨hin, rfl⟩]
  dsimp only
  rw [get_bind_run, bind_run, tryCatch_run, bind_run, set_run]
  dsimp only
  rw [bind_run]
  have hall : applyAll apply (s.ref id).id (s.proposals.row (s.ref id).id).operations (s.begin (s.ref id).id) =
      .error .outOfFuel t := h
  rw [hall]
  rfl

end Endless

namespace Sample

/-- A proposal that takes the approval it needs back, and gives it again. -/
def selfApproving (active : List AccountName) : Proposal AccountName where
  author           := 1
  title            := "p"
  expirationTime   := 100
  reviewPeriodTime := none
  operations       := [withdraw "p", approve "p"]
  requiredActive   := [2]
  requiredMaster   := []
  requiredRegular  := []
  available        := { active := active }

/-- A proposal that approves the first one when it expires. -/
def approving : Proposal AccountName where
  author           := 1
  title            := "r"
  expirationTime   := 50
  reviewPeriodTime := some 40
  operations       := [approve "p"]
  requiredActive   := [2]
  requiredMaster   := []
  requiredRegular  := []
  available        := { active := [2] }

/-- The two proposals, and the approvals of the first one. -/
structure Waits (active : List AccountName) (s : State AccountName Unit) : Prop where
  keys : s.proposals.keys = [0, 1]
  zero : s.proposals.row 0 = selfApproving active
  one  : s.proposals.row 1 = approving
  now  : s.now = 50

namespace Waits

variable {s : State AccountName Unit} {active : List AccountName}

theorem find (h : Waits active s) : s.findProposal 1 "p" = some 0 := by
  unfold State.findProposal
  rw [h.keys, List.find?_cons_of_pos]
  rw [h.zero]
  exact decide_eq_true ⟨rfl, rfl⟩

theorem changed (h : Waits active s) (active' : List AccountName) :
    Waits active' { s with proposals := s.proposals.modify 0 (fun _ => selfApproving active') } :=
  ⟨h.keys, rfl, h.one, h.now⟩

/-- The approval is taken back, and the execution goes on. -/
theorem withdraw_run (h : Waits [2] s) (fuel depth : Nat) :
    applyOperation world false (fuel + 1) depth (withdraw "p") s =
      .ok () { s with proposals := s.proposals.modify 0 (fun _ => selfApproving []) } := by
  have hright : (selfApproving []).assertIrrelevantProposalAuthority world ()
      { author := 1, title := "p", toRemove := { active := [2] } } = true := by decide +kernel
  have hauth : ¬ (selfApproving []).isAuthorizedToExecute world () = true := by decide +kernel
  refine (updateProposal_run h.find ?_ ?_ ?_ ?_ hright).trans ?_
  · rw [h.zero]
    rfl
  · rw [h.zero]
    decide
  · rw [h.zero]
    decide
  · rw [h.zero]
    rfl
  · rw [if_neg hauth]
    rfl

/-- The approval is given, and the proposal begins. -/
theorem approve_run (h : Waits [] s) (fuel depth : Nat) :
    applyOperation world false (fuel + 1) depth (approve "p") s =
      ignoring (pushProposal (applyOperation world false fuel (depth + 1)) (s.ref 0))
        { s with proposals := s.proposals.modify 0 (fun _ => selfApproving [2]) } := by
  have hright : (selfApproving [2]).assertIrrelevantProposalAuthority world ()
      { author := 1, title := "p", toAdd := { active := [2] } } = true := by decide +kernel
  have hauth : (selfApproving [2]).isAuthorizedToExecute world () = true := by decide +kernel
  refine (updateProposal_run h.find ?_ ?_ ?_ ?_ hright).trans ?_
  · rw [h.zero]
    rfl
  · rw [h.zero]
    decide
  · rw [h.zero]
    decide
  · rw [h.zero]
    rfl
  · rw [if_pos hauth]

/-- What happens in an execution does not change what is told about the two proposals. -/
theorem of_same {t : State AccountName Unit} (h : Waits active s) (hp : t.proposals = s.proposals)
    (hnow : t.now = s.now) : Waits active t :=
  ⟨hp ▸ h.keys, hp ▸ h.zero, hp ▸ h.one, hnow.trans h.now⟩

/-- One round, if the approval given in it does not return. -/
theorem push_endless (h : Waits [2] s) {fuel depth : Nat}
    (hagain : ∀ u, Waits [] u → ∃ t, applyOperation world false fuel depth (approve "p") u = .error .outOfFuel t) :
    ∃ t, ignoring (pushProposal (applyOperation world false fuel depth) (s.ref 0)) s = .error .outOfFuel t := by
  have hin : 0 ∈ s.proposals.keys := by
    rw [h.keys]
    exact List.mem_cons_self
  have hall : ∃ t, applyAll (applyOperation world false fuel depth) 0 (s.proposals.row 0).operations (s.begin 0) =
      .error .outOfFuel t := by
    rw [h.zero]
    cases fuel with
    | zero => exact ⟨s.begin 0, rfl⟩
    | succ fuel =>
        have hbegun : Waits [2] (s.begin 0) := h.of_same rfl rfl
        have hchanged := hbegun.changed []
        obtain ⟨t, ht⟩ := hagain
          (State.record { s.begin 0 with proposals := s.proposals.modify 0 (fun _ => selfApproving []) } 0 (withdraw "p"))
          (hchanged.of_same rfl rfl)
        refine ⟨t, (applyAll_ok 0 [approve "p"] (hbegun.withdraw_run fuel depth)).trans ?_⟩
        exact applyAll_error 0 [] ht
  obtain ⟨t, hall⟩ := hall
  refine ⟨t, ?_⟩
  unfold ignoring
  rw [tryCatch_run, pushProposal_outOfFuel hin hall]
  rfl

/-- **The proposal begins once more inside itself, when it gives the approval again**: no fuel is enough. -/
theorem approve_endless (h : Waits [] s) (fuel depth : Nat) :
    ∃ t, applyOperation world false fuel depth (approve "p") s = .error .outOfFuel t := by
  induction fuel generalizing depth s with
  | zero => exact ⟨s, rfl⟩
  | succ fuel ih =>
      rw [h.approve_run]
      exact (h.changed [2]).push_endless (fun u hu => ih hu (depth + 1))

/-- **Then the loop does not end either.** -/
theorem clear_endless (h : Waits [] s) (fuel turns : Nat) :
    ∃ t, clearExpiredProposals world false fuel turns s = .error .outOfFuel t := by
  cases turns with
  | zero => exact ⟨s, rfl⟩
  | succ turns =>
      have hfirst : s.firstToExpire = some 1 := by
        unfold State.firstToExpire
        rw [h.keys, List.find?_cons_of_neg, List.find?_cons_of_pos]
        · refine decide_eq_true ?_
          rw [h.one]
          intro j hj
          rcases List.mem_cons.mp hj with rfl | hj
          · rw [h.zero]
            decide
          · rw [List.mem_singleton.mp hj, h.one]
        · rw [decide_eq_true_eq]
          intro hle
          have hzero := hle 1 (List.mem_cons_of_mem 0 List.mem_cons_self)
          rw [h.zero, h.one] at hzero
          exact absurd hzero (by decide)
      have hin : 1 ∈ s.proposals.keys := by
        rw [h.keys]
        exact List.mem_cons_of_mem 0 List.mem_cons_self
      have hauth : approving.isAuthorizedToExecute world () = true := by decide +kernel
      obtain ⟨t, ht⟩ := approve_endless (h.of_same (t := s.begin 1) rfl rfl) fuel 0
      have hpush : pushProposal (applyOperation world false fuel 0) (s.ref 1) s = .error .outOfFuel t := by
        refine pushProposal_outOfFuel hin ?_
        rw [h.one]
        exact applyAll_error 1 [] ht
      refine ⟨t, ?_⟩
      unfold clearExpiredProposals
      rw [get_bind_run, hfirst]
      dsimp only
      rw [h.one, h.now, if_pos (by exact le_rfl), bind_run]
      unfold clearExpiredProposal
      rw [get_bind_run, h.one]
      rw [if_pos hauth, tryCatch_run, hpush]
      rfl

end Waits

/-- The two proposals are created, and the second one is approved. -/
def filed : State AccountName Unit :=
  run (.transaction [.create 1 "p" 100 none [withdraw "p", approve "p"], .create 1 "r" 50 (some 40) [approve "p"],
    approve "r"]) before

theorem filed_waits : Waits [] { filed with now := 50 } := ⟨rfl, rfl, rfl, rfl⟩

/-- A proposal that deletes itself is created and approved; it is executed when it expires. -/
def doomed : State AccountName Unit :=
  run (.transaction [.create 1 "d" 50 (some 40) [.delete 1 "d" 2, .other 2], approve "d"]) before

end Sample

end Proposals

end VizNode
