import VizNode.Proposals.Frames
import Mathlib.Data.Finset.Max

/-!
# `VizNode.Proposals.Execution` — proposals are executed at most once, and completely

In an undisturbed run a proposal is either still there and has told nothing, or it is gone and has told nothing, or it
began, with approvals that were enough, and all its operations were applied. `Settled` says this of the proposals that
are not being executed; every program advances and leaves the state settled.

## Contents
- **Settled states.**
- **Evaluators.** One lemma for each, in the order of the model; `applyOperation_advances` ties them together, by
  induction on the depth of the calls.
- **Blocks.** `clearExpiredProposals_advances`: the loop takes no more turns than there are expired proposals.
-/

namespace VizNode

namespace Proposals

open Prog

variable {O L : Type}

/-! ## Settled states -/

/-- **What is told about a proposal that is not being executed**: nothing, or that it began with approvals that were
    enough, and then each of its operations, in their order. -/
def Whole (env : Env O L) (id : ProposalId) (l : List (Entry O L)) : Prop :=
  l = [] ∨ ∃ p rest, p.isAuthorizedToExecute env rest = true ∧
    l = .began id p rest :: p.operations.map (.applied id)

/-- **A settled state.** -/
structure Settled (env : Env O L) (s : State O L) : Prop where
  fresh   : ∀ id ∈ s.proposals.keys, id < s.nextId
  running : ∀ id ∈ s.executing, id < s.nextId
  known   : ∀ e ∈ s.journal, e.id < s.nextId
  idle    : ∀ id ∈ s.proposals.keys, id ∉ s.executing → s.events id = []
  whole   : ∀ id, id ∉ s.executing → Whole env id (s.events id)

/-- What a program leaves behind. -/
def After (env : Env O L) (w : Nat) (told : ProposalId → List (Entry O L)) (s s' : State O L) : Prop :=
  Settled env s' ∧ Advance w told s s'

section Settled

variable {env : Env O L} {s : State O L} {id : ProposalId}

/-- A new entry tells about its own proposal. -/
theorem State.events_append {s' : State O L} {e : Entry O L} (h : s'.journal = s.journal ++ [e]) (i : ProposalId) :
    s'.events i = s.events i ++ about e.id [e] i := by
  unfold State.events about
  rw [h, List.filter_append]
  by_cases hi : i = e.id
  · rw [if_pos hi, hi]
    congr 1
    exact List.filter_cons_of_pos (decide_eq_true rfl)
  · rw [if_neg hi]
    congr 1
    exact List.filter_cons_of_neg (fun hd => hi (of_decide_eq_true hd).symm)

/-- **An operation is told** of a proposal that is being executed. -/
theorem Settled.record (h : Settled env s) (hrun : id ∈ s.executing) (op : Operation O) :
    After env 0 (about id [.applied id op]) s (s.record id op) := by
  have htold : ∀ i, (s.record id op).events i = s.events i ++ about id [.applied id op] i :=
    State.events_append (e := .applied id op) rfl
  have hother : ∀ i, i ∉ s.executing → (s.record id op).events i = s.events i := by
    intro i hout
    rw [htold, about_of_ne (fun he : i = id => hout (he ▸ hrun)), List.append_nil]
  refine ⟨⟨h.fresh, h.running, ?_, ?_, ?_⟩, ?_⟩
  · intro e he
    rcases List.mem_append.mp he with he | he
    · exact h.known e he
    · rw [List.mem_singleton.mp he]
      exact h.running id hrun
  · intro i hi hout
    rw [hother i hout, h.idle i hi hout]
  · intro i hout
    rw [hother i hout]
    exact h.whole i hout
  · exact ⟨rfl, rfl, fun _ _ => rfl, fun _ _ hin => hin, fun _ hi => .inl ⟨hi, rfl⟩, fun i _ => htold i, le_rfl⟩

/-- A destroyed proposal tells nothing more. -/
theorem Settled.removeProposal (h : Settled env s) : Settled env (s.removeProposal id) where
  fresh   := fun i hi => h.fresh i (Table.mem_erase_keys.mp hi).2
  running := h.running
  known   := h.known
  idle    := fun i hi => h.idle i (Table.mem_erase_keys.mp hi).2
  whole   := h.whole

theorem Advance.removeProposal (hout : id ∉ s.executing) : Advance 0 nothing s (s.removeProposal id) where
  executing := rfl
  now       := rfl
  removals  := fun i hi => Function.update_of_ne (fun he : i = id => hout (he ▸ hi)) _ _
  stays     := fun _ hi hin => Table.mem_erase_keys.mpr ⟨fun he => hout (he ▸ hi), hin⟩
  expires   := fun _ hi => .inl ⟨(Table.mem_erase_keys.mp hi).2, rfl⟩
  events    := fun _ _ => (List.append_nil _).symm
  potential := State.potential_removeProposal

/-- A change of a proposal that leaves its operations and its expiration. -/
theorem After.modify (id : ProposalId) (f : Proposal O → Proposal O) (h : Settled env s)
    (hops : (f (s.proposals.row id)).operations = (s.proposals.row id).operations)
    (hexp : (f (s.proposals.row id)).expirationTime = (s.proposals.row id).expirationTime) :
    After env 0 nothing s { s with proposals := s.proposals.modify id f } := by
  refine ⟨⟨h.fresh, h.running, h.known, h.idle, h.whole⟩, ?_⟩
  refine ⟨rfl, rfl, fun _ _ => rfl, fun _ _ hin => hin, ?_, fun _ _ => (List.append_nil _).symm,
    (State.potential_modify hops).le⟩
  intro i hi
  refine .inl ⟨hi, ?_⟩
  show ((s.proposals.modify id f).row i).expirationTime = _
  by_cases hid : i = id
  · rw [hid, Table.modify_row_self, hexp]
  · rw [Table.modify_row_of_ne hid]

theorem After.trans {v w : Nat} {told told' : ProposalId → List (Entry O L)} {s' s'' : State O L}
    (h : After env v told s s') (h' : After env w told' s' s'') :
    After env (v + w) (fun i => told i ++ told' i) s s'' := ⟨h'.1, h.2.trans h'.2⟩

/-- After something that tells nothing. -/
theorem After.then {w : Nat} {told : ProposalId → List (Entry O L)} {s' s'' : State O L}
    (h : After env 0 nothing s s') (h' : After env w told s' s'') : After env w told s s'' :=
  ⟨h'.1, (h.2.trans h'.2).mono (Nat.zero_add w).le (fun _ => rfl)⟩

end Settled

/-! ## Evaluators -/

section Evaluators

variable {env : Env O L} {s : State O L} {id : ProposalId}

theorem deref_run {r : Ref} (hgood : s.Good r) : deref r s = .ok () s := by
  unfold deref
  rw [get_bind_run, if_pos hgood]
  rfl

theorem Undisturbed.deref_bind {Q : State O L → Prop} {T : Halt → State O L → Prop} {r : Ref} {f : Unit → M O L Unit}
    (hgood : s.Good r) (h : Undisturbed Q T (f ()) s) : Undisturbed Q T (deref r >>= f) s := by
  have hrun : (deref r >>= f) s = f () s := by
    rw [bind_run, deref_run hgood]
  exact .congr hrun h

/-- **An object that is there can be removed**, unless it is being executed. -/
theorem remove_undisturbed {Q : State O L → Prop} {T : Halt → State O L → Prop} {r : Ref} (hgood : s.Good r)
    (h : r.id ∉ s.executing → Q (s.removeProposal r.id)) : Undisturbed Q T (remove r) s := by
  have hrun : remove r s = .ok () (s.removeProposal r.id) := by
    unfold remove
    rw [bind_run, deref_run hgood]
    rfl
  intro hq
  unfold Quiet at hq
  rw [after_ok hrun] at hq
  unfold Ends
  rw [hrun]
  exact h (of_decide_eq_false (Bool.or_eq_false_iff.mp hq).2)

theorem Settled.removed (h : Settled env s) (hout : id ∉ s.executing) :
    After env 0 nothing s (s.removeProposal id) ∧ id ∉ (s.removeProposal id).proposals.keys :=
  ⟨⟨h.removeProposal, Advance.removeProposal hout⟩, fun hin => (Table.mem_erase_keys.mp hin).1 rfl⟩

/-- What a program may do that tells nothing: its two exits. -/
abbrev Advances (env : Env O L) (w : Nat) (short : Prop) (m : M O L Unit) (s : State O L) : Prop :=
  Undisturbed (After env w nothing s) (Halts s short) m s

/-- A refusal that changes nothing. -/
theorem Halts.here {short : Prop} : Halts s short .refused s := fun _ _ => rfl

/-- **A proposal is created**: it is new, nothing was told about it, and it expires later. -/
theorem createProposal_advances (h : Settled env s) {short : Prop} (author : AccountName) (title : String)
    (expirationTime : Nat) (reviewPeriodTime : Option Nat) (ops : List (Operation O)) :
    Advances env (Operation.weightAll ops + 1) short
      (createProposal env author title expirationTime reviewPeriodTime ops) s := by
  have hnew : s.nextId ∉ s.proposals.keys := fun hin => lt_irrefl _ (h.fresh _ hin)
  have hsilent : s.events s.nextId = [] := by
    refine List.filter_eq_nil_iff.mpr ?_
    intro e he hd
    exact lt_irrefl _ (of_decide_eq_true hd ▸ h.known e he)
  unfold createProposal
  refine .get_bind (.check .here (fun _ => .check .here (fun _ => .check .here (fun hexp => ?_))))
  refine .check .here (fun _ => .check .here (fun _ => .check .here (fun _ => .check .here (fun _ => ?_))))
  refine .check .here (fun _ => .check .here (fun _ => .of_set (fun _ => ⟨⟨?_, ?_, ?_, ?_, h.whole⟩, ?_⟩)))
  · intro i hi
    rcases (Table.mem_insert_keys hnew).mp hi with hi | rfl
    · exact Nat.lt_succ_of_lt (h.fresh i hi)
    · exact Nat.lt_succ_self _
  · exact fun i hi => Nat.lt_succ_of_lt (h.running i hi)
  · exact fun e he => Nat.lt_succ_of_lt (h.known e he)
  · intro i hi hout
    rcases (Table.mem_insert_keys hnew).mp hi with hi | rfl
    · exact h.idle i hi hout
    · exact hsilent
  · refine ⟨rfl, rfl, fun _ _ => rfl, fun i _ hin => (Table.mem_insert_keys hnew).mpr (.inl hin), ?_,
      fun _ _ => (List.append_nil _).symm, State.potential_insert hnew⟩
    intro i hi
    show _ ∧ ((s.proposals.insert s.nextId _).row i).expirationTime = _ ∨ _ <
      ((s.proposals.insert s.nextId _).row i).expirationTime
    rcases (Table.mem_insert_keys hnew).mp hi with hi | rfl
    · rw [Table.insert_row_of_mem hnew hi]
      exact .inl ⟨hi, rfl⟩
    · rw [Table.insert_row_self hnew]
      exact .inr hexp.1

theorem findProposal_mem {author : AccountName} {title : String} (h : s.findProposal author title = some id) :
    id ∈ s.proposals.keys := List.mem_of_find?_eq_some h

/-- **A proposal is deleted.** -/
theorem deleteProposal_advances (h : Settled env s) {short : Prop} (author : AccountName) (title : String)
    (requester : AccountName) : Advances env 1 short (deleteProposal author title requester) s := by
  unfold deleteProposal
  refine .get_bind ?_
  cases hfind : s.findProposal author title with
  | none => exact .of_throw .here
  | some id =>
      refine .check .here (fun _ => ?_)
      have hgood : s.Good (s.ref id) := ⟨findProposal_mem hfind, rfl⟩
      refine remove_undisturbed hgood (fun hout => ?_)
      obtain ⟨hs', ha⟩ := (h.removed hout).1
      exact ⟨hs', ha.mono (Nat.zero_le 1) (fun _ => rfl)⟩

/-- **A session that throws gives back the state it began in**; the reference is still good if the proposal was not
    destroyed meanwhile. -/
theorem session_ends {r : Ref} {old : State O L} {body : M O L Unit} {Q : State O L → Prop} {short : Prop}
    {t : State O L} (hin : r.id ∈ old.proposals.keys) (hrem : t.removals r.id = r.removals) (hrun : r.id ∈ t.executing)
    (hbody : Undisturbed Q (Halts t short) body s) :
    Undisturbed Q
      (fun e s' => e = .refused ∧ (∃ u : State O L, s' = u.undo old ∧ ∀ i ∈ t.executing, u.removals i = t.removals i) ∨
        e = .outOfFuel ∧ short)
      (session r old body) s := by
  unfold session
  refine .tryCatch (undoing_lasting r old) hbody ?_
  intro e u _ hT
  cases e with
  | refused =>
      refine .modify_bind ?_
      have hgood : (u.undo old).Good r := ⟨hin, (hT r.id hrun).trans hrem⟩
      intro _
      refine Ends.bind (P := fun _ s' => s' = u.undo old) ?_ ?_
      · unfold Ends
        rw [deref_run hgood]
      · rintro _ s' _ rfl
        exact .inl ⟨rfl, u, rfl, hT⟩
  | undefined => exact absurd hT id
  | outOfFuel => exact .of_throw (.inr ⟨rfl, hT⟩)

section Applying

variable {apply : Operation O → M O L Unit} {fuel : Nat}

/-- **The operations of a proposal, one after another**: afterwards the journal tells them all. -/
theorem applyAll_advances (hlast : ∀ op, Lasting (apply op))
    (happly : ∀ op (t : State O L), Settled env t → Advances env op.weight (fuel ≤ t.potential + op.weight) (apply op) t)
    (hrun : id ∈ s.executing) (h : Settled env s) (ops : List (Operation O)) :
    Undisturbed (After env (Operation.weightAll ops) (about id (ops.map (.applied id))) s)
      (Halts s (fuel ≤ s.potential + Operation.weightAll ops)) (applyAll apply id ops) s := by
  induction ops generalizing s with
  | nil =>
      refine .of_pure ⟨h, (Advance.refl s).mono le_rfl (fun i => ?_)⟩
      unfold about
      rw [List.map_nil, ite_self]
      rfl
  | cons op ops ih =>
      have hrecord : Lasting (modify (fun s => s.record id op) >>= fun _ => applyAll apply id ops : M O L Unit) :=
        (Lasting.of_modify (f := fun s => s.record id op) (fun _ hs => hs)).bind (applyAll_lasting hlast id ops)
      refine .bind hrecord ((happly op s h).mono (fun _ hs => hs) (fun e t ht => ht.mono (fun hshort => ?_))) ?_
      · refine hshort.trans ?_
        show _ ≤ s.potential + (op.weight + Operation.weightAll ops)
        omega
      · rintro t - ⟨ht, ha⟩
        refine .modify_bind ?_
        have hop : After env op.weight nothing s t := ⟨ht, ha⟩
        have hall := hop.trans (ht.record (ha.executing ▸ hrun) op)
        refine (ih (s := t.record id op) (ha.executing ▸ hrun) hall.1).mono ?_ ?_
        · rintro u ⟨hu, hb⟩
          exact ⟨hu, (hall.2.trans hb).mono le_rfl (fun i => about_append i)⟩
        · intro e u hu
          refine (hu.mono ?_).after hall.2
          intro hshort
          have hp := ha.potential
          have hshort' : fuel ≤ t.potential + Operation.weightAll ops := hshort
          show _ ≤ s.potential + (op.weight + Operation.weightAll ops)
          omega

/-- **A proposal that began and applied all its operations is removed.** -/
theorem Settled.finished (h : Settled env s) (hin : id ∈ s.proposals.keys) (hout : id ∉ s.executing)
    (hauth : (s.proposals.row id).isAuthorizedToExecute env s.rest = true) {t : State O L}
    (ht : After env (Operation.weightAll (s.proposals.row id).operations)
      (about id ((s.proposals.row id).operations.map (.applied id))) (s.begin id) t) :
    After env 0 nothing s (t.finish.removeProposal id) := by
  obtain ⟨ht, ha⟩ := ht
  have hexec : t.executing = id :: s.executing := ha.executing
  have htail : t.finish.executing = s.executing := congrArg List.tail hexec
  have hne : ∀ i ∈ s.executing, i ≠ id := fun i hi he => hout (he ▸ hi)
  have hbegan : ∀ i, (s.begin id).events i = s.events i ++ about id [.began id (s.proposals.row id) s.rest] i :=
    State.events_append (e := .began id (s.proposals.row id) s.rest) rfl
  have hmem : ∀ i ∈ s.executing, i ∈ (s.begin id).executing := fun i hi => List.mem_cons_of_mem id hi
  have hstill : ∀ i, i ∉ s.executing → i ≠ id → i ∉ t.executing := by
    intro i hi hid
    rw [hexec, List.mem_cons, not_or]
    exact ⟨hid, hi⟩
  refine ⟨⟨?_, ?_, ht.known, ?_, ?_⟩, ⟨htail, ha.now, ?_, ?_, ?_, ?_, ?_⟩⟩
  · exact fun i hi => ht.fresh i (Table.mem_erase_keys.mp hi).2
  · intro i hi
    exact ht.running i (ha.executing ▸ hmem i (htail ▸ hi))
  · intro i hi hi'
    obtain ⟨hid, hi⟩ := Table.mem_erase_keys.mp hi
    exact ht.idle i hi (hstill i (htail ▸ hi') hid)
  · intro i hi
    by_cases hid : i = id
    · subst hid
      refine .inr ⟨s.proposals.row i, s.rest, hauth, ?_⟩
      show t.events i = _
      rw [ha.events i List.mem_cons_self, hbegan, h.idle i hin hout, about_self, about_self]
      rfl
    · exact ht.whole i (hstill i (htail ▸ hi) hid)
  · intro i hi
    exact (Function.update_of_ne (hne i hi) _ _).trans (ha.removals i (hmem i hi))
  · exact fun i hi hkey => Table.mem_erase_keys.mpr ⟨hne i hi, ha.stays i (hmem i hi) hkey⟩
  · exact fun i hi => ha.expires i (Table.mem_erase_keys.mp hi).2
  · intro i hi
    show t.events i = _
    rw [ha.events i (hmem i hi), hbegan, about_of_ne (hne i hi), about_of_ne (hne i hi), List.append_nil]
    rfl
  · have hp := ha.potential
    have hbegin := State.potential_begin hin hout
    unfold Proposal.weight at hbegin
    rw [State.potential_removed hexec]
    omega

theorem Settled.begin (h : Settled env s) (hin : id ∈ s.proposals.keys) : Settled env (s.begin id) := by
  have hother : ∀ i, i ∉ (s.begin id).executing → i ∉ s.executing ∧ (s.begin id).events i = s.events i := by
    intro i hi
    obtain ⟨hid, hi⟩ := not_or.mp (fun hor => hi (List.mem_cons.mpr hor))
    refine ⟨hi, ?_⟩
    rw [State.events_append (s := s) (e := .began id (s.proposals.row id) s.rest) rfl]
    exact (congrArg _ (about_of_ne hid)).trans (List.append_nil _)
  refine ⟨h.fresh, ?_, ?_, ?_, ?_⟩
  · intro i hi
    rcases List.mem_cons.mp hi with rfl | hi
    · exact h.fresh i hin
    · exact h.running i hi
  · intro e he
    rcases List.mem_append.mp he with he | he
    · exact h.known e he
    · rw [List.mem_singleton.mp he]
      exact h.fresh id hin
  · intro i hi hout
    obtain ⟨hout, he⟩ := hother i hout
    exact he.trans (h.idle i hi hout)
  · intro i hout
    obtain ⟨hout, he⟩ := hother i hout
    exact he ▸ h.whole i hout

/-- **`push_proposal`.** Either every operation was applied and the proposal is gone, or what was done is undone. -/
theorem pushProposal_ends (hlast : ∀ op, Lasting (apply op))
    (happly : ∀ op (t : State O L), Settled env t → Advances env op.weight (fuel ≤ t.potential + op.weight) (apply op) t)
    (h : Settled env s) (hin : id ∈ s.proposals.keys)
    (hauth : (s.proposals.row id).isAuthorizedToExecute env s.rest = true) :
    Undisturbed (fun s' => After env 0 nothing s s' ∧ id ∉ s'.proposals.keys)
      (fun e s' => e = .refused ∧
          (∃ u : State O L, s' = u.undo s ∧ ∀ i ∈ id :: s.executing, u.removals i = s.removals i) ∨
        e = .outOfFuel ∧ fuel < s.potential)
      (pushProposal apply (s.ref id)) s := by
  have hgood : s.Good (s.ref id) := ⟨hin, rfl⟩
  have hfinish : Lasting (modify State.finish : M O L Unit) := Lasting.of_modify (fun _ hs => hs)
  have hall := applyAll_lasting hlast id (s.proposals.row id).operations
  have hbody : Undisturbed
      (fun u => id ∉ s.executing ∧ ∃ t, u = State.finish t ∧
        After env (Operation.weightAll (s.proposals.row id).operations)
          (about id ((s.proposals.row id).operations.map (.applied id))) (s.begin id) t)
      (Halts (s.begin id) (fuel < s.potential))
      (do set (s.begin id); applyAll apply id (s.proposals.row id).operations; modify State.finish) s := by
    refine .set_bind (.start (hall.bind hfinish) (fun hd => ?_))
    have hout : id ∉ s.executing := of_decide_eq_false (Bool.or_eq_false_iff.mp hd).2
    have hbegin := State.potential_begin hin hout
    unfold Proposal.weight at hbegin
    refine .bind hfinish ((applyAll_advances hlast happly List.mem_cons_self (h.begin hin) _).mono (fun _ ht => ht) ?_)
      (fun t _ ht => fun _ => ⟨hout, t, rfl, ht⟩)
    exact fun e t ht => ht.mono (by omega)
  unfold pushProposal
  refine .deref_bind hgood (.get_bind (.bind (remove_lasting _) (session_ends hin rfl List.mem_cons_self hbody) ?_))
  rintro u - ⟨hout, t, rfl, ht⟩
  have hgood' : t.finish.Good (s.ref id) :=
    ⟨ht.2.stays id List.mem_cons_self hin, ht.2.removals id List.mem_cons_self⟩
  refine remove_undisturbed hgood' (fun _ => ⟨h.finished hin hout hauth ht, ?_⟩)
  exact fun hmem => (Table.mem_erase_keys.mp hmem).1 rfl

/-- What an undone session leaves behind. -/
theorem Settled.restored (h : Settled env s) {u : State O L} (hu : ∀ i ∈ s.executing, u.removals i = s.removals i) :
    After env 0 nothing s (u.undo s) :=
  ⟨⟨h.fresh, h.running, h.known, h.idle, h.whole⟩,
    ⟨rfl, rfl, hu, fun _ _ hin => hin, fun _ hi => .inl ⟨hi, rfl⟩, fun _ _ => (List.append_nil _).symm, le_rfl⟩⟩

/-- **`proposal_update_evaluator`.** The execution it may lead to is one call deeper. -/
theorem updateProposal_advances (hlast : ∀ op, Lasting (apply op))
    (happly : ∀ op (t : State O L), Settled env t → Advances env op.weight (fuel ≤ t.potential + op.weight) (apply op) t)
    (h : Settled env s) (producing : Bool) (depth : Nat) (u : Update) :
    Advances env 1 (fuel < s.potential + 1) (updateProposal env producing depth apply u) s := by
  unfold updateProposal
  refine .check .here (fun _ => .get_bind ?_)
  cases hfind : s.findProposal u.author u.title with
  | none => exact .of_throw .here
  | some id =>
      have hin := findProposal_mem hfind
      refine .check .here (fun _ => .check .here (fun _ => .check .here (fun _ => .set_bind ?_)))
      have hmod := After.modify id (fun _ =>
        { s.proposals.row id with
          available := ((s.proposals.row id).available.add u.toAdd).remove u.toRemove }) h rfl rfl
      have hweak : ∀ t, After env 0 nothing s t → After env 1 nothing s t :=
        fun t ht => ⟨ht.1, ht.2.mono (Nat.zero_le 1) (fun _ => rfl)⟩
      refine .ite (fun _ => .ite (fun _ => ?_) (fun _ => .of_pure (hweak _ hmod))) (fun _ => ?_)
      · exact remove_undisturbed ⟨hin, rfl⟩ (fun hout => hweak _ (hmod.then (hmod.1.removed hout).1))
      · refine .check (fun _ _ => rfl) (fun _ => .ite (fun hauth => ?_) (fun _ => .of_pure (hweak _ hmod)))
        have hpush := pushProposal_ends hlast happly hmod.1 hin (by rwa [Table.modify_row_self])
        refine .tryCatch (fun _ => Lasting.ite Lasting.of_pure (Lasting.of_throw _))
          (hpush.mono (fun t ht => hweak _ (hmod.then ht.1)) (fun _ _ ht => ht)) ?_
        rintro e t - (⟨rfl, u', rfl, hrem⟩ | ⟨rfl, hshort⟩)
        · rw [if_pos rfl]
          exact .of_pure (hweak _ (hmod.then (hmod.1.restored (fun i hi => hrem i (List.mem_cons_of_mem id hi)))))
        · rw [if_neg (by decide)]
          have hp := hmod.2.potential
          exact .of_throw (Nat.lt_succ_of_lt (hshort.trans_le hp))

end Applying

/-- **Every operation advances**, by induction on the depth of the calls. -/
theorem applyOperation_advances (env : Env O L) (producing : Bool) (fuel depth : Nat) (op : Operation O)
    {s : State O L} (h : Settled env s) :
    Advances env op.weight (fuel ≤ s.potential + op.weight) (applyOperation env producing fuel depth op) s := by
  induction fuel generalizing depth op s with
  | zero => exact .of_throw (Nat.zero_le _)
  | succ fuel ih =>
      cases op with
      | other o =>
          refine .get_bind ?_
          cases env.apply s.rest o with
          | none => exact .of_throw .here
          | some rest =>
              refine .of_set (fun _ => ⟨⟨h.fresh, h.running, h.known, h.idle, h.whole⟩, ?_⟩)
              exact ⟨rfl, rfl, fun _ _ => rfl, fun _ _ hin => hin, fun _ hi => .inl ⟨hi, rfl⟩,
                fun _ _ => (List.append_nil _).symm, Nat.le_add_right _ _⟩
      | create author title expirationTime reviewPeriodTime ops => exact createProposal_advances h _ _ _ _ _
      | update u =>
          have hdeeper : ∀ op (t : State O L), Settled env t →
              Advances env op.weight (fuel ≤ t.potential + op.weight) (applyOperation env producing fuel (depth + 1) op) t :=
            fun op t ht => ih (depth + 1) op ht
          exact updateProposal_advances (applyOperation_lasting env producing fuel (depth + 1)) hdeeper h producing
            (depth + 1) u
      | delete author title requester => exact deleteProposal_advances h _ _ _

end Evaluators

/-! ## Blocks -/

/-- The proposals that have expired. -/
def State.expired (s : State O L) : Finset ProposalId :=
  s.proposals.keys.toFinset.filter (fun id => (s.proposals.row id).expirationTime ≤ s.now)

section Blocks

variable {env : Env O L} {s : State O L} {id : ProposalId}

theorem State.mem_expired :
    id ∈ s.expired ↔ id ∈ s.proposals.keys ∧ (s.proposals.row id).expirationTime ≤ s.now := by
  unfold State.expired
  rw [Finset.mem_filter, List.mem_toFinset]

theorem State.keys_of_none (h : s.firstToExpire = none) : s.proposals.keys = [] := by
  by_contra hne
  obtain ⟨i, hi⟩ := List.exists_mem_of_ne_nil _ hne
  obtain ⟨first, hfirst, hmin⟩ := Finset.exists_min_image s.proposals.keys.toFinset
    (fun j => (s.proposals.row j).expirationTime) ⟨i, List.mem_toFinset.mpr hi⟩
  refine List.find?_eq_none.mp h first (List.mem_toFinset.mp hfirst) (decide_eq_true ?_)
  exact fun j hj => hmin j (List.mem_toFinset.mpr hj)

theorem State.firstToExpire_le (h : s.firstToExpire = some id) :
    ∀ j ∈ s.proposals.keys, (s.proposals.row id).expirationTime ≤ (s.proposals.row j).expirationTime := by
  unfold State.firstToExpire at h
  have hmin := List.find?_some h
  rwa [decide_eq_true_eq] at hmin

/-- **An advance adds no expired proposal.** -/
theorem Advance.expired {w : Nat} {told : ProposalId → List (Entry O L)} {s' : State O L} (h : Advance w told s s') :
    s'.expired ⊆ s.expired := by
  intro i hi
  obtain ⟨hin, hle⟩ := State.mem_expired.mp hi
  rcases h.expires i hin with ⟨hin', he⟩ | hlate
  · exact State.mem_expired.mpr ⟨hin', by rw [← he, ← h.now]; exact hle⟩
  · rw [h.now] at hle
    exact absurd hle (not_le.mpr hlate)

/-- **One turn**: executed or not, the proposal is gone. -/
theorem clearExpiredProposal_advances {apply : Operation O → M O L Unit} {fuel : Nat}
    (hlast : ∀ op, Lasting (apply op))
    (happly : ∀ op (t : State O L), Settled env t → Advances env op.weight (fuel ≤ t.potential + op.weight) (apply op) t)
    (h : Settled env s) (hin : id ∈ s.proposals.keys) :
    Undisturbed (fun s' => After env 0 nothing s s' ∧ id ∉ s'.proposals.keys)
      (fun e _ => e = .outOfFuel ∧ fuel < s.potential) (clearExpiredProposal env apply id) s := by
  unfold clearExpiredProposal
  refine .get_bind (.ite (fun hauth => ?_) (fun _ => remove_undisturbed ⟨hin, rfl⟩ h.removed))
  refine .tryCatch (fun e => Lasting.ite (remove_lasting _) (Lasting.of_throw e))
    (pushProposal_ends hlast happly h hin hauth) ?_
  rintro e t - (⟨rfl, u, rfl, hrem⟩ | ⟨rfl, hshort⟩)
  · -- what was done is undone, and the proposal is removed without it
    rw [if_pos rfl]
    refine remove_undisturbed ⟨hin, hrem id List.mem_cons_self⟩ (fun hout => ?_)
    have hundone := h.restored (fun i hi => hrem i (List.mem_cons_of_mem id hi))
    exact ⟨hundone.then (hundone.1.removed hout).1, (hundone.1.removed hout).2⟩
  · rw [if_neg (fun he : Halt.outOfFuel = .refused => nomatch he)]
    exact .of_throw ⟨rfl, hshort⟩

/-- **The loop of `clear_expired_proposals`**: every turn removes one of the expired proposals and adds none. -/
theorem clearExpiredProposals_advances (env : Env O L) (producing : Bool) (fuel turns : Nat) {s : State O L}
    (h : Settled env s) :
    Undisturbed (fun s' => After env 0 nothing s s' ∧ s'.expired = ∅)
      (fun e _ => e = .outOfFuel ∧ (fuel < s.potential ∨ turns ≤ s.expired.card))
      (clearExpiredProposals env producing fuel turns) s := by
  have hlast := applyOperation_lasting env producing fuel 0
  induction turns generalizing s with
  | zero => exact .of_throw ⟨rfl, .inr (Nat.zero_le _)⟩
  | succ turns ih =>
      refine .get_bind ?_
      cases hfirst : s.firstToExpire with
      | none =>
          refine .of_pure ⟨⟨h, Advance.refl s⟩, ?_⟩
          refine Finset.eq_empty_of_forall_notMem (fun i hi => ?_)
          exact absurd (State.mem_expired.mp hi).1 (State.keys_of_none hfirst ▸ List.not_mem_nil)
      | some id =>
          have hin : id ∈ s.proposals.keys := List.mem_of_find?_eq_some hfirst
          refine .ite (fun hexp => ?_) (fun hlate => .of_pure ⟨⟨h, Advance.refl s⟩, ?_⟩)
          · refine .bind (clearExpiredProposals_lasting env producing fuel turns)
              ((clearExpiredProposal_advances hlast
                (fun op t ht => applyOperation_advances env producing fuel 0 op ht) h hin).mono (fun _ ht => ht)
                (fun _ _ ht => ⟨ht.1, .inl ht.2⟩)) ?_
            rintro t - ⟨ht, hgone⟩
            have hless : t.expired.card < s.expired.card := by
              refine Finset.card_lt_card ((Finset.ssubset_iff_of_subset ht.2.expired).mpr ?_)
              exact ⟨id, State.mem_expired.mpr ⟨hin, hexp⟩, fun hmem => hgone (State.mem_expired.mp hmem).1⟩
            refine (ih ht.1).mono (fun u hu => ⟨ht.then hu.1, hu.2⟩) ?_
            rintro e u ⟨rfl, hshort | hshort⟩
            · exact ⟨rfl, .inl (hshort.trans_le ht.2.potential)⟩
            · exact ⟨rfl, .inr (by omega)⟩
          · refine Finset.eq_empty_of_forall_notMem (fun i hi => ?_)
            obtain ⟨hi, hle⟩ := State.mem_expired.mp hi
            exact hlate ((State.firstToExpire_le hfirst i hi).trans hle)

/-- **A transaction.** -/
theorem applyTransaction_advances (env : Env O L) (producing : Bool) (fuel : Nat) (ops : List (Operation O))
    {s : State O L} (h : Settled env s) :
    Advances env (Operation.weightAll ops) (fuel ≤ s.potential + Operation.weightAll ops)
      (applyTransaction env producing fuel ops) s := by
  induction ops generalizing s with
  | nil => exact .of_pure ⟨h, Advance.refl s⟩
  | cons op ops ih =>
      refine .bind (applyTransaction_lasting env producing fuel ops)
        ((applyOperation_advances env producing fuel 0 op h).mono (fun _ ht => ht)
          (fun e t ht => ht.mono (fun hshort => ?_))) ?_
      · refine hshort.trans ?_
        show _ ≤ s.potential + (op.weight + Operation.weightAll ops)
        omega
      · rintro t - ht
        refine (ih ht.1).mono (fun u hu => ht.trans hu) (fun e u hu => (hu.mono (fun hshort => ?_)).after ht.2)
        have hp := ht.2.potential
        show _ ≤ s.potential + (op.weight + Operation.weightAll ops)
        omega

end Blocks

end Proposals

end VizNode
