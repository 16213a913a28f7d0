import VizNode.Proposals.Model
import Mathlib.Algebra.BigOperators.Group.Finset.Basic
import Mathlib.Algebra.Order.BigOperators.Group.Finset

/-!
# `VizNode.Proposals.Frames` — what an execution leaves alone

An execution runs in the middle of others. `Advance` says what it may do there: it leaves the proposals that are being
executed where they are, tells nothing about them, and every proposal it adds expires later.

**Why it ends.** Every nested execution begins a proposal that waits, and while it is being executed it does not wait.
The `potential` of a state is the weight of the proposals that wait. Beginning one lowers it by more than the weight of
the operations to come, and an operation raises it by no more than its own weight.

All of this fails once a proposal is destroyed, or begins once more, while it is being executed. `Undisturbed` are the
runs in which that does not happen.

## Contents
- **Disturbance** is for good.
- **Undisturbed runs** and their rules.
- **Weights.** `Operation.weight`, `State.potential`.
- **Advances.** `Advance`, `Halts`.
-/

namespace VizNode

namespace Proposals

open Prog

variable {O L : Type}

/-! ## Disturbance -/

/-- The program does not take a disturbance back. -/
def Lasting (m : M O L Unit) : Prop := Moves (Keeps (fun s : State O L => s.disturbed = true)) m

namespace Lasting

theorem of_pure : Lasting (pure () : M O L Unit) := fun s => MovesAt.pure () s

theorem of_throw (e : Halt) : Lasting (throw e : M O L Unit) := fun s => MovesAt.throw e s

theorem of_set {t : State O L} (h : t.disturbed = true) : Lasting (set t : M O L Unit) := fun _ _ => h

theorem of_modify {f : State O L → State O L} (h : ∀ s, s.disturbed = true → (f s).disturbed = true) :
    Lasting (modify f) := fun s => MovesAt.modify (h s)

theorem bind {m : M O L Unit} {f : Unit → M O L Unit} (hm : Lasting m) (hf : Lasting (f ())) :
    Lasting (m >>= f) := fun s => (hm s).bind (fun _ s' _ => hf s')

theorem check {c : Prop} [Decidable c] {f : Unit → M O L Unit} (hf : Lasting (f ())) :
    Lasting (check c >>= f) := by
  refine bind ?_ hf
  unfold Proposals.check
  by_cases hc : c
  · rw [if_pos hc]
    exact of_pure
  · rw [if_neg hc]
    exact of_throw _

/-- The rest of the program knows the state it has read. -/
theorem get {f : State O L → M O L Unit} (hf : ∀ s, MovesAt (Keeps (fun s => s.disturbed = true)) (f s) s) :
    Lasting (get >>= f) := fun s => MovesAt.get_bind (hf s)

theorem ite {c : Prop} [Decidable c] {m n : M O L Unit} (hm : Lasting m) (hn : Lasting n) :
    Lasting (if c then m else n) := by
  by_cases hc : c
  · rw [if_pos hc]
    exact hm
  · rw [if_neg hc]
    exact hn

theorem tryCatch {m : M O L Unit} {h : Halt → M O L Unit} (hm : Lasting m) (hh : ∀ e, Lasting (h e)) :
    Lasting (tryCatch m h) := fun s => (hm s).tryCatch (fun e s' _ => hh e s')

end Lasting

theorem State.removeProposal_disturbed {s : State O L} {id : ProposalId} (h : s.disturbed = true) :
    (s.removeProposal id).disturbed = true := by
  show (s.disturbed || decide (id ∈ s.executing)) = true
  rw [h, Bool.true_or]

theorem State.begin_disturbed {s : State O L} {id : ProposalId} (h : s.disturbed = true) :
    (s.begin id).disturbed = true := by
  show (s.disturbed || decide (id ∈ s.executing)) = true
  rw [h, Bool.true_or]

theorem deref_lasting (r : Ref) : Lasting (deref r : M O L Unit) := by
  refine Lasting.get ?_
  intro s
  exact Lasting.ite Lasting.of_pure (Lasting.of_throw _) s

theorem remove_lasting (r : Ref) : Lasting (remove r : M O L Unit) :=
  (deref_lasting r).bind (Lasting.of_modify (fun _ h => State.removeProposal_disturbed h))

theorem ignoring_lasting {body : M O L Unit} (h : Lasting body) : Lasting (ignoring body) :=
  h.tryCatch (fun _ => Lasting.ite Lasting.of_pure (Lasting.of_throw _))

theorem undoing_lasting (r : Ref) (old : State O L) (e : Halt) : Lasting (undoing r old e) := by
  cases e with
  | refused =>
      have hundo : Lasting (modify (fun s => s.undo old) : M O L Unit) := Lasting.of_modify (fun _ hs => hs)
      exact hundo.bind ((deref_lasting r).bind (Lasting.of_throw _))
  | undefined => exact Lasting.of_throw _
  | outOfFuel => exact Lasting.of_throw _

theorem session_lasting {r : Ref} {old : State O L} {body : M O L Unit} (h : Lasting body) :
    Lasting (session r old body) := h.tryCatch (undoing_lasting r old)

theorem applyAll_lasting {apply : Operation O → M O L Unit} (h : ∀ op, Lasting (apply op)) (id : ProposalId)
    (ops : List (Operation O)) : Lasting (applyAll apply id ops) := by
  induction ops with
  | nil => exact Lasting.of_pure
  | cons op ops ih =>
      have hrecord : Lasting (modify (fun s => s.record id op) : M O L Unit) := Lasting.of_modify (fun _ hs => hs)
      exact (h op).bind (hrecord.bind ih)

theorem pushProposal_lasting {apply : Operation O → M O L Unit} (h : ∀ op, Lasting (apply op)) (r : Ref) :
    Lasting (pushProposal apply r) := by
  refine (deref_lasting r).bind (Lasting.get ?_)
  intro s hs
  refine ((session_lasting ?_).bind (remove_lasting r)) s hs
  exact (Lasting.of_set (State.begin_disturbed hs)).bind
    ((applyAll_lasting h r.id _).bind (Lasting.of_modify (fun _ ht => ht)))

theorem createProposal_lasting (env : Env O L) (author : AccountName) (title : String) (expirationTime : Nat)
    (reviewPeriodTime : Option Nat) (ops : List (Operation O)) :
    Lasting (createProposal env author title expirationTime reviewPeriodTime ops) := by
  unfold createProposal
  refine Lasting.get ?_
  intro s hs
  refine Lasting.check (Lasting.check (Lasting.check (Lasting.check (Lasting.check (Lasting.check (Lasting.check
    (Lasting.check (Lasting.check ?_)))))))) s hs
  exact Lasting.of_set hs

theorem updateProposal_lasting (env : Env O L) (producing : Bool) (depth : Nat) {apply : Operation O → M O L Unit}
    (h : ∀ op, Lasting (apply op)) (u : Update) : Lasting (updateProposal env producing depth apply u) := by
  unfold updateProposal
  refine Lasting.check (Lasting.get ?_)
  intro s hs
  cases s.findProposal u.author u.title with
  | none => exact Lasting.of_throw _ s hs
  | some id =>
      refine Lasting.check (Lasting.check (Lasting.check ((Lasting.of_set (t := _) ?_).bind ?_))) s hs
      · exact hs
      · exact Lasting.ite (Lasting.ite (remove_lasting _) Lasting.of_pure)
          (Lasting.check (Lasting.ite (ignoring_lasting (pushProposal_lasting h _)) Lasting.of_pure))

theorem deleteProposal_lasting (author : AccountName) (title : String) (requester : AccountName) :
    Lasting (deleteProposal author title requester : M O L Unit) := by
  unfold deleteProposal
  refine Lasting.get ?_
  intro s hs
  cases s.findProposal author title with
  | none => exact Lasting.of_throw _ s hs
  | some id => exact Lasting.check (remove_lasting _) s hs

/-- **No operation takes a disturbance back.** -/
theorem applyOperation_lasting (env : Env O L) (producing : Bool) (fuel depth : Nat) (op : Operation O) :
    Lasting (applyOperation env producing fuel depth op) := by
  induction fuel generalizing depth op with
  | zero => exact Lasting.of_throw _
  | succ fuel ih =>
      cases op with
      | other o =>
          refine Lasting.get ?_
          intro s hs
          cases env.apply s.rest o with
          | none => exact Lasting.of_throw _ s hs
          | some rest => exact Lasting.of_set hs s hs
      | create author title expirationTime reviewPeriodTime ops => exact createProposal_lasting env _ _ _ _ _
      | update u => exact updateProposal_lasting env producing (depth + 1) (fun op => ih (depth + 1) op) u
      | delete author title requester => exact deleteProposal_lasting _ _ _

theorem clearExpiredProposal_lasting (env : Env O L) {apply : Operation O → M O L Unit}
    (h : ∀ op, Lasting (apply op)) (id : ProposalId) : Lasting (clearExpiredProposal env apply id) := by
  refine Lasting.get ?_
  intro s hs
  have hcatch := (pushProposal_lasting h (s.ref id)).tryCatch
    (h := fun e => if e = .refused then remove (s.ref id) else throw e)
    (fun e => Lasting.ite (remove_lasting _) (Lasting.of_throw e))
  exact Lasting.ite hcatch (remove_lasting _) s hs

theorem clearExpiredProposals_lasting (env : Env O L) (producing : Bool) (fuel turns : Nat) :
    Lasting (clearExpiredProposals env producing fuel turns) := by
  induction turns with
  | zero => exact Lasting.of_throw _
  | succ turns ih =>
      refine Lasting.get ?_
      intro s hs
      cases s.firstToExpire with
      | none => exact Lasting.of_pure s hs
      | some id =>
          have hturn := clearExpiredProposal_lasting env (applyOperation_lasting env producing fuel 0) id
          exact Lasting.ite (hturn.bind ih) Lasting.of_pure s hs

theorem applyTransaction_lasting (env : Env O L) (producing : Bool) (fuel : Nat) (ops : List (Operation O)) :
    Lasting (applyTransaction env producing fuel ops) := by
  induction ops with
  | nil => exact Lasting.of_pure
  | cons op ops ih => exact (applyOperation_lasting env producing fuel 0 op).bind ih

theorem rollback_lasting (old : State O L) (e : Halt) : Lasting (rollback old e) := by
  cases e with
  | refused =>
      have hundo : Lasting (modify (fun s => s.undo old) : M O L Unit) := Lasting.of_modify (fun _ hs => hs)
      exact hundo.bind (Lasting.of_throw _)
  | undefined => exact Lasting.of_throw _
  | outOfFuel => exact Lasting.of_throw _

/-! ## Undisturbed runs -/

/-- The run disturbs no execution. -/
def Quiet (m : M O L Unit) (s : State O L) : Prop := (after m s).disturbed = false

/-- **Both exits of a run that disturbs no execution.** -/
def Undisturbed (Q : State O L → Prop) (T : Halt → State O L → Prop) (m : M O L Unit) (s : State O L) : Prop :=
  Quiet m s → Ends (fun _ s' => Q s') T m s

namespace Undisturbed

variable {P Q : State O L → Prop} {T : Halt → State O L → Prop} {m : M O L Unit} {s : State O L}

theorem of_pure (h : Q s) : Undisturbed Q T (pure ()) s := fun _ => h

theorem of_throw {e : Halt} (h : T e s) : Undisturbed Q T (throw e) s := fun _ => h

theorem of_set {t : State O L} (h : t.disturbed = false → Q t) : Undisturbed Q T (set t) s := fun hq => h hq

theorem get_bind {f : State O L → M O L Unit} (h : Undisturbed Q T (f s) s) : Undisturbed Q T (get >>= f) s := h

theorem set_bind {t : State O L} {f : PUnit → M O L Unit} (h : Undisturbed Q T (f ⟨⟩) t) :
    Undisturbed Q T (set t >>= f) s := h

theorem modify_bind {g : State O L → State O L} {f : PUnit → M O L Unit} (h : Undisturbed Q T (f ⟨⟩) (g s)) :
    Undisturbed Q T (modify g >>= f) s := h

/-- A check: what follows may use what was checked. -/
theorem check {c : Prop} [Decidable c] {f : Unit → M O L Unit} (hT : T .refused s)
    (h : c → Undisturbed Q T (f ()) s) : Undisturbed Q T (check c >>= f) s := by
  unfold Proposals.check
  by_cases hc : c
  · rw [if_pos hc]
    exact h hc
  · rw [if_neg hc]
    exact of_throw hT

theorem ite {c : Prop} [Decidable c] {n : M O L Unit} (hm : c → Undisturbed Q T m s)
    (hn : ¬c → Undisturbed Q T n s) : Undisturbed Q T (if c then m else n) s :=
  fun hq => Ends.ite (fun hc => hm hc (by rwa [if_pos hc] at hq)) (fun hc => hn hc (by rwa [if_neg hc] at hq))

theorem congr {n : M O L Unit} {t : State O L} (he : m s = n t) (h : Undisturbed Q T n t) : Undisturbed Q T m s := by
  unfold Undisturbed Quiet after Ends at h ⊢
  rw [he]
  exact h

/-- A run that ends undisturbed began so. -/
theorem start (hlast : Lasting m) (h : s.disturbed = false → Undisturbed Q T m s) : Undisturbed Q T m s := by
  intro hq
  refine h ?_ hq
  by_contra hd
  have hstill : (after m s).disturbed = true := hlast s (eq_true_of_ne_false hd)
  exact absurd (hstill.symm.trans hq) (by decide)

theorem mono {Q' : State O L → Prop} {T' : Halt → State O L → Prop} (h : Undisturbed Q T m s)
    (hQ : ∀ s', Q s' → Q' s') (hT : ∀ e s', T e s' → T' e s') : Undisturbed Q' T' m s :=
  fun hq => (h hq).mono (fun _ s' => hQ s') hT

/-- **The rule of sequence**: a run that ends undisturbed was so all the way. -/
theorem bind {f : Unit → M O L Unit} (hlast : Lasting (f ())) (hm : Undisturbed P T m s)
    (hf : ∀ s', m s = .ok () s' → P s' → Undisturbed Q T (f ()) s') : Undisturbed Q T (m >>= f) s := by
  intro hq
  unfold Quiet after at hq
  rw [bind_run] at hq
  have hquiet : Quiet m s := by
    unfold Quiet after
    cases hr : m s with
    | error e s' =>
        rw [hr] at hq
        exact hq
    | ok u s' =>
        rw [hr] at hq
        by_contra hd
        have hstill : (after (f ()) s').disturbed = true := hlast s' (eq_true_of_ne_false hd)
        exact absurd (hstill.symm.trans hq) (by decide)
  refine (hm hquiet).bind ?_
  intro u s' hr hP
  rw [hr] at hq
  exact hf s' hr hP hq

/-- **The rule of catch.** -/
theorem tryCatch {T' : Halt → State O L → Prop} {h : Halt → M O L Unit} (hlast : ∀ e, Lasting (h e))
    (hm : Undisturbed Q T' m s)
    (hh : ∀ e s', m s = .error e s' → T' e s' → Undisturbed Q T (h e) s') :
    Undisturbed Q T (tryCatch m h) s := by
  intro hq
  unfold Quiet after at hq
  rw [tryCatch_run] at hq
  have hquiet : Quiet m s := by
    unfold Quiet after
    cases hr : m s with
    | ok u s' =>
        rw [hr] at hq
        exact hq
    | error e s' =>
        rw [hr] at hq
        by_contra hd
        have hstill : (after (h e) s').disturbed = true := hlast e s' (eq_true_of_ne_false hd)
        exact absurd (hstill.symm.trans hq) (by decide)
  refine (hm hquiet).tryCatch ?_
  intro e s' hr hT
  rw [hr] at hq
  exact hh e s' hr hT hq

end Undisturbed

/-! ## Weights -/

mutual

/-- **The weight of an operation**: what it may add to the proposals that wait, and one for itself. -/
def Operation.weight : Operation O → Nat
  | .other _            => 1
  | .create _ _ _ _ ops => Operation.weightAll ops + 1
  | .update _           => 1
  | .delete _ _ _       => 1

def Operation.weightAll : List (Operation O) → Nat
  | []        => 0
  | op :: ops => op.weight + Operation.weightAll ops

end

theorem Operation.weight_pos (op : Operation O) : 0 < op.weight := by
  cases op with
  | other o => exact Nat.one_pos
  | create author title expirationTime reviewPeriodTime ops =>
      unfold Operation.weight
      exact Nat.succ_pos _
  | update u => exact Nat.one_pos
  | delete author title requester => exact Nat.one_pos

/-- The weight of a proposal exceeds that of its operations. -/
def Proposal.weight (p : Proposal O) : Nat := Operation.weightAll p.operations + 1

namespace State

/-- The proposals that wait. -/
def waiting (s : State O L) : Finset ProposalId := s.proposals.keys.toFinset \ s.executing.toFinset

/-- **The potential.** -/
def potential (s : State O L) : Nat := ∑ id ∈ s.waiting, (s.proposals.row id).weight

variable {s : State O L} {id : ProposalId}

theorem mem_waiting : id ∈ s.waiting ↔ id ∈ s.proposals.keys ∧ id ∉ s.executing := by
  unfold waiting
  rw [Finset.mem_sdiff, List.mem_toFinset, List.mem_toFinset]

/-- **A proposal that begins takes its weight with it.** -/
theorem potential_begin (hin : id ∈ s.proposals.keys) (hout : id ∉ s.executing) :
    (s.begin id).potential + (s.proposals.row id).weight = s.potential := by
  have hw : (s.begin id).waiting = s.waiting.erase id := by
    ext i
    rw [Finset.mem_erase, mem_waiting, mem_waiting]
    show i ∈ s.proposals.keys ∧ i ∉ id :: s.executing ↔ _
    rw [List.mem_cons, not_or]
    exact and_left_comm
  unfold potential
  rw [hw]
  exact Finset.sum_erase_add _ _ (mem_waiting.mpr ⟨hin, hout⟩)

/-- A proposal that is done and removed did not wait before. -/
theorem potential_removed {rest : List ProposalId} (h : s.executing = id :: rest) :
    (s.finish.removeProposal id).potential = s.potential := by
  have hw : (s.finish.removeProposal id).waiting = s.waiting := by
    ext i
    rw [mem_waiting, mem_waiting, h, List.mem_cons, not_or]
    show i ∈ (s.proposals.erase id).keys ∧ i ∉ s.executing.tail ↔ _
    rw [Table.mem_erase_keys, h, List.tail_cons, and_comm (a := i ≠ id), and_assoc]
  unfold potential
  rw [hw]
  rfl

theorem potential_removeProposal : (s.removeProposal id).potential ≤ s.potential := by
  have hw : (s.removeProposal id).waiting ⊆ s.waiting := by
    intro i hi
    rw [mem_waiting] at hi ⊢
    exact ⟨(Table.mem_erase_keys.mp hi.1).2, hi.2⟩
  exact Finset.sum_le_sum_of_subset hw

/-- **A new proposal adds its weight.** -/
theorem potential_insert {p : Proposal O} {n : ProposalId} (hnew : s.nextId ∉ s.proposals.keys) :
    ({ s with proposals := s.proposals.insert s.nextId p, nextId := n } : State O L).potential
      ≤ s.potential + p.weight := by
  have hw : ({ s with proposals := s.proposals.insert s.nextId p, nextId := n } : State O L).waiting
      ⊆ insert s.nextId s.waiting := by
    intro i hi
    rw [mem_waiting] at hi
    rw [Finset.mem_insert, mem_waiting]
    rcases (Table.mem_insert_keys hnew).mp hi.1 with hi' | rfl
    · exact .inr ⟨hi', hi.2⟩
    · exact .inl rfl
  have hout : s.nextId ∉ s.waiting := fun h => hnew (mem_waiting.mp h).1
  unfold potential
  refine (Finset.sum_le_sum_of_subset hw).trans ?_
  rw [Finset.sum_insert hout, Table.insert_row_self hnew, add_comm]
  refine Nat.add_le_add_right (le_of_eq (Finset.sum_congr rfl ?_)) _
  intro i hi
  rw [Table.insert_row_of_mem hnew (mem_waiting.mp hi).1]

/-- A change of a proposal that leaves its operations. -/
theorem potential_modify {f : Proposal O → Proposal O}
    (h : (f (s.proposals.row id)).operations = (s.proposals.row id).operations) :
    ({ s with proposals := s.proposals.modify id f } : State O L).potential = s.potential := by
  refine Finset.sum_congr rfl ?_
  intro i _
  show ((s.proposals.modify id f).row i).weight = _
  by_cases hi : i = id
  · rw [hi, Table.modify_row_self]
    unfold Proposal.weight
    rw [h]
  · rw [Table.modify_row_of_ne hi]

end State

/-! ## Advances -/

/-- The proposal that an entry is about. -/
def Entry.id : Entry O L → ProposalId
  | .began id _ _  => id
  | .applied id _  => id

/-- What the journal tells about one proposal. -/
def State.events (s : State O L) (id : ProposalId) : List (Entry O L) :=
  s.journal.filter (fun e => decide (e.id = id))

/-- Nothing is told about any proposal, or something about one of them. -/
def nothing : ProposalId → List (Entry O L) := fun _ => []

def about (id : ProposalId) (l : List (Entry O L)) : ProposalId → List (Entry O L) := fun i => if i = id then l else []

theorem about_self {id : ProposalId} {l : List (Entry O L)} : about id l id = l := if_pos rfl

theorem about_of_ne {id i : ProposalId} {l : List (Entry O L)} (h : i ≠ id) : about id l i = [] := if_neg h

theorem about_append {id : ProposalId} {l l' : List (Entry O L)} (i : ProposalId) :
    about id l i ++ about id l' i = about id (l ++ l') i := by
  by_cases h : i = id
  · rw [h, about_self, about_self, about_self]
  · rw [about_of_ne h, about_of_ne h, about_of_ne h]
    rfl

/-- **What a program may do in the middle of executions**, with the weight it may add and what it tells about the
    proposals that are being executed. -/
structure Advance (w : Nat) (told : ProposalId → List (Entry O L)) (s s' : State O L) : Prop where
  executing : s'.executing = s.executing
  now       : s'.now = s.now
  removals  : ∀ id ∈ s.executing, s'.removals id = s.removals id
  stays     : ∀ id ∈ s.executing, id ∈ s.proposals.keys → id ∈ s'.proposals.keys
  expires   : ∀ id ∈ s'.proposals.keys, id ∈ s.proposals.keys ∧
    (s'.proposals.row id).expirationTime = (s.proposals.row id).expirationTime ∨
    s.now < (s'.proposals.row id).expirationTime
  events    : ∀ id ∈ s.executing, s'.events id = s.events id ++ told id
  potential : s'.potential ≤ s.potential + w

/-- **How a program may halt**: it throws, and destroyed no proposal that was being executed, or its fuel was no more
    than a bound. -/
def Halts (s : State O L) (short : Prop) : Halt → State O L → Prop
  | .refused,   s' => ∀ id ∈ s.executing, s'.removals id = s.removals id
  | .undefined, _  => False
  | .outOfFuel, _  => short

section Advance

variable {s s' s'' : State O L} {v w : Nat} {told told' : ProposalId → List (Entry O L)}

theorem Advance.refl (s : State O L) : Advance 0 nothing s s where
  executing := rfl
  now       := rfl
  removals  := fun _ _ => rfl
  stays     := fun _ _ h => h
  expires   := fun _ h => .inl ⟨h, rfl⟩
  events    := fun _ _ => (List.append_nil _).symm
  potential := le_rfl

theorem Advance.trans (h : Advance v told s s') (h' : Advance w told' s' s'') :
    Advance (v + w) (fun id => told id ++ told' id) s s'' where
  executing := h'.executing.trans h.executing
  now       := h'.now.trans h.now
  removals  := fun id hid => (h'.removals id (h.executing ▸ hid)).trans (h.removals id hid)
  stays     := fun id hid hin => h'.stays id (h.executing ▸ hid) (h.stays id hid hin)
  expires   := by
    intro id hid
    rcases h'.expires id hid with ⟨hin, he⟩ | hlate
    · rw [he]
      exact h.expires id hin
    · exact .inr (h.now ▸ hlate)
  events    := by
    intro id hid
    rw [h'.events id (h.executing ▸ hid), h.events id hid, List.append_assoc]
  potential := by
    have h₁ := h.potential
    have h₂ := h'.potential
    omega

theorem Advance.mono (h : Advance v told s s') (hw : v ≤ w) (ht : ∀ id, told id = told' id) :
    Advance w told' s s' :=
  { h with
    events    := fun id hid => (h.events id hid).trans (congrArg _ (ht id))
    potential := h.potential.trans (Nat.add_le_add_left hw _) }

theorem Halts.mono {short short' : Prop} {e : Halt} (h : Halts s short e s') (hs : short → short') :
    Halts s short' e s' := by
  cases e with
  | refused => exact h
  | undefined => exact h
  | outOfFuel => exact hs h

/-- A program halts after an advance. -/
theorem Halts.after {short : Prop} {e : Halt} (h : Halts s' short e s'') (ha : Advance w told s s') :
    Halts s short e s'' := by
  cases e with
  | refused => exact fun id hid => (h id (ha.executing ▸ hid)).trans (ha.removals id hid)
  | undefined => exact h
  | outOfFuel => exact h

end Advance

end Proposals

end VizNode
