import VizNode.Chain.Pending
import Mathlib.Data.Prod.Lex

/-!
# `VizNode.Chain.Preference` — the order between branches

`compare_fork_branches` weighs two branches above their fork: each validator counts once with its votes
*in the current state*, and the longer branch gets ten percent more. Swapping the branches negates the
answer. Everything else about an order depends on where the branches fork and on how long they are: both
enter the weight of a branch, so a branch has a different weight in every comparison.

## Contents
- **Antisymmetry**, for the weights and for the lookup behind them.
- **Tips of one height over one fork** are ordered by a key of their own, so there is no cycle.
- **Two nodes** that see the same votes agree.
-/

namespace VizNode

/-! ## The comparison of two branches -/

namespace Core

variable {Tx L : Type}

/-- **Swapping the branches negates the answer.** -/
theorem compareBranches_antisymm (c : Core L) (n m : Nat) (as bs : List (ForkItem Tx)) :
    c.compareBranches n m as bs = - c.compareBranches m n bs as := by
  unfold compareBranches
  dsimp only
  generalize c.branchInfo as = a
  generalize c.branchInfo bs = b
  cases c.emergencyConsensusActive <;> cases a.hasEmergency <;> cases b.hasEmergency
  case true.true.false | true.false.true => simp
  all_goals
    simp only [Bool.not_true, Bool.not_false, Bool.false_eq_true, and_true, and_false, if_false]
    cases bonusWeight (decide (m < n)) a.weight <;> cases bonusWeight (decide (n < m)) b.weight
    case some.some wa wb =>
      simp only
      rcases lt_trichotomy wa wb with h | h | h
      · rw [if_neg h.le.not_gt, if_pos h, if_pos h]
      · simp [h]
      · rw [if_pos h, if_neg h.le.not_gt, if_pos h]; rfl
    all_goals rfl

/-- What decides between branches of one length: a committee block in emergency mode, then the votes. -/
def branchKey (c : Core L) (branch : List (ForkItem Tx)) : Bool ×ₗ Int :=
  toLex (c.emergencyConsensusActive && (c.branchInfo branch).hasEmergency, (c.branchInfo branch).weight)

/-- **Branches of one length are compared by their keys.** -/
theorem compareBranches_pos_iff (c : Core L) (n : Nat) (as bs : List (ForkItem Tx)) :
    0 < c.compareBranches n n as bs ↔ c.branchKey bs < c.branchKey as := by
  unfold compareBranches branchKey bonusWeight
  rw [Prod.Lex.toLex_lt_toLex]
  dsimp only
  generalize c.branchInfo as = a
  generalize c.branchInfo bs = b
  cases c.emergencyConsensusActive <;> cases a.hasEmergency <;> cases b.hasEmergency
  case true.true.false | true.false.true => simp
  all_goals
    simp only [decide_false, Bool.not_true, Bool.not_false, Bool.false_eq_true, and_true,
      and_false, if_false, Bool.and_self, Bool.and_false, Bool.false_and, lt_self_iff_false,
      true_and, false_or]
    rcases lt_trichotomy a.weight b.weight with h | h | h
    · simp [h, h.le.not_gt]
    · simp [h]
    · simp [h]

/-- The votes of a validator, when there is one of this name. -/
def votesOf (c : Core L) (name : AccountName) : Option Int := (c.findValidator name).map (·.votes)

/-- One block adds the same to a branch in two states that agree on the votes of its validator. -/
theorem addBlockWeight_congr {c₁ c₂ : Core L} {x₁ x₂ : ForkItem Tx} (hd : x₁.data = x₂.data)
    (hv : c₁.votesOf x₁.data.validator = c₂.votesOf x₁.data.validator) (r : BranchInfo) :
    c₁.addBlockWeight r x₁ = c₂.addBlockWeight r x₂ := by
  unfold addBlockWeight
  unfold votesOf at hv
  rw [← hd]
  cases h₁ : c₁.findValidator x₁.data.validator <;> cases h₂ : c₂.findValidator x₁.data.validator <;>
    simp_all

/-- The weight of a branch depends on its blocks and on the votes of their validators. -/
theorem branchInfo_congr {c₁ c₂ : Core L} {l₁ l₂ : List (ForkItem Tx)}
    (hd : l₁.map (·.data) = l₂.map (·.data))
    (hv : ∀ x ∈ l₁, c₁.votesOf x.data.validator = c₂.votesOf x.data.validator) :
    c₁.branchInfo l₁ = c₂.branchInfo l₂ := by
  unfold branchInfo
  generalize ({} : BranchInfo) = r
  induction l₁ generalizing l₂ r with
  | nil =>
      obtain rfl : l₂ = [] := by simpa using hd.symm
      rfl
  | cons x l₁ ih =>
      cases l₂ with
      | nil => exact absurd hd (by simp)
      | cons y l₂ =>
          obtain ⟨hxy, hd'⟩ := List.cons.inj hd
          rw [List.foldl_cons, List.foldl_cons, addBlockWeight_congr hxy (hv x (by simp)) r]
          exact ih hd' (fun z hz => hv z (by simp [hz])) _

/-- **Two states that agree on the emergency mode and on the votes compare two branches alike.** -/
theorem compareBranches_congr {c₁ c₂ : Core L} (n m : Nat) {as₁ as₂ bs₁ bs₂ : List (ForkItem Tx)}
    (he : c₁.emergencyConsensusActive = c₂.emergencyConsensusActive)
    (ha : as₁.map (·.data) = as₂.map (·.data)) (hb : bs₁.map (·.data) = bs₂.map (·.data))
    (hv : ∀ x ∈ as₁ ++ bs₁, c₁.votesOf x.data.validator = c₂.votesOf x.data.validator) :
    c₁.compareBranches n m as₁ bs₁ = c₂.compareBranches n m as₂ bs₂ := by
  have hA : c₁.branchInfo as₁ = c₂.branchInfo as₂ :=
    branchInfo_congr ha (fun x hx => hv x (List.mem_append_left _ hx))
  have hB : c₁.branchInfo bs₁ = c₂.branchInfo bs₂ :=
    branchInfo_congr hb (fun x hx => hv x (List.mem_append_right _ hx))
  unfold compareBranches
  rw [he, hA, hB]

end Core

/-! ## The comparison of two tips -/

namespace ForkDatabase

variable {Tx : Type} {U : SignedBlock Tx → Prop}

/-- The block above which two branches are compared. -/
def forkPoint (f : ForkDatabase Tx) (a b : BlockId) : Option BlockId :=
  match f.fetchBranchFrom a b with
  | .error _      => none
  | .ok (as, _)   => as.getLast?.map (·.previousId)

/-- The branch of one tip is the same in two lookups that end over the same fork. -/
theorem Forked.branch_eq {f : ForkDatabase Tx} {a b c : BlockId} {as bs as' cs : List (ForkItem Tx)}
    (h₁ : Forked f a b as bs) (h₂ : Forked f a c as' cs)
    (hp : (as.getLast h₁.neA).previousId = (as'.getLast h₂.neA).previousId) : as = as' := by
  have hn : (as.getLast h₁.neA).num = (as'.getLast h₂.neA).num :=
    congrArg (fun id : BlockId => (id.num + 1) % 2 ^ 32) hp
  have l₁ := h₁.lenA
  have l₂ := h₂.lenA
  exact h₁.trailA.eq_of_length h₂.trailA (h₁.tipA.trans h₂.tipA.symm) (by omega)

theorem Forked.swap {f : ForkDatabase Tx} {a b : BlockId} {as bs : List (ForkItem Tx)}
    (h : Forked f a b as bs) : Forked f b a bs as where
  trailA := h.trailB
  trailB := h.trailA
  tipA := h.tipB
  tipB := h.tipA
  neA := h.neB
  neB := h.neA
  fork := h.fork.symm
  lenA := h.lenB
  lenB := h.lenA
  liveA := h.liveB
  liveB := h.liveA

/-- The block both branches of a lookup end over. -/
theorem Forked.forkPoint_eq {f : ForkDatabase Tx} {a b : BlockId} {as bs : List (ForkItem Tx)}
    (h : Forked f a b as bs) (hr : f.fetchBranchFrom a b = .ok (as, bs)) :
    f.forkPoint a b = some (as.getLast h.neA).previousId := by
  simp [forkPoint, hr, List.getLast?_eq_some_getLast h.neA]

end ForkDatabase

namespace Database

open ForkDatabase (Linked Forked fetchBranchFrom_ok fetchBranchFrom_swap fetchBranchFrom_known find)

variable {Tx L : Type} {U : SignedBlock Tx → Prop}

theorem compareForkBranches_swap {db : Database Tx L} (hf : Linked U db.forkDb) (a b : BlockId) :
    db.compareForkBranches a b = - db.compareForkBranches b a := by
  unfold compareForkBranches
  rw [Bool.or_comm, fetchBranchFrom_swap hf a b]
  split
  · rfl
  · cases db.forkDb.fetchBranchFrom a b with
    | error e => rfl
    | ok r => exact Core.compareBranches_antisymm _ _ _ _ _

/-- A preference comes from two branches that were walked. -/
theorem branches_of_compare_pos {db : Database Tx L} {a b : BlockId}
    (h : 0 < db.compareForkBranches a b) :
    ∃ as bs, db.forkDb.fetchBranchFrom a b = .ok (as, bs) ∧
      0 < db.state.core.compareBranches a.num b.num as bs := by
  unfold compareForkBranches at h
  split at h
  · exact absurd h (by simp)
  · split at h
    · exact absurd h (by simp)
    · next as bs hr => exact ⟨as, bs, hr, h⟩

theorem compareForkBranches_of_branches {db : Database Tx L} {a b : BlockId}
    {as bs : List (ForkItem Tx)} (hr : db.forkDb.fetchBranchFrom a b = .ok (as, bs)) :
    db.compareForkBranches a b = db.state.core.compareBranches a.num b.num as bs := by
  obtain ⟨x, y, hx, hy⟩ := fetchBranchFrom_known hr
  simp [compareForkBranches, ForkDatabase.isKnownBlock, hx, hy, hr]

/-- Three tips of one height over one fork do not prefer each other in a circle. -/
theorem compareForkBranches_acyclic {db : Database Tx L} (hf : Linked U db.forkDb) {a b c : BlockId}
    (hab : a.num = b.num) (hbc : b.num = c.num)
    (hp₁ : db.forkDb.forkPoint a b = db.forkDb.forkPoint b c)
    (hp₂ : db.forkDb.forkPoint b c = db.forkDb.forkPoint c a) :
    ¬ (0 < db.compareForkBranches a b ∧ 0 < db.compareForkBranches b c ∧
      0 < db.compareForkBranches c a) := by
  rintro ⟨h₁, h₂, h₃⟩
  obtain ⟨as, bs, hr₁, c₁⟩ := branches_of_compare_pos h₁
  obtain ⟨bs', cs, hr₂, c₂⟩ := branches_of_compare_pos h₂
  obtain ⟨cs', as', hr₃, c₃⟩ := branches_of_compare_pos h₃
  have f₁ := fetchBranchFrom_ok hf hr₁
  have f₂ := fetchBranchFrom_ok hf hr₂
  have f₃ := fetchBranchFrom_ok hf hr₃
  rw [f₁.forkPoint_eq hr₁, f₂.forkPoint_eq hr₂] at hp₁
  rw [f₂.forkPoint_eq hr₂, f₃.forkPoint_eq hr₃] at hp₂
  have e₁ : (as.getLast f₁.neA).previousId = (bs'.getLast f₂.neA).previousId := Option.some.inj hp₁
  have e₂ : (bs'.getLast f₂.neA).previousId = (cs'.getLast f₃.neA).previousId := Option.some.inj hp₂
  -- every tip has one branch over the common fork, so one key in both of its comparisons
  obtain rfl : bs = bs' := f₁.swap.branch_eq f₂ (f₁.fork.symm.trans e₁)
  obtain rfl : cs = cs' := f₂.swap.branch_eq f₃ (f₂.fork.symm.trans e₂)
  obtain rfl : as = as' := f₁.branch_eq f₃.swap (e₁.trans (e₂.trans f₃.fork))
  rw [hab, Core.compareBranches_pos_iff] at c₁
  rw [hbc, Core.compareBranches_pos_iff] at c₂
  rw [← hbc, ← hab, Core.compareBranches_pos_iff] at c₃
  exact absurd (c₁.trans c₃) (lt_asymm c₂)

/-- **The preference is antisymmetric, and acyclic among tips of one height over one fork.** -/
theorem compareForkBranches_order {db : Database Tx L} (hf : Linked U db.forkDb) :
    (∀ a b, db.compareForkBranches a b = - db.compareForkBranches b a) ∧
    ∀ a b c : BlockId, a.num = b.num → b.num = c.num →
      db.forkDb.forkPoint a b = db.forkDb.forkPoint b c →
      db.forkDb.forkPoint b c = db.forkDb.forkPoint c a →
      ¬ (0 < db.compareForkBranches a b ∧ 0 < db.compareForkBranches b c ∧
        0 < db.compareForkBranches c a) :=
  ⟨compareForkBranches_swap hf, fun _ _ _ => compareForkBranches_acyclic hf⟩

end Database

namespace Sample

/-- Three validators of 10, 9 and 15 votes. -/
def prefixNode : Database Tx Unit := node [validator 1 10, validator 2 9, validator 3 15] [3, 1, 2]

/-- A branch of the third validator, and a block of the first one with two blocks on top of it. -/
def prefixBlocks : List (SignedBlock Tx) :=
  let c₁ := block block1.id 9 3 5
  let s := block block1.id 12 1 2
  [c₁, block c₁.id 18 3 6, s, block s.id 21 1 3, block s.id 15 2 4]

/-- Three validators of 100, 105 and 112 votes. -/
def bonusNode : Database Tx Unit := node [validator 1 100, validator 2 105, validator 3 112] [3, 1, 2]

/-- Branches of one block, two blocks and three blocks over the first one, each of one validator. -/
def bonusBlocks : List (SignedBlock Tx) :=
  let e₁ := block block1.id 6 2 3
  let g₁ := block block1.id 12 1 5
  let g₂ := block g₁.id 21 1 6
  [block block1.id 9 3 2, e₁, block e₁.id 15 2 4, g₁, g₂, block g₂.id 30 1 7]

end Sample

namespace Database

open ForkDatabase (Linked SameLinks)

variable {Tx L : Type} {U : SignedBlock Tx → Prop}

open Sample in
/-- **The preference has cycles**: among tips of one height whose branches fork at different blocks, and
    among tips over one fork whose heights differ. -/
theorem compareForkBranches_cycle :
    (let db := push prefixNode prefixBlocks
     (∀ id ∈ [(⟨3, 3⟩ : BlockId), ⟨3, 4⟩, ⟨3, 6⟩], (ForkDatabase.find db.forkDb.index id).isSome = true) ∧
     0 < db.compareForkBranches ⟨3, 3⟩ ⟨3, 4⟩ ∧ 0 < db.compareForkBranches ⟨3, 4⟩ ⟨3, 6⟩ ∧
       0 < db.compareForkBranches ⟨3, 6⟩ ⟨3, 3⟩) ∧
    (let db := push bonusNode bonusBlocks
     (∀ id ∈ [(⟨4, 7⟩ : BlockId), ⟨3, 4⟩, ⟨2, 2⟩], (ForkDatabase.find db.forkDb.index id).isSome = true ∧
        ∀ id' ∈ [(⟨4, 7⟩ : BlockId), ⟨3, 4⟩, ⟨2, 2⟩], id ≠ id' → db.forkDb.forkPoint id id' = some block1.id) ∧
     0 < db.compareForkBranches ⟨4, 7⟩ ⟨3, 4⟩ ∧ 0 < db.compareForkBranches ⟨3, 4⟩ ⟨2, 2⟩ ∧
       0 < db.compareForkBranches ⟨2, 2⟩ ⟨4, 7⟩) := by
  decide +kernel

open Sample in
/-- The order at the first of these nodes. -/
theorem compareForkBranches_order_sample :
    (push prefixNode prefixBlocks).compareForkBranches ⟨3, 3⟩ ⟨3, 4⟩ =
        - (push prefixNode prefixBlocks).compareForkBranches ⟨3, 4⟩ ⟨3, 3⟩ ∧
      0 < (push prefixNode prefixBlocks).compareForkBranches ⟨3, 3⟩ ⟨3, 4⟩ :=
  ⟨(compareForkBranches_order (U := fun _ => True)
      (push_stored (node_stored trivial _ _) (fun _ _ => trivial)).sound.linked).1 _ _,
    by decide +kernel⟩

/-! ## Two nodes -/

/-- **Two nodes that hold the same linked blocks and agree on the emergency mode and on the votes of the
    validators in two branches prefer the same branch**, whatever else they have applied. -/
theorem compareForkBranches_agree (hinj : ∀ a b, U a → U b → a.id = b.id → a = b)
    {db₁ db₂ : Database Tx L} (hf₁ : Linked U db₁.forkDb) (hf₂ : Linked U db₂.forkDb)
    (hs : SameLinks db₁.forkDb db₂.forkDb) {a b : BlockId}
    (he : db₁.state.core.emergencyConsensusActive = db₂.state.core.emergencyConsensusActive)
    (hv : ∀ as bs, db₁.forkDb.fetchBranchFrom a b = .ok (as, bs) → ∀ x ∈ as ++ bs,
      db₁.state.core.votesOf x.data.validator = db₂.state.core.votesOf x.data.validator) :
    db₁.compareForkBranches a b = db₂.compareForkBranches a b := by
  have halike := ForkDatabase.fetchBranchFrom_alike hinj hf₁ hf₂ hs a b
  cases hr₁ : db₁.forkDb.fetchBranchFrom a b with
  | error e₁ =>
      cases hr₂ : db₂.forkDb.fetchBranchFrom a b with
      | error e₂ => simp [compareForkBranches, hr₁, hr₂]
      | ok r₂ => rw [hr₁, hr₂] at halike; exact halike.elim
  | ok r₁ =>
      cases hr₂ : db₂.forkDb.fetchBranchFrom a b with
      | error e₂ => rw [hr₁, hr₂] at halike; exact halike.elim
      | ok r₂ =>
          rw [hr₁, hr₂] at halike
          rw [compareForkBranches_of_branches hr₁, compareForkBranches_of_branches hr₂]
          exact Core.compareBranches_congr _ _ he halike.1 halike.2 (hv r₁.1 r₁.2 hr₁)

end Database

namespace Sample

/-- Two competing blocks over the first one, each of a validator that votes for itself in it. -/
def votingBlocks : SignedBlock Tx × SignedBlock Tx :=
  (block block1.id 6 3 2 [[.adjustVote 3 100]], block block1.id 9 4 3 [[.adjustVote 4 100]])

/-- The same two blocks without the votes. -/
def plainBlocks : SignedBlock Tx × SignedBlock Tx := (block block1.id 6 3 2, block block1.id 9 4 3)

end Sample

namespace Database

open ForkDatabase (SameLinks)

open Sample in
/-- **Two nodes that hold the same linked blocks disagree**: each one counts the votes of its own branch. -/
theorem compareForkBranches_disagree :
    let a := votingBlocks.1
    let b := votingBlocks.2
    let db₁ := push four [a, b]
    let db₂ := push four [b, a]
    db₁.headBlockId = a.id ∧ db₂.headBlockId = b.id ∧
      (∀ x ∈ db₁.forkDb.index, ∃ y ∈ db₂.forkDb.index, y.data = x.data) ∧
      (∀ y ∈ db₂.forkDb.index, ∃ x ∈ db₁.forkDb.index, x.data = y.data) ∧
      db₁.compareForkBranches a.id b.id = 1 ∧ db₂.compareForkBranches a.id b.id = -1 := by
  decide +kernel

open Sample in
/-- Two nodes with different heads that agree. -/
theorem compareForkBranches_agree_plain :
    (push four [plainBlocks.1, plainBlocks.2]).headBlockId ≠ (push four [plainBlocks.2, plainBlocks.1]).headBlockId ∧
      (push four [plainBlocks.1, plainBlocks.2]).compareForkBranches plainBlocks.1.id plainBlocks.2.id =
        (push four [plainBlocks.2, plainBlocks.1]).compareForkBranches plainBlocks.1.id plainBlocks.2.id := by
  have hinj : ∀ a ∈ [block1, plainBlocks.1, plainBlocks.2], ∀ b ∈ [block1, plainBlocks.1, plainBlocks.2],
      a.id = b.id → a = b := by decide +kernel
  have hvotes : ∀ b ∈ [block1, plainBlocks.1, plainBlocks.2],
      (push four [plainBlocks.1, plainBlocks.2]).state.core.votesOf b.validator =
        (push four [plainBlocks.2, plainBlocks.1]).state.core.votesOf b.validator := by decide +kernel
  have hstart : Stored (· ∈ [block1, plainBlocks.1, plainBlocks.2]) four := node_stored (by simp) _ _
  have hs₁ : Stored (· ∈ [block1, plainBlocks.1, plainBlocks.2]) (push four [plainBlocks.1, plainBlocks.2]) :=
    push_stored hstart (by simp)
  have hs₂ : Stored (· ∈ [block1, plainBlocks.1, plainBlocks.2]) (push four [plainBlocks.2, plainBlocks.1]) :=
    push_stored hstart (by simp)
  have hl₁ := hs₁.sound.linked
  have hl₂ := hs₂.sound.linked
  refine ⟨by decide +kernel, compareForkBranches_agree (fun a b ha hb => hinj a ha b hb) hl₁ hl₂
    ⟨by decide +kernel, by decide +kernel, by decide +kernel⟩ (by decide +kernel) ?_⟩
  intro as bs hr x hx
  have hforked := ForkDatabase.fetchBranchFrom_ok hl₁ hr
  have hlive : x ∈ _ := (List.mem_append.mp hx).elim (hforked.liveA x) (hforked.liveB x)
  exact hvotes x.data (hl₁.data x hlive)

end Database

end VizNode
