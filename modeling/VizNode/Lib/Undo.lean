import Mathlib.Data.List.DropRight
import Mathlib.Data.List.Pairwise
import Mathlib.Logic.Function.Iterate
import Mathlib.Tactic.Common

/-!
# `VizNode.Lib.Undo` — a state with an undo stack

`UndoDb σ` is a state together with the saved states that can still be restored, newest first, each under
the revision that was opened when it was saved. `startSession` saves, `undo` restores the newest saved
state, `squash` merges the newest session into the one below, and `commit n` makes every revision up to
`n` permanent by forgetting its saved state, oldest first. Undoing with nothing saved changes nothing.

## Contents
- **Operations** and their effect on `layers`, the current state followed by the saved ones.
- **Numbering.** `Numbered num u`: the revisions descend one by one, and the state saved under revision
  `r` is number `r - 1`. After `commit n` no state numbered below `n` can be restored.
- **The oldest layer.** What it satisfies for good: a transitive relation between neighbouring layers
  relates every layer to the oldest one.
-/

/-- **A state with an undo stack.** The saved states are newest first. -/
structure UndoDb (σ : Type) where
  state    : σ
  stack    : List (Nat × σ)
  revision : Nat
deriving DecidableEq

namespace UndoDb

variable {σ : Type}

/-- A write outside any new session: it is part of the newest one. -/
def modify (f : σ → σ) (u : UndoDb σ) : UndoDb σ := { u with state := f u.state }

/-- Save the state under the next revision. -/
def startSession (u : UndoDb σ) : UndoDb σ :=
  { u with stack := (u.revision + 1, u.state) :: u.stack, revision := u.revision + 1 }

/-- Restore the newest saved state; nothing happens when there is none. -/
def undo (u : UndoDb σ) : UndoDb σ :=
  match u.stack with
  | []           => u
  | (_, s) :: st => { state := s, stack := st, revision := u.revision - 1 }

/-- Restore the oldest saved state. -/
def undoAll (u : UndoDb σ) : UndoDb σ := undo^[u.stack.length] u

/-- Merge the newest session into the one below it. -/
def squash (u : UndoDb σ) : UndoDb σ :=
  match u.stack with
  | []      => u
  | [_]     => { u with stack := [] }
  | _ :: st => { u with stack := st, revision := u.revision - 1 }

/-- Forget the saved states of the revisions up to `n`, oldest first. -/
def commit (n : Nat) (u : UndoDb σ) : UndoDb σ :=
  { u with stack := u.stack.rdropWhile (fun e => decide (e.1 ≤ n)) }

/-- The current state and the states that can be restored, newest first. -/
def layers (u : UndoDb σ) : List σ := u.state :: u.stack.map Prod.snd

@[simp] theorem modify_state (f : σ → σ) (u : UndoDb σ) : (u.modify f).state = f u.state := rfl
@[simp] theorem modify_stack (f : σ → σ) (u : UndoDb σ) : (u.modify f).stack = u.stack := rfl
@[simp] theorem modify_revision (f : σ → σ) (u : UndoDb σ) : (u.modify f).revision = u.revision := rfl
@[simp] theorem startSession_state (u : UndoDb σ) : u.startSession.state = u.state := rfl
@[simp] theorem startSession_stack (u : UndoDb σ) :
    u.startSession.stack = (u.revision + 1, u.state) :: u.stack := rfl
@[simp] theorem startSession_revision (u : UndoDb σ) : u.startSession.revision = u.revision + 1 := rfl
@[simp] theorem commit_state (n : Nat) (u : UndoDb σ) : (u.commit n).state = u.state := rfl
@[simp] theorem commit_revision (n : Nat) (u : UndoDb σ) : (u.commit n).revision = u.revision := rfl

theorem mem_layers {u : UndoDb σ} {s : σ} :
    s ∈ u.layers ↔ s = u.state ∨ ∃ e ∈ u.stack, e.2 = s := by
  simp [layers]

theorem state_mem_layers (u : UndoDb σ) : u.state ∈ u.layers := by simp [layers]

theorem commit_stack_le (n : Nat) (u : UndoDb σ) : (u.commit n).stack <+: u.stack :=
  List.rdropWhile_prefix _ _

theorem commit_layers_le (n : Nat) (u : UndoDb σ) : (u.commit n).layers <+: u.layers := by
  obtain ⟨t, ht⟩ := commit_stack_le n u
  refine ⟨t.map Prod.snd, ?_⟩
  simp [layers, ← ht]

/-- **What undo does**: nothing, or it restores the newest saved state. -/
theorem undo_cases (u : UndoDb σ) :
    (u.stack = [] ∧ u.undo = u) ∨
    ∃ e st, u.stack = e :: st ∧ u.undo = { state := e.2, stack := st, revision := u.revision - 1 } := by
  unfold undo
  split
  · next h => exact .inl ⟨h, rfl⟩
  · next r s st h => exact .inr ⟨(r, s), st, h, rfl⟩

/-- A session opened and undone leaves no trace, whatever was written in it. -/
theorem undo_modify_startSession (f : σ → σ) (u : UndoDb σ) :
    ((u.startSession).modify f).undo = u := by
  simp [undo, startSession, modify]

/-! ## Numbering -/

/-- The revisions of the saved states descend one by one from `rev`. -/
def Descending : Nat → List (Nat × σ) → Prop
  | _,   []      => True
  | rev, e :: st => e.1 = rev ∧ 0 < rev ∧ Descending (rev - 1) st

/-- **The revisions match the states.** The state saved under revision `r` is number `r - 1`. -/
structure Numbered (num : σ → Nat) (u : UndoDb σ) : Prop where
  desc  : Descending u.revision u.stack
  saved : ∀ e ∈ u.stack, num e.2 + 1 = e.1

theorem Descending.le {rev : Nat} {st : List (Nat × σ)} (h : Descending rev st) :
    ∀ e ∈ st, e.1 ≤ rev := by
  induction st generalizing rev with
  | nil => intro e he; exact absurd he (by simp)
  | cons x st ih =>
      intro e he
      obtain ⟨hx, hpos, hrest⟩ := h
      rcases List.mem_cons.mp he with rfl | he'
      · omega
      · have := ih hrest e he'
        omega

theorem Descending.pairwise {rev : Nat} {st : List (Nat × σ)} (h : Descending rev st) :
    st.Pairwise (fun a b => b.1 < a.1) := by
  induction st generalizing rev with
  | nil => exact List.Pairwise.nil
  | cons x st ih =>
      obtain ⟨hx, hpos, hrest⟩ := h
      refine List.Pairwise.cons ?_ (ih hrest)
      intro e he
      have := hrest.le e he
      omega

theorem Descending.of_prefix {rev : Nat} {st st' : List (Nat × σ)} (h : Descending rev st)
    (hp : st' <+: st) : Descending rev st' := by
  induction st generalizing rev st' with
  | nil => rw [List.prefix_nil.mp hp]; trivial
  | cons x st ih =>
      cases st' with
      | nil => trivial
      | cons y st' =>
          obtain ⟨rfl, hp'⟩ := List.cons_prefix_cons.mp hp
          exact ⟨h.1, h.2.1, ih h.2.2 hp'⟩

/-- **Nothing up to `n` can be restored after `commit n`.** -/
theorem Descending.lt_of_mem_commit {u : UndoDb σ} (h : Descending u.revision u.stack) {n : Nat}
    {e : Nat × σ} (he : e ∈ (u.commit n).stack) : n < e.1 := by
  have hne : (u.commit n).stack ≠ [] := List.ne_nil_of_mem he
  have hlast : ¬ decide (((u.commit n).stack.getLast hne).1 ≤ n) = true :=
    List.rdropWhile_last_not _ _ hne
  have hlt : n < ((u.commit n).stack.getLast hne).1 := by simpa using hlast
  have hpw : (u.commit n).stack.Pairwise (fun a b => b.1 < a.1) :=
    h.pairwise.sublist (commit_stack_le n u).sublist
  rw [← List.dropLast_append_getLast hne] at he hpw
  rcases List.mem_append.mp he with hd | hl
  · have := (List.pairwise_append.mp hpw).2.2 e hd _ (List.mem_singleton.mpr rfl)
    omega
  · rw [List.mem_singleton.mp hl]
    exact hlt

namespace Numbered

variable {num : σ → Nat} {u : UndoDb σ}

/-- A session may be opened when the current state carries the number of the current revision. -/
theorem startSession (h : Numbered num u) (hnum : num u.state = u.revision) :
    Numbered num u.startSession := by
  refine ⟨⟨rfl, Nat.succ_pos _, by simpa using h.desc⟩, ?_⟩
  intro e he
  rcases List.mem_cons.mp he with rfl | he'
  · simp [hnum]
  · exact h.saved e he'

theorem undo (h : Numbered num u) : Numbered num u.undo := by
  rcases undo_cases u with ⟨_, hu⟩ | ⟨e, st, hst, hu⟩
  · rw [hu]; exact h
  · have hd := h.desc
    rw [hst] at hd
    rw [hu]
    exact ⟨hd.2.2, fun x hx => h.saved x (hst ▸ List.mem_cons_of_mem e hx)⟩

theorem commit (h : Numbered num u) (n : Nat) : Numbered num (u.commit n) :=
  ⟨h.desc.of_prefix (commit_stack_le n u),
   fun e he => h.saved e ((commit_stack_le n u).subset he)⟩

theorem modify (h : Numbered num u) (f : σ → σ) : Numbered num (u.modify f) := ⟨h.desc, h.saved⟩

/-- Every state that survives `commit n` is numbered at least `n`. -/
theorem le_of_mem_commit (h : Numbered num u) {n : Nat} {e : Nat × σ}
    (he : e ∈ (u.commit n).stack) : n ≤ num e.2 := by
  have hlt := h.desc.lt_of_mem_commit he
  have := h.saved e ((commit_stack_le n u).subset he)
  omega

end Numbered

/-! ## The oldest layer -/

/-- The state that remains when everything is undone. -/
def oldest (u : UndoDb σ) : σ := u.layers.getLast (by simp [layers])

theorem oldest_mem_layers (u : UndoDb σ) : u.oldest ∈ u.layers := List.getLast_mem _

/-- **Every layer is related to the oldest one**, when newer layers are related to older ones. -/
theorem rel_oldest {r : σ → σ → Prop} {u : UndoDb σ} (hr : ∀ s, r s s)
    (h : u.layers.Pairwise r) {s : σ} (hs : s ∈ u.layers) : r s u.oldest := by
  have hne : u.layers ≠ [] := by simp [layers]
  rw [← List.dropLast_append_getLast hne] at h hs
  rcases List.mem_append.mp hs with hd | hl
  · exact (List.pairwise_append.mp h).2.2 s hd _ (List.mem_singleton.mpr rfl)
  · rw [List.mem_singleton.mp hl]
    exact hr _

theorem oldest_modify (f : σ → σ) (u : UndoDb σ) :
    (u.modify f).oldest = if u.stack = [] then f u.state else u.oldest := by
  obtain ⟨s, st, rev⟩ := u
  cases st with
  | nil => simp [oldest, layers, modify]
  | cons e st => simp [oldest, layers, modify]

theorem oldest_startSession (u : UndoDb σ) : u.startSession.oldest = u.oldest := by
  simp [oldest, layers]

theorem mem_layers_undo {u : UndoDb σ} {s : σ} (h : s ∈ u.undo.layers) : s ∈ u.layers := by
  rcases undo_cases u with ⟨_, hu⟩ | ⟨e, st, hst, hu⟩
  · rwa [hu] at h
  · rw [hu] at h
    unfold layers at h ⊢
    rw [hst]
    exact List.mem_cons_of_mem _ h

theorem oldest_undo (u : UndoDb σ) : u.undo.oldest = u.oldest := by
  rcases undo_cases u with ⟨_, hu⟩ | ⟨e, st, hst, hu⟩
  · rw [hu]
  · rw [hu]
    simp [oldest, layers, hst]

/-- The newest saved state survives a commit below it. -/
theorem commit_stack_ne_nil {u : UndoDb σ} {n : Nat} {e : Nat × σ} (he : e ∈ u.stack) (hn : n < e.1) :
    (u.commit n).stack ≠ [] := by
  intro h
  have := List.rdropWhile_eq_nil_iff.mp h e he
  simp at this
  omega

/-! ## Layers that grow -/

/-- **A well-kept stack**: every layer satisfies `ok`, newer layers are `above` older ones, and no layer
    claims finality beyond the oldest one, which is the one that can no longer be undone. -/
structure Stacked (ok : σ → Prop) (above : σ → σ → Prop) (num final : σ → Nat) (u : UndoDb σ) : Prop where
  each     : ∀ s ∈ u.layers, ok s
  order    : u.layers.Pairwise above
  numbered : Numbered num u
  settled  : ∀ s ∈ u.layers, final s ≤ num u.oldest

/-- The oldest layer of `u` lies below everything that is left in `u'`. -/
def Grounded (above : σ → σ → Prop) (u u' : UndoDb σ) : Prop := ∀ s ∈ u'.layers, above s u.oldest

section Growth

variable {ok : σ → Prop} {above : σ → σ → Prop} {num final : σ → Nat} {u : UndoDb σ}
  (hrefl : ∀ s, above s s) (htrans : ∀ r s t, above r s → above s t → above r t)
  (hnum : ∀ s t, above s t → num t ≤ num s) (hfinal : ∀ s, ok s → final s ≤ num s)

include hrefl in
theorem Stacked.grounded (h : Stacked ok above num final u) : Grounded above u u :=
  fun _ hs => rel_oldest hrefl h.order hs

include htrans in
theorem Grounded.trans {u v w : UndoDb σ} (h₁ : Grounded above u v) (h₂ : Grounded above v w) :
    Grounded above u w := fun s hs => htrans s v.oldest u.oldest (h₂ s hs) (h₁ _ (oldest_mem_layers v))

include hrefl in
theorem Stacked.startSession (h : Stacked ok above num final u) (hrev : num u.state = u.revision) :
    Stacked ok above num final u.startSession ∧ Grounded above u u.startSession := by
  have hmem : ∀ s ∈ u.startSession.layers, s ∈ u.layers := by
    intro s hs
    rcases List.mem_cons.mp hs with rfl | hs
    · exact state_mem_layers u
    · exact hs
  refine ⟨⟨fun s hs => h.each s (hmem s hs), ?_, h.numbered.startSession hrev, fun s hs => ?_⟩, ?_⟩
  · refine List.Pairwise.cons (fun t ht => ?_) h.order
    rcases List.mem_cons.mp ht with rfl | ht
    · exact hrefl _
    · exact List.rel_of_pairwise_cons h.order ht
  · rw [oldest_startSession]
    exact h.settled s (hmem s hs)
  · exact fun s hs => h.grounded hrefl s (hmem s hs)

/-- The order of the layers after a write that stays above everything below. -/
theorem order_modify (h : u.layers.Pairwise above) {f : σ → σ}
    (hf : ∀ t, above u.state t → above (f u.state) t) : (u.modify f).layers.Pairwise above := by
  unfold layers at h ⊢
  exact List.Pairwise.cons (fun t ht => hf t (List.rel_of_pairwise_cons h ht)) (List.Pairwise.of_cons h)

include hrefl in
theorem grounded_modify (h : Stacked ok above num final u) {f : σ → σ}
    (hf : ∀ t, above u.state t → above (f u.state) t) : Grounded above u (u.modify f) := by
  intro s hs
  rcases List.mem_cons.mp hs with rfl | hs
  · exact hf _ (h.grounded hrefl _ (state_mem_layers u))
  · exact h.grounded hrefl s (List.mem_cons_of_mem _ hs)

include hrefl hfinal in
/-- **A write that does not raise finality.** -/
theorem Stacked.modify (h : Stacked ok above num final u) {f : σ → σ} (hok : ok (f u.state))
    (hf : ∀ t, above u.state t → above (f u.state) t) (hle : final (f u.state) ≤ final u.state) :
    Stacked ok above num final (u.modify f) ∧ Grounded above u (u.modify f) := by
  refine ⟨⟨?_, order_modify h.order hf, h.numbered.modify f, ?_⟩, grounded_modify hrefl h hf⟩
  · intro s hs
    rcases List.mem_cons.mp hs with rfl | hs
    · exact hok
    · exact h.each s (List.mem_cons_of_mem _ hs)
  · intro s hs
    rw [oldest_modify]
    split
    · next hst =>
        have : s = f u.state := by simpa [layers, hst] using hs
        rw [this]
        exact hfinal _ hok
    · rcases List.mem_cons.mp hs with rfl | hs
      · exact Nat.le_trans hle (h.settled _ (state_mem_layers u))
      · exact h.settled s (List.mem_cons_of_mem _ hs)

include hrefl hnum hfinal in
/-- **A write that raises finality, with the commit that belongs to it.** What survives the commit is high
    enough for the new finality. -/
theorem Stacked.raise (h : Stacked ok above num final u) {f : σ → σ} (hok : ok (f u.state))
    (hf : ∀ t, above u.state t → above (f u.state) t) :
    Stacked ok above num final ((u.modify f).commit (final (f u.state))) ∧
      Grounded above u ((u.modify f).commit (final (f u.state))) := by
  have hpre : ((u.modify f).commit (final (f u.state))).layers <+: (u.modify f).layers :=
    commit_layers_le _ _
  have hord := order_modify h.order hf
  have hnumb := h.numbered.modify f
  refine ⟨⟨?_, hord.sublist hpre.sublist, hnumb.commit _, ?_⟩,
    fun s hs => grounded_modify hrefl h hf s (hpre.subset hs)⟩
  · intro s hs
    rcases List.mem_cons.mp (hpre.subset hs) with rfl | hs
    · exact hok
    · exact h.each s (List.mem_cons_of_mem _ hs)
  · intro s hs
    -- the oldest layer that is left is the current one, or a saved one that was not committed
    rcases mem_layers.mp hs with rfl | ⟨e, he, rfl⟩
    · rcases mem_layers.mp (oldest_mem_layers ((u.modify f).commit (final (f u.state)))) with ho | ⟨e, he, ho⟩
      · rw [ho]
        exact hfinal _ hok
      · rw [← ho]
        exact hnumb.le_of_mem_commit he
    · have hsaved : e.2 ∈ u.layers := mem_layers.mpr (.inr ⟨e, (commit_stack_le _ _).subset he, rfl⟩)
      exact Nat.le_trans (h.settled e.2 hsaved)
        (hnum _ _ (grounded_modify hrefl h hf _ (hpre.subset (oldest_mem_layers _))))

include hrefl in
theorem Stacked.undo (h : Stacked ok above num final u) :
    Stacked ok above num final u.undo ∧ Grounded above u u.undo := by
  refine ⟨⟨fun s hs => h.each s (mem_layers_undo hs), ?_, h.numbered.undo, fun s hs => ?_⟩,
    fun s hs => h.grounded hrefl s (mem_layers_undo hs)⟩
  · rcases undo_cases u with ⟨_, hu⟩ | ⟨e, st, hst, hu⟩
    · rw [hu]; exact h.order
    · have hord := h.order
      unfold layers at hord
      rw [hst] at hord
      rw [hu]
      exact hord.of_cons
  · rw [oldest_undo]
    exact h.settled s (mem_layers_undo hs)

end Growth

end UndoDb
