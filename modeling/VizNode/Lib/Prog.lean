import Mathlib.Algebra.Order.Ring.Nat
import Mathlib.Order.Defs.Unbundled

/-!
# `VizNode.Lib.Prog` — programs with state and exceptions

A program here is an `EStateM ε σ α`: it reads and writes a state `σ` and either returns an `α` or throws
an `ε`. **The state is not rolled back by a throw**, so a caller that wants the old state has to restore it
itself. Reasoning about such programs is about the state they leave behind on *either* way out.

## Contents
- **Runs.** `after m s`, the state left behind, what was `returned` or `thrown`, and `zoom`, a program on a
  part of the state.
- **Inversion.** `bind_eq_ok` / `bind_eq_error` take a run of `m >>= f` apart, `tryCatch_eq_ok` /
  `tryCatch_eq_error` one with a handler.
- **Returns.** `Returns Q x`: a pure fallible computation returns only what meets `Q`; its rules follow the program.
  `Throws P x` is the same for what it throws.
- **Ends.** `Ends Q T m s`: what holds when a run returns, and what holds when it throws.
- **Moves.** `MovesAt R m s`: running `m` at `s` moves the state along the relation `R`, on return and on
  throw alike. With `R` a preorder the rules compose over `>>=` and `tryCatch`; with
  `R s s' := I s → I s'` they are the rules of an invariant.
-/

namespace Prog

variable {ε σ τ α β : Type}

/-! ## Runs -/

/-- **The state a run leaves behind**, whether it returned or threw. -/
def after (m : EStateM ε σ α) (s : σ) : σ :=
  match m s with
  | .ok _ s'    => s'
  | .error _ s' => s'

/-- What a run returned, if it did. -/
def returned (m : EStateM ε σ α) (s : σ) : Option α :=
  match m s with
  | .ok a _    => some a
  | .error _ _ => none

/-- What a run threw, if it did. -/
def thrown (m : EStateM ε σ α) (s : σ) : Option ε :=
  match m s with
  | .ok _ _    => none
  | .error e _ => some e

/-- Run a program on a part `τ` of the state: read the part with `get`, write it back with `put`. -/
def zoom (get : σ → τ) (put : τ → σ → σ) (m : EStateM ε τ α) : EStateM ε σ α := fun s =>
  match m (get s) with
  | .ok a t    => .ok a (put t s)
  | .error e t => .error e (put t s)

theorem after_ok {m : EStateM ε σ α} {s s' : σ} {a : α} (h : m s = .ok a s') : after m s = s' := by
  simp [after, h]

theorem after_error {m : EStateM ε σ α} {s s' : σ} {e : ε} (h : m s = .error e s') :
    after m s = s' := by
  simp [after, h]

theorem eq_ok_of_returned {m : EStateM ε σ α} {s : σ} {a : α} (h : returned m s = some a) :
    m s = .ok a (after m s) := by
  unfold returned at h
  unfold after
  cases hm : m s with
  | ok a' s' => rw [hm] at h; rw [Option.some.inj h]
  | error e s' => rw [hm] at h; exact absurd h (by simp)

theorem eq_error_of_thrown {m : EStateM ε σ α} {s : σ} {e : ε} (h : thrown m s = some e) :
    m s = .error e (after m s) := by
  unfold thrown at h
  unfold after
  cases hm : m s with
  | ok a s' => rw [hm] at h; exact absurd h (by simp)
  | error e' s' => rw [hm] at h; rw [Option.some.inj h]

@[simp] theorem pure_run (a : α) (s : σ) : (pure a : EStateM ε σ α) s = .ok a s := rfl

@[simp] theorem throw_run (e : ε) (s : σ) : (throw e : EStateM ε σ α) s = .error e s := rfl

@[simp] theorem get_run (s : σ) : (get : EStateM ε σ σ) s = .ok s s := rfl

@[simp] theorem set_run (t s : σ) : (set t : EStateM ε σ PUnit) s = .ok ⟨⟩ t := rfl

@[simp] theorem modify_run (f : σ → σ) (s : σ) : (modify f : EStateM ε σ PUnit) s = .ok ⟨⟩ (f s) := rfl

theorem bind_run (m : EStateM ε σ α) (f : α → EStateM ε σ β) (s : σ) :
    (m >>= f) s = match m s with
      | .ok a s'    => f a s'
      | .error e s' => .error e s' := rfl

theorem tryCatch_run (m : EStateM ε σ α) (h : ε → EStateM ε σ α) (s : σ) :
    (tryCatch m h) s = match m s with
      | .ok a s'    => .ok a s'
      | .error e s' => h e s' := by
  show (EStateM.tryCatch m h) s = _
  delta EStateM.tryCatch
  dsimp only
  cases m s <;> rfl

@[simp] theorem get_bind_run (f : σ → EStateM ε σ β) (s : σ) : (get >>= f) s = f s s := rfl

@[simp] theorem pure_bind_run (a : α) (f : α → EStateM ε σ β) (s : σ) : (pure a >>= f) s = f a s := rfl

/-! ## Inversion -/

/-- **A sequence that returned** returned from both its parts. -/
theorem bind_eq_ok {m : EStateM ε σ α} {f : α → EStateM ε σ β} {s t : σ} {b : β}
    (h : (m >>= f) s = .ok b t) : ∃ a s', m s = .ok a s' ∧ f a s' = .ok b t := by
  rw [bind_run] at h
  cases hm : m s with
  | ok a s' => rw [hm] at h; exact ⟨a, s', rfl, h⟩
  | error e s' => rw [hm] at h; exact absurd h (by simp)

/-- **A sequence that threw** threw in its first part, or returned from it and threw in the second. -/
theorem bind_eq_error {m : EStateM ε σ α} {f : α → EStateM ε σ β} {s t : σ} {e : ε}
    (h : (m >>= f) s = .error e t) :
    m s = .error e t ∨ ∃ a s', m s = .ok a s' ∧ f a s' = .error e t := by
  rw [bind_run] at h
  cases hm : m s with
  | ok a s' => rw [hm] at h; exact .inr ⟨a, s', rfl, h⟩
  | error e' s' => rw [hm] at h; exact .inl (by simpa using h)

/-- **A handled program that returned** returned by itself, or threw and the handler returned. -/
theorem tryCatch_eq_ok {m : EStateM ε σ α} {h : ε → EStateM ε σ α} {s t : σ} {a : α}
    (hr : (tryCatch m h) s = .ok a t) : m s = .ok a t ∨ ∃ e s', m s = .error e s' ∧ h e s' = .ok a t := by
  rw [tryCatch_run] at hr
  cases hm : m s with
  | ok b s' => rw [hm] at hr; exact .inl hr
  | error e s' => rw [hm] at hr; exact .inr ⟨e, s', rfl, hr⟩

/-- **A handled program that threw** threw twice. -/
theorem tryCatch_eq_error {m : EStateM ε σ α} {h : ε → EStateM ε σ α} {s t : σ} {e : ε}
    (hr : (tryCatch m h) s = .error e t) : ∃ e' s', m s = .error e' s' ∧ h e' s' = .error e t := by
  rw [tryCatch_run] at hr
  cases hm : m s with
  | ok b s' => rw [hm] at hr; exact absurd hr (by simp)
  | error e' s' => rw [hm] at hr; exact ⟨e', s', rfl, hr⟩

/-- A sequence of pure fallible computations that returned. -/
theorem except_bind_eq_ok {x : Except ε α} {f : α → Except ε β} {b : β} (h : (x >>= f) = .ok b) :
    ∃ a, x = .ok a ∧ f a = .ok b := by
  cases x with
  | ok a => exact ⟨a, rfl, h⟩
  | error e => exact absurd h (by simp [bind, Except.bind])

/-- A fold of fallible steps goes along `R` when every step does. -/
theorem foldlM_rel {R : σ → σ → Prop} [IsPreorder σ R] {f : σ → α → Except ε σ}
    (hf : ∀ s a t, f s a = .ok t → R s t) {xs : List α} {s t : σ} (h : xs.foldlM f s = .ok t) : R s t := by
  induction xs generalizing s with
  | nil =>
      obtain rfl := Except.ok.inj h
      exact refl_of R _
  | cons x xs ih =>
      rw [List.foldlM_cons] at h
      obtain ⟨u, hu, h⟩ := except_bind_eq_ok h
      exact trans_of R (hf s x u hu) (ih h)

/-- What a fallible function answers, it answers for a whole list. -/
theorem mapM_forall {f : α → Except ε β} {P : β → Prop} (hf : ∀ a b, f a = .ok b → P b) {as : List α}
    {bs : List β} (h : as.mapM f = .ok bs) : ∀ b ∈ bs, P b := by
  induction as generalizing bs with
  | nil =>
      obtain rfl := Except.ok.inj h
      exact fun b hb => absurd hb (by simp)
  | cons a as ih =>
      rw [List.mapM_cons] at h
      obtain ⟨b, hb, h⟩ := except_bind_eq_ok h
      obtain ⟨cs, hcs, h⟩ := except_bind_eq_ok h
      obtain rfl := Except.ok.inj h
      intro x hx
      rcases List.mem_cons.mp hx with rfl | hx
      · exact hf a x hb
      · exact ih hcs x hx

/-! ## Returns -/

/-- **If the computation returns, what it returns meets `Q`.** -/
def Returns (Q : α → Prop) (x : Except ε α) : Prop := ∀ a, x = .ok a → Q a

namespace Returns

variable {Q : α → Prop} {x y : Except ε α}

theorem ok {a : α} (h : Q a) : Returns Q (.ok a : Except ε α) := fun _ ha => Except.ok.inj ha ▸ h

theorem pure {a : α} (h : Q a) : Returns Q (pure a : Except ε α) := ok h

theorem error (e : ε) : Returns Q (.error e : Except ε α) := fun _ ha => nomatch ha

/-- **The rule of sequence**, with what the first part returns. -/
theorem bind {P : β → Prop} {x : Except ε β} {f : β → Except ε α} (hx : Returns P x)
    (hf : ∀ b, P b → Returns Q (f b)) : Returns Q (x >>= f) := by
  intro a ha
  obtain ⟨b, hb, ha⟩ := except_bind_eq_ok ha
  exact hf b (hx b hb) a ha

/-- The rule of sequence behind a check. -/
theorem after {x : Except ε β} {f : β → Except ε α} (hf : ∀ b, x = .ok b → Returns Q (f b)) :
    Returns Q (x >>= f) := bind (fun _ hb => hb) hf

theorem ite {c : Prop} [Decidable c] (hx : c → Returns Q x) (hy : ¬c → Returns Q y) :
    Returns Q (if c then x else y) := by
  by_cases hc : c
  · rw [if_pos hc]
    exact hx hc
  · rw [if_neg hc]
    exact hy hc

/-- A choice before the same continuation. -/
theorem ite_bind {P : β → Prop} {c : Prop} [Decidable c] {x y : Except ε β} {f : β → Except ε α}
    (hx : c → Returns P x) (hy : ¬c → Returns P y) (hf : ∀ b, P b → Returns Q (f b)) :
    Returns Q (if c then x >>= f else y >>= f) := ite (fun hc => (hx hc).bind hf) (fun hc => (hy hc).bind hf)

/-- A fold whose every step keeps `Q`. -/
theorem foldlM {f : α → β → Except ε α} (hf : ∀ a b, Q a → Returns Q (f a b)) {bs : List β} {a : α} (ha : Q a) :
    Returns Q (bs.foldlM f a) := by
  induction bs generalizing a with
  | nil => exact ok ha
  | cons b bs ih =>
      rw [List.foldlM_cons]
      exact (hf a b ha).bind (fun _ hb => ih hb)

end Returns

/-- **If the computation throws, what it throws meets `P`.** -/
def Throws (P : ε → Prop) (x : Except ε α) : Prop := ∀ e, x = .error e → P e

namespace Throws

variable {P : ε → Prop} {x y : Except ε α}

theorem ok (a : α) : Throws P (.ok a : Except ε α) := fun _ he => nomatch he

theorem error {e : ε} (h : P e) : Throws P (.error e : Except ε α) := fun _ he => Except.error.inj he ▸ h

theorem bind {x : Except ε β} {f : β → Except ε α} (hx : Throws P x) (hf : ∀ b, Throws P (f b)) :
    Throws P (x >>= f) := by
  cases x with
  | ok b => exact hf b
  | error e => exact error (hx e rfl)

theorem ite {c : Prop} [Decidable c] (hx : Throws P x) (hy : Throws P y) : Throws P (if c then x else y) := by
  by_cases hc : c
  · rw [if_pos hc]
    exact hx
  · rw [if_neg hc]
    exact hy

end Throws

/-! ## Ends -/

/-- **Both exits of a run**: `Q` of what it returns, `T` of what it throws, each with the state left behind. -/
def Ends (Q : α → σ → Prop) (T : ε → σ → Prop) (m : EStateM ε σ α) (s : σ) : Prop :=
  match m s with
  | .ok a s'    => Q a s'
  | .error e s' => T e s'

namespace Ends

variable {Q : α → σ → Prop} {T : ε → σ → Prop} {m : EStateM ε σ α} {s : σ}

theorem of_ok {a : α} {s' : σ} (h : Ends Q T m s) (hr : m s = .ok a s') : Q a s' := by
  unfold Ends at h
  rw [hr] at h
  exact h

theorem of_error {e : ε} {s' : σ} (h : Ends Q T m s) (hr : m s = .error e s') : T e s' := by
  unfold Ends at h
  rw [hr] at h
  exact h

theorem intro (hok : ∀ a s', m s = .ok a s' → Q a s') (herror : ∀ e s', m s = .error e s' → T e s') :
    Ends Q T m s := by
  unfold Ends
  cases hm : m s with
  | ok a s' => exact hok a s' hm
  | error e s' => exact herror e s' hm

/-- **The rule of consequence.** -/
theorem mono {Q' : α → σ → Prop} {T' : ε → σ → Prop} (h : Ends Q T m s) (hQ : ∀ a s', Q a s' → Q' a s')
    (hT : ∀ e s', T e s' → T' e s') : Ends Q' T' m s :=
  intro (fun a s' hr => hQ a s' (h.of_ok hr)) (fun e s' hr => hT e s' (h.of_error hr))

/-- **The rule of sequence.** -/
theorem bind {P : β → σ → Prop} {m : EStateM ε σ β} {f : β → EStateM ε σ α} (hm : Ends P T m s)
    (hf : ∀ b s', m s = .ok b s' → P b s' → Ends Q T (f b) s') : Ends Q T (m >>= f) s := by
  unfold Ends
  rw [bind_run]
  cases hr : m s with
  | ok b s' => exact hf b s' hr (hm.of_ok hr)
  | error e s' => exact hm.of_error hr

/-- **The rule of catch.** -/
theorem tryCatch {T' : ε → σ → Prop} {h : ε → EStateM ε σ α} (hm : Ends Q T' m s)
    (hh : ∀ e s', m s = .error e s' → T' e s' → Ends Q T (h e) s') : Ends Q T (MonadExcept.tryCatch m h) s := by
  unfold Ends
  rw [tryCatch_run]
  cases hr : m s with
  | ok a s' => exact hm.of_ok hr
  | error e s' => exact hh e s' hr (hm.of_error hr)

theorem ite {c : Prop} [Decidable c] {n : EStateM ε σ α} (hm : c → Ends Q T m s) (hn : ¬c → Ends Q T n s) :
    Ends Q T (if c then m else n) s := by
  by_cases hc : c
  · rw [if_pos hc]
    exact hm hc
  · rw [if_neg hc]
    exact hn hc

end Ends

/-! ## Moves -/

/-- **A run moves the state along `R`**, on return and on throw alike. -/
def MovesAt (R : σ → σ → Prop) (m : EStateM ε σ α) (s : σ) : Prop := R s (after m s)

/-- Every run of `m` moves the state along `R`. -/
def Moves (R : σ → σ → Prop) (m : EStateM ε σ α) : Prop := ∀ s, MovesAt R m s

theorem MovesAt.of_ok {R : σ → σ → Prop} {m : EStateM ε σ α} {s s' : σ} {a : α} (h : MovesAt R m s)
    (hr : m s = .ok a s') : R s s' := after_ok hr ▸ h

theorem MovesAt.of_error {R : σ → σ → Prop} {m : EStateM ε σ α} {s s' : σ} {e : ε} (h : MovesAt R m s)
    (hr : m s = .error e s') : R s s' := after_error hr ▸ h

section Rules

variable {R : σ → σ → Prop} [IsPreorder σ R]

theorem MovesAt.pure (a : α) (s : σ) : MovesAt (ε := ε) R (pure a) s := refl_of R s

theorem MovesAt.throw (e : ε) (s : σ) : MovesAt R (throw e : EStateM ε σ α) s := refl_of R s

/-- **The rule of sequence.** The second part is met only in states the first part really returns. -/
theorem MovesAt.bind {m : EStateM ε σ α} {f : α → EStateM ε σ β} {s : σ} (hm : MovesAt R m s)
    (hf : ∀ a s', m s = .ok a s' → MovesAt R (f a) s') : MovesAt R (m >>= f) s := by
  unfold MovesAt after
  rw [bind_run]
  unfold MovesAt after at hm
  cases h : m s with
  | ok a s' =>
      rw [h] at hm
      exact trans_of R hm (hf a s' h)
  | error e s' => rw [h] at hm; exact hm

/-- **The rule of catch.** The handler starts from the state the throwing run left behind. -/
theorem MovesAt.tryCatch {m : EStateM ε σ α} {h : ε → EStateM ε σ α} {s : σ} (hm : MovesAt R m s)
    (hh : ∀ e s', m s = .error e s' → MovesAt R (h e) s') :
    MovesAt R (MonadExcept.tryCatch m h) s := by
  unfold MovesAt after
  rw [tryCatch_run]
  unfold MovesAt after at hm
  cases hr : m s with
  | ok a s' => rw [hr] at hm; exact hm
  | error e s' =>
      rw [hr] at hm
      exact trans_of R hm (hh e s' hr)

end Rules

/-- The relation of an invariant: what holds before holds afterwards. -/
def Keeps (I : σ → Prop) (s s' : σ) : Prop := I s → I s'

instance keepsPreorder (I : σ → Prop) : IsPreorder σ (Keeps I) where
  refl _ h := h
  trans _ _ _ h₁ h₂ h := h₂ (h₁ h)

theorem MovesAt.get_bind {R : σ → σ → Prop} {f : σ → EStateM ε σ β} {s : σ} (h : MovesAt R (f s) s) :
    MovesAt R (get >>= f) s := h

theorem MovesAt.modify {R : σ → σ → Prop} {f : σ → σ} {s : σ} (h : R s (f s)) :
    MovesAt (ε := ε) R (modify f) s := h

theorem MovesAt.set {R : σ → σ → Prop} {t s : σ} (h : R s t) : MovesAt (ε := ε) R (set t) s := h

theorem MovesAt.zoom {R : σ → σ → Prop} {g : σ → τ} {p : τ → σ → σ} {m : EStateM ε τ α} {s : σ}
    (h : R s (p (after m (g s)) s)) : MovesAt R (zoom g p m) s := by
  unfold MovesAt after Prog.zoom
  unfold after at h
  cases hm : m (g s) with
  | ok a t => rw [hm] at h; exact h
  | error e t => rw [hm] at h; exact h

end Prog
