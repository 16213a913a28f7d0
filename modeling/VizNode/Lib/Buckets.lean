import Mathlib.Algebra.Order.Ring.Int
import Mathlib.Tactic.Ring

/-!
# `VizNode.Lib.Buckets` — what is filled at a rate and drawn from

A system has a clock and a level. Time fills the level at a constant rate, and steps draw from it. However the steps
follow one another, what they draw together is limited by what was there, what the time brought, and how far a single
draw may go below zero.

**A step may spill.** It can lower the level by more than it draws, also below any bound, so the level at the end says
nothing. What counts is the level before the last draw.

## Contents
- **Buckets.** `Bucket`, `Draws`; draws one after another are one draw.
- **Runs.** `Drawn`, a chain of steps with the sum of what they draw; `Bucket.total_le`.
-/

variable {σ : Type}

/-! ## Buckets -/

/-- **A bucket** on the states of a system: its clock and its level, how fast it fills, what one unit that is drawn costs
    of the level, and how far a draw may go below zero. -/
structure Bucket (σ : Type) where
  clock : σ → Int
  level : σ → Int
  rate  : Int
  unit  : Int
  slack : Int

namespace Bucket

/-- What time brings between two states. -/
def brought (B : Bucket σ) (s s' : σ) : Int := B.rate * (B.clock s' - B.clock s)

/-- **A step draws `c`**: the level falls by its cost, and the cost was there. -/
structure Draws (B : Bucket σ) (s : σ) (c : Int) (s' : σ) : Prop where
  clock_le : B.clock s ≤ B.clock s'
  level_le : B.level s' + B.unit * c ≤ B.level s + B.brought s s'
  covered  : 0 < c → B.unit * c ≤ B.level s + B.brought s s' + B.slack

variable {B : Bucket σ} {s s₁ s' : σ} {x c L : Int}

theorem brought_self : B.brought s s = 0 := by
  unfold brought
  rw [sub_self, mul_zero]

theorem brought_add : B.brought s s₁ + B.brought s₁ s' = B.brought s s' := by
  unfold brought
  ring

namespace Draws

/-- Nothing happens. -/
theorem refl (s : σ) : B.Draws s 0 s := by
  refine ⟨le_rfl, ?_, fun h => absurd h (lt_irrefl 0)⟩
  rw [brought_self, mul_zero]

/-- **Two draws are one**: the second one was covered by what the first one left. -/
theorem trans (hrate : 0 ≤ B.rate) (hunit : 0 ≤ B.unit) (h : B.Draws s x s₁) (h' : B.Draws s₁ c s') :
    B.Draws s (x + c) s' := by
  obtain ⟨hclock, hlevel, hcovered⟩ := h
  obtain ⟨hclock', hlevel', hcovered'⟩ := h'
  have hbrought : B.brought s s₁ + B.brought s₁ s' = B.brought s s' := brought_add
  have hmore : 0 ≤ B.brought s₁ s' := mul_nonneg hrate (sub_nonneg.mpr hclock')
  refine ⟨hclock.trans hclock', ?_, fun hpos => ?_⟩
  · rw [mul_add]
    omega
  · rw [mul_add]
    by_cases hc : 0 < c
    · have := hcovered' hc
      omega
    · -- the second one draws nothing
      have hfree : B.unit * c ≤ 0 := mul_nonpos_of_nonneg_of_nonpos hunit (not_lt.mp hc)
      have := hcovered (by omega)
      omega

end Draws

end Bucket

/-! ## Runs -/

/-- **A run**: a chain of steps, and the sum of what they draw. -/
inductive Drawn (Step : σ → Int → σ → Prop) (s : σ) : Int → σ → Prop
  | start : Drawn Step s 0 s
  | step {s₁ s' : σ} {x c : Int} (h : Drawn Step s x s₁) (hs : Step s₁ c s') : Drawn Step s (x + c) s'

/-- What every step keeps. -/
theorem Drawn.keeps {Step : σ → Int → σ → Prop} {I : σ → Prop} {s s' : σ} {x : Int} (h : Drawn Step s x s') (hI : I s)
    (hkeep : ∀ {u : σ} {c : Int} {u' : σ}, I u → Step u c u' → I u') : I s' := by
  induction h with
  | start => exact hI
  | step _ hs ih => exact hkeep ih hs

namespace Bucket

variable {B : Bucket σ} {Step : σ → Int → σ → Prop} {I : σ → Prop} {s s' : σ} {x L : Int}

/-- **A run of draws is a draw.** -/
theorem draws (hrate : 0 ≤ B.rate) (hunit : 0 ≤ B.unit) (hI : I s)
    (hstep : ∀ {u : σ} {c : Int} {u' : σ}, I u → Step u c u' → I u' ∧ B.Draws u c u') (h : Drawn Step s x s') :
    I s' ∧ B.Draws s x s' := by
  induction h with
  | start => exact ⟨hI, .refl s⟩
  | step _ hs ih =>
      obtain ⟨hI', hdraw⟩ := hstep ih.1 hs
      exact ⟨hI', ih.2.trans hrate hunit hdraw⟩

/-- **What a run draws**: no more than what was there, what the time brought, and the slack of one draw. -/
theorem total_le (hrate : 0 ≤ B.rate) (hunit : 0 ≤ B.unit) (hL : B.level s ≤ L) (hslack : 0 ≤ L + B.slack)
    (h : B.Draws s x s') : B.unit * x ≤ L + B.slack + B.brought s s' := by
  by_cases hx : 0 < x
  · have := h.covered hx
    omega
  · have hfree : B.unit * x ≤ 0 := mul_nonpos_of_nonneg_of_nonpos hunit (not_lt.mp hx)
    have hmore : 0 ≤ B.brought s s' := mul_nonneg hrate (sub_nonneg.mpr h.clock_le)
    omega

end Bucket
