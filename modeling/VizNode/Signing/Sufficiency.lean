import VizNode.Signing.Verdict

/-!
# `VizNode.Signing.Sufficiency` — approvals that are enough, and perhaps too many

A proposal is executed when its approvals are enough. `is_authorized_to_execute` asks `verify_authority`, and accepts
that a key or an approval was not needed, since this is the last thing that is checked. A check that ends so has found
nothing missing, if the errors of the getters are others.

## Contents
- **Errors.** Every check throws only what its getters throw.
- **Sufficiency.** `Sufficient`, and `granted_of_sufficient`.
-/

namespace VizNode

namespace Signing

open SignState Prog

/-! ## Errors -/

section Errors

variable {P : AuthorityError → Prop} {depth : Nat}

theorem weighAccounts_throws {nested : Option (AccountName → SignState → Except AuthorityError (Bool × SignState))}
    (hn : ∀ check ∈ nested, ∀ a s, Throws P (check a s)) {threshold : Nat} (as : List (AccountName × Nat)) (total : Nat)
    (s : SignState) : Throws P (weighAccounts nested threshold as total s) := by
  induction as generalizing total s with
  | nil => exact Throws.ok _
  | cons e as ih =>
      obtain ⟨a, w⟩ := e
      unfold weighAccounts
      refine Throws.ite (Throws.ite (Throws.ok _) (ih _ _)) ?_
      cases nested with
      | none => exact ih _ _
      | some check =>
          refine (hn check rfl a s).bind (fun r => ?_)
          exact Throws.ite (Throws.ite (Throws.ok _) (ih _ _)) (ih _ _)

theorem weigh_throws {nested : Option (AccountName → SignState → Except AuthorityError (Bool × SignState))}
    (hn : ∀ check ∈ nested, ∀ a s, Throws P (check a s)) (auth : Authority) (s : SignState) :
    Throws P (weigh nested auth s) := by
  unfold weigh
  cases weighKeys auth.weightThreshold auth.keyAuths 0 s with
  | mk total s =>
      cases total with
      | none => exact Throws.ok _
      | some total => exact weighAccounts_throws hn _ _ _

variable {nested get : AuthorityGetter}

/-- **A check throws only what the getter throws.** -/
theorem checkAuthority_throws (hn : ∀ a, Throws P (nested a)) (auth : Authority) (s : SignState) :
    Throws P (checkAuthority nested depth auth s) := by
  induction depth generalizing auth s with
  | zero =>
      unfold checkAuthority
      exact weigh_throws (fun check hc => absurd hc (Option.not_mem_none check)) auth s
  | succ depth ih =>
      unfold checkAuthority
      refine weigh_throws ?_ auth s
      rintro check hc a s
      obtain rfl := Option.some.inj hc
      exact (hn a).bind (fun auth => ih auth s)

theorem checkGot_throws (hn : ∀ a, Throws P (nested a)) (hg : ∀ a, Throws P (get a)) (id : AccountName)
    (s : SignState) : Throws P (do let auth ← get id; checkAuthority nested depth auth s) :=
  (hg id).bind (fun auth => checkAuthority_throws hn auth s)

theorem checkAccount_throws (hn : ∀ a, Throws P (nested a)) (id : AccountName) (s : SignState) :
    Throws P (checkAccount nested depth id s) := by
  unfold checkAccount
  exact Throws.ite (Throws.ok _) (checkGot_throws hn hn id s)

theorem orElse_throws {first second : SignState → Except AuthorityError (Bool × SignState)}
    (h₁ : ∀ s, Throws P (first s)) (h₂ : ∀ s, Throws P (second s)) (s : SignState) :
    Throws P (orElse first second s) := by
  unfold orElse
  exact (h₁ s).bind (fun r => Throws.ite (Throws.ok _) (h₂ r.2))

theorem collectMissing_throws {α : Type} {check : α → SignState → Except AuthorityError (Bool × SignState)}
    (h : ∀ x s, Throws P (check x s)) (xs : List α) (s : SignState) : Throws P (collectMissing check xs s) := by
  induction xs generalizing s with
  | nil => exact Throws.ok _
  | cons x xs ih =>
      unfold collectMissing
      exact (h x s).bind (fun r => (ih r.2).bind (fun _ => Throws.ok _))

end Errors

/-! ## Sufficiency -/

/-- **The outcomes that found nothing missing.** -/
def Sufficient : Except AuthorityError Unit → Prop
  | .ok ()                         => True
  | .error (.irrelevantSig _)      => True
  | .error (.irrelevantApproval _) => True
  | .error _                       => False

instance : DecidablePred Sufficient
  | .ok ()                            => .isTrue trivial
  | .error (.irrelevantSig _)         => .isTrue trivial
  | .error (.irrelevantApproval _)    => .isTrue trivial
  | .error (.unknownAccount _)        => .isFalse id
  | .error .mixedWithRegular          => .isFalse id
  | .error (.missingRegularAuth _ _)  => .isFalse id
  | .error (.missingOtherAuth _)      => .isFalse id
  | .error (.missingActiveAuth _ _)   => .isFalse id
  | .error (.missingMasterAuth _ _)   => .isFalse id

/-- The getters throw nothing that could be taken for the end of the check. -/
structure Getters.Plain (get : Getters) : Prop where
  active  : ∀ a, Throws (fun e => ¬ Sufficient (.error e)) (get.active a)
  master  : ∀ a, Throws (fun e => ¬ Sufficient (.error e)) (get.master a)
  regular : ∀ a, Throws (fun e => ¬ Sufficient (.error e)) (get.regular a)

section Sufficiency

variable {sigs : List PublicKey} {get : Getters} {depth : Nat} {approvals : Approvals} {req : Required}

/-- What comes to a sufficient end got past its first part. -/
theorem Sufficient.of_bind {α : Type} {x : Except AuthorityError α} {f : α → Except AuthorityError Unit}
    (h : Sufficient (x >>= f)) (hx : Throws (fun e => ¬ Sufficient (.error e)) x) :
    ∃ a, x = .ok a ∧ Sufficient (f a) := by
  cases x with
  | ok a => exact ⟨a, rfl, h⟩
  | error e => exact absurd h (hx e rfl)

/-- What comes to a sufficient end found nothing missing. -/
theorem Sufficient.of_missing {α : Type} {missing : List α} {e : AuthorityError} {y : Except AuthorityError Unit}
    (h : Sufficient (if missing ≠ [] then .error e else y)) (he : ¬ Sufficient (.error e)) :
    missing = [] ∧ Sufficient y := by
  by_cases hm : missing ≠ []
  · rw [if_pos hm] at h
    exact absurd h he
  · rw [if_neg hm] at h
    exact ⟨not_not.mp hm, h⟩

theorem verifyRegular_granted (hget : get.Plain) (h : Sufficient (verifyRegular get depth sigs approvals req)) :
    Granted req sigs get approvals := by
  unfold verifyRegular at h
  by_cases hmixed : req.active ≠ [] ∨ req.master ≠ [] ∨ req.other ≠ []
  · rw [if_pos hmixed] at h
    exact absurd h id
  rw [if_neg hmixed] at h
  have hcheck : ∀ a s, Throws (fun e => ¬ Sufficient (.error e)) (checkRegular get depth a s) := by
    intro a s
    exact orElse_throws (checkAccount_throws hget.regular a)
      (orElse_throws (checkGot_throws hget.regular hget.active a) (checkGot_throws hget.regular hget.master a)) s
  obtain ⟨⟨missing, s⟩, hcollect, h⟩ := h.of_bind (collectMissing_throws hcheck _ _)
  obtain ⟨rfl, -⟩ := h.of_missing id
  exact (collectRegular_sound hmixed hcollect).1

theorem verifyActive_granted (hget : get.Plain) (hreg : req.regular = [])
    (h : Sufficient (verifyActive get depth sigs approvals req)) : Granted req sigs get approvals := by
  unfold verifyActive at h
  have hother : ∀ auth s, Throws (fun e => ¬ Sufficient (.error e)) (checkAuthority get.active depth auth s) :=
    fun auth s => checkAuthority_throws hget.active auth s
  have hactive : ∀ a s, Throws (fun e => ¬ Sufficient (.error e)) (checkActive get depth a s) := by
    intro a s
    exact orElse_throws (checkAccount_throws hget.active a) (checkGot_throws hget.active hget.master a) s
  have hmaster : ∀ a s, Throws (fun e => ¬ Sufficient (.error e)) (checkMaster get depth approvals.master a s) := by
    intro a s
    unfold checkMaster
    exact Throws.ite (Throws.ok _)
      ((hget.master a).bind (fun auth => (hother auth s).bind (fun _ => Throws.ok _)))
  obtain ⟨⟨missing₁, s₁⟩, hother, h⟩ := h.of_bind (collectMissing_throws hother _ _)
  obtain ⟨rfl, h⟩ := h.of_missing id
  obtain ⟨⟨missing₂, s₂⟩, hactive, h⟩ := h.of_bind (collectMissing_throws hactive _ _)
  obtain ⟨rfl, h⟩ := h.of_missing id
  obtain ⟨⟨missing₃, s₃⟩, hmaster, h⟩ := h.of_bind (collectMissing_throws hmaster _ _)
  obtain ⟨rfl, -⟩ := h.of_missing id
  exact (collectActive_sound hreg hother hactive hmaster).1

/-- **A check that found nothing missing has what is required.** -/
theorem granted_of_sufficient {Op : Type} {required : Op → Required} {ops : List Op} (hget : get.Plain)
    (h : Sufficient (verifyAuthority required ops sigs get depth approvals)) :
    Granted (Required.of required ops) sigs get approvals := by
  unfold verifyAuthority at h
  dsimp only at h
  by_cases hreg : (Required.of required ops).regular ≠ []
  · rw [if_pos hreg] at h
    exact verifyRegular_granted hget h
  · rw [if_neg hreg] at h
    exact verifyActive_granted hget (not_not.mp hreg) h

end Sufficiency

end Signing

end VizNode
