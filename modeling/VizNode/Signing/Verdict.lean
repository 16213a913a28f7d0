import VizNode.Signing.Soundness

/-!
# `VizNode.Signing.Verdict` — what a verified transaction is signed for

`verify_authority` runs the checks of what the operations require over one cache. The checks are sound one by one
(`Signing.Soundness`); here they are put together, for the regular branch and for the other one, and for the
transactions that carry no signature at all.

## Contents
- **Collecting.** The four collections hold what the operations require.
- **Verdict.** `Authorised`, and `verifyAuthority_sound`. Required master accounts count as approved from the
  moment they are checked, so they are a rule of the fixpoint of their own.
- **Transactions nobody signed.** `unsigned_refused`: only the name `temp`, which `sign_state` approves by itself,
  can stand behind them.
-/

namespace VizNode

namespace Signing

open SignState Prog

/-! ## Collecting -/

section Collecting

variable {Op : Type} {required : Op → Required} {ops : List Op}

theorem mem_flatInsert {a b : Nat} {l : List Nat} : b ∈ flatInsert a l ↔ b = a ∨ b ∈ l := by
  induction l with
  | nil =>
      unfold flatInsert
      rw [List.mem_singleton]
      exact (or_iff_left List.not_mem_nil).symm
  | cons c l ih =>
      unfold flatInsert
      by_cases hlt : a < c
      · rw [if_pos hlt, List.mem_cons]
      · rw [if_neg hlt]
        by_cases heq : a = c
        · rw [if_pos heq, List.mem_cons, heq]
          exact ⟨.inr, fun h => h.elim .inl id⟩
        · rw [if_neg heq, List.mem_cons, List.mem_cons, ih]
          exact or_left_comm

theorem mem_foldl_flatInsert {b : Nat} {l acc : List Nat} :
    b ∈ l.foldl (fun l a => flatInsert a l) acc ↔ b ∈ acc ∨ b ∈ l := by
  induction l generalizing acc with
  | nil => exact (or_iff_left List.not_mem_nil).symm
  | cons a l ih =>
      rw [List.foldl_cons, ih, mem_flatInsert, List.mem_cons, or_comm (a := b = a), or_assoc]

/-- A collection that `add` extends by what an operation requires holds what the operations require. -/
theorem mem_required {α : Type} {part : Required → List α} {x : α}
    (hadd : ∀ r q : Required, x ∈ part (r.add q) ↔ x ∈ part r ∨ x ∈ part q) (hnil : part {} = []) :
    x ∈ part (Required.of required ops) ↔ ∃ op ∈ ops, x ∈ part (required op) := by
  have hfold : ∀ (l : List Op) (r : Required),
      x ∈ part (l.foldl (fun r op => r.add (required op)) r) ↔ x ∈ part r ∨ ∃ op ∈ l, x ∈ part (required op) := by
    intro l
    induction l with
    | nil => simp
    | cons op l ih =>
        intro r
        rw [List.foldl_cons, ih, hadd, or_assoc]
        simp
  unfold Required.of
  rw [hfold, hnil]
  simp

theorem mem_required_active {id : AccountName} :
    id ∈ (Required.of required ops).active ↔ ∃ op ∈ ops, id ∈ (required op).active :=
  mem_required (fun _ _ => mem_foldl_flatInsert) rfl

theorem mem_required_master {id : AccountName} :
    id ∈ (Required.of required ops).master ↔ ∃ op ∈ ops, id ∈ (required op).master :=
  mem_required (fun _ _ => mem_foldl_flatInsert) rfl

theorem mem_required_regular {id : AccountName} :
    id ∈ (Required.of required ops).regular ↔ ∃ op ∈ ops, id ∈ (required op).regular :=
  mem_required (fun _ _ => mem_foldl_flatInsert) rfl

theorem mem_required_other {auth : Authority} :
    auth ∈ (Required.of required ops).other ↔ ∃ op ∈ ops, auth ∈ (required op).other :=
  mem_required (fun _ _ => List.mem_append) rfl

end Collecting

/-! ## Verdict -/

/-- What counts as approved from the start: the given names, and `temp`. -/
def givenTo (approvals : List AccountName) : Set AccountName := { a | a = tempAccount ∨ a ∈ approvals }

/-- The accounts satisfied for regular authorities: nested accounts by their regular authority. -/
def satisfiedRegular (get : Getters) (keys : Set PublicKey) (approvals : Approvals) : Set AccountName :=
  satisfied get.regular get.master keys (givenTo approvals.regular) ∅

/-- The accounts satisfied for all other authorities: nested accounts by their active authority, and the required
    master accounts also by their master one. -/
def satisfiedActive (get : Getters) (keys : Set PublicKey) (approvals : Approvals) (masters : List AccountName) :
    Set AccountName :=
  satisfied get.active get.master keys (givenTo (approvals.active ++ approvals.master)) { a | a ∈ masters }

/-- The authorities the checks of what is required start from. -/
def examined (get : Getters) (req : Required) : Set Authority :=
  { auth | auth ∈ req.other ∨
      (∃ id ∈ req.regular, get.regular id = .ok auth ∨ get.active id = .ok auth ∨ get.master id = .ok auth) ∨
      (∃ id ∈ req.active, get.active id = .ok auth ∨ get.master id = .ok auth) ∨
      ∃ id ∈ req.master, get.master id = .ok auth }

/-- **What a verified transaction has**: the authorities its operations require, and no key beyond them. -/
structure Authorised (req : Required) (sigs : List PublicKey) (get : Getters) (approvals : Approvals) : Prop where
  regular : ∀ id ∈ req.regular, id ∈ givenTo approvals.regular ∨
    Holds get.regular { k | k ∈ sigs } (satisfiedRegular get { k | k ∈ sigs } approvals) id ∨
    Holds get.active { k | k ∈ sigs } (satisfiedRegular get { k | k ∈ sigs } approvals) id ∨
    Holds get.master { k | k ∈ sigs } (satisfiedRegular get { k | k ∈ sigs } approvals) id
  active  : ∀ id ∈ req.active, id ∈ givenTo (approvals.active ++ approvals.master) ∨
    Holds get.active { k | k ∈ sigs } (satisfiedActive get { k | k ∈ sigs } approvals req.master) id ∨
    Holds get.master { k | k ∈ sigs } (satisfiedActive get { k | k ∈ sigs } approvals req.master) id
  master  : ∀ id ∈ req.master, id ∈ approvals.master ∨
    Holds get.master { k | k ∈ sigs } (satisfiedActive get { k | k ∈ sigs } approvals req.master) id
  other   : ∀ auth ∈ req.other,
    Reached { k | k ∈ sigs } (satisfiedActive get { k | k ∈ sigs } approvals req.master) auth
  used    : ∀ k ∈ sigs, ∃ auth,
    Consulted (if req.regular ≠ [] then get.regular else get.active) (examined get req) auth ∧
      k ∈ auth.keyAuths.map Prod.fst

/-- **What a check has that found nothing missing**: all but the uses of the keys. -/
structure Granted (req : Required) (sigs : List PublicKey) (get : Getters) (approvals : Approvals) : Prop where
  regular : ∀ id ∈ req.regular, id ∈ givenTo approvals.regular ∨
    Holds get.regular { k | k ∈ sigs } (satisfiedRegular get { k | k ∈ sigs } approvals) id ∨
    Holds get.active { k | k ∈ sigs } (satisfiedRegular get { k | k ∈ sigs } approvals) id ∨
    Holds get.master { k | k ∈ sigs } (satisfiedRegular get { k | k ∈ sigs } approvals) id
  active  : ∀ id ∈ req.active, id ∈ givenTo (approvals.active ++ approvals.master) ∨
    Holds get.active { k | k ∈ sigs } (satisfiedActive get { k | k ∈ sigs } approvals req.master) id ∨
    Holds get.master { k | k ∈ sigs } (satisfiedActive get { k | k ∈ sigs } approvals req.master) id
  master  : ∀ id ∈ req.master, id ∈ approvals.master ∨
    Holds get.master { k | k ∈ sigs } (satisfiedActive get { k | k ∈ sigs } approvals req.master) id
  other   : ∀ auth ∈ req.other,
    Reached { k | k ∈ sigs } (satisfiedActive get { k | k ∈ sigs } approvals req.master) auth

section Verdict

variable {sigs : List PublicKey} {get : Getters} {depth : Nat} {approvals : Approvals} {req : Required}

/-- **The regular branch**, when its loop found nothing missing. -/
theorem collectRegular_sound {s : SignState} (hmixed : ¬(req.active ≠ [] ∨ req.master ≠ [] ∨ req.other ≠ []))
    (hcollect : collectMissing (checkRegular get depth) req.regular
      (approvals.regular.foldl (fun s id => s.approve id false) (SignState.init sigs [])) = .ok ([], s)) :
    Granted req sigs get approvals ∧ Sound sigs (satisfiedRegular get { k | k ∈ sigs } approvals)
      (Consulted get.regular (examined get req)) s := by
  have hactive : req.active = [] := not_not.mp (fun hne => hmixed (.inl hne))
  have hmaster : req.master = [] := not_not.mp (fun hne => hmixed (.inr (.inl hne)))
  have hother : req.other = [] := not_not.mp (fun hne => hmixed (.inr (.inr hne)))
  have hsat : ∀ a, Holds get.regular { k | k ∈ sigs } (satisfiedRegular get { k | k ∈ sigs } approvals) a →
      a ∈ satisfiedRegular get { k | k ∈ sigs } approvals :=
    fun a ha => mem_satisfied.mpr (.inr (.inl ha))
  have hinit : Sound sigs (satisfiedRegular get { k | k ∈ sigs } approvals)
      (Consulted get.regular (examined get req))
      (approvals.regular.foldl (fun s id => s.approve id false) (SignState.init sigs [])) := by
    refine Sound.approveAll ?_ (init_sound (mem_satisfied.mpr (.inl (.inl rfl))))
    intro a ha
    exact mem_satisfied.mpr (.inl (.inr ha))
  obtain ⟨hs, hall⟩ := collectMissing_sound (fun id hid =>
    orElse_sound
      (checkAccount_sound hsat (fun auth hget => .inr (.inl ⟨id, hid, .inl hget⟩)))
      (orElse_sound
        (checkGot_sound (g := get.active) hsat (fun auth hget => .inr (.inl ⟨id, hid, .inr (.inl hget)⟩)))
        (checkGot_sound (g := get.master) hsat (fun auth hget => .inr (.inl ⟨id, hid, .inr (.inr hget)⟩)))))
    hcollect hinit
  refine ⟨⟨?_, ?_, ?_, ?_⟩, hs⟩
  · intro id hid
    rcases hall rfl id hid with hin | hin
    · rcases mem_satisfied.mp hin with hgiven | hholds | ⟨hno, -⟩
      · exact .inl hgiven
      · exact .inr (.inl hholds)
      · exact absurd hno (Set.notMem_empty id)
    · exact .inr (.inr hin)
  · intro id hid
    exact absurd (hactive ▸ hid) List.not_mem_nil
  · intro id hid
    exact absurd (hmaster ▸ hid) List.not_mem_nil
  · intro auth hauth
    exact absurd (hother ▸ hauth) List.not_mem_nil

theorem verifyRegular_sound (h : verifyRegular get depth sigs approvals req = .ok ()) (hreg : req.regular ≠ []) :
    Authorised req sigs get approvals := by
  unfold verifyRegular at h
  by_cases hmixed : req.active ≠ [] ∨ req.master ≠ [] ∨ req.other ≠ []
  · rw [if_pos hmixed] at h
    nomatch h
  rw [if_neg hmixed] at h
  obtain ⟨⟨missing, s⟩, hcollect, h⟩ := except_bind_eq_ok h
  by_cases hmissing : missing ≠ []
  · rw [if_pos hmissing] at h
    nomatch h
  rw [if_neg hmissing] at h
  obtain rfl := not_not.mp hmissing
  obtain ⟨hg, hs⟩ := collectRegular_sound hmixed hcollect
  refine ⟨hg.regular, hg.active, hg.master, hg.other, ?_⟩
  rw [if_pos hreg]
  exact assertUnusedApprovals_sound h hs

/-- `check` of a required master account. -/
theorem checkMaster_sound {sat : Set AccountName} {roots : Set Authority} {id : AccountName}
    (hsat : ∀ a, Holds get.active { k | k ∈ sigs } sat a → a ∈ sat)
    (hmaster : Holds get.master { k | k ∈ sigs } sat id → id ∈ sat) (hgiven : id ∈ approvals.master → id ∈ sat)
    (hroot : ∀ auth, get.master id = .ok auth → auth ∈ roots) :
    Keeps sigs sat (Consulted get.active roots) (checkMaster get depth approvals.master id)
      (id ∈ approvals.master ∨ Holds get.master { k | k ∈ sigs } sat id) := by
  intro s r s' h hs
  unfold checkMaster at h
  by_cases hin : id ∈ approvals.master
  · rw [if_pos hin] at h
    obtain ⟨rfl, rfl⟩ := Prod.mk.inj (Except.ok.inj h)
    exact ⟨hs.approve (hgiven hin), fun _ => .inl hin⟩
  · rw [if_neg hin] at h
    obtain ⟨auth, hget, h⟩ := except_bind_eq_ok h
    obtain ⟨⟨ok, s₁⟩, hcheck, h⟩ := except_bind_eq_ok h
    obtain ⟨hs₁, hacc⟩ := checkAuthority_sound hsat (.root (hroot auth hget)) s ok s₁ hcheck hs
    cases ok with
    | true =>
        obtain ⟨rfl, rfl⟩ := Prod.mk.inj (Except.ok.inj h)
        have hholds : Holds get.master { k | k ∈ sigs } sat id := ⟨auth, hget, hacc rfl⟩
        exact ⟨hs₁.approve (hmaster hholds), fun _ => .inr hholds⟩
    | false =>
        obtain ⟨rfl, rfl⟩ := Prod.mk.inj (Except.ok.inj h)
        exact ⟨hs₁, fun hr => absurd hr Bool.false_ne_true⟩

/-- **The other branch**, when none of its three loops over one cache found anything missing. -/
theorem collectActive_sound {s₁ s₂ s₃ : SignState} (hreg : req.regular = [])
    (hother : collectMissing (checkAuthority get.active depth) req.other
      (approvals.master.foldl (fun s id => s.approve id false)
        (approvals.active.foldl (fun s id => s.approve id false) (SignState.init sigs []))) = .ok ([], s₁))
    (hactive : collectMissing (checkActive get depth) req.active s₁ = .ok ([], s₂))
    (hmaster : collectMissing (checkMaster get depth approvals.master) req.master s₂ = .ok ([], s₃)) :
    Granted req sigs get approvals ∧ Sound sigs (satisfiedActive get { k | k ∈ sigs } approvals req.master)
      (Consulted get.active (examined get req)) s₃ := by
  have hgiven : ∀ a ∈ givenTo (approvals.active ++ approvals.master),
      a ∈ satisfiedActive get { k | k ∈ sigs } approvals req.master :=
    fun a ha => mem_satisfied.mpr (.inl ha)
  have hsat : ∀ a, Holds get.active { k | k ∈ sigs } (satisfiedActive get { k | k ∈ sigs } approvals req.master) a →
      a ∈ satisfiedActive get { k | k ∈ sigs } approvals req.master :=
    fun a ha => mem_satisfied.mpr (.inr (.inl ha))
  have hinit : Sound sigs (satisfiedActive get { k | k ∈ sigs } approvals req.master)
      (Consulted get.active (examined get req))
      (approvals.master.foldl (fun s id => s.approve id false)
        (approvals.active.foldl (fun s id => s.approve id false) (SignState.init sigs []))) := by
    refine Sound.approveAll ?_ (Sound.approveAll ?_ (init_sound (hgiven _ (.inl rfl))))
    · intro a ha
      exact hgiven a (.inr (List.mem_append_right _ ha))
    · intro a ha
      exact hgiven a (.inr (List.mem_append_left _ ha))
  obtain ⟨hs₁, hall₁⟩ := collectMissing_sound
    (fun auth hauth => checkAuthority_sound hsat (.root (.inl hauth))) hother hinit
  obtain ⟨hs₂, hall₂⟩ := collectMissing_sound (fun id hid =>
    orElse_sound
      (checkAccount_sound hsat (fun auth hget => .inr (.inr (.inl ⟨id, hid, .inl hget⟩))))
      (checkGot_sound (g := get.master) hsat (fun auth hget => .inr (.inr (.inl ⟨id, hid, .inr hget⟩)))))
    hactive hs₁
  obtain ⟨hs₃, hall₃⟩ := collectMissing_sound (fun id hid =>
    checkMaster_sound hsat (fun hholds => mem_satisfied.mpr (.inr (.inr ⟨hid, hholds⟩)))
      (fun hin => hgiven id (.inr (List.mem_append_right _ hin)))
      (fun auth hget => .inr (.inr (.inr ⟨id, hid, hget⟩)))) hmaster hs₂
  refine ⟨⟨?_, ?_, hall₃ rfl, hall₁ rfl⟩, hs₃⟩
  · intro id hid
    exact absurd (hreg ▸ hid) List.not_mem_nil
  · intro id hid
    rcases hall₂ rfl id hid with hin | hholds
    · rcases mem_satisfied.mp hin with hgiven | hholds | ⟨-, hholds⟩
      · exact .inl hgiven
      · exact .inr (.inl hholds)
      · exact .inr (.inr hholds)
    · exact .inr (.inr hholds)

theorem verifyActive_sound (h : verifyActive get depth sigs approvals req = .ok ()) (hreg : req.regular = []) :
    Authorised req sigs get approvals := by
  unfold verifyActive at h
  obtain ⟨⟨missing₁, s₁⟩, hother, h⟩ := except_bind_eq_ok h
  by_cases hm₁ : missing₁ ≠ []
  · rw [if_pos hm₁] at h
    nomatch h
  rw [if_neg hm₁] at h
  obtain rfl := not_not.mp hm₁
  obtain ⟨⟨missing₂, s₂⟩, hactive, h⟩ := except_bind_eq_ok h
  by_cases hm₂ : missing₂ ≠ []
  · rw [if_pos hm₂] at h
    nomatch h
  rw [if_neg hm₂] at h
  obtain rfl := not_not.mp hm₂
  obtain ⟨⟨missing₃, s₃⟩, hmaster, h⟩ := except_bind_eq_ok h
  by_cases hm₃ : missing₃ ≠ []
  · rw [if_pos hm₃] at h
    nomatch h
  rw [if_neg hm₃] at h
  obtain rfl := not_not.mp hm₃
  obtain ⟨hg, hs⟩ := collectActive_sound hreg hother hactive hmaster
  refine ⟨hg.regular, hg.active, hg.master, hg.other, ?_⟩
  rw [if_neg (not_not.mpr hreg)]
  exact assertUnusedApprovals_sound h hs

end Verdict

section Transactions

variable {Op : Type} {required : Op → Required} {ops : List Op} {sigs : List PublicKey} {get : Getters} {depth : Nat}
  {approvals : Approvals}

theorem authorised_of_verified (h : verifyAuthority required ops sigs get depth approvals = .ok ()) :
    Authorised (Required.of required ops) sigs get approvals := by
  unfold verifyAuthority at h
  dsimp only at h
  by_cases hreg : (Required.of required ops).regular ≠ []
  · rw [if_pos hreg] at h
    exact verifyRegular_sound h hreg
  · rw [if_neg hreg] at h
    exact verifyActive_sound h (not_not.mp hreg)

end Transactions

namespace Sample

/-- Two accounts: the first has one key for its master authority and another one for the rest; the second leaves
    its master authority to the first. -/
def get : Getters where
  active  := fun _ => .ok (.ofKey 8)
  master  := fun a => .ok (if a = 2 then { weightThreshold := 1, accountAuths := [(1, 1)] } else .ofKey 7)
  regular := fun _ => .ok (.ofKey 8)

/-- An operation that requires the active authority of an account. -/
def active (a : AccountName) : Required := { active := [a] }

/-- An operation that requires the master authority of an account. -/
def master (a : AccountName) : Required := { master := [a] }

/-- Without the master rule the only approved account is `temp`. -/
theorem satisfied_subset_temp :
    satisfied get.active get.master { k | k ∈ [7] } { a | a = tempAccount } ∅ ⊆ { a | a = tempAccount } := by
  refine satisfied_subset (fun a ha => ha) ?_ (fun a ha => absurd ha (Set.notMem_empty a))
  rintro a ⟨auth, hget, h⟩
  obtain rfl := Except.ok.inj hget
  unfold Reached at h
  rw [weightIn_eq_zero (by simp [Authority.ofKey]), weightIn_eq_zero (by simp [Authority.ofKey])] at h
  exact absurd h (by simp [Authority.ofKey])

end Sample

/-- **A verified transaction is authorised.** Every authority its operations require is reached, in the sense of the
    least fixpoint, unless the account is itself given as approved; and every key stands in an authority that was
    looked into. -/
theorem verifyAuthority_sound {Op : Type} (required : Op → Required) (ops : List Op) (sigs : List PublicKey)
    (get : Getters) (maxRecursionDepth : Nat) (approvals : Approvals)
    (h : verifyAuthority required ops sigs get maxRecursionDepth approvals = .ok ()) :
    Authorised (Required.of required ops) sigs get approvals ∧
    (∀ id, id ∈ (Required.of required ops).active ↔ ∃ op ∈ ops, id ∈ (required op).active) ∧
    (∀ id, id ∈ (Required.of required ops).master ↔ ∃ op ∈ ops, id ∈ (required op).master) ∧
    (∀ id, id ∈ (Required.of required ops).regular ↔ ∃ op ∈ ops, id ∈ (required op).regular) ∧
    (∀ auth, auth ∈ (Required.of required ops).other ↔ ∃ op ∈ ops, auth ∈ (required op).other) :=
  ⟨authorised_of_verified h, fun _ => mem_required_active, fun _ => mem_required_master,
    fun _ => mem_required_regular, fun _ => mem_required_other⟩

theorem verifyAuthority_sound_sample :
    Authorised (Required.of id [Sample.master 1, Sample.master 2]) [7] Sample.get {} :=
  (verifyAuthority_sound id [Sample.master 1, Sample.master 2] [7] Sample.get maxSigCheckDepth {} rfl).1

/-- **A required master account counts for later ones though its active authority is not reached.** The key `7`
    satisfies the master authority of the first account and nothing else, yet the second one, which asks for the
    first, is accepted. -/
theorem master_counts_as_approved :
    verifyAuthority id [Sample.master 1, Sample.master 2] [7] Sample.get maxSigCheckDepth {} = .ok () ∧
    2 ∈ (Required.of id [Sample.master 1, Sample.master 2]).master ∧
    ¬ Holds Sample.get.master { k | k ∈ [7] }
      (satisfied Sample.get.active Sample.get.master { k | k ∈ [7] } { a | a = tempAccount } ∅) 2 := by
  refine ⟨rfl, by decide, ?_⟩
  rintro ⟨auth, hget, h⟩
  obtain rfl := Except.ok.inj hget
  have hmono := h.mono Sample.satisfied_subset_temp
  unfold Reached at hmono
  rw [weightIn_eq_zero (by simp), weightIn_eq_zero (by simp [tempAccount])] at hmono
  exact absurd hmono (by simp)

/-! ## Transactions nobody signed -/

/-- **`temp` alone suffices**: all that is required is reached by the weights of accounts that are approved because
    `temp` is, or is required of `temp` itself. -/
structure TempSuffices (req : Required) (get : Getters) : Prop where
  regular : ∀ id ∈ req.regular, id = tempAccount ∨ Holds get.regular ∅ (satisfiedRegular get ∅ {}) id ∨
    Holds get.active ∅ (satisfiedRegular get ∅ {}) id ∨ Holds get.master ∅ (satisfiedRegular get ∅ {}) id
  active  : ∀ id ∈ req.active, id = tempAccount ∨ Holds get.active ∅ (satisfiedActive get ∅ {} req.master) id ∨
    Holds get.master ∅ (satisfiedActive get ∅ {} req.master) id
  master  : ∀ id ∈ req.master, Holds get.master ∅ (satisfiedActive get ∅ {} req.master) id
  other   : ∀ auth ∈ req.other, Reached ∅ (satisfiedActive get ∅ {} req.master) auth

section Unnamed

variable {get : Getters} {req : Required} {nested : AuthorityGetter} {roots : Set Authority}

/-- The accounts that nothing consulted leads to, and `temp`. -/
def beyond (nested : AuthorityGetter) (roots : Set Authority) : Set AccountName :=
  { a | a = tempAccount ∨ ∃ auth, nested a = .ok auth ∧ ¬ Consulted nested roots auth }

/-- Without keys a consulted authority that does not name `temp` has no weight behind it. -/
theorem not_reached_beyond (hname : ∀ auth, Consulted nested roots auth → tempAccount ∉ auth.accountAuths.map Prod.fst)
    {auth : Authority} (hc : Consulted nested roots auth) (hpos : 1 ≤ auth.weightThreshold) :
    ¬ Reached ∅ (beyond nested roots) auth := by
  intro h
  unfold Reached at h
  rw [weightIn_eq_zero (fun e _ => Set.notMem_empty e.1), weightIn_eq_zero] at h
  · omega
  · rintro e he (htemp | ⟨auth', hget, hnot⟩)
    · exact hname auth hc (htemp ▸ List.mem_map_of_mem he)
    · exact hnot (.inside hc (List.mem_map_of_mem he) hget)

/-- So nothing beyond these accounts is ever satisfied. -/
theorem satisfied_subset_beyond {master : AuthorityGetter} {masters : Set AccountName}
    (hname : ∀ auth, Consulted nested roots auth → tempAccount ∉ auth.accountAuths.map Prod.fst)
    (hpos : ∀ a auth, nested a = .ok auth ∨ master a = .ok auth → 1 ≤ auth.weightThreshold)
    (hroot : ∀ a ∈ masters, ∀ auth, master a = .ok auth → auth ∈ roots) :
    satisfied nested master ∅ (givenTo []) masters ⊆ beyond nested roots := by
  refine satisfied_subset ?_ ?_ ?_
  · rintro a (ha | ha)
    · exact .inl ha
    · exact absurd ha List.not_mem_nil
  · rintro a ⟨auth, hget, h⟩
    by_cases hc : Consulted nested roots auth
    · exact absurd h (not_reached_beyond hname hc (hpos a auth (.inl hget)))
    · exact .inr ⟨auth, hget, hc⟩
  · rintro a ha ⟨auth, hget, h⟩
    exact absurd h (not_reached_beyond hname (.root (hroot a ha auth hget)) (hpos a auth (.inr hget)))

/-- **`temp` suffices only where it is named**: required itself, or trusted by an authority that is looked into. -/
theorem temp_named (h : TempSuffices req get)
    (hpos : ∀ a auth, get.active a = .ok auth ∨ get.master a = .ok auth ∨ get.regular a = .ok auth →
      1 ≤ auth.weightThreshold) (hother : ∀ auth ∈ req.other, 1 ≤ auth.weightThreshold)
    (hreq : req.regular ≠ [] ∨ req.active ≠ [] ∨ req.master ≠ [] ∨ req.other ≠ []) :
    tempAccount ∈ req.regular ∨ tempAccount ∈ req.active ∨
      ∃ nested ∈ [get.regular, get.active], ∃ auth, Consulted nested (examined get req) auth ∧
        tempAccount ∈ auth.accountAuths.map Prod.fst := by
  by_contra hno
  rw [not_or, not_or] at hno
  obtain ⟨hregular, hactive, hnamed⟩ := hno
  have hname : ∀ nested ∈ [get.regular, get.active], ∀ auth, Consulted nested (examined get req) auth →
      tempAccount ∉ auth.accountAuths.map Prod.fst :=
    fun nested hn auth hc hin => hnamed ⟨nested, hn, auth, hc, hin⟩
  have hname₁ := hname get.regular List.mem_cons_self
  have hname₂ := hname get.active (List.mem_cons_of_mem _ List.mem_cons_self)
  have hsat₁ : satisfiedRegular get ∅ {} ⊆ beyond get.regular (examined get req) :=
    satisfied_subset_beyond hname₁ (fun a auth hget => hpos a auth (hget.elim (.inr ∘ .inr) (.inr ∘ .inl)))
      (fun a ha => absurd ha (Set.notMem_empty a))
  have hsat₂ : satisfiedActive get ∅ {} req.master ⊆ beyond get.active (examined get req) :=
    satisfied_subset_beyond hname₂ (fun a auth hget => hpos a auth (hget.elim .inl (.inr ∘ .inl)))
      (fun a ha auth hget => .inr (.inr (.inr ⟨a, ha, hget⟩)))
  -- an authority the checks start from is not reached
  have hnot₁ : ∀ auth ∈ examined get req, 1 ≤ auth.weightThreshold →
      ¬ Reached ∅ (satisfiedRegular get ∅ {}) auth :=
    fun auth hauth hp hr => not_reached_beyond hname₁ (.root hauth) hp (hr.mono hsat₁)
  have hnot₂ : ∀ auth ∈ examined get req, 1 ≤ auth.weightThreshold →
      ¬ Reached ∅ (satisfiedActive get ∅ {} req.master) auth :=
    fun auth hauth hp hr => not_reached_beyond hname₂ (.root hauth) hp (hr.mono hsat₂)
  rcases hreq with hne | hne | hne | hne
  · obtain ⟨id, hid⟩ := List.exists_mem_of_ne_nil _ hne
    rcases h.regular id hid with rfl | ⟨auth, hget, hr⟩ | ⟨auth, hget, hr⟩ | ⟨auth, hget, hr⟩
    · exact hregular hid
    · exact hnot₁ auth (.inr (.inl ⟨id, hid, .inl hget⟩)) (hpos id auth (.inr (.inr hget))) hr
    · exact hnot₁ auth (.inr (.inl ⟨id, hid, .inr (.inl hget)⟩)) (hpos id auth (.inl hget)) hr
    · exact hnot₁ auth (.inr (.inl ⟨id, hid, .inr (.inr hget)⟩)) (hpos id auth (.inr (.inl hget))) hr
  · obtain ⟨id, hid⟩ := List.exists_mem_of_ne_nil _ hne
    rcases h.active id hid with rfl | ⟨auth, hget, hr⟩ | ⟨auth, hget, hr⟩
    · exact hactive hid
    · exact hnot₂ auth (.inr (.inr (.inl ⟨id, hid, .inl hget⟩))) (hpos id auth (.inl hget)) hr
    · exact hnot₂ auth (.inr (.inr (.inl ⟨id, hid, .inr hget⟩))) (hpos id auth (.inr (.inl hget))) hr
  · obtain ⟨id, hid⟩ := List.exists_mem_of_ne_nil _ hne
    obtain ⟨auth, hget, hr⟩ := h.master id hid
    exact hnot₂ auth (.inr (.inr (.inr ⟨id, hid, hget⟩))) (hpos id auth (.inr (.inl hget))) hr
  · obtain ⟨auth, hauth⟩ := List.exists_mem_of_ne_nil _ hne
    exact hnot₂ auth (.inl hauth) (hother auth hauth) (h.other auth hauth)

end Unnamed

theorem givenTo_nil {a : AccountName} (h : a ∈ givenTo []) : a = tempAccount :=
  h.resolve_right List.not_mem_nil

/-- What is authorised without a key and without an approval is so because of `temp`. -/
theorem Authorised.tempSuffices {req : Required} {get : Getters} (h : Authorised req [] get {}) :
    TempSuffices req get := by
  have hkeys : ({ k | k ∈ ([] : List PublicKey) } : Set PublicKey) = ∅ := by
    ext k
    simp
  obtain ⟨hregular, hactive, hmaster, hother, -⟩ := h
  rw [hkeys] at hregular hactive hmaster hother
  refine ⟨?_, ?_, ?_, hother⟩
  · intro id hid
    exact (hregular id hid).imp givenTo_nil (fun hr => hr)
  · intro id hid
    exact (hactive id hid).imp givenTo_nil (fun hr => hr)
  · intro id hid
    exact (hmaster id hid).resolve_left List.not_mem_nil

/-- The authorities of the sample have a threshold, and none of them names `temp`. -/
theorem Sample.get_pos {a : AccountName} {auth : Authority} (h : Sample.get.active a = .ok auth ∨
    Sample.get.master a = .ok auth ∨ Sample.get.regular a = .ok auth) :
    1 ≤ auth.weightThreshold ∧ tempAccount ∉ auth.accountAuths.map Prod.fst := by
  have hone : ∀ auth, auth = Authority.ofKey 8 ∨ auth = Authority.ofKey 7 ∨
      auth = { weightThreshold := 1, accountAuths := [(1, 1)] } →
        1 ≤ auth.weightThreshold ∧ tempAccount ∉ auth.accountAuths.map Prod.fst := by
    rintro auth (rfl | rfl | rfl) <;> decide
  rcases h with h | h | h
  · exact hone auth (.inl (Except.ok.inj h).symm)
  · obtain rfl := Except.ok.inj h
    by_cases ha : a = 2
    · rw [if_pos ha]
      exact hone _ (.inr (.inr rfl))
    · rw [if_neg ha]
      exact hone _ (.inr (.inl rfl))
  · exact hone auth (.inl (Except.ok.inj h).symm)

/-- What is looked into is an authority of some account, when no other authority is required. -/
theorem Consulted.got {get : Getters} {req : Required} {nested : AuthorityGetter} {auth : Authority}
    (h : Consulted nested (examined get req) auth) (hn : nested ∈ [get.regular, get.active]) (hother : req.other = []) :
    ∃ a, get.active a = .ok auth ∨ get.master a = .ok auth ∨ get.regular a = .ok auth := by
  cases h with
  | root h =>
      rcases h with h | ⟨id, -, h | h | h⟩ | ⟨id, -, h | h⟩ | ⟨id, -, h⟩
      · exact absurd (hother ▸ h) List.not_mem_nil
      · exact ⟨id, .inr (.inr h)⟩
      · exact ⟨id, .inl h⟩
      · exact ⟨id, .inr (.inl h)⟩
      · exact ⟨id, .inl h⟩
      · exact ⟨id, .inr (.inl h)⟩
      · exact ⟨id, .inr (.inl h)⟩
  | inside _ _ hget =>
      rcases List.mem_cons.mp hn with rfl | hn
      · exact ⟨_, .inr (.inr hget)⟩
      · rw [List.mem_singleton.mp hn] at hget
        exact ⟨_, .inl hget⟩

end Signing

end VizNode
