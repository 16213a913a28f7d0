import VizNode.Signing.SignState
import VizNode.Lib.Prog
import Mathlib.Order.FixedPoints
import Mathlib.Order.CompletePartialOrder

/-!
# `VizNode.Signing.Soundness` — what a verified transaction is signed for

The purpose of an authority is a **least fixpoint**: an account is satisfied when keys and satisfied accounts of
enough weight stand behind it, and nothing else makes it satisfied, so that two accounts which only name each
other are not. `verify_authority` computes with a cache of approved accounts that is kept across levels, across
required accounts and through the recursion; that what it approves is in the fixpoint is an invariant of the
cache.

## Contents
- **Purpose.** `Reached` and `satisfied`.
- **Reading.** `Consulted`: the authorities a check looks into.
- **The cache.** `Sound`, and that every check keeps it.
-/

namespace VizNode

namespace Signing

open SignState Prog

/-! ## Purpose -/

section Purpose

open Classical in
/-- The weight of the entries that are in a set. -/
noncomputable def weightIn {α : Type} (S : Set α) (l : List (α × Nat)) : Nat :=
  (l.map (fun e => if e.1 ∈ S then e.2 else 0)).sum

variable {α : Type} {S T : Set α} {l : List (α × Nat)} {x : α} {w : Nat}

@[simp] theorem weightIn_nil : weightIn S [] = 0 := rfl

theorem weightIn_cons_of_mem (h : x ∈ S) : weightIn S ((x, w) :: l) = w + weightIn S l := by
  unfold weightIn
  rw [List.map_cons, List.sum_cons, if_pos h]

theorem weightIn_le_cons : weightIn S l ≤ weightIn S ((x, w) :: l) := by
  unfold weightIn
  rw [List.map_cons, List.sum_cons]
  exact Nat.le_add_left _ _

theorem weightIn_mono (h : S ⊆ T) : weightIn S l ≤ weightIn T l := by
  induction l with
  | nil => exact le_rfl
  | cons e l ih =>
      obtain ⟨x, w⟩ := e
      by_cases hx : x ∈ S
      · rw [weightIn_cons_of_mem hx, weightIn_cons_of_mem (h hx)]
        exact Nat.add_le_add_left ih w
      · have hcons : weightIn S ((x, w) :: l) = weightIn S l := by
          unfold weightIn
          rw [List.map_cons, List.sum_cons, if_neg hx, Nat.zero_add]
        rw [hcons]
        exact ih.trans weightIn_le_cons

theorem weightIn_eq_zero (h : ∀ e ∈ l, e.1 ∉ S) : weightIn S l = 0 := by
  induction l with
  | nil => rfl
  | cons e l ih =>
      unfold weightIn at ih ⊢
      rw [List.map_cons, List.sum_cons, if_neg (h e List.mem_cons_self), Nat.zero_add]
      exact ih (fun e he => h e (List.mem_cons_of_mem _ he))

end Purpose

/-- **The threshold is reached** by the keys and the accounts. -/
def Reached (keys : Set PublicKey) (accounts : Set AccountName) (auth : Authority) : Prop :=
  auth.weightThreshold ≤ weightIn keys auth.keyAuths + weightIn accounts auth.accountAuths

theorem Reached.mono {keys : Set PublicKey} {S T : Set AccountName} {auth : Authority} (h : Reached keys S auth)
    (hST : S ⊆ T) : Reached keys T auth := by
  unfold Reached at h ⊢
  have hle : weightIn S auth.accountAuths ≤ weightIn T auth.accountAuths := weightIn_mono hST
  omega

/-- The authority a getter has for an account is reached. -/
def Holds (get : AuthorityGetter) (keys : Set PublicKey) (accounts : Set AccountName) (a : AccountName) : Prop :=
  ∃ auth, get a = .ok auth ∧ Reached keys accounts auth

/-- One turn of the fixpoint: the accounts that are `given`, those whose `nested` authority is reached, and those
    of `masters` whose master authority is. -/
def grant (nested master : AuthorityGetter) (keys : Set PublicKey) (given masters : Set AccountName) :
    Set AccountName →o Set AccountName where
  toFun S := { a | a ∈ given ∨ Holds nested keys S a ∨ a ∈ masters ∧ Holds master keys S a }
  monotone' := by
    intro S T hST a ha
    have hmono : ∀ get : AuthorityGetter, Holds get keys S a → Holds get keys T a := by
      rintro get ⟨auth, hget, h⟩
      exact ⟨auth, hget, h.mono hST⟩
    rcases ha with h | h | ⟨hm, h⟩
    · exact .inl h
    · exact .inr (.inl (hmono nested h))
    · exact .inr (.inr ⟨hm, hmono master h⟩)

/-- **The satisfied accounts**, the least fixpoint. -/
def satisfied (nested master : AuthorityGetter) (keys : Set PublicKey) (given masters : Set AccountName) :
    Set AccountName :=
  (grant nested master keys given masters).lfp

section Satisfied

variable {nested master : AuthorityGetter} {keys : Set PublicKey} {given masters : Set AccountName} {a : AccountName}

/-- What the fixpoint says of one account. -/
theorem mem_satisfied : a ∈ satisfied nested master keys given masters ↔
    a ∈ given ∨ Holds nested keys (satisfied nested master keys given masters) a ∨
      a ∈ masters ∧ Holds master keys (satisfied nested master keys given masters) a := by
  have hfix : grant nested master keys given masters (satisfied nested master keys given masters) =
      satisfied nested master keys given masters :=
    OrderHom.map_lfp _
  constructor
  · intro ha
    rw [← hfix] at ha
    exact ha
  · intro ha
    rw [← hfix]
    exact ha

/-- A set that is closed under the turn has all satisfied accounts. -/
theorem satisfied_subset {S : Set AccountName} (hgiven : given ⊆ S) (hnested : ∀ a, Holds nested keys S a → a ∈ S)
    (hmaster : ∀ a ∈ masters, Holds master keys S a → a ∈ S) :
    satisfied nested master keys given masters ⊆ S := by
  apply OrderHom.lfp_le
  rintro a (h | h | ⟨hm, h⟩)
  · exact hgiven h
  · exact hnested a h
  · exact hmaster a hm h

end Satisfied

/-! ## Reading -/

/-- **The authorities a check looks into**: the ones it starts from, and those of the accounts inside them. -/
inductive Consulted (nested : AuthorityGetter) (roots : Set Authority) : Authority → Prop
  | root {auth : Authority} (h : auth ∈ roots) : Consulted nested roots auth
  | inside {auth auth' : Authority} {a : AccountName} (h : Consulted nested roots auth)
      (ha : a ∈ auth.accountAuths.map Prod.fst) (hget : nested a = .ok auth') : Consulted nested roots auth'

/-! ## The cache -/

section Put

variable {κ α : Type} [DecidableEq κ] {t : Table κ α} {k j : κ} {x : α}

theorem mem_put_keys : j ∈ (put t k x).keys ↔ j ∈ t.keys ∨ j = k := by
  unfold put
  by_cases hk : k ∈ t.keys
  · rw [if_pos hk, Table.modify_keys]
    constructor
    · exact .inl
    · rintro (h | rfl)
      · exact h
      · exact hk
  · rw [if_neg hk, Table.mem_insert_keys hk]

end Put

/-- **What a state of the check may say.** `sat` are the accounts it may approve, `read` the authorities it may have
    looked into. -/
structure Sound (sigs : List PublicKey) (sat : Set AccountName) (read : Authority → Prop) (s : SignState) : Prop where
  available : s.availableKeys = []
  keys      : ∀ k, k ∈ s.providedSignatures.keys ↔ k ∈ sigs
  used      : ∀ k, s.providedSignatures.row k = true → ∃ auth, read auth ∧ k ∈ auth.keyAuths.map Prod.fst
  approved  : ∀ a ∈ s.approvedBy.keys, a ∈ sat

namespace Sound

variable {sigs : List PublicKey} {sat : Set AccountName} {read : Authority → Prop} {s : SignState}

theorem approve (h : Sound sigs sat read s) {a : AccountName} {used : Bool} (ha : a ∈ sat) :
    Sound sigs sat read (s.approve a used) := by
  refine ⟨h.available, h.keys, h.used, ?_⟩
  intro c hc
  rcases mem_put_keys.mp hc with hc | rfl
  · exact h.approved c hc
  · exact ha

theorem approveAll {l : List AccountName} (hl : ∀ a ∈ l, a ∈ sat) (h : Sound sigs sat read s) :
    Sound sigs sat read (l.foldl (fun s id => s.approve id false) s) := by
  induction l generalizing s with
  | nil => exact h
  | cons a l ih =>
      exact ih (fun c hc => hl c (List.mem_cons_of_mem a hc)) (h.approve (hl a List.mem_cons_self))

end Sound

theorem init_sound {sigs : List PublicKey} {sat : Set AccountName} {read : Authority → Prop}
    (h : tempAccount ∈ sat) : Sound sigs sat read (SignState.init sigs []) := by
  have hkeys : ∀ (l : List PublicKey) (t : Table PublicKey Bool), (∀ k, t.row k = false) →
      (∀ k, (l.foldl (fun t k => put t k false) t).row k = false) ∧
      ∀ k, k ∈ (l.foldl (fun t k => put t k false) t).keys ↔ k ∈ t.keys ∨ k ∈ l := by
    intro l
    induction l with
    | nil =>
        intro t ht
        exact ⟨ht, fun k => by simp⟩
    | cons x l ih =>
        intro t ht
        have hrow : ∀ k, (put t x false).row k = false := by
          intro k
          unfold put
          split
          next hx =>
            rw [Table.modify_row]
            split
            · rfl
            · exact ht k
          next hx =>
            rw [Table.insert_row hx]
            split
            · rfl
            · exact ht k
        obtain ⟨hrows, hmem⟩ := ih (put t x false) hrow
        refine ⟨hrows, fun k => ?_⟩
        rw [List.foldl_cons, hmem, mem_put_keys, List.mem_cons, or_assoc]
  obtain ⟨hrow, hmem⟩ := hkeys sigs .empty (fun _ => rfl)
  refine ⟨rfl, fun k => ?_, fun k hk => ?_, fun a ha => ?_⟩
  · exact (hmem k).trans (or_iff_right List.not_mem_nil)
  · exact absurd (hk.symm.trans (hrow k)) (by simp)
  · rcases mem_put_keys.mp ha with ha | rfl
    · exact absurd ha List.not_mem_nil
    · exact h

section Checks

variable {sigs : List PublicKey} {sat : Set AccountName} {read : Authority → Prop} {s s' : SignState}

/-- A key is used because it stands in an authority that was looked into, and counts because it was provided. -/
theorem signedBy_sound {k : PublicKey} {auth : Authority} (hs : Sound sigs sat read s) (hr : read auth)
    (hk : k ∈ auth.keyAuths.map Prod.fst) :
    Sound sigs sat read (s.signedBy k).2 ∧ ((s.signedBy k).1 = true → k ∈ sigs) := by
  unfold SignState.signedBy
  by_cases hin : k ∈ s.providedSignatures.keys
  · rw [if_pos hin]
    refine ⟨⟨hs.available, hs.keys, ?_, hs.approved⟩, fun _ => (hs.keys k).mp hin⟩
    intro j hj
    by_cases hjk : j = k
    · rw [hjk]
      exact ⟨auth, hr, hk⟩
    · dsimp only at hj
      rw [Table.modify_row_of_ne hjk] at hj
      exact hs.used j hj
  · rw [if_neg hin, if_neg (hs.available ▸ List.not_mem_nil)]
    exact ⟨hs, fun h => absurd h Bool.false_ne_true⟩

/-- **The first loop.** What it has counted are provided keys. -/
theorem weighKeys_sound {auth : Authority} {threshold : Nat} (hr : read auth) {ks : List (PublicKey × Nat)}
    (hks : ∀ k ∈ ks.map Prod.fst, k ∈ auth.keyAuths.map Prod.fst) {total : Nat} {r : Option Nat}
    (h : weighKeys threshold ks total s = (r, s')) (hs : Sound sigs sat read s) :
    Sound sigs sat read s' ∧
      match r with
      | none   => threshold ≤ total + weightIn { k | k ∈ sigs } ks
      | some n => n ≤ total + weightIn { k | k ∈ sigs } ks := by
  induction ks generalizing total s with
  | nil =>
      obtain ⟨rfl, rfl⟩ := Prod.mk.inj h
      exact ⟨hs, le_rfl⟩
  | cons e ks ih =>
      obtain ⟨k, w⟩ := e
      obtain ⟨hs₁, hin⟩ := signedBy_sound hs hr (hks k List.mem_cons_self)
      have hrest : ∀ j ∈ ks.map Prod.fst, j ∈ auth.keyAuths.map Prod.fst :=
        fun j hj => hks j (List.mem_cons_of_mem k hj)
      unfold weighKeys at h
      generalize hsig : s.signedBy k = q at h hs₁ hin
      obtain ⟨signed, s₁⟩ := q
      dsimp only at h hs₁ hin
      have hmod : (total + w) % 2 ^ 32 ≤ total + w := Nat.mod_le _ _
      cases signed with
      | true =>
          -- the 32-bit sum is never above the true one
          have hw := weightIn_cons_of_mem (l := ks) (w := w) (S := { j | j ∈ sigs }) (hin rfl)
          dsimp only at h
          by_cases hle : threshold ≤ (total + w) % 2 ^ 32
          · rw [if_pos hle] at h
            obtain ⟨rfl, rfl⟩ := Prod.mk.inj h
            refine ⟨hs₁, ?_⟩
            show threshold ≤ _
            omega
          · rw [if_neg hle] at h
            obtain ⟨hs', hle'⟩ := ih hrest h hs₁
            refine ⟨hs', ?_⟩
            cases r <;> dsimp only at hle' ⊢ <;> omega
      | false =>
          obtain ⟨hs', hle'⟩ := ih hrest h hs₁
          have hw := weightIn_le_cons (S := { j | j ∈ sigs }) (x := k) (w := w) (l := ks)
          refine ⟨hs', ?_⟩
          cases r <;> dsimp only at hle' ⊢ <;> omega

/-- **A check keeps the cache**, and what it accepts is so. -/
def Keeps (sigs : List PublicKey) (sat : Set AccountName) (read : Authority → Prop)
    (check : SignState → Except AuthorityError (Bool × SignState)) (accepted : Prop) : Prop :=
  ∀ s r s', check s = .ok (r, s') → Sound sigs sat read s → Sound sigs sat read s' ∧ (r = true → accepted)

/-- **The second loop.** What it counts are satisfied accounts. -/
theorem weighAccounts_sound {nested : Option (AccountName → SignState → Except AuthorityError (Bool × SignState))}
    {threshold : Nat} {as : List (AccountName × Nat)}
    (hn : ∀ check, nested = some check → ∀ a ∈ as.map Prod.fst, Keeps sigs sat read (check a) (a ∈ sat))
    {total : Nat} {r : Bool} (h : weighAccounts nested threshold as total s = .ok (r, s'))
    (hs : Sound sigs sat read s) :
    Sound sigs sat read s' ∧ (r = true → threshold ≤ total + weightIn sat as) := by
  induction as generalizing total s with
  | nil =>
      obtain ⟨rfl, rfl⟩ := Prod.mk.inj (Except.ok.inj h)
      exact ⟨hs, fun h => of_decide_eq_true h⟩
  | cons e as ih =>
      obtain ⟨a, w⟩ := e
      have hrest : ∀ check, nested = some check → ∀ c ∈ as.map Prod.fst, Keeps sigs sat read (check c) (c ∈ sat) :=
        fun check hc c hin => hn check hc c (List.mem_cons_of_mem a hin)
      have hmod : (total + w) % 2 ^ 32 ≤ total + w := Nat.mod_le _ _
      have hskip := weightIn_le_cons (S := sat) (x := a) (w := w) (l := as)
      -- an entry of a satisfied account, in a state that may have approved it
      have hcount : ∀ s₁, a ∈ sat → Sound sigs sat read s₁ →
          (if threshold ≤ (total + w) % 2 ^ 32 then .ok (true, s₁)
            else weighAccounts nested threshold as ((total + w) % 2 ^ 32) s₁ : Except AuthorityError _) = .ok (r, s') →
          Sound sigs sat read s' ∧ (r = true → threshold ≤ total + weightIn sat ((a, w) :: as)) := by
        intro s₁ ha hs₁ h
        rw [weightIn_cons_of_mem ha]
        by_cases hle : threshold ≤ (total + w) % 2 ^ 32
        · rw [if_pos hle] at h
          obtain ⟨rfl, rfl⟩ := Prod.mk.inj (Except.ok.inj h)
          exact ⟨hs₁, fun _ => by omega⟩
        · rw [if_neg hle] at h
          obtain ⟨hs', hacc⟩ := ih hrest h hs₁
          exact ⟨hs', fun hr => by have := hacc hr; omega⟩
      unfold weighAccounts at h
      by_cases hin : a ∈ s.approvedBy.keys
      · rw [if_pos hin] at h
        exact hcount s (hs.approved a hin) hs h
      · rw [if_neg hin] at h
        cases nested with
        | none =>
            obtain ⟨hs', hacc⟩ := ih hrest h hs
            exact ⟨hs', fun hr => (hacc hr).trans (Nat.add_le_add_left hskip total)⟩
        | some check =>
            obtain ⟨⟨ok, s₁⟩, hcheck, h⟩ := except_bind_eq_ok h
            obtain ⟨hs₁, hacc₁⟩ := hn check rfl a List.mem_cons_self s ok s₁ hcheck hs
            dsimp only at h
            cases ok with
            | true => exact hcount _ (hacc₁ rfl) (hs₁.approve (hacc₁ rfl)) h
            | false =>
                obtain ⟨hs', hacc⟩ := ih hrest h hs₁
                exact ⟨hs', fun hr => (hacc hr).trans (Nat.add_le_add_left hskip total)⟩

/-- **Both loops.** -/
theorem weigh_sound {nested : Option (AccountName → SignState → Except AuthorityError (Bool × SignState))}
    {auth : Authority} (hr : read auth) (hn : ∀ check, nested = some check →
      ∀ a ∈ auth.accountAuths.map Prod.fst, Keeps sigs sat read (check a) (a ∈ sat)) :
    Keeps sigs sat read (weigh nested auth) (Reached { k | k ∈ sigs } sat auth) := by
  intro s r s' h hs
  unfold weigh at h
  generalize hkeys : weighKeys auth.weightThreshold auth.keyAuths 0 s = q at h
  obtain ⟨out, s₁⟩ := q
  obtain ⟨hs₁, hle⟩ := weighKeys_sound hr (fun _ hk => hk) hkeys hs
  unfold Reached
  cases out with
  | none =>
      obtain ⟨rfl, rfl⟩ := Prod.mk.inj (Except.ok.inj h)
      exact ⟨hs₁, fun _ => by dsimp only at hle; omega⟩
  | some total =>
      obtain ⟨hs', hacc⟩ := weighAccounts_sound hn h hs₁
      exact ⟨hs', fun hr => by have := hacc hr; dsimp only at hle; omega⟩

variable {nested : AuthorityGetter} {roots : Set Authority}

/-- **`check_authority` of an authority**, by induction on the depth that is left. -/
theorem checkAuthority_sound (hsat : ∀ a, Holds nested { k | k ∈ sigs } sat a → a ∈ sat) {left : Nat}
    {auth : Authority} (hr : Consulted nested roots auth) :
    Keeps sigs sat (Consulted nested roots) (checkAuthority nested left auth) (Reached { k | k ∈ sigs } sat auth) := by
  induction left generalizing auth with
  | zero => exact weigh_sound hr (fun _ h => nomatch h)
  | succ left ih =>
      refine weigh_sound hr ?_
      rintro check hcheck a ha s r s' h hs
      obtain rfl := Option.some.inj hcheck
      obtain ⟨auth', hget, h⟩ := except_bind_eq_ok h
      obtain ⟨hs', hacc⟩ := ih (.inside hr ha hget) s r s' h hs
      exact ⟨hs', fun hr => hsat a ⟨auth', hget, hacc hr⟩⟩

/-- A check of the authority that a getter has for an account. -/
theorem checkGot_sound {g : AuthorityGetter} {depth : Nat} {id : AccountName}
    (hsat : ∀ a, Holds nested { k | k ∈ sigs } sat a → a ∈ sat) (hroot : ∀ auth, g id = .ok auth → auth ∈ roots) :
    Keeps sigs sat (Consulted nested roots)
      (fun s => do
        let auth ← g id
        checkAuthority nested depth auth s) (Holds g { k | k ∈ sigs } sat id) := by
  intro s r s' h hs
  obtain ⟨auth, hget, h⟩ := except_bind_eq_ok h
  obtain ⟨hs', hacc⟩ := checkAuthority_sound hsat (.root (hroot auth hget)) s r s' h hs
  exact ⟨hs', fun hr => ⟨auth, hget, hacc hr⟩⟩

/-- **`check_authority` of an account.** -/
theorem checkAccount_sound {depth : Nat} {id : AccountName}
    (hsat : ∀ a, Holds nested { k | k ∈ sigs } sat a → a ∈ sat)
    (hroot : ∀ auth, nested id = .ok auth → auth ∈ roots) :
    Keeps sigs sat (Consulted nested roots) (checkAccount nested depth id) (id ∈ sat) := by
  intro s r s' h hs
  unfold checkAccount at h
  by_cases hin : id ∈ s.approvedBy.keys
  · rw [if_pos hin] at h
    obtain ⟨rfl, rfl⟩ := Prod.mk.inj (Except.ok.inj h)
    have hid : id ∈ sat := hs.approved id hin
    exact ⟨hs.approve hid, fun _ => hid⟩
  · rw [if_neg hin] at h
    obtain ⟨hs', hacc⟩ := checkGot_sound hsat hroot s r s' h hs
    exact ⟨hs', fun hr => hsat id (hacc hr)⟩

theorem orElse_sound {first second : SignState → Except AuthorityError (Bool × SignState)} {A B : Prop}
    (h₁ : Keeps sigs sat read first A) (h₂ : Keeps sigs sat read second B) :
    Keeps sigs sat read (SignState.orElse first second) (A ∨ B) := by
  intro s r s' h hs
  obtain ⟨⟨ok, s₁⟩, hfirst, h⟩ := except_bind_eq_ok h
  obtain ⟨hs₁, hacc₁⟩ := h₁ s ok s₁ hfirst hs
  cases ok with
  | true =>
      obtain ⟨rfl, rfl⟩ := Prod.mk.inj (Except.ok.inj h)
      exact ⟨hs₁, fun _ => .inl (hacc₁ rfl)⟩
  | false =>
      obtain ⟨hs', hacc⟩ := h₂ s₁ r s' h hs₁
      exact ⟨hs', fun hr => .inr (hacc hr)⟩

/-- **A loop over what is required**: when nothing is missing, everything was accepted. -/
theorem collectMissing_sound {α : Type} {check : α → SignState → Except AuthorityError (Bool × SignState)}
    {accepted : α → Prop} {xs : List α} (hc : ∀ x ∈ xs, Keeps sigs sat read (check x) (accepted x)) {missing : List α}
    (h : collectMissing check xs s = .ok (missing, s')) (hs : Sound sigs sat read s) :
    Sound sigs sat read s' ∧ (missing = [] → ∀ x ∈ xs, accepted x) := by
  induction xs generalizing s missing with
  | nil =>
      obtain ⟨rfl, rfl⟩ := Prod.mk.inj (Except.ok.inj h)
      exact ⟨hs, fun _ x hx => absurd hx List.not_mem_nil⟩
  | cons x xs ih =>
      obtain ⟨⟨ok, s₁⟩, hcheck, h⟩ := except_bind_eq_ok h
      obtain ⟨⟨rest, s₂⟩, hrest, h⟩ := except_bind_eq_ok h
      obtain ⟨rfl, rfl⟩ := Prod.mk.inj (Except.ok.inj h)
      obtain ⟨hs₁, hacc₁⟩ := hc x List.mem_cons_self s ok s₁ hcheck hs
      obtain ⟨hs₂, hacc₂⟩ := ih (fun y hy => hc y (List.mem_cons_of_mem x hy)) hrest hs₁
      refine ⟨hs₂, fun hnil y hy => ?_⟩
      cases ok with
      | false => exact absurd hnil (List.cons_ne_nil _ _)
      | true =>
          rcases List.mem_cons.mp hy with rfl | hy
          · exact hacc₁ rfl
          · exact hacc₂ hnil y hy

/-- No key is left over at the end. -/
theorem assertUnusedApprovals_sound (h : s.assertUnusedApprovals = .ok ()) (hs : Sound sigs sat read s) :
    ∀ k ∈ sigs, ∃ auth, read auth ∧ k ∈ auth.keyAuths.map Prod.fst := by
  intro k hk
  unfold assertUnusedApprovals at h
  by_cases hunused : s.unusedSignatures ≠ []
  · rw [if_pos hunused] at h
    nomatch h
  · refine hs.used k ?_
    have hnot : k ∉ s.unusedSignatures := by
      rw [not_not.mp hunused]
      exact List.not_mem_nil
    unfold unusedSignatures at hnot
    rw [List.mem_filter] at hnot
    cases hrow : s.providedSignatures.row k with
    | true => rfl
    | false => exact absurd ⟨(hs.keys k).mpr hk, by rw [hrow]; rfl⟩ hnot

end Checks

end Signing

end VizNode
