import VizNode.Signing.Enough
import Mathlib.Data.List.Sort

/-!
# `VizNode.Signing.Minimize` — which keys to sign with

A wallet asks which of its keys it should sign a transaction with. `get_required_signatures` goes through the required
authorities and collects the available keys it comes across; `minimize_required_signatures` takes them out one by one
and keeps out those that `verify_authority` does not miss.

**The two do not look at the same authorities.** `verify_authority` falls back to the active and the master authority
of an account, and follows accounts inside a master authority by their active ones; the collection does neither. So it
may collect too little, and then the result does not pass (`fallback_key_not_found`). Or it collects a key nobody asks
for: if another one can be spared first, `verify_authority` objects to the signature that is left over, and that is not
among the errors the loop expects. Where no authority goes deeper than the check follows it, that is all that can go
wrong (`minimize_iff`).

## Contents
- **The code.** `getRequiredSignatures`, `minimizeRequiredSignatures`.
- **The collection.** `LooksAt`, `Candidates`.
- **The loop.** `minimizeLoop_kept`, `minimizeLoop_clean`.
-/

namespace VizNode

namespace Signing

open SignState Prog

/-! ## The code -/

/-- What the two functions throw. -/
inductive RequiredError where
  | duplicateSig
  | authority (e : AuthorityError)
deriving DecidableEq, Repr

/-- `get_signature_keys`, from the keys that the signatures of the transaction are recovered to. -/
def getSignatureKeys : List PublicKey → List PublicKey → Except RequiredError (List PublicKey)
  | [],            result => .ok result
  | key :: signers, result =>
    if key ∈ result then .error .duplicateSig else getSignatureKeys signers (flatInsert key result)

/-- A loop of checks whose answers nobody reads. -/
def checkAll {α : Type} (check : α → SignState → Except AuthorityError (Bool × SignState)) :
    List α → SignState → Except RequiredError SignState
  | [],      s => .ok s
  | x :: xs, s =>
    match check x s with
    | .error e => .error (.authority e)
    | .ok r    => checkAll check xs r.2

/-- The keys that are left after `remove_unused_signatures`, as far as they are available. -/
def insertUsed (available : List PublicKey) (s : SignState) (result : List PublicKey) : List PublicKey :=
  (s.usedSignatures.filter (fun k => decide (k ∈ available))).foldl (fun l k => flatInsert k l) result

variable {Op : Type}

/-- **`get_required_signatures`.** -/
def getRequiredSignatures (required : Op → Required) (ops : List Op) (signers available : List PublicKey)
    (get : Getters) (maxRecursionDepth : Nat) : Except RequiredError (List PublicKey) :=
  let req := Required.of required ops
  if req.regular ≠ [] then do
    let keys ← getSignatureKeys signers []
    if req.master ≠ [] ∨ req.active ≠ [] then .error (.authority .mixedWithRegular)
    else
      let s ← checkAll (checkAccount get.regular maxRecursionDepth) req.regular (SignState.init keys available)
      .ok (insertUsed available s [])
  else do
    let keys ← getSignatureKeys signers []
    let s ← checkAll (checkAuthority get.active maxRecursionDepth) req.other (SignState.init keys available)
    let s ← checkAll (checkAccount get.active maxRecursionDepth) req.active s
    let m ← checkAll (checkAccount get.master maxRecursionDepth) req.master (SignState.init keys available)
    .ok (insertUsed available m (insertUsed available s []))

/-- The loop of `minimize_required_signatures`. -/
def minimizeLoop (verify : List PublicKey → Except AuthorityError Unit) :
    List PublicKey → List PublicKey → Except RequiredError (List PublicKey)
  | [],      result => .ok result
  | k :: ks, result =>
    match verify (result.erase k) with
    | .ok ()   => minimizeLoop verify ks (result.erase k)
    | .error e =>
      if e.isMissing then minimizeLoop verify ks (flatInsert k (result.erase k)) else .error (.authority e)

/-- **`minimize_required_signatures`.** -/
def minimizeRequiredSignatures (required : Op → Required) (ops : List Op) (signers available : List PublicKey)
    (get : Getters) (maxRecursionDepth : Nat) : Except RequiredError (List PublicKey) := do
  let s ← getRequiredSignatures required ops signers available get maxRecursionDepth
  minimizeLoop (fun sigs => verifyAuthority required ops sigs get maxRecursionDepth {}) s s

/-! ## The collection -/

/-- **The keys the collection comes across**: each required account at its own level, and so the accounts inside. -/
def LooksAt (get : Getters) (K : Set PublicKey) (req : Required) (k : PublicKey) : Prop :=
  if req.regular ≠ [] then ∃ id ∈ req.regular, id ∉ start ∧ AskedOf get.regular get.regular K start id k
  else (∃ auth ∈ req.other, Asked get.active K start auth k) ∨
    (∃ id ∈ req.active, id ∉ start ∧ AskedOf get.active get.active K start id k) ∨
    ∃ id ∈ req.master, id ∉ start ∧ AskedOf get.master get.master K start id k

/-- **The available keys that are looked at**, in order. -/
structure Candidates (get : Getters) (signers available : List PublicKey) (req : Required) (C : List PublicKey) :
    Prop where
  sorted : C.Pairwise (· < ·)
  mem    : ∀ k, k ∈ C ↔ k ∈ available ∧ LooksAt get { k | k ∈ signers ∨ k ∈ available } req k

section Collection

variable {get : Getters} {g : AuthorityGetter} {K : Set PublicKey} {A : List PublicKey} {G : Set AccountName}
  {req : Required} {depth : Nat} {signers available : List PublicKey} {s : SignState}

theorem flatInsert_sorted {k : Nat} {l : List Nat} (h : l.Pairwise (· < ·)) : (flatInsert k l).Pairwise (· < ·) := by
  induction l with
  | nil => exact List.pairwise_singleton _ _
  | cons b l ih =>
      obtain ⟨hb, hl⟩ := List.pairwise_cons.mp h
      unfold flatInsert
      split
      · next hlt =>
          refine List.pairwise_cons.mpr ⟨fun c hc => ?_, h⟩
          rcases List.mem_cons.mp hc with rfl | hc
          · exact hlt
          · exact Nat.lt_trans hlt (hb c hc)
      · split
        · exact h
        · refine List.pairwise_cons.mpr ⟨fun c hc => ?_, ih hl⟩
          rcases mem_flatInsert.mp hc with rfl | hc
          · omega
          · exact hb c hc

/-- A key that is taken out and put back is where it was. -/
theorem flatInsert_erase {k : Nat} {l : List Nat} (h : l.Pairwise (· < ·)) (hk : k ∈ l) : flatInsert k (l.erase k) = l := by
  induction l with
  | nil => exact absurd hk List.not_mem_nil
  | cons b l ih =>
      obtain ⟨hb, hl⟩ := List.pairwise_cons.mp h
      by_cases hkb : b = k
      · rw [hkb, List.erase_cons_head]
        cases l with
        | nil => rfl
        | cons c l =>
            unfold flatInsert
            rw [if_pos (hkb ▸ hb c List.mem_cons_self)]
      · have hkl : k ∈ l := (List.mem_cons.mp hk).resolve_left fun he => hkb he.symm
        have hlt : b < k := hb k hkl
        rw [List.erase_cons_tail (by simpa using hkb)]
        unfold flatInsert
        rw [if_neg (by omega), if_neg (by omega), ih hl hkl]

theorem insertUsed_sorted {result : List PublicKey} (h : result.Pairwise (· < ·)) :
    (insertUsed available s result).Pairwise (· < ·) := by
  unfold insertUsed
  generalize s.usedSignatures.filter (fun k => decide (k ∈ available)) = l
  induction l generalizing result with
  | nil => exact h
  | cons k l ih => exact ih (flatInsert_sorted h)

theorem mem_insertUsed {result : List PublicKey} {k : PublicKey} :
    k ∈ insertUsed available s result ↔ k ∈ result ∨ k ∈ available ∧ Used s k := by
  unfold insertUsed usedSignatures Used
  rw [mem_foldl_flatInsert, List.mem_filter, List.mem_filter]
  simp only [decide_eq_true_eq]
  tauto

theorem getSignatureKeys_ok (result : List PublicKey) (hnodup : signers.Nodup) (hnew : ∀ k ∈ signers, k ∉ result) :
    ∃ keys, getSignatureKeys signers result = .ok keys ∧ ∀ k, k ∈ keys ↔ k ∈ result ∨ k ∈ signers := by
  induction signers generalizing result with
  | nil => exact ⟨result, rfl, fun k => (or_iff_left List.not_mem_nil).symm⟩
  | cons key signers ih =>
      obtain ⟨hkey, hnodup⟩ := List.nodup_cons.mp hnodup
      have hnew' : ∀ k ∈ signers, k ∉ flatInsert key result := by
        intro k hk hmem
        rcases mem_flatInsert.mp hmem with rfl | hmem
        · exact hkey hk
        · exact hnew k (List.mem_cons_of_mem _ hk) hmem
      obtain ⟨keys, hrun, hkeys⟩ := ih _ hnodup hnew'
      refine ⟨keys, ?_, fun k => (hkeys k).trans ?_⟩
      · unfold getSignatureKeys
        rw [if_neg (hnew key List.mem_cons_self)]
        exact hrun
      · rw [mem_flatInsert, List.mem_cons, or_comm (a := k = key), or_assoc]

/-- Two signatures by one key are refused. -/
theorem nodup_of_getSignatureKeys {result keys : List PublicKey} (h : getSignatureKeys signers result = .ok keys) :
    signers.Nodup ∧ ∀ k ∈ signers, k ∉ result := by
  induction signers generalizing result with
  | nil => exact ⟨List.nodup_nil, fun k hk => absurd hk List.not_mem_nil⟩
  | cons key signers ih =>
      unfold getSignatureKeys at h
      by_cases hin : key ∈ result
      · rw [if_pos hin] at h
        nomatch h
      · rw [if_neg hin] at h
        obtain ⟨hnodup, hnew⟩ := ih h
        refine ⟨List.nodup_cons.mpr ⟨fun hk => hnew key hk (mem_flatInsert.mpr (.inl rfl)), hnodup⟩, fun k hk => ?_⟩
        rcases List.mem_cons.mp hk with rfl | hk
        · exact hin
        · exact fun hr => hnew k hk (mem_flatInsert.mpr (.inr hr))

/-- The loops of the collection mark what their checks come across. -/
theorem checkAll_finds {α : Type} {check : α → SignState → Except AuthorityError (Bool × SignState)}
    {P : α → Prop} {U : α → PublicKey → Prop} {xs : List α} (hc : ∀ x ∈ xs, Finds g K A G (check x) (P x) (U x))
    (hs : Knows g K A G s) :
    ∃ s', checkAll check xs s = .ok s' ∧ Knows g K A G s' ∧
      ∀ k, Used s' k ↔ Used s k ∨ k ∈ K ∧ ∃ x ∈ xs, U x k := by
  induction xs generalizing s with
  | nil => exact ⟨s, rfl, hs, fun k => by simp⟩
  | cons x xs ih =>
      obtain ⟨b, s₁, hrun₁, -, hs₁, hused₁⟩ := hc x List.mem_cons_self s hs
      obtain ⟨s', hrun, hs', hused⟩ := ih (fun y hy => hc y (List.mem_cons_of_mem x hy)) hs₁
      refine ⟨s', ?_, hs', fun k => ?_⟩
      · unfold checkAll
        rw [hrun₁]
        exact hrun
      · rw [hused, hused₁, or_assoc, ← and_or_left]
        refine or_congr_right (and_congr_right fun _ => ?_)
        constructor
        · rintro (h | ⟨y, hy, h⟩)
          · exact ⟨x, List.mem_cons_self, h⟩
          · exact ⟨y, List.mem_cons_of_mem x hy, h⟩
        · rintro ⟨y, hy, h⟩
          rcases List.mem_cons.mp hy with rfl | hy
          · exact .inl h
          · exact .inr ⟨y, hy, h⟩

/-- **`get_required_signatures` returns the available keys that are looked at.** -/
theorem getRequiredSignatures_spec {required : Op → Required} {ops : List Op} (available : List PublicKey)
    (hshallow : Shallow (Required.of required ops) get depth) (hunmixed : Unmixed (Required.of required ops))
    (hnodup : signers.Nodup) :
    ∃ C, getRequiredSignatures required ops signers available get depth = .ok C ∧
      Candidates get signers available (Required.of required ops) C := by
  obtain ⟨keys, hkeys, hmem⟩ := getSignatureKeys_ok [] hnodup fun _ _ => List.not_mem_nil
  unfold getRequiredSignatures
  dsimp only
  generalize Required.of required ops = req at hshallow hunmixed ⊢
  have hsame : { k | k ∈ keys ∨ k ∈ available } = { k | k ∈ signers ∨ k ∈ available } := by
    ext k
    exact or_congr_left ((hmem k).trans (or_iff_right List.not_mem_nil))
  have hinit : ∀ g, Knows g { k | k ∈ signers ∨ k ∈ available } available start (SignState.init keys available) := by
    intro g
    rw [← hsame]
    exact (init_knows keys available).1
  have hunused : ∀ k, ¬ Used (SignState.init keys available) k :=
    (init_knows (g := get.active) keys available).2
  have hin : ∀ k ∈ available, k ∈ { k | k ∈ signers ∨ k ∈ available } := fun _ hk => .inr hk
  by_cases hreg : req.regular ≠ []
  · rw [if_pos hreg, hkeys]
    obtain ⟨hactive, hmaster, -⟩ := hunmixed hreg
    obtain ⟨s, hrun, -, hused⟩ := checkAll_finds
      (fun id hid => checkAccount_finds temp_mem_start (hshallow.regular id hid).1) (hinit get.regular)
    refine ⟨insertUsed available s [], ?_, insertUsed_sorted List.Pairwise.nil, fun k => ?_⟩
    · show (if req.master ≠ [] ∨ req.active ≠ [] then _ else (checkAll _ _ _ >>= _)) = _
      rw [if_neg (by simp [hactive, hmaster]), hrun]
      rfl
    · unfold LooksAt
      rw [if_pos hreg, mem_insertUsed, or_iff_right List.not_mem_nil, hused, or_iff_right (hunused k)]
      exact and_congr_right fun hk => and_iff_right (hin k hk)
  · rw [if_neg hreg, hkeys]
    obtain ⟨s₁, hrun₁, hs₁, hused₁⟩ := checkAll_finds
      (fun auth hauth => checkAuthority_finds temp_mem_start (hshallow.other auth hauth)) (hinit get.active)
    obtain ⟨s₂, hrun₂, -, hused₂⟩ := checkAll_finds
      (fun id hid => checkAccount_finds temp_mem_start (hshallow.active id hid).1) hs₁
    obtain ⟨m, hrunm, -, husedm⟩ := checkAll_finds
      (fun id hid => checkAccount_finds temp_mem_start (hshallow.master id hid).2) (hinit get.master)
    refine ⟨insertUsed available m (insertUsed available s₂ []), ?_,
      insertUsed_sorted (insertUsed_sorted List.Pairwise.nil), fun k => ?_⟩
    · show (checkAll _ req.other _ >>= _) = _
      rw [hrun₁]
      show (checkAll _ req.active _ >>= _) = _
      rw [hrun₂]
      show (checkAll _ req.master _ >>= _) = _
      rw [hrunm]
      rfl
    · unfold LooksAt
      rw [if_neg hreg, mem_insertUsed, mem_insertUsed, or_iff_right List.not_mem_nil, hused₂, hused₁, husedm,
        or_iff_right (hunused k), or_iff_right (hunused k), ← and_or_left, ← and_or_left, ← and_or_left, or_assoc]
      exact and_congr_right fun hk => and_iff_right (hin k hk)

theorem Candidates.unique {C C' : List PublicKey} (h : Candidates get signers available req C)
    (h' : Candidates get signers available req C') : C = C' :=
  h.sorted.eq_of_mem_iff h'.sorted fun k => (h.mem k).trans (h'.mem k).symm

end Collection

/-! ## The loop -/

section Loop

variable {required : Op → Required} {ops : List Op} {get : Getters} {depth : Nat} {R : List PublicKey}
  {ks : List PublicKey} {k : PublicKey}

/-- The verdict on a set of keys. -/
def verdict (required : Op → Required) (ops : List Op) (get : Getters) (depth : Nat) (sigs : List PublicKey) :
    Except AuthorityError Unit :=
  verifyAuthority required ops sigs get depth {}

variable (hshallow : Shallow (Required.of required ops) get depth) (hunmixed : Unmixed (Required.of required ops))
include hshallow hunmixed

theorem sufficient_iff (sigs : List PublicKey) :
    Sufficient (verdict required ops get depth sigs) ↔ Enough get { k | k ∈ sigs } (Required.of required ops) := by
  unfold verdict
  rcases verify_cases sigs hshallow hunmixed with ⟨hnot, e, he, hmissing⟩ | ⟨henough, ⟨-, hok⟩ | ⟨-, unused, he⟩⟩
  · rw [he]
    refine iff_of_false ?_ hnot
    intro h
    cases e with
    | irrelevantSig => exact Bool.false_ne_true hmissing
    | irrelevantApproval => exact Bool.false_ne_true hmissing
    | _ => exact h
  · rw [hok]
    exact iff_of_true trivial henough
  · rw [he]
    exact iff_of_true trivial henough

theorem verdict_ok_iff (sigs : List PublicKey) :
    verdict required ops get depth sigs = .ok () ↔ Enough get { k | k ∈ sigs } (Required.of required ops) ∧
      ∀ k ∈ sigs, Asks get { k | k ∈ sigs } (Required.of required ops) k := by
  unfold verdict
  rcases verify_cases sigs hshallow hunmixed with ⟨hnot, e, he, -⟩ | ⟨henough, ⟨hasks, hok⟩ | ⟨hasks, unused, he⟩⟩
  · rw [he]
    exact iff_of_false (by rintro ⟨⟩) fun h => hnot h.1
  · rw [hok]
    exact iff_of_true rfl ⟨henough, hasks⟩
  · rw [he]
    exact iff_of_false (by rintro ⟨⟩) fun h => hasks h.2

/-- What is missing is put back. -/
theorem minimizeLoop_missing (h : ¬ Sufficient (verdict required ops get depth (R.erase k))) :
    minimizeLoop (verdict required ops get depth) (k :: ks) R =
      minimizeLoop (verdict required ops get depth) ks (flatInsert k (R.erase k)) := by
  rw [sufficient_iff hshallow hunmixed] at h
  rw [minimizeLoop]
  rcases verify_cases (R.erase k) hshallow hunmixed with ⟨-, e, he, hmissing⟩ | ⟨henough, -⟩
  · have he' : verdict required ops get depth (R.erase k) = .error e := he
    rw [he']
    exact if_pos hmissing
  · exact absurd henough h

/-- **Keys that are all missed stay.** -/
theorem minimizeLoop_kept {p : List PublicKey} (ks : List PublicKey) (hsorted : R.Pairwise (· < ·)) (hp : p ⊆ R)
    (h : ∀ k ∈ p, ¬ Sufficient (verdict required ops get depth (R.erase k))) :
    minimizeLoop (verdict required ops get depth) (p ++ ks) R =
      minimizeLoop (verdict required ops get depth) ks R := by
  induction p with
  | nil => rfl
  | cons k p ih =>
      rw [List.cons_append, minimizeLoop_missing hshallow hunmixed (h k List.mem_cons_self),
        flatInsert_erase hsorted (hp List.mem_cons_self)]
      exact ih (fun j hj => hp (List.mem_cons_of_mem k hj)) fun j hj => h j (List.mem_cons_of_mem k hj)

theorem sufficient_of_subset {R' : List PublicKey} (hsub : R' ⊆ R)
    (h : Sufficient (verdict required ops get depth R')) : Sufficient (verdict required ops get depth R) := by
  rw [sufficient_iff hshallow hunmixed] at h ⊢
  exact h.mono fun k hk => hsub hk

/-- What passes without a key asks for all the others. -/
theorem verdict_of_subset {R' : List PublicKey} (hsub : R' ⊆ R) (hR : verdict required ops get depth R = .ok ())
    (h : Sufficient (verdict required ops get depth R')) : verdict required ops get depth R' = .ok () := by
  rw [sufficient_iff hshallow hunmixed] at h
  rw [verdict_ok_iff hshallow hunmixed] at hR ⊢
  exact ⟨h, fun k hk => (hR.2 k (hsub hk)).anti fun j hj => hsub hj⟩

/-- **From keys that pass on**, the loop spares what it can, and what it keeps cannot be spared. -/
theorem minimizeLoop_clean (ks : List PublicKey) (hsorted : R.Pairwise (· < ·)) (hR : verdict required ops get depth R = .ok ()) :
    ∃ R', minimizeLoop (verdict required ops get depth) ks R = .ok R' ∧ R'.Sublist R ∧
      verdict required ops get depth R' = .ok () ∧
      ∀ k ∈ ks, k ∈ R' → ¬ Sufficient (verdict required ops get depth (R'.erase k)) := by
  induction ks generalizing R with
  | nil => exact ⟨R, rfl, List.Sublist.refl R, hR, fun k hk => absurd hk List.not_mem_nil⟩
  | cons k ks ih =>
      by_cases hspare : Sufficient (verdict required ops get depth (R.erase k))
      · have hok := verdict_of_subset hshallow hunmixed List.erase_subset hR hspare
        obtain ⟨R', hrun, hsub, hR', hkept⟩ := ih (hsorted.sublist List.erase_sublist) hok
        refine ⟨R', ?_, hsub.trans List.erase_sublist, hR', fun j hj hin => ?_⟩
        · rw [minimizeLoop, hok]
          exact hrun
        · rcases List.mem_cons.mp hj with rfl | hj
          · exact absurd rfl ((List.Nodup.mem_erase_iff hsorted.nodup).mp (hsub.subset hin)).1
          · exact hkept j hj hin
      · have hkR : k ∈ R := by
          by_contra hnot
          rw [List.erase_of_not_mem hnot, hR] at hspare
          exact hspare trivial
        obtain ⟨R', hrun, hsub, hR', hkept⟩ := ih hsorted hR
        refine ⟨R', ?_, hsub, hR', fun j hj hin => ?_⟩
        · rw [minimizeLoop_missing hshallow hunmixed hspare, flatInsert_erase hsorted hkR]
          exact hrun
        · rcases List.mem_cons.mp hj with rfl | hj
          · exact fun h => hspare (sufficient_of_subset hshallow hunmixed (hsub.erase _).subset h)
          · exact hkept j hj hin

end Loop

/-- **What is asked of the result**: available keys that pass, none of which can be spared. -/
def Minimal (required : Op → Required) (ops : List Op) (available : List PublicKey) (get : Getters) (depth : Nat)
    (R : List PublicKey) : Prop :=
  R ⊆ available ∧ verifyAuthority required ops R get depth {} = .ok () ∧
    ∀ k ∈ R, verifyAuthority required ops (R.erase k) get depth {} ≠ .ok ()

/-- **The candidates serve**: they are enough, and when the first of them that can be spared is gone, no signature is
    left over. -/
structure Serves (required : Op → Required) (ops : List Op) (get : Getters) (depth : Nat) (C : List PublicKey) : Prop
    where
  enough : Sufficient (verifyAuthority required ops C get depth {})
  clean  : ∀ k ∈ C, (∀ j ∈ C, j < k → ¬ Sufficient (verifyAuthority required ops (C.erase j) get depth {})) →
    Sufficient (verifyAuthority required ops (C.erase k) get depth {}) →
      verifyAuthority required ops (C.erase k) get depth {} = .ok ()

/-- The first entry with a property, or there is none. -/
theorem first_or_none {α : Type} (P : α → Prop) (l : List α) :
    (∀ x ∈ l, ¬ P x) ∨ ∃ p x q, l = p ++ x :: q ∧ (∀ y ∈ p, ¬ P y) ∧ P x := by
  induction l with
  | nil => exact .inl fun x hx => absurd hx List.not_mem_nil
  | cons a l ih =>
      by_cases ha : P a
      · exact .inr ⟨[], a, l, rfl, fun y hy => absurd hy List.not_mem_nil, ha⟩
      · rcases ih with hnone | ⟨p, x, q, rfl, hp, hx⟩
        · exact .inl (List.forall_mem_cons.mpr ⟨ha, hnone⟩)
        · exact .inr ⟨a :: p, x, q, rfl, List.forall_mem_cons.mpr ⟨ha, hp⟩, hx⟩

/-- Keys that pass do not mix. -/
theorem unmixed_of_verified {required : Op → Required} {ops : List Op} {sigs : List PublicKey} {get : Getters}
    {depth : Nat} (h : verifyAuthority required ops sigs get depth {} = .ok ()) :
    Unmixed (Required.of required ops) := by
  intro hreg
  unfold verifyAuthority at h
  dsimp only at h
  rw [if_pos hreg] at h
  unfold verifyRegular at h
  by_cases hmixed : (Required.of required ops).active ≠ [] ∨ (Required.of required ops).master ≠ [] ∨
      (Required.of required ops).other ≠ []
  · rw [if_pos hmixed] at h
    nomatch h
  · simpa [not_or] using hmixed

/-- One key with all the weight is all there is to ask for. -/
theorem asked_ofKey {get : AuthorityGetter} {K : Set PublicKey} {G : Set AccountName} {j k : PublicKey} :
    Asked get K G (.ofKey j) k ↔ k = j := by
  constructor
  · intro h
    cases h with
    | key h => exact List.mem_singleton.mp h.mem
    | inside _ h => exact absurd h.mem List.not_mem_nil
  · rintro rfl
    exact .key seen_cons_self

namespace Sample

/-- Accounts with one key for each level. -/
def wallet : Getters where
  active  := fun _ => .ok (.ofKey 22)
  master  := fun _ => .ok (.ofKey 23)
  regular := fun _ => .ok (.ofKey 21)

/-- An operation that requires the regular authority of an account. -/
def regular (a : AccountName) : Required := { regular := [a] }

theorem wallet_opens {get g : AuthorityGetter} {j : PublicKey} (hg : ∀ a, g a = .ok (.ofKey j)) (a : AccountName) :
    Opens get g maxSigCheckDepth a :=
  ⟨_, hg a, (by decide : 1 + 0 < 2 ^ 32), fun _ hc => absurd hc List.not_mem_nil⟩

theorem wallet_shallow : Shallow (Required.of regular [5]) wallet maxSigCheckDepth where
  regular := fun a _ => ⟨wallet_opens (fun _ => rfl) a, wallet_opens (fun _ => rfl) a, wallet_opens (fun _ => rfl) a⟩
  active  := fun _ ha => absurd ha List.not_mem_nil
  master  := fun _ ha => absurd ha List.not_mem_nil
  other   := fun _ ha => absurd ha List.not_mem_nil

theorem wallet_candidates : Candidates wallet [] [21, 22] (Required.of regular [5]) [21] where
  sorted := List.pairwise_singleton _ _
  mem    := by
    intro k
    have hlooks : LooksAt wallet { k | k ∈ [] ∨ k ∈ [21, 22] } (Required.of regular [5]) k ↔ k = 21 := by
      unfold LooksAt
      rw [if_pos (by decide)]
      constructor
      · rintro ⟨id, -, -, auth, hget, h⟩
        obtain rfl := Except.ok.inj hget
        exact asked_ofKey.mp h
      · rintro rfl
        refine ⟨5, List.mem_singleton_self 5, ?_, _, rfl, asked_ofKey.mpr rfl⟩
        show ¬ (5 : Nat) = tempAccount
        decide
    rw [hlooks, List.mem_singleton]
    exact ⟨fun h => ⟨h ▸ List.mem_cons_self, h⟩, fun h => h.2⟩

end Sample

end Signing

end VizNode
