import VizNode.Signing.Soundness

/-!
# `VizNode.Signing.Exact` — what a check finds out, exactly

`Soundness` says what a check may accept. Here no authority goes deeper than the check follows it, and then the check
is exact: it accepts an authority **if and only if** it is reached in the least fixpoint, and it marks **exactly** the
keys it is bound to come across. The cache does not show: an account that is approved already has had its keys marked.

The keys it comes across grow when there are fewer of them to count (`Asked.anti`): a loop that finds less goes on
for longer.

## Contents
- **Loops.** `Stops` and `Seen`: how far a loop goes over weighted entries.
- **Keys.** `Asked`: the keys a check comes across.
- **Depth.** `Deep`: an authority the check follows to its end.
- **Checks.** `Knows`, `Finds`; `checkAuthority_finds`.
-/

namespace VizNode

namespace Signing

open SignState Prog

/-! ## Loops -/

section Loops

variable {α : Type} {threshold t : Nat} {S T : Set α} {l p q : List (α × Nat)} {x y : α} {w : Nat}

theorem weightIn_cons_of_not_mem (h : x ∉ S) : weightIn S ((x, w) :: l) = weightIn S l := by
  unfold weightIn
  rw [List.map_cons, List.sum_cons, if_neg h, Nat.zero_add]

/-- **A loop has returned**: some entry counts, and with the last one that does the weight reaches the threshold. -/
def Stops (threshold t : Nat) (S : Set α) (l : List (α × Nat)) : Prop :=
  (∃ e ∈ l, e.1 ∈ S) ∧ threshold ≤ t + weightIn S l

theorem not_stops_nil : ¬ Stops threshold t S [] := by
  rintro ⟨⟨e, he, -⟩, -⟩
  exact List.not_mem_nil he

theorem Stops.mono {t' : Nat} (h : Stops threshold t S l) (ht : t ≤ t') (hST : S ⊆ T) : Stops threshold t' T l := by
  obtain ⟨⟨e, he, hS⟩, hle⟩ := h
  have hw : weightIn S l ≤ weightIn T l := weightIn_mono hST
  exact ⟨⟨e, he, hST hS⟩, by omega⟩

theorem stops_cons_of_not_mem (hx : x ∉ S) : Stops threshold t S ((x, w) :: l) ↔ Stops threshold t S l := by
  unfold Stops
  rw [weightIn_cons_of_not_mem hx]
  refine and_congr_left fun _ => ?_
  constructor
  · rintro ⟨e, he, hS⟩
    rcases List.mem_cons.mp he with rfl | he
    · exact absurd hS hx
    · exact ⟨e, he, hS⟩
  · rintro ⟨e, he, hS⟩
    exact ⟨e, List.mem_cons_of_mem _ he, hS⟩

theorem stops_cons_of_le (hx : x ∈ S) (h : threshold ≤ t + w) : Stops threshold t S ((x, w) :: l) := by
  refine ⟨⟨_, List.mem_cons_self, hx⟩, ?_⟩
  rw [weightIn_cons_of_mem hx]
  omega

theorem stops_cons_of_lt (hx : x ∈ S) (h : t + w < threshold) :
    Stops threshold t S ((x, w) :: l) ↔ Stops threshold (t + w) S l := by
  unfold Stops
  rw [weightIn_cons_of_mem hx, Nat.add_assoc]
  constructor
  · rintro ⟨-, hle⟩
    refine ⟨?_, hle⟩
    -- what is missing must come from the rest
    by_contra hnone
    have hzero : weightIn S l = 0 := weightIn_eq_zero fun e he hS => hnone ⟨e, he, hS⟩
    omega
  · rintro ⟨-, hle⟩
    exact ⟨⟨_, List.mem_cons_self, hx⟩, hle⟩

/-- **A loop comes to an entry**, if it has not returned before. -/
def Seen (threshold t : Nat) (S : Set α) (l : List (α × Nat)) (x : α) : Prop :=
  ∃ p w q, l = p ++ (x, w) :: q ∧ ¬ Stops threshold t S p

theorem not_seen_nil : ¬ Seen threshold t S [] x := by
  rintro ⟨p, w, q, h, -⟩
  exact absurd h (by simp)

theorem Seen.mem (h : Seen threshold t S l x) : x ∈ l.map Prod.fst := by
  obtain ⟨p, w, q, rfl, -⟩ := h
  simp

theorem Seen.anti {t' : Nat} (h : Seen threshold t' T l x) (ht : t ≤ t') (hST : S ⊆ T) : Seen threshold t S l x := by
  obtain ⟨p, w, q, hl, hopen⟩ := h
  exact ⟨p, w, q, hl, fun hs => hopen (hs.mono ht hST)⟩

theorem seen_cons_self : Seen threshold t S ((x, w) :: l) x := ⟨[], w, l, rfl, not_stops_nil⟩

theorem seen_cons_of_not_mem (hx : x ∉ S) : Seen threshold t S ((x, w) :: l) y ↔ y = x ∨ Seen threshold t S l y := by
  constructor
  · rintro ⟨p, v, q, hl, hopen⟩
    cases p with
    | nil => exact .inl (Prod.mk.inj (List.cons.inj hl).1).1.symm
    | cons e p =>
        obtain ⟨rfl, htail⟩ := List.cons.inj hl
        exact .inr ⟨p, v, q, htail, fun hs => hopen ((stops_cons_of_not_mem hx).mpr hs)⟩
  · rintro (rfl | ⟨p, v, q, rfl, hopen⟩)
    · exact seen_cons_self
    · exact ⟨(x, w) :: p, v, q, rfl, fun hs => hopen ((stops_cons_of_not_mem hx).mp hs)⟩

theorem seen_cons_of_lt (hx : x ∈ S) (h : t + w < threshold) :
    Seen threshold t S ((x, w) :: l) y ↔ y = x ∨ Seen threshold (t + w) S l y := by
  constructor
  · rintro ⟨p, v, q, hl, hopen⟩
    cases p with
    | nil => exact .inl (Prod.mk.inj (List.cons.inj hl).1).1.symm
    | cons e p =>
        obtain ⟨rfl, htail⟩ := List.cons.inj hl
        exact .inr ⟨p, v, q, htail, fun hs => hopen ((stops_cons_of_lt hx h).mpr hs)⟩
  · rintro (rfl | ⟨p, v, q, rfl, hopen⟩)
    · exact seen_cons_self
    · exact ⟨(x, w) :: p, v, q, rfl, fun hs => hopen ((stops_cons_of_lt hx h).mp hs)⟩

theorem seen_cons_of_le (hx : x ∈ S) (h : threshold ≤ t + w) : Seen threshold t S ((x, w) :: l) y ↔ y = x := by
  constructor
  · rintro ⟨p, v, q, hl, hopen⟩
    cases p with
    | nil => exact (Prod.mk.inj (List.cons.inj hl).1).1.symm
    | cons e p =>
        obtain ⟨rfl, -⟩ := List.cons.inj hl
        exact absurd (stops_cons_of_le hx h) hopen
  · rintro rfl
    exact seen_cons_self

/-- **Only what is seen counts.** A set that keeps the entries a loop comes to still reaches the threshold. -/
theorem weightIn_of_seen (hseen : ∀ x, Seen threshold t S l x → x ∈ S → x ∈ T) (hTS : T ⊆ S)
    (h : threshold ≤ t + weightIn S l) : threshold ≤ t + weightIn T l := by
  induction l generalizing t with
  | nil => exact h
  | cons e l ih =>
      obtain ⟨x, w⟩ := e
      by_cases hx : x ∈ S
      · have hxT : x ∈ T := hseen x seen_cons_self hx
        rw [weightIn_cons_of_mem hx] at h
        rw [weightIn_cons_of_mem hxT]
        by_cases hle : threshold ≤ t + w
        · omega
        · have hrest := ih (t := t + w) (fun y hy => hseen y ((seen_cons_of_lt hx (by omega)).mpr (.inr hy))) (by omega)
          omega
      · rw [weightIn_cons_of_not_mem hx] at h
        rw [weightIn_cons_of_not_mem fun hxT => hx (hTS hxT)]
        exact ih (fun y hy => hseen y ((seen_cons_of_not_mem hx).mpr (.inr hy))) h

/-- A loop that does not return comes to all entries. -/
theorem seen_of_not_stops (h : ¬ Stops threshold t S l) (hx : x ∈ l.map Prod.fst) : Seen threshold t S l x := by
  obtain ⟨e, he, rfl⟩ := List.mem_map.mp hx
  obtain ⟨p, q, rfl⟩ := List.append_of_mem he
  refine ⟨p, e.2, q, rfl, fun hs => h ?_⟩
  obtain ⟨⟨d, hd, hS⟩, hle⟩ := hs
  refine ⟨⟨d, List.mem_append_left _ hd, hS⟩, ?_⟩
  have hmore : weightIn S p ≤ weightIn S (p ++ e :: q) := by
    unfold weightIn
    rw [List.map_append, List.sum_append]
    exact Nat.le_add_right _ _
  omega

theorem weightIn_congr (h : ∀ x ∈ l.map Prod.fst, x ∈ S ↔ x ∈ T) : weightIn S l = weightIn T l := by
  induction l with
  | nil => rfl
  | cons e l ih =>
      obtain ⟨x, w⟩ := e
      have hrest := ih fun y hy => h y (List.mem_cons_of_mem _ hy)
      by_cases hx : x ∈ S
      · rw [weightIn_cons_of_mem hx, weightIn_cons_of_mem ((h x List.mem_cons_self).mp hx), hrest]
      · rw [weightIn_cons_of_not_mem hx, weightIn_cons_of_not_mem fun hT => hx ((h x List.mem_cons_self).mpr hT), hrest]

end Loops

/-! ## Keys -/

/-- The accounts that are satisfied by these keys, with some given. -/
def sat (get : AuthorityGetter) (K : Set PublicKey) (G : Set AccountName) : Set AccountName :=
  satisfied get get K G ∅

/-- **The keys a check comes across** from an authority on: those in it as far as its first loop goes, and those of
    the accounts its second loop looks into. -/
inductive Asked (get : AuthorityGetter) (K : Set PublicKey) (G : Set AccountName) : Authority → PublicKey → Prop
  | key {auth : Authority} {k : PublicKey} (h : Seen auth.weightThreshold 0 K auth.keyAuths k) : Asked get K G auth k
  | inside {auth auth' : Authority} {a : AccountName} {k : PublicKey}
      (hkeys : ¬ Stops auth.weightThreshold 0 K auth.keyAuths)
      (h : Seen auth.weightThreshold (weightIn K auth.keyAuths) (sat get K G) auth.accountAuths a) (hnew : a ∉ G)
      (hget : get a = .ok auth') (hin : Asked get K G auth' k) : Asked get K G auth k

section Keys

variable {get g : AuthorityGetter} {K K' : Set PublicKey} {G G' : Set AccountName} {a : AccountName} {auth : Authority}
  {k : PublicKey}

theorem mem_sat : a ∈ sat get K G ↔ a ∈ G ∨ Holds get K (sat get K G) a := by
  unfold sat
  rw [mem_satisfied]
  exact or_congr_right (or_iff_left fun h => h.1)

theorem Reached.keys (h : Reached K G auth) (hK : K ⊆ K') : Reached K' G auth := by
  unfold Reached at h ⊢
  have hle : weightIn K auth.keyAuths ≤ weightIn K' auth.keyAuths := weightIn_mono hK
  omega

theorem sat_mono (hK : K ⊆ K') (hG : G ⊆ G') : sat get K G ⊆ sat get K' G' := by
  refine satisfied_subset (fun a ha => mem_sat.mpr (.inl (hG ha))) ?_ (fun a ha => absurd ha (Set.notMem_empty a))
  rintro a ⟨auth, hget, h⟩
  exact mem_sat.mpr (.inr ⟨auth, hget, h.keys hK⟩)

theorem Holds.mono (h : Holds g K (sat get K G) a) (hK : K ⊆ K') (hG : G ⊆ G') : Holds g K' (sat get K' G') a := by
  obtain ⟨auth, hget, h⟩ := h
  exact ⟨auth, hget, (h.keys hK).mono (sat_mono hK hG)⟩

/-- **With fewer keys a check comes across more.** -/
theorem Asked.anti (h : Asked get K' G' auth k) (hK : K ⊆ K') (hG : G ⊆ G') : Asked get K G auth k := by
  induction h with
  | key h => exact .key (h.anti (Nat.le_refl _) hK)
  | inside hkeys h hnew hget _ ih =>
      refine .inside (fun hs => hkeys (hs.mono (Nat.le_refl _) hK)) ?_ (fun ha => hnew (hG ha)) hget ih
      exact h.anti (weightIn_mono hK) (sat_mono hK hG)

end Keys

/-! ## Depth -/

/-- The weights of the authority fit into 32 bits. -/
def Fitting (auth : Authority) : Prop :=
  (auth.keyAuths.map Prod.snd).sum + (auth.accountAuths.map Prod.snd).sum < 2 ^ 32

/-- **The accounts of the authority are all there, and go no deeper than the check.** -/
def Deep (get : AuthorityGetter) : Nat → Authority → Prop
  | 0,        auth => Fitting auth ∧ ∀ a ∈ auth.accountAuths.map Prod.fst, a = tempAccount
  | left + 1, auth => Fitting auth ∧ ∀ a ∈ auth.accountAuths.map Prod.fst,
      a = tempAccount ∨ ∃ auth', get a = .ok auth' ∧ Deep get left auth'

section Depth

variable {get : AuthorityGetter} {K K' : Set PublicKey} {G : Set AccountName} {left : Nat} {auth : Authority}

theorem Deep.fitting (h : Deep get left auth) : Fitting auth := by
  cases left with
  | zero => exact h.1
  | succ left => exact h.1

/-- One authority whose keys and accounts stay counted as far as the loops come to them. -/
theorem Reached.restrict_one (h : Reached K (sat get K G) auth)
    (hkeys : ∀ k ∈ K, Seen auth.weightThreshold 0 K auth.keyAuths k → k ∈ K') (hK : K' ⊆ K)
    (haccounts : ¬ Stops auth.weightThreshold 0 K auth.keyAuths → ∀ a ∈ sat get K G,
      Seen auth.weightThreshold (weightIn K auth.keyAuths) (sat get K G) auth.accountAuths a → a ∈ sat get K' G) :
    Reached K' (sat get K' G) auth := by
  by_cases hstops : Stops auth.weightThreshold 0 K auth.keyAuths
  · -- the keys are enough
    have hle : auth.weightThreshold ≤ 0 + weightIn K auth.keyAuths := hstops.2
    have hle' := weightIn_of_seen (fun k hseen hk => hkeys k hk hseen) hK hle
    unfold Reached
    omega
  · have hsame : weightIn K auth.keyAuths = weightIn K' auth.keyAuths := by
      refine weightIn_congr fun k hk => ⟨fun hkK => ?_, fun hkK => hK hkK⟩
      exact hkeys k hkK (seen_of_not_stops hstops hk)
    have hsub : sat get K' G ⊆ sat get K G := sat_mono hK (Set.Subset.refl G)
    have hle := weightIn_of_seen (fun a hseen ha => haccounts hstops a ha hseen) hsub h
    unfold Reached
    rw [← hsame]
    exact hle

/-- **The keys a check comes across are what its answer rests on.** -/
theorem Reached.restrict (htemp : tempAccount ∈ G) (hdeep : Deep get left auth) (h : Reached K (sat get K G) auth)
    (hasked : ∀ k ∈ K, Asked get K G auth k → k ∈ K') (hK : K' ⊆ K) : Reached K' (sat get K' G) auth := by
  induction left generalizing auth with
  | zero =>
      refine h.restrict_one (fun k hk hseen => hasked k hk (.key hseen)) hK fun _ a _ hseen => ?_
      exact mem_sat.mpr (.inl (hdeep.2 a hseen.mem ▸ htemp))
  | succ left ih =>
      refine h.restrict_one (fun k hk hseen => hasked k hk (.key hseen)) hK fun hstops a ha hseen => ?_
      by_cases hG : a ∈ G
      · exact mem_sat.mpr (.inl hG)
      · obtain ⟨auth₁, hget₁, hreached⟩ := (mem_sat.mp ha).resolve_left hG
        obtain rfl | ⟨auth', hget, hdeep'⟩ := hdeep.2 a hseen.mem
        · exact absurd htemp hG
        · obtain rfl : auth₁ = auth' := Except.ok.inj (hget₁.symm.trans hget)
          refine mem_sat.mpr (.inr ⟨auth₁, hget, ih hdeep' hreached fun k hk hin => ?_⟩)
          exact hasked k hk (.inside hstops hseen hG hget hin)

end Depth

/-! ## Checks -/

/-- The key is marked as used. -/
def Used (s : SignState) (k : PublicKey) : Prop :=
  k ∈ s.providedSignatures.keys ∧ s.providedSignatures.row k = true

/-- **What the cache knows**: the keys that can sign are `K`, and an account that was approved beyond those given has
    its authority reached, with all the keys marked that its check comes across. -/
structure Knows (get : AuthorityGetter) (K : Set PublicKey) (A : List PublicKey) (G : Set AccountName) (s : SignState) :
    Prop where
  available : s.availableKeys = A
  keys      : ∀ k, k ∈ K ↔ k ∈ s.providedSignatures.keys ∨ k ∈ s.availableKeys
  given     : ∀ a ∈ G, a ∈ s.approvedBy.keys
  approved  : ∀ a ∈ s.approvedBy.keys, a ∈ G ∨
    ∃ auth, get a = .ok auth ∧ Reached K (sat get K G) auth ∧ ∀ k ∈ K, Asked get K G auth k → Used s k
  marked    : ∀ a ∈ s.approvedBy.keys, s.approvedBy.row a = true

/-- **A check finds out** whether `P`, and marks the keys `U`. -/
def Finds (get : AuthorityGetter) (K : Set PublicKey) (A : List PublicKey) (G : Set AccountName)
    (check : SignState → Except AuthorityError (Bool × SignState)) (P : Prop) (U : PublicKey → Prop) : Prop :=
  ∀ s, Knows get K A G s → ∃ b s', check s = .ok (b, s') ∧ (b = true ↔ P) ∧ Knows get K A G s' ∧
    ∀ k, Used s' k ↔ Used s k ∨ k ∈ K ∧ U k

section Checks

variable {get g : AuthorityGetter} {K : Set PublicKey} {A : List PublicKey} {G : Set AccountName} {s : SignState}
  {auth : Authority}

theorem put_row {κ α : Type} [DecidableEq κ] {t : Table κ α} {k : κ} {x : α} (j : κ) :
    (put t k x).row j = if j = k then x else t.row j := by
  unfold put
  by_cases hk : k ∈ t.keys
  · rw [if_pos hk, Table.modify_row]
  · rw [if_neg hk, Table.insert_row hk]

namespace Knows

theorem sat_of_approved (h : Knows get K A G s) {a : AccountName} (ha : a ∈ s.approvedBy.keys) : a ∈ sat get K G := by
  rcases h.approved a ha with hG | ⟨auth, hget, hreached, -⟩
  · exact mem_sat.mpr (.inl hG)
  · exact mem_sat.mpr (.inr ⟨auth, hget, hreached⟩)

/-- More keys may be marked. -/
theorem marks {t : Table PublicKey Bool} (h : Knows get K A G s)
    (hkeys : ∀ k, k ∈ K ↔ k ∈ t.keys ∨ k ∈ s.availableKeys)
    (hused : ∀ k, Used s k → k ∈ t.keys ∧ t.row k = true) : Knows get K A G { s with providedSignatures := t } := by
  refine ⟨h.available, hkeys, h.given, fun a ha => ?_, h.marked⟩
  rcases h.approved a ha with hG | ⟨auth, hget, hreached, hasked⟩
  · exact .inl hG
  · exact .inr ⟨auth, hget, hreached, fun k hk hin => hused k (hasked k hk hin)⟩

/-- An account that is known to be satisfied is approved. -/
theorem approve (h : Knows get K A G s) {a : AccountName} (ha : a ∈ G ∨
    ∃ auth, get a = .ok auth ∧ Reached K (sat get K G) auth ∧ ∀ k ∈ K, Asked get K G auth k → Used s k) :
    Knows get K A G (s.approve a true) := by
  refine ⟨h.available, h.keys, fun c hc => mem_put_keys.mpr (.inl (h.given c hc)), fun c hc => ?_, fun c hc => ?_⟩
  · rcases mem_put_keys.mp hc with hc | rfl
    · exact h.approved c hc
    · exact ha
  · show (put s.approvedBy a true).row c = true
    rw [put_row]
    rcases mem_put_keys.mp hc with hc | rfl
    · split
      · rfl
      · exact h.marked c hc
    · rw [if_pos rfl]

/-- An account is given from here on. -/
theorem grow (h : Knows get K A G s) (a : AccountName) : Knows get K A (insert a G) (s.approve a true) := by
  have hsub : G ⊆ insert a G := Set.subset_insert a G
  refine ⟨h.available, h.keys, fun c hc => ?_, fun c hc => ?_, fun c hc => ?_⟩
  · rcases Set.mem_insert_iff.mp hc with rfl | hc
    · exact mem_put_keys.mpr (.inr rfl)
    · exact mem_put_keys.mpr (.inl (h.given c hc))
  · rcases mem_put_keys.mp hc with hc | rfl
    · rcases h.approved c hc with hG | ⟨auth, hget, hreached, hasked⟩
      · exact .inl (hsub hG)
      · refine .inr ⟨auth, hget, hreached.mono (sat_mono (Set.Subset.refl K) hsub), fun k hk hin => ?_⟩
        exact hasked k hk (hin.anti (Set.Subset.refl K) hsub)
    · exact .inl (Set.mem_insert _ _)
  · show (put s.approvedBy a true).row c = true
    rw [put_row]
    rcases mem_put_keys.mp hc with hc | rfl
    · split
      · rfl
      · exact h.marked c hc
    · rw [if_pos rfl]

end Knows

/-- **`signed_by`** answers whether the key can sign, and marks it if so. -/
theorem signedBy_knows (hs : Knows get K A G s) (k : PublicKey) :
    ((s.signedBy k).1 = true ↔ k ∈ K) ∧ Knows get K A G (s.signedBy k).2 ∧
      ∀ j, Used (s.signedBy k).2 j ↔ Used s j ∨ j ∈ K ∧ j = k := by
  unfold SignState.signedBy
  by_cases hin : k ∈ s.providedSignatures.keys
  · have hk : k ∈ K := (hs.keys k).mpr (.inl hin)
    rw [if_pos hin]
    refine ⟨⟨fun _ => hk, fun _ => rfl⟩, hs.marks hs.keys ?_, fun j => ?_⟩
    · rintro j ⟨hj, hrow⟩
      refine ⟨hj, ?_⟩
      rw [Table.modify_row]
      split
      · rfl
      · exact hrow
    · unfold Used
      rw [Table.modify_keys, Table.modify_row]
      by_cases hjk : j = k
      · rw [if_pos hjk]
        exact ⟨fun _ => .inr ⟨hjk ▸ hk, hjk⟩, fun _ => ⟨hjk ▸ hin, rfl⟩⟩
      · rw [if_neg hjk]
        exact ⟨.inl, fun h => h.resolve_right fun h => hjk h.2⟩
  · rw [if_neg hin]
    by_cases hav : k ∈ s.availableKeys
    · have hk : k ∈ K := (hs.keys k).mpr (.inr hav)
      rw [if_pos hav]
      refine ⟨⟨fun _ => hk, fun _ => rfl⟩, hs.marks (fun j => ?_) ?_, fun j => ?_⟩
      · rw [hs.keys, mem_put_keys]
        constructor
        · exact fun h => h.imp_left .inl
        · rintro ((h | rfl) | h)
          · exact .inl h
          · exact .inr hav
          · exact .inr h
      · rintro j ⟨hj, hrow⟩
        refine ⟨mem_put_keys.mpr (.inl hj), ?_⟩
        rw [put_row]
        split
        · rfl
        · exact hrow
      · unfold Used
        rw [mem_put_keys, put_row]
        by_cases hjk : j = k
        · rw [if_pos hjk]
          exact ⟨fun _ => .inr ⟨hjk ▸ hk, hjk⟩, fun _ => ⟨.inr hjk, rfl⟩⟩
        · rw [if_neg hjk]
          exact ⟨fun h => .inl ⟨h.1.resolve_right hjk, h.2⟩, fun h =>
            (h.resolve_right fun h => hjk h.2).imp_left .inl⟩
    · have hk : k ∉ K := fun hk => ((hs.keys k).mp hk).elim hin hav
      rw [if_neg hav]
      refine ⟨⟨fun h => absurd h Bool.false_ne_true, fun h => absurd h hk⟩, hs, fun j => ?_⟩
      exact ⟨.inl, fun h => h.resolve_right fun h => hk (h.2 ▸ h.1)⟩

/-- **The first loop** returns if the keys are enough, and has their weight otherwise. -/
theorem weighKeys_knows (threshold : Nat) {ks : List (PublicKey × Nat)} {t : Nat}
    (hfits : t + (ks.map Prod.snd).sum < 2 ^ 32) (hs : Knows get K A G s) :
    ∃ r s', weighKeys threshold ks t s = (r, s') ∧ (r = none ↔ Stops threshold t K ks) ∧
      (∀ n, r = some n → n = t + weightIn K ks) ∧ Knows get K A G s' ∧
      ∀ j, Used s' j ↔ Used s j ∨ j ∈ K ∧ Seen threshold t K ks j := by
  induction ks generalizing t s with
  | nil =>
      refine ⟨some t, s, rfl, ⟨fun h => absurd h (Option.some_ne_none t), fun h => absurd h not_stops_nil⟩, fun n hn => ?_, hs, fun j => ?_⟩
      · exact (Option.some.inj hn).symm
      · exact ⟨.inl, fun h => h.resolve_right fun h => not_seen_nil h.2⟩
  | cons e ks ih =>
      obtain ⟨k, w⟩ := e
      rw [List.map_cons, List.sum_cons] at hfits
      obtain ⟨hsigned, hs₁, hused₁⟩ := signedBy_knows hs k
      unfold weighKeys
      generalize s.signedBy k = q at hsigned hs₁ hused₁
      obtain ⟨signed, s₁⟩ := q
      dsimp only at hsigned hs₁ hused₁
      have hmod : (t + w) % 2 ^ 32 = t + w := Nat.mod_eq_of_lt (by omega)
      cases signed with
      | true =>
          have hk : k ∈ K := hsigned.mp rfl
          dsimp only
          rw [hmod]
          by_cases hle : threshold ≤ t + w
          · rw [if_pos hle]
            refine ⟨none, s₁, rfl, ⟨fun _ => stops_cons_of_le hk hle, fun _ => rfl⟩, fun n hn => absurd hn.symm (Option.some_ne_none n), hs₁, ?_⟩
            intro j
            rw [hused₁, seen_cons_of_le hk hle]
          · rw [if_neg hle]
            obtain ⟨r, s', hrun, hstops, hweight, hs', hused⟩ := ih (t := t + w) (by omega) hs₁
            refine ⟨r, s', hrun, ?_, fun n hn => ?_, hs', fun j => ?_⟩
            · rw [hstops, stops_cons_of_lt hk (by omega)]
            · rw [hweight n hn, weightIn_cons_of_mem hk, Nat.add_assoc]
            · rw [hused, hused₁, seen_cons_of_lt hk (by omega), or_assoc, and_or_left]
      | false =>
          have hk : k ∉ K := fun hk => Bool.false_ne_true (hsigned.mpr hk)
          obtain ⟨r, s', hrun, hstops, hweight, hs', hused⟩ := ih (t := t) (by omega) hs₁
          refine ⟨r, s', hrun, ?_, fun n hn => ?_, hs', fun j => ?_⟩
          · rw [hstops, stops_cons_of_not_mem hk]
          · rw [hweight n hn, weightIn_cons_of_not_mem hk]
          · rw [hused, hused₁, seen_cons_of_not_mem hk, or_assoc, and_or_left]

/-- **The second loop.** An account that is approved already has had its keys marked. -/
theorem weighAccounts_finds {nested : Option (AccountName → SignState → Except AuthorityError (Bool × SignState))}
    (threshold : Nat) {as : List (AccountName × Nat)} {t : Nat} (hfits : t + (as.map Prod.snd).sum < 2 ^ 32)
    (hn : ∀ a ∈ as.map Prod.fst, a ∉ G → ∃ check auth, nested = some check ∧ get a = .ok auth ∧
      Finds get K A G (check a) (Reached K (sat get K G) auth) (Asked get K G auth)) :
    Finds get K A G (weighAccounts nested threshold as t) (threshold ≤ t + weightIn (sat get K G) as)
      (fun k => ∃ a auth, Seen threshold t (sat get K G) as a ∧ a ∉ G ∧ get a = .ok auth ∧ Asked get K G auth k) := by
  induction as generalizing t with
  | nil =>
      intro s hs
      refine ⟨decide (threshold ≤ t), s, rfl, decide_eq_true_iff, hs, fun k => ⟨.inl, ?_⟩⟩
      rintro (h | ⟨-, a, auth, hseen, -⟩)
      · exact h
      · exact absurd hseen not_seen_nil
  | cons e as ih =>
      obtain ⟨a, w⟩ := e
      rw [List.map_cons, List.sum_cons] at hfits
      have hrest := fun (t : Nat) (ht : t + (as.map Prod.snd).sum < 2 ^ 32) =>
        ih ht fun c hc hG => hn c (List.mem_cons_of_mem a hc) hG
      have hmod : (t + w) % 2 ^ 32 = t + w := Nat.mod_eq_of_lt (by omega)
      -- the entry counts, in a state in which the keys of the account are marked
      have hcount : ∀ s, a ∈ sat get K G → Knows get K A G s →
          (a ∉ G → ∀ auth, get a = .ok auth → ∀ k ∈ K, Asked get K G auth k → Used s k) →
          ∃ b s', (if threshold ≤ (t + w) % 2 ^ 32 then .ok (true, s)
            else weighAccounts nested threshold as ((t + w) % 2 ^ 32) s : Except AuthorityError _) = .ok (b, s') ∧
          (b = true ↔ threshold ≤ t + weightIn (sat get K G) ((a, w) :: as)) ∧ Knows get K A G s' ∧
          ∀ k, Used s' k ↔ Used s k ∨ k ∈ K ∧ ∃ c auth,
            Seen threshold t (sat get K G) ((a, w) :: as) c ∧ c ∉ G ∧ get c = .ok auth ∧ Asked get K G auth k := by
        intro s ha hs hmarked
        rw [hmod, weightIn_cons_of_mem ha]
        by_cases hle : threshold ≤ t + w
        · rw [if_pos hle]
          refine ⟨true, s, rfl, ⟨fun _ => by omega, fun _ => rfl⟩, hs, fun k => ⟨.inl, ?_⟩⟩
          rintro (h | ⟨hk, c, auth, hseen, hG, hget, hin⟩)
          · exact h
          · obtain rfl := (seen_cons_of_le ha hle).mp hseen
            exact hmarked hG auth hget k hk hin
        · rw [if_neg hle]
          obtain ⟨b, s', hrun, hb, hs', hused⟩ := hrest (t + w) (by omega) s hs
          refine ⟨b, s', hrun, by rw [hb, Nat.add_assoc], hs', fun k => (hused k).trans ?_⟩
          constructor
          · rintro (h | ⟨hk, c, auth, hseen, h⟩)
            · exact .inl h
            · exact .inr ⟨hk, c, auth, (seen_cons_of_lt ha (by omega)).mpr (.inr hseen), h⟩
          · rintro (h | ⟨hk, c, auth, hseen, hG, hget, hin⟩)
            · exact .inl h
            · rcases (seen_cons_of_lt ha (by omega)).mp hseen with rfl | hseen
              · exact .inl (hmarked hG auth hget k hk hin)
              · exact .inr ⟨hk, c, auth, hseen, hG, hget, hin⟩
      intro s hs
      unfold weighAccounts
      by_cases hin : a ∈ s.approvedBy.keys
      · rw [if_pos hin]
        refine hcount s (hs.sat_of_approved hin) hs fun hG auth hget k hk hasked => ?_
        obtain ⟨auth', hget', -, hmarked⟩ := (hs.approved a hin).resolve_left hG
        obtain rfl : auth = auth' := Except.ok.inj (hget.symm.trans hget')
        exact hmarked k hk hasked
      · rw [if_neg hin]
        have hG : a ∉ G := fun hG => hin (hs.given a hG)
        obtain ⟨check, auth, rfl, hget, hfinds⟩ := hn a List.mem_cons_self hG
        obtain ⟨b, s₁, hcheck, hb, hs₁, hused₁⟩ := hfinds s hs
        dsimp only
        rw [hcheck]
        cases b with
        | true =>
            have hreached := hb.mp rfl
            have hmarked : ∀ k ∈ K, Asked get K G auth k → Used s₁ k := fun k hk hasked => (hused₁ k).mpr (.inr ⟨hk, hasked⟩)
            obtain ⟨b, s', hrun, hb', hs', hused⟩ := hcount (s₁.approve a true)
              (mem_sat.mpr (.inr ⟨auth, hget, hreached⟩)) (hs₁.approve (.inr ⟨auth, hget, hreached, hmarked⟩))
              fun _ auth' hget' k hk hasked => by
                obtain rfl : auth = auth' := Except.ok.inj (hget.symm.trans hget')
                exact hmarked k hk hasked
            refine ⟨b, s', hrun, hb', hs', fun k => (hused k).trans ?_⟩
            constructor
            · rintro (h | h)
              · rcases (hused₁ k).mp h with h | ⟨hk, hasked⟩
                · exact .inl h
                · exact .inr ⟨hk, a, auth, seen_cons_self, hG, hget, hasked⟩
              · exact .inr h
            · rintro (h | h)
              · exact .inl ((hused₁ k).mpr (.inl h))
              · exact .inr h
        | false =>
            have ha : a ∉ sat get K G := by
              intro ha
              obtain ⟨auth', hget', hreached⟩ := (mem_sat.mp ha).resolve_left hG
              obtain rfl : auth = auth' := Except.ok.inj (hget.symm.trans hget')
              exact Bool.false_ne_true (hb.mpr hreached)
            obtain ⟨b, s', hrun, hb', hs', hused⟩ := hrest t (by omega) s₁ hs₁
            refine ⟨b, s', hrun, by rw [hb', weightIn_cons_of_not_mem ha], hs', fun k => (hused k).trans ?_⟩
            constructor
            · rintro (h | ⟨hk, c, auth', hseen, h⟩)
              · rcases (hused₁ k).mp h with h | ⟨hk, hasked⟩
                · exact .inl h
                · exact .inr ⟨hk, a, auth, seen_cons_self, hG, hget, hasked⟩
              · exact .inr ⟨hk, c, auth', (seen_cons_of_not_mem ha).mpr (.inr hseen), h⟩
            · rintro (h | ⟨hk, c, auth', hseen, hG', hget', hasked⟩)
              · exact .inl ((hused₁ k).mpr (.inl h))
              · rcases (seen_cons_of_not_mem ha).mp hseen with rfl | hseen
                · obtain rfl : auth = auth' := Except.ok.inj (hget.symm.trans hget')
                  exact .inl ((hused₁ k).mpr (.inr ⟨hk, hasked⟩))
                · exact .inr ⟨hk, c, auth', hseen, hG', hget', hasked⟩

/-- **Both loops.** -/
theorem weigh_finds {nested : Option (AccountName → SignState → Except AuthorityError (Bool × SignState))}
    (hfits : Fitting auth)
    (hn : ∀ a ∈ auth.accountAuths.map Prod.fst, a ∉ G → ∃ check auth', nested = some check ∧ get a = .ok auth' ∧
      Finds get K A G (check a) (Reached K (sat get K G) auth') (Asked get K G auth')) :
    Finds get K A G (weigh nested auth) (Reached K (sat get K G) auth) (Asked get K G auth) := by
  intro s hs
  unfold Fitting at hfits
  obtain ⟨r, s₁, hrun, hstops, hweight, hs₁, hused₁⟩ :=
    weighKeys_knows auth.weightThreshold (by omega : 0 + (auth.keyAuths.map Prod.snd).sum < 2 ^ 32) hs
  unfold weigh
  rw [hrun]
  cases r with
  | none =>
      have hstops' := hstops.mp rfl
      refine ⟨true, s₁, rfl, ⟨fun _ => ?_, fun _ => rfl⟩, hs₁, fun k => (hused₁ k).trans (or_congr_right ?_)⟩
      · have hle : auth.weightThreshold ≤ 0 + weightIn K auth.keyAuths := hstops'.2
        unfold Reached
        omega
      · refine and_congr_right fun _ => ⟨.key, fun hasked => ?_⟩
        cases hasked with
        | key h => exact h
        | inside hkeys => exact absurd hstops' hkeys
  | some n =>
      have hopen : ¬ Stops auth.weightThreshold 0 K auth.keyAuths := fun h => nomatch hstops.mpr h
      have hn' := hweight n rfl
      rw [Nat.zero_add] at hn'
      have hsum : ∀ l : List (PublicKey × Nat), weightIn K l ≤ (l.map Prod.snd).sum := by
        intro l
        induction l with
        | nil => exact Nat.le_refl _
        | cons e l ih =>
            obtain ⟨x, w⟩ := e
            rw [List.map_cons, List.sum_cons]
            by_cases hx : x ∈ K
            · rw [weightIn_cons_of_mem hx]
              exact Nat.add_le_add_left ih w
            · rw [weightIn_cons_of_not_mem hx]
              exact ih.trans (Nat.le_add_left _ _)
      have hle := hsum auth.keyAuths
      obtain ⟨b, s', hrun', hb, hs', hused⟩ :=
        weighAccounts_finds auth.weightThreshold (t := n) (by omega) hn s₁ hs₁
      refine ⟨b, s', hrun', by rw [hb, hn']; rfl, hs', fun k => (hused k).trans ?_⟩
      rw [hused₁, hn', or_assoc, ← and_or_left]
      refine or_congr_right (and_congr_right fun _ => ?_)
      constructor
      · rintro (h | ⟨a, auth', hseen, hG, hget, hasked⟩)
        · exact .key h
        · exact .inside hopen hseen hG hget hasked
      · intro hasked
        cases hasked with
        | key h => exact .inl h
        | inside _ hseen hG hget hin => exact .inr ⟨_, _, hseen, hG, hget, hin⟩

/-- **`check_authority` of an authority** that is not too deep. -/
theorem checkAuthority_finds (htemp : tempAccount ∈ G) {left : Nat} (hdeep : Deep get left auth) :
    Finds get K A G (checkAuthority get left auth) (Reached K (sat get K G) auth) (Asked get K G auth) := by
  induction left generalizing auth with
  | zero => exact weigh_finds hdeep.fitting fun a ha hG => absurd (hdeep.2 a ha ▸ htemp) hG
  | succ left ih =>
      refine weigh_finds hdeep.fitting fun a ha hG => ?_
      obtain rfl | ⟨auth', hget, hdeep'⟩ := hdeep.2 a ha
      · exact absurd htemp hG
      · refine ⟨_, auth', rfl, hget, fun s hs => ?_⟩
        obtain ⟨b, s', hrun, h⟩ := ih hdeep' s hs
        refine ⟨b, s', ?_, h⟩
        rw [hget]
        exact hrun

/-- The getter has an authority for the account, and the check follows it to its end. -/
def Opens (get g : AuthorityGetter) (depth : Nat) (id : AccountName) : Prop :=
  ∃ auth, g id = .ok auth ∧ Deep get depth auth

/-- The keys a check of the account's authority comes across. -/
def AskedOf (get g : AuthorityGetter) (K : Set PublicKey) (G : Set AccountName) (id : AccountName) (k : PublicKey) :
    Prop :=
  ∃ auth, g id = .ok auth ∧ Asked get K G auth k

variable {depth : Nat} {id : AccountName}

theorem AskedOf.anti {K' : Set PublicKey} {G' : Set AccountName} {k : PublicKey} (h : AskedOf get g K' G' id k)
    (hK : K ⊆ K') (hG : G ⊆ G') : AskedOf get g K G id k := by
  obtain ⟨auth, hget, h⟩ := h
  exact ⟨auth, hget, h.anti hK hG⟩

theorem Holds.restrict {K' : Set PublicKey} (htemp : tempAccount ∈ G) (hopens : Opens get g depth id)
    (h : Holds g K (sat get K G) id) (hasked : ∀ k ∈ K, AskedOf get g K G id k → k ∈ K') (hK : K' ⊆ K) :
    Holds g K' (sat get K' G) id := by
  obtain ⟨auth, hget, hdeep⟩ := hopens
  obtain ⟨auth', hget', h⟩ := h
  obtain rfl : auth = auth' := Except.ok.inj (hget.symm.trans hget')
  exact ⟨auth, hget, h.restrict htemp hdeep (fun k hk hin => hasked k hk ⟨auth, hget, hin⟩) hK⟩

/-- The check of an authority that a getter has for an account. -/
theorem checkGot_finds (htemp : tempAccount ∈ G) (hopens : Opens get g depth id) :
    Finds get K A G (fun s => do
      let auth ← g id
      checkAuthority get depth auth s) (Holds g K (sat get K G) id) (AskedOf get g K G id) := by
  obtain ⟨auth, hget, hdeep⟩ := hopens
  have hother : ∀ {P : Authority → Prop}, (∃ auth', g id = .ok auth' ∧ P auth') ↔ P auth := by
    intro P
    constructor
    · rintro ⟨auth', hget', h⟩
      obtain rfl : auth = auth' := Except.ok.inj (hget.symm.trans hget')
      exact h
    · exact fun h => ⟨auth, hget, h⟩
  intro s hs
  obtain ⟨b, s', hrun, hb, hs', hused⟩ := checkAuthority_finds htemp hdeep s hs
  refine ⟨b, s', ?_, hb.trans hother.symm, hs', fun k => (hused k).trans ?_⟩
  · dsimp only
    rw [hget]
    exact hrun
  · exact or_congr_right (and_congr_right fun _ => (hother (P := fun auth => Asked get K G auth k)).symm)

/-- **`check_authority` of an account.** -/
theorem checkAccount_finds (htemp : tempAccount ∈ G) (hopens : Opens get get depth id) :
    Finds get K A G (checkAccount get depth id) (id ∈ sat get K G) (fun k => id ∉ G ∧ AskedOf get get K G id k) := by
  intro s hs
  unfold checkAccount
  by_cases hin : id ∈ s.approvedBy.keys
  · rw [if_pos hin]
    refine ⟨true, _, rfl, ⟨fun _ => hs.sat_of_approved hin, fun _ => rfl⟩, hs.approve (hs.approved id hin),
      fun k => ⟨.inl, ?_⟩⟩
    rintro (h | ⟨hk, hG, auth, hget, hasked⟩)
    · exact h
    · obtain ⟨auth', hget', -, hmarked⟩ := (hs.approved id hin).resolve_left hG
      obtain rfl : auth = auth' := Except.ok.inj (hget.symm.trans hget')
      exact hmarked k hk hasked
  · rw [if_neg hin]
    have hG : id ∉ G := fun hG => hin (hs.given id hG)
    obtain ⟨b, s', hrun, hb, hs', hused⟩ := checkGot_finds htemp hopens s hs
    refine ⟨b, s', hrun, hb.trans ?_, hs', fun k => (hused k).trans ?_⟩
    · rw [mem_sat, or_iff_right hG]
    · exact or_congr_right (and_congr_right fun _ => (and_iff_right hG).symm)

/-- The second check marks its keys only where the first one fails. -/
theorem orElse_finds {first second : SignState → Except AuthorityError (Bool × SignState)} {P Q : Prop}
    {U V : PublicKey → Prop} (h₁ : Finds get K A G first P U) (h₂ : Finds get K A G second Q V) :
    Finds get K A G (orElse first second) (P ∨ Q) (fun k => U k ∨ ¬ P ∧ V k) := by
  intro s hs
  obtain ⟨b, s₁, hrun, hb, hs₁, hused₁⟩ := h₁ s hs
  unfold orElse
  rw [hrun]
  cases b with
  | true =>
      have hP := hb.mp rfl
      refine ⟨true, s₁, rfl, ⟨fun _ => .inl hP, fun _ => rfl⟩, hs₁, fun k => (hused₁ k).trans ?_⟩
      exact or_congr_right (and_congr_right fun _ => (or_iff_left fun h => h.1 hP).symm)
  | false =>
      have hP : ¬ P := fun hP => Bool.false_ne_true (hb.mpr hP)
      obtain ⟨b, s', hrun', hb', hs', hused⟩ := h₂ s₁ hs₁
      refine ⟨b, s', hrun', hb'.trans (or_iff_right hP).symm, hs', fun k => (hused k).trans ?_⟩
      rw [hused₁, or_assoc, ← and_or_left]
      exact or_congr_right (and_congr_right fun _ => or_congr_right (and_iff_right hP).symm)

/-- **A loop over what is required.** -/
theorem collectMissing_finds {α : Type} {check : α → SignState → Except AuthorityError (Bool × SignState)}
    {P : α → Prop} {U : α → PublicKey → Prop} {xs : List α} (hc : ∀ x ∈ xs, Finds get K A G (check x) (P x) (U x))
    (hs : Knows get K A G s) :
    ∃ missing s', collectMissing check xs s = .ok (missing, s') ∧ (missing = [] ↔ ∀ x ∈ xs, P x) ∧ Knows get K A G s' ∧
      ∀ k, Used s' k ↔ Used s k ∨ k ∈ K ∧ ∃ x ∈ xs, U x k := by
  induction xs generalizing s with
  | nil => exact ⟨[], s, rfl, by simp, hs, fun k => by simp⟩
  | cons x xs ih =>
      obtain ⟨b, s₁, hrun₁, hb, hs₁, hused₁⟩ := hc x List.mem_cons_self s hs
      obtain ⟨missing, s', hrun, hmissing, hs', hused⟩ := ih (fun y hy => hc y (List.mem_cons_of_mem x hy)) hs₁
      refine ⟨if b then missing else x :: missing, s', ?_, ?_, hs', fun k => ?_⟩
      · unfold collectMissing
        rw [hrun₁]
        show (collectMissing check xs s₁ >>= _) = _
        rw [hrun]
        rfl
      · rw [List.forall_mem_cons, ← hb, ← hmissing]
        cases b <;> simp
      · rw [hused, hused₁, or_assoc, ← and_or_left]
        refine or_congr_right (and_congr_right fun _ => ?_)
        constructor
        · rintro (h | ⟨y, hy, h⟩)
          · exact ⟨x, List.mem_cons_self, h⟩
          · exact ⟨y, List.mem_cons_of_mem x hy, h⟩
        · rintro ⟨y, hy, h⟩
          rcases List.mem_cons.mp hy with rfl | hy
          · exact .inl h
          · exact .inr ⟨y, hy, h⟩

end Checks

end Signing

end VizNode
