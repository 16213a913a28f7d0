import VizNode.ForkDatabase.Links
import Mathlib.Data.List.Chain

/-!
# `VizNode.ForkDatabase.Branches` — what the branch lookups return

Over a linked fork database, following parent pointers goes down one block at a time, so
`fetch_branch_from` returns two *trails*: lists of items, tip first, each one the parent of the one before
it, ending in two blocks that name the same parent. A trail is determined by its tip and its length, and
by the blocks alone when ids do not collide.

## Contents
- **Steps.** `lock_id`, `lock_num`: a followed pointer leads to the named block, one number lower.
- **Trails.** `fetchBranchFrom_ok`, the specification of the lookup, and `fetchBranchFrom_swap`.
- **Two databases.** `fetchBranchFrom_alike`: the same links give the same branches.
- **The main branch.** `walkMainBranchToNum` stays on the trail of the head.
-/

namespace VizNode

namespace ForkDatabase

variable {Tx : Type} {U : SignedBlock Tx → Prop} {f : ForkDatabase Tx}

/-! ## Steps -/

theorem Linked.lock_id (h : Linked U f) {x p : ForkItem Tx} (hx : x ∈ f.live)
    (hp : f.lock x.prev = some p) : p.id = x.previousId :=
  h.link x hx p (lock_mem hp).1 (lock_mem hp).2

/-- **A followed pointer goes down by one.** -/
theorem Linked.lock_num (h : Linked U f) {x p : ForkItem Tx} (hx : x ∈ f.live)
    (hp : f.lock x.prev = some p) (hpos : 0 < x.num) : p.num + 1 = x.num := by
  have hid : p.num = x.data.previous.num := congrArg BlockId.num (h.lock_id hx hp)
  have hnum : x.num = (x.data.previous.num + 1) % 2 ^ 32 := rfl
  have hlt : p.num < 2 ^ 32 := Nat.mod_lt _ (by decide)
  omega

/-! ## Trails -/

/-- **A trail**: every item is the parent of the one before it. -/
def Trail (f : ForkDatabase Tx) (l : List (ForkItem Tx)) : Prop :=
  l.IsChain (fun x p => f.lock x.prev = some p)

/-- A trail is determined by its tip and its length. -/
theorem Trail.eq_of_length {l₁ l₂ : List (ForkItem Tx)} (h₁ : Trail f l₁) (h₂ : Trail f l₂)
    (hh : l₁.head? = l₂.head?) (hl : l₁.length = l₂.length) : l₁ = l₂ := by
  induction l₁ generalizing l₂ with
  | nil => exact (List.length_eq_zero_iff.mp hl.symm).symm
  | cons x l₁ ih =>
      cases l₂ with
      | nil => exact absurd hl (by simp)
      | cons y l₂ =>
          obtain rfl : x = y := by simpa using hh
          refine congrArg (x :: ·) (ih h₁.of_cons h₂.of_cons ?_ (by simpa using hl))
          cases l₁ with
          | nil => rw [List.length_eq_zero_iff.mp (by simpa using hl.symm : l₂.length = 0)]
          | cons a l₁ =>
              cases l₂ with
              | nil => exact absurd hl (by simp)
              | cons b l₂ =>
                  have ha : f.lock x.prev = some a := (List.isChain_cons_cons.mp h₁).1
                  have hb : f.lock x.prev = some b := (List.isChain_cons_cons.mp h₂).1
                  rw [ha] at hb
                  simpa using hb

theorem trail_cons {x p : ForkItem Tx} {l : List (ForkItem Tx)} (hp : f.lock x.prev = some p)
    (hl : Trail f l) (hh : l.head? = some p) : Trail f (x :: l) := by
  cases l with
  | nil => exact absurd hh (by simp)
  | cons q l =>
      obtain rfl : q = p := by simpa using hh
      exact List.isChain_cons_cons.mpr ⟨hp, hl⟩

/-- Two trails that meet in `x` are one. -/
theorem trail_append {l m : List (ForkItem Tx)} {x : ForkItem Tx} (h₁ : Trail f (l ++ [x]))
    (h₂ : Trail f m) (hh : m.head? = some x) : Trail f (l ++ m) := by
  cases m with
  | nil => exact absurd hh (by simp)
  | cons y m =>
      obtain rfl : y = x := by simpa using hh
      exact List.isChain_split.mpr ⟨h₁, h₂⟩

theorem head?_append_of_head? {l m : List (ForkItem Tx)} {x : ForkItem Tx} (hh : m.head? = some x) :
    (l ++ m).head? = (l ++ [x]).head? := by
  cases l with
  | nil => simpa using hh
  | cons y l => rfl

/-- **The lowering loop**: it stops at once, or exactly at the height it was given. -/
theorem lowerTo_ok (h : Linked U f) {t n : Nat} {x x' : ForkItem Tx} {l : List (ForkItem Tx)}
    (hx : x ∈ f.live) (hr : lowerTo f t n x = .ok (x', l)) :
    x' ∈ f.live ∧ Trail f (l ++ [x']) ∧ (l ++ [x']).head? = some x ∧ l.length + x'.num = x.num ∧
      x'.num = min t x.num := by
  induction n generalizing x l with
  | zero => exact absurd hr (by simp [lowerTo])
  | succ n ih =>
      unfold lowerTo at hr
      split at hr
      · next hlt =>
          split at hr
          · exact absurd hr (by simp)
          · next p hp =>
              cases hrec : lowerTo f t n p with
              | error e => rw [hrec] at hr; exact absurd hr (by simp [Except.map])
              | ok r =>
                  rw [hrec] at hr
                  obtain ⟨rfl, rfl⟩ := Prod.mk.inj (Except.ok.inj hr)
                  have hnum := h.lock_num hx hp (by omega)
                  obtain ⟨hm, ht, hh, hlen, hmin⟩ := ih (lock_mem hp).1 hrec
                  refine ⟨hm, ?_, rfl, ?_, ?_⟩
                  · exact trail_cons hp ht hh
                  · simp only [List.length_cons]
                    omega
                  · omega
      · next hle =>
          obtain ⟨rfl, rfl⟩ := Prod.mk.inj (Except.ok.inj hr)
          exact ⟨hx, List.isChain_singleton _, rfl, by simp, by omega⟩

/-- Nothing is lowered that is low enough. -/
theorem lowerTo_self {t n : Nat} {x : ForkItem Tx} (h : x.num ≤ t) : lowerTo f t (n + 1) x = .ok (x, []) := by
  simp [lowerTo, Nat.not_lt.mpr h]

theorem lowerBoth_swap (n : Nat) (x y : ForkItem Tx) :
    lowerBoth f n y x = (lowerBoth f n x y).map Prod.swap := by
  induction n generalizing x y with
  | zero => rfl
  | succ n ih =>
      unfold lowerBoth
      by_cases he : x.previousId = y.previousId
      · rw [if_pos he, if_pos he.symm]; rfl
      · rw [if_neg he, if_neg (fun hc => he hc.symm)]
        cases f.lock x.prev with
        | none => cases f.lock y.prev <;> rfl
        | some x' =>
            cases f.lock y.prev with
            | none => rfl
            | some y' =>
                simp only [ih x' y']
                cases lowerBoth f n x' y' <;> rfl

/-- **The last loop**: both trails end in blocks that name the same parent. -/
theorem lowerBoth_ok (h : Linked U f) {n : Nat} {x y : ForkItem Tx} {as bs : List (ForkItem Tx)}
    (hx : x ∈ f.live) (hy : y ∈ f.live) (hn : n = x.num + 1) (hxy : x.num = y.num)
    (hr : lowerBoth f n x y = .ok (as, bs)) :
    ∃ as' bs' a b, as = as' ++ [a] ∧ bs = bs' ++ [b] ∧ Trail f as ∧ Trail f bs ∧
      as.head? = some x ∧ bs.head? = some y ∧ a.previousId = b.previousId ∧
      a ∈ f.live ∧ b ∈ f.live ∧ as'.length + a.num = x.num ∧ bs'.length + b.num = y.num := by
  induction n generalizing x y as bs with
  | zero => exact absurd hr (by simp [lowerBoth])
  | succ n ih =>
      unfold lowerBoth at hr
      split at hr
      · next he =>
          obtain ⟨rfl, rfl⟩ := Prod.mk.inj (Except.ok.inj hr)
          exact ⟨[], [], x, y, rfl, rfl, List.isChain_singleton _, List.isChain_singleton _, rfl, rfl, he,
            hx, hy, by simp, by simp⟩
      · split at hr
        · next x' y' hx' hy' =>
            cases hrec : lowerBoth f n x' y' with
            | error e => rw [hrec] at hr; exact absurd hr (by simp [Except.map])
            | ok r =>
                -- a block of number zero has no fuel left for its parent
                rw [hrec] at hr
                have hpos : 0 < x.num := by
                  rcases Nat.eq_zero_or_pos x.num with h0 | hpos
                  · obtain rfl : n = 0 := by omega
                    exact absurd hrec (by simp [lowerBoth])
                  · exact hpos
                obtain ⟨rfl, rfl⟩ := Prod.mk.inj (Except.ok.inj hr)
                have hxn := h.lock_num hx hx' hpos
                have hyn := h.lock_num hy hy' (by omega)
                obtain ⟨as', bs', a, b, has, hbs, hta, htb, hha, hhb, he, hal, hbl, hla, hlb⟩ :=
                  ih (lock_mem hx').1 (lock_mem hy').1 (by omega) (by omega) hrec
                refine ⟨x :: as', y :: bs', a, b, by simp [has], by simp [hbs], ?_, ?_, rfl, rfl, he, hal, hbl,
                  by simp only [List.length_cons]; omega, by simp only [List.length_cons]; omega⟩
                · exact trail_cons hx' hta hha
                · exact trail_cons hy' htb hhb
        · exact absurd hr (by simp)

/-- **What `fetch_branch_from` returns**: two trails from the tips down to two blocks that name the same
    parent, the fork. -/
structure Forked (f : ForkDatabase Tx) (a b : BlockId) (as bs : List (ForkItem Tx)) : Prop where
  trailA : Trail f as
  trailB : Trail f bs
  tipA   : as.head? = find f.index a
  tipB   : bs.head? = find f.index b
  neA    : as ≠ []
  neB    : bs ≠ []
  fork   : (as.getLast neA).previousId = (bs.getLast neB).previousId
  lenA   : as.length + (as.getLast neA).num = a.num + 1
  lenB   : bs.length + (bs.getLast neB).num = b.num + 1
  liveA  : ∀ x ∈ as, x ∈ f.live
  liveB  : ∀ x ∈ bs, x ∈ f.live

/-- The items of a trail are owned when its tip is. -/
theorem Trail.live {l : List (ForkItem Tx)} (h : Trail f l) (hh : ∀ x, l.head? = some x → x ∈ f.live) :
    ∀ x ∈ l, x ∈ f.live := by
  induction l with
  | nil => intro x hx; exact absurd hx (by simp)
  | cons y l ih =>
      intro x hx
      rcases List.mem_cons.mp hx with rfl | hx
      · exact hh x rfl
      · refine ih h.of_cons ?_ x hx
        intro z hz
        cases l with
        | nil => exact absurd hz (by simp)
        | cons w l =>
            obtain rfl : w = z := by simpa using hz
            exact (lock_mem (List.isChain_cons_cons.mp h).1).1

/-- The three loops of `fetch_branch_from`, as one equation. -/
theorem fetchBranchFrom_eq {a b : BlockId} {x y : ForkItem Tx} (hx : find f.index a = some x)
    (hy : find f.index b = some y) :
    fetchBranchFrom f a b = (lowerTo f y.num (x.num + 1) x).bind (fun r =>
      (lowerTo f r.1.num (y.num + 1) y).bind (fun s =>
        (lowerBoth f (r.1.num + 1) r.1 s.1).map (fun t => (r.2 ++ t.1, s.2 ++ t.2)))) := by
  unfold fetchBranchFrom
  rw [hx, hy]
  rfl

/-- Both tips of a lookup that returned are linked. -/
theorem fetchBranchFrom_known {a b : BlockId} {r : List (ForkItem Tx) × List (ForkItem Tx)}
    (hr : fetchBranchFrom f a b = .ok r) :
    ∃ x y, find f.index a = some x ∧ find f.index b = some y := by
  cases hx : find f.index a with
  | none => exact absurd hr (by simp [fetchBranchFrom, hx])
  | some x =>
      cases hy : find f.index b with
      | none => exact absurd hr (by simp [fetchBranchFrom, hx, hy])
      | some y => exact ⟨x, y, rfl, rfl⟩

/-- A lookup that returned ran its three loops to the end. -/
theorem fetchBranchFrom_stages {a b : BlockId} {x y : ForkItem Tx}
    {r : List (ForkItem Tx) × List (ForkItem Tx)} (hx : find f.index a = some x)
    (hy : find f.index b = some y) (hr : fetchBranchFrom f a b = .ok r) :
    ∃ s t u, lowerTo f y.num (x.num + 1) x = .ok s ∧ lowerTo f s.1.num (y.num + 1) y = .ok t ∧
      lowerBoth f (s.1.num + 1) s.1 t.1 = .ok u ∧ r = (s.2 ++ u.1, t.2 ++ u.2) := by
  rw [fetchBranchFrom_eq hx hy] at hr
  cases h₁ : lowerTo f y.num (x.num + 1) x with
  | error e => rw [h₁] at hr; exact absurd hr (by simp [Except.bind])
  | ok s =>
      rw [h₁] at hr
      simp only [Except.bind] at hr
      cases h₂ : lowerTo f s.1.num (y.num + 1) y with
      | error e => rw [h₂] at hr; exact absurd hr (by simp)
      | ok t =>
          rw [h₂] at hr
          simp only at hr
          cases h₃ : lowerBoth f (s.1.num + 1) s.1 t.1 with
          | error e => rw [h₃] at hr; exact absurd hr (by simp [Except.map])
          | ok u =>
              rw [h₃] at hr
              exact ⟨s, t, u, rfl, h₂, h₃, (Except.ok.inj hr).symm⟩

theorem fetchBranchFrom_ok (h : Linked U f) {a b : BlockId} {as bs : List (ForkItem Tx)}
    (hr : fetchBranchFrom f a b = .ok (as, bs)) : Forked f a b as bs := by
  obtain ⟨x, y, hx, hy⟩ := fetchBranchFrom_known hr
  obtain ⟨r, s, ⟨t₁, t₂⟩, h₁, h₂, h₃, heq⟩ := fetchBranchFrom_stages hx hy hr
  obtain ⟨rfl, rfl⟩ := Prod.mk.inj heq
  obtain ⟨hxm, rfl⟩ := find_mem hx
  obtain ⟨hym, rfl⟩ := find_mem hy
  have hxl := mem_live_of_index hxm
  have hyl := mem_live_of_index hym
  obtain ⟨hrl, htr, hhr, hlr, hmr⟩ := lowerTo_ok h hxl h₁
  obtain ⟨hsl, hts, hhs, hls, hms⟩ := lowerTo_ok h hyl h₂
  obtain ⟨as', bs', p, q, rfl, rfl, hta, htb, hha, hhb, he, hpl, hql, hla, hlb⟩ :=
    lowerBoth_ok h hrl hsl rfl (by omega) h₃
  have hA : Trail f (r.2 ++ (as' ++ [p])) := trail_append htr hta hha
  have hB : Trail f (s.2 ++ (bs' ++ [q])) := trail_append hts htb hhb
  have hxn : x.id.num = x.num := rfl
  have hyn : y.id.num = y.num := rfl
  have hA1 : (r.2 ++ (as' ++ [p])).head? = some x := by
    rw [← hhr]; exact head?_append_of_head? hha
  have hB1 : (s.2 ++ (bs' ++ [q])).head? = some y := by
    rw [← hhs]; exact head?_append_of_head? hhb
  exact
    { trailA := hA, trailB := hB
      tipA := by rw [hA1, hx]
      tipB := by rw [hB1, hy]
      neA := by simp
      neB := by simp
      fork := by simpa using he
      lenA := by simp; omega
      lenB := by simp; omega
      liveA := hA.live (fun z hz => by rw [hA1] at hz; exact Option.some.inj hz ▸ hxl)
      liveB := hB.live (fun z hz => by rw [hB1] at hz; exact Option.some.inj hz ▸ hyl) }

/-- **The lookup is symmetric.** -/
theorem fetchBranchFrom_swap (h : Linked U f) (a b : BlockId) :
    fetchBranchFrom f b a = (fetchBranchFrom f a b).map Prod.swap := by
  -- one of the two lowering loops does nothing, so they can be exchanged
  have key : ∀ {a b : BlockId} {x y : ForkItem Tx}, find f.index a = some x → find f.index b = some y →
      x.num ≤ y.num → fetchBranchFrom f b a = (fetchBranchFrom f a b).map Prod.swap := by
    intro a b x y hx hy hle
    rw [fetchBranchFrom_eq hx hy, fetchBranchFrom_eq hy hx, lowerTo_self hle]
    simp only [Except.bind]
    cases h₂ : lowerTo f x.num (y.num + 1) y with
    | error e => rfl
    | ok s =>
        obtain ⟨-, -, -, -, hms⟩ := lowerTo_ok h (mem_live_of_index (find_mem hy).1) h₂
        have hs : s.1.num = x.num := by omega
        simp only [hs, lowerTo_self (Nat.le_refl x.num)]
        rw [lowerBoth_swap (x.num + 1) x s.1]
        cases lowerBoth f (x.num + 1) x s.1 <;> rfl
  cases hx : find f.index a with
  | none => cases hy : find f.index b <;> simp [fetchBranchFrom, hx, hy, Except.map]
  | some x =>
      cases hy : find f.index b with
      | none => simp [fetchBranchFrom, hx, hy, Except.map]
      | some y =>
          rcases Nat.le_total x.num y.num with hle | hle
          · exact key hx hy hle
          · rw [key hy hx hle]
            cases fetchBranchFrom f b a <;> rfl

/-! ## Two databases -/

/-- **Two databases hold the same linked blocks**: the same ids are linked, and a parent pointer can be
    followed in the one where it can be followed in the other. -/
structure SameLinks (f₁ f₂ : ForkDatabase Tx) : Prop where
  sub    : ∀ x ∈ f₁.index, ∃ y ∈ f₂.index, y.id = x.id
  sup    : ∀ y ∈ f₂.index, ∃ x ∈ f₁.index, x.id = y.id
  parent : ∀ x₁ ∈ f₁.live, ∀ x₂ ∈ f₂.live, x₁.data = x₂.data →
    (f₁.lock x₁.prev).isSome = (f₂.lock x₂.prev).isSome

theorem SameLinks.known {f₁ f₂ : ForkDatabase Tx} (h : SameLinks f₁ f₂) (id : BlockId) :
    (find f₁.index id).isSome = (find f₂.index id).isSome := by
  rw [Bool.eq_iff_iff, find_isSome, find_isSome]
  constructor
  · rintro ⟨x, hx, rfl⟩
    exact h.sub x hx
  · rintro ⟨y, hy, rfl⟩
    exact h.sup y hy

/-- Two results are alike: both failed, or both returned and the values are related. -/
def Alike {α : Type} (r : α → α → Prop) : Except Exn α → Except Exn α → Prop
  | .ok a,    .ok b    => r a b
  | .error _, .error _ => True
  | _,        _        => False

theorem Alike.map {α β : Type} {r : α → α → Prop} {q : β → β → Prop} {x y : Except Exn α} {f g : α → β}
    (h : Alike r x y) (hf : ∀ a b, r a b → q (f a) (g b)) : Alike q (x.map f) (y.map g) := by
  cases x <;> cases y
  case ok.ok a b => exact hf a b h
  case error.error => trivial
  all_goals exact h.elim

theorem Alike.bind {α β : Type} {r : α → α → Prop} {q : β → β → Prop} {x y : Except Exn α}
    {f g : α → Except Exn β} (h : Alike r x y) (hf : ∀ a b, x = .ok a → y = .ok b → r a b → Alike q (f a) (g b)) :
    Alike q (x.bind f) (y.bind g) := by
  cases x <;> cases y
  case ok.ok a b => exact hf a b rfl rfl h
  case error.error => trivial
  all_goals exact h.elim

/-- The same blocks, in the same order. -/
def SameData (l₁ l₂ : List (ForkItem Tx)) : Prop := l₁.map (·.data) = l₂.map (·.data)

theorem SameData.append {l₁ l₂ m₁ m₂ : List (ForkItem Tx)} (h : SameData l₁ l₂) (h' : SameData m₁ m₂) :
    SameData (l₁ ++ m₁) (l₂ ++ m₂) := by
  unfold SameData at h h' ⊢
  rw [List.map_append, List.map_append, h, h']

section TwoDatabases

variable {f₁ f₂ : ForkDatabase Tx} (hinj : ∀ a b, U a → U b → a.id = b.id → a = b)
  (h₁ : Linked U f₁) (h₂ : Linked U f₂) (hs : SameLinks f₁ f₂)

include hinj h₁ h₂ hs

/-- The parents of two items with the same block: both gone, or both there with the same block. -/
theorem lock_data {x₁ x₂ : ForkItem Tx} (hx₁ : x₁ ∈ f₁.live) (hx₂ : x₂ ∈ f₂.live) (hd : x₁.data = x₂.data) :
    (f₁.lock x₁.prev = none ∧ f₂.lock x₂.prev = none) ∨
    ∃ p₁ p₂, f₁.lock x₁.prev = some p₁ ∧ f₂.lock x₂.prev = some p₂ ∧ p₁ ∈ f₁.live ∧ p₂ ∈ f₂.live ∧
      p₁.data = p₂.data := by
  have hp := hs.parent x₁ hx₁ x₂ hx₂ hd
  cases hp₁ : f₁.lock x₁.prev with
  | none =>
      cases hp₂ : f₂.lock x₂.prev with
      | none => exact .inl ⟨rfl, rfl⟩
      | some p₂ => rw [hp₁, hp₂] at hp; exact absurd hp (by simp)
  | some p₁ =>
      cases hp₂ : f₂.lock x₂.prev with
      | none => rw [hp₁, hp₂] at hp; exact absurd hp (by simp)
      | some p₂ =>
          refine .inr ⟨p₁, p₂, rfl, rfl, (lock_mem hp₁).1, (lock_mem hp₂).1, ?_⟩
          refine hinj _ _ (h₁.data _ (lock_mem hp₁).1) (h₂.data _ (lock_mem hp₂).1) ?_
          have e₁ : p₁.data.id = x₁.data.previous := h₁.lock_id hx₁ hp₁
          have e₂ : p₂.data.id = x₂.data.previous := h₂.lock_id hx₂ hp₂
          rw [e₁, e₂, hd]

theorem lowerTo_alike (t n : Nat) {x₁ x₂ : ForkItem Tx} (hx₁ : x₁ ∈ f₁.live) (hx₂ : x₂ ∈ f₂.live)
    (hd : x₁.data = x₂.data) :
    Alike (fun r₁ r₂ => r₁.1.data = r₂.1.data ∧ SameData r₁.2 r₂.2) (lowerTo f₁ t n x₁) (lowerTo f₂ t n x₂) := by
  induction n generalizing x₁ x₂ with
  | zero => trivial
  | succ n ih =>
      have hnum : x₁.num = x₂.num := congrArg SignedBlock.blockNum hd
      unfold lowerTo
      rw [← hnum]
      split
      · rcases lock_data hinj h₁ h₂ hs hx₁ hx₂ hd with ⟨e₁, e₂⟩ | ⟨p₁, p₂, e₁, e₂, l₁, l₂, hp⟩
        · rw [e₁, e₂]; trivial
        · rw [e₁, e₂]
          refine (ih l₁ l₂ hp).map fun r₁ r₂ hr => ⟨hr.1, ?_⟩
          show x₁.data :: _ = x₂.data :: _
          rw [hd, hr.2]
      · exact ⟨hd, rfl⟩

theorem lowerBoth_alike (n : Nat) {x₁ x₂ y₁ y₂ : ForkItem Tx} (hx₁ : x₁ ∈ f₁.live) (hx₂ : x₂ ∈ f₂.live)
    (hy₁ : y₁ ∈ f₁.live) (hy₂ : y₂ ∈ f₂.live) (hx : x₁.data = x₂.data) (hy : y₁.data = y₂.data) :
    Alike (fun r₁ r₂ => SameData r₁.1 r₂.1 ∧ SameData r₁.2 r₂.2) (lowerBoth f₁ n x₁ y₁)
      (lowerBoth f₂ n x₂ y₂) := by
  induction n generalizing x₁ x₂ y₁ y₂ with
  | zero => trivial
  | succ n ih =>
      have hpx : x₁.previousId = x₂.previousId := congrArg SignedBlock.previous hx
      have hpy : y₁.previousId = y₂.previousId := congrArg SignedBlock.previous hy
      unfold lowerBoth
      rw [← hpx, ← hpy]
      split
      · exact ⟨congrArg (fun d => [d]) hx, congrArg (fun d => [d]) hy⟩
      · rcases lock_data hinj h₁ h₂ hs hx₁ hx₂ hx with ⟨e₁, e₂⟩ | ⟨p₁, p₂, e₁, e₂, l₁, l₂, hp⟩
        · rw [e₁, e₂]; trivial
        · rcases lock_data hinj h₁ h₂ hs hy₁ hy₂ hy with ⟨d₁, d₂⟩ | ⟨q₁, q₂, d₁, d₂, m₁, m₂, hq⟩
          · rw [e₁, e₂, d₁, d₂]; trivial
          · rw [e₁, e₂, d₁, d₂]
            refine (ih l₁ l₂ m₁ m₂ hp hq).map fun r₁ r₂ hr => ⟨?_, ?_⟩
            · show x₁.data :: _ = x₂.data :: _
              rw [hx, hr.1]
            · show y₁.data :: _ = y₂.data :: _
              rw [hy, hr.2]

/-- **Two databases that hold the same linked blocks walk the same branches.** -/
theorem fetchBranchFrom_alike (a b : BlockId) :
    Alike (fun r₁ r₂ => SameData r₁.1 r₂.1 ∧ SameData r₁.2 r₂.2) (fetchBranchFrom f₁ a b)
      (fetchBranchFrom f₂ a b) := by
  have hfind : ∀ id, (find f₁.index id = none ∧ find f₂.index id = none) ∨
      ∃ x₁ x₂, find f₁.index id = some x₁ ∧ find f₂.index id = some x₂ ∧ x₁ ∈ f₁.live ∧ x₂ ∈ f₂.live ∧
        x₁.data = x₂.data := by
    intro id
    have hk := hs.known id
    cases e₁ : find f₁.index id with
    | none => exact .inl ⟨rfl, by rw [e₁] at hk; simpa using hk.symm⟩
    | some x₁ =>
        rw [e₁] at hk
        obtain ⟨x₂, e₂⟩ := Option.isSome_iff_exists.mp hk.symm
        have l₁ := mem_live_of_index (find_mem e₁).1
        have l₂ := mem_live_of_index (find_mem e₂).1
        exact .inr ⟨x₁, x₂, rfl, e₂, l₁, l₂, hinj _ _ (h₁.data _ l₁) (h₂.data _ l₂)
          ((find_mem e₁).2.trans (find_mem e₂).2.symm)⟩
  rcases hfind a with ⟨e₁, e₂⟩ | ⟨x₁, x₂, e₁, e₂, lx₁, lx₂, hx⟩
  · simp only [fetchBranchFrom, e₁, e₂, Alike]
  · rcases hfind b with ⟨d₁, d₂⟩ | ⟨y₁, y₂, d₁, d₂, ly₁, ly₂, hy⟩
    · simp only [fetchBranchFrom, e₁, e₂, d₁, d₂, Alike]
    · have hxn : x₁.num = x₂.num := congrArg SignedBlock.blockNum hx
      have hyn : y₁.num = y₂.num := congrArg SignedBlock.blockNum hy
      rw [fetchBranchFrom_eq e₁ d₁, fetchBranchFrom_eq e₂ d₂, ← hxn, ← hyn]
      refine (lowerTo_alike hinj h₁ h₂ hs _ _ lx₁ lx₂ hx).bind fun r₁ r₂ hr₁ hr₂ hr => ?_
      have hrn : r₁.1.num = r₂.1.num := congrArg SignedBlock.blockNum hr.1
      rw [← hrn]
      refine (lowerTo_alike hinj h₁ h₂ hs _ _ ly₁ ly₂ hy).bind fun t₁ t₂ ht₁ ht₂ ht => ?_
      refine (lowerBoth_alike hinj h₁ h₂ hs _ (lowerTo_ok h₁ lx₁ hr₁).1 (lowerTo_ok h₂ lx₂ hr₂).1
        (lowerTo_ok h₁ ly₁ ht₁).1 (lowerTo_ok h₂ ly₂ ht₂).1 hr.1 ht.1).map fun u₁ u₂ hu => ?_
      exact ⟨hr.2.append hu.1, ht.2.append hu.2⟩

end TwoDatabases

/-! ## The main branch -/

/-- **`b` is on the path of previous-links from the block with this id.** -/
inductive Path (U : SignedBlock Tx → Prop) : BlockId → SignedBlock Tx → Prop where
  | tip {b : SignedBlock Tx} : U b → Path U b.id b
  | down {c b : SignedBlock Tx} : U c → Path U c.previous b → Path U c.id b

theorem Path.mem {id : BlockId} {b : SignedBlock Tx} (h : Path U id b) : U b := by
  induction h with
  | tip hb => exact hb
  | down _ _ ih => exact ih

theorem Path.trans {id : BlockId} {a b : SignedBlock Tx} (h₁ : Path U id a) (h₂ : Path U a.id b) :
    Path U id b := by
  induction h₁ with
  | tip _ => exact h₂
  | down hc _ ih => exact .down hc (ih h₂)

/-- The walk down the parent pointers stays on the path, and stops at the height it was given. -/
theorem walkDown_path (h : Linked U f) {num n : Nat} {x y : ForkItem Tx} (hx : x ∈ f.live)
    (hn : num ≤ x.num) (hr : walkDown f num n (some x) = some y) :
    y ∈ f.live ∧ y.num = num ∧ Path U x.id y.data := by
  induction n generalizing x with
  | zero => exact absurd hr (by simp [walkDown])
  | succ n ih =>
      unfold walkDown at hr
      split at hr
      · next hlt =>
          cases hp : f.lock x.prev with
          | none =>
              rw [hp] at hr
              cases n <;> exact absurd hr (by simp [walkDown])
          | some p =>
              rw [hp] at hr
              have hnum := h.lock_num hx hp (by omega)
              obtain ⟨hy, hyn, hpath⟩ := ih (lock_mem hp).1 (by omega) hr
              rw [h.lock_id hx hp] at hpath
              exact ⟨hy, hyn, .down (h.data x hx) hpath⟩
      · next hle =>
          obtain rfl := Option.some.inj hr
          exact ⟨hx, by omega, .tip (h.data _ hx)⟩

theorem walkMainBranchToNum_path (h : Linked U f) {num : Nat} {y : ForkItem Tx}
    (hr : f.walkMainBranchToNum num = some y) :
    y ∈ f.live ∧ y.num = num ∧ ∃ t, f.head = some t ∧ Path U t.id y.data := by
  unfold walkMainBranchToNum at hr
  split at hr
  · exact absurd hr (by simp)
  · next t ht =>
      split at hr
      · exact absurd hr (by simp)
      · next hle =>
          obtain ⟨hy, hyn, hpath⟩ := walkDown_path h (mem_live_of_head ht) (by omega) hr
          exact ⟨hy, hyn, t, ht, hpath⟩

theorem mem_fetchBlockByNumber {num : Nat} {x : ForkItem Tx} :
    x ∈ f.fetchBlockByNumber num ↔ x ∈ f.index ∧ x.num = num := by
  simp [fetchBlockByNumber]

/-- **The lookup on the main branch**: the only linked block of that height, or one on the path of the
    fork database's own head. -/
theorem fetchBlockOnMainBranchByNumber_cases (h : Linked U f) {num : Nat} {x : ForkItem Tx}
    (hr : f.fetchBlockOnMainBranchByNumber num = some x) :
    x ∈ f.live ∧ x.num = num ∧
      ((x ∈ f.index ∧ ∀ y ∈ f.index, y.num = num → y = x) ∨
        (1 < (f.fetchBlockByNumber num).length ∧ ∃ t, f.head = some t ∧ Path U t.id x.data)) := by
  unfold fetchBlockOnMainBranchByNumber at hr
  split at hr
  · exact absurd hr (by simp)
  · next y hl =>
      obtain rfl := Option.some.inj hr
      have hmem := mem_fetchBlockByNumber.mp (hl ▸ List.mem_singleton.mpr rfl : y ∈ f.fetchBlockByNumber num)
      refine ⟨mem_live_of_index hmem.1, hmem.2, .inl ⟨hmem.1, ?_⟩⟩
      intro z hz hzn
      have : z ∈ f.fetchBlockByNumber num := mem_fetchBlockByNumber.mpr ⟨hz, hzn⟩
      rw [hl] at this
      exact List.mem_singleton.mp this
  · next hne hone =>
      obtain ⟨hy, hyn, ht⟩ := walkMainBranchToNum_path h hr
      refine ⟨hy, hyn, .inr ⟨?_, ht⟩⟩
      match hl : f.fetchBlockByNumber num with
      | []          => exact absurd hl hne
      | [y]         => exact absurd hl (hone y)
      | _ :: _ :: _ => simp

end ForkDatabase

end VizNode
