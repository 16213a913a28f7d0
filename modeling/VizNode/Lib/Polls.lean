import VizNode.Lib.Table

/-!
# `VizNode.Lib.Polls` — weighted votes that are counted by differences

A voter has one weight and gives it to each candidate it votes for. The votes of a candidate should be the sum of the
weights of its voters; a poll that keeps this number only adds and takes off differences, and it stops at zero.

**Where a difference stops at zero, something is lost.** As long as no voter comes to weigh less than nothing, and
whoever leaves weighs nothing any more, the votes are the sum.

## Contents
- **Polls.** `Poll`, `tally`, `Exact`.
- **Changes.** `put`, `shift`, `leave` and `recast`, and what each needs to stay exact.
- **Sound polls.** `Sound`: votes that are sums of weights, none of them negative.
- **Many changes.** `effect`, and when a voter `Bears` it.
-/

/-- **A poll**: the weight of a voter, whom it votes for, and the votes of a candidate. -/
structure Poll (α β : Type) where
  weight : α → Int
  casts  : α → β → Bool
  votes  : β → Int

namespace Poll

variable {α β : Type} [DecidableEq α] {p q : Poll α β} {voters : List α} {cands : List β} {a b : α} {v : β} {x w : Int}

/-! ## Polls -/

/-- What a voter gives to a candidate. -/
def part (p : Poll α β) (a : α) (v : β) : Int := if p.casts a v then p.weight a else 0

/-- The sum of the weights of the voters of a candidate. -/
def tally (p : Poll α β) (voters : List α) (v : β) : Int := (voters.map (fun a => p.part a v)).sum

/-- **The votes are the sums.** -/
def Exact (p : Poll α β) (voters : List α) (cands : List β) : Prop := ∀ v ∈ cands, p.votes v = p.tally voters v

omit [DecidableEq α] in
/-- **One voter changes**, and the votes change by the difference of its parts. -/
theorem Exact.change (h : p.Exact voters cands) (hnodup : voters.Nodup) (ha : a ∈ voters)
    (hother : ∀ b, b ≠ a → ∀ v, q.part b v = p.part b v)
    (hvotes : ∀ v ∈ cands, q.votes v = p.votes v + (q.part a v - p.part a v)) : q.Exact voters cands := by
  intro v hv
  have hsum := Table.sum_map_update (g := fun b => p.part b v) (h := fun b => q.part b v) hnodup ha
    (fun b _ hb => hother b hb v)
  rw [hvotes v hv, h v hv]
  exact hsum.symm

/-! ## Changes -/

/-- So much more for everybody that a voter votes for; votes stop at zero. -/
def put (p : Poll α β) (a : α) (x : Int) : Poll α β :=
  { p with votes := fun v => if p.casts a v then max (p.votes v + x) 0 else p.votes v }

/-- The weight of a voter is set. -/
def weigh (p : Poll α β) (a : α) (w : Int) : Poll α β := { p with weight := Function.update p.weight a w }

/-- The candidates of a voter are set. -/
def choose (p : Poll α β) (a : α) (c : β → Bool) : Poll α β := { p with casts := Function.update p.casts a c }

/-- **A voter's weight changes**, and the votes with it. -/
def shift (p : Poll α β) (a : α) (x : Int) : Poll α β := (p.put a x).weigh a (p.weight a + x)

/-- **A voter leaves.** -/
def leave (p : Poll α β) (a : α) : Poll α β := (p.choose a (fun _ => false)).weigh a 0

/-- **A voter votes anew**: its weight is taken off, and the new weight is put on the new candidates. -/
def recast (p : Poll α β) (a : α) (c : β → Bool) (w : Int) : Poll α β :=
  (((p.put a (-p.weight a)).choose a c).weigh a w).put a w

theorem part_of_ne (hb : b ≠ a) {c : β → Bool} : ((p.choose a c).weigh a w).part b v = p.part b v := by
  simp only [part, choose, weigh, Function.update_of_ne hb]

theorem part_self {c : β → Bool} : ((p.choose a c).weigh a w).part a v = if c v then w else 0 := by
  simp only [part, choose, weigh, Function.update_self]

theorem shift_votes : (p.shift a x).votes v = if p.casts a v then max (p.votes v + x) 0 else p.votes v := rfl

theorem shift_part_self : (p.shift a x).part a v = if p.casts a v then p.weight a + x else 0 := by
  unfold part shift put weigh
  dsimp only
  rw [Function.update_self]

theorem shift_part_of_ne (hb : b ≠ a) : (p.shift a x).part b v = p.part b v := by
  unfold part shift put weigh
  dsimp only
  rw [Function.update_of_ne hb]

/-- A shift that does not stop at zero is exact. -/
theorem Exact.shift (h : p.Exact voters cands) (hnodup : voters.Nodup) (ha : a ∈ voters)
    (hroom : ∀ v ∈ cands, p.casts a v → 0 ≤ p.votes v + x) : (p.shift a x).Exact voters cands := by
  refine h.change hnodup ha (fun b hb v => shift_part_of_ne hb) fun v hv => ?_
  rw [shift_votes, shift_part_self]
  unfold part
  by_cases hc : p.casts a v = true
  · rw [if_pos hc, if_pos hc, if_pos hc, max_eq_left (hroom v hv hc)]
    omega
  · rw [if_neg hc, if_neg hc, if_neg hc]
    omega

/-- Whoever weighs nothing may leave. -/
theorem Exact.leave (h : p.Exact voters cands) (hnodup : voters.Nodup) (ha : a ∈ voters) (hnone : p.weight a = 0) :
    (p.leave a).Exact voters cands := by
  refine h.change hnodup ha (fun b hb v => part_of_ne hb) fun v _ => ?_
  unfold Poll.leave
  rw [part_self]
  show p.votes v = _
  unfold part
  rw [hnone]
  simp

/-- A new vote is exact if neither change stops at zero. -/
theorem Exact.recast {c : β → Bool} (h : p.Exact voters cands) (hnodup : voters.Nodup) (ha : a ∈ voters)
    (hoff : ∀ v ∈ cands, p.part a v ≤ p.votes v) (hw : 0 ≤ w) : (p.recast a c w).Exact voters cands := by
  have hpart : ∀ b v, (p.recast a c w).part b v = (((p.put a (-p.weight a)).choose a c).weigh a w).part b v :=
    fun _ _ => rfl
  refine h.change hnodup ha (fun b hb v => ?_) fun v hv => ?_
  · rw [hpart, part_of_ne hb]
    rfl
  · have hself : (((p.put a (-p.weight a)).choose a c).weigh a w).casts a v = c v := by
      show Function.update p.casts a c a v = c v
      rw [Function.update_self]
    have hle := hoff v hv
    have hmid : (if p.casts a v then max (p.votes v + -p.weight a) 0 else p.votes v) = p.votes v - p.part a v := by
      unfold part at hle ⊢
      by_cases hc : p.casts a v = true
      · rw [if_pos hc] at hle
        rw [if_pos hc, if_pos hc]
        omega
      · rw [if_neg hc, if_neg hc, Int.sub_zero]
    rw [hpart, part_self]
    show (if (((p.put a (-p.weight a)).choose a c).weigh a w).casts a v then
      max ((if p.casts a v then max (p.votes v + -p.weight a) 0 else p.votes v) + w) 0
      else (if p.casts a v then max (p.votes v + -p.weight a) 0 else p.votes v)) = _
    rw [hself, hmid]
    by_cases hc : c v = true
    · rw [if_pos hc, if_pos hc]
      omega
    · rw [if_neg hc, if_neg hc]
      omega

/-! ## Sound polls -/

/-- **A sound poll**: the votes are the sums, and nobody weighs less than nothing. -/
structure Sound (p : Poll α β) (voters : List α) (cands : List β) : Prop where
  exact  : p.Exact voters cands
  weighs : ∀ a ∈ voters, 0 ≤ p.weight a

omit [DecidableEq α] in
theorem Sound.part_nonneg (h : p.Sound voters cands) (ha : a ∈ voters) : 0 ≤ p.part a v := by
  unfold part
  split
  · exact h.weighs a ha
  · exact le_rfl

omit [DecidableEq α] in
/-- **No voter gives a candidate more than the candidate has.** -/
theorem Sound.part_le (h : p.Sound voters cands) (ha : a ∈ voters) (hv : v ∈ cands) : p.part a v ≤ p.votes v := by
  rw [h.exact v hv]
  refine List.single_le_sum ?_ _ (List.mem_map.mpr ⟨a, ha, rfl⟩)
  intro y hy
  obtain ⟨b, hb, rfl⟩ := List.mem_map.mp hy
  exact h.part_nonneg hb

/-- A shift that leaves the voter some weight. -/
theorem Sound.shift (h : p.Sound voters cands) (hnodup : voters.Nodup) (ha : a ∈ voters) (hx : 0 ≤ p.weight a + x) :
    (p.shift a x).Sound voters cands where
  exact  := by
    refine h.exact.shift hnodup ha fun v hv hc => ?_
    -- the others give the rest of the votes
    have hle := h.part_le ha hv
    unfold part at hle
    rw [if_pos hc] at hle
    omega
  weighs := by
    intro b hb
    show 0 ≤ Function.update p.weight a (p.weight a + x) b
    by_cases he : b = a
    · rw [he, Function.update_self]
      exact hx
    · rw [Function.update_of_ne he]
      exact h.weighs b hb

theorem Sound.leave (h : p.Sound voters cands) (hnodup : voters.Nodup) (ha : a ∈ voters) (hnone : p.weight a = 0) :
    (p.leave a).Sound voters cands where
  exact  := h.exact.leave hnodup ha hnone
  weighs := by
    intro b hb
    show 0 ≤ Function.update p.weight a 0 b
    by_cases he : b = a
    · rw [he, Function.update_self]
    · rw [Function.update_of_ne he]
      exact h.weighs b hb

theorem Sound.recast {c : β → Bool} (h : p.Sound voters cands) (hnodup : voters.Nodup) (ha : a ∈ voters) (hw : 0 ≤ w) :
    (p.recast a c w).Sound voters cands where
  exact  := h.exact.recast hnodup ha (fun _ hv => h.part_le ha hv) hw
  weighs := by
    intro b hb
    show 0 ≤ Function.update p.weight a w b
    by_cases he : b = a
    · rw [he, Function.update_self]
      exact hw
    · rw [Function.update_of_ne he]
      exact h.weighs b hb

/-! ## Many changes -/

/-- A shift, or nothing. -/
def effect (p : Poll α β) : Option (α × Int) → Poll α β
  | none   => p
  | some e => p.shift e.1 e.2

/-- The voter at whom a change arrives can bear it. -/
def Bears (p : Poll α β) : Option (α × Int) → Prop
  | none   => True
  | some e => 0 ≤ p.weight e.1 + e.2

instance : ∀ e, Decidable (p.Bears e)
  | none   => .isTrue trivial
  | some e => inferInstanceAs (Decidable (0 ≤ p.weight e.1 + e.2))

variable {e : Option (α × Int)} {es : List (Option (α × Int))}

@[simp] theorem effect_casts : (p.effect e).casts = p.casts := by
  cases e with
  | none => rfl
  | some e => rfl

theorem foldl_effect_casts : (es.foldl effect p).casts = p.casts := by
  induction es generalizing p with
  | nil => rfl
  | cons e es ih => exact ih.trans effect_casts

theorem Sound.effect (h : p.Sound voters cands) (hnodup : voters.Nodup) (hmem : ∀ t, e = some t → t.1 ∈ voters)
    (hbears : p.Bears e) : (p.effect e).Sound voters cands := by
  cases e with
  | none => exact h
  | some t => exact h.shift hnodup (hmem t rfl) hbears

/-- Changes that add something make everybody bear more. -/
theorem weight_le_effects (hadd : ∀ t, some t ∈ es → 0 ≤ t.2) : p.weight a ≤ (es.foldl Poll.effect p).weight a := by
  induction es generalizing p with
  | nil => exact le_rfl
  | cons e es ih =>
      refine le_trans ?_ (ih (p := p.effect e) fun t ht => hadd t (List.mem_cons_of_mem _ ht))
      cases e with
      | none => exact le_rfl
      | some t =>
          have hpos := hadd t List.mem_cons_self
          show _ ≤ Function.update p.weight t.1 (p.weight t.1 + t.2) a
          by_cases he : a = t.1
          · rw [he, Function.update_self]
            omega
          · rw [Function.update_of_ne he]

/-- **Changes that add something are always sound.** -/
theorem Sound.effects (h : p.Sound voters cands) (hnodup : voters.Nodup) (hmem : ∀ t, some t ∈ es → t.1 ∈ voters)
    (hadd : ∀ t, some t ∈ es → 0 ≤ t.2) : (es.foldl Poll.effect p).Sound voters cands := by
  induction es generalizing p with
  | nil => exact h
  | cons e es ih =>
      refine ih ?_ (fun t ht => hmem t (List.mem_cons_of_mem _ ht)) fun t ht => hadd t (List.mem_cons_of_mem _ ht)
      refine h.effect hnodup (fun t ht => hmem t (ht ▸ List.mem_cons_self)) ?_
      cases e with
      | none => exact trivial
      | some t =>
          have hw := h.weighs t.1 (hmem t List.mem_cons_self)
          have hpos := hadd t List.mem_cons_self
          show 0 ≤ p.weight t.1 + t.2
          omega

end Poll
