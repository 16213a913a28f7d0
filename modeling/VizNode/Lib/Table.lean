import Mathlib.Algebra.BigOperators.Group.List.Basic
import Mathlib.Algebra.Order.BigOperators.Group.List
import Mathlib.Algebra.Order.Ring.Int
import Mathlib.Data.List.Nodup
import Mathlib.Tactic.Common

/-!
# `VizNode.Lib.Table` — object tables

An object table keeps one row for each of its keys. The keys are a duplicate-free list in the order in which
the objects were created, so the table also says in which order a loop visits them.

**The row function is total.** Outside the keys its values mean nothing: `find` does not answer there, and
no sum reads them. In exchange a change of one row is a change of a function at a point.

## Contents
- **Operations.** `find`, `modify`, `insert`, `erase`, `mapRows`.
- **Frames.** `Same g t t'`: the two tables agree in what `g` reads of a row.
- **Sums.** `total g t`, the sum of `g` over the rows, with what each operation does to it.
-/

/-- **An object table**: the keys in order of creation, and a row for each. -/
structure Table (κ α : Type) where
  keys  : List κ
  row   : κ → α
  nodup : keys.Nodup

namespace Table

variable {κ α β : Type} [DecidableEq κ] {t : Table κ α} {j k : κ} {f : α → α} {x : α}

/-! ## Operations -/

/-- The table without rows. -/
def empty [Inhabited α] : Table κ α := ⟨[], fun _ => default, List.nodup_nil⟩

/-- The row of a key, if the key is there. -/
def find (t : Table κ α) (k : κ) : Option α := if k ∈ t.keys then some (t.row k) else none

/-- Change the row of one key. -/
def modify (t : Table κ α) (k : κ) (f : α → α) : Table κ α :=
  { t with row := fun j => if j = k then f (t.row k) else t.row j }

/-- A new row, for a key that is not there. -/
def insert (t : Table κ α) (k : κ) (x : α) : Table κ α :=
  if h : k ∈ t.keys then t
  else
    { keys  := t.keys ++ [k]
      row   := fun j => if j = k then x else t.row j
      nodup := by
        rw [List.nodup_append]
        refine ⟨t.nodup, List.nodup_singleton k, ?_⟩
        intro a ha b hb hab
        rw [List.mem_singleton.mp hb] at hab
        exact h (hab ▸ ha) }

/-- Remove the row of a key. -/
def erase (t : Table κ α) (k : κ) : Table κ α :=
  { t with keys := t.keys.erase k, nodup := t.nodup.erase k }

/-- A function of every row. -/
def mapRows (t : Table κ α) (g : α → β) : Table κ β := { t with row := fun k => g (t.row k) }

/-- A row that is gone when it is zero. -/
def setTo (t : Table κ Int) (k : κ) (n : Int) : Table κ Int :=
  if n = 0 then t.erase k else if k ∈ t.keys then t.modify k (fun _ => n) else t.insert k n

omit [DecidableEq κ] in
theorem ext_rows {t t' : Table κ α} (hk : t'.keys = t.keys) (hr : ∀ k, t'.row k = t.row k) : t' = t := by
  obtain ⟨keys, row, nodup⟩ := t
  obtain ⟨keys', row', nodup'⟩ := t'
  obtain rfl : keys' = keys := hk
  obtain rfl : row' = row := funext hr
  rfl

theorem find_eq_some {x : α} : t.find k = some x ↔ k ∈ t.keys ∧ t.row k = x := by
  unfold find
  by_cases h : k ∈ t.keys
  · rw [if_pos h]
    exact ⟨fun he => ⟨h, Option.some.inj he⟩, fun he => congrArg some he.2⟩
  · rw [if_neg h]
    exact ⟨fun he => absurd he (by simp), fun he => absurd he.1 h⟩

theorem find_eq_none : t.find k = none ↔ k ∉ t.keys := by
  unfold find
  by_cases h : k ∈ t.keys
  · rw [if_pos h]
    exact ⟨fun he => absurd he (by simp), fun he => absurd h he⟩
  · rw [if_neg h]
    exact ⟨fun _ => h, fun _ => rfl⟩

@[simp] theorem modify_keys : (t.modify k f).keys = t.keys := rfl

@[simp] theorem modify_row_self : (t.modify k f).row k = f (t.row k) := if_pos rfl

theorem modify_row : (t.modify k f).row j = if j = k then f (t.row k) else t.row j := rfl

theorem modify_row_of_ne (h : j ≠ k) : (t.modify k f).row j = t.row j := if_neg h

@[simp] theorem erase_row : (t.erase k).row = t.row := rfl

theorem mem_erase_keys : j ∈ (t.erase k).keys ↔ j ≠ k ∧ j ∈ t.keys := t.nodup.mem_erase_iff

theorem mem_keys_of_mem_foldl_erase {l : List κ} (h : j ∈ (l.foldl erase t).keys) : j ∈ t.keys := by
  induction l generalizing t with
  | nil => exact h
  | cons x l ih => exact (mem_erase_keys.mp (ih h)).2

@[simp] theorem foldl_erase_row {l : List κ} : (l.foldl erase t).row = t.row := by
  induction l generalizing t with
  | nil => rfl
  | cons x l ih => exact ih

/-- A row that is not among those that are removed stays. -/
theorem mem_foldl_erase_keys {l : List κ} (hj : j ∈ t.keys) (hl : j ∉ l) : j ∈ (l.foldl erase t).keys := by
  induction l generalizing t with
  | nil => exact hj
  | cons x l ih =>
      refine ih (mem_erase_keys.mpr ⟨fun he => hl (he ▸ List.mem_cons_self), hj⟩) fun hmem => hl ?_
      exact List.mem_cons_of_mem x hmem

/-- Every row is removed. -/
theorem foldl_erase_keys (t : Table κ α) : (t.keys.foldl erase t).keys = [] := by
  have hgone : ∀ (l : List κ) (t : Table κ α), ∀ j ∈ (l.foldl erase t).keys, j ∉ l := by
    intro l
    induction l with
    | nil => exact fun _ _ _ => List.not_mem_nil
    | cons k l ih =>
        intro t j hj hmem
        rcases List.mem_cons.mp hmem with rfl | hmem
        · exact (mem_erase_keys.mp (mem_keys_of_mem_foldl_erase hj)).1 rfl
        · exact ih _ j hj hmem
  apply List.eq_nil_iff_forall_not_mem.mpr
  intro j hj
  exact hgone t.keys t j hj (mem_keys_of_mem_foldl_erase hj)

theorem insert_keys (h : k ∉ t.keys) : (t.insert k x).keys = t.keys ++ [k] := by
  unfold insert
  rw [dif_neg h]

theorem insert_row (h : k ∉ t.keys) : (t.insert k x).row j = if j = k then x else t.row j := by
  unfold insert
  rw [dif_neg h]

theorem insert_row_self (h : k ∉ t.keys) : (t.insert k x).row k = x := by rw [insert_row h, if_pos rfl]

theorem insert_row_of_mem (h : k ∉ t.keys) (hj : j ∈ t.keys) : (t.insert k x).row j = t.row j := by
  rw [insert_row h, if_neg]
  rintro rfl
  exact h hj

theorem insert_row_of_ne (hj : j ≠ k) : (t.insert k x).row j = t.row j := by
  by_cases h : k ∈ t.keys
  · unfold insert
    rw [dif_pos h]
  · rw [insert_row h, if_neg hj]

theorem mem_insert_keys (h : k ∉ t.keys) : j ∈ (t.insert k x).keys ↔ j ∈ t.keys ∨ j = k := by
  rw [insert_keys h, List.mem_append, List.mem_singleton]

theorem find_modify_self (h : k ∈ t.keys) : (t.modify k f).find k = some (f (t.row k)) :=
  find_eq_some.mpr ⟨h, modify_row_self⟩

theorem find_modify_of_ne (h : j ≠ k) : (t.modify k f).find j = t.find j := by
  unfold find
  rw [modify_keys, modify_row_of_ne h]

theorem find_insert_self (h : k ∉ t.keys) : (t.insert k x).find k = some x :=
  find_eq_some.mpr ⟨(mem_insert_keys h).mpr (.inr rfl), insert_row_self h⟩

theorem find_insert_of_ne (h : k ∉ t.keys) (hj : j ≠ k) : (t.insert k x).find j = t.find j := by
  have hmem : j ∈ (t.insert k x).keys ↔ j ∈ t.keys :=
    (mem_insert_keys h).trans ⟨fun hm => hm.resolve_right hj, .inl⟩
  unfold find
  rw [insert_row_of_ne hj]
  by_cases hm : j ∈ t.keys
  · rw [if_pos (hmem.mpr hm), if_pos hm]
  · rw [if_neg (fun he => hm (hmem.mp he)), if_neg hm]

theorem find_erase_self : (t.erase k).find k = none :=
  find_eq_none.mpr (fun h => (mem_erase_keys.mp h).1 rfl)

theorem find_erase_of_ne (hj : j ≠ k) : (t.erase k).find j = t.find j := by
  have hmem : j ∈ (t.erase k).keys ↔ j ∈ t.keys := mem_erase_keys.trans ⟨fun h => h.2, fun h => ⟨hj, h⟩⟩
  unfold find
  rw [erase_row]
  by_cases hm : j ∈ t.keys
  · rw [if_pos (hmem.mpr hm), if_pos hm]
  · rw [if_neg (fun he => hm (hmem.mp he)), if_neg hm]

/-- A change that changes nothing. -/
theorem modify_eq_self (h : f (t.row k) = t.row k) : t.modify k f = t := by
  have hkeys : (t.modify k f).keys = t.keys := rfl
  apply ext_rows hkeys
  intro j
  by_cases hj : j = k
  · rw [hj, modify_row_self, h]
  · rw [modify_row_of_ne hj]

/-- Two changes of one row. -/
theorem modify_modify {g : α → α} : (t.modify k f).modify k g = t.modify k (fun y => g (f y)) := by
  refine ext_rows rfl ?_
  intro j
  by_cases hj : j = k
  · rw [hj, modify_row_self, modify_row_self, modify_row_self]
  · rw [modify_row_of_ne hj, modify_row_of_ne hj, modify_row_of_ne hj]

/-- A change of the new row. -/
theorem insert_modify (h : k ∉ t.keys) : (t.insert k x).modify k f = t.insert k (f x) := by
  refine ext_rows (by rw [modify_keys, insert_keys h, insert_keys h]) ?_
  intro j
  by_cases hj : j = k
  · rw [hj, modify_row_self, insert_row_self h, insert_row_self h]
  · rw [modify_row_of_ne hj, insert_row_of_ne hj, insert_row_of_ne hj]

/-- A change of another row than the new one. -/
theorem insert_modify_of_ne (h : k ∉ t.keys) (hj : j ≠ k) :
    (t.insert k x).modify j f = (t.modify j f).insert k x := by
  have h' : k ∉ (t.modify j f).keys := h
  refine ext_rows (by rw [modify_keys, insert_keys h, insert_keys h', modify_keys]) ?_
  intro i
  by_cases hi : i = k
  · rw [hi, modify_row_of_ne (Ne.symm hj), insert_row_self h, insert_row_self h']
  · rw [insert_row_of_ne hi]
    by_cases hij : i = j
    · rw [hij, modify_row_self, modify_row_self, insert_row_of_ne hj]
    · rw [modify_row_of_ne hij, modify_row_of_ne hij, insert_row_of_ne hi]

omit [DecidableEq κ] in
@[simp] theorem mapRows_keys {g : α → β} : (t.mapRows g).keys = t.keys := rfl

omit [DecidableEq κ] in
@[simp] theorem mapRows_row {g : α → β} : (t.mapRows g).row k = g (t.row k) := rfl

/-- A change that a function of the rows does not see. -/
theorem mapRows_modify {g : α → β} (h : g (f (t.row k)) = g (t.row k)) :
    (t.modify k f).mapRows g = t.mapRows g := by
  unfold mapRows modify
  congr 1
  funext j
  dsimp only
  by_cases hj : j = k
  · rw [if_pos hj, h, hj]
  · rw [if_neg hj]

/-- A change that a function of the rows sees as another change. -/
theorem mapRows_modify_of {g : α → β} {e : β → β} (h : g (f (t.row k)) = e (g (t.row k))) :
    (t.modify k f).mapRows g = (t.mapRows g).modify k e := by
  unfold mapRows modify
  congr 1
  funext j
  dsimp only
  by_cases hj : j = k
  · rw [if_pos hj, if_pos hj, h]
  · rw [if_neg hj, if_neg hj]

theorem mapRows_insert {g : α → β} : (t.insert k x).mapRows g = (t.mapRows g).insert k (g x) := by
  unfold insert mapRows
  by_cases hk : k ∈ t.keys
  · rw [dif_pos hk, dif_pos hk]
  · rw [dif_neg hk, dif_neg hk]
    congr 1
    funext j
    dsimp only
    by_cases hj : j = k
    · rw [if_pos hj, if_pos hj]
    · rw [if_neg hj, if_neg hj]

theorem mapRows_find {g : α → β} : (t.mapRows g).find k = (t.find k).map g := by
  unfold find mapRows
  by_cases hk : k ∈ t.keys
  · rw [if_pos hk, if_pos hk]
    rfl
  · rw [if_neg hk, if_neg hk]
    rfl

/-- A property of every row survives a change of one row. -/
theorem forall_modify {P : κ → α → Prop} (h : ∀ j ∈ t.keys, P j (t.row j))
    (hk : k ∈ t.keys → P k (f (t.row k))) : ∀ j ∈ (t.modify k f).keys, P j ((t.modify k f).row j) := by
  intro j hj
  by_cases hjk : j = k
  · rw [hjk, modify_row_self]
    exact hk (hjk ▸ hj)
  · rw [modify_row_of_ne hjk]
    exact h j hj

/-- A property of every row survives a new row that has it. -/
theorem forall_insert {P : κ → α → Prop} (h : ∀ j ∈ t.keys, P j (t.row j)) (hx : P k x) :
    ∀ j ∈ (t.insert k x).keys, P j ((t.insert k x).row j) := by
  intro j hj
  by_cases hk : k ∈ t.keys
  · unfold insert at hj ⊢
    rw [dif_pos hk] at hj ⊢
    exact h j hj
  · rw [insert_row hk]
    by_cases hjk : j = k
    · rw [if_pos hjk, hjk]
      exact hx
    · rw [if_neg hjk]
      rcases (mem_insert_keys hk).mp hj with hj | hj
      · exact h j hj
      · exact absurd hj hjk

/-! ## Frames -/

/-- **The same rows, as far as `g` reads them.** -/
structure Same (g : α → β) (t t' : Table κ α) : Prop where
  keys : t'.keys = t.keys
  row  : ∀ k ∈ t.keys, g (t'.row k) = g (t.row k)

section Same

variable {g : α → β} {t₁ t₂ t₃ : Table κ α}

omit [DecidableEq κ] in
theorem Same.refl : Same g t t := ⟨rfl, fun _ _ => rfl⟩

omit [DecidableEq κ] in
theorem Same.trans (h : Same g t₁ t₂) (h' : Same g t₂ t₃) : Same g t₁ t₃ :=
  ⟨h'.keys.trans h.keys, fun k hk => (h'.row k (h.keys ▸ hk)).trans (h.row k hk)⟩

/-- A change that `g` does not read. -/
theorem Same.modify (h : g (f (t.row k)) = g (t.row k)) : Same g t (t.modify k f) := by
  refine ⟨rfl, ?_⟩
  intro j _
  by_cases hj : j = k
  · rw [hj, modify_row_self, h]
  · rw [modify_row_of_ne hj]

/-- A change of a row that is not there. -/
theorem Same.modify_of_not_mem (hk : k ∉ t.keys) : Same g t (t.modify k f) := by
  refine ⟨rfl, ?_⟩
  intro j hj
  rw [modify_row_of_ne (fun he : j = k => hk (he ▸ hj))]

end Same

/-- What one change does to a part of a row that is a number. -/
theorem modify_part {p : α → Int} {x : Int} (h : p (f (t.row k)) = p (t.row k) + x) :
    p ((t.modify k f).row j) = p (t.row j) + if j = k then x else 0 := by
  by_cases hj : j = k
  · rw [hj, modify_row_self, h, if_pos rfl]
  · rw [modify_row_of_ne hj, if_neg hj, add_zero]

/-- What one change does not do to a part of a row. -/
theorem modify_same {p : α → β} (h : p (f (t.row k)) = p (t.row k)) :
    p ((t.modify k f).row j) = p (t.row j) := by
  by_cases hj : j = k
  · rw [hj, modify_row_self, h]
  · rw [modify_row_of_ne hj]

/-! ## Sums -/

/-- **The sum of `g` over the rows.** -/
def total (g : κ → α → Int) (t : Table κ α) : Int := (t.keys.map (fun k => g k (t.row k))).sum

omit [DecidableEq κ] in
theorem sum_map_update {g h : κ → Int} {l : List κ} (hl : l.Nodup) (hk : k ∈ l)
    (hne : ∀ j ∈ l, j ≠ k → h j = g j) : (l.map h).sum = (l.map g).sum + (h k - g k) := by
  induction l with
  | nil => exact absurd hk (by simp)
  | cons a l ih =>
      rw [List.map_cons, List.map_cons, List.sum_cons, List.sum_cons]
      obtain ⟨ha, hl'⟩ := List.nodup_cons.mp hl
      rcases List.mem_cons.mp hk with rfl | hk'
      · -- the changed key is the first one, and it does not come back
        have hrest : l.map h = l.map g := by
          apply List.map_congr_left
          intro j hj
          apply hne j (List.mem_cons_of_mem _ hj)
          rintro rfl
          exact ha hj
        rw [hrest]
        omega
      · have hak : a ≠ k := by
          rintro rfl
          exact ha hk'
        rw [hne a List.mem_cons_self hak,
          ih hl' hk' (fun j hj => hne j (List.mem_cons_of_mem _ hj))]
        omega

omit [DecidableEq κ] in
theorem total_congr {t' : Table κ α} {g g' : κ → α → Int} (hk : t'.keys = t.keys)
    (hg : ∀ k ∈ t.keys, g' k (t'.row k) = g k (t.row k)) : total g' t' = total g t := by
  unfold total
  rw [hk]
  exact congrArg List.sum (List.map_congr_left hg)

omit [DecidableEq κ] in
/-- The sum over tables that agree in what it reads. -/
theorem Same.total {t' : Table κ α} {p : α → β} (h : Same p t t') {g : κ → β → Int} :
    Table.total (fun k x => g k (p x)) t' = Table.total (fun k x => g k (p x)) t :=
  total_congr h.keys (fun k hk => by rw [h.row k hk])

/-- **A changed row** changes the sum by the difference. -/
theorem total_modify {g : κ → α → Int} (hk : k ∈ t.keys) :
    total g (t.modify k f) = total g t + (g k (f (t.row k)) - g k (t.row k)) := by
  unfold total
  rw [modify_keys, sum_map_update t.nodup hk (fun j _ hj => by rw [modify_row_of_ne hj]), modify_row_self]

/-- A change that the sum does not see. -/
theorem total_modify_same {g : κ → α → Int} (h : g k (f (t.row k)) = g k (t.row k)) :
    total g (t.modify k f) = total g t := by
  refine total_congr modify_keys ?_
  intro j _
  by_cases hj : j = k
  · rw [hj, modify_row_self, h]
  · rw [modify_row_of_ne hj]

/-- **A new row** adds to the sum. -/
theorem total_insert {g : κ → α → Int} (hk : k ∉ t.keys) :
    total g (t.insert k x) = total g t + g k x := by
  unfold total
  rw [insert_keys hk, List.map_append, List.sum_append]
  congr 1
  · apply congrArg List.sum
    apply List.map_congr_left
    intro j hj
    rw [insert_row_of_mem hk hj]
  · rw [List.map_singleton, List.sum_singleton, insert_row_self hk]

/-- **A removed row** leaves the sum. -/
theorem total_erase {g : κ → α → Int} (hk : k ∈ t.keys) :
    total g (t.erase k) = total g t - g k (t.row k) := by
  have hperm := List.perm_cons_erase hk
  unfold total
  rw [(hperm.map (fun k => g k (t.row k))).sum_eq, List.map_cons, List.sum_cons]
  show _ = g k (t.row k) + _ - g k (t.row k)
  rw [add_sub_cancel_left]
  rfl

/-- Rows that count for nothing can go. -/
theorem total_foldl_erase {g : κ → α → Int} {l : List κ} (h : ∀ k ∈ l, g k (t.row k) = 0) :
    total g (l.foldl erase t) = total g t := by
  induction l generalizing t with
  | nil => rfl
  | cons x l ih =>
      rw [List.foldl_cons, ih (t := t.erase x) (fun k hk => h k (List.mem_cons_of_mem x hk))]
      by_cases hx : x ∈ t.keys
      · rw [total_erase hx, h x List.mem_cons_self, sub_zero]
      · exact total_congr (List.erase_of_not_mem hx) (fun _ _ => rfl)

/-- **A row set to a number** counts for the difference, where it counts. -/
theorem total_setTo {t : Table κ Int} {n : Int} {p : κ → Prop} [DecidablePred p] :
    total (fun k x => if p k then x else 0) (t.setTo k n) =
      total (fun k x => if p k then x else 0) t + if p k then n - (t.find k).getD 0 else 0 := by
  unfold setTo
  by_cases hk : k ∈ t.keys
  · have hfind : (t.find k).getD 0 = t.row k := by
      rw [find_eq_some.mpr ⟨hk, rfl⟩]
      rfl
    rw [hfind]
    by_cases hn : n = 0
    · rw [if_pos hn, total_erase hk]
      by_cases hp : p k
      · rw [if_pos hp, if_pos hp]
        omega
      · rw [if_neg hp, if_neg hp]
        omega
    · rw [if_neg hn, if_pos hk, total_modify hk]
      by_cases hp : p k
      · rw [if_pos hp, if_pos hp, if_pos hp]
      · rw [if_neg hp, if_neg hp, if_neg hp, sub_self]
  · have hfind : (t.find k).getD 0 = 0 := by
      rw [find_eq_none.mpr hk]
      rfl
    rw [hfind, sub_zero]
    by_cases hn : n = 0
    · -- nothing to remove
      have herase : t.erase k = t := by
        unfold erase
        congr 1
        exact List.erase_of_not_mem hk
      rw [if_pos hn, herase, hn, ite_self, add_zero]
    · rw [if_neg hn, if_neg hk, total_insert hk]

/-- The keys of a table with a row set. -/
theorem mem_setTo_keys {t : Table κ Int} {n : Int} (h : j ∈ (t.setTo k n).keys) : j ∈ t.keys ∨ j = k := by
  unfold setTo at h
  by_cases hn : n = 0
  · rw [if_pos hn] at h
    exact .inl (mem_erase_keys.mp h).2
  · rw [if_neg hn] at h
    by_cases hk : k ∈ t.keys
    · rw [if_pos hk] at h
      exact .inl h
    · rw [if_neg hk] at h
      exact (mem_insert_keys hk).mp h

omit [DecidableEq κ] in
theorem total_mapRows {h : α → β} {g : κ → β → Int} :
    total g (t.mapRows h) = total (fun k x => g k (h x)) t := rfl

omit [DecidableEq κ] in
theorem total_nonneg {g : κ → α → Int} (h : ∀ k ∈ t.keys, 0 ≤ g k (t.row k)) : 0 ≤ total g t := by
  apply List.sum_nonneg
  intro x hx
  obtain ⟨k, hk, rfl⟩ := List.mem_map.mp hx
  exact h k hk

/-- One row is at most the sum of all, when none is negative. -/
theorem le_total {g : κ → α → Int} (h : ∀ k ∈ t.keys, 0 ≤ g k (t.row k)) (hk : k ∈ t.keys) :
    g k (t.row k) ≤ total g t := by
  have hrest := total_nonneg (t := t.erase k) (g := g)
    (fun j hj => h j (mem_erase_keys.mp hj).2)
  rw [total_erase hk] at hrest
  omega

omit [DecidableEq κ] in
/-- Rows that are all zero. -/
theorem total_eq_zero {g : κ → α → Int} (h : ∀ k ∈ t.keys, g k (t.row k) = 0) : total g t = 0 := by
  apply List.sum_eq_zero
  intro x hx
  obtain ⟨k, hk, rfl⟩ := List.mem_map.mp hx
  exact h k hk

omit [DecidableEq κ] in
theorem total_add {g h : κ → α → Int} : total (fun k x => g k x + h k x) t = total g t + total h t := by
  unfold total
  exact List.sum_map_add

end Table
