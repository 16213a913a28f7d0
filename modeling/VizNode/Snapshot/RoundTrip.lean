import VizNode.Snapshot.Objects

/-!
# `VizNode.Snapshot.RoundTrip` — does a snapshot give back the state it was made of?

Export and import agree on the members of every type but one. **An account has three members that are not exported**,
so they are zero on the node that imports the snapshot. One of them is the weight with which the account votes for
validators.

The healing pass is meant for snapshots that lack the objects of a penalty. It cannot tell them from a state in which
a validator has a penalty that no object takes back, and the chain can be in such a state.

## Contents
- **One object.** `readObject_exported`: which members are read back.
- **One type.** `Restores`, `importTable_exported`.
- **All types**, the result and samples.
-/

namespace VizNode

namespace Snapshot

variable {Variant : Type} {C : Conversion Variant}

/-! ## One object -/

/-- The member a field is about. -/
def Field.member : Field → Member
  | required m | optional m | defaulted m => m

/-- The members that an importer reads. -/
def ObjectType.read (t : ObjectType) : List Member := t.imported.map Field.member

/-- Nothing is read that is not exported. -/
theorem read_exported (t : ObjectType) : ∀ m ∈ t.read, m ∈ t.exported := by
  cases t <;> decide +kernel

/-- **The members that are lost.** -/
def ObjectType.lost (t : ObjectType) : List Member := (t.slots.map Slot.member).filter fun m => decide (m ∉ t.read)

theorem lost_account : ObjectType.account.lost = [.receiverAwards, .benefactorAwards, .validatorsVoteWeight] := by
  decide +kernel

theorem lost_other {t : ObjectType} (h : t ≠ .account) : t.lost = [] := by
  cases t with
  | account => exact absurd rfl h
  | _ => decide +kernel

/-- A member of an object is read, or it is lost. -/
theorem read_or_lost {t : ObjectType} {m : Member} (hm : m ∈ t.slots.map Slot.member) :
    m ∈ t.read ∨ m ∈ t.lost := by
  by_cases h : m ∈ t.read
  · exact .inl h
  · exact .inr (List.mem_filter.mpr ⟨hm, decide_eq_true h⟩)

/-- A lost member starts as zero. -/
theorem initialRow_lost {m : Member} (hm : m ∈ ObjectType.account.lost) : initialRow .account m = .int 0 := by
  rw [lost_account] at hm
  simp only [List.mem_cons, List.not_mem_nil, or_false] at hm
  rcases hm with rfl | rfl | rfl <;> decide +kernel

theorem not_read_of_lost {t : ObjectType} {m : Member} (hm : m ∈ t.lost) : m ∉ t.read :=
  of_decide_eq_true (List.mem_filter.mp hm).2

/-- The row an import leaves: what is read, and else what was there. -/
def merged (ms : List Member) (row row₀ : Row) : Row := fun m => if m ∈ ms then row m else row₀ m

theorem merged_nil (row row₀ : Row) : merged [] row row₀ = row₀ := by
  funext m
  exact if_neg List.not_mem_nil

theorem merged_cons (m : Member) (ms : List Member) (row row₀ : Row) :
    merged ms row (Function.update row₀ m (row m)) = merged (m :: ms) row row₀ := by
  funext j
  unfold merged
  by_cases hj : j ∈ ms
  · rw [if_pos hj, if_pos (List.mem_cons_of_mem m hj)]
  · rw [if_neg hj]
    by_cases hm : j = m
    · subst hm
      rw [if_pos List.mem_cons_self, Function.update_self]
    · rw [if_neg (by simp [hm, hj]), Function.update_of_ne hm]

/-- What is exported of a row is found under its name. -/
theorem lookup_exported (ms : List Member) (row : Row) {m : Member} (hm : m ∈ ms) :
    (ms.map fun m => (m, C.toVariant (row m))).lookup m = some (C.toVariant (row m)) := by
  induction ms with
  | nil => exact absurd hm List.not_mem_nil
  | cons k ms ih =>
      rw [List.map_cons, List.lookup_cons]
      by_cases hk : m = k
      · subst hk
        simp
      · have hne : (m == k) = false := by simpa using hk
        rw [hne]
        exact ih ((List.mem_cons.mp hm).resolve_left hk)

/-- A field that is exported is read back, whatever would be done without it. -/
theorem readField_exported (ms : List Member) (row row₀ : Row) (f : Field) (hf : f.member ∈ ms) :
    readField C (ms.map fun m => (m, C.toVariant (row m))) row₀ f =
      .ok (Function.update row₀ f.member (row f.member)) := by
  have hset : ∀ m, setMember C row₀ m (C.toVariant (row m)) = .ok (Function.update row₀ m (row m)) := by
    intro m
    unfold setMember
    rw [C.inverse]
  cases f with
  | required m =>
      simp only [readField, lookup_exported ms row (show m ∈ ms from hf), hset, Field.member]
  | optional m =>
      simp only [readField, lookup_exported ms row (show m ∈ ms from hf), hset, Field.member]
  | defaulted m =>
      simp only [readField, lookup_exported ms row (show m ∈ ms from hf), hset, Field.member]

theorem readFields_exported (ms : List Member) (row : Row) (fs : List Field) (hfs : ∀ f ∈ fs, f.member ∈ ms)
    (row₀ : Row) :
    fs.foldlM (readField C (ms.map fun m => (m, C.toVariant (row m)))) row₀ =
      .ok (merged (fs.map Field.member) row row₀) := by
  induction fs generalizing row₀ with
  | nil =>
      rw [List.map_nil, merged_nil]
      rfl
  | cons f fs ih =>
      rw [List.foldlM_cons, readField_exported ms row row₀ f (hfs f List.mem_cons_self)]
      rw [List.map_cons, ← merged_cons]
      exact ih (fun g hg => hfs g (List.mem_cons_of_mem f hg)) _

/-- **The members that are read come back**, and the others are left alone. -/
theorem readObject_exported (t : ObjectType) (table : Table Nat Row) (id : Nat) (row₀ : Row) :
    readObject C t (exportObject C t table id) row₀ = .ok (merged t.read (table.row id) row₀) := by
  apply readFields_exported
  intro f hf
  exact read_exported t f.member (List.mem_map_of_mem hf)

/-! ## One type -/

/-- **A table is restored**: it has the same ids, and every row has the members that are read. What the others are
    depends on whether the object was created or was there. -/
structure Restores (t : ObjectType) (source result : Table Nat Row) : Prop where
  keys  : result.keys = source.keys
  read  : ∀ id ∈ source.keys, ∀ m ∈ t.read, result.row id m = source.row id m
  lost  : t.isSingleton = false → ∀ id ∈ source.keys, ∀ m ∉ t.read, result.row id m = initialRow t m

/-- Objects are created one after the other. -/
theorem importObjects_exported (t : ObjectType) (source : Table Nat Row) (ids : List Nat) (table : Table Nat Row)
    (hids : ids.Nodup) (hnew : ∀ id ∈ ids, id ∉ table.keys) :
    ∃ result, (ids.map (exportObject C t source)).foldlM (importObject C t) table = .ok result ∧
      result.keys = table.keys ++ ids ∧
      (∀ id ∈ ids, result.row id = merged t.read (source.row id) (initialRow t)) ∧
      ∀ id ∉ ids, result.row id = table.row id := by
  induction ids generalizing table with
  | nil => exact ⟨table, rfl, (List.append_nil _).symm, fun id hid => absurd hid List.not_mem_nil, fun _ _ => rfl⟩
  | cons id ids ih =>
      obtain ⟨hid, hids⟩ := List.nodup_cons.mp hids
      have hfree : id ∉ table.keys := hnew id List.mem_cons_self
      have hstep : importObject C t table (exportObject C t source id) =
          .ok (table.insert id (merged t.read (source.row id) (initialRow t))) := by
        unfold importObject
        rw [if_neg (show (exportObject C t source id).id ∉ table.keys from hfree), readObject_exported]
        rfl
      obtain ⟨result, hrun, hkeys, hrows, hrest⟩ := ih (table.insert id _) hids (fun j hj hmem => by
        rcases (Table.mem_insert_keys hfree).mp hmem with hmem | rfl
        · exact hnew j (List.mem_cons_of_mem id hj) hmem
        · exact hid hj)
      refine ⟨result, ?_, ?_, ?_, ?_⟩
      · rw [List.map_cons, List.foldlM_cons, hstep]
        exact hrun
      · rw [hkeys, Table.insert_keys hfree, List.append_assoc, List.singleton_append]
      · intro j hj
        rcases List.mem_cons.mp hj with rfl | hj
        · rw [hrest j hid, Table.insert_row_self hfree]
        · exact hrows j hj
      · intro j hj
        rw [List.mem_cons, not_or] at hj
        rw [hrest j hj.2, Table.insert_row_of_ne hj.1]

/-- **A section is imported into a cleared table**, or into that of a type with one object. -/
theorem importTable_exported (t : ObjectType) (source table : Table Nat Row)
    (hone : t.isSingleton = true → source.keys = [0] ∧ table.keys = [0])
    (hclear : t.isSingleton = false → table.keys = []) :
    ∃ result, importTable C t (source.keys.map (exportObject C t source)) table = .ok result ∧
      Restores t source result := by
  cases hsingle : t.isSingleton with
  | true =>
      obtain ⟨hsource, htable⟩ := hone hsingle
      refine ⟨table.modify 0 fun _ => merged t.read (source.row 0) (table.row 0), ?_, ?_⟩
      · unfold importTable importSingleton
        rw [if_pos hsingle, hsource, htable]
        simp only [List.map_cons, List.map_nil, readObject_exported]
        rfl
      · constructor
        · rw [Table.modify_keys, hsource, htable]
        · intro id hid m hm
          obtain rfl : id = 0 := by simpa [hsource] using hid
          rw [Table.modify_row_self]
          exact if_pos hm
        · intro hfalse
          exact absurd hsingle (by simp [hfalse])
  | false =>
      have hempty := hclear hsingle
      obtain ⟨result, hrun, hkeys, hrows, -⟩ := importObjects_exported (C := C) t source source.keys table
        source.nodup (fun id _ => by simp [hempty])
      refine ⟨result, ?_, ?_⟩
      · unfold importTable
        rw [if_neg (by simp [hsingle])]
        exact hrun
      · constructor
        · rw [hkeys, hempty, List.nil_append]
        · intro id hid m hm
          rw [hrows id hid]
          exact if_pos hm
        · intro _ id hid m hm
          rw [hrows id hid]
          exact if_neg hm

/-! ## All types -/

/-- A type has one object if it is one of the three. -/
def Opened (objects : Objects) : Prop := ∀ t, t.isSingleton = true → (objects t).keys = [0]

theorem mem_all (t : ObjectType) : t ∈ ObjectType.all := by
  cases t <;> decide +kernel

theorem clearObjects_keys (objects : Objects) {t : ObjectType} (h : t.isSingleton = false) :
    (clearObjects objects t).keys = [] := by
  unfold clearObjects
  rw [if_neg (by simp [h])]
  exact Table.foldl_erase_keys _

theorem clearObjects_singleton (objects : Objects) {t : ObjectType} (h : t.isSingleton = true) :
    clearObjects objects t = objects t := if_pos h

/-- What `serialize_state` says of a type, when nothing is pending. -/
theorem serializeState_idle (source : Objects) (t : ObjectType) :
    serializeState C [] source t = some ((source t).keys.map (exportObject C t (source t))) := by
  unfold serializeState confirmedIds
  by_cases h : t = .transaction
  · simp [h]
  · simp only [if_neg h]

/-- **The sections are imported one after the other**, each into the table of its own type. -/
theorem sections_exported (source : Objects) (hsource : Opened source) (ts : List ObjectType) (hts : ts.Nodup)
    (objects : Objects) (hone : Opened objects)
    (hclear : ∀ t ∈ ts, t.isSingleton = false → (objects t).keys = []) :
    ∃ result, ts.foldlM (importSection C (serializeState C [] source)) objects = .ok result ∧
      (∀ t ∈ ts, Restores t (source t) (result t)) ∧ ∀ t ∉ ts, result t = objects t := by
  induction ts generalizing objects with
  | nil => exact ⟨objects, rfl, fun t ht => absurd ht List.not_mem_nil, fun _ _ => rfl⟩
  | cons t ts ih =>
      obtain ⟨ht, hts⟩ := List.nodup_cons.mp hts
      obtain ⟨table, htable, hrestores⟩ := importTable_exported (C := C) t (source t) (objects t)
        (fun h => ⟨hsource t h, hone t h⟩) (hclear t List.mem_cons_self)
      have hstep : importSection C (serializeState C [] source) objects t = .ok (Function.update objects t table) := by
        unfold importSection
        rw [serializeState_idle]
        dsimp only
        rw [htable]
        rfl
      -- the other tables are as they were
      have hone' : Opened (Function.update objects t table) := by
        intro u hu
        by_cases hut : u = t
        · subst hut
          rw [Function.update_self, hrestores.keys]
          exact hsource u hu
        · rw [Function.update_of_ne hut]
          exact hone u hu
      have hclear' : ∀ u ∈ ts, u.isSingleton = false → (Function.update objects t table u).keys = [] := by
        intro u hu hsingle
        have hut : u ≠ t := fun he => ht (he ▸ hu)
        rw [Function.update_of_ne hut]
        exact hclear u (List.mem_cons_of_mem t hu) hsingle
      obtain ⟨result, hrun, hall, hrest⟩ := ih hts _ hone' hclear'
      refine ⟨result, ?_, ?_, ?_⟩
      · rw [List.foldlM_cons, hstep]
        exact hrun
      · intro u hu
        rcases List.mem_cons.mp hu with rfl | hu
        · rw [hrest u ht, Function.update_self]
          exact hrestores
        · exact hall u hu
      · intro u hu
        rw [List.mem_cons, not_or] at hu
        rw [hrest u hu.2, Function.update_of_ne hu.1]

/-- **Every section is restored**, whatever was there before. -/
theorem imported_restores (source objects : Objects) (hsource : Opened source) (hobjects : Opened objects) :
    ∃ imported, ObjectType.all.foldlM (importSection C (serializeState C [] source)) (clearObjects objects) =
        .ok imported ∧ ∀ t, Restores t (source t) (imported t) := by
  have hone : Opened (clearObjects objects) := by
    intro t ht
    rw [clearObjects_singleton objects ht]
    exact hobjects t ht
  obtain ⟨imported, hrun, hall, -⟩ := sections_exported source hsource ObjectType.all (by decide +kernel)
    (clearObjects objects) hone (fun t _ ht => clearObjects_keys objects ht)
  exact ⟨imported, hrun, fun t => hall t (mem_all t)⟩

/-- The members that say which block is irreversible. -/
def libMembers : List Member :=
  [.lastIrreversibleBlockNum, .lastIrreversibleBlockId, .lastIrreversibleBlockRefNum, .lastIrreversibleBlockRefPrefix]

/-- The members in which two states are compared: all of a type, but not those about the irreversible block. -/
def ObjectType.compared (t : ObjectType) : List Member :=
  (t.slots.map Slot.member).filter fun m => decide (¬ (t = .dynamicGlobalProperty ∧ m ∈ libMembers))

/-- **The same objects with the same ids**, equal in every member. -/
structure Same (source result : Objects) : Prop where
  keys    : ∀ t, (result t).keys = (source t).keys
  members : ∀ t, ∀ id ∈ (source t).keys, ∀ m ∈ t.compared, (result t).row id m = (source t).row id m

/-- No account has one of the three members set. -/
def NothingLost (source : Objects) : Prop :=
  ∀ id ∈ (source .account).keys, ∀ m ∈ ObjectType.account.lost, (source .account).row id m = .int 0

/-- Every penalty has an object that takes it back. -/
def NothingHealed (source : Objects) : Prop :=
  ∀ id ∈ (source .validator).keys, ¬ Orphaned (source .validatorPenaltyExpire) ((source .validator).row id)

theorem compared_slots {t : ObjectType} {m : Member} (hm : m ∈ t.compared) : m ∈ t.slots.map Slot.member :=
  (List.mem_filter.mp hm).1

/-- Promoting the head changes no member that is compared. -/
theorem promoteHead_row (objects : Objects) (t : ObjectType) (id : Nat) {m : Member} (hm : m ∈ t.compared) :
    (promoteHead objects t).row id m = (objects t).row id m := by
  unfold promoteHead
  by_cases ht : t = .dynamicGlobalProperty
  · subst ht
    have hlib : m ∉ libMembers := by simpa using (List.mem_filter.mp hm).2
    simp only [libMembers, List.mem_cons, List.not_mem_nil, or_false, not_or] at hlib
    rw [Function.update_self, Table.mapRows_row]
    rw [Function.update_of_ne hlib.2.2.2, Function.update_of_ne hlib.2.2.1, Function.update_of_ne hlib.2.1,
      Function.update_of_ne hlib.1]
  · rw [Function.update_of_ne ht]

theorem promoteHead_keys (objects : Objects) (t : ObjectType) : (promoteHead objects t).keys = (objects t).keys := by
  unfold promoteHead
  by_cases ht : t = .dynamicGlobalProperty
  · subst ht
    rw [Function.update_self, Table.mapRows_keys]
  · rw [Function.update_of_ne ht]

theorem selfHeal_keys (objects : Objects) (t : ObjectType) : (selfHeal objects t).keys = (objects t).keys := by
  unfold selfHeal
  by_cases ht : t = .validator
  · subst ht
    rw [Function.update_self, Table.mapRows_keys]
  · rw [Function.update_of_ne ht]

theorem selfHeal_other (objects : Objects) {t : ObjectType} (ht : t ≠ .validator) :
    selfHeal objects t = objects t := Function.update_of_ne ht _ _

theorem selfHeal_row (objects : Objects) (id : Nat) :
    (selfHeal objects .validator).row id =
      heal (objects .validatorPenaltyExpire) ((objects .validator).row id) := by
  unfold selfHeal
  rw [Function.update_self, Table.mapRows_row]

/-- A restored validator is healed if and only if the exported one would be. -/
theorem orphaned_restored {source imported : Objects} (h : ∀ t, Restores t (source t) (imported t)) {id : Nat}
    (hid : id ∈ (source .validator).keys) :
    Orphaned (imported .validatorPenaltyExpire) ((imported .validator).row id) ↔
      Orphaned (source .validatorPenaltyExpire) ((source .validator).row id) := by
  have hv := (h .validator).read id hid
  have hrecord : ∀ i ∈ (source .validatorPenaltyExpire).keys,
      (imported .validatorPenaltyExpire).row i .validator = (source .validatorPenaltyExpire).row i .validator :=
    fun i hi => (h .validatorPenaltyExpire).read i hi .validator (by decide +kernel)
  unfold Orphaned
  rw [hv .penaltyPercent (by decide +kernel), hv .owner (by decide +kernel), (h .validatorPenaltyExpire).keys]
  constructor
  · rintro ⟨hpos, hnone⟩
    exact ⟨hpos, fun i hi => hrecord i hi ▸ hnone i hi⟩
  · rintro ⟨hpos, hnone⟩
    exact ⟨hpos, fun i hi => (hrecord i hi).symm ▸ hnone i hi⟩

/-- **A snapshot gives the state back exactly if nothing is lost and nothing is healed.** The source is any state, and
    the snapshot is loaded into any database that has been opened. -/
theorem round_trip_iff (source objects : Objects) (hsource : Opened source) (hobjects : Opened objects) :
    (∃ result, loadSnapshot C (serializeState C [] source) objects = .ok result ∧ Same source result) ↔
      NothingLost source ∧ NothingHealed source := by
  obtain ⟨imported, hrun, hall⟩ := imported_restores (C := C) source objects hsource hobjects
  have hload : loadSnapshot C (serializeState C [] source) objects = .ok (promoteHead (selfHeal imported)) := by
    unfold loadSnapshot
    rw [hrun]
    rfl
  have hkeys : ∀ t, (promoteHead (selfHeal imported) t).keys = (source t).keys := by
    intro t
    rw [promoteHead_keys, selfHeal_keys, (hall t).keys]
  constructor
  · rintro ⟨result, hresult, hsame⟩
    obtain rfl : promoteHead (selfHeal imported) = result := Except.ok.inj (hload.symm.trans hresult)
    constructor
    · intro id hid m hm
      have hslot : m ∈ ObjectType.account.compared := by
        refine List.mem_filter.mpr ⟨(List.mem_filter.mp hm).1, ?_⟩
        simp
      rw [← hsame.members .account id hid m hslot, promoteHead_row _ _ _ hslot, selfHeal_other _ (by simp)]
      rw [(hall .account).lost rfl id hid m (not_read_of_lost hm)]
      exact initialRow_lost hm
    · intro id hid horphan
      have hp : Member.penaltyPercent ∈ ObjectType.validator.compared := by decide +kernel
      have hmember := hsame.members .validator id hid .penaltyPercent hp
      have horphan' := (orphaned_restored hall hid).mpr horphan
      -- the penalty of the importing node is zero, that of the exporting node is not
      rw [promoteHead_row _ _ _ hp, selfHeal_row, heal, if_pos horphan'] at hmember
      have hzero : (source .validator).row id .penaltyPercent = .int 0 := by
        rw [← hmember, Function.update_of_ne (by decide), Function.update_self]
      have hpos := horphan.1
      rw [hzero] at hpos
      exact absurd hpos (by decide)
  · rintro ⟨hlost, hhealed⟩
    refine ⟨_, hload, ⟨hkeys, ?_⟩⟩
    intro t id hid m hm
    rw [promoteHead_row _ _ _ hm]
    -- the healing pass finds nothing
    have hheal : (selfHeal imported t).row id m = (imported t).row id m := by
      by_cases ht : t = .validator
      · subst ht
        have hnot : ¬ Orphaned (imported .validatorPenaltyExpire) ((imported .validator).row id) :=
          fun ho => hhealed id hid ((orphaned_restored hall hid).mp ho)
        rw [selfHeal_row, heal, if_neg hnot]
      · rw [selfHeal_other _ ht]
    rw [hheal]
    rcases read_or_lost (compared_slots hm) with hread | hgone
    · exact (hall t).read id hid m hread
    · have ht : t = .account := by
        by_contra hne
        rw [lost_other hne] at hgone
        exact absurd hgone List.not_mem_nil
      subst ht
      rw [(hall .account).lost rfl id hid m (not_read_of_lost hgone), initialRow_lost hgone]
      exact (hlost id hid m hgone).symm

end Snapshot

/-! ## Samples -/

namespace Sample

open Snapshot

/-- Members as their own variants. -/
def plain : Conversion Value where
  toVariant x   := x
  fromVariant x := some x
  inverse _     := rfl

/-- The tables of a database that has been opened. -/
def emptyObjects : Objects := fun t =>
  if t.isSingleton then ⟨[0], fun _ => initialRow t, List.nodup_singleton 0⟩
  else ⟨[], fun _ => initialRow t, List.nodup_nil⟩

/-- One account and one validator, with a vote of this weight and a penalty of this size. -/
def voted (weight penalty : Int) : Objects :=
  let account := Function.update (initialRow .account) .validatorsVoteWeight (.int weight)
  let validator := Function.update (Function.update (initialRow .validator) .penaltyPercent (.int penalty))
    .votes (.int weight)
  let objects := Function.update emptyObjects .account ((emptyObjects .account).insert 7 account)
  Function.update objects .validator ((objects .validator).insert 2 validator)

end Sample

namespace Snapshot

open Sample

/-- A snapshot is loaded over the state of another one. -/
theorem round_trip_iff_sample :
    ∃ result, loadSnapshot plain (serializeState plain [] (voted 0 0)) (voted 5 100) = .ok result ∧
      Same (voted 0 0) result := by
  apply (round_trip_iff (voted 0 0) (voted 5 100) ?_ ?_).mpr
  · constructor
    · unfold NothingLost
      decide +kernel
    · unfold NothingHealed
      decide +kernel
  · intro t
    cases t <;> decide +kernel
  · intro t
    cases t <;> decide +kernel

/-- **A vote that weighed five weighs nothing on the importing node**, and a penalty that no object takes back is
    reset. -/
theorem weight_is_lost :
    (∃ result, loadSnapshot plain (serializeState plain [] (voted 5 0)) emptyObjects = .ok result ∧
      (voted 5 0 .account).row 7 .validatorsVoteWeight = .int 5 ∧
      (result .account).row 7 .validatorsVoteWeight = .int 0 ∧ ¬ Same (voted 5 0) result) ∧
    ∃ result, loadSnapshot plain (serializeState plain [] (voted 0 100)) emptyObjects = .ok result ∧
      (voted 0 100 .validator).row 2 .penaltyPercent = .int 100 ∧
      (result .validator).row 2 .penaltyPercent = .int 0 ∧ ¬ Same (voted 0 100) result := by
  have hweight : (loadSnapshot plain (serializeState plain [] (voted 5 0)) emptyObjects).map
      (fun result => (result .account).row 7 .validatorsVoteWeight) = .ok (.int 0) := by decide +kernel
  have hpenalty : (loadSnapshot plain (serializeState plain [] (voted 0 100)) emptyObjects).map
      (fun result => (result .validator).row 2 .penaltyPercent) = .ok (.int 0) := by decide +kernel
  constructor
  · cases hload : loadSnapshot plain (serializeState plain [] (voted 5 0)) emptyObjects with
    | error e =>
        rw [hload] at hweight
        cases hweight
    | ok result =>
        rw [hload] at hweight
        have hrow : (result .account).row 7 .validatorsVoteWeight = .int 0 := Except.ok.inj hweight
        refine ⟨result, rfl, by decide +kernel, hrow, fun hsame => ?_⟩
        have hkept := hsame.members .account 7 (by decide +kernel) .validatorsVoteWeight (by decide +kernel)
        rw [hrow] at hkept
        exact absurd hkept (by decide +kernel)
  · cases hload : loadSnapshot plain (serializeState plain [] (voted 0 100)) emptyObjects with
    | error e =>
        rw [hload] at hpenalty
        cases hpenalty
    | ok result =>
        rw [hload] at hpenalty
        have hrow : (result .validator).row 2 .penaltyPercent = .int 0 := Except.ok.inj hpenalty
        refine ⟨result, rfl, by decide +kernel, hrow, fun hsame => ?_⟩
        have hkept := hsame.members .validator 2 (by decide +kernel) .penaltyPercent (by decide +kernel)
        rw [hrow] at hkept
        exact absurd hkept (by decide +kernel)

end Snapshot

end VizNode
