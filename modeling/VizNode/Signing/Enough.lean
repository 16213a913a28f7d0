import VizNode.Signing.Exact
import VizNode.Signing.Sufficiency

/-!
# `VizNode.Signing.Enough` — the verdict on a set of keys, exactly

Where no authority goes deeper than the check follows it, the verdict of `verify_authority` on a set of keys is a
matter of the set: something is missing unless the keys are **enough**, and a key is irrelevant unless it is **asked
for**. More keys are enough where fewer are, and ask for less. A key that is not asked for can be spared.

## Contents
- **Purpose.** `Enough` and `Asks`, what they do with more and fewer keys.
- **Verdict.** `verify_cases`.
-/

namespace VizNode

namespace Signing

open SignState Prog

/-! ## Purpose -/

/-- What is approved from the start when no approvals are given. -/
def start : Set AccountName := {tempAccount}

/-- **No authority goes deeper than the check follows it**, from all those it may look into. -/
structure Shallow (req : Required) (get : Getters) (depth : Nat) : Prop where
  regular : ∀ id ∈ req.regular, Opens get.regular get.regular depth id ∧ Opens get.regular get.active depth id ∧
    Opens get.regular get.master depth id
  active  : ∀ id ∈ req.active, Opens get.active get.active depth id ∧ Opens get.active get.master depth id
  master  : ∀ id ∈ req.master, Opens get.active get.master depth id ∧ Opens get.master get.master depth id
  other   : ∀ auth ∈ req.other, Deep get.active depth auth

/-- Operations that require regular authorities require no others. -/
def Unmixed (req : Required) : Prop := req.regular ≠ [] → req.active = [] ∧ req.master = [] ∧ req.other = []

section Purpose

variable (get : Getters) (K : Set PublicKey)

/-- A required regular account is satisfied, if need be by its active or its master authority. -/
def RegularEnough (id : AccountName) : Prop :=
  id ∈ sat get.regular K start ∨ Holds get.active K (sat get.regular K start) id ∨
    Holds get.master K (sat get.regular K start) id

def RegularAsks (id : AccountName) (k : PublicKey) : Prop :=
  (id ∉ start ∧ AskedOf get.regular get.regular K start id k) ∨
    ¬ id ∈ sat get.regular K start ∧ (AskedOf get.regular get.active K start id k ∨
      ¬ Holds get.active K (sat get.regular K start) id ∧ AskedOf get.regular get.master K start id k)

/-- A required active account is satisfied, if need be by its master authority. -/
def ActiveEnough (id : AccountName) : Prop :=
  id ∈ sat get.active K start ∨ Holds get.master K (sat get.active K start) id

def ActiveAsks (id : AccountName) (k : PublicKey) : Prop :=
  (id ∉ start ∧ AskedOf get.active get.active K start id k) ∨
    ¬ id ∈ sat get.active K start ∧ AskedOf get.active get.master K start id k

/-- The required master accounts are satisfied one after the other: each is approved for those after it. -/
def MastersEnough : Set AccountName → List AccountName → Prop
  | _, []        => True
  | G, id :: ids => Holds get.master K (sat get.active K G) id ∧ MastersEnough (insert id G) ids

def MastersAsk : Set AccountName → List AccountName → PublicKey → Prop
  | _, [],        _ => False
  | G, id :: ids, k => AskedOf get.active get.master K G id k ∨ MastersAsk (insert id G) ids k

variable (req : Required)

/-- **The keys are enough** for what is required. -/
def Enough : Prop :=
  if req.regular ≠ [] then ∀ id ∈ req.regular, RegularEnough get K id
  else (∀ auth ∈ req.other, Reached K (sat get.active K start) auth) ∧ (∀ id ∈ req.active, ActiveEnough get K id) ∧
    MastersEnough get K start req.master

/-- **The check asks for the key.** -/
def Asks (k : PublicKey) : Prop :=
  if req.regular ≠ [] then ∃ id ∈ req.regular, RegularAsks get K id k
  else (∃ auth ∈ req.other, Asked get.active K start auth k) ∨ (∃ id ∈ req.active, ActiveAsks get K id k) ∨
    MastersAsk get K start req.master k

end Purpose

section Keys

variable {get : Getters} {K K' : Set PublicKey} {G G' : Set AccountName} {req : Required} {depth : Nat} {k : PublicKey}
  {id : AccountName} {ids : List AccountName}

theorem temp_mem_start : tempAccount ∈ start := rfl

theorem MastersEnough.mono (h : MastersEnough get K G ids) (hK : K ⊆ K') : MastersEnough get K' G ids := by
  induction ids generalizing G with
  | nil => trivial
  | cons id ids ih => exact ⟨h.1.mono hK (Set.Subset.refl G), ih h.2⟩

theorem MastersAsk.anti (h : MastersAsk get K' G ids k) (hK : K ⊆ K') : MastersAsk get K G ids k := by
  induction ids generalizing G with
  | nil => exact h
  | cons id ids ih => exact h.imp (fun h => h.anti hK (Set.Subset.refl G)) ih

/-- **More keys are enough.** -/
theorem Enough.mono (h : Enough get K req) (hK : K ⊆ K') : Enough get K' req := by
  have hstart : start ⊆ start := Set.Subset.refl start
  unfold Enough at h ⊢
  by_cases hreg : req.regular ≠ []
  · rw [if_pos hreg] at h ⊢
    exact fun id hid => (h id hid).imp (fun h => sat_mono hK hstart h)
      (Or.imp (fun h => h.mono hK hstart) (fun h => h.mono hK hstart))
  · rw [if_neg hreg] at h ⊢
    refine ⟨fun auth hauth => ?_, fun id hid => ?_, h.2.2.mono hK⟩
    · exact ((h.1 auth hauth).keys hK).mono (sat_mono hK hstart)
    · exact (h.2.1 id hid).imp (fun h => sat_mono hK hstart h) (fun h => h.mono hK hstart)

/-- **More keys ask for less.** -/
theorem Asks.anti (h : Asks get K' req k) (hK : K ⊆ K') : Asks get K req k := by
  have hstart : start ⊆ start := Set.Subset.refl start
  unfold Asks at h ⊢
  by_cases hreg : req.regular ≠ []
  · rw [if_pos hreg] at h ⊢
    obtain ⟨id, hid, h⟩ := h
    refine ⟨id, hid, h.imp (fun h => ⟨h.1, h.2.anti hK hstart⟩) (fun h => ⟨fun hs => h.1 (sat_mono hK hstart hs), ?_⟩)⟩
    exact h.2.imp (fun h => h.anti hK hstart) (fun h => ⟨fun hh => h.1 (hh.mono hK hstart), h.2.anti hK hstart⟩)
  · rw [if_neg hreg] at h ⊢
    rcases h with ⟨auth, hauth, h⟩ | ⟨id, hid, h⟩ | h
    · exact .inl ⟨auth, hauth, h.anti hK hstart⟩
    · refine .inr (.inl ⟨id, hid, h.imp (fun h => ⟨h.1, h.2.anti hK hstart⟩) (fun h => ?_)⟩)
      exact ⟨fun hs => h.1 (sat_mono hK hstart hs), h.2.anti hK hstart⟩
    · exact .inr (.inr (h.anti hK))

theorem MastersEnough.restrict (htemp : tempAccount ∈ G) (hopens : ∀ id ∈ ids, Opens get.active get.master depth id)
    (h : MastersEnough get K G ids) (hasks : ∀ k ∈ K, MastersAsk get K G ids k → k ∈ K') (hK : K' ⊆ K) :
    MastersEnough get K' G ids := by
  induction ids generalizing G with
  | nil => trivial
  | cons id ids ih =>
      refine ⟨h.1.restrict htemp (hopens id List.mem_cons_self) (fun k hk hin => hasks k hk (.inl hin)) hK, ?_⟩
      exact ih (.inr htemp) (fun id hid => hopens id (List.mem_cons_of_mem _ hid)) h.2
        (fun k hk hin => hasks k hk (.inr hin))

/-- An account that is satisfied stays so with the keys its check comes across. -/
theorem sat_restrict {g : AuthorityGetter} (hopens : Opens g g depth id) (h : id ∈ sat g K start)
    (hasked : ∀ k ∈ K, id ∉ start → AskedOf g g K start id k → k ∈ K') (hK : K' ⊆ K) : id ∈ sat g K' start := by
  by_cases hG : id ∈ start
  · exact mem_sat.mpr (.inl hG)
  · exact mem_sat.mpr (.inr (((mem_sat.mp h).resolve_left hG).restrict temp_mem_start hopens
      (fun k hk hin => hasked k hk hG hin) hK))

/-- **The keys that are asked for are enough**, if all are. -/
theorem Enough.restrict (hshallow : Shallow req get depth) (h : Enough get K req)
    (hasks : ∀ k ∈ K, Asks get K req k → k ∈ K') (hK : K' ⊆ K) : Enough get K' req := by
  unfold Enough Asks at *
  by_cases hreg : req.regular ≠ []
  · simp only [if_pos hreg] at h hasks ⊢
    intro id hid
    obtain ⟨hregular, hactive, hmaster⟩ := hshallow.regular id hid
    by_cases hsat : id ∈ sat get.regular K start
    · exact .inl (sat_restrict hregular hsat (fun k hk hG hin => hasks k hk ⟨id, hid, .inl ⟨hG, hin⟩⟩) hK)
    · by_cases hfirst : Holds get.active K (sat get.regular K start) id
      · exact .inr (.inl (hfirst.restrict temp_mem_start hactive
          (fun k hk hin => hasks k hk ⟨id, hid, .inr ⟨hsat, .inl hin⟩⟩) hK))
      · have hlast := ((h id hid).resolve_left hsat).resolve_left hfirst
        exact .inr (.inr (hlast.restrict temp_mem_start hmaster
          (fun k hk hin => hasks k hk ⟨id, hid, .inr ⟨hsat, .inr ⟨hfirst, hin⟩⟩⟩) hK))
  · simp only [if_neg hreg] at h hasks ⊢
    refine ⟨fun auth hauth => ?_, fun id hid => ?_, ?_⟩
    · exact (h.1 auth hauth).restrict temp_mem_start (hshallow.other auth hauth)
        (fun k hk hin => hasks k hk (.inl ⟨auth, hauth, hin⟩)) hK
    · obtain ⟨hactive, hmaster⟩ := hshallow.active id hid
      by_cases hsat : id ∈ sat get.active K start
      · exact .inl (sat_restrict hactive hsat
          (fun k hk hG hin => hasks k hk (.inr (.inl ⟨id, hid, .inl ⟨hG, hin⟩⟩))) hK)
      · have hlast := (h.2.1 id hid).resolve_left hsat
        exact .inr (hlast.restrict temp_mem_start hmaster
          (fun k hk hin => hasks k hk (.inr (.inl ⟨id, hid, .inr ⟨hsat, hin⟩⟩))) hK)
    · exact h.2.2.restrict temp_mem_start (fun id hid => (hshallow.master id hid).1)
        (fun k hk hin => hasks k hk (.inr (.inr hin))) hK

end Keys

/-! ## Verdict -/

/-- The errors that say that something is missing. -/
def AuthorityError.isMissing : AuthorityError → Bool
  | .missingRegularAuth .. => true
  | .missingOtherAuth ..   => true
  | .missingActiveAuth ..  => true
  | .missingMasterAuth ..  => true
  | _                      => false

section Verdict

variable {get : Getters} {g : AuthorityGetter} {K : Set PublicKey} {A : List PublicKey} {G : Set AccountName}
  {req : Required} {depth : Nat} {sigs : List PublicKey} {s : SignState}

/-- At the start no key is marked. -/
theorem init_knows (sigs A : List PublicKey) : Knows g { k | k ∈ sigs ∨ k ∈ A } A start (SignState.init sigs A) ∧
    ∀ k, ¬ Used (SignState.init sigs A) k := by
  have hsound : Sound sigs {tempAccount} (fun _ => False) (SignState.init sigs []) := init_sound rfl
  have happroved : ∀ a ∈ (SignState.init sigs A).approvedBy.keys, a = tempAccount := fun a ha => hsound.approved a ha
  refine ⟨⟨rfl, fun k => ?_, fun a ha => ?_, fun a ha => .inl (happroved a ha), fun a ha => ?_⟩, ?_⟩
  · exact or_congr_left (hsound.keys k).symm
  · exact mem_put_keys.mpr (.inr ha)
  · show (put (Table.empty : Table AccountName Bool) tempAccount true).row a = true
    rw [put_row, if_pos (happroved a ha)]
  · rintro k ⟨-, hrow⟩
    obtain ⟨auth, h, -⟩ := hsound.used k hrow
    exact h

theorem checkRegular_finds (hshallow : Shallow req get depth) {id : AccountName} (hid : id ∈ req.regular) :
    Finds get.regular K A start (checkRegular get depth id) (RegularEnough get K id) (RegularAsks get K id) := by
  obtain ⟨hregular, hactive, hmaster⟩ := hshallow.regular id hid
  exact orElse_finds (checkAccount_finds temp_mem_start hregular)
    (orElse_finds (checkGot_finds temp_mem_start hactive) (checkGot_finds temp_mem_start hmaster))

theorem checkActive_finds (hshallow : Shallow req get depth) {id : AccountName} (hid : id ∈ req.active) :
    Finds get.active K A start (checkActive get depth id) (ActiveEnough get K id) (ActiveAsks get K id) := by
  obtain ⟨hactive, hmaster⟩ := hshallow.active id hid
  exact orElse_finds (checkAccount_finds temp_mem_start hactive) (checkGot_finds temp_mem_start hmaster)

/-- **The loop over the required master accounts.** -/
theorem collectMasters_finds {ids : List AccountName} (htemp : tempAccount ∈ G)
    (hopens : ∀ id ∈ ids, Opens get.active get.master depth id) (hs : Knows get.active K A G s) :
    ∃ missing s', collectMissing (checkMaster get depth []) ids s = .ok (missing, s') ∧
      (missing = [] ↔ MastersEnough get K G ids) ∧ (missing = [] → (∃ G', Knows get.active K A G' s') ∧
        ∀ k, Used s' k ↔ Used s k ∨ k ∈ K ∧ MastersAsk get K G ids k) := by
  induction ids generalizing G s with
  | nil =>
      refine ⟨[], s, rfl, ⟨fun _ => trivial, fun _ => rfl⟩, fun _ => ⟨⟨G, hs⟩, fun k => ⟨.inl, ?_⟩⟩⟩
      exact fun h => h.resolve_right fun h => h.2
  | cons id ids ih =>
      have hrest : ∀ id ∈ ids, Opens get.active get.master depth id := fun c hc => hopens c (List.mem_cons_of_mem _ hc)
      obtain ⟨b, s₁, hrun₁, hb, hs₁, hused₁⟩ := checkGot_finds htemp (hopens id List.mem_cons_self) s hs
      have hcheck : checkMaster get depth [] id s = .ok (b, if b then s₁.approve id true else s₁) := by
        unfold checkMaster
        rw [if_neg List.not_mem_nil]
        cases hauth : get.master id with
        | error e =>
            rw [hauth] at hrun₁
            cases hrun₁
        | ok auth =>
            rw [hauth] at hrun₁
            have hrun : checkAuthority get.active depth auth s = .ok (b, s₁) := hrun₁
            show (checkAuthority get.active depth auth s >>= _) = _
            rw [hrun]
            cases b <;> rfl
      cases b with
      | true =>
          obtain ⟨missing, s', hrun, hmissing, hok⟩ := ih (.inr htemp) hrest (hs₁.grow id)
          refine ⟨missing, s', ?_, ?_, fun hnil => ⟨(hok hnil).1, fun k => ((hok hnil).2 k).trans ?_⟩⟩
          · unfold collectMissing
            rw [hcheck]
            show (collectMissing (checkMaster get depth []) ids (s₁.approve id true) >>= _) = _
            rw [hrun]
            rfl
          · rw [hmissing]
            exact (and_iff_right (hb.mp rfl)).symm
          · have hused := hused₁ k
            show Used s₁ k ∨ _ ↔ _
            rw [hused, or_assoc, ← and_or_left]
            rfl
      | false =>
          obtain ⟨missing, s', hrun, -, -⟩ := ih htemp hrest hs₁
          refine ⟨id :: missing, s', ?_, ⟨fun h => absurd h (List.cons_ne_nil _ _), fun h => ?_⟩, fun h => absurd h (List.cons_ne_nil _ _)⟩
          · unfold collectMissing
            rw [hcheck]
            show (collectMissing (checkMaster get depth []) ids s₁ >>= _) = _
            rw [hrun]
            rfl
          · exact absurd (hb.mpr h.1) Bool.false_ne_true

/-- The end of the check, when nothing was missing. -/
theorem assertUnused_cases (hs : Knows g K [] G s) (hK : ∀ k, k ∈ K ↔ k ∈ sigs) {U : PublicKey → Prop}
    (hused : ∀ k, Used s k ↔ k ∈ K ∧ U k) :
    ((∀ k ∈ sigs, U k) ∧ s.assertUnusedApprovals = .ok ()) ∨
      ((¬ ∀ k ∈ sigs, U k) ∧ ∃ unused, s.assertUnusedApprovals = .error (.irrelevantSig unused)) := by
  have hprovided : ∀ k, k ∈ s.providedSignatures.keys ↔ k ∈ sigs := by
    intro k
    rw [← hK, hs.keys, hs.available]
    exact (or_iff_left List.not_mem_nil).symm
  have happroved : s.unusedApprovals = [] := by
    unfold unusedApprovals
    refine List.filter_eq_nil_iff.mpr fun a ha => ?_
    rw [hs.marked a ha]
    exact Bool.false_ne_true
  unfold assertUnusedApprovals
  by_cases hall : ∀ k ∈ sigs, U k
  · have hnone : s.unusedSignatures = [] := by
      unfold unusedSignatures
      refine List.filter_eq_nil_iff.mpr fun k hk => ?_
      have hsig := (hprovided k).mp hk
      rw [((hused k).mpr ⟨(hK k).mpr hsig, hall k hsig⟩).2]
      exact Bool.false_ne_true
    exact .inl ⟨hall, by rw [if_neg (not_not.mpr hnone), if_neg (not_not.mpr happroved)]⟩
  · refine .inr ⟨hall, s.unusedSignatures, if_pos fun hnone => hall fun k hk => ?_⟩
    unfold unusedSignatures at hnone
    have hrow := List.filter_eq_nil_iff.mp hnone k ((hprovided k).mpr hk)
    have hmarked : s.providedSignatures.row k = true := by simpa using hrow
    exact ((hused k).mp ⟨(hprovided k).mpr hk, hmarked⟩).2

/-- **The verdict.** -/
theorem verify_cases {Op : Type} {required : Op → Required} {ops : List Op} (sigs : List PublicKey)
    (hshallow : Shallow (Required.of required ops) get depth) (hunmixed : Unmixed (Required.of required ops)) :
    (¬ Enough get { k | k ∈ sigs } (Required.of required ops) ∧
      ∃ e, verifyAuthority required ops sigs get depth {} = .error e ∧ e.isMissing = true) ∨
    Enough get { k | k ∈ sigs } (Required.of required ops) ∧
      (((∀ k ∈ sigs, Asks get { k | k ∈ sigs } (Required.of required ops) k) ∧
        verifyAuthority required ops sigs get depth {} = .ok ()) ∨
      ((¬ ∀ k ∈ sigs, Asks get { k | k ∈ sigs } (Required.of required ops) k) ∧
        ∃ unused, verifyAuthority required ops sigs get depth {} = .error (.irrelevantSig unused))) := by
  unfold verifyAuthority
  dsimp only
  generalize Required.of required ops = req at hshallow hunmixed ⊢
  have hkeys : ∀ k, k ∈ { k | k ∈ sigs } ↔ k ∈ sigs := fun _ => Iff.rfl
  have hinit : ∀ g, Knows g { k | k ∈ sigs } [] start (SignState.init sigs []) := by
    intro g
    have hknows := (init_knows (g := g) sigs []).1
    simpa using hknows
  have hunused : ∀ k, ¬ Used (SignState.init sigs []) k := (init_knows (g := get.active) sigs []).2
  unfold Enough Asks
  by_cases hreg : req.regular ≠ []
  · simp only [if_pos hreg]
    obtain ⟨hactive, hmaster, hother⟩ := hunmixed hreg
    obtain ⟨missing, s, hrun, hmissing, hs, hused⟩ :=
      collectMissing_finds (fun id hid => checkRegular_finds hshallow hid) (hinit get.regular)
    have hverify : verifyRegular get depth sigs {} req =
        if missing ≠ [] then .error (.missingRegularAuth missing s.usedSignatures) else s.assertUnusedApprovals := by
      unfold verifyRegular
      rw [if_neg (by simp [hactive, hmaster, hother])]
      show (collectMissing (checkRegular get depth) req.regular (SignState.init sigs []) >>= _) = _
      rw [hrun]
      rfl
    rw [hverify]
    by_cases hnil : missing = []
    · rw [if_neg (not_not.mpr hnil)]
      refine .inr ⟨hmissing.mp hnil, assertUnused_cases hs hkeys fun k => (hused k).trans ?_⟩
      exact or_iff_right (hunused k)
    · rw [if_pos hnil]
      exact .inl ⟨fun h => hnil (hmissing.mpr h), _, rfl, rfl⟩
  · simp only [if_neg hreg]
    obtain ⟨missing₁, s₁, hrun₁, hmissing₁, hs₁, hused₁⟩ :=
      collectMissing_finds (fun auth hauth => checkAuthority_finds temp_mem_start (hshallow.other auth hauth))
        (hinit get.active)
    obtain ⟨missing₂, s₂, hrun₂, hmissing₂, hs₂, hused₂⟩ :=
      collectMissing_finds (fun id hid => checkActive_finds hshallow hid) hs₁
    obtain ⟨missing₃, s₃, hrun₃, hmissing₃, hok₃⟩ :=
      collectMasters_finds temp_mem_start (fun id hid => (hshallow.master id hid).1) hs₂
    have hverify : verifyActive get depth sigs {} req =
        if missing₁ ≠ [] then .error (.missingOtherAuth missing₁)
        else if missing₂ ≠ [] then .error (.missingActiveAuth missing₂ s₂.usedSignatures)
        else if missing₃ ≠ [] then .error (.missingMasterAuth missing₃ s₃.usedSignatures)
        else s₃.assertUnusedApprovals := by
      unfold verifyActive
      show (collectMissing (checkAuthority get.active depth) req.other (SignState.init sigs []) >>= _) = _
      rw [hrun₁]
      show (if missing₁ ≠ [] then _ else (collectMissing (checkActive get depth) req.active s₁ >>= _)) = _
      rw [hrun₂]
      show (if missing₁ ≠ [] then _ else if missing₂ ≠ [] then _ else
        (collectMissing (checkMaster get depth []) req.master s₂ >>= _)) = _
      rw [hrun₃]
      rfl
    rw [hverify]
    by_cases hnil₁ : missing₁ = []
    · rw [if_neg (not_not.mpr hnil₁)]
      by_cases hnil₂ : missing₂ = []
      · rw [if_neg (not_not.mpr hnil₂)]
        by_cases hnil₃ : missing₃ = []
        · rw [if_neg (not_not.mpr hnil₃)]
          obtain ⟨⟨G', hs₃⟩, hused₃⟩ := hok₃ hnil₃
          refine .inr ⟨⟨hmissing₁.mp hnil₁, hmissing₂.mp hnil₂, hmissing₃.mp hnil₃⟩, ?_⟩
          refine assertUnused_cases hs₃ hkeys fun k => ?_
          rw [hused₃, hused₂, hused₁, or_iff_right (hunused k), or_assoc, ← and_or_left, ← and_or_left]
        · rw [if_pos hnil₃]
          exact .inl ⟨fun h => hnil₃ (hmissing₃.mpr h.2.2), _, rfl, rfl⟩
      · rw [if_pos hnil₂]
        exact .inl ⟨fun h => hnil₂ (hmissing₂.mpr h.2.1), _, rfl, rfl⟩
    · rw [if_pos hnil₁]
      exact .inl ⟨fun h => hnil₁ (hmissing₁.mpr h.1), _, rfl, rfl⟩

end Verdict

end Signing

end VizNode
