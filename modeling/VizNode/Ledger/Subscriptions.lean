import VizNode.Ledger.Runs

/-!
# `VizNode.Ledger.Subscriptions` — the renewal of subscriptions that come due

`paid_subscribe_processing` goes through the subscriptions in the order of `next_time` and moves each one it handles
to a later place of the same order, while the iterator stands on it. **The loop goes on behind that new place**, so
after one turn it finds nothing that is due: of several subscriptions that are due in one block only the first one is
handled.

## Contents
- **What is due.** `Due`, and `Orderly`, what holds of the subscriptions of every node.
- **A turn.** `WillRenew`, `renewed`, `closed`; `renewSubscribe_cases`.
- **The order.** What stands behind a subscription that is not due is not due.
- **The processing.** `Complete`, and when it is.
-/

namespace VizNode

namespace Ledger

variable {s s' s₁ : Ledger} {k j : AccountName × AccountName}

/-! ## What is due -/

/-- An active subscription whose time has come. -/
def Due (s : Ledger) (k : AccountName × AccountName) : Prop :=
  k ∈ s.paidSubscribes.keys ∧ (s.paidSubscribes.row k).active = true ∧ (s.paidSubscribes.row k).nextTime ≤ s.time

/-- **The subscriptions are in order**: both accounts are known, what is closed has no next time, every creator asks
    for a period, and the clock has not come to its end. -/
structure Orderly (s : Ledger) : Prop where
  known  : ∀ k ∈ s.paidSubscribes.keys, k.1 ∈ s.accounts.keys ∧ k.2 ∈ s.accounts.keys
  closed : ∀ k ∈ s.paidSubscribes.keys,
    (s.paidSubscribes.row k).active = false → (s.paidSubscribes.row k).nextTime = Config.maximumTime
  period : ∀ a ∈ s.paidSubscriptions.keys, 0 < (s.paidSubscriptions.row a).period
  clock  : s.time < Config.maximumTime

/-- What has come to its time is active. -/
theorem Orderly.due (h : Orderly s) (hk : k ∈ s.paidSubscribes.keys)
    (ht : (s.paidSubscribes.row k).nextTime ≤ s.time) : s.Due k := by
  refine ⟨hk, ?_, ht⟩
  by_contra hc
  have hmax := h.closed k hk (by simpa using hc)
  have hclock := h.clock
  omega

/-! ## A turn -/

/-- What a renewal on the creator's terms `p` costs. -/
def renewalCost (s : Ledger) (k : AccountName × AccountName) (p : PaidSubscription) : Nat :=
  p.amount * min (s.paidSubscribes.row k).level p.levels

/-- **The subscription will be renewed**: the creator still offers it, it renews itself, the period is no shorter, the
    price no higher, and the balance is enough. -/
def WillRenew (s : Ledger) (k : AccountName × AccountName) (p : PaidSubscription) : Prop :=
  s.paidSubscriptions.find k.2 = some p ∧ (s.paidSubscribes.row k).autoRenewal = true ∧
    (s.paidSubscribes.row k).period ≤ p.period ∧
    s.renewalCost k p ≤ (s.paidSubscribes.row k).amount * (s.paidSubscribes.row k).level ∧
    (s.renewalCost k p : Int) ≤ (s.accounts.row k.1).balance

/-- The ledger after a renewal until `next`: the cost has moved from the subscriber to the creator. -/
def renewed (s : Ledger) (k : AccountName × AccountName) (p : PaidSubscription) (next : Nat) : Ledger :=
  { (s.adjustBalance k.1 (-s.renewalCost k p)).adjustBalance k.2 (s.renewalCost k p) with
    paidSubscribes := s.paidSubscribes.modify k (fun q =>
      { q with
        amount    := p.amount
        level     := min (s.paidSubscribes.row k).level p.levels
        startTime := s.time
        nextTime  := next
        endTime   := Config.maximumTime }) }

/-- The ledger after a subscription was closed. -/
def closed (s : Ledger) (k : AccountName × AccountName) : Ledger :=
  { s with paidSubscribes := s.paidSubscribes.modify k closeSubscribe }

/-- **A turn renews or closes.** -/
theorem renewSubscribe_cases (hk : k.1 ∈ s.accounts.keys ∧ k.2 ∈ s.accounts.keys) :
    (∃ p, s.WillRenew k p ∧ s.renewSubscribe k = .ok (s.renewed k p ((s.time + p.period * 86400) % 2 ^ 32))) ∨
    ((∀ p, ¬ s.WillRenew k p) ∧ s.renewSubscribe k = .ok (s.closed k)) := by
  have hsubscriber : s.getAccount k.1 = .ok (s.accounts.row k.1) := getAccount_eq_ok.mpr ⟨hk.1, rfl⟩
  have hcreator : s.getAccount k.2 = .ok (s.accounts.row k.2) := getAccount_eq_ok.mpr ⟨hk.2, rfl⟩
  unfold renewSubscribe
  cases hp : s.paidSubscriptions.find k.2 with
  | none =>
      right
      refine ⟨?_, rfl⟩
      rintro p ⟨hp', -⟩
      rw [hp] at hp'
      exact absurd hp' (by simp)
  | some p =>
      dsimp only
      by_cases hauto : (s.paidSubscribes.row k).autoRenewal = true
      · rw [if_pos hauto, hsubscriber, hcreator]
        simp only [bind, Except.bind]
        by_cases hterms : (s.paidSubscribes.row k).period ≤ p.period ∧
            p.amount * min (s.paidSubscribes.row k).level p.levels ≤
              (s.paidSubscribes.row k).amount * (s.paidSubscribes.row k).level ∧
            ((p.amount * min (s.paidSubscribes.row k).level p.levels : Nat) : Int) ≤ (s.accounts.row k.1).balance
        · left
          rw [if_pos hterms]
          exact ⟨p, ⟨hp, hauto, hterms.1, hterms.2.1, hterms.2.2⟩, rfl⟩
        · right
          rw [if_neg hterms]
          refine ⟨?_, rfl⟩
          rintro p' ⟨hp', -, h₁, h₂, h₃⟩
          obtain rfl : p = p' := Option.some.inj (hp.symm.trans hp')
          exact hterms ⟨h₁, h₂, h₃⟩
      · right
        rw [if_neg hauto]
        refine ⟨?_, rfl⟩
        rintro p' ⟨-, hauto', -⟩
        exact hauto hauto'

/-- What a turn leaves alone: the clock, the set of subscriptions, and every other subscription. -/
structure OneTurn (s s₁ : Ledger) (k : AccountName × AccountName) : Prop where
  time : s₁.time = s.time
  keys : s₁.paidSubscribes.keys = s.paidSubscribes.keys
  row  : ∀ j, j ≠ k → s₁.paidSubscribes.row j = s.paidSubscribes.row j

theorem renewed_row (p : PaidSubscription) (next : Nat) :
    (s.renewed k p next).paidSubscribes.row j = if j = k then
      { s.paidSubscribes.row k with
        amount    := p.amount
        level     := min (s.paidSubscribes.row k).level p.levels
        startTime := s.time
        nextTime  := next
        endTime   := Config.maximumTime }
    else s.paidSubscribes.row j := rfl

theorem closed_row : (s.closed k).paidSubscribes.row j =
    if j = k then closeSubscribe (s.paidSubscribes.row k) else s.paidSubscribes.row j := rfl

theorem renewed_oneTurn (p : PaidSubscription) (next : Nat) : OneTurn s (s.renewed k p next) k where
  time := rfl
  keys := rfl
  row j hj := by rw [renewed_row, if_neg hj]

theorem closed_oneTurn : OneTurn s (s.closed k) k where
  time := rfl
  keys := rfl
  row j hj := by rw [closed_row, if_neg hj]

/-- A turn makes nothing due but what it handles. -/
theorem OneTurn.due (h : OneTurn s s₁ k) (hj : j ≠ k) : s₁.Due j ↔ s.Due j := by
  unfold Due
  rw [h.keys, h.row j hj, h.time]

@[simp] theorem renewed_nextTime (p : PaidSubscription) (next : Nat) :
    ((s.renewed k p next).paidSubscribes.row k).nextTime = next := by rw [renewed_row, if_pos rfl]

@[simp] theorem closed_nextTime : ((s.closed k).paidSubscribes.row k).nextTime = Config.maximumTime := by
  rw [closed_row, if_pos rfl]
  rfl

/-! ## The order -/

theorem mem_byNextTime : k ∈ s.byNextTime ↔ k ∈ s.paidSubscribes.keys := List.mem_insertionSort _

theorem byNextTime_sorted :
    s.byNextTime.Pairwise (fun a b => (s.paidSubscribes.row a).nextTime ≤ (s.paidSubscribes.row b).nextTime) := by
  have : Std.Total (fun a b => (s.paidSubscribes.row a).nextTime ≤ (s.paidSubscribes.row b).nextTime) :=
    ⟨fun _ _ => Nat.le_total _ _⟩
  have : IsTrans (AccountName × AccountName)
      (fun a b => (s.paidSubscribes.row a).nextTime ≤ (s.paidSubscribes.row b).nextTime) :=
    ⟨fun _ _ _ => Nat.le_trans⟩
  exact List.pairwise_insertionSort _ _

/-- The first subscription in the order comes due first. -/
theorem Due.first (h : s.Due j) : ∃ k, s.byNextTime.head? = some k ∧ k ∈ s.paidSubscribes.keys ∧
    (s.paidSubscribes.row k).nextTime ≤ s.time := by
  have hmem := mem_byNextTime.mpr h.1
  have hsorted := byNextTime_sorted (s := s)
  cases hl : s.byNextTime with
  | nil => rw [hl] at hmem; exact absurd hmem (by simp)
  | cons k rest =>
      rw [hl] at hmem hsorted
      refine ⟨k, rfl, mem_byNextTime.mp (by rw [hl]; exact List.mem_cons_self), ?_⟩
      rcases List.mem_cons.mp hmem with rfl | hrest
      · exact h.2.2
      · exact Nat.le_trans ((List.pairwise_cons.mp hsorted).1 j hrest) h.2.2

/-- **What stands behind a subscription that is not due is not due.** -/
theorem next_not_due (hk : k ∈ s.paidSubscribes.keys) (hlate : s.time < (s.paidSubscribes.row k).nextTime)
    (hj : ((s.byNextTime.dropWhile (fun i => decide (i ≠ k))).tail).head? = some j) :
    s.time < (s.paidSubscribes.row j).nextTime := by
  obtain ⟨front, back, hl⟩ := List.append_of_mem (mem_byNextTime.mpr hk)
  have hnodup : (front ++ k :: back).Nodup := by
    rw [← hl]
    exact (List.perm_insertionSort _ _).nodup_iff.mpr s.paidSubscribes.nodup
  have hsorted := byNextTime_sorted (s := s)
  rw [hl] at hj hsorted
  have hfront : ∀ i ∈ front, decide (i ≠ k) = true := by
    intro i hi
    refine decide_eq_true ?_
    rintro rfl
    exact List.disjoint_of_nodup_append hnodup hi List.mem_cons_self
  rw [List.dropWhile_append_of_pos hfront, List.dropWhile_cons_of_neg (by simp), List.tail_cons] at hj
  have hle := (List.pairwise_cons.mp (List.pairwise_append.mp hsorted).2.1).1 j (List.mem_of_head? hj)
  omega

/-! ## The processing -/

/-- One turn of the loop on an active subscription. -/
structure SubscribeTurn where
  key    : AccountName × AccountName
  before : Ledger
  after  : Ledger

/-- The turns of the loop of `paid_subscribe_processing`. -/
def subscribeTurns : Nat → Option (AccountName × AccountName) → Ledger → Result (List SubscribeTurn)
  | 0,        _,        _ => .ok []
  | _,        none,     _ => .ok []
  | fuel + 1, some key, s =>
      if (s.paidSubscribes.row key).nextTime ≤ s.time then do
        let s₁ ← if (s.paidSubscribes.row key).active then s.renewSubscribe key else pure s
        let turns ← subscribeTurns fuel ((s₁.byNextTime.dropWhile (fun k => decide (k ≠ key))).tail).head? s₁
        return if (s.paidSubscribes.row key).active then ⟨key, s, s₁⟩ :: turns else turns
      else .ok []

/-- The turns of `paid_subscribe_processing`. -/
def processingTurns (s : Ledger) : Result (List SubscribeTurn) :=
  subscribeTurns ((s.paidSubscribes.keys.length + 1) * (s.paidSubscribes.keys.length + 1)) s.byNextTime.head? s

/-- The ledger behind some turns. -/
def behind (s : Ledger) (turns : List SubscribeTurn) : Ledger := (turns.getLast?.map (·.after)).getD s

theorem behind_cons {t : SubscribeTurn} {turns : List SubscribeTurn} : s.behind (t :: turns) = t.after.behind turns := by
  unfold behind
  cases turns with
  | nil => rfl
  | cons u turns => rw [List.getLast?_cons_cons]; cases h : (u :: turns).getLast? <;> simp_all

/-- **The turns are those of the code**: it fails where they fail, and ends behind the last of them. -/
theorem subscribeLoop_eq (fuel : Nat) (next : Option (AccountName × AccountName)) (s : Ledger) :
    subscribeLoop fuel next s = (subscribeTurns fuel next s).map s.behind := by
  induction fuel generalizing next s with
  | zero => rfl
  | succ fuel ih =>
      cases next with
      | none => rfl
      | some key =>
          unfold subscribeLoop subscribeTurns
          split
          · by_cases hactive : (s.paidSubscribes.row key).active = true
            · simp only [if_pos hactive, bind, Except.bind]
              cases s.renewSubscribe key with
              | error e => rfl
              | ok s₁ =>
                  simp only [ih]
                  cases subscribeTurns fuel ((s₁.byNextTime.dropWhile (fun k => decide (k ≠ key))).tail).head? s₁ with
                  | error e => rfl
                  | ok turns => exact congrArg Except.ok (behind_cons (t := ⟨key, s, s₁⟩)).symm
            · simp only [if_neg hactive, bind, Except.bind, pure, Except.pure, ih]
              cases subscribeTurns fuel ((s.byNextTime.dropWhile (fun k => decide (k ≠ key))).tail).head? s <;> rfl
          · rfl

/-- Nothing is done where nothing is due. -/
theorem subscribeTurns_idle {fuel : Nat} {next : Option (AccountName × AccountName)}
    (h : ∀ j, next = some j → s.time < (s.paidSubscribes.row j).nextTime) : subscribeTurns fuel next s = .ok [] := by
  cases fuel with
  | zero => rfl
  | succ fuel =>
      cases next with
      | none => rfl
      | some j =>
          unfold subscribeTurns
          exact if_neg (Nat.not_le.mpr (h j rfl))

/-- The first turn, and what follows it. -/
theorem processingTurns_first (hhead : s.byNextTime.head? = some k) (hdue : s.Due k)
    (hturn : s.renewSubscribe k = .ok s₁) : ∃ fuel, s.processingTurns =
      (subscribeTurns fuel ((s₁.byNextTime.dropWhile (fun j => decide (j ≠ k))).tail).head? s₁).map
        (⟨k, s, s₁⟩ :: ·) := by
  obtain ⟨n, hn⟩ : ∃ n, (s.paidSubscribes.keys.length + 1) * (s.paidSubscribes.keys.length + 1) = n + 1 :=
    Nat.exists_eq_succ_of_ne_zero (Nat.mul_ne_zero (Nat.succ_ne_zero _) (Nat.succ_ne_zero _))
  refine ⟨n, ?_⟩
  unfold processingTurns
  rw [hn, hhead]
  show subscribeTurns (n + 1) (some k) s = _
  conv_lhs => unfold subscribeTurns
  simp only [if_pos hdue.2.1, if_pos hdue.2.2, hturn, bind, Except.bind]
  cases subscribeTurns n ((s₁.byNextTime.dropWhile (fun j => decide (j ≠ k))).tail).head? s₁ <;> rfl

/-- **There is one turn only**, when it leaves its subscription for later. -/
theorem processingTurns_single (hhead : s.byNextTime.head? = some k) (hdue : s.Due k)
    (hturn : s.renewSubscribe k = .ok s₁) (hone : OneTurn s s₁ k)
    (hlate : s.time < (s₁.paidSubscribes.row k).nextTime) : s.processingTurns = .ok [⟨k, s, s₁⟩] := by
  obtain ⟨fuel, hturns⟩ := processingTurns_first hhead hdue hturn
  have hk : k ∈ s₁.paidSubscribes.keys := by
    rw [hone.keys]
    exact hdue.1
  rw [hturns, subscribeTurns_idle fun j hj => next_not_due hk (by rw [hone.time]; exact hlate) hj]
  rfl

/-- **The claim of the processing**: nothing that is active is due any more, and each subscription that was due had one
    turn, which renewed it for the period of the creator or closed it. -/
structure Complete (s : Ledger) (turns : List SubscribeTurn) (s' : Ledger) : Prop where
  none_due : ∀ k, ¬ s'.Due k
  once     : (turns.map (·.key)).Nodup
  due      : ∀ k, k ∈ turns.map (·.key) ↔ s.Due k
  handled  : ∀ t ∈ turns, (∃ p, t.before.paidSubscriptions.find t.key.2 = some p ∧
    t.after = t.before.renewed t.key p (t.before.time + p.period * 86400)) ∨ t.after = t.before.closed t.key

/-- One turn that leaves its subscription for later is all there is to do, when nothing else is due. -/
theorem Complete.single (hdue : s.Due k) (honly : ∀ j, s.Due j → j = k) (hone : OneTurn s s₁ k)
    (hlate : s.time < (s₁.paidSubscribes.row k).nextTime)
    (hhandled : (∃ p, s.paidSubscriptions.find k.2 = some p ∧ s₁ = s.renewed k p (s.time + p.period * 86400)) ∨
      s₁ = s.closed k) : Complete s [⟨k, s, s₁⟩] s₁ where
  none_due j hj := by
    by_cases hjk : j = k
    · subst hjk
      have htime := hj.2.2
      rw [hone.time] at htime
      omega
    · exact hjk (honly j ((hone.due hjk).mp hj))
  once := List.nodup_singleton _
  due j := by
    rw [List.map_singleton, List.mem_singleton]
    exact ⟨fun hj => hj ▸ hdue, honly j⟩
  handled t ht := by
    obtain rfl := List.mem_singleton.mp ht
    exact hhandled

/-- Renewals that stay within 32 bits. -/
def NoWrap (s : Ledger) : Prop := ∀ k p, s.Due k → s.WillRenew k p → s.time + p.period * 86400 < 2 ^ 32

theorem WillRenew.unique {p q : PaidSubscription} (hp : s.WillRenew k p) (hq : s.WillRenew k q) : p = q :=
  Option.some.inj (hp.1.symm.trans hq.1)

theorem Orderly.renewal_pos (h : Orderly s) {p : PaidSubscription} (hp : s.WillRenew k p) : 0 < p.period := by
  obtain ⟨hmem, hrow⟩ := Table.find_eq_some.mp hp.1
  rw [← hrow]
  exact h.period _ hmem

/-- **What the processing does**, as long as no renewal wraps: nothing where nothing is due, and one turn otherwise. -/
theorem processingTurns_cases (h : Orderly s) (hwrap : s.NoWrap) :
    ((∀ j, ¬ s.Due j) ∧ s.processingTurns = .ok []) ∨
    ∃ k s₁, s.Due k ∧ s.processingTurns = .ok [⟨k, s, s₁⟩] ∧ OneTurn s s₁ k ∧
      s.time < (s₁.paidSubscribes.row k).nextTime ∧
      ((∃ p, s.WillRenew k p ∧ s₁ = s.renewed k p (s.time + p.period * 86400)) ∨
        (∀ p, ¬ s.WillRenew k p) ∧ s₁ = s.closed k) := by
  by_cases hany : ∃ j, s.Due j
  · right
    obtain ⟨j, hj⟩ := hany
    obtain ⟨k, hhead, hk, htime⟩ := hj.first
    have hdue := h.due hk htime
    rcases renewSubscribe_cases (h.known k hk) with ⟨p, hwill, hturn⟩ | ⟨hwont, hturn⟩
    · rw [Nat.mod_eq_of_lt (hwrap k p hdue hwill)] at hturn
      have hlate : s.time < ((s.renewed k p (s.time + p.period * 86400)).paidSubscribes.row k).nextTime := by
        have hpos := h.renewal_pos hwill
        rw [renewed_nextTime]
        omega
      exact ⟨k, _, hdue, processingTurns_single hhead hdue hturn (renewed_oneTurn p _) hlate, renewed_oneTurn p _, hlate,
        .inl ⟨p, hwill, rfl⟩⟩
    · have hlate : s.time < ((s.closed k).paidSubscribes.row k).nextTime := by
        rw [closed_nextTime]
        exact h.clock
      exact ⟨k, _, hdue, processingTurns_single hhead hdue hturn closed_oneTurn hlate, closed_oneTurn, hlate,
        .inr ⟨hwont, rfl⟩⟩
  · left
    have hnone : ∀ j, ¬ s.Due j := fun j hj => hany ⟨j, hj⟩
    refine ⟨hnone, ?_⟩
    apply subscribeTurns_idle
    intro j hj
    by_contra hc
    have hmem := mem_byNextTime.mp (List.mem_of_head? hj)
    exact hnone j (h.due hmem (Nat.not_lt.mp hc))

theorem processing_eq : s.paidSubscribeProcessing = s.processingTurns.map s.behind := subscribeLoop_eq _ _ _

/-- A complete processing has not wrapped: its first turn renews for the whole period or closes. -/
theorem Complete.first_exact {turns : List SubscribeTurn} (hc : Complete s turns s') (hturns : s.processingTurns = .ok turns)
    {p : PaidSubscription} (hhead : s.byNextTime.head? = some k) (hdue : s.Due k) (hwill : s.WillRenew k p)
    (hturn : s.renewSubscribe k = .ok (s.renewed k p ((s.time + p.period * 86400) % 2 ^ 32))) :
    s.time + p.period * 86400 < 2 ^ 32 := by
  obtain ⟨fuel, hfirst⟩ := processingTurns_first hhead hdue hturn
  obtain ⟨rest, hrest⟩ : ∃ rest, turns = ⟨k, s, s.renewed k p ((s.time + p.period * 86400) % 2 ^ 32)⟩ :: rest := by
    rw [hturns] at hfirst
    cases hr : subscribeTurns fuel _ _ with
    | error e => rw [hr] at hfirst; exact absurd hfirst (by simp [Except.map])
    | ok rest => rw [hr] at hfirst; exact ⟨rest, Except.ok.inj hfirst⟩
  have hnext := renewed_nextTime (s := s) (k := k) p ((s.time + p.period * 86400) % 2 ^ 32)
  rcases hc.handled _ (by rw [hrest]; exact List.mem_cons_self) with ⟨q, hq, heq⟩ | heq
  · obtain rfl : q = p := Option.some.inj (hq.symm.trans hwill.1)
    dsimp only at heq
    rw [heq, renewed_nextTime] at hnext
    rw [hnext]
    exact Nat.mod_lt _ (by decide)
  · -- a renewed subscription is still active
    have hrow := congrArg (fun x => (x.paidSubscribes.row k).active) heq
    dsimp only at hrow
    rw [renewed_row, if_pos rfl, closed_row, if_pos rfl] at hrow
    exact absurd (hdue.2.1.symm.trans hrow) (by simp [closeSubscribe])

/-- A complete processing whose first renewal has not wrapped has handled the only subscription that was due. -/
theorem Complete.only {turns : List SubscribeTurn} (hc : Complete s turns s') (hturns : s.processingTurns = .ok turns)
    (hsingle : s.processingTurns = .ok [⟨k, s, s₁⟩]) (hj : s.Due j) : j = k := by
  rw [hturns] at hsingle
  obtain rfl := Except.ok.inj hsingle
  simpa using (hc.due j).mpr hj

/-- **When the processing is complete**: at most one subscription is due, and its renewal stays within 32 bits. -/
theorem processing_complete_iff (h : Orderly s) :
    (∃ s' turns, s.paidSubscribeProcessing = .ok s' ∧ s.processingTurns = .ok turns ∧ Complete s turns s') ↔
      (∀ j k, s.Due j → s.Due k → j = k) ∧
        ∀ k p, s.Due k → s.WillRenew k p → s.time + p.period * 86400 < 2 ^ 32 := by
  constructor
  · rintro ⟨s', turns, -, hturns, hc⟩
    by_cases hany : ∃ j, s.Due j
    · obtain ⟨j, hj⟩ := hany
      obtain ⟨k, hhead, hk, htime⟩ := hj.first
      have hdue := h.due hk htime
      -- the first turn decides: it is the only one, and it is exact
      have hfirst : (∀ i, s.Due i → i = k) ∧ ∀ p, s.WillRenew k p → s.time + p.period * 86400 < 2 ^ 32 := by
        rcases renewSubscribe_cases (h.known k hk) with ⟨p, hwill, hturn⟩ | ⟨hwont, hturn⟩
        · have hexact := hc.first_exact hturns hhead hdue hwill hturn
          rw [Nat.mod_eq_of_lt hexact] at hturn
          have hpos := h.renewal_pos hwill
          have hsingle := processingTurns_single hhead hdue hturn (renewed_oneTurn p _)
            (by rw [renewed_nextTime]; omega)
          exact ⟨fun i hi => hc.only hturns hsingle hi, fun q hq => hwill.unique hq ▸ hexact⟩
        · have hsingle := processingTurns_single hhead hdue hturn closed_oneTurn (by rw [closed_nextTime]; exact h.clock)
          exact ⟨fun i hi => hc.only hturns hsingle hi, fun q hq => absurd hq (hwont q)⟩
      refine ⟨fun i i' hi hi' => (hfirst.1 i hi).trans (hfirst.1 i' hi').symm, ?_⟩
      intro i q hi hq
      obtain rfl := hfirst.1 i hi
      exact hfirst.2 q hq
    · exact ⟨fun j _ hj => absurd ⟨j, hj⟩ hany, fun j _ hj => absurd ⟨j, hj⟩ hany⟩
  · rintro ⟨honly, hwrap⟩
    rcases processingTurns_cases h hwrap with ⟨hnone, hidle⟩ | ⟨k, s₁, hdue, hsingle, hone, hlate, hturn⟩
    · refine ⟨s, [], by rw [processing_eq, hidle]; rfl, hidle, hnone, List.nodup_nil, ?_, ?_⟩
      · intro k
        simpa using hnone k
      · intro t ht
        exact absurd ht (by simp)
    · refine ⟨s₁, _, by rw [processing_eq, hsingle]; rfl, hsingle, ?_⟩
      apply Complete.single hdue (fun i hi => honly i k hi hdue) hone hlate
      rcases hturn with ⟨p, hwill, hs⟩ | ⟨-, hs⟩
      · exact .inl ⟨p, hwill.1, hs⟩
      · exact .inr hs

instance (s : Ledger) (k : AccountName × AccountName) : Decidable (s.Due k) := by
  unfold Due
  infer_instance

theorem orderly_iff : Orderly s ↔ (∀ k ∈ s.paidSubscribes.keys, k.1 ∈ s.accounts.keys ∧ k.2 ∈ s.accounts.keys) ∧
    (∀ k ∈ s.paidSubscribes.keys, (s.paidSubscribes.row k).active = false →
      (s.paidSubscribes.row k).nextTime = Config.maximumTime) ∧
    (∀ a ∈ s.paidSubscriptions.keys, 0 < (s.paidSubscriptions.row a).period) ∧ s.time < Config.maximumTime :=
  ⟨fun h => ⟨h.known, h.closed, h.period, h.clock⟩, fun h => ⟨h.1, h.2.1, h.2.2.1, h.2.2.2⟩⟩

instance (s : Ledger) : Decidable (Orderly s) := decidable_of_iff' _ orderly_iff

namespace Sample

/-- The initiator offers a subscription of one day for 100, and opens accounts for Alice and Bob with 1000 each. -/
def offerSubscription : List Operation :=
  [openAccount alice 3, openAccount bob 4, .transfer ⟨Config.initiatorName, alice, 1000, none⟩,
    .transfer ⟨Config.initiatorName, bob, 1000, none⟩, .setPaidSubscription Config.initiatorName 1 100 1]

/-- Somebody subscribes. -/
def subscribeTo (name : AccountName) : Operation :=
  .paidSubscribe ⟨name, Config.initiatorName, 1, 100, 1, true⟩

/-- A day later. -/
def dayLater (s : Ledger) : Ledger := s.moveHead ⟨Config.committeeAccount, s.time + 86400⟩

/-- What a test finds a day after Alice and Bob have subscribed. -/
theorem exists_subscribed {p : Ledger → Bool} (h : passes (offerSubscription.foldlM (evaluate names loc) start)
    (fun s => decide (s.signed (subscribeTo alice) ∧ s.signed (subscribeTo bob)) &&
      passes ([subscribeTo alice, subscribeTo bob].foldlM (evaluate names loc) s) (fun s' => p (dayLater s'))) = true) :
    ∃ s, Reachable names anyOperation s ∧ p s = true := by
  obtain ⟨s₁, h₁, ht⟩ := exists_of_passes h
  obtain ⟨hsigned, ht⟩ := Bool.and_eq_true_iff.mp ht
  obtain ⟨halice, hbob⟩ := of_decide_eq_true hsigned
  obtain ⟨s₂, h₂, ht⟩ := exists_of_passes ht
  have hr₁ : Reachable names anyOperation s₁ := .step start_reachable (.transaction (by decide) (.of_foldlM h₁))
  have hr₂ : Reachable names anyOperation s₂ := by
    refine .step hr₁ (.transaction ?_ (.of_foldlM h₂))
    intro o ho
    simp only [List.mem_cons, List.not_mem_nil, or_false] at ho
    rcases ho with rfl | rfl
    · exact halice
    · exact hbob
  exact ⟨dayLater s₂, .step hr₂ (.moveHead _), ht⟩

end Sample

/-- **Of two subscriptions that come due in one block one is left over**: it is active and due still. -/
theorem second_left_due : ∃ s s', Reachable Sample.names anyOperation s ∧
    s.Due (Sample.alice, Config.initiatorName) ∧ s.Due (Sample.bob, Config.initiatorName) ∧
    s.paidSubscribeProcessing = .ok s' ∧ s'.Due (Sample.bob, Config.initiatorName) := by
  obtain ⟨s, hr, ht⟩ := Sample.exists_subscribed
    (p := fun s => decide (s.Due (Sample.alice, Config.initiatorName) ∧ s.Due (Sample.bob, Config.initiatorName)) &&
      passes s.paidSubscribeProcessing (fun s' => decide (s'.Due (Sample.bob, Config.initiatorName))))
    (by decide +kernel)
  obtain ⟨hdue, ht⟩ := Bool.and_eq_true_iff.mp ht
  obtain ⟨s', h', ht⟩ := exists_of_passes ht
  exact ⟨s, s', hr, (of_decide_eq_true hdue).1, (of_decide_eq_true hdue).2, h', of_decide_eq_true ht⟩

/-- The processing of that block is not complete. -/
theorem processing_complete_iff_sample : ∃ s, Reachable Sample.names anyOperation s ∧
    s.Due (Sample.alice, Config.initiatorName) ∧ s.Due (Sample.bob, Config.initiatorName) ∧
    ¬ ∃ s' turns, s.paidSubscribeProcessing = .ok s' ∧ s.processingTurns = .ok turns ∧ Complete s turns s' := by
  obtain ⟨s, hr, ht⟩ := Sample.exists_subscribed
    (p := fun s => decide (Orderly s ∧ s.Due (Sample.alice, Config.initiatorName) ∧
      s.Due (Sample.bob, Config.initiatorName))) (by decide +kernel)
  obtain ⟨horderly, halice, hbob⟩ := of_decide_eq_true ht
  refine ⟨s, hr, halice, hbob, ?_⟩
  rw [processing_complete_iff horderly]
  rintro ⟨honly, -⟩
  exact absurd (honly _ _ halice hbob) (by decide)

end Ledger

end VizNode
