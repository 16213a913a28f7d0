import VizNode.Ledger.Subscriptions

/-!
# `VizNode.Ledger.Credits` — what is left of a subscription that is changed

A subscription that is changed before its time counts for the new one: what its remaining seconds are worth at the old
price is the *credit*, and only what is missing is paid. **The credit goes by the period the subscription has stored**,
and a renewal takes over the price and the time of the creator's new terms without their period; after that the credit
can be many times of what was paid.

## Contents
- **A change.** `credit`, `FairChange`.
- **An operation.** What an accepted `paid_subscribe` writes, in four cases.
- **The books.** `Books`, the runs with what was put into each subscription; their invariants.
- **The claim of a change**, and the change that gets ten times of what was paid.
-/

namespace VizNode

namespace Ledger

variable {s s' s₁ : Ledger} {o : PaidSubscribeOp} {k j : AccountName × AccountName}

/-! ## A change -/

namespace PaidSubscribeOp

def key (o : PaidSubscribeOp) : AccountName × AccountName := (o.subscriber, o.account)

/-- What a period of the operation costs. -/
def cost (o : PaidSubscribeOp) : Nat := o.amount * o.level

end PaidSubscribeOp

def Running (s : Ledger) (k : AccountName × AccountName) : Prop :=
  k ∈ s.paidSubscribes.keys ∧ (s.paidSubscribes.row k).active = true

/-- The operation asks for what the subscription already is. -/
def SameModel (s : Ledger) (o : PaidSubscribeOp) : Prop :=
  (s.paidSubscribes.row o.key).amount = o.amount ∧ (s.paidSubscribes.row o.key).level = o.level ∧
    (s.paidSubscribes.row o.key).period = o.period

instance (s : Ledger) (k : AccountName × AccountName) : Decidable (s.Running k) := by
  unfold Running
  infer_instance

instance (s : Ledger) (o : PaidSubscribeOp) : Decidable (s.SameModel o) := by
  unfold SameModel
  infer_instance

/-- What the remaining seconds count for, before it is rounded. -/
def unused (s : Ledger) (k : AccountName × AccountName) : Int :=
  (((s.paidSubscribes.row k).amount * (s.paidSubscribes.row k).level : Nat) : Int) *
    (((s.paidSubscribes.row k).nextTime : Int) - s.time)

/-- **The credit of a subscription**: its remaining seconds, at its price for each of its periods. -/
def credit (s : Ledger) (k : AccountName × AccountName) : Int :=
  s.unused k / (((s.paidSubscribes.row k).period * 86400 : Nat) : Int)

/-- The seconds the credit lasts for on the new terms. -/
def secondsFor (s : Ledger) (o : PaidSubscribeOp) : Nat := (s.credit o.key).toNat * o.period * 86400 / o.cost

/-- Tokens that moved from one account to another, and nothing else. -/
def transferred (s : Ledger) (subscriber account : AccountName) (cost : Int) : Ledger :=
  (s.adjustBalance subscriber (-cost)).adjustBalance account cost

/-- **The claim of a change**, where `put` was paid for the current period: the credit is between nothing and that, the
    creator receives what the subscriber pays and nothing else moves, and what is paid for now is worth no more than
    the credit and the payment. -/
structure FairChange (s : Ledger) (o : PaidSubscribeOp) (put : Int) (s' : Ledger) : Prop where
  credit_nonneg : 0 ≤ s.credit o.key
  credit_le     : s.credit o.key ≤ put
  later         : s.time < (s'.paidSubscribes.row o.key).nextTime
  moved         : ∃ pay : Int, 0 ≤ pay ∧
    { s' with paidSubscribes := s.paidSubscribes } = s.transferred o.subscriber o.account pay ∧
    (o.cost : Int) * (((s'.paidSubscribes.row o.key).nextTime : Int) - s.time) ≤
      (s.credit o.key + pay) * ((o.period * 86400 : Nat) : Int)

/-! ## An operation -/

/-- One subscription was written; the offers, the accounts and the clock are as they were. -/
structure Placed (s s' : Ledger) (k : AccountName × AccountName) (p : PaidSubscribe) : Prop where
  time     : s'.time = s.time
  offers   : s'.paidSubscriptions = s.paidSubscriptions
  accounts : s'.accounts.keys = s.accounts.keys
  keys     : ∀ j, j ∈ s'.paidSubscribes.keys ↔ j ∈ s.paidSubscribes.keys ∨ j = k
  row      : ∀ j, s'.paidSubscribes.row j = if j = k then p else s.paidSubscribes.row j

theorem Placed.row_self {p : PaidSubscribe} (h : Placed s s' k p) : s'.paidSubscribes.row k = p := by
  rw [h.row, if_pos rfl]

theorem Placed.row_of_ne {p : PaidSubscribe} (h : Placed s s' k p) (hj : j ≠ k) :
    s'.paidSubscribes.row j = s.paidSubscribes.row j := by
  rw [h.row, if_neg hj]

/-- **What an accepted operation writes**: it turns the renewal on or off, changes a running subscription with or without a
    payment, or begins a new one. -/
inductive Subscribed (s : Ledger) (o : PaidSubscribeOp) (s' : Ledger) : Prop
  | toggled (hrun : s.Running o.key) (hsame : s.SameModel o)
      (hp : Placed s s' o.key { s.paidSubscribes.row o.key with autoRenewal := o.autoRenewal })
  | covered (hrun : s.Running o.key) (hnew : ¬ s.SameModel o) (hunused : 0 ≤ s.unused o.key)
      (hle : (o.cost : Int) ≤ s.credit o.key) (hp : Placed s s' o.key (o.subscribe s.time (s.secondsFor o)))
      (hmoved : { s' with paidSubscribes := s.paidSubscribes } = s)
  | topped (hrun : s.Running o.key) (hnew : ¬ s.SameModel o) (hunused : 0 ≤ s.unused o.key)
      (hlt : s.credit o.key < o.cost) (hp : Placed s s' o.key (o.subscribe s.time (o.period * 86400)))
      (hmoved : { s' with paidSubscribes := s.paidSubscribes } =
        s.transferred o.subscriber o.account (o.cost - s.credit o.key))
  | begun (hrun : ¬ s.Running o.key) (hp : Placed s s' o.key (o.subscribe s.time (o.period * 86400)))

/-- The row that was there is written over. -/
theorem modify_placed {p : PaidSubscribe} (hk : k ∈ s.paidSubscribes.keys) (htime : s₁.time = s.time)
    (hoffers : s₁.paidSubscriptions = s.paidSubscriptions) (haccounts : s₁.accounts.keys = s.accounts.keys)
    (hsubs : s₁.paidSubscribes = s.paidSubscribes) :
    Placed s { s₁ with paidSubscribes := s₁.paidSubscribes.modify k (fun _ => p) } k p where
  time := htime
  offers := hoffers
  accounts := haccounts
  keys j := by
    show j ∈ s₁.paidSubscribes.keys ↔ _
    rw [hsubs]
    constructor
    · exact .inl
    · rintro (hj | rfl)
      · exact hj
      · exact hk
  row j := by
    show (s₁.paidSubscribes.modify k (fun _ => p)).row j = _
    rw [hsubs]
    exact Table.modify_row

theorem paySubscription_eq_ok {a b : AccountName} {cost : Int} : s.paySubscription a b cost = .ok s' ↔
    a ∈ s.accounts.keys ∧ b ∈ s.accounts.keys ∧ cost ≤ (s.accounts.row a).balance ∧ s.transferred a b cost = s' := by
  simp only [paySubscription, bind_eq_ok, require_eq_ok, getAccount_eq_ok, pure_eq_ok]
  constructor
  · rintro ⟨-, ⟨ha, rfl⟩, -, ⟨hb, -⟩, -, hle, rfl⟩
    exact ⟨ha, hb, hle, rfl⟩
  · rintro ⟨ha, hb, hle, rfl⟩
    exact ⟨_, ⟨ha, rfl⟩, _, ⟨hb, rfl⟩, (), hle, rfl⟩

/-- A change of a running subscription. -/
theorem changeSubscription_cases (hrun : s.Running o.key) (hnew : ¬ s.SameModel o)
    (h : s.changeSubscription o (s.paidSubscribes.row o.key) = .ok s') : Subscribed s o s' := by
  simp only [changeSubscription, bind_eq_ok, mulDiv_eq_ok] at h
  obtain ⟨remain, ⟨-, hunused, hremain⟩, h⟩ := h
  obtain rfl : s.credit o.key = remain := hremain
  by_cases hle : ((o.amount * o.level : Nat) : Int) ≤ s.credit o.key
  · rw [if_pos hle] at h
    obtain rfl := pure_eq_ok.mp h
    exact .covered hrun hnew hunused hle (modify_placed hrun.1 rfl rfl rfl rfl) rfl
  · rw [if_neg hle] at h
    simp only [bind_eq_ok, pure_eq_ok, paySubscription_eq_ok] at h
    obtain ⟨_, ⟨-, -, -, rfl⟩, rfl⟩ := h
    exact .topped hrun hnew hunused (Int.not_le.mp hle) (modify_placed hrun.1 rfl rfl rfl rfl) rfl

/-- A new subscription, in place of one that is closed. -/
theorem newSubscription_placed {t : Table (AccountName × AccountName) PaidSubscribe} (ht : o.key ∉ t.keys)
    (hkeys : ∀ j, j ≠ o.key → (j ∈ t.keys ↔ j ∈ s.paidSubscribes.keys)) (hrow : ∀ j, j ≠ o.key → t.row j = s.paidSubscribes.row j)
    (h : newSubscription { s with paidSubscribes := t } o = .ok s') :
    Placed s s' o.key (o.subscribe s.time (o.period * 86400)) := by
  simp only [newSubscription, bind_eq_ok, pure_eq_ok, paySubscription_eq_ok] at h
  obtain ⟨_, ⟨-, -, -, rfl⟩, rfl⟩ := h
  refine ⟨rfl, rfl, rfl, ?_, ?_⟩
  · intro j
    show j ∈ (t.insert o.key _).keys ↔ _
    rw [Table.mem_insert_keys ht]
    by_cases hj : j = o.key
    · simp only [hj, or_true]
    · simp only [hj, or_false, hkeys j hj]
  · intro j
    show (t.insert o.key _).row j = _
    rw [Table.insert_row ht]
    by_cases hj : j = o.key
    · rw [if_pos hj, if_pos hj]
      rfl
    · rw [if_neg hj, if_neg hj, hrow j hj]

/-- What an accepted operation is about. -/
structure Accepts (s : Ledger) (o : PaidSubscribeOp) : Prop where
  subscriber : o.subscriber ∈ s.accounts.keys
  account    : o.account ∈ s.accounts.keys
  cost_pos   : 0 < o.cost
  period_pos : 0 < o.period

theorem paidSubscribe_cases (h : s.paidSubscribe o = .ok s') : Accepts s o ∧ Subscribed s o s' := by
  simp only [paidSubscribe, bind_eq_ok, require_eq_ok, getAccount_eq_ok] at h
  obtain ⟨-, ⟨-, hamount, hperiod, -⟩, -, -, -, hlevel, -, ⟨hs, -⟩, -, ⟨ha, -⟩, h⟩ := h
  refine ⟨⟨hs, ha, Nat.mul_pos hamount hlevel, hperiod⟩, ?_⟩
  cases hp : s.paidSubscriptions.find o.account with
  | none =>
      rw [hp] at h
      cases h
  | some p =>
      rw [hp] at h
      simp only [bind_eq_ok] at h
      obtain ⟨-, -, -, -, -, -, -, -, h⟩ := h
      cases ho : s.paidSubscribes.find (o.subscriber, o.account) with
      | none =>
          rw [ho] at h
          have hnot : o.key ∉ s.paidSubscribes.keys := Table.find_eq_none.mp ho
          exact .begun (fun hrun => hnot hrun.1) (newSubscription_placed hnot (fun _ _ => Iff.rfl) (fun _ _ => rfl) h)
      | some old =>
          rw [ho] at h
          dsimp only at h
          obtain ⟨hk, rfl⟩ := Table.find_eq_some.mp ho
          by_cases hactive : (s.paidSubscribes.row (o.subscriber, o.account)).active = true
          · have hrun : s.Running o.key := ⟨hk, hactive⟩
            rw [if_pos hactive] at h
            by_cases hsame : (s.paidSubscribes.row (o.subscriber, o.account)).amount = o.amount ∧
                (s.paidSubscribes.row (o.subscriber, o.account)).level = o.level ∧
                (s.paidSubscribes.row (o.subscriber, o.account)).period = o.period
            · rw [if_pos hsame] at h
              simp only [bind_eq_ok, pure_eq_ok] at h
              obtain ⟨-, -, rfl⟩ := h
              refine .toggled hrun hsame ⟨rfl, rfl, rfl, ?_, fun _ => rfl⟩
              intro j
              show j ∈ s.paidSubscribes.keys ↔ _
              exact ⟨.inl, fun hj => hj.elim id (fun hj => hj ▸ hk)⟩
            · rw [if_neg hsame] at h
              exact changeSubscription_cases hrun hsame h
          · rw [if_neg hactive] at h
            refine .begun (fun hrun => hactive hrun.2) (newSubscription_placed ?_ ?_ ?_ h)
            · rw [Table.mem_erase_keys]
              exact fun hc => hc.1 rfl
            · intro j hj
              rw [Table.mem_erase_keys]
              exact ⟨And.right, And.intro hj⟩
            · intro j _
              rw [Table.erase_row]

/-! ## The books -/

/-- What was put into the current period of each subscription. -/
abbrev Puts := AccountName × AccountName → Int

/-- What an operation puts in: nothing new where only the renewal is turned on or off, the credit and what is missing to
    the price where a running subscription is changed, and the price of a new one. -/
def putBy (s : Ledger) (o : PaidSubscribeOp) (put : Puts) : Puts := fun k =>
  if k = o.key then
    if s.Running k then if s.SameModel o then put k else max (s.credit k) o.cost
    else o.cost
  else put k

/-- What a turn of the processing puts in: the price of a renewal. -/
def putByTurn (put : Puts) (t : SubscribeTurn) : Puts := fun k =>
  if k = t.key ∧ (t.after.paidSubscribes.row k).active = true then
    (((t.after.paidSubscribes.row k).amount * (t.after.paidSubscribes.row k).level : Nat) : Int)
  else put k

/-- **The new paid time stays within 32 bits.** -/
def Fits (s : Ledger) (o : PaidSubscribeOp) : Prop :=
  s.time + o.period * 86400 < 2 ^ 32 ∧ (s.Running o.key → s.time + s.secondsFor o < 2 ^ 32)

/-- **Every renewal finds the period it has stored**, and stays within 32 bits. -/
def SameTerms (s : Ledger) : Prop :=
  ∀ k p, s.Due k → s.WillRenew k p →
    p.period = (s.paidSubscribes.row k).period ∧ s.time + p.period * 86400 < 2 ^ 32

/-- **The runs of a node, as the subscriptions see them**, with what was put into each subscription. Operations on
    subscriptions fit, and renewals find the same terms. -/
inductive Books : Ledger → Puts → Prop
  | start {s : Ledger} (hoffers : s.paidSubscriptions.keys = []) (hsubs : s.paidSubscribes.keys = [])
      (hclock : s.time < Config.maximumTime) : Books s (fun _ => 0)
  | offer {s s' : Ledger} {put : Puts} {a : AccountName} {levels amount period : Nat} (hb : Books s put)
      (h : s.setPaidSubscription a levels amount period = .ok s') : Books s' put
  | subscribe {s s' : Ledger} {put : Puts} {o : PaidSubscribeOp} (hb : Books s put) (hfits : s.Fits o)
      (h : s.paidSubscribe o = .ok s') : Books s' (s.putBy o put)
  | process {s s' : Ledger} {put : Puts} {turns : List SubscribeTurn} (hb : Books s put) (hterms : s.SameTerms)
      (hturns : s.processingTurns = .ok turns) (h : s.paidSubscribeProcessing = .ok s') :
      Books s' (turns.foldl putByTurn put)
  /-- Whatever else a node does: accounts are added, the clock runs. -/
  | other {s s' : Ledger} {put : Puts} (hb : Books s put) (hoffers : s'.paidSubscriptions = s.paidSubscriptions)
      (hsubs : s'.paidSubscribes = s.paidSubscribes) (haccounts : ∀ a ∈ s.accounts.keys, a ∈ s'.accounts.keys)
      (htime : s.time ≤ s'.time) (hclock : s'.time < Config.maximumTime) : Books s' put

theorem SameTerms.noWrap (h : s.SameTerms) : s.NoWrap := fun k p hdue hwill => (h k p hdue hwill).2

/-- What an offer leaves alone. -/
theorem setPaidSubscription_eq_ok {a : AccountName} {levels amount period : Nat}
    (h : s.setPaidSubscription a levels amount period = .ok s') : s'.paidSubscribes = s.paidSubscribes ∧
      s'.time = s.time ∧ s'.accounts.keys = s.accounts.keys ∧
      ∀ b ∈ s'.paidSubscriptions.keys, 0 < (s'.paidSubscriptions.row b).period ∨
        b ∈ s.paidSubscriptions.keys ∧ s'.paidSubscriptions.row b = s.paidSubscriptions.row b := by
  simp only [setPaidSubscription, bind_eq_ok, require_eq_ok, getAccount_eq_ok] at h
  obtain ⟨-, ⟨-, -, hperiod, -⟩, -, -, -, -, h⟩ := h
  cases hp : s.paidSubscriptions.find a with
  | some p =>
      rw [hp] at h
      have hs := pure_eq_ok.mp h
      have hrow : ∀ b, s'.paidSubscriptions.row b = if b = a then ⟨levels, amount, period, s.time⟩
          else s.paidSubscriptions.row b := by
        rw [← hs]
        exact fun _ => rfl
      subst hs
      refine ⟨rfl, rfl, rfl, fun b hb => ?_⟩
      by_cases hba : b = a
      · left
        rw [hrow, if_pos hba]
        exact hperiod
      · right
        rw [hrow, if_neg hba]
        exact ⟨hb, rfl⟩
  | none =>
      rw [hp] at h
      have hnot := Table.find_eq_none.mp hp
      obtain ⟨s₁, h₁, h⟩ := ite_bind_eq_ok h
      obtain rfl := pure_eq_ok.mp h
      have hfee : s₁.paidSubscribes = s.paidSubscribes ∧ s₁.time = s.time ∧ s₁.accounts.keys = s.accounts.keys ∧
          s₁.paidSubscriptions = s.paidSubscriptions := by
        split at h₁
        · obtain ⟨-, -, rfl⟩ := payFee_eq_ok.mp h₁
          exact ⟨rfl, rfl, rfl, rfl⟩
        · obtain rfl := pure_eq_ok.mp h₁
          exact ⟨rfl, rfl, rfl, rfl⟩
      obtain ⟨hsubs, htime, haccounts, hoffers⟩ := hfee
      refine ⟨hsubs, htime, haccounts, fun b hb => ?_⟩
      have hnot₁ : a ∉ s₁.paidSubscriptions.keys := by rw [hoffers]; exact hnot
      rcases (Table.mem_insert_keys hnot₁).mp hb with hb | rfl
      · right
        rw [← hoffers]
        exact ⟨hb, Table.insert_row_of_mem hnot₁ hb⟩
      · left
        show 0 < ((s₁.paidSubscriptions.insert b _).row b).period
        rw [Table.insert_row_self hnot₁]
        exact hperiod

/-- A subscription that was written is active, or it was closed before. -/
theorem Subscribed.placed (h : Subscribed s o s') : ∃ p, Placed s s' o.key p ∧ p.active = true := by
  cases h with
  | toggled hrun _ hp => exact ⟨_, hp, hrun.2⟩
  | covered _ _ _ _ hp => exact ⟨_, hp, rfl⟩
  | topped _ _ _ _ hp => exact ⟨_, hp, rfl⟩
  | begun _ hp => exact ⟨_, hp, rfl⟩

/-! ### The subscriptions are in order -/

theorem Orderly.offer {a : AccountName} {levels amount period : Nat} (h : Orderly s)
    (hop : s.setPaidSubscription a levels amount period = .ok s') : Orderly s' := by
  obtain ⟨hsubs, htime, haccounts, hoffers⟩ := setPaidSubscription_eq_ok hop
  refine ⟨?_, ?_, ?_, ?_⟩
  · rw [hsubs, haccounts]
    exact h.known
  · rw [hsubs]
    exact h.closed
  · intro b hb
    rcases hoffers b hb with hpos | ⟨hb', hrow⟩
    · exact hpos
    · rw [hrow]
      exact h.period b hb'
  · rw [htime]
    exact h.clock

theorem Orderly.subscribe (h : Orderly s) (hop : s.paidSubscribe o = .ok s') : Orderly s' := by
  obtain ⟨haccepts, hsub⟩ := paidSubscribe_cases hop
  obtain ⟨p, hp, hactive⟩ := hsub.placed
  refine ⟨?_, ?_, ?_, ?_⟩
  · intro j hj
    rw [hp.accounts]
    rcases (hp.keys j).mp hj with hj | rfl
    · exact h.known j hj
    · exact ⟨haccepts.subscriber, haccepts.account⟩
  · intro j hj hclosed
    by_cases hjk : j = o.key
    · subst hjk
      rw [hp.row_self, hactive] at hclosed
      exact absurd hclosed (by decide)
    · rw [hp.row_of_ne hjk] at hclosed ⊢
      exact h.closed j (((hp.keys j).mp hj).resolve_right hjk) hclosed
  · rw [hp.offers]
    exact h.period
  · rw [hp.time]
    exact h.clock

/-- A turn that renews or closes keeps the order. -/
theorem Orderly.turn (h : Orderly s) (hone : OneTurn s s₁ k) (haccounts : s₁.accounts.keys = s.accounts.keys)
    (hoffers : s₁.paidSubscriptions = s.paidSubscriptions)
    (hclosed : (s₁.paidSubscribes.row k).active = false → (s₁.paidSubscribes.row k).nextTime = Config.maximumTime) :
    Orderly s₁ := by
  refine ⟨?_, ?_, ?_, ?_⟩
  · rw [hone.keys, haccounts]
    exact h.known
  · intro j hj hc
    by_cases hjk : j = k
    · subst hjk
      exact hclosed hc
    · rw [hone.row j hjk] at hc ⊢
      rw [hone.keys] at hj
      exact h.closed j hj hc
  · rw [hoffers]
    exact h.period
  · rw [hone.time]
    exact h.clock

theorem renewed_active {p : PaidSubscription} {next : Nat} :
    ((s.renewed k p next).paidSubscribes.row k).active = (s.paidSubscribes.row k).active := by
  rw [renewed_row, if_pos rfl]

theorem closed_active : ((s.closed k).paidSubscribes.row k).active = false := by
  rw [closed_row, if_pos rfl]
  rfl

theorem Orderly.process (h : Orderly s) (hwrap : s.NoWrap) (hop : s.paidSubscribeProcessing = .ok s') :
    Orderly s' := by
  rw [processing_eq] at hop
  rcases processingTurns_cases h hwrap with ⟨-, hidle⟩ | ⟨k, s₁, hdue, hsingle, hone, -, hturn⟩
  · rw [hidle] at hop
    exact Except.ok.inj hop ▸ h
  · rw [hsingle] at hop
    obtain rfl : s₁ = s' := Except.ok.inj hop
    rcases hturn with ⟨p, -, rfl⟩ | ⟨-, rfl⟩
    · refine h.turn hone rfl rfl fun hc => ?_
      rw [renewed_active, hdue.2.1] at hc
      exact absurd hc (by decide)
    · exact h.turn hone rfl rfl fun _ => closed_nextTime

/-- **In every run the subscriptions are in order.** -/
theorem Books.orderly {put : Puts} (hb : Books s put) : Orderly s := by
  induction hb with
  | start hoffers hsubs hclock =>
      refine ⟨?_, ?_, ?_, hclock⟩
      · simp [hsubs]
      · simp [hsubs]
      · simp [hoffers]
  | offer _ h ih => exact ih.offer h
  | subscribe _ _ h ih => exact ih.subscribe h
  | process _ hterms _ h ih => exact ih.process hterms.noWrap h
  | other _ hoffers hsubs haccounts _ hclock ih =>
      refine ⟨?_, ?_, ?_, hclock⟩
      · rw [hsubs]
        exact fun k hk => ⟨haccounts _ (ih.known k hk).1, haccounts _ (ih.known k hk).2⟩
      · rw [hsubs]
        exact ih.closed
      · rw [hoffers]
        exact ih.period

/-! ### What was put in covers what is left -/

/-- What is left of a running subscription is worth no more than was put in. -/
def PaidFor (s : Ledger) (put : Puts) : Prop :=
  ∀ k, s.Running k → 0 < (s.paidSubscribes.row k).period ∧
    s.unused k ≤ put k * (((s.paidSubscribes.row k).period * 86400 : Nat) : Int)

/-- What is left of a subscription that has just begun to run. -/
theorem unused_subscribe {now seconds : Nat} (hfits : now + seconds < 2 ^ 32) (htime : s.time = now)
    (hrow : s.paidSubscribes.row k = o.subscribe now seconds) : s.unused k = (o.cost : Int) * seconds := by
  unfold unused
  rw [hrow, htime]
  show ((o.amount * o.level : Nat) : Int) * (((now + seconds) % 2 ^ 32 : Nat) - now) = _
  rw [Nat.mod_eq_of_lt hfits, Int.natCast_add, add_sub_cancel_left]
  rfl

/-- What the credit lasts for is worth no more than the credit. -/
theorem secondsFor_worth (hcredit : 0 ≤ s.credit o.key) :
    (o.cost : Int) * s.secondsFor o ≤ s.credit o.key * ((o.period * 86400 : Nat) : Int) := by
  obtain ⟨c, hc⟩ := Int.eq_ofNat_of_zero_le hcredit
  have hfloor : o.cost * s.secondsFor o ≤ (s.credit o.key).toNat * o.period * 86400 := Nat.mul_div_le _ _
  rw [hc] at hfloor ⊢
  rw [Int.toNat_natCast, Nat.mul_assoc] at hfloor
  exact_mod_cast hfloor

/-- The credit is worth no more than what is left. -/
theorem PaidFor.credit_le {put : Puts} (h : PaidFor s put) (hrun : s.Running k) : s.credit k ≤ put k := by
  obtain ⟨hpos, hle⟩ := h k hrun
  exact Int.ediv_le_of_le_mul (by omega) hle

theorem credit_nonneg (h : 0 ≤ s.unused k) : 0 ≤ s.credit k := Int.ediv_nonneg h (Int.natCast_nonneg _)

theorem PaidFor.congr {put : Puts} (h : PaidFor s put) (hsubs : s'.paidSubscribes = s.paidSubscribes)
    (htime : s.time ≤ s'.time) : PaidFor s' put := by
  intro k hrun
  unfold Running at hrun
  rw [hsubs] at hrun ⊢
  obtain ⟨hpos, hle⟩ := h k hrun
  refine ⟨hpos, le_trans ?_ hle⟩
  unfold unused
  rw [hsubs]
  exact Int.mul_le_mul_of_nonneg_left (by omega) (Int.natCast_nonneg _)

/-- A subscription that no step has touched is as good as before. -/
theorem PaidFor.untouched {put put' : Puts} (h : PaidFor s put) (htime : s'.time = s.time)
    (hkey : k ∈ s'.paidSubscribes.keys → k ∈ s.paidSubscribes.keys)
    (hrow : s'.paidSubscribes.row k = s.paidSubscribes.row k) (hput : put' k = put k) (hrun : s'.Running k) :
    0 < (s'.paidSubscribes.row k).period ∧
      s'.unused k ≤ put' k * (((s'.paidSubscribes.row k).period * 86400 : Nat) : Int) := by
  unfold Running at hrun
  unfold unused
  rw [hrow] at hrun ⊢
  rw [htime, hput]
  exact h k ⟨hkey hrun.1, hrun.2⟩

theorem PaidFor.subscribe {put : Puts} (h : PaidFor s put) (hfits : s.Fits o) (hop : s.paidSubscribe o = .ok s') :
    PaidFor s' (s.putBy o put) := by
  obtain ⟨haccepts, hsub⟩ := paidSubscribe_cases hop
  obtain ⟨p, hplaced, -⟩ := hsub.placed
  intro k hrun
  by_cases hk : k = o.key
  · subst hk
    unfold putBy
    rw [if_pos rfl]
    cases hsub with
    | toggled hrun' hsame hp =>
        obtain ⟨hpos, hle⟩ := h _ hrun'
        rw [if_pos hrun', if_pos hsame, hp.row_self]
        refine ⟨hpos, ?_⟩
        unfold unused
        rw [hp.row_self, hp.time]
        exact hle
    | covered hrun' hnew hunused hcost hp =>
        rw [if_pos hrun', if_neg hnew, hp.row_self, unused_subscribe (hfits.2 hrun') hp.time hp.row_self]
        refine ⟨haccepts.period_pos, le_trans (secondsFor_worth (credit_nonneg hunused)) ?_⟩
        exact Int.mul_le_mul_of_nonneg_right (le_max_left _ _) (Int.natCast_nonneg _)
    | topped hrun' hnew hunused hcost hp =>
        rw [if_pos hrun', if_neg hnew, hp.row_self, unused_subscribe hfits.1 hp.time hp.row_self]
        refine ⟨haccepts.period_pos, ?_⟩
        exact Int.mul_le_mul_of_nonneg_right (le_max_right _ _) (Int.natCast_nonneg _)
    | begun hrun' hp =>
        rw [if_neg hrun', hp.row_self, unused_subscribe hfits.1 hp.time hp.row_self]
        exact ⟨haccepts.period_pos, le_refl _⟩
  · refine h.untouched hplaced.time (fun hj => ((hplaced.keys k).mp hj).resolve_right hk) (hplaced.row_of_ne hk) ?_ hrun
    unfold putBy
    exact if_neg hk

theorem PaidFor.process {put : Puts} {turns : List SubscribeTurn} (h : PaidFor s put) (horderly : Orderly s)
    (hterms : s.SameTerms) (hturns : s.processingTurns = .ok turns) (hop : s.paidSubscribeProcessing = .ok s') :
    PaidFor s' (turns.foldl putByTurn put) := by
  rw [processing_eq, hturns] at hop
  obtain rfl := Except.ok.inj hop
  rcases processingTurns_cases horderly hterms.noWrap with ⟨-, hidle⟩ | ⟨k, s₁, hdue, hsingle, hone, -, hturn⟩
  · rw [hturns] at hidle
    obtain rfl := Except.ok.inj hidle
    exact h
  · rw [hturns] at hsingle
    obtain rfl := Except.ok.inj hsingle
    show PaidFor s₁ (putByTurn put ⟨k, s, s₁⟩)
    intro j hrun
    unfold putByTurn
    by_cases hjk : j = k
    · subst hjk
      rw [if_pos ⟨rfl, hrun.2⟩]
      -- what runs on after its turn was renewed, on the period it has stored
      rcases hturn with ⟨p, hwill, rfl⟩ | ⟨-, rfl⟩
      · have hperiod := (hterms j p hdue hwill).1
        have hpos := horderly.renewal_pos hwill
        unfold unused
        rw [renewed_row, if_pos rfl]
        refine ⟨by rw [← hperiod]; exact hpos, ?_⟩
        show _ * (((s.time + p.period * 86400 : Nat) : Int) - s.time) ≤ _
        rw [Int.natCast_add, add_sub_cancel_left, hperiod]
      · have hactive := hrun.2
        rw [closed_active] at hactive
        exact absurd hactive (by decide)
    · rw [if_neg fun hc => hjk hc.1]
      exact h.untouched hone.time (fun hj => hone.keys ▸ hj) (hone.row j hjk) rfl hrun

/-- **In every run what is left of a subscription is covered by what was put into it.** -/
theorem Books.paidFor {put : Puts} (hb : Books s put) : PaidFor s put := by
  induction hb with
  | start _ hsubs _ =>
      intro k hrun
      have hk := hrun.1
      rw [hsubs] at hk
      exact absurd hk (by simp)
  | offer _ h ih =>
      obtain ⟨hsubs, htime, -⟩ := setPaidSubscription_eq_ok h
      exact ih.congr hsubs (Nat.le_of_eq htime.symm)
  | subscribe _ hfits h ih => exact ih.subscribe hfits h
  | process hb hterms hturns h ih => exact ih.process hb.orderly hterms hturns h
  | other _ _ hsubs _ htime _ ih => exact ih.congr hsubs htime

/-! ## The claim of a change -/

/-- Nothing that moves leaves the ledger as it is. -/
theorem transferred_zero {a b : AccountName} : s.transferred a b 0 = s := by
  have hnone : ∀ (u : Ledger) (c : AccountName), u.adjustBalance c 0 = u := by
    intro u c
    have haccounts : u.accounts.modify c (fun r => { r with balance := r.balance + 0 }) = u.accounts :=
      Table.modify_eq_self (congrArg (fun x => { u.accounts.row c with balance := x }) (add_zero _))
    show { u with accounts := u.accounts.modify c (fun r => { r with balance := r.balance + 0 }) } = u
    rw [haccounts]
  unfold transferred
  rw [neg_zero, hnone, hnone]

/-- **A change is fair**, in every run whose renewals find the same terms and whose paid times fit. -/
theorem change_fair {put : Puts} (hb : Books s put) (hfits : s.Fits o) (hop : s.paidSubscribe o = .ok s')
    (hrun : s.Running o.key) (hnew : ¬ s.SameModel o) : FairChange s o (put o.key) s' := by
  obtain ⟨haccepts, hsub⟩ := paidSubscribe_cases hop
  have hcover := hb.paidFor.credit_le hrun
  cases hsub with
  | toggled _ hsame _ => exact absurd hsame hnew
  | begun hnot _ => exact absurd hrun hnot
  | covered _ _ hunused hcost hp hmoved =>
      have hcredit := credit_nonneg hunused
      have hworth := secondsFor_worth hcredit
      have hnext : (s'.paidSubscribes.row o.key).nextTime = s.time + s.secondsFor o := by
        rw [hp.row_self]
        exact Nat.mod_eq_of_lt (hfits.2 hrun)
      refine ⟨hcredit, hcover, ?_, 0, le_refl _, hmoved.trans transferred_zero.symm, ?_⟩
      · -- the credit lasts for a whole period at least
        have hseconds : o.period * 86400 ≤ s.secondsFor o := by
          refine (Nat.le_div_iff_mul_le haccepts.cost_pos).mpr ?_
          rw [Nat.mul_comm, Nat.mul_assoc]
          exact Nat.mul_le_mul_right _ (by omega)
        have hpos := haccepts.period_pos
        omega
      · rw [hnext, Int.natCast_add, add_sub_cancel_left, add_zero]
        exact hworth
  | topped _ _ hunused hcost hp hmoved =>
      have hnext : (s'.paidSubscribes.row o.key).nextTime = s.time + o.period * 86400 := by
        rw [hp.row_self]
        exact Nat.mod_eq_of_lt hfits.1
      refine ⟨credit_nonneg hunused, hcover, ?_, o.cost - s.credit o.key, by omega, hmoved, ?_⟩
      · have hpos := haccepts.period_pos
        omega
      · rw [hnext, Int.natCast_add, add_sub_cancel_left, add_sub_cancel]

instance (s : Ledger) (o : PaidSubscribeOp) : Decidable (s.Fits o) := by
  unfold Fits
  infer_instance

namespace Sample

/-- The initiator opens an account for Alice with 1000. -/
def subscriberAccount : List Operation :=
  [openAccount alice 3, .transfer ⟨Config.initiatorName, alice, 1000, none⟩]

/-- Alice subscribes on one level, and then on two. -/
def firstLevel : PaidSubscribeOp := ⟨alice, Config.initiatorName, 1, 100, 1, true⟩
def secondLevel : PaidSubscribeOp := ⟨alice, Config.initiatorName, 2, 100, 1, true⟩

/-- Alice changes to the period of ten days, which the price of 100 is for by now. -/
def tenDays : PaidSubscribeOp := ⟨alice, Config.initiatorName, 1, 100, 10, true⟩

/-- The initiator makes the period ten days after Alice has subscribed. -/
def longerPeriod : List Operation :=
  [.paidSubscribe firstLevel, .setPaidSubscription Config.initiatorName 1 100 10]

end Sample

/-- **The credit is ten times of what was paid**: a renewal takes the time of the longer period, a change counts it by the
    shorter one, and Alice has a hundred days for nothing. -/
theorem credit_exceeds_payment : ∃ s s₁ s', Reachable Sample.names anyOperation s ∧ s.processClosing = .ok s₁ ∧
    (s.accounts.row Sample.alice).balance - (s₁.accounts.row Sample.alice).balance = 100 ∧
    s₁.paidSubscribe Sample.tenDays = .ok s' ∧ s₁.Running Sample.tenDays.key ∧ ¬ s₁.SameModel Sample.tenDays ∧
    (s'.accounts.row Sample.alice).balance = (s₁.accounts.row Sample.alice).balance ∧
    (s'.paidSubscribes.row Sample.tenDays.key).nextTime = s₁.time + 100 * 86400 ∧
    ¬ FairChange s₁ Sample.tenDays 100 s' := by
  have ht : passes (Sample.offerSubscription.foldlM (evaluate Sample.names Sample.loc) Sample.start) (fun s =>
      decide (s.signed (.paidSubscribe Sample.firstLevel) ∧ s.signed (.setPaidSubscription Config.initiatorName 1 100 10)) &&
      passes (Sample.longerPeriod.foldlM (evaluate Sample.names Sample.loc) s) (fun s =>
        passes (Sample.dayLater s).processClosing (fun s₁ =>
          passes (s₁.paidSubscribe Sample.tenDays) (fun s' => decide (
            ((Sample.dayLater s).accounts.row Sample.alice).balance - (s₁.accounts.row Sample.alice).balance = 100 ∧
            s₁.Running Sample.tenDays.key ∧ ¬ s₁.SameModel Sample.tenDays ∧
            (s'.accounts.row Sample.alice).balance = (s₁.accounts.row Sample.alice).balance ∧
            (s'.paidSubscribes.row Sample.tenDays.key).nextTime = s₁.time + 100 * 86400 ∧
            s₁.credit Sample.tenDays.key = 1000))))) = true := by decide +kernel
  obtain ⟨s₁, h₁, ht⟩ := exists_of_passes ht
  obtain ⟨hsigned, ht⟩ := Bool.and_eq_true_iff.mp ht
  obtain ⟨hsubscriber, hcreator⟩ := of_decide_eq_true hsigned
  obtain ⟨s₂, h₂, ht⟩ := exists_of_passes ht
  obtain ⟨s₃, h₃, ht⟩ := exists_of_passes ht
  obtain ⟨s', h', ht⟩ := exists_of_passes ht
  obtain ⟨hpaid, hrun, hnew, hfree, hnext, hcredit⟩ := of_decide_eq_true ht
  have hr₁ : Reachable Sample.names anyOperation s₁ :=
    .step Sample.start_reachable (.transaction (by decide) (.of_foldlM h₁))
  have hr₂ : Reachable Sample.names anyOperation s₂ := by
    refine .step hr₁ (.transaction ?_ (.of_foldlM h₂))
    intro o ho
    simp only [Sample.longerPeriod, List.mem_cons, List.not_mem_nil, or_false] at ho
    rcases ho with rfl | rfl
    · exact hsubscriber
    · exact hcreator
  refine ⟨Sample.dayLater s₂, s₃, s', .step hr₂ (.moveHead _), h₃, hpaid, h', hrun, hnew, hfree, hnext, fun hfair => ?_⟩
  have hle := hfair.credit_le
  rw [hcredit] at hle
  exact absurd hle (by decide)

/-- Alice changes from one level to two: her credit is what she has paid, and she pays as much again. -/
theorem change_fair_sample : ∃ s s' put, Books s put ∧ s.paidSubscribe Sample.secondLevel = .ok s' ∧
    s.Running Sample.secondLevel.key ∧ s.credit Sample.secondLevel.key = 100 ∧
    FairChange s Sample.secondLevel (put Sample.secondLevel.key) s' := by
  have ht : passes (Sample.subscriberAccount.foldlM (evaluate Sample.names Sample.loc) Sample.start) (fun s =>
      decide (s.paidSubscriptions.keys = [] ∧ s.paidSubscribes.keys = [] ∧ s.time < Config.maximumTime) &&
      passes (s.setPaidSubscription Config.initiatorName 2 100 1) (fun s₁ =>
        decide (s₁.Fits Sample.firstLevel) && passes (s₁.paidSubscribe Sample.firstLevel) (fun s₂ =>
          passes (s₂.paidSubscribe Sample.secondLevel) (fun _ => decide (s₂.Fits Sample.secondLevel ∧
            s₂.Running Sample.secondLevel.key ∧ ¬ s₂.SameModel Sample.secondLevel ∧
            s₂.credit Sample.secondLevel.key = 100))))) = true := by decide +kernel
  obtain ⟨s, -, ht⟩ := exists_of_passes ht
  obtain ⟨hstart, ht⟩ := Bool.and_eq_true_iff.mp ht
  obtain ⟨hoffers, hsubs, hclock⟩ := of_decide_eq_true hstart
  obtain ⟨s₁, h₁, ht⟩ := exists_of_passes ht
  obtain ⟨hfirst, ht⟩ := Bool.and_eq_true_iff.mp ht
  obtain ⟨s₂, h₂, ht⟩ := exists_of_passes ht
  obtain ⟨s', h', ht⟩ := exists_of_passes ht
  obtain ⟨hfits, hrun, hnew, hcredit⟩ := of_decide_eq_true ht
  have hb : Books s₂ (s₁.putBy Sample.firstLevel fun _ => 0) :=
    .subscribe (.offer (.start hoffers hsubs hclock) h₁) (of_decide_eq_true hfirst) h₂
  exact ⟨s₂, s', _, hb, h', hrun, hcredit, change_fair hb hfits h' hrun hnew⟩

end Ledger

end VizNode
