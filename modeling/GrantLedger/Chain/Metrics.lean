import GrantLedger.Event
import GrantLedger.Text.Double

/-!
# Metrics

Running counts of what a chain has done since it was opened, and the height of its last block, shown
in the text format that monitoring systems read: help, type and value of each metric, in the order
of names.
-/

namespace GrantLedger

/-- Running counts and the last height. The counts are natural numbers, without a bound; a
counter in memory holds 64 bits and would start over after 2 ^ 64 counts. -/
structure Metrics where
  /-- The height of the last committed block. -/
  blockHeight : Nat
  /-- Transactions delivered. -/
  transactions : Nat
  /-- Transactions that failed. -/
  failures : Nat
  /-- Grants given by transactions. -/
  grants : Nat
  /-- Grants revoked by transactions. -/
  revokes : Nat
  /-- Delegated messages accepted in transactions. -/
  execs : Nat
  /-- Grants swept at the end of blocks. -/
  pruned : Nat
deriving DecidableEq

namespace Metrics

/-- Nothing has happened yet. -/
def zero : Metrics := ⟨0, 0, 0, 0, 0, 0, 0⟩

/-- The largest height that is shown. -/
def maxHeight : Nat := Int64.maxValue.toNatClampNeg

/-- Count one event of a successful transaction. -/
def countEvent (m : Metrics) (e : Event) : Metrics :=
  if e.kind = Event.grantKind then { m with grants := m.grants + 1 }
  else if e.kind = Event.revokeKind then { m with revokes := m.revokes + 1 }
  else if e.kind = Event.execKind then { m with execs := m.execs + 1 }
  else m

/-- Count the events of a successful transaction. -/
def countEvents (m : Metrics) (events : List Event) : Metrics := events.foldl countEvent m

/-- One metric with its help and type. -/
def renderOne (name help type : String) (value : Nat) : String :=
  s!"# HELP {name} {help}\n# TYPE {name} {type}\n{name} {Double.render value}\n"

/-- All metrics, in the order of their names. -/
def render (m : Metrics) : String :=
  renderOne "ledgerkit_authz_exec_msgs_total" "Delegated messages accepted" "counter" m.execs ++
  renderOne "ledgerkit_authz_grants_total" "Grants created or overwritten" "counter" m.grants ++
  renderOne "ledgerkit_authz_pruned_total" "Expired grants swept at end of block" "counter"
    m.pruned ++
  renderOne "ledgerkit_authz_revokes_total" "Grants revoked" "counter" m.revokes ++
  renderOne "ledgerkit_block_height" "Last committed block height" "gauge" m.blockHeight ++
  renderOne "ledgerkit_transactions_failed_total" "Transactions rolled back" "counter"
    m.failures ++
  renderOne "ledgerkit_transactions_total" "Transactions delivered" "counter" m.transactions

end Metrics

end GrantLedger
