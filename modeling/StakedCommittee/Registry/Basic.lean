import StakedCommittee.Draft.Staging
import StakedCommittee.Parameters.Schedule

/-! The registry of validators: the store that holds them and the ledger that their deposits come
from. An operation is a plan: a query that ends in an answer and a draft. Carrying a plan out moves
the coins first and stores the draft last; if either fails, the coins moved go back. -/

namespace StakedCommittee

namespace Plan

/-- The parameters in force at a height. -/
def parameters (source : ParameterSource) (height : Height) : Query Parameters :=
  match source.inForce height with
  | .ok p => .done p
  | .error fault => .fail (.parameters fault)

/-- Stages an operation over the stored roster. -/
def ofStaging {α : Type} (op : Staging α) : Query (α × Draft) := do
  let r ← Query.roster
  op.run (Draft.ofStored r)

end Plan

/-- Failures from outside that an operation meets. They have no effect of their own. -/
structure Faults where
  /-- The failure of each read, counted from zero. -/
  read : Nat → Option StoreFault := fun _ => none
  write : Option StoreFault := none
  ledger : LedgerFaults := {}

structure Registry where
  store : Store
  ledger : Ledger
deriving DecidableEq

namespace Registry

variable {α : Type}

/-- Answers a question about the store. -/
def ask (reg : Registry) (faults : Faults) (q : Query α) : Except RegistryError α :=
  q.run faults.read reg.store

/-- Carries a draft out: moves its coins, then stores it. -/
def settle (reg : Registry) (faults : Faults) (d : Draft) : Except RegistryError Unit × Registry :=
  let moved := reg.ledger.moveAll faults.ledger [] d.transfers
  match moved.failure with
  | some cause =>
    (.error (.ledger cause),
      { reg with ledger := (moved.ledger.takeBack faults.ledger moved.made).1 })
  | none =>
    match d.commit faults.write reg.store with
    | .ok store => (.ok (), ⟨store, moved.ledger⟩)
    | .error e =>
      (.error e, { reg with ledger := (moved.ledger.takeBack faults.ledger moved.made).1 })

/-- Runs a plan and carries its draft out. -/
def perform (reg : Registry) (faults : Faults) (plan : Query (α × Draft)) :
    Except RegistryError α × Registry :=
  match plan.run faults.read reg.store with
  | .error e => (.error e, reg)
  | .ok (answer, d) =>
    let (outcome, after) := reg.settle faults d
    (outcome.map fun _ => answer, after)

end Registry

end StakedCommittee
