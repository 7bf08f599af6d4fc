import StakedCommittee.Draft.Basic
import StakedCommittee.Store.Lookup

/-! Steps that read the store and change a draft. A validator is read at most once: afterwards the
draft answers for it. -/

namespace StakedCommittee

/-- A step that reads the store and changes a draft. -/
abbrev Staging (α : Type) := StateT Draft Query α

namespace Staging

variable {α : Type}

def fail (e : RegistryError) : Staging α := fun _ => .fail e

/-- Asks the store, past the draft. -/
def ask (q : Query α) : Staging α := fun d => (·, d) <$> q

/-- The validator of an account, as the draft has it or else as it is stored. -/
def validator? (owner : Account) : Staging (Option Validator) := do
  match (← get).loaded.get? owner with
  | some l => return some l.validator
  | none =>
    match ← ask (Query.validator? owner) with
    | none => return none
    | some v =>
      modify (·.remember owner v)
      return some v

/-- The validator of an account, which will be stored again. -/
def reopen? (owner : Account) : Staging (Option Validator) := do
  match ← validator? owner with
  | none => return none
  | some v =>
    modify (·.put owner v)
    return some v

/-- The validator of an account that must have one; it will be stored again. -/
def reopen (owner : Account) : Staging Validator := do
  match ← reopen? owner with
  | none => fail (.notFound owner)
  | some v => return v

/-- The owner of a consensus key, as the draft has it or else as it is stored. -/
def holder? (key : ConsensusKey) : Staging (Option Account) := do
  match (← get).bindings.get? key with
  | some owner => return some owner
  | none => ask (Query.holder? key)

/-- The present power of each account; one without a validator has none. -/
def powers (owners : List Account) : Staging PowerTable :=
  owners.foldlM (fun table owner => do
    let found ← validator? owner
    return table.insert owner ((found.map (·.power)).getD 0)) .empty

end Staging

namespace Draft

/-- Runs a step on a draft. A step that fails leaves the draft as it was. -/
def stage {α : Type} (faults : Nat → Option StoreFault) (s : Store) (d : Draft)
    (step : Staging α) : Draft × Except RegistryError α :=
  match (step.run d).run faults s with
  | .ok (a, after) => (after, .ok a)
  | .error e => (d, .error e)

/-- Looks up powers one at a time, so that validators read before a failure stay in the draft. -/
def stagePowers (faults : Nat → Option StoreFault) (s : Store) (d : Draft) :
    PowerTable → List Account → Draft × Except RegistryError PowerTable
  | table, [] => (d, .ok table)
  | table, owner :: rest =>
    match d.stage faults s (Staging.validator? owner) with
    | (after, .error e) => (after, .error e)
    | (after, .ok found) =>
      after.stagePowers faults s (table.insert owner ((found.map (·.power)).getD 0)) rest

end Draft

end StakedCommittee
