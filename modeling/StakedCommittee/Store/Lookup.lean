import StakedCommittee.Store.Layout
import StakedCommittee.Store.Query
import StakedCommittee.Wire.Record

/-! What is asked of the store: a validator by its owner, the roster, the owner bound to a key, and
all validators in the order of their owners. -/

namespace StakedCommittee.Query

/-- A read value, or the failure to read it. -/
def decoded {α : Type} : Except Wire.DecodeFault α → Query α
  | .ok a => .done a
  | .error fault => .fail (.data (.undecodable fault))

/-- The validator stored for an account. -/
def validator? (owner : Account) : Query (Option Validator) :=
  .read (Layout.validatorKey owner) fun
    | none => .done none
    | some bytes => some <$> decoded (Validator.decode bytes)

def roster? : Query (Option Roster) :=
  .read Layout.rosterKey fun
    | none => .done none
    | some bytes => some <$> decoded (Roster.decode bytes)

/-- The owner stored for a consensus key. -/
def holder? (key : ConsensusKey) : Query (Option Account) :=
  .read (Layout.bindingKey key) fun
    | none => .done none
    | some bytes =>
      match Text.ofUtf8 bytes with
      | .ok name => .done (some ⟨name⟩)
      | .error fault => .fail (.data (.binding fault))

/-- Every stored validator, active or not, in the order of the owners. -/
def validators : Query (List Validator) :=
  .scan Layout.validatorStart fun entries => entries.mapM fun e => decoded (Validator.decode e.2)

def validator (owner : Account) : Query Validator := do
  match ← validator? owner with
  | some v => return v
  | none => .fail (.notFound owner)

def isRegistered (owner : Account) : Query Bool := do
  return (← validator? owner).isSome

def roster : Query Roster := do
  match ← roster? with
  | some r => return r
  | none => .fail .noRoster

end StakedCommittee.Query
