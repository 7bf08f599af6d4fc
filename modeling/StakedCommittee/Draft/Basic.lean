import StakedCommittee.Ledger.Transfer
import StakedCommittee.Store.Layout
import StakedCommittee.Store.Query
import StakedCommittee.Wire.Record

/-! What an operation is about to do: the validators, bound keys and roster it will store, and the
coins it will move. A draft also remembers the validators that the operation has read, so that it
sees its own changes. Nothing happens until the draft is committed, in one batch. -/

namespace StakedCommittee

/-- A validator that an operation has read; `changed` marks one to be stored. -/
structure Loaded where
  validator : Validator
  changed : Bool
deriving DecidableEq

structure Draft where
  roster : Roster
  /-- The roster as it is stored; none before genesis. -/
  stored : Option Roster
  loaded : SortedMap Account Loaded
  bindings : SortedMap ConsensusKey Account
  /-- The coins to move, in order. -/
  transfers : List Transfer
deriving DecidableEq

namespace Draft

/-- A draft over the stored roster, with no changes yet. -/
def ofStored (r : Roster) : Draft := ⟨r, some r, .empty, .empty, []⟩

/-- A draft that stores the first roster. -/
def genesis : Draft := ⟨{}, none, .empty, .empty, []⟩

/-- Remembers a validator that has been read. -/
def remember (d : Draft) (owner : Account) (v : Validator) : Draft :=
  { d with loaded := d.loaded.insert owner ⟨v, false⟩ }

/-- Stages a validator to be stored for `owner`. -/
def put (d : Draft) (owner : Account) (v : Validator) : Draft :=
  { d with loaded := d.loaded.insert owner ⟨v, true⟩ }

/-- Stages the owner of a consensus key. -/
def bind (d : Draft) (key : ConsensusKey) (owner : Account) : Draft :=
  { d with bindings := d.bindings.insert key owner }

/-- Stages a coin movement after those already staged. -/
def transfer (d : Draft) (t : Transfer) : Draft := { d with transfers := d.transfers ++ [t] }

def setRoster (d : Draft) (r : Roster) : Draft := { d with roster := r }

/-- The validators to be stored, each with the account it is stored for. -/
def changedValidators (d : Draft) : List (Account × Validator) :=
  d.loaded.entries.filterMap fun (owner, l) => if l.changed then some (owner, l.validator) else none

/-- The roster to be stored, if it differs from the stored one. Its version is one up. -/
def changedRoster? (d : Draft) : Option Roster :=
  if d.stored = some d.roster then none
  else
    let previous := (d.stored.map (·.version)).getD d.roster.version
    some { d.roster with version := countUp previous }

/-- The batch that stores the draft. -/
def batch (d : Draft) : List Edit :=
  (d.changedValidators.map fun (owner, v) => .put (Layout.validatorKey owner) v.encode) ++
    (d.bindings.entries.map fun (key, owner) => .put (Layout.bindingKey key) owner.bytes) ++
    (d.changedRoster?.toList.map fun r => .put Layout.rosterKey r.encode)

/-- Whether every length to be stored can be written. -/
def Fits (d : Draft) : Prop :=
  (∀ e ∈ d.changedValidators, e.2.Fits) ∧ ∀ r ∈ d.changedRoster?.toList, r.Fits

instance (d : Draft) : Decidable d.Fits :=
  inferInstanceAs (Decidable
    ((∀ e ∈ d.changedValidators, e.2.Fits) ∧ ∀ r ∈ d.changedRoster?.toList, r.Fits))

/-- Whether there is nothing to store. -/
def isEmpty (d : Draft) : Bool :=
  d.changedValidators.isEmpty && d.bindings.isEmpty && d.stored == some d.roster

/-- Stores the draft in one batch. A draft with nothing to store makes no write, and so meets no
failure of writes. -/
def commit (fault : Option StoreFault) (s : Store) (d : Draft) : Except RegistryError Store :=
  if ¬d.Fits then .error (.data .tooLong)
  else if d.batch = [] then .ok s
  else
    match fault with
    | some fault => .error (.store fault)
    | none => .ok (s.applyAll d.batch)

end Draft

end StakedCommittee
