import StakedCommittee.Registry.Basic
import StakedCommittee.Roster.Seating

/-! How validators come and go of their own accord: registration, larger deposits, withdrawals and
revocation. Coins leave the ledger when a deposit grows and return to it when one shrinks. -/

namespace StakedCommittee

namespace Staging

/-- Puts an account into the pool and tries to find it a seat. `Roster.check` is no part of this. A
debug build may assert it of the outcome; the assertion fails once the limit has shrunk below the
committee, and this operation does not. -/
def offerSeat (p : Parameters) (owner : Account) : Staging Seating := do
  modify fun d => d.setRoster (d.roster.join owner)
  let table ← powers ((← get).roster.seated ++ [owner])
  let (roster, seating) := (← get).roster.seat table.power p.seats owner
  modify (·.setRoster roster)
  return seating

/-- Takes an account out of the roster. -/
def dismiss (p : Parameters) (owner : Account) : Staging Departure := do
  let table ← powers (← get).roster.pool
  let (roster, departure) := (← get).roster.release table.power p.seats owner
  modify (·.setRoster roster)
  return departure

/-- Takes an account out of the roster, if it is in it. -/
def dismissMember (p : Parameters) (owner : Account) : Staging Unit := do
  if owner ∈ (← get).roster.pool then
    let _ ← dismiss p owner

/-- The validator that an application makes: a new one, or the old one of an owner that left. -/
def applicant (height : Height) (owner : Account) (key : ConsensusKey) (deposit : Amount)
    (link : String) : Staging Validator := do
  match ← validator? owner with
  | none => return .enroll owner key deposit link height
  | some v =>
    if !v.deposit.isZero then fail (.alreadyRegistered owner)
    else if v.key ≠ key then fail (.keyFixed owner)
    else return v.reenroll deposit link height

/-- Binds a key to an owner. A key of another owner is refused. -/
def claimKey (key : ConsensusKey) (owner : Account) : Staging Unit := do
  match ← holder? key with
  | none => modify (·.bind key owner)
  | some holder => if holder ≠ owner then fail (.keyTaken key holder)

def register (p : Parameters) (height : Height) (owner : Account) (key : ConsensusKey)
    (deposit : Amount) (link : String) : Staging Seating := do
  let v ← applicant height owner key deposit link
  if deposit < p.leastDeposit then fail (.shortDeposit p.leastDeposit deposit)
  claimKey key owner
  modify (·.put v.owner v)
  let seating ← offerSeat p owner
  modify (·.transfer (.debit owner deposit))
  return seating

def increaseDeposit (p : Parameters) (owner : Account) (amount : Amount) : Staging Seating := do
  if owner ∉ (← get).roster.pool then fail (.notFound owner)
  let v ← reopen owner
  match v.deposit.add? amount with
  | none => fail (.message (.depositOverflow owner))
  | some deposit =>
    modify (·.put owner { v with deposit })
    let seating ← offerSeat p owner
    modify (·.transfer (.debit owner amount))
    return seating

def withdraw (p : Parameters) (owner : Account) (amount : Amount) : Staging Amount := do
  let seated := decide (owner ∈ (← get).roster.seated)
  let v ← reopen owner
  match p.withdraw seated v.deposit amount with
  | .error refusal => fail (.withdrawalRefused owner amount refusal)
  | .ok remaining =>
    modify (·.put owner { v with deposit := remaining })
    if remaining.isZero then dismissMember p owner
    modify (·.transfer (.credit owner amount))
    return remaining

def revoke (p : Parameters) (owner : Account) : Staging Amount := do
  let v ← reopen owner
  if v.deposit.isZero then fail (.notFound owner)
  modify (·.put owner { v with deposit := .zero })
  dismissMember p owner
  modify (·.transfer (.credit owner v.deposit))
  return v.deposit

end Staging

namespace Plan

/-- Stores the first roster; answers whether there was none before. -/
def genesis : Query (Bool × Draft) := do
  match ← Query.roster? with
  | some r => return (false, .ofStored r)
  | none => return (true, .genesis)

/-- Registers an owner, new or returning, against a deposit. -/
def register (source : ParameterSource) (height : Height) (owner : Account) (key : ConsensusKey)
    (deposit : Amount) (link : String) : Query (Seating × Draft) := do
  let p ← parameters source height
  ofStaging (Staging.register p height owner key deposit link)

/-- Adds to the deposit of a pool member. -/
def increaseDeposit (source : ParameterSource) (height : Height) (owner : Account)
    (amount : Amount) : Query (Seating × Draft) := do
  let p ← parameters source height
  if amount.isZero then .fail (.shortDeposit .oneUnit amount)
  else ofStaging (Staging.increaseDeposit p owner amount)

/-- Pays part or all of a deposit back; answers what remains. -/
def withdraw (source : ParameterSource) (height : Height) (owner : Account) (amount : Amount) :
    Query (Amount × Draft) := do
  let p ← parameters source height
  ofStaging (Staging.withdraw p owner amount)

/-- Pays the whole deposit back; answers how much it was. -/
def revoke (source : ParameterSource) (height : Height) (owner : Account) :
    Query (Amount × Draft) := do
  let p ← parameters source height
  ofStaging (Staging.revoke p owner)

end Plan

/-- Whether a withdrawal would be allowed. -/
def Query.allowsWithdrawal (source : ParameterSource) (height : Height) (owner : Account)
    (amount : Amount) : Query Bool := do
  let p ← Plan.parameters source height
  let r ← Query.roster
  let v ← Query.validator owner
  match p.withdraw (decide (owner ∈ r.seated)) v.deposit amount with
  | .ok _ => return true
  | .error _ => return false

end StakedCommittee
