import StakedCommittee.Registry.Call

/-! Messages from account holders. A message is checked on its own before anything is read; what
comes of it is a receipt with a result code, and a message that fails changes nothing. -/

namespace StakedCommittee

inductive Message where
  /-- Registers, or adds to a deposit. -/
  | deposit (username : Account) (amount : Amount) (key : ConsensusKey) (link : String)
  | withdraw (username : Account) (amount : Amount)
  /-- Leaves and takes the whole deposit back. -/
  | revoke (username : Account)

/-- What came of a message: a result code, zero for success, and the text of the failure. -/
structure Receipt where
  code : Nat
  log : String
deriving DecidableEq

namespace Receipt

def success : Receipt := ⟨0, ""⟩

def failure (e : RegistryError) : Receipt := ⟨e.code, e.text⟩

def isSuccess (r : Receipt) : Bool := r.code == 0

def ofOutcome : Except RegistryError Unit → Receipt
  | .ok () => success
  | .error e => failure e

end Receipt

namespace Message

def username : Message → Account
  | .deposit username .. => username
  | .withdraw username _ => username
  | .revoke username => username

/-- The shortest and the longest user name, in bytes. -/
def leastNameLength : Nat := 3

def greatestNameLength : Nat := 20

/-- The checks that need no state. -/
def check (m : Message) : Except MessageFault Unit :=
  let length := m.username.length
  if length < leastNameLength || greatestNameLength < length then .error (.nameLength length)
  else
    match m with
    | .deposit _ amount _ link =>
      if amount.isZero then .error .noDeposit
      else if greatestLinkLength < (textBytes link).length then .error .longLink
      else .ok ()
    | .withdraw _ amount => if amount.isZero then .error .noAmount else .ok ()
    | .revoke _ => .ok ()

/-- Whether an account has a validator with a deposit. -/
def hasDeposit (owner : Account) : Query Bool := do
  if ← Query.isRegistered owner then
    return !(← Query.validator owner).deposit.isZero
  else
    return false

/-- The plan of a message that passes its checks. -/
def act (source : ParameterSource) (height : Height) : Message → Query (Unit × Draft)
  | .deposit username amount key link => do
    if ← hasDeposit username then
      let (_, d) ← Plan.increaseDeposit source height username amount
      return ((), d)
    else
      let (_, d) ← Plan.register source height username key amount link
      return ((), d)
  | .withdraw username amount => do
    let (_, d) ← Plan.withdraw source height username amount
    return ((), d)
  | .revoke username => do
    let (_, d) ← Plan.revoke source height username
    return ((), d)

def plan (source : ParameterSource) (height : Height) (m : Message) : Query (Unit × Draft) :=
  match m.check with
  | .error fault => .fail (.message fault)
  | .ok () => m.act source height

end Message

/-- Carries a message out. -/
def Registry.deliver (reg : Registry) (source : ParameterSource) (faults : Faults)
    (height : Height) (m : Message) : Receipt × Registry :=
  let (outcome, after) := reg.perform faults (m.plan source height)
  (.ofOutcome outcome, after)

end StakedCommittee
