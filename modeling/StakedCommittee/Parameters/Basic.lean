import StakedCommittee.Amount

/-! The rules that a chain sets for its validators, and the checks without which admission would
not work: there are seats, withdrawals move something, and every accepted deposit carries power. -/

namespace StakedCommittee

/-- A block height. -/
abbrev Height := UInt64

structure Parameters where
  /-- The greatest number of seated validators. -/
  seats : Nat
  /-- The least deposit to register with, and the least that a partial withdrawal leaves. -/
  leastDeposit : Amount
  leastWithdrawal : Amount
  byzantinePenalty : Amount
  absencePenalty : Amount
  /-- A seated validator that missed more blocks than this is fired. -/
  absenceLimit : UInt64
deriving DecidableEq

/-- Why no parameters are in force at a height. -/
inductive ParameterFault where
  | noSeats
  | noLeastWithdrawal
  | powerlessDeposit
  /-- The source of parameters gave this reason. -/
  | unavailable (reason : String)
deriving DecidableEq

def ParameterFault.message : ParameterFault → String
  | .noSeats => "max_committee_size must be positive"
  | .noLeastWithdrawal => "min_withdraw must be positive"
  | .powerlessDeposit => "min_commit_deposit must carry voting power"
  | .unavailable reason => reason

namespace Parameters

def standard : Parameters where
  seats := 21
  leastDeposit := .ofCoins 1000
  leastWithdrawal := .ofCoins 1
  byzantinePenalty := .ofCoins 1000
  absencePenalty := .ofCoins 200
  absenceLimit := 100

/-- A small committee with a short window for absences. -/
def small : Parameters := { standard with seats := 4, absenceLimit := 3 }

def check (p : Parameters) : Except ParameterFault Unit :=
  if p.seats = 0 then .error .noSeats
  else if p.leastWithdrawal.isZero then .error .noLeastWithdrawal
  else if p.leastDeposit.power = 0 then .error .powerlessDeposit
  else .ok ()

end Parameters

end StakedCommittee
