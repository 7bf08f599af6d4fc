import StakedCommittee.Parameters.Basic

/-! When a deposit may be withdrawn. A seated validator withdraws nothing; any other leaves either
no deposit or one that could be registered with. -/

namespace StakedCommittee

inductive WithdrawalRefusal where
  | seated
  | belowLeast
  | exceedsDeposit
  | shortRemainder
deriving DecidableEq

def WithdrawalRefusal.message : WithdrawalRefusal → String
  | .seated => "validator is oncall"
  | .belowLeast => "amount below minimum withdraw"
  | .exceedsDeposit => "amount exceeds deposit"
  | .shortRemainder => "remaining deposit below minimum commitment"

/-- The deposit that remains after a withdrawal, or why the withdrawal is refused. -/
def Parameters.withdraw (p : Parameters) (seated : Bool) (deposit amount : Amount) :
    Except WithdrawalRefusal Amount :=
  if seated then .error .seated
  else if amount < p.leastWithdrawal then .error .belowLeast
  else
    match deposit.sub? amount with
    | none => .error .exceedsDeposit
    | some remaining =>
      if !remaining.isZero && remaining < p.leastDeposit then .error .shortRemainder
      else .ok remaining

end StakedCommittee
