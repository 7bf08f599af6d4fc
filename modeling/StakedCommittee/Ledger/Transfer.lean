import StakedCommittee.Ledger.Basic

/-! Coin movements of one operation. They are made in order; when one fails, or when what they pay
for cannot be stored, those already made are taken back, the latest first. -/

namespace StakedCommittee

inductive Transfer where
  | debit (account : Account) (amount : Amount)
  | credit (account : Account) (amount : Amount)
deriving DecidableEq

/-- The movement that undoes this one. -/
def Transfer.reversed : Transfer → Transfer
  | .debit account amount => .credit account amount
  | .credit account amount => .debit account amount

/-- Failures that the ledger is subject to from outside; they leave it as it is. -/
structure LedgerFaults where
  debit : Option LedgerError := none
  credit : Option LedgerError := none

/-- The failure that a movement meets, if any. -/
def LedgerFaults.of (faults : LedgerFaults) : Transfer → Option LedgerError
  | .debit _ _ => faults.debit
  | .credit _ _ => faults.credit

namespace Ledger

/-- Makes one movement. -/
def move (faults : LedgerFaults) (l : Ledger) (t : Transfer) : Except LedgerError Ledger :=
  match faults.of t, t with
  | some failure, _ => .error failure
  | none, .debit account amount => l.debit account amount
  | none, .credit account amount => l.credit account amount

/-- What came of a list of movements. -/
structure Moved where
  ledger : Ledger
  /-- The movements made, the latest first. -/
  made : List Transfer
  /-- Why the next one failed, if one did. -/
  failure : Option LedgerError

/-- Makes movements in order, up to the first that fails; `made` are those made before. -/
def moveAll (faults : LedgerFaults) (l : Ledger) (made : List Transfer) : List Transfer → Moved
  | [] => ⟨l, made, none⟩
  | t :: rest =>
    match l.move faults t with
    | .error failure => ⟨l, made, some failure⟩
    | .ok moved => moveAll faults moved (t :: made) rest

/-- Takes movements back in the given order. One that cannot be taken back is passed over; the
second component lists those. -/
def takeBack (faults : LedgerFaults) (l : Ledger) : List Transfer → Ledger × List Transfer
  | [] => (l, [])
  | t :: rest =>
    match l.move faults t.reversed with
    | .error _ =>
      let (final, stuck) := takeBack faults l rest
      (final, t :: stuck)
    | .ok undone => takeBack faults undone rest

end Ledger

end StakedCommittee
