import StakedCommittee.Account
import StakedCommittee.Amount
import StakedCommittee.SortedMap.Basic

/-! Balances of accounts. A debit needs an account with enough on it; a credit opens the account if
need be. -/

namespace StakedCommittee

/-- Why coins could not be moved. -/
inductive LedgerError where
  | unknownAccount (account : Account)
  | insufficient (account : Account) (required available : Amount)
  | overflow (account : Account)
  | backend (reason : String)
deriving DecidableEq

def LedgerError.message : LedgerError → String
  | .unknownAccount account => "Account not found: " ++ account.name
  | .insufficient account required available =>
    "Insufficient balance for " ++ account.name ++ ": required " ++ required.display ++
      ", available " ++ available.display
  | .overflow account => "Balance overflow for " ++ account.name
  | .backend reason => "Ledger backend error: " ++ reason

structure Ledger where
  balances : SortedMap Account Amount
deriving DecidableEq

namespace Ledger

/-- Opens a ledger; of two balances for one account the later counts. -/
def ofList (balances : List (Account × Amount)) : Ledger := ⟨.ofList balances⟩

/-- The balance of an account, zero for one that is not open. -/
def balance (l : Ledger) (a : Account) : Amount := (l.balances.get? a).getD .zero

def IsOpen (l : Ledger) (a : Account) : Prop := ∃ amount, l.balances.get? a = some amount

def setBalance (l : Ledger) (a : Account) (amount : Amount) : Ledger :=
  ⟨l.balances.insert a amount⟩

def debit (l : Ledger) (a : Account) (amount : Amount) : Except LedgerError Ledger :=
  match l.balances.get? a with
  | none => .error (.unknownAccount a)
  | some available =>
    match available.sub? amount with
    | none => .error (.insufficient a amount available)
    | some rest => .ok (l.setBalance a rest)

/-- Credits an account, and opens it if need be. One that is not open has room for any amount, so a
credit that fails opens none (`isOpen_of_credit_eq_error`). -/
def credit (l : Ledger) (a : Account) (amount : Amount) : Except LedgerError Ledger :=
  match (l.balance a).add? amount with
  | none => .error (.overflow a)
  | some total => .ok (l.setBalance a total)

theorem isOpen_of_credit_eq_error {l : Ledger} {a : Account} {amount : Amount}
    {failure : LedgerError} (h : l.credit a amount = .error failure) : l.IsOpen a := by
  cases hopen : l.balances.get? a with
  | some held => exact ⟨held, hopen⟩
  | none =>
    have hsum : Amount.zero.add? amount = some amount :=
      Amount.add?_eq_some_iff.2 (Nat.zero_add amount.units)
    simp [credit, balance, hopen, hsum] at h

end Ledger

end StakedCommittee
