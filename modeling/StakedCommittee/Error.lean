import StakedCommittee.Ledger.Basic
import StakedCommittee.Store.Basic
import StakedCommittee.Validator
import StakedCommittee.Wire.Basic
import StakedCommittee.Withdrawal

/-! Why an operation on the registry fails, with the text and the result code of each cause. -/

namespace StakedCommittee

/-- What is wrong with a message. -/
inductive MessageFault where
  | nameLength (length : Nat)
  | noDeposit
  | longLink
  | noAmount
  /-- The deposit of `owner` would grow out of range. -/
  | depositOverflow (owner : Account)
  | other (reason : String)
deriving DecidableEq

/-- The longest link of a validator, in bytes. -/
def greatestLinkLength : Nat := 100

def MessageFault.text : MessageFault → String
  | .nameLength length => "illegal username length: " ++ Nat.repr length
  | .noDeposit => "deposit must be positive"
  | .longLink => "link exceeds " ++ Nat.repr greatestLinkLength ++ " bytes"
  | .noAmount => "withdraw amount must be positive"
  | .depositOverflow owner => "deposit overflow for " ++ owner.name
  | .other reason => reason

/-- What is wrong with stored data, or with data to be stored. -/
inductive DataFault where
  | undecodable (fault : Wire.DecodeFault)
  /-- The owner bound to a consensus key is no text. -/
  | binding (fault : Text.Utf8Fault)
  /-- A length to be stored is out of range. -/
  | tooLong
  | other (reason : String)
deriving DecidableEq

def DataFault.text : DataFault → String
  | .undecodable fault => fault.message
  | .binding fault => "consensus key index: " ++ fault.message
  | .tooLong => "the size limit has been reached"
  | .other reason => reason

/-- Why an operation fails. -/
inductive RegistryError where
  | notFound (owner : Account)
  | alreadyRegistered (owner : Account)
  /-- The key belongs to another validator. -/
  | keyTaken (key : ConsensusKey) (owner : Account)
  /-- A validator that returns must bring its old key. -/
  | keyFixed (owner : Account)
  | shortDeposit (required provided : Amount)
  | withdrawalRefused (owner : Account) (amount : Amount) (refusal : WithdrawalRefusal)
  | ledger (cause : LedgerError)
  | message (fault : MessageFault)
  | noRoster
  | parameters (fault : ParameterFault)
  | store (fault : StoreFault)
  | data (fault : DataFault)
deriving DecidableEq

namespace RegistryError

def text : RegistryError → String
  | .notFound owner => "Validator not found: " ++ owner.name
  | .alreadyRegistered owner => "Validator already registered: " ++ owner.name
  | .keyTaken key owner => "Consensus key " ++ key.display ++ " already bound to " ++ owner.name
  | .keyFixed owner => "Consensus key of " ++ owner.name ++ " cannot change"
  | .shortDeposit required provided =>
    "Insufficient deposit: required " ++ required.display ++ ", provided " ++ provided.display
  | .withdrawalRefused owner amount refusal =>
    "Illegal withdraw of " ++ amount.display ++ " by " ++ owner.name ++ ": " ++ refusal.message
  | .ledger cause => "Ledger error: " ++ cause.message
  | .message fault => "Invalid message: " ++ fault.text
  | .noRoster => "Validator set not initialized"
  | .parameters fault => "Invalid parameters: " ++ fault.message
  | .store fault => "Storage error: " ++ fault.message
  | .data fault => "Serialization error: " ++ fault.text

/-- The result code that the host sees. -/
def code : RegistryError → Nat
  | .notFound _ => 503
  | .alreadyRegistered _ | .keyTaken _ _ | .keyFixed _ => 504
  | .shortDeposit _ _ => 505
  | .withdrawalRefused _ _ _ => 506
  | .ledger _ => 507
  | .message _ => 313
  | .noRoster | .parameters _ => 501
  | .store _ | .data _ => 502

theorem code_pos (e : RegistryError) : 0 < e.code := by
  cases e <;> simp [code]

end RegistryError

end StakedCommittee
