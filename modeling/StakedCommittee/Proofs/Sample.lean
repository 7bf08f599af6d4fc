import StakedCommittee.ConsensusKey
import StakedCommittee.Ledger.Basic
import StakedCommittee.Parameters.Schedule

/-! What runs on fixed inputs are set up with: parameters that never change, keys told apart by one
byte, and accounts that all have the same balance. -/

namespace StakedCommittee

/-- The same parameters at every height. -/
def ParameterSource.always (p : Parameters) : ParameterSource := fun _ => .ok p

/-- The key that is one byte throughout. -/
def ConsensusKey.ofByte (b : UInt8) : ConsensusKey := ⟨List.replicate 32 b, List.length_replicate⟩

/-- A ledger with the same balance for each of the named accounts. -/
def Ledger.funded (balance : Amount) (names : List String) : Ledger :=
  .ofList (names.map fun name => (⟨name⟩, balance))

end StakedCommittee
