import StakedCommittee.Registry.Discipline
import StakedCommittee.Registry.Report

/-! The operations that change a registry, as data, so that a run of the registry is a list of
calls. -/

namespace StakedCommittee

inductive Call where
  | genesis
  | register (height : Height) (owner : Account) (key : ConsensusKey) (deposit : Amount)
      (link : String)
  | increaseDeposit (height : Height) (owner : Account) (amount : Amount)
  | withdraw (height : Height) (owner : Account) (amount : Amount)
  | revoke (height : Height) (owner : Account)
  | punish (height : Height) (owner : Account) (penalty : Amount) (removal : Removal)
  | countFlags (flags : List SigningFlag)
  | fire (height : Height) (evidence : List Evidence)
  | report

namespace Call

/-- What a successful call answers. -/
@[reducible] def Answer : Call → Type
  | .genesis => Bool
  | .register .. => Seating
  | .increaseDeposit .. => Seating
  | .withdraw .. => Amount
  | .revoke .. => Amount
  | .punish .. => Punishment
  | .countFlags _ => SigningReport
  | .fire .. => FiringReport
  | .report => List PowerUpdate

/-- The plan of a call. -/
def plan (source : ParameterSource) : (c : Call) → Query (c.Answer × Draft)
  | .genesis => Plan.genesis
  | .register height owner key deposit link => Plan.register source height owner key deposit link
  | .increaseDeposit height owner amount => Plan.increaseDeposit source height owner amount
  | .withdraw height owner amount => Plan.withdraw source height owner amount
  | .revoke height owner => Plan.revoke source height owner
  | .punish height owner penalty removal => Plan.punish source height owner penalty removal
  | .countFlags flags => Plan.countFlags flags
  | .fire height evidence => Plan.fire source height evidence
  | .report => Plan.report

end Call

/-- Makes a call. -/
def Registry.call (reg : Registry) (source : ParameterSource) (faults : Faults) (c : Call) :
    Except RegistryError c.Answer × Registry :=
  reg.perform faults (c.plan source)

end StakedCommittee
