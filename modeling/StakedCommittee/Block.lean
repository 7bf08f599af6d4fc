import StakedCommittee.Registry.Call

/-! What happens around a block. At its start the signing flags of the last block are counted and
then offenders are fired, as two operations that are stored one after the other; at its end the
committee is reported. -/

namespace StakedCommittee

/-- What came of the start of a block. -/
structure BlockStart where
  signing : SigningReport
  firing : FiringReport
deriving DecidableEq

namespace Registry

/-- Counts the signing flags, then fires. The flags stay counted if firing fails. -/
def beginBlock (reg : Registry) (source : ParameterSource) (countingFaults firingFaults : Faults)
    (height : Height) (flags : List SigningFlag) (evidence : List Evidence) :
    Except RegistryError BlockStart × Registry :=
  match reg.call source countingFaults (.countFlags flags) with
  | (.error e, after) => (.error e, after)
  | (.ok signing, counted) =>
    let (outcome, after) := counted.call source firingFaults (.fire height evidence)
    (outcome.map fun firing => ⟨signing, firing⟩, after)

/-- Reports the committee. -/
def endBlock (reg : Registry) (source : ParameterSource) (faults : Faults) :
    Except RegistryError (List PowerUpdate) × Registry :=
  reg.call source faults .report

end Registry

end StakedCommittee
