import StakedCommittee.Roster.Basic
import StakedCommittee.Validator

/-! What the consensus engine is told at the end of a block: the power of every seated member, and
power zero for every member that lost its seat since the last report. -/

namespace StakedCommittee.Roster

/-- The seated members and those last reported, each once, in ascending order. -/
def reportees (r : Roster) : List Account :=
  (SortedMap.ofList ((r.seated ++ r.reported).map fun a => (a, ()))).keys

/-- The report on a roster. Members that `resolve` does not know are left out. -/
def report (r : Roster) (resolve : Account → Option (ConsensusKey × Power)) : List PowerUpdate :=
  r.reportees.filterMap fun owner =>
    (resolve owner).map fun (key, power) =>
      ⟨owner, key, if owner ∈ r.seated then power else 0⟩

/-- Notes that the present committee has been reported. -/
def markReported (r : Roster) : Roster := { r with reported := r.seated }

end StakedCommittee.Roster
