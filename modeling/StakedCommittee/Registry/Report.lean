import StakedCommittee.Registry.Basic
import StakedCommittee.Roster.Report

/-! The report to the consensus engine: what has changed in the committee since the last report,
after which the present committee counts as reported. -/

namespace StakedCommittee

namespace Staging

/-- The keys and powers of those accounts that have a validator. -/
def resolve (owners : List Account) : Staging (SortedMap Account (ConsensusKey × Power)) :=
  owners.foldlM (fun table owner => do
    match ← validator? owner with
    | none => return table
    | some v => return table.insert owner (v.key, v.power)) .empty

def report : Staging (List PowerUpdate) := do
  let r := (← get).roster
  let table ← resolve r.reportees
  modify (·.setRoster r.markReported)
  return r.report table.get?

end Staging

/-- Reports the committee to the consensus engine. -/
def Plan.report : Query (List PowerUpdate × Draft) := ofStaging Staging.report

end StakedCommittee
