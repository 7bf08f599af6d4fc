import StakedCommittee.Block
import StakedCommittee.Message
import StakedCommittee.Roster.Check
import StakedCommittee.Proofs.Draft.View
import StakedCommittee.Proofs.Roster.Rules
import StakedCommittee.Proofs.Registry.Conservation
import StakedCommittee.Proofs.Registry.Engine
import StakedCommittee.Proofs.Registry.Precedence
import StakedCommittee.Proofs.Registry.Vacancies
import StakedCommittee.Proofs.Registry.BlockStart
import StakedCommittee.Proofs.Registry.BlockEnd
import StakedCommittee.Proofs.Registry.Firing
import StakedCommittee.Proofs.Registry.DryRun
import StakedCommittee.Proofs.Registry.Permanence
import StakedCommittee.Proofs.Registry.RollCall
import StakedCommittee.Proofs.Registry.Withdrawal
import StakedCommittee.Proofs.Registry.Accusation
import StakedCommittee.Proofs.Registry.Version
import StakedCommittee.Proofs.Wire.Canonical
import StakedCommittee.Proofs.Registry.Routing
import StakedCommittee.Proofs.Registry.Verdict
import StakedCommittee.Proofs.Registry.Seniority
import StakedCommittee.Proofs.Parameters.Schedule
import StakedCommittee.Proofs.Registry.Listing
