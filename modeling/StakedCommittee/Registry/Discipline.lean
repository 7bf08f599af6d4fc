import StakedCommittee.Registry.Membership

/-! How validators are held to account: penalties, the count of signed and missed blocks, and the
firing of offenders and of members that missed too many blocks. A penalty is taken from the deposit
and goes to nobody; a validator that is removed gets the rest of its deposit back. -/

namespace StakedCommittee

/-- Whether a punished pool member is removed. -/
inductive Removal where
  | always
  /-- Only if it has no power left. -/
  | ifPowerless
deriving DecidableEq

structure Punishment where
  owner : Account
  /-- What was taken from the deposit. -/
  penalty : Amount
  /-- The deposit afterwards. -/
  remaining : Amount
  refunded : Amount
  removed : Bool
  promoted : Option Account
deriving DecidableEq

structure SigningReport where
  signed : Nat := 0
  absent : Nat := 0
  /-- The keys that belong to no seated validator, in order. -/
  unknownKeys : List ConsensusKey := []
deriving DecidableEq

def SigningReport.addUnknown (r : SigningReport) (key : ConsensusKey) : SigningReport :=
  { r with unknownKeys := r.unknownKeys ++ [key] }

structure FiringReport where
  /-- In the order of application. -/
  punishments : List Punishment := []
  /-- The keys in evidence that belong to no validator, in order. -/
  unknownKeys : List ConsensusKey := []
deriving DecidableEq

namespace FiringReport

def addUnknown (r : FiringReport) (key : ConsensusKey) : FiringReport :=
  { r with unknownKeys := r.unknownKeys ++ [key] }

def add (r : FiringReport) (punishment : Punishment) : FiringReport :=
  { r with punishments := r.punishments ++ [punishment] }

def fired (r : FiringReport) : List Account := r.punishments.map (·.owner)

/-- All that was taken, up to the greatest amount. -/
def totalPenalty (r : FiringReport) : Amount :=
  r.punishments.foldl (fun total p => total.addUpToGreatest p.penalty) .zero

end FiringReport

namespace Staging

/-- Finds the weakest seated member anew, from the present powers. -/
def refreshWeakest : Staging Unit := do
  let table ← powers (← get).roster.seated
  modify fun d => d.setRoster (d.roster.refresh table.power)

/-- Removes a pool member and pays back what is left of its deposit. Answers who got the seat. -/
def expel (p : Parameters) (owner : Account) (v : Validator) : Staging (Option Account) := do
  modify (·.put owner { v with deposit := .zero })
  if !v.deposit.isZero then modify (·.transfer (.credit owner v.deposit))
  let departure ← dismiss p owner
  return departure.promoted

def punish (p : Parameters) (owner : Account) (penalty : Amount) (removal : Removal) :
    Staging Punishment := do
  let active := decide (owner ∈ (← get).roster.pool)
  let v ← reopen owner
  let slashed := v.slash penalty
  if active && (removal = .always || slashed.power = 0) then
    let promoted ← expel p owner slashed
    return ⟨owner, v.forfeit penalty, .zero, slashed.deposit, true, promoted⟩
  else
    modify (·.put owner slashed)
    if active then refreshWeakest
    return ⟨owner, v.forfeit penalty, slashed.deposit, .zero, false, none⟩

/-- Counts one signing flag. Only seated validators are accountable. -/
def countFlag (report : SigningReport) (flag : SigningFlag) : Staging SigningReport := do
  match ← holder? flag.key with
  | none => return report.addUnknown flag.key
  | some owner =>
    if owner ∉ (← get).roster.seated then return report.addUnknown flag.key
    match ← reopen? owner with
    | none => return report.addUnknown flag.key
    | some v =>
      if flag.signed then
        modify (·.put owner v.countSignature)
        return { report with signed := report.signed + 1 }
      else
        modify (·.put owner v.countAbsence)
        return { report with absent := report.absent + 1 }

def countFlags (flags : List SigningFlag) : Staging SigningReport := flags.foldlM countFlag {}

/-- Punishes the owner of a key in evidence, unless that was done before. -/
def hearEvidence (p : Parameters) (report : FiringReport) (e : Evidence) :
    Staging FiringReport := do
  match ← holder? e.key with
  | none => return report.addUnknown e.key
  | some owner =>
    match ← validator? owner with
    | none => return report.addUnknown e.key
    | some _ =>
      if owner ∈ report.fired then return report
      return report.add (← punish p owner p.byzantinePenalty .always)

/-- Punishes a member that missed too many blocks, unless it was punished before. -/
def checkAbsences (p : Parameters) (report : FiringReport) (owner : Account) :
    Staging FiringReport := do
  if owner ∈ report.fired then return report
  let found ← validator? owner
  if ((found.map (·.absences)).getD 0) ≤ p.absenceLimit then return report
  return report.add (← punish p owner p.absencePenalty .always)

/-- Fires the validators in evidence, then those of the committee left after that which missed too
many blocks. -/
def fire (p : Parameters) (evidence : List Evidence) : Staging FiringReport := do
  let heard ← evidence.foldlM (hearEvidence p) {}
  (← get).roster.seated.foldlM (checkAbsences p) heard

end Staging

namespace Plan

/-- Takes a penalty from a deposit. -/
def punish (source : ParameterSource) (height : Height) (owner : Account) (penalty : Amount)
    (removal : Removal) : Query (Punishment × Draft) := do
  let p ← parameters source height
  ofStaging (Staging.punish p owner penalty removal)

/-- Counts the signing flags of the last block. -/
def countFlags (flags : List SigningFlag) : Query (SigningReport × Draft) :=
  ofStaging (Staging.countFlags flags)

/-- Fires offenders and members that missed too many blocks. -/
def fire (source : ParameterSource) (height : Height) (evidence : List Evidence) :
    Query (FiringReport × Draft) := do
  let p ← parameters source height
  ofStaging (Staging.fire p evidence)

end Plan

end StakedCommittee
