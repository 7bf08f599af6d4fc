import StakedCommittee.Roster.Basic
import StakedCommittee.Text.Quoted

/-! The checks a sound roster passes: no more seats than allowed, every seated member in the pool,
and the weakest seated member noted with its power. -/

namespace StakedCommittee

/-- What is wrong with a roster. -/
inductive RosterFault where
  | overfull (seated seats : Nat)
  | outsidePool (owner : Account)
  /-- The noted weakest member is not one of least power. -/
  | staleWeakest (noted : Option Account) (notedPower : Power) (least : Option Power)
deriving DecidableEq

namespace RosterFault

def message : RosterFault → String
  | .overfull seated seats =>
    "oncall has " ++ Nat.repr seated ++ " members, max " ++ Nat.repr seats
  | .outsidePool owner => owner.name ++ " is oncall but not in all"
  | .staleWeakest noted notedPower least =>
    "stale lowest cache: " ++
      (match noted with
      | none => "None"
      | some a => "Some(AccountKey(" ++ Text.quoted a.name ++ "))") ++
      " at " ++ Nat.repr notedPower.toNat ++ ", actual minimum " ++
      (match least with
      | none => "None"
      | some p => "Some(" ++ Nat.repr p.toNat ++ ")")

end RosterFault

namespace Roster

/-- Whether the noted weakest member is a seated member of least power. -/
def notesWeakest (r : Roster) (power : Account → Power) : Bool :=
  match r.weakest, weakestOf power r.seated with
  | none, none => r.weakestPower == 0
  | some a, some (_, least) => a ∈ r.seated && r.weakestPower == least && power a == least
  | _, _ => false

def check (r : Roster) (power : Account → Power) (seats : Nat) : Except RosterFault Unit :=
  if seats < r.seated.length then .error (.overfull r.seated.length seats)
  else
    match r.seated.find? (· ∉ r.pool) with
    | some stray => .error (.outsidePool stray)
    | none =>
      if r.notesWeakest power then .ok ()
      else
        .error (.staleWeakest r.weakest r.weakestPower ((weakestOf power r.seated).map (·.2)))

end Roster

end StakedCommittee
