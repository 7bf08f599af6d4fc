import StakedCommittee.Roster.Basic

/-! How seats change hands. A free seat goes to any candidate with power, a full committee gives
way only to a strictly stronger one, and a seat that falls free goes to the strongest waiting
member. -/

namespace StakedCommittee

/-- What came of a candidate. -/
inductive Seating where
  | alreadySeated
  | admitted
  | displaced (evicted : Account)
  | waiting
deriving DecidableEq

namespace Seating

/-- Whether the candidate has a seat. -/
def isSeated : Seating → Bool
  | .waiting => false
  | _ => true

def evicted? : Seating → Option Account
  | .displaced a => some a
  | _ => none

end Seating

/-- What came of a member that leaves. -/
structure Departure where
  wasSeated : Bool
  /-- The waiting member that took over the seat. -/
  promoted : Option Account
deriving DecidableEq

namespace Roster

/-- Tries to find a seat for a pool member. -/
def seat (r : Roster) (power : Account → Power) (seats : Nat) (candidate : Account) :
    Roster × Seating :=
  if candidate ∈ r.seated then (r.refresh power, .alreadySeated)
  else if power candidate = 0 then (r, .waiting)
  else if r.seated.length < seats then
    ({ r with seated := r.seated ++ [candidate] }.refresh power, .admitted)
  else
    match (r.refresh power).weakest with
    | none => (r.refresh power, .waiting)
    | some evicted =>
      if power candidate ≤ (r.refresh power).weakestPower then (r.refresh power, .waiting)
      else
        ({ r with seated := r.seated.filter (· ≠ evicted) ++ [candidate] }.refresh power,
          .displaced evicted)

/-- Takes a member out of the roster, and fills the seat that falls free. -/
def release (r : Roster) (power : Account → Power) (seats : Nat) (owner : Account) :
    Roster × Departure :=
  let rest : Roster :=
    { r with seated := r.seated.filter (· ≠ owner), pool := r.pool.filter (· ≠ owner) }
  let wasSeated := decide (owner ∈ r.seated)
  let promoted := if wasSeated && rest.seated.length < seats then rest.successor power else none
  ({ rest with seated := rest.seated ++ promoted.toList }.refresh power, ⟨wasSeated, promoted⟩)

end Roster

end StakedCommittee
