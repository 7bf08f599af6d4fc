import StakedCommittee.Parameters.Basic
import StakedCommittee.SortedMap.Basic

/-! Which parameters are in force at which height. A schedule has base parameters from height zero
and upgrades, each from its own height onwards. -/

namespace StakedCommittee

/-- Parameters that replace one another, by the height where each begins. -/
structure Schedule where
  stages : SortedMap Height Parameters

namespace Schedule

/-- The same parameters at every height. -/
def fixed (p : Parameters) : Schedule := ⟨SortedMap.empty.insert 0 p⟩

/-- Puts `p` in force from `height`, in place of what began at the same height. -/
def upgrade (s : Schedule) (height : Height) (p : Parameters) : Schedule :=
  ⟨s.stages.insert height p⟩

/-- The last of the stages that have begun by a height. -/
def latest? (s : Schedule) (height : Height) : Option (Height × Parameters) :=
  (s.stages.entries.filter fun stage => stage.1 ≤ height).getLast?

/-- The parameters scheduled at a height, or the reason why there are none. -/
def parametersAt (s : Schedule) (height : Height) : Except String Parameters :=
  match s.latest? height with
  | some (_, p) => .ok p
  | none => .error ("no validator params at height " ++ Nat.repr height.toNat)

end Schedule

/-- Where parameters come from: for each height, parameters or the reason why there are none. -/
abbrev ParameterSource := Height → Except String Parameters

namespace ParameterSource

def ofSchedule (s : Schedule) : ParameterSource := s.parametersAt

/-- Fails at the given heights, each with its reason. -/
def failingAt (source : ParameterSource) (failures : SortedMap Height String) : ParameterSource :=
  fun height =>
    match failures.get? height with
    | some reason => .error reason
    | none => source height

/-- The parameters in force at a height: those of the source, if they pass the checks. -/
def inForce (source : ParameterSource) (height : Height) : Except ParameterFault Parameters :=
  match source height with
  | .error reason => .error (.unavailable reason)
  | .ok p => p.check.map fun _ => p

end ParameterSource

end StakedCommittee
