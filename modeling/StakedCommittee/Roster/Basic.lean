import StakedCommittee.Account
import StakedCommittee.Amount
import StakedCommittee.SortedMap.Basic

/-! Who is in the validator set: the seated committee and the pool it is drawn from. The roster
keeps the seated member of least power at hand; `refresh` finds that member anew. -/

namespace StakedCommittee

structure Roster where
  /-- Grows with every change that is stored. -/
  version : UInt64 := 0
  /-- The committee, in the order of admission. -/
  seated : List Account := []
  /-- Every active validator, seated or waiting, in the order of registration. -/
  pool : List Account := []
  /-- The committee as the consensus engine was last told. -/
  reported : List Account := []
  weakestPower : Power := 0
  /-- The first seated member of least power. -/
  weakest : Option Account := none
deriving DecidableEq, Inhabited

/-- The power of each of some accounts. -/
abbrev PowerTable := SortedMap Account Power

/-- The listed power, or none at all. -/
def PowerTable.power (table : PowerTable) (a : Account) : Power := (table.get? a).getD 0

/-- The first account of least power, with its power. -/
def weakestOf (power : Account → Power) : List Account → Option (Account × Power)
  | [] => none
  | a :: rest =>
    match weakestOf power rest with
    | none => some (a, power a)
    | some (b, least) => if least < power a then some (b, least) else some (a, power a)

/-- The first account of greatest power, with its power. -/
def strongestOf (power : Account → Power) : List Account → Option (Account × Power)
  | [] => none
  | a :: rest =>
    match strongestOf power rest with
    | none => some (a, power a)
    | some (b, greatest) => if power a < greatest then some (b, greatest) else some (a, power a)

namespace Roster

/-- Adds an account to the end of the pool, unless it is there. -/
def join (r : Roster) (owner : Account) : Roster :=
  if owner ∈ r.pool then r else { r with pool := r.pool ++ [owner] }

/-- Finds the weakest seated member anew. -/
def refresh (r : Roster) (power : Account → Power) : Roster :=
  match weakestOf power r.seated with
  | none => { r with weakest := none, weakestPower := 0 }
  | some (a, least) => { r with weakest := some a, weakestPower := least }

/-- The pool members without a seat. -/
def waiting (r : Roster) : List Account := r.pool.filter fun a => a ∉ r.seated

/-- The waiting member to promote: of those with power the strongest, and of equals the first. -/
def successor (r : Roster) (power : Account → Power) : Option Account :=
  (strongestOf power (r.waiting.filter fun a => power a ≠ 0)).map (·.1)

theorem mem_pool_join {r : Roster} {owner a : Account} :
    a ∈ (r.join owner).pool ↔ a ∈ r.pool ∨ a = owner := by
  unfold join
  split
  · rename_i h
    exact ⟨.inl, fun ha => ha.elim id fun e => e ▸ h⟩
  · simp

@[simp] theorem seated_join (r : Roster) (owner : Account) : (r.join owner).seated = r.seated := by
  unfold join
  split <;> rfl

@[simp] theorem seated_refresh (r : Roster) (power : Account → Power) :
    (r.refresh power).seated = r.seated := by
  unfold refresh
  split <;> rfl

@[simp] theorem pool_refresh (r : Roster) (power : Account → Power) :
    (r.refresh power).pool = r.pool := by
  unfold refresh
  split <;> rfl

@[simp] theorem reported_refresh (r : Roster) (power : Account → Power) :
    (r.refresh power).reported = r.reported := by
  unfold refresh
  split <;> rfl

@[simp] theorem version_refresh (r : Roster) (power : Account → Power) :
    (r.refresh power).version = r.version := by
  unfold refresh
  split <;> rfl

end Roster

end StakedCommittee
