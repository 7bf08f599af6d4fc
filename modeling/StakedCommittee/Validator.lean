import StakedCommittee.Account
import StakedCommittee.Amount
import StakedCommittee.ConsensusKey
import StakedCommittee.Parameters.Basic

/-! Registered validators and what the consensus engine says about them. -/

namespace StakedCommittee

/-- The next number, or the greatest one again. -/
def countUp (n : UInt64) : UInt64 := if n = 0xffffffffffffffff then n else n + 1

theorem toNat_countUp (n : UInt64) :
    (countUp n).toNat = min (n.toNat + 1) 0xffffffffffffffff := by
  have hlt : n.toNat < 0x10000000000000000 := n.toNat_lt
  unfold countUp
  split
  · rename_i h
    subst h
    decide
  · rename_i h
    have hne : n.toNat ≠ 0xffffffffffffffff := fun e => h (UInt64.toNat.inj e)
    rw [UInt64.toNat_add]
    show (n.toNat + 1) % 0x10000000000000000 = _
    omega

/-- A registered validator. Its deposit decides its power; one without a deposit is kept on record
but takes no part. -/
structure Validator where
  owner : Account
  key : ConsensusKey
  deposit : Amount
  /-- Blocks missed while seated, since the last registration. -/
  absences : UInt64
  /-- Blocks signed while seated. -/
  signatures : UInt64
  link : String
  /-- The height of the last registration. -/
  since : UInt64
deriving DecidableEq

namespace Validator

/-- A validator that registers for the first time. -/
def enroll (owner : Account) (key : ConsensusKey) (deposit : Amount) (link : String)
    (height : Height) : Validator :=
  ⟨owner, key, deposit, 0, 0, link, height⟩

/-- A validator that registers anew; its absences are forgotten. -/
def reenroll (v : Validator) (deposit : Amount) (link : String) (height : Height) : Validator :=
  { v with deposit, absences := 0, link, since := height }

def power (v : Validator) : Power := v.deposit.power

/-- What a penalty takes: no more than the deposit. -/
def forfeit (v : Validator) (penalty : Amount) : Amount := penalty.smaller v.deposit

/-- Takes a penalty from the deposit, as far as it goes. -/
def slash (v : Validator) (penalty : Amount) : Validator :=
  { v with deposit := v.deposit.remainder (v.forfeit penalty) }

def countSignature (v : Validator) : Validator := { v with signatures := countUp v.signatures }

def countAbsence (v : Validator) : Validator := { v with absences := countUp v.absences }

end Validator

/-- Whether the holder of a key signed the last block. -/
structure SigningFlag where
  key : ConsensusKey
  signed : Bool

inductive Offence where
  | duplicateVote
  | lightClientAttack
deriving DecidableEq

/-- An offence that the consensus engine has verified. -/
structure Evidence where
  key : ConsensusKey
  height : Height
  offence : Offence

/-- A power that the consensus engine is told of; zero drops the key. -/
structure PowerUpdate where
  owner : Account
  key : ConsensusKey
  power : Power
deriving DecidableEq

end StakedCommittee
