import StakedCommittee.Roster.Basic
import StakedCommittee.Validator
import StakedCommittee.Wire.Basic

/-! The stored form of validators and rosters: their fields in order, with nothing between. -/

namespace StakedCommittee

namespace Wire

def account (a : Account) : Bytes := text a.name

def readAccount : Reader Account := do
  return ⟨← readText⟩

def amount (a : Amount) : Bytes := Bytes.littleEndian 16 a.units

def readAmount : Reader Amount := do
  let ⟨n, h⟩ ← readNumber 16
  return ⟨n, h⟩

def readKey : Reader ConsensusKey := do
  let ⟨bytes, h⟩ ← readBytes 32
  return ⟨bytes, h⟩

end Wire

namespace Validator

open Wire

def encode (v : Validator) : Bytes :=
  account v.owner ++ v.key.bytes ++ amount v.deposit ++ word v.absences ++ word v.signatures ++
    text v.link ++ word v.since

def reader : Reader Validator := do
  let owner ← readAccount
  let key ← readKey
  let deposit ← readAmount
  let absences ← readWord
  let signatures ← readWord
  let link ← readText
  let since ← readWord
  return { owner, key, deposit, absences, signatures, link, since }

def decode (bytes : Bytes) : Except DecodeFault Validator := reader.value bytes

/-- Whether every length in the stored form can be written. -/
def Fits (v : Validator) : Prop := TextFits v.owner.name ∧ TextFits v.link

instance (v : Validator) : Decidable v.Fits :=
  inferInstanceAs (Decidable (TextFits v.owner.name ∧ TextFits v.link))

end Validator

namespace Roster

open Wire

def encode (r : Roster) : Bytes :=
  word r.version ++ list account r.seated ++ list account r.pool ++ list account r.reported ++
    word r.weakestPower ++ optional account r.weakest

def reader : Reader Roster := do
  let version ← readWord
  let seated ← readList readAccount
  let pool ← readList readAccount
  let reported ← readList readAccount
  let weakestPower ← readWord
  let weakest ← readOptional readAccount
  return { version, seated, pool, reported, weakestPower, weakest }

def decode (bytes : Bytes) : Except DecodeFault Roster := reader.value bytes

/-- Whether the lengths of a list of accounts and of their names can be written. -/
def AccountsFit (l : List Account) : Prop := l.length < 0x10000000000000000 ∧ ∀ a ∈ l, TextFits a.name

instance (l : List Account) : Decidable (AccountsFit l) :=
  inferInstanceAs (Decidable (l.length < 0x10000000000000000 ∧ ∀ a ∈ l, TextFits a.name))

/-- Whether every length in the stored form can be written. -/
def Fits (r : Roster) : Prop :=
  AccountsFit r.seated ∧ AccountsFit r.pool ∧ AccountsFit r.reported ∧
    AccountsFit r.weakest.toList

instance (r : Roster) : Decidable r.Fits :=
  inferInstanceAs (Decidable (AccountsFit r.seated ∧ AccountsFit r.pool ∧
    AccountsFit r.reported ∧ AccountsFit r.weakest.toList))

end Roster

end StakedCommittee
