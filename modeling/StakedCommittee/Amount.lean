/-! Amounts of the staked coin, counted in base units of which a whole coin has 100000. An amount
fits in 128 bits: sums that would not are refused, and every other operation stays in range. -/

namespace StakedCommittee

/-- The voting weight of a validator: one for each whole coin of its deposit. -/
abbrev Power := UInt64

/-- A number of base units below 2^128. -/
structure Amount where
  units : Nat
  units_lt : units < 0x100000000000000000000000000000000
deriving DecidableEq

namespace Amount

/-- Base units in one whole coin. -/
def unitsPerCoin : Nat := 100000

@[ext] theorem ext {a b : Amount} (h : a.units = b.units) : a = b := by
  cases a
  cases b
  cases h
  rfl

instance : LE Amount := ⟨fun a b => a.units ≤ b.units⟩

instance : LT Amount := ⟨fun a b => a.units < b.units⟩

instance (a b : Amount) : Decidable (a ≤ b) := inferInstanceAs (Decidable (a.units ≤ b.units))

instance (a b : Amount) : Decidable (a < b) := inferInstanceAs (Decidable (a.units < b.units))

theorem le_iff {a b : Amount} : a ≤ b ↔ a.units ≤ b.units := Iff.rfl

theorem lt_iff {a b : Amount} : a < b ↔ a.units < b.units := Iff.rfl

/-- The amount of `n` base units, if it is in range. -/
def ofUnits? (n : Nat) : Option Amount :=
  if h : n < 0x100000000000000000000000000000000 then some ⟨n, h⟩ else none

def zero : Amount := ⟨0, by decide⟩

instance : Inhabited Amount := ⟨zero⟩

/-- The greatest amount. -/
def greatest : Amount := ⟨0xffffffffffffffffffffffffffffffff, by decide⟩

/-- One base unit. -/
def oneUnit : Amount := ⟨1, by decide⟩

/-- `n` whole coins. -/
def ofCoins (n : UInt64) : Amount :=
  ⟨n.toNat * unitsPerCoin, by have := n.toNat_lt; simp only [unitsPerCoin]; omega⟩

def isZero (a : Amount) : Bool := a.units == 0

/-- The sum, if it is in range. -/
def add? (a b : Amount) : Option Amount := ofUnits? (a.units + b.units)

/-- The sum, or the greatest amount where that is out of range. -/
def addUpToGreatest (a b : Amount) : Amount := (a.add? b).getD greatest

/-- What is left of `a` after `b` is taken away, or zero if `b` is more. -/
def remainder (a b : Amount) : Amount := ⟨a.units - b.units, by have := a.units_lt; omega⟩

/-- What is left of `a` after `b` is taken away, if `b` is not more. -/
def sub? (a b : Amount) : Option Amount := if b ≤ a then some (a.remainder b) else none

/-- The smaller of two amounts. -/
def smaller (a b : Amount) : Amount := if b < a then b else a

/-- One vote for each whole coin, up to the greatest power. -/
def power (a : Amount) : Power := .ofNat (min (a.units / unitsPerCoin) 0xffffffffffffffff)

/-- Whole coins, a point and five digits. -/
def display (a : Amount) : String :=
  let fraction := Nat.repr (a.units % unitsPerCoin)
  Nat.repr (a.units / unitsPerCoin) ++ "." ++
    String.ofList (List.replicate (5 - fraction.length) '0') ++ fraction

@[simp] theorem units_zero : zero.units = 0 := rfl

@[simp] theorem isZero_iff {a : Amount} : a.isZero = true ↔ a = zero := by
  simp [isZero, Amount.ext_iff]

@[simp] theorem units_remainder (a b : Amount) : (a.remainder b).units = a.units - b.units := rfl

theorem units_smaller (a b : Amount) : (a.smaller b).units = min a.units b.units := by
  unfold smaller
  split <;> rename_i h <;> rw [lt_iff] at h <;> omega

theorem add?_eq_some_iff {a b c : Amount} : a.add? b = some c ↔ a.units + b.units = c.units := by
  have := c.units_lt
  unfold add? ofUnits?
  split <;> simp [Amount.ext_iff]
  omega

theorem sub?_eq_some_iff {a b c : Amount} : a.sub? b = some c ↔ b.units + c.units = a.units := by
  unfold sub?
  split <;> rename_i h <;> simp [Amount.ext_iff, le_iff] at h ⊢ <;> omega

theorem toNat_power (a : Amount) :
    a.power.toNat = min (a.units / unitsPerCoin) 0xffffffffffffffff := by
  rw [power, UInt64.toNat_ofNat_of_lt']
  show _ < 0x10000000000000000
  omega

end Amount

end StakedCommittee
