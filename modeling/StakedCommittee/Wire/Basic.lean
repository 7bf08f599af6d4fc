import StakedCommittee.Text.Utf8

/-! The stored form of values: numbers of fixed width with the lowest byte first, texts and lists
after their length, optional values after a tag byte. A reader takes a value off the front of a
byte string and leaves the rest. -/

namespace StakedCommittee.Wire

/-- Why a byte string does not begin with a value. -/
inductive DecodeFault where
  | endOfData
  /-- A text is said to be longer than the bytes that are left. -/
  | textPastEnd
  | notText (fault : Text.Utf8Fault)
  | unknownTag (tag : UInt8)
deriving DecidableEq

def DecodeFault.message : DecodeFault → String
  | .endOfData => "io error: unexpected end of file"
  | .textPastEnd => "io error: "
  | .notText fault => "string is not valid utf8: " ++ fault.message
  | .unknownTag tag => "tag for enum is not valid, found " ++ Nat.repr tag.toNat

/-- Takes a value off the front of a byte string. -/
abbrev Reader (α : Type) := StateT Bytes (Except DecodeFault) α

/-- Reads a value and drops what follows it. -/
def Reader.value {α : Type} (r : Reader α) (bytes : Bytes) : Except DecodeFault α :=
  (r.run bytes).map (·.1)

/-- The next `n` bytes. -/
def readBytes (n : Nat) : Reader { b : Bytes // b.length = n } := fun bytes =>
  if h : bytes.length < n then .error .endOfData
  else .ok (⟨bytes.take n, List.length_take_of_le (Nat.le_of_not_lt h)⟩, bytes.drop n)

def readByte : Reader UInt8
  | [] => .error .endOfData
  | b :: rest => .ok (b, rest)

/-- A number of `width` bytes. -/
def readNumber (width : Nat) : Reader { n : Nat // n < Bytes.capacity width } := do
  let b ← readBytes width
  return ⟨Bytes.ofLittleEndian b.val, by simpa [b.property] using Bytes.ofLittleEndian_lt b.val⟩

/-- A text after its length in eight bytes. -/
def text (s : String) : Bytes := Bytes.littleEndian 8 (textBytes s).length ++ textBytes s

/-- The text of the next `length` bytes. -/
def readTextOf (length : Nat) : Reader String := fun bytes =>
  if bytes.length < length then .error .textPastEnd
  else
    match Text.ofUtf8 (bytes.take length) with
    | .ok s => .ok (s, bytes.drop length)
    | .error fault => .error (.notText fault)

def readText : Reader String := do
  let ⟨length, _⟩ ← readNumber 8
  readTextOf length

/-- Reads a given number of values. -/
def readMany {α : Type} (item : Reader α) : Nat → Reader (List α)
  | 0 => return []
  | n + 1 => do
    let first ← item
    return first :: (← readMany item n)

/-- Values after their number in eight bytes. -/
def list {α : Type} (item : α → Bytes) (l : List α) : Bytes :=
  Bytes.littleEndian 8 l.length ++ l.flatMap item

def readList {α : Type} (item : Reader α) : Reader (List α) := do
  let ⟨n, _⟩ ← readNumber 8
  readMany item n

/-- A tag byte, and a value where the tag is one. -/
def optional {α : Type} (item : α → Bytes) : Option α → Bytes
  | none => [0]
  | some a => 1 :: item a

def readOptional {α : Type} (item : Reader α) : Reader (Option α) := do
  let tag ← readByte
  if tag = 0 then return none
  else if tag = 1 then return some (← item)
  else throw (.unknownTag tag)

def word (n : UInt64) : Bytes := Bytes.littleEndian 8 n.toNat

def readWord : Reader UInt64 := do
  let ⟨n, _⟩ ← readNumber 8
  return .ofNat n

/-- Whether the length of a text can be written. -/
def TextFits (s : String) : Prop := (textBytes s).length < 0x10000000000000000

instance (s : String) : Decidable (TextFits s) :=
  inferInstanceAs (Decidable ((textBytes s).length < 0x10000000000000000))

end StakedCommittee.Wire
