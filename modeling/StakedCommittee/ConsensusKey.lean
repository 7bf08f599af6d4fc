import StakedCommittee.Sha256

/-! The 32-byte keys by which the consensus engine knows validators. -/

namespace StakedCommittee

/-- A public key of 32 bytes. -/
structure ConsensusKey where
  bytes : Bytes
  length_eq : bytes.length = 32
deriving DecidableEq

namespace ConsensusKey

@[ext] theorem ext {a b : ConsensusKey} (h : a.bytes = b.bytes) : a = b := by
  cases a
  cases b
  cases h
  rfl

def ofBytes? (bytes : Bytes) : Option ConsensusKey :=
  if h : bytes.length = 32 then some ⟨bytes, h⟩ else none

instance : KeyOrder ConsensusKey := .pullback bytes ext

def display (k : ConsensusKey) : String := k.bytes.hex

/-- The first 20 bytes of the key's SHA-256 digest. -/
def address (k : ConsensusKey) : Bytes := (Sha256.digest k.bytes).take 20

/-- A short form for diagnostics: the first eight bytes. -/
def describe (k : ConsensusKey) : String :=
  "ConsensusKey(" ++ Bytes.hex (k.bytes.take 8) ++ ")"

end ConsensusKey

end StakedCommittee
