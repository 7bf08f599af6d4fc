import StakedCommittee.Bytes

/-! Account names. Names are measured, ordered and stored by their UTF-8 bytes. -/

namespace StakedCommittee

/-- The UTF-8 bytes of a text. -/
def textBytes (s : String) : Bytes := s.toByteArray.data.toList

theorem textBytes_injective {s t : String} (h : textBytes s = textBytes t) : s = t := by
  rw [← String.toByteArray_inj]
  exact ByteArray.ext (Array.toList_inj.1 h)

/-- The name of an account, which is also the name of its validator. -/
structure Account where
  name : String
deriving DecidableEq, Inhabited

namespace Account

def bytes (a : Account) : Bytes := textBytes a.name

theorem bytes_injective {a b : Account} (h : a.bytes = b.bytes) : a = b := by
  cases a
  cases b
  exact congrArg Account.mk (textBytes_injective h)

instance : KeyOrder Account := .pullback bytes bytes_injective

/-- The length of the name in bytes. -/
def length (a : Account) : Nat := a.bytes.length

def isEmpty (a : Account) : Bool := a.bytes.isEmpty

end Account

end StakedCommittee
