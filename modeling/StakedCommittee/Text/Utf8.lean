import StakedCommittee.Account

/-! Reading UTF-8. A byte string that is no UTF-8 text is described by its first fault: where the
text stops being well formed, and how many bytes there can begin no character. -/

namespace StakedCommittee.Text

/-- Why a byte string is not UTF-8 text. -/
inductive Utf8Fault where
  /-- After `start` bytes of text stand `length` bytes that no character begins with. -/
  | invalid (start length : Nat)
  /-- After `start` bytes of text the input ends within a character. -/
  | incomplete (start : Nat)
deriving DecidableEq

def Utf8Fault.message : Utf8Fault → String
  | .invalid start length =>
    "invalid utf-8 sequence of " ++ Nat.repr length ++ " bytes from index " ++ Nat.repr start
  | .incomplete start => "incomplete utf-8 byte sequence from index " ++ Nat.repr start

def isContinuation (b : UInt8) : Bool := 0x80 ≤ b && b ≤ 0xbf

/-- The number of bytes of the character that begins with `b`, if one does. -/
def characterWidth (b : UInt8) : Option Nat :=
  if b ≤ 0x7f then some 1
  else if 0xc2 ≤ b && b ≤ 0xdf then some 2
  else if 0xe0 ≤ b && b ≤ 0xef then some 3
  else if 0xf0 ≤ b && b ≤ 0xf4 then some 4
  else none

/-- Whether `b` may follow the first byte `lead` of a character. Some first bytes allow only part
of the continuation bytes, so that no character has two forms, none is a surrogate and none lies
above the last code point. -/
def mayFollow (lead b : UInt8) : Bool :=
  if lead = 0xe0 then 0xa0 ≤ b && b ≤ 0xbf
  else if lead = 0xed then 0x80 ≤ b && b ≤ 0x9f
  else if lead = 0xf0 then 0x90 ≤ b && b ≤ 0xbf
  else if lead = 0xf4 then 0x80 ≤ b && b ≤ 0x8f
  else isContinuation b

/-- The first fault of a byte string of which `start` bytes of text have been read. -/
def firstFault (start : Nat) : Bytes → Option Utf8Fault
  | [] => none
  | lead :: rest =>
    match characterWidth lead with
    | none => some (.invalid start 1)
    | some 1 => firstFault (start + 1) rest
    | some width =>
      match rest with
      | [] => some (.incomplete start)
      | second :: rest =>
        if !mayFollow lead second then some (.invalid start 1)
        else if width = 2 then firstFault (start + 2) rest
        else
          match rest with
          | [] => some (.incomplete start)
          | third :: rest =>
            if !isContinuation third then some (.invalid start 2)
            else if width = 3 then firstFault (start + 3) rest
            else
              match rest with
              | [] => some (.incomplete start)
              | fourth :: rest =>
                if !isContinuation fourth then some (.invalid start 3)
                else firstFault (start + 4) rest

/-- The text with the given UTF-8 bytes. -/
def ofUtf8 (bytes : Bytes) : Except Utf8Fault String :=
  match String.fromUTF8? bytes.toByteArray with
  | some s => .ok s
  | none => .error ((firstFault 0 bytes).getD (.incomplete bytes.length))

@[simp] theorem ofUtf8_textBytes (s : String) : ofUtf8 (textBytes s) = .ok s := by
  have hbytes : (textBytes s).toByteArray = s.toByteArray :=
    ByteArray.ext (by simp [textBytes])
  unfold ofUtf8
  rw [hbytes, String.fromUTF8?, dif_pos s.isValidUTF8]
  rfl

theorem eq_textBytes_of_ofUtf8 {bytes : Bytes} {s : String} (h : ofUtf8 bytes = .ok s) :
    bytes = textBytes s := by
  unfold ofUtf8 at h
  split at h
  · rename_i t ht
    cases h
    unfold String.fromUTF8? at ht
    split at ht
    · cases ht
      simp [textBytes, String.fromUTF8]
    · cases ht
  · cases h

end StakedCommittee.Text
