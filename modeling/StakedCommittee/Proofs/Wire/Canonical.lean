import StakedCommittee.Proofs.Wire.RoundTrip

/-! The written form of validators and rosters is canonical. Whatever follows a written form, it is
read back; cut short, it is refused; and a byte string is read only if it begins with the written
form of what is read. All of this follows from what a reader takes off the front of its input, so it
is shown once, for any reader. -/

namespace StakedCommittee

namespace Wire

variable {α : Type} {fits : α → Prop} {write : α → Bytes}

/-- Of the values that fit, `write` is the one form that `read` accepts. -/
structure Canonical (fits : α → Prop) (write : α → Bytes)
    (read : Bytes → Except DecodeFault α) : Prop where
  read_write : ∀ a tail, fits a → read (write a ++ tail) = .ok a
  /-- A proper beginning of a written form is no written form. -/
  truncated : ∀ a part, fits a → part <+: write a → part ≠ write a →
    ∃ fault, read part = .error fault
  /-- Nothing is accepted but written forms and what follows them. -/
  written : ∀ bytes a, read bytes = .ok a → fits a ∧ write a <+: bytes
  injective : ∀ a c, fits a → fits c → write a = write c → a = c

section Reading
variable {r : Reader α}
  (hr : ∀ a input rest, r.run input = .ok (a, rest) ↔ fits a ∧ input = write a ++ rest)
include hr

theorem value_eq_ok_iff_isPrefix {bytes : Bytes} {a : α} :
    r.value bytes = .ok a ↔ fits a ∧ write a <+: bytes := by
  rw [value_eq_ok_iff]
  constructor
  · rintro ⟨rest, hrun⟩
    obtain ⟨hfits, rfl⟩ := (hr a bytes rest).1 hrun
    exact ⟨hfits, List.prefix_append ..⟩
  · rintro ⟨hfits, rest, rfl⟩
    exact ⟨rest, (hr a _ rest).2 ⟨hfits, rfl⟩⟩

/-- No written form is the beginning of another. -/
theorem eq_of_write_isPrefix {a c : α} (ha : fits a) (hc : fits c) (h : write a <+: write c) :
    a = c := by
  have hreada := (value_eq_ok_iff_isPrefix hr).2 ⟨ha, h⟩
  have hreadc := (value_eq_ok_iff_isPrefix hr).2 ⟨hc, List.prefix_rfl⟩
  exact Except.ok.inj (hreada.symm.trans hreadc)

theorem canonical_of_run_iff : Canonical fits write r.value where
  read_write a tail hfits :=
    (value_eq_ok_iff_isPrefix hr).2 ⟨hfits, List.prefix_append ..⟩
  truncated a part hfits hpart hne := by
    cases hread : r.value part with
    | error fault => exact ⟨fault, rfl⟩
    | ok c =>
      -- What was read from a part would be all of `a`, and the part no part.
      obtain ⟨hc, hbegins⟩ := (value_eq_ok_iff_isPrefix hr).1 hread
      obtain rfl := eq_of_write_isPrefix hr hc hfits (hbegins.trans hpart)
      exact absurd (hpart.eq_of_length_le hbegins.length_le) hne
  written bytes a hread := (value_eq_ok_iff_isPrefix hr).1 hread
  injective a c ha hc h := eq_of_write_isPrefix hr ha hc (h ▸ List.prefix_rfl)

end Reading

/-- Validators and rosters whose lengths can be written have one written form each. -/
theorem stored_forms_canonical :
    Canonical Validator.Fits Validator.encode Validator.decode ∧
      Canonical Roster.Fits Roster.encode Roster.decode :=
  ⟨canonical_of_run_iff fun _ _ _ => Validator.run_reader_iff,
    canonical_of_run_iff fun _ _ _ => Roster.run_reader_iff⟩

/-- Numbers are written low byte first, and texts by their length in bytes. -/
example : (Roster.encode { version := 3, seated := [⟨"é"⟩] }).take 26 =
    [3, 0, 0, 0, 0, 0, 0, 0, 1, 0, 0, 0, 0, 0, 0, 0, 2, 0, 0, 0, 0, 0, 0, 0, 0xc3, 0xa9] := by
  decide +kernel

end Wire

end StakedCommittee
