import StakedCommittee.Proofs.Registry.Moves

/-! What counting changes. Flags are counted in the validators of seated members and nowhere else:
the roster, the bindings, and all of a validator but its two counts stay, and no coins move. -/

namespace StakedCommittee

/-- `after` is `b` but for the counts of blocks of seated validators. -/
structure Book.Counted (b after : Book) : Prop where
  roster : after.roster = b.roster
  holders : after.holders = b.holders
  validators : ∀ a, after.validators.get? a = b.validators.get? a ∨
    a ∈ b.roster.seated ∧ ∃ v absences signatures, b.validators.get? a = some v ∧
      after.validators.get? a = some { v with absences, signatures }

namespace Book.Counted

variable {b mid after : Book}

theorem refl (b : Book) : b.Counted b := ⟨rfl, rfl, fun _ => .inl rfl⟩

theorem trans (h : b.Counted mid) (hnext : mid.Counted after) : b.Counted after where
  roster := hnext.roster.trans h.roster
  holders := hnext.holders.trans h.holders
  validators a := by
    rcases hnext.validators a with hsame | ⟨hseated, v, absences, signatures, hv, hafter⟩
    · rw [hsame]
      exact h.validators a
    · rw [h.roster] at hseated
      refine .inr ⟨hseated, ?_⟩
      rcases h.validators a with hsame | ⟨-, u, _, _, hu, hmid⟩
      · exact ⟨v, absences, signatures, hsame ▸ hv, hafter⟩
      · rw [hmid] at hv
        cases hv
        exact ⟨u, absences, signatures, hu, hafter⟩

theorem put {v : Validator} (hv : b.validators.get? v.owner = some v)
    (hseated : v.owner ∈ b.roster.seated) (absences signatures : UInt64) :
    b.Counted (b.put { v with absences, signatures }) where
  roster := rfl
  holders := rfl
  validators a := by
    rw [get?_put]
    split
    · subst_vars
      exact .inr ⟨hseated, v, absences, signatures, hv, rfl⟩
    · exact .inl rfl

theorem exists_of_get? (h : b.Counted after) {a : Account} {v : Validator}
    (hv : b.validators.get? a = some v) :
    ∃ absences signatures, after.validators.get? a = some { v with absences, signatures } := by
  rcases h.validators a with hsame | ⟨-, u, absences, signatures, hu, hafter⟩
  · exact ⟨v.absences, v.signatures, hsame.trans hv⟩
  · rw [hv] at hu
    cases hu
    exact ⟨absences, signatures, hafter⟩

theorem map_deposit_eq (h : b.Counted after) (a : Account) :
    (after.validators.get? a).map (·.deposit) = (b.validators.get? a).map (·.deposit) := by
  rcases h.validators a with hsame | ⟨-, v, _, _, hv, hafter⟩
  · rw [hsame]
  · rw [hv, hafter]
    rfl

/-- Deposits stay, so powers do. -/
theorem power (h : b.Counted after) : after.power = b.power := by
  funext a
  unfold Book.power
  rcases h.validators a with hsame | ⟨-, v, _, _, hv, hafter⟩
  · rw [hsame]
  · rw [hv, hafter]
    rfl

/-- A store changes under the keys of seated validators only. -/
theorem get?_eq (h : b.Counted after) {s t : Store} (hs : s.Holds b) (ht : t.Holds after)
    {key : Bytes} (hkey : ∀ a ∈ b.roster.seated, key ≠ Layout.validatorKey a) :
    t.get? key = s.get? key := by
  refine hs.get?_congr ht (fun a ha => ?_) (fun k _ => by rw [h.holders]) fun _ => h.roster
  exact (h.validators a).resolve_right fun hcounted => hkey a hcounted.1 ha

end Book.Counted

namespace Desk

theorem counted_countFlags (w : Desk) (flags : List SigningFlag) :
    w.book.Counted (w.countFlags flags).2.book :=
  countFlags_induction (P := fun after => w.book.Counted after.book) (.refl _)
    (fun _ _ absences signatures h hv hseated => h.trans (.put hv hseated absences signatures))
    flags

theorem transfers_countFlags (w : Desk) (flags : List SigningFlag) :
    (w.countFlags flags).2.transfers = w.transfers :=
  countFlags_induction (P := fun after => after.transfers = w.transfers) rfl
    (fun _ _ _ _ h _ _ => h) flags

end Desk

end StakedCommittee
