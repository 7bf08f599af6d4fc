import StakedCommittee.Draft.Staging

/-! How a query fails, whatever the store holds and whichever reads fail. It fails with one of the
errors that it has of its own, or with the failure of a read. Two queries that begin alike fail alike
in what they share, or they go on from the same answer with the same failures still to come. -/

namespace StakedCommittee

variable {α β : Type} {P : RegistryError → Prop}

namespace Query

variable {q : Query α} {faults : Nat → Option StoreFault} {s : Store} {e : RegistryError}

/-- The errors that a query has of its own, whatever it reads. -/
def FailsWith (P : RegistryError → Prop) : Query α → Prop
  | .done _ => True
  | .fail e => P e
  | .read _ next => ∀ found, (next found).FailsWith P
  | .scan _ next => ∀ found, (next found).FailsWith P

theorem FailsWith.bind {next : α → Query β} (h : q.FailsWith P)
    (hnext : ∀ a, (next a).FailsWith P) : (q >>= next).FailsWith P := by
  induction q with
  | done a => exact hnext a
  | fail e => exact h
  | read key goOn ih => exact fun found => ih found (h found)
  | scan start goOn ih => exact fun found => ih found (h found)

theorem FailsWith.of_run (h : q.FailsWith P) (hfault : ∀ fault, P (.store fault))
    (hrun : q.run faults s = .error e) : P e := by
  induction q generalizing faults with
  | done a => cases hrun
  | fail f =>
    cases hrun
    exact h
  | read key next ih =>
    simp only [run] at hrun
    split at hrun
    · cases hrun
      exact hfault _
    · exact ih _ (h _) hrun
  | scan start next ih =>
    simp only [run] at hrun
    split at hrun
    · cases hrun
      exact hfault _
    · exact ih _ (h _) hrun

theorem bind_read (key : Bytes) (goOn : Option Bytes → Query α) (next : α → Query β) :
    (read key goOn >>= next) = .read key fun found => goOn found >>= next := rfl

theorem bind_scan (start : Bytes) (goOn : List (Bytes × Bytes) → Query α) (next : α → Query β) :
    (scan start goOn >>= next) = .scan start fun found => goOn found >>= next := rfl

/-- All that begin with `q` fail like it, or all go on from its answer. -/
theorem run_bind_cases (faults : Nat → Option StoreFault) (s : Store) (q : Query α) :
    (∃ e, q.run faults s = .error e ∧
      ∀ {β : Type} (next : α → Query β), (q >>= next).run faults s = .error e) ∨
    ∃ a rest, q.run faults s = .ok a ∧
      ∀ {β : Type} (next : α → Query β), (q >>= next).run faults s = (next a).run rest s := by
  induction q generalizing faults with
  | done a => exact .inr ⟨a, faults, rfl, fun _ => rfl⟩
  | fail e => exact .inl ⟨e, rfl, fun _ => rfl⟩
  | read key goOn ih =>
    simp only [bind_read, run]
    cases faults 0 with
    | some fault => exact .inl ⟨.store fault, rfl, fun _ => rfl⟩
    | none => exact ih _ _
  | scan start goOn ih =>
    simp only [bind_scan, run]
    cases faults 0 with
    | some fault => exact .inl ⟨.store fault, rfl, fun _ => rfl⟩
    | none => exact ih _ _

theorem failsWith_decoded {γ : Type} (hdata : ∀ fault, P (.data fault))
    (r : Except Wire.DecodeFault γ) : (decoded r).FailsWith P := by
  cases r with
  | ok a => trivial
  | error fault => exact hdata _

theorem failsWith_validator? (hdata : ∀ fault, P (.data fault)) (owner : Account) :
    (validator? owner).FailsWith P := by
  rintro (_ | bytes)
  · trivial
  · exact (failsWith_decoded hdata _).bind fun _ => trivial

theorem failsWith_roster? (hdata : ∀ fault, P (.data fault)) : roster?.FailsWith P := by
  rintro (_ | bytes)
  · trivial
  · exact (failsWith_decoded hdata _).bind fun _ => trivial

theorem failsWith_validator (hdata : ∀ fault, P (.data fault)) {owner : Account}
    (hnone : P (.notFound owner)) : (validator owner).FailsWith P := by
  refine (failsWith_validator? hdata owner).bind ?_
  rintro (_ | v)
  · exact hnone
  · trivial

theorem failsWith_roster (hdata : ∀ fault, P (.data fault)) (hnone : P .noRoster) :
    roster.FailsWith P := by
  refine (failsWith_roster? hdata).bind ?_
  rintro (_ | r)
  · exact hnone
  · trivial

end Query

namespace Staging

variable {op : Staging α}

/-- The errors that a step has of its own, from whatever draft it is taken. -/
def FailsWith (P : RegistryError → Prop) (op : Staging α) : Prop := ∀ d, (op.run d).FailsWith P

theorem FailsWith.bind {next : α → Staging β} (h : op.FailsWith P)
    (hnext : ∀ a, (next a).FailsWith P) : (op >>= next).FailsWith P :=
  fun d => (h d).bind fun found => hnext found.1 found.2

theorem failsWith_pure (a : α) : (pure a : Staging α).FailsWith P := fun _ => trivial

theorem failsWith_get : (get : Staging Draft).FailsWith P := fun _ => trivial

theorem failsWith_modify (f : Draft → Draft) : (modify f : Staging Unit).FailsWith P :=
  fun _ => trivial

theorem failsWith_foldlM {f : β → α → Staging β} (h : ∀ x e, (f x e).FailsWith P) (x : β)
    (l : List α) : (l.foldlM f x).FailsWith P := by
  induction l generalizing x with
  | nil => exact failsWith_pure x
  | cons e rest ih =>
    rw [List.foldlM_cons]
    exact (h x e).bind ih

theorem failsWith_ask {q : Query α} (h : q.FailsWith P) : (ask q).FailsWith P :=
  fun _ => h.bind fun _ => trivial

theorem failsWith_validator? (hdata : ∀ fault, P (.data fault)) (owner : Account) :
    (validator? owner).FailsWith P := by
  refine failsWith_get.bind fun d => ?_
  cases d.loaded.get? owner with
  | some l => exact failsWith_pure _
  | none =>
    refine (failsWith_ask (Query.failsWith_validator? hdata owner)).bind ?_
    rintro (_ | v)
    · exact failsWith_pure _
    · exact (failsWith_modify _).bind fun _ => failsWith_pure _

theorem failsWith_powers (hdata : ∀ fault, P (.data fault)) (owners : List Account) :
    (powers owners).FailsWith P :=
  failsWith_foldlM (fun _ owner => (failsWith_validator? hdata owner).bind fun _ => failsWith_pure _)
    _ owners

end Staging

end StakedCommittee
