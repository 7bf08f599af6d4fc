import StakedCommittee.Store.Lookup
import StakedCommittee.Proofs.SortedMap.Sum
import StakedCommittee.Proofs.Wire.RoundTrip

/-! What a sound store says, read as a book: the roster, a validator for every owner that ever
registered, and the owner bound to each key. A store holds a book if the written forms of these
stand where they belong and nothing else is stored. Every question asked of such a store is
answered from the book. -/

namespace StakedCommittee

/-- The readable content of a store. A validator is entered under its owner. -/
structure Book where
  roster : Roster
  validators : SortedMap Account Validator
  holders : SortedMap ConsensusKey Account
  owner_eq : ∀ {a v}, validators.get? a = some v → v.owner = a

namespace Book

@[ext] theorem ext {b c : Book} (hr : b.roster = c.roster) (hv : b.validators = c.validators)
    (hh : b.holders = c.holders) : b = c := by
  cases b
  cases c
  simp_all

/-- The book of a store that has only the first roster. -/
def opening : Book := ⟨{ version := 1 }, .empty, .empty, fun h => by simp at h⟩

def setRoster (b : Book) (r : Roster) : Book := { b with roster := r }

/-- Enters a validator, over an older entry of the same owner. -/
def put (b : Book) (v : Validator) : Book where
  roster := b.roster
  validators := b.validators.insert v.owner v
  holders := b.holders
  owner_eq h := by
    rw [SortedMap.get?_insert] at h
    split at h
    · cases h
      assumption
    · exact b.owner_eq h

def bind (b : Book) (key : ConsensusKey) (owner : Account) : Book :=
  { b with holders := b.holders.insert key owner }

@[simp] theorem roster_setRoster (b : Book) (r : Roster) : (b.setRoster r).roster = r := rfl

theorem get?_put (b : Book) (v : Validator) (a : Account) :
    (b.put v).validators.get? a = if v.owner = a then some v else b.validators.get? a :=
  SortedMap.get?_insert b.validators v.owner a v

theorem holders_bind (b : Book) (key k : ConsensusKey) (owner : Account) :
    (b.bind key owner).holders.get? k = if key = k then some owner else b.holders.get? k :=
  SortedMap.get?_insert b.holders key k owner

/-- The power of an account; one without a validator has none. -/
def power (b : Book) (a : Account) : Power := ((b.validators.get? a).map (·.power)).getD 0

/-- The power of the accounts in a list; all others have none. -/
def powerAmong (b : Book) (l : List Account) (a : Account) : Power := if a ∈ l then b.power a else 0

/-- The table of the powers of the accounts in a list. -/
def powerTable (b : Book) (l : List Account) : PowerTable :=
  l.foldl (fun table a => table.insert a (b.power a)) .empty

theorem power_powerTable (b : Book) (l : List Account) :
    (b.powerTable l).power = b.powerAmong l := by
  have hfold (l : List Account) (table : PowerTable) (a : Account) :
      (l.foldl (fun table a => table.insert a (b.power a)) table).power a =
        if a ∈ l then b.power a else table.power a := by
    induction l generalizing table with
    | nil => simp
    | cons c rest ih =>
      rw [List.foldl_cons, ih, PowerTable.power, PowerTable.power, SortedMap.get?_insert]
      by_cases hc : c = a
      · simp [hc]
      · simp [hc, Ne.symm hc]
  funext a
  exact hfold l .empty a

/-- What all deposits in the book come to. -/
def deposits (b : Book) : Nat := b.validators.sum fun v => v.deposit.units

/-- The deposit entered for an account. -/
def deposit (b : Book) (a : Account) : Amount := ((b.validators.get? a).map (·.deposit)).getD .zero

@[simp] theorem deposit_setRoster (b : Book) (r : Roster) (a : Account) :
    (b.setRoster r).deposit a = b.deposit a := rfl

theorem deposit_put (b : Book) (v : Validator) (a : Account) :
    (b.put v).deposit a = if v.owner = a then v.deposit else b.deposit a := by
  unfold deposit
  rw [get?_put]
  split <;> rfl

theorem deposit_of_get? {b : Book} {a : Account} {v : Validator}
    (h : b.validators.get? a = some v) : b.deposit a = v.deposit := by
  rw [deposit, h]
  rfl

theorem deposit_eq_zero {b : Book} {a : Account}
    (h : ∀ v, b.validators.get? a = some v → v.deposit = .zero) : b.deposit a = .zero := by
  unfold deposit
  cases hv : b.validators.get? a with
  | none => rfl
  | some v => exact h v hv

theorem deposits_put (b : Book) (v : Validator) :
    (b.put v).deposits + (b.deposit v.owner).units = b.deposits + v.deposit.units := by
  have hsum := b.validators.sum_insert (fun v => v.deposit.units) v.owner v
  unfold deposits put deposit
  cases h : b.validators.get? v.owner with
  | none => simpa [h] using hsum
  | some u => simpa [h] using hsum

end Book

/-! ### Where things stand -/

namespace Layout

theorem validatorKey_eq (a : Account) : validatorKey a = 118 :: 58 :: a.bytes := by
  rw [validatorKey, show validatorStart = [118, 58] by decide]
  rfl

theorem bindingKey_eq (k : ConsensusKey) : bindingKey k = 107 :: 58 :: k.bytes := by
  rw [bindingKey, show textBytes "k:" = [107, 58] by decide]
  rfl

theorem rosterKey_eq : rosterKey = 99 :: 58 :: textBytes "committee" := by decide

@[simp] theorem validatorKey_inj {a b : Account} : validatorKey a = validatorKey b ↔ a = b := by
  rw [validatorKey_eq, validatorKey_eq]
  constructor
  · intro h
    simp only [List.cons.injEq, true_and] at h
    exact Account.bytes_injective h
  · rintro rfl
    rfl

@[simp] theorem bindingKey_inj {k l : ConsensusKey} : bindingKey k = bindingKey l ↔ k = l := by
  rw [bindingKey_eq, bindingKey_eq]
  simp [ConsensusKey.ext_iff]

@[simp] theorem validatorKey_ne_bindingKey (a : Account) (k : ConsensusKey) :
    validatorKey a ≠ bindingKey k := by
  rw [validatorKey_eq, bindingKey_eq]
  simp

@[simp] theorem validatorKey_ne_rosterKey (a : Account) : validatorKey a ≠ rosterKey := by
  rw [validatorKey_eq, rosterKey_eq]
  simp

@[simp] theorem bindingKey_ne_rosterKey (k : ConsensusKey) : bindingKey k ≠ rosterKey := by
  rw [bindingKey_eq, rosterKey_eq]
  simp

end Layout

/-! ### Stores that hold a book -/

/-- The store has the written form of the book, and nothing else. -/
structure Store.Holds (s : Store) (b : Book) : Prop where
  validators : ∀ a, s.get? (Layout.validatorKey a) = (b.validators.get? a).map Validator.encode
  holders : ∀ k, s.get? (Layout.bindingKey k) = (b.holders.get? k).map Account.bytes
  roster : s.get? Layout.rosterKey = some b.roster.encode
  only : ∀ {key bytes}, s.get? key = some bytes →
    (∃ a, key = Layout.validatorKey a) ∨ (∃ k, key = Layout.bindingKey k) ∨ key = Layout.rosterKey
  validators_fit : ∀ {a v}, b.validators.get? a = some v → v.Fits
  roster_fits : b.roster.Fits

namespace Query

variable {α : Type} {s : Store}

@[simp] theorem answer_read (key : Bytes) (next : Option Bytes → Query α) :
    (read key next).answer s = (next (s.get? key)).answer s := rfl

@[simp] theorem answer_scan (start : Bytes) (next : List (Bytes × Bytes) → Query α) :
    (scan start next).answer s = (next (s.scan start)).answer s := rfl

/-- Of two queries in a row the first fails, or the second does with the answer of the first. -/
theorem answer_bind_error_cases {β : Type} {q : Query α} {next : α → Query β} {e : RegistryError}
    (h : (q >>= next).answer s = .error e) :
    q.answer s = .error e ∨ ∃ a, q.answer s = .ok a ∧ (next a).answer s = .error e := by
  rw [answer_bind] at h
  cases hq : q.answer s with
  | error f =>
    rw [hq] at h
    cases h
    exact .inl rfl
  | ok a =>
    rw [hq] at h
    exact .inr ⟨a, rfl, h⟩

theorem answer_validator?_of_encode {a : Account} {v : Validator}
    (h : s.get? (Layout.validatorKey a) = some v.encode) (hfits : v.Fits) :
    (Query.validator? a).answer s = .ok (some v) := by
  rw [Query.validator?, answer_read, h]
  simp only [Validator.decode_encode hfits, decoded]
  rfl

theorem answer_holder?_of_bytes {k : ConsensusKey} {a : Account}
    (h : s.get? (Layout.bindingKey k) = some a.bytes) :
    (Query.holder? k).answer s = .ok (some a) := by
  rw [Query.holder?, answer_read, h]
  simp only [Account.bytes, Text.ofUtf8_textBytes]
  rfl

theorem answer_roster?_of_encode {r : Roster} (h : s.get? Layout.rosterKey = some r.encode)
    (hfits : r.Fits) : Query.roster?.answer s = .ok (some r) := by
  rw [Query.roster?, answer_read, h]
  simp only [Roster.decode_encode hfits, decoded]
  rfl

theorem answer_roster_of_encode {r : Roster} (h : s.get? Layout.rosterKey = some r.encode)
    (hfits : r.Fits) : Query.roster.answer s = .ok r := by
  rw [Query.roster, answer_bind, answer_roster?_of_encode h hfits]
  rfl

end Query

namespace Store.Holds

open Query

variable {s : Store} {b : Book}

theorem answer_validator? (h : s.Holds b) (a : Account) :
    (Query.validator? a).answer s = .ok (b.validators.get? a) := by
  have hbytes := h.validators a
  cases hv : b.validators.get? a with
  | none =>
    rw [hv] at hbytes
    rw [Query.validator?, answer_read, hbytes]
    rfl
  | some v =>
    rw [hv] at hbytes
    exact answer_validator?_of_encode hbytes (h.validators_fit hv)

theorem answer_holder? (h : s.Holds b) (k : ConsensusKey) :
    (Query.holder? k).answer s = .ok (b.holders.get? k) := by
  have hbytes := h.holders k
  cases hk : b.holders.get? k with
  | none =>
    rw [hk] at hbytes
    rw [Query.holder?, answer_read, hbytes]
    rfl
  | some a =>
    rw [hk] at hbytes
    exact answer_holder?_of_bytes hbytes

theorem answer_roster? (h : s.Holds b) : Query.roster?.answer s = .ok (some b.roster) :=
  answer_roster?_of_encode h.roster h.roster_fits

theorem answer_roster (h : s.Holds b) : Query.roster.answer s = .ok b.roster :=
  answer_roster_of_encode h.roster h.roster_fits

theorem answer_validator (h : s.Holds b) (a : Account) :
    (Query.validator a).answer s =
      match b.validators.get? a with
      | some v => .ok v
      | none => .error (.notFound a) := by
  rw [Query.validator, answer_bind, h.answer_validator? a]
  cases b.validators.get? a <;> rfl

/-- Stores agree under a key if their books agree on what stands there. -/
theorem get?_congr {t : Store} {c : Book} (hs : s.Holds b) (ht : t.Holds c) {key : Bytes}
    (hvalidators : ∀ a, key = Layout.validatorKey a →
      c.validators.get? a = b.validators.get? a)
    (hholders : ∀ k, key = Layout.bindingKey k → c.holders.get? k = b.holders.get? k)
    (hroster : key = Layout.rosterKey → c.roster = b.roster) : t.get? key = s.get? key := by
  by_cases hvalidator : ∃ a, key = Layout.validatorKey a
  · obtain ⟨a, rfl⟩ := hvalidator
    rw [ht.validators, hs.validators, hvalidators a rfl]
  by_cases hbinding : ∃ k, key = Layout.bindingKey k
  · obtain ⟨k, rfl⟩ := hbinding
    rw [ht.holders, hs.holders, hholders k rfl]
  by_cases hkey : key = Layout.rosterKey
  · rw [hkey, ht.roster, hs.roster, hroster hkey]
  -- Nothing else is stored.
  have hnone {u : Store} {d : Book} (hu : u.Holds d) : u.get? key = none :=
    Option.eq_none_iff_forall_ne_some.2 fun bytes hbytes => by
      rcases hu.only hbytes with hv | hk | hr
      · exact hvalidator hv
      · exact hbinding hk
      · exact hkey hr
  rw [hnone ht, hnone hs]

/-- A book is held by one store only. -/
theorem store_eq {t : Store} (h : s.Holds b) (ht : t.Holds b) : t = s :=
  SortedMap.ext_get? fun _ => h.get?_congr ht (fun _ _ => rfl) (fun _ _ => rfl) fun _ => rfl

/-- A store holds one book only. -/
theorem unique {c : Book} (h : s.Holds b) (hc : s.Holds c) : b = c := by
  apply Book.ext
  · have hr := h.answer_roster.symm.trans hc.answer_roster
    injection hr
  · refine SortedMap.ext_get? fun a => ?_
    have hv := (h.answer_validator? a).symm.trans (hc.answer_validator? a)
    injection hv
  · refine SortedMap.ext_get? fun k => ?_
    have hk := (h.answer_holder? k).symm.trans (hc.answer_holder? k)
    injection hk

end Store.Holds

end StakedCommittee
