import StakedCommittee.Registry.Membership
import StakedCommittee.Proofs.Draft.Desk

/-! Registration, larger deposits, withdrawals and revocation, each said on a desk: what it looks
up, when it is refused, what it enters and which coins it moves. Each operation on drafts yields
what its desk form says. -/

namespace StakedCommittee

namespace Book

/-- Puts an account into the pool and tries to find it a seat. -/
def offerSeat (b : Book) (p : Parameters) (owner : Account) : Seating × Book :=
  let found := (b.roster.join owner).seat (b.powerAmong (b.roster.seated ++ [owner])) p.seats owner
  (found.2, b.setRoster found.1)

/-- Takes an account out of the roster. -/
def dismiss (b : Book) (p : Parameters) (owner : Account) : Departure × Book :=
  let found := b.roster.release (b.powerAmong b.roster.pool) p.seats owner
  (found.2, b.setRoster found.1)

/-- Takes an account out of the roster, if it is in it. -/
def dismissMember (b : Book) (p : Parameters) (owner : Account) : Book :=
  if owner ∈ b.roster.pool then (b.dismiss p owner).2 else b

@[simp] theorem validators_dismissMember (b : Book) (p : Parameters) (owner : Account) :
    (b.dismissMember p owner).validators = b.validators := by
  unfold dismissMember
  split <;> rfl

@[simp] theorem holders_dismissMember (b : Book) (p : Parameters) (owner : Account) :
    (b.dismissMember p owner).holders = b.holders := by
  unfold dismissMember
  split <;> rfl

end Book

namespace Desk

def setBook (w : Desk) (b : Book) : Desk := { w with book := b }

@[simp] theorem book_setBook (w : Desk) (b : Book) : (w.setBook b).book = b := rfl

def offerSeat (w : Desk) (p : Parameters) (owner : Account) : Seating × Desk :=
  ((w.book.offerSeat p owner).1, w.setBook (w.book.offerSeat p owner).2)

def dismiss (w : Desk) (p : Parameters) (owner : Account) : Departure × Desk :=
  ((w.book.dismiss p owner).1, w.setBook (w.book.dismiss p owner).2)

def dismissMember (w : Desk) (p : Parameters) (owner : Account) : Desk :=
  w.setBook (w.book.dismissMember p owner)

/-- The validator that an application makes. -/
def applicant (w : Desk) (height : Height) (owner : Account) (key : ConsensusKey)
    (deposit : Amount) (link : String) : Except RegistryError Validator :=
  match w.book.validators.get? owner with
  | none => .ok (.enroll owner key deposit link height)
  | some v =>
    if !v.deposit.isZero then .error (.alreadyRegistered owner)
    else if v.key ≠ key then .error (.keyFixed owner)
    else .ok (v.reenroll deposit link height)

/-- Binds a key to an owner, unless it is another's. -/
def claimKey (w : Desk) (key : ConsensusKey) (owner : Account) : Except RegistryError Desk :=
  match w.book.holders.get? key with
  | none => .ok (w.bind key owner)
  | some holder => if holder ≠ owner then .error (.keyTaken key holder) else .ok w

def register (w : Desk) (p : Parameters) (height : Height) (owner : Account) (key : ConsensusKey)
    (deposit : Amount) (link : String) : Except RegistryError (Seating × Desk) :=
  match w.applicant height owner key deposit link with
  | .error e => .error e
  | .ok v =>
    if deposit < p.leastDeposit then .error (.shortDeposit p.leastDeposit deposit)
    else
      match w.claimKey key owner with
      | .error e => .error e
      | .ok claimed =>
        let found := (claimed.put v).offerSeat p owner
        .ok (found.1, found.2.transfer (.debit owner deposit))

def increaseDeposit (w : Desk) (p : Parameters) (owner : Account) (amount : Amount) :
    Except RegistryError (Seating × Desk) :=
  if owner ∉ w.book.roster.pool then .error (.notFound owner)
  else
    match w.book.validators.get? owner with
    | none => .error (.notFound owner)
    | some v =>
      match v.deposit.add? amount with
      | none => .error (.message (.depositOverflow owner))
      | some deposit =>
        let found := (w.put { v with deposit }).offerSeat p owner
        .ok (found.1, found.2.transfer (.debit owner amount))

def withdraw (w : Desk) (p : Parameters) (owner : Account) (amount : Amount) :
    Except RegistryError (Amount × Desk) :=
  match w.book.validators.get? owner with
  | none => .error (.notFound owner)
  | some v =>
    match p.withdraw (decide (owner ∈ w.book.roster.seated)) v.deposit amount with
    | .error refusal => .error (.withdrawalRefused owner amount refusal)
    | .ok remaining =>
      let paid := w.put { v with deposit := remaining }
      let left := if remaining.isZero then paid.dismissMember p owner else paid
      .ok (remaining, left.transfer (.credit owner amount))

def revoke (w : Desk) (p : Parameters) (owner : Account) : Except RegistryError (Amount × Desk) :=
  match w.book.validators.get? owner with
  | none => .error (.notFound owner)
  | some v =>
    if v.deposit.isZero then .error (.notFound owner)
    else
      let left := (w.put { v with deposit := .zero }).dismissMember p owner
      .ok (v.deposit, left.transfer (.credit owner v.deposit))

end Desk

/-! ### What success says -/

theorem Book.bind_eq_self {b : Book} {key : ConsensusKey} {owner : Account}
    (h : b.holders.get? key = some owner) : b.bind key owner = b := by
  refine Book.ext rfl rfl (SortedMap.ext_get? fun k => ?_)
  rw [Book.holders_bind]
  split
  · subst_vars
    exact h.symm
  · rfl

theorem Parameters.withdraw_eq_ok {p : Parameters} {seated : Bool}
    {deposit amount remaining : Amount} (h : p.withdraw seated deposit amount = .ok remaining) :
    seated = false ∧ amount.units + remaining.units = deposit.units ∧
      (remaining = .zero ∨ p.leastDeposit ≤ remaining) := by
  unfold withdraw at h
  split at h
  · cases h
  · rename_i hseated
    split at h
    · cases h
    · cases hsub : deposit.sub? amount with
      | none => simp [hsub] at h
      | some rest =>
        simp only [hsub] at h
        split at h
        · cases h
        · rename_i hleast
          cases h
          refine ⟨by simpa using hseated, Amount.sub?_eq_some_iff.1 hsub, ?_⟩
          by_cases hzero : remaining = .zero
          · exact .inl hzero
          · refine .inr (Amount.le_iff.2 ?_)
            simpa [Amount.lt_iff, ← Bool.not_eq_true, hzero] using hleast

namespace Desk

variable {w after : Desk} {p : Parameters} {height : Height} {owner : Account} {v : Validator}

/-- An application is that of a new owner, or of one that left with nothing and brings its old
key. -/
theorem applicant_cases {key : ConsensusKey} {deposit : Amount} {link : String}
    (h : w.applicant height owner key deposit link = .ok v) :
    w.book.validators.get? owner = none ∧ v = .enroll owner key deposit link height ∨
      ∃ u, w.book.validators.get? owner = some u ∧ u.deposit = .zero ∧ u.key = key ∧
        v = u.reenroll deposit link height := by
  unfold applicant at h
  cases hu : w.book.validators.get? owner with
  | none =>
    rw [hu] at h
    cases h
    exact .inl ⟨rfl, rfl⟩
  | some u =>
    simp only [hu] at h
    split at h
    · cases h
    · rename_i hzero
      split at h
      · cases h
      · rename_i hkey
        cases h
        exact .inr ⟨u, rfl, by simpa using hzero, Decidable.not_not.1 hkey, rfl⟩

theorem applicant_eq_ok {key : ConsensusKey} {deposit : Amount} {link : String}
    (h : w.applicant height owner key deposit link = .ok v) :
    v.owner = owner ∧ v.key = key ∧ v.deposit = deposit ∧
      ∀ u, w.book.validators.get? owner = some u → u.key = key ∧ u.deposit = .zero := by
  rcases applicant_cases h with ⟨hnone, rfl⟩ | ⟨u, hu, hzero, rfl, rfl⟩
  · refine ⟨rfl, rfl, rfl, fun u hu => ?_⟩
    cases hnone.symm.trans hu
  · have howner : u.owner = owner := w.book.owner_eq hu
    refine ⟨howner, rfl, rfl, fun t ht => ?_⟩
    obtain rfl := Option.some.inj (hu.symm.trans ht)
    exact ⟨rfl, hzero⟩

/-- An application forgets absences and keeps the count of signatures, which starts at none. -/
theorem counts_of_applicant {key : ConsensusKey} {deposit : Amount} {link : String}
    (h : w.applicant height owner key deposit link = .ok v) :
    v.absences = 0 ∧
      v.signatures = ((w.book.validators.get? owner).map (·.signatures)).getD 0 := by
  rcases applicant_cases h with ⟨hnone, rfl⟩ | ⟨u, hu, -, -, rfl⟩
  · rw [hnone]
    exact ⟨rfl, rfl⟩
  · rw [hu]
    exact ⟨rfl, rfl⟩

theorem link_of_applicant {key : ConsensusKey} {deposit : Amount} {link : String}
    (h : w.applicant height owner key deposit link = .ok v) : v.link = link := by
  rcases applicant_cases h with ⟨-, rfl⟩ | ⟨u, -, -, -, rfl⟩ <;> rfl

theorem claimKey_eq_ok {key : ConsensusKey} (h : w.claimKey key owner = .ok after) :
    after = w.setBook (w.book.bind key owner) ∧
      ∀ a, w.book.holders.get? key = some a → a = owner := by
  unfold claimKey at h
  cases hk : w.book.holders.get? key with
  | none =>
    rw [hk] at h
    cases h
    exact ⟨rfl, fun a ha => by cases ha⟩
  | some a =>
    simp only [hk] at h
    split at h
    · cases h
    · rename_i heq
      cases h
      obtain rfl := Decidable.not_not.1 heq
      refine ⟨by rw [Book.bind_eq_self hk]; rfl, ?_⟩
      rintro _ ⟨⟩
      rfl

theorem register_eq_ok {key : ConsensusKey} {deposit : Amount} {link : String} {answer : Seating}
    (h : w.register p height owner key deposit link = .ok (answer, after)) :
    ∃ v, w.applicant height owner key deposit link = .ok v ∧ p.leastDeposit ≤ deposit ∧
      (∀ a, w.book.holders.get? key = some a → a = owner) ∧
      answer = (((w.setBook (w.book.bind key owner)).put v).offerSeat p owner).1 ∧
      after = (((w.setBook (w.book.bind key owner)).put v).offerSeat p owner).2.transfer
        (.debit owner deposit) := by
  unfold register at h
  cases happ : w.applicant height owner key deposit link with
  | error e => simp [happ] at h
  | ok v =>
    simp only [happ] at h
    split at h
    · cases h
    · rename_i hleast
      cases hclaim : w.claimKey key owner with
      | error e => simp [hclaim] at h
      | ok claimed =>
        obtain ⟨rfl, hholder⟩ := claimKey_eq_ok hclaim
        simp only [hclaim] at h
        cases h
        rw [Amount.lt_iff] at hleast
        exact ⟨v, rfl, Amount.le_iff.2 (by omega), hholder, rfl, rfl⟩

theorem increaseDeposit_eq_ok {amount : Amount} {answer : Seating}
    (h : w.increaseDeposit p owner amount = .ok (answer, after)) :
    owner ∈ w.book.roster.pool ∧ ∃ v deposit, w.book.validators.get? owner = some v ∧
      v.deposit.units + amount.units = deposit.units ∧
      answer = ((w.put { v with deposit }).offerSeat p owner).1 ∧
      after = ((w.put { v with deposit }).offerSeat p owner).2.transfer (.debit owner amount) := by
  unfold increaseDeposit at h
  split at h
  · cases h
  · rename_i hmember
    refine ⟨Decidable.not_not.1 hmember, ?_⟩
    cases hv : w.book.validators.get? owner with
    | none => simp [hv] at h
    | some v =>
      simp only [hv] at h
      cases hadd : v.deposit.add? amount with
      | none => simp [hadd] at h
      | some deposit =>
        simp only [hadd] at h
        cases h
        exact ⟨v, deposit, rfl, Amount.add?_eq_some_iff.1 hadd, rfl, rfl⟩

theorem withdraw_eq_ok {amount answer : Amount}
    (h : w.withdraw p owner amount = .ok (answer, after)) :
    ∃ v, w.book.validators.get? owner = some v ∧
      p.withdraw (decide (owner ∈ w.book.roster.seated)) v.deposit amount = .ok answer ∧
      after = (if answer.isZero then (w.put { v with deposit := answer }).dismissMember p owner
        else w.put { v with deposit := answer }).transfer (.credit owner amount) := by
  unfold withdraw at h
  cases hv : w.book.validators.get? owner with
  | none => simp [hv] at h
  | some v =>
    simp only [hv] at h
    cases hwithdraw : p.withdraw (decide (owner ∈ w.book.roster.seated)) v.deposit amount with
    | error refusal => simp [hwithdraw] at h
    | ok remaining =>
      simp only [hwithdraw] at h
      cases h
      exact ⟨v, rfl, hwithdraw, rfl⟩

theorem revoke_eq_ok {answer : Amount} (h : w.revoke p owner = .ok (answer, after)) :
    ∃ v, w.book.validators.get? owner = some v ∧ v.deposit ≠ .zero ∧ answer = v.deposit ∧
      after = ((w.put { v with deposit := .zero }).dismissMember p owner).transfer
        (.credit owner v.deposit) := by
  unfold revoke at h
  cases hv : w.book.validators.get? owner with
  | none => simp [hv] at h
  | some v =>
    simp only [hv] at h
    split at h
    · cases h
    · rename_i hzero
      cases h
      exact ⟨v, rfl, fun hz => hzero (Amount.isZero_iff.2 hz), rfl, rfl⟩

end Desk

/-! ### From drafts to desks -/

namespace Staging

variable {s : Store} {b : Book} (hs : s.Holds b)
include hs

theorem yields_offerSeat (p : Parameters) (owner : Account) (w : Desk) :
    Yields s b (offerSeat p owner) w (.ok (w.offerSeat p owner)) := by
  have hjoin : Yields s b (modify fun d => d.setRoster (d.roster.join owner)) w
      (.ok ((), w.setRoster (w.book.roster.join owner))) := by
    refine yields_modify fun d hd => ?_
    rw [hd.roster]
    exact hd.setRoster _
  refine hjoin.bind (yields_get fun d hd => ?_)
  rw [hd.roster]
  refine (yields_powers hs _ _).bind (yields_get fun d hd => ?_)
  rw [hd.roster, Book.power_powerTable]
  simp only [Desk.book_setRoster, Book.roster_setRoster, Roster.seated_join]
  exact (yields_setRoster _ _).bind (yields_pure _ _)

theorem yields_dismiss (p : Parameters) (owner : Account) (w : Desk) :
    Yields s b (dismiss p owner) w (.ok (w.dismiss p owner)) := by
  refine yields_get fun d hd => ?_
  rw [hd.roster]
  refine (yields_powers hs _ _).bind (yields_get fun d hd => ?_)
  rw [hd.roster, Book.power_powerTable]
  exact (yields_setRoster _ _).bind (yields_pure _ _)

theorem yields_dismissMember (p : Parameters) (owner : Account) (w : Desk) :
    Yields s b (dismissMember p owner) w (.ok ((), w.dismissMember p owner)) := by
  refine yields_get fun d hd => ?_
  rw [hd.roster, Desk.dismissMember, Book.dismissMember]
  split
  · exact (yields_dismiss hs p owner w).bind (yields_pure _ _)
  · exact yields_pure _ _

theorem yields_applicant (height : Height) (owner : Account) (key : ConsensusKey)
    (deposit : Amount) (link : String) (w : Desk) :
    Yields s b (applicant height owner key deposit link) w
      ((w.applicant height owner key deposit link).map fun v => (v, w)) := by
  refine (yields_validator? hs owner w).bind ?_
  unfold Desk.applicant
  cases w.book.validators.get? owner with
  | none => exact yields_pure _ w
  | some v =>
    dsimp only
    split
    · exact yields_fail _ w
    · split
      · exact yields_fail _ w
      · exact yields_pure _ w

theorem yields_claimKey (key : ConsensusKey) (owner : Account) (w : Desk) :
    Yields s b (claimKey key owner) w
      ((w.claimKey key owner).map fun claimed => ((), claimed)) := by
  refine (yields_holder? hs key w).bind ?_
  unfold Desk.claimKey
  cases w.book.holders.get? key with
  | none => exact yields_bind key owner w
  | some holder =>
    dsimp only
    split
    · exact yields_fail _ w
    · exact yields_pure _ w

theorem yields_register (p : Parameters) (height : Height) (owner : Account) (key : ConsensusKey)
    (deposit : Amount) (link : String) (w : Desk) :
    Yields s b (register p height owner key deposit link) w
      (w.register p height owner key deposit link) := by
  have happ := yields_applicant hs height owner key deposit link w
  have hclaim := yields_claimKey hs key owner w
  unfold Desk.register
  cases ha : w.applicant height owner key deposit link with
  | error e =>
    rw [ha] at happ
    exact happ.bind_error
  | ok v =>
    rw [ha] at happ
    refine happ.bind ?_
    dsimp only
    split
    · exact (yields_fail _ w).bind_error
    · cases hc : w.claimKey key owner with
      | error e =>
        rw [hc] at hclaim
        exact hclaim.bind_error
      | ok claimed =>
        rw [hc] at hclaim
        refine hclaim.bind ((yields_put rfl claimed).bind ?_)
        refine (yields_offerSeat hs p owner _).bind ?_
        exact (yields_transfer _ _).bind (yields_pure _ _)

theorem yields_increaseDeposit (p : Parameters) (owner : Account) (amount : Amount) (w : Desk) :
    Yields s b (increaseDeposit p owner amount) w (w.increaseDeposit p owner amount) := by
  refine yields_get fun d hd => ?_
  rw [hd.roster, Desk.increaseDeposit]
  dsimp only
  split
  · exact (yields_fail _ w).bind_error
  · cases hv : w.book.validators.get? owner with
    | none => exact (yields_reopen_error hs hv).bind_error
    | some v =>
      refine (yields_reopen hs hv).bind ?_
      dsimp only
      cases v.deposit.add? amount with
      | none => exact yields_fail _ w
      | some deposit =>
        refine (yields_replace (u := { v with deposit }) hv rfl).bind ?_
        refine (yields_offerSeat hs p owner _).bind ?_
        exact (yields_transfer _ _).bind (yields_pure _ _)

theorem yields_withdraw (p : Parameters) (owner : Account) (amount : Amount) (w : Desk) :
    Yields s b (withdraw p owner amount) w (w.withdraw p owner amount) := by
  refine yields_get fun d hd => ?_
  rw [hd.roster, Desk.withdraw]
  cases hv : w.book.validators.get? owner with
  | none => exact (yields_reopen_error hs hv).bind_error
  | some v =>
    refine (yields_reopen hs hv).bind ?_
    dsimp only
    cases p.withdraw (decide (owner ∈ w.book.roster.seated)) v.deposit amount with
    | error refusal => exact yields_fail _ w
    | ok remaining =>
      refine (yields_replace (u := { v with deposit := remaining }) hv rfl).bind ?_
      dsimp only
      split
      · refine (yields_dismissMember hs p owner _).bind ?_
        exact (yields_transfer _ _).bind (yields_pure _ _)
      · exact (yields_transfer _ _).bind (yields_pure _ _)

theorem yields_revoke (p : Parameters) (owner : Account) (w : Desk) :
    Yields s b (revoke p owner) w (w.revoke p owner) := by
  rw [Desk.revoke]
  cases hv : w.book.validators.get? owner with
  | none => exact (yields_reopen_error hs hv).bind_error
  | some v =>
    refine (yields_reopen hs hv).bind ?_
    dsimp only
    split
    · exact (yields_fail _ w).bind_error
    · refine (yields_replace (u := { v with deposit := .zero }) hv rfl).bind ?_
      refine (yields_dismissMember hs p owner _).bind ?_
      exact (yields_transfer _ _).bind (yields_pure _ _)

end Staging

end StakedCommittee
