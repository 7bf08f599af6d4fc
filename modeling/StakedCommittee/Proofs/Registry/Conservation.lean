import StakedCommittee.Proofs.Registry.Moves
import StakedCommittee.Proofs.Store.Listing

/-! Coins are conserved. A desk shows deposits and movements of coins; an operation that adds to a
deposit takes as much out of the ledger, and one that pays out of a deposit pays as much into the
ledger. Only penalties are lost on the way. Over a run, the coins on the ledger, the deposits and
the penalties together come to what the ledger had at first. -/

namespace StakedCommittee

namespace Book

@[simp] theorem deposits_dismiss (b : Book) (p : Parameters) (owner : Account) :
    (b.dismiss p owner).2.deposits = b.deposits := rfl

@[simp] theorem deposits_dismissMember (b : Book) (p : Parameters) (owner : Account) :
    (b.dismissMember p owner).deposits = b.deposits := by
  unfold dismissMember
  split <;> rfl

@[simp] theorem deposits_refreshWeakest (b : Book) : b.refreshWeakest.deposits = b.deposits := rfl

end Book

namespace Desk

/-- What the staged movements pay into the ledger. -/
def paidIn (w : Desk) : Nat := (w.transfers.map Transfer.paidIn).sum

/-- What the staged movements take out of the ledger. -/
def paidOut (w : Desk) : Nat := (w.transfers.map Transfer.paidOut).sum

@[simp] theorem paidIn_setBook (w : Desk) (b : Book) : (w.setBook b).paidIn = w.paidIn := rfl

@[simp] theorem paidOut_setBook (w : Desk) (b : Book) : (w.setBook b).paidOut = w.paidOut := rfl

@[simp] theorem paidIn_put (w : Desk) (v : Validator) : (w.put v).paidIn = w.paidIn := rfl

@[simp] theorem paidOut_put (w : Desk) (v : Validator) : (w.put v).paidOut = w.paidOut := rfl

@[simp] theorem paidIn_transfer (w : Desk) (t : Transfer) :
    (w.transfer t).paidIn = w.paidIn + t.paidIn := by simp [paidIn, transfer]

@[simp] theorem paidOut_transfer (w : Desk) (t : Transfer) :
    (w.transfer t).paidOut = w.paidOut + t.paidOut := by simp [paidOut, transfer]

/-- From `w`, with `lost` in penalties so far, to `after`, with `lostAfter`, no coin is lost but in
penalties: what the movements between pay in comes out of the deposits, and what they take out goes
into them. -/
def Balanced (w : Desk) (lost : Nat) (after : Desk) (lostAfter : Nat) : Prop :=
  after.book.deposits + after.paidIn + lostAfter + w.paidOut =
    w.book.deposits + w.paidIn + lost + after.paidOut

variable {w mid after : Desk} {p : Parameters} {height : Height} {owner : Account} {v : Validator}
  {lost lostMid lostAfter : Nat}

theorem Balanced.refl (w : Desk) (lost : Nat) : w.Balanced lost w lost := by
  unfold Balanced
  omega

theorem Balanced.trans (h : w.Balanced lost mid lostMid)
    (hnext : mid.Balanced lostMid after lostAfter) : w.Balanced lost after lostAfter := by
  unfold Balanced at h hnext ⊢
  omega

/-- A validator is entered and one movement made, which makes up for the change of its deposit. -/
theorem balanced_of_put {u : Validator} {t : Transfer}
    (hdeposits : mid.book.deposits = (w.book.put u).deposits) (hsame : mid.transfers = w.transfers)
    (h : (w.book.deposit u.owner).units + t.paidOut = u.deposit.units + t.paidIn) :
    w.Balanced 0 (mid.transfer t) 0 := by
  have hput := w.book.deposits_put u
  have hin : mid.paidIn = w.paidIn := by rw [paidIn, hsame, paidIn]
  have hout : mid.paidOut = w.paidOut := by rw [paidOut, hsame, paidOut]
  unfold Balanced
  rw [book_transfer, paidIn_transfer, paidOut_transfer, hdeposits, hin, hout]
  omega

theorem balanced_register {key : ConsensusKey} {deposit : Amount} {link : String} {answer : Seating}
    (h : w.register p height owner key deposit link = .ok (answer, after)) :
    w.Balanced 0 after 0 := by
  obtain ⟨v, happ, -, -, -, rfl⟩ := register_eq_ok h
  obtain ⟨rfl, rfl, rfl, hold⟩ := applicant_eq_ok happ
  -- A new validator replaces none, or one that has no deposit.
  have hnone : w.book.deposit v.owner = .zero := Book.deposit_eq_zero fun u hu => (hold u hu).2
  refine balanced_of_put (u := v) rfl rfl ?_
  rw [hnone, Amount.units_zero, Transfer.paidIn, Transfer.paidOut]
  omega

theorem balanced_increaseDeposit {amount : Amount} {answer : Seating}
    (h : w.increaseDeposit p owner amount = .ok (answer, after)) : w.Balanced 0 after 0 := by
  obtain ⟨-, v, deposit, hv, hunits, -, rfl⟩ := increaseDeposit_eq_ok h
  obtain rfl := w.book.owner_eq hv
  refine balanced_of_put (u := { v with deposit }) rfl rfl ?_
  rw [Book.deposit_of_get? hv]
  exact hunits

theorem balanced_withdraw {amount answer : Amount}
    (h : w.withdraw p owner amount = .ok (answer, after)) : w.Balanced 0 after 0 := by
  obtain ⟨v, hv, hwithdraw, rfl⟩ := withdraw_eq_ok h
  obtain rfl := w.book.owner_eq hv
  obtain ⟨-, hunits, -⟩ := Parameters.withdraw_eq_ok hwithdraw
  refine balanced_of_put (u := { v with deposit := answer }) ?_ ?_ ?_
  · split
    · exact Book.deposits_dismissMember ..
    · rfl
  · split <;> rfl
  · rw [Book.deposit_of_get? hv]
    show v.deposit.units + 0 = answer.units + amount.units
    omega

theorem balanced_revoke {answer : Amount} (h : w.revoke p owner = .ok (answer, after)) :
    w.Balanced 0 after 0 := by
  obtain ⟨v, hv, -, -, rfl⟩ := revoke_eq_ok h
  obtain rfl := w.book.owner_eq hv
  refine balanced_of_put (u := { v with deposit := .zero }) (Book.deposits_dismissMember ..) rfl ?_
  rw [Book.deposit_of_get? hv]
  show v.deposit.units + 0 = 0 + v.deposit.units
  omega

theorem paidIn_refund (w : Desk) (owner : Account) (amount : Amount) :
    (w.refund owner amount).paidIn = w.paidIn + amount.units := by
  unfold refund
  split
  · rename_i hzero
    rw [Amount.isZero_iff.1 hzero, Amount.units_zero, Nat.add_zero]
  · exact paidIn_transfer ..

theorem paidOut_refund (w : Desk) (owner : Account) (amount : Amount) :
    (w.refund owner amount).paidOut = w.paidOut := by
  unfold refund
  split
  · rfl
  · exact paidOut_transfer ..

theorem deposits_expel (w : Desk) (p : Parameters) (v : Validator) :
    (w.expel p v).2.book.deposits + (w.book.deposit v.owner).units = w.book.deposits := by
  rw [book_expel, Book.deposits_dismiss]
  exact w.book.deposits_put { v with deposit := .zero }

theorem paidIn_expel (w : Desk) (p : Parameters) (v : Validator) :
    (w.expel p v).2.paidIn = w.paidIn + v.deposit.units := by
  simp only [expel, dismiss, paidIn_setBook, paidIn_refund, paidIn_put]

theorem paidOut_expel (w : Desk) (p : Parameters) (v : Validator) :
    (w.expel p v).2.paidOut = w.paidOut := by
  simp only [expel, dismiss, paidOut_setBook, paidOut_refund, paidOut_put]

/-- What a punishment takes from the deposit and does not pay back is the penalty. -/
theorem balanced_punish (w : Desk) (lost : Nat) (p : Parameters) (penalty : Amount)
    (removal : Removal) (hv : w.book.validators.get? v.owner = some v) :
    w.Balanced lost (w.punish p v penalty removal).2
      (lost + (w.punish p v penalty removal).1.penalty.units) := by
  have hslashed : (v.slash penalty).deposit.units + (v.forfeit penalty).units =
      v.deposit.units := by
    have hle := Amount.units_smaller penalty v.deposit
    rw [Validator.slash, Amount.units_remainder, Validator.forfeit]
    omega
  have hheld : w.book.deposit (v.slash penalty).owner = v.deposit := Book.deposit_of_get? hv
  unfold punish Balanced
  split
  · have hexpel := w.deposits_expel p (v.slash penalty)
    rw [hheld] at hexpel
    rw [paidIn_expel, paidOut_expel]
    dsimp only
    omega
  · have hput := w.book.deposits_put (v.slash penalty)
    rw [hheld] at hput
    split
    · simp only [refreshWeakest, book_setBook, book_put, paidIn_setBook, paidOut_setBook,
        paidIn_put, paidOut_put, Book.deposits_refreshWeakest]
      omega
    · simp only [book_put, paidIn_put, paidOut_put]
      omega

/-- Counts cost nothing. -/
theorem balanced_count (absences signatures : UInt64)
    (hv : w.book.validators.get? v.owner = some v) :
    w.Balanced lost (w.put { v with absences, signatures }) lost := by
  have hput := w.book.deposits_put { v with absences, signatures }
  rw [show w.book.deposit _ = v.deposit from Book.deposit_of_get? hv] at hput
  simp only [Balanced, book_put, paidIn_put, paidOut_put, Nat.add_right_cancel hput]

theorem balanced_countFlags (w : Desk) (flags : List SigningFlag) :
    w.Balanced 0 (w.countFlags flags).2 0 :=
  countFlags_induction (P := fun after => w.Balanced 0 after 0) (.refl ..)
    (fun _ _ _ _ h hv _ => h.trans (balanced_count _ _ hv)) flags

end Desk

/-- What the reported punishments took, exactly. -/
def FiringReport.penalties (r : FiringReport) : Nat :=
  (r.punishments.map fun punishment => punishment.penalty.units).sum

theorem FiringReport.penalties_add (r : FiringReport) (punishment : Punishment) :
    (r.add punishment).penalties = r.penalties + punishment.penalty.units := by
  simp [penalties, add]

theorem Amount.units_addUpToGreatest (a b : Amount) :
    (a.addUpToGreatest b).units = min (a.units + b.units) Amount.greatest.units := by
  unfold addUpToGreatest
  cases hsum : a.add? b with
  | some c =>
    have hunits := Amount.add?_eq_some_iff.1 hsum
    have hc : c.units ≤ Amount.greatest.units := Nat.le_of_lt_succ c.units_lt
    rw [Option.getD_some]
    omega
  | none =>
    have hover : ¬ a.units + b.units < 0x100000000000000000000000000000000 := fun hlt => by
      simp [add?, ofUnits?, hlt] at hsum
    show 0xffffffffffffffffffffffffffffffff = min _ 0xffffffffffffffffffffffffffffffff
    omega

/-- The reported total is the exact one, as far as there is an amount for it. -/
theorem FiringReport.units_totalPenalty (r : FiringReport) :
    r.totalPenalty.units = min r.penalties Amount.greatest.units := by
  have hfold (l : List Punishment) (start : Amount) :
      (l.foldl (fun total q => total.addUpToGreatest q.penalty) start).units =
        min (start.units + (l.map fun q => q.penalty.units).sum) Amount.greatest.units := by
    induction l generalizing start with
    | nil =>
      have hstart : start.units ≤ Amount.greatest.units := Nat.le_of_lt_succ start.units_lt
      exact (Nat.min_eq_left hstart).symm
    | cons q rest ih =>
      rw [List.foldl_cons, ih, Amount.units_addUpToGreatest, List.map_cons, List.sum_cons]
      omega
  have hzero := hfold r.punishments .zero
  rwa [Amount.units_zero, Nat.zero_add] at hzero

namespace Desk

variable {w : Desk} {v : Validator}

theorem balanced_fireOne (p : Parameters) (x : FiringReport × Desk) (penalty : Amount)
    (hv : x.2.book.validators.get? v.owner = some v) :
    x.2.Balanced x.1.penalties (fireOne p x v penalty).2 (fireOne p x v penalty).1.penalties := by
  unfold fireOne
  rw [FiringReport.penalties_add]
  exact x.2.balanced_punish _ p penalty .always hv

theorem balanced_fire (w : Desk) (p : Parameters) (evidence : List Evidence) :
    w.Balanced 0 (w.fire p evidence).2 (w.fire p evidence).1.penalties :=
  fire_induction (P := fun x => w.Balanced 0 x.2 x.1.penalties) (fun _ _ h => h)
    (fun x _ _ h hv => h.trans (balanced_fireOne p x _ hv)) (.refl ..) evidence

end Desk

/-! ### Calls and runs -/

/-- What the punishments that a call answers with took. -/
def Call.penalties : (c : Call) → c.Answer → Nat
  | .punish .., punishment => punishment.penalty.units
  | .fire .., fired => fired.penalties
  | _, _ => 0

theorem Call.balanced_effect {source : ParameterSource} {c : Call} {b : Book} {a : c.Answer}
    {w : Desk} (h : c.effect source ⟨b, []⟩ = .ok (a, w)) :
    Desk.Balanced ⟨b, []⟩ 0 w (c.penalties a) := by
  obtain ⟨p, hp⟩ := c.exists_goesBy h
  cases acts_of_effect hp h with
  | genesis => exact .refl ..
  | register h => exact Desk.balanced_register h
  | increaseDeposit _ h => exact Desk.balanced_increaseDeposit h
  | withdraw h => exact Desk.balanced_withdraw h
  | revoke h => exact Desk.balanced_revoke h
  | @punish _ penalty removal v found =>
    have hpunish := Desk.balanced_punish ⟨b, []⟩ 0 p penalty removal found
    rwa [Nat.zero_add] at hpunish
  | countFlags => exact Desk.balanced_countFlags ⟨b, []⟩ _
  | fire => exact Desk.balanced_fire ⟨b, []⟩ p _
  | report => exact .refl ..

/-- What a call that was made took in penalties. -/
def Event.penalties : Event → Nat
  | ⟨c, .ok a⟩ => c.penalties a
  | ⟨_, .error _⟩ => 0

@[simp] theorem Book.deposits_stored (w : Desk) (b : Book) :
    (w.stored b).deposits = w.book.deposits := by
  unfold Desk.stored
  split <;> rfl

namespace Run

/-- The coins on the ledger, in deposits, and lost to penalties. -/
def coins (r : Run) (b : Book) : Nat :=
  r.registry.ledger.total + b.deposits + (r.events.map Event.penalties).sum

theorem coins_of_error {r : Run} {s : Step} {e : RegistryError} (b : Book)
    (hledger : s.faults.ledger = {})
    (h : (r.registry.call s.source s.faults s.call).1 = .error e) :
    (r.extend s).coins b = r.coins b := by
  have hkeeps := Registry.keeps_of_error hledger h
  have htotal := Ledger.total_congr hkeeps.balance
  unfold coins extend
  rw [h]
  simp only [List.map_append, List.map_cons, List.map_nil, List.sum_append, List.sum_cons,
    List.sum_nil, Event.penalties]
  rw [show (r.registry.call s.source s.faults s.call).2.ledger.total = r.registry.ledger.total
    from htotal]
  omega

theorem coins_of_ok {r : Run} {b : Book} {s : Step} {a : s.call.Answer} {w : Desk}
    (hledger : s.faults.ledger = {})
    (h : (r.registry.call s.source s.faults s.call).1 = .ok a)
    (heffect : s.call.effect s.source ⟨b, []⟩ = .ok (a, w))
    (heffects : r.registry.Effects s.faults b w (r.extend s).registry) :
    (r.extend s).coins (w.stored b) = r.coins b := by
  have hbalanced := Call.balanced_effect heffect
  have hmoved := heffects.moved
  have hafter := heffects.ledger
  rw [hledger] at hmoved hafter
  have htotal := Ledger.total_moveAll hmoved
  rw [← hafter] at htotal
  have hevents : ((r.extend s).events.map Event.penalties).sum =
      (r.events.map Event.penalties).sum + s.call.penalties a := by
    unfold extend
    rw [h]
    simp [Event.penalties]
  unfold coins
  rw [hevents, Book.deposits_stored]
  unfold Desk.Balanced Desk.paidIn Desk.paidOut at hbalanced
  simp only [List.map_nil, List.sum_nil] at hbalanced
  omega

/-- No coins appear, and none vanish but in penalties. -/
theorem coins_conserved (l : Ledger) (steps : List Step)
    (hledger : ∀ s ∈ steps, s.faults.ledger = {}) :
    ∃ listed, Query.validators.answer (of l steps).registry.store = .ok listed ∧
      (of l steps).registry.ledger.total + (listed.map fun v => v.deposit.units).sum +
        ((of l steps).events.map Event.penalties).sum = l.total := by
  obtain ⟨b, hb, hcoins⟩ := induction (P := fun r b => r.coins b = l.total) l steps rfl
    (fun r b s e hs hcoins h => (coins_of_error b (hledger s hs) h).trans hcoins)
    (fun r b s a w hs hcoins h heffect heffects =>
      (coins_of_ok (hledger s hs) h heffect heffects).trans hcoins)
  refine ⟨_, hb.answer_validators, ?_⟩
  rw [hb.sum_deposits hb.answer_validators]
  exact hcoins

/-- A registration, a revocation that cannot be stored, and a penalty. -/
theorem coins_conserved_past_penalty :
    let source : ParameterSource := .always .standard
    let l : Ledger := .funded .greatest ["alice"]
    let steps : List Step :=
      [.enroll source 1 "alice" 0 1000,
        ⟨source, { write := some .missing }, .revoke 2 ⟨"alice"⟩⟩,
        ⟨source, {}, .punish 2 ⟨"alice"⟩ (.ofCoins 100) .ifPowerless⟩]
    (∀ s ∈ steps, s.faults.ledger = {}) ∧
      (of l steps).events.map Event.penalties = [0, 0, 100 * Amount.unitsPerCoin] ∧
      ∃ listed, Query.validators.answer (of l steps).registry.store = .ok listed ∧
        (of l steps).registry.ledger.total + (listed.map fun v => v.deposit.units).sum +
          ((of l steps).events.map Event.penalties).sum = l.total := by
  intro source l steps
  have hledger : ∀ s ∈ steps, s.faults.ledger = {} := by simp [steps, Step.enroll]
  exact ⟨hledger, by decide +kernel, coins_conserved l steps hledger⟩

end Run

end StakedCommittee
