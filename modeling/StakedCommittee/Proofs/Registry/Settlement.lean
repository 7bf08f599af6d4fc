import StakedCommittee.Block
import StakedCommittee.Message
import StakedCommittee.Proofs.Ledger.Balance
import StakedCommittee.Proofs.Sample

/-! Calls are all or nothing. A call that succeeds has moved all its coins and stored its draft in
one batch. A call that fails has stored nothing, and the coins it moved went back: on a ledger that
refuses a movement only for its own reasons no movement fails to be taken back, and every balance is
as it was. This needs nothing of the store, which may hold any bytes. -/

namespace StakedCommittee

namespace Registry

variable {α : Type} {reg : Registry} {faults : Faults} {d : Draft} {plan : Query (α × Draft)}

/-- `after` has the stored bytes and the balances of `reg`. -/
structure Keeps (reg after : Registry) : Prop where
  store : after.store = reg.store
  balance : ∀ a, after.ledger.balance a = reg.ledger.balance a

/-- The registry `after` is what carrying out `d` leaves. -/
structure Settles (reg : Registry) (faults : Faults) (d : Draft) (after : Registry) : Prop where
  moved : (reg.ledger.moveAll faults.ledger [] d.transfers).failure = none
  ledger : after.ledger = (reg.ledger.moveAll faults.ledger [] d.transfers).ledger
  commit : d.commit faults.write reg.store = .ok after.store

/-- The registry once the coins that a draft has moved are taken back. -/
def takenBack (reg : Registry) (faults : Faults) (d : Draft) : Registry :=
  let moved := reg.ledger.moveAll faults.ledger [] d.transfers
  { reg with ledger := (moved.ledger.takeBack faults.ledger moved.made).1 }

theorem settle_of_error {e : RegistryError} (h : (reg.settle faults d).1 = .error e) :
    (reg.settle faults d).2 = reg.takenBack faults d := by
  unfold settle at h ⊢
  cases hmoved : (reg.ledger.moveAll faults.ledger [] d.transfers).failure with
  | some cause => simp only [hmoved, takenBack]
  | none =>
    cases hcommit : d.commit faults.write reg.store with
    | error e => simp only [hmoved, takenBack]
    | ok store => simp [hmoved, hcommit] at h

theorem settle_of_ok (h : (reg.settle faults d).1 = .ok ()) :
    reg.Settles faults d (reg.settle faults d).2 := by
  unfold settle at h ⊢
  cases hmoved : (reg.ledger.moveAll faults.ledger [] d.transfers).failure with
  | some cause => simp [hmoved] at h
  | none =>
    cases hcommit : d.commit faults.write reg.store with
    | error e => simp [hmoved, hcommit] at h
    | ok store => exact ⟨hmoved, by simp [hmoved], by simp [hmoved, hcommit]⟩

/-- What performing a plan comes to, and when: the plan fails, a movement fails, the draft cannot be
stored, or everything is done. -/
inductive PerformCase (reg : Registry) (faults : Faults) (plan : Query (α × Draft)) :
    Except RegistryError α × Registry → Prop
  | refused {e : RegistryError} (run : plan.run faults.read reg.store = .error e) :
      PerformCase reg faults plan (.error e, reg)
  | unpaid {a : α} {d : Draft} {cause : LedgerError}
      (run : plan.run faults.read reg.store = .ok (a, d))
      (moved : (reg.ledger.moveAll faults.ledger [] d.transfers).failure = some cause) :
      PerformCase reg faults plan (.error (.ledger cause), reg.takenBack faults d)
  | unstored {a : α} {d : Draft} {e : RegistryError}
      (run : plan.run faults.read reg.store = .ok (a, d))
      (commit : d.commit faults.write reg.store = .error e) :
      PerformCase reg faults plan (.error e, reg.takenBack faults d)
  | done {a : α} {d : Draft} {after : Registry}
      (run : plan.run faults.read reg.store = .ok (a, d)) (settles : reg.Settles faults d after) :
      PerformCase reg faults plan (.ok a, after)

theorem perform_case (reg : Registry) (faults : Faults) (plan : Query (α × Draft)) :
    reg.PerformCase faults plan (reg.perform faults plan) := by
  unfold perform settle
  cases hrun : plan.run faults.read reg.store with
  | error e => exact .refused hrun
  | ok found =>
    obtain ⟨a, d⟩ := found
    dsimp only
    cases hmoved : (reg.ledger.moveAll faults.ledger [] d.transfers).failure with
    | some cause => exact .unpaid hrun hmoved
    | none =>
      cases hcommit : d.commit faults.write reg.store with
      | error e => exact .unstored hrun hcommit
      | ok store => exact .done hrun ⟨hmoved, rfl, hcommit⟩

theorem perform_of_ok {a : α} (h : (reg.perform faults plan).1 = .ok a) :
    ∃ d, plan.answer reg.store = .ok (a, d) ∧ reg.Settles faults d (reg.perform faults plan).2 := by
  have hcase := reg.perform_case faults plan
  generalize reg.perform faults plan = result at h hcase
  cases hcase with
  | refused | unpaid | unstored => cases h
  | done hrun hsettles =>
    cases h
    exact ⟨_, Query.answer_of_run hrun, hsettles⟩

theorem store_of_error {e : RegistryError} (h : (reg.perform faults plan).1 = .error e) :
    (reg.perform faults plan).2.store = reg.store := by
  have hcase := reg.perform_case faults plan
  generalize reg.perform faults plan = result at h hcase
  cases hcase with
  | refused | unpaid | unstored => rfl
  | done => cases h

/-- Taking back restores every balance. -/
theorem keeps_takenBack (hledger : faults.ledger = {}) (d : Draft) :
    reg.Keeps (reg.takenBack faults d) := by
  refine ⟨rfl, fun a => ?_⟩
  obtain ⟨undone, hback, hmatches⟩ := reg.ledger.takeBack_moveAll d.transfers
  rw [takenBack, hledger]
  dsimp only
  rw [hback]
  exact hmatches.balance a

/-- If carrying out a draft fails, at one of its movements or because the draft cannot be stored,
then each movement made is taken back, the latest first, none of them is stuck, and every balance is
as it was. If it succeeds, the balance of each account has changed by what the movements pay to the
account less what they take from it. -/
theorem settle_is_exact (reg : Registry) (faults : Faults) (hledger : faults.ledger = {})
    (d : Draft) :
    let moved := reg.ledger.moveAll {} [] d.transfers
    let after := (reg.settle faults d).2.ledger
    (∀ e, (reg.settle faults d).1 = .error e →
      moved.made.reverse <+: d.transfers ∧ moved.ledger.takeBack {} moved.made = (after, []) ∧
        ∀ a, after.balance a = reg.ledger.balance a) ∧
    ((reg.settle faults d).1 = .ok () → ∀ a,
      (after.balance a).units + Ledger.takenFrom a d.transfers =
        (reg.ledger.balance a).units + Ledger.paidTo a d.transfers) := by
  intro moved after
  refine ⟨fun e herror => ?_, fun hok a => ?_⟩
  · have hafter : after = (moved.ledger.takeBack {} moved.made).1 := by
      show (reg.settle faults d).2.ledger = _
      rw [settle_of_error herror, takenBack, hledger]
    obtain ⟨undone, hback, hmatches⟩ := reg.ledger.takeBack_moveAll d.transfers
    obtain ⟨first, hmade, hfirst⟩ := Ledger.made_moveAll {} reg.ledger [] d.transfers
    have hundone : after = undone := hafter.trans (congrArg Prod.fst hback)
    refine ⟨?_, hundone ▸ hback, fun a => hundone ▸ hmatches.balance a⟩
    rwa [show moved.made = first.reverse by simpa using hmade, List.reverse_reverse]
  · have hsettles := settle_of_ok hok
    rw [show after = _ from hsettles.ledger]
    exact Ledger.balance_moveAll hsettles.moved a

/-- A credit in excess of the greatest amount comes last, after one account was debited twice and
another one opened. -/
theorem settle_is_exact_past_overflow :
    let reg : Registry := ⟨.empty,
      .ofList [(⟨"alice"⟩, .ofCoins 5), (⟨"bob"⟩, .greatest)]⟩
    let d : Draft := { Draft.genesis with
      transfers := [.debit ⟨"alice"⟩ (.ofCoins 2), .debit ⟨"alice"⟩ (.ofCoins 3),
        .credit ⟨"carol"⟩ (.ofCoins 5), .credit ⟨"bob"⟩ .oneUnit] }
    let paid : Draft := { d with transfers := d.transfers.take 3 }
    (reg.settle {} d).1 = .error (.ledger (.overflow ⟨"bob"⟩)) ∧
    (∀ a, (reg.settle {} d).2.ledger.balance a = reg.ledger.balance a) ∧
    (reg.settle {} paid).1 = .ok () ∧
    ((reg.settle {} paid).2.ledger.balance ⟨"alice"⟩).units +
        Ledger.takenFrom ⟨"alice"⟩ paid.transfers =
      (reg.ledger.balance ⟨"alice"⟩).units + Ledger.paidTo ⟨"alice"⟩ paid.transfers := by
  intro reg d paid
  have herror : (reg.settle {} d).1 = .error (.ledger (.overflow ⟨"bob"⟩)) := by
    decide +kernel
  have hok : (reg.settle {} paid).1 = .ok () := by decide +kernel
  exact ⟨herror, ((settle_is_exact reg {} rfl d).1 _ herror).2.2, hok,
    (settle_is_exact reg {} rfl paid).2 hok ⟨"alice"⟩⟩

/-- A plan that fails, in itself or when it is carried out, changes nothing. -/
theorem keeps_of_error {e : RegistryError} (hledger : faults.ledger = {})
    (h : (reg.perform faults plan).1 = .error e) : reg.Keeps (reg.perform faults plan).2 := by
  have hcase := reg.perform_case faults plan
  generalize reg.perform faults plan = result at h hcase
  cases hcase with
  | refused => exact ⟨rfl, fun _ => rfl⟩
  | unpaid | unstored => exact keeps_takenBack hledger _
  | done => cases h

end Registry

/-- A receipt reports success only for an operation that succeeded. -/
theorem Receipt.isSuccess_ofOutcome (outcome : Except RegistryError Unit) :
    (ofOutcome outcome).isSuccess = outcome.isOk := by
  cases outcome with
  | ok u => rfl
  | error e =>
    have hcode := e.code_pos
    show (e.code == 0) = false
    exact beq_eq_false_iff_ne.2 (by omega)

namespace Registry

/-- Calls, block ends and messages that fail leave every stored byte and every balance as it was,
whatever the store holds. -/
theorem failure_changes_nothing (reg : Registry) (source : ParameterSource) (faults : Faults)
    (hledger : faults.ledger = {}) :
    (∀ (c : Call) e, (reg.call source faults c).1 = .error e →
      reg.Keeps (reg.call source faults c).2) ∧
    (∀ e, (reg.endBlock source faults).1 = .error e → reg.Keeps (reg.endBlock source faults).2) ∧
    (∀ height m, (reg.deliver source faults height m).1.isSuccess = false →
      reg.Keeps (reg.deliver source faults height m).2) := by
  refine ⟨fun c e h => keeps_of_error hledger h, fun e h => keeps_of_error hledger h, ?_⟩
  intro height m h
  have hfailed : (Receipt.ofOutcome (reg.perform faults (m.plan source height)).1).isSuccess =
      false := h
  rw [Receipt.isSuccess_ofOutcome] at hfailed
  show reg.Keeps (reg.perform faults (m.plan source height)).2
  cases houtcome : (reg.perform faults (m.plan source height)).1 with
  | error e => exact keeps_of_error hledger houtcome
  | ok u =>
    rw [houtcome] at hfailed
    cases hfailed

/-- A registration whose batch cannot be written gives the deposit back. -/
theorem unwritten_registration_changes_nothing :
    let reg : Registry := ⟨SortedMap.empty.insert Layout.rosterKey ({} : Roster).encode,
      .funded .greatest ["alice"]⟩
    let source : ParameterSource := .always .standard
    let faults : Faults := { write := some .missing }
    let call : Call := .register 1 ⟨"alice"⟩ (.ofByte 0) (.ofCoins 1000) ""
    faults.ledger = {} ∧ (reg.call source faults call).1 = .error (.store .missing) ∧
      reg.Keeps (reg.call source faults call).2 := by
  refine ⟨rfl, rfl, ?_⟩
  exact (failure_changes_nothing _ _ _ rfl).1 _ (.store .missing) rfl

end Registry

end StakedCommittee
