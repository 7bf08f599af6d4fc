import StakedCommittee.Message
import StakedCommittee.Proofs.Registry.Integrity

/-! A deposit message finds its operation. The message goes by the deposit on record, a larger deposit
by the place in the pool and a registration by the deposit again. After every run the pool is exactly
the funded accounts, so the three agree: a message comes to the operation that it is meant for, which
never answers that the other one was. -/

namespace StakedCommittee

namespace Registry

variable {α β : Type} {reg : Registry} {faults : Faults}

/-- What a plan comes to does not depend on how its answer is put. -/
theorem perform_map {plan : Query (α × Draft)} {other : Query (β × Draft)} (f : α → β)
    (h : other.run faults.read reg.store =
      (plan.run faults.read reg.store).map fun found => (f found.1, found.2)) :
    reg.perform faults other = ((reg.perform faults plan).1.map f, (reg.perform faults plan).2) := by
  unfold perform
  rw [h]
  cases plan.run faults.read reg.store with
  | error e => rfl
  | ok found =>
    obtain ⟨a, d⟩ := found
    dsimp only [Except.map]
    cases (reg.settle faults d).1 <;> rfl

/-- Where reads and writes work, a message comes to whatever its plan answers like. -/
theorem deliver_eq {source : ParameterSource} {ledger : LedgerFaults} {height : Height}
    {m : Message} {plan : Query (α × Draft)}
    (h : (m.plan source height).answer reg.store =
      (plan.answer reg.store).map fun found => ((), found.2)) :
    reg.deliver source { ledger } height m =
      (.ofOutcome ((reg.perform { ledger } plan).1.map fun _ => ()),
        (reg.perform { ledger } plan).2) := by
  have hperform : reg.perform { ledger } (m.plan source height) =
      ((reg.perform { ledger } plan).1.map fun _ => (), (reg.perform { ledger } plan).2) :=
    perform_map (fun _ => ()) h
  unfold deliver
  rw [hperform]

end Registry

namespace Message

variable {s : Store} {b : Book} {username : Account} {amount : Amount} {key : ConsensusKey}
  {link : String}

theorem answer_hasDeposit (hs : s.Holds b) (owner : Account) :
    (hasDeposit owner).answer s = .ok (!(b.deposit owner).isZero) := by
  unfold hasDeposit
  rw [Query.answer_bind, hs.answer_isRegistered owner]
  cases hv : b.validators.get? owner with
  | none =>
    rw [Book.deposit, hv]
    rfl
  | some v =>
    show ((Query.validator owner >>= fun v => pure !v.deposit.isZero).answer s) = _
    rw [Query.answer_bind, hs.answer_validator owner, hv, Book.deposit_of_get? hv]
    rfl

/-- The answer of an operation is dropped from what a message comes to. -/
theorem answer_dropped {α : Type} (plan : Query (α × Draft)) :
    (plan >>= fun found => pure ((), found.2) : Query (Unit × Draft)).answer s =
      (plan.answer s).map fun found => ((), found.2) := by
  rw [Query.answer_bind]
  cases plan.answer s <;> rfl

/-- A deposit message asks for a larger deposit of a member, and for a registration of anybody
else. -/
theorem answer_plan_deposit (hs : s.Holds b) (hfunded : b.Funded) (source : ParameterSource)
    (height : Height) (hcheck : (deposit username amount key link).check = .ok ()) :
    ((deposit username amount key link).plan source height).answer s =
      if username ∈ b.roster.pool then
        ((Plan.increaseDeposit source height username amount).answer s).map
          fun found => ((), found.2)
      else
        ((Plan.register source height username key amount link).answer s).map
          fun found => ((), found.2) := by
  rw [plan, hcheck]
  show (hasDeposit username >>= _).answer s = _
  rw [Query.answer_bind, answer_hasDeposit hs, ← answer_dropped, ← answer_dropped]
  split
  · rename_i hmember
    have hsome : (b.deposit username).isZero = false :=
      Bool.eq_false_iff.2 fun hz => hfunded.mem_pool_iff.1 hmember (Amount.isZero_iff.1 hz)
    rw [hsome]
    rfl
  · rename_i hout
    rw [hfunded.outsider username hout]
    rfl

end Message

/-! ### No answer for the other operation -/

/-- What an operation answers to one who should have asked for the other: there is no deposit to add
to, or there is one already. -/
def RegistryError.IsMisrouting : RegistryError → Prop
  | .notFound _ | .alreadyRegistered _ => True
  | _ => False

namespace Desk

variable {w : Desk} {p : Parameters} {height : Height} {owner : Account} {amount : Amount}
  {key : ConsensusKey} {link : String} {e : RegistryError}

theorem not_isMisrouting_of_increaseDeposit (hfunded : w.book.Funded)
    (hmember : owner ∈ w.book.roster.pool) (h : w.increaseDeposit p owner amount = .error e) :
    ¬ e.IsMisrouting := by
  obtain ⟨v, hv, -⟩ := Book.exists_of_power_ne_zero (hfunded.member owner hmember)
  simp only [increaseDeposit, hmember, hv, not_true_eq_false, ↓reduceIte] at h
  cases hadd : v.deposit.add? amount with
  | none =>
    rw [hadd] at h
    cases h
    exact id
  | some deposit =>
    rw [hadd] at h
    cases h

theorem not_isMisrouting_of_applicant (hzero : w.book.deposit owner = .zero)
    (h : w.applicant height owner key amount link = .error e) : ¬ e.IsMisrouting := by
  unfold applicant at h
  cases hv : w.book.validators.get? owner with
  | none =>
    rw [hv] at h
    cases h
  | some v =>
    rw [Book.deposit_of_get? hv] at hzero
    simp only [hv, Amount.isZero_iff.2 hzero, Bool.not_true, Bool.false_eq_true, ↓reduceIte] at h
    split at h
    · cases h
      exact id
    · cases h

theorem not_isMisrouting_of_claimKey (h : w.claimKey key owner = .error e) :
    ¬ e.IsMisrouting := by
  unfold claimKey at h
  split at h
  · cases h
  · split at h
    · cases h
      exact id
    · cases h

theorem not_isMisrouting_of_register (hfunded : w.book.Funded)
    (hout : owner ∉ w.book.roster.pool) (h : w.register p height owner key amount link = .error e) :
    ¬ e.IsMisrouting := by
  unfold register at h
  split at h
  · rename_i happ
    cases h
    exact not_isMisrouting_of_applicant (hfunded.outsider owner hout) happ
  · split at h
    · cases h
      exact id
    · split at h
      · rename_i hclaim
        cases h
        exact not_isMisrouting_of_claimKey hclaim
      · cases h

end Desk

namespace Registry

variable {reg : Registry} {b : Book} {source : ParameterSource} {ledger : LedgerFaults}
  {height : Height} {owner : Account} {amount : Amount} {key : ConsensusKey} {link : String}
  {e : RegistryError}

/-- Where reads and writes work, only a refusal on the desk tells an owner to do otherwise. -/
theorem not_isMisrouting_of_call (hb : reg.store.Holds b) {c : Call}
    (heffect : ∀ e, c.effect source ⟨b, []⟩ = .error e → ¬ e.IsMisrouting)
    (h : (reg.call source { ledger } c).1 = .error e) : ¬ e.IsMisrouting := by
  cases fails_of_error hb h with
  | refused hrefused => exact heffect e hrefused
  | unpaid | tooLong => exact id

theorem not_isMisrouting_of_increaseDeposit (hb : reg.store.Holds b) (hfunded : b.Funded)
    (hmember : owner ∈ b.roster.pool)
    (h : (reg.call source { ledger } (.increaseDeposit height owner amount)).1 = .error e) :
    ¬ e.IsMisrouting := by
  refine not_isMisrouting_of_call hb (fun e he => ?_) h
  rcases ParameterSource.whenInForce_eq_error he with ⟨_, -, rfl⟩ | ⟨p, -, hrefused⟩
  · exact id
  · split at hrefused
    · cases hrefused
      exact id
    · exact Desk.not_isMisrouting_of_increaseDeposit hfunded hmember hrefused

theorem not_isMisrouting_of_register (hb : reg.store.Holds b) (hfunded : b.Funded)
    (hout : owner ∉ b.roster.pool)
    (h : (reg.call source { ledger } (.register height owner key amount link)).1 = .error e) :
    ¬ e.IsMisrouting := by
  refine not_isMisrouting_of_call hb (fun e he => ?_) h
  rcases ParameterSource.whenInForce_eq_error he with ⟨_, -, rfl⟩ | ⟨p, -, hrefused⟩
  · exact id
  · exact Desk.not_isMisrouting_of_register hfunded hout hrefused

end Registry

/-- A receipt for such an answer stands for such an answer: of the errors that share its code, each
begins its text in its own way. -/
theorem Receipt.isMisrouting_of_failure {outcome : Except RegistryError Unit} {e : RegistryError}
    (he : e.IsMisrouting) (h : ofOutcome outcome = failure e) :
    ∃ f, outcome = .error f ∧ f.IsMisrouting := by
  cases outcome with
  | ok u =>
    have hcode : 0 = e.code := congrArg Receipt.code h
    have hpos := e.code_pos
    omega
  | error f =>
    refine ⟨f, rfl, ?_⟩
    have hcode : f.code = e.code := congrArg Receipt.code h
    have htext : f.text = e.text := congrArg Receipt.log h
    cases e with
    | notFound owner =>
      cases f with
      | notFound => trivial
      | _ => simp [RegistryError.code] at hcode
    | alreadyRegistered owner =>
      cases f with
      | alreadyRegistered => trivial
      | keyTaken key holder =>
        have hfirst : ("Consensus key " ++ key.display ++ " already bound to " ++
            holder.name).toList.head? =
              ("Validator already registered: " ++ owner.name).toList.head? :=
          congrArg (fun text : String => text.toList.head?) htext
        simp at hfirst
      | keyFixed holder =>
        have hfirst : ("Consensus key of " ++ holder.name ++ " cannot change").toList.head? =
            ("Validator already registered: " ++ owner.name).toList.head? :=
          congrArg (fun text : String => text.toList.head?) htext
        simp at hfirst
      | _ => simp [RegistryError.code] at hcode
    | _ => exact he.elim

theorem Receipt.ne_failure {α : Type} {outcome : Except RegistryError α} {e : RegistryError}
    (he : e.IsMisrouting) (h : ∀ f, outcome = .error f → ¬ f.IsMisrouting) :
    ofOutcome (outcome.map fun _ => ()) ≠ failure e := by
  intro hreceipt
  obtain ⟨f, hf, hmisrouting⟩ := isMisrouting_of_failure he hreceipt
  cases outcome with
  | ok a => cases hf
  | error =>
    cases hf
    exact h f rfl hmisrouting

/-- After every run, on a store that works, a deposit message that passes its checks comes to a
larger deposit if its sender is in the pool, and to a registration if not: to the same registry, and
to the receipt of the same outcome. It never answers that there is no deposit to add to, or that
there is one already. -/
theorem Run.deposit_message_routed (l : Ledger) (steps : List Step) (source : ParameterSource)
    (ledger : LedgerFaults) (height : Height) (username : Account) (amount : Amount)
    (key : ConsensusKey) (link : String)
    (hcheck : (Message.deposit username amount key link).check = .ok ()) :
    let reg := (of l steps).registry
    let delivered := reg.deliver source { ledger } height (.deposit username amount key link)
    let raised := reg.call source { ledger } (.increaseDeposit height username amount)
    let registered := reg.call source { ledger } (.register height username key amount link)
    ∃ r, Query.roster.answer reg.store = .ok r ∧
      (username ∈ r.pool →
        delivered = (.ofOutcome (raised.1.map fun _ => ()), raised.2)) ∧
      (username ∉ r.pool →
        delivered = (.ofOutcome (registered.1.map fun _ => ()), registered.2)) ∧
      ∀ a, delivered.1 ≠ .failure (.notFound a) ∧ delivered.1 ≠ .failure (.alreadyRegistered a) := by
  intro reg delivered raised registered
  obtain ⟨b, hb, hfunded⟩ := holds_funded l steps
  have hanswer := Message.answer_plan_deposit hb hfunded source height hcheck
  have hmember (h : username ∈ b.roster.pool) :
      delivered = (.ofOutcome (raised.1.map fun _ => ()), raised.2) :=
    Registry.deliver_eq (hanswer.trans (if_pos h))
  have hout (h : username ∉ b.roster.pool) :
      delivered = (.ofOutcome (registered.1.map fun _ => ()), registered.2) :=
    Registry.deliver_eq (hanswer.trans (if_neg h))
  have hrouted (e : RegistryError) (he : e.IsMisrouting) : delivered.1 ≠ .failure e := by
    by_cases h : username ∈ b.roster.pool
    · rw [hmember h]
      exact Receipt.ne_failure he fun _ =>
        Registry.not_isMisrouting_of_increaseDeposit hb hfunded h
    · rw [hout h]
      exact Receipt.ne_failure he fun _ => Registry.not_isMisrouting_of_register hb hfunded h
  exact ⟨b.roster, hb.answer_roster, hmember, hout, fun a =>
    ⟨hrouted (.notFound a) trivial, hrouted (.alreadyRegistered a) trivial⟩⟩

/-- A member whose deposit was cut adds to it by the same message that another account registers
with. -/
theorem Run.deposit_message_routed_for_both :
    let source : ParameterSource := .always .standard
    let l : Ledger := .funded (.ofCoins 3000) ["alice", "bob"]
    let key : ConsensusKey := .ofByte 0
    let other : ConsensusKey := .ofByte 1
    let steps : List Step := [.enroll source 1 "alice" 0 2000,
      ⟨source, {}, .punish 2 ⟨"alice"⟩ (.ofCoins 1500) .ifPowerless⟩]
    let reg := (of l steps).registry
    (Message.deposit ⟨"alice"⟩ (.ofCoins 500) key "").check = .ok () ∧
      (Message.deposit ⟨"bob"⟩ (.ofCoins 1000) other "").check = .ok () ∧
      reg.deliver source {} 3 (.deposit ⟨"alice"⟩ (.ofCoins 500) key "") =
        (.ofOutcome ((reg.call source {} (.increaseDeposit 3 ⟨"alice"⟩ (.ofCoins 500))).1.map
            fun _ => ()),
          (reg.call source {} (.increaseDeposit 3 ⟨"alice"⟩ (.ofCoins 500))).2) ∧
      reg.deliver source {} 3 (.deposit ⟨"bob"⟩ (.ofCoins 1000) other "") =
        (.ofOutcome ((reg.call source {} (.register 3 ⟨"bob"⟩ other (.ofCoins 1000) "")).1.map
            fun _ => ()),
          (reg.call source {} (.register 3 ⟨"bob"⟩ other (.ofCoins 1000) "")).2) := by
  intro source l key other steps reg
  have hcheck : (Message.deposit ⟨"alice"⟩ (.ofCoins 500) key "").check = .ok () := by
    decide +kernel
  have hcheck' : (Message.deposit ⟨"bob"⟩ (.ofCoins 1000) other "").check = .ok () := by
    decide +kernel
  have hpool : (Query.roster.answer reg.store).map (·.pool) = .ok [⟨"alice"⟩] := by decide +kernel
  obtain ⟨r, hr, hraised, -, -⟩ :=
    deposit_message_routed l steps source {} 3 ⟨"alice"⟩ (.ofCoins 500) key "" hcheck
  obtain ⟨r', hr', -, hregistered, -⟩ :=
    deposit_message_routed l steps source {} 3 ⟨"bob"⟩ (.ofCoins 1000) other "" hcheck'
  rw [hr] at hpool
  have hpool : r.pool = [⟨"alice"⟩] := Except.ok.inj hpool
  obtain rfl : r = r' := Except.ok.inj (hr.symm.trans hr')
  exact ⟨hcheck, hcheck', hraised (by simp [hpool]), hregistered (by simp [hpool])⟩

end StakedCommittee
