import StakedCommittee.Proofs.Draft.Reading
import StakedCommittee.Proofs.Registry.Solvency

/-! The dry run of a withdrawal agrees with the withdrawal. Both look up the same things in the same
order, so they meet the same failures up to the point where the withdrawal is judged. What follows an
allowed withdrawal can fail for the ledger, the store or what is stored, but no rule refuses it any
more; after a run whose coins fit the ledger nothing is left to fail. -/

namespace StakedCommittee

/-- A failure of the ledger or of the store, or of data that is read or to be stored. -/
def RegistryError.IsOutside : RegistryError → Prop
  | .ledger _ | .store _ | .data _ => True
  | _ => False

theorem RegistryError.IsOutside.not_isRefusal {e : RegistryError} (h : e.IsOutside) :
    ¬ e.IsRefusal := by
  cases e with
  | ledger | store | data => exact id
  | _ => exact h.elim

/-- The refusal of a withdrawal for what it asks. -/
def RegistryError.IsWithdrawalRefusal : RegistryError → Prop
  | .withdrawalRefused .. => True
  | _ => False

namespace Plan

/-- What is looked up before a withdrawal is judged. -/
def withdrawalTerms (source : ParameterSource) (height : Height) (owner : Account) :
    Query (Parameters × Roster × Validator) := do
  let p ← parameters source height
  let r ← Query.roster
  let v ← Query.validator owner
  return (p, r, v)

theorem failsWith_parameters {P : RegistryError → Prop} (h : ∀ fault, P (.parameters fault))
    (source : ParameterSource) (height : Height) : (parameters source height).FailsWith P := by
  unfold parameters
  cases source.inForce height with
  | ok p => trivial
  | error fault => exact h fault

/-- No withdrawal is refused before it is judged. -/
theorem failsWith_withdrawalTerms (source : ParameterSource) (height : Height) (owner : Account) :
    (withdrawalTerms source height owner).FailsWith fun e => ¬ e.IsWithdrawalRefusal := by
  refine (failsWith_parameters (fun _ => id) source height).bind fun p => ?_
  refine (Query.failsWith_roster (fun _ => id) id).bind fun r => ?_
  exact (Query.failsWith_validator (fun _ => id) id).bind fun v => trivial

end Plan

/-! ### Both begin alike -/

namespace Staging

/-- What is staged of a withdrawal once it is allowed. -/
def payOut (p : Parameters) (owner : Account) (amount : Amount) (v : Validator)
    (remaining : Amount) : Staging Amount := do
  modify (·.put owner { v with deposit := remaining })
  if remaining.isZero then dismissMember p owner
  modify (·.transfer (.credit owner amount))
  return remaining

/-- What is not in the draft is looked up in the store. -/
theorem run_reopen {d : Draft} {owner : Account} (h : d.loaded.get? owner = none) :
    (reopen owner).run d =
      Query.validator owner >>= fun v => pure (v, (d.remember owner v).put owner v) := by
  unfold reopen reopen? validator? Query.validator
  simp only [StateT.run_bind, StateT.run_get, pure_bind, bind_assoc, h]
  show (((·, d) <$> Query.validator? owner) >>= _) = _
  rw [map_eq_pure_bind, bind_assoc]
  refine congrArg _ (funext fun found => ?_)
  cases found <;> rfl

variable {P : RegistryError → Prop}

theorem failsWith_dismissMember (hdata : ∀ fault, P (.data fault)) (p : Parameters)
    (owner : Account) : (dismissMember p owner).FailsWith P := by
  have hdismiss : (dismiss p owner).FailsWith P :=
    failsWith_get.bind fun d => (failsWith_powers hdata _).bind fun table =>
      failsWith_get.bind fun d => (failsWith_modify _).bind fun _ => failsWith_pure _
  refine failsWith_get.bind fun d => ?_
  split
  · exact hdismiss.bind fun _ => failsWith_pure _
  · exact failsWith_pure _

/-- No rule refuses what an allowed withdrawal stages. -/
theorem failsWith_payOut (hdata : ∀ fault, P (.data fault)) (p : Parameters) (owner : Account)
    (amount : Amount) (v : Validator) (remaining : Amount) :
    (payOut p owner amount v remaining).FailsWith P := by
  have hcredit : (do
      modify (·.transfer (.credit owner amount))
      return remaining : Staging Amount).FailsWith P :=
    (failsWith_modify _).bind fun _ => failsWith_pure _
  refine (failsWith_modify _).bind fun _ => ?_
  split
  · exact (failsWith_dismissMember hdata p owner).bind fun _ => hcredit
  · exact hcredit

end Staging

section
variable (source : ParameterSource) (height : Height) (owner : Account) (amount : Amount)

theorem Query.allowsWithdrawal_eq :
    allowsWithdrawal source height owner amount =
      Plan.withdrawalTerms source height owner >>= fun (p, r, v) =>
        match p.withdraw (decide (owner ∈ r.seated)) v.deposit amount with
        | .ok _ => pure true
        | .error _ => pure false := by
  symm
  refine (LawfulMonad.bind_assoc ..).trans (congrArg _ (funext fun p => ?_))
  refine (LawfulMonad.bind_assoc ..).trans (congrArg _ (funext fun r => ?_))
  exact (LawfulMonad.bind_assoc ..).trans (congrArg _ (funext fun v => rfl))

theorem Plan.withdraw_eq :
    withdraw source height owner amount =
      withdrawalTerms source height owner >>= fun (p, r, v) =>
        match p.withdraw (decide (owner ∈ r.seated)) v.deposit amount with
        | .error refusal => .fail (.withdrawalRefused owner amount refusal)
        | .ok remaining =>
          (Staging.payOut p owner amount v remaining).run
            (((Draft.ofStored r).remember owner v).put owner v) := by
  unfold withdraw withdrawalTerms ofStaging Staging.withdraw
  simp only [bind_assoc, pure_bind]
  refine congrArg _ (funext fun p => congrArg _ (funext fun r => ?_))
  -- A draft over the stored roster has read no validator yet.
  rw [StateT.run_bind, StateT.run_get, pure_bind, StateT.run_bind, Staging.run_reopen rfl,
    bind_assoc]
  refine congrArg _ (funext fun v => ?_)
  rw [pure_bind, show decide (owner ∈ (Draft.ofStored r).roster.seated) =
    decide (owner ∈ r.seated) from rfl]
  cases p.withdraw (decide (owner ∈ r.seated)) v.deposit amount <;> rfl

end

/-! ### How both end -/

theorem Draft.isOutside_of_commit {d : Draft} {fault : Option StoreFault} {s : Store}
    {e : RegistryError} (h : d.commit fault s = .error e) : e.IsOutside := by
  unfold commit at h
  split at h
  · cases h
    trivial
  · split at h
    · cases h
    · cases fault with
      | none => cases h
      | some fault =>
        cases h
        trivial

namespace Registry

variable {reg : Registry} {faults : Faults}

/-- Carrying a draft out adds no failures but those from outside. -/
theorem isOutside_of_perform {α : Type} {plan : Query (α × Draft)}
    (hplan : ∀ e, plan.run faults.read reg.store = .error e → e.IsOutside) {e : RegistryError}
    (h : (reg.perform faults plan).1 = .error e) : e.IsOutside := by
  have hcase := reg.perform_case faults plan
  generalize reg.perform faults plan = result at h hcase
  cases hcase with
  | refused hrun =>
    cases h
    exact hplan _ hrun
  | unpaid =>
    cases h
    trivial
  | unstored _ hcommit =>
    cases h
    exact Draft.isOutside_of_commit hcommit
  | done => cases h

/-- What a dry run and the withdrawal come to. -/
inductive DryRunCase (owner : Account) (amount : Amount) :
    Except RegistryError Bool → Except RegistryError Amount → Prop
  /-- Both fail before the withdrawal is judged. -/
  | barred {e : RegistryError} (h : ¬ e.IsWithdrawalRefusal) :
      DryRunCase owner amount (.error e) (.error e)
  | refused (refusal : WithdrawalRefusal) :
      DryRunCase owner amount (.ok false) (.error (.withdrawalRefused owner amount refusal))
  | allowed {made : Except RegistryError Amount} (h : ∀ e, made = .error e → e.IsOutside) :
      DryRunCase owner amount (.ok true) made

namespace DryRunCase

variable {owner : Account} {amount : Amount} {dry : Except RegistryError Bool}
  {made : Except RegistryError Amount}

theorem agrees (h : DryRunCase owner amount dry made) :
    (dry = .ok false ↔ ∃ o a refusal, made = .error (.withdrawalRefused o a refusal)) ∧
      (∀ e, dry = .error e → made = .error e) ∧
      (dry = .ok true → ∀ e, made = .error e → e.IsOutside) := by
  cases h with
  | barred hother =>
    refine ⟨⟨nofun, ?_⟩, ?_, nofun⟩
    · rintro ⟨o, a, refusal, h⟩
      cases h
      exact absurd trivial hother
    · intro e h
      cases h
      rfl
  | refused refusal => exact ⟨⟨fun _ => ⟨_, _, refusal, rfl⟩, fun _ => rfl⟩, nofun, nofun⟩
  | allowed houtside =>
    refine ⟨⟨nofun, ?_⟩, nofun, fun _ => houtside⟩
    rintro ⟨o, a, refusal, h⟩
    exact (houtside _ h).elim

theorem eq_true_of_made {remaining : Amount} (h : DryRunCase owner amount dry (.ok remaining)) :
    dry = .ok true := by
  cases h
  rfl

end DryRunCase

theorem dryRun_case (reg : Registry) (source : ParameterSource) (faults : Faults)
    (height : Height) (owner : Account) (amount : Amount) :
    DryRunCase owner amount (reg.ask faults (Query.allowsWithdrawal source height owner amount))
      (reg.call source faults (.withdraw height owner amount)).1 := by
  have hterms := Plan.failsWith_withdrawalTerms source height owner
  show DryRunCase owner amount
    ((Query.allowsWithdrawal source height owner amount).run faults.read reg.store)
    (reg.perform faults (Plan.withdraw source height owner amount)).1
  rw [Query.allowsWithdrawal_eq, Plan.withdraw_eq]
  rcases Query.run_bind_cases faults.read reg.store (Plan.withdrawalTerms source height owner) with
    ⟨e, hfails, hrun⟩ | ⟨⟨p, r, v⟩, rest, -, hrun⟩
  · rw [perform, hrun, hrun]
    exact .barred (hterms.of_run (fun _ => id) hfails)
  · rw [hrun]
    dsimp only
    cases hjudged : p.withdraw (decide (owner ∈ r.seated)) v.deposit amount with
    | error refusal =>
      rw [perform, hrun]
      dsimp only
      rw [hjudged]
      exact .refused refusal
    | ok remaining =>
      refine .allowed fun e h => isOutside_of_perform (fun e h => ?_) h
      rw [hrun] at h
      dsimp only at h
      rw [hjudged] at h
      have hpay := Staging.failsWith_payOut (P := RegistryError.IsOutside) (fun _ => trivial)
        p owner amount v remaining
      exact (hpay _).of_run (fun _ => trivial) h

/-- Where an allowed withdrawal has room on the ledger, it is made. -/
theorem Solvent.withdraw_of_allowed {b : Book} (h : reg.Solvent b) {source : ParameterSource}
    {height : Height} {owner : Account} {amount : Amount}
    (hdry : reg.ask {} (Query.allowsWithdrawal source height owner amount) = .ok true) :
    ∃ remaining, (reg.call source {} (.withdraw height owner amount)).1 = .ok remaining := by
  obtain ⟨-, -, hallowed⟩ := (reg.dryRun_case source {} height owner amount).agrees
  cases houtcome : (reg.call source {} (.withdraw height owner amount)).1 with
  | ok remaining => exact ⟨remaining, rfl⟩
  | error e =>
    -- On a desk only rules refuse, and they have let the withdrawal pass.
    have hc : (Call.withdraw height owner amount).PaysOut := trivial
    have hrule := Call.isRefusal_of_effect (h.refused_of_error hc houtcome)
    exact absurd hrule (hallowed hdry e houtcome).not_isRefusal

end Registry

/-- A dry run says no exactly if the withdrawal is refused for what it asks; where it fails, the
withdrawal fails alike; where it says yes, the withdrawal fails only for the ledger, the store or
what is stored. After a run on a ledger whose coins came to no more than the greatest amount, on a
store that works, it says yes exactly if the withdrawal is made. -/
theorem Run.withdrawal_dry_run_agrees (source : ParameterSource) (height : Height)
    (owner : Account) (amount : Amount) :
    (∀ (reg : Registry) (faults : Faults),
      let dry := reg.ask faults (Query.allowsWithdrawal source height owner amount)
      let made := (reg.call source faults (.withdraw height owner amount)).1
      (dry = .ok false ↔ ∃ o a refusal, made = .error (.withdrawalRefused o a refusal)) ∧
      (∀ e, dry = .error e → made = .error e) ∧
      (dry = .ok true → ∀ e, made = .error e → e.IsOutside)) ∧
    ∀ (l : Ledger) (steps : List Step), l.total ≤ Amount.greatest.units →
      (∀ s ∈ steps, s.faults.ledger = {}) →
      let reg := (of l steps).registry
      (reg.ask {} (Query.allowsWithdrawal source height owner amount) = .ok true ↔
        ∃ remaining, (reg.call source {} (.withdraw height owner amount)).1 = .ok remaining) := by
  refine ⟨fun reg faults => (reg.dryRun_case ..).agrees, ?_⟩
  intro l steps hsupply hledger reg
  obtain ⟨b, hb⟩ := holds_solvent l steps hsupply hledger
  refine ⟨hb.withdraw_of_allowed, ?_⟩
  rintro ⟨remaining, hmade⟩
  have hcase := reg.dryRun_case source {} height owner amount
  rw [hmade] at hcase
  exact hcase.eq_true_of_made

/-- The seat is taken, so the second to register waits. It may take some of its deposit back; the
first may not. -/
theorem Run.withdrawal_dry_run_agrees_with_one_seat :
    let source : ParameterSource := .always { Parameters.standard with seats := 1 }
    let l : Ledger := .funded (.ofCoins 3000) ["alice", "bob"]
    let steps : List Step :=
      [.enroll source 1 "alice" 0 2000, .enroll source 1 "bob" 1 1500]
    let reg := (of l steps).registry
    l.total ≤ Amount.greatest.units ∧ (∀ s ∈ steps, s.faults.ledger = {}) ∧
      (∃ remaining,
        (reg.call source {} (.withdraw 2 ⟨"bob"⟩ (.ofCoins 500))).1 = .ok remaining) ∧
      ∃ o a refusal, (reg.call source {} (.withdraw 2 ⟨"alice"⟩ (.ofCoins 500))).1 =
        .error (.withdrawalRefused o a refusal) := by
  intro source l steps reg
  have hsupply : l.total ≤ Amount.greatest.units := by decide +kernel
  have hledger : ∀ s ∈ steps, s.faults.ledger = {} := by simp [steps, Step.enroll]
  have hyes : reg.ask {} (Query.allowsWithdrawal source 2 ⟨"bob"⟩ (.ofCoins 500)) = .ok true := by
    decide +kernel
  have hno : reg.ask {} (Query.allowsWithdrawal source 2 ⟨"alice"⟩ (.ofCoins 500)) =
      .ok false := by
    decide +kernel
  obtain ⟨-, hafter⟩ := withdrawal_dry_run_agrees source 2 ⟨"bob"⟩ (.ofCoins 500)
  obtain ⟨hany, -⟩ := withdrawal_dry_run_agrees source 2 ⟨"alice"⟩ (.ofCoins 500)
  exact ⟨hsupply, hledger, (hafter l steps hsupply hledger).1 hyes, (hany reg {}).1.1 hno⟩

end StakedCommittee
