import StakedCommittee.Registry.Call
import StakedCommittee.Proofs.Draft.Commit
import StakedCommittee.Proofs.Registry.Discipline
import StakedCommittee.Proofs.Registry.Report
import StakedCommittee.Proofs.Registry.Settlement

/-! Calls on a registry whose store holds a book. Such a call fails and leaves the store as it was,
or it has the effect that the operation has on a desk: the store then holds the book of that desk,
and the coins of the desk have moved. -/

namespace StakedCommittee

/-- Goes on with the parameters in force at a height. -/
def ParameterSource.whenInForce {β : Type} (source : ParameterSource) (height : Height)
    (f : Parameters → Except RegistryError β) : Except RegistryError β :=
  match source.inForce height with
  | .ok p => f p
  | .error fault => .error (.parameters fault)

/-- What a call comes to on a desk. -/
def Call.effect (source : ParameterSource) :
    (c : Call) → Desk → Except RegistryError (c.Answer × Desk)
  | .genesis, w => .ok (false, w)
  | .register height owner key deposit link, w =>
    source.whenInForce height fun p => w.register p height owner key deposit link
  | .increaseDeposit height owner amount, w =>
    source.whenInForce height fun p =>
      if amount.isZero then .error (.shortDeposit .oneUnit amount)
      else w.increaseDeposit p owner amount
  | .withdraw height owner amount, w =>
    source.whenInForce height fun p => w.withdraw p owner amount
  | .revoke height owner, w => source.whenInForce height fun p => w.revoke p owner
  | .punish height owner penalty removal, w =>
    source.whenInForce height fun p =>
      match w.book.validators.get? owner with
      | none => .error (.notFound owner)
      | some v => .ok (w.punish p v penalty removal)
  | .countFlags flags, w => .ok (w.countFlags flags)
  | .fire height evidence, w => source.whenInForce height fun p => .ok (w.fire p evidence)
  | .report, w => .ok w.report

open Staging

variable {α : Type} {s : Store} {b : Book}

theorem Plan.comesTo_ofStaging (hs : s.Holds b) {op : Staging α}
    {r : Except RegistryError (α × Desk)} (h : Yields s b op ⟨b, []⟩ r) :
    ComesTo b ((ofStaging op).answer s) r := by
  unfold ofStaging
  rw [Query.answer_bind, hs.answer_roster]
  exact h _ (.ofStored b)

theorem Plan.comesTo_whenInForce {source : ParameterSource} {height : Height}
    {plan : Parameters → Query (α × Draft)} {f : Parameters → Except RegistryError (α × Desk)}
    (h : ∀ p, ComesTo b ((plan p).answer s) (f p)) :
    ComesTo b ((parameters source height >>= plan).answer s) (source.whenInForce height f) := by
  unfold parameters ParameterSource.whenInForce
  rw [Query.answer_bind]
  cases source.inForce height with
  | error fault => rfl
  | ok p => exact h p

theorem Call.comesTo_effect (hs : s.Holds b) (source : ParameterSource) (c : Call) :
    ComesTo b ((c.plan source).answer s) (c.effect source ⟨b, []⟩) := by
  cases c with
  | genesis =>
    refine ⟨.ofStored b.roster, ?_, .ofStored b⟩
    show Plan.genesis.answer s = _
    rw [Plan.genesis, Query.answer_bind, hs.answer_roster?]
    rfl
  | register height owner key deposit link =>
    exact Plan.comesTo_whenInForce fun p =>
      Plan.comesTo_ofStaging hs (yields_register hs p height owner key deposit link _)
  | increaseDeposit height owner amount =>
    refine Plan.comesTo_whenInForce fun p => ?_
    split
    · rfl
    · exact Plan.comesTo_ofStaging hs (yields_increaseDeposit hs p owner amount _)
  | withdraw height owner amount =>
    exact Plan.comesTo_whenInForce fun p =>
      Plan.comesTo_ofStaging hs (yields_withdraw hs p owner amount _)
  | revoke height owner =>
    exact Plan.comesTo_whenInForce fun p =>
      Plan.comesTo_ofStaging hs (yields_revoke hs p owner _)
  | punish height owner penalty removal =>
    refine Plan.comesTo_whenInForce fun p => Plan.comesTo_ofStaging hs ?_
    dsimp only
    cases hv : b.validators.get? owner with
    | none => exact yields_punish_error hs p penalty removal hv
    | some v => exact yields_punish hs p penalty removal hv
  | countFlags flags => exact Plan.comesTo_ofStaging hs (yields_countFlags hs flags _)
  | fire height evidence =>
    exact Plan.comesTo_whenInForce fun p =>
      Plan.comesTo_ofStaging hs (yields_fire hs p evidence _)
  | report => exact Plan.comesTo_ofStaging hs (yields_report hs _)

namespace Registry

variable {reg : Registry} {source : ParameterSource} {faults : Faults} {c : Call}

/-- A successful call has its effect: on the store, and on the ledger. -/
structure Effects (reg : Registry) (faults : Faults) (b : Book) (w : Desk) (after : Registry) :
    Prop where
  holds : after.store.Holds (w.stored b)
  moved : (reg.ledger.moveAll faults.ledger [] w.transfers).failure = none
  ledger : after.ledger = (reg.ledger.moveAll faults.ledger [] w.transfers).ledger

theorem call_of_ok (hb : reg.store.Holds b) {a : c.Answer}
    (h : (reg.call source faults c).1 = .ok a) :
    ∃ w, c.effect source ⟨b, []⟩ = .ok (a, w) ∧
      reg.Effects faults b w (reg.call source faults c).2 := by
  obtain ⟨d, hanswer, hsettles⟩ := perform_of_ok h
  have hcomes := c.comesTo_effect hb source
  rw [hanswer] at hcomes
  obtain ⟨w, heffect, hshows⟩ := hcomes.of_ok
  refine ⟨w, heffect, hshows.holds_commit hb hsettles.commit, ?_, ?_⟩
  · rw [← hshows.transfers]
    exact hsettles.moved
  · rw [← hshows.transfers]
    exact hsettles.ledger

/-- Where reads and writes work, a call succeeds whose coins can be moved and whose book can be
written. -/
theorem call_of_effect (hb : reg.store.Holds b) {ledger : LedgerFaults} {a : c.Answer} {w : Desk}
    (h : c.effect source ⟨b, []⟩ = .ok (a, w)) (hfits : w.book.Fits)
    (hmoved : (reg.ledger.moveAll ledger [] w.transfers).failure = none) :
    (reg.call source { ledger } c).1 = .ok a := by
  obtain ⟨d, hanswer, hshows⟩ : ∃ d, (c.plan source).answer reg.store = .ok (a, d) ∧
      d.Shows b w := by
    have hcomes := c.comesTo_effect hb source
    rwa [h] at hcomes
  have hcase := reg.perform_case { ledger } (c.plan source)
  unfold call
  generalize reg.perform { ledger } (c.plan source) = result at hcase
  cases hcase with
  | refused run =>
    cases hanswer.symm.trans run
  | unpaid run moved =>
    obtain ⟨rfl, rfl⟩ := Prod.mk.inj (Except.ok.inj (hanswer.symm.trans run))
    rw [hshows.transfers, hmoved] at moved
    cases moved
  | unstored run commit =>
    obtain ⟨rfl, rfl⟩ := Prod.mk.inj (Except.ok.inj (hanswer.symm.trans run))
    exact absurd (hshows.fits hfits) (Draft.commit_eq_error commit).1
  | done run =>
    obtain ⟨rfl, rfl⟩ := Prod.mk.inj (Except.ok.inj (hanswer.symm.trans run))
    rfl

theorem call_of_error {e : RegistryError} (h : (reg.call source faults c).1 = .error e) :
    (reg.call source faults c).2.store = reg.store := store_of_error h

/-- After a call the store holds the same book, or the one that the effect of the call leaves. -/
theorem holds_call (hb : reg.store.Holds b) (source : ParameterSource) (faults : Faults)
    (c : Call) : ∃ after, (reg.call source faults c).2.store.Holds after ∧
      (after = b ∨ ∃ a w, c.effect source ⟨b, []⟩ = .ok (a, w) ∧ after = w.stored b) := by
  cases houtcome : (reg.call source faults c).1 with
  | error e =>
    rw [call_of_error houtcome]
    exact ⟨b, hb, .inl rfl⟩
  | ok a =>
    obtain ⟨w, heffect, heffects⟩ := call_of_ok hb houtcome
    exact ⟨w.stored b, heffects.holds, .inr ⟨a, w, heffect, rfl⟩⟩

/-- Why a call fails where reads and writes work: its operation is refused, its coins cannot be
moved, or what it would store is too long. -/
inductive Fails (reg : Registry) (b : Book) (source : ParameterSource) (ledger : LedgerFaults)
    (c : Call) : RegistryError → Prop
  | refused {e : RegistryError} (h : c.effect source ⟨b, []⟩ = .error e) :
      Fails reg b source ledger c e
  | unpaid {a : c.Answer} {w : Desk} {cause : LedgerError}
      (h : c.effect source ⟨b, []⟩ = .ok (a, w))
      (moved : (reg.ledger.moveAll ledger [] w.transfers).failure = some cause) :
      Fails reg b source ledger c (.ledger cause)
  | tooLong {a : c.Answer} {w : Desk} (h : c.effect source ⟨b, []⟩ = .ok (a, w))
      (fits : ¬ w.book.Fits) : Fails reg b source ledger c (.data .tooLong)

theorem fails_of_error (hb : reg.store.Holds b) {ledger : LedgerFaults} {e : RegistryError}
    (h : (reg.call source { ledger } c).1 = .error e) : reg.Fails b source ledger c e := by
  have hcomes := c.comesTo_effect hb source
  have hcase := reg.perform_case { ledger } (c.plan source)
  unfold call at h
  generalize reg.perform { ledger } (c.plan source) = result at h hcase
  cases hcase with
  | refused hrun =>
    obtain rfl := Except.error.inj h
    rw [show (c.plan source).answer reg.store = _ from hrun] at hcomes
    exact .refused hcomes.of_error
  | unpaid hrun hmoved =>
    obtain rfl := Except.error.inj h
    rw [show (c.plan source).answer reg.store = _ from hrun] at hcomes
    obtain ⟨w, heffect, hshows⟩ := hcomes.of_ok
    rw [hshows.transfers] at hmoved
    exact .unpaid heffect hmoved
  | unstored hrun hcommit =>
    obtain rfl := Except.error.inj h
    rw [show (c.plan source).answer reg.store = _ from hrun] at hcomes
    obtain ⟨w, heffect, hshows⟩ := hcomes.of_ok
    obtain ⟨hfits, rfl⟩ := Draft.commit_eq_error hcommit
    exact .tooLong heffect fun hbook => hfits (hshows.fits hbook)
  | done => cases h

end Registry

end StakedCommittee
