import StakedCommittee.Proofs.Registry.Counting
import StakedCommittee.Proofs.Registry.Funding

/-! The start of a block that fails. It makes two calls, and each is all or nothing, but the two are
not one: when firing fails, the flags that were counted stay counted, and a second attempt at the
same block counts them again. Nothing else can be left behind. Counting moves no coins and changes
only the counts of seated validators, and the failed firing changes nothing. -/

namespace StakedCommittee

theorem Desk.stored_eq_book {w : Desk} {b : Book} (h : w.book.roster = b.roster) :
    w.stored b = w.book := if_pos h

namespace Registry

variable {reg : Registry} {source : ParameterSource} {faults countingFaults firingFaults : Faults}
  {height : Height} {flags : List SigningFlag} {evidence : List Evidence} {b : Book}

/-- A successful count stores what it comes to on a desk, and moves no coins. -/
theorem settled_countFlags (hb : reg.store.Holds b) {report : SigningReport}
    (h : (reg.call source faults (.countFlags flags)).1 = .ok report) :
    report = (Desk.countFlags ⟨b, []⟩ flags).1 ∧
      (reg.call source faults (.countFlags flags)).2.ledger = reg.ledger ∧
      (reg.call source faults (.countFlags flags)).2.store.Holds
        (Desk.countFlags ⟨b, []⟩ flags).2.book := by
  obtain ⟨w, heffect, heffects⟩ := call_of_ok hb h
  have hcount : Desk.countFlags ⟨b, []⟩ flags = (report, w) := Except.ok.inj heffect
  have hcounted := Desk.counted_countFlags ⟨b, []⟩ flags
  have htransfers := Desk.transfers_countFlags ⟨b, []⟩ flags
  rw [hcount] at hcounted htransfers ⊢
  have hledger := heffects.ledger
  have hholds := heffects.holds
  rw [htransfers] at hledger
  rw [Desk.stored_eq_book hcounted.roster] at hholds
  exact ⟨rfl, hledger, hholds⟩

/-- A successful count moves no coins and changes only the counts of seated validators. -/
theorem counted_of_ok (hb : reg.store.Holds b) {report : SigningReport}
    (h : (reg.call source faults (.countFlags flags)).1 = .ok report) :
    (reg.call source faults (.countFlags flags)).2.ledger = reg.ledger ∧
      ∃ c, (reg.call source faults (.countFlags flags)).2.store.Holds c ∧ b.Counted c := by
  obtain ⟨-, hledger, hholds⟩ := settled_countFlags hb h
  exact ⟨hledger, _, hholds, Desk.counted_countFlags ⟨b, []⟩ flags⟩

/-- The start of a block fails because its count fails, or because firing then fails. -/
theorem beginBlock_of_error {e : RegistryError}
    (h : (reg.beginBlock source countingFaults firingFaults height flags evidence).1 = .error e) :
    let counted := reg.call source countingFaults (.countFlags flags)
    let fired := counted.2.call source firingFaults (.fire height evidence)
    let start := reg.beginBlock source countingFaults firingFaults height flags evidence
    counted.1 = .error e ∧ start.2 = counted.2 ∨
      ∃ signing, counted.1 = .ok signing ∧ fired.1 = .error e ∧ start.2 = fired.2 := by
  revert h
  unfold beginBlock
  rcases reg.call source countingFaults (.countFlags flags) with ⟨f | signing, counted⟩ <;> intro h
  · exact .inl ⟨congrArg _ (Except.error.inj h), rfl⟩
  · refine .inr ⟨signing, rfl, ?_, rfl⟩
    dsimp only at h ⊢
    cases hfired : (counted.call source firingFaults (.fire height evidence)).1 with
    | error f =>
      rw [hfired] at h
      exact congrArg _ (Except.error.inj h)
    | ok firing =>
      rw [hfired] at h
      cases h

end Registry

namespace Run

/-- A block start that fails moves no coins. If its count failed it stores nothing; if firing failed
it leaves what the count alone leaves, which differs only in the counts of seated validators. -/
theorem failed_block_start (l : Ledger) (steps : List Step) (source : ParameterSource)
    (countingFaults firingFaults : Faults) (height : Height) (flags : List SigningFlag)
    (evidence : List Evidence) (hcounting : countingFaults.ledger = {})
    (hfiring : firingFaults.ledger = {}) :
    let reg := (of l steps).registry
    let counted := reg.call source countingFaults (.countFlags flags)
    let start := reg.beginBlock source countingFaults firingFaults height flags evidence
    ∀ e, start.1 = .error e →
      (∀ a, start.2.ledger.balance a = reg.ledger.balance a) ∧
      (counted.1 = .error e ∧ start.2.store = reg.store ∨
        counted.1.isOk ∧
        (counted.2.call source firingFaults (.fire height evidence)).1 = .error e ∧
        start.2.store = counted.2.store ∧
        ∃ r, Query.roster.answer reg.store = .ok r ∧
          (∀ key, (∀ a ∈ r.seated, key ≠ Layout.validatorKey a) →
            start.2.store.get? key = reg.store.get? key) ∧
          ∀ a ∈ r.seated, ∃ v absences signatures,
            (Query.validator? a).answer reg.store = .ok (some v) ∧
            (Query.validator? a).answer start.2.store =
              .ok (some { v with absences, signatures })) := by
  intro reg counted start e h
  rcases Registry.beginBlock_of_error h with ⟨hcounted, hstart⟩ | ⟨signing, hcounted, hfired, hstart⟩
  · have hkeeps := Registry.keeps_of_error hcounting hcounted
    rw [show start.2 = _ from hstart]
    exact ⟨hkeeps.balance, .inl ⟨hcounted, hkeeps.store⟩⟩
  · obtain ⟨b, hb, hfunded⟩ := holds_funded l steps
    obtain ⟨hledger, c, hc, hchanges⟩ := Registry.counted_of_ok hb hcounted
    have hkeeps := Registry.keeps_of_error hfiring hfired
    have hstore : start.2.store = counted.2.store := by
      rw [show start.2 = _ from hstart]
      exact hkeeps.store
    refine ⟨fun a => ?_, .inr ⟨?_, hfired, hstore, b.roster, hb.answer_roster, ?_, ?_⟩⟩
    · rw [show start.2 = _ from hstart]
      exact (hkeeps.balance a).trans (by rw [hledger])
    · rw [show counted.1 = _ from hcounted]
      rfl
    · intro key hkey
      rw [hstore]
      exact hchanges.get?_eq hb hc hkey
    · intro a ha
      obtain ⟨v, hv, -⟩ := hfunded.exists_of_seated ha
      obtain ⟨absences, signatures, hafter⟩ := hchanges.exists_of_get? hv
      refine ⟨v, absences, signatures, by rw [hb.answer_validator? a, hv], ?_⟩
      rw [hstore, hc.answer_validator? a, hafter]

/-- An absence is counted, and a firing that cannot be stored takes its refund back. -/
theorem failed_block_start_after_refund :
    let source : ParameterSource := .always .standard
    let key : ConsensusKey := .ofByte 0
    let l : Ledger := .funded .greatest ["alice"]
    let steps : List Step := [.enroll source 1 "alice" 0 1000]
    let faults : Faults := { write := some .missing }
    let flags : List SigningFlag := [⟨key, false⟩]
    let evidence : List Evidence := [⟨key, 1, .duplicateVote⟩]
    ({} : Faults).ledger = {} ∧ faults.ledger = {} ∧
      ((of l steps).registry.beginBlock source {} faults 2 flags evidence).1 =
        .error (.store .missing) ∧
      (∀ a, ((of l steps).registry.beginBlock source {} faults 2 flags evidence).2.ledger.balance a =
        (of l steps).registry.ledger.balance a) ∧
      ((of l steps).registry.beginBlock source {} faults 2 flags evidence).2.store =
        ((of l steps).registry.call source {} (.countFlags flags)).2.store := by
  intro source key l steps faults flags evidence
  have hstart : ((of l steps).registry.beginBlock source {} faults 2 flags evidence).1 =
      .error (.store .missing) := by decide +kernel
  have hcounted : ((of l steps).registry.call source {} (.countFlags flags)).1 ≠
      .error (.store .missing) := by decide +kernel
  obtain ⟨hbalance, hstore⟩ :=
    failed_block_start l steps source {} faults 2 flags evidence rfl rfl _ hstart
  exact ⟨rfl, rfl, hstart, hbalance, (hstore.resolve_left fun h => hcounted h.1).2.2.1⟩

/-- No parameters are to be had at the second height: the absence is counted all the same, and
counted again at the next attempt. -/
theorem failed_block_start_counts_twice :
    let source : ParameterSource := fun height =>
      if height = 1 then .ok .standard else .error "pruned"
    let key : ConsensusKey := .ofByte 0
    let l : Ledger := .funded .greatest ["alice"]
    let reg := (of l [.enroll source 1 "alice" 0 1000]).registry
    let start := reg.beginBlock source {} {} 2 [⟨key, false⟩] []
    let again := start.2.beginBlock source {} {} 2 [⟨key, false⟩] []
    let absences (reg : Registry) :=
      ((Query.validator? ⟨"alice"⟩).answer reg.store).map (Option.map (·.absences))
    start.1 = .error (.parameters (.unavailable "pruned")) ∧ ¬ reg.Keeps start.2 ∧
      absences reg = .ok (some 0) ∧ absences start.2 = .ok (some 1) ∧
      absences again.2 = .ok (some 2) := by
  intro source key l reg start again absences
  have hbefore : absences reg = .ok (some 0) := by decide +kernel
  have hafter : absences start.2 = .ok (some 1) := by decide +kernel
  refine ⟨by decide +kernel, fun hkeeps => ?_, hbefore, hafter, by decide +kernel⟩
  simp only [absences] at hbefore hafter
  rw [hkeeps.store, hbefore] at hafter
  cases hafter

end Run

end StakedCommittee
