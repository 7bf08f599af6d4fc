import StakedCommittee.Proofs.Registry.Records

/-! What a call leaves alone. Nothing on record is ever taken off it: a validator stays with its
owner and its key, and a bound key with its owner. A call that names an account enters the validator
of that account and of no other, whoever gains or loses a seat by it, and moves no one else's
coins, also when it fails and the coins that it moved go back. -/

namespace StakedCommittee

namespace Call

/-- The account that a call is about. -/
def subject? : Call → Option Account
  | .register _ owner .. | .increaseDeposit _ owner _ | .withdraw _ owner _ | .revoke _ owner
  | .punish _ owner .. => some owner
  | .genesis | .countFlags _ | .fire .. | .report => none

def Counts : Call → Prop
  | .countFlags _ => True
  | _ => False

def Registers : Call → Prop
  | .register .. => True
  | _ => False

instance : DecidablePred Registers
  | .register .. => isTrue trivial
  | .genesis | .increaseDeposit .. | .withdraw .. | .revoke .. | .punish .. | .countFlags _
  | .fire .. | .report => isFalse id

/-- What a call keeps of a validator `v` on record when it makes `u` of it. -/
structure Keeps (c : Call) (v u : Validator) : Prop where
  key : u.key = v.key
  signatures : ¬ c.Counts → u.signatures = v.signatures
  absences : ¬ c.Counts → ¬ c.Registers → u.absences = v.absences
  link : ¬ c.Registers → u.link = v.link
  since : ¬ c.Registers → u.since = v.since

namespace Keeps

variable {c : Call} {t v u : Validator}

theorem refl (c : Call) (v : Validator) : c.Keeps v v :=
  ⟨rfl, fun _ => rfl, fun _ _ => rfl, fun _ => rfl, fun _ => rfl⟩

theorem trans (h : c.Keeps t v) (hnext : c.Keeps v u) : c.Keeps t u where
  key := hnext.key.trans h.key
  signatures hc := (hnext.signatures hc).trans (h.signatures hc)
  absences hc hr := (hnext.absences hc hr).trans (h.absences hc hr)
  link hc := (hnext.link hc).trans (h.link hc)
  since hc := (hnext.since hc).trans (h.since hc)

/-- Every call may change a deposit. -/
theorem deposit (c : Call) (v : Validator) (deposit : Amount) : c.Keeps v { v with deposit } :=
  ⟨rfl, fun _ => rfl, fun _ _ => rfl, fun _ => rfl, fun _ => rfl⟩

end Keeps

end Call

/-- Every validator on record in `b` is on record in `after`, as `R` allows. -/
def Book.Carries (R : Validator → Validator → Prop) (b after : Book) : Prop :=
  ∀ a v, b.validators.get? a = some v → ∃ u, after.validators.get? a = some u ∧ R v u

namespace Book.Carries

variable {c : Call} {b mid after : Book} {u v : Validator}

theorem of_same (h : after.validators = b.validators) : b.Carries c.Keeps after :=
  fun a v hv => ⟨v, by rw [h, hv], .refl c v⟩

theorem trans (h : b.Carries c.Keeps mid) (hnext : mid.Carries c.Keeps after) :
    b.Carries c.Keeps after := by
  intro a v hv
  obtain ⟨u, hu, hkeeps⟩ := h a v hv
  obtain ⟨t, ht, hkeeps'⟩ := hnext a u hu
  exact ⟨t, ht, hkeeps.trans hkeeps'⟩

theorem put (hold : ∀ v, b.validators.get? u.owner = some v → c.Keeps v u) :
    b.Carries c.Keeps (b.put u) := by
  intro a v hv
  rw [get?_put]
  split
  · subst_vars
    exact ⟨u, rfl, hold v hv⟩
  · exact ⟨v, hv, .refl c v⟩

end Book.Carries

namespace Desk

open Book

variable {w after : Desk} {p : Parameters} {owner : Account} {v : Validator}

/-- From `w` to `after` the validator `u` is entered, in the place of one that may become `u`, and
coins move only to or from its owner. -/
structure Enters (c : Call) (w : Desk) (u : Validator) (after : Desk) : Prop where
  old : ∀ v, w.book.validators.get? u.owner = some v → c.Keeps v u
  validators : after.book.validators = (w.book.put u).validators
  transfers : ∀ t ∈ after.transfers, t ∈ w.transfers ∨ t.account = u.owner

/-- A deposit on record may be replaced by another. -/
theorem enters_deposit (c : Call) (deposit : Amount)
    (hv : w.book.validators.get? v.owner = some v)
    (hvalidators : after.book.validators = (w.book.put { v with deposit }).validators)
    (htransfers : ∀ t ∈ after.transfers, t ∈ w.transfers ∨ t.account = v.owner) :
    ∃ u, u.owner = v.owner ∧ w.Enters c u after := by
  refine ⟨{ v with deposit }, rfl, fun t ht => ?_, hvalidators, htransfers⟩
  rw [show ({ v with deposit } : Validator).owner = v.owner from rfl, hv] at ht
  cases ht
  exact .deposit c v deposit

theorem mem_transfers_transfer {t last : Transfer} (ht : t ∈ (w.transfer last).transfers) :
    t ∈ w.transfers ∨ t.account = last.account := by
  refine (List.mem_append.1 ht).imp_right fun h => ?_
  rw [List.mem_singleton.1 h]

theorem enters_register {height : Height} {key : ConsensusKey} {deposit : Amount} {link : String}
    {answer : Seating} (h : w.register p height owner key deposit link = .ok (answer, after)) :
    ∃ u, u.owner = owner ∧ w.Enters (.register height owner key deposit link) u after := by
  obtain ⟨u, happ, -, -, -, rfl⟩ := register_eq_ok h
  have hcounts := counts_of_applicant happ
  obtain ⟨rfl, rfl, -, hold⟩ := applicant_eq_ok happ
  refine ⟨u, rfl, fun v hv => ⟨(hold v hv).1.symm, fun _ => ?_, fun _ hc => absurd trivial hc,
    fun hc => absurd trivial hc, fun hc => absurd trivial hc⟩, rfl,
    fun _ ht => mem_transfers_transfer ht⟩
  rw [hcounts.2, hv]
  rfl

variable (c : Call)

theorem enters_increaseDeposit {amount : Amount} {answer : Seating}
    (h : w.increaseDeposit p owner amount = .ok (answer, after)) :
    ∃ u, u.owner = owner ∧ w.Enters c u after := by
  obtain ⟨-, v, deposit, hv, -, -, rfl⟩ := increaseDeposit_eq_ok h
  obtain rfl := w.book.owner_eq hv
  exact enters_deposit c deposit hv rfl fun _ ht => mem_transfers_transfer ht

theorem enters_withdraw {amount answer : Amount}
    (h : w.withdraw p owner amount = .ok (answer, after)) :
    ∃ u, u.owner = owner ∧ w.Enters c u after := by
  obtain ⟨v, hv, -, rfl⟩ := withdraw_eq_ok h
  obtain rfl := w.book.owner_eq hv
  split
  · exact enters_deposit c answer hv (validators_dismissMember ..)
      fun _ ht => mem_transfers_transfer ht
  · exact enters_deposit c answer hv rfl fun _ ht => mem_transfers_transfer ht

theorem enters_revoke {answer : Amount} (h : w.revoke p owner = .ok (answer, after)) :
    ∃ u, u.owner = owner ∧ w.Enters c u after := by
  obtain ⟨v, hv, -, -, rfl⟩ := revoke_eq_ok h
  obtain rfl := w.book.owner_eq hv
  exact enters_deposit c .zero hv (validators_dismissMember ..)
    fun _ ht => mem_transfers_transfer ht

theorem enters_punish (w : Desk) (p : Parameters) (penalty : Amount) (removal : Removal)
    (hv : w.book.validators.get? v.owner = some v) :
    ∃ u, u.owner = v.owner ∧ w.Enters c u (w.punish p v penalty removal).2 := by
  unfold punish
  dsimp only
  split
  · refine enters_deposit c .zero hv ?_ fun t ht => ?_
    · rw [book_expel]
      rfl
    · change t ∈ ((w.put _).refund v.owner (v.slash penalty).deposit).transfers at ht
      unfold refund at ht
      split at ht
      · exact .inl ht
      · exact mem_transfers_transfer ht
  · split
    · exact enters_deposit c (v.slash penalty).deposit hv rfl fun _ ht => .inl ht
    · exact enters_deposit c (v.slash penalty).deposit hv rfl fun _ ht => .inl ht

theorem Enters.carries {u : Validator} (h : w.Enters c u after) :
    w.book.Carries c.Keeps after.book :=
  (Carries.put h.old).trans (.of_same h.validators)

end Desk

/-- A call about an account enters a validator of that account. -/
theorem Call.enters_effect {source : ParameterSource} {c : Call} {b : Book} {a : c.Answer}
    {w : Desk} {owner : Account} (hc : c.subject? = some owner)
    (h : c.effect source ⟨b, []⟩ = .ok (a, w)) :
    ∃ u, u.owner = owner ∧ Desk.Enters c ⟨b, []⟩ u w := by
  obtain ⟨p, hp⟩ := exists_goesBy h
  cases acts_of_effect hp h with
  | register h =>
    cases hc
    exact Desk.enters_register h
  | increaseDeposit _ h =>
    cases hc
    exact Desk.enters_increaseDeposit _ h
  | withdraw h =>
    cases hc
    exact Desk.enters_withdraw _ h
  | revoke h =>
    cases hc
    exact Desk.enters_revoke _ h
  | punish found =>
    cases hc
    exact Desk.enters_punish _ ⟨b, []⟩ p _ _ found
  | genesis | countFlags | fire | report => cases hc

theorem Call.carries_effect {source : ParameterSource} {c : Call} {b : Book} {a : c.Answer}
    {w : Desk} (h : c.effect source ⟨b, []⟩ = .ok (a, w)) : b.Carries c.Keeps w.book := by
  cases hc : c.subject? with
  | some owner =>
    obtain ⟨u, -, henters⟩ := enters_effect hc h
    exact henters.carries
  | none =>
    obtain ⟨p, hp⟩ := exists_goesBy h
    cases acts_of_effect hp h with
    | genesis => exact .of_same rfl
    | countFlags =>
      refine Desk.countFlags_induction (P := fun after => b.Carries (Keeps _) after.book)
        (.of_same rfl) (fun after v absences signatures hx hv _ => hx.trans (.put ?_)) _
      intro t ht
      rw [show ({ v with absences, signatures } : Validator).owner = v.owner from rfl, hv] at ht
      cases ht
      exact ⟨rfl, fun hc => absurd trivial hc, fun hc => absurd trivial hc, fun _ => rfl,
        fun _ => rfl⟩
    | @fire height evidence =>
      refine Desk.fire_induction (P := fun x => b.Carries (Keeps _) x.2.book)
        (fun _ _ hx => hx) (fun x v penalty hx hv => hx.trans ?_) (.of_same rfl) evidence
      obtain ⟨u, -, henters⟩ := Desk.enters_punish (.fire height evidence) x.2 p penalty .always hv
      exact henters.carries
    | report => exact .of_same rfl
    | register | increaseDeposit | withdraw | revoke | punish => cases hc

/-- A bound key stays with its owner. -/
theorem Book.Move.holder {p : Parameters} {b after : Book} (hmove : b.Move p after)
    {k : ConsensusKey} {a : Account} (hk : b.holders.get? k = some a) :
    after.holders.get? k = some a := by
  cases hmove with
  | enlist v old holder powered =>
    change (b.bind v.key v.owner).holders.get? k = some a
    rw [holders_bind]
    split
    · subst_vars
      rw [holder a hk]
    · exact hk
  | raise | lower | penalize | count => exact hk
  | leave => rwa [holders_dismissMember]

namespace Registry

variable {reg : Registry} {source : ParameterSource} {faults : Faults} {c : Call} {b : Book}

/-- Whether a call succeeds or fails, the store then holds a book that carries on the old one. -/
theorem exists_holds_call (source : ParameterSource) (faults : Faults) (c : Call)
    (hb : reg.store.Holds b) :
    ∃ after, (reg.call source faults c).2.store.Holds after ∧ b.Carries c.Keeps after ∧
      (∀ k a, b.holders.get? k = some a → after.holders.get? k = some a) ∧
      (c ≠ .report → after.roster.reported = b.roster.reported) ∧
      ∀ owner, c.subject? = some owner →
        ∀ a ≠ owner, after.validators.get? a = b.validators.get? a := by
  obtain ⟨after, hafter, rfl | ⟨answer, w, heffect, rfl⟩⟩ := holds_call hb source faults c
  · exact ⟨after, hafter, .of_same rfl, fun _ _ h => h, fun _ => rfl, fun _ _ _ _ => rfl⟩
  · obtain ⟨p, hp⟩ := Call.exists_goesBy heffect
    refine ⟨w.stored b, hafter,
      (Call.carries_effect heffect).trans (.of_same (w.validators_stored b)), fun k a hk => ?_,
      fun hc => ?_, fun owner hc a ha => ?_⟩
    · rw [Desk.holders_stored]
      exact Call.preserve_effect (P := fun after => after.holders.get? k = some a) hp heffect
        (fun h hmove => hmove.holder h) (fun _ h => h) hk
    · rw [Desk.reported_stored]
      exact (Call.moves_of_effect hc hp heffect).preserve
        (P := fun after => after.roster.reported = b.roster.reported)
        (fun h hmove => (Book.reported_of_move hmove).trans h) rfl
    · obtain ⟨u, rfl, henters⟩ := Call.enters_effect hc heffect
      rw [Desk.validators_stored, henters.validators, Book.get?_put, if_neg ha.symm]

/-- A call about an account moves no coins of another, not even when it fails and gives coins
back. -/
theorem balance_call_of_ne (hb : reg.store.Holds b) {owner a : Account}
    (hc : c.subject? = some owner) (ha : a ≠ owner) :
    (reg.call source faults c).2.ledger.balance a = reg.ledger.balance a := by
  -- The coins that a plan stages are those of the desk that it comes to.
  have hstaged {answer : c.Answer} {d : Draft}
      (hrun : (c.plan source).run faults.read reg.store = .ok (answer, d)) :
      ∀ t ∈ d.transfers, t.account ≠ a := by
    have hcomes := c.comesTo_effect hb source
    rw [Query.answer_of_run hrun] at hcomes
    obtain ⟨w, heffect, hshows⟩ := hcomes.of_ok
    obtain ⟨u, rfl, henters⟩ := Call.enters_effect hc heffect
    intro t ht hta
    rw [hshows.transfers] at ht
    exact ha (hta ▸ (henters.transfers t ht).resolve_left List.not_mem_nil)
  have htakenBack {d : Draft} (hd : ∀ t ∈ d.transfers, t.account ≠ a) :
      (reg.takenBack faults d).ledger.balance a = reg.ledger.balance a := by
    refine (Ledger.balance_takeBack_of_ne _ fun t ht => ?_).trans
      (Ledger.balance_moveAll_of_ne reg.ledger hd)
    exact hd t ((Ledger.mem_made_moveAll _ ht).resolve_left List.not_mem_nil)
  have hcase := reg.perform_case faults (c.plan source)
  unfold call
  generalize reg.perform faults (c.plan source) = result at hcase
  cases hcase with
  | refused => rfl
  | unpaid hrun => exact htakenBack (hstaged hrun)
  | unstored hrun => exact htakenBack (hstaged hrun)
  | done hrun hsettles =>
    rw [hsettles.ledger]
    exact Ledger.balance_moveAll_of_ne reg.ledger (hstaged hrun)

end Registry

/-- After every run, whatever the next call is and whatever fails in it: every validator on record
stays on record with its owner and its key; only a count of flags changes its signatures, and only
a registration its link and the height of it. Every bound key stays
bound to its owner. A call about one account leaves the stored form of all other validators and the
balances of all other accounts as they are, and only a report changes what counts as reported. -/
theorem Run.record_is_permanent (l : Ledger) (steps : List Step) (s : Step) :
    let before := (of l steps).registry
    let after := ((of l steps).extend s).registry
    (∀ a v, (Query.validator? a).answer before.store = .ok (some v) →
      ∃ u, (Query.validator? a).answer after.store = .ok (some u) ∧ u.owner = v.owner ∧
        s.call.Keeps v u) ∧
    (∀ k a, (Query.holder? k).answer before.store = .ok (some a) →
      (Query.holder? k).answer after.store = .ok (some a)) ∧
    (∀ owner, s.call.subject? = some owner → ∀ a ≠ owner,
      after.store.get? (Layout.validatorKey a) = before.store.get? (Layout.validatorKey a) ∧
      after.ledger.balance a = before.ledger.balance a) ∧
    (s.call ≠ .report → ∃ old new, Query.roster.answer before.store = .ok old ∧
      Query.roster.answer after.store = .ok new ∧ new.reported = old.reported) := by
  intro before after
  obtain ⟨b, hb, -⟩ := holds_indexed l steps
  obtain ⟨c, hc, hcarries, hholders, hreported, hothers⟩ :=
    Registry.exists_holds_call s.source s.faults s.call hb
  refine ⟨fun a v hv => ?_, fun k a hk => ?_, fun owner howner a ha => ⟨?_, ?_⟩, fun hne => ?_⟩
  · rw [hb.answer_validator?, Except.ok.injEq] at hv
    obtain ⟨u, hu, hkeeps⟩ := hcarries a v hv
    exact ⟨u, (hc.answer_validator? a).trans (congrArg Except.ok hu),
      (c.owner_eq hu).trans (b.owner_eq hv).symm, hkeeps⟩
  · rw [hb.answer_holder?, Except.ok.injEq] at hk
    exact (hc.answer_holder? k).trans (congrArg Except.ok (hholders k a hk))
  · have hbytes := hc.validators a
    rw [hothers owner howner a ha] at hbytes
    exact hbytes.trans (hb.validators a).symm
  · exact Registry.balance_call_of_ne hb howner ha
  · exact ⟨b.roster, c.roster, hb.answer_roster, hc.answer_roster, hreported hne⟩

end StakedCommittee
