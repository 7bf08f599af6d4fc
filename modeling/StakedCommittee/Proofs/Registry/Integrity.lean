import StakedCommittee.Proofs.Registry.Payout

/-! The store stays sound. Whatever calls are made, and whatever the names in them, it has the
written form of one roster, of validators under their owners and of owners under consensus keys, and
nothing else. So everything that is read of it is understood, and a call that fails while reads and
writes work has failed by its own rules or for the ledger. Lengths are the exception: an operation
on drafts may enter a text or a pool too long for its length to be written in eight bytes, which no
memory holds. -/

namespace StakedCommittee

/-- What may stand in a store, and where. -/
inductive Layout.Entry : Bytes → Bytes → Prop
  | roster (r : Roster) (fits : r.Fits) : Entry rosterKey r.encode
  /-- A validator stands under its own owner. -/
  | validator (v : Validator) (fits : v.Fits) : Entry (validatorKey v.owner) v.encode
  | binding (k : ConsensusKey) (owner : Account) : Entry (bindingKey k) owner.bytes

theorem Store.Holds.entry {s : Store} {b : Book} (h : s.Holds b) {key bytes : Bytes}
    (hkey : s.get? key = some bytes) : Layout.Entry key bytes := by
  rcases h.only hkey with ⟨a, rfl⟩ | ⟨k, rfl⟩ | rfl
  · rw [h.validators] at hkey
    obtain ⟨v, hv, rfl⟩ := Option.map_eq_some_iff.1 hkey
    rw [← b.owner_eq hv]
    exact .validator v (h.validators_fit hv)
  · rw [h.holders] at hkey
    obtain ⟨owner, -, rfl⟩ := Option.map_eq_some_iff.1 hkey
    exact .binding k owner
  · obtain rfl := Option.some.inj (h.roster.symm.trans hkey)
    exact .roster b.roster h.roster_fits

/-- The store did not answer, what it has cannot be read or written, or it has no roster. -/
def RegistryError.BlamesStore : RegistryError → Prop
  | .noRoster | .store _ | .data _ => True
  | _ => False

theorem RegistryError.IsRefusal.not_blamesStore {e : RegistryError} (h : e.IsRefusal) :
    ¬ e.BlamesStore := by
  cases e with
  | ledger | noRoster | store | data => exact h.elim
  | _ => exact id

/-- The lengths that a call enters into a roster or a validator can be written. -/
def Call.Fits (r : Roster) : Call → Prop
  | .register _ owner _ _ link =>
    Wire.TextFits owner.name ∧ Wire.TextFits link ∧ r.pool.length + 1 < 0x10000000000000000
  | _ => True

namespace Desk

variable {b : Book} {w : Desk} {p : Parameters} {owner : Account}

theorem shrinks_increaseDeposit {amount : Amount} {answer : Seating}
    (h : increaseDeposit ⟨b, []⟩ p owner amount = .ok (answer, w)) : b.Shrinks w.book := by
  obtain ⟨hmember, v, deposit, hv, -, -, rfl⟩ := increaseDeposit_eq_ok h
  obtain rfl := b.owner_eq hv
  refine (Book.Shrinks.put (u := { v with deposit }) hv rfl rfl).trans (.setRoster ?_ ?_)
  · intro a ha
    rw [Roster.pool_seat, Roster.mem_pool_join] at ha
    exact ha.elim id fun heq => heq ▸ hmember
  · exact (Roster.reported_seat ..).trans (Roster.reported_join ..)

/-- A registration adds one member to the pool, and its validator to the others. -/
theorem fits_register {height : Height} {key : ConsensusKey} {deposit : Amount} {link : String}
    {answer : Seating} (h : register ⟨b, []⟩ p height owner key deposit link = .ok (answer, w))
    (hc : (Call.register height owner key deposit link).Fits b.roster) (hb : b.Fits)
    (hfunded : w.book.Funded) (hfresh : w.book.Fresh) : w.book.Fits := by
  obtain ⟨hname, hlink, hlength⟩ := hc
  obtain ⟨v, happ, -, -, -, hafter⟩ := register_eq_ok h
  obtain ⟨rfl, -⟩ := applicant_eq_ok happ
  have hbook : w.book = (((b.bind key v.owner).put v).offerSeat p v.owner).2 := by
    rw [hafter]
    rfl
  have hjoined : w.book.roster.pool = (b.roster.join v.owner).pool := by
    rw [hbook]
    exact Roster.pool_seat ..
  have hreported : w.book.roster.reported = b.roster.reported := by
    rw [hbook]
    exact (Roster.reported_seat ..).trans (Roster.reported_join ..)
  have hvalidators : w.book.validators = (b.put v).validators := by
    rw [hbook]
    rfl
  obtain ⟨-, hpool, hreportedfits, -⟩ := hb.roster
  refine Book.fits_of_pool hfunded hfresh ⟨?_, fun a ha => ?_⟩ (hreported ▸ hreportedfits)
    fun {a u} hu => ?_
  · rw [hjoined, Roster.length_pool_join]
    split <;> omega
  · rw [hjoined, Roster.mem_pool_join] at ha
    exact ha.elim (hpool.2 a) fun heq => heq ▸ hname
  · rw [hvalidators, Book.get?_put] at hu
    split at hu
    · cases hu
      exact ⟨hname, link_of_applicant happ ▸ hlink⟩
    · exact hb.validators hu

end Desk

/-- What a call leaves can be written, if what it enters can. -/
theorem Call.fits_of_effect {source : ParameterSource} {c : Call} {b : Book} {a : c.Answer}
    {w : Desk} (h : c.effect source ⟨b, []⟩ = .ok (a, w)) (hc : c.Fits b.roster) (hb : b.Fits)
    (hfunded : b.Funded) (hfresh : b.Fresh) : w.book.Fits := by
  obtain ⟨hfunded', hfresh'⟩ := sound_of_effect h hfunded hfresh
  obtain ⟨p, hp⟩ := exists_goesBy h
  have hpays (hc : c.PaysOut) : w.book.Fits := hc.fits h hb hfunded hfresh
  cases acts_of_effect hp h with
  | genesis => exact hb
  | register h => exact Desk.fits_register h hc hb hfunded' hfresh'
  | increaseDeposit _ h => exact (Desk.shrinks_increaseDeposit h).fits hb hfunded' hfresh'
  | withdraw | revoke | punish | countFlags | fire => exact hpays trivial
  | report =>
    obtain ⟨hseated, hpool, -, hweakest⟩ := hb.roster
    exact ⟨hb.validators, hseated, hpool, hseated, hweakest⟩

namespace Store.Holds

variable {s : Store} {b : Book} {a : Account} {e : RegistryError}

theorem answer_isRegistered (h : s.Holds b) (a : Account) :
    (Query.isRegistered a).answer s = .ok (b.validators.get? a).isSome := by
  rw [Query.isRegistered, Query.answer_bind, h.answer_validator? a]
  rfl

theorem isRefusal_of_validator (h : s.Holds b)
    (hfails : (Query.validator a).answer s = .error e) : e.IsRefusal := by
  rw [h.answer_validator a] at hfails
  split at hfails
  · cases hfails
  · cases hfails
    trivial

theorem isRefusal_of_allowsWithdrawal (h : s.Holds b) {source : ParameterSource} {height : Height}
    {owner : Account} {amount : Amount}
    (hfails : (Query.allowsWithdrawal source height owner amount).answer s = .error e) :
    e.IsRefusal := by
  rcases Query.answer_bind_error_cases hfails with hp | ⟨p, -, hfails⟩
  · unfold Plan.parameters at hp
    split at hp
    · cases hp
    · cases hp
      trivial
  rcases Query.answer_bind_error_cases hfails with hr | ⟨r, -, hfails⟩
  · cases h.answer_roster.symm.trans hr
  rcases Query.answer_bind_error_cases hfails with hv | ⟨v, -, hfails⟩
  · exact h.isRefusal_of_validator hv
  · split at hfails <;> cases hfails

end Store.Holds

/-- On a store that works, a call blames the store only for a length that it cannot write. -/
theorem Registry.tooLong_of_blamesStore {reg : Registry} {b : Book} (hb : reg.store.Holds b)
    (hfunded : b.Funded) (hfresh : b.Fresh) {source : ParameterSource} {ledger : LedgerFaults}
    {c : Call} {e : RegistryError} (h : (reg.call source { ledger } c).1 = .error e)
    (hblames : e.BlamesStore) : e = .data .tooLong ∧ ¬ c.Fits b.roster := by
  cases fails_of_error hb h with
  | refused hrefused => exact absurd hblames (Call.isRefusal_of_effect hrefused).not_blamesStore
  | unpaid => exact hblames.elim
  | tooLong heffect hfits =>
    exact ⟨rfl, fun hc => hfits (Call.fits_of_effect heffect hc hb.fits hfunded hfresh)⟩

namespace Run

/-- After every run the store has the written forms of a roster, of validators under their owners
and of owners under consensus keys, and nothing else. Where reads and writes work, no question about
the store fails for want of a roster, for the store or for data, and neither does a call, unless it
brings a length that cannot be written. -/
theorem store_stays_sound (l : Ledger) (steps : List Step) :
    let reg := (of l steps).registry
    ∃ r, Query.roster.answer reg.store = .ok r ∧
      reg.store.get? Layout.rosterKey = some r.encode ∧
      (∀ key bytes, reg.store.get? key = some bytes → Layout.Entry key bytes) ∧
      (∀ source ledger (c : Call) e, (reg.call source { ledger } c).1 = .error e →
        e.BlamesStore → e = .data .tooLong ∧ ¬ c.Fits r) ∧
      (∀ a e, (Query.validator a).answer reg.store = .error e → ¬ e.BlamesStore) ∧
      (∀ a, ∃ known, (Query.isRegistered a).answer reg.store = .ok known) ∧
      (∃ listed, Query.validators.answer reg.store = .ok listed) ∧
      ∀ source height owner amount e,
        (Query.allowsWithdrawal source height owner amount).answer reg.store = .error e →
          ¬ e.BlamesStore := by
  intro reg
  obtain ⟨b, hb, hfunded, hfresh⟩ := holds_fresh l steps
  exact ⟨b.roster, hb.answer_roster, hb.roster, fun key bytes => hb.entry,
    fun source ledger c e => Registry.tooLong_of_blamesStore hb hfunded hfresh,
    fun a e h => (hb.isRefusal_of_validator h).not_blamesStore,
    fun a => ⟨_, hb.answer_isRegistered a⟩, ⟨_, hb.answer_validators⟩,
    fun source height owner amount e h => (hb.isRefusal_of_allowsWithdrawal h).not_blamesStore⟩

/-- Names may be empty, and may begin like a key. -/
example :
    let source : ParameterSource := .always .standard
    let key : ConsensusKey := .ofByte 0
    let other : ConsensusKey := .ofByte 1
    let l : Ledger := .funded .greatest ["", "v:é"]
    let steps : List Step := [.enroll source 1 "" 0 3000, .enroll source 1 "v:é" 1 2000]
    (of l steps).registry.store.keys = [Layout.rosterKey, Layout.bindingKey key,
      Layout.bindingKey other, textBytes "v:", textBytes "v:v:é"] := by
  decide +kernel

end Run

end StakedCommittee
