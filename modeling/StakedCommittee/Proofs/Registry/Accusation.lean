import StakedCommittee.Proofs.Registry.Conservation
import StakedCommittee.Proofs.Registry.Firing
import StakedCommittee.Proofs.Registry.Payout
import StakedCommittee.Proofs.Roster.Succession

/-! Firing goes by who is accused, whatever the order of the evidence and however often a key occurs
in it. A fired validator loses what it would lose if it were the only one, because its deposit and
its place do not depend on who was fired before; what does depend on it is who is promoted in
between. Two firings of the same accounts therefore end in the same sentences, the same records and
the same members. Evidence over the same keys accuses the same accounts, and leaves the same members
to be checked for absences. -/

namespace StakedCommittee

/-- A punishment apart from who was promoted. -/
def Punishment.sentence (q : Punishment) : Punishment := { q with promoted := none }

/-- The payments that a punishment comes with. -/
def Punishment.credits (q : Punishment) : List Transfer :=
  if q.refunded.isZero then [] else [.credit q.owner q.refunded]

@[simp] theorem Punishment.credits_sentence (q : Punishment) : q.sentence.credits = q.credits := rfl

namespace Book

/-- What removal means for an account of the book, with the penalty that `rate` gives. -/
def sentence (b : Book) (rate : Account → Amount) (a : Account) : Punishment :=
  let penalty := (rate a).smaller (b.deposit a)
  ⟨a, penalty, .zero, (b.deposit a).remainder penalty, decide (a ∈ b.roster.pool), none⟩

/-- The penalty for each account: one for the owners of keys in evidence, one for all others. -/
def rate (b : Book) (p : Parameters) (evidence : List Evidence) (a : Account) : Amount :=
  if ∃ e ∈ evidence, b.holders.get? e.key = some a then p.byzantinePenalty else p.absencePenalty

end Book

/-- Nothing can be taken from a deposit of nothing. -/
theorem Validator.deposit_slash_of_zero {v : Validator} (h : v.deposit = .zero)
    (penalty : Amount) : (v.slash penalty).deposit = .zero :=
  Amount.ext (by simp [slash, h])

namespace Desk

open Book

variable {b : Book} {w : Desk} {p : Parameters} {rate : Account → Amount}
  {x y : FiringReport × Desk} {v : Validator} {penalty : Amount} {a : Account}

/-! ### One removal -/

/-- Removal takes the whole deposit, of which an outsider has none. -/
theorem validators_punish_always (w : Desk) (p : Parameters) (penalty : Amount)
    (hout : v.owner ∉ w.book.roster.pool → v.deposit = .zero) :
    (w.punish p v penalty .always).2.book.validators =
      (w.book.put { v with deposit := .zero }).validators := by
  by_cases hmember : v.owner ∈ w.book.roster.pool
  · rw [(w.punish_always_of_member p penalty hmember).1]
    rfl
  · rw [w.punish_always_of_outsider p penalty hmember,
      ← Validator.deposit_slash_of_zero (hout hmember) penalty]
    rfl

theorem sentence_punish_always (w : Desk) (p : Parameters) (penalty : Amount)
    (hout : v.owner ∉ w.book.roster.pool → v.deposit = .zero) :
    (w.punish p v penalty .always).1.sentence =
      ⟨v.owner, v.forfeit penalty, .zero, (v.slash penalty).deposit,
        decide (v.owner ∈ w.book.roster.pool), none⟩ := by
  by_cases hmember : v.owner ∈ w.book.roster.pool
  · rw [punish, if_pos ⟨hmember, .inl rfl⟩]
    simp [Punishment.sentence, hmember]
  · rw [punish, if_neg fun hremoves => hmember hremoves.1]
    simp [Punishment.sentence, hmember, Validator.deposit_slash_of_zero (hout hmember)]

theorem transfers_punish_always (w : Desk) (p : Parameters) (v : Validator) (penalty : Amount) :
    (w.punish p v penalty .always).2.transfers =
      w.transfers ++ (w.punish p v penalty .always).1.credits := by
  by_cases hmember : v.owner ∈ w.book.roster.pool
  · rw [punish, if_pos ⟨hmember, .inl rfl⟩]
    show ((w.put _).refund v.owner (v.slash penalty).deposit).transfers = _
    unfold refund Punishment.credits
    dsimp only
    split
    · exact (List.append_nil _).symm
    · rfl
  · rw [punish, if_neg fun hremoves => hmember hremoves.1]
    simp only [hmember, ↓reduceIte]
    exact (List.append_nil _).symm

/-! ### Removals in a row -/

/-- A stage of a firing at the given penalties, said by who was fired so far. Only the committee
depends on the order. -/
structure Docket (b : Book) (p : Parameters) (rate : Account → Amount) (x : FiringReport × Desk) :
    Prop extends Firing b x where
  fresh : x.2.book.Fresh
  nodup : x.1.fired.Nodup
  validators : ∀ a, x.2.book.validators.get? a = (b.validators.get? a).map fun v =>
    if a ∈ x.1.fired then { v with deposit := .zero } else v
  roster : x.2.book.roster = b.roster.releaseAll b.power p.seats x.1.fired
  sentences : ∀ q ∈ x.1.punishments, q.sentence = b.sentence rate q.owner
  transfers : x.2.transfers = x.1.punishments.flatMap Punishment.credits

namespace Docket

theorem start (hfunded : b.Funded) (hfresh : b.Fresh) : Docket b p rate ({}, ⟨b, []⟩) where
  toFiring := .start (w := ⟨b, []⟩) hfunded
  fresh := hfresh
  nodup := .nil
  validators a := by simp [FiringReport.fired]
  roster := rfl
  sentences q hq := by cases hq
  transfers := rfl

theorem unknown (hx : Docket b p rate x) (key : ConsensusKey) :
    Docket b p rate (x.1.addUnknown key, x.2) :=
  ⟨hx.toFiring.unknown key, hx.fresh, hx.nodup, hx.validators, hx.roster, hx.sentences,
    hx.transfers⟩

/-- Whoever was not fired is on record as before. -/
theorem get?_of_not_mem (hx : Docket b p rate x) (ha : a ∉ x.1.fired) :
    x.2.book.validators.get? a = b.validators.get? a := by
  rw [hx.validators]
  simp [ha]

theorem mem_pool_iff (hx : Docket b p rate x) :
    a ∈ x.2.book.roster.pool ↔ a ∈ b.roster.pool ∧ a ∉ x.1.fired := by
  rw [hx.roster, Roster.pool_releaseAll, List.mem_filter, decide_eq_true_iff]

theorem power_of_member (hx : Docket b p rate x) (ha : a ∈ x.2.book.roster.pool) :
    x.2.book.power a = b.power a := by
  rw [Book.power, hx.get?_of_not_mem (hx.mem_pool_iff.1 ha).2, Book.power]

/-- The members have the powers that they had at first. -/
theorem fresh_power (hx : Docket b p rate x) : x.2.book.roster.Fresh b.power :=
  Roster.Fresh.congr hx.fresh fun c hc => hx.power_of_member (hx.funded.pool_of_seated c hc)

/-- Removal is a departure at the powers that all had at first. -/
theorem roster_punish (hx : Docket b p rate x) (v : Validator) (penalty : Amount) :
    (x.2.punish p v penalty .always).2.book.roster =
      (x.2.book.roster.release b.power p.seats v.owner).1 := by
  by_cases hmember : v.owner ∈ x.2.book.roster.pool
  · -- Those who stay in the pool have the powers that they had at first.
    have hpower : ∀ c ∈ x.2.book.roster.pool, c ≠ v.owner →
        (x.2.book.put { v with deposit := .zero }).power c = b.power c := fun c hc hne => by
      rw [power_put, if_neg hne.symm]
      exact hx.power_of_member hc
    rw [(x.2.punish_always_of_member p penalty hmember).1,
      roster_dismiss (b := x.2.book.put _) hx.funded.pool_of_seated]
    exact congrArg Prod.fst
      (Roster.release_congr (r := (x.2.book.put _).roster) hx.funded.pool_of_seated hpower)
  · rw [x.2.punish_always_of_outsider p penalty hmember]
    exact (hx.fresh_power.release_outsider hx.funded.pool_of_seated hmember).symm

theorem fireOne (hx : Docket b p rate x) (hv : x.2.book.validators.get? v.owner = some v)
    (hnew : v.owner ∉ x.1.fired) (hrate : rate v.owner = penalty) :
    Docket b p rate (Desk.fireOne p x v penalty) := by
  have hfired := fired_fireOne p x v penalty
  have hold : b.validators.get? v.owner = some v := by rw [← hx.get?_of_not_mem hnew, hv]
  have hout : v.owner ∉ x.2.book.roster.pool → v.deposit = .zero := fun h => by
    rw [← deposit_of_get? hv]
    exact hx.funded.outsider _ h
  constructor
  case toFiring => exact hx.toFiring.fireOne p penalty hv
  case fresh => exact hx.fresh.move hx.funded (x.2.move_of_punish p penalty .always hv)
  case nodup =>
    rw [hfired]
    refine List.nodup_append.2 ⟨hx.nodup, by simp, fun a ha c hc => ?_⟩
    rw [List.mem_singleton.1 hc]
    rintro rfl
    exact hnew ha
  case validators =>
    intro a
    rw [hfired]
    show (x.2.punish p v penalty .always).2.book.validators.get? a = _
    rw [x.2.validators_punish_always p penalty hout, get?_put]
    by_cases ha : v.owner = a
    · subst ha
      simp [hold]
    · rw [if_neg ha, hx.validators]
      simp [Ne.symm ha]
  case roster =>
    rw [hfired, Roster.releaseAll_concat, ← hx.roster]
    exact hx.roster_punish v penalty
  case sentences =>
    intro q hq
    rcases List.mem_append.1 hq with hq | hq
    · exact hx.sentences q hq
    · obtain rfl := List.mem_singleton.1 hq
      have hin : v.owner ∈ x.2.book.roster.pool ↔ v.owner ∈ b.roster.pool :=
        hx.mem_pool_iff.trans (and_iff_left hnew)
      rw [x.2.sentence_punish_always p penalty hout, owner_punish, Book.sentence, hrate,
        deposit_of_get? hold, decide_eq_decide.2 hin]
      rfl
  case transfers =>
    show (x.2.punish p v penalty .always).2.transfers =
      (x.1.punishments ++ [(x.2.punish p v penalty .always).1]).flatMap Punishment.credits
    rw [transfers_punish_always, hx.transfers, List.flatMap_append, List.flatMap_singleton]

/-- Evidence is heard at one penalty for all that it accuses. -/
theorem heard (hx : Docket b p rate x) {evidence : List Evidence}
    (hrate : ∀ e ∈ evidence, ∀ a, b.holders.get? e.key = some a → rate a = p.byzantinePenalty) :
    Docket b p rate (evidence.foldl (Desk.hearEvidence p) x) := by
  refine List.foldlRecOn (motive := Docket b p rate) evidence _ hx fun y hy e he => ?_
  have hcase := hear_case p y e
  generalize Desk.hearEvidence p y e = z at hcase
  cases hcase with
  | unknown => exact hy.unknown e.key
  | again => exact hy
  | fires holder new =>
    exact hy.fireOne (get?_of_keyholder? holder) new (hrate e he _ (hy.holder_of_keyholder? holder))

/-- Absences are checked at one penalty for all that were not fired before. -/
theorem checked (hx : Docket b p rate x) {accounts : List Account}
    (hrate : ∀ a v, b.validators.get? a = some v → a ∉ x.1.fired → rate a = p.absencePenalty) :
    Docket b p rate (accounts.foldl (Desk.checkAbsences p) x) := by
  induction accounts generalizing x with
  | nil => exact hx
  | cons owner rest ih =>
    refine ih ?_ fun a v hv hnew => hrate a v hv fun hold =>
      hnew ((hx.mem_fired_checkAbsences p owner).2 (.inl hold))
    have hcase := check_case p x owner
    generalize Desk.checkAbsences p x owner = z at hcase
    cases hcase with
    | unknown | spared => exact hx
    | @fires v found new exceeds =>
      refine hx.fireOne found new (hrate v.owner v ?_ new)
      rw [← hx.get?_of_not_mem new, found]

end Docket

theorem docket_heard (hfunded : b.Funded) (hfresh : b.Fresh) (p : Parameters)
    (evidence : List Evidence) : Docket b p (b.rate p evidence)
      (evidence.foldl (hearEvidence p) ({}, ⟨b, []⟩)) :=
  (Docket.start hfunded hfresh).heard fun e he _ ha => if_pos ⟨e, he, ha⟩

theorem docket_fire (hfunded : b.Funded) (hfresh : b.Fresh) (p : Parameters)
    (evidence : List Evidence) : Docket b p (b.rate p evidence) (fire ⟨b, []⟩ p evidence) := by
  refine (docket_heard hfunded hfresh p evidence).checked fun a v hv hspared => ?_
  -- All that are accused and on record were fired before.
  refine if_neg fun ⟨e, he, ha⟩ => hspared ?_
  exact ((Firing.start hfunded).mem_fired_heard p evidence).2 (.inr ⟨e, he, ha, v, hv⟩)

/-! ### The same accounts -/

/-- Two firings came to the same, up to the order. -/
structure Alike (x y : FiringReport × Desk) : Prop where
  validators : x.2.book.validators = y.2.book.validators
  holders : x.2.book.holders = y.2.book.holders
  pool : x.2.book.roster.pool = y.2.book.roster.pool
  seated : x.2.book.roster.seated.Perm y.2.book.roster.seated
  weakestPower : x.2.book.roster.weakestPower = y.2.book.roster.weakestPower
  sentences : (x.1.punishments.map Punishment.sentence).Perm
    (y.1.punishments.map Punishment.sentence)
  transfers : x.2.transfers.Perm y.2.transfers

namespace Docket

theorem sentences_eq (hx : Docket b p rate x) :
    x.1.punishments.map Punishment.sentence = x.1.fired.map (b.sentence rate) := by
  rw [FiringReport.fired, List.map_map]
  exact List.map_congr_left hx.sentences

theorem transfers_eq (hx : Docket b p rate x) :
    x.2.transfers = (x.1.punishments.map Punishment.sentence).flatMap Punishment.credits := by
  rw [hx.transfers, List.flatMap_map]
  simp only [Punishment.credits_sentence]

theorem cleared (hx : Docket b p rate x) (hfunded : b.Funded) :
    Roster.Cleared b.power p.seats b.roster x.1.fired x.2.book.roster :=
  hx.roster ▸ .releaseAll hfunded.nodup_pool hfunded.nodup_seated hfunded.pool_of_seated
    (fun _ hc => hfunded.power_ne_zero hc) _

/-- Who was fired decides everything else. -/
theorem alike (hx : Docket b p rate x) (hy : Docket b p rate y) (hfunded : b.Funded)
    (hfired : ∀ a, a ∈ x.1.fired ↔ a ∈ y.1.fired) : Alike x y := by
  have hone := hx.cleared hfunded
  have htwo := hy.cleared hfunded
  have hseated := hone.seated_perm htwo hfired hfunded.nodup_pool
  have hsentences : (x.1.punishments.map Punishment.sentence).Perm
      (y.1.punishments.map Punishment.sentence) := by
    rw [hx.sentences_eq, hy.sentences_eq]
    exact ((List.perm_ext_iff_of_nodup hx.nodup hy.nodup).2 hfired).map _
  refine ⟨SortedMap.ext_get? fun a => ?_, hx.purged.holders.trans hy.purged.holders.symm,
    hone.pool_eq htwo hfired, hseated, hx.fresh_power.weakestPower_eq hy.fresh_power hseated,
    hsentences, ?_⟩
  · rw [hx.validators, hy.validators]
    simp only [hfired]
  · rw [hx.transfers_eq, hy.transfers_eq]
    exact hsentences.flatMap_right _

end Docket

theorem Alike.totalPenalty_eq (h : Alike x y) : x.1.totalPenalty = y.1.totalPenalty := by
  have hpenalties : x.1.penalties = y.1.penalties := by
    have hsum := (h.sentences.map fun q => q.penalty.units).sum_nat
    rwa [List.map_map, List.map_map] at hsum
  exact Amount.ext (by rw [FiringReport.units_totalPenalty, FiringReport.units_totalPenalty,
    hpenalties])

/-- What is said of the keys only is said of all evidence over the same keys. -/
theorem exists_evidence_congr {evidence other : List Evidence}
    (hkeys : ∀ key, (∃ e ∈ evidence, e.key = key) ↔ ∃ e ∈ other, e.key = key)
    (P : ConsensusKey → Prop) : (∃ e ∈ evidence, P e.key) ↔ ∃ e ∈ other, P e.key := by
  have hsplit (l : List Evidence) :
      (∃ e ∈ l, P e.key) ↔ ∃ key, P key ∧ ∃ e ∈ l, e.key = key :=
    ⟨fun ⟨e, he, h⟩ => ⟨e.key, h, e, he, rfl⟩, fun ⟨_, h, e, he, hkey⟩ => ⟨e, he, hkey ▸ h⟩⟩
  rw [hsplit, hsplit]
  exact exists_congr fun key => and_congr_right fun _ => hkeys key

/-- Evidence over the same keys, in whatever order, is heard alike and fires alike. -/
theorem alike_fire (hfunded : b.Funded) (hfresh : b.Fresh) (p : Parameters)
    {evidence other : List Evidence}
    (hkeys : ∀ key, (∃ e ∈ evidence, e.key = key) ↔ ∃ e ∈ other, e.key = key) :
    Alike (fire ⟨b, []⟩ p evidence) (fire ⟨b, []⟩ p other) := by
  have hrate : b.rate p evidence = b.rate p other := by
    funext a
    exact if_congr (exists_evidence_congr hkeys fun key => b.holders.get? key = some a) rfl rfl
  have hstart := Firing.start (w := ⟨b, []⟩) hfunded
  have hheard (a : Account) :
      a ∈ (evidence.foldl (hearEvidence p) ({}, ⟨b, []⟩)).1.fired ↔
        a ∈ (other.foldl (hearEvidence p) ({}, ⟨b, []⟩)).1.fired := by
    rw [hstart.mem_fired_heard, hstart.mem_fired_heard]
    exact or_congr_right (exists_evidence_congr hkeys fun key =>
      b.holders.get? key = some a ∧ ∃ v, b.validators.get? a = some v)
  have hone := docket_heard hfunded hfresh p evidence
  have htwo := docket_heard hfunded hfresh p other
  -- The members left by the evidence are the same, and so are those over the limit among them.
  have hmembers := (hone.alike (hrate ▸ htwo) hfunded hheard).seated
  refine (docket_fire hfunded hfresh p evidence).alike
    (hrate ▸ docket_fire hfunded hfresh p other) hfunded fun a => ?_
  unfold fire
  rw [hone.mem_fired_checked, htwo.mem_fired_checked, hheard, hmembers.mem_iff]

end Desk

/-- On a store that works, a firing succeeds if there are parameters for it and the deposits can be
paid back. -/
theorem Registry.isOk_fire_iff {reg : Registry} {b : Book} (hb : reg.store.Holds b)
    (hfunded : b.Funded) (hfresh : b.Fresh) {source : ParameterSource} {faults : LedgerFaults}
    {height : Height} {evidence : List Evidence} :
    (reg.call source { ledger := faults } (.fire height evidence)).1.isOk ↔
      ∃ p, source.inForce height = .ok p ∧ (reg.ledger.moveAll faults []
        (Desk.fire ⟨b, []⟩ p evidence).2.transfers).failure = none := by
  constructor
  · intro h
    cases houtcome : (reg.call source { ledger := faults } (.fire height evidence)).1 with
    | error e =>
      rw [houtcome] at h
      cases h
    | ok report =>
      obtain ⟨p, w, hp, hfire, heffects⟩ := effects_of_fired hb houtcome
      exact ⟨p, hp, by rw [hfire]; exact heffects.moved⟩
  · rintro ⟨p, hp, hmoved⟩
    have heffect : (Call.fire height evidence).effect source ⟨b, []⟩ =
        .ok (Desk.fire ⟨b, []⟩ p evidence) := ParameterSource.whenInForce_eq hp
    have hc : (Call.fire height evidence).PaysOut := trivial
    rw [call_of_effect hb heffect (hc.fits heffect hb.fits hfunded hfresh) hmoved]
    rfl

namespace Run

/-- After every run and at every height, on a store that works: of two lists of evidence with the
same keys either both are refused, or both lead to the same records and balances, to the same pool
and the same members with the same least power, and to the same sentences, one for each account that
is fired, with the same total. Heights, offences, order and repetition do not matter. -/
theorem evidence_order_immaterial (l : Ledger) (steps : List Step) (source : ParameterSource)
    (faults : LedgerFaults) (height : Height) (evidence other : List Evidence)
    (hkeys : ∀ key, (∃ e ∈ evidence, e.key = key) ↔ ∃ e ∈ other, e.key = key) :
    let reg := (of l steps).registry
    let one := reg.call source { ledger := faults } (.fire height evidence)
    let two := reg.call source { ledger := faults } (.fire height other)
    one.1.isOk = two.1.isOk ∧
    ∀ report report', one.1 = .ok report → two.1 = .ok report' →
      (∀ key, key ≠ Layout.rosterKey → one.2.store.get? key = two.2.store.get? key) ∧
      (∀ a, one.2.ledger.balance a = two.2.ledger.balance a) ∧
      (∃ r r', Query.roster.answer one.2.store = .ok r ∧ Query.roster.answer two.2.store = .ok r' ∧
        r.pool = r'.pool ∧ r.seated.Perm r'.seated ∧ r.weakestPower = r'.weakestPower) ∧
      (report.punishments.map Punishment.sentence).Perm
        (report'.punishments.map Punishment.sentence) ∧
      report.fired.Nodup ∧ report.totalPenalty = report'.totalPenalty := by
  intro reg one two
  obtain ⟨b, hb, hfunded, hfresh⟩ := holds_fresh l steps
  have halike (p : Parameters) := Desk.alike_fire hfunded hfresh p hkeys
  have hpaid (p : Parameters) := reg.ledger.moveAll_perm faults (halike p).transfers
    fun t => (Desk.paysOut_fire ⟨b, []⟩ p evidence).isCredit
  refine ⟨Bool.eq_iff_iff.2 ?_, fun report report' hone htwo => ?_⟩
  · rw [Registry.isOk_fire_iff hb hfunded hfresh, Registry.isOk_fire_iff hb hfunded hfresh]
    exact exists_congr fun p => and_congr_right fun _ => (hpaid p).1
  · obtain ⟨p, w, hp, hfire, heffects⟩ := Registry.effects_of_fired hb hone
    obtain ⟨q, u, hq, hfire', heffects'⟩ := Registry.effects_of_fired hb htwo
    obtain rfl : p = q := Except.ok.inj (hp.symm.trans hq)
    have hdocket := Desk.docket_fire hfunded hfresh p evidence
    have hsame := halike p
    have hbalance := (hpaid p).2
    rw [hfire] at hdocket
    rw [hfire, hfire'] at hsame hbalance
    refine ⟨fun key hkey => ?_, fun a => ?_, ⟨_, _, heffects.holds.answer_roster,
      heffects'.holds.answer_roster, ?_, ?_, ?_⟩, hsame.sentences, hdocket.nodup,
      hsame.totalPenalty_eq⟩
    · refine heffects'.holds.get?_congr heffects.holds (fun a _ => ?_) (fun k _ => ?_)
        fun h => absurd h hkey
      · rw [Desk.validators_stored, Desk.validators_stored, hsame.validators]
      · rw [Desk.holders_stored, Desk.holders_stored, hsame.holders]
    · rw [heffects.ledger, heffects'.ledger]
      exact hbalance heffects.moved a
    · rw [Desk.pool_stored, Desk.pool_stored]
      exact hsame.pool
    · rw [Desk.seated_stored, Desk.seated_stored]
      exact hsame.seated
    · rw [Desk.weakestPower_stored, Desk.weakestPower_stored]
      exact hsame.weakestPower

/-- The strongest of two that wait is accused together with a member. It takes the seat of the
member and loses it again, or it is gone before the seat falls free. -/
theorem evidence_order_immaterial_for_successor :
    let source : ParameterSource := .always { Parameters.standard with seats := 2 }
    let keyA : ConsensusKey := .ofByte 0
    let keyC : ConsensusKey := .ofByte 2
    let l : Ledger := .funded .greatest ["alice", "bob", "carol", "dave"]
    let steps : List Step :=
      [.enroll source 1 "alice" 0 4000, .enroll source 1 "bob" 1 3000,
        .enroll source 1 "carol" 2 2000, .enroll source 1 "dave" 3 1000]
    let evidence : List Evidence := [⟨keyA, 1, .duplicateVote⟩, ⟨keyC, 1, .duplicateVote⟩]
    let other : List Evidence := [⟨keyC, 1, .lightClientAttack⟩, ⟨keyA, 0, .duplicateVote⟩,
      ⟨keyC, 1, .duplicateVote⟩]
    (∀ key, (∃ e ∈ evidence, e.key = key) ↔ ∃ e ∈ other, e.key = key) ∧
      ((of l steps).registry.call source {} (.fire 2 evidence)).1 = .ok
        ⟨[⟨⟨"alice"⟩, .ofCoins 1000, .zero, .ofCoins 3000, true, some ⟨"carol"⟩⟩,
          ⟨⟨"carol"⟩, .ofCoins 1000, .zero, .ofCoins 1000, true, some ⟨"dave"⟩⟩], []⟩ ∧
      ((of l steps).registry.call source {} (.fire 2 other)).1 = .ok
        ⟨[⟨⟨"carol"⟩, .ofCoins 1000, .zero, .ofCoins 1000, true, none⟩,
          ⟨⟨"alice"⟩, .ofCoins 1000, .zero, .ofCoins 3000, true, some ⟨"dave"⟩⟩], []⟩ ∧
      ∃ r r',
        Query.roster.answer ((of l steps).registry.call source {} (.fire 2 evidence)).2.store =
          .ok r ∧
        Query.roster.answer ((of l steps).registry.call source {} (.fire 2 other)).2.store =
          .ok r' ∧
        r.pool = r'.pool ∧ r.seated.Perm r'.seated ∧ r.weakestPower = r'.weakestPower := by
  intro source keyA keyC l steps evidence other
  have hkeys : ∀ key, (∃ e ∈ evidence, e.key = key) ↔ ∃ e ∈ other, e.key = key := by
    intro key
    simp only [evidence, other, List.mem_cons, List.not_mem_nil, or_false, exists_eq_or_imp,
      exists_eq_left]
    exact ⟨fun h => h.elim (fun h => .inr (.inl h)) .inl,
      fun h => h.elim .inr fun h => h.elim .inl .inr⟩
  have hone : ((of l steps).registry.call source {} (.fire 2 evidence)).1 = .ok
      ⟨[⟨⟨"alice"⟩, .ofCoins 1000, .zero, .ofCoins 3000, true, some ⟨"carol"⟩⟩,
        ⟨⟨"carol"⟩, .ofCoins 1000, .zero, .ofCoins 1000, true, some ⟨"dave"⟩⟩], []⟩ := by
    decide +kernel
  have htwo : ((of l steps).registry.call source {} (.fire 2 other)).1 = .ok
      ⟨[⟨⟨"carol"⟩, .ofCoins 1000, .zero, .ofCoins 1000, true, none⟩,
        ⟨⟨"alice"⟩, .ofCoins 1000, .zero, .ofCoins 3000, true, some ⟨"dave"⟩⟩], []⟩ := by
    decide +kernel
  obtain ⟨-, hsame⟩ := evidence_order_immaterial l steps source {} 2 evidence other hkeys
  obtain ⟨-, -, hrosters, -⟩ := hsame _ _ hone htwo
  exact ⟨hkeys, hone, htwo, hrosters⟩

end Run

end StakedCommittee
