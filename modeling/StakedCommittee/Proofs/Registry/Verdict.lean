import StakedCommittee.Proofs.Registry.Accusation
import StakedCommittee.Proofs.Registry.Records
import StakedCommittee.Proofs.Registry.Version

/-! A firing does what it reports, and nothing else. It fires the owners of the keys in evidence by
first occurrence, and then, of the members that are left once these have gone, those over the limit
on absences, in the order of their seats. Nobody is fired twice, so each deposit is divided once
into what is taken and what is paid back. -/

namespace StakedCommittee

theorem eraseDups_concat {α : Type} [DecidableEq α] (l : List α) (a : α) :
    (l ++ [a]).eraseDups = if a ∈ l then l.eraseDups else l.eraseDups ++ [a] := by
  rw [List.eraseDups_append]
  by_cases h : a ∈ l <;> simp [List.removeAll, List.eraseDups_cons, h]

namespace Book

/-- The owners of the keys in evidence, by first occurrence. -/
def accused (b : Book) (evidence : List Evidence) : List Account :=
  (evidence.filterMap fun e => b.holders.get? e.key).eraseDups

/-- The keys in evidence that are bound to nobody, in order and as often as they occur. -/
def unboundKeys (b : Book) (evidence : List Evidence) : List ConsensusKey :=
  (evidence.map (·.key)).filter fun key => b.holders.get? key = none

/-- The members over the limit on absences, in the order of their seats, once `gone` have left one
after the other. -/
def absentees (b : Book) (p : Parameters) (gone : List Account) : List Account :=
  (b.roster.releaseAll b.power p.seats gone).seated.filter fun a => p.absenceLimit < b.absences a

variable {b : Book} {evidence : List Evidence} {e : Evidence} {a : Account}

theorem mem_accused : a ∈ b.accused evidence ↔ ∃ e ∈ evidence, b.holders.get? e.key = some a := by
  rw [accused, List.mem_eraseDups, List.mem_filterMap]

theorem rate_eq (b : Book) (p : Parameters) (evidence : List Evidence) (a : Account) :
    b.rate p evidence a =
      if a ∈ b.accused evidence then p.byzantinePenalty else p.absencePenalty :=
  if_congr mem_accused.symm rfl rfl

theorem accused_concat_of_unbound (h : b.holders.get? e.key = none) :
    b.accused (evidence ++ [e]) = b.accused evidence := by
  simp [accused, h]

theorem accused_concat (h : b.holders.get? e.key = some a) :
    b.accused (evidence ++ [e]) =
      if a ∈ b.accused evidence then b.accused evidence else b.accused evidence ++ [a] := by
  simp only [accused, List.mem_eraseDups]
  rw [← eraseDups_concat, List.filterMap_append]
  simp [h]

theorem unboundKeys_concat (b : Book) (evidence : List Evidence) (e : Evidence) :
    b.unboundKeys (evidence ++ [e]) =
      b.unboundKeys evidence ++ if b.holders.get? e.key = none then [e.key] else [] := by
  rw [unboundKeys, List.map_append, List.filter_append]
  split <;> simp_all [unboundKeys]

end Book

namespace Desk

open Book

variable {b : Book} {w : Desk} {p : Parameters} {x : FiringReport × Desk} {a owner : Account}

namespace Firing

/-- A key without a validator is bound to nobody. -/
theorem unbound_of_keyholder? (hx : Firing b x) (hindexed : b.Indexed) {key : ConsensusKey}
    (h : x.2.keyholder? key = none) : b.holders.get? key = none := by
  cases hholder : b.holders.get? key with
  | none => rfl
  | some owner =>
    obtain ⟨v, hv, -⟩ := (hindexed key owner).1 hholder
    obtain ⟨u, hu⟩ := (hx.purged.recorded_iff owner).2 ⟨v, hv⟩
    rw [keyholder?, hx.purged.holders, hholder, Option.bind_some, hu] at h
    cases h

/-- Evidence fires the accused in order, and reports the keys of nobody. -/
theorem heard_eq (hfunded : b.Funded) (hindexed : b.Indexed) (p : Parameters)
    (evidence : List Evidence) :
    (evidence.foldl (Desk.hearEvidence p) ({}, ⟨b, []⟩)).1.fired = b.accused evidence ∧
      (evidence.foldl (Desk.hearEvidence p) ({}, ⟨b, []⟩)).1.unknownKeys =
        b.unboundKeys evidence := by
  induction evidence using List.reverseRecOn with
  | nil => exact ⟨rfl, rfl⟩
  | append_singleton before e ih =>
    -- The last piece is heard when the owners of the keys before it are fired.
    have hx := (start (w := ⟨b, []⟩) hfunded).heard p before
    rw [List.foldl_concat]
    generalize before.foldl (Desk.hearEvidence p) ({}, ⟨b, []⟩) = x at ih hx ⊢
    obtain ⟨hfired, hunknown⟩ := ih
    have hcase := hear_case p x e
    generalize Desk.hearEvidence p x e = y at hcase
    cases hcase with
    | unknown holder =>
      have hnone := hx.unbound_of_keyholder? hindexed holder
      rw [accused_concat_of_unbound hnone, unboundKeys_concat, if_pos hnone, ← hunknown]
      exact ⟨hfired, rfl⟩
    | again holder old =>
      have howner := hx.holder_of_keyholder? holder
      rw [accused_concat howner, unboundKeys_concat, howner, if_pos (hfired ▸ old)]
      exact ⟨hfired, by simpa using hunknown⟩
    | fires holder new =>
      have howner := hx.holder_of_keyholder? holder
      rw [accused_concat howner, unboundKeys_concat, howner, if_neg (hfired ▸ new), fired_fireOne,
        hfired]
      refine ⟨rfl, ?_⟩
      show x.1.unknownKeys = _
      simpa using hunknown

theorem fired_checkAbsences (hx : Firing b x) (p : Parameters) (hnew : owner ∉ x.1.fired) :
    (Desk.checkAbsences p x owner).1.fired =
      x.1.fired ++ [owner].filter fun a => p.absenceLimit < b.absences a := by
  rw [← hx.purged.absences_eq]
  have hcase := check_case p x owner
  generalize Desk.checkAbsences p x owner = y at hcase
  cases hcase with
  | unknown found =>
    have hnone : x.2.book.absences owner = 0 := by rw [absences, found]; rfl
    simp [hnone]
  | spared found spared =>
    have hlimit := UInt64.not_lt.2 (spared.resolve_left hnew)
    rw [← absences_of_get? found] at hlimit
    simp [hlimit]
  | fires found new exceeds =>
    rw [← absences_of_get? found] at exceeds
    simp [fired_fireOne, exceeds]

/-- A check of accounts that were not fired yet fires those over the limit, in order. -/
theorem fired_checked (hx : Firing b x) (p : Parameters) {accounts : List Account}
    (hnodup : accounts.Nodup) (hnew : ∀ a ∈ accounts, a ∉ x.1.fired) :
    (accounts.foldl (Desk.checkAbsences p) x).1.fired =
      x.1.fired ++ accounts.filter fun a => p.absenceLimit < b.absences a := by
  induction accounts generalizing x with
  | nil => simp
  | cons owner rest ih =>
    obtain ⟨howner, hrest⟩ := List.nodup_cons.1 hnodup
    rw [List.foldl_cons, ih (hx.checkAbsences p owner) hrest fun a ha hfired => ?_,
      hx.fired_checkAbsences p (hnew owner (.head _)), List.append_assoc, ← List.filter_append]
    · rfl
    · rcases (hx.mem_fired_checkAbsences p owner).1 hfired with hold | ⟨rfl, -⟩
      · exact hnew a (.tail _ ha) hold
      · exact howner ha

end Firing

theorem unknownKeys_checkAbsences (p : Parameters) (x : FiringReport × Desk) (owner : Account) :
    (checkAbsences p x owner).1.unknownKeys = x.1.unknownKeys := by
  have hcase := check_case p x owner
  generalize checkAbsences p x owner = y at hcase
  cases hcase <;> rfl

theorem unknownKeys_checked (p : Parameters) (x : FiringReport × Desk) (accounts : List Account) :
    (accounts.foldl (checkAbsences p) x).1.unknownKeys = x.1.unknownKeys := by
  induction accounts generalizing x with
  | nil => rfl
  | cons owner rest ih => rw [List.foldl_cons, ih, unknownKeys_checkAbsences]

/-- Who is fired, and which keys are reported. -/
theorem fire_eq (hfunded : b.Funded) (hfresh : b.Fresh) (hindexed : b.Indexed) (p : Parameters)
    (evidence : List Evidence) :
    (fire ⟨b, []⟩ p evidence).1.fired =
        b.accused evidence ++ b.absentees p (b.accused evidence) ∧
      (fire ⟨b, []⟩ p evidence).1.unknownKeys = b.unboundKeys evidence := by
  obtain ⟨hfired, hunknown⟩ := Firing.heard_eq hfunded hindexed p evidence
  have hdocket := docket_heard hfunded hfresh p evidence
  unfold fire
  dsimp only
  rw [unknownKeys_checked, hdocket.fired_checked p hdocket.funded.nodup_seated
    fun a ha hold => hdocket.not_seated hold ha, hdocket.roster, hfired]
  exact ⟨rfl, hunknown⟩

end Desk

/-! ### Payments -/

namespace Punishment

variable {q : Punishment} {punishments : List Punishment} {a : Account}

theorem paidTo_credits (q : Punishment) (a : Account) :
    Ledger.paidTo a q.credits = if q.owner = a then q.refunded.units else 0 := by
  unfold credits
  split
  · rename_i hzero
    simp [Ledger.paidTo, Amount.isZero_iff.1 hzero]
  · rw [Ledger.paidTo_cons]
    rfl

theorem paidTo_of_not_mem (h : a ∉ punishments.map (·.owner)) :
    Ledger.paidTo a (punishments.flatMap credits) = 0 := by
  induction punishments with
  | nil => rfl
  | cons first rest ih =>
    rw [List.map_cons, List.mem_cons, not_or] at h
    rw [List.flatMap_cons, Ledger.paidTo_append, paidTo_credits, if_neg (Ne.symm h.1), ih h.2]

/-- Of punishments of different owners, each is paid what it refunds. -/
theorem paidTo_of_mem (hnodup : (punishments.map (·.owner)).Nodup) (hq : q ∈ punishments) :
    Ledger.paidTo q.owner (punishments.flatMap credits) = q.refunded.units := by
  induction punishments with
  | nil => cases hq
  | cons first rest ih =>
    obtain ⟨hfirst, hrest⟩ := List.nodup_cons.1 hnodup
    rw [List.flatMap_cons, Ledger.paidTo_append, paidTo_credits]
    rcases List.mem_cons.1 hq with rfl | hq
    · rw [if_pos rfl, paidTo_of_not_mem hfirst, Nat.add_zero]
    · have hne : first.owner ≠ q.owner := fun h => hfirst (List.mem_map.2 ⟨q, hq, h.symm⟩)
      rw [if_neg hne, ih hrest hq, Nat.zero_add]

/-- What a punishment says, at a penalty, of the validator `v`: `b` and `l` are the book and the
ledger before, `c` and `m` those after. -/
structure CarriedOut (q : Punishment) (penalty : Amount) (v : Validator) (b c : Book)
    (l m : Ledger) : Prop where
  found : b.validators.get? q.owner = some v
  penalty : q.penalty.units = min penalty.units v.deposit.units
  refunded : q.penalty.units + q.refunded.units = v.deposit.units
  removed : q.removed = decide (q.owner ∈ b.roster.pool)
  emptied : c.validators.get? q.owner = some { v with deposit := .zero }
  paid : (m.balance q.owner).units = (l.balance q.owner).units + q.refunded.units
  unseated : q.owner ∉ c.roster.seated
  left : q.owner ∉ c.roster.pool

/-- One who had no deposit loses none and gets none back. -/
theorem CarriedOut.of_outsider {penalty : Amount} {v : Validator} {b c : Book} {l m : Ledger}
    (h : q.CarriedOut penalty v b c l m) (hfunded : b.Funded) (hout : q.owner ∉ b.roster.pool) :
    q.penalty = .zero ∧ q.refunded = .zero ∧
      c.validators.get? q.owner = b.validators.get? q.owner ∧
      m.balance q.owner = l.balance q.owner := by
  have hzero : v.deposit = .zero := by
    rw [← Book.deposit_of_get? h.found]
    exact hfunded.outsider _ hout
  have hsum := h.refunded
  have hpaid := h.paid
  rw [hzero, Amount.units_zero] at hsum
  obtain ⟨hpenalty, hrefunded⟩ := Nat.add_eq_zero_iff.1 hsum
  refine ⟨Amount.ext hpenalty, Amount.ext hrefunded, ?_, Amount.ext (by omega)⟩
  rw [h.emptied, h.found, ← hzero]

end Punishment

/-- What a firing reports and does: `b` and `l` are the book and the ledger before, `c` and `m`
those after. -/
structure Verdict (p : Parameters) (evidence : List Evidence) (report : FiringReport) (b c : Book)
    (l m : Ledger) : Prop where
  unknownKeys : report.unknownKeys = b.unboundKeys evidence
  fired : report.fired = b.accused evidence ++ b.absentees p (b.accused evidence)
  nodup : report.fired.Nodup
  punished : ∀ q ∈ report.punishments, ∃ v, q.CarriedOut
    (if q.owner ∈ b.accused evidence then p.byzantinePenalty else p.absencePenalty) v b c l m
  outsider : ∀ q ∈ report.punishments, q.owner ∉ b.roster.pool →
    q.penalty = .zero ∧ q.refunded = .zero ∧
      c.validators.get? q.owner = b.validators.get? q.owner ∧
      m.balance q.owner = l.balance q.owner
  /-- Nobody else is concerned. -/
  spared : ∀ a, a ∉ report.fired →
    c.validators.get? a = b.validators.get? a ∧ m.balance a = l.balance a
  /-- The roster is what the departures leave, but for its version. -/
  roster : { c.roster with version := b.roster.version } =
    b.roster.releaseAll b.power p.seats report.fired
  holders : c.holders = b.holders

namespace Desk.Docket

variable {b : Book} {p : Parameters} {rate : Account → Amount} {x : FiringReport × Desk}
  {l m : Ledger}

theorem carriedOut (hx : Docket b p rate x)
    (hpaid : ∀ a, (m.balance a).units = (l.balance a).units + Ledger.paidTo a x.2.transfers)
    {q : Punishment} (hq : q ∈ x.1.punishments) :
    ∃ v, q.CarriedOut (rate q.owner) v b (x.2.stored b) l m := by
  have hfired : q.owner ∈ x.1.fired := List.mem_map_of_mem hq
  obtain ⟨v, hv⟩ := hx.recorded q.owner hfired
  have hsentence := hx.sentences q hq
  have hpenalty : q.penalty = (rate q.owner).smaller v.deposit := by
    rw [← Book.deposit_of_get? hv]
    exact congrArg Punishment.penalty hsentence
  have hrefunded : q.refunded = v.deposit.remainder q.penalty := by
    rw [hpenalty, ← Book.deposit_of_get? hv]
    exact congrArg Punishment.refunded hsentence
  have hunits := (rate q.owner).units_smaller v.deposit
  refine ⟨v, hv, hpenalty ▸ hunits, ?_, congrArg Punishment.removed hsentence, ?_, ?_, ?_, ?_⟩
  · rw [hrefunded, Amount.units_remainder, hpenalty]
    omega
  · rw [validators_stored, hx.validators, hv]
    simp [hfired]
  · rw [hpaid, hx.transfers, Punishment.paidTo_of_mem hx.nodup hq]
  · rw [seated_stored]
    exact hx.not_seated hfired
  · rw [pool_stored]
    exact hx.gone _ hfired

theorem spared (hx : Docket b p rate x)
    (hpaid : ∀ a, (m.balance a).units = (l.balance a).units + Ledger.paidTo a x.2.transfers)
    {a : Account} (ha : a ∉ x.1.fired) :
    (x.2.stored b).validators.get? a = b.validators.get? a ∧ m.balance a = l.balance a := by
  refine ⟨?_, Amount.ext ?_⟩
  · rw [validators_stored, hx.get?_of_not_mem ha]
  · rw [hpaid, hx.transfers, Punishment.paidTo_of_not_mem ha, Nat.add_zero]

end Desk.Docket

/-- Storing changes nothing of the roster but its version. -/
theorem Desk.roster_stored_eq {b : Book} {w : Desk}
    (h : w.book.roster.version = b.roster.version) :
    { (w.stored b).roster with version := b.roster.version } = w.book.roster := by
  unfold stored
  rw [← h]
  split <;> rfl

namespace Run

/-- A firing that succeeds, after any run, does what it reports and nothing else. -/
theorem firing_does_what_it_reports (l : Ledger) (steps : List Step) (source : ParameterSource)
    (faults : Faults) (height : Height) (evidence : List Evidence) (report : FiringReport)
    (h : ((of l steps).registry.call source faults (.fire height evidence)).1 = .ok report) :
    let reg := (of l steps).registry
    let after := (reg.call source faults (.fire height evidence)).2
    ∃ p b c, source.inForce height = .ok p ∧ reg.store.Holds b ∧ after.store.Holds c ∧
      Verdict p evidence report b c reg.ledger after.ledger := by
  intro reg after
  obtain ⟨b, hb, hfunded, hfresh⟩ := holds_fresh l steps
  obtain ⟨c, hc, hindexed⟩ := holds_indexed l steps
  obtain rfl := hb.unique hc
  obtain ⟨p, w, hp, hfire, heffects⟩ := Registry.effects_of_fired hb h
  have heffect : (Call.fire height evidence).effect source ⟨b, []⟩ = .ok (report, w) :=
    (ParameterSource.whenInForce_eq hp).trans (congrArg Except.ok hfire)
  have hversion := Call.version_of_effect heffect
  obtain ⟨hfired, hunknown⟩ := Desk.fire_eq hfunded hfresh hindexed p evidence
  have hdocket := Desk.docket_fire hfunded hfresh p evidence
  have hpays := Desk.paysOut_fire ⟨b, []⟩ p evidence
  rw [hfire] at hfired hunknown hdocket hpays
  have hpaid (a : Account) : (after.ledger.balance a).units =
      (reg.ledger.balance a).units + Ledger.paidTo a w.transfers := by
    rw [show after.ledger = _ from heffects.ledger]
    exact Ledger.balance_moveAll_credits (fun t => hpays.isCredit) heffects.moved a
  have hpunished : ∀ q ∈ report.punishments, ∃ v, q.CarriedOut
      (if q.owner ∈ b.accused evidence then p.byzantinePenalty else p.absencePenalty) v b
      (w.stored b) reg.ledger after.ledger := fun q hq => by
    rw [← Book.rate_eq]
    exact hdocket.carriedOut hpaid hq
  refine ⟨p, b, w.stored b, hp, hb, heffects.holds, ?_⟩
  constructor
  case unknownKeys => exact hunknown
  case fired => exact hfired
  case nodup => exact hdocket.nodup
  case punished => exact hpunished
  case outsider =>
    intro q hq hout
    obtain ⟨v, hcarried⟩ := hpunished q hq
    exact hcarried.of_outsider hfunded hout
  case spared => exact fun a ha => hdocket.spared hpaid ha
  case roster => exact (Desk.roster_stored_eq hversion).trans hdocket.roster
  case holders => exact (Desk.holders_stored ..).trans hdocket.purged.holders

/-- A member and one that left with all of its deposit are accused, the member twice; a key is
nobody's; and another member missed a block, when no absence is allowed. -/
theorem firing_does_what_it_reports_of_three :
    let source : ParameterSource :=
      .always { Parameters.standard with seats := 2, absenceLimit := 0 }
    let keyA : ConsensusKey := .ofByte 0
    let keyB : ConsensusKey := .ofByte 1
    let keyD : ConsensusKey := .ofByte 3
    let unknown : ConsensusKey := .ofByte 4
    let l : Ledger := .funded .greatest ["alice", "bob", "carol", "dave"]
    let steps : List Step :=
      [.enroll source 1 "alice" 0 4000, .enroll source 1 "bob" 1 3000,
        .enroll source 1 "carol" 2 2000, .enroll source 1 "dave" 3 1000,
        ⟨source, {}, .revoke 2 ⟨"dave"⟩⟩,
        ⟨source, {}, .countFlags [⟨keyA, true⟩, ⟨keyB, false⟩]⟩]
    let evidence : List Evidence := [⟨keyA, 1, .duplicateVote⟩, ⟨unknown, 1, .duplicateVote⟩,
      ⟨keyD, 1, .lightClientAttack⟩, ⟨keyA, 2, .duplicateVote⟩]
    let report : FiringReport :=
      ⟨[⟨⟨"alice"⟩, .ofCoins 1000, .zero, .ofCoins 3000, true, some ⟨"carol"⟩⟩,
        ⟨⟨"dave"⟩, .zero, .zero, .zero, false, none⟩,
        ⟨⟨"bob"⟩, .ofCoins 200, .zero, .ofCoins 2800, true, none⟩], [unknown]⟩
    ((of l steps).registry.call source {} (.fire 3 evidence)).1 = .ok report ∧
      ∃ p b c, source.inForce 3 = .ok p ∧ (of l steps).registry.store.Holds b ∧
        ((of l steps).registry.call source {} (.fire 3 evidence)).2.store.Holds c ∧
        Verdict p evidence report b c (of l steps).registry.ledger
          ((of l steps).registry.call source {} (.fire 3 evidence)).2.ledger := by
  intro source keyA keyB keyD unknown l steps evidence report
  have hfired : ((of l steps).registry.call source {} (.fire 3 evidence)).1 = .ok report := by
    decide +kernel
  exact ⟨hfired, firing_does_what_it_reports l steps source {} 3 evidence report hfired⟩

end Run

end StakedCommittee
