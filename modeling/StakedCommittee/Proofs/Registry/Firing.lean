import StakedCommittee.Proofs.Registry.Funding

/-! What firing leaves. Evidence is heard first; the members then seated are checked for absences,
each once. Whoever is fired is out of the pool, and a seat that falls free goes to a waiting member,
whose own count is not looked at when the seat came from an absentee: it was not yet seated when the
check began. So a member that was seated late can be over the limit, and nobody else. -/

namespace StakedCommittee

namespace Book

variable {b c : Book} {p : Parameters} {v : Validator} {owner a : Account}

/-- The blocks that an account missed. -/
def absences (b : Book) (a : Account) : UInt64 := ((b.validators.get? a).map (·.absences)).getD 0

theorem absences_of_get? (h : b.validators.get? a = some v) : b.absences a = v.absences := by
  rw [absences, h]
  rfl

/-- The key in a piece of evidence belongs to `a`, who is on record. -/
def Accuses (b : Book) (e : Evidence) (a : Account) : Prop :=
  b.holders.get? e.key = some a ∧ ∃ v, b.validators.get? a = some v

/-- `c` is what removals make of `b`: deposits change and accounts leave, and who is seated and does
not leave stays seated. -/
structure Purged (b c : Book) : Prop where
  holders : c.holders = b.holders
  validators : ∀ a, c.validators.get? a = b.validators.get? a ∨
    ∃ v deposit, b.validators.get? a = some v ∧ c.validators.get? a = some { v with deposit }
  pool : ∀ a ∈ c.roster.pool, a ∈ b.roster.pool
  seated : ∀ a ∈ b.roster.seated, a ∈ c.roster.pool → a ∈ c.roster.seated

namespace Purged

theorem refl (b : Book) : b.Purged b :=
  ⟨rfl, fun _ => .inl rfl, fun _ h => h, fun _ h _ => h⟩

theorem absences_eq (h : b.Purged c) : c.absences = b.absences := by
  funext a
  unfold absences
  rcases h.validators a with hsame | ⟨v, deposit, hv, hc⟩
  · rw [hsame]
  · rw [hv, hc]
    rfl

theorem recorded_iff (h : b.Purged c) (a : Account) :
    (∃ v, c.validators.get? a = some v) ↔ ∃ v, b.validators.get? a = some v := by
  rcases h.validators a with hsame | ⟨v, deposit, hv, hc⟩
  · rw [hsame]
  · exact ⟨fun _ => ⟨v, hv⟩, fun _ => ⟨_, hc⟩⟩

theorem put (h : b.Purged c) (hv : c.validators.get? v.owner = some v) (deposit : Amount) :
    b.Purged (c.put { v with deposit }) where
  holders := h.holders
  validators a := by
    rw [get?_put]
    split
    · subst_vars
      right
      rcases h.validators v.owner with hsame | ⟨u, _, hu, hc⟩
      · exact ⟨v, deposit, hsame ▸ hv, rfl⟩
      · rw [hc] at hv
        cases hv
        exact ⟨u, deposit, hu, rfl⟩
    · exact h.validators a
  pool := h.pool
  seated := h.seated

theorem dismiss (h : b.Purged c) (p : Parameters) (owner : Account) :
    b.Purged (c.dismiss p owner).2 where
  holders := h.holders
  validators := h.validators
  pool a ha := by
    unfold Book.dismiss at ha
    rw [roster_setRoster, Roster.pool_release] at ha
    exact h.pool a (List.mem_filter.1 ha).1
  seated a ha hstays := by
    unfold Book.dismiss at hstays ⊢
    rw [roster_setRoster, Roster.pool_release] at hstays
    obtain ⟨hpool, hne⟩ := List.mem_filter.1 hstays
    rw [roster_setRoster, Roster.seated_release]
    exact List.mem_append_left _ (List.mem_filter.2 ⟨h.seated a ha hpool, hne⟩)

end Purged

/-- Whoever has a seat after a dismissal had it before, or waited and was promoted. -/
theorem mem_seated_dismiss (h : a ∈ (b.dismiss p owner).2.roster.seated) :
    a ∈ b.roster.seated ∨ a ∈ b.roster.pool ∧ a ∉ b.roster.seated ∧
      (b.dismiss p owner).1.promoted = some a := by
  unfold dismiss at h ⊢
  rw [roster_setRoster, Roster.seated_release, List.mem_append, Option.mem_toList] at h
  rcases h with h | h
  · exact .inl (List.mem_filter.1 h).1
  · obtain ⟨hpool, -, hseated, -⟩ := Roster.mem_of_promoted h
    exact .inr ⟨hpool, hseated, h⟩

end Book

namespace Desk

open Book

variable {b : Book} {w : Desk} {p : Parameters} {x : FiringReport × Desk} {v : Validator}
  {owner a : Account}

/-- A validator in the pool that is punished with removal leaves it. -/
theorem punish_always_of_member (w : Desk) (p : Parameters) (penalty : Amount)
    (h : v.owner ∈ w.book.roster.pool) :
    (w.punish p v penalty .always).2.book =
        ((w.book.put { v with deposit := .zero }).dismiss p v.owner).2 ∧
      (w.punish p v penalty .always).1.promoted =
        ((w.book.put { v with deposit := .zero }).dismiss p v.owner).1.promoted := by
  rw [punish, if_pos ⟨h, .inl rfl⟩]
  refine ⟨book_expel w p (v.slash penalty), ?_⟩
  simp only [expel, dismiss, book_refund]
  rfl

/-- One outside of the pool loses deposit only. -/
theorem punish_always_of_outsider (w : Desk) (p : Parameters) (penalty : Amount)
    (h : v.owner ∉ w.book.roster.pool) :
    (w.punish p v penalty .always).2.book = w.book.put (v.slash penalty) := by
  rw [punish, if_neg fun hremoves => h hremoves.1]
  simp only [h, ↓reduceIte]
  rfl

theorem owner_punish (w : Desk) (p : Parameters) (v : Validator) (penalty : Amount)
    (removal : Removal) : (w.punish p v penalty removal).1.owner = v.owner := by
  unfold punish
  split <;> rfl

/-- A stage of a firing that began with `b`: whoever was fired so far was on record and is out of
the pool. -/
structure Firing (b : Book) (x : FiringReport × Desk) : Prop where
  purged : b.Purged x.2.book
  funded : x.2.book.Funded
  gone : ∀ a ∈ x.1.fired, a ∉ x.2.book.roster.pool
  recorded : ∀ a ∈ x.1.fired, ∃ v, b.validators.get? a = some v

theorem fired_fireOne (p : Parameters) (x : FiringReport × Desk) (v : Validator)
    (penalty : Amount) : (fireOne p x v penalty).1.fired = x.1.fired ++ [v.owner] := by
  simp [fireOne, FiringReport.fired, FiringReport.add, owner_punish]

theorem mem_fired_fireOne (p : Parameters) (x : FiringReport × Desk) (v : Validator)
    (penalty : Amount) : a ∈ (fireOne p x v penalty).1.fired ↔ a ∈ x.1.fired ∨ a = v.owner := by
  rw [fired_fireOne, List.mem_append, List.mem_singleton]

namespace Firing

theorem start (h : w.book.Funded) : Firing w.book ({}, w) where
  purged := .refl w.book
  funded := h
  gone a ha := by cases ha
  recorded a ha := by cases ha

theorem not_seated (hx : Firing b x) (ha : a ∈ x.1.fired) : a ∉ x.2.book.roster.seated :=
  fun hseated => hx.gone a ha (hx.funded.pool_of_seated a hseated)

theorem fireOne (hx : Firing b x) (p : Parameters) (penalty : Amount)
    (hv : x.2.book.validators.get? v.owner = some v) : Firing b (Desk.fireOne p x v penalty) := by
  have hfunded := hx.funded.move (x.2.move_of_punish p penalty .always hv)
  have hrecorded : ∀ a ∈ (Desk.fireOne p x v penalty).1.fired,
      ∃ u, b.validators.get? a = some u := by
    intro a ha
    rcases (mem_fired_fireOne p x v penalty).1 ha with ha | rfl
    · exact hx.recorded a ha
    · exact (hx.purged.recorded_iff v.owner).1 ⟨v, hv⟩
  by_cases hmember : v.owner ∈ x.2.book.roster.pool
  · have hbook := (x.2.punish_always_of_member p penalty hmember).1
    refine ⟨?_, hfunded, fun a ha => ?_, hrecorded⟩
    · show b.Purged (x.2.punish p v penalty .always).2.book
      rw [hbook]
      exact (hx.purged.put hv .zero).dismiss p v.owner
    · show a ∉ (x.2.punish p v penalty .always).2.book.roster.pool
      rw [hbook, Book.dismiss, roster_setRoster, Roster.pool_release, List.mem_filter]
      rintro ⟨hpool, hne⟩
      rcases (mem_fired_fireOne p x v penalty).1 ha with ha | rfl
      · exact hx.gone a ha hpool
      · simp at hne
  · have hbook := x.2.punish_always_of_outsider p penalty hmember
    refine ⟨?_, hfunded, fun a ha => ?_, hrecorded⟩
    · show b.Purged (x.2.punish p v penalty .always).2.book
      rw [hbook]
      exact hx.purged.put hv _
    · show a ∉ (x.2.punish p v penalty .always).2.book.roster.pool
      rw [hbook]
      rcases (mem_fired_fireOne p x v penalty).1 ha with ha | rfl
      · exact hx.gone a ha
      · exact hmember

/-- Nobody gets a seat but the waiting member that is promoted. -/
theorem mem_seated_fireOne {penalty : Amount}
    (ha : a ∈ (Desk.fireOne p x v penalty).2.book.roster.seated) :
    a ∈ x.2.book.roster.seated ∨ a ∈ x.2.book.roster.pool ∧ a ∉ x.2.book.roster.seated ∧
      (x.2.punish p v penalty .always).1.promoted = some a := by
  have ha : a ∈ (x.2.punish p v penalty .always).2.book.roster.seated := ha
  by_cases hmember : v.owner ∈ x.2.book.roster.pool
  · obtain ⟨hbook, hpromoted⟩ := x.2.punish_always_of_member p penalty hmember
    rw [hbook] at ha
    rw [hpromoted]
    exact mem_seated_dismiss ha
  · rw [x.2.punish_always_of_outsider p penalty hmember] at ha
    exact .inl ha

theorem unknown (hx : Firing b x) (key : ConsensusKey) : Firing b (x.1.addUnknown key, x.2) :=
  ⟨hx.purged, hx.funded, hx.gone, hx.recorded⟩

theorem hearEvidence (hx : Firing b x) (p : Parameters) (e : Evidence) :
    Firing b (Desk.hearEvidence p x e) :=
  preserved_hearEvidence (fun _ key h => h.unknown key) (fun _ _ penalty h => h.fireOne p penalty)
    hx e

theorem heard (hx : Firing b x) (p : Parameters) (evidence : List Evidence) :
    Firing b (evidence.foldl (Desk.hearEvidence p) x) :=
  preserved_heard (fun _ key h => h.unknown key) (fun _ _ penalty h => h.fireOne p penalty) hx
    evidence

theorem checkAbsences (hx : Firing b x) (p : Parameters) (owner : Account) :
    Firing b (Desk.checkAbsences p x owner) :=
  preserved_checkAbsences (fun _ _ penalty h => h.fireOne p penalty) hx owner

/-! ### Evidence -/

/-- Whose key it is was settled when the firing began. -/
theorem holder_of_keyholder? (hx : Firing b x) {key : ConsensusKey}
    (h : x.2.keyholder? key = some v) : b.holders.get? key = some v.owner := by
  obtain ⟨owner, howner, hv⟩ := Option.bind_eq_some_iff.1 h
  obtain rfl := x.2.book.owner_eq hv
  rwa [hx.purged.holders] at howner

theorem mem_fired_hearEvidence (hx : Firing b x) (p : Parameters) (e : Evidence) :
    a ∈ (Desk.hearEvidence p x e).1.fired ↔ a ∈ x.1.fired ∨ b.Accuses e a := by
  have hcase := hear_case p x e
  generalize Desk.hearEvidence p x e = y at hcase
  have haccused {v : Validator} (holder : x.2.keyholder? e.key = some v) :
      b.Accuses e a ↔ a = v.owner := by
    have howner := hx.holder_of_keyholder? holder
    refine ⟨fun h => Option.some.inj (h.1.symm.trans howner), ?_⟩
    rintro rfl
    exact ⟨howner, (hx.purged.recorded_iff _).1 ⟨v, get?_of_keyholder? holder⟩⟩
  cases hcase with
  | unknown holder =>
    refine (or_iff_left fun h => ?_).symm
    obtain ⟨v, hv⟩ := (hx.purged.recorded_iff a).2 h.2
    rw [keyholder?, hx.purged.holders, h.1, Option.bind_some, hv] at holder
    cases holder
  | again holder old =>
    rw [haccused holder]
    exact (or_iff_left_of_imp fun h => h ▸ old).symm
  | fires holder new => rw [mem_fired_fireOne, haccused holder]

/-- All that were accused are fired once the evidence is heard, and nobody else. -/
theorem mem_fired_heard (hx : Firing b x) (p : Parameters) (evidence : List Evidence) :
    a ∈ (evidence.foldl (Desk.hearEvidence p) x).1.fired ↔
      a ∈ x.1.fired ∨ ∃ e ∈ evidence, b.Accuses e a := by
  induction evidence generalizing x with
  | nil => simp
  | cons first rest ih =>
    rw [List.foldl_cons, ih (hx.hearEvidence p first), hx.mem_fired_hearEvidence]
    simp [or_assoc]

/-! ### Absences -/

theorem mem_fired_checkAbsences (hx : Firing b x) (p : Parameters) (owner : Account) :
    a ∈ (Desk.checkAbsences p x owner).1.fired ↔
      a ∈ x.1.fired ∨ a = owner ∧ p.absenceLimit < b.absences a := by
  rw [← hx.purged.absences_eq]
  have hcase := check_case p x owner
  generalize Desk.checkAbsences p x owner = y at hcase
  cases hcase with
  | unknown found =>
    refine (or_iff_left ?_).symm
    rintro ⟨rfl, hover⟩
    rw [absences, found] at hover
    exact UInt64.not_lt_zero hover
  | spared found spared =>
    refine (or_iff_left_of_imp ?_).symm
    rintro ⟨rfl, hover⟩
    rw [absences_of_get? found] at hover
    exact spared.resolve_right (UInt64.not_le.2 hover)
  | @fires v found new exceeds =>
    rw [mem_fired_fireOne]
    refine or_congr_right ⟨?_, And.left⟩
    rintro rfl
    exact ⟨rfl, (absences_of_get? found).symm ▸ exceeds⟩

/-- Of those checked, the ones over the limit are fired. -/
theorem mem_fired_checked (hx : Firing b x) (p : Parameters) (checked : List Account) :
    a ∈ (checked.foldl (Desk.checkAbsences p) x).1.fired ↔
      a ∈ x.1.fired ∨ a ∈ checked ∧ p.absenceLimit < b.absences a := by
  induction checked generalizing x with
  | nil => simp
  | cons owner rest ih =>
    rw [List.foldl_cons, ih (hx.checkAbsences p owner), hx.mem_fired_checkAbsences, List.mem_cons,
      or_and_right, or_assoc]

theorem punishments_checkAbsences (p : Parameters) (x : FiringReport × Desk) (owner : Account) :
    x.1.punishments <+: (Desk.checkAbsences p x owner).1.punishments :=
  preserved_checkAbsences (P := fun y => x.1.punishments <+: y.1.punishments)
    (fun _ _ _ h _ => h.trans (List.prefix_append ..)) (List.prefix_refl _) owner

/-- `a` had no seat in `b` and was promoted for one that is not among the accused. -/
def SeatedLate (b : Book) (accused : List Account) (x : FiringReport × Desk) (a : Account) : Prop :=
  a ∈ b.roster.pool ∧ a ∉ b.roster.seated ∧
    ∃ q ∈ x.1.punishments, q.promoted = some a ∧ q.owner ∉ accused

/-- The check of one member finds it within the limit or takes its seat; a new member was seated
late. -/
theorem mem_seated_checkAbsences (hx : Firing b x) {accused : List Account}
    (haccused : ∀ c ∈ accused, c ∈ x.1.fired)
    (ha : a ∈ (Desk.checkAbsences p x owner).2.book.roster.seated) :
    a ∈ x.2.book.roster.seated ∧ (a = owner → b.absences a ≤ p.absenceLimit) ∨
      SeatedLate b accused (Desk.checkAbsences p x owner) a := by
  rw [← hx.purged.absences_eq]
  have hafter := hx.checkAbsences p owner
  have hcase := check_case p x owner
  generalize Desk.checkAbsences p x owner = y at ha hafter hcase ⊢
  cases hcase with
  | unknown found =>
    refine .inl ⟨ha, ?_⟩
    rintro rfl
    rw [absences, found]
    exact UInt64.zero_le
  | spared found spared =>
    refine .inl ⟨ha, ?_⟩
    rintro rfl
    rw [absences_of_get? found]
    exact spared.resolve_left fun hfired => hx.not_seated hfired ha
  | fires found new exceeds =>
    rcases mem_seated_fireOne ha with hseated | ⟨hpool, hnew, hpromoted⟩
    · refine .inl ⟨hseated, ?_⟩
      rintro rfl
      exact absurd ha (hafter.not_seated ((mem_fired_fireOne ..).2 (.inr rfl)))
    · refine .inr ⟨hx.purged.pool a hpool, fun hold => hnew (hx.purged.seated a hold hpool),
        _, List.mem_append_right _ (.head _), hpromoted, ?_⟩
      rw [owner_punish]
      exact fun hin => new (haccused _ hin)

/-- A check of all members leaves nobody over the limit but those seated late. -/
theorem mem_seated_of_checked (hx : Firing b x) {accused checked : List Account}
    (haccused : ∀ c ∈ accused, c ∈ x.1.fired)
    (hseated : ∀ a ∈ x.2.book.roster.seated,
      a ∈ checked ∨ b.absences a ≤ p.absenceLimit ∨ SeatedLate b accused x a)
    (ha : a ∈ (checked.foldl (Desk.checkAbsences p) x).2.book.roster.seated) :
    b.absences a ≤ p.absenceLimit ∨
      SeatedLate b accused (checked.foldl (Desk.checkAbsences p) x) a := by
  -- Along the list, a member is still to be checked, within the limit, or seated late.
  induction checked generalizing x with
  | nil => exact (hseated a ha).resolve_left (by simp)
  | cons owner rest ih =>
    have hgrows := punishments_checkAbsences p x owner
    refine ih (hx.checkAbsences p owner) (fun c hc => ?_) (fun c hc => ?_) ha
    · exact ((hgrows.map _).subset (haccused c hc))
    · rcases hx.mem_seated_checkAbsences haccused hc with ⟨hold, howner⟩ | hlate
      · rcases hseated c hold with hin | hlimit | ⟨hpool, hnew, q, hq, hpromoted⟩
        · rcases List.mem_cons.1 hin with rfl | hin
          · exact .inr (.inl (howner rfl))
          · exact .inl hin
        · exact .inr (.inl hlimit)
        · exact .inr (.inr ⟨hpool, hnew, q, hgrows.subset hq, hpromoted⟩)
      · exact .inr (.inr hlate)

/-- A member after firing is on record, with the absences that it had before. -/
theorem exists_of_seated (hx : Firing b x) {s : Store} {c : Book} (hs : s.Holds (x.2.stored c))
    (ha : a ∈ x.2.book.roster.seated) :
    ∃ v, (Query.validator? a).answer s = .ok (some v) ∧ v.absences = b.absences a := by
  obtain ⟨v, hv, -⟩ := hx.funded.exists_of_seated ha
  refine ⟨v, ?_, ?_⟩
  · rw [hs.answer_validator? a, Desk.validators_stored, hv]
  · rw [← hx.purged.absences_eq, absences_of_get? hv]

end Firing

theorem firing_fire (h : w.book.Funded) (p : Parameters) (evidence : List Evidence) :
    Firing w.book (w.fire p evidence) :=
  fire_induction (fun _ key hx => hx.unknown key) (fun _ _ penalty hx => hx.fireOne p penalty)
    (.start h) evidence

/-- After firing a member is within the limit, or it waited before and was promoted for one that
missed too many blocks. -/
theorem mem_seated_fire {evidence : List Evidence} (h : w.book.Funded)
    (ha : a ∈ (w.fire p evidence).2.book.roster.seated) :
    w.book.absences a ≤ p.absenceLimit ∨ a ∈ w.book.roster.pool ∧ a ∉ w.book.roster.seated ∧
      ∃ q ∈ (w.fire p evidence).1.punishments, q.promoted = some a ∧
        ∀ e ∈ evidence, w.book.holders.get? e.key ≠ some q.owner := by
  have hheard := (Firing.start h).heard p evidence
  refine (hheard.mem_seated_of_checked (fun _ hc => hc) (fun _ hc => .inl hc) ha).imp_right ?_
  rintro ⟨hpool, hnew, q, hq, hpromoted, hspared⟩
  refine ⟨hpool, hnew, q, hq, hpromoted, fun e he hholder => ?_⟩
  obtain ⟨v, hv⟩ := (firing_fire h p evidence).recorded q.owner (List.mem_map_of_mem hq)
  exact hspared (((Firing.start h).mem_fired_heard p evidence).2 (.inr ⟨e, he, hholder, v, hv⟩))

end Desk

/-- A successful firing has the effect that it has on a desk. -/
theorem Registry.effects_of_fired {reg : Registry} {source : ParameterSource} {faults : Faults}
    {height : Height} {evidence : List Evidence} {b : Book} (hb : reg.store.Holds b)
    {report : FiringReport} (h : (reg.call source faults (.fire height evidence)).1 = .ok report) :
    ∃ (p : Parameters) (w : Desk), source.inForce height = .ok p ∧
      Desk.fire ⟨b, []⟩ p evidence = (report, w) ∧
      reg.Effects faults b w (reg.call source faults (.fire height evidence)).2 := by
  obtain ⟨w, heffect, heffects⟩ := call_of_ok hb h
  obtain ⟨p, hp⟩ := Call.exists_goesBy heffect
  have hp := hp height rfl
  rw [Call.effect, ParameterSource.whenInForce_eq hp] at heffect
  exact ⟨p, w, hp, Except.ok.inj heffect, heffects⟩

/-- A successful firing stores what it comes to under the parameters of its height. -/
theorem Registry.fired_of_ok {reg : Registry} {source : ParameterSource} {faults : Faults}
    {height : Height} {evidence : List Evidence} {b : Book} (hb : reg.store.Holds b)
    {report : FiringReport} (h : (reg.call source faults (.fire height evidence)).1 = .ok report) :
    ∃ (p : Parameters) (w : Desk), source height = .ok p ∧
      Desk.fire ⟨b, []⟩ p evidence = (report, w) ∧
      (reg.call source faults (.fire height evidence)).2.store.Holds (w.stored b) := by
  obtain ⟨p, w, hp, hfire, heffects⟩ := effects_of_fired hb h
  exact ⟨p, w, (ParameterSource.inForce_eq_ok hp).1, hfire, heffects.holds⟩

namespace Run

/-- After firing, a member is within the limit on absences, or it waited before and took the seat
of one that was fired for absences; so all members are within the limit if all who waited were. -/
theorem absentees_fired (l : Ledger) (steps : List Step) (source : ParameterSource)
    (faults : Faults) (height : Height) (evidence : List Evidence) (report : FiringReport)
    (h : ((of l steps).registry.call source faults (.fire height evidence)).1 = .ok report) :
    let before := (of l steps).registry.store
    let after := ((of l steps).registry.call source faults (.fire height evidence)).2.store
    ∃ (p : Parameters) (r next : Roster), source height = .ok p ∧
      Query.roster.answer before = .ok r ∧ Query.roster.answer after = .ok next ∧
      (∀ a ∈ next.seated, ∃ v, (Query.validator? a).answer after = .ok (some v) ∧
        (v.absences ≤ p.absenceLimit ∨ a ∈ r.pool ∧ a ∉ r.seated ∧
          ∃ q ∈ report.punishments, q.promoted = some a ∧
            ∀ e ∈ evidence, (Query.holder? e.key).answer before ≠ .ok (some q.owner))) ∧
      ((∀ a ∈ r.pool, a ∉ r.seated → ∀ v, (Query.validator? a).answer before = .ok (some v) →
          v.absences ≤ p.absenceLimit) →
        ∀ a ∈ next.seated, ∃ v, (Query.validator? a).answer after = .ok (some v) ∧
          v.absences ≤ p.absenceLimit) := by
  intro before after
  obtain ⟨b, hb, hfunded⟩ := holds_funded l steps
  obtain ⟨p, w, hp, hfire, hafter⟩ := Registry.fired_of_ok hb h
  have hfiring := Desk.firing_fire (w := ⟨b, []⟩) hfunded p evidence
  have hseated {a : Account} (ha : a ∈ (Desk.fire ⟨b, []⟩ p evidence).2.book.roster.seated) :=
    Desk.mem_seated_fire hfunded ha
  rw [hfire] at hfiring hseated
  refine ⟨p, b.roster, _, hp, hb.answer_roster, hafter.answer_roster, ?_, ?_⟩
  · intro a ha
    rw [Desk.seated_stored] at ha
    obtain ⟨v, hv, habsences⟩ := hfiring.exists_of_seated hafter ha
    refine ⟨v, hv, ?_⟩
    rw [habsences]
    simp only [before, hb.answer_holder?, ne_eq, Except.ok.injEq]
    exact hseated ha
  · intro hwaiting a ha
    rw [Desk.seated_stored] at ha
    obtain ⟨v, hv, habsences⟩ := hfiring.exists_of_seated hafter ha
    refine ⟨v, hv, ?_⟩
    rw [habsences]
    rcases hseated ha with hlimit | ⟨hpool, hnew, -⟩
    · exact hlimit
    · -- It waited before, within the limit, and firing counts nothing.
      obtain ⟨u, hu, -⟩ := Book.exists_of_power_ne_zero (hfunded.member a hpool)
      rw [Book.absences_of_get? hu]
      exact hwaiting a hpool hnew u (by rw [hb.answer_validator? a, hu])

/-- One that waits without absences takes the seat of an offender. -/
theorem absentees_fired_past_evidence :
    let source : ParameterSource := .always { Parameters.standard with seats := 1 }
    let keyA : ConsensusKey := .ofByte 0
    let l : Ledger := .funded .greatest ["alice", "bob"]
    let steps : List Step :=
      [.enroll source 1 "alice" 0 3000, .enroll source 1 "bob" 1 1000]
    let evidence : List Evidence := [⟨keyA, 1, .duplicateVote⟩]
    ((of l steps).registry.call source {} (.fire 2 evidence)).1 = .ok
        ⟨[⟨⟨"alice"⟩, .ofCoins 1000, .zero, .ofCoins 2000, true, some ⟨"bob"⟩⟩], []⟩ ∧
      ∃ p next, source 2 = .ok p ∧
        Query.roster.answer ((of l steps).registry.call source {} (.fire 2 evidence)).2.store =
          .ok next ∧
        ∀ a ∈ next.seated, ∃ v, (Query.validator? a).answer
          ((of l steps).registry.call source {} (.fire 2 evidence)).2.store = .ok (some v) ∧
          v.absences ≤ p.absenceLimit := by
  intro source keyA l steps evidence
  have hfired : ((of l steps).registry.call source {} (.fire 2 evidence)).1 = .ok
      ⟨[⟨⟨"alice"⟩, .ofCoins 1000, .zero, .ofCoins 2000, true, some ⟨"bob"⟩⟩], []⟩ := by
    decide +kernel
  obtain ⟨p, r, next, hp, hr, hnext, -, hclean⟩ :=
    absentees_fired l steps source {} 2 evidence _ hfired
  refine ⟨hfired, p, next, hp, hnext, hclean fun a hpool hnew v hv => ?_⟩
  have hroster : (Query.roster.answer (of l steps).registry.store).map
      (fun r => (r.pool, r.seated)) = .ok ([⟨"alice"⟩, ⟨"bob"⟩], [⟨"alice"⟩]) := by decide +kernel
  have hbob : ((Query.validator? ⟨"bob"⟩).answer (of l steps).registry.store).map
      (Option.map (·.absences)) = .ok (some 0) := by decide +kernel
  rw [hr] at hroster
  obtain ⟨hmembers, hseated⟩ := Prod.mk.inj (Except.ok.inj hroster)
  rw [hmembers] at hpool
  rw [hseated] at hnew
  obtain rfl | rfl : a = ⟨"alice"⟩ ∨ a = ⟨"bob"⟩ := by simpa using hpool
  · exact absurd (.head _) hnew
  · rw [hv] at hbob
    rw [show v.absences = 0 from Option.some.inj (Except.ok.inj hbob)]
    exact UInt64.zero_le

/-- The only member and the one it pushed out both missed a block, and no absence is allowed. The
member is fired; the other takes the seat with its absence. -/
theorem promoted_absentee_stays :
    let source : ParameterSource :=
      .always { Parameters.standard with seats := 1, absenceLimit := 0 }
    let keyA : ConsensusKey := .ofByte 0
    let keyB : ConsensusKey := .ofByte 1
    let l : Ledger := .funded .greatest ["alice", "bob"]
    let steps : List Step :=
      [.enroll source 1 "alice" 0 1000,
        ⟨source, {}, .countFlags [⟨keyA, false⟩]⟩,
        .enroll source 2 "bob" 1 2000,
        ⟨source, {}, .countFlags [⟨keyB, false⟩]⟩]
    let fired := (of l steps).registry.call source {} (.fire 3 [])
    fired.1 = .ok ⟨[⟨⟨"bob"⟩, .ofCoins 200, .zero, .ofCoins 1800, true, some ⟨"alice"⟩⟩], []⟩ ∧
      ∃ p next v, source 3 = .ok p ∧ Query.roster.answer fired.2.store = .ok next ∧
        ⟨"alice"⟩ ∈ next.seated ∧
        (Query.validator? ⟨"alice"⟩).answer fired.2.store = .ok (some v) ∧
        ¬ v.absences ≤ p.absenceLimit := by
  intro source keyA keyB l steps fired
  refine ⟨by decide +kernel, _, ⟨4, [⟨"alice"⟩], [⟨"alice"⟩], [], 1000, some ⟨"alice"⟩⟩,
    ⟨⟨"alice"⟩, keyA, .ofCoins 1000, 1, 0, "", 1⟩, rfl, ?_, ?_, ?_, ?_⟩
  all_goals decide +kernel

end Run

end StakedCommittee
