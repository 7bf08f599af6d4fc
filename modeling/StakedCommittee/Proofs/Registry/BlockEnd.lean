import StakedCommittee.Proofs.Draft.View
import StakedCommittee.Proofs.Registry.Funding
import StakedCommittee.Proofs.Registry.Records
import StakedCommittee.Proofs.Roster.Report

/-! The end of a block. A report reads, and of what it has read it stores nothing but that the
committee is now reported. Where that is so already it makes no write at all, so it cannot meet a
failure of writes, and however often it is repeated it says the same: the key and the power of every
seated member. -/

namespace StakedCommittee

/-! ### Drafts that were only read into -/

/-- Apart from its roster the draft has nothing to store. -/
structure Draft.OnlyRead (d : Draft) : Prop where
  unchanged : ∀ {a l}, d.loaded.get? a = some l → l.changed = false
  unbound : d.bindings = .empty

namespace Draft.OnlyRead

variable {d after : Draft} {s : Store}

theorem ofStored (r : Roster) : (Draft.ofStored r).OnlyRead := ⟨fun h => (nomatch h), rfl⟩

theorem remember (h : d.OnlyRead) (a : Account) (v : Validator) : (d.remember a v).OnlyRead where
  unchanged {c l} hl := by
    rw [Draft.remember, SortedMap.get?_insert] at hl
    split at hl
    · cases hl
      rfl
    · exact h.unchanged hl
  unbound := h.unbound

theorem validator? {a : Account} {found : Option Validator} (h : d.OnlyRead)
    (hread : ((Staging.validator? a).run d).answer s = .ok (found, after)) : after.OnlyRead := by
  rcases Staging.validator?_cases hread with rfl | ⟨v, -, rfl⟩
  · exact h
  · exact h.remember a v

theorem resolve {l : List Account} {table : SortedMap Account (ConsensusKey × Power)}
    (h : d.OnlyRead) (hread : ((Staging.resolve l).run d).answer s = .ok (table, after)) :
    after.OnlyRead := by
  unfold Staging.resolve at hread
  generalize (SortedMap.empty : SortedMap Account (ConsensusKey × Power)) = start at hread
  induction l generalizing d start with
  | nil =>
    cases hread
    exact h
  | cons owner rest ih =>
    rw [List.foldlM_cons] at hread
    obtain ⟨extended, mid, hfirst, hrest⟩ := Staging.answer_bind_eq_ok hread
    obtain ⟨found, looked, hlook, hdone⟩ := Staging.answer_bind_eq_ok hfirst
    have hlooked := h.validator? hlook
    cases found with
    | none | some v =>
      cases hdone
      exact ih hlooked _ hrest

theorem report {updates : List PowerUpdate} (h : d.OnlyRead)
    (hread : (Staging.report.run d).answer s = .ok (updates, after)) : after.OnlyRead := by
  obtain ⟨_, _, hget, hread⟩ := Staging.answer_bind_eq_ok hread
  cases hget
  obtain ⟨table, mid, hresolve, hread⟩ := Staging.answer_bind_eq_ok hread
  have hmid := h.resolve hresolve
  cases hread
  exact ⟨hmid.unchanged, hmid.unbound⟩

/-- With the roster as it is stored there is nothing to write. -/
theorem batch_eq_nil (h : d.OnlyRead) (hstored : d.stored = some d.roster) : d.batch = [] := by
  rw [batch_eq_nil_iff, isEmpty_iff]
  refine ⟨List.eq_nil_iff_forall_not_mem.2 fun ⟨a, v⟩ hv => ?_, by rw [h.unbound]; rfl, hstored⟩
  cases h.unchanged (mem_changedValidators.1 hv)

end Draft.OnlyRead

/-! ### The book at a report -/

theorem Roster.markReported_eq_self {r : Roster} (h : r.reported = r.seated) :
    r.markReported = r := by
  cases r
  cases h
  rfl

/-- Once a committee is reported, the report is the one that follows. -/
theorem Book.report_eq_next {b c : Book} (hvalidators : c.validators = b.validators)
    (hseated : c.roster.seated = b.roster.seated)
    (hreported : c.roster.reported = b.roster.seated) :
    c.roster.report c.entry? = b.roster.markReported.report b.entry? := by
  have hentry : c.entry? = b.entry? := by
    funext a
    unfold entry?
    rw [hvalidators]
  unfold Roster.report Roster.reportees
  rw [hentry, hseated, hreported]
  rfl

/-- A sound book with a record of everybody that was reported. -/
structure Book.Reportable (b : Book) : Prop where
  funded : b.Funded
  indexed : b.Indexed
  recorded : ∀ a ∈ b.roster.reported, ∃ v, b.validators.get? a = some v

namespace Book.Reportable

variable {b after : Book} {p : Parameters}

theorem opening : Book.opening.Reportable :=
  ⟨funded_opening, indexed_opening, fun _ ha => nomatch ha⟩

theorem setVersion (h : b.Reportable) (version : UInt64) :
    (b.setRoster { b.roster with version }).Reportable :=
  ⟨h.funded.setRoster rfl rfl, h.indexed, h.recorded⟩

theorem move (h : b.Reportable) (hmove : b.Move p after) : after.Reportable := by
  refine ⟨h.funded.move hmove, h.indexed.move hmove, fun a ha => ?_⟩
  rw [reported_of_move hmove] at ha
  obtain ⟨v, hv⟩ := h.recorded a ha
  obtain ⟨u, hu, -⟩ := h.indexed.retains hmove a v hv
  exact ⟨u, hu⟩

theorem markReported (h : b.Reportable) : (b.setRoster b.roster.markReported).Reportable := by
  refine ⟨h.funded.setRoster rfl rfl, h.indexed, fun a ha => ?_⟩
  obtain ⟨v, hv, -⟩ := h.funded.exists_of_seated ha
  exact ⟨v, hv⟩

/-- Everybody to be reported is on record. -/
theorem owners_report (h : b.Reportable) :
    (b.roster.report b.entry?).map (·.owner) = b.roster.reportees := by
  refine Roster.owners_report fun a ha => ?_
  have hrecord : ∃ v, b.validators.get? a = some v := by
    rcases Roster.mem_reportees.1 ha with ha | ha
    · obtain ⟨v, hv, -⟩ := h.funded.exists_of_seated ha
      exact ⟨v, hv⟩
    · exact h.recorded a ha
  obtain ⟨v, hv⟩ := hrecord
  simp [Book.entry?, hv]

theorem owners_next (h : b.Reportable) :
    (b.roster.markReported.report b.entry?).map (·.owner) = b.roster.markReported.reportees :=
  h.markReported.owners_report

/-- A report differs from the next one if it tells of somebody that has lost the seat. -/
theorem report_eq_next_iff (h : b.Reportable) :
    b.roster.report b.entry? = b.roster.markReported.report b.entry? ↔
      ∀ a ∈ b.roster.reported, a ∈ b.roster.seated := by
  rw [← Roster.reportees_markReported_iff]
  constructor
  · intro hsame
    have howners := congrArg (List.map (·.owner)) hsame
    rwa [h.owners_report, h.owners_next] at howners
  · intro hsame
    unfold Roster.report
    rw [hsame]
    rfl

/-- The report after a report has each seated member once, in order. -/
theorem sorted_next (h : b.Reportable) :
    ((b.roster.markReported.report b.entry?).map (·.owner)).Pairwise
        (fun a c => KeyOrder.before a c = true) ∧
      ((b.roster.markReported.report b.entry?).map (·.owner)).Perm b.roster.seated := by
  rw [h.owners_next]
  refine ⟨Roster.sorted_reportees _, ?_⟩
  exact (List.perm_ext_iff_of_nodup (Roster.nodup_reportees _) h.funded.nodup_seated).2 fun a =>
    Roster.mem_reportees_markReported

/-- It has their keys and powers, and drops nobody. -/
theorem update_next (h : b.Reportable) {u : PowerUpdate}
    (hu : u ∈ b.roster.markReported.report b.entry?) :
    0 < u.power ∧ ∃ v, b.validators.get? u.owner = some v ∧ u.key = v.key ∧ u.power = v.power := by
  obtain ⟨hmember, x, hentry, hpower⟩ := Roster.mem_report.1 hu
  have hseated : u.owner ∈ b.roster.seated := hmember.elim id id
  obtain ⟨v, hv, hkey, rfl⟩ := Book.entry?_eq_some.1 hentry
  obtain ⟨t, ht, hne⟩ := h.funded.exists_of_seated hseated
  obtain rfl := Option.some.inj (hv.symm.trans ht)
  have hsame : u.power = v.power := hpower.trans (if_pos hseated)
  exact ⟨hsame ▸ UInt64.pos_iff_ne_zero.2 hne, v, hv, hkey.symm, hsame⟩

end Book.Reportable

/-! ### Reports on a reported committee -/

namespace Registry

variable {reg : Registry} {b : Book} {faults : Faults}

/-- With the committee reported a report only needs working reads. -/
theorem call_report_of_reported (hb : reg.store.Holds b)
    (hreported : b.roster.reported = b.roster.seated) (source : ParameterSource)
    (hreads : ∀ n, faults.read n = none) :
    (reg.call source faults .report).1 = .ok (b.roster.report b.entry?) := by
  have hmarked := Roster.markReported_eq_self hreported
  obtain ⟨d, hanswer, hshows⟩ := Call.comesTo_effect hb source .report
  have hrun : (Plan.report).run faults.read reg.store = .ok (b.roster.report b.entry?, d) := by
    rwa [show faults.read = fun _ => none from funext hreads]
  have hread : d.OnlyRead := by
    have hplan : (Plan.report).answer reg.store =
        (Staging.report.run (.ofStored b.roster)).answer reg.store := by
      rw [Plan.report, Plan.ofStaging, Query.answer_bind, hb.answer_roster]
      rfl
    exact (Draft.OnlyRead.ofStored b.roster).report (hplan.symm.trans hanswer)
  have hroster : d.roster = b.roster := hshows.roster.trans hmarked
  have hempty := hread.batch_eq_nil (hshows.stored.trans (congrArg some hroster.symm))
  have hcase := reg.perform_case faults Plan.report
  show (reg.perform faults Plan.report).1 = _
  generalize reg.perform faults Plan.report = result at hcase
  cases hcase with
  | refused run => cases hrun.symm.trans run
  | unpaid run moved =>
    obtain ⟨-, rfl⟩ := Prod.mk.inj (Except.ok.inj (hrun.symm.trans run))
    rw [hshows.transfers] at moved
    cases moved
  | unstored run commit =>
    obtain ⟨-, rfl⟩ := Prod.mk.inj (Except.ok.inj (hrun.symm.trans run))
    have hbook : b.setRoster b.roster.markReported = b := by rw [hmarked]; rfl
    have hfits : d.Fits := hshows.fits (hbook ▸ hb.fits)
    unfold Draft.commit at commit
    rw [if_neg (not_not.2 hfits), if_pos hempty] at commit
    cases commit
  | done run =>
    obtain ⟨rfl, -⟩ := Prod.mk.inj (Except.ok.inj (hrun.symm.trans run))
    rfl

/-- Whether it succeeds or not, such a report leaves every stored byte as it is. -/
theorem store_of_report (hb : reg.store.Holds b)
    (hreported : b.roster.reported = b.roster.seated) (source : ParameterSource)
    (faults : Faults) :
    (reg.call source faults .report).2.store = reg.store := by
  cases houtcome : (reg.call source faults .report).1 with
  | error e => exact call_of_error houtcome
  | ok updates =>
    obtain ⟨w, heffect, heffects⟩ := call_of_ok hb houtcome
    have hbook : w.book = b := by
      cases heffect
      show b.setRoster b.roster.markReported = b
      rw [Roster.markReported_eq_self hreported]
      rfl
    have hstored : w.stored b = b := by rw [Desk.stored, hbook, if_pos rfl]
    exact hb.store_eq (hstored ▸ heffects.holds)

/-- What a report says, and the book that it leaves. -/
theorem holds_report (hb : reg.store.Holds b) {source : ParameterSource}
    {updates : List PowerUpdate} (h : (reg.call source faults .report).1 = .ok updates) :
    updates = b.roster.report b.entry? ∧
      ∃ c, (reg.call source faults .report).2.store.Holds c ∧ c.validators = b.validators ∧
        c.roster.seated = b.roster.seated ∧ c.roster.reported = b.roster.seated := by
  obtain ⟨w, heffect, heffects⟩ := call_of_ok hb h
  cases heffect
  exact ⟨rfl, _, heffects.holds, Desk.validators_stored .., Desk.seated_stored ..,
    Desk.reported_stored ..⟩

end Registry

namespace Run

theorem holds_reportable (l : Ledger) (steps : List Step) :
    ∃ b, (of l steps).registry.store.Holds b ∧ b.Reportable :=
  moves_induction .opening (fun _ n h => h.setVersion n) (fun h hmove => h.move hmove)
    (fun _ h => h.markReported) l steps

/-- However many reports follow, the store stays. -/
theorem store_of_reports {l : Ledger} {steps more : List Step} {b : Book}
    (hb : (of l steps).registry.store.Holds b) (hreported : b.roster.reported = b.roster.seated)
    (h : ∀ s ∈ more, s.call = .report) :
    (of l (steps ++ more)).registry.store = (of l steps).registry.store := by
  induction more using List.reverseRecOn with
  | nil => rw [List.append_nil]
  | append_singleton more s ih =>
    have hsame := ih fun t ht => h t (List.mem_append_left _ ht)
    have hcall := h s (by simp)
    obtain ⟨source, faults, call⟩ := s
    obtain rfl : call = .report := hcall
    rw [← List.append_assoc, of_concat]
    refine (Registry.store_of_report ?_ hreported source faults).trans hsame
    rwa [hsame]

/-- A report that succeeds leaves the same committee, reported. However many reports follow, the
store stays as it is, byte for byte, and whoever reports next is told the same, even if no write
would work: of every seated member the key and the power, which is not zero, in ascending order and
of nobody else. The first report said the same exactly if nobody reported before had lost the
seat. -/
theorem reports_repeat (l : Ledger) (steps : List Step) (source : ParameterSource)
    (faults : Faults) (updates : List PowerUpdate)
    (h : ((of l steps).registry.call source faults .report).1 = .ok updates) :
    let reported := steps ++ [⟨source, faults, .report⟩]
    let store := (of l reported).registry.store
    ∃ r next again, Query.roster.answer (of l steps).registry.store = .ok r ∧
      Query.roster.answer store = .ok next ∧
      next.seated = r.seated ∧ next.reported = next.seated ∧
      (∀ more : List Step, (∀ s ∈ more, s.call = .report) →
        let later := (of l (reported ++ more)).registry
        later.store = store ∧ ∀ (source : ParameterSource) (faults : Faults),
          ((∀ n, faults.read n = none) → (later.call source faults .report).1 = .ok again) ∧
          ∀ found, (later.call source faults .report).1 = .ok found → found = again) ∧
      (again.map (·.owner)).Pairwise (fun a c => KeyOrder.before a c = true) ∧
      (again.map (·.owner)).Perm next.seated ∧
      (∀ u ∈ again, 0 < u.power ∧ ∃ v, (Query.validator? u.owner).answer store = .ok (some v) ∧
        u.key = v.key ∧ u.power = v.power) ∧
      (updates = again ↔ ∀ a ∈ r.reported, a ∈ r.seated) := by
  intro reported store
  obtain ⟨b, hb, hreportable⟩ := holds_reportable l steps
  obtain ⟨rfl, c, hc, hvalidators, hseated, hreported⟩ := Registry.holds_report hb h
  have hlast : of l reported = (of l steps).extend ⟨source, faults, .report⟩ := of_concat ..
  have hstore : store = ((of l steps).registry.call source faults .report).2.store :=
    congrArg (·.registry.store) hlast
  have hc : store.Holds c := hstore ▸ hc
  have hsame : c.roster.reported = c.roster.seated := hreported.trans hseated.symm
  have hagain := Book.report_eq_next hvalidators hseated hreported
  refine ⟨b.roster, c.roster, b.roster.markReported.report b.entry?, hb.answer_roster,
    hc.answer_roster, hseated, hsame, fun more hmore => ?_, hreportable.sorted_next.1,
    hseated ▸ hreportable.sorted_next.2, fun u hu => ?_, hreportable.report_eq_next_iff⟩
  · intro later
    have hstays : later.store = store := store_of_reports hc hsame hmore
    have hlater : later.store.Holds c := hstays ▸ hc
    refine ⟨hstays, fun source faults => ⟨fun hreads => ?_, fun found hfound => ?_⟩⟩
    · rw [Registry.call_report_of_reported hlater hsame source hreads, hagain]
    · rw [(Registry.holds_report hlater hfound).1, hagain]
  · rw [hc.answer_validator?, hvalidators]
    obtain ⟨hpower, v, hv, hkey, hequal⟩ := hreportable.update_next hu
    exact ⟨hpower, v, congrArg Except.ok hv, hkey, hequal⟩

/-- The first report drops a member that has left; the second does not name it any more, and needs
no write. -/
theorem reports_repeat_after_departure :
    let source : ParameterSource := .always .standard
    let l : Ledger := .funded .greatest ["alice", "bob"]
    let keyA : ConsensusKey := .ofByte 0
    let keyB : ConsensusKey := .ofByte 1
    let steps : List Step :=
      [.enroll source 1 "alice" 0 1000, ⟨source, {}, .report⟩,
        ⟨source, {}, .revoke 2 ⟨"alice"⟩⟩,
        .enroll source 2 "bob" 1 2000]
    let reported := steps ++ [⟨source, {}, .report⟩]
    let updates := [⟨⟨"alice"⟩, keyA, 0⟩, ⟨⟨"bob"⟩, keyB, 2000⟩]
    ((of l steps).registry.call source {} .report).1 = .ok updates ∧
      ∃ again, again ≠ updates ∧
        ((of l reported).registry.call source { write := some .missing } .report).1 =
          .ok again := by
  intro source l keyA keyB steps reported updates
  have hreport : ((of l steps).registry.call source {} .report).1 = .ok updates := by
    decide +kernel
  obtain ⟨r, next, again, -, -, -, -, hmore, -, -, hupdates, -⟩ :=
    reports_repeat l steps source {} updates hreport
  refine ⟨hreport, again, fun hsame => ?_, ?_⟩
  · obtain ⟨hpower, -⟩ := hupdates ⟨⟨"alice"⟩, keyA, 0⟩ (by rw [hsame]; simp [updates])
    exact UInt64.lt_irrefl _ hpower
  · obtain ⟨-, hrepeat⟩ := hmore [] (by simp)
    rw [List.append_nil] at hrepeat
    exact (hrepeat source { write := some .missing }).1 fun _ => rfl

end Run

end StakedCommittee
