import StakedCommittee.Roster.Report
import StakedCommittee.Proofs.Sample
import StakedCommittee.Proofs.SortedMap.Building

/-! What a report says: one update for every member, seated or reported before, that is on record,
in the order of the owners. Which members these are decides it, in whatever order and however often
they are listed. Where it is told of nobody but the seated it says the same as the report after it.
-/

namespace StakedCommittee

namespace Roster

variable {r x : Roster} {resolve : Account → Option (ConsensusKey × Power)}

theorem mem_reportees {a : Account} : a ∈ r.reportees ↔ a ∈ r.seated ∨ a ∈ r.reported := by
  rw [reportees, SortedMap.mem_keys_ofList]
  simp

theorem sorted_reportees (r : Roster) :
    r.reportees.Pairwise fun a c => KeyOrder.before a c = true := SortedMap.sorted_keys _

theorem nodup_reportees (r : Roster) : r.reportees.Nodup := SortedMap.nodup_keys _

/-- Who is reported decides in which order. -/
theorem reportees_congr (h : ∀ a, a ∈ r.reportees ↔ a ∈ x.reportees) :
    r.reportees = x.reportees := by
  have hperm := (List.perm_ext_iff_of_nodup r.nodup_reportees x.nodup_reportees).2 h
  refine hperm.eq_of_pairwise (fun a c _ _ hac hca => ?_) r.sorted_reportees x.sorted_reportees
  have hself := KeyOrder.trans hac hca
  rw [KeyOrder.irrefl] at hself
  cases hself

theorem mem_reportees_markReported {a : Account} :
    a ∈ r.markReported.reportees ↔ a ∈ r.seated := by
  rw [mem_reportees]
  exact or_self_iff

/-- A report after a report is on the seated only. -/
theorem reportees_markReported_iff :
    r.reportees = r.markReported.reportees ↔ ∀ a ∈ r.reported, a ∈ r.seated := by
  constructor
  · intro h a ha
    rw [← mem_reportees_markReported, ← h]
    exact mem_reportees.2 (.inr ha)
  · intro h
    refine reportees_congr fun a => ?_
    rw [mem_reportees, mem_reportees_markReported]
    exact or_iff_left_of_imp (h a)

/-- There is one update for each member on record. -/
theorem owners_report_eq_filter (r : Roster)
    (resolve : Account → Option (ConsensusKey × Power)) :
    (r.report resolve).map (·.owner) = r.reportees.filter fun a => (resolve a).isSome := by
  rw [report, List.map_filterMap, ← List.filterMap_eq_filter]
  refine List.filterMap_congr fun a _ => ?_
  cases h : resolve a with
  | none => simp [Option.guard, h]
  | some entry => simp [Option.guard, h]

/-- With everybody on record there is one update for each. -/
theorem owners_report (h : ∀ a ∈ r.reportees, (resolve a).isSome) :
    (r.report resolve).map (·.owner) = r.reportees := by
  rw [owners_report_eq_filter, List.filter_eq_self]
  exact h

theorem mem_report {u : PowerUpdate} :
    u ∈ r.report resolve ↔ (u.owner ∈ r.seated ∨ u.owner ∈ r.reported) ∧
      ∃ power, resolve u.owner = some (u.key, power) ∧
        u.power = if u.owner ∈ r.seated then power else 0 := by
  obtain ⟨owner, key, power⟩ := u
  rw [report, List.mem_filterMap]
  constructor
  · rintro ⟨a, ha, hu⟩
    obtain ⟨⟨k, x⟩, hresolve, heq⟩ := Option.map_eq_some_iff.1 hu
    cases heq
    exact ⟨mem_reportees.1 ha, x, hresolve, rfl⟩
  · rintro ⟨ha, x, hresolve, hpower⟩
    refine ⟨owner, mem_reportees.2 ha, ?_⟩
    dsimp only at hresolve hpower
    rw [hresolve, hpower]
    rfl

/-- Who is seated and who was reported decides a report. -/
theorem report_eq_of_members (hseated : ∀ a, a ∈ x.seated ↔ a ∈ r.seated)
    (hreported : ∀ a, a ∈ x.reported ↔ a ∈ r.reported)
    (resolve : Account → Option (ConsensusKey × Power)) : x.report resolve = r.report resolve := by
  have hmembers : x.reportees = r.reportees :=
    reportees_congr fun a => by rw [mem_reportees, mem_reportees, hseated, hreported]
  unfold report
  simp only [hmembers, hseated]

/-- A report has one update for each account that is seated or was reported and that `resolve`
knows, and no other, in strictly ascending order of the accounts. The update has the key that was
looked up, and the power that was looked up if the account is seated, or else zero. Neither the
order nor the repeats of those seated and of those reported matter, and nor does anything else in
the roster. -/
theorem report_exact (r : Roster) (resolve : Account → Option (ConsensusKey × Power)) :
    ((r.report resolve).map (·.owner)).Pairwise (fun a c => KeyOrder.before a c = true) ∧
    (∀ a, a ∈ (r.report resolve).map (·.owner) ↔
      (a ∈ r.seated ∨ a ∈ r.reported) ∧ (resolve a).isSome) ∧
    (∀ u ∈ r.report resolve, ∃ power, resolve u.owner = some (u.key, power) ∧
      u.power = if u.owner ∈ r.seated then power else 0) ∧
    ∀ x : Roster, (∀ a, a ∈ x.seated ↔ a ∈ r.seated) → (∀ a, a ∈ x.reported ↔ a ∈ r.reported) →
      x.report resolve = r.report resolve := by
  refine ⟨?_, fun a => ?_, fun u hu => (mem_report.1 hu).2,
    fun x hseated hreported => report_eq_of_members hseated hreported resolve⟩
  · rw [owners_report_eq_filter]
    exact r.sorted_reportees.filter _
  · rw [owners_report_eq_filter, List.mem_filter, mem_reportees]

/-- One has left, one is on no record, and two rosters list the same members differently. -/
theorem report_exact_for_reordered :
    let key : ConsensusKey := .ofByte 0
    let resolve : Account → Option (ConsensusKey × Power) :=
      fun a => if a = ⟨"zed"⟩ then none else some (key, 10)
    let r : Roster := { seated := [⟨"cal"⟩, ⟨"amy"⟩], reported := [⟨"amy"⟩, ⟨"ben"⟩, ⟨"zed"⟩] }
    let x : Roster := { seated := [⟨"amy"⟩, ⟨"cal"⟩, ⟨"amy"⟩],
                        reported := [⟨"zed"⟩, ⟨"ben"⟩, ⟨"amy"⟩, ⟨"zed"⟩] }
    r.report resolve = [⟨⟨"amy"⟩, key, 10⟩, ⟨⟨"ben"⟩, key, 0⟩, ⟨⟨"cal"⟩, key, 10⟩] ∧
    (∀ a, a ∈ x.seated ↔ a ∈ r.seated) ∧ (∀ a, a ∈ x.reported ↔ a ∈ r.reported) ∧
    x.report resolve = r.report resolve := by
  intro key resolve r x
  have hseated : ∀ a, a ∈ x.seated ↔ a ∈ r.seated := fun a => by
    simp only [r, x, List.mem_cons, List.not_mem_nil]
    tauto
  have hreported : ∀ a, a ∈ x.reported ↔ a ∈ r.reported := fun a => by
    simp only [r, x, List.mem_cons, List.not_mem_nil]
    tauto
  exact ⟨by decide, hseated, hreported, (report_exact r resolve).2.2.2 x hseated hreported⟩

end Roster

end StakedCommittee
