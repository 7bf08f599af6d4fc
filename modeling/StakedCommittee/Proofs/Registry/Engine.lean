import Mathlib.Data.List.Nodup
import StakedCommittee.Proofs.Registry.Funding
import StakedCommittee.Proofs.Registry.Records
import StakedCommittee.Proofs.Roster.Report

/-! The consensus engine's view. An engine that applies every report knows the keys of the members
last reported and no others. The next report updates all of these and all present members, and since
no two validators share a key, the engine then has exactly the present committee. -/

namespace StakedCommittee

/-- The powers that a consensus engine holds, by key. -/
abbrev Engine := SortedMap ConsensusKey Power

namespace Engine

/-- Power zero drops a key. -/
def apply (m : Engine) (u : PowerUpdate) : Engine :=
  if u.power = 0 then SortedMap.erase m u.key else SortedMap.insert m u.key u.power

def applyAll (m : Engine) (updates : List PowerUpdate) : Engine := updates.foldl apply m

/-- Applies what a call reports, if it is a report and succeeds. -/
def hear (m : Engine) : Event → Engine
  | ⟨.report, .ok updates⟩ => m.applyAll updates
  | _ => m

theorem hear_error (m : Engine) (c : Call) (e : RegistryError) : m.hear ⟨c, .error e⟩ = m := by
  cases c <;> rfl

theorem hear_of_ne {c : Call} (h : c ≠ .report) (m : Engine)
    (outcome : Except RegistryError c.Answer) : m.hear ⟨c, outcome⟩ = m := by
  cases c with
  | report => exact absurd rfl h
  | _ => rfl

theorem get?_apply (m : Engine) (u : PowerUpdate) (k : ConsensusKey) :
    (m.apply u).get? k =
      if u.key = k then (if u.power = 0 then none else some u.power) else m.get? k := by
  unfold apply
  split
  · exact SortedMap.get?_erase ..
  · exact SortedMap.get?_insert ..

theorem get?_applyAll_of_ne {updates : List PowerUpdate} {k : ConsensusKey}
    (h : ∀ u ∈ updates, u.key ≠ k) (m : Engine) : (m.applyAll updates).get? k = m.get? k := by
  induction updates generalizing m with
  | nil => rfl
  | cons u rest ih =>
    obtain ⟨hu, hrest⟩ := List.forall_mem_cons.1 h
    exact (ih hrest _).trans ((get?_apply m u k).trans (if_neg hu))

/-- Updates of one key that agree may be applied in any order. -/
theorem get?_applyAll_of_mem {updates : List PowerUpdate} {u : PowerUpdate}
    (agree : ∀ t ∈ updates, t.key = u.key → t.power = u.power) (hu : u ∈ updates) (m : Engine) :
    (m.applyAll updates).get? u.key = if u.power = 0 then none else some u.power := by
  induction updates generalizing u m with
  | nil => cases hu
  | cons t rest ih =>
    obtain ⟨ht, hrest⟩ := List.forall_mem_cons.1 agree
    by_cases hlater : ∃ x ∈ rest, x.key = u.key
    · obtain ⟨x, hx, hkey⟩ := hlater
      have hpower := hrest x hx hkey
      have hlast := ih (u := x) (fun y hy hyx => (hrest y hy (hyx.trans hkey)).trans hpower.symm) hx
        (m.apply t)
      rw [hkey, hpower] at hlast
      exact hlast
    · have hlast : ∀ x ∈ rest, x.key ≠ u.key := fun x hx hkey => hlater ⟨x, hx, hkey⟩
      have htu : t.key = u.key ∧ t.power = u.power := by
        rcases List.mem_cons.1 hu with rfl | hmem
        · exact ⟨rfl, rfl⟩
        · exact absurd rfl (hlast u hmem)
      refine (get?_applyAll_of_ne hlast _).trans ?_
      rw [get?_apply, if_pos htu.1, htu.2]

end Engine

/-- The engine knows no key but those of the members last reported; the book is sound. -/
structure Engine.Follows (m : Engine) (b : Book) : Prop where
  funded : b.Funded
  indexed : b.Indexed
  known : ∀ k x, m.get? k = some x →
    ∃ a ∈ b.roster.reported, ∃ v, b.validators.get? a = some v ∧ v.key = k

/-- The engine has the key and power of every seated member, and nothing else. -/
def Engine.Mirrors (m : Engine) (b : Book) : Prop :=
  ∀ k x, m.get? k = some x ↔ ∃ a ∈ b.roster.seated, b.entry? a = some (k, x)

namespace Engine.Follows

variable {m : Engine} {b after : Book} {p : Parameters}

theorem opening : Follows .empty Book.opening :=
  ⟨Book.funded_opening, Book.indexed_opening, fun _ _ h => by cases h⟩

theorem setVersion (h : m.Follows b) (version : UInt64) :
    m.Follows (b.setRoster { b.roster with version }) :=
  ⟨h.funded.setRoster rfl rfl, h.indexed, h.known⟩

theorem move (h : m.Follows b) (hmove : b.Move p after) : m.Follows after := by
  refine ⟨h.funded.move hmove, h.indexed.move hmove, fun k x hk => ?_⟩
  obtain ⟨a, ha, v, hv, hkey⟩ := h.known k x hk
  obtain ⟨u, hu, hukey⟩ := h.indexed.retains hmove a v hv
  exact ⟨a, (Book.reported_of_move hmove).symm ▸ ha, u, hu, hukey.trans hkey⟩

/-- The update that a report has for a member on record. -/
theorem update_mem {a : Account} {v : Validator} (hv : b.validators.get? a = some v)
    (ha : a ∈ b.roster.seated ∨ a ∈ b.roster.reported) :
    ⟨a, v.key, if a ∈ b.roster.seated then v.power else 0⟩ ∈ b.roster.report b.entry? :=
  Roster.mem_report.2 ⟨ha, v.power, Book.entry?_eq_some.2 ⟨v, hv, rfl, rfl⟩, rfl⟩

/-- Updates of one key are for one owner, and agree. -/
theorem agree (h : m.Follows b) {t u : PowerUpdate} (ht : t ∈ b.roster.report b.entry?)
    (hu : u ∈ b.roster.report b.entry?) (hkey : t.key = u.key) :
    t.owner = u.owner ∧ t.power = u.power := by
  obtain ⟨-, x, hx, htpower⟩ := Roster.mem_report.1 ht
  obtain ⟨-, y, hy, hupower⟩ := Roster.mem_report.1 hu
  obtain ⟨v, hv, hvkey, rfl⟩ := Book.entry?_eq_some.1 hx
  obtain ⟨w, hw, hwkey, rfl⟩ := Book.entry?_eq_some.1 hy
  have howner := h.indexed.owner_inj hv hw (hvkey.trans (hkey.trans hwkey.symm))
  rw [howner, hw] at hv
  cases hv
  exact ⟨howner, by rw [htpower, hupower, howner]⟩

/-- A seated member is reported with its power. -/
theorem get?_report_of_seated (h : m.Follows b) {a : Account} {v : Validator}
    (ha : a ∈ b.roster.seated) (hv : b.validators.get? a = some v) :
    (m.applyAll (b.roster.report b.entry?)).get? v.key = some v.power := by
  have hu := update_mem hv (.inl ha)
  obtain ⟨w, hw, hne⟩ := h.funded.exists_of_seated ha
  rw [hv] at hw
  cases hw
  rw [if_pos ha] at hu
  have hget := get?_applyAll_of_mem (fun t ht hkey => (h.agree ht hu hkey).2) hu m
  rwa [if_neg hne] at hget

/-- A key of no seated member was dropped, or never known. -/
theorem get?_report_eq_none (h : m.Follows b) {k : ConsensusKey}
    (hk : ∀ a ∈ b.roster.seated, ∀ v, b.validators.get? a = some v → v.key ≠ k) :
    (m.applyAll (b.roster.report b.entry?)).get? k = none := by
  by_cases hupdated : ∃ u ∈ b.roster.report b.entry?, u.key = k
  · obtain ⟨u, hu, rfl⟩ := hupdated
    obtain ⟨-, x, hentry, hpower⟩ := Roster.mem_report.1 hu
    obtain ⟨v, hv, hkey, -⟩ := Book.entry?_eq_some.1 hentry
    have hleft : u.owner ∉ b.roster.seated := fun hseated => hk _ hseated v hv hkey
    rw [if_neg hleft] at hpower
    rw [get?_applyAll_of_mem (fun t ht hkey => (h.agree ht hu hkey).2) hu, if_pos hpower]
  · rw [get?_applyAll_of_ne fun u hu hkey => hupdated ⟨u, hu, hkey⟩]
    refine Option.eq_none_iff_forall_ne_some.2 fun x hx => ?_
    obtain ⟨a, ha, v, hv, hkey⟩ := h.known k x hx
    exact hupdated ⟨_, update_mem hv (.inr ha), hkey⟩

/-- After a report the engine has exactly the committee. -/
theorem mirrors_report (h : m.Follows b) : (m.applyAll (b.roster.report b.entry?)).Mirrors b := by
  intro k x
  constructor
  · intro hx
    by_cases hseated : ∃ a ∈ b.roster.seated, ∃ v, b.validators.get? a = some v ∧ v.key = k
    · obtain ⟨a, ha, v, hv, rfl⟩ := hseated
      rw [h.get?_report_of_seated ha hv] at hx
      exact ⟨a, ha, Book.entry?_eq_some.2 ⟨v, hv, rfl, Option.some.inj hx⟩⟩
    · rw [h.get?_report_eq_none fun a ha v hv hkey => hseated ⟨a, ha, v, hv, hkey⟩] at hx
      cases hx
  · rintro ⟨a, ha, hentry⟩
    obtain ⟨v, hv, rfl, rfl⟩ := Book.entry?_eq_some.1 hentry
    exact h.get?_report_of_seated ha hv

/-- The engine goes on following after a report. -/
theorem report (h : m.Follows b) :
    (m.applyAll (b.roster.report b.entry?)).Follows (b.setRoster b.roster.markReported) := by
  refine ⟨h.funded.setRoster rfl rfl, h.indexed, fun k x hk => ?_⟩
  obtain ⟨a, ha, hentry⟩ := (h.mirrors_report k x).1 hk
  obtain ⟨v, hv, hkey, -⟩ := Book.entry?_eq_some.1 hentry
  exact ⟨a, ha, v, hv, hkey⟩

end Engine.Follows

/-- The key of an account with a validator. -/
def Book.key? (b : Book) (a : Account) : Option ConsensusKey :=
  (b.validators.get? a).map (·.key)

theorem Book.key?_eq_some {b : Book} {a : Account} {k : ConsensusKey} :
    b.key? a = some k ↔ ∃ v, b.validators.get? a = some v ∧ v.key = k := Option.map_eq_some_iff

theorem Engine.Mirrors.mem_keys_iff {m : Engine} {b : Book} (h : m.Mirrors b) {k : ConsensusKey} :
    k ∈ m.keys ↔ k ∈ b.roster.seated.filterMap b.key? := by
  rw [SortedMap.mem_keys_iff, List.mem_filterMap]
  constructor
  · rintro ⟨x, hx⟩
    obtain ⟨a, ha, hentry⟩ := (h k x).1 hx
    obtain ⟨v, hv, hkey, -⟩ := Book.entry?_eq_some.1 hentry
    exact ⟨a, ha, Book.key?_eq_some.2 ⟨v, hv, hkey⟩⟩
  · rintro ⟨a, ha, hk⟩
    obtain ⟨v, hv, hkey⟩ := Book.key?_eq_some.1 hk
    exact ⟨v.power, (h k v.power).2 ⟨a, ha, Book.entry?_eq_some.2 ⟨v, hv, hkey, rfl⟩⟩⟩

/-- There is one entry for each seated member. -/
theorem Engine.Mirrors.size_eq {m : Engine} {b : Book} (h : m.Mirrors b) (hfunded : b.Funded)
    (hindexed : b.Indexed) : m.size = b.roster.seated.length := by
  have hnodup : (b.roster.seated.filterMap b.key?).Nodup := by
    refine List.Nodup.filterMap (fun a c k ha hc => ?_) hfunded.nodup_seated
    obtain ⟨u, hu, hukey⟩ := Book.key?_eq_some.1 ha
    obtain ⟨v, hv, hvkey⟩ := Book.key?_eq_some.1 hc
    exact hindexed.owner_inj hu hv (hukey.trans hvkey.symm)
  have hperm := (List.perm_ext_iff_of_nodup m.nodup_keys hnodup).2 fun _ => h.mem_keys_iff
  have hsome : ∀ a ∈ b.roster.seated, (b.key? a).isSome := by
    intro a ha
    obtain ⟨v, hv, -⟩ := hfunded.exists_of_seated ha
    simp [Book.key?, hv]
  calc m.size = m.keys.length := (List.length_map _).symm
    _ = (b.roster.seated.filterMap b.key?).length := hperm.length_eq
    _ = b.roster.seated.length := List.filterMap_length_eq_length.2 hsome

namespace Run

/-- The engine that has heard all events of a run. -/
def engine (r : Run) : Engine := r.events.foldl Engine.hear .empty

theorem engine_extend (r : Run) (s : Step) :
    (r.extend s).engine =
      r.engine.hear ⟨s.call, (r.registry.call s.source s.faults s.call).1⟩ := by
  rw [engine, extend, List.foldl_append]
  rfl

theorem holds_follows (l : Ledger) (steps : List Step) :
    ∃ b, (of l steps).registry.store.Holds b ∧ (of l steps).engine.Follows b := by
  refine induction (P := fun r b => r.engine.Follows b) l steps .opening ?_ ?_
  · intro r b s e _ hfollows h
    rw [engine_extend, h, Engine.hear_error]
    exact hfollows
  · intro r b s a w _ hfollows h heffect _
    suffices hw : (r.extend s).engine.Follows w.book from
      Desk.preserved_stored b hw fun _ => hw.setVersion _
    rw [engine_extend, h]
    obtain ⟨source, faults, c⟩ := s
    by_cases hc : c = .report
    · subst hc
      cases heffect
      exact hfollows.report
    · rw [Engine.hear_of_ne hc]
      obtain ⟨p, hp⟩ := Call.exists_goesBy heffect
      exact Book.Moves.preserve (fun h => h.move) (Call.moves_of_effect hc hp heffect) hfollows

/-- Right after every report that succeeds, the engine has exactly the committee: the key of every
seated validator with its power, which is not zero, and nothing else. -/
theorem engine_exact (l : Ledger) (steps : List Step) (source : ParameterSource) (faults : Faults)
    (updates : List PowerUpdate)
    (h : ((of l steps).registry.call source faults .report).1 = .ok updates) :
    let after := of l (steps ++ [⟨source, faults, .report⟩])
    ∃ r, Query.roster.answer after.registry.store = .ok r ∧
      (∀ k x, after.engine.get? k = some x ↔ ∃ a ∈ r.seated, ∃ v,
        (Query.validator? a).answer after.registry.store = .ok (some v) ∧ v.key = k ∧
          v.power = x) ∧
      (∀ k x, after.engine.get? k = some x → 0 < x) ∧ after.engine.size = r.seated.length := by
  intro after
  obtain ⟨b, hb, hfollows⟩ := holds_follows l steps
  obtain ⟨w, heffect, heffects⟩ := Registry.call_of_ok hb h
  obtain ⟨rfl, hbook⟩ : updates = b.roster.report b.entry? ∧
      w.book = b.setRoster b.roster.markReported := by
    cases heffect
    exact ⟨rfl, rfl⟩
  have hafter : after = (of l steps).extend ⟨source, faults, .report⟩ := of_concat ..
  have hholds : after.registry.store.Holds (w.stored b) := hafter ▸ heffects.holds
  have hvalidators : (w.stored b).validators = b.validators := by
    rw [Desk.validators_stored, hbook]
    rfl
  have hseated : (w.stored b).roster.seated = b.roster.seated := by
    rw [Desk.seated_stored, hbook]
    rfl
  have hmirrors : after.engine.Mirrors b := by
    rw [hafter, engine_extend, h]
    exact hfollows.mirrors_report
  refine ⟨_, hholds.answer_roster, fun k x => ?_, fun k x hk => ?_, ?_⟩
  · rw [hmirrors k x, hseated]
    simp only [hholds.answer_validator?, hvalidators, Except.ok.injEq, Book.entry?_eq_some]
  · obtain ⟨a, ha, hentry⟩ := (hmirrors k x).1 hk
    obtain ⟨v, hv, -, rfl⟩ := Book.entry?_eq_some.1 hentry
    obtain ⟨u, hu, hne⟩ := hfollows.funded.exists_of_seated ha
    rw [hv] at hu
    cases hu
    exact UInt64.pos_iff_ne_zero.2 hne
  · rw [hmirrors.size_eq hfollows.funded hfollows.indexed, hseated]

/-- A member is reported, leaves and is replaced; the next report tells of both. -/
theorem engine_exact_after_replacement :
    let source : ParameterSource := .always .standard
    let l : Ledger := .funded .greatest ["alice", "bob"]
    let keyA : ConsensusKey := .ofByte 0
    let keyB : ConsensusKey := .ofByte 1
    let steps : List Step :=
      [.enroll source 1 "alice" 0 1000, ⟨source, {}, .report⟩,
        ⟨source, {}, .revoke 2 ⟨"alice"⟩⟩,
        .enroll source 2 "bob" 1 2000]
    let after := of l (steps ++ [⟨source, {}, .report⟩])
    ((of l steps).registry.call source {} .report).1 =
        .ok [⟨⟨"alice"⟩, keyA, 0⟩, ⟨⟨"bob"⟩, keyB, 2000⟩] ∧
      ∃ r, Query.roster.answer after.registry.store = .ok r ∧
        (∀ k x, after.engine.get? k = some x ↔ ∃ a ∈ r.seated, ∃ v,
          (Query.validator? a).answer after.registry.store = .ok (some v) ∧ v.key = k ∧
            v.power = x) ∧
        (∀ k x, after.engine.get? k = some x → 0 < x) ∧ after.engine.size = r.seated.length := by
  intro source l keyA keyB steps after
  have hreport : ((of l steps).registry.call source {} .report).1 =
      .ok [⟨⟨"alice"⟩, keyA, 0⟩, ⟨⟨"bob"⟩, keyB, 2000⟩] := by decide +kernel
  exact ⟨hreport, engine_exact l steps source {} _ hreport⟩

end Run

end StakedCommittee
