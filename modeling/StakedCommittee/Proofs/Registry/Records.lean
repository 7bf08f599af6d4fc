import StakedCommittee.Proofs.Registry.Moves
import StakedCommittee.Proofs.Store.Listing

/-! Validators on record. A validator that was entered stays on record with its key, and the owner
bound to a key is the one whose validator has it, so no two validators share a key. -/

namespace StakedCommittee.Book

variable {b after : Book} {p : Parameters}

/-- Every validator on record in `b` is on record in `after`, with the same key. -/
def Retains (b after : Book) : Prop :=
  ∀ a v, b.validators.get? a = some v → ∃ u, after.validators.get? a = some u ∧ u.key = v.key

/-- A key is bound to an owner exactly if it is the key of the owner's validator. -/
def Indexed (b : Book) : Prop :=
  ∀ k a, b.holders.get? k = some a ↔ ∃ v, b.validators.get? a = some v ∧ v.key = k

/-- `after` has `u` and the binding of its key over the entries of `b`. The owner had this key
before, if any, and the key this owner. -/
structure Enters (b : Book) (u : Validator) (after : Book) : Prop where
  same_key : ∀ v, b.validators.get? u.owner = some v → v.key = u.key
  same_owner : ∀ a, b.holders.get? u.key = some a → a = u.owner
  validators : after.validators = (b.put u).validators
  holders : after.holders = (b.bind u.key u.owner).holders

theorem indexed_opening : opening.Indexed := by
  intro k a
  constructor
  · intro h
    cases h
  · rintro ⟨v, hv, -⟩
    cases hv

namespace Indexed

/-- Validators with the same key have the same owner. -/
theorem owner_inj (h : b.Indexed) {a c : Account} {u v : Validator}
    (hu : b.validators.get? a = some u) (hv : b.validators.get? c = some v)
    (hkey : u.key = v.key) : a = c := by
  have ha := (h u.key a).2 ⟨u, hu, rfl⟩
  rw [hkey, (h v.key c).2 ⟨v, hv, rfl⟩] at ha
  exact (Option.some.inj ha).symm

/-- No two validators on record share a key. -/
theorem nodup_keys (h : b.Indexed) :
    ((b.validators.entries.map (·.2)).map (·.key)).Nodup := by
  rw [List.map_map, List.Nodup, List.pairwise_map]
  refine b.validators.sorted.imp_of_mem fun {d e} hd he hbefore hkey => ?_
  have howner := h.owner_inj (SortedMap.mem_entries_iff.1 hd) (SortedMap.mem_entries_iff.1 he) hkey
  rw [howner, KeyOrder.irrefl] at hbefore
  cases hbefore

/-- Replacing a validator on record enters one under the key that is bound already. -/
theorem enters_of_record (h : b.Indexed) {u v : Validator}
    (hv : b.validators.get? v.owner = some v) (howner : u.owner = v.owner) (hkey : u.key = v.key)
    (hvalidators : after.validators = (b.put u).validators)
    (hholders : after.holders = b.holders) : b.Enters u after := by
  have hbound : b.holders.get? u.key = some u.owner := by
    rw [hkey, howner]
    exact (h v.key v.owner).2 ⟨v, hv, rfl⟩
  refine ⟨fun t ht => ?_, fun a ha => ?_, hvalidators, ?_⟩
  · rw [howner, hv] at ht
    cases ht
    exact hkey.symm
  · rw [hbound] at ha
    exact (Option.some.inj ha).symm
  · rw [bind_eq_self hbound, hholders]

/-- Every move enters one validator. -/
theorem exists_enters (h : b.Indexed) (hmove : b.Move p after) : ∃ u, b.Enters u after := by
  cases hmove with
  | enlist v old holder powered => exact ⟨v, fun u hu => (old u hu).1, holder, rfl, rfl⟩
  | @raise v deposit found member le =>
    exact ⟨{ v with deposit }, h.enters_of_record found rfl rfl rfl rfl⟩
  | @lower v deposit found le waiting =>
    exact ⟨{ v with deposit }, h.enters_of_record found rfl rfl rfl rfl⟩
  | @penalize v deposit found le member powered =>
    exact ⟨{ v with deposit }, h.enters_of_record found rfl rfl rfl rfl⟩
  | @leave v found =>
    exact ⟨{ v with deposit := .zero }, h.enters_of_record found rfl rfl
      (validators_dismissMember ..) (holders_dismissMember ..)⟩
  | @count v absences signatures found seated =>
    exact ⟨{ v with absences, signatures }, h.enters_of_record found rfl rfl rfl rfl⟩

theorem retains (h : b.Indexed) (hmove : b.Move p after) : b.Retains after := by
  obtain ⟨u, henters⟩ := h.exists_enters hmove
  intro a v hv
  rw [henters.validators, get?_put]
  split
  · subst_vars
    exact ⟨u, rfl, (henters.same_key v hv).symm⟩
  · exact ⟨v, hv, rfl⟩

theorem move (h : b.Indexed) (hmove : b.Move p after) : after.Indexed := by
  obtain ⟨u, henters⟩ := h.exists_enters hmove
  intro k a
  rw [henters.validators, henters.holders, holders_bind, get?_put]
  by_cases hkey : u.key = k
  · subst hkey
    rw [if_pos rfl]
    constructor
    · rintro ⟨⟩
      exact ⟨u, if_pos rfl, rfl⟩
    · rintro ⟨v, hv, hvkey⟩
      split at hv
      · subst_vars
        rfl
      · rw [henters.same_owner a ((h u.key a).2 ⟨v, hv, hvkey⟩)]
  · rw [if_neg hkey, h k a]
    split
    · subst_vars
      constructor
      · rintro ⟨v, hv, hvkey⟩
        exact absurd ((henters.same_key v hv).symm.trans hvkey) hkey
      · rintro ⟨v, ⟨⟩, hvkey⟩
        exact absurd hvkey hkey
    · exact Iff.rfl

end Indexed

/-- What was reported changes only with a report. -/
theorem reported_of_move (hmove : b.Move p after) :
    after.roster.reported = b.roster.reported :=
  hmove.roster_eq Roster.reported_join Roster.reported_refresh Roster.reported_seat
    Roster.reported_release

end StakedCommittee.Book

namespace StakedCommittee.Run

theorem holds_indexed (l : Ledger) (steps : List Step) :
    ∃ b, (of l steps).registry.store.Holds b ∧ b.Indexed :=
  moves_induction Book.indexed_opening (fun _ _ h => h) (fun h hmove => h.move hmove)
    (fun _ h => h) l steps

/-- After every run the bindings of keys and the validators on record correspond: a key is bound to
an owner exactly if the owner's validator has it. So no two validators share a key, every validator
is found by its key, and every bound key leads to a validator. -/
theorem index_matches_records (l : Ledger) (steps : List Step) :
    let store := (of l steps).registry.store
    (∀ k, ∃ found, (Query.holder? k).answer store = .ok found ∧
      ∀ a, found = some a ↔
        ∃ v, (Query.validator? a).answer store = .ok (some v) ∧ v.key = k) ∧
    ∃ listed, Query.validators.answer store = .ok listed ∧ (listed.map (·.key)).Nodup ∧
      (∀ v ∈ listed, (Query.holder? v.key).answer store = .ok (some v.owner)) ∧
      ∀ k a, (Query.holder? k).answer store = .ok (some a) →
        ∃ v ∈ listed, v.owner = a ∧ v.key = k := by
  intro store
  obtain ⟨b, hb, hindexed⟩ := holds_indexed l steps
  have hrecord (a : Account) (v : Validator) :
      (Query.validator? a).answer store = .ok (some v) ↔ b.validators.get? a = some v := by
    rw [hb.answer_validator?, Except.ok.injEq]
  have hbound (k : ConsensusKey) (a : Account) :
      (Query.holder? k).answer store = .ok (some a) ↔ b.holders.get? k = some a := by
    rw [hb.answer_holder?, Except.ok.injEq]
  constructor
  · intro k
    refine ⟨b.holders.get? k, hb.answer_holder? k, fun a => ?_⟩
    simp only [hrecord]
    exact hindexed k a
  · refine ⟨_, hb.answer_validators, hindexed.nodup_keys, ?_, ?_⟩
    · intro v hv
      obtain ⟨⟨a, u⟩, hentry, rfl⟩ := List.mem_map.1 hv
      have hget := SortedMap.mem_entries_iff.1 hentry
      rw [hbound, b.owner_eq hget]
      exact (hindexed _ _).2 ⟨_, hget, rfl⟩
    · intro k a ha
      obtain ⟨v, hget, hkey⟩ := (hindexed k a).1 ((hbound k a).1 ha)
      exact ⟨v, List.mem_map.2 ⟨_, SortedMap.mem_entries_iff.2 hget, rfl⟩, b.owner_eq hget, hkey⟩

end StakedCommittee.Run
