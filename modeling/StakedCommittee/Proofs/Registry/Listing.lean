import StakedCommittee.Proofs.Registry.Run
import StakedCommittee.Proofs.Store.Listing

/-! The listing of all validators, at any time. A registry may be called before its first roster is
stored; such calls change nothing, and those after that make a run. So the store is empty or holds a
book, and what is listed are the validators that point reads find, in the order of the owners'
bytes: what else is stored is not even scanned. -/

namespace StakedCommittee

open Layout

/-! ### Before the first roster -/

/-- What calls leave of a registry, made one after the other. -/
def Registry.afterCalls (reg : Registry) (steps : List Step) : Registry :=
  steps.foldl (fun reg s => (reg.call s.source s.faults s.call).2) reg

theorem Plan.answer_ofStaging_empty {α : Type} (op : Staging α) :
    (ofStaging op).answer .empty = .error .noRoster := by
  rw [ofStaging, Query.answer_bind]
  rfl

/-- Without a roster nothing but the first roster can be stored. -/
theorem Call.answer_plan_empty {c : Call} (hc : c ≠ .genesis) (source : ParameterSource) :
    ∃ e, (c.plan source).answer .empty = .error e := by
  have hparameters {α : Type} {height : Height} {op : Parameters → Query (α × Draft)}
      (hop : ∀ p, ∃ e, (op p).answer .empty = .error e) :
      ∃ e, (Plan.parameters source height >>= op).answer .empty = .error e := by
    rw [Query.answer_bind, Plan.parameters]
    cases source.inForce height with
    | error fault => exact ⟨_, rfl⟩
    | ok p => exact hop p
  cases c with
  | genesis => exact absurd rfl hc
  | increaseDeposit height owner amount =>
    refine hparameters fun p => ?_
    split
    · exact ⟨_, rfl⟩
    · exact ⟨_, Plan.answer_ofStaging_empty _⟩
  | register | withdraw | revoke | punish | fire =>
    exact hparameters fun p => ⟨_, Plan.answer_ofStaging_empty _⟩
  | countFlags | report => exact ⟨_, Plan.answer_ofStaging_empty _⟩

namespace Registry

/-- A call over the empty store leaves everything as it is, or founds the registry. -/
theorem call_of_empty (l : Ledger) (source : ParameterSource) (faults : Faults) (c : Call) :
    (call ⟨.empty, l⟩ source faults c).2 = ⟨.empty, l⟩ ∨
      (call ⟨.empty, l⟩ source faults c).2 = founded l := by
  have hcase := perform_case ⟨.empty, l⟩ faults (c.plan source)
  unfold call
  generalize perform ⟨.empty, l⟩ faults (c.plan source) = result at hcase
  by_cases hc : c = .genesis
  · subst hc
    have hanswer : (Call.plan source .genesis).answer .empty = .ok (true, Draft.genesis) := rfl
    cases hcase with
    | refused => exact .inl rfl
    | unpaid run =>
      cases hanswer.symm.trans (Query.answer_of_run run)
      exact .inl rfl
    | unstored run =>
      cases hanswer.symm.trans (Query.answer_of_run run)
      exact .inl rfl
    | @done _ _ after run settles =>
      cases hanswer.symm.trans (Query.answer_of_run run)
      obtain ⟨store, ledger⟩ := after
      obtain rfl : ledger = l := settles.ledger
      obtain rfl : store = Store.applyAll .empty Draft.genesis.batch :=
        (Draft.commit_eq_ok settles.commit).2
      exact .inr (founded_eq ledger).symm
  · obtain ⟨e, he⟩ := Call.answer_plan_empty hc source
    cases hcase with
    | refused => exact .inl rfl
    | unpaid run | unstored run | done run => cases he.symm.trans (Query.answer_of_run run)

/-- Calls over an empty store leave it empty, or come to a run. -/
theorem afterCalls_empty (l : Ledger) (steps : List Step) :
    afterCalls ⟨.empty, l⟩ steps = ⟨.empty, l⟩ ∨
      ∃ more, afterCalls ⟨.empty, l⟩ steps = (Run.of l more).registry := by
  induction steps using List.reverseRecOn with
  | nil => exact .inl rfl
  | append_singleton before s ih =>
    have hlast : afterCalls ⟨.empty, l⟩ (before ++ [s]) =
        ((afterCalls ⟨.empty, l⟩ before).call s.source s.faults s.call).2 := List.foldl_concat ..
    rw [hlast]
    rcases ih with hempty | ⟨more, hrun⟩
    · rw [hempty]
      refine (call_of_empty l s.source s.faults s.call).imp_right fun hfounded => ?_
      exact ⟨[], hfounded⟩
    · rw [hrun]
      exact .inr ⟨more ++ [s], congrArg Run.registry (Run.of_concat l more s).symm⟩

end Registry

/-! ### What is listed -/

/-- Of all that is stored, `listed` are the validators. -/
structure Store.Lists (s : Store) (listed : List Validator) : Prop where
  answer : Query.validators.answer s = .ok listed
  /-- Each is listed once, in strictly ascending order of the owners' bytes. -/
  sorted : listed.Pairwise fun v w => KeyOrder.before v.owner.bytes w.owner.bytes = true
  /-- A point read finds those that are listed, each under its owner. -/
  found : ∀ a v, (Query.validator? a).answer s = .ok (some v) ↔ v ∈ listed ∧ v.owner = a
  /-- What is scanned for the listing are their stored forms. -/
  scan : s.scan validatorStart = listed.map fun v => (validatorKey v.owner, v.encode)
  /-- Whatever else is stored, the owner of a key or the roster, is not scanned. -/
  only : ∀ key bytes, s.get? key = some bytes →
    (∃ v ∈ listed, key = validatorKey v.owner ∧ bytes = v.encode) ∨
      ((∃ k, key = bindingKey k) ∨ key = rosterKey) ∧ ¬ validatorStart <+: key

theorem Store.lists_empty : Store.Lists .empty [] where
  answer := rfl
  sorted := .nil
  found a v := iff_of_false (fun h => nomatch h) fun h => nomatch h.1
  scan := rfl
  only key bytes h := by simp at h

theorem Book.mem_listed_iff {b : Book} {a : Account} {v : Validator} :
    b.validators.get? a = some v ↔ v ∈ b.validators.entries.map (·.2) ∧ v.owner = a := by
  rw [List.mem_map]
  constructor
  · intro h
    exact ⟨⟨(a, v), SortedMap.mem_entries_iff.2 h, rfl⟩, b.owner_eq h⟩
  · rintro ⟨⟨⟨c, u⟩, he, rfl⟩, rfl⟩
    have hu := SortedMap.mem_entries_iff.1 he
    rwa [b.owner_eq hu]

/-- A store that holds a book lists the validators of the book. -/
theorem Store.Holds.lists {s : Store} {b : Book} (h : s.Holds b) :
    s.Lists (b.validators.entries.map (·.2)) where
  answer := h.answer_validators
  sorted := by
    rw [List.pairwise_map]
    refine b.validators.sorted.imp_of_mem fun {d e} hd he hbefore => ?_
    rw [b.owner_eq (SortedMap.mem_entries_iff.1 hd), b.owner_eq (SortedMap.mem_entries_iff.1 he)]
    exact hbefore
  found a v := by
    rw [h.answer_validator?, ← Book.mem_listed_iff]
    simp
  scan := by
    rw [h.scan_validatorStart, Book.validatorEntries, List.map_map]
    refine List.map_congr_left fun e he => ?_
    rw [Function.comp, b.owner_eq (SortedMap.mem_entries_iff.1 he)]
  only key bytes hkey := by
    rcases h.only hkey with ⟨a, rfl⟩ | ⟨k, rfl⟩ | rfl
    · rw [h.validators] at hkey
      obtain ⟨v, hv, rfl⟩ := Option.map_eq_some_iff.1 hkey
      obtain ⟨hlisted, rfl⟩ := Book.mem_listed_iff.1 hv
      exact .inl ⟨v, hlisted, rfl, rfl⟩
    · refine .inr ⟨.inl ⟨k, rfl⟩, ?_⟩
      rw [← List.isPrefixOf_iff_prefix, not_isPrefixOf_bindingKey]
      exact Bool.false_ne_true
    · refine .inr ⟨.inr rfl, ?_⟩
      rw [← List.isPrefixOf_iff_prefix, not_isPrefixOf_rosterKey]
      exact Bool.false_ne_true

/-- Whatever calls have been made since the store was empty, the listing of all validators succeeds.
It has each validator on record once, in strictly ascending order of the owners' bytes, and these
are the validators that point reads find. Nothing else that is stored is read as a validator. -/
theorem Registry.listing_is_exact (l : Ledger) (steps : List Step) :
    ∃ listed, (afterCalls ⟨.empty, l⟩ steps).store.Lists listed := by
  rcases afterCalls_empty l steps with hempty | ⟨more, hrun⟩
  · rw [hempty]
    exact ⟨[], Store.lists_empty⟩
  · obtain ⟨b, hb, -⟩ := Run.book_induction (P := fun _ => True) trivial
      (fun _ _ _ _ _ h _ => h) l more
    rw [hrun]
    exact ⟨_, hb.lists⟩

/-- The empty name comes first, and a name before those that it begins. -/
example :
    let source : ParameterSource := .always .standard
    let l : Ledger := .funded .greatest ["", "é", "a", "aé"]
    let steps : List Step := [⟨source, {}, .genesis⟩,
      .enroll source 1 "é" 0 1000, .enroll source 1 "aé" 1 1000, .enroll source 1 "" 2 1000,
      .enroll source 1 "a" 3 1000]
    (Query.validators.answer (Registry.afterCalls ⟨.empty, l⟩ steps).store).toOption.map
      (List.map (·.owner.name)) = some ["", "a", "aé", "é"] := by
  decide +kernel

end StakedCommittee
