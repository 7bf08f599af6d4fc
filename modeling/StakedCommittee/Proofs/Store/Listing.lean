import StakedCommittee.Proofs.Store.Book
import StakedCommittee.Proofs.Store.Scan

/-! The listing of all validators. A scan finds the entries whose keys begin like those of
validators; in a store that holds a book these are the validators of the book, and both stand in
the order of the owners, because the order of keys after a common beginning is the order of what
follows. -/

namespace StakedCommittee

namespace Layout

theorem before_validatorKey (a c : Account) :
    KeyOrder.before (validatorKey a) (validatorKey c) = KeyOrder.before a c := by
  show decide (validatorKey a < validatorKey c) = decide (a.bytes < c.bytes)
  rw [validatorKey_eq, validatorKey_eq]
  simp

theorem isPrefixOf_validatorKey (a : Account) : validatorStart.isPrefixOf (validatorKey a) := by
  rw [validatorKey]
  simp

theorem not_isPrefixOf_bindingKey (k : ConsensusKey) :
    validatorStart.isPrefixOf (bindingKey k) = false := by
  rw [bindingKey_eq, show validatorStart = [118, 58] by decide]
  rfl

theorem not_isPrefixOf_rosterKey : validatorStart.isPrefixOf rosterKey = false := by decide

end Layout

open Layout

/-- The entries that the validators of a book make in a store. -/
def Book.validatorEntries (b : Book) : SortedMap Bytes Bytes where
  entries := b.validators.entries.map fun e => (validatorKey e.1, e.2.encode)
  sorted := by
    rw [List.pairwise_map]
    exact b.validators.sorted.imp fun h => (before_validatorKey _ _).trans h

theorem Book.get?_validatorEntries (b : Book) (a : Account) :
    b.validatorEntries.get? (validatorKey a) = (b.validators.get? a).map Validator.encode := by
  have hlist (l : List (Account × Validator)) :
      SortedMap.lookup (validatorKey a) (l.map fun e => (validatorKey e.1, e.2.encode)) =
        (SortedMap.lookup a l).map Validator.encode := by
    induction l with
    | nil => rfl
    | cons d rest ih =>
      obtain ⟨c, v⟩ := d
      by_cases hc : c = a
      · simp [SortedMap.lookup, hc]
      · simpa [SortedMap.lookup, hc] using ih
  exact hlist b.validators.entries

theorem Book.get?_validatorEntries_eq_none (b : Book) {key : Bytes}
    (h : ∀ a, key ≠ validatorKey a) : b.validatorEntries.get? key = none := by
  refine SortedMap.lookup_eq_none fun e he => ?_
  obtain ⟨c, -, rfl⟩ := List.mem_map.1 he
  exact (h c.1).symm

theorem Query.answer_mapM {α β : Type} {s : Store} {f : α → Query β} {g : α → β} {l : List α}
    (h : ∀ x ∈ l, (f x).answer s = .ok (g x)) : (l.mapM f).answer s = .ok (l.map g) := by
  induction l with
  | nil => rfl
  | cons x rest ih =>
    obtain ⟨hx, hrest⟩ := List.forall_mem_cons.1 h
    rw [List.mapM_cons, answer_bind, hx]
    show ((List.mapM f rest) >>= fun l => Pure.pure (g x :: l)).answer s = _
    rw [answer_bind, ih hrest]
    rfl

namespace Store.Holds

variable {s : Store} {b : Book}

theorem scan_validatorStart (h : s.Holds b) :
    s.scan validatorStart = b.validatorEntries.entries := by
  have hmaps : (s.filter fun key _ => validatorStart.isPrefixOf key) = b.validatorEntries := by
    refine SortedMap.ext_get? fun key => ?_
    rw [SortedMap.get?_filter]
    by_cases hkey : ∃ a, key = validatorKey a
    · obtain ⟨a, rfl⟩ := hkey
      rw [h.validators a, b.get?_validatorEntries a]
      cases b.validators.get? a <;> simp [isPrefixOf_validatorKey]
    · rw [b.get?_validatorEntries_eq_none fun a ha => hkey ⟨a, ha⟩]
      cases hs : s.get? key with
      | none => rfl
      | some bytes =>
        rcases h.only hs with ha | ⟨k, rfl⟩ | rfl
        · exact absurd ha hkey
        · simp [not_isPrefixOf_bindingKey]
        · simp [not_isPrefixOf_rosterKey]
  exact (s.scan_eq_filter _).trans (congrArg SortedMap.entries hmaps)

/-- All validators are listed, each once, in the order of the owners. -/
theorem answer_validators (h : s.Holds b) :
    Query.validators.answer s = .ok (b.validators.entries.map (·.2)) := by
  rw [Query.validators, Query.answer_scan, h.scan_validatorStart, Book.validatorEntries,
    List.mapM_map, Query.answer_mapM]
  intro e he
  have hfits := h.validators_fit (SortedMap.mem_entries_iff.1 he)
  simp only [Function.comp, Validator.decode_encode hfits]
  rfl

/-- The deposits of the listed validators are those of the book. -/
theorem sum_deposits (h : s.Holds b) {listed : List Validator}
    (hl : Query.validators.answer s = .ok listed) :
    (listed.map fun v => v.deposit.units).sum = b.deposits := by
  rw [h.answer_validators] at hl
  cases hl
  rw [List.map_map]
  rfl

end Store.Holds

end StakedCommittee
