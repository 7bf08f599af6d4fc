import StakedCommittee.Proofs.Draft.Desk
import StakedCommittee.Proofs.Store.History

/-! Committing a draft. In a store that holds a book, the batch of a draft leaves the book that the
draft shows, with the version of the roster one up if the roster has changed. -/

namespace StakedCommittee

namespace Store

variable {κ ν : Type} {place : κ → Bytes} {write : ν → Bytes} {key : Bytes}

theorem get?_applyAll_of_ne (h : ∀ k, place k ≠ key) (s : Store) (l : List (κ × ν)) :
    (s.applyAll (l.map fun e => .put (place e.1) (write e.2))).get? key = s.get? key := by
  refine s.get?_applyAll_of_unnamed fun e he => ?_
  obtain ⟨d, -, rfl⟩ := List.mem_map.1 he
  exact h d.1

theorem get?_applyAll [KeyOrder κ] [DecidableEq κ] (inj : ∀ {j k}, place j = place k → j = k)
    (s : Store) {l : List (κ × ν)} (hl : l.Pairwise fun a b => KeyOrder.before a.1 b.1 = true)
    (k : κ) :
    (s.applyAll (l.map fun e => .put (place e.1) (write e.2))).get? (place k) =
      ((SortedMap.lookup k l).map write).or (s.get? (place k)) := by
  induction l generalizing s with
  | nil => rfl
  | cons d rest ih =>
    obtain ⟨a, v⟩ := d
    obtain ⟨hd, hrest⟩ := List.pairwise_cons.1 hl
    rw [List.map_cons, applyAll_cons, ih _ hrest]
    show _ = ((SortedMap.lookup k ((a, v) :: rest)).map write).or _
    by_cases ha : a = k
    · subst ha
      rw [SortedMap.lookup_eq_none_of_before hd, SortedMap.lookup, if_pos rfl]
      exact SortedMap.get?_insert_self s _ _
    · rw [SortedMap.lookup, if_neg ha]
      congr 1
      exact SortedMap.get?_insert_of_ne s _ fun h => ha (inj h)

end Store

namespace Draft

theorem sorted_changedValidators (d : Draft) :
    d.changedValidators.Pairwise fun a b => KeyOrder.before a.1 b.1 = true := by
  refine List.Pairwise.filterMap _ ?_ d.loaded.sorted
  rintro ⟨a, l⟩ ⟨c, m⟩ h e he f hf
  simp only [Option.ite_none_right_eq_some, Option.some.injEq] at he hf
  obtain ⟨-, rfl⟩ := he
  obtain ⟨-, rfl⟩ := hf
  exact h

theorem mem_changedValidators {d : Draft} {a : Account} {v : Validator} :
    (a, v) ∈ d.changedValidators ↔ d.loaded.get? a = some ⟨v, true⟩ := by
  rw [← SortedMap.mem_entries_iff, changedValidators, List.mem_filterMap]
  constructor
  · rintro ⟨⟨c, l⟩, hl, h⟩
    simp only [Option.ite_none_right_eq_some, Option.some.injEq, Prod.mk.injEq] at h
    obtain ⟨hchanged, rfl, rfl⟩ := h
    rwa [← hchanged]
  · intro h
    exact ⟨_, h, rfl⟩

theorem lookup_changedValidators (d : Draft) (a : Account) :
    SortedMap.lookup a d.changedValidators =
      (d.loaded.get? a).bind fun l => if l.changed then some l.validator else none := by
  apply Option.ext
  intro v
  have hmem : SortedMap.lookup a d.changedValidators = some v ↔ (a, v) ∈ d.changedValidators :=
    ⟨SortedMap.mem_of_lookup, SortedMap.lookup_of_mem d.sorted_changedValidators⟩
  rw [hmem, mem_changedValidators]
  constructor
  · intro h
    simp [h]
  · intro h
    obtain ⟨⟨u, changed⟩, hl, hu⟩ := Option.bind_eq_some_iff.1 h
    simp only [Option.ite_none_right_eq_some, Option.some.injEq] at hu
    obtain ⟨rfl, rfl⟩ := hu
    exact hl

theorem commit_eq_ok {d : Draft} {fault : Option StoreFault} {s after : Store}
    (h : d.commit fault s = .ok after) : d.Fits ∧ after = s.applyAll d.batch := by
  unfold commit at h
  split at h
  · cases h
  · rename_i hfits
    refine ⟨Decidable.not_not.1 hfits, ?_⟩
    split at h
    · rename_i hempty
      cases h
      rw [hempty]
      rfl
    · cases fault with
      | some fault => cases h
      | none =>
        cases h
        rfl

/-- Without a failure of the write, a draft is refused only for a length that cannot be written. -/
theorem commit_eq_error {d : Draft} {s : Store} {e : RegistryError}
    (h : d.commit none s = .error e) : ¬ d.Fits ∧ e = .data .tooLong := by
  unfold commit at h
  split at h
  · rename_i hfits
    cases h
    exact ⟨hfits, rfl⟩
  · split at h <;> cases h

end Draft

/-- The book that storing a desk over the book `b` leaves. -/
def Desk.stored (w : Desk) (b : Book) : Book :=
  if w.book.roster = b.roster then w.book
  else w.book.setRoster { w.book.roster with version := countUp b.roster.version }

@[simp] theorem Desk.validators_stored (w : Desk) (b : Book) :
    (w.stored b).validators = w.book.validators := by
  unfold stored
  split <;> rfl

@[simp] theorem Desk.holders_stored (w : Desk) (b : Book) :
    (w.stored b).holders = w.book.holders := by
  unfold stored
  split <;> rfl

@[simp] theorem Desk.seated_stored (w : Desk) (b : Book) :
    (w.stored b).roster.seated = w.book.roster.seated := by
  unfold stored
  split <;> rfl

@[simp] theorem Desk.pool_stored (w : Desk) (b : Book) :
    (w.stored b).roster.pool = w.book.roster.pool := by
  unfold stored
  split <;> rfl

@[simp] theorem Desk.reported_stored (w : Desk) (b : Book) :
    (w.stored b).roster.reported = w.book.roster.reported := by
  unfold stored
  split <;> rfl

@[simp] theorem Desk.weakestPower_stored (w : Desk) (b : Book) :
    (w.stored b).roster.weakestPower = w.book.roster.weakestPower := by
  unfold stored
  split <;> rfl

@[simp] theorem Desk.weakest_stored (w : Desk) (b : Book) :
    (w.stored b).roster.weakest = w.book.roster.weakest := by
  unfold stored
  split <;> rfl

/-- Storing changes no more of a book than the version of its roster. -/
theorem Desk.preserved_stored {P : Book → Prop} {w : Desk} (b : Book) (hw : P w.book)
    (version : ∀ n, P (w.book.setRoster { w.book.roster with version := n })) :
    P (w.stored b) := by
  unfold stored
  split
  · exact hw
  · exact version _

theorem Draft.Shows.roster_stored {d : Draft} {b : Book} {w : Desk} (hd : d.Shows b w) :
    (w.stored b).roster = d.changedRoster?.getD b.roster := by
  unfold Desk.stored Draft.changedRoster?
  rw [hd.stored, hd.roster]
  by_cases h : w.book.roster = b.roster
  · simp [h]
  · simp [h, Ne.symm h]

/-- Every length in the written form of the book can be written. -/
structure Book.Fits (b : Book) : Prop where
  validators : ∀ {a v}, b.validators.get? a = some v → v.Fits
  roster : b.roster.Fits

theorem Store.Holds.fits {s : Store} {b : Book} (h : s.Holds b) : b.Fits :=
  ⟨h.validators_fit, h.roster_fits⟩

/-- The draft of a desk fits if the book of the desk does. -/
theorem Draft.Shows.fits {d : Draft} {b : Book} {w : Desk} (hd : d.Shows b w)
    (h : w.book.Fits) : d.Fits := by
  constructor
  · rintro ⟨a, v⟩ he
    refine h.validators (a := a) ?_
    rw [hd.validators a, mem_changedValidators.1 he]
    rfl
  · intro r hr
    have hfits := h.roster
    rw [← hd.roster] at hfits
    unfold Draft.changedRoster? at hr
    split at hr
    · cases hr
    · obtain rfl := List.mem_singleton.1 hr
      exact hfits

/-! ### What the batch of a draft writes -/

section Batch
open Layout Store

variable (s : Store) (d : Draft)

/-- The batch in its three parts: validators, bindings, roster. -/
theorem Draft.applyAll_batch :
    s.applyAll d.batch =
      (((s.applyAll (d.changedValidators.map fun e => .put (validatorKey e.1) e.2.encode)).applyAll
        (d.bindings.entries.map fun e => .put (bindingKey e.1) e.2.bytes)).applyAll
          (d.changedRoster?.toList.map fun r => .put rosterKey r.encode)) := by
  rw [batch, applyAll_append, applyAll_append]

theorem Draft.get?_applyAll_changedRoster {key : Bytes} (h : key ≠ rosterKey) :
    (s.applyAll (d.changedRoster?.toList.map fun r => .put rosterKey r.encode)).get? key =
      s.get? key := by
  cases d.changedRoster? with
  | none => rfl
  | some r => exact SortedMap.get?_insert_of_ne s _ h.symm

theorem Draft.get?_batch_validatorKey (a : Account) :
    (s.applyAll d.batch).get? (validatorKey a) =
      ((SortedMap.lookup a d.changedValidators).map Validator.encode).or
        (s.get? (validatorKey a)) := by
  rw [applyAll_batch, get?_applyAll_changedRoster _ _ (validatorKey_ne_rosterKey a),
    get?_applyAll_of_ne (fun k => (validatorKey_ne_bindingKey a k).symm),
    get?_applyAll validatorKey_inj.1 s d.sorted_changedValidators]

theorem Draft.get?_batch_bindingKey (k : ConsensusKey) :
    (s.applyAll d.batch).get? (bindingKey k) =
      ((d.bindings.get? k).map Account.bytes).or (s.get? (bindingKey k)) := by
  rw [applyAll_batch, get?_applyAll_changedRoster _ _ (bindingKey_ne_rosterKey k),
    get?_applyAll bindingKey_inj.1 _ d.bindings.sorted,
    get?_applyAll_of_ne (fun a => validatorKey_ne_bindingKey a k)]
  rfl

theorem Draft.get?_batch_rosterKey :
    (s.applyAll d.batch).get? rosterKey =
      (d.changedRoster?.map Roster.encode).or (s.get? rosterKey) := by
  rw [applyAll_batch]
  cases d.changedRoster? with
  | none =>
    show SortedMap.get? (applyAll (applyAll s _) _) rosterKey = _
    rw [get?_applyAll_of_ne bindingKey_ne_rosterKey, get?_applyAll_of_ne validatorKey_ne_rosterKey]
    rfl
  | some r => exact SortedMap.get?_insert_self _ _ _

theorem Draft.get?_batch_of_ne {key : Bytes} (hv : ∀ a, validatorKey a ≠ key)
    (hb : ∀ k, bindingKey k ≠ key) (hr : key ≠ rosterKey) :
    (s.applyAll d.batch).get? key = s.get? key := by
  rw [applyAll_batch, get?_applyAll_changedRoster _ _ hr, get?_applyAll_of_ne hb,
    get?_applyAll_of_ne hv]

end Batch

namespace Draft.Shows

variable {b : Book} {d : Draft} {w : Desk}

/-- What is not written of a validator that was read is what is stored. -/
theorem validators_written (hd : d.Shows b w) (a : Account) :
    w.book.validators.get? a =
      (SortedMap.lookup a d.changedValidators).or (b.validators.get? a) := by
  rw [hd.validators a, Draft.lookup_changedValidators]
  cases hl : d.loaded.get? a with
  | none => rfl
  | some l =>
    cases hc : l.changed with
    | true => simp [hc]
    | false => simp [hc, hd.unchanged hl hc]

theorem holds_commit {s after : Store} {fault : Option StoreFault} (hd : d.Shows b w)
    (hs : s.Holds b) (h : d.commit fault s = .ok after) : after.Holds (w.stored b) := by
  obtain ⟨⟨hvfits, hrfits⟩, rfl⟩ := Draft.commit_eq_ok h
  constructor
  case validators =>
    intro a
    rw [Draft.get?_batch_validatorKey, hs.validators, Desk.validators_stored,
      hd.validators_written]
    cases SortedMap.lookup a d.changedValidators <;> rfl
  case holders =>
    intro k
    rw [Draft.get?_batch_bindingKey, hs.holders, Desk.holders_stored, hd.holders]
    cases d.bindings.get? k <;> rfl
  case roster =>
    rw [Draft.get?_batch_rosterKey, hs.roster, hd.roster_stored]
    cases d.changedRoster? <;> rfl
  case only =>
    intro key bytes hkey
    by_cases hv : ∃ a, key = Layout.validatorKey a
    · exact .inl hv
    by_cases hb : ∃ k, key = Layout.bindingKey k
    · exact .inr (.inl hb)
    by_cases hr : key = Layout.rosterKey
    · exact .inr (.inr hr)
    rw [Draft.get?_batch_of_ne s d (fun a ha => hv ⟨a, ha.symm⟩) (fun k hk => hb ⟨k, hk.symm⟩) hr]
      at hkey
    exact hs.only hkey
  case validators_fit =>
    intro a v hv
    rw [Desk.validators_stored, hd.validators_written] at hv
    cases hl : SortedMap.lookup a d.changedValidators with
    | none =>
      rw [hl] at hv
      exact hs.validators_fit hv
    | some u =>
      rw [hl] at hv
      cases hv
      exact hvfits _ (SortedMap.mem_of_lookup hl)
  case roster_fits =>
    rw [hd.roster_stored]
    cases hr : d.changedRoster? with
    | none => exact hs.roster_fits
    | some r => exact hrfits r (by simp [hr])

end Draft.Shows

end StakedCommittee
