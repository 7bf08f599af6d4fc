import StakedCommittee.Draft.Staging
import StakedCommittee.Proofs.Store.Book

/-! What a draft amounts to. A desk is the book as an operation has changed it so far, with the
coins it has staged to move; which validators were read, and when, is forgotten. A staging step
yields an outcome on a desk if, from every draft that shows the desk, it gives that outcome. Steps
are composed by their outcomes, so a spec of an operation is put together from those of its
steps. -/

namespace StakedCommittee

/-- A book that is being worked on, and the coins to move. -/
structure Desk where
  book : Book
  transfers : List Transfer := []

namespace Desk

def setRoster (w : Desk) (r : Roster) : Desk := { w with book := w.book.setRoster r }

def put (w : Desk) (v : Validator) : Desk := { w with book := w.book.put v }

def bind (w : Desk) (key : ConsensusKey) (owner : Account) : Desk :=
  { w with book := w.book.bind key owner }

def transfer (w : Desk) (t : Transfer) : Desk := { w with transfers := w.transfers ++ [t] }

@[simp] theorem book_setRoster (w : Desk) (r : Roster) :
    (w.setRoster r).book = w.book.setRoster r := rfl

@[simp] theorem book_put (w : Desk) (v : Validator) : (w.put v).book = w.book.put v := rfl

@[simp] theorem book_bind (w : Desk) (key : ConsensusKey) (owner : Account) :
    (w.bind key owner).book = w.book.bind key owner := rfl

@[simp] theorem book_transfer (w : Desk) (t : Transfer) : (w.transfer t).book = w.book := rfl

/-- Entering a validator as it stands changes nothing. -/
theorem put_eq_self {w : Desk} {v : Validator}
    (h : w.book.validators.get? v.owner = some v) : w.put v = w := by
  have hbook : w.book.put v = w.book := by
    refine Book.ext rfl (SortedMap.ext_get? fun a => ?_) rfl
    rw [Book.get?_put]
    split
    · rename_i ha
      rw [← ha, h]
    · rfl
  show Desk.mk (w.book.put v) w.transfers = w
  rw [hbook]

end Desk

/-- The draft, made over the stored book `b`, comes to the desk `w`. -/
structure Draft.Shows (d : Draft) (b : Book) (w : Desk) : Prop where
  roster : d.roster = w.book.roster
  stored : d.stored = some b.roster
  validators : ∀ a, w.book.validators.get? a =
    ((d.loaded.get? a).map (·.validator)).or (b.validators.get? a)
  unchanged : ∀ {a l}, d.loaded.get? a = some l → l.changed = false →
    b.validators.get? a = some l.validator
  holders : ∀ k, w.book.holders.get? k = (d.bindings.get? k).or (b.holders.get? k)
  transfers : d.transfers = w.transfers

namespace Draft.Shows

variable {d : Draft} {b : Book} {w : Desk}

theorem ofStored (b : Book) : (Draft.ofStored b.roster).Shows b ⟨b, []⟩ where
  roster := rfl
  stored := rfl
  validators _ := rfl
  unchanged h := by simp [Draft.ofStored] at h
  holders _ := rfl
  transfers := rfl

theorem remember {a : Account} {v : Validator} (h : d.Shows b w) (hnew : d.loaded.get? a = none)
    (hv : b.validators.get? a = some v) : (d.remember a v).Shows b w where
  roster := h.roster
  stored := h.stored
  validators c := by
    rw [h.validators c, Draft.remember, SortedMap.get?_insert]
    split
    · subst_vars
      rw [hnew, hv]
      rfl
    · rfl
  unchanged {c l} hl hc := by
    rw [Draft.remember, SortedMap.get?_insert] at hl
    split at hl
    · cases hl
      subst_vars
      exact hv
    · exact h.unchanged hl hc
  holders := h.holders
  transfers := h.transfers

theorem put (h : d.Shows b w) (v : Validator) : (d.put v.owner v).Shows b (w.put v) where
  roster := h.roster
  stored := h.stored
  validators c := by
    rw [Desk.book_put, Book.get?_put, Draft.put, SortedMap.get?_insert]
    split
    · rfl
    · exact h.validators c
  unchanged {c l} hl hc := by
    rw [Draft.put, SortedMap.get?_insert] at hl
    split at hl
    · cases hl
      cases hc
    · exact h.unchanged hl hc
  holders := h.holders
  transfers := h.transfers

theorem setRoster (h : d.Shows b w) (r : Roster) : (d.setRoster r).Shows b (w.setRoster r) where
  roster := rfl
  stored := h.stored
  validators := h.validators
  unchanged := h.unchanged
  holders := h.holders
  transfers := h.transfers

theorem bind (h : d.Shows b w) (key : ConsensusKey) (owner : Account) :
    (d.bind key owner).Shows b (w.bind key owner) where
  roster := h.roster
  stored := h.stored
  validators := h.validators
  unchanged := h.unchanged
  holders k := by
    rw [Desk.book_bind, Book.holders_bind, Draft.bind, SortedMap.get?_insert]
    split
    · rfl
    · exact h.holders k
  transfers := h.transfers

theorem transfer (h : d.Shows b w) (t : Transfer) : (d.transfer t).Shows b (w.transfer t) where
  roster := h.roster
  stored := h.stored
  validators := h.validators
  unchanged := h.unchanged
  holders := h.holders
  transfers := by rw [Draft.transfer, Desk.transfer, h.transfers]

end Draft.Shows

namespace Staging

variable {α β : Type} {s : Store} {b : Book} {w mid after : Desk} {op : Staging α}
  {r : Except RegistryError (β × Desk)}

/-- A result on drafts comes to a result on desks. -/
def ComesTo (b : Book) (result : Except RegistryError (α × Draft)) :
    Except RegistryError (α × Desk) → Prop
  | .error e => result = .error e
  | .ok (a, w) => ∃ d, result = .ok (a, d) ∧ d.Shows b w

theorem ComesTo.of_error {e : RegistryError} {r : Except RegistryError (α × Desk)}
    (h : ComesTo b (.error e) r) : r = .error e := by
  cases r with
  | error f => exact congrArg _ (Except.error.inj h).symm
  | ok found =>
    obtain ⟨d, hd, -⟩ := h
    cases hd

theorem ComesTo.of_ok {a : α} {d : Draft} {r : Except RegistryError (α × Desk)}
    (h : ComesTo b (.ok (a, d)) r) : ∃ w, r = .ok (a, w) ∧ d.Shows b w := by
  cases r with
  | error e => cases h
  | ok found =>
    obtain ⟨d', hd, hshows⟩ := h
    cases hd
    exact ⟨found.2, rfl, hshows⟩

/-- From every draft that shows the desk `w`, the step comes to `r`. -/
def Yields (s : Store) (b : Book) (op : Staging α) (w : Desk)
    (r : Except RegistryError (α × Desk)) : Prop :=
  ∀ d, d.Shows b w → ComesTo b ((op.run d).answer s) r

theorem yields_pure (a : α) (w : Desk) : Yields s b (pure a) w (.ok (a, w)) :=
  fun d hd => ⟨d, rfl, hd⟩

theorem yields_fail (e : RegistryError) (w : Desk) :
    Yields s b (Staging.fail e : Staging α) w (.error e) := fun _ _ => rfl

theorem Yields.bind {next : α → Staging β} {a : α} (h : Yields s b op w (.ok (a, mid)))
    (hnext : Yields s b (next a) mid r) : Yields s b (op >>= next) w r := by
  intro d hd
  obtain ⟨d', hd', hmid⟩ := h d hd
  have hrun : ((op >>= next).run d).answer s = ((next a).run d').answer s := by
    rw [StateT.run_bind, Query.answer_bind, hd']
    rfl
  rw [hrun]
  exact hnext d' hmid

theorem Yields.bind_error {next : α → Staging β} {e : RegistryError}
    (h : Yields s b op w (.error e)) : Yields s b (op >>= next) w (.error e) := by
  intro d hd
  have hrun : (op.run d).answer s = .error e := h d hd
  show ((op >>= next).run d).answer s = .error e
  rw [StateT.run_bind, Query.answer_bind, hrun]
  rfl

/-- A step that looks at the draft may look at the desk instead. -/
theorem yields_get {next : Draft → Staging β}
    (h : ∀ d, d.Shows b w → Yields s b (next d) w r) : Yields s b (get >>= next) w r := by
  intro d hd
  exact h d hd d hd

theorem yields_modify {f : Draft → Draft} (h : ∀ d, d.Shows b w → (f d).Shows b after) :
    Yields s b (modify f) w (.ok ((), after)) :=
  fun d hd => ⟨f d, rfl, h d hd⟩

theorem yields_setRoster (r : Roster) (w : Desk) :
    Yields s b (modify (·.setRoster r)) w (.ok ((), w.setRoster r)) :=
  yields_modify fun _ hd => hd.setRoster r

theorem yields_put {a : Account} {v : Validator} (hv : v.owner = a) (w : Desk) :
    Yields s b (modify (·.put a v)) w (.ok ((), w.put v)) :=
  yields_modify fun _ hd => hv ▸ hd.put v

/-- A validator may be put in the place of another of the same owner. -/
theorem yields_replace {a : Account} {u v : Validator} (hv : w.book.validators.get? a = some v)
    (hu : u.owner = v.owner) : Yields s b (modify (·.put a u)) w (.ok ((), w.put u)) :=
  yields_put (hu.trans (w.book.owner_eq hv)) w

theorem yields_bind (key : ConsensusKey) (owner : Account) (w : Desk) :
    Yields s b (modify (·.bind key owner)) w (.ok ((), w.bind key owner)) :=
  yields_modify fun _ hd => hd.bind key owner

theorem yields_transfer (t : Transfer) (w : Desk) :
    Yields s b (modify (·.transfer t)) w (.ok ((), w.transfer t)) :=
  yields_modify fun _ hd => hd.transfer t

/-- A loop of steps that cannot fail. -/
theorem yields_foldlM {f : β → α → Staging β} {g : β × Desk → α → β × Desk} {l : List α}
    (h : ∀ x e w, e ∈ l → Yields s b (f x e) w (.ok (g (x, w) e))) (x : β) (w : Desk) :
    Yields s b (l.foldlM f x) w (.ok (l.foldl g (x, w))) := by
  induction l generalizing x w with
  | nil => exact yields_pure x w
  | cons e rest ih =>
    rw [List.foldlM_cons, List.foldl_cons]
    exact (h x e w (.head _)).bind (ih (fun x e w he => h x e w (.tail _ he)) _ _)

/-! ### Reading -/

theorem answer_ask (q : Query α) (d : Draft) :
    ((ask q).run d).answer s = (q.answer s).map fun a => (a, d) := by
  show ((·, d) <$> q).answer s = _
  rw [map_eq_pure_bind, Query.answer_bind]
  cases q.answer s <;> rfl

theorem answer_validator?_of_loaded {d : Draft} {a : Account} {l : Loaded}
    (hl : d.loaded.get? a = some l) :
    ((validator? a).run d).answer s = .ok (some l.validator, d) := by
  unfold validator?
  rw [StateT.run_bind, StateT.run_get, pure_bind, hl]
  rfl

theorem answer_validator?_of_not_loaded {d : Draft} {a : Account} {found : Option Validator}
    (hl : d.loaded.get? a = none) (hfound : (Query.validator? a).answer s = .ok found) :
    ((validator? a).run d).answer s = .ok (found, found.elim d fun v => d.remember a v) := by
  unfold validator?
  rw [StateT.run_bind, StateT.run_get, pure_bind, hl, StateT.run_bind, Query.answer_bind,
    answer_ask, hfound]
  cases found <;> rfl

section Reading
variable (hs : s.Holds b)
include hs

theorem yields_validator? (a : Account) (w : Desk) :
    Yields s b (validator? a) w (.ok (w.book.validators.get? a, w)) := by
  intro d hd
  have ha := hd.validators a
  cases hl : d.loaded.get? a with
  | some l =>
    rw [ha, hl]
    exact ⟨d, answer_validator?_of_loaded hl, hd⟩
  | none =>
    rw [ha, hl]
    refine ⟨_, answer_validator?_of_not_loaded hl (hs.answer_validator? a), ?_⟩
    cases hv : b.validators.get? a with
    | none => exact hd
    | some v => exact hd.remember hl hv

theorem yields_reopen? (a : Account) (w : Desk) :
    Yields s b (reopen? a) w (.ok (w.book.validators.get? a, w)) := by
  refine (yields_validator? hs a w).bind ?_
  cases hv : w.book.validators.get? a with
  | none => exact yields_pure none w
  | some v =>
    have howner := w.book.owner_eq hv
    have hput := yields_put (s := s) (b := b) howner w
    rw [Desk.put_eq_self (howner.symm ▸ hv)] at hput
    exact hput.bind (yields_pure (some v) w)

theorem yields_reopen {a : Account} {w : Desk} {v : Validator}
    (hv : w.book.validators.get? a = some v) : Yields s b (reopen a) w (.ok (v, w)) := by
  have hopen := yields_reopen? hs a w
  rw [hv] at hopen
  exact hopen.bind (yields_pure v w)

theorem yields_reopen_error {a : Account} {w : Desk} (hv : w.book.validators.get? a = none) :
    Yields s b (reopen a) w (.error (.notFound a)) := by
  have hopen := yields_reopen? hs a w
  rw [hv] at hopen
  exact hopen.bind (yields_fail _ w)

theorem yields_holder? (k : ConsensusKey) (w : Desk) :
    Yields s b (holder? k) w (.ok (w.book.holders.get? k, w)) := by
  intro d hd
  refine ⟨d, ?_, hd⟩
  rw [hd.holders k]
  unfold holder?
  rw [StateT.run_bind, StateT.run_get, pure_bind]
  cases hk : d.bindings.get? k with
  | some owner => rfl
  | none =>
    show ((ask (Query.holder? k)).run d).answer s = _
    rw [answer_ask, hs.answer_holder? k]
    rfl

theorem yields_powers (l : List Account) (w : Desk) :
    Yields s b (powers l) w (.ok (w.book.powerTable l, w)) := by
  have hfold (l : List Account) (table : PowerTable) :
      l.foldl (fun x a => (x.1.insert a (x.2.book.power a), x.2)) (table, w) =
        (l.foldl (fun table a => table.insert a (w.book.power a)) table, w) := by
    induction l generalizing table with
    | nil => rfl
    | cons a rest ih => exact ih _
  unfold powers Book.powerTable
  rw [← hfold]
  exact yields_foldlM (fun table a w _ => (yields_validator? hs a w).bind (yields_pure _ w)) _ _

end Reading

end Staging

end StakedCommittee
