import StakedCommittee.Proofs.Draft.Commit
import StakedCommittee.Proofs.Sample

/-! A draft answers questions ahead of the store. Whatever has been staged, and whatever the store
holds, sound or not: once the draft is committed, the store answers as the draft would have
answered, and nothing else in it has changed. The invariant of staging is that a validator which
was only read is the one that the store has. -/

namespace StakedCommittee

namespace Query

variable {s after : Store}

/-- The answer about a validator depends only on what stands under its key. -/
theorem answer_validator?_congr {a : Account}
    (h : after.get? (Layout.validatorKey a) = s.get? (Layout.validatorKey a)) :
    (Query.validator? a).answer after = (Query.validator? a).answer s := by
  rw [Query.validator?, answer_read, answer_read, h]
  cases s.get? (Layout.validatorKey a) with
  | none => rfl
  | some bytes =>
    dsimp only
    cases Validator.decode bytes <;> rfl

theorem answer_holder?_congr {k : ConsensusKey}
    (h : after.get? (Layout.bindingKey k) = s.get? (Layout.bindingKey k)) :
    (Query.holder? k).answer after = (Query.holder? k).answer s := by
  rw [Query.holder?, answer_read, answer_read, h]
  cases s.get? (Layout.bindingKey k) with
  | none => rfl
  | some bytes =>
    dsimp only
    cases Text.ofUtf8 bytes <;> rfl

theorem answer_roster_congr (h : after.get? Layout.rosterKey = s.get? Layout.rosterKey) :
    Query.roster.answer after = Query.roster.answer s := by
  unfold Query.roster Query.roster?
  rw [answer_bind, answer_bind, answer_read, answer_read, h]
  cases s.get? Layout.rosterKey with
  | none => rfl
  | some bytes =>
    dsimp only
    cases Roster.decode bytes <;> rfl

end Query

namespace Staging

/-- A step that an operation takes on its draft. -/
inductive Act where
  | read (owner : Account)
  /-- Changes a validator, if there is one. -/
  | edit (owner : Account) (f : Validator → Validator)
  | enter (v : Validator)
  | bind (key : ConsensusKey) (owner : Account)
  | editRoster (f : Roster → Roster)

def Act.stage : Act → Staging Unit
  | .read owner => do
    let _ ← validator? owner
  | .edit owner f => do
    match ← reopen? owner with
    | none => return
    | some v => modify (·.put owner (f v))
  | .enter v => modify (·.put v.owner v)
  | .bind key owner => modify (·.bind key owner)
  | .editRoster f => modify fun d => d.setRoster (f d.roster)

/-- Takes steps in order. -/
def stageAll (acts : List Act) : Staging Unit := acts.forM Act.stage

variable {α β : Type} {s : Store} {d after : Draft}

/-- A sequence of two steps succeeds only if both do. -/
theorem answer_bind_eq_ok {op : Staging α} {next : α → Staging β} {b : β}
    (h : ((op >>= next).run d).answer s = .ok (b, after)) :
    ∃ a mid, (op.run d).answer s = .ok (a, mid) ∧
      ((next a).run mid).answer s = .ok (b, after) := by
  rw [StateT.run_bind, Query.answer_bind] at h
  cases hop : (op.run d).answer s with
  | error e =>
    rw [hop] at h
    cases h
  | ok found =>
    rw [hop] at h
    exact ⟨found.1, found.2, rfl, h⟩

/-- A draft answers for a validator that it has, and else passes on the answer of the store. -/
theorem answer_validator? (s : Store) (d : Draft) (a : Account) :
    ((validator? a).run d).answer s =
      match d.loaded.get? a with
      | some l => .ok (some l.validator, d)
      | none => ((Query.validator? a).answer s).map fun found =>
          (found, found.elim d fun v => d.remember a v) := by
  cases hl : d.loaded.get? a with
  | some l => exact answer_validator?_of_loaded hl
  | none =>
    cases hq : (Query.validator? a).answer s with
    | ok found => exact answer_validator?_of_not_loaded hl hq
    | error e =>
      unfold validator?
      rw [StateT.run_bind, StateT.run_get, pure_bind, hl, StateT.run_bind, Query.answer_bind,
        answer_ask, hq]
      rfl

/-- A draft is left as it is, or remembers what the store has answered. -/
theorem validator?_cases {a : Account} {found : Option Validator}
    (h : ((validator? a).run d).answer s = .ok (found, after)) :
    after = d ∨ ∃ v, (Query.validator? a).answer s = .ok (some v) ∧ after = d.remember a v := by
  rw [answer_validator?] at h
  split at h
  · cases h
    exact .inl rfl
  · cases hquery : (Query.validator? a).answer s with
    | error e =>
      rw [hquery] at h
      cases h
    | ok answer =>
      rw [hquery] at h
      cases h
      cases found with
      | none => exact .inl rfl
      | some v => exact .inr ⟨v, rfl, rfl⟩

theorem answer_holder? (s : Store) (d : Draft) (k : ConsensusKey) :
    ((holder? k).run d).answer s =
      match d.bindings.get? k with
      | some owner => .ok (some owner, d)
      | none => ((Query.holder? k).answer s).map fun found => (found, d) := by
  unfold holder?
  rw [StateT.run_bind, StateT.run_get, pure_bind]
  cases hk : d.bindings.get? k with
  | some owner => rfl
  | none => exact answer_ask (Query.holder? k) d

end Staging

namespace Draft

variable {s : Store} {d after : Draft}

/-- The draft of an operation that has staged nothing yet. -/
def Starts (s : Store) (d : Draft) : Prop :=
  d = .genesis ∨ ∃ r, Query.roster.answer s = .ok r ∧ d = .ofStored r

/-- What the draft has of the store is what the store says. -/
structure Agrees (s : Store) (d : Draft) : Prop where
  unchanged : ∀ {a l}, d.loaded.get? a = some l → l.changed = false →
    (Query.validator? a).answer s = .ok (some l.validator)
  stored : ∀ {r}, d.stored = some r → Query.roster.answer s = .ok r

namespace Agrees

theorem of_starts (h : d.Starts s) : d.Agrees s := by
  rcases h with rfl | ⟨r, hr, rfl⟩
  · exact ⟨fun h => (nomatch h), fun h => (nomatch h)⟩
  · refine ⟨fun h => (nomatch h), fun h => ?_⟩
    cases h
    exact hr

theorem remember {a : Account} {v : Validator} (h : d.Agrees s)
    (hv : (Query.validator? a).answer s = .ok (some v)) : (d.remember a v).Agrees s where
  unchanged {c l} hl hc := by
    rw [Draft.remember, SortedMap.get?_insert] at hl
    split at hl
    · cases hl
      subst_vars
      exact hv
    · exact h.unchanged hl hc
  stored := h.stored

theorem put (h : d.Agrees s) (a : Account) (v : Validator) : (d.put a v).Agrees s where
  unchanged {c l} hl hc := by
    rw [Draft.put, SortedMap.get?_insert] at hl
    split at hl
    · cases hl
      cases hc
    · exact h.unchanged hl hc
  stored := h.stored

/-- Reading a validator leaves a draft that agrees with the store, whatever the store holds. -/
theorem validator? {a : Account} {found : Option Validator} (h : d.Agrees s)
    (hread : ((Staging.validator? a).run d).answer s = .ok (found, after)) :
    after.Agrees s ∧ after.stored = d.stored := by
  rcases Staging.validator?_cases hread with rfl | ⟨v, hv, rfl⟩
  · exact ⟨h, rfl⟩
  · exact ⟨h.remember hv, rfl⟩

theorem reopen? {a : Account} {found : Option Validator} (h : d.Agrees s)
    (hread : ((Staging.reopen? a).run d).answer s = .ok (found, after)) :
    after.Agrees s ∧ after.stored = d.stored := by
  obtain ⟨answer, mid, hfirst, hrest⟩ := Staging.answer_bind_eq_ok hread
  obtain ⟨hmid, hstored⟩ := h.validator? hfirst
  cases answer with
  | none =>
    cases hrest
    exact ⟨hmid, hstored⟩
  | some v =>
    cases hrest
    exact ⟨hmid.put a v, hstored⟩

theorem stage (act : Staging.Act) (h : d.Agrees s)
    (hstage : (act.stage.run d).answer s = .ok ((), after)) :
    after.Agrees s ∧ after.stored = d.stored := by
  cases act with
  | read owner =>
    obtain ⟨answer, mid, hfirst, hrest⟩ := Staging.answer_bind_eq_ok hstage
    cases hrest
    exact h.validator? hfirst
  | edit owner f =>
    obtain ⟨answer, mid, hfirst, hrest⟩ := Staging.answer_bind_eq_ok hstage
    obtain ⟨hmid, hstored⟩ := h.reopen? hfirst
    cases answer with
    | none =>
      cases hrest
      exact ⟨hmid, hstored⟩
    | some v =>
      cases hrest
      exact ⟨hmid.put owner (f v), hstored⟩
  | enter v =>
    cases hstage
    exact ⟨h.put v.owner v, rfl⟩
  | bind key owner =>
    cases hstage
    exact ⟨⟨h.unchanged, h.stored⟩, rfl⟩
  | editRoster f =>
    cases hstage
    exact ⟨⟨h.unchanged, h.stored⟩, rfl⟩

theorem stageAll (acts : List Staging.Act) (h : d.Agrees s)
    (hstage : ((Staging.stageAll acts).run d).answer s = .ok ((), after)) :
    after.Agrees s ∧ after.stored = d.stored := by
  induction acts generalizing d with
  | nil =>
    cases hstage
    exact ⟨h, rfl⟩
  | cons act rest ih =>
    obtain ⟨_, mid, hfirst, hrest⟩ := Staging.answer_bind_eq_ok hstage
    obtain ⟨hmid, hstored⟩ := h.stage act hfirst
    obtain ⟨hafter, hkept⟩ := ih hmid hrest
    exact ⟨hafter, hkept.trans hstored⟩

end Agrees

/-- Nothing to store: no validator was changed, no key was bound, and the roster is as it was
read. -/
theorem isEmpty_iff : d.isEmpty = true ↔
    d.changedValidators = [] ∧ d.bindings.entries = [] ∧ d.stored = some d.roster := by
  simp [isEmpty, SortedMap.isEmpty, and_assoc]

theorem batch_eq_nil_iff : d.batch = [] ↔ d.isEmpty = true := by
  rw [isEmpty_iff, batch]
  simp [changedRoster?]

/-- A commit meets a failure of writes exactly if there is something to store. -/
theorem commit_of_fits (h : d.Fits) (fault : StoreFault) (s : Store) :
    d.commit (some fault) s = if d.isEmpty then .ok s else .error (.store fault) := by
  unfold commit
  rw [if_neg (not_not.2 h)]
  simp only [batch_eq_nil_iff]

/-! ### What the store answers once the draft is committed -/

theorem Agrees.answer_validator?_commit (h : d.Agrees s) (hfits : d.Fits) (a : Account) :
    (Query.validator? a).answer (s.applyAll d.batch) =
      (((Staging.validator? a).run d).answer s).map (·.1) := by
  have hbytes := get?_batch_validatorKey s d a
  rw [lookup_changedValidators] at hbytes
  rw [Staging.answer_validator?]
  cases hl : d.loaded.get? a with
  | none =>
    rw [hl] at hbytes
    rw [Query.answer_validator?_congr hbytes]
    cases (Query.validator? a).answer s <;> rfl
  | some l =>
    obtain ⟨v, changed⟩ := l
    rw [hl] at hbytes
    cases changed with
    | false =>
      -- Only read: what stands there was not written, and is what was read.
      rw [Query.answer_validator?_congr hbytes]
      exact h.unchanged hl rfl
    | true =>
      exact Query.answer_validator?_of_encode hbytes
        (hfits.1 _ (mem_changedValidators.2 hl))

theorem answer_holder?_commit (s : Store) (d : Draft) (k : ConsensusKey) :
    (Query.holder? k).answer (s.applyAll d.batch) =
      (((Staging.holder? k).run d).answer s).map (·.1) := by
  have hbytes := get?_batch_bindingKey s d k
  rw [Staging.answer_holder?]
  cases hk : d.bindings.get? k with
  | none =>
    rw [hk] at hbytes
    rw [Query.answer_holder?_congr hbytes]
    cases (Query.holder? k).answer s <;> rfl
  | some a =>
    rw [hk] at hbytes
    exact Query.answer_holder?_of_bytes hbytes

/-- A roster staged as it was read is not written. -/
theorem get?_batch_rosterKey_of_unchanged (s : Store) (h : d.stored = some d.roster) :
    (s.applyAll d.batch).get? Layout.rosterKey = s.get? Layout.rosterKey := by
  rw [get?_batch_rosterKey, changedRoster?, if_pos h]
  rfl

/-- Any other roster is stored with its version one up from the one read, or from its own if there
was none to read. -/
theorem answer_roster_commit (s : Store) (hfits : d.Fits) (h : d.stored ≠ some d.roster) :
    Query.roster.answer (s.applyAll d.batch) = .ok { d.roster with
      version := countUp ((d.stored.map (·.version)).getD d.roster.version) } := by
  have hchanged : d.changedRoster? = some { d.roster with
      version := countUp ((d.stored.map (·.version)).getD d.roster.version) } := by
    rw [changedRoster?, if_neg h]
  refine Query.answer_roster_of_encode ?_ (hfits.2 _ (by simp [hchanged]))
  rw [get?_batch_rosterKey, hchanged]
  rfl

/-- What a draft does not store stays as it is, byte for byte. -/
theorem get?_batch_of_untouched {key : Bytes} (s : Store)
    (hv : ∀ e ∈ d.changedValidators, key ≠ Layout.validatorKey e.1)
    (hb : ∀ e ∈ d.bindings.entries, key ≠ Layout.bindingKey e.1) (hr : key ≠ Layout.rosterKey) :
    (s.applyAll d.batch).get? key = s.get? key := by
  by_cases hkey : ∃ a, key = Layout.validatorKey a
  · obtain ⟨a, rfl⟩ := hkey
    rw [get?_batch_validatorKey, SortedMap.lookup_eq_none fun e he hea => hv e he (by rw [hea])]
    rfl
  by_cases hkey' : ∃ k, key = Layout.bindingKey k
  · obtain ⟨k, rfl⟩ := hkey'
    rw [get?_batch_bindingKey, SortedMap.get?,
      SortedMap.lookup_eq_none fun e he hek => hb e he (by rw [hek])]
    rfl
  exact get?_batch_of_ne s d (fun a h => hkey ⟨a, h.symm⟩) (fun k h => hkey' ⟨k, h.symm⟩) hr

/-- Over any store, sound or not: after any steps whose reads succeed, and a commit that succeeds,
the store answers about every validator and every bound key as the draft answered, an error where
the draft answered with one. It has the staged roster, with a version one up from the one that was
read, unless that roster was staged as it was read: then it is not written. Nothing else in the
store has changed. The batch is empty exactly if the draft is, and then no failure of writes is
met. -/
theorem commit_stores_view {start : Draft} {acts : List Staging.Act}
    {faults : Nat → Option StoreFault} {fault : Option StoreFault} {stored : Store}
    (hstart : start.Starts s)
    (hstaged : ((Staging.stageAll acts).run start).run faults s = .ok ((), d))
    (hcommit : d.commit fault s = .ok stored) :
    (∀ a, (Query.validator? a).answer stored =
      (((Staging.validator? a).run d).answer s).map (·.1)) ∧
    (∀ k, (Query.holder? k).answer stored = (((Staging.holder? k).run d).answer s).map (·.1)) ∧
    (start.stored = some d.roster → Query.roster.answer stored = .ok d.roster ∧
      stored.get? Layout.rosterKey = s.get? Layout.rosterKey) ∧
    (start.stored ≠ some d.roster → Query.roster.answer stored = .ok { d.roster with
      version := countUp ((start.stored.map (·.version)).getD d.roster.version) }) ∧
    (∀ key, (∀ e ∈ d.changedValidators, key ≠ Layout.validatorKey e.1) →
      (∀ e ∈ d.bindings.entries, key ≠ Layout.bindingKey e.1) → key ≠ Layout.rosterKey →
      stored.get? key = s.get? key) ∧
    (d.batch = [] ↔ d.isEmpty = true) ∧
    ∀ w, d.commit (some w) s = if d.isEmpty then .ok s else .error (.store w) := by
  obtain ⟨hagrees, hsame⟩ :=
    (Agrees.of_starts hstart).stageAll acts (Query.answer_of_run hstaged)
  obtain ⟨hfits, rfl⟩ := commit_eq_ok hcommit
  refine ⟨hagrees.answer_validator?_commit hfits, answer_holder?_commit s d, fun hroster => ?_,
    fun hroster => ?_, fun key hv hb hr => get?_batch_of_untouched s hv hb hr, batch_eq_nil_iff,
    fun w => commit_of_fits hfits w s⟩
  · rw [← hsame] at hroster
    have hbytes := get?_batch_rosterKey_of_unchanged s hroster
    exact ⟨(Query.answer_roster_congr hbytes).trans (hagrees.stored hroster), hbytes⟩
  · rw [← hsame] at hroster ⊢
    exact answer_roster_commit s hfits hroster

/-- One validator is read and changed, a second is entered under a key of its own and joins the
pool; a third, whose stored form is no validator's, is left alone and still cannot be read. -/
theorem commit_stores_view_of_two :
    let v : Validator := ⟨⟨"alice"⟩, .ofByte 0, .ofCoins 1000, 3, 7, "", 1⟩
    let u : Validator := ⟨⟨"bob"⟩, .ofByte 1, .ofCoins 2000, 0, 0, "", 2⟩
    let r : Roster := { version := 5, seated := [v.owner], pool := [v.owner] }
    let s : Store := .ofList [(Layout.validatorKey v.owner, v.encode),
      (Layout.validatorKey ⟨"carol"⟩, [1, 2, 3]), (Layout.rosterKey, r.encode)]
    let acts : List Staging.Act := [.read v.owner, .edit v.owner Validator.countAbsence, .enter u,
      .bind u.key u.owner, .editRoster (·.join u.owner)]
    let d := (((((ofStored r).remember v.owner v).put v.owner v.countAbsence).put u.owner u).bind
      u.key u.owner).setRoster (r.join u.owner)
    let stored := s.applyAll d.batch
    (ofStored r).Starts s ∧
      ((Staging.stageAll acts).run (ofStored r)).run (fun _ => none) s = .ok ((), d) ∧
      d.commit none s = .ok stored ∧
      (Query.validator? v.owner).answer stored = .ok (some v.countAbsence) ∧
      (Query.validator? ⟨"carol"⟩).answer stored = (Query.validator? ⟨"carol"⟩).answer s ∧
      (Query.holder? u.key).answer stored = .ok (some u.owner) ∧
      Query.roster.answer stored = .ok { r.join u.owner with version := 6 } := by
  intro v u r s acts d stored
  have hstart : (ofStored r).Starts s := .inr ⟨r, by decide +kernel, rfl⟩
  have hstaged :
      ((Staging.stageAll acts).run (ofStored r)).run (fun _ => none) s = .ok ((), d) := by
    decide +kernel
  have hcommit : d.commit none s = .ok stored := by decide +kernel
  obtain ⟨hvalidator, hholder, -, hroster, -⟩ := commit_stores_view hstart hstaged hcommit
  refine ⟨hstart, hstaged, hcommit, (hvalidator v.owner).trans ?_,
    (hvalidator ⟨"carol"⟩).trans ?_, (hholder u.key).trans ?_, (hroster ?_).trans ?_⟩ <;>
    decide +kernel

end Draft

end StakedCommittee
