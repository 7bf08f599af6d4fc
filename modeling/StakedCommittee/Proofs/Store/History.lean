import Mathlib.Data.List.Basic
import Mathlib.Data.List.Induction
import StakedCommittee.Proofs.Store.Scan

/-! Stores, read off the writes that made them. An edit decides what stands under its own key and
nothing else. So however the edits of a history were grouped into batches, each key has what the
last edit of that key left, and a scan lists that for the keys that begin alike. -/

namespace StakedCommittee

/-! ### One edit -/

/-- The key that an edit is about. -/
def Edit.key : Edit → Bytes
  | .put key _ => key
  | .erase key => key

/-- What an edit leaves under its key. -/
def Edit.value? : Edit → Option Bytes
  | .put _ value => some value
  | .erase _ => none

theorem Edit.eq_put_iff {e : Edit} {key value : Bytes} :
    e = .put key value ↔ e.key = key ∧ e.value? = some value := by
  cases e <;> simp [Edit.key, Edit.value?]

theorem Store.get?_apply (s : Store) (e : Edit) (key : Bytes) :
    (s.apply e).get? key = if e.key = key then e.value? else s.get? key := by
  cases e with
  | put k value => exact SortedMap.get?_insert s k key value
  | erase k => exact SortedMap.get?_erase s k key

/-! ### Edits in order -/

/-- Of the edits of `key` the last is one that puts `value` there. -/
def LastPuts (edits : List Edit) (key value : Bytes) : Prop :=
  ∃ before after, edits = before ++ .put key value :: after ∧ ∀ e ∈ after, e.key ≠ key

theorem not_lastPuts_nil {key value : Bytes} : ¬ LastPuts [] key value := by
  rintro ⟨before, after, hsplit, -⟩
  simp at hsplit

theorem lastPuts_concat {edits : List Edit} {e : Edit} {key value : Bytes} :
    LastPuts (edits ++ [e]) key value ↔
      e = .put key value ∨ e.key ≠ key ∧ LastPuts edits key value := by
  constructor
  · rintro ⟨before, after, hsplit, hafter⟩
    rcases List.eq_nil_or_concat' after with rfl | ⟨rest, last, rfl⟩
    · obtain ⟨-, hlast⟩ := List.append_inj' hsplit rfl
      exact .inl (List.singleton_inj.1 hlast)
    · rw [← List.cons_append, ← List.append_assoc] at hsplit
      obtain ⟨rfl, hlast⟩ := List.append_inj' hsplit rfl
      obtain rfl := List.singleton_inj.1 hlast
      exact .inr ⟨hafter e (by simp), before, rest, rfl, fun d hd => hafter d (by simp [hd])⟩
  · rintro (rfl | ⟨hne, before, after, rfl, hafter⟩)
    · exact ⟨edits, [], rfl, by simp⟩
    · refine ⟨before, after ++ [e], by simp, fun d hd => ?_⟩
      rcases List.mem_append.1 hd with hd | hd
      · exact hafter d hd
      · exact List.mem_singleton.1 hd ▸ hne

namespace Store

theorem applyAll_append (s : Store) (x y : List Edit) :
    s.applyAll (x ++ y) = (s.applyAll x).applyAll y := List.foldl_append

theorem applyAll_cons (s : Store) (e : Edit) (rest : List Edit) :
    s.applyAll (e :: rest) = (s.apply e).applyAll rest := rfl

theorem applyAll_concat (s : Store) (before : List Edit) (e : Edit) :
    s.applyAll (before ++ [e]) = (s.applyAll before).apply e := List.foldl_concat ..

/-- A key has what the last edit of the key put there; one that no edit names has what it had. -/
theorem get?_applyAll_iff {s : Store} {edits : List Edit} {key value : Bytes} :
    (s.applyAll edits).get? key = some value ↔
      LastPuts edits key value ∨ (∀ e ∈ edits, e.key ≠ key) ∧ s.get? key = some value := by
  induction edits using List.reverseRecOn with
  | nil => simp [not_lastPuts_nil, applyAll]
  | append_singleton before e ih =>
    rw [applyAll_concat, get?_apply, lastPuts_concat, Edit.eq_put_iff, List.forall_mem_append]
    by_cases he : e.key = key
    · simp [he]
    · simp [he, ih]

theorem get?_applyAll_of_unnamed (s : Store) {edits : List Edit} {key : Bytes}
    (h : ∀ e ∈ edits, e.key ≠ key) : (s.applyAll edits).get? key = s.get? key := by
  apply Option.ext
  intro value
  rw [get?_applyAll_iff]
  constructor
  · rintro (⟨before, after, rfl, -⟩ | ⟨-, hvalue⟩)
    · exact absurd rfl (h (.put key value) (by simp))
    · exact hvalue
  · exact fun hvalue => .inr ⟨h, hvalue⟩

end Store

/-! ### Writes -/

/-- A write to a store: one edit, or a batch of edits made at once. -/
inductive Write where
  | edit (e : Edit)
  | batch (edits : List Edit)
deriving DecidableEq

/-- What a write edits, in order. -/
def Write.edits : Write → List Edit
  | .edit e => [e]
  | .batch edits => edits

namespace Store

def write (s : Store) : Write → Store
  | .edit e => s.apply e
  | .batch edits => s.applyAll edits

/-- Makes the writes in order. -/
def writeAll (s : Store) (writes : List Write) : Store := writes.foldl write s

theorem write_eq (s : Store) (w : Write) : s.write w = s.applyAll w.edits := by
  cases w <;> rfl

/-- It makes no difference which edits were made alone and which in one batch. -/
theorem writeAll_eq (s : Store) (writes : List Write) :
    s.writeAll writes = s.applyAll (writes.flatMap Write.edits) := by
  induction writes generalizing s with
  | nil => rfl
  | cons w rest ih =>
    rw [List.flatMap_cons, applyAll_append, ← write_eq, ← ih]
    rfl

theorem writeAll_map_edit (s : Store) (batch : List Edit) :
    s.writeAll (batch.map .edit) = s.applyAll batch := by
  rw [writeAll_eq, List.flatMap_map]
  exact congrArg s.applyAll (List.flatMap_singleton' batch)

/-- Whatever has been written to an empty store: a key has the value that its last put gave it, and
none if it was never put or has been erased since. A batch comes to the same as its edits made one
by one. A scan finds the stored entries whose keys begin with its start and no others, each once, in
strictly ascending order of the keys' bytes. -/
theorem reads_follow_writes (writes : List Write) :
    (∀ key value, (writeAll .empty writes).get? key = some value ↔
      LastPuts (writes.flatMap Write.edits) key value) ∧
    (∀ batch, (writeAll .empty writes).write (.batch batch) =
      (writeAll .empty writes).writeAll (batch.map .edit)) ∧
    ∀ start, ((writeAll .empty writes).scan start).Pairwise (fun d e => d.1 < e.1) ∧
      ∀ key value, (key, value) ∈ (writeAll .empty writes).scan start ↔
        (writeAll .empty writes).get? key = some value ∧ start <+: key := by
  refine ⟨fun key value => ?_, fun batch => ?_, fun start => ⟨?_, fun key value => ?_⟩⟩
  · rw [writeAll_eq, get?_applyAll_iff, SortedMap.get?_empty]
    simp
  · exact (writeAll_map_edit _ batch).symm
  · exact sorted_scan _ start
  · exact mem_scan_iff

/-- In a batch too the last edit of a key counts, and the keys that begin with the greatest byte are
found up to the end of the store. -/
example :
    let s := writeAll .empty [.edit (.put [255, 255] [1]), .edit (.put [255] [2]),
      .edit (.put [254, 255] [3]), .batch [.erase [255], .put [255] [4], .put [7] [5], .erase [7]],
      .edit (.put [] [6])]
    s.get? [7] = none ∧ s.scan [255] = [([255], [4]), ([255, 255], [1])] ∧
      s.scan [] = [([], [6]), ([254, 255], [3]), ([255], [4]), ([255, 255], [1])] := by
  decide

end Store

end StakedCommittee
