import StakedCommittee.Error

/-! Computations that read a store. A query is a tree: it ends in an answer or an error, or it asks
for the value under a key or for the entries whose keys begin alike, and goes on with what it is
given. It never writes. The same query runs against a working store and against one whose reads
fail. -/

namespace StakedCommittee

/-- A computation that reads a store. -/
inductive Query (α : Type) where
  | done (answer : α)
  | fail (e : RegistryError)
  | read (key : Bytes) (next : Option Bytes → Query α)
  | scan (start : Bytes) (next : List (Bytes × Bytes) → Query α)

namespace Query

variable {α β : Type}

def bind : Query α → (α → Query β) → Query β
  | .done a, f => f a
  | .fail e, _ => .fail e
  | .read key next, f => .read key fun found => bind (next found) f
  | .scan start next, f => .scan start fun found => bind (next found) f

instance : Monad Query where
  pure := .done
  bind := bind

theorem bind_done (q : Query α) : q.bind .done = q := by
  induction q with
  | done a => rfl
  | fail e => rfl
  | read key next ih => exact congrArg (Query.read key) (funext ih)
  | scan start next ih => exact congrArg (Query.scan start) (funext ih)

theorem bind_assoc {γ : Type} (q : Query α) (f : α → Query β) (g : β → Query γ) :
    (q.bind f).bind g = q.bind fun a => (f a).bind g := by
  induction q with
  | done a => rfl
  | fail e => rfl
  | read key next ih => exact congrArg (Query.read key) (funext ih)
  | scan start next ih => exact congrArg (Query.scan start) (funext ih)

instance : LawfulMonad Query :=
  LawfulMonad.mk' Query (fun q => bind_done q) (fun _ _ => rfl) (fun q f g => bind_assoc q f g)

/-- Runs a query; `faults n` is the failure of the read number `n`, counted from zero. -/
def run (faults : Nat → Option StoreFault) (s : Store) : Query α → Except RegistryError α
  | .done a => .ok a
  | .fail e => .error e
  | .read key next =>
    match faults 0 with
    | some fault => .error (.store fault)
    | none => run (fun n => faults (n + 1)) s (next (s.get? key))
  | .scan start next =>
    match faults 0 with
    | some fault => .error (.store fault)
    | none => run (fun n => faults (n + 1)) s (next (s.scan start))

/-- Runs a query against a store that works. -/
def answer (s : Store) (q : Query α) : Except RegistryError α := q.run (fun _ => none) s

theorem answer_bind (s : Store) (q : Query α) (f : α → Query β) :
    (q >>= f).answer s = q.answer s >>= fun a => (f a).answer s := by
  show (q.bind f).answer s = _
  unfold answer
  induction q with
  | done a => rfl
  | fail e => rfl
  | read key next ih => exact ih _
  | scan start next ih => exact ih _

/-- Failing reads never change an answer; they only take it away. -/
theorem answer_of_run {faults : Nat → Option StoreFault} {s : Store} {q : Query α} {a : α}
    (h : q.run faults s = .ok a) : q.answer s = .ok a := by
  unfold answer
  induction q generalizing faults with
  | done a => exact h
  | fail e => cases h
  | read key next ih =>
    simp only [run] at h ⊢
    split at h
    · cases h
    · exact ih _ h
  | scan start next ih =>
    simp only [run] at h ⊢
    split at h
    · cases h
    · exact ih _ h

end Query

end StakedCommittee
