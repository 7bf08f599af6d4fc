import Mathlib.Data.List.Induction
import StakedCommittee.Proofs.Registry.Call
import StakedCommittee.Proofs.Sample

/-! Runs. A registry is founded by storing the first roster in an empty store; a run makes calls
on it, one after the other, each under its own parameters and failures, and keeps what came of
them. The store of a run always holds a book, so what the first book has and every effect of a call
preserves is true of the book after every run. -/

namespace StakedCommittee

/-- The registry over an empty store, once the first roster is stored. -/
def Registry.founded (l : Ledger) : Registry := (Registry.perform ⟨.empty, l⟩ {} Plan.genesis).2

/-- A call to be made, and what it is subject to. -/
structure Step where
  source : ParameterSource
  faults : Faults := {}
  call : Call

/-- A registration that meets no failure, under the key of one byte and with a deposit of whole
coins. -/
def Step.enroll (source : ParameterSource) (height : Height) (name : String) (b : UInt8)
    (coins : UInt64) : Step :=
  ⟨source, {}, .register height ⟨name⟩ (.ofByte b) (.ofCoins coins) ""⟩

/-- A call that was made, and what came of it. -/
structure Event where
  call : Call
  outcome : Except RegistryError call.Answer

structure Run where
  registry : Registry
  events : List Event

namespace Run

/-- Makes one more call. -/
def extend (r : Run) (s : Step) : Run :=
  ⟨(r.registry.call s.source s.faults s.call).2,
    r.events ++ [⟨s.call, (r.registry.call s.source s.faults s.call).1⟩]⟩

/-- Makes calls on a registry just founded over a ledger. -/
def of (l : Ledger) (steps : List Step) : Run := steps.foldl extend ⟨.founded l, []⟩

theorem of_concat (l : Ledger) (steps : List Step) (s : Step) :
    of l (steps ++ [s]) = (of l steps).extend s := List.foldl_concat ..

end Run

theorem Registry.founded_eq (l : Ledger) :
    founded l = ⟨SortedMap.empty.insert Layout.rosterKey Book.opening.roster.encode, l⟩ := rfl

theorem Registry.holds_founded (l : Ledger) : (founded l).store.Holds .opening := by
  rw [founded_eq]
  constructor
  case validators =>
    intro a
    exact SortedMap.get?_insert_of_ne _ _ (Layout.validatorKey_ne_rosterKey a).symm
  case holders =>
    intro k
    exact SortedMap.get?_insert_of_ne _ _ (Layout.bindingKey_ne_rosterKey k).symm
  case roster => exact SortedMap.get?_insert_self ..
  case only =>
    intro key bytes h
    rw [SortedMap.get?_insert] at h
    split at h
    · exact .inr (.inr (Eq.symm ‹_›))
    · cases h
  case validators_fit =>
    intro a v h
    cases h
  case roster_fits => decide

namespace Run

/-- What the first book has, and every call preserves, is true after every run. The property may look
at the steps made so far, and every call is made on a store that holds the book. -/
theorem prefix_induction {P : List Step → Book → Prop} (l : Ledger) (steps : List Step)
    (start : P [] .opening)
    (fails : ∀ (before : List Step) (s : Step) (b : Book) (e : RegistryError),
      before ++ [s] <+: steps → (of l before).registry.store.Holds b → P before b →
      ((of l before).registry.call s.source s.faults s.call).1 = .error e → P (before ++ [s]) b)
    (succeeds : ∀ (before : List Step) (s : Step) (b : Book) (a : s.call.Answer) (w : Desk),
      before ++ [s] <+: steps → (of l before).registry.store.Holds b → P before b →
      ((of l before).registry.call s.source s.faults s.call).1 = .ok a →
      s.call.effect s.source ⟨b, []⟩ = .ok (a, w) →
      (of l before).registry.Effects s.faults b w ((of l before).extend s).registry →
      P (before ++ [s]) (w.stored b)) :
    ∃ b, (of l steps).registry.store.Holds b ∧ P steps b := by
  induction steps using List.reverseRecOn with
  | nil => exact ⟨.opening, Registry.holds_founded l, start⟩
  | append_singleton before s ih =>
    obtain ⟨b, hb, hP⟩ := ih (fun c t b e h => fails c t b e (h.trans (List.prefix_append ..)))
      (fun c t b a w h => succeeds c t b a w (h.trans (List.prefix_append ..)))
    rw [of_concat]
    cases houtcome : ((of l before).registry.call s.source s.faults s.call).1 with
    | error e =>
      refine ⟨b, ?_, fails before s b e (List.prefix_refl _) hb hP houtcome⟩
      show ((of l before).registry.call s.source s.faults s.call).2.store.Holds b
      rw [Registry.call_of_error houtcome]
      exact hb
    | ok a =>
      obtain ⟨w, heffect, heffects⟩ := Registry.call_of_ok hb houtcome
      exact ⟨w.stored b, heffects.holds,
        succeeds before s b a w (List.prefix_refl _) hb hP houtcome heffect heffects⟩

/-- The same for what does not depend on how the run came about. -/
theorem induction {P : Run → Book → Prop} (l : Ledger) (steps : List Step)
    (start : P ⟨.founded l, []⟩ .opening)
    (fails : ∀ (r : Run) (b : Book) (s : Step) (e : RegistryError), s ∈ steps → P r b →
      (r.registry.call s.source s.faults s.call).1 = .error e → P (r.extend s) b)
    (succeeds : ∀ (r : Run) (b : Book) (s : Step) (a : s.call.Answer) (w : Desk), s ∈ steps →
      P r b → (r.registry.call s.source s.faults s.call).1 = .ok a →
      s.call.effect s.source ⟨b, []⟩ = .ok (a, w) →
      r.registry.Effects s.faults b w (r.extend s).registry → P (r.extend s) (w.stored b)) :
    ∃ b, (of l steps).registry.store.Holds b ∧ P (of l steps) b := by
  have hmem {before : List Step} {s : Step} (h : before ++ [s] <+: steps) : s ∈ steps :=
    h.subset (by simp)
  refine prefix_induction (P := fun before b => P (of l before) b) l steps start ?_ ?_
  · intro before s b e h _ hP houtcome
    rw [of_concat]
    exact fails _ b s e (hmem h) hP houtcome
  · intro before s b a w h _ hP houtcome heffect heffects
    rw [of_concat]
    exact succeeds _ b s a w (hmem h) hP houtcome heffect heffects

/-- The same for what depends on the book alone. -/
theorem book_induction {P : Book → Prop} (start : P .opening)
    (step : ∀ (source : ParameterSource) (c : Call) (b : Book) (a : c.Answer) (w : Desk), P b →
      c.effect source ⟨b, []⟩ = .ok (a, w) → P (w.stored b)) (l : Ledger) (steps : List Step) :
    ∃ b, (of l steps).registry.store.Holds b ∧ P b :=
  induction (P := fun _ b => P b) l steps start (fun _ _ _ _ _ h _ => h)
    fun _ b s a w _ h _ heffect _ => step s.source s.call b a w h heffect

end Run

end StakedCommittee
