import StakedCommittee.KeyOrder

/-! Finite maps as lists of entries in strictly ascending key order. The order is part of the type,
so a map is determined by its look-ups and every listing of it is in key order. -/

namespace StakedCommittee

/-- A finite map, its entries in strictly ascending key order. -/
structure SortedMap (κ ν : Type) [KeyOrder κ] where
  entries : List (κ × ν)
  sorted : entries.Pairwise fun a b => KeyOrder.before a.1 b.1 = true

namespace SortedMap

variable {κ ν : Type} [KeyOrder κ]

@[ext] theorem ext {m n : SortedMap κ ν} (h : m.entries = n.entries) : m = n := by
  cases m
  cases n
  cases h
  rfl

instance [DecidableEq κ] [DecidableEq ν] : DecidableEq (SortedMap κ ν) := fun m n =>
  if h : m.entries = n.entries then isTrue (ext h) else isFalse fun e => h (e ▸ rfl)

def empty : SortedMap κ ν := ⟨[], .nil⟩

instance : Inhabited (SortedMap κ ν) := ⟨empty⟩

def size (m : SortedMap κ ν) : Nat := m.entries.length

def isEmpty (m : SortedMap κ ν) : Bool := m.entries.isEmpty

def keys (m : SortedMap κ ν) : List κ := m.entries.map (·.1)

/-- The value that an entry list holds for `k`. -/
def lookup [DecidableEq κ] (k : κ) : List (κ × ν) → Option ν
  | [] => none
  | (a, v) :: rest => if a = k then some v else lookup k rest

def get? [DecidableEq κ] (m : SortedMap κ ν) (k : κ) : Option ν := lookup k m.entries

def contains [DecidableEq κ] (m : SortedMap κ ν) (k : κ) : Bool := (m.get? k).isSome

/-- Puts an entry in its place, over an older one of the same key. -/
def place [DecidableEq κ] (k : κ) (v : ν) : List (κ × ν) → List (κ × ν)
  | [] => [(k, v)]
  | (a, w) :: rest =>
    if KeyOrder.before k a then (k, v) :: (a, w) :: rest
    else if a = k then (k, v) :: rest
    else (a, w) :: place k v rest

theorem mem_place [DecidableEq κ] {k : κ} {v : ν} {l : List (κ × ν)} {e : κ × ν}
    (h : e ∈ place k v l) : e = (k, v) ∨ e ∈ l := by
  induction l with
  | nil => simpa [place] using h
  | cons d rest ih =>
    obtain ⟨a, w⟩ := d
    simp only [place] at h
    split at h
    · simpa using h
    · split at h
      · rcases List.mem_cons.1 h with rfl | h
        · exact .inl rfl
        · exact .inr (.tail _ h)
      · rcases List.mem_cons.1 h with rfl | h
        · exact .inr (.head _)
        · exact (ih h).imp_right (.tail _)

theorem place_sorted [DecidableEq κ] (k : κ) (v : ν) {l : List (κ × ν)}
    (hl : l.Pairwise fun a b => KeyOrder.before a.1 b.1 = true) :
    (place k v l).Pairwise fun a b => KeyOrder.before a.1 b.1 = true := by
  induction l with
  | nil => simp [place]
  | cons d rest ih =>
    obtain ⟨a, w⟩ := d
    obtain ⟨hd, hrest⟩ := List.pairwise_cons.1 hl
    simp only [place]
    split
    · rename_i hka
      refine List.pairwise_cons.2 ⟨fun e he => ?_, hl⟩
      rcases List.mem_cons.1 he with rfl | he
      · exact hka
      · exact KeyOrder.trans hka (hd e he)
    · rename_i hka
      split
      · rename_i hak
        exact List.pairwise_cons.2 ⟨fun e he => hak ▸ hd e he, hrest⟩
      · rename_i hak
        refine List.pairwise_cons.2 ⟨fun e he => ?_, ih hrest⟩
        rcases mem_place he with rfl | he
        · exact KeyOrder.before_of_not hka (Ne.symm hak)
        · exact hd e he

def insert [DecidableEq κ] (m : SortedMap κ ν) (k : κ) (v : ν) : SortedMap κ ν :=
  ⟨place k v m.entries, place_sorted k v m.sorted⟩

/-- Keeps the entries that satisfy `p`. -/
def filter (m : SortedMap κ ν) (p : κ → ν → Bool) : SortedMap κ ν :=
  ⟨m.entries.filter fun e => p e.1 e.2, m.sorted.filter _⟩

def erase [DecidableEq κ] (m : SortedMap κ ν) (k : κ) : SortedMap κ ν :=
  m.filter fun a _ => decide (a ≠ k)

/-- Builds a map from entries in any order; of two with one key the later stays. -/
def ofList [DecidableEq κ] (l : List (κ × ν)) : SortedMap κ ν :=
  l.foldl (fun m e => m.insert e.1 e.2) empty

end SortedMap

end StakedCommittee
