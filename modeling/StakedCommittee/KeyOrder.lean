/-! Strict total orders on map keys, decided by a function. The instances here cover machine words
and every type of keys that is told apart by a word or a byte string. -/

namespace StakedCommittee

/-- A strict total order. -/
class KeyOrder (κ : Type) where
  before : κ → κ → Bool
  irrefl : ∀ a, before a a = false
  trans : ∀ {a b c}, before a b = true → before b c = true → before a c = true
  total : ∀ a b, before a b = true ∨ a = b ∨ before b a = true

namespace KeyOrder

variable {κ ι : Type}

/-- The order of the images under an injective function. -/
@[reducible] def pullback [KeyOrder ι] (f : κ → ι) (inj : ∀ {a b}, f a = f b → a = b) :
    KeyOrder κ where
  before a b := before (f a) (f b)
  irrefl a := irrefl (f a)
  trans := trans
  total a b := (total (f a) (f b)).imp_right (Or.imp_left inj)

theorem ne_of_before [KeyOrder κ] {a b : κ} (h : before a b = true) : a ≠ b := by
  rintro rfl
  simp [irrefl] at h

/-- Of two keys that are neither equal nor in order, the second comes first. -/
theorem before_of_not [KeyOrder κ] {a b : κ} (hlt : ¬before a b = true) (hne : a ≠ b) :
    before b a = true :=
  ((total a b).resolve_left hlt).resolve_left hne

instance : KeyOrder Nat where
  before a b := decide (a < b)
  irrefl := by simp
  trans := by simp only [decide_eq_true_eq]; omega
  total := by simp only [decide_eq_true_eq]; omega

instance : KeyOrder UInt64 := pullback UInt64.toNat UInt64.toNat.inj

/-- Byte strings stand in lexicographic order, a string before its extensions. -/
instance : KeyOrder (List UInt8) where
  before s t := decide (s < t)
  irrefl s := decide_eq_false (List.lt_irrefl s)
  trans hst htu := decide_eq_true (List.lt_trans (of_decide_eq_true hst) (of_decide_eq_true htu))
  total s t := by
    simp only [decide_eq_true_eq]
    rcases Decidable.em (s < t) with hst | hst
    · exact .inl hst
    · rcases Decidable.em (t < s) with hts | hts
      · exact .inr (.inr hts)
      · exact .inr (.inl (List.le_antisymm (List.not_lt.1 hts) (List.not_lt.1 hst)))

theorem before_bytes_iff {s t : List UInt8} : before s t = true ↔ s < t := decide_eq_true_iff

/-- Puts a key before the first key that does not come before it. Repeated keys are kept. -/
def insertKey [KeyOrder κ] (k : κ) : List κ → List κ
  | [] => [k]
  | a :: rest => if before a k then a :: insertKey k rest else k :: a :: rest

/-- Sorts keys, keeping repeats. -/
def sortKeys [KeyOrder κ] (keys : List κ) : List κ :=
  keys.foldr insertKey []

end KeyOrder

end StakedCommittee
