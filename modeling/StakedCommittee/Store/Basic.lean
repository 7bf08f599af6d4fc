import StakedCommittee.Bytes
import StakedCommittee.SortedMap.Basic

/-! A store of byte strings under byte-string keys, read by key or by the start of the key, and
changed by batches of edits. -/

namespace StakedCommittee

/-- Why the store did not answer. -/
inductive StoreFault where
  | inputOutput (reason : String)
  | corruption (reason : String)
  | missing
deriving DecidableEq

def StoreFault.message : StoreFault → String
  | .inputOutput reason => "KV store I/O error: " ++ reason
  | .corruption reason => "KV store corruption: " ++ reason
  | .missing => "Key not found in KV store"

abbrev Store := SortedMap Bytes Bytes

/-- One change to a store. -/
inductive Edit where
  | put (key value : Bytes)
  | erase (key : Bytes)
deriving DecidableEq

namespace Store

def apply (s : Store) : Edit → Store
  | .put key value => s.insert key value
  | .erase key => SortedMap.erase s key

/-- Makes the edits of a batch in order. -/
def applyAll (s : Store) (batch : List Edit) : Store := batch.foldl apply s

/-- The entries from the first key that does not come before `start`, as long as the keys begin with
`start`. -/
def scan (s : Store) (start : Bytes) : List (Bytes × Bytes) :=
  (s.entries.dropWhile fun e => KeyOrder.before e.1 start).takeWhile fun e => start.isPrefixOf e.1

end Store

end StakedCommittee
