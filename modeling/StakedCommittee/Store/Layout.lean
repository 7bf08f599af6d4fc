import StakedCommittee.Account
import StakedCommittee.ConsensusKey
import StakedCommittee.Store.Basic

/-! Where things stand in the store. Validators, bound keys and the roster each have a start of
their own, so no key of one kind is a key of another. -/

namespace StakedCommittee.Layout

/-- What the keys of validators begin with. -/
def validatorStart : Bytes := textBytes "v:"

/-- Where the validator of an account stands. -/
def validatorKey (owner : Account) : Bytes := validatorStart ++ owner.bytes

/-- Where the owner of a consensus key stands. -/
def bindingKey (key : ConsensusKey) : Bytes := textBytes "k:" ++ key.bytes

/-- Where the roster stands. -/
def rosterKey : Bytes := textBytes "c:committee"

end StakedCommittee.Layout
