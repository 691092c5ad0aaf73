/-!
# ObjectId — identities of objects

Types, parameters and methods are objects: two values that show the same may still be different
objects.  An identity is never used twice.
-/

namespace CallableMembers

abbrev ObjectId := Nat

end CallableMembers
