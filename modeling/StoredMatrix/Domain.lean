/-!
# Numeric domains

The entries of a matrix are all real or all complex. The real domain comes first: what is real
can be seen as complex, never the other way round.
-/

namespace StoredMatrix

/-- What kind of number the entries of a matrix are. -/
inductive Domain
  | real
  | complex
deriving DecidableEq, Ord

namespace Domain

/-- Whether the domain is the complex one. -/
def isComplex : Domain → Bool
  | real => false
  | complex => true

/-- The smallest domain that holds the numbers of both. -/
def common : Domain → Domain → Domain
  | real, other => other
  | complex, _ => complex

/-- The name under which a domain is shown. -/
def name : Domain → String
  | real => "real"
  | complex => "complex"

end Domain

end StoredMatrix
