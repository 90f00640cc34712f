import VmodRedis.DiscoveryWalk

namespace VmodRedis.DiscoveryWalk

open CStrings Replies Database Connections Registry Discovery

section

variable {options : Options} {c x y : Server}

structure Distinct (c x y : Server) : Prop where
  bucket : c.bucket = (3, .tbd) ∧ x.bucket = (3, .tbd) ∧ y.bucket = (3, .tbd)
  raw_cstr : cstr c.raw = c.raw ∧ cstr x.raw = x.raw ∧ cstr y.raw = y.raw
  host : c.address.isHost = true ∧ x.address.isHost = true ∧ y.address.isHost = true
  raw_ne : c.raw ≠ x.raw ∧ c.raw ≠ y.raw ∧ x.raw ≠ y.raw

end

section

variable {db : Db} (hw : WellPlaced db) (clock : ℕ → ℕ → ℤ) (rules : List WeightRule)
  (outcome : ServerId → Option Reply) (start : ServerId)

include hw

end

end VmodRedis.DiscoveryWalk
