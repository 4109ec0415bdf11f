/-
The pseudorandom generator of the schedulers, and the hash that derives seeds
and digests.
-/
import TwistSim.Basic
import Mathlib.Algebra.Group.Nat.Defs

namespace TwistSim

/-- `wheels::HashCombine`. -/
def hashCombine (digest hash : UInt64) : UInt64 :=
  digest ^^^ (hash + (0x9e3779b9 : UInt64) + (digest <<< (6 : UInt64)) +
    (digest >>> (2 : UInt64)))

/-- `WyRand` is its state. -/
abbrev WyRand := UInt64

namespace WyRand

/-- The high and the low half of a 128-bit product, combined. -/
def mix (a b : UInt64) : UInt64 :=
  let product := a.toNat * b.toNat
  UInt64.ofNat (product / 2 ^ 64) ^^^ UInt64.ofNat product

-- Proofs treat the numbers as arbitrary.
@[irreducible] def next (s : WyRand) : Nat × WyRand :=
  let s := s + (0xa0761d6478bd642f : UInt64)
  ((mix s (s ^^^ (0xe7037ed1a0b428db : UInt64))).toNat, s)

end WyRand

end TwistSim
