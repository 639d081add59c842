import Dataplane.Moment

/-!
# Token buckets

A token bucket limits a rate: it fills up with tokens over time, and each packet takes as many
tokens as it has bytes.

## The model

The bucket is brought up to date only when a packet is let through: tokens are counted from the last
such moment, rounded down, and never exceed the depth of the bucket. A packet that is refused
changes nothing.
-/

namespace Dataplane

/-- A token bucket. -/
structure TokenBucket where
  /-- The tokens added per second. -/
  rate : UInt64
  /-- The depth of the bucket. -/
  burst : UInt64
  /-- The tokens left by the last packet that was let through. -/
  tokens : Nat
  /-- When that packet was let through. -/
  last : Option Moment
  /-- The bucket does not overflow. -/
  tokens_le : tokens ≤ burst.toNat
  deriving DecidableEq

namespace TokenBucket

/-- A full bucket. -/
def full (rate burst : UInt64) : TokenBucket := ⟨rate, burst, burst.toNat, none, Nat.le_refl _⟩

/-- The tokens that have come in since the last packet was let through. -/
def refill (b : TokenBucket) (now : Moment) : Nat :=
  match b.last with
  | some last => now.since last * b.rate.toNat / 1000000000
  | none => 0

/-- The tokens that can be taken at a moment. -/
def available (b : TokenBucket) (now : Moment) : Nat :=
  min (b.tokens + b.refill now) b.burst.toNat

/-- The bucket after a packet of `len` bytes was let through, if there are tokens for it. -/
def take? (b : TokenBucket) (len : Nat) (now : Moment) : Option TokenBucket :=
  if len ≤ b.available now then
    some { b with
      tokens := b.available now - len
      last := some now
      tokens_le := Nat.le_trans (Nat.sub_le _ _) (Nat.min_le_right _ _) }
  else none

end TokenBucket

end Dataplane
