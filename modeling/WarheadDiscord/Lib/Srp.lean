import Mathlib.Tactic.Ring

/-!
# The exchange SRP-6 over a ring

The server keeps a verifier `v = g ^ x` of a password, and not the exponent `x`.  Both sides draw an
exponent and send a power of `g`; the server hides its own behind a multiple of the verifier.  A
number `u` that depends on both goes into the secret.  What each side computes from its own exponent
and from what it got is the same (`serverSecret_eq_clientSecret`), in any commutative ring: the
exchange needs neither a prime nor a generator to agree.

## Main definitions

* `Srp` — the public constants.
* `Srp.verifier`, `Srp.clientKey`, `Srp.serverKey` — what is stored and sent.
* `Srp.serverSecret`, `Srp.clientSecret` — what each side computes.
-/

namespace WarheadDiscord

universe u

structure Srp (R : Type u) where
  g : R
  k : R

namespace Srp

variable {R : Type u} [CommRing R] (srp : Srp R)

def verifier (x : ℕ) : R := srp.g ^ x

def clientKey (a : ℕ) : R := srp.g ^ a

def serverKey (v : R) (b : ℕ) : R := srp.k * v + srp.g ^ b

def serverSecret (A v : R) (u b : ℕ) : R := (A * v ^ u) ^ b

def clientSecret (B : R) (x u a : ℕ) : R := (B - srp.k * srp.verifier x) ^ (a + u * x)

/-- The client takes off what the server has added. -/
@[simp] theorem serverKey_sub (x b : ℕ) :
    srp.serverKey (srp.verifier x) b - srp.k * srp.verifier x = srp.g ^ b := by
  simp [serverKey]

/-- **Both sides come to the same secret.** -/
theorem serverSecret_eq_clientSecret (x u a b : ℕ) :
    serverSecret (srp.clientKey a) (srp.verifier x) u b =
      srp.clientSecret (srp.serverKey (srp.verifier x) b) x u a := by
  rw [clientSecret, serverKey_sub, serverSecret, clientKey, verifier]
  calc (srp.g ^ a * (srp.g ^ x) ^ u) ^ b = (srp.g ^ (a + u * x)) ^ b := by
        rw [← pow_mul, ← pow_add, Nat.mul_comm x u]
    _ = (srp.g ^ b) ^ (a + u * x) := pow_right_comm _ _ _

end Srp
end WarheadDiscord
