import Mathlib.Data.ZMod.Basic
import WarheadDiscord.Account.AccountMgr
import WarheadDiscord.Common.HexStr
import WarheadDiscord.Lib.Bytes
import WarheadDiscord.Lib.Srp

/-!
# SRP6: the verifier and the answer to a challenge

`SRP6` is the server of one login.  The constructor draws an exponent and makes `B`; then
`VerifyChallengeResponse` gets the client's `A` and its proof `M`, and yields the session key if the
proof is the one that the server computes.  The numbers are arrays of 32 bytes, least significant
first, and `BigNumber` is made of them; a number that does not fit into its array is a failed
`ASSERT`, and so is a second call.

The arithmetic is OpenSSL's and no part of the repository, so its functions are a parameter, and
what they are documented to return is assumed (`Bignum.Documented`).  SHA-1 is a parameter of which
nothing is asked.

It is that of the exchange in `Lib.Srp` modulo `N` (`verifyChallengeResponse_eq`); so a client that
knows the key is accepted, and both have the same session key (`verifyChallengeResponse_client`).

## Main definitions

* `Bignum` — the functions of OpenSSL.
* `bigNumber`, `toByteArray`, `N` — the numbers.
* `srp6` — `CalculateVerifier` with this arithmetic.
* `Srp6Server`, `sha1Interleave`, `verifyChallengeResponse` — the server.
* `srp`, `clientSecret`, `clientSessionKey` — what a client does, who is not part of the program.
-/

namespace WarheadDiscord.Crypto

open Bytes

/-- `SHA1::Digest` -/
abbrev Digest := Vector UInt8 20

abbrev EphemeralKey := Vector UInt8 32

abbrev SessionKey := Vector UInt8 40

/-! ## Numbers -/

/-- What `BigNumber` calls of `openssl/bn.h`, for numbers that are not negative. -/
structure Bignum where
  /-- `BN_lebin2bn` -/
  lebin2bn : List UInt8 → ℕ
  /-- `BN_bn2lebinpad`; `none` is an error. -/
  bn2lebinpad : ℕ → (size : ℕ) → Option (Vector UInt8 size)
  /-- `BN_add` -/
  add : ℕ → ℕ → ℕ
  /-- `BN_mul` -/
  mul : ℕ → ℕ → ℕ
  /-- `BN_mod` -/
  mod : ℕ → ℕ → ℕ
  /-- `BN_mod_exp` -/
  modExp : ℕ → ℕ → ℕ → ℕ

/-- The low bytes of a number. -/
def lowBytes (size n : ℕ) : Vector UInt8 size := ⟨(toLE size n).toArray, by simp⟩

/-- What their documentation says. -/
structure Bignum.Documented (bn : Bignum) : Prop where
  lebin2bn : ∀ bytes, bn.lebin2bn bytes = ofLE bytes
  bn2lebinpad : ∀ n size,
    bn.bn2lebinpad n size = if n < 256 ^ size then some (lowBytes size n) else none
  add : ∀ a b, bn.add a b = a + b
  mul : ∀ a b, bn.mul a b = a * b
  mod : ∀ a m, m ≠ 0 → bn.mod a m = a % m
  modExp : ∀ a e m, m ≠ 0 → bn.modExp a e m = a ^ e % m

def g : Vector UInt8 1 := #v[7]

def modulus : ℕ := 0x894B645E89E1535BBDAD5B8B290650530801B18EBFBF5E8FAB3C82872A3E9BB7

def N : Vector UInt8 32 := lowBytes 32 modulus

-- The initializer of `N`.
example :
    hexStrToByteArray 33
      "894B645E89E1535BBDAD5B8B290650530801B18EBFBF5E8FAB3C82872A3E9BB7".toUTF8.data.toList
      (List.replicate 32 0) true = some (.ok N.toList) := by
  decide +kernel

theorem ofLE_lowBytes {size n : ℕ} (h : n < 256 ^ size) : ofLE (lowBytes size n).toList = n := by
  rw [lowBytes, Vector.toList_mk, List.toList_toArray, ofLE_toLE, Nat.mod_eq_of_lt h]

@[simp] theorem ofLE_g : ofLE g.toList = 7 := rfl

theorem modulus_lt : modulus < 256 ^ 32 := by decide

@[simp] theorem ofLE_N : ofLE N.toList = modulus := ofLE_lowBytes modulus_lt

instance : NeZero modulus := ⟨by decide⟩

theorem mod_modulus_lt (n : ℕ) : n % modulus < 256 ^ 32 :=
  (Nat.mod_lt n (Nat.pos_of_ne_zero (NeZero.ne modulus))).trans modulus_lt

variable (bn : Bignum)

/-- A `BigNumber` of the bytes of an array. -/
def bigNumber {size : ℕ} (bytes : Vector UInt8 size) : ℕ := bn.lebin2bn bytes.toList

/-- `ToByteArray`; `none` is the failed `ASSERT` of `GetBytes`. -/
def toByteArray (size n : ℕ) : Option (Vector UInt8 size) := bn.bn2lebinpad n size

namespace Bignum.Documented
variable {bn} (h : bn.Documented)
include h

theorem bigNumber_eq {size : ℕ} (bytes : Vector UInt8 size) :
    bigNumber bn bytes = ofLE bytes.toList := h.lebin2bn _

theorem bigNumber_g : bigNumber bn g = 7 := by rw [h.bigNumber_eq, ofLE_g]

theorem bigNumber_N : bigNumber bn N = modulus := by rw [h.bigNumber_eq, ofLE_N]

/-- A number that was reduced fits into 32 bytes. -/
theorem toByteArray_mod (n : ℕ) :
    toByteArray bn 32 (n % modulus) = some (lowBytes 32 (n % modulus)) := by
  rw [toByteArray, h.bn2lebinpad, if_pos (mod_modulus_lt n)]

theorem mod_N (a : ℕ) : bn.mod a (bigNumber bn N) = a % modulus := by
  rw [h.bigNumber_N, h.mod a modulus (NeZero.ne _)]

theorem modExp_N (a e : ℕ) : bn.modExp a e (bigNumber bn N) = a ^ e % modulus := by
  rw [h.bigNumber_N, h.modExp a e modulus (NeZero.ne _)]

end Bignum.Documented

/-! ## The server -/

variable (sha1 : List UInt8 → Digest)

/-- The power of `_g` in `CalculateVerifier`. -/
def powerOf (digest : Digest) : Option (Vector UInt8 32) :=
  toByteArray bn 32 (bn.modExp (bigNumber bn g) (bigNumber bn digest) (bigNumber bn N))

/-- `_B` -/
def ephemeralKeyB (b v : ℕ) : Option EphemeralKey :=
  let _N := bigNumber bn N
  toByteArray bn 32 (bn.mod (bn.add (bn.modExp (bigNumber bn g) b _N) (bn.mul v 3)) _N)

/-- `SRP6` -/
structure Srp6Server where
  used : Bool := false
  I : Digest
  b : ℕ
  v : ℕ
  s : Vector UInt8 32
  B : EphemeralKey
  deriving DecidableEq, Repr

/-- The constructor, with the bytes that are drawn at random. -/
def Srp6Server.new (username : List UInt8) (salt verifier random : Vector UInt8 32) :
    Option Srp6Server := do
  let B ← ephemeralKeyB bn (bigNumber bn random) (bigNumber bn verifier)
  return {
    I := sha1 username
    b := bigNumber bn random
    v := bigNumber bn verifier
    s := salt
    B }

/-- The loop of `SHA1Interleave`: how many bytes are zero at the start. -/
def firstNonzero : List UInt8 → ℕ
  | [] => 0
  | b :: bs => if b = 0 then firstNonzero bs + 1 else 0

/-- `GetDigestOf` for the end of a buffer; `none` is a read in front of it. -/
def digestFrom (buf : Vector UInt8 16) (p : ℕ) : Option Digest :=
  if p ≤ 16 then some (sha1 (buf.toList.drop p)) else none

def sha1Interleave (S : EphemeralKey) : Option SessionKey := do
  let buf0 : Vector UInt8 16 := .ofFn fun i => S.get ⟨2 * i, by omega⟩
  let buf1 : Vector UInt8 16 := .ofFn fun i => S.get ⟨2 * i + 1, by omega⟩
  let p := firstNonzero S.toList
  let p := if p % 2 = 1 then p + 1 else p
  let p := p / 2
  let hash0 ← digestFrom sha1 buf0 p
  let hash1 ← digestFrom sha1 buf1 p
  return .ofFn fun i =>
    if i.val % 2 = 0 then hash0.get ⟨i / 2, by omega⟩ else hash1.get ⟨i / 2, by omega⟩

/-- `H(N) xor H(g)` -/
def ngHash : Digest := Vector.zipWith (· ^^^ ·) (sha1 N.toList) (sha1 g.toList)

/-- The proof that is expected for a session key. -/
def expectedM (I : Digest) (s : Vector UInt8 32) (A B : EphemeralKey) (K : SessionKey) : Digest :=
  sha1 ((ngHash sha1).toList ++ I.toList ++ s.toList ++ A.toList ++ B.toList ++ K.toList)

/-- `VerifyChallengeResponse`; `none` is a failed `ASSERT`. -/
def verifyChallengeResponse (server : Srp6Server) (A : EphemeralKey) (clientM : Digest) :
    Option (Option SessionKey × Srp6Server) :=
  if server.used then none
  else
    let server := { server with used := true }
    let _A := bigNumber bn A
    if bn.mod _A (bigNumber bn N) = 0 then some (none, server)
    else do
      let u := bigNumber bn (sha1 (A.toList ++ server.B.toList))
      let S ← toByteArray bn 32
        (bn.modExp (bn.mul _A (bn.modExp server.v u (bigNumber bn N))) server.b (bigNumber bn N))
      let K ← sha1Interleave sha1 S
      let ourM := expectedM sha1 server.I server.s A server.B K
      if ourM = clientM then return (some K, server) else return (none, server)

/-! ## No assertion but the first one -/

theorem firstNonzero_le (bytes : List UInt8) : firstNonzero bytes ≤ bytes.length := by
  induction bytes with
  | nil => simp [firstNonzero]
  | cons b bytes ih =>
      rw [firstNonzero]
      split_ifs
      · simpa using ih
      · simp

/-- The halves are never read in front of their start, also when all the bytes are zero. -/
theorem exists_sha1Interleave (S : EphemeralKey) : ∃ K, sha1Interleave sha1 S = some K := by
  have hle := firstNonzero_le S.toList
  rw [Vector.length_toList] at hle
  have hp : (if firstNonzero S.toList % 2 = 1 then firstNonzero S.toList + 1
      else firstNonzero S.toList) / 2 ≤ 16 := by
    split_ifs <;> omega
  simp [sha1Interleave, digestFrom, hp]

/-! ## The arithmetic of the exchange -/

/-- The constants modulo `N`. -/
def srp : Srp (ZMod modulus) := ⟨7, 3⟩

theorem natCast_seven : ((7 : ℕ) : ZMod modulus) = srp.g := Nat.cast_ofNat

theorem pow_mod_modulus (a e : ℕ) : a ^ e % modulus = ((a : ZMod modulus) ^ e).val := by
  rw [← Nat.cast_pow, ZMod.val_natCast]

/-- A residue is read back from its bytes. -/
@[simp] theorem natCast_ofLE_lowBytes_val (z : ZMod modulus) :
    ((ofLE (lowBytes 32 z.val).toList : ℕ) : ZMod modulus) = z := by
  rw [ofLE_lowBytes (z.val_lt.trans modulus_lt), ZMod.natCast_zmod_val]

section Arithmetic
variable {bn} (h : bn.Documented)
include h

/-- The power of a registration never fails, and it is the verifier of the exchange. -/
theorem powerOf_eq (digest : Digest) :
    powerOf bn digest = some (lowBytes 32 (srp.verifier (ofLE digest.toList)).val) := by
  rw [powerOf, h.modExp_N, h.bigNumber_g, h.bigNumber_eq, h.toByteArray_mod, pow_mod_modulus,
    natCast_seven]
  rfl

/-- The functions that `CalculateVerifier` needs. -/
def srp6 : Srp6 where
  sha1 := sha1
  modExp := fun digest => (powerOf bn digest).get (by simp [powerOf_eq h])

/-- `CalculateVerifier` yields the verifier of the exchange. -/
theorem natCast_calculateVerifier (username password salt : List UInt8) :
    ((ofLE ((srp6 sha1 h).calculateVerifier username password salt).toList : ℕ) : ZMod modulus) =
      srp.verifier
        (ofLE (sha1 (salt ++ (sha1 (username ++ [0x3a] ++ password)).toList)).toList) := by
  simp only [Srp6.calculateVerifier, srp6, powerOf_eq h, Option.get_some,
    natCast_ofLE_lowBytes_val]

/-- `_B` never fails, and it is the server's key of the exchange. -/
theorem ephemeralKeyB_eq (b v : ℕ) :
    ephemeralKeyB bn b v = some (lowBytes 32 (srp.serverKey (v : ZMod modulus) b).val) := by
  rw [ephemeralKeyB, h.mod_N, h.toByteArray_mod, h.add, h.mul, h.modExp_N, h.bigNumber_g,
    ← ZMod.val_natCast]
  congr 3
  simp [Srp.serverKey, srp, mul_comm, add_comm]

/-- The server makes the secret of the exchange, and the number fits into its array. -/
theorem toByteArray_serverSecret (A v u b : ℕ) :
    toByteArray bn 32
        (bn.modExp (bn.mul A (bn.modExp v u (bigNumber bn N))) b (bigNumber bn N)) =
      some (lowBytes 32 (Srp.serverSecret (A : ZMod modulus) v u b).val) := by
  rw [h.modExp_N, h.mul, h.modExp_N, h.toByteArray_mod, ← ZMod.val_natCast]
  congr 3
  simp [Srp.serverSecret]

/-- **The answer to a client.**  A server that was not used yet makes the session key of the
exchange, and gives it to a client whose key is no multiple of `N` and who has the proof; no
assertion fails, whatever the verifier and the key are. -/
theorem verifyChallengeResponse_eq {server : Srp6Server} (hused : server.used = false)
    (A : EphemeralKey) (clientM : Digest) :
    ∃ K, sha1Interleave sha1 (lowBytes 32 (Srp.serverSecret (ofLE A.toList : ZMod modulus) server.v
        (ofLE (sha1 (A.toList ++ server.B.toList)).toList) server.b).val) = some K ∧
      verifyChallengeResponse bn sha1 server A clientM =
        some (if (ofLE A.toList : ZMod modulus) ≠ 0 ∧
            expectedM sha1 server.I server.s A server.B K = clientM then some K else none,
          { server with used := true }) := by
  obtain ⟨K, hK⟩ := exists_sha1Interleave sha1 (lowBytes 32
    (Srp.serverSecret (ofLE A.toList : ZMod modulus) server.v
      (ofLE (sha1 (A.toList ++ server.B.toList)).toList) server.b).val)
  refine ⟨K, hK, ?_⟩
  have hzero : ofLE A.toList % modulus = 0 ↔ (ofLE A.toList : ZMod modulus) = 0 := by
    rw [ZMod.natCast_eq_zero_iff, Nat.dvd_iff_mod_eq_zero]
  rw [verifyChallengeResponse, if_neg (by simp [hused])]
  simp only [h.mod_N, toByteArray_serverSecret h]
  simp only [h.bigNumber_eq, hzero, Option.bind_eq_bind, Option.bind_some, hK]
  by_cases hA : (ofLE A.toList : ZMod modulus) = 0
  · simp [hA]
  · by_cases hM : expectedM sha1 server.I server.s A server.B K = clientM
    · simp [hA, hM]
    · simp [hA, hM]

end Arithmetic

/-! ## A client -/

/-- The key that a client sends. -/
def clientKeyA (a : ℕ) : EphemeralKey := lowBytes 32 (srp.clientKey a).val

/-- The session key of a client who knows the password, for the key of the server. -/
def clientSessionKey (username password : List UInt8) (salt : Vector UInt8 32) (B : EphemeralKey)
    (a : ℕ) : Option SessionKey :=
  let x := ofLE (sha1 (salt.toList ++ (sha1 (username ++ [0x3a] ++ password)).toList)).toList
  let u := ofLE (sha1 ((clientKeyA a).toList ++ B.toList)).toList
  sha1Interleave sha1 (lowBytes 32 (srp.clientSecret (ofLE B.toList) x u a).val)

/-- The key of a client is no multiple of `N`, whatever exponent it has drawn. -/
theorem clientKey_ne_zero (a : ℕ) : srp.clientKey a ≠ 0 := by
  have : Fact (1 < modulus) := ⟨by decide⟩
  have hunit : IsUnit ((7 : ℕ) : ZMod modulus) :=
    (ZMod.isUnit_iff_coprime 7 modulus).mpr (by decide)
  exact (hunit.pow a).ne_zero

variable {bn}

/-- **A client with the password is accepted, and both sides have the same session key**, for every
name, password, salt and digest, and whatever exponents are drawn.  The first challenge of any
client, also of one without the password, is answered without a failed assertion. -/
theorem verifyChallengeResponse_client (h : bn.Documented) (username password : List UInt8)
    (salt random : Vector UInt8 32) (a : ℕ) :
    ∃ server K, Srp6Server.new bn sha1 username salt
        ((srp6 sha1 h).calculateVerifier username password salt.toList) random = some server ∧
      (∀ A clientM, ∃ key, verifyChallengeResponse bn sha1 server A clientM =
        some (key, { server with used := true })) ∧
      clientSessionKey sha1 username password salt server.B a = some K ∧
      verifyChallengeResponse bn sha1 server (clientKeyA a)
          (expectedM sha1 (sha1 username) salt (clientKeyA a) server.B K) =
        some (some K, { server with used := true }) := by
  have hverifier := natCast_calculateVerifier sha1 h username password salt.toList
  generalize hv : (srp6 sha1 h).calculateVerifier username password salt.toList = v at hverifier
  generalize hx :
    ofLE (sha1 (salt.toList ++ (sha1 (username ++ [0x3a] ++ password)).toList)).toList = x
    at hverifier
  let server : Srp6Server := {
    I := sha1 username
    b := bigNumber bn random
    v := bigNumber bn v
    s := salt
    B := lowBytes 32 (srp.serverKey (srp.verifier x) (bigNumber bn random)).val }
  have hserver : (server.v : ZMod modulus) = srp.verifier x := by
    change ((bigNumber bn v : ℕ) : ZMod modulus) = _
    rw [h.bigNumber_eq, hverifier]
  have hnew : Srp6Server.new bn sha1 username salt v random = some server := by
    simp only [Srp6Server.new, ephemeralKeyB_eq h, Option.bind_eq_bind, Option.bind_some]
    rw [show ((bigNumber bn v : ℕ) : ZMod modulus) = srp.verifier x from hserver]
    rfl
  have hA : (ofLE (clientKeyA a).toList : ZMod modulus) = srp.clientKey a :=
    natCast_ofLE_lowBytes_val _
  have hB : (ofLE server.B.toList : ZMod modulus) =
      srp.serverKey (srp.verifier x) (bigNumber bn random) := natCast_ofLE_lowBytes_val _
  obtain ⟨K, hK⟩ := exists_sha1Interleave sha1 (lowBytes 32
    (Srp.serverSecret (srp.clientKey a) (srp.verifier x)
      (ofLE (sha1 ((clientKeyA a).toList ++ server.B.toList)).toList) server.b).val)
  obtain ⟨K', hK', hverify⟩ := verifyChallengeResponse_eq sha1 h (rfl : server.used = false)
    (clientKeyA a) (expectedM sha1 (sha1 username) salt (clientKeyA a) server.B K)
  rw [hA, hserver, hK] at hK'
  cases hK'
  refine ⟨server, K, hnew, ?_, ?_, ?_⟩
  · intro A clientM
    obtain ⟨K', -, hany⟩ := verifyChallengeResponse_eq sha1 h (rfl : server.used = false) A clientM
    exact ⟨_, hany⟩
  · rw [Srp.serverSecret_eq_clientSecret] at hK
    simpa only [clientSessionKey, hx, hB] using hK
  · rw [hverify, if_pos ⟨hA ▸ clientKey_ne_zero a, rfl⟩]

/-- The functions as they are documented. -/
def documentedBignum : Bignum where
  lebin2bn := ofLE
  bn2lebinpad := fun n size => if n < 256 ^ size then some (lowBytes size n) else none
  add := (· + ·)
  mul := (· * ·)
  mod := (· % ·)
  modExp := fun a e m => a ^ e % m

theorem documented_documentedBignum : documentedBignum.Documented :=
  ⟨fun _ => rfl, fun _ _ => rfl, fun _ _ => rfl, fun _ _ => rfl, fun _ _ _ => rfl,
    fun _ _ _ _ => rfl⟩

/-- BOB with the key K. -/
theorem verifyChallengeResponse_client_bob :
    documentedBignum.Documented ∧ ∀ sha1 : List UInt8 → Digest,
      ∃ server K, Srp6Server.new documentedBignum sha1 [0x42, 0x4f, 0x42] (Vector.replicate 32 1)
          ((srp6 sha1 documented_documentedBignum).calculateVerifier [0x42, 0x4f, 0x42] [0x4b]
            (Vector.replicate 32 1).toList) (Vector.replicate 32 2) = some server ∧
        (∀ A clientM, ∃ key, verifyChallengeResponse documentedBignum sha1 server A clientM =
          some (key, { server with used := true })) ∧
        clientSessionKey sha1 [0x42, 0x4f, 0x42] [0x4b] (Vector.replicate 32 1) server.B 5 =
          some K ∧
        verifyChallengeResponse documentedBignum sha1 server (clientKeyA 5)
            (expectedM sha1 (sha1 [0x42, 0x4f, 0x42]) (Vector.replicate 32 1) (clientKeyA 5)
              server.B K) =
          some (some K, { server with used := true }) :=
  ⟨documented_documentedBignum, fun sha1 => verifyChallengeResponse_client sha1
    documented_documentedBignum _ _ _ _ _⟩

end WarheadDiscord.Crypto
