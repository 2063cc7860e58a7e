import Mathlib.Algebra.Group.Nat.Defs
import Mathlib.Data.Int.Notation
import Mathlib.Data.List.Basic

set_option autoImplicit false

/-!
# Servers, pools and their continuum

The part of `struct server` and `struct server_pool` (`gf_server.h`) that the distribution
code of `hashkit/` and the ejection code of `gf_server.c` read and write.  A pool maps a key
to one of its servers through its *continuum*, an array of slots that each name a server.

## Main definitions

* `GfwProxy.Rstatus`, `GfwProxy.Fault` — the return codes of the source, and the ways in which
  a call can leave the defined behaviour of C.
* `GfwProxy.Continuum`, `GfwProxy.Server`, `GfwProxy.ServerPool` — the three structures.
* `GfwProxy.growContinuum`, `GfwProxy.writeSlots` — the `realloc` of the continuum and a run of
  consecutive writes into it.

## Design

Unsigned 32-bit fields are natural numbers; where the source adds to one without a check the
sum is taken modulo `2 ^ 32` (`u32`).  Times are integers, in microseconds, as returned by
`gf_usec_now`.
-/

namespace GfwProxy

/-- The return codes `GF_OK`, `GF_ERROR`, `GF_EAGAIN` and `GF_ENOMEM`. -/
inductive Rstatus
  | ok
  | error
  | eagain
  | enomem
  deriving DecidableEq, Repr

/-- The ways in which a run leaves the defined behaviour of C, plus the bound on the loops of
the model. -/
inductive Fault
  /-- A field of the null pointer is read or written. -/
  | nullDeref
  /-- An array is read or written outside its allocated slots, or a modulus is zero. -/
  | outOfBounds
  /-- The key array of a request is read after `msg_put` has destroyed it. -/
  | released
  /-- A loop of the model was given too few rounds to finish. -/
  | fuel
  deriving DecidableEq, Repr

/-- Reduction of a `uint32_t` sum. -/
def u32 (n : ℕ) : ℕ := n % 2 ^ 32

/-- One slot of the continuum (`struct continuum`). -/
structure Continuum where
  /-- server index -/
  index : ℕ
  /-- hash value -/
  value : ℕ
  deriving DecidableEq, Repr

/-- `dist_type_t`. -/
inductive DistType
  | ketama
  | modula
  | random
  deriving DecidableEq, Repr

/-- The fields of `struct server` that routing and ejection use. -/
structure Server where
  /-- hostname:port or [name], the input of ketama -/
  name : List UInt8
  /-- weight -/
  weight : ℕ
  /-- next retry time in usec -/
  nextRetry : ℤ := 0
  /-- # consecutive failures -/
  failureCount : ℕ := 0
  deriving DecidableEq, Repr

/-- The fields of `struct server_pool` that routing and ejection use, and the settings that the
connection code reads. -/
structure ServerPool where
  /-- server[] -/
  server : List Server
  /-- # continuum points -/
  ncontinuum : ℕ := 0
  /-- # servers the continuum was last sized for -/
  nserverContinuum : ℕ := 0
  /-- the allocated slots of the continuum -/
  continuum : List Continuum := []
  /-- # live server -/
  nliveServer : ℕ := 0
  /-- next distribution rebuild time in usec -/
  nextRebuild : ℤ := 0
  /-- distribution type -/
  distType : DistType := .modula
  /-- key hasher -/
  keyHash : List UInt8 → ℕ := fun _ => 0
  /-- key hash tag, the two bytes of the `hash_tag` string if it is not empty -/
  hashTag : Option (UInt8 × UInt8) := none
  /-- timeout in msec -/
  timeout : ℤ := -1
  /-- maximum # server connection -/
  serverConnections : ℕ := 1
  /-- server retry timeout in usec -/
  serverRetryTimeout : ℤ := 30000000
  /-- server failure limit -/
  serverFailureLimit : ℕ := 2
  /-- require_auth? -/
  requireAuth : Bool := false
  /-- auto_eject_hosts? -/
  autoEjectHosts : Bool := false
  /-- redis? -/
  redis : Bool := false

/-- `gf_realloc` of the continuum to `slots` slots: the slots kept hold what they held, the new
ones are unspecified and are filled with zeroes. -/
def growContinuum (slots : ℕ) (arr : List Continuum) : List Continuum :=
  arr.take slots ++ List.replicate (slots - arr.length) ⟨0, 0⟩

/-- Writing `pts` into consecutive slots of `arr` from slot `i` on, the running slot number
being a `uint32_t`; `none` when a write falls outside the allocated slots. -/
def writeSlots (arr : List Continuum) : ℕ → List Continuum → Option (List Continuum)
  | _, [] => some arr
  | i, p :: pts =>
    if i < arr.length then writeSlots (arr.set i p) (u32 (i + 1)) pts else none

/-- The array has as many points as it was made for. -/
@[simp] lemma length_growContinuum (slots : ℕ) (arr : List Continuum) :
    (growContinuum slots arr).length = slots := by
  simp only [growContinuum, List.length_append, List.length_take, List.length_replicate]
  omega

end GfwProxy
