import GfwProxy.Conf.Parse
import GfwProxy.Lib.Decimal
import GfwProxy.Util.String

set_option autoImplicit false

/-!
# The directive of a server

`conf_add_server` of `gf_conf.c` reads `hostname:port:weight [name]` or
`/path/unix_socket:weight [name]` from its end.

## Main definitions

* `GfwProxy.ConfServer` — a server of the configuration.
* `GfwProxy.gfAtoi`, `GfwProxy.gfValidPort` — `_gf_atoi` and `gf_valid_port`.
* `GfwProxy.confScan` — the loop over the delimiters.
* `GfwProxy.confAddServer` — `conf_add_server`.

## Design

The value of the directive is at the start of its memory and ends with a null byte.  Whether the
array of servers can grow and whether the copies of the strings find memory is answered by the
environment.  A signed overflow wraps around.
-/

namespace GfwProxy

/-- `struct conf_server`. -/
structure ConfServer where
  /-- server: as "hostname:port:weight" -/
  pname : List UInt8 := []
  /-- hostname:port or [name] -/
  name : List UInt8 := []
  /-- hostname -/
  addrstr : List UInt8 := []
  /-- port -/
  port : ℤ := 0
  /-- weight -/
  weight : ℤ := 1
  /-- valid? -/
  valid : Bool := false
  deriving DecidableEq, Repr

/-- Reduction to an `int`. -/
def int32 (n : ℤ) : ℤ := n.bmod (2 ^ 32)

/-- A small number is its `int32_t`. -/
lemma int32_of_lt {n : ℕ} (h : n < 2 ^ 31) : int32 n = n := by
  rw [int32, Int.bmod_def]
  have hmod : (n : ℤ) % ((2 ^ 32 : ℕ) : ℤ) = n := Int.emod_eq_of_lt (by omega) (by omega)
  rw [hmod]
  exact if_pos (by omega)

/-- A number is at least what it is as an `int`. -/
lemma int32_le (n : ℕ) : int32 n ≤ n := by
  rw [int32, Int.bmod_def]
  split_ifs
  · omega
  · omega

/-- The loop of `_gf_atoi`. -/
def gfAtoiLoop (value : ℤ) : List UInt8 → ℤ
  | [] => if value < 0 then -1 else value
  | c :: line =>
    if c.toNat < 48 ∨ 57 < c.toNat then -1
    else gfAtoiLoop (int32 (value * 10 + (c.toNat - 48 : ℕ))) line

/-- `_gf_atoi`. -/
def gfAtoi (line : List UInt8) : ℤ := if line.length = 0 then -1 else gfAtoiLoop 0 line

/-- `gf_valid_port`. -/
def gfValidPort (n : ℤ) : Bool := 1 ≤ n && n ≤ 65535

/-- `CONF_ERROR`. -/
def confError : String := "has an invalid value"

/-- `CONF_DEFAULT_KETAMA_PORT`. -/
def confDefaultKetamaPort : ℤ := 11211

/-! ## The scan for the delimiters -/

/-- A pointer and a length. -/
structure Field where
  ptr : ℕ
  len : ℕ
  deriving DecidableEq, Repr

/-- The variables of the loop over the delimiters; `behind` is the place behind `p`. -/
structure Fields where
  behind : ℕ
  name : Option Field := none
  weight : Option Field := none
  port : Option Field := none
  deriving DecidableEq, Repr

/-- The length of a field; it is 0 for a null pointer. -/
def fieldLen (f : Option Field) : ℕ := (f.map Field.len).getD 0

/-- The bytes of a field. -/
def fieldBytes (mem : List UInt8) : Option Field → List UInt8
  | none => []
  | some f => slice mem f.ptr f.len

/-- A read outside the memory. -/
def readConf {α : Type} (x : Except Fault α) : Except ConfFault α :=
  x.mapError fun _ => .outOfBounds

/-- `delim[k]`, with the terminator of the string. -/
def delim (k : ℕ) : Except ConfFault UInt8 := readConf (byteAt [32, 58, 58, 0] k)

/-- The switch of `conf_add_server`: delimiter `k` is at `q`. -/
def takeField (k q : ℕ) (f : Fields) : Except ConfFault Fields :=
  let field : Field := { ptr := q + 1, len := u32 (f.behind - (q + 1)) }
  match k with
  | 0 => return { f with name := some field }
  | 1 => return { f with weight := some field }
  | 2 => return { f with port := some field }
  | _ => throw .notReached

/-- The loop over the delimiters from number `k` on, with `n` rounds left, and the number at which
it ends. -/
def confScan (mem : List UInt8) : ℕ → ℕ → Fields → Except ConfFault (ℕ × Fields)
  | 0, k, f => return (k, f)
  | n + 1, k, f => do
    match ← readConf (gfStrrchr mem f.behind 0 (← delim k)) with
    | none =>
      -- name in "hostname:port:weight [name]" format string is optional
      if k = 0 then confScan mem n (k + 1) f else return (k, f)
    | some q =>
      let f ← takeField k q f
      confScan mem n (k + 1) { f with behind := q }

/-! ## The directive -/

/-- The pointer and the length of the name of a server. -/
def serverName (port : ℤ) (f : Fields) : Field :=
  match f.name with
  | some name => name
  | none =>
    if port = confDefaultKetamaPort then { ptr := 0, len := u32 f.behind }
    else { ptr := 0, len := u32 (u32 f.behind + 1 + fieldLen f.port) }

/-- The end of `conf_add_server`: the copies of the name and of the address. -/
def confAddName (strdup : ℕ → Bool) (mem : List UInt8) (f : Fields) (a : List ConfServer)
    (field : ConfServer) : Except ConfFault (Option String × List ConfServer) := do
  let name := serverName field.port f
  if !strdup 1 then return (some confError, a ++ [field])
  else
    let field := { field with name := ← stringCopy (mem.drop name.ptr) name.len }
    if !strdup 2 then return (some confError, a ++ [field])
    else
      let field := { field with addrstr := ← stringCopy mem (u32 f.behind) }
      return (none, a ++ [{ field with valid := true }])

/-- The middle of `conf_add_server`: the weight, and the port unless the address is a path. -/
def confAddNumbers (strdup : ℕ → Bool) (mem : List UInt8) (path : Bool) (f : Fields)
    (a : List ConfServer) (field : ConfServer) :
    Except ConfFault (Option String × List ConfServer) :=
  let field := { field with weight := gfAtoi (fieldBytes mem f.weight) }
  if field.weight < 0 then
    return (some "has an invalid weight in \"hostname:port:weight [name]\" format string",
      a ++ [field])
  else if field.weight = 0 then
    return (some "has a zero weight in \"hostname:port:weight [name]\" format string", a ++ [field])
  else if path then confAddName strdup mem f a field
  else
    let field := { field with port := gfAtoi (fieldBytes mem f.port) }
    if field.port < 0 ∨ !gfValidPort field.port then
      return (some "has an invalid port in \"hostname:port:weight [name]\" format string",
        a ++ [field])
    else confAddName strdup mem f a field

/-- What `conf_add_server` does with the fields, if their number is right. -/
def confAddFields (strdup : ℕ → Bool) (text : List UInt8) (path : Bool) (f : Fields)
    (a : List ConfServer) : Except ConfFault (Option String × List ConfServer) := do
  let mem := text ++ [0]
  let namelen := fieldLen f.name
  let pnamelen := if namelen > 0 then u32 (text.length - (namelen + 1)) else text.length
  -- array_pop
  if !strdup 0 then return (some confError, a)
  else
    let pname ← stringCopy mem pnamelen
    confAddNumbers strdup mem path f a { pname := pname }

/-- `conf_add_server` on the value `text` and the array `a`; the result is null or a message. -/
def confAddServer (push : Bool) (strdup : ℕ → Bool) (text : List UInt8) (a : List ConfServer) :
    Except ConfFault (Option String × List ConfServer) := do
  if !push then return (some confError, a)
  else
    let mem := text ++ [0]
    let path := (← readConf (byteAt mem 0)) = 47
    let delimlen := if path then 2 else 3
    -- the bound of the loop is the size of a pointer
    let (k, f) ← confScan mem 8 0 { behind := text.length }
    if k ≠ delimlen then
      return (some
        "has an invalid \"hostname:port:weight [name]\"or \"/path/unix_socket:weight [name]\" format string",
        a ++ [{}])
    else confAddFields strdup text path f a

end GfwProxy
