import GfwProxy.Hashkit.ServerPool

set_option autoImplicit false

/-!
# Validating and parsing the configuration

`conf_validate_structure` and `conf_parse` of `gf_conf.c`, over the events that libyaml delivers.
Both read the same stream from its start: the first decides whether the file has the structure of a
configuration, the second builds the pools and trusts that it has.

## Main definitions

* `GfwProxy.YamlEvent` — the types of events, with the value of a scalar.
* `GfwProxy.confValidateStructure` — the validator.
* `GfwProxy.confParse`, with `GfwProxy.confBeginParse`, `GfwProxy.confParseCore` and
  `GfwProxy.confEndParse` — the parser.
* `GfwProxy.confHandler`, `GfwProxy.confPushScalar`, `GfwProxy.stringCopy` — what the parser calls.

## Design

`conf_event_next` takes the first event of a list; behind the last event libyaml delivers events of
type `YAML_NO_EVENT`.  A violated `ASSERT` or `NOT_REACHED` and an access outside an array are
faults.  What `conf_pool_init` and the `set` functions of the commands make of a pool and a value is
answered by the environment, from all calls of `conf_handler` so far, and so is whether an
allocation succeeds.
-/

namespace GfwProxy

/-- The events of libyaml. -/
inductive YamlEvent
  | none
  | streamStart
  | streamEnd
  | documentStart
  | documentEnd
  | alias
  | scalar (value : List UInt8)
  | sequenceStart
  | sequenceEnd
  | mappingStart
  | mappingEnd
  deriving DecidableEq, Repr

/-- How the parsing of a configuration can go wrong. -/
inductive ConfFault
  | assertion
  | notReached
  | outOfBounds
  | nullDeref
  deriving DecidableEq, Repr

/-- `CONF_ROOT_DEPTH`. -/
def confRootDepth : ℕ := 1

/-- `CONF_MAX_DEPTH`. -/
def confMaxDepth : ℕ := 2

/-- `CONF_DEFAULT_ARGS`. -/
def confDefaultArgs : ℕ := 3

/-- `CONF_DEFAULT_POOL`. -/
def confDefaultPool : ℕ := 8

/-! ## The validator -/

/-- The variables of `conf_validate_structure`. -/
structure Validation where
  depth : ℤ := 0
  count : List ℕ := [0, 0, 0]
  seq : Bool := false
  done : Bool := false
  error : Bool := false
  deriving DecidableEq, Repr

/-- `count[depth]`. -/
def Validation.getCount (v : Validation) : Except ConfFault ℕ :=
  if 0 ≤ v.depth ∧ v.depth.toNat < v.count.length then .ok (v.count.getD v.depth.toNat 0)
  else .error .outOfBounds

/-- `count[depth] = n`. -/
def Validation.setCount (v : Validation) (n : ℕ) : Except ConfFault Validation :=
  if 0 ≤ v.depth ∧ v.depth.toNat < v.count.length then
    .ok { v with count := v.count.set v.depth.toNat n }
  else .error .outOfBounds

/-- The start of a mapping: is it an error? -/
def mappingStartError (v : Validation) : Except ConfFault Bool := do
  if v.depth = confRootDepth then
    if (← v.getCount) ≠ 1 then return true
  return v.depth ≥ confMaxDepth

/-- The start of a sequence: is it an error? -/
def sequenceStartError (v : Validation) : Except ConfFault Bool := do
  if v.seq then return true
  else if v.depth ≠ confMaxDepth then return true
  else return (← v.getCount) ≠ 1

/-- A scalar, before it is counted. -/
def validateScalar (v : Validation) : Except ConfFault Validation := do
  if v.depth = 0 then return { v with error := true }
  else if v.depth = confRootDepth then
    if (← v.getCount) ≠ 0 then return { v with error := true } else return v
  else if v.depth = confMaxDepth then
    -- found a "key: value", resetting!
    if (← v.getCount) = 2 then v.setCount 0 else return v
  else return v

/-- The body of the loop of `conf_validate_structure`. -/
def confValidateEvent (v : Validation) : YamlEvent → Except ConfFault Validation
  | .streamStart => return v
  | .documentStart => return v
  | .documentEnd => return v
  | .streamEnd => return { v with done := true }
  | .mappingStart => do
    let error ← mappingStartError v
    return { v with error := v.error || error, depth := v.depth + 1 }
  | .mappingEnd => do
    let v := if v.depth = confMaxDepth then
        if v.seq then { v with seq := false } else { v with error := true }
      else v
    Validation.setCount { v with depth := v.depth - 1 } 0
  | .sequenceStart => do
    let error ← sequenceStartError v
    return { v with error := v.error || error, seq := true }
  | .sequenceEnd => if v.depth = confMaxDepth then v.setCount 0 else throw .assertion
  | .scalar _ => do
    let v ← validateScalar v
    v.setCount ((← v.getCount) + 1)
  | _ => throw .notReached

/-- The loop of `conf_validate_structure`. -/
def confValidateLoop (v : Validation) : List YamlEvent → Except ConfFault Rstatus
  | [] => throw .notReached
  | e :: es => do
    let v ← confValidateEvent v e
    if v.done || v.error then return if v.error then .error else .ok
    else confValidateLoop v es

/-- `conf_validate_structure`. -/
def confValidateStructure (es : List YamlEvent) : Except ConfFault Rstatus :=
  confValidateLoop {} es

/-! ## The parser -/

/-- A call of `conf_handler`: the pool `data`, the key unless the call is for a new pool, and the
value. -/
structure Call where
  pool : ℕ
  key : Option (List UInt8)
  value : List UInt8
  deriving DecidableEq, Repr

/-- The answers of the environment: whether the copy of a string finds memory, by the number of
copies before it, and whether a full array can grow, by the number of its elements; what
`conf_pool_init` and `cmd->set` return, by the calls of `conf_handler` so far. -/
structure ConfEnv where
  strdup : ℕ → Bool := fun _ => true
  argAlloc : ℕ → Bool := fun _ => true
  poolAlloc : ℕ → Bool := fun _ => true
  poolInit : List Call → Rstatus := fun _ => .ok
  set : List Call → Bool := fun _ => true

/-- The fields of `struct conf` that the parser reads and writes.  The last fields are ghosts: the
number of copies made, the calls of `conf_handler`, the strings that were pushed on `arg`, and the
largest number of strings that `arg` has held. -/
structure Conf where
  arg : List (List UInt8) := []
  npool : ℕ := 0
  depth : UInt32 := 0
  seq : Bool := false
  sound : Bool := true
  parsed : Bool := false
  tick : ℕ := 0
  calls : List Call := []
  stored : List (List UInt8) := []
  peak : ℕ := 0
  deriving DecidableEq, Repr

/-- `string_copy`, when it finds memory: `strndup` copies up to the first null byte, into a block
of that size; the terminator is written behind `srclen` bytes. -/
def stringCopy (src : List UInt8) (srclen : ℕ) : Except ConfFault (List UInt8) :=
  let data := (src.take (u32 (srclen + 1))).takeWhile (· ≠ 0)
  if srclen ≤ data.length then .ok (data.take srclen) else .error .outOfBounds

/-- `array_push(&cf->arg)`; `false` if the array is full and cannot grow. -/
def pushArg (env : ConfEnv) (value : List UInt8) (cf : Conf) : Bool × Conf :=
  if cf.arg.length ≥ confDefaultArgs ∧ !env.argAlloc cf.arg.length then (false, cf)
  else (true, { cf with arg := cf.arg ++ [value], peak := max cf.peak (cf.arg.length + 1) })

/-- `conf_push_scalar`. -/
def confPushScalar (env : ConfEnv) (scalar : List UInt8) (cf : Conf) :
    Except ConfFault (Rstatus × Conf) := do
  let scalarLen := u32 scalar.length
  if scalarLen = 0 then return (.error, cf)
  else if !(pushArg env [] cf).1 then return (.enomem, cf)
  else if !env.strdup cf.tick then
    -- array_pop
    return (.enomem, { (pushArg env [] cf).2 with arg := cf.arg, tick := cf.tick + 1 })
  else
    let value ← stringCopy scalar scalarLen
    return (.ok, { (pushArg env value cf).2 with
      tick := cf.tick + 1, stored := cf.stored ++ [value] })

/-- `conf_pop_scalar`. -/
def confPopScalar (cf : Conf) : Except ConfFault Conf :=
  if cf.arg = [] then throw .assertion else return { cf with arg := cf.arg.dropLast }

/-- The names in `conf_commands`. -/
def confCommands : List String :=
  ["listen", "hash", "hash_tag", "distribution", "timeout", "backlog",
    "client_connections", "redis", "tcpkeepalive", "reuseport", "redis_auth", "redis_db",
    "preconnect", "auto_eject_hosts", "server_connections", "server_retry_timeout",
      "server_failure_limit", "servers"]

/-- `string_compare` of a key with the names of the commands: is one of them equal? -/
def isCommand (key : List UInt8) : Bool := confCommands.any fun name => name.toUTF8.toList = key

/-- What the last call of `conf_handler` returns. -/
def ConfEnv.verdict (env : ConfEnv) (calls : List Call) (c : Call) : Rstatus :=
  match c.key with
  | none => env.poolInit (calls ++ [c])
  | some key => if isCommand key && env.set (calls ++ [c]) then .ok else .error

/-- The call that `conf_handler` makes of `data` and `arg`. -/
def handlerCall (data : Option ℕ) (arg : List (List UInt8)) : Except ConfFault Call :=
  match data with
  | none => throw .nullDeref
  | some pool =>
    match arg.reverse with
    | [] => throw .outOfBounds
    | [value] => return { pool := pool, key := none, value := value }
    | value :: key :: _ => return { pool := pool, key := some key, value := value }

/-- `conf_handler`. -/
def confHandler (env : ConfEnv) (data : Option ℕ) (cf : Conf) :
    Except ConfFault (Rstatus × Conf) := do
  let c ← handlerCall data cf.arg
  return (env.verdict cf.calls c, { cf with calls := cf.calls ++ [c] })

/-- What `conf_parse_core` does after an event: it returns, or goes on with the next event. -/
inductive ConfNext
  | ret (status : Rstatus)
  | again (data : Option ℕ)
  deriving DecidableEq, Repr

/-- `conf_parse_core` drops the value of a leaf, and its key unless that is for a sequence. -/
def confPopLeaf (cf : Conf) : Except ConfFault Conf := do
  let cf ← confPopScalar cf
  if cf.seq then return cf else confPopScalar cf

/-- `conf_parse_core` at a leaf. -/
def confParseLeaf (env : ConfEnv) (data : Option ℕ) (cf : Conf) :
    Except ConfFault (ConfNext × Conf) := do
  let (status, cf) ← confHandler env data cf
  let cf ← confPopLeaf cf
  return (if status ≠ .ok then .ret status else .again data, cf)

/-- `conf_parse_core` at the name of a pool. -/
def confParsePool (env : ConfEnv) (cf : Conf) : Except ConfFault (ConfNext × Conf) := do
  -- create new conf_pool
  if cf.npool ≥ confDefaultPool ∧ !env.poolAlloc cf.npool then return (.ret .enomem, cf)
  else
    let data := some cf.npool
    let (status, cf) ← confHandler env data { cf with npool := cf.npool + 1 }
    return (if status ≠ .ok then .ret status else .again data, cf)

/-- `conf_parse_core` takes appropriate action on a scalar that it has pushed. -/
def confParsePushed (env : ConfEnv) (data : Option ℕ) (cf : Conf) :
    Except ConfFault (ConfNext × Conf) :=
  if cf.seq then
    -- for a sequence, leaf is at CONF_MAX_DEPTH
    if cf.depth = 2 then confParseLeaf env data cf else throw .assertion
  else if cf.depth = 1 then confParsePool env cf
  else if cf.arg.length = (cf.depth + 1).toNat then
    -- for {key: value}, leaf is at CONF_MAX_DEPTH
    if cf.depth = 2 then confParseLeaf env data cf else throw .assertion
  else return (.again data, cf)

/-- `conf_parse_core` at a scalar. -/
def confParseScalar (env : ConfEnv) (value : List UInt8) (data : Option ℕ) (cf : Conf) :
    Except ConfFault (ConfNext × Conf) := do
  let (status, cf) ← confPushScalar env value cf
  if status ≠ .ok then return (.ret status, cf) else confParsePushed env data cf

/-- The body of `conf_parse_core`. -/
def confParseEvent (env : ConfEnv) (data : Option ℕ) (cf : Conf) :
    YamlEvent → Except ConfFault (ConfNext × Conf)
  | .mappingEnd => do
    let cf := { cf with depth := cf.depth - 1 }
    if cf.depth = 1 then return (.again data, ← confPopScalar cf)
    else if cf.depth = 0 then return (.ret .ok, cf)
    else return (.again data, cf)
  | .mappingStart => return (.again data, { cf with depth := cf.depth + 1 })
  | .sequenceStart => return (.again data, { cf with seq := true })
  | .sequenceEnd => do
    let cf ← confPopScalar cf
    return (.again data, { cf with seq := false })
  | .scalar value => confParseScalar env value data cf
  | _ => throw .notReached

/-- `conf_parse_core`, with the events that it leaves. -/
def confParseCore (env : ConfEnv) (data : Option ℕ) (cf : Conf) :
    List YamlEvent → Except ConfFault (Rstatus × Conf × List YamlEvent)
  | [] => throw .notReached
  | e :: es =>
    if !cf.sound then throw .assertion
    else do
      match ← confParseEvent env data cf e with
      | (.ret status, cf) => return (status, cf, es)
      | (.again data, cf) => confParseCore env data cf es

/-- The loop of `conf_begin_parse`. -/
def confBeginLoop (cf : Conf) : List YamlEvent → Except ConfFault (Conf × List YamlEvent)
  | .streamStart :: es => confBeginLoop cf es
  | .documentStart :: es => confBeginLoop cf es
  | .mappingStart :: es =>
    if cf.depth.toNat < confMaxDepth then return ({ cf with depth := cf.depth + 1 }, es)
    else throw .assertion
  | _ => throw .notReached

/-- `conf_begin_parse`. -/
def confBeginParse (cf : Conf) (es : List YamlEvent) : Except ConfFault (Conf × List YamlEvent) :=
  if !cf.sound || cf.parsed || cf.depth ≠ 0 then throw .assertion else confBeginLoop cf es

/-- The loop of `conf_end_parse`. -/
def confEndLoop : List YamlEvent → Except ConfFault (List YamlEvent)
  | .streamEnd :: es => return es
  | .documentEnd :: es => confEndLoop es
  | _ => throw .notReached

/-- `conf_end_parse`. -/
def confEndParse (cf : Conf) (es : List YamlEvent) : Except ConfFault (List YamlEvent) :=
  if !cf.sound || cf.parsed || cf.depth ≠ 0 then throw .assertion else confEndLoop es

/-- `conf_parse`, with the events that it leaves. -/
def confParse (env : ConfEnv) (cf : Conf) (es : List YamlEvent) :
    Except ConfFault (Rstatus × Conf × List YamlEvent) := do
  if !cf.sound || cf.parsed || cf.arg ≠ [] then throw .assertion
  else
    let (cf, es) ← confBeginParse cf es
    let (status, cf, es) ← confParseCore env none cf es
    if status ≠ .ok then return (status, cf, es)
    else
      let es ← confEndParse cf es
      return (.ok, { cf with parsed := true }, es)

end GfwProxy
