import GfwProxy.Conf.Parse

set_option autoImplicit false

/-!
# Documents and configurations

What a well-formed stream of events is, independently of the code that reads it: the events of one
document, which is a tree of scalars, sequences and mappings.  A configuration is a document with
the structure that the comment in `conf_validate_structure` shows.

## Main definitions

* `GfwProxy.Node`, `GfwProxy.Node.events`, `GfwProxy.stream` — documents and their events.
* `GfwProxy.ConfPool`, `GfwProxy.document` — the pools of a configuration, and its document.
* `GfwProxy.poolsCalls` — the calls of `conf_handler` that a configuration stands for.
-/

namespace GfwProxy

/-- A document without aliases. -/
inductive Node
  | scalar (value : List UInt8)
  | sequence (elems : List Node)
  | mapping (pairs : List (Node × Node))

mutual

/-- The events of a document. -/
def Node.events : Node → List YamlEvent
  | .scalar value => [.scalar value]
  | .sequence elems => .sequenceStart :: (elemsEvents elems ++ [.sequenceEnd])
  | .mapping pairs => .mappingStart :: (pairsEvents pairs ++ [.mappingEnd])

/-- The events of the elements of a sequence. -/
def elemsEvents : List Node → List YamlEvent
  | [] => []
  | n :: ns => n.events ++ elemsEvents ns

/-- The events of the keys and values of a mapping. -/
def pairsEvents : List (Node × Node) → List YamlEvent
  | [] => []
  | (key, value) :: pairs => key.events ++ (value.events ++ pairsEvents pairs)

end

/-- The well-formed stream of events with exactly one document. -/
def stream (n : Node) : List YamlEvent :=
  .streamStart :: .documentStart :: (n.events ++ [.documentEnd, .streamEnd])

/-- The value of a directive: a scalar or a sequence of scalars. -/
inductive ConfValue
  | scalar (value : List UInt8)
  | sequence (values : List (List UInt8))
  deriving DecidableEq, Repr

/-- A pool of a configuration. -/
structure ConfPool where
  name : List UInt8
  entries : List (List UInt8 × ConfValue)
  deriving DecidableEq, Repr

/-- The document of a value. -/
def ConfValue.node : ConfValue → Node
  | .scalar value => .scalar value
  | .sequence values => .sequence (values.map .scalar)

/-- The keys and values of a pool. -/
def entryPairs (entries : List (List UInt8 × ConfValue)) : List (Node × Node) :=
  entries.map fun e => (.scalar e.1, e.2.node)

/-- The keys and values of a configuration. -/
def poolPairs (pools : List ConfPool) : List (Node × Node) :=
  pools.map fun p => (.scalar p.name, .mapping (entryPairs p.entries))

/-- The document of a configuration. -/
def document (pools : List ConfPool) : Node := .mapping (poolPairs pools)

/-- The value is a sequence. -/
def ConfValue.isSequence : ConfValue → Bool
  | .scalar _ => false
  | .sequence _ => true

/-- Every pool has exactly one sequence. -/
def OneSequence (pools : List ConfPool) : Prop :=
  ∀ p ∈ pools, p.entries.countP (fun e => e.2.isSequence) = 1

/-! ## Calls -/

/-- One call for a scalar, one for each element of a sequence. -/
def valueCalls (pool : ℕ) (key : List UInt8) : ConfValue → List Call
  | .scalar value => [⟨pool, some key, value⟩]
  | .sequence values => values.map fun value => ⟨pool, some key, value⟩

/-- The calls for the directives of a pool. -/
def entriesCalls (pool : ℕ) (entries : List (List UInt8 × ConfValue)) : List Call :=
  entries.flatMap fun e => valueCalls pool e.1 e.2

/-- One call for the name of each pool, then the calls for its directives. -/
def poolsCalls : ℕ → List ConfPool → List Call
  | _, [] => []
  | pool, p :: ps =>
    ⟨pool, none, p.name⟩ :: (entriesCalls pool p.entries ++ poolsCalls (pool + 1) ps)

end GfwProxy
