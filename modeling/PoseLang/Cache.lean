import PoseLang.Cache.Lru
import PoseLang.Compile

/-!
# A cache of results

Compiling depends on the source alone once the configuration is fixed, so results can be kept,
errors too. The cache holds as many as its capacity allows; a new one replaces the one that was
asked for least recently.

Entries are found by a hash of the source. An entry refers to a cell, into which the result is
written once. While a source is compiled its entry is pending, and cannot be dropped to make
room; only with a result does it come to the entries that are kept. Of two sources with one hash
the second is compiled on every request.
-/

namespace PoseLang

/-- A result as it is handed out. Only one result has a given number. -/
structure Outcome where
  result : Except CompileError Compiled
  /-- Which compile made the result, counted from 0. -/
  serial : Nat

/-- What is known of a source. -/
structure CacheEntry where
  source : String
  /-- The cell of the result. -/
  cell : Nat
deriving DecidableEq, Repr

/-- A cache for one configuration. -/
structure Cache where
  config : Config
  /-- The key of a source. -/
  hasher : String → UInt64
  /-- The entries with results. -/
  done : Lru UInt64 CacheEntry
  /-- The entries of sources that are being compiled. -/
  pending : List (UInt64 × CacheEntry) := []
  /-- The results, once they are there. -/
  cells : Array (Option Outcome) := #[]
  /-- How many compiles were made. -/
  compiles : Nat := 0

namespace Cache

/-- An empty cache, for a configuration that can be used and has a capacity. -/
def new (config : Config) (hasher : String → UInt64 := hash) : Except CompileError Cache := do
  config.check
  if h : 0 < config.cacheCapacity then
    return { config, hasher, done := .empty config.cacheCapacity h }
  else
    throw (.config .zeroCapacity)

/-- The cell of a source under its key, a new one if the key is not in use. There is none if another source
has the key. -/
def cellFor (c : Cache) (key : UInt64) (source : String) : Option Nat × Cache :=
  match c.done.get? key with
  | some (e, done) => (if e.source = source then some e.cell else none, { c with done })
  | none =>
    match c.pending.lookup key with
    | some e => (if e.source = source then some e.cell else none, c)
    | none =>
      (some c.cells.size, { c with
        pending := (key, ⟨source, c.cells.size⟩) :: c.pending
        cells := c.cells.push none })

/-- Compiles a source. -/
def compileAnew (c : Cache) (source : String) : Outcome × Cache :=
  (⟨compile c.config source, c.compiles⟩, { c with compiles := c.compiles + 1 })

/-- The result in a cell; if there is none yet, the source is compiled. -/
def fill (c : Cache) (cell : Nat) (source : String) : Outcome × Cache :=
  match c.cells[cell]? with
  | some (some o) => (o, c)
  | _ =>
    let (o, c) := c.compileAnew source
    (o, { c with cells := c.cells.setIfInBounds cell (some o) })

/-- Takes the entry of a cell over to those that are kept, if it is pending. -/
def promote (c : Cache) (key : UInt64) (cell : Nat) : Cache :=
  match c.pending.lookup key with
  | some e =>
    if e.cell = cell then
      { c with pending := c.pending.filter (·.1 ≠ key), done := c.done.put key e }
    else c
  | none => c

/-- The result for a source, which becomes the latest request. It is compiled if it is not kept. -/
def request (c : Cache) (source : String) : Outcome × Cache :=
  let key := c.hasher source
  match c.cellFor key source with
  | (some cell, c) =>
    let (o, c) := c.fill cell source
    (o, c.promote key cell)
  | (none, c) => c.compileAnew source

/-- Forgets all results that are kept. -/
def clear (c : Cache) : Cache := { c with done := c.done.clear }

/-- How many results are kept. -/
def size (c : Cache) : Nat := c.done.size

/-- Whether no result is kept. -/
def isEmpty (c : Cache) : Bool := c.size = 0

end Cache

end PoseLang
