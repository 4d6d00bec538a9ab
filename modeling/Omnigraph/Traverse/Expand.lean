import Omnigraph.Compiler.Syntax
import Omnigraph.Error
import Omnigraph.Lib.Levels
import Omnigraph.Lib.Result
import Omnigraph.Traverse.Index

/-!
# The two traversal engines

One engine runs one search for each source row over the adjacency arrays of the graph index. The
other one advances the searches of all source rows together, level by level, and reads the edges of
the vertices reached last from the edge table. Both give pairs of a source row and a destination.
-/

namespace Omnigraph.Traverse

open Levels Omnigraph.Compiler

abbrev Edge := String × String

/-! ### Endpoints -/

inductive EndpointColumn
  | src
  | dst

def EndpointColumn.value : EndpointColumn → Edge → String
  | .src, edge => edge.1
  | .dst, edge => edge.2

/-- The keyed column of a scan and the opposite one. -/
structure Probe where
  key : EndpointColumn
  opposite : EndpointColumn

def endpointProbes : Direction → List Probe
  | .out => [⟨.src, .dst⟩]
  | .into => [⟨.dst, .src⟩]
  | .both => [⟨.src, .dst⟩, ⟨.dst, .src⟩]

/-- An edge as a probe reads it: the keyed endpoint and the opposite one. -/
def Probe.read (probe : Probe) (edge : Edge) : String × String :=
  (probe.key.value edge, probe.opposite.value edge)

/-- Cross-type edges do not chain. -/
def maxLevel (sameType : Bool) (minHops : ℕ) (maxHops : Option ℕ) : ℕ :=
  let hops := maxHops.getD (max minHops 1)
  if sameType then hops else min hops 1

def edgeEnds (edgeTypes : HashMap String (String × String)) (edgeType : String) :
    Except OmniError (String × String) :=
  match edgeTypes.lookup edgeType with
  | some ends => .ok ends
  | none => .error (.manifest s!"unknown edge type '{edgeType}'")

/-! ### The engine over adjacency arrays -/

/-- The levels of one search, up to the first one that reaches nothing. -/
def csrHops {V : Type} [DecidableEq V] (same : Bool) (minHops : ℕ) (neighbors : V → List V) :
    List ℕ → Levels.Row V → List V
  | [], _ => []
  | hop :: hops, row =>
    let h := row.advance same (minHops ≤ hop) neighbors
    h.emitted ++ if h.next = [] then [] else csrHops same minHops neighbors hops h.row

def typeIndexOf (index : GraphIndex) (type : String) : Except OmniError TypeIndex :=
  match index.typeIndices.lookup type with
  | some t => .ok t
  | none => .error (.manifest s!"no type index for '{type}'")

def adjacencyOf (arrays : HashMap String Csr) (edgeType : String) : Except OmniError Csr :=
  match arrays.lookup edgeType with
  | some csr => .ok csr
  | none => .error (.manifest s!"no adjacency index for edge '{edgeType}'")

/-- The arrays a direction walks. -/
def directionArrays (index : GraphIndex) (edgeType : String) :
    Direction → Except OmniError (List Csr)
  | .out => (adjacencyOf index.csr edgeType).map fun adj => [adj]
  | .into => (adjacencyOf index.csc edgeType).map fun adj => [adj]
  | .both => do
    let adj ← adjacencyOf index.csr edgeType
    let rev ← adjacencyOf index.csc edgeType
    return [adj, rev]

/-- The types of the sources and of the destinations. -/
def directionTypes (ends : String × String) : Direction → String × String
  | .out => (ends.1, ends.2)
  | .into => (ends.2, ends.1)
  | .both => (ends.1, ends.1)

/-- The pairs of one source row. A source without edges is not in the index. -/
def csrRow (srcIndex dstIndex : TypeIndex) (same : Bool) (minHops maxHops : ℕ)
    (neighbors : ℕ → List ℕ) (id : String) (row : ℕ) : List (ℕ × String) :=
  match srcIndex.toDense id with
  | none => []
  | some dense =>
    (csrHops same minHops neighbors (List.range' 1 maxHops) (.start same dense)).filterMap
      fun d => (dstIndex.toId d).map fun dst => (row, dst)

def executeExpandCsr (index : GraphIndex) (edgeTypes : HashMap String (String × String))
    (srcIds : List String) (edgeType : String) (direction : Direction) (minHops : ℕ)
    (maxHops : Option ℕ) : Except OmniError (List (ℕ × String)) := do
  let ends ← edgeEnds edgeTypes edgeType
  let types := directionTypes ends direction
  let srcIndex ← typeIndexOf index types.1
  let dstIndex ← typeIndexOf index types.2
  let arrays ← directionArrays index edgeType direction
  let same : Bool := types.1 = types.2
  return srcIds.zipIdx.flatMap fun p =>
    csrRow srcIndex dstIndex same minHops (maxLevel same minHops maxHops)
      (fun node => arrays.flatMap fun adj => adj.neighbors node) p.1 p.2

/-! ### The engine over edge scans -/

/-- The vertices that some search reached last, each once. -/
def unionFrontier {V : Type} [DecidableEq V] (rows : List (Levels.Row V)) : List V :=
  (rows.flatMap Levels.Row.frontier).foldl
    (fun seen node => if node ∈ seen then seen else seen ++ [node]) []

/-- The edges whose keyed endpoint is one of the keys, in the order the scan gives them. -/
def scanEdgesByEndpoint (order : IterOrder Edge) (edges : List Edge) (probe : Probe)
    (keys : List String) : List (String × String) :=
  (order.walk (edges.filter fun edge => probe.key.value edge ∈ keys)).map probe.read

/-- All scans of one level. -/
def scanProbes (order : Probe → IterOrder Edge) (edges : List Edge) (probes : List Probe)
    (keys : List String) : List (String × String) :=
  probes.flatMap fun probe => scanEdgesByEndpoint (order probe) edges probe keys

/-- Interns both endpoints of a scanned edge and adds it to the neighbours of the keyed one. -/
def addNeighbor (state : TypeIndex × HashMap ℕ (List ℕ)) (scanned : String × String) :
    TypeIndex × HashMap ℕ (List ℕ) :=
  let key := state.1.getOrInsert scanned.1
  let opposite := key.1.getOrInsert scanned.2
  (opposite.1, state.2.insert key.2 ((state.2.lookup key.2).getD [] ++ [opposite.2]))

/-- The pairs that the searches report at one level, row by row. -/
def reported {V : Type} (hops : List (Hop V)) : List (ℕ × V) :=
  hops.zipIdx.flatMap fun p => p.1.emitted.map fun v => (p.2, v)

/-- The levels of all searches, up to the first one that has nothing to read. `none` stands for a
panic: a number that the interner does not know. -/
def indexedHops (order : ℕ → Probe → IterOrder Edge) (edges : List Edge) (probes : List Probe)
    (same : Bool) (minHops : ℕ) :
    List ℕ → TypeIndex → List (Levels.Row ℕ) → Option (List (ℕ × ℕ) × TypeIndex)
  | [], interner, _ => some ([], interner)
  | hop :: hops, interner, rows =>
    if unionFrontier rows = [] then some ([], interner)
    else do
      let keys ← (unionFrontier rows).mapM interner.toId
      let read := (scanProbes (order hop) edges probes keys).foldl addNeighbor (interner, ∅)
      let advanced := rows.map fun row =>
        row.advance same (minHops ≤ hop) fun node => (read.2.lookup node).getD []
      let rest ← indexedHops order edges probes same minHops hops read.1 (advanced.map Hop.row)
      return (reported advanced ++ rest.1, rest.2)

/-- The searches start at the interned sources. -/
def internSources (same : Bool) (srcIds : List String) : TypeIndex × List (Levels.Row ℕ) :=
  srcIds.foldl (fun state id =>
    let interned := state.1.getOrInsert id
    (interned.1, state.2 ++ [.start same interned.2])) (.empty, [])

def executeExpandIndexed (order : ℕ → Probe → IterOrder Edge) (edges : List Edge)
    (edgeTypes : HashMap String (String × String)) (srcIds : List String) (edgeType : String)
    (direction : Direction) (minHops : ℕ) (maxHops : Option ℕ) :
    Except OmniError (Option (List (ℕ × String))) := do
  let ends ← edgeEnds edgeTypes edgeType
  let same : Bool := ends.1 = ends.2
  let start := internSources same srcIds
  return do
    let (pairs, interner) ← indexedHops order edges (endpointProbes direction) same minHops
      (List.range' 1 (maxLevel same minHops maxHops)) start.1 start.2
    pairs.mapM fun p => (interner.toId p.2).map fun dst => (p.1, dst)

end Omnigraph.Traverse
