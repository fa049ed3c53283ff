import TransportSystem.Basic

namespace TransportSystem

namespace Graph

abbrev VertexId := Nat

abbrev EdgeId := Nat

structure Edge (W : Type) where
  source : VertexId
  target : VertexId
  weight : W
  deriving DecidableEq, Repr

structure DirectedWeightedGraph (W : Type) where
  edges : List (Edge W)
  incidenceLists : List (List EdgeId)
  deriving DecidableEq, Repr

namespace DirectedWeightedGraph

variable {W : Type}

/-- The constructor with a number of vertices. -/
def ofVertexCount (vertexCount : Nat) : DirectedWeightedGraph W :=
  { edges := [], incidenceLists := List.replicate vertexCount [] }

/-- `AddEdge`: the edge is stored before the checked access to the incidence
list of its source, so a call that throws leaves it behind. -/
def addEdge (g : DirectedWeightedGraph W) (edge : Edge W) :
    Except Failure EdgeId × DirectedWeightedGraph W :=
  let g := { g with edges := g.edges ++ [edge] }
  let id := g.edges.length - 1
  if edge.source < g.incidenceLists.length then
    (.ok id, { g with incidenceLists := g.incidenceLists.modify edge.source (· ++ [id]) })
  else (.error .outOfRange, g)

def getVertexCount (g : DirectedWeightedGraph W) : Nat := g.incidenceLists.length

def getEdgeCount (g : DirectedWeightedGraph W) : Nat := g.edges.length

def getEdge (g : DirectedWeightedGraph W) (edgeId : EdgeId) : Except Failure (Edge W) :=
  match g.edges[edgeId]? with
  | some edge => .ok edge
  | none => .error .outOfRange

def getIncidentEdges (g : DirectedWeightedGraph W) (vertex : VertexId) :
    Except Failure (List EdgeId) :=
  match g.incidenceLists[vertex]? with
  | some ids => .ok ids
  | none => .error .outOfRange

theorem getEdge_eq_ok_iff {g : DirectedWeightedGraph W} {id : EdgeId} {edge : Edge W} :
    g.getEdge id = .ok edge ↔ g.edges[id]? = some edge := by
  unfold getEdge
  cases g.edges[id]? <;> simp

theorem getIncidentEdges_eq_ok_iff {g : DirectedWeightedGraph W} {v : VertexId}
    {ids : List EdgeId} : g.getIncidentEdges v = .ok ids ↔ g.incidenceLists[v]? = some ids := by
  unfold getIncidentEdges
  cases g.incidenceLists[v]? <;> simp

end DirectedWeightedGraph

end Graph

end TransportSystem
