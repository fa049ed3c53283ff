import TransportSystem.Graph
import TransportSystem.Library.FloydWarshall

namespace TransportSystem.Graph

open Library.FloydWarshall

/-- `Router::RouteInternalData`, with the members `weight` and `prevEdge`. -/
abbrev RouteInternalData (W : Type) := Entry W EdgeId

abbrev RoutesInternalData (W : Type) := List (List (Option (RouteInternalData W)))

namespace RoutesInternalData

variable {W : Type}

/-- The content of `routes[i][j]`, which is also empty outside the matrix. -/
def get (routes : RoutesInternalData W) (i j : VertexId) : Option (RouteInternalData W) :=
  (routes.getD i []).getD j none

/-- `routes[i][j] = data` -/
def put (routes : RoutesInternalData W) (i j : VertexId) (data : RouteInternalData W) :
    RoutesInternalData W :=
  routes.modify i fun row => row.set j (some data)

/-- Assign a candidate to `routes[i][j]` if that is empty or heavier. -/
def putIfBetter [LT W] [DecidableLT W] (routes : RoutesInternalData W) (i j : VertexId)
    (candidate : RouteInternalData W) : RoutesInternalData W :=
  match routes.get i j with
  | none => routes.put i j candidate
  | some data =>
      if candidate.weight < data.weight then routes.put i j candidate
      else routes

end RoutesInternalData

/-- `Router`: the reference to its graph and the table of routes. -/
structure Router (W : Type) where
  graph : DirectedWeightedGraph W
  routesInternalData : RoutesInternalData W
  deriving DecidableEq, Repr

structure RouteInfo (W : Type) where
  weight : W
  edges : List EdgeId
  deriving DecidableEq, Repr

namespace Router

variable {W : Type} [Zero W] [Add W] [LT W] [DecidableLT W]

/-- The inner loop of `InitializeRoutesInternalData`, over the edges that leave
`vertex`. -/
def initializeRow (graph : DirectedWeightedGraph W) (vertex : VertexId) :
    List EdgeId → RoutesInternalData W → Except Failure (RoutesInternalData W)
  | [], routes => .ok routes
  | edgeId :: edgeIds, routes => do
      let edge ← graph.getEdge edgeId
      if edge.weight < 0 then
        throw (.domainError "Edges' weights should be non-negative")
      -- `routes_internal_data_[vertex][edge.to]` is unchecked
      if ¬ edge.target < graph.getVertexCount then
        throw .undefinedBehaviour
      initializeRow graph vertex edgeIds
        (routes.putIfBetter vertex edge.target ⟨edge.weight, some edgeId⟩)

/-- `InitializeRoutesInternalData`, over the vertices still to come. -/
def initializeRoutesInternalData (graph : DirectedWeightedGraph W) :
    List VertexId → RoutesInternalData W → Except Failure (RoutesInternalData W)
  | [], routes => .ok routes
  | vertex :: vertices, routes => do
      let routes := routes.put vertex vertex ⟨0, none⟩
      let routes ← initializeRow graph vertex (← graph.getIncidentEdges vertex) routes
      initializeRoutesInternalData graph vertices routes

def relaxRoute (routes : RoutesInternalData W) (vertexFrom vertexTo : VertexId)
    (routeFrom routeTo : RouteInternalData W) : RoutesInternalData W :=
  let candidateWeight := routeFrom.weight + routeTo.weight
  routes.putIfBetter vertexFrom vertexTo
    ⟨candidateWeight, if routeTo.prevEdge.isSome then routeTo.prevEdge else routeFrom.prevEdge⟩

/-- One turn of the inner loop of `RelaxRoutesInternalDataThroughVertex`. Both
routes are references into the table, read when the turn comes. -/
def relaxTo (vertexThrough vertexFrom : VertexId) (routes : RoutesInternalData W)
    (vertexTo : VertexId) : RoutesInternalData W :=
  match routes.get vertexThrough vertexTo, routes.get vertexFrom vertexThrough with
  | some routeTo, some routeFrom => relaxRoute routes vertexFrom vertexTo routeFrom routeTo
  | _, _ => routes

/-- One turn of the outer loop of `RelaxRoutesInternalDataThroughVertex`. -/
def relaxFrom (vertexCount : Nat) (vertexThrough : VertexId) (routes : RoutesInternalData W)
    (vertexFrom : VertexId) : RoutesInternalData W :=
  if (routes.get vertexFrom vertexThrough).isSome then
    (List.range vertexCount).foldl (relaxTo vertexThrough vertexFrom) routes
  else routes

def relaxRoutesInternalDataThroughVertex (vertexCount : Nat) (routes : RoutesInternalData W)
    (vertexThrough : VertexId) : RoutesInternalData W :=
  (List.range vertexCount).foldl (relaxFrom vertexCount vertexThrough) routes

/-- `Router(graph)` -/
def ofGraph (graph : DirectedWeightedGraph W) : Except Failure (Router W) := do
  let vertexCount := graph.getVertexCount
  let routes := List.replicate vertexCount (List.replicate vertexCount none)
  let routes ← initializeRoutesInternalData graph (List.range vertexCount) routes
  let routes :=
    (List.range vertexCount).foldl (relaxRoutesInternalDataThroughVertex vertexCount) routes
  pure { graph := graph, routesInternalData := routes }

omit [Zero W] [Add W] [LT W] [DecidableLT W] in
/-- The loop of `BuildRoute` that collects edges backwards. A row of the table
that is followed for more turns than it has entries is followed for ever, which
the fuel detects. -/
def collectEdges (router : Router W) (origin : VertexId) :
    Nat → Option EdgeId → Except Failure (List EdgeId)
  | _, none => .ok []
  | 0, some _ => .error .diverges
  | fuel + 1, some edgeId => do
      let edge ← router.graph.getEdge edgeId
      -- the unchecked `routes_internal_data_[from][edge.from]->prev_edge`
      match router.routesInternalData.get origin edge.source with
      | none => throw .undefinedBehaviour
      | some routeInternalData =>
          let edges ← collectEdges router origin fuel routeInternalData.prevEdge
          pure (edgeId :: edges)

omit [Zero W] [Add W] [LT W] [DecidableLT W] in
def buildRoute (router : Router W) (origin target : VertexId) :
    Except Failure (Option (RouteInfo W)) := do
  match router.routesInternalData[origin]? with
  | none => throw .outOfRange
  | some row =>
      match row[target]? with
      | none => throw .outOfRange
      | some none => pure none
      | some (some routeInternalData) =>
          let edges ← collectEdges router origin (row.length + 1) routeInternalData.prevEdge
          pure (some ⟨routeInternalData.weight, edges.reverse⟩)

end Router

end TransportSystem.Graph
