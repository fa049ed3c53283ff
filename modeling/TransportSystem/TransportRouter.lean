import TransportSystem.Router
import TransportSystem.TransportCatalogue

/-!
The router of `transport_router.h` and `transport_router.cpp`. Its times are
`double`; the model takes any type with the operations the code applies to
them.
-/

namespace TransportSystem

open TransportSystem.Graph
open Library.UniqueKeys

structure ComponentTrip (W : Type) where
  name : Str
  weight : W
  spanCount : Option Nat
  deriving DecidableEq, Repr

structure RouteInfo (W : Type) where
  items : List (ComponentTrip W)
  totalTime : W
  deriving DecidableEq, Repr

structure RoutingSettings where
  busWaitTime : UInt16
  busVelocity : UInt16
  deriving DecidableEq, Repr

/-- `transport_router::VertexId` -/
structure StopVertices where
  inVertex : VertexId
  outVertex : VertexId
  deriving DecidableEq, Repr

/-- `TransportRouter`. `db_` is a reference to a catalogue that does not change
while the router exists. -/
structure TransportRouter (W : Type) where
  settings : RoutingSettings
  db : TransportCatalogue
  totalVertex : VertexId
  graphOfStops : DirectedWeightedGraph W
  router : Router W
  stopVertexs : UnorderedMap Str StopVertices
  infoAboutEdge : UnorderedMap EdgeId (ComponentTrip W)

namespace TransportRouter

/-- The members of a `TransportRouter` that `CreateGraph` fills. -/
structure GraphState (W : Type) where
  totalVertex : VertexId
  graphOfStops : DirectedWeightedGraph W
  stopVertexs : UnorderedMap Str StopVertices
  infoAboutEdge : UnorderedMap EdgeId (ComponentTrip W)

variable {W : Type}

section Construction

variable [NatCast W] [Mul W] [Div W]

def calculateTimeBetweenStations (rs : RoutingSettings) (db : TransportCatalogue)
    (firstStop secondStop : Str) : Except Failure W := do
  let lenght ← db.getLenghtBetweenStops firstStop secondStop
  pure ((lenght.toNat : W) / (((1000 : Nat) : W) * (rs.busVelocity.toNat : W)) *
    ((60 : Nat) : W))

/-- `info_about_edge.emplace(graph_of_stops.AddEdge(edge), trip)` -/
def addEdgeWithInfo (edge : Edge W) (trip : ComponentTrip W) (s : GraphState W) :
    Except Failure (GraphState W) := do
  let (id, graph) := s.graphOfStops.addEdge edge
  pure { s with
    graphOfStops := graph
    infoAboutEdge := s.infoAboutEdge.emplace (← id) trip }

def createVertex (rs : RoutingSettings) (stop : Stop) (s : GraphState W) :
    Except Failure (GraphState W) := do
  let vertices := (s.stopVertexs.lookup stop.name).getD ⟨0, 0⟩
  let s := { s with
    stopVertexs := s.stopVertexs.assign stop.name { vertices with inVertex := s.totalVertex }
    totalVertex := s.totalVertex + 1 }
  let vertices := (s.stopVertexs.lookup stop.name).getD ⟨0, 0⟩
  let s := { s with
    stopVertexs := s.stopVertexs.assign stop.name { vertices with outVertex := s.totalVertex }
    totalVertex := s.totalVertex + 1 }
  let vertices ← mapAt s.stopVertexs stop.name
  addEdgeWithInfo ⟨vertices.inVertex, vertices.outVertex, (rs.busWaitTime.toNat : W)⟩
    ⟨stop.name, (rs.busWaitTime.toNat : W), none⟩ s

variable [Zero W] [Add W]

/-- The inner loops of `CreateEdge`: the stops still to come, after the stop
`prev` and `stopsCount` stops beyond the first. -/
def createEdgesFrom (rs : RoutingSettings) (db : TransportCatalogue) (bus : Bus)
    (firstId : VertexId) (prev : StopPtr) (timeToRoad : W) (stopsCount : Nat) :
    List StopPtr → GraphState W → Except Failure (GraphState W)
  | [], s => .ok s
  | next :: rest, s => do
      let secondId := (← mapAt s.stopVertexs (db.stop next).name).inVertex
      let time ← calculateTimeBetweenStations rs db (db.stop prev).name (db.stop next).name
      let timeToRoad := timeToRoad + time
      let stopsCount := stopsCount + 1
      let s ← addEdgeWithInfo ⟨firstId, secondId, timeToRoad⟩
        ⟨bus.name, timeToRoad, some stopsCount⟩ s
      createEdgesFrom rs db bus firstId next timeToRoad stopsCount rest s

/-- The outer loops of `CreateEdge`, over `bus.stops` forwards or backwards. -/
def createEdgesAlong (rs : RoutingSettings) (db : TransportCatalogue) (bus : Bus) :
    List StopPtr → GraphState W → Except Failure (GraphState W)
  | [], s => .ok s
  | first :: rest, s => do
      let firstId := (← mapAt s.stopVertexs (db.stop first).name).outVertex
      let s ← createEdgesFrom rs db bus firstId first 0 0 rest s
      createEdgesAlong rs db bus rest s

def createEdge (rs : RoutingSettings) (db : TransportCatalogue) (bus : Bus)
    (s : GraphState W) : Except Failure (GraphState W) := do
  let s ← createEdgesAlong rs db bus bus.stops s
  if ¬ bus.isLoopTrip then
    createEdgesAlong rs db bus bus.stops.reverse s
  else pure s

def createGraph (rs : RoutingSettings) (db : TransportCatalogue) (s : GraphState W) :
    Except Failure (GraphState W) := do
  let s ← db.allStops.foldlM (fun s stop => createVertex rs stop s) s
  db.allBuses.foldlM (fun s bus => createEdge rs db bus s) s

variable [LT W] [DecidableLT W]

/-- `TransportRouter(rs, db)` -/
def make (rs : RoutingSettings) (db : TransportCatalogue) :
    Except Failure (TransportRouter W) := do
  let s : GraphState W :=
    { totalVertex := 0
      graphOfStops := DirectedWeightedGraph.ofVertexCount (db.allStops.length * 2)
      stopVertexs := ∅
      infoAboutEdge := ∅ }
  let s ← createGraph rs db s
  let router ← Router.ofGraph s.graphOfStops
  pure
    { settings := rs
      db := db
      totalVertex := s.totalVertex
      graphOfStops := s.graphOfStops
      router := router
      stopVertexs := s.stopVertexs
      infoAboutEdge := s.infoAboutEdge }

end Construction

variable [Zero W] [Add W]

/-- The loop of `GetRouteInfo` over the edges of the route. -/
def addItems (infoAboutEdge : UnorderedMap EdgeId (ComponentTrip W)) :
    List EdgeId → RouteInfo W → Except Failure (RouteInfo W)
  | [], result => .ok result
  | id :: ids, result => do
      let info ← mapAt infoAboutEdge id
      let item : ComponentTrip W :=
        match info.spanCount with
        | some spanCount => ⟨info.name, info.weight, some spanCount⟩
        | none => ⟨info.name, info.weight, none⟩
      addItems infoAboutEdge ids
        { items := result.items ++ [item], totalTime := result.totalTime + info.weight }

def getRouteInfo (tr : TransportRouter W) (origin target : Str) :
    Except Failure (Option (RouteInfo W)) := do
  if origin ∉ tr.stopVertexs then
    throw (.logicError "there is no starting stop")
  let originVertices ← mapAt tr.stopVertexs origin
  let targetVertices ← mapAt tr.stopVertexs target
  match ← tr.router.buildRoute originVertices.inVertex targetVertices.inVertex with
  | none => pure none
  | some routeInfo => do
      let result ← addItems tr.infoAboutEdge routeInfo.edges { items := [], totalTime := 0 }
      pure (some result)

end TransportRouter

end TransportSystem
