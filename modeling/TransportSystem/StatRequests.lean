import TransportSystem.JsonBuilder
import TransportSystem.MakeBase
import TransportSystem.RequestHandler
import TransportSystem.SvgRender

namespace TransportSystem

open Json
open Library.UniqueKeys

/-- `RequestHandler`. Its pointer to a router may be null. -/
structure RequestHandler where
  db : TransportCatalogue
  render : MapRender
  router : Option (TransportRouter Double)

namespace RequestHandler

variable (handler : RequestHandler)

def getBusStat (m : Libm) (busName : Str) : Except Failure BusInfo :=
  handler.db.getInfoBus m busName

/-- `GetRouteStat`, which does not ask whether there is a router. -/
def getRouteStat (origin target : Str) : Except Failure (Option (RouteInfo Double)) :=
  match handler.router with
  | some router => router.getRouteInfo origin target
  | none => throw .undefinedBehaviour

end RequestHandler

namespace JsonReader

open RequestHandler (renderMap)

def responseRequestBus (busInfo : BusInfo) (id : Int32) : Except Failure (Node Double) :=
  if busInfo.exists_ then
    Builder.buildFrom
      [.startDict,
        .key "curvature".toList, .value (.double busInfo.curvature),
        .key "request_id".toList, .value (.int id),
        .key "route_length".toList, .value (.double busInfo.routeLength),
        .key "stop_count".toList, .value (.int (Int32.ofInt busInfo.quantityStop)),
        .key "unique_stop_count".toList, .value (.int (Int32.ofNat busInfo.uniqueStops)),
        .endDict]
  else
    Builder.buildFrom
      [.startDict,
        .key "request_id".toList, .value (.int id),
        .key "error_message".toList, .value (.string "not found".toList),
        .endDict]

/-- The common text of `JSON_ResponseRequestStop` and `JSON_ResponseRequesRouter`
for what there is not. -/
def responseNotFound (id : Int32) : Except Failure (Node Double) :=
  Builder.buildFrom
    [.startDict,
      .key "error_message".toList, .value (.string "not found".toList),
      .key "request_id".toList, .value (.int id),
      .endDict]

def responseRequestStop (catalogue : TransportCatalogue) (stopName : Str) (id : Int32) :
    Except Failure (Node Double) :=
  let stopInfo := catalogue.getInfoStop stopName
  if stopInfo.exists_ then
    Builder.buildFrom
      ([.startDict, .key "buses".toList, .startArray] ++
        stopInfo.buses.map (fun bus => .value (.string bus)) ++
        [.endArray, .key "request_id".toList, .value (.int id), .endDict])
  else responseNotFound id

def responseRequesMap (map : Svg.Document) (id : Int32) : Node Double :=
  .dict [("map".toList, .string map.render), ("request_id".toList, .int id)]

/-- The calls of `JSON_ResponseRequesRouter` for one item. -/
def itemCalls (item : ComponentTrip Double) : List (Builder.Call Double) :=
  match item.spanCount with
  | some spanCount =>
      [.startDict,
        .key "bus".toList, .value (.string item.name),
        .key "time".toList, .value (.double item.weight),
        .key "type".toList, .value (.string "Bus".toList),
        .key "span_count".toList, .value (.int (Int32.ofNat spanCount)),
        .endDict]
  | none =>
      [.startDict,
        .key "stop_name".toList, .value (.string item.name),
        .key "time".toList, .value (.double item.weight),
        .key "type".toList, .value (.string "Wait".toList),
        .endDict]

def responseRequesRouter (handler : RequestHandler) (origin target : Str) (id : Int32) :
    Except Failure (Node Double) := do
  match ← handler.getRouteStat origin target with
  | none => responseNotFound id
  | some info =>
      Builder.buildFrom
        ([.startDict, .key "items".toList, .startArray] ++
          info.items.flatMap itemCalls ++
          [.endArray, .key "request_id".toList, .value (.int id),
            .key "total_time".toList, .value (.double info.totalTime), .endDict])

section Loop

variable (m : Libm) (it : Iteration Str BusPtr) (handler : RequestHandler)

/-- One of the `if`s of the loop. -/
def pushIf (condition : Bool) (response : Except Failure (Node Double))
    (result : List (Node Double)) : Except Failure (List (Node Double)) := do
  if condition then pure (result ++ [← response]) else pure result

/-- `request.AsDict().at(key).AsString()` -/
def stringAt (dict : Dict Double) (key : String) : Except Failure Str := do
  (← dict.get key.toList).asString

def respondBus (dict : Dict Double) : Except Failure (Node Double) := do
  require dict "name"
  let busInfo ← handler.getBusStat m (← stringAt dict "name")
  responseRequestBus busInfo (← intAt dict "id")

def respondStop (dict : Dict Double) : Except Failure (Node Double) := do
  require dict "name"
  responseRequestStop handler.db (← stringAt dict "name") (← intAt dict "id")

def respondMap (dict : Dict Double) : Except Failure (Node Double) := do
  let map ← renderMap it handler.db handler.render
  pure (responseRequesMap map (← intAt dict "id"))

def respondRoute (dict : Dict Double) : Except Failure (Node Double) := do
  responseRequesRouter handler (← stringAt dict "from") (← stringAt dict "to") (← intAt dict "id")

/-- The body of the loop of `JSON_StatRequest`. -/
def respond (result : List (Node Double)) (request : Node Double) :
    Except Failure (List (Node Double)) := do
  let dict ← request.asDict
  require dict "type"
  require dict "id"
  let type ← stringAt dict "type"
  let result ← pushIf (type = "Bus".toList) (respondBus m handler dict) result
  let result ← pushIf (type = "Stop".toList) (respondStop handler dict) result
  let result ← pushIf (type = "Map".toList) (respondMap it handler dict) result
  pushIf (type = "Route".toList) (respondRoute handler dict) result

/-- What the reader has after `proto::Deserialization`. An unreadable stream
leaves its catalogue and its renderer as they were. -/
def requestHandler (protobuf : Protobuf Double) (loading : LoadingOrder Double)
    (input : protobuf.Stream) : Except Failure RequestHandler := do
  match ← deserialization protobuf loading input with
  | some (db, mr, tr) => pure ⟨db, mr, some tr⟩
  | none => pure ⟨TransportCatalogue.empty, {}, none⟩

/-- `JSON_StatRequest`: the text that it writes, all at the end. `opened` gives
the stream that an `std::ifstream` opens on a file. -/
def statRequest (protobuf : Protobuf Double) (loading : LoadingOrder Double)
    (stod : Str → Option Double) (opened : Str → protobuf.Stream) (input : IStream) :
    Except Failure Str := do
  let (query, name) ← openingQuery stod input
  let handler ← requestHandler protobuf loading (opened name)
  let dict ← query.asDict
  let document ← arrayAt dict "stat_requests"
  let result ← document.foldlM (respond m it handler) []
  -- `Print`, which prints the root of the document
  pure (printNode printDouble {} (.array result))

end Loop

end JsonReader

end TransportSystem
