import TransportSystem.Json
import TransportSystem.TransportCatalogue

namespace TransportSystem.JsonReader

open Json

/-- `std::abs` on an `int`, undefined on the least one. -/
def abs (value : Int32) : Except Failure UInt32 :=
  if value.toInt = -2147483648 then throw .undefinedBehaviour
  else pure (UInt32.ofNat value.toInt.natAbs)

/-- The check that a key is present. -/
def require (dict : Dict Double) (key : String) : Except Failure Unit :=
  if (dict.find key.toList).isNone then throw (.invalidArgument ("key not found: " ++ key))
  else pure ()

def readerBus (catalogue : TransportCatalogue) (document : Node Double) :
    Except Failure TransportCatalogue := do
  let dict ← document.asDict
  require dict "name"
  require dict "stops"
  require dict "is_roundtrip"
  let nameBus ← (← dict.get "name".toList).asString
  let isLoop ← (← dict.get "is_roundtrip".toList).asBool
  let stopNames ← (← (← dict.get "stops".toList).asArray).mapM Node.asString
  catalogue.addBus nameBus stopNames isLoop

/-- The loop of `JSON_ReaderStop` over the road distances. -/
def addRoadDistances (nameStop : Str) :
    Dict Double → TransportCatalogue → Except Failure TransportCatalogue
  | [], catalogue => .ok catalogue
  | (nameSecondStop, lenght) :: mapLenght, catalogue => do
      let lenght ← abs (← lenght.asInt)
      let catalogue ← catalogue.addLenghtBetweenStops (nameStop, nameSecondStop) lenght
      addRoadDistances nameStop mapLenght catalogue

def readerStop (catalogue : TransportCatalogue) (document : Node Double) :
    Except Failure TransportCatalogue := do
  let dict ← document.asDict
  require dict "name"
  require dict "latitude"
  require dict "longitude"
  require dict "road_distances"
  let nameStop ← (← dict.get "name".toList).asString
  let latitude ← (← dict.get "latitude".toList).asDouble
  let longitude ← (← dict.get "longitude".toList).asDouble
  let mapLenght ← (← dict.get "road_distances".toList).asDict
  addRoadDistances nameStop mapLenght (catalogue.addStop nameStop ⟨latitude, longitude⟩)

/-- The first pass of `JSON_BaseRequest`: the buses. -/
def readBuses : List (Node Double) → TransportCatalogue → Except Failure TransportCatalogue
  | [], catalogue => .ok catalogue
  | description :: rest, catalogue => do
      let dict ← description.asDict
      require dict "type"
      if (← dict.get "type".toList).isString "Bus".toList then
        readBuses rest (← readerBus catalogue description)
      else readBuses rest catalogue

/-- The second pass of `JSON_BaseRequest`: the stops. -/
def readStops : List (Node Double) → TransportCatalogue → Except Failure TransportCatalogue
  | [], catalogue => .ok catalogue
  | description :: rest, catalogue => do
      let dict ← description.asDict
      if (← dict.get "type".toList).isString "Stop".toList then
        readStops rest (← readerStop catalogue description)
      else readStops rest catalogue

/-- Both passes of `JSON_BaseRequest` over the array, on an empty catalogue. -/
def baseRequests (document : List (Node Double)) : Except Failure TransportCatalogue := do
  let catalogue ← readBuses document TransportCatalogue.empty
  readStops document catalogue

end TransportSystem.JsonReader
