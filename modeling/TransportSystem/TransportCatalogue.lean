import Mathlib.Data.List.Sort
import Mathlib.Data.List.Dedup
import Mathlib.Data.Char
import Mathlib.Data.List.Lex
import TransportSystem.Domain

namespace TransportSystem

open Library.UniqueKeys

structure TransportCatalogue where
  buses : UnorderedMap Str BusPtr
  stops : UnorderedMap Str StopPtr
  busesInStop : UnorderedMap Str (List Str)
  lengthBetweenStops : UnorderedMap (StopPtr × StopPtr) UInt32
  allBuses : List Bus
  allStops : List Stop

namespace TransportCatalogue

def empty : TransportCatalogue :=
  { buses := ∅, stops := ∅, busesInStop := ∅, lengthBetweenStops := ∅,
    allBuses := [], allStops := [] }

/-- `*stop` -/
def stop (db : TransportCatalogue) (p : StopPtr) : Stop := db.allStops.getD p default

/-- `*bus` -/
def bus (db : TransportCatalogue) (p : BusPtr) : Bus := db.allBuses.getD p default

def addStop (db : TransportCatalogue) (name : Str)
    (location : Coordinates := ⟨0, 0⟩) : TransportCatalogue :=
  let stop : Stop := ⟨name, location⟩
  match db.stops.lookup name with
  | some p =>
      if (db.stop p).coordinates.lat = 0 ∧ (db.stop p).coordinates.lng = 0 then
        { db with allStops := db.allStops.set p stop }
      else db
  | none =>
      { db with
        allStops := db.allStops ++ [stop]
        stops := db.stops.assign name db.allStops.length }

/-- The loop of `AddBus` over the stop names, with `deq_stops` in `deqStops`. -/
def addBusStops (name : Str) :
    List Str → TransportCatalogue → List StopPtr →
      Except Failure (TransportCatalogue × List StopPtr)
  | [], db, deqStops => .ok (db, deqStops)
  | stop :: stops, db, deqStops => do
      let db := if stop ∈ db.stops then db else db.addStop stop
      let p ← mapAt db.stops stop
      let deqStops := deqStops ++ [p]
      let stopName := (db.stop p).name
      let busName := (db.bus (← mapAt db.buses name)).name
      let indexed := (db.busesInStop.lookup stopName).getD []
      let indexed := if busName ∈ indexed then indexed else indexed ++ [busName]
      let db := { db with busesInStop := db.busesInStop.assign stopName indexed }
      addBusStops name stops db deqStops

def addBus (db : TransportCatalogue) (name : Str) (stops : List Str) (isLoop : Bool) :
    Except Failure TransportCatalogue := do
  let db := { db with
    allBuses := db.allBuses ++ [⟨name, [], isLoop⟩]
    buses := db.buses.assign name db.allBuses.length }
  let (db, deqStops) ← addBusStops name stops db []
  let p ← mapAt db.buses name
  pure { db with allBuses := db.allBuses.modify p fun bus => { bus with stops := deqStops } }

def addLenghtBetweenStops (db : TransportCatalogue) (pairStops : Str × Str)
    (lenght : UInt32) : Except Failure TransportCatalogue := do
  let stop1 ← mapAt db.stops pairStops.1
  let db := if pairStops.2 ∈ db.stops then db else db.addStop pairStops.2
  let stop2 ← mapAt db.stops pairStops.2
  pure { db with
    lengthBetweenStops := db.lengthBetweenStops.emplace (stop1, stop2) lenght }

def stopAvailability (db : TransportCatalogue) (stop : Str) : Bool := stop ∈ db.stops

def busAvailability (db : TransportCatalogue) (bus : Str) : Bool := bus ∈ db.buses

/-- `FindBus`, also `GetBus` -/
def findBus (db : TransportCatalogue) (name : Str) : Except Failure Bus := do
  pure (db.bus (← mapAt db.buses name))

/-- `FindStop`, also `GetStop` -/
def findStop (db : TransportCatalogue) (name : Str) : Except Failure Stop := do
  pure (db.stop (← mapAt db.stops name))

def getLenghtBetweenStops (db : TransportCatalogue) (firstStop secondStop : Str) :
    Except Failure UInt32 := do
  let first ← mapAt db.stops firstStop
  let second ← mapAt db.stops secondStop
  match db.lengthBetweenStops.lookup (first, second) with
  | some lenght => pure lenght
  | none =>
      match db.lengthBetweenStops.lookup (second, first) with
      | some lenght => pure lenght
      | none =>
          if firstStop = secondStop then pure 0
          else throw (.logicError "Not found Lenght between this stops")

/-- `std::transform_reduce(std::next(begin), end, begin, init, plus, op)`: the
elements after the first with their predecessors, the predecessor as second
argument. On an empty deque `std::next(begin)` is already out of bounds. -/
def transformReduce {P A B : Type} (plus : B → A → B) (op : P → P → Except Failure A)
    (init : B) : List P → Except Failure B
  | [] => throw .undefinedBehaviour
  | first :: rest =>
      (rest.zip (first :: rest)).foldlM
        (fun sum pair => do pure (plus sum (← op pair.1 pair.2))) init

/-- `std::plus<>` on the `int` accumulator and a `uint32_t` summand: the sum is
a `uint32_t` that is converted back to `int`. -/
def plusLenght (sum : Int32) (lenght : UInt32) : Int32 := (sum.toUInt32 + lenght).toInt32

/-- The first lambda of `SummationLenght`. -/
def lenghtInLoopTrip (db : TransportCatalogue) (lhs rhs : StopPtr) : Except Failure UInt32 :=
  if (rhs, lhs) ∈ db.lengthBetweenStops then mapAt db.lengthBetweenStops (rhs, lhs)
  else mapAt db.lengthBetweenStops (lhs, rhs)

/-- The second lambda of `SummationLenght`. -/
def lenghtThereAndBack (db : TransportCatalogue) (lhs rhs : StopPtr) : Except Failure UInt32 :=
  if (rhs, lhs) ∈ db.lengthBetweenStops then mapAt db.lengthBetweenStops (rhs, lhs)
  else if (lhs, rhs) ∈ db.lengthBetweenStops then mapAt db.lengthBetweenStops (lhs, rhs)
  else mapAt db.lengthBetweenStops (lhs, rhs)

/-- `rstops.pop_back()` -/
def popBack {P : Type} (rstops : List P) : Except Failure (List P) :=
  if rstops.isEmpty then throw .undefinedBehaviour else pure rstops.dropLast

def summationLenght (db : TransportCatalogue) (bus : Bus) : Except Failure Double := do
  if bus.isLoopTrip then
    let sum ← transformReduce plusLenght db.lenghtInLoopTrip 0 bus.stops
    pure sum.toInt
  else
    let rstops ← popBack bus.stops
    let stops := bus.stops ++ rstops.reverse
    let sum ← transformReduce plusLenght db.lenghtThereAndBack 0 stops
    pure sum.toInt

def summationLineLenght (m : Libm) (db : TransportCatalogue) (bus : Bus) :
    Except Failure Double := do
  let distance := fun lhs rhs =>
    pure (computeDistance m (db.stop lhs).coordinates (db.stop rhs).coordinates)
  if bus.isLoopTrip then
    transformReduce (· + ·) distance 0 bus.stops
  else
    let sum ← transformReduce (· + ·) distance 0 bus.stops
    pure (2 * sum)

def getInfoBus (m : Libm) (db : TransportCatalogue) (busName : Str) :
    Except Failure BusInfo := do
  if ¬ db.busAvailability busName then
    pure ⟨false, 0, 0, 0, 0⟩
  else
    let bus ← db.findBus busName
    let uniqueStops := bus.stops.dedup.length
    let quantityStop : Int :=
      if bus.isLoopTrip then bus.stops.length else bus.stops.length * 2 - 1
    let routeLength ← db.summationLenght bus
    let curvature := routeLength / (← db.summationLineLenght m bus)
    pure ⟨true, curvature, routeLength, quantityStop, uniqueStops⟩

def getInfoStop (db : TransportCatalogue) (stopName : Str) : StopInfo :=
  if ¬ db.stopAvailability stopName then
    ⟨false, []⟩
  else
    match db.busesInStop.lookup stopName with
    | none => ⟨true, []⟩
    | some buses => ⟨true, buses.insertionSort (· ≤ ·)⟩

/-- The calls that change a catalogue. -/
inductive Call
  | addBus (name : Str) (stops : List Str) (isLoop : Bool)
  | addStop (name : Str) (location : Coordinates)
  | addLenghtBetweenStops (pairStops : Str × Str) (lenght : UInt32)
  deriving DecidableEq, Repr

def call (db : TransportCatalogue) : Call → Except Failure TransportCatalogue
  | .addBus name stops isLoop => db.addBus name stops isLoop
  | .addStop name location => .ok (db.addStop name location)
  | .addLenghtBetweenStops pairStops lenght => db.addLenghtBetweenStops pairStops lenght

/-- One call. A call that throws does so before it changes anything. -/
def step (db : TransportCatalogue) (c : Call) : TransportCatalogue :=
  match db.call c with
  | .ok db' => db'
  | .error _ => db

/-- The catalogue after a sequence of calls on an empty one. -/
def run (calls : List Call) : TransportCatalogue := calls.foldl step empty

end TransportCatalogue

end TransportSystem
