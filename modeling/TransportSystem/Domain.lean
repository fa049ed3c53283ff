import Mathlib.Algebra.Order.Group.Abs
import Mathlib.Algebra.Order.Ring.Rat
import TransportSystem.Basic

namespace TransportSystem

structure Coordinates where
  lat : Double
  lng : Double
  deriving DecidableEq, Repr, Inhabited

/-- The functions of `<cmath>` that `ComputeDistance` calls. -/
structure Libm where
  sin : Double → Double
  cos : Double → Double
  acos : Double → Double

def computeDistance (m : Libm) (origin target : Coordinates) : Double :=
  let dr : Double := 3.1415926535 / 180
  m.acos (m.sin (origin.lat * dr) * m.sin (target.lat * dr)
    + m.cos (origin.lat * dr) * m.cos (target.lat * dr)
      * m.cos (|origin.lng - target.lng| * dr)) * 6371000

/-- `Stop*`: the place of the stop in the deque of all stops, whose elements
never move. -/
abbrev StopPtr := Nat

/-- `Bus*`: the place of the bus in the deque of all buses. -/
abbrev BusPtr := Nat

structure Stop where
  name : Str
  coordinates : Coordinates
  deriving DecidableEq, Repr, Inhabited

structure Bus where
  name : Str
  stops : List StopPtr
  isLoopTrip : Bool
  deriving DecidableEq, Repr, Inhabited

structure StopInfo where
  exists_ : Bool
  buses : List Str
  deriving DecidableEq, Repr

structure BusInfo where
  exists_ : Bool
  curvature : Double
  routeLength : Double
  quantityStop : Int
  uniqueStops : Nat
  deriving DecidableEq, Repr

end TransportSystem
