import TransportSystem.Domain

/-!
The messages of `svg.proto`, `map_renderer.proto`, `transport_router.proto` and
`transport_catalogue.proto`. A `double` of the router's messages is of the type
of the router's times.
-/

namespace TransportSystem

open Library.UniqueKeys

namespace SvgSerialize

structure Rgb where
  red : UInt32
  green : UInt32
  blue : UInt32
  deriving DecidableEq, Repr

structure Rgba where
  red : UInt32
  green : UInt32
  blue : UInt32
  opacity : Double
  deriving DecidableEq, Repr

/-- The `oneof` of a color, `notSet` when none of its fields is. -/
inductive Color
  | notSet
  | monostate (value : Bool)
  | str (value : Str)
  | rgb (value : Rgb)
  | rgba (value : Rgba)
  deriving DecidableEq, Repr

end SvgSerialize

namespace MapRendererSerialize

structure MapSize where
  width : Double
  height : Double
  padding : Double
  deriving DecidableEq, Repr

structure BusLabel where
  busLabelFontSize : Int32
  busLabelOffset : List Double
  deriving DecidableEq, Repr

structure StopLabel where
  stopLabelFontSize : Int32
  stopLabelOffset : List Double
  deriving DecidableEq, Repr

structure ElementSize where
  lineWidth : Double
  stopRadius : Double
  deriving DecidableEq, Repr

structure MapSettings where
  size : MapSize
  elementSize : ElementSize
  busLabel : BusLabel
  stopLabel : StopLabel
  underlayerColor : SvgSerialize.Color
  underlayerWidth : Double
  colorPalette : List SvgSerialize.Color
  deriving DecidableEq, Repr

end MapRendererSerialize

namespace RouterSerialize

structure RoutingSettings where
  busWaitTime : UInt32
  busVelocity : UInt32
  deriving DecidableEq, Repr

structure VertexId where
  inVertex : UInt32
  outVertex : UInt32
  deriving DecidableEq, Repr

structure Edge (W : Type) where
  source : UInt32
  target : UInt32
  weight : W
  deriving DecidableEq, Repr

structure IncidenceList where
  edgeIds : List UInt32
  deriving DecidableEq, Repr

structure DirectedWeightedGraph (W : Type) where
  edges : List (Edge W)
  incidenceLists : List IncidenceList
  deriving DecidableEq, Repr

structure MyUint32 where
  data : UInt32
  deriving DecidableEq, Repr

structure ComponentTrip (W : Type) where
  name : Str
  weight : W
  spanCount : Option MyUint32
  deriving DecidableEq, Repr

structure RouteInternalData (W : Type) where
  isInitialisation : Bool
  weight : W
  prevEdge : Option MyUint32
  deriving DecidableEq, Repr

structure RoutesInternalData (W : Type) where
  data : List (RouteInternalData W)
  deriving DecidableEq, Repr

structure Router (W : Type) where
  routesInternalData : List (RoutesInternalData W)
  deriving DecidableEq, Repr

structure TransportRouter (W : Type) where
  settings : RoutingSettings
  totalVertex : UInt32
  graphOfStops : DirectedWeightedGraph W
  router : Router W
  stopVertexs : UnorderedMap UInt32 VertexId
  infoAboutEdge : UnorderedMap UInt32 (ComponentTrip W)
  stops : List Str

end RouterSerialize

namespace TransportCatalogueSerialize

structure Coordinates where
  lat : Double
  lng : Double
  deriving DecidableEq, Repr

structure Stop where
  name : Str
  coordinates : Coordinates
  deriving DecidableEq, Repr

structure Distance where
  source : UInt32
  target : UInt32
  lenght : UInt32
  deriving DecidableEq, Repr

structure Bus where
  isLoop : Bool
  name : Str
  stops : List UInt32
  deriving DecidableEq, Repr

structure TransportCatalogue where
  stops : List Stop
  buses : List Bus
  lenghtBetweenStops : List Distance
  deriving DecidableEq, Repr

structure Common (W : Type) where
  mapSettings : MapRendererSerialize.MapSettings
  catalogue : TransportCatalogue
  router : RouterSerialize.TransportRouter W

end TransportCatalogueSerialize

/-- The unchecked access to an element of a repeated field. -/
def repeatedAt {A : Type} (field : List A) (index : UInt32) : Except Failure A :=
  match field[index.toNat]? with
  | some a => .ok a
  | none => .error .undefinedBehaviour

theorem repeatedAt_ofNat {A : Type} {field : List A} {i : Nat} {a : A} (hi : i < 2 ^ 32)
    (h : field[i]? = some a) : repeatedAt field (UInt32.ofNat i) = .ok a := by
  simp [repeatedAt, UInt32.toNat_ofNat_of_lt' hi, h]

end TransportSystem
