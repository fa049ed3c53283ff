import TransportSystem.JsonReader
import TransportSystem.MapRenderer
import TransportSystem.TransportRouter

namespace TransportSystem.JsonReader

open Json

variable {D : Type}

/-- `dict.at(key).AsInt()` -/
def intAt (dict : Dict D) (key : String) : Except Failure Int32 := do
  (← dict.get key.toList).asInt

/-- `dict.at(key).AsDouble()` -/
def doubleAt [IntCast D] (dict : Dict D) (key : String) : Except Failure D := do
  (← dict.get key.toList).asDouble

/-- `dict.at(key).AsArray()` -/
def arrayAt (dict : Dict D) (key : String) : Except Failure (List (Node D)) := do
  (← dict.get key.toList).asArray

/-- `array[i]`, which is not checked. -/
def item (array : List (Node D)) (i : ℕ) : Except Failure (Node D) :=
  match array[i]? with
  | some node => .ok node
  | none => .error .undefinedBehaviour

def readerRoutingSetings (document : Node D) : Except Failure RoutingSettings := do
  let dict ← document.asDict
  if (dict.find "bus_wait_time".toList).isNone then
    throw (.invalidArgument "key not found: bus wait time")
  if (dict.find "bus_velocity".toList).isNone then
    throw (.invalidArgument "key not found: bus velocity")
  let busWaitTime ← intAt dict "bus_wait_time"
  let busVelocity ← intAt dict "bus_velocity"
  pure ⟨busWaitTime.toUInt32.toUInt16, busVelocity.toUInt32.toUInt16⟩

/-- The order in which the arguments of a call are evaluated. The language
leaves it open. -/
structure ArgumentOrder where
  places : ℕ → List ℕ
  perm : ∀ n, (places n).Perm (List.range n)

namespace ArgumentOrder

def firstToLast : ArgumentOrder := ⟨List.range, fun _ => .refl _⟩

def lastToFirst : ArgumentOrder := ⟨fun n => (List.range n).reverse, fun _ => List.reverse_perm _⟩

/-- An argument, as far as its evaluation can fail. -/
def argument {A : Type} (x : Except Failure A) : Except Failure Unit := do
  let _ ← x
  pure ()

/-- The evaluation of the arguments, up to the first that fails. -/
def evaluate (order : ArgumentOrder) (arguments : List (Except Failure Unit)) :
    Except Failure Unit :=
  (order.places arguments.length).forM fun i => arguments.getD i (pure ())

end ArgumentOrder

/-- `array[i].AsInt()` as a part of a color. -/
def colorPart (array : List (Node D)) (i : ℕ) : Except Failure UInt8 := do
  let value ← (← item array i).asInt
  pure value.toUInt32.toUInt8

open ArgumentOrder (argument) in
def readerColor (order : ArgumentOrder) (node : Node Double) : Except Failure Svg.Color :=
  match node with
  | .string value => pure (.string value)
  | _ => do
      let array ← node.asArray
      let red := colorPart array 0
      let green := colorPart array 1
      let blue := colorPart array 2
      if array.length = 4 then
        let opacity := do (← item array 3).asDouble
        order.evaluate [argument red, argument green, argument blue, argument opacity]
        pure (.rgba ⟨← red, ← green, ← blue, ← opacity⟩)
      else
        order.evaluate [argument red, argument green, argument blue]
        pure (.rgb ⟨← red, ← green, ← blue⟩)

/-- The loop over the two elements of an offset. -/
def readerOffset (array : List (Node Double)) : Except Failure (Double × Double) := do
  let first ← (← item array 0).asDouble
  let second ← (← item array 1).asDouble
  pure (first, second)

def readerMapSettings (order : ArgumentOrder) (document : Node Double) :
    Except Failure MapSettings := do
  let mapQuery ← document.asDict
  let width ← doubleAt mapQuery "width"
  let height ← doubleAt mapQuery "height"
  let padding ← doubleAt mapQuery "padding"
  let lineWidth ← doubleAt mapQuery "line_width"
  let stopRadius ← doubleAt mapQuery "stop_radius"
  let busLabelFontSize ← intAt mapQuery "bus_label_font_size"
  let busLabelOffset ← readerOffset (← arrayAt mapQuery "bus_label_offset")
  let stopLabelFontSize ← intAt mapQuery "stop_label_font_size"
  let stopLabelOffset ← readerOffset (← arrayAt mapQuery "stop_label_offset")
  let underlayerWidth ← doubleAt mapQuery "underlayer_width"
  let underlayerColor ← readerColor order (← mapQuery.get "underlayer_color".toList)
  let colorPalette ← (← arrayAt mapQuery "color_palette").mapM (readerColor order)
  pure
    { size := ⟨width, height, padding⟩
      elementSize := ⟨lineWidth, stopRadius⟩
      busLabel := ⟨busLabelFontSize, busLabelOffset⟩
      stopLabel := ⟨stopLabelFontSize, stopLabelOffset⟩
      underlayerColor := underlayerColor
      underlayerWidth := underlayerWidth
      colorPalette := colorPalette }

end TransportSystem.JsonReader
