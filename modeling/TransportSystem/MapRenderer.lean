import Mathlib.Algebra.Order.Ring.Rat
import Mathlib.Algebra.Order.Group.Abs
import Mathlib.Algebra.Order.Field.Rat
import TransportSystem.Proto
import TransportSystem.Svg
import TransportSystem.TransportCatalogue

namespace TransportSystem

open TransportCatalogue (popBack)

def epsilon : Double := 1 / 1000000

def isZero (value : Double) : Bool := |value| < epsilon

structure SphereProjector where
  padding : Double
  minLon : Double := 0
  maxLat : Double := 0
  zoomCoeff : Double := 0
  deriving DecidableEq, Repr

namespace SphereProjector

/-- The constructor. -/
def ofPoints (points : List Coordinates) (maxWidth maxHeight padding : Double) :
    SphereProjector :=
  match points with
  | [] => { padding := padding }
  | first :: rest =>
      let minLon := rest.foldl (fun m p => min m p.lng) first.lng
      let maxLon := rest.foldl (fun m p => max m p.lng) first.lng
      let minLat := rest.foldl (fun m p => min m p.lat) first.lat
      let maxLat := rest.foldl (fun m p => max m p.lat) first.lat
      let widthZoom :=
        if isZero (maxLon - minLon) then none
        else some ((maxWidth - 2 * padding) / (maxLon - minLon))
      let heightZoom :=
        if isZero (maxLat - minLat) then none
        else some ((maxHeight - 2 * padding) / (maxLat - minLat))
      let zoomCoeff :=
        match widthZoom, heightZoom with
        | some widthZoom, some heightZoom => min widthZoom heightZoom
        | some widthZoom, none => widthZoom
        | none, some heightZoom => heightZoom
        | none, none => 0
      { padding := padding, minLon := minLon, maxLat := maxLat, zoomCoeff := zoomCoeff }

/-- `operator()` -/
def project (projector : SphereProjector) (coords : Coordinates) : Svg.Point :=
  { x := (coords.lng - projector.minLon) * projector.zoomCoeff + projector.padding
    y := (projector.maxLat - coords.lat) * projector.zoomCoeff + projector.padding }

end SphereProjector

namespace MapSettings

structure MapSize where
  width : Double := 0
  height : Double := 0
  padding : Double := 0
  deriving DecidableEq, Repr

structure BusLabel where
  busLabelFontSize : Int32 := 0
  busLabelOffset : Double × Double := (0, 0)
  deriving DecidableEq, Repr

structure StopLabel where
  stopLabelFontSize : Int32 := 0
  stopLabelOffset : Double × Double := (0, 0)
  deriving DecidableEq, Repr

structure ElementSize where
  lineWidth : Double := 0
  stopRadius : Double := 0
  deriving DecidableEq, Repr

end MapSettings

structure MapSettings where
  size : MapSettings.MapSize := {}
  elementSize : MapSettings.ElementSize := {}
  busLabel : MapSettings.BusLabel := {}
  stopLabel : MapSettings.StopLabel := {}
  underlayerColor : Svg.Color := .monostate
  underlayerWidth : Double := 0
  colorPalette : List Svg.Color := []
  deriving DecidableEq, Repr

structure MapRender where
  settings : MapSettings := {}
  deriving DecidableEq, Repr

namespace MapRender

variable (render : MapRender)

/-- `color_palette_[color_counter % color_palette_.size()]` -/
def paletteColor (colorCounter : Nat) : Except Failure Svg.Color :=
  match render.settings.colorPalette[colorCounter % render.settings.colorPalette.length]? with
  | some color => .ok color
  | none => .error .undefinedBehaviour

def renderWay (db : TransportCatalogue) (bus : Bus) (colorCounter : Nat)
    (projector : SphereProjector) : Except Failure Svg.Polyline := do
  let color ← render.paletteColor colorCounter
  let vereda : Svg.Polyline :=
    { strokeWidth := some render.settings.elementSize.lineWidth
      strokeColor := color
      fillColor := Svg.noneColor
      strokeLineCap := some .round
      strokeLineJoin := some .round }
  let addPoint := fun (vereda : Svg.Polyline) stop =>
    vereda.addPoint (projector.project (db.stop stop).coordinates)
  if bus.isLoopTrip then
    pure (bus.stops.foldl addPoint vereda)
  else
    let rstops ← popBack bus.stops
    let stops := bus.stops ++ rstops.reverse
    pure (stops.foldl addPoint vereda)

/-- `RenderNameBus`: the background and the title. -/
def renderNameBus (nameBus : Str) (colorCounter : Nat) (stop : Svg.Point) :
    Except Failure (Svg.Text × Svg.Text) := do
  let offset := render.settings.busLabel.busLabelOffset
  let background : Svg.Text := Svg.Text.setData
    { fillColor := render.settings.underlayerColor
      strokeColor := render.settings.underlayerColor
      strokeWidth := some render.settings.underlayerWidth
      strokeLineCap := some .round
      strokeLineJoin := some .round
      pos := stop
      offset := ⟨offset.1, offset.2⟩
      size := render.settings.busLabel.busLabelFontSize.toUInt32
      fontFamily := "Verdana".toList
      fontWeight := "bold".toList } nameBus
  let color ← render.paletteColor colorCounter
  let title : Svg.Text := Svg.Text.setData
    { fillColor := color
      pos := stop
      offset := ⟨offset.1, offset.2⟩
      size := render.settings.busLabel.busLabelFontSize.toUInt32
      fontFamily := "Verdana".toList
      fontWeight := "bold".toList } nameBus
  pure (background, title)

def renderStop (stop : Svg.Point) : Svg.Circle :=
  { center := stop
    radius := render.settings.elementSize.stopRadius
    fillColor := .string "white".toList }

/-- `RenderNameStop`: the background and the title. -/
def renderNameStop (nameStop : Str) (stop : Svg.Point) : Svg.Text × Svg.Text :=
  let offset := render.settings.stopLabel.stopLabelOffset
  let background : Svg.Text := Svg.Text.setData
    { fillColor := render.settings.underlayerColor
      strokeColor := render.settings.underlayerColor
      strokeWidth := some render.settings.underlayerWidth
      strokeLineCap := some .round
      strokeLineJoin := some .round
      pos := stop
      offset := ⟨offset.1, offset.2⟩
      size := render.settings.stopLabel.stopLabelFontSize.toUInt32
      fontFamily := "Verdana".toList } nameStop
  let title : Svg.Text := Svg.Text.setData
    { fillColor := .string "black".toList
      pos := stop
      offset := ⟨offset.1, offset.2⟩
      size := render.settings.stopLabel.stopLabelFontSize.toUInt32
      fontFamily := "Verdana".toList } nameStop
  (background, title)

def setProtoRgb (color : Svg.Rgb) : SvgSerialize.Rgb :=
  ⟨color.red.toUInt32, color.green.toUInt32, color.blue.toUInt32⟩

def setProtoRgba (color : Svg.Rgba) : SvgSerialize.Rgba :=
  ⟨color.red.toUInt32, color.green.toUInt32, color.blue.toUInt32, color.opacity⟩

def setProtoColor : Svg.Color → SvgSerialize.Color
  | .monostate => .monostate true
  | .string value => .str value
  | .rgb value => .rgb (setProtoRgb value)
  | .rgba value => .rgba (setProtoRgba value)

def setSvgRgb (protoColor : SvgSerialize.Rgb) : Svg.Rgb :=
  ⟨protoColor.red.toUInt8, protoColor.green.toUInt8, protoColor.blue.toUInt8⟩

def setSvgRgba (protoColor : SvgSerialize.Rgba) : Svg.Rgba :=
  ⟨protoColor.red.toUInt8, protoColor.green.toUInt8, protoColor.blue.toUInt8, protoColor.opacity⟩

def setSvgColor : SvgSerialize.Color → Svg.Color
  | .notSet => .monostate
  | .monostate _ => .monostate
  | .str value => .string value
  | .rgb value => .rgb (setSvgRgb value)
  | .rgba value => .rgba (setSvgRgba value)

def saveToProto : MapRendererSerialize.MapSettings :=
  let settings := render.settings
  { size := ⟨settings.size.width, settings.size.height, settings.size.padding⟩
    busLabel := ⟨settings.busLabel.busLabelFontSize,
      [settings.busLabel.busLabelOffset.1, settings.busLabel.busLabelOffset.2]⟩
    stopLabel := ⟨settings.stopLabel.stopLabelFontSize,
      [settings.stopLabel.stopLabelOffset.1, settings.stopLabel.stopLabelOffset.2]⟩
    elementSize := ⟨settings.elementSize.lineWidth, settings.elementSize.stopRadius⟩
    underlayerColor := setProtoColor settings.underlayerColor
    underlayerWidth := settings.underlayerWidth
    colorPalette := settings.colorPalette.map setProtoColor }

def offsetAt (offset : List Double) : Except Failure (Double × Double) := do
  pure (← repeatedAt offset 0, ← repeatedAt offset 1)

def deserializeMapRender (proto : MapRendererSerialize.MapSettings) :
    Except Failure MapRender := do
  let busLabelOffset ← offsetAt proto.busLabel.busLabelOffset
  let stopLabelOffset ← offsetAt proto.stopLabel.stopLabelOffset
  pure
    { settings :=
        { size := ⟨proto.size.width, proto.size.height, proto.size.padding⟩
          elementSize := ⟨proto.elementSize.lineWidth, proto.elementSize.stopRadius⟩
          busLabel := ⟨proto.busLabel.busLabelFontSize, busLabelOffset⟩
          stopLabel := ⟨proto.stopLabel.stopLabelFontSize, stopLabelOffset⟩
          underlayerColor := setSvgColor proto.underlayerColor
          underlayerWidth := proto.underlayerWidth
          colorPalette := proto.colorPalette.map setSvgColor } }

theorem setSvgColor_setProtoColor (color : Svg.Color) :
    setSvgColor (setProtoColor color) = color := by
  cases color with
  | monostate => rfl
  | string value => rfl
  | rgb value => simp [setProtoColor, setSvgColor, setProtoRgb, setSvgRgb]
  | rgba value => simp [setProtoColor, setSvgColor, setProtoRgba, setSvgRgba]

/-- A renderer survives being saved and read. -/
theorem deserializeMapRender_saveToProto :
    deserializeMapRender render.saveToProto = .ok render := by
  have hpalette : (render.settings.colorPalette.map setProtoColor).map setSvgColor =
      render.settings.colorPalette := by
    rw [List.map_map]
    exact List.map_id'' setSvgColor_setProtoColor _
  simp only [deserializeMapRender, saveToProto, hpalette, setSvgColor_setProtoColor]
  rfl

end MapRender

end TransportSystem
