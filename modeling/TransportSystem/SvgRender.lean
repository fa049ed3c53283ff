import TransportSystem.JsonDouble
import TransportSystem.Svg

namespace TransportSystem.Svg

open Json (printDouble)

/-- `out << value` for an `unsigned` -/
def printUnsigned (value : ℕ) : Str := Nat.toDigits 10 value

def printLineCap : StrokeLineCap → Str
  | .butt => "butt".toList
  | .round => "round".toList
  | .square => "square".toList

def printLineJoin : StrokeLineJoin → Str
  | .arcs => "arcs".toList
  | .bevel => "bevel".toList
  | .miter => "miter".toList
  | .miterClip => "miter-clip".toList
  | .round => "round".toList

/-- The visitor of a color. -/
def printColor : Color → Str
  | .monostate => "none".toList
  | .string value => value
  | .rgb color =>
      "rgb(".toList ++ printUnsigned color.red.toNat ++ ',' :: printUnsigned color.green.toNat ++
        ',' :: printUnsigned color.blue.toNat ++ [')']
  | .rgba color =>
      "rgba(".toList ++ printUnsigned color.red.toNat ++ ',' :: printUnsigned color.green.toNat ++
        ',' :: printUnsigned color.blue.toNat ++ ',' :: printDouble color.opacity ++ [')']

/-- An attribute with the blank in front of it. -/
def printAttribute (name : String) (value : Str) : Str :=
  ' ' :: (name.toList ++ '=' :: '"' :: (value ++ ['"']))

/-- An attribute that is printed if it is there. -/
def printOption {A : Type} (name : String) (print : A → Str) : Option A → Str
  | some value => printAttribute name (print value)
  | none => []

/-- A color that is not `std::monostate`. -/
def Color.given : Color → Option Color
  | .monostate => none
  | color => some color

def PathProps.renderAttrs (props : PathProps) : Str :=
  printOption "fill" printColor props.fillColor.given ++
    printOption "stroke" printColor props.strokeColor.given ++
    printOption "stroke-width" printDouble props.strokeWidth ++
    printOption "stroke-linecap" printLineCap props.strokeLineCap ++
    printOption "stroke-linejoin" printLineJoin props.strokeLineJoin

def Circle.renderObject (circle : Circle) : Str :=
  "<circle".toList ++ printAttribute "cx" (printDouble circle.center.x) ++
    printAttribute "cy" (printDouble circle.center.y) ++
    printAttribute "r" (printDouble circle.radius) ++ circle.renderAttrs ++ "/>".toList

def Polyline.renderObject (polyline : Polyline) : Str :=
  let points := polyline.points.map fun p => printDouble p.x ++ ',' :: printDouble p.y
  "<polyline".toList ++ printAttribute "points" ([' '].intercalate points) ++
    polyline.renderAttrs ++ "/>".toList

def Text.renderObject (text : Text) : Str :=
  "<text".toList ++ text.renderAttrs ++ printAttribute "x" (printDouble text.pos.x) ++
    printAttribute "y" (printDouble text.pos.y) ++
    printAttribute "dx" (printDouble text.offset.x) ++
    printAttribute "dy" (printDouble text.offset.y) ++
    printAttribute "font-size" (printUnsigned text.size.toNat) ++
    (if text.fontFamily.isEmpty then [] else printAttribute "font-family" text.fontFamily) ++
    (if text.fontWeight.isEmpty then [] else printAttribute "font-weight" text.fontWeight) ++
    '>' :: text.data ++ "</text>".toList

def Object.renderObject : Object → Str
  | .circle object => object.renderObject
  | .polyline object => object.renderObject
  | .text object => object.renderObject

/-- `Document::Render`, with the indentation 2. -/
def Document.render (document : Document) : Str :=
  "<?xml version=\"1.0\" encoding=\"UTF-8\" ?>\n".toList ++
    "<svg xmlns=\"http://www.w3.org/2000/svg\" version=\"1.1\">\n".toList ++
    (document.objects.flatMap fun object => "  ".toList ++ object.renderObject ++ ['\n']) ++
    "</svg>".toList

end TransportSystem.Svg
