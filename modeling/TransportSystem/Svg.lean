import TransportSystem.Domain

namespace TransportSystem.Svg

structure Rgb where
  red : UInt8 := 0
  green : UInt8 := 0
  blue : UInt8 := 0
  deriving DecidableEq, Repr

structure Rgba where
  red : UInt8 := 0
  green : UInt8 := 0
  blue : UInt8 := 0
  opacity : Double := 1
  deriving DecidableEq, Repr

inductive Color
  | monostate
  | string (value : Str)
  | rgb (value : Rgb)
  | rgba (value : Rgba)
  deriving DecidableEq, Repr

def noneColor : Color := .string ['n', 'o', 'n', 'e']

inductive StrokeLineCap
  | butt | round | square
  deriving DecidableEq, Repr

inductive StrokeLineJoin
  | arcs | bevel | miter | miterClip | round
  deriving DecidableEq, Repr

structure PathProps where
  fillColor : Color := .monostate
  strokeColor : Color := .monostate
  strokeWidth : Option Double := none
  strokeLineCap : Option StrokeLineCap := none
  strokeLineJoin : Option StrokeLineJoin := none
  deriving DecidableEq, Repr

structure Point where
  x : Double := 0
  y : Double := 0
  deriving DecidableEq, Repr

structure Circle extends PathProps where
  center : Point := {}
  radius : Double := 1
  deriving DecidableEq, Repr

structure Polyline extends PathProps where
  points : List Point := []
  deriving DecidableEq, Repr

structure Text extends PathProps where
  pos : Point := {}
  offset : Point := {}
  size : UInt32 := 1
  fontFamily : Str := []
  fontWeight : Str := []
  data : Str := []
  deriving DecidableEq, Repr

inductive Object
  | circle (object : Circle)
  | polyline (object : Polyline)
  | text (object : Text)
  deriving DecidableEq, Repr

structure Document where
  objects : List Object := []
  deriving DecidableEq, Repr

def Polyline.addPoint (polyline : Polyline) (point : Point) : Polyline :=
  { polyline with points := polyline.points ++ [point] }

namespace Text

def charactersToReplace : List (Char × Str) :=
  [ ('&', "&amp;".toList),
    ('"', "&quot;".toList),
    ('\'', "&apos;".toList),
    ('<', "&lt;".toList),
    ('>', "&gt;".toList) ]

/-- The inner loop of `SetData`. The search begins behind the first character,
and again behind the first character of what was put in, which is an `&`; the
characters after it are not replaced. -/
def replaceCharacter (data : Str) (symvol : Char) (replacement : Str) : Str :=
  match data with
  | [] => []
  | first :: rest => first :: rest.flatMap fun c => if c = symvol then replacement else [c]

def setData (text : Text) (data : Str) : Text :=
  { text with
    data := charactersToReplace.foldl (fun data e => replaceCharacter data e.1 e.2) data }

end Text

def Document.add (document : Document) (object : Object) : Document :=
  { document with objects := document.objects ++ [object] }

end TransportSystem.Svg
