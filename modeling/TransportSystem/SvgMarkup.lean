import TransportSystem.Library.Markup
import TransportSystem.JsonReread
import TransportSystem.SvgRender
import TransportSystem.SvgText

namespace TransportSystem.Svg

open Json (printDouble exists_number_printDouble Number)
open Library.Markup Library.Lists

def attr (name : String) (value : Str) : Str × Str := (name.toList, value)

def optionAttr {A : Type} (name : String) (print : A → Str) : Option A → List (Str × Str)
  | some value => [attr name (print value)]
  | none => []

def PathProps.attributes (props : PathProps) : List (Str × Str) :=
  optionAttr "fill" printColor props.fillColor.given ++
    optionAttr "stroke" printColor props.strokeColor.given ++
    optionAttr "stroke-width" printDouble props.strokeWidth ++
    optionAttr "stroke-linecap" printLineCap props.strokeLineCap ++
    optionAttr "stroke-linejoin" printLineJoin props.strokeLineJoin

def Circle.attributes (circle : Circle) : List (Str × Str) :=
  attr "cx" (printDouble circle.center.x) :: attr "cy" (printDouble circle.center.y) ::
    attr "r" (printDouble circle.radius) :: circle.toPathProps.attributes

def Polyline.attributes (polyline : Polyline) : List (Str × Str) :=
  let points := polyline.points.map fun p => printDouble p.x ++ ',' :: printDouble p.y
  attr "points" ([' '].intercalate points) :: polyline.toPathProps.attributes

def Text.attributes (text : Text) : List (Str × Str) :=
  text.toPathProps.attributes ++ attr "x" (printDouble text.pos.x) ::
    attr "y" (printDouble text.pos.y) :: attr "dx" (printDouble text.offset.x) ::
    attr "dy" (printDouble text.offset.y) :: attr "font-size" (printUnsigned text.size.toNat) ::
    ((if text.fontFamily.isEmpty then [] else [attr "font-family" text.fontFamily]) ++
      if text.fontWeight.isEmpty then [] else [attr "font-weight" text.fontWeight])

/-- An object as it is asked for, a text with what is given to `SetData`. -/
inductive Picture
  | circle (object : Circle)
  | polyline (object : Polyline)
  | text (object : Text) (source : Str)

namespace Picture

def object : Picture → Object
  | circle object => .circle object
  | polyline object => .polyline object
  | text object source => .text (object.setData source)

/-- The element that is meant. -/
def item : Picture → Item
  | circle object => .element "circle".toList object.attributes []
  | polyline object => .element "polyline".toList object.attributes []
  | text object source => .element "text".toList object.attributes (texts source)

end Picture

def document (pictures : List Picture) : Document := ⟨pictures.map Picture.object⟩

def svgAttributes : List (Str × Str) :=
  [attr "xmlns" "http://www.w3.org/2000/svg".toList, attr "version" "1.1".toList]

/-- The document that is meant, with the ends of lines and the indentation. -/
def svg (pictures : List Picture) : Item :=
  .element "svg".toList svgAttributes
    ((pictures.flatMap fun picture => [.text "\n  ".toList, picture.item]) ++ [.text "\n".toList])

def PlainString (s : Str) : Prop := ∀ c ∈ s, PlainValue c

instance (s : Str) : Decidable (PlainString s) := List.decidableBAll _ s

def Color.Clean : Color → Prop
  | .string value => PlainString value
  | _ => True

def PathProps.Clean (props : PathProps) : Prop := props.fillColor.Clean ∧ props.strokeColor.Clean

/-- A text that `SetData` escapes as it should: of its special characters the first one is left
alone, which does no harm to a quote, an apostrophe or a closing bracket. -/
def CleanSource (s : Str) : Prop :=
  (∀ c ∈ s, Legal c) ∧ s.head? ≠ some '<' ∧ s.head? ≠ some '&'

def Picture.Clean : Picture → Prop
  | circle object => object.toPathProps.Clean
  | polyline object => object.toPathProps.Clean
  | text object source => object.toPathProps.Clean ∧ PlainString object.fontFamily ∧
      PlainString object.fontWeight ∧ CleanSource source

section Values

variable {attributes attributes' : List (Str × Str)}

theorem plainValue_of_isDigit {c : Char} (h : c.isDigit = true) : PlainValue c := by
  have hplain : ∀ d < 10, PlainValue (Nat.digitChar d) := by decide
  obtain ⟨d, hd, rfl⟩ := Json.exists_digitChar h
  exact hplain d hd

theorem PlainString.append {s s' : Str} (h : PlainString s) (h' : PlainString s') :
    PlainString (s ++ s') :=
  List.forall_mem_append.mpr ⟨h, h'⟩

theorem PlainString.cons {c : Char} {s : Str} (h : PlainString s) (hc : PlainValue c) :
    PlainString (c :: s) :=
  List.forall_mem_cons.mpr ⟨hc, h⟩

theorem plainString_printDouble (value : Double) : PlainString (printDouble value) := by
  obtain ⟨n, htext, -⟩ := exists_number_printDouble value
  rw [← htext]
  exact n.forall_mem_text (fun _ => plainValue_of_isDigit) (by simp [PlainValue, Plain, Legal])

theorem plainString_printUnsigned (value : ℕ) : PlainString (printUnsigned value) :=
  fun _ hc => plainValue_of_isDigit ((Json.digits_toDigits value).2 _ hc)

theorem plainString_printLineCap (cap : StrokeLineCap) : PlainString (printLineCap cap) := by
  cases cap
  all_goals decide

theorem plainString_printLineJoin (join : StrokeLineJoin) : PlainString (printLineJoin join) := by
  cases join
  all_goals decide

theorem plainString_printColor_iff {color : Color} :
    PlainString (printColor color) ↔ color.Clean := by
  have hunsigned := plainString_printUnsigned
  have hcomma : PlainValue ',' := by decide
  have hclose : PlainString [')'] := by decide
  cases color with
  | monostate =>
      have hnone : PlainString "none".toList := by decide
      exact iff_of_true hnone trivial
  | string value => exact Iff.rfl
  | rgb value =>
      have hrgb : PlainString "rgb(".toList := by decide
      refine iff_of_true ?_ trivial
      exact (((hrgb.append (hunsigned _)).append ((hunsigned _).cons hcomma)).append
        ((hunsigned _).cons hcomma)).append hclose
  | rgba value =>
      have hrgba : PlainString "rgba(".toList := by decide
      refine iff_of_true ?_ trivial
      exact ((((hrgba.append (hunsigned _)).append ((hunsigned _).cons hcomma)).append
        ((hunsigned _).cons hcomma)).append ((plainString_printDouble _).cons hcomma)).append hclose

theorem plainValues_append_iff :
    PlainValues (attributes ++ attributes') ↔ PlainValues attributes ∧ PlainValues attributes' :=
  List.forall_mem_append

theorem plainValues_cons_iff {name : String} {value : Str} :
    PlainValues (attr name value :: attributes) ↔ PlainString value ∧ PlainValues attributes :=
  List.forall_mem_cons

theorem plainValues_optionAttr_iff {A : Type} {name : String} {print : A → Str} {o : Option A} :
    PlainValues (optionAttr name print o) ↔
      ∀ value, o = some value → PlainString (print value) := by
  cases o with
  | none => simp [optionAttr, PlainValues]
  | some value => simp [optionAttr, PlainValues, attr, PlainString]

theorem plainString_given_iff {color : Color} :
    (∀ value, color.given = some value → PlainString (printColor value)) ↔ color.Clean := by
  cases color with
  | monostate => simp [Color.given, Color.Clean]
  | string value => simp [Color.given, plainString_printColor_iff]
  | rgb value => simp [Color.given, plainString_printColor_iff]
  | rgba value => simp [Color.given, plainString_printColor_iff]

theorem PathProps.plainValues_iff (props : PathProps) :
    PlainValues props.attributes ↔ props.Clean := by
  simp [PathProps.attributes, PathProps.Clean, plainValues_append_iff, plainValues_optionAttr_iff,
    plainString_given_iff, plainString_printDouble, plainString_printLineCap,
    plainString_printLineJoin]

theorem Circle.plainValues_iff (circle : Circle) :
    PlainValues circle.attributes ↔ circle.toPathProps.Clean := by
  simp [Circle.attributes, plainValues_cons_iff, plainString_printDouble,
    PathProps.plainValues_iff]

theorem plainString_intercalate {l : List Str} (h : ∀ s ∈ l, PlainString s) :
    PlainString ([' '].intercalate l) := by
  induction l with
  | nil => exact List.forall_mem_nil _
  | cons s l ih =>
      rw [List.forall_mem_cons] at h
      cases l with
      | nil => simpa using h.1
      | cons s' l =>
          have hblank : PlainString [' '] := by decide
          rw [List.intercalate_cons_cons]
          exact (h.1.append hblank).append (ih h.2)

theorem plainString_points (points : List Point) : PlainString
    ([' '].intercalate (points.map fun p => printDouble p.x ++ ',' :: printDouble p.y)) := by
  apply plainString_intercalate
  simp only [List.forall_mem_map]
  exact fun p _ => (plainString_printDouble p.x).append
    ((plainString_printDouble p.y).cons (by decide))

theorem Polyline.plainValues_iff (polyline : Polyline) :
    PlainValues polyline.attributes ↔ polyline.toPathProps.Clean := by
  simp [Polyline.attributes, plainValues_cons_iff, plainString_points, PathProps.plainValues_iff]

theorem Text.plainValues_iff (text : Text) :
    PlainValues text.attributes ↔ text.toPathProps.Clean ∧ PlainString text.fontFamily ∧
      PlainString text.fontWeight := by
  have hif : ∀ (name : String) (value : Str),
      PlainValues (if value.isEmpty then [] else [attr name value]) ↔ PlainString value := by
    intro name value
    cases value with
    | nil => simp [PlainValues, PlainString]
    | cons c value => simp [PlainValues, PlainString, attr]
  simp only [Text.attributes, plainValues_append_iff, plainValues_cons_iff,
    PathProps.plainValues_iff, plainString_printDouble, plainString_printUnsigned, true_and, hif]

end Values

def pathNames : List Str :=
  ["fill".toList, "stroke".toList, "stroke-width".toList, "stroke-linecap".toList,
    "stroke-linejoin".toList]

theorem sublist_optionAttr {A : Type} (name : String) (print : A → Str) (o : Option A) :
    ((optionAttr name print o).map Prod.fst).Sublist [name.toList] := by
  cases o with
  | none => exact List.nil_sublist _
  | some value => exact List.Sublist.refl _

theorem PathProps.sublist_names (props : PathProps) :
    (props.attributes.map Prod.fst).Sublist pathNames := by
  simp only [PathProps.attributes, List.map_append]
  exact ((((sublist_optionAttr _ _ _).append (sublist_optionAttr _ _ _)).append
    (sublist_optionAttr _ _ _)).append (sublist_optionAttr _ _ _)).append (sublist_optionAttr _ _ _)

theorem Circle.named (circle : Circle) : Named "circle".toList circle.attributes := by
  apply named_of_sublist (["cx".toList, "cy".toList, "r".toList] ++ pathNames) (by decide)
  · exact (List.Sublist.refl ["cx".toList, "cy".toList, "r".toList]).append
      circle.toPathProps.sublist_names
  · decide
  · decide

theorem Polyline.named (polyline : Polyline) : Named "polyline".toList polyline.attributes := by
  apply named_of_sublist (["points".toList] ++ pathNames) (by decide)
  · exact (List.Sublist.refl ["points".toList]).append polyline.toPathProps.sublist_names
  · decide
  · decide

def textNames : List Str :=
  ["x".toList, "y".toList, "dx".toList, "dy".toList, "font-size".toList]

theorem Text.named (text : Text) : Named "text".toList text.attributes := by
  have hif : ∀ (name : String) (value : Str),
      ((if value.isEmpty then [] else [attr name value]).map Prod.fst).Sublist [name.toList] := by
    intro name value
    split
    · exact List.nil_sublist _
    · exact List.Sublist.refl _
  apply named_of_sublist
    (pathNames ++ (textNames ++ (["font-family".toList] ++ ["font-weight".toList]))) (by decide)
  · simp only [Text.attributes, List.map_append, List.map_cons]
    exact text.toPathProps.sublist_names.append
      ((List.Sublist.refl textNames).append ((hif _ _).append (hif _ _)))
  · decide
  · decide

theorem plainAttributes_cons (name : String) (value : Str) (attributes : List (Str × Str)) :
    plainAttributes (attr name value :: attributes) =
      printAttribute name value ++ plainAttributes attributes :=
  rfl

theorem printOption_eq {A : Type} (name : String) (print : A → Str) (o : Option A) :
    printOption name print o = plainAttributes (optionAttr name print o) := by
  cases o with
  | none => rfl
  | some value => exact (List.append_nil _).symm

theorem PathProps.renderAttrs_eq (props : PathProps) :
    props.renderAttrs = plainAttributes props.attributes := by
  simp only [renderAttrs, attributes, plainAttributes_append, printOption_eq]

theorem Circle.renderObject_eq (circle : Circle) :
    circle.renderObject = plainTag "circle".toList circle.attributes ++ "/>".toList := by
  have htag : "<circle".toList = '<' :: "circle".toList := rfl
  have hrender : circle.renderObject =
      "<circle".toList ++ printAttribute "cx" (printDouble circle.center.x) ++
        printAttribute "cy" (printDouble circle.center.y) ++
        printAttribute "r" (printDouble circle.radius) ++ circle.renderAttrs ++ "/>".toList := rfl
  rw [hrender, htag, PathProps.renderAttrs_eq]
  simp only [attributes, plainTag, plainAttributes_cons, List.append_assoc, List.cons_append]

theorem Polyline.renderObject_eq (polyline : Polyline) :
    polyline.renderObject = plainTag "polyline".toList polyline.attributes ++ "/>".toList := by
  have htag : "<polyline".toList = '<' :: "polyline".toList := rfl
  have hrender : polyline.renderObject =
      "<polyline".toList ++ printAttribute "points" ([' '].intercalate
        (polyline.points.map fun p => printDouble p.x ++ ',' :: printDouble p.y)) ++
        polyline.renderAttrs ++ "/>".toList := rfl
  rw [hrender, htag, PathProps.renderAttrs_eq]
  simp only [attributes, plainTag, plainAttributes_cons, List.append_assoc, List.cons_append]

theorem Text.renderObject_eq (text : Text) :
    text.renderObject =
      plainTag "text".toList text.attributes ++ '>' :: (text.data ++ "</text>".toList) := by
  have htag : "<text".toList = '<' :: "text".toList := rfl
  have hrender : text.renderObject =
      "<text".toList ++ text.renderAttrs ++ printAttribute "x" (printDouble text.pos.x) ++
        printAttribute "y" (printDouble text.pos.y) ++
        printAttribute "dx" (printDouble text.offset.x) ++
        printAttribute "dy" (printDouble text.offset.y) ++
        printAttribute "font-size" (printUnsigned text.size.toNat) ++
        (if text.fontFamily.isEmpty then [] else printAttribute "font-family" text.fontFamily) ++
        (if text.fontWeight.isEmpty then [] else printAttribute "font-weight" text.fontWeight) ++
        '>' :: text.data ++ "</text>".toList := rfl
  have hif : ∀ (name : String) (value : Str),
      (if value.isEmpty then [] else printAttribute name value) =
        plainAttributes (if value.isEmpty then [] else [attr name value]) := by
    intro name value
    split
    · rfl
    · exact (List.append_nil _).symm
  rw [hrender, htag, PathProps.renderAttrs_eq, hif, hif]
  simp only [attributes, plainTag, plainAttributes_append, plainAttributes_cons, List.append_assoc,
    List.cons_append]

namespace Text

theorem mem_entities {e : Char × Str} (h : e ∈ charactersToReplace) : e ∈ entities := by
  have hall : charactersToReplace.all (· ∈ entities) = true := by decide
  simpa using List.all_eq_true.mp hall e h

theorem angle_not_mem_escape (s : Str) : '<' ∉ escape s := fun h =>
  absurd (noRaw_escape s '<' h (by decide)) (by decide)

theorem bracket_not_mem_escape (s : Str) : '>' ∉ escape s := fun h =>
  absurd (noRaw_escape s '>' h (by decide)) (by decide)

theorem written_escape {s : Str} (h : ∀ c ∈ s, Legal c) : Written Plain s (escape s) := by
  induction s with
  | nil => exact .nil
  | cons c s ih =>
      rw [List.forall_mem_cons] at h
      rw [escape, List.flatMap_cons]
      by_cases hc : Special c
      · obtain ⟨tail, hmem, heq, -, -⟩ := exists_entity hc
        rw [heq]
        exact .entity (mem_entities hmem) (ih h.2)
      · rw [escapeChar_of_not_special hc]
        refine .plain ⟨h.1, ?_, ?_⟩ (ih h.2)
        · exact fun heq => hc (heq ▸ by decide)
        · exact fun heq => hc (heq ▸ by decide)

/-- What `SetData` makes of a text stands for this text exactly if the text is clean. -/
theorem written_setData_iff (text : Text) (source : Str) :
    Written Plain source (text.setData source).data ↔ CleanSource source := by
  cases source with
  | nil => exact iff_of_true .nil ⟨by simp, by simp, by simp⟩
  | cons first rest =>
      rw [setData_cons]
      constructor
      · intro h
        have hlegal := h.legal fun c hc => hc.1
        rw [List.forall_mem_cons] at hlegal
        refine ⟨List.forall_mem_cons.mpr hlegal, ?_⟩
        generalize hx : first :: escape rest = x at h
        cases h with
        | plain hfirst _ =>
            cases hx
            simpa using hfirst.2
        | entity he hrest =>
            -- the rest would stand for itself behind the rest of the entity as well
            obtain ⟨tail, rfl, hne, htail⟩ := exists_tail he
            have hwritten := written_escape hlegal.2
            rw [(List.cons.inj hx).2] at hwritten
            have hunique := hwritten.unique (by decide)
              (hrest.plain_append fun c hc => (htail c hc).1)
            exact absurd (List.self_eq_append_left.mp hunique) hne
      · rintro ⟨hlegal, hangle, hamp⟩
        rw [List.forall_mem_cons] at hlegal
        exact .plain ⟨hlegal.1, by simpa using hangle, by simpa using hamp⟩
          (written_escape hlegal.2)

theorem setData_nil (text : Text) : (text.setData []).data = [] := rfl

/-- Behind the first character no closing bracket is left. -/
theorem not_infix_setData (text : Text) (source : Str) :
    ¬ "]]>".toList <:+: (text.setData source).data := by
  rintro ⟨before, after, heq⟩
  have htail : '>' ∉ (text.setData source).data.tail := by
    cases source with
    | nil => simp [setData_nil]
    | cons first rest =>
        rw [setData_cons]
        exact bracket_not_mem_escape rest
  rw [← heq] at htail
  cases before with
  | nil => exact htail (List.mem_append_left after (show '>' ∈ [']', '>'] by simp))
  | cons c before => simp at htail

/-- Where the text can be read as the source, no angle bracket is left. -/
theorem angle_not_mem_setData {text : Text} {source x r r' : Str}
    (hwritten : Written Plain source x) (heq : (text.setData source).data ++ r = x ++ r') :
    '<' ∉ (text.setData source).data := by
  cases source with
  | nil => simp [setData_nil]
  | cons first rest =>
      rw [setData_cons] at heq ⊢
      have hhead := hwritten.head_ne (r := r') (by simp)
      rw [← heq] at hhead
      have hfirst : '<' ≠ first := fun h => hhead (congrArg some h.symm)
      rw [List.mem_cons, not_or]
      exact ⟨hfirst, angle_not_mem_escape rest⟩

/-- Between the tags of a text stands what is meant exactly if the text is clean. -/
theorem content_setData_iff (text : Text) (source : Str) {items : List Item} {r : Str} :
    (∃ x r', (text.setData source).data ++ '<' :: '/' :: ("text".toList ++ '>' :: r) =
        x ++ '<' :: '/' :: ("text".toList ++ '>' :: r') ∧ Content (texts source) x ∧
          Content items r') ↔
      CleanSource source ∧ Content items r := by
  constructor
  · rintro ⟨x, r', heq, hx, hitems⟩
    obtain ⟨hwritten, -⟩ := content_texts_iff.mp hx
    have hangle := angle_not_mem_setData hwritten heq
    obtain ⟨rfl, hr⟩ := append_inj_of_span heq (bne_of_not_mem hangle) rfl
      (bne_of_not_mem hwritten.angle_not_mem) rfl
    cases hr
    exact ⟨(text.written_setData_iff source).mp hwritten, hitems⟩
  · rintro ⟨hclean, hitems⟩
    have hwritten := (text.written_setData_iff source).mpr hclean
    exact ⟨_, r, rfl, content_texts_iff.mpr ⟨hwritten, text.not_infix_setData source⟩, hitems⟩

end Text

namespace Picture

theorem content_iff (picture : Picture) {items : List Item} {r : Str} :
    Content (picture.item :: items) (picture.object.renderObject ++ r) ↔
      picture.Clean ∧ Content items r := by
  cases picture with
  | circle object =>
      have hrender : (circle object).object.renderObject = object.renderObject := rfl
      rw [hrender, object.renderObject_eq, List.append_assoc]
      exact (content_empty_iff object.named).trans (and_congr_left' object.plainValues_iff)
  | polyline object =>
      have hrender : (polyline object).object.renderObject = object.renderObject := rfl
      rw [hrender, object.renderObject_eq, List.append_assoc]
      exact (content_empty_iff object.named).trans (and_congr_left' object.plainValues_iff)
  | text object source =>
      have hrender : (text object source).object.renderObject =
        (object.setData source).renderObject := rfl
      have hattributes : (object.setData source).attributes = object.attributes := rfl
      have hclose : "</text>".toList ++ r = '<' :: '/' :: ("text".toList ++ '>' :: r) := rfl
      rw [hrender, Text.renderObject_eq, hattributes, List.append_assoc, List.cons_append,
        List.append_assoc, hclose]
      refine (content_element_iff object.named).trans ?_
      refine (and_congr object.plainValues_iff (object.content_setData_iff source)).trans ?_
      simp only [Clean, and_assoc]

end Picture

theorem noText_item (picture : Picture) (items : List Item) : NoText (picture.item :: items) := by
  cases picture with
  | circle object => trivial
  | polyline object => trivial
  | text object source => trivial

theorem exists_renderObject (picture : Picture) : ∃ name attributes rest,
    picture.object.renderObject = plainTag name attributes ++ rest := by
  cases picture with
  | circle object => exact ⟨_, _, _, object.renderObject_eq⟩
  | polyline object => exact ⟨_, _, _, object.renderObject_eq⟩
  | text object source => exact ⟨_, _, _, (object.setData source).renderObject_eq⟩

theorem head_renderObject (picture : Picture) (r : Str) :
    (picture.object.renderObject ++ r).head? = some '<' := by
  obtain ⟨name, attributes, rest, heq⟩ := exists_renderObject picture
  rw [heq]
  rfl

/-- The objects, each behind the end of a line and the indentation. -/
def lines (pictures : List Picture) : Str :=
  (pictures.flatMap fun picture => "\n  ".toList ++ picture.object.renderObject) ++ ['\n']

theorem content_lines_iff (pictures : List Picture) :
    Content ((pictures.flatMap fun picture => [.text "\n  ".toList, picture.item]) ++
        [.text "\n".toList]) (lines pictures) ↔ ∀ picture ∈ pictures, picture.Clean := by
  induction pictures with
  | nil =>
      have hlast : Content (texts ['\n']) ['\n'] :=
        content_texts_iff.mpr ⟨written_of_plain (by simp [Plain, Legal]), by decide⟩
      exact iff_of_true hlast (List.forall_mem_nil _)
  | cons picture pictures ih =>
      have hlines : lines (picture :: pictures) =
          "\n  ".toList ++ (picture.object.renderObject ++ lines pictures) := by
        simp [lines]
      rw [hlines, List.forall_mem_cons, ← ih, List.flatMap_cons]
      refine Iff.trans ?_ picture.content_iff
      exact content_text_iff (by decide) (by simp [Plain, Legal]) (by decide)
        (noText_item picture _) (head_renderObject picture _)

theorem lines_eq (pictures : List Picture) :
    lines pictures = '\n' :: pictures.flatMap fun picture =>
      "  ".toList ++ picture.object.renderObject ++ ['\n'] := by
  have hindent : "\n  ".toList = '\n' :: "  ".toList := rfl
  unfold lines
  induction pictures with
  | nil => rfl
  | cons picture pictures ih =>
      rw [List.flatMap_cons, List.append_assoc, ih, List.flatMap_cons, hindent]
      simp only [List.append_assoc, List.cons_append, List.nil_append]

theorem named_svg : Named "svg".toList svgAttributes := ⟨by decide, by decide, by decide⟩

theorem render_eq (pictures : List Picture) :
    (document pictures).render = declaration ++ (plainTag "svg".toList svgAttributes ++
      '>' :: (lines pictures ++ '<' :: '/' :: ("svg".toList ++ ['>']))) := by
  have hopen : "<svg xmlns=\"http://www.w3.org/2000/svg\" version=\"1.1\">\n".toList =
      plainTag "svg".toList svgAttributes ++ ['>', '\n'] := by decide
  have hrender : (document pictures).render =
      declaration ++ "<svg xmlns=\"http://www.w3.org/2000/svg\" version=\"1.1\">\n".toList ++
        ((pictures.map Picture.object).flatMap fun object =>
          "  ".toList ++ object.renderObject ++ ['\n']) ++ "</svg>".toList := rfl
  have hclose : "</svg>".toList = '<' :: '/' :: ("svg".toList ++ ['>']) := rfl
  rw [hrender, hopen, hclose, List.flatMap_map, lines_eq]
  simp only [List.append_assoc, List.cons_append, List.nil_append]

theorem isDocument_svg_iff (pictures : List Picture) :
    IsDocument (svg pictures) (document pictures).render ↔
      ∀ picture ∈ pictures, picture.Clean := by
  rw [render_eq, ← content_lines_iff]
  constructor
  · rintro ⟨-, x, heq, hx⟩
    rw [List.append_cancel_left_eq] at heq
    rw [← heq] at hx
    obtain ⟨-, x, r, heq, hx, hr⟩ := (content_element_iff named_svg).mp hx
    cases hr
    obtain rfl := List.append_cancel_right heq
    exact hx
  · intro hlines
    have hxmlns : PlainString "http://www.w3.org/2000/svg".toList := by decide
    have hversion : PlainString "1.1".toList := by decide
    have hplain : PlainValues svgAttributes := plainValues_cons_iff.mpr
      ⟨hxmlns, plainValues_cons_iff.mpr ⟨hversion, List.forall_mem_nil _⟩⟩
    exact ⟨trivial, _, rfl, (content_element_iff named_svg).mpr
      ⟨hplain, _, [], rfl, hlines, .nil⟩⟩

/-- The text of a document is read as the document that is meant, and as nothing else, exactly if
the objects are clean. -/
theorem render_isDocument_iff (pictures : List Picture) :
    (∀ root, IsDocument root (document pictures).render ↔ root = svg pictures) ↔
      ∀ picture ∈ pictures, picture.Clean := by
  rw [isDocument_eq_iff, isDocument_svg_iff]

end TransportSystem.Svg
