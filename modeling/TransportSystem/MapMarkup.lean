import TransportSystem.MapObjects
import TransportSystem.SvgMarkup

namespace TransportSystem

open Library.Markup (IsDocument isDocument_eq_iff)
open Svg (Picture PlainString CleanSource)

/-- The colors that are strings need no escape. -/
def MapSettings.CleanColors (settings : MapSettings) : Prop :=
  settings.underlayerColor.Clean ∧ ∀ color ∈ settings.colorPalette, color.Clean

namespace Svg.Picture

/-- What is given to `SetData`, if anything is. -/
def source? : Picture → Option Str
  | text _ source => some source
  | _ => none

/-- The colors and the font need no escape. -/
def Styled : Picture → Prop
  | circle object => object.toPathProps.Clean
  | polyline object => object.toPathProps.Clean
  | text object _ => object.toPathProps.Clean ∧ PlainString object.fontFamily ∧
      PlainString object.fontWeight

theorem clean_iff (picture : Picture) :
    picture.Clean ↔ picture.Styled ∧ ∀ source ∈ picture.source?, CleanSource source := by
  cases picture with
  | circle object => simp [Clean, Styled, source?]
  | polyline object => simp [Clean, Styled, source?]
  | text object source => simp [Clean, Styled, source?, and_assoc]

end Svg.Picture

namespace RequestHandler

/-- The objects are pictures that show these texts, with colors and fonts that need no escape. -/
def Shows (objects : List Svg.Object) (sources : List Str) : Prop :=
  ∃ pictures : List Picture, pictures.map Picture.object = objects ∧
    pictures.filterMap Picture.source? = sources ∧ ∀ picture ∈ pictures, picture.Styled

section Shows

variable {objects objects' : List Svg.Object} {sources sources' : List Str}

theorem Shows.append (h : Shows objects sources) (h' : Shows objects' sources') :
    Shows (objects ++ objects') (sources ++ sources') := by
  obtain ⟨pictures, rfl, rfl, hstyled⟩ := h
  obtain ⟨pictures', rfl, rfl, hstyled'⟩ := h'
  refine ⟨pictures ++ pictures', by simp, by simp, ?_⟩
  exact List.forall_mem_append.mpr ⟨hstyled, hstyled'⟩

theorem shows_flatMap {A : Type} {l : List A} {objects : A → List Svg.Object}
    {sources : A → List Str} (h : ∀ a ∈ l, Shows (objects a) (sources a)) :
    Shows (l.flatMap objects) (l.flatMap sources) := by
  induction l with
  | nil => exact ⟨[], rfl, rfl, List.forall_mem_nil _⟩
  | cons a l ih =>
      rw [List.forall_mem_cons] at h
      exact h.1.append (ih h.2)

theorem shows_map {A : Type} {l : List A} {object : A → Svg.Object}
    (h : ∀ a ∈ l, Shows [object a] []) : Shows (l.map object) [] := by
  have hshows := shows_flatMap h
  rwa [← List.map_eq_flatMap, List.flatMap_eq_nil_iff.mpr fun _ _ => rfl] at hshows

theorem shows_singleton (picture : Picture) (h : picture.Styled) :
    Shows [picture.object] picture.source?.toList := by
  refine ⟨[picture], rfl, ?_, by simpa using h⟩
  cases picture with
  | circle object => rfl
  | polyline object => rfl
  | text object source => rfl

theorem shows_texts {background title : Svg.Text} {name : Str}
    (hbackground : (Picture.text background name).Styled)
    (htitle : (Picture.text title name).Styled) :
    Shows (textObjects (background.setData name, title.setData name)) [name, name] :=
  (shows_singleton _ hbackground).append (shows_singleton _ htitle)

end Shows

variable {db : TransportCatalogue} {render : MapRender}

theorem plainString_verdana : PlainString "Verdana".toList := by decide

theorem plainString_nil : PlainString [] := List.forall_mem_nil _

theorem shows_renderNameStop (hcolors : render.settings.CleanColors) (name : Str)
    (point : Svg.Point) : Shows (textObjects (render.renderNameStop name point)) [name, name] := by
  have hblack : (Svg.Color.string "black".toList).Clean :=
    show PlainString "black".toList by decide
  apply shows_texts
  · exact ⟨⟨hcolors.1, hcolors.1⟩, plainString_verdana, plainString_nil⟩
  · exact ⟨⟨hblack, trivial⟩, plainString_verdana, plainString_nil⟩

theorem shows_renderNameBus (hcolors : render.settings.CleanColors) {name : Str} {i : ℕ}
    {point : Svg.Point} {texts : Svg.Text × Svg.Text}
    (h : render.renderNameBus name i point = .ok texts) :
    Shows (textObjects texts) [name, name] := by
  have hbold : PlainString "bold".toList := by decide
  unfold MapRender.renderNameBus at h
  cases hcolor : render.paletteColor i with
  | error failure => rw [hcolor] at h; cases h
  | ok color =>
      have hclean := hcolors.2 _ (List.mem_of_getElem? (paletteColor_eq_ok_iff.mp hcolor))
      rw [hcolor] at h
      cases h
      apply shows_texts
      · exact ⟨⟨hcolors.1, hcolors.1⟩, plainString_verdana, hbold⟩
      · exact ⟨⟨hclean, trivial⟩, plainString_verdana, hbold⟩

theorem shows_renderStop (point : Svg.Point) : Shows [.circle (render.renderStop point)] [] := by
  have hwhite : (Svg.Color.string "white".toList).Clean :=
    show PlainString "white".toList by decide
  exact shows_singleton (.circle (render.renderStop point)) ⟨hwhite, trivial⟩

theorem clean_noneColor : Svg.noneColor.Clean :=
  show PlainString ['n', 'o', 'n', 'e'] by decide

theorem shows_renderWay (hcolors : render.settings.CleanColors) {bus : Bus} {i : ℕ}
    {projector : SphereProjector} {vereda : Svg.Polyline}
    (h : render.renderWay db bus i projector = .ok vereda) : Shows [.polyline vereda] [] := by
  apply shows_singleton (.polyline vereda)
  unfold MapRender.renderWay at h
  cases hcolor : render.paletteColor i with
  | error failure => rw [hcolor] at h; cases h
  | ok color =>
      have hclean := hcolors.2 _ (List.mem_of_getElem? (paletteColor_eq_ok_iff.mp hcolor))
      simp only [hcolor, ok_bind, foldl_addPoint] at h
      split at h
      · cases h
        exact ⟨clean_noneColor, hclean⟩
      · cases hpop : TransportCatalogue.popBack bus.stops with
        | error failure => rw [hpop] at h; cases h
        | ok stops =>
            rw [hpop] at h
            cases h
            exact ⟨clean_noneColor, hclean⟩

/-- A name that is drawn: of a bus that stops somewhere, or of a stop of a bus. -/
def Drawn (db : TransportCatalogue) (name : Str) : Prop :=
  ∃ busName bus, db.findBus busName = .ok bus ∧ bus.stops ≠ [] ∧
    (name = busName ∨ ∃ p ∈ bus.stops, (db.stop p).name = name)

theorem labelStops_ne_nil {bus : Bus} (h : bus.stops ≠ []) : labelStops bus ≠ [] := by
  unfold labelStops
  rw [List.head?_eq_some_head h, List.getLast?_eq_some_getLast h]
  dsimp only
  split
  · simp
  · simp

namespace Drawing

variable (drawing : Drawing db render)

/-- The texts in the order in which they are drawn. -/
def sources : List Str :=
  (drawing.buses.zipIdx.flatMap fun e => (labelStops e.1.2).flatMap fun _ => [e.1.1, e.1.1]) ++
    drawing.stops.flatMap fun stop => [stop.name, stop.name]

theorem shows_objects (hcolors : render.settings.CleanColors) :
    Shows drawing.objects drawing.sources := by
  have hways : Shows drawing.ways [] := by
    apply shows_map
    intro e he
    exact shows_renderWay hcolors (drawing.renderWay_eq _ _ (drawing.findBus_of_mem he).2)
  have hlabels : Shows drawing.busLabels
      (drawing.buses.zipIdx.flatMap fun e => (labelStops e.1.2).flatMap fun _ => [e.1.1, e.1.1]) :=
    shows_flatMap fun e _ => shows_flatMap fun p _ =>
      shows_renderNameBus hcolors (drawing.renderNameBus_eq _ _ _)
  have hcircles : Shows drawing.circles [] :=
    shows_map fun stop _ => shows_renderStop (drawing.point stop)
  have hnames : Shows drawing.stopLabels
      (drawing.stops.flatMap fun stop => [stop.name, stop.name]) :=
    shows_flatMap fun stop _ => shows_renderNameStop hcolors _ _
  have h := ((hways.append hlabels).append hcircles).append hnames
  rwa [List.nil_append, List.append_nil] at h

theorem mem_sources_iff (name : Str) : name ∈ drawing.sources ↔ Drawn db name := by
  have hstop : name ∈ (drawing.stops.flatMap fun stop => [stop.name, stop.name]) ↔
      ∃ busName bus, db.findBus busName = .ok bus ∧ ∃ p ∈ bus.stops, (db.stop p).name = name := by
    simp only [List.mem_flatMap, drawing.mem_stops]
    constructor
    · rintro ⟨stop, ⟨busName, bus, hfind, p, hp, rfl⟩, hname⟩
      refine ⟨busName, bus, hfind, p, hp, ?_⟩
      simpa [eq_comm] using hname
    · rintro ⟨busName, bus, hfind, p, hp, rfl⟩
      exact ⟨_, ⟨busName, bus, hfind, p, hp, rfl⟩, by simp⟩
  have hbus : name ∈ (drawing.buses.zipIdx.flatMap fun e =>
        (labelStops e.1.2).flatMap fun _ => [e.1.1, e.1.1]) ↔
      ∃ bus, db.findBus name = .ok bus ∧ bus.stops ≠ [] := by
    constructor
    · intro hmem
      obtain ⟨e, he, hmem⟩ := List.mem_flatMap.mp hmem
      obtain ⟨p, -, hmem⟩ := List.mem_flatMap.mp hmem
      obtain rfl : name = e.1.1 := by simpa using hmem
      exact ⟨_, drawing.findBus_of_mem he⟩
    · rintro ⟨bus, hbus⟩
      obtain ⟨i, hi⟩ := List.getElem?_of_mem ((drawing.mem_buses name bus).mpr hbus)
      obtain ⟨p, hp⟩ := List.exists_mem_of_ne_nil _ (labelStops_ne_nil hbus.2)
      refine List.mem_flatMap.mpr ⟨((name, bus), i), List.mk_mem_zipIdx_iff_getElem?.mpr hi, ?_⟩
      exact List.mem_flatMap.mpr ⟨p, hp, by simp⟩
  rw [sources, List.mem_append, hbus, hstop]
  constructor
  · rintro (⟨bus, hfind, hne⟩ | ⟨busName, bus, hfind, p, hp, hname⟩)
    · exact ⟨name, bus, hfind, hne, .inl rfl⟩
    · exact ⟨busName, bus, hfind, List.ne_nil_of_mem hp, .inr ⟨p, hp, hname⟩⟩
  · rintro ⟨busName, bus, hfind, hne, rfl | ⟨p, hp, hname⟩⟩
    · exact .inl ⟨bus, hfind, hne⟩
    · exact .inr ⟨busName, bus, hfind, p, hp, hname⟩

end Drawing

/-- The map of a catalogue is read as the tree of its objects, in which the names stand as they
are, exactly if the names that are drawn are clean. -/
theorem renderMap_isDocument_iff (calls : List TransportCatalogue.Call) (render : MapRender)
    (hpalette : render.settings.colorPalette ≠ []) (hcolors : render.settings.CleanColors) :
    ∃ pictures : List Picture,
      (∀ it, renderMap it (TransportCatalogue.run calls) render = .ok (Svg.document pictures)) ∧
        (∀ name, name ∈ pictures.filterMap Picture.source? ↔
          Drawn (TransportCatalogue.run calls) name) ∧
          ((∀ root, IsDocument root (Svg.document pictures).render ↔ root = Svg.svg pictures) ↔
            ∀ name, Drawn (TransportCatalogue.run calls) name → CleanSource name) := by
  have hdb := (TransportCatalogue.run_inv calls).toStoreInv
  obtain ⟨drawing, hdrawing⟩ := exists_drawing hdb hpalette .ofEntries
  obtain ⟨pictures, hpictures, hsources, hstyled⟩ := drawing.shows_objects hcolors
  refine ⟨pictures, fun it => ?_, fun name => ?_, ?_⟩
  · rw [renderMap_congr render hdb hdb rfl it .ofEntries, hdrawing, Svg.document, hpictures]
  · rw [hsources, drawing.mem_sources_iff]
  · rw [isDocument_eq_iff, Svg.isDocument_svg_iff]
    simp only [← drawing.mem_sources_iff, ← hsources, List.mem_filterMap]
    constructor
    · rintro hclean name ⟨picture, hpicture, hsource⟩
      exact ((picture.clean_iff).mp (hclean picture hpicture)).2 name hsource
    · intro hclean picture hpicture
      exact picture.clean_iff.mpr ⟨hstyled picture hpicture,
        fun source hsource => hclean source ⟨picture, hpicture, hsource⟩⟩

open TransportRouter (lineCalls) in
theorem renderMap_isDocument_iff_line :
    ∃ pictures : List Picture,
      (∀ it, renderMap it (TransportCatalogue.run lineCalls)
        ⟨{ colorPalette := [Svg.noneColor] }⟩ = .ok (Svg.document pictures)) ∧
        (∀ name, name ∈ pictures.filterMap Picture.source? ↔
          Drawn (TransportCatalogue.run lineCalls) name) ∧
          ((∀ root, IsDocument root (Svg.document pictures).render ↔ root = Svg.svg pictures) ↔
            ∀ name, Drawn (TransportCatalogue.run lineCalls) name → CleanSource name) :=
  renderMap_isDocument_iff lineCalls ⟨{ colorPalette := [Svg.noneColor] }⟩ (by decide)
    ⟨trivial, List.forall_mem_singleton.mpr clean_noneColor⟩

end RequestHandler

end TransportSystem
