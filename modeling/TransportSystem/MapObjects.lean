import TransportSystem.RequestHandler
import TransportSystem.RouteLength

namespace TransportSystem

open Library.UniqueKeys
open Library.Lists
open TransportCatalogue

namespace RequestHandler

/-- The stops at which a bus is named: its first one, and its last one if the bus does not come
back to where it began. -/
def labelStops (bus : Bus) : List StopPtr :=
  match bus.stops.head?, bus.stops.getLast? with
  | some beginStop, some endStop =>
      if bus.isLoopTrip ∨ beginStop = endStop then [beginStop] else [beginStop, endStop]
  | _, _ => []

/-- The projector of a map with these stops. -/
def mapProjector (render : MapRender) (stops : List Stop) : SphereProjector :=
  .ofPoints (stops.map Stop.coordinates) render.settings.size.width render.settings.size.height
    render.settings.size.padding

/-- What there is to draw of a catalogue, and how it is drawn. -/
structure Drawing (db : TransportCatalogue) (render : MapRender) where
  buses : List (Str × Bus)
  stops : List Stop
  way : Bus → ℕ → Svg.Polyline
  label : Str → ℕ → Svg.Point → Svg.Text × Svg.Text
  pairwise_buses : (buses.map Prod.fst).Pairwise (· < ·)
  mem_buses : ∀ name bus, (name, bus) ∈ buses ↔ db.findBus name = .ok bus ∧ bus.stops ≠ []
  pairwise_stops : (stops.map Stop.name).Pairwise (· < ·)
  mem_stops : ∀ stop, stop ∈ stops ↔
    ∃ name bus, db.findBus name = .ok bus ∧ ∃ p ∈ bus.stops, db.stop p = stop
  renderWay_eq : ∀ bus colorCounter, bus.stops ≠ [] →
    render.renderWay db bus colorCounter (mapProjector render stops) = .ok (way bus colorCounter)
  color_way : ∀ bus colorCounter, bus.stops ≠ [] →
    render.settings.colorPalette[colorCounter % render.settings.colorPalette.length]? =
      some (way bus colorCounter).strokeColor
  renderNameBus_eq : ∀ name colorCounter point,
    render.renderNameBus name colorCounter point = .ok (label name colorCounter point)
  color_label : ∀ name colorCounter point,
    render.settings.colorPalette[colorCounter % render.settings.colorPalette.length]? =
      some (label name colorCounter point).2.fillColor

def textObjects (texts : Svg.Text × Svg.Text) : List Svg.Object := [.text texts.1, .text texts.2]

namespace Drawing

variable {db : TransportCatalogue} {render : MapRender} (drawing : Drawing db render)

def point (stop : Stop) : Svg.Point :=
  (mapProjector render drawing.stops).project stop.coordinates

def ways : List Svg.Object :=
  drawing.buses.zipIdx.map fun e => .polyline (drawing.way e.1.2 e.2)

def busLabels : List Svg.Object :=
  drawing.buses.zipIdx.flatMap fun e => (labelStops e.1.2).flatMap fun p =>
    textObjects (drawing.label e.1.1 e.2 (drawing.point (db.stop p)))

def circles : List Svg.Object :=
  drawing.stops.map fun stop => .circle (render.renderStop (drawing.point stop))

def stopLabels : List Svg.Object :=
  drawing.stops.flatMap fun stop =>
    textObjects (render.renderNameStop stop.name (drawing.point stop))

def objects : List Svg.Object :=
  drawing.ways ++ drawing.busLabels ++ drawing.circles ++ drawing.stopLabels

end Drawing

/-- A loop whose steps add objects adds the objects of its steps. -/
theorem foldlM_adds {A B : Type} {f : Svg.Document → B → Except Failure Svg.Document} {g : A → B}
    {added : A → List Svg.Object} {l : List A}
    (h : ∀ a ∈ l, ∀ result, f result (g a) = .ok ⟨result.objects ++ added a⟩)
    (objects : List Svg.Object) :
    (l.map g).foldlM f ⟨objects⟩ = .ok ⟨objects ++ l.flatMap added⟩ := by
  induction l generalizing objects with
  | nil => simp [pure, Except.pure]
  | cons a l ih =>
      rw [List.map_cons, List.foldlM_cons, h a (by simp), ok_bind,
        ih fun a' ha' => h a' (by simp [ha'])]
      simp

section Loops

variable {db : TransportCatalogue} {render : MapRender} {projector : SphereProjector}

theorem addTexts_eq (result : Svg.Document) (texts : Svg.Text × Svg.Text) :
    addTexts result texts = ⟨result.objects ++ textObjects texts⟩ := by
  simp [addTexts, Svg.Document.add, textObjects]

theorem addWay_eq {name : Str} {bus : Bus} {vereda : Svg.Polyline} {i : ℕ}
    (hfind : db.findBus name = .ok bus) (hway : render.renderWay db bus i projector = .ok vereda)
    (result : Svg.Document) :
    addWay db render projector result (name, i) = .ok ⟨result.objects ++ [.polyline vereda]⟩ := by
  simp only [addWay, hfind, hway, ok_bind]
  rfl

theorem addBusNames_eq {name : Str} {bus : Bus} {label : Svg.Point → Svg.Text × Svg.Text} {i : ℕ}
    (hfind : db.findBus name = .ok bus) (hne : bus.stops ≠ [])
    (hlabel : ∀ point, render.renderNameBus name i point = .ok (label point))
    (result : Svg.Document) :
    addBusNames db render projector result (name, i) =
      .ok ⟨result.objects ++ (labelStops bus).flatMap fun p =>
        textObjects (label (projector.project (db.stop p).coordinates))⟩ := by
  simp only [addBusNames, labelStops, hfind, hlabel, ok_bind, List.head?_eq_some_head hne,
    List.getLast?_eq_some_getLast hne, addTexts_eq]
  split
  · simp [pure, Except.pure]
  · simp [pure, Except.pure]

theorem addCircle_eq {stop : Stop} (hfind : db.findStop stop.name = .ok stop)
    (result : Svg.Document) :
    addCircle db render projector result stop.name =
      .ok ⟨result.objects ++
        [.circle (render.renderStop (projector.project stop.coordinates))]⟩ := by
  simp only [addCircle, hfind, ok_bind]
  rfl

theorem addStopName_eq {stop : Stop} (hfind : db.findStop stop.name = .ok stop)
    (result : Svg.Document) :
    addStopName db render projector result stop.name =
      .ok ⟨result.objects ++
        textObjects (render.renderNameStop stop.name (projector.project stop.coordinates))⟩ := by
  simp only [addStopName, hfind, ok_bind, addTexts_eq]
  rfl

end Loops

section Drawn

variable {db : TransportCatalogue} {render : MapRender}

theorem mem_setOfNames {names : List Str} {name : Str} :
    name ∈ setOfNames names ↔ name ∈ names := by
  simp [setOfNames]

theorem mem_visits_iff_findBus {it : Iteration Str BusPtr} {name : Str} {stop : Stop} :
    (name, stop) ∈ visits it db ↔
      ∃ bus, db.findBus name = .ok bus ∧ ∃ p ∈ bus.stops, db.stop p = stop := by
  unfold visits
  rw [List.mem_flatMap]
  constructor
  · rintro ⟨⟨name', q⟩, hq, hmem⟩
    obtain ⟨p, hp, heq⟩ := List.mem_map.mp hmem
    cases heq
    exact ⟨db.bus q, findBus_eq_ok_iff.mpr ⟨q, it.mem_order.mp hq, rfl⟩, p, hp, rfl⟩
  · rintro ⟨bus, hfind, p, hp, rfl⟩
    obtain ⟨q, hq, rfl⟩ := findBus_eq_ok_iff.mp hfind
    exact ⟨⟨name, q⟩, it.mem_order.mpr hq, List.mem_map_of_mem hp⟩

theorem exists_findBus_of_visits {it : Iteration Str BusPtr} {name : Str}
    (h : name ∈ (visits it db).map fun e => e.1) :
    ∃ bus, db.findBus name = .ok bus ∧ bus.stops ≠ [] := by
  obtain ⟨⟨name, stop⟩, hmem, rfl⟩ := List.mem_map.mp h
  obtain ⟨bus, hfind, p, hp, -⟩ := mem_visits_iff_findBus.mp hmem
  exact ⟨bus, hfind, List.ne_nil_of_mem hp⟩

theorem findStop_of_mem_visits (hdb : StoreInv db) {it : Iteration Str BusPtr} {name : Str}
    {stop : Stop} (h : (name, stop) ∈ visits it db) : db.findStop stop.name = .ok stop := by
  obtain ⟨bus, hfind, p, hp, rfl⟩ := mem_visits_iff_findBus.mp h
  obtain ⟨q, hq, rfl⟩ := findBus_eq_ok_iff.mp hfind
  have hlt := hdb.busStops _ (hdb.bus_mem hq).1 p hp
  rw [TransportCatalogue.findStop, mapAt_of_lookup (hdb.lookup_stop_name hlt)]
  rfl

theorem pairwise_setOfNames (names : List Str) : (setOfNames names).Pairwise (· < ·) :=
  pairwise_lt_insertionSort (List.nodup_dedup names)

/-- The names of the buses in order, each with its bus. -/
theorem exists_buses (it : Iteration Str BusPtr) (db : TransportCatalogue) :
    ∃ buses : List (Str × Bus),
      buses.map Prod.fst = setOfNames ((visits it db).map fun e => e.1) ∧
        ∀ name bus, (name, bus) ∈ buses ↔ db.findBus name = .ok bus ∧ bus.stops ≠ [] := by
  have hexists : ∀ name ∈ setOfNames ((visits it db).map fun e => e.1),
      ∃ bus, db.findBus name = .ok bus ∧ bus.stops ≠ [] := fun name hname =>
    exists_findBus_of_visits (mem_setOfNames.mp hname)
  obtain ⟨buses, hnames, hbuses⟩ := exists_pairs hexists
  refine ⟨buses, hnames, fun name bus => ⟨hbuses (name, bus), ?_⟩⟩
  rintro ⟨hfind, hne⟩
  obtain ⟨p, hp⟩ := List.exists_mem_of_ne_nil _ hne
  have hname : name ∈ buses.map Prod.fst := by
    rw [hnames]
    exact mem_setOfNames.mpr (List.mem_map_of_mem
      (mem_visits_iff_findBus.mpr ⟨bus, hfind, p, hp, rfl⟩))
  obtain ⟨⟨name, bus'⟩, hmem, rfl⟩ := List.mem_map.mp hname
  cases hfind.symm.trans (hbuses _ hmem).1
  exact hmem

/-- The names of the stops in order, each with its stop. -/
theorem exists_stops (hdb : StoreInv db) (it : Iteration Str BusPtr) :
    ∃ stops : List Stop,
      stops.map Stop.name = setOfNames ((visits it db).map fun e => e.2.name) ∧
        ∀ stop, stop ∈ stops ↔ ∃ name, (name, stop) ∈ visits it db := by
  have hexists : ∀ stopName ∈ setOfNames ((visits it db).map fun e => e.2.name),
      ∃ stop : Stop, stop.name = stopName ∧ ∃ name, (name, stop) ∈ visits it db := by
    intro stopName hname
    obtain ⟨⟨name, stop⟩, hmem, rfl⟩ := List.mem_map.mp (mem_setOfNames.mp hname)
    exact ⟨stop, rfl, name, hmem⟩
  obtain ⟨pairs, hnames, hpairs⟩ := exists_pairs hexists
  have hmap : (pairs.map Prod.snd).map Stop.name = pairs.map Prod.fst := by
    rw [List.map_map]
    exact List.map_congr_left fun e he => (hpairs e he).1
  refine ⟨pairs.map Prod.snd, hmap.trans hnames, fun stop => ⟨fun hmem => ?_, ?_⟩⟩
  · obtain ⟨e, he, rfl⟩ := List.mem_map.mp hmem
    exact (hpairs e he).2
  · rintro ⟨name, hvisit⟩
    have hname : stop.name ∈ (pairs.map Prod.snd).map Stop.name := by
      rw [hmap, hnames]
      exact mem_setOfNames.mpr (List.mem_map.mpr ⟨(name, stop), hvisit, rfl⟩)
    obtain ⟨stop', hmem, heq⟩ := List.mem_map.mp hname
    obtain ⟨e, he, rfl⟩ := List.mem_map.mp hmem
    obtain ⟨name', hvisit'⟩ := (hpairs e he).2
    have hfind := findStop_of_mem_visits hdb hvisit
    rw [← heq, findStop_of_mem_visits hdb hvisit'] at hfind
    cases hfind
    exact hmem

theorem paletteColor_eq_ok_iff {colorCounter : ℕ} {color : Svg.Color} :
    render.paletteColor colorCounter = .ok color ↔
      render.settings.colorPalette[colorCounter % render.settings.colorPalette.length]? =
        some color := by
  unfold MapRender.paletteColor
  split
  · rename_i heq
    simp [heq]
  · rename_i heq
    simp [heq]

theorem exists_paletteColor (h : render.settings.colorPalette ≠ []) (colorCounter : ℕ) :
    ∃ color, render.paletteColor colorCounter = .ok color := by
  have hlt : colorCounter % render.settings.colorPalette.length <
      render.settings.colorPalette.length := Nat.mod_lt _ (List.length_pos_iff.mpr h)
  exact ⟨_, by rw [MapRender.paletteColor, List.getElem?_eq_getElem hlt]⟩

theorem renderWay_spec (hpalette : render.settings.colorPalette ≠ []) {bus : Bus}
    (hne : bus.stops ≠ []) (colorCounter : ℕ) (projector : SphereProjector) :
    ∃ vereda, render.renderWay db bus colorCounter projector = .ok vereda ∧
      render.paletteColor colorCounter = .ok vereda.strokeColor ∧
        vereda.points = (roundTrip bus).map fun p => projector.project (db.stop p).coordinates := by
  obtain ⟨color, hcolor⟩ := exists_paletteColor hpalette colorCounter
  have hpop : popBack bus.stops = .ok bus.stops.dropLast := by simp [popBack, hne]; rfl
  unfold MapRender.renderWay roundTrip
  simp only [hcolor, hpop, ok_bind, foldl_addPoint]
  cases bus.isLoopTrip with
  | true => exact ⟨_, rfl, rfl, by simp [Function.comp_def]⟩
  | false => exact ⟨_, rfl, rfl, by simp [Function.comp_def, List.tail_reverse]⟩

variable (db) in
theorem exists_way (hpalette : render.settings.colorPalette ≠ []) (projector : SphereProjector) :
    ∃ way : Bus → ℕ → Svg.Polyline, ∀ bus colorCounter, bus.stops ≠ [] →
      render.renderWay db bus colorCounter projector = .ok (way bus colorCounter) ∧
        render.paletteColor colorCounter = .ok (way bus colorCounter).strokeColor := by
  have hway (bus : Bus) (colorCounter : ℕ) : ∃ vereda : Svg.Polyline, bus.stops ≠ [] →
      render.renderWay db bus colorCounter projector = .ok vereda ∧
        render.paletteColor colorCounter = .ok vereda.strokeColor := by
    by_cases hne : bus.stops = []
    · exact ⟨{}, fun h => absurd hne h⟩
    · obtain ⟨vereda, hvereda, hcolor, -⟩ := renderWay_spec hpalette hne colorCounter projector
      exact ⟨vereda, fun _ => ⟨hvereda, hcolor⟩⟩
  choose way h using hway
  exact ⟨way, h⟩

theorem exists_label (hpalette : render.settings.colorPalette ≠ []) :
    ∃ label : Str → ℕ → Svg.Point → Svg.Text × Svg.Text, ∀ name colorCounter point,
      render.renderNameBus name colorCounter point = .ok (label name colorCounter point) ∧
        render.paletteColor colorCounter = .ok (label name colorCounter point).2.fillColor := by
  have hlabel (name : Str) (colorCounter : ℕ) (point : Svg.Point) :
      ∃ texts, render.renderNameBus name colorCounter point = .ok texts ∧
        render.paletteColor colorCounter = .ok texts.2.fillColor := by
    obtain ⟨color, hcolor⟩ := exists_paletteColor hpalette colorCounter
    simp only [MapRender.renderNameBus, hcolor, ok_bind]
    exact ⟨_, rfl, rfl⟩
  choose label h using hlabel
  exact ⟨label, h⟩

namespace Drawing

variable (drawing : Drawing db render)

theorem findBus_of_mem {e : (Str × Bus) × ℕ} (he : e ∈ drawing.buses.zipIdx) :
    db.findBus e.1.1 = .ok e.1.2 ∧ e.1.2.stops ≠ [] :=
  (drawing.mem_buses _ _).mp (List.fst_mem_of_mem_zipIdx he)

theorem foldlM_addWay :
    (drawing.buses.map Prod.fst).zipIdx.foldlM
      (addWay db render (mapProjector render drawing.stops)) {} = .ok ⟨drawing.ways⟩ := by
  have hways : drawing.ways = drawing.buses.zipIdx.flatMap fun e =>
    [.polyline (drawing.way e.1.2 e.2)] := List.map_eq_flatMap
  rw [List.zipIdx_map, hways]
  refine foldlM_adds (fun e he => ?_) []
  obtain ⟨hfind, hne⟩ := drawing.findBus_of_mem he
  exact addWay_eq hfind (drawing.renderWay_eq e.1.2 e.2 hne)

theorem foldlM_addBusNames (objects : List Svg.Object) :
    (drawing.buses.map Prod.fst).zipIdx.foldlM
        (addBusNames db render (mapProjector render drawing.stops)) ⟨objects⟩ =
      .ok ⟨objects ++ drawing.busLabels⟩ := by
  rw [List.zipIdx_map]
  refine foldlM_adds (fun e he => ?_) objects
  obtain ⟨hfind, hne⟩ := drawing.findBus_of_mem he
  exact addBusNames_eq hfind hne (drawing.renderNameBus_eq e.1.1 e.2)

theorem foldlM_addCircle (hfind : ∀ stop ∈ drawing.stops, db.findStop stop.name = .ok stop)
    (objects : List Svg.Object) :
    (drawing.stops.map Stop.name).foldlM
        (addCircle db render (mapProjector render drawing.stops)) ⟨objects⟩ =
      .ok ⟨objects ++ drawing.circles⟩ := by
  have hcircles : drawing.circles = drawing.stops.flatMap fun stop =>
    [.circle (render.renderStop (drawing.point stop))] := List.map_eq_flatMap
  rw [hcircles]
  exact foldlM_adds (fun stop hstop => addCircle_eq (hfind stop hstop)) objects

theorem foldlM_addStopName (hfind : ∀ stop ∈ drawing.stops, db.findStop stop.name = .ok stop)
    (objects : List Svg.Object) :
    (drawing.stops.map Stop.name).foldlM
        (addStopName db render (mapProjector render drawing.stops)) ⟨objects⟩ =
      .ok ⟨objects ++ drawing.stopLabels⟩ :=
  foldlM_adds (fun stop hstop => addStopName_eq (hfind stop hstop)) objects

/-- The loops of `RenderMap` draw the buses and the stops of a drawing. -/
theorem renderMap_eq {it : Iteration Str BusPtr}
    (hbuses : drawing.buses.map Prod.fst = setOfNames ((visits it db).map fun e => e.1))
    (hstops : drawing.stops.map Stop.name = setOfNames ((visits it db).map fun e => e.2.name))
    (hprojector : mapProjector render drawing.stops =
      .ofPoints ((visits it db).map fun e => e.2.coordinates) render.settings.size.width
        render.settings.size.height render.settings.size.padding)
    (hfind : ∀ stop ∈ drawing.stops, db.findStop stop.name = .ok stop) :
    renderMap it db render = .ok ⟨drawing.objects⟩ := by
  unfold renderMap
  dsimp only
  rw [← hbuses, ← hstops, ← hprojector, foldlM_addWay, ok_bind, foldlM_addBusNames, ok_bind,
    drawing.foldlM_addCircle hfind, ok_bind, drawing.foldlM_addStopName hfind, objects]

end Drawing

theorem exists_drawing (hdb : StoreInv db) (hpalette : render.settings.colorPalette ≠ [])
    (it : Iteration Str BusPtr) :
    ∃ drawing : Drawing db render, renderMap it db render = .ok ⟨drawing.objects⟩ := by
  obtain ⟨buses, hbuses, hmemBuses⟩ := exists_buses it db
  obtain ⟨stops, hstops, hmemStops⟩ := exists_stops hdb it
  obtain ⟨way, hway⟩ := exists_way db hpalette (mapProjector render stops)
  obtain ⟨label, hlabel⟩ := exists_label hpalette
  let drawing : Drawing db render :=
    { buses := buses
      stops := stops
      way := way
      label := label
      pairwise_buses := hbuses ▸ pairwise_setOfNames _
      mem_buses := hmemBuses
      pairwise_stops := hstops ▸ pairwise_setOfNames _
      mem_stops := fun stop => by simp only [hmemStops, mem_visits_iff_findBus]
      renderWay_eq := fun bus colorCounter hne => (hway bus colorCounter hne).1
      color_way := fun bus colorCounter hne =>
        paletteColor_eq_ok_iff.mp (hway bus colorCounter hne).2
      renderNameBus_eq := fun name colorCounter point => (hlabel name colorCounter point).1
      color_label := fun name colorCounter point =>
        paletteColor_eq_ok_iff.mp (hlabel name colorCounter point).2 }
  refine ⟨drawing, drawing.renderMap_eq hbuses hstops ?_ ?_⟩
  · refine ofPoints_congr (fun c => ?_) _ _ _
    constructor
    · intro hc
      obtain ⟨stop, hstop, rfl⟩ := List.mem_map.mp hc
      obtain ⟨name, hvisit⟩ := (hmemStops stop).mp hstop
      exact List.mem_map.mpr ⟨(name, stop), hvisit, rfl⟩
    · intro hc
      obtain ⟨⟨name, stop⟩, hvisit, rfl⟩ := List.mem_map.mp hc
      exact List.mem_map_of_mem ((hmemStops stop).mpr ⟨name, hvisit⟩)
  · intro stop hstop
    obtain ⟨name, hvisit⟩ := (hmemStops stop).mp hstop
    exact findStop_of_mem_visits hdb hvisit

/-- With colors in the palette, every catalogue has a map. -/
theorem exists_renderMap {it : Iteration Str BusPtr} (hdb : StoreInv db)
    (hpalette : render.settings.colorPalette ≠ []) :
    ∃ document, renderMap it db render = .ok document := by
  obtain ⟨drawing, hdrawing⟩ := exists_drawing hdb hpalette it
  exact ⟨_, hdrawing⟩

end Drawn

end RequestHandler

end TransportSystem
