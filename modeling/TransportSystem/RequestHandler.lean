import TransportSystem.MapRenderer
import TransportSystem.CatalogueAnswers

namespace TransportSystem

open Library.UniqueKeys
open Library.Lists
open TransportCatalogue (StoreInv View view stopNames findBus popBack)

namespace RequestHandler

/-- `std::set<std::string_view>` -/
def setOfNames (names : List Str) : List Str := names.dedup.insertionSort (· ≤ ·)

/-- The stops of the buses of `GetBuses`, with the name of the bus, in the order
of the first loop of `RenderMap`. -/
def visits (it : Iteration Str BusPtr) (db : TransportCatalogue) : List (Str × Stop) :=
  (it.order db.buses).flatMap fun e => (db.bus e.2).stops.map fun stop => (e.1, db.stop stop)

/-- The loop of `RenderMap` that draws the buses. -/
def addWay (db : TransportCatalogue) (render : MapRender) (projector : SphereProjector)
    (result : Svg.Document) (e : Str × Nat) : Except Failure Svg.Document := do
  let vereda ← render.renderWay db (← db.findBus e.1) e.2 projector
  pure (result.add (.polyline vereda))

def addTexts (result : Svg.Document) (texts : Svg.Text × Svg.Text) : Svg.Document :=
  (result.add (.text texts.1)).add (.text texts.2)

/-- The loop of `RenderMap` that names the buses. `stops[0]` and
`stops[stops.size() - 1]` are unchecked. -/
def addBusNames (db : TransportCatalogue) (render : MapRender) (projector : SphereProjector)
    (result : Svg.Document) (e : Str × Nat) : Except Failure Svg.Document := do
  let bus ← db.findBus e.1
  match bus.stops.head?, bus.stops.getLast? with
  | some beginStop, some endStop =>
      if bus.isLoopTrip ∨ beginStop = endStop then
        let svgNameBusBegin ← render.renderNameBus e.1 e.2
          (projector.project (db.stop beginStop).coordinates)
        pure (addTexts result svgNameBusBegin)
      else
        let svgNameBusBegin ← render.renderNameBus e.1 e.2
          (projector.project (db.stop beginStop).coordinates)
        let svgNameBusEnd ← render.renderNameBus e.1 e.2
          (projector.project (db.stop endStop).coordinates)
        pure (addTexts (addTexts result svgNameBusBegin) svgNameBusEnd)
  | _, _ => throw .undefinedBehaviour

/-- The loop of `RenderMap` that draws the stops. -/
def addCircle (db : TransportCatalogue) (render : MapRender) (projector : SphereProjector)
    (result : Svg.Document) (stop : Str) : Except Failure Svg.Document := do
  let circle := render.renderStop (projector.project (← db.findStop stop).coordinates)
  pure (result.add (.circle circle))

/-- The loop of `RenderMap` that names the stops. -/
def addStopName (db : TransportCatalogue) (render : MapRender) (projector : SphereProjector)
    (result : Svg.Document) (stop : Str) : Except Failure Svg.Document := do
  let svgNameStop := render.renderNameStop stop
    (projector.project (← db.findStop stop).coordinates)
  pure (addTexts result svgNameStop)

/-- `RenderMap`, with the order in which it meets the buses. -/
def renderMap (it : Iteration Str BusPtr) (db : TransportCatalogue) (render : MapRender) :
    Except Failure Svg.Document := do
  let visits := visits it db
  let size := render.settings.size
  let projector := SphereProjector.ofPoints (visits.map fun e => e.2.coordinates)
    size.width size.height size.padding
  let setNameBus := setOfNames (visits.map fun e => e.1)
  let setNameStop := setOfNames (visits.map fun e => e.2.name)
  -- the counter of the colors is the place of the name
  let result ← setNameBus.zipIdx.foldlM (addWay db render projector) {}
  let result ← setNameBus.zipIdx.foldlM (addBusNames db render projector) result
  let result ← setNameStop.foldlM (addCircle db render projector) result
  setNameStop.foldlM (addStopName db render projector) result

theorem foldl_min_le_iff {A : Type} (f : A → Double) (l : List A) (init c : Double) :
    c ≤ l.foldl (fun m p => min m (f p)) init ↔ c ≤ init ∧ ∀ p ∈ l, c ≤ f p := by
  induction l generalizing init with
  | nil => simp
  | cons p l ih =>
      rw [List.foldl_cons, ih, le_min_iff]
      simp [and_assoc]

theorem le_foldl_max_iff {A : Type} (f : A → Double) (l : List A) (init c : Double) :
    l.foldl (fun m p => max m (f p)) init ≤ c ↔ init ≤ c ∧ ∀ p ∈ l, f p ≤ c := by
  induction l generalizing init with
  | nil => simp
  | cons p l ih =>
      rw [List.foldl_cons, ih, max_le_iff]
      simp [and_assoc]

theorem setOfNames_congr {names names' : List Str} (h : ∀ n, n ∈ names ↔ n ∈ names') :
    setOfNames names = setOfNames names' :=
  insertionSort_eq_of_mem_iff (List.nodup_dedup _) (List.nodup_dedup _) (by simpa using h)

/-- The projector depends on the set of its points only. -/
theorem ofPoints_congr {points points' : List Coordinates} (h : ∀ c, c ∈ points ↔ c ∈ points')
    (maxWidth maxHeight padding : Double) :
    SphereProjector.ofPoints points maxWidth maxHeight padding =
      SphereProjector.ofPoints points' maxWidth maxHeight padding := by
  cases points with
  | nil =>
      cases points' with
      | nil => rfl
      | cons first' rest' => simpa using (h first').mpr (by simp)
  | cons first rest =>
      cases points' with
      | nil => simpa using (h first).mp (by simp)
      | cons first' rest' =>
          have hmin : ∀ f : Coordinates → Double,
              rest.foldl (fun m p => min m (f p)) (f first) =
                rest'.foldl (fun m p => min m (f p)) (f first') := by
            intro f
            refine eq_of_forall_le_iff fun c => ?_
            rw [foldl_min_le_iff, foldl_min_le_iff, ← List.forall_mem_cons (p := fun p => c ≤ f p),
              ← List.forall_mem_cons (p := fun p => c ≤ f p)]
            exact forall_congr' fun p => imp_congr_left (h p)
          have hmax : ∀ f : Coordinates → Double,
              rest.foldl (fun m p => max m (f p)) (f first) =
                rest'.foldl (fun m p => max m (f p)) (f first') := by
            intro f
            refine eq_of_forall_ge_iff fun c => ?_
            rw [le_foldl_max_iff, le_foldl_max_iff, ← List.forall_mem_cons (p := fun p => f p ≤ c),
              ← List.forall_mem_cons (p := fun p => f p ≤ c)]
            exact forall_congr' fun p => imp_congr_left (h p)
          simp only [SphereProjector.ofPoints, hmin, hmax]

section View

variable {db db' : TransportCatalogue}

theorem mem_visits (h : StoreInv db) (it : Iteration Str BusPtr) (n : Str) (s : Stop) :
    (n, s) ∈ visits it db ↔
      ∃ stops isLoop, (view db).bus n = some (stops, isLoop) ∧ s.name ∈ stops ∧
        (view db).coordinates s.name = some s.coordinates := by
  simp only [visits, List.mem_flatMap, List.mem_map, Prod.mk.injEq]
  constructor
  · rintro ⟨⟨n', p⟩, hp, q, hq, rfl, rfl⟩
    have hlookup := it.mem_order.mp hp
    have hlt := h.busStops _ (h.bus_mem hlookup).1 q hq
    refine ⟨db.stopNames (db.bus p).stops, (db.bus p).isLoopTrip, ?_, List.mem_map_of_mem hq,
      TransportCatalogue.view_coordinates_names h hlt⟩
    simp [view, hlookup]
  · rintro ⟨stops, isLoop, hbus, hmem, hcoordinates⟩
    simp only [view, Option.map_eq_some_iff, Prod.mk.injEq] at hbus
    obtain ⟨p, hlookup, rfl, rfl⟩ := hbus
    obtain ⟨q, hq, hname⟩ := List.mem_map.mp hmem
    have hlt := h.busStops _ (h.bus_mem hlookup).1 q hq
    rw [← hname, TransportCatalogue.view_coordinates_names h hlt, Option.some.injEq] at hcoordinates
    refine ⟨⟨n, p⟩, it.mem_order.mpr hlookup, q, hq, rfl, ?_⟩
    cases s
    cases hs : db.stop q
    simp_all

theorem mem_visits_congr (h : StoreInv db) (h' : StoreInv db') (hview : view db = view db')
    (it it' : Iteration Str BusPtr) (e : Str × Stop) : e ∈ visits it db ↔ e ∈ visits it' db' := by
  obtain ⟨n, s⟩ := e
  rw [mem_visits h, mem_visits h', hview]

structure SameBus (db db' : TransportCatalogue) (bus bus' : Bus) : Prop where
  isLoopTrip : bus.isLoopTrip = bus'.isLoopTrip
  names : db.stopNames bus.stops = db'.stopNames bus'.stops
  coordinates : (bus.stops.map fun p => (db.stop p).coordinates) =
    bus'.stops.map fun p => (db'.stop p).coordinates
  injective : ∀ p ∈ bus.stops, ∀ q ∈ bus.stops, (db.stop p).name = (db.stop q).name → p = q
  injective' : ∀ p ∈ bus'.stops, ∀ q ∈ bus'.stops, (db'.stop p).name = (db'.stop q).name → p = q

theorem coordinates_eq_view (h : StoreInv db) {bus : Bus} (hbus : bus ∈ db.allBuses) :
    (bus.stops.map fun p => (db.stop p).coordinates) =
      (db.stopNames bus.stops).map fun n => ((view db).coordinates n).getD ⟨0, 0⟩ := by
  rw [stopNames, List.map_map]
  refine List.map_congr_left fun p hp => ?_
  rw [Function.comp_apply, TransportCatalogue.view_coordinates_names h (h.busStops bus hbus p hp),
    Option.getD_some]

theorem findBus_congr (h : StoreInv db) (h' : StoreInv db') (hview : view db = view db')
    (name : Str) :
    (∃ bus bus', db.findBus name = .ok bus ∧ db'.findBus name = .ok bus' ∧
        SameBus db db' bus bus') ∨
      db.findBus name = .error .outOfRange ∧ db'.findBus name = .error .outOfRange := by
  have hname := congrFun (congrArg View.bus hview) name
  simp only [view] at hname
  unfold findBus mapAt
  cases hp : db.buses.lookup name with
  | none =>
      rw [hp] at hname
      have hp' : db'.buses.lookup name = none := by simpa using hname.symm
      exact Or.inr ⟨rfl, by rw [hp']; rfl⟩
  | some p =>
      rw [hp, Option.map_some] at hname
      obtain ⟨p', hp', heq⟩ := Option.map_eq_some_iff.mp hname.symm
      rw [Prod.mk.injEq] at heq
      have hbus := (h.bus_mem hp).1
      have hbus' := (h'.bus_mem hp').1
      refine Or.inl ⟨_, _, rfl, by rw [hp']; rfl, heq.2.symm, heq.1.symm, ?_, ?_, ?_⟩
      · rw [coordinates_eq_view h hbus, coordinates_eq_view h' hbus', hview, heq.1]
      · exact fun i hi j hj =>
          h.stop_name_injective (h.busStops _ hbus i hi) (h.busStops _ hbus j hj)
      · exact fun i hi j hj =>
          h'.stop_name_injective (h'.busStops _ hbus' i hi) (h'.busStops _ hbus' j hj)

theorem findStop_congr (hview : view db = view db') (name : Str) :
    (∃ stop stop', db.findStop name = .ok stop ∧ db'.findStop name = .ok stop' ∧
        stop.coordinates = stop'.coordinates) ∨
      db.findStop name = .error .outOfRange ∧ db'.findStop name = .error .outOfRange := by
  have hname := congrFun (congrArg View.coordinates hview) name
  simp only [view] at hname
  unfold TransportCatalogue.findStop mapAt
  cases hp : db.stops.lookup name with
  | none =>
      rw [hp] at hname
      have hp' : db'.stops.lookup name = none := by simpa using hname.symm
      exact Or.inr ⟨rfl, by rw [hp']; rfl⟩
  | some p =>
      rw [hp, Option.map_some] at hname
      obtain ⟨p', hp', hcoordinates⟩ := Option.map_eq_some_iff.mp hname.symm
      exact Or.inl ⟨_, _, rfl, by rw [hp']; rfl, hcoordinates.symm⟩

section Drawing

variable (render : MapRender) (projector : SphereProjector)

theorem foldl_addPoint (db : TransportCatalogue) (stops : List StopPtr) (vereda : Svg.Polyline) :
    stops.foldl (fun vereda stop =>
        vereda.addPoint (projector.project (db.stop stop).coordinates)) vereda =
      { vereda with
        points := vereda.points ++
          (stops.map fun p => (db.stop p).coordinates).map projector.project } := by
  induction stops generalizing vereda with
  | nil => simp
  | cons stop stops ih =>
      rw [List.foldl_cons, ih]
      simp [Svg.Polyline.addPoint]

theorem renderWay_congr {bus bus' : Bus} (hbus : SameBus db db' bus bus') (colorCounter : Nat) :
    render.renderWay db bus colorCounter projector =
      render.renderWay db' bus' colorCounter projector := by
  have hdropLast : (bus.stops.dropLast.map fun p => (db.stop p).coordinates) =
      bus'.stops.dropLast.map fun p => (db'.stop p).coordinates := by
    rw [List.map_dropLast, List.map_dropLast, hbus.coordinates]
  have hempty : bus.stops.isEmpty = bus'.stops.isEmpty := by
    rw [← List.isEmpty_map (f := fun p => (db.stop p).coordinates), hbus.coordinates,
      List.isEmpty_map]
  unfold MapRender.renderWay popBack
  simp only [foldl_addPoint, hbus.isLoopTrip, hbus.coordinates, hempty, List.map_append,
    List.map_reverse]
  cases render.paletteColor colorCounter with
  | error e => rfl
  | ok color =>
      cases bus'.isLoopTrip with
      | true => rfl
      | false =>
          cases bus'.stops.isEmpty with
          | true => rfl
          | false => simp [bind, Except.bind, pure, Except.pure, hdropLast]

theorem addWay_congr (h : StoreInv db) (h' : StoreInv db') (hview : view db = view db') :
    addWay db render projector = addWay db' render projector := by
  funext result e
  rcases findBus_congr h h' hview e.1 with ⟨bus, bus', heq, heq', hbus⟩ | ⟨heq, heq'⟩
  · simp only [addWay, heq, heq', bind, Except.bind, renderWay_congr render projector hbus]
  · simp only [addWay, heq, heq', bind, Except.bind]

theorem SameBus.ends {bus bus' : Bus} (hbus : SameBus db db' bus bus') :
    (bus.stops.head? = none ∧ bus'.stops.head? = none) ∨
      ∃ p q p' q', bus.stops.head? = some p ∧ bus.stops.getLast? = some q ∧
        bus'.stops.head? = some p' ∧ bus'.stops.getLast? = some q' ∧ (p = q ↔ p' = q') ∧
        (db.stop p).coordinates = (db'.stop p').coordinates ∧
        (db.stop q).coordinates = (db'.stop q').coordinates := by
  have hhead := congrArg List.head? hbus.names
  have hlast := congrArg List.getLast? hbus.names
  have hhead' := congrArg List.head? hbus.coordinates
  have hlast' := congrArg List.getLast? hbus.coordinates
  simp only [stopNames, List.head?_map, List.getLast?_map] at hhead hlast hhead' hlast'
  cases hp : bus.stops.head? with
  | none =>
      rw [hp] at hhead
      exact Or.inl ⟨rfl, by simpa using hhead.symm⟩
  | some p =>
      obtain ⟨q, hq⟩ : ∃ q, bus.stops.getLast? = some q := by
        cases hstops : bus.stops with
        | nil => simp [hstops] at hp
        | cons a l => exact ⟨_, List.getLast?_eq_some_getLast (by simp)⟩
      rw [hp] at hhead hhead'
      rw [hq] at hlast hlast'
      obtain ⟨p', hp', hpname⟩ := Option.map_eq_some_iff.mp hhead.symm
      obtain ⟨q', hq', hqname⟩ := Option.map_eq_some_iff.mp hlast.symm
      rw [hp'] at hhead'
      rw [hq'] at hlast'
      refine Or.inr ⟨p, q, p', q', rfl, hq, hp', hq', ?_, by simpa using hhead',
        by simpa using hlast'⟩
      have hmem := List.mem_of_mem_head? hp
      have hmem' := List.mem_of_mem_head? hp'
      have hqmem := List.mem_of_mem_getLast? hq
      have hqmem' := List.mem_of_mem_getLast? hq'
      constructor
      · rintro rfl
        exact hbus.injective' _ hmem' _ hqmem' (hpname.trans hqname.symm)
      · rintro rfl
        exact hbus.injective _ hmem _ hqmem (hpname.symm.trans hqname)

theorem addBusNames_congr (h : StoreInv db) (h' : StoreInv db') (hview : view db = view db') :
    addBusNames db render projector = addBusNames db' render projector := by
  funext result e
  rcases findBus_congr h h' hview e.1 with ⟨bus, bus', heq, heq', hbus⟩ | ⟨heq, heq'⟩
  · simp only [addBusNames, heq, heq', bind, Except.bind]
    rcases hbus.ends with ⟨hp, hp'⟩ | ⟨p, q, p', q', hp, hq, hp', hq', hsame, hpc, hqc⟩
    · rw [hp, hp']
    · simp only [hp, hq, hp', hq', hbus.isLoopTrip, hsame, hpc, hqc]
  · simp only [addBusNames, heq, heq', bind, Except.bind]

theorem addCircle_congr (hview : view db = view db') :
    addCircle db render projector = addCircle db' render projector := by
  funext result name
  rcases findStop_congr hview name with ⟨stop, stop', heq, heq', hstop⟩ | ⟨heq, heq'⟩
  · simp only [addCircle, heq, heq', hstop, bind, Except.bind]
  · simp only [addCircle, heq, heq', bind, Except.bind]

theorem addStopName_congr (hview : view db = view db') :
    addStopName db render projector = addStopName db' render projector := by
  funext result name
  rcases findStop_congr hview name with ⟨stop, stop', heq, heq', hstop⟩ | ⟨heq, heq'⟩
  · simp only [addStopName, heq, heq', hstop, bind, Except.bind]
  · simp only [addStopName, heq, heq', bind, Except.bind]

/-- Catalogues with the same view have the same map. -/
theorem renderMap_congr (h : StoreInv db) (h' : StoreInv db') (hview : view db = view db')
    (it it' : Iteration Str BusPtr) : renderMap it db render = renderMap it' db' render := by
  have hvisits := mem_visits_congr h h' hview it it'
  have hmap : ∀ {B : Type} (f : Str × Stop → B) (b : B),
      b ∈ (visits it db).map f ↔ b ∈ (visits it' db').map f := by
    intro B f b
    simp only [List.mem_map, hvisits]
  unfold renderMap
  simp only [ofPoints_congr (hmap _), setOfNames_congr (hmap _), addWay_congr render _ h h' hview,
    addBusNames_congr render _ h h' hview, addCircle_congr render _ hview,
    addStopName_congr render _ hview]

end Drawing

end View

end RequestHandler

end TransportSystem
