import TransportSystem.CatalogueAnswers
import TransportSystem.RouteAnswers

/-!
What the router answers depends on the view of its catalogue only, up to the
choice between equally fast routes.
-/

namespace TransportSystem.TransportRouter

open TransportSystem.Graph
open Library.UniqueKeys
open TransportCatalogue (StoreInv View view getLenghtBetweenStops_eq_view
  mem_names_iff_coordinates stopNames)

variable {rs : RoutingSettings} {db db' : TransportCatalogue}

theorem travelTime_nonneg (p q : StopPtr) : 0 ≤ (travelTime rs db p q : ℚ) := by
  unfold travelTime calculateTimeBetweenStations
  cases db.getLenghtBetweenStops (db.stop p).name (db.stop q).name with
  | error e => exact le_rfl
  | ok lenght =>
      show 0 ≤ (lenght.toNat : ℚ) / (((1000 : Nat) : ℚ) * rs.busVelocity.toNat) * ((60 : Nat) : ℚ)
      positivity

theorem timeAlong_nonneg (stops : List StopPtr) : 0 ≤ (timeAlong rs db stops : ℚ) := by
  induction stops with
  | nil => exact le_rfl
  | cons a stops ih =>
      cases stops with
      | nil => exact le_rfl
      | cons b stops => exact add_nonneg (travelTime_nonneg a b) ih

theorem weight_nonneg {trip : Trip ℚ} (h : trip ∈ allTrips rs db) : 0 ≤ trip.edge.weight := by
  rcases (mem_allTrips rs db trip).mp h with ⟨k, -, rfl⟩ | ⟨bus, -, hride⟩
  · exact Nat.cast_nonneg _
  · obtain ⟨p, q, first, next, -, -, -, rfl⟩ := (mem_busTrips rs db bus trip).mp hride
    exact timeAlong_nonneg _

/-- The constructor returns exactly on the catalogues whose buses all have
measured roads. -/
theorem exists_make_iff (hdb : StoreInv db) :
    (∃ tr : TransportRouter ℚ, make rs db = .ok tr) ↔ ∀ bus ∈ db.allBuses, Measured db bus := by
  constructor
  · rintro ⟨tr, hmake⟩
    exact (make_made hdb hmake).measured
  · intro hmeasured
    refine make_of_measured hdb hmeasured fun s hs => ?_
    rcases Router.ofGraph_spec hs.graph with ⟨router, heq, -, -⟩ | ⟨-, edge, hedge, hneg⟩
    · exact ⟨router, heq⟩
    · rw [hs.edges] at hedge
      obtain ⟨trip, htrip, rfl⟩ := List.mem_map.mp hedge
      exact absurd hneg (weight_nonneg htrip).not_gt

theorem measured_iff (bus : Bus) :
    Measured db bus ↔ (db.stopNames bus.stops).IsChain
      fun a b => ∃ lenght, db.getLenghtBetweenStops a b = .ok lenght := by
  rw [stopNames, List.isChain_map]
  rfl

/-- The same ride in a bus with the same stops. -/
theorem Leg.exists_same_stops (leg : Leg db) {bus' : Bus} (hbus' : bus' ∈ db'.allBuses)
    (hloop : bus'.isLoopTrip = leg.bus.isLoopTrip)
    (hstops : db'.stopNames bus'.stops = db.stopNames leg.bus.stops) :
    ∃ leg' : Leg db', leg'.origin = leg.origin ∧ leg'.target = leg.target ∧
      ∀ rs, leg'.cost rs = (do
        let time ← rideTime rs db' (travelled (db.stopNames leg.bus.stops) leg.p leg.q)
        pure (rs.busWaitTime.toNat + time)) := by
  have hlength : bus'.stops.length = leg.bus.stops.length := by
    simpa [stopNames] using congrArg List.length hstops
  have hname : ∀ (i : Nat) (hi' : i < bus'.stops.length) (hi : i < leg.bus.stops.length),
      (db'.stop (bus'.stops.get ⟨i, hi'⟩)).name = (db.stop (leg.bus.stops.get ⟨i, hi⟩)).name := by
    intro i hi' hi
    have := congrArg (fun l => l[i]?) hstops
    simpa [stopNames, List.getElem?_eq_getElem hi', List.getElem?_eq_getElem hi] using this
  have hcan : CanRide bus' leg.p leg.q := by
    have := leg.direction
    rwa [CanRide, ← hloop] at this
  let leg' : Leg db' :=
    { bus := bus', p := leg.p, q := leg.q, bus_mem := hbus', p_lt := hlength ▸ leg.p_lt,
      q_lt := hlength ▸ leg.q_lt, direction := hcan }
  refine ⟨leg', hname _ _ _, hname _ _ _, fun rs => ?_⟩
  simp only [Leg.cost, leg', hstops]

section View

variable (hview : view db = view db')

include hview

theorem getLenghtBetweenStops_congr (a b : Str) :
    db.getLenghtBetweenStops a b = db'.getLenghtBetweenStops a b := by
  rw [getLenghtBetweenStops_eq_view, getLenghtBetweenStops_eq_view, hview]

theorem exists_bus {bus : Bus} (hbus : bus ∈ db.allBuses) :
    ∃ bus' ∈ db'.allBuses, bus'.name = bus.name ∧ bus'.isLoopTrip = bus.isLoopTrip ∧
      db'.stopNames bus'.stops = db.stopNames bus.stops := by
  have hmem : (bus.name, db.stopNames bus.stops, bus.isLoopTrip) ∈ (view db).allBuses :=
    ⟨bus, hbus, rfl⟩
  rw [hview] at hmem
  obtain ⟨bus', hbus', heq⟩ := hmem
  simp only [Prod.mk.injEq] at heq
  exact ⟨bus', hbus', heq.1.symm, heq.2.2.symm, heq.2.1.symm⟩

theorem measured_of_view (h : ∀ bus ∈ db'.allBuses, Measured db' bus) :
    ∀ bus ∈ db.allBuses, Measured db bus := by
  intro bus hbus
  obtain ⟨bus', hbus', -, -, hstops⟩ := exists_bus hview hbus
  have hmeasured := h bus' hbus'
  rw [measured_iff, hstops] at hmeasured
  rw [measured_iff]
  simpa only [getLenghtBetweenStops_congr hview] using hmeasured

theorem rideTime_congr (stops : List Str) : rideTime rs db stops = rideTime rs db' stops := by
  induction stops with
  | nil => rfl
  | cons a stops ih =>
      cases stops with
      | nil => rfl
      | cons b stops => rw [rideTime, rideTime, ih, getLenghtBetweenStops_congr hview]

theorem exists_leg (rs : RoutingSettings) (leg : Leg db) :
    ∃ leg' : Leg db', leg'.origin = leg.origin ∧ leg'.target = leg.target ∧
      leg'.cost rs = leg.cost rs := by
  obtain ⟨bus', hbus', -, hloop, hstops⟩ := exists_bus hview leg.bus_mem
  obtain ⟨leg', horigin, htarget, hcost⟩ := leg.exists_same_stops hbus' hloop hstops
  exact ⟨leg', horigin, htarget, by rw [hcost, rideTime_congr hview.symm]; rfl⟩

theorem exists_itinerary (rs : RoutingSettings) {origin target : Str} {legs : List (Leg db)}
    (h : Itinerary origin target legs) :
    ∃ legs' : List (Leg db'), Itinerary origin target legs' ∧
      itineraryCost rs legs' = itineraryCost rs legs := by
  induction h with
  | nil stop => exact ⟨[], .nil stop, rfl⟩
  | @cons leg target legs _ ih =>
      obtain ⟨leg', horigin, htarget, hcost⟩ := exists_leg hview rs leg
      obtain ⟨legs', hlegs', hcosts⟩ := ih
      refine ⟨leg' :: legs', ?_, by rw [itineraryCost, itineraryCost, hcost, hcosts]⟩
      rw [← horigin]
      exact .cons leg' (htarget ▸ hlegs')

end View

namespace Made

variable {tr : TransportRouter ℚ} (h : Made rs db tr)

include h

theorem mem_stopVertexs_iff (name : Str) : name ∈ tr.stopVertexs ↔ name ∈ db.names := by
  rw [UnorderedMap.mem_iff_lookup, List.mem_iff_getElem?]
  constructor
  · rintro ⟨vertices, hvertices⟩
    obtain ⟨k, hk, -⟩ := (h.numbered.vertexs name vertices).mp hvertices
    exact ⟨k, hk⟩
  · rintro ⟨k, hk⟩
    exact ⟨_, (h.numbered.vertexs name _).mpr ⟨k, hk, rfl⟩⟩

theorem getRouteInfo_of_origin_not_mem {origin : Str} (horigin : origin ∉ db.names)
    (target : Str) :
    tr.getRouteInfo origin target = .error (.logicError "there is no starting stop") := by
  have hmem : origin ∉ tr.stopVertexs := mt (h.mem_stopVertexs_iff origin).mp horigin
  simp only [getRouteInfo, hmem, not_false_eq_true, if_true, bind, Except.bind, throw, throwThe,
    MonadExceptOf.throw]

theorem getRouteInfo_of_target_not_mem {origin target : Str} (horigin : origin ∈ db.names)
    (htarget : target ∉ db.names) : tr.getRouteInfo origin target = .error .outOfRange := by
  have hmem := (h.mem_stopVertexs_iff origin).mpr horigin
  obtain ⟨vertices, hvertices⟩ := UnorderedMap.mem_iff_lookup.mp hmem
  have hnone := UnorderedMap.lookup_eq_none.mpr (mt (h.mem_stopVertexs_iff target).mp htarget)
  simp [getRouteInfo, hmem, mapAt, hvertices, hnone, bind, Except.bind]

end Made

/-- What is known of the answer for two stops: the least cost of an itinerary. -/
theorem Made.routeTime_spec {tr : TransportRouter ℚ} (h : Made rs db tr) (hdb : StoreInv db)
    {origin target : Str} (horigin : origin ∈ db.names) (htarget : target ∈ db.names) :
    ((tr.getRouteInfo origin target).map (Option.map RouteInfo.totalTime) = .ok none ∧
        ∀ legs : List (Leg db), ¬ Itinerary origin target legs) ∨
      ∃ time, (tr.getRouteInfo origin target).map (Option.map RouteInfo.totalTime) =
          .ok (some time) ∧
        IsLeast {cost | ∃ legs : List (Leg db), Itinerary origin target legs ∧
          itineraryCost rs legs = .ok cost} time := by
  obtain ⟨a, -, ha, rfl⟩ := hdb.lookup_of_mem horigin
  obtain ⟨b, -, hb, rfl⟩ := hdb.lookup_of_mem htarget
  rcases h.getRouteInfo_spec hdb ha hb with
    ⟨hnone, hno⟩ | ⟨r, items, -, hsome, htravels, -, hsum, hleast⟩
  · exact Or.inl ⟨by rw [hnone]; rfl, hno⟩
  · refine Or.inr ⟨r.weight, by rw [hsome]; rfl, ?_, ?_⟩
    · obtain ⟨legs, hlegs, hcost⟩ := htravels.itinerary
      exact ⟨legs, hlegs, hsum ▸ hcost⟩
    · rintro cost ⟨legs, hlegs, hcost⟩
      obtain ⟨cost', hcost', hle⟩ := hleast legs hlegs
      cases hcost'.symm.trans hcost
      exact hle

theorem routeTime_congr (hview : view db = view db') (hdb : StoreInv db) (hdb' : StoreInv db')
    {tr tr' : TransportRouter ℚ} (h : Made rs db tr) (h' : Made rs db' tr')
    (origin target : Str) :
    (tr.getRouteInfo origin target).map (Option.map RouteInfo.totalTime) =
      (tr'.getRouteInfo origin target).map (Option.map RouteInfo.totalTime) := by
  have hnames : ∀ n, n ∈ db.names ↔ n ∈ db'.names := by
    intro n
    rw [mem_names_iff_coordinates hdb, mem_names_iff_coordinates hdb', hview]
  by_cases horigin : origin ∈ db.names
  · have horigin' := (hnames origin).mp horigin
    by_cases htarget : target ∈ db.names
    · have htarget' := (hnames target).mp htarget
      have hcosts : {cost | ∃ legs : List (Leg db), Itinerary origin target legs ∧
            itineraryCost rs legs = .ok cost} =
          {cost | ∃ legs : List (Leg db'), Itinerary origin target legs ∧
            itineraryCost rs legs = .ok cost} := by
        ext cost
        constructor
        · rintro ⟨legs, hlegs, hcost⟩
          obtain ⟨legs', hlegs', heq⟩ := exists_itinerary hview rs hlegs
          exact ⟨legs', hlegs', heq.trans hcost⟩
        · rintro ⟨legs, hlegs, hcost⟩
          obtain ⟨legs', hlegs', heq⟩ := exists_itinerary hview.symm rs hlegs
          exact ⟨legs', hlegs', heq.trans hcost⟩
      rcases h.routeTime_spec hdb horigin htarget with ⟨heq, hno⟩ | ⟨time, heq, hleast⟩ <;>
        rcases h'.routeTime_spec hdb' horigin' htarget' with
          ⟨heq', hno'⟩ | ⟨time', heq', hleast'⟩
      · rw [heq, heq']
      · obtain ⟨legs, hlegs, -⟩ := hcosts ▸ hleast'.1
        exact absurd hlegs (hno legs)
      · obtain ⟨legs, hlegs, -⟩ := hcosts ▸ hleast.1
        exact absurd hlegs (hno' legs)
      · rw [heq, heq', hleast.unique (hcosts ▸ hleast')]
    · rw [h.getRouteInfo_of_target_not_mem horigin htarget,
        h'.getRouteInfo_of_target_not_mem horigin' (mt (hnames target).mpr htarget)]
  · rw [h.getRouteInfo_of_origin_not_mem horigin,
      h'.getRouteInfo_of_origin_not_mem (mt (hnames origin).mpr horigin)]

end TransportSystem.TransportRouter
