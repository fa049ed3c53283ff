import Mathlib.Algebra.Order.Ring.Rat
import Mathlib.Tactic.Positivity
import TransportSystem.Rides

namespace TransportSystem.TransportRouter

open TransportSystem.Graph
open Library.UniqueKeys
open Library.FloydWarshall
open TransportCatalogue (StoreInv names_getElem?_of_lt)

variable (rs : RoutingSettings) (db : TransportCatalogue)

/-- The time on the road along a sequence of stops, from the lengths between
neighbours. -/
def rideTime : List Str → Except Failure ℚ
  | a :: b :: rest => do
      let lenght ← db.getLenghtBetweenStops a b
      let time ← rideTime (b :: rest)
      pure ((lenght.toNat : ℚ) / (1000 * rs.busVelocity.toNat) * 60 + time)
  | _ => pure 0

/-- One bus taken from one of its positions to another. -/
structure Leg where
  bus : Bus
  p : Nat
  q : Nat
  bus_mem : bus ∈ db.allBuses
  p_lt : p < bus.stops.length
  q_lt : q < bus.stops.length
  direction : CanRide bus p q

variable {db}

def Leg.origin (leg : Leg db) : Str := (db.stop (leg.bus.stops.get ⟨leg.p, leg.p_lt⟩)).name

def Leg.target (leg : Leg db) : Str := (db.stop (leg.bus.stops.get ⟨leg.q, leg.q_lt⟩)).name

/-- Waiting for the bus and riding it. -/
def Leg.cost (leg : Leg db) : Except Failure ℚ := do
  let time ← rideTime rs db (travelled (db.stopNames leg.bus.stops) leg.p leg.q)
  pure (rs.busWaitTime.toNat + time)

/-- Legs that lead from one stop to another. -/
inductive Itinerary : Str → Str → List (Leg db) → Prop
  | nil (stop : Str) : Itinerary stop stop []
  | cons (leg : Leg db) {target : Str} {legs : List (Leg db)} :
      Itinerary leg.target target legs → Itinerary leg.origin target (leg :: legs)

def itineraryCost : List (Leg db) → Except Failure ℚ
  | [] => pure 0
  | leg :: legs => do
      let cost ← leg.cost rs
      let rest ← itineraryCost legs
      pure (cost + rest)

/-- The item for waiting at a stop. -/
def IsWait (stop : Str) (item : ComponentTrip ℚ) : Prop :=
  item = ⟨stop, rs.busWaitTime.toNat, none⟩

variable (db)

/-- An item for riding some bus from one stop to another. -/
def IsRide (origin target : Str) (item : ComponentTrip ℚ) : Prop :=
  ∃ bus ∈ db.allBuses, ∃ p q, item.name = bus.name ∧ CanRide bus p q ∧
    (db.stopNames bus.stops)[p]? = some origin ∧ (db.stopNames bus.stops)[q]? = some target ∧
    item.spanCount = some (span p q) ∧
    rideTime rs db (travelled (db.stopNames bus.stops) p q) = .ok item.weight

/-- Items that alternately wait at a stop and ride on to another, from one stop
to another. -/
inductive Travels : Str → Str → List (ComponentTrip ℚ) → Prop
  | arrived (stop : Str) : Travels stop stop []
  | ride {origin stop target : Str} {wait ride : ComponentTrip ℚ}
      {items : List (ComponentTrip ℚ)} :
      IsWait rs origin wait → IsRide rs db origin stop ride → Travels stop target items →
        Travels origin target (wait :: ride :: items)

variable {rs db}

theorem Travels.snoc {origin stop target : Str} {items : List (ComponentTrip ℚ)}
    {wait ride : ComponentTrip ℚ} (h : Travels rs db origin stop items)
    (hwait : IsWait rs stop wait) (hride : IsRide rs db stop target ride) :
    Travels rs db origin target (items ++ [wait, ride]) := by
  induction h with
  | arrived stop => exact .ride hwait hride (.arrived target)
  | ride hwait' hride' _ ih => exact .ride hwait' hride' (ih hwait hride)

/-- Items that travel are the items of an itinerary. -/
theorem Travels.itinerary {origin target : Str} {items : List (ComponentTrip ℚ)}
    (h : Travels rs db origin target items) :
    ∃ legs : List (Leg db), Itinerary origin target legs ∧
      itineraryCost rs legs = .ok (items.map ComponentTrip.weight).sum := by
  induction h with
  | arrived stop => exact ⟨[], .nil stop, rfl⟩
  | @ride origin stop target wait ride items hwait hride _ ih =>
      obtain ⟨legs, hlegs, hcost⟩ := ih
      obtain ⟨bus, hbus, p, q, -, hcan, hp, hq, -, htime⟩ := hride
      obtain ⟨hp', horigin⟩ := List.getElem?_eq_some_iff.mp hp
      obtain ⟨hq', hstop⟩ := List.getElem?_eq_some_iff.mp hq
      have hlength : (db.stopNames bus.stops).length = bus.stops.length :=
        List.length_map _
      let leg : Leg db :=
        { bus := bus, p := p, q := q, bus_mem := hbus, p_lt := hlength ▸ hp',
          q_lt := hlength ▸ hq', direction := hcan }
      have hlegOrigin : leg.origin = origin := by
        simpa [Leg.origin, TransportCatalogue.stopNames, leg] using horigin
      have hlegTarget : leg.target = stop := by
        simpa [Leg.target, TransportCatalogue.stopNames, leg] using hstop
      refine ⟨leg :: legs, hlegOrigin ▸ Itinerary.cons leg (hlegTarget ▸ hlegs), ?_⟩
      cases hwait
      simp only [itineraryCost, Leg.cost, leg, htime, hcost, bind, Except.bind, pure, Except.pure,
        List.map_cons, List.sum_cons]
      rw [add_assoc]

theorem rideTime_of_isChain {stops : List StopPtr} (hchain : stops.IsChain db.HasLenght) :
    rideTime rs db (db.stopNames stops) = .ok (timeAlong rs db stops) := by
  induction stops with
  | nil => rfl
  | cons a stops ih =>
      cases stops with
      | nil => rfl
      | cons b stops =>
          obtain ⟨⟨lenght, hlenght⟩, hchain⟩ := List.isChain_cons_cons.mp hchain
          have hrest := ih hchain
          rw [TransportCatalogue.stopNames, List.map_cons] at hrest
          simp only [TransportCatalogue.stopNames, List.map_cons, rideTime, timeAlong_cons_cons,
            travelTime, calculateTimeBetweenStations, hlenght, hrest, bind, Except.bind, pure,
            Except.pure, Nat.cast_ofNat]

theorem rideTime_travelled (hdb : StoreInv db) {bus : Bus} (hbus : bus ∈ db.allBuses)
    (hmeasured : Measured db bus) (p q : Nat) :
    rideTime rs db (travelled (db.stopNames bus.stops) p q) =
      .ok (timeAlong rs db (travelled bus.stops p q)) := by
  rw [TransportCatalogue.stopNames, map_travelled]
  unfold travelled
  split
  · exact rideTime_of_isChain ((hmeasured.drop p).take _)
  · have hlt : ∀ a ∈ (bus.stops.drop q).take (p - q + 1), a < db.allStops.length :=
      fun a ha => hdb.busStops bus hbus a (List.mem_of_mem_drop (List.mem_of_mem_take ha))
    exact rideTime_of_isChain
      ((isChain_hasLenght_reverse hdb hlt).mpr ((hmeasured.drop q).take _))

variable {tr : TransportRouter ℚ}

namespace Made

variable (h : Made rs db tr)

include h

theorem isEdge_iff {id : EdgeId} {u v : VertexId} {w : ℚ} :
    tr.graphOfStops.IsEdge id u v w ↔
      ∃ trip : Trip ℚ, (allTrips rs db)[id]? = some trip ∧ trip.edge = ⟨u, v, w⟩ := by
  have hedges : tr.graphOfStops.edges = (allTrips rs db).map Trip.edge := h.holds.edges
  rw [DirectedWeightedGraph.IsEdge, hedges, List.getElem?_map, Option.map_eq_some_iff]

theorem exists_wait {k : StopPtr} (hk : k < db.allStops.length) :
    ∃ id, tr.graphOfStops.IsEdge id (2 * k) (2 * k + 1) rs.busWaitTime.toNat := by
  have hmem : waitTrip rs db k ∈ (allTrips rs db : List (Trip ℚ)) :=
    (mem_allTrips rs db _).mpr (Or.inl ⟨k, hk, rfl⟩)
  obtain ⟨id, hid⟩ := List.mem_iff_getElem?.mp hmem
  exact ⟨id, h.isEdge_iff.mpr ⟨_, hid, rfl⟩⟩

variable (hdb : StoreInv db)

include hdb

theorem exists_ride (leg : Leg db) :
    ∃ id time, rideTime rs db (travelled (db.stopNames leg.bus.stops) leg.p leg.q) = .ok time ∧
      tr.graphOfStops.IsEdge id (2 * leg.bus.stops.get ⟨leg.p, leg.p_lt⟩ + 1)
        (2 * leg.bus.stops.get ⟨leg.q, leg.q_lt⟩) time := by
  have hmem : rideTrip leg.bus.name (leg.bus.stops.get ⟨leg.p, leg.p_lt⟩)
      (leg.bus.stops.get ⟨leg.q, leg.q_lt⟩)
      (timeAlong rs db (travelled leg.bus.stops leg.p leg.q)) (span leg.p leg.q) ∈
      (allTrips rs db : List (Trip ℚ)) := by
    refine (mem_allTrips rs db _).mpr (Or.inr ⟨leg.bus, leg.bus_mem, ?_⟩)
    exact (mem_busTrips rs db _ _).mpr ⟨leg.p, leg.q, _, _, leg.direction,
      List.getElem?_eq_getElem leg.p_lt, List.getElem?_eq_getElem leg.q_lt, rfl⟩
  obtain ⟨id, hid⟩ := List.mem_iff_getElem?.mp hmem
  exact ⟨id, _, rideTime_travelled hdb leg.bus_mem (h.measured _ leg.bus_mem) _ _,
    h.isEdge_iff.mpr ⟨_, hid, rfl⟩⟩

/-- An edge waits at a stop or rides between two stops, and its entry says so. -/
theorem edge_cases {id : EdgeId} {u v : VertexId} {w : ℚ}
    (hedge : tr.graphOfStops.IsEdge id u v w) :
    ∃ item, tr.infoAboutEdge.lookup id = some item ∧ item.weight = w ∧
      ((∃ k, k < db.allStops.length ∧ u = 2 * k ∧ v = 2 * k + 1 ∧
          IsWait rs (db.stop k).name item) ∨
        ∃ a b, b < db.allStops.length ∧ u = 2 * a + 1 ∧ v = 2 * b ∧
          IsRide rs db (db.stop a).name (db.stop b).name item) := by
  obtain ⟨trip, hid, htrip⟩ := h.isEdge_iff.mp hedge
  have hinfo : tr.infoAboutEdge.lookup id = some trip.info := by
    have := h.holds.info id
    rwa [hid] at this
  refine ⟨trip.info, hinfo, ?_⟩
  rcases (mem_allTrips rs db trip).mp (List.mem_of_getElem? hid) with
    ⟨k, hk, rfl⟩ | ⟨bus, hbus, hride⟩
  · cases htrip
    exact ⟨rfl, Or.inl ⟨k, hk, rfl, rfl, rfl⟩⟩
  · obtain ⟨p, q, a, b, hcan, ha, hb, rfl⟩ := (mem_busTrips rs db bus trip).mp hride
    cases htrip
    have hname : ∀ (i c : Nat), bus.stops[i]? = some c →
        (db.stopNames bus.stops)[i]? = some (db.stop c).name := by
      intro i c hc
      simp [TransportCatalogue.stopNames, hc]
    refine ⟨rfl, Or.inr ⟨a, b, hdb.busStops bus hbus b (List.mem_of_getElem? hb), rfl, rfl, bus,
      hbus, p, q, rfl, hcan, hname p a ha, hname q b hb, rfl, ?_⟩⟩
    exact rideTime_travelled hdb hbus (h.measured bus hbus) p q

/-- A walk from the first vertex of a stop is a chain of waits and rides, with a
last wait if it ends at the second vertex of a stop. -/
theorem walk_travels {a : StopPtr} (ha : a < db.allStops.length) {u v : VertexId}
    {es : List EdgeId} {w : ℚ} (hu : u = 2 * a) (hwalk : Walk tr.graphOfStops.IsEdge u v es w) :
    ∃ items : List (ComponentTrip ℚ),
      List.Forall₂ (fun id item => tr.infoAboutEdge.lookup id = some item) es items ∧
      (items.map ComponentTrip.weight).sum = w ∧
      ∃ b, b < db.allStops.length ∧
        ((v = 2 * b ∧ Travels rs db (db.stop a).name (db.stop b).name items) ∨
          (v = 2 * b + 1 ∧ ∃ items' wait, items = items' ++ [wait] ∧
            Travels rs db (db.stop a).name (db.stop b).name items' ∧
            IsWait rs (db.stop b).name wait)) := by
  induction hwalk with
  | nil => exact ⟨[], .nil, rfl, a, ha, Or.inl ⟨hu, .arrived _⟩⟩
  | @snoc v x es w c e _ hedge ih =>
      obtain ⟨items, hinfos, hsum, b, hb, hend⟩ := ih
      obtain ⟨item, hinfo, hweight, hkind⟩ := h.edge_cases hdb hedge
      refine ⟨items ++ [item], List.rel_append hinfos (.cons hinfo .nil),
        by simp [hsum, hweight], ?_⟩
      rcases hend with ⟨rfl, htravels⟩ | ⟨rfl, items', wait, rfl, htravels, hwait⟩
      · rcases hkind with ⟨k, -, hbk, rfl, hwait⟩ | ⟨k, -, -, hbk, -, -⟩
        · cases inVertex_injective hbk
          exact ⟨b, hb, Or.inr ⟨rfl, items, item, rfl, htravels, hwait⟩⟩
        · exact absurd hbk (inVertex_ne_outVertex b k)
      · rcases hkind with ⟨k, -, hbk, -, -⟩ | ⟨k, d, hd, hbk, rfl, hride⟩
        · exact absurd hbk.symm (inVertex_ne_outVertex k b)
        · cases outVertex_injective hbk
          refine ⟨d, hd, Or.inl ⟨rfl, ?_⟩⟩
          simpa using htravels.snoc hwait hride

/-- An itinerary is a walk of the same cost. -/
theorem walk_of_itinerary {origin target : Str} {legs : List (Leg db)}
    (hlegs : Itinerary origin target legs) {a b : StopPtr} (ha : a < db.allStops.length)
    (hb : b < db.allStops.length) (horigin : (db.stop a).name = origin)
    (htarget : (db.stop b).name = target) {u : VertexId} {es : List EdgeId} {w : ℚ}
    (hwalk : Walk tr.graphOfStops.IsEdge u (2 * a) es w) :
    ∃ cost, itineraryCost rs legs = .ok cost ∧
      ∃ es', Walk tr.graphOfStops.IsEdge u (2 * b) es' (w + cost) := by
  induction hlegs generalizing a es w with
  | nil stop =>
      cases hdb.stop_name_injective ha hb (horigin.trans htarget.symm)
      exact ⟨0, rfl, es, by rwa [add_zero]⟩
  | @cons leg target legs hrest ih =>
      have hlt : ∀ i, leg.bus.stops.get i < db.allStops.length :=
        fun i => hdb.busStops _ leg.bus_mem _ (List.get_mem _ _)
      cases hdb.stop_name_injective ha (hlt _) horigin
      obtain ⟨wait, hwait⟩ := h.exists_wait ha
      obtain ⟨ride, time, htime, hride⟩ := h.exists_ride hdb leg
      obtain ⟨cost, hcost, es', hwalk'⟩ := ih (hlt _) rfl htarget ((hwalk.snoc hwait).snoc hride)
      refine ⟨rs.busWaitTime.toNat + time + cost, ?_, es', ?_⟩
      · simp only [itineraryCost, Leg.cost, htime, hcost, bind, Except.bind, pure, Except.pure]
      · simpa only [add_assoc] using hwalk'

end Made

end TransportSystem.TransportRouter
