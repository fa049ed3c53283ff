import Mathlib.Data.Finset.Card
import Mathlib.Data.Finset.Image
import TransportSystem.CatalogueView

namespace TransportSystem.TransportCatalogue

open Library.UniqueKeys
open Library.Lists

namespace View

def getLenghtBetweenStops (v : View) (firstStop secondStop : Str) : Except Failure UInt32 :=
  if v.coordinates firstStop = none ∨ v.coordinates secondStop = none then throw .outOfRange
  else
    match (v.lenght firstStop secondStop).or (v.lenght secondStop firstStop) with
    | some lenght => pure lenght
    | none =>
        if firstStop = secondStop then pure 0
        else throw (.logicError "Not found Lenght between this stops")

/-- The distance that `SummationLenght` adds on the way from `rhs` to `lhs`. -/
def roadLenght (v : View) (lhs rhs : Str) : Except Failure UInt32 :=
  match (v.lenght rhs lhs).or (v.lenght lhs rhs) with
  | some lenght => .ok lenght
  | none => .error .outOfRange

def summationLenght (v : View) (stops : List Str) (isLoop : Bool) : Except Failure Double := do
  let rstops ← if isLoop then pure [] else popBack stops
  let sum ← transformReduce plusLenght v.roadLenght 0 (stops ++ rstops.reverse)
  pure sum.toInt

def lineDistance (m : Libm) (v : View) (lhs rhs : Str) : Except Failure Double :=
  pure (computeDistance m ((v.coordinates lhs).getD ⟨0, 0⟩) ((v.coordinates rhs).getD ⟨0, 0⟩))

def summationLineLenght (m : Libm) (v : View) (stops : List Str) (isLoop : Bool) :
    Except Failure Double := do
  let sum ← transformReduce (· + ·) (lineDistance m v) 0 stops
  pure (if isLoop then sum else 2 * sum)

def getInfoBus (m : Libm) (v : View) (busName : Str) : Except Failure BusInfo :=
  match v.bus busName with
  | none => pure ⟨false, 0, 0, 0, 0⟩
  | some (stops, isLoop) => do
      let routeLength ← v.summationLenght stops isLoop
      let lineLength ← v.summationLineLenght m stops isLoop
      let quantityStop : Int := if isLoop then stops.length else stops.length * 2 - 1
      pure ⟨true, routeLength / lineLength, routeLength, quantityStop, stops.dedup.length⟩

end View

theorem transformReduce_cons_cons {P A B : Type} (plus : B → A → B)
    (op : P → P → Except Failure A) (init : B) (first next : P) (rest : List P) :
    transformReduce plus op init (first :: next :: rest) = (do
      let value ← op next first
      transformReduce plus op (plus init value) (next :: rest)) := by
  simp only [transformReduce, List.zip_cons_cons, List.foldlM_cons, bind_assoc, pure_bind]

/-- The sum only depends on what the operation makes of neighbours. -/
theorem transformReduce_map {P Q A B : Type} (plus : B → A → B) {op : P → P → Except Failure A}
    {op' : Q → Q → Except Failure A} (f : P → Q) (init : B) (l : List P)
    (hop : ∀ p ∈ l, ∀ q ∈ l, op p q = op' (f p) (f q)) :
    transformReduce plus op init l = transformReduce plus op' init (l.map f) := by
  induction l generalizing init with
  | nil => rfl
  | cons first l ih =>
      cases l with
      | nil => rfl
      | cons next rest =>
          rw [List.map_cons, List.map_cons, transformReduce_cons_cons,
            transformReduce_cons_cons, hop next (by simp) first (by simp)]
          refine congrArg _ (funext fun value => ?_)
          exact ih _ fun p hp q hq => hop p (by simp [hp]) q (by simp [hq])

variable {db db' : TransportCatalogue}

theorem view_lenght_names (h : StoreInv db) {p q : StopPtr} (hp : p < db.allStops.length)
    (hq : q < db.allStops.length) :
    (view db).lenght (db.stop p).name (db.stop q).name =
      db.lengthBetweenStops.lookup (p, q) := by
  simp [view, h.lookup_stop_name hp, h.lookup_stop_name hq]

theorem view_coordinates_names (h : StoreInv db) {p : StopPtr} (hp : p < db.allStops.length) :
    (view db).coordinates (db.stop p).name = some (db.stop p).coordinates := by
  simp [view, h.lookup_stop_name hp]

theorem getLenghtBetweenStops_eq_view (a b : Str) :
    db.getLenghtBetweenStops a b = (view db).getLenghtBetweenStops a b := by
  unfold getLenghtBetweenStops View.getLenghtBetweenStops mapAt
  rcases Option.eq_none_or_eq_some (db.stops.lookup a) with ha | ⟨p, ha⟩
  · simp [view, ha, bind, Except.bind, throw, throwThe, MonadExceptOf.throw]
  · rcases Option.eq_none_or_eq_some (db.stops.lookup b) with hb | ⟨q, hb⟩
    · simp [view, ha, hb, bind, Except.bind, throw, throwThe, MonadExceptOf.throw]
    · rcases Option.eq_none_or_eq_some (db.lengthBetweenStops.lookup (p, q)) with hpq | ⟨l, hpq⟩ <;>
        rcases Option.eq_none_or_eq_some (db.lengthBetweenStops.lookup (q, p)) with
          hqp | ⟨l', hqp⟩ <;>
        simp [view, ha, hb, hpq, hqp, bind, Except.bind]

theorem getInfoStop_congr (h : Inv db) (h' : Inv db') (hview : view db = view db') (name : Str) :
    db.getInfoStop name = db'.getInfoStop name := by
  have hnames : name ∈ db.names ↔ name ∈ db'.names := by
    rw [mem_names_iff_coordinates h.toStoreInv, mem_names_iff_coordinates h'.toStoreInv, hview]
  by_cases hname : name ∈ db.names
  · have hname' := hnames.mp hname
    have hbuses : (db.getInfoStop name).buses = (db'.getInfoStop name).buses := by
      rw [getInfoStop_buses h.toStoreInv hname, getInfoStop_buses h'.toStoreInv hname']
      refine insertionSort_eq_of_mem_iff (h.nodup name) (h'.nodup name) fun n => ?_
      exact Set.ext_iff.mp (congrFun (congrArg View.buses hview) name) n
    have hexists : ∀ {c : TransportCatalogue}, StoreInv c → name ∈ c.names →
        (c.getInfoStop name).exists_ = true := by
      intro c hc hmem
      have : name ∈ c.stops := (hc.mem_stops_iff name).mpr hmem
      unfold getInfoStop
      cases c.busesInStop.lookup name <;> simp [stopAvailability, this]
    rcases hi : db.getInfoStop name with ⟨e, bs⟩
    rcases hi' : db'.getInfoStop name with ⟨e', bs'⟩
    have he := hexists h.toStoreInv hname
    have he' := hexists h'.toStoreInv hname'
    rw [hi, hi'] at hbuses
    rw [hi] at he
    rw [hi'] at he'
    simp only at he he' hbuses
    rw [he, he', hbuses]
  · have hmem : name ∉ db.stops := mt (h.mem_stops_iff name).mp hname
    have hmem' : name ∉ db'.stops := mt (h'.mem_stops_iff name).mp (mt hnames.mpr hname)
    simp [getInfoStop, stopAvailability, hmem, hmem']

section Bus

variable (h : StoreInv db) {bus : Bus} (hbus : bus ∈ db.allBuses)

include h hbus

theorem lenghtThereAndBack_eq_view {p q : StopPtr} (hp : p ∈ bus.stops) (hq : q ∈ bus.stops) :
    db.lenghtThereAndBack p q = (view db).roadLenght (db.stop p).name (db.stop q).name := by
  have hp' := h.busStops bus hbus p hp
  have hq' := h.busStops bus hbus q hq
  unfold View.roadLenght
  rw [view_lenght_names h hp' hq', view_lenght_names h hq' hp']
  by_cases hqp : (q, p) ∈ db.lengthBetweenStops
  · obtain ⟨l, hl⟩ := UnorderedMap.mem_iff_lookup.mp hqp
    simp [lenghtThereAndBack, hqp, mapAt_of_lookup hl, hl]
  · have hqp' := UnorderedMap.lookup_eq_none.mpr hqp
    by_cases hpq : (p, q) ∈ db.lengthBetweenStops
    · obtain ⟨l, hl⟩ := UnorderedMap.mem_iff_lookup.mp hpq
      simp [lenghtThereAndBack, hqp, hpq, mapAt_of_lookup hl, hl, hqp']
    · have hpq' := UnorderedMap.lookup_eq_none.mpr hpq
      simp [lenghtThereAndBack, hqp, hpq, mapAt, hpq', hqp']

theorem summationLenght_eq_view :
    db.summationLenght bus =
      (view db).summationLenght (db.stopNames bus.stops) bus.isLoopTrip := by
  have hop : ∀ p ∈ bus.stops, ∀ q ∈ bus.stops,
      db.lenghtInLoopTrip p q = (view db).roadLenght (db.stop p).name (db.stop q).name := by
    intro p hp q hq
    rw [← lenghtThereAndBack_eq_view h hbus hp hq]
    simp only [lenghtInLoopTrip, lenghtThereAndBack, ite_self]
  unfold summationLenght View.summationLenght
  cases bus.isLoopTrip with
  | true =>
      rw [if_pos rfl, if_pos rfl,
        transformReduce_map plusLenght (fun p => (db.stop p).name) 0 _ hop]
      simp [stopNames]
  | false =>
      by_cases hempty : bus.stops = []
      · simp [popBack, hempty, stopNames]
        rfl
      · have hmem : ∀ p ∈ bus.stops ++ bus.stops.dropLast.reverse, p ∈ bus.stops := by
          intro p hp
          rcases List.mem_append.mp hp with hp | hp
          · exact hp
          · exact List.dropLast_subset _ (List.mem_reverse.mp hp)
        have hsum := transformReduce_map plusLenght (fun p => (db.stop p).name) 0 _
          fun p hp q hq => lenghtThereAndBack_eq_view h hbus (hmem p hp) (hmem q hq)
        simp [popBack, hempty, stopNames, hsum, List.map_dropLast]

theorem summationLineLenght_eq_view (m : Libm) :
    db.summationLineLenght m bus =
      (view db).summationLineLenght m (db.stopNames bus.stops) bus.isLoopTrip := by
  have hop : ∀ p ∈ bus.stops, ∀ q ∈ bus.stops,
      (pure (computeDistance m (db.stop p).coordinates (db.stop q).coordinates) :
        Except Failure Double) =
        View.lineDistance m (view db) (db.stop p).name (db.stop q).name := by
    intro p hp q hq
    rw [View.lineDistance, view_coordinates_names h (h.busStops bus hbus p hp),
      view_coordinates_names h (h.busStops bus hbus q hq)]
    rfl
  have hsum := transformReduce_map (· + ·) (fun p => (db.stop p).name) (0 : Double) _ hop
  unfold summationLineLenght View.summationLineLenght
  rw [stopNames, ← hsum]
  cases bus.isLoopTrip <;> simp

theorem length_dedup_stopNames :
    (db.stopNames bus.stops).dedup.length = bus.stops.dedup.length := by
  have himage : (db.stopNames bus.stops).toFinset =
      bus.stops.toFinset.image fun p => (db.stop p).name := by
    ext n
    simp [stopNames]
  rw [← List.card_toFinset, ← List.card_toFinset, himage]
  apply Finset.card_image_of_injOn
  intro p hp q hq hname
  exact h.stop_name_injective (h.busStops bus hbus p (by simpa using hp))
    (h.busStops bus hbus q (by simpa using hq)) hname

end Bus

theorem getInfoBus_of_findBus (m : Libm) {name : Str} {bus : Bus}
    (hfind : db.findBus name = .ok bus) :
    db.getInfoBus m name = (do
      let routeLength ← db.summationLenght bus
      let line ← db.summationLineLenght m bus
      pure ⟨true, routeLength / line, routeLength,
        if bus.isLoopTrip then (bus.stops.length : ℤ) else bus.stops.length * 2 - 1,
        bus.stops.dedup.length⟩) := by
  obtain ⟨p, hp, -⟩ := findBus_eq_ok_iff.mp hfind
  have havailable : db.busAvailability name = true :=
    decide_eq_true (UnorderedMap.mem_iff_lookup.mpr ⟨p, hp⟩)
  simp only [getInfoBus, havailable, not_true_eq_false, if_false, hfind, ok_bind]

theorem getInfoBus_of_unknown (m : Libm) {name : Str} (hname : name ∉ db.buses) :
    db.getInfoBus m name = .ok ⟨false, 0, 0, 0, 0⟩ := by
  have havailable : db.busAvailability name = false := decide_eq_false hname
  rw [getInfoBus, havailable]
  rfl

theorem getInfoBus_eq_view (h : StoreInv db) (m : Libm) (name : Str) :
    db.getInfoBus m name = (view db).getInfoBus m name := by
  unfold View.getInfoBus
  by_cases hmem : name ∈ db.buses
  · obtain ⟨p, hp⟩ := UnorderedMap.mem_iff_lookup.mp hmem
    have hbus := (h.bus_mem hp).1
    have hview : (view db).bus name =
        some (db.stopNames (db.bus p).stops, (db.bus p).isLoopTrip) := by
      simp [view, hp]
    rw [hview]
    have hlength : (db.stopNames (db.bus p).stops).length = (db.bus p).stops.length :=
      List.length_map _
    rw [getInfoBus_of_findBus m (findBus_eq_ok_iff.mpr ⟨p, hp, rfl⟩)]
    simp only [summationLenght_eq_view h hbus, summationLineLenght_eq_view h hbus m,
      length_dedup_stopNames h hbus, hlength]
  · have hview : (view db).bus name = none := by
      simp [view, UnorderedMap.lookup_eq_none.mpr hmem]
    rw [hview, getInfoBus_of_unknown m hmem]
    rfl

end TransportSystem.TransportCatalogue
