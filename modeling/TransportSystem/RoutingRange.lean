import TransportSystem.JsonSettings
import TransportSystem.RouteView

namespace TransportSystem.TransportRouter

open Json
open JsonReader (intAt readerRoutingSetings)
open TransportCatalogue (Call run run_inv)

/-- The integers in a document with settings of the router. -/
def Gives (document : Node Double) (busWaitTime busVelocity : Int32) : Prop :=
  ∃ dict, document = .dict dict ∧ intAt dict "bus_wait_time" = .ok busWaitTime ∧
    intAt dict "bus_velocity" = .ok busVelocity

/-- The edges of every graph are computed from these integers, the rides without a division by
zero. -/
structure UsedAsGiven (rs : RoutingSettings) (busWaitTime busVelocity : Int32) : Prop where
  busWaitTime_eq : (rs.busWaitTime.toNat : ℤ) = busWaitTime.toInt
  busVelocity_eq : (rs.busVelocity.toNat : ℤ) = busVelocity.toInt
  wait : ∀ (calls : List Call) (tr : TransportRouter Double), make rs (run calls) = .ok tr →
    ∀ id edge info, tr.graphOfStops.edges[id]? = some edge →
      tr.infoAboutEdge.lookup id = some info → info.spanCount = none →
        edge.weight = (busWaitTime.toInt : Double) ∧ info.weight = (busWaitTime.toInt : Double)
  time : ∀ (calls : List Call) (firstStop secondStop : Str) (lenght : UInt32),
    (run calls).getLenghtBetweenStops firstStop secondStop = .ok lenght →
      calculateTimeBetweenStations rs (run calls) firstStop secondStop =
        .ok ((lenght.toNat : Double) / (1000 * busVelocity.toInt) * 60)
  divisor : ∀ (calls : List Call) (tr : TransportRouter Double), make rs (run calls) = .ok tr →
    ∀ id info spanCount, tr.infoAboutEdge.lookup id = some info →
      info.spanCount = some spanCount → 1000 * (rs.busVelocity.toNat : Double) ≠ 0

/-- An `int` keeps its value as an `unsigned short` exactly if it is one. -/
theorem toNat_toUInt16_eq_iff (value : Int32) :
    (value.toUInt32.toUInt16.toNat : ℤ) = value.toInt ↔ 0 ≤ value.toInt ∧ value.toInt < 65536 := by
  have hlt : value.toBitVec.toNat < 2 ^ 32 := value.toBitVec.isLt
  have hnarrow : value.toUInt32.toUInt16.toNat = value.toBitVec.toNat % 2 ^ 16 := by
    rw [UInt32.toNat_toUInt16]
    rfl
  have hsigned : value.toInt = if 2 * value.toBitVec.toNat < 2 ^ 32 then
      (value.toBitVec.toNat : ℤ) else (value.toBitVec.toNat : ℤ) - (2 ^ 32 : ℕ) :=
    BitVec.toInt_eq_toNat_cond value.toBitVec
  rw [hnarrow, hsigned]
  split <;> omega

theorem exists_gives {document : Node Double} {rs : RoutingSettings}
    (hread : readerRoutingSetings document = .ok rs) : ∃ busWaitTime busVelocity,
      Gives document busWaitTime busVelocity ∧
        rs = ⟨busWaitTime.toUInt32.toUInt16, busVelocity.toUInt32.toUInt16⟩ := by
  obtain ⟨dict, hdict, hread⟩ := bind_eq_ok_iff.mp hread
  have hdocument : document = .dict dict := by
    cases document <;> cases hdict
    rfl
  dsimp only at hread
  split at hread
  · cases hread
  · split at hread
    · cases hread
    · obtain ⟨busWaitTime, hwait, hread⟩ := bind_eq_ok_iff.mp hread
      obtain ⟨busVelocity, hvelocity, hread⟩ := bind_eq_ok_iff.mp hread
      cases hread
      exact ⟨busWaitTime, busVelocity, ⟨dict, hdocument, hwait, hvelocity⟩, rfl⟩

theorem Gives.unique {document : Node Double}
    {busWaitTime busWaitTime' busVelocity busVelocity' : Int32}
    (h : Gives document busWaitTime busVelocity) (h' : Gives document busWaitTime' busVelocity') :
    busWaitTime = busWaitTime' ∧ busVelocity = busVelocity' := by
  obtain ⟨dict, rfl, hwait, hvelocity⟩ := h
  obtain ⟨dict, heq, hwait', hvelocity'⟩ := h'
  cases heq
  cases hwait.symm.trans hwait'
  cases hvelocity.symm.trans hvelocity'
  exact ⟨rfl, rfl⟩

section Edges

variable {rs : RoutingSettings} {calls : List Call} {tr : TransportRouter Double}

/-- The edges of a graph and what is known about them are those of its trips. -/
theorem exists_trip_of_lookup (hmake : make rs (run calls) = .ok tr) {id : Graph.EdgeId}
    {info : ComponentTrip Double} (hinfo : tr.infoAboutEdge.lookup id = some info) :
    ∃ trip ∈ (allTrips rs (run calls) : List (Trip Double)), trip.info = info ∧
      tr.graphOfStops.edges[id]? = some trip.edge := by
  have hholds := (make_made (run_inv calls).toStoreInv hmake).holds
  have hlookup : tr.infoAboutEdge.lookup id = _ := hholds.info id
  have hedges : tr.graphOfStops.edges = _ := hholds.edges
  rw [hlookup] at hinfo
  obtain ⟨trip, htrip, rfl⟩ := Option.map_eq_some_iff.mp hinfo
  refine ⟨trip, List.mem_of_getElem? htrip, rfl, ?_⟩
  rw [hedges, List.getElem?_map, htrip, Option.map_some]

theorem weight_of_wait {trip : Trip Double} (htrip : trip ∈ allTrips rs (run calls))
    (hspan : trip.info.spanCount = none) :
    trip.edge.weight = rs.busWaitTime.toNat ∧ trip.info.weight = rs.busWaitTime.toNat := by
  rcases (mem_allTrips rs (run calls) trip).mp htrip with ⟨k, -, rfl⟩ | ⟨bus, -, hride⟩
  · exact ⟨rfl, rfl⟩
  · obtain ⟨p, q, first, next, -, -, -, rfl⟩ := (mem_busTrips rs (run calls) bus trip).mp hride
    cases hspan

/-- Whatever the settings, there is a graph with a ride. -/
theorem exists_ride (rs : RoutingSettings) :
    ∃ tr : TransportRouter Double, make rs (run lineCalls) = .ok tr ∧
      ∃ id info spanCount, tr.infoAboutEdge.lookup id = some info ∧
        info.spanCount = some spanCount := by
  have hdb := (run_inv lineCalls).toStoreInv
  obtain ⟨tr₀, hmake₀⟩ := exists_make_line
  obtain ⟨tr, hmake⟩ : ∃ tr : TransportRouter Double, make rs (run lineCalls) = .ok tr :=
    (exists_make_iff hdb).mpr (make_made hdb hmake₀).measured
  have hride : rideTrip ['1'] 0 1 (timeAlong rs (run lineCalls) [0, 1]) 1 ∈
      (allTrips rs (run lineCalls) : List (Trip Double)) := by
    refine (mem_allTrips rs (run lineCalls) _).mpr (.inr ⟨⟨['1'], [0, 1], false⟩, by decide, ?_⟩)
    exact (mem_busTrips rs (run lineCalls) _ _).mpr
      ⟨0, 1, 0, 1, .inl Nat.zero_lt_one, rfl, rfl, rfl⟩
  obtain ⟨id, hid⟩ := List.mem_iff_getElem?.mp hride
  have hholds := (make_made hdb hmake).holds
  have hinfo : tr.infoAboutEdge.lookup id = _ := hholds.info id
  rw [hid] at hinfo
  exact ⟨tr, hmake, id, _, _, hinfo, rfl⟩

end Edges

/-- Settings that an `unsigned short` can hold are used as they are. -/
theorem usedAsGiven {rs : RoutingSettings} {busWaitTime busVelocity : Int32}
    (hwait : (rs.busWaitTime.toNat : ℤ) = busWaitTime.toInt)
    (hvelocity : (rs.busVelocity.toNat : ℤ) = busVelocity.toInt) (hpos : 0 < busVelocity.toInt) :
    UsedAsGiven rs busWaitTime busVelocity where
  busWaitTime_eq := hwait
  busVelocity_eq := hvelocity
  wait calls tr hmake id edge info hedge hinfo hspan := by
    obtain ⟨trip, htrip, rfl, hedge'⟩ := exists_trip_of_lookup hmake hinfo
    cases hedge.symm.trans hedge'
    rw [← hwait, Int.cast_natCast]
    exact weight_of_wait htrip hspan
  time calls firstStop secondStop lenght hlenght := by
    rw [← hvelocity, Int.cast_natCast, calculateTimeBetweenStations, hlenght]
    rfl
  divisor calls tr hmake id info spanCount hinfo hspan := by
    rw [← hvelocity, Int.natCast_pos] at hpos
    have hne : (rs.busVelocity.toNat : Double) ≠ 0 := Nat.cast_ne_zero.mpr hpos.ne'
    exact mul_ne_zero (by norm_num) hne

/-- The settings of the router are used as they are given exactly if both are an `unsigned
short` and the velocity is not zero. -/
theorem usesGiven_iff (document : Node Double) (rs : RoutingSettings)
    (hread : readerRoutingSetings document = .ok rs) :
    (∃ busWaitTime busVelocity, Gives document busWaitTime busVelocity ∧
        UsedAsGiven rs busWaitTime busVelocity) ↔
      ∃ busWaitTime busVelocity, Gives document busWaitTime busVelocity ∧
        0 ≤ busWaitTime.toInt ∧ busWaitTime.toInt < 65536 ∧
          0 < busVelocity.toInt ∧ busVelocity.toInt < 65536 := by
  obtain ⟨busWaitTime, busVelocity, hgives, rfl⟩ := exists_gives hread
  constructor
  · rintro ⟨busWaitTime', busVelocity', hgives', hused⟩
    obtain ⟨rfl, rfl⟩ := hgives.unique hgives'
    obtain ⟨hwaitPos, hwaitLt⟩ := (toNat_toUInt16_eq_iff busWaitTime).mp hused.busWaitTime_eq
    obtain ⟨hvelocityPos, hvelocityLt⟩ :=
      (toNat_toUInt16_eq_iff busVelocity).mp hused.busVelocity_eq
    refine ⟨busWaitTime, busVelocity, hgives, hwaitPos, hwaitLt, ?_, hvelocityLt⟩
    refine lt_of_le_of_ne hvelocityPos fun hzero => ?_
    obtain ⟨tr, hmake, id, info, spanCount, hinfo, hspan⟩ := exists_ride
      ⟨busWaitTime.toUInt32.toUInt16, busVelocity.toUInt32.toUInt16⟩
    refine hused.divisor lineCalls tr hmake id info spanCount hinfo hspan ?_
    have hvelocity := hused.busVelocity_eq
    rw [← hzero, Int.natCast_eq_zero] at hvelocity
    rw [hvelocity, Nat.cast_zero, mul_zero]
  · rintro ⟨busWaitTime', busVelocity', hgives', hwaitPos, hwaitLt, hvelocityPos, hvelocityLt⟩
    obtain ⟨rfl, rfl⟩ := hgives.unique hgives'
    exact ⟨busWaitTime, busVelocity, hgives, usedAsGiven
      ((toNat_toUInt16_eq_iff busWaitTime).mpr ⟨hwaitPos, hwaitLt⟩)
      ((toNat_toUInt16_eq_iff busVelocity).mpr ⟨hvelocityPos.le, hvelocityLt⟩) hvelocityPos⟩

theorem usesGiven_forty : ∃ busWaitTime busVelocity,
    Gives (.dict [("bus_velocity".toList, .int 40), ("bus_wait_time".toList, .int 6)])
        busWaitTime busVelocity ∧
      UsedAsGiven ⟨6, 40⟩ busWaitTime busVelocity :=
  (usesGiven_iff _ ⟨6, 40⟩ rfl).mpr
    ⟨6, 40, ⟨_, rfl, rfl, rfl⟩, by decide, by decide, by decide, by decide⟩

/-- A velocity of which an `unsigned short` keeps nothing. -/
def wrappedVelocity : Node Double :=
  .dict [("bus_velocity".toList, .int 65536), ("bus_wait_time".toList, .int 6)]

theorem not_usesGiven_wrapped : ¬ ∀ rs, readerRoutingSetings wrappedVelocity = .ok rs →
    ∃ busWaitTime busVelocity, Gives wrappedVelocity busWaitTime busVelocity ∧
      UsedAsGiven rs busWaitTime busVelocity := by
  intro hall
  obtain ⟨busWaitTime, busVelocity, -, hused⟩ := hall ⟨6, 0⟩ rfl
  obtain ⟨tr, hmake, id, info, spanCount, hinfo, hspan⟩ := exists_ride ⟨6, 0⟩
  exact hused.divisor lineCalls tr hmake id info spanCount hinfo hspan (mul_zero 1000)

end TransportSystem.TransportRouter
