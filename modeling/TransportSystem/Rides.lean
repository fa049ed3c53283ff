import Mathlib.Algebra.BigOperators.Group.List.Basic
import TransportSystem.RouteGraph

namespace TransportSystem.TransportRouter

open TransportSystem.Graph
open Library.Lists

/-- The part of a list met on the way from position `p` to position `q`. -/
def travelled {A : Type} (stops : List A) (p q : Nat) : List A :=
  if p ≤ q then (stops.drop p).take (q - p + 1)
  else ((stops.drop q).take (p - q + 1)).reverse

theorem map_travelled {A B : Type} (f : A → B) (stops : List A) (p q : Nat) :
    travelled (stops.map f) p q = (travelled stops p q).map f := by
  unfold travelled
  split <;> simp

/-- The bus goes from position `p` to position `q`. -/
def CanRide (bus : Bus) (p q : Nat) : Prop :=
  p < q ∨ (bus.isLoopTrip = false ∧ q < p)

/-- The number of stops passed between two positions. -/
def span (p q : Nat) : Nat := ((q : ℤ) - p).natAbs

section Times

variable {W : Type} [AddMonoid W] [NatCast W] [Mul W] [Div W]
  (rs : RoutingSettings) (db : TransportCatalogue)

/-- The edge for a ride with its entry. -/
def rideTrip (busName : Str) (first next : StopPtr) (time : W) (stopsCount : Nat) : Trip W :=
  ⟨⟨2 * first + 1, 2 * next, time⟩, ⟨busName, time, some stopsCount⟩⟩

/-- The time on the road along a sequence of stops. -/
def timeAlong : List StopPtr → W
  | a :: b :: rest => travelTime rs db a b + timeAlong (b :: rest)
  | _ => 0

@[simp] theorem timeAlong_singleton (a : StopPtr) : (timeAlong rs db [a] : W) = 0 := rfl

@[simp] theorem timeAlong_cons_cons (a b : StopPtr) (rest : List StopPtr) :
    (timeAlong rs db (a :: b :: rest) : W) =
      travelTime rs db a b + timeAlong rs db (b :: rest) := rfl

theorem mem_ridesFrom (busName : Str) (first prev : StopPtr) (timeToRoad : W)
    (stopsCount : Nat) (rest : List StopPtr) (trip : Trip W) :
    trip ∈ ridesFrom rs db busName first prev timeToRoad stopsCount rest ↔
      ∃ j next, rest[j]? = some next ∧
        trip = rideTrip busName first next
          (timeToRoad + timeAlong rs db (prev :: rest.take (j + 1))) (stopsCount + j + 1) := by
  induction rest generalizing prev timeToRoad stopsCount with
  | nil => simp [ridesFrom]
  | cons a rest ih =>
      simp only [ridesFrom, List.mem_cons, ih]
      constructor
      · rintro (rfl | ⟨j, next, hnext, rfl⟩)
        · exact ⟨0, a, rfl, by simp [rideTrip]⟩
        · refine ⟨j + 1, next, hnext, ?_⟩
          rw [List.take_succ_cons, timeAlong_cons_cons, ← add_assoc]
          congr 1
          omega
      · rintro ⟨j, next, hnext, rfl⟩
        cases j with
        | zero =>
            cases hnext
            exact Or.inl (by simp [rideTrip])
        | succ j =>
            refine Or.inr ⟨j, next, hnext, ?_⟩
            rw [List.take_succ_cons, timeAlong_cons_cons, ← add_assoc]
            congr 1
            omega

theorem mem_ridesAlong (busName : Str) (stops : List StopPtr) (trip : Trip W) :
    trip ∈ ridesAlong rs db busName stops ↔
      ∃ i j first next, i < j ∧ stops[i]? = some first ∧ stops[j]? = some next ∧
        trip = rideTrip busName first next
          (timeAlong rs db ((stops.drop i).take (j - i + 1))) (j - i) := by
  induction stops with
  | nil => simp [ridesAlong]
  | cons a stops ih =>
      simp only [ridesAlong, List.mem_append, mem_ridesFrom, ih]
      constructor
      · rintro (⟨j, next, hnext, rfl⟩ | ⟨i, j, first, next, hij, hfirst, hnext, rfl⟩)
        · exact ⟨0, j + 1, a, next, by omega, rfl, hnext, by simp⟩
        · refine ⟨i + 1, j + 1, first, next, by omega, hfirst, hnext, ?_⟩
          rw [List.drop_succ_cons, Nat.add_sub_add_right]
      · rintro ⟨i, j, first, next, hij, hfirst, hnext, rfl⟩
        obtain ⟨j, rfl⟩ : ∃ k, j = k + 1 := ⟨j - 1, by omega⟩
        cases i with
        | zero =>
            cases hfirst
            exact Or.inl ⟨j, next, hnext, by simp⟩
        | succ i =>
            refine Or.inr ⟨i, j, first, next, by omega, hfirst, hnext, ?_⟩
            rw [List.drop_succ_cons, Nat.add_sub_add_right]

/-- The rides made for a bus are those between the positions it serves in this
order. -/
theorem mem_busTrips (bus : Bus) (trip : Trip W) :
    trip ∈ busTrips rs db bus ↔
      ∃ p q first next, CanRide bus p q ∧ bus.stops[p]? = some first ∧
        bus.stops[q]? = some next ∧
        trip = rideTrip bus.name first next (timeAlong rs db (travelled bus.stops p q))
          (span p q) := by
  have hforward : ∀ {p q : Nat}, p < q →
      travelled bus.stops p q = (bus.stops.drop p).take (q - p + 1) ∧ span p q = q - p := by
    intro p q hpq
    exact ⟨if_pos hpq.le, by unfold span; omega⟩
  have hbackward : ∀ {p q : Nat}, q < p →
      travelled bus.stops p q = ((bus.stops.drop q).take (p - q + 1)).reverse ∧
        span p q = p - q := by
    intro p q hqp
    exact ⟨if_neg hqp.not_ge, by unfold span; omega⟩
  rw [busTrips, List.mem_append, mem_ridesAlong]
  constructor
  · rintro (⟨p, q, first, next, hpq, hfirst, hnext, rfl⟩ | hreverse)
    · obtain ⟨htravelled, hspan⟩ := hforward hpq
      exact ⟨p, q, first, next, Or.inl hpq, hfirst, hnext, by rw [htravelled, hspan]⟩
    · cases hloop : bus.isLoopTrip with
      | true => simp [hloop] at hreverse
      | false =>
          simp only [hloop, Bool.false_eq_true, if_false, mem_ridesAlong] at hreverse
          obtain ⟨i, j, first, next, hij, hfirst, hnext, rfl⟩ := hreverse
          have hj : j < bus.stops.length := by
            simpa using (List.getElem?_eq_some_iff.mp hnext).1
          rw [List.getElem?_reverse (by omega)] at hfirst
          rw [List.getElem?_reverse hj] at hnext
          -- positions counted from the end
          have hlt : bus.stops.length - 1 - j < bus.stops.length - 1 - i := by omega
          obtain ⟨htravelled, hspan⟩ := hbackward hlt
          refine ⟨_, _, first, next, Or.inr ⟨hloop, hlt⟩, hfirst, hnext, ?_⟩
          have hcount : bus.stops.length - 1 - i - (bus.stops.length - 1 - j) = j - i := by omega
          rw [htravelled, hspan, hcount, take_drop_reverse bus.stops hij.le hj]
  · rintro ⟨p, q, first, next, hpq | ⟨hloop, hqp⟩, hfirst, hnext, rfl⟩
    · obtain ⟨htravelled, hspan⟩ := hforward hpq
      exact Or.inl ⟨p, q, first, next, hpq, hfirst, hnext, by rw [htravelled, hspan]⟩
    · obtain ⟨htravelled, hspan⟩ := hbackward hqp
      have hp := (List.getElem?_eq_some_iff.mp hfirst).1
      simp only [hloop, Bool.false_eq_true, if_false, mem_ridesAlong]
      refine Or.inr ⟨bus.stops.length - 1 - p, bus.stops.length - 1 - q, first, next, by omega,
        ?_, ?_, ?_⟩
      · rw [List.getElem?_reverse (by omega), ← hfirst]
        congr 1
        omega
      · rw [List.getElem?_reverse (by omega), ← hnext]
        congr 1
        omega
      · have hcount : bus.stops.length - 1 - q - (bus.stops.length - 1 - p) = p - q := by omega
        have hq : bus.stops.length - 1 - (bus.stops.length - 1 - q) = q := by omega
        rw [take_drop_reverse bus.stops (by omega) (by omega), htravelled, hspan, hcount, hq]

theorem mem_allTrips (trip : Trip W) :
    trip ∈ allTrips rs db ↔
      (∃ k, k < db.allStops.length ∧ trip = waitTrip rs db k) ∨
        ∃ bus ∈ db.allBuses, trip ∈ busTrips rs db bus := by
  simp only [allTrips, List.mem_append, List.mem_map, List.mem_range, List.mem_flatMap, eq_comm]

end Times

end TransportSystem.TransportRouter
