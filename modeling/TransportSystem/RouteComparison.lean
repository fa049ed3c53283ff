import Mathlib.Tactic.Linarith
import TransportSystem.RouteView

namespace TransportSystem.TransportRouter

open Library.UniqueKeys
open TransportCatalogue (StoreInv Call run run_inv View view getLenghtBetweenStops_eq_view
  mem_names_iff_coordinates)

/-- The time that the answer for two stops has, `none` if there is no route. -/
def routeTime (tr : TransportRouter ℚ) (origin target : Str) : Except Failure (Option ℚ) :=
  (tr.getRouteInfo origin target).map (Option.map RouteInfo.totalTime)

variable {rs rs' : RoutingSettings} {db db' : TransportCatalogue} {tr tr' : TransportRouter ℚ}
  {origin stop target : Str}

theorem Itinerary.append {legs legs' : List (Leg db)} (h : Itinerary origin stop legs)
    (h' : Itinerary stop target legs') : Itinerary origin target (legs ++ legs') := by
  induction h with
  | nil stop => exact h'
  | cons leg _ ih => exact .cons leg (ih h')

theorem itineraryCost_append {legs legs' : List (Leg db)} {cost cost' : ℚ}
    (h : itineraryCost rs legs = .ok cost) (h' : itineraryCost rs legs' = .ok cost') :
    itineraryCost rs (legs ++ legs') = .ok (cost + cost') := by
  induction legs generalizing cost with
  | nil =>
      cases h
      rwa [List.nil_append, zero_add]
  | cons leg legs ih =>
      obtain ⟨first, hfirst, h⟩ := bind_eq_ok_iff.mp h
      obtain ⟨rest, hrest, h⟩ := bind_eq_ok_iff.mp h
      cases h
      rw [List.cons_append, itineraryCost, hfirst, ok_bind, ih hrest, ok_bind, add_assoc]
      rfl

/-- Legs that can be replaced by legs between the same stops that cost no more. -/
theorem Itinerary.exists_cheaper
    (hleg : ∀ leg : Leg db, ∀ cost, leg.cost rs = .ok cost →
      ∃ leg' : Leg db', leg'.origin = leg.origin ∧ leg'.target = leg.target ∧
        ∃ cost' ≤ cost, leg'.cost rs' = .ok cost')
    {legs : List (Leg db)} (h : Itinerary origin target legs) {cost : ℚ}
    (hcost : itineraryCost rs legs = .ok cost) :
    ∃ legs' : List (Leg db'), Itinerary origin target legs' ∧
      ∃ cost' ≤ cost, itineraryCost rs' legs' = .ok cost' := by
  induction h generalizing cost with
  | nil stop => exact ⟨[], .nil stop, 0, (Except.ok.inj hcost).le, rfl⟩
  | @cons leg target legs _ ih =>
      obtain ⟨first, hfirst, hcost⟩ := bind_eq_ok_iff.mp hcost
      obtain ⟨rest, hrest, hcost⟩ := bind_eq_ok_iff.mp hcost
      cases hcost
      obtain ⟨leg', horigin, htarget, first', hle, hfirst'⟩ := hleg leg first hfirst
      obtain ⟨legs', hlegs', rest', hle', hrest'⟩ := ih hrest
      refine ⟨leg' :: legs', ?_, first' + rest', add_le_add hle hle', ?_⟩
      · rw [← horigin]
        exact .cons leg' (htarget ▸ hlegs')
      · rw [itineraryCost, hfirst', ok_bind, hrest']
        rfl

theorem Itinerary.target_mem (hdb : StoreInv db) {legs : List (Leg db)}
    (h : Itinerary origin target legs) (horigin : origin ∈ db.names) : target ∈ db.names := by
  induction h with
  | nil stop => exact horigin
  | cons leg _ ih =>
      apply ih
      have hlt := hdb.busStops _ leg.bus_mem _ (List.get_mem leg.bus.stops ⟨leg.q, leg.q_lt⟩)
      exact List.mem_of_getElem? (TransportCatalogue.names_getElem?_of_lt hlt)

namespace Made

variable (h : Made rs db tr) (hdb : StoreInv db)

include h

theorem mem_of_routeTime {result : Option ℚ} (htime : tr.routeTime origin target = .ok result) :
    origin ∈ db.names ∧ target ∈ db.names := by
  have horigin : origin ∈ db.names := by
    by_contra hnot
    rw [routeTime, h.getRouteInfo_of_origin_not_mem hnot] at htime
    cases htime
  refine ⟨horigin, ?_⟩
  by_contra hnot
  rw [routeTime, h.getRouteInfo_of_target_not_mem horigin hnot] at htime
  cases htime

include hdb

/-- The time of an answer is the least cost of an itinerary. -/
theorem isLeast_of_routeTime {time : ℚ} (htime : tr.routeTime origin target = .ok (some time)) :
    IsLeast {cost | ∃ legs : List (Leg db), Itinerary origin target legs ∧
      itineraryCost rs legs = .ok cost} time := by
  obtain ⟨horigin, htarget⟩ := h.mem_of_routeTime htime
  rcases h.routeTime_spec hdb horigin htarget with ⟨hnone, -⟩ | ⟨time', hsome, hleast⟩
  · cases hnone.symm.trans htime
  · cases hsome.symm.trans htime
    exact hleast

/-- An itinerary is a bound for the answer. -/
theorem exists_routeTime_le (horigin : origin ∈ db.names) {legs : List (Leg db)}
    (hlegs : Itinerary origin target legs) {cost : ℚ} (hcost : itineraryCost rs legs = .ok cost) :
    ∃ time ≤ cost, tr.routeTime origin target = .ok (some time) := by
  rcases h.routeTime_spec hdb horigin (hlegs.target_mem hdb horigin) with
    ⟨-, hno⟩ | ⟨time, hsome, hleast⟩
  · exact absurd hlegs (hno legs)
  · exact ⟨time, hleast.2 ⟨legs, hlegs, hcost⟩, hsome⟩

/-- Going on from a stop takes no less than the answer for the whole way. -/
theorem routeTime_add {first second : ℚ} (hfirst : tr.routeTime origin stop = .ok (some first))
    (hsecond : tr.routeTime stop target = .ok (some second)) :
    ∃ time ≤ first + second, tr.routeTime origin target = .ok (some time) := by
  obtain ⟨⟨legs, hlegs, hcost⟩, -⟩ := h.isLeast_of_routeTime hdb hfirst
  obtain ⟨⟨legs', hlegs', hcost'⟩, -⟩ := h.isLeast_of_routeTime hdb hsecond
  exact h.exists_routeTime_le hdb (h.mem_of_routeTime hfirst).1 (hlegs.append hlegs')
    (itineraryCost_append hcost hcost')

/-- The items of an answer, and their time. -/
theorem travels_of_getRouteInfo {info : RouteInfo ℚ}
    (hinfo : tr.getRouteInfo origin target = .ok (some info)) :
    Travels rs db origin target info.items ∧
      (info.items.map ComponentTrip.weight).sum = info.totalTime := by
  have htime : tr.routeTime origin target = .ok (some info.totalTime) := by
    rw [routeTime, hinfo]
    rfl
  obtain ⟨horigin, htarget⟩ := h.mem_of_routeTime htime
  obtain ⟨a, -, ha, rfl⟩ := hdb.lookup_of_mem horigin
  obtain ⟨b, -, hb, rfl⟩ := hdb.lookup_of_mem htarget
  rcases h.getRouteInfo_spec hdb ha hb with
    ⟨hnone, -⟩ | ⟨r, items, -, hsome, htravels, -, hsum, -⟩
  · cases hnone.symm.trans hinfo
  · cases hsome.symm.trans hinfo
    exact ⟨htravels, hsum⟩

end Made

/-- A wait and a ride after the other, so that items can be cut at each stop. -/
theorem Travels.cut {items : List (ComponentTrip ℚ)} (h : Travels rs db origin target items)
    {k : ℕ} (hk : 2 * k ≤ items.length) :
    ∃ stop, Travels rs db origin stop (items.take (2 * k)) ∧
      Travels rs db stop target (items.drop (2 * k)) := by
  induction h generalizing k with
  | arrived stop => exact ⟨stop, by simpa using .arrived stop, by simpa using .arrived stop⟩
  | @ride origin stop target wait ride items hwait hride htravels ih =>
      cases k with
      | zero => exact ⟨origin, .arrived origin, .ride hwait hride htravels⟩
      | succ k =>
          simp only [List.length_cons] at hk
          obtain ⟨middle, hbefore, hafter⟩ := ih (k := k) (by omega)
          exact ⟨middle, .ride hwait hride hbefore, hafter⟩

/-- Whoever goes on from a stop to which there is an answer, by another answer, has
one for the whole way that takes no longer. -/
theorem routeTime_triangle {calls : List Call} (hmake : make rs (run calls) = .ok tr)
    (_hvelocity : rs.busVelocity ≠ 0) {first second : ℚ}
    (hfirst : tr.routeTime origin stop = .ok (some first))
    (hsecond : tr.routeTime stop target = .ok (some second)) :
    ∃ time ≤ first + second, tr.routeTime origin target = .ok (some time) := by
  have hdb := (run_inv calls).toStoreInv
  exact (make_made hdb hmake).routeTime_add hdb hfirst hsecond

/-- Two buses there and back, with a change at their common stop. -/
def changeCalls : List Call :=
  [.addBus ['1'] [['A'], ['B']] false, .addBus ['2'] [['B'], ['C']] false,
    .addLenghtBetweenStops (['A'], ['B']) 600, .addLenghtBetweenStops (['B'], ['C']) 1200]

/-- The answers for the stops of `changeCalls`. -/
theorem exists_make_change : ∃ (tr : TransportRouter ℚ) (info : RouteInfo ℚ),
    make ⟨6, 40⟩ (run changeCalls) = .ok tr ∧ tr.routeTime ['A'] ['B'] = .ok (some (69 / 10)) ∧
      tr.routeTime ['B'] ['C'] = .ok (some (39 / 5)) ∧
      tr.getRouteInfo ['A'] ['C'] = .ok (some info) ∧ info.items.length = 4 := by
  obtain ⟨tr, hmake, hfirst, hsecond, info, hinfo, hlength⟩ := exists_ok_of_any
    (x := (make ⟨6, 40⟩ (run changeCalls) : Except Failure (TransportRouter ℚ)))
    (p := fun tr => (tr.routeTime ['A'] ['B']).toOption = some (some (69 / 10)) ∧
      (tr.routeTime ['B'] ['C']).toOption = some (some (39 / 5)) ∧
      ∃ info ∈ (tr.getRouteInfo ['A'] ['C']).toOption.join, info.items.length = 4)
    (by decide +kernel)
  exact ⟨tr, info, hmake, eq_ok_of_toOption hfirst, eq_ok_of_toOption hsecond,
    eq_ok_of_toOption (Option.join_eq_some_iff.mp hinfo), hlength⟩

theorem routeTime_triangle_change : ∃ tr : TransportRouter ℚ,
    make ⟨6, 40⟩ (run changeCalls) = .ok tr ∧
      ∃ time ≤ 69 / 10 + 39 / 5, tr.routeTime ['A'] ['C'] = .ok (some time) := by
  obtain ⟨tr, info, hmake, hfirst, hsecond, -⟩ := exists_make_change
  exact ⟨tr, hmake, routeTime_triangle hmake (by decide) hfirst hsecond⟩

/-- An answer cut at a stop on the way: up to the stop and from it on the items take as
long as the answers for these ways. -/
theorem routeTime_cut {calls : List Call} (hmake : make rs (run calls) = .ok tr)
    (_hvelocity : rs.busVelocity ≠ 0) {info : RouteInfo ℚ}
    (hinfo : tr.getRouteInfo origin target = .ok (some info)) {k : ℕ}
    (hk : 2 * k ≤ info.items.length) :
    ∃ stop, Travels rs (run calls) origin stop (info.items.take (2 * k)) ∧
      Travels rs (run calls) stop target (info.items.drop (2 * k)) ∧
      tr.routeTime origin stop =
        .ok (some ((info.items.take (2 * k)).map ComponentTrip.weight).sum) ∧
      tr.routeTime stop target =
        .ok (some ((info.items.drop (2 * k)).map ComponentTrip.weight).sum) := by
  have hdb := (run_inv calls).toStoreInv
  have h := make_made hdb hmake
  obtain ⟨htravels, hsum⟩ := h.travels_of_getRouteInfo hdb hinfo
  obtain ⟨stop, hbefore, hafter⟩ := htravels.cut hk
  refine ⟨stop, hbefore, hafter, ?_⟩
  have htime : tr.routeTime origin target = .ok (some info.totalTime) := by
    rw [routeTime, hinfo]
    rfl
  have horigin := (h.mem_of_routeTime htime).1
  obtain ⟨legs, hlegs, hcost⟩ := hbefore.itinerary
  obtain ⟨legs', hlegs', hcost'⟩ := hafter.itinerary
  obtain ⟨first, hle, hfirst⟩ := h.exists_routeTime_le hdb horigin hlegs hcost
  obtain ⟨second, hle', hsecond⟩ :=
    h.exists_routeTime_le hdb (hlegs.target_mem hdb horigin) hlegs' hcost'
  -- the two answers together are no faster than the whole one
  obtain ⟨time, hadd, htotal⟩ := h.routeTime_add hdb hfirst hsecond
  cases htime.symm.trans htotal
  have hparts : ((info.items.take (2 * k)).map ComponentTrip.weight).sum +
      ((info.items.drop (2 * k)).map ComponentTrip.weight).sum = info.totalTime := by
    rw [← hsum, ← List.sum_append, ← List.map_append, List.take_append_drop]
  have hfirstEq : first = ((info.items.take (2 * k)).map ComponentTrip.weight).sum := by linarith
  have hsecondEq : second = ((info.items.drop (2 * k)).map ComponentTrip.weight).sum := by linarith
  exact ⟨hfirstEq ▸ hfirst, hsecondEq ▸ hsecond⟩

theorem routeTime_cut_change : ∃ (tr : TransportRouter ℚ) (info : RouteInfo ℚ) (stop : Str),
    make ⟨6, 40⟩ (run changeCalls) = .ok tr ∧
      tr.getRouteInfo ['A'] ['C'] = .ok (some info) ∧
      Travels ⟨6, 40⟩ (run changeCalls) ['A'] stop (info.items.take 2) ∧
      Travels ⟨6, 40⟩ (run changeCalls) stop ['C'] (info.items.drop 2) ∧
      tr.routeTime ['A'] stop = .ok (some ((info.items.take 2).map ComponentTrip.weight).sum) ∧
      tr.routeTime stop ['C'] = .ok (some ((info.items.drop 2).map ComponentTrip.weight).sum) := by
  obtain ⟨tr, info, hmake, -, -, hinfo, hlength⟩ := exists_make_change
  obtain ⟨stop, hcut⟩ := routeTime_cut hmake (by decide) hinfo (k := 1) (by omega)
  exact ⟨tr, info, stop, hmake, hinfo, hcut⟩

/-- A call that adds a bus or a stop. -/
def AddsNoLenght : Call → Prop
  | .addLenghtBetweenStops _ _ => False
  | _ => True

/-- A catalogue with the stops and the buses of another one, and the same lengths. -/
structure Extends (v v' : View) : Prop where
  allBuses : v.allBuses ⊆ v'.allBuses
  coordinates {name : Str} : v'.coordinates name = none → v.coordinates name = none
  lenght : v'.lenght = v.lenght

theorem Extends.refl (v : View) : Extends v v := ⟨subset_rfl, id, rfl⟩

theorem Extends.trans {v v' v'' : View} (h : Extends v v') (h' : Extends v' v'') : Extends v v'' :=
  ⟨h.allBuses.trans h'.allBuses, fun hname => h.coordinates (h'.coordinates hname),
    h'.lenght.trans h.lenght⟩

theorem extends_step (v : View) {c : Call} (hc : AddsNoLenght c) : Extends v (v.step c) := by
  cases c with
  | addBus name stops isLoop =>
      refine ⟨Set.subset_insert _ _, fun {name'} hname => ?_, rfl⟩
      simp only [View.step, View.addBus, View.addPlaceholders, View.knownAt] at hname
      split at hname
      · cases hname
      · exact hname
  | addStop name location =>
      refine ⟨subset_rfl, fun {name'} hname => ?_, rfl⟩
      simp only [View.step, View.addStop, View.locatedAt] at hname
      split at hname
      · cases hname
      · exact hname
  | addLenghtBetweenStops pairStops lenght => exact hc.elim

theorem extends_foldl (v : View) {more : List Call} (hmore : ∀ c ∈ more, AddsNoLenght c) :
    Extends v (more.foldl View.step v) := by
  induction more generalizing v with
  | nil => exact .refl v
  | cons c more ih =>
      obtain ⟨hc, hmore⟩ := List.forall_mem_cons.mp hmore
      exact (extends_step v hc).trans (ih (v.step c) hmore)

theorem extends_run (calls : List Call) {more : List Call} (hmore : ∀ c ∈ more, AddsNoLenght c) :
    Extends (view (run calls)) (view (run (calls ++ more))) := by
  have hview : view (run (calls ++ more)) = more.foldl View.step (view (run calls)) := by
    rw [← TransportCatalogue.view_foldl (run_inv calls), run, run, List.foldl_append]
  rw [hview]
  exact extends_foldl _ hmore

section Extends

variable (h : Extends (view db) (view db'))

include h

theorem Extends.mem_names (hdb : StoreInv db) (hdb' : StoreInv db') {name : Str}
    (hname : name ∈ db.names) : name ∈ db'.names := by
  rw [mem_names_iff_coordinates hdb] at hname
  rw [mem_names_iff_coordinates hdb']
  exact mt h.coordinates hname

theorem Extends.getLenghtBetweenStops {a b : Str} {lenght : UInt32}
    (hlenght : db.getLenghtBetweenStops a b = .ok lenght) :
    db'.getLenghtBetweenStops a b = .ok lenght := by
  rw [getLenghtBetweenStops_eq_view] at hlenght ⊢
  unfold View.getLenghtBetweenStops at hlenght ⊢
  split at hlenght
  · cases hlenght
  · rename_i hknown
    rw [if_neg (fun hunknown => hknown (hunknown.imp h.coordinates h.coordinates)), h.lenght]
    exact hlenght

theorem Extends.exists_bus {bus : Bus} (hbus : bus ∈ db.allBuses) :
    ∃ bus' ∈ db'.allBuses, bus'.isLoopTrip = bus.isLoopTrip ∧
      db'.stopNames bus'.stops = db.stopNames bus.stops := by
  obtain ⟨bus', hbus', heq⟩ := h.allBuses ⟨bus, hbus, rfl⟩
  simp only [Prod.mk.injEq] at heq
  exact ⟨bus', hbus', heq.2.2.symm, heq.2.1.symm⟩

end Extends

/-- Settings with which no wait and no ride takes longer. -/
structure NoSlower (rs rs' : RoutingSettings) : Prop where
  wait : rs'.busWaitTime ≤ rs.busWaitTime
  velocity : rs.busVelocity ≤ rs'.busVelocity
  moving : rs.busVelocity ≠ 0

/-- A road takes no longer for a faster bus. -/
theorem NoSlower.road_le (h : NoSlower rs rs') (lenght : UInt32) :
    (lenght.toNat : ℚ) / (1000 * rs'.busVelocity.toNat) * 60 ≤
      lenght.toNat / (1000 * rs.busVelocity.toNat) * 60 := by
  have hpos : 0 < rs.busVelocity.toNat := by
    have hne : rs.busVelocity.toNat ≠ 0 := fun hzero => h.moving (UInt16.toNat_inj.mp hzero)
    omega
  have hpos' : (0 : ℚ) < rs.busVelocity.toNat := by exact_mod_cast hpos
  have hle : (rs.busVelocity.toNat : ℚ) ≤ rs'.busVelocity.toNat := by
    exact_mod_cast UInt16.le_iff_toNat_le.mp h.velocity
  gcongr

theorem rideTime_le (hsettings : NoSlower rs rs') (hextends : Extends (view db) (view db'))
    {stops : List Str} {time : ℚ} (h : rideTime rs db stops = .ok time) :
    ∃ time' ≤ time, rideTime rs' db' stops = .ok time' := by
  induction stops generalizing time with
  | nil => exact ⟨0, (Except.ok.inj h).le, rfl⟩
  | cons a stops ih =>
      cases stops with
      | nil => exact ⟨0, (Except.ok.inj h).le, rfl⟩
      | cons b stops =>
          obtain ⟨lenght, hlenght, h⟩ := bind_eq_ok_iff.mp h
          obtain ⟨rest, hrest, h⟩ := bind_eq_ok_iff.mp h
          cases h
          obtain ⟨rest', hle, hrest'⟩ := ih hrest
          refine ⟨_, add_le_add (hsettings.road_le lenght) hle, ?_⟩
          rw [rideTime, hextends.getLenghtBetweenStops hlenght, ok_bind, hrest']
          rfl

theorem Leg.exists_cheaper (hsettings : NoSlower rs rs') (hextends : Extends (view db) (view db'))
    (leg : Leg db)
    {cost : ℚ} (hcost : leg.cost rs = .ok cost) :
    ∃ leg' : Leg db', leg'.origin = leg.origin ∧ leg'.target = leg.target ∧
      ∃ cost' ≤ cost, leg'.cost rs' = .ok cost' := by
  obtain ⟨bus', hbus', hloop, hstops⟩ := hextends.exists_bus leg.bus_mem
  obtain ⟨leg', horigin, htarget, hcost'⟩ := leg.exists_same_stops hbus' hloop hstops
  obtain ⟨time, htime, h⟩ := bind_eq_ok_iff.mp hcost
  cases h
  obtain ⟨time', hle, htime'⟩ := rideTime_le hsettings hextends htime
  have hwait : (rs'.busWaitTime.toNat : ℚ) ≤ rs.busWaitTime.toNat := by
    exact_mod_cast UInt16.le_iff_toNat_le.mp hsettings.wait
  refine ⟨leg', horigin, htarget, _, add_le_add hwait hle, ?_⟩
  rw [hcost', htime']
  rfl

/-- Whether there is a route does not depend on the settings. -/
theorem routeTime_eq_none_iff {calls : List Call} (hmake : make rs (run calls) = .ok tr)
    (hmake' : make rs' (run calls) = .ok tr') (_hvelocity : rs.busVelocity ≠ 0)
    (_hvelocity' : rs'.busVelocity ≠ 0) :
    tr.routeTime origin target = .ok none ↔ tr'.routeTime origin target = .ok none := by
  have hdb := (run_inv calls).toStoreInv
  -- both say that there is no itinerary
  have hiff {rs : RoutingSettings} {tr : TransportRouter ℚ} (h : Made rs (run calls) tr) :
      tr.routeTime origin target = .ok none ↔
        (origin ∈ (run calls).names ∧ target ∈ (run calls).names) ∧
          ∀ legs : List (Leg (run calls)), ¬ Itinerary origin target legs := by
    constructor
    · intro hnone
      obtain ⟨horigin, htarget⟩ := h.mem_of_routeTime hnone
      rcases h.routeTime_spec hdb horigin htarget with ⟨-, hno⟩ | ⟨time, hsome, -⟩
      · exact ⟨⟨horigin, htarget⟩, hno⟩
      · cases hsome.symm.trans hnone
    · rintro ⟨⟨horigin, htarget⟩, hno⟩
      rcases h.routeTime_spec hdb horigin htarget with ⟨hnone, -⟩ | ⟨time, -, ⟨legs, hlegs, -⟩, -⟩
      · exact hnone
      · exact absurd hlegs (hno legs)
  rw [hiff (make_made hdb hmake), hiff (make_made hdb hmake')]

theorem routeTime_eq_none_iff_change : ∃ tr tr' : TransportRouter ℚ,
    make ⟨6, 40⟩ (run changeCalls) = .ok tr ∧ make ⟨9, 20⟩ (run changeCalls) = .ok tr' ∧
      (tr.routeTime ['A'] ['C'] = .ok none ↔ tr'.routeTime ['A'] ['C'] = .ok none) := by
  obtain ⟨tr, info, hmake, -⟩ := exists_make_change
  obtain ⟨tr', hmake'⟩ : ∃ tr' : TransportRouter ℚ, make ⟨9, 20⟩ (run changeCalls) = .ok tr' :=
    exists_ok_of_isOk (by decide +kernel)
  exact ⟨tr, tr', hmake, hmake', routeTime_eq_none_iff hmake hmake' (by decide) (by decide)⟩

theorem rideTime_cons_cons_iff {a b : Str} {stops : List Str} {time : ℚ} :
    rideTime rs db (a :: b :: stops) = .ok time ↔
      ∃ lenght rest, db.getLenghtBetweenStops a b = .ok lenght ∧
        rideTime rs db (b :: stops) = .ok rest ∧
        lenght.toNat / (1000 * rs.busVelocity.toNat) * 60 + rest = time := by
  rw [rideTime, bind_eq_ok_iff]
  refine exists_congr fun lenght => ?_
  rw [bind_eq_ok_iff]
  constructor
  · rintro ⟨hlenght, rest, hrest, htime⟩
    exact ⟨rest, hlenght, hrest, Except.ok.inj htime⟩
  · rintro ⟨rest, hlenght, hrest, rfl⟩
    exact ⟨hlenght, rest, hrest, rfl⟩

theorem rideTime_concat {stops : List Str} {a b : Str} {time : ℚ} {lenght : UInt32}
    (h : rideTime rs db (stops ++ [a]) = .ok time)
    (hlenght : db.getLenghtBetweenStops a b = .ok lenght) :
    rideTime rs db (stops ++ [a] ++ [b]) =
      .ok (lenght.toNat / (1000 * rs.busVelocity.toNat) * 60 + time) := by
  induction stops generalizing time with
  | nil =>
      cases h
      exact rideTime_cons_cons_iff.mpr ⟨lenght, 0, hlenght, rfl, rfl⟩
  | cons first stops ih =>
      cases stops with
      | nil =>
          obtain ⟨lenght', rest, hlenght', hrest, rfl⟩ := rideTime_cons_cons_iff.mp h
          exact rideTime_cons_cons_iff.mpr ⟨lenght', _, hlenght', ih hrest, add_left_comm _ _ _⟩
      | cons second stops =>
          obtain ⟨lenght', rest, hlenght', hrest, rfl⟩ := rideTime_cons_cons_iff.mp h
          exact rideTime_cons_cons_iff.mpr ⟨lenght', _, hlenght', ih hrest, add_left_comm _ _ _⟩

/-- Every two stops are as far from each other in both directions. -/
def SameRoads (db : TransportCatalogue) : Prop :=
  ∀ a b, db.getLenghtBetweenStops a b = db.getLenghtBetweenStops b a

theorem sameRoads_of_recorded
    (h : ∀ e ∈ db.lengthBetweenStops.entries,
      (db.lengthBetweenStops.lookup (e.1.2, e.1.1)).all (fun lenght => lenght = e.2)) :
    SameRoads db := by
  have hrecorded {p q : StopPtr} {lenght lenght' : UInt32}
      (hpq : db.lengthBetweenStops.lookup (p, q) = some lenght)
      (hqp : db.lengthBetweenStops.lookup (q, p) = some lenght') : lenght = lenght' := by
    have hall := h _ (UnorderedMap.lookup_eq_some.mp hpq)
    rw [hqp] at hall
    simpa [eq_comm] using hall
  intro a b
  unfold TransportCatalogue.getLenghtBetweenStops mapAt
  cases ha : db.stops.lookup a with
  | none => cases hb : db.stops.lookup b <;> rfl
  | some p =>
      cases hb : db.stops.lookup b with
      | none => rfl
      | some q =>
          simp only [ok_bind]
          cases hpq : db.lengthBetweenStops.lookup (p, q) with
          | none =>
              cases hqp : db.lengthBetweenStops.lookup (q, p) with
              | none => simp [eq_comm]
              | some lenght => rfl
          | some lenght =>
              cases hqp : db.lengthBetweenStops.lookup (q, p) with
              | none => rfl
              | some lenght' => rw [hrecorded hpq hqp]

theorem rideTime_reverse (hroads : SameRoads db) {stops : List Str} {time : ℚ}
    (h : rideTime rs db stops = .ok time) : rideTime rs db stops.reverse = .ok time := by
  induction stops generalizing time with
  | nil => exact h
  | cons a stops ih =>
      cases stops with
      | nil => exact h
      | cons b stops =>
          obtain ⟨lenght, rest, hlenght, hrest, rfl⟩ := rideTime_cons_cons_iff.mp h
          have hback := ih hrest
          rw [List.reverse_cons] at hback
          rw [List.reverse_cons, List.reverse_cons]
          exact rideTime_concat hback ((hroads b a).trans hlenght)

theorem travelled_swap {A : Type} (stops : List A) {p q : ℕ} (hne : p ≠ q) :
    travelled stops q p = (travelled stops p q).reverse := by
  unfold travelled
  rcases hne.lt_or_gt with hlt | hgt
  · rw [if_neg hlt.not_ge, if_pos hlt.le]
  · rw [if_pos hgt.le, if_neg hgt.not_ge, List.reverse_reverse]

/-- The same ride in the other direction. -/
theorem Leg.exists_back (hroads : SameRoads db) (leg : Leg db)
    (hline : leg.bus.isLoopTrip = false) {cost : ℚ} (hcost : leg.cost rs = .ok cost) :
    ∃ leg' : Leg db, leg'.origin = leg.target ∧ leg'.target = leg.origin ∧
      leg'.cost rs = .ok cost := by
  have hcan : CanRide leg.bus leg.q leg.p := by
    rcases leg.direction with hlt | ⟨-, hgt⟩
    · exact .inr ⟨hline, hlt⟩
    · exact .inl hgt
  have hne : leg.p ≠ leg.q := by
    rcases leg.direction with hlt | ⟨-, hgt⟩
    · exact hlt.ne
    · exact hgt.ne'
  obtain ⟨time, htime, h⟩ := bind_eq_ok_iff.mp hcost
  cases h
  let back : Leg db :=
    { bus := leg.bus, p := leg.q, q := leg.p, bus_mem := leg.bus_mem, p_lt := leg.q_lt,
      q_lt := leg.p_lt, direction := hcan }
  refine ⟨back, rfl, rfl, ?_⟩
  have hback : rideTime rs db (travelled (db.stopNames leg.bus.stops) leg.q leg.p) = .ok time := by
    rw [travelled_swap _ hne]
    exact rideTime_reverse hroads htime
  simp only [Leg.cost, back, hback, ok_bind]
  rfl

theorem Itinerary.exists_back (hroads : SameRoads db)
    (hlines : ∀ bus ∈ db.allBuses, bus.isLoopTrip = false) {legs : List (Leg db)}
    (h : Itinerary origin target legs) {cost : ℚ} (hcost : itineraryCost rs legs = .ok cost) :
    ∃ legs' : List (Leg db), Itinerary target origin legs' ∧
      itineraryCost rs legs' = .ok cost := by
  induction h generalizing cost with
  | nil stop => exact ⟨[], .nil stop, hcost⟩
  | @cons leg target legs _ ih =>
      obtain ⟨first, hfirst, hcost⟩ := bind_eq_ok_iff.mp hcost
      obtain ⟨rest, hrest, hcost⟩ := bind_eq_ok_iff.mp hcost
      cases hcost
      obtain ⟨legs', hlegs', hrest'⟩ := ih hrest
      obtain ⟨back, horigin, htarget, hback⟩ :=
        leg.exists_back hroads (hlines _ leg.bus_mem) hfirst
      have hsingle : Itinerary leg.target leg.origin [back] := by
        rw [← horigin, ← htarget]
        exact .cons back (.nil _)
      have hsingleCost : itineraryCost rs [back] = .ok first := by
        rw [itineraryCost, hback, ok_bind]
        exact congrArg Except.ok (add_zero first)
      refine ⟨legs' ++ [back], hlegs'.append hsingle, ?_⟩
      rw [itineraryCost_append hrest' hsingleCost, add_comm]

/-- Where all buses go there and back on roads that are as long in both directions, the
way back takes as long as the way there. -/
theorem routeTime_comm {calls : List Call} (hmake : make rs (run calls) = .ok tr)
    (_hvelocity : rs.busVelocity ≠ 0) (hroads : SameRoads (run calls))
    (hlines : ∀ bus ∈ (run calls).allBuses, bus.isLoopTrip = false)
    (horigin : origin ∈ (run calls).names) (htarget : target ∈ (run calls).names) :
    tr.routeTime origin target = tr.routeTime target origin := by
  have hdb := (run_inv calls).toStoreInv
  have h := make_made hdb hmake
  have hback {a b : Str} {time : ℚ} (htime : tr.routeTime a b = .ok (some time)) :
      ∃ time' ≤ time, tr.routeTime b a = .ok (some time') := by
    obtain ⟨⟨legs, hlegs, hcost⟩, -⟩ := h.isLeast_of_routeTime hdb htime
    obtain ⟨legs', hlegs', hcost'⟩ := hlegs.exists_back hroads hlines hcost
    exact h.exists_routeTime_le hdb (h.mem_of_routeTime htime).2 hlegs' hcost'
  rcases h.routeTime_spec hdb horigin htarget with ⟨hnone, -⟩ | ⟨time, hsome, -⟩
  · rcases h.routeTime_spec hdb htarget horigin with ⟨hnone', -⟩ | ⟨time, hsome, -⟩
    · exact hnone.trans hnone'.symm
    · obtain ⟨time', -, htime'⟩ := hback hsome
      cases hnone.symm.trans htime'
  · obtain ⟨time', hle, htime'⟩ := hback hsome
    obtain ⟨time'', hle', htime''⟩ := hback htime'
    cases hsome.symm.trans htime''
    rw [le_antisymm hle hle'] at htime'
    exact hsome.trans htime'.symm

theorem routeTime_comm_change : ∃ tr : TransportRouter ℚ,
    make ⟨6, 40⟩ (run changeCalls) = .ok tr ∧
      tr.routeTime ['A'] ['C'] = tr.routeTime ['C'] ['A'] := by
  obtain ⟨tr, info, hmake, -⟩ := exists_make_change
  have hroads : SameRoads (run changeCalls) := sameRoads_of_recorded (by decide)
  exact ⟨tr, hmake, routeTime_comm hmake (by decide) hroads (by decide) (by decide) (by decide)⟩

end TransportSystem.TransportRouter
