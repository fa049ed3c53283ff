import Mathlib.Tactic.Ring
import TransportSystem.Itinerary

namespace TransportSystem.TransportRouter

open TransportSystem.Graph
open Library.UniqueKeys
open Library.FloydWarshall
open TransportCatalogue (StoreInv Call run run_inv names names_getElem?_of_lt)

theorem addItems_spec {infoAboutEdge : UnorderedMap EdgeId (ComponentTrip ℚ)}
    {ids : List EdgeId} {items : List (ComponentTrip ℚ)}
    (h : List.Forall₂ (fun id item => infoAboutEdge.lookup id = some item) ids items)
    (result : RouteInfo ℚ) :
    addItems infoAboutEdge ids result =
      .ok ⟨result.items ++ items,
        result.totalTime + (items.map ComponentTrip.weight).sum⟩ := by
  induction h generalizing result with
  | nil => simp [addItems]
  | @cons id item ids items hid _ ih =>
      rw [addItems, mapAt_of_lookup hid]
      rcases item with ⟨name, weight, _ | spanCount⟩
      · simp only [bind, Except.bind, ih, List.map_cons, List.sum_cons, List.append_assoc,
          List.singleton_append, add_assoc]
      · simp only [bind, Except.bind, ih, List.map_cons, List.sum_cons, List.append_assoc,
          List.singleton_append, add_assoc]

variable {rs : RoutingSettings} {db : TransportCatalogue} {tr : TransportRouter ℚ}

namespace Made

variable (h : Made rs db tr)

include h

theorem built : Router.Built tr.graphOfStops tr.router := by
  rcases Router.ofGraph_spec h.holds.graph with ⟨router, heq, hbuilt, -⟩ | ⟨heq, -⟩
  · cases heq.symm.trans h.router
    exact hbuilt
  · cases heq.symm.trans h.router

theorem stopVertexs_lookup {k : StopPtr} (hk : k < db.allStops.length) :
    tr.stopVertexs.lookup (db.stop k).name = some ⟨2 * k, 2 * k + 1⟩ :=
  (h.numbered.vertexs _ _).mpr ⟨k, names_getElem?_of_lt hk, rfl⟩

theorem getRouteInfo_of_buildRoute {a b : StopPtr} (ha : a < db.allStops.length)
    (hb : b < db.allStops.length) {route : Option (Graph.RouteInfo ℚ)}
    (hroute : tr.router.buildRoute (2 * a) (2 * b) = .ok route) (items : List (ComponentTrip ℚ))
    (hinfos : ∀ r ∈ route,
      List.Forall₂ (fun id item => tr.infoAboutEdge.lookup id = some item) r.edges items) :
    tr.getRouteInfo (db.stop a).name (db.stop b).name =
      .ok (route.map fun _ => ⟨items, (items.map ComponentTrip.weight).sum⟩) := by
  have hmem : (db.stop a).name ∈ tr.stopVertexs :=
    UnorderedMap.mem_iff_lookup.mpr ⟨_, h.stopVertexs_lookup ha⟩
  simp only [getRouteInfo, hmem, not_true_eq_false, if_false,
    mapAt_of_lookup (h.stopVertexs_lookup ha), mapAt_of_lookup (h.stopVertexs_lookup hb), hroute,
    bind, Except.bind, pure, Except.pure]
  cases route with
  | none => rfl
  | some r => simp [addItems_spec (hinfos r rfl)]

theorem getRouteInfo_spec (hdb : StoreInv db) {a b : StopPtr} (ha : a < db.allStops.length)
    (hb : b < db.allStops.length) :
    (tr.getRouteInfo (db.stop a).name (db.stop b).name = .ok none ∧
        ∀ legs : List (Leg db), ¬ Itinerary (db.stop a).name (db.stop b).name legs) ∨
      ∃ r items, tr.router.routesInternalData.get (2 * a) (2 * b) = some r ∧
        tr.getRouteInfo (db.stop a).name (db.stop b).name = .ok (some ⟨items, r.weight⟩) ∧
        Travels rs db (db.stop a).name (db.stop b).name items ∧ (items = [] ↔ a = b) ∧
        (items.map ComponentTrip.weight).sum = r.weight ∧
        ∀ legs : List (Leg db), Itinerary (db.stop a).name (db.stop b).name legs →
          ∃ cost, itineraryCost rs legs = .ok cost ∧ r.weight ≤ cost := by
  have hvertex : ∀ {k : StopPtr}, k < db.allStops.length →
      2 * k < tr.graphOfStops.getVertexCount := by
    intro k hk
    exact Nat.lt_of_succ_lt (vertex_lt h.holds.vertexCount hk)
  -- an itinerary is a walk between the first vertices
  have hwalk : ∀ legs : List (Leg db), Itinerary (db.stop a).name (db.stop b).name legs →
      ∃ cost, itineraryCost rs legs = .ok cost ∧
        ∃ es, Walk tr.graphOfStops.IsEdge (2 * a) (2 * b) es cost := by
    intro legs hlegs
    simpa only [zero_add] using h.walk_of_itinerary hdb hlegs ha hb rfl rfl (.nil (2 * a))
  rcases h.built.buildRoute_spec h.holds.graph (hvertex ha) (hvertex hb) with
    ⟨-, hroute, hnone⟩ | ⟨r, es, hr, hroute, hes, hempty, hleast⟩
  · refine Or.inl ⟨h.getRouteInfo_of_buildRoute ha hb hroute [] (by simp), ?_⟩
    intro legs hlegs
    obtain ⟨cost, -, es, hes⟩ := hwalk legs hlegs
    exact hnone es cost hes
  · obtain ⟨items, hinfos, hsum, k, -, hend⟩ := h.walk_travels hdb ha rfl hes
    have htravels : Travels rs db (db.stop a).name (db.stop b).name items := by
      rcases hend with ⟨hbk, htravels⟩ | ⟨hbk, -⟩
      · exact inVertex_injective hbk ▸ htravels
      · exact absurd hbk (inVertex_ne_outVertex b k)
    have hitems : items = [] ↔ a = b := by
      rw [← List.length_eq_zero_iff, ← hinfos.length_eq, List.length_eq_zero_iff, hempty]
      exact ⟨inVertex_injective, fun hab => hab ▸ rfl⟩
    refine Or.inr ⟨r, items, hr, ?_, htravels, hitems, hsum, ?_⟩
    · rw [← hsum]
      exact h.getRouteInfo_of_buildRoute ha hb hroute items (by simpa using hinfos)
    · intro legs hlegs
      obtain ⟨cost, hcost, es', hes'⟩ := hwalk legs hlegs
      exact ⟨cost, hcost, hleast es' cost hes'⟩

end Made

theorem exists_place (calls : List Call) {name : Str} (hname : name ∈ (run calls).names) :
    ∃ p, p < (run calls).allStops.length ∧ ((run calls).stop p).name = name := by
  obtain ⟨p, -, hp, rfl⟩ := (run_inv calls).lookup_of_mem hname
  exact ⟨p, hp, rfl⟩

/-- A bus there and back between two stops. -/
def lineCalls : List Call :=
  [.addBus ['1'] [['A'], ['B']] false, .addLenghtBetweenStops (['A'], ['B']) 600]

def lineLeg : Leg (run lineCalls) where
  bus := ⟨['1'], [0, 1], false⟩
  p := 0
  q := 1
  bus_mem := by decide
  p_lt := by decide
  q_lt := by decide
  direction := Or.inl (by decide)

theorem exists_make_line :
    ∃ tr : TransportRouter ℚ, make ⟨6, 40⟩ (run lineCalls) = .ok tr :=
  exists_ok_of_isOk (by decide +kernel)

/-- The answer for two stops of a catalogue is no route when no itinerary leads
from the one to the other, and the least cost of an itinerary otherwise. -/
theorem getRouteInfo_isLeast (calls : List Call) (rs : RoutingSettings)
    (tr : TransportRouter ℚ) (_hvelocity : rs.busVelocity ≠ 0)
    (hmake : make rs (run calls) = .ok tr) (origin target : Str)
    (horigin : origin ∈ (run calls).names) (htarget : target ∈ (run calls).names) :
    (∀ legs : List (Leg (run calls)), Itinerary origin target legs →
        ∃ cost, itineraryCost rs legs = .ok cost) ∧
      (tr.getRouteInfo origin target = .ok none ↔
        ¬ ∃ legs : List (Leg (run calls)), Itinerary origin target legs) ∧
      ((∃ legs : List (Leg (run calls)), Itinerary origin target legs) →
        ∃ info, tr.getRouteInfo origin target = .ok (some info) ∧
          IsLeast {cost | ∃ legs : List (Leg (run calls)), Itinerary origin target legs ∧
            itineraryCost rs legs = .ok cost} info.totalTime ∧
          (origin = target → info.totalTime = 0)) := by
  have hdb := (run_inv calls).toStoreInv
  have h := make_made hdb hmake
  obtain ⟨a, ha, rfl⟩ := exists_place calls horigin
  obtain ⟨b, hb, rfl⟩ := exists_place calls htarget
  rcases h.getRouteInfo_spec hdb ha hb with
    ⟨hnone, hno⟩ | ⟨r, items, -, hsome, htravels, hempty, hsum, hleast⟩
  · have hnot : ¬ ∃ legs : List (Leg (run calls)),
        Itinerary ((run calls).stop a).name ((run calls).stop b).name legs := by
      rintro ⟨legs, hlegs⟩
      exact hno legs hlegs
    exact ⟨fun legs hlegs => absurd hlegs (hno legs), iff_of_true hnone hnot,
      fun hlegs => absurd hlegs hnot⟩
  · obtain ⟨legs, hlegs, hcost⟩ := htravels.itinerary
    rw [hsum] at hcost
    refine ⟨?_, ?_, fun _ => ⟨_, hsome, ⟨⟨legs, hlegs, hcost⟩, ?_⟩, ?_⟩⟩
    · intro legs' hlegs'
      obtain ⟨cost, hcost', -⟩ := hleast legs' hlegs'
      exact ⟨cost, hcost'⟩
    · rw [hsome]
      exact iff_of_false (by simp) (not_not.mpr ⟨legs, hlegs⟩)
    · rintro cost ⟨legs', hlegs', hcost'⟩
      obtain ⟨cost', heq, hle⟩ := hleast legs' hlegs'
      cases heq.symm.trans hcost'
      exact hle
    · intro hsame
      have hnil := hempty.mpr (hdb.stop_name_injective ha hb hsame)
      rw [hnil] at hsum
      exact hsum.symm

theorem getRouteInfo_isLeast_line :
    ∃ (tr : TransportRouter ℚ) (info : RouteInfo ℚ), make ⟨6, 40⟩ (run lineCalls) = .ok tr ∧
      tr.getRouteInfo ['A'] ['B'] = .ok (some info) ∧
      IsLeast {cost | ∃ legs : List (Leg (run lineCalls)), Itinerary ['A'] ['B'] legs ∧
        itineraryCost ⟨6, 40⟩ legs = .ok cost} info.totalTime := by
  obtain ⟨tr, hmake⟩ := exists_make_line
  obtain ⟨-, -, hleast⟩ := getRouteInfo_isLeast lineCalls ⟨6, 40⟩ tr (by decide) hmake ['A'] ['B']
    (by decide) (by decide)
  obtain ⟨info, hinfo, hcost, -⟩ := hleast ⟨[lineLeg], .cons lineLeg (.nil ['B'])⟩
  exact ⟨tr, info, hmake, hinfo, hcost⟩

/-- Every answer can be travelled, and its time is that of its items and of the
table. -/
theorem getRouteInfo_travels (calls : List Call) (rs : RoutingSettings)
    (tr : TransportRouter ℚ) (_hvelocity : rs.busVelocity ≠ 0)
    (hmake : make rs (run calls) = .ok tr) (origin target : Str)
    (horigin : origin ∈ (run calls).names) (htarget : target ∈ (run calls).names) :
    (∃ result, tr.getRouteInfo origin target = .ok result) ∧
      ∀ info, tr.getRouteInfo origin target = .ok (some info) →
        Travels rs (run calls) origin target info.items ∧
        (info.items = [] ↔ origin = target) ∧
        info.totalTime = (info.items.map ComponentTrip.weight).sum ∧
        ∃ originVertices targetVertices r,
          tr.stopVertexs.lookup origin = some originVertices ∧
          tr.stopVertexs.lookup target = some targetVertices ∧
          tr.router.routesInternalData.get originVertices.inVertex targetVertices.inVertex =
            some r ∧
          info.totalTime = r.weight := by
  have hdb := (run_inv calls).toStoreInv
  have h := make_made hdb hmake
  obtain ⟨a, ha, rfl⟩ := exists_place calls horigin
  obtain ⟨b, hb, rfl⟩ := exists_place calls htarget
  rcases h.getRouteInfo_spec hdb ha hb with
    ⟨hnone, -⟩ | ⟨r, items, hr, hsome, htravels, hempty, hsum, -⟩
  · refine ⟨⟨none, hnone⟩, ?_⟩
    intro info hinfo
    cases hnone.symm.trans hinfo
  · refine ⟨⟨_, hsome⟩, ?_⟩
    intro info hinfo
    cases hsome.symm.trans hinfo
    refine ⟨htravels, hempty.trans ?_, hsum.symm, _, _, r, h.stopVertexs_lookup ha,
      h.stopVertexs_lookup hb, hr, rfl⟩
    exact ⟨fun hab => hab ▸ rfl, hdb.stop_name_injective ha hb⟩

theorem getRouteInfo_travels_line :
    ∃ (tr : TransportRouter ℚ) (result : Option (RouteInfo ℚ)),
      make ⟨6, 40⟩ (run lineCalls) = .ok tr ∧ tr.getRouteInfo ['A'] ['B'] = .ok result ∧
      ∀ info, result = some info → Travels ⟨6, 40⟩ (run lineCalls) ['A'] ['B'] info.items := by
  obtain ⟨tr, hmake⟩ := exists_make_line
  obtain ⟨⟨result, hresult⟩, htravels⟩ := getRouteInfo_travels lineCalls ⟨6, 40⟩ tr (by decide)
    hmake ['A'] ['B'] (by decide) (by decide)
  refine ⟨tr, result, hmake, hresult, ?_⟩
  rintro info rfl
  exact (htravels info hresult).1

end TransportSystem.TransportRouter
