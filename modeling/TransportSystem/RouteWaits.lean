import TransportSystem.LoadedRouter
import TransportSystem.RouteComparison

/-!
The way of an answer. It comes to no stop twice, since the table leads from a
vertex to one vertex before it, and stops at the origin.
-/

namespace TransportSystem

open TransportSystem.Graph
open Library.UniqueKeys
open TransportCatalogue (StoreInv Call run run_inv)

namespace Graph.Router

variable {W : Type} {router : Router W} {origin target : VertexId}

/-- On any table, the edges of a route that is returned come from different
vertices, of which none is the target. -/
theorem buildRoute_sources {r : RouteInfo W}
    (h : router.buildRoute origin target = .ok (some r)) :
    ∃ sources, (target :: sources).Nodup ∧ List.Forall₂ (fun id source => ∃ edge,
      router.graph.edges[id]? = some edge ∧ edge.source = source) r.edges sources := by
  obtain ⟨row, cell, hrow, hcell, hholds⟩ := exists_buildRoute_iff.mp ⟨_, h⟩
  cases cell with
  | none =>
      simp only [buildRoute, hrow, hcell] at h
      cases h
  | some data =>
      obtain ⟨edges, hedges⟩ := hholds (Option.some_ne_none data)
      cases (buildRoute_of_holdsRoute hrow hcell hedges).symm.trans h
      obtain ⟨vertices, first, hfollows, ⟨last, hlast, hid⟩, rfl⟩ := hedges
      obtain ⟨met, hnodup, hmet⟩ := hfollows.exists_met (previous_of_prevEdge hlast hid)
      have hperm : (target :: met.reverse).Perm (target :: met) := (List.reverse_perm met).cons _
      refine ⟨met.reverse, hperm.nodup_iff.mpr hnodup, List.forall₂_reverse_iff.mpr ?_⟩
      clear hnodup hperm hfollows h
      induction hmet with
      | nil => exact .nil
      | @cons vertex before vertices met hnext _ ih =>
          obtain ⟨data, id, edge, hdata, hid, hedge, hsource⟩ := previous_eq_some_iff.mp hnext
          have hinto : router.edgeInto origin vertex = some id := by
            rw [edgeInto, hdata]
            exact hid
          rw [List.filterMap_cons_some hinto]
          exact .cons ⟨edge, hedge, hsource⟩ ih

end Graph.Router

namespace TransportRouter

/-- The stops at which somebody waits. -/
def waits {W : Type} (items : List (ComponentTrip W)) : List Str :=
  (items.filter fun item => item.spanCount.isNone).map ComponentTrip.name

section Items

variable {W : Type} [Zero W] [Add W] {infoAboutEdge : UnorderedMap EdgeId (ComponentTrip W)}

omit [Zero W] in
theorem addItems_eq_ok {ids : List EdgeId} {result result' : RouteInfo W}
    (h : addItems infoAboutEdge ids result = .ok result') :
    ∃ items, result'.items = result.items ++ items ∧
      List.Forall₂ (fun id item => infoAboutEdge.lookup id = some item) ids items := by
  induction ids generalizing result with
  | nil =>
      cases h
      exact ⟨[], (List.append_nil _).symm, .nil⟩
  | cons id ids ih =>
      obtain ⟨info, hinfo, h⟩ := bind_eq_ok_iff.mp h
      obtain ⟨items, heq, hitems⟩ := ih h
      refine ⟨info :: items, ?_, .cons (mapAt_eq_ok_iff.mp hinfo) hitems⟩
      rw [heq, List.append_assoc, List.singleton_append]
      rcases info with ⟨name, weight, _ | spanCount⟩
      · rfl
      · rfl

end Items

variable {rs : RoutingSettings} {db : TransportCatalogue} {tr : TransportRouter ℚ}
  {origin target : Str}

/-- A wait and a ride after the other. -/
theorem Travels.length_items {items : List (ComponentTrip ℚ)}
    (h : Travels rs db origin target items) : items.length = 2 * (waits items).length := by
  induction h with
  | arrived stop => rfl
  | @ride origin stop target wait ride items hwait hride _ ih =>
      obtain ⟨bus, -, p, q, -, -, -, -, hspan, -⟩ := hride
      cases hwait
      have hcons : waits ((⟨origin, rs.busWaitTime.toNat, none⟩ : ComponentTrip ℚ) :: ride ::
          items) = origin :: waits items := by
        simp [waits, hspan]
      rw [hcons, List.length_cons, List.length_cons, List.length_cons, ih]
      omega

/-- The item of an edge from the vertex `source` waits only at the stop of which that is
the first vertex. -/
def WaitsAt (db : TransportCatalogue) (source : VertexId) (item : ComponentTrip ℚ) : Prop :=
  item.spanCount = none →
    ∃ k, k < db.allStops.length ∧ source = 2 * k ∧ item.name = (db.stop k).name

/-- Edges from different vertices wait at different stops. -/
theorem waits_of_sources (hdb : StoreInv db) {sources : List VertexId}
    {items : List (ComponentTrip ℚ)} (h : List.Forall₂ (WaitsAt db) sources items)
    (hnodup : sources.Nodup) :
    (waits items).Nodup ∧ ∀ name ∈ waits items, ∃ k, k < db.allStops.length ∧ 2 * k ∈ sources ∧
      name = (db.stop k).name := by
  induction h with
  | nil => exact ⟨List.nodup_nil, by rintro name ⟨⟩⟩
  | @cons source item sources items hwaits _ ih =>
      obtain ⟨hsource, hnodup⟩ := List.nodup_cons.mp hnodup
      obtain ⟨hrest, hnames⟩ := ih hnodup
      have hlater : ∀ name ∈ waits items, ∃ k, k < db.allStops.length ∧
          2 * k ∈ source :: sources ∧ name = (db.stop k).name := fun name hname =>
        (hnames name hname).imp fun _ hk => ⟨hk.1, List.mem_cons_of_mem _ hk.2.1, hk.2.2⟩
      cases hspan : item.spanCount with
      | some spanCount =>
          have hskip : waits (item :: items) = waits items := by simp [waits, hspan]
          rw [hskip]
          exact ⟨hrest, hlater⟩
      | none =>
          obtain ⟨k, hk, rfl, hname⟩ := hwaits hspan
          have hcons : waits (item :: items) = item.name :: waits items := by simp [waits, hspan]
          rw [hcons, List.nodup_cons, List.forall_mem_cons]
          refine ⟨⟨fun hmem => ?_, hrest⟩, ⟨k, hk, by simp, hname⟩, hlater⟩
          obtain ⟨k', hk', hsource', hname'⟩ := hnames _ hmem
          cases hdb.stop_name_injective hk hk' (hname.symm.trans hname')
          exact hsource hsource'

namespace Made

variable (h : Made rs db tr) (hdb : StoreInv db)
include h hdb

theorem waitsAt_of_edge {id : EdgeId} {edge : Edge ℚ} {item : ComponentTrip ℚ}
    (hedge : tr.graphOfStops.edges[id]? = some edge)
    (hitem : tr.infoAboutEdge.lookup id = some item) : WaitsAt db edge.source item := by
  intro hwait
  obtain ⟨source, target, weight⟩ := edge
  obtain ⟨item', hitem', -, hkind⟩ := @edge_cases _ _ _ h hdb id source target weight hedge
  cases hitem.symm.trans hitem'
  rcases hkind with ⟨k, hk, hsource, -, hkwait⟩ | ⟨_, _, -, -, -, hride⟩
  · exact ⟨k, hk, hsource, by rw [hkwait]⟩
  · obtain ⟨_, -, _, _, -, -, -, -, hspan, -⟩ := hride
    cases hspan.symm.trans hwait

theorem waitsAt_of_edges {ids : List EdgeId} {sources : List VertexId}
    {items : List (ComponentTrip ℚ)}
    (hsources : List.Forall₂ (fun id source => ∃ edge,
      tr.graphOfStops.edges[id]? = some edge ∧ edge.source = source) ids sources)
    (hitems : List.Forall₂ (fun id item => tr.infoAboutEdge.lookup id = some item) ids items) :
    List.Forall₂ (WaitsAt db) sources items := by
  induction hsources generalizing items with
  | nil =>
      cases hitems
      exact .nil
  | cons hsource _ ih =>
      obtain ⟨edge, hedge, rfl⟩ := hsource
      cases hitems with
      | cons hitem hitems => exact .cons (h.waitsAt_of_edge hdb hedge hitem) (ih hitems)

/-- The stops at which an answer waits, and the target, are different stops. -/
theorem nodup_waits {info : RouteInfo ℚ}
    (hinfo : tr.getRouteInfo origin target = .ok (some info)) :
    (waits info.items ++ [target]).Nodup ∧
      ∀ name ∈ waits info.items ++ [target], name ∈ db.names := by
  have htime : tr.routeTime origin target = .ok (some info.totalTime) := by
    rw [routeTime, hinfo]
    rfl
  obtain ⟨horigin, htarget⟩ := h.mem_of_routeTime htime
  obtain ⟨a, -, ha, rfl⟩ := hdb.lookup_of_mem horigin
  obtain ⟨b, -, hb, rfl⟩ := hdb.lookup_of_mem htarget
  rw [getRouteInfo_of_lookup (h.stopVertexs_lookup ha) (h.stopVertexs_lookup hb)] at hinfo
  obtain ⟨route, hroute, hinfo⟩ := bind_eq_ok_iff.mp hinfo
  cases route with
  | none => cases hinfo
  | some r =>
      obtain ⟨result, hitems, hinfo⟩ := bind_eq_ok_iff.mp hinfo
      cases hinfo
      obtain ⟨items, heq, hitems⟩ := addItems_eq_ok hitems
      rw [List.nil_append] at heq
      rw [heq]
      obtain ⟨sources, hnodup, hsources⟩ := Router.buildRoute_sources hroute
      rw [Router.ofGraph_graph h.router] at hsources
      obtain ⟨hb', hnodup⟩ := List.nodup_cons.mp hnodup
      obtain ⟨hnames, hplaces⟩ :=
        waits_of_sources hdb (h.waitsAt_of_edges hdb hsources hitems) hnodup
      rw [List.nodup_append, List.forall_mem_append, List.forall_mem_singleton]
      refine ⟨⟨hnames, List.nodup_singleton _, ?_⟩, fun name hname => ?_, htarget⟩
      · rintro name hname _ hsame rfl
        cases List.mem_singleton.mp hsame
        obtain ⟨k, hk, hsource, hname⟩ := hplaces _ hname
        cases hdb.stop_name_injective hb hk hname
        exact hb' hsource
      · obtain ⟨k, hk, -, rfl⟩ := hplaces name hname
        exact List.mem_of_getElem? (TransportCatalogue.names_getElem?_of_lt hk)

end Made

/-- An answer comes to no stop twice. So it has no more than two items for each
stop but the last. -/
theorem visited_nodup {calls : List Call} (hmake : make rs (run calls) = .ok tr)
    {info : RouteInfo ℚ} (hinfo : tr.getRouteInfo origin target = .ok (some info)) :
    (waits info.items ++ [target]).Nodup ∧
      (∀ name ∈ waits info.items ++ [target], name ∈ (run calls).names) ∧
      info.items.length ≤ 2 * ((run calls).names.length - 1) := by
  have hdb := (run_inv calls).toStoreInv
  have h := make_made hdb hmake
  obtain ⟨hnodup, hnames⟩ := h.nodup_waits hdb hinfo
  refine ⟨hnodup, hnames, ?_⟩
  have hlength := (List.subperm_of_subset hnodup hnames).length_le
  rw [List.length_append, List.length_singleton] at hlength
  rw [(h.travels_of_getRouteInfo hdb hinfo).1.length_items]
  omega

theorem visited_nodup_change : ∃ (tr : TransportRouter ℚ) (info : RouteInfo ℚ),
    make ⟨6, 40⟩ (run changeCalls) = .ok tr ∧
      tr.getRouteInfo ['A'] ['C'] = .ok (some info) ∧ info.items.length = 4 ∧
      (waits info.items ++ [['C']]).Nodup ∧ 4 ≤ 2 * ((run changeCalls).names.length - 1) := by
  obtain ⟨tr, info, hmake, -, -, hinfo, hlength⟩ := exists_make_change
  obtain ⟨hnodup, -, hle⟩ := visited_nodup hmake hinfo
  exact ⟨tr, info, hmake, hinfo, hlength, hnodup, hlength ▸ hle⟩

end TransportRouter

end TransportSystem
