import TransportSystem.RouterProto
import TransportSystem.RouteAnswers

/-!
The graph of a router that was saved and read. Its edges lead to where they
come from, so it is the old graph only if there are no edges.
-/

namespace TransportSystem.TransportRouter

open TransportSystem.Graph
open Library.UniqueKeys
open TransportCatalogue (StoreInv Call run run_inv)

variable {W : Type} [NatCast W] [Mul W] [Div W] [Zero W] [Add W] [LT W] [DecidableLT W]

/-- The graph of `tr'` is that of `tr`, and a router computed on it has the
weights of the table of `tr`. -/
structure SameGraph (tr tr' : TransportRouter W) : Prop where
  edgeCount : tr'.graphOfStops.getEdgeCount = tr.graphOfStops.getEdgeCount
  edges : ∀ id edge, tr.graphOfStops.getEdge id = .ok edge →
    ∃ edge', tr'.graphOfStops.getEdge id = .ok edge' ∧ edge'.source = edge.source ∧
      edge'.target = edge.target ∧ edge'.weight = edge.weight
  incidenceLists : tr'.graphOfStops.incidenceLists = tr.graphOfStops.incidenceLists
  weights : ∃ router, Router.ofGraph tr'.graphOfStops = .ok router ∧
    ∀ u v, (router.routesInternalData.get u v).map (fun data => data.weight) =
      (tr.router.routesInternalData.get u v).map fun data => data.weight

variable {rs : RoutingSettings} {db db' : TransportCatalogue} {tr tr' : TransportRouter W}

omit [NatCast W] [Mul W] [Div W] in
theorem Restored.not_sameGraph (h : Restored tr db' tr') {id : EdgeId} {edge : Edge W}
    (hedge : tr.graphOfStops.getEdge id = .ok edge) (hne : edge.source ≠ edge.target) :
    ¬ SameGraph tr tr' := by
  intro hsame
  obtain ⟨edge', hedge', -, htarget, -⟩ := hsame.edges id edge hedge
  rw [DirectedWeightedGraph.getEdge_eq_ok_iff] at hedge hedge'
  rw [h.graph, turnedBack, List.getElem?_map, hedge, Option.map_some, Option.some.injEq] at hedge'
  rw [← hedge'] at htarget
  exact hne htarget

omit [NatCast W] [Mul W] [Div W] in
theorem Restored.sameGraph (h : Restored tr db' tr')
    (hrouter : Router.ofGraph tr.graphOfStops = .ok tr.router)
    (hempty : tr.graphOfStops.edges = []) : SameGraph tr tr' := by
  have hgraph : tr'.graphOfStops = tr.graphOfStops := by
    rw [h.graph, turnedBack, hempty, List.map_nil, ← hempty]
  exact ⟨by rw [hgraph], fun id edge hedge => ⟨edge, by rw [hgraph, hedge], rfl, rfl, rfl⟩,
    by rw [hgraph], tr.router, by rw [hgraph, hrouter], fun _ _ => rfl⟩

theorem Made.getEdge_zero (h : Made rs db tr) (hstops : db.allStops ≠ []) :
    tr.graphOfStops.getEdge 0 = .ok ⟨0, 1, (rs.busWaitTime.toNat : W)⟩ := by
  have hlength : 0 < db.allStops.length := List.length_pos_iff.mpr hstops
  rw [DirectedWeightedGraph.getEdge_eq_ok_iff]
  have hedges : tr.graphOfStops.edges = (allTrips rs db).map Trip.edge := h.holds.edges
  rw [hedges, allTrips, List.map_append, List.getElem?_append_left (by simpa using hlength)]
  simp [hlength, waitTrip]

theorem Made.edges_eq_nil (h : Made rs db tr) (hdb : StoreInv db) (hstops : db.allStops = []) :
    tr.graphOfStops.edges = [] := by
  have hedges : tr.graphOfStops.edges = (allTrips rs db).map Trip.edge := h.holds.edges
  have hbuses : ∀ bus ∈ db.allBuses, (busTrips rs db bus : List (Trip W)) = [] := by
    intro bus hbus
    have hnone : bus.stops = [] := by
      rw [List.eq_nil_iff_forall_not_mem]
      intro p hp
      have hlt := hdb.busStops bus hbus p hp
      rw [hstops] at hlt
      exact Nat.not_lt_zero p hlt
    simp [busTrips, hnone, ridesAlong]
  have hrides : (db.allBuses.flatMap (busTrips rs db) : List (Trip W)) = [] :=
    List.flatMap_eq_nil_iff.mpr hbuses
  rw [hedges, allTrips, hrides, hstops]
  rfl

/-- The graph of a router survives being saved and read exactly if there are no
stops. -/
theorem deserialized_sameGraph_iff (calls : List Call) (rs : RoutingSettings)
    (tr : TransportRouter W) (hmake : make rs (run calls) = .ok tr)
    (hvertices : tr.graphOfStops.getVertexCount < 2 ^ 32)
    (hedges : tr.graphOfStops.getEdgeCount < 2 ^ 32)
    (stopOrder : Iteration Str StopVertices) (edgeOrder : Iteration EdgeId (ComponentTrip W))
    (stopOrder' : Iteration UInt32 RouterSerialize.VertexId)
    (edgeOrder' : Iteration UInt32 (RouterSerialize.ComponentTrip W)) :
    (∃ proto tr', saveToProto stopOrder edgeOrder tr = .ok proto ∧
        deserializeTransportRouter stopOrder' edgeOrder' proto tr.db = .ok tr' ∧
        SameGraph tr tr') ↔ (run calls).allStops = [] := by
  have hdb := (run_inv calls).toStoreInv
  have h := make_made hdb hmake
  have hsave := saveToProto_spec h hdb stopOrder edgeOrder
  obtain ⟨tr', hload, hrestored⟩ := deserialize_saveToProto h hdb stopOrder edgeOrder hdb rfl
    hvertices hedges stopOrder' edgeOrder'
  rw [h.catalogue]
  constructor
  · rintro ⟨proto, tr'', hproto, htr'', hsame⟩
    cases hsave.symm.trans hproto
    cases hload.symm.trans htr''
    by_contra hstops
    exact hrestored.not_sameGraph (h.getEdge_zero hstops) Nat.zero_ne_one hsame
  · intro hstops
    exact ⟨_, tr', hsave, hload, hrestored.sameGraph h.router (h.edges_eq_nil hdb hstops)⟩

theorem deserialized_sameGraph_iff_line :
    ∃ tr : TransportRouter ℚ, make ⟨6, 40⟩ (run lineCalls) = .ok tr ∧
      ¬ ∃ proto tr', saveToProto .ofEntries .ofEntries tr = .ok proto ∧
        deserializeTransportRouter .ofEntries .ofEntries proto tr.db = .ok tr' ∧
        SameGraph tr tr' := by
  obtain ⟨tr, hmake⟩ := exists_make_line
  have h := make_made (run_inv lineCalls).toStoreInv hmake
  have hvertices : tr.graphOfStops.getVertexCount = 4 := h.holds.vertexCount
  have hcount : (allTrips ⟨6, 40⟩ (run lineCalls) : List (Trip ℚ)).length = 4 := by decide +kernel
  refine ⟨tr, hmake, ?_⟩
  rw [deserialized_sameGraph_iff lineCalls ⟨6, 40⟩ tr hmake (by rw [hvertices]; decide)
    (by rw [h.getEdgeCount, hcount]; decide)]
  decide

/-- A single stop is enough: its edge from vertex `0` to vertex `1` comes back
as an edge from vertex `0` to itself. -/
theorem not_sameGraph_stop :
    ∃ (tr tr' : TransportRouter ℚ) (proto : RouterSerialize.TransportRouter ℚ),
      make ⟨6, 40⟩ (run [.addStop ['A'] ⟨1, 1⟩]) = .ok tr ∧
        saveToProto .ofEntries .ofEntries tr = .ok proto ∧
        deserializeTransportRouter .ofEntries .ofEntries proto tr.db = .ok tr' ∧
        tr.graphOfStops.getEdge 0 = .ok ⟨0, 1, 6⟩ ∧ tr'.graphOfStops.getEdge 0 = .ok ⟨0, 0, 6⟩ ∧
        ¬ SameGraph tr tr' := by
  have hdb := (run_inv [.addStop ['A'] ⟨1, 1⟩]).toStoreInv
  obtain ⟨tr, hmake⟩ : ∃ tr : TransportRouter ℚ,
      make ⟨6, 40⟩ (run [.addStop ['A'] ⟨1, 1⟩]) = .ok tr := exists_ok_of_isOk (by decide +kernel)
  have h := make_made hdb hmake
  have hvertices : tr.graphOfStops.getVertexCount = 2 := h.holds.vertexCount
  have hcount : (allTrips ⟨6, 40⟩ (run [.addStop ['A'] ⟨1, 1⟩]) : List (Trip ℚ)).length = 1 := by
    decide +kernel
  obtain ⟨tr', hload, hrestored⟩ := deserialize_saveToProto h hdb .ofEntries .ofEntries hdb rfl
    (by rw [hvertices]; decide) (by rw [h.getEdgeCount, hcount]; decide) .ofEntries .ofEntries
  have hedge : tr.graphOfStops.getEdge 0 = .ok ⟨0, 1, 6⟩ := h.getEdge_zero (by decide)
  refine ⟨tr, tr', _, hmake, saveToProto_spec h hdb .ofEntries .ofEntries, h.catalogue ▸ hload,
    hedge, ?_, hrestored.not_sameGraph hedge Nat.zero_ne_one⟩
  rw [DirectedWeightedGraph.getEdge_eq_ok_iff] at hedge ⊢
  rw [hrestored.graph, turnedBack, List.getElem?_map, hedge]
  rfl

end TransportSystem.TransportRouter
