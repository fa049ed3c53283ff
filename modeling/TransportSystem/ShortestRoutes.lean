import Mathlib.Algebra.BigOperators.Group.List.Basic
import Mathlib.Algebra.Order.Ring.Int
import TransportSystem.GraphHistory

namespace TransportSystem.Graph

open Library.FloydWarshall

namespace DirectedWeightedGraph

variable {W : Type}

theorem addEdges_ofVertexCount {vertexCount : Nat} (edges : List (Edge W))
    (hends : ∀ edge ∈ edges, edge.source < vertexCount ∧ edge.target < vertexCount) :
    ((ofVertexCount vertexCount).addEdges edges).edges = edges ∧
      ((ofVertexCount vertexCount).addEdges edges).getVertexCount = vertexCount ∧
      ((ofVertexCount vertexCount).addEdges edges).Inv := by
  rw [addEdges_eq_ofEdges]
  exact ⟨rfl, getVertexCount_ofEdges vertexCount edges, inv_ofEdges_iff.mpr hends⟩

theorem getEdge_of_isEdge {g : DirectedWeightedGraph W} {id : EdgeId} {u v : VertexId} {w : W}
    (h : g.IsEdge id u v w) : g.getEdge id = .ok ⟨u, v, w⟩ :=
  getEdge_eq_ok_iff.mpr h

end DirectedWeightedGraph

section Leads

variable {W : Type}

/-- A list of edges leads from the first vertex to the second, each edge
starting where the one before it ends. -/
def Leads (u v : VertexId) : List (Edge W) → Prop
  | [] => u = v
  | edge :: edges => edge.source = u ∧ Leads edge.target v edges

/-- The sum of the weights of the edges. -/
def totalWeight [AddMonoid W] (edges : List (Edge W)) : W := (edges.map Edge.weight).sum

theorem leads_concat {u v : VertexId} {edges : List (Edge W)} {edge : Edge W} :
    Leads u v (edges ++ [edge]) ↔ Leads u edge.source edges ∧ edge.target = v := by
  induction edges generalizing u with
  | nil => simp [Leads, eq_comm]
  | cons e edges ih => simp [Leads, ih, and_assoc]

theorem totalWeight_concat [AddMonoid W] (edges : List (Edge W)) (edge : Edge W) :
    totalWeight (edges ++ [edge]) = totalWeight edges + edge.weight := by
  simp [totalWeight]

variable {g : DirectedWeightedGraph W}

theorem mapM_getEdge_concat {ids : List EdgeId} {edges : List (Edge W)} {id : EdgeId}
    {edge : Edge W} (hids : ids.mapM g.getEdge = .ok edges) (hid : g.getEdge id = .ok edge) :
    (ids ++ [id]).mapM g.getEdge = .ok (edges ++ [edge]) := by
  rw [List.mapM_append, hids, List.mapM_cons, hid]
  rfl

theorem exists_edges_of_walk [AddMonoid W] {u v : VertexId} {ids : List EdgeId} {w : W}
    (h : Walk g.IsEdge u v ids w) :
    ∃ edges, ids.mapM g.getEdge = .ok edges ∧ (∀ edge ∈ edges, edge ∈ g.edges) ∧
      Leads u v edges ∧ totalWeight edges = w := by
  induction h with
  | nil => exact ⟨[], rfl, by simp, rfl, rfl⟩
  | @snoc v x ids w c id _ hedge ih =>
      obtain ⟨edges, hids, hmem, hleads, hw⟩ := ih
      refine ⟨edges ++ [⟨v, x, c⟩],
        mapM_getEdge_concat hids (DirectedWeightedGraph.getEdge_of_isEdge hedge), ?_,
        leads_concat.mpr ⟨hleads, rfl⟩, by rw [totalWeight_concat, hw]⟩
      intro edge he
      rcases List.mem_append.mp he with he | he
      · exact hmem edge he
      · cases List.mem_singleton.mp he
        exact List.mem_of_getElem? hedge

theorem exists_walk_of_leads [AddMonoid W] {u v : VertexId} {edges : List (Edge W)}
    (hmem : ∀ edge ∈ edges, edge ∈ g.edges) (h : Leads u v edges) :
    ∃ ids, Walk g.IsEdge u v ids (totalWeight edges) := by
  induction edges using List.reverseRecOn generalizing v with
  | nil =>
      cases h
      exact ⟨[], .nil u⟩
  | append_singleton edges edge ih =>
      obtain ⟨hleads, rfl⟩ := leads_concat.mp h
      obtain ⟨ids, hwalk⟩ := ih (fun e he => hmem e (by simp [he])) hleads
      obtain ⟨id, hid⟩ := List.mem_iff_getElem?.mp (hmem edge (by simp))
      rw [totalWeight_concat]
      exact ⟨ids ++ [id], .snoc hwalk hid⟩

theorem vertices_of_trace {M : Table VertexId W EdgeId} {i j : VertexId} {ids : List EdgeId}
    {vs : List VertexId} (h : Trace g.IsEdge M i j ids vs) :
    ∃ edges, ids.reverse.mapM g.getEdge = .ok edges ∧
      vs.reverse = i :: edges.map Edge.target := by
  induction h with
  | start => exact ⟨[], rfl, rfl⟩
  | @step j u r id w ids vs _ _ hedge _ ih =>
      obtain ⟨edges, hids, hvs⟩ := ih
      refine ⟨edges ++ [⟨u, j, w⟩], ?_, by simp [hvs]⟩
      rw [List.reverse_cons]
      exact mapM_getEdge_concat hids (DirectedWeightedGraph.getEdge_of_isEdge hedge)

/-- A walk that comes back to its start without visiting a vertex twice has no
edges. -/
theorem leads_self_iff {u v : VertexId} {route : List (Edge W)} (hleads : Leads u v route)
    (hnodup : (u :: route.map Edge.target).Nodup) : route = [] ↔ u = v := by
  constructor
  · rintro rfl
    exact hleads
  · rintro rfl
    cases route using List.reverseRecOn with
    | nil => rfl
    | append_singleton route edge =>
        obtain ⟨-, htarget⟩ := leads_concat.mp hleads
        exact absurd (by simp [htarget]) (List.nodup_cons.mp hnodup).1

end Leads

namespace Router

section Shortest

variable {W : Type} [AddCommMonoid W] [LinearOrder W] [IsOrderedCancelAddMonoid W]

/-- The total weights of the walks between two vertices along given edges. -/
def walkWeights (edges : List (Edge W)) (u v : VertexId) : Set W :=
  {w | ∃ walk, (∀ edge ∈ walk, edge ∈ edges) ∧ Leads u v walk ∧ totalWeight walk = w}

omit [LinearOrder W] [IsOrderedCancelAddMonoid W] in
theorem mem_walkWeights_iff {g : DirectedWeightedGraph W} {u v : VertexId} {w : W} :
    w ∈ walkWeights g.edges u v ↔ ∃ ids, Walk g.IsEdge u v ids w := by
  constructor
  · rintro ⟨walk, hmem, hleads, rfl⟩
    exact exists_walk_of_leads hmem hleads
  · rintro ⟨ids, hwalk⟩
    obtain ⟨walk, -, hmem, hleads, hw⟩ := exists_edges_of_walk hwalk
    exact ⟨walk, hmem, hleads, hw⟩

/-- An entry of a built table is empty without a walk, and holds the least
weight of a walk otherwise. -/
theorem Built.entry_spec {g : DirectedWeightedGraph W} {router : Router W} (h : Built g router)
    (hg : g.Inv) {u v : VertexId} (hu : u < g.getVertexCount) :
    (router.routesInternalData.get u v = none ↔ walkWeights g.edges u v = ∅) ∧
      ∀ r, router.routesInternalData.get u v = some r →
        IsLeast (walkWeights g.edges u v) r.weight := by
  have hweights : walkWeights g.edges u v = {w | ∃ ids, Walk g.IsEdge u v ids w} :=
    Set.ext fun w => mem_walkWeights_iff
  have hleast : ∀ r, router.routesInternalData.get u v = some r →
      IsLeast (walkWeights g.edges u v) r.weight := by
    intro r hr
    rw [hweights]
    exact h.relaxed.isLeast g.isEdge_functional hg.complete hr
  refine ⟨⟨fun hnone => ?_, fun hempty => ?_⟩, hleast⟩
  · refine Set.eq_empty_iff_forall_notMem.mpr fun w hw => ?_
    obtain ⟨ids, hwalk⟩ := mem_walkWeights_iff.mp hw
    obtain ⟨r, hr, -⟩ := h.relaxed.le_of_walk hg.complete hwalk (h.diag u hu)
    cases hnone.symm.trans hr
  · refine Option.eq_none_iff_forall_ne_some.mpr fun r hr => ?_
    have hmem := (hleast r hr).1
    rw [hempty] at hmem
    exact hmem

/-- The router of a graph made by calls of `AddEdge`: the constructor throws
exactly on a negative edge, and otherwise computes all shortest distances. -/
theorem ofGraph_isLeast (vertexCount : Nat) (edges : List (Edge W))
    (hends : ∀ edge ∈ edges, edge.source < vertexCount ∧ edge.target < vertexCount) :
    (ofGraph ((DirectedWeightedGraph.ofVertexCount vertexCount).addEdges edges) =
          .error (.domainError "Edges' weights should be non-negative") ↔
        ∃ edge ∈ edges, edge.weight < 0) ∧
      ((∀ edge ∈ edges, 0 ≤ edge.weight) →
        ∃ router,
          ofGraph ((DirectedWeightedGraph.ofVertexCount vertexCount).addEdges edges) =
              .ok router ∧
            (∀ u < vertexCount, ∀ v < vertexCount,
              (router.routesInternalData.get u v = none ↔ walkWeights edges u v = ∅) ∧
                ∀ r, router.routesInternalData.get u v = some r →
                  IsLeast (walkWeights edges u v) r.weight) ∧
            ∀ v < vertexCount, router.routesInternalData.get v v = some ⟨0, none⟩) := by
  obtain ⟨hedges, hcount, hinv⟩ := DirectedWeightedGraph.addEdges_ofVertexCount edges hends
  rcases ofGraph_spec hinv with ⟨router, heq, hbuilt, hpos⟩ | ⟨heq, edge, hedge, hneg⟩
  · rw [hedges] at hpos
    rw [heq]
    refine ⟨⟨fun h => (by cases h), ?_⟩, fun _ => ⟨router, rfl, ?_, ?_⟩⟩
    · rintro ⟨edge, hedge, hneg⟩
      exact absurd (hpos edge hedge) (not_le.mpr hneg)
    · intro u hu v hv
      simpa only [hedges] using hbuilt.entry_spec (v := v) hinv (hcount.symm ▸ hu)
    · intro v hv
      exact hbuilt.diag v (hcount.symm ▸ hv)
  · rw [hedges] at hedge
    rw [heq]
    refine ⟨iff_of_true rfl ⟨edge, hedge, hneg⟩, fun hpos => ?_⟩
    exact absurd (hpos edge hedge) (not_le.mpr hneg)

/-- Parallel edges, a loop and a cycle without weight. -/
def cycleEdges : List (Edge ℤ) := [⟨0, 1, 5⟩, ⟨0, 1, 2⟩, ⟨1, 1, 0⟩, ⟨1, 2, 0⟩, ⟨2, 1, 0⟩]

/-- The router of a graph with the edges of `cycleEdges` and one more vertex. -/
theorem ofGraph_cycle {router : Router ℤ}
    (h : ofGraph ((DirectedWeightedGraph.ofVertexCount 4).addEdges cycleEdges) = .ok router) :
    router.routesInternalData.get 0 2 = some ⟨2, some 3⟩ ∧
      router.routesInternalData.get 0 3 = none := by
  have hget : (do
      let router ← ofGraph ((DirectedWeightedGraph.ofVertexCount 4).addEdges cycleEdges)
      pure (router.routesInternalData.get 0 2, router.routesInternalData.get 0 3) :
        Except Failure _) = .ok (some ⟨2, some 3⟩, none) := by
    decide +kernel
  rw [h] at hget
  exact Prod.mk.inj (Except.ok.inj hget)

/-- The loop of `BuildRoute` ends after one turn for each edge of a walk that
visits no vertex twice. -/
theorem Built.buildRoute_simple {g : DirectedWeightedGraph W} {router : Router W}
    (h : Built g router) (hg : g.Inv) {u v : VertexId} (hu : u < g.getVertexCount)
    (hv : v < g.getVertexCount) {r : RouteInternalData W}
    (hr : router.routesInternalData.get u v = some r) :
    ∃ ids route, router.buildRoute u v = .ok (some ⟨r.weight, ids⟩) ∧
      (∀ fuel, ids.length ≤ fuel → collectEdges router u fuel r.prevEdge = .ok ids.reverse) ∧
      ids.mapM g.getEdge = .ok route ∧ (∀ edge ∈ route, edge ∈ g.edges) ∧ Leads u v route ∧
      totalWeight route = r.weight ∧ (u :: route.map Edge.target).Nodup := by
  obtain ⟨ids, vs, htrace⟩ := h.relaxed.trace u v r hr
  obtain ⟨route, hids, hmem, hleads, hweight⟩ := exists_edges_of_walk
    (h.relaxed.walk_of_trace g.isEdge_functional hg.complete htrace hr)
  obtain ⟨route', hids', hvs⟩ := vertices_of_trace htrace
  cases hids.symm.trans hids'
  refine ⟨ids.reverse, route,
    h.buildRoute_of_trace hu hv htrace hr (h.length_of_trace htrace hr), fun fuel hfuel => ?_,
    hids, hmem, hleads, hweight, ?_⟩
  · rw [List.reverse_reverse]
    exact h.collectEdges_of_trace htrace hr (by simpa using hfuel)
  · rw [← hvs, List.nodup_reverse]
    exact h.relaxed.trace_nodup g.isEdge_functional htrace

/-- On a graph made by calls of `AddEdge` with weights that are not negative,
`BuildRoute` follows the table back to the start and returns a shortest walk that
visits no vertex twice. -/
theorem buildRoute_isLeast (vertexCount : Nat) (edges : List (Edge W))
    (hends : ∀ edge ∈ edges, edge.source < vertexCount ∧ edge.target < vertexCount)
    (hpos : ∀ edge ∈ edges, 0 ≤ edge.weight) :
    ∃ router,
      ofGraph ((DirectedWeightedGraph.ofVertexCount vertexCount).addEdges edges) = .ok router ∧
        ∀ u < vertexCount, ∀ v < vertexCount, ∀ r,
          router.routesInternalData.get u v = some r →
            ∃ ids route, router.buildRoute u v = .ok (some ⟨r.weight, ids⟩) ∧
              (∀ fuel, ids.length ≤ fuel →
                collectEdges router u fuel r.prevEdge = .ok ids.reverse) ∧
              ids.mapM router.graph.getEdge = .ok route ∧ (∀ edge ∈ route, edge ∈ edges) ∧
              Leads u v route ∧ (u :: route.map Edge.target).Nodup ∧ (route = [] ↔ u = v) ∧
              totalWeight route = r.weight ∧ IsLeast (walkWeights edges u v) r.weight := by
  obtain ⟨hedges, hcount, hinv⟩ := DirectedWeightedGraph.addEdges_ofVertexCount edges hends
  rcases ofGraph_spec hinv with ⟨router, heq, hbuilt, -⟩ | ⟨-, edge, hedge, hneg⟩
  · refine ⟨router, heq, fun u hu v hv r hr => ?_⟩
    obtain ⟨ids, route, hbuild, hloop, hids, hmem, hleads, hweight, hnodup⟩ :=
      hbuilt.buildRoute_simple hinv (hcount.symm ▸ hu) (hcount.symm ▸ hv) hr
    have hleast := (hbuilt.entry_spec hinv (hcount.symm ▸ hu)).2 r hr
    rw [hedges] at hmem hleast
    exact ⟨ids, route, hbuild, hloop, hbuilt.graph.symm ▸ hids, hmem, hleads, hnodup,
      leads_self_iff hleads hnodup, hweight, hleast⟩
  · exact absurd (hpos edge (hedges ▸ hedge)) (not_le.mpr hneg)

theorem ofGraph_isLeast_cycle :
    IsLeast (walkWeights cycleEdges 0 2) 2 ∧ walkWeights cycleEdges 0 3 = ∅ := by
  obtain ⟨-, hbuilt⟩ := ofGraph_isLeast 4 cycleEdges (by decide)
  obtain ⟨router, heq, hentry, -⟩ := hbuilt (by decide)
  obtain ⟨hcell, hnone⟩ := ofGraph_cycle heq
  exact ⟨(hentry 0 (by decide) 2 (by decide)).2 _ hcell,
    (hentry 0 (by decide) 3 (by decide)).1.mp hnone⟩

theorem buildRoute_isLeast_cycle :
    ∃ router ids,
      ofGraph ((DirectedWeightedGraph.ofVertexCount 4).addEdges cycleEdges) = .ok router ∧
        router.buildRoute 0 2 = .ok (some ⟨2, ids⟩) ∧
        ∃ route, ids.mapM router.graph.getEdge = .ok route ∧ Leads 0 2 route := by
  obtain ⟨router, heq, hroute⟩ := buildRoute_isLeast 4 cycleEdges (by decide) (by decide)
  obtain ⟨ids, route, hbuild, -, hids, -, hleads, -⟩ :=
    hroute 0 (by decide) 2 (by decide) _ (ofGraph_cycle heq).1
  exact ⟨router, ids, heq, hbuild, route, hids, hleads⟩

end Shortest

end Router

end TransportSystem.Graph
