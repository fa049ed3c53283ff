import Mathlib.Data.List.Infix
import Mathlib.Data.List.Nodup
import TransportSystem.RouterCorrectness

/-!
What a graph holds after any sequence of calls of `AddEdge` whose exceptions are
caught. A call with a source that is no vertex throws after its edge was stored:
the edge keeps its id and is in no incidence list.
-/

namespace TransportSystem.Graph.DirectedWeightedGraph

variable {W : Type}

/-- The graph after a sequence of calls of `AddEdge`. -/
def addEdges (g : DirectedWeightedGraph W) (edges : List (Edge W)) : DirectedWeightedGraph W :=
  edges.foldl (fun g edge => (g.addEdge edge).2) g

/-- The ids of the edges that leave a vertex. -/
def idsFrom (edges : List (Edge W)) (vertex : VertexId) : List EdgeId :=
  (List.range edges.length).filter fun id => edges[id]?.any fun edge => edge.source = vertex

/-- The graph whose incidence lists are those of its edges, also of edges that
leave no vertex. -/
def ofEdges (vertexCount : Nat) (edges : List (Edge W)) : DirectedWeightedGraph W :=
  { edges := edges, incidenceLists := (List.range vertexCount).map (idsFrom edges) }

section IdsFrom

variable {edges : List (Edge W)} {vertex : VertexId} {id : EdgeId}

theorem mem_idsFrom :
    id ∈ idsFrom edges vertex ↔ ∃ edge : Edge W, edges[id]? = some edge ∧ edge.source = vertex := by
  simp only [idsFrom, List.mem_filter, List.mem_range, Option.any_eq_true, decide_eq_true_eq]
  constructor
  · rintro ⟨-, edge, hedge, hsource⟩
    exact ⟨edge, hedge, hsource⟩
  · rintro ⟨edge, hedge, hsource⟩
    exact ⟨(List.getElem?_eq_some_iff.mp hedge).1, edge, hedge, hsource⟩

theorem pairwise_idsFrom (edges : List (Edge W)) (vertex : VertexId) :
    (idsFrom edges vertex).Pairwise (· < ·) :=
  List.pairwise_lt_range.filter _

theorem idsFrom_append (edges : List (Edge W)) (edge : Edge W) (vertex : VertexId) :
    idsFrom (edges ++ [edge]) vertex =
      if edge.source = vertex then idsFrom edges vertex ++ [edges.length]
      else idsFrom edges vertex := by
  have hold : ((List.range edges.length).filter fun id =>
      (edges ++ [edge])[id]?.any fun edge => edge.source = vertex) = idsFrom edges vertex := by
    refine List.filter_congr fun id hid => ?_
    rw [List.getElem?_append_left (List.mem_range.mp hid)]
  rw [idsFrom, List.length_append, List.length_singleton, List.range_succ, List.filter_append, hold]
  by_cases hsource : edge.source = vertex <;> simp [hsource]

end IdsFrom

section Calls

variable (vertexCount : Nat)

theorem ofVertexCount_eq_ofEdges :
    (ofVertexCount vertexCount : DirectedWeightedGraph W) = ofEdges vertexCount [] := by
  have hnone : (idsFrom ([] : List (Edge W))) = fun _ => [] := rfl
  rw [ofVertexCount, ofEdges, hnone, List.map_const', List.length_range]

/-- What a call of `AddEdge` does, whether it throws or not. -/
theorem addEdge_ofEdges (edges : List (Edge W)) (edge : Edge W) :
    (ofEdges vertexCount edges).addEdge edge =
      (if edge.source < vertexCount then .ok edges.length else .error .outOfRange,
        ofEdges vertexCount (edges ++ [edge])) := by
  have hlength : (ofEdges vertexCount edges).incidenceLists.length = vertexCount := by
    simp [ofEdges]
  have hid : (edges ++ [edge]).length - 1 = edges.length := by simp
  by_cases hsource : edge.source < vertexCount
  · have hlists : ((List.range vertexCount).map (idsFrom edges)).modify edge.source
        (· ++ [edges.length]) = (List.range vertexCount).map (idsFrom (edges ++ [edge])) := by
      refine List.ext_getElem? fun v => ?_
      rw [List.getElem?_modify, List.getElem?_map, List.getElem?_map]
      by_cases hv : v < vertexCount
      · rw [List.getElem?_range hv]
        simp only [Option.map_eq_map, Option.map_some, idsFrom_append]
      · simp [not_lt.mp hv]
    rw [addEdge, hlength, if_pos hsource, if_pos hsource]
    simp only [ofEdges, hid, hlists]
  · have hlists : (List.range vertexCount).map (idsFrom edges) =
        (List.range vertexCount).map (idsFrom (edges ++ [edge])) := by
      refine List.map_congr_left fun v hv => ?_
      have hne : edge.source ≠ v := fun heq => hsource (heq ▸ List.mem_range.mp hv)
      rw [idsFrom_append, if_neg hne]
    rw [addEdge, hlength, if_neg hsource, if_neg hsource]
    simp only [ofEdges, hlists]

theorem addEdges_append (g : DirectedWeightedGraph W) (calls : List (Edge W)) (edge : Edge W) :
    g.addEdges (calls ++ [edge]) = ((g.addEdges calls).addEdge edge).2 :=
  List.foldl_append

/-- What a sequence of calls leaves, whichever of them throw. -/
theorem addEdges_eq_ofEdges (calls : List (Edge W)) :
    (ofVertexCount vertexCount).addEdges calls = ofEdges vertexCount calls := by
  induction calls using List.reverseRecOn with
  | nil => exact ofVertexCount_eq_ofEdges vertexCount
  | append_singleton calls edge ih =>
      rw [addEdges_append, ih, addEdge_ofEdges]

end Calls

/-- The edges and the incidence lists say the same: every edge is once in the
lists, in that of the vertex it leaves, and every list is strictly increasing. -/
structure Represented (g : DirectedWeightedGraph W) : Prop where
  once : ∀ id, id < g.getEdgeCount → g.incidenceLists.flatten.count id = 1
  source : ∀ id, id < g.getEdgeCount → ∃ edge ids, g.getEdge id = .ok edge ∧
    g.getIncidentEdges edge.source = .ok ids ∧ id ∈ ids
  increasing : ∀ v ids, g.getIncidentEdges v = .ok ids → ids.Pairwise (· < ·)

/-- A call of `AddEdge` returns the id of the edge just given, or throws and
leaves the graph unchanged. -/
structure Answered (g : DirectedWeightedGraph W) (edge : Edge W) : Prop where
  returned : ∀ id, (g.addEdge edge).1 = .ok id → (g.addEdge edge).2.getEdge id = .ok edge
  thrown : ∀ failure, (g.addEdge edge).1 = .error failure → (g.addEdge edge).2 = g

/-- Every graph of a history is represented, and every call is answered. -/
structure KeepsRepresentation (vertexCount : Nat) (calls : List (Edge W)) : Prop where
  represented : ∀ pre, pre <+: calls → ((ofVertexCount vertexCount).addEdges pre).Represented
  answered : ∀ pre edge, pre ++ [edge] <+: calls →
    ((ofVertexCount vertexCount).addEdges pre).Answered edge

section OfEdges

variable {vertexCount : Nat} {edges : List (Edge W)} {id : EdgeId}

theorem getIncidentEdges_ofEdges {v : VertexId} {ids : List EdgeId} :
    (ofEdges vertexCount edges).getIncidentEdges v = .ok ids ↔
      v < vertexCount ∧ ids = idsFrom edges v := by
  rw [getIncidentEdges_eq_ok_iff, ofEdges, List.getElem?_map]
  by_cases hv : v < vertexCount
  · rw [List.getElem?_range hv, Option.map_some, Option.some.injEq, eq_comm]
    simp [hv]
  · simp [hv]

theorem nodup_flatten_ofEdges (vertexCount : Nat) (edges : List (Edge W)) :
    (ofEdges vertexCount edges).incidenceLists.flatten.Nodup := by
  rw [ofEdges, ← List.flatMap_def, List.nodup_flatMap]
  refine ⟨fun v _ => (pairwise_idsFrom edges v).imp Nat.ne_of_lt, ?_⟩
  refine List.nodup_range.imp fun {v v'} hne => ?_
  intro id hid hid'
  obtain ⟨edge, hedge, rfl⟩ := mem_idsFrom.mp hid
  obtain ⟨edge', hedge', rfl⟩ := mem_idsFrom.mp hid'
  cases hedge.symm.trans hedge'
  exact hne rfl

theorem mem_flatten_ofEdges :
    id ∈ (ofEdges vertexCount edges).incidenceLists.flatten ↔
      ∃ edge : Edge W, edges[id]? = some edge ∧ edge.source < vertexCount := by
  rw [ofEdges, ← List.flatMap_def, List.mem_flatMap]
  constructor
  · rintro ⟨v, hv, hid⟩
    obtain ⟨edge, hedge, rfl⟩ := mem_idsFrom.mp hid
    exact ⟨edge, hedge, List.mem_range.mp hv⟩
  · rintro ⟨edge, hedge, hsource⟩
    exact ⟨edge.source, List.mem_range.mpr hsource, mem_idsFrom.mpr ⟨edge, hedge, rfl⟩⟩

/-- The edges that no incidence list has are those of the calls that threw. -/
theorem count_flatten_ofEdges {edge : Edge W} (hedge : edges[id]? = some edge) :
    (ofEdges vertexCount edges).incidenceLists.flatten.count id =
      if edge.source < vertexCount then 1 else 0 := by
  split
  · rename_i hsource
    exact List.count_eq_one_of_mem (nodup_flatten_ofEdges vertexCount edges)
      (mem_flatten_ofEdges.mpr ⟨edge, hedge, hsource⟩)
  · rename_i hsource
    refine List.count_eq_zero_of_not_mem fun hid => ?_
    obtain ⟨edge', hedge', hsource'⟩ := mem_flatten_ofEdges.mp hid
    cases hedge.symm.trans hedge'
    exact hsource hsource'

/-- The incidence lists are strictly increasing after any calls. -/
theorem increasing_ofEdges {v : VertexId} {ids : List EdgeId}
    (hids : (ofEdges vertexCount edges).getIncidentEdges v = .ok ids) : ids.Pairwise (· < ·) := by
  obtain ⟨-, rfl⟩ := getIncidentEdges_ofEdges.mp hids
  exact pairwise_idsFrom edges v

theorem represented_ofEdges_iff :
    (ofEdges vertexCount edges).Represented ↔ ∀ edge ∈ edges, edge.source < vertexCount := by
  constructor
  · intro h edge hmem
    obtain ⟨id, hedge⟩ := List.mem_iff_getElem?.mp hmem
    have honce := h.once id (List.getElem?_eq_some_iff.mp hedge).1
    rw [count_flatten_ofEdges hedge] at honce
    by_contra hsource
    rw [if_neg hsource] at honce
    cases honce
  · intro h
    have hget : ∀ id, id < edges.length →
        ∃ edge : Edge W, edges[id]? = some edge ∧ edge.source < vertexCount := fun id hid =>
      ⟨edges[id], List.getElem?_eq_getElem hid, h _ (List.getElem_mem hid)⟩
    refine ⟨fun id hid => ?_, fun id hid => ?_, fun _ _ => increasing_ofEdges⟩
    · obtain ⟨edge, hedge, hsource⟩ := hget id hid
      rw [count_flatten_ofEdges hedge, if_pos hsource]
    · obtain ⟨edge, hedge, hsource⟩ := hget id hid
      exact ⟨edge, _, getEdge_eq_ok_iff.mpr hedge, getIncidentEdges_ofEdges.mpr ⟨hsource, rfl⟩,
        mem_idsFrom.mpr ⟨edge, hedge, rfl⟩⟩

/-- A returned id is that of the edge given, after any calls before. -/
theorem returned_ofEdges {edge : Edge W}
    (h : ((ofEdges vertexCount edges).addEdge edge).1 = .ok id) :
    ((ofEdges vertexCount edges).addEdge edge).2.getEdge id = .ok edge := by
  rw [addEdge_ofEdges] at h ⊢
  have hid : id = edges.length := by
    dsimp only at h
    split at h <;> cases h
    rfl
  rw [hid, getEdge_eq_ok_iff]
  exact List.getElem?_concat_length

theorem answered_ofEdges_iff {edge : Edge W} :
    (ofEdges vertexCount edges).Answered edge ↔ edge.source < vertexCount := by
  constructor
  · intro h
    by_contra hsource
    have hthrown := h.thrown .outOfRange (by rw [addEdge_ofEdges, if_neg hsource])
    rw [addEdge_ofEdges] at hthrown
    have hlength := congrArg getEdgeCount hthrown
    simp [getEdgeCount, ofEdges] at hlength
  · intro hsource
    refine ⟨fun _ => returned_ofEdges, fun failure h => ?_⟩
    rw [addEdge_ofEdges, if_pos hsource] at h
    cases h

theorem getVertexCount_ofEdges (vertexCount : Nat) (edges : List (Edge W)) :
    (ofEdges vertexCount edges).getVertexCount = vertexCount := by
  simp [getVertexCount, ofEdges]

/-- The graph is one for a router exactly if every call gave an edge between
vertices. -/
theorem inv_ofEdges_iff :
    (ofEdges vertexCount edges).Inv ↔
      ∀ edge ∈ edges, edge.source < vertexCount ∧ edge.target < vertexCount := by
  constructor
  · intro h edge hedge
    have hsource := h.source_lt edge hedge
    have htarget := h.target_lt edge hedge
    rw [getVertexCount_ofEdges] at hsource htarget
    exact ⟨hsource, htarget⟩
  · intro h
    refine ⟨fun v ids hids id => ?_, fun edge hedge => ?_, fun edge hedge => ?_⟩
    · obtain ⟨-, rfl⟩ := getIncidentEdges_ofEdges.mp (getIncidentEdges_eq_ok_iff.mpr hids)
      exact mem_idsFrom
    · rw [getVertexCount_ofEdges]
      exact (h edge hedge).1
    · rw [getVertexCount_ofEdges]
      exact (h edge hedge).2

end OfEdges

/-- A history keeps the edges and the incidence lists together exactly if every
call gives an edge that leaves a vertex. -/
theorem keepsRepresentation_iff (vertexCount : Nat) (calls : List (Edge W)) :
    KeepsRepresentation vertexCount calls ↔ ∀ edge ∈ calls, edge.source < vertexCount := by
  constructor
  · intro h
    have hlast := h.represented calls List.prefix_rfl
    rwa [addEdges_eq_ofEdges, represented_ofEdges_iff] at hlast
  · intro h
    refine ⟨fun pre hpre => ?_, fun pre edge hpre => ?_⟩
    · rw [addEdges_eq_ofEdges, represented_ofEdges_iff]
      exact fun edge hedge => h edge (hpre.subset hedge)
    · rw [addEdges_eq_ofEdges, answered_ofEdges_iff]
      exact h edge (hpre.subset (by simp))

/-- On a graph with one vertex a call from vertex `1` throws, and leaves an edge
behind that is in no list. -/
theorem not_keepsRepresentation_absent :
    ((ofVertexCount 1 : DirectedWeightedGraph ℚ).addEdge ⟨1, 0, 5⟩).1 = .error .outOfRange ∧
      ((ofVertexCount 1 : DirectedWeightedGraph ℚ).addEdge ⟨1, 0, 5⟩).2.getEdge 0 = .ok ⟨1, 0, 5⟩ ∧
      ((ofVertexCount 1 : DirectedWeightedGraph ℚ).addEdge ⟨1, 0, 5⟩).2.incidenceLists = [[]] ∧
      ¬ KeepsRepresentation 1 [(⟨1, 0, 5⟩ : Edge ℚ)] := by
  refine ⟨rfl, rfl, rfl, fun h => ?_⟩
  have honce := (h.represented _ List.prefix_rfl).once 0 (by decide)
  exact absurd honce (by decide)

end TransportSystem.Graph.DirectedWeightedGraph
