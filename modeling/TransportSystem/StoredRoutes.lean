import TransportSystem.Router
import TransportSystem.Library.Following

/-!
`BuildRoute` on any table, whatever it was read from. The table leads from a
vertex to the one before it; the loop ends well where that stops at an entry
without an edge.
-/

namespace TransportSystem.Graph.Router

open Library.Following

variable {W : Type} (router : Router W) (origin : VertexId)

/-- The edge by which the table reaches a vertex. -/
def edgeInto (vertex : VertexId) : Option EdgeId := do
  let data ← router.routesInternalData.get origin vertex
  data.prevEdge

/-- The vertex from which that edge comes. -/
def previous (vertex : VertexId) : Option VertexId := do
  let id ← router.edgeInto origin vertex
  let edge ← router.graph.edges[id]?
  pure edge.source

/-- A route from `origin` that is whole in the table, with the edges on it from
the last to the first. -/
def HoldsRoute (target : VertexId) (edges : List EdgeId) : Prop :=
  ∃ vertices first, Follows (router.previous origin) target vertices first ∧
    (∃ data, router.routesInternalData.get origin first = some data ∧ data.prevEdge = none) ∧
    edges = vertices.filterMap (router.edgeInto origin)

/-- The table leads from a vertex to an entry where it stops, though maybe at an
edge that the graph does not have. -/
def Stops (target : VertexId) : Prop :=
  ∃ vertices first, Follows (router.previous origin) target vertices first ∧
    router.previous origin first = none ∧ router.routesInternalData.get origin first ≠ none

/-- The rest of the loop from an entry of the table, which is read unchecked. -/
def collectFrom (fuel : Nat) (vertex : VertexId) : Except Failure (List EdgeId) :=
  match router.routesInternalData.get origin vertex with
  | none => .error .undefinedBehaviour
  | some data => router.collectEdges origin fuel data.prevEdge

variable {router origin} {vertex first target : VertexId} {vertices : List VertexId}

theorem previous_eq_some_iff {before : VertexId} :
    router.previous origin vertex = some before ↔
      ∃ data id edge, router.routesInternalData.get origin vertex = some data ∧
        data.prevEdge = some id ∧ router.graph.edges[id]? = some edge ∧ edge.source = before := by
  simp only [previous, edgeInto, Option.bind_eq_bind, Option.bind_eq_some_iff, Option.pure_def,
    Option.some.injEq]
  constructor
  · rintro ⟨id, ⟨data, hdata, hid⟩, edge, hedge, hsource⟩
    exact ⟨data, id, edge, hdata, hid, hedge, hsource⟩
  · rintro ⟨data, id, edge, hdata, hid, hedge, hsource⟩
    exact ⟨id, ⟨data, hdata, hid⟩, edge, hedge, hsource⟩

theorem collectEdges_some (fuel : Nat) (id : EdgeId) :
    router.collectEdges origin (fuel + 1) (some id) = (do
      let edge ← router.graph.getEdge id
      let edges ← router.collectFrom origin fuel edge.source
      pure (id :: edges)) := by
  rw [collectEdges]
  refine bind_congr fun edge => ?_
  unfold collectFrom
  cases router.routesInternalData.get origin edge.source <;> rfl

/-- The loop turns once at every vertex on its way. -/
theorem collectFrom_follows (h : Follows (router.previous origin) vertex vertices first)
    (fuel : Nat) :
    router.collectFrom origin (vertices.length + fuel) vertex = (do
      let edges ← router.collectFrom origin fuel first
      pure (vertices.filterMap (router.edgeInto origin) ++ edges)) := by
  induction h with
  | stay vertex =>
      rw [List.length_nil, Nat.zero_add, List.filterMap_nil]
      exact (bind_pure _).symm
  | @step vertex before first vertices hnext hrest ih =>
      obtain ⟨data, id, edge, hdata, hid, hedge, rfl⟩ := previous_eq_some_iff.mp hnext
      have hinto : router.edgeInto origin vertex = some id := by
        rw [edgeInto, hdata]
        exact hid
      have hturn : router.collectFrom origin (vertices.length + fuel + 1) vertex =
          router.collectEdges origin (vertices.length + fuel + 1) (some id) := by
        rw [collectFrom, hdata, ← hid]
      rw [List.length_cons, Nat.add_right_comm, hturn, collectEdges_some,
        DirectedWeightedGraph.getEdge_eq_ok_iff.mpr hedge, ok_bind, ih,
        List.filterMap_cons_some hinto, bind_assoc]
      rfl

/-- What the loop does where the table leads no further. -/
theorem collectFrom_stopped (hstop : router.previous origin first = none) (fuel : Nat) :
    router.collectFrom origin (fuel + 1) first =
      match router.routesInternalData.get origin first with
      | none => .error .undefinedBehaviour
      | some data => if data.prevEdge = none then .ok [] else .error .outOfRange := by
  unfold collectFrom
  cases hdata : router.routesInternalData.get origin first with
  | none => rfl
  | some data =>
      cases hid : data.prevEdge with
      | none =>
          simp only [hid]
          rfl
      | some id =>
          have hedge : router.graph.edges[id]? = none := by
            cases hedge : router.graph.edges[id]? with
            | none => rfl
            | some edge =>
                rw [previous_eq_some_iff.mpr ⟨data, id, edge, hdata, hid, hedge, rfl⟩] at hstop
                cases hstop
          simp only [hid, collectEdges_some, DirectedWeightedGraph.getEdge, hedge]
          rfl

theorem collectFrom_zero (hnext : router.previous origin first ≠ none) :
    router.collectFrom origin 0 first = .error .diverges := by
  obtain ⟨before, hbefore⟩ := Option.ne_none_iff_exists'.mp hnext
  obtain ⟨data, id, -, hdata, hid, -, -⟩ := previous_eq_some_iff.mp hbefore
  rw [collectFrom, hdata]
  simp only [hid]
  rfl

theorem previous_of_prevEdge {data : RouteInternalData W}
    (hdata : router.routesInternalData.get origin first = some data)
    (hid : data.prevEdge = none) : router.previous origin first = none := by
  rw [previous, edgeInto, hdata]
  simp [hid]

section Row

variable {row : List (Option (RouteInternalData W))}

theorem get_of_row (hrow : router.routesInternalData[origin]? = some row) :
    router.routesInternalData.get origin vertex = row[vertex]?.join := by
  have hget : router.routesInternalData.getD origin [] = row := by
    rw [List.getD_eq_getElem?_getD, hrow, Option.getD_some]
  rw [RoutesInternalData.get, hget, List.getD_eq_getElem?_getD]
  cases row[vertex]? <;> rfl

theorem length_le_row (hrow : router.routesInternalData[origin]? = some row)
    (h : Follows (router.previous origin) vertex vertices first)
    (hstop : router.previous origin first = none) : vertices.length ≤ row.length := by
  rw [← List.length_range (n := row.length)]
  refine h.length_le hstop fun v hv => ?_
  obtain ⟨before, hbefore⟩ := Option.ne_none_iff_exists'.mp hv
  obtain ⟨data, -, -, hdata, -, -, -⟩ := previous_eq_some_iff.mp hbefore
  rw [get_of_row hrow, Option.join_eq_some_iff] at hdata
  exact List.mem_range.mpr (List.getElem?_eq_some_iff.mp hdata).1

variable (hrow : router.routesInternalData[origin]? = some row) {data : RouteInternalData W}
  (hdata : row[target]? = some (some data))
include hrow hdata

theorem buildRoute_of_cell :
    router.buildRoute origin target = (do
      let edges ← router.collectFrom origin (row.length + 1) target
      pure (some ⟨data.weight, edges.reverse⟩)) := by
  unfold buildRoute collectFrom
  rw [get_of_row hrow, hdata]
  simp only [hrow, hdata]
  rfl

/-- Where the table stops decides how the loop ends. -/
theorem buildRoute_stopped (h : Follows (router.previous origin) target vertices first)
    (hstop : router.previous origin first = none) :
    router.buildRoute origin target =
      match router.routesInternalData.get origin first with
      | none => .error .undefinedBehaviour
      | some last =>
          if last.prevEdge = none then
            .ok (some ⟨data.weight, (vertices.filterMap (router.edgeInto origin)).reverse⟩)
          else .error .outOfRange := by
  have hfuel : row.length + 1 = vertices.length + (row.length - vertices.length + 1) := by
    have hle := length_le_row hrow h hstop
    omega
  rw [buildRoute_of_cell hrow hdata, hfuel, collectFrom_follows h, collectFrom_stopped hstop]
  cases router.routesInternalData.get origin first with
  | none => rfl
  | some last =>
      by_cases hlast : last.prevEdge = none
      · simp only [hlast, if_true, ok_bind, List.append_nil]
        rfl
      · simp only [hlast, if_false]
        rfl

/-- A table that leads on for ever keeps the loop going for ever. -/
theorem buildRoute_endless
    (hendless : ∀ vertices first, Follows (router.previous origin) target vertices first →
      router.previous origin first ≠ none) :
    router.buildRoute origin target = .error .diverges := by
  rcases exists_follows (router.previous origin) target (row.length + 1) with
    ⟨vertices, first, h, hstop⟩ | ⟨vertices, first, h, hlength⟩
  · exact absurd hstop (hendless _ _ h)
  · rw [buildRoute_of_cell hrow hdata, ← hlength, ← Nat.add_zero vertices.length,
      collectFrom_follows h, collectFrom_zero (hendless _ _ h)]
    rfl

theorem buildRoute_of_holdsRoute {edges : List EdgeId}
    (h : router.HoldsRoute origin target edges) :
    router.buildRoute origin target = .ok (some ⟨data.weight, edges.reverse⟩) := by
  obtain ⟨vertices, first, hfollows, ⟨last, hlast, hid⟩, rfl⟩ := h
  rw [buildRoute_stopped hrow hdata hfollows (previous_of_prevEdge hlast hid), hlast]
  simp only [hid, if_true]

theorem buildRoute_returns_iff :
    (∃ r, router.buildRoute origin target = .ok r) ↔
      ∃ edges, router.HoldsRoute origin target edges := by
  constructor
  · rintro ⟨r, hr⟩
    by_contra hnot
    refine absurd (hr.symm.trans (buildRoute_endless hrow hdata ?_)) (by simp)
    intro vertices first hfollows hstop
    rw [buildRoute_stopped hrow hdata hfollows hstop] at hr
    split at hr
    · cases hr
    · rename_i last hlast
      split at hr
      · exact hnot ⟨_, vertices, first, hfollows, ⟨last, hlast, ‹_›⟩, rfl⟩
      · cases hr
  · rintro ⟨edges, hedges⟩
    exact ⟨_, buildRoute_of_holdsRoute hrow hdata hedges⟩

theorem buildRoute_stops_iff :
    router.buildRoute origin target ≠ .error .undefinedBehaviour ∧
        router.buildRoute origin target ≠ .error .diverges ↔
      router.Stops origin target := by
  constructor
  · rintro ⟨hbounds, hends⟩
    by_contra hnot
    refine hends (buildRoute_endless hrow hdata fun vertices first hfollows hstop => ?_)
    cases hlast : router.routesInternalData.get origin first with
    | some last => exact hnot ⟨vertices, first, hfollows, hstop, by simp [hlast]⟩
    | none =>
        rw [buildRoute_stopped hrow hdata hfollows hstop, hlast] at hbounds
        exact hbounds rfl
  · rintro ⟨vertices, first, hfollows, hstop, hcell⟩
    obtain ⟨last, hlast⟩ := Option.ne_none_iff_exists'.mp hcell
    rw [buildRoute_stopped hrow hdata hfollows hstop, hlast]
    by_cases hid : last.prevEdge = none <;> simp [hid]

end Row

/-- `BuildRoute` returns exactly if the table has the entry asked for and, where
that is filled, the whole route. -/
theorem exists_buildRoute_iff :
    (∃ r, router.buildRoute origin target = .ok r) ↔
      ∃ row cell, router.routesInternalData[origin]? = some row ∧ row[target]? = some cell ∧
        (cell ≠ none → ∃ edges, router.HoldsRoute origin target edges) := by
  cases hrow : router.routesInternalData[origin]? with
  | none => simp [buildRoute, hrow]
  | some row =>
      cases hcell : row[target]? with
      | none => simp [buildRoute, hrow, hcell]
      | some cell =>
          cases cell with
          | none => simp [buildRoute, hrow, hcell, pure, Except.pure]
          | some data => simp [buildRoute_returns_iff hrow hcell, hcell]

/-- `BuildRoute` stays within the table and ends exactly if the way from a
filled entry stops within the table. -/
theorem buildRoute_safe_iff :
    router.buildRoute origin target ≠ .error .undefinedBehaviour ∧
        router.buildRoute origin target ≠ .error .diverges ↔
      (router.routesInternalData.get origin target ≠ none → router.Stops origin target) := by
  cases hrow : router.routesInternalData[origin]? with
  | none =>
      simp [buildRoute, RoutesInternalData.get, List.getD_eq_getElem?_getD, hrow, throw,
        throwThe, MonadExceptOf.throw]
  | some row =>
      rw [get_of_row hrow]
      cases hcell : row[target]? with
      | none => simp [buildRoute, hrow, hcell, throw, throwThe, MonadExceptOf.throw]
      | some cell =>
          cases cell with
          | none => simp [buildRoute, hrow, hcell, pure, Except.pure]
          | some data =>
              rw [buildRoute_stops_iff hrow hcell]
              simp

end TransportSystem.Graph.Router
