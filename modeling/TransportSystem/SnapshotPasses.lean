import Mathlib.Algebra.Order.Ring.Rat
import TransportSystem.RouterCorrectness

/-!
The passes of the router against passes that read a copy of the table. A pass
assigns to the table that its references point into, but with a zero diagonal it
leaves the row and the column that they read alone.
-/

namespace TransportSystem.Graph

open Library.FloydWarshall

namespace RoutesInternalData

variable {W : Type} {n : Nat}

/-- The table of `n` rows with the given entries. -/
def ofEntries (n : Nat) (entries : Table VertexId W EdgeId) : RoutesInternalData W :=
  (List.range n).map fun i => (List.range n).map fun j => entries i j

theorem square_ofEntries (entries : Table VertexId W EdgeId) : Square n (ofEntries n entries) := by
  refine ⟨by simp [ofEntries], fun row hrow => ?_⟩
  obtain ⟨i, -, rfl⟩ := List.mem_map.mp hrow
  simp

theorem get_ofEntries (entries : Table VertexId W EdgeId) {i j : VertexId} (hi : i < n)
    (hj : j < n) : (ofEntries n entries).get i j = entries i j := by
  simp [get, ofEntries, List.getD_eq_getElem?_getD, hi, hj]

/-- Square tables with the same entries are equal. -/
theorem ext_get {routes routes' : RoutesInternalData W} (h : Square n routes)
    (h' : Square n routes') (hget : ∀ i j, i < n → j < n → routes.get i j = routes'.get i j) :
    routes = routes' := by
  refine List.ext_getElem? fun i => ?_
  by_cases hi : i < n
  · have hrow : routes.getD i [] = routes'.getD i [] := by
      refine List.ext_getElem? fun j => ?_
      by_cases hj : j < n
      · rw [(getElem?_get h hi hj).2, (getElem?_get h' hi hj).2, hget i j hi hj]
      · rw [List.getElem?_eq_none ((getD_length h hi).trans_le (not_lt.mp hj)),
          List.getElem?_eq_none ((getD_length h' hi).trans_le (not_lt.mp hj))]
    rw [(getElem?_get h hi hi).1, (getElem?_get h' hi hi).1, hrow]
  · rw [List.getElem?_eq_none (h.length.trans_le (not_lt.mp hi)),
      List.getElem?_eq_none (h'.length.trans_le (not_lt.mp hi))]

end RoutesInternalData

namespace Router

variable {W : Type}

/-- `RelaxRoutesInternalDataThroughVertex` with every entry computed from a copy
of the table. -/
def relaxCopyThroughVertex [Add W] [LT W] [DecidableLT W] (vertexCount : Nat)
    (copy : RoutesInternalData W) (vertexThrough : VertexId) : RoutesInternalData W :=
  .ofEntries vertexCount (relaxThrough vertexThrough copy.get)

/-- A square table without negative weights in which every vertex has the empty
route to itself. -/
structure Relaxable [Zero W] [LE W] (n : Nat) (routes : RoutesInternalData W) : Prop where
  square : Square n routes
  nonneg : ∀ i j data, routes.get i j = some data → 0 ≤ data.weight
  diag : ∀ v, v < n → routes.get v v = some ⟨0, none⟩

section Passes

variable [AddMonoid W] [LinearOrder W] {n : Nat} {routes : RoutesInternalData W} {t : VertexId}

theorem Relaxable.diag_weight (h : Relaxable n routes) (ht : t < n)
    (r : RouteInternalData W) (hr : routes.get t t = some r) : r.weight = 0 := by
  cases (h.diag t ht).symm.trans hr
  rfl

/-- A pass keeps the table relaxable. -/
theorem Relaxable.relax [AddLeftMono W] (h : Relaxable n routes) (ht : t < n) :
    Relaxable n (relaxRoutesInternalDataThroughVertex n routes t) := by
  obtain ⟨hsquare, hget⟩ := get_relaxRoutesInternalDataThroughVertex h.square (h.diag_weight ht)
  refine ⟨hsquare, fun i j data hdata => ?_, fun v hv => ?_⟩
  · rw [hget] at hdata
    exact relaxThrough_nonneg h.nonneg hdata
  · rw [hget]
    exact relaxThrough_of_zero h.nonneg (h.diag v hv) rfl

theorem Relaxable.relax_eq_relaxCopy (h : Relaxable n routes) (ht : t < n) :
    relaxRoutesInternalDataThroughVertex n routes t = relaxCopyThroughVertex n routes t := by
  obtain ⟨hsquare, hget⟩ := get_relaxRoutesInternalDataThroughVertex h.square (h.diag_weight ht)
  refine RoutesInternalData.ext_get hsquare (RoutesInternalData.square_ofEntries _) ?_
  intro i j hi hj
  rw [hget, relaxCopyThroughVertex, RoutesInternalData.get_ofEntries _ hi hj]

/-- A pass in place is a pass from a copy, and keeps the table relaxable. -/
theorem relaxRoutesInternalDataThroughVertex_eq_copy [AddLeftMono W] (h : Relaxable n routes)
    (ht : t < n) :
    relaxRoutesInternalDataThroughVertex n routes t = relaxCopyThroughVertex n routes t ∧
      Relaxable n (relaxRoutesInternalDataThroughVertex n routes t) :=
  ⟨h.relax_eq_relaxCopy ht, h.relax ht⟩

/-- The table of two edges in line, before any pass. -/
def lineRoutes : RoutesInternalData ℚ :=
  [[some ⟨0, none⟩, some ⟨3, some 0⟩, none],
    [none, some ⟨0, none⟩, some ⟨4, some 1⟩],
    [none, none, some ⟨0, none⟩]]

theorem relaxRoutesInternalDataThroughVertex_eq_copy_line :
    relaxRoutesInternalDataThroughVertex 3 lineRoutes 1 = relaxCopyThroughVertex 3 lineRoutes 1 ∧
      Relaxable 3 (relaxRoutesInternalDataThroughVertex 3 lineRoutes 1) ∧
      (relaxCopyThroughVertex 3 lineRoutes 1).get 0 2 = some ⟨7, some 1⟩ := by
  have hsquare : Square 3 lineRoutes := ⟨rfl, by decide⟩
  have hentries : ∀ i < 3, ∀ j < 3,
      ((lineRoutes.get i j).all fun data => 0 ≤ data.weight) = true := by decide +kernel
  have hnonneg : ∀ i j data, lineRoutes.get i j = some data → 0 ≤ data.weight := by
    intro i j data hdata
    obtain ⟨hi, hj⟩ := RoutesInternalData.lt_of_get hsquare hdata
    simpa [hdata] using hentries i hi j hj
  have hdiag : ∀ v, v < 3 → lineRoutes.get v v = some ⟨0, none⟩ := by decide
  obtain ⟨heq, hafter⟩ :=
    relaxRoutesInternalDataThroughVertex_eq_copy ⟨hsquare, hnonneg, hdiag⟩ (t := 1) (by decide)
  exact ⟨heq, hafter, by decide +kernel⟩

/-- A negative entry on the diagonal would be read after it was improved. -/
example : relaxRoutesInternalDataThroughVertex 2
      [[some ⟨(-1 : ℤ), none⟩, some ⟨5, some 0⟩], [none, some ⟨0, none⟩]] 0 ≠
    relaxCopyThroughVertex 2
      [[some ⟨(-1 : ℤ), none⟩, some ⟨5, some 0⟩], [none, some ⟨0, none⟩]] 0 := by
  decide

/-- Passes in place, one after the other, are passes from copies. -/
theorem foldl_relax_eq_copy [AddLeftMono W] (ts : List VertexId) (hts : ∀ t ∈ ts, t < n)
    (h : Relaxable n routes) :
    ts.foldl (relaxRoutesInternalDataThroughVertex n) routes =
        ts.foldl (relaxCopyThroughVertex n) routes ∧
      Relaxable n (ts.foldl (relaxRoutesInternalDataThroughVertex n) routes) := by
  induction ts generalizing routes with
  | nil => exact ⟨rfl, h⟩
  | cons t ts ih =>
      have ht := hts t (by simp)
      rw [List.foldl_cons, List.foldl_cons, ← h.relax_eq_relaxCopy ht]
      exact ih (fun t' ht' => hts t' (by simp [ht'])) (h.relax ht)

/-- The table is relaxable once the edges of a graph are in it. -/
theorem TableInit.relaxable {g : DirectedWeightedGraph W}
    (hsquare : Square g.getVertexCount routes)
    (h : TableInit g (List.range g.getVertexCount) routes.get) :
    Relaxable g.getVertexCount routes := by
  refine ⟨hsquare, fun i j data hdata => ?_, fun v hv => ?_⟩
  · obtain ⟨hi, -⟩ := RoutesInternalData.lt_of_get hsquare hdata
    obtain ⟨ids, hrow, -⟩ := h.row i (List.mem_range.mpr hi)
    rcases hrow.entry j data hdata with ⟨-, rfl⟩ | ⟨-, hnonneg, -⟩
    · exact le_rfl
    · exact hnonneg
  · obtain ⟨ids, hrow, -⟩ := h.row v (List.mem_range.mpr hv)
    exact hrow.diag

/-- The constructor computes its table by passes from copies. -/
theorem ofGraph_eq_copies [AddLeftMono W] {g : DirectedWeightedGraph W} (hg : g.Inv)
    {router : Router W} (h : ofGraph g = .ok router) :
    ∃ routes, initializeRoutesInternalData g (List.range g.getVertexCount)
        (List.replicate g.getVertexCount (List.replicate g.getVertexCount none)) = .ok routes ∧
      router.routesInternalData =
        (List.range g.getVertexCount).foldl (relaxCopyThroughVertex g.getVertexCount) routes := by
  rcases initializeRoutesInternalData_empty hg with ⟨routes, heq, hsquare, htable, -⟩ | ⟨heq, -⟩
  · rw [ofGraph] at h
    simp only [heq, bind, Except.bind] at h
    cases h
    have hrange : ∀ t ∈ List.range g.getVertexCount, t < g.getVertexCount :=
      fun t ht => List.mem_range.mp ht
    exact ⟨routes, heq, (foldl_relax_eq_copy _ hrange (htable.relaxable hsquare)).1⟩
  · rw [ofGraph] at h
    simp only [heq, bind, Except.bind] at h
    cases h

end Passes

end Router

end TransportSystem.Graph
