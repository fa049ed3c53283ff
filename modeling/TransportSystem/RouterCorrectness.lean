import Mathlib.Data.List.Perm.Subperm
import TransportSystem.RouterPasses

namespace TransportSystem.Graph

open Library.FloydWarshall

/-- The edges of a graph by their ids. -/
def DirectedWeightedGraph.IsEdge {W : Type} (g : DirectedWeightedGraph W) (id : EdgeId)
    (u v : VertexId) (w : W) : Prop :=
  g.edges[id]? = some ⟨u, v, w⟩

/-- The incidence lists index the edges, and all ends are vertices. -/
structure DirectedWeightedGraph.Inv {W : Type} (g : DirectedWeightedGraph W) : Prop where
  incident : ∀ v ids, g.incidenceLists[v]? = some ids →
    ∀ id, id ∈ ids ↔ ∃ edge : Edge W, g.edges[id]? = some edge ∧ edge.source = v
  source_lt : ∀ edge ∈ g.edges, edge.source < g.getVertexCount
  target_lt : ∀ edge ∈ g.edges, edge.target < g.getVertexCount

namespace DirectedWeightedGraph

variable {W : Type} {g : DirectedWeightedGraph W}

theorem isEdge_functional (g : DirectedWeightedGraph W) : Functional g.IsEdge := by
  intro id u v w u' v' w' h h'
  cases h.symm.trans h'
  exact ⟨rfl, rfl, rfl⟩

theorem Inv.mem_ids_iff (hg : g.Inv) {v : VertexId} {ids : List EdgeId}
    (hids : g.incidenceLists[v]? = some ids) (id : EdgeId) :
    id ∈ ids ↔ ∃ j w, g.IsEdge id v j w := by
  rw [hg.incident v ids hids id]
  constructor
  · rintro ⟨⟨source, j, w⟩, hedge, hsource⟩
    cases hsource
    exact ⟨j, w, hedge⟩
  · rintro ⟨j, w, hedge⟩
    exact ⟨_, hedge, rfl⟩

theorem Inv.isEdge_lt (hg : g.Inv) {id : EdgeId} {u v : VertexId} {w : W}
    (h : g.IsEdge id u v w) : u < g.getVertexCount ∧ v < g.getVertexCount :=
  ⟨hg.source_lt _ (List.mem_of_getElem? h), hg.target_lt _ (List.mem_of_getElem? h)⟩

theorem Inv.complete (hg : g.Inv) : Relaxed.Complete g.IsEdge {v | v < g.getVertexCount} :=
  fun _ _ _ _ hedge => (hg.isEdge_lt hedge).1

end DirectedWeightedGraph

namespace Router

variable {W : Type} {g : DirectedWeightedGraph W}

section Initialization

variable [AddMonoid W] [LinearOrder W]

/-- A row of the table after initialisation with the edges in `ids`. -/
structure RowInit (g : DirectedWeightedGraph W) (v : VertexId) (ids : List EdgeId)
    (M : Table VertexId W EdgeId) : Prop where
  diag : M v v = some ⟨0, none⟩
  entry : ∀ j r, M v j = some r → (j = v ∧ r = ⟨0, none⟩) ∨
    (j ≠ v ∧ 0 ≤ r.weight ∧ ∃ id, r.prevEdge = some id ∧ g.IsEdge id v j r.weight)
  edge : ∀ id ∈ ids, ∀ j w, g.IsEdge id v j w → ∃ r, M v j = some r ∧ r.weight ≤ w

theorem RowInit.improve {v j : VertexId} {done : List EdgeId} {M M' : Table VertexId W EdgeId}
    {id : EdgeId} {w : W} (h : RowInit g v done M) (hedge : g.IsEdge id v j w) (hw : 0 ≤ w)
    (hM : ∀ j', M' v j' =
      if j' = j then Library.FloydWarshall.improve (M v j) ⟨w, some id⟩ else M v j') :
    RowInit g v (done ++ [id]) M' := by
  rcases improve_cases (M v j) ⟨w, some id⟩ with ⟨hnew, hlt⟩ | ⟨r₀, hr₀, hold, hle⟩
  · have hne : v ≠ j := by
      rintro rfl
      exact absurd (hlt _ h.diag) (not_lt.mpr hw)
    rw [hnew] at hM
    refine ⟨by rw [hM, if_neg hne, h.diag], ?_, ?_⟩
    · intro j' r hr
      rw [hM] at hr
      split at hr
      · rename_i hj
        cases hr
        exact Or.inr ⟨hj ▸ hne.symm, hw, id, rfl, hj ▸ hedge⟩
      · exact h.entry j' r hr
    · intro id' hid' j' w' hedge'
      rw [hM]
      rcases List.mem_append.mp hid' with hid' | hid'
      · obtain ⟨r, hr, hle⟩ := h.edge id' hid' j' w' hedge'
        split
        · rename_i hj
          subst hj
          exact ⟨_, rfl, (hlt r hr).le.trans hle⟩
        · exact ⟨r, hr, hle⟩
      · cases List.mem_singleton.mp hid'
        obtain ⟨-, rfl, rfl⟩ := g.isEdge_functional id _ _ _ _ _ _ hedge hedge'
        exact ⟨_, if_pos rfl, le_rfl⟩
  · -- the entry stays, and is at most as heavy as the new edge
    have hsame : ∀ j', M' v j' = M v j' := by
      intro j'
      rw [hM, hold]
      split
      · rename_i hj
        rw [hj, hr₀]
      · rfl
    refine ⟨(hsame v).trans h.diag, fun j' r hr => h.entry j' r ((hsame j').symm.trans hr), ?_⟩
    intro id' hid' j' w' hedge'
    rw [hsame]
    rcases List.mem_append.mp hid' with hid' | hid'
    · exact h.edge id' hid' j' w' hedge'
    · cases List.mem_singleton.mp hid'
      obtain ⟨-, rfl, rfl⟩ := g.isEdge_functional id _ _ _ _ _ _ hedge hedge'
      exact ⟨r₀, hr₀, hle⟩

/-- The outcome of the inner loop of the initialisation on row `v`: it throws
on the first negative edge and leaves the other rows alone. -/
theorem initializeRow_spec (hg : g.Inv) {v : VertexId} (hv : v < g.getVertexCount)
    (ids : List EdgeId) {done : List EdgeId} {routes : RoutesInternalData W}
    (hids : ∀ id ∈ ids, ∃ j w, g.IsEdge id v j w)
    (hsquare : Square g.getVertexCount routes) (hrow : RowInit g v done routes.get) :
    (∃ routes', initializeRow g v ids routes = .ok routes' ∧
        Square g.getVertexCount routes' ∧ RowInit g v (done ++ ids) routes'.get ∧
        (∀ i, i ≠ v → routes'.get i = routes.get i) ∧
        ∀ id ∈ ids, ∀ j w, g.IsEdge id v j w → 0 ≤ w) ∨
      (initializeRow g v ids routes =
          .error (.domainError "Edges' weights should be non-negative") ∧
        ∃ id ∈ ids, ∃ j w, g.IsEdge id v j w ∧ w < 0) := by
  induction ids generalizing done routes with
  | nil => exact Or.inl ⟨routes, rfl, hsquare, by simpa using hrow, fun _ _ => rfl, by simp⟩
  | cons id ids ih =>
      obtain ⟨j, w, hedge⟩ := hids id (by simp)
      have hj := (hg.isEdge_lt hedge).2
      rw [initializeRow, DirectedWeightedGraph.getEdge_eq_ok_iff.mpr hedge]
      by_cases hneg : w < 0
      · refine Or.inr ⟨?_, id, by simp, j, w, hedge, hneg⟩
        simp [bind, Except.bind, hneg, throw, throwThe, MonadExceptOf.throw]
      · have hw : 0 ≤ w := not_lt.mp hneg
        simp only [bind, Except.bind, hneg, if_false, hj, not_true_eq_false]
        have hget := RoutesInternalData.get_putIfBetter hsquare hv hj ⟨w, some id⟩
        have hrow₁ := hrow.improve hedge hw (fun j' => (hget v j').trans (by simp))
        rcases ih (fun id' hid' => hids id' (by simp [hid']))
          (RoutesInternalData.square_putIfBetter hsquare _ _ _) hrow₁ with
          ⟨routes', heq, hsquare', hrow', hframe, hpos⟩ | ⟨heq, id', hid', hlt⟩
        · refine Or.inl ⟨routes', heq, hsquare', by simpa using hrow', ?_, ?_⟩
          · intro i hi
            rw [hframe i hi]
            funext j'
            rw [hget, if_neg fun hc => hi hc.1]
          · intro id' hid' j' w' hedge'
            rcases List.mem_cons.mp hid' with rfl | hid'
            · exact (g.isEdge_functional id' _ _ _ _ _ _ hedge hedge').2.2 ▸ hw
            · exact hpos id' hid' j' w' hedge'
        · exact Or.inr ⟨heq, id', by simp [hid'], hlt⟩

/-- The rows of `done` are initialised with all their edges, the others are
empty. -/
structure TableInit (g : DirectedWeightedGraph W) (done : List VertexId)
    (M : Table VertexId W EdgeId) : Prop where
  row : ∀ v ∈ done, ∃ ids, RowInit g v ids M ∧ ∀ id j w, g.IsEdge id v j w → id ∈ ids
  empty : ∀ v, v ∉ done → ∀ j, M v j = none

theorem RowInit.congr {v : VertexId} {ids : List EdgeId} {M M' : Table VertexId W EdgeId}
    (h : RowInit g v ids M) (hM : M' v = M v) : RowInit g v ids M' where
  diag := by rw [hM, h.diag]
  entry := by simpa only [hM] using h.entry
  edge := by simpa only [hM] using h.edge

/-- An empty row in which the vertex has got its entry for itself. -/
theorem RowInit.of_empty {v : VertexId} {M M' : Table VertexId W EdgeId}
    (hempty : ∀ j, M v j = none)
    (hM' : ∀ i j, M' i j = if i = v ∧ j = v then some ⟨0, none⟩ else M i j) :
    RowInit g v [] M' := by
  refine ⟨by simp [hM'], ?_, by simp⟩
  intro j r hr
  rw [hM'] at hr
  split at hr
  · rename_i hcell
    cases hr
    exact Or.inl ⟨hcell.2, rfl⟩
  · rw [hempty j] at hr
    cases hr

/-- One more row is initialised, and the others are left alone. -/
theorem TableInit.append {done : List VertexId} {v : VertexId} {ids : List EdgeId}
    {M M' : Table VertexId W EdgeId} (h : TableInit g done M) (hother : ∀ i, i ≠ v → M' i = M i)
    (hrow : RowInit g v ids M') (hall : ∀ id j w, g.IsEdge id v j w → id ∈ ids) :
    TableInit g (done ++ [v]) M' := by
  constructor
  · intro i hi
    by_cases hiv : i = v
    · subst hiv
      exact ⟨ids, hrow, hall⟩
    · obtain ⟨ids', hrow', hall'⟩ :=
        h.row i ((List.mem_append.mp hi).resolve_right (by simpa using hiv))
      exact ⟨ids', hrow'.congr (hother i hiv), hall'⟩
  · intro i hi j
    simp only [List.mem_append, List.mem_singleton, not_or] at hi
    rw [hother i hi.2]
    exact h.empty i hi.1 j

theorem initializeRoutesInternalData_spec (hg : g.Inv) (vs done : List VertexId)
    {routes : RoutesInternalData W}
    (hvs : ∀ v ∈ vs, v < g.getVertexCount) (hnodup : vs.Nodup) (hnew : ∀ v ∈ vs, v ∉ done)
    (hsquare : Square g.getVertexCount routes) (htable : TableInit g done routes.get) :
    (∃ routes', initializeRoutesInternalData g vs routes = .ok routes' ∧
        Square g.getVertexCount routes' ∧ TableInit g (done ++ vs) routes'.get ∧
        ∀ v ∈ vs, ∀ id j w, g.IsEdge id v j w → 0 ≤ w) ∨
      (initializeRoutesInternalData g vs routes =
          .error (.domainError "Edges' weights should be non-negative") ∧
        ∃ v ∈ vs, ∃ id j w, g.IsEdge id v j w ∧ w < 0) := by
  induction vs generalizing done routes with
  | nil => exact Or.inl ⟨routes, rfl, hsquare, by simpa using htable, by simp⟩
  | cons v vs ih =>
      have hv := hvs v (by simp)
      obtain ⟨hvmem, hnodup⟩ := List.nodup_cons.mp hnodup
      obtain ⟨ids, hids⟩ : ∃ ids, g.incidenceLists[v]? = some ids :=
        ⟨_, List.getElem?_eq_getElem hv⟩
      have hedges := hg.mem_ids_iff hids
      have hget := RoutesInternalData.get_put hsquare hv hv ⟨0, none⟩
      have hrow : RowInit g v [] (routes.put v v ⟨0, none⟩).get :=
        .of_empty (htable.empty v (hnew v (by simp))) hget
      rw [initializeRoutesInternalData, DirectedWeightedGraph.getIncidentEdges_eq_ok_iff.mpr hids]
      simp only [bind, Except.bind]
      rcases initializeRow_spec hg hv ids (fun id hid => (hedges id).mp hid)
        (RoutesInternalData.square_put hsquare _ _ _) hrow with
        ⟨routes₁, heq₁, hsquare₁, hrow₁, hframe, hpos₁⟩ | ⟨heq₁, id, hid, j, w, hedge, hneg⟩
      · rw [heq₁]
        have htable₁ : TableInit g (done ++ [v]) routes₁.get := by
          have hother : ∀ i, i ≠ v → routes₁.get i = routes.get i := by
            intro i hi
            rw [hframe i hi]
            funext j
            rw [hget, if_neg fun hc => hi hc.1]
          exact htable.append hother hrow₁ fun id j w hedge => (hedges id).mpr ⟨j, w, hedge⟩
        have hnew₁ : ∀ u ∈ vs, u ∉ done ++ [v] := by
          intro u hu
          simp only [List.mem_append, List.mem_singleton, not_or]
          exact ⟨hnew u (by simp [hu]), fun huv => hvmem (huv ▸ hu)⟩
        rcases ih (done ++ [v]) (fun u hu => hvs u (by simp [hu]))
          hnodup hnew₁ hsquare₁ htable₁ with
          ⟨routes', heq, hsquare', htable', hpos⟩ | ⟨heq, u, hu, hneg⟩
        · refine Or.inl ⟨routes', heq, hsquare', by simpa using htable', ?_⟩
          intro u hu id j w hedge
          rcases List.mem_cons.mp hu with rfl | hu
          · exact hpos₁ id ((hedges id).mpr ⟨j, w, hedge⟩) j w hedge
          · exact hpos u hu id j w hedge
        · exact Or.inr ⟨heq, u, by simp [hu], hneg⟩
      · rw [heq₁]
        exact Or.inr ⟨rfl, v, by simp, id, j, w, hedge, hneg⟩

/-- The initialisation of an empty table with all edges of the graph. -/
theorem initializeRoutesInternalData_empty (hg : g.Inv) :
    (∃ routes, initializeRoutesInternalData g (List.range g.getVertexCount)
          (List.replicate g.getVertexCount (List.replicate g.getVertexCount none)) = .ok routes ∧
        Square g.getVertexCount routes ∧ TableInit g (List.range g.getVertexCount) routes.get ∧
        ∀ v ∈ List.range g.getVertexCount, ∀ id j w, g.IsEdge id v j w → 0 ≤ w) ∨
      (initializeRoutesInternalData g (List.range g.getVertexCount)
          (List.replicate g.getVertexCount (List.replicate g.getVertexCount none)) =
          .error (.domainError "Edges' weights should be non-negative") ∧
        ∃ v ∈ List.range g.getVertexCount, ∃ id j w, g.IsEdge id v j w ∧ w < 0) := by
  have hempty : ∀ i j, RoutesInternalData.get (W := W)
      (List.replicate g.getVertexCount (List.replicate g.getVertexCount none)) i j = none := by
    intro i j
    simp only [RoutesInternalData.get, List.getD_eq_getElem?_getD, List.getElem?_replicate]
    by_cases hi : i < g.getVertexCount <;> by_cases hj : j < g.getVertexCount <;>
      simp [hi, hj]
  have hsquare : Square (W := W) g.getVertexCount
      (List.replicate g.getVertexCount (List.replicate g.getVertexCount none)) :=
    ⟨by simp, fun row hrow => by rw [List.eq_of_mem_replicate hrow]; simp⟩
  exact initializeRoutesInternalData_spec hg (List.range g.getVertexCount) []
    (fun v hv => List.mem_range.mp hv) List.nodup_range (by simp) hsquare
    ⟨by simp, fun v _ => hempty v⟩

end Initialization

section Correctness

variable [AddCommMonoid W] [LinearOrder W] [IsOrderedCancelAddMonoid W]

omit [IsOrderedCancelAddMonoid W] in
theorem TableInit.relaxed (hg : g.Inv) {M : Table VertexId W EdgeId}
    (h : TableInit g (List.range g.getVertexCount) M)
    (hM : ∀ i j r, M i j = some r → j < g.getVertexCount) : Relaxed g.IsEdge ∅ M := by
  have hlt : ∀ i j r, M i j = some r → i < g.getVertexCount := by
    intro i j r hr
    by_contra hi
    rw [h.empty i (by simpa using hi)] at hr
    cases hr
  have hdiag : ∀ v, v < g.getVertexCount → M v v = some ⟨0, none⟩ := by
    intro v hv
    obtain ⟨ids, hrow, -⟩ := h.row v (List.mem_range.mpr hv)
    exact hrow.diag
  have hentry : ∀ i j r, M i j = some r → (j = i ∧ r = ⟨0, none⟩) ∨
      (j ≠ i ∧ 0 ≤ r.weight ∧ ∃ id, r.prevEdge = some id ∧ g.IsEdge id i j r.weight) := by
    intro i j r hr
    obtain ⟨ids, hrow, -⟩ := h.row i (List.mem_range.mpr (hlt i j r hr))
    exact hrow.entry j r hr
  refine ⟨?_, ?_, ?_, ?_, ?_, ?_, ?_⟩
  · intro i j r hr
    exact ⟨hdiag i (hlt i j r hr), hdiag j (hM i j r hr)⟩
  · intro i j r hr
    rcases hentry i j r hr with ⟨-, rfl⟩ | ⟨-, hw, -⟩
    · exact le_rfl
    · exact hw
  · intro id u v w hedge
    obtain ⟨ids, hrow, hall⟩ := h.row u (List.mem_range.mpr (hg.isEdge_lt hedge).1)
    exact hrow.edge id (hall id v w hedge) v w hedge
  · intro i u v e w r hu
    exact absurd hu (Set.notMem_empty u)
  · intro i j r hr
    rcases hentry i j r hr with ⟨rfl, rfl⟩ | ⟨hne, -, id, hid, -⟩
    · simp
    · simp [hid, Ne.symm hne]
  · intro i j r e hr he
    rcases hentry i j r hr with ⟨-, rfl⟩ | ⟨-, -, id, hid, hedge⟩
    · cases he
    · cases he.symm.trans hid
      exact ⟨i, r.weight, ⟨0, none⟩, hedge, hdiag i (hlt i j r hr), by simp, Or.inl rfl⟩
  · intro i j r hr
    rcases hentry i j r hr with ⟨rfl, -⟩ | ⟨-, -, id, hid, hedge⟩
    · exact ⟨_, _, .start⟩
    · exact ⟨_, _, .step hr hid hedge .start⟩

/-- All passes on the stored table are relaxations of snapshots. -/
theorem foldl_passes {n : Nat} (ts : List VertexId) {P : Set VertexId}
    {routes : RoutesInternalData W} (hsquare : Square n routes)
    (hrelaxed : Relaxed g.IsEdge P routes.get) :
    Square n (ts.foldl (relaxRoutesInternalDataThroughVertex n) routes) ∧
      (ts.foldl (relaxRoutesInternalDataThroughVertex n) routes).get =
        ts.foldl (fun M t => relaxThrough t M) routes.get := by
  induction ts generalizing P routes with
  | nil => exact ⟨hsquare, rfl⟩
  | cons t ts ih =>
      obtain ⟨hsquare₁, hget₁⟩ :=
        get_relaxRoutesInternalDataThroughVertex hsquare (hrelaxed.diag_weight t)
      have hrelaxed₁ := hrelaxed.relaxThrough (t := t) g.isEdge_functional
      rw [← hget₁] at hrelaxed₁
      obtain ⟨hsquare', hget'⟩ := ih hsquare₁ hrelaxed₁
      refine ⟨hsquare', ?_⟩
      rw [List.foldl_cons, List.foldl_cons, hget', hget₁]

structure Built (g : DirectedWeightedGraph W) (router : Router W) : Prop where
  graph : router.graph = g
  square : Square g.getVertexCount router.routesInternalData
  relaxed : Relaxed g.IsEdge {v | v < g.getVertexCount} router.routesInternalData.get
  diag : ∀ v, v < g.getVertexCount → router.routesInternalData.get v v = some ⟨0, none⟩

/-- The constructor throws exactly on graphs with a negative edge, and builds
the table of shortest distances otherwise. -/
theorem ofGraph_spec (hg : g.Inv) :
    (∃ router, ofGraph g = .ok router ∧ Built g router ∧ ∀ edge ∈ g.edges, 0 ≤ edge.weight) ∨
      (ofGraph g = .error (.domainError "Edges' weights should be non-negative") ∧
        ∃ edge ∈ g.edges, edge.weight < 0) := by
  rcases initializeRoutesInternalData_empty hg with
    ⟨routes, heq, hsquare', htable, hpos⟩ | ⟨heq, v, hv, id, j, w, hedge, hneg⟩
  · have hrelaxed := htable.relaxed hg fun i j r hr =>
      (RoutesInternalData.lt_of_get hsquare' hr).2
    obtain ⟨hsquare'', hget⟩ := foldl_passes (List.range g.getVertexCount) hsquare' hrelaxed
    have hfinal := hrelaxed.foldl_relaxThrough g.isEdge_functional (List.range g.getVertexCount)
    rw [← hget] at hfinal
    have hset : (∅ ∪ {v | v ∈ List.range g.getVertexCount} : Set VertexId) =
        {v | v < g.getVertexCount} := by
      ext v
      simp
    rw [hset] at hfinal
    refine Or.inl ⟨_, by simp only [ofGraph, heq, bind, Except.bind]; rfl,
      ⟨rfl, hsquare'', hfinal, ?_⟩, ?_⟩
    · intro v hv
      obtain ⟨ids, hrow, -⟩ := htable.row v (List.mem_range.mpr hv)
      rw [hget, hrelaxed.foldl_relaxThrough_diag g.isEdge_functional, hrow.diag]
    · intro edge hedge
      obtain ⟨id, hid⟩ := List.mem_iff_getElem?.mp hedge
      exact hpos edge.source (List.mem_range.mpr (hg.source_lt edge hedge)) id edge.target
        edge.weight hid
  · refine Or.inr ⟨by simp only [ofGraph, heq, bind, Except.bind], ?_⟩
    exact ⟨_, List.mem_of_getElem? hedge, hneg⟩

namespace Built

variable {router : Router W}

omit [IsOrderedCancelAddMonoid W] in
/-- With enough fuel the loop of `BuildRoute` collects the edges of a trace. -/
theorem collectEdges_of_trace (h : Built g router) {i j : VertexId} {es : List EdgeId}
    {vs : List VertexId} (htrace : Trace g.IsEdge router.routesInternalData.get i j es vs)
    {r : RouteInternalData W} (hr : router.routesInternalData.get i j = some r) {fuel : Nat}
    (hfuel : es.length ≤ fuel) : collectEdges router i fuel r.prevEdge = .ok es := by
  induction htrace generalizing r fuel with
  | start =>
      rw [(h.relaxed.prevEdge_eq_none i i r hr).mpr rfl]
      cases fuel <;> rfl
  | @step j u r₁ e w es vs hr₁ he hedge _ ih =>
      cases hr₁.symm.trans hr
      obtain ⟨u', w', r', hedge', hr', -, -⟩ := h.relaxed.prevEdge i j r₁ e hr₁ he
      obtain ⟨rfl, -, rfl⟩ := g.isEdge_functional e _ _ _ _ _ _ hedge hedge'
      obtain ⟨fuel, rfl⟩ : ∃ k, fuel = k + 1 := ⟨fuel - 1, by simp at hfuel; omega⟩
      have hrest : collectEdges router i fuel r'.prevEdge = .ok es :=
        ih hr' (by simpa using hfuel)
      rw [he, collectEdges, h.graph, DirectedWeightedGraph.getEdge_eq_ok_iff.mpr hedge]
      simp only [bind, Except.bind, hr', hrest]
      rfl

theorem length_of_trace (h : Built g router) {i j : VertexId} {es : List EdgeId}
    {vs : List VertexId} (htrace : Trace g.IsEdge router.routesInternalData.get i j es vs)
    {r : RouteInternalData W} (hr : router.routesInternalData.get i j = some r) :
    es.length < g.getVertexCount := by
  have hnodup := h.relaxed.trace_nodup g.isEdge_functional htrace
  have hsub : vs ⊆ List.range g.getVertexCount := by
    intro v hv
    obtain ⟨r', hr'⟩ := h.relaxed.trace_mem g.isEdge_functional htrace hr v hv
    exact List.mem_range.mpr (RoutesInternalData.lt_of_get h.square hr').2
  have hle := (List.subperm_of_subset hnodup hsub).length_le
  rw [List.length_range, htrace.length_eq] at hle
  omega

omit [IsOrderedCancelAddMonoid W] in
theorem buildRoute_of_none (h : Built g router) {i j : VertexId} (hi : i < g.getVertexCount)
    (hj : j < g.getVertexCount) (hnone : router.routesInternalData.get i j = none) :
    buildRoute router i j = .ok none := by
  obtain ⟨hrow, hcell⟩ := RoutesInternalData.getElem?_get h.square hi hj
  unfold buildRoute
  rw [hrow]
  dsimp only
  rw [hcell, hnone]
  rfl

omit [IsOrderedCancelAddMonoid W] in
/-- `BuildRoute` returns the edges of a trace in reverse. -/
theorem buildRoute_of_trace (h : Built g router) {i j : VertexId} (hi : i < g.getVertexCount)
    (hj : j < g.getVertexCount) {es : List EdgeId} {vs : List VertexId}
    (htrace : Trace g.IsEdge router.routesInternalData.get i j es vs)
    {r : RouteInternalData W} (hr : router.routesInternalData.get i j = some r)
    (hlt : es.length < g.getVertexCount) :
    buildRoute router i j = .ok (some ⟨r.weight, es.reverse⟩) := by
  obtain ⟨hrow, hcell⟩ := RoutesInternalData.getElem?_get h.square hi hj
  have hfuel : es.length ≤ (router.routesInternalData.getD i []).length + 1 := by
    rw [RoutesInternalData.getD_length h.square hi]
    omega
  unfold buildRoute
  rw [hrow]
  dsimp only
  rw [hcell, hr]
  simp only [bind, Except.bind, h.collectEdges_of_trace htrace hr hfuel]
  rfl

/-- What `BuildRoute` returns for two vertices: nothing without a walk, and
otherwise a shortest walk, the empty one for equal vertices. -/
theorem buildRoute_spec (hg : g.Inv) (h : Built g router) {i j : VertexId}
    (hi : i < g.getVertexCount) (hj : j < g.getVertexCount) :
    (router.routesInternalData.get i j = none ∧ buildRoute router i j = .ok none ∧
        ∀ es w, ¬ Walk g.IsEdge i j es w) ∨
      ∃ r es, router.routesInternalData.get i j = some r ∧
        buildRoute router i j = .ok (some ⟨r.weight, es⟩) ∧
        Walk g.IsEdge i j es r.weight ∧ (es = [] ↔ i = j) ∧
        ∀ es' w, Walk g.IsEdge i j es' w → r.weight ≤ w := by
  cases hr : router.routesInternalData.get i j with
  | none =>
      refine Or.inl ⟨rfl, h.buildRoute_of_none hi hj hr, ?_⟩
      intro es w hwalk
      obtain ⟨r, hr', -⟩ := h.relaxed.le_of_walk hg.complete hwalk (h.diag i hi)
      rw [hr] at hr'
      cases hr'
  | some r =>
      obtain ⟨es, vs, htrace⟩ := h.relaxed.trace i j r hr
      refine Or.inr ⟨r, es.reverse, rfl,
        h.buildRoute_of_trace hi hj htrace hr (h.length_of_trace htrace hr),
        h.relaxed.walk_of_trace g.isEdge_functional hg.complete htrace hr, ?_, ?_⟩
      · rw [List.reverse_eq_nil_iff, ← h.relaxed.prevEdge_eq_none i j r hr]
        cases htrace with
        | start => simp [h.relaxed.prevEdge_eq_none i i r hr]
        | step hr' he _ _ =>
            cases hr.symm.trans hr'
            simp [he]
      · intro es' w hwalk
        exact (h.relaxed.isLeast g.isEdge_functional hg.complete hr).2 ⟨es', hwalk⟩

end Built

end Correctness

end Router

end TransportSystem.Graph
