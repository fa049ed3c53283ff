import Mathlib.Data.List.Chain
import TransportSystem.CatalogueCalls
import TransportSystem.GraphHistory
import TransportSystem.TransportRouter

/-!
The graph that `CreateGraph` builds, as the list of its edges in the order of
their ids, each with its entry of `info_about_edge`. The stop at place `k` of
the deque gets the vertices `2 * k` and `2 * k + 1`.
-/

namespace TransportSystem

open Library.UniqueKeys
open Library.Lists

namespace Graph.DirectedWeightedGraph

variable {W : Type}

theorem ofVertexCount_inv (n : Nat) : (ofVertexCount n : DirectedWeightedGraph W).Inv := by
  rw [ofVertexCount_eq_ofEdges, inv_ofEdges_iff]
  simp

theorem getVertexCount_ofVertexCount (n : Nat) :
    (ofVertexCount n : DirectedWeightedGraph W).getVertexCount = n := by
  simp [getVertexCount, ofVertexCount]

theorem addEdge_spec {g : DirectedWeightedGraph W} (hg : g.Inv) {edge : Edge W}
    (hsource : edge.source < g.getVertexCount) (htarget : edge.target < g.getVertexCount) :
    ∃ g', g.addEdge edge = (.ok g.edges.length, g') ∧ g'.edges = g.edges ++ [edge] ∧
      g'.getVertexCount = g.getVertexCount ∧ g'.Inv := by
  refine ⟨{ edges := g.edges ++ [edge]
            incidenceLists := g.incidenceLists.modify edge.source (· ++ [g.edges.length]) },
    ?_, rfl, by simp [getVertexCount], ?_, ?_, ?_⟩
  · have hlt : edge.source < g.incidenceLists.length := hsource
    simp [addEdge, hlt]
  · intro v ids hids id
    rw [List.getElem?_modify] at hids
    obtain ⟨ids', hids', rfl⟩ := Option.map_eq_some_iff.mp hids
    have hold := hg.incident v ids' hids' id
    have hfresh : id ∈ ids' → id ≠ g.edges.length := by
      intro hid
      obtain ⟨edge', hedge', -⟩ := hold.mp hid
      exact (List.getElem?_eq_some_iff.mp hedge').1.ne
    simp only [getElem?_append_singleton]
    by_cases hid : id = g.edges.length
    · have hnot : id ∉ ids' := fun hmem => hfresh hmem hid
      subst hid
      by_cases hv : edge.source = v <;> simp [hv, hnot]
    · by_cases hv : edge.source = v <;> simp [hv, hid, hold]
  · intro edge' hedge'
    simp only [getVertexCount, List.length_modify]
    rcases List.mem_append.mp hedge' with hedge' | hedge'
    · exact hg.source_lt edge' hedge'
    · cases List.mem_singleton.mp hedge'
      exact hsource
  · intro edge' hedge'
    simp only [getVertexCount, List.length_modify]
    rcases List.mem_append.mp hedge' with hedge' | hedge'
    · exact hg.target_lt edge' hedge'
    · cases List.mem_singleton.mp hedge'
      exact htarget

end Graph.DirectedWeightedGraph

namespace TransportRouter

open TransportSystem.Graph

/-- An edge with the entry of `info_about_edge` that is made for it. -/
structure Trip (W : Type) where
  edge : Edge W
  info : ComponentTrip W

variable {W : Type}

/-- `s` holds the edges of `trips`, and nothing else, on `n` vertices. -/
structure Holds (n : Nat) (trips : List (Trip W)) (s : GraphState W) : Prop where
  edges : s.graphOfStops.edges = trips.map Trip.edge
  info : ∀ id, s.infoAboutEdge.lookup id = trips[id]?.map Trip.info
  graph : s.graphOfStops.Inv
  vertexCount : s.graphOfStops.getVertexCount = n

/-- The stops named in `names`, in this order, have got their vertices. -/
structure Numbered (names : List Str) (s : GraphState W) : Prop where
  vertexs : ∀ name vertices, s.stopVertexs.lookup name = some vertices ↔
    ∃ k, names[k]? = some name ∧ vertices = ⟨2 * k, 2 * k + 1⟩
  totalVertex : s.totalVertex = 2 * names.length

theorem addEdgeWithInfo_spec {n : Nat} {trips : List (Trip W)} {s : GraphState W}
    (h : Holds n trips s) (trip : Trip W) (hsource : trip.edge.source < n)
    (htarget : trip.edge.target < n) :
    ∃ s', addEdgeWithInfo trip.edge trip.info s = .ok s' ∧ Holds n (trips ++ [trip]) s' ∧
      s'.stopVertexs = s.stopVertexs ∧ s'.totalVertex = s.totalVertex := by
  obtain ⟨g', heq, hedges, hcount, hinv⟩ := DirectedWeightedGraph.addEdge_spec h.graph
    (h.vertexCount ▸ hsource) (h.vertexCount ▸ htarget)
  have hlength : s.graphOfStops.edges.length = trips.length := by simp [h.edges]
  refine ⟨{ s with
    graphOfStops := g'
    infoAboutEdge := s.infoAboutEdge.emplace s.graphOfStops.edges.length trip.info },
    ?_, ⟨?_, ?_, hinv, hcount.trans h.vertexCount⟩, rfl, rfl⟩
  · simp only [addEdgeWithInfo, heq, bind, Except.bind]
    rfl
  · simp [hedges, h.edges]
  · intro id
    simp only [UnorderedMap.lookup_emplace, h.info, hlength, getElem?_append_singleton]
    by_cases hid : id = trips.length <;> simp [hid]

theorem vertex_lt {n m k : Nat} (hn : n = 2 * m) (hk : k < m) : 2 * k + 1 < n := by
  omega

theorem inVertex_injective {k m : Nat} (h : 2 * k = 2 * m) : k = m := by
  omega

theorem outVertex_injective {k m : Nat} (h : 2 * k + 1 = 2 * m + 1) : k = m := by
  omega

theorem inVertex_ne_outVertex (k m : Nat) : 2 * k ≠ 2 * m + 1 := by
  omega

section Trips

variable [NatCast W] (rs : RoutingSettings) (db : TransportCatalogue)

/-- The edge that waits at the stop at place `k`. -/
def waitTrip (k : StopPtr) : Trip W :=
  ⟨⟨2 * k, 2 * k + 1, (rs.busWaitTime.toNat : W)⟩,
    ⟨(db.stop k).name, (rs.busWaitTime.toNat : W), none⟩⟩

variable [Mul W] [Div W] [Zero W]

/-- The time from a stop to the next, `0` when the road has no length. -/
def travelTime (p q : StopPtr) : W :=
  match calculateTimeBetweenStations rs db (db.stop p).name (db.stop q).name with
  | .ok time => time
  | .error _ => 0

variable [Add W]

/-- The rides that start at the stop `first`, those beyond the stop `prev`. -/
def ridesFrom (busName : Str) (first prev : StopPtr) (timeToRoad : W) (stopsCount : Nat) :
    List StopPtr → List (Trip W)
  | [] => []
  | next :: rest =>
      let timeToRoad := timeToRoad + travelTime rs db prev next
      ⟨⟨2 * first + 1, 2 * next, timeToRoad⟩, ⟨busName, timeToRoad, some (stopsCount + 1)⟩⟩ ::
        ridesFrom busName first next timeToRoad (stopsCount + 1) rest

/-- The rides between all pairs of a sequence of stops. -/
def ridesAlong (busName : Str) : List StopPtr → List (Trip W)
  | [] => []
  | first :: rest =>
      ridesFrom rs db busName first first 0 0 rest ++ ridesAlong busName rest

def busTrips (bus : Bus) : List (Trip W) :=
  ridesAlong rs db bus.name bus.stops ++
    if bus.isLoopTrip then [] else ridesAlong rs db bus.name bus.stops.reverse

/-- All edges of the graph in the order of their ids. -/
def allTrips : List (Trip W) :=
  (List.range db.allStops.length).map (waitTrip rs db) ++
    db.allBuses.flatMap (busTrips rs db)

end Trips

/-- A part of the construction adds the edges of `new` if the roads it needs are
measured, and throws otherwise. -/
def Outcome (n : Nat) (names : List Str) (trips new : List (Trip W)) (measured : Prop)
    (result : Except Failure (GraphState W)) : Prop :=
  (measured ∧ ∃ s, result = .ok s ∧ Holds n (trips ++ new) s ∧ Numbered names s) ∨
    (¬ measured ∧ result = .error (.logicError "Not found Lenght between this stops"))

namespace Outcome

variable {n : Nat} {names : List Str} {trips new new' : List (Trip W)} {m k : Prop}
  {x : Except Failure (GraphState W)} {f : GraphState W → Except Failure (GraphState W)}

theorem unchanged {s : GraphState W} (h : Holds n trips s) (hnames : Numbered names s) :
    Outcome n names trips [] True (.ok s) :=
  Or.inl ⟨trivial, s, rfl, by rwa [List.append_nil], hnames⟩

theorem bind (h : Outcome n names trips new m x)
    (h' : ∀ s, Holds n (trips ++ new) s → Numbered names s →
      Outcome n names (trips ++ new) new' k (f s)) :
    Outcome n names trips (new ++ new') (m ∧ k) (x >>= f) := by
  rcases h with ⟨hm, s, rfl, hs, hnames⟩ | ⟨hm, rfl⟩
  · rcases h' s hs hnames with ⟨hm', s', heq, hs', hnames'⟩ | ⟨hm', heq⟩
    · exact Or.inl ⟨⟨hm, hm'⟩, s', heq, by rwa [← List.append_assoc], hnames'⟩
    · exact Or.inr ⟨fun hboth => hm' hboth.2, heq⟩
  · exact Or.inr ⟨fun hboth => hm hboth.1, rfl⟩

theorem congr (h : Outcome n names trips new m x) (hm : m ↔ k) :
    Outcome n names trips new k x := by
  simpa only [Outcome, hm] using h

theorem foldlM {A : Type} {f : GraphState W → A → Except Failure (GraphState W)}
    {trips : List (Trip W)} {newOf : A → List (Trip W)} {measured : A → Prop} (l : List A)
    (hstep : ∀ a ∈ l, ∀ trips s, Holds n trips s → Numbered names s →
      Outcome n names trips (newOf a) (measured a) (f s a))
    {s : GraphState W} (h : Holds n trips s) (hnames : Numbered names s) :
    Outcome n names trips (l.flatMap newOf) (∀ a ∈ l, measured a) (l.foldlM f s) := by
  induction l generalizing trips s with
  | nil => exact (unchanged h hnames).congr (by simp)
  | cons a l ih =>
      rw [List.foldlM_cons, List.flatMap_cons]
      refine ((hstep a (by simp) trips s h hnames).bind fun s' hs' hnames' => ?_).congr
        (List.forall_mem_cons (p := measured)).symm
      exact ih (fun b hb => hstep b (by simp [hb])) hs' hnames'

end Outcome

theorem Numbered.lookup {db : TransportCatalogue} {s : GraphState W}
    (h : Numbered db.names s) {p : StopPtr} (hp : p < db.allStops.length) :
    mapAt s.stopVertexs (db.stop p).name = .ok ⟨2 * p, 2 * p + 1⟩ :=
  mapAt_of_lookup
    ((h.vertexs _ _).mpr ⟨p, TransportCatalogue.names_getElem?_of_lt hp, rfl⟩)

def initialState (db : TransportCatalogue) : GraphState W :=
  { totalVertex := 0
    graphOfStops := DirectedWeightedGraph.ofVertexCount (db.allStops.length * 2)
    stopVertexs := ∅
    infoAboutEdge := ∅ }

theorem initialState_holds (db : TransportCatalogue) :
    Holds (2 * db.allStops.length) [] (initialState db : GraphState W) where
  edges := rfl
  info := by simp [initialState]
  graph := DirectedWeightedGraph.ofVertexCount_inv _
  vertexCount := by
    rw [initialState, DirectedWeightedGraph.getVertexCount_ofVertexCount, Nat.mul_comm]

section Construction

variable [NatCast W] (rs : RoutingSettings) {db : TransportCatalogue}

theorem createVertex_spec {n : Nat} {trips : List (Trip W)} {s : GraphState W}
    {stops : List Stop} {stop : Stop} (h : Holds n trips s)
    (hnames : Numbered (stops.map Stop.name) s) (hnew : stop.name ∉ stops.map Stop.name)
    (hn : 2 * stops.length + 1 < n) (hstop : db.stop stops.length = stop) :
    ∃ s', createVertex rs stop s = .ok s' ∧
      Holds n (trips ++ [waitTrip rs db stops.length]) s' ∧
      Numbered ((stops ++ [stop]).map Stop.name) s' := by
  have htotal : s.totalVertex = 2 * stops.length := by simpa using hnames.totalVertex
  have hnone : s.stopVertexs.lookup stop.name = none := by
    rw [Option.eq_none_iff_forall_ne_some]
    intro vertices hvertices
    obtain ⟨k, hk, -⟩ := (hnames.vertexs _ _).mp hvertices
    exact hnew (List.mem_of_getElem? hk)
  obtain ⟨s', heq, hs', hvertexs, htotal'⟩ := addEdgeWithInfo_spec
    (s := { s with
      stopVertexs := (s.stopVertexs.assign stop.name ⟨2 * stops.length, 0⟩).assign stop.name
        ⟨2 * stops.length, 2 * stops.length + 1⟩
      totalVertex := 2 * stops.length + 1 + 1 })
    ⟨h.edges, h.info, h.graph, h.vertexCount⟩ (waitTrip rs db stops.length)
    (Nat.lt_of_succ_lt hn) hn
  refine ⟨s', ?_, hs', ?_, ?_⟩
  · rw [← heq]
    simp [createVertex, hnone, UnorderedMap.lookup_assign, mapAt, htotal, waitTrip, hstop, bind,
      Except.bind]
  · intro name vertices
    rw [hvertexs]
    simp only [UnorderedMap.lookup_assign, List.map_append, List.map_cons, List.map_nil,
      getElem?_append_singleton, List.length_map]
    by_cases hname : name = stop.name
    · subst hname
      rw [if_pos rfl]
      constructor
      · intro hv
        cases hv
        exact ⟨stops.length, by simp, rfl⟩
      · rintro ⟨k, hk, rfl⟩
        split at hk
        · rename_i hlast
          rw [hlast]
        · exact absurd (List.mem_of_getElem? hk) hnew
    · rw [if_neg hname, if_neg hname, hnames.vertexs]
      refine exists_congr fun k => and_congr_left fun _ => ?_
      split
      · rename_i hlast
        subst hlast
        simp [Ne.symm hname]
      · rfl
  · rw [htotal', List.length_map, List.length_append, List.length_singleton]
    exact (Nat.mul_succ 2 stops.length).symm

theorem createVertices_spec {n : Nat} (hdb : TransportCatalogue.StoreInv db)
    (hn : n = 2 * db.allStops.length) {trips : List (Trip W)} {s : GraphState W}
    (done rest : List Stop) (hall : db.allStops = done ++ rest)
    (htrips : trips = (List.range done.length).map (waitTrip rs db))
    (h : Holds n trips s) (hnames : Numbered (done.map Stop.name) s) :
    ∃ s', rest.foldlM (fun s stop => createVertex rs stop s) s = .ok s' ∧
      Holds n ((List.range db.allStops.length).map (waitTrip rs db)) s' ∧
      Numbered db.names s' := by
  induction rest generalizing done trips s with
  | nil =>
      rw [List.append_nil] at hall
      subst htrips
      exact ⟨s, rfl, by rwa [hall], by rwa [TransportCatalogue.names, hall]⟩
  | cons stop rest ih =>
      have hstop : db.stop done.length = stop :=
        TransportCatalogue.stop_of_getElem? (by simp [hall])
      have hnodup := hdb.names_nodup
      rw [TransportCatalogue.names, hall, List.map_append, List.map_cons] at hnodup
      have hnew : stop.name ∉ done.map Stop.name := by
        intro hmem
        exact (List.nodup_append.mp hnodup).2.2 _ hmem _ (by simp) rfl
      have hlt : 2 * done.length + 1 < n := vertex_lt hn (by simp [hall])
      obtain ⟨s₁, heq₁, hs₁, hnames₁⟩ := createVertex_spec rs h hnames hnew hlt hstop
      obtain ⟨s', heq, hs', hnames'⟩ := ih (done ++ [stop]) (by simp [hall])
        (by simp [htrips, List.range_succ]) hs₁ hnames₁
      refine ⟨s', ?_, hs', hnames'⟩
      rw [List.foldlM_cons, heq₁]
      exact heq

variable [Mul W] [Div W] [Zero W]

theorem calculateTimeBetweenStations_spec (p q : StopPtr) (h : TransportCatalogue.StoreInv db)
    (hp : p < db.allStops.length) (hq : q < db.allStops.length) :
    (db.HasLenght p q ∧ calculateTimeBetweenStations rs db (db.stop p).name (db.stop q).name =
        .ok (travelTime rs db p q : W)) ∨
      (¬ db.HasLenght p q ∧
        (calculateTimeBetweenStations rs db (db.stop p).name (db.stop q).name :
          Except Failure W) = .error (.logicError "Not found Lenght between this stops")) := by
  by_cases hl : db.HasLenght p q
  · refine Or.inl ⟨hl, ?_⟩
    obtain ⟨lenght, hlenght⟩ := hl
    simp only [travelTime, calculateTimeBetweenStations, hlenght, bind, Except.bind]
    rfl
  · refine Or.inr ⟨hl, ?_⟩
    simp only [calculateTimeBetweenStations,
      TransportCatalogue.getLenghtBetweenStops_of_not_hasLenght h hp hq hl, bind, Except.bind]

variable [Add W] {n : Nat} {trips : List (Trip W)} {s : GraphState W} (bus : Bus)

theorem createEdgesFrom_spec (hdb : TransportCatalogue.StoreInv db)
    (hn : n = 2 * db.allStops.length) {first prev : StopPtr} (hfirst : first < db.allStops.length)
    (hprev : prev < db.allStops.length) (timeToRoad : W) (stopsCount : Nat)
    (rest : List StopPtr) (hrest : ∀ p ∈ rest, p < db.allStops.length)
    (h : Holds n trips s) (hnames : Numbered db.names s) :
    Outcome n db.names trips
      (ridesFrom rs db bus.name first prev timeToRoad stopsCount rest)
      ((prev :: rest).IsChain db.HasLenght)
      (createEdgesFrom rs db bus (2 * first + 1) prev timeToRoad stopsCount rest s) := by
  induction rest generalizing prev timeToRoad stopsCount trips s with
  | nil => exact (Outcome.unchanged h hnames).congr (by simp)
  | cons next rest ih =>
      have hnext := hrest next (by simp)
      rw [createEdgesFrom, hnames.lookup hnext, List.isChain_cons_cons]
      rcases calculateTimeBetweenStations_spec (W := W) rs prev next hdb hprev hnext with
        ⟨hl, htime⟩ | ⟨hl, htime⟩
      · -- the ride to the next stop, then the rides beyond it
        obtain ⟨s₁, heq₁, hs₁, hvertexs₁, htotal₁⟩ := addEdgeWithInfo_spec h
          ⟨⟨2 * first + 1, 2 * next, timeToRoad + travelTime rs db prev next⟩,
            ⟨bus.name, timeToRoad + travelTime rs db prev next, some (stopsCount + 1)⟩⟩
          (vertex_lt hn hfirst) (Nat.lt_of_succ_lt (vertex_lt hn hnext))
        have hnames₁ : Numbered db.names s₁ := by
          refine ⟨?_, htotal₁.trans hnames.totalVertex⟩
          rw [hvertexs₁]
          exact hnames.vertexs
        have hrest₁ := ih hnext (timeToRoad + travelTime rs db prev next) (stopsCount + 1)
          (fun p hp => hrest p (by simp [hp])) hs₁ hnames₁
        simp only [htime, heq₁, bind, Except.bind]
        rcases hrest₁ with ⟨hchain, s', heq, hs', hnames'⟩ | ⟨hchain, heq⟩
        · exact Or.inl ⟨⟨hl, hchain⟩, s', heq, by simpa [ridesFrom] using hs', hnames'⟩
        · exact Or.inr ⟨fun hboth => hchain hboth.2, heq⟩
      · refine Or.inr ⟨fun hboth => hl hboth.1, ?_⟩
        simp only [htime, bind, Except.bind]

theorem createEdgesAlong_spec (hdb : TransportCatalogue.StoreInv db)
    (hn : n = 2 * db.allStops.length) (stops : List StopPtr)
    (hstops : ∀ p ∈ stops, p < db.allStops.length)
    (h : Holds n trips s) (hnames : Numbered db.names s) :
    Outcome n db.names trips (ridesAlong rs db bus.name stops) (stops.IsChain db.HasLenght)
      (createEdgesAlong rs db bus stops s) := by
  induction stops generalizing trips s with
  | nil => exact (Outcome.unchanged h hnames).congr (by simp)
  | cons first rest ih =>
      have hfirst := hstops first (by simp)
      have hrest : ∀ p ∈ rest, p < db.allStops.length := fun p hp => hstops p (by simp [hp])
      rw [createEdgesAlong, hnames.lookup hfirst]
      refine ((createEdgesFrom_spec rs bus hdb hn hfirst hfirst 0 0 rest hrest h hnames).bind
        fun s' hs' hnames' => ih hrest hs' hnames').congr ?_
      exact and_iff_left_of_imp List.IsChain.of_cons

/-- The road of a bus has a length between every two neighbouring stops. -/
def Measured (db : TransportCatalogue) (bus : Bus) : Prop := bus.stops.IsChain db.HasLenght

theorem isChain_hasLenght_reverse (hdb : TransportCatalogue.StoreInv db) {stops : List StopPtr}
    (hstops : ∀ p ∈ stops, p < db.allStops.length) :
    stops.reverse.IsChain db.HasLenght ↔ stops.IsChain db.HasLenght := by
  rw [List.isChain_reverse]
  apply List.IsChain.iff_of_mem_imp
  intro p q hp hq
  exact TransportCatalogue.hasLenght_comm hdb (hstops q hq) (hstops p hp)

theorem createEdge_spec (hdb : TransportCatalogue.StoreInv db)
    (hn : n = 2 * db.allStops.length) (hbus : ∀ p ∈ bus.stops, p < db.allStops.length)
    (h : Holds n trips s) (hnames : Numbered db.names s) :
    Outcome n db.names trips (busTrips rs db bus) (Measured db bus) (createEdge rs db bus s) := by
  have hforward := createEdgesAlong_spec rs bus hdb hn bus.stops hbus h hnames
  unfold createEdge busTrips
  cases bus.isLoopTrip with
  | true =>
      refine (hforward.bind (k := True) fun s' hs' hnames' => ?_).congr (by simp [Measured])
      exact Outcome.unchanged hs' hnames'
  | false =>
      refine (hforward.bind (k := Measured db bus) fun s' hs' hnames' => ?_).congr
        (by simp [Measured])
      have hreverse : ∀ p ∈ bus.stops.reverse, p < db.allStops.length := by simpa using hbus
      exact (createEdgesAlong_spec rs bus hdb hn _ hreverse hs' hnames').congr
        (isChain_hasLenght_reverse hdb hbus)

theorem createGraph_spec (hdb : TransportCatalogue.StoreInv db) :
    Outcome (2 * db.allStops.length) db.names ([] : List (Trip W)) (allTrips rs db)
      (∀ bus ∈ db.allBuses, Measured db bus) (createGraph rs db (initialState db)) := by
  obtain ⟨s₁, heq₁, hs₁, hnames₁⟩ := createVertices_spec (W := W) rs hdb rfl []
    db.allStops rfl rfl (initialState_holds db) ⟨by simp [initialState], rfl⟩
  unfold createGraph allTrips
  refine (Outcome.bind (m := True) (Or.inl ⟨trivial, s₁, heq₁, by simpa using hs₁, hnames₁⟩)
    fun s hs hnames => ?_).congr (by rw [true_and])
  refine Outcome.foldlM db.allBuses (fun bus hbus trips s hs hnames => ?_) hs hnames
  exact createEdge_spec rs bus hdb rfl (hdb.busStops bus hbus) hs hnames

end Construction

section Make

variable [NatCast W] [Mul W] [Div W] [Zero W] [Add W] [LT W] [DecidableLT W]
  {rs : RoutingSettings} {db : TransportCatalogue} {tr : TransportRouter W}

def graphState (tr : TransportRouter W) : GraphState W :=
  { totalVertex := tr.totalVertex
    graphOfStops := tr.graphOfStops
    stopVertexs := tr.stopVertexs
    infoAboutEdge := tr.infoAboutEdge }

/-- A `TransportRouter` as its constructor leaves it. -/
structure Made (rs : RoutingSettings) (db : TransportCatalogue) (tr : TransportRouter W) :
    Prop where
  settings : tr.settings = rs
  catalogue : tr.db = db
  holds : Holds (2 * db.allStops.length) (allTrips rs db) tr.graphState
  numbered : Numbered db.names tr.graphState
  measured : ∀ bus ∈ db.allBuses, Measured db bus
  router : Router.ofGraph tr.graphOfStops = .ok tr.router

theorem make_made (hdb : TransportCatalogue.StoreInv db)
    (hmake : make rs db = .ok tr) : Made rs db tr := by
  obtain ⟨s', hgraph, hmake⟩ := bind_eq_ok_iff.mp hmake
  obtain ⟨router, hrouter, hmake⟩ := bind_eq_ok_iff.mp hmake
  cases hmake
  rcases createGraph_spec (W := W) rs hdb with ⟨hmeasured, s, heq, hs, hnames⟩ | ⟨-, heq⟩
  · cases heq.symm.trans hgraph
    exact ⟨rfl, rfl, hs, hnames, hmeasured, hrouter⟩
  · cases heq.symm.trans hgraph

theorem make_of_measured (hdb : TransportCatalogue.StoreInv db)
    (hmeasured : ∀ bus ∈ db.allBuses, Measured db bus)
    (hrouter : ∀ s : GraphState W, Holds (2 * db.allStops.length) (allTrips rs db) s →
      ∃ router, Router.ofGraph s.graphOfStops = .ok router) :
    ∃ tr : TransportRouter W, make rs db = .ok tr := by
  rcases createGraph_spec (W := W) rs hdb with ⟨-, s, heq, hs, -⟩ | ⟨hnot, -⟩
  · obtain ⟨router, hrouter⟩ := hrouter s hs
    refine ⟨_, bind_eq_ok_iff.mpr ⟨s, heq, bind_eq_ok_iff.mpr ⟨router, hrouter, rfl⟩⟩⟩
  · exact absurd hmeasured hnot

end Make

end TransportRouter

end TransportSystem
