import TransportSystem.CatalogueProto
import TransportSystem.CatalogueAnswers
import TransportSystem.RouteGraph

namespace TransportSystem.TransportRouter

open TransportSystem.Graph
open Library.UniqueKeys
open TransportCatalogue (StoreInv view numberStops)

variable {W : Type}

section Save

def saveRoutingSettingsToProto (tr : TransportRouter W) : RouterSerialize.RoutingSettings :=
  ⟨tr.settings.busWaitTime.toUInt32, tr.settings.busVelocity.toUInt32⟩

/-- `SaveGraphToProto`. It writes `from` into `to` as well. -/
def saveGraphToProto (tr : TransportRouter W) :
    Except Failure (RouterSerialize.DirectedWeightedGraph W) := do
  let edges ← (List.range tr.graphOfStops.getEdgeCount).mapM fun i => do
    let edge ← tr.graphOfStops.getEdge i
    pure (⟨UInt32.ofNat edge.source, UInt32.ofNat edge.source, edge.weight⟩ :
      RouterSerialize.Edge W)
  pure ⟨edges, tr.graphOfStops.incidenceLists.map fun ids => ⟨ids.map UInt32.ofNat⟩⟩

variable [Zero W]

def saveRouteInternalData : Option (RouteInternalData W) → RouterSerialize.RouteInternalData W
  | some data =>
      { isInitialisation := true
        weight := data.weight
        prevEdge := data.prevEdge.map fun id => ⟨UInt32.ofNat id⟩ }
  | none => { isInitialisation := false, weight := 0, prevEdge := none }

def saveRouterToProto (tr : TransportRouter W) : RouterSerialize.Router W :=
  ⟨tr.router.routesInternalData.map fun internalList => ⟨internalList.map saveRouteInternalData⟩⟩

def saveComponentTrip (component : ComponentTrip W) : RouterSerialize.ComponentTrip W :=
  { name := component.name
    weight := component.weight
    spanCount := component.spanCount.map fun count => ⟨UInt32.ofNat count⟩ }

/-- The loop of `SaveToProto` over the vertices of the stops. -/
def saveStopVertex (nameStops : UnorderedMap Str UInt32)
    (m : UnorderedMap UInt32 RouterSerialize.VertexId) (e : Σ _ : Str, StopVertices) :
    Except Failure (UnorderedMap UInt32 RouterSerialize.VertexId) := do
  let name ← mapAt nameStops e.1
  pure (m.assign name ⟨UInt32.ofNat e.2.inVertex, UInt32.ofNat e.2.outVertex⟩)

/-- `TransportRouter::SaveToProto`, with the orders in which it meets the
elements of its two maps. -/
def saveToProto (stopOrder : Iteration Str StopVertices)
    (edgeOrder : Iteration EdgeId (ComponentTrip W)) (tr : TransportRouter W) :
    Except Failure (RouterSerialize.TransportRouter W) := do
  let (nameStops, stops) := numberStops Stop.name UInt32.ofNat tr.db.allStops
  let graphOfStops ← tr.saveGraphToProto
  let stopVertexs ← (stopOrder.order tr.stopVertexs).foldlM (saveStopVertex nameStops) ∅
  let infoAboutEdge := (edgeOrder.order tr.infoAboutEdge).foldl
    (fun (m : UnorderedMap UInt32 (RouterSerialize.ComponentTrip W)) e =>
      m.assign (UInt32.ofNat e.1) (saveComponentTrip e.2)) ∅
  pure
    { settings := tr.saveRoutingSettingsToProto
      totalVertex := UInt32.ofNat tr.totalVertex
      graphOfStops := graphOfStops
      router := tr.saveRouterToProto
      stopVertexs := stopVertexs
      infoAboutEdge := infoAboutEdge
      stops := stops }

end Save

/-- The graph in the block of `DeserializeTransportRouter`. -/
def loadGraph (proto : RouterSerialize.DirectedWeightedGraph W) : DirectedWeightedGraph W :=
  { edges := proto.edges.map fun edge => ⟨edge.source.toNat, edge.target.toNat, edge.weight⟩
    incidenceLists := proto.incidenceLists.map fun ids => ids.edgeIds.map UInt32.toNat }

def loadRouteInternalData (proto : RouterSerialize.RouteInternalData W) :
    Option (RouteInternalData W) :=
  if proto.isInitialisation then
    some
      { weight := proto.weight
        prevEdge := proto.prevEdge.map fun prevEdge => prevEdge.data.toNat }
  else none

/-- The loop of `DeserializeTransportRouter` over the rows of the table. The
vector `internal_list` lives through all of them; it is empty after it has been
moved from. -/
def loadRow (state : List (Option (RouteInternalData W)) × RoutesInternalData W)
    (row : RouterSerialize.RoutesInternalData W) :
    List (Option (RouteInternalData W)) × RoutesInternalData W :=
  let internalList := row.data.foldl
    (fun internalList data => internalList ++ [loadRouteInternalData data]) state.1
  ([], state.2 ++ [internalList])

def loadRoutes (proto : RouterSerialize.Router W) : RoutesInternalData W :=
  (proto.routesInternalData.foldl loadRow ([], [])).2

/-- The loop of `DeserializeTransportRouter` over the vertices of the stops. -/
def loadStopVertex (proto : RouterSerialize.TransportRouter W) (db : TransportCatalogue)
    (m : UnorderedMap Str StopVertices) (e : Σ _ : UInt32, RouterSerialize.VertexId) :
    Except Failure (UnorderedMap Str StopVertices) := do
  let name := (← db.findStop (← repeatedAt proto.stops e.1)).name
  let vertices := (m.lookup name).getD ⟨0, 0⟩
  let m := m.assign name { vertices with inVertex := e.2.inVertex.toNat }
  let name := (← db.findStop (← repeatedAt proto.stops e.1)).name
  let vertices := (m.lookup name).getD ⟨0, 0⟩
  pure (m.assign name { vertices with outVertex := e.2.outVertex.toNat })

/-- The loop of `DeserializeTransportRouter` over the entries of the edges. -/
def loadEdgeInfo (db : TransportCatalogue) (m : UnorderedMap EdgeId (ComponentTrip W))
    (e : Σ _ : UInt32, RouterSerialize.ComponentTrip W) :
    Except Failure (UnorderedMap EdgeId (ComponentTrip W)) := do
  match e.2.spanCount with
  | some spanCount =>
      let bus ← db.findBus e.2.name
      pure (m.assign e.1.toNat ⟨bus.name, e.2.weight, some spanCount.data.toNat⟩)
  | none =>
      let stop ← db.findStop e.2.name
      pure (m.assign e.1.toNat ⟨stop.name, e.2.weight, none⟩)

/-- `DeserializeTransportRouter`, with the orders in which it meets the elements
of the two maps of the message. -/
def deserializeTransportRouter (stopOrder : Iteration UInt32 RouterSerialize.VertexId)
    (edgeOrder : Iteration UInt32 (RouterSerialize.ComponentTrip W))
    (proto : RouterSerialize.TransportRouter W) (db : TransportCatalogue) :
    Except Failure (TransportRouter W) := do
  let graphOfStops := loadGraph proto.graphOfStops
  let stopVertexs ← (stopOrder.order proto.stopVertexs).foldlM (loadStopVertex proto db) ∅
  let infoAboutEdge ← (edgeOrder.order proto.infoAboutEdge).foldlM (loadEdgeInfo db) ∅
  pure
    { settings :=
        ⟨proto.settings.busWaitTime.toUInt16, proto.settings.busVelocity.toUInt16⟩
      db := db
      totalVertex := proto.totalVertex.toNat
      graphOfStops := graphOfStops
      router := ⟨graphOfStops, loadRoutes proto.router⟩
      stopVertexs := stopVertexs
      infoAboutEdge := infoAboutEdge }

section Entries

variable [NatCast W] [Mul W] [Div W] [Zero W] [Add W] {rs : RoutingSettings}
  {db : TransportCatalogue}

theorem ridesFrom_info {busName : Str} {first prev : StopPtr} {timeToRoad : W} {stopsCount : Nat}
    {rest : List StopPtr} {trip : Trip W}
    (h : trip ∈ ridesFrom rs db busName first prev timeToRoad stopsCount rest) :
    trip.info.name = busName ∧ ∃ count, trip.info.spanCount = some count ∧
      count ≤ stopsCount +
        (ridesFrom rs db busName first prev timeToRoad stopsCount rest).length := by
  induction rest generalizing prev timeToRoad stopsCount with
  | nil => simp [ridesFrom] at h
  | cons next rest ih =>
      rw [ridesFrom] at h ⊢
      rcases List.mem_cons.mp h with rfl | h
      · exact ⟨rfl, _, rfl, by simp⟩
      · obtain ⟨hname, count, hcount, hle⟩ := ih h
        refine ⟨hname, count, hcount, ?_⟩
        rw [List.length_cons]
        omega

theorem ridesAlong_info {busName : Str} {stops : List StopPtr} {trip : Trip W}
    (h : trip ∈ ridesAlong rs db busName stops) :
    trip.info.name = busName ∧ ∃ count, trip.info.spanCount = some count ∧
      count ≤ (ridesAlong rs db busName stops : List (Trip W)).length := by
  induction stops with
  | nil => simp [ridesAlong] at h
  | cons first rest ih =>
      rw [ridesAlong] at h ⊢
      rw [List.length_append]
      rcases List.mem_append.mp h with h | h
      · obtain ⟨hname, count, hcount, hle⟩ := ridesFrom_info h
        exact ⟨hname, count, hcount, by omega⟩
      · obtain ⟨hname, count, hcount, hle⟩ := ih h
        exact ⟨hname, count, hcount, by omega⟩

theorem busTrips_info {bus : Bus} {trip : Trip W} (h : trip ∈ busTrips rs db bus) :
    trip.info.name = bus.name ∧ ∃ count, trip.info.spanCount = some count ∧
      count ≤ (busTrips rs db bus : List (Trip W)).length := by
  rw [busTrips] at h ⊢
  rw [List.length_append]
  rcases List.mem_append.mp h with h | h
  · obtain ⟨hname, count, hcount, hle⟩ := ridesAlong_info h
    exact ⟨hname, count, hcount, by omega⟩
  · cases hloop : bus.isLoopTrip with
    | true => simp [hloop] at h
    | false =>
        simp only [hloop, Bool.false_eq_true, if_false] at h ⊢
        obtain ⟨hname, count, hcount, hle⟩ := ridesAlong_info h
        exact ⟨hname, count, hcount, by omega⟩

/-- An edge waits at a stop, or rides a bus past no more stops than there are
edges. -/
theorem allTrips_info {trip : Trip W} (h : trip ∈ allTrips rs db) :
    (trip.info.spanCount = none ∧ ∃ p, p < db.allStops.length ∧
        trip.info.name = (db.stop p).name) ∨
      ∃ bus ∈ db.allBuses, trip.info.name = bus.name ∧ ∃ count,
        trip.info.spanCount = some count ∧
          count ≤ (allTrips rs db : List (Trip W)).length := by
  rw [allTrips] at h ⊢
  rcases List.mem_append.mp h with h | h
  · obtain ⟨p, hp, rfl⟩ := List.mem_map.mp h
    exact Or.inl ⟨rfl, p, List.mem_range.mp hp, rfl⟩
  · obtain ⟨bus, hbus, h⟩ := List.mem_flatMap.mp h
    obtain ⟨hname, count, hcount, hle⟩ := busTrips_info h
    have hsum : (busTrips rs db bus : List (Trip W)).length ≤
        (db.allBuses.flatMap (busTrips rs db) : List (Trip W)).length :=
      (List.sublist_flatten_of_mem (List.mem_map_of_mem hbus)).length_le
    refine Or.inr ⟨bus, hbus, hname, count, hcount, ?_⟩
    rw [List.length_append]
    omega

end Entries

/-- The graph that is read back: all edges lead to where they come from. -/
def turnedBack (g : DirectedWeightedGraph W) : DirectedWeightedGraph W :=
  { g with edges := g.edges.map fun edge => { edge with target := edge.source } }

theorem mapM_getEdge {A : Type} (f : Edge W → A) (edges : List (Edge W))
    (incidenceLists : List (List EdgeId)) :
    (List.range edges.length).mapM (fun i => do
      let edge ← DirectedWeightedGraph.getEdge ⟨edges, incidenceLists⟩ i
      pure (f edge)) = Except.ok (edges.map f) := by
  induction edges with
  | nil => rfl
  | cons edge edges ih =>
      rw [List.length_cons, List.range_succ_eq_map, List.mapM_cons, List.mapM_map]
      have htail : (fun i => do
          let edge ← DirectedWeightedGraph.getEdge ⟨edge :: edges, incidenceLists⟩ i
          pure (f edge)) ∘ Nat.succ = (fun i => do
          let edge ← DirectedWeightedGraph.getEdge ⟨edges, incidenceLists⟩ i
          pure (f edge)) := rfl
      rw [htail, ih]
      rfl

def protoGraph (g : DirectedWeightedGraph W) : RouterSerialize.DirectedWeightedGraph W :=
  ⟨g.edges.map fun edge => ⟨UInt32.ofNat edge.source, UInt32.ofNat edge.source, edge.weight⟩,
    g.incidenceLists.map fun ids => ⟨ids.map UInt32.ofNat⟩⟩

theorem saveGraphToProto_spec (tr : TransportRouter W) :
    tr.saveGraphToProto = .ok (protoGraph tr.graphOfStops) := by
  unfold saveGraphToProto
  rw [DirectedWeightedGraph.getEdgeCount, mapM_getEdge]
  rfl

theorem loadGraph_spec {g : DirectedWeightedGraph W} (hg : g.Inv)
    (hvertices : g.getVertexCount < 2 ^ 32) (hedges : g.getEdgeCount < 2 ^ 32) :
    loadGraph (protoGraph g) = turnedBack g := by
  have hsources : ∀ edge ∈ g.edges, (UInt32.ofNat edge.source).toNat = edge.source :=
    fun edge hedge => UInt32.toNat_ofNat_of_lt' ((hg.source_lt edge hedge).trans hvertices)
  have hids : ∀ ids ∈ g.incidenceLists, (ids.map UInt32.ofNat).map UInt32.toNat = ids := by
    intro ids hids
    obtain ⟨v, hv⟩ := List.mem_iff_getElem?.mp hids
    rw [List.map_map]
    refine (List.map_congr_left fun id hid => ?_).trans (List.map_id ids)
    obtain ⟨edge, hedge, -⟩ := (hg.incident v ids hv id).mp hid
    exact UInt32.toNat_ofNat_of_lt' ((List.getElem?_eq_some_iff.mp hedge).1.trans hedges)
  unfold loadGraph protoGraph turnedBack
  congr 1
  · rw [List.map_map]
    refine List.map_congr_left fun edge hedge => ?_
    simp only [Function.comp_apply, hsources edge hedge]
  · rw [List.map_map]
    exact (List.map_congr_left hids).trans (List.map_id g.incidenceLists)

theorem foldl_append_map {A B : Type} (f : A → B) (l : List A) (init : List B) :
    l.foldl (fun list a => list ++ [f a]) init = init ++ l.map f := by
  induction l generalizing init with
  | nil => simp
  | cons a l ih => rw [List.foldl_cons, ih, List.map_cons, List.append_assoc, List.singleton_append]

theorem loadRoutes_eq (proto : RouterSerialize.Router W) :
    loadRoutes proto =
      proto.routesInternalData.map fun row => row.data.map loadRouteInternalData := by
  have hfold : ∀ (rows : List (RouterSerialize.RoutesInternalData W)) (init : RoutesInternalData W),
      rows.foldl loadRow ([], init) =
        ([], init ++ rows.map fun row => row.data.map loadRouteInternalData) := by
    intro rows
    induction rows with
    | nil => simp
    | cons row rows ih =>
        intro init
        rw [List.foldl_cons, loadRow, foldl_append_map, ih]
        simp
  rw [loadRoutes, hfold, List.nil_append]

/-- The table survives: an absent edge stays absent, and an absent entry too. -/
theorem loadRoutes_spec [Zero W] (tr : TransportRouter W) {m : Nat} (hm : m ≤ 2 ^ 32)
    (hbelow : tr.router.routesInternalData.EdgesBelow m) :
    loadRoutes tr.saveRouterToProto = tr.router.routesInternalData := by
  have hdata : ∀ row ∈ tr.router.routesInternalData, ∀ data ∈ row,
      loadRouteInternalData (saveRouteInternalData data) = data := by
    intro row hrow data hdata
    cases data with
    | none => rfl
    | some r =>
        obtain ⟨weight, _ | id⟩ := r
        · rfl
        · obtain ⟨i, hi⟩ := List.mem_iff_getElem?.mp hrow
          obtain ⟨j, hj⟩ := List.mem_iff_getElem?.mp hdata
          have hget : tr.router.routesInternalData.get i j = some ⟨weight, some id⟩ := by
            simp [RoutesInternalData.get, List.getD_eq_getElem?_getD, hi, hj]
          have hid := (hbelow i j _ hget id rfl).trans_le hm
          simp [loadRouteInternalData, saveRouteInternalData, UInt32.toNat_ofNat_of_lt' hid]
  rw [loadRoutes_eq, saveRouterToProto, List.map_map]
  refine (List.map_congr_left fun row hrow => ?_).trans (List.map_id _)
  simp only [Function.comp_apply, List.map_map]
  exact (List.map_congr_left (hdata row hrow)).trans (List.map_id row)

/-- What is read back from a saved router: only the targets of its edges have
changed. -/
structure Restored (tr : TransportRouter W) (db' : TransportCatalogue) (tr' : TransportRouter W) :
    Prop where
  settings : tr'.settings = tr.settings
  catalogue : tr'.db = db'
  totalVertex : tr'.totalVertex = tr.totalVertex
  graph : tr'.graphOfStops = turnedBack tr.graphOfStops
  router : tr'.router = ⟨turnedBack tr.graphOfStops, tr.router.routesInternalData⟩
  stopVertexs : ∀ name, tr'.stopVertexs.lookup name = tr.stopVertexs.lookup name
  infoAboutEdge : ∀ id, tr'.infoAboutEdge.lookup id = tr.infoAboutEdge.lookup id

section Restore

variable [NatCast W] [Mul W] [Div W] [Zero W] [Add W] [LT W] [DecidableLT W]
  {rs : RoutingSettings} {db db' : TransportCatalogue} {tr : TransportRouter W}

theorem findStop_of_view (h : StoreInv db) (h' : StoreInv db') (hview : view db' = view db)
    {p : StopPtr} (hp : p < db.allStops.length) :
    ∃ stop, db'.findStop (db.stop p).name = .ok stop ∧ stop.name = (db.stop p).name := by
  have hmem : (db.stop p).name ∈ db'.names := by
    rw [TransportCatalogue.mem_names_iff_coordinates h', hview,
      TransportCatalogue.view_coordinates_names h hp]
    exact Option.some_ne_none _
  obtain ⟨q, hq, -, hname⟩ := h'.lookup_of_mem hmem
  exact ⟨db'.stop q, by rw [TransportCatalogue.findStop, mapAt_of_lookup hq]; rfl, hname⟩

theorem findBus_of_view (h : StoreInv db) (h' : StoreInv db') (hview : view db' = view db)
    {bus : Bus} (hbus : bus ∈ db.allBuses) :
    ∃ bus', db'.findBus bus.name = .ok bus' ∧ bus'.name = bus.name := by
  obtain ⟨p, hp⟩ := UnorderedMap.mem_iff_lookup.mp (h.busNames bus hbus)
  have hname := congrFun (congrArg TransportCatalogue.View.bus hview) bus.name
  simp only [view, hp, Option.map_some, Option.map_eq_some_iff] at hname
  obtain ⟨q, hq, -⟩ := hname
  exact ⟨db'.bus q, by rw [TransportCatalogue.findBus, mapAt_of_lookup hq]; rfl, (h'.bus_mem hq).2⟩

namespace Made

variable (h : Made rs db tr)

include h

theorem getEdgeCount :
    tr.graphOfStops.getEdgeCount = (allTrips rs db : List (Trip W)).length := by
  rw [DirectedWeightedGraph.getEdgeCount, ← List.length_map (f := Trip.edge)]
  exact congrArg List.length h.holds.edges

theorem infoAboutEdge_spec {id : EdgeId} {component : ComponentTrip W}
    (hid : tr.infoAboutEdge.lookup id = some component) :
    id < tr.graphOfStops.getEdgeCount ∧
      ((component.spanCount = none ∧ ∃ p, p < db.allStops.length ∧
          component.name = (db.stop p).name) ∨
        ∃ bus ∈ db.allBuses, component.name = bus.name ∧ ∃ count,
          component.spanCount = some count ∧ count ≤ tr.graphOfStops.getEdgeCount) := by
  have hinfo : (allTrips rs db)[id]?.map Trip.info = some component :=
    (h.holds.info id).symm.trans hid
  obtain ⟨trip, htrip, rfl⟩ := Option.map_eq_some_iff.mp hinfo
  rw [h.getEdgeCount]
  exact ⟨(List.getElem?_eq_some_iff.mp htrip).1, allTrips_info (List.mem_of_getElem? htrip)⟩

theorem stopVertexs_spec {name : Str} {vertices : StopVertices}
    (hname : tr.stopVertexs.lookup name = some vertices) :
    ∃ k, k < db.allStops.length ∧ (db.stop k).name = name ∧ vertices = ⟨2 * k, 2 * k + 1⟩ := by
  obtain ⟨k, hk, hvertices⟩ := (h.numbered.vertexs name vertices).mp hname
  have hlt := (List.getElem?_eq_some_iff.mp hk).1
  rw [TransportCatalogue.length_names] at hlt
  exact ⟨k, hlt, TransportCatalogue.stop_name_of_names hk, hvertices⟩

end Made

def stopNumber (tr : TransportRouter W) (name : Str) : UInt32 :=
  ((numberStops Stop.name UInt32.ofNat tr.db.allStops).1.lookup name).getD 0

def protoRouter (stopOrder : Iteration Str StopVertices)
    (edgeOrder : Iteration EdgeId (ComponentTrip W)) (tr : TransportRouter W) :
    RouterSerialize.TransportRouter W :=
  { settings := tr.saveRoutingSettingsToProto
    totalVertex := UInt32.ofNat tr.totalVertex
    graphOfStops := protoGraph tr.graphOfStops
    router := tr.saveRouterToProto
    stopVertexs := tr.stopVertexs.recode stopOrder tr.stopNumber fun _ vertices =>
      ⟨UInt32.ofNat vertices.inVertex, UInt32.ofNat vertices.outVertex⟩
    infoAboutEdge := tr.infoAboutEdge.recode edgeOrder UInt32.ofNat fun _ component =>
      saveComponentTrip component
    stops := tr.db.allStops.map Stop.name }

section Maps

variable (h : Made rs db tr) (hdb : StoreInv db) (stopOrder : Iteration Str StopVertices)
  (edgeOrder : Iteration EdgeId (ComponentTrip W))

include h hdb

theorem numberStops_stop {k : StopPtr} (hk : k < db.allStops.length) :
    (numberStops Stop.name UInt32.ofNat tr.db.allStops).1.lookup (db.stop k).name =
      some (UInt32.ofNat k) := by
  rw [h.catalogue]
  exact TransportCatalogue.numberStops_lookup _ _ hdb hk

theorem saveToProto_spec :
    saveToProto stopOrder edgeOrder tr = .ok (protoRouter stopOrder edgeOrder tr) := by
  have hstops : (stopOrder.order tr.stopVertexs).foldlM
      (saveStopVertex (numberStops Stop.name UInt32.ofNat tr.db.allStops).1) ∅ =
      .ok (protoRouter stopOrder edgeOrder tr).stopVertexs := by
    refine foldlM_eq_ok (fun e he m => ?_) ∅
    obtain ⟨k, hk, hname, -⟩ := h.stopVertexs_spec (stopOrder.mem_order.mp he)
    have hnumber := numberStops_stop h hdb hk
    rw [hname] at hnumber
    rw [saveStopVertex, mapAt_of_lookup hnumber, stopNumber, hnumber]
    rfl
  have hsaved : (numberStops Stop.name UInt32.ofNat tr.db.allStops).2 =
      tr.db.allStops.map Stop.name := by
    rw [h.catalogue]
    exact (TransportCatalogue.numberStops_spec _ _ _ hdb.names_nodup).1
  unfold saveToProto
  simp only [saveGraphToProto_spec, hstops, hsaved, bind, Except.bind]
  rfl

variable (hdb' : StoreInv db') (hview : view db' = view db)
  (hvertices : tr.graphOfStops.getVertexCount < 2 ^ 32)
  (hedges : tr.graphOfStops.getEdgeCount < 2 ^ 32)
  (stopOrder' : Iteration UInt32 RouterSerialize.VertexId)
  (edgeOrder' : Iteration UInt32 (RouterSerialize.ComponentTrip W))

include hdb' hview hvertices

theorem loadStopVertexs_spec :
    ∃ stopVertexs, (stopOrder'.order (protoRouter stopOrder edgeOrder tr).stopVertexs).foldlM
        (loadStopVertex (protoRouter stopOrder edgeOrder tr) db') ∅ = .ok stopVertexs ∧
      ∀ name, stopVertexs.lookup name = tr.stopVertexs.lookup name := by
  have hcount : 2 * db.allStops.length < 2 ^ 32 := h.holds.vertexCount ▸ hvertices
  -- the name under which a number is found in the message
  let nameAt : UInt32 → Str := fun i =>
    ((protoRouter stopOrder edgeOrder tr).stops[i.toNat]?).getD []
  have hnumber : ∀ k, k < db.allStops.length → tr.stopNumber (db.stop k).name = UInt32.ofNat k := by
    intro k hk
    rw [stopNumber, numberStops_stop h hdb hk, Option.getD_some]
  have hget : ∀ k, k < db.allStops.length →
      (protoRouter stopOrder edgeOrder tr).stops[k]? = some (db.stop k).name := by
    intro k hk
    rw [protoRouter, h.catalogue]
    exact TransportCatalogue.names_getElem?_of_lt hk
  have hrepeated : ∀ k, k < db.allStops.length →
      repeatedAt (protoRouter stopOrder edgeOrder tr).stops (UInt32.ofNat k) =
        .ok (db.stop k).name := by
    intro k hk
    exact repeatedAt_ofNat (by omega) (hget k hk)
  have hnameAt : ∀ k, k < db.allStops.length → nameAt (UInt32.ofNat k) = (db.stop k).name := by
    intro k hk
    have hk' : k < 2 ^ 32 := by omega
    simp only [nameAt, UInt32.toNat_ofNat_of_lt' hk', hget k hk, Option.getD_some]
  have hkey : ∀ name ∈ tr.stopVertexs, nameAt (tr.stopNumber name) = name := by
    intro name hname
    obtain ⟨vertices, hvertices⟩ := UnorderedMap.mem_iff_lookup.mp hname
    obtain ⟨k, hk, rfl, -⟩ := h.stopVertexs_spec hvertices
    rw [hnumber k hk, hnameAt k hk]
  have hvalue : ∀ name vertices, tr.stopVertexs.lookup name = some vertices →
      (⟨(UInt32.ofNat vertices.inVertex).toNat, (UInt32.ofNat vertices.outVertex).toNat⟩ :
        StopVertices) = vertices := by
    intro name vertices hlookup
    obtain ⟨k, hk, rfl, rfl⟩ := h.stopVertexs_spec hlookup
    have hin : 2 * k < 2 ^ 32 := by omega
    have hout : 2 * k + 1 < 2 ^ 32 := by omega
    simp only [UInt32.toNat_ofNat_of_lt' hin, UInt32.toNat_ofNat_of_lt' hout]
  refine exists_foldlM_recode stopOrder stopOrder'
    (fun _ vertices => ⟨UInt32.ofNat vertices.inVertex, UInt32.ofNat vertices.outVertex⟩) nameAt
    (fun _ v => ⟨v.inVertex.toNat, v.outVertex.toNat⟩) hkey hvalue
    fun name vertices hlookup m => ?_
  obtain ⟨k, hk, rfl, -⟩ := h.stopVertexs_spec hlookup
  obtain ⟨stop, hstop, hname⟩ := findStop_of_view hdb hdb' hview hk
  simp only [loadStopVertex, hnumber k hk, hrepeated k hk, hstop, hname, hnameAt k hk, bind,
    Except.bind, UnorderedMap.lookup_assign, if_true, Option.getD_some, UnorderedMap.assign_assign]
  rfl

omit hvertices in
include hedges in
theorem loadEdgeInfos_spec :
    ∃ infoAboutEdge, (edgeOrder'.order (protoRouter stopOrder edgeOrder tr).infoAboutEdge).foldlM
        (loadEdgeInfo db') ∅ = .ok infoAboutEdge ∧
      ∀ id, infoAboutEdge.lookup id = tr.infoAboutEdge.lookup id := by
  have hkey : ∀ id ∈ tr.infoAboutEdge, (UInt32.ofNat id).toNat = id := by
    intro id hid
    obtain ⟨component, hcomponent⟩ := UnorderedMap.mem_iff_lookup.mp hid
    exact UInt32.toNat_ofNat_of_lt' ((h.infoAboutEdge_spec hcomponent).1.trans hedges)
  have hvalue : ∀ id component, tr.infoAboutEdge.lookup id = some component →
      (⟨(saveComponentTrip component).name, (saveComponentTrip component).weight,
        (saveComponentTrip component).spanCount.map fun count => count.data.toNat⟩ :
          ComponentTrip W) = component := by
    intro id component hlookup
    rcases component with ⟨name, weight, spanCount⟩
    rcases (h.infoAboutEdge_spec hlookup).2 with ⟨hnone, -⟩ | ⟨bus, -, -, count, hsome, hle⟩
    · cases hnone
      rfl
    · cases hsome
      simp [saveComponentTrip, UInt32.toNat_ofNat_of_lt' (hle.trans_lt hedges)]
  refine exists_foldlM_recode edgeOrder edgeOrder' (fun _ component => saveComponentTrip component)
    UInt32.toNat
    (fun _ component =>
      ⟨component.name, component.weight, component.spanCount.map fun count => count.data.toNat⟩)
    hkey hvalue fun id component hlookup m => ?_
  rw [loadEdgeInfo]
  rcases (h.infoAboutEdge_spec hlookup).2 with
    ⟨hnone, p, hp, hname⟩ | ⟨bus, hbus, hname, count, hsome, -⟩
  · obtain ⟨stop, hstop, hstopname⟩ := findStop_of_view hdb hdb' hview hp
    simp only [saveComponentTrip, hnone, hname, hstop, hstopname, Option.map_none, bind,
      Except.bind]
    rfl
  · obtain ⟨bus', hbus', hbusname⟩ := findBus_of_view hdb hdb' hview hbus
    simp only [saveComponentTrip, hsome, hname, hbus', hbusname, Option.map_some, bind, Except.bind]
    rfl

include hedges in
/-- A router survives being saved and read with a catalogue that has the view of
its own, but for the targets of the edges. -/
theorem deserialize_saveToProto :
    ∃ tr', deserializeTransportRouter stopOrder' edgeOrder'
        (protoRouter stopOrder edgeOrder tr) db' = .ok tr' ∧ Restored tr db' tr' := by
  obtain ⟨stopVertexs, hstops, hstopVertexs⟩ :=
    loadStopVertexs_spec h hdb stopOrder edgeOrder hdb' hview hvertices stopOrder'
  obtain ⟨infoAboutEdge, hinfos, hinfoAboutEdge⟩ :=
    loadEdgeInfos_spec h hdb stopOrder edgeOrder hdb' hview hedges edgeOrder'
  have hgraph : loadGraph (protoRouter stopOrder edgeOrder tr).graphOfStops =
      turnedBack tr.graphOfStops := loadGraph_spec h.holds.graph hvertices hedges
  have hroutes : loadRoutes (protoRouter stopOrder edgeOrder tr).router =
      tr.router.routesInternalData :=
    loadRoutes_spec tr hedges.le (Router.ofGraph_edgesBelow h.router)
  have htotal : tr.totalVertex < 2 ^ 32 := by
    have := h.numbered.totalVertex
    have hcount : 2 * db.allStops.length < 2 ^ 32 := h.holds.vertexCount ▸ hvertices
    rw [TransportCatalogue.length_names] at this
    exact this.trans_lt hcount
  refine ⟨_, bind_eq_ok_iff.mpr ⟨_, hstops, bind_eq_ok_iff.mpr ⟨_, hinfos, rfl⟩⟩, ?_⟩
  refine ⟨?_, rfl, UInt32.toNat_ofNat_of_lt' htotal, hgraph, ?_, hstopVertexs, hinfoAboutEdge⟩
  · simp [protoRouter, saveRoutingSettingsToProto]
  · rw [hgraph, hroutes]

end Maps

end Restore

section Answers

/-- The collected edges are found by their sources only. -/
theorem collectEdges_turnedBack (g : DirectedWeightedGraph W) (routes : RoutesInternalData W)
    (origin : VertexId) (fuel : Nat) (edgeId : Option EdgeId) :
    Router.collectEdges ⟨turnedBack g, routes⟩ origin fuel edgeId =
      Router.collectEdges ⟨g, routes⟩ origin fuel edgeId := by
  induction fuel generalizing edgeId with
  | zero => cases edgeId <;> rfl
  | succ fuel ih =>
      cases edgeId with
      | none => rfl
      | some id =>
          simp only [Router.collectEdges, DirectedWeightedGraph.getEdge, turnedBack,
            List.getElem?_map]
          cases g.edges[id]? with
          | none => rfl
          | some edge =>
              simp only [Option.map_some, bind, Except.bind]
              cases routes.get origin edge.source with
              | none => rfl
              | some data =>
                  simp only
                  rw [← ih data.prevEdge]
                  rfl

theorem buildRoute_turnedBack (g : DirectedWeightedGraph W) (routes : RoutesInternalData W)
    (origin target : VertexId) :
    Router.buildRoute ⟨turnedBack g, routes⟩ origin target =
      Router.buildRoute ⟨g, routes⟩ origin target := by
  unfold Router.buildRoute
  simp only [collectEdges_turnedBack]

theorem mapAt_congr {K V : Type} [DecidableEq K] {m m' : UnorderedMap K V}
    (h : ∀ k, m.lookup k = m'.lookup k) (k : K) : mapAt m k = mapAt m' k := by
  unfold mapAt
  rw [h k]

variable [Zero W] [Add W]

omit [Zero W] in
theorem addItems_congr {m m' : UnorderedMap EdgeId (ComponentTrip W)}
    (h : ∀ id, m.lookup id = m'.lookup id) (ids : List EdgeId) (result : RouteInfo W) :
    addItems m ids result = addItems m' ids result := by
  induction ids generalizing result with
  | nil => rfl
  | cons id ids ih =>
      rw [addItems, addItems, mapAt_congr h]
      exact bind_congr fun info => ih _

/-- A router that was read answers like the one that was saved. -/
theorem Restored.getRouteInfo_eq {tr tr' : TransportRouter W} {db' : TransportCatalogue}
    (h : Restored tr db' tr') (hgraph : tr.router.graph = tr.graphOfStops) (origin target : Str) :
    tr'.getRouteInfo origin target = tr.getRouteInfo origin target := by
  have hmem : origin ∉ tr'.stopVertexs ↔ origin ∉ tr.stopVertexs := by
    rw [← UnorderedMap.lookup_eq_none, ← UnorderedMap.lookup_eq_none, h.stopVertexs]
  have hrouter : ∀ u v, tr'.router.buildRoute u v = tr.router.buildRoute u v := by
    intro u v
    rw [h.router, buildRoute_turnedBack, ← hgraph]
  unfold getRouteInfo
  simp only [hmem, mapAt_congr h.stopVertexs, hrouter, addItems_congr h.infoAboutEdge]

end Answers

end TransportSystem.TransportRouter
