import TransportSystem.LoadedCatalogue
import TransportSystem.Serialization
import TransportSystem.StopIndex
import TransportSystem.StoredRoutes

/-!
`DeserializeTransportRouter` on any message, and the routes that a router gives
which was read from anywhere.
-/

namespace TransportSystem

open TransportSystem.Graph
open Library.UniqueKeys
open TransportCatalogue (StoreInv)

theorem TransportCatalogue.findStop_eq_ok_iff {db : TransportCatalogue} {name : Str} {stop : Stop} :
    db.findStop name = .ok stop ↔ ∃ p, db.stops.lookup name = some p ∧ db.stop p = stop := by
  simp [findStop, bind_eq_ok_iff, pure, Except.pure]

def TransportCatalogue.knownStops (db : TransportCatalogue) : Set Str := {name | name ∈ db.stops}

def TransportCatalogue.knownBuses (db : TransportCatalogue) : Set Str := {name | name ∈ db.buses}

namespace TransportRouter

open TransportCatalogue (findStop_eq_ok_iff findBus_eq_ok_iff stop_name_of_names bus_of_getElem?
  repeatedAt_of_lt repeatedAt_of_not_lt)

variable {W : Type}

section Entries

variable {proto : RouterSerialize.TransportRouter W} {db : TransportCatalogue}

/-- The stop that an entry of `stop_vertexs` is about. -/
def stopNameAt (proto : RouterSerialize.TransportRouter W) (index : UInt32) : Str :=
  proto.stops[index.toNat]?.getD []

def verticesOf (vertexId : RouterSerialize.VertexId) : StopVertices :=
  ⟨vertexId.inVertex.toNat, vertexId.outVertex.toNat⟩

theorem repeatedAt_stopNameAt {index : UInt32} (h : index.toNat < proto.stops.length) :
    repeatedAt proto.stops index = .ok (stopNameAt proto index) := by
  rw [repeatedAt, stopNameAt, List.getElem?_eq_getElem h]
  rfl

theorem loadStopVertex_of_not_lt (m : UnorderedMap Str StopVertices)
    {e : Σ _ : UInt32, RouterSerialize.VertexId} (h : ¬ e.1.toNat < proto.stops.length) :
    loadStopVertex proto db m e = .error .undefinedBehaviour := by
  rw [loadStopVertex, repeatedAt_of_not_lt h]
  rfl

variable (hdb : StoreInv db)
include hdb

theorem findStop_of_mem {name : Str} (h : name ∈ db.stops) :
    ∃ stop, db.findStop name = .ok stop ∧ stop.name = name := by
  obtain ⟨p, hp⟩ := UnorderedMap.mem_iff_lookup.mp h
  exact ⟨_, findStop_eq_ok_iff.mpr ⟨p, hp, rfl⟩, stop_name_of_names ((hdb.stops _ _).mp hp)⟩

omit hdb in
theorem findStop_of_not_mem {name : Str} (h : name ∉ db.stops) :
    db.findStop name = .error .outOfRange := by
  rw [TransportCatalogue.findStop, mapAt, UnorderedMap.lookup_eq_none.mpr h]
  rfl

theorem loadStopVertex_of_lt (m : UnorderedMap Str StopVertices)
    {e : Σ _ : UInt32, RouterSerialize.VertexId} (h : e.1.toNat < proto.stops.length) :
    loadStopVertex proto db m e =
      if stopNameAt proto e.1 ∈ db.stops then
        .ok (m.assign (stopNameAt proto e.1) (verticesOf e.2))
      else .error .outOfRange := by
  unfold loadStopVertex
  rw [repeatedAt_stopNameAt h]
  split
  · rename_i hmem
    obtain ⟨stop, hstop, hname⟩ := findStop_of_mem hdb hmem
    simp only [ok_bind, hstop, hname, UnorderedMap.lookup_assign, if_true, Option.getD_some,
      UnorderedMap.assign_assign]
    rfl
  · rename_i hmem
    rw [ok_bind, findStop_of_not_mem hmem]
    rfl

theorem stopVertexs_subset {stopOrder : Iteration UInt32 RouterSerialize.VertexId}
    {edgeOrder : Iteration UInt32 (RouterSerialize.ComponentTrip W)} {tr : TransportRouter W}
    (h : deserializeTransportRouter stopOrder edgeOrder proto db = .ok tr) {name : Str}
    (hname : name ∈ tr.stopVertexs) : name ∈ db.stops := by
  obtain ⟨stopVertexs, hstops, h⟩ := bind_eq_ok_iff.mp h
  obtain ⟨infoAboutEdge, -, h⟩ := bind_eq_ok_iff.mp h
  cases h
  refine foldlM_keeps (p := fun m => ∀ n ∈ m, n ∈ db.stops) ?_ (by simp) hstops name hname
  intro e _ m m' hm hload
  by_cases hlt : e.1.toNat < proto.stops.length
  · rw [loadStopVertex_of_lt hdb m hlt] at hload
    split at hload
    · rename_i hmem
      cases hload
      intro n hn
      rcases (UnorderedMap.mem_assign _ _ _ _).mp hn with rfl | hn
      · exact hmem
      · exact hm n hn
    · cases hload
  · rw [loadStopVertex_of_not_lt m hlt] at hload
    cases hload

/-- An entry of `info_about_edge` names a bus among `buses` or a stop among
`stops`. -/
def InfoKnown (stops buses : Set Str) (component : RouterSerialize.ComponentTrip W) : Prop :=
  match component.spanCount with
  | some _ => component.name ∈ buses
  | none => component.name ∈ stops

omit hdb in
theorem loadEdgeInfo_of_known {e : Σ _ : UInt32, RouterSerialize.ComponentTrip W}
    (h : InfoKnown db.knownStops db.knownBuses e.2) (m : UnorderedMap EdgeId (ComponentTrip W)) :
    ∃ m', loadEdgeInfo db m e = .ok m' := by
  unfold InfoKnown at h
  unfold loadEdgeInfo
  cases hspan : e.2.spanCount with
  | some spanCount =>
      rw [hspan] at h
      obtain ⟨p, hp⟩ := UnorderedMap.mem_iff_lookup.mp h
      exact ⟨_, bind_eq_ok_iff.mpr ⟨_, findBus_eq_ok_iff.mpr ⟨p, hp, rfl⟩, rfl⟩⟩
  | none =>
      rw [hspan] at h
      obtain ⟨p, hp⟩ := UnorderedMap.mem_iff_lookup.mp h
      exact ⟨_, bind_eq_ok_iff.mpr ⟨_, findStop_eq_ok_iff.mpr ⟨p, hp, rfl⟩, rfl⟩⟩

omit hdb in
theorem loadEdgeInfo_of_unknown {e : Σ _ : UInt32, RouterSerialize.ComponentTrip W}
    (h : ¬ InfoKnown db.knownStops db.knownBuses e.2) (m : UnorderedMap EdgeId (ComponentTrip W)) :
    loadEdgeInfo db m e = .error .outOfRange := by
  unfold InfoKnown at h
  unfold loadEdgeInfo
  cases hspan : e.2.spanCount with
  | some spanCount =>
      rw [hspan] at h
      simp only [TransportCatalogue.findBus, mapAt, UnorderedMap.lookup_eq_none.mpr h]
      rfl
  | none =>
      rw [hspan] at h
      simp only [findStop_of_not_mem h]
      rfl

end Entries

section Message

/-- All keys of `stop_vertexs` are stops of the message. -/
def StopsInBounds (proto : RouterSerialize.TransportRouter W) : Prop :=
  ∀ index ∈ proto.stopVertexs, index.toNat < proto.stops.length

/-- All stops and buses that the message names are among `stops` and `buses`. -/
structure NamesKnown (proto : RouterSerialize.TransportRouter W) (stops buses : Set Str) :
    Prop where
  stopVertexs : ∀ index ∈ proto.stopVertexs, stopNameAt proto index ∈ stops
  infoAboutEdge : ∀ id component, proto.infoAboutEdge.lookup id = some component →
    InfoKnown stops buses component

def loadedRouter (proto : RouterSerialize.TransportRouter W) : Router W :=
  ⟨loadGraph proto.graphOfStops, loadRoutes proto.router⟩

def loadedVertices (proto : RouterSerialize.TransportRouter W)
    (entries : List (Σ _ : UInt32, RouterSerialize.VertexId)) : UnorderedMap Str StopVertices :=
  entries.foldl (fun m e => m.assign (stopNameAt proto e.1) (verticesOf e.2)) ∅

variable {proto : RouterSerialize.TransportRouter W} {db : TransportCatalogue}
  (stopOrder : Iteration UInt32 RouterSerialize.VertexId)
  (edgeOrder : Iteration UInt32 (RouterSerialize.ComponentTrip W))

section Vertices

variable {entries : List (Σ _ : UInt32, RouterSerialize.VertexId)} (hdb : StoreInv db)
  (hlt : ∀ e ∈ entries, e.1.toNat < proto.stops.length)
include hdb hlt

theorem foldlM_loadStopVertex_of_known (hknown : ∀ e ∈ entries, stopNameAt proto e.1 ∈ db.stops) :
    entries.foldlM (loadStopVertex proto db) ∅ = .ok (loadedVertices proto entries) :=
  foldlM_eq_ok (fun e he m => by
    rw [loadStopVertex_of_lt hdb m (hlt e he), if_pos (hknown e he)]) ∅

theorem foldlM_loadStopVertex_of_unknown
    (hunknown : ∃ e ∈ entries, stopNameAt proto e.1 ∉ db.stops) :
    entries.foldlM (loadStopVertex proto db) ∅ = .error .outOfRange :=
  foldlM_of_bad (p := fun _ _ => True) (q := fun e => stopNameAt proto e.1 ∈ db.stops) (d := [])
    (fun e he hknown _ m _ =>
      ⟨_, by rw [loadStopVertex_of_lt hdb m (hlt e he), if_pos hknown], trivial⟩)
    (fun e he hknown _ m _ => by rw [loadStopVertex_of_lt hdb m (hlt e he), if_neg hknown])
    hunknown trivial

end Vertices

section Orders

variable (hdb : StoreInv db) (hbounds : StopsInBounds proto)
include hdb hbounds

omit hdb in
theorem lt_of_mem_order {e : Σ _ : UInt32, RouterSerialize.VertexId}
    (he : e ∈ stopOrder.order proto.stopVertexs) : e.1.toNat < proto.stops.length :=
  hbounds e.1 (UnorderedMap.mem_iff_lookup.mpr ⟨e.2, stopOrder.mem_order.mp he⟩)

theorem deserialize_of_known (hknown : NamesKnown proto db.knownStops db.knownBuses) :
    ∃ tr, deserializeTransportRouter stopOrder edgeOrder proto db = .ok tr ∧
      tr.router = loadedRouter proto ∧
      tr.stopVertexs = loadedVertices proto (stopOrder.order proto.stopVertexs) := by
  have hstops := foldlM_loadStopVertex_of_known hdb
    (fun e he => lt_of_mem_order stopOrder hbounds he) fun e he =>
      hknown.stopVertexs e.1 (UnorderedMap.mem_iff_lookup.mpr ⟨e.2, stopOrder.mem_order.mp he⟩)
  obtain ⟨infoAboutEdge, hinfo⟩ := exists_foldlM_eq_ok (f := loadEdgeInfo db) (fun e he m =>
    loadEdgeInfo_of_known (hknown.infoAboutEdge e.1 e.2 (edgeOrder.mem_order.mp he)) m) ∅
  exact ⟨_, bind_eq_ok_iff.mpr ⟨_, hstops, bind_eq_ok_iff.mpr ⟨infoAboutEdge, hinfo, rfl⟩⟩,
    rfl, rfl⟩

/-- A message that names what is not in the catalogue is rejected. -/
theorem deserialize_of_unknown (hunknown : ¬ NamesKnown proto db.knownStops db.knownBuses) :
    deserializeTransportRouter stopOrder edgeOrder proto db = .error .outOfRange := by
  have hlt := fun e he => lt_of_mem_order stopOrder hbounds (e := e) he
  by_cases hstops : ∀ e ∈ stopOrder.order proto.stopVertexs, stopNameAt proto e.1 ∈ db.stops
  · have hinfo : ∃ e ∈ edgeOrder.order proto.infoAboutEdge,
        ¬ InfoKnown db.knownStops db.knownBuses e.2 := by
      by_contra hnone
      push Not at hnone
      refine hunknown ⟨fun index hindex => ?_, fun id component hlookup =>
        hnone ⟨id, component⟩ (edgeOrder.mem_order.mpr hlookup)⟩
      obtain ⟨vertexId, hlookup⟩ := UnorderedMap.mem_iff_lookup.mp hindex
      exact hstops ⟨index, vertexId⟩ (stopOrder.mem_order.mpr hlookup)
    have hfold : (edgeOrder.order proto.infoAboutEdge).foldlM (loadEdgeInfo db) ∅ =
        .error .outOfRange :=
      foldlM_of_bad (p := fun _ _ => True)
        (q := fun e => InfoKnown db.knownStops db.knownBuses e.2) (d := [])
        (fun e _ hknown _ m _ => (loadEdgeInfo_of_known hknown m).imp fun _ h => ⟨h, trivial⟩)
        (fun e _ hknown _ m _ => loadEdgeInfo_of_unknown hknown m) hinfo trivial
    exact bind_eq_error_iff.mpr (.inr ⟨_, foldlM_loadStopVertex_of_known hdb hlt hstops,
      bind_eq_error_iff.mpr (.inl hfold)⟩)
  · push Not at hstops
    exact bind_eq_error_iff.mpr (.inl (foldlM_loadStopVertex_of_unknown hdb hlt hstops))

end Orders

/-- A key that is no stop of the message is read out of bounds in some order. -/
theorem deserialize_of_not_inBounds (h : ¬ StopsInBounds proto) :
    ∃ stopOrder : Iteration UInt32 RouterSerialize.VertexId,
      deserializeTransportRouter stopOrder edgeOrder proto db = .error .undefinedBehaviour := by
  unfold StopsInBounds at h
  push Not at h
  obtain ⟨index, hindex, hout⟩ := h
  obtain ⟨vertexId, hlookup⟩ := UnorderedMap.mem_iff_lookup.mp hindex
  obtain ⟨rest, -, stopOrder, horder⟩ := Iteration.exists_order_append
    (List.nodup_singleton (⟨index, vertexId⟩ : Σ _ : UInt32, RouterSerialize.VertexId))
    (List.forall_mem_singleton.mpr hlookup)
  refine ⟨stopOrder, bind_eq_error_iff.mpr (.inl ?_)⟩
  rw [horder, List.singleton_append, List.foldlM_cons,
    loadStopVertex_of_not_lt ∅ (Nat.not_lt.mpr hout)]
  rfl

end Message

section Routes

variable [Zero W] [Add W]

/-- The router holds an answer from `origin` to `target`: an empty entry, or a
route of edges of which it knows what they are. -/
def Routable (tr : TransportRouter W) (origin target : Str) : Prop :=
  ∃ originVertices targetVertices row cell,
    tr.stopVertexs.lookup origin = some originVertices ∧
    tr.stopVertexs.lookup target = some targetVertices ∧
    tr.router.routesInternalData[originVertices.inVertex]? = some row ∧
    row[targetVertices.inVertex]? = some cell ∧
    (cell ≠ none → ∃ edges,
      tr.router.HoldsRoute originVertices.inVertex targetVertices.inVertex edges ∧
        ∀ id ∈ edges, id ∈ tr.infoAboutEdge)

variable {tr : TransportRouter W}

omit [Zero W] in
theorem exists_addItems_iff {infoAboutEdge : UnorderedMap EdgeId (ComponentTrip W)}
    {ids : List EdgeId} {result : RouteInfo W} :
    (∃ r, addItems infoAboutEdge ids result = .ok r) ↔ ∀ id ∈ ids, id ∈ infoAboutEdge := by
  induction ids generalizing result with
  | nil => simp [addItems]
  | cons id ids ih =>
      simp only [addItems, bind_eq_ok_iff, mapAt_eq_ok_iff, List.forall_mem_cons,
        UnorderedMap.mem_iff_lookup]
      constructor
      · rintro ⟨r, info, hinfo, hrest⟩
        exact ⟨⟨info, hinfo⟩, fun id' hid' =>
          UnorderedMap.mem_iff_lookup.mp (ih.mp ⟨r, hrest⟩ id' hid')⟩
      · rintro ⟨⟨info, hinfo⟩, hrest⟩
        obtain ⟨r, hr⟩ := ih.mpr fun id' hid' => UnorderedMap.mem_iff_lookup.mpr (hrest id' hid')
        exact ⟨r, info, hinfo, hr⟩

/-- What `GetRouteInfo` does with the route of the table. -/
def describe (tr : TransportRouter W) :
    Option (Graph.RouteInfo W) → Except Failure (Option (RouteInfo W))
  | none => .ok none
  | some routeInfo => do
      let result ← addItems tr.infoAboutEdge routeInfo.edges { items := [], totalTime := 0 }
      pure (some result)

theorem getRouteInfo_of_lookup {origin target : Str} {originVertices targetVertices : StopVertices}
    (horigin : tr.stopVertexs.lookup origin = some originVertices)
    (htarget : tr.stopVertexs.lookup target = some targetVertices) :
    tr.getRouteInfo origin target =
      tr.router.buildRoute originVertices.inVertex targetVertices.inVertex >>= tr.describe := by
  have hmem : origin ∈ tr.stopVertexs := UnorderedMap.mem_iff_lookup.mpr ⟨_, horigin⟩
  unfold getRouteInfo
  rw [if_neg (not_not_intro hmem), mapAt_of_lookup horigin, mapAt_of_lookup htarget]
  simp only [ok_bind]
  refine bind_congr fun routeInfo => ?_
  cases routeInfo <;> rfl

theorem getRouteInfo_of_unknown (origin target : Str)
    (h : origin ∉ tr.stopVertexs ∨ target ∉ tr.stopVertexs) :
    tr.getRouteInfo origin target = .error (.logicError "there is no starting stop") ∨
      tr.getRouteInfo origin target = .error .outOfRange := by
  unfold getRouteInfo
  by_cases horigin : origin ∈ tr.stopVertexs
  · right
    obtain ⟨vertices, hlookup⟩ := UnorderedMap.mem_iff_lookup.mp horigin
    have htarget := UnorderedMap.lookup_eq_none.mpr (h.resolve_left (not_not_intro horigin))
    rw [if_neg (not_not_intro horigin), mapAt_of_lookup hlookup]
    simp only [ok_bind, mapAt, htarget]
    rfl
  · left
    rw [if_pos horigin]
    rfl

theorem exists_describe_iff {origin target : VertexId} :
    (∃ r, (tr.router.buildRoute origin target >>= tr.describe) = .ok r) ↔
      ∃ row cell, tr.router.routesInternalData[origin]? = some row ∧ row[target]? = some cell ∧
        (cell ≠ none → ∃ edges, tr.router.HoldsRoute origin target edges ∧
          ∀ id ∈ edges, id ∈ tr.infoAboutEdge) := by
  constructor
  · rintro ⟨r, hr⟩
    obtain ⟨route, hroute, hr⟩ := bind_eq_ok_iff.mp hr
    obtain ⟨row, cell, hrow, hcell, hholds⟩ := Router.exists_buildRoute_iff.mp ⟨route, hroute⟩
    refine ⟨row, cell, hrow, hcell, fun hne => ?_⟩
    obtain ⟨edges, hedges⟩ := hholds hne
    obtain ⟨data, rfl⟩ := Option.ne_none_iff_exists'.mp hne
    rw [Router.buildRoute_of_holdsRoute hrow hcell hedges] at hroute
    cases hroute
    obtain ⟨result, hresult, -⟩ := bind_eq_ok_iff.mp hr
    refine ⟨edges, hedges, fun id hid => ?_⟩
    exact exists_addItems_iff.mp ⟨result, hresult⟩ id (List.mem_reverse.mpr hid)
  · rintro ⟨row, cell, hrow, hcell, hholds⟩
    obtain ⟨route, hroute⟩ := Router.exists_buildRoute_iff.mpr
      ⟨row, cell, hrow, hcell, fun hne => (hholds hne).imp fun _ => And.left⟩
    cases cell with
    | none =>
        refine ⟨none, bind_eq_ok_iff.mpr ⟨none, ?_, rfl⟩⟩
        simp only [Router.buildRoute, hrow, hcell]
        rfl
    | some data =>
        obtain ⟨edges, hedges, hinfo⟩ := hholds (Option.some_ne_none _)
        obtain ⟨result, hresult⟩ := exists_addItems_iff.mpr
          fun id hid => hinfo id (List.mem_reverse.mp hid)
        exact ⟨some result,
          bind_eq_ok_iff.mpr ⟨_, Router.buildRoute_of_holdsRoute hrow hcell hedges,
          bind_eq_ok_iff.mpr ⟨result, hresult, rfl⟩⟩⟩

/-- `GetRouteInfo` returns exactly for stops between which the router holds an
answer. -/
theorem exists_getRouteInfo_iff {origin target : Str} :
    (∃ r, tr.getRouteInfo origin target = .ok r) ↔ tr.Routable origin target := by
  constructor
  · intro h
    have hknown : ¬ (origin ∉ tr.stopVertexs ∨ target ∉ tr.stopVertexs) := by
      intro hunknown
      obtain ⟨r, hr⟩ := h
      rcases getRouteInfo_of_unknown origin target hunknown with heq | heq
      · cases hr.symm.trans heq
      · cases hr.symm.trans heq
    rw [not_or, not_not, not_not] at hknown
    obtain ⟨originVertices, horigin⟩ := UnorderedMap.mem_iff_lookup.mp hknown.1
    obtain ⟨targetVertices, htarget⟩ := UnorderedMap.mem_iff_lookup.mp hknown.2
    rw [getRouteInfo_of_lookup horigin htarget, exists_describe_iff] at h
    obtain ⟨row, cell, hrow, hcell, hholds⟩ := h
    exact ⟨_, _, row, cell, horigin, htarget, hrow, hcell, hholds⟩
  · rintro ⟨originVertices, targetVertices, row, cell, horigin, htarget, hrow, hcell, hholds⟩
    rw [getRouteInfo_of_lookup horigin htarget, exists_describe_iff]
    exact ⟨row, cell, hrow, hcell, hholds⟩

end Routes

end TransportRouter

section Base

variable {W : Type} {protobuf : Protobuf W} {loading : LoadingOrder W} {input : protobuf.Stream}
  {db : TransportCatalogue} {mr : MapRender} {tr : TransportRouter W}

theorem deserialization_eq_ok_iff :
    deserialization protobuf loading input = .ok (some (db, mr, tr)) ↔
      ∃ message, protobuf.parseFromIstream input = some message ∧
        TransportCatalogue.deserializeTransportCatalogue message.catalogue = .ok db ∧
        MapRender.deserializeMapRender message.mapSettings = .ok mr ∧
        TransportRouter.deserializeTransportRouter loading.stopVertexs loading.infoAboutEdge
          message.router db = .ok tr := by
  unfold deserialization
  cases hparse : protobuf.parseFromIstream input with
  | none => simp [pure, Except.pure]
  | some message =>
      simp only [bind_eq_ok_iff, Option.some.injEq, exists_eq_left', pure, Except.pure,
        Except.ok.injEq, Prod.mk.injEq]
      constructor
      · rintro ⟨db, hdb, mr, hmr, tr, htr, rfl, rfl, rfl⟩
        exact ⟨hdb, hmr, htr⟩
      · rintro ⟨hdb, hmr, htr⟩
        exact ⟨db, hdb, mr, hmr, tr, htr, rfl, rfl, rfl⟩

theorem storeInv_of_deserialization
    (h : deserialization protobuf loading input = .ok (some (db, mr, tr))) :
    StoreInv db ∧ ∀ name ∈ tr.stopVertexs, name ∈ db.stops := by
  obtain ⟨message, -, hdb, -, htr⟩ := deserialization_eq_ok_iff.mp h
  have hinv := (TransportCatalogue.loaded_of_deserialize hdb).inv.toStoreInv
  exact ⟨hinv, fun name hname => TransportRouter.stopVertexs_subset hinv htr hname⟩

end Base

end TransportSystem
