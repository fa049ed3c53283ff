import TransportSystem.RequestSafety

/-!
The second phase on any file: which bases `proto::Deserialization` and the
requests after it handle or reject.
-/

namespace TransportSystem

open TransportSystem.Graph
open Library.UniqueKeys
open TransportCatalogue (InBounds Loaded deserializeTransportCatalogue)
open TransportRouter (StopsInBounds NamesKnown stopNameAt verticesOf loadedRouter loadedVertices
  deserializeTransportRouter)
open JsonReader (StatRequest answer requestHandler)
open TransportCatalogueSerialize (Common)

/-- All indices of a message, and the two places of its offsets, are within the
fields they belong to. -/
structure Indexed (message : Common Double) : Prop where
  catalogue : InBounds message.catalogue
  busLabelOffset : 2 ≤ message.mapSettings.busLabel.busLabelOffset.length
  stopLabelOffset : 2 ≤ message.mapSettings.stopLabel.stopLabelOffset.length
  stopVertexs : StopsInBounds message.router

/-- The router of a message names stops and buses of the message only. -/
def Accepted (message : Common Double) : Prop :=
  NamesKnown message.router {name | name ∈ message.catalogue.stops.map fun stop => stop.name}
    {name | name ∈ message.catalogue.buses.map fun bus => bus.name}

/-- What the requests rely on in a message. -/
structure Answerable (message : Common Double) : Prop where
  /-- The last bus of a name has a stop. -/
  buses : ∀ name bus, message.catalogue.buses.reverse.find? (fun bus => bus.name = name) =
    some bus → bus.stops ≠ []
  /-- Buses can be drawn. -/
  colorPalette : message.catalogue.buses ≠ [] → message.mapSettings.colorPalette ≠ []
  /-- The table leads from one entry of `stop_vertexs` back to another. Of the
  entries of one stop only one counts. -/
  routes : ∀ index vertexId index' vertexId',
    message.router.stopVertexs.lookup index = some vertexId →
    message.router.stopVertexs.lookup index' = some vertexId' →
    (stopNameAt message.router index = stopNameAt message.router index' → index = index') →
    (loadedRouter message.router).routesInternalData.get vertexId.inVertex.toNat
      vertexId'.inVertex.toNat ≠ none →
        (loadedRouter message.router).Stops vertexId.inVertex.toNat vertexId'.inVertex.toNat

/-- Whatever is asked, in whatever order the maps are met, the reading of the
base and the answer return or throw. -/
def Handled (protobuf : Protobuf Double) (input : protobuf.Stream) : Prop :=
  ∀ (loading : LoadingOrder Double) (m : Libm) (it : Iteration Str BusPtr) (r : StatRequest),
    Safe (requestHandler protobuf loading input >>= fun handler => answer m it handler r)

section Loaded

variable {message : Common Double} {db : TransportCatalogue}
  (hloaded : Loaded message.catalogue message.catalogue.buses db)
include hloaded

theorem knownStops_eq :
    db.knownStops = {name | name ∈ message.catalogue.stops.map fun stop => stop.name} := by
  ext name
  exact (hloaded.inv.toStoreInv.mem_stops_iff name).trans (hloaded.names name)

theorem knownBuses_eq :
    db.knownBuses = {name | name ∈ message.catalogue.buses.map fun bus => bus.name} := by
  have hnames : db.allBuses.map (fun bus => bus.name) =
      message.catalogue.buses.map fun bus => bus.name := by
    have hfst := congrArg (List.map Prod.fst) hloaded.buses
    rwa [List.map_map, List.map_map] at hfst
  ext name
  rw [Set.mem_ofPred_eq, ← hnames, List.mem_map]
  constructor
  · intro hname
    obtain ⟨p, hp⟩ := UnorderedMap.mem_iff_lookup.mp hname
    exact ⟨db.bus p, hloaded.inv.toStoreInv.bus_mem hp⟩
  · rintro ⟨bus, hbus, rfl⟩
    exact hloaded.inv.busNames bus hbus

omit hloaded in
theorem findBus_iff_of_lastBus (h : TransportCatalogue.LastBus db) {name : Str} {bus : Bus} :
    db.findBus name = .ok bus ↔
      db.allBuses.reverse.find? (fun bus => bus.name = name) = some bus := by
  rw [TransportCatalogue.findBus_eq_ok_iff, ← h name, Option.map_eq_some_iff]

/-- The bus that is found under a name is the last one of the message. -/
theorem bus_ne_nil_iff :
    (∀ name bus, db.findBus name = .ok bus → bus.stops ≠ []) ↔
      ∀ name bus, message.catalogue.buses.reverse.find? (fun bus => bus.name = name) =
        some bus → bus.stops ≠ [] := by
  refine forall_congr' fun name => ?_
  have hlast : (db.allBuses.reverse.find? fun bus => bus.name = name).map
      (fun bus => (bus.name, bus.stops.length)) =
        (message.catalogue.buses.reverse.find? fun bus => bus.name = name).map
          fun bus => (bus.name, bus.stops.length) := by
    have hfind := congrArg (fun buses => buses.reverse.find? fun bus => bus.1 = name) hloaded.buses
    simpa only [← List.map_reverse, List.find?_map, Function.comp_def] using hfind
  simp only [findBus_iff_of_lastBus hloaded.lastBus]
  cases hdb : db.allBuses.reverse.find? fun bus => bus.name = name with
  | none =>
      rw [hdb] at hlast
      rw [Option.map_eq_none_iff.mp hlast.symm]
      simp
  | some bus =>
      rw [hdb] at hlast
      obtain ⟨bus', hbus', heq⟩ := Option.map_eq_some_iff.mp hlast.symm
      rw [hbus']
      have hlength : bus'.stops.length = bus.stops.length := congrArg Prod.snd heq
      simp [← List.length_pos_iff, hlength]

end Loaded

section Offsets

theorem offsetAt_of_length {offset : List Double} (h : 2 ≤ offset.length) :
    ∃ pair, MapRender.offsetAt offset = .ok pair := by
  have hzero : (0 : UInt32).toNat < offset.length := by
    show 0 < offset.length
    omega
  have hone : (1 : UInt32).toNat < offset.length := by
    show 1 < offset.length
    omega
  obtain ⟨x, -, hx⟩ := TransportCatalogue.repeatedAt_of_lt hzero
  obtain ⟨y, -, hy⟩ := TransportCatalogue.repeatedAt_of_lt hone
  exact ⟨(x, y), by rw [MapRender.offsetAt, hx, hy]; rfl⟩

theorem offsetAt_of_not_length {offset : List Double} (h : ¬ 2 ≤ offset.length) :
    MapRender.offsetAt offset = .error .undefinedBehaviour := by
  match offset with
  | [] => rfl
  | [x] => rfl
  | x :: y :: rest => simp at h

variable {proto : MapRendererSerialize.MapSettings}

theorem deserializeMapRender_of_offsets (hbus : 2 ≤ proto.busLabel.busLabelOffset.length)
    (hstop : 2 ≤ proto.stopLabel.stopLabelOffset.length) :
    ∃ mr, MapRender.deserializeMapRender proto = .ok mr ∧
      (mr.settings.colorPalette ≠ [] ↔ proto.colorPalette ≠ []) := by
  obtain ⟨busOffset, hbusOffset⟩ := offsetAt_of_length hbus
  obtain ⟨stopOffset, hstopOffset⟩ := offsetAt_of_length hstop
  exact ⟨_, bind_eq_ok_iff.mpr ⟨_, hbusOffset, bind_eq_ok_iff.mpr ⟨_, hstopOffset, rfl⟩⟩,
    List.map_eq_nil_iff.not⟩

theorem deserializeMapRender_of_not_offsets
    (h : ¬ (2 ≤ proto.busLabel.busLabelOffset.length ∧
      2 ≤ proto.stopLabel.stopLabelOffset.length)) :
    MapRender.deserializeMapRender proto = .error .undefinedBehaviour := by
  by_cases hbus : 2 ≤ proto.busLabel.busLabelOffset.length
  · obtain ⟨busOffset, hbusOffset⟩ := offsetAt_of_length hbus
    exact bind_eq_error_iff.mpr (.inr ⟨_, hbusOffset, bind_eq_error_iff.mpr
      (.inl (offsetAt_of_not_length fun hstop => h ⟨hbus, hstop⟩))⟩)
  · exact bind_eq_error_iff.mpr (.inl (offsetAt_of_not_length hbus))

end Offsets

section Vertices

variable {proto : RouterSerialize.TransportRouter Double}

theorem loadedVertices_append_singleton (rest : List (Σ _ : UInt32, RouterSerialize.VertexId))
    (e : Σ _ : UInt32, RouterSerialize.VertexId) :
    loadedVertices proto (rest ++ [e]) =
      (loadedVertices proto rest).assign (stopNameAt proto e.1) (verticesOf e.2) := by
  rw [loadedVertices, List.foldl_append]
  rfl

theorem exists_entry_of_lookup {stopOrder : Iteration UInt32 RouterSerialize.VertexId} {name : Str}
    {vertices : StopVertices}
    (h : (loadedVertices proto (stopOrder.order proto.stopVertexs)).lookup name = some vertices) :
    ∃ index vertexId, proto.stopVertexs.lookup index = some vertexId ∧
      stopNameAt proto index = name ∧ verticesOf vertexId = vertices := by
  rcases UnorderedMap.mem_of_lookup_foldl_assign h with ⟨e, he, hname, hvertices⟩ | hempty
  · exact ⟨e.1, e.2, stopOrder.mem_order.mp he, hname, hvertices⟩
  · rw [UnorderedMap.lookup_empty] at hempty
    cases hempty

/-- Entries of different stops count together in some order. -/
theorem exists_order_of_entries {index index' : UInt32}
    {vertexId vertexId' : RouterSerialize.VertexId}
    (h : proto.stopVertexs.lookup index = some vertexId)
    (h' : proto.stopVertexs.lookup index' = some vertexId')
    (hnames : stopNameAt proto index = stopNameAt proto index' → index = index') :
    ∃ stopOrder : Iteration UInt32 RouterSerialize.VertexId,
      (loadedVertices proto (stopOrder.order proto.stopVertexs)).lookup
          (stopNameAt proto index) = some (verticesOf vertexId) ∧
        (loadedVertices proto (stopOrder.order proto.stopVertexs)).lookup
          (stopNameAt proto index') = some (verticesOf vertexId') := by
  by_cases hindex : index = index'
  · subst hindex
    cases h.symm.trans h'
    obtain ⟨rest, ⟨stopOrder, horder⟩, -⟩ := Iteration.exists_order_append
      (List.nodup_singleton (⟨index, vertexId⟩ : Σ _ : UInt32, RouterSerialize.VertexId))
      (List.forall_mem_singleton.mpr h)
    have hlast : (loadedVertices proto (stopOrder.order proto.stopVertexs)).lookup
        (stopNameAt proto index) = some (verticesOf vertexId) := by
      rw [horder, loadedVertices_append_singleton, UnorderedMap.lookup_assign, if_pos rfl]
    exact ⟨stopOrder, hlast, hlast⟩
  · have hne : stopNameAt proto index ≠ stopNameAt proto index' := fun heq => hindex (hnames heq)
    have hnodup : [(⟨index, vertexId⟩ : Σ _ : UInt32, RouterSerialize.VertexId),
        ⟨index', vertexId'⟩].Nodup := by
      simp [hindex]
    obtain ⟨rest, ⟨stopOrder, horder⟩, -⟩ := Iteration.exists_order_append hnodup
      (List.forall_mem_cons.mpr ⟨h, List.forall_mem_singleton.mpr h'⟩)
    refine ⟨stopOrder, ?_⟩
    rw [horder, List.append_cons, loadedVertices_append_singleton, loadedVertices_append_singleton]
    constructor
    · rw [UnorderedMap.lookup_assign, if_neg hne, UnorderedMap.lookup_assign, if_pos rfl]
    · rw [UnorderedMap.lookup_assign, if_pos rfl]

/-- What holds of any two stops in any order holds of any two entries that count
together. -/
theorem forall_lookup_iff (proto : RouterSerialize.TransportRouter Double)
    {R : VertexId → VertexId → Prop} :
    (∀ (stopOrder : Iteration UInt32 RouterSerialize.VertexId) (origin target : Str)
        (originVertices targetVertices : StopVertices),
      (loadedVertices proto (stopOrder.order proto.stopVertexs)).lookup origin =
        some originVertices →
      (loadedVertices proto (stopOrder.order proto.stopVertexs)).lookup target =
        some targetVertices →
      R originVertices.inVertex targetVertices.inVertex) ↔
    ∀ index vertexId index' vertexId',
      proto.stopVertexs.lookup index = some vertexId →
      proto.stopVertexs.lookup index' = some vertexId' →
      (stopNameAt proto index = stopNameAt proto index' → index = index') →
      R vertexId.inVertex.toNat vertexId'.inVertex.toNat := by
  constructor
  · intro h index vertexId index' vertexId' hentry hentry' hnames
    obtain ⟨stopOrder, horigin, htarget⟩ := exists_order_of_entries hentry hentry' hnames
    exact h stopOrder _ _ _ _ horigin htarget
  · intro h stopOrder origin target originVertices targetVertices horigin htarget
    obtain ⟨index, vertexId, hentry, hname, rfl⟩ := exists_entry_of_lookup horigin
    by_cases hsame : origin = target
    · subst hsame
      cases horigin.symm.trans htarget
      exact h index vertexId index vertexId hentry hentry fun _ => rfl
    · obtain ⟨index', vertexId', hentry', hname', rfl⟩ := exists_entry_of_lookup htarget
      refine h index vertexId index' vertexId' hentry hentry' fun heq => ?_
      exact absurd (hname.symm.trans (heq.trans hname')) hsame

end Vertices

section Base

variable {protobuf : Protobuf Double} {input : protobuf.Stream} {message : Common Double}
  (hparse : protobuf.parseFromIstream input = some message)
include hparse

theorem requestHandler_of_parse (loading : LoadingOrder Double) :
    requestHandler protobuf loading input = (do
      let db ← deserializeTransportCatalogue message.catalogue
      let mr ← MapRender.deserializeMapRender message.mapSettings
      let tr ←
        deserializeTransportRouter loading.stopVertexs loading.infoAboutEdge message.router db
      pure ⟨db, mr, some tr⟩) := by
  rw [requestHandler, deserialization, hparse]
  simp only [bind_assoc, pure_bind]

/-- A message with an index out of bounds is read there, in some order. -/
theorem requestHandler_of_not_indexed (h : ¬ Indexed message) :
    ∃ loading, requestHandler protobuf loading input = .error .undefinedBehaviour := by
  by_cases hcatalogue : InBounds message.catalogue
  · obtain ⟨db, hdb, -⟩ := TransportCatalogue.deserialize_of_inBounds hcatalogue
    by_cases hoffsets : 2 ≤ message.mapSettings.busLabel.busLabelOffset.length ∧
        2 ≤ message.mapSettings.stopLabel.stopLabelOffset.length
    · obtain ⟨mr, hmr, -⟩ := deserializeMapRender_of_offsets hoffsets.1 hoffsets.2
      obtain ⟨stopOrder, htr⟩ : ∃ stopOrder,
          deserializeTransportRouter stopOrder .ofEntries message.router db =
            .error .undefinedBehaviour :=
        TransportRouter.deserialize_of_not_inBounds .ofEntries
          fun hstops => h ⟨hcatalogue, hoffsets.1, hoffsets.2, hstops⟩
      refine ⟨⟨stopOrder, .ofEntries⟩, ?_⟩
      rw [requestHandler_of_parse hparse, hdb, ok_bind, hmr, ok_bind, htr]
      rfl
    · refine ⟨⟨.ofEntries, .ofEntries⟩, ?_⟩
      rw [requestHandler_of_parse hparse, hdb, ok_bind,
        deserializeMapRender_of_not_offsets hoffsets]
      rfl
  · refine ⟨⟨.ofEntries, .ofEntries⟩, ?_⟩
    rw [requestHandler_of_parse hparse, TransportCatalogue.deserialize_of_not_inBounds hcatalogue]
    rfl

variable (hindexed : Indexed message)
include hindexed

/-- A message that names what it does not have is rejected. -/
theorem requestHandler_of_not_accepted (h : ¬ Accepted message) (loading : LoadingOrder Double) :
    requestHandler protobuf loading input = .error .outOfRange := by
  obtain ⟨db, hdb, hloaded⟩ := TransportCatalogue.deserialize_of_inBounds hindexed.catalogue
  obtain ⟨mr, hmr, -⟩ :=
    deserializeMapRender_of_offsets hindexed.busLabelOffset hindexed.stopLabelOffset
  have htr := TransportRouter.deserialize_of_unknown loading.stopVertexs loading.infoAboutEdge
    hloaded.inv.toStoreInv hindexed.stopVertexs (by
      rwa [knownStops_eq hloaded, knownBuses_eq hloaded])
  rw [requestHandler_of_parse hparse, hdb, ok_bind, hmr, ok_bind, htr]
  rfl

/-- Every other message is read. -/
theorem requestHandler_of_accepted (h : Accepted message) :
    ∃ db mr, Loaded message.catalogue message.catalogue.buses db ∧
      (mr.settings.colorPalette ≠ [] ↔ message.mapSettings.colorPalette ≠ []) ∧
      ∀ loading : LoadingOrder Double, ∃ tr,
        requestHandler protobuf loading input = .ok ⟨db, mr, some tr⟩ ∧
          tr.router = loadedRouter message.router ∧
          tr.stopVertexs =
            loadedVertices message.router
              (loading.stopVertexs.order message.router.stopVertexs) := by
  obtain ⟨db, hdb, hloaded⟩ := TransportCatalogue.deserialize_of_inBounds hindexed.catalogue
  obtain ⟨mr, hmr, hpalette⟩ :=
    deserializeMapRender_of_offsets hindexed.busLabelOffset hindexed.stopLabelOffset
  refine ⟨db, mr, hloaded, hpalette, fun loading => ?_⟩
  obtain ⟨tr, htr, hrouter, hvertices⟩ := TransportRouter.deserialize_of_known loading.stopVertexs
    loading.infoAboutEdge hloaded.inv.toStoreInv hindexed.stopVertexs (by
      rwa [knownStops_eq hloaded, knownBuses_eq hloaded])
  refine ⟨tr, ?_, hrouter, hvertices⟩
  rw [requestHandler_of_parse hparse, hdb, ok_bind, hmr, ok_bind, htr]
  rfl

theorem handled_of_accepted_iff (h : Accepted message) :
    Handled protobuf input ↔ Answerable message := by
  obtain ⟨db, mr, hloaded, hpalette, hhandler⟩ :=
    requestHandler_of_accepted hparse hindexed h
  choose tr htr hrouter hvertices using hhandler
  have hbuses : (∃ name, name ∈ db.buses) ↔ message.catalogue.buses ≠ [] := by
    have hnames (name : Str) : name ∈ db.buses ↔
        name ∈ message.catalogue.buses.map fun bus => bus.name :=
      Set.ext_iff.mp (knownBuses_eq hloaded) name
    have hnil : message.catalogue.buses.map (fun bus => bus.name) ≠ [] ↔
        message.catalogue.buses ≠ [] := List.map_eq_nil_iff.not
    rw [exists_congr hnames, ← hnil]
    exact ⟨fun ⟨name, hname⟩ => List.ne_nil_of_mem hname, List.exists_mem_of_ne_nil _⟩
  have hroutes : (∀ (loading : LoadingOrder Double) (origin target : Str),
      Safe ((tr loading).getRouteInfo origin target)) ↔ _ :=
    Iff.trans (by
      simp only [safe_getRouteInfo_iff, hrouter, hvertices]
      exact ⟨fun h stopOrder => h ⟨stopOrder, .ofEntries⟩, fun h loading => h loading.stopVertexs⟩)
      (forall_lookup_iff message.router (R := fun v v' =>
        (loadedRouter message.router).routesInternalData.get v v' ≠ none →
          (loadedRouter message.router).Stops v v'))
  have hhandled : Handled protobuf input ↔ ∀ (loading : LoadingOrder Double),
      (∀ name bus, db.findBus name = .ok bus → bus.stops ≠ []) ∧
        ((∃ name, name ∈ db.buses) → mr.settings.colorPalette ≠ []) ∧
        ∀ origin target, Safe ((tr loading).getRouteInfo origin target) := by
    refine forall_congr' fun loading => ?_
    rw [← safe_answer_iff hloaded.inv.toStoreInv]
    simp only [htr loading, ok_bind]
  rw [hhandled]
  constructor
  · intro hsafe
    obtain ⟨hstops, hcolors, -⟩ := hsafe ⟨.ofEntries, .ofEntries⟩
    exact
      { buses := (bus_ne_nil_iff hloaded).mp hstops
        colorPalette := fun hne => hpalette.mp (hcolors (hbuses.mpr hne))
        routes := hroutes.mp fun loading => (hsafe loading).2.2 }
  · intro hanswerable loading
    exact ⟨(bus_ne_nil_iff hloaded).mpr hanswerable.buses,
      fun hsome => hpalette.mpr (hanswerable.colorPalette (hbuses.mp hsome)),
      hroutes.mpr hanswerable.routes loading⟩

end Base

/-- A file is handled or rejected exactly if it can be parsed, its indices are
within bounds, and, unless it names what it does not have, the requests can rely
on it. -/
theorem handled_iff (protobuf : Protobuf Double) (input : protobuf.Stream) :
    Handled protobuf input ↔ ∃ message, protobuf.parseFromIstream input = some message ∧
      Indexed message ∧ (Accepted message → Answerable message) := by
  cases hparse : protobuf.parseFromIstream input with
  | none =>
      refine iff_of_false (fun hhandled => ?_) (by rintro ⟨message, ⟨⟩, -⟩)
      -- the router is null, and a Route request goes through it
      have hhandler : requestHandler protobuf ⟨.ofEntries, .ofEntries⟩ input =
          .ok ⟨TransportCatalogue.empty, {}, none⟩ := by
        rw [requestHandler, deserialization, hparse]
        rfl
      have hroute := hhandled ⟨.ofEntries, .ofEntries⟩ ⟨id, id, id⟩ .ofEntries ⟨0, .route [] []⟩
      rw [hhandler] at hroute
      exact hroute .undefinedBehaviour rfl
  | some message =>
      simp only [Option.some.injEq, exists_eq_left']
      by_cases hindexed : Indexed message
      · by_cases haccepted : Accepted message
        · rw [handled_of_accepted_iff hparse hindexed haccepted]
          simp only [hindexed, haccepted, true_and, true_imp_iff]
        · refine iff_of_true (fun loading m it r => ?_)
            ⟨hindexed, fun h => absurd h haccepted⟩
          rw [requestHandler_of_not_accepted hparse hindexed haccepted]
          rintro failure ⟨⟩
          exact trivial
      · refine iff_of_false (fun hhandled => ?_) fun h => hindexed h.1
        obtain ⟨loading, hhandler⟩ := requestHandler_of_not_indexed hparse hindexed
        have hmap := hhandled loading ⟨id, id, id⟩ .ofEntries ⟨0, .map⟩
        rw [hhandler] at hmap
        exact hmap .undefinedBehaviour rfl

/-- The message of an empty file. -/
def emptyMessage : Common Double :=
  { mapSettings :=
      { size := ⟨0, 0, 0⟩
        elementSize := ⟨0, 0⟩
        busLabel := ⟨0, []⟩
        stopLabel := ⟨0, []⟩
        underlayerColor := .notSet
        underlayerWidth := 0
        colorPalette := [] }
    catalogue := ⟨[], [], []⟩
    router :=
      { settings := ⟨0, 0⟩
        totalVertex := 0
        graphOfStops := ⟨[], []⟩
        router := ⟨[]⟩
        stopVertexs := ∅
        infoAboutEdge := ∅
        stops := [] } }

/-- The offsets of an empty file are read out of bounds. -/
theorem not_handled_emptyMessage :
    ¬ ∀ (protobuf : Protobuf Double) (input : protobuf.Stream), Handled protobuf input := by
  intro h
  exact h .plain emptyMessage ⟨.ofEntries, .ofEntries⟩ ⟨id, id, id⟩ .ofEntries ⟨0, .map⟩
    .undefinedBehaviour rfl

end TransportSystem
