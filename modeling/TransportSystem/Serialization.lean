import TransportSystem.RequestHandler
import TransportSystem.RouterProto
import TransportSystem.RouteAnswers

namespace TransportSystem

open Library.UniqueKeys
open TransportSystem.Graph (EdgeId)
open TransportCatalogue (Call run run_inv run_lastBus view deserializeTransportCatalogue)
open TransportRouter (make deserializeTransportRouter lineCalls)
open RequestHandler (renderMap)

/-- Streams that carry messages: what is written is read. -/
structure Protobuf (W : Type) where
  Stream : Type
  serializeToOstream : TransportCatalogueSerialize.Common W → Stream
  parseFromIstream : Stream → Option (TransportCatalogueSerialize.Common W)
  parse_serialize : ∀ message, parseFromIstream (serializeToOstream message) = some message

/-- The orders in which `Serialization` meets the elements of the maps. -/
structure SavingOrder (W : Type) where
  lenghts : Iteration (StopPtr × StopPtr) UInt32
  stopVertexs : Iteration Str StopVertices
  infoAboutEdge : Iteration EdgeId (ComponentTrip W)

/-- The orders in which `Deserialization` meets the elements of the maps. -/
structure LoadingOrder (W : Type) where
  stopVertexs : Iteration UInt32 RouterSerialize.VertexId
  infoAboutEdge : Iteration UInt32 (RouterSerialize.ComponentTrip W)

variable {W : Type}

def serialization [Zero W] (protobuf : Protobuf W) (order : SavingOrder W)
    (db : TransportCatalogue) (mr : MapRender) (tr : TransportRouter W) :
    Except Failure protobuf.Stream := do
  let catalogue ← db.saveToProto order.lenghts
  let mapSettings := mr.saveToProto
  let router ← tr.saveToProto order.stopVertexs order.infoAboutEdge
  pure (protobuf.serializeToOstream
    { mapSettings := mapSettings, catalogue := catalogue, router := router })

/-- `proto::Deserialization`, which gives `nullptr` on an unreadable stream. -/
def deserialization (protobuf : Protobuf W) (order : LoadingOrder W) (input : protobuf.Stream) :
    Except Failure (Option (TransportCatalogue × MapRender × TransportRouter W)) := do
  match protobuf.parseFromIstream input with
  | some result =>
      let db ← deserializeTransportCatalogue result.catalogue
      let mr ← MapRender.deserializeMapRender result.mapSettings
      let tr ← deserializeTransportRouter order.stopVertexs order.infoAboutEdge result.router db
      pure (some (db, mr, tr))
  | none => pure none

/-- The two phases together answer as the first alone would. -/
theorem deserialization_serialization [NatCast W] [Mul W] [Div W] [Zero W] [Add W] [LT W]
    [DecidableLT W] (protobuf : Protobuf W) (saving : SavingOrder W) (loading : LoadingOrder W)
    (calls : List Call) (rs : RoutingSettings) (mr : MapRender) (tr : TransportRouter W)
    (hmake : make rs (run calls) = .ok tr)
    (hvertices : tr.graphOfStops.getVertexCount < 2 ^ 32)
    (hedges : tr.graphOfStops.getEdgeCount < 2 ^ 32) :
    ∃ out db' mr' tr', serialization protobuf saving (run calls) mr tr = .ok out ∧
      deserialization protobuf loading out = .ok (some (db', mr', tr')) ∧
      (∀ m name, db'.getInfoBus m name = (run calls).getInfoBus m name) ∧
      (∀ name, db'.getInfoStop name = (run calls).getInfoStop name) ∧
      (∀ origin target, tr'.getRouteInfo origin target = tr.getRouteInfo origin target) ∧
      ∀ it it', renderMap it' db' mr' = renderMap it (run calls) mr := by
  have hinv := run_inv calls
  have hdb := hinv.toStoreInv
  have h := TransportRouter.make_made hdb hmake
  have hcount : (run calls).allStops.length < 2 ^ 32 := by
    have hvertexCount : tr.graphOfStops.getVertexCount = 2 * (run calls).allStops.length :=
      h.holds.vertexCount
    omega
  obtain ⟨catalogue, db', hsave, hload, hinv', hview⟩ :=
    TransportCatalogue.deserialize_saveToProto saving.lenghts hinv (run_lastBus calls) hcount
  have hsaveRouter := TransportRouter.saveToProto_spec h hdb saving.stopVertexs saving.infoAboutEdge
  obtain ⟨tr', hloadRouter, hrestored⟩ := TransportRouter.deserialize_saveToProto h hdb
    saving.stopVertexs saving.infoAboutEdge hinv'.toStoreInv hview hvertices hedges
    loading.stopVertexs loading.infoAboutEdge
  refine ⟨_, db', mr, tr', bind_eq_ok_iff.mpr ⟨catalogue, hsave, bind_eq_ok_iff.mpr
    ⟨_, hsaveRouter, rfl⟩⟩, ?_, ?_, ?_, ?_, ?_⟩
  · unfold deserialization
    rw [protobuf.parse_serialize]
    exact bind_eq_ok_iff.mpr ⟨db', hload, bind_eq_ok_iff.mpr
      ⟨mr, mr.deserializeMapRender_saveToProto, bind_eq_ok_iff.mpr ⟨tr', hloadRouter, rfl⟩⟩⟩
  · intro m name
    rw [TransportCatalogue.getInfoBus_eq_view hinv'.toStoreInv,
      TransportCatalogue.getInfoBus_eq_view hdb, hview]
  · exact fun name => TransportCatalogue.getInfoStop_congr hinv' hinv hview name
  · exact hrestored.getRouteInfo_eq (Graph.Router.ofGraph_graph h.router)
  · exact fun it it' => RequestHandler.renderMap_congr mr hinv'.toStoreInv hdb hview it' it

/-- A stream that holds the message as it is. -/
def Protobuf.plain : Protobuf W :=
  ⟨TransportCatalogueSerialize.Common W, id, some, fun _ => rfl⟩

def lineSettings : MapSettings :=
  { size := ⟨600, 400, 50⟩
    elementSize := ⟨14, 5⟩
    colorPalette := [.rgb ⟨255, 160, 0⟩] }

theorem deserialization_serialization_line :
    ∃ (tr tr' : TransportRouter ℚ) (db' : TransportCatalogue) (mr' : MapRender),
      make ⟨6, 40⟩ (run lineCalls) = .ok tr ∧
        (serialization Protobuf.plain ⟨.ofEntries, .ofEntries, .ofEntries⟩ (run lineCalls)
          ⟨lineSettings⟩ tr >>= deserialization Protobuf.plain ⟨.ofEntries, .ofEntries⟩) =
            .ok (some (db', mr', tr')) ∧
        tr'.getRouteInfo ['A'] ['B'] = tr.getRouteInfo ['A'] ['B'] ∧
        renderMap .ofEntries db' mr' = renderMap .ofEntries (run lineCalls) ⟨lineSettings⟩ := by
  obtain ⟨tr, hmake⟩ := TransportRouter.exists_make_line
  have h := TransportRouter.make_made (run_inv lineCalls).toStoreInv hmake
  have hvertices : tr.graphOfStops.getVertexCount = 4 := h.holds.vertexCount
  have hcount : (TransportRouter.allTrips ⟨6, 40⟩ (run lineCalls) :
      List (TransportRouter.Trip ℚ)).length = 4 := by decide +kernel
  obtain ⟨out, db', mr', tr', hsave, hload, -, -, hroute, hmap⟩ := deserialization_serialization
    Protobuf.plain ⟨.ofEntries, .ofEntries, .ofEntries⟩ ⟨.ofEntries, .ofEntries⟩ lineCalls ⟨6, 40⟩
    ⟨lineSettings⟩ tr hmake (by rw [hvertices]; decide) (by rw [h.getEdgeCount, hcount]; decide)
  exact ⟨tr, tr', db', mr', hmake, bind_eq_ok_iff.mpr ⟨out, hsave, hload⟩, hroute _ _, hmap _ _⟩

end TransportSystem
