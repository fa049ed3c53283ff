import TransportSystem.LoadedRouter
import TransportSystem.MapSafety
import TransportSystem.RouteLength
import TransportSystem.StatQueries

namespace TransportSystem.JsonReader

open Json
open Json.Builder (Emits emits_value emits_array_map emits_dict emits_dict_values emplaceAll)
open Library.UniqueKeys
open Library.Lists
open RequestHandler (renderMap)
open TransportCatalogue (StoreInv Recorded summationLenght_spec getInfoBus_of_summationLenght
  findBus_eq_ok_iff)

/-- The response to a request that names what there is not. -/
def notFound (id : Int32) : Node Double :=
  .dict [("error_message".toList, .string "not found".toList), ("request_id".toList, .int id)]

/-- The response is one to the request with the id. -/
def Carries (response : Node Double) (id : Int32) : Prop :=
  ∃ dict : Dict Double, response = .dict dict ∧ dict.find "request_id".toList = some (.int id)

theorem carries_notFound (id : Int32) : Carries (notFound id) id := ⟨_, rfl, rfl⟩

theorem responseNotFound_eq (id : Int32) : responseNotFound id = .ok (notFound id) := rfl

theorem responseRequestBus_of_not_exists {busInfo : BusInfo} (h : busInfo.exists_ = false)
    (id : Int32) : responseRequestBus busInfo id = .ok (notFound id) := by
  rw [responseRequestBus, h]
  rfl

theorem exists_responseRequestBus (busInfo : BusInfo) (id : Int32) :
    ∃ response, responseRequestBus busInfo id = .ok response ∧ Carries response id := by
  cases h : busInfo.exists_ with
  | false => exact ⟨_, responseRequestBus_of_not_exists h id, carries_notFound id⟩
  | true =>
      rw [responseRequestBus, h]
      exact ⟨_, rfl, _, rfl, rfl⟩

theorem responseRequestStop_of_not_exists {catalogue : TransportCatalogue} {stopName : Str}
    (h : stopName ∉ catalogue.stops) (id : Int32) :
    responseRequestStop catalogue stopName id = .ok (notFound id) := by
  have hinfo : catalogue.getInfoStop stopName = ⟨false, []⟩ := by
    simp [TransportCatalogue.getInfoStop, TransportCatalogue.stopAvailability, h]
  rw [responseRequestStop, hinfo]
  rfl

/-- A dictionary whose first member is an array that a loop fills. -/
theorem buildFrom_array {A : Type} {calls : A → List (Builder.Call Double)} {val : A → Node Double}
    (key : Str) (l : List A) (h : ∀ a, Emits (calls a) (val a))
    (members : List (Str × Node Double)) :
    Builder.buildFrom ([.startDict, .key key, .startArray] ++ l.flatMap calls ++
        (.endArray :: (members.flatMap fun m => [.key m.1, .value m.2]) ++ [.endDict])) =
      .ok (.dict (emplaceAll [] ((key, .array (l.map val)) :: members))) := by
  have hmembers : ∀ m ∈ members.map fun m => (m.1, [Builder.Call.value m.2], m.2),
      Emits m.2.1 m.2.2 := by
    intro m hm
    obtain ⟨member, -, rfl⟩ := List.mem_map.mp hm
    exact emits_value member.2
  have hdict := emits_dict ((key, _, _) :: members.map fun m => (m.1, [.value m.2], m.2))
    (List.forall_mem_cons.mpr ⟨emits_array_map l h, hmembers⟩)
  have hbuild := hdict.buildFrom_eq rfl
  simpa [List.flatMap_map, Function.comp_def] using hbuild

theorem exists_responseRequestStop (catalogue : TransportCatalogue) (stopName : Str) (id : Int32) :
    ∃ response, responseRequestStop catalogue stopName id = .ok response ∧
      Carries response id := by
  unfold responseRequestStop
  cases h : (catalogue.getInfoStop stopName).exists_ with
  | false =>
      simp only [h]
      exact ⟨_, responseNotFound_eq id, carries_notFound id⟩
  | true =>
      have hbuild := buildFrom_array "buses".toList (catalogue.getInfoStop stopName).buses
        (fun bus => emits_value (.string bus)) [("request_id".toList, .int id)]
      rw [← List.map_eq_flatMap] at hbuild
      simp only [h, if_true]
      exact ⟨_, hbuild, _, rfl, rfl⟩

/-- The node of an item of a route. -/
def itemNode (item : ComponentTrip Double) : Node Double :=
  match item.spanCount with
  | some spanCount =>
      .dict
        [("bus".toList, .string item.name),
          ("span_count".toList, .int (Int32.ofNat spanCount)),
          ("time".toList, .double item.weight),
          ("type".toList, .string "Bus".toList)]
  | none =>
      .dict
        [("stop_name".toList, .string item.name),
          ("time".toList, .double item.weight),
          ("type".toList, .string "Wait".toList)]

theorem emits_itemCalls (item : ComponentTrip Double) : Emits (itemCalls item) (itemNode item) := by
  unfold itemCalls itemNode
  cases item.spanCount with
  | some spanCount =>
      exact emits_dict_values [("bus".toList, .string item.name),
        ("time".toList, .double item.weight),
        ("type".toList, .string "Bus".toList),
        ("span_count".toList, .int (Int32.ofNat spanCount))]
  | none =>
      exact emits_dict_values [("stop_name".toList, .string item.name),
        ("time".toList, .double item.weight), ("type".toList, .string "Wait".toList)]

theorem exists_responseRequesRouter (handler : RequestHandler) {origin target : Str}
    {r : Option (RouteInfo Double)} (h : handler.getRouteStat origin target = .ok r) (id : Int32) :
    ∃ response, responseRequesRouter handler origin target id = .ok response ∧
      Carries response id := by
  rw [responseRequesRouter, h, ok_bind]
  cases r with
  | none => exact ⟨_, responseNotFound_eq id, carries_notFound id⟩
  | some info =>
      exact ⟨_, buildFrom_array "items".toList info.items emits_itemCalls
        [("request_id".toList, .int id), ("total_time".toList, .double info.totalTime)],
        _, rfl, rfl⟩

/-- The request names a bus or a stop that the catalogue does not have. -/
def Request.Unknown (db : TransportCatalogue) : Request → Prop
  | .bus name => name ∉ db.buses
  | .stop name => name ∉ db.stops
  | .map => False
  | .route origin target => origin ∉ db.stops ∨ target ∉ db.stops

/-- The answer due to a request. -/
def Answered (db : TransportCatalogue) (r : StatRequest) (response : Node Double) : Prop :=
  Carries response r.id ∧ (r.request.Unknown db → response = notFound r.id)

section Answers

variable {m : Libm} {it : Iteration Str BusPtr} {db : TransportCatalogue} {mr : MapRender}
  {tr : TransportRouter Double}

/-- A bus with at least two stops, all of whose roads are stored. -/
def WellRecorded (db : TransportCatalogue) (bus : Bus) : Prop :=
  2 ≤ bus.stops.length ∧ bus.stops.IsChain (Recorded db)

theorem exists_getBusStat (hdb : StoreInv db)
    (hbuses : ∀ name bus, db.findBus name = .ok bus → WellRecorded db bus) (name : Str) :
    ∃ info, db.getInfoBus m name = .ok info ∧ (name ∉ db.buses → info.exists_ = false) := by
  by_cases hname : name ∈ db.buses
  · obtain ⟨p, hp⟩ := UnorderedMap.mem_iff_lookup.mp hname
    have hfind : db.findBus name = .ok (db.bus p) := findBus_eq_ok_iff.mpr ⟨p, hp, rfl⟩
    obtain ⟨hlength, hchain⟩ := hbuses name _ hfind
    have hne : (db.bus p).stops ≠ [] := by
      intro hnil
      simp [hnil] at hlength
    have hsum := summationLenght_spec hdb (hdb.bus_mem hp).1 hne
    rw [if_pos hchain] at hsum
    obtain ⟨total, -, hsum⟩ := hsum
    obtain ⟨info, hinfo, -⟩ := getInfoBus_of_summationLenght m hfind hne hsum
    exact ⟨info, hinfo, fun hnot => absurd hname hnot⟩
  · exact ⟨_, TransportCatalogue.getInfoBus_of_unknown m hname, fun _ => rfl⟩

variable (hdb : StoreInv db)
  (hbuses : ∀ name bus, db.findBus name = .ok bus → WellRecorded db bus)
  (hpalette : mr.settings.colorPalette ≠ [])
  (hvertices : ∀ name ∈ tr.stopVertexs, name ∈ db.stops)
include hdb hbuses hpalette hvertices

/-- Only a route can be without an answer. -/
theorem exists_answer {r : StatRequest}
    (hroute : ∀ origin target, r.request = .route origin target → tr.Routable origin target) :
    ∃ response, answer m it ⟨db, mr, some tr⟩ r = .ok response ∧ Answered db r response := by
  obtain ⟨id, request⟩ := r
  cases request with
  | bus name =>
      obtain ⟨info, hinfo, hexists⟩ := exists_getBusStat hdb hbuses (m := m) name
      obtain ⟨response, hresponse, hcarries⟩ := exists_responseRequestBus info id
      refine ⟨response, bind_eq_ok_iff.mpr ⟨info, hinfo, hresponse⟩, hcarries, fun hunknown => ?_⟩
      rw [responseRequestBus_of_not_exists (hexists hunknown)] at hresponse
      cases hresponse
      rfl
  | stop name =>
      obtain ⟨response, hresponse, hcarries⟩ := exists_responseRequestStop db name id
      refine ⟨response, hresponse, hcarries, fun hunknown => ?_⟩
      rw [responseRequestStop_of_not_exists hunknown] at hresponse
      cases hresponse
      rfl
  | map =>
      obtain ⟨map, hmap⟩ : ∃ map, renderMap it db mr = .ok map :=
        RequestHandler.exists_renderMap hdb hpalette
      exact ⟨_, bind_eq_ok_iff.mpr ⟨map, hmap, rfl⟩, ⟨_, rfl, rfl⟩, False.elim⟩
  | route origin target =>
      have hroutable := hroute origin target rfl
      obtain ⟨info, hinfo⟩ := TransportRouter.exists_getRouteInfo_iff.mpr hroutable
      obtain ⟨response, hresponse, hcarries⟩ :=
        exists_responseRequesRouter ⟨db, mr, some tr⟩ hinfo id
      refine ⟨response, hresponse, hcarries, fun hunknown => ?_⟩
      -- a route that the router holds is between stops of the catalogue
      obtain ⟨originVertices, targetVertices, -, -, horigin, htarget, -⟩ := hroutable
      rcases hunknown with hunknown | hunknown
      · exact absurd (hvertices _ (UnorderedMap.mem_iff_lookup.mpr ⟨_, horigin⟩)) hunknown
      · exact absurd (hvertices _ (UnorderedMap.mem_iff_lookup.mpr ⟨_, htarget⟩)) hunknown

end Answers

theorem routable_of_answer {m : Libm} {it : Iteration Str BusPtr} {db : TransportCatalogue}
    {mr : MapRender} {tr : TransportRouter Double} {r : StatRequest} {response : Node Double}
    {origin target : Str} (h : answer m it ⟨db, mr, some tr⟩ r = .ok response)
    (hr : r.request = .route origin target) : tr.Routable origin target := by
  obtain ⟨id, request⟩ := r
  cases hr
  obtain ⟨info, hinfo, -⟩ := bind_eq_ok_iff.mp h
  exact TransportRouter.exists_getRouteInfo_iff.mp ⟨info, hinfo⟩

section Statement

variable (m : Libm) (it : Iteration Str BusPtr) (protobuf : Protobuf Double)
  (loading : LoadingOrder Double) (stod : Str → Option Double) (opened : Str → protobuf.Stream)

/-- Every request has its answer in the text that is written, and a request that
names what there is not leaves the other answers as they are without it. -/
def AnswersEach (db : TransportCatalogue) (input : IStream) (name : Str)
    (nodes : List (Node Double)) (requests : List StatRequest) : Prop :=
  ∃ responses, List.Forall₂ (Answered db) requests responses ∧
    statRequest m it protobuf loading stod opened input =
      .ok (printNode printDouble {} (.array responses)) ∧
    ∀ i r, requests[i]? = some r → r.request.Unknown db →
      ∀ input', Queries stod input' name (nodes.eraseIdx i) →
        statRequest m it protobuf loading stod opened input' =
          .ok (printNode printDouble {} (.array (responses.eraseIdx i)))

variable {m it protobuf loading stod opened} {input : IStream} {name : Str}
  {nodes : List (Node Double)} {requests : List StatRequest} {db : TransportCatalogue}
  {mr : MapRender} {tr : TransportRouter Double}

theorem requestHandler_eq
    (hbase : deserialization protobuf loading (opened name) = .ok (some (db, mr, tr))) :
    requestHandler protobuf loading (opened name) = .ok ⟨db, mr, some tr⟩ := by
  rw [requestHandler, hbase]
  rfl

/-- What is written when every request has its answer. -/
theorem statRequest_eq
    (hbase : deserialization protobuf loading (opened name) = .ok (some (db, mr, tr)))
    (hquery : Queries stod input name nodes) (hrequests : List.Forall₂ Asks nodes requests) :
    statRequest m it protobuf loading stod opened input = (do
      let responses ← requests.mapM (answer m it ⟨db, mr, some tr⟩)
      pure (printNode printDouble {} (.array responses))) := by
  obtain ⟨dict, hopen, hfind⟩ := hquery
  have harray : arrayAt dict "stat_requests" = .ok nodes := by
    rw [arrayAt, Dict.get_eq_ok_iff.mpr hfind]
    rfl
  rw [statRequest, hopen, ok_bind]
  simp only [requestHandler_eq hbase, ok_bind, Node.asDict, harray, foldlM_respond hrequests,
    bind_assoc, pure_bind, List.nil_append]

/-- On a base with well recorded buses and colors, every request has its answer
exactly if the router holds the routes that are asked for. -/
theorem answersEach_iff
    (hbase : deserialization protobuf loading (opened name) = .ok (some (db, mr, tr)))
    (hbuses : ∀ name bus, db.findBus name = .ok bus → WellRecorded db bus)
    (hpalette : mr.settings.colorPalette ≠ []) (hquery : Queries stod input name nodes)
    (hrequests : List.Forall₂ Asks nodes requests) :
    AnswersEach m it protobuf loading stod opened db input name nodes requests ↔
      ∀ r ∈ requests, ∀ origin target, r.request = .route origin target →
        tr.Routable origin target := by
  constructor
  · rintro ⟨responses, -, hwritten, -⟩ r hr origin target hroute
    rw [statRequest_eq hbase hquery hrequests] at hwritten
    obtain ⟨responses, hresponses, -⟩ := bind_eq_ok_iff.mp hwritten
    obtain ⟨response, -, hresponse⟩ :=
      exists_of_forall₂ (mapM_eq_ok_iff.mp hresponses) hr
    exact routable_of_answer hresponse hroute
  · intro hroutes
    obtain ⟨hdb, hvertices⟩ := storeInv_of_deserialization hbase
    obtain ⟨responses, hresponses⟩ := exists_forall₂ fun r hr =>
      exists_answer (m := m) hdb hbuses hpalette hvertices (hroutes r hr)
    -- the text of some of the requests has the responses to just these
    have htext : ∀ {input : IStream} {nodes : List (Node Double)} {requests : List StatRequest}
        {responses : List (Node Double)}, Queries stod input name nodes →
        List.Forall₂ Asks nodes requests →
        List.Forall₂ (fun r response => answer m it ⟨db, mr, some tr⟩ r = .ok response ∧
          Answered db r response) requests responses →
        statRequest m it protobuf loading stod opened input =
          .ok (printNode printDouble {} (.array responses)) := by
      intro input nodes requests responses hquery hrequests hresponses
      rw [statRequest_eq hbase hquery hrequests,
        mapM_eq_ok_iff.mpr (hresponses.imp fun _ _ => And.left)]
      rfl
    exact ⟨responses, hresponses.imp fun _ _ => And.right, htext hquery hrequests hresponses,
      fun i _ _ _ input' hquery' => htext hquery' (forall₂_eraseIdx hrequests i)
        (forall₂_eraseIdx hresponses i)⟩

end Statement

/-- A base with one bus between two stops. -/
def lineBase : TransportCatalogueSerialize.Common Double :=
  { mapSettings := MapRender.saveToProto ⟨lineSettings⟩
    catalogue :=
      ⟨[⟨['A'], ⟨0, 0⟩⟩, ⟨['B'], ⟨0, 1⟩⟩], [⟨false, ['1'], [0, 1]⟩], [⟨0, 1, 1000⟩]⟩
    router :=
      { settings := ⟨6, 40⟩
        totalVertex := 4
        graphOfStops := ⟨[⟨0, 0, 6⟩, ⟨1, 1, 3 / 2⟩], []⟩
        router := ⟨[⟨[⟨true, 0, none⟩, ⟨true, 6, some ⟨0⟩⟩, ⟨true, 15 / 2, some ⟨1⟩⟩]⟩]⟩
        stopVertexs := (UnorderedMap.assign ∅ 0 ⟨0, 1⟩).assign 1 ⟨2, 3⟩
        infoAboutEdge :=
          (UnorderedMap.assign ∅ 0 ⟨['A'], 6, none⟩).assign 1 ⟨['1'], 3 / 2, some ⟨1⟩⟩
        stops := [['A'], ['B']] } }

def lineFiles (_ : Str) : (Protobuf.plain (W := Double)).Stream := lineBase

theorem exists_lineBase : ∃ db mr tr,
    deserialization Protobuf.plain ⟨.ofEntries, .ofEntries⟩ (lineFiles "db".toList) =
      .ok (some (db, mr, tr)) ∧
      (∀ name bus, db.findBus name = .ok bus → WellRecorded db bus) ∧
      mr.settings.colorPalette ≠ [] ∧ tr.Routable ['A'] ['B'] ∧ ['X'] ∉ tr.stopVertexs := by
  obtain ⟨base, hbase, ⟨db, mr, tr⟩, hmem, hbuses, hpalette, hroute, hunknown⟩ := exists_ok_of_any
    (x := deserialization Protobuf.plain ⟨.ofEntries, .ofEntries⟩ (lineFiles "db".toList))
    (p := fun base => ∃ b ∈ base,
      (∀ bus ∈ b.1.allBuses, 2 ≤ bus.stops.length ∧
        bus.stops.IsChain fun p q => (p, q) ∈ b.1.lengthBetweenStops) ∧
      b.2.1.settings.colorPalette ≠ [] ∧ (b.2.2.getRouteInfo ['A'] ['B']).isOk = true ∧
      ['X'] ∉ b.2.2.stopVertexs) (by decide +kernel)
  cases hmem
  have hdb := (storeInv_of_deserialization hbase).1
  refine ⟨db, mr, tr, hbase, fun name bus hfind => ?_, hpalette,
    TransportRouter.exists_getRouteInfo_iff.mp (exists_ok_of_isOk hroute), hunknown⟩
  obtain ⟨p, hp, rfl⟩ := findBus_eq_ok_iff.mp hfind
  obtain ⟨hlength, hchain⟩ := hbuses _ (hdb.bus_mem hp).1
  exact ⟨hlength, hchain.imp fun _ _ => Or.inl⟩

theorem answersEach_line : ∃ db : TransportCatalogue,
    AnswersEach ⟨id, id, id⟩ .ofEntries .plain ⟨.ofEntries, .ofEntries⟩ stod lineFiles db
      (queryInput "db".toList
        [⟨1, .bus ['2']⟩, ⟨2, .stop ['A']⟩, ⟨3, .map⟩, ⟨4, .route ['A'] ['B']⟩])
      "db".toList
      ([⟨1, .bus ['2']⟩, ⟨2, .stop ['A']⟩, ⟨3, .map⟩, ⟨4, .route ['A'] ['B']⟩].map StatRequest.node)
      [⟨1, .bus ['2']⟩, ⟨2, .stop ['A']⟩, ⟨3, .map⟩, ⟨4, .route ['A'] ['B']⟩] := by
  obtain ⟨db, mr, tr, hbase, hbuses, hpalette, hroute, -⟩ := exists_lineBase
  refine ⟨db, (answersEach_iff hbase hbuses hpalette (queries_queryInput stod _ _)
    (forall₂_asks _)).mpr ?_⟩
  simp [hroute]

/-- The answer to a known bus is lost when the next request is for a route to an
unknown stop. -/
theorem not_answersEach_unknownStop :
    ¬ ∀ (db : TransportCatalogue) (mr : MapRender) (tr : TransportRouter Double) (input : IStream)
        (nodes : List (Node Double)) (requests : List StatRequest),
      deserialization Protobuf.plain ⟨.ofEntries, .ofEntries⟩ (lineFiles "db".toList) =
        .ok (some (db, mr, tr)) →
      (∀ name bus, db.findBus name = .ok bus → WellRecorded db bus) →
      mr.settings.colorPalette ≠ [] → Queries stod input "db".toList nodes →
      List.Forall₂ Asks nodes requests →
        AnswersEach ⟨id, id, id⟩ .ofEntries .plain ⟨.ofEntries, .ofEntries⟩ stod lineFiles
          db input "db".toList nodes requests := by
  intro hclaim
  obtain ⟨db, mr, tr, hbase, hbuses, hpalette, -, hunknown⟩ := exists_lineBase
  obtain ⟨responses, -, hwritten, -⟩ := hclaim db mr tr _ _
    [⟨1, .bus ['1']⟩, ⟨2, .route ['A'] ['X']⟩] hbase hbuses hpalette
    (queries_queryInput stod _ _) (forall₂_asks _)
  rw [statRequest_eq hbase (queries_queryInput stod _ _) (forall₂_asks _)] at hwritten
  obtain ⟨responses, hresponses, -⟩ := bind_eq_ok_iff.mp hwritten
  obtain ⟨response, -, hresponse⟩ := exists_of_forall₂ (mapM_eq_ok_iff.mp hresponses)
    (a := ⟨2, .route ['A'] ['X']⟩) (by simp)
  obtain ⟨-, targetVertices, -, -, -, htarget, -⟩ := routable_of_answer hresponse rfl
  exact hunknown (UnorderedMap.mem_iff_lookup.mpr ⟨_, htarget⟩)

end TransportSystem.JsonReader
