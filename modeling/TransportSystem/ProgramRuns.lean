import TransportSystem.BaseRequests
import TransportSystem.PlainMachine

/-!
Runs of the program: one process after the other, each of `make_base` or of
`process_requests`, over the same files.
-/

namespace TransportSystem

open Json
open Library.UniqueKeys
open TransportSystem.Graph (EdgeId)
open TransportCatalogue (Inv LastBus run_inv run_lastBus view)
open TransportRouter (make)
open RequestHandler (renderMap)
open JsonReader (openingQuery base arrayAt baseRequests readerRoutingSetings readerMapSettings
  requestHandler respond mapFile)

namespace JsonReader

/-- What `JSON_BaseRequest` has in memory before it saves it. -/
def described (order : ArgumentOrder) (query : Node Double) :
    Except Failure (TransportCatalogue × MapSettings × TransportRouter Double) := do
  let dict ← query.asDict
  let document ← arrayAt dict "base_requests"
  let catalogue ← baseRequests document
  let settings ← readerRoutingSetings (← dict.get "routing_settings".toList)
  let router ← make settings catalogue
  let mapSettings ← readerMapSettings order (← dict.get "render_settings".toList)
  pure (catalogue, mapSettings, router)

theorem base_eq (protobuf : Protobuf Double) (order : ArgumentOrder) (saving : SavingOrder Double)
    (query : Node Double) :
    base protobuf order saving query = (do
      let (db, settings, tr) ← described order query
      serialization protobuf saving db ⟨settings⟩ tr) := by
  simp only [base, described, bind_assoc, pure_bind]

/-- Two request handlers that answer alike, whatever the order in which the
second meets its buses. -/
structure SameHandler (handler handler' : RequestHandler) : Prop where
  getBusStat : ∀ m name, handler'.getBusStat m name = handler.getBusStat m name
  getInfoStop : ∀ name, handler'.db.getInfoStop name = handler.db.getInfoStop name
  getRouteStat : ∀ origin target,
    handler'.getRouteStat origin target = handler.getRouteStat origin target
  renderMap : ∀ it it', renderMap it' handler'.db handler'.render =
    renderMap it handler.db handler.render

theorem SameHandler.respond_eq {handler handler' : RequestHandler}
    (h : SameHandler handler handler') (m : Libm) (it it' : Iteration Str BusPtr) :
    respond m it' handler' = respond m it handler := by
  have hbus : respondBus m handler' = respondBus m handler := by
    funext dict
    simp only [respondBus, h.getBusStat]
  have hstop : respondStop handler' = respondStop handler := by
    funext dict
    simp only [respondStop, responseRequestStop, h.getInfoStop]
  have hmap : respondMap it' handler' = respondMap it handler := by
    funext dict
    simp only [respondMap, h.renderMap it it']
  have hroute : respondRoute handler' = respondRoute handler := by
    funext dict
    simp only [respondRoute, responseRequesRouter, h.getRouteStat]
  funext result request
  simp only [respond, hbus, hstop, hmap, hroute]

/-- The numbers of the vertices and of the edges fit the file. -/
def FitsFile (tr : TransportRouter Double) : Prop :=
  tr.graphOfStops.getVertexCount < 2 ^ 32 ∧ tr.graphOfStops.getEdgeCount < 2 ^ 32

instance (tr : TransportRouter Double) : Decidable (FitsFile tr) :=
  inferInstanceAs (Decidable (_ ∧ _))

section Saved

variable {rs : RoutingSettings} {db : TransportCatalogue} {mr : MapRender}
  {tr : TransportRouter Double}

/-- A catalogue with its router can be saved, and what is read answers as what
was saved. -/
theorem exists_handler_of_make (hdb : Inv db) (hlast : LastBus db) (hmake : make rs db = .ok tr)
    (hfits : FitsFile tr) (protobuf : Protobuf Double) (saving : SavingOrder Double)
    (loading : LoadingOrder Double) :
    ∃ out handler', serialization protobuf saving db mr tr = .ok out ∧
      requestHandler protobuf loading out = .ok handler' ∧
      SameHandler ⟨db, mr, some tr⟩ handler' := by
  have hstore := hdb.toStoreInv
  have h := TransportRouter.make_made hstore hmake
  have hcount : db.allStops.length < 2 ^ 32 := by
    have hvertexCount : tr.graphOfStops.getVertexCount = 2 * db.allStops.length :=
      h.holds.vertexCount
    have hvertices := hfits.1
    omega
  obtain ⟨catalogue, db', hsave, hload, hdb', hview⟩ :=
    TransportCatalogue.deserialize_saveToProto saving.lenghts hdb hlast hcount
  have hsaveRouter :=
    TransportRouter.saveToProto_spec h hstore saving.stopVertexs saving.infoAboutEdge
  obtain ⟨tr', hloadRouter, hrestored⟩ := TransportRouter.deserialize_saveToProto h hstore
    saving.stopVertexs saving.infoAboutEdge hdb'.toStoreInv hview hfits.1 hfits.2
    loading.stopVertexs loading.infoAboutEdge
  have hserialize : serialization protobuf saving db mr tr = .ok (protobuf.serializeToOstream
      { mapSettings := mr.saveToProto
        catalogue := catalogue
        router := TransportRouter.protoRouter saving.stopVertexs saving.infoAboutEdge tr }) := by
    rw [serialization, hsave, ok_bind, hsaveRouter]
    rfl
  refine ⟨_, ⟨db', mr, some tr'⟩, hserialize, ?_, ?_, ?_, ?_, ?_⟩
  · rw [requestHandler_of_parse (protobuf.parse_serialize _), hload, ok_bind,
      mr.deserializeMapRender_saveToProto, ok_bind, hloadRouter]
    rfl
  · intro m name
    show db'.getInfoBus m name = db.getInfoBus m name
    rw [TransportCatalogue.getInfoBus_eq_view hdb'.toStoreInv,
      TransportCatalogue.getInfoBus_eq_view hstore, hview]
  · exact TransportCatalogue.getInfoStop_congr hdb' hdb hview
  · exact hrestored.getRouteInfo_eq (Graph.Router.ofGraph_graph h.router)
  · exact fun it it' =>
      RequestHandler.renderMap_congr mr hdb'.toStoreInv hstore hview it' it

end Saved

/-- An accepted description is saved, and what is read from the file answers as
what was in memory. -/
theorem exists_handler_of_described {order : ArgumentOrder} {query : Node Double}
    {db : TransportCatalogue} {settings : MapSettings} {tr : TransportRouter Double}
    (h : described order query = .ok (db, settings, tr)) (hfits : FitsFile tr)
    (protobuf : Protobuf Double) (saving : SavingOrder Double) (loading : LoadingOrder Double) :
    ∃ out handler', base protobuf order saving query = .ok out ∧
      requestHandler protobuf loading out = .ok handler' ∧
      SameHandler ⟨db, ⟨settings⟩, some tr⟩ handler' := by
  rw [base_eq, h, ok_bind]
  simp only [described, bind_eq_ok_iff] at h
  obtain ⟨dict, -, document, -, catalogue, hcatalogue, _, -, rs, -, router, hmake, _, -,
    mapSettings,
    -, h⟩ := h
  cases h
  obtain ⟨-, rfl⟩ := (baseRequests_eq_ok_iff _ _).mp hcatalogue
  exact exists_handler_of_make (run_inv _) (run_lastBus _) hmake hfits protobuf saving loading

section Printed

theorem printable_array {nodes : List (Node Double)}
    (h : ∀ node ∈ nodes, node.Everywhere Printable) : (Node.array nodes).Everywhere Printable :=
  .intro ⟨trivial, trivial⟩ h

theorem printable_bool (value : Bool) : (Node.bool value : Node Double).Everywhere Printable :=
  .leaf rfl ⟨trivial, trivial⟩

/-- A printed input is read as it was. -/
theorem openingQuery_print {stod : Str → Option Double} {dict settings : Dict Double} {name : Str}
    (h : (Node.dict dict).Everywhere Printable)
    (hsettings : dict.find "serialization_settings".toList = some (.dict settings))
    (hfile : settings.find "file".toList = some (.string name)) :
    openingQuery stod (.ofText (printNode printDouble {} (.dict dict))) =
      .ok (.dict dict, name) := by
  have hvalue : Grammar stod (.value (.dict dict)) (printNode printDouble {} (.dict dict)) :=
    grammar_printNode (h.imp fun _ => And.right) (h.imp fun _ => And.left) {}
  obtain ⟨document, rest, hload, hroot⟩ := exists_load_of_value hvalue
  rw [openingQuery, hload, ok_bind]
  simp only [hroot, Node.asDict, ok_bind, Dict.get_eq_ok_iff.mpr hsettings, serializationSettings,
    Dict.get_eq_ok_iff.mpr hfile, Node.asString]
  rfl

def lineStops : List (Node Double) :=
  [.dict [("is_roundtrip".toList, .bool false), ("name".toList, .string ['1']),
      ("stops".toList, .array [.string ['A'], .string ['B']]),
      ("type".toList, .string "Bus".toList)],
    .dict [("latitude".toList, .int 1), ("longitude".toList, .int 2),
      ("name".toList, .string ['A']), ("road_distances".toList, .dict [(['B'], .int 600)]),
      ("type".toList, .string "Stop".toList)]]

def lineRender : Dict Double :=
  [("bus_label_font_size".toList, .int 20), ("bus_label_offset".toList, .array [.int 7, .int 15]),
    ("color_palette".toList, .array [.string "green".toList]), ("height".toList, .int 400),
    ("line_width".toList, .int 14), ("padding".toList, .int 50),
    ("stop_label_font_size".toList, .int 18),
    ("stop_label_offset".toList, .array [.int 7, .int (-3)]),
    ("stop_radius".toList, .int 5), ("underlayer_color".toList, .string "white".toList),
    ("underlayer_width".toList, .int 3), ("width".toList, .int 600)]

/-- A line with two stops, one of them without an entry of its own. -/
def lineDescription (name : Str) : Dict Double :=
  [("base_requests".toList, .array lineStops), ("render_settings".toList, .dict lineRender),
    ("routing_settings".toList,
      .dict [("bus_velocity".toList, .int 40), ("bus_wait_time".toList, .int 6)]),
    ("serialization_settings".toList, .dict [("file".toList, .string name)])]

theorem printable_lineDescription (name : Str) :
    (Node.dict (lineDescription name)).Everywhere Printable := by
  have hstops : ∀ node ∈ lineStops, node.Everywhere Printable := by
    refine List.forall_mem_cons.mpr ⟨?_, List.forall_mem_singleton.mpr ?_⟩
    · exact printable_dict ["is_roundtrip", "name", "stops", "type"] rfl (by decide)
        (by simp [printable_string, printable_bool, printable_array])
    · refine printable_dict ["latitude", "longitude", "name", "road_distances", "type"] rfl
        (by decide) ?_
      have hdistances : (Node.dict [(['B'], .int 600)] : Node Double).Everywhere Printable :=
        printable_dict ["B"] rfl (by decide) (by simp [printable_int])
      simp [printable_string, printable_int, hdistances]
  have hrender : (Node.dict lineRender).Everywhere Printable :=
    printable_dict ["bus_label_font_size", "bus_label_offset", "color_palette", "height",
      "line_width", "padding", "stop_label_font_size", "stop_label_offset", "stop_radius",
      "underlayer_color", "underlayer_width", "width"] rfl (by decide)
      (by simp [lineRender, printable_string, printable_int, printable_array])
  have hrouting : (Node.dict [("bus_velocity".toList, .int 40), ("bus_wait_time".toList, .int 6)] :
      Node Double).Everywhere Printable :=
    printable_dict ["bus_velocity", "bus_wait_time"] rfl (by decide) (by simp [printable_int])
  have hsettings : (Node.dict [("file".toList, .string name)] : Node Double).Everywhere Printable :=
    printable_dict ["file"] rfl (by decide) (by simp [printable_string])
  refine printable_dict ["base_requests", "render_settings", "routing_settings",
    "serialization_settings"] rfl (by decide) ?_
  simp only [lineDescription, List.forall_mem_cons]
  exact ⟨printable_array hstops, hrender, hrouting, hsettings, by simp⟩

theorem exists_described_line (name : Str) : ∃ db settings tr,
    described .firstToLast (.dict (lineDescription name)) = .ok (db, settings, tr) ∧ FitsFile tr ∧
      ∃ map, renderMap .ofEntries db ⟨settings⟩ = .ok map := by
  obtain ⟨⟨db, settings, tr⟩, hdescribed, hfits, hmap⟩ := exists_ok_of_any
    (x := described .firstToLast (.dict (lineDescription [])))
    (p := fun description => FitsFile description.2.2 ∧
      (renderMap .ofEntries description.1 ⟨description.2.1⟩).isOk = true) (by decide +kernel)
  exact ⟨db, settings, tr, hdescribed, hfits, exists_ok_of_isOk hmap⟩

end Printed

end JsonReader

namespace Program

open JsonReader (described respondFiles statRequestFiles NamesFile FitsFile SameHandler
  perform_statRequestFiles exists_handler_of_described)

variable (machine : Machine)

/-- The file that a process opens for its base, if it makes one. -/
def madeFile (process : Process) : Option Str :=
  if process.arguments = [makeBase] then
    (openingQuery machine.stod (.ofText process.cin)).toOption.map Prod.snd
  else none

/-- What such a process leaves in the file: the base, or nothing if it fails. -/
def madeBase (process : Process) : Str :=
  match openingQuery machine.stod (.ofText process.cin) with
  | .ok (query, _) =>
      match base machine.protobuf process.orders.arguments process.orders.saving query with
      | .ok out => machine.bytes out
      | .error _ => []
  | .error _ => []

/-- What the last process left that made a base in a file. -/
def lastBase (name : Str) (processes : List Process) : Option Str :=
  (processes.reverse.find? fun process => madeFile machine process = some name).map
    (madeBase machine)

variable {machine} {name : Str}

theorem Outcome.ofText_eq_ok {result : Except Failure Str} {cout : Str}
    (h : Outcome.ofText result = { exit := .ok 0, cout := cout }) : result = .ok cout := by
  cases result with
  | error failure => cases h
  | ok text =>
      cases h
      rfl

theorem main_makeBase (process : Process) (h : process.arguments = [makeBase]) (files : Files) :
    main machine process files =
      (let (result, files) := JsonReader.baseRequest machine.protobuf process.orders.arguments
        process.orders.saving machine.stod machine.bytes (.ofText process.cin) files
      (.ofText (result.map fun _ => []), files)) := by
  rw [main, h]
  rfl

theorem main_processRequests (process : Process) (h : process.arguments = [processRequests])
    (files : Files) :
    main machine process files =
      (let (result, files) := perform (statRequestFiles machine.m process.orders.buses
        machine.protobuf process.orders.loading machine.stod machine.opened
        (.ofText process.cin)) files
      (.ofText result, files)) := by
  rw [main, h]
  rfl

theorem main_of_not_mode (process : Process) (h : process.arguments ≠ [makeBase])
    (h' : process.arguments ≠ [processRequests]) (files : Files) :
    (main machine process files).2 = files := by
  unfold main
  split
  · rename_i mode harguments
    rw [harguments] at h h'
    have hmake : mode ≠ makeBase := fun hmode => h (by rw [hmode])
    have hrequests : mode ≠ processRequests := fun hmode => h' (by rw [hmode])
    rw [if_neg hmake, if_neg hrequests]
  · rfl

theorem madeFile_of_ne {process : Process} (h : process.arguments ≠ [makeBase]) :
    madeFile machine process = none := if_neg h

variable (machine) in
/-- What a process does to the files: it makes a base, or it may write the map. -/
theorem main_files (process : Process) (files : Files) :
    (∃ file, madeFile machine process = some file ∧
        (main machine process files).2 = files.write file (madeBase machine process)) ∨
      (madeFile machine process = none ∧
        ((main machine process files).2 = files ∨
          ∃ text, (main machine process files).2 = files.write mapFile text)) := by
  by_cases hmake : process.arguments = [makeBase]
  · rw [main_makeBase process hmake, madeFile, if_pos hmake, madeBase, JsonReader.baseRequest]
    cases openingQuery machine.stod (.ofText process.cin) with
    | error failure => exact .inr ⟨rfl, .inl rfl⟩
    | ok opening =>
        obtain ⟨query, file⟩ := opening
        refine .inl ⟨file, rfl, ?_⟩
        dsimp only
        cases base machine.protobuf process.orders.arguments process.orders.saving query with
        | error failure => exact files.openOutput_eq_write
        | ok out => exact files.write_openOutput _
  · refine .inr ⟨madeFile_of_ne hmake, ?_⟩
    by_cases hrequests : process.arguments = [processRequests]
    · rw [main_processRequests process hrequests, perform_statRequestFiles]
      dsimp only
      split
      · exact .inr ⟨_, rfl⟩
      · exact .inl rfl
    · exact .inl (main_of_not_mode process hmake hrequests files)

theorem main_opens (process : Process) (files : Files) :
    (main machine process files).2.opens = files.opens := by
  rcases main_files machine process files with
    ⟨file, -, hfiles⟩ | ⟨-, hfiles | ⟨text, hfiles⟩⟩
  · rw [hfiles, files.opens_write]
  · rw [hfiles]
  · rw [hfiles, files.opens_write]

/-- One process leaves in a file the base that it makes there, if any. -/
theorem main_contents (hname : name ≠ mapFile) (process : Process) (files : Files) :
    (main machine process files).2.contents name =
      if files.opens name = true ∧ madeFile machine process = some name then
        some (madeBase machine process)
      else files.contents name := by
  rcases main_files machine process files with
    ⟨file, hmade, hfiles⟩ | ⟨hmade, hfiles | ⟨text, hfiles⟩⟩
  · rw [hfiles, hmade]
    by_cases heq : file = name
    · subst heq
      rw [files.write_contents]
      simp
    · rw [files.write_contents_of_ne (Ne.symm heq), if_neg]
      rintro ⟨-, h⟩
      exact heq (Option.some.inj h)
  · rw [hfiles, hmade]
    simp
  · rw [hfiles, hmade, files.write_contents_of_ne hname]
    simp

theorem run_append_singleton (processes : List Process) (process : Process) (files : Files) :
    run machine (processes ++ [process]) files =
      (main machine process (run machine processes files)).2 := by
  rw [run, List.foldl_append]
  rfl

theorem run_opens (processes : List Process) (files : Files) :
    (run machine processes files).opens = files.opens :=
  Library.Runs.invariant_foldl _ (fun files' : Files => files'.opens = files.opens)
    (fun files' process h => (main_opens process files').trans h) rfl processes

/-- A base stays in its file as long as no other one is made there. -/
theorem contents_after (before : List Process) {after : List Process} {maker : Process}
    {files : Files} (hname : name ≠ mapFile) (hopens : files.opens name = true)
    (hmaker : madeFile machine maker = some name)
    (hafter : ∀ process ∈ after, madeFile machine process ≠ some name) :
    (run machine (before ++ maker :: after) files).contents name =
      some (madeBase machine maker) := by
  induction after using List.reverseRecOn with
  | nil => rw [run_append_singleton, main_contents hname, run_opens, if_pos ⟨hopens, hmaker⟩]
  | append_singleton after process ih =>
      rw [List.forall_mem_append, List.forall_mem_singleton] at hafter
      rw [← List.cons_append, ← List.append_assoc, run_append_singleton, main_contents hname,
        if_neg fun h => hafter.2 h.2]
      exact ih hafter.1

theorem lastBase_append_singleton (processes : List Process) (process : Process) :
    lastBase machine name (processes ++ [process]) =
      if madeFile machine process = some name then some (madeBase machine process)
      else lastBase machine name processes := by
  unfold lastBase
  rw [List.reverse_append, List.reverse_singleton, List.singleton_append, List.find?_cons]
  by_cases h : madeFile machine process = some name
  · simp [h]
  · simp [h]

/-- After any run a file holds the base that was made there last, or nothing if
that process failed, or what it held at first. -/
theorem run_contents (processes : List Process) (files : Files) (hname : name ≠ mapFile) :
    (run machine processes files).contents name =
      if files.opens name = true then
        (lastBase machine name processes).or (files.contents name)
      else files.contents name := by
  induction processes using List.reverseRecOn with
  | nil =>
      show files.contents name = _
      rw [lastBase, List.reverse_nil, List.find?_nil, Option.map_none, Option.none_or, ite_self]
  | append_singleton processes process ih =>
      rw [run_append_singleton, main_contents hname, run_opens, ih, lastBase_append_singleton]
      by_cases hopens : files.opens name = true
      · simp only [hopens, true_and, if_true]
        split <;> simp
      · simp [hopens]

/-- A process that empties its file. -/
def brokenMaker : Process := ⟨.ofEntries, [makeBase], JsonReader.brokenRequest⟩

theorem opening_broken : ∃ query,
    openingQuery Machine.plain.stod (.ofText brokenMaker.cin) = .ok (query, "db".toList) ∧
      base Machine.plain.protobuf brokenMaker.orders.arguments brokenMaker.orders.saving query =
        .error .outOfRange := by
  obtain ⟨⟨query, name⟩, hopening, hname, hbase⟩ := exists_ok_of_any
    (x := openingQuery Json.stod (.ofText JsonReader.brokenRequest))
    (p := fun opened => opened.2 = "db".toList ∧
      (base (W := ℚ) .orUnreadable .firstToLast ⟨.ofEntries, .ofEntries, .ofEntries⟩ opened.1).map
        (fun _ => ()) = .error .outOfRange) (by decide +kernel)
  dsimp only at hname hbase
  subst hname
  refine ⟨query, hopening, ?_⟩
  show base (W := ℚ) .orUnreadable .firstToLast ⟨.ofEntries, .ofEntries, .ofEntries⟩ query = _
  cases h : base (W := ℚ) .orUnreadable .firstToLast ⟨.ofEntries, .ofEntries, .ofEntries⟩ query with
  | error failure =>
      rw [h] at hbase
      cases hbase
      rfl
  | ok out =>
      rw [h] at hbase
      cases hbase

theorem madeBase_broken : madeFile Machine.plain brokenMaker = some "db".toList ∧
    madeBase Machine.plain brokenMaker = [] := by
  obtain ⟨query, hopening, hbase⟩ := opening_broken
  constructor
  · rw [madeFile, if_pos (by rfl), hopening]
    rfl
  · rw [madeBase, hopening]
    dsimp only
    rw [hbase]

theorem run_contents_broken :
    (run .plain [brokenMaker, ⟨.ofEntries, [], []⟩] .none).contents "db".toList = some [] := by
  obtain ⟨hfile, hbase⟩ := madeBase_broken
  rw [run_contents _ _ (by decide), if_pos (by rfl)]
  have hlast :
      lastBase Machine.plain "db".toList [brokenMaker, ⟨.ofEntries, [], []⟩] = some [] := by
    rw [← List.singleton_append, lastBase_append_singleton,
      if_neg (by rw [madeFile_of_ne] <;> decide), ← List.nil_append [brokenMaker],
      lastBase_append_singleton, if_pos hfile, hbase]
  rw [hlast]
  rfl

/-- The process makes a base in the file from a description that is accepted. -/
structure Makes (machine : Machine) (process : Process) (name : Str) (db : TransportCatalogue)
    (settings : MapSettings) (tr : TransportRouter Double) : Prop where
  mode : process.arguments = [makeBase]
  accepted : ∃ query, openingQuery machine.stod (.ofText process.cin) = .ok (query, name) ∧
    described process.orders.arguments query = .ok (db, settings, tr)
  fits : FitsFile tr

/-- What is written for the requests by a program that has the base in memory. -/
def answersTo (machine : Machine) (handler : RequestHandler) (cin : Str) : Except Failure Str := do
  let (query, _) ← openingQuery machine.stod (.ofText cin)
  let dict ← query.asDict
  let document ← arrayAt dict "stat_requests"
  let result ← document.foldlM (respond machine.m .ofEntries handler) []
  pure (printNode printDouble {} (.array result))

theorem madeFile_of_opening {process : Process} {query : Node Double}
    (hmode : process.arguments = [makeBase])
    (hopening : openingQuery machine.stod (.ofText process.cin) = .ok (query, name)) :
    madeFile machine process = some name := by
  rw [madeFile, if_pos hmode, hopening]
  rfl

theorem main_of_handler {asker : Process} (hasker : asker.arguments = [processRequests])
    (hquery : NamesFile machine.stod (.ofText asker.cin) name) {files : Files}
    {handler handler' : RequestHandler}
    (hhandler : requestHandler machine.protobuf asker.orders.loading
      (machine.opened (files.contents name)) = .ok handler')
    (hsame : SameHandler handler handler') :
    (main machine asker files).1 = .ofText (answersTo machine handler asker.cin) := by
  obtain ⟨query, hopening⟩ := JsonReader.openingQuery_eq_ok_iff.mpr hquery
  rw [main_processRequests asker hasker, perform_statRequestFiles, JsonReader.statRequest,
    answersTo, hopening, ok_bind, ok_bind]
  dsimp only
  rw [hhandler, ok_bind, hsame.respond_eq machine.m .ofEntries asker.orders.buses]

/-- A base that was made is read from its file as it was, as long as no other one
is made there. -/
theorem exists_handler_after (before : List Process) {after : List Process} {maker : Process}
    {files : Files} {db : TransportCatalogue} {settings : MapSettings}
    {tr : TransportRouter Double} (hmaker : Makes machine maker name db settings tr)
    (hopens : files.opens name = true) (hname : name ≠ mapFile)
    (hafter : ∀ process ∈ after, madeFile machine process ≠ some name)
    (loading : LoadingOrder Double) :
    ∃ handler', requestHandler machine.protobuf loading
        (machine.opened ((run machine (before ++ maker :: after) files).contents name)) =
          .ok handler' ∧
      SameHandler ⟨db, ⟨settings⟩, some tr⟩ handler' := by
  obtain ⟨query, hopening, hdescribed⟩ := hmaker.accepted
  obtain ⟨out, handler', hout, hhandler, hsame⟩ := exists_handler_of_described hdescribed
    hmaker.fits machine.protobuf maker.orders.saving loading
  have hmade : madeBase machine maker = machine.bytes out := by
    rw [madeBase, hopening]
    dsimp only
    rw [hout]
  refine ⟨handler', ?_, hsame⟩
  rw [contents_after before hname hopens (madeFile_of_opening hmaker.mode hopening) hafter, hmade,
    machine.opened_bytes]
  exact hhandler

def lineMaker : Process :=
  ⟨.ofEntries, [makeBase],
    printNode printDouble {} (.dict (JsonReader.lineDescription "db".toList))⟩

def lineAsker (requests : List JsonReader.StatRequest) : Process :=
  ⟨.ofEntries, [processRequests],
    printNode printDouble {} (.dict (JsonReader.queryDict "db".toList requests))⟩

theorem opening_lineMaker : openingQuery Machine.plain.stod (.ofText lineMaker.cin) =
    .ok (.dict (JsonReader.lineDescription "db".toList), "db".toList) :=
  JsonReader.openingQuery_print (JsonReader.printable_lineDescription "db".toList) rfl rfl

theorem exists_makes_line : ∃ db settings tr,
    Makes .plain lineMaker "db".toList db settings tr := by
  obtain ⟨db, settings, tr, hdescribed, hfits, -⟩ := JsonReader.exists_described_line "db".toList
  exact ⟨db, settings, tr, rfl, ⟨_, opening_lineMaker, hdescribed⟩, hfits⟩

theorem opening_lineAsker (requests : List JsonReader.StatRequest) :
    openingQuery Machine.plain.stod (.ofText (lineAsker requests).cin) =
      .ok (.dict (JsonReader.queryDict "db".toList requests), "db".toList) :=
  JsonReader.openingQuery_print (JsonReader.printable_queryDict "db".toList requests) rfl rfl

theorem namesFile_lineAsker (requests : List JsonReader.StatRequest) :
    NamesFile Machine.plain.stod (.ofText (lineAsker requests).cin) "db".toList :=
  JsonReader.openingQuery_eq_ok_iff.mp ⟨_, opening_lineAsker requests⟩

section Map

open JsonReader (StatRequest Queries answer asksMap answersMap mapText responseRequesMap
  foldlM_respond)

variable {m : Libm} {it : Iteration Str BusPtr} {handler : RequestHandler}

theorem answersMap_of_ok {requests result responses : List (Node Double)}
    (h : requests.foldlM (respond m it handler) result = .ok responses) :
    answersMap m it handler result requests = requests.any asksMap := by
  induction requests generalizing result with
  | nil => rfl
  | cons request requests ih =>
      rw [List.foldlM_cons] at h
      obtain ⟨result', hresult, h⟩ := bind_eq_ok_iff.mp h
      rw [answersMap, hresult, List.any_cons]
      dsimp only
      rw [ih h]

/-- The answer to a request for the map. -/
def mapAnswer (text : Str) (id : Int32) : Node Double :=
  .dict [("map".toList, .string text), ("request_id".toList, .int id)]

/-- What one turn of the loop adds to the answers: for a `Map` request one answer
with the text of the map. -/
def Adds (text : Str) (request : Node Double) (added : List (Node Double)) : Prop :=
  asksMap request = true → ∃ (dict : Dict Double) (id : Int32), request = .dict dict ∧
    JsonReader.intAt dict "id" = .ok id ∧ added = [mapAnswer text id]

theorem exists_added_of_pushIf {condition : Bool} {response : Except Failure (Node Double)}
    {result result' : List (Node Double)}
    (h : JsonReader.pushIf condition response result = .ok result') :
    ∃ added, result' = result ++ added := by
  cases condition with
  | false =>
      cases h
      exact ⟨[], (List.append_nil _).symm⟩
  | true =>
      obtain ⟨node, -, h⟩ := bind_eq_ok_iff.mp h
      cases h
      exact ⟨[node], rfl⟩

theorem exists_adds {result result' : List (Node Double)} {request : Node Double}
    (h : respond m it handler result request = .ok result') :
    ∃ added, result' = result ++ added ∧ Adds (mapText it handler) request added := by
  obtain ⟨dict, hdict, hrest⟩ := bind_eq_ok_iff.mp h
  obtain ⟨-, -, h⟩ := bind_eq_ok_iff.mp hrest
  obtain ⟨-, -, h⟩ := bind_eq_ok_iff.mp h
  obtain ⟨type, htype, h⟩ := bind_eq_ok_iff.mp h
  obtain ⟨afterBus, hbus, h⟩ := bind_eq_ok_iff.mp h
  obtain ⟨afterStop, hstop, h⟩ := bind_eq_ok_iff.mp h
  obtain ⟨afterMap, hmap, hroute⟩ := bind_eq_ok_iff.mp h
  cases Node.asDict_eq_ok_iff.mp hdict
  by_cases hasked : type = "Map".toList
  · subst hasked
    -- the other branches are not taken
    cases hbus
    cases hstop
    cases hroute
    obtain ⟨node, hnode, hpushed⟩ := bind_eq_ok_iff.mp hmap
    obtain ⟨map, hrender, hnode⟩ := bind_eq_ok_iff.mp hnode
    obtain ⟨id, hid, hnode⟩ := bind_eq_ok_iff.mp hnode
    cases hnode
    cases hpushed
    refine ⟨[responseRequesMap map id], rfl, fun _ => ⟨dict, id, rfl, hid, ?_⟩⟩
    rw [mapText, hrender]
    rfl
  · obtain ⟨ofBus, rfl⟩ := exists_added_of_pushIf hbus
    obtain ⟨ofStop, rfl⟩ := exists_added_of_pushIf hstop
    obtain ⟨ofMap, rfl⟩ := exists_added_of_pushIf hmap
    obtain ⟨ofRoute, rfl⟩ := exists_added_of_pushIf hroute
    refine ⟨ofBus ++ (ofStop ++ (ofMap ++ ofRoute)), by simp only [List.append_assoc], ?_⟩
    rw [Adds, JsonReader.asksMap_dict htype, decide_eq_true_iff]
    exact fun hmap => absurd hmap hasked

theorem exists_parts {requests result responses : List (Node Double)}
    (h : requests.foldlM (respond m it handler) result = .ok responses) :
    ∃ parts : List (List (Node Double)), responses = result ++ parts.flatten ∧
      List.Forall₂ (Adds (mapText it handler)) requests parts := by
  induction requests generalizing result with
  | nil =>
      cases h
      exact ⟨[], (List.append_nil _).symm, .nil⟩
  | cons request requests ih =>
      rw [List.foldlM_cons] at h
      obtain ⟨next, hnext, h⟩ := bind_eq_ok_iff.mp h
      obtain ⟨added, rfl, hadds⟩ := exists_adds hnext
      obtain ⟨parts, rfl, hparts⟩ := ih h
      exact ⟨added :: parts, by rw [List.flatten_cons, List.append_assoc], .cons hadds hparts⟩

end Map

end Program

end TransportSystem
