import TransportSystem.BaseSafety

namespace TransportSystem

open Json
open Library.UniqueKeys
open TransportCatalogue (StoreInv run_inv)
open TransportRouter (make Made)
open JsonReader (openingQuery base arrayAt baseRequests respond answer described mapFile)

theorem safe_error_iff {A : Type} {failure : Failure} :
    Safe (.error failure : Except Failure A) ↔ failure.Thrown := by
  constructor
  · intro h
    exact h failure rfl
  · rintro h _ ⟨⟩
    exact h

namespace TransportRouter

/-- A router that was made answers every request for a route, or throws. -/
theorem Made.safe_getRouteInfo {rs : RoutingSettings} {db : TransportCatalogue}
    {tr : TransportRouter Double} (h : Made rs db tr) (hdb : StoreInv db) (origin target : Str) :
    Safe (tr.getRouteInfo origin target) := by
  by_cases horigin : origin ∈ db.names
  · by_cases htarget : target ∈ db.names
    · obtain ⟨a, -, ha, rfl⟩ := hdb.lookup_of_mem horigin
      obtain ⟨b, -, hb, rfl⟩ := hdb.lookup_of_mem htarget
      rcases h.getRouteInfo_spec hdb ha hb with ⟨hinfo, -⟩ | ⟨r, items, -, hinfo, -⟩
      · exact safe_of_exists ⟨_, hinfo⟩
      · exact safe_of_exists ⟨_, hinfo⟩
    · rintro failure hfailure
      cases (h.getRouteInfo_of_target_not_mem horigin htarget).symm.trans hfailure
      trivial
  · rintro failure hfailure
    cases (h.getRouteInfo_of_origin_not_mem horigin target).symm.trans hfailure
    trivial

end TransportRouter

namespace JsonReader

/-- Every bus that can be asked for has a stop, and there are colors to draw the
buses with. -/
def Requestable (db : TransportCatalogue) (settings : MapSettings) : Prop :=
  (∀ name bus, db.findBus name = .ok bus → bus.stops ≠ []) ∧
    ((∃ name, name ∈ db.buses) → settings.colorPalette ≠ [])

section Loop

variable {m : Libm} {it : Iteration Str BusPtr} {handler : RequestHandler}

theorem safe_pushIf {condition : Bool} {response : Except Failure (Node Double)}
    {result : List (Node Double)} (h : Safe response) :
    Safe (pushIf condition response result) := by
  cases condition with
  | true => exact safe_bind_iff.mpr ⟨h, fun _ _ => safe_ok _⟩
  | false => exact safe_ok _

variable (h : ∀ r, Safe (answer m it handler r))
include h

/-- If every request is answered safely, so is what only resembles a request. -/
theorem safe_respond (result : List (Node Double)) (request : Node Double) :
    Safe (respond m it handler result request) := by
  have hbus (dict : Dict Double) : Safe (respondBus m handler dict) := by
    refine safe_bind_iff.mpr ⟨safe_require, fun _ _ => safe_bind_iff.mpr ⟨safe_stringAt, ?_⟩⟩
    intro name _
    have hstat := fun id => safe_bind_iff.mp (h ⟨id, .bus name⟩)
    exact safe_bind_iff.mpr ⟨(hstat 0).1, fun info hinfo =>
      safe_bind_iff.mpr ⟨safe_intAt, fun id _ => (hstat id).2 info hinfo⟩⟩
  have hstop (dict : Dict Double) : Safe (respondStop handler dict) := by
    refine safe_bind_iff.mpr ⟨safe_require, fun _ _ => safe_bind_iff.mpr ⟨safe_stringAt, ?_⟩⟩
    exact fun name _ => safe_bind_iff.mpr ⟨safe_intAt, fun id _ => h ⟨id, .stop name⟩⟩
  have hmap (dict : Dict Double) : Safe (respondMap it handler dict) :=
    safe_bind_iff.mpr ⟨(safe_bind_iff.mp (h ⟨0, .map⟩)).1, fun map _ =>
      safe_bind_iff.mpr ⟨safe_intAt, fun _ _ => safe_ok _⟩⟩
  have hroute (dict : Dict Double) : Safe (respondRoute handler dict) := by
    refine safe_bind_iff.mpr ⟨safe_stringAt, fun origin _ => safe_bind_iff.mpr ⟨safe_stringAt, ?_⟩⟩
    exact fun target _ => safe_bind_iff.mpr ⟨safe_intAt, fun id _ => h ⟨id, .route origin target⟩⟩
  refine safe_bind_iff.mpr ⟨safe_asDict, fun dict _ => ?_⟩
  refine safe_bind_iff.mpr ⟨safe_require, fun _ _ => ?_⟩
  refine safe_bind_iff.mpr ⟨safe_require, fun _ _ => ?_⟩
  refine safe_bind_iff.mpr ⟨safe_stringAt, fun type _ => ?_⟩
  refine safe_bind_iff.mpr ⟨safe_pushIf (hbus dict), fun result _ => ?_⟩
  refine safe_bind_iff.mpr ⟨safe_pushIf (hstop dict), fun result _ => ?_⟩
  exact safe_bind_iff.mpr ⟨safe_pushIf (hmap dict), fun result _ => safe_pushIf (hroute dict)⟩

end Loop

end JsonReader

namespace Program

open JsonReader (Requestable NamesFile FitsFile SameHandler FlawedQuery)

variable {machine : Machine} {name : Str}

theorem safe_ofText_iff {result : Except Failure Str} :
    Safe (Outcome.ofText result).exit ↔ Safe result := by
  cases result with
  | error failure => exact safe_error_iff.trans safe_error_iff.symm
  | ok cout => exact iff_of_true (safe_ok 0) (safe_ok cout)

theorem safe_makeBase_iff {process : Process} (hmode : process.arguments = [makeBase])
    (files : Files) :
    Safe (main machine process files).1.exit ↔
      ∀ query name, openingQuery machine.stod (.ofText process.cin) = .ok (query, name) →
        Safe (described process.orders.arguments query) := by
  rw [main_makeBase process hmode, JsonReader.baseRequest]
  cases hopening : openingQuery machine.stod (.ofText process.cin) with
  | error failure =>
      refine iff_of_true (safe_error_iff.mpr ?_) (by rintro _ _ ⟨⟩)
      exact JsonReader.safe_openingQuery _ _ failure hopening
  | ok opening =>
      obtain ⟨query, file⟩ := opening
      have hdescribed : (∀ query' name,
          (.ok (query, file) : Except Failure _) = .ok (query', name) →
            Safe (described process.orders.arguments query')) ↔
          Safe (base machine.protobuf process.orders.arguments process.orders.saving query) := by
        rw [JsonReader.safe_base_iff]
        refine ⟨fun h => h query file rfl, ?_⟩
        rintro h _ _ ⟨⟩
        exact h
      rw [hdescribed]
      dsimp only
      cases base machine.protobuf process.orders.arguments process.orders.saving query with
      | error failure => exact safe_error_iff.trans safe_error_iff.symm
      | ok out => exact iff_of_true (safe_ok 0) (safe_ok out)

/-- The first phase, on any text: it returns or throws in every order of its
arguments unless the text is a description with a flaw. -/
theorem makeBase_safe_iff (machine : Machine) (cin : Str) (files : Files) :
    (∀ orders, Safe (main machine ⟨orders, [makeBase], cin⟩ files).1.exit) ↔
      ∀ query name, openingQuery machine.stod (.ofText cin) = .ok (query, name) →
        ¬ FlawedQuery query := by
  have hprocess (orders : Orders) :=
    @safe_makeBase_iff machine ⟨orders, [makeBase], cin⟩ rfl files
  constructor
  · intro h query name hopening
    refine (JsonReader.safe_described_iff query).mp fun order => ?_
    exact (hprocess { Orders.ofEntries with arguments := order }).mp (h _) query name hopening
  · intro h orders
    refine (hprocess orders).mpr fun query name hopening => ?_
    exact (JsonReader.safe_described_iff query).mpr (h query name hopening) _

section Handler

variable {db : TransportCatalogue} {settings : MapSettings} {tr : TransportRouter Double}

theorem safe_answersTo (hdb : StoreInv db) {rs : RoutingSettings} (htr : Made rs db tr)
    (hrequests : Requestable db settings) (cin : Str) :
    Safe (answersTo machine ⟨db, ⟨settings⟩, some tr⟩ cin) := by
  have hanswer := (@safe_answer_iff db hdb ⟨settings⟩ tr).mpr
    ⟨hrequests.1, hrequests.2, htr.safe_getRouteInfo hdb⟩
  refine safe_bind_iff.mpr ⟨JsonReader.safe_openingQuery _ _, fun ⟨query, _⟩ _ => ?_⟩
  refine safe_bind_iff.mpr ⟨safe_asDict, fun dict _ => ?_⟩
  refine safe_bind_iff.mpr ⟨JsonReader.safe_arrayAt, fun document _ => ?_⟩
  refine safe_bind_iff.mpr ⟨safe_foldlM (fun result request _ => ?_) [], fun _ _ => safe_ok _⟩
  exact JsonReader.safe_respond (hanswer machine.m .ofEntries) result request

/-- A request of every kind can be written. -/
theorem safe_answer_of_answersTo {handler : RequestHandler} (r : JsonReader.StatRequest)
    (h : Safe (answersTo machine handler
      (printNode printDouble {} (.dict (JsonReader.queryDict name [r]))))) :
    Safe (answer machine.m .ofEntries handler r) := by
  have hopening : openingQuery machine.stod
      (.ofText (printNode printDouble {} (.dict (JsonReader.queryDict name [r])))) =
        .ok (.dict (JsonReader.queryDict name [r]), name) :=
    JsonReader.openingQuery_print (JsonReader.printable_queryDict name [r]) rfl rfl
  have harray : arrayAt (JsonReader.queryDict name [r]) "stat_requests" = .ok [r.node] := rfl
  rw [answersTo, hopening, ok_bind] at h
  dsimp only [Node.asDict] at h
  rw [ok_bind, harray, ok_bind, JsonReader.foldlM_respond (.cons (JsonReader.asks_node r) .nil),
    List.mapM_cons] at h
  exact (safe_bind_iff.mp (safe_bind_iff.mp (safe_bind_iff.mp h).1).1).1

/-- `answersTo` is safe on every text only if all requests are answered safely. -/
theorem safe_answersTo_iff (hdb : StoreInv db) {rs : RoutingSettings} (htr : Made rs db tr) :
    (∀ cin, NamesFile machine.stod (.ofText cin) name →
      Safe (answersTo machine ⟨db, ⟨settings⟩, some tr⟩ cin)) ↔ Requestable db settings := by
  refine ⟨fun h => ?_, fun h cin _ => safe_answersTo hdb htr h cin⟩
  have hanswer (r : JsonReader.StatRequest) :
      Safe (answer machine.m .ofEntries ⟨db, ⟨settings⟩, some tr⟩ r) :=
    safe_answer_of_answersTo r (h _ (JsonReader.openingQuery_eq_ok_iff.mp
      ⟨_, JsonReader.openingQuery_print (JsonReader.printable_queryDict name [r]) rfl rfl⟩))
  have hstops : ∀ name bus, db.findBus name = .ok bus → bus.stops ≠ [] := fun busName =>
    (safe_getInfoBus_iff hdb machine.m busName).mp
      (safe_bind_iff.mp (hanswer ⟨0, .bus busName⟩)).1
  exact ⟨hstops, (safe_renderMap_iff hdb hstops).mp (safe_bind_iff.mp (hanswer ⟨0, .map⟩)).1⟩

theorem safe_main_iff (before : List Process) {after : List Process} {maker asker : Process}
    {files : Files} (hmaker : Makes machine maker name db settings tr)
    (hopens : files.opens name = true) (hname : name ≠ mapFile)
    (hafter : ∀ process ∈ after, madeFile machine process ≠ some name)
    (hasker : asker.arguments = [processRequests])
    (hquery : NamesFile machine.stod (.ofText asker.cin) name) :
    Safe (main machine asker (run machine (before ++ maker :: after) files)).1.exit ↔
      Safe (answersTo machine ⟨db, ⟨settings⟩, some tr⟩ asker.cin) := by
  obtain ⟨handler', hhandler, hsame⟩ :=
    exists_handler_after before hmaker hopens hname hafter asker.orders.loading
  rw [main_of_handler hasker hquery hhandler hsame, safe_ofText_iff]

end Handler

theorem exists_requestable_line : ∃ db settings tr,
    Makes .plain lineMaker "db".toList db settings tr ∧ Requestable db settings := by
  obtain ⟨⟨db, settings, tr⟩, hdescribed, hfits, hbuses, hpalette⟩ := exists_ok_of_any
    (x := described .firstToLast (.dict (JsonReader.lineDescription [])))
    (p := fun description => FitsFile description.2.2 ∧
      (∀ bus ∈ description.1.allBuses, bus.stops ≠ []) ∧
        description.2.1.colorPalette.length ≠ 0) (by decide +kernel)
  obtain ⟨hdb, -⟩ := JsonReader.exists_made hdescribed
  refine ⟨db, settings, tr, ⟨rfl, ⟨_, opening_lineMaker, hdescribed⟩, hfits⟩, ?_, fun _ => ?_⟩
  · intro name bus hbus
    obtain ⟨p, hp, rfl⟩ := TransportCatalogue.findBus_eq_ok_iff.mp hbus
    exact hbuses _ (hdb.bus_mem hp).1
  · exact List.ne_nil_of_length_pos (Nat.pos_of_ne_zero hpalette)

/-- The last process of `processes` that opened the file made a base there of
which everything can be asked. -/
def Whole (machine : Machine) (files : Files) (processes : List Process) (name : Str) : Prop :=
  files.opens name = true ∧ name ≠ mapFile ∧
    ∃ (before after : List Process) (maker : Process) (db : TransportCatalogue)
      (settings : MapSettings) (tr : TransportRouter Double),
      processes = before ++ maker :: after ∧ Makes machine maker name db settings tr ∧
      Requestable db settings ∧ ∀ process ∈ after, madeFile machine process ≠ some name

/-- No description has a flaw, and the bases that are asked are whole. -/
structure Orderly (machine : Machine) (files : Files) (processes : List Process) : Prop where
  makers : ∀ process ∈ processes, process.arguments = [makeBase] → ∀ query name,
    openingQuery machine.stod (.ofText process.cin) = .ok (query, name) → ¬ FlawedQuery query
  askers : ∀ before asker after, processes = before ++ asker :: after →
    asker.arguments = [processRequests] → ∀ name, NamesFile machine.stod (.ofText asker.cin) name →
      Whole machine files before name

theorem safe_main_of_not_mode {process : Process} (h : process.arguments ≠ [makeBase])
    (h' : process.arguments ≠ [processRequests]) (files : Files) :
    Safe (main machine process files).1.exit := by
  unfold main
  split
  · rename_i mode harguments
    rw [harguments] at h h'
    rw [if_neg fun hmode => h (by rw [hmode]), if_neg fun hmode => h' (by rw [hmode])]
    exact safe_ok 1
  · exact safe_ok 1

/-- A text that names no base is rejected before a file is looked at. -/
theorem safe_main_of_not_namesFile {process : Process}
    (hmode : process.arguments = [processRequests])
    (h : ∀ name, ¬ NamesFile machine.stod (.ofText process.cin) name) (files : Files) :
    Safe (main machine process files).1.exit := by
  rw [main_processRequests process hmode, JsonReader.perform_statRequestFiles,
    JsonReader.statRequest]
  dsimp only
  rw [safe_ofText_iff, safe_bind_iff]
  refine ⟨JsonReader.safe_openingQuery _ _, ?_⟩
  rintro ⟨query, name⟩ hopening
  exact absurd (JsonReader.openingQuery_eq_ok_iff.mp ⟨query, hopening⟩) (h name)

theorem not_flawedQuery_line (name : Str) :
    ¬ FlawedQuery (.dict (JsonReader.lineDescription name)) := by
  rintro ⟨dict, document, hdict, hdocument, hflawed⟩
  cases hdict
  rcases hflawed with hflawed | ⟨_, _, render, _, _, -, -, -, -, hrender, hflawed⟩
  · cases hdocument
    refine JsonReader.not_safe_baseRequests_iff.mpr hflawed (safe_of_exists ?_)
    exact exists_ok_of_isOk (by decide +kernel)
  · cases hrender
    -- the colors are names, so there is no order of arguments
    exact (JsonReader.safe_readerMapSettings_iff _).mp
      (fun order => safe_of_exists ⟨_, rfl⟩) hflawed

theorem orderly_line : Orderly .plain .none
    [lineMaker, lineAsker [⟨1, .map⟩], lineAsker [⟨2, .bus ['1']⟩]] where
  makers process hprocess hmode query name hopening := by
    simp only [List.mem_cons, List.not_mem_nil, or_false] at hprocess
    rcases hprocess with rfl | rfl | rfl
    · cases opening_lineMaker.symm.trans hopening
      exact not_flawedQuery_line _
    · exact absurd hmode (by decide)
    · exact absurd hmode (by decide)
  askers before asker after heq hmode name hquery := by
    obtain ⟨db, settings, tr, hmaker, hrequests⟩ := exists_requestable_line
    have hwhole (later : List Process)
        (hlater : ∀ process ∈ later, process.arguments ≠ [makeBase]) :
        Whole .plain .none (lineMaker :: later) "db".toList :=
      ⟨rfl, by decide, [], later, lineMaker, db, settings, tr, rfl, hmaker, hrequests,
        fun process hprocess => by simp [madeFile_of_ne (hlater process hprocess)]⟩
    rcases before with _ | ⟨first, _ | ⟨second, _ | ⟨third, before⟩⟩⟩
    · cases heq
      exact absurd hmode (by decide)
    · cases heq
      cases hquery.unique (namesFile_lineAsker _)
      exact hwhole [] (by simp)
    · cases heq
      cases hquery.unique (namesFile_lineAsker _)
      exact hwhole _ (List.forall_mem_singleton.mpr (by decide))
    · simp at heq

end Program

end TransportSystem
