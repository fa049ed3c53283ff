import TransportSystem.ProgramSafety
import TransportSystem.RoutingRange

namespace TransportSystem

open Json
open Library.UniqueKeys
open TransportCatalogue (StoreInv run run_inv)
open TransportRouter (make Measured)

namespace JsonReader

/-- What `JSON_ReaderBus` needs. -/
def BusEntry (dict : Dict Double) : Prop :=
  (∃ name, dict.find "name".toList = some (.string name)) ∧
    (∃ isLoop, dict.find "is_roundtrip".toList = some (.bool isLoop)) ∧
    ∃ stops, dict.find "stops".toList = some (.array stops) ∧
      ∀ stop ∈ stops, ∃ name, stop = .string name

/-- What `JSON_ReaderStop` needs. -/
def StopEntry (dict : Dict Double) : Prop :=
  (∃ name, dict.find "name".toList = some (.string name)) ∧
    (∃ latitude, dict.find "latitude".toList = some latitude ∧ IsNumber latitude) ∧
    (∃ longitude, dict.find "longitude".toList = some longitude ∧ IsNumber longitude) ∧
    ∃ mapLenght, dict.find "road_distances".toList = some (.dict mapLenght) ∧
      ∀ member ∈ mapLenght, HasAbs member.2

/-- An element of `base_requests`. What is neither a bus nor a stop is skipped. -/
def Entry (description : Node Double) : Prop :=
  ∃ (dict : Dict Double) (type : Node Double), description = .dict dict ∧
    dict.find "type".toList = some type ∧
    (type = .string "Bus".toList → BusEntry dict) ∧ (type = .string "Stop".toList → StopEntry dict)

def FineRouting (document : Node Double) : Prop :=
  ∃ (dict : Dict Double) (busWaitTime busVelocity : Int32), document = .dict dict ∧
    dict.find "bus_wait_time".toList = some (.int busWaitTime) ∧
    dict.find "bus_velocity".toList = some (.int busVelocity)

/-- A member of the settings is there, and the reader goes on with it. -/
def Member.Fine (map : Dict Double) (member : Member) : Prop :=
  ∃ node, map.find member.key.toList = some node ∧ member.fine node

def FineRender (document : Node Double) : Prop :=
  ∃ map : Dict Double, document = .dict map ∧ ∀ member ∈ readMembers ShortColor, member.Fine map

/-- A description of which every member that is read is as it should be, and in
which every two neighbouring stops of a bus have a distance. -/
def Acceptable (query : Node Double) : Prop :=
  ∃ (dict : Dict Double) (document : List (Node Double)) (routing render : Node Double),
    query = .dict dict ∧ dict.find "base_requests".toList = some (.array document) ∧
    dict.find "routing_settings".toList = some routing ∧
    dict.find "render_settings".toList = some render ∧
    (∀ description ∈ document, Entry description) ∧ FineRouting routing ∧ FineRender render ∧
    ∀ bus ∈ (run (allCalls document)).allBuses, Measured (run (allCalls document)) bus

theorem exists_bind_iff {A B : Type} {x : Except Failure A} {f : A → Except Failure B} :
    (∃ b, (x >>= f) = .ok b) ↔ ∃ a, x = .ok a ∧ ∃ b, f a = .ok b := by
  simp only [bind_eq_ok_iff]
  constructor
  · rintro ⟨b, a, ha, hb⟩
    exact ⟨a, ha, b, hb⟩
  · rintro ⟨a, ha, b, hb⟩
    exact ⟨b, a, ha, hb⟩

theorem exists_pure_iff {A : Type} {a : A} :
    (∃ b, (pure a : Except Failure A) = .ok b) ↔ True := iff_true_intro ⟨a, rfl⟩

section Entries

variable {dict : Dict Double}

theorem exists_asInt_iff {node : Node Double} : (∃ value, node.asInt = .ok value) ↔ IsInt node := by
  cases node <;> simp [Node.asInt, IsInt]

theorem find_of_intAt {key : String} {value : Int32} (h : intAt dict key = .ok value) :
    dict.find key.toList = some (.int value) := by
  obtain ⟨node, hfind, h⟩ := bind_eq_ok_iff.mp h
  rw [Dict.get_eq_ok_iff] at hfind
  cases node with
  | int value =>
      cases h
      exact hfind
  | null | array | dict | bool | double | string => cases h

theorem asBool_eq_ok_iff {node : Node Double} {value : Bool} :
    node.asBool = .ok value ↔ node = .bool value := by
  cases node <;> simp [Node.asBool]

theorem exists_busCall_iff : (∃ call, busCall (.dict dict) = .ok call) ↔ BusEntry dict := by
  constructor
  · rintro ⟨call, h⟩
    simp only [busCall, bind_eq_ok_iff, Node.asDict_eq_ok_iff, Dict.get_eq_ok_iff,
      Node.asString_eq_ok_iff, asBool_eq_ok_iff] at h
    obtain ⟨_, hdict, _, -, _, -, _, -, _, hname, name, rfl, _, hloop, isLoop, rfl, _, hstops,
      stops, harray, names, hnames, -⟩ := h
    cases hdict
    have harray' : arrayAt dict "stops" = .ok stops :=
      bind_eq_ok_iff.mpr ⟨_, Dict.get_eq_ok_iff.mpr hstops, harray⟩
    refine ⟨⟨name, hname⟩, ⟨isLoop, hloop⟩, stops, arrayAt_eq_ok_iff.mp harray', ?_⟩
    intro stop hstop
    obtain ⟨name, hname⟩ := exists_mapM_iff.mp ⟨names, hnames⟩ stop hstop
    exact ⟨name, Node.asString_eq_ok_iff.mp hname⟩
  · rintro ⟨⟨name, hname⟩, ⟨isLoop, hloop⟩, stops, hstops, hnames⟩
    obtain ⟨names, hnames⟩ := exists_mapM_iff.mpr fun stop hstop =>
      (hnames stop hstop).imp fun name hname => Node.asString_eq_ok_iff.mpr hname
    refine ⟨.addBus name names isLoop, ?_⟩
    simp only [busCall, Node.asDict, ok_bind, require_of_find hname, require_of_find hloop,
      require_of_find hstops, Dict.get_eq_ok_iff.mpr hname, Dict.get_eq_ok_iff.mpr hloop,
      Dict.get_eq_ok_iff.mpr hstops, Node.asString, Node.asBool, Node.asArray, hnames]
    rfl

theorem exists_roadDistances_iff {mapLenght : Dict Double} :
    (∃ lenghts, roadDistances mapLenght = .ok lenghts) ↔ ∀ member ∈ mapLenght, HasAbs member.2 := by
  rw [roadDistances, exists_mapM_iff]
  exact forall₂_congr fun member _ => exists_roadDistance_iff

theorem exists_stopCalls_iff : (∃ calls, stopCalls (.dict dict) = .ok calls) ↔ StopEntry dict := by
  rw [stopCalls, exists_bind_iff]
  simp only [exists_bind_iff, exists_pure_iff, and_true]
  constructor
  · rintro ⟨⟨name, location, mapLenght⟩, hfields, lenghts, hlenghts⟩
    obtain ⟨name, latitude, longitude, hname, hlatitude, hnumber, hlongitude, hnumber', hlenght⟩ :=
      stopFields_eq_ok_iff.mp ⟨name, location, hfields⟩
    exact ⟨⟨name, hname⟩, ⟨latitude, hlatitude, hnumber⟩, ⟨longitude, hlongitude, hnumber'⟩,
      mapLenght, hlenght, exists_roadDistances_iff.mp ⟨lenghts, hlenghts⟩⟩
  · rintro ⟨⟨name, hname⟩, ⟨latitude, hlatitude, hnumber⟩, ⟨longitude, hlongitude, hnumber'⟩,
      mapLenght, hlenght, habs⟩
    obtain ⟨name, location, hfields⟩ := stopFields_eq_ok_iff.mpr
      ⟨name, latitude, longitude, hname, hlatitude, hnumber, hlongitude, hnumber', hlenght⟩
    exact ⟨_, hfields, exists_roadDistances_iff.mpr habs⟩

theorem exists_firstPass_iff {description : Node Double} :
    (∃ calls, firstPass description = .ok calls) ↔ ∃ (dict : Dict Double) (type : Node Double),
      description = .dict dict ∧ dict.find "type".toList = some type ∧
        (type = .string "Bus".toList → BusEntry dict) := by
  constructor
  · rintro ⟨calls, h⟩
    simp only [firstPass, bind_eq_ok_iff, Node.asDict_eq_ok_iff, Dict.get_eq_ok_iff] at h
    obtain ⟨dict, rfl, _, -, type, htype, h⟩ := h
    refine ⟨dict, type, rfl, htype, fun hbus => ?_⟩
    rw [if_pos (isString_iff.mpr hbus)] at h
    obtain ⟨call, hcall, -⟩ := bind_eq_ok_iff.mp h
    exact exists_busCall_iff.mp ⟨call, hcall⟩
  · rintro ⟨dict, type, rfl, htype, hbus⟩
    simp only [firstPass, Node.asDict, ok_bind, require_of_find htype, Dict.get_eq_ok_iff.mpr htype]
    split
    · rename_i hstring
      obtain ⟨call, hcall⟩ := exists_busCall_iff.mpr (hbus (isString_iff.mp hstring))
      exact ⟨[call], by rw [hcall]; rfl⟩
    · exact ⟨[], rfl⟩

theorem exists_secondPass_iff {description : Node Double} :
    (∃ calls, secondPass description = .ok calls) ↔ ∃ (dict : Dict Double) (type : Node Double),
      description = .dict dict ∧ dict.find "type".toList = some type ∧
        (type = .string "Stop".toList → StopEntry dict) := by
  constructor
  · rintro ⟨calls, h⟩
    simp only [secondPass, bind_eq_ok_iff, Node.asDict_eq_ok_iff, Dict.get_eq_ok_iff] at h
    obtain ⟨dict, rfl, type, htype, h⟩ := h
    refine ⟨dict, type, rfl, htype, fun hstop => ?_⟩
    rw [if_pos (isString_iff.mpr hstop)] at h
    exact exists_stopCalls_iff.mp ⟨calls, h⟩
  · rintro ⟨dict, type, rfl, htype, hstop⟩
    simp only [secondPass, Node.asDict, ok_bind, Dict.get_eq_ok_iff.mpr htype]
    split
    · rename_i hstring
      exact exists_stopCalls_iff.mpr (hstop (isString_iff.mp hstring))
    · exact ⟨[], rfl⟩

theorem wellFormed_iff {document : List (Node Double)} :
    WellFormed document ↔ ∀ description ∈ document, Entry description := by
  refine forall₂_congr fun description _ => ?_
  rw [exists_firstPass_iff, exists_secondPass_iff]
  constructor
  · rintro ⟨⟨dict, type, rfl, htype, hbus⟩, dict', type', hdict, htype', hstop⟩
    cases hdict
    cases htype.symm.trans htype'
    exact ⟨dict, type, rfl, htype, hbus, hstop⟩
  · rintro ⟨dict, type, rfl, htype, hbus, hstop⟩
    exact ⟨⟨dict, type, rfl, htype, hbus⟩, dict, type, rfl, htype, hstop⟩

end Entries

section Settings

variable {map : Dict Double} {key : String} {order : ArgumentOrder}

theorem exists_intAt_iff : (∃ value, intAt map key = .ok value) ↔ (Member.int key).Fine map := by
  simp only [intAt, exists_bind_iff, Dict.get_eq_ok_iff, exists_asInt_iff, Member.Fine, Member.int]

theorem exists_doubleAt_iff :
    (∃ value, doubleAt map key = .ok value) ↔ (Member.number key).Fine map := by
  simp only [doubleAt, exists_bind_iff, Dict.get_eq_ok_iff, exists_asDouble_iff, Member.Fine,
    Member.number]

theorem exists_readerOffset_iff {array : List (Node Double)} :
    (∃ offset, readerOffset array = .ok offset) ↔ FineOffset (.array array) := by
  simp only [readerOffset, exists_bind_iff, exists_pure_iff, and_true, exists_asDouble_iff]
  rcases array with _ | ⟨first, _ | ⟨second, rest⟩⟩
  · simp [item, FineOffset]
  · simp [item, FineOffset]
  · simp [item, FineOffset, exists_asDouble_iff]

theorem exists_offset_iff :
    (∃ array, arrayAt map key = .ok array ∧ ∃ offset, readerOffset array = .ok offset) ↔
      (Member.offset key).Fine map := by
  simp only [exists_readerOffset_iff, arrayAt_eq_ok_iff, Member.Fine, Member.offset]
  constructor
  · rintro ⟨array, hfind, hfine⟩
    exact ⟨_, hfind, hfine⟩
  · rintro ⟨node, hfind, first, second, rest, rfl, hfirst, hsecond⟩
    exact ⟨_, hfind, first, second, rest, rfl, hfirst, hsecond⟩

theorem exists_color_iff :
    (∃ node, map.get key.toList = .ok node ∧ ∃ color, readerColor order node = .ok color) ↔
      (Member.color ShortColor key).Fine map := by
  simp only [Dict.get_eq_ok_iff, exists_readerColor_iff, Member.Fine, Member.color]

theorem exists_colors_iff :
    (∃ array, arrayAt map key = .ok array ∧ ∃ colors, array.mapM (readerColor order) = .ok colors) ↔
      (Member.colors ShortColor key).Fine map := by
  simp only [exists_mapM_iff, exists_readerColor_iff, arrayAt_eq_ok_iff, Member.Fine, Member.colors]
  constructor
  · rintro ⟨array, hfind, hfine⟩
    exact ⟨_, hfind, array, rfl, hfine⟩
  · rintro ⟨node, hfind, array, rfl, hfine⟩
    exact ⟨array, hfind, hfine⟩

theorem exists_readerMapSettings_iff {document : Node Double} :
    (∃ settings, readerMapSettings order document = .ok settings) ↔ FineRender document := by
  simp only [readerMapSettings, exists_bind_iff, exists_pure_iff, and_true, ← and_assoc,
    exists_and_right]
  simp only [exists_intAt_iff, exists_doubleAt_iff, exists_offset_iff, exists_color_iff,
    exists_colors_iff, Node.asDict_eq_ok_iff, and_assoc]
  refine exists_congr fun map => and_congr_right fun _ => ?_
  simp only [readMembers, mapMembers, List.dropLast_cons_cons, List.dropLast_singleton,
    List.cons_append, List.nil_append, List.forall_mem_cons, List.not_mem_nil, false_imp_iff,
    implies_true, and_true]

theorem exists_readerRoutingSetings_iff {document : Node Double} :
    (∃ rs, readerRoutingSetings document = .ok rs) ↔ FineRouting document := by
  have hpresent {dict : Dict Double} {key : String} {value : Int32}
      (h : dict.find key.toList = some (.int value)) : ¬ (dict.find key.toList).isNone = true := by
    rw [h]
    exact Bool.false_ne_true
  constructor
  · rintro ⟨rs, hread⟩
    obtain ⟨time, velocity, ⟨dict, rfl, htime, hvelocity⟩, -⟩ := TransportRouter.exists_gives hread
    exact ⟨dict, time, velocity, rfl, find_of_intAt htime, find_of_intAt hvelocity⟩
  · rintro ⟨dict, time, velocity, rfl, htime, hvelocity⟩
    refine ⟨⟨time.toUInt32.toUInt16, velocity.toUInt32.toUInt16⟩, ?_⟩
    rw [readerRoutingSetings, Node.asDict, ok_bind, if_neg (hpresent htime),
      if_neg (hpresent hvelocity), intAt_of_find htime, intAt_of_find hvelocity]
    rfl

end Settings

/-- What is accepted, in whatever order arguments are evaluated. -/
theorem exists_described_iff {order : ArgumentOrder} {query : Node Double} :
    (∃ description, described order query = .ok description) ↔ Acceptable query := by
  constructor
  · rintro ⟨description, h⟩
    simp only [described, bind_eq_ok_iff, Node.asDict_eq_ok_iff, arrayAt_eq_ok_iff,
      Dict.get_eq_ok_iff] at h
    obtain ⟨dict, rfl, document, hdocument, db, hdb, routing, hrouting, rs, hrs, tr, hmake, render,
      hrender, settings, hsettings, -⟩ := h
    obtain ⟨hentries, rfl⟩ := (baseRequests_eq_ok_iff _ _).mp hdb
    have hstore := (run_inv (allCalls document)).toStoreInv
    exact ⟨dict, document, routing, render, rfl, hdocument, hrouting, hrender,
      wellFormed_iff.mp hentries, exists_readerRoutingSetings_iff.mp ⟨rs, hrs⟩,
      exists_readerMapSettings_iff.mp ⟨settings, hsettings⟩,
      (TransportRouter.exists_make_iff hstore).mp ⟨tr, hmake⟩⟩
  · rintro ⟨dict, document, routing, render, rfl, hdocument, hrouting, hrender, hentries, hfine,
      hfine', hmeasured⟩
    have hdb := (baseRequests_eq_ok_iff document _).mpr ⟨wellFormed_iff.mpr hentries, rfl⟩
    obtain ⟨rs, hrs⟩ := exists_readerRoutingSetings_iff.mpr hfine
    obtain ⟨settings, hsettings⟩ := (@exists_readerMapSettings_iff order render).mpr hfine'
    obtain ⟨tr, hmake⟩ := (@TransportRouter.exists_make_iff rs _
      (run_inv (allCalls document)).toStoreInv).mpr hmeasured
    refine ⟨(run (allCalls document), settings, tr), bind_eq_ok_iff.mpr ⟨dict, rfl, ?_⟩⟩
    rw [arrayAt_eq_ok_iff.mpr hdocument, ok_bind, hdb, ok_bind, Dict.get_eq_ok_iff.mpr hrouting,
      ok_bind, hrs, ok_bind, hmake, ok_bind, Dict.get_eq_ok_iff.mpr hrender, ok_bind, hsettings]
    rfl

end JsonReader

namespace Program

open JsonReader (Acceptable openingQuery base)

/-- The first phase makes a base exactly from the texts that are acceptable descriptions,
in whatever order arguments are evaluated and maps are walked. -/
theorem makeBase_accepts_iff (machine : Machine) (orders : Orders) (cin : Str) (files : Files) :
    (main machine ⟨orders, [makeBase], cin⟩ files).1 = { exit := .ok 0 } ↔
      ∃ query name, openingQuery machine.stod (.ofText cin) = .ok (query, name) ∧
        Acceptable query := by
  rw [main_makeBase _ rfl, JsonReader.baseRequest]
  dsimp only
  cases openingQuery machine.stod (.ofText cin) with
  | error failure =>
      refine iff_of_false (fun h => ?_) ?_
      · cases h
      · rintro ⟨query, name, ⟨⟩, -⟩
  | ok opening =>
      obtain ⟨query, name⟩ := opening
      have hbase : (∃ out, base machine.protobuf orders.arguments orders.saving query = .ok out) ↔
          Acceptable query := by
        rw [JsonReader.exists_base_iff, JsonReader.exists_described_iff]
      dsimp only
      trans Acceptable query
      · rw [← hbase]
        cases base machine.protobuf orders.arguments orders.saving query with
        | error failure =>
            refine iff_of_false (fun h => ?_) ?_
            · cases h
            · rintro ⟨out, ⟨⟩⟩
        | ok out => exact iff_of_true rfl ⟨out, rfl⟩
      · constructor
        · intro h
          exact ⟨query, name, rfl, h⟩
        · rintro ⟨query', name', ⟨⟩, h⟩
          exact h

end Program

end TransportSystem
