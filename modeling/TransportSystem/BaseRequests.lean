import TransportSystem.JsonReader
import TransportSystem.RouteView

/-!
The two passes over `base_requests` as a sequence of calls, and their
independence of the order of the array.
-/

namespace TransportSystem.JsonReader

open Json
open TransportCatalogue (Call StoreInv View view step run)

/-- The call that `JSON_ReaderBus` makes. -/
def busCall (document : Node Double) : Except Failure Call := do
  let dict ← document.asDict
  require dict "name"
  require dict "stops"
  require dict "is_roundtrip"
  let nameBus ← (← dict.get "name".toList).asString
  let isLoop ← (← dict.get "is_roundtrip".toList).asBool
  let stopNames ← (← (← dict.get "stops".toList).asArray).mapM Node.asString
  pure (.addBus nameBus stopNames isLoop)

/-- The distances in a `road_distances` dictionary. -/
def roadDistances (mapLenght : Dict Double) : Except Failure (List (Str × UInt32)) :=
  mapLenght.mapM fun member => do pure (member.1, ← abs (← member.2.asInt))

/-- The calls that record distances from a stop. -/
def lenghtCalls (nameStop : Str) (lenghts : List (Str × UInt32)) : List Call :=
  lenghts.map fun l => .addLenghtBetweenStops (nameStop, l.1) l.2

/-- What `JSON_ReaderStop` reads: name, location and road distances. -/
def stopFields (document : Node Double) : Except Failure (Str × Coordinates × Dict Double) := do
  let dict ← document.asDict
  require dict "name"
  require dict "latitude"
  require dict "longitude"
  require dict "road_distances"
  let nameStop ← (← dict.get "name".toList).asString
  let latitude ← (← dict.get "latitude".toList).asDouble
  let longitude ← (← dict.get "longitude".toList).asDouble
  let mapLenght ← (← dict.get "road_distances".toList).asDict
  pure (nameStop, ⟨latitude, longitude⟩, mapLenght)

def stopCalls (document : Node Double) : Except Failure (List Call) := do
  let fields ← stopFields document
  let lenghts ← roadDistances fields.2.2
  pure (.addStop fields.1 fields.2.1 :: lenghtCalls fields.1 lenghts)

/-- The calls of the first pass for one element of the array. -/
def firstPass (description : Node Double) : Except Failure (List Call) := do
  let dict ← description.asDict
  require dict "type"
  if (← dict.get "type".toList).isString "Bus".toList then
    let call ← busCall description
    pure [call]
  else pure []

/-- The calls of the second pass for one element of the array. -/
def secondPass (description : Node Double) : Except Failure (List Call) := do
  let dict ← description.asDict
  if (← dict.get "type".toList).isString "Stop".toList then stopCalls description
  else pure []

/-- The calls for an element, none if it is malformed. -/
def callsOf (pass : Node Double → Except Failure (List Call)) (description : Node Double) :
    List Call :=
  match pass description with
  | .ok calls => calls
  | .error _ => []

def allCalls (document : List (Node Double)) : List Call :=
  document.flatMap (callsOf firstPass) ++ document.flatMap (callsOf secondPass)

/-- No element makes a pass throw. -/
def WellFormed (document : List (Node Double)) : Prop :=
  ∀ description ∈ document, (∃ calls, firstPass description = .ok calls) ∧
    ∃ calls, secondPass description = .ok calls

theorem callsOf_of_ok {pass : Node Double → Except Failure (List Call)}
    {description : Node Double} {calls : List Call} (h : pass description = .ok calls) :
    callsOf pass description = calls := by
  rw [callsOf, h]

theorem readerBus_eq (catalogue : TransportCatalogue) (document : Node Double) :
    readerBus catalogue document = (do
      let call ← busCall document
      catalogue.call call) := by
  simp only [readerBus, busCall, bind_assoc, pure_bind]
  rfl

theorem call_of_busCall {catalogue : TransportCatalogue} (h : StoreInv catalogue)
    {document : Node Double} {call : Call} (hcall : busCall document = .ok call) :
    catalogue.call call = .ok (catalogue.step call) := by
  obtain ⟨name, stops, isLoop, rfl⟩ : ∃ name stops isLoop, call = .addBus name stops isLoop := by
    simp only [busCall, bind_eq_ok_iff] at hcall
    obtain ⟨_, _, _, _, _, _, _, _, _, _, name, _, _, _, isLoop, _, _, _, _, _, stops, _, hcall⟩ :=
      hcall
    cases hcall
    exact ⟨name, stops, isLoop, rfl⟩
  obtain ⟨db', heq, -⟩ := TransportCatalogue.addBus_spec h name stops isLoop
  simp only [step, TransportCatalogue.call, heq]

theorem readBuses_cons {catalogue : TransportCatalogue} (h : StoreInv catalogue)
    (description : Node Double) (rest : List (Node Double)) :
    readBuses (description :: rest) catalogue = (do
      let calls ← firstPass description
      readBuses rest (calls.foldl step catalogue)) := by
  simp only [readBuses, firstPass, bind_assoc]
  refine bind_congr fun dict => bind_congr fun _ => bind_congr fun type => ?_
  split
  · rw [readerBus_eq, bind_assoc]
    cases hcall : busCall description with
    | error e => rfl
    | ok call =>
        show (catalogue.call call >>= fun db => readBuses rest db) = _
        rw [call_of_busCall h hcall]
        rfl
  · rfl

theorem addRoadDistances_eq {catalogue : TransportCatalogue} (h : catalogue.Inv)
    {nameStop : Str} (hname : nameStop ∈ catalogue.names) (mapLenght : Dict Double) :
    addRoadDistances nameStop mapLenght catalogue = (do
      let lenghts ← roadDistances mapLenght
      pure ((lenghtCalls nameStop lenghts).foldl step catalogue)) := by
  induction mapLenght generalizing catalogue with
  | nil => rfl
  | cons member mapLenght ih =>
      obtain ⟨nameSecondStop, node⟩ := member
      simp only [addRoadDistances, roadDistances, List.mapM_cons, bind_assoc, pure_bind]
      refine bind_congr fun value => bind_congr fun lenght => ?_
      have hspec := TransportCatalogue.addLenghtBetweenStops_spec h.toStoreInv
        (nameStop, nameSecondStop) lenght
      rw [if_pos hname] at hspec
      obtain ⟨db', heq, hadded⟩ := hspec
      have hstep :
          catalogue.step (.addLenghtBetweenStops (nameStop, nameSecondStop) lenght) = db' := by
        simp only [step, TransportCatalogue.call, heq]
      have hmem : nameStop ∈ db'.names := (hadded.added.mem_names_iff _).mpr (Or.inl hname)
      rw [heq]
      show addRoadDistances nameStop mapLenght db' = _
      rw [ih (hadded.toInv h) hmem]
      simp only [roadDistances, lenghtCalls, List.map_cons, List.foldl_cons, hstep]

theorem readerStop_eq (catalogue : TransportCatalogue) (document : Node Double) :
    readerStop catalogue document = (do
      let fields ← stopFields document
      addRoadDistances fields.1 fields.2.2 (catalogue.addStop fields.1 fields.2.1)) := by
  simp only [readerStop, stopFields, bind_assoc, pure_bind]

theorem readStops_cons {catalogue : TransportCatalogue} (h : catalogue.Inv)
    (description : Node Double) (rest : List (Node Double)) :
    readStops (description :: rest) catalogue = (do
      let calls ← secondPass description
      readStops rest (calls.foldl step catalogue)) := by
  simp only [readStops, secondPass, bind_assoc]
  refine bind_congr fun dict => bind_congr fun type => ?_
  split
  · rw [readerStop_eq, stopCalls, bind_assoc, bind_assoc]
    refine bind_congr fun fields => ?_
    have hmem : fields.1 ∈ (catalogue.addStop fields.1 fields.2.1).names := by
      rw [TransportCatalogue.addStop_names _ h.toStoreInv]
      split <;> simp_all
    rw [addRoadDistances_eq (TransportCatalogue.addStop_inv _ h) hmem, bind_assoc, bind_assoc]
    rfl
  · rfl

/-- A pass that reads its array element by element makes the calls of all
elements, or throws if one of them is malformed. -/
theorem read_eq_ok_iff {pass : Node Double → Except Failure (List Call)}
    {read : List (Node Double) → TransportCatalogue → Except Failure TransportCatalogue}
    (hnil : ∀ catalogue, read [] catalogue = .ok catalogue)
    (hcons : ∀ catalogue, catalogue.Inv → ∀ description rest,
      read (description :: rest) catalogue = (do
        let calls ← pass description
        read rest (calls.foldl step catalogue)))
    {catalogue db : TransportCatalogue} (h : catalogue.Inv) (document : List (Node Double)) :
    read document catalogue = .ok db ↔
      (∀ description ∈ document, ∃ calls, pass description = .ok calls) ∧
        db = (document.flatMap (callsOf pass)).foldl step catalogue := by
  induction document generalizing catalogue with
  | nil => simp [hnil, eq_comm]
  | cons description rest ih =>
      rw [hcons catalogue h, bind_eq_ok_iff, List.forall_mem_cons, List.flatMap_cons,
        List.foldl_append]
      constructor
      · rintro ⟨calls, hcalls, hrest⟩
        have hinv : (calls.foldl step catalogue).Inv :=
          Library.Runs.invariant_foldl step TransportCatalogue.Inv
            (fun _ c hc => TransportCatalogue.step_inv hc c) h calls
        obtain ⟨hall, hdb⟩ := (ih hinv).mp hrest
        rw [callsOf_of_ok hcalls]
        exact ⟨⟨⟨calls, hcalls⟩, hall⟩, hdb⟩
      · rintro ⟨⟨⟨calls, hcalls⟩, hall⟩, hdb⟩
        have hinv : (calls.foldl step catalogue).Inv :=
          Library.Runs.invariant_foldl step TransportCatalogue.Inv
            (fun _ c hc => TransportCatalogue.step_inv hc c) h calls
        rw [callsOf_of_ok hcalls] at hdb
        exact ⟨calls, hcalls, (ih hinv).mpr ⟨hall, hdb⟩⟩

theorem baseRequests_eq_ok_iff (document : List (Node Double)) (db : TransportCatalogue) :
    baseRequests document = .ok db ↔ WellFormed document ∧ db = run (allCalls document) := by
  have hbuses : ∀ db₁, readBuses document TransportCatalogue.empty = .ok db₁ ↔ _ := fun db₁ =>
    read_eq_ok_iff (fun _ => rfl) (fun _ hc => readBuses_cons hc.toStoreInv)
      TransportCatalogue.empty_inv document
  have hstops : ∀ db₁ : TransportCatalogue, db₁.Inv → (readStops document db₁ = .ok db ↔ _) :=
    fun db₁ h => read_eq_ok_iff (fun _ => rfl) (fun _ hc => readStops_cons hc) h document
  rw [baseRequests, bind_eq_ok_iff, allCalls, run, List.foldl_append]
  have hrun : (run (document.flatMap (callsOf firstPass))).Inv := TransportCatalogue.run_inv _
  constructor
  · rintro ⟨db₁, h₁, h₂⟩
    obtain ⟨hfirst, rfl⟩ := (hbuses db₁).mp h₁
    obtain ⟨hsecond, rfl⟩ := (hstops _ hrun).mp h₂
    exact ⟨fun d hd => ⟨hfirst d hd, hsecond d hd⟩, rfl⟩
  · rintro ⟨hall, rfl⟩
    exact ⟨_, (hbuses _).mpr ⟨fun d hd => (hall d hd).1, rfl⟩,
      (hstops _ hrun).mpr ⟨fun d hd => (hall d hd).2, rfl⟩⟩

/-- The name of an element of the given type. -/
def entryName (type : String) (description : Node Double) : Option Str :=
  match description with
  | .dict dict =>
      match Dict.find dict "type".toList, Dict.find dict "name".toList with
      | some node, some (.string name) => if node.isString type.toList then some name else none
      | _, _ => none
  | _ => none

theorem entryName_of_find {type : String} {dict : Dict Double} {node : Node Double} {name : Str}
    (htype : dict.find "type".toList = some node) (hstring : node.isString type.toList = true)
    (hname : dict.find "name".toList = some (.string name)) :
    entryName type (.dict dict) = some name := by
  simp only [entryName, htype, hname, hstring, if_true]

/-- The first pass makes at most one call for an element: a bus under its name. -/
theorem callsOf_firstPass (description : Node Double) :
    callsOf firstPass description = [] ∨ ∃ name stops isLoop,
      callsOf firstPass description = [.addBus name stops isLoop] ∧
        entryName "Bus" description = some name := by
  cases hpass : firstPass description with
  | error e => exact Or.inl (by rw [callsOf, hpass])
  | ok calls =>
      rw [callsOf_of_ok hpass]
      simp only [firstPass, bind_eq_ok_iff, Node.asDict_eq_ok_iff, Dict.get_eq_ok_iff] at hpass
      obtain ⟨dict, rfl, _, -, node, htype, hpass⟩ := hpass
      split at hpass
      · rename_i hstring
        obtain ⟨call, hcall, hpass⟩ := bind_eq_ok_iff.mp hpass
        cases hpass
        simp only [busCall, bind_eq_ok_iff, Node.asDict_eq_ok_iff, Dict.get_eq_ok_iff,
          Node.asString_eq_ok_iff] at hcall
        obtain ⟨_, hdict, _, -, _, -, _, -, _, hname, name, rfl, _, -, isLoop, -, _, -, _, -, stops,
          -, hcall⟩ := hcall
        cases hdict
        cases hcall
        exact Or.inr ⟨name, stops, isLoop, rfl, entryName_of_find htype hstring hname⟩
      · cases hpass
        exact Or.inl rfl

/-- The second pass makes the calls of one stop under its name, if any. -/
theorem callsOf_secondPass (description : Node Double) :
    callsOf secondPass description = [] ∨ ∃ name location lenghts,
      callsOf secondPass description = .addStop name location :: lenghtCalls name lenghts ∧
        entryName "Stop" description = some name := by
  cases hpass : secondPass description with
  | error e => exact Or.inl (by rw [callsOf, hpass])
  | ok calls =>
      rw [callsOf_of_ok hpass]
      simp only [secondPass, bind_eq_ok_iff, Node.asDict_eq_ok_iff, Dict.get_eq_ok_iff] at hpass
      obtain ⟨dict, rfl, node, htype, hpass⟩ := hpass
      split at hpass
      · rename_i hstring
        simp only [stopCalls, stopFields, bind_eq_ok_iff, Node.asDict_eq_ok_iff, Dict.get_eq_ok_iff,
          Node.asString_eq_ok_iff] at hpass
        obtain ⟨fields, ⟨_, hdict, _, -, _, -, _, -, _, -, _, hname, name, rfl, _, -, _, -, _, -, _,
          -, _, -, _, -, hfields⟩, lenghts, -, hpass⟩ := hpass
        cases hdict
        cases hfields
        cases hpass
        exact Or.inr ⟨name, _, lenghts, rfl, entryName_of_find htype hstring hname⟩
      · cases hpass
        exact Or.inl rfl

theorem foldl_lenghtCalls {v : View} {name : Str} (h : v.coordinates name ≠ none)
    (lenghts : List (Str × UInt32)) :
    (lenghtCalls name lenghts).foldl View.step v = v.addLenghts name lenghts := by
  induction lenghts generalizing v with
  | nil => exact v.addLenghts_nil name |>.symm
  | cons l lenghts ih =>
      have hknown : (v.addLenghts name [l]).coordinates name ≠ none := by
        obtain ⟨c, hc⟩ := Option.ne_none_iff_exists'.mp h
        simp [View.addLenghts, View.addPlaceholders, hc]
      have hstep : v.step (.addLenghtBetweenStops (name, l.1) l.2) = v.addLenghts name [l] :=
        if_neg h
      rw [v.addLenghts_cons, ← ih hknown, lenghtCalls, List.map_cons, List.foldl_cons, hstep]
      rfl

theorem foldl_stopCalls (v : View) (name : Str) (location : Coordinates)
    (lenghts : List (Str × UInt32)) :
    (.addStop name location :: lenghtCalls name lenghts).foldl View.step v =
      v.addStopEntry name location lenghts := by
  have hknown : (v.addStop name location).coordinates name ≠ none := by
    cases h : v.coordinates name with
    | none => simp [View.addStop, h]
    | some c => by_cases hzero : c = ⟨0, 0⟩ <;> simp [View.addStop, h, hzero]
  rw [List.foldl_cons]
  exact foldl_lenghtCalls hknown lenghts

/-- Elements with different names commute, so a pass over a permuted array
reaches the same view. -/
theorem foldl_pass_perm {pass : Node Double → Except Failure (List Call)} {type : String}
    (hcomm : ∀ d d', (∀ name, entryName type d = some name → entryName type d' ≠ some name) →
      ∀ v : View, (callsOf pass d').foldl View.step ((callsOf pass d).foldl View.step v) =
        (callsOf pass d).foldl View.step ((callsOf pass d').foldl View.step v))
    {document document' : List (Node Double)} (hperm : document.Perm document')
    (hnames : (document.filterMap (entryName type)).Nodup) (v : View) :
    (document.flatMap (callsOf pass)).foldl View.step v =
      (document'.flatMap (callsOf pass)).foldl View.step v := by
  rw [List.foldl_flatMap, List.foldl_flatMap]
  have hpairwise := List.pairwise_filterMap.mp hnames
  have hsymm : Std.Symm fun d d' : Node Double =>
      ∀ name, entryName type d = some name → ∀ name', entryName type d' = some name' →
        name ≠ name' :=
    ⟨fun d d' h name hname name' hname' => (h name' hname' name hname).symm⟩
  refine hperm.foldl_eq' (fun d hd d' hd' v => ?_) v
  by_cases heq : d = d'
  · rw [heq]
  · refine hcomm d d' (fun name hname hname' => ?_) v
    exact hpairwise.forall hd hd' heq name hname name hname' rfl

theorem firstPass_comm (d d' : Node Double)
    (hne : ∀ name, entryName "Bus" d = some name → entryName "Bus" d' ≠ some name) (v : View) :
    (callsOf firstPass d').foldl View.step ((callsOf firstPass d).foldl View.step v) =
      (callsOf firstPass d).foldl View.step ((callsOf firstPass d').foldl View.step v) := by
  rcases callsOf_firstPass d with h | ⟨name, stops, isLoop, h, hname⟩
  · simp [h]
  · rcases callsOf_firstPass d' with h' | ⟨name', stops', isLoop', h', hname'⟩
    · simp [h']
    · have hnames : name ≠ name' := by
        rintro rfl
        exact hne name hname hname'
      rw [h, h']
      exact v.addBus_comm hnames stops stops' isLoop isLoop'

theorem secondPass_comm (d d' : Node Double)
    (hne : ∀ name, entryName "Stop" d = some name → entryName "Stop" d' ≠ some name) (v : View) :
    (callsOf secondPass d').foldl View.step ((callsOf secondPass d).foldl View.step v) =
      (callsOf secondPass d).foldl View.step ((callsOf secondPass d').foldl View.step v) := by
  rcases callsOf_secondPass d with h | ⟨name, location, lenghts, h, hname⟩
  · simp [h]
  · rcases callsOf_secondPass d' with h' | ⟨name', location', lenghts', h', hname'⟩
    · simp [h']
    · have hnames : name ≠ name' := by
        rintro rfl
        exact hne name hname hname'
      rw [h, h']
      simp only [foldl_stopCalls]
      exact v.addStopEntry_comm hnames location location' lenghts lenghts'

theorem view_run_perm {document document' : List (Node Double)}
    (hperm : document.Perm document')
    (hbuses : (document.filterMap (entryName "Bus")).Nodup)
    (hstops : (document.filterMap (entryName "Stop")).Nodup) :
    view (run (allCalls document)) = view (run (allCalls document')) := by
  rw [run, run, TransportCatalogue.view_foldl TransportCatalogue.empty_inv,
    TransportCatalogue.view_foldl TransportCatalogue.empty_inv, allCalls, allCalls,
    List.foldl_append, List.foldl_append, foldl_pass_perm firstPass_comm hperm hbuses,
    foldl_pass_perm secondPass_comm hperm hstops]

/-- Two catalogues that no request can tell apart, but for the choice between
equally fast routes. -/
structure SameAnswers (db db' : TransportCatalogue) : Prop where
  getInfoBus : ∀ m name, db.getInfoBus m name = db'.getInfoBus m name
  getInfoStop : ∀ name, db.getInfoStop name = db'.getInfoStop name
  getLenghtBetweenStops : ∀ a b, db.getLenghtBetweenStops a b = db'.getLenghtBetweenStops a b
  make : ∀ rs, (∃ tr : TransportRouter ℚ, TransportRouter.make rs db = .ok tr) ↔
    ∃ tr : TransportRouter ℚ, TransportRouter.make rs db' = .ok tr
  getRouteInfo : ∀ rs (tr tr' : TransportRouter ℚ), TransportRouter.make rs db = .ok tr →
    TransportRouter.make rs db' = .ok tr' → ∀ origin target,
      (tr.getRouteInfo origin target).map (Option.map RouteInfo.totalTime) =
        (tr'.getRouteInfo origin target).map (Option.map RouteInfo.totalTime)

theorem sameAnswers_of_view {db db' : TransportCatalogue} (h : db.Inv) (h' : db'.Inv)
    (hview : view db = view db') : SameAnswers db db' where
  getInfoBus := fun m name => by
    rw [TransportCatalogue.getInfoBus_eq_view h.toStoreInv,
      TransportCatalogue.getInfoBus_eq_view h'.toStoreInv, hview]
  getInfoStop := TransportCatalogue.getInfoStop_congr h h' hview
  getLenghtBetweenStops := TransportRouter.getLenghtBetweenStops_congr hview
  make := fun rs => by
    rw [TransportRouter.exists_make_iff h.toStoreInv, TransportRouter.exists_make_iff h'.toStoreInv]
    exact ⟨TransportRouter.measured_of_view hview.symm, TransportRouter.measured_of_view hview⟩
  getRouteInfo := fun rs tr tr' hmake hmake' =>
    TransportRouter.routeTime_congr hview h.toStoreInv h'.toStoreInv
      (TransportRouter.make_made h.toStoreInv hmake)
      (TransportRouter.make_made h'.toStoreInv hmake')

/-- Loading a permuted array succeeds as well and gives the same answers. -/
theorem baseRequests_perm {document document' : List (Node Double)}
    (hperm : document.Perm document')
    (hbuses : (document.filterMap (entryName "Bus")).Nodup)
    (hstops : (document.filterMap (entryName "Stop")).Nodup) :
    ((∃ db, baseRequests document = .ok db) ↔ ∃ db, baseRequests document' = .ok db) ∧
      ∀ db db', baseRequests document = .ok db → baseRequests document' = .ok db' →
        SameAnswers db db' := by
  have hwf : WellFormed document ↔ WellFormed document' := by
    simp only [WellFormed, hperm.mem_iff]
  constructor
  · simp only [baseRequests_eq_ok_iff]
    constructor
    · rintro ⟨-, h, -⟩
      exact ⟨_, hwf.mp h, rfl⟩
    · rintro ⟨-, h, -⟩
      exact ⟨_, hwf.mpr h, rfl⟩
  · intro db db' hdb hdb'
    obtain ⟨-, rfl⟩ := (baseRequests_eq_ok_iff _ _).mp hdb
    obtain ⟨-, rfl⟩ := (baseRequests_eq_ok_iff _ _).mp hdb'
    exact sameAnswers_of_view (TransportCatalogue.run_inv _) (TransportCatalogue.run_inv _)
      (view_run_perm hperm hbuses hstops)

/-- A bus and a stop, whose neighbour is known by its distance only. -/
def lineDocument : List (Node Double) :=
  [.dict [("is_roundtrip".toList, .bool true), ("name".toList, .string ['1']),
      ("stops".toList, .array [.string ['A'], .string ['B']]),
      ("type".toList, .string "Bus".toList)],
    .dict [("latitude".toList, .double (1 / 2)), ("longitude".toList, .int 2),
      ("name".toList, .string ['A']), ("road_distances".toList, .dict [(['B'], .int 600)]),
      ("type".toList, .string "Stop".toList)]]

theorem baseRequests_perm_line :
    ∃ db db', baseRequests lineDocument = .ok db ∧
      baseRequests lineDocument.reverse = .ok db' ∧ SameAnswers db db' := by
  obtain ⟨hexists, hsame⟩ := baseRequests_perm (List.reverse_perm lineDocument).symm (by decide)
    (by decide)
  obtain ⟨db, hdb⟩ : ∃ db, baseRequests lineDocument = .ok db :=
    exists_ok_of_isOk (by decide +kernel)
  obtain ⟨db', hdb'⟩ := hexists.mp ⟨db, hdb⟩
  exact ⟨db, db', hdb, hdb', hsame db db' hdb hdb'⟩

end TransportSystem.JsonReader
