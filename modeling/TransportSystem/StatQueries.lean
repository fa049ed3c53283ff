import TransportSystem.StatRequests

namespace TransportSystem.JsonReader

open Json
open Library.UniqueKeys
open RequestHandler (renderMap)

/-- What is asked. -/
inductive Request
  | bus (name : Str)
  | stop (name : Str)
  | map
  | route (origin target : Str)
  deriving DecidableEq, Repr

structure StatRequest where
  id : Int32
  request : Request
  deriving DecidableEq, Repr

/-- The members that ask it. -/
def Request.WrittenIn (dict : Dict Double) : Request → Prop
  | .bus name =>
      dict.find "type".toList = some (.string "Bus".toList) ∧
        dict.find "name".toList = some (.string name)
  | .stop name =>
      dict.find "type".toList = some (.string "Stop".toList) ∧
        dict.find "name".toList = some (.string name)
  | .map => dict.find "type".toList = some (.string "Map".toList)
  | .route origin target =>
      dict.find "type".toList = some (.string "Route".toList) ∧
        dict.find "from".toList = some (.string origin) ∧
        dict.find "to".toList = some (.string target)

/-- An element of `stat_requests` with an id that asks something. -/
def Asks (node : Node Double) (r : StatRequest) : Prop :=
  ∃ dict : Dict Double, node = .dict dict ∧ dict.find "id".toList = some (.int r.id) ∧
    r.request.WrittenIn dict

section Loop

variable (m : Libm) (it : Iteration Str BusPtr) (handler : RequestHandler)

def answer (r : StatRequest) : Except Failure (Node Double) :=
  match r.request with
  | .bus name => do responseRequestBus (← handler.getBusStat m name) r.id
  | .stop name => responseRequestStop handler.db name r.id
  | .map => do pure (responseRequesMap (← renderMap it handler.db handler.render) r.id)
  | .route origin target => responseRequesRouter handler origin target r.id

variable {m it handler}

theorem require_of_find {dict : Dict Double} {key : String} {node : Node Double}
    (h : dict.find key.toList = some node) : require dict key = .ok () := by
  rw [require, h]
  rfl

theorem stringAt_of_find {dict : Dict Double} {key : String} {value : Str}
    (h : dict.find key.toList = some (.string value)) : stringAt dict key = .ok value := by
  rw [stringAt, Dict.get_eq_ok_iff.mpr h]
  rfl

theorem intAt_of_find {dict : Dict Double} {key : String} {value : Int32}
    (h : dict.find key.toList = some (.int value)) : intAt dict key = .ok value := by
  rw [intAt, Dict.get_eq_ok_iff.mpr h]
  rfl

theorem pushIf_true {response : Except Failure (Node Double)} {result : List (Node Double)} :
    pushIf true response result = (do
      let node ← response
      pure (result ++ [node])) := rfl

theorem pushIf_false {response : Except Failure (Node Double)} {result : List (Node Double)} :
    pushIf false response result = .ok result := rfl

/-- The four types are different, so at most one branch of the loop is taken. -/
theorem respond_of_type {dict : Dict Double} {type : Str} {id : Node Double}
    (htype : dict.find "type".toList = some (.string type)) (hid : dict.find "id".toList = some id)
    (result : List (Node Double)) :
    respond m it handler result (.dict dict) =
      if type = "Bus".toList then pushIf true (respondBus m handler dict) result
      else if type = "Stop".toList then pushIf true (respondStop handler dict) result
      else if type = "Map".toList then pushIf true (respondMap it handler dict) result
      else pushIf (type = "Route".toList) (respondRoute handler dict) result := by
  have hrest (response : Except Failure (Node Double)) :
      (pushIf true response result >>= fun result => pure result) = pushIf true response result :=
    bind_pure _
  simp only [respond, Node.asDict, require_of_find htype, require_of_find hid,
    stringAt_of_find htype, ok_bind]
  split
  · subst type
    exact hrest _
  · rw [decide_eq_false ‹_›, pushIf_false, ok_bind]
    split
    · subst type
      exact hrest _
    · rw [decide_eq_false ‹_›, pushIf_false, ok_bind]
      split
      · subst type
        exact hrest _
      · rw [decide_eq_false ‹_›, pushIf_false, ok_bind]

theorem respond_of_asks {node : Node Double} {r : StatRequest} (h : Asks node r)
    (result : List (Node Double)) :
    respond m it handler result node = pushIf true (answer m it handler r) result := by
  obtain ⟨dict, rfl, hid, hwritten⟩ := h
  obtain ⟨id, request⟩ := r
  cases request with
  | bus name =>
      obtain ⟨htype, hname⟩ := hwritten
      rw [respond_of_type htype hid, if_pos rfl]
      simp only [respondBus, require_of_find hname, stringAt_of_find hname, intAt_of_find hid,
        ok_bind]
      rfl
  | stop name =>
      obtain ⟨htype, hname⟩ := hwritten
      rw [respond_of_type htype hid, if_neg (by decide), if_pos rfl]
      simp only [respondStop, require_of_find hname, stringAt_of_find hname, intAt_of_find hid,
        ok_bind]
      rfl
  | map =>
      rw [respond_of_type hwritten hid, if_neg (by decide), if_neg (by decide), if_pos rfl]
      simp only [respondMap, intAt_of_find hid, ok_bind]
      rfl
  | route origin target =>
      obtain ⟨htype, horigin, htarget⟩ := hwritten
      rw [respond_of_type htype hid, if_neg (by decide), if_neg (by decide), if_neg (by decide)]
      simp only [respondRoute, stringAt_of_find horigin, stringAt_of_find htarget,
        intAt_of_find hid, ok_bind]
      rfl

/-- The loop answers one request after the other. -/
theorem foldlM_respond {nodes : List (Node Double)} {requests : List StatRequest}
    (h : List.Forall₂ Asks nodes requests) (result : List (Node Double)) :
    nodes.foldlM (respond m it handler) result = (do
      let responses ← requests.mapM (answer m it handler)
      pure (result ++ responses)) := by
  induction h generalizing result with
  | nil => simp
  | @cons node r nodes requests hasks _ ih =>
      rw [List.foldlM_cons, respond_of_asks hasks, pushIf_true, List.mapM_cons]
      simp only [bind_assoc, pure_bind, ih, List.append_assoc, List.singleton_append]

end Loop

/-- The input names the base and has the nodes under `stat_requests`. -/
def Queries (stod : Str → Option Double) (input : IStream) (name : Str)
    (nodes : List (Node Double)) : Prop :=
  ∃ dict : Dict Double, openingQuery stod input = .ok (.dict dict, name) ∧
    dict.find "stat_requests".toList = some (.array nodes)

section Print

/-- A node that asks the request. -/
def StatRequest.node (r : StatRequest) : Node Double :=
  match r.request with
  | .bus name =>
      .dict [("id".toList, .int r.id), ("name".toList, .string name),
        ("type".toList, .string "Bus".toList)]
  | .stop name =>
      .dict [("id".toList, .int r.id), ("name".toList, .string name),
        ("type".toList, .string "Stop".toList)]
  | .map => .dict [("id".toList, .int r.id), ("type".toList, .string "Map".toList)]
  | .route origin target =>
      .dict [("from".toList, .string origin), ("id".toList, .int r.id),
        ("to".toList, .string target), ("type".toList, .string "Route".toList)]

theorem asks_node (r : StatRequest) : Asks r.node r := by
  obtain ⟨id, request⟩ := r
  cases request with
  | bus name => exact ⟨_, rfl, rfl, rfl, rfl⟩
  | stop name => exact ⟨_, rfl, rfl, rfl, rfl⟩
  | map => exact ⟨_, rfl, rfl, rfl⟩
  | route origin target => exact ⟨_, rfl, rfl, rfl, rfl, rfl⟩

theorem forall₂_asks (requests : List StatRequest) :
    List.Forall₂ Asks (requests.map StatRequest.node) requests :=
  List.forall₂_map_left_iff.mpr (List.forall₂_same.mpr fun r _ => asks_node r)

def Printable (node : Node Double) : Prop := node.SortedMembers ∧ node.NotDouble

theorem printable_dict {dict : Dict Double} (keys : List String)
    (hkeys : dict.map Prod.fst = keys.map String.toList)
    (hsorted : (keys.map String.toList).Pairwise (· < ·))
    (hmembers : ∀ member ∈ dict, member.2.Everywhere Printable) :
    (Node.dict dict).Everywhere Printable := by
  refine .intro ⟨List.pairwise_map.mp (hkeys ▸ hsorted), trivial⟩ fun child hchild => ?_
  obtain ⟨member, hmember, rfl⟩ := List.mem_map.mp hchild
  exact hmembers member hmember

theorem printable_string (value : Str) : (Node.string value : Node Double).Everywhere Printable :=
  .leaf rfl ⟨trivial, trivial⟩

theorem printable_int (value : Int32) : (Node.int value : Node Double).Everywhere Printable :=
  .leaf rfl ⟨trivial, trivial⟩

theorem printable_node (r : StatRequest) : r.node.Everywhere Printable := by
  obtain ⟨id, request⟩ := r
  cases request with
  | bus name =>
      exact printable_dict ["id", "name", "type"] rfl (by decide)
        (by simp [printable_string, printable_int])
  | stop name =>
      exact printable_dict ["id", "name", "type"] rfl (by decide)
        (by simp [printable_string, printable_int])
  | map =>
      exact printable_dict ["id", "type"] rfl (by decide)
        (by simp [printable_string, printable_int])
  | route origin target =>
      exact printable_dict ["from", "id", "to", "type"] rfl (by decide)
        (by simp [printable_string, printable_int])

def queryDict (name : Str) (requests : List StatRequest) : Dict Double :=
  [("serialization_settings".toList, .dict [("file".toList, .string name)]),
    ("stat_requests".toList, .array (requests.map StatRequest.node))]

theorem printable_queryDict (name : Str) (requests : List StatRequest) :
    (Node.dict (queryDict name requests)).Everywhere Printable := by
  have hsettings : (Node.dict [("file".toList, .string name)] : Node Double).Everywhere Printable :=
    printable_dict ["file"] rfl (by decide)
      (List.forall_mem_singleton.mpr (printable_string name))
  have hrequests : (Node.array (requests.map StatRequest.node)).Everywhere Printable := by
    refine .intro ⟨trivial, trivial⟩ fun child hchild => ?_
    obtain ⟨r, -, rfl⟩ := List.mem_map.mp hchild
    exact printable_node r
  exact printable_dict ["serialization_settings", "stat_requests"] rfl (by decide)
    (List.forall_mem_cons.mpr ⟨hsettings, List.forall_mem_singleton.mpr hrequests⟩)

/-- An input that makes the requests. -/
def queryInput (name : Str) (requests : List StatRequest) : IStream :=
  .ofText (printNode printDouble {} (.dict (queryDict name requests)))

theorem queries_queryInput (stod : Str → Option Double) (name : Str)
    (requests : List StatRequest) :
    Queries stod (queryInput name requests) name (requests.map StatRequest.node) := by
  have hprint := printable_queryDict name requests
  have hvalue : Grammar stod (.value (.dict (queryDict name requests)))
      (printNode printDouble {} (.dict (queryDict name requests))) :=
    grammar_printNode (hprint.imp fun _ => And.right) (hprint.imp fun _ => And.left) {}
  obtain ⟨document, rest, hload, hroot⟩ := exists_load_of_value hvalue
  refine ⟨queryDict name requests, ?_, rfl⟩
  rw [openingQuery, queryInput, hload, ok_bind]
  simp only [hroot]
  rfl

end Print

end TransportSystem.JsonReader
