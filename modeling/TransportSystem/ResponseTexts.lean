import TransportSystem.BuilderValues
import TransportSystem.Curvature
import TransportSystem.JsonReread
import TransportSystem.StatAnswers

namespace TransportSystem

open Json

namespace Json

variable {D : Type}

theorem Dict.mem_emplace {dict : Dict D} {key : Str} {val : Node D} {member : Str × Node D}
    (h : member ∈ dict.emplace key val) : member = (key, val) ∨ member ∈ dict := by
  induction dict with
  | nil => exact .inl (List.mem_singleton.mp h)
  | cons member' dict ih =>
      rw [emplace] at h
      split at h
      · exact List.mem_cons.mp h
      · split at h
        · exact .inr h
        · rcases List.mem_cons.mp h with rfl | h
          · exact .inr List.mem_cons_self
          · exact (ih h).imp_right (List.mem_cons_of_mem member')

theorem Dict.Sorted.emplace_any {dict : Dict D} (hs : dict.Sorted) (key : Str) (val : Node D) :
    Dict.Sorted (dict.emplace key val) := by
  rcases eq_or_ne (dict.find key) none with hfind | hfind
  · exact hs.emplace val hfind
  · rwa [hs.emplace_of_find val hfind]

namespace Builder

/-- The dictionaries in a builder are sorted. -/
def Sorted (builder : Builder D) : Prop :=
  builder.root.Everywhere Node.SortedMembers ∧
    ∀ node ∈ builder.nodesStack, node.Everywhere Node.SortedMembers

variable {builder : Builder D}

theorem sorted_append {items : List (Node D)} {val : Node D}
    (h : (Node.array items).Everywhere Node.SortedMembers)
    (hval : val.Everywhere Node.SortedMembers) :
    (Node.array (items ++ [val])).Everywhere Node.SortedMembers := by
  refine .intro trivial fun child hc => ?_
  rcases List.mem_append.mp hc with hc | hc
  · exact h.child hc
  · rwa [List.mem_singleton.mp hc]

theorem sorted_emplace {map : Dict D} {key : Str} {val : Node D}
    (h : (Node.dict map).Everywhere Node.SortedMembers)
    (hval : val.Everywhere Node.SortedMembers) :
    (Node.dict (map.emplace key val)).Everywhere Node.SortedMembers := by
  refine .intro (Dict.Sorted.emplace_any h.here key val) fun child hc => ?_
  obtain ⟨member, hmember, rfl⟩ := List.mem_map.mp hc
  rcases Dict.mem_emplace hmember with rfl | hmember
  · exact hval
  · exact h.child (List.mem_map_of_mem hmember)

theorem Sorted.value (h : builder.Sorted) {val : Node D}
    (hval : val.Everywhere Node.SortedMembers) : (builder.value val).2.Sorted := by
  obtain ⟨root, stack⟩ := builder
  obtain ⟨hroot, hstack⟩ : root.Everywhere Node.SortedMembers ∧
    ∀ node ∈ stack, node.Everywhere Node.SortedMembers := h
  unfold Builder.value
  dsimp only
  split
  · exact ⟨hroot, hstack⟩
  · split
    · exact ⟨hval, hstack⟩
    · rename_i items stack
      rw [List.forall_mem_cons] at hstack
      exact ⟨hroot, List.forall_mem_cons.mpr ⟨sorted_append hstack.1 hval, hstack.2⟩⟩
    · exact ⟨hroot, by simp⟩
    · rename_i key node stack
      rw [List.forall_mem_cons, List.forall_mem_cons] at hstack
      split
      · rename_i map hmap
        cases Node.asDict_eq_ok_iff.mp hmap
        exact ⟨hroot, List.forall_mem_cons.mpr ⟨sorted_emplace hstack.2.1 hval, hstack.2.2⟩⟩
      · exact ⟨hroot, List.forall_mem_cons.mpr hstack.2⟩
    · exact ⟨hroot, hstack⟩

theorem Sorted.startContainer (h : builder.Sorted) (name : String) {container : Node D}
    (hc : container.Everywhere Node.SortedMembers) :
    (builder.startContainer name container).2.Sorted := by
  unfold Builder.startContainer
  split
  · exact h
  · split
    · exact ⟨h.1, List.forall_mem_cons.mpr ⟨hc, h.2⟩⟩
    · exact h

theorem Sorted.endContainer (h : builder.Sorted) (name : String)
    (isContainer : Node D → Bool) : (builder.endContainer name isContainer).2.Sorted := by
  obtain ⟨root, stack⟩ := builder
  cases stack with
  | nil => exact h
  | cons node stack =>
      obtain ⟨hnode, hstack⟩ := List.forall_mem_cons.mp h.2
      unfold Builder.endContainer
      dsimp only
      split
      · exact h
      · split
        · exact ⟨hnode, by simp⟩
        · have hbuilder : Builder.Sorted ⟨root, stack⟩ := ⟨h.1, hstack⟩
          exact hbuilder.value hnode

theorem Sorted.call (h : builder.Sorted) {c : Call D}
    (hc : ∀ val, c = .value val → val.Everywhere Node.SortedMembers) :
    (builder.call c).2.Sorted := by
  cases c with
  | value val => exact h.value (hc val rfl)
  | key key =>
      show (builder.key key).2.Sorted
      unfold Builder.key
      split
      · exact h
      · split
        · exact h
        · split
          · exact h
          · exact ⟨h.1, List.forall_mem_cons.mpr ⟨.leaf rfl trivial, h.2⟩⟩
  | startArray => exact h.startContainer _ (.leaf rfl trivial)
  | endArray => exact h.endContainer _ _
  | startDict => exact h.startContainer _ (.leaf rfl List.Pairwise.nil)
  | endDict => exact h.endContainer _ _

theorem Sorted.run {calls : List (Call D)} (h : builder.Sorted)
    (hcalls : ∀ val, .value val ∈ calls → val.Everywhere Node.SortedMembers) :
    (run calls builder).2.Sorted := by
  induction calls generalizing builder with
  | nil => exact h
  | cons c calls ih =>
      have hcall := h.call (c := c) fun val hval => hcalls val (hval ▸ List.mem_cons_self)
      rw [Builder.run]
      cases heq : builder.call c with
      | mk result builder' =>
          rw [heq] at hcall
          cases result with
          | ok _ => exact ih hcall fun val hval => hcalls val (List.mem_cons_of_mem c hval)
          | error failure => exact hcall

/-- What is built has the properties of what was given. -/
theorem sorted_of_buildFrom {calls : List (Call D)} {node : Node D}
    (h : buildFrom calls = .ok node)
    (hcalls : ∀ val, .value val ∈ calls → val.Everywhere Node.SortedMembers) :
    node.Everywhere Node.SortedMembers := by
  have hempty : ({} : Builder D).Sorted := ⟨.leaf rfl trivial, by simp⟩
  have hsorted := hempty.run hcalls
  unfold buildFrom at h
  obtain ⟨_, -, hbuild⟩ := bind_eq_ok_iff.mp h
  unfold build at hbuild
  split at hbuild
  · cases hbuild
  · split at hbuild
    · cases hbuild
    · cases hbuild
      exact hsorted.1

end Builder

end Json

namespace JsonReader

open Json Builder
open Library.UniqueKeys

variable {m : Libm} {it : Iteration Str BusPtr} {handler : RequestHandler}

@[simp] theorem sorted_int (value : Int32) :
    (Node.int value : Node Double).Everywhere Node.SortedMembers :=
  .leaf rfl trivial

@[simp] theorem sorted_double (value : Double) :
    (Node.double value).Everywhere Node.SortedMembers :=
  .leaf rfl trivial

@[simp] theorem sorted_string (value : Str) :
    (Node.string value : Node Double).Everywhere Node.SortedMembers :=
  .leaf rfl trivial

theorem sorted_responseRequestBus {busInfo : BusInfo} {id : Int32} {node : Node Double}
    (h : responseRequestBus busInfo id = .ok node) : node.Everywhere Node.SortedMembers := by
  unfold responseRequestBus at h
  split at h
  · apply sorted_of_buildFrom h
    simp [or_imp, forall_and]
  · apply sorted_of_buildFrom h
    simp [or_imp, forall_and]

theorem sorted_responseNotFound {id : Int32} {node : Node Double}
    (h : responseNotFound id = .ok node) : node.Everywhere Node.SortedMembers := by
  apply sorted_of_buildFrom h
  simp [or_imp, forall_and]

theorem sorted_responseRequestStop {catalogue : TransportCatalogue} {stopName : Str} {id : Int32}
    {node : Node Double} (h : responseRequestStop catalogue stopName id = .ok node) :
    node.Everywhere Node.SortedMembers := by
  unfold responseRequestStop at h
  dsimp only at h
  split at h
  · apply sorted_of_buildFrom h
    simp [or_imp, forall_and]
  · exact sorted_responseNotFound h

theorem sorted_responseRequesRouter {origin target : Str} {id : Int32} {node : Node Double}
    (h : responseRequesRouter handler origin target id = .ok node) :
    node.Everywhere Node.SortedMembers := by
  obtain ⟨stat, -, hstat⟩ := bind_eq_ok_iff.mp h
  cases stat with
  | none => exact sorted_responseNotFound hstat
  | some info =>
      apply sorted_of_buildFrom hstat
      have hitem (item : ComponentTrip Double) :
          ∀ val, .value val ∈ itemCalls item → val.Everywhere Node.SortedMembers := by
        unfold itemCalls
        split <;> simp
      intro val hval
      rcases List.mem_append.mp hval with hval | hval
      · rcases List.mem_append.mp hval with hval | hval
        · simp at hval
        · obtain ⟨item, -, hval⟩ := List.mem_flatMap.mp hval
          exact hitem item val hval
      · have hend : ∀ val, .value val ∈ ([.endArray, .key "request_id".toList, .value (.int id),
            .key "total_time".toList, .value (.double info.totalTime), .endDict] :
              List (Call Double)) → val.Everywhere Node.SortedMembers := by
          simp
        exact hend val hval

theorem sorted_responseRequesMap (map : Svg.Document) (id : Int32) :
    (responseRequesMap map id).Everywhere Node.SortedMembers := by
  have hkeys : "map".toList < "request_id".toList := by decide
  refine .intro (List.pairwise_pair.mpr hkeys) ?_
  simp only [responseRequesMap, Node.children, List.map_cons, List.map_nil, List.forall_mem_cons]
  simp

/-- The answers so far. -/
def SortedAnswers (result : List (Node Double)) : Prop :=
  ∀ answer ∈ result, answer.Everywhere Node.SortedMembers

theorem sortedAnswers_pushIf {condition : Bool} {response : Except Failure (Node Double)}
    {result result' : List (Node Double)} (h : pushIf condition response result = .ok result')
    (hresult : SortedAnswers result)
    (hresponse : ∀ node, response = .ok node → node.Everywhere Node.SortedMembers) :
    SortedAnswers result' := by
  unfold pushIf at h
  split at h
  · obtain ⟨node, hnode, hpush⟩ := bind_eq_ok_iff.mp h
    cases hpush
    intro answer hanswer
    rcases List.mem_append.mp hanswer with hanswer | hanswer
    · exact hresult answer hanswer
    · rw [List.mem_singleton.mp hanswer]
      exact hresponse node hnode
  · cases h
    exact hresult

section Requests

variable {dict : Dict Double} {node : Node Double}

theorem sorted_respondBus (h : respondBus m handler dict = .ok node) :
    node.Everywhere Node.SortedMembers := by
  obtain ⟨-, -, h⟩ := bind_eq_ok_iff.mp h
  obtain ⟨name, -, h⟩ := bind_eq_ok_iff.mp h
  obtain ⟨busInfo, -, h⟩ := bind_eq_ok_iff.mp h
  obtain ⟨id, -, h⟩ := bind_eq_ok_iff.mp h
  exact sorted_responseRequestBus h

theorem sorted_respondStop (h : respondStop handler dict = .ok node) :
    node.Everywhere Node.SortedMembers := by
  obtain ⟨-, -, h⟩ := bind_eq_ok_iff.mp h
  obtain ⟨name, -, h⟩ := bind_eq_ok_iff.mp h
  obtain ⟨id, -, h⟩ := bind_eq_ok_iff.mp h
  exact sorted_responseRequestStop h

theorem sorted_respondMap (h : respondMap it handler dict = .ok node) :
    node.Everywhere Node.SortedMembers := by
  obtain ⟨map, -, h⟩ := bind_eq_ok_iff.mp h
  obtain ⟨id, -, h⟩ := bind_eq_ok_iff.mp h
  cases h
  exact sorted_responseRequesMap map id

theorem sorted_respondRoute (h : respondRoute handler dict = .ok node) :
    node.Everywhere Node.SortedMembers := by
  obtain ⟨origin, -, h⟩ := bind_eq_ok_iff.mp h
  obtain ⟨target, -, h⟩ := bind_eq_ok_iff.mp h
  obtain ⟨id, -, h⟩ := bind_eq_ok_iff.mp h
  exact sorted_responseRequesRouter h

end Requests

theorem sortedAnswers_respond {result result' : List (Node Double)} {request : Node Double}
    (h : respond m it handler result request = .ok result') (hresult : SortedAnswers result) :
    SortedAnswers result' := by
  unfold respond at h
  obtain ⟨dict, -, h⟩ := bind_eq_ok_iff.mp h
  obtain ⟨-, -, h⟩ := bind_eq_ok_iff.mp h
  obtain ⟨-, -, h⟩ := bind_eq_ok_iff.mp h
  obtain ⟨type, -, h⟩ := bind_eq_ok_iff.mp h
  obtain ⟨afterBus, hbus, h⟩ := bind_eq_ok_iff.mp h
  obtain ⟨afterStop, hstop, h⟩ := bind_eq_ok_iff.mp h
  obtain ⟨afterMap, hmap, hroute⟩ := bind_eq_ok_iff.mp h
  have hafterBus := sortedAnswers_pushIf hbus hresult fun _ => sorted_respondBus
  have hafterStop := sortedAnswers_pushIf hstop hafterBus fun _ => sorted_respondStop
  have hafterMap := sortedAnswers_pushIf hmap hafterStop fun _ => sorted_respondMap
  exact sortedAnswers_pushIf hroute hafterMap fun _ => sorted_respondRoute

theorem sortedAnswers_foldlM {requests result result' : List (Node Double)}
    (h : requests.foldlM (respond m it handler) result = .ok result')
    (hresult : SortedAnswers result) : SortedAnswers result' := by
  induction requests generalizing result with
  | nil =>
      cases h
      exact hresult
  | cons request requests ih =>
      rw [List.foldlM_cons] at h
      obtain ⟨next, hnext, h⟩ := bind_eq_ok_iff.mp h
      exact ih h (sortedAnswers_respond hnext hresult)

/-- The numbers in the answers are not divided by zero: the way of every bus that is
found has a length, and the buses have a velocity. -/
structure Divides (m : Libm) (handler : RequestHandler) : Prop where
  line : ∀ name bus line, handler.db.findBus name = .ok bus →
    handler.db.summationLineLenght m bus = .ok line → line ≠ 0
  velocity : ∀ tr, handler.router = some tr → tr.settings.busVelocity ≠ 0

/-- The curvature that is answered is the quotient of two `double`s. -/
theorem Divides.divide_eq {name : Str} {bus : Bus} {info : BusInfo} {line : Double}
    (h : Divides m handler) (hfind : handler.db.findBus name = .ok bus)
    (hinfo : handler.db.getInfoBus m name = .ok info)
    (hline : handler.db.summationLineLenght m bus = .ok line) :
    DoubleValue.divide info.routeLength line = .finite info.curvature := by
  rw [DoubleValue.divide_of_ne_zero (h.line name bus line hfind hline),
    (getInfoBus_eq m hfind hinfo hline).2]

/-- So is the time that is computed for a road. -/
theorem Divides.divide_velocity {tr : TransportRouter Double} (h : Divides m handler)
    (htr : handler.router = some tr) (lenght : UInt32) :
    DoubleValue.divide lenght.toNat (1000 * tr.settings.busVelocity.toNat) =
      .finite (lenght.toNat / (1000 * tr.settings.busVelocity.toNat)) := by
  have hvelocity : tr.settings.busVelocity.toNat ≠ 0 := fun hzero =>
    h.velocity tr htr (UInt16.toNat_inj.mp hzero)
  exact DoubleValue.divide_of_ne_zero (mul_ne_zero (by norm_num) (Nat.cast_ne_zero.mpr hvelocity))

def lineRequests : List (Node Double) :=
  [⟨1, .bus ['1']⟩, ⟨2, .stop ['A']⟩, ⟨4, .route ['A'] ['B']⟩].map StatRequest.node

end JsonReader

end TransportSystem
