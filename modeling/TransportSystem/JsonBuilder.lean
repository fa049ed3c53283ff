import TransportSystem.JsonDocument

namespace TransportSystem.Json

variable {D : Type}

namespace Node

def isNull : Node D → Bool
  | .null => true
  | _ => false

theorem isNull_iff {node : Node D} : node.isNull = true ↔ node = .null := by
  cases node with
  | null => exact iff_of_true rfl rfl
  | _ => exact iff_of_false (by simp [isNull]) (by simp)

def isArray : Node D → Bool
  | .array _ => true
  | _ => false

def isDict : Node D → Bool
  | .dict _ => true
  | _ => false

/-- `IsString` -/
def holdsString : Node D → Bool
  | .string _ => true
  | _ => false

end Node

/-- `json::Builder`. The last element of `nodes_stack_` comes first here. -/
structure Builder (D : Type) where
  root : Node D := .null
  nodesStack : List (Node D) := []

namespace Builder

/-- What a call returns, and the builder that it leaves when it throws, too. -/
abbrev Outcome (D : Type) := Except Failure Unit × Builder D

def value (builder : Builder D) (val : Node D) : Outcome D :=
  if ¬ builder.root.isNull then
    (.error (.logicError "Calling Value when the object is ready"), builder)
  else
    match builder.nodesStack with
    | [] => (.ok (), { builder with root := val })
    | .array items :: stack =>
        (.ok (), { builder with nodesStack := .array (items ++ [val]) :: stack })
    | .string _ :: [] => (.error .undefinedBehaviour, { builder with nodesStack := [] })
    | .string key :: node :: stack =>
        -- the key is popped before the dictionary is looked at
        match node.asDict with
        | .ok map => (.ok (), { builder with nodesStack := .dict (map.emplace key val) :: stack })
        | .error failure => (.error failure, { builder with nodesStack := node :: stack })
    | _ :: _ =>
        (.error (.logicError ("Calling Value anywhere except after the constructor, " ++
          "after the Key, or after the previous element of the array")), builder)

def key (builder : Builder D) (key : Str) : Outcome D :=
  match builder.nodesStack with
  | [] => (.error (.logicError "Calling Key when the object is ready"), builder)
  | node :: _ =>
      if ¬ builder.root.isNull then
        (.error (.logicError "Calling Key when the object is ready"), builder)
      else if ¬ node.isDict then
        (.error (.logicError
          "Calling the Key method outside the dictionary or immediately after another Key"),
          builder)
      else (.ok (), { builder with nodesStack := .string key :: builder.nodesStack })

/-- The common text of `StartArray` and `StartDict`. -/
def startContainer (name : String) (container : Node D) (builder : Builder D) : Outcome D :=
  if ¬ builder.root.isNull then
    (.error (.logicError ("Calling " ++ name ++ " when the object is ready.")), builder)
  else if builder.nodesStack.head?.all fun node => node.isArray || node.holdsString then
    (.ok (), { builder with nodesStack := container :: builder.nodesStack })
  else
    (.error (.logicError ("Calling " ++ name ++ " anywhere except after the constructor, " ++
      "after the Key, or after the previous element of the array")), builder)

/-- The common text of `EndArray` and `EndDict`. -/
def endContainer (name : String) (isContainer : Node D → Bool) (builder : Builder D) :
    Outcome D :=
  match builder.nodesStack with
  | [] => (.error (.logicError ("Calling " ++ name ++ " when the object is ready.")), builder)
  | node :: stack =>
      if ¬ isContainer node then
        (.error (.logicError ("Calling " ++ name ++ " in the context of another container.")),
          builder)
      else if stack.isEmpty then (.ok (), ⟨node, []⟩)
      else { builder with nodesStack := stack }.value node

def startArray (builder : Builder D) : Outcome D :=
  builder.startContainer "StartArray" (.array [])

def endArray (builder : Builder D) : Outcome D := builder.endContainer "EndArray" Node.isArray

def startDict (builder : Builder D) : Outcome D := builder.startContainer "StartDict" (.dict [])

def endDict (builder : Builder D) : Outcome D := builder.endContainer "EndDict" Node.isDict

def build (builder : Builder D) : Except Failure (Node D) :=
  if builder.root.isNull then throw (.logicError "Root is null")
  else if ¬ builder.nodesStack.isEmpty then throw (.logicError "Stack is not empty")
  else pure builder.root

inductive Call (D : Type)
  | value (val : Node D)
  | key (key : Str)
  | startArray
  | endArray
  | startDict
  | endDict

def call (builder : Builder D) : Call D → Outcome D
  | .value val => builder.value val
  | .key key => builder.key key
  | .startArray => builder.startArray
  | .endArray => builder.endArray
  | .startDict => builder.startDict
  | .endDict => builder.endDict

/-- A chain of calls, up to the first that throws. -/
def run : List (Call D) → Builder D → Outcome D
  | [], builder => (.ok (), builder)
  | c :: calls, builder =>
      match builder.call c with
      | (.ok (), builder') => run calls builder'
      | (.error failure, builder') => (.error failure, builder')

/-- `Builder()`, a chain of calls and `Build()`. -/
def buildFrom (calls : List (Call D)) : Except Failure (Node D) := do
  let outcome := run calls {}
  outcome.1
  outcome.2.build

section Emits

variable {builder : Builder D} {calls calls' : List (Call D)}

theorem run_append {builder' : Builder D} (h : run calls builder = (.ok (), builder')) :
    run (calls ++ calls') builder = run calls' builder' := by
  induction calls generalizing builder with
  | nil =>
      cases h
      rfl
  | cons c calls ih =>
      rw [List.cons_append, run]
      rw [run] at h
      cases hc : builder.call c with
      | mk result builder'' =>
          rw [hc] at h
          cases result with
          | ok _ => exact ih h
          | error failure => cases h

/-- A value is expected here. -/
inductive Expects : Builder D → Prop
  | start : Expects ⟨.null, []⟩
  | element (items : List (Node D)) (stack : List (Node D)) : Expects ⟨.null, .array items :: stack⟩
  | member (key : Str) (map : Dict D) (stack : List (Node D)) :
      Expects ⟨.null, .string key :: .dict map :: stack⟩

/-- Wherever a value is expected, the calls do what `Value` would do. -/
def Emits (calls : List (Call D)) (val : Node D) : Prop :=
  ∀ builder : Builder D, builder.Expects → run calls builder = builder.value val

theorem Expects.value_ok (h : builder.Expects) (val : Node D) :
    ∃ builder', builder.value val = (.ok (), builder') := by
  cases h <;> exact ⟨_, rfl⟩

theorem emits_value (val : Node D) : Emits [.value val] val := by
  intro builder h
  obtain ⟨builder', hvalue⟩ := h.value_ok val
  rw [run, call, hvalue]
  rfl

/-- The calls of one element after the other, into an open array. -/
theorem run_elements {elements : List (List (Call D) × Node D)}
    (h : ∀ e ∈ elements, Emits e.1 e.2) (items stack : List (Node D)) :
    run (elements.flatMap Prod.fst) ⟨.null, .array items :: stack⟩ =
      (.ok (), ⟨.null, .array (items ++ elements.map Prod.snd) :: stack⟩) := by
  induction elements generalizing items with
  | nil => simp [run]
  | cons e elements ih =>
      have he := h e (by simp) _ (.element items stack)
      rw [List.flatMap_cons, run_append he, List.map_cons,
        ih fun e' he' => h e' (List.mem_cons_of_mem e he')]
      simp

/-- The members of a dictionary, of which the first of a key counts. -/
def emplaceAll (map : Dict D) (members : List (Str × Node D)) : Dict D :=
  members.foldl (fun map member => map.emplace member.1 member.2) map

/-- The calls of one member after the other, into an open dictionary. -/
theorem run_members {members : List (Str × List (Call D) × Node D)}
    (h : ∀ m ∈ members, Emits m.2.1 m.2.2) (map : Dict D) (stack : List (Node D)) :
    run (members.flatMap fun m => .key m.1 :: m.2.1) ⟨.null, .dict map :: stack⟩ =
      (.ok (), ⟨.null, .dict (emplaceAll map (members.map fun m => (m.1, m.2.2))) :: stack⟩) := by
  induction members generalizing map with
  | nil => rfl
  | cons m members ih =>
      have hm := h m (by simp) _ (.member m.1 map stack)
      rw [List.flatMap_cons, List.cons_append, run]
      exact (run_append hm).trans (ih (fun m' hm' => h m' (List.mem_cons_of_mem m hm')) _)

theorem Expects.startContainer_ok (h : builder.Expects) (name : String) (container : Node D) :
    builder.startContainer name container =
      (.ok (), ⟨.null, container :: builder.nodesStack⟩) := by
  cases h <;> rfl

theorem Expects.endContainer_eq (h : builder.Expects) (name : String) {container : Node D}
    {isContainer : Node D → Bool} (hc : isContainer container = true) :
    endContainer name isContainer ⟨.null, container :: builder.nodesStack⟩ =
      builder.value container := by
  cases h <;> simp [endContainer, hc, value, Node.isNull]

theorem emits_array (elements : List (List (Call D) × Node D))
    (h : ∀ e ∈ elements, Emits e.1 e.2) :
    Emits (.startArray :: (elements.flatMap Prod.fst ++ [.endArray]))
      (.array (elements.map Prod.snd)) := by
  intro builder hb
  rw [run, call, startArray, hb.startContainer_ok]
  dsimp only
  rw [run_append (run_elements h [] builder.nodesStack), List.nil_append, run, call, endArray,
    hb.endContainer_eq _ rfl]
  obtain ⟨builder', hvalue⟩ := hb.value_ok (.array (elements.map Prod.snd))
  rw [hvalue]
  rfl

theorem emits_array_map {A : Type} {calls : A → List (Call D)} {val : A → Node D} (l : List A)
    (h : ∀ a, Emits (calls a) (val a)) :
    Emits (.startArray :: (l.flatMap calls ++ [.endArray])) (.array (l.map val)) := by
  have harray := emits_array (l.map fun a => (calls a, val a)) (by simp [h])
  rwa [List.flatMap_map, List.map_map] at harray

theorem emits_dict (members : List (Str × List (Call D) × Node D))
    (h : ∀ m ∈ members, Emits m.2.1 m.2.2) :
    Emits (.startDict :: ((members.flatMap fun m => .key m.1 :: m.2.1) ++ [.endDict]))
      (.dict (emplaceAll [] (members.map fun m => (m.1, m.2.2)))) := by
  intro builder hb
  rw [run, call, startDict, hb.startContainer_ok]
  dsimp only
  rw [run_append (run_members h [] builder.nodesStack), run, call, endDict,
    hb.endContainer_eq _ rfl]
  obtain ⟨builder', hvalue⟩ := hb.value_ok
    (.dict (emplaceAll [] (members.map fun m => (m.1, m.2.2))))
  rw [hvalue]
  rfl

theorem emits_dict_values (members : List (Str × Node D)) :
    Emits (.startDict :: ((members.flatMap fun m => [.key m.1, .value m.2]) ++ [.endDict]))
      (.dict (emplaceAll [] members)) := by
  have hdict := emits_dict (members.map fun m => (m.1, [.value m.2], m.2)) (by
    intro m hm
    obtain ⟨member, -, rfl⟩ := List.mem_map.mp hm
    exact emits_value member.2)
  simpa [List.flatMap_map, Function.comp_def] using hdict

theorem Emits.buildFrom_eq {val : Node D} (h : Emits calls val) (hval : val.isNull = false) :
    buildFrom calls = .ok val := by
  have hroot : ({} : Builder D).value val = (.ok (), ⟨val, []⟩) := rfl
  unfold buildFrom
  rw [h {} .start, hroot, ok_bind, build, if_neg (by simp [hval])]
  rfl

end Emits

end Builder

end TransportSystem.Json
