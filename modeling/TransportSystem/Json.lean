import TransportSystem.Basic

namespace TransportSystem.Json

/-- `json::Node`. A `Dict` is the list of the members of the map in its order. -/
inductive Node (D : Type)
  | null
  | array (items : List (Node D))
  | dict (members : List (Str × Node D))
  | bool (value : Bool)
  | int (value : Int32)
  | double (value : D)
  | string (value : Str)

abbrev Dict (D : Type) := List (Str × Node D)

namespace Dict

variable {D : Type}

def find (dict : Dict D) (key : Str) : Option (Node D) :=
  (dict.find? fun member => member.1 = key).map Prod.snd

/-- `dict.at(key)` -/
def get (dict : Dict D) (key : Str) : Except Failure (Node D) :=
  match dict.find key with
  | some value => .ok value
  | none => .error .outOfRange

theorem get_eq_ok_iff {dict : Dict D} {key : Str} {value : Node D} :
    dict.get key = .ok value ↔ dict.find key = some value := by
  unfold get
  cases dict.find key <;> simp

end Dict

namespace Node

variable {D : Type}

def asInt : Node D → Except Failure Int32
  | .int value => .ok value
  | _ => .error (.logicError "Not an int")

/-- `AsDouble`, which also takes an `int`. -/
def asDouble [IntCast D] : Node D → Except Failure D
  | .double value => .ok value
  | .int value => .ok value.toInt
  | _ => .error (.logicError "Not a double")

def asBool : Node D → Except Failure Bool
  | .bool value => .ok value
  | _ => .error (.logicError "Not a bool")

def asArray : Node D → Except Failure (List (Node D))
  | .array items => .ok items
  | _ => .error (.logicError "Not an array")

def asString : Node D → Except Failure Str
  | .string value => .ok value
  | _ => .error (.logicError "Not a string")

def asDict : Node D → Except Failure (Dict D)
  | .dict members => .ok members
  | _ => .error (.logicError "Not a dict")

theorem asString_eq_ok_iff {node : Node D} {value : Str} :
    node.asString = .ok value ↔ node = .string value := by
  cases node <;> simp [asString]

theorem asDict_eq_ok_iff {node : Node D} {members : Dict D} :
    node.asDict = .ok members ↔ node = .dict members := by
  cases node <;> simp [asDict]

/-- The comparison of a node with a string. -/
def isString (node : Node D) (value : Str) : Bool :=
  match node with
  | .string value' => value' = value
  | _ => false

end Node

end TransportSystem.Json
