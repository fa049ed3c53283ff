import TransportSystem.JsonNumber

/-!
The grammar of JSON, and the values of its texts. Strings are those of the
dialect of `json.cpp`: five escapes, and raw any other character but the end of
a line.
-/

namespace TransportSystem.Json

variable {D : Type}

/-- The whitespace of JSON. -/
def isWhite (c : Char) : Bool := c = ' ' || c = '\t' || c = '\n' || c = '\r'

def White (s : Str) : Prop := ∀ c ∈ s, isWhite c = true

theorem white_nil : White [] := by simp [White]

/-- The character after a backslash and what it stands for. -/
inductive Escape : Char → Char → Prop
  | newline : Escape 'n' '\n'
  | tab : Escape 't' '\t'
  | carriageReturn : Escape 'r' '\r'
  | quote : Escape '"' '"'
  | backslash : Escape '\\' '\\'

/-- The characters of a string as written between its quotes. -/
inductive Written : Str → Str → Prop
  | nil : Written [] []
  | plain {c : Char} {s x : Str} : c ≠ '"' → c ≠ '\\' → c ≠ '\n' → c ≠ '\r' →
      Written s x → Written (c :: s) (c :: x)
  | escape {e c : Char} {s x : Str} : Escape e c → Written s x → Written (c :: s) ('\\' :: e :: x)

def boolText (value : Bool) : Str := if value then "true".toList else "false".toList

/-- The phrases of the grammar with what they stand for. -/
inductive Phrase (D : Type)
  | value (node : Node D)
  | padded (node : Node D)
  | elements (items : List (Node D))
  | member (key : Str) (node : Node D)
  | members (members : List (Str × Node D))

/-- The texts of a phrase, with the characters of strings and keys written as `strings`
says. The members of an object have different keys, and their order is lost in its value. -/
inductive GrammarOf (strings : Str → Str → Prop) (stod : Str → Option D) : Phrase D → Str → Prop
  | null : GrammarOf strings stod (.value .null) "null".toList
  | bool (b : Bool) : GrammarOf strings stod (.value (.bool b)) (boolText b)
  | number {n : Number} {node : Node D} : n.Denotes stod node →
      GrammarOf strings stod (.value node) n.text
  | string {s x : Str} : strings s x →
      GrammarOf strings stod (.value (.string s)) ('"' :: (x ++ ['"']))
  | emptyArray {w : Str} : White w →
      GrammarOf strings stod (.value (.array [])) ('[' :: (w ++ [']']))
  | array {items : List (Node D)} {x : Str} : GrammarOf strings stod (.elements items) x →
      GrammarOf strings stod (.value (.array items)) ('[' :: (x ++ [']']))
  | emptyObject {w : Str} : White w →
      GrammarOf strings stod (.value (.dict [])) ('{' :: (w ++ ['}']))
  | object {members : List (Str × Node D)} {dict : Dict D} {x : Str} :
      GrammarOf strings stod (.members members) x → dict.Sorted → dict.Perm members →
      GrammarOf strings stod (.value (.dict dict)) ('{' :: (x ++ ['}']))
  | padded {node : Node D} {w x w' : Str} : White w → GrammarOf strings stod (.value node) x →
      White w' → GrammarOf strings stod (.padded node) (w ++ (x ++ w'))
  | element {node : Node D} {x : Str} : GrammarOf strings stod (.padded node) x →
      GrammarOf strings stod (.elements [node]) x
  | elements {node : Node D} {items : List (Node D)} {x y : Str} :
      GrammarOf strings stod (.padded node) x → GrammarOf strings stod (.elements items) y →
      GrammarOf strings stod (.elements (node :: items)) (x ++ ',' :: y)
  | member {key : Str} {node : Node D} {w k w' x : Str} : White w → strings key k → White w' →
      GrammarOf strings stod (.padded node) x →
      GrammarOf strings stod (.member key node) (w ++ '"' :: (k ++ '"' :: (w' ++ ':' :: x)))
  | lastMember {key : Str} {node : Node D} {x : Str} : GrammarOf strings stod (.member key node) x →
      GrammarOf strings stod (.members [(key, node)]) x
  | members {key : Str} {node : Node D} {members : List (Str × Node D)} {x y : Str} :
      GrammarOf strings stod (.member key node) x → GrammarOf strings stod (.members members) y →
      GrammarOf strings stod (.members ((key, node) :: members)) (x ++ ',' :: y)

/-- The grammar with the strings of this dialect. -/
abbrev Grammar (stod : Str → Option D) : Phrase D → Str → Prop := GrammarOf Written stod

def isDelimiter (c : Char) : Bool := isWhite c || c = ',' || c = ']' || c = '}'

/-- A number of the grammar can end here. -/
def Delimited (rest : Str) : Prop := rest.head?.all isDelimiter = true

end TransportSystem.Json
