import TransportSystem.IStream
import TransportSystem.JsonDocument

/-!
The readers of `json.cpp`. `std::stod` is a parameter. Each loop and each
recursive call uses up one unit of fuel.
-/

namespace TransportSystem.Json

open Library.Effects

variable {D : Type}

def parsingError (what : String) : Failure := .parsingError what.toList

/-- `while (p(input.peek())) push(s);` -/
def pushLoop (p : Char → Bool) (push : Str → Input Str) : ℕ → Str → Input Str
  | 0, _ => throw .diverges
  | fuel + 1, s => do
      if (← IStream.peek).any p then pushLoop p push fuel (← push s) else pure s

def pushWhile (p : Char → Bool) (push : Str → Input Str) (s : Str) : Input Str :=
  fun input => pushLoop p push (input.rest.length + 1) s input

/-- `s.push_back(static_cast<char>(input.get()))` -/
def pushBack (s : Str) : Input Str := do
  return s ++ [(← IStream.get).getD '\xff']

def loadLiteral : Input Str :=
  pushWhile Char.isAlpha pushBack []

/-- The character that an escape sequence stands for. -/
def unescape (c : Char) : Option Char :=
  if c = 'n' then some '\n'
  else if c = 't' then some '\t'
  else if c = 'r' then some '\r'
  else if c = '"' then some '"'
  else if c = '\\' then some '\\'
  else none

/-- The loop of `LoadString`, directly on the stream buffer. -/
def loadChars (s : Str) : Str → Except Failure (Str × Str)
  | [] => .error (parsingError "String parsing error")
  | ch :: rest =>
      if ch = '"' then .ok (s, rest)
      else if ch = '\\' then
        match rest with
        | [] => .error (parsingError "String parsing error")
        | escapedChar :: rest =>
            match unescape escapedChar with
            | some c => loadChars (s ++ [c]) rest
            | none =>
                .error (.parsingError ("Unrecognized escape sequence \\".toList ++ [escapedChar]))
      else if ch = '\n' ∨ ch = '\r' then .error (parsingError "Unexpected end of line")
      else loadChars (s ++ [ch]) rest

def loadString : Input (Node D) := fun input => do
  let (s, rest) ← loadChars [] input.rest
  return (.string s, { input with rest := rest })

def loadBool : Input (Node D) := do
  let s ← loadLiteral
  if s = "true".toList then pure (.bool true)
  else if s = "false".toList then pure (.bool false)
  else throw (.parsingError ("Failed to parse '".toList ++ s ++ "' as bool".toList))

def loadNull : Input (Node D) := do
  let literal ← loadLiteral
  if literal = "null".toList then pure .null
  else throw (.parsingError ("Failed to parse '".toList ++ literal ++ "' as null".toList))

/-- `read_char` of `LoadNumber` -/
def readChar (parsedNum : Str) : Input Str := do
  let parsedNum ← pushBack parsedNum
  if ← IStream.failed then throw (parsingError "Failed to read number from stream")
  return parsedNum

/-- `read_digits` of `LoadNumber` -/
def readDigits (parsedNum : Str) : Input Str := do
  if (← IStream.peek).any Char.isDigit then pushWhile Char.isDigit readChar parsedNum
  else throw (parsingError "A digit is expected")

def readSign (signs : List Char) (parsedNum : Str) : Input Str := do
  if (← IStream.peek).any (· ∈ signs) then readChar parsedNum else pure parsedNum

/-- The integer part of a number. -/
def readInt (parsedNum : Str) : Input Str := do
  if (← IStream.peek) = some '0' then readChar parsedNum else readDigits parsedNum

/-- The fractional part of a number, which may be missing, and `is_int`. -/
def readFraction (parsedNum : Str) : Input (Str × Bool) := do
  if (← IStream.peek) = some '.' then return (← readDigits (← readChar parsedNum), false)
  else return (parsedNum, true)

/-- The exponent of a number after its letter. -/
def readPower (parsedNum : Str) : Input Str := do
  readDigits (← readSign ['+', '-'] parsedNum)

/-- The exponent of a number, which may be missing, and `is_int`. -/
def readExponent (num : Str × Bool) : Input (Str × Bool) := do
  if (← IStream.peek).any (· ∈ ['e', 'E']) then
    return (← readPower (← readChar num.1), false)
  else return num

/-- `std::stoi` after the sign. -/
def stoiDigits (negative : Bool) (text : Str) : Option Int32 :=
  let digits := text.takeWhile Char.isDigit
  let magnitude : ℤ := Nat.ofDigitChars 10 digits 0
  let value := if negative then -magnitude else magnitude
  if digits ≠ [] ∧ -2147483648 ≤ value ∧ value < 2147483648 then some (.ofInt value) else none

/-- `std::stoi`, empty where it throws. -/
def stoi (text : Str) : Option Int32 :=
  match IStream.skipSpace text with
  | [] => none
  | c :: digits =>
      if c = '-' then stoiDigits true digits
      else if c = '+' then stoiDigits false digits
      else stoiDigits false (c :: digits)

/-- The conversion at the end of `LoadNumber`. -/
def toNumber (stod : Str → Option D) (num : Str × Bool) : Input (Node D) :=
  match if num.2 then stoi num.1 else none with
  | some value => pure (.int value)
  | none =>
      match stod num.1 with
      | some value => pure (.double value)
      | none =>
          throw (.parsingError ("Failed to convert ".toList ++ num.1 ++ " to number".toList))

/-- The part of `LoadNumber` that reads: `parsed_num` and `is_int`. -/
def readNumber : Input (Str × Bool) := do
  readExponent (← readFraction (← readInt (← readSign ['-'] [])))

def loadNumber (stod : Str → Option D) : Input (Node D) := do
  toNumber stod (← readNumber)

/-- The end of `LoadArray` and `LoadDict`. -/
def finish (error : String) (node : Node D) : Input (Node D) := do
  if ← IStream.failed then throw (parsingError error)
  return node

def colonExpected (c : Char) : Failure :=
  .parsingError (": is expected but '".toList ++ [c] ++ "' has been found".toList)

def commaExpected (c : Char) : Failure :=
  .parsingError ("',' is expected but '".toList ++ [c] ++ "' has been found".toList)

def duplicateKey (key : Str) : Failure :=
  .parsingError ("Duplicate key '".toList ++ key ++ "' have been found".toList)

/-- `if (c != ',') { input.putback(c); }` -/
def putbackUnlessComma (c : Char) : Input Unit :=
  if c ≠ ',' then IStream.putback c else pure ()

/-- `LoadString(input).AsString()` -/
def loadKey : Input Str := do
  let node : Node D ← loadString
  match node.asString with
  | .ok key => pure key
  | .error failure => throw failure

/-- The colon after a key, and the check that the key is new. A failed read
leaves the quote in `c`. -/
def loadColon (dict : Dict D) (key : Str) : Input Unit := do
  let c ← IStream.extract
  if c ≠ some ':' then throw (colonExpected (c.getD '"'))
  else if (dict.find key).isSome then throw (duplicateKey key)
  else pure ()

mutual

def loadNode (stod : Str → Option D) : ℕ → Input (Node D)
  | 0 => throw .diverges
  | fuel + 1 => do
      match ← IStream.extract with
      | none => throw (parsingError "Unexpected EOF")
      | some c =>
          if c = '[' then loadArray stod fuel []
          else if c = '{' then loadDict stod fuel []
          else if c = '"' then loadString
          else do
            IStream.putback c
            if c = 't' ∨ c = 'f' then loadBool
            else if c = 'n' then loadNull
            else loadNumber stod

def loadArray (stod : Str → Option D) : ℕ → List (Node D) → Input (Node D)
  | 0, _ => throw .diverges
  | fuel + 1, result => do
      match ← IStream.extract with
      | none => finish "Array parsing error" (.array result)
      | some c =>
          if c = ']' then finish "Array parsing error" (.array result)
          else do
            putbackUnlessComma c
            let node ← loadNode stod fuel
            loadArray stod fuel (result ++ [node])

def loadDict (stod : Str → Option D) : ℕ → Dict D → Input (Node D)
  | 0, _ => throw .diverges
  | fuel + 1, dict => do
      match ← IStream.extract with
      | none => finish "Dictionary parsing error" (.dict dict)
      | some c =>
          if c = '}' then finish "Dictionary parsing error" (.dict dict)
          else if c = '"' then do
            let key ← loadKey (D := D)
            loadColon dict key
            let node ← loadNode stod fuel
            loadDict stod fuel (dict.emplace key node)
          else if c ≠ ',' then throw (commaExpected c)
          else loadDict stod fuel dict

end

section Sorted

variable {stod : Str → Option D}

theorem finish_sorted {error : String} {node : Node D} (h : node.Everywhere Node.SortedMembers) :
    Ensures (finish error node) (Node.Everywhere Node.SortedMembers) := by
  refine .after fun failed => ?_
  split
  · exact .bind .throw fun _ h => h
  · exact .pure h

theorem loadString_sorted :
    Ensures (loadString (D := D)) (Node.Everywhere Node.SortedMembers) := by
  intro input node input' h
  obtain ⟨p, -, h⟩ := bind_eq_ok_iff.mp h
  cases h
  exact .leaf rfl trivial

theorem loadBool_sorted : Ensures (loadBool (D := D)) (Node.Everywhere Node.SortedMembers) := by
  refine .after fun s => ?_
  split
  · exact .pure (.leaf rfl trivial)
  · split
    · exact .pure (.leaf rfl trivial)
    · exact .throw

theorem loadNull_sorted : Ensures (loadNull (D := D)) (Node.Everywhere Node.SortedMembers) := by
  refine .after fun s => ?_
  split
  · exact .pure (.leaf rfl trivial)
  · exact .throw

theorem loadNumber_sorted : Ensures (loadNumber stod) (Node.Everywhere Node.SortedMembers) := by
  refine .after fun num => ?_
  unfold toNumber
  split
  · exact .pure (.leaf rfl trivial)
  · split
    · exact .pure (.leaf rfl trivial)
    · exact .throw

theorem loadColon_find {dict : Dict D} {key : Str} :
    Ensures (loadColon dict key) fun _ => dict.find key = none := by
  refine .after fun c => ?_
  split
  · exact .throw
  · split
    · exact .throw
    · rename_i h
      exact .pure (by simpa using h)

/-- What the readers preserve, by the fuel that they have. -/
theorem load_sorted (fuel : ℕ) :
    Ensures (loadNode stod fuel) (Node.Everywhere Node.SortedMembers) ∧
    (∀ result : List (Node D), (∀ node ∈ result, node.Everywhere Node.SortedMembers) →
      Ensures (loadArray stod fuel result) (Node.Everywhere Node.SortedMembers)) ∧
    ∀ dict : Dict D, Node.Everywhere Node.SortedMembers (.dict dict) →
      Ensures (loadDict stod fuel dict) (Node.Everywhere Node.SortedMembers) := by
  induction fuel with
  | zero => exact ⟨.throw, fun _ _ => .throw, fun _ _ => .throw⟩
  | succ fuel ih =>
      obtain ⟨ihNode, ihArray, ihDict⟩ := ih
      refine ⟨?_, fun result hresult => ?_, fun dict hdict => ?_⟩
      · refine .after fun c => ?_
        cases c with
        | none => exact .throw
        | some c =>
            dsimp only
            split
            · exact ihArray [] (by simp)
            · split
              · exact ihDict [] (.intro .nil (by simp [Node.children]))
              · split
                · exact loadString_sorted
                · refine .after fun _ => ?_
                  split
                  · exact loadBool_sorted
                  · split
                    · exact loadNull_sorted
                    · exact loadNumber_sorted
      · have hend : Node.Everywhere Node.SortedMembers (.array result) := .intro trivial hresult
        refine .after fun c => ?_
        cases c with
        | none => exact finish_sorted hend
        | some c =>
            dsimp only
            split
            · exact finish_sorted hend
            · refine .after fun _ => .bind ihNode fun node hnode => ihArray _ ?_
              intro node' h
              rcases List.mem_append.mp h with h | h
              · exact hresult node' h
              · rw [List.mem_singleton.mp h]
                exact hnode
      · refine .after fun c => ?_
        cases c with
        | none => exact finish_sorted hdict
        | some c =>
            dsimp only
            split
            · exact finish_sorted hdict
            · split
              · refine .after fun key => .bind loadColon_find fun _ hfind =>
                  .bind ihNode fun node hnode => ihDict _ ?_
                refine .intro (Dict.Sorted.emplace node hdict.here hfind) fun child hc => ?_
                obtain ⟨member, hm, rfl⟩ := List.mem_map.mp hc
                rcases List.mem_cons.mp ((Dict.emplace_perm node hfind).subset hm) with rfl | hm
                · exact hnode
                · exact hdict.child (List.mem_map_of_mem hm)
              · split
                · exact .throw
                · exact ihDict dict hdict

theorem loadNode_sorted {fuel : ℕ} {input input' : IStream} {node : Node D}
    (h : loadNode stod fuel input = .ok (node, input')) : node.Everywhere Node.SortedMembers :=
  (load_sorted fuel).1 input node input' h

end Sorted

/-- `json::Load` and the stream that it leaves. -/
def load (stod : Str → Option D) (input : IStream) : Except Failure (Document D × IStream) :=
  match h : loadNode stod (2 * input.rest.length + 1) input with
  | .error failure => .error failure
  | .ok (root, input') => .ok (⟨root, loadNode_sorted h⟩, input')

theorem load_eq_ok_iff {stod : Str → Option D} {input input' : IStream} {document : Document D} :
    load stod input = .ok (document, input') ↔
      loadNode stod (2 * input.rest.length + 1) input = .ok (document.root, input') := by
  unfold load
  split
  · rename_i failure h
    simp [h]
  · rename_i root input'' h
    obtain ⟨root', sorted⟩ := document
    simp [h]

theorem load_eq_error_iff {stod : Str → Option D} {input : IStream} {failure : Failure} :
    load stod input = .error failure ↔
      loadNode stod (2 * input.rest.length + 1) input = .error failure := by
  unfold load
  split
  · rename_i failure' h
    simp [h]
  · rename_i root input'' h
    simp [h]

end TransportSystem.Json
