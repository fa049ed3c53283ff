import TransportSystem.JsonComplete

namespace TransportSystem.Json

open IStream

variable {D : Type}

/-- The numbers of a `PrintContext`; what goes to its `out` is returned. -/
structure PrintContext where
  indentStep : ℕ := 4
  indent : ℕ := 0

namespace PrintContext

def printIndent (ctx : PrintContext) : Str := List.replicate ctx.indent ' '

def indented (ctx : PrintContext) : PrintContext :=
  ⟨ctx.indentStep, ctx.indentStep + ctx.indent⟩

end PrintContext

/-- One character inside a string. -/
def printChar (c : Char) : Str :=
  if c = '\r' then "\\r".toList
  else if c = '\n' then "\\n".toList
  else if c = '"' ∨ c = '\\' then ['\\', c]
  else [c]

def printString (value : Str) : Str := '"' :: (value.flatMap printChar ++ ['"'])

/-- `out << value` for an `int` -/
def printInt (value : Int32) : Str :=
  if value.toInt < 0 then '-' :: Nat.toDigits 10 value.toInt.natAbs
  else Nat.toDigits 10 value.toInt.natAbs

mutual

/-- `PrintNode` with the overloads of `PrintValue` -/
def printNode (printDouble : D → Str) (ctx : PrintContext) : Node D → Str
  | .null => "null".toList
  | .array nodes =>
      "[\n".toList ++ printItems printDouble ctx.indented true nodes ++
        '\n' :: (ctx.printIndent ++ [']'])
  | .dict nodes =>
      "\x7b\n".toList ++ printMembers printDouble ctx.indented true nodes ++
        '\n' :: (ctx.printIndent ++ ['}'])
  | .bool value => if value then "true".toList else "false".toList
  | .int value => printInt value
  | .double value => printDouble value
  | .string value => printString value

/-- The loop over the items of an array. -/
def printItems (printDouble : D → Str) (ctx : PrintContext) (first : Bool) : List (Node D) → Str
  | [] => []
  | node :: nodes =>
      (if first then [] else ",\n".toList) ++ ctx.printIndent ++ printNode printDouble ctx node ++
        printItems printDouble ctx false nodes

/-- The loop over the members of a dictionary. -/
def printMembers (printDouble : D → Str) (ctx : PrintContext) (first : Bool) :
    List (Str × Node D) → Str
  | [] => []
  | (key, node) :: nodes =>
      (if first then [] else ",\n".toList) ++ ctx.printIndent ++ printString key ++
        ": ".toList ++ printNode printDouble ctx node ++ printMembers printDouble ctx false nodes

end

def print (printDouble : D → Str) (document : Document D) : Str :=
  printNode printDouble {} document.root

theorem written_printString (value : Str) : Written value (value.flatMap printChar) := by
  induction value with
  | nil => exact .nil
  | cons c value ih =>
      rw [List.flatMap_cons, printChar]
      split_ifs with hr hn hescape
      · exact hr ▸ .escape .carriageReturn ih
      · exact hn ▸ .escape .newline ih
      · rcases hescape with rfl | rfl
        · exact .escape .quote ih
        · exact .escape .backslash ih
      · exact .plain (fun h => hescape (.inl h)) (fun h => hescape (.inr h)) hn hr ih

theorem digits_toDigits (n : ℕ) : Digits (Nat.toDigits 10 n) :=
  ⟨Nat.toDigits_ne_nil, fun _ hc => Nat.isDigit_of_mem_toDigits (by decide) (by decide) hc⟩

theorem head_toDigits {n : ℕ} (h : 0 < n) : (Nat.toDigits 10 n).head? ≠ some '0' := by
  induction n using Nat.strong_induction_on with
  | _ n ih =>
      rcases lt_or_ge n 10 with hlt | hge
      · simp [Nat.toDigits_of_lt_base hlt, h.ne']
      · have hdiv : 0 < n / 10 := by omega
        rw [Nat.toDigits_of_base_le (by decide) hge,
          List.head?_append_of_ne_nil _ Nat.toDigits_ne_nil]
        exact ih (n / 10) (by omega) hdiv

def intNumber (value : Int32) : Number where
  sign := if value.toInt < 0 then ['-'] else []
  int := Nat.toDigits 10 value.toInt.natAbs
  frac := []
  exp := []
  sign_ok := by split_ifs <;> simp
  int_ok := by
    rcases Nat.eq_zero_or_pos value.toInt.natAbs with h | h
    · exact .inl (by rw [h, Nat.toDigits_zero])
    · exact .inr ⟨digits_toDigits _, head_toDigits h⟩
  frac_ok := .inl rfl
  exp_ok := .inl rfl

theorem intNumber_text (value : Int32) : (intNumber value).text = printInt value := by
  unfold printInt
  split_ifs with h <;> simp [Number.text, intNumber, h]

theorem intNumber_denotes (stod : Str → Option D) (value : Int32) :
    (intNumber value).Denotes stod (.int value) := by
  refine ⟨rfl, ?_⟩
  have hint : (Nat.ofDigitChars 10 (intNumber value).int 0 : ℤ) = value.toInt.natAbs := by
    simp only [intNumber, Nat.ofDigitChars_ten_toDigits]
  rw [Number.value, hint]
  rcases lt_or_ge value.toInt 0 with h | h
  · rw [if_neg (by simp [intNumber, h])]
    omega
  · rw [if_pos (by simp [intNumber, not_lt.mpr h])]
    omega

theorem white_space : White [' '] := by simp [White, isWhite]

theorem white_indent (ctx : PrintContext) : White ('\n' :: ctx.printIndent) := by
  intro c hc
  rcases List.mem_cons.mp hc with rfl | hc
  · rfl
  · rw [(List.mem_replicate.mp hc).2]
    rfl

theorem white_emptyLine (ctx : PrintContext) : White ('\n' :: '\n' :: ctx.printIndent) :=
  List.forall_mem_cons.mpr ⟨rfl, white_indent ctx⟩

section Containers

variable {strings : Str → Str → Prop} {stod : Str → Option D} {printDouble : D → Str}
  {ctx : PrintContext}

/-- The items of an array, from the end of the line before the first to the
whitespace after the last. -/
theorem grammarOf_printItems {w : Str} (hw : White w) (node : Node D) (nodes : List (Node D))
    (h : ∀ node' ∈ node :: nodes,
      GrammarOf strings stod (.value node') (printNode printDouble ctx node')) :
    GrammarOf strings stod (.elements (node :: nodes))
      ('\n' :: (printItems printDouble ctx true (node :: nodes) ++ w)) := by
  induction nodes generalizing node with
  | nil =>
      have hitem := GrammarOf.element (.padded (white_indent ctx) (h node (by simp)) hw)
      simpa [printItems] using hitem
  | cons node' nodes ih =>
      have hrest := ih node' fun node'' hm => h node'' (List.mem_cons_of_mem node hm)
      have hitems :=
        GrammarOf.elements (.padded (white_indent ctx) (h node (by simp)) white_nil) hrest
      simpa [printItems] using hitems

theorem grammarOf_printMember {w : Str} (hw : White w) {key : Str} {node : Node D}
    (hkey : strings key (key.flatMap printChar))
    (h : GrammarOf strings stod (.value node) (printNode printDouble ctx node)) :
    GrammarOf strings stod (.member key node)
      ('\n' :: (ctx.printIndent ++ (printString key ++
        (": ".toList ++ (printNode printDouble ctx node ++ w))))) := by
  have hmember := GrammarOf.member (white_indent ctx) hkey white_nil
    (.padded white_space h hw)
  simpa [printString] using hmember

theorem grammarOf_printMembers {w : Str} (hw : White w) (member : Str × Node D)
    (nodes : List (Str × Node D))
    (hkeys : ∀ m ∈ member :: nodes, strings m.1 (m.1.flatMap printChar))
    (h : ∀ m ∈ member :: nodes,
      GrammarOf strings stod (.value m.2) (printNode printDouble ctx m.2)) :
    GrammarOf strings stod (.members (member :: nodes))
      ('\n' :: (printMembers printDouble ctx true (member :: nodes) ++ w)) := by
  induction nodes generalizing member with
  | nil =>
      have hmember := grammarOf_printMember hw (hkeys member (by simp)) (h member (by simp))
      simpa [printMembers] using GrammarOf.lastMember hmember
  | cons member' nodes ih =>
      have hrest := ih member' (fun m hm => hkeys m (List.mem_cons_of_mem member hm))
        fun m hm => h m (List.mem_cons_of_mem member hm)
      have hmember := grammarOf_printMember white_nil (hkeys member (by simp)) (h member (by simp))
      simpa [printMembers] using GrammarOf.members hmember hrest

/-- What is printed for a node whose strings are printed as `strings` has them, if it is
so for each `double` inside. -/
theorem grammarOf_printNode_of_doubles {node : Node D}
    (hd : node.Everywhere (Node.Doubles fun value =>
      GrammarOf strings stod (.value (.double value)) (printDouble value)))
    (hs : node.Everywhere Node.SortedMembers)
    (hstrings : node.Everywhere (Node.Strings fun s => strings s (s.flatMap printChar)))
    (ctx : PrintContext) :
    GrammarOf strings stod (.value node) (printNode printDouble ctx node) := by
  induction hd generalizing ctx with
  | @intro node hdouble _ ih =>
      have ih' (child : Node D) (hc : child ∈ node.children) :=
        ih child hc (hs.child hc) (hstrings.child hc)
      cases node with
      | null => exact .null
      | bool value => exact .bool value
      | int value =>
          have hnumber : GrammarOf strings stod _ _ := .number (intNumber_denotes stod value)
          rwa [intNumber_text] at hnumber
      | double value => exact hdouble
      | string value => exact .string hstrings.here
      | array nodes =>
          cases nodes with
          | nil => simpa [printNode, printItems] using GrammarOf.emptyArray (white_emptyLine ctx)
          | cons node nodes =>
              have hitems := grammarOf_printItems (white_indent ctx) node nodes fun node' hm =>
                ih' node' hm ctx.indented
              simpa [printNode] using GrammarOf.array hitems
      | dict nodes =>
          cases nodes with
          | nil => simpa [printNode, printMembers] using GrammarOf.emptyObject (white_emptyLine ctx)
          | cons member nodes =>
              have hmembers := grammarOf_printMembers (white_indent ctx) member nodes
                hstrings.here fun m hm => ih' m.2 (List.mem_map_of_mem hm) ctx.indented
              simpa [printNode] using GrammarOf.object hmembers hs.here (.refl _)

/-- What is printed for a node without a `double`, whose strings are printed as `strings`
has them. -/
theorem grammarOf_printNode {node : Node D} (hd : node.Everywhere Node.NotDouble)
    (hs : node.Everywhere Node.SortedMembers)
    (hstrings : node.Everywhere (Node.Strings fun s => strings s (s.flatMap printChar)))
    (ctx : PrintContext) :
    GrammarOf strings stod (.value node) (printNode printDouble ctx node) := by
  refine grammarOf_printNode_of_doubles (hd.imp fun node hnot => ?_) hs hstrings ctx
  cases node with
  | double value => cases hnot
  | _ => trivial

/-- What is printed for a node without a `double` is a text of the grammar. -/
theorem grammar_printNode {node : Node D} (hd : node.Everywhere Node.NotDouble)
    (hs : node.Everywhere Node.SortedMembers) (ctx : PrintContext) :
    Grammar stod (.value node) (printNode printDouble ctx node) := by
  refine grammarOf_printNode hd hs (hd.imp fun node _ => ?_) ctx
  exact Node.strings_of_forall written_printString node

end Containers

/-- `Load` undoes `Print` on documents without a `double`. -/
theorem load_print {stod : Str → Option D} {printDouble : D → Str} {document : Document D}
    (h : document.root.Everywhere Node.NotDouble) :
    ∃ input, load stod (ofText (print printDouble document)) = .ok (document, input) := by
  have hvalue : Grammar stod (.value document.root) (print printDouble document) :=
    grammar_printNode h document.sorted {}
  obtain ⟨⟨root, sorted⟩, input, hload, hroot⟩ := exists_load_of_value hvalue
  obtain ⟨root', sorted'⟩ := document
  cases hroot
  exact ⟨input, hload⟩

theorem load_print_lines :
    ∃ document : Document Double,
      document.root = .dict [("a\t\"\n".toList, .array []), ("b".toList, .int (-2147483648))] ∧
      ∃ input, load (fun _ => none) (ofText (print (fun _ => []) document)) =
        .ok (document, input) := by
  let root : Node Double :=
    .dict [("a\t\"\n".toList, .array []), ("b".toList, .int (-2147483648))]
  have hchildren (p : Node Double → Prop) (harray : p (.array []))
      (hint : p (.int (-2147483648))) : ∀ child ∈ root.children, child.Everywhere p := by
    rintro child (_ | ⟨_, _ | ⟨_, ⟨⟩⟩⟩)
    · exact .leaf rfl harray
    · exact .leaf rfl hint
  have hsorted : Dict.Sorted (D := Double)
      [("a\t\"\n".toList, .array []), ("b".toList, .int (-2147483648))] := by decide
  exact ⟨⟨root, .intro hsorted (hchildren _ trivial trivial)⟩, rfl,
    load_print (.intro trivial (hchildren _ trivial trivial))⟩

end TransportSystem.Json
