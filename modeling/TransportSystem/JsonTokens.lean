import TransportSystem.JsonComplete

/-!
The tokens of a text, and a condition on neighbouring tokens. It looks at the
text alone, from left to right, and knows nothing of how brackets match.
-/

namespace TransportSystem.Json

open IStream

/-- `foreign` is whitespace that is not whitespace of JSON. A word is a longest
run of other characters outside strings. -/
inductive Token
  | opening
  | closing
  | comma
  | colon
  | string
  | word (text : Str)
  | foreign
  deriving DecidableEq

inductive Mode
  | between
  | string
  | escape
  | word (text : Str)

def isWordChar (c : Char) : Bool :=
  !(isSpace c || c ∈ ['[', '{', ']', '}', ',', ':', '"'])

/-- What a character is that begins a token, and how the text goes on after it. -/
def begins (c : Char) : List Token × Mode :=
  if isWordChar c then ([], .word [c])
  else if isWhite c then ([], .between)
  else if c = '[' ∨ c = '{' then ([.opening], .between)
  else if c = ']' ∨ c = '}' then ([.closing], .between)
  else if c = ',' then ([.comma], .between)
  else if c = ':' then ([.colon], .between)
  else if c = '"' then ([], .string)
  else ([.foreign], .between)

def lex : Mode → Str → List Token
  | .word text, [] => [.word text]
  | _, [] => []
  | .between, c :: rest => (begins c).1 ++ lex (begins c).2 rest
  | .string, c :: rest =>
      if c = '"' then .string :: lex .between rest
      else if c = '\\' then lex .escape rest
      else lex .string rest
  | .escape, _ :: rest => lex .string rest
  | .word text, c :: rest =>
      if isWordChar c then lex (.word (text ++ [c])) rest
      else .word text :: ((begins c).1 ++ lex (begins c).2 rest)

def tokens (text : Str) : List Token := lex .between text

namespace Token

def endsValue : Token → Bool
  | .closing | .string | .word _ => true
  | _ => false

def startsValue : Token → Bool
  | .opening | .string | .word _ => true
  | _ => false

/-- Neighbours that the grammar allows: no comma after an opening bracket or a
comma, no comma before a closing bracket, and no value directly after a value. -/
def follows : Token → Token → Bool
  | .opening, .comma => false
  | .comma, .comma => false
  | .comma, .closing => false
  | a, b => !(a.endsValue && b.startsValue)

/-- A word is one literal or one number. -/
def Proper : Token → Prop
  | .word text =>
      text ∈ ["null".toList, "true".toList, "false".toList] ∨ ∃ n : Number, n.text = text
  | .foreign => False
  | _ => True

end Token

/-- All tokens up to the bracket that closes the last of `depth` open ones are
proper and follow each other properly, the first of them after `a`. -/
def Tidy : Token → ℕ → List Token → Prop
  | _, _, [] => True
  | a, depth, b :: rest =>
      b.Proper ∧ a.follows b = true ∧
        if b = .opening then Tidy b (depth + 1) rest
        else if b = .closing then depth ≤ 1 ∨ Tidy b (depth - 1) rest
        else Tidy b depth rest

/-- The condition on a text: at the top of it there is no whitespace foreign to
JSON, an array or an object is tidy, and the characters before the first
delimiter are one number if they do not begin a string or a literal. -/
def Clean (text : Str) : Prop :=
  White (text.takeWhile isSpace) ∧
    match skipSpace text with
    | [] => True
    | c :: rest =>
        if c = '[' ∨ c = '{' then Tidy .opening 1 (tokens rest)
        else if c = '"' ∨ c.isAlpha then True
        else ∃ n : Number, n.text = (c :: rest).takeWhile fun c => !isDelimiter c

example : tokens "[01, \x7b\"a\\\"b\":-1e5\x7d".toList =
    [.opening, .word ['0', '1'], .comma, .opening, .string, .colon, .word "-1e5".toList,
      .closing] := by decide

theorem lex_cons_of_not_word {c : Char} (h : isWordChar c = false) (w rest : Str) :
    lex (.word w) (c :: rest) = .word w :: tokens (c :: rest) := by
  simp [tokens, lex, h]

theorem tokens_white {w : Str} (h : White w) (t : Str) : tokens (w ++ t) = tokens t := by
  induction w with
  | nil => rfl
  | cons c w ih =>
      have hc := h c (by simp)
      have hbegins : begins c = ([], .between) := by
        simp [begins, hc, isWordChar, isSpace_of_isWhite hc]
      have hrest := ih fun c' hc' => h c' (by simp [hc'])
      simpa [tokens, lex, hbegins] using hrest

theorem tokens_string {s x : Str} (h : Written s x) (t : Str) :
    tokens ('"' :: (x ++ '"' :: t)) = .string :: tokens t := by
  have hlex : lex .string (x ++ '"' :: t) = .string :: tokens t := by
    induction h with
    | nil => rfl
    | plain hquote hbackslash _ _ _ ih => simpa [lex, hquote, hbackslash] using ih
    | escape he _ ih => simpa [lex] using ih
  exact hlex

theorem tokens_word {w t : Str} (hne : w ≠ []) (hw : ∀ c ∈ w, isWordChar c = true)
    (ht : t.head?.any isWordChar = false) : tokens (w ++ t) = .word w :: tokens t := by
  have hlex (acc w : Str) (hw : ∀ c ∈ w, isWordChar c = true) :
      lex (.word acc) (w ++ t) = .word (acc ++ w) :: tokens t := by
    induction w generalizing acc with
    | nil =>
        cases t with
        | nil => simp [lex, tokens]
        | cons c t => simpa using lex_cons_of_not_word (by simpa using ht) acc t
    | cons c w ih =>
        have hrest := ih (acc ++ [c]) fun c' hc' => hw c' (by simp [hc'])
        simpa [lex, hw c (by simp)] using hrest
  obtain ⟨c, w, rfl⟩ := List.exists_cons_of_ne_nil hne
  have hc := hw c (by simp)
  have hrest := hlex [c] w fun c' hc' => hw c' (by simp [hc'])
  simpa [tokens, lex, begins, hc] using hrest

end TransportSystem.Json
