import TransportSystem.Basic
import TransportSystem.Library.Effects

/-!
The part of `std::istream` that `json.cpp` uses, over a string buffer. The flags
matter: a read at the end of the text sets them, and later reads then fail.
-/

namespace TransportSystem

open Library.Effects

structure IStream where
  rest : Str
  eof : Bool
  fail : Bool

/-- A computation that reads from an `std::istream&`. -/
abbrev Input := StateT IStream (Except Failure)

namespace IStream

/-- A stream from which nothing has been read. -/
def ofText (text : Str) : IStream := ⟨text, false, false⟩

def good (input : IStream) : Bool := !input.eof && !input.fail

def isSpace (c : Char) : Bool :=
  c = ' ' || c = '\t' || c = '\n' || c = '\x0b' || c = '\x0c' || c = '\r'

def skipSpace (text : Str) : Str := text.dropWhile isSpace

/-- `!input` -/
def failed : Input Bool := fun input => .ok (input.fail, input)

def peek : Input (Option Char) := fun input =>
  if input.good then
    match input.rest with
    | [] => .ok (none, { input with eof := true })
    | c :: _ => .ok (some c, input)
  else .ok (none, { input with fail := true })

def get : Input (Option Char) := fun input =>
  if input.good then
    match input.rest with
    | [] => .ok (none, { input with eof := true, fail := true })
    | c :: rest => .ok (some c, { input with rest := rest })
  else .ok (none, { input with fail := true })

/-- `input >> c` for a `char`. It gives nothing where it leaves `c` alone. -/
def extract : Input (Option Char) := fun input =>
  if input.good then
    match skipSpace input.rest with
    | [] => .ok (none, ⟨[], true, true⟩)
    | c :: rest => .ok (some c, { input with rest := rest })
  else .ok (none, { input with fail := true })

/-- `input.putback(c)`, which first forgets that the end was seen. -/
def putback (c : Char) : Input Unit := fun input =>
  if input.fail then .ok ((), { input with eof := false })
  else .ok ((), { input with rest := c :: input.rest, eof := false })

/-- The stream stands before `text`. Its flags can be set only at the end. -/
def At (input : IStream) (text : Str) : Prop :=
  input = ofText text ∨ text = [] ∧ input.rest = []

theorem at_ofText (text : Str) : (ofText text).At text := .inl rfl

theorem At.rest_eq {input : IStream} {text : Str} (h : input.At text) : input.rest = text := by
  rcases h with rfl | ⟨rfl, h⟩
  · rfl
  · exact h

theorem At.eq_ofText {input : IStream} {c : Char} {text : Str} (h : input.At (c :: text)) :
    input = ofText (c :: text) := by
  rcases h with rfl | ⟨h, -⟩
  · rfl
  · cases h

/-- A stream at the end of its text gives nothing more, whatever its flags. -/
theorem peek_of_nil {input : IStream} (h : input.At []) :
    ∃ input', peek input = .ok (none, input') ∧ input'.At [] := by
  have hrest := h.rest_eq
  unfold peek
  split
  · exact ⟨{ input with eof := true }, by simp only [hrest], .inr ⟨rfl, hrest⟩⟩
  · exact ⟨{ input with fail := true }, rfl, .inr ⟨rfl, hrest⟩⟩

theorem extract_of_cons {input : IStream} {text rest : Str} {c : Char} (h : input.At text)
    (hc : skipSpace text = c :: rest) : extract input = .ok (some c, ofText rest) := by
  rcases h with rfl | ⟨rfl, -⟩
  · simp only [extract, ofText, good, hc]
    rfl
  · cases hc

theorem extract_of_nil {input : IStream} {text : Str} (h : input.At text)
    (hnil : skipSpace text = []) :
    ∃ input', extract input = .ok (none, input') ∧ input'.fail = true := by
  have hrest := h.rest_eq
  unfold extract
  split
  · exact ⟨⟨[], true, true⟩, by simp only [hrest, hnil], rfl⟩
  · exact ⟨{ input with fail := true }, rfl, rfl⟩

end IStream

/-- What a computation on a stream returns, by the texts before and after it. -/
abbrev Returns {A : Type} (outcome : Except Failure (A × IStream)) (Q : A → Str → Prop) : Prop :=
  Yields IStream.At (· ≠ .diverges) outcome Q

theorem Returns.peek {A : Type} {input : IStream} {text : Str} {f : Option Char → Input A}
    {Q : A → Str → Prop} (h : input.At text)
    (hf : ∀ input', input'.At text → Returns (f text.head? input') Q) :
    Returns ((IStream.peek >>= f) input) Q := by
  cases text with
  | nil =>
      obtain ⟨input', hpeek, hat⟩ := IStream.peek_of_nil h
      exact .bind_of_ok hpeek (hf input' hat)
  | cons c rest =>
      rw [h.eq_ofText]
      exact .bind_of_ok (a := some c) rfl (hf _ (IStream.at_ofText _))

/-- Whitespace before the next character is skipped. -/
theorem Returns.extract {A : Type} {input : IStream} {text : Str} {f : Option Char → Input A}
    {Q : A → Str → Prop} (h : input.At text)
    (hnil : IStream.skipSpace text = [] → ∀ input', input'.fail = true → Returns (f none input') Q)
    (hcons : ∀ c rest, IStream.skipSpace text = c :: rest →
      Returns (f (some c) (IStream.ofText rest)) Q) :
    Returns ((IStream.extract >>= f) input) Q := by
  cases hskip : IStream.skipSpace text with
  | nil =>
      obtain ⟨input', hextract, hfail⟩ := IStream.extract_of_nil h hskip
      exact .bind_of_ok hextract (hnil hskip input' hfail)
  | cons c rest => exact .bind_of_ok (IStream.extract_of_cons h hskip) (hcons c rest hskip)

theorem Returns.pure {A : Type} {input : IStream} {text : Str} (a : A) (h : input.At text) :
    Returns ((Pure.pure a : Input A) input) fun a' rest => a' = a ∧ rest = text :=
  Yields.pure h

end TransportSystem
