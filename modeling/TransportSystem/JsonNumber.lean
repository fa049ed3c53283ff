import TransportSystem.JsonLoad
import TransportSystem.Library.Lists

namespace TransportSystem.Json

open Library.Effects Library.Lists IStream

variable {D : Type}

/-- One digit or more. -/
def Digits (s : Str) : Prop := s ≠ [] ∧ ∀ c ∈ s, c.isDigit = true

/-- An exponent without its letter. -/
def Power (s : Str) : Prop :=
  ∃ sign digits, (sign = [] ∨ sign = ['+'] ∨ sign = ['-']) ∧ Digits digits ∧ s = sign ++ digits

theorem ne_of_isDigit {c : Char} (hc : c.isDigit = true) (c' : Char) (hc' : c'.isDigit = false) :
    c ≠ c' := by
  rintro rfl
  rw [hc] at hc'
  cases hc'

/-- A number of JSON in its parts. The last two may be empty. -/
structure Number where
  sign : Str
  int : Str
  frac : Str
  exp : Str
  sign_ok : sign = [] ∨ sign = ['-']
  int_ok : int = ['0'] ∨ Digits int ∧ int.head? ≠ some '0'
  frac_ok : frac = [] ∨ ∃ digits, Digits digits ∧ frac = '.' :: digits
  exp_ok : exp = [] ∨ ∃ e power, (e = 'e' ∨ e = 'E') ∧ Power power ∧ exp = e :: power

namespace Number

def text (n : Number) : Str := n.sign ++ (n.int ++ (n.frac ++ n.exp))

def isInt (n : Number) : Bool := n.frac.isEmpty && n.exp.isEmpty

/-- The integer before the fraction and the exponent. -/
def value (n : Number) : ℤ :=
  if n.sign = [] then Nat.ofDigitChars 10 n.int 0 else -Nat.ofDigitChars 10 n.int 0

/-- The number continues with this character, if it comes next. -/
def continues (n : Number) (c : Char) : Bool :=
  c.isDigit && !(n.int = ['0'] && n.isInt) || c = '.' && n.isInt ||
    (c = 'e' || c = 'E') && n.exp.isEmpty

/-- The number ends where `rest` begins. -/
def Stops (n : Number) (rest : Str) : Prop := rest.head?.any n.continues = false

/-- The value of a number: an `int` if it is written as an integer and fits,
and else what `std::stod` makes of it. -/
def Denotes (stod : Str → Option D) (n : Number) : Node D → Prop
  | .int value => n.isInt = true ∧ n.value = value.toInt
  | .double value =>
      (n.isInt = true → ¬ (-2147483648 ≤ n.value ∧ n.value < 2147483648)) ∧
        stod n.text = some value
  | _ => False

end Number

section Loops

variable {p : Char → Bool} {push : Str → Input Str}

theorem pushLoop_returns (hpush : ∀ s c rest, push s (ofText (c :: rest)) =
      .ok (s ++ [c], ofText rest)) (fuel : ℕ) {s : Str} {input : IStream} {text : Str}
    (hat : input.At text) (hfuel : text.length < fuel) :
    Returns (pushLoop p push fuel s input) fun s' rest =>
      s' = s ++ text.takeWhile p ∧ rest = text.dropWhile p := by
  induction fuel generalizing s input text with
  | zero => omega
  | succ fuel ih =>
      refine Returns.peek hat fun input' hat' => ?_
      cases text with
      | nil => simpa using Returns.pure s hat'
      | cons c rest =>
          rw [hat'.eq_ofText]
          cases hc : p c with
          | false => simpa [hc] using Returns.pure s (at_ofText (c :: rest))
          | true =>
              simp only [List.head?_cons, Option.any_some, hc, if_true]
              refine .bind_of_ok (hpush s c rest) ?_
              refine (ih (at_ofText rest) (by simpa using hfuel)).congr fun s' rest' => ?_
              simp [hc]

theorem pushWhile_returns (hpush : ∀ s c rest, push s (ofText (c :: rest)) =
      .ok (s ++ [c], ofText rest)) {s : Str} {input : IStream} {text : Str}
    (hat : input.At text) :
    Returns (pushWhile p push s input) fun s' rest =>
      s' = s ++ text.takeWhile p ∧ rest = text.dropWhile p :=
  pushLoop_returns hpush _ hat (by rw [hat.rest_eq]; omega)

end Loops

theorem pushBack_cons (s : Str) (c : Char) (rest : Str) :
    pushBack s (ofText (c :: rest)) = .ok (s ++ [c], ofText rest) := rfl

theorem readChar_cons (s : Str) (c : Char) (rest : Str) :
    readChar s (ofText (c :: rest)) = .ok (s ++ [c], ofText rest) := rfl

section Parts

variable {s : Str} {input : IStream} {text : Str}

theorem readDigits_returns (hat : input.At text) :
    Returns (readDigits s input) fun s' rest => ∃ x, text = x ++ rest ∧ s' = s ++ x ∧
      Digits x ∧ rest.head?.any Char.isDigit = false := by
  refine Returns.peek hat fun input' hat' => ?_
  split
  · rename_i hdigit
    refine (pushWhile_returns readChar_cons hat').congr fun s' rest => ?_
    constructor
    · rintro ⟨rfl, rfl⟩
      obtain ⟨htext, hdigits, hend⟩ :=
        append_eq_span_iff (p := Char.isDigit) (l := text).mpr ⟨rfl, rfl⟩
      refine ⟨_, htext, rfl, ⟨fun hnil => ?_, hdigits⟩, hend⟩
      rw [hnil, List.nil_append] at htext
      rw [← htext, hdigit] at hend
      cases hend
    · rintro ⟨x, htext, rfl, hx, hend⟩
      obtain ⟨rfl, hrest⟩ := append_eq_span_iff.mp ⟨htext, hx.2, hend⟩
      exact ⟨rfl, hrest⟩
  · rename_i hdigit
    refine .throw (by simp [parsingError]) ?_
    rintro s' rest ⟨x, rfl, -, ⟨hne, hx⟩, -⟩
    obtain ⟨c, x, rfl⟩ := List.exists_cons_of_ne_nil hne
    exact hdigit (by simpa using hx c (by simp))

theorem readSign_returns (signs : List Char) (hat : input.At text) :
    Returns (readSign signs s input) fun s' rest => ∃ x, text = x ++ rest ∧ s' = s ++ x ∧
      ((∃ c ∈ signs, x = [c]) ∨ x = [] ∧ rest.head?.any (· ∈ signs) = false) := by
  refine Returns.peek hat fun input' hat' => ?_
  split
  · rename_i hsign
    cases text with
    | nil => cases hsign
    | cons c rest =>
        have hc : c ∈ signs := by simpa using hsign
        rw [hat'.eq_ofText, readChar_cons]
        refine (Yields.ok (at_ofText rest)).congr fun s' rest' => ?_
        constructor
        · rintro ⟨rfl, rfl⟩
          exact ⟨[c], rfl, rfl, .inl ⟨c, hc, rfl⟩⟩
        · rintro ⟨x, htext, rfl, ⟨c', -, rfl⟩ | ⟨rfl, hend⟩⟩
          · cases htext
            exact ⟨rfl, rfl⟩
          · rw [← List.nil_append rest', ← htext, hsign] at hend
            cases hend
  · rename_i hsign
    refine (Returns.pure s hat').congr fun s' rest => ?_
    constructor
    · rintro ⟨rfl, rfl⟩
      exact ⟨[], rfl, (List.append_nil _).symm, .inr ⟨rfl, by simpa using hsign⟩⟩
    · rintro ⟨x, rfl, rfl, ⟨c, hc, rfl⟩ | ⟨rfl, -⟩⟩
      · exact absurd (by simpa using hc) hsign
      · exact ⟨List.append_nil s, rfl⟩

theorem readInt_returns (hat : input.At text) :
    Returns (readInt s input) fun s' rest => ∃ x, text = x ++ rest ∧ s' = s ++ x ∧
      (x = ['0'] ∨ Digits x ∧ x.head? ≠ some '0' ∧ rest.head?.any Char.isDigit = false) := by
  refine Returns.peek hat fun input' hat' => ?_
  split
  · rename_i hzero
    obtain ⟨rest, rfl⟩ : ∃ rest, text = '0' :: rest := by
      cases text with
      | nil => cases hzero
      | cons c rest =>
          cases hzero
          exact ⟨rest, rfl⟩
    rw [hat'.eq_ofText, readChar_cons]
    refine (Yields.ok (at_ofText rest)).congr fun s' rest' => ?_
    constructor
    · rintro ⟨rfl, rfl⟩
      exact ⟨['0'], rfl, rfl, .inl rfl⟩
    · rintro ⟨x, htext, rfl, rfl | ⟨⟨hne, -⟩, hx, -⟩⟩
      · cases htext
        exact ⟨rfl, rfl⟩
      · obtain ⟨c, x, rfl⟩ := List.exists_cons_of_ne_nil hne
        cases htext
        exact absurd rfl hx
  · rename_i hzero
    refine (readDigits_returns hat').congr fun s' rest => ?_
    constructor
    · rintro ⟨x, rfl, rfl, hx, hend⟩
      refine ⟨x, rfl, rfl, .inr ⟨hx, fun hhead => hzero ?_, hend⟩⟩
      rw [List.head?_append, hhead]
      rfl
    · rintro ⟨x, rfl, rfl, rfl | ⟨hx, -, hend⟩⟩
      · exact absurd rfl hzero
      · exact ⟨x, rfl, rfl, hx, hend⟩

/-- A part that may be missing: the character that begins it, and what `read`
takes after that. -/
theorem optional_returns (begins : Option Char → Prop) [DecidablePred begins]
    (hnone : ¬ begins none) (read : Str → Input Str) {Body : Str → Prop}
    (hread : ∀ s input text, input.At text → Returns (read s input) fun s' rest => ∃ x,
      text = x ++ rest ∧ s' = s ++ x ∧ Body x ∧ rest.head?.any Char.isDigit = false)
    (s : Str) (isInt : Bool) (hat : input.At text) :
    Returns ((do
        if begins (← IStream.peek) then return (← read (← readChar s), false)
        else return (s, isInt) : Input (Str × Bool)) input) fun num rest => ∃ x,
      text = x ++ rest ∧ num = (s ++ x, isInt && x.isEmpty) ∧
        ((∃ c body, begins (some c) ∧ Body body ∧ x = c :: body ∧
            rest.head?.any Char.isDigit = false) ∨
          x = [] ∧ ¬ begins rest.head?) := by
  refine Returns.peek hat fun input' hat' => ?_
  split
  · rename_i hbegins
    cases text with
    | nil => exact absurd hbegins hnone
    | cons c rest =>
        rw [hat'.eq_ofText]
        refine .bind_of_ok (readChar_cons s c rest) ?_
        refine (Yields.bind (hread _ _ _ (at_ofText rest)) fun s' input'' rest' hat'' _ =>
          Returns.pure (s', false) hat'').congr fun num rest' => ?_
        constructor
        · rintro ⟨s', rest', ⟨x, rfl, rfl, hx, hend⟩, rfl, rfl⟩
          exact ⟨c :: x, rfl, by simp, .inl ⟨c, x, hbegins, hx, rfl, hend⟩⟩
        · rintro ⟨x, htext, rfl, ⟨c', body, -, hbody, rfl, hend⟩ | ⟨rfl, hend⟩⟩
          · cases htext
            exact ⟨_, _, ⟨body, rfl, rfl, hbody, hend⟩, by simp, rfl⟩
          · rw [← List.nil_append rest', ← htext] at hend
            exact absurd hbegins hend
  · rename_i hbegins
    refine (Returns.pure (s, isInt) hat').congr fun num rest => ?_
    constructor
    · rintro ⟨rfl, rfl⟩
      exact ⟨[], rfl, by simp, .inr ⟨rfl, hbegins⟩⟩
    · rintro ⟨x, rfl, rfl, ⟨c, body, hc, -, rfl, -⟩ | ⟨rfl, -⟩⟩
      · exact absurd hc hbegins
      · exact ⟨by simp, rfl⟩

theorem readFraction_returns (hat : input.At text) :
    Returns (readFraction s input) fun num rest => ∃ x, text = x ++ rest ∧
      num = (s ++ x, x.isEmpty) ∧
      ((∃ digits, Digits digits ∧ x = '.' :: digits ∧ rest.head?.any Char.isDigit = false) ∨
        x = [] ∧ rest.head? ≠ some '.') := by
  have hpart := optional_returns (· = some '.') (by simp) readDigits
    (fun s input text => readDigits_returns) s true hat
  refine hpart.congr fun num rest => ?_
  simp only [Option.some.injEq, exists_and_left, exists_eq_left, Bool.true_and, ne_eq]

theorem readPower_returns (hat : input.At text) :
    Returns (readPower s input) fun s' rest => ∃ x, text = x ++ rest ∧ s' = s ++ x ∧
      Power x ∧ rest.head?.any Char.isDigit = false := by
  refine (Yields.bind (f := fun s' => readDigits s') (readSign_returns ['+', '-'] hat)
    fun s' input' rest hat' _ => readDigits_returns hat').congr fun s' rest => ?_
  constructor
  · rintro ⟨s₁, rest₁, ⟨sign, rfl, rfl, hsign⟩, digits, rfl, rfl, hdigits, hend⟩
    refine ⟨sign ++ digits, by simp, by simp, ⟨sign, digits, ?_, hdigits, rfl⟩, hend⟩
    rcases hsign with ⟨c, hc, rfl⟩ | ⟨rfl, -⟩
    · simpa using hc
    · exact .inl rfl
  · rintro ⟨x, rfl, rfl, ⟨sign, digits, hsign, hdigits, rfl⟩, hend⟩
    refine ⟨s ++ sign, digits ++ rest, ⟨sign, by simp, rfl, ?_⟩, digits, rfl, by simp, hdigits,
      hend⟩
    rcases hsign with rfl | rfl | rfl
    · refine .inr ⟨rfl, ?_⟩
      obtain ⟨c, digits, rfl⟩ := List.exists_cons_of_ne_nil hdigits.1
      have hc := hdigits.2 c (by simp)
      have hplus : c ≠ '+' := ne_of_isDigit hc _ rfl
      have hminus : c ≠ '-' := ne_of_isDigit hc _ rfl
      simp [hplus, hminus]
    · exact .inl ⟨'+', by simp, rfl⟩
    · exact .inl ⟨'-', by simp, rfl⟩

theorem readExponent_returns {isInt : Bool} (hat : input.At text) :
    Returns (readExponent (s, isInt) input) fun num rest => ∃ x, text = x ++ rest ∧
      num = (s ++ x, isInt && x.isEmpty) ∧
      ((∃ e power, (e = 'e' ∨ e = 'E') ∧ Power power ∧ x = e :: power ∧
          rest.head?.any Char.isDigit = false) ∨
        x = [] ∧ rest.head?.any (· ∈ ['e', 'E']) = false) := by
  have hpart := optional_returns (fun c => c.any (· ∈ ['e', 'E']) = true) (by simp) readPower
    (fun s input text => readPower_returns) s isInt hat
  refine hpart.congr fun num rest => ?_
  simp

end Parts

namespace Number

theorem digits_int (n : Number) : Digits n.int := by
  rcases n.int_ok with h | ⟨h, -⟩
  · rw [h]
    exact ⟨by simp, by simp⟩
  · exact h

/-- The characters of a number. -/
theorem forall_mem_text (n : Number) {P : Char → Prop} (hdigit : ∀ c, c.isDigit = true → P c)
    (hother : ∀ c ∈ ['-', '+', '.', 'e', 'E'], P c) : ∀ c ∈ n.text, P c := by
  have hdigits : ∀ {s : Str}, Digits s → ∀ c ∈ s, P c := fun h c hc => hdigit c (h.2 c hc)
  have hsign : ∀ c ∈ n.sign, P c := by
    rcases n.sign_ok with h | h
    · simp [h]
    · simpa [h] using hother '-' (by simp)
  have hfrac : ∀ c ∈ n.frac, P c := by
    rcases n.frac_ok with h | ⟨digits, hfrac, h⟩
    · simp [h]
    · rw [h, List.forall_mem_cons]
      exact ⟨hother '.' (by simp), hdigits hfrac⟩
  have hexp : ∀ c ∈ n.exp, P c := by
    rcases n.exp_ok with h | ⟨e, power, he, ⟨sign, digits, hsign, hpower, rfl⟩, h⟩
    · simp [h]
    · rw [h, List.forall_mem_cons, List.forall_mem_append]
      refine ⟨?_, ?_, hdigits hpower⟩
      · rcases he with rfl | rfl
        · exact hother 'e' (by simp)
        · exact hother 'E' (by simp)
      · rcases hsign with rfl | rfl | rfl
        · simp
        · simpa using hother '+' (by simp)
        · simpa using hother '-' (by simp)
  simp only [text, List.forall_mem_append]
  exact ⟨hsign, hdigits n.digits_int, hfrac, hexp⟩

theorem exists_int_eq_cons (n : Number) :
    ∃ c int, n.int = c :: int ∧ c.isDigit = true := by
  obtain ⟨hne, hdigits⟩ := n.digits_int
  obtain ⟨c, int, hint⟩ := List.exists_cons_of_ne_nil hne
  exact ⟨c, int, hint, hdigits c (by simp [hint])⟩

theorem head_not_sign (n : Number) (rest : Str) :
    (n.int ++ rest).head?.any (· ∈ ['-']) = false := by
  obtain ⟨c, int, hint, hc⟩ := n.exists_int_eq_cons
  have hsign : c ≠ '-' := ne_of_isDigit hc _ rfl
  simp [hint, hsign]

theorem exists_text_eq_cons (n : Number) :
    ∃ c rest, n.text = c :: rest ∧ (c = '-' ∨ c.isDigit = true) := by
  obtain ⟨c, int, hint, hc⟩ := n.exists_int_eq_cons
  rcases n.sign_ok with h | h
  · exact ⟨c, int ++ (n.frac ++ n.exp), by simp [text, h, hint], .inr hc⟩
  · exact ⟨'-', n.int ++ (n.frac ++ n.exp), by simp [text, h], .inl rfl⟩

theorem head_ne {c : Char} (hc : c = '-' ∨ c.isDigit = true) (d : Char) (hd : d ≠ '-')
    (hd' : d.isDigit = false) : c ≠ d := by
  rcases hc with rfl | hc
  · exact hd.symm
  · exact ne_of_isDigit hc d hd'

/-- What follows the fraction begins with the letter of the exponent, if there is one. -/
theorem head_exp_append (n : Number) (p : Char → Bool) (he : p 'e' = false) (hE : p 'E' = false)
    {rest : Str} (hrest : n.exp = [] → rest.head?.any p = false) :
    (n.exp ++ rest).head?.any p = false := by
  rcases n.exp_ok with h | ⟨e, power, rfl | rfl, -, h⟩
  · rw [h]
    exact hrest h
  · simp [h, he]
  · simp [h, hE]

/-- What follows the integer part does not go on with digits. -/
theorem head_frac_append (n : Number) {rest : Str}
    (hrest : n.isInt = true → rest.head?.any Char.isDigit = false) :
    (n.frac ++ (n.exp ++ rest)).head?.any Char.isDigit = false := by
  rcases n.frac_ok with h | ⟨digits, -, h⟩
  · rw [h]
    exact n.head_exp_append Char.isDigit rfl rfl fun hexp => hrest (by simp [isInt, h, hexp])
  · rw [h]
    rfl

theorem isInt_iff (n : Number) : n.isInt = true ↔ n.frac = [] ∧ n.exp = [] := by
  simp [isInt]

theorem stops_iff (n : Number) (rest : Str) :
    n.Stops rest ↔ (n.exp = [] → rest.head?.any (· ∈ ['e', 'E']) = false) ∧
      (n.isInt = true → rest.head? ≠ some '.') ∧
      (¬ (n.int = ['0'] ∧ n.isInt = true) → rest.head?.any Char.isDigit = false) := by
  cases rest with
  | nil => simp [Stops]
  | cons c rest =>
      simp only [Stops, continues, List.head?_cons, Option.any_some]
      grind

end Number

/-- What is read of a number: the longest number at the beginning of the text. -/
theorem readNumber_returns {input : IStream} {text : Str} (hat : input.At text) :
    Returns (readNumber input) fun num rest => ∃ n : Number, text = n.text ++ rest ∧
      n.Stops rest ∧ num = (n.text, n.isInt) := by
  refine (Yields.bind
    (f := fun sign => readInt sign >>= fun int => readFraction int >>= readExponent)
    (readSign_returns ['-'] hat) fun sign input₁ rest₁ hat₁ _ =>
      Yields.bind (f := fun int => readFraction int >>= readExponent) (readInt_returns hat₁)
        fun int input₂ rest₂ hat₂ _ => Yields.bind (f := readExponent) (readFraction_returns hat₂)
          fun frac input₃ rest₃ hat₃ _ => readExponent_returns hat₃).congr fun num rest => ?_
  constructor
  · rintro ⟨sign, _, ⟨_, rfl, rfl, hsign⟩, _, _, ⟨int, rfl, rfl, hint⟩,
      _, _, ⟨frac, rfl, rfl, hfrac⟩, exp, rfl, rfl, hexp⟩
    have sign_ok : sign = [] ∨ sign = ['-'] := by
      rcases hsign with ⟨c, hc, rfl⟩ | ⟨rfl, -⟩
      · exact .inr (by simpa using hc)
      · exact .inl rfl
    refine ⟨⟨sign, int, frac, exp, sign_ok, hint.imp_right fun h => ⟨h.1, h.2.1⟩, ?_, ?_⟩,
      ?_, ?_, ?_⟩
    · rcases hfrac with ⟨digits, hdigits, rfl, -⟩ | ⟨rfl, -⟩
      · exact .inr ⟨digits, hdigits, rfl⟩
      · exact .inl rfl
    · rcases hexp with ⟨e, power, he, hpower, rfl, -⟩ | ⟨rfl, -⟩
      · exact .inr ⟨e, power, he, hpower, rfl⟩
      · exact .inl rfl
    · simp [Number.text]
    · rw [Number.stops_iff]
      rcases hexp with ⟨e, power, -, -, rfl, hend⟩ | ⟨rfl, hend⟩
      · simp [Number.isInt, hend]
      · rcases hfrac with ⟨digits, -, rfl, hend'⟩ | ⟨rfl, hend'⟩
        · exact ⟨fun _ => hend, by simp [Number.isInt], fun _ => hend'⟩
        · refine ⟨fun _ => hend, fun _ => hend', fun hint' => ?_⟩
          rcases hint with rfl | ⟨-, -, hend''⟩
          · exact absurd ⟨rfl, rfl⟩ hint'
          · exact hend''
    · simp [Number.text, Number.isInt]
  · rintro ⟨n, rfl, hstops, rfl⟩
    obtain ⟨hexp, hdot, hdigit⟩ := (n.stops_iff rest).mp hstops
    refine ⟨n.sign, n.int ++ (n.frac ++ (n.exp ++ rest)), ⟨n.sign, by simp [Number.text], rfl, ?_⟩,
      _, n.frac ++ (n.exp ++ rest), ⟨n.int, rfl, rfl, ?_⟩, _, n.exp ++ rest, ⟨n.frac, rfl, rfl, ?_⟩,
      n.exp, rfl, by simp [Number.text, Number.isInt], ?_⟩
    · rcases n.sign_ok with h | h
      · exact .inr ⟨h, n.head_not_sign _⟩
      · exact .inl ⟨'-', by simp, h⟩
    · refine n.int_ok.imp_right fun h => ⟨h.1, h.2, n.head_frac_append fun _ => hdigit ?_⟩
      exact fun hzero => h.2 (by rw [hzero.1]; rfl)
    · rcases n.frac_ok with hfrac | ⟨digits, hdigits, hfrac⟩
      · refine .inr ⟨hfrac, ?_⟩
        rcases n.exp_ok with hexp' | ⟨e, power, he, -, hexp'⟩
        · rw [hexp']
          exact hdot (n.isInt_iff.mpr ⟨hfrac, hexp'⟩)
        · rw [hexp']
          rcases he with rfl | rfl <;> simp
      · refine .inl ⟨digits, hdigits, hfrac, n.head_exp_append Char.isDigit rfl rfl fun _ => ?_⟩
        exact hdigit fun hzero => by simp [Number.isInt, hfrac] at hzero
    · rcases n.exp_ok with hexp' | ⟨e, power, he, hpower, hexp'⟩
      · exact .inr ⟨hexp', hexp hexp'⟩
      · exact .inl ⟨e, power, he, hpower, hexp', hdigit fun hzero => by
          simp [Number.isInt, hexp'] at hzero⟩

theorem isSpace_of_isDigit {c : Char} (h : c.isDigit = true) : isSpace c = false := by
  cases hspace : isSpace c with
  | false => rfl
  | true =>
      simp only [isSpace, Bool.or_eq_true, decide_eq_true_eq] at hspace
      rcases hspace with ((((rfl | rfl) | rfl) | rfl) | rfl) | rfl <;> cases h

theorem stoi_text {n : Number} (h : n.isInt = true) :
    stoi n.text =
      if -2147483648 ≤ n.value ∧ n.value < 2147483648 then some (.ofInt n.value) else none := by
  obtain ⟨hfrac, hexp⟩ := n.isInt_iff.mp h
  have htext : n.text = n.sign ++ n.int := by simp [Number.text, hfrac, hexp]
  have hdigits : n.int.takeWhile Char.isDigit = n.int :=
    (append_eq_span_iff.mp ⟨(List.append_nil n.int).symm, n.digits_int.2, rfl⟩).1.symm
  have hne : n.int ≠ [] := n.digits_int.1
  rcases n.sign_ok with hsign | hsign
  · obtain ⟨c, int, hint, hc⟩ := n.exists_int_eq_cons
    have hskip : skipSpace n.text = c :: int := by
      simp [htext, hsign, hint, skipSpace, isSpace_of_isDigit hc]
    have hminus : c ≠ '-' := ne_of_isDigit hc _ rfl
    have hplus : c ≠ '+' := ne_of_isDigit hc _ rfl
    simp only [stoi, hskip, if_neg hminus, if_neg hplus]
    rw [← hint]
    simp [stoiDigits, hdigits, hne, Number.value, hsign]
  · have hskip : skipSpace n.text = '-' :: n.int := by
      simp [htext, hsign, skipSpace, isSpace]
    simp only [stoi, hskip, if_true]
    simp [stoiDigits, hdigits, hne, Number.value, hsign]

theorem stoi_eq_some_iff {n : Number} {value : Int32} :
    (if n.isInt then stoi n.text else none) = some value ↔
      n.isInt = true ∧ n.value = value.toInt := by
  cases hint : n.isInt with
  | false => simp
  | true =>
      rw [if_pos rfl, stoi_text hint]
      have hmin := Int32.le_toInt value
      have hmax := Int32.toInt_lt value
      constructor
      · intro h
        split at h
        · rename_i hrange
          cases h
          exact ⟨rfl, (Int32.toInt_ofInt_of_le hrange.1 hrange.2).symm⟩
        · cases h
      · rintro ⟨-, h⟩
        rw [h, if_pos ⟨hmin, hmax⟩, Int32.ofInt_toInt]

theorem stoi_eq_none_iff {n : Number} :
    (if n.isInt then stoi n.text else none) = none ↔
      (n.isInt = true → ¬ (-2147483648 ≤ n.value ∧ n.value < 2147483648)) := by
  cases hint : n.isInt with
  | false => simp
  | true =>
      rw [if_pos rfl, stoi_text hint]
      split
      · rename_i h
        simp [h]
      · rename_i h
        simp [h]

/-- The nodes that `toNumber` returns. -/
def Converts (stod : Str → Option D) (num : Str × Bool) : Node D → Prop
  | .int value => (if num.2 then stoi num.1 else none) = some value
  | .double value => (if num.2 then stoi num.1 else none) = none ∧ stod num.1 = some value
  | _ => False

theorem converts_iff {stod : Str → Option D} {n : Number} {node : Node D} :
    Converts stod (n.text, n.isInt) node ↔ n.Denotes stod node := by
  cases node with
  | int value => exact stoi_eq_some_iff
  | double value => exact and_congr_left fun _ => stoi_eq_none_iff
  | _ => exact Iff.rfl

theorem toNumber_returns {stod : Str → Option D} {num : Str × Bool} {input : IStream}
    {text : Str} (hat : input.At text) :
    Returns (toNumber stod num input) fun node rest =>
      Converts stod num node ∧ rest = text := by
  unfold toNumber
  cases hstoi : (if num.2 then stoi num.1 else none) with
  | some value =>
      refine (Returns.pure (Node.int value) hat).congr fun node rest => and_congr_left fun _ => ?_
      constructor
      · rintro rfl
        exact hstoi
      · intro hnode
        cases node with
        | int value' => rw [Option.some.inj (hstoi.symm.trans hnode)]
        | double value' => cases hstoi.symm.trans hnode.1
        | _ => cases hnode
  | none =>
      cases hstod : stod num.1 with
      | some value =>
          refine (Returns.pure (Node.double value) hat).congr fun node rest =>
            and_congr_left fun _ => ?_
          constructor
          · rintro rfl
            exact ⟨hstoi, hstod⟩
          · intro hnode
            cases node with
            | int value' => cases hstoi.symm.trans hnode
            | double value' => rw [Option.some.inj (hstod.symm.trans hnode.2)]
            | _ => cases hnode
      | none =>
          refine .throw (by simp) ?_
          rintro node rest ⟨hnode, -⟩
          cases node with
          | int value => cases hstoi.symm.trans hnode
          | double value => cases hstod.symm.trans hnode.2
          | _ => cases hnode

theorem loadNumber_returns {stod : Str → Option D} {input : IStream} {text : Str}
    (hat : input.At text) :
    Returns (loadNumber stod input) fun node rest => ∃ n : Number, text = n.text ++ rest ∧
      n.Stops rest ∧ n.Denotes stod node := by
  refine (Yields.bind (f := toNumber stod) (readNumber_returns hat)
    fun num input' rest hat' _ => toNumber_returns hat').congr fun node rest => ?_
  constructor
  · rintro ⟨_, rest, ⟨n, htext, hstops, rfl⟩, hnode, rfl⟩
    exact ⟨n, htext, hstops, converts_iff.mp hnode⟩
  · rintro ⟨n, htext, hstops, hnode⟩
    exact ⟨_, rest, ⟨n, htext, hstops, rfl⟩, converts_iff.mpr hnode, rfl⟩

end TransportSystem.Json
