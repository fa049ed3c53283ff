import TransportSystem.JsonReads

namespace TransportSystem.Json

open Library.Effects IStream

variable {D : Type}

/-- A `ParsingError`, or the end of the fuel. -/
def ParsingOnly (failure : Failure) : Prop :=
  failure = .diverges ∨ ∃ what, failure = .parsingError what

theorem parsingOnly (what : Str) : ParsingOnly (.parsingError what) := Or.inr ⟨what, rfl⟩

section Fails

variable {stod : Str → Option D} {s : Str}

theorem peek_fails : Fails IStream.peek ParsingOnly := by
  refine .of_ok fun input => ?_
  unfold IStream.peek
  split
  · cases input.rest <;> exact ⟨_, rfl⟩
  · exact ⟨_, rfl⟩

theorem get_fails : Fails IStream.get ParsingOnly := by
  refine .of_ok fun input => ?_
  unfold IStream.get
  split
  · cases input.rest <;> exact ⟨_, rfl⟩
  · exact ⟨_, rfl⟩

theorem extract_fails : Fails IStream.extract ParsingOnly := by
  refine .of_ok fun input => ?_
  unfold IStream.extract
  split
  · cases skipSpace input.rest <;> exact ⟨_, rfl⟩
  · exact ⟨_, rfl⟩

theorem failed_fails : Fails IStream.failed ParsingOnly :=
  .of_ok fun _ => ⟨_, rfl⟩

theorem putback_fails (c : Char) : Fails (IStream.putback c) ParsingOnly := by
  refine .of_ok fun input => ?_
  unfold IStream.putback
  split <;> exact ⟨_, rfl⟩

theorem pushWhile_fails {p : Char → Bool} {push : Str → Input Str}
    (hpush : ∀ s, Fails (push s) ParsingOnly) : Fails (pushWhile p push s) ParsingOnly := by
  have hloop (fuel : ℕ) : ∀ s, Fails (pushLoop p push fuel s) ParsingOnly := by
    induction fuel with
    | zero => exact fun s => .throw (Or.inl rfl)
    | succ fuel ih =>
        refine fun s => peek_fails.bind fun c => ?_
        split
        · exact (hpush s).bind ih
        · exact .pure
  exact fun input => hloop _ s input

theorem pushBack_fails : Fails (pushBack s) ParsingOnly :=
  get_fails.bind fun _ => .pure

theorem readChar_fails : Fails (readChar s) ParsingOnly := by
  refine pushBack_fails.bind fun s' => failed_fails.bind fun failed => ?_
  split
  · exact .bind (.throw (parsingOnly _)) fun _ => .pure
  · exact .pure

theorem readDigits_fails : Fails (readDigits s) ParsingOnly := by
  refine peek_fails.bind fun c => ?_
  split
  · exact pushWhile_fails fun _ => readChar_fails
  · exact .throw (parsingOnly _)

theorem readSign_fails {signs : List Char} : Fails (readSign signs s) ParsingOnly := by
  refine peek_fails.bind fun c => ?_
  split
  · exact readChar_fails
  · exact .pure

theorem readInt_fails : Fails (readInt s) ParsingOnly := by
  refine peek_fails.bind fun c => ?_
  split
  · exact readChar_fails
  · exact readDigits_fails

theorem readFraction_fails : Fails (readFraction s) ParsingOnly := by
  refine peek_fails.bind fun c => ?_
  split
  · exact readChar_fails.bind fun _ => readDigits_fails.bind fun _ => .pure
  · exact .pure

theorem readExponent_fails {num : Str × Bool} : Fails (readExponent num) ParsingOnly := by
  refine peek_fails.bind fun c => ?_
  split
  · exact readChar_fails.bind fun _ =>
      Fails.bind (readSign_fails.bind fun _ => readDigits_fails) fun _ => .pure
  · exact .pure

theorem loadNumber_fails : Fails (loadNumber stod) ParsingOnly := by
  have hread : Fails readNumber ParsingOnly :=
    readSign_fails.bind fun _ => readInt_fails.bind fun _ => readFraction_fails.bind fun _ =>
      readExponent_fails
  refine hread.bind fun num => ?_
  unfold toNumber
  split
  · exact .pure
  · split
    · exact .pure
    · exact .throw (parsingOnly _)

theorem loadLiteral_fails : Fails loadLiteral ParsingOnly :=
  pushWhile_fails fun _ => pushBack_fails

theorem loadBool_fails : Fails (loadBool (D := D)) ParsingOnly := by
  refine loadLiteral_fails.bind fun s => ?_
  split
  · exact .pure
  · split
    · exact .pure
    · exact .throw (parsingOnly _)

theorem loadNull_fails : Fails (loadNull (D := D)) ParsingOnly := by
  refine loadLiteral_fails.bind fun s => ?_
  split
  · exact .pure
  · exact .throw (parsingOnly _)

theorem loadChars_fails {acc text : Str} {failure : Failure}
    (h : loadChars acc text = .error failure) : ParsingOnly failure := by
  fun_induction loadChars acc text with
  | case2 => cases h
  | case1 | case3 | case5 | case6 =>
      cases h
      exact parsingOnly _
  | case4 _ _ _ _ _ _ ih => exact ih h
  | case7 _ _ _ _ _ _ ih => exact ih h

theorem loadString_fails : Fails (loadString (D := D)) ParsingOnly := by
  intro input failure h
  rcases bind_eq_error_iff.mp h with h | ⟨p, -, h⟩
  · exact loadChars_fails h
  · cases h

/-- A string is what `LoadString` returns, so that `AsString` does not throw. -/
theorem loadString_isString :
    Ensures (loadString (D := D)) fun node => ∃ s, node = .string s := by
  intro input node input' h
  obtain ⟨p, -, h⟩ := bind_eq_ok_iff.mp h
  cases h
  exact ⟨p.1, rfl⟩

theorem loadKey_fails : Fails (loadKey (D := D)) ParsingOnly := by
  refine loadString_fails.bind_of loadString_isString ?_
  rintro _ ⟨s, rfl⟩
  exact .pure

theorem loadColon_fails {dict : Dict D} {key : Str} : Fails (loadColon dict key) ParsingOnly := by
  refine extract_fails.bind fun c => ?_
  split
  · exact .throw (parsingOnly _)
  · split
    · exact .throw (parsingOnly _)
    · exact .pure

theorem finish_fails {error : String} {node : Node D} :
    Fails (finish error node) ParsingOnly := by
  refine failed_fails.bind fun failed => ?_
  split
  · exact .bind (.throw (parsingOnly _)) fun _ => .pure
  · exact .pure

theorem load_fails (fuel : ℕ) :
    Fails (loadNode stod fuel) ParsingOnly ∧
      (∀ result, Fails (loadArray stod fuel result) ParsingOnly) ∧
      ∀ dict, Fails (loadDict stod fuel dict) ParsingOnly := by
  induction fuel with
  | zero =>
      exact ⟨.throw (Or.inl rfl), fun _ => .throw (Or.inl rfl), fun _ => .throw (Or.inl rfl)⟩
  | succ fuel ih =>
      obtain ⟨ihNode, ihArray, ihDict⟩ := ih
      refine ⟨?_, fun result => ?_, fun dict => ?_⟩
      · refine extract_fails.bind fun c => ?_
        cases c with
        | none => exact .throw (parsingOnly _)
        | some c =>
            dsimp only
            split_ifs
            · exact ihArray []
            · exact ihDict []
            · exact loadString_fails
            · exact (putback_fails c).bind fun _ => loadBool_fails
            · exact (putback_fails c).bind fun _ => loadNull_fails
            · exact (putback_fails c).bind fun _ => loadNumber_fails
      · refine extract_fails.bind fun c => ?_
        cases c with
        | none => exact finish_fails
        | some c =>
            dsimp only
            split_ifs
            · exact finish_fails
            · have hputback : Fails (putbackUnlessComma c) ParsingOnly := by
                unfold putbackUnlessComma
                split_ifs
                · exact putback_fails c
                · exact .pure
              exact hputback.bind fun _ => ihNode.bind fun node => ihArray _
      · refine extract_fails.bind fun c => ?_
        cases c with
        | none => exact finish_fails
        | some c =>
            dsimp only
            split_ifs
            · exact finish_fails
            · exact loadKey_fails.bind fun key => loadColon_fails.bind fun _ =>
                ihNode.bind fun node => ihDict _
            · exact .throw (parsingOnly _)
            · exact ihDict dict

end Fails

/-- A reader returns and leaves fewer unread bytes, or throws a `ParsingError`. -/
def Advances {A : Type} (outcome : Except Failure (A × IStream)) (input : IStream) : Prop :=
  (∃ a input', outcome = .ok (a, input') ∧ input'.rest.length < input.rest.length ∧
    input'.At input'.rest) ∨ ∃ what, outcome = .error (.parsingError what)

/-- One turn of a loop ends it so, or goes on with fewer unread bytes. -/
def Turns {A S : Type} (loop : S → Input A) (outcome : Except Failure (A × IStream))
    (input : IStream) : Prop :=
  Advances outcome input ∨
    ∃ state input', outcome = loop state input' ∧ input'.rest.length < input.rest.length ∧
      input'.At input'.rest

section Advances

variable {stod : Str → Option D} {fuel : ℕ} {input : IStream} {rest : Str}

/-- What is returned with fewer bytes left, and what may be thrown. -/
theorem Advances.of_returns {A : Type} {m : Input A} {Q : A → Str → Prop} (hat : input.At rest)
    (hreturns : Returns (m input) Q) (hfails : Fails m ParsingOnly)
    (hlt : ∀ a rest', Q a rest' → rest'.length < rest.length) : Advances (m input) input := by
  cases hm : m input with
  | ok p =>
      obtain ⟨rest', hat', hread⟩ := hreturns.sound p.1 p.2 hm
      refine Or.inl ⟨p.1, p.2, rfl, ?_⟩
      rw [hat.rest_eq, hat'.rest_eq]
      exact ⟨hlt p.1 rest' hread, hat'⟩
  | error failure =>
      rcases hfails input failure hm with rfl | ⟨what, rfl⟩
      · exact absurd rfl (hreturns.fails _ hm)
      · exact Or.inr ⟨what, rfl⟩

theorem loadNode_advances (hat : input.At rest) (hfuel : 2 * rest.length + 1 ≤ fuel) :
    Advances (loadNode stod fuel input) input :=
  .of_returns hat ((load_step stod fuel).1 input rest hat hfuel) (load_fails fuel).1
    fun _ _ hread => hread.length_lt

theorem loadKey_advances (t : Str) : Advances (loadKey (D := D) (ofText t)) (ofText t) := by
  refine .of_returns (at_ofText t) (loadKey_returns t) loadKey_fails ?_
  rintro key rest' ⟨x, -, rfl⟩
  simp only [List.length_append, List.length_cons]
  omega

theorem loadColon_advances {dict : Dict D} {key : Str} (hat : input.At rest) :
    Advances (loadColon dict key input) input := by
  refine .of_returns hat (loadColon_returns hat) loadColon_fails fun _ rest' h => ?_
  have hlength := length_le_of_skipSpace h.2
  rwa [List.length_cons] at hlength

/-- A reader in the middle of a turn. -/
theorem Turns.bind {A B S : Type} {loop : S → Input A} {m : Input B} {f : B → Input A}
    {input' : IStream} (hm : Advances (m input') input')
    (hle : input'.rest.length ≤ input.rest.length)
    (hf : ∀ b input'', input''.rest.length < input.rest.length → input''.At input''.rest →
      Turns loop (f b input'') input) : Turns loop ((m >>= f) input') input := by
  rcases hm with ⟨b, input'', hm, hlt, hat⟩ | ⟨what, hm⟩
  · rw [run_bind_of_ok hm]
    exact hf b input'' (lt_of_lt_of_le hlt hle) hat
  · rw [run_bind_of_error hm]
    exact Or.inl (Or.inr ⟨what, rfl⟩)

theorem finish_turns {S : Type} {loop : S → Input (Node D)} {error : String} {node : Node D}
    {t : Str} (h : t.length < input.rest.length) :
    Turns loop (finish error node (ofText t)) input :=
  Or.inl (Or.inl ⟨node, ofText t, rfl, h, at_ofText t⟩)

/-- A turn begins with a character, or ends the loop at the end of the text. -/
theorem turns_of_extract {S : Type} {loop : S → Input (Node D)} {f : Option Char → Input (Node D)}
    (hat : input.At rest)
    (hnone : ∀ input', input'.fail = true → ∃ what, f none input' = .error (.parsingError what))
    (hsome : ∀ c t, t.length < input.rest.length → Turns loop (f (some c) (ofText t)) input) :
    Turns loop ((IStream.extract >>= f) input) input := by
  cases hskip : skipSpace rest with
  | nil =>
      obtain ⟨input', hextract, hfail⟩ := extract_of_nil hat hskip
      rw [run_bind_of_ok hextract]
      exact Or.inl (Or.inr (hnone input' hfail))
  | cons c t =>
      have hlength := length_le_of_skipSpace hskip
      rw [List.length_cons, ← hat.rest_eq] at hlength
      rw [run_bind_of_ok (extract_of_cons hat hskip)]
      exact hsome c t hlength

theorem loadArray_turns (hat : input.At rest) (hfuel : 2 * rest.length + 1 ≤ fuel)
    (result : List (Node D)) :
    Turns (loadArray stod fuel) (loadArray stod (fuel + 1) result input) input := by
  rw [loadArray]
  rw [← hat.rest_eq] at hfuel
  refine turns_of_extract hat (fun input' hfail => ⟨_, finish_of_fail hfail⟩) fun c t hlength => ?_
  dsimp only
  split_ifs with hclose
  · exact finish_turns hlength
  · rw [run_bind_of_ok (putbackUnlessComma_ofText c t)]
    have htext : (if c = ',' then t else c :: t).length ≤ input.rest.length := by
      split_ifs
      · exact hlength.le
      · exact hlength
    refine Turns.bind (loadNode_advances (at_ofText _) (by omega)) htext ?_
    exact fun node input' hlt hat' => Or.inr ⟨_, input', rfl, hlt, hat'⟩

theorem loadDict_turns (hat : input.At rest) (hfuel : 2 * rest.length + 1 ≤ fuel)
    (dict : Dict D) :
    Turns (loadDict stod fuel) (loadDict stod (fuel + 1) dict input) input := by
  rw [loadDict]
  rw [← hat.rest_eq] at hfuel
  refine turns_of_extract hat (fun input' hfail => ⟨_, finish_of_fail hfail⟩) fun c t hlength => ?_
  dsimp only
  split_ifs with hclose hquote hcomma
  · exact finish_turns hlength
  · refine Turns.bind (loadKey_advances t) (Nat.le_of_lt hlength) fun key input₁ hlt₁ hat₁ => ?_
    refine Turns.bind (loadColon_advances hat₁) (Nat.le_of_lt hlt₁) fun _ input₂ hlt₂ hat₂ => ?_
    refine Turns.bind (loadNode_advances hat₂ (by omega)) (Nat.le_of_lt hlt₂) ?_
    exact fun node input₃ hlt₃ hat₃ => Or.inr ⟨_, input₃, rfl, hlt₃, hat₃⟩
  · exact Or.inl (Or.inr ⟨_, rfl⟩)
  · exact Or.inr ⟨dict, ofText t, rfl, hlength, at_ofText t⟩

end Advances

/-- `Load` returns a document or throws a `ParsingError`, on every text. Every `LoadNode`
that returns leaves fewer unread bytes than it found, and so does every turn of the loops of
`LoadArray` and `LoadDict`, wherever they stand and whatever they have collected. -/
theorem load_ends (stod : Str → Option D) (text : Str) :
    ((∃ document input, load stod (ofText text) = .ok (document, input)) ∨
      ∃ what, load stod (ofText text) = .error (.parsingError what)) ∧
    ∀ input rest fuel, input.At rest → 2 * rest.length + 1 ≤ fuel →
      Advances (loadNode stod fuel input) input ∧
      (∀ result, Turns (loadArray stod fuel) (loadArray stod (fuel + 1) result input) input) ∧
      ∀ dict, Turns (loadDict stod fuel) (loadDict stod (fuel + 1) dict input) input := by
  refine ⟨?_, fun input rest fuel hat hfuel => ⟨loadNode_advances hat hfuel,
    loadArray_turns hat hfuel, loadDict_turns hat hfuel⟩⟩
  cases hload : load stod (ofText text) with
  | ok p => exact Or.inl ⟨p.1, p.2, rfl⟩
  | error failure =>
      rcases (load_fails _).1 _ failure (load_eq_error_iff.mp hload) with rfl | ⟨what, rfl⟩
      · exact absurd hload (load_ne_diverges text)
      · exact Or.inr ⟨what, rfl⟩

/-- An array that is cut off, read from its first element on. -/
theorem load_ends_truncated :
    Advances (loadNode (fun _ => (none : Option ℚ)) 5 (ofText "[1".toList)) (ofText "[1".toList) :=
  ((load_ends (fun _ => none) []).2 _ "[1".toList 5 (at_ofText _) (by decide)).1

end TransportSystem.Json
