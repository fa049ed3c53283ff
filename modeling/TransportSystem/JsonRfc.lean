import TransportSystem.JsonClean
import TransportSystem.JsonPrint

namespace TransportSystem.Json

variable {D : Type}

/-- The bytes of a code point. -/
def utf8Char (c : Char) : Str := (String.utf8EncodeChar c).map fun b => Char.ofNat b.toNat

/-- The value of a hexadecimal digit. -/
def hexDigit (c : Char) : Option ℕ :=
  if c.isDigit then some (c.toNat - '0'.toNat)
  else if 'a' ≤ c ∧ c ≤ 'f' then some (c.toNat - 'a'.toNat + 10)
  else if 'A' ≤ c ∧ c ≤ 'F' then some (c.toNat - 'A'.toNat + 10)
  else none

/-- The four digits after `\u` and their value. -/
inductive HexQuad : Str → ℕ → Prop
  | intro {a b c d : Char} {i j k l : ℕ} : hexDigit a = some i → hexDigit b = some j →
      hexDigit c = some k → hexDigit d = some l →
      HexQuad [a, b, c, d] (((i * 16 + j) * 16 + k) * 16 + l)

/-- The escapes of the standard that have a letter of their own. -/
inductive RfcEscape : Char → Char → Prop
  | quote : RfcEscape '"' '"'
  | backslash : RfcEscape '\\' '\\'
  | slash : RfcEscape '/' '/'
  | backspace : RfcEscape 'b' '\x08'
  | formFeed : RfcEscape 'f' '\x0c'
  | newline : RfcEscape 'n' '\n'
  | carriageReturn : RfcEscape 'r' '\r'
  | tab : RfcEscape 't' '\t'

/-- The bytes of a string of the standard, and how they are written between its quotes: in
UTF-8, no character below a space raw, a code point outside the first plane escaped as two
surrogates. -/
inductive RfcWritten : Str → Str → Prop
  | nil : RfcWritten [] []
  | plain {c : Char} {s x : Str} : ' ' ≤ c → c ≠ '"' → c ≠ '\\' → RfcWritten s x →
      RfcWritten (utf8Char c ++ s) (utf8Char c ++ x)
  | escape {e c : Char} {s x : Str} : RfcEscape e c → RfcWritten s x →
      RfcWritten (c :: s) ('\\' :: e :: x)
  | unicode {c : Char} {quad s x : Str} : HexQuad quad c.toNat → RfcWritten s x →
      RfcWritten (utf8Char c ++ s) ('\\' :: 'u' :: (quad ++ x))
  | surrogates {c : Char} {high low s x : Str} {h l : ℕ} : HexQuad high (0xD800 + h) →
      HexQuad low (0xDC00 + l) → h < 0x400 → l < 0x400 → c.toNat = 0x10000 + h * 0x400 + l →
      RfcWritten s x →
      RfcWritten (utf8Char c ++ s) ('\\' :: 'u' :: (high ++ '\\' :: 'u' :: (low ++ x)))

/-- A text of the grammar of the standard that denotes the node. -/
def RfcText (stod : Str → Option D) (node : Node D) (text : Str) : Prop :=
  GrammarOf RfcWritten stod (.padded node) text

/-- Bytes that are the code points of some text in UTF-8. -/
def ValidUtf8 (s : Str) : Prop := ∃ t : List Char, s = t.flatMap utf8Char

/-- A character below a space that `PrintString` does not escape. -/
def rawControl (c : Char) : Bool := c < ' ' && c ≠ '\n' && c ≠ '\r'

/-- No character of a string is left raw although the standard wants it escaped. -/
def NoRawControl (s : Str) : Prop := ∀ c ∈ s, rawControl c = false

theorem any_rawControl_iff {s : Str} : s.any rawControl = false ↔ NoRawControl s := by
  simp [NoRawControl]

theorem space_le_iff {c : Char} : ' ' ≤ c ↔ 32 ≤ c.toNat := by
  rw [Char.le_def, UInt32.le_iff_toNat_le]
  rfl

theorem ne_of_toNat {c c' : Char} (h : c'.toNat < c.toNat) : c ≠ c' := by
  rintro rfl
  exact lt_irrefl _ h

theorem utf8Char_of_lt {c : Char} (h : c.toNat < 128) : utf8Char c = [c] := by
  have hlt : c.val.toNat ≤ 0x7f := Nat.le_of_lt_succ h
  have hbyte : (UInt8.ofNat c.val.toNat).toNat = c.toNat := by
    rw [UInt8.toNat_ofNat', Nat.mod_eq_of_lt (by omega)]
    rfl
  rw [utf8Char, String.utf8EncodeChar]
  simp only [if_pos hlt, List.map_cons, List.map_nil, hbyte, Char.ofNat_toNat]

theorem le_toNat_ofNat {n : ℕ} (h : 128 ≤ n) (h' : n < 256) : 128 ≤ (UInt8.ofNat n).toNat := by
  rw [UInt8.toNat_ofNat', Nat.mod_eq_of_lt h']
  exact h

theorem le_of_mem_utf8EncodeChar {c : Char} {b : UInt8} (h : 128 ≤ c.toNat)
    (hb : b ∈ String.utf8EncodeChar c) : 128 ≤ b.toNat := by
  have hge : ¬ c.val.toNat ≤ 0x7f := not_le.mpr (Nat.lt_of_succ_le h)
  rw [String.utf8EncodeChar] at hb
  simp only [if_neg hge] at hb
  split_ifs at hb <;> simp only [List.mem_cons, List.not_mem_nil, or_false] at hb
  · rcases hb with rfl | rfl <;> exact le_toNat_ofNat (by omega) (by omega)
  · rcases hb with rfl | rfl | rfl <;> exact le_toNat_ofNat (by omega) (by omega)
  · rcases hb with rfl | rfl | rfl | rfl <;> exact le_toNat_ofNat (by omega) (by omega)

theorem le_of_mem_utf8Char {c b : Char} (h : 128 ≤ c.toNat) (hb : b ∈ utf8Char c) :
    128 ≤ b.toNat := by
  obtain ⟨byte, hbyte, rfl⟩ := List.mem_map.mp hb
  have hlt : byte.toNat < 256 := byte.toNat_lt
  rw [Char.ofNat, dif_pos (Or.inl (by omega))]
  exact le_of_mem_utf8EncodeChar h hbyte

/-- A character that stands for itself inside a string, in the standard as well as in its
scan. -/
def Plain (c : Char) : Prop := ' ' ≤ c ∧ c ≠ '"' ∧ c ≠ '\\'

theorem plain_of_le {c : Char} (h : 128 ≤ c.toNat) : Plain c :=
  ⟨space_le_iff.mpr (by omega), ne_of_toNat (lt_of_lt_of_le (by decide) h),
    ne_of_toNat (lt_of_lt_of_le (by decide) h)⟩

theorem Plain.utf8Char {c : Char} (h : Plain c) : ∀ b ∈ utf8Char c, Plain b := by
  rcases lt_or_ge c.toNat 128 with hlt | hge
  · rw [utf8Char_of_lt hlt]
    simpa using h
  · exact fun b hb => plain_of_le (le_of_mem_utf8Char hge hb)

theorem plain_of_digit {c : Char} (h : '0' ≤ c) (hc : c ≠ '\\') : Plain c := by
  have h0 : '0'.toNat ≤ c.toNat := h
  exact ⟨space_le_iff.mpr (le_trans (by decide) h0),
    ne_of_toNat (lt_of_lt_of_le (by decide) h0), hc⟩

theorem plain_of_hexDigit {c : Char} {n : ℕ} (h : hexDigit c = some n) : Plain c := by
  unfold hexDigit at h
  split_ifs at h with hdigit hlower hupper
  · rw [Char.isDigit, Bool.and_eq_true, decide_eq_true_eq] at hdigit
    exact plain_of_digit hdigit.1 (ne_of_isDigit (by simpa [Char.isDigit] using hdigit) _ rfl)
  · exact plain_of_digit (le_trans (by decide) hlower.1)
      (ne_of_toNat (lt_of_lt_of_le (by decide) hlower.1))
  · exact plain_of_digit (le_trans (by decide) hupper.1)
      (ne_of_toNat (lt_of_le_of_lt hupper.2 (by decide))).symm

theorem HexQuad.plain {quad : Str} {n : ℕ} (h : HexQuad quad n) : ∀ c ∈ quad, Plain c := by
  cases h with
  | intro ha hb hc hd =>
      simp only [List.forall_mem_cons]
      exact ⟨plain_of_hexDigit ha, plain_of_hexDigit hb, plain_of_hexDigit hc,
        plain_of_hexDigit hd, by simp⟩

/-- Whether a character below a space stands inside a string of a text. -/
def controls : Mode → Str → Bool
  | _, [] => false
  | .string, c :: rest =>
      c < ' ' || controls (if c = '"' then .between else if c = '\\' then .escape else .string) rest
  | .escape, _ :: rest => controls .string rest
  | _, c :: rest => controls (if c = '"' then .string else .between) rest

theorem controls_between_cons (c : Char) (t : Str) :
    controls .between (c :: t) = controls (if c = '"' then .string else .between) t := rfl

theorem controls_between {w : Str} (h : '"' ∉ w) (t : Str) :
    controls .between (w ++ t) = controls .between t := by
  induction w with
  | nil => rfl
  | cons c w ih =>
      rw [List.mem_cons, not_or] at h
      rw [List.cons_append, controls_between_cons, if_neg (Ne.symm h.1), ih h.2]

theorem controls_string_of_plain {w : Str} (h : ∀ c ∈ w, Plain c) (t : Str) :
    controls .string (w ++ t) = controls .string t := by
  induction w with
  | nil => rfl
  | cons c w ih =>
      obtain ⟨⟨hspace, hquote, hbackslash⟩, hw⟩ := List.forall_mem_cons.mp h
      rw [List.cons_append, controls, if_neg hquote, if_neg hbackslash, ih hw]
      simp [not_lt.mpr hspace]

theorem controls_escape (e : Char) (t : Str) :
    controls .string ('\\' :: e :: t) = controls .string t := rfl

/-- A string of the standard has none. -/
theorem RfcWritten.controls {s x : Str} (h : RfcWritten s x) (t : Str) :
    controls .string (x ++ '"' :: t) = controls .between t := by
  induction h with
  | nil => rfl
  | plain hspace hquote hbackslash _ ih =>
      have hplain : Plain _ := ⟨hspace, hquote, hbackslash⟩
      rw [List.append_assoc, controls_string_of_plain hplain.utf8Char, ih]
  | escape _ _ ih => exact ih
  | unicode hquad _ ih =>
      rw [List.cons_append, List.cons_append, controls_escape, List.append_assoc,
        controls_string_of_plain hquad.plain, ih]
  | surrogates hhigh hlow _ _ _ _ ih =>
      rw [List.cons_append, List.cons_append, controls_escape, List.append_assoc,
        controls_string_of_plain hhigh.plain, List.cons_append, List.cons_append, controls_escape,
        List.append_assoc, controls_string_of_plain hlow.plain, ih]

/-- The characters of a string as `PrintString` writes them. -/
def Printed (s x : Str) : Prop := x = s.flatMap printChar

/-- A printed string has those that `PrintString` does not escape. -/
theorem controls_printString (s t : Str) :
    controls .string (s.flatMap printChar ++ '"' :: t) =
      (s.any rawControl || controls .between t) := by
  induction s with
  | nil => rfl
  | cons c s ih =>
      rw [List.flatMap_cons, List.append_assoc, List.any_cons, Bool.or_assoc, ← ih, printChar]
      split_ifs with hr hn hescape
      · subst hr
        rfl
      · subst hn
        rfl
      · rcases hescape with rfl | rfl <;> rfl
      · rw [not_or] at hescape
        rw [List.cons_append, List.nil_append, controls, if_neg hescape.1, if_neg hescape.2]
        simp [rawControl, hr, hn]

/-- A property of all strings and keys of a phrase. -/
def Phrase.Strings (q : Str → Prop) : Phrase D → Prop
  | .value node | .padded node => node.Everywhere (Node.Strings q)
  | .elements items => ∀ node ∈ items, node.Everywhere (Node.Strings q)
  | .member key node => q key ∧ node.Everywhere (Node.Strings q)
  | .members ms => ∀ m ∈ ms, q m.1 ∧ m.2.Everywhere (Node.Strings q)

section Scan

variable {strings : Str → Str → Prop} {q : Str → Prop} {stod : Str → Option D} {w t : Str}

theorem quote_not_mem_white (h : White w) : '"' ∉ w := fun hmem => by cases h _ hmem

theorem controls_word (node : Node D) (hc : node.children = []) (h : Node.Strings q node)
    (hw : '"' ∉ w) (t : Str) : controls .between (w ++ t) = false ↔
      (Phrase.value node).Strings q ∧ controls .between t = false := by
  rw [controls_between hw]
  exact (and_iff_right (.leaf hc h)).symm

theorem controls_enclosed {x : Str} {c d : Char} {r : Prop} (hc : c ≠ '"') (hd : d ≠ '"')
    (h : ∀ t, controls .between (x ++ t) = false ↔ r ∧ controls .between t = false) (t : Str) :
    controls .between (c :: (x ++ [d]) ++ t) = false ↔ r ∧ controls .between t = false := by
  have htext : c :: (x ++ [d]) ++ t = c :: (x ++ d :: t) := by simp
  rw [htext, controls_between_cons, if_neg hc, h, controls_between_cons, if_neg hd]

/-- The strings of a text one after the other. -/
theorem GrammarOf.controls_iff
    (hstrings : ∀ s x, strings s x → ∀ t, controls .string (x ++ '"' :: t) = false ↔
      q s ∧ controls .between t = false)
    {p : Phrase D} {x : Str} (h : GrammarOf strings stod p x) (t : Str) :
    controls .between (x ++ t) = false ↔ p.Strings q ∧ controls .between t = false := by
  induction h generalizing t with
  | null => exact controls_word .null rfl trivial (by decide) t
  | bool b => exact controls_word (.bool b) rfl trivial (by cases b <;> decide) t
  | @number n node hn =>
      have hquote : '"' ∉ n.text := fun hmem => by cases n.isWordChar_text _ hmem
      cases node with
      | int value => exact controls_word (.int value) rfl trivial hquote t
      | double value => exact controls_word (.double value) rfl trivial hquote t
      | _ => cases hn
  | @string s x hx =>
      have htext : '"' :: (x ++ ['"']) ++ t = '"' :: (x ++ '"' :: t) := by simp
      have hnode : (Node.string (D := D) s).Everywhere (Node.Strings q) ↔ q s := by
        rw [Node.everywhere_iff]
        simp [Node.Strings, Node.children]
      rw [htext, controls_between_cons, if_pos rfl, hstrings s x hx, Phrase.Strings, hnode]
  | emptyArray hw =>
      refine controls_enclosed (by decide) (by decide) (fun t => ?_) t
      exact controls_word (.array []) rfl trivial (quote_not_mem_white hw) t
  | @array items x _ ih =>
      have hnode : (Node.array items).Everywhere (Node.Strings q) ↔
          (Phrase.elements items).Strings q := by
        simp [Node.everywhere_iff _ (.array items), Node.Strings, Node.children, Phrase.Strings]
      rw [Phrase.Strings, hnode]
      exact controls_enclosed (by decide) (by decide) ih t
  | emptyObject hw =>
      refine controls_enclosed (by decide) (by decide) (fun t => ?_) t
      exact controls_word (.dict []) rfl (by simp [Node.Strings])
        (quote_not_mem_white hw) t
  | @object ms dict x _ _ hperm ih =>
      have hnode : (Node.dict dict).Everywhere (Node.Strings q) ↔
          (Phrase.members ms).Strings q := by
        simp only [Node.everywhere_iff _ (.dict dict), Node.Strings, Node.children, Phrase.Strings,
          List.forall_mem_map, hperm.mem_iff, ← forall₂_and]
      rw [Phrase.Strings, hnode]
      exact controls_enclosed (by decide) (by decide) ih t
  | @padded node w x w' hw _ hw' ih =>
      rw [List.append_assoc, List.append_assoc, controls_between (quote_not_mem_white hw), ih,
        controls_between (quote_not_mem_white hw')]
      rfl
  | @element node x _ ih =>
      rw [ih]
      simp [Phrase.Strings]
  | @elements node items x y _ _ ih ih' =>
      rw [List.append_assoc, ih, List.cons_append, controls_between_cons, if_neg (by decide), ih']
      simp [Phrase.Strings, and_assoc]
  | @member key node w k w' x hw hk hw' _ ih =>
      have htext : w ++ '"' :: (k ++ '"' :: (w' ++ ':' :: x)) ++ t =
          w ++ '"' :: (k ++ '"' :: (w' ++ ':' :: (x ++ t))) := by simp
      rw [htext, controls_between (quote_not_mem_white hw), controls_between_cons, if_pos rfl,
        hstrings key k hk, controls_between (quote_not_mem_white hw'), controls_between_cons,
        if_neg (by decide), ih]
      exact and_assoc.symm
  | @lastMember key node x _ ih =>
      rw [ih]
      simp [Phrase.Strings]
  | @members key node ms x y _ _ ih ih' =>
      rw [List.append_assoc, ih, List.cons_append, controls_between_cons, if_neg (by decide), ih']
      simp [Phrase.Strings, and_assoc]

end Scan

theorem everywhere_strings {p : Node D → Prop} {node : Node D} (he : node.Everywhere p)
    {q : Str → Prop} (hq : ∀ s, q s) : node.Everywhere (Node.Strings q) :=
  he.imp fun node _ => Node.strings_of_forall hq node

/-- In no text of the standard there is a raw control character inside a string. -/
theorem RfcText.controls {stod : Str → Option D} {p : Node D → Prop} {node : Node D} {text : Str}
    (h : RfcText stod node text) (he : node.Everywhere p) : controls .between text = false := by
  have hscan : Json.controls .between (text ++ []) = false := by
    refine (GrammarOf.controls_iff (fun s x hx t => ?_) h []).mpr
      ⟨everywhere_strings he fun _ => trivial, rfl⟩
    rw [hx.controls, true_and]
  rwa [List.append_nil] at hscan

theorem printed_plain {w : Str} (h : ∀ c ∈ w, Plain c) : w.flatMap printChar = w := by
  induction w with
  | nil => rfl
  | cons c w ih =>
      obtain ⟨⟨hspace, hquote, hbackslash⟩, hw⟩ := List.forall_mem_cons.mp h
      have hr : c ≠ '\r' := fun heq => absurd (heq ▸ hspace) (by decide)
      have hn : c ≠ '\n' := fun heq => absurd (heq ▸ hspace) (by decide)
      rw [List.flatMap_cons, ih hw, printChar, if_neg hr, if_neg hn,
        if_neg (not_or.mpr ⟨hquote, hbackslash⟩)]
      rfl

/-- Where no control character is left, what is printed is a string of the standard. -/
theorem rfcWritten_printString (t : List Char) (h : NoRawControl (t.flatMap utf8Char)) :
    RfcWritten (t.flatMap utf8Char) ((t.flatMap utf8Char).flatMap printChar) := by
  induction t with
  | nil => exact .nil
  | cons c t ih =>
      rw [List.flatMap_cons] at h ⊢
      have hrest := ih fun b hb => h b (List.mem_append_right _ hb)
      rw [List.flatMap_append]
      rcases lt_or_ge c.toNat 128 with hlt | hge
      · have hc : rawControl c = false := h c (by simp [utf8Char_of_lt hlt])
        rw [utf8Char_of_lt hlt, List.flatMap_singleton, printChar]
        split_ifs with hr hn hescape
        · exact hr ▸ .escape .carriageReturn hrest
        · exact hn ▸ .escape .newline hrest
        · rcases hescape with rfl | rfl
          · exact .escape .quote hrest
          · exact .escape .backslash hrest
        · rw [not_or] at hescape
          have hspace : ' ' ≤ c := not_lt.mp (by simpa [rawControl, hr, hn] using hc)
          have hplain := RfcWritten.plain hspace hescape.1 hescape.2 hrest
          rwa [utf8Char_of_lt hlt] at hplain
      · obtain ⟨hspace, hquote, hbackslash⟩ := plain_of_le hge
        rw [printed_plain (Plain.utf8Char ⟨hspace, hquote, hbackslash⟩)]
        exact .plain hspace hquote hbackslash hrest

/-- Exactly the documents in which every control character of a string or key is one that
`PrintString` escapes are printed as texts of the standard. -/
theorem rfcText_print_iff {stod : Str → Option D} {printDouble : D → Str} {document : Document D}
    (hdouble : document.root.Everywhere Node.NotDouble)
    (hutf8 : document.root.Everywhere (Node.Strings ValidUtf8)) :
    RfcText stod document.root (print printDouble document) ↔
      document.root.Everywhere (Node.Strings NoRawControl) := by
  constructor
  · intro h
    have hscan := h.controls document.sorted
    rw [← List.append_nil (print printDouble document)] at hscan
    have hprintString (s : Str) : Printed s (s.flatMap printChar) := rfl
    have hprinted : GrammarOf Printed stod (.value document.root) (print printDouble document) :=
      grammarOf_printNode hdouble document.sorted (everywhere_strings hdouble hprintString) {}
    refine ((hprinted.controls_iff ?_ []).mp hscan).1
    rintro s _ rfl t
    rw [controls_printString, Bool.or_eq_false_iff, any_rawControl_iff]
  · intro h
    have hstrings : document.root.Everywhere
        (Node.Strings fun s => RfcWritten s (s.flatMap printChar)) := by
      refine (hutf8.and h).imp fun node hnode => hnode.1.imp₂ hnode.2 ?_
      rintro _ ⟨t, rfl⟩ ht
      exact rfcWritten_printString t ht
    have hvalue : GrammarOf RfcWritten stod (.value document.root) (print printDouble document) :=
      grammarOf_printNode hdouble document.sorted hstrings {}
    simpa [RfcText] using GrammarOf.padded white_nil hvalue white_nil

/-- A key outside ASCII and a string with the two control characters that are escaped. -/
theorem rfcText_print_members :
    ∃ document : Document Double,
      document.root = .dict [(utf8Char 'é', .string ['\n', '"', '\r'])] ∧
      RfcText (fun _ => none) document.root (print (fun _ => []) document) := by
  have hleaf (p : Node Double → Prop) (hp : p (.string ['\n', '"', '\r']))
      (h : p (.dict [(utf8Char 'é', .string ['\n', '"', '\r'])])) :
      (Node.dict [(utf8Char 'é', .string ['\n', '"', '\r'])]).Everywhere p :=
    .intro h (by simpa [Node.children] using Node.Everywhere.leaf rfl hp)
  refine ⟨⟨_, hleaf Node.SortedMembers trivial (List.pairwise_singleton _ _)⟩, rfl, ?_⟩
  refine (rfcText_print_iff (hleaf _ trivial trivial) (hleaf _ ?_ ?_)).mpr (hleaf _ ?_ ?_)
  · exact ⟨['\n', '"', '\r'], by decide⟩
  · exact List.forall_mem_singleton.mpr ⟨['é'], rfl⟩
  · exact any_rawControl_iff.mp (by decide)
  · exact List.forall_mem_singleton.mpr (any_rawControl_iff.mp (by decide))

/-- A tab inside a string is printed raw. -/
theorem not_rfcText_print_tab :
    ¬ ∀ document : Document Double, document.root.Everywhere Node.NotDouble →
      document.root.Everywhere (Node.Strings ValidUtf8) →
      RfcText (fun _ => none) document.root (print (fun _ => []) document) := by
  intro h
  have hleaf (p : Node Double → Prop) (hp : p (.string ['\t'])) :
      (Node.string ['\t']).Everywhere p := .leaf rfl hp
  have htab := h ⟨.string ['\t'], hleaf _ trivial⟩ (hleaf _ trivial) (hleaf _ ⟨['\t'], by decide⟩)
  have hscan : controls .between ['"', '\t', '"'] = false :=
    htab.controls (hleaf Node.NotDouble trivial)
  exact absurd hscan (by decide)

end TransportSystem.Json
