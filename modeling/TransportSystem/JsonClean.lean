import TransportSystem.JsonTokens

/-!
`Load` accepts more than the grammar. The texts on which it does what the
grammar says are the clean ones.
-/

namespace TransportSystem.Json

open Library.Lists IStream

variable {D : Type} {stod : Str → Option D}

theorem isWordChar_of_isDigit {c : Char} (h : c.isDigit = true) : isWordChar c = true := by
  have hne (d : Char) (hd : d.isDigit = false) : c ≠ d := ne_of_isDigit h d hd
  simp [isWordChar, isSpace_of_isDigit h, hne '[' rfl, hne '{' rfl, hne ']' rfl, hne '}' rfl,
    hne ',' rfl, hne ':' rfl, hne '"' rfl]

namespace Number

theorem isWordChar_text (n : Number) : ∀ c ∈ n.text, isWordChar c = true :=
  n.forall_mem_text (fun _ => isWordChar_of_isDigit) (List.all_eq_true.mp rfl)

theorem text_ne_nil (n : Number) : n.text ≠ [] := by
  obtain ⟨c, t, h, -⟩ := n.exists_text_eq_cons
  simp [h]

theorem isWordChar_of_continues (n : Number) {c : Char} (h : n.continues c = true) :
    isWordChar c = true := by
  simp only [continues, Bool.or_eq_true, Bool.and_eq_true, decide_eq_true_eq] at h
  rcases h with (⟨h, -⟩ | ⟨rfl, -⟩) | ⟨rfl | rfl, -⟩
  · exact isWordChar_of_isDigit h
  all_goals rfl

theorem stops_of_not_word (n : Number) {r : Str} (h : r.head?.any isWordChar = false) :
    n.Stops r := by
  cases r with
  | nil => rfl
  | cons c r =>
      cases hc : n.continues c with
      | false => simpa [Stops] using hc
      | true =>
          rw [List.head?_cons, Option.any_some, n.isWordChar_of_continues hc] at h
          cases h

/-- A text begins with one longest number at most. -/
theorem rest_unique {n m : Number} {r r' : Str} (h : n.text ++ r = m.text ++ r')
    (hn : n.Stops r) (hm : m.Stops r') : r = r' := by
  have hread := readNumber_returns (at_ofText (n.text ++ r))
  obtain ⟨input, hinput, hat⟩ := hread.complete _ r ⟨n, rfl, hn, rfl⟩
  obtain ⟨input', hinput', hat'⟩ := hread.complete _ r' ⟨m, h, hm, rfl⟩
  obtain ⟨-, rfl⟩ := Prod.mk.inj (Except.ok.inj (hinput.symm.trans hinput'))
  exact hat.rest_eq.symm.trans hat'.rest_eq

end Number

theorem isWordChar_null : ∀ c ∈ "null".toList, isWordChar c = true :=
  List.all_eq_true.mp rfl

theorem isWordChar_boolText (b : Bool) : ∀ c ∈ boolText b, isWordChar c = true := by
  cases b <;> exact List.all_eq_true.mp rfl

theorem endsValue_follows_closing {a : Token} (h : a.endsValue = true) :
    a.follows .closing = true := by
  cases a <;> first | rfl | cases h

theorem endsValue_follows_comma {a : Token} (h : a.endsValue = true) :
    a.follows .comma = true := by
  cases a <;> first | rfl | cases h

theorem follows_of_not_endsValue {a b : Token} (h : a.endsValue = false)
    (hb : b.startsValue = true) : a.follows b = true := by
  cases a <;> cases b <;> simp_all [Token.follows, Token.endsValue, Token.startsValue]

theorem White.append_not_word {w t : Str} (hw : White w) (ht : t.head?.any isWordChar = false) :
    (w ++ t).head?.any isWordChar = false := by
  cases w with
  | nil => exact ht
  | cons c w => simp [isWordChar, isSpace_of_isWhite (hw c (by simp))]

theorem tokens_opening {c : Char} (hc : c = '[' ∨ c = '{') (t : Str) :
    tokens (c :: t) = .opening :: tokens t := by
  rcases hc with rfl | rfl <;> rfl

theorem tokens_closing {c : Char} (hc : c = ']' ∨ c = '}') (t : Str) :
    tokens (c :: t) = .closing :: tokens t := by
  rcases hc with rfl | rfl <;> rfl

theorem tokens_comma (t : Str) : tokens (',' :: t) = .comma :: tokens t := rfl

theorem tokens_colon (t : Str) : tokens (':' :: t) = .colon :: tokens t := rfl

theorem tidy_word {a : Token} {depth : ℕ} {w t : Str} (hproper : (Token.word w).Proper)
    (hne : w ≠ []) (hw : ∀ c ∈ w, isWordChar c = true) (ht : t.head?.any isWordChar = false)
    (ha : a.endsValue = false) (htidy : Tidy (.word w) depth (tokens t)) :
    Tidy a depth (tokens (w ++ t)) := by
  rw [tokens_word hne hw ht]
  exact ⟨hproper, follows_of_not_endsValue ha rfl, htidy⟩

theorem tidy_enclosed {a : Token} {depth : ℕ} {c d : Char} {x t : Str} (hc : c = '[' ∨ c = '{')
    (ha : a.endsValue = false)
    (hx : Tidy .closing (depth + 1) (tokens t) →
      Tidy .opening (depth + 2) (tokens (x ++ d :: t)))
    (htidy : Tidy .closing (depth + 1) (tokens t)) :
    Tidy a (depth + 1) (tokens (c :: (x ++ [d]) ++ t)) := by
  rw [List.cons_append, tokens_opening hc, List.append_assoc]
  exact ⟨trivial, follows_of_not_endsValue ha rfl, hx htidy⟩

/-- A phrase of the grammar is tidy where no value has just ended, if what
follows it is tidy after the end of a value. -/
theorem GrammarOf.tidy {p : Phrase D} {x : Str} (h : Grammar stod p x) {a : Token} {depth : ℕ}
    {t : Str} (ha : a.endsValue = false) (ht : t.head?.any isWordChar = false)
    (htidy : ∀ b, b.endsValue = true → Tidy b (depth + 1) (tokens t)) :
    Tidy a (depth + 1) (tokens (x ++ t)) := by
  induction h generalizing a depth t with
  | null => exact tidy_word (.inl (by simp)) (by decide) isWordChar_null ht ha (htidy _ rfl)
  | bool b =>
      refine tidy_word (.inl ?_) ?_ (isWordChar_boolText b) ht ha (htidy _ rfl)
      · cases b <;> simp [boolText]
      · cases b <;> decide
  | @number n => exact tidy_word (.inr ⟨n, rfl⟩) n.text_ne_nil n.isWordChar_text ht ha (htidy _ rfl)
  | string hx =>
      rw [List.cons_append, List.append_assoc, List.singleton_append, tokens_string hx]
      exact ⟨trivial, follows_of_not_endsValue ha rfl, htidy _ rfl⟩
  | emptyArray hw | emptyObject hw =>
      refine tidy_enclosed (by simp) ha (fun hclosing => ?_) (htidy _ rfl)
      rw [tokens_white hw, tokens_closing (by simp)]
      exact ⟨trivial, rfl, .inr hclosing⟩
  | array _ ih | object _ _ _ ih =>
      refine tidy_enclosed (by simp) ha (fun hclosing => ih rfl rfl fun b hb => ?_)
        (htidy _ rfl)
      rw [tokens_closing (by simp)]
      exact ⟨trivial, endsValue_follows_closing hb, .inr hclosing⟩
  | padded hw _ hw' ih =>
      rw [List.append_assoc, List.append_assoc, tokens_white hw]
      refine ih ha (hw'.append_not_word ht) fun b hb => ?_
      rw [tokens_white hw']
      exact htidy b hb
  | element _ ih | lastMember _ ih => exact ih ha ht htidy
  | elements _ _ ih ih' | members _ _ ih ih' =>
      rw [List.append_assoc, List.cons_append]
      refine ih ha rfl fun b hb => ?_
      rw [tokens_comma]
      exact ⟨trivial, endsValue_follows_comma hb, ih' rfl ht htidy⟩
  | @member key node w k w' x hw hk hw' _ ih =>
      have htext : w ++ '"' :: (k ++ '"' :: (w' ++ ':' :: x)) ++ t =
          w ++ '"' :: (k ++ '"' :: (w' ++ ':' :: (x ++ t))) := by simp
      rw [htext, tokens_white hw, tokens_string hk, tokens_white hw', tokens_colon]
      exact ⟨trivial, follows_of_not_endsValue ha rfl, trivial, rfl, ih rfl ht htidy⟩

theorem tidy_skipSpace {a : Token} {depth : ℕ} {c : Char} {t t' : Str}
    (hskip : skipSpace t = c :: t') (h : Tidy a depth (tokens t)) :
    ∃ w, White w ∧ t = w ++ c :: t' ∧ Tidy a depth (tokens (c :: t')) := by
  induction t with
  | nil => cases hskip
  | cons d t ih =>
      cases hspace : isSpace d with
      | false =>
          rw [skipSpace_cons hspace] at hskip
          obtain ⟨rfl, rfl⟩ := List.cons.inj hskip
          exact ⟨[], white_nil, rfl, h⟩
      | true =>
          have hskip' : skipSpace t = c :: t' := by
            rwa [skipSpace, List.dropWhile_cons_of_pos hspace] at hskip
          cases hwhite : isWhite d with
          | true =>
              have hd : White [d] := by simpa [White] using hwhite
              have h' : Tidy a depth (tokens t) := by
                rwa [← List.singleton_append, tokens_white hd] at h
              obtain ⟨w, hw, rfl, htidy⟩ := ih hskip' h'
              exact ⟨d :: w, List.forall_mem_cons.mpr ⟨hwhite, hw⟩, rfl, htidy⟩
          | false =>
              have hforeign : tokens (d :: t) = .foreign :: tokens t := by
                simp only [isSpace, Bool.or_eq_true, decide_eq_true_eq] at hspace
                rcases hspace with ((((rfl | rfl) | rfl) | rfl) | rfl) | rfl <;>
                  first | rfl | cases hwhite
              rw [hforeign] at h
              exact absurd h.1 id

theorem tidy_word_inv {a : Token} {depth : ℕ} {w r : Str} (hne : w ≠ [])
    (hw : ∀ c ∈ w, isWordChar c = true) (h : Tidy a depth (tokens (w ++ r)))
    (hlongest : ∀ u r', r = u ++ r' → r'.head?.any isWordChar = false →
      (Token.word (w ++ u)).Proper → u = []) :
    a.endsValue = false ∧ Tidy (.word w) depth (tokens r) := by
  obtain ⟨hr, hu, hend⟩ :=
    append_eq_span_iff (p := isWordChar) (l := r).mpr ⟨rfl, rfl⟩
  have htext : w ++ r = (w ++ r.takeWhile isWordChar) ++ r.dropWhile isWordChar := by
    rw [List.append_assoc, ← hr]
  rw [htext, tokens_word (by simp [hne]) (List.forall_mem_append.mpr ⟨hw, hu⟩) hend] at h
  obtain ⟨hproper, hfollows, htidy⟩ := h
  have hnil := hlongest _ _ hr hend hproper
  rw [hnil, List.nil_append] at hr
  rw [hnil, List.append_nil, ← hr] at htidy
  refine ⟨?_, htidy⟩
  cases a <;> first | rfl | cases hfollows

theorem literal_longest {w u : Str} (hw : w ∈ ["null".toList, "true".toList, "false".toList])
    (h : (Token.word (w ++ u)).Proper) : u = [] := by
  rcases h with h | ⟨m, hm⟩
  · simp only [List.mem_cons, List.not_mem_nil, or_false] at hw h
    rcases hw with rfl | rfl | rfl <;> simpa using h
  · obtain ⟨c, t, htext, hc⟩ := m.exists_text_eq_cons
    rw [htext] at hm
    simp only [List.mem_cons, List.not_mem_nil, or_false] at hw
    rcases hw with rfl | rfl | rfl <;> obtain ⟨rfl, -⟩ := List.cons.inj hm <;>
      exact absurd hc (by decide)

theorem number_longest {n : Number} {u r : Str} (hn : n.Stops (u ++ r))
    (hr : r.head?.any isWordChar = false) (h : (Token.word (n.text ++ u)).Proper) : u = [] := by
  rcases h with h | ⟨m, hm⟩
  · obtain ⟨c, t, htext, hc⟩ := n.exists_text_eq_cons
    rw [htext] at h
    simp only [List.mem_cons, List.not_mem_nil, or_false] at h
    rcases h with h | h | h <;> obtain ⟨rfl, -⟩ := List.cons.inj h <;> exact absurd hc (by decide)
  · have htext : n.text ++ (u ++ r) = m.text ++ r := by rw [hm, List.append_assoc]
    have hrest := n.rest_unique htext hn (m.stops_of_not_word hr)
    exact List.append_left_eq_self.mp hrest

/-- What is read inside brackets before the closing one: a phrase of the
grammar, or nothing where the phrase may be empty. After a value a comma comes
first. -/
def Inside (stod : Str → Option D) (p : Phrase D) (empty : Prop) (a : Token) (y : Str) : Prop :=
  (a ≠ .comma ∧ empty ∧ White y) ∨ (a.endsValue = false ∧ Grammar stod p y) ∨
    (a.endsValue = true ∧ ∃ w y', White w ∧ y = w ++ ',' :: y' ∧ Grammar stod p y')

theorem grammar_elements {node : Node D} {items : List (Node D)} {b : Token} {w x y : Str}
    (hw : White w) (hx : Grammar stod (.value node) x) (hb : b.endsValue = true)
    (hy : Inside stod (.elements items) (items = []) b y) :
    Grammar stod (.elements (node :: items)) (w ++ (x ++ y)) := by
  rcases hy with ⟨-, rfl, hy⟩ | ⟨hb', -⟩ | ⟨-, w', y', hw', rfl, hy'⟩
  · exact .element (.padded hw hx hy)
  · rw [hb] at hb'
    cases hb'
  · simpa using GrammarOf.elements (.padded hw hx hw') hy'

theorem grammar_members {key : Str} {node : Node D} {members : List (Str × Node D)} {b : Token}
    {w k w₁ w₂ x y : Str} (hw : White w) (hk : Written key k) (hw₁ : White w₁) (hw₂ : White w₂)
    (hx : Grammar stod (.value node) x) (hb : b.endsValue = true)
    (hy : Inside stod (.members members) (members = []) b y) :
    Grammar stod (.members ((key, node) :: members))
      (w ++ '"' :: (k ++ '"' :: (w₁ ++ ':' :: (w₂ ++ (x ++ y))))) := by
  rcases hy with ⟨-, rfl, hy⟩ | ⟨hb', -⟩ | ⟨-, w', y', hw', rfl, hy'⟩
  · exact .lastMember (.member hw hk hw₁ (.padded hw₂ hx hy))
  · rw [hb] at hb'
    cases hb'
  · simpa using GrammarOf.members (.member hw hk hw₁ (.padded hw₂ hx hw')) hy'

theorem grammar_array {items : List (Node D)} {y : Str}
    (h : Inside stod (.elements items) (items = []) .opening y) :
    Grammar stod (.value (.array items)) ('[' :: (y ++ [']'])) := by
  rcases h with ⟨-, rfl, hy⟩ | ⟨-, hy⟩ | ⟨h, -⟩
  · exact .emptyArray hy
  · exact .array hy
  · cases h

theorem grammar_object {members : List (Str × Node D)} {dict : Dict D} {y : Str}
    (h : Inside stod (.members members) (members = []) .opening y) (hsorted : dict.Sorted)
    (hperm : dict.Perm members) : Grammar stod (.value (.dict dict)) ('{' :: (y ++ ['}'])) := by
  rcases h with ⟨-, rfl, hy⟩ | ⟨-, hy⟩ | ⟨h, -⟩
  · rw [List.perm_nil.mp hperm]
    exact .emptyObject hy
  · exact .object hy hsorted hperm
  · cases h

/-- What a reader takes from the text `t`, where it leaves `r`, if the text is
tidy after `a`. A loop runs after an opening bracket, a comma or a value. -/
def Phrase.Takes (stod : Str → Option D) (t r : Str) : Phrase D → Prop
  | .elements items => ∀ a depth, (a = .opening ∨ a = .comma ∨ a.endsValue = true) →
      Tidy a (depth + 1) (tokens t) →
      (∃ y, t = y ++ ']' :: r ∧ Inside stod (.elements items) (items = []) a y) ∧
        (depth = 0 ∨ Tidy .closing depth (tokens r))
  | .members written => ∀ a depth, (a = .opening ∨ a = .comma ∨ a.endsValue = true) →
      Tidy a (depth + 1) (tokens t) →
      (∃ y, t = y ++ '}' :: r ∧ Inside stod (.members written) (written = []) a y) ∧
        (depth = 0 ∨ Tidy .closing depth (tokens r))
  | .value node => ∀ a depth, Tidy a (depth + 1) (tokens t) → a.endsValue = false ∧
      ∃ w x b, White w ∧ t = w ++ (x ++ r) ∧ Grammar stod (.value node) x ∧
        b.endsValue = true ∧ Tidy b (depth + 1) (tokens r)
  | _ => True

theorem not_endsValue_of_follows {a b : Token} (h : a.follows b = true)
    (hb : b.startsValue = true) : a.endsValue = false := by
  cases a <;> cases b <;> simp_all [Token.follows, Token.endsValue, Token.startsValue]

theorem takes_word {node : Node D} {t w r : Str} (hskip : skipSpace t = w ++ r)
    (hnode : Grammar stod (.value node) w) (hne : w ≠ []) (hw : ∀ c ∈ w, isWordChar c = true)
    (hlongest : ∀ u r', r = u ++ r' → r'.head?.any isWordChar = false →
      (Token.word (w ++ u)).Proper → u = []) : (Phrase.value node).Takes stod t r := by
  intro a depth h
  obtain ⟨c, w, rfl⟩ := List.exists_cons_of_ne_nil hne
  have hskip' : skipSpace t = c :: (w ++ r) := hskip
  obtain ⟨w₀, hw₀, rfl, htidy⟩ := tidy_skipSpace hskip' h
  obtain ⟨ha, htidy⟩ := tidy_word_inv hne hw htidy hlongest
  exact ⟨ha, w₀, c :: w, .word _, hw₀, rfl, hnode, rfl, htidy⟩

theorem takes_close {p : Phrase D} {empty : Prop} {c : Char} {t r : Str} {a : Token} {depth : ℕ}
    (hc : c = ']' ∨ c = '}') (hskip : skipSpace t = c :: r) (hempty : empty)
    (h : Tidy a (depth + 1) (tokens t)) :
    (∃ y, t = y ++ c :: r ∧ Inside stod p empty a y) ∧
      (depth = 0 ∨ Tidy .closing depth (tokens r)) := by
  obtain ⟨w, hw, rfl, htidy⟩ := tidy_skipSpace hskip h
  rw [tokens_closing hc] at htidy
  obtain ⟨-, hfollows, hrest⟩ := htidy
  refine ⟨⟨w, rfl, .inl ⟨?_, hempty, hw⟩⟩, hrest.imp_left (by omega)⟩
  rintro rfl
  cases hfollows

theorem tidy_comma_inv {a : Token} {depth : ℕ} {t t' : Str}
    (ha : a = .opening ∨ a = .comma ∨ a.endsValue = true) (hskip : skipSpace t = ',' :: t')
    (h : Tidy a depth (tokens t)) :
    a.endsValue = true ∧ ∃ w, White w ∧ t = w ++ ',' :: t' ∧ Tidy .comma depth (tokens t') := by
  obtain ⟨w, hw, rfl, htidy⟩ := tidy_skipSpace hskip h
  rw [tokens_comma] at htidy
  obtain ⟨-, hfollows, htidy⟩ := htidy
  refine ⟨?_, w, hw, rfl, htidy⟩
  rcases ha with rfl | rfl | ha
  · cases hfollows
  · cases hfollows
  · exact ha

/-- A value between brackets, from what the loop after its opening bracket takes. -/
theorem takes_enclosed {node : Node D} {inside : Str → Prop} {c c' : Char} {t t' r : Str}
    (hc : c = '[' ∨ c = '{') (hskip : skipSpace t = c :: t')
    (hloop : ∀ depth, Tidy .opening (depth + 1) (tokens t') →
      (∃ y, t' = y ++ c' :: r ∧ inside y) ∧ (depth = 0 ∨ Tidy .closing depth (tokens r)))
    (hnode : ∀ y, inside y → Grammar stod (.value node) (c :: (y ++ [c']))) :
    (Phrase.value node).Takes stod t r := by
  intro a depth h
  obtain ⟨w, hw, rfl, htidy⟩ := tidy_skipSpace hskip h
  rw [tokens_opening hc] at htidy
  obtain ⟨-, hfollows, htidy⟩ := htidy
  obtain ⟨⟨y, rfl, hy⟩, hrest⟩ := hloop (depth + 1) htidy
  exact ⟨not_endsValue_of_follows hfollows rfl, w, _, .closing, hw, by simp, hnode y hy, rfl,
    hrest.resolve_left (by omega)⟩

theorem Reads.takes {p : Phrase D} {t r : Str} (h : Reads stod p t r) : p.Takes stod t r := by
  induction h with
  | null hskip =>
      exact takes_word hskip .null (by decide) isWordChar_null fun u _ _ _ =>
        literal_longest (by simp)
  | bool b hskip =>
      refine takes_word hskip (.bool b) ?_ (isWordChar_boolText b) fun u _ _ _ => literal_longest ?_
      · cases b <;> decide
      · cases b <;> simp [boolText]
  | @number n _ _ _ hskip hstops hnode =>
      refine takes_word hskip (.number hnode) n.text_ne_nil n.isWordChar_text ?_
      rintro u r' rfl hr'
      exact number_longest hstops hr'
  | string hskip hx =>
      intro a depth h
      obtain ⟨w, hw, rfl, htidy⟩ := tidy_skipSpace hskip h
      rw [tokens_string hx] at htidy
      obtain ⟨-, hfollows, htidy⟩ := htidy
      exact ⟨not_endsValue_of_follows hfollows rfl, w, _, .string, hw, by simp, .string hx, rfl,
        htidy⟩
  | array hskip _ ih =>
      exact takes_enclosed (.inl rfl) hskip (fun depth => ih .opening depth (.inl rfl))
        fun y hy => grammar_array hy
  | object hskip _ hsorted hperm ih =>
      exact takes_enclosed (.inr rfl) hskip (fun depth => ih .opening depth (.inl rfl))
        fun y hy => grammar_object hy hsorted hperm
  | closeArray hskip => exact fun a depth _ htidy => takes_close (by simp) hskip rfl htidy
  | comma hskip _ _ ih ih' =>
      intro a depth ha h
      obtain ⟨ha, w₀, hw₀, rfl, htidy⟩ := tidy_comma_inv ha hskip h
      obtain ⟨-, w, x, b, hw, rfl, hx, hb, htidy'⟩ := ih .comma depth htidy
      obtain ⟨⟨y, rfl, hy⟩, hrest⟩ := ih' b depth (.inr (.inr hb)) htidy'
      refine ⟨⟨w₀ ++ ',' :: (w ++ (x ++ y)), by simp, .inr (.inr ⟨ha, w₀, _, hw₀, rfl, ?_⟩)⟩, hrest⟩
      exact grammar_elements hw hx hb hy
  | element hskip _ _ _ _ ih ih' =>
      intro a depth _ h
      obtain ⟨w₀, hw₀, rfl, htidy⟩ := tidy_skipSpace hskip h
      obtain ⟨ha, w, x, b, hw, htext, hx, hb, htidy'⟩ := ih a depth htidy
      obtain ⟨⟨y, rfl, hy⟩, hrest⟩ := ih' b depth (.inr (.inr hb)) htidy'
      refine ⟨⟨w₀ ++ w ++ (x ++ y), by rw [htext]; simp, .inr (.inl ⟨ha, ?_⟩)⟩, hrest⟩
      exact grammar_elements (List.forall_mem_append.mpr ⟨hw₀, hw⟩) hx hb hy
  | closeDict hskip => exact fun a depth _ htidy => takes_close (by simp) hskip rfl htidy
  | skipComma hskip _ ih =>
      intro a depth ha h
      obtain ⟨ha, w, hw, rfl, htidy⟩ := tidy_comma_inv ha hskip h
      obtain ⟨⟨y, rfl, hy⟩, hrest⟩ := ih .comma depth (.inr (.inl rfl)) htidy
      refine ⟨⟨w ++ ',' :: y, by simp, .inr (.inr ⟨ha, w, y, hw, rfl, ?_⟩)⟩, hrest⟩
      rcases hy with ⟨hne, -⟩ | ⟨-, hy⟩ | ⟨h, -⟩
      · exact absurd rfl hne
      · exact hy
      · cases h
  | member hskip hx hcolon _ _ ih ih' =>
      intro a depth _ h
      obtain ⟨w, hw, rfl, htidy⟩ := tidy_skipSpace hskip h
      rw [tokens_string hx] at htidy
      obtain ⟨-, hfollows, htidy⟩ := htidy
      obtain ⟨w₁, hw₁, rfl, htidy₁⟩ := tidy_skipSpace hcolon htidy
      rw [tokens_colon] at htidy₁
      obtain ⟨-, -, htidy₂⟩ := htidy₁
      obtain ⟨-, w₂, x, b, hw₂, rfl, hnode, hb, htidy₃⟩ := ih .colon depth htidy₂
      obtain ⟨⟨y, rfl, hy⟩, hrest⟩ := ih' b depth (.inr (.inr hb)) htidy₃
      exact ⟨⟨_, by simp, .inr (.inl ⟨not_endsValue_of_follows hfollows rfl,
        grammar_members hw hx hw₁ hw₂ hnode hb hy⟩)⟩, hrest⟩

def Node.isDouble : Node D → Bool
  | .int _ | .double _ => true
  | _ => false

/-- The text up to `rest` is one value of the grammar, the value of `node`, and
a number is followed by a delimiter. -/
def Grammatical (stod : Str → Option D) (text : Str) (node : Node D) (rest : Str) : Prop :=
  ∃ w x, text = w ++ (x ++ rest) ∧ White w ∧ Grammar stod (.value node) x ∧
    (node.isDouble = true → Delimited rest)

theorem clean_iff {text rest : Str} {c : Char} (h : skipSpace text = c :: rest) :
    Clean text ↔ White (text.takeWhile isSpace) ∧
      if c = '[' ∨ c = '{' then Tidy .opening 1 (tokens rest)
      else if c = '"' ∨ c.isAlpha then True
      else ∃ n : Number, n.text = (c :: rest).takeWhile fun c => !isDelimiter c := by
  unfold Clean
  rw [h]

theorem not_isAlpha {c : Char} (h : c = '-' ∨ c.isDigit = true) : c.isAlpha = false := by
  rcases h with rfl | h
  · rfl
  · cases halpha : c.isAlpha with
    | false => rfl
    | true =>
        have hupper : c.isUpper = decide ('A'.val ≤ c.val ∧ c.val ≤ 'Z'.val) := rfl
        have hlower : c.isLower = (decide ('a'.val ≤ c.val) && decide (c.val ≤ 'z'.val)) := rfl
        have hletter : (c.isUpper || c.isLower) = true := halpha
        have hdigit : c.val.toNat ≤ '9'.val.toNat := (Char.isDigit_iff_toNat.mp h).2
        simp only [hupper, hlower, Bool.and_eq_true, Bool.or_eq_true, decide_eq_true_eq,
          UInt32.le_iff_toNat_le] at hletter
        have h0 : '9'.val.toNat < 'A'.val.toNat := by decide
        have h1 : '9'.val.toNat < 'a'.val.toNat := by decide
        omega

theorem isDelimiter_of_isWordChar {c : Char} (h : isWordChar c = true) :
    isDelimiter c = false := by
  cases hd : isDelimiter c with
  | false => rfl
  | true =>
      simp only [isDelimiter, isWhite, Bool.or_eq_true, decide_eq_true_eq] at hd
      rcases hd with (((((rfl | rfl) | rfl) | rfl) | rfl) | rfl) | rfl <;> cases h

theorem takeWhile_number {n : Number} {rest : Str} (h : Delimited rest) :
    (n.text ++ rest).takeWhile (fun c => !isDelimiter c) = n.text := by
  refine (append_eq_span_iff.mp ⟨rfl, fun c hc => ?_, ?_⟩).1.symm
  · rw [isDelimiter_of_isWordChar (n.isWordChar_text c hc)]
    rfl
  · cases rest with
    | nil => rfl
    | cons c rest => simpa [Delimited] using h

theorem clean_of_grammatical {text rest : Str} {node : Node D}
    (h : Grammatical stod text node rest) : Clean text := by
  obtain ⟨w, x, rfl, hw, hx, hdelimited⟩ := h
  obtain ⟨c, t, rfl, hspace, -⟩ := hx.value_head
  have hskip : skipSpace (w ++ (c :: t ++ rest)) = c :: (t ++ rest) := by
    rw [skipSpace_append hw, List.cons_append, skipSpace_cons hspace]
  have hwhite : (w ++ (c :: t ++ rest)).takeWhile isSpace = w :=
    (append_eq_span_iff.mp ⟨rfl, fun c hc => isSpace_of_isWhite (hw c hc),
      by simpa using hspace⟩).1.symm
  refine (clean_iff hskip).mpr ⟨by rwa [hwhite], ?_⟩
  rw [← List.cons_append]
  generalize hct : c :: t = x at hx
  cases hx with
  | null =>
      obtain ⟨rfl, -⟩ := List.cons.inj hct
      trivial
  | bool b =>
      cases b <;> obtain ⟨rfl, -⟩ := List.cons.inj hct <;> trivial
  | @number n _ hnode =>
      have hdouble : node.isDouble = true := by
        cases node <;> first | rfl | cases hnode
      obtain ⟨c', t', htext, hc'⟩ := n.exists_text_eq_cons
      obtain ⟨rfl, rfl⟩ := List.cons.inj (hct.trans htext)
      have hne := Number.head_ne hc'
      rw [if_neg (not_or.mpr ⟨hne _ (by decide) rfl, hne _ (by decide) rfl⟩),
        if_neg (not_or.mpr ⟨hne _ (by decide) rfl, by simp [not_isAlpha hc']⟩)]
      exact ⟨n, (takeWhile_number (hdelimited hdouble)).symm⟩
  | string =>
      obtain ⟨rfl, -⟩ := List.cons.inj hct
      trivial
  | emptyArray hw' | emptyObject hw' =>
      obtain ⟨rfl, rfl⟩ := List.cons.inj hct
      rw [if_pos (by simp), List.append_assoc, tokens_white hw', List.singleton_append,
        tokens_closing (by simp)]
      exact ⟨trivial, rfl, .inl le_rfl⟩
  | array hx' | object hx' =>
      obtain ⟨rfl, rfl⟩ := List.cons.inj hct
      rw [if_pos (by simp), List.append_assoc, List.singleton_append]
      refine hx'.tidy rfl rfl fun b hb => ?_
      rw [tokens_closing (by simp)]
      exact ⟨trivial, endsValue_follows_closing hb, .inl le_rfl⟩

theorem grammatical_of_clean {text rest : Str} {node : Node D}
    (h : Reads stod (.value node) text rest) (hclean : Clean text) :
    Grammatical stod text node rest := by
  obtain ⟨c, t, hskip⟩ := List.exists_cons_of_ne_nil h.skipSpace_ne_nil
  obtain ⟨hwhite, hclean⟩ := (clean_iff hskip).mp hclean
  obtain ⟨w, hw, htext⟩ : ∃ w, White w ∧ text = w ++ c :: t := by
    refine ⟨_, hwhite, ?_⟩
    rw [← hskip]
    exact List.takeWhile_append_dropWhile.symm
  have hvalue := (Reads.value_iff hskip).mp h
  split_ifs at hvalue with harray hdict hstring hbool hnull
  · obtain ⟨items, rfl, hitems⟩ := hvalue
    rw [if_pos (.inl harray)] at hclean
    obtain ⟨⟨y, rfl, hy⟩, -⟩ := hitems.takes .opening 0 (.inl rfl) hclean
    exact ⟨_, _, by rw [htext, harray]; simp, hw, grammar_array hy, fun h => nomatch h⟩
  · obtain ⟨members, dict, rfl, hsorted, hperm, hmembers⟩ := hvalue
    rw [if_pos (.inr hdict)] at hclean
    obtain ⟨⟨y, rfl, hy⟩, -⟩ := hmembers.takes .opening 0 (.inl rfl) hclean
    exact ⟨_, _, by rw [htext, hdict]; simp, hw, grammar_object hy hsorted hperm,
      fun h => nomatch h⟩
  · obtain ⟨s, x, rfl, hx, rfl⟩ := hvalue
    exact ⟨_, _, by rw [htext, hstring]; simp, hw, .string hx, fun h => nomatch h⟩
  · obtain ⟨b, rfl, hb, -⟩ := hvalue
    exact ⟨_, boolText b, by rw [htext, hb], hw, .bool b, fun h => nomatch h⟩
  · obtain ⟨rfl, hn, -⟩ := hvalue
    exact ⟨_, _, by rw [htext, hn], hw, .null, fun h => nomatch h⟩
  · obtain ⟨n, hn, hstops, hnode⟩ := hvalue
    obtain ⟨c', t', hn', hc'⟩ := n.exists_text_eq_cons
    have hcc' : c = c' := by
      rw [hn'] at hn
      exact (List.cons.inj hn).1
    rw [hcc', if_neg (not_or.mpr ⟨Number.head_ne hc' _ (by decide) rfl,
      Number.head_ne hc' _ (by decide) rfl⟩), if_neg (not_or.mpr
      ⟨Number.head_ne hc' _ (by decide) rfl, by simp [not_isAlpha hc']⟩), ← hcc'] at hclean
    obtain ⟨m, hm⟩ := hclean
    obtain ⟨hsplit, -, hend⟩ := append_eq_span_iff (p := fun c => !isDelimiter c)
      (l := c :: t).mpr ⟨rfl, rfl⟩
    rw [← hm] at hsplit
    have hdelimited : Delimited ((c :: t).dropWhile fun c => !isDelimiter c) := by
      cases hr : (c :: t).dropWhile fun c => !isDelimiter c with
      | nil => rfl
      | cons d r =>
          rw [hr] at hend
          simpa [Delimited] using hend
    have hrest := Number.rest_unique (hn.symm.trans hsplit) hstops (hdelimited.stops m)
    rw [← hrest] at hdelimited
    exact ⟨w, n.text, by rw [htext, hn], hw, .number hnode, fun _ => hdelimited⟩

/-- `Load` returns what the grammar says exactly on the clean texts. -/
theorem load_grammatical_iff {text : Str} {document : Document D} {input : IStream}
    (h : load stod (ofText text) = .ok (document, input)) :
    Grammatical stod text document.root input.rest ↔ Clean text :=
  ⟨clean_of_grammatical, grammatical_of_clean (reads_of_load h)⟩

theorem load_grammatical_line :
    ∃ document input, load (fun _ => (none : Option Double)) (ofText "[1, 2]".toList) =
        .ok (document, input) ∧
      (Grammatical (fun _ => none) "[1, 2]".toList document.root input.rest ↔
        Clean "[1, 2]".toList) := by
  obtain ⟨⟨document, input⟩, h⟩ := exists_ok_of_isOk
    (x := load (fun _ => (none : Option Double)) (ofText "[1, 2]".toList)) (by decide +kernel)
  exact ⟨document, input, h, load_grammatical_iff h⟩

/-- The array `[1 2]` without its comma is accepted. -/
theorem not_grammatical_line :
    ¬ ∀ (text : Str) (document : Document Double) (input : IStream),
      load (fun _ => none) (ofText text) = .ok (document, input) →
      Grammatical (fun _ => none) text document.root input.rest := by
  intro hall
  obtain ⟨⟨document, input⟩, h⟩ := exists_ok_of_isOk
    (x := load (fun _ => (none : Option Double)) (ofText "[1 2]".toList)) (by decide +kernel)
  have hclean := clean_of_grammatical (hall _ document input h)
  obtain ⟨-, htidy⟩ := (clean_iff (c := '[') rfl).mp hclean
  obtain ⟨-, -, -, hfollows, -⟩ := htidy
  cases hfollows

end TransportSystem.Json
