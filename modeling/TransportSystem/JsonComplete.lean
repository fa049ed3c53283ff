import TransportSystem.JsonReads

namespace TransportSystem.Json

open IStream

variable {D : Type} {stod : Str → Option D}

theorem isSpace_of_isWhite {c : Char} (h : isWhite c = true) : isSpace c = true := by
  simp only [isWhite, Bool.or_eq_true, decide_eq_true_eq] at h
  rcases h with ((rfl | rfl) | rfl) | rfl <;> rfl

theorem skipSpace_append {w : Str} (h : White w) (t : Str) : skipSpace (w ++ t) = skipSpace t :=
  List.dropWhile_append_of_pos fun c hc => isSpace_of_isWhite (h c hc)

theorem skipSpace_cons {c : Char} (h : isSpace c = false) (t : Str) :
    skipSpace (c :: t) = c :: t := by
  simp [skipSpace, h]

theorem skipSpace_enclosed {c : Char} (h : isSpace c = false) (x : Str) (d : Char) (r : Str) :
    skipSpace (c :: (x ++ [d]) ++ r) = c :: (x ++ d :: r) := by
  rw [List.cons_append, skipSpace_cons h, List.append_assoc]
  rfl

theorem White.append_delimited {w r : Str} (hw : White w) (hr : Delimited r) :
    Delimited (w ++ r) := by
  cases w with
  | nil => exact hr
  | cons c w => simp [Delimited, isDelimiter, hw c (by simp)]

/-- The characters after which no value goes on have none of the properties
that the readers of literals and numbers look for. -/
theorem Delimited.head_any {r : Str} (h : Delimited r) {p : Char → Bool}
    (hp : ∀ c ∈ [' ', '\t', '\n', '\r', ',', ']', '}'], p c = false) : r.head?.any p = false := by
  cases r with
  | nil => rfl
  | cons c r =>
      apply hp c
      simpa [Delimited, isDelimiter, isWhite, or_assoc] using h

theorem Delimited.stops {r : Str} (h : Delimited r) (n : Number) : n.Stops r :=
  h.head_any (by simp [Number.continues])

namespace Reads

theorem skip {p : Phrase D} {t t' r : Str} (h : Reads stod p t r)
    (heq : skipSpace t' = skipSpace t) : Reads stod p t' r := by
  cases h with
  | null hskip hend => exact .null (heq.trans hskip) hend
  | bool b hskip hend => exact .bool b (heq.trans hskip) hend
  | number hskip hstops hnode => exact .number (heq.trans hskip) hstops hnode
  | string hskip hx => exact .string (heq.trans hskip) hx
  | array hskip hitems => exact .array (heq.trans hskip) hitems
  | object hskip hmembers hsorted hperm =>
      exact .object (heq.trans hskip) hmembers hsorted hperm
  | closeArray hskip => exact .closeArray (heq.trans hskip)
  | comma hskip hnode hitems => exact .comma (heq.trans hskip) hnode hitems
  | element hskip hclose hcomma hnode hitems =>
      exact .element (heq.trans hskip) hclose hcomma hnode hitems
  | closeDict hskip => exact .closeDict (heq.trans hskip)
  | skipComma hskip hmembers => exact .skipComma (heq.trans hskip) hmembers
  | member hskip hx hcolon hnode hmembers =>
      exact .member (heq.trans hskip) hx hcolon hnode hmembers

end Reads

theorem GrammarOf.value_head {node : Node D} {x : Str} (h : Grammar stod (.value node) x) :
    ∃ c t, x = c :: t ∧ isSpace c = false ∧ c ≠ ',' ∧ c ≠ ']' := by
  cases h with
  | null => exact ⟨'n', "ull".toList, rfl, rfl, by decide, by decide⟩
  | bool b =>
      cases b with
      | true => exact ⟨'t', "rue".toList, rfl, rfl, by decide, by decide⟩
      | false => exact ⟨'f', "alse".toList, rfl, rfl, by decide, by decide⟩
  | @number n =>
      obtain ⟨c, t, htext, rfl | hc⟩ := n.exists_text_eq_cons
      · exact ⟨'-', t, htext, rfl, by decide, by decide⟩
      · exact ⟨c, t, htext, isSpace_of_isDigit hc, ne_of_isDigit hc _ rfl, ne_of_isDigit hc _ rfl⟩
  | string | emptyArray | array | emptyObject | object =>
      exact ⟨_, _, rfl, rfl, by decide, by decide⟩

/-- What the readers do on a text of a phrase, whatever follows it. -/
def Phrase.Loads (stod : Str → Option D) (x : Str) : Phrase D → Prop
  | .value node => ∀ r, Delimited r → Reads stod (.value node) (x ++ r) r
  | .padded node => ∀ r, Delimited r → ∃ r', skipSpace r' = skipSpace r ∧
      Reads stod (.value node) (x ++ r) r' ∧
      ∃ c t, skipSpace (x ++ r) = c :: t ∧ isSpace c = false ∧ c ≠ ',' ∧ c ≠ ']'
  | .elements items => ∀ r, Reads stod (.elements items) (x ++ ']' :: r) r ∧
      Reads stod (.elements items) (',' :: (x ++ ']' :: r)) r
  | .member key node => ∀ after r r', Delimited r → Reads stod (.members after) r r' →
      Reads stod (.members ((key, node) :: after)) (x ++ r) r'
  | .members written => ∀ r, Reads stod (.members written) (x ++ '}' :: r) r

theorem GrammarOf.loads {p : Phrase D} {x : Str} (h : Grammar stod p x) : p.Loads stod x := by
  induction h with
  | null => exact fun r hr => .null rfl (hr.head_any (by simp))
  | bool b =>
      refine fun r hr => .bool b ?_ (hr.head_any (by simp))
      cases b <;> rfl
  | @number n node hnode =>
      refine fun r hr => .number ?_ (hr.stops n) hnode
      obtain ⟨c, t, htext, hspace, -⟩ := (GrammarOf.number hnode).value_head
      rw [htext]
      exact skipSpace_cons hspace _
  | string hx => exact fun r _ => .string (skipSpace_enclosed rfl _ _ r) hx
  | emptyArray hw =>
      refine fun r _ => .array (skipSpace_enclosed rfl _ _ r) (.closeArray ?_)
      rw [skipSpace_append hw, skipSpace_cons rfl]
  | array _ ih => exact fun r _ => .array (skipSpace_enclosed rfl _ _ r) (ih r).1
  | emptyObject hw =>
      refine fun r _ => .object (skipSpace_enclosed rfl _ _ r) (.closeDict ?_) .nil (.refl _)
      rw [skipSpace_append hw, skipSpace_cons rfl]
  | object _ hsorted hperm ih =>
      exact fun r _ => .object (skipSpace_enclosed rfl _ _ r) (ih r) hsorted hperm
  | @padded node w x w' hw hx hw' ih =>
      intro r hr
      obtain ⟨c, t, rfl, hspace, hcomma, hclose⟩ := hx.value_head
      have hskip : skipSpace (w ++ (c :: t ++ w') ++ r) = c :: (t ++ (w' ++ r)) := by
        rw [List.append_assoc, skipSpace_append hw]
        simp [skipSpace_cons hspace]
      refine ⟨w' ++ r, skipSpace_append hw' r, ?_, c, _, hskip, hspace, hcomma, hclose⟩
      refine (ih _ (hw'.append_delimited hr)).skip ?_
      rw [hskip, List.cons_append, skipSpace_cons hspace]
  | element _ ih =>
      intro r
      obtain ⟨r', hr', hnode, c, t, hskip, hspace, hcomma, hclose⟩ := ih (']' :: r) rfl
      have hend : Reads stod (.elements []) r' r := .closeArray (hr'.trans (skipSpace_cons rfl r))
      have hnode' := hnode.skip ((skipSpace_cons hspace t).trans hskip.symm)
      exact ⟨.element hskip hclose hcomma hnode' hend, .comma (skipSpace_cons rfl _) hnode hend⟩
  | @elements node items x y _ _ ih ih' =>
      intro r
      obtain ⟨r', hr', hnode, c, t, hskip, hspace, hcomma, hclose⟩ :=
        ih (',' :: (y ++ ']' :: r)) rfl
      have hrest : Reads stod (.elements items) r' r := (ih' r).2.skip hr'
      have hnode' := hnode.skip ((skipSpace_cons hspace t).trans hskip.symm)
      have htext : x ++ ',' :: y ++ ']' :: r = x ++ ',' :: (y ++ ']' :: r) := by simp
      rw [htext]
      exact ⟨.element hskip hclose hcomma hnode' hrest, .comma (skipSpace_cons rfl _) hnode hrest⟩
  | @member key node w k w' x hw hk hw' _ ih =>
      intro after r r' hr hafter
      obtain ⟨r'', hr'', hnode, -⟩ := ih r hr
      have hskip : skipSpace (w ++ '"' :: (k ++ '"' :: (w' ++ ':' :: x)) ++ r) =
          '"' :: (k ++ '"' :: (w' ++ ':' :: (x ++ r))) := by
        rw [List.append_assoc, skipSpace_append hw, List.cons_append, skipSpace_cons rfl]
        simp
      have hcolon : skipSpace (w' ++ ':' :: (x ++ r)) = ':' :: (x ++ r) := by
        rw [skipSpace_append hw', skipSpace_cons rfl]
      exact .member hskip hk hcolon hnode (hafter.skip hr'')
  | lastMember _ ih =>
      exact fun r => ih [] ('}' :: r) r rfl (.closeDict (skipSpace_cons rfl r))
  | @members key node written x y _ _ ih ih' =>
      intro r
      rw [List.append_assoc]
      exact ih written _ r rfl (.skipComma (skipSpace_cons rfl _) (ih' r))

theorem exists_load_of_value {node : Node D} {text : Str} (h : Grammar stod (.value node) text) :
    ∃ document input, load stod (ofText text) = .ok (document, input) ∧
      document.root = node := by
  have hread := h.loads [] rfl
  rw [List.append_nil] at hread
  obtain ⟨document, input, hload, hroot, -⟩ := exists_load_of_reads hread
  exact ⟨document, input, hload, hroot⟩

/-- `Load` on a text of the grammar, with whitespace around it, returns what the
text stands for. -/
theorem load_padded {node : Node D} {text : Str} (h : Grammar stod (.padded node) text) :
    ∃ document input, load stod (ofText text) = .ok (document, input) ∧
      document.root = node := by
  obtain ⟨r, -, hread, -⟩ := h.loads [] rfl
  rw [List.append_nil] at hread
  obtain ⟨document, input, hload, hroot, -⟩ := exists_load_of_reads hread
  exact ⟨document, input, hload, hroot⟩

theorem load_padded_line :
    ∃ document input, load (fun text => if text = "2.5".toList then some (5 / 2 : Double) else none)
        (ofText "\x7b\"k\": [1, 2.5]\x7d\n".toList) = .ok (document, input) ∧
      document.root = .dict [("k".toList, .array [.int 1, .double (5 / 2)])] := by
  let one : Number := ⟨[], ['1'], [], [], .inl rfl, .inr ⟨⟨by simp, by simp⟩, by simp⟩,
    .inl rfl, .inl rfl⟩
  let half : Number := ⟨[], ['2'], ['.', '5'], [], .inl rfl, .inr ⟨⟨by simp, by simp⟩, by simp⟩,
    .inr ⟨['5'], ⟨by simp, by simp⟩, rfl⟩, .inl rfl⟩
  let stod (text : Str) : Option Double := if text = "2.5".toList then some (5 / 2) else none
  have hone : one.Denotes stod (.int 1) := ⟨rfl, rfl⟩
  have hhalf : half.Denotes stod (.double (5 / 2)) := ⟨fun h => (nomatch h), rfl⟩
  have hspace : White [' '] := by simp [White, isWhite]
  have hend : White ['\n'] := by simp [White, isWhite]
  have hkey : Written ['k'] ['k'] :=
    .plain (by decide) (by decide) (by decide) (by decide) .nil
  have hitems : Grammar stod (.elements [.int 1, .double (5 / 2)]) _ :=
    .elements (.padded white_nil (.number hone) white_nil)
      (.element (.padded hspace (.number hhalf) white_nil))
  exact load_padded (.padded white_nil (.object (.lastMember (.member white_nil hkey white_nil
    (.padded hspace (.array hitems) white_nil))) (List.pairwise_singleton _ _) (.refl _)) hend)

end TransportSystem.Json
