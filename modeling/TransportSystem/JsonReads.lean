import TransportSystem.JsonGrammar

/-!
The texts that `LoadNode`, `LoadArray` and `LoadDict` accept, which are more
than those of the grammar.
-/

namespace TransportSystem.Json

open Library.Effects Library.Lists IStream

variable {D : Type}

/-- `Reads stod p t r`: on the text `t` the reader of `p` returns, and leaves
`r`. The loop of `LoadArray` takes a comma before any element but needs none;
the loop of `LoadDict` skips commas. -/
inductive Reads (stod : Str → Option D) : Phrase D → Str → Str → Prop
  | null {t r : Str} : skipSpace t = "null".toList ++ r → r.head?.any Char.isAlpha = false →
      Reads stod (.value .null) t r
  | bool (b : Bool) {t r : Str} : skipSpace t = boolText b ++ r →
      r.head?.any Char.isAlpha = false → Reads stod (.value (.bool b)) t r
  | number {n : Number} {node : Node D} {t r : Str} : skipSpace t = n.text ++ r → n.Stops r →
      n.Denotes stod node → Reads stod (.value node) t r
  | string {s x t r : Str} : skipSpace t = '"' :: (x ++ '"' :: r) → Written s x →
      Reads stod (.value (.string s)) t r
  | array {items : List (Node D)} {t t' r : Str} : skipSpace t = '[' :: t' →
      Reads stod (.elements items) t' r → Reads stod (.value (.array items)) t r
  | object {members : List (Str × Node D)} {dict : Dict D} {t t' r : Str} :
      skipSpace t = '{' :: t' → Reads stod (.members members) t' r → dict.Sorted →
      dict.Perm members → Reads stod (.value (.dict dict)) t r
  | closeArray {t r : Str} : skipSpace t = ']' :: r → Reads stod (.elements []) t r
  | comma {node : Node D} {items : List (Node D)} {t t' t'' r : Str} : skipSpace t = ',' :: t' →
      Reads stod (.value node) t' t'' → Reads stod (.elements items) t'' r →
      Reads stod (.elements (node :: items)) t r
  | element {node : Node D} {items : List (Node D)} {c : Char} {t t' t'' r : Str} :
      skipSpace t = c :: t' → c ≠ ']' → c ≠ ',' → Reads stod (.value node) (c :: t') t'' →
      Reads stod (.elements items) t'' r → Reads stod (.elements (node :: items)) t r
  | closeDict {t r : Str} : skipSpace t = '}' :: r → Reads stod (.members []) t r
  | skipComma {members : List (Str × Node D)} {t t' r : Str} : skipSpace t = ',' :: t' →
      Reads stod (.members members) t' r → Reads stod (.members members) t r
  | member {key x : Str} {node : Node D} {members : List (Str × Node D)} {t t₁ t₂ t₃ r : Str} :
      skipSpace t = '"' :: (x ++ '"' :: t₁) → Written key x → skipSpace t₁ = ':' :: t₂ →
      Reads stod (.value node) t₂ t₃ → Reads stod (.members members) t₃ r →
      Reads stod (.members ((key, node) :: members)) t r

theorem unescape_eq_some_iff {e c : Char} : unescape e = some c ↔ Escape e c := by
  constructor
  · intro h
    unfold unescape at h
    split_ifs at h with hn ht hr hq hb
    · cases h
      exact hn ▸ .newline
    · cases h
      exact ht ▸ .tab
    · cases h
      exact hr ▸ .carriageReturn
    · cases h
      exact hq ▸ .quote
    · cases h
      exact hb ▸ .backslash
  · intro h
    cases h <;> rfl

theorem loadChars_of_written {s x : Str} (h : Written s x) (acc rest : Str) :
    loadChars acc (x ++ '"' :: rest) = .ok (acc ++ s, rest) := by
  induction h generalizing acc with
  | nil => simp [loadChars.eq_def acc]
  | plain hquote hbackslash hn hr _ ih =>
      rw [List.cons_append, loadChars.eq_def]
      simp [hquote, hbackslash, hn, hr, ih]
  | escape he _ ih =>
      rw [List.cons_append, List.cons_append, loadChars.eq_def]
      simp [unescape_eq_some_iff.mpr he, ih]

theorem written_of_loadChars {acc text s rest : Str} (h : loadChars acc text = .ok (s, rest)) :
    ∃ s' x, Written s' x ∧ text = x ++ '"' :: rest ∧ s = acc ++ s' := by
  fun_induction loadChars acc text with
  | case1 => cases h
  | case2 acc rest' =>
      cases h
      exact ⟨[], [], .nil, rfl, (List.append_nil _).symm⟩
  | case3 => cases h
  | case4 acc escapedChar rest' c hc _ ih =>
      obtain ⟨s', x, hx, rfl, rfl⟩ := ih h
      exact ⟨c :: s', '\\' :: escapedChar :: x, .escape (unescape_eq_some_iff.mp hc) hx, rfl,
        by simp⟩
  | case5 => cases h
  | case6 => cases h
  | case7 acc ch rest' hquote hbackslash hend ih =>
      obtain ⟨s', x, hx, rfl, rfl⟩ := ih h
      exact ⟨ch :: s', ch :: x, .plain hquote hbackslash (fun h => hend (.inl h))
        (fun h => hend (.inr h)) hx, rfl, by simp⟩

theorem loadChars_ne_diverges (acc text : Str) : loadChars acc text ≠ .error .diverges := by
  fun_induction loadChars acc text with
  | case1 | case2 | case3 | case5 | case6 => exact nofun
  | case4 _ _ _ _ _ _ ih => exact ih
  | case7 _ _ _ _ _ _ ih => exact ih

theorem loadString_returns (text : Str) :
    Returns (loadString (D := D) (ofText text)) fun node rest => ∃ s x, node = .string s ∧
      Written s x ∧ text = x ++ '"' :: rest := by
  have hload : loadString (D := D) (ofText text) =
      loadChars [] text >>= fun p => .ok (.string p.1, ofText p.2) := rfl
  rw [hload]
  constructor
  · intro node input h
    obtain ⟨p, hp, h⟩ := bind_eq_ok_iff.mp h
    cases h
    obtain ⟨s, x, hx, htext, hs⟩ := written_of_loadChars hp
    exact ⟨p.2, at_ofText _, s, x, by rw [hs]; rfl, hx, htext⟩
  · rintro node rest ⟨s, x, rfl, hx, rfl⟩
    rw [loadChars_of_written hx]
    exact ⟨ofText rest, rfl, at_ofText rest⟩
  · intro failure h
    cases hp : loadChars [] text with
    | error failure' =>
        rw [hp] at h
        cases h
        rintro rfl
        exact loadChars_ne_diverges _ _ hp
    | ok p =>
        rw [hp] at h
        cases h

theorem loadKey_returns (text : Str) :
    Returns (loadKey (D := D) (ofText text)) fun key rest => ∃ x, Written key x ∧
      text = x ++ '"' :: rest := by
  refine (Yields.bind (loadString_returns text) (R := fun node rest key rest' =>
    node = .string key ∧ rest' = rest) ?_).congr fun key rest => ?_
  · rintro node input rest hat ⟨s, x, rfl, -⟩
    refine (Returns.pure s hat).congr fun key rest' => ?_
    simp [eq_comm]
  · constructor
    · rintro ⟨_, rest, ⟨s, x, rfl, hx, htext⟩, hkey, rfl⟩
      cases hkey
      exact ⟨x, hx, htext⟩
    · rintro ⟨x, hx, htext⟩
      exact ⟨.string key, rest, ⟨key, x, rfl, hx, htext⟩, rfl, rfl⟩

theorem loadLiteral_returns {input : IStream} {text : Str} (hat : input.At text) :
    Returns (loadLiteral input) fun s rest => text = s ++ rest ∧
      (∀ c ∈ s, c.isAlpha = true) ∧ rest.head?.any Char.isAlpha = false :=
  (pushWhile_returns pushBack_cons hat).congr fun _ _ => append_eq_span_iff.symm

theorem isAlpha_boolText (b : Bool) : ∀ c ∈ boolText b, c.isAlpha = true := by
  cases b <;> exact List.all_eq_true.mp rfl

theorem boolText_inj {b b' : Bool} (h : boolText b = boolText b') : b = b' := by
  cases b <;> cases b' <;> first | rfl | exact absurd h (by decide)

theorem loadBool_returns {input : IStream} {text : Str} (hat : input.At text) :
    Returns (loadBool (D := D) input) fun node rest => ∃ b, node = .bool b ∧
      text = boolText b ++ rest ∧ rest.head?.any Char.isAlpha = false := by
  refine (Yields.bind (loadLiteral_returns hat) (R := fun s rest node rest' =>
    ∃ b, s = boolText b ∧ node = .bool b ∧ rest' = rest) ?_).congr fun node rest => ?_
  · intro s input' rest hat' _
    split
    · rename_i hs
      refine (Returns.pure (Node.bool true) hat').congr fun node rest' => ⟨?_, ?_⟩
      · rintro ⟨rfl, rfl⟩
        exact ⟨true, hs, rfl, rfl⟩
      · rintro ⟨b, hb, rfl, rfl⟩
        cases boolText_inj (b := true) (hs.symm.trans hb)
        exact ⟨rfl, rfl⟩
    · rename_i hs
      split
      · rename_i hs'
        refine (Returns.pure (Node.bool false) hat').congr fun node rest' => ⟨?_, ?_⟩
        · rintro ⟨rfl, rfl⟩
          exact ⟨false, hs', rfl, rfl⟩
        · rintro ⟨b, hb, rfl, rfl⟩
          cases boolText_inj (b := false) (hs'.symm.trans hb)
          exact ⟨rfl, rfl⟩
      · rename_i hs'
        refine .throw (by simp) ?_
        rintro node rest' ⟨b, rfl, -, -⟩
        cases b
        · exact hs' rfl
        · exact hs rfl
  · constructor
    · rintro ⟨_, rest, ⟨htext, -, hend⟩, b, rfl, rfl, rfl⟩
      exact ⟨b, rfl, htext, hend⟩
    · rintro ⟨b, rfl, htext, hend⟩
      exact ⟨boolText b, rest, ⟨htext, isAlpha_boolText b, hend⟩, b, rfl, rfl, rfl⟩

theorem loadNull_returns {input : IStream} {text : Str} (hat : input.At text) :
    Returns (loadNull (D := D) input) fun node rest => node = .null ∧
      text = "null".toList ++ rest ∧ rest.head?.any Char.isAlpha = false := by
  refine (Yields.bind (loadLiteral_returns hat) (R := fun s rest node rest' =>
    s = "null".toList ∧ node = .null ∧ rest' = rest) ?_).congr fun node rest => ?_
  · intro s input' rest hat' _
    split
    · rename_i hs
      refine (Returns.pure Node.null hat').congr fun node rest' => ?_
      simp [hs]
    · rename_i hs
      refine .throw (by simp) ?_
      rintro node rest' ⟨h, -⟩
      exact hs h
  · constructor
    · rintro ⟨_, rest, ⟨htext, -, hend⟩, rfl, rfl, rfl⟩
      exact ⟨rfl, htext, hend⟩
    · rintro ⟨rfl, htext, hend⟩
      exact ⟨_, rest, ⟨htext, List.all_eq_true.mp rfl, hend⟩, rfl, rfl, rfl⟩

theorem length_le_of_skipSpace {t t' : Str} (h : skipSpace t = t') : t'.length ≤ t.length := by
  rw [← h]
  exact (List.dropWhile_sublist _).length_le

namespace Reads

variable {stod : Str → Option D} {p : Phrase D} {node : Node D} {t t' r : Str} {c : Char}

theorem length_lt (h : Reads stod p t r) : r.length < t.length := by
  induction h with
  | null hskip | string hskip | closeArray hskip | closeDict hskip =>
      have hlength := length_le_of_skipSpace hskip
      simp at hlength
      omega
  | bool b hskip =>
      have hlength := length_le_of_skipSpace hskip
      cases b <;> simp [boolText] at hlength <;> omega
  | @number n node t r hskip =>
      obtain ⟨c, rest, htext, -⟩ := n.exists_text_eq_cons
      have hlength := length_le_of_skipSpace hskip
      simp [htext] at hlength
      omega
  | array hskip _ ih | object hskip _ _ _ ih | skipComma hskip _ ih =>
      have hlength := length_le_of_skipSpace hskip
      simp at hlength
      omega
  | comma hskip _ _ ih ih' =>
      have hlength := length_le_of_skipSpace hskip
      simp at hlength
      omega
  | element hskip _ _ _ _ ih ih' =>
      have hlength := length_le_of_skipSpace hskip
      omega
  | member hskip _ hskip' _ _ ih ih' =>
      have hlength := length_le_of_skipSpace hskip
      have hlength' := length_le_of_skipSpace hskip'
      simp at hlength hlength'
      omega

theorem skipSpace_ne_nil (h : Reads stod p t r) : skipSpace t ≠ [] := by
  intro hnil
  have hskip (t' : Str) (h : skipSpace t = t') : t' = [] := h.symm.trans hnil
  cases h with
  | null h | string h | array h | object h | closeArray h | comma h | element h | closeDict h
  | skipComma h | member h => cases hskip _ h
  | bool b h => cases b <;> cases hskip _ h
  | @number n _ _ _ h =>
      obtain ⟨c, rest, htext, -⟩ := n.exists_text_eq_cons
      rw [htext] at h
      cases hskip _ h

theorem value_iff (hc : skipSpace t = c :: t') : Reads stod (.value node) t r ↔
    if c = '[' then ∃ items, node = .array items ∧ Reads stod (.elements items) t' r
    else if c = '{' then ∃ members dict, node = .dict dict ∧ Dict.Sorted dict ∧
      dict.Perm members ∧ Reads stod (.members members) t' r
    else if c = '"' then ∃ s x, node = .string s ∧ Written s x ∧ t' = x ++ '"' :: r
    else if c = 't' ∨ c = 'f' then ∃ b, node = .bool b ∧ c :: t' = boolText b ++ r ∧
      r.head?.any Char.isAlpha = false
    else if c = 'n' then node = .null ∧ c :: t' = "null".toList ++ r ∧
      r.head?.any Char.isAlpha = false
    else ∃ n : Number, c :: t' = n.text ++ r ∧ n.Stops r ∧ n.Denotes stod node := by
  constructor
  · intro h
    cases h with
    | null hskip hend =>
        rw [hc] at hskip
        obtain ⟨rfl, -⟩ := List.cons.inj hskip
        exact ⟨rfl, hskip, hend⟩
    | bool b hskip hend =>
        rw [hc] at hskip
        cases b with
        | true =>
            obtain ⟨rfl, -⟩ := List.cons.inj hskip
            exact ⟨true, rfl, hskip, hend⟩
        | false =>
            obtain ⟨rfl, -⟩ := List.cons.inj hskip
            exact ⟨false, rfl, hskip, hend⟩
    | @number n _ _ _ hskip hstops hnode =>
        rw [hc] at hskip
        obtain ⟨c', rest, htext, hc'⟩ := n.exists_text_eq_cons
        have hcc' : c = c' := by
          rw [htext] at hskip
          exact (List.cons.inj hskip).1
        subst hcc'
        have hne := Number.head_ne hc'
        rw [if_neg (hne _ (by decide) rfl), if_neg (hne _ (by decide) rfl),
          if_neg (hne _ (by decide) rfl),
          if_neg (not_or.mpr ⟨hne _ (by decide) rfl, hne _ (by decide) rfl⟩),
          if_neg (hne _ (by decide) rfl)]
        exact ⟨n, hskip, hstops, hnode⟩
    | string hskip hx =>
        obtain ⟨rfl, rfl⟩ := List.cons.inj (hc.symm.trans hskip)
        exact ⟨_, _, rfl, hx, rfl⟩
    | array hskip hitems =>
        obtain ⟨rfl, rfl⟩ := List.cons.inj (hc.symm.trans hskip)
        exact ⟨_, rfl, hitems⟩
    | object hskip hmembers hsorted hperm =>
        obtain ⟨rfl, rfl⟩ := List.cons.inj (hc.symm.trans hskip)
        exact ⟨_, _, rfl, hsorted, hperm, hmembers⟩
  · intro h
    split_ifs at h with hc₁ hc₂ hc₃ hc₄ hc₅
    · obtain ⟨items, rfl, hitems⟩ := h
      exact .array (hc₁ ▸ hc) hitems
    · obtain ⟨members, dict, rfl, hsorted, hperm, hmembers⟩ := h
      exact .object (hc₂ ▸ hc) hmembers hsorted hperm
    · obtain ⟨s, x, rfl, hx, rfl⟩ := h
      exact .string (hc₃ ▸ hc) hx
    · obtain ⟨b, rfl, htext, hend⟩ := h
      exact .bool b (hc.trans htext) hend
    · obtain ⟨rfl, htext, hend⟩ := h
      exact .null (hc.trans htext) hend
    · obtain ⟨n, htext, hstops, hnode⟩ := h
      exact .number (hc.trans htext) hstops hnode

theorem elements_iff {items : List (Node D)} (hc : skipSpace t = c :: t') :
    Reads stod (.elements items) t r ↔
      if c = ']' then items = [] ∧ r = t'
      else ∃ node rest t'', items = node :: rest ∧
        Reads stod (.value node) (if c = ',' then t' else c :: t') t'' ∧
        Reads stod (.elements rest) t'' r := by
  constructor
  · intro h
    cases h with
    | closeArray hskip =>
        obtain ⟨rfl, rfl⟩ := List.cons.inj (hc.symm.trans hskip)
        exact ⟨rfl, rfl⟩
    | comma hskip hnode hitems =>
        obtain ⟨rfl, rfl⟩ := List.cons.inj (hc.symm.trans hskip)
        exact ⟨_, _, _, rfl, hnode, hitems⟩
    | element hskip hclose hcomma hnode hitems =>
        obtain ⟨rfl, rfl⟩ := List.cons.inj (hc.symm.trans hskip)
        rw [if_neg hclose, if_neg hcomma]
        exact ⟨_, _, _, rfl, hnode, hitems⟩
  · intro h
    split_ifs at h with hclose hcomma
    · obtain ⟨rfl, rfl⟩ := h
      exact .closeArray (hclose ▸ hc)
    · obtain ⟨node, rest, t'', rfl, hnode, hitems⟩ := h
      exact .comma (hcomma ▸ hc) hnode hitems
    · obtain ⟨node, rest, t'', rfl, hnode, hitems⟩ := h
      exact .element hc hclose hcomma hnode hitems

theorem members_iff {members : List (Str × Node D)} (hc : skipSpace t = c :: t') :
    Reads stod (.members members) t r ↔
      if c = '}' then members = [] ∧ r = t'
      else if c = '"' then ∃ key t₁, (∃ x, Written key x ∧ t' = x ++ '"' :: t₁) ∧
        ∃ t₂, skipSpace t₁ = ':' :: t₂ ∧
        ∃ node t₃, Reads stod (.value node) t₂ t₃ ∧
        ∃ rest, members = (key, node) :: rest ∧ Reads stod (.members rest) t₃ r
      else c = ',' ∧ Reads stod (.members members) t' r := by
  constructor
  · intro h
    cases h with
    | closeDict hskip =>
        obtain ⟨rfl, rfl⟩ := List.cons.inj (hc.symm.trans hskip)
        exact ⟨rfl, rfl⟩
    | skipComma hskip hmembers =>
        obtain ⟨rfl, rfl⟩ := List.cons.inj (hc.symm.trans hskip)
        exact ⟨rfl, hmembers⟩
    | member hskip hx hcolon hnode hmembers =>
        obtain ⟨rfl, rfl⟩ := List.cons.inj (hc.symm.trans hskip)
        exact ⟨_, _, ⟨_, hx, rfl⟩, _, hcolon, _, _, hnode, _, rfl, hmembers⟩
  · intro h
    split_ifs at h with hclose hquote
    · obtain ⟨rfl, rfl⟩ := h
      exact .closeDict (hclose ▸ hc)
    · obtain ⟨key, t₁, ⟨x, hx, rfl⟩, t₂, hcolon, node, t₃, hnode, rest, rfl, hmembers⟩ := h
      exact .member (hquote ▸ hc) hx hcolon hnode hmembers
    · exact .skipComma (h.1 ▸ hc) h.2

end Reads

section Fuel

variable (stod : Str → Option D) (fuel : ℕ)

def NodeReturns : Prop :=
  ∀ input text, input.At text → 2 * text.length + 1 ≤ fuel →
    Returns (loadNode stod fuel input) fun node rest => Reads stod (.value node) text rest

def ArrayReturns : Prop :=
  ∀ result input text, input.At text → 2 * text.length + 2 ≤ fuel →
    Returns (loadArray stod fuel result input) fun node rest =>
      ∃ items, node = .array (result ++ items) ∧ Reads stod (.elements items) text rest

def DictReturns : Prop :=
  ∀ before : Dict D, before.Sorted → ∀ input text, input.At text → 2 * text.length + 2 ≤ fuel →
    Returns (loadDict stod fuel before input) fun node rest =>
      ∃ members dict, node = .dict dict ∧ Dict.Sorted dict ∧ dict.Perm (before ++ members) ∧
        Reads stod (.members members) text rest

end Fuel

section Steps

variable {stod : Str → Option D} {fuel : ℕ}

theorem loadNode_step (hArray : ArrayReturns stod fuel) (hDict : DictReturns stod fuel) :
    NodeReturns stod (fuel + 1) := by
  intro input text hat hfuel
  refine Returns.extract hat (fun hskip input' _ => ?_) fun c t hskip => ?_
  · refine .throw (by simp [parsingError]) fun node rest h => ?_
    exact h.skipSpace_ne_nil hskip
  · have hlength := length_le_of_skipSpace hskip
    rw [List.length_cons] at hlength
    refine Yields.congr ?_ fun node rest => (Reads.value_iff hskip).symm
    dsimp only
    split_ifs with harray hdict hstring hbool hnull
    · exact hArray [] _ t (at_ofText t) (by omega)
    · exact hDict [] .nil _ t (at_ofText t) (by omega) |>.congr fun node rest => by simp
    · exact loadString_returns t
    · exact .bind_of_ok rfl (loadBool_returns (at_ofText (c :: t)))
    · exact .bind_of_ok rfl (loadNull_returns (at_ofText (c :: t)))
    · exact .bind_of_ok rfl (loadNumber_returns (at_ofText (c :: t)))

theorem finish_of_fail {error : String} {node : Node D} {input : IStream}
    (h : input.fail = true) : finish error node input = .error (parsingError error) := by
  obtain ⟨rest, eof, fail⟩ := input
  cases h
  rfl

theorem putbackUnlessComma_ofText (c : Char) (t : Str) :
    putbackUnlessComma c (ofText t) = .ok ((), ofText (if c = ',' then t else c :: t)) := by
  unfold putbackUnlessComma
  split_ifs <;> first | rfl | contradiction

theorem loadArray_step (hNode : NodeReturns stod fuel) (hArray : ArrayReturns stod fuel) :
    ArrayReturns stod (fuel + 1) := by
  intro result input text hat hfuel
  refine Returns.extract hat (fun hskip input' hfail => ?_) fun c t hskip => ?_
  · dsimp only
    rw [finish_of_fail hfail]
    refine .error (by simp [parsingError]) ?_
    rintro node rest ⟨items, -, h⟩
    exact h.skipSpace_ne_nil hskip
  · have hlength := length_le_of_skipSpace hskip
    rw [List.length_cons] at hlength
    dsimp only
    split_ifs with hclose
    · refine (Yields.ok (at_ofText t)).congr fun node rest => ?_
      simp [Reads.elements_iff hskip, hclose]
    · refine .bind_of_ok (putbackUnlessComma_ofText c t) ?_
      have htext : (if c = ',' then t else c :: t).length ≤ text.length := by
        split_ifs
        · omega
        · simpa using hlength
      refine (Yields.bind (f := fun node => loadArray stod fuel (result ++ [node]))
        (hNode _ _ (at_ofText _) (by omega)) (R := fun node rest node' rest' =>
          ∃ items, node' = .array (result ++ node :: items) ∧
            Reads stod (.elements items) rest rest') ?_).congr fun node rest => ?_
      · intro node input' rest hat' hread
        have hlt := hread.length_lt
        refine (hArray (result ++ [node]) input' rest hat' (by omega)).congr fun node' rest' => ?_
        simp
      · simp only [Reads.elements_iff hskip, if_neg hclose]
        constructor
        · rintro ⟨node', rest', hread, items, rfl, hitems⟩
          exact ⟨_, rfl, node', items, rest', rfl, hread, hitems⟩
        · rintro ⟨_, rfl, node', items, rest', rfl, hread, hitems⟩
          exact ⟨node', rest', hread, items, rfl, hitems⟩

theorem loadColon_returns {before : Dict D} {key : Str} {input : IStream} {text : Str}
    (hat : input.At text) :
    Returns (loadColon before key input) fun _ rest =>
      before.find key = none ∧ skipSpace text = ':' :: rest := by
  refine Returns.extract hat (fun hskip input' _ => ?_) fun c t hskip => ?_
  · exact .throw (by simp [colonExpected]) (by simp [hskip])
  · rw [hskip]
    split_ifs with hcolon hfind
    · exact .throw (by simp [colonExpected]) fun _ rest h => hcolon (by
        rw [(List.cons.inj h.2).1])
    · exact .throw (by simp [duplicateKey]) fun _ rest h => by simp [h.1] at hfind
    · refine (Returns.pure () (at_ofText t)).congr fun _ rest => ?_
      have hc : c = ':' := by simpa using hcolon
      have hnone : before.find key = none := by simpa using hfind
      simp [hc, hnone, eq_comm]

theorem loadDict_step (hNode : NodeReturns stod fuel) (hDict : DictReturns stod fuel) :
    DictReturns stod (fuel + 1) := by
  intro before hbefore input text hat hfuel
  refine Returns.extract hat (fun hskip input' hfail => ?_) fun c t hskip => ?_
  · dsimp only
    rw [finish_of_fail hfail]
    refine .error (by simp [parsingError]) ?_
    rintro node rest ⟨members, dict, -, -, -, h⟩
    exact h.skipSpace_ne_nil hskip
  · have hlength := length_le_of_skipSpace hskip
    rw [List.length_cons] at hlength
    dsimp only
    split_ifs with hclose hquote hcomma
    · refine (Yields.ok (at_ofText t)).congr fun node rest => ?_
      simp only [Reads.members_iff hskip, if_pos hclose]
      constructor
      · rintro ⟨rfl, rfl⟩
        exact ⟨[], before, rfl, hbefore, by simp, rfl, rfl⟩
      · rintro ⟨_, dict, rfl, hsorted, hperm, rfl, rfl⟩
        rw [List.append_nil] at hperm
        rw [hsorted.eq_of_perm hbefore hperm]
        exact ⟨rfl, rfl⟩
    · refine (Yields.bind (loadKey_returns t) (f := fun key => loadColon before key >>= fun _ =>
          loadNode stod fuel >>= fun node => loadDict stod fuel (before.emplace key node))
        fun key input₁ t₁ hat₁ hkey => Yields.bind (loadColon_returns hat₁)
          fun _ input₂ t₂ hat₂ hcolon => Yields.bind (hNode _ _ hat₂ ?_)
            fun node input₃ t₃ hat₃ hread =>
              hDict (before.emplace key node) (hbefore.emplace node hcolon.1) _ _ hat₃ ?_).congr
        fun node rest => ?_
      · obtain ⟨x, -, rfl⟩ := hkey
        have hlength₁ := length_le_of_skipSpace hcolon.2
        simp only [List.length_append, List.length_cons] at hlength hlength₁
        omega
      · obtain ⟨x, -, rfl⟩ := hkey
        have hlength₁ := length_le_of_skipSpace hcolon.2
        have hlt := hread.length_lt
        simp only [List.length_append, List.length_cons] at hlength hlength₁
        omega
      · simp only [Reads.members_iff hskip, if_neg hclose, if_pos hquote]
        constructor
        · rintro ⟨key, t₁, hkey, _, t₂, ⟨hfind, hcolon⟩, value, t₃, hread, members, dict, rfl,
            hsorted, hperm, hmembers⟩
          refine ⟨(key, value) :: members, dict, rfl, hsorted, ?_, key, t₁, hkey, t₂, hcolon,
            value, t₃, hread, members, rfl, hmembers⟩
          exact hperm.trans ((Dict.emplace_perm value hfind).append_right members |>.trans
            List.perm_middle.symm)
        · rintro ⟨_, dict, rfl, hsorted, hperm, key, t₁, hkey, t₂, hcolon, value, t₃, hread,
            members, rfl, hmembers⟩
          have hfind := hsorted.find_eq_none hperm
          refine ⟨key, t₁, hkey, (), t₂, ⟨hfind, hcolon⟩, value, t₃, hread, members, dict, rfl,
            hsorted, ?_, hmembers⟩
          exact hperm.trans (List.perm_middle.trans
            ((Dict.emplace_perm value hfind).append_right members).symm)
    · refine .throw (by simp [commaExpected]) ?_
      rintro node rest ⟨members, dict, -, -, -, h⟩
      rw [Reads.members_iff hskip, if_neg hclose, if_neg hquote] at h
      exact hcomma h.1
    · refine (hDict before hbefore _ t (at_ofText t) (by omega)).congr fun node rest => ?_
      have hc : c = ',' := by simpa using hcomma
      simp [Reads.members_iff hskip, hc]

theorem load_step (stod : Str → Option D) (fuel : ℕ) :
    NodeReturns stod fuel ∧ ArrayReturns stod fuel ∧ DictReturns stod fuel := by
  induction fuel with
  | zero =>
      refine ⟨fun _ _ _ h => ?_, fun _ _ _ _ h => ?_, fun _ _ _ _ _ h => ?_⟩ <;> omega
  | succ fuel ih =>
      obtain ⟨ihNode, ihArray, ihDict⟩ := ih
      exact ⟨loadNode_step ihArray ihDict, loadArray_step ihNode ihArray,
        loadDict_step ihNode ihDict⟩

end Steps

section Load

variable {stod : Str → Option D}

/-- What `Load` returns is what `Reads` allows, -/
theorem reads_of_load {text : Str} {document : Document D} {input : IStream}
    (h : load stod (ofText text) = .ok (document, input)) :
    Reads stod (.value document.root) text input.rest := by
  have hload := (load_step stod (2 * text.length + 1)).1 (ofText text) text (at_ofText text) le_rfl
  obtain ⟨rest, hat, hread⟩ := hload.sound _ _ (load_eq_ok_iff.mp h)
  rwa [hat.rest_eq]

/-- and it returns whatever `Reads` allows. -/
theorem exists_load_of_reads {text : Str} {node : Node D} {rest : Str}
    (h : Reads stod (.value node) text rest) :
    ∃ document input, load stod (ofText text) = .ok (document, input) ∧ document.root = node ∧
      input.rest = rest := by
  have hload := (load_step stod (2 * text.length + 1)).1 (ofText text) text (at_ofText text) le_rfl
  obtain ⟨input, h, hat⟩ := hload.complete _ _ h
  exact ⟨⟨node, loadNode_sorted h⟩, input, load_eq_ok_iff.mpr h, rfl, hat.rest_eq⟩

/-- `Load` always ends. -/
theorem load_ne_diverges (text : Str) : load stod (ofText text) ≠ .error .diverges := by
  intro h
  have hload := (load_step stod (2 * text.length + 1)).1 (ofText text) text (at_ofText text) le_rfl
  exact hload.fails _ (load_eq_error_iff.mp h) rfl

end Load

end TransportSystem.Json
