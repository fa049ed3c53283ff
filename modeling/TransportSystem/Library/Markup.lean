import TransportSystem.Library.Lists

/-!
Trees of elements, attributes and texts, and how XML writes them. A character of a text or a
value stands as it is or is named by one of the predefined entities.
-/

namespace TransportSystem.Library.Markup

open TransportSystem.Library.Lists

def entities : List (Char × List Char) :=
  [ ('&', ['&', 'a', 'm', 'p', ';']),
    ('<', ['&', 'l', 't', ';']),
    ('>', ['&', 'g', 't', ';']),
    ('"', ['&', 'q', 'u', 'o', 't', ';']),
    ('\'', ['&', 'a', 'p', 'o', 's', ';']) ]

/-- A character of a document that is read as it is. A carriage return is not: it is read as the
end of a line. -/
def Legal (c : Char) : Prop :=
  c = '\t' ∨ c = '\n' ∨ ' ' ≤ c ∧ c.toNat ≠ 0xFFFE ∧ c.toNat ≠ 0xFFFF

/-- A character that stands as it is in a text. -/
def Plain (c : Char) : Prop := Legal c ∧ c ≠ '<' ∧ c ≠ '&'

/-- A character that stands as it is in the value of an attribute, where tabs and ends of lines
are read as blanks. -/
def PlainValue (c : Char) : Prop := Plain c ∧ c ≠ '\t' ∧ c ≠ '\n' ∧ c ≠ '"'

instance : DecidablePred Legal := fun _ => inferInstanceAs (Decidable (_ ∨ _))

instance : DecidablePred Plain := fun _ => inferInstanceAs (Decidable (_ ∧ _))

instance : DecidablePred PlainValue := fun _ => inferInstanceAs (Decidable (_ ∧ _))

/-- The second text stands for the first one. -/
inductive Written (plain : Char → Prop) : List Char → List Char → Prop
  | nil : Written plain [] []
  | plain {c : Char} {s x : List Char} : plain c → Written plain s x →
      Written plain (c :: s) (c :: x)
  | entity {c : Char} {e s x : List Char} : (c, e) ∈ entities → Written plain s x →
      Written plain (c :: s) (e ++ x)

def inName (c : Char) : Bool := c.isAlphanum || c = '-'

def IsName (name : List Char) : Prop :=
  name.head?.any Char.isAlpha = true ∧ ∀ c ∈ name, inName c = true

instance (name : List Char) : Decidable (IsName name) :=
  decidable_of_iff (name.head?.any Char.isAlpha && name.all inName) (by simp [IsName])

inductive Attributes : List (List Char × List Char) → List Char → Prop
  | nil : Attributes [] []
  | cons {name value x y : List Char} {attributes : List (List Char × List Char)} :
      IsName name → Written PlainValue value x → Attributes attributes y →
      Attributes ((name, value) :: attributes) (' ' :: (name ++ '=' :: '"' :: (x ++ '"' :: y)))

inductive Item
  | text (s : List Char)
  | element (name : List Char) (attributes : List (List Char × List Char)) (content : List Item)

/-- The next item, if there is one, is an element. -/
def NoText : List Item → Prop
  | .text _ :: _ => False
  | _ => True

/-- The beginning of a tag, without its end. -/
inductive Tag : List Char → List (List Char × List Char) → List Char → Prop
  | intro {name y : List Char} {attributes : List (List Char × List Char)} :
      IsName name → (attributes.map Prod.fst).Nodup → Attributes attributes y →
      Tag name attributes ('<' :: (name ++ y))

/-- The text stands for the content of an element, whose adjacent characters are one text. -/
inductive Content : List Item → List Char → Prop
  | nil : Content [] []
  | text {s x y : List Char} {items : List Item} : s ≠ [] → Written Plain s x →
      ¬ "]]>".toList <:+: x → NoText items → Content items y → Content (.text s :: items) (x ++ y)
  | empty {name z y : List Char} {attributes : List (List Char × List Char)}
      {items : List Item} : Tag name attributes z → Content items y →
      Content (.element name attributes [] :: items) (z ++ '/' :: '>' :: y)
  | element {name z x y : List Char} {attributes : List (List Char × List Char)}
      {content items : List Item} : Tag name attributes z → Content content x →
      Content items y → Content (.element name attributes content :: items)
        (z ++ '>' :: (x ++ '<' :: '/' :: (name ++ '>' :: y)))

theorem bne_of_not_mem {d : Char} {x : List Char} (h : d ∉ x) : ∀ c ∈ x, (c != d) = true :=
  fun _ hc => bne_iff_ne.mpr fun heq => h (heq ▸ hc)

section Written

variable {plain : Char → Prop} {s s' x r r' : List Char}

theorem exists_tail {c : Char} {e : List Char} (h : (c, e) ∈ entities) :
    ∃ tail, e = '&' :: tail ∧ tail ≠ [] ∧ ∀ d ∈ tail, Plain d ∧ d ≠ '>' ∧ d ≠ '"' := by
  simp only [entities, List.mem_cons, List.not_mem_nil, or_false, Prod.mk.injEq] at h
  rcases h with ⟨-, rfl⟩ | ⟨-, rfl⟩ | ⟨-, rfl⟩ | ⟨-, rfl⟩ | ⟨-, rfl⟩
  all_goals exact ⟨_, rfl, by simp, by simp [Plain, Legal]⟩

theorem legal_of_entity {c : Char} {e : List Char} (h : (c, e) ∈ entities) : Legal c := by
  simp only [entities, List.mem_cons, List.not_mem_nil, or_false, Prod.mk.injEq] at h
  rcases h with ⟨rfl, -⟩ | ⟨rfl, -⟩ | ⟨rfl, -⟩ | ⟨rfl, -⟩ | ⟨rfl, -⟩
  all_goals decide

/-- No entity begins another one. -/
theorem entity_unique {c c' : Char} {e e' : List Char} (h : (c, e) ∈ entities)
    (h' : (c', e') ∈ entities) (heq : e ++ r = e' ++ r') : c = c' ∧ r = r' := by
  simp only [entities, List.mem_cons, List.not_mem_nil, or_false, Prod.mk.injEq] at h h'
  rcases h with ⟨rfl, rfl⟩ | ⟨rfl, rfl⟩ | ⟨rfl, rfl⟩ | ⟨rfl, rfl⟩ | ⟨rfl, rfl⟩
  all_goals
    rcases h' with ⟨rfl, rfl⟩ | ⟨rfl, rfl⟩ | ⟨rfl, rfl⟩ | ⟨rfl, rfl⟩ | ⟨rfl, rfl⟩
    all_goals simp_all

theorem Written.length_le (h : Written plain s x) : s.length ≤ x.length := by
  induction h with
  | nil => apply Nat.le_refl
  | plain _ _ ih => simpa using ih
  | entity he _ ih =>
      obtain ⟨tail, rfl, -, -⟩ := exists_tail he
      simp only [List.length_append, List.length_cons]
      omega

/-- What is not longer than the text it stands for is this text. -/
theorem Written.eq_of_length_le (h : Written plain s x) (hle : x.length ≤ s.length) :
    x = s ∧ ∀ c ∈ s, plain c := by
  induction h with
  | nil => exact ⟨rfl, by simp⟩
  | plain hc _ ih =>
      obtain ⟨rfl, hs⟩ := ih (by simpa using hle)
      exact ⟨rfl, List.forall_mem_cons.mpr ⟨hc, hs⟩⟩
  | entity he hs _ =>
      obtain ⟨tail, rfl, htail, -⟩ := exists_tail he
      have hlength := hs.length_le
      have hpos := List.length_pos_iff.mpr htail
      simp only [List.length_append, List.length_cons] at hle
      omega

theorem Written.plain_append (h : Written plain s x) (hr : ∀ c ∈ r, plain c) :
    Written plain (r ++ s) (r ++ x) := by
  induction r with
  | nil => exact h
  | cons c r ih =>
      rw [List.forall_mem_cons] at hr
      exact .plain hr.1 (ih hr.2)

theorem written_of_plain (h : ∀ c ∈ s, plain c) : Written plain s s := by
  simpa using Written.nil.plain_append h

theorem Written.not_mem (h : Written plain s x) {d : Char} (hd : d ∈ ['<', '>', '"'])
    (hplain : ¬ plain d) : d ∉ x := by
  induction h with
  | nil => simp
  | plain hc _ ih =>
      rw [List.mem_cons, not_or]
      exact ⟨fun heq => hplain (heq ▸ hc), ih⟩
  | entity he _ ih =>
      obtain ⟨tail, rfl, -, htail⟩ := exists_tail he
      have hamp : d ≠ '&' := by
        rintro rfl
        simp at hd
      have hmem : d ∉ tail := fun hmem => by
        obtain ⟨⟨-, hangle, -⟩, hbracket, hquote⟩ := htail d hmem
        simp [hangle, hbracket, hquote] at hd
      simp [hamp, hmem, ih]

theorem Written.legal (h : Written plain s x) (hplain : ∀ c, plain c → Legal c) :
    ∀ c ∈ s, Legal c := by
  induction h with
  | nil => simp
  | plain hc _ ih => exact List.forall_mem_cons.mpr ⟨hplain _ hc, ih⟩
  | entity he _ ih => exact List.forall_mem_cons.mpr ⟨legal_of_entity he, ih⟩

theorem Written.ne_nil (h : Written plain s x) (hs : s ≠ []) : x ≠ [] := by
  have hlength := h.length_le
  rw [← List.length_pos_iff] at hs ⊢
  omega

/-- What stands for a text stands for no other one. -/
theorem Written.unique (h : Written plain s x) (hamp : ¬ plain '&') (h' : Written plain s' x) :
    s = s' := by
  induction h generalizing s' with
  | nil =>
      cases s' with
      | nil => rfl
      | cons c s' => exact absurd rfl (h'.ne_nil (by simp))
  | @plain c s x hc _ ih =>
      generalize hy : c :: x = y at h'
      cases h' with
      | nil => cases hy
      | plain _ hs' =>
          cases hy
          rw [ih hs']
      | entity he _ =>
          obtain ⟨tail, rfl, -, -⟩ := exists_tail he
          cases hy
          exact absurd hc hamp
  | @entity c e s x he _ ih =>
      generalize hy : e ++ x = y at h'
      cases h' with
      | nil =>
          obtain ⟨tail, rfl, -, -⟩ := exists_tail he
          cases hy
      | plain hc _ =>
          obtain ⟨tail, rfl, -, -⟩ := exists_tail he
          cases hy
          exact absurd hc hamp
      | entity he' hs' =>
          obtain ⟨rfl, rfl⟩ := entity_unique he he' hy
          rw [ih hs']

end Written

section Attributes

variable {attributes attributes' : List (List Char × List Char)}
  {name name' s x x' y y' r r' : List Char}

theorem IsName.unique (h : IsName name) (h' : IsName name') (hr : r.head?.any inName = false)
    (hr' : r'.head?.any inName = false) (heq : name ++ r = name' ++ r') :
    name = name' ∧ r = r' :=
  append_inj_of_span heq h.2 hr h'.2 hr'

theorem IsName.exists_cons (h : IsName name) : ∃ c name', name = c :: name' ∧ c.isAlpha = true := by
  cases name with
  | nil => simp [IsName] at h
  | cons c name' => exact ⟨c, name', rfl, by simpa using h.1⟩

theorem Written.quote_not_mem (h : Written PlainValue s x) : '"' ∉ x :=
  h.not_mem (by simp) (by decide)

/-- The quote ends a value. -/
theorem quote_unique (h : '"' ∉ x) (h' : '"' ∉ x') (heq : x ++ '"' :: r = x' ++ '"' :: r') :
    x = x' ∧ r = r' := by
  obtain ⟨rfl, hr⟩ := append_inj_of_span heq (bne_of_not_mem h) (by simp) (bne_of_not_mem h')
    (by simp)
  exact ⟨rfl, (List.cons.inj hr).2⟩

theorem Attributes.unique (h : Attributes attributes y) (h' : Attributes attributes' y')
    (hr : r.head? ≠ some ' ') (hr' : r'.head? ≠ some ' ') (heq : y ++ r = y' ++ r') :
    attributes = attributes' ∧ r = r' := by
  induction h generalizing attributes' y' with
  | nil =>
      cases h' with
      | nil => exact ⟨rfl, heq⟩
      | cons _ _ _ =>
          rw [List.nil_append] at heq
          exact absurd (by rw [heq]; rfl) hr
  | @cons name value x y attributes hname hvalue _ ih =>
      cases h' with
      | nil =>
          rw [List.nil_append] at heq
          exact absurd (by rw [← heq]; rfl) hr'
      | @cons name' value' x' y' attributes' hname' hvalue' hattributes' =>
          simp only [List.cons_append, List.append_assoc, List.cons.injEq, true_and] at heq
          obtain ⟨rfl, hafter⟩ := hname.unique hname' rfl rfl heq
          simp only [List.cons.injEq, true_and] at hafter
          obtain ⟨rfl, hy⟩ := quote_unique hvalue.quote_not_mem hvalue'.quote_not_mem hafter
          obtain ⟨rfl, hrest⟩ := ih hattributes' hy
          rw [hvalue.unique (by decide) hvalue']
          exact ⟨rfl, hrest⟩

/-- Attributes whose values stand as they are. -/
def plainAttributes (attributes : List (List Char × List Char)) : List Char :=
  attributes.flatMap fun a => ' ' :: (a.1 ++ '=' :: '"' :: (a.2 ++ ['"']))

theorem plainAttributes_append :
    plainAttributes (attributes ++ attributes') =
      plainAttributes attributes ++ plainAttributes attributes' :=
  List.flatMap_append

theorem plainAttributes_cons_append (a : List Char × List Char) :
    plainAttributes (a :: attributes) ++ r =
      ' ' :: (a.1 ++ '=' :: '"' :: (a.2 ++ '"' :: (plainAttributes attributes ++ r))) := by
  simp [plainAttributes]

theorem attributes_plain (hnames : ∀ a ∈ attributes, IsName a.1)
    (h : ∀ a ∈ attributes, ∀ c ∈ a.2, PlainValue c) :
    Attributes attributes (plainAttributes attributes) := by
  induction attributes with
  | nil => exact .nil
  | cons a attributes ih =>
      rw [List.forall_mem_cons] at hnames h
      have hcons := @plainAttributes_cons_append attributes [] a
      rw [List.append_nil, List.append_nil] at hcons
      rw [hcons]
      exact .cons hnames.1 (written_of_plain h.1) (ih hnames.2 h.2)

/-- Where a value stands as it is, no quote ends it too early and no character of it has to be
named. -/
theorem plain_of_quote (h : Written PlainValue s x) (heq : s ++ '"' :: r = x ++ '"' :: r') :
    x = s ∧ r = r' ∧ ∀ c ∈ s, PlainValue c := by
  have hlength := h.length_le
  have hquote := h.quote_not_mem
  rcases List.append_eq_append_iff.mp heq with ⟨t, rfl, ht⟩ | ⟨t, rfl, ht⟩
  · cases t with
    | nil =>
        rw [List.append_nil] at h
        exact ⟨List.append_nil s, (List.cons.inj ht).2, (h.eq_of_length_le (Nat.le_refl _)).2⟩
    | cons c t =>
        cases ht
        simp at hquote
  · cases t with
    | nil =>
        rw [List.append_nil] at h
        exact ⟨(List.append_nil x).symm, (List.cons.inj ht).2.symm,
          by simpa using (h.eq_of_length_le (Nat.le_refl _)).2⟩
    | cons c t =>
        simp only [List.length_append, List.length_cons] at hlength
        omega

theorem Attributes.plain (h : Attributes attributes y)
    (heq : plainAttributes attributes ++ r = y ++ r') :
    y = plainAttributes attributes ∧ r = r' ∧ ∀ a ∈ attributes, ∀ c ∈ a.2, PlainValue c := by
  induction h generalizing r r' with
  | nil => exact ⟨rfl, heq, by simp⟩
  | @cons name value x y attributes _ hvalue _ ih =>
      rw [plainAttributes_cons_append] at heq
      simp only [List.cons_append, List.append_assoc, List.cons.injEq, true_and,
        List.append_cancel_left_eq] at heq
      obtain ⟨rfl, heq, hplain⟩ := plain_of_quote hvalue heq
      obtain ⟨rfl, rfl, hrest⟩ := ih heq
      refine ⟨?_, rfl, List.forall_mem_cons.mpr ⟨hplain, hrest⟩⟩
      simp [plainAttributes]

end Attributes

section Content

variable {attributes attributes' : List (List Char × List Char)} {items items' content : List Item}
  {name name' s x x' y z z' r r' : List Char} {c c' : Char}

/-- Where the content of an element can end. -/
def Ends (r : List Char) : Prop := r = [] ∨ ∃ t, r = '<' :: '/' :: t

theorem Attributes.head_of_close (h : Attributes attributes y) (hc : inName c = false) :
    (y ++ c :: r).head?.any inName = false := by
  cases h with
  | nil => exact hc
  | cons _ _ _ => rfl

theorem Tag.exists_cons (h : Tag name attributes z) : ∃ c t, z = '<' :: c :: t ∧ c ≠ '/' := by
  cases h with
  | intro hname _ _ =>
      obtain ⟨c, name', rfl, hc⟩ := hname.exists_cons
      refine ⟨c, name' ++ _, rfl, ?_⟩
      rintro rfl
      exact absurd hc (by decide)

theorem Tag.unique (h : Tag name attributes z) (h' : Tag name' attributes' z')
    (hc : c ∈ ['/', '>']) (hc' : c' ∈ ['/', '>']) (heq : z ++ c :: r = z' ++ c' :: r') :
    name = name' ∧ attributes = attributes' ∧ c = c' ∧ r = r' := by
  have hclose : ∀ {c}, c ∈ ['/', '>'] → inName c = false ∧ ∀ r, (c :: r).head? ≠ some ' ' := by
    intro c hc
    simp only [List.mem_cons, List.not_mem_nil, or_false] at hc
    rcases hc with rfl | rfl
    · exact ⟨rfl, by simp⟩
    · exact ⟨rfl, by simp⟩
  cases h with
  | intro hname _ hattributes =>
      cases h' with
      | intro hname' _ hattributes' =>
          simp only [List.cons_append, List.append_assoc, List.cons.injEq, true_and] at heq
          obtain ⟨rfl, hafter⟩ := hname.unique hname' (hattributes.head_of_close (hclose hc).1)
            (hattributes'.head_of_close (hclose hc').1) heq
          obtain ⟨rfl, hrest⟩ := hattributes.unique hattributes' ((hclose hc).2 _)
            ((hclose hc').2 _) hafter
          exact ⟨rfl, rfl, List.cons.inj hrest⟩

theorem Written.angle_not_mem (h : Written Plain s x) : '<' ∉ x := h.not_mem (by simp) (by decide)

theorem Written.head_ne (h : Written Plain s x) (hs : s ≠ []) : (x ++ r).head? ≠ some '<' := by
  have hangle := h.angle_not_mem
  cases x with
  | nil => exact absurd rfl (h.ne_nil hs)
  | cons c x =>
      rintro heq
      cases heq
      simp at hangle

theorem not_ends_of_head (h : r.head? ≠ some '<') (hne : r ≠ []) : ¬ Ends r := by
  rintro (rfl | ⟨t, rfl⟩)
  · exact hne rfl
  · exact h rfl

theorem Written.not_ends (h : Written Plain s x) (hs : s ≠ []) : ¬ Ends (x ++ r) :=
  not_ends_of_head (h.head_ne hs) (by simp [h.ne_nil hs])

theorem Tag.not_ends (h : Tag name attributes z) : ¬ Ends (z ++ r) := by
  obtain ⟨c, t, rfl, hc⟩ := h.exists_cons
  rintro (heq | ⟨t', heq⟩)
  · cases heq
  · cases heq
    exact hc rfl

theorem Tag.head (h : Tag name attributes z) : (z ++ r).head? = some '<' := by
  obtain ⟨c, t, rfl, -⟩ := h.exists_cons
  rfl

/-- What follows a text begins with an angle bracket. -/
theorem Content.head_of_noText (h : Content items x) (hitems : NoText items) (hr : Ends r) :
    (x ++ r).head?.any (· != '<') = false := by
  cases h with
  | nil =>
      rcases hr with rfl | ⟨t, rfl⟩
      · rfl
      · rfl
  | text _ _ _ _ _ => exact hitems.elim
  | empty htag _ => simp [List.append_assoc, htag.head]
  | element htag _ _ => simp [List.append_assoc, htag.head]

/-- A text is the content of one list of items. -/
theorem Content.unique (h : Content items x) (h' : Content items' x') (hr : Ends r)
    (hr' : Ends r') (heq : x ++ r = x' ++ r') : items = items' ∧ r = r' := by
  induction h generalizing items' x' r r' with
  | nil =>
      rw [List.nil_append] at heq
      cases h' with
      | nil => exact ⟨rfl, heq⟩
      | text hs hwritten _ _ _ =>
          rw [List.append_assoc] at heq
          exact absurd (heq ▸ hr) (hwritten.not_ends hs)
      | empty htag _ =>
          rw [List.append_assoc] at heq
          exact absurd (heq ▸ hr) htag.not_ends
      | element htag _ _ =>
          rw [List.append_assoc] at heq
          exact absurd (heq ▸ hr) htag.not_ends
  | @text s x y items hs hwritten _ hitems hcontent ih =>
      rw [List.append_assoc] at heq
      cases h' with
      | nil =>
          rw [List.nil_append] at heq
          exact absurd (heq ▸ hr') (hwritten.not_ends hs)
      | @text s' x' y' items' hs' hwritten' _ hitems' hcontent' =>
          rw [List.append_assoc] at heq
          obtain ⟨rfl, hafter⟩ := append_inj_of_span heq (bne_of_not_mem hwritten.angle_not_mem)
            (hcontent.head_of_noText hitems hr) (bne_of_not_mem hwritten'.angle_not_mem)
            (hcontent'.head_of_noText hitems' hr')
          obtain ⟨rfl, hrest⟩ := ih hcontent' hr hr' hafter
          rw [hwritten.unique (by decide) hwritten']
          exact ⟨rfl, hrest⟩
      | empty htag _ =>
          rw [List.append_assoc] at heq
          exact absurd (heq ▸ htag.head) (hwritten.head_ne hs)
      | element htag _ _ =>
          rw [List.append_assoc] at heq
          exact absurd (heq ▸ htag.head) (hwritten.head_ne hs)
  | @empty name z y attributes items htag _ ih =>
      rw [List.append_assoc] at heq
      cases h' with
      | nil =>
          rw [List.nil_append] at heq
          exact absurd (heq ▸ hr') htag.not_ends
      | text hs' hwritten' _ _ _ =>
          rw [List.append_assoc] at heq
          exact absurd (heq ▸ htag.head) (hwritten'.head_ne hs')
      | empty htag' hcontent' =>
          rw [List.append_assoc] at heq
          obtain ⟨rfl, rfl, -, hafter⟩ := htag.unique htag' (by simp) (by simp) heq
          obtain ⟨rfl, hrest⟩ := ih hcontent' hr hr' (List.cons.inj hafter).2
          exact ⟨rfl, hrest⟩
      | element htag' _ _ =>
          rw [List.append_assoc] at heq
          exact absurd (htag.unique htag' (by simp) (by simp) heq).2.2.1 (by decide)
  | @element name z x y attributes content items htag _ _ ihContent ih =>
      rw [List.append_assoc] at heq
      cases h' with
      | nil =>
          rw [List.nil_append] at heq
          exact absurd (heq ▸ hr') htag.not_ends
      | text hs' hwritten' _ _ _ =>
          rw [List.append_assoc] at heq
          exact absurd (heq ▸ htag.head) (hwritten'.head_ne hs')
      | empty htag' _ =>
          rw [List.append_assoc] at heq
          exact absurd (htag.unique htag' (by simp) (by simp) heq).2.2.1 (by decide)
      | element htag' hcontent' hitems' =>
          simp only [List.append_assoc, List.cons_append] at heq
          obtain ⟨rfl, rfl, -, hafter⟩ := htag.unique htag' (by simp) (by simp) heq
          obtain ⟨rfl, hclose⟩ := ihContent hcontent' (.inr ⟨_, rfl⟩) (.inr ⟨_, rfl⟩) hafter
          simp only [List.cons.injEq, true_and, List.append_cancel_left_eq] at hclose
          obtain ⟨rfl, hrest⟩ := ih hitems' hr hr' hclose
          exact ⟨rfl, hrest⟩

/-- A tag whose values stand as they are. -/
def plainTag (name : List Char) (attributes : List (List Char × List Char)) : List Char :=
  '<' :: (name ++ plainAttributes attributes)

/-- The names that a tag needs. -/
structure Named (name : List Char) (attributes : List (List Char × List Char)) : Prop where
  isName : IsName name
  names : ∀ a ∈ attributes, IsName a.1
  nodup : (attributes.map Prod.fst).Nodup

theorem named_of_sublist (names : List (List Char)) (hname : IsName name)
    (h : (attributes.map Prod.fst).Sublist names) (hnames : ∀ n ∈ names, IsName n)
    (hnodup : names.Nodup) : Named name attributes where
  isName := hname
  names _ ha := hnames _ (h.subset (List.mem_map_of_mem ha))
  nodup := h.nodup hnodup

def PlainValues (attributes : List (List Char × List Char)) : Prop :=
  ∀ a ∈ attributes, ∀ c ∈ a.2, PlainValue c

theorem Tag.plain (h : Tag name attributes z) (heq : plainTag name attributes ++ r = z ++ r') :
    r = r' ∧ PlainValues attributes := by
  cases h with
  | intro _ _ hattributes =>
      simp only [plainTag, List.cons_append, List.append_assoc, List.cons.injEq, true_and,
        List.append_cancel_left_eq] at heq
      exact (hattributes.plain heq).2

theorem Named.tag (h : Named name attributes) (hplain : PlainValues attributes) :
    Tag name attributes (plainTag name attributes) :=
  .intro h.isName h.nodup (attributes_plain h.names hplain)

theorem content_empty_iff (h : Named name attributes) :
    Content (.element name attributes [] :: items)
        (plainTag name attributes ++ '/' :: '>' :: r) ↔
      PlainValues attributes ∧ Content items r := by
  constructor
  · intro hcontent
    generalize hx : plainTag name attributes ++ '/' :: '>' :: r = x at hcontent
    cases hcontent with
    | empty htag hitems =>
        obtain ⟨hr, hplain⟩ := htag.plain hx
        cases hr
        exact ⟨hplain, hitems⟩
    | element htag _ _ => cases (htag.plain hx).1
  · rintro ⟨hplain, hitems⟩
    exact .empty (h.tag hplain) hitems

theorem content_element_iff (h : Named name attributes) :
    Content (.element name attributes content :: items)
        (plainTag name attributes ++ '>' :: z) ↔
      PlainValues attributes ∧ ∃ x r, z = x ++ '<' :: '/' :: (name ++ '>' :: r) ∧
        Content content x ∧ Content items r := by
  constructor
  · intro hcontent
    generalize hx : plainTag name attributes ++ '>' :: z = y at hcontent
    cases hcontent with
    | empty htag _ => cases (htag.plain hx).1
    | element htag hcontent hitems =>
        obtain ⟨hr, hplain⟩ := htag.plain hx
        cases hr
        exact ⟨hplain, _, _, rfl, hcontent, hitems⟩
  · rintro ⟨hplain, x, r, rfl, hcontent, hitems⟩
    exact .element (h.tag hplain) hcontent hitems

/-- The content that is a text. -/
def texts (s : List Char) : List Item := if s = [] then [] else [.text s]

theorem content_texts_iff :
    Content (texts s) x ↔ Written Plain s x ∧ ¬ "]]>".toList <:+: x := by
  constructor
  · intro h
    unfold texts at h
    split at h
    · rename_i hs
      subst hs
      cases h
      exact ⟨.nil, by simp⟩
    · cases h with
      | text _ hwritten hend _ hnil =>
          cases hnil
          rw [List.append_nil]
          exact ⟨hwritten, hend⟩
  · rintro ⟨hwritten, hend⟩
    unfold texts
    split
    · rename_i hs
      subst hs
      cases hwritten
      exact .nil
    · rename_i hs
      have h : Content [.text s] (x ++ []) := .text hs hwritten hend trivial .nil
      rwa [List.append_nil] at h

/-- A text in front of the next tag. -/
theorem content_text_iff (hs : s ≠ []) (hplain : ∀ c ∈ s, Plain c)
    (hend : ¬ "]]>".toList <:+: s) (hitems : NoText items) (hr : r.head? = some '<') :
    Content (.text s :: items) (s ++ r) ↔ Content items r := by
  constructor
  · intro hcontent
    generalize hx : s ++ r = x at hcontent
    cases hcontent with
    | @text s x y items _ hwritten _ _ hcontent =>
        have hangle : '<' ∉ s := fun hmem => (hplain _ hmem).2.1 rfl
        have hhead := hcontent.head_of_noText hitems (.inl rfl)
        rw [List.append_nil] at hhead
        obtain ⟨-, rfl⟩ := append_inj_of_span hx (bne_of_not_mem hangle) (by simp [hr])
          (bne_of_not_mem hwritten.angle_not_mem) hhead
        exact hcontent
  · intro hcontent
    exact .text hs (written_of_plain hplain) hend hitems hcontent

def declaration : List Char := "<?xml version=\"1.0\" encoding=\"UTF-8\" ?>\n".toList

/-- The text is a document that has this element only. -/
def IsDocument (root : Item) (text : List Char) : Prop :=
  NoText [root] ∧ ∃ x, text = declaration ++ x ∧ Content [root] x

theorem IsDocument.unique {root root' : Item} {text : List Char} (h : IsDocument root text)
    (h' : IsDocument root' text) : root = root' := by
  obtain ⟨-, x, rfl, hx⟩ := h
  obtain ⟨-, x', heq, hx'⟩ := h'
  rw [List.append_cancel_left_eq] at heq
  have hitems := hx.unique (r := []) hx' (.inl rfl) (.inl rfl) (by rw [heq])
  exact (List.cons.inj hitems.1).1

theorem isDocument_eq_iff {root : Item} {text : List Char} :
    (∀ root', IsDocument root' text ↔ root' = root) ↔ IsDocument root text := by
  constructor
  · exact fun h => (h root).mpr rfl
  · intro h root'
    constructor
    · exact fun h' => h'.unique h
    · rintro rfl
      exact h

end Content

end TransportSystem.Library.Markup
