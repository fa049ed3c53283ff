import Mathlib.Data.List.Forall2
import Mathlib.Data.Rat.Defs
import TransportSystem.Library.UniqueKeys

namespace TransportSystem

open Library.UniqueKeys

/-- `std::string` and `std::string_view` as their characters. A byte is the
character with that code; no function of the model depends on codes staying
below 256. -/
abbrev Str := List Char

/-- The comparison of strings decides whether a list has one. -/
instance : LawfulBEq Str := inferInstance

/-- `double`, taken as an exact number. -/
abbrev Double := ℚ

/-- The ways a call can fail to return. -/
inductive Failure
  /-- `std::out_of_range`, thrown by the checked `at` of a container. -/
  | outOfRange
  | logicError (what : String)
  | invalidArgument (what : String)
  | domainError (what : String)
  | parsingError (what : Str)
  /-- An access outside a container or through an empty optional. -/
  | undefinedBehaviour
  /-- A loop that does not end. -/
  | diverges
  deriving DecidableEq, Repr

/-- `map.at(key)` -/
def mapAt {K V : Type} [DecidableEq K] (m : UnorderedMap K V) (key : K) :
    Except Failure V :=
  match m.lookup key with
  | some value => .ok value
  | none => .error .outOfRange

@[simp] theorem mapAt_eq_ok_iff {K V : Type} [DecidableEq K]
    {m : UnorderedMap K V} {key : K} {value : V} :
    mapAt m key = .ok value ↔ m.lookup key = some value := by
  unfold mapAt
  cases m.lookup key <;> simp

theorem mapAt_of_lookup {K V : Type} [DecidableEq K]
    {m : UnorderedMap K V} {key : K} {value : V}
    (h : m.lookup key = some value) : mapAt m key = .ok value :=
  mapAt_eq_ok_iff.mpr h

theorem ok_bind {E A B : Type} (a : A) (f : A → Except E B) :
    ((.ok a : Except E A) >>= f) = f a := rfl

/-- A sequence of fallible steps succeeds exactly when its first step does and
its rest does on the value found. -/
theorem bind_eq_ok_iff {E A B : Type} {x : Except E A} {f : A → Except E B} {b : B} :
    (x >>= f) = .ok b ↔ ∃ a, x = .ok a ∧ f a = .ok b := by
  cases x with
  | error e =>
      constructor
      · intro h
        cases h
      · rintro ⟨a, h, -⟩
        cases h
  | ok a =>
      constructor
      · intro h
        exact ⟨a, rfl, h⟩
      · rintro ⟨a', h, h'⟩
        cases h
        exact h'

theorem bind_eq_error_iff {E A B : Type} {x : Except E A} {f : A → Except E B} {e : E} :
    (x >>= f) = .error e ↔ x = .error e ∨ ∃ a, x = .ok a ∧ f a = .error e := by
  cases x with
  | error e' =>
      constructor
      · intro h
        cases h
        exact Or.inl rfl
      · rintro (h | ⟨a, h, -⟩)
        · cases h
          rfl
        · cases h
  | ok a =>
      constructor
      · intro h
        exact Or.inr ⟨a, rfl, h⟩
      · rintro (h | ⟨a', h, h'⟩)
        · cases h
        · cases h
          exact h'

theorem exists_ok_of_isOk {E A : Type} {x : Except E A} (h : x.isOk = true) :
    ∃ a, x = .ok a := by
  cases x with
  | ok a => exact ⟨a, rfl⟩
  | error e => cases h

theorem eq_ok_of_toOption {E A : Type} {x : Except E A} {a : A} (h : x.toOption = some a) :
    x = .ok a := by
  cases x with
  | ok b => exact congrArg Except.ok (Option.some.inj h)
  | error e => cases h

/-- A computation known to return something with a decidable property. -/
theorem exists_ok_of_any {E A : Type} {x : Except E A} {p : A → Prop} [DecidablePred p]
    (h : x.toOption.any (fun a => p a) = true) : ∃ a, x = .ok a ∧ p a := by
  cases x with
  | ok a => exact ⟨a, rfl, by simpa [Except.toOption] using h⟩
  | error e => cases h

section Loops

variable {E A B : Type} {l : List A}

theorem mapM_eq_ok {f : A → Except E B} {g : A → B} (h : ∀ a ∈ l, f a = .ok (g a)) :
    l.mapM f = .ok (l.map g) := by
  induction l with
  | nil => rfl
  | cons a l ih =>
      rw [List.mapM_cons, h a (by simp), ih fun b hb => h b (by simp [hb])]
      rfl

theorem foldlM_eq_ok {f : B → A → Except E B} {g : B → A → B}
    (h : ∀ a ∈ l, ∀ b, f b a = .ok (g b a)) (b : B) : l.foldlM f b = .ok (l.foldl g b) := by
  induction l generalizing b with
  | nil => rfl
  | cons a l ih =>
      rw [List.foldlM_cons, h a (by simp), List.foldl_cons]
      exact ih (fun c hc => h c (by simp [hc])) (g b a)

/-- A loop that decodes the elements of an encoded map, in any order, rebuilds
the lookups of the map. -/
theorem exists_foldlM_recode {K K' V V' : Type} [DecidableEq K] [DecidableEq K']
    {m : UnorderedMap K V} (it : Iteration K V) (it' : Iteration K' V') {f : K → K'}
    (g : K → V → V') (f' : K' → K) (g' : K' → V' → V) (hkey : ∀ k ∈ m, f' (f k) = k)
    (hvalue : ∀ k v, m.lookup k = some v → g' (f k) (g k v) = v)
    {load : UnorderedMap K V → (Σ _ : K', V') → Except E (UnorderedMap K V)}
    (hload : ∀ k v, m.lookup k = some v → ∀ m',
      load m' ⟨f k, g k v⟩ = .ok (m'.assign (f' (f k)) (g' (f k) (g k v)))) :
    ∃ m', (it'.order (m.recode it f g)).foldlM load ∅ = .ok m' ∧ ∀ k, m'.lookup k = m.lookup k := by
  have hinj : ∀ k ∈ m, ∀ l ∈ m, f k = f l → k = l := by
    intro k hk l hl heq
    rw [← hkey k hk, heq, hkey l hl]
  refine ⟨(m.recode it f g).recode it' f' g', foldlM_eq_ok (fun e he m' => ?_) ∅,
    UnorderedMap.lookup_recode_recode it it' hkey hvalue⟩
  obtain ⟨k', v'⟩ := e
  obtain ⟨k, v, hlookup, rfl, rfl⟩ :=
    (UnorderedMap.lookup_recode it g hinj k' v').mp (it'.mem_order.mp he)
  exact hload k v hlookup m'

/-- A fallible loop along a list in which every step succeeds, whatever came
before it. -/
theorem exists_foldlM_eq_ok {f : B → A → Except E B} (h : ∀ a ∈ l, ∀ b, ∃ b', f b a = .ok b')
    (b : B) : ∃ b', l.foldlM f b = .ok b' := by
  induction l generalizing b with
  | nil => exact ⟨b, rfl⟩
  | cons a l ih =>
      obtain ⟨b', hb'⟩ := h a (by simp) b
      obtain ⟨b'', hb''⟩ := ih (fun c hc => h c (by simp [hc])) b'
      exact ⟨b'', by rw [List.foldlM_cons]; exact bind_eq_ok_iff.mpr ⟨b', hb', hb''⟩⟩

/-- What every step of a fallible loop keeps, the loop keeps. -/
theorem foldlM_keeps {f : B → A → Except E B} {p : B → Prop}
    (hstep : ∀ a ∈ l, ∀ b b', p b → f b a = .ok b' → p b') {b b' : B} (hb : p b)
    (h : l.foldlM f b = .ok b') : p b' := by
  induction l generalizing b with
  | nil =>
      cases h
      exact hb
  | cons a l ih =>
      rw [List.foldlM_cons] at h
      obtain ⟨c, hc, h⟩ := bind_eq_ok_iff.mp h
      exact ih (fun a' ha' => hstep a' (by simp [ha'])) (hstep a (by simp) b c hb hc) h

theorem mapM_eq_ok_iff {f : A → Except E B} {bs : List B} :
    l.mapM f = .ok bs ↔ List.Forall₂ (fun a b => f a = .ok b) l bs := by
  induction l generalizing bs with
  | nil =>
      rw [List.mapM_nil, List.forall₂_nil_left_iff]
      constructor
      · intro h
        cases h
        rfl
      · rintro rfl
        rfl
  | cons a l ih =>
      simp only [List.mapM_cons, bind_eq_ok_iff, List.forall₂_cons_left_iff, ih]
      constructor
      · rintro ⟨b, hb, bs', hbs', h⟩
        cases h
        exact ⟨b, bs', hb, hbs', rfl⟩
      · rintro ⟨b, bs', hb, hbs', rfl⟩
        exact ⟨b, hb, bs', hbs', rfl⟩

theorem forM_eq_ok_iff {f : A → Except E Unit} : l.forM f = .ok () ↔ ∀ a ∈ l, f a = .ok () := by
  induction l with
  | nil => exact iff_of_true rfl (by simp)
  | cons a l ih =>
      rw [List.forM, bind_eq_ok_iff, List.forall_mem_cons, ← ih]
      exact ⟨fun ⟨_, h, h'⟩ => ⟨h, h'⟩, fun ⟨h, h'⟩ => ⟨(), h, h'⟩⟩

theorem forM_eq_error {f : A → Except E Unit} {e : E} (h : l.forM f = .error e) :
    ∃ a ∈ l, f a = .error e := by
  induction l with
  | nil => cases h
  | cons a l ih =>
      rw [List.forM, bind_eq_error_iff] at h
      rcases h with h | ⟨-, -, h⟩
      · exact ⟨a, by simp, h⟩
      · obtain ⟨b, hb, hf⟩ := ih h
        exact ⟨b, by simp [hb], hf⟩

section Prefix

variable {f : B → A → Except E B} {p : List A → B → Prop} {q : A → Prop} {e : E}
  {d : List A} {b : B}

theorem foldlM_of_good
    (hgood : ∀ a ∈ l, q a → ∀ d b, p d b → ∃ b', f b a = .ok b' ∧ p (d ++ [a]) b')
    (hall : ∀ a ∈ l, q a) (h : p d b) :
    ∃ b', l.foldlM f b = .ok b' ∧ p (d ++ l) b' := by
  induction l generalizing d b with
  | nil => exact ⟨b, rfl, by rwa [List.append_nil]⟩
  | cons a l ih =>
      obtain ⟨b', hb', hp'⟩ := hgood a (by simp) (hall a (by simp)) d b h
      obtain ⟨b'', hb'', hp''⟩ := ih (fun c hc => hgood c (by simp [hc]))
        (fun c hc => hall c (by simp [hc])) hp'
      refine ⟨b'', ?_, by rwa [List.append_assoc] at hp''⟩
      rw [List.foldlM_cons, hb', ok_bind, hb'']

theorem foldlM_of_bad
    (hgood : ∀ a ∈ l, q a → ∀ d b, p d b → ∃ b', f b a = .ok b' ∧ p (d ++ [a]) b')
    (hbad : ∀ a ∈ l, ¬ q a → ∀ d b, p d b → f b a = .error e)
    (hsome : ∃ a ∈ l, ¬ q a) (h : p d b) : l.foldlM f b = .error e := by
  induction l generalizing d b with
  | nil =>
      obtain ⟨a, ha, -⟩ := hsome
      cases ha
  | cons a l ih =>
      rw [List.foldlM_cons]
      by_cases ha : q a
      · obtain ⟨b', hb', hp'⟩ := hgood a (by simp) ha d b h
        obtain ⟨c, hc, hcbad⟩ := hsome
        rw [hb', ok_bind]
        refine ih (fun a' ha' => hgood a' (by simp [ha'])) (fun a' ha' => hbad a' (by simp [ha']))
          ⟨c, ?_, hcbad⟩ hp'
        exact (List.mem_cons.mp hc).resolve_left fun heq => hcbad (heq ▸ ha)
      · rw [hbad a (by simp) ha d b h]
        rfl

end Prefix

end Loops

end TransportSystem
