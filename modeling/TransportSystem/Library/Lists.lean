import Mathlib.Data.List.Forall2
import Mathlib.Data.List.GetD
import Mathlib.Data.List.Sort

/-!
Facts about places in lists that grow at their end, about segments, about
sorting lists without repetitions, and about lists element by element.
-/

namespace TransportSystem.Library.Lists

variable {A : Type*}

theorem getElem?_append_singleton (l : List A) (a : A) (i : ℕ) :
    (l ++ [a])[i]? = if i = l.length then some a else l[i]? := by
  by_cases h : i = l.length
  · simp [h]
  · rw [if_neg h, List.getElem?_append]
    split
    · rfl
    · rename_i hge
      rw [List.getElem?_singleton, if_neg (by omega), List.getElem?_eq_none (by omega)]

theorem set_of_getElem?_eq {l : List A} {i : ℕ} {a : A} (h : l[i]? = some a) :
    l.set i a = l := by
  obtain ⟨hi, rfl⟩ := List.getElem?_eq_some_iff.mp h
  exact List.set_getElem_self hi

theorem modify_append_singleton (l : List A) (a : A) (f : A → A) :
    (l ++ [a]).modify l.length f = l ++ [f a] := by
  induction l with
  | nil => rfl
  | cons b l ih => simpa using ih

/-- A segment of a reversed list is a reversed segment of the list. -/
theorem take_drop_reverse (l : List A) {i j : ℕ} (hij : i ≤ j) (hj : j < l.length) :
    (l.reverse.drop i).take (j - i + 1) =
      ((l.drop (l.length - 1 - j)).take (j - i + 1)).reverse := by
  rw [List.drop_reverse, List.take_reverse, List.length_take, List.drop_take]
  have hdrop : min (l.length - i) l.length - (j - i + 1) = l.length - 1 - j := by omega
  have htake : l.length - i - (l.length - 1 - j) = j - i + 1 := by omega
  rw [hdrop, htake]

/-- The longest prefix with a property is the one after which the property fails. -/
theorem append_eq_span_iff {p : A → Bool} {l l₁ l₂ : List A} :
    l = l₁ ++ l₂ ∧ (∀ a ∈ l₁, p a = true) ∧ l₂.head?.any p = false ↔
      l₁ = l.takeWhile p ∧ l₂ = l.dropWhile p := by
  constructor
  · rintro ⟨rfl, h₁, h₂⟩
    have hl₂ : l₂.takeWhile p = [] ∧ l₂.dropWhile p = l₂ := by
      cases l₂ with
      | nil => exact ⟨rfl, rfl⟩
      | cons a l₂ =>
          have ha : p a = false := by simpa using h₂
          simp [ha]
    rw [List.takeWhile_append_of_pos h₁, List.dropWhile_append_of_pos h₁, hl₂.1, hl₂.2]
    simp
  · rintro ⟨rfl, rfl⟩
    refine ⟨List.takeWhile_append_dropWhile.symm,
      fun a ha => List.all_eq_true.mp List.all_takeWhile a ha, ?_⟩
    cases h : l.dropWhile p with
    | nil => rfl
    | cons a l' =>
        have ha := List.head_dropWhile_not p (l := l) (by simp [h])
        simpa [h] using ha

/-- Two prefixes of one list with a property are the same if the property fails after both. -/
theorem append_inj_of_span {p : A → Bool} {l₁ l₂ l₁' l₂' : List A} (h : l₁ ++ l₂ = l₁' ++ l₂')
    (h₁ : ∀ a ∈ l₁, p a = true) (h₂ : l₂.head?.any p = false) (h₁' : ∀ a ∈ l₁', p a = true)
    (h₂' : l₂'.head?.any p = false) : l₁ = l₁' ∧ l₂ = l₂' := by
  have hspan := append_eq_span_iff.mp ⟨rfl, h₁, h₂⟩
  have hspan' := append_eq_span_iff.mp ⟨h, h₁', h₂'⟩
  exact ⟨hspan.1.trans hspan'.1.symm, hspan.2.trans hspan'.2.symm⟩

theorem pairwise_lt_insertionSort [LinearOrder A] {l : List A} (h : l.Nodup) :
    (l.insertionSort (· ≤ ·)).Pairwise (· < ·) := by
  have hle := List.pairwise_insertionSort (· ≤ ·) l
  have hne : (l.insertionSort (· ≤ ·)).Nodup := (List.perm_insertionSort _ l).nodup_iff.mpr h
  exact (hle.and hne).imp fun ⟨hab, hne⟩ => lt_of_le_of_ne hab hne

/-- Sorting forgets everything about a list without repetitions but its
elements. -/
theorem insertionSort_eq_of_mem_iff [LinearOrder A] {l l' : List A} (h : l.Nodup)
    (h' : l'.Nodup) (hmem : ∀ a, a ∈ l ↔ a ∈ l') :
    l.insertionSort (· ≤ ·) = l'.insertionSort (· ≤ ·) := by
  have hperm : l.Perm l' := (List.perm_ext_iff_of_nodup h h').mpr hmem
  exact List.Perm.eq_of_pairwise' (List.pairwise_insertionSort _ l)
    (List.pairwise_insertionSort _ l')
    ((List.perm_insertionSort _ l).trans (hperm.trans (List.perm_insertionSort _ l').symm))

/-- Two loops over the images of one list are the same when their bodies agree
on each element. -/
theorem foldlM_map_congr {M : Type → Type*} [Monad M] {S : Type} {A' A'' : Type*} {f : S → A' → M S}
    {f' : S → A'' → M S} {g : A → A'} {g' : A → A''} {l : List A}
    (h : ∀ a ∈ l, ∀ s, f s (g a) = f' s (g' a)) (s : S) :
    (l.map g).foldlM f s = (l.map g').foldlM f' s := by
  induction l generalizing s with
  | nil => rfl
  | cons a l ih =>
      rw [List.map_cons, List.map_cons, List.foldlM_cons, List.foldlM_cons, h a (by simp)]
      exact bind_congr fun s' => ih (fun b hb => h b (by simp [hb])) s'

theorem exists_of_forall₂ {B : Type*} {R : A → B → Prop} {l : List A} {l' : List B}
    (h : List.Forall₂ R l l') {a : A} (ha : a ∈ l) : ∃ b ∈ l', R a b := by
  induction h with
  | nil => cases ha
  | @cons a' b l l' hab _ ih =>
      rcases List.mem_cons.mp ha with rfl | ha
      · exact ⟨b, List.mem_cons_self, hab⟩
      · obtain ⟨b', hb', hab'⟩ := ih ha
        exact ⟨b', List.mem_cons_of_mem b hb', hab'⟩

theorem exists_forall₂ {B : Type*} {R : A → B → Prop} {l : List A} (h : ∀ a ∈ l, ∃ b, R a b) :
    ∃ l', List.Forall₂ R l l' := by
  induction l with
  | nil => exact ⟨[], .nil⟩
  | cons a l ih =>
      obtain ⟨b, hab⟩ := h a List.mem_cons_self
      obtain ⟨l', hl'⟩ := ih fun c hc => h c (List.mem_cons_of_mem a hc)
      exact ⟨b :: l', .cons hab hl'⟩

/-- The elements of a list with what each of them has. -/
theorem exists_pairs {B : Type*} {R : A → B → Prop} {l : List A} (h : ∀ a ∈ l, ∃ b, R a b) :
    ∃ pairs : List (A × B), pairs.map Prod.fst = l ∧ ∀ p ∈ pairs, R p.1 p.2 := by
  induction l with
  | nil => exact ⟨[], rfl, by simp⟩
  | cons a l ih =>
      obtain ⟨b, hab⟩ := h a List.mem_cons_self
      obtain ⟨pairs, rfl, hpairs⟩ := ih fun c hc => h c (List.mem_cons_of_mem a hc)
      exact ⟨(a, b) :: pairs, rfl, List.forall_mem_cons.mpr ⟨hab, hpairs⟩⟩

theorem forall₂_eraseIdx {B : Type*} {R : A → B → Prop} {l : List A} {l' : List B}
    (h : List.Forall₂ R l l') (i : ℕ) : List.Forall₂ R (l.eraseIdx i) (l'.eraseIdx i) := by
  induction h generalizing i with
  | nil => exact .nil
  | cons hab htail ih =>
      cases i with
      | zero => exact htail
      | succ i => exact .cons hab (ih i)

end TransportSystem.Library.Lists
