import Mathlib.Data.List.Nodup
import Mathlib.Data.List.Perm.Subperm

/-!
Following a partial function. What is met before it stops is met once.
-/

namespace TransportSystem.Library.Following

universe u

variable {A : Type u} {next : A → Option A} {a b c c' : A} {l l' : List A}

/-- From the first element `next` leads through the elements of the list to the
last one, which the list leaves out. -/
inductive Follows (next : A → Option A) : A → List A → A → Prop
  | stay (a : A) : Follows next a [] a
  | step {a b c : A} {l : List A} (hnext : next a = some b) (hrest : Follows next b l c) :
      Follows next a (a :: l) c

namespace Follows

theorem next_of_mem (h : Follows next a l c) (hb : b ∈ l) : next b ≠ none := by
  induction h with
  | stay a => cases hb
  | step hnext _ ih =>
      rcases List.mem_cons.mp hb with rfl | hb
      · rw [hnext]
        exact Option.some_ne_none _
      · exact ih hb

theorem unique (h : Follows next a l c) (h' : Follows next a l' c') (hstop : next c = none)
    (hstop' : next c' = none) : l = l' ∧ c = c' := by
  induction h generalizing l' with
  | stay a =>
      cases h' with
      | stay => exact ⟨rfl, rfl⟩
      | step hnext _ =>
          rw [hstop] at hnext
          cases hnext
  | step hnext _ ih =>
      cases h' with
      | stay =>
          rw [hstop'] at hnext
          cases hnext
      | step hnext' hrest' =>
          rw [hnext] at hnext'
          cases hnext'
          obtain ⟨rfl, rfl⟩ := ih hrest' hstop
          exact ⟨rfl, rfl⟩

theorem exists_of_mem (h : Follows next a l c) (hb : b ∈ l) :
    ∃ l', Follows next b l' c ∧ l'.length ≤ l.length := by
  induction h with
  | stay a => cases hb
  | step hnext hrest ih =>
      rcases List.mem_cons.mp hb with rfl | hb
      · exact ⟨_, .step hnext hrest, Nat.le_refl _⟩
      · obtain ⟨l', hl', hle⟩ := ih hb
        refine ⟨l', hl', ?_⟩
        rw [List.length_cons]
        omega

theorem nodup (h : Follows next a l c) (hstop : next c = none) : l.Nodup := by
  induction h with
  | stay a => exact List.nodup_nil
  | step hnext hrest ih =>
      refine List.nodup_cons.mpr ⟨fun hmem => ?_, ih hstop⟩
      -- the way from a second visit would be as long as the one from the first
      obtain ⟨l', hl', hle⟩ := hrest.exists_of_mem hmem
      have heq := (hl'.unique (.step hnext hrest) hstop hstop).1
      rw [heq, List.length_cons] at hle
      omega

/-- What is met on a way that stops, the last included, is met once. -/
theorem exists_met (h : Follows next a l c) (hstop : next c = none) :
    ∃ met, (a :: met).Nodup ∧ List.Forall₂ (fun b b' => next b = some b') l met := by
  obtain ⟨met, heq, hmet⟩ : ∃ met, l ++ [c] = a :: met ∧
      List.Forall₂ (fun b b' => next b = some b') l met := by
    clear hstop
    induction h with
    | stay a => exact ⟨[], rfl, .nil⟩
    | @step a b c l hnext _ ih =>
        obtain ⟨met, heq, hmet⟩ := ih
        exact ⟨b :: met, by rw [List.cons_append, heq], .cons hnext hmet⟩
  refine ⟨met, ?_, hmet⟩
  rw [← heq, List.nodup_append]
  refine ⟨h.nodup hstop, List.nodup_singleton c, ?_⟩
  rintro b hb c' hc' rfl
  cases List.mem_singleton.mp hc'
  exact h.next_of_mem hb hstop

/-- A way that stops is no longer than a list of all that can be left. -/
theorem length_le {left : List A} (h : Follows next a l c) (hstop : next c = none)
    (hleft : ∀ b, next b ≠ none → b ∈ left) : l.length ≤ left.length :=
  (List.subperm_of_subset (h.nodup hstop) fun b hb => hleft b (h.next_of_mem hb)).length_le

end Follows

/-- Either the way stops within a number of turns, or it goes on for all of
them. -/
theorem exists_follows (next : A → Option A) (a : A) (n : Nat) :
    (∃ l c, Follows next a l c ∧ next c = none) ∨ ∃ l c, Follows next a l c ∧ l.length = n := by
  induction n generalizing a with
  | zero => exact Or.inr ⟨[], a, .stay a, rfl⟩
  | succ n ih =>
      cases hnext : next a with
      | none => exact Or.inl ⟨[], a, .stay a, hnext⟩
      | some b =>
          rcases ih b with ⟨l, c, hl, hstop⟩ | ⟨l, c, hl, hlength⟩
          · exact Or.inl ⟨a :: l, c, .step hnext hl, hstop⟩
          · exact Or.inr ⟨a :: l, c, .step hnext hl, by rw [List.length_cons, hlength]⟩

end TransportSystem.Library.Following
