import Mathlib.Data.List.Induction
import TransportSystem.JsonBuilder

namespace TransportSystem.Json.Builder

variable {D : Type}

/-- The stack of a builder to which a value may be given. -/
inductive Awaits : List (Node D) → Prop
  | start : Awaits []
  | element (items : List (Node D)) {stack : List (Node D)} : Awaits stack →
      Awaits (.array items :: stack)
  | member (key : Str) (map : Dict D) {stack : List (Node D)} : Awaits stack →
      Awaits (.string key :: .dict map :: stack)

/-- The builders that calls can leave. -/
inductive Shaped : Builder D → Prop
  | ready {root : Node D} : root.isNull = false → Shaped ⟨root, []⟩
  | awaits {stack : List (Node D)} : Awaits stack → Shaped ⟨.null, stack⟩
  | members (map : Dict D) {stack : List (Node D)} : Awaits stack →
      Shaped ⟨.null, .dict map :: stack⟩

/-- A call goes well, to a builder with the property, or throws a logic error and
changes nothing. -/
def Keeps (p : Builder D → Prop) (builder : Builder D) (outcome : Outcome D) : Prop :=
  (∃ builder', outcome = (.ok (), builder') ∧ p builder') ∨
    ∃ what, outcome = (.error (.logicError what), builder)

section Step

variable {stack : List (Node D)} {builder : Builder D}

theorem Awaits.expects (h : Awaits stack) : Expects ⟨.null, stack⟩ := by
  cases h with
  | start => exact .start
  | element items => exact .element items _
  | member key map => exact .member key map _

theorem Awaits.value_shaped (h : Awaits stack) (val : Node D) :
    ∃ builder', value ⟨.null, stack⟩ val = (.ok (), builder') ∧ Shaped builder' := by
  cases h with
  | start =>
      refine ⟨⟨val, []⟩, rfl, ?_⟩
      cases hval : val.isNull with
      | false => exact .ready hval
      | true =>
          obtain rfl := Node.isNull_iff.mp hval
          exact .awaits .start
  | element items h => exact ⟨_, rfl, .awaits (.element _ h)⟩
  | member key map h => exact ⟨_, rfl, .members _ h⟩

theorem Shaped.value_keeps (h : Shaped builder) (val : Node D) :
    Keeps Shaped builder (builder.value val) := by
  cases h with
  | ready hroot =>
      right
      exact ⟨_, by rw [value, if_pos (by simp [hroot])]⟩
  | awaits h => exact Or.inl (h.value_shaped val)
  | members map h => exact Or.inr ⟨_, rfl⟩

theorem Shaped.key_keeps (h : Shaped builder) (name : Str) :
    Keeps Shaped builder (builder.key name) := by
  cases h with
  | ready => exact Or.inr ⟨_, rfl⟩
  | awaits h =>
      cases h with
      | start => exact Or.inr ⟨_, rfl⟩
      | element => exact Or.inr ⟨_, rfl⟩
      | member => exact Or.inr ⟨_, rfl⟩
  | members map h => exact Or.inl ⟨_, rfl, .awaits (.member name map h)⟩

theorem Shaped.startContainer_keeps (h : Shaped builder) (name : String) {container : Node D}
    (hc : ∀ stack, Awaits stack → Shaped ⟨.null, container :: stack⟩) :
    Keeps Shaped builder (builder.startContainer name container) := by
  cases h with
  | ready hroot =>
      right
      exact ⟨_, by rw [startContainer, if_pos (by simp [hroot])]⟩
  | awaits h => exact Or.inl ⟨_, h.expects.startContainer_ok name container, hc _ h⟩
  | members map h => exact Or.inr ⟨_, rfl⟩

/-- The value that the end of a container hands over is always taken. -/
theorem Awaits.endContainer_keeps (h : Awaits stack) (name : String)
    (isContainer : Node D → Bool) (container : Node D) :
    Keeps Shaped ⟨.null, container :: stack⟩
      (endContainer name isContainer ⟨.null, container :: stack⟩) := by
  cases hc : isContainer container with
  | false =>
      right
      exact ⟨_, if_pos (by simp [hc])⟩
  | true =>
      obtain ⟨builder', hvalue, hshaped⟩ := h.value_shaped container
      exact Or.inl ⟨builder', (h.expects.endContainer_eq name hc).trans hvalue, hshaped⟩

theorem Shaped.endContainer_keeps (h : Shaped builder) (name : String)
    {isContainer : Node D → Bool} (hs : ∀ key, isContainer (.string key) = false) :
    Keeps Shaped builder (builder.endContainer name isContainer) := by
  cases h with
  | ready => exact Or.inr ⟨_, rfl⟩
  | awaits h =>
      cases h with
      | start => exact Or.inr ⟨_, rfl⟩
      | element items h => exact h.endContainer_keeps name isContainer _
      | member key map h =>
          right
          exact ⟨_, if_pos (by simp [hs])⟩
  | members map h => exact h.endContainer_keeps name isContainer _

theorem Shaped.call_keeps (h : Shaped builder) (c : Call D) :
    Keeps Shaped builder (builder.call c) := by
  cases c with
  | value val => exact h.value_keeps val
  | key name => exact h.key_keeps name
  | startArray => exact h.startContainer_keeps _ fun stack hs => .awaits (.element [] hs)
  | endArray => exact h.endContainer_keeps _ fun key => rfl
  | startDict => exact h.startContainer_keeps _ fun stack hs => .members [] hs
  | endDict => exact h.endContainer_keeps _ fun key => rfl

end Step

/-- The builder after calls of which those that threw were caught. -/
def attempt (calls : List (Call D)) : Builder D :=
  calls.foldl (fun builder c => (builder.call c).2) {}

theorem shaped_attempt (calls : List (Call D)) : Shaped (attempt calls) := by
  induction calls using List.reverseRecOn with
  | nil => exact .awaits .start
  | append_singleton calls c ih =>
      have hcall : attempt (calls ++ [c]) = ((attempt calls).call c).2 := by
        simp [attempt]
      rw [hcall]
      rcases ih.call_keeps c with ⟨builder', heq, hshaped⟩ | ⟨what, heq⟩
      · rw [heq]
        exact hshaped
      · rw [heq]
        exact ih

/-- The state of a builder, in terms of what lies directly under the entries of its stack. -/
structure WellStacked (builder : Builder D) : Prop where
  ready : builder.root.isNull = false → builder.nodesStack = []
  bottom : ∀ node, builder.nodesStack.getLast? = some node → node.isArray ∨ node.isDict
  string : ∀ {above node below}, builder.nodesStack = above ++ node :: below → node.holdsString →
    ∃ map rest, below = .dict map :: rest
  container : ∀ {above node below}, builder.nodesStack = above ++ node :: below →
    node.isArray ∨ node.isDict →
      below = [] ∨ ∃ under rest, below = under :: rest ∧ (under.isArray ∨ under.holdsString)

section WellStacked

variable {node : Node D} {above below : List (Node D)}

theorem Shaped.tail (h : Shaped ⟨.null, node :: below⟩) : Shaped ⟨.null, below⟩ := by
  cases h with
  | awaits h =>
      cases h with
      | element items h => exact .awaits h
      | member key map h => exact .members map h
  | members map h => exact .awaits h

theorem Shaped.drop (h : Shaped ⟨.null, above ++ below⟩) : Shaped ⟨.null, below⟩ := by
  induction above with
  | nil => exact h
  | cons node above ih => exact ih h.tail

theorem Awaits.under (h : Awaits below) :
    below = [] ∨ ∃ under rest, below = under :: rest ∧ (under.isArray ∨ under.holdsString) := by
  cases h with
  | start => exact Or.inl rfl
  | element items h => exact Or.inr ⟨_, _, rfl, Or.inl rfl⟩
  | member key map h => exact Or.inr ⟨_, _, rfl, Or.inr rfl⟩

theorem Shaped.wellStacked {builder : Builder D} (h : Shaped builder) : WellStacked builder := by
  obtain ⟨root, stack⟩ := builder
  cases hroot : root.isNull with
  | false =>
      obtain rfl : stack = [] := by
        cases h with
        | ready => rfl
        | awaits => cases hroot
        | members => cases hroot
      exact ⟨fun _ => rfl, by simp, by simp, by simp⟩
  | true =>
      obtain rfl := Node.isNull_iff.mp hroot
      refine ⟨by simp [hroot], fun node hnode => ?_, ?_, ?_⟩
      · obtain ⟨above, rfl⟩ := List.getLast?_eq_some_iff.mp hnode
        cases h.drop with
        | awaits h =>
            cases h with
            | element => exact Or.inl rfl
        | members => exact Or.inr rfl
      · rintro above node below rfl hstring
        cases h.drop with
        | awaits h =>
            cases h with
            | element => cases hstring
            | member key map h => exact ⟨map, _, rfl⟩
        | members => cases hstring
      · rintro above node below rfl hcontainer
        cases h.drop with
        | awaits h =>
            cases h with
            | element items h => exact h.under
            | member => rcases hcontainer with h | h <;> cases h
        | members map h => exact h.under

end WellStacked

/-- After any calls, some of which may have thrown, the stack is in order, a call that
throws changes nothing, and the value that `EndArray` and `EndDict` hand over after
their pop is taken. -/
theorem attempt_wellStacked (calls : List (Call D)) :
    WellStacked (attempt calls) ∧
      (∀ c failure builder, (attempt calls).call c = (.error failure, builder) →
        builder = attempt calls ∧ ∃ what, failure = .logicError what) ∧
      ∀ node stack, (attempt calls).nodesStack = node :: stack → node.isArray ∨ node.isDict →
        ∃ builder, value { attempt calls with nodesStack := stack } node = (.ok (), builder) := by
  have hshaped := shaped_attempt calls
  refine ⟨hshaped.wellStacked, fun c failure builder hc => ?_, fun node stack hstack hnode => ?_⟩
  · rcases hshaped.call_keeps c with ⟨builder', heq, -⟩ | ⟨what, heq⟩
    · rw [heq] at hc
      cases hc
    · rw [heq] at hc
      cases hc
      exact ⟨rfl, what, rfl⟩
  · generalize attempt calls = builder at hshaped hstack
    cases hshaped with
    | ready => cases hstack
    | awaits h =>
        cases h with
        | start => cases hstack
        | element items h =>
            cases hstack
            exact h.expects.value_ok _
        | member =>
            cases hstack
            rcases hnode with h | h <;> cases h
    | members map h =>
        cases hstack
        exact h.expects.value_ok _

end TransportSystem.Json.Builder
