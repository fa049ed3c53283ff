import TransportSystem.BuilderShape

namespace TransportSystem.Json.Builder

variable {D : Type}

/-- The class to which the last call of a chain returned a reference. -/
inductive Context
  | builder
  | dictItemContext
  | keyItemContext
  | arrayItemContext
  deriving DecidableEq, Repr

/-- The class that a member function returns, `none` for one that is deleted or that the
class has not. -/
def Context.next : Context → Call D → Option Context
  | .builder, .value _ => some .builder
  | .builder, .key _ => some .keyItemContext
  | .builder, .startArray => some .arrayItemContext
  | .builder, .endArray => some .builder
  | .builder, .startDict => some .dictItemContext
  | .builder, .endDict => some .builder
  | .dictItemContext, .key _ => some .keyItemContext
  | .dictItemContext, .endDict => some .builder
  | .dictItemContext, _ => none
  | .keyItemContext, .value _ => some .dictItemContext
  | .keyItemContext, .startArray => some .arrayItemContext
  | .keyItemContext, .startDict => some .dictItemContext
  | .keyItemContext, _ => none
  | .arrayItemContext, .value _ => some .arrayItemContext
  | .arrayItemContext, .startArray => some .arrayItemContext
  | .arrayItemContext, .endArray => some .builder
  | .arrayItemContext, .startDict => some .dictItemContext
  | .arrayItemContext, _ => none

/-- The class that a chain returns, `none` for one that does not compile. -/
def Context.after (ctx : Context) (calls : List (Call D)) : Option Context :=
  calls.foldlM Context.next ctx

theorem Context.after_cons (ctx : Context) (c : Call D) (calls : List (Call D)) :
    ctx.after (c :: calls) = (ctx.next c).bind fun next => next.after calls :=
  List.foldlM_cons

/-- The builders behind a context. -/
inductive Behind : Context → Builder D → Prop
  | builder {builder : Builder D} : Shaped builder → Behind .builder builder
  | dictItem (map : Dict D) {stack : List (Node D)} : Awaits stack →
      Behind .dictItemContext ⟨.null, .dict map :: stack⟩
  | keyItem (key : Str) (map : Dict D) {stack : List (Node D)} : Awaits stack →
      Behind .keyItemContext ⟨.null, .string key :: .dict map :: stack⟩
  | arrayItem (items : List (Node D)) {stack : List (Node D)} : Awaits stack →
      Behind .arrayItemContext ⟨.null, .array items :: stack⟩

section Step

variable {ctx ctx' : Context} {builder : Builder D} {stack : List (Node D)}

theorem Behind.shaped (h : Behind ctx builder) : Shaped builder := by
  cases h with
  | builder h => exact h
  | dictItem map h => exact .members map h
  | keyItem key map h => exact .awaits (.member key map h)
  | arrayItem items h => exact .awaits (.element items h)

/-- A container begins wherever a value is awaited. -/
theorem Awaits.startContainer_eq (h : Awaits stack) (name : String) (container : Node D) :
    startContainer name container ⟨.null, stack⟩ = (.ok (), ⟨.null, container :: stack⟩) :=
  h.expects.startContainer_ok name container

theorem Awaits.endContainer_shaped (h : Awaits stack) (name : String)
    (isContainer : Node D → Bool) (container : Node D) (hc : isContainer container = true) :
    ∃ builder', endContainer name isContainer ⟨.null, container :: stack⟩ = (.ok (), builder') ∧
      Shaped builder' := by
  obtain ⟨builder', hvalue, hshaped⟩ := h.value_shaped container
  exact ⟨builder', (h.expects.endContainer_eq name hc).trans hvalue, hshaped⟩

/-- Behind the context of an item a call goes well and leaves a builder of the
context that it returns. -/
theorem Behind.call_ok (h : Behind ctx builder) (hctx : ctx ≠ .builder) {c : Call D}
    (hnext : ctx.next c = some ctx') :
    ∃ builder', builder.call c = (.ok (), builder') ∧ Behind ctx' builder' := by
  cases h with
  | builder => exact absurd rfl hctx
  | dictItem map h =>
      cases c with
      | key key =>
          cases hnext
          exact ⟨_, rfl, .keyItem key map h⟩
      | endDict =>
          cases hnext
          obtain ⟨builder', hend, hshaped⟩ :=
            h.endContainer_shaped "EndDict" Node.isDict (.dict map) rfl
          exact ⟨builder', hend, .builder hshaped⟩
      | _ => cases hnext
  | keyItem key map h =>
      have hmember := Awaits.member key map h
      cases c with
      | value val =>
          cases hnext
          exact ⟨_, rfl, .dictItem _ h⟩
      | startArray =>
          cases hnext
          exact ⟨_, hmember.startContainer_eq "StartArray" _, .arrayItem [] hmember⟩
      | startDict =>
          cases hnext
          exact ⟨_, hmember.startContainer_eq "StartDict" _, .dictItem [] hmember⟩
      | _ => cases hnext
  | arrayItem items h =>
      have helement := Awaits.element items h
      cases c with
      | value val =>
          cases hnext
          exact ⟨_, rfl, .arrayItem _ h⟩
      | startArray =>
          cases hnext
          exact ⟨_, helement.startContainer_eq "StartArray" _, .arrayItem [] helement⟩
      | endArray =>
          cases hnext
          obtain ⟨builder', hend, hshaped⟩ :=
            h.endContainer_shaped "EndArray" Node.isArray (.array items) rfl
          exact ⟨builder', hend, .builder hshaped⟩
      | startDict =>
          cases hnext
          exact ⟨_, helement.startContainer_eq "StartDict" _, .dictItem [] helement⟩
      | _ => cases hnext

/-- A call that the context of an item does not have would throw. -/
theorem Behind.call_throws (h : Behind ctx builder) {c : Call D} (hnext : ctx.next c = none) :
    (builder.call c).1 ≠ .ok () := by
  cases h with
  | builder h => cases c <;> cases hnext
  | dictItem map h =>
      cases c with
      | key | endDict => cases hnext
      | _ => exact fun heq => nomatch heq
  | keyItem key map h =>
      cases c with
      | value | startArray | startDict => cases hnext
      | _ => exact fun heq => nomatch heq
  | arrayItem items h =>
      cases c with
      | value | startArray | endArray | startDict => cases hnext
      | _ => exact fun heq => nomatch heq

/-- Behind the context of an item exactly the calls that it has go well. -/
theorem Behind.call_ok_iff (h : Behind ctx builder) (hctx : ctx ≠ .builder) (c : Call D) :
    (builder.call c).1 = .ok () ↔ (ctx.next c).isSome = true := by
  cases hnext : ctx.next c with
  | none => simp [h.call_throws hnext]
  | some ctx' =>
      obtain ⟨builder', hcall, -⟩ := h.call_ok hctx hnext
      simp [hcall]

theorem Shaped.startContainer_awaits (h : Shaped builder) {name : String} {container : Node D}
    {builder' : Builder D} (hcall : builder.startContainer name container = (.ok (), builder')) :
    ∃ stack, Awaits stack ∧ builder' = ⟨.null, container :: stack⟩ := by
  cases h with
  | ready hroot => simp [startContainer, hroot] at hcall
  | awaits h =>
      rw [h.startContainer_eq] at hcall
      cases hcall
      exact ⟨_, h, rfl⟩
  | members map h => cases hcall

/-- A call that goes well on the builder itself leaves a builder of the context that it
returns. -/
theorem Shaped.call_behind (h : Shaped builder) {c : Call D}
    (hnext : Context.builder.next c = some ctx') {builder' : Builder D}
    (hcall : builder.call c = (.ok (), builder')) : Behind ctx' builder' := by
  have hshaped : Shaped builder' := by
    rcases h.call_keeps c with ⟨builder'', heq, hshaped⟩ | ⟨what, heq⟩
    · cases heq.symm.trans hcall
      exact hshaped
    · cases heq.symm.trans hcall
  cases c with
  | key key =>
      cases hnext
      cases h with
      | ready => cases hcall
      | awaits h => cases h <;> cases hcall
      | members map h =>
          cases hcall
          exact .keyItem key map h
  | startArray =>
      cases hnext
      obtain ⟨stack, hawaits, rfl⟩ := h.startContainer_awaits hcall
      exact .arrayItem [] hawaits
  | startDict =>
      cases hnext
      obtain ⟨stack, hawaits, rfl⟩ := h.startContainer_awaits hcall
      exact .dictItem [] hawaits
  | _ =>
      cases hnext
      exact .builder hshaped

end Step

theorem run_cons {builder : Builder D} (c : Call D) (calls : List (Call D)) :
    run (c :: calls) builder =
      match builder.call c with
      | (.ok (), builder') => run calls builder'
      | (.error failure, builder') => (.error failure, builder') :=
  rfl

/-- The end of a chain that compiles, or the call at which it stops. -/
theorem Behind.run {ctx ctx' : Context} {builder : Builder D} {calls : List (Call D)}
    (h : Behind ctx builder) (hafter : ctx.after calls = some ctx') :
    (∃ builder', run calls builder = (.ok (), builder') ∧ Behind ctx' builder') ∨
      ∃ before c rest builder', calls = before ++ c :: rest ∧
        ctx.after before = some .builder ∧ run before builder = (.ok (), builder') ∧
        ∃ what, builder'.call c = (.error (.logicError what), builder') := by
  induction calls generalizing ctx builder with
  | nil =>
      cases hafter
      exact .inl ⟨builder, rfl, h⟩
  | cons c calls ih =>
      rw [Context.after_cons] at hafter
      obtain ⟨next, hnext, hrest⟩ := Option.bind_eq_some_iff.mp hafter
      -- the call goes well, or it is one on the builder that throws
      have hcall : (∃ builder', builder.call c = (.ok (), builder') ∧ Behind next builder') ∨
          ctx = .builder ∧ ∃ what, builder.call c = (.error (.logicError what), builder) := by
        rcases eq_or_ne ctx .builder with rfl | hctx
        · rcases h.shaped.call_keeps c with ⟨builder', hcall, -⟩ | hthrows
          · exact .inl ⟨builder', hcall, h.shaped.call_behind hnext hcall⟩
          · exact .inr ⟨rfl, hthrows⟩
        · exact .inl (h.call_ok hctx hnext)
      rcases hcall with ⟨builder', hcall, hbehind⟩ | ⟨rfl, hthrows⟩
      · have hrun (calls : List (Call D)) :
            Builder.run (c :: calls) builder = Builder.run calls builder' := by
          rw [run_cons, hcall]
        rcases ih hbehind hrest with ⟨last, hlast, hend⟩ |
          ⟨before, c', rest, stop, rfl, hbefore, hstop, hthrows⟩
        · exact .inl ⟨last, (hrun calls).trans hlast, hend⟩
        · refine .inr ⟨c :: before, c', rest, stop, rfl, ?_, (hrun before).trans hstop, hthrows⟩
          rw [Context.after_cons, hnext]
          exact hbefore
      · exact .inr ⟨[], c, calls, builder, rfl, rfl, rfl, hthrows⟩

/-- A chain that compiles throws only at a call on the builder itself, and when it has
gone well, the context that it returns has exactly the calls that would go well. -/
theorem chain_contexts {calls : List (Call D)} {ctx : Context}
    (h : Context.builder.after calls = some ctx) :
    ((run calls {}).1 = .ok () → ctx ≠ .builder →
      ∀ c, ((run calls {}).2.call c).1 = .ok () ↔ (ctx.next c).isSome = true) ∧
    ((run calls {}).1 ≠ .ok () → ∃ before c rest, calls = before ++ c :: rest ∧
      Context.builder.after before = some .builder ∧ (run before {}).1 = .ok () ∧
      ∃ what, (run before {}).2.call c = (.error (.logicError what), (run before {}).2)) := by
  have hstart : Behind .builder ({} : Builder D) := .builder (.awaits .start)
  rcases hstart.run h with ⟨builder, hrun, hbehind⟩ |
    ⟨before, c, rest, builder, rfl, hbefore, hrun, hthrows⟩
  · rw [hrun]
    exact ⟨fun _ hctx => hbehind.call_ok_iff hctx, fun hne => absurd rfl hne⟩
  · have hstop : (run (before ++ c :: rest) {}).1 ≠ .ok () := by
      obtain ⟨what, hcall⟩ := hthrows
      rw [run_append hrun, run_cons, hcall]
      simp
    refine ⟨fun hok => absurd hok hstop, fun _ => ⟨before, c, rest, rfl, hbefore, ?_, ?_⟩⟩
    · rw [hrun]
    · rw [hrun]
      exact hthrows

/-- After a key there must be a value, and after the end of a dictionary, where the
types know no more, a key throws. -/
theorem chain_contexts_key :
    (∀ c : Call ℚ, ((run [.startDict, .key ['a']] {}).2.call c).1 = .ok () ↔
      (Context.keyItemContext.next c).isSome = true) ∧
    ∃ (before : List (Call ℚ)) (c : Call ℚ) (rest : List (Call ℚ)),
      [.startDict, .endDict, .key ['a']] = before ++ c :: rest ∧
      Context.builder.after before = some .builder ∧ (run before {}).1 = .ok () ∧
      ∃ what, (run before {}).2.call c = (.error (.logicError what), (run before {}).2) := by
  have hvalue : Context.builder.after ([.startDict, .key ['a']] : List (Call ℚ)) =
      some .keyItemContext := rfl
  have hend : Context.builder.after ([.startDict, .endDict, .key ['a']] : List (Call ℚ)) =
      some .keyItemContext := rfl
  exact ⟨(chain_contexts hvalue).1 rfl (by decide), (chain_contexts hend).2 fun h => nomatch h⟩

end TransportSystem.Json.Builder
