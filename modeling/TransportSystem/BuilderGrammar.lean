import TransportSystem.BuilderShape
import TransportSystem.BuilderValues

namespace TransportSystem.Json.Builder

open Library.Lists

variable {D : Type}

/-- The calls of the members of an object. -/
abbrev memberCalls (members : List (Str × List (Call D))) : List (Call D) :=
  members.flatMap fun m => .key m.1 :: m.2

/-- The calls of one value, where `Value` gives a whole value. The keys of every object
are as `keys` has it. -/
inductive ValueCalls (keys : List Str → Prop) : List (Call D) → Prop
  | value (val : Node D) : ValueCalls keys [.value val]
  | array (elements : List (List (Call D))) : (∀ calls ∈ elements, ValueCalls keys calls) →
      ValueCalls keys (.startArray :: (elements.flatten ++ [.endArray]))
  | dict (members : List (Str × List (Call D))) : (∀ m ∈ members, ValueCalls keys m.2) →
      keys (members.map Prod.fst) →
      ValueCalls keys (.startDict :: (memberCalls members ++ [.endDict]))

/-- The call sequence of one JSON value. -/
def Complete (calls : List (Call D)) : Prop := ValueCalls (fun _ => True) calls

/-- The beginning of the call sequence of one JSON value. -/
def Begins (calls : List (Call D)) : Prop := ∃ rest, Complete (calls ++ rest)

section Complete

variable {keys : List Str → Prop} {calls : List (Call D)}

theorem Complete.array (elements : List (List (Call D))) (h : ∀ calls ∈ elements, Complete calls) :
    Complete (.startArray :: (elements.flatten ++ [.endArray])) :=
  ValueCalls.array elements h

theorem Complete.dict (members : List (Str × List (Call D))) (h : ∀ m ∈ members, Complete m.2) :
    Complete (.startDict :: (memberCalls members ++ [.endDict])) :=
  ValueCalls.dict members h trivial

theorem ValueCalls.complete (h : ValueCalls keys calls) : Complete calls := by
  induction h with
  | value val => exact .value val
  | array elements _ ih => exact .array elements ih
  | dict members _ _ ih => exact .dict members ih

theorem Complete.begins (h : Complete calls) : Begins calls :=
  ⟨[], by simpa using h⟩

theorem Complete.eq_of_value {val : Node D} (h : Complete (.value val :: calls)) : calls = [] := by
  cases h
  rfl

theorem exists_members {R : List (Call D) → Node D → Prop} {members : List (Str × List (Call D))}
    (h : ∀ m ∈ members, ∃ node, R m.2 node) :
    ∃ triples : List (Str × List (Call D) × Node D),
      triples.map (fun t => (t.1, t.2.1)) = members ∧ ∀ t ∈ triples, R t.2.1 t.2.2 := by
  obtain ⟨pairs, rfl, hpairs⟩ := exists_pairs h
  refine ⟨pairs.map fun p => (p.1.1, p.1.2, p.2), ?_, List.forall_mem_map.mpr hpairs⟩
  rw [List.map_map]
  rfl

theorem memberCalls_map (triples : List (Str × List (Call D) × Node D)) :
    memberCalls (triples.map fun t => (t.1, t.2.1)) =
      triples.flatMap fun t => .key t.1 :: t.2.1 := by
  rw [memberCalls, List.flatMap_map]

theorem Complete.emits (h : Complete calls) :
    ∃ val, Emits calls val ∧ (val.isNull = true → calls = [.value .null]) := by
  induction h with
  | value val =>
      refine ⟨val, emits_value val, fun hval => ?_⟩
      rw [Node.isNull_iff.mp hval]
  | array elements _ ih =>
      have hvals : ∀ calls ∈ elements, ∃ val, Emits calls val := fun calls hcalls =>
        (ih calls hcalls).imp fun _ h => h.1
      obtain ⟨pairs, rfl, hpairs⟩ := exists_pairs hvals
      exact ⟨_, emits_array pairs hpairs, by simp [Node.isNull]⟩
  | dict members _ _ ih =>
      have hvals : ∀ m ∈ members, ∃ val, Emits m.2 val := fun m hm =>
        (ih m hm).imp fun _ h => h.1
      obtain ⟨triples, rfl, htriples⟩ := exists_members hvals
      rw [memberCalls_map]
      exact ⟨_, emits_dict triples htriples, by simp [Node.isNull]⟩

/-- Where no key repeats within an object, the calls emit a value. -/
theorem ValueCalls.exists_emission (h : ValueCalls List.Nodup calls) :
    ∃ node : Node D, Emission (fun _ => True) calls node := by
  induction h with
  | value val => exact ⟨val, .value trivial⟩
  | array elements _ ih =>
      obtain ⟨pairs, rfl, hpairs⟩ := exists_pairs ih
      exact ⟨_, .array pairs hpairs⟩
  | dict members _ hkeys ih =>
      obtain ⟨triples, rfl, htriples⟩ := exists_members ih
      rw [List.map_map] at hkeys
      have hspec := emplaceAll_spec [] (triples.map fun t => (t.1, t.2.2))
        List.Pairwise.nil (by simpa [Function.comp_def] using hkeys)
      rw [memberCalls_map]
      exact ⟨_, .dict triples htriples hspec.1 hspec.2⟩

end Complete

/-- The calls that have led to a stack on which a value is awaited. -/
inductive Opened : List (Node D) → List (Call D) → Prop
  | start : Opened [] []
  | element (items : List (Node D)) {elements : List (List (Call D))} {stack : List (Node D)}
      {calls : List (Call D)} : Opened stack calls → (∀ e ∈ elements, Complete e) →
      Opened (.array items :: stack) (calls ++ .startArray :: elements.flatten)
  | member (key : Str) (map : Dict D) {members : List (Str × List (Call D))}
      {stack : List (Node D)} {calls : List (Call D)} : Opened stack calls →
      (∀ m ∈ members, Complete m.2) →
      Opened (.string key :: .dict map :: stack)
        (calls ++ .startDict :: (memberCalls members ++ [.key key]))

/-- The calls that have led to a builder, if the first of them was no `Value(nullptr)`. -/
inductive LeadsTo : List (Call D) → Builder D → Prop
  | ready {root : Node D} {calls : List (Call D)} : root.isNull = false → Complete calls →
      LeadsTo calls ⟨root, []⟩
  | awaits {stack : List (Node D)} {calls : List (Call D)} : Opened stack calls →
      LeadsTo calls ⟨.null, stack⟩
  | members (map : Dict D) {members : List (Str × List (Call D))} {stack : List (Node D)}
      {calls : List (Call D)} : Opened stack calls → (∀ m ∈ members, Complete m.2) →
      LeadsTo (calls ++ .startDict :: memberCalls members) ⟨.null, .dict map :: stack⟩

section LeadsTo

variable {stack : List (Node D)} {calls w : List (Call D)} {builder builder' : Builder D}

theorem Opened.awaits (h : Opened stack calls) : Awaits stack := by
  induction h with
  | start => exact .start
  | element items _ _ ih => exact .element items ih
  | member key map _ _ ih => exact .member key map ih

/-- Calls that have led to a place for a value can be completed after any value. -/
theorem Opened.complete (h : Opened stack calls) (hw : Complete w) :
    ∃ rest, Complete (calls ++ w ++ rest) := by
  induction h generalizing w with
  | start => exact ⟨[], by simpa using hw⟩
  | @element items elements stack calls _ helements ih =>
      have harray : Complete (.startArray :: ((elements ++ [w]).flatten ++ [.endArray])) :=
        .array _ (List.forall_mem_append.mpr ⟨helements, by simpa using hw⟩)
      obtain ⟨rest, hrest⟩ := ih harray
      exact ⟨.endArray :: rest, by simpa using hrest⟩
  | @member key map members stack calls _ hmembers ih =>
      have hdict : Complete (.startDict :: (memberCalls (members ++ [(key, w)]) ++ [.endDict])) :=
        .dict _ (List.forall_mem_append.mpr ⟨hmembers, by simpa using hw⟩)
      obtain ⟨rest, hrest⟩ := ih hdict
      exact ⟨.endDict :: rest, by simpa using hrest⟩

theorem LeadsTo.begins (h : LeadsTo calls builder) : Begins calls := by
  cases h with
  | ready _ hcomplete => exact hcomplete.begins
  | awaits h =>
      obtain ⟨rest, hrest⟩ := h.complete (.value .null)
      exact ⟨.value .null :: rest, by simpa using hrest⟩
  | members map h hmembers =>
      obtain ⟨rest, hrest⟩ := h.complete (.dict _ hmembers)
      exact ⟨.endDict :: rest, by simpa using hrest⟩

/-- A value given where it is awaited. -/
theorem Opened.value (h : Opened stack calls) (hw : Complete w) (val : Node D)
    (hval : stack = [] → val.isNull = false)
    (hvalue : value ⟨.null, stack⟩ val = (.ok (), builder)) : LeadsTo (calls ++ w) builder := by
  cases h with
  | start =>
      cases hvalue
      exact .ready (hval rfl) hw
  | @element items elements stack calls h helements =>
      cases hvalue
      have hnew : ∀ e ∈ elements ++ [w], Complete e :=
        List.forall_mem_append.mpr ⟨helements, by simpa using hw⟩
      simpa using LeadsTo.awaits (.element (items ++ [val]) h hnew)
  | @member key map members stack calls h hmembers =>
      cases hvalue
      have hnew : ∀ m ∈ members ++ [(key, w)], Complete m.2 :=
        List.forall_mem_append.mpr ⟨hmembers, by simpa using hw⟩
      simpa using LeadsTo.members (map.emplace key val) h hnew

/-- What has been ended is handed over as a value. -/
theorem Opened.end_container (h : Opened stack calls) (hw : Complete w) (name : String)
    (isContainer : Node D → Bool) (container : Node D) (hnull : container.isNull = false)
    (hc : isContainer container = true)
    (hend : endContainer name isContainer ⟨.null, container :: stack⟩ = (.ok (), builder)) :
    LeadsTo (calls ++ w) builder := by
  refine h.value hw container (fun _ => hnull) ?_
  rw [← h.awaits.expects.endContainer_eq name hc]
  exact hend

theorem Opened.call_value (h : Opened stack calls) {val : Node D}
    (hval : calls = [] → val.isNull = false)
    (hcall : Builder.value ⟨.null, stack⟩ val = (.ok (), builder)) :
    LeadsTo (calls ++ [.value val]) builder := by
  refine h.value (.value val) val (fun hstack => ?_) hcall
  subst hstack
  cases h
  exact hval rfl

/-- One call that goes well. -/
theorem LeadsTo.call (h : LeadsTo calls builder) {c : Call D}
    (hc : calls = [] → c ≠ .value .null) (hcall : builder.call c = (.ok (), builder')) :
    LeadsTo (calls ++ [c]) builder' := by
  cases h with
  | @ready root calls hroot hcomplete =>
      have hthrows : ∀ c, ∃ what, call ⟨root, []⟩ c = (.error (.logicError what), ⟨root, []⟩) := by
        intro c
        cases c with
        | value val => exact ⟨_, if_pos (by simp [hroot])⟩
        | startArray => exact ⟨_, if_pos (by simp [hroot])⟩
        | startDict => exact ⟨_, if_pos (by simp [hroot])⟩
        | key => exact ⟨_, rfl⟩
        | endArray => exact ⟨_, rfl⟩
        | endDict => exact ⟨_, rfl⟩
      obtain ⟨what, hwhat⟩ := hthrows c
      rw [hwhat] at hcall
      cases hcall
  | @members map members stack calls h hmembers =>
      cases c with
      | key key =>
          cases hcall
          simpa using LeadsTo.awaits (.member key map h hmembers)
      | endDict =>
          simpa using
            h.end_container (.dict members hmembers) "EndDict" Node.isDict (.dict map) rfl rfl hcall
      | value => cases hcall
      | startArray => cases hcall
      | startDict => cases hcall
      | endArray => cases hcall
  | awaits h =>
      cases c with
      | value val =>
          refine h.call_value (fun hnil => Bool.eq_false_iff.mpr fun hval => hc hnil ?_) hcall
          rw [Node.isNull_iff.mp hval]
      | startArray =>
          have hstart := h.awaits.expects.startContainer_ok "StartArray" (.array [])
          obtain rfl : builder' = _ := congrArg Prod.snd (hcall.symm.trans hstart)
          have hnone : ∀ e ∈ ([] : List (List (Call D))), Complete e := by simp
          simpa using LeadsTo.awaits (.element [] h hnone)
      | startDict =>
          have hstart := h.awaits.expects.startContainer_ok "StartDict" (.dict [])
          obtain rfl : builder' = _ := congrArg Prod.snd (hcall.symm.trans hstart)
          have hnone : ∀ m ∈ ([] : List (Str × List (Call D))), Complete m.2 := by simp
          simpa using LeadsTo.members [] h hnone
      | key => cases h <;> cases hcall
      | endDict => cases h <;> cases hcall
      | endArray =>
          cases h with
          | start => cases hcall
          | member => cases hcall
          | @element items elements stack calls h helements =>
              simpa using
                h.end_container (.array elements helements) "EndArray" Node.isArray (.array items)
                  rfl rfl hcall

theorem leadsTo_run {before : List (Call D)} (h : LeadsTo before builder)
    (hc : before = [] → ∀ rest, calls ≠ .value .null :: rest)
    (hrun : run calls builder = (.ok (), builder')) : LeadsTo (before ++ calls) builder' := by
  induction calls generalizing before builder with
  | nil =>
      cases hrun
      simpa using h
  | cons c calls ih =>
      rw [run] at hrun
      cases hcall : builder.call c with
      | mk result builder'' =>
          rw [hcall] at hrun
          cases result with
          | error failure => cases hrun
          | ok _ =>
              have hstep := h.call (fun hnil hnull => hc hnil calls (by rw [hnull])) hcall
              simpa using ih hstep (by simp) hrun

end LeadsTo

section Run

variable {calls : List (Call D)} {builder : Builder D}

theorem run_prefix (rest : List (Call D)) (h : (run (calls ++ rest) builder).1 = .ok ()) :
    (run calls builder).1 = .ok () := by
  induction calls generalizing builder with
  | nil => rfl
  | cons c calls ih =>
      rw [List.cons_append, run] at h
      rw [run]
      cases hcall : builder.call c with
      | mk result builder' =>
          rw [hcall] at h
          cases result with
          | error failure => cases h
          | ok _ => exact ih h

theorem Complete.run_eq (h : Complete calls) : ∃ val, run calls {} = (.ok (), ⟨val, []⟩) ∧
    (val.isNull = true → calls = [.value .null]) := by
  obtain ⟨val, hemits, hnull⟩ := h.emits
  exact ⟨val, hemits {} .start, hnull⟩

theorem Begins.run_ok (h : Begins calls) : (run calls {}).1 = .ok () := by
  obtain ⟨rest, hrest⟩ := h
  obtain ⟨val, hrun, -⟩ := hrest.run_eq
  exact run_prefix rest (by rw [hrun])

theorem begins_of_run (hc : ∀ rest, calls ≠ .value .null :: rest)
    (h : (run calls {}).1 = .ok ()) : Begins calls := by
  cases hrun : run calls {} with
  | mk result builder =>
      rw [hrun] at h
      obtain rfl : result = .ok () := h
      simpa using (leadsTo_run (.awaits .start) (fun _ => hc) hrun).begins

theorem run_of_buildFrom {node : Node D} (h : buildFrom calls = .ok node) :
    node.isNull = false ∧ run calls {} = (.ok (), ⟨node, []⟩) := by
  unfold buildFrom at h
  cases hrun : run calls {} with
  | mk result builder =>
      obtain ⟨root, stack⟩ := builder
      rw [hrun] at h
      cases result with
      | error failure => cases h
      | ok _ =>
          rw [ok_bind, build] at h
          split at h
          · cases h
          · rename_i hroot
            cases stack with
            | nil =>
                cases h
                exact ⟨by simpa using hroot, rfl⟩
            | cons => cases h

theorem complete_of_build (hc : ∀ rest, calls ≠ .value .null :: rest) {node : Node D}
    (h : buildFrom calls = .ok node) : Complete calls := by
  obtain ⟨hnull, hrun⟩ := run_of_buildFrom h
  have hleads := leadsTo_run (.awaits .start) (fun _ => hc) hrun
  cases hleads with
  | ready _ hcomplete => exact hcomplete
  | awaits => cases hnull

def Call.isNullValue : Call D → Bool
  | .value .null => true
  | _ => false

theorem Call.isNullValue_iff {c : Call D} : c.isNullValue = true ↔ c = .value .null := by
  constructor
  · unfold isNullValue
    split
    · exact fun _ => rfl
    · simp
  · rintro rfl
    rfl

theorem run_dropWhile (calls : List (Call D)) :
    run calls {} = run (calls.dropWhile Call.isNullValue) {} := by
  induction calls with
  | nil => rfl
  | cons c calls ih =>
      rw [List.dropWhile_cons]
      split
      · rename_i hc
        obtain rfl := Call.isNullValue_iff.mp hc
        rw [← ih]
        rfl
      · rfl

theorem exists_of_head (h : calls.head?.any Call.isNullValue) :
    ∃ rest, calls = .value .null :: rest := by
  cases calls with
  | nil => cases h
  | cons c calls =>
      obtain rfl := Call.isNullValue_iff.mp h
      exact ⟨calls, rfl⟩

theorem not_null_dropWhile (calls rest : List (Call D)) :
    calls.dropWhile Call.isNullValue ≠ .value .null :: rest := by
  intro h
  have hhead := List.head?_dropWhile_not Call.isNullValue calls
  rw [h] at hhead
  cases hhead

end Run

/-- What a builder makes of the calls is what the grammar says of them. -/
structure Follows (calls : List (Call D)) : Prop where
  taken : (run calls {}).1 = .ok () ↔ Begins calls
  built : (∃ node, buildFrom calls = .ok node) ↔ Complete calls
  returned : ValueCalls List.Nodup calls →
    ∃ node, Emission (fun _ => True) calls node ∧ buildFrom calls = .ok node

section Follows

variable {calls : List (Call D)}

theorem follows_of_not_null (hc : ∀ rest, calls ≠ .value .null :: rest) : Follows calls := by
  have hbuild : ∀ val, run calls {} = (.ok (), ⟨val, []⟩) →
      (val.isNull = true → calls = [.value .null]) → buildFrom calls = .ok val := by
    intro val hrun hnull
    have hval : val.isNull = false := by
      cases hval : val.isNull with
      | false => rfl
      | true => exact absurd (hnull hval) (hc [])
    unfold buildFrom
    rw [hrun, ok_bind, build, if_neg (by simp [hval])]
    rfl
  refine ⟨⟨begins_of_run hc, Begins.run_ok⟩, ⟨?_, fun h => ?_⟩, fun h => ?_⟩
  · rintro ⟨node, hnode⟩
    exact complete_of_build hc hnode
  · obtain ⟨val, hrun, hnull⟩ := h.run_eq
    exact ⟨val, hbuild val hrun hnull⟩
  · obtain ⟨node, hemission⟩ := h.exists_emission
    obtain ⟨val, hrun, hnull⟩ := h.complete.run_eq
    have hval : node = val :=
      congrArg (fun outcome => outcome.2.root) ((hemission.emits {} .start).symm.trans hrun)
    exact ⟨node, hemission, hval ▸ hbuild val hrun hnull⟩

theorem follows_of_throws (h : (run calls {}).1 ≠ .ok ()) : Follows calls := by
  have hbegins : ¬ Begins calls := fun hbegins => h hbegins.run_ok
  refine ⟨iff_of_false h hbegins, ⟨?_, fun hcomplete => absurd hcomplete.begins hbegins⟩,
    fun hcomplete => absurd hcomplete.complete.begins hbegins⟩
  rintro ⟨node, hnode⟩
  exact absurd (by rw [(run_of_buildFrom hnode).2]) h

/-- A builder follows the grammar, except where the calls begin with `Value(nullptr)`, which
leaves the root null, and what comes after such calls is the beginning of a value again. -/
theorem follows_iff (calls : List (Call D)) :
    Follows calls ↔
      ¬ (calls.head?.any Call.isNullValue ∧ Begins (calls.dropWhile Call.isNullValue)) := by
  constructor
  · rintro h ⟨hhead, hrest⟩
    have hbegins : Begins calls := h.taken.mp (by rw [run_dropWhile]; exact hrest.run_ok)
    obtain ⟨rest, rfl⟩ := exists_of_head hhead
    obtain ⟨after, hcomplete⟩ := hbegins
    obtain rfl : rest = [] := (List.append_eq_nil_iff.mp hcomplete.eq_of_value).1
    obtain ⟨node, hnode⟩ := h.built.mpr (.value .null)
    cases hnode
  · intro h
    cases hhead : calls.head?.any Call.isNullValue with
    | false =>
        refine follows_of_not_null fun rest hcalls => ?_
        rw [hcalls] at hhead
        cases hhead
    | true =>
        refine follows_of_throws fun hrun => h ⟨hhead, ?_⟩
        rw [run_dropWhile] at hrun
        exact begins_of_run (not_null_dropWhile calls) hrun

end Follows

/-- After `Value(nullptr)` alone, which is the call sequence of a value, `Build` throws. -/
theorem not_follows_null : ¬ Follows [Call.value (Node.null (D := ℚ))] := by
  intro h
  obtain ⟨node, hnode⟩ := h.built.mpr (.value .null)
  cases hnode

end TransportSystem.Json.Builder
