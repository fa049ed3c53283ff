import TransportSystem.JsonBuilder
import TransportSystem.Library.Lists

namespace TransportSystem.Json

open Library.Lists

variable {D : Type}

/-- The member of a key that is there already stays. -/
theorem Dict.Sorted.emplace_of_find {dict : Dict D} {key : Str} (val : Node D) (hs : dict.Sorted)
    (h : dict.find key ≠ none) : dict.emplace key val = dict := by
  induction dict with
  | nil => exact absurd rfl h
  | cons member dict ih =>
      obtain ⟨hmember, hdict⟩ := List.pairwise_cons.mp hs
      have hle : member.1 ≤ key := by
        by_contra hlt
        refine h (find_eq_none_iff.mpr fun member' hm => ne_of_gt ?_)
        rcases List.mem_cons.mp hm with rfl | hm
        · exact not_le.mp hlt
        · exact lt_trans (not_le.mp hlt) (hmember member' hm)
      rw [Dict.emplace, if_neg (not_lt.mpr hle)]
      split
      · rfl
      · rename_i hne
        rw [ih hdict]
        rw [Ne, find_eq_none_iff] at h ⊢
        intro hall
        exact h (List.forall_mem_cons.mpr ⟨Ne.symm hne, hall⟩)

namespace Builder

/-- The members of `emplaceAll` under distinct keys. -/
theorem emplaceAll_spec (map : Dict D) (members : List (Str × Node D)) (hs : map.Sorted)
    (h : ((map ++ members).map Prod.fst).Nodup) :
    Dict.Sorted (emplaceAll map members) ∧ (emplaceAll map members).Perm (map ++ members) := by
  induction members generalizing map with
  | nil => exact ⟨hs, by simp [emplaceAll]⟩
  | cons member members ih =>
      have hfind : map.find member.1 = none := by
        rw [Dict.find_eq_none_iff]
        intro member' hm heq
        rw [List.map_append, List.map_cons] at h
        exact (List.nodup_append.mp h).2.2 _ (List.mem_map_of_mem hm) _ List.mem_cons_self heq
      have hperm : (map.emplace member.1 member.2 ++ members).Perm (map ++ member :: members) :=
        ((Dict.emplace_perm member.2 hfind).append_right members).trans List.perm_middle.symm
      obtain ⟨hsorted, hrest⟩ :=
        ih _ (hs.emplace member.2 hfind) ((hperm.map Prod.fst).nodup_iff.mpr h)
      exact ⟨hsorted, hrest.trans hperm⟩

theorem emplaceAll_eq {map : Dict D} {members : List (Str × Node D)} (hs : map.Sorted)
    (h : map.Perm members) : emplaceAll [] members = map := by
  have hkeys : (map.map Prod.fst).Nodup :=
    List.pairwise_map.mpr (List.Pairwise.imp (fun hlt => ne_of_lt hlt) hs)
  have hspec := emplaceAll_spec [] members List.Pairwise.nil
    ((h.map Prod.fst).nodup_iff.mp hkeys)
  exact hspec.1.eq_of_perm hs (hspec.2.trans h.symm)

/-- The calls that emit a node. The nodes of `whole` may be given to `Value` as they are;
a container may be opened, filled and closed, a dictionary in any order of its keys. -/
inductive Emission (whole : Node D → Prop) : List (Call D) → Node D → Prop
  | value {node : Node D} : whole node → Emission whole [.value node] node
  | array (elements : List (List (Call D) × Node D)) :
      (∀ e ∈ elements, Emission whole e.1 e.2) →
      Emission whole (.startArray :: (elements.flatMap Prod.fst ++ [.endArray]))
        (.array (elements.map Prod.snd))
  | dict (members : List (Str × List (Call D) × Node D)) {map : Dict D} :
      (∀ m ∈ members, Emission whole m.2.1 m.2.2) → map.Sorted →
      map.Perm (members.map fun m => (m.1, m.2.2)) →
      Emission whole (.startDict :: ((members.flatMap fun m => .key m.1 :: m.2.1) ++ [.endDict]))
        (.dict map)

def Scalar (node : Node D) : Prop := node.isArray = false ∧ node.isDict = false

section Emission

variable {whole : Node D → Prop} {calls : List (Call D)} {node : Node D}

theorem Emission.emits (h : Emission whole calls node) : Emits calls node := by
  induction h with
  | value => exact emits_value _
  | array elements _ ih => exact emits_array elements ih
  | dict members _ hs hperm ih =>
      have hdict := emits_dict members ih
      rwa [emplaceAll_eq hs hperm] at hdict

theorem exists_emission (h : node.Everywhere Node.SortedMembers) :
    ∃ calls, Emission Scalar calls node := by
  induction h with
  | @intro node hnode _ ih =>
      cases node with
      | array items =>
          obtain ⟨pairs, rfl, hpairs⟩ := exists_pairs ih
          have helements : ∀ e ∈ pairs.map Prod.swap, Emission Scalar e.1 e.2 :=
            List.forall_mem_map.mpr hpairs
          have hitems : (pairs.map Prod.swap).map Prod.snd = pairs.map Prod.fst := by simp
          exact ⟨_, hitems ▸ Emission.array (pairs.map Prod.swap) helements⟩
      | dict members =>
          have hmembers : ∀ m ∈ members, ∃ calls, Emission Scalar calls m.2 :=
            fun m hm => ih m.2 (List.mem_map_of_mem hm)
          obtain ⟨pairs, rfl, hpairs⟩ := exists_pairs hmembers
          refine ⟨_, .dict (pairs.map fun p => (p.1.1, p.2, p.1.2))
            (List.forall_mem_map.mpr hpairs) hnode ?_⟩
          simp [Function.comp_def]
      | null => exact ⟨_, .value ⟨rfl, rfl⟩⟩
      | bool b => exact ⟨_, .value ⟨rfl, rfl⟩⟩
      | int i => exact ⟨_, .value ⟨rfl, rfl⟩⟩
      | double d => exact ⟨_, .value ⟨rfl, rfl⟩⟩
      | string s => exact ⟨_, .value ⟨rfl, rfl⟩⟩

end Emission

/-- Every document is emitted by calls. All calls that emit it rebuild it, and wherever a
value is expected they change only the container that is open: the value is appended to the
array or put under the key, whose first value `std::map` keeps. -/
theorem buildFrom_emission (document : Document D) :
    (∃ calls, Emission Scalar calls document.root) ∧
      ∀ calls, Emission Scalar calls document.root →
        (document.root.isNull = false → buildFrom calls = .ok document.root) ∧
        (∀ items stack, run calls ⟨.null, .array items :: stack⟩ =
          (.ok (), ⟨.null, .array (items ++ [document.root]) :: stack⟩)) ∧
        ∀ key (map : Dict D) stack, map.Sorted →
          ∃ map' : Dict D, run calls ⟨.null, .string key :: .dict map :: stack⟩ =
              (.ok (), ⟨.null, .dict map' :: stack⟩) ∧
            (map.find key = none → map'.Sorted ∧ map'.Perm ((key, document.root) :: map)) ∧
            (map.find key ≠ none → map' = map) := by
  refine ⟨exists_emission document.sorted, fun calls h => ⟨h.emits.buildFrom_eq, ?_, ?_⟩⟩
  · exact fun items stack => h.emits _ (.element items stack)
  · intro key map stack hs
    refine ⟨_, h.emits _ (.member key map stack), fun hfind => ?_, hs.emplace_of_find _⟩
    exact ⟨hs.emplace _ hfind, Dict.emplace_perm _ hfind⟩

/-- A dictionary whose keys come in the reverse order, with a null inside. -/
theorem buildFrom_emission_members :
    buildFrom (D := ℚ) [.startDict, .key ['b'], .startArray, .value .null, .endArray,
        .key ['a'], .value (.int 1), .endDict] =
      .ok (.dict [(['a'], .int 1), (['b'], .array [.null])]) := by
  have hleaf : ∀ node : Node ℚ, node.children = [] → node.SortedMembers →
      node.Everywhere Node.SortedMembers := fun node hc h => .leaf hc h
  have hsorted : (Node.dict (D := ℚ) [(['a'], .int 1), (['b'], .array [.null])]).Everywhere
      Node.SortedMembers := by
    refine .intro (by simp [Node.SortedMembers, Dict.Sorted]; decide) ?_
    simp only [Node.children, List.map_cons, List.map_nil, List.mem_cons, List.not_mem_nil,
      or_false, forall_eq_or_imp, forall_eq]
    exact ⟨hleaf _ rfl trivial,
      .intro trivial (by simpa [Node.children] using hleaf .null rfl trivial)⟩
  have harray : Emission (D := ℚ) Scalar [.startArray, .value .null, .endArray] (.array [.null]) :=
    .array [([.value .null], .null)] (by simpa using .value ⟨rfl, rfl⟩)
  refine ((buildFrom_emission ⟨_, hsorted⟩).2 _ ?_).1 rfl
  refine .dict [(['b'], [.startArray, .value .null, .endArray], .array [.null]),
    (['a'], [.value (.int 1)], .int 1)] ?_ hsorted.here (.swap _ _ _)
  simp only [List.mem_cons, List.not_mem_nil, or_false, forall_eq_or_imp, forall_eq]
  exact ⟨harray, .value ⟨rfl, rfl⟩⟩

end Builder

end TransportSystem.Json
