import Mathlib.Data.Char
import Mathlib.Data.List.Lex
import TransportSystem.Json

namespace TransportSystem.Json

variable {D : Type}

namespace Dict

/-- The members of a map: each key once, in increasing order. -/
def Sorted (dict : Dict D) : Prop :=
  dict.Pairwise fun member member' => member.1 < member'.1

instance (dict : Dict D) : Decidable dict.Sorted :=
  inferInstanceAs (Decidable (List.Pairwise _ _))

/-- `dict.emplace(key, value)` -/
def emplace (key : Str) (value : Node D) : Dict D → Dict D
  | [] => [(key, value)]
  | member :: dict =>
      if key < member.1 then (key, value) :: member :: dict
      else if key = member.1 then member :: dict
      else member :: emplace key value dict

theorem find_eq_none_iff {dict : Dict D} {key : Str} :
    dict.find key = none ↔ ∀ member ∈ dict, member.1 ≠ key := by
  simp [find]

theorem emplace_perm {dict : Dict D} {key : Str} (value : Node D)
    (h : dict.find key = none) : (dict.emplace key value).Perm ((key, value) :: dict) := by
  rw [find_eq_none_iff] at h
  induction dict with
  | nil => exact .refl _
  | cons member dict ih =>
      have hne : key ≠ member.1 := (h member (by simp)).symm
      rw [emplace, if_neg hne]
      split
      · exact .refl _
      · have ih' := ih fun member' hm => h member' (by simp [hm])
        exact (ih'.cons member).trans (.swap _ _ _)

theorem Sorted.emplace {dict : Dict D} {key : Str} (value : Node D) (hs : dict.Sorted)
    (h : dict.find key = none) : Sorted (dict.emplace key value) := by
  induction dict with
  | nil => exact List.pairwise_singleton _ _
  | cons member dict ih =>
      obtain ⟨hmember, hdict⟩ := List.pairwise_cons.mp hs
      have hkey := find_eq_none_iff.mp h
      have hne : key ≠ member.1 := (hkey member (by simp)).symm
      have hrest : find dict key = none :=
        find_eq_none_iff.mpr fun member' hm => hkey member' (by simp [hm])
      rw [Dict.emplace, if_neg hne]
      split
      · rename_i hlt
        refine List.pairwise_cons.mpr ⟨fun member' hm => ?_, hs⟩
        rcases List.mem_cons.mp hm with rfl | hm
        · exact hlt
        · exact lt_trans hlt (hmember member' hm)
      · rename_i hlt
        refine List.pairwise_cons.mpr ⟨fun member' hm => ?_, ih hdict hrest⟩
        rcases List.mem_cons.mp ((emplace_perm value hrest).subset hm) with rfl | hm
        · exact lt_of_le_of_ne (not_lt.mp hlt) hne.symm
        · exact hmember member' hm

theorem Sorted.find_eq_none {dict : Dict D} {before after : Dict D} {key : Str} {value : Node D}
    (hs : dict.Sorted) (h : dict.Perm (before ++ (key, value) :: after)) :
    before.find key = none := by
  have hnodup : (dict.map Prod.fst).Nodup :=
    List.pairwise_map.mpr (List.Pairwise.imp (fun hlt => ne_of_lt hlt) hs)
  rw [(h.map Prod.fst).nodup_iff, List.map_append, List.map_cons] at hnodup
  rw [find_eq_none_iff]
  intro member hm heq
  have hmem : key ∈ before.map Prod.fst := heq ▸ List.mem_map_of_mem hm
  exact (List.nodup_append.mp hnodup).2.2 _ hmem _ (by simp) rfl

/-- A map is determined by its members. -/
theorem Sorted.eq_of_perm {dict dict' : Dict D} (hs : dict.Sorted) (hs' : dict'.Sorted)
    (h : dict.Perm dict') : dict = dict' := by
  refine h.eq_of_pairwise (fun a b _ _ hab hba => ?_) hs hs'
  exact absurd (lt_trans hab hba) (lt_irrefl _)

end Dict

namespace Node

/-- The nodes directly inside a node. -/
def children : Node D → List (Node D)
  | .array items => items
  | .dict members => members.map Prod.snd
  | _ => []

/-- A property of a node and of all nodes inside it. -/
inductive Everywhere (p : Node D → Prop) : Node D → Prop
  | intro {node : Node D} : p node → (∀ child ∈ node.children, Everywhere p child) →
      Everywhere p node

/-- A dictionary is sorted. Other nodes have nothing to satisfy. -/
def SortedMembers : Node D → Prop
  | .dict members => Dict.Sorted members
  | _ => True

def NotDouble : Node D → Prop
  | .double _ => False
  | _ => True

/-- A property of a node, if it is a `double`. -/
def Doubles (p : D → Prop) : Node D → Prop
  | .double value => p value
  | _ => True

instance (p : D → Prop) [DecidablePred p] : DecidablePred (Doubles p)
  | .double value => inferInstanceAs (Decidable (p value))
  | .null | .array _ | .dict _ | .bool _ | .int _ | .string _ => .isTrue trivial

/-- A property of the strings directly in a node, which are its keys if it is a dictionary. -/
def Strings (p : Str → Prop) : Node D → Prop
  | .string value => p value
  | .dict members => ∀ member ∈ members, p member.1
  | _ => True

theorem strings_of_forall {p : Str → Prop} (h : ∀ s, p s) (node : Node D) : node.Strings p := by
  cases node with
  | string value => exact h value
  | dict members => exact fun member _ => h member.1
  | _ => trivial

theorem Strings.imp₂ {p q r : Str → Prop} {node : Node D} (hp : node.Strings p)
    (hq : node.Strings q) (h : ∀ s, p s → q s → r s) : node.Strings r := by
  cases node with
  | string value => exact h value hp hq
  | dict members => exact fun member hm => h member.1 (hp member hm) (hq member hm)
  | _ => trivial

theorem Everywhere.leaf {p : Node D → Prop} {node : Node D} (hc : node.children = [])
    (h : p node) : Everywhere p node :=
  .intro h (by simp [hc])

theorem Everywhere.here {p : Node D → Prop} {node : Node D} (h : Everywhere p node) : p node := by
  cases h with
  | intro h _ => exact h

theorem Everywhere.imp {p q : Node D → Prop} {node : Node D} (h : Everywhere p node)
    (hpq : ∀ node, p node → q node) : Everywhere q node := by
  induction h with
  | intro hnode _ ih => exact .intro (hpq _ hnode) ih

theorem Everywhere.and {p q : Node D → Prop} {node : Node D} (hp : Everywhere p node)
    (hq : Everywhere q node) : Everywhere (fun node => p node ∧ q node) node := by
  induction hp with
  | intro hnode _ ih =>
      cases hq with
      | intro hnode' hq => exact .intro ⟨hnode, hnode'⟩ fun child hc => ih child hc (hq child hc)

theorem everywhere_iff (p : Node D → Prop) (node : Node D) :
    Everywhere p node ↔ p node ∧ ∀ child ∈ node.children, Everywhere p child := by
  constructor
  · rintro ⟨hnode, hchildren⟩
    exact ⟨hnode, hchildren⟩
  · exact fun h => .intro h.1 h.2

theorem Everywhere.child {p : Node D → Prop} {node child : Node D} (h : Everywhere p node)
    (hc : child ∈ node.children) : Everywhere p child := by
  cases h with
  | intro _ h => exact h child hc

section Decide

variable (p : Node D → Prop) [DecidablePred p]

mutual

/-- Checks a property of a node and of all nodes inside it. -/
def holdsIn : Node D → Bool
  | .array items => decide (p (.array items)) && itemsHold items
  | .dict members => decide (p (.dict members)) && membersHold members
  | node => decide (p node)

def itemsHold : List (Node D) → Bool
  | [] => true
  | node :: nodes => holdsIn node && itemsHold nodes

def membersHold : List (Str × Node D) → Bool
  | [] => true
  | (_, node) :: nodes => holdsIn node && membersHold nodes

end

mutual

theorem holdsIn_iff (node : Node D) : holdsIn p node = true ↔ Everywhere p node := by
  rw [everywhere_iff]
  cases node with
  | array items =>
      rw [holdsIn, Bool.and_eq_true, decide_eq_true_iff, itemsHold_iff items]
      rfl
  | dict members =>
      rw [holdsIn, Bool.and_eq_true, decide_eq_true_iff, membersHold_iff members]
      simp only [children, List.forall_mem_map]
  | _ => simp [holdsIn, children]

theorem itemsHold_iff (items : List (Node D)) :
    itemsHold p items = true ↔ ∀ item ∈ items, Everywhere p item := by
  cases items with
  | nil => simp [itemsHold]
  | cons node nodes =>
      rw [itemsHold, Bool.and_eq_true, holdsIn_iff node, itemsHold_iff nodes, List.forall_mem_cons]

theorem membersHold_iff (members : List (Str × Node D)) :
    membersHold p members = true ↔ ∀ member ∈ members, Everywhere p member.2 := by
  cases members with
  | nil => simp [membersHold]
  | cons member nodes =>
      rw [membersHold, Bool.and_eq_true, holdsIn_iff member.2, membersHold_iff nodes,
        List.forall_mem_cons]

end

instance : DecidablePred (Everywhere p) :=
  fun node => decidable_of_iff (holdsIn p node = true) (holdsIn_iff p node)

end Decide

end Node

structure Document (D : Type) where
  root : Node D
  sorted : root.Everywhere Node.SortedMembers

end TransportSystem.Json
