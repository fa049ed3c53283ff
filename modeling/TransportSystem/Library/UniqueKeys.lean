import Mathlib.Data.List.AList

/-!
Hash maps with unique keys, seen through their lookups. The entries stand for
the elements in some iteration order; nothing proved here depends on that
order.
-/

namespace TransportSystem.Library.UniqueKeys

universe u v

/-- A map with unique keys and an unspecified iteration order. -/
abbrev UnorderedMap (K : Type u) (V : Type v) := AList fun _ : K => V

namespace UnorderedMap

variable {K : Type u} {V : Type v} [DecidableEq K]

def lookup (m : UnorderedMap K V) (k : K) : Option V := AList.lookup k m

/-- Assignment: the value of a key already present is replaced. -/
def assign (m : UnorderedMap K V) (k : K) (v : V) : UnorderedMap K V := AList.insert k v m

/-- Insertion that keeps the value of a key already present. -/
def emplace (m : UnorderedMap K V) (k : K) (v : V) : UnorderedMap K V :=
  if k ∈ m then m else m.assign k v

@[simp] theorem lookup_empty (k : K) : lookup (∅ : UnorderedMap K V) k = none :=
  AList.lookup_empty k

theorem lookup_eq_none {m : UnorderedMap K V} {k : K} : m.lookup k = none ↔ k ∉ m :=
  AList.lookup_eq_none

theorem mem_iff_lookup {m : UnorderedMap K V} {k : K} :
    k ∈ m ↔ ∃ v, m.lookup k = some v := by
  rw [← AList.lookup_isSome, Option.isSome_iff_exists]
  rfl

theorem lookup_eq_some {m : UnorderedMap K V} {k : K} {v : V} :
    m.lookup k = some v ↔ ⟨k, v⟩ ∈ m.entries :=
  AList.mem_lookup_iff

theorem lookup_assign (m : UnorderedMap K V) (k k' : K) (v : V) :
    (m.assign k v).lookup k' = if k' = k then some v else m.lookup k' := by
  unfold assign lookup
  by_cases h : k' = k
  · subst k'
    simp
  · rw [AList.lookup_insert_ne h, if_neg h]

@[simp] theorem assign_assign (m : UnorderedMap K V) (k : K) (v w : V) :
    (m.assign k v).assign k w = m.assign k w :=
  AList.insert_insert m

@[simp] theorem mem_assign (m : UnorderedMap K V) (k k' : K) (v : V) :
    k' ∈ m.assign k v ↔ k' = k ∨ k' ∈ m :=
  AList.mem_insert m

theorem lookup_emplace (m : UnorderedMap K V) (k k' : K) (v : V) :
    (m.emplace k v).lookup k' =
      if k' = k ∧ m.lookup k = none then some v else m.lookup k' := by
  unfold emplace
  by_cases hmem : k ∈ m
  · have hsome : m.lookup k ≠ none := by
      simpa [lookup_eq_none] using hmem
    simp [hmem, hsome]
  · have hnone : m.lookup k = none := lookup_eq_none.mpr hmem
    rw [if_neg hmem, lookup_assign]
    simp [hnone]

end UnorderedMap

open UnorderedMap

section Iterate

variable {K : Type u} {V : Type v} [DecidableEq K]

/-- A way to iterate over maps: every element once, in any order. -/
structure Iteration (K : Type u) (V : Type v) where
  order : UnorderedMap K V → List (Σ _ : K, V)
  perm : ∀ m, (order m).Perm m.entries

namespace Iteration

def ofEntries : Iteration K V := ⟨fun m => m.entries, fun _ => .rfl⟩

theorem mem_order (it : Iteration K V) {m : UnorderedMap K V} {k : K} {v : V} :
    ⟨k, v⟩ ∈ it.order m ↔ m.lookup k = some v :=
  (it.perm m).mem_iff.trans lookup_eq_some.symm

omit [DecidableEq K] in
theorem nodup_keys (it : Iteration K V) (m : UnorderedMap K V) :
    ((it.order m).map Sigma.fst).Nodup :=
  ((it.perm m).map Sigma.fst).nodup_iff.mpr m.nodupKeys

/-- A map can be met in any order of its elements. -/
theorem exists_order {m : UnorderedMap K V} {l : List (Σ _ : K, V)} (h : l.Perm m.entries) :
    ∃ it : Iteration K V, it.order m = l := by
  classical
  refine ⟨⟨fun m' => if m' = m then l else m'.entries, fun m' => ?_⟩, if_pos rfl⟩
  split
  · rename_i heq
    exact heq ▸ h
  · exact .rfl

/-- Any elements of a map can be met last, or first. -/
theorem exists_order_append {m : UnorderedMap K V} {l : List (Σ _ : K, V)} (hnodup : l.Nodup)
    (hmem : ∀ e ∈ l, m.lookup e.1 = some e.2) :
    ∃ rest, (∃ it : Iteration K V, it.order m = rest ++ l) ∧
      ∃ it : Iteration K V, it.order m = l ++ rest := by
  obtain ⟨l', hperm, hsublist⟩ :=
    List.subperm_of_subset hnodup fun e he => lookup_eq_some.mp (hmem e he)
  obtain ⟨rest, hrest⟩ := hsublist.exists_perm_append
  have horder : (l ++ rest).Perm m.entries := (hperm.symm.append_right rest).trans hrest.symm
  exact ⟨rest, exists_order (List.perm_append_comm.trans horder), exists_order horder⟩

end Iteration

end Iterate

namespace UnorderedMap

variable {K : Type u} {V : Type v} [DecidableEq K]

section Recode

variable {K' : Type*} {V' : Type*} [DecidableEq K']

/-- What is found after assignments was assigned or was there before. -/
theorem mem_of_lookup_foldl_assign {A : Type*} {key : A → K} {value : A → V} {entries : List A}
    {m : UnorderedMap K V} {k : K} {v : V}
    (h : (entries.foldl (fun m a => m.assign (key a) (value a)) m).lookup k = some v) :
    (∃ a ∈ entries, key a = k ∧ value a = v) ∨ m.lookup k = some v := by
  induction entries generalizing m with
  | nil => exact Or.inr h
  | cons a entries ih =>
      rw [List.foldl_cons] at h
      rcases ih h with ⟨b, hb, hkey⟩ | h
      · exact Or.inl ⟨b, List.mem_cons_of_mem a hb, hkey⟩
      · rw [lookup_assign] at h
        split at h
        · rename_i hk
          cases h
          exact Or.inl ⟨a, List.mem_cons_self, hk.symm, rfl⟩
        · exact Or.inr h

/-- Assigning entries with distinct keys leaves each of them in the map. -/
theorem lookup_foldl_assign {A : Type*} (key : A → K) (value : A → V) (entries : List A)
    (hnodup : (entries.map key).Nodup) (m : UnorderedMap K V) (k : K) (v : V) :
    (entries.foldl (fun m a => m.assign (key a) (value a)) m).lookup k = some v ↔
      (∃ a ∈ entries, key a = k ∧ value a = v) ∨
        k ∉ entries.map key ∧ m.lookup k = some v := by
  induction entries generalizing m with
  | nil => simp
  | cons a entries ih =>
      rw [List.map_cons, List.nodup_cons] at hnodup
      rw [List.foldl_cons, ih hnodup.2, lookup_assign]
      by_cases hk : k = key a
      · subst hk
        have hother : ¬ ∃ b ∈ entries, key b = key a ∧ value b = v := by
          rintro ⟨b, hb, hkey, -⟩
          exact hnodup.1 (hkey ▸ List.mem_map_of_mem hb)
        simp [hother, hnodup.1]
      · have hk' : key a ≠ k := fun h => hk h.symm
        simp [hk, hk']

/-- Copying a map into an empty one with its keys and values recoded. -/
def recode (it : Iteration K V) (f : K → K') (g : K → V → V') (m : UnorderedMap K V) :
    UnorderedMap K' V' :=
  (it.order m).foldl (fun m' e => m'.assign (f e.1) (g e.1 e.2)) ∅

theorem lookup_recode (it : Iteration K V) {f : K → K'} (g : K → V → V') {m : UnorderedMap K V}
    (hinj : ∀ k ∈ m, ∀ l ∈ m, f k = f l → k = l) (k' : K') (v' : V') :
    (m.recode it f g).lookup k' = some v' ↔
      ∃ k v, m.lookup k = some v ∧ f k = k' ∧ g k v = v' := by
  have hnodup : ((it.order m).map fun e => f e.1).Nodup := by
    have hkeys := it.nodup_keys m
    have hmap : ((it.order m).map fun e => f e.1) = ((it.order m).map Sigma.fst).map f := by
      rw [List.map_map]
      rfl
    rw [hmap]
    refine (List.nodup_map_iff_inj_on hkeys).mpr ?_
    intro k hk l hl
    obtain ⟨⟨k, v⟩, hkv, rfl⟩ := List.mem_map.mp hk
    obtain ⟨⟨l, w⟩, hlw, rfl⟩ := List.mem_map.mp hl
    exact hinj k (mem_iff_lookup.mpr ⟨v, it.mem_order.mp hkv⟩) l
      (mem_iff_lookup.mpr ⟨w, it.mem_order.mp hlw⟩)
  unfold recode
  rw [lookup_foldl_assign (fun e : Σ _ : K, V => f e.1) (fun e => g e.1 e.2) _ hnodup]
  simp only [lookup_empty, reduceCtorEq, and_false, or_false]
  constructor
  · rintro ⟨⟨k, v⟩, hmem, hkey, hvalue⟩
    exact ⟨k, v, it.mem_order.mp hmem, hkey, hvalue⟩
  · rintro ⟨k, v, hlookup, hkey, hvalue⟩
    exact ⟨⟨k, v⟩, it.mem_order.mpr hlookup, hkey, hvalue⟩

/-- Decoding an encoded map gives back its lookups. -/
theorem lookup_recode_recode (it : Iteration K V) (it' : Iteration K' V') {f : K → K'}
    {g : K → V → V'} {f' : K' → K} {g' : K' → V' → V} {m : UnorderedMap K V}
    (hkey : ∀ k ∈ m, f' (f k) = k)
    (hvalue : ∀ k v, m.lookup k = some v → g' (f k) (g k v) = v) (k : K) :
    ((m.recode it f g).recode it' f' g').lookup k = m.lookup k := by
  have hinj : ∀ k ∈ m, ∀ l ∈ m, f k = f l → k = l := by
    intro k hk l hl heq
    rw [← hkey k hk, heq, hkey l hl]
  have hmem : ∀ k' ∈ m.recode it f g, ∃ k ∈ m, f k = k' := by
    intro k' hk'
    obtain ⟨v', hv'⟩ := mem_iff_lookup.mp hk'
    obtain ⟨k, v, hv, hk, -⟩ := (lookup_recode it g hinj k' v').mp hv'
    exact ⟨k, mem_iff_lookup.mpr ⟨v, hv⟩, hk⟩
  have hinj' : ∀ k ∈ m.recode it f g, ∀ l ∈ m.recode it f g, f' k = f' l → k = l := by
    intro k' hk' l' hl' heq
    obtain ⟨k, hk, rfl⟩ := hmem k' hk'
    obtain ⟨l, hl, rfl⟩ := hmem l' hl'
    rw [hkey k hk, hkey l hl] at heq
    rw [heq]
  ext v
  rw [lookup_recode it' g' hinj']
  constructor
  · rintro ⟨k', v', hv', rfl, rfl⟩
    obtain ⟨k, v, hv, rfl, rfl⟩ := (lookup_recode it g hinj k' v').mp hv'
    rw [hkey k (mem_iff_lookup.mpr ⟨v, hv⟩), hvalue k v hv]
    exact hv
  · intro hv
    exact ⟨f k, g k v, (lookup_recode it g hinj _ _).mpr ⟨k, v, hv, rfl, rfl⟩,
      hkey k (mem_iff_lookup.mpr ⟨v, hv⟩), hvalue k v hv⟩

end Recode

end UnorderedMap

end TransportSystem.Library.UniqueKeys
