import Mathlib.Data.List.GetD
import TransportSystem.Router
import TransportSystem.Library.Runs

/-!
The passes of the router on its stored table. A pass assigns to the table it
reads through references; with a zero diagonal it still computes what the
relaxation of a snapshot would.
-/

namespace TransportSystem.Graph

open Library.FloydWarshall

/-- The table has `n` rows of `n` entries. -/
structure Square {W : Type} (n : Nat) (routes : RoutesInternalData W) : Prop where
  length : routes.length = n
  rows : ∀ row ∈ routes, row.length = n

namespace RoutesInternalData

variable {W : Type} {n : Nat} {routes : RoutesInternalData W}

theorem getD_length (h : Square n routes) {i : VertexId} (hi : i < n) :
    (routes.getD i []).length = n := by
  have hi' : i < routes.length := h.length.symm ▸ hi
  rw [List.getD_eq_getElem _ _ hi']
  exact h.rows _ (List.getElem_mem hi')

theorem get_of_not_lt (h : Square n routes) {i j : VertexId} (hij : ¬ (i < n ∧ j < n)) :
    routes.get i j = none := by
  unfold get
  by_cases hi : i < n
  · have hj : n ≤ j := by
      by_contra hj
      exact hij ⟨hi, not_le.mp hj⟩
    exact List.getD_eq_default _ _ ((getD_length h hi).trans_le hj)
  · have hi' : routes.length ≤ i := h.length.trans_le (not_lt.mp hi)
    rw [List.getD_eq_default _ _ hi']
    rfl

theorem lt_of_get (h : Square n routes) {i j : VertexId} {r : RouteInternalData W}
    (hr : routes.get i j = some r) : i < n ∧ j < n := by
  by_contra hij
  rw [get_of_not_lt h hij] at hr
  cases hr

theorem getElem?_get (h : Square n routes) {i j : VertexId} (hi : i < n) (hj : j < n) :
    routes[i]? = some (routes.getD i []) ∧ (routes.getD i [])[j]? = some (routes.get i j) := by
  constructor
  · have hi' : i < routes.length := h.length.symm ▸ hi
    rw [List.getElem?_eq_getElem hi', List.getD_eq_getElem _ _ hi']
  · have hj' : j < (routes.getD i []).length := (getD_length h hi).symm ▸ hj
    rw [List.getElem?_eq_getElem hj', get, List.getD_eq_getElem _ _ hj']

theorem square_put (h : Square n routes) (i j : VertexId) (data : RouteInternalData W) :
    Square n (routes.put i j data) := by
  refine ⟨by simp [put, h.length], ?_⟩
  intro row hrow
  obtain ⟨k, hk, rfl⟩ := List.getElem_of_mem hrow
  have hk' : k < routes.length := by simpa [put] using hk
  have hlength := h.rows _ (List.getElem_mem hk')
  simp only [put, List.getElem_modify]
  split <;> simpa using hlength

theorem get_put (h : Square n routes) {i j : VertexId} (hi : i < n) (hj : j < n)
    (data : RouteInternalData W) (i' j' : VertexId) :
    (routes.put i j data).get i' j' =
      if i' = i ∧ j' = j then some data else routes.get i' j' := by
  have hi' : i < routes.length := h.length.symm ▸ hi
  have hj' : j < routes[i].length := (h.rows _ (List.getElem_mem hi')).symm ▸ hj
  unfold get put
  by_cases hii : i' = i
  · subst hii
    rw [List.getD_eq_getElem?_getD (l := routes.modify i' _), List.getElem?_modify_eq,
      List.getD_eq_getElem _ _ hi', List.getElem?_eq_getElem hi']
    simp only [Option.map_eq_map, Option.map_some, Option.getD_some,
      List.getD_eq_getElem?_getD, true_and]
    by_cases hjj : j' = j
    · subst hjj
      simp [hj']
    · rw [List.getElem?_set_ne (Ne.symm hjj), if_neg hjj]
  · rw [List.getD_eq_getElem?_getD (l := routes.modify i _),
      List.getElem?_modify_ne _ _ (Ne.symm hii), ← List.getD_eq_getElem?_getD,
      if_neg (fun hc => hii hc.1)]

theorem get_putIfBetter [LT W] [DecidableLT W] (h : Square n routes) {i j : VertexId}
    (hi : i < n) (hj : j < n) (candidate : RouteInternalData W) (i' j' : VertexId) :
    (routes.putIfBetter i j candidate).get i' j' =
      if i' = i ∧ j' = j then improve (routes.get i j) candidate else routes.get i' j' := by
  unfold putIfBetter
  cases hget : routes.get i j with
  | none => exact get_put h hi hj _ i' j'
  | some r =>
      dsimp only [improve]
      by_cases hlt : candidate.weight < r.weight
      · rw [if_pos hlt, if_pos hlt]
        exact get_put h hi hj _ i' j'
      · rw [if_neg hlt, if_neg hlt]
        split
        · rename_i hij
          rw [hij.1, hij.2, hget]
        · rfl

theorem square_putIfBetter [LT W] [DecidableLT W] (h : Square n routes) (i j : VertexId)
    (candidate : RouteInternalData W) : Square n (routes.putIfBetter i j candidate) := by
  unfold putIfBetter
  split
  · exact square_put h _ _ _
  · split
    · exact square_put h _ _ _
    · exact h

end RoutesInternalData

namespace Router

variable {W : Type} [AddMonoid W] [LinearOrder W]
variable {n : Nat} {t : VertexId}

/-- Part of a pass is done: the cells in `done` are those of the relaxed table,
the others those of the table before. -/
structure Partly (M : Table VertexId W EdgeId) (t : VertexId) (n : Nat)
    (done : VertexId → VertexId → Prop) (routes : RoutesInternalData W) : Prop where
  square : Square n routes
  after : ∀ i j, done i j → routes.get i j = relaxThrough t M i j
  before : ∀ i j, ¬ done i j → routes.get i j = M i j

variable {M : Table VertexId W EdgeId} {done : VertexId → VertexId → Prop}
  {routes : RoutesInternalData W}

/-- The references of a pass always show the values from before the pass. -/
theorem Partly.get_to (hdiag : ∀ r, M t t = some r → r.weight = 0)
    (h : Partly M t n done routes) (i : VertexId) : routes.get i t = M i t := by
  by_cases hdone : done i t
  · rw [h.after i t hdone, relaxThrough_to hdiag]
  · exact h.before i t hdone

theorem Partly.get_from (hdiag : ∀ r, M t t = some r → r.weight = 0)
    (h : Partly M t n done routes) (j : VertexId) : routes.get t j = M t j := by
  by_cases hdone : done t j
  · rw [h.after t j hdone, relaxThrough_from hdiag]
  · exact h.before t j hdone

theorem Partly.relaxTo (hdiag : ∀ r, M t t = some r → r.weight = 0)
    (h : Partly M t n done routes) {i j : VertexId} (hi : i < n) (hj : j < n)
    (hnew : ¬ done i j) :
    Partly M t n (fun i' j' => done i' j' ∨ (i' = i ∧ j' = j)) (Router.relaxTo t i routes j) := by
  have hcell := h.before i j hnew
  unfold Router.relaxTo
  rw [h.get_from hdiag, h.get_to hdiag]
  split
  · rename_i routeTo routeFrom hto hfrom
    have hrelaxed : relaxThrough t M i j = improve (M i j) (routeFrom.through routeTo) := by
      simp [relaxThrough, hto, hfrom]
    have hget := RoutesInternalData.get_putIfBetter h.square hi hj (routeFrom.through routeTo)
    refine ⟨RoutesInternalData.square_putIfBetter h.square _ _ _, ?_, ?_⟩
    · intro i' j' hdone
      refine (hget i' j').trans ?_
      split
      · rename_i hij
        rw [hij.1, hij.2, hrelaxed, hcell]
      · rename_i hij
        exact h.after i' j' (hdone.resolve_right hij)
    · intro i' j' hdone
      refine (hget i' j').trans ?_
      rw [if_neg fun hij => hdone (Or.inr hij)]
      exact h.before i' j' fun hd => hdone (Or.inl hd)
  · rename_i hnone
    have hrelaxed : relaxThrough t M i j = M i j := by
      unfold relaxThrough
      split
      · rename_i f g hf hg
        exact absurd hf (hnone g f hg)
      · rfl
    refine ⟨h.square, ?_, fun i' j' hdone => h.before i' j' fun hd => hdone (Or.inl hd)⟩
    rintro i' j' (hdone | ⟨rfl, rfl⟩)
    · exact h.after i' j' hdone
    · rw [hcell, hrelaxed]

theorem Partly.congr {done' : VertexId → VertexId → Prop} (h : Partly M t n done routes)
    (hdone : ∀ i j, done i j ↔ done' i j) : Partly M t n done' routes :=
  ⟨h.square, fun i j hd => h.after i j ((hdone i j).mpr hd),
    fun i j hd => h.before i j fun hd' => hd ((hdone i j).mp hd')⟩

theorem Partly.foldl_relaxTo (hdiag : ∀ r, M t t = some r → r.weight = 0)
    {i : VertexId} (hi : i < n) (js : List VertexId) (hjs : ∀ j ∈ js, j < n) (hnodup : js.Nodup)
    (h : Partly M t n done routes) (hnew : ∀ j ∈ js, ¬ done i j) :
    Partly M t n (fun i' j' => done i' j' ∨ (i' = i ∧ j' ∈ js))
      (js.foldl (Router.relaxTo t i) routes) := by
  induction js generalizing done routes with
  | nil => exact h.congr (by simp)
  | cons j js ih =>
      obtain ⟨hj, hnodup⟩ := List.nodup_cons.mp hnodup
      have hstep := h.relaxTo hdiag hi (hjs j (by simp)) (hnew j (by simp))
      have hrest := ih (fun k hk => hjs k (by simp [hk])) hnodup hstep (by
        rintro k hk (hd | ⟨-, rfl⟩)
        · exact hnew k (by simp [hk]) hd
        · exact hj hk)
      refine hrest.congr fun i' j' => ?_
      simp only [List.mem_cons]
      tauto

theorem Partly.relaxFrom (hdiag : ∀ r, M t t = some r → r.weight = 0) {i : VertexId}
    (hi : i < n) (h : Partly M t n done routes) (hnew : ∀ j, ¬ done i j) :
    Partly M t n (fun i' j' => done i' j' ∨ i' = i) (Router.relaxFrom n t routes i) := by
  unfold Router.relaxFrom
  have hout : ∀ j, ¬ j < n → relaxThrough t M i j = M i j := by
    intro j hj
    have hnone : ∀ k, M k j = none := by
      intro k
      by_cases hd : done k j
      · have hcell := h.after k j hd
        rw [RoutesInternalData.get_of_not_lt h.square (fun hk => hj hk.2)] at hcell
        rcases relaxThrough_cases M t k j with ⟨f, g, -, heq⟩ | ⟨-, heq⟩
        · rw [heq] at hcell
          cases hcell
        · exact (hcell.trans heq).symm
      · have hcell := h.before k j hd
        rw [RoutesInternalData.get_of_not_lt h.square (fun hk => hj hk.2)] at hcell
        exact hcell.symm
    simp [relaxThrough, hnone]
  have hcell : ∀ j, routes.get i j = M i j := fun j => h.before i j (hnew j)
  split
  · have hloop := h.foldl_relaxTo hdiag hi (List.range n) (by simp) List.nodup_range
      (fun j _ => hnew j)
    refine ⟨hloop.square, ?_, fun i' j' hd => hloop.before i' j' fun hd' => hd ?_⟩
    · rintro i' j' (hd | rfl)
      · exact hloop.after i' j' (Or.inl hd)
      · by_cases hj : j' < n
        · exact hloop.after i' j' (Or.inr ⟨rfl, List.mem_range.mpr hj⟩)
        · rw [hout j' hj, ← hcell, RoutesInternalData.get_of_not_lt h.square (fun hk => hj hk.2),
            RoutesInternalData.get_of_not_lt hloop.square (fun hk => hj hk.2)]
    · exact hd'.imp_right And.left
  · rename_i hnone
    rw [hcell] at hnone
    have hrelaxed : ∀ j, relaxThrough t M i j = M i j := by
      intro j
      cases hit : M i t with
      | none => simp [relaxThrough, hit]
      | some r => simp [hit] at hnone
    refine ⟨h.square, ?_, fun i' j' hd => h.before i' j' fun hd' => hd (Or.inl hd')⟩
    rintro i' j' (hd | rfl)
    · exact h.after i' j' hd
    · rw [hcell, hrelaxed]

theorem Partly.foldl_relaxFrom (hdiag : ∀ r, M t t = some r → r.weight = 0)
    (is : List VertexId) (his : ∀ i ∈ is, i < n) (hnodup : is.Nodup)
    (h : Partly M t n done routes) (hnew : ∀ i ∈ is, ∀ j, ¬ done i j) :
    Partly M t n (fun i' j' => done i' j' ∨ i' ∈ is)
      (is.foldl (Router.relaxFrom n t) routes) := by
  induction is generalizing done routes with
  | nil => exact h.congr (by simp)
  | cons i is ih =>
      obtain ⟨hi, hnodup⟩ := List.nodup_cons.mp hnodup
      have hstep := h.relaxFrom hdiag (his i (by simp)) (hnew i (by simp))
      have hrest := ih (fun k hk => his k (by simp [hk])) hnodup hstep (by
        rintro k hk j (hd | rfl)
        · exact hnew k (by simp [hk]) j hd
        · exact hi hk)
      refine hrest.congr fun i' j' => ?_
      simp only [List.mem_cons]
      tauto

/-- A pass on the stored table is the relaxation of a snapshot of it. -/
theorem get_relaxRoutesInternalDataThroughVertex {routes : RoutesInternalData W}
    (hsquare : Square n routes) (hdiag : ∀ r, routes.get t t = some r → r.weight = 0) :
    Square n (relaxRoutesInternalDataThroughVertex n routes t) ∧
      (relaxRoutesInternalDataThroughVertex n routes t).get = relaxThrough t routes.get := by
  have hstart : Partly routes.get t n (fun _ _ => False) routes :=
    ⟨hsquare, fun _ _ h => h.elim, fun _ _ _ => rfl⟩
  have hpass := hstart.foldl_relaxFrom hdiag (List.range n) (by simp) List.nodup_range
    (fun _ _ _ h => h)
  refine ⟨hpass.square, ?_⟩
  funext i j
  by_cases hi : i < n
  · exact hpass.after i j (Or.inr (List.mem_range.mpr hi))
  · have hrow : ∀ k, routes.get i k = none := fun k =>
      RoutesInternalData.get_of_not_lt hsquare fun hk => hi hk.1
    have hcell := hpass.before i j (by simp [hi])
    simp only [relaxThrough, hrow] at hcell ⊢
    exact hcell

end Router

section Edges

variable {W : Type}

/-- The table mentions no edges from `m` on. -/
def RoutesInternalData.EdgesBelow (m : Nat) (routes : RoutesInternalData W) : Prop :=
  ∀ i j r, routes.get i j = some r → ∀ id, r.prevEdge = some id → id < m

namespace RoutesInternalData

variable {m : Nat} {routes : RoutesInternalData W}

theorem get_put_eq_or (routes : RoutesInternalData W) (i j : VertexId) (data : RouteInternalData W)
    (i' j' : VertexId) :
    (routes.put i j data).get i' j' = some data ∨
      (routes.put i j data).get i' j' = routes.get i' j' := by
  unfold get put
  simp only [List.getD_eq_getElem?_getD]
  by_cases hi : i = i'
  · subst hi
    rw [List.getElem?_modify_eq]
    cases routes[i]? with
    | none => exact Or.inr rfl
    | some row =>
        simp only [Option.map_eq_map, Option.map_some, Option.getD_some]
        by_cases hj : j = j'
        · subst hj
          by_cases hlt : j < row.length
          · exact Or.inl (by rw [List.getElem?_set_self hlt]; rfl)
          · exact Or.inr (by rw [List.set_eq_of_length_le (not_lt.mp hlt)])
        · exact Or.inr (by rw [List.getElem?_set_ne hj])
  · exact Or.inr (by rw [List.getElem?_modify_ne _ _ hi])

theorem EdgesBelow.put (h : EdgesBelow m routes) (i j : VertexId) {data : RouteInternalData W}
    (hdata : ∀ id, data.prevEdge = some id → id < m) : EdgesBelow m (routes.put i j data) := by
  intro i' j' r hr
  rcases get_put_eq_or routes i j data i' j' with heq | heq
  · cases heq.symm.trans hr
    exact hdata
  · exact h i' j' r (heq ▸ hr)

theorem EdgesBelow.putIfBetter [LT W] [DecidableLT W] (h : EdgesBelow m routes) (i j : VertexId)
    {candidate : RouteInternalData W} (hdata : ∀ id, candidate.prevEdge = some id → id < m) :
    EdgesBelow m (routes.putIfBetter i j candidate) := by
  unfold RoutesInternalData.putIfBetter
  split
  · exact h.put i j hdata
  · split
    · exact h.put i j hdata
    · exact h

end RoutesInternalData

namespace Router

variable [Zero W] [Add W] [LT W] [DecidableLT W] {m : Nat} {routes routes' : RoutesInternalData W}
  {graph : DirectedWeightedGraph W}

omit [Add W] in
theorem initializeRow_edgesBelow (v : VertexId) (ids : List EdgeId)
    (h : routes.EdgesBelow graph.edges.length)
    (heq : initializeRow graph v ids routes = .ok routes') :
    routes'.EdgesBelow graph.edges.length := by
  induction ids generalizing routes with
  | nil =>
      cases heq
      exact h
  | cons id ids ih =>
      rw [initializeRow] at heq
      obtain ⟨edge, hedge, heq⟩ := bind_eq_ok_iff.mp heq
      have hid := (List.getElem?_eq_some_iff.mp
        (DirectedWeightedGraph.getEdge_eq_ok_iff.mp hedge)).1
      have hnew : (routes.putIfBetter v edge.target ⟨edge.weight, some id⟩).EdgesBelow
          graph.edges.length := by
        refine h.putIfBetter v edge.target ?_
        rintro id' ⟨⟩
        exact hid
      by_cases hneg : edge.weight < 0
      · simp [hneg, bind, Except.bind, throw, throwThe, MonadExceptOf.throw] at heq
      · by_cases htarget : edge.target < graph.getVertexCount
        · simp only [hneg, if_false, htarget, not_true_eq_false] at heq
          exact ih hnew heq
        · simp [hneg, htarget, bind, Except.bind, throw, throwThe, MonadExceptOf.throw] at heq

omit [Add W] in
theorem initializeRoutesInternalData_edgesBelow (vs : List VertexId)
    (h : routes.EdgesBelow graph.edges.length)
    (heq : initializeRoutesInternalData graph vs routes = .ok routes') :
    routes'.EdgesBelow graph.edges.length := by
  induction vs generalizing routes with
  | nil =>
      cases heq
      exact h
  | cons v vs ih =>
      rw [initializeRoutesInternalData] at heq
      obtain ⟨ids, -, heq⟩ := bind_eq_ok_iff.mp heq
      obtain ⟨routes₁, hrow, heq⟩ := bind_eq_ok_iff.mp heq
      exact ih (initializeRow_edgesBelow v ids (h.put v v (by simp)) hrow) heq

omit [Zero W] in
theorem relaxTo_edgesBelow (h : routes.EdgesBelow m) (t i j : VertexId) :
    (relaxTo t i routes j).EdgesBelow m := by
  unfold relaxTo
  split
  · rename_i routeTo routeFrom hto hfrom
    refine h.putIfBetter i j ?_
    intro id hid
    dsimp only at hid
    split at hid
    · exact h _ _ _ hto id hid
    · exact h _ _ _ hfrom id hid
  · exact h

omit [Zero W] in
theorem relaxRoutesInternalDataThroughVertex_edgesBelow (h : routes.EdgesBelow m) (n : Nat)
    (t : VertexId) : (relaxRoutesInternalDataThroughVertex n routes t).EdgesBelow m := by
  refine Library.Runs.invariant_foldl _ (RoutesInternalData.EdgesBelow m) (fun routes i h => ?_) h _
  unfold relaxFrom
  split
  · exact Library.Runs.invariant_foldl _ (RoutesInternalData.EdgesBelow m)
      (fun routes j h => relaxTo_edgesBelow h t i j) h _
  · exact h

theorem ofGraph_graph {router : Router W} (heq : ofGraph graph = .ok router) :
    router.graph = graph := by
  obtain ⟨routes, -, heq⟩ := bind_eq_ok_iff.mp heq
  cases heq
  rfl

/-- A router mentions the edges of its graph only. -/
theorem ofGraph_edgesBelow {router : Router W} (heq : ofGraph graph = .ok router) :
    router.routesInternalData.EdgesBelow graph.edges.length := by
  obtain ⟨routes, hroutes, heq⟩ := bind_eq_ok_iff.mp heq
  cases heq
  refine Library.Runs.invariant_foldl _ (RoutesInternalData.EdgesBelow graph.edges.length)
    (fun routes t h => relaxRoutesInternalDataThroughVertex_edgesBelow h _ t)
    (initializeRoutesInternalData_edgesBelow _ ?_ hroutes) _
  intro i j r hr
  simp only [RoutesInternalData.get, List.getD_eq_getElem?_getD, List.getElem?_replicate] at hr
  by_cases hi : i < graph.getVertexCount <;> by_cases hj : j < graph.getVertexCount <;>
    simp [hi, hj] at hr

end Router

end Edges

end TransportSystem.Graph
