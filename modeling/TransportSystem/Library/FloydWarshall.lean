import Mathlib.Algebra.Order.Monoid.Unbundled.Basic
import Mathlib.Algebra.Order.Monoid.Defs
import Mathlib.Data.List.Nodup
import Mathlib.Data.Set.Insert
import Mathlib.Order.Bounds.Basic

/-!
Floyd-Warshall relaxation with predecessor edges, over any set of vertices, any
labelled multigraph and any weights with an exact addition. An entry keeps the
weight of the best walk found so far and the last edge of that walk; a walk is
recovered by following last edges through one row of the table, whose entries
were written in different passes.
-/

set_option linter.unusedSectionVars false

namespace TransportSystem.Library.FloydWarshall

/-- What a table knows about a pair of vertices. -/
structure Entry (W E : Type*) where
  weight : W
  prevEdge : Option E
  deriving DecidableEq, Repr

abbrev Table (V W E : Type*) := V → V → Option (Entry W E)

section Walks

variable {V E W : Type*} [AddZeroClass W] (Edge : E → V → V → W → Prop)

/-- A walk with its edges in order and their total weight. -/
inductive Walk : V → V → List E → W → Prop
  | nil (v : V) : Walk v v [] 0
  | snoc {u v x : V} {es : List E} {w c : W} {e : E} :
      Walk u v es w → Edge e v x c → Walk u x (es ++ [e]) (w + c)

end Walks

section Relaxation

variable {V W E : Type*} [Add W] [LT W] [DecidableLT W]

/-- The concatenation of two walks, the second of which may be empty. -/
def Entry.through (f g : Entry W E) : Entry W E :=
  ⟨f.weight + g.weight, if g.prevEdge.isSome then g.prevEdge else f.prevEdge⟩

/-- Keep the better of what is known and a candidate, the known one on a tie. -/
def improve (old : Option (Entry W E)) (candidate : Entry W E) : Option (Entry W E) :=
  match old with
  | none => some candidate
  | some r => if candidate.weight < r.weight then some candidate else some r

theorem improve_cases {W E : Type*} [LinearOrder W] (old : Option (Entry W E))
    (candidate : Entry W E) :
    (improve old candidate = some candidate ∧
        ∀ r, old = some r → candidate.weight < r.weight) ∨
      ∃ r, old = some r ∧ improve old candidate = some r ∧ r.weight ≤ candidate.weight := by
  cases old with
  | none => exact Or.inl ⟨rfl, by simp⟩
  | some r =>
      by_cases hlt : candidate.weight < r.weight
      · exact Or.inl ⟨by simp [improve, hlt], by simpa using hlt⟩
      · exact Or.inr ⟨r, rfl, by simp [improve, hlt], not_lt.mp hlt⟩

/-- One pass, computed from a snapshot of the table. -/
def relaxThrough (t : V) (M : Table V W E) : Table V W E := fun i j =>
  match M i t, M t j with
  | some f, some g => improve (M i j) (f.through g)
  | _, _ => M i j

/-- The pass through `t` replaces the entry by the walk made of `f` and `g`. -/
def Improved (M : Table V W E) (t i j : V) (f g : Entry W E) : Prop :=
  M i t = some f ∧ M t j = some g ∧
    ∀ r, M i j = some r → f.weight + g.weight < r.weight

theorem relaxThrough_of_improved {M : Table V W E} {t i j : V} {f g : Entry W E}
    (h : Improved M t i j f g) : relaxThrough t M i j = some (f.through g) := by
  obtain ⟨hf, hg, hlt⟩ := h
  unfold relaxThrough
  rw [hf, hg]
  cases hr : M i j with
  | none => rfl
  | some r => simp [improve, Entry.through, hlt r hr]

theorem relaxThrough_of_not_improved {M : Table V W E} {t i j : V}
    (h : ∀ f g, ¬ Improved M t i j f g) : relaxThrough t M i j = M i j := by
  unfold relaxThrough
  split
  · rename_i f g hf hg
    cases hr : M i j with
    | none => exact absurd ⟨hf, hg, by simp [hr]⟩ (h f g)
    | some r =>
        have hlt : ¬ (f.weight + g.weight < r.weight) := by
          intro hlt
          exact h f g ⟨hf, hg, by simpa [hr] using hlt⟩
        simp [improve, Entry.through, hlt]
  · rfl

theorem relaxThrough_cases (M : Table V W E) (t i j : V) :
    (∃ f g, Improved M t i j f g ∧ relaxThrough t M i j = some (f.through g)) ∨
      ((∀ f g, ¬ Improved M t i j f g) ∧ relaxThrough t M i j = M i j) := by
  by_cases h : ∃ f g, Improved M t i j f g
  · obtain ⟨f, g, hfg⟩ := h
    exact Or.inl ⟨f, g, hfg, relaxThrough_of_improved hfg⟩
  · have h' : ∀ f g, ¬ Improved M t i j f g := fun f g hfg => h ⟨f, g, hfg⟩
    exact Or.inr ⟨h', relaxThrough_of_not_improved h'⟩

end Relaxation

section Fixed

variable {V W E : Type*} [AddMonoid W] [LinearOrder W] {M : Table V W E} {t : V}

theorem not_improved_to (hdiag : ∀ r, M t t = some r → r.weight = 0) (i : V)
    (f g : Entry W E) : ¬ Improved M t i t f g := by
  rintro ⟨hf, hg, hlt⟩
  have := hlt f hf
  rw [hdiag g hg, add_zero] at this
  exact lt_irrefl _ this

theorem not_improved_from (hdiag : ∀ r, M t t = some r → r.weight = 0) (j : V)
    (f g : Entry W E) : ¬ Improved M t t j f g := by
  rintro ⟨hf, hg, hlt⟩
  have := hlt g hg
  rw [hdiag f hf, zero_add] at this
  exact lt_irrefl _ this

/-- With a zero diagonal a pass keeps the column of its vertex. -/
theorem relaxThrough_to (hdiag : ∀ r, M t t = some r → r.weight = 0) (i : V) :
    relaxThrough t M i t = M i t :=
  relaxThrough_of_not_improved (not_improved_to hdiag i)

/-- With a zero diagonal a pass keeps the row of its vertex. -/
theorem relaxThrough_from (hdiag : ∀ r, M t t = some r → r.weight = 0) (j : V) :
    relaxThrough t M t j = M t j :=
  relaxThrough_of_not_improved (not_improved_from hdiag j)

end Fixed

section Nonneg

variable {V W E : Type*} [AddMonoid W] [LinearOrder W] [AddLeftMono W] {M : Table V W E} {t : V}

/-- No walk is better than an entry of weight zero. -/
theorem not_improved_of_zero (hnonneg : ∀ i j r, M i j = some r → 0 ≤ r.weight) {i j : V}
    {r : Entry W E} (hr : M i j = some r) (hzero : r.weight = 0) (f g : Entry W E) :
    ¬ Improved M t i j f g := by
  rintro ⟨hf, hg, hlt⟩
  have hneg := hlt r hr
  rw [hzero] at hneg
  exact absurd hneg (not_lt.mpr (add_nonneg (hnonneg _ _ _ hf) (hnonneg _ _ _ hg)))

theorem relaxThrough_of_zero (hnonneg : ∀ i j r, M i j = some r → 0 ≤ r.weight) {i j : V}
    {r : Entry W E} (hr : M i j = some r) (hzero : r.weight = 0) :
    relaxThrough t M i j = some r :=
  (relaxThrough_of_not_improved (not_improved_of_zero hnonneg hr hzero)).trans hr

theorem relaxThrough_nonneg (hnonneg : ∀ i j r, M i j = some r → 0 ≤ r.weight) {i j : V}
    {r : Entry W E} (hr : relaxThrough t M i j = some r) : 0 ≤ r.weight := by
  rcases relaxThrough_cases M t i j with ⟨f, g, himp, heq⟩ | ⟨-, heq⟩
  · cases heq.symm.trans hr
    exact add_nonneg (hnonneg _ _ _ himp.1) (hnonneg _ _ _ himp.2.1)
  · exact hnonneg i j r (heq.symm.trans hr)

end Nonneg

section Trace

variable {V W E : Type*} (Edge : E → V → V → W → Prop) (M : Table V W E)

/-- Following last edges through row `i` from `j` leads to `i`, over the edges
and the vertices listed, last ones first. -/
inductive Trace (i : V) : V → List E → List V → Prop
  | start : Trace i i [] [i]
  | step {j u : V} {r : Entry W E} {e : E} {w : W} {es : List E} {vs : List V} :
      M i j = some r → r.prevEdge = some e → Edge e u j w →
      Trace i u es vs → Trace i j (e :: es) (j :: vs)

variable {Edge M}

theorem Trace.length_eq {i j : V} {es : List E} {vs : List V} (h : Trace Edge M i j es vs) :
    vs.length = es.length + 1 := by
  induction h with
  | start => rfl
  | step _ _ _ _ ih => simp [ih]

theorem Trace.of_mem {i j v : V} {es : List E} {vs : List V} (h : Trace Edge M i j es vs)
    (hv : v ∈ vs) : ∃ es' vs', Trace Edge M i v es' vs' ∧ vs'.length ≤ vs.length := by
  induction h with
  | start =>
      cases List.mem_singleton.mp hv
      exact ⟨[], [i], .start, le_rfl⟩
  | step hr he hedge htrace ih =>
      rcases List.mem_cons.mp hv with rfl | hv
      · exact ⟨_, _, .step hr he hedge htrace, le_rfl⟩
      · obtain ⟨es', vs', htrace', hle⟩ := ih hv
        exact ⟨es', vs', htrace', hle.trans (by simp)⟩

end Trace

/-- Every edge label stands for one edge. -/
def Functional {V W E : Type*} (Edge : E → V → V → W → Prop) : Prop :=
  ∀ e u v w u' v' w', Edge e u v w → Edge e u' v' w' → u = u' ∧ v = v' ∧ w = w'

section Invariant

variable {V W E : Type*} [AddCommMonoid W] [LinearOrder W] [IsOrderedCancelAddMonoid W]
variable (Edge : E → V → V → W → Prop)

/-- What holds once the passes through the vertices of `P` are done. -/
structure Relaxed (P : Set V) (M : Table V W E) : Prop where
  diag : ∀ i j r, M i j = some r → M i i = some ⟨0, none⟩ ∧ M j j = some ⟨0, none⟩
  nonneg : ∀ i j r, M i j = some r → 0 ≤ r.weight
  edge : ∀ e u v w, Edge e u v w → ∃ r, M u v = some r ∧ r.weight ≤ w
  closed : ∀ i u v e w r, u ∈ P → M i u = some r → Edge e u v w →
    ∃ r', M i v = some r' ∧ r'.weight ≤ r.weight + w
  prevEdge_eq_none : ∀ i j r, M i j = some r → (r.prevEdge = none ↔ i = j)
  prevEdge : ∀ i j r e, M i j = some r → r.prevEdge = some e →
    ∃ u w r', Edge e u j w ∧ M i u = some r' ∧ r'.weight + w ≤ r.weight ∧ (u = i ∨ u ∈ P)
  trace : ∀ i j r, M i j = some r → ∃ es vs, Trace Edge M i j es vs

variable {Edge} {P : Set V} {M : Table V W E} {t : V}

namespace Relaxed

theorem diag_weight (h : Relaxed Edge P M) (t : V) (r : Entry W E) (hr : M t t = some r) :
    r.weight = 0 := by
  rw [(h.diag _ _ _ hr).1] at hr
  cases hr
  rfl

theorem not_improved_diag (h : Relaxed Edge P M) (i : V) (f g : Entry W E) :
    ¬ Improved M t i i f g := by
  intro himp
  exact not_improved_of_zero h.nonneg (h.diag _ _ _ himp.1).1 rfl f g himp

theorem relaxThrough_diag (h : Relaxed Edge P M) (i : V) : relaxThrough t M i i = M i i :=
  relaxThrough_of_not_improved (h.not_improved_diag i)

theorem relaxThrough_le {i j : V} {r : Entry W E} (hr : M i j = some r) :
    ∃ r', relaxThrough t M i j = some r' ∧ r'.weight ≤ r.weight := by
  rcases relaxThrough_cases M t i j with ⟨f, g, himp, heq⟩ | ⟨-, heq⟩
  · exact ⟨_, heq, (himp.2.2 r hr).le⟩
  · exact ⟨r, heq.trans hr, le_rfl⟩

theorem relaxThrough_le_through {i j : V} {f g : Entry W E} (hf : M i t = some f)
    (hg : M t j = some g) :
    ∃ r', FloydWarshall.relaxThrough t M i j = some r' ∧ r'.weight ≤ f.weight + g.weight := by
  rcases relaxThrough_cases M t i j with ⟨f', g', himp, heq⟩ | ⟨hnot, heq⟩
  · refine ⟨_, heq, ?_⟩
    obtain ⟨hf', hg', -⟩ := himp
    cases hf.symm.trans hf'
    cases hg.symm.trans hg'
    exact le_rfl
  · cases hr : M i j with
    | none => exact absurd ⟨hf, hg, by simp [hr]⟩ (hnot f g)
    | some r =>
        refine ⟨r, heq.trans hr, ?_⟩
        by_contra hlt
        refine hnot f g ⟨hf, hg, ?_⟩
        intro r' hr'
        cases hr.symm.trans hr'
        exact not_le.mp hlt

/-- If a pass improves the vertex before the last edge of an entry, it improves
the entry as well. -/
theorem improved_of_improved_source (h : Relaxed Edge P M) {i j u : V} {r r' f g : Entry W E}
    {e : E} {w : W} (hr : M i j = some r) (hedge : Edge e u j w) (hr' : M i u = some r')
    (hle : r'.weight + w ≤ r.weight) (hu : u = i ∨ u ∈ P) (himp : Improved M t i u f g) :
    ∃ g', Improved M t i j f g' := by
  rcases hu with rfl | hu
  · exact absurd himp (h.not_improved_diag u f g)
  · obtain ⟨hf, hg, hlt⟩ := himp
    obtain ⟨g', hg', hle'⟩ := h.closed t u j e w g hu hg hedge
    refine ⟨g', hf, hg', ?_⟩
    intro r'' hr''
    cases hr.symm.trans hr''
    calc
      f.weight + g'.weight ≤ f.weight + (g.weight + w) := by gcongr
      _ = f.weight + g.weight + w := (add_assoc _ _ _).symm
      _ < r'.weight + w := by
        gcongr
        exact hlt r' hr'
      _ ≤ r.weight := hle

theorem prevEdge_of_improved (h : Relaxed Edge P M) {i j : V} {f g : Entry W E}
    (himp : Improved M t i j f g) :
    t ≠ j ∧ ∃ e, g.prevEdge = some e ∧ (f.through g).prevEdge = some e := by
  have hne : t ≠ j := by
    rintro rfl
    exact not_improved_to (h.diag_weight t) i f g himp
  have hprev : g.prevEdge ≠ none := by
    rw [Ne, h.prevEdge_eq_none t j g himp.2.1]
    exact hne
  obtain ⟨e, he⟩ := Option.ne_none_iff_exists'.mp hprev
  exact ⟨hne, e, he, by simp [Entry.through, he]⟩

/-- A trace of an entry the pass leaves alone runs over such entries only. -/
theorem trace_of_not_improved (hfun : Functional Edge) (h : Relaxed Edge P M) {i j : V}
    {es : List E} {vs : List V} (htrace : Trace Edge M i j es vs)
    (hnot : ∀ f g, ¬ Improved M t i j f g) : Trace Edge (relaxThrough t M) i j es vs := by
  induction htrace with
  | start => exact .start
  | @step j u r e w es vs hr he hedge _ ih =>
      refine .step ((relaxThrough_of_not_improved hnot).trans hr) he hedge (ih ?_)
      intro f g himp
      obtain ⟨u', w', r', hedge', hr', hle, hu⟩ := h.prevEdge i j r e hr he
      obtain ⟨rfl, -, rfl⟩ := hfun e _ _ _ _ _ _ hedge hedge'
      obtain ⟨g', himp'⟩ := h.improved_of_improved_source hr hedge hr' hle hu himp
      exact hnot f g' himp'

/-- An improved entry is traced through row `t` until an entry is met that the
pass left alone. -/
theorem trace_of_improved (hfun : Functional Edge) (h : Relaxed Edge P M) {i j : V}
    {es : List E} {vs : List V} (htrace : Trace Edge M t j es vs) {f g : Entry W E}
    (himp : Improved M t i j f g) :
    ∃ es' vs', Trace Edge (relaxThrough t M) i j es' vs' := by
  induction htrace generalizing g with
  | start => exact absurd himp (not_improved_to (h.diag_weight t) i f g)
  | @step j u r e w es vs hr he hedge htrace ih =>
      obtain ⟨hf, hg, hlt⟩ := id himp
      cases hr.symm.trans hg
      obtain ⟨-, e', he', hthrough⟩ := h.prevEdge_of_improved himp
      cases he.symm.trans he'
      obtain ⟨es', vs', htrace'⟩ : ∃ es' vs', Trace Edge (relaxThrough t M) i u es' vs' := by
        obtain ⟨u', w', g', hedge', hg', -, -⟩ := h.prevEdge t j r e hr he
        obtain ⟨rfl, -, rfl⟩ := hfun e _ _ _ _ _ _ hedge hedge'
        by_cases himp' : ∃ f' g'', Improved M t i u f' g''
        · obtain ⟨f', g'', himp'⟩ := himp'
          cases hf.symm.trans himp'.1
          exact ih himp'
        · have hnot : ∀ f' g'', ¬ Improved M t i u f' g'' := fun f' g'' hi => himp' ⟨f', g'', hi⟩
          cases hu : M i u with
          | none => exact absurd ⟨hf, hg', by simp [hu]⟩ (hnot f g')
          | some r' =>
              obtain ⟨es', vs', htrace'⟩ := h.trace i u r' hu
              exact ⟨es', vs', trace_of_not_improved hfun h htrace' hnot⟩
      exact ⟨_, _, .step (relaxThrough_of_improved himp) hthrough hedge htrace'⟩

theorem relaxThrough_closed (h : Relaxed Edge P M) {i u v : V} {e : E} {w : W}
    {r : Entry W E} (hu : u ∈ insert t P) (hr : relaxThrough t M i u = some r)
    (hedge : Edge e u v w) :
    ∃ r', relaxThrough t M i v = some r' ∧ r'.weight ≤ r.weight + w := by
  rcases Set.mem_insert_iff.mp hu with rfl | hu
  · rw [relaxThrough_to (h.diag_weight u) i] at hr
    obtain ⟨g, hg, hle⟩ := h.edge e u v w hedge
    obtain ⟨r', hr', hle'⟩ := relaxThrough_le_through hr hg
    exact ⟨r', hr', hle'.trans (by gcongr)⟩
  · rcases relaxThrough_cases M t i u with ⟨f, g, himp, heq⟩ | ⟨-, heq⟩
    · cases heq.symm.trans hr
      obtain ⟨g', hg', hle⟩ := h.closed t u v e w g hu himp.2.1 hedge
      obtain ⟨r', hr', hle'⟩ := relaxThrough_le_through himp.1 hg'
      refine ⟨r', hr', hle'.trans ?_⟩
      calc
        f.weight + g'.weight ≤ f.weight + (g.weight + w) := by gcongr
        _ = (f.through g).weight + w := (add_assoc _ _ _).symm
    · obtain ⟨r₁, hr₁, hle⟩ := h.closed i u v e w r hu (heq.symm.trans hr) hedge
      obtain ⟨r', hr', hle'⟩ := relaxThrough_le (t := t) hr₁
      exact ⟨r', hr', hle'.trans hle⟩

theorem relaxThrough_prevEdge (h : Relaxed Edge P M) {i j : V} {r : Entry W E} {e : E}
    (hr : relaxThrough t M i j = some r) (he : r.prevEdge = some e) :
    ∃ u w r', Edge e u j w ∧ relaxThrough t M i u = some r' ∧ r'.weight + w ≤ r.weight ∧
      (u = i ∨ u ∈ insert t P) := by
  rcases relaxThrough_cases M t i j with ⟨f, g, himp, heq⟩ | ⟨hnot, heq⟩
  · cases heq.symm.trans hr
    obtain ⟨-, e', he', hthrough⟩ := h.prevEdge_of_improved himp
    cases he.symm.trans hthrough
    obtain ⟨u, w, g', hedge, hg', hle, hu⟩ := h.prevEdge t j g e himp.2.1 he'
    obtain ⟨r', hr', hle'⟩ := relaxThrough_le_through himp.1 hg'
    refine ⟨u, w, r', hedge, hr', ?_, Or.inr (Set.mem_insert_iff.mpr hu)⟩
    calc
      r'.weight + w ≤ f.weight + g'.weight + w := by gcongr
      _ = f.weight + (g'.weight + w) := add_assoc _ _ _
      _ ≤ (f.through g).weight := by
        change _ ≤ f.weight + g.weight
        gcongr
  · obtain ⟨u, w, r', hedge, hr', hle, hu⟩ := h.prevEdge i j r e (heq.symm.trans hr) he
    have hsource : ∀ f g, ¬ Improved M t i u f g := by
      intro f g himp
      obtain ⟨g', himp'⟩ :=
        h.improved_of_improved_source (heq.symm.trans hr) hedge hr' hle hu himp
      exact hnot f g' himp'
    exact ⟨u, w, r', hedge, (relaxThrough_of_not_improved hsource).trans hr', hle,
      hu.imp_right (Set.mem_insert_of_mem t)⟩

theorem relaxThrough (hfun : Functional Edge) (h : Relaxed Edge P M) :
    Relaxed Edge (insert t P) (FloydWarshall.relaxThrough t M) where
  diag := by
    intro i j r hr
    rw [h.relaxThrough_diag, h.relaxThrough_diag]
    rcases relaxThrough_cases M t i j with ⟨f, g, himp, -⟩ | ⟨-, heq⟩
    · exact ⟨(h.diag _ _ _ himp.1).1, (h.diag _ _ _ himp.2.1).2⟩
    · exact h.diag i j r (heq.symm.trans hr)
  nonneg := fun _ _ _ hr => relaxThrough_nonneg h.nonneg hr
  edge := by
    intro e u v w hedge
    obtain ⟨r, hr, hle⟩ := h.edge e u v w hedge
    obtain ⟨r', hr', hle'⟩ := relaxThrough_le (t := t) hr
    exact ⟨r', hr', hle'.trans hle⟩
  closed := fun _ _ _ _ _ _ hu hr hedge => h.relaxThrough_closed hu hr hedge
  prevEdge_eq_none := by
    intro i j r hr
    rcases relaxThrough_cases M t i j with ⟨f, g, himp, heq⟩ | ⟨-, heq⟩
    · cases heq.symm.trans hr
      obtain ⟨-, e, -, hthrough⟩ := h.prevEdge_of_improved himp
      have hne : i ≠ j := by
        rintro rfl
        exact h.not_improved_diag i f g himp
      simp [hthrough, hne]
    · exact h.prevEdge_eq_none i j r (heq.symm.trans hr)
  prevEdge := fun _ _ _ _ hr he => h.relaxThrough_prevEdge hr he
  trace := by
    intro i j r hr
    rcases relaxThrough_cases M t i j with ⟨f, g, himp, -⟩ | ⟨hnot, heq⟩
    · obtain ⟨es, vs, htrace⟩ := h.trace t j g himp.2.1
      exact trace_of_improved hfun h htrace himp
    · obtain ⟨es, vs, htrace⟩ := h.trace i j r (heq.symm.trans hr)
      exact ⟨es, vs, trace_of_not_improved hfun h htrace hnot⟩

theorem foldl_relaxThrough (hfun : Functional Edge) (ts : List V) (h : Relaxed Edge P M) :
    Relaxed Edge (P ∪ {v | v ∈ ts})
      (ts.foldl (fun M t => FloydWarshall.relaxThrough t M) M) := by
  induction ts generalizing P M with
  | nil => simpa using h
  | cons t ts ih =>
      have hset : P ∪ {v | v ∈ t :: ts} = insert t P ∪ {v | v ∈ ts} := by
        ext v
        simp only [Set.mem_union, Set.mem_ofPred_eq, List.mem_cons, Set.mem_insert_iff]
        tauto
      rw [hset]
      exact ih (h.relaxThrough hfun)

theorem foldl_relaxThrough_diag (hfun : Functional Edge) (ts : List V) (h : Relaxed Edge P M)
    (v : V) : ts.foldl (fun M t => FloydWarshall.relaxThrough t M) M v v = M v v := by
  induction ts generalizing P M with
  | nil => rfl
  | cons t ts ih => rw [List.foldl_cons, ih (h.relaxThrough hfun), h.relaxThrough_diag]

/-- Every vertex an edge leaves has been relaxed through. -/
def Complete (Edge : E → V → V → W → Prop) (P : Set V) : Prop :=
  ∀ e u v w, Edge e u v w → u ∈ P

/-- No walk is shorter than the entry for its ends. -/
theorem le_of_walk (h : Relaxed Edge P M) (hP : Complete Edge P) {i j : V} {es : List E}
    {w : W} (hwalk : Walk Edge i j es w) (hi : M i i = some ⟨0, none⟩) :
    ∃ r, M i j = some r ∧ r.weight ≤ w := by
  induction hwalk with
  | nil => exact ⟨_, hi, le_rfl⟩
  | @snoc u j es w c e _ hedge ih =>
      obtain ⟨r, hr, hle⟩ := ih
      obtain ⟨r', hr', hle'⟩ := h.closed i u j e c r (hP e u j c hedge) hr hedge
      exact ⟨r', hr', hle'.trans (by gcongr)⟩

theorem walk_of_trace (hfun : Functional Edge) (h : Relaxed Edge P M) (hP : Complete Edge P)
    {i j : V} {es : List E} {vs : List V} (htrace : Trace Edge M i j es vs) {r : Entry W E}
    (hr : M i j = some r) : Walk Edge i j es.reverse r.weight := by
  induction htrace generalizing r with
  | start =>
      cases ((h.diag i i r hr).1).symm.trans hr
      exact .nil i
  | @step j u r₁ e w es vs hr₁ he hedge _ ih =>
      cases hr₁.symm.trans hr
      obtain ⟨u', w', r', hedge', hr', hle, -⟩ := h.prevEdge i j r₁ e hr₁ he
      obtain ⟨rfl, -, rfl⟩ := hfun e _ _ _ _ _ _ hedge hedge'
      obtain ⟨r'', hr'', hge⟩ := h.closed i u j e w r' (hP e u j w hedge) hr' hedge
      cases hr₁.symm.trans hr''
      rw [List.reverse_cons, ← le_antisymm hle hge]
      exact .snoc (ih hr') hedge

/-- An entry holds the least weight of a walk between its ends. -/
theorem isLeast (hfun : Functional Edge) (h : Relaxed Edge P M) (hP : Complete Edge P)
    {i j : V} {r : Entry W E} (hr : M i j = some r) :
    IsLeast {w | ∃ es, Walk Edge i j es w} r.weight := by
  obtain ⟨es, vs, htrace⟩ := h.trace i j r hr
  refine ⟨⟨_, h.walk_of_trace hfun hP htrace hr⟩, ?_⟩
  rintro w ⟨es', hwalk⟩
  obtain ⟨r', hr', hle⟩ := h.le_of_walk hP hwalk (h.diag i j r hr).1
  cases hr.symm.trans hr'
  exact hle

theorem trace_unique (hfun : Functional Edge) (h : Relaxed Edge P M) {i j : V}
    {es es' : List E} {vs vs' : List V} (htrace : Trace Edge M i j es vs)
    (htrace' : Trace Edge M i j es' vs') : es = es' ∧ vs = vs' := by
  induction htrace generalizing es' vs' with
  | start =>
      cases htrace' with
      | start => exact ⟨rfl, rfl⟩
      | step hr he _ _ => exact absurd ((h.prevEdge_eq_none i i _ hr).mpr rfl) (by simp [he])
  | @step j u r e w es vs hr he hedge _ ih =>
      cases htrace' with
      | start => exact absurd ((h.prevEdge_eq_none i i _ hr).mpr rfl) (by simp [he])
      | step hr' he' hedge' htrace' =>
          cases hr.symm.trans hr'
          cases he.symm.trans he'
          obtain ⟨rfl, -, -⟩ := hfun e _ _ _ _ _ _ hedge hedge'
          obtain ⟨rfl, rfl⟩ := ih htrace'
          exact ⟨rfl, rfl⟩

/-- A trace visits no vertex twice. -/
theorem trace_nodup (hfun : Functional Edge) (h : Relaxed Edge P M) {i j : V} {es : List E}
    {vs : List V} (htrace : Trace Edge M i j es vs) : vs.Nodup := by
  induction htrace with
  | start => exact List.nodup_singleton i
  | @step j u r e w es vs hr he hedge htrace ih =>
      refine List.nodup_cons.mpr ⟨?_, ih⟩
      intro hmem
      -- a second visit to `j` would have a shorter trace than the first
      obtain ⟨es', vs', htrace', hle⟩ := htrace.of_mem hmem
      obtain ⟨-, rfl⟩ := h.trace_unique hfun (.step hr he hedge htrace) htrace'
      exact absurd hle (by simp)

theorem trace_mem (hfun : Functional Edge) (h : Relaxed Edge P M) {i j : V} {es : List E}
    {vs : List V} (htrace : Trace Edge M i j es vs) {r : Entry W E} (hr : M i j = some r) :
    ∀ v ∈ vs, ∃ r', M i v = some r' := by
  induction htrace generalizing r with
  | start =>
      intro v hv
      cases List.mem_singleton.mp hv
      exact ⟨r, hr⟩
  | @step j u r₁ e w es vs hr₁ he hedge _ ih =>
      obtain ⟨u', w', r', hedge', hr', -, -⟩ := h.prevEdge i j r₁ e hr₁ he
      obtain ⟨rfl, -, -⟩ := hfun e _ _ _ _ _ _ hedge hedge'
      intro v hv
      rcases List.mem_cons.mp hv with rfl | hv
      · exact ⟨r₁, hr₁⟩
      · exact ih hr' v hv

end Relaxed

end Invariant

end TransportSystem.Library.FloydWarshall
