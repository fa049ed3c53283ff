import Mathlib.Data.List.Infix

/-!
Runs of a deterministic machine: the states reached by folding a step over a
sequence of commands.
-/

namespace TransportSystem.Library.Runs

variable {S C : Type*} (step : S → C → S)

/-- What every step keeps holds at the end of every run. -/
theorem invariant_foldl (Inv : S → Prop) (hstep : ∀ s c, Inv s → Inv (step s c))
    {init : S} (hinit : Inv init) (cs : List C) : Inv (cs.foldl step init) := by
  induction cs generalizing init with
  | nil => exact hinit
  | cons c cs ih => exact ih (hstep init c hinit)

/-- When, in the states that keep an invariant, a step leads from a good state
to a good one exactly if the command is admissible there, then a run stays good
exactly if each of its commands is admissible where it is issued. -/
theorem good_prefixes_iff (Inv Good : S → Prop) (Ok : S → C → Prop)
    (hinv : ∀ s c, Inv s → Inv (step s c))
    (hstep : ∀ s c, Inv s → Good s → (Good (step s c) ↔ Ok s c))
    {init : S} (hinit : Inv init) (hgood : Good init) (cs : List C) :
    (∀ pre, pre <+: cs → Good (pre.foldl step init)) ↔
      ∀ pre c, pre ++ [c] <+: cs → Ok (pre.foldl step init) c := by
  constructor
  · intro h pre c hpre
    have hshort := h pre ((List.prefix_append _ _).trans hpre)
    have hlong := h (pre ++ [c]) hpre
    rw [List.foldl_append] at hlong
    exact (hstep _ c (invariant_foldl step Inv hinv hinit pre) hshort).mp hlong
  · intro h pre
    induction pre using List.reverseRecOn with
    | nil => exact fun _ => hgood
    | append_singleton pre c ih =>
        intro hpre
        have hshort := ih ((List.prefix_append _ _).trans hpre)
        rw [List.foldl_append]
        exact (hstep _ c (invariant_foldl step Inv hinv hinit pre) hshort).mpr (h pre c hpre)

end TransportSystem.Library.Runs
