import Mathlib

/-! Transition systems and what holds along every run of one. A run is a finite
sequence of steps from an initial state; nothing is assumed about fairness or
about the number of states. -/
namespace Runs

universe u v

structure System (S : Type u) where
  init : S → Prop
  step : S → S → Prop

variable {S : Type u} {T : Type v}

abbrev System.Steps (M : System S) : S → S → Prop := Relation.ReflTransGen M.step

def System.Reachable (M : System S) (s : S) : Prop := ∃ a, M.init a ∧ M.Steps a s

theorem System.reachable_init (M : System S) {s : S} (h : M.init s) : M.Reachable s :=
  ⟨s, h, .refl⟩

theorem System.Reachable.step {M : System S} {s t : S} (h : M.Reachable s) (next : M.step s t) :
    M.Reachable t := by
  obtain ⟨a, ha, run⟩ := h
  exact ⟨a, ha, run.tail next⟩

theorem System.Reachable.steps {M : System S} {s t : S} (h : M.Reachable s) (run : M.Steps s t) :
    M.Reachable t := by
  obtain ⟨a, ha, before⟩ := h
  exact ⟨a, ha, before.trans run⟩

/-- The invariant rule. The step obligation may use reachability, so that a later
invariant is proved on top of the earlier ones. -/
theorem System.invariant (M : System S) (P : S → Prop) (start : ∀ s, M.init s → P s)
    (keep : ∀ s t, M.Reachable s → P s → M.step s t → P t) {s : S} (h : M.Reachable s) : P s := by
  obtain ⟨a, ha, run⟩ := h
  induction run with
  | refl => exact start a ha
  | tail before next ih => exact keep _ _ ⟨a, ha, before⟩ ih next

theorem System.monotone (M : System S) (R : S → S → Prop) (refl : ∀ s, R s s)
    (trans : ∀ a b c, R a b → R b c → R a c)
    (keep : ∀ s t, M.Reachable s → M.step s t → R s t) {s t : S}
    (h : M.Reachable s) (run : M.Steps s t) : R s t := by
  induction run with
  | refl => exact refl s
  | tail before next ih => exact trans _ _ _ ih (keep _ _ (h.steps before) next)

/-- Forward simulation: every step of the concrete system is answered by zero or
more steps of the abstract one. -/
theorem System.simulation (M : System S) (N : System T) (R : S → T → Prop)
    (start : ∀ s, M.init s → ∃ t, N.init t ∧ R s t)
    (answer : ∀ s s' t, M.Reachable s → R s t → M.step s s' → ∃ t', N.Steps t t' ∧ R s' t')
    {s : S} (h : M.Reachable s) : ∃ t, N.Reachable t ∧ R s t := by
  refine M.invariant (fun s => ∃ t, N.Reachable t ∧ R s t) ?_ ?_ h
  · intro s hs
    obtain ⟨t, ht, related⟩ := start s hs
    exact ⟨t, N.reachable_init ht, related⟩
  · rintro s s' hs ⟨t, ht, related⟩ next
    obtain ⟨t', run, related'⟩ := answer s s' t hs related next
    exact ⟨t', ht.steps run, related'⟩

end Runs
