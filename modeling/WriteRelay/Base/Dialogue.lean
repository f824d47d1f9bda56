import Mathlib.Data.List.Basic

/-! Programs that put requests to their surroundings and continue with the answers. The type
of an answer depends on the request. -/
namespace Dialogue

variable {Q : Type} {A : Q → Type} {ρ σ : Type}

inductive Program (A : Q → Type) (ρ : Type)
  | done (result : ρ)
  | ask (q : Q) (next : A q → Program A ρ)

def Program.bind : Program A ρ → (ρ → Program A σ) → Program A σ
  | .done result, f => f result
  | .ask q next, f => .ask q fun a => (next a).bind f

def Program.request : Program A ρ → Option Q
  | .done _ => none
  | .ask q _ => some q

@[simp] theorem Program.bind_done (result : ρ) (f : ρ → Program A σ) :
    (Program.done result).bind f = f result := rfl

@[simp] theorem Program.bind_ask (q : Q) (next : A q → Program A ρ) (f : ρ → Program A σ) :
    (Program.ask q next).bind f = .ask q fun a => (next a).bind f := rfl

@[simp] theorem Program.request_done (result : ρ) : (Program.done result : Program A ρ).request = none :=
  rfl

@[simp] theorem Program.request_ask (q : Q) (next : A q → Program A ρ) :
    (Program.ask q next).request = some q := rfl

/-- `p` put the requests of the history, got these answers, and has `p'` left to do. -/
inductive Leads : Program A ρ → List (Sigma A) → Program A ρ → Prop
  | here (p : Program A ρ) : Leads p [] p
  | ask (q : Q) (next : A q → Program A ρ) (a : A q) {history : List (Sigma A)} {p : Program A ρ} :
      Leads (next a) history p → Leads (.ask q next) (⟨q, a⟩ :: history) p

theorem Leads.answer {p : Program A ρ} {history : List (Sigma A)} {q : Q} {next : A q → Program A ρ}
    (h : Leads p history (.ask q next)) (a : A q) : Leads p (history ++ [⟨q, a⟩]) (next a) := by
  generalize left : Program.ask q next = p' at h
  induction h with
  | here p =>
    subst left
    exact .ask q next a (.here _)
  | ask q' next' a' _ ih => exact .ask q' next' a' (ih left)

theorem Leads.of_done {result : ρ} {history : List (Sigma A)} {p : Program A ρ}
    (h : Leads (.done result) history p) : history = [] ∧ p = .done result := by
  cases h
  exact ⟨rfl, rfl⟩

theorem Leads.of_ask {q : Q} {next : A q → Program A ρ} {history : List (Sigma A)} {result : ρ}
    (h : Leads (.ask q next) history (.done result)) :
    ∃ a rest, history = ⟨q, a⟩ :: rest ∧ Leads (next a) rest (.done result) := by
  cases h with
  | ask _ _ a rest => exact ⟨a, _, rfl, rest⟩

theorem Leads.of_bind {p : Program A ρ} {f : ρ → Program A σ} {history : List (Sigma A)} {result : σ}
    (h : Leads (p.bind f) history (.done result)) : ∃ first middle last,
      history = first ++ last ∧ Leads p first (.done middle) ∧ Leads (f middle) last (.done result) := by
  induction p generalizing history with
  | done middle => exact ⟨[], middle, history, rfl, .here _, h⟩
  | ask q next ih =>
    obtain ⟨a, rest, rfl, tail⟩ := Leads.of_ask h
    obtain ⟨first, middle, last, rfl, before, after⟩ := ih a tail
    exact ⟨⟨q, a⟩ :: first, middle, last, rfl, .ask q next a before, after⟩

end Dialogue
