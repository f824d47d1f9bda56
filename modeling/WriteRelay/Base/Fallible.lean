import Mathlib

/-! Pre- and postcondition rules for computations that end in a value or an error. -/
namespace Fallible

universe u v w

variable {ε : Type u} {α : Type v} {β : Type v}

/-- However `x` ends, it ends well: a value satisfies `post`, an error satisfies `fails`. -/
def Ensures (x : Except ε α) (post : α → Prop) (fails : ε → Prop) : Prop :=
  match x with
  | .ok a => post a
  | .error e => fails e

@[simp] theorem ensures_ok {a : α} {post : α → Prop} {fails : ε → Prop} :
    Ensures (.ok a) post fails ↔ post a := Iff.rfl

@[simp] theorem ensures_pure {a : α} {post : α → Prop} {fails : ε → Prop} :
    Ensures (pure a) post fails ↔ post a := Iff.rfl

@[simp] theorem ensures_error {e : ε} {post : α → Prop} {fails : ε → Prop} :
    Ensures (.error e) post fails ↔ fails e := Iff.rfl

theorem Ensures.bind {x : Except ε α} {f : α → Except ε β} {mid : α → Prop} {post : β → Prop}
    {fails : ε → Prop} (first : Ensures x mid fails)
    (next : ∀ a, mid a → Ensures (f a) post fails) : Ensures (x >>= f) post fails := by
  cases x with
  | ok a => exact next a first
  | error e => exact first

theorem Ensures.mono {x : Except ε α} {post post' : α → Prop} {fails fails' : ε → Prop}
    (h : Ensures x post fails) (weaker : ∀ a, post a → post' a)
    (weakerFails : ∀ e, fails e → fails' e) : Ensures x post' fails' := by
  cases x with
  | ok a => exact weaker a h
  | error e => exact weakerFails e h

theorem Ensures.map {x : Except ε α} {g : α → β} {post : β → Prop} {fails : ε → Prop}
    (h : Ensures x (fun a => post (g a)) fails) : Ensures (x.map g) post fails := by
  cases x with
  | ok a => exact h
  | error e => exact h

theorem Ensures.post {x : Except ε α} {post : α → Prop} {fails : ε → Prop} {a : α}
    (h : Ensures x post fails) (ended : x = .ok a) : post a := by
  subst ended
  exact h

theorem Ensures.fails {x : Except ε α} {post : α → Prop} {fails : ε → Prop} {e : ε}
    (h : Ensures x post fails) (ended : x = .error e) : fails e := by
  subst ended
  exact h

theorem bind_ok_iff {x : Except ε α} {f : α → Except ε β} {b : β} :
    (x >>= f) = .ok b ↔ ∃ a, x = .ok a ∧ f a = .ok b := by
  cases x <;> simp [Bind.bind, Except.bind]

/-- `y` succeeds wherever `x` does, with the same value. -/
def Weaker (x y : Except ε α) : Prop := ∀ a, x = .ok a → y = .ok a

theorem Weaker.refl (x : Except ε α) : Weaker x x := fun _ h => h

theorem Weaker.bind {x y : Except ε α} {f g : α → Except ε β} (first : Weaker x y)
    (next : ∀ a, Weaker (f a) (g a)) : Weaker (x >>= f) (y >>= g) := by
  intro b h
  obtain ⟨a, done, rest⟩ := bind_ok_iff.mp h
  exact bind_ok_iff.mpr ⟨a, first a done, next a b rest⟩

def failIf (c : Prop) [Decidable c] (e : ε) : Except ε Unit := if c then .error e else .ok ()

@[simp] theorem failIf_ok_iff {c : Prop} [Decidable c] {e : ε} {u : Unit} :
    failIf c e = .ok u ↔ ¬c := by
  unfold failIf
  split <;> simp [*]

section Triples

variable {σ : Type w} {τ : Type w} {γ δ : Type w}
variable {pre : σ → Prop} {fails raised : τ → σ → Prop}

def Ends (r : EStateM.Result τ σ γ) (post : γ → σ → Prop) (fails : τ → σ → Prop) : Prop :=
  match r with
  | .ok a s => post a s
  | .error e s => fails e s

theorem bind_ended {x : EStateM τ σ γ} {f : γ → EStateM τ σ δ} {s s' : σ} {a : γ}
    (ended : x s = .ok a s') : (x >>= f) s = f a s' := by
  change EStateM.bind x f s = _
  simp [EStateM.bind, ended]

theorem bind_raised {x : EStateM τ σ γ} {f : γ → EStateM τ σ δ} {s s' : σ} {e : τ}
    (raised : x s = .error e s') : (x >>= f) s = .error e s' := by
  change EStateM.bind x f s = _
  simp [EStateM.bind, raised]

/-- Started in `pre`, `x` ends in `post` with a value or in `fails` with an error. -/
def Triple (pre : σ → Prop) (x : EStateM τ σ γ) (post : γ → σ → Prop) (fails : τ → σ → Prop) : Prop :=
  ∀ s, pre s → Ends (x s) post fails

theorem Triple.pure {a : γ} {post : γ → σ → Prop} (h : ∀ s, pre s → post a s) :
    Triple pre (Pure.pure a) post fails := h

theorem Triple.throw {e : τ} {post : γ → σ → Prop} (h : ∀ s, pre s → fails e s) :
    Triple pre (throw e) post fails := h

theorem Triple.modify {f : σ → σ} {post : PUnit → σ → Prop} (h : ∀ s, pre s → post ⟨⟩ (f s)) :
    Triple pre (modify f) post fails := h

theorem Triple.mono {x : EStateM τ σ γ} {pre' : σ → Prop} {post post' : γ → σ → Prop}
    (h : Triple pre x post raised) (stronger : ∀ s, pre' s → pre s)
    (weaker : ∀ a s, post a s → post' a s) (weakerFails : ∀ e s, raised e s → fails e s) :
    Triple pre' x post' fails := by
  intro s start
  have ended := h s (stronger s start)
  generalize x s = result at ended
  cases result with
  | ok a s' => exact weaker a s' ended
  | error e s' => exact weakerFails e s' ended

theorem Triple.bind {x : EStateM τ σ γ} {f : γ → EStateM τ σ δ} {mid : γ → σ → Prop}
    {post : δ → σ → Prop} (first : Triple pre x mid fails)
    (next : ∀ a, Triple (mid a) (f a) post fails) : Triple pre (x >>= f) post fails := by
  intro s start
  have ended := first s start
  change Ends (EStateM.bind x f s) post fails
  unfold EStateM.bind
  generalize x s = result at ended
  cases result with
  | ok a s' => exact next a s' ended
  | error e s' => exact ended

theorem Triple.tryCatch {x : EStateM τ σ γ} {handler : τ → EStateM τ σ γ} {post : γ → σ → Prop}
    (body : Triple pre x post raised) (caught : ∀ e, Triple (raised e) (handler e) post fails) :
    Triple pre (tryCatch x handler) post fails := by
  intro s start
  have ended := body s start
  change Ends (EStateM.tryCatch x handler s) post fails
  unfold EStateM.tryCatch
  generalize x s = result at ended
  cases result with
  | ok a s' => exact ended
  | error e s' => exact caught e s' ended

theorem Triple.ensuring {x : EStateM τ σ γ} {finalizer : EStateM τ σ δ} {mid post : γ → σ → Prop}
    (body : Triple pre x mid raised) (returned : ∀ a, Triple (mid a) finalizer (fun _ => post a) fails)
    (thrown : ∀ e, Triple (raised e) finalizer (fun _ => fails e) fails) :
    Triple pre (tryFinally x finalizer) post fails := by
  intro s start
  have ended := body s start
  simp only [MonadFinally.tryFinally', Functor.map, EStateM.map, tryFinally]
  generalize x s = result at ended
  cases result with
  | ok a s' =>
    have final := returned a s' ended
    simp only
    generalize finalizer s' = result at final
    cases result <;> exact final
  | error e s' =>
    have final := thrown e s' ended
    simp only
    generalize finalizer s' = result at final
    cases result <;> exact final

end Triples

section Outcomes

variable {σ : Type w} {τ : Type w} {γ : Type w}

def outcome (x : Except τ γ) : EStateM τ σ γ := fun s =>
  match x with
  | .ok a => .ok a s
  | .error e => .error e s

end Outcomes

end Fallible
