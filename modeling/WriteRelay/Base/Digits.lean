import Mathlib

/-! Fixed-width decimal text. Text order on equally wide fields is the order of the
numbers they denote, and text order on records of such fields is lexicographic. -/
namespace Digits

def digit (n : Nat) : Char := Char.ofNat (48 + n % 10)

def padded : Nat → Nat → List Char
  | 0, _ => []
  | w + 1, n => padded w (n / 10) ++ [digit n]

@[simp] theorem padded_length (w n : Nat) : (padded w n).length = w := by
  induction w generalizing n with
  | zero => rfl
  | succ w ih => simp [padded, ih]

theorem digit_lt_iff (m n : Nat) : digit m < digit n ↔ m % 10 < n % 10 := by
  have table : ∀ i j : Fin 10, Char.ofNat (48 + i) < Char.ofNat (48 + j) ↔ i < j := by decide
  exact table ⟨m % 10, Nat.mod_lt _ (by decide)⟩ ⟨n % 10, Nat.mod_lt _ (by decide)⟩

theorem digit_range (n : Nat) : '0' ≤ digit n ∧ digit n ≤ '9' := by
  have table : ∀ i : Fin 10, '0' ≤ Char.ofNat (48 + i) ∧ Char.ofNat (48 + i) ≤ '9' := by decide
  exact table ⟨n % 10, Nat.mod_lt _ (by decide)⟩

theorem digit_value (n : Nat) : (digit n).toNat - 48 = n % 10 := by
  have table : ∀ i : Fin 10, (Char.ofNat (48 + i)).toNat - 48 = i := by decide
  exact table ⟨n % 10, Nat.mod_lt _ (by decide)⟩

theorem padded_range {w n : Nat} {c : Char} (h : c ∈ padded w n) : '0' ≤ c ∧ c ≤ '9' := by
  induction w generalizing n with
  | zero => simp [padded] at h
  | succ w ih =>
    rcases List.mem_append.mp h with high | low
    · exact ih high
    · rw [List.mem_singleton.mp low]
      exact digit_range n

def digitsValue (acc : Nat) (digits : List Char) : Nat :=
  digits.foldl (fun n c => 10 * n + (c.toNat - 48)) acc

theorem digitsValue_padded (w n acc : Nat) (h : n < 10 ^ w) :
    digitsValue acc (padded w n) = acc * 10 ^ w + n := by
  induction w generalizing n acc with
  | zero =>
    simp only [padded, digitsValue, List.foldl_nil, pow_zero] at h ⊢
    omega
  | succ w ih =>
    have high : n / 10 < 10 ^ w := by rw [pow_succ] at h; omega
    have step := ih (n / 10) acc high
    simp only [digitsValue] at step
    rw [padded, digitsValue, List.foldl_append, step, List.foldl_cons, List.foldl_nil, digit_value,
      pow_succ]
    have digits : 10 * (n / 10) + n % 10 = n := Nat.div_add_mod n 10
    rw [Nat.mul_add, Nat.add_assoc, digits, Nat.mul_left_comm, Nat.mul_comm 10]

def trimmed (digits : List Char) : List Char := (digits.reverse.dropWhile (· = '0')).reverse

theorem trimmed_append (digits : List Char) : ∃ k, digits = trimmed digits ++ List.replicate k '0' := by
  have zeros : ∀ c ∈ digits.reverse.takeWhile (· = '0'), c = '0' := fun c hc => by
    simpa using List.mem_takeWhile_imp hc
  have parts : digits.reverse.takeWhile (· = '0') ++ digits.reverse.dropWhile (· = '0') = digits.reverse :=
    List.takeWhile_append_dropWhile
  rw [List.eq_replicate_of_mem zeros] at parts
  have back := congrArg List.reverse parts
  rw [List.reverse_append, List.reverse_replicate, List.reverse_reverse] at back
  exact ⟨_, back.symm⟩

theorem take_trimmed (digits : List Char) :
    (trimmed digits ++ List.replicate digits.length '0').take digits.length = digits := by
  obtain ⟨k, parts⟩ := trimmed_append digits
  have width := congrArg List.length parts
  rw [List.length_append, List.length_replicate] at width
  have zeros : min (digits.length - (trimmed digits).length) digits.length = k := by omega
  rw [List.take_append, List.take_replicate, List.take_of_length_le (by omega), zeros]
  exact parts.symm

/-- A mark above all digits after numbers of any length: between two of them the
order of the digits decides, unless the shorter one comes first. -/
theorem mark_lt_iff {mark : Char} {xs ys : List Char} (below : ∀ c ∈ xs, c < mark)
    (below' : ∀ c ∈ ys, c < mark) (differ : xs ≠ ys) {i j : Nat}
    (less : xs ++ List.replicate i '0' < ys ++ List.replicate j '0') :
    ys ++ [mark] < xs ++ [mark] ↔ xs <+: ys := by
  induction xs generalizing ys with
  | nil =>
    cases ys with
    | nil => exact absurd rfl differ
    | cons d ys => simp [List.cons_lt_cons_iff, below' d List.mem_cons_self]
  | cons c xs ih =>
    have high := below c List.mem_cons_self
    cases ys with
    | nil => simp [List.cons_lt_cons_iff, not_lt_of_gt high, ne_of_gt high]
    | cons d ys =>
      simp only [List.cons_append, List.cons_lt_cons_iff] at less ⊢
      by_cases same : c = d
      · subst same
        have tails := less.resolve_left (lt_irrefl c)
        have rest := ih (fun x hx => below x (List.mem_cons_of_mem _ hx))
          (fun x hx => below' x (List.mem_cons_of_mem _ hx)) (fun eq => differ (by rw [eq])) tails.2
        simp [rest]
      · have first : c < d := less.resolve_right fun eq => same eq.1
        simp [not_lt_of_gt first, Ne.symm same, same]

section Lexicographic

variable {α : Type*} [LinearOrder α]

theorem append_lt_append_iff {a b : List α} (same : a.length = b.length) (x y : List α) :
    a ++ x < b ++ y ↔ a < b ∨ a = b ∧ x < y := by
  induction a generalizing b with
  | nil =>
    have empty : b = [] := List.length_eq_zero_iff.mp same.symm
    subst empty
    simp
  | cons c a ih =>
    cases b with
    | nil => simp at same
    | cons d b =>
      have tails := ih (b := b) (by simpa using same)
      simp only [List.cons_append, List.cons_lt_cons_iff, tails, List.cons.injEq]
      tauto

end Lexicographic

theorem padded_lt_iff (w m n : Nat) (hm : m < 10 ^ w) (hn : n < 10 ^ w) :
    padded w m < padded w n ↔ m < n := by
  induction w generalizing m n with
  | zero => simp [padded]; omega
  | succ w ih =>
    have hm' : m / 10 < 10 ^ w := by rw [pow_succ] at hm; omega
    have hn' : n / 10 < 10 ^ w := by rw [pow_succ] at hn; omega
    have high : padded w (m / 10) = padded w (n / 10) ↔ m / 10 = n / 10 := by
      constructor
      · intro same
        have fwd := ih (m / 10) (n / 10) hm' hn'
        have bwd := ih (n / 10) (m / 10) hn' hm'
        rw [same] at fwd bwd
        simp only [lt_irrefl, false_iff] at fwd bwd
        omega
      · intro same
        rw [same]
    rw [padded, padded, append_lt_append_iff (by simp), ih _ _ hm' hn', high]
    have low : [digit m] < [digit n] ↔ m % 10 < n % 10 := by
      simp [List.cons_lt_cons_iff, digit_lt_iff]
    rw [low]
    omega

theorem padded_inj (w m n : Nat) (hm : m < 10 ^ w) (hn : n < 10 ^ w) :
    padded w m = padded w n ↔ m = n := by
  constructor
  · intro same
    have fwd := padded_lt_iff w m n hm hn
    have bwd := padded_lt_iff w n m hn hm
    rw [same] at fwd bwd
    simp only [lt_irrefl, false_iff] at fwd bwd
    omega
  · intro same
    rw [same]

/-- A record of fixed-width fields, each followed by a separator. -/
def render : List (Nat × List Char) → List Nat → List Char
  | (w, sep) :: fields, v :: vs => padded w v ++ (sep ++ render fields vs)
  | _, _ => []

def Fits (fields : List (Nat × List Char)) (vs : List Nat) : Prop :=
  List.Forall₂ (fun f v => v < 10 ^ f.1) fields vs

theorem render_lt_iff {fields : List (Nat × List Char)} {vs ws : List Nat}
    (hv : Fits fields vs) (hw : Fits fields ws) : render fields vs < render fields ws ↔ vs < ws := by
  induction fields generalizing vs ws with
  | nil =>
    cases hv
    cases hw
    simp [render]
  | cons f fields ih =>
    obtain ⟨w, sep⟩ := f
    cases hv with
    | @cons _ v _ vs hv tv =>
      cases hw with
      | @cons _ v' _ ws hw tw =>
        have heads := padded_lt_iff w v v' hv hw
        have equal := padded_inj w v v' hv hw
        have tails := ih tv tw
        rw [render, render, append_lt_append_iff (by simp), heads, equal,
          append_lt_append_iff rfl, tails, List.cons_lt_cons_iff]
        simp

theorem mem_render {fields : List (Nat × List Char)} {vs : List Nat} {c : Char} (h : c ∈ render fields vs) :
    ('0' ≤ c ∧ c ≤ '9') ∨ ∃ f ∈ fields, c ∈ f.2 := by
  induction fields generalizing vs with
  | nil => simp [render] at h
  | cons f fields ih =>
    cases vs with
    | nil => simp [render] at h
    | cons v vs =>
      simp only [render, List.mem_append] at h
      rcases h with digits | separator | rest
      · exact .inl (padded_range digits)
      · exact .inr ⟨f, List.mem_cons_self, separator⟩
      · rcases ih rest with digits | ⟨f', hf', found⟩
        · exact .inl digits
        · exact .inr ⟨f', List.mem_cons_of_mem _ hf', found⟩

theorem render_inj {fields : List (Nat × List Char)} {vs ws : List Nat}
    (hv : Fits fields vs) (hw : Fits fields ws) : render fields vs = render fields ws ↔ vs = ws := by
  constructor
  · intro same
    apply le_antisymm
    · rw [← not_lt, ← render_lt_iff hw hv, same]
      exact lt_irrefl _
    · rw [← not_lt, ← render_lt_iff hv hw, same]
      exact lt_irrefl _
  · intro same
    rw [same]

end Digits
