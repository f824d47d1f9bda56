import Mathlib

/-! Lists that are cut at a separator. -/
namespace Cuts

variable {α : Type*} {sep : α}

/-- Two readings of a text cut at separators: the same cut, or one is further right. -/
theorem cut_eq {a b a' b' : List α} (h : a ++ sep :: b = a' ++ sep :: b') :
    a = a' ∧ b = b' ∨ (∃ c, a' = a ++ sep :: c ∧ b = c ++ sep :: b') ∨
      ∃ c, a = a' ++ sep :: c ∧ b' = c ++ sep :: b := by
  rcases List.append_eq_append_iff.mp h with ⟨c, ha, hb⟩ | ⟨c, ha, hb⟩
  · cases c with
    | nil => exact .inl ⟨by simpa using ha.symm, (List.cons.inj hb).2⟩
    | cons x c =>
      obtain ⟨rfl, rest⟩ := List.cons.inj hb
      exact .inr (.inl ⟨c, ha, rest⟩)
  · cases c with
    | nil => exact .inl ⟨by simpa using ha, (List.cons.inj hb).2.symm⟩
    | cons x c =>
      obtain ⟨rfl, rest⟩ := List.cons.inj hb
      exact .inr (.inr ⟨c, ha, rest⟩)

theorem cut_first {a b a' b' : List α} (first : sep ∉ a) (first' : sep ∉ a')
    (h : a ++ sep :: b = a' ++ sep :: b') : a = a' ∧ b = b' := by
  rcases cut_eq h with same | ⟨c, rfl, _⟩ | ⟨c, rfl, _⟩
  · exact same
  · simp at first'
  · simp at first

theorem mem_tail_iff {a : List α} : sep ∈ a.tail ↔ ∃ b c, b ≠ [] ∧ a = b ++ sep :: c := by
  constructor
  · intro h
    cases a with
    | nil => contradiction
    | cons x a =>
      obtain ⟨b, c, rfl⟩ := List.append_of_mem h
      exact ⟨x :: b, c, by simp, rfl⟩
  · rintro ⟨b, c, some_, rfl⟩
    cases b with
    | nil => contradiction
    | cons x b => simp

theorem mem_dropLast_iff {a : List α} : sep ∈ a.dropLast ↔ ∃ b c, c ≠ [] ∧ a = b ++ sep :: c := by
  constructor
  · intro h
    obtain ⟨b, c, cut⟩ := List.append_of_mem h
    have some_ : a ≠ [] := by
      rintro rfl
      contradiction
    refine ⟨b, c ++ [a.getLast some_], by simp, ?_⟩
    calc a = a.dropLast ++ [a.getLast some_] := (List.dropLast_append_getLast some_).symm
      _ = b ++ sep :: (c ++ [a.getLast some_]) := by simp [cut]
  · rintro ⟨b, c, some_, rfl⟩
    rw [List.dropLast_append_of_ne_nil (by simp), List.dropLast_cons_of_ne_nil some_]
    simp

section After

variable {p : α → Bool}

def after (p : α → Bool) (l : List α) : List α := (l.dropWhile fun a => !p a).tail

theorem after_subset {l : List α} : after p l ⊆ l :=
  ((List.tail_sublist _).trans (List.dropWhile_sublist _)).subset

theorem after_eq_nil {l : List α} (none_ : ∀ a ∈ l, p a = false) : after p l = [] := by
  have dropped : l.dropWhile (fun a => !p a) = [] := by simpa using none_
  simp [after, dropped]

theorem after_cons {a : α} {l : List α} (found : p a = true) : after p (a :: l) = l := by
  simp [after, found]

theorem after_append_left {a b : List α} (found : ∃ x ∈ a, p x = true) :
    after p (a ++ b) = after p a ++ b := by
  obtain ⟨x, mem, found⟩ := found
  have kept : a.dropWhile (fun a => !p a) ≠ [] := by
    intro dropped
    have never := List.dropWhile_eq_nil_iff.mp dropped x mem
    simp [found] at never
  have nonempty : (a.dropWhile fun a => !p a).isEmpty = false := by simpa using kept
  simp [after, List.dropWhile_append, nonempty, List.tail_append_of_ne_nil kept]

theorem after_append_right {a b : List α} (none_ : ∀ x ∈ a, p x = false) :
    after p (a ++ b) = after p b := by
  have dropped : a.dropWhile (fun a => !p a) = [] := by simpa using none_
  simp [after, List.dropWhile_append, dropped]

end After

end Cuts
