import Mathlib

/-! Tables as lists of rows: update-where, the least row under an order, and the
first occurrence of every key. -/
namespace Rows

universe u v w

variable {α : Type u} {κ : Type v} {β γ : Type w}

/-- `UPDATE ... SET f WHERE p`. -/
def update (p : α → Bool) (f : α → α) (rows : List α) : List α :=
  rows.map (fun r => if p r then f r else r)

theorem mem_update {p : α → Bool} {f : α → α} {rows : List α} {x : α} :
    x ∈ update p f rows ↔ ∃ r ∈ rows, x = if p r then f r else r := by
  simp only [update, List.mem_map, eq_comm]

theorem map_update_of_invariant {p : α → Bool} {f : α → α} (g : α → κ) (same : ∀ r, g (f r) = g r)
    (rows : List α) : (update p f rows).map g = rows.map g := by
  simp only [update, List.map_map]
  apply List.map_congr_left
  intro r _
  simp only [Function.comp]
  split
  · exact same r
  · rfl

theorem filter_update_of_invariant {p : α → Bool} {f : α → α} (q : α → Bool)
    (same : ∀ r, q (f r) = q r) (rows : List α) :
    (update p f rows).filter q = update p f (rows.filter q) := by
  have unmoved : q ∘ (fun r => if p r then f r else r) = q := by
    funext r
    simp only [Function.comp]
    split
    · exact same r
    · rfl
  rw [update, List.filter_map, unmoved]
  rfl

theorem update_of_none {p : α → Bool} {f : α → α} {rows : List α} (none : ∀ r ∈ rows, p r = false) :
    update p f rows = rows := by
  conv_rhs => rw [← List.map_id rows]
  apply List.map_congr_left
  intro r hr
  simp [none r hr]

theorem sum_update_lt {p : α → Bool} {f : α → α} {rows : List α} (weight : α → Nat)
    (lower : ∀ r ∈ rows, p r = true → weight (f r) < weight r) (some_ : ∃ r ∈ rows, p r = true) :
    ((update p f rows).map weight).sum < (rows.map weight).sum := by
  rw [update, List.map_map]
  refine List.sum_lt_sum _ _ (fun r mem => ?_) ?_
  · dsimp only [Function.comp]
    split
    · rename_i matched
      exact (lower r mem matched).le
    · exact le_rfl
  · obtain ⟨r, mem, matched⟩ := some_
    refine ⟨r, mem, ?_⟩
    simpa [matched] using lower r mem matched

theorem update_congr {p q : α → Bool} {f : α → α} {rows : List α} (same : ∀ r ∈ rows, p r = q r) :
    update p f rows = update q f rows :=
  List.map_congr_left fun r hr => by rw [same r hr]

theorem update_update {p q : α → Bool} {f : α → α} (once : ∀ r, q r = true → p (f r) = true → f (f r) = f r)
    (rows : List α) : update p f (update q f rows) = update (fun r => q r || p r) f rows := by
  simp only [update, List.map_map]
  apply List.map_congr_left
  intro r _
  by_cases first : q r = true
  · by_cases next : p (f r) = true
    · simp [first, next, once r first next]
    · simp [first, next]
  · simp [first]

theorem key_unique {key : α → κ} {rows : List α} (distinct : (rows.map key).Nodup) {a b : α}
    (ha : a ∈ rows) (hb : b ∈ rows) (same : key a = key b) : a = b :=
  List.inj_on_of_nodup_map distinct ha hb same

theorem filter_key {key : α → κ} {rows : List α} (distinct : (rows.map key).Nodup) {p : α → Bool}
    {e : α} (he : e ∈ rows) (matched : p e = true) (only : ∀ r ∈ rows, p r = true → key r = key e) :
    rows.filter p = [e] := by
  have same : ∀ r ∈ rows.filter p, r = e := fun r hr =>
    key_unique distinct (List.mem_filter.mp hr).1 he
      (only r (List.mem_filter.mp hr).1 (List.mem_filter.mp hr).2)
  have member : e ∈ rows.filter p := List.mem_filter.mpr ⟨he, matched⟩
  have nodup : (rows.filter p).Nodup := (List.Nodup.of_map key distinct).filter p
  rw [List.eq_replicate_of_mem same] at nodup member ⊢
  have bound := List.nodup_replicate.mp nodup
  have positive := List.length_pos_of_mem member
  rw [List.length_replicate] at positive
  rw [le_antisymm bound positive, List.replicate_one]

theorem filter_key_take [DecidableEq κ] {key : α → κ} {rows : List α} (distinct : (rows.map key).Nodup)
    (n : Nat) : rows.filter (fun r => key r ∉ (rows.take n).map key) = rows.drop n := by
  have cut : rows.map key = (rows.take n).map key ++ (rows.drop n).map key := by
    rw [← List.map_append, List.take_append_drop]
  rw [cut, List.nodup_append] at distinct
  have first : (rows.take n).filter (fun r => key r ∉ (rows.take n).map key) = [] :=
    List.filter_eq_nil_iff.mpr fun r hr fresh => of_decide_eq_true fresh (List.mem_map_of_mem hr)
  have last : (rows.drop n).filter (fun r => key r ∉ (rows.take n).map key) = rows.drop n :=
    List.filter_eq_self.mpr fun r hr => decide_eq_true fun known =>
      distinct.2.2 _ known _ (List.mem_map_of_mem hr) rfl
  conv_lhs => rw [← List.take_append_drop n rows]
  rw [List.filter_append, List.take_append_drop, first, last, List.nil_append]

theorem forall₂_comp {R : α → β → Prop} {S : β → γ → Prop} {T : α → γ → Prop}
    (step : ∀ a b c, R a b → S b c → T a c) {xs : List α} {ys : List β} {zs : List γ}
    (first : List.Forall₂ R xs ys) (next : List.Forall₂ S ys zs) : List.Forall₂ T xs zs := by
  induction first generalizing zs with
  | nil =>
    cases next
    exact .nil
  | cons head _ ih =>
    cases next with
    | cons head' tail' => exact .cons (step _ _ _ head head') (ih tail')

theorem forall₂_append_left {R : α → β → Prop} {xs ys : List α} {zs : List β}
    (h : List.Forall₂ R (xs ++ ys) zs) :
    ∃ as bs, zs = as ++ bs ∧ List.Forall₂ R xs as ∧ List.Forall₂ R ys bs := by
  induction xs generalizing zs with
  | nil => exact ⟨[], zs, rfl, .nil, h⟩
  | cons x xs ih =>
    cases h with
    | cons first rest =>
      obtain ⟨as, bs, rfl, left, right⟩ := ih rest
      exact ⟨_ :: as, bs, rfl, .cons first left, right⟩

theorem forall₂_of_exists {R : α → β → Prop} {xs : List α} (h : ∀ x ∈ xs, ∃ y, R x y) :
    ∃ ys, List.Forall₂ R xs ys := by
  induction xs with
  | nil => exact ⟨[], .nil⟩
  | cons x xs ih =>
    obtain ⟨⟨y, first⟩, rest⟩ := List.forall_mem_cons.mp h
    obtain ⟨ys, rest⟩ := ih rest
    exact ⟨y :: ys, .cons first rest⟩

theorem map_eq_of_forall₂ {R : α → β → Prop} {f : α → κ} {g : β → κ} (same : ∀ x y, R x y → f x = g y)
    {xs : List α} {ys : List β} (h : List.Forall₂ R xs ys) : xs.map f = ys.map g := by
  induction h with
  | nil => rfl
  | cons first _ ih => rw [List.map_cons, List.map_cons, same _ _ first, ih]

theorem forall₂_functional {R : α → β → Prop} {xs : List α} {ys ys' : List β}
    (functional : ∀ y ∈ ys, ∀ x y', R x y → R x y' → y = y') (h : List.Forall₂ R xs ys)
    (h' : List.Forall₂ R xs ys') : ys = ys' := by
  induction h generalizing ys' with
  | nil =>
    cases h'
    rfl
  | cons first _ ih =>
    cases h' with
    | cons first' rest' =>
      obtain ⟨here, others⟩ := List.forall_mem_cons.mp functional
      rw [here _ _ first first', ih others rest']

theorem exists_of_forall₂ {R : α → β → Prop} {xs : List α} {ys : List β}
    (rel : List.Forall₂ R xs ys) {x : α} (hx : x ∈ xs) : ∃ y ∈ ys, R x y := by
  induction rel with
  | nil => contradiction
  | @cons _ y _ _ head _ ih =>
    rcases List.mem_cons.mp hx with rfl | hx
    · exact ⟨y, List.mem_cons_self, head⟩
    · obtain ⟨y, hy, related⟩ := ih hx
      exact ⟨y, List.mem_cons_of_mem _ hy, related⟩

theorem forall₂_getElem? {R : α → β → Prop} {xs : List α} {ys : List β}
    (h : List.Forall₂ R xs ys) {i : Nat} {x : α} (at_ : xs[i]? = some x) :
    ∃ y, ys[i]? = some y ∧ R x y := by
  induction h generalizing i with
  | nil => simp at at_
  | cons head _ ih =>
    cases i with
    | zero =>
      simp only [List.getElem?_cons_zero, Option.some.injEq] at at_
      exact ⟨_, by simp, at_ ▸ head⟩
    | succ i =>
      simp only [List.getElem?_cons_succ] at at_ ⊢
      exact ih at_

def Breaks (bad : List α → α → Prop) (done rows : List α) : Prop :=
  ∃ before x after, rows = before ++ x :: after ∧ bad (done ++ before) x

theorem not_breaks_nil {bad : List α → α → Prop} {done : List α} : ¬Breaks bad done [] := by
  rintro ⟨before, x, after, cut, _⟩
  simp at cut

theorem breaks_cons {bad : List α → α → Prop} {done rows : List α} {x : α} :
    Breaks bad done (x :: rows) ↔ bad done x ∨ Breaks bad (done ++ [x]) rows := by
  constructor
  · rintro ⟨before, y, after, cut, broken⟩
    cases before with
    | nil =>
      obtain ⟨rfl, rfl⟩ := List.cons.inj cut
      exact .inl (by simpa using broken)
    | cons first before =>
      obtain ⟨rfl, tail⟩ := List.cons.inj cut
      exact .inr ⟨before, y, after, tail, by simpa using broken⟩
  · rintro (broken | ⟨before, y, after, rfl, broken⟩)
    · exact ⟨[], x, rows, rfl, by simpa using broken⟩
    · exact ⟨x :: before, y, after, rfl, by simpa using broken⟩

theorem breaks_known_iff {key : α → κ} {done rows : List α} (distinct : (done.map key).Nodup) :
    Breaks (fun before x => key x ∈ before.map key) done rows ↔ ¬((done ++ rows).map key).Nodup := by
  induction rows generalizing done with
  | nil =>
    rw [List.append_nil]
    exact iff_of_false not_breaks_nil (not_not.mpr distinct)
  | cons x rows ih =>
    rw [breaks_cons]
    by_cases known : key x ∈ done.map key
    · refine ⟨fun _ nodup => ?_, fun _ => .inl known⟩
      rw [List.map_append, List.map_cons, List.nodup_append] at nodup
      exact nodup.2.2 _ known _ List.mem_cons_self rfl
    · have longer : ((done ++ [x]).map key).Nodup := by
        rw [List.map_append]
        exact distinct.append (by simp) (by simpa using known)
      rw [ih longer, List.append_assoc, List.singleton_append]
      exact or_iff_right known

/-- The first of the rows that no other row precedes. -/
def least (le : α → α → Bool) : List α → Option α
  | [] => none
  | r :: rows =>
    match least le rows with
    | none => some r
    | some m => if le r m then some r else some m

theorem least_eq_none {le : α → α → Bool} {rows : List α} : least le rows = none ↔ rows = [] := by
  cases rows with
  | nil => simp [least]
  | cons r rows =>
    simp only [least, reduceCtorEq, iff_false]
    split
    · simp
    · split <;> simp

theorem least_mem {le : α → α → Bool} {rows : List α} {m : α} (h : least le rows = some m) :
    m ∈ rows := by
  induction rows generalizing m with
  | nil => simp [least] at h
  | cons r rows ih =>
    unfold least at h
    split at h
    · cases Option.some.inj h
      exact List.mem_cons_self
    · rename_i m' hm
      split at h
      · cases Option.some.inj h
        exact List.mem_cons_self
      · cases Option.some.inj h
        exact List.mem_cons_of_mem _ (ih hm)

theorem least_le {le : α → α → Bool} (total : ∀ a b, le a b = false → le b a = true)
    (trans : ∀ a b c, le a b = true → le b c = true → le a c = true)
    {rows : List α} {m : α} (h : least le rows = some m) : ∀ r ∈ rows, le m r = true := by
  have refl : ∀ a, le a a = true := by
    intro a
    cases ha : le a a with
    | false => exact ha ▸ total a a ha
    | true => rfl
  induction rows generalizing m with
  | nil => simp [least] at h
  | cons r rows ih =>
    unfold least at h
    split at h
    · rename_i empty
      cases Option.some.inj h
      rw [least_eq_none.mp empty]
      simp [refl]
    · rename_i m' hm
      have tail := ih hm
      split at h
      · rename_i first
        cases Option.some.inj h
        intro x hx
        rcases List.mem_cons.mp hx with rfl | hx
        · exact refl _
        · exact trans _ _ _ first (tail x hx)
      · rename_i later
        cases Option.some.inj h
        intro x hx
        rcases List.mem_cons.mp hx with rfl | hx
        · exact total _ _ (by simpa using later)
        · exact tail x hx

theorem least_order [LinearOrder α] {le : α → α → Bool} (decides : ∀ a b, le a b = true ↔ a ≤ b)
    {rows : List α} {m : α} (h : least le rows = some m) : m ∈ rows ∧ ∀ r ∈ rows, m ≤ r := by
  have total : ∀ a b, le a b = false → le b a = true := by
    intro a b below
    rw [decides]
    exact (le_total a b).resolve_left fun is => by simp [(decides a b).mpr is] at below
  have trans : ∀ a b c, le a b = true → le b c = true → le a c = true := by
    intro a b c
    rw [decides, decides, decides]
    exact le_trans
  apply And.intro (least_mem h)
  intro r member
  exact (decides m r).mp (least_le total trans h r member)

theorem least_eq_some_iff {le : α → α → Bool} (total : ∀ a b, le a b = false → le b a = true)
    (trans : ∀ a b c, le a b = true → le b c = true → le a c = true) {rows : List α}
    (antisymm : ∀ a ∈ rows, ∀ b ∈ rows, le a b = true → le b a = true → a = b) {m : α} :
    least le rows = some m ↔ m ∈ rows ∧ ∀ r ∈ rows, le m r = true := by
  constructor
  · intro h
    exact ⟨least_mem h, least_le total trans h⟩
  · rintro ⟨member, below⟩
    cases found : least le rows with
    | none =>
      rw [least_eq_none.mp found] at member
      contradiction
    | some m' =>
      have member' := least_mem found
      rw [antisymm m' member' m member (least_le total trans found m member) (below m' member')]

section Firsts

variable [DecidableEq κ] (key : α → κ)

def keep (kept : List α) (x : α) : List α :=
  if kept.any (fun r => key r = key x) then kept else kept ++ [x]

/-- Rows inserted one by one, a row with a known key being skipped. -/
def keepAll (kept xs : List α) : List α := xs.foldl (keep key) kept

@[simp] theorem keepAll_nil (kept : List α) : keepAll key kept [] = kept := rfl

@[simp] theorem keepAll_cons (kept : List α) (x : α) (xs : List α) :
    keepAll key kept (x :: xs) = keepAll key (keep key kept x) xs := rfl

theorem keepAll_append (kept xs ys : List α) :
    keepAll key kept (xs ++ ys) = keepAll key (keepAll key kept xs) ys := by
  simp [keepAll, List.foldl_append]

theorem keep_cases (kept : List α) (x : α) :
    key x ∈ kept.map key ∧ keep key kept x = kept ∨
      key x ∉ kept.map key ∧ keep key kept x = kept ++ [x] := by
  unfold keep
  split
  · rename_i seen
    exact .inl ⟨by simpa [List.any_eq_true, List.mem_map] using seen, rfl⟩
  · rename_i fresh
    exact .inr ⟨by simpa [List.any_eq_true, List.mem_map] using fresh, rfl⟩

theorem mem_keep_key (kept : List α) (x : α) (k : κ) :
    k ∈ (keep key kept x).map key ↔ k ∈ kept.map key ∨ k = key x := by
  obtain ⟨seen, same⟩ | ⟨_, more⟩ := keep_cases key kept x
  · rw [same]
    constructor
    · exact Or.inl
    · rintro (h | rfl)
      · exact h
      · exact seen
  · simp [more]

theorem keep_nodup {kept : List α} (distinct : (kept.map key).Nodup) (x : α) :
    ((keep key kept x).map key).Nodup := by
  obtain ⟨_, same⟩ | ⟨fresh, more⟩ := keep_cases key kept x
  · rwa [same]
  · rw [more, List.map_append]
    exact distinct.append (by simp) (by simpa using fresh)

theorem mem_keepAll_of_mem {kept : List α} {r : α} (h : r ∈ kept) (xs : List α) :
    r ∈ keepAll key kept xs := by
  induction xs generalizing kept with
  | nil => exact h
  | cons x xs ih =>
    apply ih
    obtain ⟨_, same⟩ | ⟨_, more⟩ := keep_cases key kept x
    · rwa [same]
    · rw [more]
      exact List.mem_append_left _ h

theorem mem_of_mem_keepAll {kept xs : List α} {r : α} (h : r ∈ keepAll key kept xs) :
    r ∈ kept ∨ r ∈ xs := by
  induction xs generalizing kept with
  | nil => exact .inl h
  | cons x xs ih =>
    rcases ih h with h | h
    · obtain ⟨_, same⟩ | ⟨_, more⟩ := keep_cases key kept x
      · exact .inl (same ▸ h)
      · rw [more, List.mem_append, List.mem_singleton] at h
        rcases h with h | rfl
        · exact .inl h
        · exact .inr List.mem_cons_self
    · exact .inr (List.mem_cons_of_mem _ h)

theorem mem_keepAll_key (kept xs : List α) (k : κ) :
    k ∈ (keepAll key kept xs).map key ↔ k ∈ kept.map key ∨ k ∈ xs.map key := by
  induction xs generalizing kept with
  | nil => simp
  | cons x xs ih => simp only [keepAll_cons, ih, mem_keep_key, List.map_cons, List.mem_cons, or_assoc]

def firsts (xs : List α) : List α := keepAll key [] xs

theorem firsts_append (xs ys : List α) :
    firsts key (xs ++ ys) = keepAll key (firsts key xs) ys := keepAll_append key [] xs ys

theorem keepAll_of_known {kept xs : List α} (known : ∀ x ∈ xs, key x ∈ kept.map key) :
    keepAll key kept xs = kept := by
  induction xs with
  | nil => rfl
  | cons x xs ih =>
    obtain ⟨_, same⟩ | ⟨fresh, _⟩ := keep_cases key kept x
    · rw [keepAll_cons, same]
      exact ih (fun y hy => known y (List.mem_cons_of_mem _ hy))
    · exact absurd (known x List.mem_cons_self) fresh

theorem keepAll_of_nodup (kept : List α) {xs : List α} (distinct : (xs.map key).Nodup) :
    keepAll key kept xs = kept ++ xs.filter (fun x => key x ∉ kept.map key) := by
  induction xs generalizing kept with
  | nil => simp
  | cons x xs ih =>
    obtain ⟨new, distinct⟩ := List.nodup_cons.mp distinct
    rw [keepAll_cons, ih _ distinct]
    obtain ⟨known, same⟩ | ⟨fresh, more⟩ := keep_cases key kept x
    · rw [same, List.filter_cons_of_neg (by simpa using known)]
    · rw [more, List.filter_cons_of_pos (by simpa using fresh), List.append_assoc,
        List.singleton_append]
      congr 2
      apply List.filter_congr
      intro y hy
      have other : key y ≠ key x := fun same => new (same ▸ List.mem_map_of_mem hy)
      simp [other]

theorem keepAll_of_fresh {kept xs : List α} (fresh : ∀ x ∈ xs, key x ∉ kept.map key)
    (distinct : (xs.map key).Nodup) : keepAll key kept xs = kept ++ xs := by
  rw [keepAll_of_nodup key kept distinct, List.filter_eq_self.mpr fun x hx => decide_eq_true (fresh x hx)]

variable {μ : Type v} [DecidableEq μ] {key} {key' : β → μ} {R : α → β → Prop}

omit [DecidableEq κ] [DecidableEq μ] in
theorem forall₂_known (agree : ∀ a b a' b', R a b → R a' b' → (key a = key a' ↔ key' b = key' b'))
    {as : List α} {bs : List β} (rel : List.Forall₂ R as bs) {x : α} {y : β} (xy : R x y) :
    key x ∈ as.map key ↔ key' y ∈ bs.map key' := by
  induction rel with
  | nil => simp
  | cons ab _ ih => simp only [List.map_cons, List.mem_cons, ih, agree _ _ _ _ xy ab]

theorem forall₂_keepAll (agree : ∀ a b a' b', R a b → R a' b' → (key a = key a' ↔ key' b = key' b'))
    {as xs : List α} {bs ys : List β} (rel : List.Forall₂ R as bs) (more : List.Forall₂ R xs ys) :
    List.Forall₂ R (keepAll key as xs) (keepAll key' bs ys) := by
  induction more generalizing as bs with
  | nil => exact rel
  | @cons x y _ _ xy _ ih =>
    apply ih
    have known := forall₂_known agree rel xy
    obtain ⟨seen, same⟩ | ⟨fresh, added⟩ := keep_cases key as x
    · obtain ⟨_, same'⟩ | ⟨fresh', _⟩ := keep_cases key' bs y
      · rwa [same, same']
      · exact absurd (known.mp seen) fresh'
    · obtain ⟨seen', _⟩ | ⟨_, added'⟩ := keep_cases key' bs y
      · exact absurd (known.mpr seen') fresh
      · rw [added, added']
        exact List.rel_append rel (.cons xy .nil)

end Firsts

section Renumber

variable [DecidableEq α]

def reindex (xs ys : List α) (i : Nat) : Nat :=
  match xs[i]? with
  | some x => ys.idxOf x
  | none => i

theorem idxOf_of_getElem? {xs : List α} (distinct : xs.Nodup) {i : Nat} {x : α} (at_ : xs[i]? = some x) :
    xs.idxOf x = i := by
  obtain ⟨bound, rfl⟩ := List.getElem?_eq_some_iff.mp at_
  exact distinct.idxOf_getElem i bound

theorem reindex_reindex {xs ys : List α} (distinct : xs.Nodup) (perm : xs.Perm ys) (i : Nat) :
    reindex ys xs (reindex xs ys i) = i := by
  unfold reindex
  cases at_ : xs[i]? with
  | none =>
    have beyond : ys[i]? = none := by
      rw [List.getElem?_eq_none_iff] at at_ ⊢
      exact perm.length_eq ▸ at_
    simp only [beyond]
  | some x =>
    have member : x ∈ ys := perm.mem_iff.mp (List.mem_of_getElem? at_)
    have found : ys[ys.idxOf x]? = some x := by
      rw [List.getElem?_eq_some_iff]
      exact ⟨List.idxOf_lt_length_of_mem member, List.getElem_idxOf _⟩
    simp only [found, idxOf_of_getElem? distinct at_]

/-- Numbers after `last` given out in the order of one list, taken in the order of another. -/
def renumber {xs ys : List α} (distinct : xs.Nodup) (perm : xs.Perm ys) (last : Nat) :
    Equiv.Perm Nat where
  toFun n := if n ≤ last then n else last + 1 + reindex xs ys (n - (last + 1))
  invFun n := if n ≤ last then n else last + 1 + reindex ys xs (n - (last + 1))
  left_inv n := by
    by_cases old : n ≤ last
    · simp only [if_pos old]
    · simp only [if_neg old]
      rw [if_neg (by omega), Nat.add_sub_cancel_left, reindex_reindex distinct perm]
      omega
  right_inv n := by
    by_cases old : n ≤ last
    · simp only [if_pos old]
    · simp only [if_neg old]
      rw [if_neg (by omega), Nat.add_sub_cancel_left,
        reindex_reindex (perm.nodup_iff.mp distinct) perm.symm]
      omega

variable {xs ys : List α} (distinct : xs.Nodup) (perm : xs.Perm ys) {last : Nat}

theorem renumber_old {n : Nat} (old : n ≤ last) : renumber distinct perm last n = n := if_pos old

theorem renumber_idxOf {x : α} (member : x ∈ xs) :
    renumber distinct perm last (last + 1 + xs.idxOf x) = last + 1 + ys.idxOf x := by
  have found : xs[xs.idxOf x]? = some x := by
    rw [List.getElem?_eq_some_iff]
    exact ⟨List.idxOf_lt_length_of_mem member, List.getElem_idxOf _⟩
  change (if _ then _ else _) = _
  rw [if_neg (by omega), Nat.add_sub_cancel_left, reindex]
  simp only [found]

include distinct in
theorem mapIdx_of_nodup (f : Nat → α → β) : xs.mapIdx f = xs.map (fun x => f (xs.idxOf x) x) := by
  apply List.ext_getElem?
  intro i
  rw [List.getElem?_mapIdx, List.getElem?_map]
  cases at_ : xs[i]? with
  | none => rfl
  | some x => simp only [Option.map_some, idxOf_of_getElem? distinct at_]

end Renumber

section Sorted

variable [LinearOrder κ] (key : α → κ)

theorem filter_le_of_sorted {past rest : List α} {x : α} {bound : κ}
    (sorted : ((past ++ x :: rest).map key).Pairwise (· < ·)) (below : ∀ y ∈ past, key y ≤ bound)
    (above : bound < key x) : (past ++ x :: rest).filter (fun y => key y ≤ bound) = past := by
  have later : ∀ y ∈ rest, key x < key y := by
    intro y hy
    have tail := (List.pairwise_append.mp (List.map_append ▸ sorted)).2.1
    exact (List.pairwise_cons.mp tail).1 _ (List.mem_map_of_mem hy)
  have first : past.filter (fun y => key y ≤ bound) = past :=
    List.filter_eq_self.mpr fun y hy => decide_eq_true (below y hy)
  have last : rest.filter (fun y => key y ≤ bound) = [] :=
    List.filter_eq_nil_iff.mpr fun y hy =>
      mt of_decide_eq_true (not_le.mpr (above.trans (later y hy)))
  rw [List.filter_append, List.filter_cons_of_neg (by simpa using above), first, last, List.append_nil]

theorem filter_le_self_of_sorted {past rest : List α} {x : α}
    (sorted : ((past ++ x :: rest).map key).Pairwise (· < ·)) :
    (past ++ x :: rest).filter (fun y => key y ≤ key x) = past ++ [x] := by
  rw [List.map_append] at sorted
  obtain ⟨_, tail, across⟩ := List.pairwise_append.mp sorted
  have later := (List.pairwise_cons.mp tail).1
  have first : past.filter (fun y => key y ≤ key x) = past :=
    List.filter_eq_self.mpr fun y hy =>
      decide_eq_true (across _ (List.mem_map_of_mem hy) _ List.mem_cons_self).le
  have last : rest.filter (fun y => key y ≤ key x) = [] :=
    List.filter_eq_nil_iff.mpr fun y hy =>
      mt of_decide_eq_true (not_le.mpr (later _ (List.mem_map_of_mem hy)))
  rw [List.filter_append, List.filter_cons_of_pos (by simp), first, last]

end Sorted

end Rows
