import WriteRelay.Sdk.TypeScript

/-! `jsonValue` over a finite heap with sharing and cycles: it ends, it throws where a path leads
to something that JSON cannot say, and otherwise it returns the value unfolded into a tree. -/
namespace WriteRelay.TypeScript
open Relation Fallible

variable {ref : Type} (heap : ref → JsObject ref)

inductive Child : JsValue ref → JsValue ref → Prop
  | item {r : ref} {items : List (JsValue ref)} {w : JsValue ref} :
      heap r = .array items → w ∈ items → Child (.object r) w
  | entry {r : ref} {entries : List (JsString × JsValue ref)} {key : JsString} {w : JsValue ref} :
      heap r = .plain entries → (key, w) ∈ entries → Child (.object r) w

def Spoiled (s : JsString) : Prop := 0 ∈ s ∨ Utf16.Unpaired s

/-- What JSON cannot say, whatever a value holds further down. -/
inductive Refused : JsValue ref → Prop
  | undefined : Refused .undefined
  | other : Refused .other
  | infinite : Refused (.number .infinite)
  | nan : Refused (.number .nan)
  | string {s : JsString} : Spoiled s → Refused (.string s)
  | key {r : ref} {entries : List (JsString × JsValue ref)} {key : JsString} {w : JsValue ref} :
      heap r = .plain entries → (key, w) ∈ entries → Spoiled key → Refused (.object r)
  | instance_ {r : ref} {entries inherited : List (JsString × JsValue ref)} :
      heap r = .instance_ entries inherited → Refused (.object r)

def Cyclic (v : JsValue ref) : Prop := TransGen (Child heap) v v

/-- Some path from the value leads to what JSON cannot say. -/
def Faulty (v : JsValue ref) : Prop := ∃ w, ReflTransGen (Child heap) v w ∧ (Refused heap w ∨ Cyclic heap w)

mutual
/-- The tree holds every element and every key of the value, in their order. -/
def Unfolds : JsValue ref → JsonValue → Prop
  | v, .null => v = .null
  | v, .bool b => v = .bool b
  | v, .number x => v = .number (.finite x)
  | v, .string s => v = .string s
  | v, .array trees => ∃ r items, v = .object r ∧ heap r = .array items ∧ UnfoldsItems items trees
  | v, .object trees => ∃ r entries, v = .object r ∧ heap r = .plain entries ∧ UnfoldsEntries entries trees

def UnfoldsItems : List (JsValue ref) → List JsonValue → Prop
  | items, [] => items = []
  | items, tree :: trees => ∃ v rest, items = v :: rest ∧ Unfolds v tree ∧ UnfoldsItems rest trees

def UnfoldsEntries : List (JsString × JsValue ref) → List (JsString × JsonValue) → Prop
  | entries, [] => entries = []
  | entries, tree :: trees => ∃ e rest, entries = e :: rest ∧ UnfoldsEntry e tree ∧ UnfoldsEntries rest trees

def UnfoldsEntry : JsString × JsValue ref → JsString × JsonValue → Prop
  | (key, v), (key', tree) => key = key' ∧ Unfolds v tree
end

section Strings

theorem zero_mem_codePoints {s : JsString} : 0 ∈ Utf16.codePoints s ↔ (0 : UInt16) ∈ s := by
  have zero : ∀ {unit : UInt16}, 0 = unit.toNat ↔ 0 = unit := by
    intro unit
    rw [← UInt16.toNat_inj]
    rfl
  induction s using Utf16.codePoints.induct with
  | case1 => simp [Utf16.codePoints]
  | case2 unit => simp only [Utf16.codePoints, List.mem_singleton, zero]
  | case3 high low rest pair ih =>
    obtain ⟨first, second⟩ := Bool.and_eq_true_iff.mp pair
    have nonzero : 0 ≠ high ∧ 0 ≠ low ∧ 0 ≠ Utf16.combine high low := by
      refine ⟨?_, ?_, ?_⟩
      · rintro rfl
        exact absurd first (by decide)
      · rintro rfl
        exact absurd second (by decide)
      · rw [Utf16.combine]
        omega
    simp only [Utf16.codePoints, if_pos pair, List.mem_cons, nonzero, false_or, ih]
  | case4 high low rest pair ih =>
    rw [Utf16.codePoints, if_neg pair, List.mem_cons, zero]
    exact (or_congr_right ih).trans List.mem_cons.symm

theorem invalidString_iff {s : JsString} : invalidString s = true ↔ Spoiled s := by
  simp only [invalidString, List.any_eq_true, Bool.or_eq_true, decide_eq_true_eq, Spoiled,
    Utf16.unpaired_iff, ← zero_mem_codePoints, and_or_left, exists_or, exists_eq_right]

end Strings

section Tree

variable {heap}

theorem unfoldsItems_iff {items : List (JsValue ref)} {trees : List JsonValue} :
    UnfoldsItems heap items trees ↔ List.Forall₂ (Unfolds heap) items trees := by
  induction trees generalizing items with
  | nil => simp [UnfoldsItems]
  | cons tree trees ih =>
    rw [UnfoldsItems]
    constructor
    · rintro ⟨v, rest, rfl, here, others⟩
      exact .cons here (ih.mp others)
    · rintro (_ | ⟨here, others⟩)
      exact ⟨_, _, rfl, here, ih.mpr others⟩

theorem unfoldsEntries_iff {entries : List (JsString × JsValue ref)} {trees : List (JsString × JsonValue)} :
    UnfoldsEntries heap entries trees ↔
      List.Forall₂ (fun e tree => e.1 = tree.1 ∧ Unfolds heap e.2 tree.2) entries trees := by
  induction trees generalizing entries with
  | nil => simp [UnfoldsEntries]
  | cons tree trees ih =>
    rw [UnfoldsEntries]
    constructor
    · rintro ⟨e, rest, rfl, here, others⟩
      rw [UnfoldsEntry] at here
      exact .cons here (ih.mp others)
    · rintro (_ | ⟨here, others⟩)
      exact ⟨_, _, rfl, by rw [UnfoldsEntry]; exact here, ih.mpr others⟩

inductive Below : JsonValue → JsonValue → Prop
  | item {tree : JsonValue} {trees : List JsonValue} : tree ∈ trees → Below tree (.array trees)
  | entry {entry : JsString × JsonValue} {trees : List (JsString × JsonValue)} :
      entry ∈ trees → Below entry.2 (.object trees)

theorem below_wf : WellFounded Below := by
  apply Subrelation.wf _ (measure (sizeOf : JsonValue → Nat)).wf
  intro tree whole below
  change sizeOf tree < sizeOf whole
  cases below with
  | item found =>
    have := List.sizeOf_lt_of_mem found
    simp only [JsonValue.array.sizeOf_spec]
    omega
  | @entry entry trees found =>
    have := List.sizeOf_lt_of_mem found
    obtain ⟨key, tree⟩ := entry
    simp only [JsonValue.object.sizeOf_spec, Prod.mk.sizeOf_spec] at this ⊢
    omega

theorem unfolds_child {v w : JsValue ref} {tree : JsonValue} (h : Unfolds heap v tree)
    (child : Child heap v w) : ∃ tree', Below tree' tree ∧ Unfolds heap w tree' := by
  cases tree with
  | null | bool | number | string =>
    rw [Unfolds] at h
    subst h
    cases child
  | array trees =>
    rw [Unfolds] at h
    obtain ⟨r, items, rfl, found, all⟩ := h
    cases child with
    | item found' inside =>
      cases found.symm.trans found'
      obtain ⟨tree', below, unfolds⟩ := Rows.exists_of_forall₂ (unfoldsItems_iff.mp all) inside
      exact ⟨tree', .item below, unfolds⟩
    | entry found' _ => cases found.symm.trans found'
  | object trees =>
    rw [Unfolds] at h
    obtain ⟨r, entries, rfl, found, all⟩ := h
    cases child with
    | item found' _ => cases found.symm.trans found'
    | entry found' inside =>
      cases found.symm.trans found'
      obtain ⟨tree', below, _, unfolds⟩ := Rows.exists_of_forall₂ (unfoldsEntries_iff.mp all) inside
      exact ⟨tree'.2, .entry below, unfolds⟩

theorem unfolds_path {v w : JsValue ref} {tree : JsonValue} (h : Unfolds heap v tree)
    (path : TransGen (Child heap) v w) : ∃ tree', TransGen Below tree' tree ∧ Unfolds heap w tree' := by
  induction path with
  | single child =>
    obtain ⟨tree', below, unfolds⟩ := unfolds_child h child
    exact ⟨tree', .single below, unfolds⟩
  | tail _ child ih =>
    obtain ⟨tree', below, unfolds⟩ := ih
    obtain ⟨tree'', below', unfolds'⟩ := unfolds_child unfolds child
    exact ⟨tree'', .head below' below, unfolds'⟩

theorem unfolds_acyclic {v : JsValue ref} {tree : JsonValue} (h : Unfolds heap v tree) : ¬Cyclic heap v := by
  intro cycle
  induction tree using below_wf.transGen.induction with
  | _ tree ih =>
  obtain ⟨tree', below, unfolds⟩ := unfolds_path h cycle
  exact ih tree' below unfolds

theorem unfolds_unique {v : JsValue ref} {tree tree' : JsonValue} (h : Unfolds heap v tree)
    (h' : Unfolds heap v tree') : tree = tree' := by
  -- the tree is finite although the heap may have cycles
  induction tree using below_wf.induction generalizing v tree' with
  | _ tree ih =>
  cases tree with
  | null | bool | number | string =>
    rw [Unfolds] at h
    subst h
    cases tree' <;> simp_all [Unfolds]
  | array trees =>
    rw [Unfolds] at h
    obtain ⟨r, items, rfl, found, all⟩ := h
    cases tree' with
    | null | bool | number | string => simp [Unfolds] at h'
    | array trees' =>
      rw [Unfolds] at h'
      obtain ⟨r', items', same, found', all'⟩ := h'
      cases same
      cases found.symm.trans found'
      have functional : ∀ tree ∈ trees, ∀ v tree', Unfolds heap v tree → Unfolds heap v tree' →
          tree = tree' := fun tree inside _ _ => ih tree (.item inside)
      rw [Rows.forall₂_functional functional (unfoldsItems_iff.mp all) (unfoldsItems_iff.mp all')]
    | object trees' =>
      rw [Unfolds] at h'
      obtain ⟨r', entries, same, found', _⟩ := h'
      cases same
      cases found.symm.trans found'
  | object trees =>
    rw [Unfolds] at h
    obtain ⟨r, entries, rfl, found, all⟩ := h
    cases tree' with
    | null | bool | number | string => simp [Unfolds] at h'
    | array trees' =>
      rw [Unfolds] at h'
      obtain ⟨r', items, same, found', _⟩ := h'
      cases same
      cases found.symm.trans found'
    | object trees' =>
      rw [Unfolds] at h'
      obtain ⟨r', entries', same, found', all'⟩ := h'
      cases same
      cases found.symm.trans found'
      have functional : ∀ tree ∈ trees, ∀ (e : JsString × JsValue ref) (tree' : JsString × JsonValue),
          e.1 = tree.1 ∧ Unfolds heap e.2 tree.2 → e.1 = tree'.1 ∧ Unfolds heap e.2 tree'.2 →
            tree = tree' := fun tree inside e tree' one two =>
        Prod.ext (one.1.symm.trans two.1) (ih tree.2 (.entry inside) one.2 two.2)
      rw [Rows.forall₂_functional functional (unfoldsEntries_iff.mp all) (unfoldsEntries_iff.mp all')]

theorem Faulty.child {v w : JsValue ref} (h : Faulty heap w) (child : Child heap v w) : Faulty heap v := by
  obtain ⟨u, path, fault⟩ := h
  exact ⟨u, .head child path, fault⟩

end Tree

section Calls

variable {value : List ref → JsValue ref → Run ref JsonValue}

theorem jsonItems_cases (restores : ∀ ancestors v, (value ancestors v).2 = ancestors)
    (ancestors : List ref) (items : List (JsValue ref)) :
    (∃ trees, jsonItems value ancestors items = (.ok trees, ancestors) ∧
      List.Forall₂ (fun v tree => (value ancestors v).1 = .ok tree) items trees) ∨
    ∃ v ∈ items, ∃ e, (value ancestors v).1 = .error e ∧
      jsonItems value ancestors items = (.error e, ancestors) := by
  induction items with
  | nil => exact .inl ⟨[], rfl, .nil⟩
  | cons v items ih =>
    have left := restores ancestors v
    rw [jsonItems]
    cases call : value ancestors v with
    | mk result after =>
      rw [call] at left
      dsimp only at left
      subst left
      cases result with
      | error e => exact .inr ⟨v, List.mem_cons_self, e, by rw [call], rfl⟩
      | ok tree =>
        rcases ih with ⟨trees, run, all⟩ | ⟨w, inside, e, thrown, run⟩
        · exact .inl ⟨tree :: trees, by simp only [run]; rfl, .cons (by rw [call]) all⟩
        · exact .inr ⟨w, List.mem_cons_of_mem v inside, e, thrown, by simp only [run]; rfl⟩

theorem jsonEntries_cases (restores : ∀ ancestors v, (value ancestors v).2 = ancestors)
    (ancestors : List ref) (entries : List (JsString × JsValue ref)) :
    (∃ trees, jsonEntries value ancestors entries = (.ok trees, ancestors) ∧
      List.Forall₂ (fun e tree => e.1 = tree.1 ∧ ¬Spoiled e.1 ∧ (value ancestors e.2).1 = .ok tree.2)
        entries trees) ∨
    ∃ entry ∈ entries, ∃ e, jsonEntries value ancestors entries = (.error e, ancestors) ∧
      (Spoiled entry.1 ∧ e = .typeError "WriteRelay strings must be valid Unicode without NUL" ∨
        (value ancestors entry.2).1 = .error e) := by
  induction entries with
  | nil => exact .inl ⟨[], rfl, .nil⟩
  | cons entry entries ih =>
    obtain ⟨key, v⟩ := entry
    have left := restores ancestors v
    rw [jsonEntries, checkString, failIf]
    by_cases spoiled : Spoiled key
    · rw [if_pos (invalidString_iff.mpr spoiled)]
      exact .inr ⟨(key, v), List.mem_cons_self, _, rfl, .inl ⟨spoiled, rfl⟩⟩
    rw [if_neg (mt invalidString_iff.mp spoiled)]
    cases call : value ancestors v with
    | mk result after =>
      rw [call] at left
      dsimp only at left
      subst left
      cases result with
      | error e => exact .inr ⟨(key, v), List.mem_cons_self, e, by simp only [call], .inr (by rw [call])⟩
      | ok tree =>
        rcases ih with ⟨trees, run, all⟩ | ⟨entry, inside, e, run, thrown⟩
        · exact .inl ⟨(key, tree) :: trees, by simp only [call, run]; rfl,
            .cons ⟨rfl, spoiled, by rw [call]⟩ all⟩
        · exact .inr ⟨entry, List.mem_cons_of_mem _ inside, e, by simp only [call, run]; rfl, thrown⟩

variable [DecidableEq ref]

/-- Every call leaves the set of ancestors as it found it. -/
theorem jsonValue_restores (depth : Nat) (ancestors : List ref) (v : JsValue ref) :
    (jsonValue heap depth ancestors v).2 = ancestors := by
  induction depth generalizing ancestors v with
  | zero => cases v with
    | number n => cases n <;> rfl
    | undefined | null | bool | string | object | other => rfl
  | succ depth ih => cases v with
    | number n => cases n <;> rfl
    | undefined | null | bool | string | other => rfl
    | object r =>
      rw [jsonValue]
      split
      · rfl
      · split
        · rfl
        · rename_i items _
          rcases jsonItems_cases ih (r :: ancestors) items with ⟨_, run, _⟩ | ⟨_, _, _, _, run⟩
          · simp only [run, List.erase_cons_head]
          · simp only [run, List.erase_cons_head]
        · rename_i entries _
          rcases jsonEntries_cases ih (r :: ancestors) entries with ⟨_, run, _⟩ | ⟨_, _, _, run, _⟩
          · simp only [run, List.erase_cons_head]
          · simp only [run, List.erase_cons_head]

def Returned (v : JsValue ref) : Prop := ∃ depth ancestors tree, (jsonValue heap depth ancestors v).1 = .ok tree

variable {heap}

theorem jsonValue_object {depth : Nat} {ancestors : List ref} {r : ref} {tree : JsonValue}
    (h : (jsonValue heap depth ancestors (.object r)).1 = .ok tree) : ∃ depth', depth = depth' + 1 ∧
    ((∃ items trees, heap r = .array items ∧ tree = .array trees ∧
      List.Forall₂ (fun v tree => (jsonValue heap depth' (r :: ancestors) v).1 = .ok tree) items trees) ∨
    ∃ entries trees, heap r = .plain entries ∧ tree = .object trees ∧
      List.Forall₂ (fun e tree => e.1 = tree.1 ∧ ¬Spoiled e.1 ∧
        (jsonValue heap depth' (r :: ancestors) e.2).1 = .ok tree.2) entries trees) := by
  cases depth with
  | zero => contradiction
  | succ depth =>
    apply Exists.intro depth
    apply And.intro rfl
    have restores := jsonValue_restores heap depth
    rw [jsonValue] at h
    split at h
    · contradiction
    · split at h
      · contradiction
      · rename_i items found
        rcases jsonItems_cases restores (r :: ancestors) items with ⟨trees, run, all⟩ | ⟨_, _, _, _, run⟩
        · rw [run] at h
          exact .inl ⟨items, trees, found, (Except.ok.inj h).symm, all⟩
        · rw [run] at h
          contradiction
      · rename_i entries found
        rcases jsonEntries_cases restores (r :: ancestors) entries with ⟨trees, run, all⟩ | ⟨_, _, _, run, _⟩
        · rw [run] at h
          exact .inr ⟨entries, trees, found, (Except.ok.inj h).symm, all⟩
        · rw [run] at h
          contradiction

theorem jsonValue_scalar (depth : Nat) (ancestors : List ref) {v : JsValue ref} (flat : ∀ r, v ≠ .object r) :
    (∃ tree, (jsonValue heap depth ancestors v).1 = .ok tree ∧ Unfolds heap v tree ∧ ¬Refused heap v) ∨
    ∃ message, (jsonValue heap depth ancestors v).1 = .error (.typeError message) ∧ Refused heap v := by
  cases v with
  | object r => exact absurd rfl (flat r)
  | undefined => exact .inr ⟨_, by cases depth <;> rfl, .undefined⟩
  | other => exact .inr ⟨_, by cases depth <;> rfl, .other⟩
  | null => exact .inl ⟨.null, by cases depth <;> rfl, by rw [Unfolds], nofun⟩
  | bool b => exact .inl ⟨.bool b, by cases depth <;> rfl, by rw [Unfolds], nofun⟩
  | number n =>
    cases n with
    | finite x => exact .inl ⟨.number x, by cases depth <;> rfl, by rw [Unfolds], nofun⟩
    | infinite => exact .inr ⟨_, by cases depth <;> rfl, .infinite⟩
    | nan => exact .inr ⟨_, by cases depth <;> rfl, .nan⟩
  | string s =>
    have run : (jsonValue heap depth ancestors (.string s)).1 =
        (checkString ancestors s).1.map fun _ => .string s := by cases depth <;> rfl
    rw [run, checkString, failIf]
    by_cases spoiled : Spoiled s
    · rw [if_pos (invalidString_iff.mpr spoiled)]
      exact .inr ⟨_, rfl, .string spoiled⟩
    · rw [if_neg (mt invalidString_iff.mp spoiled)]
      refine .inl ⟨.string s, rfl, by rw [Unfolds], ?_⟩
      rintro (_ | _ | _ | _ | bad)
      exact spoiled bad

theorem jsonValue_unfolds {depth : Nat} {ancestors : List ref} {v : JsValue ref} {tree : JsonValue}
    (h : (jsonValue heap depth ancestors v).1 = .ok tree) : Unfolds heap v tree := by
  induction depth using Nat.strong_induction_on generalizing ancestors v tree with
  | _ depth ih =>
  by_cases flat : ∀ r, v ≠ .object r
  · rcases jsonValue_scalar depth ancestors flat with ⟨tree', run, unfolds, _⟩ | ⟨_, run, _⟩
    · cases Except.ok.inj (run.symm.trans h)
      exact unfolds
    · cases run.symm.trans h
  · push Not at flat
    obtain ⟨r, rfl⟩ := flat
    obtain ⟨depth, rfl, ⟨items, trees, found, rfl, all⟩ | ⟨entries, trees, found, rfl, all⟩⟩ :=
      jsonValue_object h
    · rw [Unfolds]
      refine ⟨r, items, rfl, found, unfoldsItems_iff.mpr (all.imp fun v tree run => ?_)⟩
      exact ih depth (Nat.lt_succ_self depth) run
    · rw [Unfolds]
      refine ⟨r, entries, rfl, found, unfoldsEntries_iff.mpr (all.imp fun e tree run => ⟨run.1, ?_⟩)⟩
      exact ih depth (Nat.lt_succ_self depth) run.2.2

theorem returned_child {v w : JsValue ref} (h : Returned heap v) (child : Child heap v w) :
    Returned heap w := by
  obtain ⟨depth, ancestors, tree, h⟩ := h
  cases child with
  | @item r items _ found inside =>
    obtain ⟨depth, rfl, ⟨_, trees, found', _, all⟩ | ⟨_, _, found', _⟩⟩ := jsonValue_object h
    · cases found.symm.trans found'
      obtain ⟨tree, _, run⟩ := Rows.exists_of_forall₂ all inside
      exact ⟨depth, r :: ancestors, tree, run⟩
    · cases found.symm.trans found'
  | @entry r entries key _ found inside =>
    obtain ⟨depth, rfl, ⟨_, _, found', _⟩ | ⟨_, trees, found', _, all⟩⟩ := jsonValue_object h
    · cases found.symm.trans found'
    · cases found.symm.trans found'
      obtain ⟨tree, _, _, _, run⟩ := Rows.exists_of_forall₂ all inside
      exact ⟨depth, r :: ancestors, tree.2, run⟩

theorem returned_sound {v : JsValue ref} (h : Returned heap v) : ¬Refused heap v := by
  obtain ⟨depth, ancestors, tree, h⟩ := h
  by_cases flat : ∀ r, v ≠ .object r
  · rcases jsonValue_scalar depth ancestors flat with ⟨_, _, _, sound⟩ | ⟨_, run, _⟩
    · exact sound
    · cases run.symm.trans h
  · push Not at flat
    obtain ⟨r, rfl⟩ := flat
    obtain ⟨depth, rfl, ⟨_, _, found, _⟩ | ⟨_, _, found, _, all⟩⟩ := jsonValue_object h
    · rintro (_ | _ | _ | _ | _ | ⟨found', _⟩ | found')
      · cases found.symm.trans found'
      · cases found.symm.trans found'
    · rintro (_ | _ | _ | _ | _ | ⟨found', inside, spoiled⟩ | found')
      · cases found.symm.trans found'
        obtain ⟨_, _, _, sound, _⟩ := Rows.exists_of_forall₂ all inside
        exact sound spoiled
      · cases found.symm.trans found'

theorem returned_faultless {v : JsValue ref} (h : Returned heap v) : ¬Faulty heap v := by
  rintro ⟨w, path, fault⟩
  have reached : Returned heap w := by
    clear fault
    induction path with
    | refl => exact h
    | tail _ child ih => exact returned_child ih child
  rcases fault with refused | cycle
  · exact returned_sound reached refused
  · obtain ⟨depth, ancestors, tree, run⟩ := reached
    exact unfolds_acyclic (jsonValue_unfolds run) cycle

/-- With room on the stack for every object that is not yet an ancestor, a call that throws has met
a fault. The ancestors are the objects on the path to the value. -/
theorem jsonValue_throws [Fintype ref] {depth : Nat} {ancestors : List ref} {v : JsValue ref} {e : JsError}
    (distinct : ancestors.Nodup) (room : Fintype.card ref < ancestors.length + depth)
    (path : ∀ a ∈ ancestors, TransGen (Child heap) (.object a) v)
    (h : (jsonValue heap depth ancestors v).1 = .error e) :
    (∃ message, e = .typeError message) ∧ Faulty heap v := by
  induction depth generalizing ancestors v with
  | zero =>
    have := distinct.length_le_card
    omega
  | succ depth ih =>
    by_cases flat : ∀ r, v ≠ .object r
    · rcases jsonValue_scalar (depth + 1) ancestors flat with ⟨_, run, _⟩ | ⟨message, run, refused⟩
      · cases run.symm.trans h
      · cases Except.error.inj (run.symm.trans h)
        exact ⟨⟨message, rfl⟩, v, .refl, .inl refused⟩
    · push Not at flat
      obtain ⟨r, rfl⟩ := flat
      rw [jsonValue] at h
      split at h
      · rename_i known
        cases Except.error.inj h
        exact ⟨⟨_, rfl⟩, _, .refl, .inr (path r known)⟩
      rename_i fresh
      -- the object is the newest ancestor of what it holds
      have below : ∀ {w}, Child heap (.object r) w →
          (jsonValue heap depth (r :: ancestors) w).1 = .error e →
            (∃ message, e = .typeError message) ∧ Faulty heap (.object r) := by
        intro w child thrown
        have known : ∀ a ∈ r :: ancestors, TransGen (Child heap) (.object a) w :=
          List.forall_mem_cons.mpr ⟨.single child, fun a found => (path a found).tail child⟩
        have deeper := ih (List.nodup_cons.mpr ⟨fresh, distinct⟩)
          (by rw [List.length_cons]; omega) known thrown
        exact ⟨deeper.1, deeper.2.child child⟩
      have restores := jsonValue_restores heap depth
      split at h
      · rename_i found
        cases Except.error.inj h
        exact ⟨⟨_, rfl⟩, _, .refl, .inl (.instance_ found)⟩
      · rename_i items found
        rcases jsonItems_cases restores (r :: ancestors) items with ⟨_, run, _⟩ | ⟨w, inside, e', thrown, run⟩
        · rw [run] at h
          contradiction
        · rw [run] at h
          cases Except.error.inj h
          exact below (.item found inside) thrown
      · rename_i entries found
        rcases jsonEntries_cases restores (r :: ancestors) entries with
          ⟨_, run, _⟩ | ⟨entry, inside, e', run, ⟨spoiled, rfl⟩ | thrown⟩
        · rw [run] at h
          contradiction
        · rw [run] at h
          cases Except.error.inj h
          exact ⟨⟨_, rfl⟩, _, .refl, .inl (.key found inside spoiled)⟩
        · rw [run] at h
          cases Except.error.inj h
          exact below (.entry found inside) thrown

end Calls

/-- `jsonValue` over every finite heap, given a stack for one call more than there are objects. -/
theorem json_value_lossless [Fintype ref] [DecidableEq ref] (v : JsValue ref) :
    (∀ depth ancestors w, (jsonValue heap depth ancestors w).2 = ancestors) ∧
    (∀ depth, Fintype.card ref < depth →
      (Faulty heap v → ∃ message, jsonValue heap depth [] v = (.error (.typeError message), [])) ∧
      (¬Faulty heap v → ∃ tree, jsonValue heap depth [] v = (.ok tree, []) ∧ Unfolds heap v tree)) ∧
    ∀ tree tree', Unfolds heap v tree → Unfolds heap v tree' → tree = tree' := by
  constructor
  · exact jsonValue_restores heap
  constructor
  · intro depth room
    have restored := jsonValue_restores heap depth [] v
    cases run : jsonValue heap depth [] v with
    | mk result ancestors =>
      rw [run] at restored
      dsimp only at restored
      subst restored
      cases result with
      | ok tree =>
        have returned : (jsonValue heap depth [] v).1 = .ok tree := by rw [run]
        exact ⟨fun faulty => absurd faulty (returned_faultless ⟨depth, [], tree, returned⟩),
          fun _ => ⟨tree, rfl, jsonValue_unfolds returned⟩⟩
      | error e =>
        obtain ⟨⟨message, rfl⟩, faulty⟩ := jsonValue_throws List.nodup_nil (by simpa using room) nofun
          (by rw [run] : (jsonValue heap depth [] v).1 = .error e)
        exact ⟨fun _ => ⟨message, rfl⟩, fun sound => absurd faulty sound⟩
  · intro tree tree'
    exact unfolds_unique

def knottedHeap : Fin 3 → JsObject (Fin 3)
  | 0 => .array [.object 1, .object 1]
  | 1 => .plain [(units "id", .string (units "7"))]
  | 2 => .array [.object 2]

theorem json_value_lossless_knotted :
    (∃ tree, jsonValue knottedHeap 4 [] (.object 0) = (.ok tree, []) ∧
      Unfolds knottedHeap (.object 0) tree) ∧
    ∃ message, jsonValue knottedHeap 4 [] (.object 2) = (.error (.typeError message), []) := by
  constructor
  · apply ((json_value_lossless knottedHeap (.object 0)).2.1 4 (by decide)).2
    intro faulty
    obtain ⟨message, thrown⟩ := ((json_value_lossless knottedHeap (.object 0)).2.1 4 (by decide)).1 faulty
    have returns : (jsonValue knottedHeap 4 [] (.object 0)).1.isOk = true := by decide +kernel
    rw [thrown] at returns
    exact Bool.false_ne_true returns
  · apply ((json_value_lossless knottedHeap (.object 2)).2.1 4 (by decide)).1
    exact ⟨.object 2, .refl, .inr (.single (.item rfl List.mem_cons_self))⟩

end WriteRelay.TypeScript
