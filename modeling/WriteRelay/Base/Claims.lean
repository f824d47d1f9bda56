import WriteRelay.Base.Runs

/-! A table with a unique key under concurrent transactions. A transaction inserts at
most one row, an insertion waits for every other holder of its key, and a commit takes
effect as a whole; a transaction with a failed statement can only be rolled back. -/
namespace Claims
open Runs

variable {ι κ δ ω : Type}

inductive Status
  | active
  | committing
  | committed
  | rolledBack
  deriving DecidableEq

def Status.unsent (s : Status) : Prop := s = .active ∨ s = .rolledBack

def Status.live (s : Status) : Prop := s = .active ∨ s = .committing

structure Tx (κ δ ω : Type) where
  status : Status
  aborted : Bool
  claim : Option (κ × δ)
  writes : List ω

def Tx.begin : Tx κ δ ω := ⟨.active, false, none, []⟩

def Tx.usable (tx : Tx κ δ ω) : Prop := tx.status.live ∧ tx.aborted = false

def Tx.holds (tx : Tx κ δ ω) (k : κ) : Prop := tx.usable ∧ ∃ d, tx.claim = some (k, d)

structure Commit (ι κ δ ω : Type) where
  owner : ι
  claim : Option (κ × δ)
  writes : List ω

/-- The committed rows, the transactions, and what each commit made durable. -/
structure Store (ι κ δ ω : Type) where
  rows : List (κ × δ)
  commits : List (Commit ι κ δ ω)
  txs : ι → Option (Tx κ δ ω)

def Store.empty : Store ι κ δ ω := ⟨[], [], fun _ => none⟩

/-- No conflicting row, committed or in flight. -/
def Store.free (s : Store ι κ δ ω) (k : κ) : Prop :=
  k ∉ s.rows.map Prod.fst ∧ ∀ i tx, s.txs i = some tx → ¬tx.holds k

variable [DecidableEq ι]

def Store.put (s : Store ι κ δ ω) (i : ι) (tx : Tx κ δ ω) : Store ι κ δ ω :=
  { s with txs := Function.update s.txs i (some tx) }

def Store.commit (s : Store ι κ δ ω) (i : ι) (tx : Tx κ δ ω) : Store ι κ δ ω where
  rows := s.rows ++ tx.claim.toList
  commits := s.commits ++ [⟨i, tx.claim, tx.writes⟩]
  txs := Function.update s.txs i (some { tx with status := .committed })

inductive Step (s : Store ι κ δ ω) : Store ι κ δ ω → Prop
  | begin (i : ι) : s.txs i = none → Step s (s.put i .begin)
  | insert (i : ι) (tx : Tx κ δ ω) (k : κ) (d : δ) : s.txs i = some tx → tx.usable →
      tx.claim = none → s.free k → Step s (s.put i { tx with claim := some (k, d) })
  | write (i : ι) (tx : Tx κ δ ω) (w : ω) : s.txs i = some tx → tx.usable →
      Step s (s.put i { tx with writes := tx.writes ++ [w] })
  | abort (i : ι) (tx : Tx κ δ ω) : s.txs i = some tx → tx.status.live →
      Step s (s.put i { tx with aborted := true })
  | send (i : ι) (tx : Tx κ δ ω) : s.txs i = some tx → tx.status = .active →
      Step s (s.put i { tx with status := .committing })
  | commit (i : ι) (tx : Tx κ δ ω) : s.txs i = some tx → tx.status = .committing →
      tx.aborted = false → Step s (s.commit i tx)
  | rollback (i : ι) (tx : Tx κ δ ω) : s.txs i = some tx → tx.status.live →
      Step s (s.put i { tx with status := .rolledBack })

def system : System (Store ι κ δ ω) where
  init s := s = .empty
  step := Step

structure Inv (s : Store ι κ δ ω) : Prop where
  keys : (s.rows.map Prod.fst).Nodup
  held : ∀ i tx k, s.txs i = some tx → tx.holds k → k ∉ s.rows.map Prod.fst
  alone : ∀ i j tx tx' k, s.txs i = some tx → s.txs j = some tx' → tx.holds k → tx'.holds k → i = j
  rows : s.rows = s.commits.filterMap (·.claim)
  once : (s.commits.map (·.owner)).Nodup
  logged : ∀ c ∈ s.commits, ∃ tx, s.txs c.owner = some tx ∧ tx.status = .committed ∧
    c = ⟨c.owner, tx.claim, tx.writes⟩
  complete : ∀ i tx, s.txs i = some tx → tx.status = .committed →
    ⟨i, tx.claim, tx.writes⟩ ∈ s.commits

omit [DecidableEq ι] in
theorem inv_empty : Inv (Store.empty : Store ι κ δ ω) := by
  constructor <;> simp [Store.empty]

theorem put_cases {s : Store ι κ δ ω} {i j : ι} {tx tx' : Tx κ δ ω}
    (h : (s.put i tx).txs j = some tx') : j = i ∧ tx' = tx ∨ j ≠ i ∧ s.txs j = some tx' := by
  simp only [Store.put, Function.update_apply] at h
  split at h
  · rename_i here
    exact .inl ⟨here, (Option.some.inj h).symm⟩
  · rename_i there
    exact .inr ⟨there, h⟩

/-- A change of one open transaction that claims no key it did not hold, unless the key
is free. -/
theorem Inv.put {s : Store ι κ δ ω} (inv : Inv s) {i : ι} {tx : Tx κ δ ω}
    (before : ∀ old, s.txs i = some old → old.status ≠ .committed) (after : tx.status ≠ .committed)
    (held : ∀ k, tx.holds k → s.free k ∨ ∃ old, s.txs i = some old ∧ old.holds k) :
    Inv (s.put i tx) := by
  have fresh : ∀ k, tx.holds k → k ∉ s.rows.map Prod.fst := by
    intro k holds
    rcases held k holds with free | ⟨old, hold, holds⟩
    · exact free.1
    · exact inv.held i old k hold holds
  have only : ∀ j tx' k, j ≠ i → s.txs j = some tx' → tx.holds k → ¬tx'.holds k := by
    intro j tx' k there htx' holds holds'
    rcases held k holds with free | ⟨old, hold, holds⟩
    · exact free.2 j tx' htx' holds'
    · exact there (inv.alone j i tx' old k htx' hold holds' holds)
  refine ⟨inv.keys, ?_, ?_, inv.rows, inv.once, ?_, ?_⟩
  · intro j tx' k htx' holds
    rcases put_cases htx' with ⟨rfl, rfl⟩ | ⟨_, htx'⟩
    · exact fresh k holds
    · exact inv.held j tx' k htx' holds
  · intro j j' tx₁ tx₂ k h₁ h₂ holds₁ holds₂
    rcases put_cases h₁ with ⟨rfl, rfl⟩ | ⟨there, old₁⟩
    · rcases put_cases h₂ with ⟨rfl, rfl⟩ | ⟨there, old₂⟩
      · rfl
      · exact absurd holds₂ (only j' tx₂ k there old₂ holds₁)
    · rcases put_cases h₂ with ⟨rfl, rfl⟩ | ⟨_, old₂⟩
      · exact absurd holds₁ (only j tx₁ k there old₁ holds₂)
      · exact inv.alone j j' tx₁ tx₂ k old₁ old₂ holds₁ holds₂
  · intro c hc
    obtain ⟨tx', htx', committed, entry⟩ := inv.logged c hc
    have there : c.owner ≠ i := fun here => before tx' (here ▸ htx') committed
    exact ⟨tx', (Function.update_of_ne there _ _).trans htx', committed, entry⟩
  · intro j tx' htx' committed
    rcases put_cases htx' with ⟨rfl, rfl⟩ | ⟨_, htx'⟩
    · exact absurd committed after
    · exact inv.complete j tx' htx' committed

theorem Inv.commit {s : Store ι κ δ ω} (inv : Inv s) {i : ι} {tx : Tx κ δ ω}
    (htx : s.txs i = some tx) (status : tx.status = .committing) (sound : tx.aborted = false) :
    Inv (s.commit i tx) := by
  have usable : tx.usable := ⟨.inr status, sound⟩
  have fresh : ∀ r ∈ tx.claim.toList, r.1 ∉ s.rows.map Prod.fst := by
    intro r hr
    exact inv.held i tx r.1 htx ⟨usable, r.2, Option.mem_toList.mp hr⟩
  have unlogged : i ∉ s.commits.map (·.owner) := by
    intro member
    obtain ⟨c, hc, rfl⟩ := List.mem_map.mp member
    obtain ⟨tx', htx', committed, _⟩ := inv.logged c hc
    cases htx.symm.trans htx'
    exact absurd (status.symm.trans committed) nofun
  have found : ∀ j tx', (s.commit i tx).txs j = some tx' →
      j = i ∧ tx' = { tx with status := .committed } ∨ j ≠ i ∧ s.txs j = some tx' :=
    fun j tx' h => put_cases (s := s) h
  have ended : ∀ k, ¬Tx.holds { tx with status := .committed } k := by
    rintro k ⟨⟨active | committing, _⟩, _⟩ <;> contradiction
  refine ⟨?_, ?_, ?_, ?_, ?_, ?_, ?_⟩
  · rw [Store.commit, List.map_append]
    refine inv.keys.append ?_ ?_
    · cases tx.claim <;> simp
    · intro k known new
      obtain ⟨r, hr, rfl⟩ := List.mem_map.mp new
      exact fresh r hr known
  · intro j tx' k htx' holds
    rcases found j tx' htx' with ⟨rfl, rfl⟩ | ⟨there, old⟩
    · exact absurd holds (ended k)
    · intro member
      rw [Store.commit, List.map_append, List.mem_append] at member
      rcases member with known | new
      · exact inv.held j tx' k old holds known
      · obtain ⟨r, hr, rfl⟩ := List.mem_map.mp new
        -- the committed claim was held until now, so nobody else holds it
        exact there (inv.alone j i tx' tx r.1 old htx holds ⟨usable, r.2, Option.mem_toList.mp hr⟩)
  · intro j j' tx₁ tx₂ k h₁ h₂ holds₁ holds₂
    rcases found j tx₁ h₁ with ⟨_, rfl⟩ | ⟨_, old₁⟩
    · exact absurd holds₁ (ended k)
    · rcases found j' tx₂ h₂ with ⟨_, rfl⟩ | ⟨_, old₂⟩
      · exact absurd holds₂ (ended k)
      · exact inv.alone j j' tx₁ tx₂ k old₁ old₂ holds₁ holds₂
  · rw [Store.commit, inv.rows, List.filterMap_append]
    cases tx.claim <;> simp
  · rw [Store.commit, List.map_append]
    exact inv.once.append (by simp) (by simpa using unlogged)
  · intro c hc
    rcases List.mem_append.mp hc with old | new
    · obtain ⟨tx', htx', committed, entry⟩ := inv.logged c old
      have there : c.owner ≠ i := fun here => unlogged (here ▸ List.mem_map_of_mem old)
      exact ⟨tx', (Function.update_of_ne there _ _).trans htx', committed, entry⟩
    · cases List.mem_singleton.mp new
      exact ⟨_, Function.update_self _ _ _, rfl, rfl⟩
  · intro j tx' htx' committed
    rcases found j tx' htx' with ⟨rfl, rfl⟩ | ⟨_, old⟩
    · exact List.mem_append_right _ (List.mem_singleton_self _)
    · exact List.mem_append_left _ (inv.complete j tx' old committed)

theorem live_not_committed {s : Status} (h : s.live) : s ≠ .committed := by
  rintro rfl
  rcases h with h | h <;> contradiction

theorem Inv.step {s t : Store ι κ δ ω} (inv : Inv s) (h : Step s t) : Inv t := by
  -- a change of one open transaction keeps or drops the key it holds
  have change : ∀ {i : ι} {old tx : Tx κ δ ω}, s.txs i = some old → old.status.live →
      tx.status ≠ .committed → (∀ k, tx.holds k → s.free k ∨ old.holds k) → Inv (s.put i tx) := by
    intro i old tx hold live after held
    refine inv.put ?_ after fun k holds => (held k holds).imp_right fun holds => ⟨old, hold, holds⟩
    intro old' hold'
    cases hold.symm.trans hold'
    exact live_not_committed live
  cases h with
  | begin i new =>
    refine inv.put (fun old hold => ?_) nofun ?_
    · rw [new] at hold
      contradiction
    · rintro k ⟨_, d, claim⟩
      contradiction
  | insert i tx k d htx usable none free =>
    refine change htx usable.1 (live_not_committed usable.1) ?_
    rintro k' ⟨_, d', claim⟩
    cases claim
    exact .inl free
  | write i tx w htx usable =>
    exact change htx usable.1 (live_not_committed usable.1) fun k holds => .inr holds
  | abort i tx htx live =>
    refine change htx live (live_not_committed live) ?_
    rintro k ⟨⟨_, sound⟩, _⟩
    contradiction
  | send i tx htx active =>
    refine change htx (.inl active) nofun ?_
    rintro k ⟨⟨_, sound⟩, claimed⟩
    exact .inr ⟨⟨.inl active, sound⟩, claimed⟩
  | commit i tx htx status sound => exact inv.commit htx status sound
  | rollback i tx htx live =>
    refine change htx live nofun ?_
    rintro k ⟨⟨active | committing, _⟩, _⟩ <;> contradiction

theorem system_inv {s : Store ι κ δ ω} (h : system.Reachable s) : Inv s := by
  refine system.invariant Inv ?_ (fun _ _ _ inv step => inv.step step) h
  rintro _ rfl
  exact inv_empty

omit [DecidableEq ι] in
theorem Inv.unique {s : Store ι κ δ ω} (inv : Inv s) {a b : Commit ι κ δ ω} (ha : a ∈ s.commits)
    (hb : b ∈ s.commits) {k : κ} {d d' : δ} (claim : a.claim = some (k, d))
    (claim' : b.claim = some (k, d')) : a = b := by
  have keys := inv.keys
  rw [inv.rows, List.Nodup, List.pairwise_map, List.pairwise_filterMap] at keys
  have symmetric : Std.Symm (fun a b : Commit ι κ δ ω => ∀ r, a.claim = some r →
      ∀ r', b.claim = some r' → r.1 ≠ r'.1) := ⟨fun _ _ h r hr r' hr' => (h r' hr' r hr).symm⟩
  by_contra different
  exact keys.forall ha hb different _ claim _ claim' rfl

def Store.claims [DecidableEq κ] (s : Store ι κ δ ω) (k : κ) : List (Commit ι κ δ ω) :=
  s.commits.filter (fun c => c.claim.map Prod.fst = some k)

omit [DecidableEq ι] in
theorem mem_claims [DecidableEq κ] {s : Store ι κ δ ω} {k : κ} {c : Commit ι κ δ ω} :
    c ∈ s.claims k ↔ c ∈ s.commits ∧ ∃ d, c.claim = some (k, d) := by
  simp [Store.claims]

omit [DecidableEq ι] in
theorem Inv.claims_length [DecidableEq κ] {s : Store ι κ δ ω} (inv : Inv s) (k : κ) :
    (s.claims k).length ≤ 1 := by
  have distinct : (s.claims k).Nodup := (List.Nodup.of_map _ inv.once).filter _
  have same : ∀ a ∈ s.claims k, ∀ b ∈ s.claims k, a = b := by
    intro a ha b hb
    obtain ⟨ha, _, claim⟩ := mem_claims.mp ha
    obtain ⟨hb, _, claim'⟩ := mem_claims.mp hb
    exact inv.unique ha hb claim claim'
  cases found : s.claims k with
  | nil => exact Nat.zero_le 1
  | cons a rest =>
    cases rest with
    | nil => exact le_rfl
    | cons b rest =>
      rw [found] at distinct same
      have equal := same a List.mem_cons_self b (List.mem_cons_of_mem _ List.mem_cons_self)
      exact absurd (equal ▸ List.mem_cons_self) (List.nodup_cons.mp distinct).1

omit [DecidableEq ι] in
theorem Inv.exists_claim [DecidableEq κ] {s : Store ι κ δ ω} (inv : Inv s) {k : κ}
    (row : k ∈ s.rows.map Prod.fst) : ∃ c, c ∈ s.claims k := by
  rw [inv.rows] at row
  obtain ⟨⟨_, d⟩, member, rfl⟩ := List.mem_map.mp row
  obtain ⟨c, hc, claim⟩ := List.mem_filterMap.mp member
  exact ⟨c, mem_claims.mpr ⟨hc, d, claim⟩⟩

end Claims
