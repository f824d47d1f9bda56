import WriteRelay.Spool.Invariant

/-! `ConfigureSinks`: register, reactivate and backfill the listed sinks, then
deactivate the active sinks that are not listed. -/
namespace WriteRelay.Spool
open Clock Fallible
open Sha256 (Digest)

structure SinkRegistration where
  name : String
  type : String
  configSHA256 : Digest
  deriving DecidableEq

inductive ConfigureSite
  | begin
  | inspect (name : String)
  | register (name : String)
  | registered (name : String)
  | activate (name : String)
  | backfill (name : String)
  | list
  | scan
  | closeRows
  | iterate
  | pending (name : String)
  | deactivate (name : String)
  | commit

structure ConfigureEnv where
  faults : ConfigureSite → Option String
  now : Instant

def Tables.setActive (t : Tables) (sinkID : Nat) (active : Bool) : Tables :=
  { t with sinks := Rows.update (·.sinkID = sinkID) (fun k => { k with active := active }) t.sinks }

def Tables.insertSink (t : Tables) (registration : SinkRegistration) (now : String) :
    Except SqlAbort (Tables × Nat) :=
  if t.sinks.any (fun k => k.sinkName = registration.name) then .error .uniqueSinkName
  else .ok ({ t with
    sinks := t.sinks ++ [⟨t.lastSinkID + 1, registration.name, registration.type,
      registration.configSHA256, true, now⟩]
    lastSinkID := t.lastSinkID + 1 }, t.lastSinkID + 1)

/-- Look the sink up by name; insert it, refuse it, or set it active. -/
def activateSink (env : ConfigureEnv) (registration : SinkRegistration) (t : Tables) :
    Except Failure (Tables × Nat) := do
  let name := registration.name
  attempt (env.faults (.inspect name)) (wrapf (some .durability) "%w: inspect sink %q: %v" [name])
  match t.sinks.find? (fun k => k.sinkName = name) with
  | none =>
    let wrap := wrapf (some .durability) "%w: register sink %q: %v" [name]
    attempt (env.faults (.register name)) wrap
    let registered ← statement (t.insertSink registration (formatTimestamp env.now)) wrap
    attempt (env.faults (.registered name))
      (wrapf (some .durability) "%w: inspect registered sink %q: %v" [name])
    return registered
  | some stored =>
    refuse (stored.sinkType ≠ registration.type ∨ stored.configSHA256 ≠ registration.configSHA256)
      (errorf (some .sinkConfigurationConflict)
        "%w: sink=%q; use a new sink name when changing its type or target" [name])
    attempt (env.faults (.activate name)) (wrapf (some .durability) "%w: activate sink %q: %v" [name])
    return (t.setActive stored.sinkID true, stored.sinkID)

def backfillRows (t : Tables) (sinkID : Nat) (now : String) : List DeliveryRow :=
  (t.events.filter (fun e => e.pruned = false)).map (fun e => pendingDelivery e.sequence sinkID now)

def backfillSink (env : ConfigureEnv) (name : String) (sinkID : Nat) (t : Tables) :
    Except Failure Tables := do
  let wrap := wrapf (some .durability) "%w: backfill sink %q: %v" [name]
  attempt (env.faults (.backfill name)) wrap
  statement (t.insertDeliveries (backfillRows t sinkID (formatTimestamp env.now))) wrap

def registerSink (env : ConfigureEnv) (configured : List String) (registration : SinkRegistration)
    (t : Tables) : Except Failure Tables := do
  refuse (registration.name = "" ∨ registration.type = "")
    (errorf (some .durability) "%w: sink name and type are required" [])
  refuse (registration.name ∈ configured)
    (errorf (some .durability) "%w: duplicate sink %q" [registration.name])
  let activated ← activateSink env registration t
  backfillSink env registration.name activated.2 activated.1

/-- The names seen so far, newest first, are the `configured` map. -/
def registerSinks (env : ConfigureEnv) :
    List String → List SinkRegistration → Tables → Except Failure Tables
  | _, [], t => .ok t
  | configured, registration :: rest, t =>
    registerSink env configured registration t >>=
      registerSinks env (registration.name :: configured) rest

def Tables.waitingCount (t : Tables) (sinkID : Nat) : Nat :=
  t.deliveries.countP (fun d => d.sinkID = sinkID ∧ d.state.waiting = true)

def deactivateSink (env : ConfigureEnv) (sink : SinkRow) (t : Tables) : Except Failure Tables := do
  let name := sink.sinkName
  attempt (env.faults (.pending name))
    (wrapf (some .durability) "%w: inspect sink %q deliveries: %v" [name])
  let pending := t.waitingCount sink.sinkID
  refuse (pending ≠ 0)
    (errorf none "cannot remove active sink %q with %d non-terminal deliveries"
      [name, toString pending])
  attempt (env.faults (.deactivate name))
    (wrapf (some .durability) "%w: deactivate sink %q: %v" [name])
  return t.setActive sink.sinkID false

def deactivateSinks (env : ConfigureEnv) : List SinkRow → Tables → Except Failure Tables
  | [], t => .ok t
  | sink :: rest, t => deactivateSink env sink t >>= deactivateSinks env rest

/-- The active sinks that the registrations do not name. -/
def unlisted (registrations : List SinkRegistration) (t : Tables) : List SinkRow :=
  t.sinks.filter (fun k => k.active ∧ k.sinkName ∉ registrations.map (·.name))

def configureSinks (env : ConfigureEnv) (registrations : List SinkRegistration) (t : Tables) :
    Except Failure Tables := do
  attempt (env.faults .begin) (wrapf (some .durability) "%w: begin sink configuration: %v" [])
  let t ← registerSinks env [] registrations t
  attempt (env.faults .list) (wrapf (some .durability) "%w: list active sinks: %v" [])
  attempt (env.faults .scan) (wrapf (some .durability) "%w: scan active sink: %v" [])
  attempt (env.faults .closeRows) (wrapf (some .durability) "%w: close active sink rows: %v" [])
  attempt (env.faults .iterate) (wrapf (some .durability) "%w: list active sinks: %v" [])
  let t ← deactivateSinks env (unlisted registrations t) t
  attempt (env.faults .commit) (wrapf (some .durability) "%w: commit sink configuration: %v" [])
  return t

theorem Tables.Sound.updateSinks {t : Tables} (sound : t.Sound) {f : SinkRow → SinkRow} {sinkID : Nat}
    (same : ∀ k, (f k).sinkID = k.sinkID ∧ (f k).sinkName = k.sinkName)
    (served : ∀ d ∈ t.deliveries, d.state.waiting = true → d.sinkID = sinkID →
      ∀ k ∈ t.sinks, k.sinkID = sinkID → (f k).active = true) :
    Tables.Sound { t with sinks := Rows.update (·.sinkID = sinkID) f t.sinks } := by
  have image : ∀ k ∈ t.sinks, ∃ k' ∈ Rows.update (·.sinkID = sinkID) f t.sinks,
      k'.sinkID = k.sinkID := by
    intro k hk
    refine ⟨_, Rows.mem_update.mpr ⟨k, hk, rfl⟩, ?_⟩
    split
    · exact (same k).1
    · rfl
  refine ⟨⟨sound.events.1, sound.events.2, sound.events.3, sound.events.4⟩, ⟨?_, ?_, ?_⟩,
    sound.keys, sound.ofEvent, ?_, ?_, sound.finished⟩
  · simp only [Rows.map_update_of_invariant _ (fun k => (same k).1)]
    exact sound.sinks.ids
  · intro k' hk'
    obtain ⟨k, hk, rfl⟩ := Rows.mem_update.mp hk'
    split
    · rw [(same k).1]
      exact sound.sinks.bounded k hk
    · exact sound.sinks.bounded k hk
  · simp only [Rows.map_update_of_invariant _ (fun k => (same k).2)]
    exact sound.sinks.names
  · intro d hd
    obtain ⟨k, hk, id⟩ := sound.ofSink d hd
    obtain ⟨k', hk', id'⟩ := image k hk
    exact ⟨k', hk', id'.trans id⟩
  · intro d hd waiting
    obtain ⟨k, hk, id, active⟩ := sound.served d hd waiting
    refine ⟨_, Rows.mem_update.mpr ⟨k, hk, rfl⟩, ?_⟩
    split
    · rename_i target
      have target : k.sinkID = sinkID := of_decide_eq_true target
      exact ⟨(same k).1.trans id, served d hd waiting (id.symm.trans target) k hk target⟩
    · exact ⟨id, active⟩

theorem Tables.Sound.addSink {t : Tables} (sound : t.Sound) {row : SinkRow}
    (later : t.lastSinkID < row.sinkID) (fresh : row.sinkName ∉ t.sinks.map (·.sinkName)) :
    Tables.Sound { t with sinks := t.sinks ++ [row], lastSinkID := row.sinkID } := by
  have newID : row.sinkID ∉ t.sinks.map (·.sinkID) := by
    intro h
    obtain ⟨k, hk, same⟩ := List.mem_map.mp h
    have := sound.sinks.bounded k hk
    omega
  refine ⟨⟨sound.events.1, sound.events.2, sound.events.3, sound.events.4⟩, ⟨?_, ?_, ?_⟩,
    sound.keys, sound.ofEvent, ?_, ?_, sound.finished⟩
  · rw [List.map_append]
    exact sound.sinks.ids.append (by simp) (by simpa using newID)
  · simp only [List.mem_append, List.mem_singleton]
    rintro k (hk | rfl)
    · exact (sound.sinks.bounded k hk).trans later.le
    · exact le_rfl
  · rw [List.map_append]
    exact sound.sinks.names.append (by simp) (by simpa using fresh)
  · intro d hd
    obtain ⟨k, hk, id⟩ := sound.ofSink d hd
    exact ⟨k, List.mem_append_left _ hk, id⟩
  · intro d hd waiting
    obtain ⟨k, hk, id, active⟩ := sound.served d hd waiting
    exact ⟨k, List.mem_append_left _ hk, id, active⟩

/-- Covered but for the one sink that is about to be backfilled. -/
def Tables.CoveredBut (t : Tables) (exempt : Nat) : Prop :=
  ∀ sinkID, sinkID ≠ exempt → t.Active sinkID → ∀ e ∈ t.events, e.pruned = false →
    (e.sequence, sinkID) ∈ t.deliveries.map (·.key)

def ConfigureEnv.due (env : ConfigureEnv) (at_ : Instant) : Prop := at_ = env.now

theorem setActive_grows {times : Instant → Prop} (t : Tables) (sinkID : Nat) (active : Bool) :
    t.Grows times (t.setActive sinkID active) where
  events e he := ⟨e, he, .inl rfl⟩
  newer e he := .inl ⟨e, he, .inl rfl⟩
  sequence := le_rfl
  sinks k hk := by
    refine ⟨_, Rows.mem_update.mpr ⟨k, hk, rfl⟩, ?_⟩
    split <;> rfl
  deliveries _ hd := List.mem_map_of_mem hd
  kept _ hd := hd
  added _ hd := .inl hd

theorem addSink_grows {times : Instant → Prop} (t : Tables) (row : SinkRow) :
    t.Grows times { t with sinks := t.sinks ++ [row], lastSinkID := row.sinkID } where
  events e he := ⟨e, he, .inl rfl⟩
  newer e he := .inl ⟨e, he, .inl rfl⟩
  sequence := le_rfl
  sinks k hk := ⟨k, List.mem_append_left _ hk, rfl⟩
  deliveries _ hd := List.mem_map_of_mem hd
  kept _ hd := hd
  added _ hd := .inl hd

theorem setActive_active {t : Tables} {sinkID other : Nat} {active : Bool}
    (h : (t.setActive sinkID active).Active other) : other = sinkID ∧ active = true ∨ t.Active other := by
  obtain ⟨k', hk', id, on⟩ := h
  obtain ⟨k, hk, rfl⟩ := Rows.mem_update.mp hk'
  by_cases target : k.sinkID = sinkID
  · simp only [target, decide_true, if_true] at id on
    exact .inl ⟨id.symm, on⟩
  · simp only [target, decide_false, Bool.false_eq_true, if_false] at id on
    exact .inr ⟨k, hk, id, on⟩

theorem activateSink_spec (env : ConfigureEnv) (registration : SinkRegistration) {t : Tables}
    (valid : t.Valid) :
    Ensures (activateSink env registration t)
      (fun r => r.1.Sound ∧ r.1.CoveredBut r.2 ∧ r.1.Active r.2 ∧ t.Grows env.due r.1 ∧ t.LogKept r.1)
      Failure.Unraised := by
  unfold activateSink
  refine attempt_unraised.bind fun _ _ => ?_
  cases found : t.sinks.find? (fun k => k.sinkName = registration.name) with
  | none =>
    refine attempt_unraised.bind fun _ _ => ?_
    have unknown : ∀ k ∈ t.sinks, k.sinkName ≠ registration.name := by
      simpa [List.find?_eq_none] using found
    have fresh : t.sinks.any (fun k => k.sinkName = registration.name) = false := by
      simpa [List.any_eq_false] using unknown
    simp only [Tables.insertSink, fresh, Bool.false_eq_true, if_false]
    refine attempt_unraised.bind fun _ _ => ⟨?_, ?_, ?_, addSink_grows _ _, .of_eq rfl rfl⟩
    · exact valid.sound.addSink (Nat.lt_succ_self _) (by simpa using unknown)
    · rintro sinkID other ⟨k, hk, id, active⟩ e he retained
      rcases List.mem_append.mp hk with hk | hk
      · exact valid.covered sinkID ⟨k, hk, id, active⟩ e he retained
      · cases List.mem_singleton.mp hk
        exact absurd id.symm other
    · exact ⟨_, List.mem_append_right _ (List.mem_singleton_self _), rfl, rfl⟩
  | some stored =>
    have member := List.mem_of_find?_eq_some found
    refine refuse_unraised.bind fun _ _ => attempt_unraised.bind fun _ _ => ?_
    refine ⟨?_, ?_, ?_, setActive_grows _ _ _, .of_eq rfl rfl⟩
    · exact valid.sound.updateSinks (fun k => ⟨rfl, rfl⟩) (fun _ _ _ _ _ _ _ => rfl)
    · intro sinkID other active e he retained
      rcases setActive_active active with ⟨same, _⟩ | active
      · contradiction
      · exact valid.covered sinkID active e he retained
    · refine ⟨_, Rows.mem_update.mpr ⟨stored, member, rfl⟩, ?_⟩
      simp

theorem backfillRows_admitted {t : Tables} {sinkID : Nat} {now : String} (active : t.Active sinkID)
    {row : DeliveryRow} (hrow : row ∈ backfillRows t sinkID now) : t.Admits row := by
  obtain ⟨e, he, rfl⟩ := List.mem_map.mp hrow
  obtain ⟨he, retained⟩ := List.mem_filter.mp he
  exact ⟨Tables.retained_iff.mpr ⟨e, he, rfl, of_decide_eq_true retained⟩, active⟩

theorem backfillSink_spec (env : ConfigureEnv) (name : String) {sinkID : Nat} {t : Tables}
    (sound : t.Sound) (covered : t.CoveredBut sinkID) (active : t.Active sinkID) :
    Ensures (backfillSink env name sinkID t)
      (fun t' => t'.Valid ∧ t.Grows env.due t' ∧ t.LogKept t')
      Failure.Unraised := by
  unfold backfillSink
  refine attempt_unraised.bind fun _ _ => ?_
  generalize rows_eq : backfillRows t sinkID _ = rows
  have admitted : ∀ row ∈ rows, t.Admits row := fun row hrow =>
    backfillRows_admitted active (rows_eq ▸ hrow)
  have dated : ∀ row ∈ rows, ∃ at_, env.due at_ ∧
      row = pendingDelivery row.eventSequence row.sinkID (formatTimestamp at_) := by
    intro row hrow
    rw [← rows_eq] at hrow
    obtain ⟨e, _, rfl⟩ := List.mem_map.mp hrow
    exact ⟨_, rfl, rfl⟩
  obtain ⟨inserted, after⟩ := sound.insertDeliveries admitted
  rw [inserted]
  refine ⟨⟨after, ?_⟩, Tables.grows_insertDeliveries (fun row hrow => (admitted row hrow).1) dated,
    .of_eq rfl rfl⟩
  intro other active' e he retained
  rw [Rows.mem_keepAll_key]
  by_cases same : other = sinkID
  · subst same
    rw [← rows_eq, backfillRows]
    exact .inr (List.mem_map.mpr ⟨_, List.mem_map.mpr
      ⟨e, List.mem_filter.mpr ⟨he, decide_eq_true retained⟩, rfl⟩, rfl⟩)
  · exact .inl (covered other same active' e he retained)

theorem registerSink_spec (env : ConfigureEnv) (configured : List String)
    (registration : SinkRegistration) {t : Tables} (valid : t.Valid) :
    Ensures (registerSink env configured registration t)
      (fun t' => t'.Valid ∧ t.Grows env.due t' ∧ t.LogKept t') Failure.Unraised := by
  unfold registerSink
  refine refuse_unraised.bind fun _ _ => refuse_unraised.bind fun _ _ => ?_
  refine (activateSink_spec env registration valid).bind ?_
  rintro ⟨t', sinkID⟩ ⟨sound, covered, active, grown, kept⟩
  refine (backfillSink_spec env registration.name sound covered active).mono ?_ (fun _ h => h)
  rintro t'' ⟨valid', grown', kept'⟩
  exact ⟨valid', grown.trans grown', kept.trans kept'⟩

theorem registerSinks_spec (env : ConfigureEnv) (configured : List String)
    (registrations : List SinkRegistration) {t : Tables} (valid : t.Valid) :
    Ensures (registerSinks env configured registrations t)
      (fun t' => t'.Valid ∧ t.Grows env.due t' ∧ t.LogKept t') Failure.Unraised := by
  induction registrations generalizing configured t with
  | nil => exact ⟨valid, .refl t, .of_eq rfl rfl⟩
  | cons registration rest ih =>
    refine (registerSink_spec env configured registration valid).bind ?_
    rintro t' ⟨valid', grown, kept⟩
    refine (ih (registration.name :: configured) valid').mono ?_ (fun _ h => h)
    rintro t'' ⟨valid'', grown', kept'⟩
    exact ⟨valid'', grown.trans grown', kept.trans kept'⟩

theorem deactivateSink_spec (env : ConfigureEnv) (sink : SinkRow) {t : Tables} (valid : t.Valid) :
    Ensures (deactivateSink env sink t) (fun t' => t'.Valid ∧ t.Grows env.due t' ∧ t.LogKept t')
      Failure.Unraised := by
  unfold deactivateSink
  refine attempt_unraised.bind fun _ _ => refuse_unraised.bind fun _ idle => ?_
  have idle : ∀ d ∈ t.deliveries, d.sinkID = sink.sinkID → d.state.waiting = false := by
    simpa [Tables.waitingCount, List.countP_eq_zero] using idle
  refine attempt_unraised.bind fun _ _ => ⟨⟨?_, ?_⟩, setActive_grows _ _ _, .of_eq rfl rfl⟩
  · refine valid.sound.updateSinks (fun k => ⟨rfl, rfl⟩) ?_
    intro d hd waiting same
    rw [idle d hd same] at waiting
    contradiction
  · intro other active e he retained
    rcases setActive_active active with ⟨_, on⟩ | active
    · contradiction
    · exact valid.covered other active e he retained

theorem deactivateSinks_spec (env : ConfigureEnv) (sinks : List SinkRow) {t : Tables}
    (valid : t.Valid) :
    Ensures (deactivateSinks env sinks t) (fun t' => t'.Valid ∧ t.Grows env.due t' ∧ t.LogKept t')
      Failure.Unraised := by
  induction sinks generalizing t with
  | nil => exact ⟨valid, .refl t, .of_eq rfl rfl⟩
  | cons sink rest ih =>
    refine (deactivateSink_spec env sink valid).bind ?_
    rintro t' ⟨valid', grown, kept⟩
    refine (ih valid').mono ?_ (fun _ h => h)
    rintro t'' ⟨valid'', grown', kept'⟩
    exact ⟨valid'', grown.trans grown', kept.trans kept'⟩

theorem configureSinks_spec (env : ConfigureEnv) (registrations : List SinkRegistration) {t : Tables}
    (valid : t.Valid) :
    Ensures (configureSinks env registrations t)
      (fun t' => t'.Valid ∧ t.Grows env.due t' ∧ t.LogKept t') Failure.Unraised := by
  unfold configureSinks
  refine attempt_unraised.bind fun _ _ => ?_
  refine (registerSinks_spec env [] registrations valid).bind ?_
  rintro t' ⟨valid', grown, kept⟩
  refine attempt_unraised.bind fun _ _ => attempt_unraised.bind fun _ _ => ?_
  refine attempt_unraised.bind fun _ _ => attempt_unraised.bind fun _ _ => ?_
  refine (deactivateSinks_spec env (unlisted registrations t') valid').bind ?_
  rintro t'' ⟨valid'', grown', kept'⟩
  exact attempt_unraised.bind fun _ _ => ⟨valid'', grown.trans grown', kept.trans kept'⟩

end WriteRelay.Spool
