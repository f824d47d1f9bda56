import WriteRelay.Spool.Invariant

/-! `Prune`: replace delivered payloads by the empty blob, in one transaction. -/
namespace WriteRelay.Spool
open Clock Fallible

/-- A zero `Before` is Go's zero time. -/
structure PruneOptions where
  before : Instant
  limit : Int
  dryRun : Bool

structure PruneEntry where
  sequence : Nat
  source : String
  id : String
  payloadBytes : Nat
  deriving DecidableEq

structure PruneResult where
  dryRun : Bool
  before : Instant
  limit : Int
  events : Nat
  payloadBytes : Nat
  entries : List PruneEntry
  deriving DecidableEq

inductive PruneSite
  | inspect
  | open
  | begin
  | schema
  | journal
  | select
  | update (index : Nat)
  | rowsAffected (index : Nat)
  | commit

structure PruneEnv where
  faults : PruneSite → Option String
  now : Instant

def zeroTime : Instant := -62135596800000000000

/-- The WHERE clause of the candidate query. -/
def prunable (t : Tables) (cutoff : String) (e : EventRow) : Bool :=
  e.pruned = false ∧ (t.deliveriesOf e.sequence).isEmpty = false ∧
    (t.deliveriesOf e.sequence).all (fun d => d.state = .delivered ∧
      d.deliveredAt.any (fun at_ => at_ < cutoff)) = true

/-- Events are listed by sequence, so the query is a filter and a prefix. -/
def pruneCandidates (t : Tables) (cutoff : String) (limit : Nat) : List PruneEntry :=
  ((t.events.filter (prunable t cutoff)).take limit).map
    (fun e => ⟨e.sequence, e.source, e.id, e.payload.length⟩)

def pruneTarget (sequence : Nat) (e : EventRow) : Bool := e.sequence = sequence ∧ e.pruned = false

def prunePayload (env : PruneEnv) (index : Nat) (entry : PruneEntry) (t : Tables) :
    Except Failure Tables := do
  let wrap := wrapf none "prune payload: %w" []
  attempt (env.faults (.update index)) wrap
  let updated ← statement (t.updateEvents (pruneTarget entry.sequence)
    (·.prune (formatTimestamp env.now))) wrap
  attempt (env.faults (.rowsAffected index))
    (wrapf none "prune changed %d rows, expected one (error=%v)" [toString updated.2])
  refuse (updated.2 ≠ 1)
    (errorf none "prune changed %d rows, expected one (error=%v)" [toString updated.2, "<nil>"])
  return updated.1

def prunePayloads (env : PruneEnv) : Nat → List PruneEntry → Tables → Except Failure Tables
  | _, [], t => .ok t
  | index, entry :: rest, t =>
    prunePayload env index entry t >>= prunePayloads env (index + 1) rest

def applyPrune (env : PruneEnv) (options : PruneOptions) (entries : List PruneEntry) (t : Tables) :
    Except Failure Tables :=
  if options.dryRun then .ok t else prunePayloads env 0 entries t

def prune (env : PruneEnv) (options : PruneOptions) (t : Tables) :
    Except Failure (Tables × PruneResult) := do
  refuse (options.before = zeroTime ∨ env.now < options.before)
    (errorf none "prune cutoff must be a non-zero timestamp no later than now" [])
  refuse (options.limit < 1 ∨ 1000 < options.limit)
    (errorf none "prune limit must be between 1 and 1000" [])
  attempt (env.faults .inspect) (wrapf none "inspect existing spool for prune: %w" [])
  attempt (env.faults .open) (wrapf none "open spool for prune: %w" [])
  attempt (env.faults .begin) (wrapf none "begin prune transaction: %w" [])
  attempt (env.faults .schema) (wrapf none "read prune schema: %w" [])
  attempt (env.faults .journal) (wrapf none "prune requires a WAL spool (mode=%q, error=%v)" [])
  attempt (env.faults .select) (wrapf none "select prune candidates: %w" [])
  let entries := pruneCandidates t (formatTimestamp options.before) options.limit.toNat
  let t' ← applyPrune env options entries t
  attempt (env.faults .commit) (wrapf none "commit prune transaction: %w" [])
  return (t', ⟨options.dryRun, options.before, options.limit, entries.length,
    (entries.map (·.payloadBytes)).sum, entries⟩)

def Tables.pruneEvent (t : Tables) (sequence : Nat) (now : String) : Tables :=
  { t with events := Rows.update (pruneTarget sequence) (·.prune now) t.events }

/-- A retained event whose deliveries all succeeded, the prune query's condition
without its cutoff. -/
def Tables.Settled (t : Tables) (sequence : Nat) : Prop :=
  t.retained sequence = true ∧ t.deliveriesOf sequence ≠ [] ∧
    ∀ d ∈ t.deliveriesOf sequence, d.Succeeded

theorem pruneEvent_becomes {t : Tables} {sequence : Nat} {now : String} {e' : EventRow}
    (h : e' ∈ (t.pruneEvent sequence now).events) : ∃ e ∈ t.events, e.Becomes e' ∧
      (e' = e ∨ e.sequence = sequence ∧ e'.pruned = true ∧ e'.payload = []) := by
  obtain ⟨e, he, rfl⟩ := Rows.mem_update.mp h
  refine ⟨e, he, ?_⟩
  split
  · rename_i target
    simp only [pruneTarget, decide_eq_true_eq] at target
    exact ⟨.inr ⟨target.2, now, rfl⟩, .inr ⟨target.1, rfl, rfl⟩⟩
  · exact ⟨.inl rfl, .inl rfl⟩

theorem pruneEvent_grows {times : Instant → Prop} (t : Tables) (sequence : Nat) (now : String) :
    t.Grows times (t.pruneEvent sequence now) where
  events e he := by
    refine ⟨_, Rows.mem_update.mpr ⟨e, he, rfl⟩, ?_⟩
    split
    · rename_i target
      simp only [pruneTarget, decide_eq_true_eq] at target
      exact .inr ⟨target.2, now, rfl⟩
    · exact .inl rfl
  newer e he := by
    obtain ⟨r, hr, became, _⟩ := pruneEvent_becomes he
    exact .inl ⟨r, hr, became⟩
  sequence := le_rfl
  sinks k hk := ⟨k, hk, rfl⟩
  deliveries _ hd := List.mem_map_of_mem hd
  kept _ hd := hd
  added _ hd := .inl hd

theorem pruneEvent_logKept (t : Tables) (sequence : Nat) (now : String) :
    t.LogKept (t.pruneEvent sequence now) := by
  refine ⟨?_, rfl⟩
  rw [Tables.pruneEvent, Rows.update, List.forall₂_map_right_iff, List.forall₂_same]
  intro e _
  split
  · rename_i target
    simp only [pruneTarget, decide_eq_true_eq] at target
    exact .inr ⟨target.2, now, rfl⟩
  · exact .inl rfl

theorem Tables.Valid.pruneEvent {t : Tables} (valid : t.Valid) {sequence : Nat}
    (settled : t.Settled sequence) (now : String) : (t.pruneEvent sequence now).Valid := by
  have sound := valid.sound
  have sequences : (t.pruneEvent sequence now).events.map (·.sequence) = t.events.map (·.sequence) :=
    Rows.map_update_of_invariant (f := fun e : EventRow => e.prune now) _ (fun _ => rfl) _
  have identities : (t.pruneEvent sequence now).events.map (·.identity) = t.events.map (·.identity) :=
    Rows.map_update_of_invariant (f := fun e : EventRow => e.prune now) _ (fun _ => rfl) _
  have grown : t.Grows (fun _ => False) (t.pruneEvent sequence now) := pruneEvent_grows t sequence now
  refine ⟨⟨⟨?_, ?_, ?_, ?_⟩, ⟨sound.sinks.1, sound.sinks.2, sound.sinks.3⟩, sound.keys, ?_,
    sound.ofSink, sound.served, ?_⟩, ?_⟩
  · rw [sequences]
    exact sound.events.ordered
  · intro e' he'
    obtain ⟨e, he, became, _⟩ := pruneEvent_becomes he'
    rw [became.sequence]
    exact sound.events.bounded e he
  · rw [identities]
    exact sound.events.identities
  · intro e' he'
    obtain ⟨e, he, _, rfl | ⟨_, pruned, empty⟩⟩ := pruneEvent_becomes he'
    · exact sound.events.intact e' he
    · rw [EventRow.Intact, if_pos pruned]
      exact empty
  · intro d hd
    obtain ⟨e, he, same⟩ := sound.ofEvent d hd
    obtain ⟨e', he', became⟩ := grown.events e he
    exact ⟨e', he', became.sequence.trans same⟩
  · intro e' he' pruned
    obtain ⟨e, he, became, rfl | ⟨target, _, _⟩⟩ := pruneEvent_becomes he'
    · exact sound.finished e' he pruned
    · rw [became.sequence, target]
      exact settled.2
  · intro sinkID active e' he' retained
    obtain ⟨e, he, became, _⟩ := pruneEvent_becomes he'
    cases became.retained retained
    exact valid.covered sinkID active e' he retained

/-- The candidate query and the triggers of the UPDATE agree. -/
theorem updateEvents_prune {t : Tables} (sound : t.Sound) {sequence : Nat}
    (settled : t.Settled sequence) (now : String) :
    t.updateEvents (pruneTarget sequence) (·.prune now) = .ok (t.pruneEvent sequence now, 1) := by
  obtain ⟨retained, some_, all⟩ := settled
  obtain ⟨e, he, rfl, unpruned⟩ := Tables.retained_iff.mp retained
  have target : pruneTarget e.sequence e = true := by simp [pruneTarget, unpruned]
  have only : t.events.filter (pruneTarget e.sequence) = [e] := by
    refine Rows.filter_key (sound.events.ordered.imp Nat.ne_of_lt) he target ?_
    intro r _ matched
    simp only [pruneTarget, decide_eq_true_eq] at matched
    exact matched.1
  have finished : t.unfinished e.sequence = false := by
    simp only [Tables.unfinished, Bool.or_eq_false_iff, List.isEmpty_eq_false_iff, List.any_eq_false,
      decide_eq_true_eq, not_or, not_not]
    refine ⟨some_, fun d hd => ⟨(all d hd).1, ?_⟩⟩
    exact Option.isSome_iff_ne_none.mp (all d hd).2
  have quiet : t.eventAbort e (e.prune now) = none := by
    simp [Tables.eventAbort, unpruned, finished, EventRow.prune]
  simp only [Tables.updateEvents, only, List.findSome?_cons, quiet, List.findSome?_nil,
    List.countP_eq_length_filter, List.length_singleton]
  rfl

theorem prunePayload_spec (env : PruneEnv) (index : Nat) (entry : PruneEntry) {t : Tables}
    (valid : t.Valid) (settled : t.Settled entry.sequence) :
    Ensures (prunePayload env index entry t)
      (fun t' => t'.Valid ∧ t' = t.pruneEvent entry.sequence (formatTimestamp env.now))
      Failure.Unraised := by
  unfold prunePayload
  refine attempt_unraised.bind fun _ _ => ?_
  refine (statement_unraised (updateEvents_prune valid.sound settled _)).bind ?_
  rintro _ rfl
  refine attempt_unraised.bind fun _ _ => refuse_unraised.bind fun _ _ => ?_
  exact ⟨valid.pruneEvent settled _, rfl⟩

theorem Tables.Settled.pruneEvent {t : Tables} {sequence other : Nat} (settled : t.Settled other)
    (differ : other ≠ sequence) (now : String) : (t.pruneEvent sequence now).Settled other := by
  obtain ⟨retained, rest⟩ := settled
  obtain ⟨e, he, rfl, unpruned⟩ := Tables.retained_iff.mp retained
  have untouched : pruneTarget sequence e = false := by simp [pruneTarget, differ]
  refine ⟨Tables.retained_iff.mpr ⟨e, ?_, rfl, unpruned⟩, rest⟩
  exact Rows.mem_update.mpr ⟨e, he, by simp [untouched]⟩

theorem settled_pruneEvent {t : Tables} {entry : PruneEntry} {rest : List PruneEntry}
    (settled : ∀ other ∈ entry :: rest, t.Settled other.sequence)
    (new : entry.sequence ∉ rest.map (·.sequence)) (now : String) :
    ∀ other ∈ rest, (t.pruneEvent entry.sequence now).Settled other.sequence := by
  intro other member
  refine (settled other (List.mem_cons_of_mem _ member)).pruneEvent ?_ _
  intro same
  exact new (List.mem_map.mpr ⟨other, member, same⟩)

theorem prunePayloads_spec (env : PruneEnv) (index : Nat) (entries : List PruneEntry) {t : Tables}
    (valid : t.Valid) (settled : ∀ entry ∈ entries, t.Settled entry.sequence)
    (distinct : (entries.map (·.sequence)).Nodup) :
    Ensures (prunePayloads env index entries t)
      (fun t' => t'.Valid ∧ t.Grows (fun _ => False) t' ∧ t.LogKept t') Failure.Unraised := by
  induction entries generalizing index t with
  | nil => exact ⟨valid, .refl t, .of_eq rfl rfl⟩
  | cons entry rest ih =>
    obtain ⟨new, distinct⟩ := List.nodup_cons.mp distinct
    refine (prunePayload_spec env index entry valid (settled entry List.mem_cons_self)).bind ?_
    rintro t' ⟨valid', rfl⟩
    refine (ih (index + 1) valid' (settled_pruneEvent settled new _) distinct).mono ?_ (fun _ h => h)
    rintro t'' ⟨valid'', grown, kept⟩
    exact ⟨valid'', (pruneEvent_grows t _ _).trans grown, (pruneEvent_logKept t _ _).trans kept⟩

theorem prunable_settled {t : Tables} {cutoff : String} {e : EventRow} (he : e ∈ t.events)
    (h : prunable t cutoff e = true) : t.Settled e.sequence := by
  simp only [prunable, decide_eq_true_eq, List.isEmpty_eq_false_iff, List.all_eq_true] at h
  refine ⟨Tables.retained_iff.mpr ⟨e, he, rfl, h.1⟩, h.2.1, fun d hd => ⟨(h.2.2 d hd).1, ?_⟩⟩
  cases at_ : d.deliveredAt with
  | none => simpa [at_] using (h.2.2 d hd).2
  | some _ => rfl

theorem pruneCandidates_spec {t : Tables} (sound : t.Sound) (cutoff : String) (limit : Nat) :
    (∀ entry ∈ pruneCandidates t cutoff limit, t.Settled entry.sequence) ∧
      ((pruneCandidates t cutoff limit).map (·.sequence)).Nodup := by
  constructor
  · intro entry member
    obtain ⟨e, he, rfl⟩ := List.mem_map.mp member
    obtain ⟨he, matched⟩ := List.mem_filter.mp (List.mem_of_mem_take he)
    exact prunable_settled he matched
  · have chosen : ((t.events.filter (prunable t cutoff)).take limit).Sublist t.events :=
      (List.take_sublist _ _).trans List.filter_sublist
    rw [pruneCandidates, List.map_map]
    exact (chosen.map _).nodup (sound.events.ordered.imp Nat.ne_of_lt)

theorem applyPrune_spec (env : PruneEnv) (options : PruneOptions) {entries : List PruneEntry}
    {t : Tables} (valid : t.Valid) (settled : ∀ entry ∈ entries, t.Settled entry.sequence)
    (distinct : (entries.map (·.sequence)).Nodup) :
    Ensures (applyPrune env options entries t)
      (fun t' => t'.Valid ∧ t.Grows (fun _ => False) t' ∧ t.LogKept t') Failure.Unraised := by
  unfold applyPrune
  split
  · exact ⟨valid, .refl t, .of_eq rfl rfl⟩
  · exact prunePayloads_spec env 0 entries valid settled distinct

theorem prune_spec (env : PruneEnv) (options : PruneOptions) {t : Tables} (valid : t.Valid) :
    Ensures (prune env options t)
      (fun r => r.1.Valid ∧ t.Grows (fun _ => False) r.1 ∧ t.LogKept r.1) Failure.Unraised := by
  obtain ⟨settled, distinct⟩ := pruneCandidates_spec valid.sound
    (formatTimestamp options.before) options.limit.toNat
  unfold prune
  refine refuse_unraised.bind fun _ _ => refuse_unraised.bind fun _ _ => ?_
  refine attempt_unraised.bind fun _ _ => attempt_unraised.bind fun _ _ => ?_
  refine attempt_unraised.bind fun _ _ => attempt_unraised.bind fun _ _ => ?_
  refine attempt_unraised.bind fun _ _ => attempt_unraised.bind fun _ _ => ?_
  refine (applyPrune_spec env options valid settled distinct).bind fun t' done => ?_
  exact Ensures.bind attempt_unraised fun _ _ => done

end WriteRelay.Spool
