import WriteRelay.Spool.Operations

/-! What `Prune` selects and what it changes, and that its batches add up. -/
namespace WriteRelay.Spool
open Clock Fallible Runs

/-- The spool run on clocks that show years with four digits when a delivery succeeds. -/
def clockedSpool : System Tables :=
  spoolWith fun op => ∀ faults item attempt status at_,
    op = .delivered faults item attempt status at_ → FourDigitYear at_

def Tables.Clocked (t : Tables) : Prop :=
  ∀ d ∈ t.deliveries, ∀ text, d.deliveredAt = some text →
    ∃ at_, FourDigitYear at_ ∧ text = formatTimestamp at_

theorem Tables.Grows.clocked {times : Instant → Prop} {t t' : Tables} (grown : t.Grows times t')
    (clocked : t.Clocked) : t'.Clocked := by
  intro d hd text dated
  rcases grown.added d hd with old | ⟨⟨_, _, row⟩, _⟩
  · exact clocked d old text dated
  · rw [row] at dated
    contradiction

theorem Updated.clocked {faults : UpdateFaults} {t : Tables} {p : DeliveryRow → Bool}
    {f : DeliveryRow → DeliveryRow} {judge : Nat → Option Failure} {o : Outcome}
    (h : Updated faults t p f judge o) (clocked : t.Clocked)
    (clock : ∀ d text, (f d).deliveredAt = some text → ∃ at_, FourDigitYear at_ ∧ text = formatTimestamp at_) :
    o.tables.Clocked := by
  by_cases exec : faults.exec = none
  · rw [h.executed exec]
    intro d' hd' text dated
    obtain ⟨d, hd, rfl⟩ := Rows.mem_update.mp hd'
    split at dated
    · exact clock d text dated
    · exact clocked d hd text dated
  · rw [h.refused exec]
    exact clocked

theorem clockedSpool_clocked {t : Tables} (h : clockedSpool.Reachable t) : t.Clocked := by
  refine clockedSpool.invariant Tables.Clocked ?_ ?_ h
  · rintro _ rfl d hd
    simp [Tables.empty] at hd
  · rintro t _ reachable clocked ⟨op, clocks, rfl⟩
    have valid := spool_valid (spoolWith_reachable reachable)
    by_cases maintained : maintains op = true
    · exact (maintains_spec maintained valid).2.1.clocked clocked
    cases op with
    | persist => exact absurd rfl maintained
    | configure => exact absurd rfl maintained
    | prune => exact absurd rfl maintained
    | nextDue now => exact clocked
    | delivered faults item attempt status at_ =>
      refine (markDelivered_spec faults item attempt status at_ valid).clocked clocked ?_
      intro d text dated
      exact ⟨at_, clocks _ _ _ _ _ rfl, (Option.some.inj dated).symm⟩
    | failed faults item attempt permanent retryAt failure status at_ =>
      apply (markFailed_spec faults item attempt permanent retryAt failure status at_ valid).clocked clocked
      intro d text dated
      contradiction
    | redrive faults sinkName source id at_ =>
      apply (redriveDelivery_spec faults sinkName source id at_ valid).clocked clocked
      intro d text dated
      contradiction

/-- A retained event with deliveries, all of them successful before this instant. -/
structure Eligible (t : Tables) (before : Instant) (e : EventRow) : Prop where
  retained : e.pruned = false
  some_ : ∃ d ∈ t.deliveries, d.eventSequence = e.sequence
  delivered : ∀ d ∈ t.deliveries, d.eventSequence = e.sequence → d.state = .delivered ∧
    ∃ at_, FourDigitYear at_ ∧ d.deliveredAt = some (formatTimestamp at_) ∧ at_ < before

open Classical in
/-- The first eligible events by sequence. -/
noncomputable def selection (t : Tables) (before : Instant) (limit : Nat) : List EventRow :=
  (t.events.filter fun e => decide (Eligible t before e)).take limit

def PruneEntry.of (e : EventRow) : PruneEntry := ⟨e.sequence, e.source, e.id, e.payload.length⟩

def Tables.pruneAll (t : Tables) (sequences : List Nat) (now : String) : Tables :=
  { t with events := Rows.update (fun e => e.sequence ∈ sequences ∧ e.pruned = false) (·.prune now) t.events }

theorem prunable_iff {t : Tables} (clocked : t.Clocked) {before latest : Instant}
    (year : FourDigitYear latest) (past : before ≤ latest) (e : EventRow) :
    prunable t (formatTimestamp before) e = true ↔ Eligible t before e := by
  simp only [prunable, decide_eq_true_eq, List.isEmpty_eq_false_iff, List.all_eq_true]
  constructor
  · rintro ⟨retained, some_, all⟩
    obtain ⟨d, hd⟩ := List.exists_mem_of_ne_nil _ some_
    refine ⟨retained, ⟨d, mem_deliveriesOf.mp hd⟩, fun d hd same => ?_⟩
    obtain ⟨delivered, dated⟩ := all d (mem_deliveriesOf.mpr ⟨hd, same⟩)
    cases finished : d.deliveredAt with
    | none => simp [finished] at dated
    | some text =>
      obtain ⟨at_, year', rfl⟩ := clocked d hd text finished
      rw [finished] at dated
      exact ⟨delivered, at_, year', rfl, (formatTimestamp_lt_iff year' year past).mp (of_decide_eq_true dated)⟩
  · rintro ⟨retained, ⟨d, hd, same⟩, all⟩
    refine ⟨retained, List.ne_nil_of_mem (mem_deliveriesOf.mpr ⟨hd, same⟩), fun d hd => ?_⟩
    obtain ⟨hd, same⟩ := mem_deliveriesOf.mp hd
    obtain ⟨delivered, at_, year', dated, below⟩ := all d hd same
    refine ⟨delivered, ?_⟩
    rw [dated]
    exact decide_eq_true ((formatTimestamp_lt_iff year' year past).mpr below)

theorem pruneAll_nil (t : Tables) (now : String) : t.pruneAll [] now = t := by
  rw [Tables.pruneAll, Rows.update_of_none (by simp)]

theorem pruneEvent_pruneAll (t : Tables) (sequence : Nat) (rest : List Nat) (now : String) :
    (t.pruneEvent sequence now).pruneAll rest now = t.pruneAll (sequence :: rest) now := by
  have once : ∀ e : EventRow, pruneTarget sequence e = true →
      decide ((e.prune now).sequence ∈ rest ∧ (e.prune now).pruned = false) = true →
        (e.prune now).prune now = e.prune now := fun _ _ _ => rfl
  simp only [Tables.pruneAll, Tables.pruneEvent]
  rw [Rows.update_update once, Rows.update_congr]
  intro e _
  cases retained : e.pruned <;> simp [pruneTarget, retained]

theorem prunePayloads_pruned {env : PruneEnv} {index : Nat} {entries : List PruneEntry} {t t' : Tables}
    (valid : t.Valid) (settled : ∀ entry ∈ entries, t.Settled entry.sequence)
    (distinct : (entries.map (·.sequence)).Nodup) (done : prunePayloads env index entries t = .ok t') :
    t' = t.pruneAll (entries.map (·.sequence)) (formatTimestamp env.now) := by
  induction entries generalizing index t with
  | nil =>
    cases Except.ok.inj done
    rw [List.map_nil, pruneAll_nil]
  | cons entry rest ih =>
    obtain ⟨new, distinct⟩ := List.nodup_cons.mp distinct
    obtain ⟨t₁, first, done⟩ := bind_ok_iff.mp done
    obtain ⟨valid₁, rfl⟩ := (prunePayload_spec env index entry valid
      (settled entry List.mem_cons_self)).post first
    rw [ih valid₁ (settled_pruneEvent settled new _) distinct done, pruneEvent_pruneAll]
    rfl

def PruneEnv.Unfaulted (env : PruneEnv) : Prop := ∀ site, env.faults site = none

theorem prunePayloads_unfaulted {env : PruneEnv} (quiet : env.Unfaulted) (index : Nat)
    {entries : List PruneEntry} {t : Tables} (valid : t.Valid)
    (settled : ∀ entry ∈ entries, t.Settled entry.sequence)
    (distinct : (entries.map (·.sequence)).Nodup) : ∃ t', prunePayloads env index entries t = .ok t' := by
  induction entries generalizing index t with
  | nil => exact ⟨t, rfl⟩
  | cons entry rest ih =>
    obtain ⟨new, distinct⟩ := List.nodup_cons.mp distinct
    have first := settled entry List.mem_cons_self
    have updated := updateEvents_prune valid.sound first (formatTimestamp env.now)
    have pruned : prunePayload env index entry t =
        .ok (t.pruneEvent entry.sequence (formatTimestamp env.now)) := by
      simp only [prunePayload, attempt, quiet .. , updated]
      rfl
    rw [prunePayloads, pruned]
    exact ih (index + 1) (valid.pruneEvent first _) (settled_pruneEvent settled new _) distinct

theorem prune_ok {env : PruneEnv} {options : PruneOptions} {t t' : Tables} {result : PruneResult}
    (valid : t.Valid) (done : prune env options t = .ok (t', result)) :
    1 ≤ options.limit ∧
    (t' = if options.dryRun then t else t.pruneAll ((pruneCandidates t (formatTimestamp options.before)
      options.limit.toNat).map (·.sequence)) (formatTimestamp env.now)) ∧
    result.entries = pruneCandidates t (formatTimestamp options.before) options.limit.toNat ∧
    result.events = result.entries.length ∧
    result.payloadBytes = (result.entries.map (·.payloadBytes)).sum := by
  obtain ⟨_, _, done⟩ := bind_ok_iff.mp done
  obtain ⟨_, limit, done⟩ := bind_ok_iff.mp done
  obtain ⟨_, _, done⟩ := bind_ok_iff.mp done
  obtain ⟨_, _, done⟩ := bind_ok_iff.mp done
  obtain ⟨_, _, done⟩ := bind_ok_iff.mp done
  obtain ⟨_, _, done⟩ := bind_ok_iff.mp done
  obtain ⟨_, _, done⟩ := bind_ok_iff.mp done
  obtain ⟨_, _, done⟩ := bind_ok_iff.mp done
  obtain ⟨t₁, applied, done⟩ := bind_ok_iff.mp done
  obtain ⟨_, _, done⟩ := bind_ok_iff.mp done
  cases Except.ok.inj done
  refine ⟨not_lt.mp (not_or.mp (refuse_ok_iff.mp limit)).1, ?_, rfl, rfl, rfl⟩
  unfold applyPrune at applied
  split at applied
  · rename_i dry
    rw [if_pos dry]
    exact (Except.ok.inj applied).symm
  · rename_i wet
    rw [if_neg wet]
    obtain ⟨settled, distinct⟩ := pruneCandidates_spec valid.sound (formatTimestamp options.before)
      options.limit.toNat
    exact prunePayloads_pruned valid settled distinct applied

theorem prune_runs {env : PruneEnv} (quiet : env.Unfaulted) {options : PruneOptions} {t : Tables}
    (valid : t.Valid) (nonzero : options.before ≠ zeroTime) (past : options.before ≤ env.now)
    (low : 1 ≤ options.limit) (high : options.limit ≤ 1000) : ∃ r, prune env options t = .ok r := by
  have cutoff : ¬(options.before = zeroTime ∨ env.now < options.before) :=
    not_or.mpr ⟨nonzero, not_lt.mpr past⟩
  have limit : ¬(options.limit < 1 ∨ 1000 < options.limit) := by omega
  obtain ⟨settled, distinct⟩ := pruneCandidates_spec valid.sound (formatTimestamp options.before)
    options.limit.toNat
  have applied : ∃ t', applyPrune env options (pruneCandidates t (formatTimestamp options.before)
      options.limit.toNat) t = .ok t' := by
    unfold applyPrune
    split
    · exact ⟨t, rfl⟩
    · exact prunePayloads_unfaulted quiet 0 valid settled distinct
  obtain ⟨t', applied⟩ := applied
  simp only [prune, refuse, if_neg cutoff, if_neg limit, attempt, quiet .. , applied]
  exact ⟨_, rfl⟩

section Batches

variable {t : Tables}

/-- The candidates of a batch are gone from the next one. -/
theorem filter_pruneAll (sound : t.Sound) (cutoff now : String) (n : Nat) {rows : List EventRow}
    (candidates : rows = t.events.filter (prunable t cutoff)) {t₁ : Tables}
    (applied : t₁ = t.pruneAll ((rows.take n).map (·.sequence)) now) :
    t₁.events.filter (prunable t₁ cutoff) = rows.drop n := by
  let mark (e : EventRow) : EventRow :=
    if e.sequence ∈ (rows.take n).map (·.sequence) ∧ e.pruned = false then e.prune now else e
  have events : t₁.events = t.events.map mark := by
    rw [applied]
    exact List.map_congr_left fun e _ => by simp only [decide_eq_true_eq, mark]
  have still : prunable t₁ cutoff ∘ mark = fun e =>
      decide (e.sequence ∉ (rows.take n).map (·.sequence)) && prunable t cutoff e := by
    funext e
    rw [applied]
    change prunable t cutoff (mark e) = _
    by_cases named : e.sequence ∈ (rows.take n).map (·.sequence)
    · have gone : prunable t cutoff (mark e) = false := by
        cases retained : e.pruned <;> simp only [mark, named, retained, true_and, if_true, Bool.true_eq_false,
          if_false] <;> simp [prunable, retained]
      rw [gone, decide_eq_false (not_not.mpr named), Bool.false_and]
    · simp only [mark, named, false_and, if_false, not_false_eq_true, decide_true, Bool.true_and]
  have distinct : (rows.map (·.sequence)).Nodup := by
    rw [candidates]
    exact (sound.events.ordered.imp Nat.ne_of_lt).sublist (List.filter_sublist.map _)
  have remaining : t.events.filter (prunable t₁ cutoff ∘ mark) = rows.drop n := by
    rw [still, ← List.filter_filter, ← candidates, Rows.filter_key_take distinct]
  have kept : ∀ e ∈ rows.drop n, mark e = e := by
    intro e he
    rw [← remaining] at he
    have passed := (List.mem_filter.mp he).2
    rw [still, Bool.and_eq_true] at passed
    exact if_neg fun is => of_decide_eq_true passed.1 is.1
  rw [events, List.filter_map, remaining, List.map_congr_left kept, List.map_id']

def Tables.flags (t : Tables) : List (Nat × Bool) := t.events.map fun e => (e.sequence, e.pruned)

theorem pruneAll_flags (t : Tables) (sequences : List Nat) (now : String) :
    (t.pruneAll sequences now).flags =
      t.flags.map fun p => (p.1, p.2 || decide (p.1 ∈ sequences)) := by
  simp only [Tables.flags, Tables.pruneAll, Rows.update, List.map_map]
  apply List.map_congr_left
  intro e _
  by_cases named : e.sequence ∈ sequences <;> cases retained : e.pruned <;>
    simp [named, retained]

end Batches

open Classical in
theorem selection_eq {t : Tables} (clocked : t.Clocked) {before latest : Instant}
    (year : FourDigitYear latest) (past : before ≤ latest) (limit : Nat) :
    selection t before limit = (t.events.filter (prunable t (formatTimestamp before))).take limit := by
  have same : ∀ e ∈ t.events, decide (Eligible t before e) = prunable t (formatTimestamp before) e := by
    intro e _
    rw [Bool.eq_iff_iff, decide_eq_true_eq, prunable_iff clocked year past]
  rw [selection, List.filter_congr same]

theorem pruneAll_selected {t : Tables} (sound : t.Sound) {rows : List EventRow}
    (chosen : ∀ e ∈ rows, e ∈ t.events ∧ e.pruned = false) (now : String) :
    t.pruneAll (rows.map (·.sequence)) now =
      { t with events := Rows.update (fun e => e ∈ rows) (·.prune now) t.events } := by
  rw [Tables.pruneAll, Rows.update_congr]
  intro e he
  rw [decide_eq_decide]
  constructor
  · rintro ⟨named, _⟩
    obtain ⟨e', he', same⟩ := List.mem_map.mp named
    rwa [← sound.events.unique (chosen e' he').1 he same]
  · intro member
    exact ⟨List.mem_map_of_mem member, (chosen e member).2⟩

/-- What `Prune` does on these tables. -/
structure PruneOutcome (env : PruneEnv) (options : PruneOptions) (t : Tables) : Prop where
  runs : env.Unfaulted → options.before ≠ zeroTime → ∃ r, prune env options t = .ok r
  zero : options.before = zeroTime → ∃ f, prune env options t = .error f
  ordered : (t.events.map (·.sequence)).Pairwise (· < ·)
  selects : ∀ t' result, prune env options t = .ok (t', result) →
    result.entries = (selection t options.before options.limit.toNat).map .of ∧
      result.events = result.entries.length ∧
      result.payloadBytes = (result.entries.map (·.payloadBytes)).sum
  previews : options.dryRun = true → ∀ t' result, prune env options t = .ok (t', result) →
    t' = t ∧ ∀ env' t'' result', prune env' { options with dryRun := false } t = .ok (t'', result') →
      result.entries = result'.entries ∧ result.events = result'.events ∧
        result.payloadBytes = result'.payloadBytes
  applies : options.dryRun = false → ∀ t' result, prune env options t = .ok (t', result) →
    t' = { t with
      events := Rows.update (fun e => e ∈ selection t options.before options.limit.toNat)
        (·.prune (formatTimestamp env.now)) t.events }
  fails : ∀ f, prune env options t = .error f → ((Operation.prune env options).exec t).tables = t
  batches : options.dryRun = false → ∀ t₁ r₁, prune env options t = .ok (t₁, r₁) →
    ∀ (more : Int) env₂ t₂ r₂, prune env₂ { options with limit := more } t₁ = .ok (t₂, r₂) →
    ∀ env₃ t₃ r₃, prune env₃ { options with limit := options.limit + more } t = .ok (t₃, r₃) →
      r₃.entries = r₁.entries ++ r₂.entries ∧
        t₂.events.map (fun e => (e.sequence, e.pruned)) = t₃.events.map (fun e => (e.sequence, e.pruned))

theorem prune_batches {t : Tables} (valid : t.Valid) {options : PruneOptions} (wet : options.dryRun = false)
    {env env₂ env₃ : PruneEnv} {t₁ t₂ t₃ : Tables} {r₁ r₂ r₃ : PruneResult}
    (first : prune env options t = .ok (t₁, r₁)) {more : Int}
    (next : prune env₂ { options with limit := more } t₁ = .ok (t₂, r₂))
    (whole : prune env₃ { options with limit := options.limit + more } t = .ok (t₃, r₃)) :
    r₃.entries = r₁.entries ++ r₂.entries ∧ t₂.flags = t₃.flags := by
  have valid₁ := ((prune_spec env options valid).post first).1
  obtain ⟨low₁, tables₁, entries₁, _⟩ := prune_ok valid first
  obtain ⟨low₂, tables₂, entries₂, _⟩ := prune_ok valid₁ next
  obtain ⟨_, tables₃, entries₃, _⟩ := prune_ok valid whole
  change 1 ≤ more at low₂
  rw [if_neg (by simp [wet])] at tables₁ tables₂ tables₃
  generalize candidates : t.events.filter (prunable t (formatTimestamp options.before)) = rows
  have batch₁ : pruneCandidates t (formatTimestamp options.before) options.limit.toNat =
      (rows.take options.limit.toNat).map .of := by
    rw [pruneCandidates, candidates]
    rfl
  have sequences : ∀ l : List EventRow, (l.map PruneEntry.of).map (·.sequence) = l.map (·.sequence) := by
    intro l
    rw [List.map_map]
    rfl
  -- what the first batch leaves to prune is what it did not take
  have rest : t₁.events.filter (prunable t₁ (formatTimestamp options.before)) =
      rows.drop options.limit.toNat := by
    apply filter_pruneAll valid.sound _ _ _ candidates.symm
    rw [tables₁, batch₁, sequences]
  have batch₂ : pruneCandidates t₁ (formatTimestamp options.before) more.toNat =
      ((rows.drop options.limit.toNat).take more.toNat).map .of := by
    rw [pruneCandidates, rest]
    rfl
  have batch₃ : pruneCandidates t (formatTimestamp options.before) (options.limit + more).toNat =
      (rows.take options.limit.toNat).map .of ++
        ((rows.drop options.limit.toNat).take more.toNat).map .of := by
    rw [pruneCandidates, candidates, Int.toNat_add (by omega) (by omega), List.take_add, List.map_append]
    rfl
  constructor
  · rw [entries₁, entries₂, entries₃, batch₁, batch₂, batch₃]
  · rw [batch₁, sequences] at tables₁
    rw [batch₂, sequences] at tables₂
    rw [batch₃, List.map_append, sequences, sequences] at tables₃
    rw [tables₂, tables₃, pruneAll_flags, pruneAll_flags, tables₁, pruneAll_flags, List.map_map]
    simp only [Function.comp_def, List.mem_append, Bool.decide_or, Bool.or_assoc]

theorem prune_outcome {t : Tables} (reachable : clockedSpool.Reachable t) {env : PruneEnv}
    (year : FourDigitYear env.now) {options : PruneOptions} (past : options.before ≤ env.now)
    (low : 1 ≤ options.limit) (high : options.limit ≤ 1000) : PruneOutcome env options t := by
  have valid := spool_valid (spoolWith_reachable reachable)
  have selected := selection_eq (clockedSpool_clocked reachable) year past options.limit.toNat
  have candidates : pruneCandidates t (formatTimestamp options.before) options.limit.toNat =
      (selection t options.before options.limit.toNat).map .of := by
    rw [selected]
    rfl
  refine ⟨?_, ?_, valid.sound.events.ordered, ?_, ?_, ?_, ?_, ?_⟩
  · intro quiet nonzero
    exact prune_runs quiet valid nonzero past low high
  · intro zero
    exact ⟨_, by rw [prune, refuse, if_pos (.inl zero)]; rfl⟩
  · intro t' result done
    obtain ⟨_, _, entries, counts⟩ := prune_ok valid done
    exact ⟨entries.trans candidates, counts⟩
  · intro dry t' result done
    obtain ⟨_, tables, entries, events, bytes⟩ := prune_ok valid done
    refine ⟨by rw [tables, if_pos dry], fun env' t'' result' done' => ?_⟩
    obtain ⟨_, _, entries', events', bytes'⟩ := prune_ok valid done'
    have same : result.entries = result'.entries := entries.trans entries'.symm
    exact ⟨same, by rw [events, events', same], by rw [bytes, bytes', same]⟩
  · intro wet t' result done
    obtain ⟨_, tables, _⟩ := prune_ok valid done
    rw [if_neg (by simp [wet]), candidates, List.map_map] at tables
    rw [tables]
    apply pruneAll_selected valid.sound
    intro e he
    rw [selected] at he
    obtain ⟨member, matched⟩ := List.mem_filter.mp (List.mem_of_mem_take he)
    simp only [prunable, decide_eq_true_eq] at matched
    exact ⟨member, matched.1⟩
  · intro f failed
    simp only [Operation.exec, failed]
    rfl
  · intro wet t₁ r₁ first more env₂ t₂ r₂ next env₃ t₃ r₃ whole
    exact prune_batches valid wet first next whole

def settled : List Operation := captured ++ [.delivered ⟨none, none⟩ sampleItem 1 200 5]

def calmPrune : PruneEnv := ⟨fun _ => none, 9⟩

theorem prune_outcome_settled :
    PruneOutcome calmPrune ⟨8, 100, false⟩ (runAll settled .empty) ∧
      ((prune calmPrune ⟨8, 100, false⟩ (runAll settled .empty)).map (·.2.entries)).toOption =
        some [⟨1, "/orders", "1", 2⟩] := by
  have clocks : ∀ op ∈ settled, ∀ faults item attempt status at_,
      op = .delivered faults item attempt status at_ → FourDigitYear at_ := by
    simp only [settled, captured, sampleConfigure, samplePersist, List.cons_append, List.nil_append,
      List.forall_mem_cons]
    refine ⟨nofun, nofun, ?_, nofun⟩
    rintro _ _ _ _ _ ⟨⟩
    decide +kernel
  have reachable : clockedSpool.Reachable (runAll settled .empty) :=
    spoolWith_runAll clocks (clockedSpool.reachable_init rfl)
  refine ⟨prune_outcome reachable ?_ (by decide) (by decide) (by decide), by decide +kernel⟩
  change FourDigitYear 9
  decide +kernel

end WriteRelay.Spool
