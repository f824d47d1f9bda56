import WriteRelay.Spool.Operations

/-! What `PersistCommittedBatch` does without faults: the new identities of a batch are
appended and fanned out to the active sinks, the others must carry the stored digest. -/
namespace WriteRelay.Spool
open Clock Fallible Runs

abbrev CapturedEvent.identity (e : CapturedEvent) : String × String := (e.source, e.id)

/-- The events of a batch that the tables do not know, each identity once, in batch order. -/
def freshEvents (t : Tables) (events : List CapturedEvent) : List CapturedEvent :=
  Rows.firsts (·.identity) (events.filter (fun e => e.identity ∉ t.events.map (·.identity)))

/-- An event whose identity is stored, or came before in the batch, with another digest. -/
def Clashes (t : Tables) (before : List CapturedEvent) (e : CapturedEvent) : Prop :=
  (∃ row ∈ t.events, row.identity = e.identity ∧ row.payloadSHA256 ≠ e.payloadSHA256) ∨
    ∃ e' ∈ before, e'.identity = e.identity ∧ e'.payloadSHA256 ≠ e.payloadSHA256

def Conflicts (t : Tables) (done events : List CapturedEvent) : Prop :=
  Rows.Breaks (Clashes t) done events

def fanOut (t : Tables) (rows : List EventRow) : List (Nat × Nat) :=
  rows.flatMap fun row => (t.sinks.filter (·.active)).map fun k => (row.sequence, k.sinkID)

/-- The tables with these rows added, and a pending delivery of each at every active sink. -/
structure Appends (env : PersistEnv) (t : Tables) (rows : List EventRow) (t' : Tables) : Prop where
  events : t'.events = t.events ++ rows
  sequences : (t.lastSequence :: rows.map (·.sequence)).Pairwise (· < ·)
  sinks : t'.sinks = t.sinks
  deliveries : ∃ added, t'.deliveries = t.deliveries ++ added ∧ added.map (·.key) = fanOut t rows ∧
    ∀ d ∈ added, ∃ at_, env.due at_ ∧ d = pendingDelivery d.eventSequence d.sinkID (formatTimestamp at_)

/-- The loop after these events of the batch. -/
structure Looped (env : PersistEnv) (t : Tables) (done : List CapturedEvent) (rows : List EventRow)
    (p : Progress) : Prop where
  valid : p.tables.Valid
  appends : Appends env t rows p.tables
  later : t.lastSequence ≤ p.tables.lastSequence
  holds : List.Forall₂ (Holds env) (freshEvents t done) rows
  digests : ∀ e ∈ done, ∃ row ∈ p.tables.events, row.identity = e.identity ∧
    row.payloadSHA256 = e.payloadSHA256
  durableLSN : p.tables.durableLSN = t.durableLSN
  inserted : p.inserted = rows.length
  total : p.inserted + p.replayed = done.length

def PersistEnv.Unfaulted (env : PersistEnv) : Prop := ∀ site, env.faults site = none

theorem freshEvents_concat (t : Tables) (done : List CapturedEvent) (e : CapturedEvent) :
    freshEvents t (done ++ [e]) =
      if e.identity ∈ t.events.map (·.identity) ∨ e.identity ∈ (freshEvents t done).map (·.identity)
      then freshEvents t done else freshEvents t done ++ [e] := by
  rw [freshEvents, List.filter_append, Rows.firsts_append]
  by_cases stored : e.identity ∈ t.events.map (·.identity)
  · rw [if_pos (.inl stored), List.filter_cons_of_neg (by simpa using stored)]
    rfl
  · rw [List.filter_cons_of_pos (by simpa using stored)]
    change Rows.keep (·.identity) (freshEvents t done) e = _
    obtain ⟨known, same⟩ | ⟨fresh, more⟩ := Rows.keep_cases (·.identity) (freshEvents t done) e
    · rw [same, if_pos (.inr known)]
    · rw [more, if_neg (not_or.mpr ⟨stored, fresh⟩)]

section Loop

variable {env : PersistEnv} {t : Tables} {done : List CapturedEvent} {rows : List EventRow}
  {p : Progress}

theorem holds_identity {e : CapturedEvent} {row : EventRow} (h : Holds env e row) :
    row.identity = e.identity ∧ row.payloadSHA256 = e.payloadSHA256 := by
  obtain ⟨index, stored⟩ := h
  rw [stored]
  exact ⟨rfl, rfl⟩

theorem holds_identities {events : List CapturedEvent} (h : List.Forall₂ (Holds env) events rows) :
    events.map (·.identity) = rows.map (·.identity) := by
  apply Rows.map_eq_of_forall₂ _ h
  intro e row held
  exact (holds_identity held).1.symm

theorem Looped.mem_iff (h : Looped env t done rows p) (e : CapturedEvent) :
    e.identity ∈ p.tables.events.map (·.identity) ↔
      e.identity ∈ t.events.map (·.identity) ∨ e.identity ∈ (freshEvents t done).map (·.identity) := by
  rw [h.appends.events, List.map_append, List.mem_append, holds_identities h.holds]

theorem Looped.clashes_iff (h : Looped env t done rows p) (e : CapturedEvent) :
    Clashes t done e ↔ ∃ row ∈ p.tables.events, row.identity = e.identity ∧
      row.payloadSHA256 ≠ e.payloadSHA256 := by
  constructor
  · rintro (⟨row, hrow, identity, digest⟩ | ⟨e', he', identity, digest⟩)
    · exact ⟨row, by rw [h.appends.events]; exact List.mem_append_left _ hrow, identity, digest⟩
    · obtain ⟨row, hrow, same, stored⟩ := h.digests e' he'
      exact ⟨row, hrow, same.trans identity, stored ▸ digest⟩
  · rintro ⟨row, hrow, identity, digest⟩
    rw [h.appends.events] at hrow
    rcases List.mem_append.mp hrow with old | new
    · exact .inl ⟨row, old, identity, digest⟩
    · obtain ⟨e', he', held⟩ := Rows.exists_of_forall₂ h.holds.flip new
      obtain ⟨same, stored⟩ := holds_identity held
      have member : e' ∈ done := by
        have filtered := Rows.mem_of_mem_keepAll _ he'
        exact List.mem_of_mem_filter (filtered.resolve_left (by simp))
      exact .inr ⟨e', member, same.symm.trans identity, stored ▸ digest⟩

theorem ensureDeliveriesForEvent_unfaulted (quiet : env.Unfaulted) {t : Tables} (sound : t.Sound)
    (index sequence : Nat) {now : String} (due : now = formatTimestamp (env.readings index).dueAt) :
    ensureDeliveriesForEvent env index sequence t = .ok { t with
      deliveries := Rows.keepAll (·.key) t.deliveries (deliveriesForEvent t sequence now) } := by
  have admitted : ∀ row ∈ deliveriesForEvent t sequence now, t.Admits row := fun row hrow =>
    (deliveriesForEvent_admitted hrow).1
  unfold ensureDeliveriesForEvent
  simp only [attempt, quiet .. , ← due, (sound.insertDeliveries admitted).1, statement]
  rfl

theorem deliveriesForEvent_known {t : Tables} (valid : t.Valid) (sequence : Nat) (now : String) :
    Rows.keepAll (·.key) t.deliveries (deliveriesForEvent t sequence now) = t.deliveries := by
  apply Rows.keepAll_of_known
  intro row hrow
  obtain ⟨⟨retained, active⟩, _⟩ := deliveriesForEvent_admitted hrow
  exact valid.coveredAt active retained

theorem deliveriesForEvent_fresh {t : Tables} (sound : t.Sound) {sequence : Nat} (now : String)
    (retained : t.retained sequence = true) (fresh : ∀ d ∈ t.deliveries, d.eventSequence ≠ sequence) :
    Rows.keepAll (·.key) t.deliveries (deliveriesForEvent t sequence now) =
      t.deliveries ++ (t.sinks.filter (·.active)).map fun k => pendingDelivery sequence k.sinkID now := by
  rw [deliveriesForEvent, if_pos retained]
  apply Rows.keepAll_of_fresh
  · intro row hrow known
    obtain ⟨k, _, rfl⟩ := List.mem_map.mp hrow
    obtain ⟨d, hd, same⟩ := List.mem_map.mp known
    exact fresh d hd (congrArg Prod.fst same)
  · have ids : ((t.sinks.filter (·.active)).map (·.sinkID)).Nodup :=
      (List.filter_sublist.map _).nodup sound.sinks.ids
    rw [List.map_map]
    exact List.Nodup.of_map Prod.snd (by simpa [List.map_map, Function.comp_def, pendingDelivery] using ids)

theorem insertOrVerify_fresh (quiet : env.Unfaulted) {t : Tables} {index : Nat} {e : CapturedEvent}
    (fresh : t.findEvent e.source e.id = none) : insertOrVerify env index e t =
      .ok ({ t with
        events := t.events ++ [nextRow env index e t]
        lastSequence := (nextRow env index e t).sequence }, true, (nextRow env index e t).sequence) := by
  simp only [insertOrVerify, attempt, quiet .. , fresh]
  rfl

theorem insertOrVerify_known (quiet : env.Unfaulted) {t : Tables} {index : Nat} {e : CapturedEvent}
    {stored : EventRow} (found : t.findEvent e.source e.id = some stored) :
    insertOrVerify env index e t = if stored.payloadSHA256 ≠ e.payloadSHA256 then
        .error (errorf (some .identityConflict) "%w: source=%q id=%q" [e.source, e.id])
      else .ok (t, false, stored.sequence) := by
  simp only [insertOrVerify, attempt, quiet .. , found, refuse]
  split <;> rfl

theorem Looped.replay (h : Looped env t done rows p) (quiet : env.Unfaulted) {batch : CommittedBatch}
    {index : Nat} {e : CapturedEvent} (passes : validateCapturedEvent batch e index = .ok ())
    {stored : EventRow} (found : p.tables.findEvent e.source e.id = some stored) :
    if stored.payloadSHA256 ≠ e.payloadSHA256 then
      ∃ f, persistEvent env batch index e p = .error f ∧ f.sentinel = some .identityConflict
    else persistEvent env batch index e p = .ok ⟨p.tables, p.inserted, p.replayed + 1⟩ := by
  unfold persistEvent
  rw [passes, insertOrVerify_known quiet found]
  split
  · exact ⟨_, rfl, rfl⟩
  · have ensured := ensureDeliveriesForEvent_unfaulted quiet h.valid.sound index stored.sequence rfl
    rw [deliveriesForEvent_known h.valid] at ensured
    change (ensureDeliveriesForEvent env index stored.sequence p.tables >>= _) = _
    rw [ensured]
    rfl

def Tables.appendEvent (t : Tables) (row : EventRow) (now : String) : Tables :=
  { t with
    events := t.events ++ [row]
    lastSequence := row.sequence
    deliveries := t.deliveries ++
      (t.sinks.filter (·.active)).map fun k => pendingDelivery row.sequence k.sinkID now }

theorem persistEvent_fresh (valid : p.tables.Valid) (quiet : env.Unfaulted) {batch : CommittedBatch}
    {index : Nat} {e : CapturedEvent} (passes : validateCapturedEvent batch e index = .ok ())
    (fresh : p.tables.findEvent e.source e.id = none) : persistEvent env batch index e p =
      .ok ⟨p.tables.appendEvent (nextRow env index e p.tables)
        (formatTimestamp (env.readings index).dueAt), p.inserted + 1, p.replayed⟩ := by
  have digest := (validateCapturedEvent_spec batch e index).post passes
  have inserted : insertOrVerify env index e p.tables = _ := insertOrVerify_fresh quiet fresh
  obtain ⟨sound, _⟩ := (insertOrVerify_spec env index e valid.sound digest).post inserted
  have ensured := ensureDeliveriesForEvent_unfaulted quiet sound index
    (nextRow env index e p.tables).sequence rfl
  have later : p.tables.lastSequence < (nextRow env index e p.tables).sequence := by
    simp only [nextRow, eventRow]
    omega
  rw [deliveriesForEvent_fresh sound] at ensured
  · unfold persistEvent
    rw [passes, inserted]
    change (ensureDeliveriesForEvent env index _ _ >>= _) = _
    rw [ensured]
    rfl
  · exact Tables.retained_iff.mpr ⟨_, List.mem_append_right _ (List.mem_singleton_self _), rfl, rfl⟩
  · intro d hd same
    obtain ⟨row, hrow, sequence⟩ := valid.sound.ofEvent d hd
    have := valid.sound.events.bounded row hrow
    omega

theorem Appends.appendEvent (h : Appends env t rows p.tables) {row : EventRow} {index : Nat}
    (later : t.lastSequence < row.sequence) (last : ∀ r ∈ rows, r.sequence < row.sequence) :
    Appends env t (rows ++ [row])
      (p.tables.appendEvent row (formatTimestamp (env.readings index).dueAt)) where
  events := by rw [Tables.appendEvent, h.events, List.append_assoc]
  sequences := by
    rw [List.map_append, ← List.cons_append, List.pairwise_append]
    refine ⟨h.sequences, List.pairwise_singleton _ _, ?_⟩
    simp only [List.mem_cons, List.mem_map, List.map_cons, List.map_nil, List.not_mem_nil, or_false,
      forall_eq]
    rintro _ (rfl | ⟨r, hr, rfl⟩)
    · exact later
    · exact last r hr
  sinks := h.sinks
  deliveries := by
    obtain ⟨added, deliveries, keys, dated⟩ := h.deliveries
    refine ⟨added ++ (p.tables.sinks.filter (·.active)).map fun k => pendingDelivery row.sequence
      k.sinkID (formatTimestamp (env.readings index).dueAt), ?_, ?_, ?_⟩
    · rw [Tables.appendEvent, deliveries, List.append_assoc]
    · rw [List.map_append, keys, fanOut, fanOut, List.flatMap_append, List.map_map, h.sinks]
      simp [Function.comp_def, pendingDelivery]
    · intro d hd
      rcases List.mem_append.mp hd with hd | hd
      · exact dated d hd
      · obtain ⟨k, _, rfl⟩ := List.mem_map.mp hd
        exact ⟨_, ⟨index, rfl⟩, rfl⟩

theorem Looped.append (h : Looped env t done rows p) (quiet : env.Unfaulted) {batch : CommittedBatch}
    {index : Nat} {e : CapturedEvent} (passes : validateCapturedEvent batch e index = .ok ())
    (fresh : p.tables.findEvent e.source e.id = none) :
    ∃ p', persistEvent env batch index e p = .ok p' ∧
      Looped env t (done ++ [e]) (rows ++ [nextRow env index e p.tables]) p' := by
  have run := persistEvent_fresh h.valid quiet passes fresh
  refine ⟨_, run, ?_⟩
  obtain ⟨valid, _⟩ := (persistEvent_spec env batch index e h.valid).post run
  have unknown := mt (h.mem_iff e).mpr (findEvent_eq_none.mp fresh)
  have later : p.tables.lastSequence < (nextRow env index e p.tables).sequence := by
    simp only [nextRow, eventRow]
    omega
  exact {
    valid := valid
    appends := h.appends.appendEvent (h.later.trans_lt later) fun r hr =>
      (h.valid.sound.events.bounded r (by
        rw [h.appends.events]
        exact List.mem_append_right _ hr)).trans_lt later
    later := (h.later.trans_lt later).le
    holds := by
      rw [freshEvents_concat, if_neg unknown]
      exact List.rel_append h.holds (.cons ⟨index, rfl⟩ .nil)
    digests := by
      intro e' he'
      rcases List.mem_append.mp he' with old | new
      · obtain ⟨row, hrow, same⟩ := h.digests e' old
        exact ⟨row, List.mem_append_left _ hrow, same⟩
      · cases List.mem_singleton.mp new
        exact ⟨_, List.mem_append_right _ (List.mem_singleton_self _), rfl, rfl⟩
    durableLSN := h.durableLSN
    inserted := by rw [List.length_append, List.length_singleton, h.inserted]
    total := by
      have := h.total
      simp only [List.length_append, List.length_singleton]
      omega }

theorem Looped.known (h : Looped env t done rows p) {e : CapturedEvent} {stored : EventRow}
    (found : p.tables.findEvent e.source e.id = some stored)
    (same : stored.payloadSHA256 = e.payloadSHA256) :
    Looped env t (done ++ [e]) rows ⟨p.tables, p.inserted, p.replayed + 1⟩ := by
  obtain ⟨member, identity⟩ := findEvent_eq_some found
  have known := (h.mem_iff e).mp (List.mem_map.mpr ⟨stored, member, identity⟩)
  exact {
    valid := h.valid
    appends := h.appends
    later := h.later
    holds := by
      rw [freshEvents_concat, if_pos known]
      exact h.holds
    digests := by
      intro e' he'
      rcases List.mem_append.mp he' with old | new
      · exact h.digests e' old
      · cases List.mem_singleton.mp new
        exact ⟨stored, member, identity, same⟩
    durableLSN := h.durableLSN
    inserted := h.inserted
    total := by
      have := h.total
      simp only [List.length_append, List.length_singleton]
      omega }

/-- One iteration: an event that clashes stops the loop, any other is taken. -/
theorem Looped.step (h : Looped env t done rows p) (quiet : env.Unfaulted) {batch : CommittedBatch}
    {index : Nat} {e : CapturedEvent} (passes : validateCapturedEvent batch e index = .ok ()) :
    (Clashes t done e →
      ∃ f, persistEvent env batch index e p = .error f ∧ f.sentinel = some .identityConflict) ∧
    (¬Clashes t done e → ∃ rows' p', persistEvent env batch index e p = .ok p' ∧
      Looped env t (done ++ [e]) rows' p') := by
  rw [h.clashes_iff e]
  cases found : p.tables.findEvent e.source e.id with
  | none =>
    have unknown := findEvent_eq_none.mp found
    constructor
    · rintro ⟨row, hrow, identity, _⟩
      exact absurd (List.mem_map.mpr ⟨row, hrow, identity⟩) unknown
    · intro _
      obtain ⟨p', run, looped⟩ := h.append quiet passes found
      exact ⟨_, p', run, looped⟩
  | some stored =>
    obtain ⟨member, identity⟩ := findEvent_eq_some found
    have run := h.replay quiet passes found
    by_cases differ : stored.payloadSHA256 ≠ e.payloadSHA256
    · rw [if_pos differ] at run
      exact ⟨fun _ => run, fun agree => absurd ⟨stored, member, identity, differ⟩ agree⟩
    · rw [if_neg differ] at run
      constructor
      · rintro ⟨row, hrow, same, digest⟩
        have equal := Rows.key_unique h.valid.sound.events.identities hrow member
          (same.trans identity.symm)
        exact absurd (equal ▸ digest) differ
      · exact fun _ => ⟨rows, _, run, h.known found (not_not.mp differ)⟩

theorem Looped.run (h : Looped env t done rows p) (quiet : env.Unfaulted) {batch : CommittedBatch}
    {index : Nat} {rest : List CapturedEvent}
    (passes : ∀ (i : Nat) e, rest[i]? = some e → validateCapturedEvent batch e (index + i) = .ok ()) :
    (Conflicts t done rest →
      ∃ f, persistEvents env batch index rest p = .error f ∧ f.sentinel = some .identityConflict) ∧
    (¬Conflicts t done rest → ∃ rows' p', persistEvents env batch index rest p = .ok p' ∧
      Looped env t (done ++ rest) rows' p') := by
  induction rest generalizing done rows p index with
  | nil =>
    constructor
    · exact fun conflict => absurd conflict Rows.not_breaks_nil
    · intro _
      exact ⟨rows, p, rfl, by rwa [List.append_nil]⟩
  | cons e rest ih =>
    have first : validateCapturedEvent batch e index = .ok () := passes 0 e rfl
    have others : ∀ (i : Nat) e', rest[i]? = some e' →
        validateCapturedEvent batch e' (index + 1 + i) = .ok () := fun i e' at_ => by
      have := passes (i + 1) e' (by simpa using at_)
      rwa [Nat.add_comm i, ← Nat.add_assoc] at this
    obtain ⟨clashing, agreeing⟩ := h.step quiet first
    rw [Conflicts, Rows.breaks_cons, persistEvents]
    by_cases clash : Clashes t done e
    · obtain ⟨f, failed, sentinel⟩ := clashing clash
      rw [failed]
      exact ⟨fun _ => ⟨f, rfl, sentinel⟩, fun none_ => absurd (.inl clash) none_⟩
    · obtain ⟨rows', p', taken, looped⟩ := agreeing clash
      have next := ih looped others
      simp only [List.append_assoc, List.singleton_append] at next
      rw [taken]
      simp only [clash, false_or]
      exact next

theorem Looped.start (valid : t.Valid) : Looped env t [] [] ⟨t, 0, 0⟩ where
  valid := valid
  appends := ⟨by rw [List.append_nil], List.pairwise_singleton _ _, rfl, [], by simp, rfl, nofun⟩
  later := le_rfl
  holds := .nil
  digests := nofun
  durableLSN := rfl
  inserted := rfl
  total := rfl

theorem advanceCheckpoint_unfaulted (quiet : env.Unfaulted) {batch : CommittedBatch} {current : LSN}
    (stored : parseCheckpoint env.codec p.tables.durableLSN = .ok current) :
    advanceCheckpoint env batch p = .ok ({ p.tables with
      durableLSN := checkpointAfter env.codec current batch.commitEndLSN p.tables.durableLSN },
      ⟨p.inserted, p.replayed, max current batch.commitEndLSN⟩) := by
  simp only [advanceCheckpoint, attempt, quiet .. , stored, checkpointAfter]
  change (if current < batch.commitEndLSN then _ else _) = _
  split
  · rename_i below
    rw [max_eq_right below.le]
    rfl
  · rename_i above
    rw [max_eq_left (not_lt.mp above)]
    rfl

end Loop

/-- The checkpoint column holds nothing, or a position that this codec wrote. -/
def Coded (codec : LsnCodec) (t : Tables) : Prop :=
  t.durableLSN = none ∨ ∃ l, t.durableLSN = some (codec.format l)

theorem Coded.parse {codec : LsnCodec} {t : Tables} (h : Coded codec t) :
    ∃ current, parseCheckpoint codec t.durableLSN = .ok current := by
  rcases h with none_ | ⟨l, some_⟩
  · exact ⟨0, by rw [none_]; rfl⟩
  · exact ⟨l, by rw [some_, parseCheckpoint, codec.parse_format]⟩

theorem parse_checkpointAfter {codec : LsnCodec} {current last : LSN} {stored : Option String}
    (parsed : parseCheckpoint codec stored = .ok current) :
    parseCheckpoint codec (checkpointAfter codec current last stored) = .ok (max current last) := by
  unfold checkpointAfter
  split
  · rename_i below
    rw [parseCheckpoint, codec.parse_format, max_eq_right below.le]
  · rename_i above
    rw [parsed, max_eq_left (not_lt.mp above)]

def codedSpool (codec : LsnCodec) : System Tables :=
  spoolWith fun op => ∀ env batch, op = .persist env batch → env.codec = codec

theorem persistCommittedBatch_written {env : PersistEnv} {batch : CommittedBatch} {t : Tables}
    (valid : t.Valid) {r : Tables × PersistResult} (done : persistCommittedBatch env batch t = .ok r) :
    ∃ written current, Written env batch.events t written ∧ r.1 = { written with
      durableLSN := checkpointAfter env.codec current batch.commitEndLSN t.durableLSN } := by
  obtain ⟨_, _, done⟩ := bind_ok_iff.mp done
  obtain ⟨_, _, done⟩ := bind_ok_iff.mp done
  obtain ⟨p, looped, done⟩ := bind_ok_iff.mp done
  obtain ⟨committed, advanced, done⟩ := bind_ok_iff.mp done
  obtain ⟨_, _, done⟩ := bind_ok_iff.mp done
  cases Except.ok.inj done
  obtain ⟨_, _, written⟩ := (persistEvents_spec env batch 0 batch.events valid).post looped
  obtain ⟨current, _, _, tables⟩ := (advanceCheckpoint_spec env batch p).post advanced
  exact ⟨p.tables, current, written, by rw [tables, written.durableLSN]⟩

theorem codedSpool_coded {codec : LsnCodec} {t : Tables} (h : (codedSpool codec).Reachable t) :
    Coded codec t := by
  refine (codedSpool codec).invariant (Coded codec) ?_ ?_ h
  · rintro _ rfl
    exact .inl rfl
  · rintro t _ reachable coded ⟨op, same, rfl⟩
    have valid := spool_valid (spoolWith_reachable reachable)
    by_cases capture : ∃ env batch, op = .persist env batch
    · obtain ⟨env, batch, rfl⟩ := capture
      cases same env batch rfl
      simp only [Operation.exec]
      cases done : persistCommittedBatch env batch t with
      | error e => exact coded
      | ok r =>
        obtain ⟨written, current, _, tables⟩ := persistCommittedBatch_written valid done
        change Coded env.codec r.1
        rw [tables, Coded, checkpointAfter]
        split
        · exact .inr ⟨_, rfl⟩
        · exact coded
    · have foreign : ∀ env batch, op ≠ .persist env batch := fun env batch is =>
        capture ⟨env, batch, is⟩
      rw [Coded, (exec_logKept foreign valid).durableLSN]
      exact coded

/-- What a batch without a conflict leaves. -/
structure Persisted (env : PersistEnv) (t : Tables) (events : List CapturedEvent) (endLSN : LSN)
    (t' : Tables) (result : PersistResult) : Prop where
  rows : ∃ rows, List.Forall₂ (Holds env) (freshEvents t events) rows ∧ Appends env t rows t'
  ordered : (t'.events.map (·.sequence)).Pairwise (· < ·)
  inserted : result.inserted = (freshEvents t events).length
  total : result.inserted + result.replayed = events.length
  checkpoint : ∃ current, parseCheckpoint env.codec t.durableLSN = .ok current ∧
    result.durableLSN = max current endLSN ∧
      parseCheckpoint env.codec t'.durableLSN = .ok (max current endLSN)

theorem persistCommittedBatch_exact {t : Tables} (valid : t.Valid) {env : PersistEnv}
    (coded : Coded env.codec t) (quiet : env.Unfaulted) {batch : CommittedBatch}
    (ordered : batch.commitLSN ≤ batch.commitEndLSN)
    (passes : ∀ (i : Nat) e, batch.events[i]? = some e → validateCapturedEvent batch e i = .ok ()) :
    (Conflicts t [] batch.events →
      ∃ f, persistCommittedBatch env batch t = .error f ∧ f.sentinel = some .identityConflict) ∧
    (¬Conflicts t [] batch.events → ∃ t' result, persistCommittedBatch env batch t = .ok (t', result) ∧
      Persisted env t batch.events batch.commitEndLSN t' result) := by
  have shifted : ∀ (i : Nat) e, batch.events[i]? = some e →
      validateCapturedEvent batch e (0 + i) = .ok () := fun i e at_ => by
    rw [Nat.zero_add]
    exact passes i e at_
  obtain ⟨conflicting, agreeing⟩ := (Looped.start valid : Looped env t [] [] _).run quiet shifted
  have start : persistCommittedBatch env batch t =
      (persistEvents env batch 0 batch.events ⟨t, 0, 0⟩ >>= fun p =>
        advanceCheckpoint env batch p >>= fun committed => commitBatch env >>= fun _ => pure committed) := by
    simp only [persistCommittedBatch, refuse, if_neg (not_lt.mpr ordered), attempt, quiet ..]
    rfl
  have ends : commitBatch env = .ok () := by simp only [commitBatch, attempt, quiet ..]
  rw [start]
  constructor
  · intro conflict
    obtain ⟨f, failed, sentinel⟩ := conflicting conflict
    exact ⟨f, by rw [failed]; rfl, sentinel⟩
  · intro agree
    obtain ⟨rows, p, run, looped⟩ := agreeing agree
    obtain ⟨current, stored⟩ := coded.parse
    have advanced : advanceCheckpoint env batch p = _ :=
      advanceCheckpoint_unfaulted quiet (looped.durableLSN ▸ stored)
    obtain ⟨⟨events, sequences, sinks, deliveries⟩, holds⟩ := And.intro looped.appends looped.holds
    refine ⟨_, _, bind_ok_iff.mpr ⟨p, run, bind_ok_iff.mpr ⟨_, advanced,
      bind_ok_iff.mpr ⟨(), ends, rfl⟩⟩⟩, ?_⟩
    exact {
      rows := ⟨rows, holds, events, sequences, sinks, deliveries⟩
      ordered := looped.valid.sound.events.ordered
      inserted := looped.inserted.trans holds.length_eq.symm
      total := looped.total
      checkpoint := ⟨current, stored, rfl, by
        rw [looped.durableLSN]
        exact parse_checkpointAfter stored⟩ }

def Recorded (t : Tables) (events : List CapturedEvent) : Prop :=
  ∀ e ∈ events, ∃ row ∈ t.events, row.identity = e.identity ∧ row.payloadSHA256 = e.payloadSHA256

theorem Recorded.fresh {t : Tables} {events : List CapturedEvent} (h : Recorded t events) :
    freshEvents t events = [] := by
  have known : events.filter (fun e => e.identity ∉ t.events.map (·.identity)) = [] := by
    rw [List.filter_eq_nil_iff]
    intro e he
    obtain ⟨row, hrow, same, _⟩ := h e he
    have stored : e.identity ∈ t.events.map (·.identity) := List.mem_map.mpr ⟨row, hrow, same⟩
    simpa using stored
  rw [freshEvents, known]
  rfl

theorem Recorded.agrees {t : Tables} (sound : t.Sound) {events : List CapturedEvent}
    (h : Recorded t events) : ¬Conflicts t [] events := by
  rintro ⟨before, e, after, rfl, clash⟩
  obtain ⟨row, hrow, same, digest⟩ := h e (by simp)
  have only : ∀ other ∈ t.events, other.identity = e.identity →
      other.payloadSHA256 = e.payloadSHA256 := fun other member identity => by
    rw [Rows.key_unique sound.events.identities member hrow (identity.trans same.symm), digest]
  rcases clash with ⟨other, member, identity, differs⟩ | ⟨e', he', identity, differs⟩
  · exact differs (only other member identity)
  · obtain ⟨row', hrow', same', digest'⟩ := h e' (List.mem_append_left _ he')
    exact differs (digest' ▸ only row' hrow' (same'.trans identity))

theorem Recorded.extends {t t' : Tables} {events : List CapturedEvent} (h : Recorded t events)
    (later : t.Extends t') : Recorded t' events := by
  intro e he
  obtain ⟨row, hrow, same, digest⟩ := h e he
  obtain ⟨row', hrow', rfl | ⟨_, now, rfl⟩⟩ := later.events row hrow
  · exact ⟨_, hrow', same, digest⟩
  · exact ⟨_, hrow', same, digest⟩

theorem persistCommittedBatch_recorded {env : PersistEnv} {batch : CommittedBatch} {t t' : Tables}
    {result : PersistResult} (valid : t.Valid)
    (done : persistCommittedBatch env batch t = .ok (t', result)) : Recorded t' batch.events := by
  obtain ⟨written, current, placed, rfl⟩ := persistCommittedBatch_written valid done
  exact placed.present

def Tables.SameRows (t t' : Tables) : Prop :=
  t'.events = t.events ∧ t'.sinks = t.sinks ∧ t'.deliveries = t.deliveries

theorem Persisted.replayed {env : PersistEnv} {t t' : Tables} {events : List CapturedEvent}
    {last : LSN} {result : PersistResult} (h : Persisted env t events last t' result)
    (stored : Recorded t events) : t.SameRows t' := by
  obtain ⟨rows, held, appended⟩ := h.rows
  rw [stored.fresh] at held
  cases held
  obtain ⟨added, deliveries, keys, _⟩ := appended.deliveries
  have none_ : added = [] := List.map_eq_nil_iff.mp keys
  subst none_
  exact ⟨by simpa using appended.events, appended.sinks, by simpa using deliveries⟩

theorem exec_persist {env : PersistEnv} {batch : CommittedBatch} {t t' : Tables}
    {result : PersistResult} (done : persistCommittedBatch env batch t = .ok (t', result)) :
    ((Operation.persist env batch).exec t).tables = t' := by
  simp only [Operation.exec, done]
  rfl

/-- A stored batch may arrive again any number of times. -/
theorem replays_sameRows {codec : LsnCodec} {batch : CommittedBatch}
    (ordered : batch.commitLSN ≤ batch.commitEndLSN)
    (passes : ∀ (i : Nat) e, batch.events[i]? = some e → validateCapturedEvent batch e i = .ok ())
    {envs : List PersistEnv} (quiet : ∀ env ∈ envs, env.codec = codec ∧ env.Unfaulted) {t : Tables}
    (reachable : (codedSpool codec).Reachable t) (stored : Recorded t batch.events) :
    t.SameRows (runAll (envs.map fun env => .persist env batch) t) := by
  induction envs generalizing t with
  | nil => exact ⟨rfl, rfl, rfl⟩
  | cons env envs ih =>
    obtain ⟨⟨rfl, unfaulted⟩, rest⟩ := List.forall_mem_cons.mp quiet
    have valid := spool_valid (spoolWith_reachable reachable)
    obtain ⟨t', result, done, persisted⟩ :=
      (persistCommittedBatch_exact valid (codedSpool_coded reachable) unfaulted ordered passes).2 (stored.agrees valid.sound)
    have next : (codedSpool env.codec).Reachable t' := reachable.step ⟨.persist env batch,
      fun _ _ is => by cases is; rfl, exec_persist done⟩
    obtain ⟨events, sinks, deliveries⟩ :=
      ih rest next (persistCommittedBatch_recorded valid done)
    obtain ⟨events', sinks', deliveries'⟩ := persisted.replayed stored
    rw [List.map_cons, runAll, List.foldl_cons, exec_persist done]
    exact ⟨events.trans events', sinks.trans sinks', deliveries.trans deliveries'⟩

end WriteRelay.Spool
