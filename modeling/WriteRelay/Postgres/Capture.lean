import WriteRelay.Postgres.Replicator

/-! What the spool holds, and what PostgreSQL has been told, in every reachable world. -/
namespace WriteRelay.Postgres
open Clock Spool Fallible Runs

/-- The row of a message content: its identity and digest, and its exact bytes until pruned. -/
structure Stored (row : EventRow) (content : Bytes) : Prop where
  identity : identityOf content = some row.identity
  digest : row.payloadSHA256 = Sha256.sum content
  payload : row.payload = if row.pruned then [] else content

def captured (server : Server) (upTo : LSN) : List Bytes :=
  (server.above.filter (fun x => x.endLSN ≤ upTo)).flatMap
    (fun x => contents server.messagePrefix x.messages)

def Present (rows : List EventRow) (content : Bytes) : Prop :=
  ∃ row ∈ rows, identityOf content = some row.identity ∧ row.payloadSHA256 = Sha256.sum content

/-- A replayed content may share a row with an earlier one, under the same digest. -/
structure Spooled (server : Server) (t : Tables) : Prop where
  valid : t.Valid
  durable : t.durableLSN = none ∨
    ∃ l, server.initial < l ∧ t.durableLSN = some (server.codec.format l)
  log : List.Forall₂ Stored t.events
    (Rows.firsts identityOf (captured server (checkpoint server.codec t)))
  present : ∀ content ∈ captured server (checkpoint server.codec t), Present t.events content

def position (server : Server) (t : Tables) : LSN :=
  if checkpoint server.codec t = 0 then server.initial else checkpoint server.codec t

theorem checkpoint_some {codec : LsnCodec} {t : Tables} {l : LSN}
    (h : t.durableLSN = some (codec.format l)) : checkpoint codec t = l := by
  simp [checkpoint, parseCheckpoint, h, codec.parse_format]

theorem checkpoint_congr (codec : LsnCodec) {t t' : Tables} (h : t'.durableLSN = t.durableLSN) :
    checkpoint codec t' = checkpoint codec t := by
  rw [checkpoint, checkpoint, h]

theorem position_congr (server : Server) {t t' : Tables} (h : t'.durableLSN = t.durableLSN) :
    position server t' = position server t := by
  rw [position, position, checkpoint_congr _ h]

theorem Spooled.checkpoint_cases {server : Server} {t : Tables} (h : Spooled server t) :
    checkpoint server.codec t = 0 ∨ server.initial < checkpoint server.codec t := by
  rcases h.durable with none | ⟨l, above, some⟩
  · exact .inl (by simp [checkpoint, parseCheckpoint, none])
  · exact .inr (checkpoint_some some ▸ above)

theorem Spooled.initial_le {server : Server} {t : Tables} (h : Spooled server t) :
    server.initial ≤ position server t := by
  unfold position
  split
  · exact le_rfl
  · rename_i set
    rcases h.checkpoint_cases with zero | above
    · exact absurd zero set
    · exact above.le

theorem Spooled.parseCheckpoint {server : Server} {t : Tables} (h : Spooled server t) :
    parseCheckpoint server.codec t.durableLSN = .ok (checkpoint server.codec t) := by
  rcases h.durable with none | ⟨l, above, some⟩
  · simp [checkpoint, Spool.parseCheckpoint, none]
  · simp [checkpoint, Spool.parseCheckpoint, some, server.codec.parse_format]

theorem Spooled.lastDurableLSN {server : Server} {t : Tables} (h : Spooled server t)
    {fault : Option String} {durable : LSN}
    (read : lastDurableLSN server.codec fault t = .ok durable) :
    durable = checkpoint server.codec t := by
  obtain ⟨_, _, read⟩ := bind_ok_iff.mp read
  rw [h.parseCheckpoint] at read
  exact (Except.ok.inj read).symm

theorem captured_zero (server : Server) : captured server 0 = [] := by
  have none : server.above.filter (fun x => x.endLSN ≤ 0) = [] := by
    rw [List.filter_eq_nil_iff]
    intro x hx
    have above := of_decide_eq_true (List.mem_filter.mp hx).2
    exact mt of_decide_eq_true (not_le.mpr ((lsn_zero_le _).trans_lt above))
  rw [captured, none, List.flatMap_nil]

theorem spooled_empty (server : Server) : Spooled server .empty := by
  have zero : checkpoint server.codec .empty = 0 := rfl
  refine ⟨valid_empty, .inl rfl, ?_, ?_⟩
  · rw [zero, captured_zero]
    exact .nil
  · rw [zero, captured_zero]
    exact fun _ h => absurd h List.not_mem_nil

theorem Stored.becomes {row row' : EventRow} {content : Bytes} (became : row.Becomes row')
    (stored : Stored row content) : Stored row' content := by
  rcases became with rfl | ⟨_, now, rfl⟩
  · exact stored
  · exact ⟨stored.identity, stored.digest, rfl⟩

theorem Spooled.logKept {server : Server} {t t' : Tables} (h : Spooled server t) (valid : t'.Valid)
    (extended : t.Extends t') (kept : t.LogKept t') : Spooled server t' := by
  have same := checkpoint_congr server.codec kept.durableLSN
  refine ⟨valid, kept.durableLSN ▸ h.durable, ?_, ?_⟩
  · rw [same]
    exact Rows.forall₂_comp (fun _ _ _ became stored => stored.becomes became)
      kept.events.flip h.log
  · rw [same]
    intro content member
    obtain ⟨row, hrow, identity, digest⟩ := h.present content member
    obtain ⟨row', hrow', became⟩ := extended.events row hrow
    rcases became with rfl | ⟨_, now, rfl⟩
    · exact ⟨_, hrow', identity, digest⟩
    · exact ⟨_, hrow', identity, digest⟩

theorem above_sorted (server : Server) : (server.above.map (·.endLSN)).Pairwise (· < ·) := by
  rw [List.pairwise_map]
  exact (List.pairwise_map.mp server.increasing).filter _

theorem above_initial {server : Server} {x : Txn} (hx : x ∈ server.above) :
    server.initial < x.endLSN := of_decide_eq_true (List.mem_filter.mp hx).2

theorem mem_captured {server : Server} {x : Txn} (hx : x ∈ server.above) {upTo : LSN}
    (reached : x.endLSN ≤ upTo) {content : Bytes}
    (member : content ∈ contents server.messagePrefix x.messages) : content ∈ captured server upTo :=
  List.mem_flatMap.mpr ⟨x, List.mem_filter.mpr ⟨hx, decide_eq_true reached⟩, member⟩

theorem captured_next {server : Server} {past rest : List Txn} {x : Txn} {current : LSN}
    (cut : server.above = past ++ x :: rest) (below : ∀ y ∈ past, y.endLSN ≤ current)
    (above : current < x.endLSN) :
    captured server x.endLSN =
      captured server current ++ contents server.messagePrefix x.messages := by
  have sorted := cut ▸ above_sorted server
  have reached : (past ++ x :: rest).filter (fun y => y.endLSN ≤ x.endLSN) = past ++ [x] :=
    Rows.filter_le_self_of_sorted Txn.endLSN sorted
  have before : (past ++ x :: rest).filter (fun y => y.endLSN ≤ current) = past :=
    Rows.filter_le_of_sorted Txn.endLSN sorted below above
  rw [captured, captured, cut, reached, before, List.flatMap_append, List.flatMap_singleton]

theorem le_checkpoint {server : Server} {t : Tables} {x : Txn} (hx : x ∈ server.above)
    (reached : x.endLSN ≤ position server t) : x.endLSN ≤ checkpoint server.codec t := by
  unfold position at reached
  split at reached
  · exact absurd (above_initial hx) (not_lt.mpr reached)
  · exact reached

theorem Stored.of_holds {env : PersistEnv} {e : CapturedEvent} {row : EventRow} {content : Bytes}
    (held : Holds env e row) (carried : Carries e content) : Stored row content := by
  obtain ⟨index, same⟩ := held
  rw [same]
  exact ⟨carried.identity, carried.digest, carried.payload⟩

theorem stored_agree (row : EventRow) (content : Bytes) (row' : EventRow) (content' : Bytes)
    (stored : Stored row content) (stored' : Stored row' content') :
    row.identity = row'.identity ↔ identityOf content = identityOf content' := by
  rw [stored.identity, stored'.identity, Option.some.injEq]

section Batch

variable {env : PersistEnv} {t t' : Tables} {events : List CapturedEvent} {before after : List Bytes}

theorem written_stored (written : Written env events t t') (carried : List.Forall₂ Carries events after) :
    ∃ rows, List.Forall₂ Stored rows after ∧
      t'.events = Rows.keepAll (·.identity) t.events rows := by
  obtain ⟨rows, held, same⟩ := written.rows
  exact ⟨rows, Rows.forall₂_comp (fun _ _ _ => .of_holds) held.flip carried, same⟩

theorem written_log (written : Written env events t t')
    (log : List.Forall₂ Stored t.events (Rows.firsts identityOf before))
    (carried : List.Forall₂ Carries events after) :
    List.Forall₂ Stored t'.events (Rows.firsts identityOf (before ++ after)) := by
  obtain ⟨rows, stored, same⟩ := written_stored written carried
  rw [same, Rows.firsts_append]
  exact Rows.forall₂_keepAll stored_agree log stored

theorem written_covers (written : Written env events t t')
    (present : ∀ content ∈ before, Present t.events content)
    (carried : List.Forall₂ Carries events after) :
    ∀ content ∈ before ++ after, Present t'.events content := by
  intro content member
  rcases List.mem_append.mp member with old | new
  · obtain ⟨rows, _, same⟩ := written_stored written carried
    obtain ⟨row, hrow, found⟩ := present content old
    exact ⟨row, same ▸ Rows.mem_keepAll_of_mem _ hrow rows, found⟩
  · obtain ⟨e, he, carries⟩ := Rows.exists_of_forall₂ carried.flip new
    obtain ⟨row, hrow, identity, digest⟩ := written.present e he
    exact ⟨row, hrow, identity ▸ carries.identity, digest.trans carries.digest⟩

theorem written_replayed (written : Written env events t t')
    (present : ∀ content ∈ after, Present t.events content)
    (carried : List.Forall₂ Carries events after) : t'.events = t.events := by
  obtain ⟨rows, stored, same⟩ := written_stored written carried
  rw [same]
  apply Rows.keepAll_of_known
  intro row hrow
  obtain ⟨content, member, stored⟩ := Rows.exists_of_forall₂ stored hrow
  obtain ⟨row', hrow', identity, _⟩ := present content member
  have same : row'.identity = row.identity := Option.some.inj (identity.symm.trans stored.identity)
  exact same ▸ List.mem_map_of_mem hrow'

end Batch

theorem Spooled.store {server : Server} {t t' : Tables} (h : Spooled server t) {env : PersistEnv}
    (codec : env.codec = server.codec) {past rest : List Txn} {x : Txn} {batch : CommittedBatch}
    (cut : server.above = past ++ x :: rest) (below : ∀ y ∈ past, y.endLSN ≤ position server t)
    (batched : Batches server.messagePrefix x batch) {p : Progress} {result : PersistResult}
    (valid : p.tables.Valid) (written : Written env batch.events t p.tables)
    (advanced : advanceCheckpoint env batch p = .ok (t', result)) :
    Spooled server t' ∧ checkpoint server.codec t' = max (checkpoint server.codec t) x.endLSN ∧
      result.durableLSN = checkpoint server.codec t' := by
  obtain ⟨current, read, durable, rfl⟩ := (advanceCheckpoint_spec env batch p).post advanced
  rw [codec, written.durableLSN, h.parseCheckpoint] at read
  cases Except.ok.inj read
  have hx : x ∈ server.above := cut ▸ List.mem_append_right _ List.mem_cons_self
  rw [codec, batched.commitEndLSN, written.durableLSN, checkpointAfter]
  rw [batched.commitEndLSN] at durable
  split
  · rename_i new
    have now : checkpoint server.codec { p.tables with
        durableLSN := some (server.codec.format x.endLSN) } = x.endLSN := checkpoint_some rfl
    have next := captured_next cut (fun y hy =>
      le_checkpoint (cut ▸ List.mem_append_left _ hy) (below y hy)) new
    have log := written_log written h.log batched.events
    have covers := written_covers written h.present batched.events
    refine ⟨⟨valid.withCheckpoint _, .inr ⟨_, above_initial hx, rfl⟩, ?_, ?_⟩, ?_, ?_⟩
    · rw [now, next]
      exact log
    · rw [now, next]
      exact covers
    · rw [now, max_eq_right new.le]
    · rw [now, durable, max_eq_right new.le]
  · rename_i old
    have known := written_replayed written (fun content member =>
      h.present content (mem_captured hx (not_lt.mp old) member)) batched.events
    have same : checkpoint server.codec { p.tables with durableLSN := t.durableLSN } =
        checkpoint server.codec t := checkpoint_congr _ rfl
    refine ⟨⟨valid.withCheckpoint _, h.durable, ?_, ?_⟩, ?_, ?_⟩
    · rw [same, known]
      exact h.log
    · rw [same, known]
      exact h.present
    · rw [same, max_eq_left (not_lt.mp old)]
    · rw [same, durable, max_eq_left (not_lt.mp old)]

/-- A session knows where it is in the history and how far the spool follows it. -/
structure Follows (server : Server) (t : Tables) (session : Session) : Prop where
  messagePrefix : session.limits.messagePrefix = server.messagePrefix
  started : checkpoint server.codec t = 0 → session.slotStart = server.initial
  streamed : ∃ past, server.above = past ++ session.pending ∧
    ∀ x ∈ past, x.endLSN ≤ position server t
  inside : ∀ rest, session.inside = some rest → ∃ x later done, session.pending = x :: later ∧
    x.messages = done ++ rest ∧ Assembles session.limits x done session.machine

/-- An open spool transaction: the session has moved past the transaction `x` it writes. -/
structure Writes (server : Server) (t : Tables) (session : Session) (batch : CommittedBatch)
    (env : PersistEnv) (index : Nat) (rest : List CapturedEvent) (p : Progress) : Prop where
  messagePrefix : session.limits.messagePrefix = server.messagePrefix
  outside : session.inside = none
  codec : env.codec = server.codec
  ordered : batch.commitLSN ≤ batch.commitEndLSN
  begun : env.faults .begin = none
  streamed : ∃ past x, server.above = past ++ x :: session.pending ∧
    (∀ y ∈ past, y.endLSN ≤ position server t) ∧ Batches server.messagePrefix x batch
  written : ∃ done, batch.events = done ++ rest ∧ index = done.length ∧
    persistEvents env batch 0 done ⟨t, 0, 0⟩ = .ok p

def PhaseInv (server : Server) (t : Tables) : Phase → Prop
  | .idle => True
  | .connecting start => start = position server t
  | .streaming session => Follows server t session ∧ session.durableLSN = position server t
  | .writing session batch env index rest p => Writes server t session batch env index rest p
  | .stored session _ result => Follows server t session ∧ result.durableLSN = position server t

/-- A status update that was safe when it was sent and still is. -/
structure Acked (server : Server) (t : Tables) (s : Sent) : Prop where
  status : s.status = standbyStatus s.status.walFlushPosition
  justified : s.status.walFlushPosition ≤ max s.checkpoint s.slotStart
  initial : server.initial ≤ s.status.walFlushPosition
  reached : s.status.walFlushPosition ≤ position server t

structure Inv (server : Server) (w : World) : Prop where
  spooled : Spooled server w.tables
  run : spool.Reachable w.tables
  confirmed : checkpoint server.codec w.tables = 0 →
    w.confirmed = server.slot.confirmedFlushLSN ∨ w.confirmed = server.initial
  acked : ∀ s ∈ w.sent, Acked server w.tables s
  ordered : w.sent.Pairwise
    (fun later earlier => earlier.status.walFlushPosition ≤ later.status.walFlushPosition)
  phase : PhaseInv server w.tables w.phase

theorem confirmed_cases {server : Server} {confirmed : LSN}
    (h : confirmed = server.slot.confirmedFlushLSN ∨ confirmed = server.initial) :
    (confirmed ≠ 0 → confirmed = server.initial) ∧
      (confirmed = 0 → server.initial = server.slot.restartLSN) := by
  by_cases set : server.slot.confirmedFlushLSN ≠ 0
  · have initial : server.initial = server.slot.confirmedFlushLSN := if_pos set
    have same : confirmed = server.slot.confirmedFlushLSN := by rwa [initial, or_self] at h
    exact ⟨fun _ => same.trans initial.symm, fun zero => absurd (same.symm.trans zero) set⟩
  · have initial : server.initial = server.slot.restartLSN := if_neg set
    refine ⟨fun moved => ?_, fun _ => initial⟩
    rcases h with same | same
    · exact absurd (same.trans (not_not.mp set)) moved
    · exact same

/-- Without a checkpoint every session starts where the first one did. -/
theorem startLSN_position {server : Server} {t : Tables} {slot : Slot} {fault : Option String}
    {start : LSN} (spooled : Spooled server t)
    (confirmed : checkpoint server.codec t = 0 →
      slot.confirmedFlushLSN = server.slot.confirmedFlushLSN ∨ slot.confirmedFlushLSN = server.initial)
    (restart : slot.confirmedFlushLSN = 0 → slot.restartLSN = server.slot.restartLSN)
    (started : startLSN server.codec (.ok slot) fault t = .ok start) : start = position server t := by
  obtain ⟨_, found, started⟩ := bind_ok_iff.mp started
  cases Except.ok.inj found
  obtain ⟨durable, read, started⟩ := bind_ok_iff.mp started
  cases spooled.lastDurableLSN read
  unfold position
  split at started
  · rename_i set
    rw [if_neg set]
    exact (Except.ok.inj started).symm
  rename_i none
  rw [if_pos (not_not.mp none)]
  obtain ⟨moved, fresh⟩ := confirmed_cases (confirmed (not_not.mp none))
  split at started
  · rename_i set
    exact (Except.ok.inj started).symm.trans (moved set)
  · rename_i unset
    split at started
    · exact ((Except.ok.inj started).symm.trans (restart (not_not.mp unset))).trans
        (fresh (not_not.mp unset)).symm
    · contradiction

theorem consume_loose {limits : Limits} {s s' : StateMachine} {b : Option CommittedBatch}
    {message : Message} (loose : message.loose = true)
    (h : consume limits s message = .ok (s', b)) : s' = s := by
  cases message with
  | begin | commit => contradiction
  | other => exact (Prod.mk.inj (Except.ok.inj h)).1.symm
  | logical tag transactional lsn content =>
    simp only [Message.loose, Bool.not_eq_true'] at loose
    subst loose
    simp only [consume, consumeLogicalMessage] at h
    split at h
    · exact (Prod.mk.inj (Except.ok.inj h)).1.symm
    · contradiction

theorem Inv.send {server : Server} {w : World} (inv : Inv server w) {session : Session}
    (follows : Follows server w.tables session) {durableLSN : LSN}
    (durable : durableLSN = position server w.tables) (phase : Phase)
    (next : PhaseInv server w.tables phase) :
    Inv server { w with sent := w.send server session durableLSN, phase } := by
  refine ⟨inv.spooled, inv.run, inv.confirmed, ?_, ?_, next⟩
  · intro s hs
    rcases List.mem_cons.mp hs with rfl | hs
    · refine ⟨rfl, ?_, durable ▸ inv.spooled.initial_le, durable.le⟩
      simp only [standbyStatus, durable, position]
      split
      · rename_i zero
        exact follows.started zero ▸ le_max_right _ _
      · exact le_max_left _ _
    · exact inv.acked s hs
  · refine List.pairwise_cons.mpr ⟨fun s hs => ?_, inv.ordered⟩
    simpa [standbyStatus, durable] using (inv.acked s hs).reached

theorem PhaseInv.logKept {server : Server} {t t' : Tables} {phase : Phase}
    (same : t'.durableLSN = t.durableLSN) (free : phase.inTransaction = false)
    (h : PhaseInv server t phase) : PhaseInv server t' phase := by
  have checkpoints := checkpoint_congr server.codec same
  have positions := position_congr server same
  have follows : ∀ {session}, Follows server t session → Follows server t' session := by
    intro session ⟨tag, started, streamed, inside⟩
    exact ⟨tag, checkpoints ▸ started, positions ▸ streamed, inside⟩
  cases phase with
  | idle => trivial
  | connecting start => exact h.trans positions.symm
  | streaming session => exact ⟨follows h.1, positions ▸ h.2⟩
  | writing => contradiction
  | stored session batch result => exact ⟨follows h.1, positions ▸ h.2⟩

theorem Inv.foreign {server : Server} {w : World} (inv : Inv server w) {op : Operation}
    (foreign : ∀ env batch, op ≠ .persist env batch) (free : w.phase.inTransaction = false) :
    Inv server { w with tables := (op.exec w.tables).tables } := by
  have kept := exec_logKept foreign inv.spooled.valid
  obtain ⟨valid, effect, _⟩ := exec_spec op inv.spooled.valid
  have positions := position_congr server kept.durableLSN
  refine ⟨inv.spooled.logKept valid effect.extends kept, inv.run.step ⟨op, rfl⟩, ?_, ?_, inv.ordered,
    inv.phase.logKept kept.durableLSN free⟩
  · rw [checkpoint_congr _ kept.durableLSN]
    exact inv.confirmed
  · intro s hs
    obtain ⟨status, justified, initial, reached⟩ := inv.acked s hs
    exact ⟨status, justified, initial, positions ▸ reached⟩

theorem Writes.persisted {server : Server} {t : Tables} {session : Session} {batch : CommittedBatch}
    {env : PersistEnv} {index : Nat} {p : Progress}
    (writes : Writes server t session batch env index [] p) :
    persistEvents env batch 0 batch.events ⟨t, 0, 0⟩ = .ok p := by
  obtain ⟨done, all, _, written⟩ := writes.written
  rw [all, List.append_nil]
  exact written

theorem Writes.spool_step {server : Server} {t t' : Tables} {session : Session}
    {batch : CommittedBatch} {env : PersistEnv} {index : Nat} {p : Progress} {result : PersistResult}
    (writes : Writes server t session batch env index [] p)
    (advanced : advanceCheckpoint env batch p = .ok (t', result))
    (committed : commitBatch env = .ok ()) : spool.step t t' := by
  have run : persistCommittedBatch env batch t = .ok (t', result) := by
    unfold persistCommittedBatch
    rw [bind_ok_iff]
    refine ⟨(), refuse_ok_iff.mpr (not_lt.mpr writes.ordered), bind_ok_iff.mpr ?_⟩
    refine ⟨(), attempt_ok_iff.mpr writes.begun, bind_ok_iff.mpr ⟨p, writes.persisted, ?_⟩⟩
    exact bind_ok_iff.mpr ⟨_, advanced, bind_ok_iff.mpr ⟨(), committed, rfl⟩⟩
  refine ⟨.persist env batch, ?_⟩
  rw [Operation.exec, run]
  rfl

theorem Inv.store {server : Server} {w : World} (inv : Inv server w) {session : Session}
    {batch : CommittedBatch} {env : PersistEnv} {index : Nat} {p : Progress} {t : Tables}
    {result : PersistResult} (writes : Writes server w.tables session batch env index [] p)
    (advanced : advanceCheckpoint env batch p = .ok (t, result)) (committed : commitBatch env = .ok ()) :
    Inv server { w with tables := t, phase := .stored session batch result } := by
  obtain ⟨past, x, cut, below, batched⟩ := writes.streamed
  have written := writes.persisted
  obtain ⟨valid, _, rows⟩ := (persistEvents_spec env batch 0 batch.events inv.spooled.valid).post written
  obtain ⟨spooled, moved, durable⟩ :=
    inv.spooled.store writes.codec cut below batched valid rows advanced
  have hx : x ∈ server.above := cut ▸ List.mem_append_right _ List.mem_cons_self
  have set : checkpoint server.codec t ≠ 0 := by
    rw [moved]
    exact (((lsn_zero_le _).trans_lt (above_initial hx)).trans_le (le_max_right _ _)).ne'
  have here : position server t = checkpoint server.codec t := if_neg set
  have raised : position server w.tables ≤ position server t := by
    rw [here, moved]
    unfold position
    split
    · exact (above_initial hx).le.trans (le_max_right _ _)
    · exact le_max_left _ _
  refine ⟨spooled, inv.run.step (writes.spool_step advanced committed),
    fun zero => absurd zero set, ?_, inv.ordered, ?_, durable.trans here.symm⟩
  · intro s hs
    obtain ⟨status, justified, initial, reached⟩ := inv.acked s hs
    exact ⟨status, justified, initial, reached.trans raised⟩
  · refine ⟨writes.messagePrefix, fun zero => absurd zero set, ⟨past ++ [x], ?_, ?_⟩, ?_⟩
    · rw [cut, List.append_assoc]
      rfl
    · intro y hy
      rcases List.mem_append.mp hy with old | new
      · exact (below y old).trans raised
      · cases List.mem_singleton.mp new
        rw [here, moved]
        exact le_max_right _ _
    · rw [writes.outside]
      exact nofun

theorem Inv.withPhase {server : Server} {w : World} (inv : Inv server w) {phase : Phase}
    (next : PhaseInv server w.tables phase) : Inv server { w with phase } :=
  ⟨inv.spooled, inv.run, inv.confirmed, inv.acked, inv.ordered, next⟩

theorem Inv.confirm {server : Server} {w : World} (inv : Inv server w) {s : Sent} (hs : s ∈ w.sent) :
    Inv server { w with confirmed := s.status.walFlushPosition } := by
  refine ⟨inv.spooled, inv.run, fun zero => .inr ?_, inv.acked, inv.ordered, inv.phase⟩
  have acked := inv.acked s hs
  have reached := acked.reached
  rw [position, if_pos zero] at reached
  exact le_antisymm reached acked.initial

theorem Inv.step {server : Server} {w w' : World} (inv : Inv server w) (h : Step server w w') :
    Inv server w' := by
  have phase := inv.phase
  cases h with
  | foreign op foreign free => exact inv.foreign foreign free
  | connect slot fault start idle confirmed restart started =>
    exact inv.withPhase (startLSN_position inv.spooled (confirmed ▸ inv.confirmed)
      (fun zero => restart (confirmed ▸ zero)) started)
  | stream limits start durable fault past pending connecting tag cut below read =>
    rw [connecting] at phase
    cases phase
    cases inv.spooled.lastDurableLSN read
    refine inv.withPhase ⟨⟨tag, fun zero => ?_, ⟨past, cut, below⟩, nofun⟩, ?_⟩
    · simp [openSession, zero, position]
    · simp only [openSession, position]
      split <;> rfl
  | timeout session streaming =>
    rw [streaming] at phase
    exact inv.send phase.1 phase.2 _ inv.phase
  | keepalive session serverWALEnd replyRequested streaming =>
    rw [streaming] at phase
    cases replyRequested with
    | true => exact inv.send phase.1 phase.2 _ inv.phase
    | false => exact inv
  | loose session message machine batch streaming loose consumed =>
    rw [streaming] at phase
    cases consume_loose loose consumed
    exact inv.withPhase phase
  | begin session x rest machine batch streaming outside pending consumed =>
    rw [streaming] at phase
    obtain ⟨⟨tag, started, streamed, _⟩, durable⟩ := phase
    refine inv.withPhase ⟨⟨tag, started, streamed, ?_⟩, durable⟩
    rintro _ ⟨⟩
    exact ⟨x, rest, [], pending, rfl, (consume_begin consumed).2⟩
  | item session i rest machine batch streaming inside consumed =>
    rw [streaming] at phase
    obtain ⟨⟨tag, started, streamed, within⟩, durable⟩ := phase
    refine inv.withPhase ⟨⟨tag, started, streamed, ?_⟩, durable⟩
    rintro _ ⟨⟩
    obtain ⟨x, later, done, pending, messages, assembled⟩ := within _ inside
    exact ⟨x, later, done ++ [i], pending, by simp [messages], (consume_item assembled consumed).2⟩
  | commit session x rest machine batch env streaming inside pending consumed codec ordered begun =>
  -- the batch is that of the transaction in front of the stream, complete
    rw [streaming] at phase
    obtain ⟨⟨tag, _, ⟨past, cut, below⟩, within⟩, _⟩ := phase
    obtain ⟨y, later, done, pending', messages, assembled⟩ := within _ inside
    obtain ⟨rfl, rfl⟩ := List.cons.inj (pending.symm.trans pending')
    rw [List.append_nil] at messages
    obtain ⟨_, _, ⟨⟩, batched⟩ := consume_commit (messages ▸ assembled) consumed
    exact inv.withPhase ⟨tag, rfl, codec, ordered, begun,
      ⟨past, x, pending ▸ cut, below, tag ▸ batched⟩, [], rfl, rfl, rfl⟩
  | write session batch env index captured rest p p' writing run =>
    rw [writing] at phase
    obtain ⟨tag, outside, codec, ordered, begun, streamed, done, all, rfl, written⟩ := phase
    exact inv.withPhase ⟨tag, outside, codec, ordered, begun, streamed, done ++ [captured],
      by simp [all], by simp, persistEvents_concat written ((Nat.zero_add _).symm ▸ run)⟩
  | store session batch env index p t result writing advanced committed =>
    rw [writing] at phase
    exact inv.store phase advanced committed
  | acknowledge session batch result stored reached =>
  -- the batch has been stored, so the position that is sent is durable
    rw [stored] at phase
    obtain ⟨follows, durable⟩ := phase
    refine inv.send follows durable _ ⟨?_, durable⟩
    exact ⟨follows.messagePrefix, follows.started, follows.streamed, follows.inside⟩
  | stop => exact inv.withPhase trivial
  | confirm s hs => exact inv.confirm hs

theorem replicator_inv {server : Server} {w : World} (h : (replicator server).Reachable w) :
    Inv server w := by
  refine (replicator server).invariant (Inv server) ?_ (fun _ _ _ inv step => inv.step step) h
  rintro _ rfl
  exact ⟨spooled_empty server, spool.reachable_init rfl, fun _ => .inl rfl, nofun, .nil, trivial⟩

/-- Seen from the spool, capture is a sequence of its operations. -/
theorem replicator_spool {server : Server} {w : World} (h : (replicator server).Reachable w) :
    spool.Reachable w.tables := (replicator_inv h).run

section Sample

def sampleContent : Bytes :=
  ("\x7b\"specversion\":\"1.0\",\"id\":\"1\",\"source\":\"/orders\"," ++
    "\"type\":\"order.created\"\x7d").toList.map (fun c => UInt8.ofNat c.toNat)

def sampleTxn : Txn :=
  ⟨7, [.change, .logical "writerelay.v1" true 15 sampleContent], 20, 30, 0, by decide⟩

def sampleServer : Server :=
  ⟨"writerelay.v1", .decimal, [sampleTxn], ⟨10, 5⟩, List.pairwise_singleton _ _⟩

def sampleLimits : Limits := ⟨"writerelay.v1", 262144, 100, 1000000⟩

def sampleBuffer : StateMachine :=
  ⟨true, 7, [capturedEvent ⟨"1.0", "1", "/orders", "order.created", "", none, ""⟩ 15 sampleContent],
    sampleContent.length⟩

def sampleBatch : CommittedBatch := committedBatch sampleBuffer 20 30 0

def sampleTables : Tables where
  events := sampleBatch.events.map (eventRow sampleEnv 0 1)
  lastSequence := 1
  sinks := []
  lastSinkID := 0
  deliveries := []
  durableLSN := some "30"

def sampleWorld : World where
  tables := sampleTables
  confirmed := 10
  sent := [⟨standbyStatus 30, checkpoint .decimal sampleTables, 10⟩]
  phase := .streaming ⟨sampleLimits, 10, 30, .reset, [], none⟩

theorem sampleWorld_reachable : (replicator sampleServer).Reachable sampleWorld := by
  have start := (replicator sampleServer).reachable_init (s := ⟨.empty, 10, [], .idle⟩) rfl
  have connected := start.step (Step.connect ⟨10, 5⟩ none 10 rfl rfl nofun rfl)
  have streaming := connected.step
    (Step.stream sampleLimits 10 0 none [] [sampleTxn] rfl rfl rfl nofun rfl)
  have begun := streaming.step (Step.begin _ sampleTxn [] ⟨true, 7, [], 0⟩ none rfl rfl rfl rfl)
  have changed := begun.step (Step.item _ .change _ _ none rfl rfl rfl)
  have buffered := changed.step
    (Step.item _ _ [] sampleBuffer none rfl rfl (by decide +kernel))
  have decoded := buffered.step
    (Step.commit _ sampleTxn [] .reset sampleBatch sampleEnv rfl rfl rfl rfl rfl (by decide)
      rfl)
  have persisted : persistCommittedBatch sampleEnv sampleBatch .empty = .ok (sampleTables, ⟨1, 0, 30⟩) := by
    decide +kernel
  have stored := decoded.steps (persist_steps persisted)
  have acknowledged := stored.step (Step.acknowledge _ sampleBatch ⟨1, 0, 30⟩ rfl (by decide))
  exact acknowledged

end Sample

/-- The log, by sequence, is the first occurrence of every identity among the protected
messages between the initial position and the checkpoint. -/
theorem capture_simulation {server : Server} {w : World} (h : (replicator server).Reachable w) :
    (w.tables.events.map (·.sequence)).Pairwise (· < ·) ∧
      List.Forall₂ Stored w.tables.events
        (Rows.firsts identityOf (captured server (checkpoint server.codec w.tables))) ∧
      ∀ content ∈ captured server (checkpoint server.codec w.tables),
        Present w.tables.events content := by
  have spooled := (replicator_inv h).spooled
  exact ⟨spooled.valid.sound.events.ordered, spooled.log, spooled.present⟩

theorem capture_simulation_sample : List.Forall₂ Stored sampleTables.events
    (Rows.firsts identityOf (captured sampleServer (checkpoint .decimal sampleTables))) ∧
      checkpoint .decimal sampleTables = 30 ∧ sampleTables.events.length = 1 :=
  ⟨(capture_simulation sampleWorld_reachable).2.1, by decide +kernel, rfl⟩

def StandbyStatus.positions (s : StandbyStatus) : List LSN :=
  [s.walWritePosition, s.walFlushPosition, s.walApplyPosition]

theorem Acked.positions {server : Server} {t : Tables} {s : Sent} (acked : Acked server t s) {l : LSN}
    (hl : l ∈ s.status.positions) : l = s.status.walFlushPosition := by
  rw [acked.status] at hl
  simpa [StandbyStatus.positions, standbyStatus] using hl

theorem Inv.covered {server : Server} {w : World} (inv : Inv server w) {s : Sent} (hs : s ∈ w.sent)
    {x : Txn} (hx : x ∈ server.history) (above : server.initial < x.endLSN)
    (below : x.endLSN ≤ s.status.walFlushPosition) :
    ∀ content ∈ contents server.messagePrefix x.messages, Present w.tables.events content := by
  intro content member
  have hx : x ∈ server.above := List.mem_filter.mpr ⟨hx, decide_eq_true above⟩
  exact inv.spooled.present content
    (mem_captured hx (le_checkpoint hx (below.trans (inv.acked s hs).reached)) member)

/-- Every acknowledged position is covered by the checkpoint, or by the slot position a
session without one started from; what it covers is in the spool; positions never fall. -/
theorem acknowledgment_safety {server : Server} {w : World}
    (h : (replicator server).Reachable w) :
    (∀ s ∈ w.sent, ∀ l ∈ s.status.positions, l ≤ max s.checkpoint s.slotStart ∧
      ∀ x ∈ server.history, server.initial < x.endLSN → x.endLSN ≤ l →
        ∀ content ∈ contents server.messagePrefix x.messages, Present w.tables.events content) ∧
      w.sent.Pairwise (fun later earlier =>
        ∀ l ∈ later.status.positions, ∀ l' ∈ earlier.status.positions, l' ≤ l) := by
  have inv := replicator_inv h
  refine ⟨fun s hs l hl => ?_, ?_⟩
  · have acked := inv.acked s hs
    cases acked.positions hl
    exact ⟨acked.justified, fun x hx above below => inv.covered hs hx above below⟩
  · refine inv.ordered.imp_of_mem fun hs hs' le l hl l' hl' => ?_
    rwa [(inv.acked _ hs).positions hl, (inv.acked _ hs').positions hl']

theorem acknowledgment_safety_sample : Present sampleTables.events sampleContent :=
  ((acknowledgment_safety sampleWorld_reachable).1 _ List.mem_cons_self 30 List.mem_cons_self).2
    sampleTxn List.mem_cons_self (by decide) (by decide) sampleContent (by decide +kernel)

end WriteRelay.Postgres
