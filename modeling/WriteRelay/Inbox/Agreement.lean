import WriteRelay.Inbox.Protocol

/-! What any number of concurrent inbox calls agree on. -/
namespace WriteRelay.Inbox
open Runs
open Claims (Status Tx)

def Call.receipt (call : Call) : String × String := (call.invocation.key, call.digest)

/-- What is in the transaction of a call, and in the table, at each stage. -/
def StageInv (rows : List (String × String)) (call : Call) (tx : Tx String String String) :
    Stage → Prop
  | .claiming | .reading => tx.status.unsent ∧ tx.claim = none
  | .handling | .checking .processed => tx.status.unsent ∧ tx.claim = some call.receipt
  | .checking .duplicate => tx.status.unsent ∧ tx.claim = none ∧ call.receipt ∈ rows
  | .committing .processed =>
    tx.claim = some call.receipt ∧ (call.invocation.client = .sql → tx.aborted = false)
  | .committing .duplicate | .finished (.returned .duplicate) =>
    tx.claim = none ∧ call.receipt ∈ rows
  | .finished (.returned .processed) => tx.status = .committed ∧ tx.claim = some call.receipt
  | .finished (.failed _ true) => True
  | .finished (.failed _ false) | .finished .panicked => tx.status.unsent

structure CallInv (rows : List (String × String)) (call : Call) (tx : Tx String String String) :
    Prop where
  digest : call.digest = Sha256.hex (Sha256.sum call.invocation.body)
  own : tx.claim = some call.receipt ∨ tx.claim = none ∧ tx.writes = []
  called : call.called = true → tx.claim = some call.receipt
  stage : StageInv rows call tx call.stage

structure Inv (w : World) : Prop where
  store : Claims.Inv w.store
  owned : ∀ c tx, w.store.txs c = some tx → ∃ call, w.calls c = some call
  opened : ∀ c call, w.calls c = some call → call.stage.gaveUp = false →
    ∃ tx, w.store.txs c = some tx
  calls : ∀ c call tx, w.calls c = some call → w.store.txs c = some tx →
    CallInv w.store.rows call tx

theorem prepareInbox_digest {delivery : InboxDelivery} {hasHandler : Bool} {table digest : String}
    (h : prepareInbox delivery hasHandler = .ok (table, digest)) :
    digest = Sha256.hex (Sha256.sum delivery.body) := by
  unfold prepareInbox at h
  split at h
  · contradiction
  · cases named : delivery.name with
    | error e =>
      rw [named] at h
      contradiction
    | ok name =>
      rw [named] at h
      exact (Prod.mk.inj (Except.ok.inj h)).2.symm

theorem prepareScript_digest {delivery : ScriptDelivery} {hasHandler : Bool} {table digest : String}
    (h : prepareScript delivery hasHandler = .ok (table, digest)) :
    digest = Sha256.hex (Sha256.sum (delivery.body.getD [])) := by
  unfold prepareScript at h
  split at h
  · contradiction
  · contradiction
  · split at h
    · contradiction
    · split at h
      · contradiction
      · contradiction
      · rename_i body given
        rw [given]
        split at h
        · contradiction
        · split at h
          · contradiction
          · cases named : tableName delivery.schema delivery.table with
            | error e =>
              rw [named] at h
              contradiction
            | ok name =>
              rw [named] at h
              exact (Prod.mk.inj (Except.ok.inj h)).2.symm

theorem prepare_digest {invocation : Invocation} {table digest : String}
    (h : invocation.prepare = .ok (table, digest)) :
    digest = Sha256.hex (Sha256.sum invocation.body) := by
  cases invocation with
  | withInbox => exact prepareInbox_digest h
  | withInboxSQL => exact prepareInbox_digest h
  | withInboxScript => exact prepareScript_digest h

section Stages

variable {rows rows' : List (String × String)} {call : Call} {tx : Tx String String String}
  {stage : Stage}

theorem StageInv.mono (h : StageInv rows call tx stage) (more : ∀ r ∈ rows, r ∈ rows') :
    StageInv rows' call tx stage := by
  rcases stage with _ | _ | _ | (_ | _) | (_ | _) | (_ | _) | ⟨_, _ | _⟩ | _
  case checking.duplicate => exact ⟨h.1, h.2.1, more _ h.2.2⟩
  case committing.duplicate | finished.returned.duplicate => exact ⟨h.1, more _ h.2⟩
  all_goals exact h

theorem stageInv_gaveUp (gaveUp : stage.gaveUp = true) :
    StageInv rows call tx stage ↔ tx.status.unsent := by
  rcases stage with _ | _ | _ | (_ | _) | (_ | _) | (_ | _) | ⟨_, _ | _⟩ | _ <;>
    first | exact Iff.rfl | contradiction

theorem stageInv_rollback (live : tx.status.live) (h : StageInv rows call tx stage) :
    StageInv rows call { tx with status := .rolledBack } stage := by
  rcases stage with _ | _ | _ | (_ | _) | (_ | _) | (_ | _) | ⟨_, _ | _⟩ | _
  case finished.returned.processed => exact absurd h.1 (Claims.live_not_committed live)
  case committing.processed | committing.duplicate | finished.returned.duplicate => exact h
  case finished.failed.true => exact h
  case finished.failed.false | finished.panicked => exact .inr rfl
  all_goals exact ⟨.inr rfl, h.2⟩

theorem stageInv_commit (status : tx.status = .committing) (h : StageInv rows call tx stage) :
    StageInv rows call { tx with status := .committed } stage := by
  have sent : ¬tx.status.unsent := by
    rintro (unsent | unsent) <;> exact absurd (status.symm.trans unsent) nofun
  rcases stage with _ | _ | _ | (_ | _) | (_ | _) | (_ | _) | ⟨_, _ | _⟩ | _
  case committing.processed | committing.duplicate | finished.returned.duplicate => exact h
  case finished.returned.processed => exact ⟨rfl, h.2⟩
  case finished.failed.true => exact h
  case finished.failed.false | finished.panicked => exact absurd h sent
  all_goals exact absurd h.1 sent

theorem stageInv_abort (may : call.mayAbort = true) (h : StageInv rows call tx call.stage) :
    StageInv rows call { tx with aborted := true } call.stage := by
  rcases stage : call.stage with _ | _ | _ | (_ | _) | (_ | _) | (_ | _) | ⟨_, _ | _⟩ | _ <;>
    rw [stage] at h
  case committing.processed =>
    refine ⟨h.1, fun sql => ?_⟩
    simp [Call.mayAbort, Call.mayWrite, Stage.gaveUp, stage, sql] at may
  all_goals exact h

theorem stageInv_afterRead (h : StageInv rows call tx .reading) :
    StageInv rows call tx
      (afterRead call.invocation.client call.digest (rows.lookup call.invocation.key)) := by
  unfold afterRead
  split
  · exact h.1
  · rename_i previous found
    split
    · exact h.1
    · rename_i same
      obtain ⟨before, after, cut, _⟩ := List.lookup_eq_some_iff.mp found
      have member : (call.invocation.key, previous) ∈ rows := by simp [cut]
      rw [not_not.mp same] at member
      exact ⟨h.1, h.2, member⟩

theorem stageInv_answered {result : InboxResult} {tag : Tag} (tagged : tag.of tx)
    (h : StageInv rows call tx (.committing result)) :
    StageInv rows call tx (.finished (call.invocation.client.afterCommit result tag)) := by
  cases tag with
  | commit =>
    cases result with
    | processed => exact ⟨tagged, h.1⟩
    | duplicate => exact h
  | rollback =>
    cases client : call.invocation.client with
    | pgx => trivial
    | script => trivial
    | sql =>
      -- SELECT 1 succeeded and no statement ran since, so PostgreSQL has no reason to roll back
      cases result with
      | processed => exact absurd (tagged.2.symm.trans (h.2 client)) nofun
      | duplicate => exact h

end Stages

theorem CallInv.mono {rows rows' : List (String × String)} {call : Call}
    {tx : Tx String String String} (inv : CallInv rows call tx) (more : ∀ r ∈ rows, r ∈ rows') :
    CallInv rows' call tx :=
  ⟨inv.digest, inv.own, inv.called, inv.stage.mono more⟩

theorem put_calls_self (w : World) (c : Nat) (call : Call) (store : Store) :
    (w.put c call store).calls c = some call := Function.update_self ..

theorem put_calls_of_ne (w : World) {c j : Nat} (there : j ≠ c) (call : Call) (store : Store) :
    (w.put c call store).calls j = w.calls j := Function.update_of_ne there ..

theorem put_calls {w : World} {c j : Nat} {call call' : Call} {store : Store}
    (h : (w.put c call store).calls j = some call') :
    j = c ∧ call' = call ∨ j ≠ c ∧ w.calls j = some call' := by
  simp only [World.put, Function.update_apply] at h
  split at h
  · rename_i here
    exact .inl ⟨here, (Option.some.inj h).symm⟩
  · rename_i there
    exact .inr ⟨there, h⟩

theorem Inv.change {w : World} (inv : Inv w) {c : Nat} {call : Call} {tx : Tx String String String}
    {store : Store} (sound : Claims.Inv store) (rows : ∀ r ∈ w.store.rows, r ∈ store.rows)
    (here : store.txs c = some tx) (elsewhere : ∀ j, j ≠ c → store.txs j = w.store.txs j)
    (next : CallInv store.rows call tx) : Inv (w.put c call store) := by
  refine ⟨sound, ?_, ?_, ?_⟩
  · intro j tx' htx'
    by_cases same : j = c
    · exact ⟨call, same ▸ put_calls_self ..⟩
    · obtain ⟨call', found⟩ := inv.owned j tx' (elsewhere j same ▸ htx')
      exact ⟨call', (put_calls_of_ne w same ..).trans found⟩
  · intro j call' found active
    rcases put_calls found with ⟨rfl, rfl⟩ | ⟨there, found⟩
    · exact ⟨tx, here⟩
    · obtain ⟨tx', htx'⟩ := inv.opened j call' found active
      exact ⟨tx', (elsewhere j there).trans htx'⟩
  · intro j call' tx' found htx'
    rcases put_calls found with ⟨rfl, rfl⟩ | ⟨there, found⟩
    · cases here.symm.trans htx'
      exact next
    · exact (inv.calls j call' tx' found (elsewhere j there ▸ htx')).mono rows

theorem Inv.move {w : World} (inv : Inv w) {c : Nat} {call : Call} {tx : Tx String String String}
    (here : w.store.txs c = some tx) (next : CallInv w.store.rows call tx) :
    Inv (w.put c call w.store) :=
  inv.change inv.store (fun _ hr => hr) here (fun _ _ => rfl) next

theorem Inv.transact {w : World} (inv : Inv w) {c : Nat} {call : Call}
    {tx : Tx String String String} (step : Claims.Step w.store (w.store.put c tx))
    (next : CallInv w.store.rows call tx) : Inv (w.put c call (w.store.put c tx)) :=
  inv.change (inv.store.step step) (fun _ hr => hr) (Function.update_self ..)
    (fun _ there => Function.update_of_ne there ..) next

theorem Inv.reject {w : World} (inv : Inv w) {c : Nat} (new : w.calls c = none) (call : Call)
    (gaveUp : call.stage.gaveUp = true) : Inv (w.put c call w.store) := by
  have without : ∀ tx, w.store.txs c ≠ some tx := by
    intro tx htx
    obtain ⟨call', found⟩ := inv.owned c tx htx
    rw [new] at found
    contradiction
  refine ⟨inv.store, ?_, ?_, ?_⟩
  · intro j tx htx
    have there : j ≠ c := fun same => without tx (same ▸ htx)
    obtain ⟨call', found⟩ := inv.owned j tx htx
    exact ⟨call', (put_calls_of_ne w there ..).trans found⟩
  · intro j call' found active
    rcases put_calls found with ⟨rfl, rfl⟩ | ⟨there, found⟩
    · exact absurd (active.symm.trans gaveUp) Bool.false_ne_true
    · exact inv.opened j call' found active
  · intro j call' tx found htx
    rcases put_calls found with ⟨rfl, rfl⟩ | ⟨there, found⟩
    · exact absurd htx (without tx)
    · exact inv.calls j call' tx found htx

theorem Inv.step {table : String} {w w' : World} (inv : Inv w) (h : Step table w w') : Inv w' := by
  cases h with
  | reject c invocation e new _ => exact inv.reject new _ rfl
  | unopened c invocation e new _ => exact inv.reject new _ rfl
  | begin c invocation digest new prepared =>
    have absent : w.store.txs c = none := by
      by_contra present
      obtain ⟨tx, htx⟩ := Option.ne_none_iff_exists'.mp present
      obtain ⟨call, found⟩ := inv.owned c tx htx
      rw [new] at found
      contradiction
    exact inv.transact (.begin c absent) ⟨prepare_digest prepared, .inr ⟨rfl, rfl⟩, nofun, .inl rfl, rfl⟩
  | claimed c call tx found stage htx usable none free =>
    obtain ⟨digest, _, _, staged⟩ := inv.calls c call tx found htx
    rw [stage] at staged
    exact inv.transact (.insert c tx _ _ htx usable none free)
      ⟨digest, .inl rfl, fun _ => rfl, staged.1, rfl⟩
  | conflicting c call tx found stage htx usable known =>
    obtain ⟨digest, own, called, staged⟩ := inv.calls c call tx found htx
    rw [stage] at staged
    exact inv.move htx ⟨digest, own, called, staged⟩
  | claimedLate c call tx found gaveUp htx usable none free =>
    obtain ⟨digest, _, _, staged⟩ := inv.calls c call tx found htx
    rw [stageInv_gaveUp gaveUp] at staged
    exact inv.transact (.insert c tx _ _ htx usable none free)
      ⟨digest, .inl rfl, fun _ => rfl, (stageInv_gaveUp gaveUp).mpr staged⟩
  | read c call tx found stage htx usable =>
    obtain ⟨digest, own, called, staged⟩ := inv.calls c call tx found htx
    rw [stage] at staged
    exact inv.move htx ⟨digest, own, called, stageInv_afterRead staged⟩
  | write c call tx sql found may htx usable =>
    obtain ⟨digest, own, called, staged⟩ := inv.calls c call tx found htx
    have claim := called (Bool.and_eq_true_iff.mp may).1
    exact inv.transact (.write c tx sql htx usable) ⟨digest, .inl claim, called, staged⟩
  | abort c call tx found may htx live =>
    obtain ⟨digest, own, called, staged⟩ := inv.calls c call tx found htx
    exact inv.transact (.abort c tx htx live) ⟨digest, own, called, stageInv_abort may staged⟩
  | handled c call found stage =>
    obtain ⟨tx, htx⟩ := inv.opened c call found (by rw [stage]; rfl)
    obtain ⟨digest, own, called, staged⟩ := inv.calls c call tx found htx
    rw [stage] at staged
    exact inv.move htx ⟨digest, own, called, staged⟩
  | checked c call tx result found stage htx sound =>
    obtain ⟨digest, own, called, staged⟩ := inv.calls c call tx found htx
    rw [stage] at staged
    refine inv.move htx ⟨digest, own, called, ?_⟩
    cases result with
    | processed =>
      refine ⟨staged.2, fun sql => (sound ?_).2⟩
      exact fun script => absurd (sql.symm.trans script) nofun
    | duplicate => exact staged.2
  | fail c call e found _ stage =>
    obtain ⟨tx, htx⟩ := inv.opened c call found (by
      rcases stage with stage | stage | stage | ⟨_, stage⟩ <;> rw [stage] <;> rfl)
    obtain ⟨digest, own, called, staged⟩ := inv.calls c call tx found htx
    refine inv.move htx ⟨digest, own, called, ?_⟩
    rcases stage with stage | stage | stage | ⟨result, stage⟩
    · exact (stage ▸ staged).1
    · exact (stage ▸ staged).1
    · exact (stage ▸ staged).1
    · rw [stage] at staged
      cases result <;> exact staged.1
  | panic c call found stage =>
    obtain ⟨tx, htx⟩ := inv.opened c call found (by rw [stage]; rfl)
    obtain ⟨digest, own, called, staged⟩ := inv.calls c call tx found htx
    rw [stage] at staged
    exact inv.move htx ⟨digest, own, called, staged.1⟩
  | send c call tx result found stage htx active =>
    obtain ⟨digest, own, called, staged⟩ := inv.calls c call tx found htx
    refine inv.transact (.send c tx htx active) ⟨digest, own, called, ?_⟩
    rw [stage] at staged ⊢
    cases result <;> exact staged
  | commit c call tx found htx status sound =>
    obtain ⟨digest, own, called, staged⟩ := inv.calls c call tx found htx
    refine inv.change (inv.store.step (.commit c tx htx status sound))
      (fun _ => List.mem_append_left _) (Function.update_self ..)
      (fun _ there => Function.update_of_ne there ..) ?_
    exact CallInv.mono ⟨digest, own, called, stageInv_commit status staged⟩
      (fun _ => List.mem_append_left _)
  | rollback c call tx found htx live =>
    obtain ⟨digest, own, called, staged⟩ := inv.calls c call tx found htx
    exact inv.transact (.rollback c tx htx live) ⟨digest, own, called, stageInv_rollback live staged⟩
  | answered c call tx result tag found stage htx tagged =>
    obtain ⟨digest, own, called, staged⟩ := inv.calls c call tx found htx
    rw [stage] at staged
    exact inv.move htx ⟨digest, own, called, stageInv_answered tagged staged⟩
  | commitFailed c call e result found stage _ =>
    obtain ⟨tx, htx⟩ := inv.opened c call found (by rw [stage]; rfl)
    obtain ⟨digest, own, called, _⟩ := inv.calls c call tx found htx
    exact inv.move htx ⟨digest, own, called, trivial⟩

theorem inbox_inv {table : String} {w : World} (h : (inbox table).Reachable w) : Inv w := by
  refine (inbox table).invariant Inv ?_ (fun _ _ _ inv step => inv.step step) h
  rintro _ rfl
  refine ⟨Claims.inv_empty, ?_, ?_, ?_⟩
  · intro c tx htx
    contradiction
  · intro c call found
    contradiction
  · intro c call tx found
    contradiction

/-- From one world to a later one: rows stay, and a callback is only started for a key
that has no row. -/
structure Later (w w' : World) : Prop where
  rows : ∀ r ∈ w.store.rows, r ∈ w'.store.rows
  called : ∀ c call', w'.calls c = some call' → call'.called = true →
    call'.invocation.key ∈ w.store.rows.map Prod.fst →
    ∃ call, w.calls c = some call ∧ call.called = true ∧ call.invocation = call'.invocation

theorem Later.refl (w : World) : Later w w :=
  ⟨fun _ hr => hr, fun _ call found called _ => ⟨call, found, called, rfl⟩⟩

theorem Later.trans {a b c : World} (first : Later a b) (next : Later b c) : Later a c := by
  refine ⟨fun r hr => next.rows r (first.rows r hr), fun i call' found called known => ?_⟩
  have known' : call'.invocation.key ∈ b.store.rows.map Prod.fst := by
    obtain ⟨r, hr, same⟩ := List.mem_map.mp known
    exact same ▸ List.mem_map_of_mem (first.rows r hr)
  obtain ⟨call, found, called, same⟩ := next.called i call' found called known'
  obtain ⟨call₀, found₀, called₀, same₀⟩ := first.called i call found called (same ▸ known)
  exact ⟨call₀, found₀, called₀, same₀.trans same⟩

theorem later_put {w : World} {c : Nat} {call' : Call} {store : Store}
    (rows : ∀ r ∈ w.store.rows, r ∈ store.rows)
    (kept : call'.called = true → ∃ call, w.calls c = some call ∧ call.called = true ∧
      call.invocation = call'.invocation) : Later w (w.put c call' store) := by
  refine ⟨rows, fun j call'' found called _ => ?_⟩
  rcases put_calls found with ⟨rfl, rfl⟩ | ⟨_, found⟩
  · exact kept called
  · exact ⟨call'', found, called, rfl⟩

theorem Step.invocation {table : String} {w w' : World} (h : Step table w w') {c : Nat} {call : Call}
    (found : w.calls c = some call) :
    ∃ call', w'.calls c = some call' ∧ call'.invocation = call.invocation := by
  have put : ∀ {j : Nat} {old new : Call} {store : Store}, w.calls j = some old →
      new.invocation = old.invocation →
      ∃ call', (w.put j new store).calls c = some call' ∧ call'.invocation = call.invocation := by
    intro j old new store here same
    by_cases there : c = j
    · subst there
      cases here.symm.trans found
      exact ⟨new, put_calls_self .., same⟩
    · exact ⟨call, (put_calls_of_ne w there ..).trans found, rfl⟩
  have fresh : ∀ {j : Nat} {new : Call} {store : Store}, w.calls j = none →
      ∃ call', (w.put j new store).calls c = some call' ∧ call'.invocation = call.invocation := by
    intro j new store absent
    have there : c ≠ j := by
      rintro rfl
      rw [absent] at found
      contradiction
    exact ⟨call, (put_calls_of_ne w there ..).trans found, rfl⟩
  cases h with
  | reject j _ _ absent | unopened j _ _ absent | begin j _ _ absent => exact fresh absent
  | claimed j old tx here | conflicting j old tx here | claimedLate j old tx here
  | read j old tx here | write j old tx _ here | abort j old tx here | handled j old here
  | checked j old tx _ here | fail j old _ here | panic j old here | send j old tx _ here
  | commit j old tx here | rollback j old tx here | answered j old tx _ _ here
  | commitFailed j old _ _ here => exact put here rfl

theorem Step.later {table : String} {w w' : World} (h : Step table w w') : Later w w' := by
  cases h with
  | claimed c call tx found stage htx usable none free =>
    refine ⟨fun _ hr => hr, fun j call' found' called known => ?_⟩
    rcases put_calls found' with ⟨rfl, rfl⟩ | ⟨_, found'⟩
    · exact absurd known free.1
    · exact ⟨call', found', called, rfl⟩
  | reject => exact later_put (fun _ hr => hr) nofun
  | unopened => exact later_put (fun _ hr => hr) nofun
  | begin => exact later_put (fun _ hr => hr) nofun
  | commit c call tx found =>
    exact later_put (fun _ => List.mem_append_left _) fun called => ⟨call, found, called, rfl⟩
  | conflicting c call tx found | claimedLate c call tx found | read c call tx found
  | write c call tx _ found | abort c call tx found | handled c call found
  | checked c call tx _ found | fail c call _ found | panic c call found
  | send c call tx _ found | rollback c call tx found | answered c call tx _ _ found
  | commitFailed c call _ _ found =>
    exact later_put (fun _ hr => hr) fun called => ⟨call, found, called, rfl⟩

theorem inbox_later {table : String} {w w' : World} (h : (inbox table).Reachable w)
    (run : (inbox table).Steps w w') : Later w w' :=
  (inbox table).monotone Later Later.refl (fun _ _ _ => .trans) (fun _ _ _ step => step.later) h run

def ConflictSeen (rows : List (String × String)) (call : Call) : Prop :=
  ∀ atCommit, call.stage = .finished (.failed .conflict atCommit) →
    ∃ d, (call.invocation.key, d) ∈ rows ∧ d ≠ Sha256.hex (Sha256.sum call.invocation.body)

theorem name_error (table : InboxTable) : table.name ≠ .error .conflict := by
  simp only [InboxTable.name, ne_eq]
  generalize (if table.schema = "" then "public" else table.schema) = schema
  generalize (if table.table = "" then "writerelay_inbox" else table.table) = name
  split <;> simp

theorem prepareInbox_error {delivery : InboxDelivery} {hasHandler : Bool} :
    prepareInbox delivery hasHandler ≠ .error .conflict := by
  unfold prepareInbox
  split
  · simp
  · cases named : delivery.name with
    | ok table => simp [Except.map]
    | error e =>
      intro h
      cases h
      exact name_error _ named

theorem prepareScript_error {delivery : ScriptDelivery} {hasHandler : Bool} :
    prepareScript delivery hasHandler ≠ .error .conflict := by
  unfold prepareScript tableName
  repeat' split
  all_goals simp [Except.map]

theorem prepare_error {invocation : Invocation} : invocation.prepare ≠ .error .conflict := by
  cases invocation with
  | withInbox => exact prepareInbox_error
  | withInboxSQL => exact prepareInbox_error
  | withInboxScript => exact prepareScript_error

theorem afterRead_conflict {rows : List (String × String)} {call : Call}
    (digest : call.digest = Sha256.hex (Sha256.sum call.invocation.body)) :
    ConflictSeen rows (call.at
      (afterRead call.invocation.client call.digest (rows.lookup call.invocation.key))) := by
  intro atCommit stage
  simp only [Call.at, afterRead] at stage
  split at stage
  · unfold Client.missing at stage
    split at stage <;> cases stage
  · rename_i previous found
    split at stage
    · rename_i different
      obtain ⟨before, after, cut, _⟩ := List.lookup_eq_some_iff.mp found
      exact ⟨previous, by simp [cut, Call.at], digest ▸ different⟩
    · contradiction

theorem Step.conflictSeen {table : String} {w w' : World} (h : Step table w w') (inv : Inv w)
    (seen : ∀ c call, w.calls c = some call → ConflictSeen w.store.rows call) :
    ∀ c call, w'.calls c = some call → ConflictSeen w'.store.rows call := by
  have rows := h.later.rows
  have keep : ∀ {c call}, w.calls c = some call → ConflictSeen w'.store.rows call := by
    intro c call found atCommit stage
    obtain ⟨d, hd, different⟩ := seen c call found atCommit stage
    exact ⟨d, rows _ hd, different⟩
  intro j call' found'
  cases h with
  | reject c invocation e new prepared =>
    rcases put_calls found' with ⟨rfl, rfl⟩ | ⟨_, old⟩
    · rintro _ ⟨⟩
      exact absurd prepared prepare_error
    · exact keep old
  | unopened c invocation e new outside =>
    rcases put_calls found' with ⟨rfl, rfl⟩ | ⟨_, old⟩
    · rintro _ ⟨⟩
      rcases outside with outside | ⟨_, outside⟩ <;> contradiction
    · exact keep old
  | begin | claimed | conflicting | handled | checked | panic =>
    rcases put_calls found' with ⟨rfl, rfl⟩ | ⟨_, old⟩
    · rintro _ ⟨⟩
    · exact keep old
  | claimedLate c call tx found | write c call tx _ found | abort c call tx found
  | send c call tx _ found | commit c call tx found | rollback c call tx found =>
    rcases put_calls found' with ⟨rfl, rfl⟩ | ⟨_, old⟩
    · exact keep found
    · exact keep old
  | read c call tx found stage htx usable =>
    rcases put_calls found' with ⟨rfl, rfl⟩ | ⟨_, old⟩
    · exact afterRead_conflict (inv.calls _ call tx found htx).digest
    · exact keep old
  | fail c call e found outside stage =>
    rcases put_calls found' with ⟨rfl, rfl⟩ | ⟨_, old⟩
    · rintro _ ⟨⟩
      rcases outside with outside | ⟨_, outside⟩ <;> contradiction
    · exact keep old
  | answered c call tx result tag found stage htx tagged =>
    rcases put_calls found' with ⟨rfl, rfl⟩ | ⟨_, old⟩
    · intro atCommit stage'
      simp only [Call.at, Client.afterCommit] at stage'
      split at stage' <;> cases stage'
    · exact keep old
  | commitFailed c call e result found stage outside =>
    rcases put_calls found' with ⟨rfl, rfl⟩ | ⟨_, old⟩
    · rintro _ ⟨⟩
      contradiction
    · exact keep old

theorem inbox_conflictSeen {table : String} {w : World} (h : (inbox table).Reachable w) :
    ∀ c call, w.calls c = some call → ConflictSeen w.store.rows call := by
  refine (inbox table).invariant _ ?_
    (fun _ _ reachable seen step => step.conflictSeen (inbox_inv reachable) seen) h
  rintro _ rfl c call found
  contradiction

structure Agreement (table : String) (w : World) : Prop where
  /-- Callback writes are only committed together with the receipt of their call. -/
  together : ∀ e ∈ w.store.commits, ∃ call, w.calls e.owner = some call ∧
    (e.claim = some call.receipt ∨ e.claim = none ∧ e.writes = [])
  once : (w.store.commits.map (·.owner)).Nodup ∧ ∀ key, (w.store.claims key).length ≤ 1
  processedOnce : ∀ c c' call call', w.calls c = some call → w.calls c' = some call' →
    call.stage = .finished (.returned .processed) → call'.stage = .finished (.returned .processed) →
    call.invocation.key = call'.invocation.key → c = c'
  processed : ∀ c call, w.calls c = some call → call.stage = .finished (.returned .processed) →
    ∃ tx, w.store.txs c = some tx ∧ ⟨c, some call.receipt, tx.writes⟩ ∈ w.store.commits
  duplicate : ∀ c call, w.calls c = some call → call.stage = .finished (.returned .duplicate) →
    (call.invocation.key, Sha256.hex (Sha256.sum call.invocation.body)) ∈ w.store.rows
  /-- An error before the commit, or a panic, leaves nothing behind. -/
  nothing : ∀ c call, w.calls c = some call → call.stage.gaveUp = true →
    ∀ e ∈ w.store.commits, e.owner ≠ c
  kept : (w.store.rows.map Prod.fst).Nodup ∧ ∀ w', (inbox table).Steps w w' → Later w w'

theorem Inv.committed {w : World} (inv : Inv w) {c : Nat} {call : Call} (found : w.calls c = some call)
    (stage : call.stage = .finished (.returned .processed)) :
    ∃ tx, w.store.txs c = some tx ∧ ⟨c, some call.receipt, tx.writes⟩ ∈ w.store.commits := by
  obtain ⟨tx, htx⟩ := inv.opened c call found (by rw [stage]; rfl)
  have staged := (inv.calls c call tx found htx).stage
  rw [stage] at staged
  exact ⟨tx, htx, staged.2 ▸ inv.store.complete c tx htx staged.1⟩

section Sample

def sampleCall (key : String) : Invocation := .withInbox ⟨⟨"", ""⟩, key, [123, 125]⟩ true

def sampleRetry (key : String) : Invocation :=
  .withInboxScript ⟨.absent, .absent, .value key, .value [123, 125]⟩ true

def sampleDigest : String := Sha256.hex (Sha256.sum [123, 125])

def sampleTable : String := quoted "public" "writerelay_inbox"

theorem sample_prepare {key : String} (valid : isKey key = true) :
    (sampleCall key).prepare = .ok (sampleTable, sampleDigest) ∧
      (sampleRetry key).prepare = .ok (sampleTable, sampleDigest) := by
  have identifiers : isIdentifier "public" = true ∧ isIdentifier "writerelay_inbox" = true := by decide
  constructor
  · simp [sampleCall, Invocation.prepare, prepareInbox, valid, InboxTable.name, identifiers, Except.map,
      sampleTable, sampleDigest]
  · simp [sampleRetry, Invocation.prepare, prepareScript, valid, tableName, Property.orElse,
      identifiers, Except.map, sampleTable, sampleDigest]

/-- A Go call processes the delivery and a TypeScript call finds the duplicate. -/
theorem sample_run (key : String) (valid : isKey key = true) :
    ∃ w, (inbox sampleTable).Reachable w ∧
      w.calls 0 = some ⟨sampleCall key, sampleDigest, .finished (.returned .processed), true⟩ ∧
      w.calls 1 = some ⟨sampleRetry key, sampleDigest, .finished (.returned .duplicate), false⟩ ∧
      ∀ c, 2 ≤ c → w.calls c = none := by
  obtain ⟨prepared, prepared'⟩ := sample_prepare valid
  have start := (inbox sampleTable).reachable_init (s := ⟨.empty, fun _ => none⟩) rfl
  have begun := start.step (Step.begin 0 (sampleCall key) sampleDigest rfl prepared)
  have claimed := begun.step (Step.claimed 0 _ .begin rfl rfl rfl ⟨.inl rfl, rfl⟩ rfl ?free)
  have written := claimed.step (Step.write 0 _ _ "UPDATE orders" rfl rfl rfl ⟨.inl rfl, rfl⟩)
  have handled := written.step (Step.handled 0 _ rfl rfl)
  have checked := handled.step (Step.checked 0 _ _ .processed rfl rfl rfl fun _ => ⟨.inl rfl, rfl⟩)
  have sent := checked.step (Step.send 0 _ _ .processed rfl rfl rfl rfl)
  have committed := sent.step (Step.commit 0 _ _ rfl rfl rfl rfl)
  have returned := committed.step (Step.answered 0 _ _ .processed .commit rfl rfl rfl rfl)
  have begun' := returned.step (Step.begin 1 (sampleRetry key) sampleDigest rfl prepared')
  have known := begun'.step
    (Step.conflicting 1 _ .begin rfl rfl rfl ⟨.inl rfl, rfl⟩ List.mem_cons_self)
  have read := known.step (Step.read 1 _ .begin rfl rfl rfl ⟨.inl rfl, rfl⟩)
  have checked' := read.step
    (Step.checked 1 _ .begin .duplicate rfl ?stage rfl fun _ => ⟨.inl rfl, rfl⟩)
  have sent' := checked'.step (Step.send 1 _ .begin .duplicate rfl rfl rfl rfl)
  have committed' := sent'.step (Step.commit 1 _ _ rfl rfl rfl rfl)
  have returned' := committed'.step (Step.answered 1 _ _ .duplicate .commit rfl rfl rfl rfl)
  · refine ⟨_, returned', rfl, rfl, fun c other => ?_⟩
    have apart : c ≠ 0 ∧ c ≠ 1 := by omega
    simp [World.put, Function.update_of_ne apart.1, Function.update_of_ne apart.2]
  case free =>
    refine ⟨List.not_mem_nil, fun i tx htx holds => ?_⟩
    rcases Claims.put_cases htx with ⟨rfl, rfl⟩ | ⟨_, htx⟩
    · obtain ⟨_, _, claim⟩ := holds
      contradiction
    · contradiction
  case stage =>
    have found : [(key, sampleDigest)].lookup key = some sampleDigest := List.lookup_cons_self
    change afterRead .script sampleDigest ([(key, sampleDigest)].lookup key) = _
    rw [found]
    exact if_neg (not_not.mpr rfl)

def sampleKey : String := "0123456789abcdef0123456789abcdef0123456789abcdef0123456789abcdef"

end Sample

theorem Inv.together {w : World} (inv : Inv w) {e : Claims.Commit Nat String String String}
    (he : e ∈ w.store.commits) : ∃ call, w.calls e.owner = some call ∧
      call.digest = Sha256.hex (Sha256.sum call.invocation.body) ∧
      (e.claim = some call.receipt ∨ e.claim = none ∧ e.writes = []) := by
  obtain ⟨tx, htx, _, entry⟩ := inv.store.logged e he
  obtain ⟨call, found⟩ := inv.owned e.owner tx htx
  have callInv := inv.calls _ call tx found htx
  rw [entry]
  exact ⟨call, found, callInv.digest, callInv.own⟩

theorem Inv.row_origin {w : World} (inv : Inv w) {key digest : String}
    (row : (key, digest) ∈ w.store.rows) : ∃ c call, w.calls c = some call ∧
      call.invocation.key = key ∧ digest = Sha256.hex (Sha256.sum call.invocation.body) := by
  rw [inv.store.rows] at row
  obtain ⟨e, he, claim⟩ := List.mem_filterMap.mp row
  obtain ⟨call, found, digested, own | ⟨none, _⟩⟩ := inv.together he
  · cases Option.some.inj (claim.symm.trans own)
    exact ⟨e.owner, call, found, rfl, digested⟩
  · rw [claim] at none
    contradiction

theorem Inv.returned {w : World} (inv : Inv w) {c : Nat} {call : Call} (found : w.calls c = some call)
    {result : InboxResult} (stage : call.stage = .finished (.returned result)) :
    call.receipt ∈ w.store.rows := by
  cases result with
  | processed =>
    obtain ⟨tx, _, entry⟩ := inv.committed found stage
    rw [inv.store.rows]
    exact List.mem_filterMap.mpr ⟨_, entry, rfl⟩
  | duplicate =>
    obtain ⟨tx, htx⟩ := inv.opened c call found (by rw [stage]; rfl)
    have staged := (inv.calls c call tx found htx).stage
    rw [stage] at staged
    exact staged.2

theorem inbox_agreement {table : String} {w : World} (h : (inbox table).Reachable w) :
    Agreement table w := by
  have inv := inbox_inv h
  refine ⟨?_, ⟨inv.store.once, inv.store.claims_length⟩, ?_,
    fun c call found stage => inv.committed found stage, ?_, ?_,
    inv.store.keys, fun w' run => inbox_later h run⟩
  · intro e he
    obtain ⟨call, found, _, own⟩ := inv.together he
    exact ⟨call, found, own⟩
  · intro c c' call call' found found' stage stage' same
    obtain ⟨_, _, entry⟩ := inv.committed found stage
    obtain ⟨_, _, entry'⟩ := inv.committed found' stage'
    have equal := @Claims.Inv.unique _ _ _ _ _ inv.store _ _ entry entry' _ call.digest call'.digest rfl
      (by rw [same]; rfl)
    exact congrArg (·.owner) equal
  · intro c call found stage
    obtain ⟨tx, htx⟩ := inv.opened c call found (by rw [stage]; rfl)
    obtain ⟨digest, _, _, staged⟩ := inv.calls c call tx found htx
    rw [stage] at staged
    exact digest ▸ staged.2
  · intro c call found gaveUp e he same
    obtain ⟨tx, htx, committed, _⟩ := inv.store.logged e he
    have staged := (inv.calls c call tx found (same ▸ htx)).stage
    rcases (stageInv_gaveUp gaveUp).mp staged with unsent | unsent <;>
      exact absurd (committed.symm.trans unsent) nofun

theorem inbox_agreement_sample : ∃ w, Agreement sampleTable w ∧ ∃ call call',
    w.calls 0 = some call ∧ call.stage = .finished (.returned .processed) ∧
      w.calls 1 = some call' ∧ call'.stage = .finished (.returned .duplicate) := by
  obtain ⟨w, reachable, processed, duplicate, _⟩ := sample_run sampleKey (by decide)
  exact ⟨w, inbox_agreement reachable, _, _, processed, rfl, duplicate, rfl⟩

end WriteRelay.Inbox
