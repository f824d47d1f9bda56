import WriteRelay.Postgres.Account

/-! `Setup` while nobody else touches the server: it accepts exactly the compatible servers,
changes nothing before it accepts, and can be repeated until it is through. -/
namespace WriteRelay.Postgres
open Fallible Settings Runs

section Preflight

variable {α β : Type} {env : SetupEnv} {cfg : PostgresConfig} {c : Catalogue}

def SetupEnv.Alone (env : SetupEnv) : Prop := ∀ site c, env.meanwhile site c = c

def SetupEnv.Unfaulted (env : SetupEnv) : Prop := ∀ site, env.faults site = none

/-- `x` leaves server and report alone. A value that it returns is one that `P` describes, and
without faults it returns such a value where there is one. -/
def Decides (env : SetupEnv) (x : SetupM α) (P : Catalogue → α → Prop) : Prop :=
  ∀ s : SetupState,
    (∃ calls, (∃ e, x s = .error e { s with calls }) ∨
      ∃ a, x s = .ok a { s with calls } ∧ P s.catalogue a) ∧
    (env.Unfaulted → ∀ a, P s.catalogue a → ∃ calls, x s = .ok a { s with calls })

theorem Decides.pure {a : α} : Decides env (Pure.pure a) fun _ b => a = b := by
  refine fun s => ⟨⟨s.calls, .inr ⟨a, rfl, rfl⟩⟩, ?_⟩
  rintro _ _ rfl
  exact ⟨s.calls, rfl⟩

theorem Decides.outcome (x : Except Failure α) :
    Decides env (Fallible.outcome x) fun _ a => x = .ok a := by
  intro s
  refine ⟨⟨s.calls, ?_⟩, ?_⟩
  · cases x with
    | ok a => exact .inr ⟨a, rfl, rfl⟩
    | error e => exact .inl ⟨e, rfl⟩
  · rintro _ _ rfl
    exact ⟨s.calls, rfl⟩

theorem Decides.attempt {site : SetupSite} {wrap : DriverError → Failure} :
    Decides env (Fallible.outcome (attempt (env.faults site) wrap)) fun _ _ => True := by
  intro s
  refine ⟨⟨s.calls, ?_⟩, fun clear _ _ => ⟨s.calls, ?_⟩⟩
  · cases env.faults site with
    | none => exact .inr ⟨(), rfl, trivial⟩
    | some text => exact .inl ⟨_, rfl⟩
  · rw [clear site]
    rfl

theorem Decides.bind {x : SetupM α} {k : α → SetupM β} {P : Catalogue → α → Prop}
    {Q : α → Catalogue → β → Prop} (first : Decides env x P) (next : ∀ a, Decides env (k a) (Q a)) :
    Decides env (x >>= k) fun c b => ∃ a, P c a ∧ Q a c b := by
  intro s
  obtain ⟨⟨calls, ended⟩, returns⟩ := first s
  constructor
  · rcases ended with ⟨e, failed⟩ | ⟨a, done, holds⟩
    · exact ⟨calls, .inl ⟨e, bind_raised failed⟩⟩
    · obtain ⟨⟨calls', ended'⟩, _⟩ := next a { s with calls }
      refine ⟨calls', ?_⟩
      rw [bind_ended done]
      rcases ended' with failed | ⟨b, done', holds'⟩
      · exact .inl failed
      · exact .inr ⟨b, done', a, holds, holds'⟩
  · rintro clear b ⟨a, holds, holds'⟩
    obtain ⟨calls, done⟩ := returns clear a holds
    rw [bind_ended done]
    exact (next a { s with calls }).2 clear b holds'

theorem Decides.congr {x : SetupM α} {P Q : Catalogue → α → Prop} (h : Decides env x P)
    (same : ∀ c a, P c a ↔ Q c a) : Decides env x Q := by
  have equal : P = Q := funext fun c => funext fun a => propext (same c a)
  exact equal ▸ h

theorem interfere_alone (alone : env.Alone) (site : SetupSite) (s : SetupState) :
    env.interfere site s = s := by
  rw [SetupEnv.interfere, alone]

theorem Decides.inspect {site : SetupSite} {wrap : DriverError → Failure}
    {read : Catalogue → Except Failure α} (alone : env.Alone) :
    Decides env (inspect env site wrap read) fun c a => read c = .ok a := by
  intro s
  rw [inspect_ran, interfere_alone alone]
  refine ⟨⟨s.calls ++ [⟨site, s.catalogue, s.catalogue⟩], ?_⟩, fun clear a done =>
    ⟨s.calls ++ [⟨site, s.catalogue, s.catalogue⟩], ?_⟩⟩
  · cases result : WriteRelay.attempt (env.faults site) wrap >>= fun _ => read s.catalogue with
    | error e => exact .inl ⟨e, rfl⟩
    | ok a =>
      obtain ⟨_, _, done⟩ := bind_ok_iff.mp result
      exact .inr ⟨a, rfl, done⟩
  · have done : (WriteRelay.attempt (env.faults site) wrap >>= fun _ => read s.catalogue) = .ok a :=
      bind_ok_iff.mpr ⟨(), attempt_ok_iff.mpr (clear site), done⟩
    rw [done]
    rfl

structure Catalogue.Fits (codec : LsnCodec) (c : Catalogue) : Prop where
  supported : c.Supported
  publication : ∀ tables, c.publication = some tables → tables = 0
  slot : ∀ row, c.slot = some row → row.Suits codec c.database

/-- What the preflight accepts. -/
structure Catalogue.Compatible (codec : LsnCodec) (createSlot : Bool) (c : Catalogue) : Prop
    extends c.Fits codec where
  missing : c.slot = none → createSlot = true
  idle : ∀ row, c.slot = some row → row.active = false

def Catalogue.found (c : Catalogue) : Found := ⟨c.function.isSome, c.publication.isSome, c.slot.isSome⟩

theorem inspectServer_decides (alone : env.Alone) :
    Decides env (inspectServer env) fun c database => c.Supported ∧ c.database = database := by
  refine ((Decides.inspect alone).bind fun server =>
    (Decides.outcome _).bind fun _ => .pure).congr fun c database => ?_
  simp [validateServerVersion_ok_iff, Catalogue.Supported]

theorem inspectPublication_decides (alone : env.Alone) :
    Decides env (inspectPublication env cfg) fun c publication =>
      (∀ tables, c.publication = some tables → tables = 0) ∧ c.publication.isSome = publication := by
  have empty (publication : Bool) : Decides env
      ((do if publication then inspectTables env cfg
           return publication) : SetupM Bool)
      fun c out => (publication = true → c.publication.getD 0 = 0) ∧ publication = out := by
    cases publication with
    | false => exact Decides.pure.congr fun c a => by simp
    | true =>
      refine (((Decides.inspect alone).bind fun tables => Decides.outcome _).bind
        fun _ => .pure).congr fun c a => ?_
      simp
  refine ((Decides.inspect alone).bind empty).congr fun c publication => ?_
  cases c.publication with
  | none => simp
  | some tables => cases publication <;> simp

theorem readSlot_row {codec : LsnCodec} {name : String} {row : SlotRow} {slot : SlotInfo}
    (stored : c.slot = some row) :
    readSlot codec name c = .ok slot ↔ slot.name = name ∧ slot.exists_ = true ∧
      row.plugin = some slot.plugin ∧ row.database = some slot.database ∧ row.active = slot.active ∧
      parsePosition codec "parse slot confirmed_flush_lsn: %w" row.confirmedFlushLSN =
        .ok slot.confirmedFlushLSN ∧
      parsePosition codec "parse slot restart_lsn: %w" row.restartLSN = .ok slot.restartLSN := by
  simp only [readSlot, stored, bind_ok_iff, scanText_ok_iff]
  constructor
  · rintro ⟨plugin, hp, database, hd, confirmed, hc, restart, hr, ⟨⟩⟩
    exact ⟨rfl, rfl, hp, hd, rfl, hc, hr⟩
  · rintro ⟨rfl, there, hp, hd, active, hc, hr⟩
    refine ⟨_, hp, _, hd, _, hc, _, hr, ?_⟩
    rw [active, ← there]
    rfl

theorem checkSlot_decides (alone : env.Alone) (createSlot : Bool) (database : String) :
    Decides env (checkSlot env cfg createSlot database) fun c slot =>
      ((c.slot = none → createSlot = true) ∧
        ∀ row, c.slot = some row → row.Suits env.codec database ∧ row.active = false) ∧
        c.slot.isSome = slot := by
  refine ((Decides.inspect alone).bind fun slot => (Decides.outcome _).bind fun _ => .pure).congr
    fun c found => ?_
  cases stored : c.slot with
  | none => simp [readSlot, stored]
  | some row =>
    simp only [readSlot_row stored, reduceCtorEq, false_imp_iff, true_and, Option.some.injEq,
      forall_eq', Option.isSome_some]
    constructor
    · rintro ⟨slot, ⟨_, there, hp, hd, active, hc, hr⟩, _, accepted, same⟩
      rw [if_pos there, validateSlot_ok_iff] at accepted
      obtain ⟨plugin, base, idle⟩ := accepted
      exact ⟨⟨⟨plugin ▸ hp, base ▸ hd, readable_iff.mpr ⟨⟨_, hc⟩, _, hr⟩⟩, active.trans idle⟩,
        there.symm.trans same⟩
    · rintro ⟨⟨⟨hp, hd, readable⟩, idle⟩, rfl⟩
      obtain ⟨⟨confirmed, hc⟩, restart, hr⟩ := readable_iff.mp readable
      refine ⟨⟨cfg.slot, "pgoutput", database, false, confirmed, restart, true⟩,
        ⟨rfl, rfl, hp, hd, idle, hc, hr⟩, (), ?_, rfl⟩
      rw [if_pos rfl, validateSlot_ok_iff]
      exact ⟨rfl, rfl, rfl⟩

theorem preflight_decides (alone : env.Alone) (createSlot : Bool) :
    Decides env (preflight env cfg createSlot) fun c found =>
      c.Compatible env.codec createSlot ∧ c.found = found := by
  refine (Decides.attempt.bind fun _ => (inspectServer_decides alone).bind fun database =>
    (Decides.inspect alone).bind fun function => (inspectPublication_decides alone).bind
      fun publication => (checkSlot_decides alone createSlot database).bind fun slot =>
        .pure).congr fun c found => ?_
  constructor
  · rintro ⟨_, _, _, ⟨supported, rfl⟩, _, ⟨⟩, _, ⟨empty, rfl⟩, _, ⟨⟨missing, slot⟩, rfl⟩, rfl⟩
    exact ⟨⟨⟨supported, empty, fun row h => (slot row h).1⟩, missing, fun row h => (slot row h).2⟩, rfl⟩
  · rintro ⟨⟨⟨supported, empty, suits⟩, missing, idle⟩, rfl⟩
    exact ⟨(), trivial, _, ⟨supported, rfl⟩, _, rfl, _, ⟨empty, rfl⟩, _,
      ⟨⟨missing, fun row h => ⟨suits row h, idle row h⟩⟩, rfl⟩, rfl⟩

end Preflight

section Completion

variable {α β : Type} {env : SetupEnv} {cfg : PostgresConfig} {c c' : Catalogue} {r r' : SetupResult}

/-- Whatever calls were made before, `x` returns `a` and turns server and report into these. -/
def Leaves (x : SetupM α) (c : Catalogue) (r : SetupResult) (a : α) (c' : Catalogue)
    (r' : SetupResult) : Prop :=
  ∀ calls, ∃ calls', x ⟨c, r, calls⟩ = .ok a ⟨c', r', calls'⟩

theorem Leaves.bind {x : SetupM α} {k : α → SetupM β} {a : α} {b : β} {c'' : Catalogue}
    {r'' : SetupResult} (first : Leaves x c r a c' r') (next : Leaves (k a) c' r' b c'' r'') :
    Leaves (x >>= k) c r b c'' r'' := by
  intro calls
  obtain ⟨calls', done⟩ := first calls
  rw [bind_ended done]
  exact next calls'

theorem Leaves.pure (a : α) : Leaves (Pure.pure a) c r a c r := fun calls => ⟨calls, rfl⟩

theorem Leaves.modify {f : SetupState → SetupState} (same : ∀ calls, f ⟨c, r, calls⟩ = ⟨c', r', calls⟩) :
    Leaves (modify f : SetupM PUnit) c r ⟨⟩ c' r' := by
  intro calls
  exact ⟨calls, congrArg (EStateM.Result.ok PUnit.unit) (same calls)⟩

theorem Decides.leaves {x : SetupM α} {P : Catalogue → α → Prop} {a : α} (h : Decides env x P)
    (clear : env.Unfaulted) (holds : P c a) : Leaves x c r a c r :=
  fun calls => (h ⟨c, r, calls⟩).2 clear a holds

theorem attempt_leaves (clear : env.Unfaulted) (site : SetupSite) (wrap : DriverError → Failure) :
    Leaves (outcome (attempt (env.faults site) wrap)) c r () c r :=
  Decides.attempt.leaves clear trivial

theorem execute_leaves {site : SetupSite} {wrap : DriverError → Failure}
    {refusal : Catalogue → Option String} {change : Catalogue → Catalogue}
    (alone : env.Alone) (clear : env.Unfaulted) (accepted : refusal c = none) :
    Leaves (execute env site wrap refusal change) c r () (change c) r := by
  intro calls
  rw [execute_ran, interfere_alone alone, accepted, clear site, SetupEnv.perform,
    if_pos ⟨accepted, .inl (clear site)⟩]
  exact ⟨_, rfl⟩

def Catalogue.withFunction (c : Catalogue) : Catalogue :=
  if c.function.isSome then c else installSQL c

def Catalogue.completed (env : SetupEnv) (c : Catalogue) : Catalogue :=
  { c with
    schema := c.withFunction.schema
    function := c.withFunction.function
    publication := some (c.publication.getD 0)
    slot := some (c.slot.getD (newSlot env c.database)) }

def Found.missing (found : Found) : SetupResult := ⟨!found.function, !found.publication, !found.slot⟩

theorem install_leaves (alone : env.Alone) (clear : env.Unfaulted) (c : Catalogue) :
    Leaves (unlessFound c.function.isSome (installFunction env)) c .nothing ()
      c.withFunction ⟨!c.function.isSome, false, false⟩ := by
  unfold Catalogue.withFunction
  cases c.function.isSome with
  | true => exact .pure ()
  | false => exact (execute_leaves alone clear rfl).bind (.modify fun _ => rfl)

theorem createPublication_leaves (alone : env.Alone) (clear : env.Unfaulted) (c : Catalogue)
    (function : Bool) {found : Bool} (looked : c.publication.isSome = found) :
    Leaves (unlessFound found (createPublication env cfg)) c ⟨function, false, false⟩ ()
      { c with publication := some (c.publication.getD 0) } ⟨function, !found, false⟩ := by
  subst looked
  obtain ⟨database, version, schema, emit, publication, slot⟩ := c
  cases publication with
  | some tables => exact .pure ()
  | none => exact (execute_leaves alone clear rfl).bind (.modify fun _ => rfl)

theorem createReplicationSlot_leaves (alone : env.Alone) (clear : env.Unfaulted)
    (missing : c.slot = none) :
    Leaves (createReplicationSlot env cfg) c r () { c with slot := some (newSlot env c.database) } r :=
  (Leaves.bind (attempt_leaves clear _ _) ((attempt_leaves clear _ _).bind
    (execute_leaves alone clear (by simp [missing]))))

theorem addSlot_leaves (alone : env.Alone) (clear : env.Unfaulted) (c : Catalogue)
    (function publication : Bool) {found : Bool} (looked : c.slot.isSome = found) :
    Leaves (unlessFound found (addSlot env cfg)) c ⟨function, publication, false⟩ ()
      { c with slot := some (c.slot.getD (newSlot env c.database)) } ⟨function, publication, !found⟩ := by
  subst looked
  obtain ⟨database, version, schema, emit, published, slot⟩ := c
  cases slot with
  | some row => exact .pure ()
  | none =>
    exact (attempt_leaves clear _ _).bind
      ((createReplicationSlot_leaves alone clear rfl).bind (.modify fun _ => rfl))

theorem createMissing_leaves (alone : env.Alone) (clear : env.Unfaulted) (c : Catalogue) :
    Leaves (createMissing env cfg c.found) c .nothing () (c.completed env) c.found.missing := by
  have same : c.withFunction = { c with
      schema := c.withFunction.schema, function := c.withFunction.function } := by
    unfold Catalogue.withFunction
    split <;> rfl
  have installed := install_leaves alone clear c
  rw [same] at installed
  exact installed.bind ((createPublication_leaves alone clear _ _ (by rfl)).bind
    (addSlot_leaves alone clear _ _ _ (by rfl)))

theorem setup_refused (alone : env.Alone) {createSlot : Bool}
    (incompatible : ¬c.Compatible env.codec createSlot) :
    ∃ e calls, setup env cfg createSlot (.begin c) = .error e ⟨c, .nothing, calls⟩ := by
  have decides : Decides env (preflight env cfg createSlot) _ := preflight_decides alone createSlot
  obtain ⟨calls, ⟨e, failed⟩ | ⟨_, _, compatible, _⟩⟩ := (decides (.begin c)).1
  · exact ⟨e, calls, bind_raised failed⟩
  · exact absurd compatible incompatible

theorem setup_completes (alone : env.Alone) (clear : env.Unfaulted) {createSlot : Bool}
    (compatible : c.Compatible env.codec createSlot) :
    Leaves (setup env cfg createSlot) c .nothing () (c.completed env) c.found.missing :=
  ((preflight_decides alone createSlot).leaves clear ⟨compatible, rfl⟩).bind
    (createMissing_leaves alone clear c)

/-- `Setup` refuses an incompatible server before it changes anything, whatever fails. A
compatible one gets what it lacks, and the report says what that was. -/
theorem setup_unshared (alone : env.Alone) (createSlot : Bool) (c : Catalogue) :
    (¬c.Compatible env.codec createSlot →
      ∃ e calls, setup env cfg createSlot (.begin c) = .error e ⟨c, .nothing, calls⟩) ∧
    (env.Unfaulted → c.Compatible env.codec createSlot → ∃ calls,
      setup env cfg createSlot (.begin c) = .ok () ⟨c.completed env, c.found.missing, calls⟩) :=
  ⟨setup_refused alone, fun clear compatible => setup_completes alone clear compatible []⟩

def quietEnv : SetupEnv where
  codec := .decimal
  faults _ := none
  executed _ := true
  meanwhile _ c := c
  positions := (16, 16)

theorem quietEnv_alone : quietEnv.Alone := fun _ _ => rfl

theorem emptyServer_fits : emptyServer.Fits quietEnv.codec :=
  ⟨⟨by decide, by decide⟩, nofun, nofun⟩

theorem setup_unshared_empty :
    (∃ e calls, setup quietEnv servingPostgres false (.begin emptyServer) =
      .error e ⟨emptyServer, .nothing, calls⟩) ∧
    ∃ calls, setup quietEnv servingPostgres true (.begin emptyServer) =
      .ok () ⟨emptyServer.completed quietEnv, ⟨true, true, true⟩, calls⟩ := by
  constructor
  · refine (setup_unshared quietEnv_alone false emptyServer).1 fun compatible => ?_
    exact absurd (compatible.missing rfl) (by decide)
  · exact (setup_unshared quietEnv_alone true emptyServer).2 (fun _ => rfl)
      ⟨emptyServer_fits, fun _ => rfl, nofun⟩

theorem completed_compatible {createSlot : Bool} (h : c.Compatible env.codec createSlot) (again : Bool) :
    (c.completed env).Compatible env.codec again where
  supported := h.supported
  publication := by
    rintro _ ⟨⟩
    cases stored : c.publication with
    | none => rfl
    | some tables => exact h.publication tables stored
  slot := by
    rintro _ ⟨⟩
    cases stored : c.slot with
    | none => exact newSlot_suits c.database
    | some row => exact h.slot row stored
  missing := nofun
  idle := by
    rintro _ ⟨⟩
    cases stored : c.slot with
    | none => rfl
    | some row => exact h.idle row stored

theorem completed_ready {createSlot : Bool} (h : c.Compatible env.codec createSlot) :
    (c.completed env).Ready env.codec := by
  have compatible := completed_compatible h createSlot
  have function : c.withFunction.function.isSome = true := by
    unfold Catalogue.withFunction
    split
    · assumption
    · rfl
  refine ⟨h.supported, function, ?_, _, rfl, compatible.slot _ rfl⟩
  exact congrArg some (compatible.publication _ rfl)

theorem daemonSlot_leaves (alone : env.Alone) (clear : env.Unfaulted)
    (h : c.Compatible env.codec false) : ∃ slot, Leaves (daemonSlot env cfg) c r slot c r := by
  obtain ⟨row, stored⟩ : ∃ row, c.slot = some row := by
    cases stored : c.slot with
    | none => exact absurd (h.missing stored) (by simp)
    | some row => exact ⟨row, rfl⟩
  have suits := h.slot row stored
  obtain ⟨⟨confirmed, hc⟩, restart, hr⟩ := readable_iff.mp suits.readable
  have read : Leaves (inspectSlot env cfg .slot) c r
      ⟨cfg.slot, "pgoutput", c.database, false, confirmed, restart, true⟩ c r :=
    Decides.leaves (Decides.inspect alone) clear
      ((readSlot_row stored).mpr ⟨rfl, rfl, suits.plugin, suits.database, h.idle row stored, hc, hr⟩)
  have valid : validateSlot ⟨cfg.slot, "pgoutput", c.database, false, confirmed, restart, true⟩
      c.database = .ok () := validateSlot_ok_iff.mpr ⟨rfl, rfl, rfl⟩
  refine ⟨⟨confirmed, restart⟩, (attempt_leaves clear _ _).bind (read.bind ?_)⟩
  refine Leaves.bind (.pure _ : Leaves (slotOrNew env cfg _) c r _ c r) ?_
  exact ((inspectServer_decides alone).leaves clear ⟨h.supported, rfl⟩).bind
    (((Decides.outcome _).leaves clear valid).bind (.pure _))

end Completion

section Repeated

variable {codec : LsnCodec} {env : SetupEnv} {cfg : PostgresConfig} {start c : Catalogue}

def catalogueAfter {α : Type} : EStateM.Result Failure SetupState α → Catalogue
  | .ok _ s => s.catalogue
  | .error _ s => s.catalogue

/-- What happens to a server: attempts at a setup, daemons that look for their slot, and
whatever else the sessions do to it. -/
inductive Provision (codec : LsnCodec) (cfg : PostgresConfig) (c : Catalogue) : Catalogue → Prop
  | setup (env : SetupEnv) (createSlot : Bool) : env.codec = codec → env.Cooperative →
      Provision codec cfg c (catalogueAfter (setup env cfg createSlot (.begin c)))
  | daemon (env : SetupEnv) : env.codec = codec → env.Cooperative →
      Provision codec cfg c (catalogueAfter (daemonSlot env cfg (.begin c)))
  | session {c' : Catalogue} : c.Grows codec c' → Provision codec cfg c c'

def provisioning (codec : LsnCodec) (cfg : PostgresConfig) (start : Catalogue) : System Catalogue where
  init c := c = start
  step := Provision codec cfg

theorem ends_grown {α : Type} {result : EStateM.Result Failure SetupState α}
    {post : α → Catalogue → Prop}
    (h : Ends result (fun a => Known codec start (post a)) fun _ => Since codec start) :
    start.Grows codec (catalogueAfter result) := by
  cases result with
  | ok a s => exact h.1
  | error e s => exact h

theorem Provision.grows {c' : Catalogue} (h : Provision codec cfg c c') : c.Grows codec c' := by
  cases h with
  | setup env createSlot same shared =>
    subst same
    exact ends_grown (setup_triple shared createSlot _ (.refl _))
  | daemon env same shared =>
    subst same
    exact ends_grown (daemonSlot_triple shared _ (.refl _))
  | session grown => exact grown

theorem provisioning_grows (h : (provisioning codec cfg start).Reachable c) : start.Grows codec c := by
  refine (provisioning codec cfg start).invariant (fun c => start.Grows codec c) ?_ ?_ h
  · rintro _ rfl
    exact .refl _
  · intro c c' _ grown next
    exact grown.trans next.grows

theorem Catalogue.Grows.fits {c' : Catalogue} (h : c.Grows codec c') (fits : c.Fits codec) :
    c'.Fits codec where
  supported := h.supported.mpr fits.supported
  publication := by
    intro tables stored
    rcases h.publication with same | ⟨_, created⟩
    · exact fits.publication tables (same ▸ stored)
    · exact (Option.some.inj (created.symm.trans stored)).symm
  slot := by
    intro row stored
    have grown := h.slot
    rw [stored] at grown
    generalize before : c.slot = slot at grown
    rw [h.database]
    cases grown with
    | created suits => exact suits
    | moved plugin base readable => exact (fits.slot _ before).moved plugin base readable

/-- However many attempts failed half-way, and whatever sessions ran in between, one undisturbed
setup completes the server; after it nothing is left to set up, and the daemon finds its slot. -/
theorem setup_resumes (fits : start.Fits env.codec)
    (h : (provisioning env.codec cfg start).Reachable c)
    (idle : ∀ row, c.slot = some row → row.active = false) (alone : env.Alone)
    (clear : env.Unfaulted) :
    (∃ calls, setup env cfg true (.begin c) = .ok () ⟨c.completed env, c.found.missing, calls⟩) ∧
      (c.completed env).Ready env.codec ∧
      (∀ createSlot, ∃ calls, setup env cfg createSlot (.begin (c.completed env)) =
        .ok () ⟨c.completed env, .nothing, calls⟩) ∧
      ∃ slot calls, daemonSlot env cfg (.begin (c.completed env)) =
        .ok slot ⟨c.completed env, .nothing, calls⟩ := by
  have compatible : c.Compatible env.codec true :=
    ⟨(provisioning_grows h).fits fits, fun _ => rfl, idle⟩
  have ready := completed_ready compatible
  have again : (c.completed env).completed env = c.completed env := by
    have there : (c.completed env).withFunction = c.completed env := if_pos ready.function
    rw [Catalogue.completed, there]
    rfl
  have nothing : (c.completed env).found.missing = .nothing := by
    rw [Catalogue.found, ready.function]
    rfl
  refine ⟨setup_completes alone clear compatible [], ready, fun createSlot => ?_, ?_⟩
  · have completes : Leaves (setup env cfg createSlot) (c.completed env) .nothing () _ _ :=
      setup_completes alone clear (completed_compatible compatible createSlot)
    rw [again, nothing] at completes
    exact completes []
  · obtain ⟨slot, leaves⟩ := daemonSlot_leaves alone clear (completed_compatible compatible false)
    exact ⟨slot, leaves []⟩

def brokenEnv : SetupEnv where
  codec := .decimal
  faults
    | .createPublication => some "connection reset by peer"
    | _ => none
  executed _ := false
  meanwhile _ c := c
  positions := (16, 16)

def halfServer : Catalogue := installSQL emptyServer

theorem halfServer_reachable :
    (provisioning quietEnv.codec servingPostgres emptyServer).Reachable halfServer :=
  ((provisioning _ _ emptyServer).reachable_init rfl).step
    (.setup brokenEnv true rfl fun _ _ => .refl _)

theorem setup_resumes_half :
    (provisioning quietEnv.codec servingPostgres emptyServer).Reachable halfServer ∧
      (∃ calls, setup quietEnv servingPostgres true (.begin halfServer) =
        .ok () ⟨halfServer.completed quietEnv, ⟨false, true, true⟩, calls⟩) ∧
      (halfServer.completed quietEnv).Ready quietEnv.codec :=
  have resumed := setup_resumes emptyServer_fits halfServer_reachable nofun quietEnv_alone fun _ => rfl
  ⟨halfServer_reachable, resumed.1, resumed.2.1⟩

end Repeated

end WriteRelay.Postgres
