import WriteRelay.Diskspace.Guard
import WriteRelay.Spool.Operations

/-! Admission of batches: the replicator asks the disk guard before it receives, before it
stores a batch, and until a pause is over. -/
namespace WriteRelay.Postgres
open Diskspace Spool Fallible Runs

structure Probing where
  before : Moment
  now : Moment
  after : Moment
  filesystem : Statfs

inductive Notice
  | paused (reason : Reason)
  | recovered

def notice (before after : Status) : List Notice :=
  if after.paused = true ∧ (before.paused = false ∨ after.reason ≠ before.reason) then
    [.paused after.reason]
  else if before.paused = true ∧ after.paused = false then [.recovered]
  else []

/-- The parts of the replicator that admission touches. The acknowledged positions and the
log are listed newest first, the measurements that were taken oldest first. -/
structure Admission where
  disk : Guard
  tables : Tables
  acknowledged : List LSN
  log : List Notice
  probes : List (Option Nat)

def checkDisk (force : Bool) (p : Probing) (a : Admission) : Admission × Except Failure Unit :=
  let (disk, answer) := a.disk.check force p.now p.filesystem
  ({ a with
      disk := disk
      log := notice (a.disk.snapshot p.before) (disk.snapshot p.after) ++ a.log
      probes := if a.disk.probes force p.now then a.probes ++ [p.filesystem.measured] else a.probes },
    answer)

/-- `persistThenAcknowledgeWithHooks`; the acknowledgment is sent even where sending fails. -/
def persistThenAcknowledge (env : PersistEnv) (batch : CommittedBatch) (sendFault : Option Failure)
    (a : Admission) : Admission × Except Failure PersistResult :=
  match persistCommittedBatch env batch a.tables with
  | .error e => (a, .error e)
  | .ok (tables, result) =>
    if result.durableLSN < batch.commitEndLSN then
      ({ a with tables }, .error (errorf (some .durability)
        "%w: spool returned checkpoint %s before transaction end %s"
        [env.codec.format result.durableLSN, env.codec.format batch.commitEndLSN]))
    else
      ({ a with tables, acknowledged := result.durableLSN :: a.acknowledged },
        match sendFault with
        | some e => .error e
        | none => .ok result)

def persistBatch (cancelled : Option Failure) (p : Probing) (env : PersistEnv) (batch : CommittedBatch)
    (sendFault : Option Failure) (a : Admission) : Admission × Except Failure PersistResult :=
  match cancelled with
  | some e => (a, .error e)
  | none =>
    match checkDisk true p a with
    | (a', .error e) => (a', .error e)
    | (a', .ok _) => persistThenAcknowledge env batch sendFault a'

/-- The checks of `waitForDisk` until the context is done, and whether one succeeded. -/
def waitForDisk : List Probing → Admission → Admission × Bool
  | [], a => (a, false)
  | p :: rest, a =>
    match checkDisk true p a with
    | (a', .ok _) => (a', true)
    | (a', .error _) => waitForDisk rest a'

inductive Call
  | check (force : Bool) (p : Probing)
  | batch (cancelled : Option Failure) (p : Probing) (env : PersistEnv) (batch : CommittedBatch)
      (sendFault : Option Failure)
  | recover (ps : List Probing)
  | store (op : Operation)

def Call.exec : Call → Admission → Admission
  | .check force p, a => (checkDisk force p a).1
  | .batch cancelled p env committed sendFault, a =>
    (persistBatch cancelled p env committed sendFault a).1
  | .recover ps, a => (waitForDisk ps a).1
  | .store op, a => { a with tables := (op.exec a.tables).tables }

def admission (cfg : DiskSpaceConfig) : System Admission where
  init a := ∃ tables, a = ⟨.new cfg, tables, [], [], []⟩
  step a a' := ∃ call : Call, call.exec a = a'

section Rule

variable {cfg : DiskSpaceConfig}

structure Obeys (cfg : DiskSpaceConfig) (a : Admission) : Prop where
  guard : a.disk.Protects cfg
  paused : a.disk.status.paused = a.probes.foldl cfg.rule false

theorem checkDisk_spec (pause : 0 ≤ cfg.pauseBelowBytes) (resume : 0 ≤ cfg.resumeAtBytes)
    {a : Admission} (obeys : Obeys cfg a) (force : Bool) (p : Probing) :
    Obeys cfg (checkDisk force p a).1 ∧
      (checkDisk force p a).2 = (checkDisk force p a).1.disk.status.answer := by
  obtain ⟨guard, flag, answer⟩ := check_spec obeys.guard pause resume force p.now p.filesystem
  refine ⟨⟨guard, ?_⟩, answer⟩
  simp only [checkDisk]
  rw [flag, obeys.paused]
  split
  · simp
  · rfl

theorem persistThenAcknowledge_disk (env : PersistEnv) (batch : CommittedBatch)
    (sendFault : Option Failure) (a : Admission) :
    (persistThenAcknowledge env batch sendFault a).1.disk = a.disk ∧
      (persistThenAcknowledge env batch sendFault a).1.probes = a.probes := by
  unfold persistThenAcknowledge
  split
  · exact ⟨rfl, rfl⟩
  · split <;> exact ⟨rfl, rfl⟩

theorem Obeys.congr {a a' : Admission} (obeys : Obeys cfg a) (disk : a'.disk = a.disk)
    (probes : a'.probes = a.probes) : Obeys cfg a' :=
  ⟨disk ▸ obeys.guard, by rw [disk, probes, obeys.paused]⟩

theorem persistBatch_admitted (pause : 0 ≤ cfg.pauseBelowBytes) (resume : 0 ≤ cfg.resumeAtBytes)
    {a : Admission} (obeys : Obeys cfg a) (p : Probing) (env : PersistEnv)
    (batch : CommittedBatch) (sendFault : Option Failure) :
    Obeys cfg (checkDisk true p a).1 ∧
      (checkDisk true p a).1.probes = a.probes ++ [p.filesystem.measured] ∧
      persistBatch none p env batch sendFault a =
        if (checkDisk true p a).1.disk.status.paused then ((checkDisk true p a).1, .error errPaused)
        else persistThenAcknowledge env batch sendFault (checkDisk true p a).1 := by
  obtain ⟨checked, answer⟩ := checkDisk_spec pause resume obeys true p
  refine ⟨checked, ?_, ?_⟩
  · simp [checkDisk, obeys.guard.probes_force]
  · simp only [persistBatch]
    cases result : checkDisk true p a with
    | mk a' given =>
      rw [result] at answer
      dsimp only at answer ⊢
      subst answer
      cases paused : a'.disk.status.paused with
      | true => rw [answer_iff.1.mpr paused]; rfl
      | false => rw [answer_iff.2.mpr paused]; rfl

theorem waitForDisk_obeys (pause : 0 ≤ cfg.pauseBelowBytes) (resume : 0 ≤ cfg.resumeAtBytes)
    (ps : List Probing) {a : Admission} (obeys : Obeys cfg a) :
    Obeys cfg (waitForDisk ps a).1 := by
  induction ps generalizing a with
  | nil => exact obeys
  | cons p rest ih =>
    have checked := (checkDisk_spec pause resume obeys true p).1
    unfold waitForDisk
    cases answer : checkDisk true p a with
    | mk a' result =>
      rw [answer] at checked
      cases result with
      | ok _ => exact checked
      | error e => exact ih checked

theorem exec_obeys (pause : 0 ≤ cfg.pauseBelowBytes) (resume : 0 ≤ cfg.resumeAtBytes)
    (call : Call) {a : Admission} (obeys : Obeys cfg a) : Obeys cfg (call.exec a) := by
  cases call with
  | check force p => exact (checkDisk_spec pause resume obeys force p).1
  | recover ps => exact waitForDisk_obeys pause resume ps obeys
  | store op => exact obeys.congr rfl rfl
  | batch cancelled p env batch sendFault =>
    cases cancelled with
    | some e => exact obeys
    | none =>
      obtain ⟨checked, _, outcome⟩ := persistBatch_admitted pause resume obeys p env batch sendFault
      simp only [Call.exec, outcome]
      split
      · exact checked
      · obtain ⟨disk, probes⟩ := persistThenAcknowledge_disk env batch sendFault (checkDisk true p a).1
        exact checked.congr disk probes

end Rule

theorem admission_obeys {cfg : DiskSpaceConfig} (enabled : 0 < cfg.pauseBelowBytes)
    (resume : 0 ≤ cfg.resumeAtBytes) {a : Admission} (h : (admission cfg).Reachable a) :
    Obeys cfg a := by
  refine (admission cfg).invariant (Obeys cfg) ?_ ?_ h
  · rintro _ ⟨tables, rfl⟩
    exact ⟨Guard.new_protects enabled, rfl⟩
  · rintro a _ _ obeys ⟨call, rfl⟩
    exact exec_obeys (Int64.le_of_lt enabled) resume call obeys

theorem disk_admission {parseDuration : String → Except String Int64} {raw cfg : DiskSpaceConfig}
    (accepted : raw.setDefaultsAndValidate parseDuration = .ok cfg) (enabled : 0 < cfg.pauseBelowBytes)
    {a : Admission} (reachable : (admission cfg).Reachable a) :
    a.disk.status.paused = a.probes.foldl
      (hysteresis cfg.pauseBelowBytes.toNatClampNeg cfg.resumeAtBytes.toNatClampNeg) false ∧
    (∀ force p, ((checkDisk force p a).2 = .error errPaused ↔
        (checkDisk force p a).1.disk.status.paused = true) ∧
      ((checkDisk force p a).2 = .ok () ↔ (checkDisk force p a).1.disk.status.paused = false)) ∧
    ∀ cancelled p env batch sendFault a' result,
      persistBatch cancelled p env batch sendFault a = (a', result) →
      (a'.tables ≠ a.tables ∨ a'.acknowledged ≠ a.acknowledged →
        a'.probes = a.probes ++ [p.filesystem.measured] ∧ a'.disk.status.paused = false) ∧
      (cancelled = none → a'.disk.status.paused = true →
        a'.tables = a.tables ∧ a'.acknowledged = a.acknowledged ∧ result = .error errPaused) := by
  obtain ⟨pause, resume, _⟩ := setDefaultsAndValidate_ok accepted
  have obeys := admission_obeys enabled resume reachable
  refine ⟨obeys.paused, fun force p => ?_, ?_⟩
  · rw [(checkDisk_spec pause resume obeys force p).2]
    exact answer_iff
  · intro cancelled p env batch sendFault a' result h
    cases cancelled with
    | some e =>
      cases h
      exact ⟨fun changed => by simp at changed, nofun⟩
    | none =>
      obtain ⟨_, probed, outcome⟩ := persistBatch_admitted pause resume obeys p env batch sendFault
      rw [outcome] at h
      split at h
      · cases h
        exact ⟨fun changed => by simp [checkDisk] at changed, fun _ _ => ⟨rfl, rfl, rfl⟩⟩
      · rename_i open_
        obtain ⟨disk, probes⟩ := persistThenAcknowledge_disk env batch sendFault (checkDisk true p a).1
        rw [h] at disk probes
        dsimp only at disk probes
        rw [disk, probes]
        exact ⟨fun _ => ⟨probed, by simpa using open_⟩, fun _ paused => absurd paused open_⟩

def sampleDisk : DiskSpaceConfig := ⟨100, 200, 5000000000, "5s"⟩

theorem sampleDisk_accepted :
    DiskSpaceConfig.setDefaultsAndValidate (fun _ => .ok 5000000000) ⟨100, 200, 0, ""⟩ =
      .ok sampleDisk := by decide +kernel

def probingAt (second : Nat) (blocks : UInt64) : Probing :=
  let now : Moment := ⟨1000000000 * second, some (1000000000 * second)⟩
  ⟨now, now, now, .found blocks 10⟩

def runCalls (calls : List Call) (a : Admission) : Admission := calls.foldl (fun a call => call.exec a) a

theorem admission_runCalls {cfg : DiskSpaceConfig} {a : Admission} (h : (admission cfg).Reachable a)
    (calls : List Call) : (admission cfg).Reachable (runCalls calls a) := by
  induction calls generalizing a with
  | nil => exact h
  | cons call calls ih => exact ih (h.step ⟨call, rfl⟩)

/-- Enough space at first, then too little, then not yet enough again. -/
def sampleAdmission : Admission :=
  runCalls [.check false (probingAt 1 30),
    .batch none (probingAt 2 9) sampleEnv ⟨7, 20, 30, 0, []⟩ none,
    .check false (probingAt 3 50), .recover [probingAt 8 15]] ⟨.new sampleDisk, .empty, [], [], []⟩

theorem disk_admission_sample : sampleAdmission.probes = [some 300, some 90, some 150] ∧
    sampleAdmission.disk.status.paused = true ∧ sampleAdmission.disk.status.paused =
      sampleAdmission.probes.foldl (hysteresis 100 200) false :=
  ⟨by decide +kernel, by decide +kernel,
    (disk_admission sampleDisk_accepted (by decide)
      (admission_runCalls ((admission sampleDisk).reachable_init ⟨.empty, rfl⟩) _)).1⟩

end WriteRelay.Postgres
