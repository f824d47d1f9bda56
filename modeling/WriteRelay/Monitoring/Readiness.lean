import WriteRelay.App.Run
import WriteRelay.Delivery.Retry
import WriteRelay.Diskspace.Guard
import WriteRelay.Spool.Stats

/-! The monitoring server: a sampler that keeps the last snapshot of the spool, and the
readiness that `/readyz` reports, along every run of the daemon. -/
namespace WriteRelay.Monitoring
open Clock Fallible Runs Spool Diskspace Settings

section Model

def sampleTimeout : Int64 := 5000000000

structure FileSizes where
  databaseBytes : Int64
  walBytes : Int64
  shmBytes : Int64
  totalBytes : Int64

structure Sample where
  sampledAt : Moment
  stats : Stats
  storage : FileSizes

structure ReadEnv where
  opened : Except Failure Unit
  snapshot : StatsEnv
  sizes : Except Failure FileSizes

/-- `UTC` strips the monotonic reading from the date. -/
def readStats (env : ReadEnv) (t : Tables) : Except Failure Sample := do
  env.opened
  let stats ← readStatsSnapshot env.snapshot t
  let storage ← env.sizes
  return ⟨⟨stats.sampledAt, none⟩, stats, storage⟩

structure Server where
  interval : Int64
  last : Sample
  sampleOK : Bool

def Server.new (interval : Int64) : Server :=
  ⟨interval, ⟨.zero, ⟨Moment.zero.wall, 0, 0, "", ⟨0, 0, 0, 0, 0⟩, none, []⟩, ⟨0, 0, 0, 0⟩⟩, false⟩

/-- `sample` once the read has returned; `expired` is whether its context was done by then. -/
def Server.sample (s : Server) (result : Except Failure Sample) (expired : Bool) : Server :=
  match result with
  | .error _ => { s with sampleOK := false }
  | .ok sample =>
    if expired then { s with sampleOK := false } else { s with last := sample, sampleOK := true }

def Server.snapshot (s : Server) (now : Moment) : Sample × Bool :=
  (s.last, s.sampleOK && !s.last.sampledAt.isZero &&
    decide (now.sub s.last.sampledAt ≤ s.interval + 2 * sampleTimeout))

structure CaptureStatus where
  disk : Status
  connected : Bool
  transactions : UInt64
  lastCaptureUnix : Int64

structure Health where
  alive : Bool

structure Readiness where
  ready : Bool
  captureConnected : Bool
  spoolSampleFresh : Bool
  capturePaused : Bool
  capturePauseReason : String
  diskProtectionEnabled : Bool
  diskSampleFresh : Bool

def writeHealth {α : Type} (ok : Bool) (body : α) : Nat × α := (if ok then 200 else 503, body)

def healthz (done : Bool) : Nat × Health := writeHealth (!done) ⟨!done⟩

def diskReady (disk : Status) : Bool := !disk.enabled || disk.sampleFresh && !disk.paused

def readyz (s : Server) (capture : CaptureStatus) (done : Bool) (now : Moment) : Nat × Readiness :=
  let fresh := (s.snapshot now).2
  let ready := !done && capture.connected && fresh && diskReady capture.disk
  writeHealth ready ⟨ready, capture.connected, fresh, capture.disk.paused, capture.disk.reason.text,
    capture.disk.enabled, capture.disk.sampleFresh⟩

end Model

section Runs

/-- The clocks of the machine: the monotonic one and the one on the wall, which can be set. -/
structure Reading where
  now : Int
  wall : Int

def Reading.moment (r : Reading) : Moment := ⟨r.wall, some r.now⟩

def Reading.offset (r : Reading) : Int := r.wall - r.now

structure View where
  taken : Int
  tables : Tables

/-- The sampler waits for its timer, or it reads: first the spool, then the clock. -/
inductive Sampler
  | waiting (since : Int)
  | begun (since : Int)
  | viewed (since : Int) (view : View)
  | dated (since : Int) (view : View) (date : Reading)

def Sampler.since : Sampler → Int
  | .waiting since | .begun since | .viewed since _ | .dated since _ _ => since

def Sampler.reads : Sampler → Bool
  | .waiting _ => false
  | _ => true

/-- The daemon as far as `/readyz` depends on it. `read` and `probed` say where the last sample
and the last measurement of the disk came from; the source does not keep them. -/
structure Watch where
  clock : Reading
  tables : Tables
  disk : Statfs
  guard : Guard
  connected : Bool
  transactions : UInt64
  lastCaptureUnix : Int64
  server : Server
  sampler : Sampler
  read : Option (View × Reading)
  probed : Option (Int × Statfs)

def Watch.status (w : Watch) : CaptureStatus :=
  ⟨w.guard.snapshot w.clock.moment, w.connected, w.transactions, w.lastCaptureUnix⟩

def Watch.readyz (w : Watch) (done : Bool) : Nat × Readiness :=
  Monitoring.readyz w.server w.status done w.clock.moment

def Watch.check (w : Watch) (force : Bool) (now : Moment) : Watch :=
  { w with
    guard := (w.guard.check force now w.disk).1
    probed := if w.guard.probes force now then some (w.clock.now, w.disk) else w.probed }

def Watch.finish (w : Watch) (view : View) (date : Reading) (result : Except Failure Sample)
    (expired : Bool) : Watch :=
  { w with
    server := w.server.sample result expired
    sampler := .waiting w.clock.now
    read := if (w.server.sample result expired).sampleOK then some (view, date) else w.read }

/-- Everything that can happen. A context is done at the latest `lag` after its deadline. -/
inductive Watch.Step (lag : Int) : Watch → Watch → Prop
  | elapse {w : Watch} (d : Int) : 0 ≤ d →
      Step lag w { w with clock := ⟨w.clock.now + d, w.clock.wall + d⟩ }
  | adjust {w : Watch} (wall : Int) : Step lag w { w with clock := ⟨w.clock.now, wall⟩ }
  | store {w : Watch} (op : Operation) : Step lag w { w with tables := (op.exec w.tables).tables }
  | fill {w : Watch} (disk : Statfs) : Step lag w { w with disk }
  | capture {w : Watch} (connected : Bool) (transactions : UInt64) (lastCaptureUnix : Int64) :
      Step lag w { w with connected, transactions, lastCaptureUnix }
  -- `Check` reads the clock before it probes
  | check {w : Watch} (force : Bool) (asked : Reading) : asked.now ≤ w.clock.now →
      Step lag w (w.check force asked.moment)
  | start {w : Watch} {since : Int} : w.sampler = .waiting since →
      Step lag w { w with sampler := .begun w.clock.now }
  | view {w : Watch} {since : Int} : w.sampler = .begun since →
      Step lag w { w with sampler := .viewed since ⟨w.clock.now, w.tables⟩ }
  | date {w : Watch} {since : Int} {view : View} : w.sampler = .viewed since view →
      Step lag w { w with sampler := .dated since view w.clock }
  | fail {w : Watch} (failure : Failure) (expired : Bool) : w.sampler.reads = true →
      Step lag w { w with
        server := w.server.sample (.error failure) expired, sampler := .waiting w.clock.now }
  | finish {w : Watch} {since : Int} {view : View} {date : Reading} (env : ReadEnv) (expired : Bool) :
      w.sampler = .dated since view date → env.snapshot.sampledAt = date.wall →
      (expired = false → w.clock.now ≤ since + sampleTimeout.toInt + lag) →
      Step lag w (w.finish view date (readStats env view.tables) expired)

def daemon (lag : Int) (cfg : Config) : System Watch where
  init w := w.server = .new cfg.monitoring.sampleInterval ∧ w.sampler = .waiting w.clock.now ∧
    w.guard = .new cfg.spool.diskSpace
  step := Watch.Step lag

end Runs

section Recent

variable {lag : Int} {cfg : Config} {w w' : Watch}

theorem readSinks_sampledAt {env : StatsEnv} {t : Tables} {sinks : List SinkRow} {stats stats' : Stats}
    (done : readSinks env t sinks stats = .ok stats') : stats'.sampledAt = stats.sampledAt := by
  induction sinks generalizing stats with
  | nil => rw [← Except.ok.inj done]
  | cons k rest ih =>
    obtain ⟨sink, _, done⟩ := bind_ok_iff.mp done
    have rest := ih done
    exact rest

theorem readStatsSnapshot_sampledAt {env : StatsEnv} {t : Tables} {stats : Stats}
    (done : readStatsSnapshot env t = .ok stats) : stats.sampledAt = env.sampledAt := by
  simp only [readStatsSnapshot, bind_ok_iff] at done
  obtain ⟨_, _, _, _, _, _, _, _, _, _, _, _, _, _, _, read, _, _, _, _, _, _, done⟩ := done
  cases done
  exact readSinks_sampledAt read

theorem readStats_sampledAt {env : ReadEnv} {t : Tables} {sample : Sample}
    (done : readStats env t = .ok sample) :
    sample.sampledAt = ⟨env.snapshot.sampledAt, none⟩ := by
  obtain ⟨_, _, done⟩ := bind_ok_iff.mp done
  obtain ⟨stats, read, done⟩ := bind_ok_iff.mp done
  obtain ⟨storage, _, done⟩ := bind_ok_iff.mp done
  rw [← Except.ok.inj done, readStatsSnapshot_sampledAt read]

def Sampler.Ordered (now : Int) : Sampler → Prop
  | .waiting since | .begun since => since ≤ now
  | .viewed since view => since ≤ view.taken ∧ view.taken ≤ now
  | .dated since view date => since ≤ view.taken ∧ view.taken ≤ date.now ∧ date.now ≤ now

/-- The last sample was read from the spool as it was shortly before its date. -/
def Server.Sound (lag : Int) (w : Watch) : Prop :=
  w.server.sampleOK = true → ∃ view date, w.read = some (view, date) ∧
    w.server.last.sampledAt = ⟨date.wall, none⟩ ∧ date.now ≤ w.clock.now ∧
    date.now ≤ view.taken + sampleTimeout.toInt + lag ∧
    ∃ env, readStats env view.tables = .ok w.server.last

def Guarded (cfg : Config) (w : Watch) : Prop :=
  w.guard.interval = (Guard.new cfg.spool.diskSpace).interval ∧
  w.guard.status.enabled = (Guard.new cfg.spool.diskSpace).status.enabled ∧
  w.guard.status.pauseBelowBytes = cfg.spool.diskSpace.pauseBelowBytes ∧
  w.guard.status.resumeAtBytes = cfg.spool.diskSpace.resumeAtBytes ∧
  (w.guard.sampleOK = true → ∃ asked wall probedAt disk,
    w.guard.status.sampledAt = ⟨wall, some asked⟩ ∧ w.probed = some (probedAt, disk) ∧ asked ≤ probedAt ∧
    (w.guard.status.paused = false → ∃ available, disk.measured = some available ∧
      cfg.spool.diskSpace.pauseBelowBytes.toNatClampNeg ≤ available))

structure Watch.Sound (lag : Int) (cfg : Config) (w : Watch) : Prop where
  interval : w.server.interval = cfg.monitoring.sampleInterval
  sampler : w.sampler.Ordered w.clock.now
  server : Server.Sound lag w
  guard : Guarded cfg w

theorem Sampler.Ordered.later {s : Sampler} {now now' : Int} (h : s.Ordered now) (later : now ≤ now') :
    s.Ordered now' := by
  cases s with
  | waiting since => exact h.trans later
  | begun since => exact h.trans later
  | viewed since view => exact ⟨h.1, h.2.trans later⟩
  | dated since view date => exact ⟨h.1, h.2.1, h.2.2.trans later⟩

theorem Server.Sound.later (h : Server.Sound lag w) (server : w'.server = w.server)
    (read : w'.read = w.read) (later : w.clock.now ≤ w'.clock.now) : Server.Sound lag w' := by
  intro ok
  rw [server] at ok ⊢
  rw [read]
  obtain ⟨view, date, from_, dated, past, rest⟩ := h ok
  exact ⟨view, date, from_, dated, past.trans later, rest⟩

theorem hysteresis_admits {pauseBelow resumeAt : Nat} {paused : Bool} {measured : Option Nat}
    (running : hysteresis pauseBelow resumeAt paused measured = false) :
    ∃ available, measured = some available ∧ pauseBelow ≤ available := by
  cases measured with
  | none => contradiction
  | some available =>
    simp only [hysteresis] at running
    split at running
    · contradiction
    · rename_i enough
      exact ⟨available, rfl, not_lt.mp enough⟩

theorem Guarded.check (h : Guarded cfg w) {force : Bool} {asked : Reading}
    (past : asked.now ≤ w.clock.now) (pause : 0 ≤ cfg.spool.diskSpace.pauseBelowBytes)
    (resume : 0 ≤ cfg.spool.diskSpace.resumeAtBytes) : Guarded cfg (w.check force asked.moment) := by
  unfold Watch.check Guard.check Guard.probes
  by_cases off : w.guard.status.enabled = false
  · rw [if_pos off, off]
    exact h
  · have on : w.guard.status.enabled = true := by simpa using off
    rw [if_neg off, on]
    by_cases cached : w.guard.cached force asked.moment = true
    · rw [if_pos cached, cached]
      exact h
    · have probes : w.guard.cached force asked.moment = false := by simpa using cached
      rw [if_neg cached, probes]
      obtain ⟨interval, enabled, hp, hr, _⟩ := h
      have rule := sample_paused (g := w.guard) asked.moment w.disk (hp ▸ pause) (hr ▸ resume)
      refine ⟨?_, ?_, ?_, ?_, fun _ => ⟨asked.now, asked.wall, w.clock.now, w.disk, ?_, rfl, past, ?_⟩⟩
      · cases probe w.disk <;> exact interval
      · cases probe w.disk <;> exact enabled
      · cases probe w.disk <;> exact hp
      · cases probe w.disk <;> exact hr
      · cases probe w.disk <;> rfl
      · intro running
        obtain ⟨available, measured, enough⟩ := hysteresis_admits (rule.symm.trans running)
        rw [hp] at enough
        exact ⟨available, measured, enough⟩

theorem sample_kept {s : Server} {result : Except Failure Sample} {expired : Bool}
    (ok : (s.sample result expired).sampleOK = true) :
    expired = false ∧ result = .ok (s.sample result expired).last := by
  cases result with
  | error e => contradiction
  | ok sample =>
    cases expired with
    | true => contradiction
    | false => exact ⟨rfl, rfl⟩

theorem sample_interval (s : Server) (result : Except Failure Sample) (expired : Bool) :
    (s.sample result expired).interval = s.interval := by
  unfold Server.sample
  split
  · rfl
  · split <;> rfl

theorem Server.Sound.finish (sampling : w.sampler.Ordered w.clock.now) {since : Int} {view : View}
    {date : Reading} {env : ReadEnv} {expired : Bool} (reading : w.sampler = .dated since view date)
    (dated : env.snapshot.sampledAt = date.wall)
    (intime : expired = false → w.clock.now ≤ since + sampleTimeout.toInt + lag) :
    Server.Sound lag (w.finish view date (readStats env view.tables) expired) := by
  intro ok
  change (w.server.sample (readStats env view.tables) expired).sampleOK = true at ok
  obtain ⟨rfl, read⟩ := sample_kept ok
  rw [reading] at sampling
  obtain ⟨first, before, past⟩ := sampling
  have bound := intime rfl
  exact ⟨view, date, if_pos ok, dated ▸ readStats_sampledAt read, past, by omega, env, read⟩

theorem Watch.Sound.frame (h : w.Sound lag cfg) (server : w'.server = w.server)
    (sampler : w'.sampler = w.sampler) (guard : w'.guard = w.guard) (read : w'.read = w.read)
    (probed : w'.probed = w.probed) (later : w.clock.now ≤ w'.clock.now) : w'.Sound lag cfg where
  interval := by rw [server, h.interval]
  sampler := sampler ▸ h.sampler.later later
  server := h.server.later server read later
  guard := by
    unfold Guarded
    rw [guard, probed]
    exact h.guard

theorem Watch.Sound.step (h : w.Sound lag cfg) (pause : 0 ≤ cfg.spool.diskSpace.pauseBelowBytes)
    (resume : 0 ≤ cfg.spool.diskSpace.resumeAtBytes) (next : Watch.Step lag w w') :
    w'.Sound lag cfg := by
  cases next with
  | elapse d positive => exact h.frame rfl rfl rfl rfl rfl (Int.le_add_of_nonneg_right positive)
  | adjust wall => exact h.frame rfl rfl rfl rfl rfl le_rfl
  | store op => exact h.frame rfl rfl rfl rfl rfl le_rfl
  | fill disk => exact h.frame rfl rfl rfl rfl rfl le_rfl
  | capture connected transactions lastCaptureUnix => exact h.frame rfl rfl rfl rfl rfl le_rfl
  | check force asked past => exact ⟨h.interval, h.sampler, h.server, h.guard.check past pause resume⟩
  | start waiting => exact ⟨h.interval, le_rfl, h.server, h.guard⟩
  | view reading =>
    have begun := h.sampler
    rw [reading] at begun
    exact ⟨h.interval, ⟨begun, le_rfl⟩, h.server, h.guard⟩
  | date reading =>
    have viewed := h.sampler
    rw [reading] at viewed
    exact ⟨h.interval, ⟨viewed.1, viewed.2, le_rfl⟩, h.server, h.guard⟩
  | fail failure expired reading =>
    exact ⟨(sample_interval _ _ _).trans h.interval, le_rfl, nofun, h.guard⟩
  | finish env expired reading dated intime =>
    exact ⟨(sample_interval _ _ _).trans h.interval, le_rfl, .finish h.sampler reading dated intime,
      h.guard⟩

theorem daemon_sound (pause : 0 ≤ cfg.spool.diskSpace.pauseBelowBytes)
    (resume : 0 ≤ cfg.spool.diskSpace.resumeAtBytes) (h : (daemon lag cfg).Reachable w) :
    w.Sound lag cfg := by
  refine (daemon lag cfg).invariant (Watch.Sound lag cfg) ?_ ?_ h
  · rintro w ⟨server, sampler, guard⟩
    refine ⟨by rw [server]; rfl, sampler ▸ le_rfl, ?_, ?_⟩
    · unfold Server.Sound
      rw [server]
      exact nofun
    · unfold Guarded
      rw [guard]
      exact ⟨rfl, rfl, rfl, rfl, nofun⟩
  · intro w w' _ sound next
    exact sound.step pause resume next

theorem saturate_le_iff {d : Int} {limit : Int64} (positive : 0 ≤ limit.toInt)
    (small : limit.toInt < 2 ^ 63 - 1) : saturate d ≤ limit ↔ d ≤ limit.toInt := by
  have value : (saturate d).toInt = max (-2 ^ 63) (min (2 ^ 63 - 1) d) :=
    Int64.toInt_ofInt_of_le (by omega) (by omega)
  rw [Int64.le_iff_toInt_le, value]
  omega

theorem limit_value {interval : Int64} (positive : 0 ≤ interval.toInt)
    (bounded : interval.toInt ≤ 300000000000) :
    (interval + 2 * sampleTimeout).toInt = interval.toInt + 10000000000 := by
  have twice : (2 * sampleTimeout).toInt = 10000000000 := by decide
  rw [Int64.toInt_add, twice, Int.bmod_eq_of_le] <;> omega

theorem snapshot_fresh_iff {s : Server} {now : Reading} {wall : Int}
    (date : s.last.sampledAt = ⟨wall, none⟩) (positive : 0 ≤ s.interval.toInt)
    (bounded : s.interval.toInt ≤ 300000000000) :
    (s.snapshot now.moment).2 = true ↔
      s.sampleOK = true ∧ wall ≠ Moment.zero.wall ∧
        now.wall - wall ≤ s.interval.toInt + 10000000000 := by
  have limit := limit_value positive bounded
  simp only [Server.snapshot, date, Moment.isZero, Moment.sub, Reading.moment, Bool.and_eq_true,
    Bool.not_eq_true', decide_eq_false_iff_not, decide_eq_true_eq]
  rw [saturate_le_iff (by omega) (by omega), limit, and_assoc]

theorem within_duration {p : Parsers} {value : String} {minimum maximum : Int64}
    (h : p.Within value minimum maximum) :
    minimum.toInt ≤ (p.duration value).toInt ∧ (p.duration value).toInt ≤ maximum.toInt := by
  obtain ⟨d, parsed, least, most⟩ := h
  simp only [Parsers.duration, parsed]
  exact ⟨Int64.le_iff_toInt_le.mp least, Int64.le_iff_toInt_le.mp most⟩

theorem accepted_intervals {p : Parsers} {c : Config} (accepted : c.setDefaultsAndValidate p = .ok cfg) :
    (0 ≤ cfg.monitoring.sampleInterval.toInt ∧ cfg.monitoring.sampleInterval.toInt ≤ 300000000000) ∧
    (Guard.new cfg.spool.diskSpace).interval = cfg.spool.diskSpace.checkInterval ∧
    0 < cfg.spool.diskSpace.checkInterval.toInt ∧
    cfg.spool.diskSpace.checkInterval.toInt ≤ 60000000000 := by
  obtain ⟨documented, rfl⟩ := App.accepted_documented accepted
  have sampling := within_duration documented.monitoring.sampleInterval
  have checking := within_duration documented.spool.diskSpace.checkInterval
  have second : (1000000000 : Int64).toInt = 1000000000 := by decide
  have minutes : (300000000000 : Int64).toInt = 300000000000 := by decide
  have minute : (60000000000 : Int64).toInt = 60000000000 := by decide
  rw [second, minutes] at sampling
  rw [second, minute] at checking
  have positive : 0 < (c.completed p).spool.diskSpace.checkInterval.toInt :=
    lt_of_lt_of_le (by decide) checking.1
  refine ⟨⟨le_trans (by decide) sampling.1, sampling.2⟩, ?_, positive, checking.2⟩
  have above : ¬(c.completed p).spool.diskSpace.checkInterval ≤ 0 :=
    Int64.not_le.mpr (Int64.lt_iff_toInt_lt.mpr positive)
  simp only [Guard.new, if_neg above]

theorem disk_fresh {g : Guard} {now : Reading} {wall : Instant} {asked : Int}
    (date : g.status.sampledAt = ⟨wall, some asked⟩) (positive : 0 < g.interval.toInt)
    (bounded : g.interval.toInt ≤ 60000000000)
    (fresh : (g.snapshot now.moment).sampleFresh = true) : now.now - asked ≤ 2 * g.interval.toInt := by
  have two : Int64.toInt 2 = 2 := by decide
  have limit : (2 * g.interval).toInt = 2 * g.interval.toInt := by
    rw [Worker.toInt_mul_of_fits (by rw [two]; omega) (by rw [two]; omega), two]
  simp only [Guard.snapshot, date, Moment.sub, Reading.moment, Bool.and_eq_true,
    decide_eq_true_eq] at fresh
  rw [saturate_le_iff (by omega) (by omega), limit] at fresh
  exact fresh.2

theorem readyz_ready {done : Bool} (answered : (w.readyz done).1 = 200) :
    done = false ∧ w.connected = true ∧ (w.server.snapshot w.clock.moment).2 = true ∧
      diskReady (w.guard.snapshot w.clock.moment) = true := by
  have ready : (!done && w.connected && (w.server.snapshot w.clock.moment).2 &&
      diskReady (w.guard.snapshot w.clock.moment)) = true := by
    by_contra unready
    simp only [Watch.readyz, Monitoring.readyz, writeHealth, Watch.status, unready] at answered
    contradiction
  simp only [Bool.and_eq_true, Bool.not_eq_true'] at ready
  exact ⟨ready.1.1.1, ready.1.1.2, ready.1.2, ready.2⟩

theorem disk_recent (guarded : Guarded cfg w) (positive : 0 < w.guard.interval.toInt)
    (bounded : w.guard.interval.toInt ≤ 60000000000)
    (protected_ : 0 < cfg.spool.diskSpace.pauseBelowBytes)
    (ready : diskReady (w.guard.snapshot w.clock.moment) = true) :
    w.guard.status.paused = false ∧ ∃ probedAt disk available, w.probed = some (probedAt, disk) ∧
      w.clock.now - probedAt ≤ 2 * w.guard.interval.toInt ∧ disk.measured = some available ∧
      cfg.spool.diskSpace.pauseBelowBytes.toNatClampNeg ≤ available := by
  obtain ⟨-, enabled, -, -, sampled⟩ := guarded
  have on : (w.guard.snapshot w.clock.moment).enabled = true := enabled.trans (decide_eq_true protected_)
  simp only [diskReady, on, Bool.not_true, Bool.false_or, Bool.and_eq_true, Bool.not_eq_true'] at ready
  obtain ⟨fresh, running⟩ : _ ∧ w.guard.status.paused = false := ready
  have sampleOK : w.guard.sampleOK = true := by
    simp only [Guard.snapshot, Bool.and_eq_true] at fresh
    exact fresh.1.1.2
  obtain ⟨asked, wall, probedAt, disk, date, probed, after, admits⟩ := sampled sampleOK
  obtain ⟨available, measured, enough⟩ := admits running
  have age := disk_fresh date positive bounded fresh
  exact ⟨running, probedAt, disk, available, probed, by omega, measured, enough⟩

/-- A daemon that answers "ready" is connected. The counts it reports were in the spool not long
before, where what the wall clock was put back in the meantime comes on top; and where the disk
is protected, enough space was measured not long before. -/
theorem ready_recent {p : Parsers} {c : Config} (accepted : c.setDefaultsAndValidate p = .ok cfg)
    (h : (daemon lag cfg).Reachable w) {done : Bool} (answered : (w.readyz done).1 = 200) :
    done = false ∧ w.connected = true ∧
    (∃ view date, w.read = some (view, date) ∧ (∃ env, readStats env view.tables = .ok w.server.last) ∧
      w.clock.now - view.taken ≤ cfg.monitoring.sampleInterval.toInt + 3 * sampleTimeout.toInt + lag +
        (date.offset - w.clock.offset)) ∧
    (0 < cfg.spool.diskSpace.pauseBelowBytes → w.guard.status.paused = false ∧
      ∃ probedAt disk available, w.probed = some (probedAt, disk) ∧
        w.clock.now - probedAt ≤ 2 * cfg.spool.diskSpace.checkInterval.toInt ∧
        disk.measured = some available ∧
        cfg.spool.diskSpace.pauseBelowBytes.toNatClampNeg ≤ available) := by
  obtain ⟨⟨positive, bounded⟩, checkInterval, checkPositive, checkBounded⟩ := accepted_intervals accepted
  have disk := (App.accepted_documented accepted).1.spool.diskSpace
  obtain ⟨interval, -, server, guarded⟩ := daemon_sound disk.pause disk.resume h
  obtain ⟨running, connected, fresh, diskReady⟩ := readyz_ready answered
  have ok : w.server.sampleOK = true := by
    simp only [Server.snapshot, Bool.and_eq_true] at fresh
    exact fresh.1.1
  obtain ⟨view, date, from_, dated, past, late, read⟩ := server ok
  have age := ((snapshot_fresh_iff dated (interval ▸ positive) (interval ▸ bounded)).mp fresh).2.2
  have timeout : sampleTimeout.toInt = 5000000000 := by decide
  rw [interval] at age
  have guardInterval := guarded.1.trans checkInterval
  refine ⟨running, connected, ⟨view, date, from_, read, ?_⟩, fun protected_ => ?_⟩
  · unfold Reading.offset
    omega
  · rw [← guardInterval]
    exact disk_recent guarded (guardInterval ▸ checkPositive) (guardInterval ▸ checkBounded) protected_
      diskReady

end Recent

section Continuous

variable {lag : Int} {cfg : Config} {w w' : Watch}

structure Timing where
  read : Int
  slack : Int
  base : Int
  ahead : Int

structure Timing.Steady (timing : Timing) (r : Reading) : Prop where
  least : timing.base ≤ r.offset
  most : r.offset ≤ timing.base + timing.ahead
  nonzero : r.wall ≠ Moment.zero.wall

def Timing.stay (timing : Timing) (interval : Int) (s : Sampler) : Int :=
  if s.reads then timing.read else interval + timing.slack

/-- A read takes at most `read`, the timer fires at most `slack` late, the wall clock is never
set by more than `ahead`, and no read fails once one has succeeded. -/
structure Timing.Punctual (timing : Timing) (w w' : Watch) : Prop where
  reads : w.server.sampleOK = true → w'.server.sampleOK = true
  steady : timing.Steady w'.clock
  stays : w'.clock.now ≤ w'.sampler.since + timing.stay w'.server.interval.toInt w'.sampler

def punctual (lag : Int) (timing : Timing) (cfg : Config) : System Watch where
  init w := (daemon lag cfg).init w ∧ timing.Steady w.clock
  step w w' := Watch.Step lag w w' ∧ timing.Punctual w w'

variable {timing : Timing}

theorem punctual_reachable (h : (punctual lag timing cfg).Reachable w) :
    (daemon lag cfg).Reachable w := by
  obtain ⟨a, init, run⟩ := h
  have weaker (w w' : Watch) (next : (punctual lag timing cfg).step w w') :
      (daemon lag cfg).step w w' := next.1
  exact ⟨a, init.1, Relation.ReflTransGen.mono weaker _ _ run⟩

def Timing.age (timing : Timing) (interval : Int) (s : Sampler) : Int :=
  if s.reads then interval + timing.slack + timing.read else timing.read

/-- The sample is no older than the last read, or than the one before the read that runs. -/
structure Timely (timing : Timing) (w : Watch) : Prop where
  steady : timing.Steady w.clock
  stays : w.clock.now ≤ w.sampler.since + timing.stay w.server.interval.toInt w.sampler
  dated : ∀ since view date, w.sampler = .dated since view date → timing.Steady date
  recent : w.server.sampleOK = true → ∃ date, w.server.last.sampledAt = ⟨date.wall, none⟩ ∧
    timing.Steady date ∧ w.sampler.since - timing.age w.server.interval.toInt w.sampler ≤ date.now

theorem Timely.stay (h : Timely timing w) (ontime : timing.Punctual w w') (server : w'.server = w.server)
    (since : w'.sampler.since = w.sampler.since) (reads : w'.sampler.reads = w.sampler.reads)
    (dated : ∀ since view date, w'.sampler = .dated since view date → timing.Steady date) :
    Timely timing w' where
  steady := ontime.steady
  stays := ontime.stays
  dated := dated
  recent := by
    have age : timing.age w.server.interval.toInt w'.sampler =
        timing.age w.server.interval.toInt w.sampler := by
      unfold Timing.age
      rw [reads]
    rw [server, since, age]
    exact h.recent

theorem Timely.step (h : Timely timing w) (sampling : w.sampler.Ordered w.clock.now)
    (next : Watch.Step lag w w') (ontime : timing.Punctual w w') : Timely timing w' := by
  cases next with
  | elapse d positive => exact h.stay ontime rfl rfl rfl h.dated
  | adjust wall => exact h.stay ontime rfl rfl rfl h.dated
  | store op => exact h.stay ontime rfl rfl rfl h.dated
  | fill disk => exact h.stay ontime rfl rfl rfl h.dated
  | capture connected transactions lastCaptureUnix => exact h.stay ontime rfl rfl rfl h.dated
  | check force asked past => exact h.stay ontime rfl rfl rfl h.dated
  | start waiting =>
    refine ⟨ontime.steady, ontime.stays, nofun, fun ok => ?_⟩
    -- the wait is over: what was left of the interval goes into the age of the sample
    obtain ⟨date, dated, steady, recent⟩ := h.recent ok
    have waited := h.stays
    rw [waiting] at recent waited
    refine ⟨date, dated, steady, ?_⟩
    change w.clock.now - (w.server.interval.toInt + timing.slack + timing.read) ≤ date.now
    simp only [Timing.age, Timing.stay, Sampler.since, Sampler.reads, Bool.false_eq_true, if_false]
      at recent waited
    omega
  | view reading =>
    rw [reading] at sampling
    exact h.stay ontime rfl (by rw [reading]; rfl) (by rw [reading]; rfl) nofun
  | date reading =>
    refine h.stay ontime rfl (by rw [reading]; rfl) (by rw [reading]; rfl) ?_
    rintro _ _ _ ⟨⟩
    exact h.steady
  | fail failure expired reading => exact ⟨ontime.steady, ontime.stays, nofun, nofun⟩
  | @finish since view date env expired reading dated intime =>
    refine ⟨ontime.steady, ontime.stays, nofun, fun ok => ?_⟩
    change (w.server.sample (readStats env view.tables) expired).sampleOK = true at ok
    obtain ⟨-, read⟩ := sample_kept ok
    have reads := h.stays
    rw [reading] at sampling reads
    obtain ⟨first, before, past⟩ := sampling
    refine ⟨date, dated ▸ readStats_sampledAt read, h.dated _ _ _ reading, ?_⟩
    change w.clock.now - timing.read ≤ date.now
    simp only [Timing.stay, Sampler.since, Sampler.reads, if_true] at reads
    omega

theorem punctual_timely (pause : 0 ≤ cfg.spool.diskSpace.pauseBelowBytes)
    (resume : 0 ≤ cfg.spool.diskSpace.resumeAtBytes) (positive : 0 ≤ cfg.monitoring.sampleInterval.toInt)
    (slack : 0 ≤ timing.slack) (h : (punctual lag timing cfg).Reachable w) : Timely timing w := by
  refine (punctual lag timing cfg).invariant (Timely timing) ?_ ?_ h
  · rintro w ⟨⟨server, sampler, -⟩, steady⟩
    refine ⟨steady, ?_, by simp [sampler], by simp [server, Server.new]⟩
    rw [sampler, server]
    change w.clock.now ≤ w.clock.now + (cfg.monitoring.sampleInterval.toInt + timing.slack)
    omega
  · intro w w' reached timely next
    have sampling := (daemon_sound pause resume (punctual_reachable reached)).sampler
    exact timely.step sampling next.1 next.2

/-- With reads, timers and a wall clock that keep to their bounds, the sample never goes stale:
two reads, the delay of one timer and the drift of the clock fit into the allowance. -/
theorem fresh_continuous {p : Parsers} {c : Config} (accepted : c.setDefaultsAndValidate p = .ok cfg)
    (reads : 0 ≤ timing.read) (slack : 0 ≤ timing.slack)
    (room : 2 * timing.read + timing.slack + timing.ahead ≤ 2 * sampleTimeout.toInt)
    (h : (punctual lag timing cfg).Reachable w) (first : w.server.sampleOK = true) :
    (w.server.snapshot w.clock.moment).2 = true := by
  obtain ⟨⟨positive, bounded⟩, -⟩ := accepted_intervals accepted
  have disk := (App.accepted_documented accepted).1.spool.diskSpace
  have interval : w.server.interval = cfg.monitoring.sampleInterval :=
    (daemon_sound disk.pause disk.resume (punctual_reachable h)).interval
  obtain ⟨steady, stays, -, recent⟩ := punctual_timely disk.pause disk.resume positive slack h
  obtain ⟨date, dated, steady', recent⟩ := recent first
  rw [snapshot_fresh_iff dated (interval ▸ positive) (interval ▸ bounded)]
  have timeout : sampleTimeout.toInt = 5000000000 := by decide
  have most := steady.most
  have least := steady'.least
  have waited : timing.stay w.server.interval.toInt w.sampler +
      timing.age w.server.interval.toInt w.sampler ≤
        w.server.interval.toInt + timing.slack + 2 * timing.read := by
    unfold Timing.stay Timing.age
    split <;> omega
  refine ⟨first, steady'.nonzero, ?_⟩
  unfold Reading.offset at most least
  omega

end Continuous

section Sampled

open App (sampleDaemon sampleParsers sampleDaemon_accepted)

def watched : Config := sampleDaemon.completed sampleParsers

def started : Watch where
  clock := ⟨0, 1700000000000000000⟩
  tables := runAll captured .empty
  disk := .failed ""
  guard := .new watched.spool.diskSpace
  connected := true
  transactions := 0
  lastCaptureUnix := 0
  server := .new watched.monitoring.sampleInterval
  sampler := .waiting 0
  read := none
  probed := none

def calmRead : ReadEnv :=
  ⟨.ok (), ⟨.decimal, fun _ => none, 3, 1700000001000000000, id⟩, .ok ⟨4096, 0, 0, 4096⟩⟩

def firstView : View := ⟨1000000000, runAll captured .empty⟩

def firstDate : Reading := ⟨1000000000, 1700000001000000000⟩

def reading : Watch :=
  { started with
    clock := ⟨1001000000, 1700000001001000000⟩
    sampler := .dated 1000000000 firstView firstDate }

def sampled : Watch := reading.finish firstView firstDate (readStats calmRead firstView.tables) false

/-- Two seconds after the first read the wall clock has been put back by one. -/
def setBack : Watch := { sampled with clock := ⟨3001000000, 1700000002001000000⟩ }

def steady : Timing := ⟨1000000000, 1000000000, 1699999999000000000, 1000000000⟩

theorem reading_reachable : (punctual 0 steady watched).Reachable reading := by
  have init : (punctual 0 steady watched).init started :=
    ⟨⟨rfl, rfl, rfl⟩, by decide, by decide, by decide⟩
  have later := ((punctual 0 steady watched).reachable_init init).step
    ⟨.elapse 1000000000 (by decide), nofun, ⟨by decide, by decide, by decide⟩, by decide⟩
  have begun := later.step ⟨.start rfl, nofun, ⟨by decide, by decide, by decide⟩, by decide⟩
  have viewed := begun.step ⟨.view rfl, nofun, ⟨by decide, by decide, by decide⟩, by decide⟩
  have dated := viewed.step ⟨.date rfl, nofun, ⟨by decide, by decide, by decide⟩, by decide⟩
  exact dated.step ⟨.elapse 1000000 (by decide), nofun, ⟨by decide, by decide, by decide⟩, by decide⟩

theorem sampled_interval : sampled.server.interval = watched.monitoring.sampleInterval :=
  sample_interval _ _ _

theorem sampled_reachable : (punctual 0 steady watched).Reachable sampled := by
  have stays : sampled.clock.now ≤ sampled.sampler.since +
      steady.stay sampled.server.interval.toInt sampled.sampler := by
    rw [sampled_interval]
    decide
  exact reading_reachable.step
    ⟨.finish calmRead false rfl rfl fun _ => by decide, nofun, ⟨by decide, by decide, by decide⟩, stays⟩

theorem setBack_reachable : (punctual 0 steady watched).Reachable setBack := by
  have stays (clock : Reading) (intime : clock.now ≤ 3001000000) :
      clock.now ≤ sampled.sampler.since + steady.stay sampled.server.interval.toInt sampled.sampler := by
    rw [sampled_interval]
    refine intime.trans ?_
    decide
  have waited : (punctual 0 steady watched).Reachable
      { sampled with clock := ⟨3001000000, 1700000003001000000⟩ } := sampled_reachable.step
    ⟨.elapse 2000000000 (by decide), id, ⟨by decide, by decide, by decide⟩, stays _ (by decide)⟩
  exact waited.step
    ⟨.adjust 1700000002001000000, id, ⟨by decide, by decide, by decide⟩, stays _ (by decide)⟩

theorem sampled_ok : sampled.server.sampleOK = true := by decide +kernel

theorem setBack_ready : (setBack.readyz false).1 = 200 := by decide +kernel

theorem ready_recent_setBack :
    (daemon 0 watched).Reachable setBack ∧ (setBack.readyz false).1 = 200 ∧
      setBack.tables.events.length = 1 ∧
      ∃ view date, setBack.read = some (view, date) ∧
        (∃ env, readStats env view.tables = .ok setBack.server.last) ∧
        setBack.clock.now - view.taken ≤ watched.monitoring.sampleInterval.toInt +
          3 * sampleTimeout.toInt + 0 + (date.offset - setBack.clock.offset) :=
  have reached := punctual_reachable setBack_reachable
  ⟨reached, setBack_ready, by decide +kernel,
    (ready_recent sampleDaemon_accepted reached setBack_ready).2.2.1⟩

theorem fresh_continuous_setBack :
    (punctual 0 steady watched).Reachable setBack ∧ setBack.server.sampleOK = true ∧
      (setBack.server.snapshot setBack.clock.moment).2 = true :=
  ⟨setBack_reachable, sampled_ok, fresh_continuous sampleDaemon_accepted (by decide) (by decide)
    (by decide) setBack_reachable sampled_ok⟩

end Sampled

end WriteRelay.Monitoring
