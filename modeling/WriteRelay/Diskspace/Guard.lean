import WriteRelay.Clock
import WriteRelay.Failure

/-! The disk-space guard: its configuration, the measurement of the filesystem, and
`Guard.Check` with its cached sample. -/
namespace WriteRelay.Diskspace
open Clock Fallible

section Config

def durationFraction (n precision : Nat) : List Char :=
  match ((Digits.padded precision (n % 10 ^ precision)).reverse.dropWhile (· = '0')).reverse with
  | [] => []
  | digits => '.' :: digits

/-- `time.Duration.String`. -/
def durationText (d : Int64) : String :=
  let n := d.toInt.natAbs
  let scaled (precision : Nat) (unit : String) : String :=
    toString (n / 10 ^ precision) ++ String.ofList (durationFraction n precision) ++ unit
  let minutes := n / 60000000000
  let seconds := toString (n / 1000000000 % 60) ++ String.ofList (durationFraction n 9) ++ "s"
  (if d < 0 then "-" else "") ++
    (if n = 0 then "0s"
    else if n < 1000 then scaled 0 "ns"
    else if n < 1000000 then scaled 3 "µs"
    else if n < 1000000000 then scaled 6 "ms"
    else if minutes = 0 then seconds
    else if minutes < 60 then toString minutes ++ "m" ++ seconds
    else toString (minutes / 60) ++ "h" ++ toString (minutes % 60) ++ "m" ++ seconds)

example : durationText 60000000000 = "1m0s" := by decide +kernel

structure DiskSpaceConfig where
  pauseBelowBytes : Int64
  resumeAtBytes : Int64
  checkInterval : Int64
  checkIntervalValue : String
  deriving DecidableEq

/-- `parseDuration` is `time.ParseDuration`. -/
def boundedDuration (parseDuration : String → Except String Int64) (name value : String)
    (minimum maximum : Int64) : Except Failure Int64 := do
  let duration ← (parseDuration value).mapError (fun e => wrapf none "%s: %w" [name] (.fault e))
  refuse (duration < minimum ∨ maximum < duration)
    (errorf none "%s must be between %s and %s" [name, durationText minimum, durationText maximum])
  return duration

def DiskSpaceConfig.setDefaultsAndValidate (parseDuration : String → Except String Int64)
    (c : DiskSpaceConfig) : Except Failure DiskSpaceConfig := do
  refuse (c.pauseBelowBytes < 0 ∨ c.resumeAtBytes < 0)
    (errorf none "spool.disk_space thresholds must be non-negative byte counts" [])
  (if c.pauseBelowBytes = 0 then
    refuse (c.resumeAtBytes ≠ 0)
      (errorf none "spool.disk_space.resume_at_bytes requires pause_below_bytes" [])
  else
    refuse (c.resumeAtBytes ≤ c.pauseBelowBytes)
      (errorf none "spool.disk_space.resume_at_bytes must exceed pause_below_bytes" []))
  let value := if c.checkIntervalValue = "" then "5s" else c.checkIntervalValue
  let interval ← boundedDuration parseDuration "spool.disk_space.check_interval" value
    1000000000 60000000000
  return { c with checkIntervalValue := value, checkInterval := interval }

theorem setDefaultsAndValidate_ok {parseDuration : String → Except String Int64}
    {c c' : DiskSpaceConfig} (h : c.setDefaultsAndValidate parseDuration = .ok c') :
    0 ≤ c'.pauseBelowBytes ∧ 0 ≤ c'.resumeAtBytes ∧
      (0 < c'.pauseBelowBytes → c'.pauseBelowBytes < c'.resumeAtBytes) ∧ 0 < c'.checkInterval := by
  obtain ⟨_, nonneg, h⟩ := bind_ok_iff.mp h
  obtain ⟨_, ordered, h⟩ := bind_ok_iff.mp h
  obtain ⟨interval, bounded, h⟩ := bind_ok_iff.mp h
  cases Except.ok.inj h
  obtain ⟨pause, resume⟩ := not_or.mp (refuse_ok_iff.mp nonneg)
  refine ⟨Int64.not_lt.mp pause, Int64.not_lt.mp resume, fun enabled => ?_, ?_⟩
  · dsimp only at enabled ⊢
    rw [if_neg (by rintro none; simp [none] at enabled)] at ordered
    exact Int64.not_le.mp (refuse_ok_iff.mp ordered)
  · obtain ⟨parsed, _, bounded⟩ := bind_ok_iff.mp bounded
    obtain ⟨_, within, bounded⟩ := bind_ok_iff.mp bounded
    cases Except.ok.inj bounded
    have least := Int64.not_lt.mp (not_or.mp (refuse_ok_iff.mp within)).1
    exact Int64.lt_of_lt_of_le (by decide) least

end Config

/-- A reading of Go's clock; one taken from outside may lack the monotonic part. -/
structure Moment where
  wall : Instant
  monotonic : Option Int

def Moment.sub (t u : Moment) : Int64 :=
  match t.monotonic, u.monotonic with
  | some a, some b => saturate (a - b)
  | _, _ => saturate (t.wall - u.wall)

def Moment.zero : Moment := ⟨-62135596800000000000, none⟩

def Moment.isZero (t : Moment) : Bool := t.wall = Moment.zero.wall

inductive Statfs
  | failed (text : String)
  | found (bavail : UInt64) (bsize : Int64)

def availableBytes (blocks : UInt64) (blockSize : Int64) : Except String UInt64 :=
  if blockSize ≤ 0 ∨ 18446744073709551615 / blockSize.toUInt64 < blocks then
    .error "invalid filesystem space measurement"
  else .ok (blocks * blockSize.toUInt64)

/-- `AvailableBytes`, the probe of production. -/
def probe : Statfs → Except String UInt64
  | .failed text => .error text
  | .found bavail bsize => availableBytes bavail bsize

inductive Reason
  | none
  | lowDisk
  | diskCheckFailed
  deriving DecidableEq, Repr

def Reason.text : Reason → String
  | .none => ""
  | .lowDisk => "low_disk"
  | .diskCheckFailed => "disk_check_failed"

structure Status where
  enabled : Bool
  paused : Bool
  reason : Reason
  availableBytes : UInt64
  sampledAt : Moment
  sampleFresh : Bool
  pauseBelowBytes : Int64
  resumeAtBytes : Int64

structure Guard where
  interval : Int64
  status : Status
  sampleOK : Bool

def Guard.new (cfg : DiskSpaceConfig) : Guard where
  interval := if cfg.checkInterval ≤ 0 then 5000000000 else cfg.checkInterval
  status :=
    ⟨decide (0 < cfg.pauseBelowBytes), false, .none, 0, .zero, false, cfg.pauseBelowBytes,
      cfg.resumeAtBytes⟩
  sampleOK := false

def Guard.snapshot (g : Guard) (now : Moment) : Status :=
  { g.status with
    sampleFresh := g.status.enabled && g.sampleOK && !g.status.sampledAt.isZero &&
      decide (now.sub g.status.sampledAt ≤ 2 * g.interval) }

def errPaused : Failure := errorf (some .paused) "capture paused by disk-space protection" []

def Status.answer (s : Status) : Except Failure Unit := refuse (s.paused = true) errPaused

/-- A routine check is answered from the sample until the interval has passed. -/
def Guard.cached (g : Guard) (force : Bool) (now : Moment) : Bool :=
  !force && !g.status.sampledAt.isZero && decide (now.sub g.status.sampledAt < g.interval)

def Guard.sample (g : Guard) (now : Moment) (measured : Except String UInt64) : Guard :=
  match measured with
  | .error _ =>
    { g with
      status := { g.status with sampledAt := now, paused := true, reason := .diskCheckFailed }
      sampleOK := false }
  | .ok available =>
    let low := available < g.status.pauseBelowBytes.toUInt64 ∨
      g.status.paused = true ∧ available < g.status.resumeAtBytes.toUInt64
    { g with
      status := { g.status with
        sampledAt := now, availableBytes := available, paused := decide low
        reason := if low then .lowDisk else .none }
      sampleOK := true }

def Guard.probes (g : Guard) (force : Bool) (now : Moment) : Bool :=
  g.status.enabled && !g.cached force now

def Guard.check (g : Guard) (force : Bool) (now : Moment) (filesystem : Statfs) :
    Guard × Except Failure Unit :=
  if g.status.enabled = false then (g, .ok ())
  else if g.cached force now then (g, g.status.answer)
  else
    let sampled := g.sample now (probe filesystem)
    (sampled, sampled.status.answer)

/-- The bytes that a measurement stands for: the whole product, if a uint64 holds it. -/
def Statfs.measured : Statfs → Option Nat
  | .failed _ => none
  | .found bavail bsize =>
    if 0 < bsize.toInt ∧ bavail.toNat * bsize.toNatClampNeg < 2 ^ 64 then
      some (bavail.toNat * bsize.toNatClampNeg)
    else none

/-- The rule of the two thresholds. -/
def hysteresis (pauseBelow resumeAt : Nat) (paused : Bool) : Option Nat → Bool
  | none => true
  | some available =>
    if available < pauseBelow then true
    else if resumeAt ≤ available then false
    else paused

theorem toNat_toUInt64 {x : Int64} (h : 0 ≤ x) : x.toUInt64.toNat = x.toNatClampNeg := by
  have nonneg : (0 : Int) ≤ x.toInt := by simpa using Int64.le_iff_toInt_le.mp h
  have value := BitVec.toInt_eq_toNat_cond x.toBitVec
  have bound := x.toBitVec.isLt
  change 0 ≤ x.toBitVec.toInt at nonneg
  change x.toBitVec.toNat = x.toBitVec.toInt.toNat
  split at value <;> omega

theorem refused_iff (blocks : UInt64) (blockSize : Int64) :
    (blockSize ≤ 0 ∨ 18446744073709551615 / blockSize.toUInt64 < blocks) ↔
      ¬(0 < blockSize.toInt ∧ blocks.toNat * blockSize.toNatClampNeg < 2 ^ 64) := by
  by_cases whole : 0 < blockSize.toInt
  · have positive : 0 < blockSize := Int64.lt_iff_toInt_lt.mpr (by simpa using whole)
    have divisor : 0 < blockSize.toNatClampNeg := Int.pos_iff_toNat_pos.mp whole
    have wraps : 18446744073709551615 / blockSize.toUInt64 < blocks ↔
        2 ^ 64 ≤ blocks.toNat * blockSize.toNatClampNeg := by
      rw [UInt64.lt_iff_toNat_lt, UInt64.toNat_div, toNat_toUInt64 (Int64.le_of_lt positive),
        Nat.div_lt_iff_lt_mul divisor]
      rfl
    rw [wraps, not_and, not_lt]
    exact ⟨fun h _ => h.resolve_left (Int64.not_le.mpr positive), fun h => .inr (h whole)⟩
  · have nonpos : blockSize ≤ 0 := Int64.le_iff_toInt_le.mpr (by simpa using whole)
    exact ⟨fun _ h => whole h.1, fun _ => .inl nonpos⟩

theorem probe_measured (filesystem : Statfs) :
    (probe filesystem).toOption.map UInt64.toNat = filesystem.measured := by
  cases filesystem with
  | failed text => rfl
  | found bavail bsize =>
    simp only [probe, availableBytes, Statfs.measured]
    by_cases refused : bsize ≤ 0 ∨ 18446744073709551615 / bsize.toUInt64 < bavail
    · rw [if_pos refused, if_neg ((refused_iff bavail bsize).mp refused)]
      rfl
    · have fits := not_not.mp (mt (refused_iff bavail bsize).mpr refused)
      have positive : 0 < bsize := Int64.lt_iff_toInt_lt.mpr (by simpa using fits.1)
      rw [if_neg refused, if_pos fits]
      change some (bavail * bsize.toUInt64).toNat = _
      rw [UInt64.toNat_mul, toNat_toUInt64 (Int64.le_of_lt positive), Nat.mod_eq_of_lt fits.2]

theorem sample_paused {g : Guard} (now : Moment) (filesystem : Statfs)
    (pause : 0 ≤ g.status.pauseBelowBytes) (resume : 0 ≤ g.status.resumeAtBytes) :
    (g.sample now (probe filesystem)).status.paused =
      hysteresis g.status.pauseBelowBytes.toNatClampNeg g.status.resumeAtBytes.toNatClampNeg
        g.status.paused filesystem.measured := by
  rw [← probe_measured]
  cases probe filesystem with
  | error text => rfl
  | ok available =>
    simp only [Guard.sample, Except.toOption, Option.map_some, hysteresis, UInt64.lt_iff_toNat_lt,
      toNat_toUInt64 pause, toNat_toUInt64 resume]
    by_cases low : available.toNat < g.status.pauseBelowBytes.toNatClampNeg
    · simp [low]
    · by_cases high : g.status.resumeAtBytes.toNatClampNeg ≤ available.toNat
      · simp [low, high, not_lt.mpr high]
      · simp [low, high, not_le.mp high]

structure Guard.Protects (g : Guard) (cfg : DiskSpaceConfig) : Prop where
  enabled : g.status.enabled = true
  pauseBelow : g.status.pauseBelowBytes = cfg.pauseBelowBytes
  resumeAt : g.status.resumeAtBytes = cfg.resumeAtBytes

def DiskSpaceConfig.rule (cfg : DiskSpaceConfig) : Bool → Option Nat → Bool :=
  hysteresis cfg.pauseBelowBytes.toNatClampNeg cfg.resumeAtBytes.toNatClampNeg

theorem Guard.new_protects {cfg : DiskSpaceConfig} (enabled : 0 < cfg.pauseBelowBytes) :
    (Guard.new cfg).Protects cfg := ⟨decide_eq_true enabled, rfl, rfl⟩

theorem Guard.Protects.probes_force {g : Guard} {cfg : DiskSpaceConfig} (h : g.Protects cfg)
    (now : Moment) : g.probes true now = true := by
  simp [Guard.probes, Guard.cached, h.enabled]

theorem answer_iff {s : Status} : (s.answer = .error errPaused ↔ s.paused = true) ∧
    (s.answer = .ok () ↔ s.paused = false) := by
  cases paused : s.paused <;> simp [Status.answer, refuse, paused]

theorem sample_protects {g : Guard} {cfg : DiskSpaceConfig} (h : g.Protects cfg) (now : Moment)
    (measured : Except String UInt64) : (g.sample now measured).Protects cfg := by
  obtain ⟨enabled, pauseBelow, resumeAt⟩ := h
  cases measured <;> exact ⟨enabled, pauseBelow, resumeAt⟩

/-- One check: the flag moves by the rule where the filesystem is asked, and is returned. -/
theorem check_spec {g : Guard} {cfg : DiskSpaceConfig} (h : g.Protects cfg)
    (pause : 0 ≤ cfg.pauseBelowBytes) (resume : 0 ≤ cfg.resumeAtBytes) (force : Bool) (now : Moment)
    (filesystem : Statfs) :
    (g.check force now filesystem).1.Protects cfg ∧
      (g.check force now filesystem).1.status.paused =
        (if g.probes force now then cfg.rule g.status.paused filesystem.measured else g.status.paused) ∧
      (g.check force now filesystem).2 = (g.check force now filesystem).1.status.answer := by
  have on : ¬g.status.enabled = false := by simp [h.enabled]
  unfold Guard.check
  rw [if_neg on]
  cases cached : g.cached force now with
  | true => simp [h, Guard.probes, cached]
  | false =>
    have flag := sample_paused now filesystem (h.pauseBelow ▸ pause) (h.resumeAt ▸ resume)
    rw [h.pauseBelow, h.resumeAt] at flag
    simp only [Bool.false_eq_true, if_false, Guard.probes, h.enabled, cached, Bool.not_false,
      Bool.and_self, if_true]
    exact ⟨sample_protects h now _, flag, trivial⟩

end WriteRelay.Diskspace
