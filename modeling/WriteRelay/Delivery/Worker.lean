import WriteRelay.Spool.Operations

/-! The delivery worker: select an item, send it, record the outcome. The other users
of the spool run between any two of these steps, and the worker can stop at each. -/
namespace WriteRelay.Worker
open Clock Spool Runs

structure AttemptResult where
  success : Bool
  retryable : Bool
  retryAfter : Int64
  statusCode : Int
  failure : String
  deriving DecidableEq

structure Config where
  initialDelay : Int64
  maxDelay : Int64
  maxAttempts : Int

def capDelay (maxDelay delay : Int64) : Int64 := if maxDelay < delay then maxDelay else delay

/-- The loop of `retryDelay`, counting the remaining attempts down. -/
def retryDelayLoop (maxDelay : Int64) : Nat → Int64 → Int64
  | 0, delay => capDelay maxDelay delay
  | n + 1, delay =>
    if delay < maxDelay then
      if maxDelay / 2 < delay then maxDelay else retryDelayLoop maxDelay n (delay * 2)
    else capDelay maxDelay delay

def retryDelay (config : Config) (previousAttempts : Nat) : Int64 :=
  retryDelayLoop config.maxDelay previousAttempts config.initialDelay

def maxStoredErrorBytes : Nat := 2048

/-- Cuts between bytes, which can be inside a character. -/
def truncate (value : String) (limit : Nat) : Bytes := (bytes value).take limit

inductive Mark
  | delivered (attempt : Nat) (status : Int) (at_ : Instant)
  | failed (attempt : Nat) (permanent : Bool) (retryAt : Instant) (failure : Bytes) (status : Int)
      (at_ : Instant)
  deriving DecidableEq

def rescheduleDelay (config : Config) (item : Delivery) (result : AttemptResult) : Int64 :=
  let delay := retryDelay config item.attempts
  if delay < result.retryAfter then capDelay config.maxDelay result.retryAfter else delay

/-- The part of `ProcessOne` after `Send`. -/
def recordAttempt (config : Config) (item : Delivery) (result : AttemptResult) (now : Instant) : Mark :=
  let attempt := item.attempts + 1
  if result.success then .delivered attempt result.statusCode now
  else
    let permanent := !result.retryable || decide (config.maxAttempts ≤ attempt)
    let retryAt := if permanent then now else now + (rescheduleDelay config item result).toInt
    .failed attempt permanent retryAt (truncate result.failure maxStoredErrorBytes)
      result.statusCode now

def Mark.operation (faults : UpdateFaults) (item : Delivery) : Mark → Operation
  | .delivered attempt status at_ => .delivered faults item attempt status at_
  | .failed attempt permanent retryAt failure status at_ =>
    .failed faults item attempt permanent retryAt failure status at_

def Mark.terminal : Mark → Bool
  | .delivered .. => true
  | .failed _ permanent .. => permanent

inductive Phase
  | idle
  | selected (item : Delivery)
  | answered (item : Delivery) (result : AttemptResult)

/-- What happened, newest first. -/
inductive Entry
  | selected (item : Delivery)
  | redriven (keys : List (Nat × Nat))
  | finished (sequence sinkID : Nat)
  deriving DecidableEq

structure State where
  tables : Tables
  phase : Phase
  history : List Entry

def State.initial : State := ⟨.empty, .idle, []⟩

def redriveEntry (faults : UpdateFaults) (t : Tables) (sinkName source id : String) : List Entry :=
  if faults.exec = none then
    [.redriven ((t.deliveries.filter (redriveTarget t sinkName source id)).map (·.key))]
  else []

def finishedEntry (faults : UpdateFaults) (t : Tables) (mark : Mark) (item : Delivery) : List Entry :=
  if faults.exec = none ∧ mark.terminal ∧ t.deliveries.any (unchanged item) then
    [.finished item.eventSequence item.sinkID]
  else []

inductive Step (configs : Config → Prop) (s : State) : State → Prop
  | maintain (op : Operation) : maintains op = true →
      Step configs s { s with tables := (op.exec s.tables).tables }
  | redrive (faults : UpdateFaults) (sinkName source id : String) (at_ : Instant) :
      Step configs s { s with
        tables := (redriveDelivery faults sinkName source id at_ s.tables).tables
        history := redriveEntry faults s.tables sinkName source id ++ s.history }
  | select (now : Instant) (item : Delivery) : s.phase = .idle →
      nextDueDelivery s.tables now = some item →
      Step configs s { s with phase := .selected item, history := .selected item :: s.history }
  | answer (item : Delivery) (result : AttemptResult) : s.phase = .selected item →
      Step configs s { s with phase := .answered item result }
  | record (config : Config) (item : Delivery) (result : AttemptResult) (now : Instant)
      (faults : UpdateFaults) (mark : Mark) (t : Tables) : configs config →
      s.phase = .answered item result → mark = recordAttempt config item result now →
      t = ((mark.operation faults item).exec s.tables).tables →
      Step configs s ⟨t, .idle, finishedEntry faults s.tables mark item ++ s.history⟩
  | stop : Step configs s { s with phase := .idle }

def system (configs : Config → Prop) : System State where
  init s := s = .initial
  step := Step configs

end WriteRelay.Worker
