import WriteRelay.Base.Fallible

/-! Errors of the daemon: the sentinel that `errors.Is` finds, the format string of
the return site with its arguments, and the SQLite constraint that raised it. -/
namespace WriteRelay
open Fallible

abbrev Bytes := List UInt8

def bytes (s : String) : Bytes := s.toByteArray.data.toList

theorem bytes_injective {s t : String} (h : bytes s = bytes t) : s = t :=
  String.toByteArray_inj.mp (ByteArray.ext (Array.toList_inj.mp h))

inductive Sentinel
  | malformed
  | oversized
  | protocolState
  | protectedEvent
  | transactionLimit
  | slotMismatch
  | unsupportedVersion
  | identityConflict
  | durability
  | sinkConfigurationConflict
  | paused
  deriving DecidableEq, Repr

inductive SqlAbort
  | pruneRequiresDelivered
  | prunedPayloadImmutable
  | requirePayload
  | prunedTerminal
  | payloadCheck
  | foreignKey
  | uniqueSinkName
  deriving DecidableEq, Repr

def SqlAbort.text : SqlAbort → String
  | .pruneRequiresDelivered => "payload pruning requires all deliveries to have succeeded"
  | .prunedPayloadImmutable => "pruned payload identity must remain intact"
  | .requirePayload => "cannot create a delivery for a pruned payload"
  | .prunedTerminal => "cannot redeliver a pruned payload"
  | .payloadCheck => "CHECK constraint failed: payload_pruned_at IS NULL OR length(payload) = 0"
  | .foreignKey => "FOREIGN KEY constraint failed"
  | .uniqueSinkName => "UNIQUE constraint failed: delivery_sinks.sink_name"

structure Failure where
  sentinel : Option Sentinel
  format : String
  args : List String
  raised : Option SqlAbort
  deriving DecidableEq, Repr

/-- `fmt.Errorf` with a leading `%w` sentinel, or `errors.New`. -/
def errorf (sentinel : Option Sentinel) (format : String) (args : List String) : Failure :=
  ⟨sentinel, format, args, none⟩

/-- A statement that SQLite or its driver refuses: an outside fault or a constraint. -/
inductive DriverError
  | fault (text : String)
  | raised (abort : SqlAbort)
  deriving DecidableEq, Repr

def DriverError.text : DriverError → String
  | .fault text => text
  | .raised abort => abort.text

def DriverError.abort : DriverError → Option SqlAbort
  | .fault _ => none
  | .raised abort => some abort

/-- `fmt.Errorf` around the driver's error, whose text is the last argument. -/
def wrapf (sentinel : Option Sentinel) (format : String) (args : List String) (e : DriverError) :
    Failure :=
  ⟨sentinel, format, args ++ [e.text], e.abort⟩

/-- A guard clause: return `e` early when `c` holds. -/
def refuse (c : Prop) [Decidable c] (e : Failure) : Except Failure Unit :=
  if c then .error e else .ok ()

/-- A call that may fail from outside before it does anything. -/
def attempt (fault : Option String) (wrap : DriverError → Failure) : Except Failure Unit :=
  match fault with
  | none => .ok ()
  | some text => .error (wrap (.fault text))

def statement {α : Type} (result : Except SqlAbort α) (wrap : DriverError → Failure) :
    Except Failure α :=
  match result with
  | .ok a => .ok a
  | .error abort => .error (wrap (.raised abort))

@[simp] theorem refuse_ok_iff {c : Prop} [Decidable c] {e : Failure} {u : Unit} :
    refuse c e = .ok u ↔ ¬c := by
  unfold refuse
  split <;> simp [*]

@[simp] theorem attempt_ok_iff {fault : Option String} {wrap : DriverError → Failure} {u : Unit} :
    attempt fault wrap = .ok u ↔ fault = none := by
  cases fault <;> simp [attempt]

@[simp] theorem statement_ok_iff {α : Type} {result : Except SqlAbort α}
    {wrap : DriverError → Failure} {a : α} : statement result wrap = .ok a ↔ result = .ok a := by
  cases result <;> simp [statement]

theorem refuse_fails {c : Prop} [Decidable c] {e : Failure} {fails : Failure → Prop} (h : fails e) :
    Ensures (refuse c e) (fun _ => True) fails := by
  unfold refuse
  split
  · exact h
  · trivial

theorem attempt_fails {fault : Option String} {wrap : DriverError → Failure} {fails : Failure → Prop}
    (h : ∀ d, fails (wrap d)) : Ensures (attempt fault wrap) (fun _ => True) fails := by
  cases fault with
  | none => trivial
  | some text => exact h (.fault text)

theorem statement_fails {α : Type} {result : Except SqlAbort α} {wrap : DriverError → Failure}
    {fails : Failure → Prop} (h : ∀ d, fails (wrap d)) :
    Ensures (statement result wrap) (fun _ => True) fails := by
  cases result with
  | ok a => trivial
  | error abort => exact h (.raised abort)

def Failure.Unraised (f : Failure) : Prop := f.raised = none

theorem refuse_unraised {c : Prop} [Decidable c] {sentinel : Option Sentinel} {format : String}
    {args : List String} :
    Ensures (refuse c (errorf sentinel format args)) (fun _ => ¬c) Failure.Unraised := by
  unfold refuse
  split
  · rfl
  · assumption

theorem attempt_unraised {fault : Option String} {sentinel : Option Sentinel} {format : String}
    {args : List String} :
    Ensures (attempt fault (wrapf sentinel format args)) (fun _ => fault = none)
      Failure.Unraised := by
  cases fault <;> rfl

theorem statement_unraised {α : Type} {result : Except SqlAbort α} {wrap : DriverError → Failure}
    {a : α} (done : result = .ok a) :
    Ensures (statement result wrap) (fun b => b = a) Failure.Unraised := by
  subst done
  rfl

end WriteRelay
