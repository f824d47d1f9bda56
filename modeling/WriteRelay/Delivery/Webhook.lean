import WriteRelay.Delivery.Worker

/-! `WebhookSender`: the request of an attempt and what its answer means. -/
namespace WriteRelay.Webhook
open Clock Spool Worker

def keyText (sinkName source id : String) : String :=
  sinkName ++ "\x00" ++ source ++ "\x00" ++ id

def idempotencyKey (sinkName source id : String) : String :=
  Sha256.hex (Sha256.sum (bytes (keyText sinkName source id)))

def deliveryKey (item : Delivery) : String := idempotencyKey item.sinkName item.source item.id

def nul : Char := Char.ofNat 0

theorem keyText_toList (sinkName source id : String) : (keyText sinkName source id).toList =
    [nul].intercalate [sinkName.toList, source.toList, id.toList] := by
  have separator : "\x00".toList = [nul] := by decide
  simp [keyText, String.toList_append, separator, List.intercalate, List.intersperse]

theorem keyText_injective {sinkName source id sinkName' source' id' : String}
    (sink : nul ∉ sinkName.toList) (sourced : nul ∉ source.toList) (identified : nul ∉ id.toList)
    (h : keyText sinkName source id = keyText sinkName' source' id') :
    sinkName = sinkName' ∧ source = source' ∧ id = id' := by
  have lists := congrArg String.toList h
  rw [keyText_toList, keyText_toList] at lists
  have counts := congrArg (List.count nul) lists
  simp only [List.intercalate, List.intersperse, List.flatten_cons, List.flatten_nil, List.append_nil,
    List.count_append, List.count_eq_zero_of_not_mem sink, List.count_eq_zero_of_not_mem sourced,
    List.count_eq_zero_of_not_mem identified, List.count_cons_self, List.count_nil] at counts
  have absent : ∀ l : List Char, l.count nul = 0 → nul ∉ l := fun l => List.count_eq_zero.mp
  have split := congrArg (List.splitOn nul) lists
  rw [List.splitOn_intercalate nul (by simp [sink, sourced, identified]) (by simp),
    List.splitOn_intercalate nul (by
      simp only [List.mem_cons, List.not_mem_nil, or_false, forall_eq_or_imp, forall_eq]
      exact ⟨absent _ (by omega), absent _ (by omega), absent _ (by omega)⟩) (by simp)] at split
  simp only [List.cons.injEq, and_true] at split
  exact ⟨String.ext split.1, String.ext split.2.1, String.ext split.2.2⟩

/-- The configuration's pattern for sink names, `^[a-z_][a-z0-9_]{0,62}$`. -/
def identifierPattern (name : String) : Bool :=
  match name.toList with
  | [] => false
  | c :: rest => (c.isLower || c = '_') && rest.all (fun c => c.isLower || c.isDigit || c = '_') &&
      decide (rest.length ≤ 62)

theorem identifierPattern_nul {name : String} (h : identifierPattern name = true) :
    nul ∉ name.toList := by
  unfold identifierPattern at h
  split at h
  · contradiction
  · rename_i c rest shown
    simp only [Bool.and_eq_true, List.all_eq_true] at h
    rw [shown]
    intro member
    rcases List.mem_cons.mp member with rfl | member
    · exact absurd h.1.1 (by decide)
    · exact absurd (h.1.2 nul member) (by decide)

structure WebhookSender where
  endpoint : String
  authorization : String
  signingSecret : Bytes

structure Request where
  endpoint : String
  headers : List (String × String)
  body : Bytes

def Request.header (r : Request) (name : String) : String := (r.headers.lookup name).getD ""

def signature (secret : Bytes) (timestamp : String) (payload : Bytes) : String :=
  "v1=" ++ Sha256.hex (Sha256.hmac secret (bytes timestamp ++ bytes "." ++ payload))

def WebhookSender.request (s : WebhookSender) (item : Delivery) (now : Instant) : Request where
  endpoint := s.endpoint
  headers :=
    [("Content-Type", "application/cloudevents+json"), ("User-Agent", "WriteRelay/1"),
      ("Idempotency-Key", deliveryKey item),
      ("X-WriteRelay-Attempt", toString (item.attempts + 1))] ++
    (if s.authorization = "" then [] else [("Authorization", s.authorization)]) ++
    (if s.signingSecret = [] then [] else
      let timestamp := toString (now / 1000000000)
      [("X-WriteRelay-Timestamp", timestamp),
        ("X-WriteRelay-Signature", signature s.signingSecret timestamp item.payload)])
  body := item.payload

theorem request_key (s : WebhookSender) (item : Delivery) (now : Instant) :
    (s.request item now).header "Idempotency-Key" = deliveryKey item := by
  simp [Request.header, WebhookSender.request, List.lookup]

/-- `strconv.ParseInt(value, 10, 64)`. -/
def parseInt (value : String) : Option Int :=
  let (sign, digits) : Int × List Char := match value.toList with
    | '-' :: digits => (-1, digits)
    | '+' :: digits => (1, digits)
    | digits => (1, digits)
  if digits = [] || !digits.all Char.isDigit then none
  else
    let n := sign * Nat.ofDigitChars 10 digits 0
    if -2 ^ 63 ≤ n ∧ n < 2 ^ 63 then some n else none

def until_ (now at_ : Instant) : Int64 := saturate (at_ - now)

/-- `parseTime` is `http.ParseTime`. -/
def parseRetryAfter (parseTime : String → Option Instant) (now : Instant) (value : String) : Int64 :=
  if value = "" then 0
  else match parseInt value with
    | some seconds =>
      if 0 < seconds then
        if 9223372036 < seconds then Int64.maxValue else Int64.ofInt seconds * 1000000000
      else 0
    | none =>
      match parseTime value with
      | none => 0
      | some at_ => if until_ now at_ < 0 then 0 else until_ now at_

inductive Exchange
  | unconstructed
  | timedOut
  | unreachable
  | answered (statusCode : Int) (retryAfter : String)

def attemptResult (parseTime : String → Option Instant) (now : Instant) : Exchange → AttemptResult
  | .unconstructed => ⟨false, false, 0, 0, "construct webhook request"⟩
  | .timedOut => ⟨false, true, 0, 0, "webhook request timed out"⟩
  | .unreachable => ⟨false, true, 0, 0, "webhook network request failed"⟩
  | .answered statusCode retryAfter =>
    if 200 ≤ statusCode ∧ statusCode < 300 then ⟨true, false, 0, statusCode, ""⟩
    else
      ⟨false, statusCode = 408 ∨ statusCode = 425 ∨ statusCode = 429 ∨ 500 ≤ statusCode,
        parseRetryAfter parseTime now retryAfter, statusCode,
        "webhook returned HTTP " ++ toString statusCode⟩

theorem attemptResult_success {parseTime : String → Option Instant} {now : Instant}
    {exchange : Exchange} (h : (attemptResult parseTime now exchange).success = true) :
    ∃ statusCode retryAfter, exchange = .answered statusCode retryAfter ∧
      200 ≤ statusCode ∧ statusCode < 300 := by
  cases exchange with
  | unconstructed | timedOut | unreachable => contradiction
  | answered statusCode retryAfter =>
    simp only [attemptResult] at h
    split at h
    · rename_i ok
      exact ⟨statusCode, retryAfter, rfl, ok⟩
    · contradiction

end WriteRelay.Webhook
