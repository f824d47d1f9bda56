import WriteRelay.Spool.Timestamps

/-! `ListDeliveries` and `RedriveDelivery` together: the dead letters that an operator lists can be
redriven by what the listing says about them. -/
namespace WriteRelay.Spool
open Clock Fallible Runs

def redriveEach (at_ : Instant) : List ListedDelivery → Tables → Tables
  | [], t => t
  | row :: rows, t =>
    redriveEach at_ rows (redriveDelivery ⟨none, none⟩ row.sinkName row.source row.id at_ t).tables

/-- The row of a listed dead letter whose sink is active. -/
def redrivable (t : Tables) (rows : List ListedDelivery) (d : DeliveryRow) : Bool :=
  d.state = .deadLetter ∧ t.sinks.any (fun k => k.sinkID = d.sinkID ∧ k.active ∧
    rows.any (fun row => row.sinkName = k.sinkName ∧ row.eventSequence = d.eventSequence))

structure Names (j : JoinedDelivery) (row : ListedDelivery) : Prop where
  sequence : row.eventSequence = j.delivery.eventSequence
  sinkName : row.sinkName = j.sink.sinkName
  source : row.source = j.event.source
  id : row.id = j.event.id

section Listing

variable {env : ListEnv} {t : Tables} {state : String} {limit : Int} {rows : List ListedDelivery}

theorem mem_joinedDeliveries {j : JoinedDelivery} : j ∈ joinedDeliveries t state ↔
    j.delivery ∈ t.deliveries ∧ (state = "" ∨ j.delivery.state.text = state) ∧
      j.sink ∈ t.sinks ∧ j.sink.sinkID = j.delivery.sinkID ∧
      j.event ∈ t.events ∧ j.event.sequence = j.delivery.eventSequence := by
  simp only [joinedDeliveries, List.mem_flatMap, List.mem_map, List.mem_filter, decide_eq_true_eq]
  constructor
  · rintro ⟨d, ⟨hd, wanted⟩, k, ⟨hk, sink⟩, e, ⟨he, sequence⟩, rfl⟩
    exact ⟨hd, wanted, hk, sink, he, sequence⟩
  · rintro ⟨hd, wanted, hk, sink, he, sequence⟩
    exact ⟨j.delivery, ⟨hd, wanted⟩, j.sink, ⟨hk, sink⟩, j.event, ⟨he, sequence⟩, rfl⟩

theorem scanDelivery_names {index : Nat} {j : JoinedDelivery} {row : ListedDelivery}
    (scanned : scanDelivery env index j = .ok row) : Names j row := by
  simp only [scanDelivery, bind_ok_iff] at scanned
  obtain ⟨_, _, _, _, _, _, _, _, _, _, done⟩ := scanned
  cases done
  exact ⟨rfl, rfl, rfl, rfl⟩

theorem scanDeliveries_names {index : Nat} {joined : List JoinedDelivery}
    (scanned : scanDeliveries env index joined = .ok rows) : List.Forall₂ Names joined rows := by
  induction joined generalizing index rows with
  | nil =>
    cases scanned
    exact .nil
  | cons j joined ih =>
    simp only [scanDeliveries, bind_ok_iff] at scanned
    obtain ⟨row, first, rest, others, done⟩ := scanned
    cases done
    exact .cons (scanDelivery_names first) (ih others)

theorem listDeliveries_names (listed : listDeliveries env state limit t = .ok rows) :
    List.Forall₂ Names (listedRows t state limit.toNat) rows := by
  simp only [listDeliveries, bind_ok_iff] at listed
  obtain ⟨_, _, _, _, _, _, result, scanned, _, _, done⟩ := listed
  cases done
  exact scanDeliveries_names scanned

theorem listedRows_joined {n : Nat} {j : JoinedDelivery} (hj : j ∈ listedRows t state n) :
    j ∈ joinedDeliveries t state :=
  (List.perm_insertionSort _ _).mem_iff.mp (List.mem_of_mem_take hj)

theorem listedRows_complete (short : (listedRows t state limit.toNat).length < limit.toNat)
    {j : JoinedDelivery} (hj : j ∈ joinedDeliveries t state) : j ∈ listedRows t state limit.toNat := by
  unfold listedRows at short ⊢
  rw [List.length_take] at short
  rw [List.take_of_length_le (by omega)]
  exact (List.perm_insertionSort _ _).mem_iff.mpr hj

end Listing

section Target

variable {t : Tables} {j : JoinedDelivery}

theorem deadLetter_text {state : DeliveryState}
    (wanted : "dead_letter" = "" ∨ state.text = "dead_letter") : state = .deadLetter := by
  cases state <;> simp [DeliveryState.text] at wanted ⊢

theorem findEvent_joined (sound : t.Sound) (he : j.event ∈ t.events) :
    t.findEvent j.event.source j.event.id = some j.event := by
  cases found : t.findEvent j.event.source j.event.id with
  | none =>
    have absent := findEvent_eq_none.mp found
    exact absurd (List.mem_map_of_mem he) absent
  | some e =>
    obtain ⟨mem, identity⟩ := findEvent_eq_some found
    exact congrArg some (Rows.key_unique sound.events.identities mem he identity)

theorem activeSinkID_joined (sound : t.Sound) (hk : j.sink ∈ t.sinks) :
    t.activeSinkID j.sink.sinkName = if j.sink.active then some j.sink.sinkID else none := by
  have named : ∀ k ∈ t.sinks, k.sinkName = j.sink.sinkName → k = j.sink := by
    intro k mem same
    exact Rows.key_unique sound.sinks.names mem hk same
  unfold Tables.activeSinkID
  cases found : t.sinks.find? (fun k => k.sinkName = j.sink.sinkName ∧ k.active) with
  | none =>
    have missing := List.find?_eq_none.mp found j.sink hk
    simp only [true_and, decide_eq_true_eq, Bool.not_eq_true] at missing
    simp [missing]
  | some k =>
    have matched := List.find?_some found
    simp only [decide_eq_true_eq] at matched
    obtain rfl := named k (List.mem_of_find?_eq_some found) matched.1
    simp [matched.2]

/-- What is listed about a dead letter names its row and no other. -/
theorem redriveTarget_joined (sound : t.Sound) (hj : j ∈ joinedDeliveries t "dead_letter")
    {d : DeliveryRow} (hd : d ∈ t.deliveries) :
    redriveTarget t j.sink.sinkName j.event.source j.event.id d = true ↔
      d = j.delivery ∧ j.sink.active = true := by
  obtain ⟨mem, wanted, hk, sink, he, sequence⟩ := mem_joinedDeliveries.mp hj
  have dead := deadLetter_text wanted
  simp only [redriveTarget, decide_eq_true_eq, findEvent_joined sound he, activeSinkID_joined sound hk]
  constructor
  · rintro ⟨_, id, event⟩
    cases active : j.sink.active with
    | false => simp [active] at id
    | true =>
      simp only [active, if_true, Option.map_some, Option.some.injEq] at id event
      have same : d.key = j.delivery.key := by
        rw [DeliveryRow.key, DeliveryRow.key, id, event, sink, sequence]
      exact ⟨Rows.key_unique sound.keys hd mem same, rfl⟩
  · rintro ⟨rfl, active⟩
    simp [dead, active, sink, sequence]

end Target

section Redriving

variable {env : ListEnv} {t : Tables} {limit : Int} {rows : List ListedDelivery} {at_ : Instant}

/-- A redriven row is no dead letter, so that no redrive meets it again. -/
theorem redriveEach_eq (valid : t.Valid) (at_ : Instant) (rows : List ListedDelivery) :
    redriveEach at_ rows t = { t with
      deliveries := Rows.update
        (fun d => rows.any fun row => redriveTarget t row.sinkName row.source row.id d)
        (redrivenRow at_) t.deliveries } := by
  induction rows generalizing t with
  | nil =>
    have nothing : Rows.update (fun _ => false) (redrivenRow at_) t.deliveries = t.deliveries :=
      Rows.update_of_none fun _ _ => rfl
    simp only [redriveEach, List.any_nil, nothing]
  | cons row rows ih =>
    have updated := redriveDelivery_spec ⟨none, none⟩ row.sinkName row.source row.id at_ valid
    have next := ih updated.valid
    rw [updated.executed rfl] at next
    rw [redriveEach, updated.executed rfl, next]
    have twice := Rows.update_update (p := fun d => rows.any fun row =>
        redriveTarget t row.sinkName row.source row.id d) (f := redrivenRow at_)
      (q := redriveTarget t row.sinkName row.source row.id) (fun d _ _ => rfl) t.deliveries
    simp only [List.any_cons]
    rw [← twice]
    rfl

theorem redrivable_iff (sound : t.Sound)
    (listed : List.Forall₂ Names (listedRows t "dead_letter" limit.toNat) rows)
    {d : DeliveryRow} (hd : d ∈ t.deliveries) :
    redrivable t rows d = true ↔ ∃ j ∈ listedRows t "dead_letter" limit.toNat,
      d = j.delivery ∧ j.sink.active = true := by
  simp only [redrivable, decide_eq_true_eq, List.any_eq_true]
  constructor
  · rintro ⟨_, k, hk, id, active, row, hrow, name, sequence⟩
    obtain ⟨j, hj, names⟩ := Rows.exists_of_forall₂ listed.flip hrow
    have joined := listedRows_joined hj
    obtain ⟨mem, _, hk', sink, _, _⟩ := mem_joinedDeliveries.mp joined
    have same : k = j.sink :=
      Rows.key_unique sound.sinks.names hk hk' (name.symm.trans names.sinkName)
    subst same
    have key : d.key = j.delivery.key := by
      rw [DeliveryRow.key, DeliveryRow.key, ← sequence, names.sequence, ← id, sink]
    exact ⟨j, hj, Rows.key_unique sound.keys hd mem key, active⟩
  · rintro ⟨j, hj, rfl, active⟩
    have joined := listedRows_joined hj
    obtain ⟨_, wanted, hk, sink, _, _⟩ := mem_joinedDeliveries.mp joined
    obtain ⟨row, hrow, names⟩ := Rows.exists_of_forall₂ listed hj
    exact ⟨deadLetter_text wanted, j.sink, hk, sink, active, row, hrow, names.sinkName, names.sequence⟩

theorem redriveEach_redrivable (valid : t.Valid)
    (listed : List.Forall₂ Names (listedRows t "dead_letter" limit.toNat) rows) (at_ : Instant) :
    redriveEach at_ rows t =
      { t with deliveries := Rows.update (redrivable t rows) (redrivenRow at_) t.deliveries } := by
  have same : ∀ d ∈ t.deliveries,
      (rows.any fun row => redriveTarget t row.sinkName row.source row.id d) = redrivable t rows d := by
    intro d hd
    rw [Bool.eq_iff_iff, redrivable_iff valid.sound listed hd, List.any_eq_true]
    constructor
    · rintro ⟨row, hrow, target⟩
      obtain ⟨j, hj, names⟩ := Rows.exists_of_forall₂ listed.flip hrow
      have joined := listedRows_joined hj
      rw [names.sinkName, names.source, names.id] at target
      exact ⟨j, hj, (redriveTarget_joined valid.sound joined hd).mp target⟩
    · rintro ⟨j, hj, found⟩
      obtain ⟨row, hrow, names⟩ := Rows.exists_of_forall₂ listed hj
      have joined := listedRows_joined hj
      refine ⟨row, hrow, ?_⟩
      rw [names.sinkName, names.source, names.id]
      exact (redriveTarget_joined valid.sound joined hd).mpr found
  rw [redriveEach_eq valid, Rows.update_congr same]

theorem redriveDelivery_error (valid : t.Valid) (sinkName source id : String) (at_ : Instant) :
    (redriveDelivery ⟨none, none⟩ sinkName source id at_ t).error =
      redriveJudge (t.deliveries.countP (redriveTarget t sinkName source id)) := by
  have done : t.updateDeliveries (redriveTarget t sinkName source id) (redrivenRow at_) =
      .ok ({ t with deliveries :=
          Rows.update (redriveTarget t sinkName source id) (redrivenRow at_) t.deliveries },
        t.deliveries.countP (redriveTarget t sinkName source id)) := by
    have same : ∀ d, (redrivenRow at_ d).key = d.key := fun _ => rfl
    refine (valid.sound.updateDeliveries same ?_ ?_).1
    · intro d _ matched delivered
      simp [redriveTarget, delivered] at matched
    · intro d _ matched _
      simp only [redriveTarget, decide_eq_true_eq] at matched
      exact activeSinkID_active matched.2.1
  simp only [redriveDelivery, execUpdate, done]

theorem redriveDelivery_joined (valid : t.Valid) {j : JoinedDelivery}
    (hj : j ∈ joinedDeliveries t "dead_letter") (at_ : Instant) :
    (redriveDelivery ⟨none, none⟩ j.sink.sinkName j.event.source j.event.id at_ t).error = none ↔
      j.sink.active = true := by
  have mem := (mem_joinedDeliveries.mp hj).1
  rw [redriveDelivery_error valid, List.countP_eq_length_filter]
  cases active : j.sink.active with
  | true =>
    have one := Rows.filter_key valid.sound.keys mem
      ((redriveTarget_joined valid.sound hj mem).mpr ⟨rfl, active⟩)
      (fun d hd target =>
        congrArg DeliveryRow.key ((redriveTarget_joined valid.sound hj hd).mp target).1)
    simp [one, redriveJudge]
  | false =>
    have zero :
        t.deliveries.filter (redriveTarget t j.sink.sinkName j.event.source j.event.id) = [] := by
      rw [List.filter_eq_nil_iff]
      intro d hd target
      have := ((redriveTarget_joined valid.sound hj hd).mp target).2
      rw [active] at this
      contradiction
    simp [zero, redriveJudge]

/-- A redrive of what was listed succeeds exactly at the active sinks. Redriving the whole list
schedules these dead letters again and changes nothing else, and if the list was not full, no
dead letter of an active sink is left. -/
theorem redrive_listed (reachable : spool.Reachable t)
    (listed : listDeliveries env "dead_letter" limit t = .ok rows) (at_ : Instant) :
    (∀ row ∈ rows,
      (redriveDelivery ⟨none, none⟩ row.sinkName row.source row.id at_ t).error = none ↔
        ∃ k ∈ t.sinks, k.sinkName = row.sinkName ∧ k.active = true) ∧
    redriveEach at_ rows t =
      { t with deliveries := Rows.update (redrivable t rows) (redrivenRow at_) t.deliveries } ∧
    (rows.length < limit → ∀ d ∈ (redriveEach at_ rows t).deliveries, d.state = .deadLetter →
      ¬t.Active d.sinkID) := by
  have valid := spool_valid reachable
  have names := listDeliveries_names listed
  have redriven := redriveEach_redrivable valid names at_
  refine ⟨?_, redriven, ?_⟩
  · intro row hrow
    obtain ⟨j, hj, named⟩ := Rows.exists_of_forall₂ names.flip hrow
    have joined := listedRows_joined hj
    obtain ⟨_, _, hk, _⟩ := mem_joinedDeliveries.mp joined
    rw [named.sinkName, named.source, named.id, redriveDelivery_joined valid joined]
    constructor
    · intro active
      exact ⟨j.sink, hk, rfl, active⟩
    · rintro ⟨k, mem, same, active⟩
      obtain rfl := Rows.key_unique valid.sound.sinks.names mem hk same
      exact active
  · intro short d' hd' dead
    rw [redriven] at hd'
    obtain ⟨d, hd, rfl⟩ := Rows.mem_update.mp hd'
    rintro ⟨k, hk, id, active⟩
    by_cases chosen : redrivable t rows d = true
    · rw [if_pos chosen] at dead
      contradiction
    · rw [if_neg chosen] at dead id
      obtain ⟨e, he, sequence⟩ := valid.sound.ofEvent d hd
      have joined : (⟨d, k, e⟩ : JoinedDelivery) ∈ joinedDeliveries t "dead_letter" := by
        refine mem_joinedDeliveries.mpr ⟨hd, .inr ?_, hk, id, he, sequence⟩
        rw [dead]
        rfl
      have whole : (listedRows t "dead_letter" limit.toNat).length < limit.toNat := by
        rw [names.length_eq]
        omega
      exact chosen ((redrivable_iff valid.sound names hd).mpr
        ⟨_, listedRows_complete whole joined, rfl, active⟩)

def deadLettered : List Operation :=
  captured ++ [.failed ⟨none, none⟩ sampleItem 1 true 5 (bytes "webhook returned HTTP 400") 400 5]

def calmList : ListEnv := ⟨fun _ => none, fun _ => ""⟩

theorem deadLettered_listed :
    ((listDeliveries calmList "dead_letter" 20 (runAll deadLettered .empty)).map (·.length)).toOption =
      some 1 := by
  decide +kernel

theorem redrive_listed_deadLettered : ∃ rows : List ListedDelivery,
    listDeliveries calmList "dead_letter" 20 (runAll deadLettered .empty) = .ok rows ∧ rows.length = 1 ∧
      ∀ d ∈ (redriveEach 7 rows (runAll deadLettered .empty)).deliveries, d.state = .deadLetter →
        ¬(runAll deadLettered .empty).Active d.sinkID := by
  have counted := deadLettered_listed
  cases listed : listDeliveries calmList "dead_letter" 20 (runAll deadLettered .empty) with
  | error e =>
    rw [listed] at counted
    contradiction
  | ok rows =>
    rw [listed] at counted
    have one : rows.length = 1 := Option.some.inj counted
    have reachable : spool.Reachable (runAll deadLettered .empty) :=
      spool_runAll (spool.reachable_init rfl) _
    exact ⟨rows, rfl, one, (redrive_listed reachable listed 7).2.2 (by rw [one]; decide)⟩

end Redriving

end WriteRelay.Spool
