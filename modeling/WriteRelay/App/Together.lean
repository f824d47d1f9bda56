import WriteRelay.Spool.Operations

/-! `runTogether`: the goroutines of the daemon, the channel of their results, the
cancellation of the peers and the store that is closed last. -/
namespace WriteRelay.App
open Runs Spool

/-- A goroutine of `runTogether`; a result is `none` when the task returned nil. -/
inductive TaskState (ε : Type)
  | waiting
  | running
  | returned (err : Option ε)
  | sent (err : Option ε)

/-- The tasks and the store that they share. A result in the channel carries the index of
its task, which the program does not read. -/
structure Together (n : Nat) (ε : Type) where
  spawned : Nat
  tasks : Fin n → TaskState ε
  results : List (Fin n × Option ε)
  received : List (Fin n × Option ε)
  firstError : Option ε
  cancelled : Bool
  outcome : Option (Option ε)
  closed : Bool
  tables : Tables

variable {n : Nat} {ε : Type}

def Together.started (t : Tables) : Together n ε where
  spawned := 0
  tasks _ := .waiting
  results := []
  received := []
  firstError := none
  cancelled := false
  outcome := none
  closed := false
  tables := t

def Together.setTask (s : Together n ε) (i : Fin n) (task : TaskState ε) : Together n ε :=
  { s with tasks := Function.update s.tasks i task }

def firstOf (firstError err : Option ε) : Option ε :=
  match firstError with
  | none => err
  | some e => some e

inductive Act (n : Nat) (ε : Type)
  | spawn (i : Fin n)
  | use (i : Fin n) (op : Operation)
  | finish (i : Fin n) (err : Option ε)
  | send (i : Fin n)
  | receive
  | conclude
  | close
  | cancel

/-- A closed store answers with an error and does nothing. The channel holds `n` results. -/
inductive Together.Does : Act n ε → Together n ε → Together n ε → Prop
  | spawn {s : Together n ε} (i : Fin n) : s.spawned = i →
      Does (.spawn i) s { s.setTask i .running with spawned := i + 1 }
  | use {s : Together n ε} (i : Fin n) (op : Operation) : s.tasks i = .running →
      Does (.use i op) s
        { s with tables := if s.closed then s.tables else (op.exec s.tables).tables }
  | finish {s : Together n ε} (i : Fin n) (err : Option ε) : s.tasks i = .running →
      Does (.finish i err) s (s.setTask i (.returned err))
  | send {s : Together n ε} (i : Fin n) (err : Option ε) : s.tasks i = .returned err →
      s.results.length < n →
      Does (.send i) s { s.setTask i (.sent err) with results := s.results ++ [(i, err)] }
  | receive {s : Together n ε} (r : Fin n × Option ε) (rest : List (Fin n × Option ε)) :
      s.spawned = n → s.received.length < n → s.results = r :: rest →
      Does .receive s { s with
        results := rest
        received := s.received ++ [r]
        cancelled := true
        firstError := firstOf s.firstError r.2 }
  | conclude {s : Together n ε} : s.spawned = n → s.received.length = n → s.outcome = none →
      Does .conclude s { s with outcome := some s.firstError, cancelled := true }
  | close {s : Together n ε} (r : Option ε) : s.outcome = some r → s.closed = false →
      Does .close s { s with closed := true }
  | cancel {s : Together n ε} : Does .cancel s { s with cancelled := true }

def together (n : Nat) (ε : Type) (t : Tables) : System (Together n ε) where
  init s := s = .started t
  step s s' := ∃ act, Together.Does act s s'

structure Together.Sound (s : Together n ε) : Prop where
  spawned : s.spawned ≤ n
  waiting : ∀ i, s.tasks i = .waiting ↔ s.spawned ≤ i
  sent : ∀ i err, (i, err) ∈ s.received ++ s.results ↔ s.tasks i = .sent err
  once : ((s.received ++ s.results).map Prod.fst).Nodup
  first : s.firstError = s.received.findSome? Prod.snd
  cancelled : s.received ≠ [] → s.cancelled = true
  outcome : ∀ r, s.outcome = some r → s.spawned = n ∧ s.received.length = n ∧ r = s.firstError
  closed : s.closed = true → ∃ r, s.outcome = some r
  valid : s.tables.Valid

section Sound

variable {s s' : Together n ε}

theorem Together.setTask_tasks (s : Together n ε) (i j : Fin n) (task : TaskState ε) :
    (s.setTask i task).tasks j = if j = i then task else s.tasks j := by
  simp [Together.setTask, Function.update_apply]

theorem Together.Sound.unsent (h : s.Sound) {i : Fin n} (busy : ∀ err, s.tasks i ≠ .sent err) :
    i ∉ (s.received ++ s.results).map Prod.fst := by
  intro mem
  obtain ⟨⟨j, err⟩, found, rfl⟩ := List.mem_map.mp mem
  exact busy err ((h.sent j err).mp found)

theorem Together.Sound.room (h : s.Sound) {i : Fin n} (busy : ∀ err, s.tasks i ≠ .sent err) :
    s.received.length + s.results.length < n := by
  have once : (i :: (s.received ++ s.results).map Prod.fst).Nodup :=
    List.nodup_cons.mpr ⟨h.unsent busy, h.once⟩
  have bound := once.length_le_card
  simp only [List.length_cons, List.length_map, List.length_append, Fintype.card_fin] at bound
  omega

theorem Together.Sound.all_sent (h : s.Sound) (full : s.received.length = n) (i : Fin n) :
    ∃ err, s.tasks i = .sent err := by
  by_contra busy
  have := h.room (not_exists.mp busy)
  omega

theorem findSome_append_firstOf (received : List (Fin n × Option ε)) (r : Fin n × Option ε) :
    (received ++ [r]).findSome? Prod.snd = firstOf (received.findSome? Prod.snd) r.2 := by
  rw [List.findSome?_append]
  cases received.findSome? Prod.snd <;> simp [firstOf]

theorem sound_started {t : Tables} (valid : t.Valid) : (Together.started t : Together n ε).Sound := by
  constructor <;> simp [Together.started, valid]

theorem Together.Sound.setTask (h : s.Sound) {i : Fin n} (busy : ∀ err, s.tasks i ≠ .sent err)
    {task : TaskState ε} (busy' : ∀ err, task ≠ .sent err) (j : Fin n) (err : Option ε) :
    (j, err) ∈ s.received ++ s.results ↔ (s.setTask i task).tasks j = .sent err := by
  rw [Together.setTask_tasks, h.sent]
  split
  · rename_i same
    subst same
    exact iff_of_false (busy err) (busy' err)
  · rfl

theorem Together.Sound.setTask_waiting (h : s.Sound) {i : Fin n} (begun : s.tasks i ≠ .waiting)
    {task : TaskState ε} (begun' : task ≠ .waiting) (j : Fin n) :
    (s.setTask i task).tasks j = .waiting ↔ s.spawned ≤ j := by
  rw [Together.setTask_tasks, ← h.waiting j]
  split
  · rename_i same
    subst same
    exact iff_of_false begun' begun
  · rfl

theorem Together.Sound.spawn (h : s.Sound) {i : Fin n} (here : s.spawned = i) :
    { s.setTask i .running with spawned := i + 1 }.Sound := by
  have fresh : s.tasks i = .waiting := (h.waiting i).mpr here.le
  refine { h with spawned := i.isLt, waiting := ?_, sent := ?_, outcome := ?_ }
  · intro j
    have before := h.waiting j
    change (s.setTask i .running).tasks j = .waiting ↔ i + 1 ≤ (j : Nat)
    rw [Together.setTask_tasks]
    split
    · rename_i same
      simp [same]
    · rename_i other
      have : (j : Nat) ≠ i := fun same => other (Fin.ext same)
      rw [before]
      omega
  · exact h.setTask (by simp [fresh]) (by simp)
  · intro r done
    have := h.outcome r done
    omega

theorem Together.Sound.finish (h : s.Sound) {i : Fin n} (here : s.tasks i = .running)
    (err : Option ε) : (s.setTask i (.returned err)).Sound :=
  { h with
    waiting := h.setTask_waiting (by simp [here]) (by simp)
    sent := h.setTask (by simp [here]) (by simp) }

theorem Together.Sound.send (h : s.Sound) {i : Fin n} {err : Option ε}
    (here : s.tasks i = .returned err) :
    { s.setTask i (.sent err) with results := s.results ++ [(i, err)] }.Sound := by
  have fresh := h.unsent (i := i) (by simp [here])
  refine { h with waiting := h.setTask_waiting (by simp [here]) (by simp), sent := ?_, once := ?_ }
  · intro j err'
    change (j, err') ∈ s.received ++ (s.results ++ [(i, err)]) ↔
      (s.setTask i (.sent err)).tasks j = .sent err'
    rw [← List.append_assoc, List.mem_append, h.sent, Together.setTask_tasks]
    split
    · rename_i same
      simp [same, here, eq_comm]
    · rename_i other
      simp [other]
  · change ((s.received ++ (s.results ++ [(i, err)])).map Prod.fst).Nodup
    rw [← List.append_assoc, List.map_append, List.map_singleton, ← List.concat_eq_append]
    exact h.once.concat fresh

theorem Together.Sound.receive (h : s.Sound) {r : Fin n × Option ε} {rest : List (Fin n × Option ε)}
    (more : s.received.length < n) (taken : s.results = r :: rest) :
    { s with
      results := rest
      received := s.received ++ [r]
      cancelled := true
      firstError := firstOf s.firstError r.2 }.Sound := by
  have same : s.received ++ [r] ++ rest = s.received ++ s.results := by simp [taken]
  refine { h with sent := ?_, once := ?_, first := ?_, cancelled := fun _ => rfl, outcome := ?_ }
  · intro i err
    change (i, err) ∈ s.received ++ [r] ++ rest ↔ _
    rw [same, h.sent]
  · change ((s.received ++ [r] ++ rest).map Prod.fst).Nodup
    rw [same]
    exact h.once
  · rw [findSome_append_firstOf, ← h.first]
  · intro result done
    have := h.outcome result done
    omega

theorem Together.Sound.step (h : s.Sound) {act : Act n ε} (next : Together.Does act s s') : s'.Sound := by
  cases next with
  | spawn i here => exact h.spawn here
  | use i op here =>
    refine { h with valid := ?_ }
    dsimp only
    split
    · exact h.valid
    · exact (exec_spec op h.valid).1
  | finish i err here => exact h.finish here err
  | send i err here room => exact h.send here
  | receive r rest all more taken => exact h.receive more taken
  | conclude all full pending =>
    refine { h with cancelled := fun _ => rfl, outcome := ?_, closed := fun _ => ⟨_, rfl⟩ }
    rintro _ ⟨⟩
    exact ⟨all, full, rfl⟩
  | close r done opened => exact { h with closed := fun _ => ⟨r, done⟩ }
  | cancel => exact { h with cancelled := fun _ => rfl }

theorem together_sound {t : Tables} (valid : t.Valid) (h : (together n ε t).Reachable s) : s.Sound := by
  refine (together n ε t).invariant Together.Sound ?_ ?_ h
  · rintro _ rfl
    exact sound_started valid
  · rintro s s' _ sound ⟨act, next⟩
    exact sound.step next

theorem Together.Sound.total (h : s.Sound) (done : ∀ i, ∃ err, s.tasks i = .sent err) :
    s.received.length + s.results.length = n := by
  have every : Finset.univ ⊆ ((s.received ++ s.results).map Prod.fst).toFinset := by
    intro i _
    obtain ⟨err, sent⟩ := done i
    exact List.mem_toFinset.mpr (List.mem_map_of_mem ((h.sent i err).mpr sent))
  have most := h.once.length_le_card
  have least := (Finset.card_le_card every).trans (List.toFinset_card_le _)
  simp only [Finset.card_univ, Fintype.card_fin, List.length_map, List.length_append] at least most
  omega

theorem Together.Sound.concluded (h : s.Sound) {r : Option ε} (done : s.outcome = some r) :
    (∀ i, ∃ err, s.tasks i = .sent err) ∧ r = s.received.findSome? Prod.snd ∧
      (r = none ↔ ∀ i, s.tasks i = .sent none) := by
  obtain ⟨-, full, rfl⟩ := h.outcome r done
  have all := h.all_sent full
  have total := h.total all
  have empty : s.results = [] := List.length_eq_zero_iff.mp (by omega)
  refine ⟨all, h.first, ?_⟩
  rw [h.first, List.findSome?_eq_none_iff]
  constructor
  · intro nils i
    obtain ⟨err, sent⟩ := all i
    have mem := (h.sent i err).mpr sent
    rw [empty, List.append_nil] at mem
    obtain rfl : err = none := nils (i, err) mem
    exact sent
  · rintro nils ⟨i, err⟩ mem
    have sent := (h.sent i err).mp (List.mem_append_left _ mem)
    rw [nils i] at sent
    exact (TaskState.sent.inj sent).symm

end Sound

/-- The store is closed after its last user, nobody blocks on the channel, the first
result cancels the others, and the error of the daemon is the first that arrived. -/
theorem together_shutdown {t : Tables} (valid : t.Valid) {s : Together n ε}
    (h : (together n ε t).Reachable s) :
    s.tables.Valid ∧ (∀ i, s.tasks i = .running → s.closed = false) ∧
      (∀ i err, s.tasks i = .returned err → s.results.length < n) ∧
      (s.received ≠ [] → s.cancelled = true) ∧
      ∀ r, s.outcome = some r → (∀ i, ∃ err, s.tasks i = .sent err) ∧
        r = s.received.findSome? Prod.snd ∧ (r = none ↔ ∀ i, s.tasks i = .sent none) := by
  have sound := together_sound valid h
  refine ⟨sound.valid, ?_, ?_, sound.cancelled, fun r => sound.concluded⟩
  · intro i running
    by_contra closed
    obtain ⟨r, done⟩ := sound.closed (Bool.eq_true_of_not_eq_false closed)
    obtain ⟨err, sent⟩ := (sound.concluded done).1 i
    rw [running] at sent
    contradiction
  · intro i err returned
    have := sound.room (i := i) (by simp [returned])
    omega

section Ends

/-- Everything but a use of the store and the cancellation from outside. -/
def Act.moves : Act n ε → Bool
  | .use .. | .cancel => false
  | .spawn _ | .finish .. | .send _ | .receive | .conclude | .close => true

def Act.supervises : Act n ε → Bool
  | .use .. | .cancel | .finish .. => false
  | .spawn _ | .send _ | .receive | .conclude | .close => true

inductive Together.Trace : List (Act n ε) → Together n ε → Together n ε → Prop
  | nil (s : Together n ε) : Trace [] s s
  | snoc {acts : List (Act n ε)} {act : Act n ε} {a b c : Together n ε} :
      Trace acts a b → Together.Does act b c → Trace (acts ++ [act]) a c

def TaskState.left : TaskState ε → Nat
  | .waiting | .running => 2
  | .returned _ => 1
  | .sent _ => 0

def Together.left (s : Together n ε) : Nat :=
  (n - s.spawned) + (∑ i, (s.tasks i).left) + (n - s.received.length) +
    s.outcome.isNone.toNat + (!s.closed).toNat

theorem Together.Trace.reachable {t : Tables} {acts : List (Act n ε)} {s : Together n ε}
    (run : Together.Trace acts (.started t) s) : (together n ε t).Reachable s := by
  generalize start : Together.started t = a at run
  induction run with
  | nil => exact ⟨_, start.symm, .refl⟩
  | snoc _ next ih => exact (ih start).step ⟨_, next⟩

theorem sum_left_setTask {s : Together n ε} {i : Fin n} {old : TaskState ε} (here : s.tasks i = old)
    (task : TaskState ε) :
    (∑ j, ((s.setTask i task).tasks j).left) + old.left = (∑ j, (s.tasks j).left) + task.left := by
  have others : ∑ j ∈ Finset.univ.erase i, ((s.setTask i task).tasks j).left =
      ∑ j ∈ Finset.univ.erase i, (s.tasks j).left := by
    refine Finset.sum_congr rfl fun j mem => ?_
    rw [Together.setTask_tasks, if_neg (Finset.ne_of_mem_erase mem)]
  rw [← Finset.add_sum_erase _ _ (Finset.mem_univ i), ← Finset.add_sum_erase _ _ (Finset.mem_univ i),
    others, Together.setTask_tasks, if_pos rfl, here]
  omega

theorem Together.Does.left {act : Act n ε} {s s' : Together n ε} (sound : s.Sound)
    (next : Together.Does act s s') : s'.left + act.moves.toNat = s.left := by
  have spawned := sound.spawned
  cases next with
  | spawn i here =>
    have total := sum_left_setTask ((sound.waiting i).mpr here.le) .running
    have inside := i.isLt
    change _ + 2 = _ + 2 at total
    change (n - (i + 1)) + (∑ j, ((s.setTask i .running).tasks j).left) + (n - s.received.length) +
      s.outcome.isNone.toNat + (!s.closed).toNat + 1 = s.left
    rw [Together.left]
    omega
  | use i op here => rfl
  | finish i err here =>
    have total := sum_left_setTask here (.returned err)
    change _ + 2 = _ + 1 at total
    change (n - s.spawned) + (∑ j, ((s.setTask i (.returned err)).tasks j).left) +
      (n - s.received.length) + s.outcome.isNone.toNat + (!s.closed).toNat + 1 = s.left
    rw [Together.left]
    omega
  | send i err here room =>
    have total := sum_left_setTask here (.sent err)
    change _ + 1 = _ + 0 at total
    change (n - s.spawned) + (∑ j, ((s.setTask i (.sent err)).tasks j).left) +
      (n - s.received.length) + s.outcome.isNone.toNat + (!s.closed).toNat + 1 = s.left
    rw [Together.left]
    omega
  | receive r rest all more taken =>
    simp only [Together.left, Act.moves, List.length_append, List.length_singleton, Bool.toNat_true]
    omega
  | conclude all full pending =>
    simp [Together.left, Act.moves, pending]
    omega
  | close r done opened =>
    simp [Together.left, Act.moves, opened]
  | cancel => rfl

theorem Together.Trace.left {t : Tables} (valid : t.Valid) {acts : List (Act n ε)} {s : Together n ε}
    (run : Together.Trace acts (.started t) s) :
    s.left + (acts.filter Act.moves).length = 4 * n + 2 := by
  generalize start : Together.started t = a at run
  induction run with
  | nil =>
    subst start
    simp [Together.left, Together.started, TaskState.left]
    omega
  | @snoc acts act _ b c before next ih =>
    subst start
    have counted := next.left (together_sound valid before.reachable)
    have earlier := ih rfl
    rw [List.filter_append, List.length_append, List.filter_singleton]
    cases moved : act.moves
    · simp_all
    · simp_all
      omega

theorem Together.Sound.progress {s : Together n ε} (h : s.Sound) (opened : s.closed = false)
    (idle : ∀ i, s.tasks i ≠ .running) :
    ∃ act s', act.supervises = true ∧ Together.Does act s s' := by
  rcases h.spawned.lt_or_eq with more | all
  · exact ⟨.spawn ⟨s.spawned, more⟩, _, rfl, .spawn _ rfl⟩
  by_cases unsent : ∃ i err, s.tasks i = .returned err
  · obtain ⟨i, err, here⟩ := unsent
    have := h.room (i := i) (by simp [here])
    exact ⟨.send i, _, rfl, .send i err here (by omega)⟩
  -- Every result is in the channel or has been received.
  have done (i : Fin n) : ∃ err, s.tasks i = .sent err := by
    cases here : s.tasks i with
    | waiting =>
      have := (h.waiting i).mp here
      have := i.isLt
      omega
    | running => exact absurd here (idle i)
    | returned err => exact absurd ⟨i, err, here⟩ unsent
    | sent err => exact ⟨err, rfl⟩
  have total := h.total done
  cases results : s.results with
  | cons r rest =>
    rw [results, List.length_cons] at total
    exact ⟨.receive, _, rfl, .receive r rest all (by omega) results⟩
  | nil =>
    rw [results, List.length_nil] at total
    cases outcome : s.outcome with
    | none => exact ⟨.conclude, _, rfl, .conclude all total outcome⟩
    | some r => exact ⟨.close, _, rfl, .close r outcome opened⟩

theorem Together.Sound.left_closed {s : Together n ε} (h : s.Sound) (closed : s.closed = true) :
    s.left = 0 := by
  obtain ⟨r, done⟩ := h.closed closed
  obtain ⟨spawned, full, -⟩ := h.outcome r done
  have tasks : ∑ i, (s.tasks i).left = 0 := by
    refine Finset.sum_eq_zero fun i _ => ?_
    obtain ⟨err, sent⟩ := h.all_sent full i
    rw [sent]
    rfl
  simp [Together.left, spawned, full, tasks, done, closed]

/-- The daemon ends after `4 n + 2` moves, and until then only a task can hold it up. -/
theorem together_ends {t : Tables} (valid : t.Valid) {acts : List (Act n ε)} {s : Together n ε}
    (run : Together.Trace acts (.started t) s) :
    (acts.filter Act.moves).length ≤ 4 * n + 2 ∧
      ((acts.filter Act.moves).length = 4 * n + 2 ↔ s.closed = true) ∧
      (s.closed = false → (∀ i, s.tasks i ≠ .running) →
        ∃ act s', act.supervises = true ∧ Together.Does act s s') := by
  have sound := together_sound valid run.reachable
  have counted := run.left valid
  refine ⟨by omega, ⟨?_, ?_⟩, sound.progress⟩
  · intro last
    have nothing : (!s.closed).toNat = 0 := by
      unfold Together.left at counted
      omega
    simpa using nothing
  · intro closed
    have := sound.left_closed closed
    omega

def pairActs : List (Act 2 String) :=
  [.spawn 0, .use 0 sampleConfigure, .spawn 1, .finish 0 (some "boom"), .send 0, .receive,
    .use 1 samplePersist, .finish 1 (some "context canceled"), .send 1, .receive, .conclude, .close]

theorem pairTrace : ∃ s : Together 2 String, Together.Trace pairActs (.started .empty) s ∧
    s.outcome = some (some "boom") ∧ s.tables = runAll captured .empty := by
  have spawned : Together.Trace [.spawn 0] (.started .empty : Together 2 String) _ :=
    .snoc (.nil _) (.spawn 0 rfl)
  have configured := spawned.snoc (.use 0 sampleConfigure (by simp [Together.setTask]))
  have both := configured.snoc (.spawn 1 rfl)
  have failed := both.snoc (.finish 0 (some "boom") (by simp [Together.setTask]))
  have sent := failed.snoc (.send 0 (some "boom") (by simp [Together.setTask]) (by decide))
  have received := sent.snoc (.receive (0, some "boom") [] rfl (by decide) rfl)
  have stored := received.snoc (.use 1 samplePersist (by simp [Together.setTask]))
  have stopped := stored.snoc (.finish 1 (some "context canceled") (by simp [Together.setTask]))
  have sentBoth := stopped.snoc
    (.send 1 (some "context canceled") (by simp [Together.setTask]) (by decide))
  have receivedBoth := sentBoth.snoc (.receive (1, some "context canceled") [] rfl (by decide) rfl)
  have concluded := receivedBoth.snoc (.conclude rfl rfl rfl)
  exact ⟨_, concluded.snoc (.close (some "boom") rfl rfl), rfl, rfl⟩

theorem together_ends_pair : ∃ s : Together 2 String, Together.Trace pairActs (.started .empty) s ∧
    s.closed = true ∧
    ((pairActs.filter Act.moves).length ≤ 4 * 2 + 2 ∧
      ((pairActs.filter Act.moves).length = 4 * 2 + 2 ↔ s.closed = true) ∧
      (s.closed = false → (∀ i, s.tasks i ≠ .running) →
        ∃ act s', act.supervises = true ∧ Together.Does act s s')) := by
  obtain ⟨s, run, -⟩ := pairTrace
  have ends := together_ends valid_empty run
  exact ⟨s, run, ends.2.1.mp rfl, ends⟩

theorem together_shutdown_pair : ∃ s : Together 2 String,
    s.outcome = some (some "boom") ∧ s.tables = runAll captured .empty ∧
    (s.tables.Valid ∧ (∀ i, s.tasks i = .running → s.closed = false) ∧
      (∀ i err, s.tasks i = .returned err → s.results.length < 2) ∧
      (s.received ≠ [] → s.cancelled = true) ∧
      ∀ r, s.outcome = some r → (∀ i, ∃ err, s.tasks i = .sent err) ∧
        r = s.received.findSome? Prod.snd ∧ (r = none ↔ ∀ i, s.tasks i = .sent none)) := by
  obtain ⟨s, run, failed, stored⟩ := pairTrace
  exact ⟨s, failed, stored, together_shutdown valid_empty run.reachable⟩

end Ends

end WriteRelay.App
