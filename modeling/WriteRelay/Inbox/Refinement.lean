import WriteRelay.Inbox.Agreement
import WriteRelay.Inbox.Session

/-! The Go programs refine the inbox protocol: each answer that a call gets, and each move of the
server, is a step of the protocol or none. -/
namespace WriteRelay.Inbox.Session
open Runs Dialogue
open Claims (Status Tx)

def ended : Outcome → Ended
  | .returned result => .returned result
  | .failed e _ => .failed e
  | .panicked => .panicked

/-- What a call has left to do at each stage of the protocol. -/
inductive Staged (table key digest : String) (p : Program Answer Ended) : Stage → Prop
  | claiming : p = (claimBody table key digest).bind deferred → Staged table key digest p .claiming
  | handling : p = handleBody.bind deferred → Staged table key digest p .handling
  | reading : p = (readBody table key digest).bind deferred → Staged table key digest p .reading
  | settling (result : InboxResult) : p = (settleBody result).bind deferred →
      Staged table key digest p (.checking result)
  | probing (result : InboxResult) : p = (probeBody result).bind deferred →
      Staged table key digest p (.checking result)
  | committing (result : InboxResult) : p = (commitBody result).bind deferred →
      Staged table key digest p (.committing result)
  | rollingBack (outcome : Outcome) : p = .ask .rollback (fun _ => .done (ended outcome)) →
      Staged table key digest p (.finished outcome)
  | returned (outcome : Outcome) : p = .done (ended outcome) →
      Staged table key digest p (.finished outcome)

structure Follows (table : String) (r : Running) (call : Call) : Prop where
  invocation : call.invocation = r.arguments.invocation
  staged : Staged table call.invocation.key call.digest r.program call.stage
  abandoned : r.abandoned ≠ [] → call.stage.gaveUp = true
  called : r.calling → call.called = true
  claims : ∀ key digest, .exec (claimStatement table key digest) ∈ r.abandoned →
    key = call.invocation.key ∧ digest = call.digest

/-- The protocol answers the move of a call, with the same effect on the store. -/
def Answered (table : String) (w : World) (c : Nat) (store : Store) (r : Running) : Prop :=
  ∃ w' call, (inbox table).Steps w w' ∧ w'.store = store ∧
    w'.calls = Function.update w.calls c (some call) ∧ Follows table r call

section Following

variable {table : String} {w : World} {c : Nat} {r : Running} {call : Call} {store : Store}
  {result : InboxResult}

theorem Arguments.client (a : Arguments) :
    a.invocation.client ≠ .script ∧ a.invocation.client.missing = inconsistent := by
  obtain ⟨_ | _, _, _, _⟩ := a
  · exact ⟨nofun, rfl⟩
  · exact ⟨nofun, rfl⟩

theorem claimStatement_inj {key key' digest digest' : String}
    (h : claimStatement table key digest = claimStatement table key' digest') :
    key = key' ∧ digest = digest' := by
  have args : [key, digest] = [key', digest'] := congrArg Statement.args h
  simpa using args

theorem receiptStatement_inj {key key' : String}
    (h : receiptStatement table key = receiptStatement table key') : key = key' := by
  have args : [key] = [key'] := congrArg Statement.args h
  exact List.head_eq_of_cons_eq args

theorem claimStatement_ne_probe {key digest : String} :
    claimStatement table key digest ≠ probeStatement := by
  intro h
  have args := congrArg Statement.args h
  simp [claimStatement, probeStatement] at args

theorem told_abandoned (r : Running) (q : Request) (a : Answer q) (left : Program Answer Ended) :
    (r.told q a left).abandoned = r.abandoned ++ if gaveUpOn ⟨q, a⟩ then [q] else [] := by
  simp only [Running.abandoned, Running.told, List.filter_append, List.map_append, List.filter_cons,
    List.filter_nil]
  split <;> rfl

theorem Follows.told (follows : Follows table r call) {q : Request} {a : Answer q}
    {left : Program Answer Ended} {stage : Stage} {called : Bool}
    (staged : Staged table call.invocation.key call.digest left stage)
    (gaveUp : call.stage.gaveUp = true ∨ gaveUpOn ⟨q, a⟩ = true → stage.gaveUp = true)
    (once : call.called = true → called = true)
    (calling : left.request = some .handle ∨ q = .handle → called = true)
    (claims : gaveUpOn ⟨q, a⟩ = true → ∀ key digest, q = .exec (claimStatement table key digest) →
      key = call.invocation.key ∧ digest = call.digest) :
    Follows table (r.told q a left) { call with stage, called } := by
  refine ⟨follows.invocation, staged, ?_, ?_, ?_⟩
  · intro some_
    rw [told_abandoned] at some_
    by_cases refused : gaveUpOn ⟨q, a⟩ = true
    · exact gaveUp (.inr refused)
    · rw [if_neg refused, List.append_nil] at some_
      exact gaveUp (.inl (follows.abandoned some_))
  · rintro (asking | left_)
    · exact calling (.inl asking)
    · rw [told_abandoned, List.mem_append] at left_
      rcases left_ with before | now
      · exact once (follows.called (.inr before))
      · split at now
        · exact calling (.inr (List.mem_singleton.mp now).symm)
        · contradiction
  · intro key digest left_
    rw [told_abandoned, List.mem_append] at left_
    rcases left_ with before | now
    · exact follows.claims key digest before
    · split at now
      · rename_i refused
        exact claims refused key digest (List.mem_singleton.mp now).symm
      · contradiction

theorem Follows.advance (follows : Follows table r call) (here : call.stage.gaveUp = false) {q : Request}
    {a : Answer q} {left : Program Answer Ended} {stage : Stage}
    (staged : Staged table call.invocation.key call.digest left stage) (kept : gaveUpOn ⟨q, a⟩ = false)
    (calling : left.request = some .handle ∨ q = .handle → call.called = true) :
    Follows table (r.told q a left) (call.at stage) := by
  refine follows.told staged ?_ (fun h => h) calling ?_
  · rintro (h | h)
    · exact absurd (here.symm.trans h) Bool.false_ne_true
    · exact absurd (kept.symm.trans h) Bool.false_ne_true
  · intro refused
    exact absurd (kept.symm.trans refused) Bool.false_ne_true

theorem Answered.step {r' : Running} {call' : Call} (next : Step table w (w.put c call' store))
    (follows : Follows table r' call') : Answered table w c store r' :=
  ⟨_, call', .single next, rfl, rfl, follows⟩

theorem Answered.stay {r' : Running} (found : w.calls c = some call) (follows : Follows table r' call) :
    Answered table w c w.store r' :=
  ⟨w, call, .refl, rfl, by rw [← found, Function.update_eq_self], follows⟩

theorem Follows.fail (follows : Follows table r call) (found : w.calls c = some call) {q : Request}
    {a : Answer q} {e : InboxError} (reported : e.outside = true ∨ ∃ message, e = .transaction message)
    (early : call.stage = .claiming ∨ call.stage = .handling ∨ call.stage = .reading ∨
      ∃ result, call.stage = .checking result)
    (calling : q = .handle → call.called = true)
    (claims : ∀ key digest, q = .exec (claimStatement table key digest) →
      key = call.invocation.key ∧ digest = call.digest) :
    Answered table w c w.store (r.told q a ((fails e).bind deferred)) := by
  refine .step (.fail c call e found reported early) ?_
  refine follows.told (.rollingBack (.failed e false) rfl) (fun _ => rfl) (fun h => h) ?_
    (fun _ => claims)
  rintro (asks | handle)
  · simp [fails, deferred] at asks
  · exact calling handle

theorem Follows.serve_claiming (follows : Follows table r call) (found : w.calls c = some call)
    (stage : call.stage = .claiming) {s : Statement}
    (claims : s = claimStatement table call.invocation.key call.digest) {a : Answer (.exec s)}
    (served : Serves table r.arguments.invocation.client c w.store (.exec s) a store) :
    Answered table w c store
      (r.told (.exec s) a ((afterClaim table call.invocation.key call.digest a).bind deferred)) := by
  have here : call.stage.gaveUp = false := by rw [stage]; rfl
  have own : ∀ key digest, Request.exec s = .exec (claimStatement table key digest) →
      key = call.invocation.key ∧ digest = call.digest := by
    intro key digest same
    exact claimStatement_inj ((Request.exec.inj same).symm.trans claims)
  cases served with
  | inserted _ key digest tx statement htx usable unclaimed free =>
    obtain ⟨rfl, rfl⟩ := claimStatement_inj (claims.symm.trans statement)
    refine .step (.claimed c call tx found stage htx usable unclaimed free) ?_
    refine follows.told (.handling rfl) ?_ (fun _ => rfl) (fun _ => rfl) (fun _ => own)
    rintro (h | h)
    · exact absurd (here.symm.trans h) Bool.false_ne_true
    · simp [gaveUpOn] at h
  | present _ key digest tx statement htx usable there =>
    obtain ⟨rfl, rfl⟩ := claimStatement_inj (claims.symm.trans statement)
    refine .step (.conflicting c call tx found stage htx usable there) ?_
    refine follows.advance here (.reading rfl) rfl ?_
    simp [afterClaim, readBody]
  | miscounted _ key digest n _ one zero =>
    simp only [afterClaim, if_neg one, if_neg zero]
    exact follows.fail found (.inr ⟨_, rfl⟩) (.inl stage) (by simp) own
  | probed _ tx n statement => exact absurd (claims.symm.trans statement) claimStatement_ne_probe
  | execFailed _ e outside => exact follows.fail found (.inl outside) (.inl stage) (by simp) own

theorem Follows.serve_handling (follows : Follows table r call) (found : w.calls c = some call)
    (stage : call.stage = .handling) (calling : r.calling) {a : Answer .handle}
    (served : Serves table r.arguments.invocation.client c w.store .handle a store) :
    Answered table w c store (r.told .handle a ((afterHandle a).bind deferred)) := by
  have here : call.stage.gaveUp = false := by rw [stage]; rfl
  have called := follows.called calling
  cases served with
  | handled err outside =>
    cases err with
    | none =>
      refine .step (.handled c call found stage) ?_
      exact follows.advance here (.settling .processed rfl) rfl (fun _ => called)
    | some e =>
      exact follows.fail found (.inl (outside e rfl)) (.inr (.inl stage)) (fun _ => called) (by simp)
  | panicked =>
    refine .step (.panic c call found stage) ?_
    exact follows.told (.rollingBack .panicked rfl) (fun _ => rfl) (fun h => h) (fun _ => called)
      (by simp)

theorem Follows.serve_reading (follows : Follows table r call) (found : w.calls c = some call)
    (stage : call.stage = .reading) {s : Statement}
    (reads : s = receiptStatement table call.invocation.key) {a : Answer (.read s)}
    (served : Serves table r.arguments.invocation.client c w.store (.read s) a store) :
    Answered table w c store (r.told (.read s) a ((afterReceipt call.digest a).bind deferred)) := by
  have here : call.stage.gaveUp = false := by rw [stage]; rfl
  cases served with
  | found _ key digest tx statement htx usable row =>
    obtain rfl := receiptStatement_inj (reads.symm.trans statement)
    refine .step (.read c call tx found stage htx usable) ?_
    rw [row]
    by_cases differs : digest ≠ call.digest
    · simp only [afterRead, afterReceipt, if_pos differs]
      refine follows.told (.rollingBack (.failed .conflict false) rfl) (fun _ => rfl) (fun h => h) ?_
        (by simp)
      simp [fails, deferred]
    · simp only [afterRead, afterReceipt, if_neg differs]
      refine follows.advance here (.settling .duplicate rfl) rfl ?_
      simp [settleBody]
  | vanished _ key tx statement htx usable row =>
    obtain rfl := receiptStatement_inj (reads.symm.trans statement)
    refine .step (.read c call tx found stage htx usable) ?_
    rw [row, follows.invocation, afterRead, r.arguments.client.2]
    refine follows.told (.rollingBack (.failed inconsistent false) rfl) (fun _ => rfl) (fun h => h) ?_
      (by simp)
    simp [afterReceipt, fails, deferred]
  | readFailed _ e outside =>
    exact follows.fail found (.inl outside) (.inr (.inr (.inl stage))) (by simp) (by simp)

theorem Follows.serve_settling (follows : Follows table r call) (found : w.calls c = some call)
    (stage : call.stage = .checking result) {a : Answer .contextErr}
    (served : Serves table r.arguments.invocation.client c w.store .contextErr a store) :
    Answered table w c store (r.told .contextErr a ((afterContext result a).bind deferred)) := by
  have here : call.stage.gaveUp = false := by rw [stage]; rfl
  cases served with
  | context _ outside =>
    cases a with
    | none =>
      refine .stay found ?_
      have staged : Staged table call.invocation.key call.digest ((probeBody result).bind deferred)
          call.stage := by
        rw [stage]
        exact .probing result rfl
      refine follows.advance here staged rfl ?_
      simp [afterContext, probeBody]
    | some e =>
      exact follows.fail found (.inl (outside e rfl)) (.inr (.inr (.inr ⟨result, stage⟩))) (by simp)
        (by simp)

theorem Follows.serve_probing (follows : Follows table r call) (found : w.calls c = some call)
    (stage : call.stage = .checking result) {a : Answer (.exec probeStatement)}
    (served : Serves table r.arguments.invocation.client c w.store (.exec probeStatement) a store) :
    Answered table w c store
      (r.told (.exec probeStatement) a ((afterProbe result a).bind deferred)) := by
  have here : call.stage.gaveUp = false := by rw [stage]; rfl
  cases served with
  | inserted _ key digest tx statement => exact absurd statement.symm claimStatement_ne_probe
  | present _ key digest tx statement => exact absurd statement.symm claimStatement_ne_probe
  | miscounted _ key digest n statement => exact absurd statement.symm claimStatement_ne_probe
  | probed _ tx n _ htx usable =>
    refine .step (.checked c call tx result found stage htx (fun _ => usable)) ?_
    refine follows.advance here (.committing result rfl) rfl ?_
    simp [afterProbe, commitBody]
  | execFailed _ e outside =>
    refine follows.fail found (.inl outside) (.inr (.inr (.inr ⟨result, stage⟩))) (by simp) ?_
    intro key digest same
    exact absurd (Request.exec.inj same).symm claimStatement_ne_probe

theorem Follows.serve_committing (follows : Follows table r call) (found : w.calls c = some call)
    (stage : call.stage = .committing result) {a : Answer .commit}
    (served : Serves table r.arguments.invocation.client c w.store .commit a store) :
    Answered table w c store (r.told .commit a ((afterCommit result a).bind deferred)) := by
  have here : call.stage.gaveUp = false := by rw [stage]; rfl
  cases served with
  | committed tx htx status =>
    refine .step (.answered c call tx result .commit found stage htx status) ?_
    exact follows.advance here (.returned (.returned result) rfl) rfl (by simp [afterCommit, deferred])
  | undone tx sql htx status aborted =>
    have unseen : call.invocation.client.afterCommit result .rollback = .returned result := by
      rw [follows.invocation, sql]
      rfl
    refine .step (.answered c call tx result .rollback found stage htx ⟨status, aborted⟩) ?_
    rw [unseen]
    exact follows.advance here (.returned (.returned result) rfl) rfl (by simp [afterCommit, deferred])
  | commitFailed e outside =>
    refine .step (.commitFailed c call e result found stage outside) ?_
    refine follows.advance here (.rollingBack (.failed e true) rfl) rfl ?_
    simp [afterCommit, fails, deferred]

theorem Follows.serve_rollingBack (follows : Follows table r call) (found : w.calls c = some call)
    {outcome : Outcome} (stage : call.stage = .finished outcome) {a : Answer .rollback}
    (served : Serves table r.arguments.invocation.client c w.store .rollback a store) :
    Answered table w c store (r.told .rollback a (.done (ended outcome))) := by
  have staged : Staged table call.invocation.key call.digest (.done (ended outcome)) call.stage := by
    rw [stage]
    exact .returned outcome rfl
  have follows' : Follows table (r.told .rollback a (.done (ended outcome))) call := by
    refine follows.told staged ?_ (fun h => h) (by simp) (by simp)
    rintro (h | h)
    · exact h
    · simp [gaveUpOn] at h
  cases served with
  | rolledBack tx htx live => exact .step (.rollback c call tx found htx live) follows'
  | unanswered err => exact .stay found follows'

/-- Whatever the call asks, the protocol answers. -/
theorem Follows.serve (follows : Follows table r call) (found : w.calls c = some call) {q : Request}
    {next : Answer q → Program Answer Ended} (asks : r.program = .ask q next) {a : Answer q}
    (served : Serves table r.arguments.invocation.client c w.store q a store) :
    Answered table w c store (r.told q a (next a)) := by
  have staged := follows.staged
  rw [asks] at staged
  generalize stage : call.stage = here at staged
  cases staged with
  | claiming left =>
    have left : Program.ask q next = .ask (.exec (claimStatement table call.invocation.key call.digest))
      fun a => (afterClaim table call.invocation.key call.digest a).bind deferred := left
    cases left
    exact follows.serve_claiming found stage rfl served
  | handling left =>
    have left : Program.ask q next = .ask .handle fun a => (afterHandle a).bind deferred := left
    cases left
    exact follows.serve_handling found stage (.inl (by rw [asks]; rfl)) served
  | reading left =>
    have left : Program.ask q next = .ask (.read (receiptStatement table call.invocation.key))
      fun a => (afterReceipt call.digest a).bind deferred := left
    cases left
    exact follows.serve_reading found stage rfl served
  | settling result left =>
    have left : Program.ask q next = .ask .contextErr
      fun a => (afterContext result a).bind deferred := left
    cases left
    exact follows.serve_settling found stage served
  | probing result left =>
    have left : Program.ask q next = .ask _ fun a => (afterProbe result a).bind deferred := left
    cases left
    exact follows.serve_probing found stage served
  | committing result left =>
    have left : Program.ask q next = .ask .commit fun a => (afterCommit result a).bind deferred := left
    cases left
    exact follows.serve_committing found stage served
  | rollingBack outcome left =>
    cases left
    exact follows.serve_rollingBack found stage served
  | returned outcome left => contradiction

end Following

/-- A call that has not begun its transaction is not yet one of the protocol. -/
inductive Paired (table : String) : Option Running → Option Call → Prop
  | absent : Paired table none none
  | starting (r : Running) (digest : String) : r.arguments.invocation.prepare = .ok (table, digest) →
      r.program = .ask .begin (afterBegin table r.arguments.invocation.key digest) → r.abandoned = [] →
      Paired table (some r) none
  | following (r : Running) (call : Call) : Follows table r call → Paired table (some r) (some call)

structure Matched (table : String) (s : Sessions) (w : World) : Prop where
  reachable : (inbox table).Reachable w
  store : w.store = s.store
  calls : ∀ c, Paired table (s.calls c) (w.calls c)

section Matching

variable {table : String} {s : Sessions} {w : World} {c : Nat} {r : Running} {store : Store}

theorem Matched.put (matched : Matched table s w) (answered : Answered table w c store r) :
    ∃ w', (inbox table).Steps w w' ∧ Matched table (s.put c r store) w' := by
  obtain ⟨w', call, run, effect, calls, follows⟩ := answered
  refine ⟨w', run, matched.reachable.steps run, effect, ?_⟩
  intro c'
  rw [calls]
  by_cases same : c' = c
  · subst same
    simp only [Sessions.put, Function.update_self]
    exact .following r call follows
  · simp only [Sessions.put, Function.update_of_ne same]
    exact matched.calls c'

theorem Matched.effect (matched : Matched table s w) {call : Call} (found : w.calls c = some call)
    (next : Step table w (w.put c call store)) :
    ∃ w', (inbox table).Steps w w' ∧ Matched table { s with store } w' := by
  refine ⟨w.put c call store, .single next, matched.reachable.step next, rfl, ?_⟩
  intro c'
  have calls : (w.put c call store).calls = w.calls := by
    rw [World.put, ← found, Function.update_eq_self]
  rw [calls]
  exact matched.calls c'

theorem Matched.follows (matched : Matched table s w) (found : s.calls c = some r)
    (busy : r.program.request ≠ some .begin ∨ r.abandoned ≠ []) :
    ∃ call, w.calls c = some call ∧ Follows table r call := by
  have paired := matched.calls c
  rw [found] at paired
  generalize there : w.calls c = call at paired
  cases paired with
  | starting _ digest _ program nothing =>
    rcases busy with asks | left
    · exact absurd (by rw [program]; rfl) asks
    · exact absurd nothing left
  | following _ call follows => exact ⟨call, rfl, follows⟩

theorem follows_unopened (a : Arguments) (history : List (Sigma Answer)) (e : InboxError)
    (nothing : Running.abandoned ⟨a, history, .done (.failed e)⟩ = []) :
    Follows table ⟨a, history, .done (.failed e)⟩
      ⟨a.invocation, "", .finished (.failed e false), false⟩ := by
  refine ⟨rfl, .returned (.failed e false) rfl, fun _ => rfl, ?_, ?_⟩
  · rintro (asks | left)
    · contradiction
    · rw [nothing] at left
      contradiction
  · intro key digest left
    rw [nothing] at left
    contradiction

theorem Matched.start (matched : Matched table s w) (new : s.calls c = none) {a : Arguments}
    (here : ∀ name digest, a.invocation.prepare = .ok (name, digest) → name = table) :
    ∃ w', (inbox table).Steps w w' ∧ Matched table (s.put c (.new a) s.store) w' := by
  have free : w.calls c = none := by
    have paired := matched.calls c
    rw [new] at paired
    generalize there : w.calls c = call at paired
    cases paired
    rfl
  obtain ⟨prepares, key, missing, program⟩ := a.opens
  rw [← matched.store]
  cases prepared : prepareInbox a.delivery a.hasHandler with
  | error e =>
    have ends : a.program = .done (.failed e) := by rw [program, opening, prepared]
    refine matched.put (.step (.reject c a.invocation e free (prepares.trans prepared)) ?_)
    rw [Running.new, ends]
    exact follows_unopened a [] e rfl
  | ok found =>
    obtain ⟨name, digest⟩ := found
    obtain rfl := here name digest (prepares.trans prepared)
    cases pool : a.hasPool with
    | false =>
      have ends : a.program = .done (.failed (.invalidDelivery missing)) := by
        rw [program, opening, prepared, pool]
        rfl
      refine matched.put (.step (.unopened c a.invocation _ free (.inr ⟨missing, rfl⟩)) ?_)
      rw [Running.new, ends]
      exact follows_unopened a [] _ rfl
    | true =>
      have asks : a.program = .ask .begin (afterBegin name a.invocation.key digest) := by
        rw [program, opening, prepared, pool, key]
        rfl
      refine ⟨w, .refl, matched.reachable, rfl, ?_⟩
      intro c'
      by_cases same : c' = c
      · subst same
        simp only [Sessions.put, Function.update_self, free]
        exact .starting _ digest (prepares.trans prepared) asks rfl
      · simp only [Sessions.put, Function.update_of_ne same]
        exact matched.calls c'

theorem Matched.serve (matched : Matched table s w) (found : s.calls c = some r) {q : Request}
    {next : Answer q → Program Answer Ended} (asks : r.program = .ask q next) {a : Answer q}
    (served : Serves table r.arguments.invocation.client c s.store q a store) :
    ∃ w', (inbox table).Steps w w' ∧ Matched table (s.put c (r.told q a (next a)) store) w' := by
  have paired := matched.calls c
  rw [found] at paired
  rw [← matched.store] at served
  generalize there : w.calls c = call at paired
  cases paired with
  | starting _ digest prepared program nothing =>
    cases asks.symm.trans program
    cases served with
    | opened unused =>
      refine matched.put (.step (.begin c r.arguments.invocation digest there prepared) ?_)
      have left : (r.told .begin none
          ((claimBody table r.arguments.invocation.key digest).bind deferred)).abandoned = [] := by
        rw [told_abandoned, nothing]
        rfl
      refine ⟨rfl, .claiming rfl, fun some_ => absurd left some_, ?_, ?_⟩
      · rintro (handle | abandoned)
        · simp [Running.told, afterBegin, runInbox, claimBody] at handle
        · exact absurd (left ▸ abandoned) List.not_mem_nil
      · intro key digest abandoned
        exact absurd (left ▸ abandoned) List.not_mem_nil
    | unopened e outside =>
      refine matched.put (.step (.unopened c r.arguments.invocation e there (.inl outside)) ?_)
      refine follows_unopened r.arguments _ e ?_
      have left := told_abandoned r .begin (some e) (.done (.failed e))
      rw [nothing] at left
      exact left
  | following _ call follows => exact matched.put (follows.serve there asks served)

theorem Staged.request {key digest : String} {p : Program Answer Ended} {stage : Stage}
    (staged : Staged table key digest p stage) :
    (p.request = some .commit → ∃ result, stage = .committing result) ∧
    (∀ q, p.request = some q → q.isStatement = true → stage = .claiming ∨ stage = .handling ∨
      stage = .reading ∨ ∃ result, stage = .checking result) ∧
    (p.request = some .handle → stage = .handling) := by
  cases staged with
  | claiming left =>
    subst left
    exact ⟨nofun, fun _ _ _ => .inl rfl, nofun⟩
  | handling left =>
    subst left
    exact ⟨nofun, fun _ _ _ => .inr (.inl rfl), fun _ => rfl⟩
  | reading left =>
    subst left
    exact ⟨nofun, fun _ _ _ => .inr (.inr (.inl rfl)), nofun⟩
  | settling result left =>
    subst left
    exact ⟨nofun, fun _ _ _ => .inr (.inr (.inr ⟨result, rfl⟩)), nofun⟩
  | probing result left =>
    subst left
    exact ⟨nofun, fun _ _ _ => .inr (.inr (.inr ⟨result, rfl⟩)), nofun⟩
  | committing result left =>
    subst left
    exact ⟨fun _ => ⟨result, rfl⟩, fun q asks statement => by cases asks; contradiction, nofun⟩
  | rollingBack outcome left =>
    subst left
    exact ⟨nofun, fun q asks statement => by cases asks; contradiction, nofun⟩
  | returned outcome left =>
    subst left
    exact ⟨nofun, nofun, nofun⟩

theorem Follows.mayWrite {call : Call} (follows : Follows table r call) (calling : r.calling) :
    call.mayWrite = true := by
  have called := follows.called calling
  rcases calling with asks | left
  · simp [Call.mayWrite, called, follows.staged.request.2.2 asks]
  · have gaveUp := follows.abandoned (List.ne_nil_of_mem left)
    simp [Call.mayWrite, called, gaveUp]

theorem Follows.mayAbort {call : Call} (follows : Follows table r call) (sending : r.sending) :
    call.mayAbort = true := by
  rcases sending with ⟨q, asks, statement⟩ | left
  · rcases follows.staged.request.2.1 q asks statement with h | h | h | ⟨result, h⟩ <;>
      simp [Call.mayAbort, h]
  · have gaveUp := follows.abandoned left
    cases stage : call.stage <;> simp [Call.mayAbort, stage] at gaveUp ⊢
    · simp [Stage.gaveUp] at gaveUp
    · exact .inr gaveUp

theorem Matched.move {s' : Sessions} (matched : Matched table s w) (move : Move table s s') :
    ∃ w', (inbox table).Steps w w' ∧ Matched table s' w' := by
  have owned := (inbox_inv matched.reachable).owned
  rw [matched.store] at owned
  cases move with
  | start c a new here => exact matched.start new here
  | serve c r q next a store found asks served => exact matched.serve found asks served
  | write c r tx sql found calling htx usable =>
    have begun : r.program.request ≠ some .begin ∨ r.abandoned ≠ [] := by
      rcases calling with asks | left
      · exact .inl (by rw [asks]; nofun)
      · exact .inr (List.ne_nil_of_mem left)
    obtain ⟨call, there, follows⟩ := matched.follows found begun
    rw [← matched.store] at htx ⊢
    exact matched.effect there (.write c call tx sql there (follows.mayWrite calling) htx usable)
  | late c r tx key digest found left htx usable unclaimed free =>
    obtain ⟨call, there, follows⟩ := matched.follows found (.inr (List.ne_nil_of_mem left))
    obtain ⟨rfl, rfl⟩ := follows.claims key digest left
    have gaveUp := follows.abandoned (List.ne_nil_of_mem left)
    rw [← matched.store] at htx free ⊢
    exact matched.effect there (.claimedLate c call tx there gaveUp htx usable unclaimed free)
  | abort c r tx found sending htx live =>
    have begun : r.program.request ≠ some .begin ∨ r.abandoned ≠ [] := by
      rcases sending with ⟨q, asks, statement⟩ | left
      · refine .inl fun begins => ?_
        cases asks.symm.trans begins
        contradiction
      · exact .inr left
    obtain ⟨call, there, follows⟩ := matched.follows found begun
    rw [← matched.store] at htx ⊢
    exact matched.effect there (.abort c call tx there (follows.mayAbort sending) htx live)
  | send c r tx found asks htx active =>
    obtain ⟨call, there, follows⟩ := matched.follows found (.inl (by rw [asks]; nofun))
    obtain ⟨result, stage⟩ := follows.staged.request.1 asks
    rw [← matched.store] at htx ⊢
    exact matched.effect there (.send c call tx result there stage htx active)
  | commit c tx htx committing sound =>
    obtain ⟨call, there⟩ := owned c tx htx
    rw [← matched.store] at htx ⊢
    exact matched.effect there (.commit c call tx there htx committing sound)
  | rollback c tx htx live =>
    obtain ⟨call, there⟩ := owned c tx htx
    rw [← matched.store] at htx ⊢
    exact matched.effect there (.rollback c call tx there htx live)

theorem sessions_matched (h : (sessions table).Reachable s) : ∃ w, Matched table s w := by
  have simulated : ∃ w, (inbox table).Reachable w ∧ Matched table s w := by
    refine (sessions table).simulation (inbox table) (Matched table) ?_ ?_ h
    · rintro _ rfl
      exact ⟨_, rfl, (inbox table).reachable_init rfl, rfl, fun _ => .absent⟩
    · intro s s' w _ matched move
      exact matched.move move
  obtain ⟨w, _, matched⟩ := simulated
  exact ⟨w, matched⟩

theorem Matched.finished (matched : Matched table s w) (found : s.calls c = some r) {result : Ended}
    (done : r.program = .done result) : ∃ call outcome, w.calls c = some call ∧
      call.invocation = r.arguments.invocation ∧ call.stage = .finished outcome ∧
      ended outcome = result := by
  obtain ⟨call, there, follows⟩ := matched.follows found (.inl (by rw [done]; nofun))
  have staged := follows.staged
  rw [done] at staged
  generalize stage : call.stage = here at staged
  cases staged with
  | returned outcome left =>
    exact ⟨call, outcome, there, follows.invocation, stage, (Program.done.inj left).symm⟩
  | claiming left => contradiction
  | handling left => contradiction
  | reading left => contradiction
  | settling result left => contradiction
  | probing result left => contradiction
  | committing result left => contradiction
  | rollingBack outcome left => contradiction

end Matching

theorem sessions_leads {table : String} {s : Sessions} (h : (sessions table).Reachable s) :
    ∀ c r, s.calls c = some r → Leads r.arguments.program r.history r.program := by
  refine (sessions table).invariant
    (fun s => ∀ c r, s.calls c = some r → Leads r.arguments.program r.history r.program) ?_ ?_ h
  · rintro _ rfl c r found
    contradiction
  · intro s s' _ leads move
    have put : ∀ c r store, Leads r.arguments.program r.history r.program → ∀ c' r',
        (s.put c r store).calls c' = some r' → Leads r'.arguments.program r'.history r'.program := by
      intro c r store here c' r' found
      by_cases same : c' = c
      · subst same
        simp only [Sessions.put, Function.update_self] at found
        cases found
        exact here
      · simp only [Sessions.put, Function.update_of_ne same] at found
        exact leads c' r' found
    cases move with
    | start c a _ _ => exact put c _ _ (.here _)
    | serve c r q next a store found asks _ =>
      have before := leads c r found
      rw [asks] at before
      exact put c _ _ (before.answer a)
    | write => exact leads
    | late => exact leads
    | abort => exact leads
    | send => exact leads
    | commit => exact leads
    | rollback => exact leads

/-- Any number of calls of `WithInbox` and `WithInboxSQL`, with any answers: what they do to the
table the protocol can do, with the same results, and a transaction that was begun and whose
COMMIT was not acknowledged is rolled back once, as the last thing the call does. -/
theorem sessions_refine {table : String} {s : Sessions} (h : (sessions table).Reachable s) :
    (∃ w, (inbox table).Reachable w ∧ w.store = s.store ∧
      ∀ c r result, s.calls c = some r → r.program = .done result →
        ∃ call outcome, w.calls c = some call ∧ call.invocation = r.arguments.invocation ∧
          call.stage = .finished outcome ∧ ended outcome = result) ∧
    ∀ c r result, s.calls c = some r → r.program = .done result → Tidy r.history result := by
  constructor
  · obtain ⟨w, matched⟩ := sessions_matched h
    refine ⟨w, matched.reachable, matched.store, ?_⟩
    intro c r result found done
    exact matched.finished found done
  · intro c r result found done
    have leads := sessions_leads h c r found
    rw [done] at leads
    exact tidy_program r.arguments leads

def sampleArguments : Arguments := ⟨.withInbox, ⟨⟨"", ""⟩, sampleKey, [123, 125]⟩, true, true⟩

theorem sampleArguments_prepare :
    sampleArguments.invocation.prepare = .ok (sampleTable, sampleDigest) := by
  have valid : isKey sampleKey = true := by decide
  exact (sample_prepare valid).1

theorem sampleArguments_program :
    sampleArguments.program = .ask .begin (afterBegin sampleTable sampleKey sampleDigest) := by
  have prepared : prepareInbox sampleArguments.delivery true = .ok (sampleTable, sampleDigest) :=
    sampleArguments_prepare
  change opening sampleArguments.delivery true true "pool is required" = _
  rw [opening, prepared]
  rfl

theorem processedOnce_reachable : ∃ s r, (sessions sampleTable).Reachable s ∧ s.calls 0 = some r ∧
    r.program = .done (.returned .processed) := by
  have start := (sessions sampleTable).reachable_init (s := ⟨.empty, fun _ => none⟩) rfl
  have begun := start.step (Move.start 0 sampleArguments rfl ?names)
  have opened := begun.step (Move.serve 0 _ _ _ none _ rfl sampleArguments_program (.opened rfl))
  have claimed := opened.step (Move.serve 0 _
    (.exec (claimStatement sampleTable sampleKey sampleDigest)) _ (.ok 1) _ rfl rfl
    (.inserted _ _ _ .begin rfl rfl ⟨.inl rfl, rfl⟩ rfl ?free))
  have handled := claimed.step
    (Move.serve 0 _ .handle _ (.returned none) _ rfl rfl (.handled none nofun))
  have alive := handled.step (Move.serve 0 _ .contextErr _ none _ rfl rfl (.context none nofun))
  have probed := alive.step (Move.serve 0 _ (.exec probeStatement) _ (.ok 1) _ rfl rfl
    (.probed _ _ 1 rfl rfl ⟨.inl rfl, rfl⟩))
  have sent := probed.step (Move.send 0 _ _ rfl rfl rfl rfl)
  have committed := sent.step (Move.commit 0 _ rfl rfl rfl)
  have answered := committed.step (Move.serve 0 _ .commit _ none _ rfl rfl (.committed _ rfl rfl))
  · exact ⟨_, _, answered, rfl, rfl⟩
  case names =>
    intro name digest prepared
    have same := Except.ok.inj (prepared.symm.trans sampleArguments_prepare)
    exact congrArg Prod.fst same
  case free =>
    refine ⟨List.not_mem_nil, ?_⟩
    intro i tx htx holds
    rcases Claims.put_cases htx with ⟨rfl, rfl⟩ | ⟨_, htx⟩
    · obtain ⟨_, _, claim⟩ := holds
      contradiction
    · contradiction

theorem sessions_refine_processed : ∃ (s : Sessions) (r : Running), s.calls 0 = some r ∧
    r.program = .done (.returned .processed) ∧ Tidy r.history (.returned .processed) ∧
    ∃ w, (inbox sampleTable).Reachable w ∧ w.store = s.store := by
  obtain ⟨s, r, reachable, found, done⟩ := processedOnce_reachable
  obtain ⟨⟨w, follows, store, _⟩, tidy⟩ := sessions_refine reachable
  exact ⟨s, r, found, done, tidy 0 r _ found done, w, follows, store⟩

end WriteRelay.Inbox.Session
