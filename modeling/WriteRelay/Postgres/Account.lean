import WriteRelay.Postgres.Setup

/-! The account of a run of `Setup`, among sessions that do anything to the server: which calls
it makes, what they change, and what the report says about them. -/
namespace WriteRelay.Postgres
open Fallible Settings

section Record

variable {α : Type} {env : SetupEnv} {cfg : PostgresConfig} {s : SetupState} {n : Nat}
variable {site : SetupSite} {wrap : DriverError → Failure} {pending : List SetupSite}
variable {fact : List SetupCall → Prop}

/-- The three statements that change the server. Publication and slot are new; the function may
take the place of one that appeared since `Setup` looked. -/
inductive SetupCall.Creates (env : SetupEnv) : SetupCall → Prop
  | function (c : Catalogue) : Creates env ⟨.install, c, installSQL c⟩
  | publication {c : Catalogue} : c.publication = none →
      Creates env ⟨.createPublication, c, { c with publication := some 0 }⟩
  | slot {c : Catalogue} : c.slot = none →
      Creates env ⟨.createSlot, c, { c with slot := some (newSlot env c.database) }⟩

def SetupCall.Misses (look : SetupCall) : SetupSite → Prop
  | .install => look.site = .function ∧ look.found.function = none
  | .createPublication => look.site = .publication ∧ look.found.publication = none
  | .createSlot => look.site = .slot ∧ look.found.slot = none
  | _ => False

def SetupResult.reports (r : SetupResult) : SetupSite → Bool
  | .install => r.installedFunction
  | .createPublication => r.createdPublication
  | .createSlot => r.createdSlot
  | _ => false

def callOrder : List SetupSite :=
  [.version, .function, .publication, .tables, .slot, .install, .createPublication, .createSlot]

/-- A call changes nothing, or it creates what an earlier one missed. -/
def Founded (env : SetupEnv) (calls : List SetupCall) (call : SetupCall) : Prop :=
  call.left = call.found ∨ call.Creates env ∧ ∃ look ∈ calls, look.Misses call.site

def Credited (env : SetupEnv) (r : SetupResult) (calls : List SetupCall) : Prop :=
  ∀ site, r.reports site = true → ∃ call ∈ calls, call.site = site ∧ call.Creates env

structure Tracked (env : SetupEnv) (n : Nat) (pending : List SetupSite) (s : SetupState) : Prop where
  order : (s.calls.map SetupCall.site).Sublist (callOrder.take n)
  founded : ∀ call ∈ s.calls, Founded env s.calls call
  credited : Credited env s.result s.calls
  reported : ∀ call ∈ s.calls, call.left ≠ call.found →
    s.result.reports call.site = true ∨ call.site ∈ pending

theorem Founded.append {calls : List SetupCall} {call : SetupCall} (h : Founded env calls call) (last : SetupCall) :
    Founded env (calls ++ [last]) call := by
  rcases h with same | ⟨created, look, listed, missed⟩
  · exact .inl same
  · exact .inr ⟨created, look, List.mem_append_left _ listed, missed⟩

theorem Tracked.append (h : Tracked env n [] s) (call : SetupCall) (next : callOrder[n]? = some call.site)
    (founded : Founded env s.calls call) (unreported : call.left ≠ call.found → call.site ∈ pending)
    (c : Catalogue) : Tracked env (n + 1) pending ⟨c, s.result, s.calls ++ [call]⟩ where
  order := by
    rw [List.map_append, List.take_add_one, next]
    exact h.order.append (.refl _)
  founded := by
    intro call' listed
    rcases List.mem_append.mp listed with earlier | last
    · exact (h.founded call' earlier).append call
    · obtain rfl := List.mem_singleton.mp last
      exact founded.append call'
  credited := by
    intro site said
    obtain ⟨call', listed, made⟩ := h.credited site said
    exact ⟨call', List.mem_append_left _ listed, made⟩
  reported := by
    intro call' listed changed
    rcases List.mem_append.mp listed with earlier | last
    · exact .inl ((h.reported call' earlier changed).resolve_right List.not_mem_nil)
    · obtain rfl := List.mem_singleton.mp last
      exact .inr (unreported changed)

theorem Tracked.later {m : Nat} (h : Tracked env n pending s) (le : n ≤ m) :
    Tracked env m pending s :=
  { h with order := h.order.trans (List.take_sublist_take_left le) }

def Lasting (fact : List SetupCall → Prop) : Prop := ∀ calls call, fact calls → fact (calls ++ [call])

theorem Lasting.and {more : List SetupCall → Prop} (h : Lasting fact) (h' : Lasting more) :
    Lasting fun calls => fact calls ∧ more calls :=
  fun calls call both => ⟨h calls call both.1, h' calls call both.2⟩

def Missing (found : Bool) (site : SetupSite) (calls : List SetupCall) : Prop :=
  found = false → ∃ look ∈ calls, look.Misses site

def servingPostgres : PostgresConfig :=
  ⟨"postgres://localhost/app", "", "writerelay", "writerelay", "writerelay.v1", 10000000000, "10s", false,
    10000, 8388608⟩

def emptyServer : Catalogue := ⟨"app", 160003, none, none, none, none⟩

/-- Another administrator creates a function of that name, right before `Setup` does. -/
def rivalEnv : SetupEnv where
  codec := .decimal
  faults _ := none
  executed _ := true
  meanwhile
    | .install, c => { c with schema := some none, function := some ⟨.other "", true, ["app"], none⟩ }
    | _, c => c
  positions := (16, 16)

-- The script replaces the rival's function and its comment; only the grant by name survives.
example : ∃ calls, setup rivalEnv servingPostgres true (.begin emptyServer) =
    .ok () ⟨⟨"app", 160003, some (some schemaComment),
      some ⟨.installed, false, ["app"], some functionComment⟩, some 0, some (newSlot rivalEnv "app")⟩,
      ⟨true, true, true⟩, calls⟩ := ⟨_, rfl⟩

end Record

end WriteRelay.Postgres
