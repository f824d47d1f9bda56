import WriteRelay.Postgres.Provisioning
import WriteRelay.Spool.Migrations
import WriteRelay.App.Run

/-! The `doctor` command: its checks of the server, of the spool and of the sinks, and what
their approval says about the start of the daemon. -/
namespace WriteRelay.Doctor
open Fallible Settings Postgres App

section Model

inductive Status
  | pass
  | fail
  deriving DecidableEq

structure Check where
  name : String
  status : Status
  detail : String

def checkValue (name : String) (ok : Bool) (detail : String) : Check :=
  ⟨name, if ok then .pass else .fail, detail⟩

def checkPositive (name : String) (value : Int) : Check :=
  checkValue name (0 < value) (toString value)

structure Server where
  catalogue : Catalogue
  walLevel : String
  maxReplicationSlots : Int
  maxWalSenders : Int
  replication : Bool
  superuser : Bool
  /-- The database that the connection string names. -/
  named : String
  retained : Option String

inductive DoctorSite
  | settings
  | role
  | function
  | publication
  | slot

structure DoctorEnv where
  codec : LsnCodec
  dsn : Except Failure Unit
  connectFault : Option String
  faults : DoctorSite → Option String
  errorText : Failure → String

abbrev DoctorM := EStateM Failure (List Check)

def query (env : DoctorEnv) (site : DoctorSite) (format : String) : DoctorM Unit :=
  outcome (attempt (env.faults site) (wrapf none format []))

end Model

section Approval

variable {env : DoctorEnv} {cfg : Config} {server : Server} {around : SpoolSurroundings}
variable {lookupEnv : String → Option String} {d d' : Spool.Database}

@[simp] theorem checkValue_status {name detail : String} {ok : Bool} :
    (checkValue name ok detail).status = .fail ↔ ok = false := by
  cases ok <;> simp [checkValue]

structure Approved (codec : LsnCodec) (server : Server) : Prop where
  walLevel : server.walLevel = "logical"
  slots : 0 < server.maxReplicationSlots
  senders : 0 < server.maxWalSenders
  privilege : server.replication = true ∨ server.superuser = true
  ready : Catalogue.Ready codec { server.catalogue with database := server.named }
  idle : ∀ row, server.catalogue.slot = some row → row.active = false

structure DoctorEnv.Quiet (env : DoctorEnv) : Prop where
  dsn : env.dsn = .ok ()
  connected : env.connectFault = none
  queries : ∀ site, env.faults site = none

theorem Approved.compatible (h : Approved env.codec server)
    (named : server.named = server.catalogue.database) :
    server.catalogue.Compatible env.codec false := by
  obtain ⟨row, stored, suits⟩ := h.ready.slot
  refine ⟨⟨h.ready.supported, ?_, ?_⟩, ?_, h.idle⟩
  · intro tables published
    exact (Option.some.inj (h.ready.publication.symm.trans published)).symm
  · intro row' stored'
    obtain rfl := Option.some.inj (stored.symm.trans stored')
    exact named ▸ suits
  · intro missing
    simp only [missing, reduceCtorEq] at stored

end Approval

end WriteRelay.Doctor
