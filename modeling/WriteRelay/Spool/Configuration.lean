import WriteRelay.Spool.Operations

/-! What `ConfigureSinks` does without faults: the lists that it refuses, and the tables
that it leaves. -/
namespace WriteRelay.Spool
open Clock Fallible Runs

def ConfigureEnv.Unfaulted (env : ConfigureEnv) : Prop := ∀ site, env.faults site = none

abbrev namesOf (registrations : List SinkRegistration) : List String := registrations.map (·.name)

def Differs (t : Tables) (r : SinkRegistration) : Prop :=
  ∃ k ∈ t.sinks, k.sinkName = r.name ∧ (k.sinkType ≠ r.type ∨ k.configSHA256 ≠ r.configSHA256)

def Refused (t : Tables) (before : List SinkRegistration) (r : SinkRegistration) : Prop :=
  (r.name = "" ∨ r.type = "") ∨ r.name ∈ namesOf before ∨ Differs t r

/-- An active sink that is not listed and has a waiting delivery. -/
def Owing (t : Tables) (registrations : List SinkRegistration) : Prop :=
  ∃ k ∈ t.sinks, k.active = true ∧ k.sinkName ∉ namesOf registrations ∧
    ∃ d ∈ t.deliveries, d.sinkID = k.sinkID ∧ d.state.waiting = true

def Rejected (t : Tables) (registrations : List SinkRegistration) : Prop :=
  (∃ r ∈ registrations, r.name = "" ∨ r.type = "") ∨ ¬(namesOf registrations).Nodup ∨
    (∃ r ∈ registrations, Differs t r) ∨ Owing t registrations

def unknown (t : Tables) (registrations : List SinkRegistration) : List SinkRegistration :=
  registrations.filter (fun r => r.name ∉ t.sinks.map (·.sinkName))

def newSink (now : String) (sinkID : Nat) (r : SinkRegistration) : SinkRow :=
  ⟨sinkID, r.name, r.type, r.configSHA256, true, now⟩

def newSinks (t : Tables) (registrations : List SinkRegistration) (now : String) : List SinkRow :=
  (unknown t registrations).mapIdx fun i r => newSink now (t.lastSinkID + 1 + i) r

def Tables.sinkIDs (t : Tables) : List (String × Nat) := t.sinks.map fun k => (k.sinkName, k.sinkID)

/-- A pending delivery of a retained event at a listed sink that the tables lack. -/
def Missing (t : Tables) (registrations : List SinkRegistration) (now : String) (t' : Tables)
    (d : DeliveryRow) : Prop :=
  d.key ∉ t.deliveries.map (·.key) ∧ ∃ e ∈ t.events, e.pruned = false ∧
    ∃ name ∈ namesOf registrations, ∃ sinkID, (name, sinkID) ∈ t'.sinkIDs ∧
      d = pendingDelivery e.sequence sinkID now

/-- The tables with these sinks registered, each stored sink being switched as given. -/
structure Configured (t : Tables) (registrations : List SinkRegistration) (now : String)
    (switch : SinkRow → Bool) (t' : Tables) : Prop where
  events : t'.events = t.events
  lastSequence : t'.lastSequence = t.lastSequence
  durableLSN : t'.durableLSN = t.durableLSN
  lastSinkID : t'.lastSinkID = t.lastSinkID + (unknown t registrations).length
  sinks : t'.sinks = t.sinks.map (fun k => { k with active := switch k }) ++
    newSinks t registrations now
  deliveries : ∃ added, t'.deliveries = t.deliveries ++ added ∧
    ∀ d, d ∈ added ↔ Missing t registrations now t' d

def isListed (registrations : List SinkRegistration) (k : SinkRow) : Bool :=
  decide (k.sinkName ∈ namesOf registrations)

def switchedOn (registrations : List SinkRegistration) (k : SinkRow) : Bool :=
  k.active || isListed registrations k

theorem rejected_iff {t : Tables} {registrations : List SinkRegistration} :
    Rejected t registrations ↔
      Rows.Breaks (Refused t) [] registrations ∨ Owing t registrations := by
  have repeated : Rows.Breaks (fun before (r : SinkRegistration) => r.name ∈ namesOf before) []
      registrations ↔ ¬(namesOf registrations).Nodup := Rows.breaks_known_iff List.nodup_nil
  have refused : Rows.Breaks (Refused t) [] registrations ↔
      (∃ r ∈ registrations, r.name = "" ∨ r.type = "") ∨ ¬(namesOf registrations).Nodup ∨
        ∃ r ∈ registrations, Differs t r := by
    rw [← repeated]
    constructor
    · rintro ⟨before, r, after, rfl, blank | known | differs⟩
      · exact .inl ⟨r, by simp, blank⟩
      · exact .inr (.inl ⟨before, r, after, rfl, known⟩)
      · exact .inr (.inr ⟨r, by simp, differs⟩)
    · rintro (⟨r, member, blank⟩ | ⟨before, r, after, cut, known⟩ | ⟨r, member, differs⟩)
      · obtain ⟨before, after, cut⟩ := List.append_of_mem member
        exact ⟨before, r, after, cut, .inl blank⟩
      · exact ⟨before, r, after, cut, .inr (.inl known)⟩
      · obtain ⟨before, after, cut⟩ := List.append_of_mem member
        exact ⟨before, r, after, cut, .inr (.inr differs)⟩
  rw [refused, Rejected, or_assoc, or_assoc]

section Loop

variable {env : ConfigureEnv} {t s : Tables} {done : List SinkRegistration} {now : String}

theorem mem_newSinks {k : SinkRow} (h : k ∈ newSinks t done now) :
    ∃ r ∈ done, ∃ i, k = newSink now (t.lastSinkID + 1 + i) r := by
  rw [newSinks, List.mem_mapIdx] at h
  obtain ⟨i, bound, rfl⟩ := h
  have member : (unknown t done)[i] ∈ unknown t done := List.getElem_mem bound
  exact ⟨_, List.mem_of_mem_filter member, i, rfl⟩

theorem newSinks_names {k : SinkRow} (h : k ∈ newSinks t done now) :
    k.sinkName ∈ namesOf done ∧ t.lastSinkID < k.sinkID := by
  obtain ⟨r, member, i, rfl⟩ := mem_newSinks h
  refine ⟨List.mem_map_of_mem member, ?_⟩
  change t.lastSinkID < t.lastSinkID + 1 + i
  omega

theorem unknown_concat (r : SinkRegistration) : unknown t (done ++ [r]) =
    if r.name ∈ t.sinks.map (·.sinkName) then unknown t done else unknown t done ++ [r] := by
  rw [unknown, List.filter_append]
  split
  · rename_i stored
    rw [List.filter_cons_of_neg (by simpa using stored), List.filter_nil, List.append_nil]
    rfl
  · rename_i fresh
    rw [List.filter_cons_of_pos (by simpa using fresh)]
    rfl

/-- The body of the loop before the backfill. -/
structure Activated (t : Tables) (done : List SinkRegistration) (now : String) (s : Tables)
    (r : SinkRegistration) (s' : Tables) (sinkID : Nat) : Prop where
  events : s'.events = s.events
  lastSequence : s'.lastSequence = s.lastSequence
  durableLSN : s'.durableLSN = s.durableLSN
  deliveries : s'.deliveries = s.deliveries
  lastSinkID : s'.lastSinkID = t.lastSinkID + (unknown t (done ++ [r])).length
  sinks : s'.sinks = t.sinks.map (fun k => { k with active := switchedOn (done ++ [r]) k }) ++
    newSinks t (done ++ [r]) now
  ids : ∀ p, p ∈ s'.sinkIDs ↔ p ∈ s.sinkIDs ∨ p = (r.name, sinkID)

theorem Configured.stored (h : Configured t done now (switchedOn done) s) {k : SinkRow}
    (member : k ∈ s.sinks) (unnamed : k.sinkName ∉ namesOf done) : k ∈ t.sinks := by
  rw [h.sinks] at member
  rcases List.mem_append.mp member with old | new
  · obtain ⟨k', hk', rfl⟩ := List.mem_map.mp old
    have kept : switchedOn done k' = k'.active := by
      rw [switchedOn, isListed, decide_eq_false unnamed, Bool.or_false]
    rwa [kept]
  · exact absurd (newSinks_names new).1 unnamed

theorem Configured.names (h : Configured t done now (switchedOn done) s) {name : String}
    (member : name ∈ t.sinks.map (·.sinkName)) : name ∈ s.sinks.map (·.sinkName) := by
  obtain ⟨k, hk, rfl⟩ := List.mem_map.mp member
  rw [h.sinks, List.map_append, List.map_map]
  exact List.mem_append_left _ (List.mem_map.mpr ⟨k, hk, rfl⟩)

theorem activateSink_new (h : Configured t done now (switchedOn done) s) (quiet : env.Unfaulted)
    (reading : now = formatTimestamp env.now) {r : SinkRegistration}
    (fresh : s.sinks.find? (fun k => k.sinkName = r.name) = none) :
    ∃ s' sinkID, activateSink env r s = .ok (s', sinkID) ∧ Activated t done now s r s' sinkID := by
  have unseen : ∀ k ∈ s.sinks, k.sinkName ≠ r.name := by
    simpa [List.find?_eq_none] using fresh
  have absent : s.sinks.any (fun k => k.sinkName = r.name) = false := by
    simpa [List.any_eq_false] using unseen
  have unstored : r.name ∉ t.sinks.map (·.sinkName) := by
    intro stored
    obtain ⟨k, hk, same⟩ := List.mem_map.mp (h.names stored)
    exact unseen k hk same
  have others : ∀ k ∈ t.sinks, switchedOn (done ++ [r]) k = switchedOn done k := by
    intro k hk
    have other : k.sinkName ≠ r.name := fun same => unstored (List.mem_map.mpr ⟨k, hk, same⟩)
    simp [switchedOn, isListed, other]
  refine ⟨{ s with
    sinks := s.sinks ++ [newSink now (s.lastSinkID + 1) r]
    lastSinkID := s.lastSinkID + 1 }, s.lastSinkID + 1, ?_, ?_⟩
  · simp only [activateSink, attempt, quiet .. , fresh, Tables.insertSink, absent, ← reading]
    rfl
  · have more : unknown t (done ++ [r]) = unknown t done ++ [r] := by
      rw [unknown_concat, if_neg unstored]
    refine ⟨rfl, rfl, rfl, rfl, ?_, ?_, ?_⟩
    · rw [more, List.length_append, h.lastSinkID]
      rfl
    · change s.sinks ++ _ = _
      rw [h.sinks, h.lastSinkID, newSinks, newSinks, more, List.mapIdx_concat, ← List.append_assoc,
        List.map_congr_left fun k hk => by rw [← others k hk], Nat.add_right_comm]
    · intro p
      simp [Tables.sinkIDs, newSink]

theorem setActive_sinkIDs (s : Tables) (sinkID : Nat) (active : Bool) :
    (s.setActive sinkID active).sinkIDs = s.sinkIDs := by
  apply Rows.map_update_of_invariant
  exact fun _ => rfl

theorem activateSink_stored (h : Configured t done now (switchedOn done) s) (sound : t.Sound)
    (quiet : env.Unfaulted) {r : SinkRegistration} (unnamed : r.name ∉ namesOf done)
    (agrees : ¬Differs t r) {stored : SinkRow}
    (found : s.sinks.find? (fun k => k.sinkName = r.name) = some stored) :
    ∃ s' sinkID, activateSink env r s = .ok (s', sinkID) ∧ Activated t done now s r s' sinkID := by
  have named : stored.sinkName = r.name := by simpa using List.find?_some found
  have seen := List.mem_of_find?_eq_some found
  have member : stored ∈ t.sinks := h.stored seen (named ▸ unnamed)
  have same : ¬(stored.sinkType ≠ r.type ∨ stored.configSHA256 ≠ r.configSHA256) := fun differ =>
    agrees ⟨stored, member, named, differ⟩
  refine ⟨s.setActive stored.sinkID true, stored.sinkID, ?_, ?_⟩
  · simp only [activateSink, attempt, quiet .. , found, refuse, if_neg same]
    rfl
  · have known : unknown t (done ++ [r]) = unknown t done := by
      rw [unknown_concat, if_pos (List.mem_map.mpr ⟨stored, member, named⟩)]
    have rows : newSinks t (done ++ [r]) now = newSinks t done now := by
      rw [newSinks, known, newSinks]
    refine ⟨rfl, rfl, rfl, rfl, known ▸ h.lastSinkID, ?_, ?_⟩
    · change Rows.update _ _ s.sinks = _
      rw [h.sinks, rows, Rows.update, List.map_append, List.map_map]
      congr 1
      · apply List.map_congr_left
        intro k hk
        have target : k.sinkID = stored.sinkID ↔ k.sinkName = r.name := by
          constructor
          · intro id
            rw [sound.sinks.unique hk member id, named]
          · intro name
            rw [Rows.key_unique sound.sinks.names hk member (name.trans named.symm)]
        by_cases this : k.sinkName = r.name
        · simp [switchedOn, isListed, this, target.mpr this]
        · simp [switchedOn, isListed, this, mt target.mp this]
      · conv_rhs => rw [← List.map_id (newSinks t done now)]
        apply List.map_congr_left
        intro k hk
        have other : k.sinkID ≠ stored.sinkID := by
          have := (newSinks_names hk).2
          have := sound.sinks.bounded stored member
          omega
        simp [other]
    · intro p
      rw [setActive_sinkIDs]
      refine ⟨.inl, fun is => is.elim id ?_⟩
      rintro rfl
      exact List.mem_map.mpr ⟨stored, seen, by rw [named]⟩

theorem activateSink_differs (h : Configured t done now (switchedOn done) s) (sound : t.Sound)
    (quiet : env.Unfaulted) {r : SinkRegistration} (unnamed : r.name ∉ namesOf done)
    (differs : Differs t r) : ∃ f, activateSink env r s = .error f := by
  obtain ⟨k, hk, named, differ⟩ := differs
  cases found : s.sinks.find? (fun k => k.sinkName = r.name) with
  | none =>
    obtain ⟨k', hk', named'⟩ := List.mem_map.mp (h.names (List.mem_map.mpr ⟨k, hk, named⟩))
    exact absurd (decide_eq_true named') (List.find?_eq_none.mp found k' hk')
  | some stored =>
    have named' : stored.sinkName = r.name := by simpa using List.find?_some found
    have member : stored ∈ t.sinks := h.stored (List.mem_of_find?_eq_some found) (named' ▸ unnamed)
    obtain rfl := Rows.key_unique sound.sinks.names hk member (named.trans named'.symm)
    exact ⟨_, by simp only [activateSink, attempt, quiet .. , found, refuse, if_pos differ]; rfl⟩

theorem backfillSink_unfaulted (quiet : env.Unfaulted) (reading : now = formatTimestamp env.now)
    {sinkID : Nat} (sound : s.Sound) (active : s.Active sinkID) (name : String) :
    backfillSink env name sinkID s = .ok { s with
      deliveries := Rows.keepAll (·.key) s.deliveries (backfillRows s sinkID now) } := by
  have admitted : ∀ row ∈ backfillRows s sinkID now, s.Admits row := fun row hrow =>
    backfillRows_admitted active hrow
  simp only [backfillSink, attempt, quiet .. , ← reading, (sound.insertDeliveries admitted).1, statement]
  rfl

theorem backfillRows_keys (sound : s.Sound) (sinkID : Nat) (now : String) :
    ((backfillRows s sinkID now).map (·.key)).Nodup := by
  have sequences : ((s.events.filter fun e => e.pruned = false).map (·.sequence)).Nodup :=
    ((sound.events.ordered.imp Nat.ne_of_lt).sublist (List.filter_sublist.map _))
  have keys : (backfillRows s sinkID now).map (·.key) =
      ((s.events.filter fun e => e.pruned = false).map (·.sequence)).map fun n => (n, sinkID) := by
    simp only [backfillRows, List.map_map]
    rfl
  rw [keys]
  exact sequences.map fun _ _ same => (Prod.mk.inj same).1

theorem mem_backfillRows {sinkID : Nat} {d : DeliveryRow} : d ∈ backfillRows s sinkID now ↔
    ∃ e ∈ s.events, e.pruned = false ∧ d = pendingDelivery e.sequence sinkID now := by
  simp only [backfillRows, List.mem_map, List.mem_filter, decide_eq_true_eq, and_assoc]
  exact exists_congr fun e => and_congr_right fun _ => and_congr_right fun _ => eq_comm

theorem sinkIDs_unique (sound : s.Sound) {name name' : String} {sinkID sinkID' : Nat}
    (one : (name, sinkID) ∈ s.sinkIDs) (other : (name', sinkID') ∈ s.sinkIDs) :
    name = name' ↔ sinkID = sinkID' := by
  obtain ⟨k, hk, same⟩ := List.mem_map.mp one
  obtain ⟨k', hk', same'⟩ := List.mem_map.mp other
  obtain ⟨rfl, rfl⟩ := Prod.mk.inj same
  obtain ⟨rfl, rfl⟩ := Prod.mk.inj same'
  constructor
  · intro names
    rw [Rows.key_unique sound.sinks.names hk hk' names]
  · intro ids
    rw [sound.sinks.unique hk hk' ids]

theorem Configured.backfill (h : Configured t done now (switchedOn done) s)
    {s' : Tables} {r : SinkRegistration} {sinkID : Nat} (activated : Activated t done now s r s' sinkID)
    (sound : s'.Sound) (unnamed : r.name ∉ namesOf done) :
    Configured t (done ++ [r]) now (switchedOn (done ++ [r])) { s' with
      deliveries := Rows.keepAll (·.key) s'.deliveries (backfillRows s' sinkID now) } := by
  obtain ⟨added, deliveries, missing⟩ := h.deliveries
  refine ⟨activated.events.trans h.events, activated.lastSequence.trans h.lastSequence,
    activated.durableLSN.trans h.durableLSN, activated.lastSinkID, activated.sinks,
    added ++ (backfillRows s' sinkID now).filter (fun d => d.key ∉ s'.deliveries.map (·.key)), ?_, ?_⟩
  · change Rows.keepAll _ _ _ = _
    rw [Rows.keepAll_of_nodup _ _ (backfillRows_keys sound sinkID now), activated.deliveries, deliveries,
      List.append_assoc]
    congr!
  · have target : (r.name, sinkID) ∈ s'.sinkIDs := (activated.ids _).mpr (.inr rfl)
    intro d
    simp only [List.mem_append, List.mem_filter, decide_eq_true_eq, mem_backfillRows, missing,
      activated.events, h.events, activated.deliveries, deliveries, List.map_append, not_or]
    constructor
    · rintro (⟨absent, e, he, retained, name, named, id, paired, rfl⟩ | ⟨⟨e, he, retained, rfl⟩, absent, _⟩)
      · exact ⟨absent, e, he, retained, name, by simp [named], id,
          (activated.ids _).mpr (.inl paired), rfl⟩
      · exact ⟨absent, e, he, retained, r.name, by simp, sinkID, target, rfl⟩
    · rintro ⟨absent, e, he, retained, name, named, id, paired, rfl⟩
      by_cases first : name ∈ namesOf done
      · rcases (activated.ids _).mp paired with before | this
        · exact .inl ⟨absent, e, he, retained, name, first, id, before, rfl⟩
        · exact absurd ((Prod.mk.inj this).1 ▸ first) unnamed
      · have same : name = r.name := by
          rw [namesOf, List.map_append, List.mem_append] at named
          simpa using named.resolve_left first
        obtain rfl := (sinkIDs_unique sound paired target).mp same
        refine .inr ⟨⟨e, he, retained, rfl⟩, absent, fun known => ?_⟩
        obtain ⟨d, hd, key⟩ := List.mem_map.mp known
        obtain ⟨_, e', _, _, name', named', id', paired', rfl⟩ := (missing d).mp hd
        obtain rfl : id' = id := (Prod.mk.inj key).2
        have again : name' = r.name :=
          (sinkIDs_unique sound ((activated.ids _).mpr (.inl paired')) target).mpr rfl
        exact unnamed (again ▸ named')

theorem registerSink_exact (h : Configured t done now (switchedOn done) s) (sound : t.Sound)
    (valid : s.Valid) (quiet : env.Unfaulted) (reading : now = formatTimestamp env.now)
    {configured : List String} (seen : ∀ name, name ∈ configured ↔ name ∈ namesOf done)
    (r : SinkRegistration) :
    (Refused t done r → ∃ f, registerSink env configured r s = .error f) ∧
    (¬Refused t done r → ∃ s', registerSink env configured r s = .ok s' ∧
      Configured t (done ++ [r]) now (switchedOn (done ++ [r])) s') := by
  by_cases blank : r.name = "" ∨ r.type = ""
  · exact ⟨fun _ => ⟨_, by rw [registerSink, refuse, if_pos blank]; rfl⟩,
      fun good => absurd (.inl blank) good⟩
  by_cases named : r.name ∈ namesOf done
  · have known := (seen r.name).mpr named
    exact ⟨fun _ => ⟨_, by rw [registerSink, refuse, if_neg blank, refuse, if_pos known]; rfl⟩,
      fun good => absurd (.inr (.inl named)) good⟩
  have start : registerSink env configured r s = (activateSink env r s >>= fun activated =>
      backfillSink env r.name activated.2 activated.1) := by
    rw [registerSink, refuse, if_neg blank, refuse, if_neg (mt (seen _).mp named)]
    rfl
  by_cases differs : Differs t r
  · refine ⟨fun _ => ?_, fun good => absurd (.inr (.inr differs)) good⟩
    obtain ⟨f, refused⟩ := activateSink_differs h sound quiet named differs
    exact ⟨f, by rw [start, refused]; rfl⟩
  · refine ⟨fun bad => absurd bad (by simp [Refused, blank, named, differs]), fun _ => ?_⟩
    have activation : ∃ s' sinkID, activateSink env r s = .ok (s', sinkID) ∧
        Activated t done now s r s' sinkID := by
      cases found : s.sinks.find? (fun k => k.sinkName = r.name) with
      | none => exact activateSink_new h quiet reading found
      | some stored => exact activateSink_stored h sound quiet named differs found
    obtain ⟨s', sinkID, done_, activated⟩ := activation
    obtain ⟨sound', _, active, _⟩ := (activateSink_spec env r valid).post done_
    refine ⟨_, ?_, h.backfill activated sound' named⟩
    rw [start, done_]
    exact backfillSink_unfaulted quiet reading sound' active r.name

theorem registerSinks_exact (h : Configured t done now (switchedOn done) s) (sound : t.Sound)
    (valid : s.Valid) (quiet : env.Unfaulted) (reading : now = formatTimestamp env.now)
    {configured : List String} (seen : ∀ name, name ∈ configured ↔ name ∈ namesOf done)
    (rest : List SinkRegistration) :
    (Rows.Breaks (Refused t) done rest → ∃ f, registerSinks env configured rest s = .error f) ∧
    (¬Rows.Breaks (Refused t) done rest → ∃ s', registerSinks env configured rest s = .ok s' ∧
      Configured t (done ++ rest) now (switchedOn (done ++ rest)) s') := by
  induction rest generalizing done s configured with
  | nil =>
    refine ⟨fun broken => absurd broken Rows.not_breaks_nil, fun _ => ⟨s, rfl, ?_⟩⟩
    rwa [List.append_nil]
  | cons r rest ih =>
    obtain ⟨refusing, passing⟩ := registerSink_exact h sound valid quiet reading seen r
    rw [Rows.breaks_cons, registerSinks]
    by_cases refused : Refused t done r
    · obtain ⟨f, failed⟩ := refusing refused
      rw [failed]
      exact ⟨fun _ => ⟨f, rfl⟩, fun none_ => absurd (.inl refused) none_⟩
    · obtain ⟨s', passed, configured'⟩ := passing refused
      have valid' := ((registerSink_spec env configured r valid).post passed).1
      have seen' : ∀ name, name ∈ r.name :: configured ↔ name ∈ namesOf (done ++ [r]) := by
        intro name
        simp [seen, or_comm]
      have next := ih configured' valid' seen'
      simp only [List.append_assoc, List.singleton_append] at next
      rw [passed]
      simp only [refused, false_or]
      exact next

end Loop

theorem deactivateSinks_exact {env : ConfigureEnv} (quiet : env.Unfaulted) (sinks : List SinkRow)
    (s : Tables) :
    ((∃ k ∈ sinks, s.waitingCount k.sinkID ≠ 0) → ∃ f, deactivateSinks env sinks s = .error f) ∧
    ((¬∃ k ∈ sinks, s.waitingCount k.sinkID ≠ 0) → deactivateSinks env sinks s = .ok { s with
      sinks := Rows.update (fun k => k.sinkID ∈ sinks.map (·.sinkID))
        (fun k => { k with active := false }) s.sinks }) := by
  induction sinks generalizing s with
  | nil =>
    refine ⟨by simp, fun _ => ?_⟩
    rw [Rows.update_of_none (by simp)]
    rfl
  | cons sink rest ih =>
    rw [deactivateSinks]
    by_cases owing : s.waitingCount sink.sinkID ≠ 0
    · refine ⟨fun _ => ⟨_, by simp only [deactivateSink, attempt, quiet .. , refuse, if_pos owing]; rfl⟩,
        fun none_ => absurd ⟨sink, List.mem_cons_self, owing⟩ none_⟩
    · have off : deactivateSink env sink s = .ok (s.setActive sink.sinkID false) := by
        simp only [deactivateSink, attempt, quiet .. , refuse, if_neg owing]
        rfl
      obtain ⟨refusing, passing⟩ := ih (s.setActive sink.sinkID false)
      have others : (∃ k ∈ sink :: rest, s.waitingCount k.sinkID ≠ 0) ↔
          ∃ k ∈ rest, (s.setActive sink.sinkID false).waitingCount k.sinkID ≠ 0 := by
        simp only [List.mem_cons, exists_eq_or_imp, owing, false_or]
        rfl
      rw [others, off]
      refine ⟨refusing, fun idle => (passing idle).trans ?_⟩
      simp only [Tables.setActive]
      rw [Rows.update_update (f := fun k : SinkRow => { k with active := false }) (fun _ _ _ => rfl)]
      simp [List.mem_cons]

section Exact

variable {env : ConfigureEnv} {t s : Tables} {registrations : List SinkRegistration} {now : String}

theorem Configured.start (t : Tables) (now : String) : Configured t [] now (switchedOn []) t where
  events := rfl
  lastSequence := rfl
  durableLSN := rfl
  lastSinkID := rfl
  sinks := by simp [switchedOn, isListed, newSinks, unknown]
  deliveries := ⟨[], by simp, by simp [Missing]⟩

theorem Configured.owing_iff (h : Configured t registrations now (switchedOn registrations) s)
    (sound : s.Sound) : (∃ k ∈ unlisted registrations s, s.waitingCount k.sinkID ≠ 0) ↔
      Owing t registrations := by
  obtain ⟨added, deliveries, missing⟩ := h.deliveries
  -- the added rows belong to listed sinks
  have elsewhere : ∀ k ∈ s.sinks, k.sinkName ∉ namesOf registrations →
      ∀ d ∈ added, d.sinkID ≠ k.sinkID := by
    intro k hk unnamed d hd same
    obtain ⟨_, _, _, _, name, named, sinkID, paired, rfl⟩ := (missing d).mp hd
    have stored : (k.sinkName, k.sinkID) ∈ s.sinkIDs := List.mem_map.mpr ⟨k, hk, rfl⟩
    exact unnamed ((sinkIDs_unique sound paired stored).mpr same ▸ named)
  have waiting_iff : ∀ k ∈ s.sinks, k.sinkName ∉ namesOf registrations →
      (s.waitingCount k.sinkID ≠ 0 ↔ ∃ d ∈ t.deliveries, d.sinkID = k.sinkID ∧ d.state.waiting = true) := by
    intro k hk unnamed
    simp only [Tables.waitingCount, ne_eq, List.countP_eq_zero, decide_eq_true_eq, deliveries, not_forall,
      not_not, exists_prop, List.mem_append]
    constructor
    · rintro ⟨d, old | new, same, waiting⟩
      · exact ⟨d, old, same, waiting⟩
      · exact absurd same (elsewhere k hk unnamed d new)
    · rintro ⟨d, hd, owed⟩
      exact ⟨d, .inl hd, owed⟩
  constructor
  · rintro ⟨k, hk, owing⟩
    obtain ⟨member, chosen⟩ := List.mem_filter.mp hk
    obtain ⟨active, unnamed⟩ := of_decide_eq_true chosen
    exact ⟨k, h.stored member unnamed, active, unnamed, (waiting_iff k member unnamed).mp owing⟩
  · rintro ⟨k, hk, active, unnamed, owing⟩
    have member : k ∈ s.sinks := by
      rw [h.sinks]
      refine List.mem_append_left _ (List.mem_map.mpr ⟨k, hk, ?_⟩)
      rw [switchedOn, isListed, decide_eq_false unnamed, Bool.or_false]
    exact ⟨k, List.mem_filter.mpr ⟨member, decide_eq_true ⟨active, unnamed⟩⟩,
      (waiting_iff k member unnamed).mpr owing⟩

theorem Configured.deactivate (h : Configured t registrations now (switchedOn registrations) s)
    (sound : s.Sound) : Configured t registrations now (isListed registrations) { s with
      sinks := Rows.update (fun k => k.sinkID ∈ (unlisted registrations s).map (·.sinkID))
        (fun k => { k with active := false }) s.sinks } := by
  obtain ⟨added, deliveries, missing⟩ := h.deliveries
  have chosen : ∀ k ∈ s.sinks, decide (k.sinkID ∈ (unlisted registrations s).map (·.sinkID)) =
      (k.active && !isListed registrations k) := by
    intro k hk
    have iff : k.sinkID ∈ (unlisted registrations s).map (·.sinkID) ↔
        k.active = true ∧ k.sinkName ∉ namesOf registrations := by
      constructor
      · intro is
        obtain ⟨k', hk', same⟩ := List.mem_map.mp is
        obtain ⟨member, chosen⟩ := List.mem_filter.mp hk'
        cases sound.sinks.unique member hk same
        exact of_decide_eq_true chosen
      · intro is
        exact List.mem_map.mpr ⟨k, List.mem_filter.mpr ⟨hk, decide_eq_true is⟩, rfl⟩
    rw [Bool.eq_iff_iff]
    simp only [decide_eq_true_eq, iff, isListed, Bool.and_eq_true, Bool.not_eq_true',
      decide_eq_false_iff_not]
  refine ⟨h.events, h.lastSequence, h.durableLSN, h.lastSinkID, ?_, added, deliveries, ?_⟩
  · change Rows.update _ _ s.sinks = _
    rw [Rows.update_congr chosen, h.sinks, Rows.update, List.map_append, List.map_map]
    congr 1
    · apply List.map_congr_left
      intro k _
      have same : ∀ b, isListed registrations { k with active := b } = isListed registrations k :=
        fun _ => rfl
      cases named : isListed registrations k <;> cases active : k.active <;>
        simp [same, switchedOn, named, active]
    · conv_rhs => rw [← List.map_id (newSinks t registrations now)]
      apply List.map_congr_left
      intro k hk
      have named : isListed registrations k = true := decide_eq_true (newSinks_names hk).1
      simp [named]
  · have ids : Tables.sinkIDs { s with
        sinks := Rows.update (fun k => k.sinkID ∈ (unlisted registrations s).map (·.sinkID))
          (fun k => { k with active := false }) s.sinks } = s.sinkIDs := by
      apply Rows.map_update_of_invariant
      exact fun _ => rfl
    intro d
    rw [missing, Missing, Missing, ids]

theorem configureSinks_exact (valid : t.Valid) (quiet : env.Unfaulted)
    (registrations : List SinkRegistration) :
    (Rejected t registrations → ∃ f, configureSinks env registrations t = .error f) ∧
    (¬Rejected t registrations → ∃ t', configureSinks env registrations t = .ok t' ∧
      Configured t registrations (formatTimestamp env.now) (isListed registrations) t') := by
  have start : configureSinks env registrations t = (registerSinks env [] registrations t >>= fun s =>
      deactivateSinks env (unlisted registrations s) s) := by
    simp only [configureSinks, attempt, quiet ..]
    change (registerSinks env [] registrations t >>= fun s =>
      deactivateSinks env (unlisted registrations s) s >>= fun t' => pure t') = _
    simp only [bind_pure]
  rw [rejected_iff, start]
  have seen : ∀ name, name ∈ ([] : List String) ↔ name ∈ namesOf [] := fun _ => Iff.rfl
  obtain ⟨refusing, passing⟩ :=
    registerSinks_exact (Configured.start t _) valid.sound valid quiet rfl seen registrations
  rw [List.nil_append] at passing
  by_cases broken : Rows.Breaks (Refused t) [] registrations
  · obtain ⟨f, failed⟩ := refusing broken
    rw [failed]
    exact ⟨fun _ => ⟨f, rfl⟩, fun none_ => absurd (.inl broken) none_⟩
  · obtain ⟨s, passed, configured⟩ := passing broken
    have sound := ((registerSinks_spec env [] registrations valid).post passed).1.sound
    obtain ⟨owing, idle⟩ := deactivateSinks_exact quiet (unlisted registrations s) s
    rw [configured.owing_iff sound] at owing idle
    rw [passed]
    simp only [broken, false_or]
    exact ⟨owing, fun none_ => ⟨_, idle none_, configured.deactivate sound⟩⟩

theorem Configured.active {t' : Tables} (h : Configured t registrations now (isListed registrations) t')
    {k : SinkRow} (hk : k ∈ t'.sinks) : k.active = isListed registrations k := by
  rw [h.sinks] at hk
  rcases List.mem_append.mp hk with old | new
  · obtain ⟨k', _, rfl⟩ := List.mem_map.mp old
    rfl
  · have named := (newSinks_names new).1
    obtain ⟨r, _, i, rfl⟩ := mem_newSinks new
    exact (decide_eq_true named).symm

theorem Configured.named {t' : Tables} (h : Configured t registrations now (isListed registrations) t')
    {name : String} (listed : name ∈ namesOf registrations) :
    ∃ k ∈ t'.sinks, k.sinkName = name ∧ k.active = true := by
  have stored : ∃ k ∈ t'.sinks, k.sinkName = name := by
    obtain ⟨r, hr, rfl⟩ := List.mem_map.mp listed
    rw [h.sinks]
    by_cases known : r.name ∈ t.sinks.map (·.sinkName)
    · obtain ⟨k, hk, same⟩ := List.mem_map.mp known
      exact ⟨_, List.mem_append_left _ (List.mem_map.mpr ⟨k, hk, rfl⟩), same⟩
    · have member : r ∈ unknown t registrations := List.mem_filter.mpr ⟨hr, decide_eq_true known⟩
      obtain ⟨i, bound, rfl⟩ := List.mem_iff_getElem.mp member
      exact ⟨_, List.mem_append_right _ (List.mem_mapIdx.mpr ⟨i, bound, rfl⟩), rfl⟩
  obtain ⟨k, hk, rfl⟩ := stored
  exact ⟨k, hk, rfl, (h.active hk).trans (decide_eq_true listed)⟩

theorem Configured.allowed {t' : Tables} (h : Configured t registrations now (isListed registrations) t')
    (allowed : ¬Rejected t registrations) : ¬Rejected t' registrations := by
  rintro (blank | repeated | ⟨r, hr, k, hk, named, differ⟩ | ⟨k, hk, active, unnamed, _⟩)
  · exact allowed (.inl blank)
  · exact allowed (.inr (.inl repeated))
  · rw [h.sinks] at hk
    rcases List.mem_append.mp hk with old | new
    · obtain ⟨k', hk', rfl⟩ := List.mem_map.mp old
      exact allowed (.inr (.inr (.inl ⟨r, hr, k', hk', named, differ⟩)))
    · obtain ⟨r', hr', i, rfl⟩ := mem_newSinks new
      have distinct : (namesOf registrations).Nodup :=
        not_not.mp fun repeated => allowed (.inr (.inl repeated))
      cases Rows.key_unique distinct hr' hr named
      simp [newSink] at differ
  · rw [h.active hk, isListed, decide_eq_true_eq] at active
    exact unnamed active

/-- A configuration that is in place is left alone. -/
theorem Configured.again {t' t'' : Tables} {now' : String} (valid : t'.Valid)
    (h : Configured t registrations now (isListed registrations) t')
    (h' : Configured t' registrations now' (isListed registrations) t'') : t'' = t' := by
  have known : unknown t' registrations = [] := by
    rw [unknown, List.filter_eq_nil_iff]
    intro r hr
    obtain ⟨k, hk, named, _⟩ := h.named (List.mem_map_of_mem hr)
    have stored : r.name ∈ t'.sinks.map (·.sinkName) := List.mem_map.mpr ⟨k, hk, named⟩
    simpa using stored
  have sinks : t''.sinks = t'.sinks := by
    have unswitched : ∀ k ∈ t'.sinks, { k with active := isListed registrations k } = k :=
      fun k hk => by rw [← h.active hk]
    rw [h'.sinks, newSinks, known, List.mapIdx_nil, List.append_nil, List.map_congr_left unswitched,
      List.map_id']
  obtain ⟨added, deliveries, missing⟩ := h'.deliveries
  have none_ : added = [] := by
    rw [List.eq_nil_iff_forall_not_mem]
    intro d hd
    obtain ⟨absent, e, he, retained, name, named, sinkID, paired, rfl⟩ := (missing d).mp hd
    rw [Tables.sinkIDs, sinks] at paired
    obtain ⟨k, hk, same⟩ := List.mem_map.mp paired
    obtain ⟨rfl, rfl⟩ := Prod.mk.inj same
    have active : k.active = true := (h.active hk).trans (decide_eq_true named)
    exact absent (valid.covered k.sinkID ⟨k, hk, rfl, active⟩ e he retained)
  rw [none_, List.append_nil] at deliveries
  have lastSinkID := h'.lastSinkID
  rw [known] at lastSinkID
  change Tables.mk t''.events t''.lastSequence t''.sinks t''.lastSinkID t''.deliveries t''.durableLSN = t'
  rw [h'.events, h'.lastSequence, sinks, lastSinkID, deliveries, h'.durableLSN]
  rfl

theorem rejected_perm {registrations' : List SinkRegistration}
    (perm : registrations'.Perm registrations) :
    Rejected t registrations' ↔ Rejected t registrations := by
  have names : ∀ name, name ∈ namesOf registrations' ↔ name ∈ namesOf registrations := fun _ =>
    (perm.map _).mem_iff
  have distinct : (namesOf registrations').Nodup ↔ (namesOf registrations).Nodup :=
    (perm.map _).nodup_iff
  simp only [Rejected, Owing, perm.mem_iff, names, distinct]

end Exact

/-- The same tables, but for the order of rows and the numbers of the sinks after `last`. -/
structure Tables.Renumbered (last : Nat) (a b : Tables) : Prop where
  events : b.events = a.events
  lastSequence : b.lastSequence = a.lastSequence
  lastSinkID : b.lastSinkID = a.lastSinkID
  durableLSN : b.durableLSN = a.durableLSN
  rows : ∃ number : Equiv.Perm Nat, (∀ n ≤ last, number n = n) ∧
    b.sinks.Perm (a.sinks.map fun k => { k with sinkID := number k.sinkID }) ∧
    b.deliveries.Perm (a.deliveries.map fun d => { d with sinkID := number d.sinkID })

section Permuted

variable {t a b : Tables} {registrations registrations' : List SinkRegistration} {now : String}

theorem newSinks_renumber (distinct : (unknown t registrations).Nodup)
    (perm : (unknown t registrations).Perm (unknown t registrations')) :
    (newSinks t registrations' now).Perm ((newSinks t registrations now).map fun k =>
      { k with sinkID := Rows.renumber distinct perm t.lastSinkID k.sinkID }) := by
  rw [newSinks, newSinks, Rows.mapIdx_of_nodup distinct, Rows.mapIdx_of_nodup (perm.nodup_iff.mp distinct),
    List.map_map]
  have moved : (unknown t registrations).map ((fun k : SinkRow =>
        { k with sinkID := Rows.renumber distinct perm t.lastSinkID k.sinkID }) ∘
          fun r => newSink now (t.lastSinkID + 1 + (unknown t registrations).idxOf r) r) =
      (unknown t registrations).map fun r =>
        newSink now (t.lastSinkID + 1 + (unknown t registrations').idxOf r) r := by
    apply List.map_congr_left
    intro r hr
    simp only [Function.comp, newSink, Rows.renumber_idxOf distinct perm hr]
  rw [moved]
  exact (perm.map _).symm

theorem Tables.Sound.delivery_sinkID (sound : t.Sound) {d : DeliveryRow} (hd : d ∈ t.deliveries) :
    d.sinkID ≤ t.lastSinkID := by
  obtain ⟨k, hk, same⟩ := sound.ofSink d hd
  exact same ▸ sound.sinks.bounded k hk

variable {number : Equiv.Perm Nat} (fixed : ∀ n ≤ t.lastSinkID, number n = n)
include fixed

theorem mem_keys_renumber (sound : t.Sound) (sequence sinkID : Nat) :
    (sequence, number sinkID) ∈ t.deliveries.map (·.key) ↔
      (sequence, sinkID) ∈ t.deliveries.map (·.key) := by
  have old : ∀ id, (sequence, id) ∈ t.deliveries.map (·.key) → number id = id := by
    intro id known
    obtain ⟨d, hd, key⟩ := List.mem_map.mp known
    exact fixed id ((Prod.mk.inj key).2 ▸ sound.delivery_sinkID hd)
  constructor
  · intro known
    rwa [← number.injective (old _ known)]
  · intro known
    rwa [old _ known]

theorem deliveries_renumber (sound : t.Sound) :
    t.deliveries.map (fun d => { d with sinkID := number d.sinkID }) = t.deliveries := by
  conv_rhs => rw [← List.map_id t.deliveries]
  apply List.map_congr_left
  intro d hd
  simp only [fixed _ (sound.delivery_sinkID hd), id]

theorem sinks_renumber (sound : t.Sound) (switch : SinkRow → Bool) :
    (t.sinks.map fun k => { k with active := switch k }).map
        (fun k => { k with sinkID := number k.sinkID }) =
      t.sinks.map fun k => { k with active := switch k } := by
  rw [List.map_map]
  apply List.map_congr_left
  intro k hk
  simp only [Function.comp, fixed _ (sound.sinks.bounded k hk)]

omit fixed in
theorem mem_sinkIDs_renumber
    (sinks : b.sinks.Perm (a.sinks.map fun k => { k with sinkID := number k.sinkID }))
    {p : String × Nat} :
    p ∈ b.sinkIDs ↔ ∃ name sinkID, (name, sinkID) ∈ a.sinkIDs ∧ p = (name, number sinkID) := by
  rw [Tables.sinkIDs, (sinks.map _).mem_iff, List.map_map]
  constructor
  · intro is
    obtain ⟨k, hk, rfl⟩ := List.mem_map.mp is
    exact ⟨_, _, List.mem_map.mpr ⟨k, hk, rfl⟩, rfl⟩
  · rintro ⟨name, sinkID, is, rfl⟩
    obtain ⟨k, hk, same⟩ := List.mem_map.mp is
    obtain ⟨rfl, rfl⟩ := Prod.mk.inj same
    exact List.mem_map.mpr ⟨k, hk, rfl⟩

theorem missing_renumber (sound : t.Sound)
    (names : ∀ name, name ∈ namesOf registrations' ↔ name ∈ namesOf registrations)
    (sinks : b.sinks.Perm (a.sinks.map fun k => { k with sinkID := number k.sinkID }))
    (d : DeliveryRow) : Missing t registrations' now b d ↔
      ∃ d', Missing t registrations now a d' ∧ { d' with sinkID := number d'.sinkID } = d := by
  constructor
  · rintro ⟨absent, e, he, retained, name, named, _, paired, rfl⟩
    obtain ⟨_, sinkID, paired', same⟩ := (mem_sinkIDs_renumber sinks).mp paired
    obtain ⟨rfl, rfl⟩ := Prod.mk.inj same
    refine ⟨pendingDelivery e.sequence sinkID now, ⟨?_, e, he, retained, _, (names _).mp named,
      sinkID, paired', rfl⟩, rfl⟩
    exact mt (mem_keys_renumber fixed sound _ _).mpr absent
  · rintro ⟨_, ⟨absent, e, he, retained, name, named, sinkID, paired, rfl⟩, rfl⟩
    exact ⟨mt (mem_keys_renumber fixed sound _ _).mp absent, e, he, retained, name,
      (names _).mpr named, number sinkID, (mem_sinkIDs_renumber sinks).mpr ⟨name, sinkID, paired, rfl⟩, rfl⟩

omit fixed in
theorem added_nodup (valid : a.Valid) {added : List DeliveryRow}
    (deliveries : a.deliveries = t.deliveries ++ added) : added.Nodup := by
  have rows := List.Nodup.of_map _ valid.sound.keys
  rw [deliveries] at rows
  exact rows.of_append_right

omit fixed in
theorem Configured.renumbered (sound : t.Sound)
    (one : Configured t registrations now (isListed registrations) a) (validA : a.Valid)
    (other : Configured t registrations' now (isListed registrations') b) (validB : b.Valid)
    (perm : registrations'.Perm registrations) (distinct : (namesOf registrations).Nodup) :
    a.Renumbered t.lastSinkID b := by
  have names : ∀ name, name ∈ namesOf registrations' ↔ name ∈ namesOf registrations := fun _ =>
    (perm.map _).mem_iff
  have listed : isListed registrations' = isListed registrations := by
    funext k
    simp only [isListed, names]
  have perm' : (unknown t registrations).Perm (unknown t registrations') := (perm.filter _).symm
  have distinct' : (unknown t registrations).Nodup := (List.Nodup.of_map _ distinct).filter _
  have fixed : ∀ n ≤ t.lastSinkID, Rows.renumber distinct' perm' t.lastSinkID n = n := fun n =>
    Rows.renumber_old distinct' perm'
  -- known sinks keep their numbers; the new ones are numbered in the order of their list
  have sinks : b.sinks.Perm (a.sinks.map fun k =>
      { k with sinkID := Rows.renumber distinct' perm' t.lastSinkID k.sinkID }) := by
    rw [one.sinks, other.sinks, listed, List.map_append, sinks_renumber fixed sound]
    exact (newSinks_renumber distinct' perm').append_left _
  refine ⟨other.events.trans one.events.symm, other.lastSequence.trans one.lastSequence.symm, ?_,
    other.durableLSN.trans one.durableLSN.symm, _, fixed, sinks, ?_⟩
  · rw [other.lastSinkID, one.lastSinkID, perm'.length_eq]
  · obtain ⟨added, deliveries, missing⟩ := one.deliveries
    obtain ⟨added', deliveries', missing'⟩ := other.deliveries
    rw [deliveries, deliveries', List.map_append, deliveries_renumber fixed sound]
    apply List.Perm.append_left
    have injective : Function.Injective fun d : DeliveryRow =>
        { d with sinkID := Rows.renumber distinct' perm' t.lastSinkID d.sinkID } := by
      rintro ⟨⟩ ⟨⟩ same
      simpa using same
    rw [List.perm_ext_iff_of_nodup (added_nodup validB deliveries')
      ((added_nodup validA deliveries).map injective)]
    intro d
    rw [missing', missing_renumber fixed sound names sinks, List.mem_map]
    simp only [missing]

end Permuted

/-- What a configuration that was accepted leaves. -/
structure Reconfigured (env : ConfigureEnv) (registrations : List SinkRegistration) (t t' : Tables) :
    Prop where
  configured : Configured t registrations (formatTimestamp env.now) (isListed registrations) t'
  active : ∀ name, (∃ k ∈ t'.sinks, k.sinkName = name ∧ k.active = true) ↔ name ∈ namesOf registrations
  stored : ∀ k ∈ t.sinks, ∃ k' ∈ t'.sinks, k.Same k'
  once : (t'.deliveries.map (·.key)).Nodup
  again : ∀ env' : ConfigureEnv, env'.Unfaulted → configureSinks env' registrations t' = .ok t'
  permuted : ∀ registrations' : List SinkRegistration, registrations'.Perm registrations →
    ∃ t'', configureSinks env registrations' t = .ok t'' ∧ t'.Renumbered t.lastSinkID t''

theorem configureSinks_reconfigured {t t' : Tables} (valid : t.Valid) {env : ConfigureEnv}
    (quiet : env.Unfaulted) {registrations : List SinkRegistration}
    (allowed : ¬Rejected t registrations) (done : configureSinks env registrations t = .ok t')
    (h : Configured t registrations (formatTimestamp env.now) (isListed registrations) t') :
    Reconfigured env registrations t t' := by
  have valid' := ((configureSinks_spec env registrations valid).post done).1
  refine ⟨h, ?_, ?_, valid'.sound.keys, ?_, ?_⟩
  · intro name
    refine ⟨?_, h.named⟩
    rintro ⟨k, hk, rfl, active⟩
    rwa [h.active hk, isListed, decide_eq_true_eq] at active
  · intro k hk
    refine ⟨{ k with active := isListed registrations k }, ?_, rfl⟩
    rw [h.sinks]
    exact List.mem_append_left _ (List.mem_map.mpr ⟨k, hk, rfl⟩)
  · intro env' quiet'
    obtain ⟨t'', done', h'⟩ := (configureSinks_exact valid' quiet' registrations).2 (h.allowed allowed)
    rw [done', h.again valid' h']
  · intro registrations' perm
    obtain ⟨t'', done', h'⟩ := (configureSinks_exact valid quiet registrations').2
      (mt (rejected_perm perm).mp allowed)
    have valid'' := ((configureSinks_spec env registrations' valid).post done').1
    have distinct : (namesOf registrations).Nodup :=
      not_not.mp fun repeated => allowed (.inr (.inl repeated))
    exact ⟨t'', done', h.renumbered valid.sound valid' h' valid'' perm distinct⟩

theorem configure_outcome {t : Tables} (reachable : spool.Reachable t) {env : ConfigureEnv}
    (quiet : env.Unfaulted) (registrations : List SinkRegistration) :
    ((∃ f, configureSinks env registrations t = .error f) ↔ Rejected t registrations) ∧
    (∀ f, configureSinks env registrations t = .error f →
      ((Operation.configure env registrations).exec t).tables = t) ∧
    ∀ t', configureSinks env registrations t = .ok t' → Reconfigured env registrations t t' := by
  have valid := spool_valid reachable
  obtain ⟨refusing, passing⟩ := configureSinks_exact valid quiet registrations
  refine ⟨⟨?_, refusing⟩, ?_, ?_⟩
  · rintro ⟨f, failed⟩
    by_contra allowed
    obtain ⟨t', done, _⟩ := passing allowed
    rw [failed] at done
    contradiction
  · intro f failed
    simp only [Operation.exec, failed]
    rfl
  · intro t' done
    have allowed : ¬Rejected t registrations := by
      intro rejected
      obtain ⟨f, failed⟩ := refusing rejected
      rw [failed] at done
      contradiction
    obtain ⟨t'', done', h⟩ := passing allowed
    cases Except.ok.inj (done.symm.trans done')
    exact configureSinks_reconfigured valid quiet allowed done h

def calmConfigure : ConfigureEnv := ⟨fun _ => none, 7⟩

def twoSinks : List SinkRegistration :=
  [⟨"audit", "stdout", Sha256.sum []⟩, ⟨"billing", "webhook", Sha256.sum [1]⟩]

/-- With a captured event, one more sink may join, and the sink that waits may not leave. -/
theorem configure_outcome_sample :
    (∃ t', configureSinks calmConfigure twoSinks (runAll captured .empty) = .ok t' ∧
      Reconfigured calmConfigure twoSinks (runAll captured .empty) t') ∧
    Rejected (runAll captured .empty) [] := by
  have reachable := spool_runAll (spool.reachable_init rfl) captured
  constructor
  · have passes : (configureSinks calmConfigure twoSinks (runAll captured .empty)).isOk = true := by
      decide +kernel
    cases done : configureSinks calmConfigure twoSinks (runAll captured .empty) with
    | error e =>
      rw [done] at passes
      contradiction
    | ok t' => exact ⟨t', rfl, (configure_outcome reachable (fun _ => rfl) twoSinks).2.2 t' done⟩
  · apply (configure_outcome reachable (fun _ => rfl : calmConfigure.Unfaulted) []).1.mp
    have fails : (configureSinks calmConfigure [] (runAll captured .empty)).isOk = false := by
      decide +kernel
    cases done : configureSinks calmConfigure [] (runAll captured .empty) with
    | error e => exact ⟨e, rfl⟩
    | ok t' =>
      rw [done] at fails
      contradiction

end WriteRelay.Spool
