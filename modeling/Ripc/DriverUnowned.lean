import Ripc.DriverIoctlFaults

namespace Ripc

section

variable {K : Kernel} {s : Drv} {e : Fault} {arg : U32}

/-- The server that a client's message is for has a task. -/
def ClientSendSafe (s : Drv) (arg : U32) : Prop :=
  ∀ k cli p c, findClientById s (unpackId1 arg) = some k → s.gClientsList.get? k = some cli →
    cli.connP = some p → s.gConnsList.get? p = some c → ¬NoReceiver s c .client

/-- A known server names one of its sub-memories, and the client behind it has a task. -/
def ServerSendSafe (s : Drv) (arg : U32) : Prop :=
  ∀ v, findServerById s (unpackId1 arg) = some v → ∃ f x c,
    serverFindConnBySubMemId s v (unpackId2 arg) = .ok (some f) ∧ s.servConns.get? f = some x ∧
    s.gConnsList.get? x.conn = some c ∧ ¬NoReceiver s c .server

/-- Both sides of the client's connection have a task, or the call stops at the lost server. -/
def ClientLeaveSafe (s : Drv) (arg : U32) : Prop :=
  ∀ k cli p c, findClientById s (unpackId1 arg) = some k → s.gClientsList.get? k = some cli →
    cli.connP = some p → s.gConnsList.get? p = some c → Unowned s c → ServerLost s c

def ServerLeaveSafe (s : Drv) (arg : U32) : Prop :=
  ∀ v f x c, findServerById s (unpackId1 arg) = some v →
    serverFindConnBySubMemId s v (unpackId2 arg) = .ok (some f) → s.servConns.get? f = some x →
    s.gConnsList.get? x.conn = some c → ¬Unowned s c

/-- Both sides of every connection of the server have a task. -/
def ServerUnregisterSafe (s : Drv) (arg : U32) : Prop :=
  ∀ v f x c, findServerById s (unpackId1 arg) = some v → s.servConns.get? f = some x → x.server = v →
    s.gConnsList.get? x.conn = some c → ¬Unowned s c

/-- Why a call on existing connections faults: a connection has lost its server, or the call is
not safe. -/
def Explained (s : Drv) (safe : Prop) (e : Fault) : Prop :=
  (e = .useAfterFree ∧ ∃ p c, s.gConnsList.get? p = some c ∧ ServerLost s c) ∨ (e = .nullDeref ∧ ¬safe)

theorem Explained.lost {p : Ptr} {c : Connection} {safe : Prop} (hc : s.gConnsList.get? p = some c)
    (h : ServerLost s c) : Explained s safe .useAfterFree :=
  Or.inl ⟨rfl, p, c, hc, h⟩

theorem serverLive_of_send {type : NotifType} {p k : Ptr} {c : Connection} {r : Int × Drv} (wf : Wf s)
    (hc : s.gConnsList.get? p = some c) (hk : c.clientP = some k)
    (h : notificationSend K s .client type p = .ok r) : ¬ServerLost s c := by
  rintro ⟨v, hv, hlost⟩
  obtain ⟨_, ⟨m, hm⟩, _⟩ := wf.links.connFull p c hc
  simp only [notificationSend, deref_of_get? hc, ok_bind, hm, hk, Option.isNone_some, Bool.false_eq_true,
    if_false] at h
  obtain ⟨sub, _, h⟩ := bind_eq_ok.mp h
  obtain ⟨a, _, h⟩ := bind_eq_ok.mp h
  obtain ⟨b, hb, h⟩ := bind_eq_ok.mp h
  rw [hv] at hb
  obtain ⟨srv, hsrv, _⟩ := bind_eq_ok.mp hb
  rw [deref_some hsrv] at hlost
  cases hlost

theorem clientEndWriting_error (wf : Wf s) (h : clientEndWriting K s arg = .error e) :
    Explained s (ClientSendSafe s arg) e := by
  unfold clientEndWriting at h
  split at h
  next => cases h
  next k hk =>
    obtain ⟨cli, hcli, _⟩ := findClientById_some hk
    simp only [deref_of_get? hcli, ok_bind] at h
    split at h
    next => cases h
    next p hp =>
      obtain ⟨c, hc, hck⟩ := wf.links.clientConn k cli p hcli hp
      simp only [deref_of_get? hc, ok_bind] at h
      split at h
      next => cases h
      next =>
        rcases bind_eq_error.mp h with h | ⟨_, _, h⟩
        · rcases notificationSend_error h hc (wf.ends hc) with ⟨rfl, alone⟩ | ⟨rfl, lost⟩
          · exact Or.inr ⟨rfl, fun safe => safe k cli p c hk hcli hp hc alone⟩
          · exact .lost hc lost
        · cases h

theorem findConnLoop_error {subMemId : Int} {es : List (Ptr × ServConnList)} (wf : Wf s)
    (live : ∀ y ∈ es, ∃ c, s.gConnsList.get? y.2.conn = some c) : findConnLoop s subMemId es ≠ .error e := by
  induction es with
  | nil => simp [findConnLoop]
  | cons y rest ih =>
    obtain ⟨c, hc⟩ := live y List.mem_cons_self
    have rest := ih fun z hz => live z (List.mem_cons_of_mem y hz)
    simp only [findConnLoop, deref_of_get? hc, ok_bind]
    split
    next => exact rest
    next m hm =>
      obtain ⟨sub, hsub⟩ := (wf.ends hc).mem m hm
      simp only [derefSubMem, hsub, ok_bind]
      split
      next => simp
      next => exact rest

theorem serverFindConnBySubMemId_error {v : Ptr} {subMemId : Int} (wf : Wf s) :
    serverFindConnBySubMemId s v subMemId ≠ .error e := by
  unfold serverFindConnBySubMemId
  split
  next =>
    refine findConnLoop_error wf fun y hy => ?_
    obtain ⟨c, hc, _⟩ := wf.links.entryConn y.1 y.2 (Table.get?_eq_some.mpr (List.mem_filter.mp hy).1)
    exact ⟨c, hc⟩
  next => exact nofun

theorem serverEndWriting_error (wf : Wf s) (h : serverEndWriting K s arg = .error e) :
    Explained s (ServerSendSafe s arg) e := by
  unfold serverEndWriting at h
  split at h
  next => cases h
  next v hv =>
    rcases bind_eq_error.mp h with h | ⟨found, hf, h⟩
    · exact absurd h (serverFindConnBySubMemId_error wf)
    cases found with
    | none =>
      cases h
      refine Or.inr ⟨rfl, fun safe => ?_⟩
      obtain ⟨f, x, c, hf', _⟩ := safe v hv
      cases hf.symm.trans hf'
    | some f =>
      obtain ⟨x, hx, _⟩ := serverFindConnBySubMemId_some hf
      obtain ⟨c, hc, _⟩ := wf.links.entryConn f x hx
      simp only [deref_of_get? hx, deref_of_get? hc, ok_bind] at h
      split at h
      next => cases h
      next =>
        rcases bind_eq_error.mp h with h | ⟨_, _, h⟩
        · rcases notificationSend_error h hc (wf.ends hc) with ⟨rfl, alone⟩ | ⟨rfl, lost⟩
          · refine Or.inr ⟨rfl, fun safe => ?_⟩
            obtain ⟨f', x', c', hf', hx', hc', owned⟩ := safe v hv
            cases hf.symm.trans hf'
            cases hx.symm.trans hx'
            cases hc.symm.trans hc'
            exact owned alone
          · exact .lost hc lost
        · cases h

theorem disconnectClient_error {k p : Ptr} {cli : Client} {c : Connection} (wf : Wf s)
    (hcli : s.gClientsList.get? k = some cli) (hp : cli.connP = some p) (hc : s.gConnsList.get? p = some c)
    (h : notificationSend K s .client .remoteDisconnect p = .error e ∨ ∃ ret s₁,
      notificationSend K s .client .remoteDisconnect p = .ok (ret, s₁) ∧
      clientCleanupConnection K s₁ k = .error e) :
    (e = .nullDeref ∧ Unowned s c ∧ ¬ServerLost s c) ∨ (e = .useAfterFree ∧ ServerLost s c) := by
  obtain ⟨c', hc', hck⟩ := wf.links.clientConn k cli p hcli hp
  cases hc.symm.trans hc'
  rcases h with h | ⟨ret, s₁, hs, h⟩
  · rcases notificationSend_error h hc (wf.ends hc) with ⟨rfl, alone⟩ | lost
    · refine Or.inl ⟨rfl, Or.inl alone, ?_⟩
      obtain ⟨v, srv, hv, hsrv, _⟩ := alone
      rintro ⟨v', hv', hlost⟩
      cases hv.symm.trans hv'
      rw [hsrv] at hlost
      cases hlost
    · exact Or.inr lost
  · have live := serverLive_of_send wf hc hck hs
    have wf₁ := wf.send hs
    obtain ⟨ds, rfl, _⟩ := notificationSend_list hs
    have hcli₁ : (s.enqueueAll ds).gClientsList.get? k = some cli := by rw [enqueueAll_eq]; exact hcli
    obtain ⟨q, c₁, hq, hc₁, fault⟩ := clientCleanupConnection_error wf₁ hcli₁ h
    cases hp.symm.trans hq
    cases hc.symm.trans ((conns_enqueueAll s ds) ▸ hc₁)
    rcases fault.ofEnqueueAll with ⟨rfl, alone⟩ | lost
    · exact Or.inl ⟨rfl, alone, live⟩
    · exact Or.inr lost

theorem disconnectClient_explained {k p : Ptr} {cli : Client} {c : Connection}
    (hk : findClientById s (unpackId1 arg) = some k) (hcli : s.gClientsList.get? k = some cli)
    (hp : cli.connP = some p) (hc : s.gConnsList.get? p = some c)
    (fault : (e = .nullDeref ∧ Unowned s c ∧ ¬ServerLost s c) ∨ (e = .useAfterFree ∧ ServerLost s c)) :
    Explained s (ClientLeaveSafe s arg) e := by
  rcases fault with ⟨rfl, alone, live⟩ | ⟨rfl, lost⟩
  · exact Or.inr ⟨rfl, fun safe => live (safe k cli p c hk hcli hp hc alone)⟩
  · exact .lost hc lost

theorem clientDisconnect_error (wf : Wf s) (h : clientDisconnect K s arg = .error e) :
    Explained s (ClientLeaveSafe s arg) e := by
  unfold clientDisconnect at h
  split at h
  next => cases h
  next k hk =>
    obtain ⟨cli, hcli, _⟩ := findClientById_some hk
    simp only [deref_of_get? hcli, ok_bind] at h
    split at h
    next => cases h
    next p hp =>
      obtain ⟨c, hc, _⟩ := wf.links.clientConn k cli p hcli hp
      refine disconnectClient_explained hk hcli hp hc (disconnectClient_error (K := K) (e := e) wf hcli hp hc ?_)
      rcases bind_eq_error.mp h with h | ⟨⟨ret, s₁⟩, hs, h⟩
      · exact Or.inl h
      rcases bind_eq_error.mp h with h | ⟨_, _, h⟩
      · exact Or.inr ⟨ret, s₁, hs, h⟩
      · cases h

theorem regTaskDeleteClient_error {x : ClientsList} {f : Ptr} (wf : Wf s)
    (hx : s.clientsEntries.get? f = some x) : regTaskDeleteClient s (some f) ≠ .error e := by
  obtain ⟨cli, hcli, _⟩ := wf.clients.object f x x.client hx rfl
  obtain ⟨task, ht⟩ := Table.mem_keys.mp (wf.clients.live f x hx)
  have ht' : (freeId { s with gClientsList := s.gClientsList.erase x.client } cli.id).gRegTaskList.get?
      x.regTask = some task := ht
  simp only [regTaskDeleteClient, clientDestroy, deref_of_get? hx, deref_of_get? hcli, deref_of_get? ht', ok_bind]
  simp

theorem regTaskDeleteServer_error {x : ServersList} {f : Ptr} (wf : Wf s)
    (hx : s.serversEntries.get? f = some x) : regTaskDeleteServer s (some f) ≠ .error e := by
  obtain ⟨srv, hsrv, _⟩ := wf.servers.object f x x.server hx rfl
  obtain ⟨task, ht⟩ := Table.mem_keys.mp (wf.servers.live f x hx)
  have ht' : (freeId { s with gServersList := s.gServersList.erase x.server } srv.id).gRegTaskList.get?
      x.regTask = some task := ht
  simp only [regTaskDeleteServer, serverDestroy, deref_of_get? hx, deref_of_get? hsrv, deref_of_get? ht', ok_bind]
  exact nofun

theorem clientUnregister_error (wf : Wf s) (h : clientUnregister K s arg = .error e) :
    Explained s (ClientLeaveSafe s arg) e := by
  unfold clientUnregister at h
  split at h
  next => cases h
  next k hk =>
    obtain ⟨cli, hcli, _⟩ := findClientById_some hk
    simp only [deref_of_get? hcli, ok_bind] at h
    split at h
    next => cases h
    next p hp =>
      obtain ⟨c, hc, _⟩ := wf.links.clientConn k cli p hcli hp
      have explain := disconnectClient_explained (e := e) hk hcli hp hc
      rcases bind_eq_error.mp h with h | ⟨⟨ret, s₀⟩, hs, h⟩
      · exact explain (disconnectClient_error (K := K) wf hcli hp hc (Or.inl h))
      rcases bind_eq_error.mp h with h | ⟨s₁, hclean, h⟩
      · exact explain (disconnectClient_error (K := K) wf hcli hp hc (Or.inr ⟨ret, s₀, hs, h⟩))
      obtain ⟨ds, ev⟩ := disconnectClient_ok wf hcli hp hs hclean
      have wf₁ := wf.event ev
      have hcli₁ : s₁.gClientsList.get? k = some { cli with connP := forget p cli.connP } := by
        rw [ev.2, Drv.apply, clients_unlink, enqueueAll_eq, hcli, Option.map_some]
      simp only [deref_of_get? hcli₁, ok_bind] at h
      rcases bind_eq_error.mp h with h | ⟨_, _, h⟩
      · cases ht : cli.taskP with
        | none =>
          rw [ht] at h
          cases h
        | some f =>
          obtain ⟨x, hx, _⟩ := wf₁.clients.entry k _ f hcli₁ ht
          rw [ht] at h
          exact absurd h (regTaskDeleteClient_error wf₁ hx)
      · cases h

theorem serverDisconnect_error (wf : Wf s) (h : serverDisconnect K s arg = .error e) :
    Explained s (ServerLeaveSafe s arg) e := by
  unfold serverDisconnect at h
  split at h
  next => cases h
  next v hv =>
    rcases bind_eq_error.mp h with h | ⟨found, hf, h⟩
    · exact absurd h (serverFindConnBySubMemId_error wf)
    cases found with
    | none => cases h
    | some f =>
      obtain ⟨x, hx, _⟩ := serverFindConnBySubMemId_some hf
      obtain ⟨c, hc, _⟩ := wf.links.entryConn f x hx
      have explain : Blame s c e → Explained s (ServerLeaveSafe s arg) e := by
        rintro (⟨rfl, alone⟩ | ⟨rfl, lost⟩)
        · exact Or.inr ⟨rfl, fun safe => safe v f x c hv hf hx hc alone⟩
        · exact .lost hc lost
      simp only [deref_of_get? hx, deref_of_get? hc, ok_bind] at h
      split at h
      next => cases h
      next =>
        rcases bind_eq_error.mp h with h | ⟨⟨ret, s₁⟩, hs, h⟩
        · exact explain (blame_of_send h hc (wf.ends hc))
        rcases bind_eq_error.mp h with h | ⟨_, _, h⟩
        · have wf₁ := wf.send hs
          obtain ⟨ds, rfl, _⟩ := notificationSend_list hs
          have hx₁ : (s.enqueueAll ds).servConns.get? f = some x := by rw [enqueueAll_eq]; exact hx
          obtain ⟨c₁, hc₁, fault⟩ := serverCleanupConnection_error wf₁ hx₁ h
          cases hc.symm.trans ((conns_enqueueAll s ds) ▸ hc₁)
          exact explain fault.ofEnqueueAll
        · cases h

theorem serverUnregister_error (wf : Wf s) (h : serverUnregister K s arg = .error e) :
    Explained s (ServerUnregisterSafe s arg) e := by
  unfold serverUnregister at h
  split at h
  next => cases h
  next v hv =>
    obtain ⟨srv, hsrv, _⟩ := findServerById_some hv
    rcases bind_eq_error.mp h with h | ⟨s₁, hclean, h⟩
    · obtain ⟨f, x, c, hx, hxv, hc, fault⟩ :=
        serverCleanupConnections_error wf (Table.mem_keys.mpr ⟨srv, hsrv⟩) h
      rcases fault with ⟨rfl, alone⟩ | ⟨rfl, lost⟩
      · exact Or.inr ⟨rfl, fun safe => safe v f x c hv hx hxv hc alone⟩
      · exact .lost hc lost
    · obtain ⟨clean, _⟩ := serverCleanupConnections_ok hclean wf
      have hsrv₁ : s₁.gServersList.get? v = some srv := clean.torn.servers ▸ hsrv
      simp only [deref_of_get? hsrv₁, ok_bind] at h
      rcases bind_eq_error.mp h with h | ⟨_, _, h⟩
      · cases ht : srv.taskP with
        | none =>
          rw [ht] at h
          cases h
        | some f =>
          obtain ⟨x, hx, _⟩ := clean.wf.servers.entry v srv f hsrv₁ ht
          rw [ht] at h
          exact absurd h (regTaskDeleteServer_error clean.wf hx)
      · cases h

/-- What each command needs so as not to run into a null pointer or past its argument. -/
def IoctlSafe (K : Kernel) (s : Drv) (task : RegTask) : Cmd → Prop
  | .registerServer reg => RegisterServerSafe K s task reg
  | .registerClient => RegisterClientSafe K s task
  | .connectToServer con => ConnectSafe K s con
  | .clientEndWriting arg => ClientSendSafe s arg
  | .serverEndWriting arg => ServerSendSafe s arg
  | .clientDisconnect arg | .clientUnregister arg => ClientLeaveSafe s arg
  | .serverDisconnect arg => ServerLeaveSafe s arg
  | .serverUnregister arg => ServerUnregisterSafe s arg
  | .registerMonitor | .unknown => True

/-- An ioctl call that faults is unsafe, or has met a connection without its server. -/
theorem ipcIoctl_error {filp t : Ptr} {task : RegTask} {cmd : Cmd} (wf : Wf s)
    (ht : s.files.get? filp = some t) (htask : s.gRegTaskList.get? t = some task)
    (h : ipcIoctl K s filp cmd = .error e) :
    (e = .useAfterFree ∧ ∃ p c, s.gConnsList.get? p = some c ∧ ServerLost s c) ∨
      (e ≠ .useAfterFree ∧ ¬IoctlSafe K s task cmd) := by
  have relax : ∀ {safe : Prop}, Explained s safe e →
      (e = .useAfterFree ∧ ∃ p c, s.gConnsList.get? p = some c ∧ ServerLost s c) ∨
        (e ≠ .useAfterFree ∧ ¬safe) :=
    fun h => h.imp_right fun ⟨he, unsafe'⟩ => ⟨he ▸ nofun, unsafe'⟩
  simp only [ipcIoctl, ht] at h
  cases cmd with
  | registerServer reg => exact Or.inr (registerServer_error htask h)
  | registerClient => exact Or.inr (registerClient_error htask h)
  | connectToServer con => exact Or.inr (connectToServer_error h)
  | clientEndWriting arg => exact relax (clientEndWriting_error wf h)
  | serverEndWriting arg => exact relax (serverEndWriting_error wf h)
  | clientDisconnect arg => exact relax (clientDisconnect_error wf h)
  | serverDisconnect arg => exact relax (serverDisconnect_error wf h)
  | clientUnregister arg => exact relax (clientUnregister_error wf h)
  | serverUnregister arg => exact relax (serverUnregister_error wf h)
  | registerMonitor =>
    rcases bind_eq_error.mp h with h | ⟨_, _, h⟩
    · simp only [regTaskSetMonitor, deref_of_get? htask, ok_bind] at h
      split at h
      next => cases h
      next => split at h <;> cases h
    · cases h
  | unknown => cases h

end

end Ripc
