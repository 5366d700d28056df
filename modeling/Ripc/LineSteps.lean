import Ripc.Lines

namespace Ripc

/-- A run of events that leave the connection alone. -/
abbrev Line.Beside (l : Line) : Drv → Drv → Prop := Reaches Drv.event (Event.Avoids l)

section

variable {K : Kernel} {s a b : Drv} {l : Line} {p k v e f t : Ptr} {r : Reply} {arg : U32}
  {ds : List (Ptr × NotificationData)}

theorem Line.Up.beside (up : l.Up s) (run : l.Beside s a) : l.Up a :=
  run.keeps (fun _ _ _ avoids up he => up.event he avoids.keeps) up

theorem Line.Up.found {x : ServConnList} (up : l.Up s) (hv : findServerById s (unpackId1 arg) = some v)
    (hf : serverFindConnBySubMemId s v (unpackId2 arg) = .ok (some e)) (hx : s.servConns.get? e = some x)
    (same : x.conn = l.conn) : unpackId1 arg = l.id ∧ unpackId2 arg = l.subMemId := by
  obtain ⟨srv, hsrv, hid, _⟩ := findServerById_some hv
  obtain ⟨x', hx', rfl⟩ := serverFindConnBySubMemId_some hf
  cases hx.symm.trans hx'
  obtain ⟨_, hconn⟩ := up.conn
  obtain ⟨c, hc, serverP⟩ := up.orderly.wf.links.entryConn e x hx
  rw [same, hconn] at hc
  cases hc
  obtain ⟨srv₀, hsrv₀, hid₀, _⟩ := up.server
  have hserver : l.server = x.server := Option.some.inj serverP
  rw [← hserver, hsrv₀] at hsrv
  cases hsrv
  refine ⟨hid.symm.trans hid₀, ?_⟩
  unfold serverFindConnBySubMemId at hf
  split at hf
  next =>
    obtain ⟨y, hy, c, m, sub, hc, hm, hsub, hmem⟩ := findConnLoop_some hf
    have hy := Table.get?_eq_some.mpr (List.mem_filter.mp hy).1
    cases hx.symm.trans hy
    rw [same, hconn] at hc
    cases hc
    cases hm
    rw [← hmem]
    exact Option.some.inj ((idOf_subMem hsub).symm.trans up.memory)
  next => cases hf

theorem serverEndWriting_calls (h : serverEndWriting K s arg = .ok (r, b)) : (r.ret < 0 ∧ b = s) ∨
    (r.ret = 0 ∧ ∃ v e x t d, findServerById s (unpackId1 arg) = some v ∧
      serverFindConnBySubMemId s v (unpackId2 arg) = .ok (some e) ∧ s.servConns.get? e = some x ∧
      s.event (.post x.conn t d) b ∧ d.type = .newMessage ∧ d.whoSends = .server) := by
  unfold serverEndWriting at h
  split at h
  next => cases h; exact Or.inl ⟨by decide, rfl⟩
  next v hv =>
    obtain ⟨o, hf, h⟩ := bind_eq_ok.mp h
    obtain ⟨x, hx, h⟩ := bind_eq_ok.mp h
    obtain ⟨e, ho, hx⟩ := deref_eq_ok.mp hx
    obtain ⟨c, hc, h⟩ := bind_eq_ok.mp h
    split at h
    next => cases h; exact Or.inl ⟨by decide, rfl⟩
    next =>
      obtain ⟨⟨ret, s₁⟩, hs, h⟩ := bind_eq_ok.mp h
      cases h
      rcases notificationSend_ok hs with same | ⟨rfl, t, d, rfl, posts, htype, hwho⟩
      · exact Or.inl same
      · have ok : (Event.post x.conn t d).Ok s := ⟨posts, by simp [htype]⟩
        exact Or.inr ⟨rfl, v, e, x, t, d, hv, ho ▸ hf, hx, ⟨ok, rfl⟩, htype, hwho⟩

theorem mmapClient_beside (h : mmapClient K s k = .ok (r, b)) : l.Beside s b := by
  obtain ⟨cli, _, h⟩ := bind_eq_ok.mp h
  split at h
  next => cases h; exact .refl
  next p hp =>
    obtain ⟨c, _, h⟩ := bind_eq_ok.mp h
    split at h
    next => cases h
    next m hm =>
      obtain ⟨sub, _, h⟩ := bind_eq_ok.mp h
      split at h
      next =>
        obtain ⟨rfl, _⟩ := mmapFound_ok h
        exact .refl
      next =>
        obtain ⟨srv, _, h⟩ := bind_eq_ok.mp h
        obtain ⟨⟨ret, s₁⟩, hs, h⟩ := bind_eq_ok.mp h
        obtain ⟨rfl, _⟩ := mmapFound_ok h
        have mark : s₁.event (.mmaped p) (s₁.apply (.mmaped p)) := ⟨trivial, rfl⟩
        have last : l.Beside s₁ (s₁.apply (.mmaped p)) := .single mark trivial
        rcases notificationSend_ok hs with ⟨_, rfl⟩ | ⟨_, t, d, rfl, posts, htype, _⟩
        · exact last
        · have first : s.event (.post p t d) (s.enqueue t d) := ⟨⟨posts, by simp [htype]⟩, rfl⟩
          exact (Reaches.single first fun _ => by simp [htype]).trans last

theorem ipcMmap_beside (h : ipcMmap K s arg = .ok (r, b)) : l.Beside s b := by
  unfold ipcMmap at h
  split at h
  next => exact mmapClient_beside h
  next =>
    split at h
    next =>
      obtain ⟨rfl, _⟩ := mmapServer_ok h
      exact .refl
    next =>
      cases h
      exact .refl

theorem serverCleanupConnection_beside (up : l.Up a) (other : v ≠ l.server)
    (h : serverCleanupConnection K a v e = .ok b) : l.Beside a b := by
  obtain ⟨x, hx, ⟨_, rfl⟩ | ⟨ds, ev⟩⟩ := serverCleanupConnection_ok h up.orderly.wf
  · exact .refl
  by_cases here : x.conn = l.conn
  · obtain ⟨_, hconn⟩ := up.conn
    have skipped : some l.server ≠ some v := fun same => other (Option.some.inj same).symm
    simp only [serverCleanupConnection, deref_of_get? hx, here, deref_of_get? hconn, ok_bind, if_pos skipped] at h
    cases h
    exact .refl
  · exact .single ev here

theorem serverCleanupConnections_beside (up : l.Up a) (other : v ≠ l.server)
    (h : serverCleanupConnections K a v = .ok b) : l.Beside a b := by
  obtain ⟨srv, _, h⟩ := bind_eq_ok.mp h
  rw [serverCleanupLoop_eq] at h
  refine forEachEntry_ok (I := fun _ c => l.Beside a c) ?_ h .refl
  exact fun e rest c d run hd => run.trans (serverCleanupConnection_beside (up.beside run) other hd)

theorem Line.Up.other_client {cli : Client} (up : l.Up a) (hcli : a.gClientsList.get? k = some cli)
    (hp : cli.connP = some p) (other : k ≠ l.client) : p ≠ l.conn := by
  rintro rfl
  obtain ⟨c, hc, hk⟩ := up.orderly.wf.links.clientConn k cli _ hcli hp
  obtain ⟨_, hconn⟩ := up.conn
  cases hc.symm.trans hconn
  exact other (Option.some.inj hk).symm

theorem clientCleanupConnection_beside (up : l.Up a) (other : k ≠ l.client)
    (h : clientCleanupConnection K a k = .ok b) : l.Beside a b := by
  obtain ⟨cli, hcli, ⟨_, rfl⟩ | ⟨p, ds, hp, ev⟩⟩ := clientCleanupConnection_ok h up.orderly.wf
  · exact .refl
  · exact .single ev (up.other_client hcli hp other)

theorem Line.Up.other_id (up : l.Up s) (hk : findClientById s (unpackId1 arg) = some k)
    (other : unpackId1 arg ≠ l.clientId) : k ≠ l.client := by
  rintro rfl
  obtain ⟨cli, hcli, hid, _⟩ := findClientById_some hk
  cases up.client.symm.trans hcli
  exact other hid.symm

theorem Line.Up.other_server {x : ServersList} (up : l.Up a) (hx : a.serversEntries.get? e = some x)
    (other : x.regTask ≠ l.task) : x.server ≠ l.server ∧ e ≠ l.entry := by
  have entry : e ≠ l.entry := by
    rintro rfl
    cases hx.symm.trans up.entry
    exact other rfl
  refine ⟨fun same => entry ?_, entry⟩
  obtain ⟨srv, hsrv, he⟩ := up.orderly.wf.servers.object e x x.server hx rfl
  obtain ⟨srv', hsrv', _, he'⟩ := up.server
  rw [same, hsrv'] at hsrv
  cases hsrv
  exact Option.some.inj (he.symm.trans he')

theorem Line.Up.other_clientEntry {x : ClientsList} (up : l.Up a) (hx : a.clientsEntries.get? e = some x)
    (other : x.regTask ≠ l.clientTask) : x.client ≠ l.client := by
  intro same
  have key := clientEntry_unique up.orderly.wf hx up.clientEntry same
  subst key
  cases hx.symm.trans up.clientEntry
  exact other rfl

theorem Line.Up.other_file (up : l.Up s) (hf : s.files.get? f = some t) (other : f ≠ l.fd ∧ f ≠ l.clientFd) :
    t ≠ l.task ∧ t ≠ l.clientTask := by
  have files := up.orderly.wf.files
  refine ⟨?_, ?_⟩
  · rintro rfl
    exact other.1 (files.own f l.fd l.task hf up.file)
  · rintro rfl
    exact other.2 (files.own f l.clientFd l.clientTask hf up.clientFile)

theorem cleanServers_beside (up : l.Up s) (other : t ≠ l.task) (h : forEachEntry (fun s e => do
      serverCleanupConnections K s (← deref s.serversEntries (some e)).server)
      ((s.serversOf t).map Prod.fst) s = .ok b) : l.Beside s b := by
  refine (forEachEntry_ok (I := fun es a => l.Beside s a ∧ Cleaning s a ∧
    ∀ e ∈ es, ∃ x, s.serversEntries.get? e = some x ∧ x.regTask = t) ?_ h
    ⟨.refl, .refl up.orderly.wf, fun e he => mem_serversOf.mp he⟩).1
  rintro e rest a b ⟨run, clean, mine⟩ hb
  obtain ⟨x, hx, ht⟩ := mine e List.mem_cons_self
  obtain ⟨y, hy, hb⟩ := bind_eq_ok.mp hb
  have hy := deref_some hy
  cases hx.symm.trans (clean.torn.serversEntries ▸ hy)
  have up' := up.beside run
  have more := serverCleanupConnections_beside up' (up'.other_server hy (ht.symm ▸ other)).1 hb
  exact ⟨run.trans more, clean.trans (serverCleanupConnections_ok hb clean.wf).1,
    fun f hf => mine f (List.mem_cons_of_mem e hf)⟩

theorem cleanClients_beside (up : l.Up s) (other : t ≠ l.clientTask) (h : forEachEntry (fun s e => do
      clientCleanupConnection K s (← deref s.clientsEntries (some e)).client)
      ((s.clientsOf t).map Prod.fst) s = .ok b) : l.Beside s b := by
  refine (forEachEntry_ok (I := fun es a => l.Beside s a ∧ Cleaning s a ∧
    ∀ e ∈ es, ∃ x, s.clientsEntries.get? e = some x ∧ x.regTask = t) ?_ h
    ⟨.refl, .refl up.orderly.wf, fun e he => mem_clientsOf.mp he⟩).1
  rintro e rest a b ⟨run, clean, mine⟩ hb
  obtain ⟨x, hx, ht⟩ := mine e List.mem_cons_self
  obtain ⟨y, hy, hb⟩ := bind_eq_ok.mp hb
  have hy := deref_some hy
  cases hx.symm.trans (clean.torn.clientsEntries ▸ hy)
  have up' := up.beside run
  have more := clientCleanupConnection_beside up' (up'.other_clientEntry hy (ht.symm ▸ other)) hb
  refine ⟨run.trans more, ?_, fun f hf => mine f (List.mem_cons_of_mem e hf)⟩
  obtain ⟨cli, _, ⟨_, rfl⟩ | ⟨p, ds, _, ev⟩⟩ := clientCleanupConnection_ok hb clean.wf
  · exact clean
  · exact clean.trans (.teardown clean.wf ev)

theorem ipcRelease_beside (up : l.Up s) (other : f ≠ l.fd ∧ f ≠ l.clientFd)
    (h : ipcRelease K s f = .ok (r, b)) : l.Beside s b := by
  have wf := up.orderly.wf
  unfold ipcRelease at h
  split at h
  next =>
    obtain ⟨_, rfl⟩ := returns_ok h
    exact .refl
  next t ht =>
    obtain ⟨s₅, hd, h⟩ := bind_eq_ok.mp h
    obtain ⟨_, rfl⟩ := returns_ok h
    obtain ⟨task, htask⟩ := Table.mem_keys.mp (wf.files.live f t ht)
    obtain ⟨notServer, notClient⟩ := up.other_file ht other
    rcases regTaskDelete_calls htask hd with ⟨_, rfl⟩ | ⟨_, s₁, s₂, s₃, s₄, ⟨h₁, h₂, h₃, h₄⟩, rfl⟩
    · have he : s₅.event (.closeFile f) { s₅ with files := s₅.files.erase f } := ⟨trivial, rfl⟩
      exact .single he other
    · obtain ⟨clean₁, servers⟩ := cleanServers_ok wf h₁
      obtain ⟨clean₂, clients⟩ := cleanClients_ok clean₁.wf h₂
      have so := Releasing.first clean₁ clean₂ servers clients
      have first := cleanServers_beside up notServer h₁
      have second := first.trans (cleanClients_beside (up.beside first) notClient h₂)
      obtain ⟨left, third⟩ := forEachEntry_ok (I := fun es a => ServersLeft s t es a ∧ l.Beside s a)
        (fun e rest a b todo hb => ⟨todo.1.round hb, by
          obtain ⟨x, id, hx, ev⟩ := todo.1.event hb
          have entry := ((up.beside todo.2).other_server ev.1.1 (hx.symm ▸ notServer)).2
          exact todo.2.trans (.single ev entry)⟩) h₃ ⟨.first so, second⟩
      obtain ⟨done, fourth⟩ := forEachEntry_ok (I := fun es a => ClientsLeft s t es a ∧ l.Beside s a)
        (fun e rest a b todo hb => ⟨todo.1.round hb, by
          obtain ⟨x, id, hx, ev⟩ := todo.1.event hb
          exact todo.2.trans (.single ev trivial)⟩) h₄ ⟨.first left, third⟩
      have he : s₄.event (.closeTask f t) (s₄.closeTask f t) := by
        refine ⟨⟨?_, done.noServers, ?_⟩, rfl⟩
        · exact done.so.files ▸ ht
        · exact fun e x hx hxt => List.not_mem_nil ((done.left e).mpr ⟨x, hx, hxt⟩)
      exact fourth.trans (.single he other)

theorem serverUnregister_beside (up : l.Up s) (other : unpackId1 arg ≠ l.id)
    (h : serverUnregister K s arg = .ok (r, b)) : l.Beside s b := by
  unfold serverUnregister at h
  split at h
  next =>
    obtain ⟨_, rfl⟩ := returns_ok h
    exact .refl
  next v hv =>
    obtain ⟨named, hnamed, hid, _⟩ := findServerById_some hv
    have notServer : v ≠ l.server := by
      rintro rfl
      obtain ⟨srv, hsrv, hid', _⟩ := up.server
      cases hsrv.symm.trans hnamed
      exact other (hid.symm.trans hid')
    obtain ⟨s₁, hc, h⟩ := bind_eq_ok.mp h
    obtain ⟨clean, unused⟩ := serverCleanupConnections_ok hc up.orderly.wf
    obtain ⟨srv, hread, h⟩ := bind_eq_ok.mp h
    obtain ⟨s₂, hd, h⟩ := bind_eq_ok.mp h
    obtain ⟨_, rfl⟩ := returns_ok h
    have first := serverCleanupConnections_beside up notServer hc
    rcases dropUnused_ok clean.wf (deref_some hread) unused hd with ⟨_, rfl⟩ | ⟨e, x, ev, hx⟩
    · exact first
    · refine first.trans (.single ev ?_)
      rintro rfl
      cases ev.1.1.symm.trans (up.beside first).entry
      exact notServer hx.symm

theorem clientDisconnect_beside (up : l.Up s) (other : unpackId1 arg ≠ l.clientId)
    (h : clientDisconnect K s arg = .ok (r, b)) : l.Beside s b := by
  rcases clientDisconnect_ok up.orderly.wf h with ⟨_, rfl⟩ | ⟨k, cli, p, ds, hk, hcli, hp, ev⟩
  · exact .refl
  · exact .single ev (up.other_client hcli hp (up.other_id hk other))

theorem clientUnregister_beside (up : l.Up s) (other : unpackId1 arg ≠ l.clientId)
    (h : clientUnregister K s arg = .ok (r, b)) : l.Beside s b := by
  rcases clientUnregister_ok up.orderly.wf h with ⟨_, rfl, _⟩ | ⟨k, cli, p, ds, s₁, hk, hcli, hp, ev, done⟩
  · exact .refl
  have first : l.Beside s s₁ := .single ev (up.other_client hcli hp (up.other_id hk other))
  rcases done with ⟨_, rfl⟩ | ⟨e, x, drop, _⟩
  · exact first
  · exact first.trans (.single drop trivial)

theorem serverDisconnect_beside (up : l.Up s) (other : ¬(unpackId1 arg = l.id ∧ unpackId2 arg = l.subMemId))
    (h : serverDisconnect K s arg = .ok (r, b)) : l.Beside s b := by
  rcases serverDisconnect_calls h with ⟨rfl, _⟩ | ⟨v, e, x, ret, s₁, hv, hf, hx, hxv, hs, hc⟩
  · exact .refl
  · obtain ⟨ds, ev⟩ := disconnectServer_ok up.orderly.wf hx hxv hs hc
    exact .single ev fun same => other (up.found hv hf hx same)

theorem clientEndWriting_beside (up : l.Up s) (other : unpackId1 arg ≠ l.clientId)
    (h : clientEndWriting K s arg = .ok (r, b)) : l.Beside s b := by
  rcases clientEndWriting_ok h with ⟨_, rfl⟩ | ⟨_, k, cli, p, t, d, hk, hcli, hp, ev, _⟩
  · exact .refl
  · exact .single ev fun same => absurd same (up.other_client hcli hp (up.other_id hk other))

theorem serverEndWriting_beside (up : l.Up s) (other : ¬(unpackId1 arg = l.id ∧ unpackId2 arg = l.subMemId))
    (h : serverEndWriting K s arg = .ok (r, b)) : l.Beside s b := by
  rcases serverEndWriting_calls h with ⟨_, rfl⟩ | ⟨_, v, e, x, t, d, hv, hf, hx, ev, _⟩
  · exact .refl
  · exact .single ev fun same => absurd (up.found hv hf hx same) other

theorem connectToServer_beside {con : ConnectToServer} (h : connectToServer K s con = .ok (r, b)) :
    l.Beside s b := by
  rcases connectToServer_ok h with ⟨_, rfl⟩ | ⟨k, cli, v, s₁, _, _, _, _, _, pool, done⟩
  · exact .refl
  have first : l.Beside s s₁ := by
    rcases pool with rfl | ⟨p, shm, ev, _⟩
    · exact .refl
    · exact .single ev trivial
  rcases done with ⟨_, rfl⟩ | ⟨_, p, m, e, _, ev, _⟩
  · exact first
  · exact first.trans (.single ev trivial)

theorem ipcIoctl_beside {cmd : Cmd} (up : l.Up s) (avoids : (Op.ioctl f cmd).avoids l = true)
    (h : ipcIoctl K s f cmd = .ok (r, b)) : l.Beside s b := by
  unfold ipcIoctl at h
  split at h
  next =>
    obtain ⟨_, rfl⟩ := returns_ok h
    exact .refl
  next t ht =>
    obtain ⟨task, htask⟩ := Table.mem_keys.mp (up.orderly.wf.files.live f t ht)
    cases cmd with
    | registerServer reg =>
      rcases registerServer_ok h htask with ⟨rfl, _⟩ | ⟨_, _, _, _, v, owner, _, ev, _⟩
      · exact .refl
      · exact .single ev trivial
    | registerClient =>
      rcases registerClient_ok h htask with ⟨rfl, _⟩ | ⟨_, k, owner, _, ev, _⟩
      · exact .refl
      · exact .single ev trivial
    | connectToServer con => exact connectToServer_beside h
    | clientEndWriting arg => exact clientEndWriting_beside up (of_decide_eq_true avoids) h
    | serverEndWriting arg => exact serverEndWriting_beside up (of_decide_eq_true avoids) h
    | clientDisconnect arg => exact clientDisconnect_beside up (of_decide_eq_true avoids) h
    | serverDisconnect arg => exact serverDisconnect_beside up (of_decide_eq_true avoids) h
    | clientUnregister arg => exact clientUnregister_beside up (of_decide_eq_true avoids) h
    | serverUnregister arg => exact serverUnregister_beside up (of_decide_eq_true avoids) h
    | registerMonitor =>
      obtain ⟨⟨ret, s₁⟩, hm, h⟩ := bind_eq_ok.mp h
      obtain ⟨_, rfl⟩ := returns_ok h
      rcases regTaskSetMonitor_ok hm with rfl | ⟨ev, _⟩
      · exact .refl
      · exact .single ev trivial
    | unknown =>
      obtain ⟨_, rfl⟩ := returns_ok h
      exact .refl

theorem step_beside {call : Call} (up : l.Up s) (avoids : call.op.avoids l = true)
    (hs : step s call = .ok (r, b)) : l.Beside s b := by
  unfold step at hs
  split at hs
  next op =>
    rcases ipcOpen_ok hs with rfl | ⟨f, t, _, ev, _⟩
    · exact .refl
    · exact .single ev trivial
  next f cmd op => exact ipcIoctl_beside up (op ▸ avoids) hs
  next f arg op =>
    split at hs
    next => exact ipcMmap_beside hs
    next =>
      obtain ⟨_, rfl⟩ := returns_ok hs
      exact .refl
  next f count op =>
    rw [op] at avoids
    rcases ipcRead_ok hs with rfl | ⟨t, ht, ev⟩
    · exact .refl
    · exact .single ev (up.other_file ht (of_decide_eq_true avoids))
  next f op =>
    rw [op] at avoids
    exact ipcRelease_beside up (of_decide_eq_true avoids) hs

end

end Ripc
