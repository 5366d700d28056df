import Ripc.HubLinks

namespace Ripc

variable {K : Kernel} {s s' : Drv} {f t : Ptr} {r : Reply}

theorem RegistryShown.showsTask {data : StRegTasks} (shown : RegistryShown s data) (live : t ∈ s.gRegTaskList.keys) :
    ∃ i : Fin maxProcesses, i.val < data.tasksCount ∧ ∃ task, TaskShown s (data.tasks i) (t, task) := by
  obtain ⟨task, ht⟩ := Table.mem_keys.mp live
  obtain ⟨i, hi, one⟩ := shown.tasks.shows (Table.get?_eq_some.mp ht)
  refine ⟨i, ?_, task, one⟩
  rw [shown.count, Table.keys, List.length_map]
  exact Int.ofNat_lt.mpr hi

theorem RegistryShown.showsClient {data : StRegTasks} (wf : Wf s) (shown : RegistryShown s data) {e : Ptr}
    {x : ClientsList} (hx : s.clientsEntries.get? e = some x) :
    ∃ st, data.ReportsClient st ∧ ClientShown s st (e, x) := by
  obtain ⟨i, hi, task, one⟩ := shown.showsTask (wf.clients.live e x hx)
  obtain ⟨j, hj, client⟩ := one.clients.shows (mem_entriesOf.mpr ⟨hx, rfl⟩)
  exact ⟨_, ⟨i, hi, j, by rw [one.clientsCount]; exact Int.ofNat_lt.mpr hj, rfl⟩, client⟩

theorem RegistryShown.showsServer {data : StRegTasks} (wf : Wf s) (shown : RegistryShown s data) {e : Ptr}
    {x : ServersList} (hx : s.serversEntries.get? e = some x) :
    ∃ st, data.ReportsServer st ∧ ServerShown s st (e, x) := by
  obtain ⟨i, hi, task, one⟩ := shown.showsTask (wf.servers.live e x hx)
  obtain ⟨j, hj, server⟩ := one.servers.shows (mem_entriesOf.mpr ⟨hx, rfl⟩)
  exact ⟨_, ⟨i, hi, j, by rw [one.serversCount]; exact Int.ofNat_lt.mpr hj, rfl⟩, server⟩

theorem linked_of_shown {st : StClient} {y : Ptr × ClientsList} (h : Settled s) (shown : ClientShown s st y) :
    s.hub.clients st.id ≠ none ∧ st.srvId = (s.hub.links st.id).elim (-1) Prod.fst := by
  obtain ⟨cli, hcli, hid, idle, busy⟩ := shown.client
  obtain ⟨t, registers⟩ := h.registers hcli
  have hk : findClientById s cli.id = some y.2.client := (h.valid.unambiguous.client _ _).mpr (idOf_client hcli)
  rw [hid]
  refine ⟨by simp [(hub_clients h).mpr registers], ?_⟩
  cases hp : cli.connP with
  | none => rw [links_idle h hk hcli hp, idle hp, Option.elim_none]
  | some p =>
    obtain ⟨q, hq, hc, _⟩ := parties_of_client h hk hcli hp
    obtain ⟨con, k, w, m, sides⟩ := sides_of_parties hq
    obtain ⟨con', w', srv, hcon, hw, hsrv, same⟩ := busy p hp
    cases sides.conn.symm.trans hcon
    cases sides.serverP.symm.trans hw
    rw [← hc, links_of_parties h hq, Option.elim_some, same]
    exact Option.some.inj ((idOf_server hsrv).symm.trans sides.server)

theorem linked_of_conns {st : StServer} {y : Ptr × ServersList} (h : Settled s) (shown : ServerShown s st y)
    {i : Fin maxClientsPerServer} (hi : (i.val : Int) < st.connCount) :
    ∃ x, s.hub.links (st.connIds i) = some (st.id, x) := by
  obtain ⟨srv, hsrv, hid, _⟩ := shown.server
  rw [shown.count] at hi
  obtain ⟨⟨e, z⟩, listed, con, k, cli, hcon, hk, hcli, hc⟩ := shown.conns.counted (Int.ofNat_lt.mp hi)
  obtain ⟨hz, own⟩ := mem_connectionList.mp (List.mem_of_mem_take listed)
  obtain ⟨con', hcon', hw⟩ := h.whole.wf.links.entryConn e z hz
  cases hcon.symm.trans hcon'
  obtain ⟨q, hq⟩ := h.parties hcon
  obtain ⟨con', k', w, m, sides⟩ := sides_of_parties hq
  cases hcon.symm.trans sides.conn
  cases hk.symm.trans sides.clientP
  cases hw.symm.trans sides.serverP
  have client : q.clientId = st.connIds i := by
    rw [hc]
    exact Option.some.inj (sides.client.symm.trans (idOf_client hcli))
  have server : q.serverId = st.id := by
    rw [hid]
    exact Option.some.inj (sides.server.symm.trans (own ▸ idOf_server hsrv))
  exact ⟨q.subMemId, by rw [← client, links_of_parties h hq, server]⟩

theorem hub_pictured {data : StRegTasks} (h : Settled s) (shown : RegistryShown s data) : s.hub.Pictured data := by
  refine ⟨fun c v => ⟨fun reported => ?_, ?_⟩, fun st reported => ?_, fun v known => ?_⟩
  · obtain ⟨y, client⟩ := shown.client reported
    exact linked_of_shown h client
  · rintro ⟨known, rfl⟩
    obtain ⟨t, own⟩ := Option.ne_none_iff_exists'.mp known
    obtain ⟨e, x, hx, ht, hid⟩ := (hub_clients h).mp own
    obtain ⟨⟨c', v⟩, reported, client⟩ := shown.showsClient h.whole.wf hx
    obtain ⟨cli, hcli, rfl, _⟩ := client.client
    cases (idOf_client hcli).symm.trans hid
    have linked := (linked_of_shown h client).2
    exact linked ▸ reported
  · obtain ⟨y, server⟩ := shown.server reported
    refine ⟨?_, fun i hi => linked_of_conns h server hi⟩
    obtain ⟨srv, hsrv, hid, hn⟩ := server.server
    obtain ⟨t, offers⟩ := h.offers hsrv
    exact ⟨t, srv.name, hid ▸ (hub_servers h).mpr offers, hn⟩
  · obtain ⟨⟨t, n⟩, own⟩ := Option.ne_none_iff_exists'.mp known
    obtain ⟨e, x, srv, hx, ht, hsrv, rfl, rfl⟩ := (hub_servers h).mp own
    obtain ⟨st, reported, server⟩ := shown.showsServer h.whole.wf hx
    obtain ⟨srv', hsrv', hid, _⟩ := server.server
    cases hsrv.symm.trans hsrv'
    exact ⟨st, reported, hid⟩

theorem hub_ipcRead {count : Nat} (h : Settled s) (reach : Reachable s) (succeeds : K.Succeeds)
    (file : s.files.get? f = some t) (hs : ipcRead K s f count = .ok (r, s')) :
    Settled s' ∧ s.hub.ServesRead t count r s'.hub := by
  obtain ⟨task, ht⟩ := Table.mem_keys.mp (h.whole.wf.files.live f t file)
  have party : s.hub.parties t = some task.party := by simp [Drv.hub, ht]
  simp only [ipcRead, file, deref_of_get? ht, ok_bind] at hs
  split at hs
  next watches =>
    have watches : task.party.watches = true := decide_eq_true watches
    split at hs
    next small =>
      obtain ⟨rfl, rfl⟩ := returns_ok hs
      refine ⟨h, task.party, party, ?_⟩
      rw [if_pos watches, if_pos small]
      exact ⟨rfl, by decide⟩
    next large =>
      split at hs
      next => cases hs
      next =>
        obtain ⟨data, hdata, hs⟩ := bind_eq_ok.mp hs
        obtain ⟨data', hdata', shown⟩ := regTaskGetData_shows h.whole reach.limits K.garbage
        cases hdata.symm.trans hdata'
        simp only [succeeds.copyToUser, Bool.not_true, Bool.false_eq_true, if_false] at hs
        cases hs
        refine ⟨h, task.party, party, ?_⟩
        rw [if_pos watches, if_neg large]
        exact ⟨rfl, data, rfl, hub_pictured h shown⟩
  next plain =>
    have plain : task.party.watches = false := decide_eq_false plain
    split at hs
    next empty =>
      obtain ⟨rfl, rfl⟩ := returns_ok hs
      have empty : task.party.mail = [] := empty
      refine ⟨h, task.party, party, ?_⟩
      simp only [plain, Bool.false_eq_true, if_false, empty]
      exact ⟨by decide, rfl⟩
    next d ds queue =>
      have he : s.event (.dequeue t) (s.apply (.dequeue t)) := ⟨⟨task, d, ds, ht, queue⟩, rfl⟩
      have h' := h.event he trivial (by simp [Event.newIds])
      have mail : task.party.mail = d :: ds := queue
      split at hs
      next small =>
        obtain ⟨rfl, rfl⟩ := returns_ok hs
        refine ⟨h', task.party, party, ?_⟩
        simp only [plain, Bool.false_eq_true, if_false, mail]
        exact ⟨hub_dequeue he, by rw [if_pos small]; decide⟩
      next large =>
        simp only [succeeds.copyToUser, Bool.not_true, Bool.false_eq_true, if_false] at hs
        cases hs
        refine ⟨h', task.party, party, ?_⟩
        simp only [plain, Bool.false_eq_true, if_false, mail]
        exact ⟨hub_dequeue he, by rw [if_neg large]; trivial⟩

end Ripc
