import Ripc.DriverProvided
import Ripc.MonitorSnapshot
import Ripc.Filled

namespace Ripc

/-- The id of the client whose connection stands on a server's list. -/
def ConnShown (s : Drv) (id : Int) (y : Ptr × ServConnList) : Prop :=
  ∃ c k cli, s.gConnsList.get? y.2.conn = some c ∧ c.clientP = some k ∧ s.gClientsList.get? k = some cli ∧ id = cli.id

/-- The part of a server's list that has room in the snapshot. -/
def Drv.shownConns (s : Drv) (v : Ptr) : List (Ptr × ServConnList) := (s.connectionList v).take maxClientsPerServer

structure ServerShown (s : Drv) (st : StServer) (y : Ptr × ServersList) : Prop where
  server : ∃ srv, s.gServersList.get? y.2.server = some srv ∧ st.id = srv.id ∧ st.name = nameBytes srv.name
  count : st.connCount = (s.shownConns y.2.server).length
  conns : Filled (ConnShown s) st.connIds (s.shownConns y.2.server)

/-- A client with the server that it is connected to. -/
structure ClientShown (s : Drv) (st : StClient) (y : Ptr × ClientsList) : Prop where
  client : ∃ cli, s.gClientsList.get? y.2.client = some cli ∧ st.id = cli.id ∧ (cli.connP = none → st.srvId = -1) ∧
    ∀ p, cli.connP = some p → ∃ c v srv, s.gConnsList.get? p = some c ∧ c.serverP = some v ∧
      s.gServersList.get? v = some srv ∧ st.srvId = srv.id

structure TaskShown (s : Drv) (st : StTask) (y : Ptr × RegTask) : Prop where
  pid : st.pid = y.2.taskP.pid
  serversCount : st.serversCount = (s.serversOf y.1).length
  servers : Filled (ServerShown s) st.servers (s.serversOf y.1)
  clientsCount : st.clientsCount = (s.clientsOf y.1).length
  clients : Filled (ClientShown s) st.clients (s.clientsOf y.1)

structure RegistryShown (s : Drv) (data : StRegTasks) : Prop where
  count : data.tasksCount = s.gRegTaskList.keys.length
  tasks : Filled (TaskShown s) data.tasks s.gRegTaskList.entries

section

variable {s : Drv} {α : Type} {n : Nat}

theorem writeAt_room {xs : Fin n → α} {i : Nat} {a : α} (room : i < n) :
    writeAt xs i a = .ok fun j => if j.val = i then a else xs j := if_pos room

theorem connIdsLoop_fills (wf : Wf s) {rest done : List (Ptr × ServConnList)} {ids : Fin maxClientsPerServer → Int}
    (linked : ∀ y ∈ rest, s.servConns.get? y.1 = some y.2) (filled : Filled (ConnShown s) ids done) :
    ∃ out, connIdsLoop s rest done.length ids = .ok (((done ++ rest).take maxClientsPerServer).length, out) ∧
      Filled (ConnShown s) out ((done ++ rest).take maxClientsPerServer) := by
  induction rest generalizing done ids with
  | nil =>
    have all : (done ++ []).take maxClientsPerServer = done := by
      rw [List.append_nil, List.take_of_length_le filled.room]
    rw [all]
    exact ⟨ids, rfl, filled⟩
  | cons y rest ih =>
    obtain ⟨c, hc, _⟩ := wf.links.entryConn _ _ (linked y List.mem_cons_self)
    obtain ⟨⟨k, hk⟩, _⟩ := wf.links.connFull _ c hc
    obtain ⟨cli, hcli, _⟩ := wf.links.connClient _ c k hc hk
    simp only [connIdsLoop, deref_of_get? hc, ok_bind, hk]
    split
    next full =>
      have all : (done ++ y :: rest).take maxClientsPerServer = done := by
        have level : done.length = maxClientsPerServer := Nat.le_antisymm filled.room full
        rw [← level, List.take_left]
      rw [all]
      exact ⟨ids, rfl, filled⟩
    next room =>
      have room : done.length < maxClientsPerServer := Nat.lt_of_not_le room
      simp only [deref_of_get? hcli, ok_bind, writeAt_room room]
      have next := ih (fun y hy => linked y (List.mem_cons_of_mem _ hy))
        (filled.write room (a := cli.id) ⟨c, k, cli, hc, hk, hcli, rfl⟩)
      simpa only [List.length_append, List.length_singleton, List.append_assoc, List.singleton_append] using next

theorem serverGetData_shows (wf : Wf s) {y : Ptr × ServersList} (live : y.2.server ∈ s.gServersList.keys)
    (dest : StServer) :
    ∃ data, serverGetData s y.2.server dest = .ok data ∧ ServerShown s data y := by
  obtain ⟨srv, hsrv⟩ := Table.mem_keys.mp live
  have collect : ∃ out, connIdsLoop s (s.connectionList y.2.server) 0 dest.connIds =
      .ok ((s.shownConns y.2.server).length, out) ∧ Filled (ConnShown s) out (s.shownConns y.2.server) :=
    connIdsLoop_fills wf (fun z hz => (mem_connectionList.mp hz).1) .nil
  obtain ⟨out, loop, filled⟩ := collect
  refine ⟨⟨srv.id, nameBytes srv.name, out, (s.shownConns y.2.server).length⟩, ?_, ⟨srv, hsrv, rfl, rfl⟩, rfl, filled⟩
  simp only [serverGetData, deref_of_get? hsrv, ok_bind, loop]

theorem clientGetData_shows (h : Whole s) {y : Ptr × ClientsList} (live : y.2.client ∈ s.gClientsList.keys) :
    ∃ data, clientGetData s y.2.client = .ok data ∧ ClientShown s data y := by
  obtain ⟨cli, hcli⟩ := Table.mem_keys.mp live
  simp only [clientGetData, deref_of_get? hcli, ok_bind]
  cases hp : cli.connP with
  | none =>
    refine ⟨⟨cli.id, -1⟩, rfl, cli, hcli, rfl, fun _ => rfl, fun p hp' => ?_⟩
    rw [hp] at hp'
    cases hp'
  | some p =>
    obtain ⟨c, hc, _⟩ := h.consistent.clientConn _ cli p hcli hp
    obtain ⟨v, hv, served, _⟩ := h.consistent.server p c hc
    obtain ⟨srv, hsrv⟩ := Table.mem_keys.mp served
    simp only [deref_of_get? hc, ok_bind, hv, deref_of_get? hsrv]
    refine ⟨⟨cli.id, srv.id⟩, rfl, cli, hcli, rfl, fun idle => ?_, fun q hq => ?_⟩
    · rw [hp] at idle
      cases idle
    · cases hp.symm.trans hq
      exact ⟨c, v, srv, hc, hv, hsrv, rfl⟩

theorem serversDataLoop_fills (wf : Wf s) {rest done : List (Ptr × ServersList)}
    {dest : Fin maxServersPerPid → StServer}
    (live : ∀ y ∈ rest, y.2.server ∈ s.gServersList.keys) (filled : Filled (ServerShown s) dest done)
    (room : (done ++ rest).length ≤ maxServersPerPid) :
    ∃ out, serversDataLoop s rest done.length dest = .ok ((done ++ rest).length, out) ∧
      Filled (ServerShown s) out (done ++ rest) := by
  refine filled.loop (fun _ _ => rfl) (fun y hy more i dest inside => ?_) room
  obtain ⟨data, hdata, shown⟩ := serverGetData_shows wf (live y hy) (dest ⟨i, inside⟩)
  refine ⟨data, shown, ?_⟩
  simp only [serversDataLoop, readAt_eq_ok.mpr ⟨inside, rfl⟩, ok_bind, hdata, writeAt_room inside]

theorem clientsDataLoop_fills (h : Whole s) {rest done : List (Ptr × ClientsList)}
    {dest : Fin maxClientsPerPid → StClient}
    (live : ∀ y ∈ rest, y.2.client ∈ s.gClientsList.keys) (filled : Filled (ClientShown s) dest done)
    (room : (done ++ rest).length ≤ maxClientsPerPid) :
    ∃ out, clientsDataLoop s rest done.length dest = .ok ((done ++ rest).length, out) ∧
      Filled (ClientShown s) out (done ++ rest) := by
  refine filled.loop (fun _ _ => rfl) (fun y hy more i dest inside => ?_) room
  obtain ⟨data, hdata, shown⟩ := clientGetData_shows h (live y hy)
  refine ⟨data, shown, ?_⟩
  simp only [clientsDataLoop, ok_bind, hdata, writeAt_room inside]

theorem taskGetData_shows (h : Whole s) (limits : Limits s) {y : Ptr × RegTask} (live : y.1 ∈ s.gRegTaskList.keys)
    (dest : StTask) : ∃ data, taskGetData s y dest = .ok data ∧ TaskShown s data y := by
  have servers : ∀ z ∈ s.serversOf y.1, z.2.server ∈ s.gServersList.keys := by
    intro z hz
    exact h.consistent.serversEntry z.1 z.2 (Table.get?_eq_some.mpr (List.mem_filter.mp hz).1)
  have clients : ∀ z ∈ s.clientsOf y.1, z.2.client ∈ s.gClientsList.keys := by
    intro z hz
    exact h.consistent.clientsEntry z.1 z.2 (Table.get?_eq_some.mpr (List.mem_filter.mp hz).1)
  have collectServers : ∃ out, serversDataLoop s (s.serversOf y.1) 0 dest.servers =
      .ok ((s.serversOf y.1).length, out) ∧ Filled (ServerShown s) out (s.serversOf y.1) :=
    serversDataLoop_fills h.wf servers .nil (limits.members y.1 live .server)
  have collectClients : ∃ out, clientsDataLoop s (s.clientsOf y.1) 0 dest.clients =
      .ok ((s.clientsOf y.1).length, out) ∧ Filled (ClientShown s) out (s.clientsOf y.1) :=
    clientsDataLoop_fills h clients .nil (limits.members y.1 live .client)
  obtain ⟨outServers, loopServers, filledServers⟩ := collectServers
  obtain ⟨outClients, loopClients, filledClients⟩ := collectClients
  refine ⟨⟨y.2.taskP.pid, outClients, outServers, (s.clientsOf y.1).length, (s.serversOf y.1).length⟩, ?_, rfl, rfl,
    filledServers, rfl, filledClients⟩
  simp only [taskGetData, loopServers, loopClients, ok_bind]

theorem tasksDataLoop_fills (h : Whole s) (limits : Limits s) {rest done : List (Ptr × RegTask)}
    {dest : Fin maxProcesses → StTask} (live : ∀ y ∈ rest, y.1 ∈ s.gRegTaskList.keys)
    (filled : Filled (TaskShown s) dest done) (room : (done ++ rest).length ≤ maxProcesses) :
    ∃ out, tasksDataLoop s rest done.length dest = .ok ((done ++ rest).length, out) ∧
      Filled (TaskShown s) out (done ++ rest) := by
  refine filled.loop (fun _ _ => rfl) (fun y hy more i dest inside => ?_) room
  have below : ¬i ≥ maxProcesses := by omega
  obtain ⟨data, hdata, shown⟩ := taskGetData_shows h limits (live y hy) (dest ⟨i, inside⟩)
  refine ⟨data, shown, ?_⟩
  simp only [tasksDataLoop, if_neg below, readAt_eq_ok.mpr ⟨inside, rfl⟩, ok_bind, hdata, writeAt_room inside]

theorem regTaskGetData_shows (h : Whole s) (limits : Limits s) (old : StRegTasks) :
    ∃ data, regTaskGetData s old = .ok data ∧ RegistryShown s data := by
  have length : s.gRegTaskList.keys.length = s.gRegTaskList.entries.length := List.length_map _
  have room := limits.tasks
  rw [length] at room
  have collect : ∃ out, tasksDataLoop s s.gRegTaskList.entries 0 old.tasks =
      .ok (s.gRegTaskList.entries.length, out) ∧ Filled (TaskShown s) out s.gRegTaskList.entries :=
    tasksDataLoop_fills h limits (fun y hy => List.mem_map_of_mem hy) .nil room
  obtain ⟨out, loop, filled⟩ := collect
  refine ⟨⟨out, s.gRegTaskList.entries.length⟩, ?_, by rw [length], filled⟩
  simp only [regTaskGetData, loop, ok_bind]

end

def StRegTasks.ReportsServer (data : StRegTasks) (st : StServer) : Prop :=
  ∃ i : Fin maxProcesses, i.val < data.tasksCount ∧ ∃ j : Fin maxServersPerPid, j.val < (data.tasks i).serversCount ∧
    (data.tasks i).servers j = st

def StRegTasks.ReportsClient (data : StRegTasks) (st : StClient) : Prop :=
  ∃ i : Fin maxProcesses, i.val < data.tasksCount ∧ ∃ j : Fin maxClientsPerPid, j.val < (data.tasks i).clientsCount ∧
    (data.tasks i).clients j = st

/-- Every registered server and client stands on the list of one task. -/
structure Enrolled (s : Drv) : Prop where
  server : ∀ v ∈ s.gServersList.keys, ∃! t, t ∈ s.gRegTaskList.keys ∧
    ∃! e, ∃ x, (e, x) ∈ s.serversOf t ∧ x.server = v
  client : ∀ k ∈ s.gClientsList.keys, ∃! t, t ∈ s.gRegTaskList.keys ∧
    ∃! e, ∃ x, (e, x) ∈ s.clientsOf t ∧ x.client = k

section

variable {s : Drv}

theorem mem_entriesOf {β : Type} {entries : Table β} {owner : β → Ptr} {t e : Ptr} {x : β} :
    (e, x) ∈ entries.entries.filter (fun y => owner y.2 = t) ↔ entries.get? e = some x ∧ owner x = t := by
  simp [Table.get?_eq_some]

theorem Owned.enrolled {α β : Type} {objs : Table α} {taskP : α → Option Ptr} {entries : Table β} {obj owner : β → Ptr}
    {tasks : List Ptr} (h : Owned objs taskP entries obj owner tasks) {k : Ptr} {o : α} (ho : objs.get? k = some o)
    (owned : taskP o ≠ none) : ∃! t, t ∈ tasks ∧
      ∃! e, ∃ x, (e, x) ∈ entries.entries.filter (fun y => owner y.2 = t) ∧ obj x = k := by
  obtain ⟨e, he⟩ := Option.ne_none_iff_exists'.mp owned
  obtain ⟨x, hx, hk⟩ := h.entry k o e ho he
  have only : ∀ e' x', entries.get? e' = some x' → obj x' = k → e' = e := by
    rintro e' x' hx' rfl
    obtain ⟨o', ho', he'⟩ := h.object e' x' _ hx' rfl
    cases ho.symm.trans ho'
    exact Option.some.inj (he'.symm.trans he)
  refine ⟨owner x, ⟨h.live e x hx, e, ⟨x, mem_entriesOf.mpr ⟨hx, rfl⟩, Option.some.inj hk⟩, ?_⟩, ?_⟩
  · rintro e' ⟨x', hx', hk'⟩
    exact only e' x' (mem_entriesOf.mp hx').1 hk'
  · rintro t ⟨_, e', ⟨x', listed, hk'⟩, _⟩
    obtain ⟨hx', ht⟩ := mem_entriesOf.mp listed
    cases only e' x' hx' hk'
    cases hx.symm.trans hx'
    exact ht.symm

theorem Provided.enrolled (h : Provided s) : Enrolled s := by
  constructor
  · intro v hv
    obtain ⟨srv, hsrv⟩ := Table.mem_keys.mp hv
    exact h.whole.wf.servers.enrolled hsrv (h.manned.servers v srv hsrv)
  · intro k hk
    obtain ⟨cli, hcli⟩ := Table.mem_keys.mp hk
    exact h.whole.wf.clients.enrolled hcli (h.manned.clients k cli hcli)

theorem RegistryShown.task {data : StRegTasks} (shown : RegistryShown s data) {i : Fin maxProcesses}
    (hi : i.val < data.tasksCount) : ∃ y, TaskShown s (data.tasks i) y := by
  have length : s.gRegTaskList.keys.length = s.gRegTaskList.entries.length := List.length_map _
  rw [shown.count, length] at hi
  obtain ⟨y, _, task⟩ := shown.tasks.counted (Int.ofNat_lt.mp hi)
  exact ⟨y, task⟩

theorem RegistryShown.server {data : StRegTasks} (shown : RegistryShown s data) {st : StServer}
    (hst : data.ReportsServer st) : ∃ y, ServerShown s st y := by
  obtain ⟨i, hi, j, hj, rfl⟩ := hst
  obtain ⟨y, task⟩ := shown.task hi
  rw [task.serversCount] at hj
  obtain ⟨z, _, server⟩ := task.servers.counted (Int.ofNat_lt.mp hj)
  exact ⟨z, server⟩

theorem RegistryShown.client {data : StRegTasks} (shown : RegistryShown s data) {st : StClient}
    (hst : data.ReportsClient st) : ∃ y, ClientShown s st y := by
  obtain ⟨i, hi, j, hj, rfl⟩ := hst
  obtain ⟨y, task⟩ := shown.task hi
  rw [task.clientsCount] at hj
  obtain ⟨z, _, client⟩ := task.clients.counted (Int.ofNat_lt.mp hj)
  exact ⟨z, client⟩

/-- The list of a server and the clients agree about who is connected to it. -/
theorem RegistryShown.agree (h : Provided s) {data : StRegTasks} (shown : RegistryShown s data) {v : Ptr}
    {st : StServer} {cl : StClient} (hst : data.ReportsServer st) (hcl : data.ReportsClient cl)
    (hv : s.idOf (.server v) = some st.id)
    (fits : (s.connectionList v).length ≤ maxClientsPerServer) :
    cl.srvId = st.id ↔ ∃ n : Fin maxClientsPerServer, n.val < st.connCount ∧ st.connIds n = cl.id := by
  have links := h.whole.wf.links
  obtain ⟨y, ⟨srv, hsrv, hid, _⟩, count, conns⟩ := shown.server hst
  obtain ⟨⟨f, z⟩, cli, hcli, hcid, idle, busy⟩ := shown.client hcl
  have server : ∀ {w srv'}, s.gServersList.get? w = some srv' → srv'.id = st.id → w = v := by
    intro w srv' hw hsame
    have holder : s.idOf (.server w) = some st.id := hsame ▸ idOf_server hw
    exact Holder.server.inj (h.valid.unique _ _ _ holder hv)
  obtain rfl := server hsrv hid.symm
  rw [Drv.shownConns, List.take_of_length_le fits] at conns count
  constructor
  · intro same
    cases hp : cli.connP with
    | none =>
      have low := (h.valid.range _ _ hv).1
      rw [← same, idle hp] at low
      omega
    | some p =>
      obtain ⟨c, w, srv', hc, hw, hsrv', hsame⟩ := busy p hp
      obtain rfl := server hsrv' (hsame.symm.trans same)
      obtain ⟨w', hw', _, e, ⟨x, hx, hxp⟩, _⟩ := h.whole.consistent.server p c hc
      cases hw.symm.trans hw'
      obtain ⟨n, hn, c', k', cli', hc', hk', hcli', hshown⟩ := conns.shows hx
      obtain ⟨c₀, hc₀, hk⟩ := links.clientConn _ _ p hcli hp
      rw [hxp] at hc'
      cases hc.symm.trans hc'
      cases hc.symm.trans hc₀
      cases hk.symm.trans hk'
      cases hcli.symm.trans hcli'
      exact ⟨n, count ▸ Int.ofNat_lt.mpr hn, hshown.trans hcid.symm⟩
  · rintro ⟨n, hn, hshown⟩
    rw [count] at hn
    obtain ⟨⟨e, x⟩, hx, c, k, cli', hc, hk, hcli', hconn⟩ := conns.counted (Int.ofNat_lt.mp hn)
    have own : k = z.client := by
      have holder : s.idOf (.client k) = some cl.id := by rw [idOf_client hcli', ← hconn, hshown]
      have holder' : s.idOf (.client z.client) = some cl.id := hcid ▸ idOf_client hcli
      exact Holder.client.inj (h.valid.unique _ _ _ holder holder')
    subst own
    obtain ⟨cli₀, hcli₀, hp⟩ := links.connClient _ c _ hc hk
    cases hcli.symm.trans hcli₀
    obtain ⟨c', w, srv', hc', hw, hsrv', hsame⟩ := busy _ hp
    cases hc.symm.trans hc'
    obtain ⟨c₀, hc₀, hv₀⟩ := h.whole.consistent.serverConn _ e x hx
    cases hc.symm.trans hc₀
    cases hw.symm.trans hv₀
    cases hsrv.symm.trans hsrv'
    rw [hsame, hid]

end

/-- Whatever its memory held before, a snapshot stays within its arrays, reports exactly the registry and reports each
connection on both sides. -/
theorem snapshot_exact {calls : List Call} {s : Drv}
    (run : Trace (fun s call s' => call.Provided s ∧ Returns s call s') Drv.init calls s) (old : StRegTasks) :
    ∃ data, regTaskGetData s old = .ok data ∧ RegistryShown s data ∧ Enrolled s ∧
      ∀ v st cl, data.ReportsServer st → data.ReportsClient cl → s.idOf (.server v) = some st.id →
        (s.connectionList v).length ≤ maxClientsPerServer →
        (cl.srvId = st.id ↔ ∃ n : Fin maxClientsPerServer, n.val < st.connCount ∧ st.connIds n = cl.id) := by
  have h := Provided.run run
  have reachable : Reachable s := ⟨calls, run.mono fun _ _ _ _ hs => hs.2⟩
  obtain ⟨data, hdata, shown⟩ := regTaskGetData_shows h.whole reachable.limits old
  exact ⟨data, hdata, shown, h.enrolled, fun v st cl => shown.agree h⟩

theorem snapshot_exact_two : ∃ s data, Trace (fun s call s' => call.Provided s ∧ Returns s call s') Drv.init
    twoConnections s ∧ regTaskGetData s (Kernel.plenty ⟨1, 1⟩).garbage = .ok data ∧ RegistryShown s data ∧
    data.tasksCount = 3 ∧ s.gClientsList.keys = [1, 2] := by
  have facts : ∃ s, Trace (fun s call s' => call.Provided s ∧ Returns s call s') Drv.init twoConnections s ∧
      (s.gRegTaskList.keys.length = 3 ∧ s.gClientsList.keys = [1, 2]) :=
    provided_check twoConnections_plenty (by decide)
  obtain ⟨s, run, tasks, clients⟩ := facts
  obtain ⟨data, hdata, shown, _⟩ := snapshot_exact run (Kernel.plenty ⟨1, 1⟩).garbage
  exact ⟨s, data, run, hdata, shown, by rw [shown.count, tasks]; rfl, clients⟩

end Ripc
