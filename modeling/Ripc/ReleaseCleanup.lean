import Ripc.DriverEmptied
import Ripc.DriverRuns

namespace Ripc

/-- All that task `t` has brought into the driver is gone, and what others brought is there. -/
structure CleanedUp (s : Drv) (t : Ptr) (s' : Drv) : Prop where
  tasks : s'.gRegTaskList.keys = s.gRegTaskList.keys.filter (· ≠ t)
  count : s'.gRegTaskCount = s.gRegTaskCount - 1
  servers : ∀ e x srv, s.serversEntries.get? e = some x → x.regTask = t →
    s.gServersList.get? x.server = some srv → s'.gServersList.get? x.server = none ∧ srv.id ∉ s'.gIdGen
  clients : ∀ e x cli, s.clientsEntries.get? e = some x → x.regTask = t →
    s.gClientsList.get? x.client = some cli → s'.gClientsList.get? x.client = none ∧ cli.id ∉ s'.gIdGen
  conns : ∀ p c, s.gConnsList.get? p = some c → s.Touches t c → s'.gConnsList.get? p = none ∧
    ∀ m, c.memP = some m → ∃ sub, s'.subMem? m = some sub ∧ sub.connP = none
  otherServers : ∀ v srv, s.gServersList.get? v = some srv → ¬s.OwnsServer t v →
    s'.gServersList.get? v = some srv
  otherClients : ∀ k cli, s.gClientsList.get? k = some cli → ¬s.OwnsClient t k →
    ∃ cli', s'.gClientsList.get? k = some cli' ∧ cli'.id = cli.id ∧ cli'.taskP = cli.taskP

variable {K : Kernel} {s s' a b : Drv} {t filp : Ptr} {task : RegTask} {r : Reply}

theorem Cleaning.freed (clean : Cleaning s a) (wf : Wf s) {p : Ptr} {c : Connection} {m : SubMemPtr}
    (hc : s.gConnsList.get? p = some c) (hm : c.memP = some m) (gone : a.gConnsList.get? p = none) :
    ∃ sub, a.subMem? m = some sub ∧ sub.connP = none := by
  obtain ⟨sub, hsub, hp⟩ := wf.links.connMem p c m hc hm
  obtain ⟨sub', hsub', back⟩ := clean.subMem hsub
  refine ⟨sub', hsub', ?_⟩
  by_contra hne
  obtain ⟨q, hq⟩ := Option.ne_none_iff_exists'.mp hne
  obtain ⟨c', hc', _⟩ := clean.wf.links.memConn m sub' q hsub' hq
  cases hp.symm.trans (back q hq)
  rw [gone] at hc'
  cases hc'

/-- What a release leaves when it runs to its end and every connection of the task can be deleted. -/
theorem regTaskDelete_cleansUp (wf : Wf s) (valid : UsedValid s) (ht : s.gRegTaskList.get? t = some task)
    (alive : K.pidAlive task.taskP = true)
    (can : ∀ p c, s.gConnsList.get? p = some c → s.Touches t c → Severable s t p c)
    (h : regTaskDelete K s t = .ok s') : CleanedUp s t s' := by
  obtain ⟨b, a, severing, so, dropping, noServers, noClients, rfl⟩ := regTaskDelete_loops ht alive wf valid h
  have clean := severing.clean
  have torn := clean.torn
  refine ⟨?_, ?_, ?_, ?_, ?_, ?_, ?_⟩
  · rw [Table.keys_erase, dropping.tasks, torn.tasks]
  · rw [dropping.count, clean.frame.1]
  · intro e x srv hx hxt hsrv
    exact (dropping.servers.gone e x srv (torn.serversEntries ▸ hx) hxt (torn.servers ▸ hsrv)).resolve_left
      fun left => noServers e x left hxt
  · intro e x cli hx hxt hcli
    obtain ⟨cli', hcli', hid, _⟩ := torn.clients _ cli hcli
    have gone := dropping.clients.gone e x cli' (torn.clientsEntries ▸ hx) hxt hcli'
    exact hid ▸ gone.resolve_left fun left => noClients e x left hxt
  · intro p c hc touch
    have gone := so.severed clean hc wf touch (can p c hc touch)
    refine ⟨dropping.conns ▸ gone, fun m hm => ?_⟩
    simp only [Drv.subMem?, dropping.pools]
    exact clean.freed wf hc hm gone
  · intro v srv hsrv alone
    refine dropping.servers.others v srv (torn.servers ▸ hsrv) fun e x hx hxt hv => ?_
    exact alone ⟨e, x, torn.serversEntries ▸ hx, hxt, hv⟩
  · intro k cli hcli alone
    obtain ⟨cli', hcli', hid, htask, _⟩ := torn.clients k cli hcli
    refine ⟨cli', dropping.clients.others k cli' hcli' fun e x hx hxt hk => ?_, hid, htask⟩
    exact alone ⟨e, x, torn.clientsEntries ▸ hx, hxt, hk⟩

/-- The early exit: when the thread behind the task is gone, everything stays. -/
theorem regTaskDelete_dead (ht : s.gRegTaskList.get? t = some task) (dead : K.pidAlive task.taskP = false) :
    regTaskDelete K s t = .ok s := by
  simp [regTaskDelete, deref_of_get? ht, dead]

/-- A release is complete exactly when the thread that opened the file is alive and every connection of
the task can be deleted. -/
theorem release_complete (reach : Reachable s) (hf : s.files.get? filp = some t)
    (ht : s.gRegTaskList.get? t = some task) :
    (∃ r s', ipcRelease K s filp = .ok (r, s') ∧ CleanedUp s t s') ↔
      K.pidAlive task.taskP = true ∧
        ∀ p c, s.gConnsList.get? p = some c → s.Touches t c → Severable s t p c := by
  have wf := reach.wf
  simp only [ipcRelease, hf]
  constructor
  · rintro ⟨r, s', h, clean⟩
    obtain ⟨s₁, hd, h⟩ := bind_eq_ok.mp h
    cases h
    have alive : K.pidAlive task.taskP = true := by
      by_contra dead
      rw [regTaskDelete_dead ht (by simpa using dead)] at hd
      cases hd
      have kept := Table.mem_keys.mpr ⟨task, ht⟩
      rw [clean.tasks] at kept
      simp at kept
    obtain ⟨b, a, severing, _, dropping, _, _, rfl⟩ := regTaskDelete_loops ht alive wf reach.usedValid hd
    refine ⟨alive, fun p c hc touch => (severing.kept p c hc).resolve_left fun left => ?_⟩
    have gone : a.gConnsList.get? p = none := (clean.conns p c hc touch).1
    rw [dropping.conns, left] at gone
    cases gone
  · rintro ⟨alive, can⟩
    cases hd : regTaskDelete K s t with
    | error e =>
      obtain ⟨p, c, hc, touch, fault⟩ := regTaskDelete_error wf ht hd
      have severable := can p c hc touch
      rcases fault with ⟨_, alone⟩ | ⟨_, lost⟩
      · exact absurd alone severable.owned
      · exact absurd lost severable.live
    | ok s₁ =>
      have clean := regTaskDelete_cleansUp wf reach.usedValid ht alive can hd
      exact ⟨_, _, rfl, { clean with }⟩

/-- The server of process 1 goes while a client is connected to it. -/
theorem release_complete_connected : ∃ s, Trace Returns Drv.init connectedRun s ∧
    ∃ r s', ipcRelease (.plenty ⟨1, 1⟩) s 1 = .ok (r, s') ∧ CleanedUp s 1 s' := by
  have facts : ∃ s, Trace Returns Drv.init connectedRun s ∧ s.files.get? 1 = some 1 ∧
      1 ∈ s.gRegTaskList.keys ∧ s.gConnsList.entries.map (fun e => (e.1, e.2.clientP, e.2.serverP)) =
        [(1, some 1, some 1)] ∧ (s.gServersList.get? 1).map Server.taskP = some (some 1) ∧
      (s.gClientsList.get? 1).map Client.taskP = some (some 1) ∧ s.servConns.get? 1 = some ⟨1, 1⟩ :=
    runCalls_check (by decide)
  obtain ⟨s, run, hfile, live, conns, server, client, entry⟩ := facts
  obtain ⟨task, ht⟩ := Table.mem_keys.mp live
  refine ⟨s, run, (release_complete ⟨_, run⟩ hfile ht).mpr ⟨rfl, fun p c hc _ => ?_⟩⟩
  have hc : (p, c.clientP, c.serverP) ∈ [(1, some 1, some 1)] :=
    conns ▸ List.mem_map.mpr ⟨(p, c), Table.get?_eq_some.mp hc, rfl⟩
  simp only [List.mem_singleton, Prod.mk.injEq] at hc
  obtain ⟨rfl, hk, hv⟩ := hc
  obtain ⟨srv, hsrv, hst⟩ := Option.map_eq_some_iff.mp server
  obtain ⟨cli, hcli, hct⟩ := Option.map_eq_some_iff.mp client
  refine ⟨?_, ?_, Or.inl ⟨1, _, entry, rfl⟩⟩
  · rintro (⟨v, srv', hv', hsrv', hnone⟩ | ⟨k, cli', hk', hcli', hnone⟩)
    · cases hv.symm.trans hv'
      cases hsrv.symm.trans hsrv'
      simp [hst] at hnone
    · cases hk.symm.trans hk'
      cases hcli.symm.trans hcli'
      simp [hct] at hnone
  · rintro ⟨v, hv', hlost⟩
    cases hv.symm.trans hv'
    simp [hsrv] at hlost

/-- A kernel in which the thread `gone` has exited. -/
def Kernel.without (current gone : TaskStruct) : Kernel :=
  { Kernel.plenty current with pidAlive := fun t => t ≠ gone }

/-- Another thread of the process closes the descriptor last: the task and its server stay. -/
theorem release_after_exit : ∃ s s', Trace Returns Drv.init registeredRun s ∧ s.files.get? 1 = some 1 ∧
    s.serversEntries.get? 1 = some ⟨1, 1⟩ ∧
    ipcRelease (.without ⟨4, 4⟩ ⟨1, 1⟩) s 1 = .ok (⟨0, .nothing⟩, s') ∧ s'.files.get? 1 = none ∧
    s'.gRegTaskList.keys = [2, 1] ∧ s'.gServersList.keys = [1] ∧ ¬CleanedUp s 1 s' := by
  have facts : ∃ s, Trace Returns Drv.init registeredRun s ∧ s.files.get? 1 = some 1 ∧
      s.serversEntries.get? 1 = some ⟨1, 1⟩ ∧ (s.gRegTaskList.get? 1).map RegTask.taskP = some ⟨1, 1⟩ ∧
      s.gRegTaskList.keys = [2, 1] ∧ s.gServersList.keys = [1] := runCalls_check (by decide)
  obtain ⟨s, run, hfile, hentry, htask, tasks, servers⟩ := facts
  obtain ⟨task, ht, hp⟩ := Option.map_eq_some_iff.mp htask
  refine ⟨s, { s with files := s.files.erase 1 }, run, hfile, hentry, ?_,
    by simp [Table.get?_erase], tasks, servers, fun clean => ?_⟩
  · have dead : (Kernel.without ⟨4, 4⟩ ⟨1, 1⟩).pidAlive task.taskP = false := by rw [hp]; decide
    simp only [ipcRelease, hfile, regTaskDelete_dead ht dead, ok_bind]
    rfl
  · have gone := clean.tasks
    simp [tasks] at gone

end Ripc
