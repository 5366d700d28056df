import Ripc.DriverLost
import Ripc.DriverRuns

namespace Ripc

/-- Every connection is on the list of a live server. -/
def Served (s : Drv) : Prop :=
  ∀ p c, s.gConnsList.get? p = some c → ∃ v e, c.serverP = some v ∧ v ∈ s.gServersList.keys ∧
    s.servConns.get? e = some ⟨p, v⟩

theorem Served.frame {s s' : Drv} (h : Served s)
    (conns : ∀ p c', s'.gConnsList.get? p = some c' → ∃ c, s.gConnsList.get? p = some c ∧ c'.serverP = c.serverP)
    (servers : ∀ v, v ∈ s.gServersList.keys → v ∈ s'.gServersList.keys)
    (entries : s'.servConns = s.servConns) : Served s' := by
  intro p c' hc'
  obtain ⟨c, hc, hsame⟩ := conns p c' hc'
  obtain ⟨v, e, hv, live, he⟩ := h p c hc
  exact ⟨v, e, hsame.trans hv, servers v live, entries ▸ he⟩

theorem Served.sameConns {s s' : Drv} (h : Served s) (conns : s'.gConnsList = s.gConnsList)
    (servers : ∀ v, v ∈ s.gServersList.keys → v ∈ s'.gServersList.keys)
    (entries : s'.servConns = s.servConns) : Served s' :=
  h.frame (fun _ c hc => ⟨c, conns ▸ hc, rfl⟩) servers entries

theorem Served.link {s : Drv} {p k v : Ptr} {m : SubMemPtr} {e : Option Ptr} (h : Served s)
    (ok : (Event.link p k v m e).Ok s) (complete : e ≠ none) : Served (s.link p k v m e) := by
  obtain ⟨fresh, _, live, _, freshEntry⟩ := ok
  obtain ⟨f, rfl⟩ := Option.ne_none_iff_exists'.mp complete
  have freshF := freshEntry f rfl
  intro q c hc
  rw [conns_link fresh] at hc
  split at hc
  next hq =>
    cases hc
    exact ⟨v, f, rfl, live, by rw [hq]; exact (servConns_link freshEntry).mpr (Or.inl ⟨rfl, rfl⟩)⟩
  next =>
    obtain ⟨w, g, hw, hlive, hg⟩ := h q c hc
    refine ⟨w, g, hw, hlive, (servConns_link freshEntry).mpr (Or.inr ⟨?_, hg⟩)⟩
    rintro ⟨rfl⟩
    exact freshF (Table.mem_keys.mpr ⟨_, hg⟩)

theorem Served.unlink {s : Drv} (h : Served s) (p : Ptr) : Served (s.unlink p) := by
  intro q c hc
  rw [conns_unlink] at hc
  split at hc
  next => cases hc
  next hne =>
    obtain ⟨v, e, hv, live, he⟩ := h q c hc
    exact ⟨v, e, hv, live, servConns_unlink.mpr ⟨he, hne⟩⟩

theorem Served.dropServer {s : Drv} {e : Ptr} {x : ServersList} {id : Int} (h : Served s)
    (ok : (Event.dropServer e x id).Ok s) : Served (s.dropServer e x id) := by
  intro p c hc
  obtain ⟨v, f, hv, live, hf⟩ := h p c hc
  refine ⟨v, f, hv, ?_, hf⟩
  rw [Drv.dropServer, Table.keys_erase]
  simpa using ⟨live, ok.2.2 f _ hf⟩

theorem Served.event {s s' : Drv} {ev : Event} (h : Served s) (he : s.event ev s')
    (complete : ev.Complete) : Served s' := by
  obtain ⟨ok, rfl⟩ := he
  cases ev with
  | addServer v name id owner =>
    have more : ∀ w, w ∈ s.gServersList.keys → w ∈ (s.gServersList.pushBack v ⟨name, id, none⟩).keys := by
      intro w hw
      rw [Table.keys_pushBack ok.1]
      exact List.mem_append_left _ hw
    cases owner with
    | none => exact h.sameConns rfl more rfl
    | some o => exact h.sameConns rfl (fun w hw => (Table.keys_modify _).symm ▸ more w hw) rfl
  | addClient k id owner => cases owner <;> exact h
  | dropServer e x id => exact h.dropServer ok
  | addPool p shm =>
    rw [Drv.apply, Drv.addPool, takeIds_frame]
    exact h
  | link p k v m e => exact h.link ok complete
  | mmaped p =>
    refine h.frame (fun q c' hc' => ?_) (fun _ => id) rfl
    rw [Drv.apply, Table.get?_modify] at hc'
    split at hc'
    next =>
      obtain ⟨c, hc, rfl⟩ := Option.map_eq_some_iff.mp hc'
      exact ⟨c, hc, rfl⟩
    next => exact ⟨c', hc', rfl⟩
  | teardown p ds =>
    rw [Drv.apply, enqueueAll_eq]
    exact Served.unlink (s := { s with gRegTaskList := postAll s.gRegTaskList ds }) h p
  | _ => exact h

theorem Call.May.complete {call : Call} {s : Drv} {ev : Event} (h : call.May s ev)
    (succeeds : call.kernel.Succeeds) : ev.Complete := by
  cases ev with
  | addServer v name id owner =>
    obtain ⟨filp, reg, _, _, _, owned⟩ := h
    exact owned succeeds
  | addClient k id owner =>
    obtain ⟨filp, _, owned⟩ := h
    exact owned succeeds
  | link p k v m e =>
    obtain ⟨filp, con, _, _, _, _, _, _, entry⟩ := h
    exact entry succeeds
  | _ => trivial

/-- What a run of calls with memory enough keeps. -/
structure Whole (s : Drv) : Prop where
  wf : Wf s
  served : Served s

theorem Whole.step {s s' : Drv} {call : Call} (h : Whole s) (hs : Returns s call s')
    (succeeds : call.kernel.Succeeds) : Whole s' := by
  obtain ⟨r, hr⟩ := hs
  refine (step_ok h.wf hr).keeps (fun a ev b may ha he => ?_) h
  exact ⟨ha.wf.event he, ha.served.event he (may.complete succeeds)⟩

theorem Whole.run {s : Drv} {calls : List Call} (run : Trace Returns Drv.init calls s)
    (succeeds : ∀ call ∈ calls, call.kernel.Succeeds) : Whole s :=
  run.keeps (fun _ call _ hc h hs => h.step hs (succeeds call hc)) ⟨.init, nofun⟩

/-- The object graph has no dangling and no one-sided reference. -/
structure Consistent (s : Drv) : Prop where
  client : ∀ p c, s.gConnsList.get? p = some c →
    ∃ k cli, c.clientP = some k ∧ s.gClientsList.get? k = some cli ∧ cli.connP = some p
  server : ∀ p c, s.gConnsList.get? p = some c → ∃ v, c.serverP = some v ∧ v ∈ s.gServersList.keys ∧
    ∃! e, ∃ x, (e, x) ∈ s.connectionList v ∧ x.conn = p
  mem : ∀ p c, s.gConnsList.get? p = some c →
    ∃ m sub, c.memP = some m ∧ s.subMem? m = some sub ∧ sub.connP = some p
  clientConn : ∀ k cli p, s.gClientsList.get? k = some cli → cli.connP = some p →
    ∃ c, s.gConnsList.get? p = some c ∧ c.clientP = some k
  serverConn : ∀ v e x, (e, x) ∈ s.connectionList v →
    ∃ c, s.gConnsList.get? x.conn = some c ∧ c.serverP = some v
  memConn : ∀ m sub p, s.subMem? m = some sub → sub.connP = some p →
    ∃ c, s.gConnsList.get? p = some c ∧ c.memP = some m
  memOwn : ∀ p c p' c' m, s.gConnsList.get? p = some c → s.gConnsList.get? p' = some c' →
    c.memP = some m → c'.memP = some m → p = p'
  serversEntry : ∀ e x, s.serversEntries.get? e = some x → x.server ∈ s.gServersList.keys
  clientsEntry : ∀ e x, s.clientsEntries.get? e = some x → x.client ∈ s.gClientsList.keys

theorem mem_connectionList {s : Drv} {v e : Ptr} {x : ServConnList} :
    (e, x) ∈ s.connectionList v ↔ s.servConns.get? e = some x ∧ x.server = v := by
  simp [Drv.connectionList, Table.get?_eq_some]

theorem Whole.consistent {s : Drv} (h : Whole s) : Consistent s := by
  have links := h.wf.links
  refine ⟨?_, ?_, ?_, links.clientConn, ?_, links.memConn, ?_, ?_, ?_⟩
  · intro p c hc
    obtain ⟨⟨k, hk⟩, _⟩ := links.connFull p c hc
    obtain ⟨cli, hcli, hp⟩ := links.connClient p c k hc hk
    exact ⟨k, cli, hk, hcli, hp⟩
  · intro p c hc
    obtain ⟨v, e, hv, live, he⟩ := h.served p c hc
    refine ⟨v, hv, live, e, ⟨_, mem_connectionList.mpr ⟨he, rfl⟩, rfl⟩, ?_⟩
    rintro f ⟨x, hf, hx⟩
    exact links.entryUnique f x e ⟨p, v⟩ (mem_connectionList.mp hf).1 he hx
  · intro p c hc
    obtain ⟨_, ⟨m, hm⟩, _⟩ := links.connFull p c hc
    obtain ⟨sub, hsub, hp⟩ := links.connMem p c m hc hm
    exact ⟨m, sub, hm, hsub, hp⟩
  · intro v e x hx
    obtain ⟨hentry, rfl⟩ := mem_connectionList.mp hx
    exact links.entryConn e x hentry
  · exact fun p c p' c' m hc hc' hm hm' => links.connMem.injective hc hm hc' hm'
  · intro e x hx
    obtain ⟨srv, hsrv, _⟩ := h.wf.servers.object e x x.server hx rfl
    exact Table.mem_keys.mpr ⟨srv, hsrv⟩
  · intro e x hx
    obtain ⟨cli, hcli, _⟩ := h.wf.clients.object e x x.client hx rfl
    exact Table.mem_keys.mpr ⟨cli, hcli⟩

theorem Served.noneLost {s : Drv} (h : Served s) : NoneLost s := by
  rintro p c hc ⟨w, hw, hlost⟩
  obtain ⟨v, _, hv, live, _⟩ := h p c hc
  cases hv.symm.trans hw
  exact Table.get?_eq_none.mp hlost live

/-- After any run of calls the object graph is consistent, and the next call, whatever it is,
does not touch freed memory. -/
theorem objectGraph_consistent {calls : List Call} {s : Drv} (run : Trace Returns Drv.init calls s)
    (succeeds : ∀ call ∈ calls, call.kernel.Succeeds) :
    Consistent s ∧ ∀ call, step s call ≠ .error .useAfterFree :=
  have whole := Whole.run run succeeds
  ⟨whole.consistent, fun _ => step_notFreed whole.wf whole.served.noneLost⟩

theorem objectGraph_consistent_connected : ∃ s, Trace Returns Drv.init connectedRun s ∧
    s.gConnsList.keys = [1] ∧ Consistent s ∧ ∀ call, step s call ≠ .error .useAfterFree := by
  have keys : (runCalls Drv.init connectedRun).map (fun s => s.gConnsList.keys) = some [1] := by decide
  obtain ⟨s, hs, hk⟩ := Option.map_eq_some_iff.mp keys
  have succeeds : ∀ call ∈ connectedRun, call.kernel.Succeeds := by
    intro call hc
    simp only [connectedRun, registeredRun, List.mem_append, List.mem_cons, List.not_mem_nil, or_false] at hc
    rcases hc with (rfl | rfl | rfl | rfl) | rfl <;> exact Kernel.plenty_succeeds _
  exact ⟨s, runCalls_trace hs, hk, objectGraph_consistent (runCalls_trace hs) succeeds⟩

end Ripc
