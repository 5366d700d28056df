import Ripc.HubReads
import Ripc.DriverRelease

namespace Ripc

variable {K : Kernel} {s s' a : Drv} {f t : Ptr} {r : Reply}

theorem touches_iff {c : Int} (h : Settled s) : s.hub.Touches t c ↔ ∃ p, s.Belongs t p ∧ ∃ v x, s.JoinsAt p c v x := by
  have links := h.whole.wf.links
  constructor
  · rintro ⟨v, x, linked, side⟩
    obtain ⟨p, joins⟩ := (hub_links h).mp linked
    refine ⟨p, ?_, v, x, joins⟩
    obtain ⟨con, k, w, m, hcon, hk, hw, _, hc, hv, _⟩ := joins
    rcases side with own | ⟨n, own⟩
    · obtain ⟨e, y, hy, ht, hid⟩ := (hub_clients h).mp own
      obtain ⟨cli, hcli, hp⟩ := links.connClient p con k hcon hk
      exact .client ⟨e, y, hy, ht, Holder.client.inj (h.valid.unique _ _ c hid hc)⟩ hcli hp
    · obtain ⟨e, y, srv, hy, ht, hsrv, rfl, _⟩ := (hub_servers h).mp own
      obtain ⟨w', a, hw', _, ha⟩ := h.whole.served p con hcon
      cases hw.symm.trans hw'
      have server := h.valid.unique _ _ srv.id (idOf_server hsrv) hv
      exact .server ⟨e, y, hy, ht, Holder.server.inj server⟩ ⟨a, _, ha, rfl, rfl⟩
  · rintro ⟨p, belongs, v, x, joins⟩
    refine ⟨v, x, (hub_links h).mpr ⟨p, joins⟩, ?_⟩
    obtain ⟨con, k, w, m, hcon, hk, hw, _, hc, hv, _⟩ := joins
    cases belongs with
    | server own listed =>
      obtain ⟨e, y, hy, ht, rfl⟩ := own
      obtain ⟨a, z, ha, same, rfl⟩ := listed
      obtain ⟨con', hcon', hserver⟩ := links.entryConn a z ha
      cases hcon.symm.trans hcon'
      cases hw.symm.trans hserver
      obtain ⟨srv, hsrv, _⟩ := h.whole.wf.servers.object e y y.server hy rfl
      have hid : srv.id = v := Option.some.inj ((idOf_server hsrv).symm.trans (same ▸ hv))
      exact Or.inr ⟨srv.name, (hub_servers h).mpr ⟨e, y, srv, hy, ht, hsrv, hid, rfl⟩⟩
    | client own live conn =>
      obtain ⟨e, y, hy, ht, rfl⟩ := own
      obtain ⟨con', hcon', hk'⟩ := links.clientConn _ _ p live conn
      cases hcon.symm.trans hcon'
      cases hk.symm.trans hk'
      exact Or.inl ((hub_clients h).mpr ⟨e, y, hy, ht, hc⟩)

theorem hub_dropServers {es : List Ptr} {s₀ : Drv} (h : Settled a) (left : ServersLeft s₀ t es a)
    (hs : forEachEntry (fun s e => regTaskDeleteServer s (some e)) es a = .ok s') :
    ServersLeft s₀ t [] s' ∧ Settled s' ∧ s'.hub.leave f t = a.hub.leave f t := by
  refine forEachEntry_ok (I := fun es b => ServersLeft s₀ t es b ∧ Settled b ∧ b.hub.leave f t = a.hub.leave f t) ?_ hs
    ⟨left, h, rfl⟩
  rintro e rest b c ⟨left, hb, same⟩ drop
  obtain ⟨x, i, ht, he⟩ := left.event drop
  have hc := hb.event he trivial (by simp [Event.newIds])
  obtain ⟨hx, ⟨srv, hsrv, hid⟩, _⟩ := id he.1
  have own := (hub_servers hb).mpr ⟨e, x, srv, hx, ht, hsrv, hid, rfl⟩
  exact ⟨left.round drop, hc, by rw [hub_dropServer hb hc he, Broker.leave_withdraw own, same]⟩

theorem hub_dropClients {es : List Ptr} {s₀ : Drv} (h : Settled a) (left : ClientsLeft s₀ t es a)
    (hs : forEachEntry (fun s e => regTaskDeleteClient s (some e)) es a = .ok s') :
    ClientsLeft s₀ t [] s' ∧ Settled s' ∧ s'.hub.leave f t = a.hub.leave f t := by
  refine forEachEntry_ok (I := fun es b => ClientsLeft s₀ t es b ∧ Settled b ∧ b.hub.leave f t = a.hub.leave f t) ?_ hs
    ⟨left, h, rfl⟩
  rintro e rest b c ⟨left, hb, same⟩ drop
  obtain ⟨x, i, ht, he⟩ := left.event drop
  have hc := hb.event he trivial (by simp [Event.newIds])
  obtain ⟨hx, cli, hcli, hid, _⟩ := id he.1
  have own := (hub_clients hb).mpr ⟨e, x, hx, ht, hid ▸ idOf_client hcli⟩
  exact ⟨left.round drop, hc, by rw [hub_dropClient hb hc he, Broker.leave_resign own, same]⟩

theorem hub_taskLoops {s₁ s₂ s₃ s₄ : Drv} (h : Settled s) (succeeds : K.Succeeds) (file : s.files.get? f = some t)
    (loops : TaskLoops K s t s₁ s₂ s₃ s₄) : Settled (s₄.closeTask f t) ∧ ∃ cs : List Int, cs.Nodup ∧
      (∀ c, c ∈ cs ↔ s.hub.Touches t c) ∧ (s₄.closeTask f t).hub = (cs.foldl Hub.sever s.hub).leave f t := by
  obtain ⟨clean₁, servers⟩ := cleanServers_ok h.whole.wf loops.cleanServers
  obtain ⟨clean₂, clients⟩ := cleanClients_ok clean₁.wf loops.cleanClients
  obtain ⟨ps, run, mine, _⟩ := loops.parts h.whole.wf (notifies succeeds)
  obtain ⟨h₂, cs, nodup, all, cut⟩ := hub_partings h run
  have so := Releasing.first clean₁ clean₂ servers clients
  obtain ⟨left, h₃, same₃⟩ := hub_dropServers (f := f) h₂ (.first so) loops.dropServers
  obtain ⟨left, h₄, same₄⟩ := hub_dropClients (f := f) h₃ (.first left) loops.dropClients
  have he : s₄.event (.closeTask f t) (s₄.closeTask f t) := by
    refine ⟨⟨left.so.files ▸ file, left.noServers, fun e x hx ht => ?_⟩, rfl⟩
    exact List.not_mem_nil ((left.left e).mpr ⟨x, hx, ht⟩)
  have h' := h₄.event he trivial (by simp [Event.newIds])
  refine ⟨h', cs, nodup, fun c => ?_, by rw [hub_closeTask h₄ h' he, same₄, same₃, cut]⟩
  rw [all, touches_iff h]
  simp only [mine]

theorem hub_ipcRelease (h : Settled s) (succeeds : K.Succeeds) (hs : ipcRelease K s f = .ok (r, s')) :
    Settled s' ∧ s.hub.Serves ⟨K, .release f⟩ r s'.hub := by
  unfold ipcRelease at hs
  split at hs
  next closed =>
    have closed : s.hub.handles f = none := closed
    obtain ⟨rfl, rfl⟩ := returns_ok hs
    refine ⟨h, rfl, ?_⟩
    simp [closed]
  next t file =>
    obtain ⟨s₁, hd, hs⟩ := bind_eq_ok.mp hs
    obtain ⟨rfl, rfl⟩ := returns_ok hs
    obtain ⟨task, ht⟩ := Table.mem_keys.mp (h.whole.wf.files.live f t file)
    have party : s.hub.parties t = some task.party := by simp [Drv.hub, ht]
    have handle : s.hub.handles f = some t := file
    suffices done : Settled { s₁ with files := s₁.files.erase f } ∧
        s.hub.ServesRelease K f t (Drv.hub { s₁ with files := s₁.files.erase f }) by
      refine ⟨done.1, rfl, ?_⟩
      simpa only [handle] using done.2
    rcases regTaskDelete_calls ht hd with ⟨dead, rfl⟩ | ⟨alive, a, b, c, d, loops, rfl⟩
    · have he : s₁.event (.closeFile f) { s₁ with files := s₁.files.erase f } := ⟨trivial, rfl⟩
      have dead : K.pidAlive task.party.user = false := dead
      refine ⟨h.event he trivial (by simp [Event.newIds]), task.party, party, ?_⟩
      rw [dead]
      exact hub_closeFile he
    · obtain ⟨h', cs, nodup, all, left⟩ := hub_taskLoops h succeeds file loops
      have alive : K.pidAlive task.party.user = true := alive
      refine ⟨h', task.party, party, ?_⟩
      rw [if_pos alive]
      exact ⟨cs, nodup, all, left⟩

theorem hub_ipcIoctl {cmd : Cmd} (h : Settled s) (reach : Reachable s) (succeeds : K.Succeeds)
    (noError : NoIdError s ⟨K, .ioctl f cmd⟩) (file : s.files.get? f = some t)
    (hs : ipcIoctl K s f cmd = .ok (r, s')) : Settled s' ∧ s.hub.ServesCmd t cmd r s'.hub := by
  obtain ⟨task, ht⟩ := Table.mem_keys.mp (h.whole.wf.files.live f t file)
  simp only [ipcIoctl, file] at hs
  cases cmd with
  | registerServer reg => exact hub_registerServer h reach ht file succeeds noError hs
  | registerClient => exact hub_registerClient h reach ht file succeeds noError hs
  | connectToServer con => exact hub_connectToServer h file succeeds noError hs
  | clientEndWriting arg => exact hub_clientEndWriting h succeeds hs
  | serverEndWriting arg => exact hub_serverEndWriting h succeeds hs
  | clientDisconnect arg => exact hub_clientDisconnect h succeeds hs
  | serverDisconnect arg => exact hub_serverDisconnect h succeeds hs
  | clientUnregister arg => exact hub_clientUnregister h succeeds hs
  | serverUnregister arg => exact hub_serverUnregister h succeeds hs
  | registerMonitor =>
    obtain ⟨⟨ret, s₁⟩, hm, hs⟩ := bind_eq_ok.mp hs
    obtain ⟨rfl, rfl⟩ := returns_ok hs
    exact hub_registerMonitor h reach ht hm
  | unknown =>
    obtain ⟨rfl, rfl⟩ := returns_ok hs
    exact ⟨h, by decide, rfl⟩

/-- A call that returns has done to the driver what it does to the broker. -/
theorem hub_step {call : Call} (h : Settled s) (reach : Reachable s) (provided : call.Provided s)
    (hs : step s call = .ok (r, s')) : Settled s' ∧ s.hub.Serves call r s'.hub := by
  obtain ⟨K, op⟩ := call
  have succeeds : K.Succeeds := provided.succeeds
  cases op with
  | «open» => exact hub_ipcOpen h reach succeeds hs
  | ioctl f cmd =>
    simp only [Hub.Serves]
    split
    next closed =>
      simp only [step, ipcIoctl, show s.files.get? f = none from closed] at hs
      obtain ⟨rfl, rfl⟩ := returns_ok hs
      exact ⟨h, by decide, rfl⟩
    next t file => exact hub_ipcIoctl h reach succeeds provided.ids file hs
  | mmap f arg =>
    simp only [Hub.Serves]
    split
    next closed =>
      simp only [step, if_neg (Table.get?_eq_none.mp closed)] at hs
      obtain ⟨rfl, rfl⟩ := returns_ok hs
      exact ⟨h, by decide, rfl⟩
    next t file =>
      simp only [step, if_pos (Table.mem_keys.mpr ⟨t, file⟩)] at hs
      exact hub_ipcMmap h succeeds hs
  | read f count =>
    simp only [Hub.Serves]
    split
    next closed =>
      simp only [step, ipcRead, show s.files.get? f = none from closed] at hs
      obtain ⟨rfl, rfl⟩ := returns_ok hs
      exact ⟨h, by decide, rfl⟩
    next t file => exact hub_ipcRead h reach succeeds file hs
  | release f => exact hub_ipcRelease h succeeds hs

theorem Settled.init : Settled Drv.init := by
  refine ⟨⟨⟨.init, ?_⟩, ⟨?_, ?_⟩, ⟨?_, ?_⟩⟩, Reachable.orderly ⟨[], .nil⟩⟩
  · intro p c hc
    cases hc
  · rintro (_ | _ | _ | _) id ha <;> simp [Drv.idOf, Drv.init, Drv.subMem?, subMemAt] at ha
  · rintro (_ | _ | _ | _) b id ha <;> simp [Drv.idOf, Drv.init, Drv.subMem?, subMemAt] at ha
  · intro v srv hv
    cases hv
  · intro k cli hk
    cases hk

/-- In every run of calls whose requests are granted the driver answers and does what a broker does, which stays
sound. -/
theorem hub_run {served : List (Call × Reply)}
    (run : Trace (fun s x s' => x.1.Provided s ∧ step s x.1 = .ok (x.2, s')) Drv.init served s) :
    Trace (fun b x b' => Hub.Serves b x.1 x.2 b') .empty served s.hub ∧ s.hub.Sound := by
  have refined : (Settled s ∧ Reachable s) ∧
      Trace (fun b x b' => Hub.Serves b x.1 x.2 b') Drv.init.hub served s.hub := by
    refine run.simulates (I := fun s => Settled s ∧ Reachable s) ?_ ⟨.init, [], .nil⟩
    rintro a x b ⟨h, calls, before⟩ ⟨provided, hs⟩
    obtain ⟨hb, serves⟩ := hub_step h ⟨calls, before⟩ provided hs
    exact ⟨⟨hb, calls ++ [x.1], before.append (.single ⟨x.2, hs⟩)⟩, serves⟩
  have broker := hub_init ▸ refined.2
  exact ⟨broker, broker.invariant (fun b x b' so serves => serves.sound so) .empty⟩

/-- Two clients are connected to one server. -/
theorem hub_run_twoConnections : ∃ (s : Drv) (served : List (Call × Reply)), served.map Prod.fst = twoConnections ∧
    (Trace (fun b x b' => Hub.Serves b x.1 x.2 b') .empty served s.hub ∧ s.hub.Sound) ∧
    s.hub.links 1 = some (0, 2) ∧ s.hub.links 7 = some (0, 3) := by
  have facts : ∃ s, Trace (fun s call s' => call.Provided s ∧ Returns s call s') Drv.init twoConnections s ∧
      (s.hub.links 1 = some (0, 2) ∧ s.hub.links 7 = some (0, 3)) :=
    provided_check twoConnections_plenty (by decide)
  obtain ⟨s, run, links⟩ := facts
  obtain ⟨served, calls, answered⟩ : ∃ served : List (Call × Reply), served.map Prod.fst = twoConnections ∧
      Trace (fun s x s' => x.1.Provided s ∧ step s x.1 = .ok (x.2, s')) Drv.init served s :=
    run.answered fun a call b h => ⟨_, h.1, h.2.choose_spec⟩
  exact ⟨s, served, calls, hub_run answered, links⟩

end Ripc
