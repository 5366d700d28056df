import Ripc.Hub
import Ripc.DriverParties
import Ripc.DriverRoster
import Ripc.MessageRouting

namespace Ripc

/-- What holds between two events of a call while nothing fails. -/
structure Settled (s : Drv) : Prop extends Provided s where
  orderly : Orderly s

/-- The client with this id belongs to a task. -/
def Drv.ownerOf (s : Drv) (id : Int) : Option Ptr := (findClientById s id).bind s.clientTask

/-- The server with this id belongs to a task under a name. -/
def Drv.offerOf (s : Drv) (id : Int) : Option (Ptr × CString maxServerName) := do
  let v ← findServerById s id
  let srv ← s.gServersList.get? v
  return (← s.serverTask v, srv.name)

/-- The ids of the server and the sub-memory that a client is connected to. -/
def Drv.linkOf (s : Drv) (id : Int) : Option (Int × Int) := do
  let cli ← s.gClientsList.get? (← findClientById s id)
  let q ← s.parties? (← cli.connP)
  return (q.serverId, q.subMemId)

def RegTask.party (task : RegTask) : Party TaskStruct NotificationData :=
  ⟨task.taskP, task.isMonitor ≠ 0, task.notifList⟩

def Drv.hub (s : Drv) : Hub where
  handles := s.files.get?
  parties := fun t => (s.gRegTaskList.get? t).map RegTask.party
  clients := s.ownerOf
  servers := s.offerOf
  links := s.linkOf

/-- A server of the task has this id and this name. -/
def Drv.Offers (s : Drv) (t : Ptr) (id : Int) (name : CString maxServerName) : Prop :=
  ∃ e x srv, s.serversEntries.get? e = some x ∧ x.regTask = t ∧ s.gServersList.get? x.server = some srv ∧
    srv.id = id ∧ srv.name = name

/-- The connection leads from this client to this server over this sub-memory. -/
def Drv.JoinsAt (s : Drv) (p : Ptr) (c v x : Int) : Prop :=
  ∃ con k w m, s.gConnsList.get? p = some con ∧ con.clientP = some k ∧ con.serverP = some w ∧ con.memP = some m ∧
    s.idOf (.client k) = some c ∧ s.idOf (.server w) = some v ∧ s.idOf (.subMem m) = some x

variable {s s' : Drv} {ev : Event} {t : Ptr} {i c v x : Int} {n : CString maxServerName}

theorem hub_init : Drv.init.hub = .empty := by
  have owner : Drv.init.ownerOf = fun _ => none := by
    funext i
    unfold Drv.ownerOf findClientById
    split <;> rfl
  have offer : Drv.init.offerOf = fun _ => none := by
    funext i
    unfold Drv.offerOf findServerById
    split <;> rfl
  have link : Drv.init.linkOf = fun _ => none := by
    funext i
    unfold Drv.linkOf findClientById
    split <;> rfl
  simp only [Drv.hub, owner, offer, link]
  rfl

theorem Settled.event (h : Settled s) (he : s.event ev s') (complete : ev.Complete)
    (valid : ∀ id ∈ ev.newIds, isIdValid id = true) : Settled s' := by
  have orderly := h.orderly.event he
  have range : ∀ a id, s'.idOf a = some id → 0 ≤ id ∧ id ≤ maxIdValue := by
    intro a id ha
    rcases idOf_event he ha with old | new
    · exact h.valid.range a id old
    · exact isIdValid_iff.mp (valid id new)
  refine ⟨⟨⟨orderly.wf, h.whole.served.event he complete⟩, ⟨range, ?_⟩, h.manned.event he complete⟩, orderly⟩
  exact fun a b id ha hb => orderly.ids.unique a b id (range a id ha).1 ha hb

theorem Settled.validId (h : Settled s) {a : Holder} (ha : s.idOf a = some i) : isIdValid i = true :=
  isIdValid_iff.mpr (h.valid.range a i ha)

theorem clientTask_of_entry (wf : Wf s) {e : Ptr} {x : ClientsList} (hx : s.clientsEntries.get? e = some x) :
    s.clientTask x.client = some x.regTask := by
  obtain ⟨cli, hcli, he⟩ := wf.clients.object e x x.client hx rfl
  simp [Drv.clientTask, hcli, he, hx]

theorem serverTask_of_entry (wf : Wf s) {e : Ptr} {x : ServersList} (hx : s.serversEntries.get? e = some x) :
    s.serverTask x.server = some x.regTask := by
  obtain ⟨srv, hsrv, he⟩ := wf.servers.object e x x.server hx rfl
  simp [Drv.serverTask, hsrv, he, hx]

theorem hub_clients (h : Settled s) : s.hub.clients i = some t ↔ s.Registers t i := by
  constructor
  · intro owned
    obtain ⟨k, hk, task⟩ := Option.bind_eq_some_iff.mp owned
    obtain ⟨cli, hcli, hid, _⟩ := findClientById_some hk
    obtain ⟨cli', e, x, hcli', he, hx, ht⟩ := clientTask_some task
    cases hcli.symm.trans hcli'
    obtain ⟨y, hy, hk'⟩ := h.whole.wf.clients.entry k cli e hcli he
    cases hx.symm.trans hy
    refine ⟨e, x, hx, ht, ?_⟩
    rw [Option.some.inj hk', idOf_client hcli, hid]
  · rintro ⟨e, x, hx, rfl, hid⟩
    have found := (h.valid.unambiguous.client i x.client).mpr hid
    exact Option.bind_eq_some_iff.mpr ⟨x.client, found, clientTask_of_entry h.whole.wf hx⟩

theorem hub_servers (h : Settled s) : s.hub.servers i = some (t, n) ↔ s.Offers t i n := by
  simp only [Drv.hub, Drv.offerOf, Option.bind_eq_bind, Option.bind_eq_some_iff, Option.pure_def, Option.some.injEq,
    Prod.mk.injEq]
  constructor
  · rintro ⟨v, hv, srv, hsrv, u, task, rfl, rfl⟩
    obtain ⟨srv₁, hsrv₁, hid, _⟩ := findServerById_some hv
    cases hsrv.symm.trans hsrv₁
    obtain ⟨srv', e, x, hsrv', he, hx, ht⟩ := serverTask_some task
    cases hsrv.symm.trans hsrv'
    obtain ⟨y, hy, hv'⟩ := h.whole.wf.servers.entry v srv e hsrv he
    cases hx.symm.trans hy
    exact ⟨e, x, srv, hx, ht, by rw [Option.some.inj hv', hsrv], hid, rfl⟩
  · rintro ⟨e, x, srv, hx, rfl, hsrv, hid, rfl⟩
    have found := (h.valid.unambiguous.server i x.server).mpr (by rw [idOf_server hsrv, hid])
    exact ⟨x.server, found, srv, hsrv, x.regTask, serverTask_of_entry h.whole.wf hx, rfl, rfl⟩

theorem Settled.owned (h : Settled s) (con : Connection) : ¬Unowned s con := by
  rintro (⟨w, srv, _, hsrv, alone⟩ | ⟨k, cli, _, hcli, alone⟩)
  · exact h.manned.servers w srv hsrv alone
  · exact h.manned.clients k cli hcli alone

theorem Settled.parties (h : Settled s) {p : Ptr} {con : Connection} (hc : s.gConnsList.get? p = some con) :
    ∃ q, s.parties? p = some q :=
  parties_of_sides h.whole.wf hc (h.owned con) (h.whole.served.noneLost p con hc)

theorem hub_links (h : Settled s) : s.hub.links c = some (v, x) ↔ ∃ p, s.JoinsAt p c v x := by
  simp only [Drv.hub, Drv.linkOf, Option.bind_eq_bind, Option.bind_eq_some_iff, Option.pure_def, Option.some.injEq,
    Prod.mk.injEq]
  constructor
  · rintro ⟨k, hk, cli, hcli, p, hp, q, hq, rfl, rfl⟩
    obtain ⟨cli', hcli', hid, _⟩ := findClientById_some hk
    cases hcli.symm.trans hcli'
    obtain ⟨con, k', w, m, sides⟩ := sides_of_parties hq
    obtain ⟨con', hcon', hk'⟩ := h.whole.wf.links.clientConn k cli p hcli hp
    cases sides.conn.symm.trans hcon'
    refine ⟨p, con, k, w, m, sides.conn, hk', sides.serverP, sides.memP, ?_, sides.server, sides.subMem⟩
    rw [idOf_client hcli, hid]
  · rintro ⟨p, con, k, w, m, hcon, hk, hw, hm, hc, hv, hx⟩
    obtain ⟨cli, hcli, hp⟩ := h.whole.wf.links.connClient p con k hcon hk
    obtain ⟨q, hq⟩ := h.parties hcon
    obtain ⟨con', k', w', m', sides⟩ := sides_of_parties hq
    cases hcon.symm.trans sides.conn
    cases hw.symm.trans sides.serverP
    cases hm.symm.trans sides.memP
    have found := (h.valid.unambiguous.client c k).mpr hc
    refine ⟨k, found, cli, hcli, p, hp, q, hq, ?_, ?_⟩
    · exact Option.some.inj (sides.server.symm.trans hv)
    · exact Option.some.inj (sides.subMem.symm.trans hx)

theorem Settled.registers (h : Settled s) {k : Ptr} {cli : Client} (hcli : s.gClientsList.get? k = some cli) :
    ∃ t, s.Registers t cli.id := by
  obtain ⟨e, he⟩ := Option.ne_none_iff_exists'.mp (h.manned.clients k cli hcli)
  obtain ⟨y, hy, hk⟩ := h.whole.wf.clients.entry k cli e hcli he
  exact ⟨y.regTask, e, y, hy, rfl, by rw [Option.some.inj hk, idOf_client hcli]⟩

theorem Settled.offers (h : Settled s) {w : Ptr} {srv : Server} (hsrv : s.gServersList.get? w = some srv) :
    ∃ t, s.Offers t srv.id srv.name := by
  obtain ⟨e, he⟩ := Option.ne_none_iff_exists'.mp (h.manned.servers w srv hsrv)
  obtain ⟨y, hy, hw⟩ := h.whole.wf.servers.entry w srv e hsrv he
  exact ⟨y.regTask, e, y, srv, hy, rfl, by rw [Option.some.inj hw, hsrv], rfl, rfl⟩

theorem findClientById_none (h : Settled s) : findClientById s i = none ↔ s.hub.clients i = none := by
  constructor
  · intro unknown
    simp [Drv.hub, Drv.ownerOf, unknown]
  · intro none
    by_contra known
    obtain ⟨k, hk⟩ := Option.ne_none_iff_exists'.mp known
    obtain ⟨cli, hcli, rfl, _⟩ := findClientById_some hk
    obtain ⟨t, registered⟩ := h.registers hcli
    cases none.symm.trans ((hub_clients h).mpr registered)

theorem findServerById_none (h : Settled s) : findServerById s i = none ↔ s.hub.servers i = none := by
  constructor
  · intro unknown
    simp [Drv.hub, Drv.offerOf, unknown]
  · intro none
    by_contra known
    obtain ⟨w, hw⟩ := Option.ne_none_iff_exists'.mp known
    obtain ⟨srv, hsrv, rfl, _⟩ := findServerById_some hw
    obtain ⟨t, offered⟩ := h.offers hsrv
    cases none.symm.trans ((hub_servers h).mpr offered)

end Ripc
