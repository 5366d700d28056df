import Ripc.DriverSevered
import Ripc.DriverFarewell

namespace Ripc

/-- The ids that name a connection and its sides, and the tasks of the sides. -/
structure Parties where
  subMemId : Int
  clientId : Int
  serverId : Int
  clientTask : Ptr
  serverTask : Ptr
  deriving DecidableEq, Repr

def NotifSender.other : NotifSender → NotifSender
  | .server => .client
  | .client => .server

namespace Parties

def id (q : Parties) : NotifSender → Int
  | .server => q.serverId
  | .client => q.clientId

def task (q : Parties) : NotifSender → Ptr
  | .server => q.serverTask
  | .client => q.clientTask

def valid (q : Parties) : Bool := isIdValid q.clientId && isIdValid q.serverId && isIdValid q.subMemId

def notice (q : Parties) (who : NotifSender) : NotificationData :=
  ⟨who, .remoteDisconnect, q.subMemId, q.id who, q.id who.other⟩

/-- A connection with an invalid id is given up in silence. -/
def told (q : Parties) (who : NotifSender) : List (Ptr × NotificationData) :=
  if q.valid then [(q.task who.other, q.notice who)] else []

def farewells (q : Parties) : List (Ptr × NotificationData) := q.told .server ++ q.told .client

end Parties

def Drv.clientTask (s : Drv) (k : Ptr) : Option Ptr := do
  let cli ← s.gClientsList.get? k
  let x ← s.clientsEntries.get? (← cli.taskP)
  return x.regTask

def Drv.serverTask (s : Drv) (v : Ptr) : Option Ptr := do
  let srv ← s.gServersList.get? v
  let x ← s.serversEntries.get? (← srv.taskP)
  return x.regTask

def Drv.parties? (s : Drv) (p : Ptr) : Option Parties := do
  let c ← s.gConnsList.get? p
  let k ← c.clientP
  let v ← c.serverP
  return ⟨← s.idOf (.subMem (← c.memP)), ← s.idOf (.client k), ← s.idOf (.server v), ← s.clientTask k,
    ← s.serverTask v⟩

section

variable {K : Kernel} {s s' : Drv} {p r t : Ptr} {q : Parties} {c : Connection} {who : NotifSender}

/-- The objects behind the two sides. -/
structure Sides (s : Drv) (p : Ptr) (q : Parties) (c : Connection) (k v : Ptr) (m : SubMemPtr) : Prop where
  conn : s.gConnsList.get? p = some c
  clientP : c.clientP = some k
  serverP : c.serverP = some v
  memP : c.memP = some m
  subMem : s.idOf (.subMem m) = some q.subMemId
  client : s.idOf (.client k) = some q.clientId
  server : s.idOf (.server v) = some q.serverId
  clientTask : s.clientTask k = some q.clientTask
  serverTask : s.serverTask v = some q.serverTask

theorem sides_of_parties (h : s.parties? p = some q) : ∃ c k v m, Sides s p q c k v m := by
  simp only [Drv.parties?, Option.bind_eq_bind, Option.bind_eq_some_iff, Option.pure_def, Option.some.injEq] at h
  obtain ⟨c, hc, k, hk, v, hv, m, hm, x, hx, a, ha, b, hb, t, ht, u, hu, rfl⟩ := h
  exact ⟨c, k, v, m, hc, hk, hv, hm, hx, ha, hb, ht, hu⟩

theorem Sides.parties {k v : Ptr} {m : SubMemPtr} (h : Sides s p q c k v m) : s.parties? p = some q := by
  simp only [Drv.parties?, Option.bind_eq_bind, h.conn, Option.bind_some, h.clientP, h.serverP, h.memP, h.subMem,
    h.client, h.server, h.clientTask, h.serverTask]
  rfl

theorem parties_congr (conn : s'.gConnsList.get? p = s.gConnsList.get? p) (ids : ∀ a, s'.idOf a = s.idOf a)
    (clients : ∀ k, s'.clientTask k = s.clientTask k) (servers : ∀ v, s'.serverTask v = s.serverTask v) :
    s'.parties? p = s.parties? p := by
  simp only [Drv.parties?, conn, ids, clients, servers]

theorem parties_enqueueAll (s : Drv) (ds : List (Ptr × NotificationData)) (p : Ptr) :
    (s.enqueueAll ds).parties? p = s.parties? p := by
  rw [enqueueAll_eq]
  rfl

theorem parties_teardown (ne : r ≠ p) (ds : List (Ptr × NotificationData)) :
    ((s.enqueueAll ds).unlink p).parties? r = s.parties? r := by
  refine parties_congr ?_ (idOf_teardown p ds) (fun k => ?_) fun v => ?_
  · rw [conns_unlink, if_neg ne, conns_enqueueAll]
  · simp only [Drv.clientTask, clients_unlink, enqueueAll_eq, Option.bind_eq_bind, Option.bind_map,
      Function.comp_def]
    rfl
  · rw [enqueueAll_eq]
    rfl

theorem clientTask_some {k : Ptr} (h : s.clientTask k = some t) : ∃ cli e x, s.gClientsList.get? k = some cli ∧
    cli.taskP = some e ∧ s.clientsEntries.get? e = some x ∧ x.regTask = t := by
  simp only [Drv.clientTask, Option.bind_eq_bind, Option.bind_eq_some_iff, Option.pure_def, Option.some.injEq] at h
  obtain ⟨cli, hcli, e, he, x, hx, ht⟩ := h
  exact ⟨cli, e, x, hcli, he, hx, ht⟩

theorem serverTask_some {v : Ptr} (h : s.serverTask v = some t) : ∃ srv e x, s.gServersList.get? v = some srv ∧
    srv.taskP = some e ∧ s.serversEntries.get? e = some x ∧ x.regTask = t := by
  simp only [Drv.serverTask, Option.bind_eq_bind, Option.bind_eq_some_iff, Option.pure_def, Option.some.injEq] at h
  obtain ⟨srv, hsrv, e, he, x, hx, ht⟩ := h
  exact ⟨srv, e, x, hsrv, he, hx, ht⟩

theorem parties_live (wf : Wf s) (h : s.parties? p = some q) (who : NotifSender) :
    q.task who ∈ s.gRegTaskList.keys := by
  obtain ⟨c, k, v, m, sides⟩ := sides_of_parties h
  cases who with
  | client =>
    obtain ⟨_, e, x, _, _, hx, ht⟩ := clientTask_some sides.clientTask
    rw [Parties.task, ← ht]
    exact wf.clients.live e x hx
  | server =>
    obtain ⟨_, e, x, _, _, hx, ht⟩ := serverTask_some sides.serverTask
    rw [Parties.task, ← ht]
    exact wf.servers.live e x hx

theorem posts_of_parties (h : s.parties? p = some q) (live : q.task who.other ∈ s.gRegTaskList.keys) :
    Posts s p (q.notice who) (q.task who.other) := by
  obtain ⟨c, k, v, m, sides⟩ := sides_of_parties h
  obtain ⟨cli, e, x, hcli, he, hx, ht⟩ := clientTask_some sides.clientTask
  obtain ⟨srv, f, y, hsrv, hf, hy, hu⟩ := serverTask_some sides.serverTask
  obtain ⟨sub, hsub, hid⟩ := Option.map_eq_some_iff.mp sides.subMem
  have client : cli.id = q.clientId := Option.some.inj ((idOf_client hcli).symm.trans sides.client)
  have server : srv.id = q.serverId := Option.some.inj ((idOf_server hsrv).symm.trans sides.server)
  cases who with
  | client =>
    exact .toServer sides.conn sides.memP hsub hid.symm sides.clientP hcli sides.serverP hsrv hf hy rfl client.symm
      server.symm hu live
  | server =>
    exact .toClient sides.conn sides.memP hsub hid.symm sides.clientP hcli sides.serverP hsrv he hx rfl server.symm
      client.symm ht live

theorem send_parties {ret : Int} (h : s.parties? p = some q) (live : q.task who.other ∈ s.gRegTaskList.keys)
    (room : K.Notifies) (sent : notificationSend K s who .remoteDisconnect p = .ok (ret, s')) :
    s' = s.enqueueAll (q.told who) := by
  have posts := posts_of_parties h live
  have answer := notificationSend_posts (K := K) posts
  have fits : (isIdValid (q.notice who).senderId ∧ isIdValid (q.notice who).subMemId ∧
      isIdValid (q.notice who).reciverId ∧ (K.kmalloc (.notif (q.notice who).whoSends) s).isSome) ↔
      q.valid = true := by
    have some := Option.isSome_iff_ne_none.mpr (room who s)
    cases who <;> simp [Parties.notice, Parties.valid, Parties.id, NotifSender.other, some] <;> tauto
  have same := Except.ok.inj (sent.symm.trans answer)
  unfold Parties.told
  split at same
  next ok =>
    rw [if_pos (fits.mp ok)]
    exact congrArg Prod.snd same
  next bad =>
    rw [if_neg fun ok => bad (fits.mpr ok)]
    exact congrArg Prod.snd same

theorem parties_of_sides (wf : Wf s) (hc : s.gConnsList.get? p = some c) (owned : ¬Unowned s c)
    (live : ¬ServerLost s c) : ∃ q, s.parties? p = some q := by
  obtain ⟨⟨k, hk⟩, ⟨m, hm⟩, ⟨v, hv⟩⟩ := wf.links.connFull p c hc
  obtain ⟨cli, hcli, _⟩ := wf.links.connClient p c k hc hk
  obtain ⟨sub, hsub, _⟩ := wf.links.connMem p c m hc hm
  obtain ⟨srv, hsrv⟩ := Option.ne_none_iff_exists'.mp fun gone => live ⟨v, hv, gone⟩
  obtain ⟨e, he⟩ := Option.ne_none_iff_exists'.mp fun alone => owned (.inr ⟨k, cli, hk, hcli, alone⟩)
  obtain ⟨f, hf⟩ := Option.ne_none_iff_exists'.mp fun alone => owned (.inl ⟨v, srv, hv, hsrv, alone⟩)
  obtain ⟨x, hx, _⟩ := wf.clients.entry k cli e hcli he
  obtain ⟨y, hy, _⟩ := wf.servers.entry v srv f hsrv hf
  have sides : Sides s p ⟨sub.id, cli.id, srv.id, x.regTask, y.regTask⟩ c k v m := by
    refine ⟨hc, hk, hv, hm, ?_, ?_, ?_, ?_, ?_⟩
    · exact idOf_subMem hsub
    · exact idOf_client hcli
    · exact idOf_server hsrv
    · simp [Drv.clientTask, hcli, he, hx]
    · simp [Drv.serverTask, hsrv, hf, hy]
  exact ⟨_, sides.parties⟩

/-- `delete_connection` tells both sides, when it tells anybody, and unlinks the connection. -/
theorem deleteConnection_parties (h : deleteConnection K s p = .ok s') (hc : s.gConnsList.get? p = some c)
    (only : OnlyLinks s p c) (hq : s.parties? p = some q) (live : ∀ who, q.task who ∈ s.gRegTaskList.keys)
    (room : K.Notifies) : s' = (s.enqueueAll q.farewells).unlink p := by
  obtain ⟨_, _, s₁, s₂, h₁, h₂, rfl⟩ := deleteConnection_sends h hc only
  obtain rfl := send_parties hq (live _) room h₁
  have hq₁ : (s.enqueueAll (q.told .server)).parties? p = some q := (parties_enqueueAll s _ p).trans hq
  have live₁ : q.task NotifSender.client.other ∈ (s.enqueueAll (q.told .server)).gRegTaskList.keys := by
    rw [enqueueAll_eq]
    exact (keys_postAll s.gRegTaskList _).symm ▸ live _
  obtain rfl := send_parties hq₁ live₁ room h₂
  rw [Parties.farewells, enqueueAll_append]

/-- The connection is deleted with its farewells. -/
def Drv.Parts (s : Drv) (p : Ptr) (s' : Drv) : Prop :=
  ∃ q, s.parties? p = some q ∧ s.event (.teardown p q.farewells) s'

theorem farewells_ok (wf : Wf s) (hq : s.parties? p = some q) : (Event.teardown p q.farewells).Ok s := by
  obtain ⟨c, k, v, m, sides⟩ := sides_of_parties hq
  have one : ∀ who, ∀ x ∈ q.told who, Posts s p x.2 x.1 ∧ x.2.type = .remoteDisconnect := by
    intro who x hx
    unfold Parties.told at hx
    split at hx
    next =>
      rw [List.mem_singleton.mp hx]
      exact ⟨posts_of_parties hq (parties_live wf hq _), rfl⟩
    next => cases hx
  exact ⟨Table.mem_keys.mpr ⟨c, sides.conn⟩,
    fun x hx => (List.mem_append.mp hx).elim (one .server x) (one .client x)⟩

theorem parties_clearClient (s : Drv) (k p : Ptr) :
    Drv.parties? { s with gClientsList := s.gClientsList.modify k fun cli => { cli with connP := none } } p =
      s.parties? p := by
  refine parties_congr ?_ (fun a => ?_) (fun k' => ?_) fun v => ?_
  · rfl
  · cases a with
    | client k' => exact map_modify (g := Client.id) (by intro _; rfl) k'
    | _ => rfl
  · simp only [Drv.clientTask, Table.get?_modify]
    split
    next => cases s.gClientsList.get? k' <;> rfl
    next => rfl
  · rfl

theorem clientCleanupConnection_parts {k : Ptr} (wf : Wf s) (room : K.Notifies)
    (h : clientCleanupConnection K s k = .ok s') : ∃ cli, s.gClientsList.get? k = some cli ∧
      ((cli.connP = none ∧ s' = s) ∨ ∃ p, cli.connP = some p ∧ s.Parts p s') := by
  obtain ⟨cli, hcli, done⟩ := clientCleanupConnection_ok h wf
  refine ⟨cli, hcli, done.imp_right ?_⟩
  rintro ⟨p, ds, hp, ev⟩
  obtain ⟨c, hc, _⟩ := wf.links.clientConn k cli p hcli hp
  have gone : s'.gConnsList.get? p ≠ some c := by
    rw [ev.2, Drv.apply, conns_unlink, if_pos rfl]
    exact (Option.some_ne_none c).symm
  obtain ⟨owned, live, _⟩ := (clientCleanupConnection_severs h wf hc).resolve_left gone
  obtain ⟨q, hq⟩ := parties_of_sides wf hc owned live
  simp only [clientCleanupConnection, deref_of_get? hcli, ok_bind, hp] at h
  have here := parties_live wf hq
  have done := deleteConnection_parties h hc ((wf.links.only hc).clearClient k)
    ((parties_clearClient s k p).trans hq) here room
  exact ⟨p, hp, q, hq, farewells_ok wf hq, done.trans (unlink_clearClient hcli hp _)⟩

theorem serverCleanupConnection_parts {v e : Ptr} (wf : Wf s) (room : K.Notifies)
    (h : serverCleanupConnection K s v e = .ok s') : ∃ x, s.servConns.get? e = some x ∧
      ((x.server ≠ v ∧ s' = s) ∨ (x.server = v ∧ s.Parts x.conn s')) := by
  obtain ⟨x, hx, done⟩ := serverCleanupConnection_ok h wf
  refine ⟨x, hx, ?_⟩
  obtain ⟨c, hc, hv⟩ := wf.links.entryConn e x hx
  by_cases own : x.server = v
  · obtain ⟨ds, ev⟩ := done.resolve_left fun other => other.1 own
    have gone : s'.gConnsList.get? x.conn ≠ some c := by
      rw [ev.2, Drv.apply, conns_unlink, if_pos rfl]
      exact (Option.some_ne_none c).symm
    obtain ⟨owned, live, _⟩ := (serverCleanupConnection_severs h wf hc).resolve_left gone
    obtain ⟨q, hq⟩ := parties_of_sides wf hc owned live
    simp only [serverCleanupConnection, deref_of_get? hx, deref_of_get? hc, ok_bind, hv, own, ne_eq,
      not_true_eq_false, if_false] at h
    have only := wf.links.only hc
    have here := parties_live wf hq
    have done := deleteConnection_parties h hc (only.eraseEntry e) hq here room
    refine .inr ⟨own, q, hq, farewells_ok wf hq, done.trans (unlink_eraseEntry hx (fun f y hy hp => ?_) _)⟩
    exact only.unique f y e x hy hx hp rfl
  · simp only [serverCleanupConnection, deref_of_get? hx, deref_of_get? hc, ok_bind, hv] at h
    rw [if_pos fun same => own (Option.some.inj same)] at h
    exact .inl ⟨own, (Except.ok.inj h).symm⟩

end

end Ripc
