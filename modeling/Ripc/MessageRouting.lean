import Ripc.DriverProvided
import Ripc.DriverSevered

namespace Ripc

/-- Connection `p` joins the client at `k` and the server at `v` over the sub-memory in slot `m`. -/
structure Channel (s : Drv) (p k v : Ptr) (m : SubMemPtr) (cli : Client) (srv : Server) (sub : SubMem) : Prop where
  conn : ∃ servMmaped, s.gConnsList.get? p = some ⟨some k, some v, some m, servMmaped⟩
  client : s.gClientsList.get? k = some cli
  server : s.gServersList.get? v = some srv
  subMem : s.subMem? m = some sub

/-- The notification is now the last one of task `t`, and that is all that has changed. -/
structure Delivered (s s' : Drv) (t : Ptr) (d : NotificationData) : Prop where
  task : ∃ a, s.gRegTaskList.get? t = some a ∧
    s'.gRegTaskList.get? t = some { a with notifList := a.notifList ++ [d], numOfNotif := a.numOfNotif + 1 }
  others : ∀ t', t' ≠ t → s'.gRegTaskList.get? t' = s.gRegTaskList.get? t'
  tasks : s'.gRegTaskList.keys = s.gRegTaskList.keys
  rest : s' = { s with gRegTaskList := s'.gRegTaskList }

section

variable {K : Kernel} {s : Drv} {p q k v e t : Ptr} {m : SubMemPtr} {cli : Client} {srv : Server} {sub : SubMem}
  {arg : U32}

theorem delivered_enqueue {d : NotificationData} (live : t ∈ s.gRegTaskList.keys) :
    Delivered s (s.enqueue t d) t d := by
  obtain ⟨a, ha⟩ := Table.mem_keys.mp live
  refine ⟨⟨a, ha, ?_⟩, fun t' hne => ?_, Table.keys_modify _, rfl⟩
  · rw [Drv.enqueue, Table.get?_modify, if_pos rfl, ha]
    rfl
  · rw [Drv.enqueue, Table.get?_modify, if_neg hne]

theorem Provided.channel (h : Provided s) {c : Connection} (hc : s.gConnsList.get? p = some c) :
    ∃ k v m cli srv sub, Channel s p k v m cli srv sub := by
  have consistent := h.whole.consistent
  obtain ⟨k, cli, hk, hcli, _⟩ := consistent.client p c hc
  obtain ⟨v, hv, live, _⟩ := consistent.server p c hc
  obtain ⟨srv, hsrv⟩ := Table.mem_keys.mp live
  obtain ⟨m, sub, hm, hsub, _⟩ := consistent.mem p c hc
  refine ⟨k, v, m, cli, srv, sub, ⟨c.servMmaped, ?_⟩, hcli, hsrv, hsub⟩
  rw [hc, ← hk, ← hv, ← hm]

theorem Channel.of_client (h : Provided s) (hcli : s.gClientsList.get? k = some cli) (hp : cli.connP = some p) :
    ∃ v m srv sub, Channel s p k v m cli srv sub := by
  obtain ⟨c, hc, hk⟩ := h.whole.wf.links.clientConn k cli p hcli hp
  obtain ⟨k', v, m, cli', srv, sub, ch⟩ := h.channel hc
  obtain ⟨_, hconn⟩ := ch.conn
  cases hc.symm.trans hconn
  cases hk
  cases hcli.symm.trans ch.client
  exact ⟨v, m, srv, sub, ch⟩

/-- No two connections use sub-memories of the same id. -/
theorem Channel.unique (h : Provided s) {k' v' : Ptr} {m' : SubMemPtr} {cli' : Client} {srv' : Server} {sub' : SubMem}
    (ch : Channel s p k v m cli srv sub) (ch' : Channel s q k' v' m' cli' srv' sub') (same : sub'.id = sub.id) :
    q = p ∧ k' = k ∧ v' = v := by
  have slot : Holder.subMem m' = .subMem m := by
    refine h.valid.unique _ _ sub.id ?_ ?_
    · exact same ▸ idOf_subMem ch'.subMem
    · exact idOf_subMem ch.subMem
  cases slot
  obtain ⟨_, hc⟩ := ch.conn
  obtain ⟨_, hc'⟩ := ch'.conn
  obtain rfl := h.whole.wf.links.connMem.injective hc' rfl hc rfl
  cases hc.symm.trans hc'
  exact ⟨rfl, rfl, rfl⟩

theorem Channel.validIds (h : Provided s) (ch : Channel s p k v m cli srv sub) :
    isIdValid cli.id = true ∧ isIdValid srv.id = true ∧ isIdValid sub.id = true := by
  refine ⟨isIdValid_iff.mpr (h.valid.range (.client k) _ ?_), isIdValid_iff.mpr (h.valid.range (.server v) _ ?_),
    isIdValid_iff.mpr (h.valid.range (.subMem m) _ ?_)⟩
  · exact idOf_client ch.client
  · exact idOf_server ch.server
  · exact idOf_subMem ch.subMem

theorem Channel.toServer (h : Provided s) (ch : Channel s p k v m cli srv sub) (type : NotifType) :
    ∃ t, s.OwnsServer t v ∧ t ∈ s.gRegTaskList.keys ∧ Posts s p ⟨.client, type, sub.id, cli.id, srv.id⟩ t := by
  obtain ⟨e, he⟩ := Option.ne_none_iff_exists'.mp (h.manned.servers v srv ch.server)
  obtain ⟨x, hx, hxv⟩ := h.whole.wf.servers.entry v srv e ch.server he
  have live := h.whole.wf.servers.live e x hx
  obtain ⟨_, hc⟩ := ch.conn
  exact ⟨x.regTask, ⟨e, x, hx, rfl, Option.some.inj hxv⟩, live,
    .toServer hc rfl ch.subMem rfl rfl ch.client rfl ch.server he hx rfl rfl rfl rfl live⟩

theorem Channel.toClient (h : Provided s) (ch : Channel s p k v m cli srv sub) (type : NotifType) :
    ∃ t, s.OwnsClient t k ∧ t ∈ s.gRegTaskList.keys ∧ Posts s p ⟨.server, type, sub.id, srv.id, cli.id⟩ t := by
  obtain ⟨e, he⟩ := Option.ne_none_iff_exists'.mp (h.manned.clients k cli ch.client)
  obtain ⟨x, hx, hxk⟩ := h.whole.wf.clients.entry k cli e ch.client he
  have live := h.whole.wf.clients.live e x hx
  obtain ⟨_, hc⟩ := ch.conn
  exact ⟨x.regTask, ⟨e, x, hx, rfl, Option.some.inj hxk⟩, live,
    .toClient hc rfl ch.subMem rfl rfl ch.client rfl ch.server he hx rfl rfl rfl rfl live⟩

/-- The search through a server's list meets the connection of the sub-memory and no other. -/
theorem findConnLoop_eq (h : Provided s) (ch : Channel s p k v m cli srv sub) {es : List (Ptr × ServConnList)}
    (linked : ∀ y ∈ es, s.servConns.get? y.1 = some y.2) (listed : (e, ⟨p, v⟩) ∈ es) :
    findConnLoop s sub.id es = .ok (some e) := by
  have links := h.whole.wf.links
  induction es with
  | nil => cases listed
  | cons y es ih =>
    have hy := linked y List.mem_cons_self
    obtain ⟨c, hc, _⟩ := links.entryConn _ _ hy
    obtain ⟨k', v', m', cli', srv', sub', ch'⟩ := h.channel hc
    obtain ⟨_, hconn⟩ := ch'.conn
    cases hc.symm.trans hconn
    have he := linked _ listed
    simp only [findConnLoop, deref_of_get? hc, ok_bind, derefSubMem, ch'.subMem]
    split
    next same =>
      obtain ⟨own, -⟩ := ch.unique h ch' same
      rw [links.entryUnique _ _ _ _ hy he own]
    next other =>
      refine ih (fun y hy => linked y (List.mem_cons_of_mem _ hy)) ?_
      rcases List.mem_cons.mp listed with rfl | later
      · exfalso
        obtain ⟨_, hc₀⟩ := ch.conn
        cases hc.symm.trans hc₀
        cases ch.subMem.symm.trans ch'.subMem
        exact other rfl
      · exact later

theorem serverFindConnBySubMemId_eq (h : Provided s) (ch : Channel s p k v m cli srv sub) :
    ∃ e, serverFindConnBySubMemId s v sub.id = .ok (some e) ∧ s.servConns.get? e = some ⟨p, v⟩ := by
  obtain ⟨_, hc⟩ := ch.conn
  obtain ⟨w, e, hw, _, he⟩ := h.whole.served p _ hc
  cases hw
  refine ⟨e, ?_, he⟩
  rw [serverFindConnBySubMemId, if_pos (ch.validIds h).2.2]
  exact findConnLoop_eq h ch (fun y hy => (mem_connectionList.mp hy).1) (mem_connectionList.mpr ⟨he, rfl⟩)

theorem clientEndWriting_sends (h : Provided s) (succeeds : K.Succeeds) (ch : Channel s p k v m cli srv sub)
    (hp : cli.connP = some p) (hid : cli.id = unpackId1 arg) :
    ∃ t s', s.OwnsServer t v ∧ clientEndWriting K s arg = .ok (⟨0, .nothing⟩, s') ∧
      Delivered s s' t ⟨.client, .newMessage, sub.id, cli.id, srv.id⟩ := by
  obtain ⟨t, own, live, posts⟩ := ch.toServer h .newMessage
  obtain ⟨validC, validS, validX⟩ := ch.validIds h
  refine ⟨t, s.enqueue t _, own, ?_, delivered_enqueue live⟩
  have found : findClientByIdPid s (unpackId1 arg) K.current.pid = some k := by
    refine (h.valid.unambiguous.client _ k).mpr ?_
    rw [idOf_client ch.client, hid]
  have sent := send_of_posts (K := K) posts validC validX validS (Option.isSome_iff_ne_none.mpr (succeeds.kmalloc _ s))
  obtain ⟨_, hc⟩ := ch.conn
  simp only [clientEndWriting, found, deref_of_get? ch.client, ok_bind, hp, deref_of_get? hc, Option.isNone_some,
    Bool.false_eq_true, if_false, sent, returns]

theorem serverEndWriting_sends (h : Provided s) (succeeds : K.Succeeds) (ch : Channel s p k v m cli srv sub)
    (hserver : srv.id = unpackId1 arg) (hsub : sub.id = unpackId2 arg) :
    ∃ t s', s.OwnsClient t k ∧ serverEndWriting K s arg = .ok (⟨0, .nothing⟩, s') ∧
      Delivered s s' t ⟨.server, .newMessage, sub.id, srv.id, cli.id⟩ := by
  obtain ⟨t, own, live, posts⟩ := ch.toClient h .newMessage
  obtain ⟨validC, validS, validX⟩ := ch.validIds h
  refine ⟨t, s.enqueue t _, own, ?_, delivered_enqueue live⟩
  have found : findServerById s (unpackId1 arg) = some v := by
    refine (h.valid.unambiguous.server _ v).mpr ?_
    rw [idOf_server ch.server, hserver]
  obtain ⟨e, search, he⟩ := serverFindConnBySubMemId_eq h ch
  have sent := send_of_posts (K := K) posts validS validX validC (Option.isSome_iff_ne_none.mpr (succeeds.kmalloc _ s))
  obtain ⟨_, hc⟩ := ch.conn
  simp only [serverEndWriting, found, ← hsub, search, ok_bind, deref_of_get? he, deref_of_get? hc, Option.isNone_some,
    Bool.false_eq_true, if_false, sent, returns]

end

/-- A message is announced to the task of the other end, under the right ids, and to nobody else. -/
theorem endWriting_routed {calls : List Call} {s : Drv} {K : Kernel} {filp : Ptr}
    (run : Trace (fun s call s' => call.Provided s ∧ Returns s call s') Drv.init calls s)
    (file : filp ∈ s.files.keys) (succeeds : K.Succeeds) :
    (∀ k cli p arg, s.gClientsList.get? k = some cli → cli.connP = some p → cli.id = unpackId1 arg →
      findClientByIdPid s cli.id K.current.pid = some k ∧
      ∃ v m srv sub t s', Channel s p k v m cli srv sub ∧ s.OwnsServer t v ∧
        step s ⟨K, .ioctl filp (.clientEndWriting arg)⟩ = .ok (⟨0, .nothing⟩, s') ∧
        Delivered s s' t ⟨.client, .newMessage, sub.id, cli.id, srv.id⟩) ∧
    ∀ p k v m cli srv sub arg, Channel s p k v m cli srv sub → srv.id = unpackId1 arg → sub.id = unpackId2 arg →
      findServerById s srv.id = some v ∧
      (∃ e, serverFindConnBySubMemId s v sub.id = .ok (some e) ∧ s.servConns.get? e = some ⟨p, v⟩) ∧
      (∀ q k' v' m' cli' srv' sub', Channel s q k' v' m' cli' srv' sub' → sub'.id = sub.id →
        q = p ∧ k' = k ∧ v' = v) ∧
      ∃ t s', s.OwnsClient t k ∧ step s ⟨K, .ioctl filp (.serverEndWriting arg)⟩ = .ok (⟨0, .nothing⟩, s') ∧
        Delivered s s' t ⟨.server, .newMessage, sub.id, srv.id, cli.id⟩ := by
  have h := Provided.run run
  obtain ⟨task, hfile⟩ := Table.mem_keys.mp file
  constructor
  · intro k cli p arg hcli hp hid
    obtain ⟨v, m, srv, sub, ch⟩ := Channel.of_client h hcli hp
    obtain ⟨t, s', own, sends, delivered⟩ := clientEndWriting_sends h succeeds ch hp hid
    refine ⟨(h.valid.unambiguous.client _ k).mpr ?_, v, m, srv, sub, t, s', ch, own, ?_, delivered⟩
    · exact idOf_client hcli
    · rw [← sends]
      simp only [step, ipcIoctl, hfile]
  · intro p k v m cli srv sub arg ch hserver hsub
    obtain ⟨t, s', own, sends, delivered⟩ := serverEndWriting_sends h succeeds ch hserver hsub
    refine ⟨(h.valid.unambiguous.server _ v).mpr ?_, serverFindConnBySubMemId_eq h ch,
      fun q k' v' m' cli' srv' sub' ch' same => ch.unique h ch' same, t, s', own, ?_, delivered⟩
    · exact idOf_server ch.server
    · rw [← sends]
      simp only [step, ipcIoctl, hfile]

/-- With two clients of one server: the second one writes, and the server answers the first. -/
theorem endWriting_routed_two : ∃ s, Trace (fun s call s' => call.Provided s ∧ Returns s call s') Drv.init
      twoConnections s ∧
    (∃ v m srv sub t s', Channel s 2 2 v m ⟨7, some 2, some 2⟩ srv sub ∧ s.OwnsServer t v ∧
      step s (callOf 3 (.ioctl 3 (.clientEndWriting (packIds 7 0)))) = .ok (⟨0, .nothing⟩, s') ∧
      Delivered s s' t ⟨.client, .newMessage, sub.id, 7, srv.id⟩) ∧
    ∃ t s', s.OwnsClient t 1 ∧
      step s (callOf 1 (.ioctl 1 (.serverEndWriting (packIds 0 2)))) = .ok (⟨0, .nothing⟩, s') ∧
      Delivered s s' t ⟨.server, .newMessage, 2, 0, 1⟩ := by
  have facts : ∃ s, Trace (fun s call s' => call.Provided s ∧ Returns s call s') Drv.init twoConnections s ∧
      (s.files.keys = [3, 2, 1] ∧ s.gClientsList.get? 2 = some ⟨7, some 2, some 2⟩ ∧
        s.gConnsList.get? 1 = some ⟨some 1, some 1, some ⟨1, 0, by decide⟩, false⟩ ∧
        s.gClientsList.get? 1 = some ⟨1, some 1, some 1⟩ ∧
        (s.gServersList.get? 1).map Server.id = some 0 ∧ (s.subMem? ⟨1, 0, by decide⟩).map SubMem.id = some 2) :=
    provided_check twoConnections_plenty (by decide)
  obtain ⟨s, run, files, writer, conn, reader, server, mem⟩ := facts
  obtain ⟨srv, hsrv, hserver⟩ := Option.map_eq_some_iff.mp server
  obtain ⟨sub, hsub, hmem⟩ := Option.map_eq_some_iff.mp mem
  have open1 : 1 ∈ s.files.keys := by simp [files]
  have open3 : 3 ∈ s.files.keys := by simp [files]
  refine ⟨s, run, ((endWriting_routed run open3 (Kernel.plenty_succeeds _)).1 2 _ 2 _ writer rfl rfl).2, ?_⟩
  have answer := ((endWriting_routed run open1 (Kernel.plenty_succeeds ⟨1, 1⟩)).2 1 1 1 _ _ srv sub (packIds 0 2)
    ⟨⟨false, conn⟩, reader, hsrv, hsub⟩ (by rw [hserver]; rfl) (by rw [hmem]; rfl)).2.2.2
  rw [hserver, hmem] at answer
  exact answer

end Ripc
