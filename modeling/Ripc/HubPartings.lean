import Ripc.HubEvents
import Ripc.HubSound
import Ripc.DriverPartings

namespace Ripc

variable {K : Kernel} {s s' a : Drv} {t f p k w e : Ptr} {c v x i : Int} {q : Parties} {d : NotificationData}
  {who : NotifSender} {type : NotifType}

namespace Broker

variable {H P I N U M : Type} [DecidableEq H] [DecidableEq P] [DecidableEq I] {b : Broker H P I N U M} {f : H} {p : P}
  {i : I}

theorem leave_resign (own : b.clients i = some p) : (b.resign i).leave f p = b.leave f p := by
  refine Broker.ext rfl rfl ?_ rfl rfl
  funext j
  show ((b.resign i).clients j).filter _ = (b.clients j).filter _
  rw [clients_resign]
  split
  next same => simp [same, own, Option.filter]
  next => rfl

theorem leave_withdraw {n : N} (own : b.servers i = some (p, n)) : (b.withdraw i).leave f p = b.leave f p := by
  refine Broker.ext rfl rfl rfl ?_ rfl
  funext j
  show ((b.withdraw i).servers j).filter _ = (b.servers j).filter _
  rw [servers_withdraw]
  split
  next same => simp [same, own, Option.filter]
  next => rfl

end Broker

theorem hub_closeTask (h : Settled s) (h' : Settled s') (he : s.event (.closeTask f t) s') :
    s'.hub = s.hub.leave f t := by
  have clients := clients_same h h' he (by simp) (by simp)
  have servers := servers_same h h' he (by simp) (by simp)
  refine Broker.ext ?_ ?_ ?_ ?_ (links_same h h' he (by simp) (by simp))
  · funext g
    rw [Broker.handles_leave, he.2]
    exact Table.get?_erase
  · funext u
    rw [Broker.parties_leave, he.2]
    show (Table.get? (s.gRegTaskList.erase t) u).map RegTask.party = _
    rw [Table.get?_erase]
    split <;> rfl
  · funext j
    ext u
    rw [Broker.clients_leave, clients, iff_self_and]
    intro owned same
    obtain ⟨e, y, hy, ht, _⟩ := (hub_clients h).mp owned
    exact he.1.2.2 e y hy (ht.trans same)
  · funext j
    ext ⟨u, n⟩
    rw [Broker.servers_leave, servers, iff_self_and]
    intro owned same
    obtain ⟨e, y, _, hy, ht, _⟩ := (hub_servers h).mp owned
    exact he.1.2.1 e y hy (ht.trans same)

theorem Settled.enqueue (h : Settled s) (t : Ptr) (d : NotificationData) : Settled (s.enqueue t d) := by
  have wf : Wf (s.enqueue t d) := h.whole.wf.enqueueAll [(t, d)]
  have ids : Ids (s.enqueue t d) := h.orderly.ids.keep (fun _ => rfl) rfl
  exact ⟨⟨⟨wf, h.whole.served⟩, ⟨h.valid.range, h.valid.unique⟩, ⟨h.manned.servers, h.manned.clients⟩⟩,
    ⟨wf, ids, h.orderly.entries⟩⟩

theorem hub_enqueue (s : Drv) (t : Ptr) (d : NotificationData) : (s.enqueue t d).hub = s.hub.post t d :=
  Broker.ext rfl (parties_altered fun _ _ => rfl) rfl rfl rfl

theorem joinsAt_of_parties (hq : s.parties? p = some q) : s.JoinsAt p q.clientId q.serverId q.subMemId := by
  obtain ⟨con, k, w, m, sides⟩ := sides_of_parties hq
  exact ⟨con, k, w, m, sides.conn, sides.clientP, sides.serverP, sides.memP, sides.client, sides.server, sides.subMem⟩

theorem links_of_parties (h : Settled s) (hq : s.parties? p = some q) :
    s.hub.links q.clientId = some (q.serverId, q.subMemId) :=
  (hub_links h).mpr ⟨p, joinsAt_of_parties hq⟩

theorem hearer_of_parties (h : Settled s) (hq : s.parties? p = some q) :
    s.hub.hearer who q.clientId q.serverId = some (q.task who.other) := by
  obtain ⟨con, k, w, m, sides⟩ := sides_of_parties hq
  cases who with
  | client =>
    obtain ⟨srv, e, y, hsrv, he, hy, ht⟩ := serverTask_some sides.serverTask
    obtain ⟨y', hy', hw⟩ := h.whole.wf.servers.entry w srv e hsrv he
    cases hy.symm.trans hy'
    have offers : s.Offers q.serverTask q.serverId srv.name := by
      refine ⟨e, y, srv, hy, ht, by rw [Option.some.inj hw, hsrv], ?_, rfl⟩
      exact Option.some.inj ((idOf_server hsrv).symm.trans sides.server)
    simp [Hub.hearer, (hub_servers h).mpr offers, Parties.task, NotifSender.other]
  | server =>
    obtain ⟨cli, e, y, hcli, he, hy, ht⟩ := clientTask_some sides.clientTask
    obtain ⟨y', hy', hk⟩ := h.whole.wf.clients.entry k cli e hcli he
    cases hy.symm.trans hy'
    have registers : s.Registers q.clientTask q.clientId := ⟨e, y, hy, ht, by rw [Option.some.inj hk, sides.client]⟩
    exact (hub_clients h).mpr registers

theorem say_of_parties (h : Settled s) (hq : s.parties? p = some q) (type : NotifType) :
    s.hub.say who type q.clientId = s.hub.post (q.task who.other) { q.notice who with type := type } := by
  simp only [Hub.say, links_of_parties h hq, hearer_of_parties h hq]
  cases who <;> rfl

theorem Posts.retype (h : Posts s p d t) (type : NotifType) : Posts s p { d with type := type } t := by
  cases h with
  | toServer conn mem subMem subId clientP client serverP server entryP entry who sender reciver task live =>
    exact .toServer conn mem subMem subId clientP client serverP server entryP entry who sender reciver task live
  | toClient conn mem subMem subId clientP client serverP server entryP entry who sender reciver task live =>
    exact .toClient conn mem subMem subId clientP client serverP server entryP entry who sender reciver task live

theorem Settled.validParties (h : Settled s) (hq : s.parties? p = some q) : q.valid = true := by
  obtain ⟨con, k, w, m, sides⟩ := sides_of_parties hq
  simp [Parties.valid, h.validId sides.client, h.validId sides.server, h.validId sides.subMem]

/-- One side of a connection tells the other. -/
def Drv.tell (s : Drv) (q : Parties) (who : NotifSender) (type : NotifType) : Drv :=
  s.enqueue (q.task who.other) { q.notice who with type := type }

theorem Settled.tell (h : Settled s) (q : Parties) (who : NotifSender) (type : NotifType) :
    Settled (s.tell q who type) :=
  h.enqueue _ _

theorem parties_tell (s : Drv) (q : Parties) (who : NotifSender) (type : NotifType) (p : Ptr) :
    (s.tell q who type).parties? p = s.parties? p :=
  parties_enqueueAll s [(_, _)] p

theorem hub_tell (h : Settled s) (hq : s.parties? p = some q) (who : NotifSender) (type : NotifType) :
    (s.tell q who type).hub = s.hub.say who type q.clientId := by
  rw [Drv.tell, hub_enqueue, say_of_parties h hq]

theorem send_tells (h : Settled s) (succeeds : K.Succeeds) (hq : s.parties? p = some q) (who : NotifSender)
    (type : NotifType) : notificationSend K s who type p = .ok (0, s.tell q who type) := by
  have posts := (posts_of_parties hq (parties_live h.whole.wf hq who.other)).retype type
  have valid := h.validParties hq
  simp only [Parties.valid, Bool.and_eq_true] at valid
  obtain ⟨⟨client, server⟩, subMem⟩ := valid
  have ends : isIdValid (q.id who) = true ∧ isIdValid (q.id who.other) = true := by
    cases who with
    | client => exact ⟨client, server⟩
    | server => exact ⟨server, client⟩
  have room := Option.isSome_iff_ne_none.mpr (succeeds.kmalloc (.notif who) s)
  exact send_of_posts posts ends.1 subMem ends.2 room

theorem hub_parts (h : Settled s) (parts : s.Parts p s') :
    ∃ q, s.parties? p = some q ∧ Settled s' ∧ s'.hub = s.hub.sever q.clientId := by
  obtain ⟨q, hq, he⟩ := parts
  have h' := h.event he trivial (by simp [Event.newIds])
  have told : s.hub.sever q.clientId = (s.enqueueAll q.farewells).hub.part q.clientId := by
    have hq₁ := (parties_tell s q .server .remoteDisconnect p).trans hq
    have second := hub_tell (h.tell q .server .remoteDisconnect) hq₁ .client .remoteDisconnect
    rw [Hub.sever, ← hub_tell h hq, ← second]
    simp only [Parties.farewells, Parties.told, h.validParties hq, if_true]
    rfl
  have posted : (s.enqueueAll q.farewells).hub = { s.hub with parties := (s.enqueueAll q.farewells).hub.parties } := by
    rw [enqueueAll_eq]
    rfl
  refine ⟨q, hq, h', ?_⟩
  rw [told]
  refine Broker.ext ?_ ?_ ?_ ?_ ?_
  · rw [posted, he.2, Drv.apply, enqueueAll_eq]
    rfl
  · rw [he.2]
    rfl
  · rw [posted]
    exact clients_same h h' he (by simp) (by simp)
  · rw [posted]
    exact servers_same h h' he (by simp) (by simp)
  · funext d
    rw [posted, Broker.links_part]
    exact links_teardown h h' (joinsAt_of_parties hq) he d

/-- Deleting connections one by one cuts the links of their clients. -/
theorem hub_partings {ps : List Ptr} (h : Settled s) (run : Trace Drv.Parts s ps a) : Settled a ∧
    ∃ cs : List Int, cs.Nodup ∧ (∀ c, c ∈ cs ↔ ∃ p ∈ ps, ∃ v x, s.JoinsAt p c v x) ∧
      a.hub = cs.foldl Hub.sever s.hub := by
  induction run with
  | nil => exact ⟨h, [], List.nodup_nil, by simp, rfl⟩
  | @cons s s₁ a p ps head rest ih =>
    obtain ⟨q, hq, h₁, cut⟩ := hub_parts h head
    obtain ⟨ha, cs, nodup, all, done⟩ := ih h₁
    have gone := (List.nodup_cons.mp (Trace.cons head rest).parted.nodup).1
    have joins := joinsAt_of_parties hq
    obtain ⟨q', hq', he⟩ := head
    cases hq.symm.trans hq'
    have later : ∀ c, c ∈ cs ↔ ∃ r ∈ ps, ∃ v x, s.JoinsAt r c v x := by
      intro c
      rw [all]
      constructor
      · rintro ⟨r, hr, v, x, hc⟩
        exact ⟨r, hr, v, x, ((joinsAt_teardown h h₁ he).mp hc).1⟩
      · rintro ⟨r, hr, v, x, hc⟩
        exact ⟨r, hr, v, x, (joinsAt_teardown h h₁ he).mpr ⟨hc, fun same => gone (same ▸ hr)⟩⟩
    refine ⟨ha, q.clientId :: cs, List.nodup_cons.mpr ⟨fun hm => ?_, nodup⟩, fun c => ?_, by rw [done, cut]; rfl⟩
    · obtain ⟨r, hr, v, x, hc⟩ := (later _).mp hm
      exact gone (joins.conn_unique h hc ▸ hr)
    · rw [List.mem_cons, later]
      constructor
      · rintro (rfl | ⟨r, hr, hc⟩)
        · exact ⟨p, List.mem_cons_self, _, _, joins⟩
        · exact ⟨r, List.mem_cons_of_mem p hr, hc⟩
      · rintro ⟨r, hr, v, x, hc⟩
        rcases List.mem_cons.mp hr with rfl | hr
        · exact Or.inl (joins.unique hc).1
        · exact Or.inr ⟨r, hr, v, x, hc⟩

end Ripc
