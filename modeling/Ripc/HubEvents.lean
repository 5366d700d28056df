import Ripc.DriverHub

namespace Ripc

variable {s s' : Drv} {ev : Event} {t u f p k w : Ptr} {i j c v x : Int} {n name : CString maxServerName}

theorem servers_event (he : s.event ev s') (adds : ∀ v n i owner, ev ≠ .addServer v n i owner)
    (drops : ∀ e x i, ev ≠ .dropServer e x i) :
    s'.gServersList = s.gServersList ∧ s'.serversEntries = s.serversEntries := by
  rw [he.2]
  cases ev with
  | addServer v n i owner => exact absurd rfl (adds v n i owner)
  | addClient k i owner => cases owner <;> exact ⟨rfl, rfl⟩
  | dropServer e x i => exact absurd rfl (drops e x i)
  | addPool p shm =>
    rw [Drv.apply, Drv.addPool, takeIds_frame]
    exact ⟨rfl, rfl⟩
  | teardown p ds =>
    rw [Drv.apply, enqueueAll_eq]
    exact ⟨rfl, rfl⟩
  | _ => exact ⟨rfl, rfl⟩

theorem offers_add {e : Ptr} (wf : Wf s) (he : s.event (.addServer w n i (some (e, t))) s') :
    s'.Offers u j name ↔ s.Offers u j name ∨ (u = t ∧ j = i ∧ name = n) := by
  obtain ⟨ok, rfl⟩ := he
  have fresh := (ok.2.2 (e, t) rfl).1
  have entries : ∀ a, (s.apply (.addServer w n i (some (e, t)))).serversEntries.get? a =
      if a = e then some ⟨t, w⟩ else s.serversEntries.get? a := fun a => Table.get?_pushFront fresh
  have servers : ∀ b, (s.apply (.addServer w n i (some (e, t)))).gServersList.get? b =
      if b = w then some ⟨n, i, some e⟩ else s.gServersList.get? b := by
    intro b
    rw [Drv.apply, Option.elim_some, Drv.attachServer, Table.get?_modify, Drv.addServer, Table.get?_pushBack ok.1]
    split <;> rfl
  have old : ∀ {a y}, s.serversEntries.get? a = some y → a ≠ e ∧ y.server ≠ w := by
    intro a y hy
    refine ⟨fun same => fresh (same ▸ Table.mem_keys.mpr ⟨y, hy⟩), fun same => ?_⟩
    obtain ⟨srv, hsrv, _⟩ := wf.servers.object a y y.server hy rfl
    exact ok.1 (same ▸ Table.mem_keys.mpr ⟨srv, hsrv⟩)
  constructor
  · rintro ⟨a, y, srv, hy, ht, hsrv, hid, hn⟩
    rw [entries] at hy
    rw [servers] at hsrv
    split at hy
    next =>
      cases hy
      rw [if_pos rfl] at hsrv
      cases hsrv
      exact Or.inr ⟨ht.symm, hid.symm, hn.symm⟩
    next =>
      rw [if_neg (old hy).2] at hsrv
      exact Or.inl ⟨a, y, srv, hy, ht, hsrv, hid, hn⟩
  · rintro (⟨a, y, srv, hy, ht, hsrv, hid, hn⟩ | ⟨rfl, rfl, rfl⟩)
    · obtain ⟨entry, server⟩ := old hy
      exact ⟨a, y, srv, by rw [entries, if_neg entry, hy], ht, by rw [servers, if_neg server, hsrv], hid, hn⟩
    · exact ⟨e, ⟨u, w⟩, ⟨name, j, some e⟩, by rw [entries, if_pos rfl], rfl, by rw [servers, if_pos rfl], rfl, rfl⟩

theorem offers_drop {e : Ptr} {y : ServersList} (h : Settled s) (he : s.event (.dropServer e y i) s') :
    s'.Offers u j name ↔ s.Offers u j name ∧ j ≠ i := by
  obtain ⟨⟨hy, ⟨srv, hsrv, hi⟩, _⟩, rfl⟩ := he
  have named : s.idOf (.server y.server) = some i := hi ▸ idOf_server hsrv
  have gone : ∀ {a z srv'}, s.serversEntries.get? a = some z → s.gServersList.get? z.server = some srv' →
      (srv'.id = i ↔ a = e) := by
    intro a z srv' hz hsrv'
    constructor
    · rintro rfl
      have same := h.valid.unique _ _ srv'.id (idOf_server hsrv') named
      obtain ⟨o, ho, ha⟩ := h.whole.wf.servers.object a z z.server hz rfl
      obtain ⟨o', ho', he⟩ := h.whole.wf.servers.object e y y.server hy rfl
      rw [Holder.server.inj same] at ho
      cases ho.symm.trans ho'
      exact Option.some.inj (ha.symm.trans he)
    · rintro rfl
      cases hz.symm.trans hy
      cases hsrv'.symm.trans hsrv
      exact hi
  constructor
  · rintro ⟨a, z, srv', hz, ht, hsrv', hid, hn⟩
    obtain ⟨other, hz⟩ := Table.get?_erase_some.mp hz
    obtain ⟨_, hsrv'⟩ := Table.get?_erase_some.mp hsrv'
    exact ⟨⟨a, z, srv', hz, ht, hsrv', hid, hn⟩, fun same => other ((gone hz hsrv').mp (hid.trans same))⟩
  · rintro ⟨⟨a, z, srv', hz, ht, hsrv', hid, hn⟩, other⟩
    have entry : a ≠ e := fun same => other (hid.symm.trans ((gone hz hsrv').mpr same))
    have server : z.server ≠ y.server := by
      intro same
      rw [same, hsrv] at hsrv'
      cases hsrv'
      exact other (hid.symm.trans hi)
    exact ⟨a, z, srv', Table.get?_erase_some.mpr ⟨entry, hz⟩, ht, Table.get?_erase_some.mpr ⟨server, hsrv'⟩, hid, hn⟩

theorem Settled.joined (h : Settled s) {con : Connection} (hc : s.gConnsList.get? p = some con) :
    ∃ k w m c v x, con.clientP = some k ∧ con.serverP = some w ∧ con.memP = some m ∧ s.idOf (.client k) = some c ∧
      s.idOf (.server w) = some v ∧ s.idOf (.subMem m) = some x := by
  obtain ⟨k, w, m, cli, srv, sub, ch⟩ := h.channel hc
  obtain ⟨_, hconn⟩ := ch.conn
  cases hc.symm.trans hconn
  exact ⟨k, w, m, cli.id, srv.id, sub.id, rfl, rfl, rfl, idOf_client ch.client, idOf_server ch.server,
    idOf_subMem ch.subMem⟩

theorem Drv.JoinsAt.unique {c' v' x' : Int} (h : s.JoinsAt p c v x) (h' : s.JoinsAt p c' v' x') :
    c' = c ∧ v' = v ∧ x' = x := by
  obtain ⟨con, k, w, m, hcon, hk, hw, hm, hc, hv, hx⟩ := h
  obtain ⟨con', k', w', m', hcon', hk', hw', hm', hc', hv', hx'⟩ := h'
  cases hcon.symm.trans hcon'
  cases hk.symm.trans hk'
  cases hw.symm.trans hw'
  cases hm.symm.trans hm'
  exact ⟨Option.some.inj (hc'.symm.trans hc), Option.some.inj (hv'.symm.trans hv), Option.some.inj (hx'.symm.trans hx)⟩

theorem Drv.JoinsAt.after (h' : Settled s') (he : s.event ev s') (stays : ∀ ds, ev ≠ .teardown p ds)
    (joins : s.JoinsAt p c v x) : s'.JoinsAt p c v x := by
  obtain ⟨con, k, w, m, hcon, hk, hw, hm, hc, hv, hx⟩ := joins
  have kept : ∃ con', s'.gConnsList.get? p = some con' ∧ con'.clientP = some k ∧ con'.serverP = some w ∧
      con'.memP = some m := by
    rcases conn_event he hcon with ⟨ds, hev⟩ | same | ⟨_, hcon'⟩
    · exact absurd hev (stays ds)
    · exact ⟨con, same, hk, hw, hm⟩
    · exact ⟨_, hcon', hk, hw, hm⟩
  obtain ⟨con', hcon', hk', hw', hm'⟩ := kept
  obtain ⟨k₁, w₁, m₁, c₁, v₁, x₁, hk₁, hw₁, hm₁, hc₁, hv₁, hx₁⟩ := h'.joined hcon'
  cases hk'.symm.trans hk₁
  cases hw'.symm.trans hw₁
  cases hm'.symm.trans hm₁
  exact ⟨con', k, w, m, hcon', hk', hw', hm', idOf_stays he hc (by simp [hc₁]), idOf_stays he hv (by simp [hv₁]),
    idOf_stays he hx (by simp [hx₁])⟩

theorem Drv.JoinsAt.before (h : Settled s) (h' : Settled s') (he : s.event ev s')
    (new : ∀ k v m e, ev ≠ .link p k v m e) (joins : s'.JoinsAt p c v x) :
    s.JoinsAt p c v x ∧ ∀ ds, ev ≠ .teardown p ds := by
  have live : p ∈ s'.gConnsList.keys := by
    obtain ⟨con, _, _, _, hcon, _⟩ := joins
    exact Table.mem_keys.mpr ⟨con, hcon⟩
  obtain ⟨old, hold⟩ := Table.mem_keys.mp (conns_event he new live)
  have stays : ∀ ds, ev ≠ .teardown p ds := by
    rintro ds rfl
    exact (teardown_gone he).2 live
  obtain ⟨k₁, w₁, m₁, c₁, v₁, x₁, hk₁, hw₁, hm₁, hc₁, hv₁, hx₁⟩ := h.joined hold
  have before : s.JoinsAt p c₁ v₁ x₁ := ⟨old, k₁, w₁, m₁, hold, hk₁, hw₁, hm₁, hc₁, hv₁, hx₁⟩
  obtain ⟨rfl, rfl, rfl⟩ := joins.unique (before.after h' he stays)
  exact ⟨before, stays⟩

theorem Drv.JoinsAt.conn_unique {q : Ptr} {v' x' : Int} (h : Settled s) (joins : s.JoinsAt p c v x)
    (joins' : s.JoinsAt q c v' x') : q = p := by
  obtain ⟨con, k, _, _, hcon, hk, _, _, hc, _⟩ := joins
  obtain ⟨con', k', _, _, hcon', hk', _, _, hc', _⟩ := joins'
  have same := h.valid.unique _ _ c hc hc'
  cases same
  obtain ⟨cli, hcli, hp⟩ := h.whole.wf.links.connClient p con k hcon hk
  obtain ⟨cli', hcli', hq⟩ := h.whole.wf.links.connClient q con' k hcon' hk'
  cases hcli.symm.trans hcli'
  exact Option.some.inj (hq.symm.trans hp)

section

variable (h : Settled s) (h' : Settled s') (he : s.event ev s')

include h h' he

theorem clients_same (adds : ∀ k i owner, ev ≠ .addClient k i owner) (drops : ∀ e x i, ev ≠ .dropClient e x i) :
    s'.hub.clients = s.hub.clients := by
  funext i
  ext t
  rw [hub_clients h', hub_clients h]
  exact registers_event h.whole.wf he adds drops

theorem servers_same (adds : ∀ v n i owner, ev ≠ .addServer v n i owner) (drops : ∀ e x i, ev ≠ .dropServer e x i) :
    s'.hub.servers = s.hub.servers := by
  obtain ⟨servers, entries⟩ := servers_event he adds drops
  funext i
  ext ⟨t, n⟩
  rw [hub_servers h', hub_servers h, Drv.Offers, Drv.Offers, servers, entries]

theorem links_same (links : ∀ p k v m e, ev ≠ .link p k v m e) (ends : ∀ p ds, ev ≠ .teardown p ds) :
    s'.hub.links = s.hub.links := by
  funext c
  ext ⟨v, x⟩
  rw [hub_links h', hub_links h]
  constructor
  · rintro ⟨p, joins⟩
    exact ⟨p, (joins.before h h' he (links p)).1⟩
  · rintro ⟨p, joins⟩
    exact ⟨p, joins.after h' he (ends p)⟩

end

theorem parties_counted {tasks : Table RegTask} {g : RegTask → RegTask} (same : ∀ task, (g task).party = task.party) :
    (fun u => ((tasks.modify t g).get? u).map RegTask.party) = fun u => (tasks.get? u).map RegTask.party := by
  funext u
  rw [Table.get?_modify]
  split
  next => rw [Option.map_map, show RegTask.party ∘ g = RegTask.party from funext same]
  next => rfl

theorem parties_altered {g : RegTask → RegTask}
    {f : Party TaskStruct NotificationData → Party TaskStruct NotificationData}
    (does : ∀ task, s.gRegTaskList.get? t = some task → (g task).party = f task.party) :
    (fun u => ((s.gRegTaskList.modify t g).get? u).map RegTask.party) = (s.hub.alter t f).parties := by
  funext u
  rw [Broker.parties_alter, Table.get?_modify]
  split
  next same =>
    show _ = ((s.gRegTaskList.get? u).map RegTask.party).map f
    cases hu : s.gRegTaskList.get? u with
    | none => rfl
    | some task => exact congrArg some (does task (same ▸ hu))
  next => rfl

theorem hub_openTask {task : TaskStruct} (he : s.event (.openTask f t task) s') : s'.hub = s.hub.enter f t task := by
  obtain ⟨ok, rfl⟩ := he
  refine Broker.ext ?_ ?_ rfl rfl rfl
  · funext g
    rw [Broker.handles_enter]
    exact Table.get?_pushFront ok.1
  · funext u
    rw [Broker.parties_enter]
    show (Table.get? (s.gRegTaskList.pushFront t _) u).map RegTask.party = _
    rw [Table.get?_pushFront ok.2]
    split <;> rfl

theorem hub_closeFile (he : s.event (.closeFile f) s') : s'.hub = s.hub.close f := by
  obtain ⟨_, rfl⟩ := he
  refine Broker.ext ?_ rfl rfl rfl rfl
  funext g
  rw [Broker.handles_close]
  exact Table.get?_erase

theorem hub_dequeue (he : s.event (.dequeue t) s') : s'.hub = s.hub.take t := by
  obtain ⟨_, rfl⟩ := he
  exact Broker.ext rfl (parties_altered fun _ _ => rfl) rfl rfl rfl

theorem hub_setMonitor {task : RegTask} (ht : s.gRegTaskList.get? t = some task) (idle : task.isMonitor = 0)
    (he : s.event (.setMonitor t) s') : s'.hub = s.hub.watch t := by
  obtain ⟨_, rfl⟩ := he
  refine Broker.ext rfl (parties_altered fun task' ht' => ?_) rfl rfl rfl
  cases ht.symm.trans ht'
  simp [RegTask.party, idle]

theorem Settled.unused (h : Settled s) (clients : ∀ k, s.idOf (.client k) ≠ some i)
    (servers : ∀ w, s.idOf (.server w) ≠ some i)
    (channels : ∀ p con m, s.gConnsList.get? p = some con → con.memP = some m → s.idOf (.subMem m) ≠ some i) :
    s.hub.Unused i := by
  refine ⟨?_, ?_, fun c v x hc => ?_⟩
  · by_contra known
    obtain ⟨t, ht⟩ := Option.ne_none_iff_exists'.mp known
    obtain ⟨_, y, _, _, hid⟩ := (hub_clients h).mp ht
    exact clients _ hid
  · by_contra known
    obtain ⟨⟨t, n⟩, ht⟩ := Option.ne_none_iff_exists'.mp known
    obtain ⟨_, y, srv, _, _, hsrv, rfl, _⟩ := (hub_servers h).mp ht
    exact servers _ (idOf_server hsrv)
  · rintro rfl
    obtain ⟨p, con, _, _, m, hcon, _, _, hm, _, _, hx⟩ := (hub_links h).mp hc
    exact channels p con m hcon hm hx

theorem unused_of_fresh (h : Settled s) (valid : isIdValid i = true) (fresh : FreshIds s.gIdGen [i]) :
    s.hub.Unused i := by
  have h0 := (isIdValid_iff.mp valid).1
  have free : ∀ a, s.idOf a ≠ some i := fun a ha => (fresh.1 h0).2 (h.orderly.ids.taken a i h0 ha)
  exact h.unused (fun _ => free _) (fun _ => free _) fun _ _ _ _ _ => free _

theorem hub_addServer {e : Ptr} (h : Settled s) (h' : Settled s') (valid : isIdValid i = true)
    (he : s.event (.addServer w n i (some (e, t))) s') : s'.hub = s.hub.offer t i n := by
  refine Broker.ext ?_ ?_ (clients_same h h' he (by simp) (by simp)) ?_ (links_same h h' he (by simp) (by simp))
  · rw [he.2]
    rfl
  · rw [he.2]
    exact parties_counted fun _ => rfl
  · funext j
    ext ⟨u, name⟩
    rw [hub_servers h', offers_add h.whole.wf he, Broker.servers_offer, ← hub_servers h]
    split
    next same =>
      have unused := (unused_of_fresh h valid he.1.2.1).server
      simp [same, unused, eq_comm]
    next other => simp [other]

theorem hub_addClient {e : Ptr} (h : Settled s) (h' : Settled s') (valid : isIdValid i = true)
    (he : s.event (.addClient k i (some (e, t))) s') : s'.hub = s.hub.join t i := by
  refine Broker.ext ?_ ?_ ?_ (servers_same h h' he (by simp) (by simp)) (links_same h h' he (by simp) (by simp))
  · rw [he.2]
    rfl
  · rw [he.2]
    exact parties_counted fun _ => rfl
  · funext j
    ext u
    rw [hub_clients h', registers_add h.whole.wf he, Broker.clients_join, ← hub_clients h]
    split
    next same =>
      have unused := (unused_of_fresh h valid he.1.2.1).client
      simp [same, unused]
    next other => simp [other]

theorem hub_dropServer {e : Ptr} {y : ServersList} (h : Settled s) (h' : Settled s')
    (he : s.event (.dropServer e y i) s') : s'.hub = s.hub.withdraw i := by
  refine Broker.ext ?_ ?_ (clients_same h h' he (by simp) (by simp)) ?_ (links_same h h' he (by simp) (by simp))
  · rw [he.2]
    rfl
  · rw [he.2]
    exact parties_counted fun _ => rfl
  · funext j
    ext ⟨u, name⟩
    rw [hub_servers h', offers_drop h he, Broker.servers_withdraw, ← hub_servers h]
    split
    next same => simp [same]
    next other => simp [other]

theorem hub_dropClient {e : Ptr} {y : ClientsList} (h : Settled s) (h' : Settled s')
    (he : s.event (.dropClient e y i) s') : s'.hub = s.hub.resign i := by
  have h0 : 0 ≤ i := by
    obtain ⟨⟨_, cli, hcli, rfl, _⟩, _⟩ := he
    exact (h.valid.range _ cli.id (idOf_client hcli)).1
  refine Broker.ext ?_ ?_ ?_ (servers_same h h' he (by simp) (by simp)) (links_same h h' he (by simp) (by simp))
  · rw [he.2]
    rfl
  · rw [he.2]
    exact parties_counted fun _ => rfl
  · funext j
    ext u
    rw [hub_clients h', registers_drop h.orderly h0 he, Broker.clients_resign, ← hub_clients h]
    split
    next same => simp [same]
    next other => simp [other]

theorem hub_addPool {shm : Shm} (h : Settled s) (h' : Settled s') (he : s.event (.addPool p shm) s') :
    s'.hub = s.hub := by
  refine Broker.ext ?_ ?_ (clients_same h h' he (by simp) (by simp)) (servers_same h h' he (by simp) (by simp))
    (links_same h h' he (by simp) (by simp)) <;>
  · rw [he.2, Drv.apply, Drv.addPool, takeIds_frame]
    rfl

theorem hub_mmaped (h : Settled s) (h' : Settled s') (he : s.event (.mmaped p) s') : s'.hub = s.hub := by
  refine Broker.ext ?_ ?_ (clients_same h h' he (by simp) (by simp)) (servers_same h h' he (by simp) (by simp))
    (links_same h h' he (by simp) (by simp)) <;>
  · rw [he.2]
    rfl

theorem joinsAt_link {m : SubMemPtr} {e : Option Ptr} {q : Ptr} {d u y : Int} (hc : s.idOf (.client k) = some c)
    (hv : s.idOf (.server w) = some v) (hx : s.idOf (.subMem m) = some x) (he : s.event (.link p k w m e) s') :
    s'.JoinsAt q d u y ↔ if q = p then d = c ∧ u = v ∧ y = x else s.JoinsAt q d u y := by
  obtain ⟨ok, rfl⟩ := he
  unfold Drv.JoinsAt
  simp only [Drv.apply, conns_link ok.1, idOf_link]
  split
  next =>
    constructor
    · rintro ⟨con, k', w', m', hcon, hk, hw, hm, hd, hu, hy⟩
      cases hcon
      cases hk
      cases hw
      cases hm
      exact ⟨Option.some.inj (hd.symm.trans hc), Option.some.inj (hu.symm.trans hv), Option.some.inj (hy.symm.trans hx)⟩
    · rintro ⟨rfl, rfl, rfl⟩
      exact ⟨_, k, w, m, rfl, rfl, rfl, rfl, hc, hv, hx⟩
  next => rfl

theorem hub_link {m : SubMemPtr} {e : Option Ptr} (h : Settled s) (h' : Settled s')
    (hc : s.idOf (.client k) = some c) (hv : s.idOf (.server w) = some v) (hx : s.idOf (.subMem m) = some x)
    (he : s.event (.link p k w m e) s') : s'.hub = s.hub.connect c v x := by
  refine Broker.ext ?_ ?_ (clients_same h h' he (by simp) (by simp)) (servers_same h h' he (by simp) (by simp)) ?_
  · rw [he.2]
    rfl
  · rw [he.2]
    rfl
  · funext d
    ext ⟨u, y⟩
    rw [hub_links h', Broker.links_connect]
    have new : s'.JoinsAt p c v x := (joinsAt_link hc hv hx he).mpr (by rw [if_pos rfl]; exact ⟨rfl, rfl, rfl⟩)
    split
    next same =>
      constructor
      · rintro ⟨q, joins⟩
        rw [same] at joins
        obtain rfl := new.conn_unique h' joins
        obtain ⟨_, rfl, rfl⟩ := new.unique joins
        rfl
      · intro made
        cases made
        exact ⟨p, same ▸ new⟩
    next other =>
      rw [hub_links h]
      constructor
      · rintro ⟨q, joins⟩
        rw [joinsAt_link hc hv hx he] at joins
        split at joins
        next => exact absurd joins.1 other
        next => exact ⟨q, joins⟩
      · rintro ⟨q, joins⟩
        refine ⟨q, (joinsAt_link hc hv hx he).mpr ?_⟩
        rw [if_neg]
        · exact joins
        · rintro rfl
          obtain ⟨con, _, _, _, hcon, _⟩ := joins
          exact he.1.1 (Table.mem_keys.mpr ⟨con, hcon⟩)

theorem unused_of_free {m : SubMemPtr} (h : Settled s) (free : FirstFree s m) (hx : s.idOf (.subMem m) = some x) :
    s.hub.Unused x := by
  refine h.unused (fun k hk => ?_) (fun w hw => ?_) fun p con m' hcon hm hy => ?_
  · cases h.valid.unique _ _ x hk hx
  · cases h.valid.unique _ _ x hw hx
  · have same := h.valid.unique _ _ x hy hx
    cases same
    obtain ⟨sub, hsub, used⟩ := h.whole.wf.links.connMem p con m hcon hm
    obtain ⟨sub', hsub', unused⟩ := findFreeSubmem_free free
    cases hsub.symm.trans hsub'
    cases used.symm.trans unused

theorem joinsAt_teardown {ds : List (Ptr × NotificationData)} {q : Ptr} (h : Settled s) (h' : Settled s')
    (he : s.event (.teardown p ds) s') : s'.JoinsAt q c v x ↔ s.JoinsAt q c v x ∧ q ≠ p := by
  constructor
  · intro joins
    obtain ⟨before, stays⟩ := joins.before h h' he (by simp)
    exact ⟨before, fun same => stays ds (same ▸ rfl)⟩
  · rintro ⟨joins, other⟩
    exact joins.after h' he (by simpa using Ne.symm other)

theorem links_teardown {ds : List (Ptr × NotificationData)} (h : Settled s) (h' : Settled s')
    (joins : s.JoinsAt p c v x) (he : s.event (.teardown p ds) s') (d : Int) :
    s'.hub.links d = if d = c then none else s.hub.links d := by
  ext ⟨u, y⟩
  rw [hub_links h']
  split
  next same =>
    constructor
    · rintro ⟨q, gone⟩
      obtain ⟨old, other⟩ := (joinsAt_teardown h h' he).mp gone
      exact absurd (joins.conn_unique h (same ▸ old)) other
    · intro none
      cases none
  next other =>
    rw [hub_links h]
    constructor
    · rintro ⟨q, left⟩
      exact ⟨q, ((joinsAt_teardown h h' he).mp left).1⟩
    · rintro ⟨q, old⟩
      refine ⟨q, (joinsAt_teardown h h' he).mpr ⟨old, ?_⟩⟩
      rintro rfl
      exact other (joins.unique old).1

end Ripc
