import Ripc.DriverSends

namespace Ripc

/-- Nobody but its own client, slot and server refers to the connection. -/
structure OnlyLinks (s : Drv) (p : Ptr) (c : Connection) : Prop where
  client : ∀ k cli, s.gClientsList.get? k = some cli → cli.connP = some p → c.clientP = some k
  mem : ∀ m sub, s.subMem? m = some sub → sub.connP = some p → c.memP = some m
  entry : ∀ e x, s.servConns.get? e = some x → x.conn = p → c.serverP = some x.server
  unique : ∀ e x e' x', s.servConns.get? e = some x → s.servConns.get? e' = some x' →
    x.conn = p → x'.conn = p → e = e'

theorem Links.only {s : Drv} (h : Links s.gConnsList s.gClientsList s.gShmList s.servConns) {p : Ptr}
    {c : Connection} (hc : s.gConnsList.get? p = some c) : OnlyLinks s p c := by
  refine ⟨?_, ?_, ?_, ?_⟩
  · intro k cli hk hp
    obtain ⟨c', hc', hck⟩ := h.clientConn k cli p hk hp
    cases hc.symm.trans hc'
    exact hck
  · intro m sub hm hp
    obtain ⟨c', hc', hcm⟩ := h.memConn m sub p hm hp
    cases hc.symm.trans hc'
    exact hcm
  · rintro e x hx rfl
    obtain ⟨c', hc', hcv⟩ := h.entryConn e x hx
    cases hc.symm.trans hc'
    exact hcv
  · intro e x e' x' hx hx' hp hp'
    exact h.entryUnique e x e' x' hx hx' (hp.trans hp'.symm)

theorem OnlyLinks.clearClient {s : Drv} {p : Ptr} {c : Connection} (h : OnlyLinks s p c) (k : Ptr) :
    OnlyLinks { s with gClientsList := s.gClientsList.modify k fun c => { c with connP := none } } p c := by
  refine ⟨fun k' cli hk hp => ?_, h.mem, h.entry, h.unique⟩
  rw [Table.get?_modify] at hk
  split at hk
  next =>
    obtain ⟨old, _, rfl⟩ := Option.map_eq_some_iff.mp hk
    cases hp
  next => exact h.client k' cli hk hp

theorem OnlyLinks.eraseEntry {s : Drv} {p : Ptr} {c : Connection} (h : OnlyLinks s p c) (e : Ptr) :
    OnlyLinks { s with servConns := s.servConns.erase e } p c :=
  ⟨h.client, h.mem, fun f y hf => h.entry f y (Table.get?_erase_some.mp hf).2, fun f y f' y' hf hf' =>
    h.unique f y f' y' (Table.get?_erase_some.mp hf).2 (Table.get?_erase_some.mp hf').2⟩

theorem forget_of_ne {p : Ptr} {o : Option Ptr} (h : o ≠ some p) : forget p o = o := if_neg h

def forgetSlots (p : Ptr) (pools : Table Shm) : Table Shm :=
  pools.mapAt fun _ shm => { shm with subMems := fun i =>
    { shm.subMems i with connP := forget p (shm.subMems i).connP } }

def forgetClients (p : Ptr) (clients : Table Client) : Table Client :=
  clients.mapAt fun _ cli => { cli with connP := forget p cli.connP }

def forgetEntries (p : Ptr) (entries : Table ServConnList) : Table ServConnList :=
  entries.filterAt fun _ x => x.conn ≠ p

theorem clearSlot_eq {s : Drv} {p : Ptr} {m : SubMemPtr} {sub : SubMem} (hsub : s.subMem? m = some sub)
    (only : ∀ m' sub', s.subMem? m' = some sub' → sub'.connP = some p → m' = m) :
    (if sub.connP = some p then s.setSubMem m fun sub => { sub with connP := none } else s) =
      { s with gShmList := forgetSlots p s.gShmList } := by
  have other : ∀ {q shm i}, s.gShmList.get? q = some shm → (⟨q, i⟩ : SubMemPtr) ≠ m →
      forget p (shm.subMems i).connP = (shm.subMems i).connP := by
    intro q shm i hq hne
    exact forget_of_ne fun hp => hne (only ⟨q, i⟩ _ (by simp [Drv.subMem?, subMemAt, hq]) hp)
  split
  next hp =>
    have same : s.gShmList.modify m.shm (fun shm => { shm with subMems := fun i =>
        if i = m.slot then { shm.subMems i with connP := none } else shm.subMems i }) =
        forgetSlots p s.gShmList := by
      apply Table.modify_eq_mapAt
      · intro shm hq
        have hslot : shm.subMems m.slot = sub := by
          simpa [Drv.subMem?, subMemAt, hq] using hsub
        congr 1
        funext i
        split
        next hi => rw [hi, hslot, hp, forget, if_pos rfl]
        next hi => rw [other hq fun he => hi (congrArg SubMemPtr.slot he)]
      · intro q shm hq hne
        have all : ∀ i, forget p (shm.subMems i).connP = (shm.subMems i).connP :=
          fun i => other hq fun he => hne (congrArg SubMemPtr.shm he)
        simp only [all]
    rw [Drv.setSubMem, same]
  next hp =>
    rw [forgetSlots, Table.mapAt_eq_self]
    intro q shm hq
    have all : ∀ i, forget p (shm.subMems i).connP = (shm.subMems i).connP := by
      intro i
      refine forget_of_ne fun hi => ?_
      cases only ⟨q, i⟩ (shm.subMems i) (by simp [Drv.subMem?, subMemAt, hq]) hi
      simp only [Drv.subMem?, subMemAt, hq, Option.map_some, Option.some.injEq] at hsub
      exact hp (hsub ▸ hi)
    simp only [all]

theorem safeDisconnectSubmem_ok {s s' : Drv} {p : Ptr} {c : Connection}
    (h : safeDisconnectSubmem s p = .ok s') (hc : s.gConnsList.get? p = some c)
    (only : ∀ m sub, s.subMem? m = some sub → sub.connP = some p → c.memP = some m) : ∃ conns,
      s' = { s with gShmList := forgetSlots p s.gShmList, gConnsList := conns } ∧
      conns.get? p = some { c with memP := none } ∧ conns.erase p = s.gConnsList.erase p := by
  obtain ⟨c', hc', h⟩ := bind_eq_ok.mp h
  cases (deref_some hc').symm.trans hc
  split at h
  next hm =>
    cases h
    refine ⟨s.gConnsList, ?_, by rw [hc]; simp [← hm], rfl⟩
    rw [forgetSlots, Table.mapAt_eq_self]
    intro q shm hq
    have all : ∀ i, forget p (shm.subMems i).connP = (shm.subMems i).connP := by
      refine fun i => forget_of_ne fun hp => ?_
      have hmem := only ⟨q, i⟩ _ (by simp [Drv.subMem?, subMemAt, hq]) hp
      simp [hm] at hmem
    simp only [all]
  next m hm =>
    obtain ⟨sub, hsub, h⟩ := bind_eq_ok.mp h
    have cleared := clearSlot_eq (derefSubMem_ok hsub) fun m' sub' hs hp =>
      Option.some.inj ((only m' sub' hs hp).symm.trans hm)
    rw [cleared] at h
    cases h
    exact ⟨s.gConnsList.modify p fun c => { c with memP := none }, rfl,
      by rw [Table.get?_modify, if_pos rfl, hc, Option.map_some], Table.erase_modify _⟩

theorem clearClient_eq {s : Drv} {p k : Ptr} {cli : Client} (hcli : s.gClientsList.get? k = some cli)
    (only : ∀ k' cli', s.gClientsList.get? k' = some cli' → cli'.connP = some p → k' = k) :
    (if cli.connP = some p then
      { s with gClientsList := s.gClientsList.modify k fun cli => { cli with connP := none } } else s) =
      { s with gClientsList := forgetClients p s.gClientsList } := by
  split
  next hp =>
    have same : (s.gClientsList.modify k fun cli => { cli with connP := none }) =
        forgetClients p s.gClientsList := by
      apply Table.modify_eq_mapAt
      · intro cli' hk
        cases hk.symm.trans hcli
        rw [hp, forget, if_pos rfl]
      · intro k' cli' hk hne
        rw [forget_of_ne fun he => hne (only k' cli' hk he)]
    rw [same]
  next hp =>
    rw [forgetClients, Table.mapAt_eq_self]
    intro k' cli' hk
    rw [forget_of_ne]
    intro he
    cases only k' cli' hk he
    cases hk.symm.trans hcli
    exact hp he

theorem detachClient_ok {s s' : Drv} {p : Ptr} {c : Connection} (h : detachClient s p = .ok s')
    (hc : s.gConnsList.get? p = some c)
    (only : ∀ k cli, s.gClientsList.get? k = some cli → cli.connP = some p → c.clientP = some k) : ∃ conns,
      s' = { s with gClientsList := forgetClients p s.gClientsList, gConnsList := conns } ∧
      conns.get? p = some { c with clientP := none } ∧ conns.erase p = s.gConnsList.erase p := by
  obtain ⟨c', hc', h⟩ := bind_eq_ok.mp h
  cases (deref_some hc').symm.trans hc
  split at h
  next hk =>
    cases h
    refine ⟨s.gConnsList, ?_, by rw [hc]; simp [← hk], rfl⟩
    rw [forgetClients, Table.mapAt_eq_self]
    intro k cli hcli
    rw [forget_of_ne]
    intro hp
    have hclient := only k cli hcli hp
    simp [hk] at hclient
  next k hk =>
    obtain ⟨cli, hcli, h⟩ := bind_eq_ok.mp h
    have cleared := clearClient_eq (deref_some hcli) fun k' cli' hk' hp =>
      Option.some.inj ((only k' cli' hk' hp).symm.trans hk)
    rw [cleared] at h
    cases h
    exact ⟨s.gConnsList.modify p fun c => { c with clientP := none }, rfl,
      by rw [Table.get?_modify, if_pos rfl, hc, Option.map_some], Table.erase_modify _⟩

theorem eraseEntry_eq {entries : Table ServConnList} {p e : Ptr} {x : ServConnList}
    (hx : entries.get? e = some x) (hp : x.conn = p)
    (unique : ∀ f y, entries.get? f = some y → y.conn = p → f = e) :
    entries.erase e = forgetEntries p entries := by
  refine Table.filterAt_congr fun f y hy => ?_
  rw [decide_eq_decide]
  constructor
  · exact fun hne hc => hne (unique f y hy hc)
  · rintro hne rfl
    cases hx.symm.trans hy
    exact hne hp

theorem forgetEntries_eq_self {entries : Table ServConnList} {p : Ptr}
    (none : ∀ e x, entries.get? e = some x → x.conn ≠ p) : forgetEntries p entries = entries :=
  Table.filterAt_eq_self fun e x hx => decide_eq_true (none e x hx)

theorem serverFindConn_some {s : Drv} {v p e : Ptr} (h : serverFindConn s v p = some e) :
    ∃ x, s.servConns.get? e = some x ∧ x.server = v ∧ x.conn = p := by
  obtain ⟨⟨f, x⟩, he, rfl⟩ := Option.map_eq_some_iff.mp h
  obtain ⟨hm, hv⟩ := List.mem_filter.mp (List.mem_of_find?_eq_some he)
  exact ⟨x, Table.get?_eq_some.mpr hm, by simpa using hv, by simpa using List.find?_some he⟩

theorem serverFindConn_none {s : Drv} {v p e : Ptr} {x : ServConnList} (h : serverFindConn s v p = none)
    (hx : s.servConns.get? e = some x) (hv : x.server = v) : x.conn ≠ p := by
  have hnone := List.find?_eq_none.mp (Option.map_eq_none_iff.mp h) (e, x)
    (List.mem_filter.mpr ⟨Table.get?_eq_some.mp hx, by simpa using hv⟩)
  simpa using hnone

theorem detachServer_ok {s s' : Drv} {p : Ptr} {c : Connection} (h : detachServer s p = .ok s')
    (hc : s.gConnsList.get? p = some c)
    (entry : ∀ e x, s.servConns.get? e = some x → x.conn = p → c.serverP = some x.server)
    (unique : ∀ e x e' x', s.servConns.get? e = some x → s.servConns.get? e' = some x' →
      x.conn = p → x'.conn = p → e = e') : ∃ conns,
      s' = { s with servConns := forgetEntries p s.servConns, gConnsList := conns } ∧
      conns.erase p = s.gConnsList.erase p := by
  obtain ⟨c', hc', h⟩ := bind_eq_ok.mp h
  cases (deref_some hc').symm.trans hc
  split at h
  next hv =>
    cases h
    refine ⟨s.gConnsList, ?_, rfl⟩
    rw [forgetEntries_eq_self fun e x hx hp => by simp [hv] at entry; exact entry e x hx hp]
  next v hv =>
    obtain ⟨srv, _, h⟩ := bind_eq_ok.mp h
    cases h
    refine ⟨s.gConnsList.modify p fun c => { c with serverP := none }, ?_, Table.erase_modify _⟩
    split
    next hnone =>
      rw [forgetEntries_eq_self]
      intro e x hx hp
      exact serverFindConn_none hnone hx (Option.some.inj ((entry e x hx hp).symm.trans hv)) hp
    next e he =>
      obtain ⟨x, hx, _, hp⟩ := serverFindConn_some he
      rw [eraseEntry_eq hx hp fun f y hy hc => unique f y e x hy hx hc hp]

theorem notificationSend_list {K : Kernel} {s s' : Drv} {sender : NotifSender} {p : Ptr} {ret : Int}
    (h : notificationSend K s sender .remoteDisconnect p = .ok (ret, s')) :
    ∃ ds, s' = s.enqueueAll ds ∧ ∀ x ∈ ds, Posts s p x.2 x.1 ∧ x.2.type = .remoteDisconnect := by
  rcases notificationSend_ok h with ⟨_, rfl⟩ | ⟨_, t, d, rfl, posts, htype, _⟩
  · exact ⟨[], rfl, by simp⟩
  · refine ⟨[(t, d)], rfl, fun x hx => ?_⟩
    rw [List.mem_singleton.mp hx]
    exact ⟨posts, htype⟩

theorem notificationSend_frame {K : Kernel} {s s' : Drv} {sender : NotifSender} {p : Ptr} {ret : Int}
    (h : notificationSend K s sender .remoteDisconnect p = .ok (ret, s')) :
    s' = { s with gRegTaskList := s'.gRegTaskList } := by
  obtain ⟨ds, rfl, _⟩ := notificationSend_list h
  rw [enqueueAll_eq]

theorem Posts.ofEnqueueAll {s : Drv} {p t : Ptr} {d : NotificationData}
    {ds : List (Ptr × NotificationData)} (h : Posts (s.enqueueAll ds) p d t) : Posts s p d t := by
  rw [enqueueAll_eq] at h
  exact h.transfer rfl rfl rfl rfl rfl (keys_postAll s.gRegTaskList ds).symm fun k cli hk => ⟨cli, hk, rfl, rfl⟩

theorem enqueueAll_append (s : Drv) (ds ds' : List (Ptr × NotificationData)) :
    s.enqueueAll (ds ++ ds') = (s.enqueueAll ds).enqueueAll ds' :=
  List.foldl_append

theorem conns_enqueueAll (s : Drv) (ds : List (Ptr × NotificationData)) :
    (s.enqueueAll ds).gConnsList = s.gConnsList := by
  rw [enqueueAll_eq]

theorem OnlyLinks.enqueueAll {s : Drv} {p : Ptr} {c : Connection} (h : OnlyLinks s p c)
    (ds : List (Ptr × NotificationData)) : OnlyLinks (s.enqueueAll ds) p c := by
  rw [enqueueAll_eq]
  exact ⟨h.client, h.mem, h.entry, h.unique⟩

/-- `delete_connection` notifies both sides, the server last, and removes the connection everywhere. -/
theorem deleteConnection_sends {K : Kernel} {s s' : Drv} {p : Ptr} {c : Connection}
    (h : deleteConnection K s p = .ok s') (hc : s.gConnsList.get? p = some c)
    (only : OnlyLinks s p c) : ∃ r₁ r₂ s₁ s₂, notificationSend K s .server .remoteDisconnect p = .ok (r₁, s₁) ∧
      notificationSend K s₁ .client .remoteDisconnect p = .ok (r₂, s₂) ∧ s' = s₂.unlink p := by
  obtain ⟨⟨r₁, s₁⟩, h₁, h⟩ := bind_eq_ok.mp h
  obtain ⟨⟨r₂, s₂⟩, h₂, h⟩ := bind_eq_ok.mp h
  refine ⟨r₁, r₂, s₁, s₂, h₁, h₂, ?_⟩
  obtain ⟨ds₁, rfl, _⟩ := notificationSend_list h₁
  obtain ⟨ds₂, rfl, _⟩ := notificationSend_list h₂
  rw [← enqueueAll_append] at h ⊢
  have hc := conns_enqueueAll s (ds₁ ++ ds₂) ▸ hc
  have only := only.enqueueAll (ds₁ ++ ds₂)
  obtain ⟨s₃, h₃, h⟩ := bind_eq_ok.mp h
  obtain ⟨s₄, h₄, h⟩ := bind_eq_ok.mp h
  obtain ⟨s₅, h₅, h⟩ := bind_eq_ok.mp h
  cases h
  obtain ⟨conns₃, rfl, hc₃, he₃⟩ := safeDisconnectSubmem_ok h₃ hc only.mem
  obtain ⟨conns₄, rfl, hc₄, he₄⟩ := detachClient_ok h₄ hc₃ only.client
  obtain ⟨conns₅, rfl, he₅⟩ := detachServer_ok h₅ hc₄ only.entry only.unique
  simp only [he₅, he₄, he₃]
  rfl

theorem deleteConnection_ok {K : Kernel} {s s' : Drv} {p : Ptr} {c : Connection}
    (h : deleteConnection K s p = .ok s') (hc : s.gConnsList.get? p = some c)
    (only : OnlyLinks s p c) : ∃ ds, s' = (s.enqueueAll ds).unlink p ∧
      ∀ x ∈ ds, Posts s p x.2 x.1 ∧ x.2.type = .remoteDisconnect := by
  obtain ⟨_, _, s₁, s₂, h₁, h₂, rfl⟩ := deleteConnection_sends h hc only
  obtain ⟨ds₁, rfl, posts₁⟩ := notificationSend_list h₁
  obtain ⟨ds₂, rfl, posts₂⟩ := notificationSend_list h₂
  refine ⟨ds₁ ++ ds₂, by rw [enqueueAll_append], fun x hx => ?_⟩
  rcases List.mem_append.mp hx with hx | hx
  · exact posts₁ x hx
  · exact ⟨(posts₂ x hx).1.ofEnqueueAll, (posts₂ x hx).2⟩

end Ripc
