import Ripc.DriverRelease
import Ripc.DriverRegister

namespace Ripc

/-- Which events a call may perform, and what it takes for each. -/
def Call.May (call : Call) (s : Drv) : Event → Prop
  | .openTask _ _ task => call.op = .open ∧ task = call.kernel.current
  | .closeTask filp _ | .closeFile filp => call.op = .release filp
  | .setMonitor _ | .mmaped _ | .teardown _ _ | .dropServer _ _ _ | .dropClient _ _ _ => True
  | .post p _ d => d.whoSends = .server → ∃ e x, s.servConns.get? e = some x ∧ x.conn = p
  | .dequeue t => ∃ filp count, call.op = .read filp count ∧ s.files.get? filp = some t
  | .addServer _ name _ owner => ∃ filp reg, call.op = .ioctl filp (.registerServer reg) ∧ name = reg.stored ∧
      findServerByName s reg.name.toList = .ok none ∧ (call.kernel.Succeeds → owner ≠ none)
  | .addClient _ _ owner => ∃ filp, call.op = .ioctl filp .registerClient ∧
      (call.kernel.Succeeds → owner ≠ none)
  | .addPool _ _ => ∃ filp con, call.op = .ioctl filp (.connectToServer con)
  | .link p k v _ e => ∃ filp con, call.op = .ioctl filp (.connectToServer con) ∧
      call.kernel.copyFromUser = true ∧ findClientById s con.clientId = some k ∧
      (∃ cli, s.gClientsList.get? k = some cli ∧ cli.connP = none) ∧
      findServerByName s con.serverName.toList = .ok (some v) ∧
      (findFreeSubmem s ≠ none → call.kernel.kmalloc .conn s = some p) ∧ (call.kernel.Succeeds → e ≠ none)

section

variable {K : Kernel} {s s' : Drv} {r : Reply}

theorem returns_ok {ret : Int} {s₀ : Drv} (h : returns ret s₀ = .ok (r, s')) :
    r = ⟨ret, .nothing⟩ ∧ s' = s₀ := by
  cases h
  exact ⟨rfl, rfl⟩

theorem findClientById_some {id : Int} {k : Ptr} (h : findClientById s id = some k) :
    ∃ cli, s.gClientsList.get? k = some cli ∧ cli.id = id ∧ isIdValid id := by
  unfold findClientById at h
  split at h
  next valid =>
    obtain ⟨cli, hk, hid⟩ := Table.find?_eq_some h
    exact ⟨cli, hk, by simpa using hid, valid⟩
  next => cases h

theorem findServerById_some {id : Int} {v : Ptr} (h : findServerById s id = some v) :
    ∃ srv, s.gServersList.get? v = some srv ∧ srv.id = id ∧ isIdValid id := by
  unfold findServerById at h
  split at h
  next valid =>
    obtain ⟨srv, hv, hid⟩ := Table.find?_eq_some h
    exact ⟨srv, hv, by simpa using hid, valid⟩
  next => cases h

/-- How far `IOCTL_CONNECT_TO_SERVER` gets, and how it ends there. -/
inductive ConnectCase (K : Kernel) (s : Drv) (con : ConnectToServer) : Answer → Prop
  | notCopied (copy : K.copyFromUser = false) : ConnectCase K s con (returns (-EFAULT) s)
  | noClient (copy : K.copyFromUser = true) (hk : findClientById s con.clientId = none) :
      ConnectCase K s con (.error .nullDeref)
  | connected {k cli} (copy : K.copyFromUser = true) (hk : findClientById s con.clientId = some k)
      (hcli : s.gClientsList.get? k = some cli) (connected : cli.connP ≠ none) :
      ConnectCase K s con (returns (-EEXIST) s)
  | faultyName {k cli e} (copy : K.copyFromUser = true) (hk : findClientById s con.clientId = some k)
      (hcli : s.gClientsList.get? k = some cli) (free : cli.connP = none)
      (hf : findServerByName s con.serverName.toList = .error e) : ConnectCase K s con (.error e)
  | endlessName {k cli} (copy : K.copyFromUser = true) (hk : findClientById s con.clientId = some k)
      (hcli : s.gClientsList.get? k = some cli) (free : cli.connP = none)
      (hf : findServerByName s con.serverName.toList = .ok none) (len : strlen con.serverName.toList = none) :
      ConnectCase K s con (.error .overRead)
  | noServer {k cli} (copy : K.copyFromUser = true) (hk : findClientById s con.clientId = some k)
      (hcli : s.gClientsList.get? k = some cli) (free : cli.connP = none)
      (hf : findServerByName s con.serverName.toList = .ok none) (len : strlen con.serverName.toList ≠ none) :
      ConnectCase K s con (returns (-ENODATA) s)
  | asks {k cli v} (copy : K.copyFromUser = true) (hk : findClientById s con.clientId = some k)
      (hcli : s.gClientsList.get? k = some cli) (free : cli.connP = none)
      (hf : findServerByName s con.serverName.toList = .ok (some v)) :
      ConnectCase K s con (connectClientToServer K s v k >>= fun done => returns done.1 done.2)

theorem connectToServer_case (K : Kernel) (s : Drv) (con : ConnectToServer) :
    ConnectCase K s con (connectToServer K s con) := by
  unfold connectToServer
  cases copy : K.copyFromUser with
  | false => exact .notCopied copy
  | true =>
    cases hk : findClientById s con.clientId with
    | none => exact .noClient copy hk
    | some k =>
      obtain ⟨cli, hcli, _⟩ := findClientById_some hk
      simp only [deref_of_get? hcli, ok_bind]
      cases hp : cli.connP with
      | some p => exact .connected copy hk hcli (by simp [hp])
      | none =>
        cases hf : findServerByName s con.serverName.toList with
        | error e => exact .faultyName copy hk hcli hp hf
        | ok found =>
          cases found with
          | some v => exact .asks copy hk hcli hp hf
          | none =>
            cases len : strlen con.serverName.toList with
            | none => exact .endlessName copy hk hcli hp hf len
            | some n => exact .noServer copy hk hcli hp hf (by simp [len])

/-- A connection request fails and adds at most a pool, or links the client it names. -/
theorem connectToServer_ok {con : ConnectToServer} (h : connectToServer K s con = .ok (r, s')) :
    (r.ret < 0 ∧ s' = s) ∨ ∃ k cli v s₁, K.copyFromUser = true ∧
      findClientById s con.clientId = some k ∧ s.gClientsList.get? k = some cli ∧ cli.connP = none ∧
      findServerByName s con.serverName.toList = .ok (some v) ∧
      (s₁ = s ∨ ∃ p, s.GainsPool K p s₁) ∧ ((r.ret < 0 ∧ s' = s₁) ∨
      (r.ret = 0 ∧ ∃ p m e, K.kmalloc .conn s₁ = some p ∧ s₁.event (.link p k v m e) s' ∧
        (K.Succeeds → e ≠ none))) := by
  have case := connectToServer_case K s con
  rw [h] at case
  generalize answered : (Except.ok (r, s') : Answer) = a at case
  cases case with
  | notCopied | connected | noServer => cases answered; exact Or.inl ⟨by decide, rfl⟩
  | noClient | faultyName | endlessName => cases answered
  | @asks k cli v copy hk hcli free hf =>
    obtain ⟨⟨ret, s₂⟩, hc, done⟩ := bind_eq_ok.mp answered.symm
    cases done
    obtain ⟨s₁, pool, done⟩ := connectClientToServer_ok hc hcli free
    exact Or.inr ⟨k, cli, v, s₁, copy, hk, hcli, free, hf, pool, done⟩

theorem clientEndWriting_ok {arg : U32} (h : clientEndWriting K s arg = .ok (r, s')) :
    (r.ret < 0 ∧ s' = s) ∨ (r.ret = 0 ∧ ∃ k cli p t d, findClientById s (unpackId1 arg) = some k ∧
      s.gClientsList.get? k = some cli ∧ cli.connP = some p ∧ s.event (.post p t d) s' ∧
      d.type = .newMessage ∧ d.whoSends = .client) := by
  unfold clientEndWriting at h
  split at h
  next => cases h; exact Or.inl ⟨by decide, rfl⟩
  next k hk =>
    obtain ⟨cli, hcli, h⟩ := bind_eq_ok.mp h
    have hcli := deref_some hcli
    split at h
    next => cases h; exact Or.inl ⟨by decide, rfl⟩
    next p hp =>
      obtain ⟨c, hc, h⟩ := bind_eq_ok.mp h
      split at h
      next => cases h; exact Or.inl ⟨by decide, rfl⟩
      next =>
        obtain ⟨⟨ret, s₁⟩, hs, h⟩ := bind_eq_ok.mp h
        cases h
        rcases notificationSend_ok hs with same | ⟨rfl, t, d, rfl, posts, htype, hwho⟩
        · exact Or.inl same
        · have ok : (Event.post p t d).Ok s := ⟨posts, by simp [htype]⟩
          exact Or.inr ⟨rfl, k, cli, p, t, d, hk, hcli, hp, ⟨ok, rfl⟩, htype, hwho⟩

theorem findConnLoop_some {subMemId : Int} {es : List (Ptr × ServConnList)} {e : Ptr}
    (h : findConnLoop s subMemId es = .ok (some e)) :
    ∃ x, (e, x) ∈ es ∧ ∃ c m sub, s.gConnsList.get? x.conn = some c ∧ c.memP = some m ∧
      s.subMem? m = some sub ∧ sub.id = subMemId := by
  induction es with
  | nil => cases h
  | cons y rest ih =>
    obtain ⟨c, hc, h⟩ := bind_eq_ok.mp h
    have hc := deref_some hc
    split at h
    next =>
      obtain ⟨x, hm, found⟩ := ih h
      exact ⟨x, List.mem_cons_of_mem y hm, found⟩
    next m hm =>
      obtain ⟨sub, hsub, h⟩ := bind_eq_ok.mp h
      split at h
      next hid =>
        cases h
        exact ⟨y.2, List.mem_cons_self, c, m, sub, hc, hm, derefSubMem_ok hsub, hid⟩
      next =>
        obtain ⟨x, hmem, found⟩ := ih h
        exact ⟨x, List.mem_cons_of_mem y hmem, found⟩

theorem serverFindConnBySubMemId_some {v e : Ptr} {subMemId : Int}
    (h : serverFindConnBySubMemId s v subMemId = .ok (some e)) :
    ∃ x, s.servConns.get? e = some x ∧ x.server = v := by
  unfold serverFindConnBySubMemId at h
  split at h
  next =>
    obtain ⟨x, hm, _⟩ := findConnLoop_some h
    obtain ⟨hm, hv⟩ := List.mem_filter.mp hm
    exact ⟨x, Table.get?_eq_some.mpr hm, by simpa using hv⟩
  next => cases h

theorem serverEndWriting_ok {arg : U32} (h : serverEndWriting K s arg = .ok (r, s')) :
    (r.ret < 0 ∧ s' = s) ∨ (r.ret = 0 ∧ ∃ e x t d, s.servConns.get? e = some x ∧
      s.event (.post x.conn t d) s' ∧ d.type = .newMessage ∧ d.whoSends = .server) := by
  unfold serverEndWriting at h
  split at h
  next => cases h; exact Or.inl ⟨by decide, rfl⟩
  next v hv =>
    obtain ⟨o, _, h⟩ := bind_eq_ok.mp h
    obtain ⟨x, hx, h⟩ := bind_eq_ok.mp h
    obtain ⟨e, _, hx⟩ := deref_eq_ok.mp hx
    obtain ⟨c, hc, h⟩ := bind_eq_ok.mp h
    split at h
    next => cases h; exact Or.inl ⟨by decide, rfl⟩
    next =>
      obtain ⟨⟨ret, s₁⟩, hs, h⟩ := bind_eq_ok.mp h
      cases h
      rcases notificationSend_ok hs with same | ⟨rfl, t, d, rfl, posts, htype, hwho⟩
      · exact Or.inl same
      · have ok : (Event.post x.conn t d).Ok s := ⟨posts, by simp [htype]⟩
        exact Or.inr ⟨rfl, e, x, t, d, hx, ⟨ok, rfl⟩, htype, hwho⟩

/-- A notification sent just before the tear-down counts as part of it. -/
theorem teardown_of_send {sender : NotifSender} {p : Ptr} {ret : Int} {s₁ : Drv}
    {ds : List (Ptr × NotificationData)}
    (h : notificationSend K s sender .remoteDisconnect p = .ok (ret, s₁))
    (ev : s₁.event (.teardown p ds) s') : ∃ ds, s.event (.teardown p ds) s' := by
  obtain ⟨ds₀, rfl, posts⟩ := notificationSend_list h
  obtain ⟨⟨live, posts'⟩, rfl⟩ := ev
  refine ⟨ds₀ ++ ds, ⟨by simpa only [conns_enqueueAll] using live, fun x hx => ?_⟩, ?_⟩
  · rcases List.mem_append.mp hx with hx | hx
    · exact posts x hx
    · exact ⟨(posts' x hx).1.ofEnqueueAll, (posts' x hx).2⟩
  · rw [Drv.apply, Drv.apply, enqueueAll_append]

theorem Wf.send {sender : NotifSender} {p : Ptr} {ret : Int} {s₁ : Drv}
    (h : notificationSend K s sender .remoteDisconnect p = .ok (ret, s₁)) (wf : Wf s) : Wf s₁ := by
  obtain ⟨ds, rfl, _⟩ := notificationSend_list h
  exact wf.enqueueAll ds

theorem disconnectClient_ok {k p : Ptr} {cli : Client} {ret : Int} {s₁ : Drv} (wf : Wf s)
    (hcli : s.gClientsList.get? k = some cli) (hp : cli.connP = some p)
    (hs : notificationSend K s .client .remoteDisconnect p = .ok (ret, s₁))
    (h : clientCleanupConnection K s₁ k = .ok s') : ∃ ds, s.event (.teardown p ds) s' := by
  obtain ⟨cli', hcli', clean⟩ := clientCleanupConnection_ok h (wf.send hs)
  rw [notificationSend_frame hs] at hcli'
  obtain rfl := Option.some.inj (hcli.symm.trans hcli')
  rcases clean with ⟨hnone, _⟩ | ⟨p', ds, hp', ev⟩
  · rw [hp] at hnone
    cases hnone
  · cases hp.symm.trans hp'
    exact teardown_of_send hs ev

theorem clientDisconnect_calls {arg : U32} (h : clientDisconnect K s arg = .ok (r, s')) :
    (r.ret < 0 ∧ s' = s ∧ ∀ k cli, findClientById s (unpackId1 arg) = some k →
      s.gClientsList.get? k = some cli → cli.connP = none) ∨
    ∃ k cli p ret s₁, findClientById s (unpackId1 arg) = some k ∧ s.gClientsList.get? k = some cli ∧
      cli.connP = some p ∧ notificationSend K s .client .remoteDisconnect p = .ok (ret, s₁) ∧
      clientCleanupConnection K s₁ k = .ok s' := by
  unfold clientDisconnect at h
  split at h
  next unknown =>
    cases h
    refine Or.inl ⟨by decide, rfl, fun k cli hk => ?_⟩
    rw [unknown] at hk
    cases hk
  next k hk =>
    obtain ⟨cli, hcli, h⟩ := bind_eq_ok.mp h
    have hcli := deref_some hcli
    split at h
    next idle =>
      cases h
      refine Or.inl ⟨by decide, rfl, fun k' cli' hk' hcli' => ?_⟩
      cases hk.symm.trans hk'
      cases hcli.symm.trans hcli'
      exact idle
    next p hp =>
      obtain ⟨⟨ret, s₁⟩, hs, h⟩ := bind_eq_ok.mp h
      obtain ⟨s₂, hc, h⟩ := bind_eq_ok.mp h
      cases h
      exact Or.inr ⟨k, cli, p, ret, s₁, hk, hcli, hp, hs, hc⟩

theorem clientDisconnect_ok {arg : U32} (wf : Wf s) (h : clientDisconnect K s arg = .ok (r, s')) :
    (r.ret < 0 ∧ s' = s) ∨ ∃ k cli p ds, findClientById s (unpackId1 arg) = some k ∧
      s.gClientsList.get? k = some cli ∧ cli.connP = some p ∧ s.event (.teardown p ds) s' := by
  rcases clientDisconnect_calls h with ⟨neg, same, _⟩ | ⟨k, cli, p, ret, s₁, hk, hcli, hp, hs, hc⟩
  · exact Or.inl ⟨neg, same⟩
  · obtain ⟨ds, ev⟩ := disconnectClient_ok wf hcli hp hs hc
    exact Or.inr ⟨k, cli, p, ds, hk, hcli, hp, ev⟩

theorem disconnectServer_ok {v e : Ptr} {x : ServConnList} {ret : Int} {s₁ : Drv} (wf : Wf s)
    (hx : s.servConns.get? e = some x) (hv : x.server = v)
    (hs : notificationSend K s .server .remoteDisconnect x.conn = .ok (ret, s₁))
    (h : serverCleanupConnection K s₁ v e = .ok s') : ∃ ds, s.event (.teardown x.conn ds) s' := by
  obtain ⟨y, hy, clean⟩ := serverCleanupConnection_ok h (wf.send hs)
  rw [notificationSend_frame hs] at hy
  obtain rfl := Option.some.inj (hx.symm.trans hy)
  rcases clean with ⟨hne, _⟩ | ⟨ds, ev⟩
  · exact absurd hv hne
  · exact teardown_of_send hs ev

theorem serverDisconnect_calls {arg : U32} (h : serverDisconnect K s arg = .ok (r, s')) :
    (s' = s ∧ ∀ v e x c, findServerById s (unpackId1 arg) = some v →
      serverFindConnBySubMemId s v (unpackId2 arg) = .ok (some e) → s.servConns.get? e = some x →
      s.gConnsList.get? x.conn = some c → c.clientP = none) ∨
    ∃ v e x ret s₁, findServerById s (unpackId1 arg) = some v ∧
      serverFindConnBySubMemId s v (unpackId2 arg) = .ok (some e) ∧ s.servConns.get? e = some x ∧ x.server = v ∧
      notificationSend K s .server .remoteDisconnect x.conn = .ok (ret, s₁) ∧
      serverCleanupConnection K s₁ v e = .ok s' := by
  unfold serverDisconnect at h
  split at h
  next unknown =>
    cases h
    refine Or.inl ⟨rfl, fun v e x c hv => ?_⟩
    rw [unknown] at hv
    cases hv
  next v hv =>
    obtain ⟨found, hf, h⟩ := bind_eq_ok.mp h
    cases found with
    | none =>
      cases h
      refine Or.inl ⟨rfl, fun v' e x c hv' he => ?_⟩
      cases hv.symm.trans hv'
      rw [hf] at he
      cases he
    | some e =>
      obtain ⟨x, hx, h⟩ := bind_eq_ok.mp h
      obtain ⟨c, hc, h⟩ := bind_eq_ok.mp h
      have hx := deref_some hx
      have hc := deref_some hc
      split at h
      next alone =>
        cases h
        refine Or.inl ⟨rfl, fun v' e' x' c' hv' he' hx' hc' => ?_⟩
        cases hv.symm.trans hv'
        cases hf.symm.trans he'
        cases hx.symm.trans hx'
        cases hc.symm.trans hc'
        exact Option.isNone_iff_eq_none.mp alone
      next =>
        obtain ⟨⟨ret, s₁⟩, hs, h⟩ := bind_eq_ok.mp h
        obtain ⟨s₂, hclean, h⟩ := bind_eq_ok.mp h
        cases h
        obtain ⟨x', hx', hxv⟩ := serverFindConnBySubMemId_some hf
        cases hx.symm.trans hx'
        exact Or.inr ⟨v, e, x, ret, s₁, hv, hf, hx, hxv, hs, hclean⟩

theorem serverDisconnect_ok {arg : U32} (wf : Wf s) (h : serverDisconnect K s arg = .ok (r, s')) :
    s' = s ∨ ∃ p ds, s.event (.teardown p ds) s' := by
  rcases serverDisconnect_calls h with ⟨same, _⟩ | ⟨v, e, x, ret, s₁, _, _, hx, hxv, hs, hc⟩
  · exact Or.inl same
  · exact Or.inr ⟨x.conn, disconnectServer_ok wf hx hxv hs hc⟩

theorem dropIdle_ok {k : Ptr} {cli : Client} (wf : Wf s) (hcli : s.gClientsList.get? k = some cli)
    (idle : cli.connP = none) (h : regTaskDeleteClient s cli.taskP = .ok s') :
    (cli.taskP = none ∧ s' = s) ∨ ∃ e x, s.event (.dropClient e x cli.id) s' ∧ x.client = k := by
  cases ht : cli.taskP with
  | none =>
    rw [ht] at h
    cases h
    exact Or.inl ⟨rfl, rfl⟩
  | some e =>
    rw [ht] at h
    obtain ⟨x, cli', hx, hx', rfl⟩ := regTaskDeleteClient_ok h
    obtain ⟨y, hy, hyk⟩ := wf.clients.entry k cli e hcli ht
    cases hx.symm.trans hy
    have hclient : x.client = k := Option.some.inj hyk
    rw [hclient] at hx'
    cases hcli.symm.trans hx'
    exact Or.inr ⟨e, x, ⟨⟨hx, cli, hclient ▸ hcli, rfl, idle⟩, rfl⟩, hclient⟩

theorem dropUnused_ok {v : Ptr} {srv : Server} (wf : Wf s) (hsrv : s.gServersList.get? v = some srv)
    (unused : ∀ f y, s.servConns.get? f = some y → y.server ≠ v) (h : regTaskDeleteServer s srv.taskP = .ok s') :
    (srv.taskP = none ∧ s' = s) ∨ ∃ e x, s.event (.dropServer e x srv.id) s' ∧ x.server = v := by
  cases ht : srv.taskP with
  | none =>
    rw [ht] at h
    cases h
    exact Or.inl ⟨rfl, rfl⟩
  | some e =>
    rw [ht] at h
    obtain ⟨x, srv', hx, hx', rfl⟩ := regTaskDeleteServer_ok h
    obtain ⟨y, hy, hyv⟩ := wf.servers.entry v srv e hsrv ht
    cases hx.symm.trans hy
    have hserver : x.server = v := Option.some.inj hyv
    rw [hserver] at hx'
    cases hsrv.symm.trans hx'
    exact Or.inr ⟨e, x, ⟨⟨hx, ⟨srv, hserver ▸ hsrv, rfl⟩, fun f y hf => hserver ▸ unused f y hf⟩, rfl⟩, hserver⟩

theorem clientUnregister_calls {arg : U32} (h : clientUnregister K s arg = .ok (r, s')) :
    (r.ret ≠ 0 ∧ s' = s ∧ ∀ k cli, findClientById s (unpackId1 arg) = some k →
      s.gClientsList.get? k = some cli → cli.connP = none) ∨
    ∃ k cli p ret s₀ s₁ cli₁, findClientById s (unpackId1 arg) = some k ∧
      s.gClientsList.get? k = some cli ∧ cli.connP = some p ∧
      notificationSend K s .client .remoteDisconnect p = .ok (ret, s₀) ∧ clientCleanupConnection K s₀ k = .ok s₁ ∧
      s₁.gClientsList.get? k = some cli₁ ∧ regTaskDeleteClient s₁ cli₁.taskP = .ok s' := by
  unfold clientUnregister at h
  split at h
  next unknown =>
    cases h
    refine Or.inl ⟨by decide, rfl, fun k cli hk => ?_⟩
    rw [unknown] at hk
    cases hk
  next k hk =>
    obtain ⟨cli, hcli, h⟩ := bind_eq_ok.mp h
    have hcli := deref_some hcli
    split at h
    next idle =>
      cases h
      refine Or.inl ⟨by decide, rfl, fun k' cli' hk' hcli' => ?_⟩
      cases hk.symm.trans hk'
      cases hcli.symm.trans hcli'
      exact idle
    next p hp =>
      obtain ⟨⟨ret, s₀⟩, hs, h⟩ := bind_eq_ok.mp h
      obtain ⟨s₁, hc, h⟩ := bind_eq_ok.mp h
      obtain ⟨cli₁, hread, h⟩ := bind_eq_ok.mp h
      obtain ⟨s₂, hd, h⟩ := bind_eq_ok.mp h
      cases h
      exact Or.inr ⟨k, cli, p, ret, s₀, s₁, cli₁, hk, hcli, hp, hs, hc, deref_some hread, hd⟩

theorem teardown_client {k p : Ptr} {cli cli₁ : Client} {ds : List (Ptr × NotificationData)}
    (ev : s.event (.teardown p ds) s') (hcli : s.gClientsList.get? k = some cli) (hp : cli.connP = some p)
    (hcli₁ : s'.gClientsList.get? k = some cli₁) : cli₁ = { cli with connP := none } := by
  rw [ev.2, Drv.apply, clients_unlink, enqueueAll_eq, hcli] at hcli₁
  simpa [hp, forget, eq_comm] using hcli₁

theorem clientUnregister_ok {arg : U32} (wf : Wf s) (h : clientUnregister K s arg = .ok (r, s')) :
    (r.ret ≠ 0 ∧ s' = s ∧ ∀ k cli, findClientById s (unpackId1 arg) = some k →
      s.gClientsList.get? k = some cli → cli.connP = none) ∨
    ∃ k cli p ds s₁, findClientById s (unpackId1 arg) = some k ∧
      s.gClientsList.get? k = some cli ∧ cli.connP = some p ∧ s.event (.teardown p ds) s₁ ∧
      ((cli.taskP = none ∧ s' = s₁) ∨ ∃ e x, s₁.event (.dropClient e x cli.id) s' ∧ x.client = k) := by
  refine (clientUnregister_calls h).imp_right ?_
  rintro ⟨k, cli, p, ret, s₀, s₁, cli₁, hk, hcli, hp, hs, hc, hcli₁, hd⟩
  obtain ⟨ds, ev⟩ := disconnectClient_ok wf hcli hp hs hc
  obtain rfl := teardown_client ev hcli hp hcli₁
  have done := dropIdle_ok (wf.event ev) hcli₁ rfl hd
  exact ⟨k, cli, p, ds, s₁, hk, hcli, hp, ev, done⟩

theorem serverUnregister_ok {arg : U32} (wf : Wf s) (h : serverUnregister K s arg = .ok (r, s')) :
    (r.ret ≠ 0 ∧ s' = s) ∨ ∃ v srv s₁, findServerById s (unpackId1 arg) = some v ∧
      s.gServersList.get? v = some srv ∧ Cleaning s s₁ ∧ r.ret = 0 ∧
      ((srv.taskP = none ∧ s' = s₁) ∨ ∃ e x, s₁.event (.dropServer e x srv.id) s' ∧ x.server = v) := by
  unfold serverUnregister at h
  split at h
  next => cases h; exact Or.inl ⟨by decide, rfl⟩
  next v hv =>
    obtain ⟨s₁, hc, h⟩ := bind_eq_ok.mp h
    obtain ⟨clean, gone⟩ := serverCleanupConnections_ok hc wf
    obtain ⟨srv, hread, h⟩ := bind_eq_ok.mp h
    obtain ⟨s₂, hd, h⟩ := bind_eq_ok.mp h
    cases h
    have hsrv := deref_some hread
    exact Or.inr ⟨v, srv, s₁, hv, clean.torn.servers ▸ hsrv, clean, rfl, dropUnused_ok clean.wf hsrv gone hd⟩

end

end Ripc
