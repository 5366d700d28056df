import Ripc.HubRegister
import Ripc.DriverRefusals

namespace Ripc

variable {K : Kernel} {s s' : Drv} {f t k p w e : Ptr} {c v x : Int} {r : Reply} {arg : U32} {cli : Client}
  {q : Parties}

theorem found_of_links (h : Settled s) (linked : s.hub.links c = some (v, x)) : ∃ k cli p w,
    findClientById s c = some k ∧ s.gClientsList.get? k = some cli ∧ cli.connP = some p ∧
      findServerById s v = some w := by
  obtain ⟨p, con, k, w, m, hcon, hk, _, _, hc, hv, _⟩ := (hub_links h).mp linked
  obtain ⟨cli, hcli, hp⟩ := h.whole.wf.links.connClient p con k hcon hk
  exact ⟨k, cli, p, w, (h.valid.unambiguous.client c k).mpr hc, hcli, hp, (h.valid.unambiguous.server v w).mpr hv⟩

theorem links_unknown (h : Settled s) (unknown : findClientById s c = none) : s.hub.links c = none := by
  by_contra linked
  obtain ⟨⟨v, x⟩, hl⟩ := Option.ne_none_iff_exists'.mp linked
  obtain ⟨k, _, _, _, hk, _⟩ := found_of_links h hl
  cases unknown.symm.trans hk

theorem links_idle (h : Settled s) (hk : findClientById s c = some k) (hcli : s.gClientsList.get? k = some cli)
    (idle : cli.connP = none) : s.hub.links c = none := by
  by_contra linked
  obtain ⟨⟨v, x⟩, hl⟩ := Option.ne_none_iff_exists'.mp linked
  obtain ⟨k', cli', p, _, hk', hcli', hp, _⟩ := found_of_links h hl
  cases hk.symm.trans hk'
  cases hcli.symm.trans hcli'
  cases idle.symm.trans hp

theorem parties_of_client (h : Settled s) (hk : findClientById s c = some k) (hcli : s.gClientsList.get? k = some cli)
    (hp : cli.connP = some p) : ∃ q, s.parties? p = some q ∧ q.clientId = c ∧ s.hub.links c ≠ none := by
  obtain ⟨con, hcon, hk'⟩ := h.whole.wf.links.clientConn k cli p hcli hp
  obtain ⟨q, hq⟩ := h.parties hcon
  obtain ⟨con', k', w, m, sides⟩ := sides_of_parties hq
  cases hcon.symm.trans sides.conn
  cases hk'.symm.trans sides.clientP
  have hid := Option.some.inj (sides.client.symm.trans ((h.valid.unambiguous.client c k).mp hk))
  exact ⟨q, hq, hid, by simp [← hid, links_of_parties h hq]⟩

theorem serverFind_some (h : Settled s) (hw : findServerById s v = some w)
    (hf : serverFindConnBySubMemId s w x = .ok (some e)) : ∃ p q, s.servConns.get? e = some ⟨p, w⟩ ∧
      s.parties? p = some q ∧ q.serverId = v ∧ q.subMemId = x := by
  unfold serverFindConnBySubMemId at hf
  split at hf
  next =>
    obtain ⟨y, hy, con, m, sub, hcon, hm, hsub, hx⟩ := findConnLoop_some hf
    obtain ⟨he, rfl⟩ := mem_connectionList.mp hy
    obtain ⟨con', hcon', hw'⟩ := h.whole.wf.links.entryConn e y he
    cases hcon.symm.trans hcon'
    obtain ⟨q, hq⟩ := h.parties hcon
    obtain ⟨con', k, w, m', sides⟩ := sides_of_parties hq
    cases hcon.symm.trans sides.conn
    cases hw'.symm.trans sides.serverP
    cases hm.symm.trans sides.memP
    refine ⟨y.conn, q, he, hq, Option.some.inj (sides.server.symm.trans ?_), ?_⟩
    · exact (h.valid.unambiguous.server v y.server).mp hw
    · exact Option.some.inj (sides.subMem.symm.trans (hx ▸ idOf_subMem hsub))
  next => cases hf

theorem serverFind_none (h : Settled s) (hw : findServerById s v = some w)
    (hf : serverFindConnBySubMemId s w x = .ok none) (c : Int) : s.hub.links c ≠ some (v, x) := by
  intro linked
  obtain ⟨p, con, k, w', m, hcon, hk, hw', hm, hc, hv, hx⟩ := (hub_links h).mp linked
  cases ((h.valid.unambiguous.server v w').mpr hv).symm.trans hw
  obtain ⟨k', w', m', cli, srv, sub, ch⟩ := h.channel hcon
  obtain ⟨_, hcon'⟩ := ch.conn
  cases hcon.symm.trans hcon'
  cases hw'
  cases hm
  obtain rfl : sub.id = x := Option.some.inj ((idOf_subMem ch.subMem).symm.trans hx)
  obtain ⟨e, found, _⟩ := serverFindConnBySubMemId_eq h.toProvided ch
  cases hf.symm.trans found

theorem notifies (succeeds : K.Succeeds) : K.Notifies := fun who s => succeeds.kmalloc (.notif who) s

theorem hub_clientEndWriting (h : Settled s) (succeeds : K.Succeeds) (hs : clientEndWriting K s arg = .ok (r, s')) :
    Settled s' ∧ s.hub.ServesCmd t (.clientEndWriting arg) r s'.hub := by
  unfold clientEndWriting findClientByIdPid at hs
  split at hs
  next unknown => exact refuses h (not_not.mpr (links_unknown h unknown)) (by decide) hs
  next k hk =>
    obtain ⟨cli, hcli, hs⟩ := bind_eq_ok.mp hs
    have hcli := deref_some hcli
    split at hs
    next idle => exact refuses h (not_not.mpr (links_idle h hk hcli idle)) (by decide) hs
    next p hp =>
      obtain ⟨q, hq, hid, linked⟩ := parties_of_client h hk hcli hp
      obtain ⟨con, k', w, m, sides⟩ := sides_of_parties hq
      simp only [deref_of_get? sides.conn, ok_bind, sides.serverP, Option.isNone_some, Bool.false_eq_true, if_false,
        send_tells h succeeds hq] at hs
      obtain ⟨rfl, rfl⟩ := returns_ok hs
      exact ⟨h.tell q _ _, Or.inl ⟨linked, rfl, hid ▸ hub_tell h hq _ _⟩⟩

theorem hub_serverEndWriting (h : Settled s) (succeeds : K.Succeeds) (hs : serverEndWriting K s arg = .ok (r, s')) :
    Settled s' ∧ s.hub.ServesCmd t (.serverEndWriting arg) r s'.hub := by
  unfold serverEndWriting at hs
  split at hs
  next unknown => exact refuses h (not_not.mpr ((findServerById_none h).mp unknown)) (by decide) hs
  next w hw =>
    have known : s.hub.servers (unpackId1 arg) ≠ none := fun none => by simp [(findServerById_none h).mpr none] at hw
    obtain ⟨found, hf, hs⟩ := bind_eq_ok.mp hs
    cases found with
    | none => cases hs
    | some e =>
      obtain ⟨p, q, he, hq, hv, hx⟩ := serverFind_some h hw hf
      obtain ⟨con, k', w', m, sides⟩ := sides_of_parties hq
      simp only [deref_of_get? he, deref_of_get? sides.conn, ok_bind, sides.clientP, Option.isNone_some,
        Bool.false_eq_true, if_false, send_tells h succeeds hq] at hs
      obtain ⟨rfl, rfl⟩ := returns_ok hs
      refine ⟨h.tell q _ _, Or.inl ⟨known, q.clientId, ?_, rfl, hub_tell h hq _ _⟩⟩
      rw [links_of_parties h hq, hv, hx]

theorem hub_disconnectClient (h : Settled s) (succeeds : K.Succeeds) (hcli : s.gClientsList.get? k = some cli)
    (hp : cli.connP = some p) (hq : s.parties? p = some q)
    (hs : clientCleanupConnection K (s.tell q .client .remoteDisconnect) k = .ok s') :
    Settled s' ∧ s'.hub = (s.hub.say .client .remoteDisconnect q.clientId).sever q.clientId := by
  have told := h.tell q .client .remoteDisconnect
  obtain ⟨cli', hcli', done⟩ := clientCleanupConnection_parts told.whole.wf (notifies succeeds) hs
  cases hcli.symm.trans hcli'
  rcases done with ⟨idle, _⟩ | ⟨p', hp', parts⟩
  · cases hp.symm.trans idle
  · cases hp.symm.trans hp'
    obtain ⟨q', hq', h', cut⟩ := hub_parts told parts
    cases (parties_tell s q .client .remoteDisconnect p).symm.trans hq' |>.symm.trans hq
    exact ⟨h', by rw [cut, hub_tell h hq]⟩

theorem hub_clientDisconnect (h : Settled s) (succeeds : K.Succeeds) (hs : clientDisconnect K s arg = .ok (r, s')) :
    Settled s' ∧ s.hub.ServesCmd t (.clientDisconnect arg) r s'.hub := by
  unfold clientDisconnect at hs
  split at hs
  next unknown => exact refuses h (not_not.mpr (links_unknown h unknown)) (by decide) hs
  next k hk =>
    obtain ⟨cli, hcli, hs⟩ := bind_eq_ok.mp hs
    have hcli := deref_some hcli
    split at hs
    next idle => exact refuses h (not_not.mpr (links_idle h hk hcli idle)) (by decide) hs
    next p hp =>
      obtain ⟨q, hq, hid, linked⟩ := parties_of_client h hk hcli hp
      rw [send_tells h succeeds hq, ok_bind] at hs
      obtain ⟨s₁, hc, hs⟩ := bind_eq_ok.mp hs
      obtain ⟨rfl, rfl⟩ := returns_ok hs
      obtain ⟨h', cut⟩ := hub_disconnectClient h succeeds hcli hp hq hc
      exact ⟨h', Or.inl ⟨linked, rfl, hid ▸ cut⟩⟩

theorem hub_clientUnregister (h : Settled s) (succeeds : K.Succeeds) (hs : clientUnregister K s arg = .ok (r, s')) :
    Settled s' ∧ s.hub.ServesCmd t (.clientUnregister arg) r s'.hub := by
  unfold clientUnregister at hs
  split at hs
  next unknown => exact refuses h (not_not.mpr (links_unknown h unknown)) (by decide) hs
  next k hk =>
    obtain ⟨cli, hcli, hs⟩ := bind_eq_ok.mp hs
    have hcli := deref_some hcli
    split at hs
    next idle => exact refuses h (not_not.mpr (links_idle h hk hcli idle)) (by decide) hs
    next p hp =>
      obtain ⟨q, hq, hid, linked⟩ := parties_of_client h hk hcli hp
      have sent := send_tells h succeeds hq .client .remoteDisconnect
      rw [sent, ok_bind] at hs
      obtain ⟨s₁, hc, hs⟩ := bind_eq_ok.mp hs
      obtain ⟨cli₁, hcli₁, hs⟩ := bind_eq_ok.mp hs
      obtain ⟨s₂, hd, hs⟩ := bind_eq_ok.mp hs
      obtain ⟨rfl, rfl⟩ := returns_ok hs
      obtain ⟨h₁, cut⟩ := hub_disconnectClient h succeeds hcli hp hq hc
      obtain ⟨ds, ev⟩ := disconnectClient_ok h.whole.wf hcli hp sent hc
      obtain rfl := teardown_client ev hcli hp (deref_some hcli₁)
      obtain ⟨_, hcli', hid', _⟩ := findClientById_some hk
      cases hcli.symm.trans hcli'
      rcases dropIdle_ok h₁.whole.wf (deref_some hcli₁) rfl hd with ⟨alone, _⟩ | ⟨e, y, drop, _⟩
      · exact absurd alone (h.manned.clients k cli hcli)
      · have h₂ := h₁.event drop trivial (by simp [Event.newIds])
        refine ⟨h₂, Or.inl ⟨linked, rfl, ?_⟩⟩
        rw [hub_dropClient h₁ h₂ drop, cut, hid]
        exact congrArg _ hid'

theorem hub_serverDisconnect (h : Settled s) (succeeds : K.Succeeds) (hs : serverDisconnect K s arg = .ok (r, s')) :
    Settled s' ∧ s.hub.ServesCmd t (.serverDisconnect arg) r s'.hub := by
  unfold serverDisconnect at hs
  split at hs
  next unknown =>
    refine refuses h ?_ (by decide) hs
    rintro ⟨c, linked⟩
    obtain ⟨_, _, _, w, _, _, _, hw⟩ := found_of_links h linked
    cases unknown.symm.trans hw
  next w hw =>
    obtain ⟨found, hf, hs⟩ := bind_eq_ok.mp hs
    cases found with
    | none =>
      refine refuses h ?_ (by decide) hs
      rintro ⟨c, linked⟩
      exact serverFind_none h hw hf c linked
    | some e =>
      obtain ⟨p, q, he, hq, hv, hx⟩ := serverFind_some h hw hf
      obtain ⟨con, k', w', m, sides⟩ := sides_of_parties hq
      have linked : s.hub.links q.clientId = some (unpackId1 arg, unpackId2 arg) := by
        rw [links_of_parties h hq, hv, hx]
      simp only [deref_of_get? he, deref_of_get? sides.conn, ok_bind, sides.clientP, Option.isNone_some,
        Bool.false_eq_true, if_false, send_tells h succeeds hq] at hs
      obtain ⟨s₁, hc, hs⟩ := bind_eq_ok.mp hs
      obtain ⟨rfl, rfl⟩ := returns_ok hs
      have told := h.tell q .server .remoteDisconnect
      obtain ⟨y, hy, done⟩ := serverCleanupConnection_parts told.whole.wf (notifies succeeds) hc
      cases he.symm.trans hy
      obtain ⟨q', hq', h', cut⟩ := hub_parts told (done.resolve_left fun other => other.1 rfl).2
      cases (parties_tell s q .server .remoteDisconnect p).symm.trans hq' |>.symm.trans hq
      exact ⟨h', Or.inl ⟨⟨_, linked⟩, _, linked, rfl, by rw [cut, hub_tell h hq]⟩⟩

theorem hub_serverUnregister (h : Settled s) (succeeds : K.Succeeds) (hs : serverUnregister K s arg = .ok (r, s')) :
    Settled s' ∧ s.hub.ServesCmd t (.serverUnregister arg) r s'.hub := by
  unfold serverUnregister at hs
  split at hs
  next unknown => exact refuses h (not_not.mpr ((findServerById_none h).mp unknown)) (by decide) hs
  next w hw =>
    have known : s.hub.servers (unpackId1 arg) ≠ none := fun none => by simp [(findServerById_none h).mpr none] at hw
    have hid := (h.valid.unambiguous.server _ w).mp hw
    obtain ⟨s₁, hc, hs⟩ := bind_eq_ok.mp hs
    obtain ⟨srv, hsrv, hs⟩ := bind_eq_ok.mp hs
    obtain ⟨s₂, hd, hs⟩ := bind_eq_ok.mp hs
    obtain ⟨rfl, rfl⟩ := returns_ok hs
    obtain ⟨clean, gone⟩ := serverCleanupConnections_ok hc h.whole.wf
    obtain ⟨ps, run, listed⟩ := serverCleanupConnections_parts h.whole.wf (notifies succeeds) hc
    obtain ⟨h₁, cs, nodup, all, done⟩ := hub_partings h run
    have hsrv := deref_some hsrv
    have same : srv.id = unpackId1 arg := by
      rw [clean.torn.servers] at hsrv
      exact Option.some.inj ((idOf_server hsrv).symm.trans hid)
    have ends : ∀ c, c ∈ cs ↔ ∃ x, s.hub.links c = some (unpackId1 arg, x) := by
      intro c
      rw [all]
      constructor
      · rintro ⟨p, hp, v, x, joins⟩
        have linked := (hub_links h).mpr ⟨p, joins⟩
        obtain ⟨con, k, w', m, hcon, _, hw', _, _, hv, _⟩ := joins
        obtain ⟨e, y, hy, rfl, rfl⟩ := listed p hp
        obtain ⟨con', hcon', hserver⟩ := h.whole.wf.links.entryConn e y hy
        cases hcon.symm.trans hcon'
        cases hw'.symm.trans hserver
        cases hid.symm.trans hv
        exact ⟨x, linked⟩
      · rintro ⟨x, linked⟩
        obtain ⟨p, joins⟩ := (hub_links h).mp linked
        refine ⟨p, ?_, _, _, joins⟩
        obtain ⟨con, k, w', m, hcon, _, hw', _, _, hv, _⟩ := joins
        obtain ⟨w'', e, hserver, _, hy⟩ := h.whole.served p con hcon
        cases hw'.symm.trans hserver
        cases ((h.valid.unambiguous.server _ w').mpr hv).symm.trans hw
        by_contra left
        exact gone e _ ((run.parted.entries e _).mpr ⟨hy, left⟩) rfl
    rcases dropUnused_ok clean.wf hsrv gone hd with ⟨alone, _⟩ | ⟨e, y, drop, _⟩
    · exact absurd alone (h₁.manned.servers w srv hsrv)
    · have h₂ := h₁.event drop trivial (by simp [Event.newIds])
      exact ⟨h₂, Or.inl ⟨known, cs, nodup, ends, rfl, by rw [hub_dropServer h₁ h₂ drop, done, same]⟩⟩

theorem connectClientToServer_made {ret : Int} (succeeds : K.Succeeds)
    (hs : connectClientToServer K s w k = .ok (ret, s')) : ret = 0 := by
  obtain ⟨⟨o, s₁⟩, hf, hs⟩ := bind_eq_ok.mp hs
  have found : o ≠ none := by
    rcases getFreeSubmem_ok hf with ⟨_, _, memory⟩ | ⟨_, _, _, rfl⟩
    · exact fun none => succeeds.kmalloc .shm s (memory none)
    · exact Option.some_ne_none _
  obtain ⟨m, rfl⟩ := Option.ne_none_iff_exists'.mp found
  obtain ⟨p, hp⟩ := Option.ne_none_iff_exists'.mp (succeeds.kmalloc .conn s₁)
  simp only [createConnection, hp] at hs
  obtain ⟨s₂, _, hs⟩ := bind_eq_ok.mp hs
  obtain ⟨s₃, _, hs⟩ := bind_eq_ok.mp hs
  cases hs
  rfl

theorem hub_gainsPool (h : Settled s) (noError : ∀ id ∈ K.answers poolSites s.gIdGen, 0 ≤ id)
    (gains : s.GainsPool K p s') : Settled s' ∧ s'.hub = s.hub := by
  obtain ⟨shm, he, _, ids⟩ := gains
  have h' : Settled s' := by
    refine h.event he trivial fun id hid => ?_
    have hid : id ∈ K.answers poolSites s.gIdGen := ids ▸ hid
    exact isIdValid_iff.mpr ⟨noError id hid, answers_le hid (noError id hid)⟩
  exact ⟨h', hub_addPool h h' he⟩

theorem hub_connectToServer {con : ConnectToServer} (h : Settled s) (file : s.files.get? f = some t)
    (succeeds : K.Succeeds) (noError : NoIdError s ⟨K, .ioctl f (.connectToServer con)⟩)
    (hs : connectToServer K s con = .ok (r, s')) : Settled s' ∧ s.hub.ServesCmd t (.connectToServer con) r s'.hub := by
  have case := connectToServer_case K s con
  rw [hs] at case
  generalize answered : (Except.ok (r, s') : Answer) = a at case
  cases case with
  | noClient | faultyName | endlessName => cases answered
  | notCopied copy => simp [succeeds.copyFromUser] at copy
  | connected copy hk hcli connected =>
    refine refuses h (fun ok => ?_) (by decide) answered.symm
    obtain ⟨p, hp⟩ := Option.ne_none_iff_exists'.mp connected
    obtain ⟨_, _, _, linked⟩ := parties_of_client h hk hcli hp
    exact linked ok.1
  | noServer copy hk hcli free hf len =>
    refine refuses h (fun ok => ?_) (by decide) answered.symm
    obtain ⟨_, v, named⟩ := ok
    exact unnamed_of_none h hf v named
  | @asks k cli w copy hk hcli free hf =>
    obtain ⟨⟨ret, s₂⟩, hc, done⟩ := bind_eq_ok.mp answered.symm
    cases done
    obtain rfl := connectClientToServer_made succeeds hc
    obtain ⟨s₁, pool, done⟩ := connectClientToServer_ok hc hcli free
    obtain ⟨_, p, m, e, _, he, complete⟩ := done.resolve_left fun failed => absurd failed.1 (by decide)
    have first : Settled s₁ ∧ s₁.hub = s.hub ∧ ∀ a i, s.idOf a = some i → s₁.idOf a ≠ none → s₁.idOf a = some i := by
      rcases pool with rfl | ⟨q, gains⟩
      · exact ⟨h, rfl, fun a i ha _ => ha⟩
      · obtain ⟨shm, addPool, memory, _⟩ := id gains
        have asks : Call.Asks ⟨K, .ioctl f (.connectToServer con)⟩ s poolSites :=
          .pool rfl file copy hk hcli free hf addPool.1.2.1 (by simp [memory])
        obtain ⟨h₁, same⟩ := hub_gainsPool h (noError _ asks) gains
        exact ⟨h₁, same, fun a i ha live => idOf_stays addPool ha live⟩
    obtain ⟨h₁, same, stays⟩ := first
    obtain ⟨⟨_, ⟨cli₁, hcli₁, _⟩, live, firstFree, _⟩, _⟩ := id he
    obtain ⟨srv₁, hsrv₁⟩ := Table.mem_keys.mp live
    obtain ⟨sub, hsub, _⟩ := findFreeSubmem_free firstFree
    obtain ⟨v, hv, named⟩ := named_of_found h hf
    have client := stays _ _ ((h.valid.unambiguous.client _ k).mp hk) (by simp [idOf_client hcli₁])
    have server := stays _ _ hv (by simp [idOf_server hsrv₁])
    have channel := idOf_subMem hsub
    have h₂ := h₁.event he (complete succeeds) (by simp [Event.newIds])
    have known : s.hub.clients con.clientId ≠ none := fun none => by simp [(findClientById_none h).mpr none] at hk
    refine ⟨h₂, Or.inl ⟨⟨links_idle h hk hcli free, v, named⟩, known, v, sub.id, named, ⟨h₁.validId channel, ?_⟩, rfl,
      ?_⟩⟩
    · exact same ▸ unused_of_free h₁ firstFree channel
    · rw [hub_link h₁ h₂ client server channel he, same]

theorem mmapFound_mapped {con : Connection} {m : SubMemPtr} {sub : SubMem} (hc : s.gConnsList.get? p = some con)
    (hm : con.memP = some m) (hsub : s.subMem? m = some sub) :
    mmapFound K s p = .ok (⟨K.remapPfnRange, .mapped sub.pages sub.size⟩, s) := by
  simp only [mmapFound, deref_of_get? hc, ok_bind, hm, derefSubMem, hsub]

theorem hub_mmapClient (h : Settled s) (succeeds : K.Succeeds) (hk : findClientById s (unpackId1 arg) = some k)
    (hs : mmapClient K s k = .ok (r, s')) : Settled s' ∧ s.hub.ServesMmap K arg r s'.hub := by
  obtain ⟨cli, hcli, hid, _⟩ := findClientById_some hk
  obtain ⟨u, registers⟩ := h.registers hcli
  have owned : s.hub.clients (unpackId1 arg) = some u := hid ▸ (hub_clients h).mpr registers
  unfold Hub.ServesMmap
  rw [owned]
  simp only [mmapClient, deref_of_get? hcli, ok_bind] at hs
  split at hs
  next idle => exact refuses h (not_not.mpr (links_idle h hk hcli idle)) (by decide) hs
  next p hp =>
    obtain ⟨q, hq, hc, linked⟩ := parties_of_client h hk hcli hp
    obtain ⟨con, k', w, m, sides⟩ := sides_of_parties hq
    obtain ⟨sub, hsub, hx⟩ := Option.map_eq_some_iff.mp sides.subMem
    have link : s.hub.links (unpackId1 arg) = some (q.serverId, q.subMemId) := hc ▸ links_of_parties h hq
    simp only [deref_of_get? sides.conn, ok_bind, sides.memP, derefSubMem, hsub] at hs
    rw [hid, hx] at hs
    split at hs
    next packed =>
      rw [mmapFound_mapped sides.conn sides.memP hsub] at hs
      cases hs
      exact ⟨h, Or.inl ⟨linked, ⟨_, _, rfl⟩, _, _, link, by rw [if_pos packed]⟩⟩
    next packed =>
      have told := h.tell q .client .newConnection
      have he : (s.tell q .client .newConnection).event (.mmaped p) (Drv.apply _ (.mmaped p)) := ⟨trivial, rfl⟩
      have h' := told.event he trivial (by simp [Event.newIds])
      obtain ⟨srv, hsrv⟩ : ∃ srv, s.gServersList.get? w = some srv := by
        obtain ⟨srv, _, _, hsrv, _⟩ := serverTask_some sides.serverTask
        exact ⟨srv, hsrv⟩
      have conn : (Drv.apply (s.tell q .client .newConnection) (.mmaped p)).gConnsList.get? p =
          some { con with servMmaped := true } := by
        rw [Drv.apply, Table.get?_modify, if_pos rfl]
        exact congrArg (Option.map _) sides.conn
      simp only [sides.serverP, deref_of_get? hsrv, ok_bind, send_tells h succeeds hq] at hs
      change mmapFound K (Drv.apply (s.tell q .client .newConnection) (.mmaped p)) p = _ at hs
      rw [mmapFound_mapped conn sides.memP hsub] at hs
      cases hs
      refine ⟨h', Or.inl ⟨linked, ⟨_, _, rfl⟩, _, _, link, ?_⟩⟩
      rw [if_neg packed, ← hc, ← hub_tell h hq]
      exact hub_mmaped told h' he

theorem hub_mmapServer (h : Settled s) (hw : findServerById s v = some w) (hs : mmapServer K s w x = .ok (r, s')) :
    Settled s' ∧ s.hub.Made (x ≠ 0 ∧ ∃ c, s.hub.links c = some (v, x)) r s'.hub
      ((∃ frame size, r = ⟨K.remapPfnRange, .mapped frame size⟩) ∧ s'.hub = s.hub) := by
  unfold mmapServer at hs
  split at hs
  next empty =>
    refine refuses h (fun ok => ?_) (by decide) hs
    obtain ⟨_, c, linked⟩ := ok
    refine serverFind_none h hw ?_ c linked
    rw [serverFindConnBySubMemId, List.isEmpty_iff.mp empty]
    split <;> rfl
  next =>
    split at hs
    next zero => exact refuses h (fun ok => ok.1 zero) (by decide) hs
    next given =>
      obtain ⟨found, hf, hs⟩ := bind_eq_ok.mp hs
      cases found with
      | none =>
        refine refuses h (fun ok => ?_) (by decide) hs
        obtain ⟨_, c, linked⟩ := ok
        exact serverFind_none h hw hf c linked
      | some e =>
        obtain ⟨p, q, he, hq, hv, hx⟩ := serverFind_some h hw hf
        obtain ⟨con, k', w', m, sides⟩ := sides_of_parties hq
        obtain ⟨sub, hsub, _⟩ := Option.map_eq_some_iff.mp sides.subMem
        simp only [deref_of_get? he, ok_bind] at hs
        rw [mmapFound_mapped sides.conn sides.memP hsub] at hs
        cases hs
        refine ⟨h, Or.inl ⟨⟨given, q.clientId, ?_⟩, ⟨_, _, rfl⟩, rfl⟩⟩
        rw [links_of_parties h hq, hv, hx]

theorem hub_ipcMmap (h : Settled s) (succeeds : K.Succeeds) (hs : ipcMmap K s arg = .ok (r, s')) :
    Settled s' ∧ s.hub.ServesMmap K arg r s'.hub := by
  unfold ipcMmap findClientByIdPid at hs
  split at hs
  next k hk => exact hub_mmapClient h succeeds hk hs
  next unknown =>
    unfold Hub.ServesMmap
    rw [(findClientById_none h).mp unknown]
    split at hs
    next w hw => exact hub_mmapServer h hw hs
    next unknown =>
      refine refuses h (fun ok => ?_) (by decide) hs
      obtain ⟨_, c, linked⟩ := ok
      obtain ⟨_, _, _, w, _, _, _, hw⟩ := found_of_links h linked
      cases unknown.symm.trans hw

end Ripc
