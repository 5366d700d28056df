import Ripc.ConcurrentConnects
import Ripc.DriverIoctlFaults

namespace Ripc

/-- `p` is new and linked from its client, from the server's list, from its sub-memory and from `g_conns_list`. -/
structure NewConnection (s s' : Drv) (k v p : Ptr) : Prop where
  fresh : p ∉ s.gConnsList.keys
  conn : ∃ m sub, s'.gConnsList.get? p = some ⟨some k, some v, some m, false⟩ ∧ s'.subMem? m = some sub ∧
    sub.connP = some p
  client : ∃ cli, s'.gClientsList.get? k = some cli ∧ cli.connP = some p
  server : serverFindConn s' v p ≠ none

/-- No client, server or connection has changed, and no sub-memory that was there. -/
structure LeftAlone (s s' : Drv) : Prop where
  clients : s'.gClientsList = s.gClientsList
  servers : s'.gServersList = s.gServersList
  entries : s'.servConns = s.servConns
  conns : s'.gConnsList = s.gConnsList
  subMems : ∀ m sub, s.subMem? m = some sub → s'.subMem? m = some sub

/-- The call returns, and either it succeeds and has linked client `k` to server `v`, or it fails and has not
touched what was there. -/
def ConnectsWhole (K : Kernel) (s : Drv) (filp : Ptr) (con : ConnectToServer) (k v : Ptr) : Prop :=
  ∃ r s', step s ⟨K, .ioctl filp (.connectToServer con)⟩ = .ok (r, s') ∧
    ((r.ret = 0 ∧ ∃ p, NewConnection s s' k v p) ∨ (r.ret < 0 ∧ LeftAlone s s'))

/-- A pool that is granted is granted its pages, and a connection that is granted is granted its entry in the
server's list. -/
structure Kernel.GrantsWhole (K : Kernel) (s : Drv) (k v : Ptr) : Prop where
  pages : findFreeSubmem s = none → K.kmalloc .shm s ≠ none → K.allocPages shmRegionOrder s ≠ none
  entry : ∀ m s₁ p, getFreeSubmem K s = .ok (some m, s₁) → K.kmalloc .conn s₁ = some p →
    K.kmalloc .servConn (s₁.link p k v m none) ≠ none

section

variable {K : Kernel} {s s' s₁ : Drv} {k v p filp : Ptr} {m : SubMemPtr} {cli : Client} {con : ConnectToServer}

theorem LeftAlone.refl (s : Drv) : LeftAlone s s := ⟨rfl, rfl, rfl, rfl, fun _ _ h => h⟩

theorem getFreeSubmem_leftAlone {o : Option SubMemPtr} (h : getFreeSubmem K s = .ok (o, s')) : LeftAlone s s' := by
  have frame := getFreeSubmem_frame h
  refine ⟨by rw [frame], by rw [frame], by rw [frame], by rw [frame], ?_⟩
  intro m sub hsub
  rcases getFreeSubmem_ok h with ⟨rfl, _⟩ | ⟨p, ⟨shm, ⟨⟨fresh, _⟩, rfl⟩, _⟩, _⟩
  · exact hsub
  · exact subMem?_addPool fresh hsub

theorem getFreeSubmem_returns (pages : findFreeSubmem s = none → K.kmalloc .shm s ≠ none →
    K.allocPages shmRegionOrder s ≠ none) : ∃ o s₁, getFreeSubmem K s = .ok (o, s₁) := by
  cases h : getFreeSubmem K s with
  | ok found => exact ⟨found.1, found.2, rfl⟩
  | error e =>
    obtain ⟨full, _, shm, none⟩ := getFreeSubmem_error h
    exact absurd none (pages full shm)

theorem getFreeSubmem_faults (full : findFreeSubmem s = none) (shm : K.kmalloc .shm s ≠ none)
    (none : K.allocPages shmRegionOrder s = none) : getFreeSubmem K s = .error .nullDeref := by
  obtain ⟨p, hp⟩ := Option.ne_none_iff_exists'.mp shm
  simp only [getFreeSubmem, full, shmCreate, hp, none]
  rfl

/-- A link with an entry is a whole connection, whatever was there before the pool was made. -/
theorem newConnection_link {e : Ptr} (fresh : p ∉ s.gConnsList.keys) (conns : s₁.gConnsList = s.gConnsList)
    (free : findFreeSubmem s₁ = some m) (hk : s₁.gClientsList.get? k = some cli) (unused : e ∉ s₁.servConns.keys) :
    NewConnection s (s₁.link p k v m (some e)) k v p := by
  obtain ⟨sub, hsub, _⟩ := findFreeSubmem_free free
  refine ⟨fresh, ⟨m, { sub with connP := some p }, ?_, ?_, rfl⟩, ⟨{ cli with connP := some p }, ?_, rfl⟩, ?_⟩
  · rw [conns_link (conns ▸ fresh), if_pos rfl]
  · show subMemAt _ m = _
    rw [subMemAt_link, if_pos rfl, hsub]
    rfl
  · rw [clients_link, if_pos rfl, hk]
    rfl
  · have found : (s₁.link p k v m (some e)).servConns.get? e = some ⟨p, v⟩ :=
      (servConns_link (by simpa using unused)).mpr (Or.inl ⟨rfl, rfl⟩)
    exact fun none => serverFindConn_none none found rfl rfl

theorem link_notWhole {q : Ptr} (wf : Wf s) (entries : s₁.servConns = s.servConns) :
    ¬NewConnection s (s₁.link p k v m none) k v q := by
  intro whole
  obtain ⟨e, he⟩ := Option.ne_none_iff_exists'.mp whole.server
  obtain ⟨x, hx, _, hq⟩ := serverFindConn_some he
  have old : s.servConns.get? e = some x := entries ▸ hx
  obtain ⟨c, hc, _⟩ := wf.links.entryConn e x old
  exact whole.fresh (Table.mem_keys.mpr ⟨c, hq ▸ hc⟩)

/-- Between a client that is free to connect and a live server a connection is made whole or not at all exactly when
no allocation fails behind one that was granted. -/
theorem connectClientToServer_whole (wf : Wf s) (hcli : s.gClientsList.get? k = some cli) (hnone : cli.connP = none)
    (live : v ∈ s.gServersList.keys) :
    (∃ ret s', connectClientToServer K s v k = .ok (ret, s') ∧
      ((ret = 0 ∧ ∃ p, NewConnection s s' k v p) ∨ (ret < 0 ∧ LeftAlone s s'))) ↔ K.GrantsWhole s k v := by
  obtain ⟨srv, hsrv⟩ := Table.mem_keys.mp live
  have linked : ∀ {m s₁ p}, getFreeSubmem K s = .ok (some m, s₁) → K.kmalloc .conn s₁ = some p →
      connectClientToServer K s v k =
        .ok (0, s₁.link p k v m (K.kmalloc .servConn (s₁.link p k v m none))) := fun hf hp => by
    rw [connectClientToServer_linked hf hp hcli hnone, deref_of_get? hsrv]
    rfl
  constructor
  · rintro ⟨ret, s', h, whole⟩
    refine ⟨fun full shm none => ?_, fun m s₁ p hf hp none => ?_⟩
    · rw [connectClientToServer, getFreeSubmem_faults full shm none] at h
      cases h
    · rw [linked hf hp, none] at h
      cases h
      rcases whole with ⟨_, q, whole⟩ | ⟨negative, _⟩
      · exact link_notWhole wf (getFreeSubmem_leftAlone hf).entries whole
      · exact absurd negative (by decide)
  · rintro ⟨pages, entry⟩
    obtain ⟨o, s₁, hf⟩ := getFreeSubmem_returns pages
    have alone := getFreeSubmem_leftAlone hf
    by_cases short : o = none ∨ K.kmalloc .conn s₁ = none
    · exact ⟨_, _, connectClientToServer_refused hf short, Or.inr ⟨by decide, alone⟩⟩
    · obtain ⟨hm, hp⟩ := not_or.mp short
      obtain ⟨m, rfl⟩ := Option.ne_none_iff_exists'.mp hm
      obtain ⟨p, hp⟩ := Option.ne_none_iff_exists'.mp hp
      obtain ⟨e, he⟩ := Option.ne_none_iff_exists'.mp (entry m s₁ p hf hp)
      have made := linked hf hp
      rw [he] at made
      have free : findFreeSubmem s₁ = some m := by
        rcases getFreeSubmem_ok hf with ⟨rfl, ho, _⟩ | ⟨_, _, ho, _⟩ <;> exact ho.symm
      have fresh := K.kmalloc_fresh .conn s₁ p hp
      have unused := K.kmalloc_fresh .servConn _ e he
      exact ⟨_, _, made, Or.inl ⟨rfl, p, newConnection_link (alone.conns ▸ fresh) alone.conns free
        (alone.clients ▸ hcli) unused⟩⟩

/-- A request to connect an existing client to an existing server is all or nothing exactly when it is refused at
once or no allocation fails behind one that was granted. -/
theorem connectToServer_whole (reachable : Reachable s) (hk : findClientById s con.clientId = some k)
    (hv : findServerByName s con.serverName.toList = .ok (some v)) :
    ConnectsWhole K s filp con k v ↔ s.files.get? filp = none ∨ K.copyFromUser = false ∨
      (∃ cli, s.gClientsList.get? k = some cli ∧ cli.connP ≠ none) ∨ K.GrantsWhole s k v := by
  have refused : ∀ ret : Int, step s ⟨K, .ioctl filp (.connectToServer con)⟩ = returns ret s → ret < 0 →
      ConnectsWhole K s filp con k v := fun _ h negative => ⟨_, s, h, Or.inr ⟨negative, .refl s⟩⟩
  have call : step s ⟨K, .ioctl filp (.connectToServer con)⟩ = ipcIoctl K s filp (.connectToServer con) := rfl
  cases file : s.files.get? filp with
  | none =>
    refine iff_of_true (refused (-ENOENT) ?_ (by decide)) (Or.inl rfl)
    rw [call, ipcIoctl, file]
  | some t =>
    have call : step s ⟨K, .ioctl filp (.connectToServer con)⟩ = connectToServer K s con := by
      rw [call, ipcIoctl, file]
    have case := connectToServer_case K s con
    generalize answered : connectToServer K s con = a at case
    rw [answered] at call
    cases case with
    | noClient _ none => cases hk.symm.trans none
    | faultyName _ _ _ _ hf | endlessName _ _ _ _ hf | noServer _ _ _ _ hf => cases hv.symm.trans hf
    | notCopied copy => exact iff_of_true (refused (-EFAULT) call (by decide)) (Or.inr (Or.inl copy))
    | connected _ hk' hcli connected =>
      cases hk.symm.trans hk'
      exact iff_of_true (refused (-EEXIST) call (by decide)) (Or.inr (Or.inr (Or.inl ⟨_, hcli, connected⟩)))
    | asks copy hk' hcli hnone hf =>
      cases hk.symm.trans hk'
      cases hv.symm.trans hf
      have live : v ∈ s.gServersList.keys := by
        rw [findServerByName_eq] at hv
        obtain ⟨srv, hsrv, _⟩ := Table.find?_eq_some (Except.ok.inj hv)
        exact Table.mem_keys.mpr ⟨srv, hsrv⟩
      have free : ¬∃ cli, s.gClientsList.get? k = some cli ∧ cli.connP ≠ none := by
        rintro ⟨cli', hcli', connected⟩
        cases hcli.symm.trans hcli'
        exact connected hnone
      simp only [reduceCtorEq, copy, free, false_or]
      refine Iff.trans ?_ (connectClientToServer_whole reachable.wf hcli hnone live)
      constructor
      · rintro ⟨r, s', h, whole⟩
        rw [call] at h
        obtain ⟨⟨ret, s₁⟩, made, hr⟩ := bind_eq_ok.mp h
        cases hr
        exact ⟨ret, s₁, made, whole⟩
      · rintro ⟨ret, s', h, whole⟩
        refine ⟨⟨ret, .nothing⟩, s', ?_, whole⟩
        rw [call, h]
        rfl

theorem connectToServer_whole_registered : ∃ s, runCalls Drv.init registeredRun = some s ∧
    ConnectsWhole (.plenty ⟨2, 2⟩) s 2 ⟨1, shortName 65⟩ 1 1 := by
  have facts : (runCalls Drv.init registeredRun).map (fun s => (findClientById s 1,
      (findServerByName s (shortName 65).toList).toOption)) = some (some 1, some (some 1)) := by decide
  obtain ⟨s, hs, facts⟩ := Option.map_eq_some_iff.mp facts
  obtain ⟨hk, hv⟩ := Prod.mk.inj facts
  refine ⟨s, hs, (connectToServer_whole ⟨_, runCalls_trace hs⟩ hk (toOption_eq_some.mp hv)).mpr ?_⟩
  have grants := Kernel.plenty_succeeds ⟨2, 2⟩
  exact Or.inr (Or.inr (Or.inr ⟨fun _ _ => grants.allocPages _ _, fun _ _ _ _ _ => grants.kmalloc _ _⟩))

/-- A kernel that has no memory for an entry of a server's list. -/
def Kernel.noEntries (current : TaskStruct) : Kernel :=
  { Kernel.plenty current with
    kmalloc := fun site s => if site = .servConn then none else some (freshKey (s.live site))
    kmalloc_fresh := by
      intro site s p h
      split at h
      · cases h
      · exact Option.some.inj h ▸ freshKey_notMem (s.live site) }

/-- The client is connected and the call returns 0, and the server does not have the connection on its list. -/
theorem connectToServer_partial : ∃ s r s', runCalls Drv.init registeredRun = some s ∧
    findClientById s 1 = some 1 ∧ findServerByName s (shortName 65).toList = .ok (some 1) ∧
    step s ⟨.noEntries ⟨2, 2⟩, .ioctl 2 (.connectToServer ⟨1, shortName 65⟩)⟩ = .ok (r, s') ∧ r.ret = 0 ∧
    (s'.gClientsList.get? 1).bind Client.connP = some 1 ∧ s'.connectionList 1 = [] ∧
    ¬ConnectsWhole (.noEntries ⟨2, 2⟩) s 2 ⟨1, shortName 65⟩ 1 1 := by
  have facts : ((runCalls Drv.init registeredRun).bind fun s =>
      (step s ⟨.noEntries ⟨2, 2⟩, .ioctl 2 (.connectToServer ⟨1, shortName 65⟩)⟩).toOption.map fun done =>
        ((findClientById s 1, (findServerByName s (shortName 65).toList).toOption), done.1.ret,
          (done.2.gClientsList.get? 1).bind Client.connP, decide (done.2.servConns.keys = []))) =
      some ((some 1, some (some 1)), 0, some 1, true) := by decide
  obtain ⟨s, hs, facts⟩ := Option.bind_eq_some_iff.mp facts
  obtain ⟨⟨r, s'⟩, called, facts⟩ := Option.map_eq_some_iff.mp facts
  simp only [Prod.mk.injEq, decide_eq_true_eq] at facts
  obtain ⟨⟨hk, hv⟩, ret, connected, keys⟩ := facts
  have called := toOption_eq_some.mp called
  have empty : s'.connectionList 1 = [] := by
    rw [Drv.connectionList, List.map_eq_nil_iff.mp keys]
    rfl
  refine ⟨s, r, s', hs, hk, toOption_eq_some.mp hv, called, ret, connected, empty, ?_⟩
  rintro ⟨r', s'', again, whole⟩
  cases called.symm.trans again
  rcases whole with ⟨_, p, whole⟩ | ⟨negative, _⟩
  · have none : serverFindConn s' 1 p = none := by rw [serverFindConn, empty]; rfl
    exact whole.server none
  · rw [ret] at negative
    exact absurd negative (by decide)

end

end Ripc
