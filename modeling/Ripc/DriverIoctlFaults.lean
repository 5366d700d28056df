import Ripc.DriverCleanupFaults

namespace Ripc

theorem findServerLoop_eq {name : List UInt8} (h : name.length = maxServerName) (es : List (Ptr × Server)) :
    findServerLoop name es =
      .ok ((es.find? fun e => decide (e.2.name.bytes <+: name)).map Prod.fst) := by
  induction es with
  | nil => rfl
  | cons e rest ih =>
    have inside := strcmpEq_bytes e.2.name.nonzero (lt_of_lt_of_eq e.2.name.fits h.symm)
    simp only [findServerLoop, CString.bytes, inside, List.find?_cons]
    by_cases hp : e.2.name.chars ++ [0] <+: name
    · simp [hp]
    · simp only [hp, decide_false, ih]
      rfl

/-- Looking a name up never leaves the 64 bytes and finds the first server with this prefix. -/
theorem findServerByName_eq (s : Drv) (name : Vector UInt8 maxServerName) :
    findServerByName s name.toList =
      .ok (s.gServersList.find? fun srv => decide (srv.name.bytes <+: name.toList)) :=
  findServerLoop_eq (by simp) s.gServersList.entries

section

variable {K : Kernel} {s : Drv} {e : Fault} {t : Ptr} {task : RegTask}

/-- Where a registration would create a server, the name and the memory are as it needs them. -/
def RegisterServerSafe (K : Kernel) (s : Drv) (task : RegTask) (reg : ServerRegistration) : Prop :=
  task.canAddServer = true → K.copyFromUser = true → findServerByName s reg.name.toList = .ok none →
    Named (reg.name.toList ++ reg.serverId.toList) ∧ K.kmalloc .server s ≠ none

theorem regTaskAddServer_error {v : Ptr} (ht : s.gRegTaskList.get? t = some task)
    (live : v ∈ s.gServersList.keys) : regTaskAddServer K s t v ≠ .error e := by
  obtain ⟨srv, hv⟩ := Table.mem_keys.mp live
  simp only [regTaskAddServer, deref_of_get? ht, ok_bind]
  split
  next => exact nofun
  next =>
    split
    next => exact nofun
    next f hf =>
      simp only [serverAddTask, deref_of_get? hv, ok_bind]
      split <;> exact nofun

theorem regTaskAddClient_error {k : Ptr} (ht : s.gRegTaskList.get? t = some task)
    (live : k ∈ s.gClientsList.keys) : regTaskAddClient K s t k ≠ .error e := by
  obtain ⟨cli, hk⟩ := Table.mem_keys.mp live
  simp only [regTaskAddClient, deref_of_get? ht, ok_bind]
  split
  next => exact nofun
  next =>
    split
    next => exact nofun
    next f hf =>
      simp only [clientAddTask, deref_of_get? hk, ok_bind]
      split <;> exact nofun

theorem serverCreate_error {readable : List UInt8} (h : serverCreate K s readable = .error e) :
    e = .overRead ∧ (0 : UInt8) ∉ readable := by
  unfold serverCreate at h
  split at h
  next hn => cases h; exact ⟨rfl, strlen_eq_none.mp hn⟩
  next => cases h
  next => split at h <;> cases h

theorem serverCreate_none {readable : List UInt8} {s' : Drv} (h : serverCreate K s readable = .ok (none, s')) :
    strlen readable = some 0 ∨ K.kmalloc .server s = none := by
  unfold serverCreate at h
  split at h
  next => cases h
  next hz => exact Or.inl hz
  next =>
    split at h
    next hk => exact Or.inr hk
    next => cases h

theorem registerServer_error {reg : ServerRegistration} (ht : s.gRegTaskList.get? t = some task)
    (h : registerServer K s t reg = .error e) :
    e ≠ .useAfterFree ∧ ¬RegisterServerSafe K s task reg := by
  simp only [registerServer, deref_of_get? ht, ok_bind] at h
  split at h
  next => cases h
  next can =>
    split at h
    next => cases h
    next copy =>
      have can : task.canAddServer = true := by simpa using can
      have copy : K.copyFromUser = true := by simpa using copy
      rcases bind_eq_error.mp h with h | ⟨found, hf, h⟩
      · rw [findServerByName_eq] at h
        cases h
      cases found with
      | some w => cases h
      | none =>
        rcases bind_eq_error.mp h with h | ⟨⟨server, s₁⟩, hc, h⟩
        · obtain ⟨rfl, unterminated⟩ := serverCreate_error h
          exact ⟨nofun, fun safe => unterminated (safe can copy hf).1.1⟩
        cases server with
        | none =>
          cases h
          refine ⟨nofun, fun safe => ?_⟩
          obtain ⟨⟨_, nonempty⟩, memory⟩ := safe can copy hf
          rcases serverCreate_none hc with hz | hn
          · exact nonempty hz
          · exact memory hn
        | some v =>
          obtain ⟨_, hk, hs₁⟩ := serverCreate_some hc
          have fresh := K.kmalloc_fresh .server s v hk
          have hv : s₁.gServersList.get? v = some ⟨strscpy maxServerName (by decide)
              (reg.name.toList ++ reg.serverId.toList), K.idaAllocRange .server s.gIdGen, none⟩ := by
            rw [hs₁, Drv.addServer, Table.get?_pushBack fresh, if_pos rfl]
          have ht₁ : s₁.gRegTaskList.get? t = some task := hs₁ ▸ ht
          simp only [deref_of_get? hv, ok_bind] at h
          split at h
          next => cases h
          next =>
            rcases bind_eq_error.mp h with h | ⟨s₂, ha, h⟩
            · exact absurd h (regTaskAddServer_error ht₁ (Table.mem_keys.mpr ⟨_, hv⟩))
            have after : ∃ srv, s₂.gServersList.get? v = some srv := by
              rcases regTaskAddServer_ok ha ht₁ can hv rfl with ⟨_, rfl⟩ | ⟨f, _, rfl⟩
              · exact ⟨_, hv⟩
              · exact ⟨_, by rw [Drv.attachServer, Table.get?_modify, if_pos rfl, hv, Option.map_some]⟩
            obtain ⟨srv, hsrv⟩ := after
            simp only [deref_of_get? hsrv, ok_bind] at h
            cases h

/-- Where a registration would create a client, there is memory for it. -/
def RegisterClientSafe (K : Kernel) (s : Drv) (task : RegTask) : Prop :=
  task.canAddClient = true → K.kmalloc .client s ≠ none

theorem registerClient_error (ht : s.gRegTaskList.get? t = some task)
    (h : registerClient K s t = .error e) : e ≠ .useAfterFree ∧ ¬RegisterClientSafe K s task := by
  simp only [registerClient, deref_of_get? ht, ok_bind] at h
  split at h
  next => cases h
  next can =>
    have can : task.canAddClient = true := by simpa using can
    cases hk : K.kmalloc .client s with
    | none =>
      simp only [clientCreate, hk] at h
      cases h
      exact ⟨nofun, fun safe => safe can hk⟩
    | some k =>
      cases hc : clientCreate K s with
      | mk client s₁ =>
        have fresh := K.kmalloc_fresh .client s k hk
        have created : client = some k ∧ s₁ = s.addClient k (K.idaAllocRange .client s.gIdGen) := by
          unfold clientCreate at hc
          rw [hk] at hc
          cases hc
          exact ⟨rfl, rfl⟩
        obtain ⟨rfl, hs₁⟩ := created
        have hcli : s₁.gClientsList.get? k = some ⟨K.idaAllocRange .client s.gIdGen, none, none⟩ := by
          rw [hs₁, Drv.addClient, Table.get?_pushBack fresh, if_pos rfl]
        have ht₁ : s₁.gRegTaskList.get? t = some task := hs₁ ▸ ht
        simp only [hc, deref_of_get? hcli, ok_bind] at h
        split at h
        next => cases h
        next =>
          rcases bind_eq_error.mp h with h | ⟨s₂, ha, h⟩
          · exact absurd h (regTaskAddClient_error ht₁ (Table.mem_keys.mpr ⟨_, hcli⟩))
          have after : ∃ cli, s₂.gClientsList.get? k = some cli := by
            rcases regTaskAddClient_ok ha ht₁ can hcli rfl with ⟨_, rfl⟩ | ⟨f, _, rfl⟩
            · exact ⟨_, hcli⟩
            · exact ⟨_, by rw [Drv.attachClient, Table.get?_modify, if_pos rfl, hcli, Option.map_some]⟩
          obtain ⟨cli, hcli'⟩ := after
          simp only [deref_of_get? hcli', ok_bind] at h
          cases h

/-- A server name that is not found ends, and a server that is found meets a free slot or pages
for a new pool. -/
def ServerMet (K : Kernel) (s : Drv) (con : ConnectToServer) : Prop :=
  (findServerByName s con.serverName.toList = .ok none → (0 : UInt8) ∈ con.serverName.toList) ∧
    ∀ v, findServerByName s con.serverName.toList = .ok (some v) → findFreeSubmem s = none →
      K.kmalloc .shm s ≠ none → K.allocPages shmRegionOrder s ≠ none

/-- The client exists; where it is free to connect, the server is met. -/
def ConnectSafe (K : Kernel) (s : Drv) (con : ConnectToServer) : Prop :=
  K.copyFromUser = true → ∃ k cli, findClientById s con.clientId = some k ∧
    s.gClientsList.get? k = some cli ∧ (cli.connP = none → ServerMet K s con)

theorem shmCreate_error (h : shmCreate K s = .error e) :
    e = .nullDeref ∧ K.kmalloc .shm s ≠ none ∧ K.allocPages shmRegionOrder s = none := by
  unfold shmCreate at h
  split at h
  next => cases h
  next p hp =>
    split at h
    next hn => cases h; exact ⟨rfl, by rw [hp]; exact nofun, hn⟩
    next => cases h

theorem getFreeSubmem_error (h : getFreeSubmem K s = .error e) : findFreeSubmem s = none ∧
    e = .nullDeref ∧ K.kmalloc .shm s ≠ none ∧ K.allocPages shmRegionOrder s = none := by
  unfold getFreeSubmem at h
  split at h
  next => cases h
  next full =>
    rcases bind_eq_error.mp h with hc | ⟨⟨o, s₁⟩, hs, hr⟩
    · exact ⟨full, shmCreate_error hc⟩
    rcases shmCreate_ok hs full with ⟨rfl, rfl, _⟩ | ⟨p, rfl, shm, ⟨⟨fresh, _⟩, rfl⟩, _⟩
    · cases hr
    · have pool : (s.apply (.addPool p shm)).gShmList.get? p = some shm := by
        show (s.gShmList.pushFront p shm).get? p = _
        rw [Table.get?_pushFront fresh, if_pos rfl]
      simp only [deref_of_get? pool, ok_bind] at hr
      cases hr

theorem connectClientToServer_error {v k : Ptr} {cli : Client} {srv : Server}
    (hk : s.gClientsList.get? k = some cli) (unconnected : cli.connP = none) (hv : s.gServersList.get? v = some srv)
    (h : connectClientToServer K s v k = .error e) : findFreeSubmem s = none ∧
      e = .nullDeref ∧ K.kmalloc .shm s ≠ none ∧ K.allocPages shmRegionOrder s = none := by
  rcases bind_eq_error.mp h with h | ⟨⟨o, s₁⟩, hf, _⟩
  · exact getFreeSubmem_error h
  by_cases short : o = none ∨ K.kmalloc .conn s₁ = none
  · rw [connectClientToServer_refused hf short] at h
    cases h
  · obtain ⟨hm, hp⟩ := not_or.mp short
    obtain ⟨m, rfl⟩ := Option.ne_none_iff_exists'.mp hm
    obtain ⟨p, hp⟩ := Option.ne_none_iff_exists'.mp hp
    rw [connectClientToServer_linked hf hp hk unconnected, deref_of_get? hv] at h
    cases h

theorem connectToServer_error {con : ConnectToServer} (h : connectToServer K s con = .error e) :
    e ≠ .useAfterFree ∧ ¬ConnectSafe K s con := by
  have case := connectToServer_case K s con
  rw [h] at case
  generalize answered : (Except.error e : Answer) = a at case
  have known : ∀ {k cli}, findClientById s con.clientId = some k → s.gClientsList.get? k = some cli →
      K.copyFromUser = true → cli.connP = none → ConnectSafe K s con → ServerMet K s con := by
    intro k cli hk hcli copy free safe
    obtain ⟨k', cli', hk', hcli', rest⟩ := safe copy
    cases hk.symm.trans hk'
    cases hcli.symm.trans hcli'
    exact rest free
  cases case with
  | notCopied | connected | noServer => cases answered
  | noClient copy hk =>
    cases answered
    refine ⟨nofun, fun safe => ?_⟩
    obtain ⟨k, cli, hk', _⟩ := safe copy
    cases hk.symm.trans hk'
  | faultyName copy hk hcli free hf =>
    rw [findServerByName_eq] at hf
    cases hf
  | endlessName copy hk hcli free hf len =>
    cases answered
    exact ⟨nofun, fun safe => strlen_eq_none.mp len ((known hk hcli copy free safe).1 hf)⟩
  | @asks k cli v copy hk hcli free hf =>
    have hserver := hf
    rw [findServerByName_eq] at hserver
    obtain ⟨srv, hv, _⟩ := Table.find?_eq_some (Except.ok.inj hserver)
    rcases bind_eq_error.mp answered.symm with h | ⟨⟨ret, s₁⟩, _, h⟩
    · obtain ⟨full, rfl, shm, none⟩ := connectClientToServer_error hcli free hv h
      exact ⟨nofun, fun safe => (known hk hcli copy free safe).2 v hf full shm none⟩
    · cases h

end

end Ripc
