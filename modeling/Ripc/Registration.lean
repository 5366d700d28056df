import Ripc.DriverUnowned
import Ripc.DriverRuns

namespace Ripc

/-- One server more, with a new id, tied to task `t` and counted there; nothing else is new. -/
def ServerAdded (s s' : Drv) (t : Ptr) (name : CString maxServerName) (id : Int) : Prop :=
  ∃ v e, v ∉ s.gServersList.keys ∧ e ∉ s.serversEntries.keys ∧ id ∉ s.gIdGen ∧ s' = { s with
    gIdGen := id :: s.gIdGen
    gServersList := s.gServersList.pushBack v ⟨name, id, some e⟩
    serversEntries := s.serversEntries.pushFront e ⟨t, v⟩
    gRegTaskList := s.gRegTaskList.modify t fun task => { task with numOfServers := task.numOfServers + 1 } }

/-- One client more, with a new id, tied to task `t` and counted there; nothing else is new. -/
def ClientAdded (s s' : Drv) (t : Ptr) (id : Int) : Prop :=
  ∃ k e, k ∉ s.gClientsList.keys ∧ e ∉ s.clientsEntries.keys ∧ id ∉ s.gIdGen ∧ s' = { s with
    gIdGen := id :: s.gIdGen
    gClientsList := s.gClientsList.pushBack k ⟨id, some e, none⟩
    clientsEntries := s.clientsEntries.pushFront e ⟨t, k⟩
    gRegTaskList := s.gRegTaskList.modify t fun task => { task with numOfClients := task.numOfClients + 1 } }

/-- A call that returns leaves no trace when it fails, and when it returns zero it has handed out
the id of what was added. -/
def AllOrNothing (answer : Answer) (s : Drv) (added : Drv → Int → Prop) : Prop :=
  ∀ r s', answer = .ok (r, s') →
    (r.ret < 0 → s' = s) ∧ (r.ret = 0 → ∃ id, r.out = .id id ∧ isIdValid id ∧ added s' id)

/-- The call gets as far as creating the server. -/
def CreatesServer (K : Kernel) (s : Drv) (task : RegTask) (reg : ServerRegistration) : Prop :=
  task.canAddServer = true ∧ K.copyFromUser = true ∧ findServerByName s reg.name.toList = .ok none ∧
    Named (reg.name.toList ++ reg.serverId.toList) ∧ K.kmalloc .server s ≠ none

/-- The copy back works, there is an id left and there is memory for the entry. -/
def CompletesServer (K : Kernel) (s : Drv) (reg : ServerRegistration) : Prop :=
  K.copyToUser = true ∧ isIdValid (K.idaAllocRange .server s.gIdGen) ∧ ∀ v, K.kmalloc .server s = some v →
    K.kmalloc .serversEntry (s.addServer v reg.stored (K.idaAllocRange .server s.gIdGen)) ≠ none

def CreatesClient (K : Kernel) (s : Drv) (task : RegTask) : Prop :=
  task.canAddClient = true ∧ K.kmalloc .client s ≠ none

def CompletesClient (K : Kernel) (s : Drv) : Prop :=
  K.copyToUser = true ∧ isIdValid (K.idaAllocRange .client s.gIdGen) ∧ ∀ k, K.kmalloc .client s = some k →
    K.kmalloc .clientsEntry (s.addClient k (K.idaAllocRange .client s.gIdGen)) ≠ none

section

variable {K : Kernel} {s : Drv} {t : Ptr} {task : RegTask}

theorem serverAdded_of_attach {v e : Ptr} {name : CString maxServerName} {id : Int} (valid : isIdValid id)
    (ok : (Event.addServer v name id (some (e, t))).Ok s) :
    ServerAdded s ((s.addServer v name id).attachServer v e t) t name id := by
  obtain ⟨fresh, ids, owner⟩ := ok
  have hid : ¬id < 0 := by
    have := (isIdValid_iff.mp valid).1
    omega
  refine ⟨v, e, fresh, (owner _ rfl).1, (ids.1 (isIdValid_iff.mp valid).1).2, ?_⟩
  simp only [Drv.attachServer, Drv.addServer, Drv.takeId, if_neg hid, Table.modify_pushBack fresh]

theorem clientAdded_of_attach {k e : Ptr} {id : Int} (valid : isIdValid id)
    (ok : (Event.addClient k id (some (e, t))).Ok s) :
    ClientAdded s ((s.addClient k id).attachClient k e t) t id := by
  obtain ⟨fresh, ids, owner⟩ := ok
  have hid : ¬id < 0 := by
    have := (isIdValid_iff.mp valid).1
    omega
  refine ⟨k, e, fresh, (owner _ rfl).1, (ids.1 (isIdValid_iff.mp valid).1).2, ?_⟩
  simp only [Drv.attachClient, Drv.addClient, Drv.takeId, if_neg hid, Table.modify_pushBack fresh]

theorem registerServer_returns {reg : ServerRegistration} (ht : s.gRegTaskList.get? t = some task)
    (creates : CreatesServer K s task reg) : ∃ r s', registerServer K s t reg = .ok (r, s') := by
  cases h : registerServer K s t reg with
  | error e => exact absurd (fun _ _ _ => creates.2.2.2) (registerServer_error ht h).2
  | ok a => exact ⟨a.1, a.2, rfl⟩

theorem registerClient_returns (ht : s.gRegTaskList.get? t = some task)
    (creates : CreatesClient K s task) : ∃ r s', registerClient K s t = .ok (r, s') := by
  cases h : registerClient K s t with
  | error e => exact absurd (fun _ => creates.2) (registerClient_error ht h).2
  | ok a => exact ⟨a.1, a.2, rfl⟩

theorem RegisterServerRefused.negative {reg : ServerRegistration} {ret : Int}
    (h : RegisterServerRefused K s task reg ret) : ret < 0 := by
  cases h <;> decide

theorem CreatesServer.notRefused {reg : ServerRegistration} {ret : Int} (h : CreatesServer K s task reg) :
    ¬RegisterServerRefused K s task reg ret := by
  obtain ⟨can, copy, hf, _⟩ := h
  intro refused
  cases refused with
  | full hfull => rw [can] at hfull; cases hfull
  | copy _ hcopy => rw [copy] at hcopy; cases hcopy
  | «exists» _ _ hexists => cases hf.symm.trans hexists

/-- Once the object exists, the three remaining steps decide. -/
theorem Registered.whole_iff {id : Int} {noEntry : Prop} {r : Reply} {owner : Option (Ptr × Ptr)} {s' : Drv}
    {added : Int → Prop} (h : Registered K t id noEntry r owner) (changed : s' ≠ s)
    (done : ∀ e, owner = some (e, t) → isIdValid id → added id) :
    ((r.ret < 0 → s' = s) ∧ (r.ret = 0 → ∃ id, r.out = .id id ∧ isIdValid id ∧ added id)) ↔
      (K.copyToUser = true ∧ isIdValid id ∧ ¬noEntry) := by
  cases h with
  | copy hc =>
    constructor
    · exact fun whole => absurd (whole.1 (by decide)) changed
    · intro completes
      rw [hc] at completes
      cases completes.1
  | entry _ hn =>
    constructor
    · exact fun whole => absurd (whole.1 (show -ENOENT < 0 by decide)) changed
    · exact fun completes => absurd hn completes.2.2
  | done hc hn =>
    constructor
    · intro whole
      obtain ⟨id', hid, valid, _⟩ := whole.2 rfl
      cases hid
      exact ⟨hc, valid, hn⟩
    · exact fun completes => ⟨fun hneg => absurd hneg (Int.lt_irrefl 0),
        fun _ => ⟨_, rfl, completes.2.1, done _ rfl completes.2.1⟩⟩

theorem registerServer_allOrNothing (reg : ServerRegistration) (ht : s.gRegTaskList.get? t = some task) :
    AllOrNothing (registerServer K s t reg) s (fun s' id => ServerAdded s s' t reg.stored id) ↔
      (CreatesServer K s task reg → CompletesServer K s reg) := by
  have decided : ∀ {r s' v owner}, K.kmalloc .server s = some v →
      s.event (.addServer v reg.stored (K.idaAllocRange .server s.gIdGen) owner) s' →
      Registered K t (K.idaAllocRange .server s.gIdGen) (K.kmalloc .serversEntry
        (s.addServer v reg.stored (K.idaAllocRange .server s.gIdGen)) = none) r owner →
      (((r.ret < 0 → s' = s) ∧ (r.ret = 0 → ∃ id, r.out = .id id ∧ isIdValid id ∧
        ServerAdded s s' t reg.stored id)) ↔ CompletesServer K s reg) := by
    rintro r s' v owner hk ⟨ok, rfl⟩ outcome
    have changed : s.apply (.addServer v reg.stored (K.idaAllocRange .server s.gIdGen) owner) ≠ s := by
      intro same
      have keys := congrArg (fun a => a.gServersList.keys) same
      cases owner <;> simp [Drv.apply, Drv.addServer, Drv.attachServer, Table.keys_pushBack ok.1] at keys
    refine (outcome.whole_iff changed fun e he valid => ?_).trans ?_
    · subst he
      exact serverAdded_of_attach valid ok
    · simp only [CompletesServer, hk, Option.some.injEq, forall_eq', ne_eq]
  constructor
  · intro whole creates
    obtain ⟨r, s', h⟩ := registerServer_returns ht creates
    rcases registerServer_ok h ht with ⟨_, refused⟩ | ⟨_, _, _, _, v, owner, hk, ev, outcome⟩
    · exact absurd refused creates.notRefused
    · exact (decided hk ev outcome).mp (whole r s' h)
  · intro completes r s' h
    rcases registerServer_ok h ht with ⟨rfl, refused⟩ | ⟨can, copy, hf, named, v, owner, hk, ev, outcome⟩
    · exact ⟨fun _ => rfl, fun hz => absurd hz (Int.ne_of_lt refused.negative)⟩
    · exact (decided hk ev outcome).mpr (completes ⟨can, copy, hf, named, by rw [hk]; simp⟩)

theorem registerClient_allOrNothing (ht : s.gRegTaskList.get? t = some task) :
    AllOrNothing (registerClient K s t) s (fun s' id => ClientAdded s s' t id) ↔
      (CreatesClient K s task → CompletesClient K s) := by
  have decided : ∀ {r s' k owner}, K.kmalloc .client s = some k →
      s.event (.addClient k (K.idaAllocRange .client s.gIdGen) owner) s' →
      Registered K t (K.idaAllocRange .client s.gIdGen) (K.kmalloc .clientsEntry
        (s.addClient k (K.idaAllocRange .client s.gIdGen)) = none) r owner →
      (((r.ret < 0 → s' = s) ∧ (r.ret = 0 → ∃ id, r.out = .id id ∧ isIdValid id ∧
        ClientAdded s s' t id)) ↔ CompletesClient K s) := by
    rintro r s' k owner hk ⟨ok, rfl⟩ outcome
    have changed : s.apply (.addClient k (K.idaAllocRange .client s.gIdGen) owner) ≠ s := by
      intro same
      have keys := congrArg (fun a => a.gClientsList.keys) same
      cases owner <;> simp [Drv.apply, Drv.addClient, Drv.attachClient, Table.keys_pushBack ok.1] at keys
    refine (outcome.whole_iff changed fun e he valid => ?_).trans ?_
    · subst he
      exact clientAdded_of_attach valid ok
    · simp only [CompletesClient, hk, Option.some.injEq, forall_eq', ne_eq]
  constructor
  · intro whole creates
    obtain ⟨r, s', h⟩ := registerClient_returns ht creates
    rcases registerClient_ok h ht with ⟨_, full, _⟩ | ⟨_, k, owner, hk, ev, outcome⟩
    · rw [creates.1] at full
      cases full
    · exact (decided hk ev outcome).mp (whole r s' h)
  · intro completes r s' h
    rcases registerClient_ok h ht with ⟨rfl, _, hret⟩ | ⟨can, k, owner, hk, ev, outcome⟩
    · exact ⟨fun _ => rfl, fun hz => absurd (hret.symm.trans hz) (by decide)⟩
    · exact (decided hk ev outcome).mpr (completes ⟨can, by rw [hk]; simp⟩)

/-- A registration that creates its object is all-or-nothing exactly when nothing fails after that. -/
theorem registration_allOrNothing {filp : Ptr} (h : Reachable s) (ht : s.files.get? filp = some t) :
    ∃ task, s.gRegTaskList.get? t = some task ∧ (∀ reg,
      AllOrNothing (ipcIoctl K s filp (.registerServer reg)) s
        (fun s' id => ServerAdded s s' t reg.stored id) ↔
        (CreatesServer K s task reg → CompletesServer K s reg)) ∧
      (AllOrNothing (ipcIoctl K s filp .registerClient) s (fun s' id => ClientAdded s s' t id) ↔
        (CreatesClient K s task → CompletesClient K s)) := by
  obtain ⟨task, htask⟩ := Table.mem_keys.mp (h.wf.files.live filp t ht)
  refine ⟨task, htask, fun reg => ?_, ?_⟩
  · simpa only [ipcIoctl, ht] using registerServer_allOrNothing reg htask
  · simpa only [ipcIoctl, ht] using registerClient_allOrNothing htask

end

/-- The state after the first process has opened the device. -/
theorem registration_allOrNothing_opened : ∃ s task, Trace Returns Drv.init [callOf 1 .open] s ∧
    s.gRegTaskList.get? 1 = some task ∧ (∀ reg,
      AllOrNothing (ipcIoctl (.plenty ⟨1, 1⟩) s 1 (.registerServer reg)) s
        (fun s' id => ServerAdded s s' 1 reg.stored id) ↔
        (CreatesServer (.plenty ⟨1, 1⟩) s task reg → CompletesServer (.plenty ⟨1, 1⟩) s reg)) ∧
      (AllOrNothing (ipcIoctl (.plenty ⟨1, 1⟩) s 1 .registerClient) s (fun s' id => ClientAdded s s' 1 id) ↔
        (CreatesClient (.plenty ⟨1, 1⟩) s task → CompletesClient (.plenty ⟨1, 1⟩) s)) := by
  have file : (runCalls Drv.init [callOf 1 .open]).map (fun s => s.files.get? 1) = some (some 1) := by decide
  obtain ⟨s, hs, hf⟩ := Option.map_eq_some_iff.mp file
  have run := runCalls_trace hs
  obtain ⟨task, whole⟩ := registration_allOrNothing (K := .plenty ⟨1, 1⟩) ⟨_, run⟩ hf
  exact ⟨s, task, run, whole⟩

/-- The copy back fails: the call returns `-EFAULT`, and the server stays, with its id and without
a task. -/
theorem registration_copy_fails : ∃ s r s', Trace Returns Drv.init [callOf 1 .open] s ∧
    ipcIoctl { Kernel.plenty ⟨1, 1⟩ with copyToUser := false } s 1
      (.registerServer ⟨shortName 65, Vector.replicate 4 0⟩) = .ok (r, s') ∧
    r.ret = -EFAULT ∧ s.gServersList.keys = [] ∧ s'.gServersList.keys = [1] ∧ s'.gIdGen = [0] ∧
    s'.serversEntries.keys = [] := by
  have facts : ((runCalls Drv.init [callOf 1 .open]).bind fun s =>
      (ipcIoctl { Kernel.plenty ⟨1, 1⟩ with copyToUser := false } s 1
        (.registerServer ⟨shortName 65, Vector.replicate 4 0⟩)).toOption.map fun a =>
        (a.1.ret, s.gServersList.keys, a.2.gServersList.keys, a.2.gIdGen, a.2.serversEntries.keys)) =
      some (-EFAULT, [], [1], [0], []) := by decide
  obtain ⟨s, hs, facts⟩ := Option.bind_eq_some_iff.mp facts
  obtain ⟨⟨r, s'⟩, hr, facts⟩ := Option.map_eq_some_iff.mp facts
  simp only [Prod.mk.injEq] at facts
  exact ⟨s, r, s', runCalls_trace hs, toOption_eq_some.mp hr, facts⟩

end Ripc
