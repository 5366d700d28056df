import Ripc.DriverLimits

namespace Ripc

section

variable {α : Type} {n i : Nat} {xs ys : Fin n → α} {a : α}

theorem readAt_eq_ok : readAt xs i = .ok a ↔ ∃ h : i < n, xs ⟨i, h⟩ = a := by
  unfold readAt
  split
  next h => simp [h]
  next h => simp [h]

theorem writeAt_eq_ok : writeAt xs i a = .ok ys ↔ i < n ∧ ys = fun j => if j.val = i then a else xs j := by
  unfold writeAt
  split
  next h => simp [h, eq_comm]
  next h => simp [h]

end

section

variable {s : Drv} {m n : Nat}

theorem connIdsLoop_any {es : List (Ptr × ServConnList)} {ids out : Fin maxClientsPerServer → Int}
    (h : connIdsLoop s es n ids = .ok (m, out)) (ids' : Fin maxClientsPerServer → Int) :
    ∃ out', connIdsLoop s es n ids' = .ok (m, out') := by
  induction es generalizing n ids ids' with
  | nil =>
    cases h
    exact ⟨ids', rfl⟩
  | cons e rest ih =>
    obtain ⟨c, hc, h⟩ := bind_eq_ok.mp h
    simp only [connIdsLoop, hc, ok_bind]
    cases hk : c.clientP with
    | none =>
      rw [hk] at h
      cases h
      exact ⟨ids', rfl⟩
    | some k =>
      simp only [hk] at h
      split at h
      next full =>
        cases h
        exact ⟨ids', by simp only [if_pos full]⟩
      next room =>
        obtain ⟨cli, hcli, h⟩ := bind_eq_ok.mp h
        obtain ⟨mid, hw, h⟩ := bind_eq_ok.mp h
        obtain ⟨inside, _⟩ := writeAt_eq_ok.mp hw
        simp only [if_neg room, hcli, ok_bind, writeAt_eq_ok.mpr ⟨inside, rfl⟩]
        exact ih h _

theorem serverGetData_any {v : Ptr} {dest data : StServer} (h : serverGetData s v dest = .ok data) (dest' : StServer) :
    ∃ data', serverGetData s v dest' = .ok data' := by
  obtain ⟨srv, hv, h⟩ := bind_eq_ok.mp h
  obtain ⟨⟨n, ids⟩, hids, h⟩ := bind_eq_ok.mp h
  obtain ⟨ids', hids'⟩ := connIdsLoop_any hids dest'.connIds
  exact ⟨⟨srv.id, nameBytes srv.name, ids', n⟩, by simp only [serverGetData, hv, hids', ok_bind]⟩

theorem serversDataLoop_any {es : List (Ptr × ServersList)} {dest out : Fin maxServersPerPid → StServer}
    (h : serversDataLoop s es n dest = .ok (m, out)) (dest' : Fin maxServersPerPid → StServer) :
    ∃ out', serversDataLoop s es n dest' = .ok (m, out') := by
  induction es generalizing n dest dest' with
  | nil =>
    cases h
    exact ⟨dest', rfl⟩
  | cons e rest ih =>
    obtain ⟨old, hread, h⟩ := bind_eq_ok.mp h
    obtain ⟨data, hdata, h⟩ := bind_eq_ok.mp h
    obtain ⟨mid, hw, h⟩ := bind_eq_ok.mp h
    obtain ⟨inside, _⟩ := writeAt_eq_ok.mp hw
    obtain ⟨data', hdata'⟩ := serverGetData_any hdata (dest' ⟨n, inside⟩)
    simp only [serversDataLoop, readAt_eq_ok.mpr ⟨inside, rfl⟩, hdata', ok_bind, writeAt_eq_ok.mpr ⟨inside, rfl⟩]
    exact ih h _

theorem clientsDataLoop_any {es : List (Ptr × ClientsList)} {dest out : Fin maxClientsPerPid → StClient}
    (h : clientsDataLoop s es n dest = .ok (m, out)) (dest' : Fin maxClientsPerPid → StClient) :
    ∃ out', clientsDataLoop s es n dest' = .ok (m, out') := by
  induction es generalizing n dest dest' with
  | nil =>
    cases h
    exact ⟨dest', rfl⟩
  | cons e rest ih =>
    obtain ⟨data, hdata, h⟩ := bind_eq_ok.mp h
    obtain ⟨mid, hw, h⟩ := bind_eq_ok.mp h
    obtain ⟨inside, _⟩ := writeAt_eq_ok.mp hw
    simp only [clientsDataLoop, hdata, ok_bind, writeAt_eq_ok.mpr ⟨inside, rfl⟩]
    exact ih h _

theorem taskGetData_any {e : Ptr × RegTask} {dest data : StTask} (h : taskGetData s e dest = .ok data)
    (dest' : StTask) : ∃ data', taskGetData s e dest' = .ok data' := by
  obtain ⟨⟨nServers, servers⟩, hs, h⟩ := bind_eq_ok.mp h
  obtain ⟨⟨nClients, clients⟩, hc, h⟩ := bind_eq_ok.mp h
  obtain ⟨servers', hs'⟩ := serversDataLoop_any hs dest'.servers
  obtain ⟨clients', hc'⟩ := clientsDataLoop_any hc dest'.clients
  exact ⟨⟨e.2.taskP.pid, clients', servers', nClients, nServers⟩, by simp only [taskGetData, hs', hc', ok_bind]⟩

theorem tasksDataLoop_any {es : List (Ptr × RegTask)} {dest out : Fin maxProcesses → StTask}
    (h : tasksDataLoop s es n dest = .ok (m, out)) (dest' : Fin maxProcesses → StTask) :
    ∃ out', tasksDataLoop s es n dest' = .ok (m, out') := by
  induction es generalizing n dest dest' with
  | nil =>
    cases h
    exact ⟨dest', rfl⟩
  | cons e rest ih =>
    unfold tasksDataLoop at h ⊢
    split at h
    next full =>
      cases h
      exact ⟨dest', by rw [if_pos full]⟩
    next room =>
      obtain ⟨old, hread, h⟩ := bind_eq_ok.mp h
      obtain ⟨data, hdata, h⟩ := bind_eq_ok.mp h
      obtain ⟨mid, hw, h⟩ := bind_eq_ok.mp h
      obtain ⟨inside, _⟩ := writeAt_eq_ok.mp hw
      obtain ⟨data', hdata'⟩ := taskGetData_any hdata (dest' ⟨n, inside⟩)
      rw [if_neg room]
      simp only [readAt_eq_ok.mpr ⟨inside, rfl⟩, hdata', ok_bind, writeAt_eq_ok.mpr ⟨inside, rfl⟩]
      exact ih h _

theorem tasksDataLoop_kept {es : List (Ptr × RegTask)} {dest out : Fin maxProcesses → StTask}
    (h : tasksDataLoop s es n dest = .ok (m, out)) (j : Fin maxProcesses) (before : j.val < n) : out j = dest j := by
  induction es generalizing n dest with
  | nil =>
    cases h
    rfl
  | cons e rest ih =>
    unfold tasksDataLoop at h
    split at h
    next =>
      cases h
      rfl
    next =>
      obtain ⟨old, hread, h⟩ := bind_eq_ok.mp h
      obtain ⟨data, hdata, h⟩ := bind_eq_ok.mp h
      obtain ⟨mid, hw, h⟩ := bind_eq_ok.mp h
      obtain ⟨_, rfl⟩ := writeAt_eq_ok.mp hw
      have later := ih h (by omega)
      have other : j.val ≠ n := by omega
      rw [later, if_neg other]

theorem tasksDataLoop_slot {es : List (Ptr × RegTask)} {dest out : Fin maxProcesses → StTask} {e : Ptr × RegTask}
    {i : Nat} (h : tasksDataLoop s es n dest = .ok (m, out)) (he : es[i]? = some e) (j : Fin maxProcesses)
    (hj : j.val = n + i) : taskGetData s e (dest j) = .ok (out j) := by
  induction es generalizing n dest i with
  | nil => simp at he
  | cons first rest ih =>
    unfold tasksDataLoop at h
    have inside := j.isLt
    split at h
    next full => omega
    next =>
      obtain ⟨old, hread, h⟩ := bind_eq_ok.mp h
      obtain ⟨data, hdata, h⟩ := bind_eq_ok.mp h
      obtain ⟨mid, hw, h⟩ := bind_eq_ok.mp h
      obtain ⟨here, rfl⟩ := writeAt_eq_ok.mp hw
      obtain ⟨_, hold⟩ := readAt_eq_ok.mp hread
      cases i with
      | zero =>
        simp only [List.getElem?_cons_zero, Option.some.injEq] at he
        subst he
        have hj : j.val = n := hj
        have own : j = ⟨n, here⟩ := Fin.ext hj
        have stays := tasksDataLoop_kept h j (by omega)
        rw [if_pos hj] at stays
        rw [stays, own, hold]
        exact hdata
      | succ i =>
        simp only [List.getElem?_cons_succ] at he
        have later := ih h he (by omega)
        have other : j.val ≠ n := by omega
        rw [if_neg other] at later
        exact later

theorem taskGetData_bare {e : Ptr × RegTask} {dest data : StTask} (servers : s.serversOf e.1 = [])
    (clients : s.clientsOf e.1 = []) (h : taskGetData s e dest = .ok data) :
    data.clients = dest.clients ∧ data.servers = dest.servers := by
  rw [taskGetData, servers, clients] at h
  cases h
  exact ⟨rfl, rfl⟩

end

/-- The same kernel with another content of fresh memory. -/
def Kernel.withGarbage (K : Kernel) (g : StRegTasks) : Kernel := { K with garbage := g }

/-- A read copies these bytes to the monitor. -/
def Snapshot (K : Kernel) (s : Drv) (filp : Ptr) (count : Nat) (data : StRegTasks) : Prop :=
  ∃ s', ipcRead K s filp count = .ok (⟨sizeofStRegTasks, .snapshot data⟩, s')

/-- The bytes that a read copies to the monitor are the same whatever fresh memory contains. -/
def SnapshotFixed (K : Kernel) (s : Drv) (filp : Ptr) (count : Nat) : Prop :=
  ∀ g g' data data', Snapshot (K.withGarbage g) s filp count data → Snapshot (K.withGarbage g') s filp count data' →
    data = data'

section

variable {K : Kernel} {s : Drv} {filp : Ptr} {count : Nat} {data : StRegTasks}

theorem snapshot_ok (read : Snapshot K s filp count data) : ∃ t task, s.gRegTaskList.get? t = some task ∧
    task.isMonitor ≠ 0 ∧ regTaskGetData s K.garbage = .ok data ∧
    ∀ g data', regTaskGetData s g = .ok data' → Snapshot (K.withGarbage g) s filp count data' := by
  obtain ⟨s', h⟩ := read
  unfold ipcRead at h
  split at h
  next => cases h
  next t file =>
    obtain ⟨task, ht, h⟩ := bind_eq_ok.mp h
    split at h
    next monitor =>
      split at h
      next => cases h
      next room =>
        split at h
        next => cases h
        next p memory =>
          obtain ⟨data₀, hdata, h⟩ := bind_eq_ok.mp h
          split at h
          next => cases h
          next copied =>
            cases h
            have copied : K.copyToUser = true := by simpa using copied
            refine ⟨t, task, deref_some ht, monitor, hdata, fun g data' hdata' => ⟨s, ?_⟩⟩
            simp only [ipcRead, file, ht, ok_bind, if_pos monitor, if_neg room, Kernel.withGarbage, memory, hdata',
              copied, Bool.not_true, Bool.false_eq_true, if_false]
    next =>
      split at h
      next => cases h
      next =>
        split at h
        next => cases h
        next =>
          split at h
          next => cases h
          next => cases h

theorem snapshot_monitor (reached : Reachable s) (read : Snapshot K s filp count data) :
    ∃ i : Fin maxProcesses, ∀ g, ∃ data', Snapshot (K.withGarbage g) s filp count data' ∧
      (data'.tasks i).clients = (g.tasks i).clients ∧ (data'.tasks i).servers = (g.tasks i).servers := by
  obtain ⟨t, task, ht, monitor, hdata, reads⟩ := snapshot_ok read
  have limits := reached.limits
  have bare := limits.bare t ⟨task, ht, monitor⟩
  obtain ⟨i, hi⟩ := List.mem_iff_getElem?.mp (Table.get?_eq_some.mp ht)
  have room : i < maxProcesses := by
    have within := (List.getElem?_eq_some_iff.mp hi).1
    have tasks := limits.tasks
    rw [Table.keys, List.length_map] at tasks
    omega
  refine ⟨⟨i, room⟩, fun g => ?_⟩
  obtain ⟨⟨n, tasks⟩, hloop, _⟩ := bind_eq_ok.mp hdata
  obtain ⟨tasks', hloop'⟩ := tasksDataLoop_any hloop g.tasks
  have slot := tasksDataLoop_slot hloop' hi ⟨i, room⟩ (Nat.zero_add i).symm
  have servers : s.serversOf t = [] := List.length_eq_zero_iff.mp (bare .server)
  have clients : s.clientsOf t = [] := List.length_eq_zero_iff.mp (bare .client)
  refine ⟨⟨tasks', n⟩, reads g _ ?_, taskGetData_bare servers clients slot⟩
  simp only [regTaskGetData, hloop', ok_bind]

def memoryOf (n : Int) : StRegTasks :=
  ⟨fun _ => ⟨n, fun _ => ⟨n, n⟩, fun _ => ⟨n, fun _ => n.toNat.toUInt8, fun _ => n, n⟩, n, n⟩, n⟩

/-- Every snapshot that is copied to the monitor tells it something of what the memory held before. -/
theorem snapshot_discloses (reached : Reachable s) (read : Snapshot K s filp count data) :
    ¬SnapshotFixed K s filp count := by
  intro fixed
  obtain ⟨i, shows⟩ := snapshot_monitor reached read
  obtain ⟨data₀, read₀, clients₀, _⟩ := shows (memoryOf 0)
  obtain ⟨data₁, read₁, clients₁, _⟩ := shows (memoryOf 1)
  have same := fixed _ _ _ _ read₀ read₁
  rw [same, clients₁] at clients₀
  have first : (1 : Int) = 0 := congrArg StClient.id (congrFun clients₀ ⟨0, by decide⟩)
  omega

/-- Process 1 opens the device and registers as the monitor; process 2 opens it and registers a client. -/
def monitorRun : List Call :=
  [callOf 1 .open, callOf 1 (.ioctl 1 .registerMonitor), callOf 2 .open, callOf 2 (.ioctl 2 .registerClient)]

/-- What a reply shows of the first client in the second slot, which is the monitor's. -/
def shownClient (r : Reply) : Option Int :=
  match r.out with
  | .snapshot d => some ((d.tasks ⟨1, by decide⟩).clients ⟨0, by decide⟩).id
  | _ => none

theorem shownClient_eq_some {r : Reply} {id : Int} (h : shownClient r = some id) :
    ∃ d, r.out = .snapshot d ∧ ((d.tasks ⟨1, by decide⟩).clients ⟨0, by decide⟩).id = id := by
  unfold shownClient at h
  split at h
  next d hd => exact ⟨d, hd, Option.some.inj h⟩
  next => cases h

theorem monitorRun_snapshots : ∃ s, Reachable s ∧ ∀ n ∈ [0, 1], ∃ data,
    Snapshot ((Kernel.plenty ⟨1, 1⟩).withGarbage (memoryOf n)) s 1 sizeofStRegTasks data ∧
      ((data.tasks ⟨1, by decide⟩).clients ⟨0, by decide⟩).id = n := by
  have facts : ((runCalls Drv.init monitorRun).map fun s => decide (∀ n ∈ [(0 : Int), 1],
      ((ipcRead ((Kernel.plenty ⟨1, 1⟩).withGarbage (memoryOf n)) s 1 sizeofStRegTasks).toOption.bind fun r =>
        (shownClient r.1).map fun id => (r.1.ret, id)) = some ((sizeofStRegTasks : Int), n))) = some true := by decide
  obtain ⟨s, hs, facts⟩ := Option.map_eq_some_iff.mp facts
  refine ⟨s, ⟨_, runCalls_trace hs⟩, fun n hn => ?_⟩
  obtain ⟨⟨⟨ret, out⟩, s'⟩, hr, shown⟩ := Option.bind_eq_some_iff.mp (of_decide_eq_true facts n hn)
  obtain ⟨id, hid, same⟩ := Option.map_eq_some_iff.mp shown
  obtain ⟨rfl, rfl⟩ := Prod.mk.inj same
  obtain ⟨data, rfl, hdata⟩ := shownClient_eq_some hid
  exact ⟨data, ⟨s', toOption_eq_some.mp hr⟩, hdata⟩

theorem snapshot_discloses_monitorRun : ∃ s data, Snapshot ((Kernel.plenty ⟨1, 1⟩).withGarbage (memoryOf 0)) s 1
    sizeofStRegTasks data ∧ ¬SnapshotFixed ((Kernel.plenty ⟨1, 1⟩).withGarbage (memoryOf 0)) s 1 sizeofStRegTasks := by
  obtain ⟨s, reached, reads⟩ := monitorRun_snapshots
  obtain ⟨data, read, _⟩ := reads 0 (by decide)
  exact ⟨s, data, read, snapshot_discloses reached read⟩

/-- Two reads of the same registry, in memory full of zeros and in memory full of ones. -/
theorem snapshot_differs : ¬∀ s, Reachable s → ∀ K filp count, SnapshotFixed K s filp count := by
  intro fixed
  obtain ⟨s, reached, reads⟩ := monitorRun_snapshots
  obtain ⟨data₀, read₀, zero⟩ := reads 0 (by decide)
  obtain ⟨data₁, read₁, one⟩ := reads 1 (by decide)
  have same := fixed s reached _ _ _ _ _ _ _ read₀ read₁
  rw [same, one] at zero
  omega

end

end Ripc
