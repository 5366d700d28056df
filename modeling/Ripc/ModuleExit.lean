import Ripc.DriverRuns
import Ripc.ReleaseCleanup

namespace Ripc

inductive DriverLock
  | regTasks
  | servers
  | server (v : Ptr)
  | clients
  | shm
  deriving DecidableEq

inductive ExitFault
  | memory (f : Fault)
  /-- A mutex is asked for by the thread that holds it. -/
  | deadlock
  /-- `list_del` of an entry that has been taken off its list. -/
  | unlinkedTwice
  deriving DecidableEq

/-- The driver on its way out. A task that has been taken off `g_reg_task_list` is still in memory, so the list has a
field of its own. -/
structure Unload where
  drv : Drv
  gRegTaskList : List Ptr
  held : List DriverLock

namespace Unload

def access {α : Type} : Except Fault α → Except ExitFault α
  | .ok a => .ok a
  | .error f => .error (.memory f)

def mutexLock (x : Unload) (l : DriverLock) : Except ExitFault Unload :=
  if l ∈ x.held then .error .deadlock else .ok { x with held := l :: x.held }

def mutexUnlock (x : Unload) (l : DriverLock) : Unload := { x with held := x.held.erase l }

def listDel (x : Unload) (regTask : Ptr) : Except ExitFault Unload :=
  if regTask ∈ x.gRegTaskList then .ok { x with gRegTaskList := x.gRegTaskList.erase regTask }
  else .error .unlinkedTwice

/-- `reg_task_delete` returns early for a dead process, and else ends with taking the task off the list. -/
def deleteTask (K : Kernel) (x : Unload) (regTask : Ptr) : Except ExitFault Unload := do
  let t ← access (deref x.drv.gRegTaskList (some regTask))
  if !K.pidAlive t.taskP then .ok x else
  let s ← access (regTaskDelete K x.drv regTask)
  let x ← { x with drv := s }.mutexLock .regTasks
  let x ← x.listDel regTask
  .ok (x.mutexUnlock .regTasks)

/-- The loop over the tasks, which is entered with the lock held. -/
def deleteTasks (K : Kernel) : List Ptr → Unload → Except ExitFault Unload
  | [], x => .ok x
  | regTask :: rest, x => do
    let x ← x.listDel regTask
    let x ← (x.mutexUnlock .regTasks).deleteTask K regTask
    let x ← x.mutexLock .regTasks
    deleteTasks K rest x

def destroyServer (x : Unload) (srv : Ptr) : Except ExitFault Unload := do
  let x ← x.mutexLock .servers
  let x ← x.mutexLock (.server srv)
  let s ← access (serverDestroy x.drv srv)
  .ok (({ x with drv := s }.mutexUnlock (.server srv)).mutexUnlock .servers)

def deleteServerList (x : Unload) : Except ExitFault Unload := do
  let x ← x.mutexLock .servers
  let x ← x.drv.gServersList.keys.foldlM destroyServer x
  .ok (x.mutexUnlock .servers)

def destroyClient (x : Unload) (cli : Ptr) : Except ExitFault Unload := do
  let x ← x.mutexLock .clients
  let s ← access (clientDestroy x.drv cli)
  .ok ({ x with drv := s }.mutexUnlock .clients)

def deleteClientList (x : Unload) : Except ExitFault Unload := x.drv.gClientsList.keys.foldlM destroyClient x

/-- The ids of a pool and of its parts are given back before the pool leaves the list. -/
def destroyShm (x : Unload) (p : Ptr) : Except ExitFault Unload := do
  let shm ← access (deref x.drv.gShmList (some p))
  let s := (List.finRange shmPoolSize).foldl (fun s i => freeId s (shm.subMems i).id) (freeId x.drv shm.id)
  let x ← { x with drv := s }.mutexLock .shm
  .ok ({ x with drv := { x.drv with gShmList := x.drv.gShmList.erase p } }.mutexUnlock .shm)

def deleteShmList (x : Unload) : Except ExitFault Unload := x.drv.gShmList.keys.foldlM destroyShm x

def deleteIdGenerator (x : Unload) : Unload := { x with drv := { x.drv with gIdGen := [] } }

end Unload

/-- `ipc_exit` up to the character device. -/
def ipcExit (K : Kernel) (s : Drv) : Except ExitFault Unload := do
  let x ← (⟨s, s.gRegTaskList.keys, []⟩ : Unload).mutexLock .regTasks
  let x ← x.deleteTasks K x.gRegTaskList
  let x ← (x.mutexUnlock .regTasks).deleteServerList
  let x ← x.deleteClientList
  let x ← x.deleteShmList
  .ok x.deleteIdGenerator

namespace Unload

/-- Every list is empty and every id is free. -/
structure Empty (x : Unload) : Prop where
  tasks : x.gRegTaskList = []
  servers : x.drv.gServersList.keys = []
  clients : x.drv.gClientsList.keys = []
  pools : x.drv.gShmList.keys = []
  ids : x.drv.gIdGen = []

variable {K : Kernel} {x x' : Unload} {s : Drv} {l : DriverLock} {t v k p : Ptr}

theorem access_eq_ok {α : Type} {m : Except Fault α} {a : α} : access m = .ok a ↔ m = .ok a := by
  cases m <;> simp [access]

theorem mutexLock_eq_ok : x.mutexLock l = .ok x' ↔ l ∉ x.held ∧ x' = { x with held := l :: x.held } := by
  unfold mutexLock
  split
  next h => simp [h]
  next h => simp [h, eq_comm]

theorem listDel_eq_ok : x.listDel t = .ok x' ↔
    t ∈ x.gRegTaskList ∧ x' = { x with gRegTaskList := x.gRegTaskList.erase t } := by
  unfold listDel
  split
  next h => simp [h, eq_comm]
  next h => simp [h]

/-- The process of the task is gone. -/
def DeadTask (K : Kernel) (s : Drv) (t : Ptr) : Prop :=
  ∃ task, s.gRegTaskList.get? t = some task ∧ K.pidAlive task.taskP = false

theorem deleteTask_ok (off : t ∉ x.gRegTaskList) (h : x.deleteTask K t = .ok x') : DeadTask K x.drv t ∧ x' = x := by
  obtain ⟨task, ht, h⟩ := bind_eq_ok.mp h
  have ht := deref_some (access_eq_ok.mp ht)
  split at h
  next dead =>
    cases h
    exact ⟨⟨task, ht, by simpa using dead⟩, rfl⟩
  next =>
    obtain ⟨s, _, h⟩ := bind_eq_ok.mp h
    obtain ⟨y, hy, h⟩ := bind_eq_ok.mp h
    obtain ⟨z, hz, h⟩ := bind_eq_ok.mp h
    obtain ⟨_, rfl⟩ := mutexLock_eq_ok.mp hy
    exact absurd (listDel_eq_ok.mp hz).1 off

theorem deleteTasks_ok {ts : List Ptr} (nodup : x.gRegTaskList.Nodup) (h : x.deleteTasks K ts = .ok x') :
    (∀ t ∈ ts, DeadTask K x.drv t) ∧ x'.drv = x.drv := by
  induction ts generalizing x with
  | nil =>
    cases h
    exact ⟨fun _ ht => absurd ht List.not_mem_nil, rfl⟩
  | cons t rest ih =>
    obtain ⟨y, hy, h⟩ := bind_eq_ok.mp h
    obtain ⟨z, hz, h⟩ := bind_eq_ok.mp h
    obtain ⟨w, hw, h⟩ := bind_eq_ok.mp h
    obtain ⟨_, rfl⟩ := listDel_eq_ok.mp hy
    have off : t ∉ x.gRegTaskList.erase t := fun ht => (nodup.mem_erase_iff.mp ht).1 rfl
    obtain ⟨dead, rfl⟩ := deleteTask_ok off hz
    obtain ⟨_, rfl⟩ := mutexLock_eq_ok.mp hw
    obtain ⟨others, same⟩ := ih (nodup.erase t) h
    exact ⟨List.forall_mem_cons.mpr ⟨dead, others⟩, same⟩

theorem deleteTasks_dead {ts : List Ptr} (linked : x.gRegTaskList = ts) (held : x.held = [.regTasks])
    (dead : ∀ t ∈ ts, DeadTask K x.drv t) : x.deleteTasks K ts = .ok { x with gRegTaskList := [] } := by
  induction ts generalizing x with
  | nil => rw [deleteTasks, ← linked]
  | cons t rest ih =>
    obtain ⟨⟨task, ht, gone⟩, others⟩ := List.forall_mem_cons.mp dead
    have unlinked : x.listDel t = .ok { x with gRegTaskList := rest } :=
      listDel_eq_ok.mpr ⟨by simp [linked], by simp [linked]⟩
    have skipped : ({ x with gRegTaskList := rest }.mutexUnlock .regTasks).deleteTask K t =
        .ok { x with gRegTaskList := rest, held := [] } := by
      simp [deleteTask, mutexUnlock, held, deref_of_get? ht, access, gone]
    have locked : ({ x with gRegTaskList := rest, held := [] } : Unload).mutexLock .regTasks =
        .ok { x with gRegTaskList := rest } :=
      mutexLock_eq_ok.mpr ⟨List.not_mem_nil, by rw [held]⟩
    rw [deleteTasks, unlinked, ok_bind, skipped, ok_bind, locked, ok_bind]
    exact ih rfl held others

theorem deleteServerList_ok (h : x.deleteServerList = .ok x') : x.drv.gServersList.keys = [] := by
  obtain ⟨y, hy, h⟩ := bind_eq_ok.mp h
  obtain ⟨z, hz, h⟩ := bind_eq_ok.mp h
  obtain ⟨_, rfl⟩ := mutexLock_eq_ok.mp hy
  cases keys : x.drv.gServersList.keys with
  | nil => rfl
  | cons v rest =>
    rw [keys, List.foldlM_cons] at hz
    obtain ⟨w, hw, _⟩ := bind_eq_ok.mp hz
    obtain ⟨u, hu, _⟩ := bind_eq_ok.mp hw
    exact absurd List.mem_cons_self (mutexLock_eq_ok.mp hu).1

theorem deleteServerList_none (none : x.drv.gServersList.keys = []) (held : x.held = []) :
    x.deleteServerList = .ok x := by
  have locked : x.mutexLock .servers = .ok { x with held := [.servers] } :=
    mutexLock_eq_ok.mpr ⟨by rw [held]; exact List.not_mem_nil, by rw [held]⟩
  have unlocked : ({ x with held := [.servers] } : Unload).mutexUnlock .servers = x := by
    show (⟨x.drv, x.gRegTaskList, []⟩ : Unload) = x
    rw [← held]
  rw [deleteServerList, locked, ok_bind]
  show ((x.drv.gServersList.keys.foldlM destroyServer { x with held := [.servers] }) >>= fun y =>
    .ok (y.mutexUnlock .servers)) = .ok x
  rw [none, List.foldlM_nil]
  exact congrArg Except.ok unlocked

theorem keys_erase_first {α : Type} {tab : Table α} {rest : List Ptr} (keys : tab.keys = k :: rest) :
    (tab.erase k).keys = rest := by
  have nodup : (k :: rest).Nodup := keys ▸ tab.nodup
  rw [Table.keys_erase, keys, List.filter_cons_of_neg (by simp)]
  exact List.filter_eq_self.mpr fun j hj => by
    have other : j ≠ k := fun same => (List.nodup_cons.mp nodup).1 (same ▸ hj)
    simpa using other

theorem deleteClients {ks : List Ptr} (keys : x.drv.gClientsList.keys = ks) (held : x.held = []) :
    ∃ d, ks.foldlM destroyClient x = .ok { x with drv := d } ∧ d.gClientsList.keys = [] ∧
      d.gServersList = x.drv.gServersList ∧ d.gShmList = x.drv.gShmList := by
  induction ks generalizing x with
  | nil => exact ⟨x.drv, rfl, keys, rfl, rfl⟩
  | cons k rest ih =>
    obtain ⟨cli, hk⟩ := Table.mem_keys.mp (keys ▸ List.mem_cons_self : k ∈ x.drv.gClientsList.keys)
    have one : x.destroyClient k =
        .ok { x with drv := freeId { x.drv with gClientsList := x.drv.gClientsList.erase k } cli.id } := by
      simp [destroyClient, mutexLock, mutexUnlock, held, clientDestroy, deref_of_get? hk, access]
    obtain ⟨d, hd, clients, servers, pools⟩ := ih
      (x := { x with drv := freeId { x.drv with gClientsList := x.drv.gClientsList.erase k } cli.id })
      (keys_erase_first keys) held
    exact ⟨d, by rw [List.foldlM_cons, one, ok_bind, hd], clients, servers, pools⟩

theorem freeIds_frame {ι : Type} (id : ι → Int) (is : List ι) (s : Drv) :
    (is.foldl (fun s i => freeId s (id i)) s).gShmList = s.gShmList ∧
      (is.foldl (fun s i => freeId s (id i)) s).gServersList = s.gServersList ∧
      (is.foldl (fun s i => freeId s (id i)) s).gClientsList = s.gClientsList := by
  induction is generalizing s with
  | nil => exact ⟨rfl, rfl, rfl⟩
  | cons i is ih => exact ih (freeId s (id i))

theorem destroyShm_live {shm : Shm} (held : x.held = []) (hp : x.drv.gShmList.get? p = some shm) :
    ∃ d, x.destroyShm p = .ok { x with drv := d } ∧ d.gShmList = x.drv.gShmList.erase p ∧
      d.gServersList = x.drv.gServersList ∧ d.gClientsList = x.drv.gClientsList := by
  obtain ⟨pools, servers, clients⟩ := freeIds_frame (fun i => (shm.subMems i).id) (List.finRange shmPoolSize)
    (freeId x.drv shm.id)
  refine ⟨{ (List.finRange shmPoolSize).foldl (fun s i => freeId s (shm.subMems i).id) (freeId x.drv shm.id) with
    gShmList := x.drv.gShmList.erase p }, ?_, rfl, servers, clients⟩
  have here : deref x.drv.gShmList (some p) = .ok shm := deref_of_get? hp
  simp only [destroyShm, mutexLock, mutexUnlock, held, List.not_mem_nil, if_false, here, access, ok_bind, pools,
    List.erase_cons_head]
  rfl

theorem deletePools {ps : List Ptr} (keys : x.drv.gShmList.keys = ps) (held : x.held = []) :
    ∃ d, ps.foldlM destroyShm x = .ok { x with drv := d } ∧ d.gShmList.keys = [] ∧
      d.gServersList = x.drv.gServersList ∧ d.gClientsList = x.drv.gClientsList := by
  induction ps generalizing x with
  | nil => exact ⟨x.drv, rfl, keys, rfl, rfl⟩
  | cons p rest ih =>
    obtain ⟨shm, hp⟩ := Table.mem_keys.mp (keys ▸ List.mem_cons_self : p ∈ x.drv.gShmList.keys)
    obtain ⟨d₁, one, pools₁, servers₁, clients₁⟩ := destroyShm_live held hp
    obtain ⟨d, hd, pools, servers, clients⟩ := ih (x := { x with drv := d₁ })
      (by show d₁.gShmList.keys = rest; rw [pools₁]; exact keys_erase_first keys) held
    refine ⟨d, by rw [List.foldlM_cons, one, ok_bind, hd], pools, servers.trans servers₁, clients.trans clients₁⟩

end Unload

/-- The exit takes no mutex twice, unlinks and frees everything once, and leaves nothing. -/
def ExitsCleanly (K : Kernel) (s : Drv) : Prop := ∃ x, ipcExit K s = .ok x ∧ x.Empty

/-- The module goes cleanly exactly if no server is left, and no task whose process is still there. -/
theorem ipcExit_clean (K : Kernel) (s : Drv) : ExitsCleanly K s ↔
    s.gServersList.keys = [] ∧ ∀ t task, s.gRegTaskList.get? t = some task → K.pidAlive task.taskP = false := by
  have locked : (⟨s, s.gRegTaskList.keys, []⟩ : Unload).mutexLock .regTasks =
      .ok ⟨s, s.gRegTaskList.keys, [.regTasks]⟩ := Unload.mutexLock_eq_ok.mpr ⟨List.not_mem_nil, rfl⟩
  constructor
  · rintro ⟨x, hx, _⟩
    rw [ipcExit, locked, ok_bind] at hx
    obtain ⟨y, tasks, hx⟩ := bind_eq_ok.mp hx
    obtain ⟨z, servers, _⟩ := bind_eq_ok.mp hx
    obtain ⟨dead, same⟩ := Unload.deleteTasks_ok s.gRegTaskList.nodup tasks
    have none := Unload.deleteServerList_ok servers
    have drv : y.drv = s := same
    refine ⟨drv ▸ none, fun t task ht => ?_⟩
    obtain ⟨task', ht', gone⟩ := dead t (Table.mem_keys.mpr ⟨task, ht⟩)
    cases ht.symm.trans ht'
    exact gone
  · rintro ⟨none, gone⟩
    have dead : ∀ t ∈ s.gRegTaskList.keys, Unload.DeadTask K s t := by
      intro t ht
      obtain ⟨task, htask⟩ := Table.mem_keys.mp ht
      exact ⟨task, htask, gone t task htask⟩
    have tasks := Unload.deleteTasks_dead (x := ⟨s, s.gRegTaskList.keys, [.regTasks]⟩) rfl rfl dead
    have servers := Unload.deleteServerList_none (x := ⟨s, [], []⟩) none rfl
    obtain ⟨d₁, clients, noClients, servers₁, pools₁⟩ := Unload.deleteClients (x := ⟨s, [], []⟩) rfl rfl
    obtain ⟨d₂, pools, noPools, servers₂, clients₂⟩ := Unload.deletePools (x := ⟨d₁, [], []⟩) rfl rfl
    refine ⟨⟨{ d₂ with gIdGen := [] }, [], []⟩, ?_, rfl, ?_, ?_, noPools, rfl⟩
    · rw [ipcExit, locked, ok_bind, tasks, ok_bind]
      show (Unload.deleteServerList ⟨s, [], []⟩ >>= _) = _
      rw [servers, ok_bind]
      show (s.gClientsList.keys.foldlM Unload.destroyClient ⟨s, [], []⟩ >>= _) = _
      rw [clients, ok_bind]
      show (d₁.gShmList.keys.foldlM Unload.destroyShm ⟨d₁, [], []⟩ >>= _) = _
      rw [pools, ok_bind]
      rfl
    · show d₂.gServersList.keys = []
      rw [servers₂, servers₁]
      exact none
    · show d₂.gClientsList.keys = []
      rw [clients₂]
      exact noClients

/-- What stops the exit. -/
def exitFault : Except ExitFault Unload → Option ExitFault
  | .ok _ => none
  | .error f => some f

theorem exitFault_eq_some {r : Except ExitFault Unload} {f : ExitFault} (h : exitFault r = some f) : r = .error f := by
  cases r with
  | ok => cases h
  | error => exact congrArg Except.error (Option.some.inj h)

/-- The id of a new server cannot be copied out, so the server gets no entry; then its process closes the device. -/
def leftoverRun : List Call :=
  [callOf 1 .open,
    ⟨{ Kernel.plenty ⟨1, 1⟩ with copyToUser := false },
      .ioctl 1 (.registerServer ⟨shortName 65, Vector.replicate 4 0⟩)⟩,
    callOf 1 (.release 1)]

theorem ipcExit_deadlock : ∃ s, Reachable s ∧ s.files.keys = [] ∧ s.gRegTaskList.keys = [] ∧
    ipcExit (.plenty ⟨0, 0⟩) s = .error .deadlock ∧ ¬ExitsCleanly (.plenty ⟨0, 0⟩) s := by
  have facts : (runCalls Drv.init leftoverRun).map (fun s =>
      (s.files.keys, s.gRegTaskList.keys, exitFault (ipcExit (.plenty ⟨0, 0⟩) s))) =
        some ([], [], some .deadlock) := by decide
  obtain ⟨s, hs, facts⟩ := Option.map_eq_some_iff.mp facts
  simp only [Prod.mk.injEq] at facts
  obtain ⟨files, tasks, fault⟩ := facts
  have stuck := exitFault_eq_some fault
  refine ⟨s, ⟨_, runCalls_trace hs⟩, files, tasks, stuck, ?_⟩
  rintro ⟨x, hx, _⟩
  rw [stuck] at hx
  cases hx

end Ripc
