import Ripc.DriverCounts
import Ripc.Limits

namespace Ripc

variable {s s' : Drv} {ev : Event} {m : Member} {t : Ptr}

/-- Tasks and entries may be gone, and none is new. -/
structure Fewer (s s' : Drv) : Prop where
  flags : ∀ t n, (s'.gRegTaskList.get? t).map RegTask.isMonitor = some n →
    (s.gRegTaskList.get? t).map RegTask.isMonitor = some n
  tasks : s'.gRegTaskList.keys.length ≤ s.gRegTaskList.keys.length
  members : ∀ m t, s'.members m t ≤ s.members m t

theorem Fewer.monitors (h : Fewer s s') (ht : s'.Monitors t) : s.Monitors t := by
  obtain ⟨n, hn, flag⟩ := monitors_iff.mp ht
  exact monitors_iff.mpr ⟨n, h.flags t n hn, flag⟩

theorem Fewer.live (h : Fewer s s') (ht : t ∈ s'.gRegTaskList.keys) : t ∈ s.gRegTaskList.keys := by
  obtain ⟨task, htask⟩ := Table.mem_keys.mp ht
  obtain ⟨before, hb, _⟩ := Option.map_eq_some_iff.mp (h.flags t task.isMonitor (by rw [htask]; rfl))
  exact Table.mem_keys.mpr ⟨before, hb⟩

theorem Fewer.limits (h : Fewer s s') (l : Limits s) : Limits s' := by
  refine ⟨fun t t' ht ht' => ?_, fun t ht m => ?_, h.tasks.trans l.tasks, fun t ht m => ?_⟩
  · exact l.oneMonitor t t' (h.monitors ht) (h.monitors ht')
  · have none := l.bare t (h.monitors ht) m
    have less := h.members m t
    omega
  · exact (h.members m t).trans (l.members t (h.live ht) m)

theorem Wf.noMembers (wf : Wf s) (gone : t ∉ s.gRegTaskList.keys) : s.members m t = 0 := by
  cases m with
  | server =>
    refine List.length_eq_zero_iff.mpr (List.filter_eq_nil_iff.mpr fun e he => ?_)
    have live := wf.servers.live e.1 e.2 (Table.get?_eq_some.mpr he)
    have other : e.2.regTask ≠ t := fun ht => gone (ht ▸ live)
    simpa using other
  | client =>
    refine List.length_eq_zero_iff.mpr (List.filter_eq_nil_iff.mpr fun e he => ?_)
    have live := wf.clients.live e.1 e.2 (Table.get?_eq_some.mpr he)
    have other : e.2.regTask ≠ t := fun ht => gone (ht ▸ live)
    simpa using other

theorem Fewer.tame (h : Fewer s s') (wf : Wf s') (tame : Tame s) : Tame s' := by
  refine ⟨fun m t gone => wf.noMembers gone, wf.files.live, fun t task ht => ?_⟩
  obtain ⟨before, hb, same⟩ := Option.map_eq_some_iff.mp (h.flags t task.isMonitor (by rw [ht]; rfl))
  rw [← same]
  exact tame.flags t before hb

/-- The counter of the tasks, and what it bounds. -/
structure Bounded (s : Drv) : Prop where
  limits : Limits s
  tame : Tame s
  count : s.gRegTaskCount = s.gRegTaskList.keys.length

theorem Bounded.alike (h : Bounded s) (alike : Alike s s') (count : s'.gRegTaskCount = s.gRegTaskCount) : Bounded s' :=
  ⟨alike.limits h.limits, h.tame.alike alike, by rw [count, alike.keys, h.count]⟩

theorem Bounded.fewer (h : Bounded s) (fewer : Fewer s s') (wf : Wf s')
    (count : s'.gRegTaskCount = s'.gRegTaskList.keys.length) : Bounded s' :=
  ⟨fewer.limits h.limits, fewer.tame wf h.tame, count⟩

theorem Alike.modify {f : RegTask → RegTask} (same : ∀ t, (f t).isMonitor = t.isMonitor)
    (tasks : s'.gRegTaskList = s.gRegTaskList.modify t f) (servers : s'.serversEntries = s.serversEntries)
    (clients : s'.clientsEntries = s.clientsEntries) (files : s'.files = s.files) : Alike s s' := by
  refine ⟨?_, fun u => ?_, servers, clients, files⟩
  · rw [tasks, Table.keys_modify]
  · rw [tasks]
    exact map_modify (g := RegTask.isMonitor) same u

theorem Alike.post (ds : List (Ptr × NotificationData)) :
    Alike s { s with gRegTaskList := postAll s.gRegTaskList ds } := by
  refine ⟨keys_postAll _ _, fun u => ?_, rfl, rfl, rfl⟩
  show ((postAll s.gRegTaskList ds).get? u).map RegTask.isMonitor = _
  induction ds generalizing s with
  | nil => rfl
  | cons d ds ih =>
    have rest := ih (s := { s with gRegTaskList := s.gRegTaskList.modify d.1 (RegTask.enqueue d.2) })
    exact rest.trans (map_modify (g := RegTask.isMonitor) (by intro _; rfl) u)

theorem Bounded.openTask {f : Ptr} {task : TaskStruct} (h : Bounded s) (he : s.tested (.openTask f t task) s') :
    Bounded s' := by
  obtain ⟨⟨⟨file, fresh⟩, rfl⟩, room⟩ := he
  change Bounded (s.addRegTask t f task)
  have room : s.gRegTaskList.keys.length < maxProcesses := by
    have count := h.count
    simp only [Event.Tested, regTaskCanAddTask, decide_eq_true_eq] at room
    omega
  refine ⟨(addRegTask_limits h.tame fresh).mpr ⟨h.limits, room⟩, h.tame.addRegTask fresh file, ?_⟩
  have keys := keys_addRegTask f task fresh
  show s.gRegTaskCount + 1 = _
  rw [keys, List.length_cons, h.count]
  omega

theorem Bounded.closeTask {f : Ptr} (h : Bounded s) (wf : Wf s') (he : s.event (.closeTask f t) s') : Bounded s' := by
  obtain ⟨⟨file, _⟩, rfl⟩ := he
  obtain ⟨task, ht⟩ := Table.mem_keys.mp (h.tame.files f t file)
  have keys : (s.gRegTaskList.erase t).keys.length + 1 = s.gRegTaskList.keys.length := by
    have count := Table.length_filter_erase (p := fun _ => true) ht
    simpa [Table.keys] using count
  have count := h.count
  refine h.fewer ⟨fun u n hn => ?_, ?_, fun m u => Nat.le_refl _⟩ wf ?_
  · change ((s.gRegTaskList.erase t).get? u).map _ = some n at hn
    rw [Table.get?_erase] at hn
    split at hn
    next => cases hn
    next => exact hn
  · show (s.gRegTaskList.erase t).keys.length ≤ _
    omega
  · show s.gRegTaskCount - 1 = ((s.gRegTaskList.erase t).keys.length : Int)
    omega

theorem Bounded.setMonitor (h : Bounded s) (tallied : Tallied s) (he : s.tested (.setMonitor t) s') : Bounded s' := by
  obtain ⟨⟨_, rfl⟩, ⟨task, ht, clients, servers⟩, alone⟩ := he
  have live : t ∈ s.gRegTaskList.keys := Table.mem_keys.mpr ⟨task, ht⟩
  have nobody : ∀ u, ¬s.Monitors u := by
    rintro u ⟨other, hu, flag⟩
    have none := Table.find?_eq_none.mp alone u other hu
    exact flag (by simpa using none)
  have bare : ∀ m, s.members m t = 0 := by
    intro m
    cases m with
    | server =>
      have count := tallied.servers t task.numOfServers (by rw [ht]; rfl)
      show (s.serversEntries.entries.filter fun e => e.2.regTask = t).length = 0
      omega
    | client =>
      have count := tallied.clients t task.numOfClients (by rw [ht]; rfl)
      show (s.clientsEntries.entries.filter fun e => e.2.regTask = t).length = 0
      omega
  change Bounded (s.setMonitor t)
  refine ⟨(setMonitor_limits h.tame live).mpr ⟨h.limits, fun u hu => absurd hu (nobody u), bare⟩, h.tame.setMonitor, ?_⟩
  show s.gRegTaskCount = ((s.gRegTaskList.modify t _).keys.length : Int)
  rw [Table.keys_modify]
  exact h.count

theorem Bounded.linkMember {e : Ptr} {task : RegTask} (obj : Ptr) (h : Bounded s)
    (ht : s.gRegTaskList.get? t = some task) (plain : task.isMonitor = 0)
    (room : s.members m t < m.limit) (fresh : e ∉ s.live m.site) :
    Bounded (s.linkMember m t obj e) := by
  have live : t ∈ s.gRegTaskList.keys := Table.mem_keys.mpr ⟨task, ht⟩
  have nobody : ¬s.Monitors t := by
    rintro ⟨monitor, hm, flag⟩
    cases ht.symm.trans hm
    exact flag plain
  refine ⟨(linkMember_limits live fresh).mpr ⟨h.limits, nobody, room⟩, h.tame.linkMember live fresh, ?_⟩
  have count : (s.linkMember m t obj e).gRegTaskCount = s.gRegTaskCount := by cases m <;> rfl
  rw [count, tasks_linkMember]
  exact h.count

theorem Bounded.addServer {v : Ptr} {name : CString maxServerName} {i : Int} {owner : Option (Ptr × Ptr)}
    (h : Bounded s) (tallied : Tallied s) (he : s.tested (.addServer v name i owner) s') : Bounded s' := by
  obtain ⟨⟨⟨_, _, fresh⟩, rfl⟩, can⟩ := he
  cases owner with
  | none => exact h.alike ⟨rfl, fun _ => rfl, rfl, rfl, rfl⟩ rfl
  | some o =>
    obtain ⟨e, t⟩ := o
    obtain ⟨task, ht, can⟩ := can (e, t) rfl
    simp only [RegTask.canAddServer, Bool.decide_and, Bool.and_eq_true, decide_eq_true_eq] at can
    have count := tallied.servers t task.numOfServers (by rw [ht]; rfl)
    have room : s.members .server t < Member.server.limit := by
      change (s.serversEntries.entries.filter fun e => e.2.regTask = t).length < maxServersPerPid
      omega
    have linked := h.linkMember v ht can.1 room (fresh (e, t) rfl).1
    exact linked.alike (.modify (f := RegTask.countUp .server) (by intro _; rfl) rfl rfl rfl rfl) rfl

theorem Bounded.addClient {k : Ptr} {i : Int} {owner : Option (Ptr × Ptr)} (h : Bounded s) (tallied : Tallied s)
    (he : s.tested (.addClient k i owner) s') : Bounded s' := by
  obtain ⟨⟨⟨_, _, fresh⟩, rfl⟩, can⟩ := he
  cases owner with
  | none => exact h.alike ⟨rfl, fun _ => rfl, rfl, rfl, rfl⟩ rfl
  | some o =>
    obtain ⟨e, t⟩ := o
    obtain ⟨task, ht, can⟩ := can (e, t) rfl
    simp only [RegTask.canAddClient, Bool.decide_and, Bool.and_eq_true, decide_eq_true_eq] at can
    have count := tallied.clients t task.numOfClients (by rw [ht]; rfl)
    have room : s.members .client t < Member.client.limit := by
      change (s.clientsEntries.entries.filter fun e => e.2.regTask = t).length < maxClientsPerPid
      omega
    have linked := h.linkMember k ht can.1 room (fresh (e, t) rfl).1
    exact linked.alike (.modify (f := RegTask.countUp .client) (by intro _; rfl) rfl rfl rfl rfl) rfl

theorem Fewer.drop {f : RegTask → RegTask} (same : ∀ t, (f t).isMonitor = t.isMonitor)
    (tasks : s'.gRegTaskList = s.gRegTaskList.modify t f) (members : ∀ m u, s'.members m u ≤ s.members m u) :
    Fewer s s' := by
  refine ⟨fun u n hn => ?_, by rw [tasks, Table.keys_modify], members⟩
  rw [tasks, map_modify (g := RegTask.isMonitor) same] at hn
  exact hn

theorem Bounded.dropServer {e : Ptr} {x : ServersList} {i : Int} (h : Bounded s) (wf : Wf s')
    (he : s.event (.dropServer e x i) s') : Bounded s' := by
  obtain ⟨_, rfl⟩ := he
  refine h.fewer (.drop (t := x.regTask) (f := fun t => { t with numOfServers := t.numOfServers - 1 })
    (by intro _; rfl) rfl fun m u => ?_) wf ?_
  · cases m with
    | server => exact (List.filter_sublist.filter _).length_le
    | client => exact Nat.le_refl _
  · show s.gRegTaskCount = ((s.gRegTaskList.modify x.regTask _).keys.length : Int)
    rw [Table.keys_modify]
    exact h.count

theorem Bounded.dropClient {e : Ptr} {x : ClientsList} {i : Int} (h : Bounded s) (wf : Wf s')
    (he : s.event (.dropClient e x i) s') : Bounded s' := by
  obtain ⟨_, rfl⟩ := he
  refine h.fewer (.drop (t := x.regTask) (f := fun t => { t with numOfClients := t.numOfClients - 1 })
    (by intro _; rfl) rfl fun m u => ?_) wf ?_
  · cases m with
    | server => exact Nat.le_refl _
    | client => exact (List.filter_sublist.filter _).length_le
  · show s.gRegTaskCount = ((s.gRegTaskList.modify x.regTask _).keys.length : Int)
    rw [Table.keys_modify]
    exact h.count

theorem Bounded.tested (h : Bounded s) (wf : Wf s) (tallied : Tallied s) (he : s.tested ev s') : Bounded s' := by
  have wf' := wf.event he.1
  cases ev with
  | openTask f u task => exact h.openTask he
  | closeTask f u => exact h.closeTask wf' he.1
  | setMonitor u => exact h.setMonitor tallied he
  | addServer v name i owner => exact h.addServer tallied he
  | addClient k i owner => exact h.addClient tallied he
  | dropServer e x i => exact h.dropServer wf' he.1
  | dropClient e x i => exact h.dropClient wf' he.1
  | closeFile f =>
    obtain ⟨⟨_, rfl⟩, _⟩ := he
    exact h.fewer ⟨fun _ _ hn => hn, Nat.le_refl _, fun _ _ => Nat.le_refl _⟩ wf' h.count
  | dequeue u | post _ u =>
    obtain ⟨⟨_, rfl⟩, _⟩ := he
    exact h.alike (.modify (by intro _; rfl) rfl rfl rfl rfl) rfl
  | link | mmaped =>
    obtain ⟨⟨_, rfl⟩, _⟩ := he
    exact h.alike ⟨rfl, fun _ => rfl, rfl, rfl, rfl⟩ rfl
  | addPool p shm =>
    obtain ⟨⟨_, rfl⟩, _⟩ := he
    rw [Drv.apply, Drv.addPool, takeIds_frame]
    exact h.alike ⟨rfl, fun _ => rfl, rfl, rfl, rfl⟩ rfl
  | teardown p ds =>
    obtain ⟨⟨_, rfl⟩, _⟩ := he
    rw [Drv.apply, enqueueAll_eq]
    have posted := Alike.post (s := s) ds
    exact h.alike ⟨posted.keys, posted.flags, rfl, rfl, rfl⟩ rfl

theorem Bounded.init : Bounded Drv.init :=
  ⟨limits_init, tame_init, rfl⟩

theorem Reachable.bounded (h : Reachable s) : Bounded s := by
  obtain ⟨calls, run⟩ := h
  refine (run.invariant (I := fun s => Wf s ∧ Tallied s ∧ Bounded s) (fun a call b h hs => ?_)
    ⟨.init, ⟨.empty, .empty⟩, .init⟩).2.2
  obtain ⟨r, hr⟩ := hs
  refine (step_tested h.1 hr).keeps (I := fun s => Wf s ∧ Tallied s ∧ Bounded s) (fun a ev b _ h he => ?_) h
  exact ⟨h.1.event he.1, h.2.1.event h.1 he.1, h.2.2.tested h.1 h.2.1 he⟩

/-- Calls that do not overlap keep to the limits. -/
theorem Reachable.limits (h : Reachable s) : Limits s := h.bounded.limits

end Ripc
