import Mathlib.Data.Finset.Card
import Ripc.DriverSends
import Ripc.Limits

namespace Ripc

/-- What a call has found and not acted on yet, or done and not counted yet. -/
inductive Window
  /-- There was room for a task. -/
  | task
  /-- The task was no monitor. -/
  | plain (t : Ptr)
  /-- There was room for a server or a client of the task. -/
  | room (m : Member) (t : Ptr)
  /-- A server or a client is in the list of the task and not in its counter. -/
  | uncounted (m : Member) (t : Ptr)
  /-- The counter of the task's servers or clients was zero. -/
  | bare (m : Member) (t : Ptr)
  /-- No task was a monitor, and this one is about to be. -/
  | noMonitor (t : Ptr)
  deriving DecidableEq

/-- The windows that a call stands in. The tests that a registration makes first open none, since they are made
again. -/
def LimitPc.windows : LimitPc → List Window
  | .findTask _ | .createTask _ => [.task]
  | .retestCount _ t _ => [.plain t]
  | .link m t _ => [.plain t, .room m t]
  | .setTask m t _ _ | .count m t _ => [.uncounted m t]
  | .monitorServers t => [.bare .client t]
  | .scanTasks t => [.bare .client t, .bare .server t]
  | .setMonitor t => [.bare .client t, .bare .server t, .noMonitor t]
  | _ => []

namespace Openers

def Inside (c : Openers) (w : Window) (j : Nat) : Prop := w ∈ (c.pcs j).windows

/-- Where a test lets a call go on while others that it has let go on before are still on their way, there is room for
these as well; and an update takes nothing from a call that has found it there. -/
def Spares (c : Openers) (K : Kernel) : LimitPc → Prop
  | .canAddTask _ => regTaskCanAddTask c.drv = true →
      ∀ others : Finset Nat, others.Nonempty → (∀ j ∈ others, c.Inside .task j) →
        c.drv.gRegTaskCount + others.card < maxProcesses
  | .retestCount m t _ => ∀ task, c.drv.gRegTaskList.get? t = some task → task.numOf m < m.limit →
      ∀ others : Finset Nat, others.Nonempty →
        (∀ j ∈ others, c.Inside (.room m t) j ∨ c.Inside (.uncounted m t) j) → task.numOf m + others.card < m.limit
  | .link m t _ => K.kmalloc m.site c.drv ≠ none → ∀ j, ¬c.Inside (.bare m t) j
  | .monitorClients t => ∀ task, c.drv.gRegTaskList.get? t = some task → task.numOf .client ≤ 0 →
      ∀ j, ¬c.Inside (.uncounted .client t) j
  | .monitorServers t => ∀ task, c.drv.gRegTaskList.get? t = some task → task.numOf .server ≤ 0 →
      ∀ j, ¬c.Inside (.uncounted .server t) j
  | .scanTasks t => (∀ u, ¬c.drv.Monitors u) → ∀ j t', c.Inside (.noMonitor t') j → t' = t
  | .setMonitor t => ∀ j, ¬c.Inside (.plain t) j
  | _ => True

def Fits (c : Openers) : LimitMove → Prop
  | .run i K => c.Spares K (c.pcs i)
  | _ => True

end Openers

/-- Nothing that the calls test or count has changed. -/
structure Still (s s' : Drv) : Prop where
  tasks : s'.gRegTaskList = s.gRegTaskList
  count : s'.gRegTaskCount = s.gRegTaskCount
  servers : s'.serversEntries = s.serversEntries
  clients : s'.clientsEntries = s.clientsEntries
  files : s'.files = s.files

variable {s s' : Drv} {K : Kernel} {pc pc' : LimitPc} {c c' : Openers}

theorem Still.refl : Still s s := ⟨rfl, rfl, rfl, rfl, rfl⟩

theorem Still.alike (h : Still s s') : Alike s s' :=
  ⟨by rw [h.tasks], fun t => by rw [h.tasks], h.servers, h.clients, h.files⟩

theorem serverCreate_still {readable : List UInt8} {v : Option Ptr} (h : serverCreate K s readable = .ok (v, s')) :
    Still s s' := by
  unfold serverCreate at h
  split at h
  next => cases h
  next =>
    cases h
    exact .refl
  next =>
    split at h
    next =>
      cases h
      exact .refl
    next =>
      cases h
      exact ⟨rfl, rfl, rfl, rfl, rfl⟩

theorem clientCreate_still {k : Option Ptr} (h : clientCreate K s = (k, s')) : Still s s' := by
  unfold clientCreate at h
  split at h
  next =>
    cases h
    exact .refl
  next =>
    cases h
    exact ⟨rfl, rfl, rfl, rfl, rfl⟩

theorem serverAddTask_still {v e : Ptr} (h : serverAddTask s v e = .ok s') : Still s s' := by
  obtain ⟨srv, _, h⟩ := bind_eq_ok.mp h
  split at h
  next =>
    cases h
    exact .refl
  next =>
    cases h
    exact ⟨rfl, rfl, rfl, rfl, rfl⟩

theorem clientAddTask_still {k e : Ptr} (h : clientAddTask s k e = .ok s') : Still s s' := by
  obtain ⟨cli, _, h⟩ := bind_eq_ok.mp h
  split at h
  next =>
    cases h
    exact .refl
  next =>
    cases h
    exact ⟨rfl, rfl, rfl, rfl, rfl⟩

def Drv.countUp (s : Drv) (m : Member) (t : Ptr) : Drv :=
  { s with gRegTaskList := s.gRegTaskList.modify t (RegTask.countUp m) }

theorem countUp_alike (m : Member) (t : Ptr) : Alike s (s.countUp m t) := by
  refine ⟨Table.keys_modify _, fun u => ?_, rfl, rfl, rfl⟩
  show ((s.gRegTaskList.modify t _).get? u).map _ = _
  rw [Table.get?_modify]
  split
  next =>
    cases s.gRegTaskList.get? u with
    | none => rfl
    | some task => cases m <;> rfl
  next => rfl

/-- What a step of a call finds and changes. -/
inductive LimitPc.Change (K : Kernel) (s : Drv) (pc : LimitPc) : LimitPc → Drv → Prop
  | still {after : LimitPc} {a : Drv} (still : Still s a) (task : ∀ t, after.task = some t → pc.task = some t)
      (opens : ∀ w ∈ after.windows, w ∈ pc.windows)
      (keeps : ∀ m t, .uncounted m t ∈ pc.windows → .uncounted m t ∈ after.windows) : Change K s pc after a
  | task {task : TaskStruct} (hpc : pc = .canAddTask task) (room : regTaskCanAddTask s = true) :
    Change K s pc (.findTask task) s
  | addTask {task : TaskStruct} {t filp : Ptr} (hpc : pc = .createTask task) (ht : K.kmalloc .regTask s = some t)
      (hf : K.kmalloc .filp s = some filp) : Change K s pc (.returned 0) (s.addRegTask t filp task)
  | plain {m : Member} {t obj : Ptr} (hpc : pc = .retestMonitor m t obj) (plain : ¬s.Monitors t) :
    Change K s pc (.retestCount m t obj) s
  | room {m : Member} {t obj : Ptr} {task : RegTask} (hpc : pc = .retestCount m t obj)
      (ht : s.gRegTaskList.get? t = some task) (room : task.numOf m < m.limit) : Change K s pc (.link m t obj) s
  | link {m : Member} {t obj e : Ptr} (hpc : pc = .link m t obj) (he : K.kmalloc m.site s = some e) :
    Change K s pc (.setTask m t obj e) (s.linkMember m t obj e)
  | count {m : Member} {t obj : Ptr} (hpc : pc = .count m t obj) : Change K s pc (.done m obj) (s.countUp m t)
  | noClients {t : Ptr} {task : RegTask} (hpc : pc = .monitorClients t) (ht : s.gRegTaskList.get? t = some task)
      (none : task.numOf .client ≤ 0) : Change K s pc (.monitorServers t) s
  | noServers {t : Ptr} {task : RegTask} (hpc : pc = .monitorServers t) (ht : s.gRegTaskList.get? t = some task)
      (none : task.numOf .server ≤ 0) : Change K s pc (.scanTasks t) s
  | noMonitor {t : Ptr} (hpc : pc = .scanTasks t) (none : ∀ u, ¬s.Monitors u) : Change K s pc (.setMonitor t) s
  | setMonitor {t : Ptr} (hpc : pc = .setMonitor t) : Change K s pc (.returned 0) (s.setMonitor t)

theorem LimitPc.Change.quiet {a : Drv} (still : Still s a) (task : ∀ t, pc'.task = some t → pc.task = some t)
    (quiet : pc'.windows = []) (kept : ∀ m t, .uncounted m t ∉ pc.windows) : pc.Change K s pc' a :=
  .still still task (by simp [quiet]) fun m t hw => absurd hw (kept m t)

theorem LimitPc.Change.done {ret : Int} (kept : ∀ m t, .uncounted m t ∉ pc.windows) :
    pc.Change K s (.returned ret) s :=
  .quiet .refl (by simp [LimitPc.task]) rfl kept

theorem LimitPc.step_change (h : pc.step K s = .ok (pc', s')) : pc.Change K s pc' s' := by
  cases pc with
  | createTask task =>
    simp only [LimitPc.step] at h
    split at h
    next t filp ht hf =>
      cases h
      exact .addTask rfl ht hf
    next =>
      cases h
      exact .done (by simp [windows])
  | link m t obj =>
    cases m with
    | server | client =>
      simp only [LimitPc.step] at h
      split at h
      next none =>
        cases h
        exact .quiet .refl (by simp [LimitPc.task]) rfl (by simp [windows])
      next e he =>
        cases h
        exact .link rfl he
  | setMonitor t =>
    cases h
    exact .setMonitor rfl
  | idle | returned ret =>
    cases h
    exact .still .refl (fun _ ht => ht) (fun _ hw => hw) (fun _ _ hw => hw)
  | canAddTask task =>
    cases h
    split
    next => exact .done (by simp [windows])
    next =>
      split
      next room => exact .task rfl room
      next => exact .done (by simp [windows])
  | findTask task =>
    cases h
    split
    next => exact .done (by simp [windows])
    next =>
      split
      next => exact .done (by simp [windows])
      next => exact .still .refl (by simp [LimitPc.task]) (by simp [windows]) (by simp [windows])
  | copyId m t obj =>
    cases h
    split
    next => exact .quiet .refl (fun _ ht => ht) rfl (by simp [windows])
    next => exact .done (by simp [windows])
  | scanTasks t =>
    cases h
    split
    next => exact .done (by simp [windows])
    next none =>
      refine .noMonitor rfl ?_
      rintro u ⟨task, hu, hm⟩
      have nobody := Table.find?_eq_none.mp (Option.not_isSome_iff_eq_none.mp none) u task hu
      exact hm (by simpa using nobody)
  | testMonitor r t | testCount r t =>
    obtain ⟨task, _, h⟩ := bind_eq_ok.mp h
    cases h
    split
    next => exact .quiet .refl (fun _ ht => ht) rfl (by simp [windows])
    next => exact .done (by simp [windows])
  | retestMonitor m t obj =>
    obtain ⟨task, ht, h⟩ := bind_eq_ok.mp h
    cases h
    split
    next plain =>
      refine .plain rfl ?_
      rintro ⟨other, hother, hm⟩
      cases (deref_some ht).symm.trans hother
      exact hm plain
    next => exact .quiet .refl (by simp [LimitPc.task]) rfl (by simp [windows])
  | retestCount m t obj =>
    obtain ⟨task, ht, h⟩ := bind_eq_ok.mp h
    cases h
    split
    next room => exact .room rfl (deref_some ht) room
    next => exact .quiet .refl (by simp [LimitPc.task]) rfl (by simp [windows])
  | monitorClients t =>
    obtain ⟨task, ht, h⟩ := bind_eq_ok.mp h
    cases h
    split
    next => exact .done (by simp [windows])
    next none => exact .noClients rfl (deref_some ht) (Int.not_lt.mp none)
  | monitorServers t =>
    obtain ⟨task, ht, h⟩ := bind_eq_ok.mp h
    cases h
    split
    next => exact .done (by simp [windows])
    next none => exact .noServers rfl (deref_some ht) (Int.not_lt.mp none)
  | copyRequest r t =>
    cases r with
    | server reg =>
      cases h
      split
      next => exact .quiet .refl (fun _ ht => ht) rfl (by simp [windows])
      next => exact .done (by simp [windows])
    | client =>
      cases h
      exact .quiet .refl (fun _ ht => ht) rfl (by simp [windows])
  | findServer reg t =>
    obtain ⟨found, _, h⟩ := bind_eq_ok.mp h
    cases found with
    | some v =>
      cases h
      exact .done (by simp [windows])
    | none =>
      cases h
      exact .quiet .refl (fun _ ht => ht) rfl (by simp [windows])
  | create r t =>
    cases r with
    | server reg =>
      obtain ⟨⟨v, s₁⟩, made, h⟩ := bind_eq_ok.mp h
      cases v with
      | none => cases h
      | some v =>
        cases h
        exact .quiet (serverCreate_still made) (fun _ ht => ht) rfl (by simp [windows])
    | client =>
      simp only [LimitPc.step] at h
      cases made : clientCreate K s with
      | mk k s₁ =>
        rw [made] at h
        cases k with
        | none => cases h
        | some k =>
          cases h
          exact .quiet (clientCreate_still made) (fun _ ht => ht) rfl (by simp [windows])
  | setTask m t obj e =>
    cases m with
    | server =>
      obtain ⟨s₁, made, h⟩ := bind_eq_ok.mp h
      cases h
      exact .still (serverAddTask_still made) (fun _ ht => ht) (fun _ hw => hw) (fun _ _ hw => hw)
    | client =>
      obtain ⟨s₁, made, h⟩ := bind_eq_ok.mp h
      cases h
      exact .still (clientAddTask_still made) (fun _ ht => ht) (fun _ hw => hw) (fun _ _ hw => hw)
  | count m t obj =>
    cases h
    exact .count rfl
  | done m obj =>
    cases m with
    | server | client =>
      obtain ⟨x, _, h⟩ := bind_eq_ok.mp h
      cases h
      exact .done (by simp [windows])

theorem LimitPc.Change.tame (tame : Tame s) (live : ∀ t, pc.task = some t → t ∈ s.gRegTaskList.keys)
    (h : pc.Change K s pc' s') : Tame s' ∧ (∀ t ∈ s.gRegTaskList.keys, t ∈ s'.gRegTaskList.keys) ∧
      ∀ t, pc'.task = some t → pc.task = some t := by
  cases h with
  | still still task => exact ⟨tame.alike still.alike, fun t ht => by rw [still.tasks]; exact ht, task⟩
  | task hpc | plain hpc | room hpc | noClients hpc | noServers hpc | noMonitor hpc =>
    rw [hpc]
    exact ⟨tame, fun _ ht => ht, by simp [LimitPc.task]⟩
  | addTask hpc ht hf =>
    have fresh := K.kmalloc_fresh .regTask s _ ht
    refine ⟨tame.addRegTask fresh (K.kmalloc_fresh .filp s _ hf), fun u hu => ?_, by simp [LimitPc.task]⟩
    rw [keys_addRegTask _ _ fresh]
    exact List.mem_cons_of_mem _ hu
  | @link m t obj e hpc he =>
    have own : t ∈ s.gRegTaskList.keys := live t (by rw [hpc]; rfl)
    refine ⟨tame.linkMember own (K.kmalloc_fresh m.site s e he), fun u hu => ?_, fun u hu => ?_⟩
    · rw [tasks_linkMember]
      exact hu
    · rw [hpc]
      exact hu
  | @count m t obj hpc =>
    have alike : Alike s (s.countUp m t) := countUp_alike m t
    exact ⟨tame.alike alike, fun u hu => by rw [alike.keys]; exact hu, by simp [LimitPc.task]⟩
  | @setMonitor t hpc =>
    have keys : (s.setMonitor t).gRegTaskList.keys = s.gRegTaskList.keys := Table.keys_modify _
    refine ⟨tame.setMonitor, fun u hu => ?_, by simp [LimitPc.task]⟩
    rw [keys]
    exact hu

end Ripc
