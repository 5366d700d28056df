import Ripc.LimitSteps
import Ripc.DriverRuns

namespace Ripc

def Member.site : Member → Site
  | .server => .serversEntry
  | .client => .clientsEntry

/-- The task is registered as a monitor. -/
def Drv.Monitors (s : Drv) (t : Ptr) : Prop := ∃ task, s.gRegTaskList.get? t = some task ∧ task.isMonitor ≠ 0

/-- One monitor at most, which has no servers and no clients, and no more of anything than there is room for. -/
structure Limits (s : Drv) : Prop where
  oneMonitor : ∀ t t', s.Monitors t → s.Monitors t' → t = t'
  bare : ∀ t, s.Monitors t → ∀ m, s.members m t = 0
  tasks : s.gRegTaskList.keys.length ≤ maxProcesses
  members : ∀ t ∈ s.gRegTaskList.keys, ∀ m, s.members m t ≤ m.limit

/-- An entry for a server or a client of the task. -/
def Drv.linkMember (s : Drv) (m : Member) (t obj e : Ptr) : Drv :=
  match m with
  | .server => { s with serversEntries := s.serversEntries.pushFront e ⟨t, obj⟩ }
  | .client => { s with clientsEntries := s.clientsEntries.pushFront e ⟨t, obj⟩ }

def Drv.addRegTask (s : Drv) (t filp : Ptr) (task : TaskStruct) : Drv :=
  { s with
    gRegTaskList := s.gRegTaskList.pushFront t ⟨task, 0, [], 0, 0, 0⟩
    gRegTaskCount := s.gRegTaskCount + 1
    files := s.files.pushFront filp t }

def Drv.setMonitor (s : Drv) (t : Ptr) : Drv :=
  { s with gRegTaskList := s.gRegTaskList.modify t fun t => { t with isMonitor := t.isMonitor + 1 } }

/-- Nothing that the limits are about has changed. -/
structure Alike (s s' : Drv) : Prop where
  keys : s'.gRegTaskList.keys = s.gRegTaskList.keys
  flags : ∀ t, (s'.gRegTaskList.get? t).map RegTask.isMonitor = (s.gRegTaskList.get? t).map RegTask.isMonitor
  servers : s'.serversEntries = s.serversEntries
  clients : s'.clientsEntries = s.clientsEntries
  files : s'.files = s.files

variable {s s' : Drv}

theorem Alike.members (h : Alike s s') (m : Member) (t : Ptr) : s'.members m t = s.members m t := by
  cases m with
  | server => simp only [Drv.members, Drv.serversOf, h.servers]
  | client => simp only [Drv.members, Drv.clientsOf, h.clients]

theorem monitors_iff {t : Ptr} :
    s.Monitors t ↔ ∃ n, (s.gRegTaskList.get? t).map RegTask.isMonitor = some n ∧ n ≠ 0 := by
  constructor
  · rintro ⟨task, ht, hm⟩
    exact ⟨task.isMonitor, by rw [ht]; rfl, hm⟩
  · rintro ⟨n, hn, hm⟩
    obtain ⟨task, ht, rfl⟩ := Option.map_eq_some_iff.mp hn
    exact ⟨task, ht, hm⟩

theorem Alike.monitors (h : Alike s s') (t : Ptr) : s'.Monitors t ↔ s.Monitors t := by
  rw [monitors_iff, monitors_iff, h.flags]

theorem Alike.limits (h : Alike s s') (l : Limits s) : Limits s' := by
  refine ⟨fun t t' ht ht' => ?_, fun t ht m => ?_, by rw [h.keys]; exact l.tasks, fun t ht m => ?_⟩
  · exact l.oneMonitor t t' ((h.monitors t).mp ht) ((h.monitors t').mp ht')
  · rw [h.members]
    exact l.bare t ((h.monitors t).mp ht) m
  · rw [h.members]
    exact l.members t (by rw [← h.keys]; exact ht) m

/-- No entry is left of a task that is not registered, no file is open for one, and no flag is negative. -/
structure Tame (s : Drv) : Prop where
  entries : ∀ m t, t ∉ s.gRegTaskList.keys → s.members m t = 0
  files : ∀ f t, s.files.get? f = some t → t ∈ s.gRegTaskList.keys
  flags : ∀ t task, s.gRegTaskList.get? t = some task → 0 ≤ task.isMonitor

section

variable {t filp obj e : Ptr} {task : TaskStruct} {m : Member}

theorem keys_addRegTask (filp : Ptr) (task : TaskStruct) (fresh : t ∉ s.gRegTaskList.keys) :
    (s.addRegTask t filp task).gRegTaskList.keys = t :: s.gRegTaskList.keys := by
  simp [Drv.addRegTask, Table.keys_pushFront fresh]

theorem monitors_addRegTask (filp : Ptr) (task : TaskStruct) (fresh : t ∉ s.gRegTaskList.keys) (u : Ptr) :
    (s.addRegTask t filp task).Monitors u ↔ s.Monitors u := by
  have get : (s.addRegTask t filp task).gRegTaskList.get? u = _ := Table.get?_pushFront fresh
  unfold Drv.Monitors
  rw [get]
  by_cases hu : u = t
  · subst hu
    have gone : s.gRegTaskList.get? u = none := Table.get?_eq_none.mpr fresh
    simp [gone]
  · rw [if_neg hu]

theorem addRegTask_limits (tame : Tame s) (fresh : t ∉ s.gRegTaskList.keys) :
    Limits (s.addRegTask t filp task) ↔ Limits s ∧ s.gRegTaskList.keys.length < maxProcesses := by
  have keys := keys_addRegTask filp task fresh
  have monitors := monitors_addRegTask filp task fresh
  constructor
  · intro l
    have room := l.tasks
    rw [keys, List.length_cons] at room
    refine ⟨⟨fun u u' hu hu' => ?_, fun u hu => ?_, by omega, fun u hu => ?_⟩, by omega⟩
    · exact l.oneMonitor u u' ((monitors u).mpr hu) ((monitors u').mpr hu')
    · exact l.bare u ((monitors u).mpr hu)
    · exact l.members u (by rw [keys]; exact List.mem_cons_of_mem t hu)
  · rintro ⟨l, room⟩
    refine ⟨fun u u' hu hu' => ?_, fun u hu => ?_, ?_, fun u hu m => ?_⟩
    · exact l.oneMonitor u u' ((monitors u).mp hu) ((monitors u').mp hu')
    · exact l.bare u ((monitors u).mp hu)
    · rw [keys, List.length_cons]
      omega
    · rw [keys] at hu
      rcases List.mem_cons.mp hu with rfl | hu
      · have none : (s.addRegTask u filp task).members m u = 0 := tame.entries m u fresh
        rw [none]
        exact Nat.zero_le _
      · exact l.members u hu m

theorem members_linkMember (t obj : Ptr) (fresh : e ∉ s.live m.site) (m' : Member) (u : Ptr) :
    (s.linkMember m t obj e).members m' u = s.members m' u + if m' = m ∧ u = t then 1 else 0 := by
  cases m with
  | server =>
    have fresh : e ∉ s.serversEntries.keys := fresh
    cases m' with
    | server =>
      by_cases hu : t = u
      · simp [Drv.members, Drv.serversOf, Drv.linkMember, Table.pushFront, fresh, hu]
      · simp [Drv.members, Drv.serversOf, Drv.linkMember, Table.pushFront, fresh, hu, Ne.symm hu]
    | client => rfl
  | client =>
    have fresh : e ∉ s.clientsEntries.keys := fresh
    cases m' with
    | server => rfl
    | client =>
      by_cases hu : t = u
      · simp [Drv.members, Drv.clientsOf, Drv.linkMember, Table.pushFront, fresh, hu]
      · simp [Drv.members, Drv.clientsOf, Drv.linkMember, Table.pushFront, fresh, hu, Ne.symm hu]

theorem tasks_linkMember : (s.linkMember m t obj e).gRegTaskList = s.gRegTaskList := by
  cases m <;> rfl

theorem linkMember_limits (live : t ∈ s.gRegTaskList.keys) (fresh : e ∉ s.live m.site) :
    Limits (s.linkMember m t obj e) ↔ Limits s ∧ ¬s.Monitors t ∧ s.members m t < m.limit := by
  have tasks : (s.linkMember m t obj e).gRegTaskList = s.gRegTaskList := tasks_linkMember
  have monitors : ∀ u, (s.linkMember m t obj e).Monitors u ↔ s.Monitors u := fun u => by
    rw [Drv.Monitors, tasks]
    rfl
  have members := members_linkMember t obj fresh
  have own : (s.linkMember m t obj e).members m t = s.members m t + 1 := by simp [members]
  have grows : ∀ m' u, s.members m' u ≤ (s.linkMember m t obj e).members m' u := fun m' u => by
    rw [members]
    exact Nat.le_add_right _ _
  constructor
  · intro l
    refine ⟨⟨fun u u' hu hu' => ?_, fun u hu m' => ?_, by rw [← tasks]; exact l.tasks, fun u hu m' => ?_⟩, ?_, ?_⟩
    · exact l.oneMonitor u u' ((monitors u).mpr hu) ((monitors u').mpr hu')
    · have none := l.bare u ((monitors u).mpr hu) m'
      have grows := grows m' u
      omega
    · exact (grows m' u).trans (l.members u (by rw [tasks]; exact hu) m')
    · intro hm
      have none := l.bare t ((monitors t).mpr hm) m
      omega
    · have room := l.members t (by rw [tasks]; exact live) m
      omega
  · rintro ⟨l, plain, room⟩
    refine ⟨fun u u' hu hu' => ?_, fun u hu m' => ?_, by rw [tasks]; exact l.tasks, fun u hu m' => ?_⟩
    · exact l.oneMonitor u u' ((monitors u).mp hu) ((monitors u').mp hu')
    · have monitor := (monitors u).mp hu
      rw [members, l.bare u monitor, if_neg]
      rintro ⟨_, rfl⟩
      exact plain monitor
    · rw [tasks] at hu
      rw [members]
      split
      next same =>
        obtain ⟨rfl, rfl⟩ := same
        omega
      next => exact l.members u hu m'

theorem monitors_setMonitor (tame : Tame s) (live : t ∈ s.gRegTaskList.keys) (u : Ptr) :
    (s.setMonitor t).Monitors u ↔ s.Monitors u ∨ u = t := by
  have get : (s.setMonitor t).gRegTaskList.get? u = _ := Table.get?_modify _
  unfold Drv.Monitors
  rw [get]
  by_cases hu : u = t
  · subst hu
    obtain ⟨task, ht⟩ := Table.mem_keys.mp live
    have flag := tame.flags u task ht
    simp only [if_pos, ht, Option.map_some, Option.some.injEq, exists_eq_left', or_true, iff_true]
    omega
  · simp [hu]

theorem setMonitor_limits (tame : Tame s) (live : t ∈ s.gRegTaskList.keys) :
    Limits (s.setMonitor t) ↔ Limits s ∧ (∀ u, s.Monitors u → u = t) ∧ ∀ m, s.members m t = 0 := by
  have keys : (s.setMonitor t).gRegTaskList.keys = s.gRegTaskList.keys := Table.keys_modify _
  have monitors := monitors_setMonitor tame live
  constructor
  · intro l
    have self : (s.setMonitor t).Monitors t := (monitors t).mpr (Or.inr rfl)
    refine ⟨⟨fun u u' hu hu' => ?_, fun u hu => ?_, by rw [← keys]; exact l.tasks, fun u hu => ?_⟩, fun u hu => ?_,
      l.bare t self⟩
    · exact l.oneMonitor u u' ((monitors u).mpr (Or.inl hu)) ((monitors u').mpr (Or.inl hu'))
    · exact l.bare u ((monitors u).mpr (Or.inl hu))
    · exact l.members u (by rw [keys]; exact hu)
    · exact l.oneMonitor u t ((monitors u).mpr (Or.inl hu)) self
  · rintro ⟨l, alone, bare⟩
    have only : ∀ u, (s.setMonitor t).Monitors u → u = t := fun u hu => ((monitors u).mp hu).elim (alone u) id
    refine ⟨fun u u' hu hu' => (only u hu).trans (only u' hu').symm, fun u hu m => ?_, by rw [keys]; exact l.tasks,
      fun u hu => ?_⟩
    · rw [only u hu]
      exact bare m
    · rw [keys] at hu
      exact l.members u hu

theorem Tame.alike (h : Alike s s') (tame : Tame s) : Tame s' := by
  refine ⟨fun m t ht => ?_, fun f t hf => ?_, fun t task ht => ?_⟩
  · rw [h.members]
    exact tame.entries m t (by rw [← h.keys]; exact ht)
  · rw [h.files] at hf
    rw [h.keys]
    exact tame.files f t hf
  · have flag := h.flags t
    rw [ht] at flag
    obtain ⟨task', ht', same⟩ := Option.map_eq_some_iff.mp flag.symm
    rw [← same]
    exact tame.flags t task' ht'

theorem Tame.addRegTask (tame : Tame s) (fresh : t ∉ s.gRegTaskList.keys) (file : filp ∉ s.files.keys) :
    Tame (s.addRegTask t filp task) := by
  have keys := keys_addRegTask filp task fresh
  refine ⟨fun m u hu => ?_, fun f u hf => ?_, fun u task' hu => ?_⟩
  · rw [keys] at hu
    exact tame.entries m u fun mem => hu (List.mem_cons_of_mem t mem)
  · rw [keys]
    have get : (s.addRegTask t filp task).files.get? f = _ := Table.get?_pushFront file
    rw [get] at hf
    split at hf
    next =>
      cases hf
      exact List.mem_cons_self
    next => exact List.mem_cons_of_mem t (tame.files f u hf)
  · have get : (s.addRegTask t filp task).gRegTaskList.get? u = _ := Table.get?_pushFront fresh
    rw [get] at hu
    split at hu
    next =>
      cases hu
      exact Int.le_refl 0
    next => exact tame.flags u task' hu

theorem Tame.linkMember (tame : Tame s) (live : t ∈ s.gRegTaskList.keys) (fresh : e ∉ s.live m.site) :
    Tame (s.linkMember m t obj e) := by
  have tasks : (s.linkMember m t obj e).gRegTaskList = s.gRegTaskList := tasks_linkMember
  have files : (s.linkMember m t obj e).files = s.files := by cases m <;> rfl
  refine ⟨fun m' u hu => ?_, ?_, ?_⟩
  · rw [tasks] at hu
    rw [members_linkMember _ _ fresh, tame.entries m' u hu, if_neg]
    rintro ⟨_, rfl⟩
    exact hu live
  · rw [tasks, files]
    exact tame.files
  · rw [tasks]
    exact tame.flags

theorem Tame.setMonitor (tame : Tame s) : Tame (s.setMonitor t) := by
  have keys : (s.setMonitor t).gRegTaskList.keys = s.gRegTaskList.keys := Table.keys_modify _
  refine ⟨fun m u hu => ?_, fun f u hf => ?_, fun u task' hu => ?_⟩
  · rw [keys] at hu
    exact tame.entries m u hu
  · rw [keys]
    exact tame.files f u hf
  · have get : (s.setMonitor t).gRegTaskList.get? u = _ := Table.get?_modify _
    rw [get] at hu
    split at hu
    next =>
      obtain ⟨before, hb, rfl⟩ := Option.map_eq_some_iff.mp hu
      have flag := tame.flags u before hb
      show 0 ≤ before.isMonitor + 1
      omega
    next => exact tame.flags u task' hu

end

theorem tame_init : Tame Drv.init :=
  ⟨fun m t _ => by cases m <;> rfl, by simp [Drv.init], by simp [Drv.init]⟩

theorem limits_init : Limits Drv.init :=
  ⟨by simp [Drv.Monitors, Drv.init], by simp [Drv.Monitors, Drv.init], by simp [Drv.init], by simp [Drv.init]⟩

end Ripc
