import Ripc.LimitWindows

namespace Ripc

namespace Openers

/-- What makes it safe to enter a window. -/
def Granted (c : Openers) : Window → Prop
  | .task => ∀ others : Finset Nat, (∀ j ∈ others, c.Inside .task j) →
      c.drv.gRegTaskList.keys.length + others.card < maxProcesses
  | .plain t => ¬c.drv.Monitors t
  | .room m t => ∀ others : Finset Nat, (∀ j ∈ others, c.Inside (.room m t) j) →
      c.drv.members m t + others.card < m.limit
  | .uncounted _ _ => True
  | .bare m t => c.drv.members m t = 0
  | .noMonitor t => (∀ u, ¬c.drv.Monitors u) ∧ ∀ j u, c.Inside (.noMonitor u) j → u = t

/-- There is room for every call that has been let go on, and what the calls have found is still so. -/
structure Kept (c : Openers) : Prop where
  limits : Limits c.drv
  counted : c.drv.gRegTaskCount = c.drv.gRegTaskList.keys.length
  task : ∀ others : Finset Nat, (∀ j ∈ others, c.Inside .task j) →
    c.drv.gRegTaskList.keys.length + others.card ≤ maxProcesses
  uncounted : ∀ m t task, c.drv.gRegTaskList.get? t = some task → ∃ others : Finset Nat,
    (∀ j ∈ others, c.Inside (.uncounted m t) j) ∧ c.drv.members m t ≤ task.numOf m + others.card
  room : ∀ m t (others : Finset Nat), (∀ j ∈ others, c.Inside (.room m t) j) →
    c.drv.members m t + others.card ≤ m.limit
  plain : ∀ t j, c.Inside (.plain t) j → ¬c.drv.Monitors t
  bare : ∀ m t j, c.Inside (.bare m t) j → c.drv.members m t = 0
  noMonitor : ∀ t j, c.Inside (.noMonitor t) j → ∀ u, c.drv.Monitors u → u = t
  alone : ∀ t u i j, c.Inside (.noMonitor t) i → c.Inside (.noMonitor u) j → t = u

variable {c c' : Openers} {s s' : Drv} {K : Kernel} {pc : LimitPc} {w : Window} {i j : Nat} {others : Finset Nat}
  {move : LimitMove}

theorem noMonitor_unique {t u : Ptr} (ht : .noMonitor t ∈ pc.windows) (hu : .noMonitor u ∈ pc.windows) : t = u := by
  cases pc <;> simp_all [LimitPc.windows]

theorem inside_self : (Openers.mk s (Function.update c.pcs i pc)).Inside w i ↔ w ∈ pc.windows := by
  simp [Inside]

theorem inside_other (other : j ≠ i) :
    (Openers.mk s (Function.update c.pcs i pc)).Inside w j ↔ c.Inside w j := by
  simp [Inside, other]

/-- A call that enters no window was in every one before that it is in. -/
theorem inside_before (h : (Openers.mk s (Function.update c.pcs i pc)).Inside w j)
    (enters : w ∈ pc.windows → c.Inside w i) : c.Inside w j := by
  by_cases other : j = i
  · subst other
    exact enters (inside_self.mp h)
  · exact (inside_other other).mp h

theorem inside_erase (h : ∀ j ∈ others, (Openers.mk s (Function.update c.pcs i pc)).Inside w j) :
    ∀ j ∈ others.erase i, c.Inside w j := by
  intro j hj
  obtain ⟨other, hj⟩ := Finset.mem_erase.mp hj
  exact (inside_other other).mp (h j hj)

theorem inside_still (h : ∀ j ∈ others, c.Inside w j) (out : ¬c.Inside w i) :
    ∀ j ∈ others, (Openers.mk s (Function.update c.pcs i pc)).Inside w j := by
  intro j hj
  have other : j ≠ i := by
    rintro rfl
    exact out (h j hj)
  exact (inside_other other).mpr (h j hj)

theorem inside_left (h : ∀ j ∈ others, (Openers.mk s (Function.update c.pcs i pc)).Inside w j)
    (was : c.Inside w i) (left : w ∉ pc.windows) :
    (∀ j ∈ insert i others, c.Inside w j) ∧ (insert i others).card = others.card + 1 := by
  have out : i ∉ others := fun hi => left (inside_self.mp (h i hi))
  refine ⟨fun j hj => ?_, Finset.card_insert_of_notMem out⟩
  rcases Finset.mem_insert.mp hj with rfl | hj
  · exact was
  · exact inside_before (h j hj) fun hw => absurd hw left

theorem inside_entered {n : Nat} (h : ∀ j ∈ others, (Openers.mk s (Function.update c.pcs i pc)).Inside w j)
    (room : ∀ others : Finset Nat, (∀ j ∈ others, c.Inside w j) → others.card < n) : others.card ≤ n := by
  have before := room (others.erase i) (inside_erase h)
  have less := Finset.pred_card_le_card_erase (a := i) (s := others)
  omega

section

variable (granted : ∀ w ∈ pc.windows, c.Inside w i ∨ c.Granted w)

include granted

theorem before_or_granted (h : (Openers.mk s (Function.update c.pcs i pc)).Inside w j) :
    c.Inside w j ∨ j = i ∧ c.Granted w := by
  by_cases other : j = i
  · subst other
    exact (granted w (inside_self.mp h)).imp_right fun g => ⟨rfl, g⟩
  · exact .inl ((inside_other other).mp h)

theorem all_before_or_granted (h : ∀ j ∈ others, (Openers.mk s (Function.update c.pcs i pc)).Inside w j) :
    (∀ j ∈ others, c.Inside w j) ∨ c.Granted w := by
  by_cases g : c.Granted w
  · exact .inr g
  · exact .inl fun j hj => (before_or_granted granted (h j hj)).resolve_right fun e => g e.2

theorem Kept.goto (h : c.Kept) (still : Still c.drv s)
    (keeps : ∀ m t, c.Inside (.uncounted m t) i → .uncounted m t ∈ pc.windows) :
    (Openers.mk s (Function.update c.pcs i pc)).Kept := by
  have members := still.alike.members
  have monitors := still.alike.monitors
  refine ⟨still.alike.limits h.limits, ?_, fun others hin => ?_, fun m t task ht => ?_, fun m t others hin => ?_,
    fun t j hin => ?_, fun m t j hin => ?_, fun t j hin u hu => ?_, fun t u j k ht hu => ?_⟩
  · rw [still.count, still.tasks, h.counted]
  · rw [still.tasks]
    rcases all_before_or_granted granted hin with before | room
    · exact h.task others before
    · have less := inside_entered (n := maxProcesses - c.drv.gRegTaskList.keys.length) hin fun others before => by
        have room := room others before
        omega
      have tasks := h.limits.tasks
      omega
  · rw [still.tasks] at ht
    obtain ⟨others, inside, count⟩ := h.uncounted m t task ht
    refine ⟨others, fun j hj => ?_, by rw [members]; exact count⟩
    by_cases other : j = i
    · subst other
      exact inside_self.mpr (keeps m t (inside j hj))
    · exact (inside_other other).mpr (inside j hj)
  · rw [members]
    rcases all_before_or_granted granted hin with before | room
    · exact h.room m t others before
    · have less := inside_entered (n := m.limit - c.drv.members m t) hin fun others before => by
        have room := room others before
        omega
      have full := h.room m t ∅ (by simp)
      simp only [Finset.card_empty] at full
      omega
  · rw [monitors]
    rcases before_or_granted granted hin with before | ⟨_, plain⟩
    · exact h.plain t j before
    · exact plain
  · rw [members]
    rcases before_or_granted granted hin with before | ⟨_, bare⟩
    · exact h.bare m t j before
    · exact bare
  · rw [monitors] at hu
    rcases before_or_granted granted hin with before | ⟨_, none, _⟩
    · exact h.noMonitor t j before u hu
    · exact absurd hu (none u)
  · rcases before_or_granted granted ht with before | ⟨rfl, _, first⟩
    · rcases before_or_granted granted hu with before' | ⟨_, _, only⟩
      · exact h.alone t u j k before before'
      · exact only j t before
    · rcases before_or_granted granted hu with before' | ⟨rfl, _⟩
      · exact (first k u before').symm
      · exact noMonitor_unique (inside_self.mp ht) (inside_self.mp hu)

end

theorem inside_of_returned {ret : Int} (h : (Openers.mk s (Function.update c.pcs i (.returned ret))).Inside w j) :
    c.Inside w j :=
  inside_before h fun hw => nomatch hw

theorem Kept.addTask {task : TaskStruct} {t filp : Ptr} (h : c.Kept) (tame : Tame c.drv)
    (hpc : c.pcs i = .createTask task) (fresh : t ∉ c.drv.gRegTaskList.keys) :
    (Openers.mk (c.drv.addRegTask t filp task) (Function.update c.pcs i (.returned 0))).Kept := by
  have own : c.Inside .task i := by simp [Inside, hpc, LimitPc.windows]
  have keys := keys_addRegTask filp task fresh
  have monitors := monitors_addRegTask filp task fresh
  have room := h.task {i} (by simpa using own)
  rw [Finset.card_singleton] at room
  refine ⟨(addRegTask_limits tame fresh).mpr ⟨h.limits, room⟩, ?_, fun others hin => ?_, fun m u task' hu => ?_,
    fun m u others hin => ?_, fun u j hin => ?_, fun m u j hin => ?_, fun u j hin u' hu => ?_,
    fun u u' j k hu hu' => ?_⟩
  · show c.drv.gRegTaskCount + 1 = _
    rw [keys, h.counted, List.length_cons]
    rfl
  · obtain ⟨inside, card⟩ := inside_left hin own (by simp [LimitPc.windows])
    have all := h.task _ inside
    rw [keys, List.length_cons]
    omega
  · have get : (c.drv.addRegTask t filp task).gRegTaskList.get? u = _ := Table.get?_pushFront fresh
    rw [get] at hu
    split at hu
    next e =>
      cases hu
      have none : c.drv.members m t = 0 := tame.entries m t fresh
      refine ⟨∅, by simp, ?_⟩
      show (c.drv.members m u : Int) ≤ _
      rw [e, none]
      cases m <;> exact Int.le_refl 0
    next =>
      obtain ⟨others, inside, count⟩ := h.uncounted m u task' hu
      exact ⟨others, inside_still inside (by simp [Inside, hpc, LimitPc.windows]), count⟩
  · exact h.room m u others fun j hj => inside_of_returned (hin j hj)
  · rw [monitors]
    exact h.plain u j (inside_of_returned hin)
  · exact h.bare m u j (inside_of_returned hin)
  · exact h.noMonitor u j (inside_of_returned hin) u' ((monitors u').mp hu)
  · exact h.alone u u' j k (inside_of_returned hu) (inside_of_returned hu')

theorem Kept.link {m : Member} {t obj e : Ptr} (h : c.Kept) (live : t ∈ c.drv.gRegTaskList.keys)
    (hpc : c.pcs i = .link m t obj) (fresh : e ∉ c.drv.live m.site) (spares : ∀ j, ¬c.Inside (.bare m t) j) :
    (Openers.mk (c.drv.linkMember m t obj e) (Function.update c.pcs i (.setTask m t obj e))).Kept := by
  have plain : c.Inside (.plain t) i := by simp [Inside, hpc, LimitPc.windows]
  have own : c.Inside (.room m t) i := by simp [Inside, hpc, LimitPc.windows]
  have tasks : (c.drv.linkMember m t obj e).gRegTaskList = c.drv.gRegTaskList := tasks_linkMember
  have count : (c.drv.linkMember m t obj e).gRegTaskCount = c.drv.gRegTaskCount := by cases m <;> rfl
  have members := members_linkMember t obj fresh
  have monitors : ∀ u, (c.drv.linkMember m t obj e).Monitors u ↔ c.drv.Monitors u := fun u => by
    rw [Drv.Monitors, tasks]
    rfl
  have before : ∀ {w j}, (Openers.mk (c.drv.linkMember m t obj e)
      (Function.update c.pcs i (.setTask m t obj e))).Inside w j → w ≠ .uncounted m t → c.Inside w j :=
    fun hin other => inside_before hin fun hw => absurd (List.mem_singleton.mp hw) other
  have room := h.room m t {i} (by simpa using own)
  rw [Finset.card_singleton] at room
  refine ⟨(linkMember_limits live fresh).mpr ⟨h.limits, h.plain t i plain, room⟩, ?_, fun others hin => ?_,
    fun m' u task hu => ?_, fun m' u others hin => ?_, fun u j hin => ?_, fun m' u j hin => ?_,
    fun u j hin u' hu => ?_, fun u u' j k hu hu' => ?_⟩
  · rw [count, tasks, h.counted]
  · rw [tasks]
    exact h.task others fun j hj => before (hin j hj) (by simp)
  · rw [tasks] at hu
    obtain ⟨others, inside, count⟩ := h.uncounted m' u task hu
    have out : ¬c.Inside (.uncounted m' u) i := by simp [Inside, hpc, LimitPc.windows]
    rw [members]
    split
    next same =>
      obtain ⟨rfl, rfl⟩ := same
      refine ⟨insert i others, fun j hj => ?_, ?_⟩
      · rcases Finset.mem_insert.mp hj with rfl | hj
        · exact inside_self.mpr (by simp [LimitPc.windows])
        · exact inside_still inside out j hj
      · rw [Finset.card_insert_of_notMem fun hi => out (inside i hi)]
        omega
    next =>
      refine ⟨others, inside_still inside out, ?_⟩
      omega
  · rw [members]
    split
    next same =>
      obtain ⟨rfl, rfl⟩ := same
      obtain ⟨inside, card⟩ := inside_left hin own (by simp [LimitPc.windows])
      have all := h.room _ _ _ inside
      omega
    next => exact h.room m' u others fun j hj => before (hin j hj) (by simp)
  · rw [monitors]
    exact h.plain u j (before hin (by simp))
  · have was := before hin (by simp)
    rw [members, h.bare m' u j was, if_neg]
    rintro ⟨rfl, rfl⟩
    exact spares j was
  · exact h.noMonitor u j (before hin (by simp)) u' ((monitors u').mp hu)
  · exact h.alone u u' j k (before hu (by simp)) (before hu' (by simp))

theorem numOf_of_modified {m : Member} {t u : Ptr} {task : RegTask} {f : RegTask → RegTask}
    (hu : (s.gRegTaskList.modify t f).get? u = some task) (same : u = t → ∀ x, (f x).numOf m = x.numOf m) :
    ∃ task', s.gRegTaskList.get? u = some task' ∧ task.numOf m = task'.numOf m := by
  rw [Table.get?_modify] at hu
  split at hu
  next e =>
    obtain ⟨task', ht, rfl⟩ := Option.map_eq_some_iff.mp hu
    exact ⟨task', ht, same e task'⟩
  next => exact ⟨task, hu, rfl⟩

theorem Kept.count {m : Member} {t obj : Ptr} (h : c.Kept) (hpc : c.pcs i = .count m t obj) :
    (Openers.mk (c.drv.countUp m t) (Function.update c.pcs i (.done m obj))).Kept := by
  have alike : Alike c.drv (c.drv.countUp m t) := countUp_alike m t
  have before : ∀ {w j}, (Openers.mk (c.drv.countUp m t) (Function.update c.pcs i (.done m obj))).Inside w j →
      c.Inside w j := fun hin => inside_before hin fun hw => nomatch hw
  refine ⟨alike.limits h.limits, ?_, fun others hin => ?_, fun m' u task hu => ?_, fun m' u others hin => ?_,
    fun u j hin => ?_, fun m' u j hin => ?_, fun u j hin u' hu => ?_, fun u u' j k hu hu' => ?_⟩
  · rw [alike.keys]
    exact h.counted
  · rw [alike.keys]
    exact h.task others fun j hj => before (hin j hj)
  · rw [alike.members]
    by_cases same : m' = m ∧ u = t
    · obtain ⟨rfl, rfl⟩ := same
      have get : (c.drv.countUp m' u).gRegTaskList.get? u = _ := Table.get?_modify _
      rw [get, if_pos rfl] at hu
      obtain ⟨task, ht, rfl⟩ := Option.map_eq_some_iff.mp hu
      obtain ⟨others, inside, count⟩ := h.uncounted m' u task ht
      have less := Finset.pred_card_le_card_erase (a := i) (s := others)
      have up : (RegTask.countUp m' task).numOf m' = task.numOf m' + 1 := by cases m' <;> rfl
      refine ⟨others.erase i, fun j hj => ?_, by omega⟩
      obtain ⟨other, hj⟩ := Finset.mem_erase.mp hj
      exact (inside_other other).mpr (inside j hj)
    · have out : ¬c.Inside (.uncounted m' u) i := by simpa [Inside, hpc, LimitPc.windows] using same
      have kept : u = t → ∀ x, (RegTask.countUp m x).numOf m' = x.numOf m' := fun e x => by
        have other : m' ≠ m := fun em => same ⟨em, e⟩
        cases m <;> cases m' <;> first | rfl | exact absurd rfl other
      obtain ⟨task', ht, numOf⟩ := numOf_of_modified hu kept
      obtain ⟨others, inside, count⟩ := h.uncounted m' u task' ht
      exact ⟨others, inside_still inside out, by rw [numOf]; exact count⟩
  · rw [alike.members]
    exact h.room m' u others fun j hj => before (hin j hj)
  · rw [alike.monitors]
    exact h.plain u j (before hin)
  · rw [alike.members]
    exact h.bare m' u j (before hin)
  · exact h.noMonitor u j (before hin) u' ((alike.monitors u').mp hu)
  · exact h.alone u u' j k (before hu) (before hu')

theorem Kept.setMonitor {t : Ptr} (h : c.Kept) (tame : Tame c.drv) (live : t ∈ c.drv.gRegTaskList.keys)
    (hpc : c.pcs i = .setMonitor t) (spares : ∀ j, ¬c.Inside (.plain t) j) :
    (Openers.mk (c.drv.setMonitor t) (Function.update c.pcs i (.returned 0))).Kept := by
  have first : c.Inside (.noMonitor t) i := by simp [Inside, hpc, LimitPc.windows]
  have bare : ∀ m, c.drv.members m t = 0 := fun m => h.bare m t i (by cases m <;> simp [Inside, hpc, LimitPc.windows])
  have monitors := monitors_setMonitor tame live
  have keys : (c.drv.setMonitor t).gRegTaskList.keys = c.drv.gRegTaskList.keys := Table.keys_modify _
  refine ⟨(setMonitor_limits tame live).mpr ⟨h.limits, h.noMonitor t i first, bare⟩, ?_, fun others hin => ?_,
    fun m u task hu => ?_, fun m u others hin => ?_, fun u j hin hu => ?_, fun m u j hin => ?_,
    fun u j hin u' hu => ?_, fun u u' j k hu hu' => ?_⟩
  · rw [keys]
    exact h.counted
  · rw [keys]
    exact h.task others fun j hj => inside_of_returned (hin j hj)
  · obtain ⟨task', ht, numOf⟩ := numOf_of_modified hu fun _ x => by cases m <;> rfl
    obtain ⟨others, inside, count⟩ := h.uncounted m u task' ht
    have out : ¬c.Inside (.uncounted m u) i := by simp [Inside, hpc, LimitPc.windows]
    exact ⟨others, inside_still inside out, by rw [numOf]; exact count⟩
  · exact h.room m u others fun j hj => inside_of_returned (hin j hj)
  · have was := inside_of_returned hin
    rcases (monitors u).mp hu with hu | rfl
    · exact h.plain u j was hu
    · exact spares j was
  · exact h.bare m u j (inside_of_returned hin)
  · have was := inside_of_returned hin
    rcases (monitors u').mp hu with hu | rfl
    · exact h.noMonitor u j was u' hu
    · exact h.alone u' u i j first was
  · exact h.alone u u' j k (inside_of_returned hu) (inside_of_returned hu')

/-- The tasks that calls work on are registered. -/
structure Sound (c : Openers) : Prop where
  tame : Tame c.drv
  calls : ∀ i t, (c.pcs i).task = some t → t ∈ c.drv.gRegTaskList.keys

theorem Sound.goto {i : Nat} {pc : LimitPc} (sound : c.Sound)
    (live : ∀ t, pc.task = some t → t ∈ c.drv.gRegTaskList.keys) : (c.goto i pc).Sound := by
  refine ⟨sound.tame, fun j t ht => ?_⟩
  by_cases e : j = i
  · simp only [Openers.goto, e, Function.update_self] at ht
    exact live t ht
  · simp only [Openers.goto, Function.update_of_ne e] at ht
    exact sound.calls j t ht

theorem ioctl_eq_some {i : Nat} {filp : Ptr} {first : Ptr → LimitPc} (h : c.ioctl i filp first = some c') :
    c' = c.goto i ((c.drv.files.get? filp).elim (.returned (-ENOENT)) first) := by
  unfold ioctl at h
  split at h
  · exact (Option.some.inj h).symm
  · cases h

theorem Sound.ioctl {i : Nat} {filp : Ptr} {first : Ptr → LimitPc} (sound : c.Sound)
    (task : ∀ t, (first t).task = some t) (h : c.ioctl i filp first = some c') : c'.Sound := by
  rw [ioctl_eq_some h]
  refine sound.goto fun t ht => ?_
  cases hf : c.drv.files.get? filp with
  | none =>
    rw [hf] at ht
    cases ht
  | some u =>
    rw [hf] at ht
    cases (task u).symm.trans ht
    exact sound.tame.files filp t hf

theorem Sound.step (sound : c.Sound) (h : c.step move = some c') : c'.Sound := by
  cases move with
  | «open» i task =>
    obtain ⟨_, h⟩ := Option.ite_none_right_eq_some.mp h
    cases h
    exact sound.goto (by simp [LimitPc.task])
  | register i filp r => exact sound.ioctl (fun _ => rfl) h
  | registerMonitor i filp => exact sound.ioctl (fun _ => rfl) h
  | run i K =>
    obtain ⟨⟨pc', s'⟩, hs, rfl⟩ := Option.map_eq_some_iff.mp h
    have change := LimitPc.step_change (toOption_eq_some.mp hs)
    obtain ⟨tame, kept, task⟩ := change.tame sound.tame (sound.calls i)
    refine ⟨tame, fun j t ht => ?_⟩
    by_cases e : j = i
    · simp only [e, Function.update_self] at ht
      exact kept t (sound.calls i t (task t ht))
    · simp only [Function.update_of_ne e] at ht
      exact kept t (sound.calls j t ht)

theorem Kept.noneUncounted {m : Member} {t : Ptr} {task : RegTask} (h : c.Kept)
    (ht : c.drv.gRegTaskList.get? t = some task)
    (zero : task.numOf m ≤ 0) (counted : ∀ j, ¬c.Inside (.uncounted m t) j) : c.drv.members m t = 0 := by
  obtain ⟨others, inside, count⟩ := h.uncounted m t task ht
  have none : others = ∅ := Finset.eq_empty_of_forall_notMem fun j hj => counted j (inside j hj)
  rw [none, Finset.card_empty] at count
  omega

/-- The places that a test finds free are enough for the calls that it has let go on before. -/
theorem Kept.roomGranted {m : Member} {t : Ptr} {task : RegTask} (h : c.Kept)
    (ht : c.drv.gRegTaskList.get? t = some task) (found : task.numOf m < m.limit)
    (room : ∀ others : Finset Nat, others.Nonempty →
      (∀ j ∈ others, c.Inside (.room m t) j ∨ c.Inside (.uncounted m t) j) → task.numOf m + others.card < m.limit) :
    c.Granted (.room m t) := by
  intro others inside
  obtain ⟨linked, uncounted, count⟩ := h.uncounted m t task ht
  have apart : Disjoint others linked := Finset.disjoint_left.mpr fun j hj hl => by
    have first := inside j hj
    have second := uncounted j hl
    cases hpc : c.pcs j <;> simp_all [Inside, LimitPc.windows]
  have both := Finset.card_union_of_disjoint apart
  rcases (others ∪ linked).eq_empty_or_nonempty with none | some
  · rw [none, Finset.card_empty] at both
    omega
  · have all := room _ some fun j hj => (Finset.mem_union.mp hj).imp (inside j) (uncounted j)
    omega

theorem Kept.run (h : c.Kept) (sound : c.Sound) (spares : c.Spares K (c.pcs i))
    (change : (c.pcs i).Change K c.drv pc s) : (Openers.mk s (Function.update c.pcs i pc)).Kept := by
  cases change with
  | still still task opens keeps => exact h.goto (fun w hw => .inl (opens w hw)) still keeps
  | @task task hpc room =>
    rw [hpc] at spares
    refine h.goto (fun w hw => .inr ?_) .refl (by simp [Inside, hpc, LimitPc.windows])
    cases List.mem_singleton.mp hw
    intro others inside
    have counted := h.counted
    rcases others.eq_empty_or_nonempty with rfl | some
    · have found : c.drv.gRegTaskCount < maxProcesses := of_decide_eq_true room
      rw [Finset.card_empty]
      omega
    · have less := spares room others some inside
      omega
  | @addTask task t filp hpc ht hf => exact h.addTask sound.tame hpc (K.kmalloc_fresh .regTask c.drv t ht)
  | @plain m t obj hpc plain =>
    refine h.goto (fun w hw => .inr ?_) .refl (by simp [Inside, hpc, LimitPc.windows])
    cases List.mem_singleton.mp hw
    exact plain
  | @room m t obj task hpc ht room =>
    rw [hpc] at spares
    refine h.goto (fun w hw => ?_) .refl (by simp [Inside, hpc, LimitPc.windows])
    rcases List.mem_pair.mp hw with rfl | rfl
    · exact .inl (by simp [Inside, hpc, LimitPc.windows])
    · exact .inr (h.roomGranted ht room (spares task ht room))
  | @link m t obj e hpc he =>
    rw [hpc] at spares
    have live := sound.calls i t (by rw [hpc]; rfl)
    exact h.link live hpc (K.kmalloc_fresh m.site c.drv e he) (spares (by simp [he]))
  | count hpc => exact h.count hpc
  | @noClients t task hpc ht none =>
    rw [hpc] at spares
    refine h.goto (fun w hw => .inr ?_) .refl (by simp [Inside, hpc, LimitPc.windows])
    cases List.mem_singleton.mp hw
    exact h.noneUncounted ht none (spares task ht none)
  | @noServers t task hpc ht none =>
    rw [hpc] at spares
    refine h.goto (fun w hw => ?_) .refl (by simp [Inside, hpc, LimitPc.windows])
    rcases List.mem_pair.mp hw with rfl | rfl
    · exact .inl (by simp [Inside, hpc, LimitPc.windows])
    · exact .inr (h.noneUncounted ht none (spares task ht none))
  | @noMonitor t hpc none =>
    rw [hpc] at spares
    refine h.goto (fun w hw => ?_) .refl (by simp [Inside, hpc, LimitPc.windows])
    by_cases new : w = .noMonitor t
    · rw [new]
      exact .inr ⟨none, spares none⟩
    · refine .inl ?_
      simp_all [Inside, LimitPc.windows]
  | @setMonitor t hpc =>
    rw [hpc] at spares
    exact h.setMonitor sound.tame (sound.calls i t (by rw [hpc]; rfl)) hpc spares

theorem Kept.begin (h : c.Kept) (outside : (c.pcs i).outside = true) (first : pc.windows = []) :
    (c.goto i pc).Kept := by
  refine h.goto (fun w hw => ?_) .refl fun m t hw => ?_
  · rw [first] at hw
    cases hw
  · cases hpc : c.pcs i <;> simp_all [Inside, LimitPc.windows, LimitPc.outside]

theorem Kept.step (h : c.Kept) (sound : c.Sound) (fits : c.Fits move) (hs : c.step move = some c') : c'.Kept := by
  cases move with
  | «open» i task =>
    obtain ⟨outside, hs⟩ := Option.ite_none_right_eq_some.mp hs
    cases hs
    exact h.begin outside rfl
  | register i filp r | registerMonitor i filp =>
    obtain ⟨outside, hs⟩ := Option.ite_none_right_eq_some.mp hs
    cases hs
    refine h.begin outside ?_
    cases c.drv.files.get? filp <;> rfl
  | run i K =>
    obtain ⟨⟨pc', s'⟩, ran, rfl⟩ := Option.map_eq_some_iff.mp hs
    exact h.run sound fits (LimitPc.step_change (toOption_eq_some.mp ran))

/-- A call that nobody else's call comes between always fits. -/
theorem fits_alone (alone : ∀ j, j ≠ i → (c.pcs j).outside = true) : c.Fits (.run i K) := by
  have nobody : ∀ w j, j ≠ i → ¬c.Inside w j := by
    intro w j hj
    have outside := alone j hj
    cases hpc : c.pcs j <;> simp_all [Inside, LimitPc.windows, LimitPc.outside]
  have mine : ∀ w, w ∉ (c.pcs i).windows → ∀ j, ¬c.Inside w j := by
    intro w out j
    by_cases e : j = i
    · rw [e]
      exact out
    · exact nobody w j e
  show c.Spares K (c.pcs i)
  cases hpc : c.pcs i with
  | canAddTask task =>
    rintro _ others ⟨j, hj⟩ inside
    exact absurd (inside j hj) (mine _ (by simp [hpc, LimitPc.windows]) j)
  | retestCount m t obj =>
    rintro task _ _ others ⟨j, hj⟩ inside
    rcases inside j hj with hw | hw
    · exact absurd hw (mine _ (by simp [hpc, LimitPc.windows]) j)
    · exact absurd hw (mine _ (by simp [hpc, LimitPc.windows]) j)
  | link m t obj => exact fun _ => mine _ (by simp [hpc, LimitPc.windows])
  | monitorClients t => exact fun _ _ _ => mine _ (by simp [hpc, LimitPc.windows])
  | monitorServers t => exact fun _ _ _ => mine _ (by simp [hpc, LimitPc.windows])
  | scanTasks t => exact fun _ j t' inside => absurd inside (mine _ (by simp [hpc, LimitPc.windows]) j)
  | setMonitor t => exact mine _ (by simp [hpc, LimitPc.windows])
  | _ => trivial

theorem start_sound : start.Sound := ⟨tame_init, by simp [start, LimitPc.task]⟩

theorem start_kept : start.Kept := by
  have nowhere : ∀ w j, ¬start.Inside w j := fun w j hw => nomatch hw
  have nobody : ∀ {w} {others : Finset Nat}, (∀ j ∈ others, start.Inside w j) → others.card = 0 := fun inside =>
    Finset.card_eq_zero.mpr (Finset.eq_empty_of_forall_notMem fun j hj => nowhere _ j (inside j hj))
  refine ⟨limits_init, rfl, fun others inside => ?_, fun m t task ht => ?_, fun m t others inside => ?_,
    fun t j hin => absurd hin (nowhere _ j), fun m t j hin => absurd hin (nowhere _ j),
    fun t j hin => absurd hin (nowhere _ j), fun t u i j hin => absurd hin (nowhere _ i)⟩
  · rw [nobody inside]
    exact Nat.zero_le _
  · cases ht
  · rw [nobody inside]
    cases m <;> exact Nat.zero_le _

/-- The limits hold in every run in which no call's test and update come apart. -/
theorem limits_kept {moves : List LimitMove}
    (run : Trace (fun c move c' => c.Fits move ∧ c.step move = some c') start moves c) : Limits c.drv := by
  have both : c.Sound ∧ c.Kept := run.invariant (I := fun c => c.Sound ∧ c.Kept)
    (fun _ _ _ h hs => ⟨h.1.step hs.2, h.2.step h.1 hs.1 hs.2⟩) ⟨start_sound, start_kept⟩
  exact both.2.limits

/-- A test for threads that are all in the list. -/
def sparesCheck (threads : List Nat) (c : Openers) : LimitPc → Bool
  | .canAddTask _ => c.drv.gRegTaskCount + threads.length < maxProcesses
  | .retestCount m t _ => c.drv.gRegTaskList.entries.all fun e => e.1 ≠ t || e.2.numOf m + threads.length < m.limit
  | .link m t _ => threads.all fun j => .bare m t ∉ (c.pcs j).windows
  | .monitorClients t => threads.all fun j => .uncounted .client t ∉ (c.pcs j).windows
  | .monitorServers t => threads.all fun j => .uncounted .server t ∉ (c.pcs j).windows
  | .scanTasks _ => threads.all fun j => (c.pcs j).windows.all fun w => match w with
    | .noMonitor _ => false
    | _ => true
  | .setMonitor t => threads.all fun j => .plain t ∉ (c.pcs j).windows
  | _ => true

def fitsCheck (threads : List Nat) (c : Openers) (move : LimitMove) : Bool :=
  move.thread ∈ threads && match move with
    | .run i _ => c.sparesCheck threads (c.pcs i)
    | _ => true

section

variable {threads : List Nat} (still : ∀ j, j ∉ threads → c.pcs j = .idle)

include still

theorem inside_mem (h : c.Inside w j) : j ∈ threads := by
  by_contra out
  simp [Inside, still j out, LimitPc.windows] at h

theorem card_le_threads (h : ∀ j ∈ others, ∃ w, c.Inside w j) : others.card ≤ threads.length := by
  have sub : others ⊆ threads.toFinset := fun j hj => by
    obtain ⟨w, inside⟩ := h j hj
    exact List.mem_toFinset.mpr (inside_mem still inside)
  exact (Finset.card_le_card sub).trans threads.toFinset_card_le

theorem nowhere_of_all (h : (threads.all fun j => w ∉ (c.pcs j).windows) = true) (j : Nat) : ¬c.Inside w j :=
  fun inside => of_decide_eq_true (List.all_eq_true.mp h j (inside_mem still inside)) inside

theorem sparesCheck_sound (h : c.sparesCheck threads pc = true) : c.Spares K pc := by
  cases pc with
  | canAddTask task =>
    intro _ others _ inside
    have room : c.drv.gRegTaskCount + threads.length < maxProcesses := of_decide_eq_true h
    have few := card_le_threads still fun j hj => ⟨_, inside j hj⟩
    omega
  | retestCount m t obj =>
    intro task ht _ others _ inside
    have room := List.all_eq_true.mp h _ (Table.get?_eq_some.mp ht)
    have few := card_le_threads still fun j hj => (inside j hj).elim (fun hw => ⟨_, hw⟩) fun hw => ⟨_, hw⟩
    simp only [ne_eq, not_true_eq_false, decide_false, Bool.false_or, decide_eq_true_eq] at room
    omega
  | link m t obj => exact fun _ => nowhere_of_all still h
  | monitorClients t | monitorServers t => exact fun _ _ _ => nowhere_of_all still h
  | setMonitor t => exact nowhere_of_all still h
  | scanTasks t =>
    intro _ j t' inside
    have none := List.all_eq_true.mp (List.all_eq_true.mp h j (inside_mem still inside)) _ inside
    cases none
  | _ => trivial

theorem fitsCheck_sound (h : c.fitsCheck threads move = true) : c.Fits move := by
  obtain ⟨_, h⟩ := Bool.and_eq_true_iff.mp h
  cases move with
  | run i K => exact sparesCheck_sound still h
  | _ => trivial

theorem step_still (h : c.fitsCheck threads move = true) (hs : c.step move = some c') :
    ∀ j, j ∉ threads → c'.pcs j = .idle := by
  intro j out
  have member : move.thread ∈ threads := of_decide_eq_true (Bool.and_eq_true_iff.mp h).1
  have other : j ≠ move.thread := fun e => out (by rw [e]; exact member)
  rw [← still j out]
  cases move with
  | «open» i task | register i filp r | registerMonitor i filp =>
    obtain ⟨_, hs⟩ := Option.ite_none_right_eq_some.mp hs
    cases hs
    exact Function.update_of_ne other _ _
  | run i K =>
    obtain ⟨r, _, rfl⟩ := Option.map_eq_some_iff.mp hs
    exact Function.update_of_ne other _ _

end

def turns (threads : List Nat) (n : Nat) : List LimitMove :=
  (List.replicate n (threads.map fun i => LimitMove.run i (.plenty ⟨i, i⟩))).flatten

/-- Two processes open the driver at the same time; then two threads of the first register a client while the second
becomes the monitor. -/
def crowd : List LimitMove :=
  [.open 1 ⟨1, 1⟩, .open 2 ⟨2, 2⟩] ++ turns [1, 2] 3 ++
    [.register 1 1 .client, .register 3 1 .client, .registerMonitor 2 2] ++ turns [1, 3, 2] 12

theorem limits_kept_crowd : ∃ c, runIf step (fitsCheck [1, 2, 3]) start crowd = some c ∧
    (c.pcs 1).outside = true ∧ (c.pcs 2).outside = true ∧ (c.pcs 3).outside = true ∧ c.drv.members .client 1 = 2 ∧
    (c.drv.gRegTaskList.entries.map fun e => e.2.isMonitor) = [1, 0] ∧ Limits c.drv := by
  have facts : (runIf step (fitsCheck [1, 2, 3]) start crowd).map (fun c => (((c.pcs 1).outside, (c.pcs 2).outside),
      ((c.pcs 3).outside, c.drv.members .client 1), c.drv.gRegTaskList.entries.map fun e => e.2.isMonitor)) =
      some ((true, true), (true, 2), [1, 0]) := by decide
  obtain ⟨c, hc, facts⟩ := Option.map_eq_some_iff.mp facts
  simp only [Prod.mk.injEq] at facts
  obtain ⟨⟨first, second⟩, ⟨third, members⟩, flags⟩ := facts
  have run : Trace (fun c move c' => c.Fits move ∧ c.step move = some c') start crowd c :=
    (runIf_trace hc).within (I := fun c => ∀ j, j ∉ [1, 2, 3] → c.pcs j = .idle)
      (fun a move b still h => ⟨step_still still h.1 h.2, fitsCheck_sound still h.1, h.2⟩) fun _ _ => rfl
  exact ⟨c, hc, first, second, third, members, flags, limits_kept run⟩

/-- A process opens the driver and goes on for some steps. -/
def opens (i pid : Nat) : List LimitMove := .open i ⟨pid, pid⟩ :: List.replicate 3 (.run i (.plenty ⟨pid, pid⟩))

def runs (i n : Nat) : List LimitMove := List.replicate n (.run i (.plenty ⟨i, i⟩))

/-- Two processes ask to be the monitor, each before the other has become it; and a process becomes the monitor while
another of its threads registers a client. -/
theorem limits_overrun :
    (∃ c, runIf step (fun _ _ => true) start (opens 1 1 ++ opens 2 2 ++ [.registerMonitor 1 1, .registerMonitor 2 2] ++
        runs 1 3 ++ runs 2 4 ++ runs 1 1) = some c ∧ (c.pcs 1).outside = true ∧ (c.pcs 2).outside = true ∧
      (c.drv.gRegTaskList.entries.map fun e => e.2.isMonitor) = [1, 1]) ∧
    ∃ c, runIf step (fun _ _ => true) start (opens 1 1 ++ [.registerMonitor 1 1, .register 2 1 .client] ++
        runs 1 3 ++ runs 2 11 ++ runs 1 1) = some c ∧ (c.pcs 1).outside = true ∧ (c.pcs 2).outside = true ∧
      (c.drv.gRegTaskList.entries.map fun e => e.2.isMonitor) = [1] ∧ c.drv.members .client 1 = 1 := by
  have monitors : (runIf step (fun _ _ => true) start (opens 1 1 ++ opens 2 2 ++
      [.registerMonitor 1 1, .registerMonitor 2 2] ++ runs 1 3 ++ runs 2 4 ++ runs 1 1)).map
      (fun c => ((c.pcs 1).outside, (c.pcs 2).outside, c.drv.gRegTaskList.entries.map fun e => e.2.isMonitor)) =
      some (true, true, [1, 1]) := by decide
  have client : (runIf step (fun _ _ => true) start (opens 1 1 ++ [.registerMonitor 1 1, .register 2 1 .client] ++
      runs 1 3 ++ runs 2 11 ++ runs 1 1)).map (fun c => ((c.pcs 1).outside, (c.pcs 2).outside,
        c.drv.gRegTaskList.entries.map fun e => e.2.isMonitor, c.drv.members .client 1)) =
      some (true, true, [1], 1) := by decide
  obtain ⟨c, hc, facts⟩ := Option.map_eq_some_iff.mp monitors
  obtain ⟨d, hd, facts'⟩ := Option.map_eq_some_iff.mp client
  simp only [Prod.mk.injEq] at facts facts'
  exact ⟨⟨c, hc, facts⟩, d, hd, facts'⟩

end Openers

end Ripc
