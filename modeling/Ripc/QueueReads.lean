import Ripc.DriverQueues
import Ripc.DriverRuns

namespace Ripc

inductive QueueOp
  | send (notif : NotificationData)
  | read (K : Kernel) (count : Nat)

/-- The notification that a read has handed to the caller. -/
def Out.delivered : Out → List NotificationData
  | .notif d => [d]
  | _ => []

/-- What the operation hands to the reader, and the state after it. -/
def QueueOp.run (filp t : Ptr) (s : Drv) : QueueOp → Except Fault (List NotificationData × Drv)
  | .send notif => do
    let (_, s) ← regTaskAddNotification s (some t) notif
    .ok ([], s)
  | .read K count => do
    let (r, s) ← ipcRead K s filp count
    .ok (r.out.delivered, s)

def QueueOp.runAll (filp t : Ptr) (s : Drv) : List QueueOp → Except Fault (List NotificationData × Drv)
  | [] => .ok ([], s)
  | op :: ops => do
    let (got, s) ← op.run filp t s
    let (more, s) ← runAll filp t s ops
    .ok (got ++ more, s)

def QueueOp.sent : QueueOp → List NotificationData
  | .send notif => [notif]
  | .read _ _ => []

/-- Every read of the run satisfies `P` in the state in which it is made. -/
def EachRead (P : Drv → Kernel → Nat → Prop) (filp t : Ptr) (s : Drv) : List QueueOp → Prop
  | [] => True
  | op :: ops => (∀ K count, op = .read K count → P s K count) ∧
      ∀ got s', op.run filp t s = .ok (got, s') → EachRead P filp t s' ops

/-- A read that returns an error leaves the queue of the task and its counter alone. -/
def FailsClean (filp t : Ptr) (s : Drv) (K : Kernel) (count : Nat) : Prop :=
  ∀ r s', ipcRead K s filp count = .ok (r, s') → r.ret < 0 → s'.gRegTaskList.get? t = s.gRegTaskList.get? t

/-- What was handed to the reader and what is still queued, one after the other, are what was queued
before and what was sent since; failing reads change nothing. -/
def DeliversAll (filp t : Ptr) (s : Drv) (ops : List QueueOp) : Prop :=
  ∃ got s', QueueOp.runAll filp t s ops = .ok (got, s') ∧
    got ++ s'.queue t = s.queue t ++ ops.flatMap QueueOp.sent ∧ EachRead (FailsClean filp t) filp t s ops

/-- The buffer holds a notification and can be written, unless there is nothing to read. -/
def ReadFits (t : Ptr) (s : Drv) (K : Kernel) (count : Nat) : Prop :=
  s.queue t ≠ [] → sizeofNotificationData ≤ count ∧ K.copyToUser = true

/-- The file is open and its task is no monitor. -/
structure Reader (filp t : Ptr) (s : Drv) (task : RegTask) : Prop where
  file : s.files.get? filp = some t
  live : s.gRegTaskList.get? t = some task
  process : task.isMonitor = 0

section

variable {K : Kernel} {s s' : Drv} {filp t : Ptr} {task : RegTask} {count : Nat}

theorem Reader.queue (h : Reader filp t s task) : s.queue t = task.notifList := by
  simp [Drv.queue, h.live]

def Drv.setTask (s : Drv) (t : Ptr) (f : RegTask → RegTask) : Drv :=
  { s with gRegTaskList := s.gRegTaskList.modify t f }

theorem Reader.setTask (h : Reader filp t s task) {f : RegTask → RegTask}
    (same : (f task).isMonitor = task.isMonitor) : Reader filp t (s.setTask t f) (f task) :=
  ⟨h.file, by simp [Drv.setTask, Table.get?_modify, h.live], same.trans h.process⟩

theorem Reader.send (h : Reader filp t s task) (notif : NotificationData) :
    QueueOp.run filp t s (.send notif) = .ok ([], s.setTask t (RegTask.enqueue notif)) := by
  simp only [QueueOp.run, regTaskAddNotification, deref_of_get? h.live, ok_bind]
  rfl

theorem ipcRead_empty (h : Reader filp t s task) (empty : task.notifList = []) :
    ipcRead K s filp count = .ok (⟨-ENOENT, .nothing⟩, s) := by
  simp only [ipcRead, h.file, deref_of_get? h.live, ok_bind, h.process, ne_eq, not_true_eq_false, if_false, empty]
  rfl

theorem ipcRead_fits (h : Reader filp t s task) {d : NotificationData} {ds : List NotificationData}
    (first : task.notifList = d :: ds) (room : sizeofNotificationData ≤ count) (copy : K.copyToUser = true) :
    ipcRead K s filp count = .ok (⟨sizeofNotificationData, .notif d⟩, s.setTask t RegTask.dequeue) := by
  simp only [ipcRead, h.file, deref_of_get? h.live, ok_bind, h.process, ne_eq, not_true_eq_false, if_false, first,
    Nat.not_lt.mpr room, copy, Bool.not_true, Bool.false_eq_true]
  rfl

theorem ipcRead_loses (h : Reader filp t s task) {d : NotificationData} {ds : List NotificationData}
    (first : task.notifList = d :: ds) (bad : ¬(sizeofNotificationData ≤ count ∧ K.copyToUser = true)) :
    ∃ ret, ret < 0 ∧ ipcRead K s filp count = .ok (⟨ret, .nothing⟩, s.setTask t RegTask.dequeue) := by
  simp only [ipcRead, h.file, deref_of_get? h.live, ok_bind, h.process, ne_eq, not_true_eq_false, if_false, first]
  by_cases room : sizeofNotificationData ≤ count
  · have nocopy : K.copyToUser = false := by simpa [room] using bad
    refine ⟨-EFAULT, by decide, ?_⟩
    simp only [Nat.not_lt.mpr room, if_false, nocopy, Bool.not_false, if_true]
    rfl
  · refine ⟨-EMSGSIZE, by decide, ?_⟩
    simp only [Nat.lt_of_not_le room, if_true]
    rfl

theorem Reader.read (h : Reader filp t s task) (fits : ReadFits t s K count) : ∃ got s' task',
    QueueOp.run filp t s (.read K count) = .ok (got, s') ∧ Reader filp t s' task' ∧
      got ++ s'.queue t = s.queue t ∧ FailsClean filp t s K count := by
  cases hq : task.notifList with
  | nil =>
    have hr : ipcRead K s filp count = .ok (⟨-ENOENT, .nothing⟩, s) := ipcRead_empty h hq
    refine ⟨[], s, task, by simp only [QueueOp.run, hr, ok_bind]; rfl, h, List.nil_append _, ?_⟩
    intro r s' hr' _
    rw [hr] at hr'
    cases hr'
    rfl
  | cons d ds =>
    obtain ⟨room, copy⟩ := fits (by simp [h.queue, hq])
    have hr := ipcRead_fits h hq room copy
    have next : Reader filp t (s.setTask t RegTask.dequeue) task.dequeue := h.setTask rfl
    refine ⟨[d], _, _, by simp only [QueueOp.run, hr, ok_bind]; rfl, next, ?_, ?_⟩
    · rw [next.queue, h.queue, hq]
      simp [RegTask.dequeue, hq]
    · intro r s' hr' failed
      rw [hr] at hr'
      cases hr'
      simp [sizeofNotificationData] at failed

theorem Reader.loses (h : Reader filp t s task) (clean : FailsClean filp t s K count) : ReadFits t s K count := by
  intro pending
  by_contra bad
  rw [h.queue] at pending
  obtain ⟨d, ds, hq⟩ := List.exists_cons_of_ne_nil pending
  obtain ⟨ret, failed, hr⟩ := ipcRead_loses h hq bad
  have same := clean _ _ hr failed
  have next : Reader filp t (s.setTask t RegTask.dequeue) task.dequeue := h.setTask rfl
  rw [next.live, h.live] at same
  have shorter := congrArg RegTask.notifList (Option.some.inj same)
  simp [RegTask.dequeue, hq] at shorter

theorem DeliversAll.cons {op : QueueOp} {ops : List QueueOp} {got : List NotificationData}
    (hop : op.run filp t s = .ok (got, s')) (kept : got ++ s'.queue t = s.queue t ++ op.sent)
    (clean : ∀ K count, op = .read K count → FailsClean filp t s K count) :
    DeliversAll filp t s (op :: ops) ↔ DeliversAll filp t s' ops := by
  have split : ∀ {more final}, QueueOp.runAll filp t s (op :: ops) = .ok (more, final) ↔
      ∃ rest, QueueOp.runAll filp t s' ops = .ok (rest, final) ∧ more = got ++ rest := by
    intro more final
    simp only [QueueOp.runAll, hop, ok_bind]
    constructor
    · intro h
      obtain ⟨⟨rest, last⟩, hrest, h⟩ := bind_eq_ok.mp h
      cases h
      exact ⟨rest, hrest, rfl⟩
    · rintro ⟨rest, hrest, rfl⟩
      rw [hrest]
      rfl
  constructor
  · rintro ⟨more, final, h, all, each⟩
    obtain ⟨rest, hrest, rfl⟩ := split.mp h
    refine ⟨rest, final, hrest, ?_, each.2 got s' hop⟩
    have all : got ++ (rest ++ final.queue t) = got ++ (s'.queue t ++ ops.flatMap QueueOp.sent) := by
      rw [← List.append_assoc, all, ← List.append_assoc, kept, List.append_assoc, List.flatMap_cons]
    exact List.append_cancel_left all
  · rintro ⟨rest, final, hrest, all, each⟩
    refine ⟨got ++ rest, final, split.mpr ⟨rest, hrest, rfl⟩, ?_, clean, fun got' a ha => ?_⟩
    · rw [List.append_assoc, all, ← List.append_assoc, kept, List.append_assoc, List.flatMap_cons]
    · cases hop.symm.trans ha
      exact each

theorem EachRead.cons {P : Drv → Kernel → Nat → Prop} {op : QueueOp} {ops : List QueueOp}
    {got : List NotificationData} (hop : op.run filp t s = .ok (got, s'))
    (first : ∀ K count, op = .read K count → P s K count) :
    EachRead P filp t s (op :: ops) ↔ EachRead P filp t s' ops := by
  refine ⟨fun h => h.2 got s' hop, fun h => ⟨first, fun got' a ha => ?_⟩⟩
  cases hop.symm.trans ha
  exact h

/-- Notifications are delivered exactly once and in order, and failing reads change nothing, exactly when
every read that finds a notification has room for it and can copy it out. -/
theorem notifications_exactlyOnce (h : Reader filp t s task) (ops : List QueueOp) :
    DeliversAll filp t s ops ↔ EachRead (ReadFits t) filp t s ops := by
  induction ops generalizing s task with
  | nil => exact ⟨fun _ => trivial, fun _ => ⟨[], s, rfl, (List.append_nil _).symm, trivial⟩⟩
  | cons op ops ih =>
    cases op with
    | send notif =>
      have next : Reader filp t (s.setTask t (RegTask.enqueue notif)) (task.enqueue notif) := h.setTask rfl
      have hop := h.send notif
      rw [DeliversAll.cons hop (by rw [next.queue, h.queue]; rfl) (by simp), EachRead.cons hop (by simp)]
      exact ih next
    | read K count =>
      have step : ReadFits t s K count →
          (DeliversAll filp t s (.read K count :: ops) ↔ EachRead (ReadFits t) filp t s (.read K count :: ops)) := by
        intro fits
        obtain ⟨got, s', task', hop, next, kept, clean⟩ := h.read fits
        have only : ∀ {P : Drv → Kernel → Nat → Prop}, P s K count →
            ∀ K' count', QueueOp.read K count = .read K' count' → P s K' count' := by
          intro P hp K' count' he
          cases he
          exact hp
        rw [DeliversAll.cons hop (kept.trans (List.append_nil _).symm) (only clean), EachRead.cons hop (only fits)]
        exact ih next
      constructor
      · rintro ⟨got, final, hrun, all, each⟩
        exact (step (h.loses (each.1 K count rfl))).mp ⟨got, final, hrun, all, each⟩
      · intro each
        exact (step (each.1 K count rfl)).mpr each

end

/-- A process that has opened the device is sent a notification and reads it. -/
theorem notifications_exactlyOnce_read : ∃ s, Trace Returns Drv.init [callOf 1 .open] s ∧
    DeliversAll 1 1 s [.send ⟨.client, .newConnection, 2, 1, 0⟩, .read (.plenty ⟨1, 1⟩) 16] := by
  have facts : ∃ s, Trace Returns Drv.init [callOf 1 .open] s ∧ s.files.get? 1 = some 1 ∧
      s.gRegTaskList.get? 1 = some ⟨⟨1, 1⟩, 0, [], 0, 0, 0⟩ := runCalls_check (by decide)
  obtain ⟨s, run, hf, ht⟩ := facts
  have reader : Reader 1 1 s ⟨⟨1, 1⟩, 0, [], 0, 0, 0⟩ := ⟨hf, ht, rfl⟩
  refine ⟨s, run, (notifications_exactlyOnce reader _).mpr ((EachRead.cons (reader.send _) ?_).mpr ?_)⟩
  · intro K count h
    cases h
  · refine ⟨fun K count h _ => ?_, fun _ _ _ => trivial⟩
    cases h
    exact ⟨by decide, rfl⟩

/-- The client connects and maps; the server process reads the announcement with a buffer of 8 bytes. The
announcement is gone. -/
theorem notifications_lost : ∃ s s', Trace Returns Drv.init (connectedRun ++ [callOf 2 (.mmap 2 (packIds 1 0))]) s ∧
    s.queue 1 = [⟨.client, .newConnection, 2, 1, 0⟩] ∧
    ipcRead (.plenty ⟨1, 1⟩) s 1 8 = .ok (⟨-EMSGSIZE, .nothing⟩, s') ∧ s'.queue 1 = [] ∧
    ¬DeliversAll 1 1 s [.read (.plenty ⟨1, 1⟩) 8] := by
  have facts : ∃ s, Trace Returns Drv.init (connectedRun ++ [callOf 2 (.mmap 2 (packIds 1 0))]) s ∧
      s.files.get? 1 = some 1 ∧ s.queue 1 = [⟨.client, .newConnection, 2, 1, 0⟩] ∧
      (s.gRegTaskList.get? 1).map RegTask.isMonitor = some 0 := runCalls_check (by decide)
  obtain ⟨s, run, hf, hq, monitor⟩ := facts
  obtain ⟨task, ht, hm⟩ := Option.map_eq_some_iff.mp monitor
  have reader : Reader 1 1 s task := ⟨hf, ht, hm⟩
  have first : task.notifList = [⟨.client, .newConnection, 2, 1, 0⟩] := reader.queue.symm.trans hq
  have next : Reader 1 1 (s.setTask 1 RegTask.dequeue) task.dequeue := reader.setTask rfl
  refine ⟨s, s.setTask 1 RegTask.dequeue, run, hq, ?_, ?_, ?_⟩
  · simp only [ipcRead, hf, deref_of_get? ht, ok_bind, hm, ne_eq, not_true_eq_false, if_false, first]
    rfl
  · rw [next.queue]
    simp [RegTask.dequeue, first]
  · rintro ⟨got, final, _, _, clean, _⟩
    have room := (reader.loses (clean _ _ rfl) (by simp [hq])).1
    exact absurd room (by decide)

end Ripc
