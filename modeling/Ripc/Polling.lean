import Ripc.QueueReads
import Ripc.SnapshotContents

namespace Ripc

def pollReadable : U32 := 0x001#32 ||| 0x040#32

def ipcPoll (s : Drv) (filp : Ptr) : Except Fault U32 :=
  match s.files.get? filp with
  -- an error number as a mask of events
  | none => .ok (BitVec.ofInt 32 (-ENOENT))
  | some regTask => do
    let t ← deref s.gRegTaskList (some regTask)
    .ok (if t.notifList.isEmpty then 0 else pollReadable)

/-- The call is about another file, or neither reads nor closes it. -/
def Op.Leaves (filp : Ptr) : Op → Prop
  | .read f _ | .release f => f ≠ filp
  | _ => True

variable {s s' : Drv} {filp t : Ptr} {call : Call} {calls : List Call} {K : Kernel} {count : Nat}

theorem ipcPoll_open (wf : Wf s) (hf : s.files.get? filp = some t) :
    ipcPoll s filp = .ok (if (s.queue t).isEmpty then 0 else pollReadable) := by
  obtain ⟨task, ht⟩ := Table.mem_keys.mp (wf.files.live filp t hf)
  simp only [ipcPoll, hf, deref_of_get? ht, ok_bind, Drv.queue, ht, Option.elim_some]

theorem readable_iff (wf : Wf s) (hf : s.files.get? filp = some t) :
    ipcPoll s filp = .ok pollReadable ↔ s.queue t ≠ [] := by
  rw [ipcPoll_open wf hf]
  cases s.queue t with
  | nil => exact iff_of_false (fun h => absurd (Except.ok.inj h) (by decide)) (fun h => h rfl)
  | cons d ds => simp

/-- Such a call leaves the queue of the file's task as it was, or makes it longer. -/
theorem Op.Leaves.event {ev : Event} (wf : Wf s) (hf : s.files.get? filp = some t) (leaves : call.op.Leaves filp)
    (may : call.May s ev) : ev.Leaves filp t := by
  obtain ⟨K, op⟩ := call
  cases ev with
  | closeTask f u | closeFile f =>
    cases may
    exact leaves
  | dequeue u =>
    obtain ⟨f, count, hop, hu⟩ := may
    cases hop
    rintro rfl
    exact leaves (wf.files.own f filp u hu hf)
  | _ => trivial

theorem queue_left (wf : Wf s) (hf : s.files.get? filp = some t) (leaves : call.op.Leaves filp)
    (hs : Returns s call s') : s'.files.get? filp = some t ∧ s.queue t <+: s'.queue t := by
  obtain ⟨r, hr⟩ := hs
  refine ((step_ok wf hr).keeps (I := fun a => Wf a ∧ a.files.get? filp = some t ∧ s.queue t <+: a.queue t)
    (fun a ev b may ha he => ?_) ⟨wf, hf, List.prefix_rfl⟩).2
  obtain ⟨file, more⟩ := queue_event ha.1 ha.2.1 he (leaves.event wf hf may)
  exact ⟨ha.1.event he, file, ha.2.2.trans (more ▸ List.prefix_append _ _)⟩

theorem queue_run (wf : Wf s) (hf : s.files.get? filp = some t)
    (run : Trace (fun s call s' => call.op.Leaves filp ∧ Returns s call s') s calls s') :
    Wf s' ∧ s'.files.get? filp = some t ∧ s.queue t <+: s'.queue t := by
  refine run.invariant (I := fun a => Wf a ∧ a.files.get? filp = some t ∧ s.queue t <+: a.queue t)
    (fun a call b h hs => ?_) ⟨wf, hf, List.prefix_rfl⟩
  obtain ⟨file, more⟩ := queue_left h.1 h.2.1 hs.1 hs.2
  exact ⟨h.1.step hs.2, file, h.2.2.trans more⟩

theorem ipcRead_finds {K : Kernel} {task : RegTask} {d : NotificationData} {ds : List NotificationData} {count : Nat}
    (reader : Reader filp t s task) (hq : task.notifList = d :: ds) :
    ipcRead K s filp count ≠ .ok (⟨-ENOENT, .nothing⟩, s) := by
  simp only [ipcRead, reader.file, deref_of_get? reader.live, ok_bind, reader.process, ne_eq, not_true_eq_false,
    if_false, hq]
  intro h
  split at h
  next => cases h
  next =>
    split at h <;> cases h

/-- `ipc_poll` and `ipc_read` agree however long a process waits in between, whatever all others do in the meantime:
what was there to read is read, in its order, and no read finds anything where `poll` still sees nothing. -/
theorem poll_read (reached : Reachable s) (hf : s.files.get? filp = some t)
    (run : Trace (fun s call s' => call.op.Leaves filp ∧ Returns s call s') s calls s') (general : ¬s'.Monitors t)
    (K : Kernel) (count : Nat) :
    (ipcPoll s filp = .ok pollReadable → sizeofNotificationData ≤ count → K.copyToUser = true →
      ∃ d s'', (s.queue t).head? = some d ∧
        ipcRead K s' filp count = .ok (⟨sizeofNotificationData, .notif d⟩, s'') ∧ s''.queue t = (s'.queue t).tail) ∧
    (ipcPoll s' filp = .ok 0 ↔ ipcRead K s' filp count = .ok (⟨-ENOENT, .nothing⟩, s')) := by
  obtain ⟨wf', hf', more⟩ := queue_run reached.wf hf run
  obtain ⟨task, ht⟩ := Table.mem_keys.mp (wf'.files.live filp t hf')
  have process : task.isMonitor = 0 := by
    by_contra monitor
    exact general ⟨task, ht, monitor⟩
  have reader : Reader filp t s' task := ⟨hf', ht, process⟩
  have queue := reader.queue
  constructor
  · intro readable room copy
    obtain ⟨d, ds, hd⟩ := List.exists_cons_of_ne_nil ((readable_iff reached.wf hf).mp readable)
    obtain ⟨later, grown⟩ := more
    rw [hd, List.cons_append] at grown
    have first : task.notifList = d :: (ds ++ later) := by rw [← queue, grown]
    refine ⟨d, _, by rw [hd]; rfl, ipcRead_fits reader first room copy, ?_⟩
    have after : Reader filp t (s'.setTask t RegTask.dequeue) task.dequeue := reader.setTask rfl
    rw [after.queue, queue]
    rfl
  · rw [ipcPoll_open wf' hf', queue]
    cases hq : task.notifList with
    | nil => simp [ipcRead_empty reader hq]
    | cons d ds =>
      refine iff_of_false (fun h => absurd (show pollReadable = 0 from Except.ok.inj h) (by decide)) ?_
      exact ipcRead_finds reader hq

/-- Between the server's `poll` and its read a third process opens the device and the client asks for the memory once
more. -/
theorem poll_read_mapped : ∃ s s' s'', Trace Returns Drv.init (connectedRun ++ [callOf 2 (.mmap 2 (packIds 1 0))]) s ∧
    Trace Returns s [callOf 3 .open, callOf 2 (.mmap 2 (packIds 1 0))] s' ∧
    ipcRead (.plenty ⟨1, 1⟩) s' 1 16 = .ok (⟨16, .notif ⟨.client, .newConnection, 2, 1, 0⟩⟩, s'') := by
  have facts : ∃ s, Trace Returns Drv.init (connectedRun ++ [callOf 2 (.mmap 2 (packIds 1 0))]) s ∧
      s.files.get? 1 = some 1 ∧ s.queue 1 = [⟨.client, .newConnection, 2, 1, 0⟩] ∧
      ((runCalls s [callOf 3 .open, callOf 2 (.mmap 2 (packIds 1 0))]).map fun s' =>
        (s'.gRegTaskList.get? 1).map RegTask.isMonitor) = some (some 0) := runCalls_check (by decide)
  obtain ⟨s, run, hf, hq, later⟩ := facts
  obtain ⟨s', hs', process⟩ := Option.map_eq_some_iff.mp later
  have general : ¬s'.Monitors 1 := by
    rintro ⟨task, ht, monitor⟩
    rw [ht] at process
    exact monitor (Option.some.inj process)
  have between := runCalls_trace hs'
  have readable : ipcPoll s 1 = .ok pollReadable := by
    have wf := Reachable.wf ⟨_, run⟩
    rw [ipcPoll_open wf hf, hq]
    rfl
  have leaves : ∀ call ∈ [callOf 3 .open, callOf 2 (.mmap 2 (packIds 1 0))], call.op.Leaves 1 := by
    intro call hc
    simp only [List.mem_cons, List.not_mem_nil, or_false] at hc
    rcases hc with rfl | rfl <;> trivial
  have inside := between.mono fun _ call _ hc hs => And.intro (leaves call hc) hs
  obtain ⟨d, s'', first, read, -⟩ := (poll_read ⟨_, run⟩ hf inside general (.plenty ⟨1, 1⟩) 16).1 readable
    (by decide) rfl
  rw [hq] at first
  cases first
  exact ⟨s, s', s'', run, between, read⟩

end Ripc
