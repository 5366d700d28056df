import Ripc.DriverLost
import Ripc.DriverRuns

namespace Ripc

/-- The condition on a call: where it is an ioctl, its command is safe in the state it finds. -/
def Call.Safe (call : Call) (s : Drv) : Prop :=
  ∀ filp cmd t task, call.op = .ioctl filp cmd → s.files.get? filp = some t →
    s.gRegTaskList.get? t = some task → IoctlSafe call.kernel s task cmd

/-- In a run whose ioctl calls are safe no ioctl call, the next one included, follows a null pointer
or reads past its argument. -/
theorem ipcIoctl_safe {calls : List Call} {s : Drv}
    (run : Trace (fun s call s' => call.Safe s ∧ Returns s call s') Drv.init calls s) {K : Kernel}
    {filp : Ptr} {cmd : Cmd} (safe : (Call.mk K (.ioctl filp cmd)).Safe s) :
    ipcIoctl K s filp cmd ≠ .error .nullDeref ∧ ipcIoctl K s filp cmd ≠ .error .overRead := by
  have wf : Wf s := run.invariant (fun _ _ _ wf hs => Wf.step wf hs.2) .init
  have only : ∀ e, ipcIoctl K s filp cmd = .error e → e = .useAfterFree := by
    intro e h
    cases ht : s.files.get? filp with
    | none =>
      simp only [ipcIoctl, ht] at h
      cases h
    | some t =>
      obtain ⟨task, htask⟩ := Table.mem_keys.mp (wf.files.live filp t ht)
      rcases ipcIoctl_error wf ht htask h with ⟨he, _⟩ | ⟨_, unsafe'⟩
      · exact he
      · exact absurd (safe filp cmd t task rfl ht htask) unsafe'
  exact ⟨fun h => Fault.noConfusion (only _ h), fun h => Fault.noConfusion (only _ h)⟩

/-- A server and a client are registered, and the client connects. -/
theorem ipcIoctl_safe_connect : ∃ s, Trace (fun s call s' => call.Safe s ∧ Returns s call s') Drv.init
    registeredRun s ∧ ipcIoctl (.plenty ⟨2, 2⟩) s 2 (.connectToServer ⟨1, shortName 65⟩) ≠ .error .nullDeref ∧
    ipcIoctl (.plenty ⟨2, 2⟩) s 2 (.connectToServer ⟨1, shortName 65⟩) ≠ .error .overRead := by
  have found : (runCalls Drv.init registeredRun).map (fun s => findClientById s 1) = some (some 1) := by decide
  obtain ⟨s, hs, hk⟩ := Option.map_eq_some_iff.mp found
  have run : Trace (fun s call s' => call.Safe s ∧ Returns s call s') Drv.init registeredRun s := by
    refine (runCalls_trace hs).mono fun a call b hc hr => ⟨?_, hr⟩
    intro filp cmd t task op _ _
    simp only [registeredRun, callOf, List.mem_cons, List.not_mem_nil, or_false] at hc
    rcases hc with rfl | rfl | rfl | rfl
    · cases op
    · cases op
    · cases op
      exact fun _ _ _ => ⟨⟨by decide, by decide⟩, nofun⟩
    · cases op
      exact fun _ => nofun
  refine ⟨s, run, ipcIoctl_safe run ?_⟩
  intro filp cmd t task op _ _
  cases op
  obtain ⟨cli, hcli, _⟩ := findClientById_some hk
  exact fun _ => ⟨1, cli, hk, hcli, fun _ => ⟨fun _ => by decide, fun _ _ _ _ => nofun⟩⟩

def faultOf {α : Type} : Except Fault α → Option Fault
  | .error e => some e
  | .ok _ => none

theorem faultOf_eq_some {α : Type} {x : Except Fault α} {e : Fault} : faultOf x = some e ↔ x = .error e := by
  cases x <;> simp [faultOf]

/-- A process that has only opened the device connects a client that does not exist, registers a
server with an empty name, or one whose name and id fields hold no zero byte. -/
theorem ipcIoctl_unprivileged_faults : ∃ s, Trace Returns Drv.init [callOf 1 .open] s ∧
    ipcIoctl (.plenty ⟨1, 1⟩) s 1 (.connectToServer ⟨0, shortName 65⟩) = .error .nullDeref ∧
    ipcIoctl (.plenty ⟨1, 1⟩) s 1 (.registerServer ⟨shortName 0, Vector.replicate 4 0⟩) =
      .error .nullDeref ∧
    ipcIoctl (.plenty ⟨1, 1⟩) s 1 (.registerServer ⟨Vector.replicate 64 65, Vector.replicate 4 65⟩) =
      .error .overRead := by
  have facts : (runCalls Drv.init [callOf 1 .open]).map (fun s =>
      (faultOf (ipcIoctl (.plenty ⟨1, 1⟩) s 1 (.connectToServer ⟨0, shortName 65⟩)),
        faultOf (ipcIoctl (.plenty ⟨1, 1⟩) s 1 (.registerServer ⟨shortName 0, Vector.replicate 4 0⟩)),
        faultOf (ipcIoctl (.plenty ⟨1, 1⟩) s 1
          (.registerServer ⟨Vector.replicate 64 65, Vector.replicate 4 65⟩)))) =
      some (some .nullDeref, some .nullDeref, some .overRead) := by decide
  obtain ⟨s, hs, hf⟩ := Option.map_eq_some_iff.mp facts
  simp only [Prod.mk.injEq, faultOf_eq_some] at hf
  exact ⟨s, runCalls_trace hs, hf⟩

end Ripc
