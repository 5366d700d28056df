import Ripc.DriverIds
import Ripc.Tally

namespace Ripc

def Counted (s : Drv) : Prop :=
  ∀ t n, (s.gRegTaskList.get? t).map RegTask.numOfClients = some n → n = (s.clientsOf t).length

/-- Every task counts its servers and its clients. -/
structure Tallied (s : Drv) : Prop where
  servers : Tally RegTask.numOfServers ServersList.regTask s.gRegTaskList s.serversEntries
  clients : Tally RegTask.numOfClients ClientsList.regTask s.gRegTaskList s.clientsEntries

variable {s s' : Drv} {ev : Event}

theorem Tally.postAll {β : Type} {num : RegTask → Int} {owner : β → Nat} {tasks : Table RegTask} {members : Table β}
    (h : Tally num owner tasks members) (same : ∀ d t, num (RegTask.enqueue d t) = num t)
    (ds : List (Ptr × NotificationData)) : Tally num owner (Ripc.postAll tasks ds) members := by
  induction ds generalizing tasks with
  | nil => exact h
  | cons d ds ih => exact ih (h.modify (same d.2))

theorem Tallied.event (tallied : Tallied s) (wf : Wf s) (he : s.event ev s') : Tallied s' := by
  obtain ⟨servers, clients⟩ := tallied
  obtain ⟨ok, rfl⟩ := he
  cases ev with
  | openTask f u task =>
    exact ⟨servers.push_owner ok.2 rfl wf.servers.live, clients.push_owner ok.2 rfl wf.clients.live⟩
  | closeTask f u => exact ⟨servers.erase_owner, clients.erase_owner⟩
  | setMonitor u | dequeue u | post _ u =>
    exact ⟨servers.modify (by intro _; rfl), clients.modify (by intro _; rfl)⟩
  | addServer v name i owner =>
    cases owner with
    | none => exact ⟨servers, clients⟩
    | some o =>
      have joined := servers.push_member (b := ⟨o.2, v⟩) (ok.2.2 o rfl).1 (f := fun t =>
        { t with numOfServers := t.numOfServers + 1 }) (by intro _; rfl)
      exact ⟨joined, clients.modify (by intro _; rfl)⟩
  | addClient k i owner =>
    cases owner with
    | none => exact ⟨servers, clients⟩
    | some o =>
      have joined := clients.push_member (b := ⟨o.2, k⟩) (ok.2.2 o rfl).1 (f := fun t =>
        { t with numOfClients := t.numOfClients + 1 }) (by intro _; rfl)
      exact ⟨servers.modify (by intro _; rfl), joined⟩
  | dropServer e x i => exact ⟨servers.erase_member ok.1 (by intro _; rfl), clients.modify (by intro _; rfl)⟩
  | dropClient e x i => exact ⟨servers.modify (by intro _; rfl), clients.erase_member ok.1 (by intro _; rfl)⟩
  | addPool p shm =>
    rw [Drv.apply, Drv.addPool, takeIds_frame]
    exact ⟨servers, clients⟩
  | teardown p ds =>
    rw [Drv.apply, enqueueAll_eq]
    exact ⟨servers.postAll (by intro _ _; rfl) ds, clients.postAll (by intro _ _; rfl) ds⟩
  | closeFile | link | mmaped => exact ⟨servers, clients⟩

theorem Reachable.tallied (h : Reachable s) : Tallied s := by
  obtain ⟨calls, run⟩ := h
  refine (run.invariant (I := fun s => Wf s ∧ Tallied s) (fun a call b h hs => ⟨h.1.step hs, ?_⟩)
    ⟨.init, .empty, .empty⟩).2
  obtain ⟨r, hr⟩ := hs
  exact ((step_ok h.1 hr).keeps (I := fun s => Wf s ∧ Tallied s)
    (fun _ _ _ _ h ev => ⟨h.1.event ev, h.2.event h.1 ev⟩) h).2

theorem Reachable.counted (h : Reachable s) : Counted s := h.tallied.clients

end Ripc
