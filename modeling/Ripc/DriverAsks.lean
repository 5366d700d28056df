import Ripc.DriverIds
import Ripc.Registration

namespace Ripc

/-- The requests to the id generator that a call makes, in their order. -/
inductive Call.Asks (call : Call) (s : Drv) : List IdSite → Prop
  | server {filp t task reg} (op : call.op = .ioctl filp (.registerServer reg)) (file : s.files.get? filp = some t)
      (live : s.gRegTaskList.get? t = some task) (creates : CreatesServer call.kernel s task reg) :
      call.Asks s [.server]
  | client {filp t task} (op : call.op = .ioctl filp .registerClient) (file : s.files.get? filp = some t)
      (live : s.gRegTaskList.get? t = some task) (creates : CreatesClient call.kernel s task) : call.Asks s [.client]
  | pool {filp t con k cli v} (op : call.op = .ioctl filp (.connectToServer con)) (file : s.files.get? filp = some t)
      (copy : call.kernel.copyFromUser = true) (client : findClientById s con.clientId = some k)
      (live : s.gClientsList.get? k = some cli) (unconnected : cli.connP = none)
      (server : findServerByName s con.serverName.toList = .ok (some v)) (full : findFreeSubmem s = none)
      (memory : call.kernel.kmalloc .shm s ≠ none) : call.Asks s poolSites

def Event.AddsNothing (ev : Event) : Prop := ev.newIds = []

variable {s s' : Drv} {call : Call}

theorem step_asks (wf : Wf s) (hs : Returns s call s') : Reaches Drv.event Event.AddsNothing s s' ∨
    ∃ ev s₁ sites, s.event ev s₁ ∧ call.Asks s sites ∧ ev.newIds = call.kernel.answers sites s.gIdGen ∧
      Reaches Drv.event Event.AddsNothing s₁ s' := by
  obtain ⟨r, h⟩ := hs
  have quiet : (∀ ev, call.May s ev → ev.AddsNothing) → Reaches Drv.event Event.AddsNothing s s' :=
    fun sub => (step_ok wf h).mono sub
  obtain ⟨K, op⟩ := call
  cases op with
  | ioctl filp cmd =>
    cases ht : s.files.get? filp with
    | none =>
      simp only [step, ipcIoctl, ht] at h
      cases h
      exact Or.inl .refl
    | some t =>
      obtain ⟨task, htask⟩ := Table.mem_keys.mp (wf.files.live filp t ht)
      have hcmd := h
      simp only [step, ipcIoctl, ht] at hcmd
      cases cmd with
      | registerServer reg =>
        rcases registerServer_ok hcmd htask with ⟨rfl, _⟩ | ⟨can, copy, hf, named, v, owner, hk, ev, _⟩
        · exact Or.inl .refl
        · exact Or.inr ⟨_, s', [.server], ev, .server rfl ht htask ⟨can, copy, hf, named, by simp [hk]⟩, rfl, .refl⟩
      | registerClient =>
        rcases registerClient_ok hcmd htask with ⟨rfl, _⟩ | ⟨can, k, owner, hk, ev, _⟩
        · exact Or.inl .refl
        · exact Or.inr ⟨_, s', [.client], ev, .client rfl ht htask ⟨can, by simp [hk]⟩, rfl, .refl⟩
      | connectToServer con =>
        rcases connectToServer_ok hcmd with ⟨_, rfl⟩ | ⟨k, cli, v, s₁, copy, hk, hcli, hnone, hf, pool, done⟩
        · exact Or.inl .refl
        · have rest : Reaches Drv.event Event.AddsNothing s₁ s' := by
            rcases done with ⟨_, rfl⟩ | ⟨_, p, m, e, _, ev, _⟩
            · exact .refl
            · exact .single ev rfl
          rcases pool with rfl | ⟨p, shm, ev, memory, ids⟩
          · exact Or.inl rest
          · exact Or.inr ⟨_, s₁, poolSites, ev,
              .pool rfl ht copy hk hcli hnone hf ev.1.2.1 (by simp [memory]), ids, rest⟩
      | _ =>
        refine Or.inl (quiet fun ev may => ?_)
        cases ev with
        | addServer v name id owner =>
          obtain ⟨_, _, he, _⟩ := may
          cases he
        | addClient k id owner =>
          obtain ⟨_, he, _⟩ := may
          cases he
        | addPool p shm =>
          obtain ⟨_, _, he⟩ := may
          cases he
        | _ => rfl
  | _ =>
    refine Or.inl (quiet fun ev may => ?_)
    cases ev with
    | addServer v name id owner =>
      obtain ⟨_, _, he, _⟩ := may
      cases he
    | addClient k id owner =>
      obtain ⟨_, he, _⟩ := may
      cases he
    | addPool p shm =>
      obtain ⟨_, _, he⟩ := may
      cases he
    | _ => rfl

theorem idOf_of_addsNothing {a : Holder} {id : Int} (run : Reaches Drv.event Event.AddsNothing s s')
    (ha : s'.idOf a = some id) : s.idOf a = some id := by
  obtain ⟨evs, trace, quiet⟩ := run
  induction trace with
  | nil => exact ha
  | @cons s _ _ ev evs head _ ih =>
    have after := ih ha fun e he => quiet e (List.mem_cons_of_mem ev he)
    rcases idOf_event head after with before | new
    · exact before
    · rw [quiet ev List.mem_cons_self] at new
      exact absurd new List.not_mem_nil

theorem idOf_step {a : Holder} {id : Int} (wf : Wf s) (hs : Returns s call s') (ha : s'.idOf a = some id) :
    s.idOf a = some id ∨ ∃ sites, call.Asks s sites ∧ id ∈ call.kernel.answers sites s.gIdGen := by
  rcases step_asks wf hs with run | ⟨ev, s₁, sites, he, asks, ids, run⟩
  · exact Or.inl (idOf_of_addsNothing run ha)
  · exact (idOf_event he (idOf_of_addsNothing run ha)).imp_right fun new => ⟨sites, asks, ids ▸ new⟩

end Ripc
