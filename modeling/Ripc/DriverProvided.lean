import Ripc.ObjectGraph
import Ripc.IdValidity

namespace Ripc

structure Call.Provided (call : Call) (s : Drv) : Prop where
  succeeds : call.kernel.Succeeds
  ids : NoIdError s call

/-- Every server and every client belongs to a task. -/
structure Manned (s : Drv) : Prop where
  servers : ∀ v srv, s.gServersList.get? v = some srv → srv.taskP ≠ none
  clients : ∀ k cli, s.gClientsList.get? k = some cli → cli.taskP ≠ none

variable {s s' : Drv}

theorem Manned.mapClients (h : Manned s) (f : Nat → Client → Client) (same : ∀ k cli, (f k cli).taskP = cli.taskP)
    (servers : s'.gServersList = s.gServersList) (clients : s'.gClientsList = s.gClientsList.mapAt f) : Manned s' := by
  refine ⟨servers ▸ h.servers, fun k cli hk => ?_⟩
  rw [clients, Table.get?_mapAt] at hk
  obtain ⟨cli₀, hk₀, rfl⟩ := Option.map_eq_some_iff.mp hk
  rw [same]
  exact h.clients k cli₀ hk₀

theorem Manned.event {ev : Event} (h : Manned s) (he : s.event ev s') (complete : ev.Complete) : Manned s' := by
  obtain ⟨ok, rfl⟩ := he
  cases ev with
  | addServer v name id owner =>
    obtain ⟨o, rfl⟩ := Option.ne_none_iff_exists'.mp complete
    refine ⟨fun w srv hw => ?_, h.clients⟩
    rw [Drv.apply, Option.elim_some, Drv.attachServer, Table.get?_modify, Drv.addServer, Table.get?_pushBack ok.1] at hw
    split at hw
    next =>
      obtain ⟨old, _, rfl⟩ := Option.map_eq_some_iff.mp hw
      exact Option.some_ne_none _
    next => exact h.servers w srv hw
  | addClient k id owner =>
    obtain ⟨o, rfl⟩ := Option.ne_none_iff_exists'.mp complete
    refine ⟨h.servers, fun k' cli hk => ?_⟩
    rw [Drv.apply, Option.elim_some, Drv.attachClient, Table.get?_modify, Drv.addClient, Table.get?_pushBack ok.1] at hk
    split at hk
    next =>
      obtain ⟨old, _, rfl⟩ := Option.map_eq_some_iff.mp hk
      exact Option.some_ne_none _
    next => exact h.clients k' cli hk
  | dropServer e x id => exact ⟨fun v srv hv => h.servers v srv (Table.get?_erase_some.mp hv).2, h.clients⟩
  | dropClient e x id => exact ⟨h.servers, fun k cli hk => h.clients k cli (Table.get?_erase_some.mp hk).2⟩
  | addPool p shm =>
    rw [Drv.apply, Drv.addPool, takeIds_frame]
    exact ⟨h.servers, h.clients⟩
  | link p k v m e =>
    refine h.mapClients (fun k' cli => if k' = k then { cli with connP := some p } else cli) ?_ rfl rfl
    intro k' cli
    split <;> rfl
  | teardown p ds =>
    refine h.mapClients (fun _ cli => { cli with connP := forget p cli.connP }) (fun _ _ => rfl) ?_ ?_ <;>
      rw [Drv.apply, enqueueAll_eq] <;> rfl
  | _ => exact ⟨h.servers, h.clients⟩

structure Provided (s : Drv) : Prop where
  whole : Whole s
  valid : ValidIds s
  manned : Manned s

theorem Provided.run {calls : List Call}
    (run : Trace (fun s call s' => call.Provided s ∧ Returns s call s') Drv.init calls s) : Provided s := by
  have kept : Whole s ∧ Manned s := by
    refine run.invariant (I := fun s => Whole s ∧ Manned s) ?_ ⟨⟨.init, nofun⟩, nofun, nofun⟩
    rintro s call s' ⟨whole, manned⟩ ⟨provided, r, hr⟩
    refine ⟨whole.step ⟨r, hr⟩ provided.succeeds, ?_⟩
    exact (step_ok whole.wf hr).keeps (fun a ev b may ha he => ha.event he (may.complete provided.succeeds)) manned
  exact ⟨kept.1, (ids_valid (run.mono fun _ _ _ _ h => ⟨h.1.ids, h.2⟩)).1, kept.2⟩

theorem provided_check {p : Drv → Prop} [DecidablePred p] {calls : List Call}
    (plenty : ∀ call ∈ calls, ∃ current, call.kernel = .plenty current)
    (h : (runChecked noIdErrorCheck Drv.init calls).any (fun s => decide (p s)) = true) :
    ∃ s, Trace (fun s call s' => call.Provided s ∧ Returns s call s') Drv.init calls s ∧ p s := by
  obtain ⟨s, run, hp⟩ := runChecked_check noIdErrorCheck_sound h
  refine ⟨s, run.mono fun a call b hcall hs => ⟨⟨?_, hs.1⟩, hs.2⟩, hp⟩
  obtain ⟨current, hk⟩ := plenty call hcall
  exact hk ▸ Kernel.plenty_succeeds current

theorem twoConnections_plenty : ∀ call ∈ twoConnections, ∃ current, call.kernel = .plenty current := by
  intro call hc
  simp only [twoConnections, connectedRun, registeredRun, List.mem_append, List.mem_cons, List.not_mem_nil,
    or_false] at hc
  rcases hc with ((rfl | rfl | rfl | rfl) | rfl) | rfl | rfl | rfl <;> exact ⟨_, rfl⟩

end Ripc
