import Ripc.DriverFarewell
import Ripc.DriverSteps
import Mathlib.Logic.Relation

namespace Ripc

/-- The calls that can end connections. -/
def Op.Ends : Op → Prop
  | .release _ | .ioctl _ (.clientDisconnect _) | .ioctl _ (.serverDisconnect _)
  | .ioctl _ (.clientUnregister _) | .ioctl _ (.serverUnregister _) => True
  | _ => False

/-- The lesser events, and what it takes for each. -/
def Event.Within (call : Call) (s : Drv) : Event → Prop
  | .teardown _ _ | .dropServer _ _ _ | .dropClient _ _ _ | .closeTask _ _ | .closeFile _ => False
  | .mmaped _ => ∃ f arg, call.op = .mmap f arg
  | .post _ _ d => d.type = .newMessage ∨ ∃ f arg, call.op = .mmap f arg
  | ev => call.May s ev

/-- One change of a call that began in `s`. -/
inductive Call.Change (call : Call) (s a b : Drv) : Prop
  | lesser {ev} (he : a.event ev b) (within : ev.Within call s)
  | deletes {p} (ends : call.op.Ends) (h : a.Deletes call.kernel p b)
  | dropsServer {e x id} (he : a.event (.dropServer e x id) b)
      (whose : (∃ f, call.op = .release f ∧ s.files.get? f = some x.regTask) ∨
        ∃ f arg, call.op = .ioctl f (.serverUnregister arg) ∧ id = unpackId1 arg)
  | dropsClient {e x id} (he : a.event (.dropClient e x id) b)
      (whose : (∃ f, call.op = .release f ∧ s.files.get? f = some x.regTask) ∨
        ∃ f arg, call.op = .ioctl f (.clientUnregister arg) ∧ id = unpackId1 arg)
  | closes {f ev} (op : call.op = .release f) (he : a.event ev b)
      (closing : ev = .closeFile f ∨ ∃ t, ev = .closeTask f t)

abbrev Call.Changes (call : Call) (s : Drv) : Drv → Drv → Prop := Relation.ReflTransGen (call.Change s)

section

variable {call : Call} {s a b : Drv} {r : Reply} {f t v k : Ptr} {ev : Event} {arg : U32}

theorem Call.Change.event (h : call.Change s a b) : ∃ ev, a.event ev b := by
  cases h with
  | lesser he | dropsServer he | dropsClient he | closes _ he => exact ⟨_, he⟩
  | deletes _ h =>
    obtain ⟨ds, _, he, _⟩ := h
    exact ⟨_, he⟩

theorem Call.Changes.keeps {I : Drv → Prop} (h : call.Changes s a b) (pres : ∀ a b, I a → call.Change s a b → I b)
    (ha : I a) : I b := by
  induction h with
  | refl => exact ha
  | tail _ last ih => exact pres _ _ ih last

theorem Call.Changes.wf (h : call.Changes s a b) (wf : Wf a) : Wf b :=
  h.keeps (fun _ _ wf change => by
    obtain ⟨ev, he⟩ := change.event
    exact wf.event he) wf

theorem Call.Changes.lesser (he : a.event ev b) (within : ev.Within call s) : call.Changes s a b :=
  .single (.lesser he within)

theorem serverCleanupConnections_changes (wf : Wf a) (ends : call.op.Ends)
    (h : serverCleanupConnections call.kernel a v = .ok b) : call.Changes s a b := by
  obtain ⟨srv, _, h⟩ := bind_eq_ok.mp h
  rw [serverCleanupLoop_eq] at h
  refine forEachEntry_ok (I := fun _ b => call.Changes s a b) ?_ h .refl
  intro e rest b c changes hc
  obtain ⟨x, _, ⟨_, rfl⟩ | deletes⟩ := serverCleanupConnection_deletes (changes.wf wf) hc
  · exact changes
  · exact changes.tail (.deletes ends deletes)

theorem clientCleanupConnection_changes (wf : Wf a) (ends : call.op.Ends)
    (h : clientCleanupConnection call.kernel a k = .ok b) : call.Changes s a b := by
  obtain ⟨cli, _, ⟨_, rfl⟩ | ⟨p, _, deletes⟩⟩ := clientCleanupConnection_deletes wf h
  · exact .refl
  · exact .single (.deletes ends deletes)

theorem ipcRelease_changes (wf : Wf s) (op : call.op = .release f) (h : ipcRelease call.kernel s f = .ok (r, b)) :
    call.Changes s s b := by
  have ends : call.op.Ends := by
    rw [op]
    trivial
  unfold ipcRelease at h
  split at h
  next =>
    obtain ⟨_, rfl⟩ := returns_ok h
    exact .refl
  next t ht =>
    obtain ⟨s₅, hd, h⟩ := bind_eq_ok.mp h
    obtain ⟨_, rfl⟩ := returns_ok h
    obtain ⟨task, htask⟩ := Table.mem_keys.mp (wf.files.live f t ht)
    rcases regTaskDelete_calls htask hd with ⟨_, rfl⟩ | ⟨_, s₁, s₂, s₃, s₄, ⟨h₁, h₂, h₃, h₄⟩, rfl⟩
    · have he : s₅.event (.closeFile f) { s₅ with files := s₅.files.erase f } := ⟨trivial, rfl⟩
      exact .single (.closes op he (Or.inl rfl))
    · obtain ⟨clean₁, servers⟩ := cleanServers_ok wf h₁
      obtain ⟨clean₂, clients⟩ := cleanClients_ok clean₁.wf h₂
      have so := Releasing.first clean₁ clean₂ servers clients
      have first : call.Changes s s s₁ := by
        refine forEachEntry_ok (I := fun _ a => call.Changes s s a) ?_ h₁ .refl
        intro e rest a b changes hb
        obtain ⟨x, _, hb⟩ := bind_eq_ok.mp hb
        exact changes.trans (serverCleanupConnections_changes (changes.wf wf) ends hb)
      have second : call.Changes s s s₂ := by
        refine forEachEntry_ok (I := fun _ a => call.Changes s s a) ?_ h₂ first
        intro e rest a b changes hb
        obtain ⟨x, _, hb⟩ := bind_eq_ok.mp hb
        exact changes.trans (clientCleanupConnection_changes (changes.wf wf) ends hb)
      obtain ⟨left, third⟩ := forEachEntry_ok (I := fun es a => ServersLeft s t es a ∧ call.Changes s s a)
        (fun e rest a b todo hb => ⟨todo.1.round hb, by
          obtain ⟨x, id, hx, ev⟩ := todo.1.event hb
          exact todo.2.tail (.dropsServer ev (Or.inl ⟨f, op, hx ▸ ht⟩))⟩) h₃ ⟨.first so, second⟩
      obtain ⟨done, fourth⟩ := forEachEntry_ok (I := fun es a => ClientsLeft s t es a ∧ call.Changes s s a)
        (fun e rest a b todo hb => ⟨todo.1.round hb, by
          obtain ⟨x, id, hx, ev⟩ := todo.1.event hb
          exact todo.2.tail (.dropsClient ev (Or.inl ⟨f, op, hx ▸ ht⟩))⟩) h₄ ⟨.first left, third⟩
      have he : s₄.event (.closeTask f t) (s₄.closeTask f t) := by
        refine ⟨⟨?_, done.noServers, ?_⟩, rfl⟩
        · exact done.so.files ▸ ht
        · exact fun e x hx hxt => List.not_mem_nil ((done.left e).mpr ⟨x, hx, hxt⟩)
      exact fourth.tail (.closes op he (Or.inr ⟨t, rfl⟩))

theorem serverUnregister_changes (wf : Wf s) (op : call.op = .ioctl f (.serverUnregister arg))
    (h : serverUnregister call.kernel s arg = .ok (r, b)) : call.Changes s s b := by
  have ends : call.op.Ends := by
    rw [op]
    trivial
  unfold serverUnregister at h
  split at h
  next =>
    obtain ⟨_, rfl⟩ := returns_ok h
    exact .refl
  next v hv =>
    obtain ⟨s₁, hc, h⟩ := bind_eq_ok.mp h
    obtain ⟨clean, unused⟩ := serverCleanupConnections_ok hc wf
    obtain ⟨srv, hread, h⟩ := bind_eq_ok.mp h
    obtain ⟨s₂, hd, h⟩ := bind_eq_ok.mp h
    obtain ⟨_, rfl⟩ := returns_ok h
    have first : call.Changes s s s₁ := serverCleanupConnections_changes wf ends hc
    have hsrv := deref_some hread
    obtain ⟨named, hnamed, hid, _⟩ := findServerById_some hv
    rw [← clean.torn.servers, hsrv] at hnamed
    cases hnamed
    rcases dropUnused_ok clean.wf hsrv unused hd with ⟨_, rfl⟩ | ⟨e, x, ev, _⟩
    · exact first
    · exact first.tail (.dropsServer ev (Or.inr ⟨f, arg, op, hid⟩))

theorem connectToServer_changes {con : ConnectToServer} (op : call.op = .ioctl f (.connectToServer con))
    (h : connectToServer call.kernel s con = .ok (r, b)) : call.Changes s s b := by
  rcases connectToServer_ok h with ⟨_, rfl⟩ | ⟨k, cli, v, s₁, copy, hk, hcli, hnone, hf, pool, done⟩
  · exact .refl
  have first : call.Changes s s s₁ := by
    rcases pool with rfl | ⟨p, shm, ev, _⟩
    · exact .refl
    · exact .lesser ev ⟨f, con, op⟩
  rcases done with ⟨_, rfl⟩ | ⟨_, p, m, e, hp, ev, complete⟩
  · exact first
  · refine first.tail (.lesser ev ⟨f, con, op, copy, hk, ⟨cli, hcli, hnone⟩, hf, ?_, complete⟩)
    rcases pool with rfl | ⟨q, shm, ⟨⟨_, full, _⟩, _⟩, _⟩
    · exact fun _ => hp
    · exact fun free => absurd full free

theorem ipcIoctl_changes {cmd : Cmd} (wf : Wf s) (op : call.op = .ioctl f cmd)
    (h : ipcIoctl call.kernel s f cmd = .ok (r, b)) : call.Changes s s b := by
  unfold ipcIoctl at h
  split at h
  next =>
    obtain ⟨_, rfl⟩ := returns_ok h
    exact .refl
  next t ht =>
    obtain ⟨task, htask⟩ := Table.mem_keys.mp (wf.files.live f t ht)
    cases cmd with
    | registerServer reg =>
      rcases registerServer_ok h htask with ⟨rfl, _⟩ | ⟨_, _, hf, _, v, owner, _, ev, reg'⟩
      · exact .refl
      · exact .lesser ev ⟨f, reg, op, rfl, hf, fun ok => reg'.owner ok (ok.kmalloc _ _)⟩
    | registerClient =>
      rcases registerClient_ok h htask with ⟨rfl, _⟩ | ⟨_, k, owner, _, ev, reg'⟩
      · exact .refl
      · exact .lesser ev ⟨f, op, fun ok => reg'.owner ok (ok.kmalloc _ _)⟩
    | connectToServer con => exact connectToServer_changes op h
    | clientEndWriting arg =>
      rcases clientEndWriting_ok h with ⟨_, rfl⟩ | ⟨_, k, cli, p, t, d, _, _, _, ev, message, _⟩
      · exact .refl
      · exact .lesser ev (Or.inl message)
    | serverEndWriting arg =>
      rcases serverEndWriting_ok h with ⟨_, rfl⟩ | ⟨_, e, x, t, d, _, ev, message, _⟩
      · exact .refl
      · exact .lesser ev (Or.inl message)
    | clientDisconnect arg =>
      rcases clientDisconnect_deletes wf h with rfl | ⟨p, deletes⟩
      · exact .refl
      · exact .single (.deletes (op ▸ trivial) deletes)
    | serverDisconnect arg =>
      rcases serverDisconnect_deletes wf h with rfl | ⟨p, deletes⟩
      · exact .refl
      · exact .single (.deletes (op ▸ trivial) deletes)
    | clientUnregister arg =>
      rcases clientUnregister_deletes wf h with rfl | ⟨p, s₁, deletes, done⟩
      · exact .refl
      · have first : call.Changes s s s₁ := .single (.deletes (op ▸ trivial) deletes)
        rcases done with rfl | ⟨e, x, ev⟩
        · exact first
        · exact first.tail (.dropsClient ev (Or.inr ⟨f, arg, op, rfl⟩))
    | serverUnregister arg => exact serverUnregister_changes wf op h
    | registerMonitor =>
      obtain ⟨⟨ret, s₁⟩, hm, h⟩ := bind_eq_ok.mp h
      obtain ⟨_, rfl⟩ := returns_ok h
      rcases regTaskSetMonitor_ok hm with rfl | ⟨ev, _⟩
      · exact .refl
      · exact .lesser ev trivial
    | unknown =>
      obtain ⟨_, rfl⟩ := returns_ok h
      exact .refl

/-- Whatever a call does, it is a sequence of its changes. -/
theorem step_changes (wf : Wf s) (hs : step s call = .ok (r, b)) : call.Changes s s b := by
  unfold step at hs
  split at hs
  next op =>
    rcases ipcOpen_ok hs with rfl | ⟨f, t, _, ev, _⟩
    · exact .refl
    · exact .lesser ev ⟨op, rfl⟩
  next f cmd op => exact ipcIoctl_changes wf op hs
  next f arg op =>
    split at hs
    next =>
      refine (ipcMmap_ok (P := fun ev => ev.Within call s) hs (fun _ _ _ _ => Or.inr ⟨f, arg, op⟩)
        fun _ => ⟨f, arg, op⟩).1.keeps (I := fun a => call.Changes s s a) ?_ .refl
      exact fun a ev b within changes he => changes.tail (.lesser he within)
    next =>
      obtain ⟨_, rfl⟩ := returns_ok hs
      exact .refl
  next f count op =>
    rcases ipcRead_ok hs with rfl | ⟨t, ht, ev⟩
    · exact .refl
    · exact .lesser ev ⟨f, count, op, ht⟩
  next f op => exact ipcRelease_changes wf op hs

end

end Ripc
