import Ripc.EntityManager
import Ripc.IdPack

namespace Ripc

namespace Process

variable {p p' : Process} {call : Call} {r : Reply} {id : Int} {peer : Option Int}

/-- What a server's notification for the client `id` says; `peer` is the server that can send messages over
the client's last connection. -/
structure Heard (p : Process) (id : Int) (peer : Option Int) (x : NotificationData × Nat) : Prop where
  current : x.2 = p.connections id
  torn : x.1.type = .remoteDisconnect → ¬p.drv.Connected id
  sender : x.1.type = .newMessage → peer = some x.1.senderId

/-- All that is queued for the client is about its last connection. -/
structure Known (p : Process) (id : Int) (peer : Option Int) : Prop where
  heard : ∀ x ∈ p.queue, x.1.whoSends = .server → x.1.reciverId = id → p.Heard id peer x
  peer : ∀ q, p.drv.Linked id q → ∀ a, peer = some a ↔ p.drv.Serves q a

/-- The process beside the driver. -/
structure Aligned (p : Process) : Prop where
  orderly : Orderly p.drv
  file : ∃ t, p.drv.files.get? p.fd = some t
  queue : p.queue.map Prod.fst = p.drv.queueOf p.fd

theorem driver_ok (h : p.driver call = some (r, p')) :
    step p.drv call = .ok (r, p'.drv) ∧ p' = p.after call r p'.drv := by
  unfold driver at h
  split at h
  next => cases h
  next hs => cases h; exact ⟨hs, rfl⟩

theorem driver_frame (h : p.driver call = some (r, p')) :
    p'.clients = p.clients ∧ p'.fd = p.fd := by
  rw [(driver_ok h).2]
  exact ⟨rfl, rfl⟩

theorem queueOf_eq {s : Drv} {fd t : Ptr} (h : s.files.get? fd = some t) : s.queueOf fd = s.queue t := by
  simp [Drv.queueOf, h]

theorem queue_added {new : List NotificationData} (h : p.driver call = some (r, p'))
    (hq : p'.drv.queueOf p.fd = p.drv.queueOf p.fd ++ new) :
    p'.queue = p.queue ++ new.map fun d => (d, p'.connections d.reciverId) := by
  obtain ⟨_, hp⟩ := driver_ok h
  rw [hp]
  simp only [after, hq, List.length_append, Nat.sub_eq_zero_of_le (Nat.le_add_right _ _), List.drop_zero,
    List.drop_left]

theorem queue_taken {d : NotificationData} (aligned : p.Aligned) (h : p.driver call = some (r, p'))
    (hq : p.drv.queueOf p.fd = d :: p'.drv.queueOf p.fd) : ∃ n, p.queue = (d, n) :: p'.queue := by
  obtain ⟨_, hp⟩ := driver_ok h
  have same := aligned.queue
  rw [hq] at same
  obtain ⟨⟨d', n⟩, rest, hqueue, hd, hrest⟩ := List.map_eq_cons_iff.mp same
  cases hd
  refine ⟨n, ?_⟩
  rw [hp]
  simp [after, hq, hqueue, List.drop_eq_nil_of_le]

theorem driver_queue (aligned : p.Aligned) (h0 : 0 ≤ id) (stays : call.op ≠ .release p.fd)
    (h : p.driver call = some (r, p')) (other : call.connected r ≠ some id) :
    p'.Aligned ∧ p'.fd = p.fd ∧ Steady p.drv p'.drv id ∧
      ((∃ new : List NotificationData, p'.queue = p.queue ++ new.map (fun d => (d, p'.connections d.reciverId)) ∧
        ∀ d ∈ new, d.whoSends = .server → d.reciverId = id → Told p.drv p'.drv id d) ∨
      ∃ x, p.queue = x :: p'.queue) := by
  obtain ⟨hs, hp⟩ := driver_ok h
  have fd : p'.fd = p.fd := by rw [hp]; rfl
  obtain ⟨t, hf⟩ := aligned.file
  have spares : ∀ f con, call.op = .ioctl f (.connectToServer con) → con.clientId = id → r.ret ≠ 0 := by
    intro f con hop hid ret
    exact other (by simp [Call.connected, hop, ret, hid])
  rcases step_queue aligned.orderly h0 hf hs stays spares with ⟨new, quiet⟩ | taken
  · have hq : p'.drv.queueOf p.fd = p.drv.queueOf p.fd ++ new := by
      rw [queueOf_eq quiet.file, queueOf_eq hf, quiet.queue]
    have added := queue_added h hq
    refine ⟨⟨quiet.orderly, ⟨t, fd ▸ quiet.file⟩, ?_⟩, fd, quiet.steady, Or.inl ⟨new, added, quiet.told⟩⟩
    rw [added, fd, hq, List.map_append, aligned.queue, List.map_map]
    simp [Function.comp_def]
  · obtain ⟨d, hd⟩ := taken.queue
    rw [← queueOf_eq hf, ← queueOf_eq taken.file] at hd
    obtain ⟨n, hn⟩ := queue_taken aligned h hd
    refine ⟨⟨taken.orderly, ⟨t, fd ▸ taken.file⟩, ?_⟩, fd, taken.steady, Or.inr ⟨(d, n), hn⟩⟩
    have same := aligned.queue
    rw [hn, hd, List.map_cons] at same
    rw [fd]
    exact (List.cons.inj same).2

theorem connections_kept (h : p.driver call = some (r, p')) (other : call.connected r ≠ some id) :
    p'.connections id = p.connections id := by
  obtain ⟨_, hp⟩ := driver_ok h
  rw [hp]
  simp [after, other]

theorem Known.driver (known : p.Known id peer) (aligned : p.Aligned) (h0 : 0 ≤ id)
    (stays : call.op ≠ .release p.fd) (h : p.driver call = some (r, p'))
    (other : call.connected r ≠ some id) : p'.Known id peer := by
  obtain ⟨_, _, steady, queue⟩ := driver_queue aligned h0 stays h other
  have count := connections_kept h other
  have old : ∀ x, p.Heard id peer x → p'.Heard id peer x := fun x heard =>
    ⟨heard.current.trans count.symm, fun ht hc => heard.torn ht (steady.connected hc), heard.sender⟩
  refine ⟨fun x hx server receiver => ?_, fun q hq a => ?_⟩
  · rcases queue with ⟨new, hnew, told⟩ | ⟨y, hy⟩
    · rw [hnew] at hx
      rcases List.mem_append.mp hx with hx | hx
      · exact old x (known.heard x hx server receiver)
      · obtain ⟨d, hd, rfl⟩ := List.mem_map.mp hx
        obtain ⟨torn, sender⟩ := told d hd server receiver
        refine ⟨by rw [← receiver], torn, fun hm => ?_⟩
        obtain ⟨q, hq, hserves⟩ := sender hm
        exact (known.peer q hq d.senderId).mpr hserves
    · exact old x (known.heard x (hy ▸ List.mem_cons_of_mem y hx) server receiver)
  · exact (known.peer q (steady.linked q hq) a).trans (steady.serves q a hq).symm

/-- Nothing is queued for the client. -/
def Unheard (p : Process) (id : Int) : Prop :=
  ∀ x ∈ p.queue, x.1.whoSends = .server → x.1.reciverId ≠ id

theorem known_of_connected (aligned : p.Aligned) (h0 : 0 ≤ id) (h : p.driver call = some (r, p'))
    (connected : call.connected r = some id) (unheard : p.Unheard id) : ∃ peer, p'.Known id peer := by
  obtain ⟨hs, _⟩ := driver_ok h
  obtain ⟨t, hf⟩ := aligned.file
  obtain ⟨K, op⟩ := call
  simp only [Call.connected] at connected
  split at connected
  next f con =>
    simp only [step, ipcIoctl] at hs
    split at hs
    next =>
      obtain ⟨rfl, _⟩ := returns_ok hs
      cases connected
    next =>
      obtain ⟨orderly, file, queue, _⟩ := connectToServer_queue aligned.orderly hf hs
      have hq : p'.drv.queueOf p.fd = p.drv.queueOf p.fd ++ [] := by
        rw [queueOf_eq file, queueOf_eq hf, queue, List.append_nil]
      have same : p'.queue = p.queue := (queue_added h hq).trans (List.append_nil _)
      obtain ⟨peer, hpeer⟩ := orderly.peer h0
      exact ⟨peer, fun x hx server receiver => absurd receiver (unheard x (same ▸ hx) server), hpeer⟩
  next => cases connected

theorem exists_not_connected (call : Call) (r : Reply) : ∃ id : Int, 0 ≤ id ∧ call.connected r ≠ some id := by
  cases h : call.connected r with
  | none => exact ⟨0, le_refl 0, nofun⟩
  | some i => exact ⟨i.natAbs + 1, by omega, fun he => by have := Option.some.inj he; omega⟩

theorem Aligned.driver (aligned : p.Aligned) (stays : call.op ≠ .release p.fd)
    (h : p.driver call = some (r, p')) : p'.Aligned := by
  obtain ⟨id, h0, other⟩ := exists_not_connected call r
  exact (driver_queue aligned h0 stays h other).1

theorem read_notif {K : Kernel} {count : Nat} {d : NotificationData} (aligned : p.Aligned)
    (h : p.driver ⟨K, .read p.fd count⟩ = some (r, p')) (hd : r.out = .notif d) :
    ∃ n, p.queue = (d, n) :: p'.queue := by
  obtain ⟨hs, _⟩ := driver_ok h
  obtain ⟨t, hf⟩ := aligned.file
  refine queue_taken aligned h ?_
  simp only [step, ipcRead, hf] at hs
  obtain ⟨task, ht, hs⟩ := bind_eq_ok.mp hs
  have ht := deref_some ht
  split at hs
  next =>
    split at hs
    next => cases (returns_ok hs).1; cases hd
    next =>
      split at hs
      next => cases hs
      next =>
        obtain ⟨data, _, hs⟩ := bind_eq_ok.mp hs
        split at hs
        next => cases (returns_ok hs).1; cases hd
        next =>
          obtain ⟨rfl, _⟩ := Prod.mk.inj (Except.ok.inj hs)
          cases hd
  next =>
    split at hs
    next => cases (returns_ok hs).1; cases hd
    next ntf ds hq =>
      split at hs
      next => cases (returns_ok hs).1; cases hd
      next =>
        split at hs
        next => cases (returns_ok hs).1; cases hd
        next =>
          obtain ⟨rfl, hdrv⟩ := Prod.mk.inj (Except.ok.inj hs)
          cases hd
          rw [← hdrv]
          simp [Drv.queueOf, Drv.queue, hf, ht, hq, Table.get?_modify, RegTask.dequeue]

theorem serverOf_of_serves {s : Drv} {q : Ptr} {a : Int} (orderly : Orderly s) (valid : isIdValid id = true)
    (hq : s.Linked id q) (hs : s.Serves q a) : s.serverOf id = some a := by
  obtain ⟨k, cli, hk, hid, hcon⟩ := hq
  obtain ⟨e, x, hx, rfl, ha⟩ := hs
  obtain ⟨c, hc, hv⟩ := orderly.wf.links.entryConn e x hx
  obtain ⟨srv, hsrv, rfl⟩ := Option.map_eq_some_iff.mp ha
  have found := orderly.findClientById valid hk hid
  simp [Drv.serverOf, found, hk, hcon, hc, hv, hsrv]

end Process

end Ripc
