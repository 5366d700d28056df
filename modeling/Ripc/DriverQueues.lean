import Ripc.DriverPeers

namespace Ripc

def Drv.queue (s : Drv) (t : Ptr) : List NotificationData :=
  (s.gRegTaskList.get? t).elim [] RegTask.notifList

/-- The notifications that the event queues for task `t`. -/
def Event.posted (t : Ptr) : Event → List NotificationData
  | .post _ t' d => if t' = t then [d] else []
  | .teardown _ ds => (ds.filter fun x => x.1 = t).map Prod.snd
  | _ => []

/-- The event neither reads from the queue of `t` nor closes its file. -/
def Event.Leaves (filp t : Ptr) : Event → Prop
  | .closeTask f _ | .closeFile f => f ≠ filp
  | .dequeue t' => t' ≠ t
  | _ => True

section

variable {s s' : Drv} {filp t : Ptr} {ev : Event}

theorem queue_modify {tasks : Table RegTask} {f : RegTask → RegTask} (t' : Ptr)
    (same : ∀ task, (f task).notifList = task.notifList) :
    ((tasks.modify t' f).get? t).elim [] RegTask.notifList =
      (tasks.get? t).elim [] RegTask.notifList ++ [] := by
  rw [Table.get?_modify, List.append_nil]
  split
  next => cases tasks.get? t <;> simp [same]
  next => rfl

theorem queue_enqueue {tasks : Table RegTask} (live : t ∈ tasks.keys) (t' : Ptr) (d : NotificationData) :
    ((tasks.modify t' (RegTask.enqueue d)).get? t).elim [] RegTask.notifList =
      (tasks.get? t).elim [] RegTask.notifList ++ if t' = t then [d] else [] := by
  obtain ⟨task, ht⟩ := Table.mem_keys.mp live
  rw [Table.get?_modify, ht]
  by_cases he : t = t'
  · simp [he, RegTask.enqueue]
  · simp [he, Ne.symm he]

theorem queue_postAll {tasks : Table RegTask} (live : t ∈ tasks.keys) (ds : List (Ptr × NotificationData)) :
    ((postAll tasks ds).get? t).elim [] RegTask.notifList =
      (tasks.get? t).elim [] RegTask.notifList ++ (ds.filter fun x => x.1 = t).map Prod.snd := by
  induction ds generalizing tasks with
  | nil => simp [postAll]
  | cons x ds ih =>
    have first := queue_enqueue live x.1 x.2
    have rest := @ih (tasks.modify x.1 (RegTask.enqueue x.2)) (by rwa [Table.keys_modify])
    rw [first] at rest
    refine rest.trans ?_
    by_cases he : x.1 = t <;> simp [he]

theorem queue_event (wf : Wf s) (hf : s.files.get? filp = some t) (he : s.event ev s')
    (leaves : ev.Leaves filp t) : s'.files.get? filp = some t ∧ s'.queue t = s.queue t ++ ev.posted t := by
  have live := wf.files.live filp t hf
  obtain ⟨ok, rfl⟩ := he
  cases ev with
  | openTask f t' task =>
    have file : filp ≠ f := by
      rintro rfl
      exact ok.1 (Table.mem_keys.mpr ⟨t, hf⟩)
    have other : t ≠ t' := fun he => ok.2 (he ▸ live)
    refine ⟨by rw [Drv.apply, Drv.openTask, Table.get?_pushFront ok.1, if_neg file, hf], ?_⟩
    simp only [Drv.apply, Drv.queue, Drv.openTask, Table.get?_pushFront ok.2, if_neg other, Event.posted,
      List.append_nil]
  | closeTask f t' =>
    have other : t ≠ t' := by
      rintro rfl
      exact leaves (wf.files.own f filp t ok.1 hf)
    refine ⟨by rw [Drv.apply, Drv.closeTask, Table.get?_erase, if_neg (Ne.symm leaves), hf], ?_⟩
    simp only [Drv.apply, Drv.queue, Drv.closeTask, Table.get?_erase, if_neg other, Event.posted,
      List.append_nil]
  | closeFile f =>
    exact ⟨by rw [Drv.apply, Table.get?_erase, if_neg (Ne.symm leaves), hf], (List.append_nil _).symm⟩
  | setMonitor t' =>
    exact ⟨hf, queue_modify t' (by intro _; rfl)⟩
  | dequeue t' =>
    refine ⟨hf, ?_⟩
    simp only [Drv.apply, Drv.queue, Table.get?_modify, if_neg (Ne.symm leaves), Event.posted, List.append_nil]
  | addServer v name id owner =>
    cases owner with
    | none => exact ⟨hf, (List.append_nil _).symm⟩
    | some o => exact ⟨hf, queue_modify o.2 (by intro _; rfl)⟩
  | addClient k id owner =>
    cases owner with
    | none => exact ⟨hf, (List.append_nil _).symm⟩
    | some o => exact ⟨hf, queue_modify o.2 (by intro _; rfl)⟩
  | dropServer e x id => exact ⟨hf, queue_modify x.regTask (by intro _; rfl)⟩
  | dropClient e x id => exact ⟨hf, queue_modify x.regTask (by intro _; rfl)⟩
  | addPool p shm =>
    rw [Drv.apply, Drv.addPool, takeIds_frame]
    exact ⟨hf, (List.append_nil _).symm⟩
  | link p k v m e => exact ⟨hf, (List.append_nil _).symm⟩
  | mmaped p => exact ⟨hf, (List.append_nil _).symm⟩
  | post p t' d => exact ⟨hf, queue_enqueue live t' d⟩
  | teardown p ds =>
    rw [Drv.apply, enqueueAll_eq]
    exact ⟨hf, queue_postAll live ds⟩

end

/-- What a server's notification for the client `id` tells when it comes out of a call that began in `s`
and ended in `s'`. -/
structure Told (s s' : Drv) (id : Int) (d : NotificationData) : Prop where
  torn : d.type = .remoteDisconnect → ¬s'.Connected id
  sender : d.type = .newMessage → ∃ p, s.Linked id p ∧ s.Serves p d.senderId

/-- A call that connects nobody under `id` and adds `new` to the queue of the process. -/
structure Quiet (filp t : Ptr) (id : Int) (s s' : Drv) (new : List NotificationData) : Prop where
  orderly : Orderly s'
  file : s'.files.get? filp = some t
  steady : Steady s s' id
  queue : s'.queue t = s.queue t ++ new
  told : ∀ d ∈ new, d.whoSends = .server → d.reciverId = id → Told s s' id d

namespace Quiet

variable {s a b : Drv} {filp t : Ptr} {id : Int} {new : List NotificationData} {ev : Event}

theorem refl (orderly : Orderly s) (hf : s.files.get? filp = some t) : Quiet filp t id s s [] :=
  ⟨orderly, hf, .refl, (List.append_nil _).symm, nofun⟩

theorem sender_of_post (orderly : Orderly s) (h : Quiet filp t id s a new) {p t' : Ptr} {d : NotificationData}
    (posts : Posts a p d t') (server : d.whoSends = .server) (receiver : d.reciverId = id)
    (entry : ∃ e x, s.servConns.get? e = some x ∧ x.conn = p) :
    ∃ p, s.Linked id p ∧ s.Serves p d.senderId := by
  cases posts with
  | toServer _ _ _ _ _ _ _ _ _ _ who => cases who.symm.trans server
  | @toClient c _ _ k cli v srv _ _ hc _ _ _ hck hk hcv hv _ _ _ hsender hreciver =>
    obtain ⟨cli', hk', hp⟩ := h.orderly.wf.links.connClient p c k hc hck
    cases hk.symm.trans hk'
    have linked : a.Linked id p := ⟨k, cli, hk, hreciver.symm.trans receiver, hp⟩
    obtain ⟨e, x, hx, hxp⟩ := entry
    obtain ⟨own, hown⟩ := mem_keys_iff_idOf.mp (orderly.entries e x hx)
    have served : s.Serves p own := ⟨e, x, hx, hxp, hown⟩
    obtain ⟨e', x', hx', rfl, hown'⟩ := (h.steady.serves p own linked).mpr served
    obtain ⟨c', hc', hv'⟩ := h.orderly.wf.links.entryConn e' x' hx'
    cases hc.symm.trans hc'
    cases hcv.symm.trans hv'
    have same : own = d.senderId := by
      rw [hsender]
      exact Option.some.inj (hown'.symm.trans (idOf_server hv))
    exact ⟨x'.conn, h.steady.linked _ linked, same ▸ served⟩

theorem torn_of_teardown (h : Quiet filp t id s a new) (h0 : 0 ≤ id) {p t' : Ptr} {d : NotificationData}
    {ds : List (Ptr × NotificationData)} (posts : Posts a p d t') (server : d.whoSends = .server)
    (receiver : d.reciverId = id) : ¬(a.apply (.teardown p ds)).Connected id := by
  cases posts with
  | toServer _ _ _ _ _ _ _ _ _ _ who => cases who.symm.trans server
  | @toClient c _ _ k cli v srv _ _ hc _ _ _ hck hk _ _ _ _ _ _ hreciver =>
    obtain ⟨cli', hk', hp⟩ := h.orderly.wf.links.connClient p c k hc hck
    cases hk.symm.trans hk'
    exact not_connected_teardown h.orderly h0 ⟨k, cli, hk, hreciver.symm.trans receiver, hp⟩

theorem event (orderly : Orderly s) (h0 : 0 ≤ id) (h : Quiet filp t id s a new) (he : a.event ev b)
    (leaves : ev.Leaves filp t) (spares : ev.Spares a id)
    (post : ∀ p t d, ev = .post p t d → d.whoSends = .server → ∃ e x, s.servConns.get? e = some x ∧ x.conn = p) :
    Quiet filp t id s b (new ++ ev.posted t) := by
  have next := Steady.event h.orderly he spares
  obtain ⟨file, queue⟩ := queue_event h.orderly.wf h.file he leaves
  refine ⟨h.orderly.event he, file, h.steady.trans next, ?_, fun d hd server receiver => ?_⟩
  · rw [queue, h.queue, List.append_assoc]
  · rcases List.mem_append.mp hd with hd | hd
    · have old := h.told d hd server receiver
      exact ⟨fun htype hc => old.torn htype (next.connected hc), old.sender⟩
    · obtain ⟨ok, rfl⟩ := he
      cases ev with
      | post p t' d' =>
        simp only [Event.posted] at hd
        split at hd
        next =>
          cases List.mem_singleton.mp hd
          exact ⟨fun htype => absurd htype ok.2,
            fun _ => h.sender_of_post orderly ok.1 server receiver (post p t' d rfl server)⟩
        next => cases hd
      | teardown p ds =>
        obtain ⟨⟨t', d'⟩, hx, rfl⟩ := List.mem_map.mp hd
        obtain ⟨posts, htype⟩ := ok.2 _ (List.mem_filter.mp hx).1
        exact ⟨fun _ => h.torn_of_teardown h0 posts server receiver,
          fun hm => by rw [htype] at hm; cases hm⟩
      | _ => cases hd

end Quiet

/-- A call that takes the oldest notification from the queue of the process. -/
structure Taken (filp t : Ptr) (id : Int) (s s' : Drv) : Prop where
  orderly : Orderly s'
  file : s'.files.get? filp = some t
  steady : Steady s s' id
  queue : ∃ d, s.queue t = d :: s'.queue t

section

variable {K : Kernel} {s s' : Drv} {r : Reply} {filp t : Ptr} {id : Int}

theorem step_quiet {call : Call} (orderly : Orderly s) (h0 : 0 ≤ id) (hf : s.files.get? filp = some t)
    (hs : step s call = .ok (r, s')) (noRelease : call.op ≠ .release filp)
    (noRead : ∀ f count, call.op ≠ .read f count)
    (noConnect : ∀ f con, call.op ≠ .ioctl f (.connectToServer con)) : ∃ new, Quiet filp t id s s' new := by
  refine (step_ok orderly.wf hs).keeps (I := fun a => ∃ new, Quiet filp t id s a new) ?_ ⟨[], .refl orderly hf⟩
  rintro a ev b may ⟨new, quiet⟩ he
  refine ⟨_, quiet.event orderly h0 he ?_ ?_ ?_⟩
  · cases ev with
    | closeTask f t' => rintro rfl; exact noRelease may
    | closeFile f => rintro rfl; exact noRelease may
    | dequeue t' =>
      obtain ⟨f, count, hop, _⟩ := may
      exact absurd hop (noRead f count)
    | _ => trivial
  · cases ev with
    | link p k v m e =>
      obtain ⟨f, con, hop, _⟩ := may
      exact absurd hop (noConnect f con)
    | _ => trivial
  · rintro p t' d rfl server
    exact may server

theorem ipcRead_queue {f : Ptr} {count : Nat} (orderly : Orderly s) (h0 : 0 ≤ id)
    (hf : s.files.get? filp = some t) (h : ipcRead K s f count = .ok (r, s')) :
    Quiet filp t id s s' [] ∨ Taken filp t id s s' := by
  rcases ipcRead_ok h with rfl | ⟨t', ht', he⟩
  · exact Or.inl (.refl orderly hf)
  · by_cases own : t' = t
    · subst own
      refine Or.inr ⟨orderly.event he, ?_, .event orderly he trivial, ?_⟩
      · rw [he.2]
        exact hf
      · obtain ⟨⟨task, d, ds, ht, hq⟩, rfl⟩ := he
        refine ⟨d, ?_⟩
        simp [Drv.queue, Drv.apply, Table.get?_modify, ht, hq, RegTask.dequeue]
    · exact Or.inl ((Quiet.refl orderly hf).event orderly h0 he own trivial (by simp))

theorem connectToServer_queue {con : ConnectToServer} (orderly : Orderly s) (hf : s.files.get? filp = some t)
    (h : connectToServer K s con = .ok (r, s')) : Orderly s' ∧ s'.files.get? filp = some t ∧
      s'.queue t = s.queue t ∧ ∀ id, (con.clientId = id → r.ret ≠ 0) → Steady s s' id := by
  rcases connectToServer_ok h with ⟨_, rfl⟩ | ⟨k, cli, v, s₁, _, hk, hcli, _, _, pool, done⟩
  · exact ⟨orderly, hf, rfl, fun _ _ => .refl⟩
  have first : Orderly s₁ ∧ s₁.files.get? filp = some t ∧ s₁.queue t = s.queue t ∧
      s₁.gClientsList = s.gClientsList ∧ ∀ id, Steady s s₁ id := by
    rcases pool with rfl | ⟨p, shm, ev, _⟩
    · exact ⟨orderly, hf, rfl, rfl, fun _ => .refl⟩
    · obtain ⟨file, queue⟩ := queue_event orderly.wf hf ev trivial
      refine ⟨orderly.event ev, file, queue.trans (List.append_nil _), ?_, fun id => .event orderly ev trivial⟩
      rw [ev.2, Drv.apply, Drv.addPool, takeIds_frame]
  obtain ⟨orderly₁, file, queue, clients, steady⟩ := first
  rcases done with ⟨ret, rfl⟩ | ⟨ret, p, m, e, _, ev, _⟩
  · exact ⟨orderly₁, file, queue, fun id _ => steady id⟩
  · obtain ⟨file', queue'⟩ := queue_event orderly₁.wf file ev trivial
    refine ⟨orderly₁.event ev, file', (queue'.trans (List.append_nil _)).trans queue, fun id other => ?_⟩
    refine (steady id).trans (.event orderly₁ ev fun cli' hcli' hid => ?_)
    obtain ⟨named, hnamed, hidk, _⟩ := findClientById_some hk
    rw [clients, hnamed] at hcli'
    cases hcli'
    exact other (hidk.symm.trans hid) ret

/-- A call that does not connect the client `id` adds to the queue of the process or takes one
notification from it. -/
theorem step_queue {call : Call} (orderly : Orderly s) (h0 : 0 ≤ id) (hf : s.files.get? filp = some t)
    (hs : step s call = .ok (r, s')) (noRelease : call.op ≠ .release filp)
    (spares : ∀ f con, call.op = .ioctl f (.connectToServer con) → con.clientId = id → r.ret ≠ 0) :
    (∃ new, Quiet filp t id s s' new) ∨ Taken filp t id s s' := by
  by_cases read : ∃ f count, call.op = .read f count
  · obtain ⟨f, count, hop⟩ := read
    simp only [step, hop] at hs
    exact (ipcRead_queue orderly h0 hf hs).imp_left fun quiet => ⟨[], quiet⟩
  by_cases connect : ∃ f con, call.op = .ioctl f (.connectToServer con)
  · obtain ⟨f, con, hop⟩ := connect
    simp only [step, hop, ipcIoctl] at hs
    split at hs
    next => cases hs; exact Or.inl ⟨[], .refl orderly hf⟩
    next =>
      obtain ⟨orderly', file, queue, steady⟩ := connectToServer_queue orderly hf hs
      exact Or.inl ⟨[], orderly', file, steady id (spares f con hop),
        queue.trans (List.append_nil _).symm, (by simp)⟩
  · exact Or.inl (step_quiet orderly h0 hf hs noRelease (fun f n he => read ⟨f, n, he⟩)
      fun f con he => connect ⟨f, con, he⟩)

end

end Ripc
