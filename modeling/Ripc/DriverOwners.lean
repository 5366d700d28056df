import Ripc.DriverLinks

namespace Ripc

section

variable {α β : Type} {objs objs' : Table α} {taskP : α → Option Ptr} {entries : Table β}
  {obj regTask : β → Ptr} {tasks tasks' : List Ptr}

/-- The entries that tie the objects of one kind to their tasks. An object without an entry
belongs to nobody. -/
structure Owned (objs : Table α) (taskP : α → Option Ptr) (entries : Table β)
    (obj regTask : β → Ptr) (tasks : List Ptr) : Prop where
  entry : PointsBack objs.get? taskP entries.get? fun x => some (obj x)
  object : PointsBack entries.get? (fun x => some (obj x)) objs.get? taskP
  live : ∀ e x, entries.get? e = some x → regTask x ∈ tasks

namespace Owned

theorem ofTasks (h : Owned objs taskP entries obj regTask tasks)
    (live : ∀ e x, entries.get? e = some x → regTask x ∈ tasks') :
    Owned objs taskP entries obj regTask tasks' :=
  { h with live }

theorem ofObjs (h : Owned objs taskP entries obj regTask tasks)
    (same : ∀ k e, (∃ o, objs'.get? k = some o ∧ taskP o = some e) ↔
      ∃ o, objs.get? k = some o ∧ taskP o = some e) :
    Owned objs' taskP entries obj regTask tasks :=
  { h with
    entry := h.entry.frame (fun k o e ho he => (same k e).mp ⟨o, ho, he⟩) fun _ x _ hx hk => ⟨x, hx, hk⟩
    object := h.object.frame (fun _ x _ hx hk => ⟨x, hx, hk⟩) fun k o e ho he => (same k e).mpr ⟨o, ho, he⟩ }

theorem mapAt (h : Owned objs taskP entries obj regTask tasks) (f : Nat → α → α)
    (same : ∀ k o, objs.get? k = some o → taskP (f k o) = taskP o) :
    Owned (objs.mapAt f) taskP entries obj regTask tasks := by
  refine h.ofObjs fun k e => ?_
  simp only [Table.get?_mapAt, Option.map_eq_some_iff]
  constructor
  · rintro ⟨_, ⟨o, ho, rfl⟩, he⟩
    exact ⟨o, ho, same k o ho ▸ he⟩
  · rintro ⟨o, ho, he⟩
    exact ⟨_, ⟨o, ho, rfl⟩, (same k o ho).trans he⟩

theorem modify (h : Owned objs taskP entries obj regTask tasks) {k : Ptr} (f : α → α)
    (same : ∀ o, taskP (f o) = taskP o) : Owned (objs.modify k f) taskP entries obj regTask tasks := by
  refine h.mapAt _ fun k' o _ => ?_
  split
  · exact same o
  · rfl

theorem pushBack (h : Owned objs taskP entries obj regTask tasks) {k : Ptr} {o : α}
    (fresh : k ∉ objs.keys) (alone : taskP o = none) :
    Owned (objs.pushBack k o) taskP entries obj regTask tasks := by
  refine h.ofObjs fun k' e => ?_
  rw [Table.get?_pushBack fresh]
  split
  next hk => simp [hk, alone, Table.get?_eq_none.mpr fresh]
  next => rfl

theorem attach (h : Owned objs taskP entries obj regTask tasks) {k e : Ptr} (x : β) (f : α → α)
    (fresh : e ∉ entries.keys) (alone : ∃ o, objs.get? k = some o ∧ taskP o = none)
    (hf : ∀ o, taskP (f o) = some e) (hk : obj x = k) (ht : regTask x ∈ tasks) :
    Owned (objs.modify k f) taskP (entries.pushFront e x) obj regTask tasks := by
  obtain ⟨o, ho, hnone⟩ := alone
  have newObj : (objs.modify k f).get? k = some (f o) := by
    rw [Table.get?_modify, if_pos rfl, ho, Option.map_some]
  have newEntry : (entries.pushFront e x).get? e = some x := by
    rw [Table.get?_pushFront fresh, if_pos rfl]
  refine ⟨?_, ?_, ?_⟩
  · refine h.entry.link k e ?_ ?_ ⟨x, newEntry, by rw [hk]⟩
    · intro k' o' e' ho' he'
      rw [Table.get?_modify] at ho'
      split at ho'
      next heq =>
        obtain ⟨old, _, rfl⟩ := Option.map_eq_some_iff.mp ho'
        exact Or.inl ⟨heq, Option.some.inj (he'.symm.trans (hf old))⟩
      next => exact Or.inr ⟨o', ho', he'⟩
    · intro e' x' k' hx' hk'
      have hne : e' ≠ e := by
        rintro rfl
        exact fresh (Table.mem_keys.mpr ⟨x', hx'⟩)
      exact ⟨x', by rw [Table.get?_pushFront fresh, if_neg hne, hx'], hk'⟩
  · refine h.object.link e k ?_ ?_ ⟨_, newObj, hf o⟩
    · intro e' x' k' hx' hk'
      rw [Table.get?_pushFront fresh] at hx'
      split at hx'
      next heq =>
        cases hx'
        exact Or.inl ⟨heq, (Option.some.inj hk').symm.trans hk⟩
      next => exact Or.inr ⟨x', hx', hk'⟩
    · intro k' o' e' ho' he'
      have hne : k' ≠ k := by
        rintro rfl
        rw [ho] at ho'
        cases ho'
        rw [hnone] at he'
        cases he'
      exact ⟨o', by rw [Table.get?_modify, if_neg hne, ho'], he'⟩
  · intro e' x' hx'
    rw [Table.get?_pushFront fresh] at hx'
    split at hx'
    next => exact Option.some.inj hx' ▸ ht
    next => exact h.live e' x' hx'

theorem drop (h : Owned objs taskP entries obj regTask tasks) {e : Ptr} {x : β}
    (hx : entries.get? e = some x) :
    Owned (objs.erase (obj x)) taskP (entries.erase e) obj regTask tasks := by
  obtain ⟨o, ho, hoe⟩ := h.object e x (obj x) hx rfl
  have keptObj : ∀ {k o}, (objs.erase (obj x)).get? k = some o → k ≠ obj x ∧ objs.get? k = some o := by
    intro k o ho
    rw [Table.get?_erase] at ho
    split at ho
    next => cases ho
    next hk => exact ⟨hk, ho⟩
  have keptEntry : ∀ {f y}, (entries.erase e).get? f = some y → f ≠ e ∧ entries.get? f = some y := by
    intro f y hy
    rw [Table.get?_erase] at hy
    split at hy
    next => cases hy
    next hf => exact ⟨hf, hy⟩
  refine ⟨?_, ?_, fun f y hy => h.live f y (keptEntry hy).2⟩
  · refine h.entry.unlink e ?_ fun f y k hf hy hk => ⟨y, by rw [Table.get?_erase, if_neg hf, hy], hk⟩
    intro k o' f ho' hf
    obtain ⟨hk, ho'⟩ := keptObj ho'
    refine ⟨?_, o', ho', hf⟩
    rintro rfl
    exact hk (h.entry.injective ho' hf ho hoe)
  · refine h.object.unlink (obj x) ?_ fun k o' f hk ho' hf => ⟨o', by rw [Table.get?_erase, if_neg hk, ho'], hf⟩
    intro f y k hy hk
    obtain ⟨hf, hy⟩ := keptEntry hy
    refine ⟨?_, y, hy, hk⟩
    rintro rfl
    exact hf (h.object.injective hy hk hx rfl)

end Owned

end

/-- Every open file has a live task of its own. -/
structure FilesOk (files : Table Ptr) (tasks : List Ptr) : Prop where
  live : ∀ f t, files.get? f = some t → t ∈ tasks
  own : ∀ f g t, files.get? f = some t → files.get? g = some t → f = g

/-- What holds of the driver's memory between two calls, whatever the kernel answered. -/
structure Wf (s : Drv) : Prop where
  links : Links s.gConnsList s.gClientsList s.gShmList s.servConns
  servers : Owned s.gServersList Server.taskP s.serversEntries ServersList.server ServersList.regTask
    s.gRegTaskList.keys
  clients : Owned s.gClientsList Client.taskP s.clientsEntries ClientsList.client ClientsList.regTask
    s.gRegTaskList.keys
  files : FilesOk s.files s.gRegTaskList.keys

theorem Wf.init : Wf Drv.init := by
  refine ⟨⟨?_, ?_, ?_, ?_, ?_, ?_, ?_⟩, ⟨?_, ?_, ?_⟩, ⟨?_, ?_, ?_⟩, ⟨?_, ?_⟩⟩ <;>
    simp [PointsBack, Drv.init, subMemAt]

/-- The tasks after a list of notifications has been queued. -/
def postAll (tasks : Table RegTask) (ds : List (Ptr × NotificationData)) : Table RegTask :=
  ds.foldl (fun tasks x => tasks.modify x.1 (RegTask.enqueue x.2)) tasks

theorem keys_postAll (tasks : Table RegTask) (ds : List (Ptr × NotificationData)) :
    (postAll tasks ds).keys = tasks.keys := by
  induction ds generalizing tasks with
  | nil => rfl
  | cons d ds ih => exact (ih _).trans (Table.keys_modify _)

theorem enqueueAll_eq (s : Drv) (ds : List (Ptr × NotificationData)) :
    s.enqueueAll ds = { s with gRegTaskList := postAll s.gRegTaskList ds } := by
  induction ds generalizing s with
  | nil => rfl
  | cons d ds ih => exact ih (s.enqueue d.1 d.2)

theorem takeIds_frame (s : Drv) (ids : List Int) :
    s.takeIds ids = { s with gIdGen := (s.takeIds ids).gIdGen } := by
  induction ids generalizing s with
  | nil => rfl
  | cons id ids ih => exact ih (s.takeId id)

theorem Wf.openTask {s : Drv} (h : Wf s) {filp t : Ptr} {task : TaskStruct}
    (ok : (Event.openTask filp t task).Ok s) : Wf (s.openTask filp t task) := by
  obtain ⟨freshFile, freshTask⟩ := ok
  have more : ∀ {u}, u ∈ s.gRegTaskList.keys → u ∈ (s.openTask filp t task).gRegTaskList.keys := by
    intro u hu
    rw [Drv.openTask, Table.keys_pushFront freshTask]
    exact List.mem_cons_of_mem t hu
  refine ⟨h.links, h.servers.ofTasks fun e x hx => more (h.servers.live e x hx),
    h.clients.ofTasks fun e x hx => more (h.clients.live e x hx), ⟨?_, ?_⟩⟩
  · intro f u hf
    rw [Drv.openTask, Table.get?_pushFront freshFile] at hf
    split at hf
    next =>
      cases hf
      rw [Drv.openTask, Table.keys_pushFront freshTask]
      exact List.mem_cons_self
    next => exact more (h.files.live f u hf)
  · have notNew : ∀ {f}, s.files.get? f ≠ some t := fun hf => freshTask (h.files.live _ t hf)
    intro f g u hf hg
    rw [Drv.openTask, Table.get?_pushFront freshFile] at hf hg
    split at hf <;> split at hg
    next hf' hg' => rw [hf', hg']
    next => exact absurd (Option.some.inj hf ▸ hg) notNew
    next => exact absurd (Option.some.inj hg ▸ hf) notNew
    next => exact h.files.own f g u hf hg

theorem FilesOk.erase {files : Table Ptr} {tasks : List Ptr} (h : FilesOk files tasks) (filp : Ptr) :
    FilesOk (files.erase filp) tasks := by
  have old : ∀ {f t}, (files.erase filp).get? f = some t → f ≠ filp ∧ files.get? f = some t := by
    intro f t hf
    rw [Table.get?_erase] at hf
    split at hf
    next => cases hf
    next hne => exact ⟨hne, hf⟩
  exact ⟨fun f t hf => h.live f t (old hf).2, fun f g t hf hg => h.own f g t (old hf).2 (old hg).2⟩

theorem Wf.closeTask {s : Drv} (h : Wf s) {filp t : Ptr} (ok : (Event.closeTask filp t).Ok s) :
    Wf (s.closeTask filp t) := by
  obtain ⟨hfile, hservers, hclients⟩ := ok
  have kept : ∀ {u}, u ∈ s.gRegTaskList.keys → u ≠ t → u ∈ (s.closeTask filp t).gRegTaskList.keys := by
    intro u hu hne
    rw [Drv.closeTask, Table.keys_erase]
    simpa [hne] using hu
  refine ⟨h.links, h.servers.ofTasks fun e x hx => kept (h.servers.live e x hx) (hservers e x hx),
    h.clients.ofTasks fun e x hx => kept (h.clients.live e x hx) (hclients e x hx),
    ⟨?_, (h.files.erase filp).own⟩⟩
  intro f u hf
  have hold : f ≠ filp ∧ s.files.get? f = some u := by
    rw [Drv.closeTask, Table.get?_erase] at hf
    split at hf
    next => cases hf
    next hne => exact ⟨hne, hf⟩
  refine kept (h.files.live f u hold.2) ?_
  rintro rfl
  exact hold.1 (h.files.own f filp u hold.2 hfile)

theorem Wf.ofTasks {s : Drv} (h : Wf s) {tasks : Table RegTask} (same : tasks.keys = s.gRegTaskList.keys) :
    Wf { s with gRegTaskList := tasks } :=
  ⟨h.links, by simpa only [same] using h.servers, by simpa only [same] using h.clients,
    by simpa only [same] using h.files⟩

theorem Wf.addServer {s : Drv} (h : Wf s) {v : Ptr} {name : CString maxServerName} {id : Int}
    (fresh : v ∉ s.gServersList.keys) : Wf (s.addServer v name id) :=
  ⟨h.links, h.servers.pushBack fresh rfl, h.clients, h.files⟩

theorem Wf.attachServer {s : Drv} (h : Wf s) {v e t : Ptr} (fresh : e ∉ s.serversEntries.keys)
    (alone : ∃ srv, s.gServersList.get? v = some srv ∧ srv.taskP = none)
    (live : t ∈ s.gRegTaskList.keys) : Wf (s.attachServer v e t) := by
  refine Wf.ofTasks (s := { s with
    serversEntries := s.serversEntries.pushFront e ⟨t, v⟩
    gServersList := s.gServersList.modify v fun srv => { srv with taskP := some e } }) ?_
    (Table.keys_modify _)
  exact ⟨h.links, h.servers.attach ⟨t, v⟩ (fun srv => { srv with taskP := some e }) fresh alone (fun _ => rfl) rfl live,
    h.clients, h.files⟩

theorem Wf.addClient {s : Drv} (h : Wf s) {k : Ptr} {id : Int} (fresh : k ∉ s.gClientsList.keys) :
    Wf (s.addClient k id) := by
  refine ⟨h.links.clients fun k' p => ?_, h.servers, h.clients.pushBack fresh rfl, h.files⟩
  rw [Drv.addClient, Table.get?_pushBack fresh]
  split
  next hk => simp [hk, Table.get?_eq_none.mpr fresh]
  next => rfl

theorem Wf.attachClient {s : Drv} (h : Wf s) {k e t : Ptr} (fresh : e ∉ s.clientsEntries.keys)
    (alone : ∃ cli, s.gClientsList.get? k = some cli ∧ cli.taskP = none)
    (live : t ∈ s.gRegTaskList.keys) : Wf (s.attachClient k e t) := by
  refine Wf.ofTasks (s := { s with
    clientsEntries := s.clientsEntries.pushFront e ⟨t, k⟩
    gClientsList := s.gClientsList.modify k fun cli => { cli with taskP := some e } }) ?_
    (Table.keys_modify _)
  refine ⟨h.links.clients fun k' p => ?_, h.servers,
    h.clients.attach ⟨t, k⟩ (fun cli => { cli with taskP := some e }) fresh alone (fun _ => rfl) rfl live, h.files⟩
  rw [Table.get?_modify]
  split
  · simp only [Option.map_eq_some_iff]
    constructor
    · rintro ⟨_, ⟨cli, hc, rfl⟩, hp⟩
      exact ⟨cli, hc, hp⟩
    · rintro ⟨cli, hc, hp⟩
      exact ⟨_, ⟨cli, hc, rfl⟩, hp⟩
  · rfl

theorem Wf.dropServer {s : Drv} (h : Wf s) {e : Ptr} {x : ServersList} {id : Int}
    (hx : s.serversEntries.get? e = some x) : Wf (s.dropServer e x id) := by
  refine Wf.ofTasks (s := { freeId s id with
    gServersList := s.gServersList.erase x.server
    serversEntries := s.serversEntries.erase e }) ?_ (Table.keys_modify _)
  exact ⟨h.links, h.servers.drop hx, h.clients, h.files⟩

theorem Wf.dropClient {s : Drv} (h : Wf s) {e : Ptr} {x : ClientsList} {id : Int}
    (ok : (Event.dropClient e x id).Ok s) : Wf (s.dropClient e x id) := by
  obtain ⟨hx, cli, hcli, _, hnone⟩ := ok
  refine Wf.ofTasks (s := { freeId s id with
    gClientsList := s.gClientsList.erase x.client
    clientsEntries := s.clientsEntries.erase e }) ?_ (Table.keys_modify _)
  refine ⟨h.links.clients fun k p => ?_, h.servers, h.clients.drop hx, h.files⟩
  rw [Table.get?_erase]
  split
  next hk => simp [hk, hcli, hnone]
  next => rfl

theorem Wf.addPool {s : Drv} (h : Wf s) {p : Ptr} {shm : Shm} (ok : (Event.addPool p shm).Ok s) :
    Wf (s.addPool p shm) := by
  obtain ⟨fresh, _, _, ⟨_, free⟩, _⟩ := ok
  rw [Drv.addPool, takeIds_frame]
  refine ⟨h.links.pools fun m q => ?_, h.servers, h.clients, h.files⟩
  simp only [subMemAt, Table.get?_pushFront fresh]
  split
  next hm => simp [hm, Table.get?_eq_none.mpr fresh, (free m.slot).2.2]
  next => rfl

theorem Wf.link {s : Drv} (h : Wf s) {p k v : Ptr} {m : SubMemPtr} {e : Option Ptr}
    (ok : (Event.link p k v m e).Ok s) : Wf (s.link p k v m e) :=
  ⟨h.links.link ok, h.servers, h.clients.modify (fun cli => { cli with connP := some p }) fun _ => rfl, h.files⟩

theorem Wf.unlink {s : Drv} (h : Wf s) (p : Ptr) : Wf (s.unlink p) :=
  ⟨h.links.unlink p, h.servers, h.clients.mapAt (fun _ cli => { cli with connP := forget p cli.connP })
    fun _ _ _ => rfl,
    h.files⟩

theorem Wf.enqueueAll {s : Drv} (h : Wf s) (ds : List (Ptr × NotificationData)) :
    Wf (s.enqueueAll ds) := by
  rw [enqueueAll_eq]
  exact h.ofTasks (keys_postAll s.gRegTaskList ds)

theorem Wf.event {s s' : Drv} {ev : Event} (h : Wf s) (he : s.event ev s') : Wf s' := by
  obtain ⟨ok, rfl⟩ := he
  cases ev with
  | openTask filp t task => exact h.openTask ok
  | closeTask filp t => exact h.closeTask ok
  | closeFile filp => exact ⟨h.links, h.servers, h.clients, h.files.erase filp⟩
  | setMonitor t => exact h.ofTasks (Table.keys_modify _)
  | dequeue t => exact h.ofTasks (Table.keys_modify _)
  | addServer v name id owner =>
    have new : Wf (s.addServer v name id) := h.addServer ok.1
    cases owner with
    | none => exact new
    | some o =>
      obtain ⟨freshEntry, live⟩ := ok.2.2 o rfl
      exact new.attachServer freshEntry
        ⟨_, by rw [Drv.addServer, Table.get?_pushBack ok.1, if_pos rfl], rfl⟩ live
  | addClient k id owner =>
    have new : Wf (s.addClient k id) := h.addClient ok.1
    cases owner with
    | none => exact new
    | some o =>
      obtain ⟨freshEntry, live⟩ := ok.2.2 o rfl
      exact new.attachClient freshEntry
        ⟨_, by rw [Drv.addClient, Table.get?_pushBack ok.1, if_pos rfl], rfl⟩ live
  | dropServer e x id => exact h.dropServer ok.1
  | dropClient e x id => exact h.dropClient ok
  | addPool p shm => exact h.addPool ok
  | link p k v m e => exact h.link ok
  | mmaped p => exact ⟨h.links.mmaped p, h.servers, h.clients, h.files⟩
  | post p t d => exact h.ofTasks (Table.keys_modify _)
  | teardown p ds => exact (h.enqueueAll ds).unlink p

end Ripc
