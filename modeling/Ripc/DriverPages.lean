import Ripc.DriverQueues
import Ripc.DriverRefusals
import Ripc.IdPack

namespace Ripc

def Drv.connOf (s : Drv) (id : Int) : Option Ptr := do
  let k ← findClientById s id
  let cli ← s.gClientsList.get? k
  cli.connP

/-- The page frame of a connection's sub-memory. -/
def Drv.pageOf (s : Drv) (q : Ptr) : Option Nat := do
  let c ← s.gConnsList.get? q
  let m ← c.memP
  let sub ← s.subMem? m
  return sub.pages

/-- The notification that mapping over a connection puts on the queue of its server's task. -/
def Drv.announcement (s : Drv) (q : Ptr) : Option (Ptr × NotificationData) := do
  let c ← s.gConnsList.get? q
  let m ← c.memP
  let sub ← s.subMem? m
  let cli ← s.gClientsList.get? (← c.clientP)
  let srv ← s.gServersList.get? (← c.serverP)
  let x ← s.serversEntries.get? (← srv.taskP)
  return (x.regTask, ⟨.client, .newConnection, sub.id, cli.id, srv.id⟩)

/-- The change from `s` to `s'` has queued the announcement of the connection. -/
def Drv.announces (s s' : Drv) (q : Ptr) : Bool :=
  (s.announcement q).any fun a => s'.queue a.1 = s.queue a.1 ++ [a.2]

/-- The frame that `mmap` gives to its caller. -/
def Reply.frame (r : Reply) : Option Nat :=
  match r.out with
  | .mapped frame _ => if r.ret = 0 then some frame else none
  | _ => none

/-- Mapping the client's memory goes through: the announcement is due and can be made, and the remapping
works. -/
def Drv.Maps (s : Drv) (K : Kernel) (id : Int) (q : Ptr) : Prop :=
  K.remapPfnRange = 0 ∧ ¬Unsent K s .client q ∧ ∀ c m sub, s.gConnsList.get? q = some c → c.memP = some m →
    s.subMem? m = some sub → packIds id sub.id ≠ packError

section

variable {s s' : Drv} {K : Kernel} {r : Reply} {id : Int} {p q : Ptr} {ev : Event}

theorem connOf_eq_some (orderly : Orderly s) (valid : isIdValid id = true) :
    s.connOf id = some q ↔ s.Linked id q := by
  constructor
  · intro h
    obtain ⟨k, hk, h⟩ := Option.bind_eq_some_iff.mp h
    obtain ⟨cli, hcli, hq⟩ := Option.bind_eq_some_iff.mp h
    obtain ⟨cli', hcli', hid, _⟩ := findClientById_some hk
    cases hcli.symm.trans hcli'
    exact ⟨k, cli, hcli, hid, hq⟩
  · rintro ⟨k, cli, hcli, hid, hq⟩
    have found := orderly.findClientById valid hcli hid
    simp [Drv.connOf, found, hcli, hq]

theorem pageOf_eq_some {f : Nat} : s.pageOf q = some f ↔ ∃ c m sub, s.gConnsList.get? q = some c ∧
    c.memP = some m ∧ s.subMem? m = some sub ∧ sub.pages = f := by
  simp [Drv.pageOf, Option.bind_eq_some_iff]

theorem conns_event (he : s.event ev s') (quiet : ∀ k v m e, ev ≠ .link q k v m e)
    (live : q ∈ s'.gConnsList.keys) : q ∈ s.gConnsList.keys := by
  obtain ⟨ok, rfl⟩ := he
  cases ev with
  | addServer v name a owner => cases owner <;> exact live
  | addClient k a owner => cases owner <;> exact live
  | addPool p shm =>
    rw [Drv.apply, Drv.addPool, takeIds_frame] at live
    exact live
  | link p k v m e =>
    rw [Drv.apply, Drv.link, Table.keys_pushBack ok.1, List.mem_append, List.mem_singleton] at live
    rcases live with live | rfl
    · exact live
    · exact absurd rfl (quiet k v m e)
  | mmaped p => simpa only [Drv.apply, Table.keys_modify] using live
  | teardown p ds =>
    rw [Drv.apply, Drv.unlink, enqueueAll_eq, Table.keys_erase] at live
    exact (List.mem_filter.mp live).1
  | _ => exact live

theorem subMem_pages_event {m : SubMemPtr} {sub : SubMem} (he : s.event ev s') (hsub : s.subMem? m = some sub) :
    ∃ sub', s'.subMem? m = some sub' ∧ sub'.pages = sub.pages := by
  obtain ⟨ok, rfl⟩ := he
  cases ev with
  | addServer v name a owner => cases owner <;> exact ⟨sub, hsub, rfl⟩
  | addClient k a owner => cases owner <;> exact ⟨sub, hsub, rfl⟩
  | addPool p shm =>
    obtain ⟨shm', hshm, rfl⟩ := Option.map_eq_some_iff.mp hsub
    have other : m.shm ≠ p := by
      rintro rfl
      exact ok.1 (Table.mem_keys.mpr ⟨shm', hshm⟩)
    refine ⟨shm'.subMems m.slot, ?_, rfl⟩
    rw [Drv.apply, Drv.addPool, takeIds_frame, Drv.subMem?, subMemAt, Table.get?_pushFront ok.1, if_neg other,
      hshm, Option.map_some]
  | link p k v m' e =>
    rw [Drv.apply, Drv.subMem?, subMemAt_link]
    rw [Drv.subMem?] at hsub
    rw [hsub]
    split
    next => exact ⟨_, rfl, rfl⟩
    next => exact ⟨sub, rfl, rfl⟩
  | teardown p ds =>
    rw [Drv.apply, Drv.subMem?, subMemAt_unlink, enqueueAll_eq]
    rw [Drv.subMem?] at hsub
    rw [hsub]
    exact ⟨_, rfl, rfl⟩
  | _ => exact ⟨sub, hsub, rfl⟩

/-- A connection stays as it is until it is torn down, except that its memory is mapped. -/
theorem conn_event {c : Connection} (he : s.event ev s') (hc : s.gConnsList.get? q = some c) :
    (∃ ds, ev = .teardown q ds) ∨ s'.gConnsList.get? q = some c ∨
      (ev = .mmaped q ∧ s'.gConnsList.get? q = some { c with servMmaped := true }) := by
  obtain ⟨ok, rfl⟩ := he
  cases ev with
  | addServer v name a owner => cases owner <;> exact Or.inr (Or.inl hc)
  | addClient k a owner => cases owner <;> exact Or.inr (Or.inl hc)
  | addPool p shm =>
    rw [Drv.apply, Drv.addPool, takeIds_frame]
    exact Or.inr (Or.inl hc)
  | link p k v m e =>
    have other : q ≠ p := by
      rintro rfl
      exact ok.1 (Table.mem_keys.mpr ⟨c, hc⟩)
    exact Or.inr (Or.inl (by rw [Drv.apply, conns_link ok.1, if_neg other, hc]))
  | mmaped p =>
    rw [Drv.apply, Table.get?_modify, hc]
    split
    next he => exact Or.inr (Or.inr ⟨by rw [he], rfl⟩)
    next => exact Or.inr (Or.inl rfl)
  | teardown p ds =>
    by_cases hp : q = p
    · exact Or.inl ⟨ds, by rw [hp]⟩
    · exact Or.inr (Or.inl (by rw [Drv.apply, conns_unlink, enqueueAll_eq, if_neg hp, hc]))
  | _ => exact Or.inr (Or.inl hc)

theorem pageOf_event (wf : Wf s) (he : s.event ev s') (old : q ∈ s.gConnsList.keys)
    (live : q ∈ s'.gConnsList.keys) : s'.pageOf q = s.pageOf q := by
  obtain ⟨c, hc⟩ := Table.mem_keys.mp old
  obtain ⟨_, ⟨m, hm⟩, _⟩ := wf.links.connFull q c hc
  obtain ⟨sub, hsub, _⟩ := wf.links.connMem q c m hc hm
  have same : ∃ c', s'.gConnsList.get? q = some c' ∧ c'.memP = c.memP := by
    rcases conn_event he hc with ⟨ds, rfl⟩ | hc' | ⟨_, hc'⟩
    · exact absurd live (teardown_gone he).2
    · exact ⟨c, hc', rfl⟩
    · exact ⟨_, hc', rfl⟩
  obtain ⟨c', hc', same⟩ := same
  obtain ⟨sub', hsub', pages⟩ := subMem_pages_event he hsub
  rw [pageOf_eq_some.mpr ⟨c, m, sub, hc, hm, hsub, rfl⟩]
  exact pageOf_eq_some.mpr ⟨c', m, sub', hc', same.trans hm, hsub', pages⟩

theorem pageOf_step {call : Call} (wf : Wf s) (hs : step s call = .ok (r, s')) (old : q ∈ s.gConnsList.keys)
    (live : q ∈ s'.gConnsList.keys) : s'.pageOf q = s.pageOf q := by
  by_cases connect : ∃ f con, call.op = .ioctl f (.connectToServer con)
  · obtain ⟨f, con, hop⟩ := connect
    simp only [step, hop, ipcIoctl] at hs
    split at hs
    next => cases hs; rfl
    next =>
      rcases connectToServer_ok hs with ⟨_, rfl⟩ | ⟨k, cli, v, s₁, _, _, _, _, _, pool, done⟩
      · rfl
      have first : Wf s₁ ∧ q ∈ s₁.gConnsList.keys ∧ s₁.pageOf q = s.pageOf q := by
        rcases pool with rfl | ⟨p, shm, ev, _⟩
        · exact ⟨wf, old, rfl⟩
        · have conns : s₁.gConnsList = s.gConnsList := by
            rw [ev.2, Drv.apply, Drv.addPool, takeIds_frame]
          have old₁ : q ∈ s₁.gConnsList.keys := conns ▸ old
          exact ⟨wf.event ev, old₁, pageOf_event wf ev old old₁⟩
      obtain ⟨wf₁, old₁, same⟩ := first
      rcases done with ⟨_, rfl⟩ | ⟨_, p, m, e, _, ev, _⟩
      · exact same
      · exact (pageOf_event wf₁ ev old₁ live).trans same
  · have kept : Wf s' ∧ (q ∈ s'.gConnsList.keys → s'.pageOf q = s.pageOf q) := by
      refine (step_ok wf hs).keeps (I := fun a => Wf a ∧ (q ∈ a.gConnsList.keys → a.pageOf q = s.pageOf q)) ?_
        ⟨wf, fun _ => rfl⟩
      rintro a ev b may ⟨wfa, same⟩ he
      have quiet : ∀ k v m e, ev ≠ .link q k v m e := by
        rintro k v m e rfl
        obtain ⟨f, con, hop, _⟩ := may
        exact connect ⟨f, con, hop⟩
      refine ⟨wfa.event he, fun liveb => ?_⟩
      have livea := conns_event he quiet liveb
      exact (pageOf_event wfa he livea liveb).trans (same livea)
    exact kept.2 live

theorem not_connected_disconnect {fd : Ptr} (orderly : Orderly s) (valid : isIdValid id = true)
    (file : fd ∈ s.files.keys) (hs : step s ⟨K, .ioctl fd (.clientDisconnect (packIds id 0))⟩ = .ok (r, s'))
    (ret : ¬r.ret < 0) : ¬s'.Connected id := by
  obtain ⟨t, hf⟩ := Table.mem_keys.mp file
  simp only [step, ipcIoctl, hf] at hs
  rcases clientDisconnect_ok orderly.wf hs with ⟨neg, _⟩ | ⟨k, cli, q, ds, hk, hcli, hq, _, hdrv⟩
  · exact absurd neg ret
  · rw [unpackId1_packIds valid rfl] at hk
    obtain ⟨cli', hcli', hid, _⟩ := findClientById_some hk
    cases hcli.symm.trans hcli'
    rw [hdrv]
    exact not_connected_teardown orderly (isIdValid_iff.mp valid).1 ⟨k, cli, hcli, hid, hq⟩

theorem linked_live (wf : Wf s) (h : s.Linked id q) : q ∈ s.gConnsList.keys := by
  obtain ⟨k, cli, hcli, _, hq⟩ := h
  obtain ⟨c, hc, _⟩ := wf.links.clientConn k cli q hcli hq
  exact Table.mem_keys.mpr ⟨c, hc⟩

theorem announces_of_post {t : Ptr} {d : NotificationData} (posts : Posts s q d t) (client : d.whoSends = .client)
    (new : d.type = .newConnection) (hq : s'.queue t = s.queue t ++ [d]) : s.announces s' q = true := by
  cases posts with
  | toClient _ _ _ _ _ _ _ _ _ _ who => cases who.symm.trans client
  | @toServer c m sub k cli v srv e x hc hm hsub subId hk hcli hv hsrv he hx who sender reciver task =>
    have told : d = ⟨.client, .newConnection, sub.id, cli.id, srv.id⟩ := by
      rw [← client, ← new, ← subId, ← sender, ← reciver]
    have same : s.announcement q = some (t, d) := by
      simp only [Drv.announcement, hc, hm, hsub, hk, hcli, hv, hsrv, he, hx, Option.bind_eq_bind, Option.bind_some,
        told, task]
      rfl
    rw [Drv.announces, same]
    simpa using hq

/-- A client that maps the memory of its connection gets the connection's page, and its server is told. -/
theorem mmap_maps {fd : Ptr} (orderly : Orderly s) (valid : isIdValid id = true) (hq : s.connOf id = some q)
    (maps : s.Maps K id q) (file : fd ∈ s.files.keys) (hs : step s ⟨K, .mmap fd (packIds id 0)⟩ = .ok (r, s')) :
    r.frame = s.pageOf q ∧ r.frame ≠ none ∧ s.announces s' q = true := by
  obtain ⟨remap, sent, packed⟩ := maps
  obtain ⟨k, hk, hq⟩ := Option.bind_eq_some_iff.mp hq
  obtain ⟨cli, hcli, hq⟩ := Option.bind_eq_some_iff.mp hq
  obtain ⟨cli', hcli', hid, _⟩ := findClientById_some hk
  cases hcli.symm.trans hcli'
  simp only [step, if_pos file, ipcMmap, findClientByIdPid, unpackId1_packIds valid (b := 0) rfl, hk, mmapClient,
    deref_of_get? hcli, ok_bind, hq] at hs
  obtain ⟨c, hc, hs⟩ := bind_eq_ok.mp hs
  have hc := deref_some hc
  obtain ⟨m, hm⟩ : ∃ m, c.memP = some m := (orderly.wf.links.connFull q c hc).2.1
  obtain ⟨sub, hsub, _⟩ := orderly.wf.links.connMem q c m hc hm
  simp only [hm, derefSubMem, Drv.subMem?, hsub, ok_bind, hid, if_neg (packed c m sub hc hm hsub)] at hs
  obtain ⟨srv, _, hs⟩ := bind_eq_ok.mp hs
  obtain ⟨⟨ret, s₁⟩, send, hs⟩ := bind_eq_ok.mp hs
  rcases notificationSend_ok send with ⟨neg, rfl⟩ | ⟨_, t, d, rfl, posts, type, who⟩
  · exact absurd ((notificationSend_refuses orderly.wf).mp ⟨ret, send, neg⟩) sent
  have live : t ∈ s.gRegTaskList.keys := by cases posts <;> assumption
  obtain ⟨c', hc', hs⟩ := bind_eq_ok.mp hs
  have hc' := deref_some hc'
  rw [Table.get?_modify, if_pos rfl, show (s.enqueue t d).gConnsList.get? q = some c from hc, Option.map_some] at hc'
  cases hc'
  simp only [hm] at hs
  obtain ⟨sub', hsub', hs⟩ := bind_eq_ok.mp hs
  cases hsub.symm.trans (derefSubMem_ok hsub')
  obtain ⟨rfl, rfl⟩ := Prod.mk.inj (Except.ok.inj hs)
  have page : s.pageOf q = some sub.pages := pageOf_eq_some.mpr ⟨c, m, sub, hc, hm, hsub, rfl⟩
  have queue : (s.enqueue t d).queue t = s.queue t ++ [d] := by
    refine (queue_enqueue live t d).trans ?_
    rw [if_pos rfl, Drv.queue]
  exact ⟨by simp [Reply.frame, remap, page], by simp [Reply.frame, remap], announces_of_post posts who type queue⟩

def mapsCheck (s : Drv) (K : Kernel) (id : Int) (q : Ptr) : Bool :=
  ((do
    let c ← s.gConnsList.get? q
    let sub ← s.subMem? (← c.memP)
    let cli ← s.gClientsList.get? (← c.clientP)
    let srv ← s.gServersList.get? (← c.serverP)
    return decide (K.remapPfnRange = 0 ∧ packIds id sub.id ≠ packError ∧ isIdValid cli.id ∧ isIdValid sub.id ∧
      isIdValid srv.id ∧ (K.kmalloc (.notif .client) s).isSome)) : Option Bool) = some true

theorem mapsCheck_sound {s : Drv} {q : Ptr} (h : mapsCheck s K id q = true) : s.Maps K id q := by
  have h := of_decide_eq_true h
  simp only [Option.bind_eq_bind, Option.bind_eq_some_iff, Option.pure_def, Option.some.injEq,
    decide_eq_true_eq] at h
  obtain ⟨c, hc, m, hm, sub, hsub, k, hk, cli, hcli, v, hv, srv, hsrv, remap, packed, valid⟩ := h
  refine ⟨remap, ?_, fun c' m' sub' hc' hm' hsub' => ?_⟩
  · rintro ⟨c', m', sub', k', cli', v', srv', hc', hm', hsub', hk', hcli', hv', hsrv', _, unmade⟩
    cases hc.symm.trans hc'
    cases hm.symm.trans hm'
    cases hsub.symm.trans hsub'
    cases hk.symm.trans hk'
    cases hcli.symm.trans hcli'
    cases hv.symm.trans hv'
    cases hsrv.symm.trans hsrv'
    exact unmade valid
  · cases hc.symm.trans hc'
    cases hm.symm.trans hm'
    cases hsub.symm.trans hsub'
    exact packed

end

end Ripc
