import Ripc.DriverPages
import Ripc.PageHistory
import Ripc.Pools

namespace Ripc

/-- A new connection gets the slot that was free first, and then there is no new pool; or no slot was free, and it gets
the first of a new pool. -/
inductive Drv.GetsFrame (s s' : Drv) (frame : Nat) : Prop
  | slot {m : SubMemPtr} {sub : SubMem} (free : findFreeSubmem s = some m) (hsub : s.subMem? m = some sub)
      (pages : sub.pages = frame) (old : ∀ f, s.newFrame s' f = false)
  | pool (full : findFreeSubmem s = none) (new : s.newFrame s' frame = true)

variable {s s' : Drv} {call : Call} {r : Reply} {l : Link} {frame : Nat}

theorem mem_newLinks (h : l ∈ s.newLinks s') : l.conn ∉ s.gConnsList.keys ∧ l.torn = false ∧
    ∃ c, s'.gConnsList.get? l.conn = some c ∧ s'.frameOf c = some l.frame := by
  obtain ⟨⟨q, c⟩, hc, hl⟩ := List.mem_filterMap.mp h
  split at hl
  next => cases hl
  next new =>
    obtain ⟨frame, hframe, rfl⟩ := Option.map_eq_some_iff.mp hl
    exact ⟨new, rfl, c, Table.get?_eq_some.mpr hc, hframe⟩

theorem connects_of_new {q : Ptr} (wf : Wf s) (hs : step s call = .ok (r, s')) (live : q ∈ s'.gConnsList.keys)
    (new : q ∉ s.gConnsList.keys) : ∃ f con, call.op = .ioctl f (.connectToServer con) := by
  by_contra other
  refine new ((step_ok wf hs).keeps (I := fun a => q ∈ a.gConnsList.keys → q ∈ s.gConnsList.keys) ?_ id live)
  intro a ev b may back he live
  refine back (conns_event he ?_ live)
  rintro k v m e rfl
  obtain ⟨f, con, hop, _⟩ := may
  exact other ⟨f, con, hop⟩

theorem newFrame_same (h : s'.gShmList.keys = s.gShmList.keys) (f : Nat) : s.newFrame s' f = false := by
  refine List.any_eq_false.mpr fun e he => ?_
  have old : e.1 ∈ s.gShmList.keys := by
    rw [← h]
    exact Table.mem_keys.mpr ⟨e.2, Table.get?_eq_some.mpr he⟩
  simp [old]

theorem frameOf_link {p k v q : Ptr} {m : SubMemPtr} {e : Option Ptr} {c : Connection}
    (he : s.event (.link p k v m e) s') (old : q ∉ s.gConnsList.keys) (hc : s'.gConnsList.get? q = some c)
    (hf : s'.frameOf c = some frame) :
    ∃ sub, findFreeSubmem s = some m ∧ s.subMem? m = some sub ∧ sub.pages = frame := by
  obtain ⟨⟨fresh, _, _, free, _⟩, rfl⟩ := he
  rw [Drv.apply, conns_link fresh] at hc
  split at hc
  next =>
    cases hc
    obtain ⟨sub, hsub, rfl⟩ := Option.map_eq_some_iff.mp hf
    rw [Option.bind_some, Drv.subMem?, Drv.apply, subMemAt_link, if_pos rfl] at hsub
    obtain ⟨before, hbefore, rfl⟩ := Option.map_eq_some_iff.mp hsub
    exact ⟨before, free, hbefore, rfl⟩
  next => exact absurd (Table.mem_keys.mpr ⟨c, hc⟩) old

theorem subMem_addPool {p : Ptr} {shm : Shm} {m : SubMemPtr} {sub : SubMem} (he : s.event (.addPool p shm) s')
    (free : findFreeSubmem s' = some m) (hsub : s'.subMem? m = some sub) : sub.pages = shm.pages := by
  obtain ⟨⟨fresh, _, _, pages, _⟩, rfl⟩ := he
  have pools : (s.apply (.addPool p shm)).gShmList = s.gShmList.pushFront p shm := by
    rw [Drv.apply, Drv.addPool, takeIds_frame]
  have entries : (s.gShmList.pushFront p shm).entries = (p, shm) :: s.gShmList.entries := by
    simp [Table.pushFront, fresh]
  rw [findFreeSubmem, pools, entries, List.findSome?_cons, shmGetFreeSubmem_new pages] at free
  cases free
  rw [Drv.subMem?, subMemAt, pools, Table.get?_pushFront fresh, if_pos rfl, Option.map_some] at hsub
  cases hsub
  simpa using (pages.2 ⟨0, by decide⟩).1

theorem newFrame_addPool {p : Ptr} {shm : Shm} {a : Drv} (he : s.event (.addPool p shm) a)
    (pools : ∀ q shm', a.gShmList.get? q = some shm' → ∃ shm'', s'.gShmList.get? q = some shm'' ∧
      shm''.pages = shm'.pages) : s.newFrame s' shm.pages = true := by
  obtain ⟨⟨fresh, _⟩, rfl⟩ := he
  obtain ⟨shm', hshm', pages⟩ := pools p shm (by
    rw [Drv.apply, Drv.addPool, takeIds_frame, Table.get?_pushFront fresh, if_pos rfl])
  refine List.any_eq_true.mpr ⟨(p, shm'), Table.get?_eq_some.mp hshm', ?_⟩
  simp [fresh, pages, shmRegionOrder]

theorem pools_link {p k v : Ptr} {m : SubMemPtr} {e : Option Ptr} (he : s.event (.link p k v m e) s') :
    s'.gShmList.keys = s.gShmList.keys ∧ ∀ q shm, s.gShmList.get? q = some shm →
      ∃ shm', s'.gShmList.get? q = some shm' ∧ shm'.pages = shm.pages := by
  obtain ⟨_, rfl⟩ := he
  refine ⟨Table.keys_modify _, fun q shm hq => ?_⟩
  have get : (s.apply (.link p k v m e)).gShmList.get? q = _ := Table.get?_modify _
  rw [get, hq]
  split
  next => exact ⟨_, rfl, rfl⟩
  next => exact ⟨shm, rfl, rfl⟩

theorem getsFrame (wf : Wf s) (hs : step s call = .ok (r, s')) (new : l ∈ s.newLinks s') :
    s.GetsFrame s' l.frame := by
  obtain ⟨fresh, _, c, hc, hframe⟩ := mem_newLinks new
  have live : l.conn ∈ s'.gConnsList.keys := Table.mem_keys.mpr ⟨c, hc⟩
  obtain ⟨f, con, hop⟩ := connects_of_new wf hs live fresh
  simp only [step, hop, ipcIoctl] at hs
  split at hs
  next =>
    cases hs
    exact absurd live fresh
  next =>
    rcases connectToServer_ok hs with ⟨_, rfl⟩ | ⟨k, cli, v, s₁, _, _, _, _, _, pool, done⟩
    · exact absurd live fresh
    rcases pool with rfl | ⟨p, shm, added, _⟩
    · rcases done with ⟨_, rfl⟩ | ⟨_, q, m, e, _, linked, _⟩
      · exact absurd live fresh
      · obtain ⟨sub, free, hsub, pages⟩ := frameOf_link linked fresh hc hframe
        exact .slot free hsub pages (newFrame_same (pools_link linked).1)
    · have conns : s₁.gConnsList = s.gConnsList := (size_addPool added).2
      have fresh₁ : l.conn ∉ s₁.gConnsList.keys := by rw [conns]; exact fresh
      rcases done with ⟨_, rfl⟩ | ⟨_, q, m, e, _, linked, _⟩
      · exact absurd live fresh₁
      · obtain ⟨sub, free, hsub, pages⟩ := frameOf_link linked fresh₁ hc hframe
        rw [← pages, subMem_addPool added free hsub]
        exact .pool added.1.2.1 (newFrame_addPool added (pools_link linked).2)

end Ripc
