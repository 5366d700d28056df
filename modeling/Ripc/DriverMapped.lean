import Ripc.DriverPages

namespace Ripc

/-- Over connection `q` the client `c` has mapped the sub-memory `x` that it shares with server `v`. -/
def Drv.MappedAt (s : Drv) (v q : Ptr) (c x : Int) : Prop :=
  ∃ con k m, s.gConnsList.get? q = some con ∧ con.servMmaped = true ∧ con.serverP = some v ∧
    con.clientP = some k ∧ s.idOf (.client k) = some c ∧ con.memP = some m ∧ s.idOf (.subMem m) = some x

def Drv.Mapped (s : Drv) (v : Ptr) (c x : Int) : Prop := ∃ q, s.MappedAt v q c x

/-- The client has a connection to the server. -/
def Drv.Joined (s : Drv) (v : Ptr) (c : Int) : Prop :=
  ∃ q con k, s.gConnsList.get? q = some con ∧ con.serverP = some v ∧ con.clientP = some k ∧
    s.idOf (.client k) = some c

/-- Where a server of an open process stands in the driver. -/
structure Seat where
  fd : Ptr
  task : Ptr
  server : Ptr
  entry : Ptr
  id : Int

/-- The server is registered there. -/
structure Seat.Occupied (seat : Seat) (s : Drv) : Prop where
  valid : isIdValid seat.id = true
  file : s.files.get? seat.fd = some seat.task
  server : ∃ srv, s.gServersList.get? seat.server = some srv ∧ srv.id = seat.id ∧ srv.taskP = some seat.entry
  entry : s.serversEntries.get? seat.entry = some ⟨seat.task, seat.server⟩

/-- What the server's clients have mapped has valid ids. -/
structure Seat.Held (seat : Seat) (s : Drv) : Prop extends seat.Occupied s where
  orderly : Orderly s
  mapped : ∀ c x, s.Mapped seat.server c x → isIdValid c = true ∧ isIdValid x = true

variable {s s' : Drv} {seat : Seat} {ev : Event} {v q q' : Ptr} {c x x' : Int}

theorem idOf_stays {a : Holder} {id : Int} (he : s.event ev s') (ha : s.idOf a = some id)
    (live : s'.idOf a ≠ none) : s'.idOf a = some id := by
  obtain ⟨ok, rfl⟩ := he
  have added : ∀ (holder : Holder) (new : Int), s.idOf holder = none →
      (if a = holder then some new else s.idOf a) = some id := by
    intro holder new fresh
    have other : a ≠ holder := by
      rintro rfl
      rw [fresh] at ha
      cases ha
    rw [if_neg other, ha]
  cases ev with
  | addServer v name i owner =>
    have new := added (.server v) i (by simp [Drv.idOf, Table.get?_eq_none.mpr ok.1])
    cases owner with
    | none => exact (idOf_addServer ok.1 a).trans new
    | some o => exact (idOf_attachServer v o.1 o.2 a).trans ((idOf_addServer ok.1 a).trans new)
  | addClient k i owner =>
    have new := added (.client k) i (by simp [Drv.idOf, Table.get?_eq_none.mpr ok.1])
    cases owner with
    | none => exact (idOf_addClient ok.1 a).trans new
    | some o => exact (idOf_attachClient k o.1 o.2 a).trans ((idOf_addClient ok.1 a).trans new)
  | dropServer e y i =>
    have left := idOf_dropServer (s := s) e y i a
    split at left
    next => exact absurd left live
    next => exact left.trans ha
  | dropClient e y i =>
    have left := idOf_dropClient (s := s) e y i a
    split at left
    next => exact absurd left live
    next => exact left.trans ha
  | addPool p shm =>
    refine (idOf_addPool ok.1 a).trans ?_
    have old : a.poolIndex p = none := by
      cases a with
      | client | server => rfl
      | pool r =>
        obtain ⟨y, hy, _⟩ := Option.map_eq_some_iff.mp ha
        refine if_neg ?_
        rintro rfl
        exact ok.1 (Table.mem_keys.mpr ⟨y, hy⟩)
      | subMem m =>
        obtain ⟨y, hy, _⟩ := Option.map_eq_some_iff.mp ha
        obtain ⟨z, hz, _⟩ := Option.map_eq_some_iff.mp hy
        refine if_neg ?_
        rintro rfl
        exact ok.1 (Table.mem_keys.mpr ⟨z, hz⟩)
    rw [old, Option.elim_none, ha]
  | link p k v m e => exact (idOf_link p k v m e a).trans ha
  | teardown p ds => exact (idOf_teardown p ds a).trans ha
  | openTask | closeTask | closeFile | setMonitor | dequeue | mmaped | post => cases a <;> exact ha

theorem client_live (wf : Wf s) {con : Connection} {k : Ptr} (hc : s.gConnsList.get? q = some con)
    (hk : con.clientP = some k) : s.idOf (.client k) ≠ none := by
  obtain ⟨cli, hcli, _⟩ := wf.links.connClient q con k hc hk
  rw [idOf_client hcli]
  exact Option.some_ne_none _

theorem subMem_live (wf : Wf s) {con : Connection} {m : SubMemPtr} (hc : s.gConnsList.get? q = some con)
    (hm : con.memP = some m) : s.idOf (.subMem m) ≠ none := by
  obtain ⟨sub, hsub, _⟩ := wf.links.connMem q con m hc hm
  rw [idOf_subMem hsub]
  exact Option.some_ne_none _

/-- Only mapping over a connection makes it a mapped one. -/
theorem mappedAt_before (wf : Wf s) (he : s.event ev s') (other : ev ≠ .mmaped q)
    (h : s'.MappedAt v q c x) : s.MappedAt v q c x := by
  have wf' := wf.event he
  obtain ⟨con, k, m, hcon, flag, hv, hk, hc, hm, hx⟩ := h
  by_cases linked : ∃ k v m e, ev = .link q k v m e
  · obtain ⟨k', v', m', e, rfl⟩ := linked
    rw [he.2, Drv.apply, conns_link he.1.1, if_pos rfl] at hcon
    cases hcon
    cases flag
  · have live := conns_event he (fun k v m e hev => linked ⟨k, v, m, e, hev⟩) (Table.mem_keys.mpr ⟨con, hcon⟩)
    obtain ⟨old, hold⟩ := Table.mem_keys.mp live
    rcases conn_event he hold with ⟨ds, rfl⟩ | same | ⟨hev, _⟩
    · exact absurd (Table.mem_keys.mpr ⟨con, hcon⟩) (teardown_gone he).2
    · cases hcon.symm.trans same
      obtain ⟨c₀, hc₀⟩ := Option.ne_none_iff_exists'.mp (client_live wf hold hk)
      obtain ⟨x₀, hx₀⟩ := Option.ne_none_iff_exists'.mp (subMem_live wf hold hm)
      cases hc.symm.trans (idOf_stays he hc₀ (client_live wf' hcon hk))
      cases hx.symm.trans (idOf_stays he hx₀ (subMem_live wf' hcon hm))
      exact ⟨con, k, m, hold, flag, hv, hk, hc₀, hm, hx₀⟩
    · exact absurd hev other

/-- Only the tear-down of a connection ends its mapping. -/
theorem mappedAt_after (wf : Wf s) (he : s.event ev s') (other : ∀ ds, ev ≠ .teardown q ds)
    (h : s.MappedAt v q c x) : s'.MappedAt v q c x := by
  have wf' := wf.event he
  obtain ⟨con, k, m, hcon, flag, hv, hk, hc, hm, hx⟩ := h
  have kept : ∃ con', s'.gConnsList.get? q = some con' ∧ con'.servMmaped = true ∧ con'.serverP = some v ∧
      con'.clientP = some k ∧ con'.memP = some m := by
    rcases conn_event he hcon with ⟨ds, hev⟩ | same | ⟨_, hcon'⟩
    · exact absurd hev (other ds)
    · exact ⟨con, same, flag, hv, hk, hm⟩
    · exact ⟨_, hcon', rfl, hv, hk, hm⟩
  obtain ⟨con', hcon', flag', hv', hk', hm'⟩ := kept
  exact ⟨con', k, m, hcon', flag', hv', hk', idOf_stays he hc (client_live wf' hcon' hk'), hm',
    idOf_stays he hx (subMem_live wf' hcon' hm')⟩

theorem mappedAt_unique (orderly : Orderly s) (valid : isIdValid c = true) (h : s.MappedAt v q c x)
    (h' : s.MappedAt v q' c x') : q = q' ∧ x = x' := by
  obtain ⟨con, k, m, hcon, _, _, hk, hc, hm, hx⟩ := h
  obtain ⟨con', k', m', hcon', _, _, hk', hc', hm', hx'⟩ := h'
  have same := orderly.ids.unique (.client k) (.client k') c (isIdValid_iff.mp valid).1 hc hc'
  cases same
  obtain ⟨cli, hcli, hq⟩ := orderly.wf.links.connClient q con k hcon hk
  obtain ⟨cli', hcli', hq'⟩ := orderly.wf.links.connClient q' con' k hcon' hk'
  cases hcli.symm.trans hcli'
  cases hq.symm.trans hq'
  cases hcon.symm.trans hcon'
  cases hm.symm.trans hm'
  exact ⟨rfl, Option.some.inj (hx.symm.trans hx')⟩

theorem MappedAt.linked (wf : Wf s) (h : s.MappedAt v q c x) : s.Linked c q := by
  obtain ⟨con, k, m, hcon, _, _, hk, hc, _⟩ := h
  obtain ⟨cli, hcli, hq⟩ := wf.links.connClient q con k hcon hk
  rw [idOf_client hcli] at hc
  exact ⟨k, cli, hcli, Option.some.inj hc, hq⟩

/-- The event neither closes the file of the process nor drops the server. -/
def Event.KeepsSeat (seat : Seat) : Event → Prop
  | .closeTask f _ | .closeFile f => f ≠ seat.fd
  | .dropServer e _ _ => e ≠ seat.entry
  | _ => True

theorem file_event {fd t : Ptr} (wf : Wf s) (file : s.files.get? fd = some t) (he : s.event ev s')
    (task : ∀ u, ev ≠ .closeTask fd u) (alone : ev ≠ .closeFile fd) : s'.files.get? fd = some t := by
  by_cases read : ∃ u, ev = .dequeue u
  · obtain ⟨u, rfl⟩ := read
    rw [he.2]
    exact file
  · refine (queue_event wf file he ?_).1
    cases ev with
    | dequeue u => exact absurd ⟨u, rfl⟩ read
    | closeTask f u =>
      rintro rfl
      exact task u rfl
    | closeFile f =>
      rintro rfl
      exact alone rfl
    | _ => trivial

theorem server_event (wf : Wf s) (occupied : seat.Occupied s) (he : s.event ev s') (keeps : ev.KeepsSeat seat) :
    (∃ srv, s'.gServersList.get? seat.server = some srv ∧ srv.id = seat.id ∧ srv.taskP = some seat.entry) ∧
      s'.serversEntries.get? seat.entry = some ⟨seat.task, seat.server⟩ := by
  have server := occupied.server
  obtain ⟨srv, hsrv, hid, htask⟩ := occupied.server
  have entry := occupied.entry
  obtain ⟨ok, rfl⟩ := he
  cases ev with
  | addServer v name i owner =>
    have other : seat.server ≠ v := by
      rintro rfl
      exact ok.1 (Table.mem_keys.mpr ⟨srv, hsrv⟩)
    have new : (s.addServer v name i).gServersList.get? seat.server = some srv := by
      rw [Drv.addServer, Table.get?_pushBack ok.1, if_neg other, hsrv]
    cases owner with
    | none => exact ⟨⟨srv, new, hid, htask⟩, entry⟩
    | some o =>
      have fresh := (ok.2.2 o rfl).1
      have otherEntry : seat.entry ≠ o.1 := fun he => fresh (he ▸ Table.mem_keys.mpr ⟨_, entry⟩)
      refine ⟨⟨srv, ?_, hid, htask⟩, ?_⟩
      · rw [Drv.apply, Option.elim_some, Drv.attachServer, Table.get?_modify, if_neg other, new]
      · exact (Table.get?_pushFront fresh).trans ((if_neg otherEntry).trans entry)
  | addClient k i owner => cases owner <;> exact ⟨server, entry⟩
  | dropServer e y i =>
    have other : seat.server ≠ y.server := by
      intro he
      obtain ⟨o, ho, hp⟩ := wf.servers.object e y y.server ok.1 rfl
      cases hsrv.symm.trans (he ▸ ho)
      exact keeps (Option.some.inj (hp.symm.trans htask))
    refine ⟨⟨srv, ?_, hid, htask⟩, Table.get?_erase_some.mpr ⟨Ne.symm keeps, entry⟩⟩
    exact Table.get?_erase_some.mpr ⟨other, hsrv⟩
  | addPool p shm =>
    rw [Drv.apply, Drv.addPool, takeIds_frame]
    exact ⟨server, entry⟩
  | teardown p ds =>
    rw [Drv.apply, enqueueAll_eq]
    exact ⟨server, entry⟩
  | _ => exact ⟨server, entry⟩

theorem Seat.Occupied.event (occupied : seat.Occupied s) (wf : Wf s) (he : s.event ev s')
    (keeps : ev.KeepsSeat seat) : seat.Occupied s' := by
  obtain ⟨server, entry⟩ := server_event wf occupied he keeps
  have file : s'.files.get? seat.fd = some seat.task := by
    refine file_event wf occupied.file he (fun u h => ?_) fun h => ?_
    · subst h
      exact keeps rfl
    · subst h
      exact keeps rfl
  exact ⟨occupied.valid, file, server, entry⟩

theorem Seat.Held.event (held : seat.Held s) (he : s.event ev s') (keeps : ev.KeepsSeat seat)
    (mapped : ∀ c x, s'.Mapped seat.server c x → isIdValid c = true ∧ isIdValid x = true) : seat.Held s' := by
  exact ⟨held.toOccupied.event held.orderly.wf he keeps, held.orderly.event he, mapped⟩

end Ripc
