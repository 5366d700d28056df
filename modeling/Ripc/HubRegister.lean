import Ripc.HubPartings
import Ripc.DriverLimits
import Ripc.DriverIoctlFaults

namespace Ripc

variable {K : Kernel} {s s' : Drv} {f t w : Ptr} {v : Int} {r : Reply} {adm effect : Prop}

theorem encard_of_list {α β : Type} [DecidableEq β] {l : List α} {g : α → β} {S : Set β} (nodup : l.Nodup)
    (inj : ∀ a ∈ l, ∀ b ∈ l, g a = g b → a = b) (mem : ∀ b, b ∈ S ↔ ∃ a ∈ l, g a = b) : S.encard = l.length := by
  have listed : S = ((l.map g).toFinset : Set β) := by
    ext b
    simp [mem]
  rw [listed, Set.encard_coe_eq_coe_finsetCard, List.toFinset_card_of_nodup (nodup.map_on inj), List.length_map]

theorem encard_parties (s : Drv) : {t | s.hub.parties t ≠ none}.encard = s.gRegTaskList.keys.length := by
  refine encard_of_list (g := id) s.gRegTaskList.nodup (fun a _ b _ => id) fun t => ?_
  have live : s.hub.parties t ≠ none ↔ ∃ task, s.gRegTaskList.get? t = some task := by
    simp [Drv.hub, Option.ne_none_iff_exists']
  simpa [← Table.mem_keys] using live

theorem encard_entries {β : Type} {entries : Table β} (regTask : β → Ptr) (idOf : β → Option Int) {ids : Set Int}
    (named : ∀ e x, entries.get? e = some x → idOf x ≠ none)
    (inj : ∀ e x e' x', entries.get? e = some x → entries.get? e' = some x' → idOf x = idOf x' → e = e')
    (mem : ∀ i, i ∈ ids ↔ ∃ e x, entries.get? e = some x ∧ regTask x = t ∧ idOf x = some i) :
    ids.encard = (entries.entries.filter fun e => regTask e.2 = t).length := by
  have mine : ∀ e ∈ entries.entries.filter fun e => regTask e.2 = t, entries.get? e.1 = some e.2 ∧ regTask e.2 = t := by
    intro e he
    obtain ⟨he, ht⟩ := List.mem_filter.mp he
    exact ⟨Table.get?_eq_some.mpr he, of_decide_eq_true ht⟩
  refine encard_of_list (g := fun e => (idOf e.2).getD 0) (entries.nodup.of_map.filter _)
    (fun a ha b hb same => ?_) fun i => ?_
  · obtain ⟨i, hi⟩ := Option.ne_none_iff_exists'.mp (named _ _ (mine a ha).1)
    obtain ⟨j, hj⟩ := Option.ne_none_iff_exists'.mp (named _ _ (mine b hb).1)
    simp only [hi, hj, Option.getD_some] at same
    have key := inj _ _ _ _ (mine a ha).1 (mine b hb).1 (by rw [hi, hj, same])
    exact Prod.ext key (Option.some.inj ((mine a ha).1.symm.trans (key ▸ (mine b hb).1)))
  · rw [mem]
    constructor
    · rintro ⟨e, x, hx, ht, hi⟩
      exact ⟨(e, x), List.mem_filter.mpr ⟨Table.get?_eq_some.mp hx, decide_eq_true ht⟩, by simp [hi]⟩
    · rintro ⟨e, he, hi⟩
      obtain ⟨j, hj⟩ := Option.ne_none_iff_exists'.mp (named _ _ (mine e he).1)
      rw [hj, Option.getD_some] at hi
      exact ⟨e.1, e.2, (mine e he).1, (mine e he).2, hi ▸ hj⟩

theorem encard_clientsOf (h : Settled s) (t : Ptr) : (s.hub.clientsOf t).encard = (s.clientsOf t).length := by
  have wf := h.whole.wf
  refine encard_entries ClientsList.regTask (fun x => s.idOf (.client x.client))
    (fun e x hx => Drv.Registers.client wf hx) (fun e x e' x' hx hx' same => ?_) fun i => hub_clients h
  obtain ⟨i, hi⟩ := Option.ne_none_iff_exists'.mp (Drv.Registers.client wf hx')
  have client := h.valid.unique _ _ i (same.trans hi) hi
  exact clientEntry_unique wf hx hx' (Holder.client.inj client)

theorem encard_serversOf (h : Settled s) (t : Ptr) : (s.hub.serversOf t).encard = (s.serversOf t).length := by
  have wf := h.whole.wf
  have named : ∀ e x, s.serversEntries.get? e = some x → ∃ srv, s.gServersList.get? x.server = some srv ∧
      srv.taskP = some e := fun e x hx => wf.servers.object e x x.server hx rfl
  refine encard_entries ServersList.regTask (fun x => s.idOf (.server x.server))
    (fun e x hx => ?_) (fun e x e' x' hx hx' same => ?_) fun i => ?_
  · obtain ⟨srv, hsrv, _⟩ := named e x hx
    simp [idOf_server hsrv]
  · obtain ⟨srv, hsrv, he⟩ := named e x hx
    obtain ⟨srv', hsrv', he'⟩ := named e' x' hx'
    have server := h.valid.unique _ _ srv'.id (same.trans (idOf_server hsrv')) (idOf_server hsrv')
    rw [Holder.server.inj server] at hsrv
    cases hsrv.symm.trans hsrv'
    exact Option.some.inj (he.symm.trans he')
  · constructor
    · rintro ⟨n, hn⟩
      obtain ⟨e, x, srv, hx, ht, hsrv, hid, _⟩ := (hub_servers h).mp hn
      exact ⟨e, x, hx, ht, hid ▸ idOf_server hsrv⟩
    · rintro ⟨e, x, hx, ht, hi⟩
      obtain ⟨srv, hsrv, _⟩ := named e x hx
      have hid := Option.some.inj ((idOf_server hsrv).symm.trans hi)
      exact ⟨srv.name, (hub_servers h).mpr ⟨e, x, srv, hx, ht, hsrv, hid, rfl⟩⟩

theorem refuses {ret : Int} (h : Settled s) (barred : ¬adm) (neg : ret < 0) (hs : returns ret s = .ok (r, s')) :
    Settled s' ∧ s.hub.Made adm r s'.hub effect := by
  obtain ⟨rfl, rfl⟩ := returns_ok hs
  exact ⟨h, Or.inr ⟨barred, neg, rfl⟩⟩

theorem hasRoom_iff {task : RegTask} {own : Set Int} {most : Nat} (ht : s.gRegTaskList.get? t = some task) :
    s.hub.HasRoom t own most ↔ task.isMonitor = 0 ∧ own.encard < most := by
  simp [Hub.HasRoom, Drv.hub, ht, RegTask.party]

theorem room_servers {task : RegTask} (h : Settled s) (reach : Reachable s) (ht : s.gRegTaskList.get? t = some task) :
    s.hub.HasRoom t (s.hub.serversOf t) maxServersPerPid ↔ task.canAddServer = true := by
  have count := reach.tallied.servers t task.numOfServers (by rw [ht]; rfl)
  rw [hasRoom_iff ht, encard_serversOf h, Drv.serversOf, RegTask.canAddServer, decide_eq_true_eq, count, Nat.cast_lt,
    Nat.cast_lt]

theorem room_clients {task : RegTask} (h : Settled s) (reach : Reachable s) (ht : s.gRegTaskList.get? t = some task) :
    s.hub.HasRoom t (s.hub.clientsOf t) maxClientsPerPid ↔ task.canAddClient = true := by
  have count := reach.tallied.clients t task.numOfClients (by rw [ht]; rfl)
  rw [hasRoom_iff ht, encard_clientsOf h, Drv.clientsOf, RegTask.canAddClient, decide_eq_true_eq, count, Nat.cast_lt,
    Nat.cast_lt]

theorem named_of_found {name : Vector UInt8 maxServerName} (h : Settled s)
    (hf : findServerByName s name.toList = .ok (some w)) :
    ∃ v, s.idOf (.server w) = some v ∧ s.hub.Named name.toList v := by
  rw [findServerByName_eq] at hf
  obtain ⟨srv, hsrv, hn⟩ := Table.find?_eq_some (Except.ok.inj hf)
  obtain ⟨t, offers⟩ := h.offers hsrv
  exact ⟨srv.id, idOf_server hsrv, t, srv.name, (hub_servers h).mpr offers, of_decide_eq_true hn⟩

theorem unnamed_of_none {name : Vector UInt8 maxServerName} (h : Settled s)
    (hf : findServerByName s name.toList = .ok none) (v : Int) : ¬s.hub.Named name.toList v := by
  rintro ⟨t, n, offered, hn⟩
  obtain ⟨e, x, srv, _, _, hsrv, _, rfl⟩ := (hub_servers h).mp offered
  rw [findServerByName_eq] at hf
  have other := Table.find?_eq_none.mp (Except.ok.inj hf) x.server srv hsrv
  exact of_decide_eq_false (by simpa using other) hn

theorem hub_ipcOpen (h : Settled s) (reach : Reachable s) (succeeds : K.Succeeds) (hs : ipcOpen K s = .ok (r, s')) :
    Settled s' ∧ s.hub.Serves ⟨K, .open⟩ r s'.hub := by
  have count := reach.bounded.count
  have room : regTaskCanAddTask s = true ↔ {t | s.hub.parties t ≠ none}.encard < maxProcesses := by
    rw [encard_parties, regTaskCanAddTask, decide_eq_true_eq, count, Nat.cast_lt, Nat.cast_lt]
  unfold ipcOpen at hs
  split at hs
  next none => exact absurd none (succeeds.kmalloc .filp s)
  next f hf =>
    split at hs
    next full =>
      refine refuses h (fun ok => ?_) (by decide) hs
      simp [room.mpr ok.2.1] at full
    next space =>
      have space : regTaskCanAddTask s = true := by simpa using space
      cases made : regTaskCreate K s with
      | mk o s₁ =>
        rw [made] at hs
        unfold regTaskCreate at made
        split at made
        next dead =>
          cases made
          refine refuses h (fun ok => ?_) (by decide) hs
          have alive : K.pidAlive K.current = true := ok.1
          simp [alive] at dead
        next alive =>
          have alive : K.pidAlive K.current = true := by simpa using alive
          split at made
          next known =>
            cases made
            refine refuses h (fun ok => ?_) (by decide) hs
            rw [regTaskFindByTaskStruct, if_pos alive] at known
            obtain ⟨t, ht⟩ := Option.isSome_iff_exists.mp known
            obtain ⟨task, ht, same⟩ := Table.find?_eq_some ht
            exact ok.2.2 t task.party (by simp [Drv.hub, ht]) (of_decide_eq_true same)
          next unknown =>
            split at made
            next none => exact absurd none (succeeds.kmalloc .regTask s)
            next t ht =>
              cases made
              cases hs
              have file := K.kmalloc_fresh .filp s f hf
              have task := K.kmalloc_fresh .regTask s t ht
              have he : s.event (.openTask f t K.current) (s.openTask f t K.current) := ⟨⟨file, task⟩, rfl⟩
              refine ⟨h.event he trivial (by simp [Event.newIds]), Or.inl ⟨⟨alive, room.mp space, ?_⟩, f, t, ?_, ?_,
                rfl, hub_openTask he⟩⟩
              · intro u p hu same
                obtain ⟨task', hu', rfl⟩ := Option.map_eq_some_iff.mp hu
                rw [regTaskFindByTaskStruct, if_pos alive, Option.not_isSome_iff_eq_none] at unknown
                have other := Table.find?_eq_none.mp unknown u task' hu'
                simp only [decide_eq_false_iff_not] at other
                exact other same
              · exact Table.get?_eq_none.mpr file
              · exact Option.map_eq_none_iff.mpr (Table.get?_eq_none.mpr task)

section

variable {task : RegTask} (h : Settled s) (reach : Reachable s) (ht : s.gRegTaskList.get? t = some task)
  (file : s.files.get? f = some t) (succeeds : K.Succeeds)

include h reach ht file succeeds

theorem hub_registerServer {reg : ServerRegistration} (noError : NoIdError s ⟨K, .ioctl f (.registerServer reg)⟩)
    (hs : registerServer K s t reg = .ok (r, s')) :
    Settled s' ∧ s.hub.ServesCmd t (.registerServer reg) r s'.hub := by
  rcases registerServer_ok hs ht with ⟨rfl, refused⟩ | ⟨can, copy, hf, named, w, owner, hk, he, outcome⟩
  · generalize hret : r.ret = ret at refused
    refine ⟨h, Or.inr ⟨fun ok => ?_, ?_, rfl⟩⟩
    · cases refused with
      | full full => simp [(room_servers h reach ht).mp ok.1] at full
      | copy _ failed => simp [succeeds.copyFromUser] at failed
      | «exists» _ _ found =>
        obtain ⟨v, _, named⟩ := named_of_found h found
        exact ok.2 v named
    · cases refused <;> rw [hret] <;> decide
  · have asks : Call.Asks ⟨K, .ioctl f (.registerServer reg)⟩ s [.server] :=
      .server rfl file ht ⟨can, copy, hf, named, by simp [hk]⟩
    have h0 := noError _ asks _ List.mem_cons_self
    have valid : isIdValid (K.idaAllocRange .server s.gIdGen) = true :=
      isIdValid_iff.mpr ⟨h0, (K.idaAllocRange_ok .server s.gIdGen h0).1⟩
    cases outcome with
    | copy failed => simp [succeeds.copyToUser] at failed
    | entry _ failed => exact absurd failed (succeeds.kmalloc .serversEntry _)
    | done =>
      have h' := h.event he (by simp [Event.Complete]) (by simpa [Event.newIds] using valid)
      refine ⟨h', Or.inl ⟨⟨(room_servers h reach ht).mpr can, unnamed_of_none h hf⟩, _, ⟨valid, ?_⟩, rfl, ?_⟩⟩
      · exact unused_of_fresh h valid he.1.2.1
      · exact hub_addServer h h' valid he

theorem hub_registerClient (noError : NoIdError s ⟨K, .ioctl f .registerClient⟩)
    (hs : registerClient K s t = .ok (r, s')) : Settled s' ∧ s.hub.ServesCmd t .registerClient r s'.hub := by
  rcases registerClient_ok hs ht with ⟨rfl, full, hret⟩ | ⟨can, k, owner, hk, he, outcome⟩
  · refine ⟨h, Or.inr ⟨fun room => ?_, by rw [hret]; decide, rfl⟩⟩
    simp [(room_clients h reach ht).mp room] at full
  · have asks : Call.Asks ⟨K, .ioctl f .registerClient⟩ s [.client] := .client rfl file ht ⟨can, by simp [hk]⟩
    have h0 := noError _ asks _ List.mem_cons_self
    have valid : isIdValid (K.idaAllocRange .client s.gIdGen) = true :=
      isIdValid_iff.mpr ⟨h0, (K.idaAllocRange_ok .client s.gIdGen h0).1⟩
    cases outcome with
    | copy failed => simp [succeeds.copyToUser] at failed
    | entry _ failed => exact absurd failed (succeeds.kmalloc .clientsEntry _)
    | done =>
      have h' := h.event he (by simp [Event.Complete]) (by simpa [Event.newIds] using valid)
      refine ⟨h', Or.inl ⟨(room_clients h reach ht).mpr can, _, ⟨valid, ?_⟩, rfl, hub_addClient h h' valid he⟩⟩
      exact unused_of_fresh h valid he.1.2.1

end

theorem hub_registerMonitor {task : RegTask} {ret : Int} (h : Settled s) (reach : Reachable s)
    (ht : s.gRegTaskList.get? t = some task) (hs : regTaskSetMonitor s t = .ok (ret, s')) :
    Settled s' ∧ s.hub.ServesCmd t .registerMonitor ⟨ret, .nothing⟩ s'.hub := by
  have servers : s.hub.serversOf t = ∅ ↔ ¬0 < task.numOfServers := by
    rw [← Set.encard_eq_zero, encard_serversOf h, reach.tallied.servers t task.numOfServers (by rw [ht]; rfl),
      Drv.serversOf]
    simp
  have clients : s.hub.clientsOf t = ∅ ↔ ¬0 < task.numOfClients := by
    rw [← Set.encard_eq_zero, encard_clientsOf h, reach.tallied.clients t task.numOfClients (by rw [ht]; rfl),
      Drv.clientsOf]
    simp
  simp only [regTaskSetMonitor, deref_of_get? ht, ok_bind] at hs
  split at hs
  next busy =>
    cases hs
    refine ⟨h, Or.inr ⟨fun ok => ?_, by decide, rfl⟩⟩
    exact busy.elim (clients.mp ok.2.1) (servers.mp ok.1)
  next idle =>
    obtain ⟨noClients, noServers⟩ := not_or.mp idle
    split at hs
    next watched =>
      cases hs
      refine ⟨h, Or.inr ⟨fun ok => ?_, by decide, rfl⟩⟩
      obtain ⟨u, hu⟩ := Option.isSome_iff_exists.mp watched
      obtain ⟨task', hu', watches⟩ := Table.find?_eq_some hu
      have none := ok.2.2 u task'.party (by simp [Drv.hub, hu'])
      simp only [RegTask.party, decide_eq_false_iff_not] at none
      exact none (of_decide_eq_true watches)
    next unwatched =>
      cases hs
      have plain : ∀ u task', s.gRegTaskList.get? u = some task' → task'.isMonitor = 0 := by
        intro u task' hu
        have other := Table.find?_eq_none.mp (Option.not_isSome_iff_eq_none.mp unwatched) u task' hu
        simpa using other
      have he : s.event (.setMonitor t) (s.apply (.setMonitor t)) := ⟨trivial, rfl⟩
      have served := hub_setMonitor ht (plain t task ht) he
      refine ⟨h.event he trivial (by simp [Event.newIds]),
        Or.inl ⟨⟨servers.mpr noServers, clients.mpr noClients, ?_⟩, rfl, served⟩⟩
      intro u p hu
      obtain ⟨task', hu', rfl⟩ := Option.map_eq_some_iff.mp hu
      simp [RegTask.party, plain u task' hu']

end Ripc
