import Ripc.ServerManager

namespace Ripc

/-- What is known of the driver in a run whose requests are granted. -/
theorem served_run {calls : List Call} {s : Drv}
    (run : Trace (fun s call s' => call.Provided s ∧ Returns s call s') Drv.init calls s) :
    Settled s ∧ Reachable s ∧ s.hub.Sound := by
  refine run.invariant (I := fun s => Settled s ∧ Reachable s ∧ s.hub.Sound) ?_ ⟨.init, ⟨[], .nil⟩, ?_⟩
  · rintro a call b ⟨h, ⟨calls, before⟩, so⟩ ⟨provided, r, hr⟩
    obtain ⟨hb, serves⟩ := hub_step h ⟨calls, before⟩ provided hr
    exact ⟨hb, ⟨calls ++ [call], before.append (.single ⟨r, hr⟩)⟩, serves.sound so⟩
  · rw [hub_init]
    exact .empty

theorem provided_unregister {K : Kernel} {s : Drv} {f : Ptr} {arg : U32} (succeeds : K.Succeeds) :
    Call.Provided ⟨K, .ioctl f (.serverUnregister arg)⟩ s := by
  refine ⟨succeeds, fun sites asks => ?_⟩
  cases asks with
  | server op => cases op
  | client op => cases op
  | pool op => cases op

namespace ServerManager

variable {p p' : ServerManager} {K K' : Kernel} {t : Ptr} {call : Call} {r : Reply} {name : List UInt8} {i : Int}

/-- The process beside the driver, with `t` its task. -/
structure Attached (p : ServerManager) (t : Ptr) : Prop where
  settled : Settled p.drv
  reach : Reachable p.drv
  sound : p.drv.hub.Sound
  file : p.drv.hub.handles p.fd = some t
  limit : p.maxServers = maxServersPerPid

theorem driver_ok (h : p.driver call = some (r, p')) :
    ∃ s, step p.drv call = .ok (r, s) ∧ p' = { p with drv := s } := by
  obtain ⟨⟨r', s⟩, hs, he⟩ := Option.map_eq_some_iff.mp h
  cases he
  refine ⟨s, ?_, rfl⟩
  cases hstep : step p.drv call with
  | error e =>
    rw [hstep] at hs
    cases hs
  | ok a =>
    rw [hstep] at hs
    cases hs
    rfl

theorem Attached.after (a : p.Attached t) (provided : call.Provided p.drv) (h : p.driver call = some (r, p')) :
    p'.servers = p.servers ∧ p'.fd = p.fd ∧ p.drv.hub.Serves call r p'.drv.hub ∧
      (p'.drv.hub.handles p.fd = some t → p'.Attached t) := by
  obtain ⟨s, hs, rfl⟩ := driver_ok h
  obtain ⟨calls, before⟩ := a.reach
  obtain ⟨settled, serves⟩ := hub_step a.settled ⟨calls, before⟩ provided hs
  have reach : Reachable s := ⟨calls ++ [call], before.append (.single ⟨r, hs⟩)⟩
  exact ⟨rfl, rfl, serves, fun file => ⟨settled, reach, serves.sound a.sound, file, a.limit⟩⟩

theorem Attached.returns_unregister (a : p.Attached t) (succeeds : K.Succeeds) (i : Int) :
    ∃ p', p.destroyServer K i = some p' := by
  cases hs : step p.drv ⟨K, .ioctl p.fd (.serverUnregister (packIds i 0))⟩ with
  | error e =>
    have fault : ipcIoctl K p.drv p.fd (.serverUnregister (packIds i 0)) = .error e := hs
    exact ((ioctl_faults a.settled a.reach succeeds a.file).mp fault).elim
  | ok x => exact ⟨{ p with drv := x.2 }, by simp [destroyServer, driver, hs, Except.toOption]⟩

theorem Attached.destroy (a : p.Attached t) (succeeds : K.Succeeds) (h : p.destroyServer K i = some p') :
    p'.Attached t ∧ p'.servers = p.servers ∧ ∀ id n, p'.drv.hub.servers id = some (t, n) ↔
      p.drv.hub.servers id = some (t, n) ∧ id ≠ unpackId1 (packIds i 0) := by
  obtain ⟨⟨r, p₁⟩, hd, rfl⟩ := Option.map_eq_some_iff.mp h
  obtain ⟨same, fd, serves, attached⟩ := a.after (provided_unregister succeeds) hd
  simp only [Hub.Serves, a.file] at serves
  rcases serves with ⟨known, cs, _, _, _, withdrawn⟩ | ⟨unknown, _, idle⟩
  · have cut := Hub.mailed_severAll p.drv.hub cs
    refine ⟨attached ?_, same, fun id n => ?_⟩
    · rw [withdrawn]
      exact (congrFun cut.handles p.fd).trans a.file
    · rw [withdrawn, Broker.servers_withdraw, cut.servers]
      split
      next => simp [*]
      next other => exact (and_iff_left other).symm
  · refine ⟨attached (idle ▸ a.file), same, fun id n => ?_⟩
    rw [idle, iff_self_and]
    rintro offered rfl
    rw [not_not.mp unknown] at offered
    cases offered

/-- The driver has the servers of the manager, and no others, for the process. -/
structure Matches (p : ServerManager) (t : Ptr) : Prop extends Attached p t where
  same : p.SameServers t

theorem SameServers.encard (same : p.SameServers t) : (p.drv.hub.serversOf t).encard = p.servers.keys.length := by
  refine encard_of_list (g := Nat.cast) p.servers.nodup (fun a _ b _ h => Int.ofNat.inj h) fun id => ?_
  constructor
  · rintro ⟨n, offered⟩
    obtain ⟨k, name, hk, rfl, _⟩ := same.held id n offered
    exact ⟨k, Table.mem_keys.mpr ⟨name, hk⟩, rfl⟩
  · rintro ⟨k, hk, rfl⟩
    obtain ⟨name, hk⟩ := Table.mem_keys.mp hk
    obtain ⟨n, offered, _⟩ := same.known k name hk
    exact ⟨n, offered⟩

theorem SameServers.of_iff (same : p.SameServers t) (servers : p'.servers = p.servers)
    (offers : ∀ id n, p'.drv.hub.servers id = some (t, n) ↔ p.drv.hub.servers id = some (t, n)) : p'.SameServers t := by
  refine ⟨fun id n h => ?_, fun k name h => ?_⟩
  · rw [servers]
    exact same.held id n ((offers id n).mp h)
  · rw [servers] at h
    obtain ⟨n, offered, chars⟩ := same.known k name h
    exact ⟨n, (offers k n).mpr offered, chars⟩

theorem SameServers.pushBack {k : Nat} (same : p.SameServers t) (short : name.length < maxServerName)
    (servers : p'.servers = p.servers) (fresh : k ∉ p'.servers.keys) (offers : ∀ id n,
      p'.drv.hub.servers id = some (t, n) ↔ p.drv.hub.servers id = some (t, n) ∨ (id = k ∧ n.chars = cstr name)) :
    SameServers { p' with servers := p'.servers.pushBack k name } t := by
  refine ⟨fun id n offered => ?_, fun j name' hj => ?_⟩
  · rcases (offers id n).mp offered with old | ⟨rfl, chars⟩
    · obtain ⟨j, name', hj, rfl, chars⟩ := same.held id n old
      refine ⟨j, name', ?_, rfl, chars⟩
      rw [← servers] at hj
      rw [Table.get?_pushBack fresh, if_neg, hj]
      rintro rfl
      exact fresh (Table.mem_keys.mpr ⟨name', hj⟩)
    · exact ⟨k, name, by rw [Table.get?_pushBack fresh, if_pos rfl], rfl, chars⟩
  · rw [Table.get?_pushBack fresh] at hj
    split at hj
    next new =>
      cases hj
      have fits : (cstr name).length < maxServerName := Nat.lt_of_le_of_lt (length_cstr_le name) short
      exact ⟨⟨cstr name, zero_notMem_cstr name, fits⟩, (offers j _).mpr (Or.inr ⟨by rw [new], rfl⟩), rfl⟩
    next =>
      rw [servers] at hj
      obtain ⟨n, offered, chars⟩ := same.known j name' hj
      exact ⟨n, (offers j n).mpr (Or.inl offered), chars⟩

theorem Matches.stray (m : p.Matches t) (succeeds : K.Succeeds) (spared : 65535 ∉ p.servers.keys)
    (h : p.destroyServer K (-1) = some p') : p'.Matches t ∧ p'.servers = p.servers := by
  obtain ⟨a, servers, left⟩ := m.destroy succeeds h
  have hit : unpackId1 (packIds (-1) 0) = ((65535 : Nat) : Int) := by decide
  refine ⟨⟨a, m.same.of_iff servers fun id n => ?_⟩, servers⟩
  rw [left, hit, and_iff_left_iff_imp]
  rintro offered rfl
  obtain ⟨k, name, hk, same, _⟩ := m.same.held _ n offered
  obtain rfl := Int.ofNat.inj same
  exact spared (Table.mem_keys.mpr ⟨name, hk⟩)

theorem Matches.deleteServer (m : p.Matches t) (succeeds : K.Succeeds) (h : p.deleteServer K i = some p') :
    p'.Matches t := by
  unfold ServerManager.deleteServer at h
  split at h
  next => cases h; exact m
  next known =>
    obtain ⟨valid, _⟩ := not_or.mp known
    have valid : isIdValid i = true := by simpa using valid
    have h0 : ((i.toNat : Nat) : Int) = i := Int.toNat_of_nonneg (isIdValid_iff.mp valid).1
    have erased : Attached { p with servers := p.servers.erase i.toNat } t :=
      ⟨m.settled, m.reach, m.sound, m.file, m.limit⟩
    obtain ⟨a, servers, left⟩ := erased.destroy succeeds h
    rw [unpackId1_packIds valid rfl] at left
    refine ⟨a, fun id n offered => ?_, fun k name hk => ?_⟩
    · obtain ⟨offered, other⟩ := (left id n).mp offered
      obtain ⟨k, name, hk, rfl, chars⟩ := m.same.held id n offered
      refine ⟨k, name, ?_, rfl, chars⟩
      rw [servers]
      refine Table.get?_erase_some.mpr ⟨?_, hk⟩
      rintro rfl
      exact other h0
    · rw [servers] at hk
      obtain ⟨other, hk⟩ := Table.get?_erase_some.mp hk
      obtain ⟨n, offered, chars⟩ := m.same.known k name hk
      refine ⟨n, (left k n).mpr ⟨offered, ?_⟩, chars⟩
      rintro rfl
      exact other rfl

theorem Matches.other (m : p.Matches t) (fits : p.Fits (.other call)) (h : p.driver call = some (r, p')) :
    p'.Matches t := by
  obtain ⟨provided, stays, adds, drops⟩ := fits
  obtain ⟨servers, _, serves, attached⟩ := m.after provided h
  have kept := serves.keeps m.sound m.file stays adds fun f arg op n offered => by
    obtain ⟨k, name, hk, same, _⟩ := m.same.held _ n offered
    refine drops f arg op ?_
    rw [same]
    exact Table.mem_keys.mpr ⟨name, hk⟩
  exact ⟨attached (kept.handle m.file), m.same.of_iff servers kept.servers⟩

theorem Matches.room (m : p.Matches t) (nonempty : name ≠ []) (short : name.length < maxServerName) :
    p.drv.hub.HasRoom t (p.drv.hub.serversOf t) maxServersPerPid ∧
      (∀ v, ¬p.drv.hub.Named (Process.nameField name).toList v) ↔ p.Admits t name := by
  simp only [Hub.HasRoom, m.same.encard, named_iff short, Nat.cast_lt, Admits, nonempty, short, ne_eq,
    not_false_eq_true, true_and]
  constructor
  · rintro ⟨⟨works, room⟩, free⟩
    exact ⟨room, works, fun id u n offered chars => free id ⟨u, n, offered, chars⟩⟩
  · rintro ⟨room, works, free⟩
    refine ⟨⟨works, room⟩, fun id taken => ?_⟩
    obtain ⟨u, n, offered, chars⟩ := taken
    exact free id u n offered chars

theorem Matches.register_faults (m : p.Matches t) (succeeds : K.Succeeds) (nonempty : name ≠ [])
    (short : name.length < maxServerName) :
    p.driver (p.registerCall K name) = none ↔ p.Admits t name ∧ cstr name = [] := by
  have faults : ∀ e, step p.drv (p.registerCall K name) = .error e ↔
      (p.Admits t name ∧ cstr name = []) ∧ e = .nullDeref := by
    intro e
    change ipcIoctl K p.drv p.fd (.registerServer (registration name)) = .error e ↔ _
    rw [ioctl_faults m.settled m.reach succeeds m.file, ← m.room nonempty short, and_assoc]
    simp only [Hub.FaultsCmd, strlen_registration short, reduceCtorEq, false_and, false_or, Option.some.injEq,
      List.length_eq_zero_iff]
    rfl
  have none : p.driver (p.registerCall K name) = none ↔ ∃ e, step p.drv (p.registerCall K name) = .error e := by
    cases hs : step p.drv (p.registerCall K name) <;> simp [driver, hs, Except.toOption]
  simp [none, faults]

theorem Matches.register (m : p.Matches t) (provided : (p.registerCall K name).Provided p.drv) (nonempty : name ≠ [])
    (short : name.length < maxServerName) (h : p.driver (p.registerCall K name) = some (r, p')) :
    p'.servers = p.servers ∧ p'.Attached t ∧ ((¬p.Admits t name ∧ r.ret < 0 ∧ p'.Matches t) ∨ (p.Admits t name ∧
      ∃ k : Nat, r = ⟨0, .id k⟩ ∧ isIdValid k = true ∧ k ∉ p.servers.keys ∧
        ∀ id n, p'.drv.hub.servers id = some (t, n) ↔
          p.drv.hub.servers id = some (t, n) ∨ (id = k ∧ n.chars = cstr name))) := by
  obtain ⟨servers, _, serves, attached⟩ := m.after provided h
  simp only [Hub.Serves, registerCall, m.file] at serves
  rcases serves with ⟨ok, id, fresh, rfl, offered⟩ | ⟨barred, ret, same⟩
  · obtain ⟨k, rfl⟩ := Int.eq_ofNat_of_zero_le (isIdValid_iff.mp fresh.1).1
    refine ⟨servers, attached (offered ▸ m.file), Or.inr ⟨(m.room nonempty short).mp ok, k, rfl, fresh.1, ?_, ?_⟩⟩
    · intro hk
      obtain ⟨name', hk⟩ := Table.mem_keys.mp hk
      obtain ⟨n, known, _⟩ := m.same.known k name' hk
      cases fresh.2.server.symm.trans known
    · intro id n
      have chars : (registration name).stored = n ↔ n.chars = cstr name := by
        rw [CString.ext_iff, stored_registration short, eq_comm]
      rw [offered, Broker.servers_offer]
      split
      next same => simp [same, fresh.2.server, chars]
      next other => simp [other]
  · have a := attached (same ▸ m.file)
    refine ⟨servers, a, Or.inl ⟨fun admits => barred ((m.room nonempty short).mpr admits), ret, a, ?_⟩⟩
    exact m.same.of_iff servers fun id n => by rw [same]

theorem Matches.createServer (m : p.Matches t) (fits : p.Fits (.createServer K K' name)) :
    p.Creates t name (p.createServer K K' name) ∧ ∀ p', p.createServer K K' name = some p' → p'.Matches t := by
  obtain ⟨provided, succeeds', spared⟩ := fits
  have failed : ∀ {p₁ : ServerManager}, p₁.Matches t → p₁.servers = p.servers → ¬p.Admits t name →
      p.Creates t name (p₁.destroyServer K' (-1)) ∧ ∀ p', p₁.destroyServer K' (-1) = some p' → p'.Matches t := by
    intro p₁ m₁ servers barred
    obtain ⟨p₂, hd⟩ := m₁.returns_unregister succeeds' (-1)
    obtain ⟨m₂, servers₂⟩ := m₁.stray succeeds' (servers ▸ spared) hd
    refine ⟨Or.inr (Or.inr ⟨barred, p₂, hd, servers₂.trans servers⟩), fun p' h => ?_⟩
    cases hd.symm.trans h
    exact m₂
  unfold ServerManager.createServer
  split
  next full =>
    refine ⟨Or.inr (Or.inr ⟨fun admits => ?_, p, rfl, rfl⟩), fun p' h => ?_⟩
    · exact absurd admits.1 (Nat.not_lt_of_le (m.limit ▸ full))
    · cases h
      exact m
  next room =>
    unfold ServerManager.init
    split
    next improper =>
      refine failed m rfl fun admits => ?_
      exact improper.elim admits.2.2.1 (Nat.not_le_of_lt admits.2.2.2.1)
    next proper =>
      obtain ⟨nonempty, short⟩ := not_or.mp proper
      have short : name.length < maxServerName := Nat.lt_of_not_le short
      have faults := m.register_faults (K := K) provided.succeeds nonempty short
      cases hd : p.driver (p.registerCall K name) with
      | none =>
        obtain ⟨admits, empty⟩ := faults.mp hd
        exact ⟨Or.inl ⟨admits, empty, rfl⟩, fun p' h => by cases h⟩
      | some x =>
        obtain ⟨r, p₁⟩ := x
        obtain ⟨servers, a, ⟨barred, ret, m₁⟩ | ⟨admits, k, rfl, valid, fresh, offers⟩⟩ :=
          m.register provided nonempty short hd
        · simp only [Option.map_some, ret, true_or, if_true, Option.bind_some]
          exact failed m₁ servers barred
        · have named : cstr name ≠ [] := fun empty => by simp [faults.mpr ⟨admits, empty⟩] at hd
          have fresh : k ∉ p₁.servers.keys := servers ▸ fresh
          simp only [Option.map_some, Out.clientId, valid, lt_self_iff_false, Bool.true_eq_false, or_self, if_false,
            Option.bind_some, Int.toNat_natCast, fresh]
          refine ⟨Or.inr (Or.inl ⟨admits, named, _, k, rfl, ?_⟩), fun p' h => ?_⟩
          · rw [Table.keys_pushBack fresh, servers]
          · cases h
            exact ⟨⟨a.settled, a.reach, a.sound, a.file, a.limit⟩, m.same.pushBack short servers fresh offers⟩

theorem Matches.act {action : ServerAction} (m : p.Matches t) (fits : p.Fits action) (h : p.act action = some p') :
    p'.Matches t := by
  cases action with
  | createServer K K' name => exact (m.createServer fits).2 p' h
  | deleteServer K id => exact m.deleteServer fits h
  | other call =>
    obtain ⟨⟨r, p₁⟩, hd, rfl⟩ := Option.map_eq_some_iff.mp h
    exact m.other fits hd

/-- Whatever else the processes do, the manager and the driver hold the same servers under the same names, and a server
can be made exactly where the limits and the names admit one. -/
theorem serverSet_agrees {calls : List Call} {s : Drv} {fd : Ptr} {actions : List ServerAction}
    (before : Trace (fun s call s' => call.Provided s ∧ Returns s call s') Drv.init calls s)
    (file : s.hub.handles fd = some t) (fresh : s.hub.serversOf t = ∅)
    (run : Trace (fun p action p' => p.Fits action ∧ p.act action = some p') (start s fd maxServersPerPid) actions p) :
    p.SameServers t ∧
      ∀ K K' name, p.Fits (.createServer K K' name) → p.Creates t name (p.createServer K K' name) := by
  obtain ⟨settled, reach, sound⟩ := served_run before
  have first : (start s fd maxServersPerPid).Matches t := by
    refine ⟨⟨settled, reach, sound, file, rfl⟩, fun id n offered => ?_, fun k name hk => ?_⟩
    · exact absurd fresh (Set.nonempty_iff_ne_empty.mp ⟨id, n, offered⟩)
    · cases hk
  have m := run.invariant (fun p action p' (m : p.Matches t) h => m.act h.1 h.2) first
  exact ⟨m.same, fun K K' name fits => (m.createServer fits).1⟩

/-- Process 1 makes the server `A`, is refused another one of this name, and deletes `A` for `B`. -/
def replaceServer : List ServerAction :=
  [.createServer (.plenty ⟨1, 1⟩) (.plenty ⟨1, 1⟩) [65], .other (callOf 2 .open),
    .createServer (.plenty ⟨1, 1⟩) (.plenty ⟨1, 1⟩) [65], .deleteServer (.plenty ⟨1, 1⟩) 0,
    .createServer (.plenty ⟨1, 1⟩) (.plenty ⟨1, 1⟩) [66]]

def idsCheck (p : ServerManager) (_ : ServerAction) : Bool :=
  noIdErrorCheck p.drv (callOf 1 .open) && decide (65535 ∉ p.servers.keys)

theorem replaceServer_fits {action : ServerAction} (mem : action ∈ replaceServer) (h : p.idsCheck action = true) :
    p.Fits action := by
  obtain ⟨ids, spared⟩ := (Bool.and_eq_true _ _).mp h
  have spared := of_decide_eq_true spared
  have creates : ∀ name, p.Fits (.createServer (.plenty ⟨1, 1⟩) (.plenty ⟨1, 1⟩) name) := fun name =>
    ⟨⟨Kernel.plenty_succeeds _, noIdErrorCheck_sound p.drv _ ids⟩, Kernel.plenty_succeeds _, spared⟩
  simp only [replaceServer, List.mem_cons, List.not_mem_nil, or_false] at mem
  rcases mem with rfl | rfl | rfl | rfl | rfl
  · exact creates _
  · refine ⟨⟨Kernel.plenty_succeeds _, noIdErrorCheck_sound p.drv _ ids⟩, ?_⟩
    simp [callOf]
  · exact creates _
  · exact Kernel.plenty_succeeds _
  · exact creates _

theorem serverSet_agrees_replaced : ∃ s p, Trace (fun s call s' => call.Provided s ∧ Returns s call s') Drv.init
      [callOf 1 .open] s ∧
    runIf act idsCheck (start s 1 maxServersPerPid) replaceServer = some p ∧ p.servers.entries = [(0, [66])] ∧
    p.SameServers 1 ∧ ∀ K K' name, p.Fits (.createServer K K' name) → p.Creates 1 name (p.createServer K K' name) := by
  have facts : ∃ s, Trace (fun s call s' => call.Provided s ∧ Returns s call s') Drv.init [callOf 1 .open] s ∧
      (s.files.get? 1 = some 1 ∧ s.serversEntries.keys = [] ∧ (runIf act idsCheck (start s 1 maxServersPerPid)
        replaceServer).map (fun p => p.servers.entries) = some [(0, [66])]) :=
    provided_check (by simp [callOf]) (by decide)
  obtain ⟨s, before, file, entries, done⟩ := facts
  obtain ⟨p, hp, servers⟩ := Option.map_eq_some_iff.mp done
  have run : Trace (fun p action p' => p.Fits action ∧ p.act action = some p') (start s 1 maxServersPerPid)
      replaceServer p := (runIf_trace hp).mono fun _ _ _ mem h => ⟨replaceServer_fits mem h.1, h.2⟩
  refine ⟨s, p, before, hp, servers, serverSet_agrees before file ?_ run⟩
  refine Set.eq_empty_iff_forall_notMem.mpr fun id offered => ?_
  obtain ⟨n, offered⟩ := offered
  obtain ⟨e, x, _, hx, _⟩ := (hub_servers (served_run before).1).mp offered
  have live := Table.mem_keys.mpr ⟨x, hx⟩
  rw [entries] at live
  cases live

end ServerManager

end Ripc
