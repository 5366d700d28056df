import Ripc.TableFollows
import Ripc.ServerFarewells

namespace Ripc

section

variable {seat : Seat} {s b : Drv} {new waiting : List NotificationData} {c : Int} {cur : Option Int}

theorem News.follows (news : News seat s b new) (held : seat.Held s)
    (follows : ∀ x, waiting.foldl (NotificationData.advance seat.id c) cur = some x ↔ s.Mapped seat.server c x)
    (x : Int) :
    (waiting ++ new).foldl (NotificationData.advance seat.id c) cur = some x ↔ b.Mapped seat.server c x := by
  rw [List.foldl_append]
  by_cases valid : isIdValid c = true
  · have noNew : ∀ d ∈ new, d.For seat.id → d.type ≠ .newConnection :=
      fun d hd h => (news.said d hd h.1 h.2).1
    rcases foldl_advance_ends noNew valid with ⟨⟨d, hd, who, type, receiver, sender, _⟩, gone⟩ | ⟨none, same⟩
    · rw [gone]
      have ended := (news.said d hd who receiver).2 type (sender ▸ valid) x
      rw [sender] at ended
      simp [ended]
    · rw [same, follows x]
      refine ⟨fun h => (news.lost c x h).resolve_right ?_, news.old c x⟩
      rintro ⟨d, hd, ends⟩
      exact none d hd ends
  · rw [foldl_advance_other fun d _ h => valid h.2.2.1, follows x]
    exact ⟨fun h => absurd (held.mapped c x h).1 valid, fun h => absurd (news.held.mapped c x h).1 valid⟩

theorem Joins.follows {c' x' : Int} (joins : Joins seat s b c' x')
    (follows : ∀ x, waiting.foldl (NotificationData.advance seat.id c) cur = some x ↔ s.Mapped seat.server c x)
    (x : Int) :
    (waiting ++ [NotificationData.mk .client .newConnection x' c' seat.id]).foldl
        (NotificationData.advance seat.id c) cur = some x ↔
      b.Mapped seat.server c x := by
  rw [List.foldl_append, List.foldl_cons, List.foldl_nil, joins.mapped]
  by_cases he : c' = c
  · subst he
    have now := (joins.mapped c' x').mpr (Or.inr ⟨rfl, rfl⟩)
    obtain ⟨validC, validX⟩ := joins.held.mapped c' x' now
    have unique : ∀ y, s.Mapped seat.server c' y → y = x' := by
      intro y hy
      obtain ⟨q, hq⟩ := (joins.mapped c' y).mpr (Or.inl hy)
      obtain ⟨q', hq'⟩ := now
      exact (mappedAt_unique joins.held.orderly validC hq hq').2
    have entry : NotificationData.advance seat.id c' (waiting.foldl (NotificationData.advance seat.id c') cur)
        ⟨.client, .newConnection, x', c', seat.id⟩ =
        (waiting.foldl (NotificationData.advance seat.id c') cur).or (some x') := by
      simp [NotificationData.advance, NotificationData.For, validC, validX]
    rw [entry, Option.or_eq_some_iff, follows x, Option.some.injEq]
    constructor
    · rintro (old | ⟨_, rfl⟩)
      · exact Or.inl old
      · exact Or.inr ⟨rfl, rfl⟩
    · rintro (old | ⟨_, rfl⟩)
      · exact Or.inl old
      · cases hc : waiting.foldl (NotificationData.advance seat.id c') cur with
        | none => exact Or.inr ⟨rfl, rfl⟩
        | some y => exact Or.inl (unique y ((follows y).mp hc) ▸ (follows y).mp hc)
  · rw [advance_other fun h => he h.2.1, follows x]
    simp [Ne.symm he]

theorem Seat.Held.no_client (held : seat.Held s) : s.connOf seat.id = none := by
  refine Option.eq_none_iff_forall_ne_some.mpr fun q hq => ?_
  obtain ⟨k, hk, _⟩ := Option.bind_eq_some_iff.mp hq
  obtain ⟨cli, hcli, hid, _⟩ := findClientById_some hk
  obtain ⟨srv, hsrv, hid', _⟩ := held.server
  have same := held.orderly.ids.unique (.client k) (.server seat.server) seat.id (isIdValid_iff.mp held.valid).1
    (hid ▸ idOf_client hcli) (hid' ▸ idOf_server hsrv)
  cases same

end

namespace LibServer

theorem findOrCreateSHM_serverId {s s' : LibServer} {x : Int} {isMapped : Bool}
    (h : s.findOrCreateSHM x = some (isMapped, s')) : s'.serverId = s.serverId := by
  unfold findOrCreateSHM at h
  grind

theorem addConnection_mmap {s : LibServer} {c x : Int} {arg : U32} (h : (s.addConnection c x).mmap = some arg) :
    arg = packIds s.serverId x ∧ isIdValid x = true := by
  unfold addConnection at h
  split at h
  next => cases h
  next valid =>
    split at h
    next => cases h
    next =>
      split at h
      next => cases h
      next =>
        split at h
        next => cases h
        next =>
          split at h
          next => cases h
          next isMapped s' created =>
            simp only at h
            split at h
            next => cases h
            next =>
              refine ⟨?_, by simpa using valid⟩
              rw [← findOrCreateSHM_serverId created]
              exact (Option.some.inj h).symm

theorem handled_mmap {s : LibServer} {d : NotificationData} {arg : U32} (h : (s.handleNotification d).mmap = some arg) :
    ∃ x, arg = packIds s.serverId x ∧ isIdValid x = true := by
  by_cases gets : d.For s.serverId ∧ isIdValid d.senderId = true ∧ isIdValid d.subMemId = true
  · obtain ⟨own, validC, validX⟩ := gets
    rw [handleNotification_for own validC validX] at h
    cases htype : d.type with
    | newConnection =>
      rw [htype] at h
      exact ⟨d.subMemId, addConnection_mmap h⟩
    | newMessage | remoteDisconnect =>
      rw [htype] at h
      cases h
  · rw [handleNotification_other gets] at h
    cases h

end LibServer

/-- The client has a connection to the server that it has yet to map. -/
def Drv.Unmapped (s : Drv) (v : Ptr) (c : Int) : Prop :=
  ∃ q con k, s.gConnsList.get? q = some con ∧ con.servMmaped = false ∧ con.serverP = some v ∧ con.clientP = some k ∧
    s.idOf (.client k) = some c

theorem Drv.Joined.mapped {s : Drv} {v : Ptr} {c : Int} (joined : s.Joined v c) (wf : Wf s) :
    s.Unmapped v c ∨ ∃ x, s.Mapped v c x := by
  obtain ⟨q, con, k, hcon, hv, hk, hc⟩ := joined
  cases flag : con.servMmaped with
  | false => exact Or.inl ⟨q, con, k, hcon, flag, hv, hk, hc⟩
  | true =>
    obtain ⟨m, hm⟩ := Option.ne_none_iff_exists'.mp (wf.full hcon).1
    obtain ⟨sub, hsub, _⟩ := wf.links.connMem q con m hcon hm
    exact Or.inr ⟨sub.id, q, con, k, m, hcon, flag, hv, hk, hc, hm, congrArg (Option.map SubMem.id) hsub⟩

namespace ServerSide

/-- The move takes none of the branches after which the tables differ: a disconnection by the server of a client
whose own farewell is not waiting or that has begun to connect again, a connection that is announced to a full table,
a notification that is lost, and a change of the connections that the driver cannot announce. -/
def Fits (seat : Seat) (m : ServerSide) : ServerMove → Prop
  | .disconnect _ id => m.server.findConnection id ≠ none →
      EndsLast seat.id id (m.waiting seat) ∧ ¬m.drv.Unmapped seat.server id
  | .read K => ∀ d, (m.drv.queue seat.task).head? = some d → d.For seat.id → K.copyToUser = true
  | .handle _ => ∀ d, m.pending = some d → d.For seat.id → d.type = .newConnection →
      m.server.findConnection d.senderId = none → m.server.connections.length < maxServersConnections
  | .other call => call.Tells seat m.drv

/-- The server has an entry for the client, or will have one when it handles what waits. -/
def Knows (seat : Seat) (m : ServerSide) (c : Int) : Prop :=
  ∃ ds, ds <+: m.waiting seat ∧ ds.foldl (NotificationData.advance seat.id c) (m.server.known c) ≠ none

/-- What holds between two moves: once the waiting notifications are handled, the table is that of the driver, and the
clients that go have been told. -/
structure Inv (seat : Seat) (m : ServerSide) : Prop where
  held : seat.Held m.drv
  id : m.server.serverId = seat.id
  sound : m.server.Sound
  follows : ∀ c x, (m.waiting seat).foldl (NotificationData.advance seat.id c) (m.server.known c) = some x ↔
    m.drv.Mapped seat.server c x
  tells : ∀ c, m.Knows seat c → (∀ x, ¬m.drv.Mapped seat.server c x) → c ∈ m.told
  returned : ∀ c, m.returned = some c → ¬m.drv.Joined seat.server c ∧ c ∈ m.told

variable {seat : Seat} {m m' : ServerSide} {K : Kernel} {call : Call} {r : Reply}

theorem driver_ok (h : m.driver seat call = some (r, m')) : ∃ drv, step m.drv call = .ok (r, drv) ∧
    m' = { m with drv, returned := none, told := toldBy seat call m.drv drv m.told } := by
  unfold driver at h
  split at h
  next => cases h
  next hs =>
    obtain ⟨rfl, rfl⟩ := Prod.mk.inj (Option.some.inj h)
    exact ⟨_, hs, rfl⟩

theorem mem_toldBy_of_sent {s s' : Drv} {told : List Int} {c : Int} (h : ∃ u ∈ s.gRegTaskList.keys,
      ∃ e ∈ call.sentTo s s' u, e.whoSends = .server ∧ e.senderId = seat.id ∧ e.type = .remoteDisconnect ∧
        e.reciverId = c) : c ∈ toldBy seat call s s' told := by
  obtain ⟨u, hu, e, he, who, sender, type, receiver⟩ := h
  refine List.mem_append_right _ (List.mem_map.mpr ⟨e, List.mem_filter.mpr ⟨?_, ?_⟩, receiver⟩)
  · exact List.mem_flatMap.mpr ⟨u, hu, he⟩
  · simp [who, sender, type]

theorem mem_toldBy_of_told {s s' : Drv} {told : List Int} {c : Int} (was : c ∈ told)
    (noNew : ∀ d ∈ s.added s' seat.task, d.For seat.id → d.type = .newConnection → d.senderId ≠ c) :
    c ∈ toldBy seat call s s' told := by
  refine List.mem_append_left _ (List.mem_filter.mpr ⟨was, decide_eq_true fun joined => ?_⟩)
  obtain ⟨d, hd, sender⟩ := List.mem_map.mp joined
  obtain ⟨hd, this⟩ := List.mem_filter.mp hd
  obtain ⟨own, type⟩ := of_decide_eq_true this
  exact noNew d hd own type sender

theorem Inv.knew {new : List NotificationData} {c : Int} {m' : ServerSide} (inv : m.Inv seat)
    (waiting : m'.waiting seat = m.waiting seat ++ new) (same : m'.server = m.server)
    (unmapped : ∀ x, ¬m.drv.Mapped seat.server c x)
    (noNew : ∀ d ∈ new, d.For seat.id → d.senderId = c → isIdValid d.subMemId = true → d.type ≠ .newConnection)
    (knows : m'.Knows seat c) : m.Knows seat c := by
  obtain ⟨ds, pre, entry⟩ := knows
  rw [waiting, same] at *
  rcases List.prefix_or_prefix_of_prefix pre (List.prefix_append (m.waiting seat) new) with old | ⟨more, rfl⟩
  · exact ⟨ds, old, entry⟩
  · have pre := (List.prefix_append_right_inj (m.waiting seat)).mp pre
    have gone : (m.waiting seat).foldl (NotificationData.advance seat.id c) (m.server.known c) = none :=
      Option.eq_none_iff_forall_ne_some.mpr fun x hx => unmapped x ((inv.follows c x).mp hx)
    rw [List.foldl_append, gone] at entry
    exact absurd (foldl_advance_none fun d hd => noNew d (pre.subset hd)) entry

theorem Inv.driver (inv : m.Inv seat) (keeps : call.op.keeps seat = true) (tells : call.Tells seat m.drv)
    (h : m.driver seat call = some (r, m')) : m'.Inv seat := by
  obtain ⟨drv, hs, rfl⟩ := driver_ok h
  have grows : ∀ {new}, drv.queue seat.task = m.drv.queue seat.task ++ new →
      waiting seat { m with drv, returned := none, told := toldBy seat call m.drv drv m.told } =
        m.waiting seat ++ new ∧ m.drv.added drv seat.task = new := by
    intro new queue
    simp only [waiting, Drv.added, queue, List.append_assoc, List.drop_left, and_self]
  rcases step_hears inv.held keeps tells hs with ⟨new, news⟩ | ⟨c', x', joins⟩
  · obtain ⟨same, added⟩ := grows news.queue
    have noNew : ∀ d ∈ new, d.For seat.id → d.type ≠ .newConnection := fun d hd own => (news.said d hd own.1 own.2).1
    refine ⟨news.held, inv.id, inv.sound, fun c x => ?_, fun c knows gone => ?_, by simp⟩
    · rw [same]
      exact news.follows inv.held (inv.follows c) x
    · by_cases was : ∃ x, m.drv.Mapped seat.server c x
      · obtain ⟨x, was⟩ := was
        exact mem_toldBy_of_sent (news.tells_client inv.held tells.ends hs was (gone x))
      · have unmapped := not_exists.mp was
        have knew := inv.knew same rfl unmapped (fun d hd own _ _ => noNew d hd own) knows
        refine mem_toldBy_of_told (inv.tells c knew unmapped) fun d hd own type => ?_
        exact absurd type (noNew d (added ▸ hd) own)
  · obtain ⟨same, added⟩ := grows joins.queue
    refine ⟨joins.held, inv.id, inv.sound, fun c x => ?_, fun c knows gone => ?_, by simp⟩
    · rw [same]
      exact joins.follows (inv.follows c) x
    · have other : c' ≠ c := by
        rintro rfl
        exact gone x' ((joins.mapped c' x').mpr (Or.inr ⟨rfl, rfl⟩))
      have unmapped : ∀ x, ¬m.drv.Mapped seat.server c x := fun x hx => gone x ((joins.mapped c x).mpr (Or.inl hx))
      have knew := inv.knew same rfl unmapped
        (fun d hd _ sender => absurd sender (List.mem_singleton.mp hd ▸ other)) knows
      refine mem_toldBy_of_told (inv.tells c knew unmapped) fun d hd _ _ => ?_
      rw [added, List.mem_singleton] at hd
      exact hd ▸ other

theorem known_of_found {s : LibServer} {c : Int} (found : s.findConnection c ≠ none) : isIdValid c = true ∧
    ∃ y, s.known c = some y := by
  obtain ⟨con, hcon⟩ := Option.ne_none_iff_exists'.mp found
  refine ⟨?_, con.subMemId, by rw [LibServer.known, hcon, Option.map_some]⟩
  unfold LibServer.findConnection at hcon
  split at hcon
  next valid => exact valid
  next => cases hcon

/-- Where the server has an entry for a client, the two have no connection exactly if the client's farewell is
waiting and the client has not begun to connect again. -/
theorem Inv.parted_iff {c : Int} (inv : m.Inv seat) (found : m.server.findConnection c ≠ none) :
    (EndsLast seat.id c (m.waiting seat) ∧ ¬m.drv.Unmapped seat.server c) ↔ ¬m.drv.Joined seat.server c := by
  obtain ⟨valid, y, known⟩ := known_of_found found
  have follows := inv.follows c
  rw [known] at follows
  constructor
  · rintro ⟨ending, mapped⟩ joined
    obtain ⟨x, hx⟩ := (joined.mapped inv.held.orderly.wf).resolve_left mapped
    cases (ending.gone valid (some y)).symm.trans ((follows x).mpr hx)
  · intro apart
    refine ⟨endsLast_of_gone (y := y) valid (Option.eq_none_iff_forall_ne_some.mpr ?_), ?_⟩
    · intro x hx
      obtain ⟨q, con, k, _, hcon, _, hv, hk, hc, _⟩ := (follows x).mp hx
      refine apart ?_
      exact ⟨q, con, k, hcon, hv, hk, hc⟩
    · rintro ⟨q, con, k, hcon, _, hv, hk, hc⟩
      exact apart ⟨q, con, k, hcon, hv, hk, hc⟩

theorem Inv.told_of_found {c : Int} (inv : m.Inv seat) (found : m.server.findConnection c ≠ none)
    (apart : ¬m.drv.Joined seat.server c) : c ∈ m.told := by
  obtain ⟨_, y, known⟩ := known_of_found found
  refine inv.tells c ⟨[], List.nil_prefix, by simp [known]⟩ ?_
  rintro x ⟨q, con, k, _, hcon, _, hv, hk, hc, _⟩
  exact apart ⟨q, con, k, hcon, hv, hk, hc⟩

theorem disconnect_ok {logs : Bool} {id : Int} (h : m.disconnect logs id = some m') :
    ∃ result server, m.server.disconnectFromClient (m.server.findConnection id) = (result, server) ∧
      m' = { m with server, returned := if result then some id else none } := by
  obtain ⟨⟨result, server⟩, gone, rfl⟩ := Option.map_eq_some_iff.mp h
  unfold LibServer.disconnect at gone
  split at gone
  next => cases gone
  next => exact ⟨result, server, Option.some.inj gone, rfl⟩

theorem Inv.disconnect {logs : Bool} {id : Int} (inv : m.Inv seat) (fits : m.Fits seat (.disconnect logs id))
    (h : m.disconnect logs id = some m') : m'.Inv seat := by
  obtain ⟨result, server, gone, rfl⟩ := disconnect_ok h
  obtain ⟨sound, same, known⟩ := LibServer.disconnect_known (k := id) inv.sound
  rw [gone] at sound same known
  have entry : ∀ c, m.server.known c ≠ none → m.server.findConnection c ≠ none := by
    intro c some none
    exact some (by rw [LibServer.known, none, Option.map_none])
  refine ⟨inv.held, same.trans inv.id, sound, fun c x => ?_, fun c knows unmapped => ?_, fun c hc => ?_⟩
  · refine Iff.trans ?_ (inv.follows c x)
    change (m.waiting seat).foldl _ (server.known c) = some x ↔ _
    rw [known c]
    split
    next he =>
      subst he
      cases hc : m.server.known c with
      | none => rfl
      | some y =>
        have found := entry c (by simp [hc])
        have ending := (fits found).1.gone (known_of_found found).1
        rw [ending, ending]
    next => rfl
  · by_cases he : c = id ∧ m.server.known c ≠ none
    · obtain ⟨rfl, some⟩ := he
      have found := entry c some
      exact inv.told_of_found found ((inv.parted_iff found).mp (fits found))
    · refine inv.tells c ?_ unmapped
      obtain ⟨ds, pre, here⟩ := knows
      refine ⟨ds, pre, ?_⟩
      change ds.foldl _ (server.known c) ≠ none at here
      rw [known c] at here
      split at here
      next same => rwa [of_not_not fun some => he ⟨same, some⟩]
      next => exact here
  · have done : result = true ∧ id = c := by simpa using hc
    obtain ⟨rfl, rfl⟩ := done
    have found : m.server.findConnection id ≠ none := by
      intro none
      rw [none] at gone
      cases gone
    have apart := (inv.parted_iff found).mp (fits found)
    exact ⟨apart, inv.told_of_found found apart⟩

theorem Knows.earlier {d : NotificationData} {c : Int} (knows : m'.Knows seat c)
    (waiting : m.waiting seat = d :: m'.waiting seat)
    (known : m'.server.known c = d.advance seat.id c (m.server.known c)) : m.Knows seat c := by
  obtain ⟨ds, pre, entry⟩ := knows
  refine ⟨d :: ds, waiting ▸ List.cons_prefix_cons.mpr ⟨rfl, pre⟩, ?_⟩
  rwa [List.foldl_cons, ← known]

theorem Inv.read (inv : m.Inv seat) (idle : m.pending = none) (fits : m.Fits seat (.read K))
    (h : m.read seat K = some m') : m'.Inv seat := by
  obtain ⟨⟨r, m₁⟩, hr, rfl⟩ := Option.map_eq_some_iff.mp h
  obtain ⟨drv, hs, rfl⟩ := driver_ok hr
  have before : m.waiting seat = m.drv.queue seat.task := by simp [waiting, idle]
  have told : ∀ c, m.drv.added drv seat.task = [] → c ∈ m.told →
      c ∈ toldBy seat ⟨K, .read seat.fd sizeofNotificationData⟩ m.drv drv m.told := by
    intro c none was
    exact mem_toldBy_of_told was (by simp [none])
  rcases read_own inv.held le_rfl hs with ⟨rfl, out⟩ | ⟨d, queue, ev, out⟩
  · have none : m.drv.added m.drv seat.task = [] := List.drop_length
    simp only
    exact ⟨inv.held, inv.id, inv.sound, inv.follows, fun c knows gone => told c none (inv.tells c knows gone), by simp⟩
  · have none : m.drv.added drv seat.task = [] := by
      rw [Drv.added, queue]
      exact List.drop_eq_nil_of_le (Nat.le_succ _)
    have mapped := mapped_kept inv.held.orderly.wf ev (by simp) (by simp) seat.server
    have held : seat.Held drv := inv.held.event ev trivial fun c x hx => inv.held.mapped c x ((mapped c x).mp hx)
    have after : ∀ c x, drv.Mapped seat.server c x ↔
        (drv.queue seat.task).foldl (NotificationData.advance seat.id c) (d.advance seat.id c (m.server.known c)) =
          some x := by
      intro c x
      rw [mapped, ← inv.follows c x, before, queue, List.foldl_cons]
    have unmapped : ∀ c, (∀ x, ¬drv.Mapped seat.server c x) → ∀ x, ¬m.drv.Mapped seat.server c x :=
      fun c gone x hx => gone x ((mapped c x).mpr hx)
    simp only
    split
    next ntf hout =>
      have same : ntf = d := by
        rcases out with own | ⟨_, none⟩
        · rw [own] at hout
          exact (Out.notif.inj hout).symm
        · exact absurd hout (none ntf)
      subst same
      refine ⟨held, inv.id, inv.sound, fun c x => (after c x).symm, fun c knows gone => ?_, by simp⟩
      have wait : (some ntf).toList ++ drv.queue seat.task = m.waiting seat := (before.trans queue).symm
      obtain ⟨ds, pre, entry⟩ := knows
      exact told c none (inv.tells c ⟨ds, wait ▸ pre, entry⟩ (unmapped c gone))
    next hout =>
      have lost : ¬d.For seat.id := by
        intro own
        have copy := fits d (by rw [queue, List.head?_cons]) own
        rcases out with taken | ⟨none, _⟩
        · exact hout d taken
        · rw [none] at copy
          cases copy
      have still : ∀ c cur, d.advance seat.id c cur = cur := fun c cur => advance_other fun h => lost h.1
      refine ⟨held, inv.id, inv.sound, fun c x => ?_, fun c knows gone => ?_, by simp⟩
      · rw [after c x, still]
        simp [waiting, idle]
      · exact told c none (inv.tells c (knows.earlier (by simpa [waiting, idle] using queue) (still c _).symm)
          (unmapped c gone))

theorem Inv.handle (inv : m.Inv seat) (fits : m.Fits seat (.handle K)) (h : m.handle seat K = some m') :
    m'.Inv seat := by
  unfold ServerSide.handle at h
  split at h
  next => cases h
  next d pending =>
    have room : d.For m.server.serverId → d.type = .newConnection → m.server.findConnection d.senderId = none →
        m.server.connections.length < maxServersConnections := by
      rw [inv.id]
      exact fits d pending
    obtain ⟨sound, same, known⟩ := LibServer.handled_known inv.sound room
    have first : Inv seat { m with
        server := (m.server.handleNotification d).server
        pending := none
        returned := none } := by
      refine ⟨inv.held, same.trans inv.id, sound, fun c x => ?_, fun c knows gone => ?_, by simp⟩
      · rw [← inv.follows c x, known c, inv.id]
        simp [waiting, pending]
      · exact inv.tells c (knows.earlier (by simp [waiting, pending]) (inv.id ▸ known c)) gone
    simp only at h
    split at h
    next => cases h; exact first
    next arg harg =>
      obtain ⟨⟨r, m₁⟩, hr, rfl⟩ := Option.map_eq_some_iff.mp h
      obtain ⟨x, rfl, valid⟩ := LibServer.handled_mmap harg
      refine first.driver rfl ?_ hr
      refine ⟨fun h => False.elim h, fun f arg q con hop hq => ?_⟩
      obtain ⟨rfl, rfl⟩ := Op.mmap.inj hop
      rw [inv.id, unpackId1_packIds inv.held.valid valid] at hq
      rw [inv.held.no_client] at hq
      cases hq

theorem Inv.act {move : ServerMove} (inv : m.Inv seat) (fits : m.Fits seat move) (h : m.act seat move = some m') :
    m'.Inv seat := by
  cases move with
  | disconnect logs id => exact inv.disconnect fits h
  | read K =>
    simp only [ServerSide.act] at h
    split at h
    next idle => exact inv.read idle fits h
    next => cases h
  | handle K => exact inv.handle fits h
  | other call =>
    simp only [ServerSide.act] at h
    split at h
    next keeps =>
      obtain ⟨⟨r, m₁⟩, hr, rfl⟩ := Option.map_eq_some_iff.mp h
      exact inv.driver keeps fits hr
    next => cases h

theorem Inv.start {drv : Drv} (orderly : Orderly drv) (occupied : seat.Occupied drv)
    (unmapped : ∀ c x, ¬drv.Mapped seat.server c x) (quiet : ∀ d ∈ drv.queue seat.task, ¬d.For seat.id) :
    (ServerSide.start drv seat.id).Inv seat := by
  have empty : ∀ c, (ServerSide.start drv seat.id).server.known c = none := by
    simp [ServerSide.start, LibServer.known, LibServer.findConnection]
  have wait : (ServerSide.start drv seat.id).waiting seat = drv.queue seat.task := rfl
  refine ⟨⟨occupied, orderly, fun c x h => absurd h (unmapped c x)⟩, rfl, ?_, fun c x => ?_, ?_,
    by simp [ServerSide.start]⟩
  · exact ⟨List.nodup_nil, by simp [ServerSide.start], List.nodup_nil, by simp [ServerSide.start]⟩
  · rw [wait, foldl_advance_for quiet, empty]
    simp [ServerSide.start, unmapped]
  · rintro c ⟨ds, pre, entry⟩
    rw [wait] at pre
    rw [foldl_advance_for fun d hd => quiet d (pre.subset hd), empty] at entry
    exact absurd rfl entry

theorem Inv.agrees (inv : m.Inv seat) : m.Agrees seat := by
  refine ⟨fun handled c x => ?_, inv.returned⟩
  have follows := inv.follows c x
  rw [foldl_advance_for handled] at follows
  exact (LibServer.known_eq_some inv.sound).symm.trans follows

/-- From a new server on, as long as every move fits, its table is that of the driver. -/
theorem serverTable_agrees {drv : Drv} {moves : List ServerMove} (reachable : Reachable drv)
    (occupied : seat.Occupied drv) (unmapped : ∀ c x, ¬drv.Mapped seat.server c x)
    (quiet : ∀ d ∈ drv.queue seat.task, ¬d.For seat.id)
    (run : Trace (fun m move m' => m.Fits seat move ∧ m.act seat move = some m') (start drv seat.id) moves m) :
    m.Agrees seat := by
  have inv : m.Inv seat := run.invariant (fun a move b inv h => inv.act h.1 h.2)
    (.start reachable.orderly occupied unmapped quiet)
  exact inv.agrees

def joinedCheck (s : Drv) (v : Ptr) (c : Int) : Bool :=
  s.gConnsList.keys.any fun q => ((do
    let con ← s.gConnsList.get? q
    let id ← s.idOf (.client (← con.clientP))
    return decide (con.serverP = some v ∧ id = c)) : Option Bool) = some true

theorem joinedCheck_iff {s : Drv} {v : Ptr} {c : Int} : joinedCheck s v c = true ↔ s.Joined v c := by
  simp only [joinedCheck, List.any_eq_true, decide_eq_true_eq, Option.bind_eq_bind, Option.bind_eq_some_iff,
    Option.pure_def, Option.some.injEq]
  constructor
  · rintro ⟨q, _, con, hcon, k, hk, id, hid, hv, rfl⟩
    exact ⟨q, con, k, hcon, hv, hk, hid⟩
  · rintro ⟨q, con, k, hcon, hv, hk, hid⟩
    exact ⟨q, Table.mem_keys.mpr ⟨con, hcon⟩, con, hcon, k, hk, c, hid, hv, rfl⟩

def fitsCheck (seat : Seat) (m : ServerSide) : ServerMove → Bool
  | .disconnect _ id => (m.server.findConnection id).isNone || (!joinedCheck m.drv seat.server id &&
      decide ((m.waiting seat).foldl (NotificationData.advance seat.id id) (m.server.known id) = none))
  | .read K => K.copyToUser
  | .handle _ => m.server.connections.length < maxServersConnections
  | .other call => match call.op with
    | .mmap _ arg => (m.drv.connOf (unpackId1 arg)).all (mapsCheck m.drv call.kernel (unpackId1 arg))
    | _ => true

theorem fitsCheck_sound {move : ServerMove} (h : fitsCheck seat m move = true)
    (tells : ∀ call, move = .other call → call.kernel.Notifies) : m.Fits seat move := by
  cases move with
  | disconnect logs id =>
    intro found
    obtain ⟨valid, y, known⟩ := known_of_found found
    simp only [fitsCheck, Bool.or_eq_true, Option.isNone_iff_eq_none, found, false_or, Bool.and_eq_true,
      Bool.not_eq_true', decide_eq_true_eq, ← Bool.not_eq_true, joinedCheck_iff, known] at h
    refine ⟨endsLast_of_gone valid h.2, ?_⟩
    rintro ⟨q, con, k, hcon, _, hv, hk, hc⟩
    exact h.1 ⟨q, con, k, hcon, hv, hk, hc⟩
  | read K => exact fun _ _ _ => h
  | handle K => exact fun _ _ _ _ _ => of_decide_eq_true h
  | other call =>
    refine ⟨fun _ _ => tells call rfl, fun f arg q con hop hq _ _ => ?_⟩
    simp only [fitsCheck, hop, hq, Option.all_some] at h
    exact mapsCheck_sound h

def occupiedCheck (seat : Seat) (s : Drv) : Bool :=
  isIdValid seat.id && decide (s.files.get? seat.fd = some seat.task) &&
    (s.gServersList.get? seat.server).any (fun srv => srv.id = seat.id ∧ srv.taskP = some seat.entry) &&
    (s.serversEntries.get? seat.entry).any fun x => x.regTask = seat.task ∧ x.server = seat.server

theorem occupiedCheck_sound {s : Drv} (h : occupiedCheck seat s = true) : seat.Occupied s := by
  simp only [occupiedCheck, Bool.and_eq_true, decide_eq_true_eq, Option.any_eq_true] at h
  obtain ⟨⟨⟨valid, file⟩, srv, hsrv, hid, ht⟩, ⟨t, v⟩, hx, rfl, rfl⟩ := h
  exact ⟨valid, file, ⟨srv, hsrv, hid, ht⟩, hx⟩

def seatOfA : Seat := ⟨1, 1, 1, 1, 0⟩

/-- The client `id` of process `p` connects to `A` and maps the memory, and `A` handles this. -/
def joinA (p : Nat) (id : Int) : List ServerMove :=
  [.other (callOf p (.ioctl p (.connectToServer ⟨id, shortName 65⟩))), .other (callOf p (.mmap p (packIds id 0))),
    .read (.plenty ⟨1, 1⟩), .handle (.plenty ⟨1, 1⟩)]

/-- Two clients join. One of them disconnects, and `A` disconnects it before it has handled the first notification. -/
def partA : List ServerMove :=
  joinA 2 1 ++ [.other (callOf 3 .open), .other (callOf 3 (.ioctl 3 .registerClient))] ++ joinA 3 7 ++
    [.other (callOf 2 (.ioctl 2 (.clientDisconnect (packIds 1 0)))), .read (.plenty ⟨1, 1⟩), .disconnect true 1]

theorem serverTable_agrees_parting : ∃ s m, runCalls Drv.init registeredRun = some s ∧
    runIf (act seatOfA) (fitsCheck seatOfA) (start s 0) partA = some m ∧ m.server.connections = [⟨7, 3⟩] ∧
    m.returned = some 1 ∧ m.Agrees seatOfA := by
  have facts : ((runCalls Drv.init registeredRun).bind fun s =>
      (runIf (act seatOfA) (fitsCheck seatOfA) (start s 0) partA).map fun m =>
        ((occupiedCheck seatOfA s, s.gConnsList.keys, s.queue 1), (m.server.connections, m.returned))) =
      some ((true, [], []), ([⟨7, 3⟩], some 1)) := by decide
  obtain ⟨s, hs, facts⟩ := Option.bind_eq_some_iff.mp facts
  obtain ⟨m, hm, facts⟩ := Option.map_eq_some_iff.mp facts
  simp only [Prod.mk.injEq] at facts
  obtain ⟨⟨occupied, conns, queue⟩, connections, returned⟩ := facts
  have room : ∀ move ∈ partA, ∀ call, move = .other call → call.kernel.Notifies := by
    rintro move hmem call rfl
    simp only [partA, joinA, List.cons_append, List.nil_append, List.mem_cons, ServerMove.other.injEq, reduceCtorEq,
      List.not_mem_nil, false_or, or_false] at hmem
    rcases hmem with rfl | rfl | rfl | rfl | rfl | rfl | rfl <;> exact callOf_notifies _ _
  have run : Trace (fun m move m' => m.Fits seatOfA move ∧ m.act seatOfA move = some m') (start s 0) partA m :=
    (runIf_trace hm).mono fun _ move _ hmem h => ⟨fitsCheck_sound h.1 (room move hmem), h.2⟩
  refine ⟨s, m, hs, hm, connections, returned, serverTable_agrees ⟨_, runCalls_trace hs⟩
    (occupiedCheck_sound occupied) ?_ ?_ run⟩
  · rintro c x ⟨q, con, k, y, hcon, _⟩
    have live := Table.mem_keys.mpr ⟨con, hcon⟩
    rw [conns] at live
    cases live
  · intro d hd
    have empty : s.queue 1 = [] := queue
    rw [show seatOfA.task = 1 from rfl, empty] at hd
    cases hd

/-- `A` disconnects a client that is connected: the driver keeps the connection, and the client is not told. -/
theorem serverTable_parts_alone : ∃ s m, runCalls Drv.init registeredRun = some s ∧
    runIf (act seatOfA) (fun _ _ => true) (start s 0) (joinA 2 1 ++ [.disconnect true 1]) = some m ∧
    m.returned = some 1 ∧ m.server.connections = [] ∧ m.waiting seatOfA = [] ∧ m.told = [] ∧ m.drv.Joined 1 1 ∧
    ¬m.Agrees seatOfA := by
  have facts : ((runCalls Drv.init registeredRun).bind fun s =>
      (runIf (act seatOfA) (fun _ _ => true) (start s 0) (joinA 2 1 ++ [.disconnect true 1])).map fun m =>
        ((m.returned, m.server.connections), (m.waiting seatOfA, m.told), joinedCheck m.drv 1 1)) =
      some ((some 1, []), ([], []), true) := by decide
  obtain ⟨s, hs, facts⟩ := Option.bind_eq_some_iff.mp facts
  obtain ⟨m, hm, facts⟩ := Option.map_eq_some_iff.mp facts
  simp only [Prod.mk.injEq] at facts
  obtain ⟨⟨returned, connections⟩, ⟨waiting, told⟩, joined⟩ := facts
  have joined := joinedCheck_iff.mp joined
  exact ⟨s, m, hs, hm, returned, connections, waiting, told, joined, fun agrees => (agrees.2 1 returned).1 joined⟩

end ServerSide

end Ripc
