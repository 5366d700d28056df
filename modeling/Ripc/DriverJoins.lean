import Ripc.DriverNews

namespace Ripc

/-- Nobody is made to map, and the process of the server hears of every mapped connection that ends. -/
def Seat.Hears (seat : Seat) (s b : Drv) : Prop := ∃ new, News seat s b new

/-- The client `c` has mapped the sub-memory `x` that it shares with the server, and the server's process is told. -/
structure Joins (seat : Seat) (s b : Drv) (c x : Int) : Prop where
  held : seat.Held b
  queue : b.queue seat.task = s.queue seat.task ++ [⟨.client, .newConnection, x, c, seat.id⟩]
  mapped : ∀ c' x', b.Mapped seat.server c' x' ↔ s.Mapped seat.server c' x' ∨ (c' = c ∧ x' = x)

/-- The call leaves the server, its file and its process's queue to their owner. -/
def Op.keeps (seat : Seat) : Op → Bool
  | .release f | .read f _ => f ≠ seat.fd
  | .ioctl _ (.serverUnregister arg) => unpackId1 arg ≠ seat.id
  | _ => true

/-- The server's process can be told what the call does to the server's connections. -/
structure Call.Tells (call : Call) (seat : Seat) (s : Drv) : Prop where
  ends : call.op.Ends → call.kernel.TellsOf seat s
  maps : ∀ f arg q con, call.op = .mmap f arg → s.connOf (unpackId1 arg) = some q →
    s.gConnsList.get? q = some con → con.serverP = some seat.server → s.Maps call.kernel (unpackId1 arg) q

section

variable {K : Kernel} {s a b : Drv} {seat : Seat} {r : Reply} {f t v k : Ptr} {arg : U32} {ev : Event}

theorem Seat.Hears.refl (held : seat.Held s) : seat.Hears s s := ⟨[], .refl held⟩

theorem Seat.Hears.trans (h : seat.Hears s a) (h' : seat.Held a → seat.Hears a b) : seat.Hears s b := by
  obtain ⟨new, news⟩ := h
  obtain ⟨new', news'⟩ := h' news.held
  exact ⟨new ++ new', news.trans news'⟩

theorem Seat.Hears.plain (held : seat.Held s) (he : s.event ev b) (plain : ev.Plain seat s) : seat.Hears s b :=
  ⟨_, .plain held he plain⟩

theorem Seat.Hears.tells (h : seat.Hears s a) (tells : K.TellsOf seat s) : K.TellsOf seat a := by
  obtain ⟨new, news⟩ := h
  exact tells.news news

theorem Call.Change.hears {call : Call} (change : call.Change s a b) (start : seat.Held s)
    (keeps : call.op.keeps seat = true) (tells : call.op.Ends → call.kernel.TellsOf seat s)
    (noMmap : ∀ f arg, call.op ≠ .mmap f arg) (hears : seat.Hears s a) : seat.Hears s b := by
  have files := start.orderly.wf.files
  refine hears.trans fun held => ?_
  cases change with
  | @lesser ev he within =>
    refine .plain held he ?_
    cases ev with
    | teardown | dropServer | dropClient | closeTask | closeFile => exact within.elim
    | mmaped q =>
      obtain ⟨f, arg, op⟩ := within
      exact absurd op (noMmap f arg)
    | post p t d =>
      rcases within with message | ⟨f, arg, op⟩
      · exact fun _ _ => message
      · exact absurd op (noMmap f arg)
    | dequeue t =>
      obtain ⟨f, count, op, hf⟩ := within
      rintro rfl
      rw [op] at keeps
      exact of_decide_eq_true keeps (files.own f seat.fd seat.task hf start.file)
    | _ => trivial
  | deletes ends deletes => exact News.deletes held deletes (hears.tells (tells ends))
  | @dropsServer e x id he whose =>
    refine .plain held he ?_
    rintro rfl
    cases he.1.1.symm.trans held.entry
    rcases whose with ⟨f, op, hf⟩ | ⟨f, arg, op, rfl⟩
    · rw [op] at keeps
      exact of_decide_eq_true keeps (files.own f seat.fd seat.task hf start.file)
    · obtain ⟨srv, hsrv, hid⟩ := he.1.2.1
      obtain ⟨own, hown, hid', _⟩ := held.server
      cases hsrv.symm.trans hown
      rw [op] at keeps
      exact of_decide_eq_true keeps (hid.symm.trans hid')
  | dropsClient he => exact .plain held he trivial
  | @closes f ev op he closing =>
    rw [op] at keeps
    have other : f ≠ seat.fd := of_decide_eq_true keeps
    rcases closing with rfl | ⟨t, rfl⟩
    · exact .plain held he other
    · exact .plain held he other

theorem Seat.Held.unique (held : seat.Held s) {srv : Server} (hsrv : s.gServersList.get? v = some srv)
    (hid : srv.id = seat.id) : v = seat.server := by
  obtain ⟨own, hown, hid', _⟩ := held.server
  exact held.orderly.ids.server_unique hown hsrv (hid' ▸ (isIdValid_iff.mp held.valid).1) (hid.trans hid'.symm)

theorem mmap_elsewhere {p : Ptr} {con : Connection} {ret : Int} (held : seat.Held s)
    (hcon : s.gConnsList.get? p = some con) (other : con.serverP ≠ some seat.server)
    (hs : notificationSend K s .client .newConnection p = .ok (ret, a)) : seat.Hears s (a.apply (.mmaped p)) := by
  have first : seat.Hears s a ∧ a.gConnsList = s.gConnsList := by
    rcases notificationSend_ok hs with ⟨_, rfl⟩ | ⟨_, t, d, rfl, posts, htype, hwho⟩
    · exact ⟨.refl held, rfl⟩
    · have ev : s.event (.post p t d) (s.enqueue t d) := ⟨⟨posts, by simp [htype]⟩, rfl⟩
      refine ⟨.plain held ev fun _ receiver => ?_, rfl⟩
      cases posts with
      | toClient _ _ _ _ _ _ _ _ _ _ who => cases who.symm.trans hwho
      | toServer hc _ _ _ _ _ hv hsrv _ _ _ _ reciver =>
        cases hc.symm.trans hcon
        exact absurd (held.unique hsrv (reciver.symm.trans receiver) ▸ hv) other
  obtain ⟨hears, conns⟩ := first
  refine hears.trans fun held' => ?_
  have ev : a.event (.mmaped p) (a.apply (.mmaped p)) := ⟨trivial, rfl⟩
  refine .plain held' ev fun con' hcon' => ?_
  rw [conns, hcon] at hcon'
  cases hcon'
  exact other

theorem mapped_kept (wf : Wf s) (he : s.event ev b) (noMap : ∀ q, ev ≠ .mmaped q) (noEnd : ∀ p ds, ev ≠ .teardown p ds)
    (v : Ptr) (c x : Int) : b.Mapped v c x ↔ s.Mapped v c x := by
  constructor
  · rintro ⟨q, hq⟩
    exact ⟨q, mappedAt_before wf he (noMap q) hq⟩
  · rintro ⟨q, hq⟩
    exact ⟨q, mappedAt_after wf he (noEnd q) hq⟩

theorem mmap_joins {p : Ptr} {m : SubMemPtr} {con : Connection} {cli : Client} {sub : SubMem} {ret : Int}
    (held : seat.Held s) (hcon : s.gConnsList.get? p = some con) (own : con.serverP = some seat.server)
    (hk : con.clientP = some k)
    (hcli : s.gClientsList.get? k = some cli) (hm : con.memP = some m) (hsub : s.subMem? m = some sub)
    (sent : ¬Unsent K s .client p) (hs : notificationSend K s .client .newConnection p = .ok (ret, a)) :
    Joins seat s (a.apply (.mmaped p)) cli.id sub.id := by
  obtain ⟨srv, hsrv, hid, htask⟩ := held.server
  have wf := held.orderly.wf
  have made : isIdValid cli.id ∧ isIdValid sub.id ∧ isIdValid srv.id ∧ (K.kmalloc (.notif .client) s).isSome := by
    by_contra unmade
    refine sent ⟨con, m, sub, k, cli, seat.server, srv, hcon, hm, hsub, hk, hcli, own, hsrv, ?_, unmade⟩
    rintro ⟨v, srv', hv, hsrv', lost⟩
    cases own.symm.trans hv
    cases hsrv.symm.trans hsrv'
    cases htask.symm.trans lost
  obtain ⟨validC, validX, _, room⟩ := made
  have posts : Posts s p ⟨.client, .newConnection, sub.id, cli.id, seat.id⟩ seat.task :=
    .toServer hcon hm hsub rfl hk hcli own hsrv htask held.entry rfl rfl hid.symm rfl
      (wf.files.live _ _ held.file)
  rw [send_of_posts posts validC validX held.valid room] at hs
  obtain ⟨_, rfl⟩ := Prod.mk.inj (Except.ok.inj hs)
  have post : s.event (.post p seat.task ⟨.client, .newConnection, sub.id, cli.id, seat.id⟩) (s.enqueue seat.task _) :=
    ⟨⟨posts, by simp⟩, rfl⟩
  have before := mapped_kept wf post (by simp) (by simp) seat.server
  have held₁ := held.event post trivial fun c x hx => held.mapped c x ((before c x).mp hx)
  have mark : (s.enqueue seat.task ⟨.client, .newConnection, sub.id, cli.id, seat.id⟩).event (.mmaped p) _ :=
    ⟨trivial, rfl⟩
  have mapped : ∀ c x, Drv.Mapped (Drv.apply (s.enqueue seat.task ⟨.client, .newConnection, sub.id, cli.id, seat.id⟩)
      (.mmaped p)) seat.server c x ↔ s.Mapped seat.server c x ∨ (c = cli.id ∧ x = sub.id) := by
    intro c x
    constructor
    · rintro ⟨q, hq⟩
      by_cases he : q = p
      · subst he
        obtain ⟨con', k', m', hcon', _, _, hk', hc, hm', hx⟩ := hq
        rw [Drv.apply, Table.get?_modify, if_pos rfl,
          show (s.enqueue _ _).gConnsList.get? q = some con from hcon] at hcon'
        obtain rfl := Option.some.inj hcon'
        cases hk.symm.trans hk'
        cases hm.symm.trans hm'
        have hc : (s.gClientsList.get? k).map Client.id = some c := hc
        have hx : (s.subMem? m).map SubMem.id = some x := hx
        rw [hcli] at hc
        rw [hsub] at hx
        exact Or.inr ⟨(Option.some.inj hc).symm, (Option.some.inj hx).symm⟩
      · refine Or.inl ((before c x).mp ⟨q, mappedAt_before held₁.orderly.wf mark (fun hev => ?_) hq⟩)
        exact he (Event.mmaped.inj hev).symm
    · rintro (old | ⟨rfl, rfl⟩)
      · obtain ⟨q, hq⟩ := (before c x).mpr old
        exact ⟨q, mappedAt_after held₁.orderly.wf mark (by simp) hq⟩
      · refine ⟨p, { con with servMmaped := true }, k, m, ?_, rfl, own, hk, ?_, hm, ?_⟩
        · rw [Drv.apply, Table.get?_modify, if_pos rfl, show (s.enqueue _ _).gConnsList.get? p = some con from hcon,
            Option.map_some]
        · exact congrArg (Option.map Client.id) hcli
        · exact congrArg (Option.map SubMem.id) hsub
  refine ⟨held₁.event mark trivial fun c x hx => ?_, ?_, mapped⟩
  · rcases (mapped c x).mp hx with old | ⟨rfl, rfl⟩
    · exact held.mapped c x old
    · exact ⟨validC, validX⟩
  · exact (queue_event wf held.file post trivial).2.trans (by rw [Event.posted, if_pos rfl])

theorem mmapClient_hears {cli : Client} (held : seat.Held s) (hcli : s.gClientsList.get? k = some cli)
    (maps : ∀ q con, cli.connP = some q → s.gConnsList.get? q = some con → con.serverP = some seat.server →
      ¬Unsent K s .client q) (h : mmapClient K s k = .ok (r, b)) : seat.Hears s b ∨ ∃ c x, Joins seat s b c x := by
  simp only [mmapClient, deref_of_get? hcli, ok_bind] at h
  split at h
  next =>
    obtain ⟨_, rfl⟩ := returns_ok h
    exact Or.inl (.refl held)
  next p hp =>
    obtain ⟨con, hcon, hk⟩ := held.orderly.wf.links.clientConn k cli p hcli hp
    simp only [deref_of_get? hcon, ok_bind] at h
    split at h
    next => cases h
    next m hm =>
      obtain ⟨sub, hsub, h⟩ := bind_eq_ok.mp h
      split at h
      next =>
        obtain ⟨rfl, _⟩ := mmapFound_ok h
        exact Or.inl (.refl held)
      next =>
        obtain ⟨srv, _, h⟩ := bind_eq_ok.mp h
        obtain ⟨⟨ret, s₁⟩, hs, h⟩ := bind_eq_ok.mp h
        obtain ⟨rfl, _⟩ := mmapFound_ok h
        by_cases own : con.serverP = some seat.server
        · have sent := maps p con hp hcon own
          exact Or.inr ⟨_, _, mmap_joins held hcon own hk hcli hm (derefSubMem_ok hsub) sent hs⟩
        · exact Or.inl (mmap_elsewhere held hcon own hs)

/-- Whatever others do, the server's process is told of it. -/
theorem step_hears {call : Call} (held : seat.Held s) (keeps : call.op.keeps seat = true) (tells : call.Tells seat s)
    (hs : step s call = .ok (r, b)) : seat.Hears s b ∨ ∃ c x, Joins seat s b c x := by
  by_cases mmap : ∃ f arg, call.op = .mmap f arg
  · obtain ⟨f, arg, op⟩ := mmap
    simp only [step, op] at hs
    split at hs
    next =>
      unfold ipcMmap at hs
      split at hs
      next k hk =>
        obtain ⟨cli, hcli, hid, valid⟩ := findClientById_some hk
        refine mmapClient_hears held hcli (fun q con hq hcon own => ?_) hs
        have conn : s.connOf (unpackId1 arg) = some q :=
          (connOf_eq_some held.orderly valid).mpr ⟨k, cli, hcli, hid, hq⟩
        exact (tells.maps f arg q con op conn hcon own).2.1
      next =>
        split at hs
        next =>
          obtain ⟨rfl, _⟩ := mmapServer_ok hs
          exact Or.inl (.refl held)
        next =>
          obtain ⟨_, rfl⟩ := returns_ok hs
          exact Or.inl (.refl held)
    next =>
      obtain ⟨_, rfl⟩ := returns_ok hs
      exact Or.inl (.refl held)
  · refine Or.inl ((step_changes held.orderly.wf hs).keeps (fun a b hears change => ?_) (.refl held))
    exact change.hears held keeps tells.ends (fun f arg op => mmap ⟨f, arg, op⟩) hears

/-- A read by the process of the server takes the oldest notification, if it takes one. -/
theorem read_own {count : Nat} (held : seat.Held s) (room : sizeofNotificationData ≤ count)
    (hs : step s ⟨K, .read seat.fd count⟩ = .ok (r, b)) : (b = s ∧ ∀ d, r.out ≠ .notif d) ∨
      ∃ d, s.queue seat.task = d :: b.queue seat.task ∧ s.event (.dequeue seat.task) b ∧
        (r.out = .notif d ∨ (K.copyToUser = false ∧ ∀ e, r.out ≠ .notif e)) := by
  simp only [step, ipcRead, held.file] at hs
  obtain ⟨task, ht, hs⟩ := bind_eq_ok.mp hs
  have ht := deref_some ht
  split at hs
  next =>
    split at hs
    next =>
      obtain ⟨rfl, rfl⟩ := returns_ok hs
      exact Or.inl ⟨rfl, by simp⟩
    next =>
      split at hs
      next => cases hs
      next =>
        obtain ⟨data, _, hs⟩ := bind_eq_ok.mp hs
        split at hs
        next =>
          obtain ⟨rfl, rfl⟩ := returns_ok hs
          exact Or.inl ⟨rfl, by simp⟩
        next =>
          obtain ⟨rfl, rfl⟩ := Prod.mk.inj (Except.ok.inj hs)
          exact Or.inl ⟨rfl, by simp⟩
  next =>
    split at hs
    next =>
      obtain ⟨rfl, rfl⟩ := returns_ok hs
      exact Or.inl ⟨rfl, by simp⟩
    next d ds hq =>
      have ev : s.event (.dequeue seat.task) (s.apply (.dequeue seat.task)) := ⟨⟨task, d, ds, ht, hq⟩, rfl⟩
      have queue : s.queue seat.task = d :: (s.apply (.dequeue seat.task)).queue seat.task := by
        simp [Drv.queue, Drv.apply, Table.get?_modify, ht, hq, RegTask.dequeue]
      rw [if_neg (Nat.not_lt.mpr room)] at hs
      split at hs
      next copy =>
        obtain ⟨rfl, rfl⟩ := returns_ok hs
        exact Or.inr ⟨d, queue, ev, Or.inr ⟨by simpa using copy, by simp⟩⟩
      next =>
        obtain ⟨rfl, rfl⟩ := Prod.mk.inj (Except.ok.inj hs)
        exact Or.inr ⟨d, queue, ev, Or.inl rfl⟩

end

end Ripc
