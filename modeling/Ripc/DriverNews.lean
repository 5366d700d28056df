import Ripc.DriverMapped
import Ripc.DriverChanges

namespace Ripc

/-- The client `c` tells server `a` that their connection has ended. -/
def NotificationData.Ends (d : NotificationData) (a c : Int) : Prop :=
  d.whoSends = .client ∧ d.type = .remoteDisconnect ∧ d.reciverId = a ∧ d.senderId = c ∧
    isIdValid d.subMemId = true

/-- A stretch of a call that makes no client map anything: what it adds to the queue of the server's process
keeps step with the connections. -/
structure News (seat : Seat) (s b : Drv) (new : List NotificationData) : Prop where
  held : seat.Held b
  queue : b.queue seat.task = s.queue seat.task ++ new
  old : ∀ c x, b.Mapped seat.server c x → s.Mapped seat.server c x
  said : ∀ d ∈ new, d.whoSends = .client → d.reciverId = seat.id → d.type ≠ .newConnection ∧
    (d.type = .remoteDisconnect → isIdValid d.senderId = true → ∀ x, ¬b.Mapped seat.server d.senderId x)
  lost : ∀ c x, s.Mapped seat.server c x → b.Mapped seat.server c x ∨ ∃ d ∈ new, d.Ends seat.id c

/-- Where the server has a mapped connection that may end, both sides can be told. -/
def Kernel.TellsOf (K : Kernel) (seat : Seat) (s : Drv) : Prop := (∃ c x, s.Mapped seat.server c x) → K.Notifies

variable {K : Kernel} {s a b : Drv} {seat : Seat} {ev : Event} {new new' : List NotificationData}

theorem News.refl (held : seat.Held s) : News seat s s [] :=
  ⟨held, (List.append_nil _).symm, fun _ _ h => h, by simp, fun _ _ h => Or.inl h⟩

theorem News.trans (h : News seat s a new) (h' : News seat a b new') : News seat s b (new ++ new') := by
  refine ⟨h'.held, ?_, fun c x hx => h.old c x (h'.old c x hx), fun d hd client receiver => ?_, fun c x hx => ?_⟩
  · rw [h'.queue, h.queue, List.append_assoc]
  · rcases List.mem_append.mp hd with hd | hd
    · obtain ⟨noNew, torn⟩ := h.said d hd client receiver
      exact ⟨noNew, fun htype valid x hx => torn htype valid x (h'.old _ x hx)⟩
    · exact h'.said d hd client receiver
  · rcases h.lost c x hx with left | ⟨d, hd, ends⟩
    · refine (h'.lost c x left).imp_right ?_
      rintro ⟨d, hd, ends⟩
      exact ⟨d, List.mem_append_right new hd, ends⟩
    · exact Or.inr ⟨d, List.mem_append_left new' hd, ends⟩

theorem Kernel.TellsOf.news (tells : K.TellsOf seat s) (h : News seat s a new) : K.TellsOf seat a := by
  rintro ⟨c, x, hx⟩
  exact tells ⟨c, x, h.old c x hx⟩

/-- The events that neither end a connection, map or announce one to the server nor read its process's queue. -/
def Event.Plain (seat : Seat) (s : Drv) : Event → Prop
  | .teardown _ _ => False
  | .mmaped q => ∀ con, s.gConnsList.get? q = some con → con.serverP ≠ some seat.server
  | .dequeue t => t ≠ seat.task
  | .closeTask f _ | .closeFile f => f ≠ seat.fd
  | .dropServer e _ _ => e ≠ seat.entry
  | .post _ _ d => d.whoSends = .client → d.reciverId = seat.id → d.type = .newMessage
  | _ => True

theorem Event.Plain.mapped_before (plain : ev.Plain seat s) (held : seat.Held s) (he : s.event ev b) {c x : Int}
    (h : b.Mapped seat.server c x) : s.Mapped seat.server c x := by
  obtain ⟨q, hq⟩ := h
  refine ⟨q, mappedAt_before held.orderly.wf he ?_ hq⟩
  rintro rfl
  obtain ⟨con, k, m, hcon, _, hv, _⟩ := hq
  rw [he.2, Drv.apply, Table.get?_modify, if_pos rfl] at hcon
  obtain ⟨old, hold, rfl⟩ := Option.map_eq_some_iff.mp hcon
  exact plain old hold hv

theorem News.plain (held : seat.Held s) (he : s.event ev b) (plain : ev.Plain seat s) :
    News seat s b (ev.posted seat.task) := by
  have keeps : ev.KeepsSeat seat := by cases ev <;> first | exact plain | trivial
  have leaves : ev.Leaves seat.fd seat.task := by cases ev <;> first | exact plain | trivial
  have old : ∀ c x, b.Mapped seat.server c x → s.Mapped seat.server c x := fun c x => plain.mapped_before held he
  refine ⟨held.event he keeps fun c x hx => held.mapped c x (old c x hx),
    (queue_event held.orderly.wf held.file he leaves).2, old, fun d hd client receiver => ?_, ?_⟩
  · cases ev with
    | post p t d' =>
      simp only [Event.posted] at hd
      split at hd
      next =>
        rw [List.mem_singleton.mp hd] at client receiver ⊢
        simp [plain client receiver]
      next => cases hd
    | teardown => exact plain.elim
    | _ => cases hd
  · rintro c x ⟨q, hq⟩
    refine Or.inl ⟨q, mappedAt_after held.orderly.wf he ?_ hq⟩
    rintro ds rfl
    exact plain

theorem not_mapped_teardown {p t : Ptr} {ds : List (Ptr × NotificationData)} {d : NotificationData}
    (orderly : Orderly s) (he : s.event (.teardown p ds) b) (posts : Posts s p d t) (client : d.whoSends = .client)
    (valid : isIdValid d.senderId = true) {v : Ptr} {x : Int} : ¬b.Mapped v d.senderId x := by
  rintro ⟨q, hq⟩
  have linked := MappedAt.linked (orderly.event he).wf hq
  cases posts with
  | toClient _ _ _ _ _ _ _ _ _ _ who => cases who.symm.trans client
  | @toServer c _ _ k cli _ _ _ _ hc _ _ _ hk hcli _ _ _ _ _ sender =>
    obtain ⟨cli', hcli', hp⟩ := orderly.wf.links.connClient p c k hc hk
    cases hcli.symm.trans hcli'
    rw [he.2] at linked
    exact not_connected_teardown orderly (isIdValid_iff.mp valid).1 ⟨k, cli, hcli, sender.symm, hp⟩ ⟨q, linked⟩

theorem MappedAt.posts {p : Ptr} {c x : Int} (held : seat.Held s) (h : s.MappedAt seat.server p c x) :
    Posts s p ⟨.client, .remoteDisconnect, x, c, seat.id⟩ seat.task := by
  obtain ⟨con, k, m, hcon, _, hv, hk, hc, hm, hx⟩ := h
  obtain ⟨cli, hcli, rfl⟩ := Option.map_eq_some_iff.mp hc
  obtain ⟨sub, hsub, rfl⟩ := Option.map_eq_some_iff.mp hx
  obtain ⟨srv, hsrv, hid, htask⟩ := held.server
  exact .toServer hcon hm hsub rfl hk hcli hv hsrv htask held.entry rfl rfl hid.symm rfl
    (held.orderly.wf.files.live _ _ held.file)

theorem News.deletes {p : Ptr} (held : seat.Held s) (deletes : s.Deletes K p b) (tells : K.TellsOf seat s) :
    ∃ new, News seat s b new := by
  obtain ⟨ds, s₀, he, leaving, h⟩ := deletes
  have old : ∀ c x, b.Mapped seat.server c x → s.Mapped seat.server c x := by
    rintro c x ⟨q, hq⟩
    exact ⟨q, mappedAt_before held.orderly.wf he (by simp) hq⟩
  have queue := (queue_event held.orderly.wf held.file he trivial).2
  refine ⟨_, held.event he trivial fun c x hx => held.mapped c x (old c x hx), queue, old,
    fun d hd client _ => ?_, ?_⟩
  · obtain ⟨⟨t, d'⟩, hx, rfl⟩ := List.mem_map.mp hd
    obtain ⟨posts, htype⟩ := he.1.2 _ (List.mem_filter.mp hx).1
    simp only at client posts htype ⊢
    exact ⟨by simp [htype], fun _ valid x => not_mapped_teardown held.orderly he posts client valid⟩
  · rintro c x ⟨q, hq⟩
    by_cases hp : q = p
    · subst hp
      obtain ⟨validC, validX⟩ := held.mapped c x ⟨q, hq⟩
      obtain ⟨l, hl⟩ := Drv.Deletes.tells ⟨ds, s₀, he, leaving, h⟩ (MappedAt.posts held hq) rfl rfl validC validX
        held.valid (tells ⟨c, x, q, hq⟩ .client)
      have said := List.append_cancel_left (queue.symm.trans hl)
      exact Or.inr ⟨_, said ▸ List.mem_append_right l List.mem_cons_self, rfl, rfl, rfl, rfl, validX⟩
    · refine Or.inl ⟨q, mappedAt_after held.orderly.wf he (fun ds' hev => ?_) hq⟩
      cases hev
      exact hp rfl

end Ripc
