import Ripc.ServerTable

namespace Ripc

section

variable {s s' b : Drv} {call : Call} {seat : Seat} {r : Reply} {new : List NotificationData} {d : NotificationData}
  {ps : List Ptr} {c x : Int} {t : Ptr}

/-- What is queued between the two states is, for some connections, the farewells of both sides. -/
structure BothTold (s b : Drv) (ds : List (Ptr × NotificationData)) : Prop where
  queue : ∀ t ∈ s.gRegTaskList.keys, b.queue t = s.queue t ++ (ds.filter fun x => x.1 = t).map Prod.snd
  both : ∀ x ∈ ds, ∃ q : Parties, x ∈ q.farewells ∧ (∀ who, q.task who ∈ s.gRegTaskList.keys) ∧
    ∀ y ∈ q.farewells, y ∈ ds

theorem BothTold.answers {ds : List (Ptr × NotificationData)} (told : BothTold s b ds) (live : t ∈ s.gRegTaskList.keys)
    (hd : d ∈ s.added b t) {a : Int} (ends : d.Ends a c) : ∃ u ∈ s.gRegTaskList.keys, ∃ e ∈ s.added b u,
      e.whoSends = .server ∧ e.senderId = a ∧ e.type = .remoteDisconnect ∧ e.reciverId = c := by
  have added : ∀ u ∈ s.gRegTaskList.keys, s.added b u = (ds.filter fun x => x.1 = u).map Prod.snd := by
    intro u hu
    rw [Drv.added, told.queue u hu, List.drop_left]
  rw [added t live] at hd
  obtain ⟨⟨_, d⟩, hx, rfl⟩ := List.mem_map.mp hd
  obtain ⟨q, hq, tasks, all⟩ := told.both _ (List.mem_filter.mp hx).1
  obtain ⟨who, _, receiver, sender, _⟩ := ends
  have client : q.valid = true ∧ d = q.notice .client := by
    rcases List.mem_append.mp hq with hq | hq <;> unfold Parties.told at hq <;> split at hq
    next =>
      rw [List.mem_singleton] at hq
      obtain rfl := (Prod.mk.inj hq).2
      cases who
    next => cases hq
    next valid => exact ⟨valid, (Prod.mk.inj (List.mem_singleton.mp hq)).2⟩
    next => cases hq
  obtain ⟨valid, rfl⟩ := client
  have reply : (q.task .client, q.notice .server) ∈ ds :=
    all _ (List.mem_append_left _ (by rw [Parties.told, if_pos valid]; exact List.mem_singleton_self _))
  refine ⟨q.task .client, tasks .client, q.notice .server, ?_, rfl, receiver, rfl, sender⟩
  rw [added _ (tasks .client)]
  exact List.mem_map.mpr ⟨_, List.mem_filter.mpr ⟨reply, by simp⟩, rfl⟩

theorem BothTold.farewells {q : Parties} (live : ∀ who, q.task who ∈ s.gRegTaskList.keys)
    {ds : List (Ptr × NotificationData)} (queue : ∀ t ∈ s.gRegTaskList.keys,
      b.queue t = s.queue t ++ (ds.filter fun x => x.1 = t).map Prod.snd)
    (all : ∀ x, x ∈ ds ↔ x ∈ q.farewells) : BothTold s b ds :=
  ⟨queue, fun x hx => ⟨q, (all x).mp hx, live, fun y hy => (all y).mpr hy⟩⟩

theorem keys_enqueueAll (s : Drv) (ds : List (Ptr × NotificationData)) :
    (s.enqueueAll ds).gRegTaskList.keys = s.gRegTaskList.keys := by
  rw [enqueueAll_eq]
  exact keys_postAll s.gRegTaskList ds

theorem BothTold.trans {a : Drv} {ds es : List (Ptr × NotificationData)} (first : BothTold s a ds)
    (same : a.gRegTaskList.keys = s.gRegTaskList.keys) (rest : BothTold a b es) : BothTold s b (ds ++ es) := by
  refine ⟨fun t ht => ?_, fun x hx => ?_⟩
  · rw [rest.queue t (same ▸ ht), first.queue t ht, List.filter_append, List.map_append, List.append_assoc]
  · rcases List.mem_append.mp hx with hx | hx
    · obtain ⟨q, hq, live, all⟩ := first.both x hx
      exact ⟨q, hq, live, fun y hy => List.mem_append_left es (all y hy)⟩
    · obtain ⟨q, hq, live, all⟩ := rest.both x hx
      exact ⟨q, hq, same ▸ live, fun y hy => List.mem_append_right ds (all y hy)⟩

theorem Drv.Parts.bothTold {p : Ptr} (wf : Wf s) (h : s.Parts p b) :
    (∃ ds, BothTold s b ds) ∧ b.gRegTaskList.keys = s.gRegTaskList.keys := by
  obtain ⟨q, hq, _, rfl⟩ := h
  have live := parties_live wf hq
  exact ⟨⟨q.farewells, .farewells live (fun t ht => queue_enqueueAll ht q.farewells) fun _ => Iff.rfl⟩,
    keys_enqueueAll s q.farewells⟩

theorem Trace.bothTold (wf : Wf s) (run : Trace Drv.Parts s ps b) : ∃ ds, BothTold s b ds := by
  induction run with
  | nil => exact ⟨[], by simp, by simp⟩
  | cons head _ ih =>
    obtain ⟨⟨ds, first⟩, same⟩ := head.bothTold wf
    obtain ⟨es, rest⟩ := ih (head.cleaning wf).wf
    exact ⟨ds ++ es, first.trans same rest⟩

theorem bothTold_send {who : NotifSender} {ret : Int} {p : Ptr} {K : Kernel} {s₁ : Drv} (wf : Wf s) (room : K.Notifies)
    (first : notificationSend K s who .remoteDisconnect p = .ok (ret, s₁)) (parts : s₁.Parts p b) :
    ∃ ds, BothTold s b ds := by
  obtain ⟨q, hq, _, rfl⟩ := parts
  obtain ⟨ds, rfl, _⟩ := notificationSend_list first
  rw [parties_enqueueAll] at hq
  have live := parties_live wf hq
  have sent := send_parties hq (live _) room first
  refine ⟨q.told who ++ q.farewells, .farewells live (fun t ht => ?_) fun x => ?_⟩
  · have after := queue_enqueueAll (s := s.enqueueAll ds) (keys_enqueueAll s ds ▸ ht) q.farewells
    refine after.trans ?_
    rw [sent, queue_enqueueAll ht, List.filter_append, List.map_append, List.append_assoc]
  · rw [List.mem_append, or_iff_right_iff_imp]
    intro hx
    cases who
    · exact List.mem_append_left _ hx
    · exact List.mem_append_right _ hx

/-- A call that queues a client's farewell for a server queues the server's for the client. -/
theorem step_answers (wf : Wf s) (room : call.kernel.Notifies) (tearsDown : call.op.tearsDown = true)
    (hs : step s call = .ok (r, s')) (before : t ∈ s.gRegTaskList.keys) (after : t ∈ s'.gRegTaskList.keys)
    (hd : d ∈ s.added s' t) {a : Int} (ends : d.Ends a c) : ∃ u ∈ s.gRegTaskList.keys, ∃ e ∈ call.sentTo s s' u,
      e.whoSends = .server ∧ e.senderId = a ∧ e.type = .remoteDisconnect ∧ e.reciverId = c := by
  have course : SameNews s s' ∨ ∃ b ds, BothTold s b ds ∧ (∀ u ∈ s'.gRegTaskList.keys, s'.queue u = b.queue u) ∧
      SameNews b (call.sent s s') := by
    cases step_course wf room tearsDown hs with
    | idle same _ => exact Or.inl same
    | plain run _ news _ kept _ =>
      obtain ⟨ds, told⟩ := run.bothTold wf
      exact Or.inr ⟨_, ds, told, kept, news⟩
    | @twice _ _ _ _ b first parts _ news _ _ handler =>
      obtain ⟨ds, told⟩ := bothTold_send wf room first parts
      have same : call.sent s s' = s' := by
        unfold Call.sent
        split
        next op => rw [op] at handler; cases handler
        next => rfl
      exact Or.inr ⟨b, ds, told, fun u _ => same ▸ news.queue u, news⟩
  rcases course with same | ⟨b, ds, told, kept, news⟩
  · rw [Drv.added, same.queue, List.drop_length] at hd
    cases hd
  · have here : d ∈ s.added b t := by rwa [Drv.added, ← kept t after]
    obtain ⟨u, hu, e, he, answer⟩ := told.answers before here ends
    refine ⟨u, hu, e, ?_, answer⟩
    unfold Call.sentTo Drv.added
    split
    next left => rwa [kept u left]
    next => rwa [news.queue u]

theorem step_keepsMapped (held : seat.Held s) (hs : step s call = .ok (r, s')) (others : ¬call.op.Ends)
    (h : s.Mapped seat.server c x) : s'.Mapped seat.server c x := by
  have kept := (step_changes held.orderly.wf hs).keeps (I := fun a => Wf a ∧ a.Mapped seat.server c x) ?_
    ⟨held.orderly.wf, h⟩
  · exact kept.2
  · rintro a b ⟨wf, q, hq⟩ change
    obtain ⟨ev, he, stays⟩ : ∃ ev, a.event ev b ∧ ∀ p ds, ev ≠ .teardown p ds := by
      cases change with
      | lesser he within => exact ⟨_, he, by rintro p ds rfl; exact within⟩
      | deletes ends => exact absurd ends others
      | dropsServer he | dropsClient he => exact ⟨_, he, by simp⟩
      | closes _ he closing => exact ⟨_, he, by rcases closing with rfl | ⟨_, rfl⟩ <;> simp⟩
    exact ⟨wf.event he, q, mappedAt_after wf he (fun ds => stays q ds) hq⟩

theorem Op.Ends.tearsDown {op : Op} (ends : op.Ends) : op.tearsDown = true := by
  unfold Op.Ends at ends
  split at ends
  all_goals first | rfl | exact ends.elim

/-- Whatever ends a mapped connection of the server, its client is told. -/
theorem News.tells_client (held : seat.Held s) (tells : call.op.Ends → call.kernel.TellsOf seat s)
    (hs : step s call = .ok (r, s')) (news : News seat s s' new) (was : s.Mapped seat.server c x)
    (gone : ¬s'.Mapped seat.server c x) : ∃ u ∈ s.gRegTaskList.keys, ∃ e ∈ call.sentTo s s' u,
      e.whoSends = .server ∧ e.senderId = seat.id ∧ e.type = .remoteDisconnect ∧ e.reciverId = c := by
  obtain ⟨d, hd, ends⟩ := (news.lost c x was).resolve_left gone
  have ending : call.op.Ends := by
    by_contra others
    exact gone (step_keepsMapped held hs others was)
  refine step_answers held.orderly.wf (tells ending ⟨c, x, was⟩) ending.tearsDown hs
    (held.orderly.wf.files.live _ _ held.file) (news.held.orderly.wf.files.live _ _ news.held.file) ?_ ends
  rwa [Drv.added, news.queue, List.drop_left]

end

end Ripc
