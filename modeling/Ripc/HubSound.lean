import Ripc.Hub

namespace Ripc

namespace Hub

variable {b b' : Hub} {who : NotifSender} {type : NotifType} {c d t : Ptr} {cs : List Int} {r : Reply}

theorem say_eq (b : Hub) (who : NotifSender) (type : NotifType) (c : Int) :
    b.say who type c = b ∨ ∃ t m, b.say who type c = b.post t m := by
  unfold say
  split
  next => exact Or.inl rfl
  next =>
    split
    next => exact Or.inl rfl
    next t _ => exact Or.inr ⟨t, _, rfl⟩

/-- Only mail is new, and only links may be gone. -/
structure Mailed (b b' : Hub) : Prop where
  handles : b'.handles = b.handles
  clients : b'.clients = b.clients
  servers : b'.servers = b.servers
  sound : b.Sound → b'.Sound

theorem Mailed.refl (b : Hub) : Mailed b b := ⟨rfl, rfl, rfl, id⟩

theorem Mailed.trans {b'' : Hub} (h : Mailed b b') (h' : Mailed b' b'') : Mailed b b'' :=
  ⟨h'.handles.trans h.handles, h'.clients.trans h.clients, h'.servers.trans h.servers, fun so => h'.sound (h.sound so)⟩

theorem mailed_say (b : Hub) (who : NotifSender) (type : NotifType) (c : Int) : Mailed b (b.say who type c) := by
  rcases say_eq b who type c with same | ⟨t, m, posted⟩
  · rw [same]
    exact .refl b
  · rw [posted]
    exact ⟨rfl, rfl, rfl, fun so => so.alter t⟩

theorem links_say (b : Hub) (who : NotifSender) (type : NotifType) (c : Int) : (b.say who type c).links = b.links := by
  rcases say_eq b who type c with same | ⟨t, m, posted⟩
  · rw [same]
  · rw [posted]
    rfl

theorem mailed_sever (b : Hub) (c : Int) : Mailed b (b.sever c) := by
  have told := (mailed_say b .server .remoteDisconnect c).trans (mailed_say _ .client .remoteDisconnect c)
  exact told.trans ⟨rfl, rfl, rfl, fun so => so.part c⟩

theorem links_sever (b : Hub) (c d : Int) : (b.sever c).links d = if d = c then none else b.links d := by
  rw [sever, Broker.links_part, links_say, links_say]

theorem mailed_severAll (b : Hub) (cs : List Int) : Mailed b (cs.foldl sever b) := by
  induction cs generalizing b with
  | nil => exact .refl b
  | cons c cs ih => exact (mailed_sever b c).trans (ih _)

theorem links_severAll (b : Hub) (cs : List Int) (d : Int) :
    (cs.foldl sever b).links d = if d ∈ cs then none else b.links d := by
  induction cs generalizing b with
  | nil => simp
  | cons c cs ih =>
    rw [List.foldl_cons, ih, links_sever]
    by_cases first : d = c <;> simp [first]

theorem Made.sound {admissible effect : Prop} (h : b.Made admissible r b' effect) (so : b.Sound)
    (made : admissible → effect → b'.Sound) : b'.Sound := by
  rcases h with ⟨ok, done⟩ | ⟨_, _, rfl⟩
  · exact made ok done
  · exact so

theorem HasRoom.live {own : Set Int} {most : Nat} (h : b.HasRoom t own most) : b.parties t ≠ none := by
  obtain ⟨⟨p, hp, _⟩, _⟩ := h
  simp [hp]

theorem ServesCmd.sound {cmd : Cmd} (so : b.Sound) (h : b.ServesCmd t cmd r b') : b'.Sound := by
  cases cmd with
  | registerServer reg =>
    refine Made.sound h so fun room done => ?_
    obtain ⟨id, fresh, _, rfl⟩ := done
    exact so.offer room.1.live fresh.2.client
  | registerClient =>
    refine Made.sound h so fun room done => ?_
    obtain ⟨id, fresh, _, rfl⟩ := done
    exact so.join room.live fresh.2.server
  | connectToServer con =>
    refine Made.sound h so fun _ done => ?_
    obtain ⟨client, v, x, ⟨u, n, server, _⟩, fresh, _, rfl⟩ := done
    exact so.connect client (by simp [server]) fresh.2.channel
  | clientEndWriting arg =>
    refine Made.sound h so fun _ done => ?_
    rw [done.2]
    exact (mailed_say b _ _ _).sound so
  | serverEndWriting arg =>
    refine Made.sound h so fun _ done => ?_
    obtain ⟨c, _, _, rfl⟩ := done
    exact (mailed_say b _ _ _).sound so
  | clientDisconnect arg =>
    refine Made.sound h so fun _ done => ?_
    rw [done.2]
    exact ((mailed_say b _ _ _).trans (mailed_sever _ _)).sound so
  | serverDisconnect arg =>
    refine Made.sound h so fun _ done => ?_
    obtain ⟨c, _, _, rfl⟩ := done
    exact ((mailed_say b _ _ _).trans (mailed_sever _ _)).sound so
  | clientUnregister arg =>
    refine Made.sound h so fun _ done => ?_
    rw [done.2]
    refine (((mailed_say b _ _ _).trans (mailed_sever _ _)).sound so).resign ?_
    rw [links_sever, if_pos rfl]
  | serverUnregister arg =>
    refine Made.sound h so fun _ done => ?_
    obtain ⟨cs, _, all, _, rfl⟩ := done
    refine ((mailed_severAll b cs).sound so).withdraw fun c x hc => ?_
    rw [links_severAll] at hc
    split at hc
    next => cases hc
    next left => exact left ((all c).mpr ⟨x, hc⟩)
  | registerMonitor =>
    refine Made.sound h so fun _ done => ?_
    rw [done.2]
    exact so.alter t
  | unknown => exact h.2 ▸ so

theorem ServesRelease.sound {K : Kernel} {f : Ptr} (so : b.Sound) (handle : b.handles f = some t)
    (h : b.ServesRelease K f t b') : b'.Sound := by
  obtain ⟨p, _, done⟩ := h
  split at done
  next =>
    obtain ⟨cs, _, all, rfl⟩ := done
    have mailed := mailed_severAll b cs
    refine (mailed.sound so).leave (mailed.handles ▸ handle) fun c touches => ?_
    obtain ⟨v, x, hc, side⟩ := touches
    rw [links_severAll] at hc
    split at hc
    next => cases hc
    next left =>
      refine left ((all c).mpr ⟨v, x, hc, ?_⟩)
      rw [Broker.clientsOf, mailed.clients, Broker.serversOf, mailed.servers] at side
      exact side
  next =>
    rw [done]
    exact so.close f

/-- What is asked of a sound broker leaves it sound. -/
theorem Serves.sound {call : Call} (so : b.Sound) (h : b.Serves call r b') : b'.Sound := by
  obtain ⟨K, op⟩ := call
  cases op with
  | «open» =>
    refine Made.sound h so fun _ done => ?_
    obtain ⟨f, t, handle, party, _, rfl⟩ := done
    exact so.enter handle party
  | ioctl f cmd =>
    simp only [Serves] at h
    split at h
    next => exact h.2 ▸ so
    next => exact ServesCmd.sound so h
  | mmap f arg =>
    simp only [Serves] at h
    split at h
    next => exact h.2 ▸ so
    next =>
      unfold ServesMmap at h
      split at h
      next =>
        refine Made.sound h so fun _ done => ?_
        obtain ⟨_, v, x, _, rfl⟩ := done
        split
        next => exact so
        next => exact (mailed_say b _ _ _).sound so
      next =>
        refine Made.sound h so fun _ done => ?_
        exact done.2 ▸ so
  | read f count =>
    simp only [Serves] at h
    split at h
    next => exact h.2 ▸ so
    next t _ =>
      obtain ⟨p, _, done⟩ := h
      split at done
      next => exact done.1 ▸ so
      next =>
        split at done
        next => exact done.2 ▸ so
        next =>
          rw [done.1]
          exact so.alter t
  | release f =>
    obtain ⟨_, h⟩ := h
    split at h
    next => exact h ▸ so
    next t handle => exact ServesRelease.sound so handle h

end Hub

end Ripc
