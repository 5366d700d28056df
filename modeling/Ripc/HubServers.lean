import Ripc.HubSound

namespace Ripc

namespace Hub

variable {b b' : Hub} {who : NotifSender} {type : NotifType} {f fd t u : Ptr} {r : Reply}

/-- Party `t` keeps its handle and its servers. -/
structure Keeps (fd t : Ptr) (b b' : Hub) : Prop where
  handle : b.handles fd = some t → b'.handles fd = some t
  servers : ∀ id n, b'.servers id = some (t, n) ↔ b.servers id = some (t, n)

theorem Keeps.of_same (same : b' = b) : Keeps fd t b b' := ⟨fun handle => same ▸ handle, fun _ _ => by rw [same]⟩

theorem Mailed.keeps (h : Mailed b b') : Keeps fd t b b' :=
  ⟨fun handle => h.handles ▸ handle, fun _ _ => by rw [h.servers]⟩

theorem Refused.keeps (h : b.Refused r b') : Keeps fd t b b' := Keeps.of_same h.2

theorem Made.keeps {admissible effect : Prop} (h : b.Made admissible r b' effect) (made : effect → Keeps fd t b b') :
    Keeps fd t b b' := by
  rcases h with ⟨_, done⟩ | ⟨_, refused⟩
  · exact made done
  · exact refused.keeps

theorem ServesCmd.keeps {cmd : Cmd} (h : b.ServesCmd u cmd r b') (adds : ∀ reg, cmd = .registerServer reg → u ≠ t)
    (drops : ∀ arg, cmd = .serverUnregister arg → ∀ n, b.servers (unpackId1 arg) ≠ some (t, n)) : Keeps fd t b b' := by
  cases cmd with
  | registerServer reg =>
    refine Made.keeps h fun done => ?_
    obtain ⟨i, fresh, _, offered⟩ := done
    refine ⟨fun handle => offered ▸ handle, fun id n => ?_⟩
    rw [offered, Broker.servers_offer]
    split
    next same => simp [same, fresh.2.server, adds reg rfl]
    next => rfl
  | registerClient =>
    refine Made.keeps h fun done => ?_
    obtain ⟨i, _, _, joined⟩ := done
    exact joined ▸ ⟨id, fun _ _ => Iff.rfl⟩
  | connectToServer con =>
    refine Made.keeps h fun done => ?_
    obtain ⟨_, v, x, _, _, _, linked⟩ := done
    exact linked ▸ ⟨id, fun _ _ => Iff.rfl⟩
  | clientEndWriting arg => exact Made.keeps h fun done => done.2 ▸ (mailed_say b _ _ _).keeps
  | serverEndWriting arg =>
    refine Made.keeps h fun done => ?_
    obtain ⟨c, _, _, told⟩ := done
    exact told ▸ (mailed_say b _ _ _).keeps
  | clientDisconnect arg =>
    exact Made.keeps h fun done => done.2 ▸ ((mailed_say b _ _ _).trans (mailed_sever _ _)).keeps
  | serverDisconnect arg =>
    refine Made.keeps h fun done => ?_
    obtain ⟨c, _, _, cut⟩ := done
    exact cut ▸ ((mailed_say b _ _ _).trans (mailed_sever _ _)).keeps
  | clientUnregister arg =>
    have cut := (mailed_say b .client .remoteDisconnect (unpackId1 arg)).trans (mailed_sever _ (unpackId1 arg))
    have kept : Keeps fd t b _ := cut.keeps
    exact Made.keeps h fun done => done.2 ▸ ⟨kept.handle, kept.servers⟩
  | serverUnregister arg =>
    refine Made.keeps h fun done => ?_
    obtain ⟨cs, _, _, _, withdrawn⟩ := done
    have cut : Keeps fd t b (cs.foldl Hub.sever b) := (mailed_severAll b cs).keeps
    refine ⟨fun handle => withdrawn ▸ cut.handle handle, fun id n => ?_⟩
    rw [withdrawn, Broker.servers_withdraw, (mailed_severAll b cs).servers]
    split
    next same => simpa [same] using drops arg rfl n
    next => rfl
  | registerMonitor => exact Made.keeps h fun done => done.2 ▸ ⟨id, fun _ _ => Iff.rfl⟩
  | unknown => exact Refused.keeps h

theorem ServesRead.keeps {count : Nat} (h : b.ServesRead u count r b') : Keeps fd t b b' := by
  obtain ⟨p, _, done⟩ := h
  split at done
  next => exact .of_same done.1
  next =>
    split at done
    next => exact .of_same done.2
    next => exact done.1 ▸ ⟨id, fun _ _ => Iff.rfl⟩

theorem ServesMmap.keeps {K : Kernel} {arg : U32} (h : b.ServesMmap K arg r b') : Keeps fd t b b' := by
  unfold ServesMmap at h
  split at h
  next =>
    refine Made.keeps h fun done => ?_
    obtain ⟨_, v, x, _, told⟩ := done
    rw [told]
    split
    next => exact .of_same rfl
    next => exact (mailed_say b _ _ _).keeps
  next => exact Made.keeps h fun done => .of_same done.2

theorem ServesRelease.keeps {K : Kernel} (h : b.ServesRelease K f u b') (other : f ≠ fd) (another : u ≠ t) :
    Keeps fd t b b' := by
  obtain ⟨p, _, done⟩ := h
  split at done
  next =>
    obtain ⟨cs, _, _, rfl⟩ := done
    have cut : Keeps fd t b (cs.foldl Hub.sever b) := (mailed_severAll b cs).keeps
    refine ⟨fun handle => ?_, fun id n => ?_⟩
    · rw [Broker.handles_leave, if_neg other.symm]
      exact cut.handle handle
    · rw [Broker.servers_leave, ← cut.servers]
      exact and_iff_left another.symm
  next =>
    refine done ▸ ⟨fun handle => ?_, fun _ _ => Iff.rfl⟩
    rwa [Broker.handles_close, if_neg other.symm]

/-- Only the party itself closes its handle and makes servers of its own. -/
theorem Serves.keeps {call : Call} (so : b.Sound) (handle : b.handles fd = some t) (h : b.Serves call r b')
    (stays : call.op ≠ .release fd) (adds : ∀ reg, call.op ≠ .ioctl fd (.registerServer reg))
    (drops : ∀ f arg, call.op = .ioctl f (.serverUnregister arg) → ∀ n, b.servers (unpackId1 arg) ≠ some (t, n)) :
    Keeps fd t b b' := by
  have another : ∀ {f u}, b.handles f = some u → f ≠ fd → u ≠ t := by
    rintro f u hf other rfl
    exact other (so.own f fd u hf handle)
  obtain ⟨K, op⟩ := call
  cases op with
  | «open» =>
    refine Made.keeps h fun done => ?_
    obtain ⟨f, u, unused, _, _, entered⟩ := done
    refine entered ▸ ⟨fun handle => ?_, fun _ _ => Iff.rfl⟩
    rw [Broker.handles_enter, if_neg]
    · exact handle
    · rintro rfl
      cases unused.symm.trans handle
  | ioctl f cmd =>
    simp only [Serves] at h
    split at h
    next => exact Refused.keeps h
    next u hf =>
      refine ServesCmd.keeps h (fun reg hcmd => ?_) fun arg hcmd => drops f arg (by rw [hcmd])
      refine another hf ?_
      rintro rfl
      exact adds reg (by rw [hcmd])
  | mmap f arg =>
    simp only [Serves] at h
    split at h
    next => exact Refused.keeps h
    next => exact ServesMmap.keeps h
  | read f count =>
    simp only [Serves] at h
    split at h
    next => exact Refused.keeps h
    next => exact ServesRead.keeps h
  | release f =>
    have other : f ≠ fd := fun same => stays (by rw [same])
    obtain ⟨_, h⟩ := h
    split at h
    next => exact .of_same h
    next u hf => exact ServesRelease.keeps h other (another hf other)

end Hub

end Ripc
