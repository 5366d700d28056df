import Ripc.ConnectAlone
import Ripc.DriverSteps
import Ripc.DriverRuns

namespace Ripc

/-- No two connections share a sub-memory or a client. -/
structure Exclusive (s : Drv) : Prop where
  subMem : ∀ p q c d m, s.gConnsList.get? p = some c → s.gConnsList.get? q = some d →
    c.memP = some m → d.memP = some m → p = q
  client : ∀ p q c d k, s.gConnsList.get? p = some c → s.gConnsList.get? q = some d →
    c.clientP = some k → d.clientP = some k → p = q

def Drv.clientUse (s : Drv) (p : Ptr) : Option Ptr := (s.gConnsList.get? p).bind Connection.clientP
def Drv.subMemUse (s : Drv) (p : Ptr) : Option SubMemPtr := (s.gConnsList.get? p).bind Connection.memP

/-- Clients and sub-memories are taken by one call each. -/
structure TakenOnce (c : Threads) : Prop where
  clients : Guarded c.drv.clientUse c.drv.ClientMarked fun i => (c.pcs i).client
  subMems : Guarded c.drv.subMemUse c.drv.SubMemMarked fun i => (c.pcs i).subMem

variable {s s' : Drv} {c c' : Threads} {i : Nat} {pc pc' : ConnectPc} {K : Kernel}

theorem Guarded.exclusive {marked marked' : _ → Prop} {hold hold' : Nat → Hold _}
    (clients : Guarded s.clientUse marked hold) (subMems : Guarded s.subMemUse marked' hold') : Exclusive s where
  subMem := fun p q c d m hp hq hm hm' => subMems.unique p q m (by simp [Drv.subMemUse, hp, hm])
    (by simp [Drv.subMemUse, hq, hm'])
  client := fun p q c d k hp hq hk hk' => clients.unique p q k (by simp [Drv.clientUse, hp, hk])
    (by simp [Drv.clientUse, hq, hk'])

theorem TakenOnce.quiet (wf : Wf s) : TakenOnce s.quiet := by
  have conn : ∀ {ρ : Type} {f : Connection → Option ρ} {p : Ptr} {r : ρ},
      (s.gConnsList.get? p).bind f = some r → ∃ c, s.gConnsList.get? p = some c ∧ f c = some r :=
    fun h => Option.bind_eq_some_iff.mp h
  constructor
  · refine .start (fun p q k hp hq => ?_) fun p k hp => ?_
    · obtain ⟨c, hc, hk⟩ := conn hp
      obtain ⟨d, hd, hk'⟩ := conn hq
      exact wf.links.connClient.injective hc hk hd hk'
    · obtain ⟨c, hc, hk⟩ := conn hp
      obtain ⟨cli, hcli, back⟩ := wf.links.connClient p c k hc hk
      exact ⟨cli, hcli, by simp [back]⟩
  · refine .start (fun p q m hp hq => ?_) fun p m hp => ?_
    · obtain ⟨c, hc, hm⟩ := conn hp
      obtain ⟨d, hd, hm'⟩ := conn hq
      exact wf.links.connMem.injective hc hm hd hm'
    · obtain ⟨c, hc, hm⟩ := conn hp
      obtain ⟨sub, hsub, back⟩ := wf.links.connMem p c m hc hm
      exact ⟨sub, hsub, by simp [back]⟩

theorem hold_update {ρ : Type} (f : ConnectPc → Hold ρ) (pcs : Nat → ConnectPc) (i : Nat) (pc : ConnectPc) :
    (fun j => f (Function.update pcs i pc j)) = Function.update (fun j => f (pcs j)) i (f pc) :=
  Function.comp_update f pcs i pc

theorem Guarded.put {ρ υ : Type} {uses : υ → Option ρ} {marked : ρ → Prop} {f : ConnectPc → Hold ρ}
    {pcs : Nat → ConnectPc} (h : Guarded uses marked (Function.update (fun j => f (pcs j)) i (f pc))) :
    Guarded uses marked fun j => f (Function.update pcs i pc j) :=
  (hold_update f pcs i pc).symm ▸ h

theorem Guarded.same {ρ υ : Type} {uses : υ → Option ρ} {marked : ρ → Prop} {f : ConnectPc → Hold ρ}
    {pcs : Nat → ConnectPc} (h : Guarded uses marked fun j => f (pcs j)) (hpc : pcs i = pc) (same : f pc' = f pc) :
    Guarded uses marked fun j => f (Function.update pcs i pc' j) := by
  refine Guarded.put ?_
  rw [same, ← hpc, Function.update_eq_self]
  exact h

theorem TakenOnce.keep (h : TakenOnce c) (hpc : c.pcs i = pc) (conns : s.gConnsList = c.drv.gConnsList)
    (clients : ∀ k, c.drv.ClientMarked k → s.ClientMarked k) (subMems : ∀ m, c.drv.SubMemMarked m → s.SubMemMarked m)
    (hc : pc'.client = pc.client) (hm : pc'.subMem = pc.subMem) : TakenOnce ⟨s, Function.update c.pcs i pc'⟩ := by
  have use : s.clientUse = c.drv.clientUse ∧ s.subMemUse = c.drv.subMemUse := by
    constructor <;> funext p <;> simp only [Drv.clientUse, Drv.subMemUse, conns]
  constructor
  · rw [use.1]
    exact (h.clients.mark clients).same hpc hc
  · rw [use.2]
    exact (h.subMems.mark subMems).same hpc hm

theorem TakenOnce.stay (h : TakenOnce c) (hpc : c.pcs i = pc) (hc : pc'.client = pc.client)
    (hm : pc'.subMem = pc.subMem) : TakenOnce ⟨c.drv, Function.update c.pcs i pc'⟩ :=
  h.keep hpc rfl (fun _ => id) (fun _ => id) hc hm

theorem TakenOnce.leave (h : TakenOnce c) (hpc : c.pcs i = pc) (hc : ∀ k, pc.client ≠ .used k)
    (hm : ∀ m, pc.subMem ≠ .used m) (ret : Int) : TakenOnce ⟨c.drv, Function.update c.pcs i (.returned ret)⟩ := by
  constructor
  · exact (h.clients.letGo fun k hk => absurd hk (hpc ▸ hc k)).put
  · exact (h.subMems.letGo fun m hm' => absurd hm' (hpc ▸ hm m)).put

theorem subMem?_addPool {p : Ptr} {shm : Shm} (fresh : p ∉ s.gShmList.keys) {m : SubMemPtr} {sub : SubMem}
    (h : s.subMem? m = some sub) : (s.addPool p shm).subMem? m = some sub := by
  obtain ⟨pool, hpool, hsub⟩ := Option.map_eq_some_iff.mp h
  have other : m.shm ≠ p := by
    rintro rfl
    exact fresh (Table.mem_keys.mpr ⟨pool, hpool⟩)
  rw [Drv.addPool, takeIds_frame]
  simp [Drv.subMem?, subMemAt, Table.get?_pushFront fresh, other, hpool, hsub]

theorem subMemMarked_addPool {p : Ptr} {shm : Shm} (fresh : p ∉ s.gShmList.keys) {m : SubMemPtr}
    (h : s.SubMemMarked m) : (s.addPool p shm).SubMemMarked m := by
  obtain ⟨sub, hsub, marked⟩ := h
  exact ⟨sub, subMem?_addPool fresh hsub, marked⟩

theorem clientMarked_setConn {k k' con : Ptr} (h : s.ClientMarked k') :
    ({ s with gClientsList := s.gClientsList.modify k fun cli => { cli with connP := some con } } : Drv).ClientMarked
      k' := by
  obtain ⟨cli, hcli, marked⟩ := h
  by_cases he : k' = k
  · exact ⟨_, by rw [Table.get?_modify, if_pos he, hcli]; rfl, by simp⟩
  · exact ⟨cli, by rw [Table.get?_modify, if_neg he, hcli], marked⟩

theorem subMemMarked_add {m m' : SubMemPtr} {con : Ptr} (h : s.SubMemMarked m') :
    (submemAddConnection s m con).SubMemMarked m' := by
  obtain ⟨sub, hsub, marked⟩ := h
  rw [Drv.subMem?] at hsub
  by_cases he : m' = m
  · exact ⟨{ sub with connP := some con },
      by rw [submemAddConnection, Drv.subMem?, subMemAt_setSubMem, if_pos he, hsub]; rfl, by simp⟩
  · exact ⟨sub, by rw [submemAddConnection, Drv.subMem?, subMemAt_setSubMem, if_neg he, hsub], marked⟩

theorem TakenOnce.create (h : TakenOnce c) {client server con : Ptr} {m : SubMemPtr}
    (hpc : c.pcs i = .createConn client server (some m)) (fresh : con ∉ c.drv.gConnsList.keys) :
    TakenOnce ⟨{ c.drv with gConnsList := c.drv.gConnsList.pushBack con ⟨some client, some server, some m, false⟩ },
      Function.update c.pcs i (.testConn client server con m)⟩ := by
  have unused : c.drv.gConnsList.get? con = none := Table.get?_eq_none.mpr fresh
  constructor
  · have use := h.clients.use (i := i) (r := client) (u := con) (by rw [hpc]; rfl) (by rw [Drv.clientUse, unused]; rfl)
    rw [hold_update]
    refine (congrArg (fun u => Guarded u _ _) ?_).mp use
    funext p
    simp only [Drv.clientUse, Table.get?_pushBack fresh]
    by_cases he : p = con
    · subst he
      simp
    · rw [Function.update_of_ne he, if_neg he]
      rfl
  · have use := h.subMems.use (i := i) (r := m) (u := con) (by rw [hpc]; rfl) (by rw [Drv.subMemUse, unused]; rfl)
    rw [hold_update]
    refine (congrArg (fun u => Guarded u _ _) ?_).mp use
    funext p
    simp only [Drv.subMemUse, Table.get?_pushBack fresh]
    by_cases he : p = con
    · subst he
      simp
    · rw [Function.update_of_ne he, if_neg he]
      rfl

theorem TakenOnce.run (h : TakenOnce c) (alone : c.Alone (.run i K)) (hs : (c.pcs i).step K c.drv = .ok (pc, s')) :
    TakenOnce ⟨s', Function.update c.pcs i pc⟩ := by
  simp only [Threads.Alone] at alone
  cases hpc : c.pcs i with
  | idle | returned ret | findClient con =>
    rw [hpc] at hs
    cases hs
    exact h.stay hpc rfl rfl
  | copyRequest con =>
    rw [hpc] at hs
    cases hs
    split <;> exact h.stay hpc rfl rfl
  | testClient con client =>
    rw [hpc] at hs alone
    cases client with
    | none => cases hs
    | some k =>
      obtain ⟨cli, hcli, hs⟩ := bind_eq_ok.mp hs
      have hk := deref_some hcli
      cases hs
      split
      next => exact h.stay hpc rfl rfl
      next free =>
        have unmarked : ¬c.drv.ClientMarked k := by
          rintro ⟨cli', hk', marked⟩
          cases hk.symm.trans hk'
          exact free (Option.isSome_iff_ne_none.mpr marked)
        constructor
        · exact (h.clients.see (by rw [hpc]; rfl) unmarked (alone unmarked)).put
        · exact h.subMems.same hpc rfl
  | findServer con client =>
    rw [hpc] at hs
    obtain ⟨found, _, hs⟩ := bind_eq_ok.mp hs
    split at hs
    next =>
      split at hs
      next => cases hs
      next =>
        cases hs
        exact h.leave hpc (by simp [ConnectPc.client]) (by simp [ConnectPc.subMem]) _
    next =>
      cases hs
      exact h.stay hpc rfl rfl
  | firstPool client server =>
    rw [hpc, ConnectPc.step] at hs
    split at hs <;> cases hs <;> exact h.stay hpc rfl rfl
  | readSlot client server shm slot own =>
    rw [hpc, ConnectPc.step] at hs
    rw [hpc] at alone
    split at hs
    next bound =>
      obtain ⟨pool, hpool, hs⟩ := bind_eq_ok.mp hs
      have hpool := deref_some hpool
      split at hs
      next free =>
        cases hs
        have unmarked : ¬c.drv.SubMemMarked ⟨shm, ⟨slot, bound⟩⟩ := by
          rintro ⟨sub, hsub, marked⟩
          simp only [Drv.subMem?, subMemAt, hpool, Option.map_some, Option.some.injEq] at hsub
          exact marked (Option.isNone_iff_eq_none.mp (hsub ▸ free))
        constructor
        · exact h.clients.same hpc rfl
        · exact (h.subMems.see (by rw [hpc]; rfl) unmarked (alone bound unmarked)).put
      next =>
        cases hs
        exact h.stay hpc rfl rfl
    next =>
      cases hs
      split <;> exact h.stay hpc rfl rfl
  | nextPool client server shm =>
    rw [hpc, ConnectPc.step] at hs
    split at hs <;> cases hs <;> exact h.stay hpc rfl rfl
  | createPool client server =>
    rw [hpc] at hs
    obtain ⟨⟨shm, s₁⟩, hshm, hs⟩ := bind_eq_ok.mp hs
    rcases shmCreate_new hshm with ⟨rfl, rfl, _⟩ | ⟨p, pool, rfl, hp, rfl, _⟩
    · cases hs
      exact h.stay hpc rfl rfl
    · cases hs
      have fresh := K.kmalloc_fresh .shm c.drv p hp
      have frame := takeIds_frame c.drv pool.ids
      refine h.keep hpc ?_ ?_ (fun m => subMemMarked_addPool fresh) rfl rfl
      · rw [Drv.addPool, takeIds_frame]
      · rw [Drv.addPool, takeIds_frame]
        exact fun k hk => hk
  | createConn client server sub =>
    rw [hpc] at hs
    obtain ⟨rfl, rfl⟩ := Prod.mk.inj (Except.ok.inj hs)
    cases sub with
    | none => exact h.leave hpc (by simp [ConnectPc.client]) (by simp [ConnectPc.subMem]) _
    | some m =>
      cases hc : (createConnection K c.drv client server (some m)).1 with
      | none =>
        rw [createConnection_none hc]
        exact h.leave hpc (by simp [ConnectPc.client]) (by simp [ConnectPc.subMem]) _
      | some con =>
        have made : createConnection K c.drv client server (some m) =
            (some con, (createConnection K c.drv client server (some m)).2) := Prod.ext hc rfl
        obtain ⟨m', he, fresh, after⟩ := createConnection_some made
        cases he
        rw [after]
        exact h.create hpc fresh
  | testConn client server con sub =>
    rw [hpc] at hs
    obtain ⟨cli, hcli, hs⟩ := bind_eq_ok.mp hs
    have hk := deref_some hcli
    cases hs
    split
    next marked =>
      refine ⟨(h.clients.letGo fun r hr => ?_).put, h.subMems.same hpc rfl⟩
      rw [hpc] at hr
      cases hr
      exact ⟨cli, hk, Option.isSome_iff_ne_none.mp marked⟩
    next => exact h.stay hpc rfl rfl
  | setConn client server con sub =>
    rw [hpc] at hs
    obtain ⟨cli, hcli, hs⟩ := bind_eq_ok.mp hs
    have hk := deref_some hcli
    cases hs
    refine ⟨((h.clients.mark fun k => clientMarked_setConn).letGo fun r hr => ?_).put, h.subMems.same hpc rfl⟩
    rw [hpc] at hr
    cases hr
    exact ⟨{ cli with connP := some con }, by rw [Table.get?_modify, if_pos rfl, hk]; rfl, by simp⟩
  | setSubmem server con sub =>
    rw [hpc] at hs
    obtain ⟨old, hold, hs⟩ := bind_eq_ok.mp hs
    cases hs
    refine ⟨h.clients.same hpc rfl, ((h.subMems.mark fun m => subMemMarked_add).letGo fun r hr => ?_).put⟩
    rw [hpc] at hr
    cases hr
    have hsub : subMemAt c.drv.gShmList sub = some old := derefSubMem_ok hold
    exact ⟨{ old with connP := some con },
      by rw [submemAddConnection, Drv.subMem?, subMemAt_setSubMem, if_pos rfl, hsub]; rfl, by simp⟩
  | addServerConn server con =>
    rw [hpc] at hs
    obtain ⟨s₁, hadd, hs⟩ := bind_eq_ok.mp hs
    cases hs
    have frame : s'.gConnsList = c.drv.gConnsList ∧ s'.gClientsList = c.drv.gClientsList ∧
        s'.gShmList = c.drv.gShmList := by
      obtain ⟨_, _, hadd⟩ := bind_eq_ok.mp hadd
      split at hadd <;> cases hadd <;> exact ⟨rfl, rfl, rfl⟩
    obtain ⟨conns, clients, pools⟩ := frame
    refine h.keep hpc conns (fun k hk => ?_) (fun m hm => ?_) rfl rfl
    · rwa [Drv.ClientMarked, clients]
    · rwa [Drv.SubMemMarked, Drv.subMem?, pools]

theorem TakenOnce.step {mv : ConnectMove} (h : TakenOnce c) (alone : c.Alone mv) (hs : c.step mv = some c') :
    TakenOnce c' := by
  cases mv with
  | call i con =>
    simp only [Threads.step] at hs
    split at hs
    next outside =>
      cases hs
      cases hpc : c.pcs i with
      | idle | returned ret => exact h.stay hpc rfl rfl
      | _ => simp [hpc, ConnectPc.outside] at outside
    next => cases hs
  | run i K =>
    obtain ⟨⟨pc, s'⟩, hr, rfl⟩ := Option.map_eq_some_iff.mp hs
    exact h.run alone (toOption_eq_some.mp hr)

/-- However connect calls are interleaved, their connections are exclusive while every step that finds a client
unconnected or a slot free is alone with it. -/
theorem connects_exclusive (h : Reachable s) {moves : List ConnectMove}
    (run : Trace (fun c mv c' => c.Alone mv ∧ c.step mv = some c') s.quiet moves c) : Exclusive c.drv := by
  have taken := run.invariant (I := TakenOnce) (fun _ _ _ h hs => h.step hs.1 hs.2) (.quiet h.wf)
  exact Guarded.exclusive taken.clients taken.subMems

theorem alone_of_idle (mv : ConnectMove) (idle : ∀ j, j ≠ mv.thread → c.pcs j = .idle) : c.Alone mv := by
  cases mv with
  | call i con => trivial
  | run i K =>
    simp only [Threads.Alone]
    split
    · intro _ j hj
      rw [idle j hj]
      simp [ConnectPc.client, Hold.on]
    · intro _ _ j hj
      rw [idle j hj]
      simp [ConnectPc.subMem, Hold.on]
    · trivial

def only (i : Nat) (a : ConnectPc × Drv) : Threads := ⟨a.2, Function.update (fun _ => .idle) i a.1⟩

theorem runs_moves {a b : ConnectPc × Drv} (i : Nat) (h : ConnectPc.Runs K a b) : ∃ moves,
    Trace (fun (c : Threads) mv c' => c.Alone mv ∧ c.step mv = some c') (only i a) moves (only i b) := by
  induction h with
  | refl => exact ⟨[], .nil⟩
  | @tail b d _ hs ih =>
    obtain ⟨moves, before⟩ := ih
    have idle : ∀ j, j ≠ i → (only i b).pcs j = .idle := by
      intro j hj
      simp only [only, Function.update_of_ne hj]
    refine ⟨moves ++ [.run i K], before.append (.single ⟨alone_of_idle (.run i K) idle, ?_⟩)⟩
    simp [Threads.step, only, hs, Except.toOption]

/-- A call that nothing comes between meets the condition and does what `connectToServer` does. -/
theorem connectToServer_alone {con : ConnectToServer} {r : Reply} (i : Nat)
    (h : connectToServer K s con = .ok (r, s')) : ∃ moves,
      Trace (fun (c : Threads) mv c' => c.Alone mv ∧ c.step mv = some c') s.quiet moves
        (only i (.returned r.ret, s')) := by
  obtain ⟨moves, run⟩ := runs_moves i (connectToServer_runs h)
  refine ⟨.call i con :: moves, .cons ⟨trivial, ?_⟩ run⟩
  simp [Threads.step, Drv.quiet, ConnectPc.outside, only]

def twoClients : List Call := registeredRun ++ [callOf 3 .open, callOf 3 (.ioctl 3 .registerClient)]

def steps (i n : Nat) : List ConnectMove := List.replicate n (.run i (.plenty ⟨i + 2, i + 2⟩))

/-- Two calls overlap: the second has found its own client unconnected before the first takes a slot, and looks for a
slot when the first has marked its own. -/
def overlap : List ConnectMove :=
  .call 0 ⟨1, shortName 65⟩ :: steps 0 5 ++ .call 1 ⟨2, shortName 65⟩ :: steps 1 4 ++ steps 0 6 ++ steps 1 4 ++
    steps 0 1 ++ steps 1 4

theorem pcs_other {mv : ConnectMove} {j : Nat} (hs : c.step mv = some c') (other : j ≠ mv.thread) :
    c'.pcs j = c.pcs j := by
  cases mv with
  | call i con =>
    simp only [Threads.step] at hs
    split at hs
    next =>
      cases hs
      exact Function.update_of_ne other _ _
    next => cases hs
  | run i K =>
    obtain ⟨r, _, rfl⟩ := Option.map_eq_some_iff.mp hs
    exact Function.update_of_ne other _ _

def aloneCheck (c : Threads) : ConnectMove → Bool
  | .call i _ => i < 2
  | .run i _ => i < 2 && match c.pcs i with
    | .testClient _ (some k) => (c.pcs (1 - i)).client.on ≠ some k
    | .readSlot _ _ p n _ => (c.pcs (1 - i)).subMem.on.all fun m => ¬(m.shm = p ∧ m.slot.val = n)
    | _ => true

theorem aloneCheck_sound {mv : ConnectMove} (still : ∀ j, 2 ≤ j → c.pcs j = .idle) (h : aloneCheck c mv = true) :
    mv.thread < 2 ∧ c.Alone mv := by
  cases mv with
  | call i con => exact ⟨of_decide_eq_true h, trivial⟩
  | run i K =>
    obtain ⟨low, h⟩ := (Bool.and_eq_true _ _).mp h
    have low : i < 2 := of_decide_eq_true low
    have others : ∀ j, j ≠ i → j = 1 - i ∨ c.pcs j = .idle := by
      intro j hj
      by_cases high : 2 ≤ j
      · exact Or.inr (still j high)
      · exact Or.inl (by omega)
    refine ⟨low, ?_⟩
    split at h
    next k hpc =>
      simp only [Threads.Alone, hpc]
      intro _ j hj
      rcases others j hj with rfl | idle
      · exact of_decide_eq_true h
      · rw [idle]
        simp [ConnectPc.client, Hold.on]
    next p n _ hpc =>
      simp only [Threads.Alone, hpc]
      intro hn _ j hj on
      rcases others j hj with rfl | idle
      · rw [on] at h
        exact of_decide_eq_true h ⟨rfl, rfl⟩
      · rw [idle] at on
        cases on
    next client slot => simp only [Threads.Alone]

/-- Two clients connect at the same time. -/
theorem connects_exclusive_alone : ∃ s c, Trace Returns Drv.init twoClients s ∧
    runIf Threads.step aloneCheck s.quiet overlap = some c ∧ (c.pcs 0).outside = true ∧ (c.pcs 1).outside = true ∧
    c.drv.gConnsList.keys = [1, 2] ∧ Exclusive c.drv := by
  have facts : ∃ s, Trace Returns Drv.init twoClients s ∧
      (runIf Threads.step aloneCheck s.quiet overlap).map (fun c =>
        ((c.pcs 0).outside, (c.pcs 1).outside, c.drv.gConnsList.keys)) = some (true, true, [1, 2]) :=
    runCalls_check (by decide)
  obtain ⟨s, calls, facts⟩ := facts
  obtain ⟨c, hc, facts⟩ := Option.map_eq_some_iff.mp facts
  simp only [Prod.mk.injEq] at facts
  obtain ⟨first, second, keys⟩ := facts
  have run : Trace (fun (c : Threads) mv c' => c.Alone mv ∧ c.step mv = some c') s.quiet overlap c := by
    refine (runIf_trace hc).within (I := fun c => ∀ j, 2 ≤ j → c.pcs j = .idle) ?_ fun _ _ => rfl
    intro a mv b still h
    obtain ⟨low, alone⟩ := aloneCheck_sound still h.1
    refine ⟨fun j hj => ?_, alone, h.2⟩
    rw [pcs_other h.2 (by omega), still j hj]
  exact ⟨s, c, calls, hc, first, second, keys, connects_exclusive ⟨twoClients, calls⟩ run⟩

/-- The second call reads the slot after the first has read it and before the first has marked it. -/
def slotRace : List ConnectMove :=
  .call 0 ⟨1, shortName 65⟩ :: steps 0 7 ++ .call 1 ⟨2, shortName 65⟩ :: steps 1 6 ++ steps 0 5 ++ steps 1 5

/-- The second call tests the client after the first has tested it and before the first has marked it. -/
def clientRace : List ConnectMove :=
  .call 0 ⟨1, shortName 65⟩ :: steps 0 3 ++ .call 1 ⟨1, shortName 65⟩ :: steps 1 3 ++ steps 0 9 ++ steps 1 9

theorem race_check (moves : List ConnectMove) {p : Drv → Prop} [DecidablePred p]
    (two : ∀ mv ∈ moves, mv.thread < 2)
    (h : ((runCalls Drv.init twoClients).bind fun s => runIf Threads.step (fun _ _ => true) s.quiet moves).any
      (fun c => (c.pcs 0).outside && (c.pcs 1).outside && decide (p c.drv)) = true) :
    ∃ s c, Reachable s ∧ Trace (fun (c : Threads) mv c' => c.step mv = some c') s.quiet moves c ∧
      (∀ i, (c.pcs i).outside = true) ∧ p c.drv := by
  obtain ⟨c, hc, hp⟩ := (Option.any_eq_true _ _).mp h
  obtain ⟨s, calls, hc⟩ := Option.bind_eq_some_iff.mp hc
  have run : Trace (fun (c : Threads) mv c' => c.step mv = some c') s.quiet moves c :=
    (runIf_trace hc).mono fun _ _ _ _ hs => hs.2
  simp only [Bool.and_eq_true, decide_eq_true_eq] at hp
  refine ⟨s, c, ⟨twoClients, runCalls_trace calls⟩, run, fun i => ?_, hp.2⟩
  by_cases hi : i < 2
  · rcases (by omega : i = 0 ∨ i = 1) with rfl | rfl
    · exact hp.1.1
    · exact hp.1.2
  · have idle : c.pcs i = .idle := by
      refine run.keeps (I := fun c => c.pcs i = .idle) (fun a mv b hmv ha hs => ?_) rfl
      have := two mv hmv
      rw [pcs_other hs (by omega), ha]
    rw [idle]
    rfl

/-- Two clients get one page; and one client gets two connections. -/
theorem connects_shared : (∃ s c, Reachable s ∧
      Trace (fun (c : Threads) mv c' => c.step mv = some c') s.quiet slotRace c ∧
      (∀ i, (c.pcs i).outside = true) ∧ ¬Exclusive c.drv) ∧
    ∃ s c, Reachable s ∧ Trace (fun (c : Threads) mv c' => c.step mv = some c') s.quiet clientRace c ∧
      (∀ i, (c.pcs i).outside = true) ∧ ¬Exclusive c.drv := by
  have slot := race_check slotRace (p := fun s => s.subMemUse 1 = some ⟨1, ⟨0, by decide⟩⟩ ∧
    s.subMemUse 2 = some ⟨1, ⟨0, by decide⟩⟩) (by decide) (by decide)
  have client := race_check clientRace (p := fun s => s.clientUse 1 = some 1 ∧ s.clientUse 2 = some 1)
    (by decide) (by decide)
  constructor
  · obtain ⟨s, c, reachable, run, outside, h1, h2⟩ := slot
    obtain ⟨d, hd, hm⟩ := Option.bind_eq_some_iff.mp h1
    obtain ⟨e, he, hm'⟩ := Option.bind_eq_some_iff.mp h2
    exact ⟨s, c, reachable, run, outside, fun h => absurd (h.subMem 1 2 d e _ hd he hm hm') (by decide)⟩
  · obtain ⟨s, c, reachable, run, outside, h1, h2⟩ := client
    obtain ⟨d, hd, hk⟩ := Option.bind_eq_some_iff.mp h1
    obtain ⟨e, he, hk'⟩ := Option.bind_eq_some_iff.mp h2
    exact ⟨s, c, reachable, run, outside, fun h => absurd (h.client 1 2 d e _ hd he hk hk') (by decide)⟩

end Ripc
