import Ripc.ExchangeSound
import Ripc.DriverGrowth
import Ripc.DriverRuns
import Ripc.RestRequests
import Ripc.RoundTrip

namespace Ripc

namespace Exchange

section

variable {A : Type} {l : Line} {lib : Nlohmann} {own : Nat → Nat → Prop} {x x₀ y : Exchange A}
  {moves : List (ExchangeMove A)} {m : ExchangeMove A}

theorem Sound.hears (h : Sound l own x) {K : Kernel} {r : Reply} {drv : Drv} (idle : x.client.listener = .idle)
    (hs : step x.drv ⟨K, .read l.clientFd sizeofNotificationData⟩ = .ok (r, drv)) :
    (x.act l lib (.hear K)).isSome = true := by
  simp only [Exchange.act, idle, if_true, driver, hs, Option.bind_some]
  split
  next ntf hout =>
    rcases h.up.clientReads (Nat.le_refl _) hs with ⟨_, nothing⟩ | ⟨d, queue, _, _, only⟩
    · exact absurd hout (nothing ntf)
    cases only ntf hout
    have heard := h.clientHeard ntf (queue ▸ List.mem_cons_self)
    unfold Exchange.hear
    split
    next mine =>
      split
      next => rfl
      next type =>
        have reply : ntf = l.reply := by
          refine heard.resolve_right fun hears => ?_
          have other := hears mine.2.1 mine.2.2
          rw [type] at other
          cases other
        have replies := h.replies
        rw [queue, reply, List.count_cons_self] at replies
        obtain ⟨q, rest, hq⟩ := List.exists_cons_of_length_pos (Nat.lt_of_lt_of_le (Nat.succ_pos _) replies)
        simp [ClientState.step, idle, hq]
      next type =>
        rcases heard with reply | hears
        · rw [reply] at type
          cases type
        · have other := hears mine.2.1 mine.2.2
          rw [type] at other
          cases other
    next => rfl
  next => rfl

theorem Sound.calls (h : Sound l own x) {K : Kernel} {r : Reply} {drv : Drv} {call : SystemCall}
    (hc : x.call = some call) (hs : step x.drv ⟨K, call.op l.fd⟩ = .ok (r, drv)) :
    (x.act l lib (.systemCall K)).isSome = true := by
  simp only [Exchange.act, hc, Option.bind_some, Exchange.systemCall, driver, hs]
  split
  next answers =>
    have requests := h.requests
    rw [answering, hc, Option.any_some, answers.1, Bool.toNat_true] at requests
    obtain ⟨q, rest, hq⟩ := List.exists_cons_of_length_pos (Nat.lt_of_lt_of_le (Nat.succ_pos _) requests)
    simp [ClientState.step, hq]
  next => rfl

/-- However the processes take turns, the server reads every request as it was announced and the client every answer
as it was written, request for request. -/
theorem exchange_conforms (fresh : x₀.Fresh l)
    (run : Trace (fun x m y => m.Apart l ∧ x.act l lib m = some y) x₀ moves x) :
    Conforms (fun _ _ => True) x.log ∧ ∀ K r drv,
      (x.client.listener = .idle → step x.drv ⟨K, .read l.clientFd sizeofNotificationData⟩ = .ok (r, drv) →
        (x.act l lib (.hear K)).isSome = true) ∧
      ∀ call, x.call = some call → step x.drv ⟨K, call.op l.fd⟩ = .ok (r, drv) →
        (x.act l lib (.systemCall K)).isSome = true := by
  have sound := run.invariant (I := Sound l fun _ _ => True)
    (fun _ _ _ h hs => h.act hs.1 (fun _ _ _ _ => trivial) hs.2) fresh.sound
  exact ⟨sound.log, fun K r drv => ⟨sound.hears, fun call => sound.calls⟩⟩

/-- The listener looks at `m_callback` and clears `m_is_request_sent` only when the calling thread has set them. -/
def Timely (x : Exchange A) : ExchangeMove A → Prop
  | .listener => x.client.Timely .listener
  | _ => True

instance (x : Exchange A) : (m : ExchangeMove A) → Decidable (x.Timely m)
  | .listener => inferInstanceAs (Decidable (x.client.Timely .listener))
  | .other _ | .application .. | .disconnect .. | .call _ | .caller .. | .endWriting _ | .hear _ | .read _ | .handle _
  | .systemCall _ => .isTrue trivial

/-- The threads of the client move as they do for themselves. -/
theorem act_client (hs : x.act l lib m = some y) :
    y.client = x.client ∨ ∃ move, x.client.step move = some y.client ∧ (move = .listener → m = .listener) := by
  cases m with
  | other call =>
    obtain ⟨⟨r, z⟩, hd, hy⟩ := Option.map_eq_some_iff.mp hs
    obtain ⟨drv, _, rfl⟩ := driver_some hd
    cases hy
    exact Or.inl rfl
  | application app urls pages =>
    cases hs
    exact Or.inl rfl
  | disconnect logs id =>
    obtain ⟨_, _, hy⟩ := Option.map_eq_some_iff.mp hs
    cases hy
    exact Or.inl rfl
  | call input =>
    obtain ⟨client, hstep, hy⟩ := Option.map_eq_some_iff.mp hs
    cases hy
    exact Or.inr ⟨_, hstep, by simp⟩
  | caller url out =>
    obtain ⟨client, hstep, hy⟩ := Option.map_eq_some_iff.mp hs
    cases hy
    exact Or.inr ⟨_, hstep, by simp⟩
  | endWriting K =>
    simp only [act] at hs
    split at hs
    next c hc =>
      have announced : ∀ ok, x.client.step (.endWriting ok) = some (x.client.announced c ok) := fun ok => by
        simp only [ClientState.step, hc]
      unfold announce at hs
      split at hs
      next =>
        cases hs
        exact Or.inr ⟨_, announced false, by simp⟩
      next =>
        obtain ⟨⟨r, z⟩, hd, hy⟩ := Option.map_eq_some_iff.mp hs
        obtain ⟨drv, _, rfl⟩ := driver_some hd
        cases hy
        exact Or.inr ⟨_, announced _, by simp⟩
    next => cases hs
  | hear K =>
    simp only [act] at hs
    split at hs
    next =>
      obtain ⟨⟨r, z⟩, hd, hy⟩ := Option.bind_eq_some_iff.mp hs
      obtain ⟨drv, _, rfl⟩ := driver_some hd
      split at hy
      next =>
        unfold hear at hy
        split at hy
        next =>
          split at hy
          next => cases hy; exact Or.inl rfl
          next =>
            obtain ⟨client, hstep, hy⟩ := Option.map_eq_some_iff.mp hy
            cases hy
            exact Or.inr ⟨_, hstep, by simp⟩
          next => cases hy
        next => cases hy; exact Or.inl rfl
      next => cases hy; exact Or.inl rfl
    next => cases hs
  | listener =>
    obtain ⟨client, hstep, hy⟩ := Option.map_eq_some_iff.mp hs
    cases hy
    exact Or.inr ⟨_, hstep, fun _ => rfl⟩
  | read K =>
    simp only [act] at hs
    split at hs
    next =>
      obtain ⟨⟨r, z⟩, hd, hy⟩ := Option.map_eq_some_iff.mp hs
      obtain ⟨drv, _, rfl⟩ := driver_some hd
      split at hy <;> cases hy <;> exact Or.inl rfl
    next => cases hs
  | handle os =>
    obtain ⟨ntf, _, hy⟩ := Option.bind_eq_some_iff.mp hs
    unfold handle at hy
    split at hy
    next => split at hy <;> cases hy; exact Or.inl rfl
    next => cases hy; exact Or.inl rfl
  | systemCall K =>
    obtain ⟨call, _, hy⟩ := Option.bind_eq_some_iff.mp hs
    obtain ⟨⟨r, z⟩, hd, hy⟩ := Option.bind_eq_some_iff.mp hy
    obtain ⟨drv, _, rfl⟩ := driver_some hd
    simp only at hy
    split at hy
    next =>
      obtain ⟨client, hstep, hy⟩ := Option.map_eq_some_iff.mp hy
      cases hy
      exact Or.inr ⟨_, hstep, by simp⟩
    next => cases hy; exact Or.inl rfl

theorem act_inStep (h : x.client.InStep) (timely : x.Timely m) (hs : x.act l lib m = some y) : y.client.InStep := by
  rcases act_client hs with same | ⟨move, hstep, listens⟩
  · exact same ▸ h
  · refine ClientState.step_inStep h ?_ hstep
    cases move with
    | listener =>
      cases listens rfl
      exact timely
    | _ => trivial

/-- The callback that runs is the one that was passed with the request. -/
theorem inStep_owned (h : x.client.InStep) : x.Owned Eq := by
  intro r call hl hcall
  have single := h.single
  simp only [ClientState.pending, hl, Listener.pending, List.length_append, List.length_singleton] at single
  have now : x.client.pending = [r] := by
    have replies : x.client.replies = [] := List.length_eq_zero_iff.mp (by omega)
    have requests : x.client.requests = [] := List.length_eq_zero_iff.mp (by omega)
    simp [ClientState.pending, hl, Listener.pending, replies, requests]
  have due := h.callback
  rw [hcall, ClientState.dueCallback, (h.invoking r (Or.inl hl)).2, hl, now] at due
  simp only [List.head?_cons, Option.bind_some, Request.callback] at due
  split at due
  next => exact (Option.some.inj due).symm
  next => cases due

/-- With a listener that never comes too early, an answer is read by the callback of the call that was answered. -/
theorem exchange_own (fresh : x₀.Fresh l)
    (run : Trace (fun x m y => m.Apart l ∧ x.Timely m ∧ x.act l lib m = some y) x₀ moves x) : Conforms Eq x.log := by
  obtain ⟨blocking, running, hclient⟩ := fresh.client
  have start : x₀.client.InStep := hclient ▸ ClientState.start_inStep blocking running
  exact (run.invariant (I := fun x => Sound l Eq x ∧ x.client.InStep)
    (fun _ _ _ h hs => ⟨h.1.act hs.1 (inStep_owned h.2) hs.2.2, act_inStep h.2 hs.2.1 hs.2.2⟩)
    ⟨fresh.sound, start⟩).1.log

end

def connectedLine : Line := ⟨⟨1, 1, 1, 1, 0⟩, 2, 2, 1, 1, 1, 1, Shm.first 1, 2⟩

def nullLib : Nlohmann := { oneLib with parse := fun text => if text = [110, 117, 108, 108] then some .null else none }

def blankPage : Memory := Memory.ofBytes (List.replicate 8 7) (by decide)

/-- Both ends right after `connectedRun`; the server has a REST handler for the URL `a`, which answers `null`. -/
def connectedEnds (drv : Drv) : Exchange Unit where
  drv
  client := .start false true
  server :=
    ⟨⟨0, [⟨1, 2⟩], [(2, true)]⟩, true, fun _ => some blankPage,
      [(⟨[.static (.string [97])], [97]⟩, .rest .null fun app _ => (app, .null))]⟩
  app := ()
  page := blankPage
  pending := none
  call := none
  log := []

def Mark.gives (call : Nat) : Mark → Bool
  | .given c _ => c = call
  | _ => false

/-- The client calls `a`, the server answers, and the listener runs the callback. -/
def roundTrip : List (ExchangeMove Unit) :=
  [.call true, .caller (oneChar 97) none, .endWriting (.plenty ⟨2, 2⟩), .caller (oneChar 97) none,
    .other (callOf 3 .open), .caller (oneChar 97) none, .read (.plenty ⟨1, 1⟩), .handle ⟨none, true⟩,
    .systemCall (.plenty ⟨1, 1⟩), .hear (.plenty ⟨2, 2⟩), .listener, .listener]

theorem roundTrip_runs : ∃ drv x, (connectedEnds drv).Fresh connectedLine ∧
    Trace (fun x m y => m.Apart connectedLine ∧ x.Timely m ∧ x.act connectedLine nullLib m = some y) (connectedEnds drv)
      roundTrip x ∧
    x.log.length = 3 ∧ ∃ page, .given 0 page ∈ x.log := by
  have facts : ∃ s, Trace Returns Drv.init connectedRun s ∧
      (s.files.get? 1 = some 1 ∧ s.files.get? 2 = some 2 ∧ s.queue 1 = [] ∧ s.queue 2 = [] ∧
        s.gClientsList.get? 1 = some ⟨1, some 1, some 1⟩ ∧ s.clientsEntries.get? 1 = some ⟨2, 1⟩ ∧
        (s.gServersList.get? 1).any (fun srv => srv.id = 0 ∧ srv.taskP = some 1) = true ∧
        s.serversEntries.get? 1 = some ⟨1, 1⟩ ∧
        s.gConnsList.get? 1 = some ⟨some 1, some 1, some (Shm.first 1), false⟩ ∧
        s.idOf (.subMem (Shm.first 1)) = some 2 ∧
        (runIf (fun (x : Exchange Unit) m => x.act connectedLine nullLib m)
          (fun x m => m.Apart connectedLine ∧ x.Timely m) (connectedEnds s) roundTrip).any
            (fun x => decide (x.log.length = 3 ∧ x.log.any (Mark.gives 0) = true)) = true) :=
    runCalls_check (by decide +kernel)
  obtain ⟨s, run, file, clientFile, empty, clientEmpty, client, clientEntry, server, entry, conn, memory, later⟩ :=
    facts
  obtain ⟨srv, hsrv, ids⟩ := (Option.any_eq_true _ _).mp server
  obtain ⟨x, exchange, marks⟩ := (Option.any_eq_true _ _).mp later
  obtain ⟨marks, read⟩ := of_decide_eq_true marks
  obtain ⟨mark, hmark, gives⟩ := List.any_eq_true.mp read
  have occupied : connectedLine.Occupied s := ⟨by decide, file, ⟨srv, hsrv, of_decide_eq_true ids⟩, entry⟩
  have up : connectedLine.Up s :=
    ⟨occupied, Reachable.orderly ⟨_, run⟩, by decide, by decide, by decide, clientFile, client, clientEntry, ⟨_, conn⟩,
      memory⟩
  refine ⟨s, x, ⟨up, rfl, ?_, ?_, ?_, ⟨_, _, rfl⟩, rfl, rfl, rfl⟩, ?_, marks, ?_⟩
  · intro con hc
    cases List.mem_singleton.mp hc
    decide
  · intro ntf hn
    exact absurd (empty ▸ hn : ntf ∈ []) List.not_mem_nil
  · intro ntf hn
    exact absurd (clientEmpty ▸ hn : ntf ∈ []) List.not_mem_nil
  · exact (runIf_trace exchange).mono fun a m b _ h =>
      ⟨(of_decide_eq_true h.1).1, (of_decide_eq_true h.1).2, h.2⟩
  · cases mark with
    | given call page =>
      cases of_decide_eq_true gives
      exact ⟨page, hmark⟩
    | _ => cases gives

theorem exchange_own_roundTrip : ∃ drv x,
    Trace (fun x m y => m.Apart connectedLine ∧ x.Timely m ∧ x.act connectedLine nullLib m = some y) (connectedEnds drv)
      roundTrip x ∧
    x.log.length = 3 ∧ Conforms Eq x.log := by
  obtain ⟨drv, x, fresh, run, marks, -⟩ := roundTrip_runs
  exact ⟨drv, x, run, marks, exchange_own fresh run⟩

theorem exchange_conforms_roundTrip : ∃ drv x,
    Trace (fun x m y => m.Apart connectedLine ∧ x.act connectedLine nullLib m = some y) (connectedEnds drv)
      roundTrip x ∧
    x.log.length = 3 ∧ Conforms (fun _ _ => True) x.log := by
  obtain ⟨drv, x, fresh, run, marks, -⟩ := roundTrip_runs
  have plain : Trace (fun x m y => m.Apart connectedLine ∧ x.act connectedLine nullLib m = some y) (connectedEnds drv)
      roundTrip x := run.mono fun _ _ _ _ hs => ⟨hs.1, hs.2.2⟩
  exact ⟨drv, x, plain, marks, (exchange_conforms fresh plain).1⟩

end Exchange

end Ripc
