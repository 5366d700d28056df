import Ripc.CallLog

namespace Ripc

namespace ClientState

/-- The callbacks that were run for a reply. -/
def invocations (s : ClientState) (id : Nat) : List Nat :=
  (s.invoked.filter fun p => p.1 = id).map Prod.snd

/-- Every handled reply ran the callback of its own call and no other, and once all replies are
handled the client is idle and nobody waits. -/
structure ExactlyOnce (s : ClientState) : Prop where
  once : ∀ r ∈ s.handled, s.invocations r.id = r.callback.toList
  idle : (∀ r ∈ s.sent, r ∈ s.handled) → s.isRequestSent = false ∧ s.caller.sleeping = false

variable {s s' : ClientState}

theorem filter_invocations_notMem {l : List Request} {id : Nat} (h : id ∉ l.map Request.id) :
    (l.flatMap Request.invocation).filter (fun p => p.1 = id) = [] := by
  rw [List.filter_eq_nil_iff]
  intro p hp
  obtain ⟨r, hr, hp⟩ := List.mem_flatMap.mp hp
  have own : p.1 = r.id := by
    simp only [Request.invocation] at hp
    split at hp
    next => rw [List.mem_singleton.mp hp]
    next => cases hp
  have : r.id ≠ id := fun he => h (he ▸ List.mem_map_of_mem hr)
  simpa [own] using this

/-- In a log of calls with different ids each has its own callback, once. -/
theorem invocations_of_nodup {l : List Request} (hn : (l.map Request.id).Nodup) {r : Request}
    (hr : r ∈ l) : ((l.flatMap Request.invocation).filter fun p => p.1 = r.id).map Prod.snd =
      r.callback.toList := by
  induction l with
  | nil => cases hr
  | cons a l ih =>
    obtain ⟨ha, hn⟩ := List.nodup_cons.mp hn
    rw [List.flatMap_cons, List.filter_append, List.map_append]
    rcases List.mem_cons.mp hr with rfl | hr
    · rw [filter_invocations_notMem ha]
      cases hi : r.input <;> simp [Request.invocation, Request.callback, hi]
    · have other : a.id ≠ r.id := fun he => ha (he ▸ List.mem_map_of_mem hr)
      have none_own : (a.invocation.filter fun p => p.1 = r.id) = [] := by
        cases hi : a.input <;> simp [Request.invocation, hi, other]
      rw [none_own, ih hn hr, List.map_nil, List.nil_append]

theorem Logged.all_handled (h : Logged s) (all : ∀ r ∈ s.sent, r ∈ s.handled) :
    s.listener.answered = [] ∧ s.awaiting = [] := by
  have split : s.sent = s.handled ++ (s.listener.answered ++ s.awaiting) := by
    rw [h.sent, answered, List.append_assoc]
  have increasing := h.increasing
  rw [split, List.map_append, List.pairwise_append] at increasing
  refine List.append_eq_nil_iff.mp (List.eq_nil_iff_forall_not_mem.mpr fun r hr => ?_)
  have handled := all r (split ▸ List.mem_append_right _ hr)
  exact absurd (increasing.2.2 _ (List.mem_map_of_mem handled) _ (List.mem_map_of_mem hr))
    (Nat.lt_irrefl _)

theorem exactlyOnce_of (hi : InStep s) (hl : Logged s) (ha : Awake s) : ExactlyOnce s where
  once := by
    intro r hr
    have increasing := hl.increasing
    rw [hl.sent, List.map_append, List.pairwise_append] at increasing
    rw [invocations, hl.invoked]
    exact invocations_of_nodup (increasing.1.imp Nat.ne_of_lt) (List.mem_append_left _ hr)
  idle := by
    intro all
    obtain ⟨listening, waiting⟩ := hl.all_handled all
    simp only [awaiting, List.append_eq_nil_iff] at waiting
    obtain ⟨⟨listening', replies⟩, requests⟩ := waiting
    have idle : s.listener = .idle := by
      cases h : s.listener with
      | idle => rfl
      | _ => simp [h, Listener.answered, Listener.awaiting] at listening listening'
    have empty : s.pending = [] := by
      simp [pending, idle, Listener.pending, replies, requests]
    have flag : s.isRequestSent = false := by
      rw [hi.flag, empty]
      rfl
    refine ⟨flag, Bool.eq_false_iff.mpr fun hsleep => ?_⟩
    rcases ha.due hsleep with hsent | ⟨r, hr⟩
    · rw [flag] at hsent
      cases hsent
    · cases idle.symm.trans hr

/-- In every run in which the listener comes after the recording of the pending call, every handled
reply ran its own callback exactly once and left the client idle. -/
theorem response_exactlyOnce {blocking running : Bool} {moves : List Move}
    (h : Trace (fun s m s' => Timely s m ∧ s.step m = some s') (start blocking running) moves s) :
    ExactlyOnce s := by
  have inv : InStep s ∧ Logged s ∧ Awake s := by
    refine h.invariant (I := fun s => InStep s ∧ Logged s ∧ Awake s) ?_
      ⟨start_inStep _ _, start_logged _ _, .awake nofun rfl⟩
    rintro s m s' ⟨hi, hl, ha⟩ ⟨timely, hs⟩
    exact ⟨step_inStep hi timely hs, step_logged hi hl timely hs, step_awake ha hs⟩
  exact exactlyOnce_of inv.1 inv.2.1 inv.2.2

/-- A blocking call that is answered, and the next call while the listener still wakes the first. -/
def answeredMoves : List Move :=
  [.call true, .caller, .endWriting true, .caller, .caller, .caller, .caller, .reply, .take,
    .listener, .listener, .listener, .listener, .listener, .caller, .call false, .caller,
    .endWriting true]

theorem response_exactlyOnce_answered :
    ∃ s, runIf step (fun s m => s.Timely m) (start true true) answeredMoves = some s ∧
      s.handled = [⟨0, true⟩] ∧ s.invocations 0 = [0] ∧ s.sent = [⟨0, true⟩, ⟨1, false⟩] ∧
      ExactlyOnce s := by
  refine ⟨_, rfl, rfl, rfl, rfl, ?_⟩
  have run : runIf step (fun s m => s.Timely m) (start true true) answeredMoves = some _ := rfl
  exact response_exactlyOnce ((runIf_trace run).mono fun s m s' _ h => ⟨of_decide_eq_true h.1, h.2⟩)

/-- The reply is handled before the call has recorded anything. -/
def fastReplyMoves : List Move :=
  [.call true, .caller, .endWriting true, .reply, .take, .listener, .listener, .listener, .caller,
    .caller, .caller]

/-- The callback of the call is never run, and the client takes the answered request for pending. -/
theorem fast_reply_lost :
    ∃ s, runIf step (fun _ _ => true) (start false true) fastReplyMoves = some s ∧
      s.handled = [⟨0, true⟩] ∧ s.invocations 0 = [] ∧ s.isRequestSent = true ∧ ¬ExactlyOnce s := by
  refine ⟨_, rfl, rfl, rfl, rfl, fun h => ?_⟩
  exact absurd (h.once ⟨0, true⟩ (List.mem_singleton_self _)) (by decide)

end ClientState

end Ripc
