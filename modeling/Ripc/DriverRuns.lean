import Ripc.DriverSteps

namespace Ripc

theorem le_foldr_max {α : Type} [LinearOrder α] (z : α) {l : List α} {a : α} (h : a ∈ l) :
    a ≤ l.foldr max z := by
  induction l with
  | nil => cases h
  | cons b l ih =>
    rcases List.mem_cons.mp h with rfl | h
    · exact le_max_left _ _
    · exact (ih h).trans (le_max_right _ _)

/-- An address above all that are in use. -/
def freshKey (keys : List Nat) : Nat := keys.foldr max 0 + 1

theorem freshKey_notMem (keys : List Nat) : freshKey keys ∉ keys :=
  fun h => absurd (le_foldr_max 0 h) (Nat.not_succ_le_self _)

/-- The first page frame behind all blocks in use. -/
def freshFrame (blocks : List (Nat × Nat)) : Nat := blocks.foldr (fun b m => max (b.1 + 2 ^ b.2) m) 0

theorem freshFrame_behind {blocks : List (Nat × Nat)} {b : Nat × Nat} (h : b ∈ blocks) :
    b.1 + 2 ^ b.2 ≤ freshFrame blocks := by
  induction blocks with
  | nil => cases h
  | cons a as ih =>
    rcases List.mem_cons.mp h with rfl | h
    · exact Nat.le_max_left _ _
    · exact (ih h).trans (Nat.le_max_right _ _)

/-- One more than the largest id in use, while such ids last. -/
def freshId (used : List Int) : Int :=
  let id := used.foldr max (-1) + 1
  if id ≤ maxIdValue then id else -ENOSPC

theorem freshId_ok (used : List Int) (h : 0 ≤ freshId used) :
    freshId used ≤ maxIdValue ∧ freshId used ∉ used := by
  simp only [freshId] at h ⊢
  split
  next hle =>
    refine ⟨hle, fun hm => ?_⟩
    have below := le_foldr_max (-1) hm
    omega
  next hgt =>
    rw [if_neg hgt] at h
    exact absurd h (by decide)

/-- A kernel in which every request is granted. -/
def Kernel.plenty (current : TaskStruct) : Kernel where
  current := current
  pidAlive := fun _ => true
  copyFromUser := true
  copyToUser := true
  kmalloc := fun site s => some (freshKey (s.live site))
  allocPages := fun _ s => some (freshFrame s.pageBlocks)
  idaAllocRange := fun _ used => freshId used
  remapPfnRange := 0
  garbage := ⟨fun _ => ⟨0, fun _ => ⟨0, 0⟩, fun _ => ⟨0, fun _ => 0, fun _ => 0, 0⟩, 0, 0⟩, 0⟩
  kmalloc_fresh := fun site s _ h => Option.some.inj h ▸ freshKey_notMem (s.live site)
  allocPages_disjoint := fun _ _ _ h _ hb => Or.inr (Option.some.inj h ▸ freshFrame_behind hb)
  idaAllocRange_ok := fun _ used h => freshId_ok used h

theorem Kernel.plenty_succeeds (current : TaskStruct) : (Kernel.plenty current).Succeeds :=
  ⟨rfl, rfl, fun _ _ => nofun, fun _ _ => nofun⟩

/-- The state after a list of calls, each made in a state that passes the check; a fault ends the
run. -/
def runChecked (check : Drv → Call → Bool) : Drv → List Call → Option Drv :=
  runIf (fun s call => (step s call).toOption.map Prod.snd) check

theorem runChecked_trace {check : Drv → Call → Bool} {G : Drv → Call → Prop} {s s' : Drv}
    {calls : List Call} (sound : ∀ s call, check s call = true → G s call)
    (h : runChecked check s calls = some s') :
    Trace (fun s call s' => G s call ∧ Returns s call s') s calls s' := by
  refine (runIf_trace h).mono fun a call b _ hs => ⟨sound a call hs.1, ?_⟩
  obtain ⟨⟨r, b'⟩, hr, hb⟩ := Option.map_eq_some_iff.mp hs.2
  cases hb
  exact ⟨r, toOption_eq_some.mp hr⟩

def runCalls (s : Drv) (calls : List Call) : Option Drv := runChecked (fun _ _ => true) s calls

theorem runCalls_trace {s s' : Drv} {calls : List Call} (h : runCalls s calls = some s') :
    Trace Returns s calls s' :=
  (runChecked_trace (G := fun _ _ => True) (fun _ _ _ => trivial) h).mono fun _ _ _ _ hs => hs.2

theorem runChecked_check {check : Drv → Call → Bool} {G : Drv → Call → Prop} {p : Drv → Prop} [DecidablePred p]
    {calls : List Call} (sound : ∀ s call, check s call = true → G s call)
    (h : (runChecked check Drv.init calls).any (fun s => decide (p s)) = true) :
    ∃ s, Trace (fun s call s' => G s call ∧ Returns s call s') Drv.init calls s ∧ p s := by
  obtain ⟨s, hs, hp⟩ := (Option.any_eq_true _ _).mp h
  exact ⟨s, runChecked_trace sound hs, of_decide_eq_true hp⟩

theorem runCalls_check {p : Drv → Prop} [DecidablePred p] {calls : List Call}
    (h : (runCalls Drv.init calls).any (fun s => decide (p s)) = true) :
    ∃ s, Trace Returns Drv.init calls s ∧ p s := by
  obtain ⟨s, run, hp⟩ := runChecked_check (G := fun _ _ => True) (fun _ _ _ => trivial) h
  exact ⟨s, run.mono fun _ _ _ _ hs => hs.2, hp⟩

def callOf (pid : Nat) (op : Op) : Call := ⟨.plenty ⟨pid, pid⟩, op⟩

def shortName (c : UInt8) : Vector UInt8 maxServerName := Vector.ofFn fun i => if i.val = 0 then c else 0

/-- Process 1 serves under the name `A`; process 2 has a client. -/
def registeredRun : List Call :=
  [callOf 1 .open, callOf 2 .open,
    callOf 1 (.ioctl 1 (.registerServer ⟨shortName 65, Vector.replicate 4 0⟩)),
    callOf 2 (.ioctl 2 .registerClient)]

def connectedRun : List Call :=
  registeredRun ++ [callOf 2 (.ioctl 2 (.connectToServer ⟨1, shortName 65⟩))]

/-- A client of process 3 joins. -/
def twoConnections : List Call :=
  connectedRun ++ [callOf 3 .open, callOf 3 (.ioctl 3 .registerClient),
    callOf 3 (.ioctl 3 (.connectToServer ⟨7, shortName 65⟩))]

end Ripc
