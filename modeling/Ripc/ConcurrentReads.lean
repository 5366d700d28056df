import Ripc.ListHead
import Ripc.Trace
import Ripc.QueueReads

namespace Ripc

/-- A `notification_t`; `nr` counts the sends and is not in the code. -/
structure QueuedNotif where
  nr : Nat
  data : NotificationData
  deriving DecidableEq

/-- Where a thread stands in `ipc_read`, cut where `m_notif_list_lock` is taken; `count` is the size of its buffer,
and `copied` is how `copy_to_user` ends. -/
inductive ReaderPc
  | idle
  | isMonitor (count : Nat) (copied : Bool)
  | isNotifPending (count : Nat) (copied : Bool)
  /-- Behind the test in `reg_task_get_notification`. -/
  | getNotification (count : Nat) (copied : Bool)
  /-- `reg_task_get_notification` has returned `notif`. -/
  | answer (count : Nat) (copied : Bool) (notif : ListNode Ptr)

/-- The fields of a `reg_task_t` that reads and sends use, the notifications in memory, and what has been sent and
returned so far. -/
structure TaskQueue where
  isMonitor : Int
  notifList : ListHead Ptr
  numOfNotif : Int
  notifs : Ptr → Option QueuedNotif
  readers : Nat → ReaderPc
  sent : List NotificationData
  /-- Latest first; none where a read has copied what is no notification. -/
  returned : List (Option QueuedNotif)

inductive QueueMove
  /-- `reg_task_add_notification`, with a notification that has just been made in new memory. -/
  | send (notif : Ptr) (data : NotificationData)
  | read (i : Nat) (count : Nat) (copied : Bool)
  /-- Reader `i` goes on. -/
  | go (i : Nat)
  | setMonitor

namespace TaskQueue

def start : TaskQueue :=
  ⟨0, ListHead.init ⟨fun _ => .head, fun _ => .head⟩ .head, 0, fun _ => none, fun _ => .idle, [], []⟩

def goto (s : TaskQueue) (i : Nat) (pc : ReaderPc) : TaskQueue := { s with readers := Function.update s.readers i pc }

def addNotification (s : TaskQueue) (notif : Ptr) (data : NotificationData) : Option TaskQueue :=
  ((s.notifList.init (.entry notif)).listAddTail (.entry notif)).map fun list =>
    { s with
      notifList := list
      numOfNotif := s.numOfNotif + 1
      notifs := Function.update s.notifs notif (some ⟨s.sent.length, data⟩)
      sent := s.sent ++ [data] }

/-- The section of `reg_task_get_notification`. What `list_first_entry` gives is never `NULL`. -/
def getNotification (s : TaskQueue) : Option (ListNode Ptr × TaskQueue) :=
  (s.notifList.listDel s.notifList.listFirstEntry).map fun list =>
    (s.notifList.listFirstEntry, { s with notifList := list, numOfNotif := s.numOfNotif - 1 })

/-- The copy for the caller and `notification_delete`. Freeing what is no notification is left out. -/
def answer (s : TaskQueue) : ListNode Ptr → TaskQueue
  | .entry p => { s with notifs := Function.update s.notifs p none, returned := s.notifs p :: s.returned }
  | _ => { s with returned := none :: s.returned }

def readerStep (s : TaskQueue) (i : Nat) : Option TaskQueue :=
  match s.readers i with
  | .idle => none
  -- a monitor is answered with the snapshot
  | .isMonitor count copied => some (s.goto i (if s.isMonitor ≠ 0 then .idle else .isNotifPending count copied))
  | .isNotifPending count copied =>
    some (s.goto i (if s.notifList.listEmpty then .idle else .getNotification count copied))
  | .getNotification count copied => s.getNotification.map fun (notif, s) => s.goto i (.answer count copied notif)
  | .answer count copied notif =>
    -- the early returns keep the notification in memory and off the queue
    if sizeofNotificationData > count then some (s.goto i .idle) else
    if !copied then some (s.goto i .idle) else
    some ((s.answer notif).goto i .idle)

def step (s : TaskQueue) : QueueMove → Option TaskQueue
  | .send notif data => if (s.notifs notif).isSome then none else s.addNotification notif data
  | .read i count copied =>
    match s.readers i with
    | .idle => some (s.goto i (.isMonitor count copied))
    | _ => none
  | .go i => s.readerStep i
  | .setMonitor => some { s with isMonitor := s.isMonitor + 1 }

/-- The head is linked, the counter is the length of the queue and so never negative; reads have returned nothing
but what was sent, and nothing twice. -/
structure Kept (s : TaskQueue) : Prop where
  queue : ∃ q, s.notifList.Holds q ∧ s.numOfNotif = q.length
  once : s.returned.Nodup
  sent : ∀ x ∈ s.returned, ∃ notif, x = some notif ∧ s.sent[notif.nr]? = some notif.data

/-- A reader that takes a notification off the queue finds one. -/
def Finds (s : TaskQueue) : QueueMove → Prop
  | .go i => ∀ count copied, s.readers i = .getNotification count copied → s.notifList.listEmpty = false
  | _ => True

end TaskQueue

/-- What a reader has taken off the queue and not returned. -/
def ReaderPc.carried : ReaderPc → Option (ListNode Ptr)
  | .answer _ _ notif => some notif
  | _ => none

namespace TaskQueue

/-- Every notification in memory is of a send of its own that no read has returned; those on the queue and those
with the readers are different ones. -/
structure Inv (s : TaskQueue) (q : List Ptr) : Prop where
  holds : s.notifList.Holds q
  count : s.numOfNotif = q.length
  live : ∀ p ∈ q, s.notifs p ≠ none
  carried : ∀ i x, (s.readers i).carried = some x → ∃ p, x = .entry p ∧ p ∉ q ∧ s.notifs p ≠ none
  apart : ∀ i j x, (s.readers i).carried = some x → (s.readers j).carried = some x → i = j
  inMemory : ∀ p notif, s.notifs p = some notif → s.sent[notif.nr]? = some notif.data ∧ some notif ∉ s.returned
  unique : ∀ p p' notif notif', s.notifs p = some notif → s.notifs p' = some notif' → notif.nr = notif'.nr → p = p'
  once : s.returned.Nodup
  sent : ∀ x ∈ s.returned, ∃ notif, x = some notif ∧ s.sent[notif.nr]? = some notif.data

variable {s s' : TaskQueue} {q : List Ptr} {p : Ptr} {i : Nat} {pc : ReaderPc} {move : QueueMove}

theorem Inv.kept (inv : Inv s q) : Kept s := ⟨⟨q, inv.holds, inv.count⟩, inv.once, inv.sent⟩

theorem Inv.start : Inv start [] where
  holds := .init _
  count := rfl
  live := by simp
  carried := by simp [TaskQueue.start, ReaderPc.carried]
  apart := by simp [TaskQueue.start, ReaderPc.carried]
  inMemory := by simp [TaskQueue.start]
  unique := by simp [TaskQueue.start]
  once := List.nodup_nil
  sent := by simp [TaskQueue.start]

theorem getElem?_snoc {α : Type} {l : List α} {n : Nat} {a : α} (b : α) (h : l[n]? = some a) :
    (l ++ [b])[n]? = some a ∧ n ≠ l.length := by
  obtain ⟨hn, _⟩ := List.getElem?_eq_some_iff.mp h
  exact ⟨by rwa [List.getElem?_append_left hn], by omega⟩

theorem carried_goto {j : Nat} {x : ListNode Ptr} (empty : pc.carried = none)
    (h : ((s.goto i pc).readers j).carried = some x) : j ≠ i ∧ (s.readers j).carried = some x := by
  by_cases he : j = i
  · simp [goto, he, empty] at h
  · simp only [goto, Function.update_of_ne he] at h
    exact ⟨he, h⟩

theorem Inv.goto (inv : Inv s q) (empty : pc.carried = none) : Inv (s.goto i pc) q := by
  refine { inv with carried := fun j x h => ?_, apart := fun j k x h h' => ?_ }
  · exact inv.carried j x (carried_goto empty h).2
  · exact inv.apart j k x (carried_goto empty h).2 (carried_goto empty h').2

theorem Inv.addNotification (data : NotificationData) (inv : Inv s q) (fresh : s.notifs p = none) :
    ∃ s', s.addNotification p data = some s' ∧ Inv s' (q ++ [p]) := by
  have off : p ∉ q := fun h => inv.live p h fresh
  obtain ⟨list, hlist, holds⟩ := (inv.holds.init_entry off).listAddTail off
  refine ⟨_, by rw [TaskQueue.addNotification, hlist]; rfl, ?_⟩
  refine ⟨holds, ?_, ?_, ?_, inv.apart, ?_, ?_, inv.once, ?_⟩
  · have count := inv.count
    simp only [List.length_append, List.length_singleton]
    omega
  · intro p' hp
    by_cases he : p' = p
    · simp [he]
    · have hp : p' ∈ q := by simpa [he] using hp
      simpa [he] using inv.live p' hp
  · intro j x h
    obtain ⟨p', hx, hq, hlive⟩ := inv.carried j x h
    have he : p' ≠ p := fun he => hlive (he ▸ fresh)
    exact ⟨p', hx, by simp [hq, he], by simpa [he] using hlive⟩
  · intro p' notif h
    by_cases he : p' = p
    · have h : ⟨s.sent.length, data⟩ = notif := by simpa [he] using h
      subst h
      refine ⟨by simp, fun mem => ?_⟩
      obtain ⟨notif, hx, hs⟩ := inv.sent _ mem
      cases hx
      exact (getElem?_snoc data hs).2 rfl
    · have h : s.notifs p' = some notif := by simpa [he] using h
      obtain ⟨hs, hr⟩ := inv.inMemory p' notif h
      exact ⟨(getElem?_snoc data hs).1, hr⟩
  · intro p₁ p₂ n₁ n₂ h₁ h₂ same
    by_cases e₁ : p₁ = p <;> by_cases e₂ : p₂ = p
    · exact e₁.trans e₂.symm
    · have h₁ : ⟨s.sent.length, data⟩ = n₁ := by simpa [e₁] using h₁
      have h₂ : s.notifs p₂ = some n₂ := by simpa [e₂] using h₂
      subst h₁
      exact absurd same.symm (getElem?_snoc data (inv.inMemory p₂ n₂ h₂).1).2
    · have h₁ : s.notifs p₁ = some n₁ := by simpa [e₁] using h₁
      have h₂ : ⟨s.sent.length, data⟩ = n₂ := by simpa [e₂] using h₂
      subst h₂
      exact absurd same (getElem?_snoc data (inv.inMemory p₁ n₁ h₁).1).2
    · have h₁ : s.notifs p₁ = some n₁ := by simpa [e₁] using h₁
      have h₂ : s.notifs p₂ = some n₂ := by simpa [e₂] using h₂
      exact inv.unique p₁ p₂ n₁ n₂ h₁ h₂ same
  · intro x hx
    obtain ⟨notif, he, hs⟩ := inv.sent x hx
    exact ⟨notif, he, (getElem?_snoc data hs).1⟩

theorem Inv.getNotification (i count : Nat) (copied : Bool) (inv : Inv s (p :: q)) :
    ∃ s₁, s.getNotification = some (.entry p, s₁) ∧ Inv (s₁.goto i (.answer count copied (.entry p))) q := by
  obtain ⟨first, list, hlist, holds⟩ := inv.holds.listDel
  obtain ⟨notMem, _⟩ := List.nodup_cons.mp inv.holds.nodup
  refine ⟨_, by rw [TaskQueue.getNotification, first, hlist]; rfl, ?_⟩
  have others : ∀ j x, j ≠ i → ((Function.update s.readers i (.answer count copied (.entry p))) j).carried = some x →
      (s.readers j).carried = some x := fun j x hj h => by rwa [Function.update_of_ne hj] at h
  have own : ((Function.update s.readers i (.answer count copied (.entry p))) i).carried = some (.entry p) := by
    rw [Function.update_self]
    rfl
  have new : ∀ j, (s.readers j).carried ≠ some (.entry p) := fun j h => by
    obtain ⟨p', hx, hq, _⟩ := inv.carried j _ h
    cases hx
    exact hq List.mem_cons_self
  refine { inv with holds := holds, count := ?_, live := ?_, carried := ?_, apart := ?_ }
  · have count := inv.count
    simp only [List.length_cons] at count
    show s.numOfNotif - 1 = q.length
    omega
  · exact fun p' hp => inv.live p' (List.mem_cons_of_mem p hp)
  · intro j x h
    by_cases hj : j = i
    · subst hj
      cases own.symm.trans h
      exact ⟨p, rfl, notMem, inv.live p List.mem_cons_self⟩
    · obtain ⟨p', hx, hq, hlive⟩ := inv.carried j x (others j x hj h)
      exact ⟨p', hx, fun hp => hq (List.mem_cons_of_mem p hp), hlive⟩
  · intro j k x h h'
    by_cases hj : j = i <;> by_cases hk : k = i
    · exact hj.trans hk.symm
    · subst hj
      cases own.symm.trans h
      exact absurd (others k _ hk h') (new k)
    · subst hk
      cases own.symm.trans h'
      exact absurd (others j _ hj h) (new j)
    · exact inv.apart j k x (others j x hj h) (others k x hk h')

theorem Inv.answer (inv : Inv s q) (h : (s.readers i).carried = some (.entry p)) :
    Inv ((s.answer (.entry p)).goto i .idle) q := by
  obtain ⟨p', hx, off, hlive⟩ := inv.carried i _ h
  cases hx
  obtain ⟨notif, hnotif⟩ := Option.ne_none_iff_exists'.mp hlive
  obtain ⟨hsent, unreturned⟩ := inv.inMemory p notif hnotif
  have kept : ∀ {p' n}, Function.update s.notifs p none p' = some n → p' ≠ p ∧ s.notifs p' = some n := by
    intro p' n h
    by_cases he : p' = p
    · simp [he] at h
    · exact ⟨he, by simpa [he] using h⟩
  refine ⟨inv.holds, inv.count, ?_, ?_, ?_, ?_, ?_, ?_, ?_⟩
  · intro p' hp
    have he : p' ≠ p := fun he => off (he ▸ hp)
    simpa [TaskQueue.answer, TaskQueue.goto, he] using inv.live p' hp
  · intro j x hj
    obtain ⟨hne, hj⟩ := carried_goto rfl hj
    obtain ⟨p', hx, hq, hlive'⟩ := inv.carried j x hj
    subst hx
    have he : p' ≠ p := fun he => hne (inv.apart j i _ (he ▸ hj) h)
    exact ⟨p', rfl, hq, by simpa [TaskQueue.answer, TaskQueue.goto, he] using hlive'⟩
  · exact fun j k x hj hk => inv.apart j k x (carried_goto rfl hj).2 (carried_goto rfl hk).2
  · intro p' n hn
    obtain ⟨he, hn⟩ := kept hn
    obtain ⟨hs, hr⟩ := inv.inMemory p' n hn
    refine ⟨hs, fun mem => ?_⟩
    rcases List.mem_cons.mp mem with same | mem
    · rw [hnotif] at same
      exact he (inv.unique p' p n notif hn hnotif (congrArg QueuedNotif.nr (Option.some.inj same)))
    · exact hr mem
  · exact fun p₁ p₂ n₁ n₂ h₁ h₂ same => inv.unique p₁ p₂ n₁ n₂ (kept h₁).2 (kept h₂).2 same
  · exact List.nodup_cons.mpr ⟨by rw [hnotif]; exact unreturned, inv.once⟩
  · intro x hx
    rcases List.mem_cons.mp hx with rfl | hx
    · exact ⟨notif, hnotif, hsent⟩
    · exact inv.sent x hx

theorem Inv.step (inv : Inv s q) (finds : s.Finds move) (h : s.step move = some s') : ∃ q, Inv s' q := by
  cases move with
  | send notif data =>
    simp only [TaskQueue.step] at h
    split at h
    next => cases h
    next fresh =>
      obtain ⟨s₁, h₁, inv'⟩ := inv.addNotification data (by simpa using fresh)
      cases h₁.symm.trans h
      exact ⟨_, inv'⟩
  | read i count copied =>
    simp only [TaskQueue.step] at h
    split at h
    next => cases h; exact ⟨q, inv.goto rfl⟩
    next => cases h
  | setMonitor => cases h; exact ⟨q, { inv with }⟩
  | go i =>
    simp only [TaskQueue.step, readerStep] at h
    split at h
    next => cases h
    next => cases h; exact ⟨q, inv.goto (by split <;> rfl)⟩
    next => cases h; exact ⟨q, inv.goto (by split <;> rfl)⟩
    next count copied hpc =>
      have found := finds count copied hpc
      cases q with
      | nil =>
        rw [inv.holds.listEmpty.mpr rfl] at found
        cases found
      | cons p q =>
        obtain ⟨s₁, h₁, inv'⟩ := inv.getNotification i count copied
        rw [h₁] at h
        cases h
        exact ⟨q, inv'⟩
    next count copied notif hpc =>
      have carried : (s.readers i).carried = some notif := by rw [hpc]; rfl
      obtain ⟨p, rfl, _⟩ := inv.carried i notif carried
      split at h
      next => cases h; exact ⟨q, inv.goto rfl⟩
      next =>
        split at h
        next => cases h; exact ⟨q, inv.goto rfl⟩
        next => cases h; exact ⟨q, inv.answer carried⟩

theorem Inv.breaks (inv : Inv s q) (misses : ¬s.Finds move) (h : s.step move = some s') : s'.notifList.Broken := by
  cases move with
  | go i =>
    simp only [Finds, not_forall, Bool.not_eq_false] at misses
    obtain ⟨count, copied, hpc, empty⟩ := misses
    obtain rfl := inv.holds.listEmpty.mp empty
    obtain ⟨first, list, hlist, broken⟩ := inv.holds.listDel_head
    simp only [TaskQueue.step, readerStep, hpc, TaskQueue.getNotification, first, hlist, Option.map_some] at h
    cases h
    exact broken
  | _ => exact absurd trivial misses

theorem broken_step (broken : s.notifList.Broken) (h : s.step move = some s') : s'.notifList.Broken := by
  cases move with
  | send notif data =>
    simp only [TaskQueue.step, addNotification] at h
    split at h
    next => cases h
    next =>
      have still : (s.notifList.init (.entry notif)).Broken :=
        ⟨by simp [ListHead.init, broken.next], by simp [ListHead.init, broken.prev]⟩
      rw [still.listAddTail] at h
      cases h
  | read i count copied =>
    simp only [TaskQueue.step] at h
    split at h <;> cases h
    exact broken
  | setMonitor => cases h; exact broken
  | go i =>
    simp only [TaskQueue.step, readerStep] at h
    split at h
    next => cases h
    next => cases h; exact broken
    next => cases h; exact broken
    next =>
      rw [TaskQueue.getNotification, broken.listDel] at h
      cases h
    next count copied notif hpc =>
      split at h
      next => cases h; exact broken
      next =>
        split at h
        next => cases h; exact broken
        next =>
          cases h
          cases notif <;> exact broken

theorem not_kept (broken : s.notifList.Broken) : ¬Kept s := fun kept => by
  obtain ⟨q, holds, _⟩ := kept.queue
  exact broken.not_holds holds

/-- The queue is kept in exactly the runs in which a reader that takes a notification always finds one. -/
theorem queue_kept {moves : List QueueMove} (run : Trace (fun s move s' => s.step move = some s') start moves s) :
    Kept s ↔ Trace (fun s move s' => s.Finds move ∧ s.step move = some s') start moves s := by
  refine run.exact_of (I := fun s => (∃ q, Inv s q) ∨ s.notifList.Broken) ?_ ?_ (Or.inl ⟨_, .start⟩) Inv.start.kept
  · intro a move b known h
    rcases known with ⟨q, inv⟩ | broken
    · by_cases finds : a.Finds move
      · exact Or.inl (inv.step finds h)
      · exact Or.inr (inv.breaks finds h)
    · exact Or.inr (broken_step broken h)
  · intro a move b known h
    rcases known with ⟨q, inv⟩ | broken
    · by_cases finds : a.Finds move
      · obtain ⟨q', inv'⟩ := inv.step finds h
        exact iff_of_true inv'.kept ⟨inv.kept, finds⟩
      · exact iff_of_false (not_kept (inv.breaks finds h)) fun both => finds both.2
    · exact iff_of_false (not_kept (broken_step broken h)) fun both => not_kept broken both.1

def findsCheck (s : TaskQueue) : QueueMove → Bool
  | .go i => match s.readers i with
    | .getNotification _ _ => !s.notifList.listEmpty
    | _ => true
  | _ => true

theorem findsCheck_sound (h : s.findsCheck move = true) : s.Finds move := by
  cases move with
  | go i =>
    intro count copied hpc
    simpa [findsCheck, hpc] using h
  | _ => trivial

def someNotif : NotificationData := ⟨.client, .newMessage, 3, 1, 0⟩

/-- Two readers have both seen that the queue is not empty before one of them takes a notification. -/
def bothRead : List QueueMove :=
  [.read 0 16 true, .read 1 16 true, .go 0, .go 1, .go 0, .go 1, .go 0, .go 1, .go 0, .go 1]

theorem queue_kept_two : ∃ s, Trace (fun s move s' => s.step move = some s') start
    (.send 1 someNotif :: .send 2 someNotif :: bothRead) s ∧
    s.returned = [some ⟨1, someNotif⟩, some ⟨0, someNotif⟩] ∧ Kept s := by
  have facts : (runIf step findsCheck start (.send 1 someNotif :: .send 2 someNotif :: bothRead)).map
      (fun s => s.returned) = some [some ⟨1, someNotif⟩, some ⟨0, someNotif⟩] := by decide
  obtain ⟨s, hs, returned⟩ := Option.map_eq_some_iff.mp facts
  have run := runIf_trace hs
  have plain := run.mono fun _ _ _ _ h => h.2
  exact ⟨s, plain, returned, (queue_kept plain).mpr (run.mono fun _ _ _ _ h => ⟨findsCheck_sound h.1, h.2⟩)⟩

/-- One notification and two readers: the second one takes the head off the list and returns what lies there. -/
theorem queue_race : ∃ s, Trace (fun s move s' => s.step move = some s') start (.send 1 someNotif :: bothRead) s ∧
    s.numOfNotif = -1 ∧ s.notifList.next .head = .poison1 ∧ s.returned = [none, some ⟨0, someNotif⟩] ∧ ¬Kept s := by
  have facts : (runIf step (fun _ _ => true) start (.send 1 someNotif :: bothRead)).map
      (fun s => (s.numOfNotif, s.notifList.next .head, s.returned)) =
      some (-1, .poison1, [none, some ⟨0, someNotif⟩]) := by decide
  obtain ⟨s, hs, facts⟩ := Option.map_eq_some_iff.mp facts
  simp only [Prod.mk.injEq] at facts
  obtain ⟨num, poison, returned⟩ := facts
  refine ⟨s, (runIf_trace hs).mono fun _ _ _ _ h => h.2, num, poison, returned, fun kept => ?_⟩
  obtain ⟨notif, none, _⟩ := kept.sent none (by simp [returned])
  cases none

/-- The same queue as the calls see it that run one after the other. -/
structure Shows (s : TaskQueue) (q : List Ptr) (task : RegTask) : Prop where
  inv : Inv s q
  isMonitor : s.isMonitor = task.isMonitor
  notifs : q.map (fun p => (s.notifs p).map QueuedNotif.data) = task.notifList.map some
  num : s.numOfNotif = task.numOfNotif

@[simp]
theorem readers_goto : (s.goto i pc).readers i = pc := by simp [goto]

@[simp]
theorem goto_goto {pc' : ReaderPc} : (s.goto i pc).goto i pc' = s.goto i pc' := by simp [goto]

variable {count : Nat} {copied : Bool} {task : RegTask}

theorem Shows.goto (i : Nat) (pc : ReaderPc) (shows : Shows s q task) (empty : pc.carried = none) :
    Shows (s.goto i pc) q task :=
  ⟨shows.inv.goto empty, shows.isMonitor, shows.notifs, shows.num⟩

theorem read_starts (count : Nat) (copied : Bool) (idle : s.readers i = .idle) :
    Trace (fun s move s' => s.Finds move ∧ s.step move = some s') s [.read i count copied, .go i]
      (s.goto i (if s.isMonitor ≠ 0 then .idle else .isNotifPending count copied)) := by
  refine .cons ⟨trivial, by simp only [TaskQueue.step, idle]; rfl⟩ (.single ⟨?_, ?_⟩)
  · simp [Finds]
  · simp only [TaskQueue.step, readerStep, readers_goto, goto_goto]
    rfl

theorem read_empty (shows : Shows s [] task) (hpc : s.readers i = .isNotifPending count copied) :
    Trace (fun s move s' => s.Finds move ∧ s.step move = some s') s [.go i] (s.goto i .idle) := by
  have empty := shows.inv.holds.listEmpty.mpr rfl
  refine .single ⟨by simp [Finds, hpc], ?_⟩
  simp [TaskQueue.step, readerStep, hpc, empty]

theorem Shows.getNotification (i count : Nat) (copied : Bool) (shows : Shows s (p :: q) task) :
    ∃ s₁, s.getNotification = some (.entry p, s₁) ∧ s₁.notifs = s.notifs ∧ s₁.returned = s.returned ∧
      Shows (s₁.goto i (.answer count copied (.entry p))) q task.dequeue := by
  obtain ⟨s₁, h, inv⟩ := shows.inv.getNotification i count copied
  obtain ⟨list, _, taken⟩ := Option.map_eq_some_iff.mp h
  obtain ⟨_, rfl⟩ := Prod.mk.inj taken
  refine ⟨_, h, rfl, rfl, inv, shows.isMonitor, ?_, ?_⟩
  · have notifs := congrArg List.tail shows.notifs
    show q.map (fun p => (s.notifs p).map QueuedNotif.data) = task.notifList.tail.map some
    simpa [List.map_tail] using notifs
  · have num := shows.num
    show s.numOfNotif - 1 = task.numOfNotif - 1
    omega

theorem Shows.answer (shows : Shows s q task) (h : (s.readers i).carried = some (.entry p)) :
    Shows ((s.answer (.entry p)).goto i .idle) q task := by
  refine ⟨shows.inv.answer h, shows.isMonitor, ?_, shows.num⟩
  obtain ⟨p', hx, off, _⟩ := shows.inv.carried i _ h
  cases hx
  rw [← shows.notifs]
  refine List.map_congr_left fun p' hp => ?_
  have he : p' ≠ p := fun he => off (he ▸ hp)
  simp [TaskQueue.answer, TaskQueue.goto, he]

theorem read_first (shows : Shows s (p :: q) task) (hpc : s.readers i = .isNotifPending count copied) :
    ∃ s', Trace (fun s move s' => s.Finds move ∧ s.step move = some s') s [.go i, .go i, .go i] s' ∧
      Shows s' q task.dequeue ∧ s'.returned = if sizeofNotificationData ≤ count ∧ copied = true
        then s.notifs p :: s.returned else s.returned := by
  have full : s.notifList.listEmpty = false := by
    simpa using shows.inv.holds.listEmpty.not.mpr (List.cons_ne_nil p q)
  obtain ⟨s₁, taken, notifs, returned, after⟩ :=
    (shows.goto i (.getNotification count copied) rfl).getNotification i count copied
  have first : s.step (.go i) = some (s.goto i (.getNotification count copied)) := by
    simp [TaskQueue.step, readerStep, hpc, full]
  have second : (s.goto i (.getNotification count copied)).step (.go i) =
      some (s₁.goto i (.answer count copied (.entry p))) := by
    simp [TaskQueue.step, readerStep, taken]
  have before : Trace (fun s move s' => s.Finds move ∧ s.step move = some s') s [.go i, .go i]
      (s₁.goto i (.answer count copied (.entry p))) :=
    .cons ⟨by simp [Finds, hpc], first⟩ (.single ⟨fun _ _ _ => full, second⟩)
  have final : (s₁.goto i (.answer count copied (.entry p))).Finds (.go i) := by simp [Finds]
  by_cases fits : sizeofNotificationData ≤ count ∧ copied = true
  · refine ⟨_, before.append (.single ⟨final, ?_⟩), after.answer (by rw [readers_goto]; rfl), ?_⟩
    · simp [TaskQueue.step, readerStep, fits.1.not_gt, fits.2]
    · rw [if_pos fits]
      show s₁.notifs p :: s₁.returned = s.notifs p :: s.returned
      rw [notifs, returned]
      rfl
  · refine ⟨_, before.append (.single ⟨final, ?_⟩), after.goto i .idle rfl, ?_⟩
    · rcases not_and_or.mp fits with short | failed
      · simp [TaskQueue.step, readerStep, not_le.mp short]
      · simp [TaskQueue.step, readerStep, failed]
    · rw [if_neg fits]
      exact returned

/-- A read that nothing comes between meets the condition and does what `ipcRead` does. -/
theorem ipcRead_alone {K : Kernel} {D D' : Drv} {filp t : Ptr} {r : Reply} (file : D.files.get? filp = some t)
    (ht : D.gRegTaskList.get? t = some task) (h : ipcRead K D filp count = .ok (r, D')) (shows : Shows s q task)
    (idle : s.readers i = .idle) : ∃ moves s' q' task' new,
      Trace (fun s move s' => s.Finds move ∧ s.step move = some s') s (.read i count K.copyToUser :: moves) s' ∧
      D'.gRegTaskList.get? t = some task' ∧ Shows s' q' task' ∧ s'.returned = new ++ s.returned ∧
      new.map (Option.map QueuedNotif.data) = r.out.delivered.map some := by
  have starts := read_starts count K.copyToUser idle
  rw [shows.isMonitor] at starts
  simp only [ipcRead, file, deref_of_get? ht, ok_bind] at h
  split at h
  next monitor =>
    rw [if_pos monitor] at starts
    have answered : D' = D ∧ r.out.delivered = [] := by
      split at h
      next => cases h; exact ⟨rfl, rfl⟩
      next =>
        split at h
        next => cases h
        next =>
          obtain ⟨data, _, h⟩ := bind_eq_ok.mp h
          split at h <;> cases h <;> exact ⟨rfl, rfl⟩
    obtain ⟨rfl, nothing⟩ := answered
    exact ⟨_, _, q, task, [], starts, ht, shows.goto i .idle rfl, rfl, by rw [nothing]; rfl⟩
  next work =>
    rw [if_neg work] at starts
    have tested := shows.goto i (.isNotifPending count K.copyToUser) rfl
    split at h
    next empty =>
      cases h
      have none : q = [] := by simpa [empty] using shows.notifs
      subst none
      exact ⟨_, _, [], task, [], starts.append (read_empty tested readers_goto), ht, tested.goto i .idle rfl, rfl, rfl⟩
    next d rest full =>
      have notifs := shows.notifs
      rw [full] at notifs
      obtain ⟨p, q, rfl, hd, _⟩ := List.map_eq_cons_iff.mp notifs
      obtain ⟨s', run, shows', returned⟩ := read_first tested readers_goto
      have after : (D.gRegTaskList.modify t RegTask.dequeue).get? t = some task.dequeue := by
        rw [Table.get?_modify, if_pos rfl, ht]
        rfl
      split at h
      next short =>
        rw [if_neg fun fits => short.not_ge fits.1] at returned
        cases h
        exact ⟨_, s', q, _, [], starts.append run, after, shows', returned, rfl⟩
      next room =>
        split at h
        next failed =>
          rw [if_neg fun fits => by simp [fits.2] at failed] at returned
          cases h
          exact ⟨_, s', q, _, [], starts.append run, after, shows', returned, rfl⟩
        next copied =>
          rw [if_pos ⟨not_lt.mp room, by simpa using copied⟩] at returned
          cases h
          exact ⟨_, s', q, _, [s.notifs p], starts.append run, after, shows', returned, congrArg ([·]) hd⟩

end TaskQueue

end Ripc
