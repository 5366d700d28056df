import Ripc.PageSlots

namespace Ripc

open Authored

namespace Pages

variable {D : Nat → Prop} {p p' q q' : Pages} {e e' : PageEvent} {es es' : List PageEvent}

/-- Two runs that only differ in what `D` has written. -/
structure Alike (D : Nat → Prop) (p q : Pages) : Prop where
  drv : q.drv = p.drv
  made : q.made = p.made
  mem : AgreeOff D p.mem q.mem

theorem Alike.step (h : Alike D p q) (events : e.DiffersBy D e') (hp : p.step e = some p') (hq : q.step e' = some q') :
    Alike D p' q' := by
  cases e with
  | call call =>
    rcases events with rfl | ⟨k, o, b, b', he, _⟩
    · obtain ⟨r, hr, rfl⟩ := Option.map_eq_some_iff.mp hp
      obtain ⟨r', hr', rfl⟩ := Option.map_eq_some_iff.mp hq
      rw [h.drv] at hr'
      cases hr.symm.trans hr'
      refine ⟨rfl, ?_, ?_⟩
      · simp only [after, h.made, h.drv]
      · simp only [after, h.drv]
        exact h.mem.wipe _ 0
    · cases he
  | write k o b =>
    obtain ⟨l, hl, rfl⟩ := Option.map_eq_some_iff.mp hp
    have written : ∃ b', e' = .write k o b' ∧ (b' = b ∨ D k) := by
      rcases events with rfl | ⟨k, o, b, b', he, rfl, hk⟩
      · exact ⟨b, rfl, Or.inl rfl⟩
      · cases he
        exact ⟨b', rfl, Or.inr hk⟩
    obtain ⟨b', rfl, hb⟩ := written
    obtain ⟨l', hl', rfl⟩ := Option.map_eq_some_iff.mp hq
    rw [h.made] at hl'
    cases hl.symm.trans hl'
    exact ⟨h.drv, h.made, h.mem.write _ (hb.imp_right fun hk => ⟨k, rfl, hk⟩)⟩
  | other frame o b =>
    rcases events with rfl | ⟨k, o, b, b', he, _⟩
    · cases hp
      cases hq
      exact ⟨h.drv, h.made, h.mem.write _ (Or.inl rfl)⟩
    · cases he

theorem Alike.run (h : Alike D p q) (events : DifferBy D es es')
    (hp : Trace (fun p e p' => p.step e = some p') p es p') (hq : Trace (fun p e p' => p.step e = some p') q es' q') :
    Alike D p' q' := by
  induction events generalizing p q with
  | nil =>
    cases hp
    cases hq
    exact h
  | cons first _ ih =>
    cases hp with
    | cons hp restp =>
      cases hq with
      | cons hq restq => exact ih (h.step first hp hq) restp restq

def otherByte (b : UInt8) : UInt8 := if b = 0 then 1 else 0

theorem otherByte_ne (b : UInt8) : otherByte b ≠ b := by
  unfold otherByte
  split
  next h =>
    rw [h]
    decide
  next h => exact Ne.symm h

/-- Everything that `D` has written differs in the other run. -/
structure Altered (D : Nat → Prop) (p q : Pages) : Prop where
  drv : q.drv = p.drv
  made : q.made = p.made
  mem : ChangedBy D otherByte p.mem q.mem

theorem Altered.step (h : Altered D p q) (hp : p.step e = some p') :
    ∃ e' q', e.DiffersBy D e' ∧ q.step e' = some q' ∧ Altered D p' q' := by
  cases e with
  | call call =>
    obtain ⟨r, hr, rfl⟩ := Option.map_eq_some_iff.mp hp
    refine ⟨.call call, q.after r.2, Or.inl rfl, by simp [Pages.step, h.drv, hr], rfl, ?_, ?_⟩
    · simp only [after, h.made, h.drv]
    · simp only [after, h.drv]
      exact h.mem.wipe _ 0
  | write k o b =>
    obtain ⟨l, hl, rfl⟩ := Option.map_eq_some_iff.mp hp
    have mine : (∃ j, some k = some j ∧ D j) ↔ D k := by simp
    by_cases hk : D k
    · refine ⟨.write k o (otherByte b), { q with mem := q.mem.write (l.frame, o) (otherByte b) (some k) },
        Or.inr ⟨k, o, b, otherByte b, rfl, rfl, hk⟩, by simp [Pages.step, h.made, hl], h.drv, h.made, ?_⟩
      exact h.mem.write _ (Or.inl (mine.mpr hk)) fun _ => rfl
    · refine ⟨.write k o b, { q with mem := q.mem.write (l.frame, o) b (some k) }, Or.inl rfl,
        by simp [Pages.step, h.made, hl], h.drv, h.made, ?_⟩
      exact h.mem.write _ (Or.inr rfl) fun written => absurd (mine.mp written) hk
  | other frame o b =>
    cases hp
    refine ⟨.other frame o b, _, Or.inl rfl, rfl, h.drv, h.made, ?_⟩
    exact h.mem.write _ (Or.inr rfl) fun written => by simp at written

theorem Altered.run (h : Altered D p q) (hp : Trace (fun p e p' => p.step e = some p') p es p') :
    ∃ es' q', DifferBy D es es' ∧ Trace (fun p e p' => p.step e = some p') q es' q' ∧ Altered D p' q' := by
  induction hp generalizing q with
  | nil => exact ⟨[], q, .nil, .nil, h⟩
  | cons head _ ih =>
    obtain ⟨e', q₁, first, hq, h₁⟩ := h.step head
    obtain ⟨es', q', rest, run, h'⟩ := ih h₁
    exact ⟨e' :: es', q', .cons first rest, .cons hq run, h'⟩

/-- Only connections that have been made have written. -/
def Known (p : Pages) : Prop := ∀ c k, p.mem.author c = some k → k < p.made.length

theorem Known.step (known : p.Known) (hp : p.step e = some p') : p'.Known := by
  cases e with
  | call call =>
    obtain ⟨r, _, rfl⟩ := Option.map_eq_some_iff.mp hp
    intro c k hk
    simp only [after, Authored.wipe] at hk
    split at hk
    next => cases hk
    next =>
      have before := known c k hk
      simp only [after, List.length_append, List.length_map]
      omega
  | write k o b =>
    obtain ⟨l, hl, rfl⟩ := Option.map_eq_some_iff.mp hp
    intro c j hj
    simp only [Authored.write] at hj
    by_cases he : c = (l.frame, o)
    · rw [he, Function.update_self] at hj
      cases hj
      exact (List.getElem?_eq_some_iff.mp hl).1
    · rw [Function.update_of_ne he] at hj
      exact known c j hj
  | other frame o b =>
    cases hp
    intro c j hj
    simp only [Authored.write] at hj
    by_cases he : c = (frame, o)
    · rw [he, Function.update_self] at hj
      cases hj
    · rw [Function.update_of_ne he] at hj
      exact known c j hj

variable {bytes : Nat × Fin shmRegionPageSize → UInt8} {call : Call} {c : Nat × Fin shmRegionPageSize} {l : Link}
  {frame : Nat}

/-- A connection of `D` writes the byte. -/
def Leaves (D : Nat → Prop) (c : Nat × Fin shmRegionPageSize) (p : Pages) (e : PageEvent) : Prop :=
  ∃ k byte l, e = .write k c.2 byte ∧ D k ∧ p.made[k]? = some l ∧ l.frame = c.1

/-- Another connection or the rest of the machine writes the byte, or its page is zeroed for a new pool. -/
inductive Covers (D : Nat → Prop) (c : Nat × Fin shmRegionPageSize) (p : Pages) : PageEvent → Prop
  | write {k byte l} (others : ¬D k) (hl : p.made[k]? = some l) (frame : l.frame = c.1) :
      Covers D c p (.write k c.2 byte)
  | other {byte} : Covers D c p (.other c.1 c.2 byte)
  | zeroed {call r s'} (hs : Ripc.step p.drv call = .ok (r, s')) (new : p.drv.newFrame s' c.1 = true) :
    Covers D c p (.call call)

/-- Whatever has been written to the byte through connections of `D` is gone. -/
def Overwritten (D : Nat → Prop) (c : Nat × Fin shmRegionPageSize) (bytes : Nat × Fin shmRegionPageSize → UInt8)
    (es : List PageEvent) (p : Pages) : Prop :=
  ¬Trace.Since (fun p e p' => p.step e = some p') (Leaves D c) (Covers D c) (start bytes) es p

theorem writtenBy_step (hp : p.step e = some p') :
    p'.mem.WrittenBy D c ↔ Leaves D c p e ∨ p.mem.WrittenBy D c ∧ ¬Covers D c p e := by
  cases e with
  | call call =>
    obtain ⟨⟨r, s'⟩, hr, rfl⟩ := Option.map_eq_some_iff.mp hp
    have hr := toOption_eq_some.mp hr
    have leaves : ¬Leaves D c p (.call call) := by
      rintro ⟨k, byte, l, he, _⟩
      cases he
    have covers : Covers D c p (.call call) ↔ p.drv.newFrame s' c.1 = true := by
      constructor
      · intro zeroed
        cases zeroed with
        | zeroed hs new =>
          cases hr.symm.trans hs
          exact new
      · exact .zeroed hr
    rw [after, writtenBy_wipe, or_iff_right leaves, covers, Bool.not_eq_true, and_comm]
  | write k o b =>
    obtain ⟨l, hl, rfl⟩ := Option.map_eq_some_iff.mp hp
    rw [writtenBy_write]
    split
    next here =>
      obtain rfl := here
      have leaves : Leaves D (l.frame, o) p (.write k o b) ↔ D k := by
        constructor
        · rintro ⟨k', _, _, he, hk, _⟩
          cases he
          exact hk
        · exact fun hk => ⟨k, b, l, rfl, hk, hl, rfl⟩
      have covers : ¬D k → Covers D (l.frame, o) p (.write k o b) := fun hk => .write hk hl rfl
      rw [leaves]
      constructor
      · rintro ⟨_, hk, mine⟩
        cases hk
        exact .inl mine
      · rintro (mine | ⟨_, uncovered⟩)
        · exact ⟨k, rfl, mine⟩
        · exact ⟨k, rfl, by_contra fun hk => uncovered (covers hk)⟩
    next elsewhere =>
      have leaves : ¬Leaves D c p (.write k o b) := by
        rintro ⟨_, _, l', he, _, hl', frame⟩
        cases he
        cases hl.symm.trans hl'
        exact elsewhere (by rw [frame])
      have covers : ¬Covers D c p (.write k o b) := by
        intro covers
        cases covers with
        | write _ hl' frame =>
          cases hl.symm.trans hl'
          exact elsewhere (by rw [frame])
      simp [leaves, covers]
  | other f o b =>
    cases hp
    rw [writtenBy_write]
    have leaves : ¬Leaves D c p (.other f o b) := by
      rintro ⟨_, _, _, he, _⟩
      cases he
    split
    next here =>
      obtain rfl := here
      simp [leaves, Covers.other (D := D) (c := (f, o)) (p := p)]
    next elsewhere =>
      have covers : ¬Covers D c p (.other f o b) := by
        intro covers
        cases covers
        exact elsewhere rfl
      simp [leaves, covers]

theorem overwritten_iff (run : Trace (fun p e p' => p.step e = some p') (start bytes) es p) :
    Overwritten D c bytes es p ↔ ¬p.mem.WrittenBy D c := by
  have since := run.since_of (I := fun _ => True) (P := fun p => p.mem.WrittenBy D c) (fun _ _ _ _ _ => trivial)
    (fun _ _ _ _ hs => writtenBy_step hs) trivial
  have unwritten : ¬(start bytes).mem.WrittenBy D c := by simp [WrittenBy, start]
  rw [since, or_iff_left fun h => unwritten h.1]
  rfl

theorem Known.of_run (run : Trace (fun p e p' => p.step e = some p') (start bytes) es p) : p.Known :=
  run.invariant (fun _ _ _ => Known.step) fun c k hk => by cases hk

theorem wf_of_run (run : Trace (fun p e p' => p.step e = some p') (start bytes) es p) : Wf p.drv := by
  refine run.invariant (I := fun p => Wf p.drv) (fun a e b wf hs => ?_) Wf.init
  cases e with
  | call call =>
    obtain ⟨r, hr, rfl⟩ := Option.map_eq_some_iff.mp hs
    exact wf.step ⟨r.1, toOption_eq_some.mp hr⟩
  | write k o b =>
    obtain ⟨l, _, rfl⟩ := Option.map_eq_some_iff.mp hs
    exact wf
  | other f o b =>
    cases hs
    exact wf

/-- What `D` has written makes no difference on a page exactly if none of it is the last that was written there. -/
theorem agree_iff {n : Nat} (run : Trace (fun p e p' => p.step e = some p') (start bytes) es p)
    (hs : p.step (.call call) = some p') (hl : p'.made[n]? = some l) :
    (∀ es' q q', DifferBy D es es' → Trace (fun p e p' => p.step e = some p') (start bytes) es' q →
        q.step (.call call) = some q' → q'.made[n]? = some l ∧
          ∀ o, q'.mem.value (l.frame, o) = p'.mem.value (l.frame, o)) ↔
      ∀ o, ¬p'.mem.WrittenBy D (l.frame, o) := by
  constructor
  · intro same o written
    have first : Altered D (start bytes) (start bytes) :=
      ⟨rfl, rfl, .unwritten fun c written => by simp [WrittenBy, start] at written⟩
    obtain ⟨es', q, events, hq, altered⟩ := first.run run
    obtain ⟨e', q', last, hs', altered'⟩ := altered.step hs
    have again : e' = .call call := by
      rcases last with rfl | ⟨k, o, b, b', he, _⟩
      · rfl
      · cases he
    subst again
    have value := (same es' q q' events hq hs').2 o
    rw [altered'.mem.changed _ written] at value
    exact otherByte_ne _ value
  · intro clean es' q q' events hq hs'
    have alike := Alike.run ⟨rfl, rfl, .refl⟩ events run hq
    have alike' := alike.step (Or.inl rfl) hs hs'
    exact ⟨by rw [alike'.made]; exact hl, fun o => alike'.mem.value _ (clean o)⟩

theorem mem_newLinks_of_made {n : Nat} {s' : Drv} (new : p.made.length ≤ n) (hl : (p.after s').made[n]? = some l) :
    l ∈ p.drv.newLinks s' := by
  rw [after, List.getElem?_append_right (by rw [List.length_map]; exact new)] at hl
  exact List.mem_of_getElem? hl

/-- Whatever has been written through connections that are gone makes no difference on the page of a new connection
exactly if a pool is made for it, or all of that has been overwritten or zeroed since on the page of the free slot that
it gets; and through a new connection nothing has been written. -/
theorem newPage_residue {n : Nat} (run : Trace (fun p e p' => p.step e = some p') (start bytes) es p)
    (hs : p.step (.call call) = some p') (new : p.made.length ≤ n) (hl : p'.made[n]? = some l) :
    ((∀ es' q q', DifferBy p.Torn es es' → Trace (fun p e p' => p.step e = some p') (start bytes) es' q →
        q.step (.call call) = some q' → q'.made[n]? = some l ∧
          ∀ o, q'.mem.value (l.frame, o) = p'.mem.value (l.frame, o)) ↔
      ∀ m sub, findFreeSubmem p.drv = some m → p.drv.subMem? m = some sub →
        ∀ o, Overwritten p.Torn (sub.pages, o) bytes es p) ∧
    ∀ o, p'.mem.author (l.frame, o) ≠ some n := by
  refine ⟨(agree_iff run hs hl).trans ?_, fun o author => ?_⟩
  · obtain ⟨⟨r, s'⟩, hr, rfl⟩ := Option.map_eq_some_iff.mp hs
    have gets := getsFrame (wf_of_run run) (toOption_eq_some.mp hr) (mem_newLinks_of_made new hl)
    cases gets with
    | @slot m sub free hsub pages old =>
      have kept : ∀ o, (p.after s').mem.WrittenBy p.Torn (l.frame, o) ↔ p.mem.WrittenBy p.Torn (l.frame, o) :=
        fun o => by rw [after, writtenBy_wipe, and_iff_right (old _)]
      simp only [kept, overwritten_iff run]
      rw [← pages]
      constructor
      · intro clean m' sub' free' hsub'
        cases free.symm.trans free'
        cases hsub.symm.trans hsub'
        exact clean
      · exact fun clean => clean m sub free hsub
    | pool full zeroed =>
      refine iff_of_true (fun o written => ?_) fun m sub free => absurd (full.symm.trans free) (by simp)
      rw [after, writtenBy_wipe, zeroed] at written
      exact absurd written.1 (by simp)
  · have known : p.Known := .of_run run
    obtain ⟨r, _, rfl⟩ := Option.map_eq_some_iff.mp hs
    simp only [after, Authored.wipe] at author
    split at author
    next => cases author
    next =>
      have before := known _ n author
      omega

def secondConnect : Call := callOf 3 (.ioctl 3 (.connectToServer ⟨7, shortName 65⟩))

/-- The first client connects, maps the page and disconnects; a client of process 3 is registered. -/
def unwrittenRun : List Call :=
  connectedRun ++ [callOf 2 (.mmap 2 (packIds 1 0)), callOf 2 (.ioctl 2 (.clientDisconnect (packIds 1 0))),
    callOf 3 .open, callOf 3 (.ioctl 3 .registerClient)]

/-- The second connection gets the slot of the first one, through which nobody has written. -/
theorem newPage_residue_unwritten : ∃ p p' l,
    runIf step (fun _ _ => true) (start fun _ => 0) (unwrittenRun.map .call) = some p ∧ p.Torn 0 ∧
      p.step (.call secondConnect) = some p' ∧ p.made[0]? = some ⟨1, l.frame, true⟩ ∧ p'.made[1]? = some l ∧
      ∀ es' q q', DifferBy p.Torn (unwrittenRun.map .call) es' →
        Trace (fun p e p' => p.step e = some p') (start fun _ => 0) es' q → q.step (.call secondConnect) = some q' →
          q'.made[1]? = some l ∧ ∀ o, q'.mem.value (l.frame, o) = p'.mem.value (l.frame, o) := by
  have facts : ((runIf step (fun _ _ => true) (start fun _ => 0) (unwrittenRun.map .call)).bind fun p =>
      (p.step (.call secondConnect)).map fun p' => (p.made, p'.made)) =
      some ([⟨1, 0, true⟩], [⟨1, 0, true⟩, ⟨1, 0, false⟩]) := by decide
  obtain ⟨p, hp, facts⟩ := Option.bind_eq_some_iff.mp facts
  obtain ⟨p', hp', facts⟩ := Option.map_eq_some_iff.mp facts
  obtain ⟨before, after⟩ := Prod.mk.inj facts
  have run : Trace (fun p e p' => p.step e = some p') (start fun _ => 0) (unwrittenRun.map .call) p :=
    (runIf_trace hp).mono fun _ _ _ _ h => h.2
  have hl : p'.made[1]? = some ⟨1, 0, false⟩ := by rw [after]; rfl
  obtain ⟨same, _⟩ := newPage_residue run hp' (by rw [before]; exact Nat.le_refl 1) hl
  refine ⟨p, p', ⟨1, 0, false⟩, hp, ⟨⟨1, 0, true⟩, by rw [before]; rfl, rfl⟩, hp', by rw [before]; rfl, hl,
    same.mpr fun m sub _ _ o => ?_⟩
  -- nothing in the run is a write
  rintro ⟨pre, e, post, a, b, split, _, _, ⟨k, byte, l, he, _⟩, _⟩
  have mem : e ∈ unwrittenRun.map PageEvent.call := by simp [split]
  obtain ⟨call, _, rfl⟩ := List.mem_map.mp mem
  cases he

/-- The first client writes a byte and disconnects. -/
def residueRun (byte : UInt8) : List PageEvent :=
  connectedRun.map .call ++ [.call (callOf 2 (.mmap 2 (packIds 1 0))), .write 0 ⟨0, by decide⟩ byte] ++
    [callOf 2 (.ioctl 2 (.clientDisconnect (packIds 1 0))), callOf 3 .open,
      callOf 3 (.ioctl 3 .registerClient)].map .call

/-- The byte is on the page of the next connection, which another process has made. -/
theorem newPage_residue_reused : ∃ p p' q q',
    runIf step (fun _ _ => true) (start fun _ => 0) (residueRun 1) = some p ∧ p.step (.call secondConnect) = some p' ∧
    runIf step (fun _ _ => true) (start fun _ => 0) (residueRun 2) = some q ∧ q.step (.call secondConnect) = some q' ∧
    DifferBy p.Torn (residueRun 1) (residueRun 2) ∧ p'.made[1]? = some ⟨1, 0, false⟩ ∧
    q'.made[1]? = some ⟨1, 0, false⟩ ∧ p'.mem.value (0, ⟨0, by decide⟩) = 1 ∧ q'.mem.value (0, ⟨0, by decide⟩) = 2 := by
  have one : ((runIf step (fun _ _ => true) (start fun _ => 0) (residueRun 1)).bind fun p =>
      (p.step (.call secondConnect)).map fun p' => (p.made, p'.made, p'.mem.value (0, ⟨0, by decide⟩))) =
      some ([⟨1, 0, true⟩], [⟨1, 0, true⟩, ⟨1, 0, false⟩], 1) := by decide
  have two : ((runIf step (fun _ _ => true) (start fun _ => 0) (residueRun 2)).bind fun p =>
      (p.step (.call secondConnect)).map fun p' => (p'.made, p'.mem.value (0, ⟨0, by decide⟩))) =
      some ([⟨1, 0, true⟩, ⟨1, 0, false⟩], 2) := by decide
  obtain ⟨p, hp, first⟩ := Option.bind_eq_some_iff.mp one
  obtain ⟨p', hp', first⟩ := Option.map_eq_some_iff.mp first
  simp only [Prod.mk.injEq] at first
  obtain ⟨before, made, value⟩ := first
  obtain ⟨q, hq, second⟩ := Option.bind_eq_some_iff.mp two
  obtain ⟨q', hq', second⟩ := Option.map_eq_some_iff.mp second
  obtain ⟨made', value'⟩ := Prod.mk.inj second
  refine ⟨p, p', q, q', hp, hp', hq, hq', ?_, by rw [made]; rfl, by rw [made']; rfl, value, value'⟩
  have torn : p.Torn 0 := ⟨⟨1, 0, true⟩, by rw [before]; rfl, rfl⟩
  have same : ∀ es : List PageEvent, DifferBy p.Torn es es := fun es =>
    List.forall₂_same.mpr fun _ _ => Or.inl rfl
  refine List.rel_append (List.rel_append (same _) (.cons (Or.inl rfl) (.cons ?_ .nil))) (same _)
  exact Or.inr ⟨0, ⟨0, by decide⟩, 1, 2, rfl, rfl, torn⟩

end Pages

end Ripc
