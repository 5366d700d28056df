import Mathlib.Data.List.Induction
import Mathlib.Data.Option.Basic
import Ripc.Result

namespace Ripc

variable {σ τ ε δ : Type*}

/-- Finite runs of a labelled transition relation, with the labels in order. -/
inductive Trace (step : σ → ε → σ → Prop) : σ → List ε → σ → Prop
  | nil {s} : Trace step s [] s
  | cons {s s' s'' e es} : step s e s' → Trace step s' es s'' → Trace step s (e :: es) s''

namespace Trace

variable {step : σ → ε → σ → Prop} {s s' s'' : σ} {e : ε} {es es' : List ε}

theorem single (h : step s e s') : Trace step s [e] s' := .cons h .nil

theorem append (h : Trace step s es s') (h' : Trace step s' es' s'') :
    Trace step s (es ++ es') s'' := by
  induction h with
  | nil => exact h'
  | cons head _ ih => exact .cons head (ih h')

/-- What every step keeps, every run keeps; the step rule may use that the label is in the run. -/
theorem keeps {I : σ → Prop} (h : Trace step s es s')
    (pres : ∀ a e b, e ∈ es → I a → step a e b → I b) (hs : I s) : I s' := by
  induction h with
  | nil => exact hs
  | @cons s s' s'' e es head _ ih =>
    exact ih (fun a f b hf => pres a f b (List.mem_cons_of_mem e hf))
      (pres s e s' (by simp) hs head)

theorem invariant {I : σ → Prop} (h : Trace step s es s')
    (pres : ∀ a e b, I a → step a e b → I b) (hs : I s) : I s' :=
  h.keeps (fun a e b _ => pres a e b) hs

theorem mono {step' : σ → ε → σ → Prop} (h : Trace step s es s')
    (sub : ∀ a e b, e ∈ es → step a e b → step' a e b) : Trace step' s es s' := by
  induction h with
  | nil => exact .nil
  | @cons s s' s'' e es head _ ih =>
    exact .cons (sub s e s' (by simp) head) (ih fun a f b hf => sub a f b (List.mem_cons_of_mem e hf))

/-- A run is simulated step by step, through a view of its states. -/
theorem simulates {υ : Type*} {step' : υ → ε → υ → Prop} {I : σ → Prop} {view : σ → υ} (h : Trace step s es s')
    (sim : ∀ a e b, I a → step a e b → I b ∧ step' (view a) e (view b)) (hs : I s) :
    I s' ∧ Trace step' (view s) es (view s') := by
  induction h with
  | nil => exact ⟨hs, .nil⟩
  | cons head _ ih =>
    obtain ⟨hb, first⟩ := sim _ _ _ hs head
    obtain ⟨last, rest⟩ := ih hb
    exact ⟨last, .cons first rest⟩

theorem within {step' : σ → ε → σ → Prop} {I : σ → Prop} (h : Trace step s es s')
    (sim : ∀ a e b, I a → step a e b → I b ∧ step' a e b) (hs : I s) : Trace step' s es s' := by
  have both : I s' ∧ Trace step' (id s) es (id s') := h.simulates sim hs
  exact both.2

theorem answered {ρ : Type*} {step' : σ → ε × ρ → σ → Prop} (h : Trace step s es s')
    (answers : ∀ a e b, step a e b → ∃ r, step' a (e, r) b) : ∃ fs, fs.map Prod.fst = es ∧ Trace step' s fs s' := by
  induction h with
  | nil => exact ⟨[], rfl, .nil⟩
  | cons head _ ih =>
    obtain ⟨r, first⟩ := answers _ _ _ head
    obtain ⟨fs, rfl, rest⟩ := ih
    exact ⟨(_, r) :: fs, rfl, .cons first rest⟩

/-- What the steps inside of `G` keep is kept by a run of them, as long as every step keeps `I`. -/
theorem stays {I P : σ → Prop} {G : σ → ε → Prop} (h : Trace (fun a e b => G a e ∧ step a e b) s es s')
    (pres : ∀ a e b, I a → step a e b → I b) (keeps : ∀ a e b, I a → step a e b → G a e → P a → P b)
    (hI : I s) (hP : P s) : P s' := by
  have both : I s' ∧ P s' := by
    refine h.invariant (I := fun a => I a ∧ P a) (fun a e b h hs => ?_) ⟨hI, hP⟩
    exact ⟨pres a e b h.1 hs.2, keeps a e b h.1 hs.2 hs.1 h.2⟩
  exact both.2

/-- A property that exactly the steps outside of `G` take away, and that none gives back, holds at the end of exactly
the runs inside of `G`. -/
theorem exact_of {I P : σ → Prop} {G : σ → ε → Prop} (h : Trace step s es s')
    (pres : ∀ a e b, I a → step a e b → I b) (exact : ∀ a e b, I a → step a e b → (P b ↔ P a ∧ G a e))
    (hI : I s) (hP : P s) : P s' ↔ Trace (fun a e b => G a e ∧ step a e b) s es s' := by
  constructor
  · intro hP'
    have back : P s ∧ Trace (fun a e b => G a e ∧ step a e b) s es s' := by
      clear hP
      induction h with
      | nil => exact ⟨hP', .nil⟩
      | @cons s s' s'' e es head _ ih =>
        obtain ⟨mid, rest⟩ := ih (pres s e s' hI head) hP'
        obtain ⟨first, inside⟩ := (exact s e s' hI head).mp mid
        exact ⟨first, .cons ⟨inside, head⟩ rest⟩
    exact back.2
  · intro inside
    exact inside.stays pres (fun a e b hI hs hG hP => (exact a e b hI hs).mpr ⟨hP, hG⟩) hI hP

/-- Some step in `S` of a run comes after every step in `C`. -/
def Since (step : σ → ε → σ → Prop) (S C : σ → ε → Prop) (s : σ) (es : List ε) (s' : σ) : Prop :=
  ∃ pre e post a b, es = pre ++ e :: post ∧ Trace step s pre a ∧ step a e b ∧ S a e ∧
    Trace (fun a e b => ¬C a e ∧ step a e b) b post s'

theorem Since.cons {S C : σ → ε → Prop} (h : step s e s') (later : Since step S C s' es s'') :
    Since step S C s (e :: es) s'' := by
  obtain ⟨pre, f, post, a, b, rfl, before, head, raised, after⟩ := later
  exact ⟨e :: pre, f, post, a, b, rfl, .cons h before, head, raised, after⟩

/-- A flag that the steps in `S` raise and those in `C` take down is up after a run if it was raised last, or was up
before and nothing has taken it down. -/
theorem since_of {I P : σ → Prop} {S C : σ → ε → Prop} (h : Trace step s es s')
    (pres : ∀ a e b, I a → step a e b → I b) (exact : ∀ a e b, I a → step a e b → (P b ↔ S a e ∨ P a ∧ ¬C a e))
    (hI : I s) : P s' ↔ Since step S C s es s' ∨ P s ∧ Trace (fun a e b => ¬C a e ∧ step a e b) s es s' := by
  have keeps : ∀ a e b, I a → step a e b → ¬C a e → P a → P b := fun a e b hI hs hC hP =>
    (exact a e b hI hs).mpr (.inr ⟨hP, hC⟩)
  constructor
  · intro hP'
    induction h with
    | nil => exact .inr ⟨hP', .nil⟩
    | @cons s s' s'' e es head tail ih =>
      rcases ih (pres s e s' hI head) hP' with later | ⟨hP, rest⟩
      · exact .inl (later.cons head)
      · rcases (exact s e s' hI head).mp hP with raised | ⟨hP, keeps⟩
        · exact .inl ⟨[], e, es, s, s', rfl, .nil, head, raised, rest⟩
        · exact .inr ⟨hP, .cons ⟨keeps, head⟩ rest⟩
  · rintro (⟨pre, e, post, a, b, rfl, before, first, raised, after⟩ | ⟨hP, all⟩)
    · have hIa : I a := before.invariant pres hI
      exact after.stays pres keeps (pres a e b hIa first) ((exact a e b hIa first).mpr (.inl raised))
    · exact all.stays pres keeps hI hP

end Trace

/-- The state after a list of labels, each taken in a state that passes the check. -/
def runIf (step : σ → ε → Option σ) (check : σ → ε → Bool) (s : σ) : List ε → Option σ
  | [] => some s
  | e :: es => if check s e then (step s e).bind fun s => runIf step check s es else none

theorem runIf_trace {step : σ → ε → Option σ} {check : σ → ε → Bool} {s s' : σ} {es : List ε}
    (h : runIf step check s es = some s') :
    Trace (fun s e s' => check s e = true ∧ step s e = some s') s es s' := by
  induction es generalizing s with
  | nil => cases h; exact .nil
  | cons e es ih =>
    simp only [runIf] at h
    split at h
    next ok =>
      obtain ⟨next, hstep, h⟩ := Option.bind_eq_some_iff.mp h
      exact .cons ⟨ok, hstep⟩ (ih h)
    next => cases h

section

variable {σ τ ε : Type} {step : σ → τ → Except ε σ} {P : σ → Prop} {s s' : σ} {es : List τ}

theorem foldlM_snoc {e : τ} :
    (es ++ [e]).foldlM step s = .ok s' ↔ ∃ a, es.foldlM step s = .ok a ∧ step a e = .ok s' := by
  rw [List.foldlM_append, bind_eq_ok]
  simp only [List.foldlM_cons, List.foldlM_nil, bind_pure]

theorem foldlM_keeps (keeps : ∀ s e s', P s → step s e = .ok s' → P s') (h : es.foldlM step s = .ok s') (hs : P s) :
    P s' := by
  induction es using List.reverseRecOn generalizing s' with
  | nil =>
    cases h
    exact hs
  | append_singleton es e ih =>
    obtain ⟨a, before, last⟩ := foldlM_snoc.mp h
    exact keeps a e s' (ih before) last

/-- Where exactly the steps in `G` succeed and keep a property, a run keeps it all along if its steps are all in `G`. -/
theorem foldlM_keeps_iff {G : σ → τ → Prop} (exact : ∀ s e, P s → (G s e ↔ ∃ s', step s e = .ok s' ∧ P s')) (hs : P s) :
    (∀ done, done <+: es → ∃ a, done.foldlM step s = .ok a ∧ P a) ↔
      ∀ done e, done ++ [e] <+: es → ∀ a, done.foldlM step s = .ok a → G a e := by
  constructor
  · intro kept done e inside a ha
    obtain ⟨a', ha', hP⟩ := kept done ((List.prefix_append done [e]).trans inside)
    cases ha.symm.trans ha'
    obtain ⟨b, hb, hPb⟩ := kept (done ++ [e]) inside
    obtain ⟨a', before, last⟩ := foldlM_snoc.mp hb
    cases ha.symm.trans before
    exact (exact a e hP).mpr ⟨b, last, hPb⟩
  · intro inside done
    induction done using List.reverseRecOn with
    | nil => exact fun _ => ⟨s, rfl, hs⟩
    | append_singleton done e ih =>
      intro here
      obtain ⟨a, ha, hP⟩ := ih ((List.prefix_append done [e]).trans here)
      obtain ⟨b, last, hPb⟩ := (exact a e hP).mp (inside done e here a ha)
      exact ⟨b, foldlM_snoc.mpr ⟨a, ha, last⟩, hPb⟩

end

/-- Some run leads from one state to another by labels of one kind only. -/
def Reaches (step : σ → ε → σ → Prop) (P : ε → Prop) (s s' : σ) : Prop :=
  ∃ es, Trace step s es s' ∧ ∀ e ∈ es, P e

namespace Reaches

variable {step : σ → ε → σ → Prop} {P Q : ε → Prop} {s s' s'' : σ} {e : ε}

theorem refl : Reaches step P s s := ⟨[], .nil, fun _ he => nomatch he⟩

theorem single (h : step s e s') (hp : P e) : Reaches step P s s' :=
  ⟨[e], .single h, fun _ hf => List.mem_singleton.mp hf ▸ hp⟩

theorem trans (h : Reaches step P s s') (h' : Reaches step P s' s'') : Reaches step P s s'' := by
  obtain ⟨es, ht, hp⟩ := h
  obtain ⟨es', ht', hp'⟩ := h'
  exact ⟨es ++ es', ht.append ht', fun e he => (List.mem_append.mp he).elim (hp e) (hp' e)⟩

theorem mono (h : Reaches step P s s') (sub : ∀ e, P e → Q e) : Reaches step Q s s' := by
  obtain ⟨es, ht, hp⟩ := h
  exact ⟨es, ht, fun e he => sub e (hp e he)⟩

theorem keeps {I : σ → Prop} (h : Reaches step P s s')
    (pres : ∀ a e b, P e → I a → step a e b → I b) (hs : I s) : I s' := by
  obtain ⟨es, ht, hp⟩ := h
  exact ht.keeps (fun a e b he => pres a e b (hp e he)) hs

end Reaches

end Ripc
