import Ripc.ReadBuffer
import Mathlib.Data.List.TakeWhile

namespace Ripc

open BufferView Memory

/-- The calls an application makes on a reader. -/
inductive ReadCall
  | getHeader
  | getPayload
  | finalizeHeader
  | finalizePayload
  deriving DecidableEq, Repr

inductive ReadAnswer
  | view (v : Option StringView)
  | flag (b : Bool)
  deriving DecidableEq, Repr

/-- The answer does not show bytes outside a page of this size. -/
def ReadAnswer.Within (size : Nat) : ReadAnswer → Prop
  | .view (some v) => v.start + v.size ≤ size
  | _ => True

instance (size : Nat) (a : ReadAnswer) : Decidable (a.Within size) := by
  unfold ReadAnswer.Within
  split <;> infer_instance

namespace ReadBufferView

def call (r : ReadBufferView) : ReadCall → Except MemoryFault (ReadAnswer × ReadBufferView)
  | .getHeader => r.getHeader >>= fun p => .ok (.view p.1, p.2)
  | .getPayload => r.getPayload >>= fun p => .ok (.view p.1, p.2)
  | .finalizeHeader => r.finalizeHeader >>= fun p => .ok (.flag p.1, p.2)
  | .finalizePayload => r.finalizePayload >>= fun p => .ok (.flag p.1, p.2)

def run : ReadBufferView → List ReadCall → Except MemoryFault (List ReadAnswer × ReadBufferView)
  | r, [] => .ok ([], r)
  | r, c :: calls => do
    let (a, next) ← r.call c
    let (answers, last) ← run next calls
    .ok (a :: answers, last)

def ahead (r : ReadBufferView) : List UInt8 := r.mem.bytes.drop r.currentSize

/-- The call has nothing to look for, or what it looks for is on the page. -/
def Scannable (r : ReadBufferView) : ReadCall → Prop
  | .getHeader => r.memoryFinalized = true ∨ r.headersFinalized = true ∨ ∃ b ∈ r.ahead, b ∈ headerEnds
  | .getPayload => r.memoryFinalized = true ∨
      (if r.headersFinalized then memoryFinalizer ∈ r.ahead
      else r.mem.maxSize ≤ r.currentSize ∨
        memoryFinalizer ∈ r.ahead.dropWhile (· ≠ memoryDelimeter))
  | .finalizeHeader => r.memoryFinalized = true ∨ r.headersFinalized = true ∨
      r.mem.maxSize ≤ r.currentSize ∨ memoryDelimeter ∈ r.ahead
  | .finalizePayload => r.memoryFinalized = true ∨ r.mem.maxSize ≤ r.currentSize ∨
      memoryFinalizer ∈ r.ahead

instance (r : ReadBufferView) (c : ReadCall) : Decidable (r.Scannable c) := by
  unfold Scannable
  split <;> infer_instance

variable {r r' : ReadBufferView} {seg tail : List UInt8} {d : UInt8}

/-- A call that ends normally on the same page. -/
def Fine (r : ReadBufferView) (c : ReadCall) : Prop :=
  ∃ a r', r.call c = .ok (a, r') ∧ r'.mem = r.mem ∧ a.Within r.mem.maxSize

/-- A call that leaves the page or uses a null pointer. -/
def Faults (r : ReadBufferView) (c : ReadCall) : Prop := ∃ e, r.call c = .error e

theorem within_of_ahead (hm : r.mem.isMapped = true) (h : r.ahead = seg ++ d :: tail) :
    r.currentSize + seg.length ≤ r.mem.maxSize := by
  have hl := lt_length_of_drop h
  rw [(bytes_of_mapped hm).2] at hl
  exact Nat.le_of_lt hl

theorem findAny_absent {ch : List UInt8} (hm : r.mem.isMapped = true) (h : ∀ b ∈ r.ahead, b ∉ ch) :
    (r.currentSize < r.mem.maxSize ∧
        r.mem.findAny r.currentSize ch = .error (.outside r.mem.maxSize)) ∨
      r.mem.maxSize ≤ r.currentSize ∧ r.mem.findAny r.currentSize ch = .ok none := by
  rcases Nat.lt_or_ge r.currentSize r.mem.maxSize with ho | ho
  · exact Or.inl ⟨ho, findAny_outside ch hm ho h⟩
  · exact Or.inr ⟨ho, findAny_null ho⟩

theorem find_absent {ch : UInt8} (hm : r.mem.isMapped = true) (h : ch ∉ r.ahead) :
    (r.currentSize < r.mem.maxSize ∧
        r.mem.find r.currentSize ch = .error (.outside r.mem.maxSize)) ∨
      r.mem.maxSize ≤ r.currentSize ∧ r.mem.find r.currentSize ch = .ok none :=
  findAny_absent hm fun _ hb hc => h (List.mem_singleton.mp hc ▸ hb)

theorem ahead_cut {ch : UInt8} (h : ch ∈ r.ahead) :
    ∃ seg tail, r.ahead = seg ++ ch :: tail ∧ ch ∉ seg := by
  obtain ⟨seg, d, tail, cut, hseg, rfl⟩ := exists_first (p := (· = ch)) ⟨ch, h, rfl⟩
  exact ⟨seg, tail, cut, fun hs => hseg d hs rfl⟩

theorem getHeader_fine (hm : r.mem.isMapped = true) (h : r.Scannable .getHeader) :
    r.Fine .getHeader := by
  by_cases hfin : r.memoryFinalized = true ∨ r.headersFinalized = true
  · exact ⟨.view none, r, by rw [call, getHeader_finalized hfin, ok_bind], rfl, trivial⟩
  · obtain ⟨hf, hh⟩ := not_or.mp hfin
    obtain ⟨seg, d, tail, cut, hseg, hd⟩ := exists_first ((h.resolve_left hf).resolve_left hh)
    refine ⟨_, { r with
      currentSize := r.currentSize + (seg.length + 1)
      headersFinalized := decide (d ≠ headerDelimeter)
      memoryFinalized := decide (d = memoryFinalizer) },
      by rw [call, getHeader_found hm (eq_false_of_ne_true hh) (eq_false_of_ne_true hf) cut hseg hd,
        ok_bind], rfl, ?_⟩
    split
    next => trivial
    next => exact within_of_ahead hm cut

theorem getHeader_faults (hm : r.mem.isMapped = true) (h : ¬r.Scannable .getHeader) :
    r.Faults .getHeader := by
  obtain ⟨hf, h⟩ := not_or.mp h
  obtain ⟨hh, absent⟩ := not_or.mp h
  have missing : ∀ b ∈ r.ahead, b ∉ headerEnds := fun b hb hd => absent ⟨b, hb, hd⟩
  simp only [headerEnds] at missing
  rcases findAny_absent hm missing with ⟨-, hfind⟩ | ⟨-, hfind⟩
  · exact ⟨.outside r.mem.maxSize, by simp [call, getHeader, hf, hh, hm, hfind]⟩
  · exact ⟨.nullPointer, by simp [call, getHeader, hf, hh, hm, hfind, endPos, pointer]⟩

theorem finalizeHeader_null (hm : r.mem.isMapped = true) (hh : r.headersFinalized = false)
    (hf : r.memoryFinalized = false) (ho : r.mem.maxSize ≤ r.currentSize) :
    r.finalizeHeader = .ok (false, r) := by
  simp [finalizeHeader, hm, hh, hf, find, findAny_null ho]

theorem finalizeHeader_fine (hm : r.mem.isMapped = true) (h : r.Scannable .finalizeHeader) :
    r.Fine .finalizeHeader := by
  by_cases hf : r.memoryFinalized = true
  · exact ⟨.flag r.headersFinalized, r, by simp [call, finalizeHeader, hf], rfl, trivial⟩
  · by_cases hh : r.headersFinalized = true
    · exact ⟨.flag true, r, by rw [call, finalizeHeader_finalized hh, ok_bind], rfl, trivial⟩
    · have hf' := eq_false_of_ne_true hf
      have hh' := eq_false_of_ne_true hh
      rcases (h.resolve_left hf).resolve_left hh with ho | hlf
      · exact ⟨.flag false, r, by rw [call, finalizeHeader_null hm hh' hf' ho, ok_bind], rfl, trivial⟩
      · obtain ⟨seg, tail, cut, hseg⟩ := ahead_cut hlf
        exact ⟨.flag true,
          { r with currentSize := r.currentSize + seg.length + 1, headersFinalized := true },
          by rw [call, finalizeHeader_found hm hh' hf' cut hseg, ok_bind], rfl, trivial⟩

theorem finalizeHeader_faults (hm : r.mem.isMapped = true) (h : ¬r.Scannable .finalizeHeader) :
    r.Faults .finalizeHeader := by
  obtain ⟨hf, h⟩ := not_or.mp h
  obtain ⟨hh, h⟩ := not_or.mp h
  obtain ⟨ho, hlf⟩ := not_or.mp h
  have outside := finalizeHeader_outside hm (eq_false_of_ne_true hh) (eq_false_of_ne_true hf)
    (Nat.not_le.mp ho) hlf
  exact ⟨_, by rw [call, outside, error_bind]⟩

theorem getPayload_closed_fine (hm : r.mem.isMapped = true) (hh : r.headersFinalized = true)
    (hf : r.memoryFinalized = false) (h : memoryFinalizer ∈ r.ahead) : r.Fine .getPayload := by
  obtain ⟨seg, tail, cut, hseg⟩ := ahead_cut h
  exact ⟨.view (some ⟨r.currentSize, seg.length⟩),
    { r with currentSize := r.currentSize + seg.length, memoryFinalized := true },
    by rw [call, getPayload_found hm hh hf cut hseg, ok_bind], rfl, within_of_ahead hm cut⟩

theorem getPayload_closed_faults (hm : r.mem.isMapped = true) (hh : r.headersFinalized = true)
    (hf : r.memoryFinalized = false) (h : memoryFinalizer ∉ r.ahead) : r.Faults .getPayload := by
  rcases find_absent hm h with ⟨-, hfind⟩ | ⟨-, hfind⟩
  · exact ⟨.outside r.mem.maxSize, by simp [call, getPayload, hf, hh, hm, hfind]⟩
  · exact ⟨.nullPointer, by simp [call, getPayload, hf, hh, hm, hfind, pointer]⟩

theorem behind_first (hseg : memoryDelimeter ∉ seg) :
    memoryFinalizer ∈ (seg ++ memoryDelimeter :: tail).dropWhile (· ≠ memoryDelimeter) ↔
      memoryFinalizer ∈ tail := by
  have skip : ∀ b ∈ seg, decide (b ≠ memoryDelimeter) = true := fun b hb =>
    decide_eq_true fun he => hseg (he ▸ hb)
  rw [List.dropWhile_append_of_pos skip, List.dropWhile_cons_of_neg (by simp)]
  simp [memoryFinalizer, memoryDelimeter]

theorem getPayload_skips (hm : r.mem.isMapped = true) (hh : r.headersFinalized = false)
    (hf : r.memoryFinalized = false) (cut : r.ahead = seg ++ memoryDelimeter :: tail)
    (hseg : memoryDelimeter ∉ seg) : ∃ r' : ReadBufferView, r.call .getPayload = r'.call .getPayload ∧
      r'.mem = r.mem ∧ r'.headersFinalized = true ∧ r'.memoryFinalized = false ∧ r'.ahead = tail := by
  have closed := finalizeHeader_found hm hh hf cut hseg
  refine ⟨{ r with currentSize := r.currentSize + seg.length + 1, headersFinalized := true }, ?_, rfl,
    rfl, hf, drop_behind cut⟩
  rw [call, call, getPayload_open hh hf closed rfl hf]

theorem getPayload_fine (hm : r.mem.isMapped = true) (h : r.Scannable .getPayload) :
    r.Fine .getPayload := by
  by_cases hf : r.memoryFinalized = true
  · exact ⟨.view none, r, by simp [call, getPayload, hf], rfl, trivial⟩
  · have hf' := eq_false_of_ne_true hf
    have h := h.resolve_left hf
    by_cases hh : r.headersFinalized = true
    · rw [if_pos hh] at h
      exact getPayload_closed_fine hm hh hf' h
    · have hh' := eq_false_of_ne_true hh
      rw [if_neg hh] at h
      rcases h with ho | hnul
      · exact ⟨.view none, r, by simp [call, getPayload, hf', hh', finalizeHeader_null hm hh' hf' ho],
          rfl, trivial⟩
      · have hlf : memoryDelimeter ∈ r.ahead := by
          by_contra absent
          have none_left : r.ahead.dropWhile (· ≠ memoryDelimeter) = [] :=
            List.dropWhile_eq_nil_iff.mpr fun b hb => decide_eq_true fun he => absent (he ▸ hb)
          rw [none_left] at hnul
          cases hnul
        obtain ⟨seg, tail, cut, hseg⟩ := ahead_cut hlf
        rw [cut, behind_first hseg] at hnul
        obtain ⟨r', same, hmem, hh'', hf'', ahead⟩ := getPayload_skips hm hh' hf' cut hseg
        obtain ⟨a, r'', hcall, hmem', within⟩ :=
          getPayload_closed_fine (hmem ▸ hm) hh'' hf'' (ahead ▸ hnul)
        exact ⟨a, r'', same.trans hcall, hmem'.trans hmem, hmem ▸ within⟩

theorem getPayload_faults (hm : r.mem.isMapped = true) (h : ¬r.Scannable .getPayload) :
    r.Faults .getPayload := by
  obtain ⟨hf, h⟩ := not_or.mp h
  have hf' := eq_false_of_ne_true hf
  by_cases hh : r.headersFinalized = true
  · rw [if_pos hh] at h
    exact getPayload_closed_faults hm hh hf' h
  · have hh' := eq_false_of_ne_true hh
    rw [if_neg hh] at h
    obtain ⟨ho, hnul⟩ := not_or.mp h
    by_cases hlf : memoryDelimeter ∈ r.ahead
    · obtain ⟨seg, tail, cut, hseg⟩ := ahead_cut hlf
      rw [cut, behind_first hseg] at hnul
      obtain ⟨r', same, hmem, hh'', hf'', ahead⟩ := getPayload_skips hm hh' hf' cut hseg
      obtain ⟨e, he⟩ := getPayload_closed_faults (hmem ▸ hm) hh'' hf'' (ahead ▸ hnul)
      exact ⟨e, same.trans he⟩
    · have outside := finalizeHeader_outside hm hh' hf' (Nat.not_le.mp ho) hlf
      exact ⟨_, by rw [call, getPayload_error hh' hf' outside, error_bind]⟩

theorem finalizePayload_fine (hm : r.mem.isMapped = true) (h : r.Scannable .finalizePayload) :
    r.Fine .finalizePayload := by
  have ha := (bytes_of_mapped hm).1
  by_cases hf : r.memoryFinalized = true
  · exact ⟨.flag true, r, by simp [call, finalizePayload, ha, hm, hf], rfl, trivial⟩
  · rcases h.resolve_left hf with ho | hnul
    · exact ⟨.flag false, { r with headersFinalized := true },
        by simp [call, finalizePayload, ha, hm, hf, find, findAny_null ho], rfl, trivial⟩
    · obtain ⟨seg, tail, cut, hseg⟩ := ahead_cut hnul
      have hfind := findAny_found [memoryFinalizer] hm cut
        (fun b hb he => hseg (List.mem_singleton.mp he ▸ hb)) (by simp)
      refine ⟨.flag true,
        { r with currentSize := r.mem.maxSize, headersFinalized := true, memoryFinalized := true },
        ?_, rfl, trivial⟩
      simp [call, finalizePayload, ha, hm, hf, find, hfind, pointer, load_found cut]

theorem finalizePayload_faults (hm : r.mem.isMapped = true) (h : ¬r.Scannable .finalizePayload) :
    r.Faults .finalizePayload := by
  obtain ⟨hf, h⟩ := not_or.mp h
  obtain ⟨ho, hnul⟩ := not_or.mp h
  rcases find_absent hm hnul with ⟨-, hfind⟩ | ⟨hle, -⟩
  · exact ⟨.outside r.mem.maxSize,
      by simp [call, finalizePayload, (bytes_of_mapped hm).1, hm, hf, hfind]⟩
  · exact absurd hle ho

theorem call_fine (hm : r.mem.isMapped = true) {c : ReadCall} (h : r.Scannable c) : r.Fine c := by
  cases c with
  | getHeader => exact getHeader_fine hm h
  | getPayload => exact getPayload_fine hm h
  | finalizeHeader => exact finalizeHeader_fine hm h
  | finalizePayload => exact finalizePayload_fine hm h

theorem call_faults (hm : r.mem.isMapped = true) {c : ReadCall} (h : ¬r.Scannable c) :
    r.Faults c := by
  cases c with
  | getHeader => exact getHeader_faults hm h
  | getPayload => exact getPayload_faults hm h
  | finalizeHeader => exact finalizeHeader_faults hm h
  | finalizePayload => exact finalizePayload_faults hm h

/-- The run touches only bytes of the page and all views lie on it. -/
def InBounds (r : ReadBufferView) (calls : List ReadCall) : Prop :=
  ∃ answers r', r.run calls = .ok (answers, r') ∧ ∀ a ∈ answers, a.Within r.mem.maxSize

/-- Every call of the run finds what it looks for on the page. -/
def ScannableRun (r : ReadBufferView) (calls : List ReadCall) : Prop :=
  ∀ done c left, calls = done ++ c :: left → ∀ answers r', r.run done = .ok (answers, r') →
    r'.Scannable c

theorem InBounds.nil (r : ReadBufferView) : r.InBounds [] :=
  ⟨[], r, rfl, fun _ ha => nomatch ha⟩

theorem run_cons {a : ReadAnswer} {c : ReadCall} (calls : List ReadCall)
    (hcall : r.call c = .ok (a, r')) :
    r.run (c :: calls) = (r'.run calls >>= fun p => .ok (a :: p.1, p.2)) := by
  rw [run, hcall]
  rfl

theorem run_cons_ok {a : ReadAnswer} {c : ReadCall} {calls : List ReadCall}
    (hcall : r.call c = .ok (a, r')) {answers : List ReadAnswer} {last : ReadBufferView} :
    r.run (c :: calls) = .ok (answers, last) ↔
      ∃ rest, r'.run calls = .ok (rest, last) ∧ answers = a :: rest := by
  rw [run_cons calls hcall, bind_eq_ok]
  constructor
  · rintro ⟨p, hp, h⟩
    cases h
    exact ⟨p.1, hp, rfl⟩
  · rintro ⟨rest, hrest, rfl⟩
    exact ⟨(rest, last), hrest, rfl⟩

theorem inBounds_cons {a : ReadAnswer} {c : ReadCall} {calls : List ReadCall}
    (hcall : r.call c = .ok (a, r')) (hmem : r'.mem = r.mem) (ha : a.Within r.mem.maxSize) :
    r.InBounds (c :: calls) ↔ r'.InBounds calls := by
  constructor
  · rintro ⟨answers, last, hrun, within⟩
    obtain ⟨rest, hrest, rfl⟩ := (run_cons_ok hcall).mp hrun
    exact ⟨rest, last, hrest, fun b hb => hmem ▸ within b (List.mem_cons_of_mem _ hb)⟩
  · rintro ⟨answers, last, hrun, within⟩
    refine ⟨a :: answers, last, (run_cons_ok hcall).mpr ⟨answers, hrun, rfl⟩, fun b hb => ?_⟩
    rcases List.mem_cons.mp hb with rfl | hb
    · exact ha
    · exact hmem ▸ within b hb

theorem scannableRun_cons {a : ReadAnswer} {c : ReadCall} {calls : List ReadCall}
    (hcall : r.call c = .ok (a, r')) :
    r.ScannableRun (c :: calls) ↔ r.Scannable c ∧ r'.ScannableRun calls := by
  constructor
  · intro h
    refine ⟨h [] c calls rfl [] r rfl, fun done d left hsplit answers last hrun => ?_⟩
    exact h (c :: done) d left (by rw [hsplit, List.cons_append]) (a :: answers) last
      ((run_cons_ok hcall).mpr ⟨answers, hrun, rfl⟩)
  · rintro ⟨hc, h⟩ done d left hsplit answers last hrun
    cases done with
    | nil =>
      obtain ⟨rfl, -⟩ := List.cons.inj hsplit
      cases hrun
      exact hc
    | cons c' done =>
      rw [List.cons_append] at hsplit
      obtain ⟨rfl, rfl⟩ := List.cons.inj hsplit
      obtain ⟨rest, hrest, -⟩ := (run_cons_ok hcall).mp hrun
      exact h done d left rfl rest last hrest

/-- A reader stays on the page, whatever the page contains and in whatever order it is called, exactly
when each call finds on the page what it scans for or has nothing to scan for. -/
theorem reader_inBounds (m : Memory) (hm : m.isMapped = true) (calls : List ReadCall) :
    (new m).InBounds calls ↔ (new m).ScannableRun calls := by
  suffices h : ∀ r : ReadBufferView, r.mem.isMapped = true → (r.InBounds calls ↔ r.ScannableRun calls) from
    h (new m) hm
  induction calls with
  | nil =>
    intro r _
    exact ⟨fun _ done c left h => by simp at h, fun _ => .nil r⟩
  | cons c calls ih =>
    intro r hm
    by_cases hc : r.Scannable c
    · obtain ⟨a, r', hcall, hmem, within⟩ := call_fine hm hc
      rw [inBounds_cons hcall hmem within, scannableRun_cons hcall, ih r' (hmem ▸ hm)]
      exact ⟨fun h => ⟨hc, h⟩, And.right⟩
    · obtain ⟨e, he⟩ := call_faults hm hc
      refine ⟨fun ⟨answers, last, hrun, _⟩ => ?_, fun h => absurd (h [] c calls rfl [] r rfl) hc⟩
      rw [run, he, error_bind] at hrun
      cases hrun

def fiveBytes : Memory := ofBytes [97, 10, 98, 0, 7] (by decide)

theorem reader_inBounds_message : (new fiveBytes).InBounds [.getHeader, .getHeader, .getPayload] := by
  refine (reader_inBounds fiveBytes rfl _).mpr ?_
  have first : (new fiveBytes).call .getHeader =
      .ok (.view (some ⟨0, 1⟩), ⟨⟨fiveBytes, 2, true, false⟩⟩) := rfl
  have second : call ⟨⟨fiveBytes, 2, true, false⟩⟩ .getHeader =
      .ok (.view none, ⟨⟨fiveBytes, 2, true, false⟩⟩) := rfl
  have third : call ⟨⟨fiveBytes, 2, true, false⟩⟩ .getPayload =
      .ok (.view (some ⟨2, 1⟩), ⟨⟨fiveBytes, 3, true, true⟩⟩) := rfl
  rw [scannableRun_cons first, scannableRun_cons second, scannableRun_cons third]
  exact ⟨by decide, by decide, by decide, fun done c left h => by simp at h⟩

/-- Without a delimiter the reader inspects the byte behind the page; behind a delimiter in the last
byte it computes with a null pointer. -/
theorem reader_leaves_page :
    (new (ofBytes [97] (by decide))).run [.getHeader] = .error (.outside 1) ∧
      (new (ofBytes [9] (by decide))).run [.getHeader, .getHeader] = .error .nullPointer ∧
      (new (ofBytes [10] (by decide))).run [.getPayload] = .error .nullPointer ∧
      ¬(new (ofBytes [97] (by decide))).InBounds [.getHeader] := by
  have outside : (new (ofBytes [97] (by decide))).run [.getHeader] = .error (.outside 1) := rfl
  refine ⟨outside, rfl, rfl, ?_⟩
  rintro ⟨answers, last, hrun, -⟩
  cases outside.symm.trans hrun

end ReadBufferView

end Ripc
