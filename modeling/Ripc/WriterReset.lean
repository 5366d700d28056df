import Ripc.RoundTrip

namespace Ripc

open BufferView Memory

/-- The calls an application makes on a writer. -/
inductive WriteCall
  | addHeader (data : StdString)
  | finalizeHeader
  | setPayload (data : StdString)
  | finalizePayload
  deriving DecidableEq

def WriteCall.isHeader : WriteCall → Bool
  | .addHeader _ => true
  | _ => false

theorem WriteCall.eq_addHeader {c : WriteCall} (h : c.isHeader = true) : ∃ data, c = .addHeader data := by
  cases c with
  | addHeader data => exact ⟨data, rfl⟩
  | _ => cases h

/-- What an application sees of a call. -/
structure WriteSeen where
  returned : Bool
  currentSize : Nat
  contents : List UInt8
  deriving DecidableEq

def BufferView.reset (b : BufferView) : BufferView :=
  { b with currentSize := 0, headersFinalized := false, memoryFinalized := false }

namespace WriteBufferView

def reset (w : WriteBufferView) : WriteBufferView := { w with toBufferView := w.toBufferView.reset }

def call (w : WriteBufferView) : WriteCall → Bool × WriteBufferView
  | .addHeader data => w.addHeader data
  | .finalizeHeader => w.finalizeHeader
  | .setPayload data => w.setPayload data
  | .finalizePayload => w.finalizePayload

def run : WriteBufferView → List WriteCall → List WriteSeen × WriteBufferView
  | w, [] => ([], w)
  | w, c :: calls =>
    let (returned, next) := w.call c
    let (seen, last) := run next calls
    (⟨returned, next.currentSize, next.mem.bytes⟩ :: seen, last)

/-- The same writer with another answer to the question whether it has begun with the headers. -/
def flagged (w : WriteBufferView) (b : Bool) : WriteBufferView := { w with headersInitialized := b }

variable {w : WriteBufferView} {c : WriteCall} {b : Bool}

@[simp] theorem flagged_toBufferView (w : WriteBufferView) (b : Bool) :
    (w.flagged b).toBufferView = w.toBufferView := rfl

theorem addChar_flagged (w : WriteBufferView) (b : Bool) (ch : UInt8) :
    (w.flagged b).addChar ch = ((w.addChar ch).1, (w.addChar ch).2.flagged b) := by
  rcases hadd : w.mem.add w.currentSize ch with ⟨_ | _, mem⟩
  · simp [addChar, hadd]
  · simp [addChar, hadd, flagged]

theorem finalizeHeader_flagged (w : WriteBufferView) (b : Bool) :
    (w.flagged b).finalizeHeader = (w.finalizeHeader.1, w.finalizeHeader.2.flagged b) := by
  simp only [finalizeHeader, flagged_toBufferView, addChar_flagged]
  split
  next => rfl
  next =>
    split
    next => rfl
    next =>
      split
      next => rfl
      next => rcases w.addChar memoryDelimeter with ⟨_ | _, w'⟩ <;> rfl

theorem closeHeaders_flagged (w : WriteBufferView) (b : Bool) :
    (w.flagged b).closeHeaders = (w.closeHeaders.1, w.closeHeaders.2.flagged b) := by
  simp only [closeHeaders, flagged_toBufferView, finalizeHeader_flagged]
  split <;> rfl

theorem finalizePayload_flagged (w : WriteBufferView) (b : Bool) :
    (w.flagged b).finalizePayload = (w.finalizePayload.1, w.finalizePayload.2.flagged b) := by
  simp only [finalizePayload, flagged_toBufferView, closeHeaders_flagged]
  split
  next => rfl
  next =>
    split
    next => rfl
    next =>
      rcases w.closeHeaders with ⟨_ | _, w'⟩
      · rfl
      · simp only [addChar_flagged]
        rcases w'.addChar memoryFinalizer with ⟨_ | _, w''⟩ <;> rfl

theorem setPayload_flagged (w : WriteBufferView) (b : Bool) (data : StdString) :
    (w.flagged b).setPayload data = ((w.setPayload data).1, (w.setPayload data).2.flagged b) := by
  simp only [setPayload, flagged_toBufferView, closeHeaders_flagged]
  split
  next => rfl
  next =>
    rcases w.closeHeaders with ⟨_ | _, w'⟩
    · rfl
    · simp only [flagged_toBufferView]
      by_cases hs : (w'.mem.write w'.currentSize data).1 ≤ 0
      · simp only [hs, if_true]
        rfl
      · simp only [hs, if_false]
        exact finalizePayload_flagged { w' with
          mem := (w'.mem.write w'.currentSize data).2
          currentSize := sizeAdd w'.currentSize (w'.mem.write w'.currentSize data).1 } b

theorem call_flagged (hc : c.isHeader = false) (w : WriteBufferView) (b : Bool) :
    (w.flagged b).call c = ((w.call c).1, (w.call c).2.flagged b) := by
  cases c with
  | addHeader data => cases hc
  | finalizeHeader => exact finalizeHeader_flagged w b
  | setPayload data => exact setPayload_flagged w b data
  | finalizePayload => exact finalizePayload_flagged w b

/-- A call writes to the same page, and what was closed or begun stays so. -/
structure Onward (w w' : WriteBufferView) : Prop where
  mapped : w'.mem.isMapped = w.mem.isMapped
  size : w'.mem.maxSize = w.mem.maxSize
  headers : w.headersFinalized = true → w'.headersFinalized = true
  memory : w.memoryFinalized = true → w'.memoryFinalized = true
  flag : w.headersInitialized = true → w'.headersInitialized = true

theorem Onward.refl (w : WriteBufferView) : Onward w w := ⟨rfl, rfl, id, id, id⟩

theorem Onward.trans {w₁ w₂ w₃ : WriteBufferView} (h : Onward w₁ w₂) (h' : Onward w₂ w₃) : Onward w₁ w₃ :=
  ⟨h'.mapped.trans h.mapped, h'.size.trans h.size, h'.headers ∘ h.headers, h'.memory ∘ h.memory, h'.flag ∘ h.flag⟩

theorem add_isMapped (m : Memory) (i : Nat) (ch : UInt8) : (m.add i ch).2.isMapped = m.isMapped := by
  simp only [Memory.add]
  repeat' split
  all_goals rfl

theorem write_isMapped (m : Memory) (i : Nat) (data : StdString) : (m.write i data).2.isMapped = m.isMapped := by
  simp only [Memory.write]
  repeat' split
  all_goals rfl

theorem addChar_onward (w : WriteBufferView) (ch : UInt8) : Onward w (w.addChar ch).2 := by
  have mapped := add_isMapped w.mem w.currentSize ch
  have size := add_maxSize w.mem w.currentSize ch
  rcases hadd : w.mem.add w.currentSize ch with ⟨_ | _, mem⟩
  · simpa [addChar, hadd] using Onward.refl w
  · rw [hadd] at mapped size
    simp only [addChar, hadd]
    exact ⟨mapped, size, id, id, id⟩

theorem writeHeader_onward (w : WriteBufferView) (data : StdString) : Onward w (w.writeHeader data).2 :=
  ⟨write_isMapped w.mem w.currentSize data, write_maxSize w.mem w.currentSize data, id, id, fun _ => rfl⟩

theorem addHeader_onward (w : WriteBufferView) (data : StdString) : Onward w (w.addHeader data).2 := by
  have first := addChar_onward w headerDelimeter
  simp only [addHeader]
  split
  next => exact Onward.refl w
  next =>
    split
    next => exact Onward.refl w
    next =>
      split
      next => exact Onward.refl w
      next =>
        by_cases hi : w.headersInitialized = true
        · rw [if_pos hi]
          rcases hadd : w.addChar headerDelimeter with ⟨_ | _, w'⟩
          · rwa [hadd] at first
          · rw [hadd] at first
            exact first.trans (writeHeader_onward w' data)
        · rw [if_neg hi]
          exact writeHeader_onward w data

theorem finalizeHeader_onward (w : WriteBufferView) : Onward w w.finalizeHeader.2 := by
  have first := addChar_onward w memoryDelimeter
  simp only [finalizeHeader]
  split
  next => exact Onward.refl w
  next =>
    split
    next => exact Onward.refl w
    next =>
      split
      next => exact Onward.refl w
      next =>
        rcases hadd : w.addChar memoryDelimeter with ⟨_ | _, w'⟩
        · rwa [hadd] at first
        · rw [hadd] at first
          exact first.trans ⟨rfl, rfl, fun _ => rfl, id, id⟩

theorem closeHeaders_onward (w : WriteBufferView) : Onward w w.closeHeaders.2 := by
  unfold closeHeaders
  split
  next => exact finalizeHeader_onward w
  next => exact Onward.refl w

theorem finalizePayload_onward (w : WriteBufferView) : Onward w w.finalizePayload.2 := by
  have first := closeHeaders_onward w
  simp only [finalizePayload]
  split
  next => exact Onward.refl w
  next =>
    split
    next => exact Onward.refl w
    next =>
      rcases hclose : w.closeHeaders with ⟨_ | _, w'⟩
      · rwa [hclose] at first
      · rw [hclose] at first
        have second := first.trans (addChar_onward w' memoryFinalizer)
        simp only
        rcases hadd : w'.addChar memoryFinalizer with ⟨_ | _, w''⟩
        · rwa [hadd] at second
        · rw [hadd] at second
          exact second.trans ⟨rfl, rfl, id, fun _ => rfl, id⟩

theorem setPayload_onward (w : WriteBufferView) (data : StdString) : Onward w (w.setPayload data).2 := by
  have first := closeHeaders_onward w
  simp only [setPayload]
  split
  next => exact Onward.refl w
  next =>
    rcases hclose : w.closeHeaders with ⟨_ | _, w'⟩
    · rwa [hclose] at first
    · rw [hclose] at first
      have mapped := write_isMapped w'.mem w'.currentSize data
      have size := write_maxSize w'.mem w'.currentSize data
      simp only
      split
      next => exact first.trans ⟨mapped, size, id, id, id⟩
      next =>
        have wrote : Onward w' { w' with
            mem := (w'.mem.write w'.currentSize data).2
            currentSize := sizeAdd w'.currentSize (w'.mem.write w'.currentSize data).1 } :=
          ⟨mapped, size, id, id, id⟩
        exact (first.trans wrote).trans (finalizePayload_onward _)

theorem call_onward (w : WriteBufferView) (c : WriteCall) : Onward w (w.call c).2 := by
  cases c with
  | addHeader data => exact addHeader_onward w data
  | finalizeHeader => exact finalizeHeader_onward w
  | setPayload data => exact setPayload_onward w data
  | finalizePayload => exact finalizePayload_onward w

theorem run_onward (w : WriteBufferView) (calls : List WriteCall) : Onward w (w.run calls).2 := by
  induction calls generalizing w with
  | nil => exact Onward.refl w
  | cons c calls ih => exact (call_onward w c).trans (ih _)

def Quiet (w : WriteBufferView) : Prop :=
  w.headersFinalized = true ∨ w.memoryFinalized = true ∨ w.mem.isMapped = false

theorem Quiet.onward {w' : WriteBufferView} (h : Quiet w) (on : Onward w w') : Quiet w' := by
  rcases h with h | h | h
  · exact Or.inl (on.headers h)
  · exact Or.inr (Or.inl (on.memory h))
  · exact Or.inr (Or.inr (on.mapped.trans h))

theorem addHeader_quiet (h : Quiet w) (data : StdString) : w.addHeader data = (false, w) := by
  rcases h with h | h | h
  · simp [addHeader, h]
  · simp [addHeader, h]
  · simp [addHeader, h]

theorem call_flagged_quiet (h : Quiet w) (c : WriteCall) (b : Bool) :
    (w.flagged b).call c = ((w.call c).1, (w.call c).2.flagged b) := by
  by_cases hc : c.isHeader = true
  · obtain ⟨data, rfl⟩ := WriteCall.eq_addHeader hc
    have h' : Quiet (w.flagged b) := h
    rw [call, call, addHeader_quiet h, addHeader_quiet h']
  · exact call_flagged (eq_false_of_ne_true hc) w b

theorem run_cons_flagged (calls : List WriteCall)
    (first : (w.flagged b).call c = ((w.call c).1, (w.call c).2.flagged b))
    (rest : ((w.call c).2.flagged b).run calls =
      (((w.call c).2.run calls).1, ((w.call c).2.run calls).2.flagged b)) :
    (w.flagged b).run (c :: calls) = ((w.run (c :: calls)).1, (w.run (c :: calls)).2.flagged b) := by
  simp only [run, first, rest]
  rfl

theorem run_flagged_quiet (h : Quiet w) (calls : List WriteCall) (b : Bool) :
    (w.flagged b).run calls = ((w.run calls).1, (w.run calls).2.flagged b) := by
  induction calls generalizing w with
  | nil => rfl
  | cons c calls ih =>
    exact run_cons_flagged calls (call_flagged_quiet h c b) (ih (h.onward (call_onward w c)))

theorem run_flagged_other {calls : List WriteCall} (h : ∀ c ∈ calls, c.isHeader = false)
    (w : WriteBufferView) (b : Bool) :
    (w.flagged b).run calls = ((w.run calls).1, (w.run calls).2.flagged b) := by
  induction calls generalizing w with
  | nil => rfl
  | cons c calls ih =>
    exact run_cons_flagged calls (call_flagged (h c (by simp)) w b)
      (ih (fun d hd => h d (List.mem_cons_of_mem _ hd)) _)

/-- The calls come to write a header: on a page with room the headers are open only for the first call. -/
def WritesHeader (m : Memory) (calls : List WriteCall) : Prop :=
  if m.maxSize = 0 then ∃ c ∈ calls, c.isHeader = true else ∃ c ∈ calls.head?, c.isHeader = true

instance (m : Memory) (calls : List WriteCall) : Decidable (WritesHeader m calls) := by
  unfold WritesHeader
  split <;> infer_instance

theorem new_call_quiet {m : Memory} (hm : m.isMapped = true) (room : m.maxSize ≠ 0) (hc : c.isHeader = false) :
    Quiet ((new m).call c).2 := by
  have hl := (bytes_of_mapped hm).2
  obtain ⟨byte, rest, hb⟩ : ∃ byte rest, m.bytes = byte :: rest :=
    List.exists_cons_of_length_pos (by omega)
  have composing : Composing (new m) [] (byte :: rest) := hb ▸ new_composing hm
  obtain ⟨w', hclose, closed⟩ := closeHeaders_room composing
  have quiet : Quiet w' := Or.inl closed.closed_headers
  cases c with
  | addHeader data => cases hc
  | finalizeHeader =>
    have same : (new m).finalizeHeader = (true, w') := hclose
    rwa [call, same]
  | setPayload data =>
    rw [call, setPayload_composing composing hclose closed]
    exact quiet.onward (setPayload_onward w' data)
  | finalizePayload =>
    rw [call, finalizePayload_composing composing hclose closed]
    exact quiet.onward (finalizePayload_onward w')

/-- Calls that write no header do not see the flag. -/
theorem run_unheaded {m : Memory} {calls : List WriteCall} (h : m.isMapped = false ∨ ¬WritesHeader m calls) (b : Bool) :
    ((new m).flagged b).run calls = (((new m).run calls).1, ((new m).run calls).2.flagged b) := by
  by_cases hm : m.isMapped = true
  case neg => exact run_flagged_quiet (Or.inr (Or.inr (eq_false_of_ne_true hm))) calls b
  have h := h.resolve_left (by simp [hm])
  by_cases room : m.maxSize = 0
  · rw [WritesHeader, if_pos room] at h
    exact run_flagged_other (fun c hc => eq_false_of_ne_true fun he => h ⟨c, hc, he⟩) (new m) b
  · rw [WritesHeader, if_neg room] at h
    cases calls with
    | nil => rfl
    | cons c calls =>
      have hc : c.isHeader = false := eq_false_of_ne_true fun he => h ⟨c, rfl, he⟩
      exact run_cons_flagged calls (call_flagged hc (new m) b)
        (run_flagged_quiet (new_call_quiet hm room hc) calls b)

/-- Nothing fits, so nothing is ever closed. -/
structure Stuck (w : WriteBufferView) : Prop where
  mapped : w.mem.isMapped = true
  full : w.mem.maxSize = 0
  open_headers : w.headersFinalized = false
  open_memory : w.memoryFinalized = false

theorem Stuck.addChar (h : Stuck w) (ch : UInt8) : w.addChar ch = (false, w) := by
  have none_added : w.mem.add w.currentSize ch = (false, w.mem) := by
    simp [Memory.add, h.mapped, h.full, (bytes_of_mapped h.mapped).1]
  rw [WriteBufferView.addChar, none_added]

theorem Stuck.closeHeaders (h : Stuck w) : w.closeHeaders = (false, w) := by
  simp [WriteBufferView.closeHeaders, finalizeHeader, h.open_headers, h.open_memory, h.mapped, h.addChar]

theorem Stuck.call_other (h : Stuck w) (hc : c.isHeader = false) : w.call c = (false, w) := by
  have closed := h.closeHeaders
  cases c with
  | addHeader data => cases hc
  | finalizeHeader => simpa [call, WriteBufferView.closeHeaders, h.open_headers] using closed
  | setPayload data => simp [call, setPayload, h.open_memory, closed]
  | finalizePayload => simp [call, finalizePayload, h.open_memory, h.mapped, (bytes_of_mapped h.mapped).1, closed]

theorem Stuck.addHeader_begun (h : Stuck w) (hi : w.headersInitialized = true) (data : StdString) :
    w.addHeader data = (false, w) := by
  simp [WriteBufferView.addHeader, h.open_headers, h.open_memory, h.mapped, hi, h.addChar]

theorem Stuck.addHeader_first (h : Stuck w) (hi : w.headersInitialized = false) (data : StdString) :
    w.addHeader data = (false,
      { w with currentSize := sizeAdd w.currentSize sizeMax, headersInitialized := true }) := by
  have refused : w.mem.write w.currentSize data = (sizeMax, w.mem) := by
    simp [Memory.write, h.mapped, h.full, (bytes_of_mapped h.mapped).1]
  have long : (sizeMax == data.length) = false := by
    rw [beq_eq_false_iff_ne]
    exact Nat.ne_of_gt data.length_lt_sizeMax
  simp [WriteBufferView.addHeader, h.open_headers, h.open_memory, h.mapped, hi, writeHeader, refused, long]

theorem Stuck.run_begun (h : Stuck w) (calls : List WriteCall) (headed : ∃ c ∈ calls, c.isHeader = true) :
    (w.run calls).2.headersInitialized = true := by
  induction calls generalizing w with
  | nil =>
    obtain ⟨c, hc, -⟩ := headed
    cases hc
  | cons c calls ih =>
    by_cases hc : c.isHeader = true
    · obtain ⟨data, rfl⟩ := WriteCall.eq_addHeader hc
      have begun : (w.addHeader data).2.headersInitialized = true := by
        by_cases hi : w.headersInitialized = true
        · rw [h.addHeader_begun hi, hi]
        · rw [h.addHeader_first (eq_false_of_ne_true hi)]
      exact (run_onward _ calls).flag begun
    · have same := h.call_other (eq_false_of_ne_true hc)
      have next : (w.run (c :: calls)).2 = (w.run calls).2 := by simp only [run, same]
      obtain ⟨d, hd, hdh⟩ := headed
      have left : ∃ c ∈ calls, c.isHeader = true :=
        ⟨d, (List.mem_cons.mp hd).resolve_left fun he => hc (he ▸ hdh), hdh⟩
      exact next ▸ ih h left

def seen (p : Bool × WriteBufferView) : WriteSeen := ⟨p.1, p.2.currentSize, p.2.mem.bytes⟩

theorem run_cons (w : WriteBufferView) (c : WriteCall) (calls : List WriteCall) :
    (w.run (c :: calls)).1 = seen (w.call c) :: ((w.call c).2.run calls).1 := rfl

theorem Stuck.run_differs (h : Stuck w) (hi : w.headersInitialized = false) (here : w.currentSize = 0)
    {calls : List WriteCall} (headed : ∃ c ∈ calls, c.isHeader = true) :
    ((w.flagged true).run calls).1 ≠ (w.run calls).1 := by
  have h' : Stuck (w.flagged true) := ⟨h.mapped, h.full, h.open_headers, h.open_memory⟩
  induction calls with
  | nil =>
    obtain ⟨c, hc, -⟩ := headed
    cases hc
  | cons c calls ih =>
    rw [run_cons, run_cons]
    by_cases hc : c.isHeader = true
    · obtain ⟨data, rfl⟩ := WriteCall.eq_addHeader hc
      intro same
      have sizes := congrArg WriteSeen.currentSize (List.cons.inj same).1
      simp only [seen, call, h'.addHeader_begun rfl, h.addHeader_first hi, flagged_toBufferView, here] at sizes
      exact absurd sizes (by decide)
    · have other := eq_false_of_ne_true hc
      obtain ⟨d, hd, hdh⟩ := headed
      have left : ∃ c ∈ calls, c.isHeader = true :=
        ⟨d, (List.mem_cons.mp hd).resolve_left fun he => hc (he ▸ hdh), hdh⟩
      rw [h.call_other other, h'.call_other other]
      exact fun same => ih left (List.cons.inj same).2

theorem page_ext {m m' : Memory} (hm : m.isMapped = true) (hm' : m'.isMapped = true)
    (h : m.bytes = m'.bytes) : m = m' := by
  obtain ⟨ha, hl⟩ := bytes_of_mapped hm
  obtain ⟨ha', hl'⟩ := bytes_of_mapped hm'
  have addr : m.addr = m'.addr := by rw [ha, ha', h]
  have size : m.maxSize = m'.maxSize := by rw [← hl, ← hl', h]
  have mapped : m.isMapped = m'.isMapped := hm.trans hm'.symm
  obtain ⟨a, s, i, _, _⟩ := m
  obtain ⟨a', s', i', _, _⟩ := m'
  obtain rfl : a = a' := addr
  obtain rfl : s = s' := size
  obtain rfl : i = i' := mapped
  rfl

/-- A writer behind the first `n` bytes, its headers begun. -/
def begun (m : Memory) (n : Nat) : WriteBufferView := { (new m).flagged true with currentSize := n }

theorem begun_zero (m : Memory) : begun m 0 = (new m).flagged true := rfl

variable {m : Memory} {byte : UInt8} {rest : List UInt8}

theorem fresh_addHeader (hm : m.isMapped = true) (hb : m.bytes = byte :: rest) (data : StdString) :
    ∃ m', (new m).addHeader data =
        (min data.length (rest.length + 1) == data.length, begun m' (min data.length (rest.length + 1))) ∧
      m'.isMapped = true ∧ m'.bytes = data.chars.take (min data.length (rest.length + 1)) ++
        (byte :: rest).drop (min data.length (rest.length + 1)) := by
  have composing : Composing (new m) [] (byte :: rest) := hb ▸ new_composing hm
  have start : m.bytes = [] ++ byte :: rest := hb
  have size := maxSize_of_bytes hm start
  obtain ⟨m', hwrite, hm', hb'⟩ := write_room hm start (List.cons_ne_nil _ _) data
  rw [List.length_cons] at hwrite hb' size
  refine ⟨m', ?_, hm', hb'⟩
  have here : sizeAdd 0 (min data.length (rest.length + 1)) = min data.length (rest.length + 1) := by
    have := m.maxSize_lt
    rw [sizeAdd_eq (by simp at size; omega), Nat.zero_add]
  have wrote : m.write 0 data = (min data.length (rest.length + 1), m') := hwrite
  rw [addHeader_first composing, writeHeader]
  simp only [new, BufferView.new, wrote, here]
  rfl

theorem begun_writeHeader (m : Memory) (n : Nat) (data : StdString) : (begun m n).writeHeader data =
    ((m.write n data).1 == data.length, begun (m.write n data).2 (sizeAdd n (m.write n data).1)) := rfl

theorem begun_addHeader (hm : m.isMapped = true) (hb : m.bytes = byte :: rest) (data : StdString) :
    ∃ m', (begun m 0).addHeader data = (begun m' 1).writeHeader data ∧
      m'.isMapped = true ∧ m'.bytes = headerDelimeter :: rest := by
  have wrote : Wrote (begun m 0) [] (byte :: rest) := ⟨hm, hb, rfl⟩
  obtain ⟨m', hadd, hw⟩ := addChar_room wrote headerDelimeter
  refine ⟨m', ?_, hw.mapped, hw.bytes⟩
  have open_page : (begun m 0).mem.isMapped = true := hm
  simp only [addHeader, hadd, open_page]
  rfl

theorem begun_addHeader_one (hm : m.isMapped = true) (hb : m.bytes = [byte]) (data : StdString) :
    ∃ m', (begun m 0).addHeader data = (false, begun m' 0) := by
  obtain ⟨m', hadd, hm', hb'⟩ := begun_addHeader hm hb data
  have full : m'.write 1 data = (sizeMax, m') := write_full hm' hb' data
  have long : (sizeMax == data.length) = false := by
    rw [beq_eq_false_iff_ne]
    exact Nat.ne_of_gt data.length_lt_sizeMax
  refine ⟨m', ?_⟩
  have back : sizeAdd 1 sizeMax = 0 := sizeAdd_sizeMax (a := 0) (by decide)
  rw [hadd, begun_writeHeader, full, long, back]

theorem begun_addHeader_room (hm : m.isMapped = true) (hb : m.bytes = byte :: rest) (hr : rest ≠ [])
    (data : StdString) : ∃ m', (begun m 0).addHeader data =
        (min data.length rest.length == data.length, begun m' (min data.length rest.length + 1)) ∧
      m'.isMapped = true ∧ m'.bytes = headerDelimeter :: (data.chars.take (min data.length rest.length) ++
        rest.drop (min data.length rest.length)) := by
  obtain ⟨m₁, hadd, hm₁, hb₁⟩ := begun_addHeader hm hb data
  have behind : m₁.bytes = [headerDelimeter] ++ rest := hb₁
  obtain ⟨m', hwrite, hm', hb'⟩ := write_room hm₁ behind hr data
  have start : m.bytes = [] ++ byte :: rest := hb
  have size := maxSize_of_bytes hm start
  have here : sizeAdd 1 (min data.length rest.length) = min data.length rest.length + 1 := by
    have := m.maxSize_lt
    rw [sizeAdd_eq (by simp at size; omega), Nat.add_comm]
  have wrote : m₁.write 1 data = (min data.length rest.length, m') := hwrite
  refine ⟨m', ?_, hm', hb'⟩
  rw [hadd, begun_writeHeader, wrote, here]

theorem take_eq_replicate {α : Type} {d : α} {l : List α} {n : Nat} (h : d :: l.take n = l.take (n + 1)) :
    l.take (n + 1) = List.replicate (n + 1) d := by
  induction n generalizing l with
  | zero => exact h.symm
  | succ n ih =>
    cases l with
    | nil => cases h
    | cons a l =>
      rw [List.take_succ_cons, List.take_succ_cons] at h
      obtain ⟨rfl, same⟩ := List.cons.inj h
      rw [List.take_succ_cons, ih same, List.replicate_succ (n := n + 1)]

/-- The header is cut at the end of the page and shows nothing but delimiters there. -/
def Overlong (m : Memory) (data : StdString) : Prop :=
  2 ≤ m.maxSize ∧ m.maxSize < data.length ∧
    data.chars.take m.maxSize = List.replicate m.maxSize headerDelimeter

/-- Of the first header on a page with room both writers show the same only when it is overlong; then nothing
distinguishes them any more. -/
theorem first_header (hm : m.isMapped = true) (room : m.maxSize ≠ 0) (data : StdString) :
    (seen ((begun m 0).addHeader data) = seen ((new m).addHeader data) → Overlong m data) ∧
      (Overlong m data → (begun m 0).addHeader data = (new m).addHeader data) := by
  have hl := (bytes_of_mapped hm).2
  obtain ⟨byte, rest, hb⟩ : ∃ byte rest, m.bytes = byte :: rest :=
    List.exists_cons_of_length_pos (by omega)
  have size : m.maxSize = rest.length + 1 := by rw [← hl, hb, List.length_cons]
  obtain ⟨m₁, fresh, hm₁, hb₁⟩ := fresh_addHeader hm hb data
  by_cases hr : rest = []
  · subst hr
    obtain ⟨m₂, used⟩ := begun_addHeader_one hm hb data
    refine ⟨fun same => ?_, fun long => ?_⟩
    · rw [fresh, used] at same
      have returned := congrArg WriteSeen.returned same
      have sizes := congrArg WriteSeen.currentSize same
      simp only [seen, begun, List.length_nil, Nat.zero_add] at returned sizes
      have empty : data.length = 0 := by omega
      simp [empty] at returned
    · exact absurd (size ▸ long.1) (by simp)
  · obtain ⟨m₂, used, hm₂, hb₂⟩ := begun_addHeader_room hm hb hr data
    have some_rest := List.length_pos_iff.mpr hr
    have stored : rest.length + 1 < data.length → m₁.bytes = data.chars.take (rest.length + 1) ∧
        m₂.bytes = headerDelimeter :: data.chars.take rest.length := by
      intro long
      have cut : min data.length (rest.length + 1) = rest.length + 1 := by omega
      have cut' : min data.length rest.length = rest.length := by omega
      rw [hb₁, hb₂, cut, cut']
      simp
    refine ⟨fun same => ?_, fun long => ?_⟩
    · rw [fresh, used] at same
      have returned := congrArg WriteSeen.returned same
      have sizes := congrArg WriteSeen.currentSize same
      have contents := congrArg WriteSeen.contents same
      simp only [seen, begun] at returned sizes contents
      have reached : rest.length + 1 ≤ data.length := by omega
      have longer : rest.length + 1 < data.length := by
        rcases Nat.lt_or_eq_of_le reached with lt | eq
        · exact lt
        · rw [← eq, Nat.min_self, Nat.min_eq_right (Nat.le_succ _), beq_self_eq_true, beq_iff_eq] at returned
          omega
      obtain ⟨text, text'⟩ := stored longer
      have shifted : headerDelimeter :: data.chars.take rest.length = data.chars.take (rest.length + 1) :=
        text'.symm.trans (contents.trans text)
      exact ⟨by omega, by omega, size ▸ take_eq_replicate shifted⟩
    · obtain ⟨two, longer, delimiters⟩ := long
      rw [size] at longer delimiters
      obtain ⟨text, text'⟩ := stored longer
      have short : data.chars.take rest.length = List.replicate rest.length headerDelimeter := by
        have := congrArg (List.take rest.length) delimiters
        simpa [List.take_take] using this
      have pages : m₂ = m₁ := page_ext hm₂ hm₁ (by rw [text, text', short, delimiters, List.replicate_succ])
      have cut : min data.length (rest.length + 1) = rest.length + 1 := by omega
      have cut' : min data.length rest.length = rest.length := by omega
      have refused : ∀ n, n < data.length → (n == data.length) = false := fun n hn => by
        rw [beq_eq_false_iff_ne]
        omega
      rw [fresh, used, pages, cut, cut', refused _ longer, refused _ (by omega)]

theorem head_addHeader {calls : List WriteCall} (room : m.maxSize ≠ 0) (h : WritesHeader m calls) :
    ∃ data rest, calls = .addHeader data :: rest := by
  rw [WritesHeader, if_neg room] at h
  obtain ⟨c, hc, headed⟩ := h
  obtain ⟨data, rfl⟩ := WriteCall.eq_addHeader headed
  obtain ⟨rest, rfl⟩ := List.head?_eq_some_iff.mp hc
  exact ⟨data, rest, rfl⟩

theorem new_stuck (hm : m.isMapped = true) (full : m.maxSize = 0) : Stuck (new m) := ⟨hm, full, rfl, rfl⟩

theorem run_headed {calls : List WriteCall} (hm : m.isMapped = true) (h : WritesHeader m calls) :
    ((new m).run calls).2.headersInitialized = true := by
  by_cases full : m.maxSize = 0
  · rw [WritesHeader, if_pos full] at h
    exact (new_stuck hm full).run_begun calls h
  · obtain ⟨data, rest, rfl⟩ := head_addHeader full h
    have hi : ((new m).addHeader data).2.headersInitialized = true := by
      rw [addHeader_first (new_composing hm)]
      rfl
    exact (run_onward _ rest).flag hi

theorem run_flag {calls : List WriteCall} (h : m.isMapped = false ∨ ¬WritesHeader m calls) :
    ((new m).run calls).2.headersInitialized = false := by
  have same := (Prod.mk.inj (run_unheaded h false)).2
  rw [show (new m).flagged false = new m from rfl] at same
  rw [same]
  rfl

/-- What `reset` leaves is a new writer but for the flag. -/
theorem reset_eq (w : WriteBufferView) : w.reset = (new w.mem).flagged w.headersInitialized := rfl

theorem writesHeader_congr {m' : Memory} (h : m'.maxSize = m.maxSize) (calls : List WriteCall) :
    WritesHeader m' calls ↔ WritesHeader m calls := by
  rw [WritesHeader, WritesHeader, h]

theorem overlong_congr {m' : Memory} (h : m'.maxSize = m.maxSize) (data : StdString) :
    Overlong m' data ↔ Overlong m data := by
  rw [Overlong, Overlong, h]

/-- A writer whose headers were begun before shows the same as a new one. -/
theorem run_begun_iff (hm : m.isMapped = true) (calls : List WriteCall) :
    ((begun m 0).run calls).1 = ((new m).run calls).1 ↔
      ¬WritesHeader m calls ∨ ∃ data rest, calls = .addHeader data :: rest ∧ Overlong m data := by
  constructor
  · intro same
    refine or_iff_not_imp_left.mpr fun h => ?_
    have headed := not_not.mp h
    by_cases full : m.maxSize = 0
    · rw [WritesHeader, if_pos full] at headed
      exact absurd same ((new_stuck hm full).run_differs rfl rfl headed)
    · obtain ⟨data, rest, rfl⟩ := head_addHeader full headed
      rw [run_cons, run_cons] at same
      exact ⟨data, rest, rfl, (first_header hm full data).1 (List.cons.inj same).1⟩
  · rintro (h | ⟨data, rest, rfl, long⟩)
    · exact (Prod.mk.inj (run_unheaded (Or.inr h) true)).1
    · have room : m.maxSize ≠ 0 := by
        have := long.1
        omega
      rw [run_cons, run_cons, call, call, (first_header hm room data).2 long]

/-- After the first calls and `reset` the second calls show what they show on a new writer of the same page. -/
def FreshAfterReset (m : Memory) (first second : List WriteCall) : Prop :=
  (((new m).run first).2.reset.run second).1 = ((new ((new m).run first).2.mem).run second).1

end WriteBufferView

open WriteBufferView

/-- The flag is not reset: what comes first after `reset` is only the same if no header was begun before, or if no
header is begun, or if the page is filled with the delimiter that is written before the header. -/
theorem reset_fresh (m : Memory) (first second : List WriteCall) : FreshAfterReset m first second ↔
    m.isMapped = false ∨ ¬WritesHeader m first ∨ ¬WritesHeader m second ∨
      ∃ data rest, second = .addHeader data :: rest ∧ Overlong m data := by
  have on := run_onward (WriteBufferView.new m) first
  have size : ((WriteBufferView.new m).run first).2.mem.maxSize = m.maxSize := on.size
  rw [FreshAfterReset, reset_eq]
  by_cases h : m.isMapped = false ∨ ¬WritesHeader m first
  · rw [run_flag h]
    exact iff_of_true rfl (h.imp_right Or.inl)
  · obtain ⟨hm, headed⟩ := not_or.mp h
    have hm' : m.isMapped = true := by simpa using hm
    have same := run_begun_iff (on.mapped.trans hm') second
    simp only [begun_zero, writesHeader_congr size, overlong_congr size] at same
    rw [run_headed hm' (not_not.mp headed)]
    simpa [hm', not_not.mp headed] using same

/-- After `reset` the first header stands behind a delimiter. -/
theorem reset_keeps_flag :
    (((WriteBufferView.new twoBytes).run [.addHeader (oneChar 97)]).2.reset.run [.addHeader (oneChar 98)]).1 =
        [⟨true, 2, [9, 98]⟩] ∧
      ((WriteBufferView.new ((WriteBufferView.new twoBytes).run [.addHeader (oneChar 97)]).2.mem).run
        [.addHeader (oneChar 98)]).1 = [⟨true, 1, [98, 7]⟩] ∧
      ¬FreshAfterReset twoBytes [.addHeader (oneChar 97)] [.addHeader (oneChar 98)] :=
  ⟨by decide, by decide, by unfold FreshAfterReset; decide⟩

end Ripc
