import Ripc.Submem

namespace Ripc

namespace Memory

variable {m : Memory} {ch seg tail : List UInt8} {d : UInt8} {pos offset : Nat}

theorem bytes_of_mapped (hm : m.isMapped = true) :
    m.addr = some m.bytes ∧ m.bytes.length = m.maxSize := by
  obtain ⟨l, ha, hl⟩ := m.block hm
  have hb : m.bytes = l := by simp [bytes, ha]
  exact ⟨ha.trans (congrArg some hb.symm), hb ▸ hl⟩

theorem atDelim_mem {endB : Nat} {b : UInt8} (h : b ∈ ch) : atDelim ch endB b pos = some pos := by
  induction ch with
  | nil => cases h
  | cons c ch ih =>
    simp only [atDelim, List.findSome?_cons] at ih ⊢
    by_cases hc : b = c
    · simp [hc]
    · by_cases he : pos = endB
      · simp [hc, he]
      · simpa [hc, he] using ih ((List.mem_cons.mp h).resolve_left hc)

theorem atDelim_notMem {endB : Nat} {b : UInt8} (h : b ∉ ch) (hp : pos ≠ endB) :
    atDelim ch endB b pos = none := by
  simp only [atDelim, List.findSome?_eq_none_iff]
  intro c hc
  have hne : b ≠ c := fun he => h (he ▸ hc)
  rw [if_neg hne, if_neg hp]

theorem scan_found {endB : Nat} (hseg : ∀ b ∈ seg, b ∉ ch) (hd : d ∈ ch)
    (hb : pos + seg.length < endB) : scan ch endB (seg ++ d :: tail) pos = .ok (pos + seg.length) := by
  induction seg generalizing pos with
  | nil => simp [scan, atDelim_mem hd]
  | cons b seg ih =>
    rw [List.length_cons] at hb ⊢
    have next : scan ch endB (seg ++ d :: tail) (pos + 1) = .ok (pos + 1 + seg.length) :=
      ih (fun c hc => hseg c (List.mem_cons_of_mem _ hc)) (by omega)
    simp only [List.cons_append, scan, atDelim_notMem (hseg b (by simp)) (by omega : pos ≠ endB), next]
    congr 1
    omega

theorem scan_outside {endB : Nat} (hseg : ∀ b ∈ seg, b ∉ ch) (hl : pos + seg.length = endB) :
    scan ch endB seg pos = .error (.outside endB) := by
  induction seg generalizing pos with
  | nil =>
    rw [List.length_nil, Nat.add_zero] at hl
    rw [scan, hl]
  | cons b seg ih =>
    rw [List.length_cons] at hl
    have next : scan ch endB seg (pos + 1) = .error (.outside endB) :=
      ih (fun c hc => hseg c (List.mem_cons_of_mem _ hc)) (by omega)
    simp only [scan, atDelim_notMem (hseg b (by simp)) (by omega : pos ≠ endB), next]

theorem findAny_mapped (hm : m.isMapped = true) (ho : offset < m.maxSize) : m.findAny offset ch =
    (scan ch m.maxSize (m.bytes.drop offset) offset >>= fun pos => .ok (some pos)) := by
  simp [findAny, hm, (bytes_of_mapped hm).1, Nat.not_le.mpr ho]

theorem findAny_found (ch : List UInt8) (hm : m.isMapped = true) (h : m.bytes.drop offset = seg ++ d :: tail)
    (hseg : ∀ b ∈ seg, b ∉ ch) (hd : d ∈ ch) : m.findAny offset ch = .ok (some (offset + seg.length)) := by
  have hl := lt_length_of_drop h
  rw [(bytes_of_mapped hm).2] at hl
  rw [findAny_mapped hm (by omega), h, scan_found hseg hd hl, ok_bind]

theorem findAny_outside (ch : List UInt8) (hm : m.isMapped = true) (ho : offset < m.maxSize)
    (h : ∀ b ∈ m.bytes.drop offset, b ∉ ch) : m.findAny offset ch = .error (.outside m.maxSize) := by
  have hl : offset + (m.bytes.drop offset).length = m.maxSize := by
    rw [List.length_drop, (bytes_of_mapped hm).2]
    omega
  rw [findAny_mapped hm ho, scan_outside h hl, error_bind]

theorem findAny_null (ho : m.maxSize ≤ offset) : m.findAny offset ch = .ok none := by
  simp [findAny, ho]

theorem load_found (h : m.bytes.drop offset = seg ++ d :: tail) :
    m.load (offset + seg.length) = .ok d := by
  have hd : m.bytes[offset + seg.length]? = some d := by
    rw [← List.getElem?_drop, h]
    simp
  rw [load, hd]

theorem found_ne_endPos (hm : m.isMapped = true) (h : m.bytes.drop offset = seg ++ d :: tail) :
    some (offset + seg.length) ≠ m.endPos := by
  have hl := lt_length_of_drop h
  rw [(bytes_of_mapped hm).2] at hl
  exact fun he => by simp [endPos] at he; omega

theorem text_view (h : m.bytes.drop offset = seg ++ tail) : m.text ⟨offset, seg.length⟩ = seg := by
  simp [text, h]

end Memory

namespace ReadBufferView

open BufferView Memory

def headerEnds : List UInt8 := [headerDelimeter, memoryDelimeter, memoryFinalizer]

variable {r : ReadBufferView} {seg tail : List UInt8} {d : UInt8}

theorem getHeader_finalized (h : r.memoryFinalized = true ∨ r.headersFinalized = true) :
    r.getHeader = .ok (none, r) := by
  rcases h with h | h <;> simp [getHeader, h]

theorem getHeader_found (hm : r.mem.isMapped = true) (hh : r.headersFinalized = false)
    (hf : r.memoryFinalized = false) (h : r.mem.bytes.drop r.currentSize = seg ++ d :: tail)
    (hseg : ∀ b ∈ seg, b ∉ headerEnds) (hd : d ∈ headerEnds) : r.getHeader =
      .ok (if d = memoryFinalizer then none else some ⟨r.currentSize, seg.length⟩,
        { r with
          currentSize := r.currentSize + (seg.length + 1)
          headersFinalized := decide (d ≠ headerDelimeter)
          memoryFinalized := decide (d = memoryFinalizer) }) := by
  have hfind := findAny_found headerEnds hm h hseg hd
  simp only [headerEnds] at hfind
  simp only [getHeader, hf, hh, hm, hfind, ok_bind, found_ne_endPos hm h, pointer, load_found h,
    Bool.not_true, Bool.false_eq_true, if_false, Nat.add_sub_cancel_left]
  simp only [headerEnds, List.mem_cons, List.not_mem_nil, or_false] at hd
  rcases hd with rfl | rfl | rfl <;> simp [headerDelimeter, memoryDelimeter, memoryFinalizer]

theorem finalizeHeader_finalized (h : r.headersFinalized = true) :
    r.finalizeHeader = .ok (true, r) := by
  by_cases hf : r.memoryFinalized = true <;> simp [finalizeHeader, h, hf]

theorem finalizeHeader_found (hm : r.mem.isMapped = true) (hh : r.headersFinalized = false)
    (hf : r.memoryFinalized = false)
    (h : r.mem.bytes.drop r.currentSize = seg ++ memoryDelimeter :: tail)
    (hseg : memoryDelimeter ∉ seg) : r.finalizeHeader =
      .ok (true, { r with currentSize := r.currentSize + seg.length + 1, headersFinalized := true }) := by
  have hfind := findAny_found [memoryDelimeter] hm h
    (fun b hb he => hseg (List.mem_singleton.mp he ▸ hb)) (by simp)
  simp only [finalizeHeader, hf, hh, hm, find, hfind, ok_bind, found_ne_endPos hm h, pointer,
    load_found h, Bool.not_true, Bool.false_eq_true, if_false, if_true, reduceCtorEq, or_self]

theorem finalizeHeader_outside (hm : r.mem.isMapped = true) (hh : r.headersFinalized = false)
    (hf : r.memoryFinalized = false) (ho : r.currentSize < r.mem.maxSize)
    (h : memoryDelimeter ∉ r.mem.bytes.drop r.currentSize) :
    r.finalizeHeader = .error (.outside r.mem.maxSize) := by
  have hfind := findAny_outside [memoryDelimeter] hm ho
    (fun b hb he => h (List.mem_singleton.mp he ▸ hb))
  simp [finalizeHeader, hf, hh, hm, find, hfind]

theorem getPayload_error (hh : r.headersFinalized = false) (hf : r.memoryFinalized = false)
    {e : MemoryFault} (hc : r.finalizeHeader = .error e) : r.getPayload = .error e := by
  simp [getPayload, hh, hf, hc]

theorem getPayload_open (hh : r.headersFinalized = false) (hf : r.memoryFinalized = false)
    {r' : ReadBufferView} (hc : r.finalizeHeader = .ok (true, r')) (hh' : r'.headersFinalized = true)
    (hf' : r'.memoryFinalized = false) : r.getPayload = r'.getPayload := by
  simp [getPayload, hh, hf, hc, hh', hf']

theorem getPayload_found (hm : r.mem.isMapped = true) (hh : r.headersFinalized = true)
    (hf : r.memoryFinalized = false)
    (h : r.mem.bytes.drop r.currentSize = seg ++ memoryFinalizer :: tail)
    (hseg : memoryFinalizer ∉ seg) : r.getPayload =
      .ok (some ⟨r.currentSize, seg.length⟩,
        { r with currentSize := r.currentSize + seg.length, memoryFinalized := true }) := by
  have hfind := findAny_found [memoryFinalizer] hm h
    (fun b hb he => hseg (List.mem_singleton.mp he ▸ hb)) (by simp)
  simp only [getPayload, hf, hh, hm, find, hfind, ok_bind, pointer, load_found h, Bool.not_true,
    Bool.false_eq_true, if_false, if_true, Nat.add_sub_cancel_left]

end ReadBufferView

end Ripc
