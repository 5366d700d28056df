import Ripc.ReadBuffer

namespace Ripc

namespace Memory

variable {m : Memory} {pre rest : List UInt8}

@[simp] theorem write_maxSize (m : Memory) (i : Nat) (data : StdString) :
    (m.write i data).2.maxSize = m.maxSize := by
  simp only [write]
  repeat' split
  all_goals rfl

@[simp] theorem add_maxSize (m : Memory) (i : Nat) (ch : UInt8) :
    (m.add i ch).2.maxSize = m.maxSize := by
  simp only [add]
  repeat' split
  all_goals rfl

theorem store_bytes (data : List UInt8) (hm : m.isMapped = true) (hb : m.bytes = pre ++ rest)
    (hl : data.length ≤ rest.length) :
    (m.store pre.length data).bytes = pre ++ (data ++ rest.drop data.length) := by
  obtain ⟨l, ha, -⟩ := m.block hm
  have hl' : l = pre ++ rest := by simpa [bytes, ha] using hb
  simp [bytes, store, ha, hl', overwrite_append hl]

theorem maxSize_of_bytes (hm : m.isMapped = true) (hb : m.bytes = pre ++ rest) :
    m.maxSize = pre.length + rest.length := by
  rw [← (bytes_of_mapped hm).2, hb, List.length_append]

theorem write_room (hm : m.isMapped = true) (hb : m.bytes = pre ++ rest) (hr : rest ≠ [])
    (data : StdString) : ∃ m', m.write pre.length data = (min data.length rest.length, m') ∧
      m'.isMapped = true ∧ m'.bytes = pre ++ (data.chars.take (min data.length rest.length) ++
        rest.drop (min data.length rest.length)) := by
  have hpos := List.length_pos_iff.mpr hr
  have hsize := maxSize_of_bytes hm hb
  have avail : m.maxSize - pre.length = rest.length := by omega
  have hlt : ¬m.maxSize ≤ pre.length := by omega
  simp only [write, hm, (bytes_of_mapped hm).1, Option.isNone_some, ge_iff_le, hlt, avail,
    Bool.not_true, Bool.false_eq_true, if_false]
  refine ⟨_, rfl, ?_, ?_⟩
  · split <;> exact hm
  · split
    next hk =>
      have hlen : (data.chars.take (min data.length rest.length)).length =
          min data.length rest.length := by
        rw [List.length_take, StdString.length]
        omega
      have stored := store_bytes (data.chars.take (min data.length rest.length)) hm hb
        (by omega)
      rwa [hlen] at stored
    next hk =>
      have zero : min data.length rest.length = 0 := by omega
      simpa [zero] using hb

theorem write_full (hm : m.isMapped = true) (hb : m.bytes = pre) (data : StdString) :
    m.write pre.length data = (sizeMax, m) := by
  have hsize : m.maxSize = pre.length + ([] : List UInt8).length :=
    maxSize_of_bytes hm (hb.trans (List.append_nil pre).symm)
  have hle : m.maxSize ≤ pre.length := by
    simp [hsize]
  simp [write, hm, (bytes_of_mapped hm).1, hle]

theorem add_room {b : UInt8} (hm : m.isMapped = true) (hb : m.bytes = pre ++ b :: rest)
    (ch : UInt8) : ∃ m', m.add pre.length ch = (true, m') ∧ m'.isMapped = true ∧
      m'.bytes = pre ++ ch :: rest := by
  have hsize := maxSize_of_bytes hm hb
  have hlt : ¬m.maxSize ≤ pre.length := by
    rw [hsize, List.length_cons]
    omega
  refine ⟨m.store pre.length [ch], ?_, hm, by simpa using store_bytes [ch] hm hb (by simp)⟩
  simp [add, hm, (bytes_of_mapped hm).1, hlt]

theorem add_full (hm : m.isMapped = true) (hb : m.bytes = pre) (ch : UInt8) :
    m.add pre.length ch = (false, m) := by
  have hsize : m.maxSize = pre.length + ([] : List UInt8).length :=
    maxSize_of_bytes hm (hb.trans (List.append_nil pre).symm)
  have hle : m.maxSize ≤ pre.length := by
    simp [hsize]
  simp [add, hm, (bytes_of_mapped hm).1, hle]

end Memory

theorem sizeAdd_eq {a b : Nat} (h : a + b < sizeModulus) : sizeAdd a b = a + b :=
  Nat.mod_eq_of_lt h

theorem sizeAdd_sizeMax {a : Nat} (h : a + 1 < sizeModulus) : sizeAdd (a + 1) sizeMax = a := by
  have pos : 0 < sizeModulus := by decide
  have hs : a + 1 + sizeMax = a + sizeModulus := by
    unfold sizeMax
    omega
  rw [sizeAdd, hs, Nat.add_mod_right, Nat.mod_eq_of_lt (Nat.lt_of_succ_lt h)]

namespace WriteBufferView

open BufferView Memory

/-- The writer stands behind `text`; `rest` is what the page still holds from before. -/
structure Wrote (w : WriteBufferView) (text rest : List UInt8) : Prop where
  mapped : w.mem.isMapped = true
  bytes : w.mem.bytes = text ++ rest
  here : w.currentSize = text.length

variable {w w' : WriteBufferView} {text rest : List UInt8} {headers : List (List UInt8)}

theorem Wrote.lt_modulus (hw : Wrote w text rest) : text.length + rest.length < sizeModulus :=
  maxSize_of_bytes hw.mapped hw.bytes ▸ w.mem.maxSize_lt

theorem addChar_room {b : UInt8} (hw : Wrote w text (b :: rest)) (ch : UInt8) :
    ∃ mem, w.addChar ch = (true, { w with mem, currentSize := w.currentSize + 1 }) ∧
      Wrote { w with mem, currentSize := w.currentSize + 1 } (text ++ [ch]) rest := by
  obtain ⟨mem, hadd, hm, hb⟩ := add_room hw.mapped hw.bytes ch
  refine ⟨mem, by simp [addChar, hw.here, hadd], hm, by simpa using hb, ?_⟩
  simp [hw.here]

theorem addChar_full (hw : Wrote w text []) (ch : UInt8) : w.addChar ch = (false, w) := by
  simp [addChar, hw.here, add_full hw.mapped (hw.bytes.trans (List.append_nil text)) ch]

/-- The writer has written these headers and nothing else. -/
structure Composing (w : WriteBufferView) (headers : List (List UInt8)) (rest : List UInt8) :
    Prop extends Wrote w (joined headerDelimeter headers) rest where
  open_headers : w.headersFinalized = false
  open_memory : w.memoryFinalized = false
  started : w.headersInitialized = decide (headers ≠ [])

/-- The header section is closed, the message is not. -/
structure Closed (w : WriteBufferView) (text rest : List UInt8) : Prop extends Wrote w text rest where
  closed_headers : w.headersFinalized = true
  open_memory : w.memoryFinalized = false

theorem new_composing {mem : Memory} (hm : mem.isMapped = true) :
    Composing (new mem) [] mem.bytes :=
  ⟨⟨hm, rfl, rfl⟩, rfl, rfl, rfl⟩

theorem writeHeader_ok (hw : Wrote w text rest) (data : StdString) :
    ((w.writeHeader data).1 = true ↔ rest ≠ [] ∧ data.length ≤ rest.length) ∧
      ((w.writeHeader data).1 = true →
        Wrote (w.writeHeader data).2 (text ++ data.chars) (rest.drop data.length)) := by
  have hlt := data.length_lt_sizeMax
  by_cases hr : rest = []
  · subst hr
    have full := write_full hw.mapped (hw.bytes.trans (List.append_nil text)) data
    have no : ¬(w.writeHeader data).1 = true := by
      simp only [writeHeader, hw.here, full, beq_iff_eq]
      omega
    exact ⟨⟨fun h => absurd h no, fun h => absurd rfl h.1⟩, fun h => absurd h no⟩
  · obtain ⟨mem, hwrite, hm, hb⟩ := write_room hw.mapped hw.bytes hr data
    simp only [writeHeader, hw.here, hwrite, beq_iff_eq]
    refine ⟨⟨fun h => ⟨hr, by omega⟩, fun h => by omega⟩, fun h => ⟨hm, ?_, ?_⟩⟩
    · have take : data.chars.take data.length = data.chars := List.take_of_length_le (Nat.le_refl _)
      rw [hb, h, take, List.append_assoc]
    · have small : text.length + data.length < sizeModulus := by
        have := hw.lt_modulus
        omega
      rw [h, sizeAdd_eq small, List.length_append]
      rfl

theorem addHeader_first (hc : Composing w [] rest) (data : StdString) :
    w.addHeader data = w.writeHeader data := by
  simp [addHeader, hc.open_memory, hc.open_headers, hc.mapped, hc.started]

theorem addHeader_next (hc : Composing w headers rest) (hne : headers ≠ []) (data : StdString)
    (hadd : w.addChar headerDelimeter = (true, w')) : w.addHeader data = w'.writeHeader data := by
  simp [addHeader, hc.open_memory, hc.open_headers, hc.mapped, hc.started, hne, hadd]

theorem addHeader_full (hc : Composing w headers []) (hne : headers ≠ []) (data : StdString) :
    (w.addHeader data).1 = false := by
  simp [addHeader, hc.open_memory, hc.open_headers, hc.mapped, hc.started, hne,
    addChar_full hc.toWrote]

/-- An accepted header stands behind the others. -/
theorem addHeader_true (hc : Composing w headers rest) (data : StdString)
    (h : (w.addHeader data).1 = true) :
    ∃ rest', Composing (w.addHeader data).2 (headers ++ [data.chars]) rest' := by
  by_cases hne : headers = []
  · subst hne
    rw [addHeader_first hc] at h ⊢
    have wrote := (writeHeader_ok hc.toWrote data).2 h
    exact ⟨_, ⟨by simpa using wrote, hc.open_headers, hc.open_memory, rfl⟩⟩
  · cases rest with
    | nil => exact absurd h (by simp [addHeader_full hc hne])
    | cons b rest =>
      obtain ⟨mem, hadd, hw⟩ := addChar_room hc.toWrote headerDelimeter
      rw [addHeader_next hc hne data hadd] at h ⊢
      have wrote := (writeHeader_ok hw data).2 h
      exact ⟨_, ⟨by simpa [joined_append, hne] using wrote, hc.open_headers, hc.open_memory,
        by simp [writeHeader]⟩⟩

theorem addHeader_fits (hc : Composing w headers rest) {data : StdString}
    (room : (joined headerDelimeter (headers ++ [data.chars])).length < w.mem.maxSize) :
    (w.addHeader data).1 = true := by
  have hsize := maxSize_of_bytes hc.mapped hc.bytes
  rw [joined_append, hsize, List.length_append] at room
  by_cases hne : headers = []
  · subst hne
    rw [addHeader_first hc]
    have hlen : data.length < rest.length := by simpa [StdString.length] using room
    exact (writeHeader_ok hc.toWrote data).1.mpr
      ⟨List.ne_nil_of_length_pos (by omega), by omega⟩
  · have hlen : data.length + 1 < rest.length := by
      have : data.chars.length = data.length := rfl
      simp [hne] at room
      omega
    cases rest with
    | nil => simp at hlen
    | cons b rest =>
      obtain ⟨mem, hadd, hw⟩ := addChar_room hc.toWrote headerDelimeter
      rw [addHeader_next hc hne data hadd]
      rw [List.length_cons] at hlen
      exact (writeHeader_ok hw data).1.mpr ⟨List.ne_nil_of_length_pos (by omega), by omega⟩

def addHeaders (w : WriteBufferView) : List StdString → List Bool × WriteBufferView
  | [] => ([], w)
  | header :: headers =>
    let (b, w) := w.addHeader header
    let (bs, w) := addHeaders w headers
    (b :: bs, w)

theorem addHeaders_true (hc : Composing w headers rest) {added : List StdString}
    (h : ∀ b ∈ (w.addHeaders added).1, b = true) :
    ∃ rest', Composing (w.addHeaders added).2 (headers ++ added.map StdString.chars) rest' := by
  induction added generalizing w headers rest with
  | nil => exact ⟨rest, by simpa [addHeaders] using hc⟩
  | cons data added ih =>
    obtain ⟨rest', hc'⟩ := addHeader_true hc data (h _ (by simp [addHeaders]))
    obtain ⟨rest'', hc''⟩ := ih hc' fun b hb => h b (by simp [addHeaders, hb])
    exact ⟨rest'', by simpa [addHeaders] using hc''⟩

theorem addChar_maxSize (w : WriteBufferView) (ch : UInt8) :
    (w.addChar ch).2.mem.maxSize = w.mem.maxSize := by
  have kept := add_maxSize w.mem w.currentSize ch
  simp only [addChar]
  split
  next hadd => simpa [hadd] using kept
  next => rfl

theorem addHeader_maxSize (w : WriteBufferView) (data : StdString) :
    (w.addHeader data).2.mem.maxSize = w.mem.maxSize := by
  simp only [addHeader]
  split
  next => rfl
  next =>
    split
    next => rfl
    next =>
      split
      next => rfl
      next =>
        have kept : ∀ b w', (if w.headersInitialized then w.addChar headerDelimeter else (true, w)) =
            (b, w') → w'.mem.maxSize = w.mem.maxSize := by
          intro b w' h
          split at h
          next => simpa [h] using addChar_maxSize w headerDelimeter
          next => cases h; rfl
        split
        next h => exact kept _ _ h
        next h => simpa [writeHeader] using kept _ _ h

theorem addHeaders_maxSize (w : WriteBufferView) (added : List StdString) :
    (w.addHeaders added).2.mem.maxSize = w.mem.maxSize := by
  induction added generalizing w with
  | nil => rfl
  | cons data added ih => exact (ih _).trans (addHeader_maxSize w data)

theorem addHeaders_fit (hc : Composing w headers rest) {added : List StdString}
    (room : (joined headerDelimeter (headers ++ added.map StdString.chars)).length < w.mem.maxSize) :
    ∀ b ∈ (w.addHeaders added).1, b = true := by
  induction added generalizing w headers rest with
  | nil => simp [addHeaders]
  | cons data added ih =>
    have split : headers ++ (data :: added).map StdString.chars =
        (headers ++ [data.chars]) ++ added.map StdString.chars := by simp
    rw [split] at room
    have first : (w.addHeader data).1 = true := by
      refine addHeader_fits hc (Nat.lt_of_le_of_lt ?_ room)
      rw [joined_length, joined_length]
      simp only [List.map_append, List.sum_append, List.length_append]
      omega
    obtain ⟨rest', hc'⟩ := addHeader_true hc data first
    intro b hb
    rcases List.mem_cons.mp hb with rfl | hb
    · exact first
    · exact ih hc' (by rwa [addHeader_maxSize]) b hb

theorem closeHeaders_room {b : UInt8} (hc : Composing w headers (b :: rest)) :
    ∃ w', w.closeHeaders = (true, w') ∧
      Closed w' (joined headerDelimeter headers ++ [memoryDelimeter]) rest := by
  obtain ⟨mem, hadd, hw⟩ := addChar_room hc.toWrote memoryDelimeter
  refine ⟨{ w with mem, currentSize := w.currentSize + 1, headersFinalized := true }, ?_,
    ⟨hw.mapped, hw.bytes, hw.here⟩, rfl, hc.open_memory⟩
  simp [closeHeaders, finalizeHeader, hc.open_headers, hc.open_memory, hc.mapped, hadd]

theorem closeHeaders_full (hc : Composing w headers []) : w.closeHeaders = (false, w) := by
  simp [closeHeaders, finalizeHeader, hc.open_headers, hc.open_memory, hc.mapped,
    addChar_full hc.toWrote]

theorem Closed.closeHeaders (hc : Closed w text rest) : w.closeHeaders = (true, w) := by
  simp [WriteBufferView.closeHeaders, hc.closed_headers]

theorem finalizePayload_room {b : UInt8} (hc : Closed w text (b :: rest)) :
    ∃ w', w.finalizePayload = (true, w') ∧ w'.mem.isMapped = true ∧ w'.memoryFinalized = true ∧
      w'.mem.bytes = text ++ memoryFinalizer :: rest := by
  obtain ⟨mem, hadd, hw⟩ := addChar_room hc.toWrote memoryFinalizer
  refine ⟨{ w with mem, currentSize := w.currentSize + 1, memoryFinalized := true }, ?_, hw.mapped,
    rfl, hw.bytes.trans (by simp)⟩
  simp [finalizePayload, (bytes_of_mapped hc.mapped).1, hc.mapped, hc.open_memory, hc.closeHeaders,
    hadd]

theorem finalizePayload_full (hc : Closed w text []) : (w.finalizePayload).1 = false := by
  simp [finalizePayload, (bytes_of_mapped hc.mapped).1, hc.mapped, hc.open_memory, hc.closeHeaders,
    addChar_full hc.toWrote]

theorem finalizePayload_twice (hm : w.mem.isMapped = true) (hf : w.memoryFinalized = true) :
    w.finalizePayload = (true, w) := by
  simp [finalizePayload, (bytes_of_mapped hm).1, hm, hf]

theorem finalizePayload_composing {old : List UInt8} (hc : Composing w headers old)
    (h : w.closeHeaders = (true, w')) (hc' : Closed w' text rest) :
    w.finalizePayload = w'.finalizePayload := by
  simp [finalizePayload, (bytes_of_mapped hc.mapped).1, hc.mapped, hc.open_memory, h,
    (bytes_of_mapped hc'.mapped).1, hc'.mapped, hc'.open_memory, hc'.closeHeaders]

theorem setPayload_composing {old : List UInt8} (hc : Composing w headers old)
    (h : w.closeHeaders = (true, w')) (hc' : Closed w' text rest) (payload : StdString) :
    w.setPayload payload = w'.setPayload payload := by
  simp [setPayload, hc.open_memory, h, hc'.open_memory, hc'.closeHeaders]

theorem setPayload_wrote (hc : Closed w text rest) {payload : StdString} {size : Nat} {mem : Memory}
    (hwrite : w.mem.write w.currentSize payload = (size, mem)) (hs : 0 < size) :
    w.setPayload payload =
      { w with mem, currentSize := sizeAdd w.currentSize size : WriteBufferView }.finalizePayload := by
  have positive : ¬size ≤ 0 := Nat.not_le.mpr hs
  simp only [setPayload, hc.open_memory, hc.closeHeaders, hwrite, positive, Bool.false_eq_true,
    if_false]

theorem setPayload_room (hc : Closed w text rest) (hr : rest ≠ []) {payload : StdString}
    (hp : payload.chars ≠ []) : ∃ w', w.setPayload payload = w'.finalizePayload ∧
      Closed w' (text ++ payload.chars.take (min payload.length rest.length))
        (rest.drop (min payload.length rest.length)) := by
  obtain ⟨mem, hwrite, hm, hb⟩ := write_room hc.mapped hc.bytes hr payload
  have some_bytes : 0 < min payload.length rest.length := by
    have := List.length_pos_iff.mpr hr
    have : 0 < payload.length := List.length_pos_iff.mpr hp
    omega
  have small : text.length + min payload.length rest.length < sizeModulus := by
    have := hc.lt_modulus
    omega
  refine ⟨_, setPayload_wrote hc (hc.here.symm ▸ hwrite) some_bytes,
    ⟨hm, by rw [hb, List.append_assoc], ?_⟩, hc.closed_headers, hc.open_memory⟩
  have hlen : payload.chars.length = payload.length := rfl
  simp only [hc.here, sizeAdd_eq small, List.length_append, List.length_take, hlen]
  omega

theorem setPayload_fits (hc : Closed w text rest) {payload : StdString} (hp : payload.chars ≠ [])
    (fits : payload.length < rest.length) : ∃ w', w.setPayload payload = (true, w') ∧
      w'.mem.isMapped = true ∧ w'.memoryFinalized = true ∧ ∃ rest',
        w'.mem.bytes = text ++ (payload.chars ++ memoryFinalizer :: rest') := by
  obtain ⟨w', hset, hc'⟩ := setPayload_room hc (List.ne_nil_of_length_pos (by omega)) hp
  rw [Nat.min_eq_left (Nat.le_of_lt fits)] at hc'
  obtain ⟨b, rest', hr⟩ := List.exists_cons_of_length_pos
    (l := rest.drop payload.length) (by rw [List.length_drop]; omega)
  rw [hr] at hc'
  obtain ⟨w'', hfin, hm, hf, hb⟩ := finalizePayload_room hc'
  have take : payload.chars.take payload.length = payload.chars :=
    List.take_of_length_le (Nat.le_refl _)
  exact ⟨w'', hset.trans hfin, hm, hf, rest', by rw [hb, take, List.append_assoc]⟩

theorem setPayload_cut (hc : Closed w text rest) (hr : rest ≠ []) {payload : StdString}
    (hp : payload.chars ≠ []) (cut : rest.length ≤ payload.length) :
    (w.setPayload payload).1 = false := by
  obtain ⟨w', hset, hc'⟩ := setPayload_room hc hr hp
  rw [Nat.min_eq_right cut, List.drop_length] at hc'
  rw [hset, finalizePayload_full hc']

theorem Closed.back {last : UInt8} (hc : Closed w (text ++ [last]) rest) {size : Nat}
    (hs : size = text.length) : Closed { w with currentSize := size } text (last :: rest) :=
  ⟨⟨hc.mapped, by simpa using hc.bytes, hs⟩, hc.closed_headers, hc.open_memory⟩

/-- Behind a section that fills the page the payload is refused by `write`, but the position moves
one byte back and the message is closed there, over the last character. -/
theorem setPayload_full {last : UInt8} (hc : Closed w (text ++ [last]) []) (payload : StdString) :
    ∃ w', w.setPayload payload = (true, w') ∧ w'.mem.isMapped = true ∧
      w'.mem.bytes = text ++ [memoryFinalizer] := by
  have full : w.mem.write w.currentSize payload = (sizeMax, w.mem) := by
    rw [hc.here]
    exact write_full hc.mapped (hc.bytes.trans (List.append_nil _)) payload
  have small : text.length + 1 < sizeModulus := by
    simpa using hc.lt_modulus
  have here : sizeAdd w.currentSize sizeMax = text.length := by
    rw [hc.here, List.length_append, List.length_singleton, sizeAdd_sizeMax small]
  obtain ⟨w', hfin, hm, -, hb⟩ := finalizePayload_room (hc.back here)
  have wrote := setPayload_wrote hc full (Nat.zero_lt_of_lt payload.length_lt_sizeMax)
  exact ⟨w', wrote.trans hfin, hm, hb⟩

end WriteBufferView

end Ripc
