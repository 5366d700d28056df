import Mathlib.Algebra.GroupWithZero.Nat
import Ripc.Block
import Ripc.Result

namespace Ripc

def sizeModulus : Nat := 2 ^ 64

def sizeMax : Nat := sizeModulus - 1

/-- Addition of `size_t` wraps. -/
def sizeAdd (a b : Nat) : Nat := (a + b) % sizeModulus

/-- The characters of a `std::string`, at most `PTRDIFF_MAX` of them. -/
structure StdString where
  chars : List UInt8
  fits : chars.length < 2 ^ 63
  deriving DecidableEq

namespace StdString

def length (s : StdString) : Nat := s.chars.length

theorem length_lt_sizeMax (s : StdString) : s.length < sizeMax :=
  Nat.lt_trans s.fits (by decide)

end StdString

/-- What a program may not do with the address of the shared page. -/
inductive MemoryFault
  /-- It inspects the byte at this index, which is not in the mapping. -/
  | outside (index : Nat)
  /-- It follows a null pointer or computes with one. -/
  | nullPointer
  deriving DecidableEq, Repr

/-- A shared page. Pointers into it are given by their distance from `addr`; while it is mapped
there are `maxSize` bytes. -/
structure Memory where
  addr : Option (List UInt8)
  maxSize : Nat
  isMapped : Bool
  block : isMapped = true → ∃ bytes, addr = some bytes ∧ bytes.length = maxSize
  maxSize_lt : maxSize < sizeModulus

/-- A part of the page. -/
structure StringView where
  start : Nat
  size : Nat
  deriving DecidableEq, Repr

namespace Memory

def bytes (m : Memory) : List UInt8 := m.addr.getD []

/-- A mapped page with the given contents. -/
def ofBytes (bytes : List UInt8) (h : bytes.length < sizeModulus) : Memory :=
  ⟨some bytes, bytes.length, true, fun _ => ⟨bytes, rfl, rfl⟩, h⟩

def load (m : Memory) (i : Nat) : Except MemoryFault UInt8 :=
  match m.bytes[i]? with
  | some b => .ok b
  | none => .error (.outside i)

def store (m : Memory) (i : Nat) (data : List UInt8) : Memory :=
  { m with
    addr := m.addr.map (overwrite · i data)
    block := fun h => by
      obtain ⟨bytes, ha, hl⟩ := m.block h
      exact ⟨overwrite bytes i data, by simp [ha], by simpa using hl⟩ }

def endPos (m : Memory) : Option Nat := some m.maxSize

/-- The inner loop of `find`: each delimiter is compared before the position is compared with the
end. -/
def atDelim (ch : List UInt8) (endB : Nat) (b : UInt8) (pos : Nat) : Option Nat :=
  ch.findSome? fun c => if b = c then some pos else if pos = endB then some endB else none

/-- The outer loop of `find`; `bytes` are the bytes that can be read from `pos` on. -/
def scan (ch : List UInt8) (endB : Nat) : List UInt8 → Nat → Except MemoryFault Nat
  | [], pos => .error (.outside pos)
  | b :: bytes, pos =>
    match atDelim ch endB b pos with
    | some p => .ok p
    | none => scan ch endB bytes (pos + 1)

/-- `find(offset, ch, len)`, for at least one delimiter. -/
def findAny (m : Memory) (offset : Nat) (ch : List UInt8) : Except MemoryFault (Option Nat) :=
  if !m.isMapped then .ok none
  else if m.addr.isNone then .ok none
  else if offset ≥ m.maxSize then .ok none
  else do
    let pos ← scan ch m.maxSize (m.bytes.drop offset) offset
    .ok (some pos)

def find (m : Memory) (offset : Nat) (ch : UInt8) : Except MemoryFault (Option Nat) :=
  m.findAny offset [ch]

/-- The number of bytes written, `(size_t)-1` when the check of the arguments fails. -/
def write (m : Memory) (offset : Nat) (buffer : StdString) : Nat × Memory :=
  if !m.isMapped then (sizeMax, m)
  else if m.addr.isNone then (sizeMax, m)
  else if offset ≥ m.maxSize then (sizeMax, m)
  else
    let availableSpace := m.maxSize - offset
    let writeLen := min buffer.length availableSpace
    (writeLen, if writeLen > 0 then m.store offset (buffer.chars.take writeLen) else m)

def add (m : Memory) (offset : Nat) (ch : UInt8) : Bool × Memory :=
  if !m.isMapped then (false, m)
  else if m.addr.isNone then (false, m)
  else if offset ≥ m.maxSize then (false, m)
  else (true, m.store offset [ch])

def text (m : Memory) (v : StringView) : List UInt8 := (m.bytes.drop v.start).take v.size

end Memory

/-- A pointer that is used as an address. -/
def pointer : Option Nat → Except MemoryFault Nat
  | some p => .ok p
  | none => .error .nullPointer

structure BufferView where
  mem : Memory
  currentSize : Nat
  headersFinalized : Bool
  memoryFinalized : Bool

namespace BufferView

def headerDelimeter : UInt8 := 9
def memoryDelimeter : UInt8 := 10
def memoryFinalizer : UInt8 := 0

def new (mem : Memory) : BufferView := ⟨mem, 0, false, false⟩

end BufferView

structure WriteBufferView extends BufferView where
  headersInitialized : Bool

namespace WriteBufferView

open BufferView

def new (mem : Memory) : WriteBufferView := ⟨.new mem, false⟩

def addChar (w : WriteBufferView) (ch : UInt8) : Bool × WriteBufferView :=
  match w.mem.add w.currentSize ch with
  | (true, mem) => (true, { w with mem, currentSize := w.currentSize + 1 })
  | (false, _) => (false, w)

/-- The text of a header; it is added only if all of it was written. -/
def writeHeader (w : WriteBufferView) (data : StdString) : Bool × WriteBufferView :=
  let (size, mem) := w.mem.write w.currentSize data
  (size == data.length,
    { w with mem, currentSize := sizeAdd w.currentSize size, headersInitialized := true })

def addHeader (w : WriteBufferView) (data : StdString) : Bool × WriteBufferView :=
  if w.memoryFinalized then (false, w)
  else if w.headersFinalized then (false, w)
  else if !w.mem.isMapped then (false, w)
  else
    -- no delimiter before the first header
    match if w.headersInitialized then w.addChar headerDelimeter else (true, w) with
    | (false, w) => (false, w)
    | (true, w) => w.writeHeader data

def finalizeHeader (w : WriteBufferView) : Bool × WriteBufferView :=
  if w.memoryFinalized then (w.headersFinalized, w)
  else if w.headersFinalized then (true, w)
  else if !w.mem.isMapped then (false, w)
  else
    match w.addChar memoryDelimeter with
    | (false, w) => (false, w)
    | (true, w) => (true, { w with headersFinalized := true })

/-- Both ends of a message first see to it that the header section is closed. -/
def closeHeaders (w : WriteBufferView) : Bool × WriteBufferView :=
  if !w.headersFinalized then w.finalizeHeader else (true, w)

def finalizePayload (w : WriteBufferView) : Bool × WriteBufferView :=
  if w.mem.addr.isNone || !w.mem.isMapped then (false, w)
  else if w.memoryFinalized then (true, w)
  else
    match w.closeHeaders with
    | (false, w) => (false, w)
    | (true, w) =>
      match w.addChar memoryFinalizer with
      | (false, w) => (false, w)
      | (true, w) => (true, { w with memoryFinalized := true })

def setPayload (w : WriteBufferView) (data : StdString) : Bool × WriteBufferView :=
  if w.memoryFinalized then (false, w)
  else
    match w.closeHeaders with
    | (false, w) => (false, w)
    | (true, w) =>
      let (size, mem) := w.mem.write w.currentSize data
      -- `size <= 0` on an unsigned `size`
      if size ≤ 0 then (false, { w with mem })
      else { w with mem, currentSize := sizeAdd w.currentSize size : WriteBufferView }.finalizePayload

end WriteBufferView

structure ReadBufferView extends BufferView

namespace ReadBufferView

open BufferView

def new (mem : Memory) : ReadBufferView := ⟨.new mem⟩

def getHeader (r : ReadBufferView) : Except MemoryFault (Option StringView × ReadBufferView) :=
  if r.memoryFinalized then .ok (none, r)
  else if r.headersFinalized then .ok (none, r)
  else if !r.mem.isMapped then .ok (none, r)
  else do
    let start := r.currentSize
    let last ← r.mem.findAny r.currentSize [headerDelimeter, memoryDelimeter, memoryFinalizer]
    if last = r.mem.endPos then .ok (none, r)
    else
      let pos ← pointer last
      let size := pos - start
      let ch ← r.mem.load pos
      if ch = headerDelimeter then
        .ok (some ⟨start, size⟩, { r with currentSize := r.currentSize + (size + 1) })
      else if ch = memoryDelimeter then
        .ok (some ⟨start, size⟩,
          { r with currentSize := r.currentSize + (size + 1), headersFinalized := true })
      else if ch = memoryFinalizer then
        .ok (none,
          { r with
            currentSize := r.currentSize + (size + 1)
            headersFinalized := true
            memoryFinalized := true })
      else .ok (none, r)

def finalizeHeader (r : ReadBufferView) : Except MemoryFault (Bool × ReadBufferView) :=
  if r.memoryFinalized then .ok (r.headersFinalized, r)
  else if r.headersFinalized then .ok (true, r)
  else if !r.mem.isMapped then .ok (false, r)
  else do
    let delim ← r.mem.find r.currentSize memoryDelimeter
    if delim = none ∨ delim = r.mem.endPos then .ok (false, r)
    else
      let pos ← pointer delim
      let ch ← r.mem.load pos
      if ch = memoryDelimeter then
        .ok (true, { r with currentSize := pos + 1, headersFinalized := true })
      else .ok (false, r)

def getPayload (r : ReadBufferView) : Except MemoryFault (Option StringView × ReadBufferView) :=
  if r.memoryFinalized then .ok (none, r)
  else do
    let (closed, r) ← if !r.headersFinalized then r.finalizeHeader else .ok (true, r)
    if !closed then .ok (none, r)
    else if !r.mem.isMapped then .ok (none, r)
    else
      let start := r.currentSize
      let last ← r.mem.find r.currentSize memoryFinalizer
      let pos ← pointer last
      let ch ← r.mem.load pos
      if ch = memoryFinalizer then
        let size := pos - start
        .ok (some ⟨start, size⟩,
          { r with currentSize := r.currentSize + size, memoryFinalized := true })
      else .ok (none, r)

def finalizePayload (r : ReadBufferView) : Except MemoryFault (Bool × ReadBufferView) :=
  if r.mem.addr.isNone || !r.mem.isMapped then .ok (false, r)
  else if r.memoryFinalized then .ok (true, r)
  else do
    let r := { r with headersFinalized := true }
    let delim ← r.mem.find r.currentSize memoryFinalizer
    if delim = none then .ok (false, r)
    else
      let pos ← pointer delim
      let ch ← r.mem.load pos
      if ch = memoryFinalizer ∨ delim = r.mem.endPos then
        .ok (true, { r with currentSize := r.mem.maxSize, memoryFinalized := true })
      else .ok (false, r)

end ReadBufferView

end Ripc
