import Ripc.Authored
import Ripc.DriverRuns

namespace Ripc

/-- A connection that was made, with the page frame of its sub-memory; `torn` tells that it has been torn down. -/
structure Link where
  conn : Ptr
  frame : Nat
  torn : Bool
  deriving DecidableEq

/-- The driver beside the memory; `made` are all connections in the order in which they were made, by whose places the
bytes name their authors. -/
structure Pages where
  drv : Drv
  mem : Authored (Nat × Fin shmRegionPageSize) UInt8 Nat
  made : List Link

inductive PageEvent
  | call (call : Call)
  /-- One end of a connection, through which it has mapped the page, writes a byte. -/
  | write (k : Nat) (offset : Fin shmRegionPageSize) (byte : UInt8)
  /-- The rest of the machine writes a byte. -/
  | other (frame : Nat) (offset : Fin shmRegionPageSize) (byte : UInt8)

def Drv.frameOf (s : Drv) (c : Connection) : Option Nat := (c.memP.bind s.subMem?).map SubMem.pages

/-- The frame has been allocated for a new pool. -/
def Drv.newFrame (s s' : Drv) (frame : Nat) : Bool :=
  s'.gShmList.entries.any fun e =>
    e.1 ∉ s.gShmList.keys ∧ e.2.pages ≤ frame ∧ frame < e.2.pages + 2 ^ shmRegionOrder

def Drv.newLinks (s s' : Drv) : List Link :=
  s'.gConnsList.entries.filterMap fun e =>
    if e.1 ∈ s.gConnsList.keys then none else (s'.frameOf e.2).map (⟨e.1, ·, false⟩)

def Link.after (s' : Drv) (l : Link) : Link := { l with torn := l.torn || decide (l.conn ∉ s'.gConnsList.keys) }

namespace Pages

def start (bytes : Nat × Fin shmRegionPageSize → UInt8) : Pages := ⟨Drv.init, ⟨bytes, fun _ => none⟩, []⟩

/-- After a call of the driver; the pages of a new pool are allocated with `__GFP_ZERO`. -/
def after (p : Pages) (s' : Drv) : Pages where
  drv := s'
  mem := p.mem.wipe (fun c => p.drv.newFrame s' c.1) 0
  made := p.made.map (Link.after s') ++ p.drv.newLinks s'

def step (p : Pages) : PageEvent → Option Pages
  | .call call => (Ripc.step p.drv call).toOption.map fun r => p.after r.2
  | .write k offset byte =>
    p.made[k]?.map fun l => { p with mem := p.mem.write (l.frame, offset) byte (some k) }
  | .other frame offset byte => some { p with mem := p.mem.write (frame, offset) byte none }

/-- The connection has been torn down. -/
def Torn (p : Pages) (k : Nat) : Prop := ∃ l, p.made[k]? = some l ∧ l.torn = true

end Pages

/-- Another byte is written, through a connection of `D`. -/
def PageEvent.DiffersBy (D : Nat → Prop) (e e' : PageEvent) : Prop :=
  e' = e ∨ ∃ k offset byte byte', e = .write k offset byte ∧ e' = .write k offset byte' ∧ D k

/-- The same events but for what is written through connections of `D`. -/
abbrev DifferBy (D : Nat → Prop) : List PageEvent → List PageEvent → Prop := List.Forall₂ (PageEvent.DiffersBy D)

end Ripc
