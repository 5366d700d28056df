import Ripc.DriverState

namespace Ripc

/-- The bitmap of `g_id_gen` after `ida_alloc_range` has answered `id`, an error or a new id. -/
def Drv.takeId (s : Drv) (id : Int) : Drv :=
  { s with gIdGen := if id < 0 then s.gIdGen else id :: s.gIdGen }

def generateId (K : Kernel) (site : IdSite) (s : Drv) : Int × Drv :=
  let id := K.idaAllocRange site s.gIdGen
  (id, s.takeId id)

def freeId (s : Drv) (id : Int) : Drv :=
  { s with gIdGen := if isIdValid id then s.gIdGen.filter (· ≠ id) else s.gIdGen }

def submemInit (K : Kernel) (pages : Nat) (slot : Nat) (s : Drv) : SubMem × Drv :=
  let r := generateId K (.subMem slot) s
  (⟨r.1, pages + slot * shmRegionPageNumber, shmRegionPageSize, none⟩, r.2)

/-- The loop of `shm_create` over the slots below `n`. -/
def submemInitLoop (K : Kernel) (pages : Nat) : Nat → Drv → (Nat → SubMem) × Drv
  | 0, s => (fun _ => ⟨0, 0, 0, none⟩, s)
  | n + 1, s =>
    let done := submemInitLoop K pages n s
    let r := submemInit K pages n done.2
    (fun i => if i = n then r.1 else done.1 i, r.2)

def shmCreate (K : Kernel) (s : Drv) : Except Fault (Option Ptr × Drv) :=
  match K.kmalloc .shm s with
  | none => .ok (none, s)
  | some p =>
    match K.allocPages shmRegionOrder s with
    -- the error path hands the null page pointer to `__free_pages`
    | none => .error .nullDeref
    | some pages =>
      let subs := submemInitLoop K pages shmPoolSize s
      let id := generateId K .shm subs.2
      let shm : Shm := ⟨id.1, shmPoolPageNumber, pages, shmPoolByteSize, fun i => subs.1 i⟩
      .ok (some p, { id.2 with gShmList := id.2.gShmList.pushFront p shm })

def shmGetFreeSubmem (shm : Shm) : Option (Fin shmPoolSize) :=
  (List.finRange shmPoolSize).find? fun i => (shm.subMems i).connP.isNone

def submemAddConnection (s : Drv) (sub : SubMemPtr) (con : Ptr) : Drv :=
  s.setSubMem sub fun m => { m with connP := some con }

/-- The first free slot of the pools that exist already. -/
def findFreeSubmem (s : Drv) : Option SubMemPtr :=
  s.gShmList.entries.findSome? fun e => (shmGetFreeSubmem e.2).map (⟨e.1, ·⟩)

def getFreeSubmem (K : Kernel) (s : Drv) : Except Fault (Option SubMemPtr × Drv) :=
  match findFreeSubmem s with
  | some sub => .ok (some sub, s)
  | none => do
    let (shm, s) ← shmCreate K s
    match shm with
    | none => .ok (none, s)
    | some p =>
      let pool ← deref s.gShmList (some p)
      .ok ((shmGetFreeSubmem pool).map (⟨p, ·⟩), s)

end Ripc
