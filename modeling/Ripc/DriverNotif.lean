import Ripc.DriverShm

namespace Ripc

def clientId (s : Drv) : Option Ptr → Except Fault Int
  | none => .ok (-1)
  | some k => return (← deref s.gClientsList (some k)).id

def serverId (s : Drv) : Option Ptr → Except Fault Int
  | none => .ok (-1)
  | some v => return (← deref s.gServersList (some v)).id

def clientRegTask (s : Drv) : Option Ptr → Except Fault (Option Ptr)
  | none => .ok none
  | some k => do
    let cli ← deref s.gClientsList (some k)
    return some (← deref s.clientsEntries cli.taskP).regTask

def serverRegTask (s : Drv) : Option Ptr → Except Fault (Option Ptr)
  | none => .ok none
  | some v => do
    let srv ← deref s.gServersList (some v)
    return some (← deref s.serversEntries srv.taskP).regTask

def notificationCreate (K : Kernel) (s : Drv) (whoSends : NotifSender) (type : NotifType)
    (subMemId senderId reciverId : Int) : Option NotificationData :=
  if isIdValid senderId ∧ isIdValid subMemId ∧ isIdValid reciverId ∧
      (K.kmalloc (.notif whoSends) s).isSome then
    some ⟨whoSends, type, subMemId, senderId, reciverId⟩
  else none

def RegTask.enqueue (d : NotificationData) (t : RegTask) : RegTask :=
  { t with notifList := t.notifList ++ [d], numOfNotif := t.numOfNotif + 1 }

def Drv.enqueue (s : Drv) (t : Ptr) (d : NotificationData) : Drv :=
  { s with gRegTaskList := s.gRegTaskList.modify t (RegTask.enqueue d) }

def regTaskAddNotification (s : Drv) (regTask : Option Ptr) (notif : NotificationData) :
    Except Fault (Int × Drv) :=
  match regTask with
  | none => .ok (-ENODATA, s)
  | some t => do
    let _ ← deref s.gRegTaskList (some t)
    .ok (0, s.enqueue t notif)

/-- The part of `notification_send` after its switch over the sender. -/
def notificationPost (K : Kernel) (s : Drv) (sender : NotifSender) (type : NotifType)
    (subMemId senderId reciverId : Int) (reciverTask : Option Ptr) : Except Fault (Int × Drv) :=
  match notificationCreate K s sender type subMemId senderId reciverId with
  | none => .ok (-EFAULT, s)
  | some ntf => do
    let (ret, s) ← regTaskAddNotification s reciverTask ntf
    .ok (if ret = 0 then 0 else -EFAULT, s)

def notificationSend (K : Kernel) (s : Drv) (sender : NotifSender) (type : NotifType) (con : Ptr) :
    Except Fault (Int × Drv) := do
  let c ← deref s.gConnsList (some con)
  match c.memP with
  | none => .ok (-ENOPARAM, s)
  | some mem =>
    let sub ← derefSubMem s mem
    match sender with
    | .client =>
      if c.clientP.isNone then .ok (-ENOENT, s) else
      let senderId ← clientId s c.clientP
      let reciverId ← serverId s c.serverP
      let reciverTask ← serverRegTask s c.serverP
      notificationPost K s sender type sub.id senderId reciverId reciverTask
    | .server =>
      if c.serverP.isNone then .ok (-ENOENT, s) else
      let senderId ← serverId s c.serverP
      let reciverId ← clientId s c.clientP
      let reciverTask ← clientRegTask s c.clientP
      notificationPost K s sender type sub.id senderId reciverId reciverTask

end Ripc
