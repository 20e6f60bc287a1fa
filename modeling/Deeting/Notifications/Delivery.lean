import Deeting.Counting
import Deeting.Json
import Deeting.Table
import Deeting.Transition
import Deeting.Uuid

/-! Notifications and their receipts: what `NotificationService` publishes, the two Celery tasks
that write a receipt for each addressee, one commit for each batch, and what users do with their
receipts. A message is acknowledged late, so it can be delivered any number of times, and a
worker can be lost between two of its commits. -/
namespace Deeting.Notifications
open Transition

inductive NotificationType where
  | system
  | alert
  | billing
  | audit
  | security
  | maintenance
  | other

inductive NotificationLevel where
  | info
  | warn
  | error
  | critical

structure Notification where
  id : Uuid
  tenantId : Option Uuid
  type : NotificationType
  level : NotificationLevel
  title : String
  content : String
  payload : List (String × Json)
  source : Option String
  dedupeKey : Option String
  expiresAt : Option ℤ
  isActive : Bool

structure NotificationReceipt where
  notificationId : Uuid
  userId : Uuid
  tenantId : Option Uuid
  createdAt : ℤ
  readAt : Option ℤ := none
  archivedAt : Option ℤ := none

/-- `uq_notification_receipt_user`. -/
def NotificationReceipt.key (r : NotificationReceipt) : Uuid × Uuid := (r.notificationId, r.userId)

abbrev Receipts := Table NotificationReceipt.key

structure User where
  id : Uuid
  isActive : Bool

structure Draft where
  title : String
  content : String
  tenantId : Option Uuid := none
  type : NotificationType := .system
  level : NotificationLevel := .info
  payload : Option (List (String × Json)) := none
  source : Option String := none
  dedupeKey : Option String := none
  expiresAt : Option ℤ := none

/-- `_build_notification_data`, under the id of the row. -/
def Draft.notification (d : Draft) (id : Uuid) : Notification where
  id
  tenantId := d.tenantId
  type := d.type
  level := d.level
  title := d.title
  content := d.content
  payload := d.payload.getD []
  source := d.source
  dedupeKey := d.dedupeKey
  expiresAt := d.expiresAt
  isActive := true

/-- `uq_notification_tenant_dedupe`, under which a null is equal to nothing. -/
def Notification.clashes (a b : Notification) : Bool :=
  a.tenantId.isSome && a.dedupeKey.isSome && a.tenantId = b.tenantId && a.dedupeKey = b.dedupeKey

inductive Dialect where
  | postgresql
  | sqlite
  | other

inductive Message where
  | toUser (notificationId userId : Uuid)
  | toAll (notificationId : Uuid) (activeOnly : Bool)
  deriving DecidableEq

def Message.notificationId : Message → Uuid
  | .toUser notificationId _ | .toAll notificationId _ => notificationId

inductive Stage where
  | started
  | found
  | sending (remaining : List Uuid)
  | ended
  | lost

def Stage.over : Stage → Bool
  | .ended | .lost => true
  | _ => false

/-- One run of a task by a worker: the users it has read, and how many receipts its commits have
written. -/
structure Delivery where
  message : Message
  stage : Stage := .started
  selected : List Uuid := []
  inserted : ℕ := 0

/-- `direct` is for the statements: the receipts that a publisher has written itself. -/
structure World where
  users : Table User.id := Table.empty
  notifications : Table Notification.id := Table.empty
  receipts : Receipts := Table.empty
  sent : List Message := []
  runs : List Delivery := []
  direct : List (Uuid × Uuid) := []

inductive Action where
  | addUser (user : User)
  | setActive (userId : Uuid) (isActive : Bool)
  /-- Celery takes the task after the commit, or it is lost. -/
  | publishToUser (id userId : Uuid) (draft : Draft) (enqueue taken : Bool) (now : ℤ)
  | publishToAll (id : Uuid) (draft : Draft) (activeOnly enqueue taken : Bool)
  | deliver (message : Message)
  /-- The next statements of a run; `now` is the clock as each row is made. -/
  | resume (i : ℕ) (now : Uuid → ℤ)
  | lose (i : ℕ)
  | markRead (userId notificationId : Uuid) (now : ℤ)
  | markAllRead (userId : Uuid) (now : ℤ)
  | archiveAll (userId : Uuid) (now : ℤ)

section Receipts

/-- `ON CONFLICT DO NOTHING`, or `OR IGNORE`: the receipts and the row count. -/
def insertIgnoring : Receipts → List NotificationReceipt → Receipts × ℕ
  | receipts, [] => (receipts, 0)
  | receipts, r :: rest =>
      match receipts.insert? r with
      | none => insertIgnoring receipts rest
      | some more =>
          let (all, inserted) := insertIgnoring more rest
          (all, inserted + 1)

def insertEach : Receipts → List NotificationReceipt → Option (Receipts × ℕ)
  | receipts, [] => some (receipts, 0)
  | receipts, r :: rest => do
      let more ← receipts.insert? r
      let (all, inserted) ← insertEach more rest
      return (all, inserted + 1)

/-- `_insert_receipts`, `none` where the database raises. -/
def insertReceipts (dialect : Dialect) (receipts : Receipts) (payloads : List NotificationReceipt) :
    Option (Receipts × ℕ) :=
  match dialect with
  | .postgresql | .sqlite => some (insertIgnoring receipts payloads)
  | .other => insertEach receipts payloads

/-- `_build_receipts`. -/
def buildReceipts (notification : Notification) (userIds : List Uuid) (now : Uuid → ℤ) :
    List NotificationReceipt :=
  userIds.map fun userId =>
    { notificationId := notification.id, userId, tenantId := notification.tenantId,
      createdAt := now userId }

/-- An `UPDATE` of a time that is still null. -/
def stamp (now : ℤ) (time : Option ℤ) : Option ℤ := time.or (some now)

def markRead (receipts : Receipts) (userId notificationId : Uuid) (now : ℤ) : Receipts :=
  receipts.rewrite (fun r => if r.userId = userId ∧ r.notificationId = notificationId then
    { r with readAt := stamp now r.readAt } else r) fun r => by split <;> rfl

def markAllRead (receipts : Receipts) (userId : Uuid) (now : ℤ) : Receipts :=
  receipts.rewrite (fun r => if r.userId = userId then
    { r with readAt := stamp now r.readAt } else r) fun r => by split <;> rfl

def archiveAll (receipts : Receipts) (userId : Uuid) (now : ℤ) : Receipts :=
  receipts.rewrite (fun r => if r.userId = userId then
    { r with archivedAt := stamp now r.archivedAt } else r) fun r => by split <;> rfl

end Receipts

def defaultBatchSize : ℕ := 500

namespace World

variable (w : World)

/-- `create_notification`, `none` where a unique constraint is violated. -/
def createNotification (notification : Notification) : Option World :=
  if w.notifications.rows.any notification.clashes then none
  else (w.notifications.insert? notification).map fun notifications => { w with notifications }

def send (message : Message) (taken : Bool) : World :=
  if taken then { w with sent := w.sent ++ [message] } else w

/-- `publish_to_user`, `none` where it raises; nothing is committed then. -/
def publishToUser (id userId : Uuid) (draft : Draft) (enqueue taken : Bool) (now : ℤ) :
    Option World := do
  let created ← w.createNotification (draft.notification id)
  if enqueue then return created.send (.toUser id userId) taken
  else do
    let _ ← w.users.find? userId
    let receipts ← w.receipts.insert?
      { notificationId := id, userId, tenantId := draft.tenantId, createdAt := now }
    return { created with receipts, direct := w.direct ++ [(id, userId)] }

/-- `publish_to_all`, likewise. -/
def publishToAll (id : Uuid) (draft : Draft) (activeOnly enqueue taken : Bool) : Option World := do
  let created ← w.createNotification (draft.notification id)
  if enqueue then return created.send (.toAll id activeOnly) taken else none

def setRun (i : ℕ) (d : Delivery) : World := { w with runs := w.runs.set i d }

/-- The users that a task reads; `none` stands for "user not found". -/
def select : Message → Option (List Uuid)
  | .toUser _ userId => (w.users.find? userId).map fun user => [user.id]
  | .toAll _ activeOnly =>
      some ((w.users.rows.filter fun user => !activeOnly || user.isActive).map User.id)

def sendBatch (dialect : Dialect) (i : ℕ) (d : Delivery) (remaining : List Uuid)
    (now : Uuid → ℤ) : World :=
  let written := do
    let notification ← w.notifications.find? d.message.notificationId
    insertReceipts dialect w.receipts
      (buildReceipts notification (remaining.take defaultBatchSize) now)
  match written with
  | none => w.setRun i { d with stage := .lost }
  | some (receipts, inserted) =>
      { w with receipts }.setRun i { d with
        stage := .sending (remaining.drop defaultBatchSize), inserted := d.inserted + inserted }

/-- `publish_notification_to_user_task` and `publish_notification_to_all_users_task`. -/
def resume (dialect : Dialect) (i : ℕ) (d : Delivery) (now : Uuid → ℤ) : Option World :=
  match d.stage with
  | .started =>
      let found := (w.notifications.find? d.message.notificationId).isSome
      some (w.setRun i { d with stage := if found then .found else .ended })
  | .found =>
      match w.select d.message with
      | none => some (w.setRun i { d with stage := .ended })
      | some selected => some (w.setRun i { d with stage := .sending selected, selected })
  | .sending [] => some (w.setRun i { d with stage := .ended })
  | .sending (userId :: rest) => some (w.sendBatch dialect i d (userId :: rest) now)
  | .ended | .lost => none

end World

def step (dialect : Dialect) (w : World) : Action → Option World
  | .addUser user => (w.users.insert? user).map fun users => { w with users }
  | .setActive userId isActive =>
      some { w with users := w.users.modify userId (fun u => { u with isActive }) fun _ => rfl }
  | .publishToUser id userId draft enqueue taken now =>
      some ((w.publishToUser id userId draft enqueue taken now).getD w)
  | .publishToAll id draft activeOnly enqueue taken =>
      some ((w.publishToAll id draft activeOnly enqueue taken).getD w)
  | .deliver message =>
      if message ∈ w.sent then some { w with runs := w.runs ++ [{ message }] } else none
  | .resume i now => w.runs[i]?.bind fun d => w.resume dialect i d now
  | .lose i => w.runs[i]?.bind fun d =>
      if d.stage.over then none else some (w.setRun i { d with stage := .lost })
  | .markRead userId notificationId now =>
      some { w with receipts := markRead w.receipts userId notificationId now }
  | .markAllRead userId now => some { w with receipts := markAllRead w.receipts userId now }
  | .archiveAll userId now => some { w with receipts := archiveAll w.receipts userId now }

end Deeting.Notifications
