import Deeting.Cursor
import Deeting.Notifications.Delivery

/-! The inbox of a user and the socket that shows it: a snapshot first, then what polls find beyond
the newest receipt that was seen, while deliveries go on. All statements of a socket run in one
transaction that is never committed, so what it writes only it can see. -/
namespace Deeting.Notifications
open Transition

structure InboxItem where
  id : Uuid
  notificationId : Uuid
  title : String
  content : String
  type : NotificationType
  level : NotificationLevel
  payload : List (String × Json)
  source : Option String
  createdAt : ℤ
  readAt : Option ℤ
  archivedAt : Option ℤ
  read : Bool

abbrev Row := NotificationReceipt × Notification

/-- `_to_item`. -/
def toItem (row : Row) : InboxItem where
  id := row.2.id
  notificationId := row.2.id
  title := row.2.title
  content := row.2.content
  type := row.2.type
  level := row.2.level
  payload := row.2.payload
  source := row.2.source
  createdAt := row.1.createdAt
  readAt := row.1.readAt
  archivedAt := row.1.archivedAt
  read := row.1.readAt.isSome

section Inbox

variable (receipts : List NotificationReceipt) (notifications : Table Notification.id) (userId : Uuid)
  (now : ℤ)

def Notification.valid (n : Notification) (now : ℤ) : Bool :=
  n.isActive && n.expiresAt.all fun time => now < time

/-- The join and the conditions that `list_user_notifications` and `count_unread` share. -/
def inbox : List Row :=
  receipts.filterMap fun r =>
    if r.userId = userId ∧ r.archivedAt = none then
      ((notifications.find? r.notificationId).filter fun n => n.valid now).map fun n => (r, n)
    else none

def Row.createdAt (row : Row) : ℤ := row.1.createdAt

/-- `list_user_notifications` with `order_desc`. -/
def listNewest (limit : ℕ) : List Row :=
  ((inbox receipts notifications userId now).insertionSort fun a b =>
    Row.createdAt b ≤ Row.createdAt a).take limit

/-- `list_user_notifications` with `since`, oldest first. -/
def listSince (since : ℤ) (limit : ℕ) : List Row :=
  Cursor.page Row.createdAt limit since (inbox receipts notifications userId now)

def countUnread : ℕ :=
  (inbox receipts notifications userId now).countP fun row => row.1.readAt.isNone

/-- `_max_created_at`. -/
def maxCreatedAt (rows : List Row) : Option ℤ := (rows.map Row.createdAt).max?

end Inbox

structure DedupStore where
  queue : List Uuid := []
  seen : List Uuid := []
  maxSize : ℕ

def DedupStore.add (store : DedupStore) (value : Uuid) : DedupStore × Bool :=
  if value ∈ store.seen then (store, false)
  else
    let store := if store.maxSize ≤ store.queue.length then
        { store with
          queue := store.queue.drop 1
          seen := store.seen.filter fun other => some other ≠ store.queue.head? }
      else store
    ({ store with queue := store.queue ++ [value], seen := value :: store.seen }, true)

def DedupStore.addAll (store : DedupStore) (items : List InboxItem) : DedupStore :=
  items.foldl (fun store item => (store.add item.id).1) store

def snapshotLimit : ℕ := 50

def dedupCacheSize : ℕ := 1000

inductive Inbound where
  | invalid
  | ping
  | markRead (notificationId : Option Uuid)
  | markAllRead
  | clear

inductive Outbound where
  | snapshot (items : List InboxItem) (unreadCount : ℕ)
  | notification (item : InboxItem) (unreadCount : ℕ)
  | error (message : String)
  | pong
  | ackMarkRead (notificationId : Uuid) (unreadCount : ℕ)
  | ackMarkAllRead (unreadCount : ℕ)
  | ackClear

def Outbound.items : Outbound → List InboxItem
  | .snapshot items _ => items
  | .notification item _ => [item]
  | _ => []

/-- What is to be sent once the unread receipts are counted. -/
inductive Pending where
  | snapshot (items : List InboxItem)
  | push (items : List InboxItem)
  | ackMarkRead (notificationId : Uuid)
  | ackMarkAllRead

def Pending.items : Pending → List InboxItem
  | .snapshot items | .push items => items
  | _ => []

/-- `drafts` are the rows that the transaction has written, the last version first. -/
structure Socket where
  userId : Uuid
  lastSeenAt : Option ℤ
  dedup : DedupStore
  drafts : List NotificationReceipt := []
  pending : Option Pending
  outbox : List Outbound := []

structure Connection where
  world : World := {}
  socket : Option Socket := none

inductive Event where
  | outside (action : Action)
  | connect (userId : Uuid) (now : ℤ)
  | count (now : ℤ)
  /-- Nothing was received for a while. -/
  | poll (now : ℤ)
  | receive (message : Inbound) (now : ℤ)
  | close

namespace Socket

variable (s : Socket) (w : World)

def view : List NotificationReceipt :=
  w.receipts.rows.map fun r => (s.drafts.find? fun d => d.key = r.key).getD r

def inbox (now : ℤ) : List Row := Notifications.inbox (s.view w) w.notifications s.userId now

def write (p : NotificationReceipt → Bool) (f : NotificationReceipt → NotificationReceipt) : Socket :=
  { s with drafts := ((s.view w).filter fun r => r.userId = s.userId && p r).map f ++ s.drafts }

def markRead (notificationId : Uuid) (now : ℤ) : Socket :=
  s.write w (fun r => r.notificationId = notificationId && r.readAt.isNone) fun r =>
    { r with readAt := some now }

def markAllRead (now : ℤ) : Socket :=
  s.write w (fun r => r.readAt.isNone) fun r => { r with readAt := some now }

def clearAll (now : ℤ) : Socket :=
  s.write w (fun r => r.archivedAt.isNone) fun r => { r with archivedAt := some now }

def reply (message : Outbound) : Socket := { s with pending := none, outbox := s.outbox ++ [message] }

def push (unread : ℕ) : Socket → List InboxItem → Socket
  | s, [] => s
  | s, item :: rest =>
      match s.dedup.add item.id with
      | (_, false) => push unread s rest
      | (dedup, true) =>
          push unread { s with dedup, outbox := s.outbox ++ [.notification item unread] } rest

def count (now : ℤ) : Option Socket :=
  let unread := countUnread (s.view w) w.notifications s.userId now
  match s.pending with
  | none => none
  | some (.snapshot items) => some (s.reply (.snapshot items unread))
  | some (.push items) => some (push unread { s with pending := none } items)
  | some (.ackMarkRead notificationId) => some (s.reply (.ackMarkRead notificationId unread))
  | some .ackMarkAllRead => some (s.reply (.ackMarkAllRead unread))

/-- `fetch_since`, and what is made of its result. -/
def poll (now : ℤ) : Socket :=
  match s.lastSeenAt with
  | none => s
  | some since =>
      let rows := listSince (s.view w) w.notifications s.userId now since snapshotLimit
      let lastSeenAt := (maxCreatedAt rows).or s.lastSeenAt
      if rows.isEmpty then { s with lastSeenAt }
      else { s with lastSeenAt, pending := some (.push (rows.map toItem)) }

def receive (message : Inbound) (now : ℤ) : Socket :=
  match message with
  | .invalid => s.reply (.error "Invalid payload")
  | .ping => s.reply .pong
  | .markRead none => s.reply (.error "notification_id required")
  | .markRead (some notificationId) =>
      { s.markRead w notificationId now with pending := some (.ackMarkRead notificationId) }
  | .markAllRead => { s.markAllRead w now with pending := some .ackMarkAllRead }
  | .clear => (s.clearAll w now).reply .ackClear

end Socket

/-- `accept`, and the receipts for the snapshot. -/
def connect (w : World) (userId : Uuid) (now : ℤ) : Socket :=
  let rows := listNewest w.receipts.rows w.notifications userId now snapshotLimit
  { userId
    lastSeenAt := maxCreatedAt rows
    dedup := { maxSize := dedupCacheSize : DedupStore }.addAll (rows.map toItem)
    pending := some (.snapshot (rows.map toItem)) }

namespace Connection

def advance (dialect : Dialect) (c : Connection) : Event → Option Connection
  | .outside action => (step dialect c.world action).map fun world => { c with world }
  | .connect userId now =>
      match c.socket, c.world.users.find? userId with
      | none, some user =>
          if user.isActive then some { c with socket := some (connect c.world userId now) } else none
      | _, _ => none
  | .count now => c.socket.bind fun s =>
      (s.count c.world now).map fun s => { c with socket := some s }
  | .poll now => c.socket.bind fun s =>
      if s.pending.isSome then none else some { c with socket := some (s.poll c.world now) }
  | .receive message now => c.socket.bind fun s =>
      if s.pending.isSome then none
      else some { c with socket := some (s.receive c.world message now) }
  | .close => c.socket.map fun _ => { c with socket := none }

end Connection

end Deeting.Notifications
