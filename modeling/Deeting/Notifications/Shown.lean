import Deeting.Notifications.Receipts
import Deeting.Notifications.Socket

/-! What a socket shows over a whole run, with deliveries and other requests in between: nothing
twice, with no help from the store of what was sent, pushes in the order of their receipts, and
nothing that is newer than what was seen left out. -/
namespace Deeting.Notifications
open Transition

def Socket.items (s : Socket) : List InboxItem :=
  s.outbox.flatMap Outbound.items ++ (s.pending.map Pending.items).getD []

def Outbound.pushed : Outbound → List InboxItem
  | .notification item _ => [item]
  | _ => []

def Pending.pushed : Pending → List InboxItem
  | .push items => items
  | _ => []

def Socket.pushed (s : Socket) : List InboxItem :=
  s.outbox.flatMap Outbound.pushed ++ (s.pending.map Pending.pushed).getD []

def Socket.noted (s : Socket) : List InboxItem :=
  match s.pending with
  | some (.snapshot items) => s.outbox.flatMap Outbound.items ++ items
  | _ => s.outbox.flatMap Outbound.items

section Inbox

variable {receipts : List NotificationReceipt} {notifications : Table Notification.id} {userId : Uuid}
  {now since : ℤ} {limit : ℕ} {row : Row} {rows : List Row} {time : ℤ}

theorem mem_inbox : row ∈ inbox receipts notifications userId now ↔
    row.1 ∈ receipts ∧ (row.1.userId = userId ∧ row.1.archivedAt = none) ∧
      notifications.find? row.1.notificationId = some row.2 ∧ row.2.valid now = true := by
  obtain ⟨r, n⟩ := row
  simp only [inbox, List.mem_filterMap, Option.ite_none_right_eq_some, Option.map_eq_some_iff,
    Option.filter_eq_some_iff, Prod.mk.injEq]
  constructor
  · rintro ⟨r, there, own, n, found, rfl, rfl⟩
    exact ⟨there, own, found⟩
  · rintro ⟨there, own, found⟩
    exact ⟨r, there, own, n, found, rfl, rfl⟩

theorem id_of_mem_inbox (mem : row ∈ inbox receipts notifications userId now) :
    row.1.key = (row.2.id, userId) := by
  obtain ⟨-, ⟨own, -⟩, found, -⟩ := mem_inbox.mp mem
  rw [NotificationReceipt.key, own, Table.key_of_find? found]

theorem sublist_inbox :
    ((inbox receipts notifications userId now).map Prod.fst).Sublist receipts := by
  induction receipts with
  | nil => exact .slnil
  | cons r rest ih =>
    rw [inbox, List.filterMap_cons]
    split
    · exact ih.cons r
    · rename_i row listed
      simp only [Option.ite_none_right_eq_some, Option.map_eq_some_iff] at listed
      obtain ⟨-, n, -, rfl⟩ := listed
      exact ih.cons_cons r

/-- A notification is in an inbox once. -/
theorem nodup_inbox (unique : (receipts.map NotificationReceipt.key).Nodup) :
    ((inbox receipts notifications userId now).map fun row => row.2.id).Nodup := by
  have listed : ((inbox receipts notifications userId now).map Prod.fst).Sublist receipts :=
    sublist_inbox
  have keys := unique.sublist (listed.map NotificationReceipt.key)
  have same : ((inbox receipts notifications userId now).map Prod.fst).map NotificationReceipt.key =
      ((inbox receipts notifications userId now).map fun row => row.2.id).map fun id =>
        (id, userId) := by
    rw [List.map_map, List.map_map]
    exact List.map_congr_left fun row mem => id_of_mem_inbox mem
  rw [same] at keys
  exact keys.of_map _

theorem maxCreatedAt_eq_none : maxCreatedAt rows = none ↔ rows = [] := by
  rw [maxCreatedAt, List.max?_eq_none_iff, List.map_eq_nil_iff]

theorem le_maxCreatedAt (newest : maxCreatedAt rows = some time) (mem : row ∈ rows) :
    row.createdAt ≤ time :=
  (List.max?_eq_some_iff.mp newest).2 _ (List.mem_map_of_mem mem)

end Inbox

section Store

variable {store : DedupStore} {items : List InboxItem} {id : Uuid}

theorem add_of_notMem (new : id ∉ store.seen) : (store.add id).2 = true := by
  rw [DedupStore.add, if_neg new]

theorem mem_seen_add {value : Uuid} (mem : value ∈ (store.add id).1.seen) :
    value ∈ store.seen ∨ value = id := by
  rw [DedupStore.add] at mem
  split at mem
  · exact .inl mem
  · rcases List.mem_cons.mp mem with here | before
    · exact .inr here
    · split at before
      · exact .inl (List.mem_of_mem_filter before)
      · exact .inl before

theorem mem_seen_addAll (mem : id ∈ (store.addAll items).seen) :
    id ∈ store.seen ∨ id ∈ items.map InboxItem.id := by
  induction items generalizing store with
  | nil => exact .inl mem
  | cons item rest ih =>
    rcases ih mem with before | later
    · refine (mem_seen_add before).imp_right ?_
      rintro rfl
      exact List.mem_cons_self
    · exact .inr (List.mem_cons_of_mem _ later)

/-- Where no item was sent before, the loop over the items sends them all. -/
theorem push_eq {s : Socket} (unread : ℕ) (apart : (items.map InboxItem.id).Nodup)
    (new : ∀ item ∈ items, item.id ∉ s.dedup.seen) :
    Socket.push unread s items = { s with
      dedup := s.dedup.addAll items
      outbox := s.outbox ++ items.map fun item => .notification item unread } := by
  induction items generalizing s with
  | nil => simp [Socket.push, DedupStore.addAll]
  | cons item rest ih =>
    obtain ⟨other, apart⟩ := List.nodup_cons.mp apart
    obtain ⟨first, later⟩ := List.forall_mem_cons.mp new
    have added : s.dedup.add item.id = ((s.dedup.add item.id).1, true) :=
      Prod.ext rfl (add_of_notMem first)
    rw [Socket.push, added]
    refine (ih apart fun next mem seen => ?_).trans ?_
    · rcases mem_seen_add seen with before | same
      · exact later next mem before
      · exact other (same ▸ List.mem_map_of_mem mem)
    · simp [DedupStore.addAll]

end Store

section View

variable {s : Socket} {w t : World} {r : NotificationReceipt}

def Socket.Drawn (s : Socket) (w : World) : Prop :=
  ∀ d ∈ s.drafts, ∃ r ∈ w.receipts.rows, r.key = d.key ∧ r.createdAt = d.createdAt

theorem keys_view : (s.view w).map NotificationReceipt.key = w.receipts.rows.map NotificationReceipt.key := by
  rw [Socket.view, List.map_map]
  refine List.map_congr_left fun r _ => ?_
  cases found : s.drafts.find? fun d => d.key = r.key with
  | none => simp [found]
  | some d => simpa [found] using List.find?_some found

theorem stored_of_mem_view (drawn : s.Drawn w) (mem : r ∈ s.view w) :
    ∃ row ∈ w.receipts.rows, row.key = r.key ∧ row.createdAt = r.createdAt := by
  obtain ⟨row, there, rfl⟩ := List.mem_map.mp mem
  cases found : s.drafts.find? fun d => d.key = row.key with
  | none => exact ⟨row, there, rfl, rfl⟩
  | some d => exact drawn d (List.mem_of_find?_eq_some found)

theorem Socket.Drawn.write (drawn : s.Drawn w) {p : NotificationReceipt → Bool}
    {f : NotificationReceipt → NotificationReceipt}
    (keeps : ∀ r, (f r).key = r.key ∧ (f r).createdAt = r.createdAt) : (s.write w p f).Drawn w := by
  intro d mem
  rcases List.mem_append.mp mem with new | old
  · obtain ⟨r, there, rfl⟩ := List.mem_map.mp new
    rw [(keeps r).1, (keeps r).2]
    exact stored_of_mem_view drawn (List.mem_of_mem_filter there)
  · exact drawn d old

/-- A row with a key and a time of its making stays such a row. -/
theorem stored_later (moves : Moves w t) {key : Uuid × Uuid} {time : ℤ}
    (stored : ∃ r ∈ w.receipts.rows, r.key = key ∧ r.createdAt = time) :
    ∃ r ∈ t.receipts.rows, r.key = key ∧ r.createdAt = time := by
  obtain ⟨r, mem, rfl, rfl⟩ := stored
  obtain ⟨later, there, since⟩ := moves.later mem
  exact ⟨later, there, since.key, since.createdAt⟩

end View

structure Socket.Steady (s : Socket) (w : World) : Prop where
  drawn : s.Drawn w
  once : (s.items.map InboxItem.id).Nodup
  seen : ∀ item ∈ s.items, ∃ last, s.lastSeenAt = some last ∧ item.createdAt ≤ last
  stored : ∀ item ∈ s.items, ∃ r ∈ w.receipts.rows, r.key = (item.id, s.userId) ∧
    r.createdAt = item.createdAt
  ascending : (s.pushed.map InboxItem.createdAt).Pairwise (· ≤ ·)
  noted : ∀ id ∈ s.dedup.seen, id ∈ s.noted.map InboxItem.id

section Steps

variable {s s' : Socket} {w t : World}

theorem pushed_subset {item : InboxItem} (mem : item ∈ s.pushed) : item ∈ s.items := by
  rcases List.mem_append.mp mem with sent | fetched
  · obtain ⟨message, there, pushed⟩ := List.mem_flatMap.mp sent
    refine List.mem_append_left _ (List.mem_flatMap.mpr ⟨message, there, ?_⟩)
    cases message with
    | notification => exact pushed
    | _ => cases pushed
  · refine List.mem_append_right _ ?_
    cases waiting : s.pending with
    | none => simp [waiting] at fetched
    | some p =>
      simp only [waiting, Option.map_some, Option.getD_some] at fetched ⊢
      cases p with
      | push => exact fetched
      | _ => cases fetched

structure Socket.Alike (s s' : Socket) : Prop where
  user : s'.userId = s.userId
  last : s'.lastSeenAt = s.lastSeenAt
  items : s'.items = s.items
  pushed : s'.pushed = s.pushed

theorem Socket.Steady.of_alike (steady : s.Steady w) (alike : s.Alike s') (drawn : s'.Drawn w)
    (noted : ∀ id ∈ s'.dedup.seen, id ∈ s'.noted.map InboxItem.id) : s'.Steady w where
  drawn
  once := alike.items ▸ steady.once
  seen := by rw [alike.items, alike.last]; exact steady.seen
  stored := by rw [alike.items, alike.user]; exact steady.stored
  ascending := alike.pushed ▸ steady.ascending
  noted

theorem Socket.Steady.outside (steady : s.Steady w) (moves : Moves w t) : s.Steady t where
  drawn d mem := stored_later moves (steady.drawn d mem)
  once := steady.once
  seen := steady.seen
  stored item mem := stored_later moves (steady.stored item mem)
  ascending := steady.ascending
  noted := steady.noted

/-- A message without items is sent where nothing waits, or where an answer without items does. -/
theorem alike_reply {message : Outbound} (idle : ∀ p, s.pending = some p → p.items = [])
    (items : message.items = []) (pushed : message.pushed = []) : s.Alike (s.reply message) := by
  have none : (s.pending.map Pending.items).getD [] = [] := by
    cases waiting : s.pending with
    | none => rfl
    | some p => exact idle p waiting
  have none' : (s.pending.map Pending.pushed).getD [] = [] := by
    cases waiting : s.pending with
    | none => rfl
    | some p =>
      have empty := idle p waiting
      cases p with
      | push => exact empty
      | _ => rfl
  refine ⟨rfl, rfl, ?_, ?_⟩
  · simp [Socket.items, Socket.reply, items, none]
  · simp [Socket.pushed, Socket.reply, pushed, none']

theorem Socket.Steady.reply (steady : s.Steady w) {message : Outbound}
    (idle : ∀ p, s.pending = some p → p.items = []) (items : message.items = [])
    (pushed : message.pushed = []) : (s.reply message).Steady w := by
  refine steady.of_alike (alike_reply idle items pushed) steady.drawn fun id mem => ?_
  have old := steady.noted id mem
  rw [Socket.noted] at old
  simp only [Socket.noted, Socket.reply, List.flatMap_append, List.flatMap_cons, List.flatMap_nil,
    items, List.append_nil]
  split at old
  · rename_i snapshot waiting
    have empty : snapshot = [] := idle _ waiting
    rwa [empty, List.append_nil] at old
  · exact old

/-- What was fetched was not sent before. -/
theorem Socket.Steady.new_of_push (steady : s.Steady w) {items : List InboxItem}
    (waiting : s.pending = some (.push items)) :
    (items.map InboxItem.id).Nodup ∧ ∀ item ∈ items, item.id ∉ s.dedup.seen := by
  have once := steady.once
  have noted := steady.noted
  simp only [Socket.items, waiting, Option.map_some, Option.getD_some, Pending.items,
    List.map_append] at once
  simp only [Socket.noted, waiting] at noted
  obtain ⟨-, apart, disjoint⟩ := List.nodup_append.mp once
  refine ⟨apart, fun item mem seen => ?_⟩
  exact disjoint _ (noted item.id seen) _ (List.mem_map_of_mem mem) rfl

/-- What waits for the count is sent then. -/
theorem Socket.Steady.count (steady : s.Steady w) {now : ℤ} (counted : s.count w now = some s') :
    s'.Steady w ∧ s.Alike s' := by
  rw [Socket.count] at counted
  cases waiting : s.pending with
  | none => simp [waiting] at counted
  | some p =>
    cases p with
    | ackMarkRead notificationId | ackMarkAllRead =>
      simp only [waiting, Option.some.injEq] at counted
      subst counted
      have empty : ∀ p, s.pending = some p → p.items = [] := fun p same => by
        cases waiting.symm.trans same
        rfl
      exact ⟨steady.reply empty rfl rfl, alike_reply empty rfl rfl⟩
    | snapshot items =>
      simp only [waiting, Option.some.injEq] at counted
      subst counted
      have old := steady.noted
      simp only [Socket.noted, waiting] at old
      have alike : s.Alike (s.reply (.snapshot items (countUnread (s.view w) w.notifications
          s.userId now))) := by
        refine ⟨rfl, rfl, ?_, ?_⟩
        · simp [Socket.items, Socket.reply, waiting, Outbound.items, Pending.items]
        · simp [Socket.pushed, Socket.reply, waiting, Outbound.pushed, Pending.pushed]
      refine ⟨steady.of_alike alike steady.drawn fun id mem => ?_, alike⟩
      simpa [Socket.noted, Socket.reply, Outbound.items] using old id mem
    | push items =>
      simp only [waiting, Option.some.injEq] at counted
      have old := steady.noted
      simp only [Socket.noted, waiting] at old
      obtain ⟨apart, new⟩ := steady.new_of_push waiting
      rw [push_eq (s := { s with pending := none }) _ apart new] at counted
      have alike : s.Alike s' := by
        subst counted
        refine ⟨rfl, rfl, ?_, ?_⟩
        · simp [Socket.items, waiting, Outbound.items, Pending.items, List.flatMap_map]
        · simp [Socket.pushed, waiting, Outbound.pushed, Pending.pushed, List.flatMap_map]
      subst counted
      refine ⟨steady.of_alike alike steady.drawn fun id mem => ?_, alike⟩
      rcases mem_seen_addAll mem with before | later
      · have there := old id before
        simp only [Socket.noted, List.flatMap_append, List.map_append, List.mem_append]
        exact .inl there
      · simpa [Socket.noted, Outbound.items, List.flatMap_map] using Or.inr later

end Steps

section Polls

variable {s : Socket} {w : World} {since now : ℤ} {limit : ℕ} {row : Row}

def Socket.found (s : Socket) (w : World) (now since : ℤ) : List Row :=
  listSince (s.view w) w.notifications s.userId now since snapshotLimit

theorem mem_of_mem_found (mem : row ∈ s.found w now since) :
    row ∈ s.inbox w now ∧ since < row.createdAt :=
  Cursor.mem_of_mem_page mem

theorem poll_of_some (last : s.lastSeenAt = some since) : s.poll w now =
    if (s.found w now since).isEmpty then
      { s with lastSeenAt := (maxCreatedAt (s.found w now since)).or s.lastSeenAt }
    else { s with
      lastSeenAt := (maxCreatedAt (s.found w now since)).or s.lastSeenAt
      pending := some (.push ((s.found w now since).map toItem)) } := by
  simp only [Socket.poll, last, Socket.found]

/-- A row of the inbox is a receipt of the user, as old as it is stored. -/
theorem stored_of_mem_inbox (drawn : s.Drawn w) (mem : row ∈ s.inbox w now) :
    ∃ r ∈ w.receipts.rows, r.key = (row.2.id, s.userId) ∧ r.createdAt = row.createdAt := by
  obtain ⟨r, there, key, createdAt⟩ := stored_of_mem_view drawn (mem_inbox.mp mem).1
  exact ⟨r, there, key.trans (id_of_mem_inbox mem), createdAt⟩

theorem createdAt_unique {key : Uuid × Uuid} {first second : ℤ}
    (one : ∃ r ∈ w.receipts.rows, r.key = key ∧ r.createdAt = first)
    (other : ∃ r ∈ w.receipts.rows, r.key = key ∧ r.createdAt = second) : first = second := by
  obtain ⟨r, there, here, rfl⟩ := one
  obtain ⟨q, there', here', rfl⟩ := other
  rw [List.inj_on_of_nodup_map w.receipts.unique there there' (here.trans here'.symm)]

theorem items_fetched (idle : s.pending = none) {last : Option ℤ} {items : List InboxItem} :
    { s with lastSeenAt := last, pending := some (.push items) : Socket }.items =
      s.items ++ items := by
  simp [Socket.items, idle, Pending.items]

theorem pushed_fetched (idle : s.pending = none) {last : Option ℤ} {items : List InboxItem} :
    { s with lastSeenAt := last, pending := some (.push items) : Socket }.pushed =
      s.pushed ++ items := by
  simp [Socket.pushed, idle, Pending.pushed]

theorem Socket.Steady.fetched (steady : s.Steady w) (idle : s.pending = none)
    (last : s.lastSeenAt = some since) {newest : ℤ}
    (max : maxCreatedAt (s.found w now since) = some newest) :
    { s with
      lastSeenAt := some newest
      pending := some (.push ((s.found w now since).map toItem)) : Socket }.Steady w := by
  have before : ∀ item ∈ s.items, item.createdAt ≤ since := by
    intro item mem
    obtain ⟨last', same, le⟩ := steady.seen item mem
    exact Option.some.inj (last.symm.trans same) ▸ le
  have upper : since < newest := by
    obtain ⟨row, mem, rfl⟩ := List.mem_map.mp (List.max?_eq_some_iff.mp max).1
    exact (mem_of_mem_found mem).2
  refine ⟨steady.drawn, ?_, ?_, ?_, ?_, ?_⟩
  · rw [items_fetched idle, List.map_append, List.map_map]
    refine List.nodup_append.mpr ⟨steady.once, ?_, ?_⟩
    · apply Cursor.nodup_page
      exact nodup_inbox (keys_view ▸ w.receipts.unique)
    · rintro id old _ new rfl
      obtain ⟨item, shown, rfl⟩ := List.mem_map.mp old
      obtain ⟨row, there, same⟩ := List.mem_map.mp new
      obtain ⟨listed, later⟩ := mem_of_mem_found there
      have stored := stored_of_mem_inbox steady.drawn listed
      have id : row.2.id = item.id := same
      have equal := createdAt_unique (id ▸ stored) (steady.stored item shown)
      have early := before item shown
      omega
  · intro item mem
    refine ⟨newest, rfl, ?_⟩
    rw [items_fetched idle] at mem
    rcases List.mem_append.mp mem with old | new
    · exact (before item old).trans upper.le
    · obtain ⟨row, there, rfl⟩ := List.mem_map.mp new
      exact le_maxCreatedAt max there
  · intro item mem
    rw [items_fetched idle] at mem
    rcases List.mem_append.mp mem with old | new
    · exact steady.stored item old
    · obtain ⟨row, there, rfl⟩ := List.mem_map.mp new
      exact stored_of_mem_inbox steady.drawn (mem_of_mem_found there).1
  · rw [pushed_fetched idle, List.map_append, List.map_map]
    refine List.pairwise_append.mpr ⟨steady.ascending, ?_, ?_⟩
    · exact List.pairwise_map.mpr Cursor.pairwise_page
    · intro old early new late
      obtain ⟨item, mem, rfl⟩ := List.mem_map.mp early
      obtain ⟨row, there, rfl⟩ := List.mem_map.mp late
      exact (before item (pushed_subset mem)).trans (mem_of_mem_found there).2.le
  · have old := steady.noted
    simpa only [Socket.noted, idle] using old

@[simp] theorem userId_poll (s : Socket) : (s.poll w now).userId = s.userId := by
  cases last : s.lastSeenAt with
  | none => simp only [Socket.poll, last]
  | some since =>
    rw [poll_of_some last]
    split <;> rfl

theorem Socket.Steady.poll (steady : s.Steady w) (idle : s.pending = none) :
    (s.poll w now).Steady w := by
  cases last : s.lastSeenAt with
  | none => simpa only [Socket.poll, last] using steady
  | some since =>
    rw [poll_of_some last]
    cases max : maxCreatedAt (s.found w now since) with
    | none =>
      rw [if_pos (by simp [maxCreatedAt_eq_none.mp max])]
      exact steady
    | some newest =>
      have some_ : s.found w now since ≠ [] := fun empty => by
        rw [maxCreatedAt_eq_none.mpr empty] at max
        cases max
      rw [if_neg (by simpa using some_)]
      exact steady.fetched idle last max

theorem alike_answer (idle : s.pending = none) {p : Pending} (items : p.items = [])
    (pushed : p.pushed = []) : s.Alike { s with pending := some p } := by
  refine ⟨rfl, rfl, ?_, ?_⟩
  · simp [Socket.items, idle, items]
  · simp [Socket.pushed, idle, pushed]

/-- An answer that waits for the count leaves what is shown as it was. -/
theorem Socket.Steady.answer (steady : s.Steady w) (idle : s.pending = none) {p : Pending}
    (items : p.items = []) (pushed : p.pushed = []) (other : ∀ items, p ≠ .snapshot items) :
    { s with pending := some p : Socket }.Steady w := by
  refine steady.of_alike (alike_answer idle items pushed) steady.drawn fun id mem => ?_
  have old := steady.noted id mem
  rw [Socket.noted, idle] at old
  cases p with
  | snapshot waiting => exact absurd rfl (other waiting)
  | _ => exact old

theorem Socket.Steady.write (steady : s.Steady w) {p : NotificationReceipt → Bool}
    {f : NotificationReceipt → NotificationReceipt}
    (keeps : ∀ r, (f r).key = r.key ∧ (f r).createdAt = r.createdAt) : (s.write w p f).Steady w :=
  steady.of_alike ⟨rfl, rfl, rfl, rfl⟩ (steady.drawn.write keeps) steady.noted

theorem alike_of_write {p : NotificationReceipt → Bool}
    {f : NotificationReceipt → NotificationReceipt} {s' : Socket}
    (alike : (s.write w p f).Alike s') : s.Alike s' :=
  ⟨alike.user, alike.last, alike.items, alike.pushed⟩

theorem Socket.Steady.receive (steady : s.Steady w) (idle : s.pending = none) {message : Inbound} :
    (s.receive w message now).Steady w ∧ s.Alike (s.receive w message now) := by
  have free : ∀ p, s.pending = some p → p.items = [] := by simp [idle]
  cases message with
  | invalid | ping => exact ⟨steady.reply free rfl rfl, alike_reply free rfl rfl⟩
  | markRead notificationId =>
    cases notificationId with
    | none => exact ⟨steady.reply free rfl rfl, alike_reply free rfl rfl⟩
    | some notificationId =>
      have read : (s.markRead w notificationId now).Steady w := steady.write fun r => ⟨rfl, rfl⟩
      have alike := alike_answer (s := s.markRead w notificationId now)
        (p := .ackMarkRead notificationId) idle rfl rfl
      exact ⟨read.answer idle rfl rfl fun _ same => (by cases same), alike_of_write alike⟩
  | markAllRead =>
    have read : (s.markAllRead w now).Steady w := steady.write fun r => ⟨rfl, rfl⟩
    have alike := alike_answer (s := s.markAllRead w now) (p := .ackMarkAllRead) idle rfl rfl
    exact ⟨read.answer idle rfl rfl fun _ same => (by cases same), alike_of_write alike⟩
  | clear =>
    have cleared : (s.clearAll w now).Steady w := steady.write fun r => ⟨rfl, rfl⟩
    exact ⟨@Socket.Steady.reply _ _ cleared .ackClear free rfl rfl,
      alike_of_write (@alike_reply (s.clearAll w now) .ackClear free rfl rfl)⟩

end Polls

section Runs

variable {dialect : Dialect} {c d : Connection} {e : Event} {s : Socket} {w : World}

theorem steady_connect (w : World) (userId : Uuid) (now : ℤ) : (connect w userId now).Steady w := by
  have drawn : (connect w userId now).Drawn w := by
    intro d mem
    cases mem
  have items : (connect w userId now).items =
      (listNewest w.receipts.rows w.notifications userId now snapshotLimit).map toItem := rfl
  have listed : ∀ row ∈ listNewest w.receipts.rows w.notifications userId now snapshotLimit,
      row ∈ inbox w.receipts.rows w.notifications userId now := fun row mem =>
    (List.mem_insertionSort _).mp (List.mem_of_mem_take mem)
  refine ⟨drawn, ?_, fun item mem => ?_, fun item mem => ?_, .nil, fun id mem => ?_⟩
  · rw [items, List.map_map]
    have once : ((inbox w.receipts.rows w.notifications userId now).map fun row => row.2.id).Nodup :=
      nodup_inbox w.receipts.unique
    have sorted := (List.perm_insertionSort (fun a b => Row.createdAt b ≤ Row.createdAt a)
      (inbox w.receipts.rows w.notifications userId now)).map fun row : Row => row.2.id
    exact (sorted.nodup_iff.mpr once).sublist ((List.take_sublist _ _).map _)
  · obtain ⟨row, there, rfl⟩ := List.mem_map.mp (items ▸ mem)
    obtain ⟨newest, max⟩ := Option.ne_none_iff_exists'.mp fun none =>
      List.ne_nil_of_mem there (maxCreatedAt_eq_none.mp none)
    exact ⟨newest, max, le_maxCreatedAt max there⟩
  · obtain ⟨row, there, rfl⟩ := List.mem_map.mp (items ▸ mem)
    have mine := listed row there
    exact ⟨row.1, (mem_inbox.mp mine).1, id_of_mem_inbox mine, rfl⟩
  · exact (mem_seen_addAll mem).resolve_left List.not_mem_nil

theorem steady_advance (steady : ∀ s, c.socket = some s → s.Steady c.world)
    (taken : c.advance dialect e = some d) : ∀ s, d.socket = some s → s.Steady d.world := by
  cases e with
  | outside action =>
    obtain ⟨w, step, rfl⟩ := Option.map_eq_some_iff.mp taken
    exact fun s open_ => (steady s open_).outside (moves_of_step step)
  | connect userId now =>
    simp only [Connection.advance] at taken
    split at taken
    · simp only [Option.ite_none_right_eq_some, Option.some.injEq] at taken
      obtain ⟨-, rfl⟩ := taken
      rintro s ⟨⟩
      exact steady_connect c.world userId now
    · cases taken
  | count now =>
    obtain ⟨s, open_, taken⟩ := Option.bind_eq_some_iff.mp taken
    obtain ⟨s', counted, rfl⟩ := Option.map_eq_some_iff.mp taken
    rintro s ⟨⟩
    exact ((steady _ open_).count counted).1
  | poll now =>
    obtain ⟨s, open_, taken⟩ := Option.bind_eq_some_iff.mp taken
    simp only [Option.ite_none_left_eq_some, Option.some.injEq, Option.not_isSome_iff_eq_none] at taken
    obtain ⟨idle, rfl⟩ := taken
    rintro s ⟨⟩
    exact (steady _ open_).poll idle
  | receive message now =>
    obtain ⟨s, open_, taken⟩ := Option.bind_eq_some_iff.mp taken
    simp only [Option.ite_none_left_eq_some, Option.some.injEq, Option.not_isSome_iff_eq_none] at taken
    obtain ⟨idle, rfl⟩ := taken
    rintro s ⟨⟩
    exact ((steady _ open_).receive idle).1
  | close =>
    obtain ⟨s, open_, rfl⟩ := Option.map_eq_some_iff.mp taken
    rintro s ⟨⟩

theorem steady_of_run {events : List Event}
    (reached : run (Connection.advance dialect) { world := w } events = some c) :
    ∀ s, c.socket = some s → s.Steady c.world := by
  refine run_preserves (P := fun c : Connection => ∀ s, c.socket = some s → s.Steady c.world)
    (fun steady taken => steady_advance steady taken) ?_ reached
  rintro s ⟨⟩

/-- A socket shows receipts of its user, none twice, the pushed ones in the order in which they
were made; and the store of what was sent never holds one back. -/
theorem shown_once {events : List Event}
    (reached : run (Connection.advance dialect) { world := w } events = some c)
    (opened : c.socket = some s) :
    (s.items.map InboxItem.id).Nodup ∧ (s.pushed.map InboxItem.createdAt).Pairwise (· ≤ ·) ∧
      (∀ item ∈ s.items, ∃ r ∈ c.world.receipts.rows, r.key = (item.id, s.userId)) ∧
      ∀ items unread, s.pending = some (.push items) →
        (Socket.push unread { s with pending := none } items).outbox =
          s.outbox ++ items.map fun item => .notification item unread := by
  have steady := steady_of_run reached s opened
  refine ⟨steady.once, steady.ascending, fun item mem => ?_, fun items unread waiting => ?_⟩
  · obtain ⟨r, there, key, -⟩ := steady.stored item mem
    exact ⟨r, there, key⟩
  · obtain ⟨apart, new⟩ := steady.new_of_push waiting
    rw [push_eq (s := { s with pending := none }) unread apart new]

def sooner : Uuid := .repeated 7

def later : Uuid := .repeated 8

/-- One notification is in the inbox when the socket opens, the other comes after the snapshot. -/
def opening : List Event :=
  [.outside (.addUser ⟨alice, true⟩),
    .outside (.publishToUser sooner alice { title := "t", content := "c" } false true 1),
    .connect alice 2, .count 3,
    .outside (.publishToUser later alice { title := "t", content := "c" } false true 4)]

theorem shown_once_each : ∃ c s,
    run (Connection.advance .postgresql) {} (opening ++ [.poll 5]) = some c ∧ c.socket = some s ∧
      s.items.map InboxItem.id = [sooner, later] ∧
      (s.items.map InboxItem.id).Nodup ∧ (s.pushed.map InboxItem.createdAt).Pairwise (· ≤ ·) ∧
      (∀ item ∈ s.items, ∃ r ∈ c.world.receipts.rows, r.key = (item.id, s.userId)) ∧
      ∀ items unread, s.pending = some (.push items) →
        (Socket.push unread { s with pending := none } items).outbox =
          s.outbox ++ items.map fun item => .notification item unread :=
  ⟨_, _, rfl, rfl, by decide, @shown_once .postgresql _ _ {} (opening ++ [.poll 5]) rfl rfl⟩

/-- The socket stays open, and whenever it polls the receipt is in the inbox, where no two have the
same time. -/
def Watched (r : NotificationReceipt) (c : Connection) : Event → Prop
  | .close => False
  | .poll now => ∀ s, c.socket = some s →
      (∃ row ∈ s.inbox c.world now, row.1.key = r.key) ∧ ∀ a ∈ s.inbox c.world now,
        ∀ b ∈ s.inbox c.world now, Row.createdAt a = Row.createdAt b → a = b
  | _ => True

/-- The receipt was shown, is about to be, or is newer than all that was seen. -/
def Socket.Reaches (s : Socket) (r : NotificationReceipt) : Prop :=
  r.notificationId ∈ s.items.map InboxItem.id ∨ ∃ last, s.lastSeenAt = some last ∧ last < r.createdAt

def Awaits (r : NotificationReceipt) (c : Connection) : Prop :=
  ∃ s, c.socket = some s ∧ s.Steady c.world ∧ s.userId = r.userId ∧
    (∃ q ∈ c.world.receipts.rows, q.key = r.key ∧ q.createdAt = r.createdAt) ∧ s.Reaches r

variable {r : NotificationReceipt} {s' : Socket}

theorem Socket.Reaches.of_alike (reaches : s.Reaches r) (alike : s.Alike s') : s'.Reaches r := by
  rw [Socket.Reaches, alike.items, alike.last]
  exact reaches

/-- The receipt that is in the inbox, as the socket has it. -/
theorem createdAt_of_key (steady : s.Steady w)
    (stored : ∃ q ∈ w.receipts.rows, q.key = r.key ∧ q.createdAt = r.createdAt) {now : ℤ} {row : Row}
    (listed : row ∈ s.inbox w now) (key : row.1.key = r.key) :
    row.2.id = r.notificationId ∧ row.createdAt = r.createdAt := by
  have here := id_of_mem_inbox listed
  refine ⟨(Prod.mk.inj (here.symm.trans key)).1, ?_⟩
  have there := stored_of_mem_inbox steady.drawn listed
  rw [← here, key] at there
  exact createdAt_unique there stored

theorem Socket.Reaches.poll (reaches : s.Reaches r) (steady : s.Steady w) (idle : s.pending = none)
    (stored : ∃ q ∈ w.receipts.rows, q.key = r.key ∧ q.createdAt = r.createdAt) {now : ℤ}
    (listed : ∃ row ∈ s.inbox w now, row.1.key = r.key)
    (apart : ∀ a ∈ s.inbox w now, ∀ b ∈ s.inbox w now, Row.createdAt a = Row.createdAt b → a = b) :
    (s.poll w now).Reaches r ∧ ∀ last, s.lastSeenAt = some last →
      (s.found w now last).length < snapshotLimit →
        r.notificationId ∈ (s.poll w now).items.map InboxItem.id := by
  obtain ⟨row, here, key⟩ := listed
  obtain ⟨id, createdAt⟩ := createdAt_of_key steady stored here key
  cases last : s.lastSeenAt with
  | none =>
    have same : s.poll w now = s := by simp only [Socket.poll, last]
    rw [same]
    exact ⟨reaches, fun _ some => (by cases some)⟩
  | some since =>
    have kept (mem : r.notificationId ∈ s.items.map InboxItem.id) {items : List InboxItem} :
        r.notificationId ∈ (s.items ++ items).map InboxItem.id := by
      rw [List.map_append]
      exact List.mem_append_left _ mem
    have on (mem : row ∈ s.found w now since) :
        r.notificationId ∈ (s.items ++ (s.found w now since).map toItem).map InboxItem.id := by
      rw [List.map_append, List.map_map]
      exact List.mem_append_right _ (List.mem_map.mpr ⟨row, mem, id⟩)
    have beyond : r.notificationId ∉ s.items.map InboxItem.id → since < row.createdAt := by
      intro unseen
      obtain ⟨last', same, newer⟩ := reaches.resolve_left unseen
      rw [last, Option.some.injEq] at same
      rwa [createdAt, same]
    rw [poll_of_some last]
    by_cases empty : s.found w now since = []
    · -- the receipt is not beyond the cursor, so it was shown
      have seen : r.notificationId ∈ s.items.map InboxItem.id := by
        by_contra unseen
        have short : (s.found w now since).length < snapshotLimit := by simp [empty, snapshotLimit]
        have found : row ∈ s.found w now since :=
          Cursor.mem_page_of_short short here (beyond unseen)
        rw [empty] at found
        cases found
      rw [if_pos (by simp [empty])]
      exact ⟨.inl seen, fun _ _ _ => seen⟩
    · rw [if_neg (by simpa using empty)]
      obtain ⟨newest, max⟩ := Option.ne_none_iff_exists'.mp (mt maxCreatedAt_eq_none.mp empty)
      rw [max]
      simp only [Option.some_or, Socket.Reaches, items_fetched idle]
      by_cases seen : r.notificationId ∈ s.items.map InboxItem.id
      · exact ⟨.inl (kept seen), fun _ _ _ => kept seen⟩
      · refine ⟨?_, fun last' same short => ?_⟩
        · have reached : row ∈ s.found w now since ∨
              ∀ b ∈ s.found w now since, Row.createdAt b < row.createdAt :=
            Cursor.mem_page_or_beyond (fun b mem same => apart b mem row here same) here (beyond seen)
          refine reached.imp on fun early => ⟨newest, rfl, ?_⟩
          obtain ⟨b, mem, rfl⟩ := List.mem_map.mp (List.max?_eq_some_iff.mp max).1
          exact createdAt ▸ early b mem
        · cases same
          exact on (Cursor.mem_page_of_short short here (beyond seen))

theorem awaits_advance (awaits : Awaits r c) (watched : Watched r c e)
    (taken : c.advance dialect e = some d) : Awaits r d := by
  obtain ⟨s, opened, steady, mine, stored, reaches⟩ := awaits
  cases e with
  | outside action =>
    obtain ⟨w, step, rfl⟩ := Option.map_eq_some_iff.mp taken
    have moves := moves_of_step step
    exact ⟨s, opened, steady.outside moves, mine, stored_later moves stored, reaches⟩
  | connect userId now => simp [Connection.advance, opened] at taken
  | count now =>
    simp only [Connection.advance, opened, Option.bind_some] at taken
    obtain ⟨s', counted, rfl⟩ := Option.map_eq_some_iff.mp taken
    obtain ⟨steady, alike⟩ := steady.count counted
    exact ⟨s', rfl, steady, alike.user.trans mine, stored, reaches.of_alike alike⟩
  | poll now =>
    simp only [Connection.advance, opened, Option.bind_some, Option.ite_none_left_eq_some,
      Option.some.injEq, Option.not_isSome_iff_eq_none] at taken
    obtain ⟨idle, rfl⟩ := taken
    obtain ⟨listed, apart⟩ := watched s opened
    exact ⟨_, rfl, steady.poll idle, (userId_poll s).trans mine, stored,
      (reaches.poll steady idle stored listed apart).1⟩
  | receive message now =>
    simp only [Connection.advance, opened, Option.bind_some, Option.ite_none_left_eq_some,
      Option.some.injEq, Option.not_isSome_iff_eq_none] at taken
    obtain ⟨idle, rfl⟩ := taken
    obtain ⟨steady, alike⟩ := @Socket.Steady.receive s c.world now steady idle message
    exact ⟨_, rfl, steady, alike.user.trans mine, stored, reaches.of_alike alike⟩
  | close => exact watched.elim

/-- What is newer than all that the socket has seen is not left out: as long as it is in the inbox
whenever the socket polls, and no two receipts there have the same time, it is shown or still
newer than all that was seen, and a poll that does not fill its page has it shown. -/
theorem nothing_left_out {before events : List Event}
    (opened : run (Connection.advance dialect) { world := w } before = some c)
    (socket : c.socket = some s) (there : r ∈ c.world.receipts.rows) (mine : r.userId = s.userId)
    (newer : ∃ last, s.lastSeenAt = some last ∧ last < r.createdAt)
    (watched : Along (Connection.advance dialect) (Watched r) c events)
    (reached : run (Connection.advance dialect) c events = some d) :
    ∃ s', d.socket = some s' ∧ s'.Reaches r ∧ ∀ now last, Watched r d (.poll now) →
      s'.pending = none → s'.lastSeenAt = some last →
        (s'.found d.world now last).length < snapshotLimit →
          r.notificationId ∈ (s'.poll d.world now).items.map InboxItem.id := by
  have start : Awaits r c :=
    ⟨s, socket, steady_of_run opened s socket, mine.symm, ⟨r, there, rfl, rfl⟩, .inr newer⟩
  obtain ⟨s', opened, steady, mine, stored, reaches⟩ := run_invariant
    (fun awaits watched taken => awaits_advance awaits watched taken) start watched reached
  refine ⟨s', opened, reaches, fun now last watched idle seen short => ?_⟩
  obtain ⟨listed, apart⟩ := watched s' opened
  exact (reaches.poll steady idle stored listed apart).2 last seen short

theorem nothing_left_out_later : ∃ c s r d s', r.notificationId = later ∧
    run (Connection.advance .postgresql) {} opening = some c ∧ c.socket = some s ∧
      run (Connection.advance .postgresql) c [.poll 5, .count 6] = some d ∧
      d.socket = some s' ∧ s'.Reaches r ∧ ∀ now last, Watched r d (.poll now) →
        s'.pending = none → s'.lastSeenAt = some last →
          (s'.found d.world now last).length < snapshotLimit →
            r.notificationId ∈ (s'.poll d.world now).items.map InboxItem.id := by
  have reached := @nothing_left_out .postgresql _ _ _ {} ⟨later, alice, none, 4, none, none⟩ opening
    [.poll 5, .count 6] rfl rfl List.mem_cons_self rfl ⟨1, rfl, by decide⟩
    ⟨fun s opened => by
      cases opened
      exact ⟨⟨_, List.mem_cons_self, rfl⟩, fun a first b second same =>
        List.inj_on_of_nodup_map (by decide) first second same⟩,
      fun t taken => ⟨trivial, fun u taken => trivial⟩⟩ rfl
  obtain ⟨s', opened, reaches, rest⟩ := reached
  exact ⟨_, _, _, _, s', rfl, rfl, rfl, rfl, opened, reaches, rest⟩

end Runs

end Deeting.Notifications
