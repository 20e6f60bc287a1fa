import Mathlib.Algebra.GroupWithZero.Nat
import Deeting.Notifications.Delivery

/-! Deliveries over whole runs, however often a message is delivered and wherever a worker is lost:
no receipt is written twice or taken back. -/
namespace Deeting.Notifications
open Transition

structure NotificationReceipt.Later (r later : NotificationReceipt) : Prop where
  key : later.key = r.key
  tenantId : later.tenantId = r.tenantId
  createdAt : later.createdAt = r.createdAt
  readAt : ∀ time, r.readAt = some time → later.readAt = some time
  archivedAt : ∀ time, r.archivedAt = some time → later.archivedAt = some time

def Inserts (receipts : Receipts) (payloads : List NotificationReceipt) (after : Receipts)
    (inserted : ℕ) : Prop :=
  ∃ added, after.rows = added ++ receipts.rows ∧ added.length = inserted ∧
    ∀ r ∈ added, r ∈ payloads

section Statements

variable {receipts after : Receipts} {payloads : List NotificationReceipt} {inserted : ℕ}
  {r later : NotificationReceipt}

theorem NotificationReceipt.Later.refl (r : NotificationReceipt) : r.Later r :=
  ⟨rfl, rfl, rfl, fun _ same => same, fun _ same => same⟩

theorem NotificationReceipt.Later.trans {last : NotificationReceipt} (first : r.Later later)
    (second : later.Later last) : r.Later last where
  key := second.key.trans first.key
  tenantId := second.tenantId.trans first.tenantId
  createdAt := second.createdAt.trans first.createdAt
  readAt time same := second.readAt time (first.readAt time same)
  archivedAt time same := second.archivedAt time (first.archivedAt time same)

theorem Inserts.nil : Inserts receipts [] receipts 0 :=
  ⟨[], rfl, rfl, nofun⟩

/-- A row that is new goes before what follows. -/
theorem Inserts.cons_of_new {more : Receipts} (new : receipts.insert? r = some more)
    (rest : Inserts more payloads after inserted) :
    Inserts receipts (r :: payloads) after (inserted + 1) := by
  obtain ⟨-, rows⟩ := Table.insert?_eq_some.mp new
  obtain ⟨added, all, length, among⟩ := rest
  refine ⟨added ++ [r], ?_, by simp [length], ?_⟩
  · rw [all, rows, List.append_assoc, List.singleton_append]
  · intro x mem
    rcases List.mem_append.mp mem with there | last
    · exact List.mem_cons_of_mem _ (among x there)
    · exact List.mem_singleton.mp last ▸ List.mem_cons_self

/-- A row whose key is used is passed over. -/
theorem Inserts.cons_of_used (rest : Inserts receipts payloads after inserted) :
    Inserts receipts (r :: payloads) after inserted := by
  obtain ⟨added, all, length, among⟩ := rest
  exact ⟨added, all, length, fun x mem => List.mem_cons_of_mem _ (among x mem)⟩

theorem insertIgnoring_inserts (receipts : Receipts) (payloads : List NotificationReceipt) :
    Inserts receipts payloads (insertIgnoring receipts payloads).1
      (insertIgnoring receipts payloads).2 := by
  induction payloads generalizing receipts with
  | nil => exact .nil
  | cons r rest ih =>
    rw [insertIgnoring]
    split
    · exact (ih receipts).cons_of_used
    · rename_i more new
      exact .cons_of_new new (ih more)

theorem insertEach_inserts (done : insertEach receipts payloads = some (after, inserted)) :
    Inserts receipts payloads after inserted := by
  induction payloads generalizing receipts after inserted with
  | nil =>
    cases done
    exact .nil
  | cons r rest ih =>
    simp only [insertEach, Option.bind_eq_bind, Option.bind_eq_some_iff] at done
    obtain ⟨more, new, ⟨all, n⟩, each, done⟩ := done
    cases done
    exact .cons_of_new new (ih each)

theorem insertReceipts_inserts {dialect : Dialect}
    (done : insertReceipts dialect receipts payloads = some (after, inserted)) :
    Inserts receipts payloads after inserted := by
  cases dialect with
  | postgresql | sqlite =>
    have all : insertIgnoring receipts payloads = (after, inserted) := Option.some.inj done
    have inserts := insertIgnoring_inserts receipts payloads
    rwa [all] at inserts
  | other => exact insertEach_inserts done

/-- What has a time keeps it. -/
theorem stamp_of_some {now time : ℤ} {stored : Option ℤ} (has : stored = some time) :
    stamp now stored = some time := by
  rw [has]
  rfl

theorem later_of_read (now : ℤ) : r.Later { r with readAt := stamp now r.readAt } :=
  ⟨rfl, rfl, rfl, fun _ has => stamp_of_some has, fun _ has => has⟩

theorem later_of_archived (now : ℤ) : r.Later { r with archivedAt := stamp now r.archivedAt } :=
  ⟨rfl, rfl, rfl, fun _ has => has, fun _ has => stamp_of_some has⟩

theorem later_of_ite {p : Prop} [Decidable p] (changed : r.Later later) :
    r.Later (if p then later else r) := by
  split
  · exact changed
  · exact .refl r

end Statements

inductive Moves (w : World) : World → Prop where
  | users (users : Table User.id) : Moves w { w with users }
  | publishes (n : Notification) (notifications : Table Notification.id)
      (inserted : w.notifications.insert? n = some notifications) (messages : List Message)
      (about : ∀ m ∈ messages, m.notificationId = n.id) :
      Moves w { w with notifications, sent := w.sent ++ messages }
  | writes (n : Notification) (notifications : Table Notification.id)
      (inserted : w.notifications.insert? n = some notifications) (r : NotificationReceipt)
      (receipts : Receipts) (written : w.receipts.insert? r = some receipts) :
      Moves w { w with notifications, receipts, direct := w.direct ++ [r.key] }
  | delivers (message : Message) (sent : message ∈ w.sent) :
      Moves w { w with runs := w.runs ++ [{ message }] }
  | stamps (f : NotificationReceipt → NotificationReceipt) (keeps : ∀ r, (f r).key = r.key)
      (later : ∀ r : NotificationReceipt, r.Later (f r)) :
      Moves w { w with receipts := w.receipts.rewrite f keeps }
  | finds (i : ℕ) (d : Delivery) (there : w.runs[i]? = some d) :
      Moves w (w.setRun i { d with stage := .found })
  | loses (i : ℕ) (d : Delivery) (there : w.runs[i]? = some d) :
      Moves w (w.setRun i { d with stage := .lost })
  | misses (i : ℕ) (d : Delivery) (there : w.runs[i]? = some d)
      (missing : w.notifications.find? d.message.notificationId = none ∨
        w.select d.message = none) : Moves w (w.setRun i { d with stage := .ended })
  | selects (i : ℕ) (d : Delivery) (there : w.runs[i]? = some d) (selected : List Uuid)
      (reads : w.select d.message = some selected) :
      Moves w (w.setRun i { d with stage := .sending selected, selected })
  | ends (i : ℕ) (d : Delivery) (there : w.runs[i]? = some d) (done : d.stage = .sending []) :
      Moves w (w.setRun i { d with stage := .ended })
  | sends (i : ℕ) (d : Delivery) (there : w.runs[i]? = some d) (remaining : List Uuid)
      (sending : d.stage = .sending remaining) (n : Notification)
      (found : w.notifications.find? d.message.notificationId = some n) (now : Uuid → ℤ)
      (receipts : Receipts) (inserted : ℕ)
      (inserts : Inserts w.receipts (buildReceipts n (remaining.take defaultBatchSize) now)
        receipts inserted) :
      Moves w ({ w with receipts }.setRun i { d with
        stage := .sending (remaining.drop defaultBatchSize)
        inserted := d.inserted + inserted })

section Steps

variable {dialect : Dialect} {w t : World} {a : Action}

theorem createNotification_eq_some {n : Notification} {created : World}
    (creates : w.createNotification n = some created) :
    ∃ notifications, w.notifications.insert? n = some notifications ∧
      created = { w with notifications } := by
  rw [World.createNotification] at creates
  split at creates
  · cases creates
  · obtain ⟨notifications, inserted, rfl⟩ := Option.map_eq_some_iff.mp creates
    exact ⟨notifications, inserted, rfl⟩

theorem moves_of_send {n : Notification} {created : World} {message : Message} {taken : Bool}
    (creates : w.createNotification n = some created) (about : message.notificationId = n.id) :
    Moves w (created.send message taken) := by
  obtain ⟨notifications, inserted, rfl⟩ := createNotification_eq_some creates
  cases taken with
  | true => exact .publishes n notifications inserted [message] (by simpa using about)
  | false => simpa [World.send] using Moves.publishes n notifications inserted [] (by simp)

theorem moves_of_publishToUser {id userId : Uuid} {draft : Draft} {enqueue taken : Bool} {now : ℤ}
    (published : w.publishToUser id userId draft enqueue taken now = some t) : Moves w t := by
  simp only [World.publishToUser, Option.bind_eq_bind, Option.bind_eq_some_iff] at published
  obtain ⟨created, creates, published⟩ := published
  split at published
  · cases published
    exact moves_of_send creates rfl
  · simp only [Option.bind_eq_some_iff] at published
    obtain ⟨_, _, receipts, written, published⟩ := published
    cases published
    obtain ⟨notifications, inserted, rfl⟩ := createNotification_eq_some creates
    exact .writes _ notifications inserted _ receipts written

theorem moves_of_publishToAll {id : Uuid} {draft : Draft} {activeOnly enqueue taken : Bool}
    (published : w.publishToAll id draft activeOnly enqueue taken = some t) : Moves w t := by
  simp only [World.publishToAll, Option.bind_eq_bind, Option.bind_eq_some_iff] at published
  obtain ⟨created, creates, published⟩ := published
  split at published
  · cases published
    exact moves_of_send creates rfl
  · cases published

theorem moves_of_sendBatch {i : ℕ} {d : Delivery} {remaining : List Uuid} {now : Uuid → ℤ}
    (there : w.runs[i]? = some d) (sending : d.stage = .sending remaining) :
    Moves w (w.sendBatch dialect i d remaining now) := by
  simp only [World.sendBatch]
  split
  · exact .loses i d there
  · rename_i receipts inserted written
    obtain ⟨n, found, written⟩ := Option.bind_eq_some_iff.mp written
    exact .sends i d there remaining sending n found now receipts inserted
      (insertReceipts_inserts written)

theorem moves_of_resume {i : ℕ} {d : Delivery} {now : Uuid → ℤ} (there : w.runs[i]? = some d)
    (resumed : w.resume dialect i d now = some t) : Moves w t := by
  rw [World.resume] at resumed
  split at resumed
  · cases resumed
    cases found : w.notifications.find? d.message.notificationId with
    | none => exact .misses i d there (.inl found)
    | some n => exact .finds i d there
  · split at resumed
    · rename_i missing
      cases resumed
      exact .misses i d there (.inr missing)
    · rename_i selected reads
      cases resumed
      exact .selects i d there selected reads
  · rename_i done
    cases resumed
    exact .ends i d there done
  · rename_i userId rest sending
    cases resumed
    exact moves_of_sendBatch there sending
  · cases resumed
  · cases resumed

theorem moves_of_getD {published : Option World} (moves : ∀ t, published = some t → Moves w t) :
    Moves w (published.getD w) := by
  cases published with
  | none => exact .users w.users
  | some t => exact moves t rfl

theorem moves_of_step (taken : step dialect w a = some t) : Moves w t := by
  cases a with
  | addUser user =>
    obtain ⟨users, -, rfl⟩ := Option.map_eq_some_iff.mp taken
    exact .users users
  | setActive userId isActive =>
    cases taken
    exact .users _
  | publishToUser id userId draft enqueue taken' now =>
    cases taken
    exact moves_of_getD fun t => moves_of_publishToUser
  | publishToAll id draft activeOnly enqueue taken' =>
    cases taken
    exact moves_of_getD fun t => moves_of_publishToAll
  | deliver message =>
    simp only [step, Option.ite_none_right_eq_some, Option.some.injEq] at taken
    obtain ⟨sent, rfl⟩ := taken
    exact .delivers message sent
  | resume i now =>
    obtain ⟨d, there, resumed⟩ := Option.bind_eq_some_iff.mp taken
    exact moves_of_resume there resumed
  | lose i =>
    obtain ⟨d, there, lost⟩ := Option.bind_eq_some_iff.mp taken
    simp only [Option.ite_none_left_eq_some, Option.some.injEq] at lost
    obtain ⟨-, rfl⟩ := lost
    exact .loses i d there
  | markRead userId notificationId now =>
    cases taken
    exact .stamps _ _ fun r => later_of_ite (later_of_read now)
  | markAllRead userId now =>
    cases taken
    exact .stamps _ _ fun r => later_of_ite (later_of_read now)
  | archiveAll userId now =>
    cases taken
    exact .stamps _ _ fun r => later_of_ite (later_of_archived now)

end Steps

section Growth

variable {dialect : Dialect} {first actions : List Action} {w t : World} {d : Delivery}
  {message : Message} {selected : List Uuid} {r : NotificationReceipt}

@[simp] theorem receipts_setRun (i : ℕ) : (w.setRun i d).receipts = w.receipts := rfl

@[simp] theorem direct_setRun (i : ℕ) : (w.setRun i d).direct = w.direct := rfl

/-- Receipts stay, and what a user has done with one is not undone. -/
theorem Moves.later (moves : Moves w t) (mem : r ∈ w.receipts.rows) :
    ∃ later ∈ t.receipts.rows, r.Later later := by
  cases moves with
  | writes n notifications inserted new receipts written =>
    refine ⟨r, ?_, .refl r⟩
    rw [(Table.insert?_eq_some.mp written).2]
    exact List.mem_cons_of_mem _ mem
  | stamps f keeps later => exact ⟨f r, List.mem_map_of_mem mem, later r⟩
  | sends i d there remaining sending n found now receipts inserted inserts =>
    obtain ⟨added, rows, -⟩ := inserts
    refine ⟨r, ?_, .refl r⟩
    rw [receipts_setRun, rows]
    exact List.mem_append_right _ mem
  | _ => exact ⟨r, mem, .refl r⟩

end Growth

/-- How many receipts of a notification the commits of all runs have written, as the tasks count
them. -/
def World.written (w : World) (notificationId : Uuid) : ℕ :=
  (w.runs.map fun d => if d.message.notificationId = notificationId then d.inserted else 0).sum

def World.Counted (w : World) : Prop :=
  ∀ notificationId, w.receipts.rows.countP (fun r => r.notificationId = notificationId) =
    w.direct.countP (fun key => key.1 = notificationId) + w.written notificationId

section Counting

variable {w t : World} {d d' : Delivery} {notificationId : Uuid}

theorem written_setRun {i : ℕ} (there : w.runs[i]? = some d) (message : d'.message = d.message)
    (inserted : d'.inserted = d.inserted) :
    (w.setRun i d').written notificationId = w.written notificationId := by
  have same := Counting.map_set_of_eq
    (fun d : Delivery => if d.message.notificationId = notificationId then d.inserted else 0)
    (d := d') there (by simp only [message, inserted])
  simp only [World.written, World.setRun, same]

theorem counted_setRun {i : ℕ} (there : w.runs[i]? = some d) (message : d'.message = d.message)
    (inserted : d'.inserted = d.inserted) (counted : w.Counted) : (w.setRun i d').Counted := by
  intro notificationId
  rw [written_setRun there message inserted]
  exact counted notificationId

/-- A statement adds as many receipts of the notification as it counts, and no others. -/
theorem Inserts.countP {receipts after : Receipts} {n : Notification} {users : List Uuid}
    {now : Uuid → ℤ} {inserted : ℕ}
    (inserts : Inserts receipts (buildReceipts n users now) after inserted) :
    after.rows.countP (fun r => r.notificationId = notificationId) =
      (if n.id = notificationId then inserted else 0) +
        receipts.rows.countP fun r => r.notificationId = notificationId := by
  obtain ⟨added, rows, length, among⟩ := inserts
  have about : ∀ r ∈ added, r.notificationId = n.id := by
    intro r mem
    obtain ⟨userId, -, rfl⟩ := List.mem_map.mp (among r mem)
    rfl
  rw [rows, List.countP_append]
  congr 1
  split
  · rename_i same
    rw [← length, List.countP_eq_length]
    exact fun r mem => decide_eq_true ((about r mem).trans same)
  · rename_i other
    rw [List.countP_eq_zero]
    exact fun r mem here => other ((about r mem).symm.trans (of_decide_eq_true here))

theorem Moves.counted (moves : Moves w t) (counted : w.Counted) : t.Counted := by
  cases moves with
  | users | publishes => exact counted
  | finds i d there | loses i d there | misses i d there | ends i d there =>
    exact counted_setRun there (by rfl) (by rfl) counted
  | selects i d there => exact counted_setRun there (by rfl) (by rfl) counted
  | delivers message sent =>
    intro notificationId
    have before := counted notificationId
    simp only [World.written, List.map_append, List.sum_append, List.map_cons, List.map_nil,
      List.sum_cons, List.sum_nil, ite_self, add_zero] at before ⊢
    exact before
  | writes n notifications inserted r receipts written =>
    intro notificationId
    have before := counted notificationId
    simp only [World.written, (Table.insert?_eq_some.mp written).2, List.countP_cons,
      List.countP_append, List.countP_nil, NotificationReceipt.key] at before ⊢
    omega
  | stamps f keeps later =>
    intro notificationId
    have same : ∀ r : NotificationReceipt, (f r).notificationId = r.notificationId := fun r =>
      (Prod.mk.inj (keeps r)).1
    have before := counted notificationId
    simp only [World.written, Table.rewrite, List.countP_map, Function.comp_def, same] at before ⊢
    exact before
  | sends i d there remaining sending n found now receipts inserted inserts =>
    intro notificationId
    have before := counted notificationId
    have runs := Counting.sum_set_add
      (fun d : Delivery => if d.message.notificationId = notificationId then d.inserted else 0)
      { d with
        stage := .sending (remaining.drop defaultBatchSize)
        inserted := d.inserted + inserted } there
    have key : n.id = d.message.notificationId := Table.key_of_find? found
    simp only [World.written, World.setRun, inserts.countP, key] at before runs ⊢
    by_cases about : d.message.notificationId = notificationId
    · rw [if_pos about] at runs ⊢
      rw [if_pos about] at runs
      omega
    · rw [if_neg about] at runs ⊢
      rw [if_neg about] at runs
      omega

end Counting

section Runs

variable {dialect : Dialect} {first second actions : List Action} {w t : World}

def alice : Uuid := .repeated 1

def bob : Uuid := .repeated 2

def carol : Uuid := .repeated 3

def news : Uuid := .repeated 9

def announced : List Action :=
  [.addUser ⟨alice, true⟩, .addUser ⟨bob, false⟩, .addUser ⟨carol, true⟩,
    .publishToAll news { title := "t", content := "c" } true true true,
    .deliver (.toAll news true), .resume 0 fun _ => 1, .resume 0 fun _ => 2, .lose 0]

def delivered : List Action :=
  announced ++ [.deliver (.toAll news true), .resume 1 fun _ => 3, .resume 1 fun _ => 4,
    .resume 1 fun _ => 5, .resume 1 fun _ => 6]

/-- And once more, after the first user has read her receipt. -/
def again : List Action :=
  [.markRead alice news 7, .deliver (.toAll news true), .resume 2 fun _ => 8, .resume 2 fun _ => 9,
    .resume 2 fun _ => 10, .resume 2 fun _ => 11]

/-- A receipt stays, with the times that its user has given it, and every receipt is counted by
just one run. -/
theorem receipts_kept (reached : run (step dialect) {} first = some w)
    (on : run (step dialect) w second = some t) :
    (∀ r ∈ w.receipts.rows, ∃ later ∈ t.receipts.rows, r.Later later) ∧ t.Counted := by
  constructor
  · intro r mem
    refine run_preserves (P := fun v => ∃ later ∈ v.receipts.rows, r.Later later) ?_
      ⟨r, mem, .refl r⟩ on
    rintro u a v ⟨later, there, since⟩ taken
    obtain ⟨last, there, again⟩ := (moves_of_step taken).later there
    exact ⟨last, there, since.trans again⟩
  · have counted : w.Counted := run_preserves (P := World.Counted)
      (fun held taken => (moves_of_step taken).counted held) (fun _ => rfl) reached
    exact run_preserves (P := World.Counted)
      (fun held taken => (moves_of_step taken).counted held) counted on

theorem receipts_kept_again : ∃ w t, run (step .postgresql) {} delivered = some w ∧
    run (step .postgresql) w again = some t ∧
      t.receipts.rows.map NotificationReceipt.readAt = [some 7, none] ∧
      (∀ r ∈ w.receipts.rows, ∃ later ∈ t.receipts.rows, r.Later later) ∧ t.Counted :=
  ⟨_, _, rfl, rfl, by decide, @receipts_kept .postgresql delivered again _ _ rfl rfl⟩

end Runs

end Deeting.Notifications
