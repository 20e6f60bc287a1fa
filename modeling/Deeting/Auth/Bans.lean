import Mathlib.Data.Int.Order.Basic
import Mathlib.Logic.Function.Basic
import Deeting.Expiry
import Deeting.Transition

/-! `ban_user`, `ban_tenant` and their lifts, on the markers they leave in the cache, against
the bans themselves. Times are seconds. -/
namespace Deeting.Auth
open Transition Expiry

abbrev UserId := String

abbrev TenantId := String

structure BanData where
  temporary : Bool
  reason : String
  tenantId : Option TenantId
  expiresAt : Option ℤ
  deriving DecidableEq

/-- `duration_hours * 3600 if duration_hours else None`. -/
def banTtl (durationHours : Option ℤ) : Option ℤ :=
  durationHours.bind fun hours => if hours = 0 then none else some (hours * 3600)

def banData (now : ℤ) (reason : String) (durationHours : Option ℤ) (tenantId : Option TenantId) :
    BanData where
  temporary := (banTtl durationHours).isSome
  reason := reason
  tenantId := tenantId
  expiresAt := (banTtl durationHours).map fun ttl => now + ttl

/-- `cache.set`; Redis refuses a lifetime that is not positive, and nothing is set. -/
def cacheSet {V : Type} (now : ℤ) (value : V) (ttl : Option ℤ) (slot : Option (Entry ℤ V)) :
    Option (Entry ℤ V) :=
  match ttl with
  | none => some ⟨value, none⟩
  | some ttl => if 0 < ttl then some ⟨value, some (now + ttl)⟩ else slot

inductive Ban where
  | user (id : UserId) (tenant : Option TenantId) (ends : Option ℤ)
  | tenant (id : TenantId) (ends : Option ℤ)
  deriving DecidableEq

def Lasts (ends : Option ℤ) (time : ℤ) : Prop := ∀ e ∈ ends, time < e

namespace Ban

def ends : Ban → Option ℤ
  | .user _ _ ends | .tenant _ ends => ends

def OfUser (user : UserId) : Ban → Prop
  | .user id _ _ => id = user
  | .tenant .. => False

def OfTenant (tenant : TenantId) : Ban → Prop
  | .user .. => False
  | .tenant id _ => id = tenant

def OnTenant (tenant : TenantId) : Ban → Prop
  | .user _ named _ => named = some tenant
  | .tenant id _ => id = tenant

instance (user : UserId) : (ban : Ban) → Decidable (ban.OfUser user)
  | .user id _ _ => inferInstanceAs (Decidable (id = user))
  | .tenant .. => .isFalse id

instance (tenant : TenantId) : (ban : Ban) → Decidable (ban.OfTenant tenant)
  | .user .. => .isFalse id
  | .tenant id _ => inferInstanceAs (Decidable (id = tenant))

end Ban

/-- The markers in the cache, and the bans that are not lifted. -/
structure BanWorld where
  now : ℤ
  authBan : UserId → Option (Entry ℤ BanData) := fun _ => none
  userBan : UserId → Option (Entry ℤ BanData) := fun _ => none
  tenantBan : TenantId → Option (Entry ℤ BanData) := fun _ => none
  placed : List Ban := []

inductive BanAction where
  | tick (seconds : ℕ)
  | banUser (user : UserId) (reason : String) (durationHours : Option ℤ) (tenant : Option TenantId)
  | banTenant (tenant : TenantId) (reason : String) (durationHours : Option ℤ)
  | unbanUser (user : UserId)
  | unbanTenant (tenant : TenantId)
  | status (user : UserId)

namespace BanWorld

def banEnds (w : BanWorld) (durationHours : Option ℤ) : Option ℤ :=
  (banTtl durationHours).map fun ttl => w.now + ttl

/-- `cache.set` under one key of several. -/
def mark {K : Type} [DecidableEq K] (now : ℤ) (data : BanData) (ttl : Option ℤ) (key : K)
    (slots : K → Option (Entry ℤ BanData)) : K → Option (Entry ℤ BanData) :=
  Function.update slots key (cacheSet now data ttl (slots key))

def banUser (w : BanWorld) (user : UserId) (reason : String) (durationHours : Option ℤ)
    (tenant : Option TenantId) : BanWorld :=
  let data := banData w.now reason durationHours tenant
  let ttl := banTtl durationHours
  { w with
    authBan := mark w.now data ttl user w.authBan
    userBan := mark w.now data ttl user w.userBan
    tenantBan := tenant.elim w.tenantBan fun tenant => mark w.now data ttl tenant w.tenantBan
    placed := .user user tenant (w.banEnds durationHours) :: w.placed }

def banTenant (w : BanWorld) (tenant : TenantId) (reason : String) (durationHours : Option ℤ) :
    BanWorld :=
  { w with
    tenantBan := mark w.now (banData w.now reason durationHours (some tenant))
      (banTtl durationHours) tenant w.tenantBan
    placed := .tenant tenant (w.banEnds durationHours) :: w.placed }

def named (w : BanWorld) (user : UserId) : Option TenantId :=
  (live w.now (w.userBan user)).bind fun e => e.value.tenantId

def unbanUser (w : BanWorld) (user : UserId) : BanWorld :=
  { w with
    authBan := Function.update w.authBan user none
    userBan := Function.update w.userBan user none
    tenantBan := (w.named user).elim w.tenantBan fun tenant =>
      Function.update w.tenantBan tenant none
    placed := w.placed.filter fun ban => ¬ ban.OfUser user }

def unbanTenant (w : BanWorld) (tenant : TenantId) : BanWorld :=
  { w with
    tenantBan := Function.update w.tenantBan tenant none
    placed := w.placed.filter fun ban => ¬ ban.OfTenant tenant }

/-- The check of `get_ban_status` on the data that it reads. -/
def hasEnded (now : ℤ) (data : BanData) : Bool :=
  data.temporary && data.expiresAt.any fun ends => ends < now

def getBanStatus (w : BanWorld) (user : UserId) : BanWorld × Option BanData :=
  match live w.now (w.authBan user) with
  | none => (w, none)
  | some e =>
    if hasEnded w.now e.value then
      ({ w with authBan := Function.update w.authBan user none }, none)
    else (w, some e.value)

end BanWorld

def banStep (w : BanWorld) : BanAction → BanWorld
  | .tick seconds => { w with now := w.now + seconds }
  | .banUser user reason durationHours tenant => w.banUser user reason durationHours tenant
  | .banTenant tenant reason durationHours => w.banTenant tenant reason durationHours
  | .unbanUser user => w.unbanUser user
  | .unbanTenant tenant => w.unbanTenant tenant
  | .status user => (w.getBanStatus user).1

def Outlasts (now : ℤ) (ends : Option ℤ) (covered : ℤ → Prop) : Prop :=
  Lasts ends now → ∀ time, now ≤ time → covered time → Lasts ends time

/-- The marker is there from now on just while something is covered. -/
def Agrees (now : ℤ) (slot : Option (Entry ℤ BanData)) (covered : ℤ → Prop) : Prop :=
  ∀ time, now ≤ time → ((live time slot).isSome ↔ covered time)

namespace BanWorld

def UserCovered (w : BanWorld) (user : UserId) (time : ℤ) : Prop :=
  ∃ ban ∈ w.placed, ban.OfUser user ∧ Lasts ban.ends time

/-- A ban that covers the tenant, not lifted and not expired at that time. -/
def TenantCovered (w : BanWorld) (tenant : TenantId) (time : ℤ) : Prop :=
  ∃ ban ∈ w.placed, ban.OnTenant tenant ∧ Lasts ban.ends time

def StillCovered (w : BanWorld) (user : UserId) (tenant : TenantId) (time : ℤ) : Prop :=
  ∃ ban ∈ w.placed, ¬ ban.OfUser user ∧ ban.OnTenant tenant ∧ Lasts ban.ends time

def Dated (w : BanWorld) : Prop :=
  ∀ user, ∀ e ∈ w.authBan user, e.value.expiresAt = e.deadline

/-- However much time passes, users and tenants are marked just while a ban covers them. -/
structure Lawful (w : BanWorld) : Prop where
  auth : ∀ user, Agrees w.now (w.authBan user) (w.UserCovered user)
  user : ∀ user, Agrees w.now (w.userBan user) (w.UserCovered user)
  tenant : ∀ tenant, Agrees w.now (w.tenantBan tenant) (w.TenantCovered tenant)

/-- A new ban, if it lasts at all, lasts as long as all that is marked in its place. No ban of
a user that names a tenant is in force when the tenant is unbanned. When a user is unbanned
whose marker names a tenant, no other ban covers that tenant, and a tenant that only earlier
bans of the user name is covered by others as long. -/
def Keeps (w : BanWorld) : BanAction → Prop
  | .tick _ | .status _ => True
  | .banUser user _ durationHours tenant =>
    Outlasts w.now (w.banEnds durationHours) (w.UserCovered user) ∧
    ∀ t ∈ tenant, Outlasts w.now (w.banEnds durationHours) (w.TenantCovered t)
  | .banTenant tenant _ durationHours =>
    Outlasts w.now (w.banEnds durationHours) (w.TenantCovered tenant)
  | .unbanUser user =>
    (∀ tenant ∈ w.named user, ∀ ban ∈ w.placed, ¬ ban.OfUser user → ban.OnTenant tenant →
      ¬ Lasts ban.ends w.now) ∧
    ∀ tenant, tenant ∉ w.named user → ∀ time, w.now ≤ time → w.TenantCovered tenant time →
      w.StillCovered user tenant time
  | .unbanTenant tenant =>
    ∀ ban ∈ w.placed, ¬ ban.OfTenant tenant → ban.OnTenant tenant → ¬ Lasts ban.ends w.now

end BanWorld

section Agrees

variable {now time : ℤ} {slot : Option (Entry ℤ BanData)} {covered : ℤ → Prop} {data : BanData}
  {ends ttl : Option ℤ}

theorem Lasts.earlier (lasts : Lasts ends time) (order : now ≤ time) : Lasts ends now :=
  fun e mem => order.trans_lt (lasts e mem)

theorem live_lasts : (live time (some (⟨data, ends⟩ : Entry ℤ BanData))).isSome ↔ Lasts ends time := by
  cases ends with
  | none => simp [live, Lasts]
  | some e => simp [live, Lasts, Entry.alive]

theorem agrees_none : Agrees now none covered ↔ ∀ time, now ≤ time → ¬ covered time := by
  simp [Agrees]

theorem agrees_later (agrees : Agrees now slot covered) (seconds : ℕ) :
    Agrees (now + seconds) slot covered :=
  fun time later => agrees time (by omega)

theorem agrees_congr {other : ℤ → Prop} (same : ∀ time, covered time ↔ other time) :
    Agrees now slot covered ↔ Agrees now slot other := by
  simp only [Agrees, same]

theorem cacheSet_eq : cacheSet now data ttl slot =
    if ∀ t ∈ ttl, 0 < t then some ⟨data, ttl.map fun t => now + t⟩ else slot := by
  cases ttl with
  | none => simp [cacheSet]
  | some t => simp [cacheSet]

theorem lasts_now : Lasts (ttl.map fun t => now + t) now ↔ ∀ t ∈ ttl, 0 < t := by
  cases ttl with
  | none => simp [Lasts]
  | some t =>
    simp only [Lasts, Option.map_some, Option.mem_some_iff, forall_eq']
    omega

/-- A new marker is true to the new ban and the old ones just when none of these outlasts it. -/
theorem agrees_cacheSet (data : BanData) (agrees : Agrees now slot covered) :
    Agrees now (cacheSet now data ttl slot)
        (fun time => Lasts (ttl.map fun t => now + t) time ∨ covered time) ↔
      Outlasts now (ttl.map fun t => now + t) covered := by
  rw [cacheSet_eq]
  by_cases lasts : Lasts (ttl.map fun t => now + t) now
  · rw [if_pos (lasts_now.mp lasts)]
    constructor
    · intro agrees' _ time later covers
      exact live_lasts.mp ((agrees' time later).mpr (.inr covers))
    · intro outlasts time later
      rw [live_lasts]
      exact (or_iff_left_of_imp (outlasts lasts time later)).symm
  · rw [if_neg (mt lasts_now.mpr lasts)]
    refine iff_of_true (fun time later => ?_) fun now_ => absurd now_ lasts
    rw [agrees time later]
    exact (or_iff_right fun still => lasts (still.earlier later)).symm

end Agrees

section Steps

variable {w : BanWorld} {a : BanAction}

namespace BanWorld

theorem Lawful.tick (lawful : w.Lawful) (seconds : ℕ) :
    Lawful { w with now := w.now + seconds } where
  auth user := agrees_later (lawful.auth user) seconds
  user user := agrees_later (lawful.user user) seconds
  tenant tenant := agrees_later (lawful.tenant tenant) seconds

theorem userCovered_banUser (user other : UserId) (reason : String) (durationHours : Option ℤ)
    (tenant : Option TenantId) (time : ℤ) :
    (w.banUser user reason durationHours tenant).UserCovered other time ↔
      user = other ∧ Lasts (w.banEnds durationHours) time ∨ w.UserCovered other time := by
  simp [UserCovered, banUser, Ban.OfUser, Ban.ends]

theorem tenantCovered_banUser (user : UserId) (reason : String) (durationHours : Option ℤ)
    (tenant : Option TenantId) (other : TenantId) (time : ℤ) :
    (w.banUser user reason durationHours tenant).TenantCovered other time ↔
      tenant = some other ∧ Lasts (w.banEnds durationHours) time ∨ w.TenantCovered other time := by
  simp [TenantCovered, banUser, Ban.OnTenant, Ban.ends]

theorem tenantCovered_banTenant (tenant other : TenantId) (reason : String)
    (durationHours : Option ℤ) (time : ℤ) :
    (w.banTenant tenant reason durationHours).TenantCovered other time ↔
      tenant = other ∧ Lasts (w.banEnds durationHours) time ∨ w.TenantCovered other time := by
  simp [TenantCovered, banTenant, Ban.OnTenant, Ban.ends]

/-- A marker set under one key is true under it by its new ban, and elsewhere as before. -/
theorem agrees_mark {K : Type} [DecidableEq K] (data : BanData) {durationHours : Option ℤ} {key : K}
    {slots : K → Option (Entry ℤ BanData)} {covered later : K → ℤ → Prop}
    (agrees : ∀ k, Agrees w.now (slots k) (covered k))
    (after : ∀ k time, later k time ↔
      key = k ∧ Lasts (w.banEnds durationHours) time ∨ covered k time) :
    (∀ k, Agrees w.now (mark w.now data (banTtl durationHours) key slots k) (later k)) ↔
      Outlasts w.now (w.banEnds durationHours) (covered key) := by
  have own : Agrees w.now (mark w.now data (banTtl durationHours) key slots key) (later key) ↔
      Outlasts w.now (w.banEnds durationHours) (covered key) := by
    rw [mark, Function.update_self, banEnds, ← agrees_cacheSet data (agrees key)]
    apply agrees_congr
    intro time
    simp [after, banEnds]
  rw [← own]
  refine ⟨fun all => all key, fun now k => ?_⟩
  by_cases same : k = key
  · exact same ▸ now
  · rw [mark, Function.update_of_ne same]
    refine (agrees_congr fun time => ?_).mpr (agrees k)
    simp [after, Ne.symm same]

theorem lawful_banUser (lawful : w.Lawful) {user : UserId} {reason : String}
    {durationHours : Option ℤ} {tenant : Option TenantId} :
    (w.banUser user reason durationHours tenant).Lawful ↔
      w.Keeps (.banUser user reason durationHours tenant) := by
  have auth := agrees_mark (banData w.now reason durationHours tenant) lawful.auth
    (userCovered_banUser user · reason durationHours tenant)
  have users := agrees_mark (banData w.now reason durationHours tenant) lawful.user
    (userCovered_banUser user · reason durationHours tenant)
  have tenants : (∀ t, Agrees w.now ((w.banUser user reason durationHours tenant).tenantBan t)
        ((w.banUser user reason durationHours tenant).TenantCovered t)) ↔
      ∀ t ∈ tenant, Outlasts w.now (w.banEnds durationHours) (w.TenantCovered t) := by
    cases tenant with
    | none =>
      refine iff_of_true (fun t => ?_) (by simp)
      refine (agrees_congr fun time => ?_).mpr (lawful.tenant t)
      simp [tenantCovered_banUser]
    | some named =>
      simp only [Option.mem_some_iff, forall_eq']
      apply agrees_mark _ lawful.tenant
      intro t time
      rw [tenantCovered_banUser, Option.some.injEq]
  constructor
  · intro after
    exact ⟨auth.mp after.auth, tenants.mp after.tenant⟩
  · rintro ⟨own, named⟩
    exact ⟨auth.mpr own, users.mpr own, tenants.mpr named⟩

theorem lawful_banTenant (lawful : w.Lawful) {tenant : TenantId} {reason : String}
    {durationHours : Option ℤ} :
    (w.banTenant tenant reason durationHours).Lawful ↔
      w.Keeps (.banTenant tenant reason durationHours) := by
  have users (user : UserId) (time : ℤ) :
      (w.banTenant tenant reason durationHours).UserCovered user time ↔ w.UserCovered user time := by
    simp [UserCovered, banTenant, Ban.OfUser]
  have tenants := agrees_mark (banData w.now reason durationHours (some tenant))
    lawful.tenant (tenantCovered_banTenant tenant · reason durationHours)
  constructor
  · intro after
    exact tenants.mp after.tenant
  · intro outlasts
    refine ⟨fun user => ?_, fun user => ?_, tenants.mpr outlasts⟩
    · exact (agrees_congr (users user)).mpr (lawful.auth user)
    · exact (agrees_congr (users user)).mpr (lawful.user user)

theorem userCovered_unbanUser (user other : UserId) (time : ℤ) :
    (w.unbanUser user).UserCovered other time ↔ user ≠ other ∧ w.UserCovered other time := by
  constructor
  · rintro ⟨ban, mem, own, lasts⟩
    obtain ⟨placed, foreign⟩ := List.mem_filter.mp mem
    refine ⟨?_, ban, placed, own, lasts⟩
    rintro rfl
    exact of_decide_eq_true foreign own
  · rintro ⟨apart, ban, placed, own, lasts⟩
    refine ⟨ban, List.mem_filter.mpr ⟨placed, decide_eq_true ?_⟩, own, lasts⟩
    cases ban with
    | user id named ends => exact fun same => apart (same.symm.trans own)
    | tenant id ends => exact own.elim

theorem agrees_unbanned {slots : UserId → Option (Entry ℤ BanData)}
    (agrees : ∀ user, Agrees w.now (slots user) (w.UserCovered user)) (user other : UserId) :
    Agrees w.now (Function.update slots user none other)
      ((w.unbanUser user).UserCovered other) := by
  by_cases same : other = user
  · rw [same, Function.update_self, agrees_none]
    intro time _ covered
    exact ((userCovered_unbanUser user user time).mp covered).1 rfl
  · rw [Function.update_of_ne same]
    refine (agrees_congr fun time => ?_).mpr (agrees other)
    rw [userCovered_unbanUser]
    exact and_iff_right (Ne.symm same)

theorem tenantCovered_unbanUser (user : UserId) (tenant : TenantId) (time : ℤ) :
    (w.unbanUser user).TenantCovered tenant time ↔ w.StillCovered user tenant time := by
  simp only [TenantCovered, StillCovered, unbanUser, List.mem_filter, decide_not,
    Bool.not_eq_true', decide_eq_false_iff_not, and_assoc]

theorem StillCovered.covered {user : UserId} {tenant : TenantId} {time : ℤ}
    (still : w.StillCovered user tenant time) : w.TenantCovered tenant time := by
  obtain ⟨ban, placed, -, onTenant, lasts⟩ := still
  exact ⟨ban, placed, onTenant, lasts⟩

theorem tenantBan_unbanUser (user : UserId) (tenant : TenantId) :
    (w.unbanUser user).tenantBan tenant =
      if tenant ∈ w.named user then none else w.tenantBan tenant := by
  simp only [unbanUser, Option.mem_def]
  cases w.named user with
  | none => rfl
  | some other => simp [Function.update_apply, eq_comm]

/-- Of some bans on a tenant none lasts from now on just when all of them have ended. -/
theorem over_iff {others : Ban → Prop} {tenant : TenantId} :
    (∀ time, w.now ≤ time → ¬ ∃ ban ∈ w.placed, others ban ∧ ban.OnTenant tenant ∧
        Lasts ban.ends time) ↔
      ∀ ban ∈ w.placed, others ban → ban.OnTenant tenant → ¬ Lasts ban.ends w.now := by
  constructor
  · intro uncovered ban placed foreign onTenant lasts
    exact uncovered w.now le_rfl ⟨ban, placed, foreign, onTenant, lasts⟩
  · rintro ended time later ⟨ban, placed, foreign, onTenant, lasts⟩
    exact ended ban placed foreign onTenant (lasts.earlier later)

theorem tenant_unbanUser (lawful : w.Lawful) (user : UserId) (tenant : TenantId) :
    Agrees w.now ((w.unbanUser user).tenantBan tenant) ((w.unbanUser user).TenantCovered tenant) ↔
      if tenant ∈ w.named user then
        ∀ ban ∈ w.placed, ¬ ban.OfUser user → ban.OnTenant tenant → ¬ Lasts ban.ends w.now
      else
        ∀ time, w.now ≤ time → w.TenantCovered tenant time → w.StillCovered user tenant time := by
  rw [agrees_congr (tenantCovered_unbanUser user tenant), tenantBan_unbanUser]
  by_cases named : tenant ∈ w.named user
  · rw [if_pos named, if_pos named, agrees_none]
    exact over_iff
  · rw [if_neg named, if_neg named]
    constructor
    · intro agrees time later covered
      exact (agrees time later).mp ((lawful.tenant tenant time later).mpr covered)
    · intro still time later
      rw [lawful.tenant tenant time later]
      exact ⟨still time later, StillCovered.covered⟩

theorem lawful_unbanUser (lawful : w.Lawful) {user : UserId} :
    (w.unbanUser user).Lawful ↔ w.Keeps (.unbanUser user) := by
  constructor
  · intro after
    constructor
    · intro tenant named
      have part := (tenant_unbanUser lawful user tenant).mp (after.tenant tenant)
      rwa [if_pos named] at part
    · intro tenant unnamed
      have part := (tenant_unbanUser lawful user tenant).mp (after.tenant tenant)
      rwa [if_neg unnamed] at part
  · rintro ⟨ended, still⟩
    refine ⟨agrees_unbanned lawful.auth user, agrees_unbanned lawful.user user, fun tenant => ?_⟩
    apply (tenant_unbanUser lawful user tenant).mpr
    split
    · rename_i named
      exact ended tenant named
    · rename_i unnamed
      exact still tenant unnamed

theorem userCovered_unbanTenant (tenant : TenantId) (user : UserId) (time : ℤ) :
    (w.unbanTenant tenant).UserCovered user time ↔ w.UserCovered user time := by
  constructor
  · rintro ⟨ban, mem, own, lasts⟩
    exact ⟨ban, (List.mem_filter.mp mem).1, own, lasts⟩
  · rintro ⟨ban, placed, own, lasts⟩
    refine ⟨ban, List.mem_filter.mpr ⟨placed, decide_eq_true ?_⟩, own, lasts⟩
    cases ban with
    | user id named ends => exact not_false
    | tenant id ends => exact own.elim

theorem tenantBan_unbanTenant (tenant other : TenantId) :
    (w.unbanTenant tenant).tenantBan other =
      if other = tenant then none else w.tenantBan other := by
  simp only [unbanTenant, Function.update_apply]

theorem tenantCovered_unbanTenant (tenant other : TenantId) (time : ℤ) :
    (w.unbanTenant tenant).TenantCovered other time ↔
      ∃ ban ∈ w.placed, ¬ ban.OfTenant tenant ∧ ban.OnTenant other ∧ Lasts ban.ends time := by
  simp only [TenantCovered, unbanTenant, List.mem_filter, decide_not, Bool.not_eq_true',
    decide_eq_false_iff_not, and_assoc]

theorem lawful_unbanTenant (lawful : w.Lawful) {tenant : TenantId} :
    (w.unbanTenant tenant).Lawful ↔ w.Keeps (.unbanTenant tenant) := by
  have own : Agrees w.now ((w.unbanTenant tenant).tenantBan tenant)
      ((w.unbanTenant tenant).TenantCovered tenant) ↔ w.Keeps (.unbanTenant tenant) := by
    rw [agrees_congr (tenantCovered_unbanTenant tenant tenant), tenantBan_unbanTenant, if_pos rfl,
      agrees_none]
    exact over_iff
  constructor
  · intro after
    exact own.mp (after.tenant tenant)
  · intro keeps
    refine ⟨fun user => ?_, fun user => ?_, fun other => ?_⟩
    · exact (agrees_congr (userCovered_unbanTenant tenant user)).mpr (lawful.auth user)
    · exact (agrees_congr (userCovered_unbanTenant tenant user)).mpr (lawful.user user)
    · by_cases same : other = tenant
      · rw [same]
        exact own.mpr keeps
      · rw [tenantBan_unbanTenant, if_neg same]
        refine (agrees_congr fun time => ?_).mpr (lawful.tenant other)
        rw [tenantCovered_unbanTenant]
        constructor
        · rintro ⟨ban, placed, -, onTenant, lasts⟩
          exact ⟨ban, placed, onTenant, lasts⟩
        · rintro ⟨ban, placed, onTenant, lasts⟩
          refine ⟨ban, placed, ?_, onTenant, lasts⟩
          cases ban with
          | user id named ends => exact not_false
          | tenant id ends => exact fun its => same (onTenant.symm.trans its)

theorem hasEnded_of_alive {now : ℤ} {e : Entry ℤ BanData} (dated : e.value.expiresAt = e.deadline)
    (alive : e.alive now = true) : hasEnded now e.value = false := by
  obtain ⟨data, deadline⟩ := e
  change data.expiresAt = deadline at dated
  cases deadline with
  | none => simp [hasEnded, dated]
  | some ends =>
    have before : now < ends := alive_some.mp alive
    simp [hasEnded, dated, before.le]

theorem getBanStatus_eq (dated : w.Dated) (user : UserId) :
    w.getBanStatus user = (w, (live w.now (w.authBan user)).map Entry.value) := by
  rw [getBanStatus]
  cases found : live w.now (w.authBan user) with
  | none => rfl
  | some e =>
    obtain ⟨stored, alive⟩ := live_eq_some.mp found
    simp [hasEnded_of_alive (dated user e stored) alive]

theorem Dated.banStep (dated : w.Dated) (a : BanAction) : (banStep w a).Dated := by
  cases a with
  | tick | banTenant | unbanTenant => exact dated
  | status user =>
    rw [Auth.banStep, getBanStatus_eq dated]
    exact dated
  | unbanUser user =>
    intro other e mem
    refine dated other e ?_
    simp only [Auth.banStep, unbanUser, Function.update_apply] at mem
    split at mem
    · cases mem
    · exact mem
  | banUser user reason durationHours tenant =>
    intro other e mem
    simp only [Auth.banStep, banUser, mark, Function.update_apply] at mem
    split at mem
    · rename_i same
      rw [cacheSet_eq] at mem
      split at mem
      · cases mem
        rfl
      · exact dated user e mem
    · exact dated other e mem

theorem lawful_banStep (lawful : w.Lawful) (dated : w.Dated) (a : BanAction) :
    (Auth.banStep w a).Lawful ↔ w.Keeps a := by
  cases a with
  | tick seconds => exact iff_of_true (lawful.tick seconds) trivial
  | banUser user reason durationHours tenant => exact lawful_banUser lawful
  | banTenant tenant reason durationHours => exact lawful_banTenant lawful
  | unbanUser user => exact lawful_unbanUser lawful
  | unbanTenant tenant => exact lawful_unbanTenant lawful
  | status user =>
    rw [Auth.banStep, getBanStatus_eq dated]
    exact iff_of_true lawful trivial

def start (now : ℤ) : BanWorld where
  now := now

theorem lawful_start (now : ℤ) : (start now).Lawful where
  auth user := agrees_none.mpr fun time _ covered => by simp [start, UserCovered] at covered
  user user := agrees_none.mpr fun time _ covered => by simp [start, UserCovered] at covered
  tenant tenant := agrees_none.mpr fun time _ covered => by simp [start, TenantCovered] at covered

theorem dated_start (now : ℤ) : (start now).Dated := by
  intro user e mem
  cases mem

end BanWorld

end Steps

section Runs

open BanWorld

/-- The markers stay right throughout a run just when every step of it meets its condition. -/
theorem lawful_throughout (now : ℤ) (actions : List BanAction) :
    (∀ first, first <+: actions → ∀ w, run (total banStep) (start now) first = some w → w.Lawful) ↔
      Along (total banStep) BanWorld.Keeps (start now) actions := by
  apply forall_prefix_iff_along (P := fun w => w.Lawful ∧ w.Dated)
  · exact And.left
  · rintro w a t ⟨lawful, dated⟩ keeps taken
    cases taken
    exact ⟨(lawful_banStep lawful dated a).mpr keeps, dated.banStep a⟩
  · rintro w a t ⟨lawful, dated⟩ taken after
    cases taken
    exact (lawful_banStep lawful dated a).mp after
  · intro w a stuck
    cases stuck
  · exact ⟨lawful_start now, dated_start now⟩

/-- A tenant that is banned for good is free an hour after the ban of a user that names it,
and at once when that user's ban is lifted. -/
theorem tenant_ban_lost :
    ∃ w shortened lifted,
      run (total banStep) (start 0)
        [.banTenant "acme" "fraud" none, .banUser "ann" "spam" (some 1) (some "acme")] = some w ∧
      run (total banStep) w [.tick 3600] = some shortened ∧
      run (total banStep) w [.unbanUser "ann"] = some lifted ∧
      (shortened.TenantCovered "acme" shortened.now ∧
        live shortened.now (shortened.tenantBan "acme") = none) ∧
      lifted.TenantCovered "acme" lifted.now ∧ live lifted.now (lifted.tenantBan "acme") = none := by
  refine ⟨_, _, _, rfl, rfl, rfl, ⟨⟨.tenant "acme" none, ?_, rfl, ?_⟩, ?_⟩,
    ⟨.tenant "acme" none, ?_, rfl, ?_⟩, ?_⟩
  · decide
  · simp [Ban.ends, Lasts]
  · decide
  · decide
  · simp [Ban.ends, Lasts]
  · decide

end Runs

end Deeting.Auth
