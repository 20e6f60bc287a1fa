import Deeting.McpBridge.AgentToken

/-! Bridge tokens that a reset or a revocation has retired: what brings one back. -/
namespace Deeting.McpBridge

open Bridge Transition

/-- The version of a new record is borne by no unexpired token of the agent that a reset or a
revocation has retired, the reset of the call itself included. -/
def Careful (cfg : BridgeSettings) (w : Bridge) : BridgeAction → Prop
  | .issueToken user agentId reset _ => ∀ record, Replaces cfg w user agentId reset record →
      ∀ t ∈ (if reset then w.retire (user, agentId) else w).retired,
        t.sub = user → t.agentId = agentId → Unexpired w.now t → t.ver ≠ record.version
  | _ => True

section Steps

variable {cfg : BridgeSettings} {w : Bridge} {user : Uuid} {agentId : String} {reset redis : Bool}
  {record : BridgeAgentToken} {t : SignedToken}

theorem mem_retire (reset : Bool) {key : Uuid × String}
    (mem : t ∈ (if reset then w.retire key else w).retired) :
    t ∈ w.retired ∨ (t.sub, t.agentId) = key := by
  cases reset with
  | false => exact .inl mem
  | true =>
    refine (List.mem_append.mp mem).imp_right fun own => ?_
    exact of_decide_eq_true (List.mem_filter.mp own).2

theorem final_iff_of_replaced {v : Bridge} (final : w.Final)
    (r : Replaced w v user agentId reset record) :
    v.Final ↔ ∀ t ∈ (if reset then w.retire (user, agentId) else w).retired,
      t.sub = user → t.agentId = agentId → Unexpired w.now t → t.ver ≠ record.version := by
  rw [Final, r.retired]
  refine forall₂_congr fun t mem => ?_
  rw [Accepts, r.now, r.rows]
  by_cases own : (t.sub, t.agentId) = (user, agentId)
  · rw [own, Function.update_self]
    obtain ⟨sub, agent⟩ := Prod.mk.inj own
    simp [sub, agent, eq_comm]
  · rw [Function.update_of_ne own]
    have old : ¬ w.Accepts t := final t ((mem_retire _ mem).resolve_right own)
    exact iff_of_true old fun sub agent => absurd (Prod.ext sub agent) own

theorem final_of_kept {v : Bridge} (kept : Kept w v) : v.Final ↔ w.Final := by
  rw [Final, Final, kept.retired]
  refine forall₂_congr fun t _ => ?_
  rw [Accepts, Accepts, kept.now, kept.rows]

theorem issueToken_final (final : w.Final) :
    (w.issueToken cfg user agentId reset redis).1.Final ↔
      Careful cfg w (.issueToken user agentId reset redis) := by
  obtain ⟨record, r, replaced⟩ | ⟨stays, kept⟩ :=
    issueToken_issued cfg w user agentId reset redis
  · rw [final_iff_of_replaced final replaced]
    refine ⟨fun refused other s => ?_, fun careful => careful record r⟩
    obtain rfl := Option.some.inj (r.reloaded.symm.trans s.reloaded)
    exact refused
  · exact iff_of_true ((final_of_kept kept).mpr final) fun record r => absurd r (stays record)

theorem revokeToken_final (final : w.Final) : (w.revokeToken user agentId redis).1.Final := by
  obtain same | revoked := revokeToken_revoked w user agentId redis
  · rwa [same]
  · intro t mem accepted
    rw [revoked.retired] at mem
    rw [Accepts, revoked.now, revoked.rows] at accepted
    by_cases own : (t.sub, t.agentId) = (user, agentId)
    · simp [own] at accepted
    · rw [Function.update_of_ne own] at accepted
      exact final t ((mem_retire true mem).resolve_right own) accepted

theorem step_final {a : BridgeAction} {v : Bridge} (final : w.Final)
    (taken : step cfg w a = some v) : v.Final ↔ Careful cfg w a := by
  cases taken
  cases a with
  | tick micros =>
    refine iff_of_true (fun t mem accepted => ?_) trivial
    exact final t mem ⟨unexpired_earlier accepted.1, accepted.2⟩
  | issueToken user agentId reset redis => exact issueToken_final final
  | revokeToken user agentId redis => exact iff_of_true (revokeToken_final final) trivial

end Steps

/-- A retired token stays refused exactly in the runs whose new records all bear a version that
no unexpired retired token of their agent bears. -/
theorem retired_refused_iff (cfg : BridgeSettings) (now : ℤ)
    (rows : Uuid × String → Option BridgeAgentToken) (actions : List BridgeAction) :
    (∀ first, first <+: actions → ∀ w, run (step cfg) (start now rows) first = some w → w.Final) ↔
      Along (step cfg) (Careful cfg) (start now rows) actions := by
  refine forall_prefix_iff_along (P := Final) id ?_ ?_ ?_ ?_
  · exact fun final careful taken => (step_final final taken).mpr careful
  · exact fun final taken later => (step_final final taken).mp later
  · exact fun stuck => by cases stuck
  · exact fun t mem => by cases mem

section Example

def thirtyDays (refresh : Refresh) : BridgeSettings where
  secret := "key"
  iss := "deeting"
  expireDays := 30
  refresh := refresh

def agentUser : Uuid := .repeated 1

/-- Issued, revoked, and issued again when the first token has expired. -/
def renewed : List BridgeAction :=
  [.issueToken agentUser "agent_1" false true, .revokeToken agentUser "agent_1" true,
    .tick 2678400000000, .issueToken agentUser "agent_1" false true]

theorem cached_version_renewed : ∃ w, run (step (thirtyDays .flushes)) (start 0 fun _ => none)
    renewed = some w ∧ CachedAt w (agentUser, "agent_1") := by
  have ended : ∃ w, run (step (thirtyDays .flushes)) (start 0 fun _ => none) renewed = some w :=
    ⟨_, rfl⟩
  obtain ⟨w, reached⟩ := ended
  have redis : ∀ a ∈ renewed, ReachesRedis a := by simp [renewed, ReachesRedis]
  refine ⟨w, reached, cached_version (fun key e mem => ?_) redis reached _⟩
  cases mem

/-- Issued, revoked and issued again: the first token is accepted again. Where `refresh` drops
the changes, a reset leaves the row and its token as they were. -/
theorem retired_accepted_again :
    (∃ w, run (step (thirtyDays .flushes)) (start 0 fun _ => none)
        [.issueToken agentUser "agent_1" false true, .tick 1000000,
          .revokeToken agentUser "agent_1" true, .tick 1000000,
          .issueToken agentUser "agent_1" false true] = some w ∧ ¬ w.Final) ∧
      ∃ w, run (step (thirtyDays .discards))
        (start 0 fun key => if key = (agentUser, "agent_1") then some ⟨1, 0, 30 * day⟩ else none)
        [.issueToken agentUser "agent_1" false true, .tick 1000000,
          .issueToken agentUser "agent_1" true true] = some w ∧ ¬ w.Final := by
  exact ⟨⟨_, rfl, by decide +kernel⟩, _, rfl, by decide +kernel⟩

end Example

end Deeting.McpBridge
