import AccessControl.Proofs.Cache.Outage
import AccessControl.Proofs.Session.Requests
import Mathlib

/-! # Authorization over a string store that refuses calls

Nothing that leads to a verdict does without the cache: the version of the rule set, the rules, the
verdict itself and the permissions in each store are exposed to every call that they make
(`exposed_authorize`).  So a request of a caller without a super role fails when any of its calls is
refused, and otherwise gets the answer that it gets without an outage; a super role is allowed with
no call at all (`authorize_outage`). -/

namespace AccessControl
namespace Session

open Database Cache

instance : Caching Session := ⟨Session.cache, fun c s => { s with cache := c }⟩

/-- The session in an outage of its string store. -/
def under (s : Session) (o : Outage) : Session := { s with cache := s.cache.under o }

variable {α : Type}

/-! ### Parts of operations -/

theorem exposed_onCache {operation : CacheM α} (h : Exposed operation) :
    Exposed (liftM operation : SessionM α) := by
  intro s
  obtain ⟨r, c, made, hcourse⟩ := h s.cache
  refine ⟨r, { s with cache := { c with records := [] }, records := s.records ++ c.records }, made,
    hcourse.calls, hcourse.served, fun o ho => ?_, fun o call ho => ?_⟩
  · have hrun : outcome operation (strained o s).cache = (r, strained o c) := hcourse.answered o ho
    rw [outcome_onCache, hrun]
    rfl
  · rw [outcome_onCache]
    exact hcourse.refused o call ho

theorem exposed_note (level : Log.Level) (channel : Log.Channel) (event : String)
    (details : Fields) :
    Exposed (note level channel event details) :=
  exposed_modify (fun _ => rfl) fun _ _ => rfl

theorem exposed_getOrCompute (key : String) (ttl : Option ℤ) (label : String)
    {compute : SessionM Value} (h : Exposed compute) :
    Exposed (getOrCompute key ttl label compute) := by
  refine exposed_bind (exposed_onCache (exposed_remembered key label)) fun found => ?_
  split
  · exact exposed_pure _
  · refine exposed_bind h fun value => ?_
    exact exposed_bind (exposed_onCache (exposed_remember key value ttl)) fun _ => exposed_pure _

theorem exposed_askedAll (values : List Value) : Exposed (askedAll values) := by
  induction values with
  | nil => exact exposed_pure _
  | cons v vs ih =>
      exact exposed_bind (exposed_lift _) fun _ => exposed_bind ih fun _ => exposed_pure _

/-! ### Permissions in stores -/

theorem exposed_graph (store : Value) : Exposed (graph store) := by
  unfold graph
  split
  · exact exposed_throw _
  · refine exposed_get (fun _ _ => rfl) fun s => ?_
    split
    · exact exposed_pure _
    · refine exposed_bind (exposed_lift _) fun n => ?_
      exact exposed_bind (exposed_modify (fun _ => rfl) fun _ _ => rfl) fun _ => exposed_pure _

theorem exposed_lowerRoleIds (role store : Value) : Exposed (lowerRoleIds role store) := by
  refine exposed_bind (exposed_graph store) fun g => ?_
  split
  · exact exposed_throw _
  · exact exposed_get (fun _ _ => rfl) fun s => exposed_pure _

theorem exposed_rolesBelow (store : Value) (roles : List ℤ) : Exposed (rolesBelow store roles) := by
  induction roles with
  | nil => exact exposed_pure _
  | cons role roles ih =>
    exact exposed_bind (exposed_lowerRoleIds _ store) fun _ => exposed_bind ih fun _ =>
      exposed_pure _

theorem exposed_directRoleIds (user store : Value) : Exposed (directRoleIds user store) := by
  refine exposed_bind (exposed_askedAll _) fun ids => ?_
  split
  · exact exposed_get (fun _ _ => rfl) fun s => exposed_pure _
  · exact exposed_pure _

theorem exposed_workOutPermissions (user store : Value) :
    Exposed (workOutPermissions user store) := by
  unfold workOutPermissions effectiveRoleIds
  refine exposed_bind (exposed_bind (exposed_directRoleIds user store) fun direct => ?_)
    fun roles => ?_
  · exact exposed_bind (exposed_rolesBelow store direct) fun _ => exposed_pure _
  · exact exposed_get (fun _ _ => rfl) fun s => exposed_pure _

theorem exposed_effectivePermissions (cached : Bool) (user store : Value) :
    Exposed (effectivePermissions cached user store) := by
  refine exposed_bind ?_ fun _ => exposed_pure _
  unfold permissionMembers
  split
  · refine exposed_bind (exposed_onCache (exposed_currentPermissionsKey user store)) fun key => ?_
    refine exposed_get (fun _ _ => rfl) fun s => ?_
    refine exposed_bind (exposed_getOrCompute _ _ _ ?_) fun names => ?_
    · exact exposed_bind (exposed_workOutPermissions user store) fun _ => exposed_pure _
    · exact exposed_lift _
  · exact exposed_bind (exposed_workOutPermissions user store) fun _ => exposed_pure _

theorem exposed_workOutAllStores (user : Value) : Exposed (workOutAllStores user) := by
  refine exposed_get (fun _ _ => rfl) fun s => ?_
  split
  · refine exposed_bind (exposed_lift _) fun n => ?_
    exact exposed_get (fun _ _ => rfl) fun s => exposed_pure _
  · exact exposed_pure _

theorem exposed_hasAllStores (cached : Bool) (user : Value) :
    Exposed (hasAllStores cached user) := by
  unfold hasAllStores
  split
  · refine exposed_bind (exposed_onCache (exposed_currentAllStoresKey user)) fun key => ?_
    refine exposed_get (fun _ _ => rfl) fun s => ?_
    refine exposed_bind (exposed_getOrCompute _ _ _ ?_) fun _ => exposed_pure _
    exact exposed_bind (exposed_workOutAllStores user) fun _ => exposed_pure _
  · exact exposed_workOutAllStores user

/-! ### Rules -/

theorem exposed_noteSources (id : Value) (sound : Bool) : Exposed (noteSources id sound) := by
  unfold noteSources
  split
  · exact exposed_pure _
  · exact exposed_modify (fun _ => rfl) fun _ _ => rfl

theorem exposed_snapshots (rows : List RuleRow) : Exposed (snapshots rows) := by
  induction rows with
  | nil => exact exposed_pure _
  | cons row rows ih =>
    refine exposed_bind (exposed_lift _) fun read => ?_
    refine exposed_bind (exposed_noteSources _ _) fun _ => ?_
    exact exposed_bind (exposed_lift _) fun _ => exposed_bind ih fun _ => exposed_pure _

theorem exposed_restoreRules (values : List Value) : Exposed (restoreRules values) := by
  induction values with
  | nil => exact exposed_pure _
  | cons v vs ih =>
    refine exposed_bind (exposed_bind (exposed_lift _) fun entry => ?_) fun _ =>
      exposed_bind ih fun _ => exposed_pure _
    refine exposed_bind (exposed_noteSources _ _) fun _ => ?_
    exact exposed_lift _

theorem exposed_findActive (service method version : Value) :
    Exposed (findActive service method version) := by
  unfold findActive
  split
  · refine exposed_bind (exposed_lift _) fun method => ?_
    dsimp only
    split
    on_goal 1 =>
      refine exposed_bind (exposed_map _ (exposed_onCache exposed_rulesetVersion)) fun version => ?_
    on_goal 2 => refine exposed_bind (exposed_pure version) fun version => ?_
    -- With either version, the rules are looked up in the same way.
    all_goals
      refine exposed_get (fun _ _ => rfl) fun s =>
        exposed_bind (exposed_getOrCompute _ _ _ ?_) fun payload => ?_
      · refine exposed_get (fun _ _ => rfl) fun s => ?_
        exact exposed_bind (exposed_snapshots _) fun _ => exposed_pure _
      · split
        · exact exposed_restoreRules _
        · exact exposed_throw _
  · exact exposed_throw _

/-! ### Evaluation -/

theorem exposed_answersFor (cached : Bool) (wildcard : String) (rule : Rule) (caller : Caller)
    (answers : StoreAnswers) (stores : List Value) :
    Exposed (Policy.answersFor (permissionSource cached) wildcard rule caller answers stores) := by
  induction stores generalizing answers with
  | nil => exact exposed_pure _
  | cons store stores ih =>
    refine exposed_bind ?_ fun allowed => ?_
    · unfold Policy.allowsIn
      split
      · exact exposed_bind (exposed_pure _) fun _ => exposed_pure _
      · exact exposed_bind (exposed_effectivePermissions cached _ store) fun _ => exposed_pure _
    · split
      · exact ih _
      · exact exposed_throw _

theorem exposed_policyEvaluate (cached : Bool) (wildcard : String) (rule : Rule) (caller : Caller)
    (stores : List Value) :
    Exposed (Policy.evaluate (permissionSource cached) wildcard rule caller stores) := by
  unfold Policy.evaluate
  split
  · split
    · exact exposed_pure _
    · exact exposed_throw _
  · split
    · exact exposed_pure _
    · unfold Policy.scopedVerdict
      split
      · split
        · exact exposed_pure _
        · exact exposed_pure _
      · exact exposed_bind (exposed_answersFor cached wildcard rule caller [] stores) fun _ =>
          exposed_pure _
    · unfold Policy.allStoresVerdict
      dsimp only
      split
      · exact exposed_pure _
      · split
        on_goal 1 => refine exposed_bind (exposed_pure _) fun assigned => ?_
        on_goal 2 => refine exposed_bind (exposed_hasAllStores cached _) fun assigned => ?_
        all_goals
          split
          · exact exposed_pure _
          · exact exposed_pure _
    · exact exposed_pure _

theorem exposed_evaluate (cached : Bool) (rule : Rule) (caller : Caller) (stores : List Value) :
    Exposed (evaluate cached rule caller stores) := by
  refine exposed_get (fun _ _ => rfl) fun s => ?_
  refine exposed_bind (exposed_policyEvaluate cached _ rule caller stores) fun verdict => ?_
  split
  · exact exposed_bind (exposed_modify (fun _ => rfl) fun _ _ => rfl) fun _ => exposed_pure _
  · exact exposed_pure _

/-! ### Decisions -/

theorem exposed_noteDecision (request : Request) (caller : Caller) (verdict : Verdict) :
    Exposed (noteDecision request caller verdict) :=
  exposed_bind (exposed_note _ _ _ _) fun _ => exposed_pure _

theorem exposed_decide (cached : Bool) (request : Request) (method : String) (caller : Caller)
    (version : ℤ) (rule : Rule) : Exposed (decide cached request method caller version rule) := by
  refine exposed_bind (exposed_lift _) fun stores => ?_
  split
  · exact exposed_evaluate cached rule caller _
  · refine exposed_get (fun _ _ => rfl) fun s =>
      exposed_bind (exposed_getOrCompute _ _ _ ?_) fun payload => ?_
    · exact exposed_bind (exposed_evaluate cached rule caller _) fun _ => exposed_pure _
    · exact exposed_lift _

/-- No part of a decision does without a call that is refused. -/
theorem exposed_authorize (cached : Bool) (request : Request) (caller : Caller) :
    Exposed (authorize cached request caller) := by
  refine exposed_get (fun _ _ => rfl) fun s => exposed_bind (exposed_lift _) fun method => ?_
  split
  · exact exposed_noteDecision request caller _
  · refine exposed_bind (exposed_onCache exposed_rulesetVersion) fun version => ?_
    refine exposed_bind (exposed_findActive _ _ _) fun rules => ?_
    refine exposed_bind ?_ fun _ => exposed_bind (exposed_lift _) fun selected => ?_
    · refine exposed_get (fun _ _ => rfl) fun s => ?_
      exact exposed_modify (fun _ => rfl) fun _ _ => rfl
    · split
      · exact exposed_noteDecision request caller _
      · refine exposed_bind (exposed_decide cached request method caller version _) fun verdict =>
          ?_
        exact exposed_noteDecision request caller verdict

/-- Take a session and an outage of its string store.  For a caller without a super role, look at
the calls that a decision makes without the outage: when the outage refuses any of them, on
whichever way through the decision it lies, the decision fails because the cache is down, and gives
no verdict; when it refuses none of them, the decision is the one without the outage.  For a caller
with a super role the verdict is that of the super role, and the cache is left as it is. -/
theorem authorize_outage (cached : Bool) (request : Request) (caller : Caller) (s : Session)
    (o : Outage) :
    (s.settings.superRoles.any caller.roles.contains = false →
      ∃ made, (outcome (authorize cached request caller) (s.under .none)).2.cache.calls =
        s.cache.calls ++ made ∧
        (∀ n, 1 ≤ n → n ≤ made.length → o.refuses (s.cache.served + n) = true →
          ∃ text, (outcome (authorize cached request caller) (s.under o)).1 =
            .error (.cacheDown text)) ∧
        ((∀ n, 1 ≤ n → n ≤ made.length → o.refuses (s.cache.served + n) = false) →
          (outcome (authorize cached request caller) (s.under o)).1 =
            (outcome (authorize cached request caller) (s.under .none)).1)) ∧
    (s.settings.superRoles.any caller.roles.contains = true → ∀ word, request.method = .text word →
      ∃ s', outcome (authorize cached request caller) (s.under o) =
        (.ok (bareVerdict true .superRole), s') ∧
        s'.cache = (s.under o).cache) := by
  refine ⟨fun _ => ?_, fun hsuper word hword => ?_⟩
  · obtain ⟨r, s', made, hcourse⟩ := exposed_authorize cached request caller s
    have hcalm :
        outcome (authorize cached request caller) (s.under .none) = (r, strained .none s') :=
      hcourse.answered .none (Outage.firstRefused_eq_none_iff.mpr fun _ _ _ => rfl)
    refine ⟨made, ?_, fun n h₁ h₂ hn => ?_, fun hnone => ?_⟩
    · rw [hcalm]
      exact (Cache.calls_under _ _).trans hcourse.calls
    · cases hfirst : o.firstRefused s.cache.served made with
      | none =>
        rw [Outage.firstRefused_eq_none_iff.mp hfirst n h₁ h₂] at hn
        cases hn
      | some call =>
        obtain ⟨text, htext⟩ : ∃ text, call.failure = .cacheDown text := by
          cases call <;> exact ⟨_, rfl⟩
        exact ⟨text, htext ▸ hcourse.refused o call hfirst⟩
    · have hrun := hcourse.answered o (Outage.firstRefused_eq_none_iff.mpr hnone)
      rw [hcalm]
      exact (congrArg Prod.fst hrun :)
  · obtain ⟨method, hmethod⟩ : ∃ method, request.lookupMethod = .ok method := by
      unfold Request.lookupMethod
      split
      · exact ⟨_, rfl⟩
      · rw [hword]
        exact ⟨_, rfl⟩
    refine ⟨(outcome (noteDecision request caller (bareVerdict true .superRole)) (s.under o)).2, ?_,
      rfl⟩
    have hheld : (s.under o).settings.superRoles.any caller.roles.contains = true := hsuper
    unfold authorize
    rw [outcome_bind, outcome_current, andThen_ok, outcome_bind, outcome_lift, hmethod, andThen_ok,
      if_pos hheld]
    rfl

/-- A session over a string store, where the rule for orders is made and a user is among the
staff. -/
def staffedShop : Session :=
  { oneStore.afterMoves staffed with cache := ⟨.remote .empty, "authz", 0, [1], []⟩ }

theorem authorize_outage_staffedShop :
    (∀ n, 1 ≤ n → n ≤ 12 →
      ∃ text, (outcome (authorize true (askForStore 1) (callerOf (some 1) [] [] []))
        (staffedShop.under ⟨false, [n]⟩)).1 = .error (.cacheDown text)) ∧
      (outcome (authorize true (askForStore 1) (callerOf (some 1) [] [] []))
        (staffedShop.under ⟨false, [13]⟩)).1 =
        (outcome (authorize true (askForStore 1) (callerOf (some 1) [] [] []))
          (staffedShop.under .none)).1 ∧
      ∃ s', outcome (authorize true (askForStore 1) (callerOf (some 1) ["super-admin"] [] []))
          (staffedShop.under ⟨true, []⟩) = (.ok (bareVerdict true .superRole), s') ∧
        s'.cache = (staffedShop.under ⟨true, []⟩).cache := by
  have hplain : staffedShop.settings.superRoles.any (callerOf (some 1) [] [] []).roles.contains =
      false := by
    decide +kernel
  have hsuper :
      staffedShop.settings.superRoles.any (callerOf (some 1) ["super-admin"] [] []).roles.contains =
      true := by
    decide +kernel
  -- All calls that a first decision makes: three for the version, two for the rules, one and one
  -- for the verdict, and five for the permissions in the store.
  have hmade : (outcome (authorize true (askForStore 1) (callerOf (some 1) [] [] []))
      (staffedShop.under .none)).2.cache.calls.length = 12 := by decide +kernel
  have hserved : staffedShop.cache.served = 0 := rfl
  refine ⟨fun n h₁ h₂ => ?_, ?_, ?_⟩
  · obtain ⟨made, hcalls, hrefused, -⟩ :=
      (authorize_outage true (askForStore 1) (callerOf (some 1) [] [] [])
      staffedShop ⟨false, [n]⟩).1 hplain
    refine hrefused n h₁ (h₂.trans_eq ?_) (by simp [Outage.refuses, hserved])
    rw [← hmade, hcalls]
    rfl
  · obtain ⟨made, hcalls, -, hsame⟩ :=
      (authorize_outage true (askForStore 1) (callerOf (some 1) [] [] [])
      staffedShop ⟨false, [13]⟩).1 hplain
    have hlength : made.length = 12 := by
      rw [← hmade, hcalls]
      rfl
    refine hsame fun n _ h₂ => ?_
    simp only [Outage.refuses, hserved, Bool.false_or, List.contains_cons, List.contains_nil,
      Bool.or_false, beq_eq_false_iff_ne]
    omega
  · exact (authorize_outage true (askForStore 1) (callerOf (some 1) ["super-admin"] [] [])
      staffedShop ⟨true, []⟩).2 hsuper "GET" rfl

end Session
end AccessControl
