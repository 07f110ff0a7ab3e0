import AccessControl.Proofs.Policy.RoundTrip
import AccessControl.Proofs.Rule.Selection
import AccessControl.Proofs.Session.Changes
import AccessControl.Proofs.Session.Moments
import AccessControl.Proofs.Stores.Ids
import Mathlib

/-! # Requests without a verdict

In an orderly session a delivered request gets a verdict, unless a rule cannot read a store id in
it, or finds one there that the database cannot hold (`ends_authorize`).  Whatever is done to a
session keeps it orderly (`orderly_moves`), so this is so for every request that is ever delivered
(`authorize_delivered`). -/

namespace AccessControl
namespace Session

open Database Cache

variable {shared : Bool} {left : ℕ} {s s' : Session} {m m' : View} {t : Tables} {α : Type}
  {Bad : Failure → Prop}

/-! ### Rules -/

theorem Stocked.holdsServed (h : Stocked shared left t.rules) (service word : String) : ∃ v w,
    t.rulesPayload service word = .ok v ∧ GivenBack shared v w ∧ HoldsServed shared v ∧
      HoldsServed shared w := by
  have hmem : ∀ row ∈ t.activeRules service word, row ∈ t.rules :=
    fun row hrow => Tables.mem_activeRules hrow
  obtain ⟨-, rules, -, -, hrestored⟩ := restored_rows fun row hrow => h.sound row (hmem row hrow)
  have hserved : ∀ rule ∈ rules, Served shared rule := by
    intro rule hrule
    obtain ⟨row, hrow, hrow'⟩ := exists_of_mem_mapM hrestored hrule
    exact ⟨row, h.sound row (hmem row hrow), (h.ids row (hmem row hrow)).countable, hrow'⟩
  obtain ⟨v, w, hv, hvw, hholds, hholds'⟩ := h.payload service word
  exact ⟨v, w, hv, hvw, ⟨hholds.some, rules, hholds.read.trans hrestored, hserved⟩, hholds'.some,
    rules, hholds'.read.trans hrestored, hserved⟩

theorem ends_computeRules (h : Orderly shared left s m) (service word : String) :
    Ends shared left (computeRules service word) s
      (fun v => HoldsServed shared v ∧ ∃ w, GivenBack shared v w ∧ HoldsServed shared w) Bad := by
  obtain ⟨v, w, hv, hvw, hholds, hholds'⟩ := h.tables.rules.holdsServed service word
  obtain ⟨forms, hforms, hlist⟩ := bind_eq_ok hv
  obtain rfl := Except.ok.inj hlist
  obtain ⟨s₁, hrun, hnoted⟩ := outcome_snapshots (s.tables.activeRules service word) s
  rw [hforms] at hrun
  unfold computeRules
  have hcached :
      Ends shared left (snapshots (s.tables.activeRules service word)) s (· = forms) Bad :=
    ends_noted h hrun hnoted rfl
  refine ends_current (ends_bind hcached fun rules _ _ hrules _ h₁ => ?_)
  rw [hrules]
  exact ends_pure h₁ ⟨hholds, w, hvw, hholds'⟩

/-- Active rules are served, whether they were remembered or not. -/
theorem ends_findActive (h : Orderly shared left s m) (service method : String) (n : ℤ) :
    Ends shared left (findActive (.text service) (.text method) (.int n)) s (fun rules =>
      ∀ rule ∈ rules, Served shared rule)
      Bad := by
  unfold findActive
  refine ends_lift h (fun word _ => ?_) fun e he => ?_
  · rw [if_neg (c := (Value.int n).isNull = true) Bool.false_ne_true, pure_bind]
    refine ends_current ?_
    rw [Key.text_rules]
    have hpayload : Ends shared left (rulesUnder s n (Text.lower (Text.strip service)) word) s
        (HoldsServed shared) Bad := by
      refine ends_getOrCompute h (by simp) (ttlSeconds_pos _) (fun p hp => ⟨hp.1, hp⟩)
        fun s' m' _ h' => ?_
      refine (ends_computeRules h' _ word).imp (fun v hv => ?_) fun e he => he
      obtain ⟨hv, w, hvw, hw⟩ := hv
      exact ⟨hv.1, hv, w, hvw, fun _ => hw⟩
    refine ends_bind hpayload fun v s₁ m₁ hv _ h₁ => ?_
    obtain ⟨-, rules, hread, hserved⟩ := hv
    unfold Tables.readPayload at hread
    cases helements : v.elements with
    | none =>
        rw [helements] at hread
        cases hread
    | some items =>
        rw [helements] at hread
        obtain ⟨s₂, hrun, hnoted⟩ := outcome_restoreRules items s₁
        refine ends_noted h₁ (hrun.trans ?_) hnoted hserved
        rw [show items.mapM Rule.read = .ok rules from hread]
  · rw [methodOf_text] at he
    cases he

theorem ends_rulesetVersion (h : Orderly shared left s m) :
    Ends shared left (liftM rulesetVersion : SessionM ℤ) s (fun _ => True) Bad := by
  obtain ⟨n, hstands, -, hread⟩ := h.counting.read
  have hversion :
      Yields shared rulesetVersion s.cache n
      (m.set (Key.version.text s.cache.space) (.int n) none) :=
    yields_after (outcome_get s.cache) (.refl _) hread
  obtain ⟨c, hrun, hsteady, hrep⟩ := outcome_yields hversion
  have hholds :=
    h.holds.set (k := .version) (t := none) ⟨n, rfl, h.counting.room hstands⟩ fun u st e heq => by
      cases heq
  exact ⟨_, _, consulted_withCache hsteady, h.withCache hsteady hrep hholds,
    .inl ⟨n, hrun, trivial⟩⟩

theorem ends_find (h : Orderly shared left s m) (service method : String) :
    Ends shared left (findActive (.text service) (.text method) .null) s (fun rules =>
      ∀ rule ∈ rules, Served shared rule)
      fun _ => False := by
  have hversion : Ends shared left (liftM rulesetVersion : SessionM ℤ) s (fun _ => True) fun _ =>
      False :=
    ends_rulesetVersion h
  obtain ⟨s₁, m₁, hkept, h₁, ⟨n, hrun, -⟩ | ⟨e, -, he⟩⟩ := hversion
  · obtain ⟨s₂, m₂, hkept', h₂, hlast⟩ := ends_findActive h₁ service method n
    refine ⟨s₂, m₂, hkept.trans hkept', h₂, ?_⟩
    rwa [outcome_findActive_null service method hrun]
  · exact he.elim

/-! ### Evaluation -/

/-- A number of the user or of a store does not fit the database. -/
def Overflows (user : Option ℤ) (stores : List ℤ) (e : Failure) : Prop :=
  e = .range ∧ ∃ u, user = some u ∧ ¬(fits u ∧ ∀ st ∈ stores, fits st)

theorem Ends.traced {operation : SessionM α} {Good : α → Prop}
    (h : Ends shared left operation s Good Bad) :
    Ends shared left operation s (fun a => Good a ∧ (outcome operation s).1 = .ok a)
      (fun e => Bad e ∧ (outcome operation s).1 = .error e) := by
  obtain ⟨s', m', hkept, h', ⟨a, hrun, ha⟩ | ⟨e, hrun, he⟩⟩ := h
  · exact ⟨s', m', hkept, h', .inl ⟨a, hrun, ha, congrArg Prod.fst hrun⟩⟩
  · exact ⟨s', m', hkept, h', .inr ⟨e, hrun, he, congrArg Prod.fst hrun⟩⟩

section evaluate

variable {user : Option ℤ} {caller : Caller} (huser : caller.userId = Value.ofOption .int user)
  (cached : Bool)
  (wildcard : String) (rule : Rule)

include huser

theorem ends_allowsIn {stores : List ℤ} {st : ℤ} (hst : st ∈ stores) (h : Orderly shared left s m) :
    Ends shared left (Policy.allowsIn (permissionSource cached) wildcard rule caller (.int st)) s
      (fun _ => True) (Overflows user stores) := by
  unfold Policy.allowsIn
  rw [huser]
  cases user with
  | none => exact ends_pure h trivial
  | some u =>
      have hheld :
          Ends shared left (effectivePermissions cached (.int u) (.int st)) s (fun _ => True)
          (Overflows (some u) stores) :=
        (ends_effectivePermissions h cached u st).imp (fun _ hgood => hgood)
          fun e he => ⟨he.1, u, rfl, fun hfits => he.2 ⟨hfits.1, hfits.2 st hst⟩⟩
      exact ends_bind hheld fun _ _ _ _ _ h₁ => ends_pure h₁ trivial

theorem ends_answersFor {stores asked : List ℤ} (hasked : asked ⊆ stores) (answers : StoreAnswers)
    (h : Orderly shared left s m) : Ends shared left
      (Policy.answersFor (permissionSource cached) wildcard rule caller answers (asked.map .int)) s
      (fun _ => True) (Overflows user stores) := by
  induction asked generalizing answers s m with
  | nil => exact ends_pure h trivial
  | cons st asked ih =>
      obtain ⟨hst, hrest⟩ := List.cons_subset.mp hasked
      exact ends_bind (ends_allowsIn huser cached wildcard rule hst h) fun _ _ _ _ _ h₁ =>
        ih hrest _ h₁

theorem ends_allStoresVerdict (stores : List ℤ) (h : Orderly shared left s m) :
    Ends shared left (Policy.allStoresVerdict (permissionSource cached) wildcard rule caller) s
      (fun _ => True) (Overflows user stores) := by
  unfold Policy.allStoresVerdict
  dsimp only
  split
  · exact ends_pure h trivial
  · have hlast : ∀ (assigned : Bool) s₁ m₁, Orderly shared left s₁ m₁ →
        Ends shared left (if assigned then
        return Policy.permissionVerdict wildcard rule caller.permissions caller.abilities
          (.ofMode Scope.allStores.label)
      else
        return Policy.verdict rule false .denyAllStores rule.required
          (.ofMode Scope.allStores.label)) s₁
        (fun _ => True) (Overflows user stores) := by
      intro assigned s₁ m₁ h₁
      cases assigned with
      | true => exact ends_pure h₁ trivial
      | false => exact ends_pure h₁ trivial
    rw [huser]
    cases user with
    | none => exact ends_pure h trivial
    | some u =>
        have hassigned :
            Ends shared left (hasAllStores cached (.int u)) s (fun _ => True)
            (Overflows (some u) stores) :=
          (ends_hasAllStores h cached u).imp (fun _ hgood => hgood)
            fun e he => ⟨he.1, u, rfl, fun hfits => he.2 hfits.1⟩
        exact ends_bind hassigned fun assigned _ _ _ _ h₁ => hlast assigned _ _ h₁

/-- The evaluation of a rule for stores fails only for numbers that do not fit the database. -/
theorem ends_policyEvaluate {word : String} (hscope : rule.scope = .text word) (stores : List ℤ)
    (h : Orderly shared left s m) : Ends shared left
      (Policy.evaluate (permissionSource cached) wildcard rule caller (stores.map .int)) s
      (fun _ => True) (Overflows user stores) := by
  unfold Policy.evaluate
  split
  · obtain ⟨mode, hmode⟩ := Policy.exists_modeLabel word
    rw [hscope, hmode]
    exact ends_pure h trivial
  · split
    · exact ends_pure h trivial
    · unfold Policy.scopedVerdict
      split
      · split
        · exact ends_pure h trivial
        · exact ends_pure h trivial
      · exact ends_bind (ends_answersFor huser cached wildcard rule (List.Subset.refl stores) [] h)
          fun _ _ _ _ _ h₁ => ends_pure h₁ trivial
    · exact ends_allStoresVerdict huser cached wildcard rule stores h
    · exact ends_pure h trivial

theorem ends_evaluate {word : String} (hscope : rule.scope = .text word) {stores : List ℤ}
    (hstores : ∀ n ∈ stores, Text.Short n) (h : Orderly shared left s m) :
    Ends shared left (evaluate cached rule caller (stores.map .int)) s (Policy.Speaks rule stores)
      (Overflows user stores) := by
  unfold evaluate
  refine ends_current ?_
  have hverdict :=
    (ends_policyEvaluate huser cached s.settings.wildcardAbility rule hscope stores h).traced.imp
    (fun v hv => Policy.speaks_evaluate hscope hstores (Prod.ext hv.2 rfl)) fun e he => he.1
  refine ends_bind hverdict fun v s₁ m₁ hv _ h₁ => ?_
  split
  · exact ends_noted h₁ rfl ⟨rfl, rfl, rfl, rfl, rfl⟩ hv
  · exact ends_pure h₁ hv

end evaluate

/-! ### Answers -/

/-- A rule that is served is asked about the stores that it finds in a request. -/
structure Asked.Sound (shared : Bool) (request : Request) (q : Asked) : Prop where
  rule : Served shared q.rule
  stores : Policy.storeIdsFor q.rule (some request.context) = .ok q.stores

/-- Why there is no verdict on a request, by where its way led: the rule for it cannot read a
store id in it, or the rule that is asked finds one there that the database, which is asked
about a user, cannot hold. -/
inductive Undecided (shared : Bool) (request : Request) (user : Option ℤ) :
    Except Failure (Verdict ⊕ Asked) → Failure → Prop
  | unreadable (rule : Rule) (hrule : Served shared rule) (problem : Text.NumeralError)
      (hproblem : Policy.storeIdsFor rule (some request.context) = .error problem) :
      Undecided shared request user (.error (.numeral "" problem)) (.numeral "" problem)
  | overflow (q : Asked) (hq : q.Sound shared request) (st : ℤ) (hst : st ∈ q.stores)
      (hunfit : ¬fits st)
      (huser : user.isSome) : Undecided shared request user (.ok (.inr q)) .range

/-- The failures on a request whose way led there, if the number of the user fits the database. -/
def Fails (shared : Bool) (request : Request) (user : Option ℤ)
    (found : Except Failure (Verdict ⊕ Asked)) (e : Failure) :
    Prop := (∀ u ∈ user, fits u) → Undecided shared request user found e

theorem Served.scope {rule : Rule} (h : Served shared rule) : ∃ word, rule.scope = .text word := by
  obtain ⟨row, -, -, hrestored⟩ := h
  exact ⟨row.scope, (restored_spec hrestored).2⟩

/-- The cached form of a verdict of a rule holds a verdict, and so does what the back
end gives back of it. -/
theorem holdsVerdict_toValue {rule : Rule} {stores : List ℤ} {v : Verdict}
    (hv : Policy.Speaks rule stores v) (hrule : Served shared rule)
    (hstores : ∀ n ∈ stores, Text.Short n) :
    HoldsVerdict v.toValue ∧ ∃ w, GivenBack shared v.toValue w ∧ HoldsVerdict w := by
  have hholds : HoldsVerdict v.toValue := ⟨rfl, v, Verdict.read_toValue hv.regular⟩
  refine ⟨hholds, ?_⟩
  cases shared with
  | false => exact ⟨_, rfl, hholds⟩
  | true =>
      obtain ⟨row, -, hcountable, hrestored⟩ := hrule
      have hid : v.ruleId.Plain := by
        rw [hv.ruleId, (restored_spec hrestored).1]
        exact .int _ (hcountable rfl)
      have hids : ∀ id ∈ v.stores.ids, id.Plain := by
        intro id hid
        obtain ⟨n, hn, rfl⟩ := hv.ids id hid
        exact .int n (hstores n hn)
      have hplain := hv.regular.plain_sorted hids hid
      obtain ⟨v', hread, -⟩ := hv.regular.read_sorted hid.sorted_eq
      exact ⟨_, ⟨hplain.stable, Value.toSortedJson_sorted hplain⟩, rfl, v', hread⟩

theorem callerOf_userId (user : Option ℤ) (roles permissions abilities : List String) :
    (callerOf user roles permissions abilities).userId = Value.ofOption .int user := rfl

section requests

variable {request : Request} {user : Option ℤ} {caller : Caller}
  (huser : caller.userId = Value.ofOption .int user)
  (hrequest : request.Delivered)

include hrequest

/-- The way of a delivered request leads to a verdict for which no rule is asked, or to
a rule that is served. -/
theorem ends_question (user : Option ℤ) (h : Orderly shared left s m) :
    Ends shared left (question request caller) s
    (fun found => ∀ q, found = .inr q → q.Sound shared request)
    (fun e => Fails shared request user (.error e) e) := by
  obtain ⟨⟨service, hservice⟩, ⟨word, hmethod⟩, ⟨path, hpath⟩, -⟩ := hrequest.spec
  unfold question
  refine ends_current (ends_lift h (fun method _ => ?_) fun e he => ?_)
  · split
    · exact ends_pure h fun q hq => by cases hq
    · refine ends_bind (ends_rulesetVersion h) fun n s₁ m₁ _ _ h₁ => ?_
      rw [hservice, hpath]
      refine ends_bind (ends_findActive h₁ service method n) fun rules s₂ m₂ hrules _ h₂ => ?_
      have hreport :
          Ends shared left (reportUnreadable (Rule.unreadable rules (.text path) request.routeName))
          s₂
          (fun _ => True) (fun e => Fails shared request user (.error e) e) :=
        ends_noted h₂ rfl ⟨rfl, rfl, rfl, rfl, rfl⟩ trivial
      refine ends_bind hreport fun _ s₃ m₃ _ _ h₃ =>
        ends_lift h₃ (fun found hfound => ?_) fun e he => ?_
      · cases found with
        | none => exact ends_pure h₃ fun q hq => by cases hq
        | some rule =>
            have hrule : Served shared rule := hrules rule (Rule.mem_of_select hfound)
            refine ends_lift h₃ (fun stores hstores => ends_pure h₃ fun q hq => ?_) fun e he => ?_
            · obtain rfl : ⟨n, method, rule, stores⟩ = q := Sum.inr.inj hq
              refine ⟨hrule, ?_⟩
              cases hids : Policy.storeIdsFor rule (some request.context) with
              | error problem =>
                  rw [hids] at hstores
                  cases hstores
              | ok ids =>
                  rw [hids] at hstores
                  exact congrArg Except.ok (Except.ok.inj hstores)
            · cases hids : Policy.storeIdsFor rule (some request.context) with
              | error problem =>
                  rw [hids] at he
                  exact Except.error.inj he ▸ fun _ => .unreadable rule hrule problem hids
              | ok ids =>
                  rw [hids] at he
                  cases he
      · have hselectable : ∀ rule ∈ rules, rule.Selectable := by
          intro rule hrule
          obtain ⟨row, hsound, -, hrestored⟩ := hrules rule hrule
          exact hsound.selectable hrestored
        obtain ⟨found, hfound⟩ := Rule.exists_select hselectable path request.routeName
        rw [hfound] at he
        cases he
  · unfold Request.lookupMethod at he
    rw [hmethod] at he
    split at he <;> cases he

include huser

/-- A rule that is served answers for the stores that it finds in a delivered request. -/
theorem ends_answer (cached : Bool) {q : Asked} (hq : q.Sound shared request)
    (h : Orderly shared left s m) :
    Ends shared left (answer cached request caller q) s (fun _ => True)
      (Fails shared request user (.ok (.inr q))) := by
  obtain ⟨n, method, rule, stores⟩ := q
  have hrule : Served shared rule := hq.rule
  obtain ⟨word, hscope⟩ := hrule.scope
  have hshort : ∀ n ∈ stores, Text.Short n := Stores.short_storeIdsFor hrequest.spec.2.2.2 hq.stores
  have hverdict : ∀ s' m', Orderly shared left s' m' →
      Ends shared left (evaluate cached rule caller (stores.map .int)) s'
      (Policy.Speaks rule stores)
        (Fails shared request user (.ok (.inr ⟨n, method, rule, stores⟩))) := by
    intro s' m' h'
    refine (ends_evaluate huser cached rule hscope hshort h').imp (fun v hv => hv) ?_
    rintro e ⟨rfl, u, hu, hunfit⟩
    intro hfits
    obtain ⟨st, hst, hunfit⟩ : ∃ st ∈ stores, ¬fits st := by
      by_contra hall
      push Not at hall
      exact hunfit ⟨hfits u hu, hall⟩
    exact .overflow ⟨n, method, rule, stores⟩ hq st hst hunfit (by rw [hu]; rfl)
  unfold answer
  split
  · exact (hverdict s m h).imp (fun _ _ => trivial) fun _ he => he
  · refine ends_current ?_
    dsimp only [Asked.key]
    rw [Key.text_decision]
    have hpayload :
        Ends shared
        left (getOrCompute ((Key.decision n (decisionText request method caller rule stores)).text
        s.cache.space) (some s.settings.decisionTtl.ttlSeconds) "decision" (do
          return (← evaluate cached rule caller (stores.map .int)).toValue)) s HoldsVerdict
        (Fails shared request user (.ok (.inr ⟨n, method, rule, stores⟩))) := by
      refine ends_getOrCompute h (by simp) (ttlSeconds_pos _) (fun p hp => ⟨hp.1, hp⟩)
        fun s' m' _ h' => ?_
      refine ends_bind (hverdict s' m' h') fun v s₁ m₁ hv _ h₁ => ?_
      obtain ⟨hholds, w, hvw, hw⟩ := holdsVerdict_toValue hv hrule hshort
      exact ends_pure h₁ ⟨hholds.1, hholds, w, hvw, fun _ => hw⟩
    refine ends_bind hpayload fun payload s₁ m₁ hv _ h₁ => ?_
    obtain ⟨-, v, hread⟩ := hv
    exact ⟨s₁, m₁, .refl s₁, h₁, .inl ⟨v, by rw [outcome_lift, hread], trivial⟩⟩

/-- A delivered request gets a verdict, or is refused for a store id in it. -/
theorem ends_authorize (cached : Bool) (h : Orderly shared left s m) :
    Ends shared left (authorize cached request caller) s (fun _ => True)
      (Fails shared request user (outcome (question request caller) s).1) := by
  have hnote : ∀ v s₁ m₁ found, Orderly shared left s₁ m₁ →
      Ends shared left (noteDecision request caller v) s₁ (fun _ => True)
        (Fails shared request user found) :=
    fun v s₁ m₁ found h₁ => ends_noted h₁ rfl (noted_records s₁ _) trivial
  have hquestion : Ends shared left (question request caller) s
      (fun found => (∀ q, found = .inr q → q.Sound shared request) ∧
        (outcome (question request caller) s).1 = .ok found)
      (Fails shared request user (outcome (question request caller) s).1) := by
    refine (ends_question hrequest user h).traced.imp (fun _ hfound => hfound) fun e he => ?_
    rw [he.2]
    exact he.1
  rw [authorize_eq]
  refine ends_bind hquestion fun found s₁ m₁ hfound _ h₁ => ?_
  obtain ⟨hsound, hfound⟩ := hfound
  rw [hfound]
  unfold conclude
  cases found with
  | inl v => exact hnote v s₁ m₁ _ h₁
  | inr q =>
      exact ends_bind (ends_answer huser hrequest cached (hsound q rfl) h₁) fun v s₂ m₂ _ _ h₂ =>
        hnote v s₂ m₂ _ h₂

end requests

/-! ### Moves -/

/-- Something that is done to a session: an action, a call or a question without a cache, a lookup
of rules, or a unit of work that is given up or begun anew. -/
inductive Move where
  | action (action : Action)
  | hierarchy (call : HierarchyCall)
  | assignment (call : AssignmentCall)
  | permissions (user store : ℤ)
  | find (service method : String)
  | rollback
  | reopen

/-- The session after a move. -/
def afterMove (s : Session) : Move → Session
  | .action action => s.afterAction action
  | .hierarchy call => afterHierarchyCall false call s
  | .assignment call => afterAssignmentCall false call s
  | .permissions user store => (outcome (effectivePermissions false (.int user) (.int store)) s).2
  | .find service method => (outcome (findActive (.text service) (.text method) .null) s).2
  | .rollback => s.rollback
  | .reopen => s.reopen

/-- The session after some moves. -/
def afterMoves (s : Session) (moves : List Move) : Session := moves.foldl afterMove s

theorem afterMoves_concat (s : Session) (moves : List Move) (move : Move) :
    s.afterMoves (moves ++ [move]) = (s.afterMoves moves).afterMove move := by
  unfold afterMoves
  rw [List.foldl_append]
  rfl

/-- Requests that are decided about are delivered. -/
def Move.Delivered : Move → Prop
  | .action (.authorize request _ _ _ _) => request.Delivered
  | _ => True

theorem orderly_event (h : Orderly shared (left + 1) s m) (event : Event) :
    ∃ m', Orderly shared left (s.afterEvent event) m' := by
  have h₁ := h.mono (Nat.le_succ left)
  cases event with
  | hierarchy call => exact (orderly_hierarchyCall h true call).imp fun _ => And.left
  | assignment call => exact (orderly_assignmentCall h₁ true call).imp fun _ => And.left
  | query query => exact (orderly_query h₁ query).imp fun _ => And.right
  | advance seconds => exact ⟨_, orderly_advance h₁ seconds⟩
  | commit => exact ⟨m, h₁.represents, h₁.seeds, h₁.holds, h₁.tables, h₁.tables⟩

/-- A move leaves a session orderly, with as much less room as there are methods. -/
theorem orderly_move (h : Orderly shared (left + methods.length) s m) {move : Move}
    (hmove : move.Delivered) :
    ∃ m', Orderly shared left (s.afterMove move) m' := by
  have h₁ : Orderly shared (left + 1) s m := h.mono (Nat.add_le_add_left (by decide) left)
  have h₀ := h₁.mono (Nat.le_succ left)
  cases move with
  | action action =>
      cases action with
      | rules call => exact orderly_rulePath (path_ruleCall call s) h
      | authorize request user roles permissions abilities =>
          have huser := callerOf_userId user roles permissions abilities
          exact (ends_authorize huser hmove true h₀).after.imp fun _ => And.right
      | event event => exact orderly_event h₁ event
  | hierarchy call => exact (orderly_hierarchyCall h₁ false call).imp fun _ => And.left
  | assignment call => exact (orderly_assignmentCall h₀ false call).imp fun _ => And.left
  | permissions user store =>
      exact (ends_effectivePermissions h₀ false user store).after.imp fun _ => And.right
  | find service method => exact (ends_find h₀ service method).after.imp fun _ => And.right
  | rollback => exact ⟨m, h₀.represents, h₀.seeds, h₀.holds, h₀.saved, h₀.saved⟩
  | reopen => exact ⟨m, h₀.represents, h₀.seeds, h₀.holds, h₀.saved, h₀.saved⟩

/-- However a session is moved, it stays orderly. -/
theorem orderly_moves {moves : List Move} (hmoves : ∀ move ∈ moves, move.Delivered)
    (h : Orderly shared (methods.length * moves.length + left) s m) :
    ∃ m', Orderly shared left (s.afterMoves moves) m' := by
  induction moves generalizing s m with
  | nil => exact ⟨m, h.mono (Nat.le_add_left ..)⟩
  | cons move moves ih =>
      obtain ⟨hmove, hrest⟩ := List.forall_mem_cons.mp hmoves
      rw [List.length_cons, Nat.mul_succ, Nat.add_right_comm] at h
      obtain ⟨m₁, h₁⟩ := orderly_move h hmove
      exact ih hrest h₁

/-- A fresh session over sound rules, which are saved, with room for moves in which all
requests are delivered. -/
structure Ready (shared : Bool) (s : Session) (moves : List Move) : Prop where
  fresh : s.Fresh shared (methods.length * moves.length)
  saved : s.saved = s.tables
  rules : Stocked shared (methods.length * moves.length) s.tables.rules
  delivered : ∀ move ∈ moves, move.Delivered

theorem Ready.start {moves : List Move} (h : Ready shared s moves) :
    Orderly shared (methods.length * moves.length) s fun _ => none where
  represents := h.fresh.cache
  seeds := h.fresh.seeds
  holds := .empty
  tables := ⟨h.fresh.edges, h.fresh.assignments, h.rules⟩
  saved := h.saved ▸ ⟨h.fresh.edges, h.fresh.assignments, h.rules⟩

theorem ready_memory {moves : List Move} (hcache : s.cache.backend = .memory [])
    (hgraphs : s.graphs = []) (hsaved : s.saved = s.tables) (hedges : s.tables.edges = [])
    (hassignments : s.tables.assignments = []) (hrules : s.tables.rules = [])
    (hmoves : ∀ move ∈ moves, move.Delivered) : Ready false s moves where
  fresh := fresh_memory hcache hgraphs (hedges ▸ List.nodup_nil) (hassignments ▸ List.nodup_nil) _
  saved := hsaved
  rules := by
    rw [hrules]
    exact ⟨List.nodup_nil, fun _ hrow => absurd hrow List.not_mem_nil,
      fun _ hrow => absurd hrow List.not_mem_nil⟩
  delivered := hmoves

/-- The orders of a store are asked for. -/
def askForStore (store : ℤ) : Request :=
  ⟨.text "shop", .text "GET", .text "/orders", .null, ⟨[], [("store_id", .int store)], []⟩⟩

/-- The rule is made, and the user joins the staff of the store. -/
def staffed : List Move :=
  [.action (.rules (.create readOrders)), .action (.event (.assignment (.assign 1 2 1 .null true)))]

end Session
end AccessControl
