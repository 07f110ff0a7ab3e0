import AccessControl.Policy.Evaluation
import AccessControl.Policy.Request
import AccessControl.Proofs.Order
import AccessControl.Proofs.Value.Bounded
import Mathlib

/-! # Store ids are short

What stands in a bounded value is bounded (`bounded_follow`), and the ids that it names are short
(`short_namedIds`).  So the store ids that a rule finds in a delivered request are short
(`short_storeIdsFor`, `Request.Delivered.spec`). -/

namespace AccessControl

/-! ### Ids -/

namespace Stores

open Value (Bounded)

variable {ids : List ℤ}

/-- What a bounded value leads to is bounded. -/
theorem bounded_follow {node v : Value} (h : Bounded node) {parts : List (List Char)}
    (hfound : follow node parts = .ok v) :
    Bounded v := by
  induction parts generalizing node with
  | nil =>
      obtain rfl := Except.ok.inj hfound
      exact h
  | cons part parts ih =>
      rw [follow] at hfound
      split at hfound
      · cases hfound
      · obtain rfl := Except.ok.inj hfound
        exact .null
      · next next hchild =>
          refine ih ?_ hfound
          cases h with
          | object fields hfields =>
              change Except.ok (Fields.get? fields (String.ofList part)) = Except.ok (some next)
                at hchild
              exact .get? hfields (Except.ok.inj hchild)
          | list items hitems =>
              unfold child at hchild
              dsimp only at hchild
              split at hchild
              · cases hindex : Text.readDigitRun part with
                | error e =>
                    rw [hindex] at hchild
                    cases hchild
                | ok i =>
                    rw [hindex] at hchild
                    exact hitems next (List.mem_of_getElem? (Except.ok.inj hchild))
              · cases hchild
          | _ => cases hchild

theorem short_partId {part : List Char} (h : partId part = .ok ids) : ∀ n ∈ ids, Text.Short n := by
  unfold partId at h
  split at h
  · next hrun =>
      unfold Text.readDigitRun at h
      split at h
      · cases h
      · next hlength =>
          obtain rfl := Except.ok.inj h
          intro n hn
          dsimp only at hn
          split at hn
          · obtain rfl := List.mem_singleton.mp hn
            have hdigits : ∀ c ∈ part, Text.isAsciiDigit c = true :=
              List.all_eq_true.mp (Bool.and_eq_true_iff.mp hrun).2
            exact (Text.ofDigitRun_lt hdigits).trans_le
              (Nat.pow_le_pow_right (by decide) (Nat.le_of_not_lt hlength))
          · cases hn
  · obtain rfl := Except.ok.inj h
    simp

theorem short_partIds {parts : List (List Char)} (h : partIds parts = .ok ids) :
    ∀ n ∈ ids, Text.Short n := by
  induction parts generalizing ids with
  | nil =>
      obtain rfl := Except.ok.inj h
      simp
  | cons part parts ih =>
      obtain ⟨first, hfirst, h⟩ := bind_eq_ok h
      obtain ⟨rest, hrest, h⟩ := bind_eq_ok h
      obtain rfl := Except.ok.inj h
      exact List.forall_mem_append.mpr ⟨short_partId hfirst, ih hrest⟩

theorem short_namedIdsOf {items : List Value}
    (hitems : ∀ v ∈ items, ∀ ids, namedIds v = .ok ids → ∀ n ∈ ids, Text.Short n)
    (h : namedIdsOf items = .ok ids) :
    ∀ n ∈ ids, Text.Short n := by
  induction items generalizing ids with
  | nil =>
      rw [namedIdsOf] at h
      obtain rfl := Except.ok.inj h
      simp
  | cons v items ih =>
      rw [namedIdsOf] at h
      obtain ⟨hv, hrest⟩ := List.forall_mem_cons.mp hitems
      obtain ⟨first, hfirst, h⟩ := bind_eq_ok h
      obtain ⟨rest, hids, h⟩ := bind_eq_ok h
      obtain rfl := Except.ok.inj h
      exact List.forall_mem_append.mpr ⟨hv first hfirst, ih hrest hids⟩

/-- The ids that a bounded value names are short. -/
theorem short_namedIds {v : Value} (h : Bounded v) :
    ∀ ids, namedIds v = .ok ids → ∀ n ∈ ids, Text.Short n := by
  induction h with
  | int n hn =>
      intro ids hids k hk
      rw [namedIds] at hids
      obtain rfl := Except.ok.inj hids
      split at hk
      · exact List.mem_singleton.mp hk ▸ hn
      · cases hk
  | float x hx =>
      intro ids hids k hk
      rw [namedIds] at hids
      obtain rfl := Except.ok.inj hids
      split at hk
      · exact hx k (Option.mem_toList.mp hk)
      · cases hk
  | text s =>
      intro ids hids
      rw [namedIds] at hids
      exact short_partIds hids
  | list items _ ih =>
      intro ids hids
      rw [namedIds] at hids
      exact short_namedIdsOf ih hids
  | null | bool | object =>
      intro ids hids
      rw [namedIds] at hids
      · obtain rfl := Except.ok.inj hids
        simp
      all_goals simp

/-! ### Contexts -/

/-- The data of a context is bounded. -/
def Context.Bounded (c : Context) : Prop := ∀ b, ∀ f ∈ c.bucket b, f.2.Bounded

theorem Context.bounded_read {data : Value} (h : data.Bounded) {c : Context}
    (hc : read data = .ok c) : c.Bounded := by
  unfold read at hc
  split at hc
  · obtain rfl := Except.ok.inj hc
    intro b
    cases b <;> simp [bucket, empty]
  · cases h with
    | object fields hfields =>
        obtain rfl := Except.ok.inj hc
        intro b
        have hdata :
            (ofFields fields).bucket b = ((Fields.get? fields b.name).bind Value.fields?).getD
            [] := by
          cases b <;> rfl
        rw [hdata]
        cases hget : Fields.get? fields b.name with
        | none => simp
        | some v =>
            cases Value.Bounded.get? hfields hget with
            | object inner hinner => exact hinner
            | _ => simp [Value.fields?]
    | _ => cases hc

variable {context : Context} (hcontext : context.Bounded)

include hcontext

theorem short_idsUnder {b : Bucket} {keys : List String}
    (h : idsUnder (context.bucket b) keys = .ok ids) :
    ∀ n ∈ ids, Text.Short n := by
  induction keys generalizing ids with
  | nil =>
      obtain rfl := Except.ok.inj h
      simp
  | cons key keys ih =>
      obtain ⟨found, hfound, h⟩ := bind_eq_ok h
      obtain ⟨first, hfirst, h⟩ := bind_eq_ok h
      obtain ⟨rest, hrest, h⟩ := bind_eq_ok h
      obtain rfl := Except.ok.inj h
      have hbounded : Bounded found := bounded_follow (.object _ (hcontext b)) hfound
      exact List.forall_mem_append.mpr ⟨short_namedIds hbounded first hfirst, ih hrest⟩

theorem short_idsIn {sources : Sources} {buckets : List Bucket}
    (h : idsIn context sources buckets = .ok ids) :
    ∀ n ∈ ids, Text.Short n := by
  induction buckets generalizing ids with
  | nil =>
      obtain rfl := Except.ok.inj h
      simp
  | cons b buckets ih =>
      obtain ⟨first, hfirst, h⟩ := bind_eq_ok h
      obtain ⟨rest, hrest, h⟩ := bind_eq_ok h
      obtain rfl := Except.ok.inj h
      exact List.forall_mem_append.mpr ⟨short_idsUnder hcontext hfirst, ih hrest⟩

/-- The store ids that count for a rule are short. -/
theorem short_storeIdsFor {rule : Rule} (h : Policy.storeIdsFor rule (some context) = .ok ids) :
    ∀ n ∈ ids, Text.Short n := by
  unfold Policy.storeIdsFor at h
  dsimp only at h
  split at h
  · unfold storeIds at h
    cases hids : idsIn context rule.sources Bucket.all with
    | error e =>
        rw [hids] at h
        cases h
    | ok found =>
        rw [hids] at h
        obtain rfl := Except.ok.inj h
        exact fun n hn => short_idsIn hcontext hids n (mem_ascendingInts.mp hn)
  · obtain rfl := Except.ok.inj h
    simp

end Stores

/-! ### Requests -/

/-- A request is delivered in a payload that a JSON text denotes. -/
def Request.Delivered (request : Request) : Prop :=
  ∃ text data, Value.ofJson text = .ok data ∧ Request.read data = .ok request

/-- A delivered request has a text for its service, its method and its path, and bounded data. -/
theorem Request.Delivered.spec {request : Request} (h : request.Delivered) :
    (∃ service, request.service = .text service) ∧ (∃ method, request.method = .text method) ∧
      (∃ path, request.path = .text path) ∧ request.context.Bounded := by
  obtain ⟨text, data, hdata, hrequest⟩ := h
  unfold read at hrequest
  split at hrequest
  · obtain ⟨context, hcontext, hrequest⟩ := bind_eq_ok hrequest
    obtain rfl := Except.ok.inj hrequest
    exact ⟨⟨_, rfl⟩, ⟨_, rfl⟩, ⟨_, rfl⟩,
      Stores.Context.bounded_read ((Value.bounded_ofJson hdata).field _) hcontext⟩
  · cases hrequest
end AccessControl
