import AccessControl.Policy.Verdict
import AccessControl.Proofs.Value.Json
import AccessControl.Proofs.Value.Member
import Mathlib

/-! # Verdicts are read back

A verdict of texts and numbers, with one answer at most for each store, is what its cached form is
read as (`read_toValue`). -/

namespace AccessControl

/-! ### Answers -/

/-- The answer for a store with a number. -/
def storeAnswer (p : ℤ × Bool) : Value × Bool := (.int p.1, p.2)

theorem StoreAnswers.set_new {pairs : List (ℤ × Bool)} {n : ℤ} (h : n ∉ pairs.map Prod.fst)
    (allowed : Bool) :
    StoreAnswers.set (pairs.map storeAnswer) (.int n) allowed =
      (pairs ++ [(n, allowed)]).map storeAnswer := by
  induction pairs with
  | nil => rfl
  | cons p pairs ih =>
      rw [List.map_cons, List.mem_cons, not_or] at h
      have hne : (storeAnswer p).1.alike (.int n) = false := by
        rw [storeAnswer, Value.alike_int]
        exact decide_eq_false (Ne.symm h.1)
      rw [List.map_cons, StoreAnswers.set, hne, if_neg Bool.false_ne_true, ih h.2]
      rfl

/-- The field of an answer in a cached verdict. -/
def answerField (p : ℤ × Bool) : String × Value := (Text.intText p.1, .bool p.2)

theorem answerFields_map {pairs : List (ℤ × Bool)} (h : (pairs.map Prod.fst).Nodup) :
    StoreMeta.answerFields (pairs.map storeAnswer) = pairs.map answerField := by
  have hfields : (pairs.map storeAnswer).map (fun a => (a.1.display, Value.bool a.2)) =
      pairs.map answerField := by
    rw [List.map_map]
    rfl
  have hnames : (pairs.map answerField).map Prod.fst = (pairs.map Prod.fst).map Text.intText := by
    rw [List.map_map, List.map_map]
    rfl
  unfold StoreMeta.answerFields
  rw [hfields]
  refine Fields.ofPairs_eq_self ?_
  rw [hnames]
  exact h.map fun _ _ hmn => Text.intText_injective hmn

namespace Verdict

theorem readAnswers_map (found : List (ℤ × Bool)) {pairs : List (ℤ × Bool)}
    (hshort : ∀ p ∈ pairs, Text.Short p.1) (h : ((found ++ pairs).map Prod.fst).Nodup) :
    readAnswers (found.map storeAnswer) (pairs.map answerField) =
      .ok ((found ++ pairs).map storeAnswer) := by
  induction pairs generalizing found with
  | nil => rw [List.append_nil, List.map_nil, readAnswers]
  | cons p pairs ih =>
      have hnew : p.1 ∉ found.map Prod.fst := by
        rw [List.map_append, List.map_cons, List.nodup_middle] at h
        exact fun hmem => (List.nodup_cons.mp h).1 (List.mem_append_left _ hmem)
      have hread : Text.readInt (answerField p).1 = .ok p.1 :=
        Text.readInt_intText (hshort p List.mem_cons_self)
      have hrest : ((found ++ [(p.1, p.2)] ++ pairs).map Prod.fst).Nodup := by
        rwa [List.append_assoc, List.singleton_append]
      rw [List.map_cons, readAnswers, hread]
      change readAnswers
        (StoreAnswers.set (found.map storeAnswer) (.int p.1) (answerField p).2.isTruthy) _ = _
      rw [StoreAnswers.set_new hnew, show (answerField p).2.isTruthy = p.2 from rfl,
        ih _ (fun q hq => hshort q (List.mem_cons_of_mem p hq)) hrest, List.append_assoc,
          List.singleton_append]

/-! ### Verdicts -/

/-- A verdict of texts and numbers, with one answer at most for each store. -/
structure Regular (v : Verdict) : Prop where
  required : ∃ names : List String, v.required = names.map .text
  ids : ∃ ns : List ℤ, v.stores.ids = ns.map .int
  mode : ∃ mode, v.stores.mode = .text mode
  perStore : ∀ answers, v.stores.perStore = some answers → ∃ pairs : List (ℤ × Bool),
    answers = pairs.map storeAnswer ∧ (pairs.map Prod.fst).Nodup ∧ ∀ p ∈ pairs, Text.Short p.1

theorem walk_list (items : List Value) : walk (.list items) = .ok items := by
  cases items <;> rfl

theorem mapM_toInt (ns : List ℤ) : (ns.map Value.int).mapM Value.toInt = .ok ns := by
  induction ns with
  | nil => rfl
  | cons n ns ih =>
      rw [List.map_cons, List.mapM_cons, ih]
      rfl

theorem read_parts (v : Verdict) : read v.toValue = (do
    let store ← readFields v.stores.toValue
    let required ← walk (.list v.required)
    let idValues ← walk ((store.get? "store_ids").getD .null)
    let ids ← idValues.mapM Value.toInt
    let perStore ← readPerStore ((store.get? "per_store").getD .null)
    return ⟨v.authorized, v.grantedBy, required, ⟨ids.map .int, .text (readMode store), perStore⟩,
      v.ruleId⟩) := rfl

/-- A regular verdict is read back from its cached form. -/
theorem read_toValue {v : Verdict} (h : v.Regular) : read v.toValue = .ok v := by
  obtain ⟨authorized, grantedBy, required, ⟨ids, mode, perStore⟩, ruleId⟩ := v
  obtain ⟨⟨names, hnames⟩, ⟨ns, hids⟩, ⟨word, hmode⟩, hanswers⟩ := h
  dsimp only at hnames hids hmode hanswers
  subst hnames hids hmode
  have hparts : ∀ (fields : Fields) (answers : Option StoreAnswers),
      readFields (StoreMeta.toValue ⟨ns.map .int, .text word, perStore⟩) = .ok fields →
      (fields.get? "store_ids").getD .null = .list (ns.map .int) → readMode fields = word →
      readPerStore ((fields.get? "per_store").getD .null) = .ok answers →
      read (toValue ⟨authorized, grantedBy, names.map .text, ⟨ns.map .int, .text word, perStore⟩,
        ruleId⟩) =
        .ok ⟨authorized, grantedBy, names.map .text, ⟨ns.map .int, .text word, answers⟩,
          ruleId⟩ := by
    intro fields answers hfields hstores hword hper
    rw [read_parts, hfields]
    change (do
      let required ← walk (.list (names.map .text))
      let idValues ← walk ((fields.get? "store_ids").getD .null)
      let ids ← idValues.mapM Value.toInt
      let perStore ← readPerStore ((fields.get? "per_store").getD .null)
      return (⟨authorized, grantedBy, required, ⟨ids.map .int, .text (readMode fields), perStore⟩,
        ruleId⟩ : Verdict)) = _
    rw [hstores, hword, hper, walk_list, walk_list]
    change (do
      let ids ← (ns.map Value.int).mapM Value.toInt
      return (⟨authorized, grantedBy, names.map .text, ⟨ids.map .int, .text word, answers⟩,
        ruleId⟩ : Verdict)) = _
    rw [mapM_toInt]
    rfl
  cases perStore with
  | none => exact hparts _ none rfl rfl rfl rfl
  | some answers =>
      obtain ⟨pairs, rfl, hnodup, hshort⟩ := hanswers answers rfl
      refine hparts _ (some (pairs.map storeAnswer)) rfl rfl rfl ?_
      have hread : readAnswers [] (pairs.map answerField) = .ok (pairs.map storeAnswer) :=
        readAnswers_map [] hshort hnodup
      change (readAnswers [] (StoreMeta.answerFields (pairs.map storeAnswer))).map some = _
      rw [answerFields_map hnodup, hread]
      rfl

end Verdict
end AccessControl
