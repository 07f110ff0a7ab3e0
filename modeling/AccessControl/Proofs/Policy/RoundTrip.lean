import AccessControl.Proofs.Policy.Evaluation
import AccessControl.Proofs.Policy.Grants
import AccessControl.Proofs.Rule.Sound
import AccessControl.Proofs.Session.Outcome
import AccessControl.Proofs.Value.Objects
import Mathlib

/-! # Verdicts from a string store

A string store keeps the fields of a verdict by name, so the answers for stores come back in the
order of the texts of their numbers, and as the same answers otherwise
(`Verdict.Regular.read_sorted`, `Verdict.Same.alike`).  Every verdict of a rule whose scope is a
text is regular, whoever is asked for permissions and however often a store is named
(`speaks_evaluate`), so all of them are given back (`evaluate_readBack`). -/

namespace AccessControl

/-! ### Answers -/

namespace StoreAnswers

/-- Answers for stores that have short numbers, one for each. -/
def Regular (answers : StoreAnswers) : Prop := ∃ pairs : List (ℤ × Bool),
  answers = pairs.map storeAnswer ∧ (pairs.map Prod.fst).Nodup ∧ ∀ p ∈ pairs, Text.Short p.1

/-- Setting an answer keeps the stores that are answered, and adds one at most. -/
theorem exists_set (pairs : List (ℤ × Bool)) (n : ℤ) (allowed : Bool) : ∃ others : List (ℤ × Bool),
    StoreAnswers.set (pairs.map storeAnswer) (.int n) allowed = others.map storeAnswer ∧
      others.map Prod.fst = if n ∈ pairs.map Prod.fst then pairs.map Prod.fst
        else pairs.map Prod.fst ++ [n] := by
  induction pairs with
  | nil => exact ⟨[(n, allowed)], rfl, rfl⟩
  | cons p pairs ih =>
      have halike : (storeAnswer p).1.alike (.int n) = decide (p.1 = n) := Value.alike_int p.1 n
      rw [List.map_cons, StoreAnswers.set, halike]
      by_cases heq : p.1 = n
      · refine ⟨(p.1, allowed) :: pairs, ?_, ?_⟩
        · rw [if_pos (decide_eq_true heq)]
          rfl
        · rw [if_pos (by simp [heq]), List.map_cons, List.map_cons]
      · obtain ⟨others, hothers, hstores⟩ := ih
        refine ⟨p :: others, ?_, ?_⟩
        · rw [if_neg (by simpa using heq), hothers, List.map_cons]
        · have hmem : n ∈ (p :: pairs).map Prod.fst ↔ n ∈ pairs.map Prod.fst := by
            rw [List.map_cons, List.mem_cons, or_iff_right (Ne.symm heq)]
          rw [List.map_cons, hstores, List.map_cons]
          simp only [← List.map_cons, hmem]
          split <;> rfl

theorem Regular.set {answers : StoreAnswers} (h : answers.Regular) {n : ℤ} (hn : Text.Short n)
    (allowed : Bool) :
    (StoreAnswers.set answers (.int n) allowed).Regular := by
  obtain ⟨pairs, rfl, hnodup, hshort⟩ := h
  obtain ⟨others, hothers, hstores⟩ := exists_set pairs n allowed
  have hshort' : ∀ k ∈ others.map Prod.fst, Text.Short k := by
    intro k hk
    have hcases : k ∈ pairs.map Prod.fst ∨ k = n := by
      rw [hstores] at hk
      split at hk
      · exact .inl hk
      · simpa using hk
    rcases hcases with hk | rfl
    · obtain ⟨p, hp, rfl⟩ := List.mem_map.mp hk
      exact hshort p hp
    · exact hn
  refine ⟨others, hothers, ?_, fun p hp => hshort' p.1 (List.mem_map_of_mem hp)⟩
  rw [hstores]
  split
  · exact hnodup
  · next hnew =>
      refine List.nodup_append.mpr ⟨hnodup, List.nodup_singleton n, fun k hk m hm => ?_⟩
      obtain rfl := List.mem_singleton.mp hm
      exact fun heq => hnew (heq ▸ hk)

theorem exists_of_perm_map {α β : Type} {f : α → β} {ys : List β} {xs : List α}
    (h : ys.Perm (xs.map f)) :
    ∃ zs : List α, zs.Perm xs ∧ ys = zs.map f := by
  generalize hm : xs.map f = m at h
  induction h generalizing xs with
  | nil => exact ⟨xs, .refl _, hm.symm⟩
  | cons y _ ih =>
      obtain ⟨x, rest, rfl, rfl, hrest⟩ := List.map_eq_cons_iff.mp hm
      obtain ⟨zs, hperm, rfl⟩ := ih hrest
      exact ⟨x :: zs, hperm.cons x, rfl⟩
  | swap a b l =>
      obtain ⟨x, rest, rfl, rfl, hrest⟩ := List.map_eq_cons_iff.mp hm
      obtain ⟨y, rest', rfl, rfl, rfl⟩ := List.map_eq_cons_iff.mp hrest
      exact ⟨y :: x :: rest', .swap x y rest', rfl⟩
  | trans _ _ ih₁ ih₂ =>
      obtain ⟨zs, hzs, rfl⟩ := ih₂ hm
      obtain ⟨ws, hws, rfl⟩ := ih₁ rfl
      exact ⟨ws, hws.trans hzs, rfl⟩

theorem Regular.nodup_fields {answers : StoreAnswers} (h : answers.Regular) :
    ((StoreMeta.answerFields answers).map Prod.fst).Nodup := by
  obtain ⟨pairs, rfl, hnodup, -⟩ := h
  have hnames : (pairs.map answerField).map Prod.fst = (pairs.map Prod.fst).map Text.intText := by
    rw [List.map_map, List.map_map]
    rfl
  rw [answerFields_map hnodup, hnames]
  exact hnodup.map fun _ _ hmn => Text.intText_injective hmn

theorem Regular.bool_fields {answers : StoreAnswers} (h : answers.Regular) {f : String × Value}
    (hf : f ∈ StoreMeta.answerFields answers) : ∃ allowed, f.2 = .bool allowed := by
  obtain ⟨pairs, rfl, hnodup, -⟩ := h
  rw [answerFields_map hnodup] at hf
  obtain ⟨p, -, rfl⟩ := List.mem_map.mp hf
  exact ⟨p.2, rfl⟩

/-- The same answers in another order have fields that are alike. -/
theorem Regular.alike {answers others : StoreAnswers} (h : answers.Regular)
    (hperm : others.Perm answers) :
    (Value.object (StoreMeta.answerFields others)).alike
      (.object (StoreMeta.answerFields answers)) = true := by
  have hnames := h.nodup_fields
  obtain ⟨pairs, rfl, hnodup, hshort⟩ := h
  obtain ⟨pairs', hpairs, rfl⟩ := exists_of_perm_map hperm
  have hnodup' : (pairs'.map Prod.fst).Nodup := (hpairs.map Prod.fst).nodup_iff.mpr hnodup
  rw [answerFields_map hnodup] at hnames ⊢
  rw [answerFields_map hnodup']
  refine Value.alike_of_perm (hpairs.map answerField) hnames fun f hf => ?_
  obtain ⟨p, -, rfl⟩ := List.mem_map.mp hf
  exact (Value.Plain.bool p.2).alike_self

/-- Sorted by the texts of the stores, answers are read as the same answers in some order. -/
theorem Regular.read_sorted {answers : StoreAnswers} (h : answers.Regular) :
    ∃ others : StoreAnswers,
    others.Perm answers ∧
      Verdict.readPerStore (Value.object (StoreMeta.answerFields answers)).sorted =
        .ok (some others) := by
  obtain ⟨pairs, rfl, hnodup, hshort⟩ := h
  have hbools :
      (pairs.map answerField).map (fun f => (f.1, f.2.sorted)) = pairs.map answerField := by
    rw [List.map_map]
    rfl
  have hperm := Value.perm_sortedFields (pairs.map answerField)
  rw [hbools] at hperm
  obtain ⟨others, hothers, heq⟩ := exists_of_perm_map hperm
  refine ⟨others.map storeAnswer, hothers.map storeAnswer, ?_⟩
  have hread : Verdict.readAnswers [] (others.map answerField) = .ok (others.map storeAnswer) :=
    Verdict.readAnswers_map [] (fun p hp => hshort p (hothers.mem_iff.mp hp))
      ((hothers.map Prod.fst).nodup_iff.mpr hnodup)
  rw [answerFields_map hnodup, Value.sorted, heq, Verdict.readPerStore, hread]
  rfl

end StoreAnswers

/-! ### Verdicts -/

namespace Verdict

/-- Two verdicts that say the same, with their answers for stores in any order. -/
def Same (v w : Verdict) : Prop := ∃ answers,
  v = { w with stores := { w.stores with perStore := answers } } ∧
    Option.Rel List.Perm answers w.stores.perStore

theorem sorted_ints (ns : List ℤ) : (Value.list (ns.map .int)).sorted = .list (ns.map .int) := by
  rw [Value.sorted, Value.sortedItems_eq_map, List.map_map]
  rfl

theorem sorted_stores (ns : List ℤ) (mode : String) (perStore : Option StoreAnswers) :
    (StoreMeta.toValue ⟨ns.map .int, .text mode, perStore⟩).sorted = .object
      ((perStore.map fun answers =>
        ("per_store", (Value.object (StoreMeta.answerFields answers)).sorted)).toList ++
        [("store_ids", .list (ns.map .int)), ("store_mode", .text mode)]) := by
  have hmode : (Value.text mode).sorted = .text mode := rfl
  rw [StoreMeta.toValue, Value.sorted]
  cases perStore with
  | none =>
      simp +decide only [List.append_nil, Value.sortedFields, Value.insertField, Option.map_none,
        Option.toList_none,
        List.nil_append, if_true, hmode, sorted_ints]
  | some answers =>
      simp +decide only [List.cons_append, List.nil_append, Value.sortedFields, Value.insertField,
        Option.map_some,
        Option.toList_some, if_true, if_false, hmode, sorted_ints]

theorem sorted_toValue {v : Verdict} {names : List String}
    (hrequired : v.required = names.map .text) :
    v.toValue.sorted = .object [("authorized", .bool v.authorized),
      ("granted_by", .text v.grantedBy),
      ("required_permissions", .list (names.map .text)), ("rule_id", v.ruleId.sorted),
      ("store", v.stores.toValue.sorted)] := by
  have hbool : (Value.bool v.authorized).sorted = .bool v.authorized := rfl
  have htext : (Value.text v.grantedBy).sorted = .text v.grantedBy := rfl
  have hnames : (Value.list v.required).sorted = .list (names.map .text) := by
    rw [hrequired]
    exact (Value.plain_texts names).sorted_eq
  rw [toValue, payloadFields, Value.sorted]
  simp +decide only [List.cons_append, List.nil_append, Value.sortedFields, Value.insertField,
    if_true, if_false, hbool,
    htext, hnames]

/-- What is read from an object with the fields of a verdict, in whatever order they stand. -/
theorem read_object {fields store : Fields} {authorized : Bool} {grantedBy mode : String}
    {required : List Value}
    {ns : List ℤ} {answers : Option StoreAnswers}
    (hstore : fields.get? "store" = some (.object store))
    (hsome : store ≠ [])
    (hauthorized : fields.get? "authorized" = some (.bool authorized))
    (hgranted : fields.get? "granted_by" = some (.text grantedBy))
    (hrequired : fields.get? "required_permissions" = some (.list required))
    (hids : store.get? "store_ids" = some (.list (ns.map .int)))
    (hmode : store.get? "store_mode" = some (.text mode))
    (hanswers : readPerStore ((store.get? "per_store").getD .null) = .ok answers) :
    read (.object fields) = .ok ⟨authorized, grantedBy, required,
      ⟨ns.map .int, .text mode, answers⟩,
      (fields.get? "rule_id").getD .null⟩ := by
  have hfields : readFields (.object store) = .ok store := by
    have htruthy : (Value.object store).isTruthy = true := by simpa [Value.isTruthy] using hsome
    rw [readFields, htruthy]
    rfl
  have hstep : ∀ {α β : Type} (a : α) (f : α → Except Failure β),
      ((Except.ok a : Except Failure α) >>= f) = f a :=
    fun _ _ => rfl
  unfold read
  simp only [Value.field, fieldOf, hstore, hauthorized, hgranted, hrequired, hids, hanswers,
    Option.getD_some, hfields, walk_list, mapM_toInt, hstep, readMode, hmode]
  rfl

/-- A regular verdict is read from its sorted form, with the answers for stores in some order. -/
theorem Regular.read_sorted {v : Verdict} (h : v.Regular) (hid : v.ruleId.sorted = v.ruleId) :
    ∃ w, read v.toValue.sorted = .ok w ∧ w.Same v := by
  obtain ⟨authorized, grantedBy, required, ⟨ids, mode, perStore⟩, ruleId⟩ := v
  obtain ⟨⟨names, hnames⟩, ⟨ns, hids⟩, ⟨word, hmode⟩, hanswers⟩ := h
  dsimp only at hnames hids hmode hanswers hid
  subst hnames hids hmode
  rw [sorted_toValue rfl, sorted_stores, hid]
  cases perStore with
  | none =>
      have hnone : readPerStore .null = .ok none := rfl
      exact ⟨_, read_object rfl (by simp) rfl rfl rfl rfl rfl hnone, none, rfl, .none⟩
  | some answers =>
      obtain ⟨others, hperm, hread⟩ := StoreAnswers.Regular.read_sorted (hanswers answers rfl)
      exact ⟨_, read_object rfl (by simp) rfl rfl rfl rfl rfl hread, some others, rfl, .some hperm⟩

/-- A regular verdict with short numbers has a sorted form that is given back by its JSON text. -/
theorem Regular.plain_sorted {v : Verdict} (h : v.Regular) (hids : ∀ id ∈ v.stores.ids, id.Plain)
    (hid : v.ruleId.Plain) :
    v.toValue.sorted.Plain := by
  obtain ⟨authorized, grantedBy, required, ⟨ids, mode, perStore⟩, ruleId⟩ := v
  obtain ⟨⟨names, hnames⟩, ⟨ns, hns⟩, ⟨word, hmode⟩, hanswers⟩ := h
  dsimp only at hnames hns hmode hanswers hids hid
  subst hnames hns hmode
  have hstores : (StoreMeta.toValue ⟨ns.map .int, .text word, perStore⟩).sorted.Plain := by
    cases perStore with
    | none =>
        refine Value.plain_sorted_object (by simp) fun f hf => ?_
        simp only [List.append_nil, List.mem_cons, List.not_mem_nil, or_false] at hf
        rcases hf with rfl | rfl
        · exact (Value.Plain.list _ hids).sorted
        · exact .text word
    | some answers =>
        have hregular : answers.Regular := hanswers answers rfl
        refine Value.plain_sorted_object (by simp) fun f hf => ?_
        simp only [List.cons_append, List.nil_append, List.mem_cons, List.not_mem_nil,
          or_false] at hf
        rcases hf with rfl | rfl | rfl
        · exact (Value.Plain.list _ hids).sorted
        · exact .text word
        · refine Value.plain_sorted_object hregular.nodup_fields fun g hg => ?_
          obtain ⟨allowed, heq⟩ := hregular.bool_fields hg
          rw [heq]
          exact .bool allowed
  refine Value.plain_sorted_object (by simp [payloadFields]) fun f hf => ?_
  simp only [payloadFields, List.cons_append, List.nil_append, List.mem_cons, List.not_mem_nil,
    or_false] at hf
  rcases hf with rfl | rfl | rfl | rfl | rfl
  · exact .bool authorized
  · exact (Value.plain_texts names).sorted
  · exact .text grantedBy
  · exact hstores
  · exact hid.sorted

theorem alike_ints (ns : List ℤ) :
    (Value.list (ns.map .int)).alike (.list (ns.map .int)) = true := by
  rw [Value.alike]
  refine Value.alikeItems_of_forall₂ (List.forall₂_same.mpr fun v hv => ?_)
  obtain ⟨n, -, rfl⟩ := List.mem_map.mp hv
  rw [Value.alike_int, decide_eq_true_iff]

/-- The stores of verdicts that say the same are alike. -/
theorem Same.alike_stores {v w : Verdict} (h : v.Same w) (hw : w.Regular) :
    v.stores.toValue.alike w.stores.toValue = true := by
  obtain ⟨answers, rfl, hanswers⟩ := h
  obtain ⟨authorized, grantedBy, required, ⟨ids, mode, perStore⟩, ruleId⟩ := w
  obtain ⟨-, ⟨ns, hns⟩, ⟨word, hmode⟩, hregular⟩ := hw
  dsimp only at hns hmode hregular hanswers ⊢
  subst hns hmode
  cases hanswers with
  | none =>
      refine Value.alike_object rfl fun f hf => ?_
      simp only [List.append_nil, List.mem_cons, List.not_mem_nil, or_false] at hf
      rcases hf with rfl | rfl
      · exact ⟨_, rfl, alike_ints ns⟩
      · exact ⟨_, rfl, (Value.Plain.text word).alike_self⟩
  | some hperm =>
      refine Value.alike_object rfl fun f hf => ?_
      simp only [List.cons_append, List.nil_append, List.mem_cons, List.not_mem_nil, or_false] at hf
      rcases hf with rfl | rfl | rfl
      · exact ⟨_, rfl, alike_ints ns⟩
      · exact ⟨_, rfl, (Value.Plain.text word).alike_self⟩
      · exact ⟨_, rfl, StoreAnswers.Regular.alike (hregular _ rfl) hperm⟩

/-- Verdicts that say the same are alike, and so are their forms for the caller's service. -/
theorem Same.alike {v w : Verdict} (h : v.Same w) (hw : w.Regular) (hid : w.ruleId.Plain) :
    v.alike w = true ∧ v.payload.alike w.payload = true := by
  have hstores := h.alike_stores hw
  obtain ⟨answers, rfl, -⟩ := h
  obtain ⟨names, hnames⟩ := hw.required
  have hrequired : (Value.list w.required).alike (.list w.required) = true := by
    rw [hnames]
    exact (Value.plain_texts names).alike_self
  have hbool : (Value.bool w.authorized).alike (.bool w.authorized) = true :=
    (Value.Plain.bool _).alike_self
  have htext : (Value.text w.grantedBy).alike (.text w.grantedBy) = true :=
    (Value.Plain.text _).alike_self
  constructor
  · refine Value.alike_object rfl fun f hf => ?_
    simp only [payloadFields, List.cons_append, List.nil_append, List.mem_cons, List.not_mem_nil,
      or_false] at hf
    rcases hf with rfl | rfl | rfl | rfl | rfl
    · exact ⟨_, rfl, hbool⟩
    · exact ⟨_, rfl, hrequired⟩
    · exact ⟨_, rfl, htext⟩
    · exact ⟨_, rfl, hstores⟩
    · exact ⟨_, rfl, hid.alike_self⟩
  · refine Value.alike_object rfl fun f hf => ?_
    simp only [payloadFields, List.mem_cons, List.not_mem_nil, or_false] at hf
    rcases hf with rfl | rfl | rfl | rfl
    · exact ⟨_, rfl, hbool⟩
    · exact ⟨_, rfl, hrequired⟩
    · exact ⟨_, rfl, htext⟩
    · exact ⟨_, rfl, hstores⟩

theorem Regular.read_json {v : Verdict} (h : v.Regular) (hids : ∀ id ∈ v.stores.ids, id.Plain)
    (hid : v.ruleId.Plain) :
    ∃ w v', Value.ofJson v.toValue.toSortedJson = .ok w ∧ read w = .ok v' ∧ v'.Same v := by
  have hplain := h.plain_sorted hids hid
  obtain ⟨v', hread, hsame⟩ := h.read_sorted hid.sorted_eq
  refine ⟨v.toValue.sorted, v', ?_, hread, hsame⟩
  rw [← Value.toSortedJson_sorted hplain]
  exact hplain.stable

end Verdict

/-! ### Evaluation -/

namespace Policy

section evaluate

variable {σ : Type} {source : PermissionSource (ExceptT Failure (StateM σ))} {wildcard : String}
  {rule : Rule}
  {caller : Caller} {stores : List ℤ} {s s' : σ}

theorem regular_answersFor {answers result : StoreAnswers} (hanswers : answers.Regular)
    (hshort : ∀ n ∈ stores, Text.Short n)
    (h : outcome (answersFor source wildcard rule caller answers (stores.map .int)) s =
      (.ok result, s')) :
    result.Regular := by
  induction stores generalizing answers s with
  | nil =>
      obtain ⟨heq, -⟩ := Prod.mk.inj h
      exact Except.ok.inj heq ▸ hanswers
  | cons n stores ih =>
      rw [List.map_cons, answersFor] at h
      obtain ⟨allowed, s₁, -, h⟩ := outcome_bind_eq_ok h
      exact ih (hanswers.set (hshort n List.mem_cons_self) allowed)
        (fun k hk => hshort k (List.mem_cons_of_mem n hk)) h

/-- A regular verdict on a rule, with no other stores than those of the request. -/
structure Speaks (rule : Rule) (stores : List ℤ) (v : Verdict) : Prop where
  regular : v.Regular
  ids : ∀ id ∈ v.stores.ids, ∃ n ∈ stores, id = .int n
  ruleId : v.ruleId = rule.id

theorem speaks_ofMode (authorized : Bool) (reason : Reason) (required : List String)
    (mode : String) :
    Speaks rule stores (verdict rule authorized reason required (.ofMode mode)) :=
  ⟨regular_unanswered _ _ _ _ ⟨[], rfl⟩ ⟨mode, rfl⟩ rfl, fun _ hid => absurd hid List.not_mem_nil,
   rfl⟩

theorem speaks_stores (authorized : Bool) (reason : Reason) (required : List String)
    (mode : String) :
    Speaks rule stores
      (verdict rule authorized reason required ⟨stores.map .int, .text mode, none⟩) :=
  ⟨regular_unanswered _ _ _ _ ⟨stores, rfl⟩ ⟨mode, rfl⟩ rfl,
    fun _ hid => (List.mem_map.mp hid).imp fun _ hn => ⟨hn.1, hn.2.symm⟩, rfl⟩

theorem speaks_permissionVerdict (held abilities : List String) (mode : String) :
    Speaks rule stores (permissionVerdict wildcard rule held abilities (.ofMode mode)) := by
  unfold permissionVerdict allowedVerdict
  split
  · exact speaks_ofMode _ _ _ _
  · split
    · exact speaks_ofMode _ _ _ _
    · exact speaks_ofMode _ _ _ _

theorem speaks_combined {answers : StoreAnswers} (h : answers.Regular) :
    Speaks rule stores (combined rule (stores.map .int) answers) := by
  have hverdict :
      ∀ authorized reason, Speaks rule stores (verdict rule authorized reason rule.required
      ⟨stores.map .int, .text Scope.perStore.label, some answers⟩) := by
    refine fun _ _ => ⟨regular_verdict _ _ _ _ ⟨stores, rfl⟩ ⟨_, rfl⟩ fun others heq => ?_,
      fun _ hid => ?_, rfl⟩
    · exact Option.some.inj heq ▸ h
    · exact (List.mem_map.mp hid).imp fun _ hn => ⟨hn.1, hn.2.symm⟩
  unfold combined
  split <;> split <;> exact hverdict _ _

theorem speaks_scopedVerdict (hshort : ∀ n ∈ stores, Text.Short n) {v : Verdict}
    (h : outcome (scopedVerdict source wildcard rule caller (stores.map .int)) s = (.ok v, s')) :
    Speaks rule stores v := by
  unfold scopedVerdict at h
  split at h
  · split at h
    · obtain rfl := Except.ok.inj (Prod.mk.inj h).1
      exact speaks_permissionVerdict _ _ _
    · obtain rfl := Except.ok.inj (Prod.mk.inj h).1
      exact speaks_ofMode _ _ _ _
  · obtain ⟨answers, s₁, hanswers, h⟩ := outcome_bind_eq_ok h
    obtain rfl := Except.ok.inj (Prod.mk.inj h).1
    exact speaks_combined (regular_answersFor ⟨[], rfl, .nil, by simp⟩ hshort hanswers)

theorem speaks_allStoresVerdict {v : Verdict}
    (h : outcome (allStoresVerdict source wildcard rule caller) s = (.ok v, s')) :
    Speaks rule stores v := by
  have hnext : ∀ (assigned : Bool) (s₁ : σ), outcome (if assigned then
      pure (permissionVerdict wildcard rule caller.permissions caller.abilities
        (.ofMode Scope.allStores.label))
      else pure (verdict rule false .denyAllStores rule.required (.ofMode Scope.allStores.label)) :
        ExceptT Failure (StateM σ) Verdict) s₁ = (.ok v, s') → Speaks rule stores v := by
    intro assigned s₁ hverdict
    cases assigned with
    | true =>
        obtain rfl := Except.ok.inj (Prod.mk.inj hverdict).1
        exact speaks_permissionVerdict _ _ _
    | false =>
        obtain rfl := Except.ok.inj (Prod.mk.inj hverdict).1
        exact speaks_ofMode _ _ _ _
  unfold allStoresVerdict at h
  split at h
  · obtain rfl := Except.ok.inj (Prod.mk.inj h).1
    exact speaks_ofMode _ _ _ _
  · dsimp only at h
    split at h
    · exact hnext false s h
    · obtain ⟨assigned, s₁, -, h⟩ := outcome_bind_eq_ok h
      exact hnext assigned s₁ h

/-- Whatever branch is taken, the verdict of a rule whose scope is a text is regular. -/
theorem speaks_evaluate {word : String} (hscope : rule.scope = .text word)
    (hshort : ∀ n ∈ stores, Text.Short n) {v : Verdict}
    (h : outcome (evaluate source wildcard rule caller (stores.map .int)) s = (.ok v, s')) :
    Speaks rule stores v := by
  unfold evaluate at h
  split at h
  · -- A role grants access at once.
    obtain ⟨mode, hmode⟩ := exists_modeLabel word
    rw [hscope, hmode] at h
    obtain rfl := Except.ok.inj (Prod.mk.inj h).1
    exact speaks_stores _ _ _ _
  · split at h
    · obtain rfl := Except.ok.inj (Prod.mk.inj h).1
      exact speaks_permissionVerdict _ _ _
    · exact speaks_scopedVerdict hshort h
    · exact speaks_allStoresVerdict h
    · obtain rfl := Except.ok.inj (Prod.mk.inj h).1
      exact speaks_stores _ _ _ _

/-- Every verdict that is returned for a rule whose scope is a text, whoever asks and whatever
stores are named, is what its stored form is read as.  Its JSON text with sorted fields gives it
back too, with the answers for the stores in some order, so that the two verdicts are alike and so
are their forms for the caller's service.  No text holds a numeral of more than `Text.digitLimit`
digits, so the numbers of the stores are short, and the rule's own number is a value of JSON. -/
theorem evaluate_readBack {word : String} (hscope : rule.scope = .text word)
    (hshort : ∀ n ∈ stores, Text.Short n) {v : Verdict}
    (h : outcome (evaluate source wildcard rule caller (stores.map .int)) s = (.ok v, s')) :
    Verdict.read v.toValue = .ok v ∧
      (rule.id.Plain → ∃ w v', Value.ofJson v.toValue.toSortedJson = .ok w ∧
        Verdict.read w = .ok v' ∧ v'.Same v ∧
        v'.alike v = true ∧ v'.payload.alike v.payload = true) := by
  have hspeaks := speaks_evaluate hscope hshort h
  refine ⟨Verdict.read_toValue hspeaks.regular, fun hid => ?_⟩
  have hruleId : v.ruleId.Plain := hspeaks.ruleId ▸ hid
  have hids : ∀ id ∈ v.stores.ids, id.Plain := by
    intro id hmem
    obtain ⟨n, hn, rfl⟩ := hspeaks.ids id hmem
    exact .int n (hshort n hn)
  obtain ⟨w, v', hw, hread, hsame⟩ := hspeaks.regular.read_json hids hruleId
  exact ⟨w, v', hw, hread, hsame, hsame.alike hspeaks.regular hruleId⟩

end evaluate

/-- A source that counts the questions, and grants at every second one. -/
def alternating : PermissionSource (ExceptT Failure (StateM ℕ)) where
  inStore _ _ := do
    let asked ← get
    modify (· + 1)
    return if asked % 2 = 0 then ["orders.read"] else []
  hasAllStores _ := pure false

/-- The verdict for stores one of which is named twice: its last answer counts. -/
def repeatedVerdict : Verdict where
  authorized := true
  grantedBy := "store-any"
  required := [.text "orders.read"]
  stores :=
    ⟨[10, 9, 10, -3].map .int, .text "scoped",
     some [(.int 10, true), (.int 9, false), (.int (-3), false)]⟩
  ruleId := .int 1

/-- The texts of the stores are in another order than the stores were met. -/
theorem evaluate_readBack_repeated :
    outcome (evaluate alternating "*" orderRule ⟨.int 7, [], [], []⟩ ([10, 9, 10, -3].map .int)) 0 =
        (.ok repeatedVerdict, 4) ∧
      Verdict.read repeatedVerdict.toValue = .ok repeatedVerdict ∧
      ∃ w v', Value.ofJson repeatedVerdict.toValue.toSortedJson = .ok w ∧ Verdict.read w = .ok v' ∧
        v'.Same repeatedVerdict ∧ v'.alike repeatedVerdict = true ∧
        v'.payload.alike repeatedVerdict.payload = true := by
  have hshort : ∀ n ∈ ([10, 9, 10, -3] : List ℤ), Text.Short n := by
    intro n hn
    have hfits : ∀ n ∈ ([10, 9, 10, -3] : List ℤ), Database.fits n = true := by decide
    exact Database.short_of_fits (hfits n hn)
  have hverdict :
      outcome (evaluate alternating "*" orderRule ⟨.int 7, [], [], []⟩ ([10, 9, 10, -3].map .int))
      0 =
      (.ok repeatedVerdict, 4) := rfl
  have hscope : orderRule.scope = .text "scoped" := rfl
  obtain ⟨hread, hjson⟩ := evaluate_readBack hscope hshort hverdict
  exact ⟨hverdict, hread, hjson (.int 1 (Database.short_of_fits (by decide)))⟩

end Policy
end AccessControl
