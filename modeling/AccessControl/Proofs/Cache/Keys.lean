import AccessControl.Cache.Keys
import AccessControl.Proofs.Cache.View
import AccessControl.Proofs.Text.Numeral
import Mathlib

/-! # Keys are told apart

The keys that a cache uses are made of parts without colons, so different keys have different texts,
whatever the space of the cache is (`Key.text_inj`): counters, rules, permissions, decisions and the
answers about all stores never take each other's place, and neither do those of different users,
stores, epochs and versions. -/

namespace AccessControl
namespace Cache

/-- A key that the cache uses.  What goes into a digest is known by its digest. -/
inductive Key where
  | version
  | epoch (store : ℤ)
  | rules (version : ℤ) (digested : String)
  | decision (version : ℤ) (digested : String)
  | permissions (user store epoch : ℤ)
  | allStores (user : ℤ)
  deriving DecidableEq

namespace Key

/-- The parts of a key after the space of the cache. -/
def parts : Key → List String
  | version => ["ruleset", "version"]
  | epoch store => ["store", Text.intText store, "epoch"]
  | rules n digested => ["rules", "v" ++ Text.intText n, Digest.sha256Hex digested]
  | decision n digested => ["decision", "v" ++ Text.intText n, Digest.sha256Hex digested]
  | permissions user store e =>
      ["eff", Text.intText user, Text.intText store, "e" ++ Text.intText e]
  | allStores user => ["all-stores", Text.intText user]

/-- The text of a key. -/
def text (space : String) (k : Key) : String := keyOf space k.parts

/-! ### The keys of the cache -/

theorem text_version (space : String) : versionKey space = version.text space := rfl

theorem text_epoch (space : String) (store : ℤ) :
    epochKey space (.int store) = (epoch store).text space :=
  rfl

theorem text_permissions (space : String) (user store e : ℤ) :
    permissionsKey space (.int user) (.int store) e = (permissions user store e).text space := rfl

theorem text_allStores (space : String) (user : ℤ) :
    allStoresKey space (.int user) = (allStores user).text space :=
  rfl

theorem text_rules (space : String) (n : ℤ) (service method : Value) :
    rulesKey space (.int n) service method =
      (rules n (Value.list [service, method]).toSortedJson).text space := rfl

theorem text_decision (space : String) (n : ℤ) (facts : DecisionFacts) :
    decisionKey space (.int n) facts = (decision n facts.toValue.toSortedJson).text space := rfl

/-! ### Parts -/

theorem keyOf_inj {space : String} {ps qs : List String} (hps : ∀ p ∈ ps, ':' ∉ p.toList)
    (hqs : ∀ q ∈ qs, ':' ∉ q.toList) (hp : ps ≠ []) (hq : qs ≠ [])
    (h : keyOf space ps = keyOf space qs) : ps = qs := by
  rw [keyOf, keyOf, String.intercalate_cons_of_ne_nil hp, String.intercalate_cons_of_ne_nil hq] at h
  have hjoined : String.intercalate ":" ps = String.intercalate ":" qs := by
    have hl := congrArg String.toList h
    simp only [String.toList_append] at hl
    exact String.toList_injective (List.append_cancel_left hl)
  have hcut := String.toList_split_intercalate hps
  rw [show String.singleton ':' = ":" from rfl, hjoined, show ":" = String.singleton ':' from rfl,
    String.toList_split_intercalate hqs, if_neg hp, if_neg hq] at hcut
  exact hcut.symm

theorem colon_not_mem_intText (n : ℤ) : ':' ∉ (Text.intText n).toList := by
  intro h
  exact absurd (Text.mem_intText h) (by decide)

theorem colon_not_mem_hexDigits (width n : ℕ) : ':' ∉ Text.hexDigits width n := by
  induction width generalizing n with
  | zero => exact List.not_mem_nil
  | succ width ih =>
      rw [Text.hexDigits, List.mem_append, List.mem_singleton]
      rintro (h | h)
      · exact ih _ h
      · have hlt : n % 16 < 16 := Nat.mod_lt _ (by decide)
        generalize n % 16 = d at h hlt
        interval_cases d <;> exact absurd h (by decide)

theorem colon_not_mem_sha256Hex (s : String) : ':' ∉ (Digest.sha256Hex s).toList := by
  rw [Digest.sha256Hex, String.toList_ofList, List.mem_flatMap]
  rintro ⟨w, -, h⟩
  exact colon_not_mem_hexDigits 8 _ h

theorem colon_not_mem_marked (c : Char) (hc : ':' ≠ c) (n : ℤ) :
    ':' ∉ (String.singleton c ++ Text.intText n).toList := by
  rw [String.toList_append, List.mem_append]
  rintro (h | h)
  · exact hc (by simpa using h)
  · exact colon_not_mem_intText n h

theorem colon_not_mem_parts (k : Key) : ∀ p ∈ k.parts, ':' ∉ p.toList := by
  cases k with
  | version => simp [parts]
  | epoch store => simp [parts, colon_not_mem_intText]
  | rules n digested =>
      have hv := colon_not_mem_marked 'v' (by decide) n
      simp only [parts, List.forall_mem_cons]
      exact ⟨by decide, hv, colon_not_mem_sha256Hex digested, by simp⟩
  | decision n digested =>
      have hv := colon_not_mem_marked 'v' (by decide) n
      simp only [parts, List.forall_mem_cons]
      exact ⟨by decide, hv, colon_not_mem_sha256Hex digested, by simp⟩
  | permissions user store e =>
      have he := colon_not_mem_marked 'e' (by decide) e
      simp only [parts, List.forall_mem_cons]
      exact ⟨by decide, colon_not_mem_intText user, colon_not_mem_intText store, he, by simp⟩
  | allStores user => simp [parts, colon_not_mem_intText]

theorem parts_ne_nil (k : Key) : k.parts ≠ [] := by cases k <;> exact List.cons_ne_nil _ _

theorem parts_of_text {space : String} {k l : Key} (h : k.text space = l.text space) :
    k.parts = l.parts :=
  keyOf_inj (colon_not_mem_parts k) (colon_not_mem_parts l) (parts_ne_nil k) (parts_ne_nil l) h

/-- Two texts are digested alike. -/
def SameDigest (k l : Key) : Prop :=
  match k, l with
  | rules _ s, rules _ t => Digest.sha256Hex s = Digest.sha256Hex t → s = t
  | decision _ s, decision _ t => Digest.sha256Hex s = Digest.sha256Hex t → s = t
  | _, _ => True

theorem marked_inj {c : Char} {m n : ℤ}
    (h : String.singleton c ++ Text.intText m = String.singleton c ++ Text.intText n) : m = n := by
  have hl := congrArg String.toList h
  simp only [String.toList_append] at hl
  exact Text.intText_injective (String.toList_injective (List.append_cancel_left hl))

/-- Different keys have different texts, digests that are alike apart. -/
theorem text_inj {space : String} {k l : Key} (hdigest : SameDigest k l)
    (h : k.text space = l.text space) : k = l := by
  have hparts := parts_of_text h
  cases k <;> cases l <;> simp only [parts, List.cons.injEq, reduceCtorEq, String.reduceEq,
    and_true, true_and, false_and,
    and_false] at hparts
  case version.version => rfl
  case epoch.epoch => rw [Text.intText_injective hparts]
  case rules.rules => rw [marked_inj (c := 'v') hparts.1, hdigest hparts.2]
  case decision.decision => rw [marked_inj (c := 'v') hparts.1, hdigest hparts.2]
  case permissions.permissions =>
      rw [Text.intText_injective hparts.1, Text.intText_injective hparts.2.1,
        marked_inj (c := 'e') hparts.2.2]
  case allStores.allStores => rw [Text.intText_injective hparts]

end Key

theorem outcome_storeEpoch (st : ℤ) (c : Cache) :
    outcome (storeEpoch (.int st)) c = outcome (readCounter ((Key.epoch st).text c.space)) c := by
  rw [storeEpoch, outcome_bind, outcome_get, andThen_ok, Key.text_epoch]

end Cache
end AccessControl
