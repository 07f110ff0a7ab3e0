import AccessControl.Proofs.Cache.Keys
import AccessControl.Proofs.Value.Json
import AccessControl.Proofs.Value.Member
import Mathlib

/-! # What is digested is told apart

Before they are digested, the facts of a decision are written as a JSON text with sorted names.
Numerals, strings and lists of these determine where they end, so the text determines the facts
(`Facts.text_eq_iff`), and that of a service and a method determines both (`rulesText_inj`). -/

namespace AccessControl
namespace Value

/-! ### Ends -/

/-- The text goes on with a comma, or closes a list or an object. -/
def Closes (cs : List Char) : Prop := ∃ c rest, cs = c :: rest ∧ (c = ',' ∨ c = ']' ∨ c = '\x7d')

theorem closes_comma (rest : List Char) : Closes (',' :: rest) := ⟨',', rest, rfl, .inl rfl⟩

theorem closes_bracket (rest : List Char) : Closes (']' :: rest) :=
  ⟨']', rest, rfl, .inr (.inl rfl)⟩

theorem closes_brace (rest : List Char) : Closes ('\x7d' :: rest) :=
  ⟨'\x7d', rest, rfl, .inr (.inr rfl)⟩

/-! ### Numbers and lists -/

/-- May the character stand in a numeral? -/
def inNumeral (c : Char) : Bool := c == '-' || Text.isAsciiDigit c

theorem inNumeral_of_mem {n : ℤ} {c : Char} (h : c ∈ jsonInt n) : inNumeral c = true := by
  have hmem : c ∈ (Text.intText n).toList := by rwa [intText_toList]
  rcases Text.mem_intText hmem with rfl | hdigit
  · rfl
  · simp [inNumeral, hdigit]

theorem jsonInt_append_inj {m n : ℤ} {a b : List Char} (ha : Closes a) (hb : Closes b)
    (h : jsonInt m ++ a = jsonInt n ++ b) : m = n ∧ a = b := by
  have htake : ∀ (k : ℤ) {cs : List Char}, Closes cs →
      (jsonInt k ++ cs).takeWhile inNumeral = jsonInt k := by
    rintro k _ ⟨c, cs, rfl, hc⟩
    have hstop : inNumeral c = false := by
      rcases hc with rfl | rfl | rfl <;> decide
    rw [List.takeWhile_append_of_pos fun c hc => inNumeral_of_mem hc,
      List.takeWhile_cons_of_neg (by simp [hstop]), List.append_nil]
  have hnumeral : jsonInt m = jsonInt n := by rw [← htake m ha, h, htake n hb]
  refine ⟨?_, ?_⟩
  · rw [← intText_toList, ← intText_toList] at hnumeral
    exact Text.intText_injective (String.toList_injective hnumeral)
  · rw [hnumeral] at h
    exact List.append_cancel_left h

/-- Values of a kind that determine where they end, and do not begin like the end of a list. -/
structure Delimited {α : Type} (f : α → Value) : Prop where
  inj : ∀ {x y : α} {a b : List Char}, Closes a → Closes b → json (f x) ++ a = json (f y) ++ b →
      x = y ∧ a = b
  head : ∀ x : α, ∃ c cs, json (f x) = c :: cs ∧ c ≠ ']'

theorem delimited_int : Delimited Value.int where
  inj ha hb h := jsonInt_append_inj ha hb h
  head n := by
    obtain ⟨c, cs, hcs, hc⟩ := jsonInt_eq_cons n
    refine ⟨c, cs, hcs, ?_⟩
    rintro rfl
    exact absurd hc (by decide)

theorem delimited_text : Delimited Value.text where
  inj _ _ h := jsonString_append_inj h
  head s := ⟨'"', _, rfl, by decide⟩

/-- What follows the first item of a list. -/
def afterItem (items : List Value) (rest : List Char) : List Char :=
  if items.isEmpty then ']' :: rest else ',' :: (jsonItems items ++ ']' :: rest)

theorem jsonItems_append (v : Value) (vs : List Value) (rest : List Char) :
    jsonItems (v :: vs) ++ ']' :: rest = json v ++ afterItem vs rest := by
  cases vs with
  | nil => rfl
  | cons w vs =>
      rw [jsonItems_cons_cons, List.append_assoc, List.cons_append, afterItem, List.isEmpty_cons,
        if_neg (by decide)]

theorem closes_afterItem (vs : List Value) (rest : List Char) : Closes (afterItem vs rest) := by
  unfold afterItem
  split
  · exact closes_bracket _
  · exact closes_comma _

variable {α : Type} {f : α → Value}

/-- A list determines its items and the place where it ends. -/
theorem Delimited.items_inj (hf : Delimited f) {xs ys : List α} {a b : List Char}
    (h : jsonItems (xs.map f) ++ ']' :: a = jsonItems (ys.map f) ++ ']' :: b) :
    xs = ys ∧ a = b := by
  have hhead : ∀ (x : α) (vs : List Value) (a b : List Char), ']' :: b ≠ jsonItems (f x :: vs) ++
      ']' :: a := by
    intro x vs a b heq
    obtain ⟨c, cs, hcs, hc⟩ := hf.head x
    rw [jsonItems_append, hcs, List.cons_append] at heq
    exact hc (List.cons.inj heq).1.symm
  induction xs generalizing ys with
  | nil =>
      cases ys with
      | nil => exact ⟨rfl, (List.cons.inj h).2⟩
      | cons y ys => exact absurd h (hhead y _ b a)
  | cons x xs ih =>
      cases ys with
      | nil => exact absurd h.symm (hhead x _ a b)
      | cons y ys =>
          rw [List.map_cons, List.map_cons, jsonItems_append, jsonItems_append] at h
          obtain ⟨rfl, hrest⟩ := hf.inj (closes_afterItem _ _) (closes_afterItem _ _) h
          cases xs with
          | nil =>
              cases ys with
              | nil => exact ⟨rfl, (List.cons.inj hrest).2⟩
              | cons z ys => exact absurd (List.cons.inj hrest).1 (by decide)
          | cons w xs =>
              cases ys with
              | nil => exact absurd (List.cons.inj hrest).1 (by decide)
              | cons z ys =>
                  obtain ⟨heq, hab⟩ := ih (List.cons.inj hrest).2
                  exact ⟨by rw [heq], hab⟩

theorem Delimited.list_inj (hf : Delimited f) {xs ys : List α} {a b : List Char}
    (h : json (.list (xs.map f)) ++ a = json (.list (ys.map f)) ++ b) : xs = ys ∧ a = b := by
  rw [json, json, List.cons_append, List.cons_append, List.append_assoc, List.append_assoc] at h
  exact hf.items_inj (List.cons.inj h).2

/-! ### Objects -/

/-- Two values that are told apart before a text that closes them. -/
def ToldApart (v w : Value) (P : Prop) : Prop :=
  ∀ {a b : List Char}, Closes a → Closes b → json v ++ a = json w ++ b → P ∧ a = b

theorem fields_inj {name : String} {v w : Value} {f g : String × Value} {fs gs : Fields}
    {a b : List Char} {P : Prop} (hvw : ToldApart v w P)
    (h : jsonFields ((name, v) :: f :: fs) ++ a = jsonFields ((name, w) :: g :: gs) ++ b) :
    P ∧ jsonFields (f :: fs) ++ a = jsonFields (g :: gs) ++ b := by
  rw [jsonFields_cons_cons, jsonFields_cons_cons, List.append_assoc, List.append_assoc,
    List.cons_append, List.cons_append, List.append_assoc, List.append_assoc] at h
  obtain ⟨hP, hrest⟩ :=
    hvw (closes_comma _) (closes_comma _) (List.cons.inj (List.append_cancel_left h)).2
  exact ⟨hP, (List.cons.inj hrest).2⟩

theorem sortedItems_map (hf : ∀ x, (f x).sorted = f x) (xs : List α) :
    sortedItems (xs.map f) = xs.map f := by
  induction xs with
  | nil => rfl
  | cons x xs ih => rw [List.map_cons, sortedItems, hf, ih]

end Value

namespace Cache

open Value

/-! ### Facts -/

/-- The text of a service and a method, before it is digested. -/
def rulesText (service method : String) : String :=
  (Value.list [.text service, .text method]).toSortedJson

/-- What a decision is about: a rule, a request, and a user with the stores and the names that
count. -/
structure Facts where
  rule : ℤ
  service : String
  method : String
  target : String
  user : ℤ
  stores : List ℤ
  abilities : List String
  roles : List String
  permissions : List String

namespace Facts

/-- The facts as they go into a key. -/
def given (f : Facts) : DecisionFacts :=
  .of (.int f.rule) f.service f.method f.target (.int f.user) f.stores f.abilities f.roles
    f.permissions

/-- The text of the facts, before it is digested. -/
def text (f : Facts) : String := f.given.toValue.toSortedJson

/-- The facts are the same, stores and names as sets. -/
structure Alike (f g : Facts) : Prop where
  rule : f.rule = g.rule
  service : f.service = g.service
  method : f.method = g.method
  target : f.target = g.target
  user : f.user = g.user
  stores : ∀ n, n ∈ f.stores ↔ n ∈ g.stores
  abilities : ∀ name, name ∈ f.abilities ↔ name ∈ g.abilities
  roles : ∀ name, name ∈ f.roles ↔ name ∈ g.roles
  permissions : ∀ name, name ∈ f.permissions ↔ name ∈ g.permissions

end Facts

theorem rulesText_inj {service service' method method' : String}
    (h : rulesText service method = rulesText service' method') :
    service = service' ∧ method = method' := by
  have hplain : ∀ a b : String, Plain (.list ([a, b].map .text)) := fun a b => plain_texts [a, b]
  have hread := (hplain service method).stable.read
  rw [show (Value.list ([service, method].map .text)).toSortedJson = rulesText service' method' from
    h] at hread
  have hsame := (hplain service' method').stable.read.symm.trans hread
  simpa [eq_comm] using hsame

namespace Facts

theorem sorted_given (f : Facts) : f.given.toValue.sorted =
    .object [("abilities", Value.texts (ascendingTexts f.abilities)), ("method", .text f.method),
      ("permissions", Value.texts (ascendingTexts f.permissions)),
        ("roles", Value.texts (ascendingTexts f.roles)),
      ("rule", .int f.rule), ("service", .text f.service),
        ("stores", Value.ints (ascendingInts f.stores)),
      ("target", .text f.target), ("user", .int f.user)] := by
  have htexts : ∀ names : List String, sortedItems (names.map .text) = names.map .text :=
    sortedItems_map fun _ => rfl
  have hints : ∀ ns : List ℤ, sortedItems (ns.map .int) = ns.map .int :=
    sortedItems_map fun _ => rfl
  simp +decide only [given, DecisionFacts.toValue, DecisionFacts.of, sorted, sortedFields,
    insertField, htexts, hints,
    if_true, if_false]
  rfl

variable {f g : Facts}

/-- What is digested determines the facts. -/
theorem alike_of_text (h : f.text = g.text) : f.Alike g := by
  have hint : ∀ m n : ℤ, ToldApart (.int m) (.int n) (m = n) :=
    fun _ _ _ _ ha hb => jsonInt_append_inj ha hb
  have htext : ∀ s t : String, ToldApart (.text s) (.text t) (s = t) :=
    fun _ _ _ _ _ _ => jsonString_append_inj
  have htexts : ∀ ss ts : List String, ToldApart (Value.texts ss) (Value.texts ts) (ss = ts) :=
    fun _ _ _ _ _ _ => delimited_text.list_inj
  have hints : ∀ ms ns : List ℤ, ToldApart (Value.ints ms) (Value.ints ns) (ms = ns) :=
    fun _ _ _ _ _ _ => delimited_int.list_inj
  have hnames : ∀ {names others : List String}, ascendingTexts names = ascendingTexts others →
      ∀ name, name ∈ names ↔ name ∈ others := by
    intro names others heq name
    rw [← mem_ascendingTexts, heq, mem_ascendingTexts]
  have hjson := congrArg String.toList h
  simp only [text, toSortedJson, toJson, String.toList_ofList, sorted_given] at hjson
  rw [json, json] at hjson
  -- The fields are compared one after the other, in the order of their names.
  obtain ⟨habilities, h₁⟩ := fields_inj (htexts _ _) (List.cons.inj hjson).2
  obtain ⟨hmethod, h₂⟩ := fields_inj (htext _ _) h₁
  obtain ⟨hpermissions, h₃⟩ := fields_inj (htexts _ _) h₂
  obtain ⟨hroles, h₄⟩ := fields_inj (htexts _ _) h₃
  obtain ⟨hrule, h₅⟩ := fields_inj (hint _ _) h₄
  obtain ⟨hservice, h₆⟩ := fields_inj (htext _ _) h₅
  obtain ⟨hstores, h₇⟩ := fields_inj (hints _ _) h₆
  obtain ⟨htarget, h₈⟩ := fields_inj (htext _ _) h₇
  rw [jsonFields, jsonFields, List.append_assoc, List.append_assoc] at h₈
  obtain ⟨huser, -⟩ :=
    hint _ _ (closes_brace _) (closes_brace _) (List.cons.inj (List.append_cancel_left h₈)).2
  refine ⟨hrule, hservice, hmethod, htarget, huser, fun n => ?_, hnames habilities, hnames hroles,
    hnames hpermissions⟩
  rw [← mem_ascendingInts, hstores, mem_ascendingInts]

theorem Alike.given_eq (h : f.Alike g) : f.given = g.given := by
  have hstores : ascendingInts f.stores = ascendingInts g.stores := ascending_congr h.stores
  have hnames : ∀ {names others : List String}, (∀ name, name ∈ names ↔ name ∈ others) →
      ascendingTexts names = ascendingTexts others := ascending_congr
  unfold given DecisionFacts.of
  rw [h.rule, h.service, h.method, h.target, h.user, hstores, hnames h.abilities, hnames h.roles,
    hnames h.permissions]

theorem text_eq_iff : f.text = g.text ↔ f.Alike g := by
  constructor
  · exact alike_of_text
  · intro h
    unfold text
    rw [h.given_eq]

end Facts
end Cache
end AccessControl
