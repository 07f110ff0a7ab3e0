import AccessControl.Proofs.Policy.Grants
import AccessControl.Proofs.Value.Member
import Mathlib

/-! # What a restricted token may use

A token is restricted when it has abilities and the wildcard is not among them.  Of joint
permissions it may use only those among its abilities, so that nothing outside them counts.  Of
alternative permissions one has to be held and one has to be an ability, and these need not be the
same (`SatisfiesApart`).  The verdict on a restricted token is the one on the permissions among its
abilities unless the alternatives are met in this way (`permissionVerdictOf_narrowed`). -/

namespace AccessControl
namespace Policy

/-- The token may not use every permission: it has abilities, and the wildcard is not among them. -/
def Restricts (wildcard : String) (abilities : List String) : Prop :=
  abilities ≠ [] ∧ wildcard ∉ abilities

instance (wildcard : String) (abilities : List String) : Decidable (Restricts wildcard abilities) :=
  inferInstanceAs (Decidable (_ ∧ _))

/-- The permissions that are held and among the abilities. -/
def narrowed (held abilities : List String) : List String := held.filter abilities.contains

/-- One of the alternative permissions is held and one is an ability, but none is both. -/
structure SatisfiesApart (abilities held : List String) (rule : Rule) : Prop where
  holds : ∃ name ∈ rule.permissionsAny, name ∈ held
  allows : ∃ name ∈ rule.permissionsAny, name ∈ abilities
  apart : ∀ name ∈ rule.permissionsAny, name ∈ held → name ∉ abilities

variable {wildcard : String} {abilities held held' permissions : List String} {rule : Rule}
  {stores : StoreMeta}

theorem mem_narrowed {name : String} :
    name ∈ narrowed held abilities ↔ name ∈ held ∧ name ∈ abilities := by
  rw [narrowed, List.mem_filter, List.contains_iff_mem]

/-! ### What a restricted token allows -/

section restricted

variable (h : Restricts wildcard abilities)

include h

theorem Restricts.allowsSome_iff :
    AllowsSome wildcard abilities permissions ↔ ∃ name ∈ permissions, name ∈ abilities := by
  unfold AllowsSome
  rw [or_iff_right h.1, or_iff_right h.2]

theorem Restricts.allowsEach_iff :
    AllowsEach wildcard abilities permissions ↔ ∀ name ∈ permissions, name ∈ abilities := by
  unfold AllowsEach
  rw [or_iff_right h.1, or_iff_right h.2]

/-- Among what a restricted token may use, the alternatives are met when one of them is there. -/
theorem Restricts.satisfiesAny_narrowed :
    SatisfiesAny wildcard abilities (narrowed held abilities) rule ↔
      ∃ name ∈ rule.permissionsAny, name ∈ held ∧ name ∈ abilities := by
  unfold SatisfiesAny
  rw [h.allowsSome_iff]
  simp only [mem_narrowed]
  constructor
  · intro hmet
    exact hmet.1
  · intro hboth
    refine ⟨hboth, ?_⟩
    obtain ⟨name, hname, -, hability⟩ := hboth
    exact ⟨name, hname, hability⟩

/-- The alternatives are met by one that is held and an ability, or by two. -/
theorem Restricts.satisfiesAny_iff : SatisfiesAny wildcard abilities held rule ↔
    SatisfiesAny wildcard abilities (narrowed held abilities) rule ∨
      SatisfiesApart abilities held rule := by
  rw [h.satisfiesAny_narrowed]
  unfold SatisfiesAny
  rw [h.allowsSome_iff]
  constructor
  · rintro ⟨hholds, hallows⟩
    by_cases hboth : ∃ name ∈ rule.permissionsAny, name ∈ held ∧ name ∈ abilities
    · exact .inl hboth
    · refine .inr ⟨hholds, hallows, fun name hname hheld hability => ?_⟩
      exact hboth ⟨name, hname, hheld, hability⟩
  · rintro (⟨name, hname, hheld, hability⟩ | hapart)
    · exact ⟨⟨name, hname, hheld⟩, name, hname, hability⟩
    · exact ⟨hapart.holds, hapart.allows⟩

theorem Restricts.satisfiesAll_narrowed :
    SatisfiesAll wildcard abilities (narrowed held abilities) rule ↔
    SatisfiesAll wildcard abilities held rule := by
  unfold SatisfiesAll
  rw [h.allowsEach_iff]
  simp only [mem_narrowed]
  constructor
  · rintro ⟨hsome, hheld, hallows⟩
    exact ⟨hsome, fun name hname => (hheld name hname).1, hallows⟩
  · rintro ⟨hsome, hheld, hallows⟩
    exact ⟨hsome, fun name hname => ⟨hheld name hname, hallows name hname⟩, hallows⟩

end restricted

/-! ### Verdicts -/

theorem permissionVerdict_eq
    (hany : SatisfiesAny wildcard abilities held rule ↔ SatisfiesAny wildcard abilities held' rule)
    (hall : SatisfiesAll wildcard abilities held rule ↔
      SatisfiesAll wildcard abilities held' rule) :
    permissionVerdict wildcard rule held abilities stores =
      permissionVerdict wildcard rule held' abilities stores := by
  have hmeetsAny : meetsAny rule held (allowance wildcard abilities) =
      meetsAny rule held' (allowance wildcard abilities) := by
    rw [Bool.eq_iff_iff, meetsAny_iff, meetsAny_iff, hany]
  have hmeetsAll : meetsAll rule held (allowance wildcard abilities) =
      meetsAll rule held' (allowance wildcard abilities) := by
    rw [Bool.eq_iff_iff, meetsAll_iff, meetsAll_iff, hall]
  unfold permissionVerdict allowedVerdict
  rw [hmeetsAny, hmeetsAll]

/-- What is met without regard to a token is at least what is met with it. -/
theorem allowedVerdict_unmet {allowed : Option (List String)}
    (h : ¬(meetsAny rule held none || meetsAll rule held none) = true) :
    allowedVerdict rule held allowed stores = verdict rule false .deny rule.required stores := by
  rw [Bool.or_eq_true, not_or] at h
  obtain ⟨hany, hall⟩ := h
  have hany' : ¬meetsAny rule held allowed = true := by
    intro hmeets
    unfold meetsAny at hany hmeets
    rw [Bool.and_eq_true] at hany hmeets
    exact hany ⟨hmeets.1, rfl⟩
  have hall' : ¬meetsAll rule held allowed = true := by
    intro hmeets
    unfold meetsAll at hall hmeets
    rw [Bool.and_eq_true] at hall hmeets
    exact hall ⟨hmeets.1, rfl⟩
  rw [allowedVerdict, if_neg hany', if_neg hall']

/-- What a token with different names as its abilities allows. -/
theorem allowanceOf_texts (hnodup : abilities.Nodup) :
    allowanceOf (.text wildcard) (Value.texts abilities) =
      .ok ((allowance wildcard abilities).map (List.map .text)) := by
  unfold allowanceOf allowance
  rw [Value.members_texts hnodup]
  cases abilities with
  | nil => rfl
  | cons name names =>
      have hamong : (Value.text wildcard).isAmong ((name :: names).map .text) =
          (name :: names).contains wildcard :=
        Value.isAmong_texts wildcard (name :: names)
      change (Except.ok
        (if (Value.text wildcard).isAmong ((name :: names).map .text) then none else _) :
        Except Failure _) = _
      rw [hamong, List.isEmpty_cons, Bool.false_or, apply_ite (Option.map _)]
      rfl

/-- Lists of names as values are judged as these names. -/
theorem permissionVerdictOf_texts :
    permissionVerdictOf (.text wildcard) rule (Value.texts held) (Value.texts abilities) stores =
      .ok (permissionVerdict wildcard rule held abilities stores) := by
  have hverdict :
      permissionVerdict wildcard rule (Text.distinct held) (Text.distinct abilities) stores =
      permissionVerdict wildcard rule held abilities stores :=
    permissionVerdict_congr (mem_distinct held) (mem_distinct abilities)
  have hallowance : allowanceOf (.text wildcard) (.list ((Text.distinct abilities).map .text)) =
      _ :=
    allowanceOf_texts (nodup_distinct abilities)
  have hallowed :
      ((allowance wildcard (Text.distinct abilities)).map (List.map .text)).map Value.textsAmong =
      allowance wildcard (Text.distinct abilities) := by
    rw [Option.map_map]
    exact (Option.map_congr fun names _ => Value.textsAmong_texts names).trans Option.map_id'
  rw [← hverdict]
  unfold permissionVerdictOf permissionVerdict
  rw [Value.members_distinct, Value.members_distinct]
  change (if _ then _ else _) = _
  rw [Value.textsAmong_texts, hallowance]
  split
  · exact congrArg (fun allowed => Except.ok (allowedVerdict rule _ allowed stores)) hallowed
  · next hunmet =>
      rw [allowedVerdict_unmet hunmet]
      rfl

/-! ### Restricted tokens -/

/-- The verdict on a restricted token is the verdict on the permissions among its abilities, unless
the alternatives of the rule are met apart: then they grant access. -/
theorem permissionVerdictOf_narrowed (h : Restricts wildcard abilities) (rule : Rule)
    (held : List String) (stores : StoreMeta) :
    ∃ v w, permissionVerdictOf (.text wildcard) rule (Value.texts held) (Value.texts abilities)
      stores = .ok v ∧
      permissionVerdictOf (.text wildcard) rule (Value.texts (narrowed held abilities))
        (Value.texts abilities) stores =
        .ok w ∧
      (v.authorized = true ↔ w.authorized = true ∨ SatisfiesApart abilities held rule) ∧
      (¬SatisfiesApart abilities held rule → v = w) ∧
      (SatisfiesApart abilities held rule → v.grantedBy = Reason.permissionsAny.code) := by
  refine ⟨_, _, permissionVerdictOf_texts, permissionVerdictOf_texts, ?_, fun hnot => ?_,
    fun hapart => ?_⟩
  · rw [authorized_permissionVerdict, authorized_permissionVerdict]
    unfold Satisfies
    rw [h.satisfiesAny_iff, h.satisfiesAll_narrowed, or_right_comm]
  · apply permissionVerdict_eq
    · rw [h.satisfiesAny_iff, or_iff_left hnot]
    · exact h.satisfiesAll_narrowed.symm
  · have hmeets : meetsAny rule held (allowance wildcard abilities) = true :=
      meetsAny_iff.mpr (h.satisfiesAny_iff.mpr (.inr hapart))
    unfold permissionVerdict allowedVerdict
    rw [if_pos hmeets]
    rfl

/-- A rule for those who may see orders or remove them. -/
def eitherRule : Rule := { orderRule with permissionsAny := ["orders.view", "orders.delete"] }

/-- A token that may see orders uses what its bearer may see, whatever else the bearer may do. -/
theorem permissionVerdictOf_narrowed_viewer : Restricts "*" ["orders.view"] ∧
    ∃ v, permissionVerdictOf (.text "*") eitherRule (Value.texts ["orders.delete", "orders.view"])
        (Value.texts ["orders.view"]) (.ofMode "none") = .ok v ∧
      permissionVerdictOf (.text "*") eitherRule (Value.texts ["orders.view"])
        (Value.texts ["orders.view"])
        (.ofMode "none") = .ok v ∧ v.authorized = true := by
  have hrestricts : Restricts "*" ["orders.view"] := by decide
  have hnot : ¬SatisfiesApart ["orders.view"] ["orders.delete", "orders.view"] eitherRule := by
    intro hapart
    exact hapart.apart "orders.view" (by decide) (by decide) (by decide)
  obtain ⟨v, w, hv, hw, hauthorized, hsame, -⟩ :=
    permissionVerdictOf_narrowed hrestricts eitherRule ["orders.delete", "orders.view"]
      (.ofMode "none")
  obtain rfl := hsame hnot
  refine ⟨hrestricts, v, hv, hw, ?_⟩
  rw [permissionVerdictOf_texts] at hw
  obtain rfl := Except.ok.inj hw
  decide

/-- A token that may only see orders is let in by a bearer who may only remove them, and what is
both held and an ability, which is nothing, would not let it in. -/
theorem authorized_apart : Restricts "*" ["orders.view"] ∧
    ∃ v w, permissionVerdictOf (.text "*") eitherRule (Value.texts ["orders.delete"])
      (Value.texts ["orders.view"]) (.ofMode "none") = .ok v ∧
      permissionVerdictOf (.text "*") eitherRule
        (Value.texts (narrowed ["orders.delete"] ["orders.view"]))
        (Value.texts ["orders.view"]) (.ofMode "none") = .ok w ∧
      v.authorized = true ∧ w.authorized = false :=
  ⟨by decide, _, _, permissionVerdictOf_texts, permissionVerdictOf_texts, by decide, by decide⟩

end Policy
end AccessControl
