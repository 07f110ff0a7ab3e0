import AccessControl.Proofs.Policy.Monotonicity
import Mathlib

/-! # What cleaning the names of a caller keeps

A caller keeps of a list of names what is left of each when it is trimmed, unless nothing is left
(`mem_cleanNames`).  A token without abilities is not restricted, so it matters whether anything is
kept of its abilities: while the wildcard is not among them, the token is restricted exactly when
one of them is not blank (`restricts_ofNames_iff`).  A token all of whose abilities are blank allows
everything, as one without abilities does. -/

namespace AccessControl

/-! ### Names -/

namespace Caller

variable {names : List String} {name : String}

theorem mem_cleanNames :
    name ∈ cleanNames names ↔ name ≠ "" ∧ ∃ written ∈ names, Text.strip written = name := by
  rw [cleanNames, mem_ascendingTexts, List.mem_filter, List.mem_map, bne_iff_ne, and_comm]

theorem cleanNames_eq_nil_iff :
    cleanNames names = [] ↔ ∀ written ∈ names, Text.strip written = "" := by
  rw [List.eq_nil_iff_forall_not_mem]
  constructor
  · intro h written hwritten
    by_contra hne
    exact h _ (mem_cleanNames.mpr ⟨hne, written, hwritten, rfl⟩)
  · rintro h name hname
    obtain ⟨hne, written, hwritten, rfl⟩ := mem_cleanNames.mp hname
    exact hne (h written hwritten)

theorem not_mem_cleanNames (h : ∀ written ∈ names, Text.strip written ≠ name) :
    name ∉ cleanNames names := by
  intro hname
  obtain ⟨-, written, hwritten, heq⟩ := mem_cleanNames.mp hname
  exact h written hwritten heq

theorem ofNames_of_blank {abilities : List String}
    (h : ∀ written ∈ abilities, Text.strip written = "") (user : Value)
    (roles permissions : List String) :
    ofNames user roles permissions abilities = ofNames user roles permissions [] := by
  rw [ofNames, ofNames, cleanNames_eq_nil_iff.mpr h]
  rfl

end Caller

namespace Policy

open Caller (cleanNames cleanNames_eq_nil_iff not_mem_cleanNames)

/-! ### Abilities -/

variable {wildcard : String} {abilities permissions : List String}

theorem coversAny_iff :
    coversAny wildcard abilities permissions = true ↔ AllowsSome wildcard abilities permissions :=
  allowsAny_iff

theorem coversAll_iff :
    coversAll wildcard abilities permissions = true ↔ AllowsEach wildcard abilities permissions :=
  allowsAll_iff

theorem Restricts.not_covers (h : Restricts wildcard abilities) {permission : String}
    (hnot : permission ∉ abilities) :
    coversAny wildcard abilities [permission] = false ∧
      coversAll wildcard abilities [permission] = false := by
  rw [← Bool.not_eq_true, ← Bool.not_eq_true, coversAny_iff, coversAll_iff, h.allowsSome_iff,
    h.allowsEach_iff]
  simpa using hnot

theorem covers_of_not_restricts (h : ¬Restricts wildcard abilities) (permissions : List String) :
    coversAny wildcard abilities permissions = true ∧
      coversAll wildcard abilities permissions = true := by
  rw [coversAny_iff, coversAll_iff]
  exact allows_of_not_restricts h

theorem restricts_cleanNames_iff {names : List String}
    (h : ∀ name ∈ names, Text.strip name ≠ wildcard) :
    Restricts wildcard (cleanNames names) ↔ ∃ name ∈ names, Text.strip name ≠ "" := by
  rw [Restricts, and_iff_left (not_mem_cleanNames h), ne_eq, cleanNames_eq_nil_iff]
  push Not
  rfl

/-- While the wildcard is not among the abilities, a caller is restricted when one of them is not
blank, and then permissions that are not among them are not allowed.  Blank abilities alone leave
the caller of a token without abilities, who is allowed everything. -/
theorem restricts_ofNames_iff {names : List String}
    (hwildcard : ∀ name ∈ names, Text.strip name ≠ wildcard) {permission : String}
    (hpermission : ∀ name ∈ names, Text.strip name ≠ permission) (user : Value)
    (roles permissions : List String) :
    let caller := Caller.ofNames user roles permissions names
    (Restricts wildcard caller.abilities ↔ ∃ name ∈ names, Text.strip name ≠ "") ∧
      (coversAny wildcard caller.abilities [permission] = false ∧
        coversAll wildcard caller.abilities [permission] = false ↔
        ∃ name ∈ names, Text.strip name ≠ "") ∧
      ((∀ name ∈ names, Text.strip name = "") → caller = Caller.ofNames user roles permissions [] ∧
        ∀ asked, coversAny wildcard caller.abilities asked = true ∧
          coversAll wildcard caller.abilities asked = true) := by
  intro caller
  have hiff : Restricts wildcard caller.abilities ↔ ∃ name ∈ names, Text.strip name ≠ "" :=
    restricts_cleanNames_iff hwildcard
  refine ⟨hiff, ⟨?_, ?_⟩, ?_⟩
  · intro hcovers
    by_contra hnone
    have hall := covers_of_not_restricts (hiff.not.mpr hnone) [permission]
    rw [hcovers.1] at hall
    exact Bool.false_ne_true hall.1
  · intro hname
    exact (hiff.mpr hname).not_covers (not_mem_cleanNames hpermission)
  · intro hblank
    refine ⟨Caller.ofNames_of_blank hblank user roles permissions,
      covers_of_not_restricts (hiff.not.mpr ?_)⟩
    rintro ⟨name, hname, hne⟩
    exact hne (hblank name hname)

/-- One ability among blank ones restricts the caller to it. -/
theorem restricts_ofNames_viewer :
    (∀ name ∈ [" orders.view ", "\t", ""], Text.strip name ≠ "*") ∧
      (∀ name ∈ [" orders.view ", "\t", ""], Text.strip name ≠ "orders.delete") ∧
      let caller := Caller.ofNames (.int 5) [] ["orders.delete"] [" orders.view ", "\t", ""]
      Restricts "*" caller.abilities ∧ coversAny "*" caller.abilities ["orders.delete"] = false ∧
        coversAll "*" caller.abilities ["orders.delete"] = false := by
  have hwildcard : ∀ name ∈ [" orders.view ", "\t", ""], Text.strip name ≠ "*" := by decide +kernel
  have hpermission : ∀ name ∈ [" orders.view ", "\t", ""], Text.strip name ≠ "orders.delete" := by
    decide +kernel
  have hname : ∃ name ∈ [" orders.view ", "\t", ""], Text.strip name ≠ "" := by decide +kernel
  obtain ⟨hrestricts, hcovers, -⟩ :=
    restricts_ofNames_iff hwildcard hpermission (.int 5) [] ["orders.delete"]
  exact ⟨hwildcard, hpermission, hrestricts.mpr hname, hcovers.mpr hname⟩

/-- A rule for those who may remove orders. -/
def removalRule : Rule := { orderRule with permissionsAny := ["orders.delete"] }

/-- A token whose one ability is a space removes orders as if it were not restricted, and the same
abilities as they are written would not allow it to. -/
theorem covers_of_blank :
    let caller := Caller.ofNames (.int 5) [] ["orders.delete"] [" "]
    (∀ name ∈ [" "], Text.strip name ≠ "*" ∧ Text.strip name ≠ "orders.delete") ∧
      coversAny "*" caller.abilities ["orders.delete"] = true ∧
        coversAll "*" caller.abilities ["orders.delete"] = true ∧
      (permissionVerdict "*" removalRule caller.permissions caller.abilities
        (.ofMode "none")).authorized = true ∧
      coversAny "*" [" "] ["orders.delete"] = false ∧
      (permissionVerdict "*" removalRule caller.permissions [" "] (.ofMode "none")).authorized =
        false := by
  decide +kernel

end Policy
end AccessControl
