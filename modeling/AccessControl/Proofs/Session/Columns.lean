import AccessControl.Proofs.Rule.Columns
import AccessControl.Proofs.Session.Lookups
import Mathlib

/-! # Lookups among stored rules whose columns hold any value

The lookup gives the active rules as they are restored, or fails as this does, also when some are
not sound: what it needs of their columns lasts through every change (`upheld_typed`).  So it does
not fail when the active rules of the service are readable, whatever else their columns hold; one
that is not readable makes all lookups of its service fail (`findActive_columns`). -/

namespace AccessControl
namespace Session

open Cache Database

variable {shared : Bool}

/-- Whatever the columns for names and sources of the stored rules hold, and whatever was called and
looked up before: when the active rules of a service are readable, they are found, as their
snapshots say what they mean.  One that is not readable makes the lookup fail. -/
theorem findActive_columns (s : Session) (turns : List Turn) (service method : String)
    (hs : s.Fresh shared (methods.length * turns.length))
    (hrows : Typed shared (methods.length * turns.length) s.tables.rules)
    (hD : Digests (LookedUp (turns ++ [.find service method]))) :
    let s' := s.afterTurns turns
    let found := (outcome (findActive (.text service) (.text method) .null) s').1
    let rows := s'.tables.activeRules (Text.lower (Text.strip service)) (RuleText.method method)
    ((∀ row ∈ rows, row.Readable) → ∃ rules,
      found = .ok (rules.map fun r => { r with sources := r.sources.cleaned }) ∧
        List.Forall₂ (fun row r => row.snapshot = .ok r ∧ row.Described r) rows rules) ∧
    ((∃ row ∈ rows, ¬row.Readable) → ∃ e, found = .error e) := by
  intro s' found rows
  have hfresh :
      Showing (LookedUp (turns ++ [.find service method])) shared
      (0 + methods.length * turns.length)
      (· = s.tables) s fun _ => none := by
    rw [Nat.zero_add]
    exact showing_fresh hs
  rw [← Nat.zero_add (methods.length * turns.length)] at hrows
  obtain ⟨-, htyped, m, h⟩ := hfresh.turns (upheld_typed shared) hD turns hrows rfl
    fun topic text h => h.mono (List.subset_append_left turns _)
  obtain ⟨s'', m', hrun, -⟩ :=
    h.find hD (stillShown_end (T := (· = s.tables)) rfl turns) htyped service method
    ⟨rfl, service, method, by simp, rfl⟩
  have hfound : found = rows.mapM RuleRow.restored := congrArg Prod.fst hrun
  rw [hfound]
  refine ⟨RuleRow.mapM_restored_readable, ?_⟩
  rintro ⟨row, hrow, hunreadable⟩
  exact RuleRow.mapM_restored_unreadable hrow hunreadable

/-- A store with a stored rule. -/
def withRow (row : RuleRow) : Session :=
  { oneStore with tables := { oneStore.tables with rules := [row] } }

/-- Its sources name a bucket that there is not, three of its columns hold no lists, and one
holds more than names. -/
def oddRow : RuleRow :=
  { Rule.shopRow "store_id" with
    rolesAny := .bool false
    permissionsAny := .list [.text "orders.read", .text " ", .int 5, .list [.null]]
    permissionsAll := .int 0
    bypassRoles := .object []
    sources := .object [("header", .text "store_id")] }

/-- The rules of the shop are looked up before and after another one is made. -/
def anotherRule : List Turn :=
  [.find "shop" "GET", .rules (.create readOrders), .find "shop" "GET", .advance 3]

/-- The keys of the other rule are the standard ones. -/
theorem findActive_columns_oddRow :
    let s' := (withRow oddRow).afterTurns anotherRule
    let found := (outcome (findActive (.text "shop") (.text "GET") .null) s').1
    let rows := s'.tables.activeRules (Text.lower (Text.strip "shop")) (RuleText.method "GET")
    found.toOption.map (·.map fun r => (r.sources, r.rolesAny, r.permissionsAny)) =
        some [(Stores.Sources.none, [], ["orders.read", "5", "[None]"]),
          (Stores.Sources.standard, [], ["orders.read"])] ∧
      ∃ rules, found = .ok (rules.map fun r => { r with sources := r.sources.cleaned }) ∧
        List.Forall₂ (fun row r => row.snapshot = .ok r ∧ row.Described r) rows rules := by
  intro s' found rows
  have hfresh : (withRow oddRow).Fresh false (methods.length * anotherRule.length) :=
    fresh_memory (s := withRow oddRow) rfl rfl List.nodup_nil List.nodup_nil _
  have hone : ∀ row ∈ (withRow oddRow).tables.rules, row = oddRow :=
    fun row hrow => List.mem_singleton.mp hrow
  have hrows : Typed false (methods.length * anotherRule.length) (withRow oddRow).tables.rules :=
    ⟨fun row hrow => hone row hrow ▸ ⟨5, rfl, by decide⟩, fun row _ => room_memory _ row.id⟩
  have hD : Digests (LookedUp (anotherRule ++ [.find "shop" "GET"])) := by
    refine digests_of_one (lookupText "shop" "GET") fun service method hmem => ?_
    obtain ⟨rfl, rfl⟩ : service = "shop" ∧ method = "GET" := by simpa [anotherRule] using hmem
    rfl
  have hreadable : ∀ row ∈ rows, row.Readable := by
    have hsnapshots : (rows.all fun row => row.snapshot.isOk) = true := by decide +kernel
    intro row hrow
    have hsnapshot := List.all_eq_true.mp hsnapshots row hrow
    cases hr : row.snapshot with
    | ok r => exact RuleRow.snapshot_iff.mp ⟨r, hr⟩
    | error e => simp [hr, Except.isOk, Except.toBool] at hsnapshot
  exact ⟨by
    decide +kernel, (findActive_columns (withRow oddRow) anotherRule "shop" "GET" hfresh hrows hD).1
      hreadable⟩

/-- A list with the name of a bucket for sources, or a truth value for names, makes the lookup
fail.  A text for names grants its characters, and an object for the keys of a bucket is searched
for the names of its fields. -/
theorem findActive_unlisted :
    let found (row : RuleRow) :=
  (outcome (findActive (.text "shop") (.text "GET") .null) (withRow row)).1.toOption
    let row := Rule.shopRow "store_id"
    (found { row with sources := .list [.text "path"] }).isNone ∧
      (found { row with permissionsAny := .bool true }).isNone ∧
      (found { row with permissionsAny := .text "ab" }).map (·.map Rule.permissionsAny) =
        some [["a", "b"]] ∧
      (found { row with sources := .object [("path", .object [("id", .null)])] }).map
        (·.map Rule.sources) =
        some [⟨["id"], [], []⟩] := by
  refine ⟨?_, ?_, ?_, ?_⟩ <;> decide +kernel

end Session
end AccessControl
