import AccessControl.Proofs.Session.Lookups
import Mathlib

/-! # Blocks that are given up

A block of turns works on a session of its own, and is saved or given up at its end.  When it is
given up, the tables become what they were, but the cache does not: what a lookup remembered of
changed rules stands under the version that the last change left behind, and answers the lookups of
later blocks (`find_after_givenUp`).  If no block is given up after it has looked at rules that it
has changed and not changed again, every lookup gives the active rules of the tables
(`findActive_blocks`). -/

namespace AccessControl
namespace Session

open Cache Database

variable {D : Topic → String → Prop} {shared : Bool} {left : ℕ} {s : Session} {m : View}
  {T : Tables → Prop}

/-! ### Blocks -/

/-- Turns that are saved at their end, or given up. -/
structure Block where
  turns : List Turn
  isSaved : Bool

/-- The session of the next block. -/
def afterBlock (s : Session) (block : Block) : Session :=
  let done := s.afterTurns block.turns
  (if block.isSaved then done.commit else done).reopen

/-- The session after some blocks. -/
def afterBlocks (s : Session) (blocks : List Block) : Session := blocks.foldl afterBlock s

/-- All turns of some blocks. -/
def turnsOf (blocks : List Block) : List Turn := blocks.flatMap Block.turns

/-- Whenever a block that is given up looks rules up, they are the saved ones, or it
changes the tables later. -/
def Careful : Session → List Block → Prop
  | _, [] => True
  | s, block :: blocks =>
      (block.isSaved = false → s.LooksAt s.saved block.turns) ∧ Careful (s.afterBlock block) blocks

/-! ### Later blocks -/

/-- A session whose tables are the saved ones, and whose cache shows their rules. -/
structure Opened (D : Topic → String → Prop) (shared : Bool) (left : ℕ) (s : Session) (m : View) :
    Prop where
  current : Current D shared left (· = s.tables) s m
  saved : s.tables = s.saved

theorem Current.reopen {t : Tables} (h : Current D shared left T s m)
    (hrest : t = { s.tables with rules := t.rules }) (hstocked : Stocked shared left t.rules) :
    Current D shared left T ({ s with tables := t, graphs := [] } : Session) m where
  coherent := { h.coherent.rules hrest with graphs := fun g hg => by cases hg }
  stocked := hstocked
  versions := h.versions
  entries := h.entries

theorem Current.commit (h : Current D shared left T s m) : Current D shared left T s.commit m where
  coherent := { h.coherent with }
  stocked := h.stocked
  versions := h.versions
  entries := h.entries

theorem Opened.save {block : Block}
    (h : Opened D shared (left + methods.length * block.turns.length) s m) (hD : Digests D)
    (hknown : ∀ topic text, LookedUp block.turns topic text → D topic text)
    (hsaved : block.isSaved = true) : ∃ m', Opened D shared left (s.afterBlock block) m' := by
  obtain ⟨-, m', h'⟩ := h.current.turns hD block.turns rfl hknown
  have hafter : s.afterBlock block = { (s.afterTurns block.turns).commit with
      tables := (s.afterTurns block.turns).tables, graphs := [] } := by
    unfold afterBlock
    rw [hsaved]
    rfl
  rw [hafter]
  refine ⟨m', (h'.commit.reopen rfl h'.stocked).weaken ?_, rfl⟩
  rintro u rfl
  exact stillShown_end (T := (· = s.tables)) rfl block.turns

theorem Opened.giveUp {block : Block}
    (h : Opened D shared (left + methods.length * block.turns.length) s m) (hD : Digests D)
    (hknown : ∀ topic text, LookedUp block.turns topic text → D topic text)
    (hsaved : block.isSaved = false) (hlooks : s.LooksAt s.saved block.turns) :
    ∃ m', Opened D shared left (s.afterBlock block) m' := by
  obtain ⟨honly, m', h'⟩ := h.current.turns hD block.turns rfl hknown
  have hafter :
      s.afterBlock block = { s.afterTurns block.turns with tables := s.saved, graphs := [] } := by
    unfold afterBlock
    rw [hsaved, ← honly.saved]
    rfl
  have hrest : s.saved = { (s.afterTurns block.turns).tables with rules := s.saved.rules } := by
    rw [honly.rest, h.saved]
  have hstocked : Stocked shared left s.saved.rules :=
    h.saved ▸ h.current.stocked.mono (Nat.le_add_right left _)
  rw [hafter]
  refine ⟨m', (h'.reopen hrest hstocked).weaken ?_, honly.saved.symm⟩
  rintro u rfl
  exact ⟨.inl h.saved.symm, hlooks⟩

theorem Opened.blocks (blocks : List Block)
    (h : Opened D shared (left + methods.length * (turnsOf blocks).length) s m) (hD : Digests D)
    (hknown : ∀ topic text, LookedUp (turnsOf blocks) topic text → D topic text)
    (hcareful : Careful s blocks) : ∃ m', Opened D shared left (s.afterBlocks blocks) m' := by
  induction blocks generalizing s m with
  | nil => exact ⟨m, h⟩
  | cons block blocks ih =>
      obtain ⟨hlook, hcareful⟩ := hcareful
      have hturns : turnsOf (block :: blocks) = block.turns ++ turnsOf blocks :=
        List.flatMap_cons ..
      have hfirst : ∀ topic text, LookedUp block.turns topic text → D topic text :=
        fun topic text h => hknown topic text (h.mono (hturns ▸ List.subset_append_left ..))
      have hrest : ∀ topic text, LookedUp (turnsOf blocks) topic text → D topic text :=
        fun topic text h => hknown topic text (h.mono (hturns ▸ List.subset_append_right ..))
      have hroom : left + methods.length * (turnsOf (block :: blocks)).length =
          (left + methods.length * (turnsOf blocks).length) + methods.length *
            block.turns.length := by
        rw [hturns, List.length_append]
        ring
      rw [hroom] at h
      obtain ⟨m₁, h₁⟩ : ∃ m₁, Opened D shared (left + methods.length * (turnsOf blocks).length)
        (s.afterBlock block) m₁ := by
        cases hsaved : block.isSaved with
        | true => exact h.save hD hfirst hsaved
        | false => exact h.giveUp hD hfirst hsaved (hlook hsaved)
      exact ih h₁ hrest hcareful

/-- If no block is given up after it has looked at rules that it has changed and not changed again,
every lookup gives the active rules of the tables: at the beginning of a block those that are saved,
and then those that the block itself has made of them. -/
theorem findActive_blocks (s : Session) (blocks : List Block) (turns : List Turn)
    (service method : String)
    (hs : s.Fresh shared (methods.length * (turnsOf blocks ++ turns).length))
    (hsaved : s.tables = s.saved)
    (hrules : Stocked shared (methods.length * (turnsOf blocks ++ turns).length) s.tables.rules)
    (hcareful : Careful s blocks)
    (hD : Digests (LookedUp (turnsOf blocks ++ turns ++ [.find service method]))) :
    (s.afterBlocks blocks).tables = (s.afterBlocks blocks).saved ∧
      let s' := (s.afterBlocks blocks).afterTurns turns
      ∃ rows rules, (outcome (findActive (.text service) (.text method) .null) s').1 = .ok rules ∧
        s'.tables.ListsActive (Text.lower (Text.strip service)) (RuleText.method method) rows ∧
        rows.mapM RuleRow.restored = .ok rules := by
  set D := LookedUp (turnsOf blocks ++ turns ++ [.find service method])
  have hroom : methods.length * (turnsOf blocks ++ turns).length =
      (0 + methods.length * turns.length) + methods.length * (turnsOf blocks).length := by
    rw [List.length_append]
    ring
  have hfresh :
      Opened D shared
      ((0 + methods.length * turns.length) + methods.length * (turnsOf blocks).length) s
      fun _ => none := hroom ▸ ⟨current_fresh hs hrules, hsaved⟩
  obtain ⟨m, h⟩ := hfresh.blocks blocks hD (fun topic text h => h.mono (by simp)) hcareful
  obtain ⟨-, m', h'⟩ := h.current.turns hD turns rfl fun topic text h => h.mono (by simp)
  have hend := stillShown_end (T := (· = (s.afterBlocks blocks).tables)) rfl turns
  exact ⟨h.saved, h'.lists hD hend service method ⟨rfl, service, method, by simp, rfl⟩⟩

/-- A rule is made and saved.  Then it is looked up, and one of higher priority is made, looked up,
removed and given up. -/
def madeAndRemoved : List Block :=
  [⟨[.rules (.create readOrders)], true⟩,
    ⟨[.find "shop" "GET", .rules (.create { readOrders with priority := some (some 5) }),
      .find "shop" "GET",
      .rules (.delete (.int 2))], false⟩]

theorem findActive_blocks_madeAndRemoved :
    (outcome (findActive (.text "shop") (.text "GET") .null)
      ((oneStore.afterBlocks madeAndRemoved).afterTurns
        [.advance 3])).1.toOption.map (·.map fun rule => rule.id.int?) = some [some 1] ∧
      (oneStore.afterBlocks madeAndRemoved).tables = (oneStore.afterBlocks madeAndRemoved).saved ∧
        let s' := (oneStore.afterBlocks madeAndRemoved).afterTurns [.advance 3]
        ∃ rows rules, (outcome (findActive (.text "shop") (.text "GET") .null) s').1 = .ok rules ∧
          s'.tables.ListsActive (Text.lower (Text.strip "shop")) (RuleText.method "GET") rows ∧
          rows.mapM RuleRow.restored = .ok rules := by
  have hfresh :
      oneStore.Fresh false (methods.length * (turnsOf madeAndRemoved ++ [Turn.advance 3]).length) :=
    fresh_memory (s := oneStore) rfl rfl List.nodup_nil List.nodup_nil _
  have hrules : Stocked false (methods.length * (turnsOf madeAndRemoved ++ [Turn.advance 3]).length)
      oneStore.tables.rules :=
    stocked_nil false _
  have hcareful : Careful oneStore madeAndRemoved := by
    refine ⟨fun hsaved => (by cases hsaved), fun _ first service method rest hturns => ?_, trivial⟩
    rcases first with _ | ⟨_, _ | ⟨_, _ | ⟨_, first⟩⟩⟩
    · exact .inl rfl
    · cases hturns
    · -- What the second lookup sees is removed.
      cases hturns
      exact .inr ⟨_, [], (List.append_nil _).symm, fun hsame =>
        absurd (congrArg (·.rules.length) hsame) (by decide +kernel)⟩
    · rcases first with _ | ⟨_, first⟩
      · cases hturns
      · simpa using congrArg List.length hturns
  have hD :
      Digests (LookedUp (turnsOf madeAndRemoved ++ [.advance 3] ++ [.find "shop" "GET"])) := by
    refine digests_of_one (lookupText "shop" "GET") fun service method hmem => ?_
    obtain ⟨rfl, rfl⟩ : service = "shop" ∧ method = "GET" := by
      simpa [turnsOf, madeAndRemoved] using hmem
    rfl
  refine ⟨?_,
    findActive_blocks oneStore madeAndRemoved [.advance 3] "shop" "GET" hfresh rfl hrules hcareful
    hD⟩
  decide +kernel

/-- A rule is made and looked up, and then given up. -/
def givenUp : Block := ⟨[.rules (.create readOrders), .find "shop" "GET"], false⟩

/-- The rule that was given up is found by the next block, though no rule is saved. -/
theorem find_after_givenUp :
    ((oneStore.afterBlock givenUp).saved.rules.map (·.id)) = [] ∧
      (outcome (findActive (.text "shop") (.text "GET") .null)
        (oneStore.afterBlock givenUp)).1.toOption.map
        (·.map fun rule => rule.id.int?) = some [some 1] := by
  decide +kernel

end Session
end AccessControl
