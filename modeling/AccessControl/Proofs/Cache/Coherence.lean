import AccessControl.Proofs.Cache.Keys
import AccessControl.Proofs.Cache.Operations
import AccessControl.Proofs.Session.Assignments
import Mathlib

/-! # What a cache tells about the tables

A view `Tells` about tables when its permissions under the present epoch of a store, and its
answers about all stores, are those of the tables.  A change of the hierarchy of a store makes
all permissions there old by a new epoch (`Tells.edges`), a change of the assignments of a user
in a store removes what depends on them (`Tells.assignments`), and what is kept through either
of them depends on neither. -/

namespace AccessControl
namespace Cache

open Database

variable {space : String} {m m' : View}

/-! ### Keys -/

/-- Is the key one of those of what is derived from the hierarchy and the assignments? -/
def Key.isDerived : Key → Bool
  | epoch _ => true
  | permissions _ _ _ => true
  | allStores _ => true
  | _ => false

theorem Key.text_eq_iff {k l : Key} (hk : k.isDerived = true) :
    l.text space = k.text space ↔ l = k := by
  refine ⟨fun h => Key.text_inj ?_ h, fun h => h ▸ rfl⟩
  cases k <;> first | exact absurd hk (by decide) | (cases l <;> trivial)

theorem View.set_text {k : Key} (hk : k.isDerived = true) (m : View) (v : Value) (t : Option ℤ)
    (l : Key) :
    m.set (k.text space) v t (l.text space) = if l = k then some (v, t) else m (l.text space) := by
  split
  · next h => rw [h, View.set_same]
  · next h => exact View.set_of_ne m (fun heq => h ((Key.text_eq_iff hk).mp heq)) v t

theorem View.without_text {ks : List Key} (hks : ∀ k ∈ ks, k.isDerived = true) (m : View)
    (l : Key) :
    m.without (ks.map (Key.text space)) (l.text space) = if l ∈ ks then none
      else m (l.text space) := by
  have hiff : l.text space ∈ ks.map (Key.text space) ↔ l ∈ ks := by
    rw [List.mem_map]
    constructor
    · rintro ⟨k, hk, heq⟩
      rwa [(Key.text_eq_iff (hks k hk)).mp heq.symm]
    · exact fun h => ⟨l, h, rfl⟩
  simp only [View.without, hiff]

/-- Two views show the same under all keys but those of what is derived. -/
def Unmoved (space : String) (m m' : View) : Prop :=
  ∀ k : Key, k.isDerived = false → m' (k.text space) = m (k.text space)

theorem Unmoved.refl (space : String) (m : View) : Unmoved space m m := fun _ _ => rfl

theorem Unmoved.trans {m₁ m₂ m₃ : View} (h : Unmoved space m₁ m₂) (h' : Unmoved space m₂ m₃) :
    Unmoved space m₁ m₃ :=
  fun k hk => (h' k hk).trans (h k hk)

/-- Under other keys than those of what is derived, the later view shows nothing new, and
all that never expires. -/
structure Fades (space : String) (m m' : View) : Prop where
  kept : ∀ (k : Key) v, k.isDerived = false → m (k.text space) = some (v, none) →
      m' (k.text space) = some (v, none)
  less : ∀ (k : Key) p, k.isDerived = false → m' (k.text space) = some p → m (k.text space) = some p

theorem Unmoved.fades (h : Unmoved space m m') : Fades space m m' where
  kept k _ hk hv := (h k hk).trans hv
  less k _ hk hp := (h k hk).symm.trans hp

theorem fades_fade (m : View) (now : ℤ) : Fades space m (m.fade now) where
  kept k v _ hv := by
    rw [View.fade, hv]
    rfl
  less k p _ hp := (Option.filter_eq_some_iff.mp hp).1

theorem unmoved_set {k : Key} (hk : k.isDerived = true) (m : View) (v : Value) (t : Option ℤ) :
    Unmoved space m (m.set (k.text space) v t) := by
  intro l hl
  rw [View.set_text hk, if_neg]
  rintro rfl
  exact absurd (hk.symm.trans hl) (by decide)

theorem unmoved_without {ks : List Key} (hks : ∀ k ∈ ks, k.isDerived = true) (m : View) :
    Unmoved space m (m.without (ks.map (Key.text space))) := by
  intro l hl
  rw [View.without_text hks, if_neg]
  exact fun hmem => absurd ((hks l hmem).symm.trans hl) (by decide)

/-- Two views show the same, but for some keys. -/
def Differ (P : Key → Prop) (space : String) (m m' : View) : Prop :=
  ∀ k, ¬P k → m' (k.text space) = m (k.text space)

theorem Differ.refl (P : Key → Prop) (space : String) (m : View) : Differ P space m m :=
  fun _ _ => rfl

theorem Differ.trans {P : Key → Prop} {m₁ m₂ m₃ : View} (h : Differ P space m₁ m₂)
    (h' : Differ P space m₂ m₃) :
    Differ P space m₁ m₃ := fun k hk => (h' k hk).trans (h k hk)

theorem Differ.unmoved {P : Key → Prop} (h : Differ P space m m')
    (hP : ∀ k, P k → k.isDerived = true) :
    Unmoved space m m' := fun k hk => h k fun hPk => absurd ((hP k hPk).symm.trans hk) (by decide)

theorem differ_set {P : Key → Prop} {k : Key} (hk : k.isDerived = true) (hP : P k) (m : View)
    (v : Value) (t : Option ℤ) :
    Differ P space m (m.set (k.text space) v t) := by
  intro l hl
  rw [View.set_text hk, if_neg]
  rintro rfl
  exact hl hP

/-- The key is that of the epoch of a store, or of permissions there. -/
def Key.OfStore (st : ℤ) : Key → Prop
  | epoch st' => st' = st
  | permissions _ st' _ => st' = st
  | _ => False

theorem Key.OfStore.derived {st : ℤ} {k : Key} (h : k.OfStore st) : k.isDerived = true := by
  cases k <;> first | rfl | exact absurd h id

theorem Key.OfStore.other {st other : ℤ} {k : Key} (h : k.OfStore st) (hne : st ≠ other) :
    ¬k.OfStore other := by
  cases k <;> first | exact fun h' => hne (h.symm.trans h') | exact absurd h id

theorem Differ.ofStore {st : ℤ} (h : Differ (Key.OfStore st) space m m') : Unmoved space m m' :=
  h.unmoved fun _ => Key.OfStore.derived

theorem Differ.ofAllStores {u : ℤ} (h : Differ (· = Key.allStores u) space m m') :
    Unmoved space m m' :=
  h.unmoved fun _ heq => heq ▸ rfl

/-! ### Truth -/

/-- What a view tells is true of the tables: counters never expire, permissions stand under an epoch
that was reached, those under the present one are the present ones, and the answers about all stores
are the present ones. -/
structure Tells (t : Tables) (depth : ℤ) (space : String) (low : ℤ → Prop) (m : View) : Prop where
  epochs : ∀ st p, m ((Key.epoch st).text space) = some p → ∃ n, p = (.int n, none) ∧ low n
  permissions : ∀ u st e p, m ((Key.permissions u st e).text space) = some p → (fits u ∧ fits st) ∧
    ∃ n, m ((Key.epoch st).text space) = some (.int n, none) ∧ e ≤ n ∧
      (e = n → p.1 = Value.texts (t.permissionsIn depth u st))
  allStores : ∀ u p, m ((Key.allStores u).text space) = some p →
    (fits u ∨ t.hasActiveStore = false) ∧ p.1 = .bool (t.coversStores u)

namespace Tells

variable {t t' : Tables} {depth : ℤ} {low low' : ℤ → Prop}

theorem empty (h : ∀ key, m key = none) : Tells t depth space low m where
  epochs st p hp := by simp [h] at hp
  permissions u st e p hp := by simp [h] at hp
  allStores u p hp := by simp [h] at hp

theorem mono (h : Tells t depth space low m) (hlow : ∀ n, low n → low' n) :
    Tells t depth space low' m where
  epochs st p hp := by
    obtain ⟨n, rfl, hn⟩ := h.epochs st p hp
    exact ⟨n, rfl, hlow n hn⟩
  permissions := h.permissions
  allStores := h.allStores

theorem congr (h : Tells t depth space low m)
    (hm : ∀ k : Key, k.isDerived = true → m' (k.text space) = m (k.text space)) :
    Tells t depth space low m' where
  epochs st p hp := by
    rw [hm (.epoch st) rfl] at hp
    exact h.epochs st p hp
  permissions u st e p hp := by
    rw [hm (.permissions u st e) rfl] at hp
    rw [hm (.epoch st) rfl]
    exact h.permissions u st e p hp
  allStores u p hp := by
    rw [hm (.allStores u) rfl] at hp
    exact h.allStores u p hp

theorem set_other (h : Tells t depth space low m) {k : Key} (hk : k.isDerived = false) (v : Value)
    (expiresAt : Option ℤ) : Tells t depth space low (m.set (k.text space) v expiresAt) := by
  refine h.congr fun l hl => View.set_of_ne m (fun heq => ?_) v expiresAt
  obtain rfl := (Key.text_eq_iff hl).mp heq.symm
  exact absurd (hl.symm.trans hk) (by decide)

/-- A counter may be read. -/
theorem epoch (h : Tells t depth space low m) {st n : ℤ}
    (hstands : m ((Key.epoch st).text space) = some (.int n, none) ∨
      m ((Key.epoch st).text space) = none)
    (hlow : low n) : Tells t depth space low (m.set ((Key.epoch st).text space) (.int n) none) := by
  refine ⟨fun st' p hp => ?_, fun u st' e p hp => ?_, fun u p hp => ?_⟩
  · rw [View.set_text rfl] at hp
    split at hp
    · exact ⟨n, (Option.some.inj hp).symm, hlow⟩
    · exact h.epochs st' p hp
  · rw [View.set_text rfl, if_neg (by simp)] at hp
    obtain ⟨hfits, k, hk, hrest⟩ := h.permissions u st' e p hp
    refine ⟨hfits, k, ?_, hrest⟩
    rw [View.set_text rfl]
    split
    · next heq =>
        obtain rfl : st' = st := by simpa using heq
        rcases hstands with hn | hnone
        · exact hn.symm.trans hk
        · rw [hnone] at hk
          cases hk
    · exact hk
  · rw [View.set_text rfl, if_neg (by simp)] at hp
    exact h.allStores u p hp

/-- The present permissions may be remembered under the present epoch. -/
theorem setPermissions (h : Tells t depth space low m) {u st n : ℤ} (hfits : fits u ∧ fits st)
    (hepoch : m ((Key.epoch st).text space) = some (.int n, none)) (expiresAt : Option ℤ) :
    Tells t depth space low
      (m.set ((Key.permissions u st n).text space) (Value.texts (t.permissionsIn depth u st))
        expiresAt) := by
  refine ⟨fun st' p hp => ?_, fun u' st' e p hp => ?_, fun u' p hp => ?_⟩
  · rw [View.set_text rfl, if_neg (by simp)] at hp
    exact h.epochs st' p hp
  · have hkept :
        ∀ v, m.set ((Key.permissions u st n).text space) v expiresAt ((Key.epoch st').text space) =
        m ((Key.epoch st').text space) := fun v => by rw [View.set_text rfl, if_neg (by simp)]
    rw [hkept]
    rw [View.set_text rfl] at hp
    split at hp
    · next heq =>
        obtain ⟨rfl, rfl, rfl⟩ : u' = u ∧ st' = st ∧ e = n := by simpa using heq
        exact ⟨hfits, e, hepoch, le_rfl, fun _ => by rw [← Option.some.inj hp]⟩
    · exact h.permissions u' st' e p hp
  · rw [View.set_text rfl, if_neg (by simp)] at hp
    exact h.allStores u' p hp

theorem setAllStores (h : Tells t depth space low m) {u : ℤ}
    (hfits : fits u ∨ t.hasActiveStore = false) (expiresAt : Option ℤ) :
    Tells t depth space low
      (m.set ((Key.allStores u).text space) (.bool (t.coversStores u)) expiresAt) := by
  refine ⟨fun st p hp => ?_, fun u' st e p hp => ?_, fun u' p hp => ?_⟩
  · rw [View.set_text rfl, if_neg (by simp)] at hp
    exact h.epochs st p hp
  · rw [View.set_text rfl, if_neg (by simp)] at hp
    rw [View.set_text rfl, if_neg (by simp)]
    exact h.permissions u' st e p hp
  · rw [View.set_text rfl] at hp
    split at hp
    · next heq =>
        obtain rfl : u' = u := by simpa using heq
        rw [← Option.some.inj hp]
        exact ⟨hfits, rfl⟩
    · exact h.allStores u' p hp

theorem fade (h : Tells t depth space low m) (now : ℤ) : Tells t depth space low (m.fade now) := by
  have hleft : ∀ key p, m.fade now key = some p → m key = some p := fun key p hp =>
    (Option.filter_eq_some_iff.mp hp).1
  refine ⟨fun st p hp => h.epochs st p (hleft _ p hp), fun u st e p hp => ?_,
    fun u p hp => h.allStores u p (hleft _ p hp)⟩
  obtain ⟨hfits, n, hn, hrest⟩ := h.permissions u st e p (hleft _ p hp)
  refine ⟨hfits, n, ?_, hrest⟩
  rw [View.fade, hn]
  rfl

/-- After a change of the hierarchy of a store, a new epoch makes the permissions there old. -/
theorem edges (h : Tells t depth space low m) {st n : ℤ} (hframe : Session.EdgeFrame st t t')
    (hepoch : m ((Key.epoch st).text space) = some (.int n, none) ∨
      m ((Key.epoch st).text space) = none)
    (hlow : ∀ k, low k → low' k) (hnext : low' (n + 1)) :
    Tells t' depth space low' (m.set ((Key.epoch st).text space) (.int (n + 1)) none) := by
  obtain ⟨hrest, -, hgraph⟩ := hframe
  refine ⟨fun st' p hp => ?_, fun u st' e p hp => ?_, fun u p hp => ?_⟩
  · rw [View.set_text rfl] at hp
    split at hp
    · exact ⟨n + 1, (Option.some.inj hp).symm, hnext⟩
    · obtain ⟨k, rfl, hk⟩ := h.epochs st' p hp
      exact ⟨k, rfl, hlow k hk⟩
  · rw [View.set_text rfl, if_neg (by simp)] at hp
    obtain ⟨hfits, k, hk, hle, htrue⟩ := h.permissions u st' e p hp
    by_cases hst : st' = st
    · subst hst
      obtain rfl : k = n := by
        rcases hepoch with hn | hnone
        · simpa [hk] using hn
        · rw [hnone] at hk
          cases hk
      exact ⟨hfits, k + 1, by rw [View.set_text rfl, if_pos rfl], by omega, fun heq => by omega⟩
    · refine ⟨hfits,
        k, by rw [View.set_text rfl, if_neg (by simpa using hst), hk], hle, fun heq => ?_⟩
      rw [htrue heq, Tables.permissionsIn_congr ?_ (hgraph st' hst)]
      all_goals rw [hrest]
      rfl
  · rw [View.set_text rfl, if_neg (by simp)] at hp
    rw [hrest]
    exact h.allStores u p hp

/-- After a change of the assignments of a user in a store, what depends on them is removed. -/
theorem assignments (h : Tells t depth space low m) {user st n : ℤ}
    (hframe : Session.AssignmentFrame user st t t')
    (hepoch : m ((Key.epoch st).text space) = some (.int n, none)) :
    Tells t' depth space low
      (m.without ([Key.permissions user st n, Key.allStores user].map (Key.text space))) := by
  obtain ⟨hrest, -, hroles, hcovers⟩ := hframe
  have hderived : ∀ k ∈ [Key.permissions user st n, Key.allStores user], k.isDerived = true := by
    simp [Key.isDerived]
  refine ⟨fun st' p hp => ?_, fun u st' e p hp => ?_, fun u p hp => ?_⟩
  · rw [View.without_text hderived, if_neg (by simp)] at hp
    exact h.epochs st' p hp
  · rw [View.without_text hderived] at hp
    rw [View.without_text hderived, if_neg (by simp)]
    split at hp
    · cases hp
    · next hne =>
        obtain ⟨hfits, k, hk, hle, htrue⟩ := h.permissions u st' e p hp
        refine ⟨hfits, k, hk, hle, fun heq => ?_⟩
        have hother : u ≠ user ∨ st' ≠ st := by
          by_contra hboth
          obtain ⟨rfl, rfl⟩ : u = user ∧ st' = st := by simpa [not_or] using hboth
          obtain rfl : k = n := by simpa [hk] using hepoch
          simp [heq] at hne
        rw [htrue heq, Tables.permissionsIn_congr (hroles u st' hother)]
        all_goals rw [hrest]
        rfl
  · rw [View.without_text hderived] at hp
    split at hp
    · cases hp
    · next hne =>
        have hu : u ≠ user := fun heq => hne (by simp [heq])
        obtain ⟨hfits, htrue⟩ := h.allStores u p hp
        refine ⟨hfits.imp_right fun hnone => ?_, ?_⟩
        · rw [hrest]
          exact hnone
        · rw [htrue, hcovers u hu]

end Tells
end Cache
end AccessControl
