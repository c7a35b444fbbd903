import Mathlib.Data.List.Perm.Basic

/-!
# Maps that are filled by `emplace`

A hash map as the list of its entries.  `emplace` adds an entry unless the key is there
already, so the first value of a key stays, and no key occurs twice.  What is found under a
key does then not depend on the order the entries are walked in (`lookup_perm`).
-/

namespace RoqWhitebit.General

variable {κ α β : Type*} [DecidableEq κ]

/-- `emplace` and `try_emplace`: a key that is there keeps its value. -/
def emplaceKey (l : List (κ × α)) (key : κ) (value : α) : List (κ × α) :=
  if (l.lookup key).isSome then l else l ++ [(key, value)]

theorem lookup_cons_ite (l : List (κ × α)) (key k : κ) (v : α) :
    ((k, v) :: l).lookup key = if key = k then some v else l.lookup key := by
  rw [List.lookup_cons]
  by_cases hKey : key = k
  · rw [if_pos hKey, beq_iff_eq.mpr hKey]
  · rw [if_neg hKey, beq_eq_false_iff_ne.mpr hKey]

theorem not_mem_keys_of_lookup {l : List (κ × α)} {key : κ} (h : ¬(l.lookup key).isSome) :
    key ∉ l.map Prod.fst := by
  intro hMem
  obtain ⟨p, hp, rfl⟩ := List.mem_map.mp hMem
  exact h (List.lookup_isSome_iff.mpr ⟨p, hp, beq_self_eq_true _⟩)

theorem lookup_emplaceKey (l : List (κ × α)) (k : κ) (value : α) (key : κ) :
    (emplaceKey l k value).lookup key =
      (l.lookup key).or (if key = k then some value else none) := by
  unfold emplaceKey
  by_cases hThere : (l.lookup k).isSome
  · rw [if_pos hThere]
    by_cases hKey : key = k
    · obtain ⟨other, hOther⟩ := Option.isSome_iff_exists.mp hThere
      rw [hKey, hOther, Option.some_or]
    · rw [if_neg hKey, Option.or_none]
  · rw [if_neg hThere, List.lookup_append, lookup_cons_ite, List.lookup_nil]

/-- No key occurs twice. -/
theorem nodup_keys_emplaceKey {l : List (κ × α)} (hKeys : (l.map Prod.fst).Nodup) (k : κ)
    (value : α) : ((emplaceKey l k value).map Prod.fst).Nodup := by
  unfold emplaceKey
  by_cases hThere : (l.lookup k).isSome
  · rw [if_pos hThere]
    exact hKeys
  · rw [if_neg hThere, List.map_append]
    refine List.nodup_append.mpr ⟨hKeys, List.pairwise_singleton _ _, ?_⟩
    intro key hKey key' hKey' hSame
    have hNew : key = k := hSame.trans (List.mem_singleton.mp hKey')
    exact not_mem_keys_of_lookup hThere (hNew ▸ hKey)

theorem mem_emplaceKey {l : List (κ × α)} {k : κ} {value : α} {p : κ × α}
    (h : p ∈ emplaceKey l k value) : p ∈ l ∨ p = (k, value) := by
  unfold emplaceKey at h
  split at h
  · exact Or.inl h
  · exact (List.mem_append.mp h).imp id List.mem_singleton.mp

theorem lookup_eq_some_iff_mem {l : List (κ × α)} (hKeys : (l.map Prod.fst).Nodup) {key : κ}
    {value : α} : l.lookup key = some value ↔ (key, value) ∈ l := by
  induction l with
  | nil => simp
  | cons head l ih =>
      obtain ⟨k, v⟩ := head
      rw [List.map_cons, List.nodup_cons] at hKeys
      rw [lookup_cons_ite, List.mem_cons, Prod.mk.injEq]
      by_cases hKey : key = k
      · have hNot : (key, value) ∉ l := by
          intro hMem
          have hThere : key ∈ l.map Prod.fst := List.mem_map_of_mem hMem
          exact hKeys.1 (hKey ▸ hThere)
        rw [if_pos hKey, Option.some.injEq]
        exact ⟨fun h => Or.inl ⟨hKey, h.symm⟩, fun h => (h.resolve_right hNot).2.symm⟩
      · rw [if_neg hKey, ih hKeys.2]
        exact ⟨Or.inr, fun h => h.resolve_left fun hBoth => hKey hBoth.1⟩

/-- The order of the entries does not matter to what is found. -/
theorem lookup_perm {l l' : List (κ × α)} (hKeys : (l.map Prod.fst).Nodup)
    (hPerm : l'.Perm l) (key : κ) : l'.lookup key = l.lookup key := by
  have hKeys' : (l'.map Prod.fst).Nodup := (hPerm.map Prod.fst).nodup_iff.mpr hKeys
  refine Option.ext fun value => ?_
  rw [lookup_eq_some_iff_mem hKeys', lookup_eq_some_iff_mem hKeys, hPerm.mem_iff]

/-- A map that is made of another one, entry by entry, in whatever order. -/
theorem lookup_foldl_emplaceKey (f : α → β) (order : List (κ × α)) (l : List (κ × β))
    (key : κ) :
    (order.foldl (fun made p => emplaceKey made p.1 (f p.2)) l).lookup key =
      (l.lookup key).or ((order.lookup key).map f) := by
  induction order generalizing l with
  | nil => exact Option.or_none.symm
  | cons p order ih =>
      rw [List.foldl_cons, ih, lookup_emplaceKey, Option.or_assoc, lookup_cons_ite]
      by_cases hKey : key = p.1
      · rw [if_pos hKey, if_pos hKey, Option.some_or, Option.map_some]
      · rw [if_neg hKey, if_neg hKey, Option.none_or]

end RoqWhitebit.General
