import ClassChart.Json.Basic
import Mathlib.Data.List.Nodup

/-!
# Fields of objects

Setting a field keeps its place or puts it last, and changes the value of that field only. An object
updated with the fields of another has the names of the first, then the new names of the second, and
the values of the second where it has any.

## Main definitions

* `Object.names`: the names of the fields in their order
* `Object.IsUpdate`: one object is another updated with a third
* `lastValue?`: the value that a sequence of updates sets last

## Main results

* `isUpdate_merge`: merging is updating
* `find?_foldl_merge`: the fields after a sequence of updates
* `ofFields_of_nodup`: fields with different names are an object
-/

namespace ClassChart.Object

/-- The names of the fields in their order. -/
def names (o : Object) : List RawText :=
  o.map Prod.fst

/-- The object `new` is `old` with its fields set to those of `updates`: a name that was there keeps
its place, and new ones are appended in their order. -/
structure IsUpdate (old updates new : Object) : Prop where
  names_eq : new.names = old.names ++ updates.names.filter (· ∉ old.names)
  find?_eq : ∀ name, new.find? name = (updates.find? name).or (old.find? name)

/-! ## Setting a field -/

theorem names_cons (field : RawText × Json) (o : Object) :
    names (field :: o) = field.1 :: o.names := rfl

theorem names_set (name : RawText) (value : Json) (o : Object) :
    (set name value o).names = if name ∈ o.names then o.names else o.names ++ [name] := by
  induction o with
  | nil => rfl
  | cons field rest ih =>
    by_cases h : field.1 = name
    · rw [set, if_pos h, names_cons, names_cons, h, if_pos List.mem_cons_self]
    · have hmem : name ∈ field.1 :: names rest ↔ name ∈ names rest := by
        rw [List.mem_cons, or_iff_right (Ne.symm h)]
      rw [set, if_neg h, names_cons, names_cons, ih]
      split
      · rename_i hname
        rw [if_pos (hmem.mpr hname)]
      · rename_i hname
        rw [if_neg (mt hmem.mp hname), List.cons_append]

theorem find?_cons (field : RawText × Json) (o : Object) (name : RawText) :
    find? (field :: o) name = if name = field.1 then some field.2 else o.find? name := by
  rw [find?, find?, List.lookup_cons]
  by_cases h : name = field.1
  · simp [h]
  · rw [if_neg h, beq_eq_false_iff_ne.mpr h]

theorem find?_set (name : RawText) (value : Json) (o : Object) (key : RawText) :
    (set name value o).find? key = if key = name then some value else o.find? key := by
  induction o with
  | nil => rw [set, find?_cons]
  | cons field rest ih =>
    by_cases h : field.1 = name
    · rw [set, if_pos h, find?_cons, find?_cons, h]
      split <;> rfl
    · rw [set, if_neg h, find?_cons, find?_cons, ih]
      by_cases hkey : key = field.1
      · rw [if_pos hkey, if_pos hkey, if_neg (hkey ▸ h)]
      · rw [if_neg hkey, if_neg hkey]

theorem mem_set {name : RawText} {value : Json} {o : Object} {field : RawText × Json}
    (h : field ∈ set name value o) : field = (name, value) ∨ field ∈ o := by
  induction o with
  | nil => exact .inl (List.mem_singleton.mp h)
  | cons first rest ih =>
    rw [set] at h
    split at h
    · exact (List.mem_cons.mp h).imp_right (List.mem_cons_of_mem _)
    · rcases List.mem_cons.mp h with h | h
      · exact .inr (h ▸ List.mem_cons_self)
      · exact (ih h).imp_right (List.mem_cons_of_mem _)

theorem set_of_notMem {name : RawText} {o : Object} (h : name ∉ o.names) (value : Json) :
    set name value o = o ++ [(name, value)] := by
  induction o with
  | nil => rfl
  | cons field rest ih =>
    obtain ⟨hfield, hrest⟩ := not_or.mp (mt List.mem_cons.mpr h)
    rw [set, if_neg (Ne.symm hfield), ih hrest, List.cons_append]

/-! ## Merging objects -/

theorem merge_cons (o : Object) (field : RawText × Json) (updates : Object) :
    o.merge (field :: updates) = (set field.1 field.2 o).merge updates := rfl

theorem names_merge (o : Object) {updates : Object} (h : updates.names.Nodup) :
    (o.merge updates).names = o.names ++ updates.names.filter (· ∉ o.names) := by
  induction updates generalizing o with
  | nil => simp [merge, names]
  | cons field updates ih =>
    obtain ⟨hfield, hnodup⟩ := List.nodup_cons.mp h
    -- no later update has the name of this one, so that it does not matter to them
    have hrest (known : List RawText) :
        (names updates).filter (· ∉ known ++ [field.1]) = (names updates).filter (· ∉ known) := by
      apply List.filter_congr
      intro name hname
      have hne : name ≠ field.1 := fun heq => hfield (heq ▸ hname)
      simp [hne]
    rw [merge_cons, ih _ hnodup, names_set]
    rw [names_cons]
    split
    · rename_i hmem
      rw [List.filter_cons_of_neg (by simpa using hmem)]
    · rename_i hmem
      rw [List.filter_cons_of_pos (by simpa using hmem), hrest, List.append_assoc,
        List.singleton_append]

theorem find?_eq_none_iff {o : Object} {name : RawText} : o.find? name = none ↔ name ∉ o.names := by
  induction o with
  | nil => simp [find?, names]
  | cons field rest ih =>
    rw [find?_cons, names_cons, List.mem_cons, not_or]
    split
    · rename_i h
      simp [h]
    · rename_i h
      rw [ih]
      exact (and_iff_right h).symm

theorem find?_merge (o : Object) {updates : Object} (h : updates.names.Nodup) (name : RawText) :
    (o.merge updates).find? name = (updates.find? name).or (o.find? name) := by
  induction updates generalizing o with
  | nil => rfl
  | cons field updates ih =>
    obtain ⟨hfield, hnodup⟩ := List.nodup_cons.mp h
    rw [merge_cons, ih _ hnodup, find?_set, find?_cons]
    split
    · rename_i heq
      rw [heq, find?_eq_none_iff.mpr hfield]
      rfl
    · rfl

/-- **Merging is updating.** -/
theorem isUpdate_merge (o : Object) {updates : Object} (h : updates.names.Nodup) :
    IsUpdate o updates (o.merge updates) :=
  ⟨names_merge o h, find?_merge o h⟩

theorem nodup_merge {o : Object} (h : o.names.Nodup) (updates : Object) :
    (o.merge updates).names.Nodup := by
  induction updates generalizing o with
  | nil => exact h
  | cons field updates ih =>
    rw [merge_cons]
    apply ih
    rw [names_set]
    split
    · exact h
    · rename_i hmem
      rw [List.nodup_append]
      refine ⟨h, List.nodup_singleton _, ?_⟩
      rintro a ha b hb rfl
      exact hmem (List.mem_singleton.mp hb ▸ ha)

/-- What holds of all fields of two objects holds of all fields of the merged one. -/
theorem forall_mem_merge {P : RawText × Json → Prop} {o updates : Object} (ho : ∀ field ∈ o, P field)
    (hupdates : ∀ field ∈ updates, P field) : ∀ field ∈ o.merge updates, P field := by
  induction updates generalizing o with
  | nil => exact ho
  | cons first updates ih =>
    obtain ⟨hfirst, hupdates⟩ := List.forall_mem_cons.mp hupdates
    rw [merge_cons]
    apply ih _ hupdates
    intro field hfield
    rcases mem_set hfield with rfl | hfield
    · exact hfirst
    · exact ho field hfield

theorem merge_of_nodup {o updates : Object} (h : names (o ++ updates) |>.Nodup) :
    o.merge updates = o ++ updates := by
  induction updates generalizing o with
  | nil => exact (List.append_nil o).symm
  | cons field updates ih =>
    have hnotMem : field.1 ∉ o.names := by
      rw [names, List.map_append, List.map_cons, List.nodup_append] at h
      exact fun hmem => h.2.2 _ hmem _ List.mem_cons_self rfl
    rw [merge_cons, set_of_notMem hnotMem, ih]
    · rw [List.append_assoc, List.singleton_append]
    · rwa [List.append_assoc, List.singleton_append]

/-- Fields with different names are an object. -/
theorem ofFields_of_nodup {fields : Object} (h : fields.names.Nodup) : ofFields fields = fields :=
  merge_of_nodup h

/-! ## Sequences of updates -/

/-- The value that a sequence of updates sets a field to last. -/
def lastValue? (name : RawText) (updates : List Object) : Option Json :=
  updates.reverse.findSome? (·.find? name)

theorem find?_foldl_merge (o : Object) {updates : List Object}
    (h : ∀ u ∈ updates, u.names.Nodup) (name : RawText) :
    (updates.foldl merge o).find? name = (lastValue? name updates).or (o.find? name) := by
  induction updates generalizing o with
  | nil => rfl
  | cons u updates ih =>
    obtain ⟨hu, hupdates⟩ := List.forall_mem_cons.mp h
    rw [List.foldl_cons, ih _ hupdates, find?_merge o hu, lastValue?, lastValue?,
      List.reverse_cons, List.findSome?_append, Option.or_assoc]
    congr 2
    simp

end ClassChart.Object
