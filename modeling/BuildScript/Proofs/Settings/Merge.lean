import Mathlib.Data.List.Induction
import BuildScript.Settings
/-!
# Mappings laid over one another

A mapping holds one value for each key, and so does every mapping inside it. `Fields.Distinct` and
`Value.Proper` say so; whatever is put together field by field is of that form.

Laying one mapping over another is described by its look-ups and by its keys. Under a key of the
upper mapping stands the upper value, laid over the lower one if there is one; under any other key
the lower value stays. The keys are those of the lower mapping, then those that only the upper one
has, each in their order.

Results:
* `get?_put`, `keys_put`: what putting a field does to look-ups and keys.
* `distinct_ofPairs`: a mapping made from pairs holds one value for each key.
* `get?_merge`, `keys_merge`: the look-ups and the keys of a mapping laid over another.
-/
namespace BuildScript

namespace Key

theorem same_iff {a b : Key} : a.same b = true ↔ a.canonical = b.canonical := by simp [same]

theorem same_congr {a b : Key} (h : a.same b = true) (c : Key) : a.same c = b.same c := by
  rw [same, same, same_iff.1 h]

theorem same_comm (a b : Key) : a.same b = b.same a := by
  rw [Bool.eq_iff_iff, same_iff, same_iff, eq_comm]

/-- Only a text is the same key as a text. -/
theorem eq_of_same_text {key : Key} {name : Text} (h : key.same (.text name) = true) :
    key = .text name := by
  rw [same_iff] at h
  cases key with
  | null => cases h
  | bool b => cases b <;> cases h
  | int n => cases h
  | other s => cases h
  | text s => exact h

end Key

namespace Fields

variable {fields base upper : Fields} {key key' : Key} {value : Value}

def keys (fields : Fields) : List Key := fields.map (·.1)

/-- No two fields of a mapping have the same key. -/
def Distinct (fields : Fields) : Prop := fields.Pairwise fun a b => a.1.same b.1 = false

instance (fields : Fields) : Decidable fields.Distinct :=
  inferInstanceAs (Decidable (List.Pairwise _ _))

/-! ## Look-ups -/

theorem get?_cons (field : Key × Value) (fields : Fields) (key : Key) :
    get? (field :: fields) key = if field.1.same key then some field.2 else get? fields key := by
  rw [get?, List.find?_cons]
  cases field.1.same key <;> rfl

theorem get?_congr (h : key.same key' = true) (fields : Fields) :
    get? fields key = get? fields key' := by
  have hsame : (fun field : Key × Value => field.1.same key) = fun field => field.1.same key' := by
    funext field
    rw [Key.same_comm, Key.same_congr h, Key.same_comm]
  rw [get?, get?, hsame]

theorem get?_eq_none_iff : get? fields key = none ↔ ∀ field ∈ fields, field.1.same key = false := by
  simp [get?]

theorem exists_of_get?_isSome (h : (get? fields key).isSome = true) :
    ∃ field ∈ fields, field.1.same key = true := by
  rw [get?, Option.isSome_map, List.find?_isSome] at h
  exact h

theorem mem_of_get?_eq_some (h : get? fields key = some value) :
    ∃ field ∈ fields, field.2 = value := by
  obtain ⟨field, hfind, hvalue⟩ := Option.map_eq_some_iff.1 h
  exact ⟨field, List.mem_of_find?_eq_some hfind, hvalue⟩

/-! ## Putting a field -/

theorem get?_put (fields : Fields) (key : Key) (value : Value) (key' : Key) :
    get? (put fields key value) key' =
      if key.same key' then some value else get? fields key' := by
  induction fields with
  | nil => rw [put, get?_cons]
  | cons field fields ih =>
    obtain ⟨k, v⟩ := field
    rw [put]
    split
    · next hk =>
      rw [get?_cons, get?_cons, Key.same_congr hk key']
      split <;> rfl
    · next hk =>
      rw [get?_cons, get?_cons, ih]
      split
      · next hk' =>
        -- `k` is found, so the key that was put is another
        have hkey : ¬ key.same key' = true := fun h =>
          hk (by rw [Key.same_congr hk', Key.same_comm, h])
        rw [if_neg hkey]
      · rfl

/-- The key that is put comes last, unless it is there. -/
theorem keys_put (fields : Fields) (key : Key) (value : Value) :
    (put fields key value).keys =
      if (get? fields key).isSome then fields.keys else fields.keys ++ [key] := by
  induction fields with
  | nil => rfl
  | cons field fields ih =>
    obtain ⟨k, v⟩ := field
    rw [put, get?_cons]
    split
    · rfl
    · rw [keys, List.map_cons, ← keys, ih]
      split <;> rfl

theorem distinct_iff_keys :
    fields.Distinct ↔ fields.keys.Pairwise fun a b => a.same b = false := by
  rw [Distinct, keys, List.pairwise_map]

theorem distinct_put (h : fields.Distinct) (key : Key) (value : Value) :
    (put fields key value).Distinct := by
  rw [distinct_iff_keys] at h ⊢
  rw [keys_put]
  split
  · exact h
  · next hnew =>
    rw [Option.not_isSome_iff_eq_none, get?_eq_none_iff] at hnew
    refine List.pairwise_append.2 ⟨h, List.pairwise_singleton _ key, fun a ha b hb => ?_⟩
    obtain ⟨field, hfield, rfl⟩ := List.mem_map.1 ha
    rw [List.mem_singleton.1 hb]
    exact hnew field hfield

theorem value_of_mem_put {field : Key × Value} (h : field ∈ put fields key value) :
    field.2 = value ∨ field ∈ fields := by
  induction fields with
  | nil =>
    rw [put, List.mem_singleton] at h
    exact Or.inl (congrArg Prod.snd h)
  | cons first fields ih =>
    rw [put] at h
    split at h
    · rcases List.mem_cons.1 h with rfl | h
      · exact Or.inl rfl
      · exact Or.inr (List.mem_cons_of_mem _ h)
    · rcases List.mem_cons.1 h with rfl | h
      · exact Or.inr List.mem_cons_self
      · exact (ih h).imp_right (List.mem_cons_of_mem _)

theorem ofPairs_concat (pairs : List (Key × Value)) (pair : Key × Value) :
    ofPairs (pairs ++ [pair]) = put (ofPairs pairs) pair.1 pair.2 := by
  simp [ofPairs]

/-- A mapping made from pairs holds one value for each key. -/
theorem distinct_ofPairs (pairs : List (Key × Value)) : (ofPairs pairs).Distinct := by
  induction pairs using List.reverseRecOn with
  | nil => exact List.Pairwise.nil
  | append_singleton pairs pair ih =>
    rw [ofPairs_concat]
    exact distinct_put ih pair.1 pair.2

theorem value_of_mem_ofPairs {pairs : List (Key × Value)} {field : Key × Value}
    (h : field ∈ ofPairs pairs) : ∃ pair ∈ pairs, pair.2 = field.2 := by
  induction pairs using List.reverseRecOn with
  | nil => cases h
  | append_singleton pairs pair ih =>
    rw [ofPairs_concat] at h
    rcases value_of_mem_put h with hvalue | h
    · exact ⟨pair, List.mem_append_right pairs List.mem_cons_self, hvalue.symm⟩
    · obtain ⟨earlier, hmem, hvalue⟩ := ih h
      exact ⟨earlier, List.mem_append_left [pair] hmem, hvalue⟩

end Fields

/-- Every mapping in a value, at whatever depth, holds one value for each key. -/
inductive Value.Proper : Value → Prop
  | scalar {value : Value} (h : value.key?.isSome = true) : Proper value
  | list {items : List Value} (items_proper : ∀ item ∈ items, Proper item) : Proper (.list items)
  | mapping {fields : Fields} (distinct : fields.Distinct)
      (values_proper : ∀ field ∈ fields, Proper field.2) : Proper (.mapping fields)

theorem Value.Proper.distinct {fields : Fields} (h : (Value.mapping fields).Proper) :
    fields.Distinct := by
  cases h with
  | scalar h => cases h
  | mapping distinct => exact distinct

theorem Value.Proper.of_mem {fields : Fields} {field : Key × Value}
    (h : (Value.mapping fields).Proper) (hfield : field ∈ fields) : field.2.Proper := by
  cases h with
  | scalar h => cases h
  | mapping _ values_proper => exact values_proper field hfield

theorem Value.proper_ofPairs {pairs : List (Key × Value)} (h : ∀ pair ∈ pairs, pair.2.Proper) :
    (Value.mapping (Fields.ofPairs pairs)).Proper := by
  refine .mapping (Fields.distinct_ofPairs pairs) fun field hfield => ?_
  obtain ⟨pair, hpair, hvalue⟩ := Fields.value_of_mem_ofPairs hfield
  exact hvalue ▸ h pair hpair

/-! ## Laying one mapping over another -/

namespace Settings

variable {base upper : Fields} {lower value : Value}

theorem merge_cons (base : Fields) (field : Key × Value) (upper : Fields) :
    merge base (field :: upper) =
      merge (base.put field.1 (mergeValue (base.get? field.1) field.2)) upper := by
  rw [merge]

theorem mergeValue_of_not_mapping (h : lower.fields? = none) (value : Value) :
    mergeValue (some lower) value = value := by
  cases value with
  | mapping fields =>
    cases lower with
    | mapping base => cases h
    | _ => rfl
  | _ => rfl

/-- A mapping is laid over a mapping, and anything else replaces it. -/
theorem mergeValue_mapping (base : Fields) (value : Value) :
    mergeValue (some (.mapping base)) value =
      match value with
      | .mapping fields => .mapping (merge base fields)
      | value => value := by
  cases value <;> rfl

/-- Under a key of the upper mapping stands its value, laid over the lower one if there is one;
under any other key the lower value stays. -/
theorem get?_merge (h : upper.Distinct) (base : Fields) (key : Key) :
    (merge base upper).get? key =
      ((upper.get? key).map (mergeValue (base.get? key))).or (base.get? key) := by
  induction upper generalizing base with
  | nil =>
    rw [merge]
    rfl
  | cons field upper ih =>
    obtain ⟨hfirst, hrest⟩ := List.pairwise_cons.1 h
    rw [merge_cons, ih hrest, Fields.get?_put, Fields.get?_cons]
    by_cases hkey : field.1.same key = true
    · have hnone : Fields.get? upper key = none := by
        refine Fields.get?_eq_none_iff.2 fun other hother => ?_
        rw [Key.same_comm, ← Key.same_congr hkey]
        exact hfirst other hother
      rw [if_pos hkey, if_pos hkey, hnone, ← Fields.get?_congr hkey base]
      rfl
    · rw [if_neg hkey, if_neg hkey]

/-- The keys are those of the lower mapping and those that only the upper one has. -/
theorem keys_merge (h : upper.Distinct) (base : Fields) :
    (merge base upper).keys =
      base.keys ++ upper.keys.filter fun key => (base.get? key).isNone := by
  induction upper generalizing base with
  | nil =>
    rw [merge]
    exact (List.append_nil _).symm
  | cons field upper ih =>
    obtain ⟨hfirst, hrest⟩ := List.pairwise_cons.1 h
    -- putting the first key changes nothing about the keys behind it
    have hothers : ((Fields.keys upper).filter fun key =>
        ((base.put field.1 (mergeValue (base.get? field.1) field.2)).get? key).isNone) =
        (Fields.keys upper).filter fun key => (base.get? key).isNone := by
      refine List.filter_congr fun key hkey => ?_
      obtain ⟨other, hother, rfl⟩ := List.mem_map.1 hkey
      rw [Fields.get?_put, hfirst other hother]
      rfl
    rw [merge_cons, ih hrest, hothers, Fields.keys_put]
    show _ = base.keys ++ (field.1 :: Fields.keys upper).filter _
    rw [List.filter_cons]
    cases base.get? field.1 with
    | none => exact List.append_assoc _ _ _
    | some value => rfl

end Settings

end BuildScript
