import GlmFlash.Library.Dict
import GlmFlash.Library.JsonRoundTrip

/-!
# JSON with sorted keys

Sorting the keys of all objects changes the order of their fields only, so the
keys stay distinct, every field can still be looked up and the result can be
written where the value could.
-/

namespace GlmFlash.Library

theorem sortItems_eq_map (items : List Json) :
    sortItems items = items.map Json.sortKeys := by
  induction items with
  | nil => rfl
  | cons item items ih => rw [sortItems, ih, List.map_cons]

theorem sortFields_eq_mapValues (fields : Dict String Json) :
    sortFields fields = fields.mapValues Json.sortKeys := by
  induction fields with
  | nil => rfl
  | cons field fields ih =>
      rw [sortFields, ih]
      rfl

/-- The fields of an object after the sort. -/
def sortedFields (fields : Dict String Json) : Dict String Json :=
  (sortFields fields).insertionSort fun left right => left.1 ≤ right.1

theorem Json.sortKeys_object (fields : Dict String Json) :
    (Json.object fields).sortKeys = .object (sortedFields fields) :=
  Json.sortKeys.eq_2 fields

theorem sortedFields_perm (fields : Dict String Json) :
    (sortedFields fields).Perm (fields.mapValues Json.sortKeys) := by
  rw [← sortFields_eq_mapValues]
  exact List.perm_insertionSort _ _

theorem keys_sortedFields_perm (fields : Dict String Json) :
    ((sortedFields fields).map Prod.fst).Perm (fields.map Prod.fst) := by
  have hkeys := (sortedFields_perm fields).map Prod.fst
  rwa [← Dict.keys, ← Dict.keys, Dict.keys_mapValues] at hkeys

theorem get?_sortedFields {fields : Dict String Json}
    (hunique : (fields.map Prod.fst).Nodup) (key : String) :
    (sortedFields fields).get? key =
      (fields.get? key).map Json.sortKeys := by
  have hnodup : (Dict.keys (sortedFields fields)).Nodup :=
    (keys_sortedFields_perm fields).nodup_iff.mpr hunique
  rw [Dict.get?_perm (sortedFields_perm fields) hnodup, Dict.get?_mapValues]

/-! ## Distinct keys -/

theorem uniqueItems_eq_true {items : List Json} :
    uniqueItems items = true ↔ ∀ item ∈ items, item.uniqueKeys = true := by
  induction items with
  | nil => simp [uniqueItems]
  | cons item items ih =>
      rw [uniqueItems, Bool.and_eq_true, ih, List.forall_mem_cons]

theorem uniqueFields_eq_true {fields : List (String × Json)} :
    uniqueFields fields = true ↔ ∀ field ∈ fields, field.2.uniqueKeys = true := by
  induction fields with
  | nil => simp [uniqueFields]
  | cons field fields ih =>
      rw [uniqueFields, Bool.and_eq_true, ih, List.forall_mem_cons]

theorem Json.uniqueKeys_object {fields : Dict String Json} :
    (Json.object fields).uniqueKeys = true ↔ (fields.map Prod.fst).Nodup ∧
      ∀ field ∈ fields, field.2.uniqueKeys = true := by
  rw [Json.uniqueKeys, Bool.and_eq_true, decide_eq_true_eq,
    uniqueFields_eq_true]

/-- Induction over a value and what it is made of. -/
theorem Json.inductMem {motive : Json → Prop} (null : motive .null)
    (bool : ∀ value, motive (.bool value)) (int : ∀ value, motive (.int value))
    (real : ∀ written, motive (.real written))
    (text : ∀ value, motive (.text value))
    (array : ∀ items, (∀ item ∈ items, motive item) → motive (.array items))
    (object : ∀ fields, (∀ field ∈ fields, motive field.2) →
      motive (.object fields)) :
    ∀ value, motive value
  | .null => null
  | .bool value => bool value
  | .int value => int value
  | .real written => real written
  | .text value => text value
  | .array items => array items fun item _ =>
      Json.inductMem null bool int real text array object item
  | .object fields => object fields fun field hmem =>
      have : sizeOf field.2 < sizeOf fields := by
        have hfield := List.sizeOf_lt_of_mem hmem
        have hvalue : sizeOf field.2 < sizeOf field := by
          cases field
          simp
        exact hvalue.trans hfield
      Json.inductMem null bool int real text array object field.2

theorem Json.uniqueKeys_sortKeys {value : Json}
    (hunique : value.uniqueKeys = true) : value.sortKeys.uniqueKeys = true := by
  induction value using Json.inductMem with
  | array items ih =>
      rw [Json.uniqueKeys, uniqueItems_eq_true] at hunique
      rw [Json.sortKeys, Json.uniqueKeys, uniqueItems_eq_true, sortItems_eq_map]
      intro item hmem
      obtain ⟨source, hsource, rfl⟩ := List.mem_map.mp hmem
      exact ih source hsource (hunique source hsource)
  | object fields ih =>
      obtain ⟨hkeys, hvalues⟩ := Json.uniqueKeys_object.mp hunique
      rw [Json.sortKeys_object, Json.uniqueKeys_object]
      refine ⟨(keys_sortedFields_perm fields).nodup_iff.mpr hkeys, ?_⟩
      intro field hmem
      obtain ⟨source, hsource, rfl⟩ :=
        List.mem_map.mp ((sortedFields_perm fields).mem_iff.mp hmem)
      exact ih source hsource (hvalues source hsource)
  | _ => exact hunique

/-- A value whose keys are distinct is not changed by reading it. -/
theorem Json.lastWins_eq_self {value : Json} (hunique : value.uniqueKeys = true) :
    value.lastWins = value := by
  induction value using Json.inductMem with
  | array items ih =>
      rw [Json.uniqueKeys, uniqueItems_eq_true] at hunique
      have hitems : lastWinsItems items = items := by
        induction items with
        | nil => rfl
        | cons item items ih' =>
            obtain ⟨hitem, hrest⟩ := List.forall_mem_cons.mp hunique
            rw [lastWinsItems, ih item List.mem_cons_self hitem,
              ih' (fun other hmem => ih other (List.mem_cons_of_mem item hmem))
                hrest]
      rw [Json.lastWins, hitems]
  | object fields ih =>
      obtain ⟨hkeys, hvalues⟩ := Json.uniqueKeys_object.mp hunique
      have hfields : lastWinsFields fields = fields := by
        clear hunique hkeys
        induction fields with
        | nil => rfl
        | cons field fields ih' =>
            obtain ⟨hfield, hrest⟩ := List.forall_mem_cons.mp hvalues
            rw [lastWinsFields, ih field List.mem_cons_self hfield,
              ih' (fun other hmem => ih other (List.mem_cons_of_mem field hmem))
                hrest]
      rw [Json.lastWins, hfields, Dict.ofItems_eq hkeys]
  | _ => rfl

/-! ## Values that can be written -/

theorem Json.Written.sortKeys {value : Json} (hwritten : value.Written) :
    value.sortKeys.Written := by
  induction hwritten with
  | @array items hitems ih =>
      rw [Json.sortKeys, sortItems_eq_map]
      refine .array fun item hmem => ?_
      obtain ⟨source, hsource, rfl⟩ := List.mem_map.mp hmem
      exact ih source hsource
  | @object fields hfields ih =>
      rw [Json.sortKeys_object]
      refine .object fun field hmem => ?_
      obtain ⟨source, hsource, rfl⟩ :=
        List.mem_map.mp ((sortedFields_perm fields).mem_iff.mp hmem)
      exact ih source hsource
  | null => exact .null
  | bool value => exact .bool value
  | int value => exact .int value
  | real hreal => exact .real hreal
  | text value => exact .text value

/-! ## Sorting again -/

theorem pairwise_sortedFields (fields : Dict String Json) :
    (sortedFields fields).Pairwise fun left right => left.1 ≤ right.1 := by
  have htotal : Std.Total fun left right : String × Json => left.1 ≤ right.1 :=
    ⟨fun left right => le_total left.1 right.1⟩
  have htrans : IsTrans (String × Json) fun left right => left.1 ≤ right.1 :=
    ⟨fun _ _ _ => le_trans⟩
  exact List.pairwise_insertionSort _ _

theorem Json.sortKeys_sortKeys (value : Json) :
    value.sortKeys.sortKeys = value.sortKeys := by
  induction value using Json.inductMem with
  | array items ih =>
      rw [Json.sortKeys, Json.sortKeys, sortItems_eq_map, sortItems_eq_map,
        List.map_map]
      exact congrArg Json.array (List.map_congr_left ih)
  | object fields ih =>
      have hfields : sortFields (sortedFields fields) = sortedFields fields := by
        rw [sortFields_eq_mapValues, Dict.mapValues]
        apply (List.map_congr_left _).trans (List.map_id _)
        intro field hmem
        obtain ⟨source, hsource, rfl⟩ :=
          List.mem_map.mp ((sortedFields_perm fields).mem_iff.mp hmem)
        exact Prod.ext rfl (ih source hsource)
      rw [Json.sortKeys_object, Json.sortKeys_object]
      nth_rewrite 1 [sortedFields]
      rw [hfields, (pairwise_sortedFields fields).insertionSort_eq]
  | _ => rfl

/-- The sort does not depend on the order of the fields. -/
theorem sortedFields_eq_of_perm {left right : Dict String Json}
    (hunique : (Dict.keys right).Nodup)
    (hperm : (left.mapValues Json.sortKeys).Perm (right.mapValues Json.sortKeys)) :
    sortedFields left = sortedFields right := by
  have hsorted : (sortedFields left).Perm (sortedFields right) :=
    (sortedFields_perm left).trans (hperm.trans (sortedFields_perm right).symm)
  have hnodup : (Dict.keys (sortedFields right)).Nodup :=
    (keys_sortedFields_perm right).nodup_iff.mpr hunique
  apply hsorted.eq_of_pairwise _ (pairwise_sortedFields left) (pairwise_sortedFields right)
  intro first second hfirst hsecond hle hge
  exact List.inj_on_of_nodup_map hnodup (hsorted.mem_iff.mp hfirst) hsecond
    (le_antisymm hle hge)

/-- A field that was added last can be taken from the sorted fields again. -/
theorem sortedFields_filter {fields : Dict String Json} {key : String} {value : Json}
    (hunique : (Dict.keys fields).Nodup) (hnew : key ∉ Dict.keys fields) :
    sortedFields ((sortedFields (fields ++ [(key, value)])).filter
      fun field => field.1 ≠ key) = sortedFields fields := by
  apply sortedFields_eq_of_perm hunique
  have hsorted := (sortedFields_perm (fields ++ [(key, value)])).filter
    fun field => decide (field.1 ≠ key)
  have hkept : ((Dict.mapValues Json.sortKeys (fields ++ [(key, value)])).filter
      fun field => decide (field.1 ≠ key)) = fields.mapValues Json.sortKeys := by
    have hlast : ([(key, value.sortKeys)] : Dict String Json).filter
        (fun field => decide (field.1 ≠ key)) = [] := by
      simp
    have hrest : (fields.mapValues Json.sortKeys).filter
        (fun field => decide (field.1 ≠ key)) = fields.mapValues Json.sortKeys := by
      apply List.filter_eq_self.mpr
      intro field hfield
      apply decide_eq_true
      rintro rfl
      apply hnew
      rw [← Dict.keys_mapValues Json.sortKeys]
      exact List.mem_map_of_mem hfield
    rw [Dict.mapValues, List.map_append, List.filter_append, ← Dict.mapValues, hrest]
    exact (congrArg _ hlast).trans (List.append_nil _)
  rw [hkept] at hsorted
  have htwice : (fields.mapValues Json.sortKeys).mapValues Json.sortKeys =
      fields.mapValues Json.sortKeys := by
    rw [Dict.mapValues, Dict.mapValues, List.map_map]
    apply List.map_congr_left
    intro field _
    exact Prod.ext rfl (Json.sortKeys_sortKeys field.2)
  have hagain := hsorted.map fun field => (field.1, field.2.sortKeys)
  exact hagain.trans (List.Perm.of_eq htwice)

end GlmFlash.Library
