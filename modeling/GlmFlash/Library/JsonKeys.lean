import GlmFlash.Library.JsonSorted
import GlmFlash.Library.Outcome

/-!
# Writing dictionaries with keys of any kind

`json.dumps` with `sort_keys` sorts the keys as Python compares them and then
writes each of them as a text.  Numbers are sorted as numbers, so the written
keys need not be in the order of texts, in which they are sorted once they
were read back.
-/

namespace GlmFlash.Library

/-- A key of a dictionary.  `special` is NaN or an infinity, and `other` is no
key that JSON has. -/
inductive PyKey where
  | null
  | bool (value : Bool)
  | int (value : ℤ)
  | real (value : ℚ) (written : List Char)
  | special
  | text (value : String)
  | other

inductive PyValue where
  | null
  | bool (value : Bool)
  | int (value : ℤ)
  | real (written : List Char)
  | text (value : String)
  | array (items : List PyValue)
  | object (fields : List (PyKey × PyValue))
  | other

inductive Refused where
  | typeError
  | valueError
  deriving DecidableEq

namespace PyKey

/-- The number that a key is equal to. -/
def number : PyKey → Option ℚ
  | .bool value => some (if value then 1 else 0)
  | .int value => some value
  | .real value _ => some value
  | _ => none

def isNumber : PyKey → Bool
  | .special => true
  | key => key.number.isSome

def isText : PyKey → Bool
  | .text _ => true
  | _ => false

/-- `left <= right` of two texts or of two numbers. -/
def le : PyKey → PyKey → Bool
  | .text left, .text right => left ≤ right
  | left, right =>
      match left.number, right.number with
      | some left, some right => left ≤ right
      | _, _ => true

/-- No two keys of a dictionary are equal. -/
def Distinct : PyKey → PyKey → Prop
  | .text left, .text right => left ≠ right
  | .null, .null => False
  | left, right => ∀ value ∈ left.number, value ∉ right.number

def write : PyKey → Except Refused String
  | .null => .ok "null"
  | .bool value => .ok (if value then "true" else "false")
  | .int value => .ok (String.ofList (dumpInt value))
  | .real _ written => .ok (String.ofList written)
  | .special => .error .valueError
  | .text value => .ok value
  | .other => .error .typeError

end PyKey

/-- Keys of which any two can be compared. -/
def sortable (keys : List PyKey) : Bool :=
  keys.length ≤ 1 || keys.all PyKey.isText || keys.all PyKey.isNumber

def sortByKey {V : Type} (fields : List (PyKey × V)) : List (PyKey × V) :=
  fields.insertionSort fun left right => left.1.le right.1

def writeField {V : Type} (field : PyKey × V) : Except Refused (String × V) := do
  return (← field.1.write, field.2)

mutual

/-- The value that `json.dumps` writes, with the fields in the order in which it
writes them. -/
def PyValue.encode : PyValue → Except Refused Json
  | .null => .ok .null
  | .bool value => .ok (.bool value)
  | .int value => .ok (.int value)
  | .real written => .ok (.real written)
  | .text value => .ok (.text value)
  | .array items => do return .array (← encodeItems items)
  | .object fields => do
      require (sortable (fields.map Prod.fst)) Refused.typeError
      let encoded ← encodeFields fields
      let written ← (sortByKey encoded).mapM writeField
      return .object written
  | .other => .error .typeError

def encodeItems : List PyValue → Except Refused (List Json)
  | [] => .ok []
  | item :: items => do return (← item.encode) :: (← encodeItems items)

def encodeFields : List (PyKey × PyValue) → Except Refused (List (PyKey × Json))
  | [] => .ok []
  | (key, value) :: fields => do return (key, ← value.encode) :: (← encodeFields fields)

end

/-- A value that Python has: the keys of a dictionary are distinct, and floats
are written as they are. -/
inductive PyValue.Valid : PyValue → Prop
  | null : Valid .null
  | bool (value : Bool) : Valid (.bool value)
  | int (value : ℤ) : Valid (.int value)
  | real {written : List Char} (hreal : IsReal written) : Valid (.real written)
  | text (value : String) : Valid (.text value)
  | array {items : List PyValue} (hitems : ∀ item ∈ items, Valid item) :
      Valid (.array items)
  | object {fields : List (PyKey × PyValue)}
      (hkeys : (fields.map Prod.fst).Pairwise PyKey.Distinct)
      (hfields : ∀ field ∈ fields, Valid field.2) : Valid (.object fields)
  | other : Valid .other

/-- A dictionary whose keys are texts. -/
def PyValue.texts (fields : Dict String PyValue) : PyValue :=
  .object (fields.map fun field => (.text field.1, field.2))

mutual

/-- A JSON value as Python has it: all keys are texts. -/
def PyValue.ofJson : Json → PyValue
  | .null => .null
  | .bool value => .bool value
  | .int value => .int value
  | .real written => .real written
  | .text value => .text value
  | .array items => .array (ofItems items)
  | .object fields => .object (ofFields fields)

def ofItems : List Json → List PyValue
  | [] => []
  | item :: items => PyValue.ofJson item :: ofItems items

def ofFields : List (String × Json) → List (PyKey × PyValue)
  | [] => []
  | (key, value) :: fields => (.text key, PyValue.ofJson value) :: ofFields fields

end

/-! ## Values whose keys are texts -/

theorem ofItems_eq_map (items : List Json) : ofItems items = items.map PyValue.ofJson := by
  induction items with
  | nil => rfl
  | cons item items ih => rw [ofItems, ih, List.map_cons]

theorem ofFields_eq_map (fields : List (String × Json)) :
    ofFields fields = fields.map fun field => (.text field.1, .ofJson field.2) := by
  induction fields with
  | nil => rfl
  | cons field fields ih => rw [ofFields, ih, List.map_cons]

theorem encodeItems_of_forall {items : List Json}
    (hitems : ∀ item ∈ items, (PyValue.ofJson item).encode = .ok item.sortKeys) :
    encodeItems (ofItems items) = .ok (items.map Json.sortKeys) := by
  induction items with
  | nil => rfl
  | cons item items ih =>
      obtain ⟨hitem, hrest⟩ := List.forall_mem_cons.mp hitems
      rw [ofItems, encodeItems, hitem, ih hrest]
      rfl

theorem encodeFields_texts {fields : Dict String PyValue} {written : Dict String Json}
    (hfields : List.Forall₂ (fun field entry =>
      field.1 = entry.1 ∧ field.2.encode = .ok entry.2) fields written) :
    encodeFields (fields.map fun field => (.text field.1, field.2)) =
      .ok (written.map fun entry => (.text entry.1, entry.2)) := by
  induction hfields with
  | nil => rfl
  | cons hfield hrest ih =>
      rw [List.map_cons, encodeFields, hfield.1, hfield.2, ih]
      rfl

/-- Texts are sorted as texts. -/
theorem sortByKey_texts {V : Type} (fields : List (String × V)) :
    sortByKey (fields.map fun field => (PyKey.text field.1, field.2)) =
      (fields.insertionSort fun left right => left.1 ≤ right.1).map
        fun field => (PyKey.text field.1, field.2) := by
  refine (List.map_insertionSort _ _ _ _ fun left _ right _ => ?_).symm
  exact (decide_eq_true_iff (p := left.1 ≤ right.1)).symm

theorem mapM_writeField {V : Type} (fields : List (String × V)) :
    (fields.map fun field => (PyKey.text field.1, field.2)).mapM writeField = .ok fields := by
  induction fields with
  | nil => rfl
  | cons field fields ih =>
      rw [List.map_cons, List.mapM_cons, ih]
      rfl

theorem sortable_texts (fields : Dict String PyValue) :
    sortable ((fields.map fun field => (PyKey.text field.1, field.2)).map Prod.fst) = true := by
  have htexts : ((fields.map fun field => (PyKey.text field.1, field.2)).map Prod.fst).all
      PyKey.isText = true := by
    rw [List.map_map, List.all_map, List.all_eq_true]
    exact fun _ _ => rfl
  rw [sortable, htexts, Bool.or_true, Bool.true_or]

/-- A dictionary whose keys are texts is written with its fields in the order of
texts. -/
theorem PyValue.encode_texts {fields : Dict String PyValue} {written : Dict String Json}
    (hfields : List.Forall₂ (fun field entry =>
      field.1 = entry.1 ∧ field.2.encode = .ok entry.2.sortKeys) fields written) :
    (PyValue.texts fields).encode = .ok (Json.object written).sortKeys := by
  have hvalues : List.Forall₂ (fun field entry =>
      field.1 = entry.1 ∧ field.2.encode = .ok entry.2) fields
        (Dict.mapValues Json.sortKeys written) :=
    List.forall₂_map_right_iff.mpr hfields
  have hwritten : (sortByKey ((Dict.mapValues Json.sortKeys written).map fun entry =>
      (PyKey.text entry.1, entry.2))).mapM writeField = .ok (sortedFields written) := by
    rw [sortByKey_texts, sortedFields, sortFields_eq_mapValues, mapM_writeField]
  rw [PyValue.texts, PyValue.encode, require, if_pos (sortable_texts fields),
    encodeFields_texts hvalues, Json.sortKeys_object]
  change (sortByKey _).mapM writeField >>= _ = _
  rw [hwritten]
  rfl

theorem PyValue.ofJson_object (fields : Dict String Json) : PyValue.ofJson (.object fields) =
    PyValue.texts (Dict.mapValues PyValue.ofJson fields) := by
  rw [PyValue.ofJson, ofFields_eq_map, PyValue.texts, Dict.mapValues, List.map_map]
  rfl

theorem PyValue.encode_ofJson (value : Json) :
    (PyValue.ofJson value).encode = .ok value.sortKeys := by
  induction value using Json.inductMem with
  | array items ih =>
      rw [PyValue.ofJson, PyValue.encode, encodeItems_of_forall ih, Json.sortKeys,
        sortItems_eq_map]
      rfl
  | object fields ih =>
      rw [PyValue.ofJson_object]
      apply PyValue.encode_texts
      rw [Dict.mapValues, List.forall₂_map_left_iff, List.forall₂_same]
      exact fun field hmem => ⟨rfl, ih field hmem⟩
  | _ => rfl

theorem PyValue.valid_texts {fields : Dict String PyValue} (hkeys : (Dict.keys fields).Nodup)
    (hfields : ∀ field ∈ fields, field.2.Valid) : (PyValue.texts fields).Valid := by
  refine .object ?_ fun field hmem => ?_
  · rw [List.map_map, List.pairwise_map]
    exact (List.pairwise_map.mp hkeys).imp fun hne => hne
  · obtain ⟨source, hsource, rfl⟩ := List.mem_map.mp hmem
    exact hfields source hsource

theorem PyValue.valid_ofJson {value : Json} (hwritten : value.Written) :
    value.uniqueKeys = true → (PyValue.ofJson value).Valid := by
  induction hwritten with
  | null => exact fun _ => .null
  | bool value => exact fun _ => .bool value
  | int value => exact fun _ => .int value
  | real hreal => exact fun _ => .real hreal
  | text value => exact fun _ => .text value
  | array hitems ih =>
      intro hunique
      rw [Json.uniqueKeys, uniqueItems_eq_true] at hunique
      rw [PyValue.ofJson, ofItems_eq_map]
      refine .array fun item hmem => ?_
      obtain ⟨source, hsource, rfl⟩ := List.mem_map.mp hmem
      exact ih source hsource (hunique source hsource)
  | object hfields ih =>
      intro hunique
      obtain ⟨hkeys, hvalues⟩ := Json.uniqueKeys_object.mp hunique
      rw [PyValue.ofJson_object]
      refine PyValue.valid_texts ?_ fun field hmem => ?_
      · rwa [Dict.keys_mapValues]
      · obtain ⟨source, hsource, rfl⟩ := List.mem_map.mp hmem
        exact ih source hsource (hvalues source hsource)

/-! ## Keys in the order of texts -/

/-- The keys of every object increase. -/
inductive Json.Ordered : Json → Prop
  | null : Ordered .null
  | bool (value : Bool) : Ordered (.bool value)
  | int (value : ℤ) : Ordered (.int value)
  | real (written : List Char) : Ordered (.real written)
  | text (value : String) : Ordered (.text value)
  | array {items : List Json} (hitems : ∀ item ∈ items, Ordered item) :
      Ordered (.array items)
  | object {fields : List (String × Json)}
      (hkeys : fields.Pairwise fun left right => left.1 < right.1)
      (hfields : ∀ field ∈ fields, Ordered field.2) : Ordered (.object fields)

theorem Json.Ordered.sortKeys_eq {value : Json} (hordered : value.Ordered) :
    value.sortKeys = value := by
  induction hordered with
  | @array items hitems ih =>
      rw [Json.sortKeys, sortItems_eq_map]
      exact congrArg Json.array ((List.map_congr_left ih).trans (List.map_id items))
  | @object fields hkeys hfields ih =>
      have hvalues : sortFields fields = fields := by
        rw [sortFields_eq_mapValues, Dict.mapValues]
        refine (List.map_congr_left fun field hmem => ?_).trans (List.map_id fields)
        exact Prod.ext rfl (ih field hmem)
      have hsorted : fields.Pairwise fun left right => left.1 ≤ right.1 :=
        hkeys.imp le_of_lt
      rw [Json.sortKeys_object, sortedFields, hvalues, hsorted.insertionSort_eq]
  | _ => rfl

theorem Json.Ordered.uniqueKeys {value : Json} (hordered : value.Ordered) :
    value.uniqueKeys = true := by
  induction hordered with
  | array hitems ih => exact uniqueItems_eq_true.mpr ih
  | object hkeys hfields ih =>
      refine Json.uniqueKeys_object.mpr ⟨?_, ih⟩
      exact List.pairwise_map.mpr (hkeys.imp ne_of_lt)
  | _ => rfl

theorem Json.ordered_sortKeys {value : Json} (hunique : value.uniqueKeys = true) :
    value.sortKeys.Ordered := by
  induction value using Json.inductMem with
  | array items ih =>
      rw [Json.uniqueKeys, uniqueItems_eq_true] at hunique
      rw [Json.sortKeys, sortItems_eq_map]
      refine .array fun item hmem => ?_
      obtain ⟨source, hsource, rfl⟩ := List.mem_map.mp hmem
      exact ih source hsource (hunique source hsource)
  | object fields ih =>
      obtain ⟨hkeys, hvalues⟩ := Json.uniqueKeys_object.mp hunique
      have hnodup : ((sortedFields fields).map Prod.fst).Nodup :=
        (keys_sortedFields_perm fields).nodup_iff.mpr hkeys
      rw [Json.sortKeys_object]
      refine .object ?_ fun field hmem => ?_
      · apply ((pairwise_sortedFields fields).and (List.pairwise_map.mp hnodup)).imp
        exact fun horder => lt_of_le_of_ne horder.1 horder.2
      · obtain ⟨source, hsource, rfl⟩ :=
          List.mem_map.mp ((sortedFields_perm fields).mem_iff.mp hmem)
        exact ih source hsource (hvalues source hsource)
  | null => exact .null
  | bool value => exact .bool value
  | int value => exact .int value
  | real written => exact .real written
  | text value => exact .text value

/-! ## What was written can be read -/

theorem encodeItems_mem {items : List PyValue} {written : List Json}
    (hencode : encodeItems items = .ok written) {value : Json} (hmem : value ∈ written) :
    ∃ item ∈ items, item.encode = .ok value := by
  induction items generalizing written with
  | nil =>
      cases hencode
      cases hmem
  | cons item items ih =>
      simp only [encodeItems, bind_eq_ok, pure_eq_ok] at hencode
      obtain ⟨first, hfirst, rest, hrest, rfl⟩ := hencode
      rcases List.mem_cons.mp hmem with rfl | hlater
      · exact ⟨item, List.mem_cons_self, hfirst⟩
      · obtain ⟨source, hsource, hvalue⟩ := ih hrest hlater
        exact ⟨source, List.mem_cons_of_mem item hsource, hvalue⟩

theorem encodeFields_mem {fields : List (PyKey × PyValue)} {written : List (PyKey × Json)}
    (hencode : encodeFields fields = .ok written) {entry : PyKey × Json}
    (hmem : entry ∈ written) : ∃ field ∈ fields, field.2.encode = .ok entry.2 := by
  induction fields generalizing written with
  | nil =>
      cases hencode
      cases hmem
  | cons field fields ih =>
      obtain ⟨key, value⟩ := field
      simp only [encodeFields, bind_eq_ok, pure_eq_ok] at hencode
      obtain ⟨first, hfirst, rest, hrest, rfl⟩ := hencode
      rcases List.mem_cons.mp hmem with rfl | hlater
      · exact ⟨(key, value), List.mem_cons_self, hfirst⟩
      · obtain ⟨source, hsource, hvalue⟩ := ih hrest hlater
        exact ⟨source, List.mem_cons_of_mem _ hsource, hvalue⟩

theorem PyValue.Valid.written {value : PyValue} (hvalid : value.Valid) :
    ∀ {json : Json}, value.encode = .ok json → json.Written := by
  induction hvalid with
  | null =>
      rintro _ ⟨⟩
      exact .null
  | bool value =>
      rintro _ ⟨⟩
      exact .bool value
  | int value =>
      rintro _ ⟨⟩
      exact .int value
  | real hreal =>
      rintro _ ⟨⟩
      exact .real hreal
  | text value =>
      rintro _ ⟨⟩
      exact .text value
  | array hitems ih =>
      intro json hencode
      simp only [PyValue.encode, bind_eq_ok, pure_eq_ok] at hencode
      obtain ⟨written, hwritten, rfl⟩ := hencode
      refine .array fun value hmem => ?_
      obtain ⟨item, hitem, hvalue⟩ := encodeItems_mem hwritten hmem
      exact ih item hitem hvalue
  | object hkeys hfields ih =>
      intro json hencode
      simp only [PyValue.encode, bind_eq_ok, pure_eq_ok] at hencode
      obtain ⟨-, -, encoded, hencoded, written, hwritten, rfl⟩ := hencode
      refine .object fun field hmem => ?_
      obtain ⟨entry, hentry, hfield⟩ := mem_mapM_ok hwritten hmem
      simp only [writeField, bind_eq_ok, pure_eq_ok] at hfield
      obtain ⟨key, -, rfl⟩ := hfield
      have hsource := (List.perm_insertionSort _ encoded).mem_iff.mp hentry
      obtain ⟨source, hmem, hvalue⟩ := encodeFields_mem hencoded hsource
      exact ih source hmem hvalue
  | other => rintro _ ⟨⟩

end GlmFlash.Library
