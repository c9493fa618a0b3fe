import GlmFlash.Checkpoint.PayloadStore
import GlmFlash.Library.Text

/-!
# Names in a checkpoint

Tensor names, unit names and file names are formatted from layer, expert and
shard numbers.  Different numbers give different names.
-/

namespace GlmFlash.Checkpoint

open GlmFlash.Library

/-! ## Stacked expert tensors -/

/-- The zeros of the decimal digits that `\d` matches and `int` reads. -/
def decimalZeros : List ℕ := [
  0x30, 0x660, 0x6f0, 0x7c0, 0x966, 0x9e6, 0xa66, 0xae6, 0xb66, 0xbe6, 0xc66,
  0xce6, 0xd66, 0xde6, 0xe50, 0xed0, 0xf20, 0x1040, 0x1090, 0x17e0, 0x1810,
  0x1946, 0x19d0, 0x1a80, 0x1a90, 0x1b50, 0x1bb0, 0x1c40, 0x1c50, 0xa620,
  0xa8d0, 0xa900, 0xa9d0, 0xa9f0, 0xaa50, 0xabf0, 0xff10, 0x104a0, 0x10d30,
  0x11066, 0x110f0, 0x11136, 0x111d0, 0x112f0, 0x11450, 0x114d0, 0x11650,
  0x116c0, 0x11730, 0x118e0, 0x11950, 0x11c50, 0x11d50, 0x11da0, 0x16a60,
  0x16ac0, 0x16b50, 0x1d7ce, 0x1d7d8, 0x1d7e2, 0x1d7ec, 0x1d7f6, 0x1e140,
  0x1e2f0, 0x1e950, 0x1fbf0]

def decimalValue (char : Char) : Option ℕ :=
  (decimalZeros.find? fun first => first ≤ char.toNat ∧ char.toNat < first + 10).map
    fun first => char.toNat - first

/-- `int(digits)` -/
def decimalNumber (digits : List Char) : ℕ :=
  digits.foldl (fun number char => 10 * number + (decimalValue char).getD 0) 0

inductive StackedFamily where
  | gateUpProj
  | downProj
  deriving DecidableEq, Repr

/-- The projections that a stacked tensor holds. -/
def StackedFamily.projections : StackedFamily → List Projection
  | gateUpProj => [.gateProj, .upProj]
  | downProj => [.downProj]

/-- The rest of the pattern: a layer number and the name of a stacked
tensor. -/
def stackedRest (rest : List Char) : Option (ℕ × StackedFamily) :=
  let digits := rest.takeWhile fun char => (decimalValue char).isSome
  let tail := rest.dropWhile fun char => (decimalValue char).isSome
  if digits = [] then none
  else if tail = ".mlp.experts.gate_up_proj".toList then
    some (decimalNumber digits, .gateUpProj)
  else if tail = ".mlp.experts.down_proj".toList then
    some (decimalNumber digits, .downProj)
  else none

/-- `_STACKED_EXPERT.fullmatch`: the layer and the stacked tensor. -/
def stackedExpert (name : String) : Option (ℕ × StackedFamily) :=
  let stem := "model.layers.".toList
  if stem <+: name.toList then stackedRest (name.toList.drop stem.length)
  else none

/-! ## Generated names -/

/-- What `_payload_key` puts after the prefix of the layer. -/
def payloadSuffix (expert : ℕ) (projection : Projection) (role : Role)
    (topology : Scope) : String :=
  match topology, projection, role with
  | .layerShared, .gateProj, .suh => ".r7_shared.gate_up_suh"
  | .layerShared, .upProj, .suh => ".r7_shared.gate_up_suh"
  | .layerShared, .downProj, .svh => ".r7_shared.down_svh"
  | _, _, _ => s!".{expert}.{projection.name}.{role.name}"

/-- `_payload_key` -/
def payloadKey (layer expert : ℕ) (projection : Projection) (role : Role)
    (topology : Scope) : String :=
  s!"model.layers.{layer}.mlp.experts" ++
    payloadSuffix expert projection role topology

def unitName (layer expert : ℕ) (projection : Projection) : String :=
  s!"L{layer}.E{expert}.{projection.name}"

def carrierName (shardIndex : ℕ) : String :=
  String.ofList ("carrier-".toList ++
    (paddedNumeral 5 shardIndex ++ ".safetensors".toList))

def layerFileName (layer : ℕ) : String :=
  String.ofList ("btx-experts-layer-".toList ++
    (paddedNumeral 3 layer ++ ".safetensors".toList))

theorem stops_append {text rest : List Char} (htext : text ≠ [])
    (hstops : Stops text) : Stops (text ++ rest) := by
  intro char hchar
  rw [List.head?_append_of_ne_nil _ htext] at hchar
  exact hstops char hchar

theorem payloadKey_toList (layer expert : ℕ) (projection : Projection)
    (role : Role) (topology : Scope) :
    (payloadKey layer expert projection role topology).toList =
      "model.layers.".toList ++ (numeral layer ++ (".mlp.experts".toList ++
        (payloadSuffix expert projection role topology).toList)) := by
  have hlayer : (s!"model.layers.{layer}").toList =
      "model.layers.".toList ++ numeral layer := String.toList_append
  have hstem : (s!"model.layers.{layer}.mlp.experts").toList =
      (s!"model.layers.{layer}").toList ++ ".mlp.experts".toList :=
    String.toList_append
  have hkey : (payloadKey layer expert projection role topology).toList =
      (s!"model.layers.{layer}.mlp.experts").toList ++
        (payloadSuffix expert projection role topology).toList :=
    String.toList_append
  rw [hkey, hstem, hlayer, List.append_assoc, List.append_assoc]

/-- A payload key tells its layer. -/
theorem payloadKey_layer {layer layer' expert expert' : ℕ}
    {projection projection' : Projection} {role role' : Role}
    {topology topology' : Scope}
    (heq : payloadKey layer expert projection role topology =
      payloadKey layer' expert' projection' role' topology') :
    layer = layer' := by
  have hlist := congrArg String.toList heq
  rw [payloadKey_toList, payloadKey_toList] at hlist
  have hnumbers := List.append_cancel_left hlist
  have hstem : Stops ".mlp.experts".toList := by decide
  exact (numeral_append_inj (stops_append (by decide) hstem)
    (stops_append (by decide) hstem) hnumbers).1

theorem unitName_inj {layer layer' expert expert' : ℕ}
    {projection projection' : Projection}
    (heq : unitName layer expert projection =
      unitName layer' expert' projection') :
    layer = layer' ∧ expert = expert' ∧ projection = projection' := by
  have hlist := congrArg String.toList heq
  simp only [unitName, toString, String.toList_append, List.append_assoc,
    List.append_cancel_left_eq] at hlist
  have hexpertStem : Stops ".E".toList := by decide
  have hdot : Stops ".".toList := by decide
  obtain ⟨hlayers, hrest⟩ :=
    numeral_append_inj (stops_append (by decide) hexpertStem)
      (stops_append (by decide) hexpertStem) hlist
  obtain ⟨hexperts, hlast⟩ :=
    numeral_append_inj (stops_append (by decide) hdot)
      (stops_append (by decide) hdot) (List.append_cancel_left hrest)
  have hname := List.append_cancel_left hlast
  exact ⟨hlayers, hexperts,
    Projection.name_injective (String.toList_inj.mp hname)⟩

theorem decimalValue_of_isDigit {char : Char} (hdigit : char.isDigit = true) :
    (decimalValue char).isSome = true := by
  have hrange : 0x30 ≤ char.toNat ∧ char.toNat < 0x30 + 10 := by
    simp only [Char.isDigit, Bool.and_eq_true, decide_eq_true_eq] at hdigit
    have hlow : 48 ≤ char.toNat := hdigit.1
    have hhigh : char.toNat ≤ 57 := hdigit.2
    omega
  rw [decimalValue, decimalZeros, List.find?_cons_of_pos (by simpa using hrange)]
  rfl

theorem dropWhile_numeral {number : ℕ} {rest : List Char} :
    (numeral number ++ (".mlp.experts".toList ++ rest)).dropWhile
        (fun char => (decimalValue char).isSome) =
      ".mlp.experts".toList ++ rest := by
  rw [List.dropWhile_append_of_pos fun digit hmem =>
    decimalValue_of_isDigit (isDigit_of_mem_numeral hmem)]
  have hdot : ".mlp.experts".toList = '.' :: "mlp.experts".toList := by decide
  rw [hdot, List.cons_append]
  exact List.dropWhile_cons_of_neg (by decide)

theorem payloadSuffix_cases (expert : ℕ) (projection : Projection)
    (role : Role) (topology : Scope) :
    payloadSuffix expert projection role topology =
        ".r7_shared.gate_up_suh" ∨
      payloadSuffix expert projection role topology = ".r7_shared.down_svh" ∨
      payloadSuffix expert projection role topology =
        s!".{expert}.{projection.name}.{role.name}" := by
  unfold payloadSuffix
  split
  · exact .inl rfl
  · exact .inl rfl
  · exact .inr (.inl rfl)
  · exact .inr (.inr rfl)

/-- A suffix that starts like the name of a stacked tensor is none of the
generated ones. -/
theorem payloadSuffix_ne {expert : ℕ} {projection : Projection} {role : Role}
    {topology : Scope} {text : List Char} (htext : Stops text)
    (hgate : ".r7_shared.gate_up_suh".toList ≠ '.' :: text)
    (hdown : ".r7_shared.down_svh".toList ≠ '.' :: text) :
    (payloadSuffix expert projection role topology).toList ≠ '.' :: text := by
  rcases payloadSuffix_cases expert projection role topology with
    heq | heq | heq
  · rw [heq]
    exact hgate
  · rw [heq]
    exact hdown
  · rw [heq]
    intro hlist
    simp only [toString, String.toList_append, List.append_assoc] at hlist
    have hrest : numeral expert ++ _ = text := (List.cons.inj hlist).2
    exact not_stops_numeral expert _ (hrest ▸ htext)

/-- A payload key is no stacked expert tensor. -/
theorem stackedExpert_payloadKey (layer expert : ℕ) (projection : Projection)
    (role : Role) (topology : Scope) :
    stackedExpert (payloadKey layer expert projection role topology) = none := by
  have htail {text : List Char} (htext : Stops text)
      (hgate : ".r7_shared.gate_up_suh".toList ≠ '.' :: text)
      (hdown : ".r7_shared.down_svh".toList ≠ '.' :: text) :
      ".mlp.experts".toList ++
          (payloadSuffix expert projection role topology).toList ≠
        ".mlp.experts".toList ++ '.' :: text := fun heq =>
    payloadSuffix_ne htext hgate hdown (List.append_cancel_left heq)
  rw [stackedExpert, payloadKey_toList, List.drop_left,
    if_pos (List.prefix_append _ _), stackedRest, dropWhile_numeral]
  have hgate : ".mlp.experts.gate_up_proj".toList =
      ".mlp.experts".toList ++ '.' :: "gate_up_proj".toList := by decide
  have hdown : ".mlp.experts.down_proj".toList =
      ".mlp.experts".toList ++ '.' :: "down_proj".toList := by decide
  rw [hgate, hdown, if_neg (htail (by decide) (by decide)
    (by decide)), if_neg (htail (by decide) (by decide)
    (by decide)), ite_self]

theorem carrierName_injective : Function.Injective carrierName := by
  intro left right heq
  have hpadded := List.append_cancel_left (String.ofList_injective heq)
  exact paddedNumeral_injective 5 ((List.append_left_inj _).mp hpadded)

theorem layerFileName_injective : Function.Injective layerFileName := by
  intro left right heq
  have hpadded := List.append_cancel_left (String.ofList_injective heq)
  exact paddedNumeral_injective 3 ((List.append_left_inj _).mp hpadded)

/-- A numbered file name: a stem, a padded number and the suffix. -/
theorem slash_not_mem_numbered {stem : List Char} {width number : ℕ}
    (hstem : '/' ∉ stem) :
    '/' ∉ (String.ofList (stem ++
      (paddedNumeral width number ++ ".safetensors".toList))).toList := by
  rw [String.toList_ofList, List.mem_append, List.mem_append, not_or, not_or]
  refine ⟨hstem, fun hmem => ?_, by decide⟩
  exact absurd (isDigit_of_mem_paddedNumeral hmem) (by decide)

theorem slash_not_mem_carrierName (shardIndex : ℕ) :
    '/' ∉ (carrierName shardIndex).toList :=
  slash_not_mem_numbered (by decide)

theorem slash_not_mem_layerFileName (layer : ℕ) :
    '/' ∉ (layerFileName layer).toList :=
  slash_not_mem_numbered (by decide)

theorem carrierName_ne_layerFileName (shardIndex layer : ℕ) :
    carrierName shardIndex ≠ layerFileName layer := by
  intro heq
  have hhead := congrArg List.head? (String.ofList_injective heq)
  rw [List.head?_append_of_ne_nil _ (by decide),
    List.head?_append_of_ne_nil _ (by decide)] at hhead
  exact absurd hhead (by decide)

theorem carrierName_take (shardIndex : ℕ) :
    (carrierName shardIndex).toList.take 8 = "carrier-".toList :=
  (congrArg (List.take 8) String.toList_ofList).trans
    (List.take_left' (by decide))

theorem layerFileName_take (layer : ℕ) :
    (layerFileName layer).toList.take 18 = "btx-experts-layer-".toList :=
  (congrArg (List.take 18) String.toList_ofList).trans
    (List.take_left' (by decide))

end GlmFlash.Checkpoint
