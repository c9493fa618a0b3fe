import GlmFlash.Library.JsonSorted
import GlmFlash.Library.Outcome

/-!
# The journal of sealed stages

`Journal` of `state.py` keeps the seals of a walk in memory and in one JSON
file.  `seal` puts a new seal into memory and then writes the whole file; a
stage that is there already is compared and not written again.
-/

namespace GlmFlash.Encoder.StageJournal

open GlmFlash.Library

inductive Failure where
  | valueError
  | keyError
  | typeError
  | attributeError
  | ioError
  deriving DecidableEq, Repr

abbrev Bytes := List UInt8

def recipeMarker : String := "CODEX_ROUND7"

def recipeVersion : String := "tr3-v4-r7-draft-1"

structure StageSeal where
  name : String
  inputSha256 : Dict String Json
  outputSha256 : Dict String Json
  metadata : Dict String Json

/-- `asdict` -/
def StageSeal.asdict (stage : StageSeal) : Dict String Json := [
  ("name", .text stage.name), ("input_sha256", .object stage.inputSha256),
  ("output_sha256", .object stage.outputSha256),
  ("metadata", .object stage.metadata)]

/-- SHA-256, the decoder of texts that are not ASCII, and `==` of JSON values,
which does not look at the order of keys.  Seals and recipes hold no NaN, which
would not equal itself. -/
structure Runtime where
  sha256 : Bytes → String
  decode : Bytes → Option (List Char)
  same : Json → Json → Bool
  same_refl : ∀ value, same value value = true
  same_symm : ∀ left right, same left right = true → same right left = true
  same_trans : ∀ first second third, same first second = true →
    same second third = true → same first third = true
  same_sortKeys : ∀ value, same value.sortKeys value = true

variable (runtime : Runtime)

/-- `==` of seals. -/
def sameSeal (left right : StageSeal) : Bool :=
  runtime.same (.object left.asdict) (.object right.asdict)

def canonicalJsonBytes (value : Json) : Bytes := value.sortKeys.dumps

/-- The bytes that `atomic_write_json` writes. -/
def jsonFile (value : Json) : Bytes :=
  canonicalJsonBytes value ++ encodeAscii ['\n']

/-- `read_json` -/
def readJson (file : Bytes) : Option Json :=
  (Json.loads runtime.decode file).map Json.lastWins

structure Journal where
  recipeConfig : Dict String Json
  recipeSha256 : String
  seals : Dict String StageSeal

def Journal.has (journal : Journal) (name : String) : Bool :=
  (journal.seals.get? name).isSome

def Journal.require (journal : Journal) (name : String) :
    Except Failure StageSeal :=
  match journal.seals.get? name with
  | some stage => .ok stage
  | none => .error .valueError

/-! ## Writing -/

/-- `sorted(self.seals)` -/
def Journal.names (journal : Journal) : List String :=
  journal.seals.keys.insertionSort (· ≤ ·)

/-- What `flush` writes. -/
def Journal.payload (journal : Journal) : Dict String Json := [
  ("marker", .text recipeMarker), ("recipe_version", .text recipeVersion),
  ("recipe_sha256", .text journal.recipeSha256),
  ("recipe_config", .object journal.recipeConfig),
  ("seals", .array (journal.names.filterMap fun name =>
    (journal.seals.get? name).map fun stage => .object stage.asdict))]

def Journal.flush (journal : Journal) : Bytes :=
  jsonFile (.object journal.payload)

/-! ## Reading -/

/-- `raw[key]` -/
def item (raw : Json) (key : String) : Except Failure Json :=
  match raw with
  | .object fields =>
      match Dict.get? fields key with
      | some value => .ok value
      | none => .error .keyError
  | _ => .error .typeError

/-- `dict(value)` -/
def dictOf : Json → Except Failure (Dict String Json)
  | .object fields => .ok fields
  | _ => .error .typeError

/-- `str(value)` -/
def nameOf : Json → Except Failure String
  | .text name => .ok name
  | _ => .error .typeError

def readSeal (raw : Json) : Except Failure StageSeal := do
  let rawName ← item raw "name"
  let name ← nameOf rawName
  let rawInput ← item raw "input_sha256"
  let inputSha256 ← dictOf rawInput
  let rawOutput ← item raw "output_sha256"
  let outputSha256 ← dictOf rawOutput
  let rawMetadata ← item raw "metadata"
  let metadata ← dictOf rawMetadata
  return ⟨name, inputSha256, outputSha256, metadata⟩

/-- One round of the loop over the seals of the file. -/
def addSeal (seals : Dict String StageSeal) (raw : Json) :
    Except Failure (Dict String StageSeal) := do
  let stage ← readSeal raw
  require (stage.name ∉ seals.keys) .valueError
  return seals.set stage.name stage

/-- `payload.get("seals", [])`, to iterate over. -/
def rawSeals (payload : Dict String Json) : Except Failure (List Json) :=
  match payload.get? "seals" with
  | none => .ok []
  | some (.array items) => .ok items
  | some _ => .error .typeError

def isText (value : Option Json) (expected : String) : Bool :=
  match value with
  | some (.text found) => found = expected
  | _ => false

def readSeals (recipeSha256 : String) (file : Bytes) :
    Except Failure (Dict String StageSeal) :=
  match readJson runtime file with
  | none => .error .valueError
  | some (.object payload) => do
      require (isText (Dict.get? payload "marker") recipeMarker) .valueError
      require (isText (Dict.get? payload "recipe_version") recipeVersion)
        .valueError
      require (isText (Dict.get? payload "recipe_sha256") recipeSha256) .valueError
      let raws ← rawSeals payload
      raws.foldlM addSeal []
  | some _ => .error .attributeError

/-! ## The journal and its file -/

/-- The journal, its file, and whether the last write of it failed. -/
structure World where
  journal : Journal
  file : Option Bytes
  flushFailed : Bool

def emptyJournal (recipe : Dict String Json) : Journal where
  recipeConfig := recipe
  recipeSha256 := runtime.sha256 (canonicalJsonBytes (.object recipe))
  seals := []

/-- `Journal(path, recipe_config=recipe)`, where the file may have to be
written. -/
def openJournal (recipe : Dict String Json) (file : Option Bytes)
    (written : Bool) : Except Failure World :=
  let journal := emptyJournal runtime recipe
  match file with
  | some bytes => do
      let seals ← readSeals runtime journal.recipeSha256 bytes
      return ⟨{ journal with seals := seals }, file, false⟩
  | none =>
      if written then return ⟨journal, some journal.flush, false⟩
      else .error .ioError

/-- A call of `seal`, and whether its write succeeds if it makes one. -/
structure Call where
  stage : StageSeal
  written : Bool

/-- `Journal.seal`: what it leaves, and whether it returns. -/
def sealStage (world : World) (call : Call) : World × Except Failure Unit :=
  match world.journal.seals.get? call.stage.name with
  | some incumbent =>
      if sameSeal runtime incumbent call.stage then (world, .ok ())
      else (world, .error .valueError)
  | none =>
      let journal := { world.journal with
        seals := world.journal.seals.set call.stage.name call.stage }
      if call.written then (⟨journal, some journal.flush, false⟩, .ok ())
      else (⟨journal, world.file, true⟩, .error .ioError)

/-- A call, or the start of a new process on the same file. -/
inductive Event where
  | call (call : Call)
  | reopen

def step (world : World) : Event → World
  | .call call => (sealStage runtime world call).1
  | .reopen =>
      match openJournal runtime world.journal.recipeConfig world.file false with
      | .ok reopened => reopened
      | .error _ => world

/-- Events one after the other, whatever becomes of each. -/
def run (world : World) (events : List Event) : World :=
  events.foldl (step runtime) world

end GlmFlash.Encoder.StageJournal
