import GlmFlash.Library.JsonKeys
import GlmFlash.Library.RoundRobin
import Mathlib.Data.List.Dedup

/-!
# Sealed corpora

`windows.py` gives whole documents to the roles, cuts them into windows of
tokens, selects as many windows as each role asks for and seals the result.
Its verifier looks at a sealed corpus that was read from JSON.
-/

namespace GlmFlash.Calibration

open GlmFlash.Library

abbrev Bytes := List UInt8

inductive Failure where
  | valueError (message : String)
  | assertionError (message : String)
  | keyError
  | typeError
  | attributeError
  | encodeError
  deriving DecidableEq, Repr

inductive Role where
  | fit
  | conditionalFit
  | selection
  | confirmation
  | final
  deriving DecidableEq, Repr

def Role.name : Role → String
  | .fit => "fit"
  | .conditionalFit => "conditional_fit"
  | .selection => "selection"
  | .confirmation => "confirmation"
  | .final => "final"

def allRoles : List Role := [.fit, .conditionalFit, .selection, .confirmation, .final]

def legacyRoles : List Role := [.fit, .selection, .confirmation, .final]

/-- `json`, `hashlib`, `random`, and `int` and `==` of values that were read
from JSON. -/
structure Runtime where
  sha256 : Bytes → String
  sha256_ne : ∀ bytes, sha256 bytes ≠ ""
  /-- The digest as a number, which orders digests as their bytes do. -/
  digest : Bytes → ℕ
  /-- `json.dumps` of a value in the order of its fields, and a line feed. -/
  dump : Json → Except Failure Bytes
  loads : Bytes → Option Json
  loads_dump : ∀ value bytes, value.Written → value.uniqueKeys = true →
    dump value = .ok bytes → loads bytes = some value
  /-- `int` of a text or a number with a fraction. -/
  intOf : Json → Except Failure ℤ
  same : Json → Json → Bool
  same_text : ∀ left right, same (.text left) (.text right) = decide (left = right)

/-- The generators `random.Random(seed)`: the shuffle that a generator does
first, the one that it does next, and so on. -/
structure Shuffles (W : Type) where
  shuffle : ℤ → ℕ → List W → List W
  shuffle_perm : ∀ seed round windows, (shuffle seed round windows).Perm windows

variable (runtime : Runtime)

def refusal : Refused → Failure
  | .typeError => .typeError
  | .valueError => .valueError "Out of range float values are not JSON compliant"

def canonicalJson (value : PyValue) : Except Failure Bytes := do
  let written ← value.encode.mapError refusal
  runtime.dump written

/-! ## Documents -/

structure Document where
  id : String
  domain : String
  text : String
  deriving DecidableEq

/-- A line of the corpus: blank, no JSON, or a row with the fields it has. -/
inductive Line where
  | blank
  | malformed
  | row (id domain text : Option String)

/-- The loop of `read_documents`, at line `number`. -/
def readLines : ℕ → List Document → List Line → Except Failure (List Document)
  | _, documents, [] => .ok documents
  | number, documents, .blank :: lines => readLines (number + 1) documents lines
  | _, _, .malformed :: _ => .error (.valueError "JSONDecodeError")
  | number, documents, .row (some id) (some domain) (some text) :: lines => do
      require (id ∉ documents.map Document.id)
        (.valueError s!"duplicate document id '{id}'")
      readLines (number + 1) (documents ++ [⟨id, domain, text⟩]) lines
  | number, _, .row _ _ _ :: _ =>
      .error (.valueError s!"line {number}: expected id, domain, and text")

def readDocuments (lines : List Line) : Except Failure (List Document) :=
  readLines 1 [] lines

/-- `dict[key].append(value)` of a `defaultdict(list)`. -/
def append {V : Type} (groups : Dict String (List V)) (key : String) (value : V) :
    Dict String (List V) :=
  groups.set key ((groups.get? key).getD [] ++ [value])

def groupDocuments (documents : List Document) : Dict String (List Document) :=
  documents.foldl (fun groups document => append groups document.domain document) []

/-- `sorted(groups)` -/
def sortedKeys {V : Type} (groups : Dict String V) : List String :=
  groups.keys.insertionSort (· ≤ ·)

/-- The digest that orders the documents of a domain. -/
def documentKey (seed : ℤ) (domain : String) (document : Document) : ℕ :=
  runtime.digest (toString seed ++ "\x00" ++ domain ++ "\x00" ++ document.id).toUTF8.toList

def keyed (seed : ℤ) (domain : String) (rows : List Document) : List Document :=
  rows.insertionSort fun left right =>
    documentKey runtime seed domain left ≤ documentKey runtime seed domain right

/-- `ROLES[index % len(ROLES)]` -/
def roleAt (index : ℕ) : Role := allRoles.getD (index % allRoles.length) .fit

def assignRow (result : Role → List Document) (entry : Document × ℕ) :
    Role → List Document :=
  Function.update result (roleAt entry.2) (result (roleAt entry.2) ++ [entry.1])

def documentSplit (documents : List Document) (seed : ℤ) : Role → List Document :=
  let byDomain := groupDocuments documents
  (sortedKeys byDomain).foldl (fun result domain =>
    (keyed runtime seed domain ((byDomain.get? domain).getD [])).zipIdx.foldl assignRow
      result) fun _ => []

/-! ## Windows -/

structure Window where
  documentId : String
  domain : String
  offset : ℤ
  tokenIds : List ℤ
  tokenSha256 : String
  deriving DecidableEq

/-- `range(0, stop, step)` with a stop that is not negative. -/
def pyRange (stop : ℕ) (step : ℤ) : Except Failure (List ℤ) :=
  if step = 0 then .error (.valueError "range() arg 3 must not be zero")
  else if step < 0 then .ok []
  else .ok ((List.range ((stop + step.toNat - 1) / step.toNat)).map fun index : ℕ =>
    index * step)

def tokenSha256 (tokens : List ℤ) : Except Failure String := do
  let bytes ← canonicalJson runtime (.array (tokens.map .int))
  return runtime.sha256 bytes

/-- One round of the loop over the offsets of a document. -/
def addWindow (document : Document) (tokens : List ℤ) (windowTokens : ℤ)
    (byDomain : Dict String (List Window)) (offset : ℤ) :
    Except Failure (Dict String (List Window)) := do
  let window := (tokens.drop offset.toNat).take windowTokens.toNat
  if (window.length : ℤ) ≠ windowTokens then return byDomain
  else do
    let sha256 ← tokenSha256 runtime window
    return append byDomain document.domain
      ⟨document.id, document.domain, offset, window, sha256⟩

def addDocument (encode : String → List ℤ) (windowTokens : ℤ)
    (byDomain : Dict String (List Window)) (document : Document) :
    Except Failure (Dict String (List Window)) := do
  let tokens := encode document.text
  let offsets ← pyRange (max 0 ((tokens.length : ℤ) - windowTokens + 1)).toNat windowTokens
  offsets.foldlM (addWindow runtime document tokens windowTokens) byDomain

variable (shuffles : Shuffles Window)

/-- The generator shuffles the domains in the order in which they came up. -/
def shuffleDomains (seed : ℤ) (byDomain : Dict String (List Window)) :
    Dict String (List Window) :=
  byDomain.zipIdx.map fun entry =>
    (entry.1.1, shuffles.shuffle seed entry.2 entry.1.2)

def buildWindows (documents : List Document) (encode : String → List ℤ)
    (windowTokens limit seed : ℤ) : Except Failure (List Window) := do
  let byDomain ← documents.foldlM (addDocument runtime encode windowTokens) []
  let shuffled := shuffleDomains shuffles seed byDomain
  let domains := sortedKeys shuffled
  let candidates := fun domain => (shuffled.get? domain).getD []
  -- A negative limit is reached at once, as zero is.
  return RoundRobin.select limit.toNat domains
    ((domains.map fun domain => (candidates domain).length).sum + 1) [] candidates

/-! ## Sets -/

section

variable {A : Type} (same : A → A → Bool)

/-- `set(items)`, in the order in which the elements come up. -/
def distinct (items : List A) : List A :=
  items.foldl (fun found item => if found.any (same item) then found else found ++ [item]) []

def isSubset (left right : List A) : Bool := left.all fun item => right.any (same item)

/-- Some set has an element in common with a later one. -/
def anyOverlap : List (List A) → Bool
  | [] => false
  | first :: rest =>
      rest.any (fun other => first.any fun item => other.any (same item)) || anyOverlap rest

end

/-! ## Sealing -/

def Window.fields (window : Window) : Dict String Json := [
  ("document_id", .text window.documentId), ("domain", .text window.domain),
  ("offset", .int window.offset), ("token_ids", .array (window.tokenIds.map .int)),
  ("token_sha256", .text window.tokenSha256)]

def Window.json (window : Window) : Json := .object window.fields

def sealedSchema : String := "quant-pipeline.sealed-corpus.v2"

def legacySchema : String := "quant-pipeline.sealed-corpus.v1"

/-- A dictionary of the caller. -/
structure PyDict where
  fields : List (PyKey × PyValue)
  valid : (PyValue.object fields).Valid

structure SealedCorpus where
  seed : ℤ
  windowTokens : ℤ
  minimumDomains : ℤ
  tokenizer : PyDict
  sourcePath : String
  sourceSha256 : String
  windows : List (Role × List Window)

def SealedCorpus.roleCounts (corpus : SealedCorpus) : Dict String Json :=
  corpus.windows.map fun entry => (entry.1.name, .int entry.2.length)

def SealedCorpus.roleWindows (corpus : SealedCorpus) : Dict String Json :=
  corpus.windows.map fun entry => (entry.1.name, .array (entry.2.map Window.json))

def SealedCorpus.body (corpus : SealedCorpus) : Dict String PyValue := [
  ("schema", .text sealedSchema), ("seed", .int corpus.seed),
  ("window_tokens", .int corpus.windowTokens),
  ("minimum_domains", .int corpus.minimumDomains),
  ("tokenizer", .object corpus.tokenizer.fields),
  ("source", .texts [("path", .text corpus.sourcePath), ("sha256", .text corpus.sourceSha256)]),
  ("role_counts", .ofJson (.object corpus.roleCounts)),
  ("windows", .ofJson (.object corpus.roleWindows))]

def SealedCorpus.artifact (corpus : SealedCorpus) (sealSha256 : String) :
    Dict String PyValue :=
  corpus.body ++ [("seal_sha256", .text sealSha256)]

structure CorpusSource where
  path : String
  sha256 : String
  lines : List Line

def sameString (left right : String) : Bool := left = right

def checkRole (roleLimits : Dict String ℤ) (minimumDomains : ℤ)
    (entry : Role × List Window) : Except Failure Unit := do
  let limit := (roleLimits.get? entry.1.name).getD 0
  require ((entry.2.length : ℤ) = limit) (.valueError
    s!"insufficient full windows for {entry.1.name}: {entry.2.length}/{limit}")
  let domains := distinct sameString (entry.2.map Window.domain)
  require (minimumDomains ≤ domains.length) (.valueError
    s!"insufficient domain coverage for {entry.1.name}: {domains.length}/{minimumDomains}")

/-- `seal_corpus`: the artifact that is returned, and the file. -/
def sealCorpus (source : CorpusSource) (encode : String → List ℤ) (windowTokens : ℤ)
    (roleLimits : Dict String ℤ) (seed : ℤ) (tokenizer : PyDict) (minimumDomains : ℤ) :
    Except Failure (SealedCorpus × Dict String PyValue × Bytes) := do
  require (isSubset sameString roleLimits.keys (allRoles.map Role.name) ∧
      isSubset sameString (allRoles.map Role.name) roleLimits.keys)
    (.valueError ("role limits must be exactly ('fit', 'conditional_fit', " ++
      "'selection', 'confirmation', 'final')"))
  let documents ← readDocuments source.lines
  let split := documentSplit runtime documents seed
  let windows ← allRoles.zipIdx.mapM fun entry => do
    let windows ← buildWindows runtime shuffles (split entry.1) encode windowTokens
      ((roleLimits.get? entry.1.name).getD 0) (seed + entry.2)
    return (entry.1, windows)
  windows.forM (checkRole roleLimits minimumDomains)
  let ids := windows.map fun entry => distinct sameString (entry.2.map Window.documentId)
  require (anyOverlap sameString ids = false)
    (.assertionError "document leakage across corpus roles")
  let corpus : SealedCorpus :=
    ⟨seed, windowTokens, minimumDomains, tokenizer, source.path, source.sha256, windows⟩
  let bodyBytes ← canonicalJson runtime (.texts corpus.body)
  let artifact := corpus.artifact (runtime.sha256 bodyBytes)
  let file ← canonicalJson runtime (.texts artifact)
  return (corpus, artifact, file)

/-! ## Verifying -/

/-- `value[key]` with a text for key. -/
def item (value : Json) (key : String) : Except Failure Json :=
  match value with
  | .object fields =>
      match Dict.get? fields key with
      | some found => .ok found
      | none => .error .keyError
  | _ => .error .typeError

/-- `iter(value)` -/
def iterate : Json → Except Failure (List Json)
  | .array items => .ok items
  | .text text => .ok (text.toList.map fun char => .text (String.ofList [char]))
  | .object fields => .ok ((Dict.keys fields).map .text)
  | _ => .error .typeError

/-- A value that can be in a set. -/
def element : Json → Except Failure Json
  | .array _ => .error .typeError
  | .object _ => .error .typeError
  | value => .ok value

def intValue : Json → Except Failure ℤ
  | .int value => .ok value
  | .bool value => .ok (if value then 1 else 0)
  | .text text => runtime.intOf (.text text)
  | .real written => runtime.intOf (.real written)
  | _ => .error .typeError

/-- The document of a window, if its tokens have their digest. -/
def verifyWindow (role : Role) (window : Json) : Except Failure Json := do
  let rawTokens ← item window "token_ids"
  let tokenItems ← iterate rawTokens
  let tokens ← tokenItems.mapM (intValue runtime)
  let sha256 ← tokenSha256 runtime tokens
  let found := match window with
    | .object fields => (Dict.get? fields "token_sha256").getD .null
    | _ => .null
  require (runtime.same (.text sha256) found)
    (.valueError s!"sealed corpus token hash mismatch for {role.name}")
  let document ← item window "document_id"
  element document

/-- The documents of a role. -/
def verifyRole (minimumDomains : ℤ) (windows roleCounts : Json) (role : Role) :
    Except Failure (List Json) := do
  let rawRows ← item windows role.name
  let rawCount ← match roleCounts with
    | .object fields => .ok ((Dict.get? fields role.name).getD (.int (-1)))
    | _ => .error .attributeError
  let count ← intValue runtime rawCount
  let rows ← iterate rawRows
  require (count = rows.length ∧ rows.length ≠ 0)
    (.valueError s!"sealed corpus count mismatch for {role.name}")
  let domains ← rows.mapM fun row => item row "domain" >>= element
  require (minimumDomains ≤ (distinct runtime.same domains).length)
    (.valueError s!"sealed corpus domain coverage mismatch for {role.name}")
  let documents ← rows.mapM (verifyWindow runtime role)
  return distinct runtime.same documents

/-- The text that a field holds, if it holds one. -/
def textField (value : Dict String Json) (key : String) : Option String :=
  match value.get? key with
  | some (.text text) => some text
  | _ => none

def verifySealedCorpus (value : Dict String Json) : Except Failure Unit := do
  let body := value.filter fun field => field.1 ≠ "seal_sha256"
  match textField value "seal_sha256" with
  | none => .error (.valueError "sealed corpus body hash mismatch")
  | some expectedSeal => do
      let bytes ← canonicalJson runtime (.ofJson (.object body))
      require (expectedSeal ≠ "" ∧ runtime.sha256 bytes = expectedSeal)
        (.valueError "sealed corpus body hash mismatch")
      let schema ← element ((value.get? "schema").getD .null)
      let roles := if runtime.same schema (.text sealedSchema) then allRoles else legacyRoles
      require (runtime.same schema (.text legacySchema) ∨
          runtime.same schema (.text sealedSchema))
        (.valueError "unsupported sealed corpus schema")
      let names ← iterate ((value.get? "windows").getD (.object []))
      let found ← names.mapM element
      let expected := roles.map fun role => Json.text role.name
      require (isSubset runtime.same found expected ∧ isSubset runtime.same expected found)
        (.valueError "sealed corpus roles are incomplete")
      let minimumDomains ← intValue runtime ((value.get? "minimum_domains").getD (.int 1))
      let roleCounts := (value.get? "role_counts").getD (.object [])
      let windows ← item (.object value) "windows"
      let documentSets ← roles.mapM (verifyRole runtime minimumDomains windows roleCounts)
      require (anyOverlap runtime.same documentSets = false)
        (.valueError "sealed corpus document leakage across roles")

end GlmFlash.Calibration
