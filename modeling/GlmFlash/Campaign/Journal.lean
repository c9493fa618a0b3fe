import GlmFlash.Library.Crash
import GlmFlash.Library.Outcome
import Mathlib.Data.List.DropRight

/-!
# The event journal

`EventJournal` of `campaign/runner.py`: events one a line, each sealed by the
hash of its body and chained to the one before.  The journal grows byte by
byte; a tail that has lost its newline is put aside and cut off by
`recover_torn_tail`.
-/

namespace GlmFlash.Campaign

open GlmFlash.Library

inductive Failure where
  | fileNotFound
  | valueError
  deriving DecidableEq, Repr

abbrev Bytes := List UInt8

def newline : UInt8 := 10

def journalSchema : String := "quant-pipeline.campaign-event.v1"

/-! ## Events -/

/-- The recovery event, or what another caller appends. -/
inductive Body (H P : Type) where
  | tailRecovered (planSha256 fragmentSha256 : H) (fragmentBytes : ℕ)
  | other (payload : P)
  deriving DecidableEq

/-- An event before `event_sha256` is added. -/
structure Unsealed (H P : Type) where
  schema : String
  eventIndex : ℕ
  timestamp : String
  previousEventSha256 : H
  body : Body H P
  deriving DecidableEq

structure Event (H P : Type) extends Unsealed H P where
  eventSha256 : H
  deriving DecidableEq

/-- JSON and SHA-256 as the journal uses them.  An event is dumped to one
line, and loading the line gives it back. -/
structure Format (H P : Type) where
  zeroHash : H
  sha256 : Bytes → H
  dumps : Event H P → Bytes
  dumpsUnsealed : Unsealed H P → Bytes
  loads : Bytes → Option (Event H P)
  loads_dumps : ∀ event, loads (dumps event) = some event
  dumps_line : ∀ event, ∃ text, dumps event = text ++ [newline] ∧
    newline ∉ text

variable {H P : Type} [DecidableEq H] (format : Format H P)

/-! ## Reading -/

/-- The lines of a file, each with its newline. -/
def splitLines : Bytes → List Bytes
  | [] => []
  | byte :: rest =>
      if byte = newline then [byte] :: splitLines rest
      else match splitLines rest with
        | [] => [[byte]]
        | line :: lines => (byte :: line) :: lines

def readLine (previous : H) (index : ℕ) (raw : Bytes) :
    Except Failure (Event H P) := do
  require (raw.getLast? = some newline) .valueError
  match format.loads raw with
  | none => .error .valueError
  | some event =>
      require (format.dumps event = raw) .valueError
      require (event.schema = journalSchema ∧ event.eventIndex = index)
        .valueError
      require (event.previousEventSha256 = previous) .valueError
      require (format.sha256 (format.dumpsUnsealed event.toUnsealed) =
        event.eventSha256) .valueError
      return event

def readLines (previous : H) (index : ℕ) :
    List Bytes → Except Failure (List (Event H P))
  | [] => return []
  | raw :: lines => do
      let event ← readLine format previous index raw
      let events ← readLines event.eventSha256 (index + 1) lines
      return event :: events

/-- `EventJournal.read`, of the file's bytes. -/
def read (data : Bytes) : Except Failure (List (Event H P)) := do
  let events ← readLines format format.zeroHash 0 (splitLines data)
  require (events ≠ []) .valueError
  return events

/-! ## The files -/

/-- The journal, the prefix under validation, and the quarantined fragments by
the hash in their names. -/
structure Disk (H : Type) where
  journal : Option Bytes
  recoveryPrefix : Option Bytes
  quarantine : H → Option Bytes

def appendJournal (disk : Disk H) (byte : UInt8) : Disk H :=
  { disk with journal := disk.journal.map (· ++ [byte]) }

def appendPrefix (disk : Disk H) (byte : UInt8) : Disk H :=
  { disk with recoveryPrefix := disk.recoveryPrefix.map (· ++ [byte]) }

def setQuarantine (name : H) (file : Bytes) (disk : Disk H) : Disk H :=
  { disk with quarantine := Function.update disk.quarantine name (some file) }

def appendQuarantine (name : H) (disk : Disk H) (byte : UInt8) : Disk H :=
  setQuarantine name ((disk.quarantine name).getD [] ++ [byte]) disk

/-! ## Appending -/

/-- The index and the hash that the next event refers to. -/
def lastEvent (disk : Disk H) : Except Failure (ℕ × H) :=
  match disk.journal with
  | none => return (0, format.zeroHash)
  | some data => do
      let events ← read format data
      return (events.length,
        (events.getLast?.map Event.eventSha256).getD format.zeroHash)

def sealEvent (position : ℕ × H) (timestamp : String) (body : Body H P) :
    Event H P :=
  let event : Unsealed H P := {
    schema := journalSchema
    eventIndex := position.1
    timestamp := timestamp
    previousEventSha256 := position.2
    body := body }
  { event with eventSha256 := format.sha256 (format.dumpsUnsealed event) }

/-- `EventJournal.append`: the file is opened, or made, and written. -/
def append {A : Type} (result : Event H P → A) (timestamp : String)
    (body : Body H P) : Program (Disk H) Failure A :=
  .look fun disk =>
    match lastEvent format disk with
    | .error failure => .done (.error failure)
    | .ok position =>
        let event := sealEvent format position timestamp body
        .act (fun disk => { disk with journal := some (disk.journal.getD []) })
          (.writeAll (fun byte disk => appendJournal disk byte)
            (format.dumps event) (.done (.ok (result event))))

/-! ## Recovery -/

/-- `data[:data.rfind(b"\n") + 1]` -/
def completePart (data : Bytes) : Bytes :=
  data.rdropWhile fun byte => decide (byte ≠ newline)

/-- `data[data.rfind(b"\n") + 1:]` -/
def tornPart (data : Bytes) : Bytes :=
  data.rtakeWhile fun byte => decide (byte ≠ newline)

/-- The end of `recover_torn_tail`: the fragment is cut off and the recovery
recorded. -/
def cutTail (planSha256 : H) (timestamp : String)
    (complete fragment : Bytes) :
    Program (Disk H) Failure (Option (Event H P)) :=
  .act (fun disk =>
      { disk with journal := disk.journal.map (·.take complete.length) })
    (append format some timestamp
      (.tailRecovered planSha256 (format.sha256 fragment) fragment.length))

/-- The middle of `recover_torn_tail`: the fragment is in quarantine, or is
put there. -/
def quarantineTail (planSha256 : H) (timestamp : String)
    (complete fragment : Bytes) :
    Program (Disk H) Failure (Option (Event H P)) :=
  .look fun disk =>
    match disk.quarantine (format.sha256 fragment) with
    | some file =>
        if format.sha256 file ≠ format.sha256 fragment then
          .done (.error .valueError)
        else cutTail format planSha256 timestamp complete fragment
    | none =>
        .act (setQuarantine (format.sha256 fragment) [])
          (.writeAll
            (fun byte disk =>
              appendQuarantine (format.sha256 fragment) disk byte)
            fragment (cutTail format planSha256 timestamp complete fragment))

/-- The first part: the complete prefix is read from a file of its own. -/
def validatePrefix (complete : Bytes)
    (next : Program (Disk H) Failure (Option (Event H P))) :
    Program (Disk H) Failure (Option (Event H P)) :=
  .act (fun disk => { disk with recoveryPrefix := some [] })
    (.writeAll (fun byte disk => appendPrefix disk byte) complete
      (.look fun disk =>
        let outcome := read format (disk.recoveryPrefix.getD [])
        .act (fun disk => { disk with recoveryPrefix := none })
          (match outcome with
          | .error failure => .done (.error failure)
          | .ok _ => next)))

def recoverTornTail (planSha256 : H) (timestamp : String) :
    Program (Disk H) Failure (Option (Event H P)) :=
  .look fun disk =>
    match disk.journal with
    | none => .done (.error .fileNotFound)
    | some data =>
        if data.getLast? = some newline then .done (.ok none)
        else
          let complete := completePart data
          let fragment := tornPart data
          if complete = [] ∨ fragment = [] then .done (.error .valueError)
          else validatePrefix format complete
            (quarantineTail format planSha256 timestamp complete fragment)

end GlmFlash.Campaign
