import GlmFlash.Campaign.JournalLines
import GlmFlash.Library.Runs

/-!
# Recovery of a torn tail

Wherever an append or a recovery stops, the journal is a chain of events and a
fragment, and every recorded fragment is in quarantine.  The next recovery
goes through when the fragment's own file in quarantine is missing or whole; a
file that was left half written stops all later recoveries.
-/

namespace GlmFlash.Campaign

open GlmFlash.Library Program

variable {H P : Type} [DecidableEq H] {format : Format H P}
  {disk next : Disk H} {events : List (Event H P)} {event : Event H P}
  {fragment file : Bytes} {timestamp : String} {planSha256 : H}
  {body : Body H P} {count : ℕ}

/-- The fragment that an event records is in quarantine, with the recorded
hash and length. -/
def Recorded (format : Format H P) (disk : Disk H) (event : Event H P) : Prop :=
  ∀ planSha256 fragmentSha256 fragmentBytes,
    event.body = .tailRecovered planSha256 fragmentSha256 fragmentBytes →
      ∃ file, disk.quarantine fragmentSha256 = some file ∧
        format.sha256 file = fragmentSha256 ∧ file.length = fragmentBytes

/-- A chain of events and a fragment, with all recorded fragments kept. -/
structure Journaled (format : Format H P) (disk : Disk H)
    (events : List (Event H P)) (fragment : Bytes) : Prop where
  journal : disk.journal = some (dumpAll format events ++ fragment)
  fragment_line : newline ∉ fragment
  events_ne_nil : events ≠ []
  chained : Chained format format.zeroHash 0 events
  recorded : ∀ event ∈ events, Recorded format disk event

omit [DecidableEq H] in
/-- Only the journal and the quarantined files matter, and those may grow. -/
theorem Journaled.mono (hjournaled : Journaled format disk events fragment)
    (hjournal : next.journal = disk.journal)
    (hquarantine : ∀ name file, disk.quarantine name = some file →
      next.quarantine name = some file) :
    Journaled format next events fragment := by
  refine ⟨hjournal.trans hjournaled.journal, hjournaled.fragment_line,
    hjournaled.events_ne_nil, hjournaled.chained, ?_⟩
  intro event hmem planSha256 name bytes hbody
  obtain ⟨file, hfile, hhash⟩ :=
    hjournaled.recorded event hmem planSha256 name bytes hbody
  exact ⟨file, hquarantine name file hfile, hhash⟩

/-- A complete journal is one that `read` accepts. -/
theorem Journaled.read_eq_ok (hjournaled : Journaled format disk events []) :
    ∃ data, disk.journal = some data ∧ read format data = .ok events := by
  refine ⟨_, hjournaled.journal, Campaign.read_eq_ok.mpr
    ⟨hjournaled.events_ne_nil, ?_, hjournaled.chained⟩⟩
  rw [List.append_nil]

/-- `read` refuses a journal with a torn tail. -/
theorem Journaled.read_error (hjournaled : Journaled format disk events fragment)
    (htorn : fragment ≠ []) {data : Bytes} (hdata : disk.journal = some data) :
    ∃ failure, read format data = .error failure := by
  cases hread : read format data with
  | error failure => exact ⟨failure, rfl⟩
  | ok found =>
      obtain ⟨hsome, heq, -⟩ := Campaign.read_eq_ok.mp hread
      have hsame : dumpAll format events ++ fragment = data :=
        Option.some.inj (hjournaled.journal.symm.trans hdata)
      have hlast := @getLast?_dumpAll _ _ format _ hsome
      rw [← heq, ← hsame, getLast?_append_fragment hjournaled.events_ne_nil
        hjournaled.fragment_line] at hlast
      exact absurd hlast htorn

/-! ## Appending -/

/-- The event that `append` writes. -/
def nextEvent (format : Format H P) (events : List (Event H P))
    (timestamp : String) (body : Body H P) : Event H P :=
  sealEvent format (events.length, lastHash format events) timestamp body

/-- The disk with some bytes more in the journal. -/
def Disk.write (disk : Disk H) (bytes : Bytes) : Disk H :=
  { disk with journal := disk.journal.map (· ++ bytes) }

omit [DecidableEq H] in
theorem foldl_appendJournal (bytes : Bytes) :
    bytes.foldl (fun disk byte => appendJournal disk byte) disk =
      disk.write bytes := by
  induction bytes generalizing disk with
  | nil =>
      rw [Disk.write]
      cases hjournal : disk.journal with
      | none => rw [List.foldl_nil, Option.map_none, ← hjournal]
      | some data =>
          rw [List.foldl_nil, Option.map_some, List.append_nil, ← hjournal]
  | cons byte bytes ih =>
      rw [List.foldl_cons, ih, Disk.write, Disk.write, appendJournal,
        Option.map_map]
      congr 2
      funext data
      rw [Function.comp_apply, List.append_assoc, List.singleton_append]

theorem Journaled.lastEvent (hjournaled : Journaled format disk events []) :
    lastEvent format disk = .ok (events.length, lastHash format events) := by
  obtain ⟨data, hdata, hread⟩ := hjournaled.read_eq_ok
  rw [Campaign.lastEvent, hdata]
  simp only [bind_eq_ok, hread, pure_eq_ok]
  exact ⟨events, rfl, rfl⟩

theorem Journaled.append_eq {A : Type} {result : Event H P → A}
    (hjournaled : Journaled format disk events []) :
    ∃ next : Disk H → Program (Disk H) Failure A,
      append format result timestamp body = .look next ∧
      next disk = .act (fun disk =>
          { disk with journal := some (disk.journal.getD []) })
        (.writeAll (fun byte disk => appendJournal disk byte)
          (format.dumps (nextEvent format events timestamp body))
          (.done (.ok (result (nextEvent format events timestamp body))))) := by
  refine ⟨_, rfl, ?_⟩
  dsimp only
  rw [hjournaled.lastEvent]
  rfl

omit [DecidableEq H] in
theorem Journaled.open_eq (hjournaled : Journaled format disk events fragment) :
    { disk with journal := some (disk.journal.getD []) } = disk := by
  rw [hjournaled.journal, Option.getD_some, ← hjournaled.journal]

omit [DecidableEq H] in
theorem Journaled.write_journal (hjournaled : Journaled format disk events [])
    (bytes : Bytes) :
    (disk.write bytes).journal = some (dumpAll format events ++ bytes) := by
  rw [Disk.write, hjournaled.journal, Option.map_some, List.append_nil]

omit [DecidableEq H] in
theorem Journaled.write_fragment (hjournaled : Journaled format disk events [])
    (hfragment : newline ∉ fragment) :
    Journaled format (disk.write fragment) events fragment :=
  ⟨hjournaled.write_journal fragment, hfragment, hjournaled.events_ne_nil,
    hjournaled.chained, hjournaled.recorded⟩

omit [DecidableEq H] in
/-- The next line is an event more. -/
theorem Journaled.write_dumps (hjournaled : Journaled format disk events [])
    (hrecorded : Recorded format disk
      (nextEvent format events timestamp body)) :
    Journaled format
      (disk.write (format.dumps (nextEvent format events timestamp body)))
      (events ++ [nextEvent format events timestamp body]) [] := by
  refine ⟨?_, List.not_mem_nil,
    List.append_ne_nil_of_right_ne_nil _ (List.cons_ne_nil _ _), ?_, ?_⟩
  · rw [hjournaled.write_journal, dumpAll_snoc, List.append_nil]
  · rw [chained_snoc, Nat.zero_add]
    exact ⟨hjournaled.chained, sealEvent_sealed
      (events.length, lastHash format events) timestamp body⟩
  · intro event hmem
    rcases List.mem_append.mp hmem with hbefore | hlast
    · exact hjournaled.recorded event hbefore
    · rw [List.mem_singleton.mp hlast]
      exact hrecorded

omit [DecidableEq H] in
/-- A part of the next line is a fragment. -/
theorem Journaled.write_take (hjournaled : Journaled format disk events [])
    (hrecorded : Recorded format disk (nextEvent format events timestamp body))
    (count : ℕ) :
    (∃ fragment, Journaled format (disk.write
        ((format.dumps (nextEvent format events timestamp body)).take count))
      events fragment) ∨
    Journaled format (disk.write
        ((format.dumps (nextEvent format events timestamp body)).take count))
      (events ++ [nextEvent format events timestamp body]) [] := by
  obtain ⟨text, hline, htext⟩ :=
    format.dumps_line (nextEvent format events timestamp body)
  by_cases hle : count ≤ text.length
  · left
    rw [hline, List.take_append_of_le_length hle]
    exact ⟨text.take count, hjournaled.write_fragment fun hmem =>
      htext (List.mem_of_mem_take hmem)⟩
  · right
    rw [List.take_of_length_le]
    · exact hjournaled.write_dumps hrecorded
    · rw [hline, List.length_append, List.length_singleton]
      exact Nat.lt_of_not_le hle

/-- The journal holds the old events, and perhaps the new one. -/
def Grown (format : Format H P) (events : List (Event H P))
    (event : Event H P) (disk : Disk H) : Prop :=
  (∃ fragment, Journaled format disk events fragment) ∨
    Journaled format disk (events ++ [event]) []

theorem append_always {A : Type} {result : Event H P → A}
    (hjournaled : Journaled format disk events [])
    (hrecorded : Recorded format disk (nextEvent format events timestamp body)) :
    Always (Grown format events (nextEvent format events timestamp body))
      (append format result timestamp body) disk := by
  obtain ⟨next, hlook, hnext⟩ := @Journaled.append_eq _ _ _ _ _ _ timestamp body
    _ result hjournaled
  rw [hlook]
  refine always_look ?_
  rw [hnext]
  refine always_act (.inl ⟨[], hjournaled⟩) ?_
  rw [hjournaled.open_eq]
  refine always_writeAll ?_ ?_
  · intro count _
    rw [foldl_appendJournal]
    exact hjournaled.write_take hrecorded count
  · refine always_done ?_
    rw [foldl_appendJournal]
    exact .inr (hjournaled.write_dumps hrecorded)

theorem append_finish {A : Type} {result : Event H P → A}
    (hjournaled : Journaled format disk events []) :
    (append format result timestamp body).finish disk =
      (.ok (result (nextEvent format events timestamp body)),
        disk.write
          (format.dumps (nextEvent format events timestamp body))) := by
  obtain ⟨next, hlook, hnext⟩ := @Journaled.append_eq _ _ _ _ _ _ timestamp body
    _ result hjournaled
  rw [hlook, finish, hnext, finish, hjournaled.open_eq, finish_writeAll,
    foldl_appendJournal]
  rfl

/-- With a torn tail `append` fails before it writes. -/
theorem append_torn {A : Type} {result : Event H P → A}
    (hjournaled : Journaled format disk events fragment)
    (htorn : fragment ≠ []) :
    (append format result timestamp body).stop count disk = disk := by
  obtain ⟨failure, hread⟩ := hjournaled.read_error htorn hjournaled.journal
  have hlast : lastEvent format disk = .error failure := by
    simp only [lastEvent, hjournaled.journal, bind_eq_error, hread, true_or]
  rw [append, stop, hlast]
  rfl

/-! ## The end of the recovery -/

/-- The fragment's file holds the fragment, as far as its hash and length
tell. -/
def Quarantined (format : Format H P) (disk : Disk H) (fragment : Bytes) :
    Prop :=
  ∃ file, disk.quarantine (format.sha256 fragment) = some file ∧
    format.sha256 file = format.sha256 fragment ∧
    file.length = fragment.length

/-- The event that a recovery of the fragment appends. -/
def recoveryEvent (format : Format H P) (events : List (Event H P))
    (planSha256 : H) (timestamp : String) (fragment : Bytes) : Event H P :=
  nextEvent format events timestamp
    (.tailRecovered planSha256 (format.sha256 fragment) fragment.length)

omit [DecidableEq H] in
theorem recorded_recoveryEvent :
    Recorded format disk
        (recoveryEvent format events planSha256 timestamp fragment) ↔
      Quarantined format disk fragment := by
  constructor
  · intro hrecorded
    exact hrecorded _ _ _ rfl
  · intro hquarantined plan name bytes hbody
    cases hbody
    exact hquarantined

/-- The disk after the fragment is cut off. -/
def Disk.cut (disk : Disk H) (complete : Bytes) : Disk H :=
  { disk with journal := disk.journal.map (·.take complete.length) }

omit [DecidableEq H] in
theorem Journaled.cut (hjournaled : Journaled format disk events fragment) :
    Journaled format (disk.cut (dumpAll format events)) events [] := by
  refine ⟨?_, List.not_mem_nil, hjournaled.events_ne_nil, hjournaled.chained,
    hjournaled.recorded⟩
  rw [Disk.cut, hjournaled.journal, Option.map_some, List.take_left',
    List.append_nil]
  rfl

theorem cutTail_always (hjournaled : Journaled format disk events fragment)
    (hquarantined : Quarantined format disk fragment) :
    Always (Grown format events
        (recoveryEvent format events planSha256 timestamp fragment))
      (cutTail format planSha256 timestamp (dumpAll format events) fragment)
      disk := by
  refine always_act (.inl ⟨fragment, hjournaled⟩) ?_
  exact append_always hjournaled.cut (recorded_recoveryEvent.mpr hquarantined)

theorem cutTail_finish (hjournaled : Journaled format disk events fragment) :
    (cutTail format planSha256 timestamp (dumpAll format events)
        fragment).finish disk =
      (.ok (some (recoveryEvent format events planSha256 timestamp fragment)),
        (disk.cut (dumpAll format events)).write (format.dumps
          (recoveryEvent format events planSha256 timestamp fragment))) := by
  rw [cutTail, finish]
  exact append_finish hjournaled.cut

/-! ## The quarantine -/

/-- The disk with a file in quarantine. -/
theorem foldl_appendQuarantine (name : H) (written bytes : Bytes) :
    bytes.foldl (fun disk byte => appendQuarantine name disk byte)
        (setQuarantine name written disk) =
      setQuarantine name (written ++ bytes) disk := by
  induction bytes generalizing written with
  | nil => rw [List.foldl_nil, List.append_nil]
  | cons byte bytes ih =>
      have hstep : appendQuarantine name (setQuarantine name written disk) byte =
          setQuarantine name (written ++ [byte]) disk := by
        simp only [appendQuarantine, setQuarantine, Function.update_self,
          Option.getD_some, Function.update_idem]
      rw [List.foldl_cons, hstep, ih, List.append_assoc, List.singleton_append]

/-- A new file in quarantine keeps the others. -/
theorem Journaled.setQuarantine
    (hjournaled : Journaled format disk events fragment) {name : H}
    (hnone : disk.quarantine name = none) :
    Journaled format (setQuarantine name file disk) events fragment := by
  have hjournal : (Campaign.setQuarantine name file disk).journal =
      disk.journal := rfl
  refine hjournaled.mono hjournal ?_
  intro other kept hkept
  have hne : other ≠ name := by
    rintro rfl
    rw [hnone] at hkept
    cases hkept
  exact (Function.update_of_ne hne _ _).trans hkept

theorem quarantined_setQuarantine :
    Quarantined format (setQuarantine (format.sha256 fragment) fragment disk)
      fragment :=
  ⟨fragment, Function.update_self _ _ _, rfl, rfl⟩

/-- A file of the same hash has the fragment's length. -/
def Distinct (format : Format H P) (disk : Disk H) (fragment : Bytes) : Prop :=
  ∀ file, disk.quarantine (format.sha256 fragment) = some file →
    format.sha256 file = format.sha256 fragment →
      file.length = fragment.length

theorem quarantineTail_always
    (hjournaled : Journaled format disk events fragment)
    (hdistinct : Distinct format disk fragment) :
    Always (Grown format events
        (recoveryEvent format events planSha256 timestamp fragment))
      (quarantineTail format planSha256 timestamp (dumpAll format events)
        fragment) disk := by
  refine always_look ?_
  split
  · rename_i file hfile
    split
    · exact always_done (.inl ⟨fragment, hjournaled⟩)
    · rename_i hhash
      rw [not_not] at hhash
      exact cutTail_always hjournaled
        ⟨file, hfile, hhash, hdistinct file hfile hhash⟩
  · rename_i hnone
    refine always_act (.inl ⟨fragment, hjournaled⟩) ?_
    refine always_writeAll ?_ ?_
    · intro count _
      rw [foldl_appendQuarantine]
      exact .inl ⟨fragment, hjournaled.setQuarantine hnone⟩
    · rw [foldl_appendQuarantine, List.nil_append]
      exact cutTail_always (hjournaled.setQuarantine hnone)
        quarantined_setQuarantine

/-! ## The whole recovery -/

/-- The disk while the complete prefix is validated. -/
def Disk.withPrefix (disk : Disk H) (recoveryPrefix : Option Bytes) : Disk H :=
  { disk with recoveryPrefix := recoveryPrefix }

omit [DecidableEq H] in
theorem foldl_appendPrefix (written bytes : Bytes) :
    bytes.foldl (fun disk byte => appendPrefix disk byte)
        (disk.withPrefix (some written)) =
      disk.withPrefix (some (written ++ bytes)) := by
  induction bytes generalizing written with
  | nil => rw [List.foldl_nil, List.append_nil]
  | cons byte bytes ih =>
      have hstep : appendPrefix (disk.withPrefix (some written)) byte =
          disk.withPrefix (some (written ++ [byte])) := rfl
      rw [List.foldl_cons, hstep, ih, List.append_assoc, List.singleton_append]

omit [DecidableEq H] in
theorem Journaled.withPrefix (hjournaled : Journaled format disk events fragment)
    (recoveryPrefix : Option Bytes) :
    Journaled format (disk.withPrefix recoveryPrefix) events fragment :=
  hjournaled.mono rfl fun _ _ => id

theorem Journaled.read_complete
    (hjournaled : Journaled format disk events fragment) :
    read format (dumpAll format events) = .ok events :=
  Campaign.read_eq_ok.mpr
    ⟨hjournaled.events_ne_nil, rfl, hjournaled.chained⟩

/-- The validation of a journal's complete part succeeds. -/
theorem validatePrefix_finish
    (hjournaled : Journaled format disk events fragment)
    {rest : Program (Disk H) Failure (Option (Event H P))} :
    (validatePrefix format (dumpAll format events) rest).finish disk =
      rest.finish (disk.withPrefix none) := by
  have hstart : ({ disk with recoveryPrefix := some [] } : Disk H) =
      disk.withPrefix (some []) := rfl
  rw [validatePrefix, finish, hstart, finish_writeAll, foldl_appendPrefix, finish,
    List.nil_append, Disk.withPrefix, Option.getD_some,
    hjournaled.read_complete, finish]
  rfl

/-- The effects of a validation: the prefix file is made, written and
removed. -/
theorem validatePrefix_stop_add
    (hjournaled : Journaled format disk events fragment)
    {rest : Program (Disk H) Failure (Option (Event H P))} (more : ℕ) :
    (validatePrefix format (dumpAll format events) rest).stop
        ((dumpAll format events).length + 2 + more) disk =
      rest.stop more (disk.withPrefix none) := by
  have hstart : ({ disk with recoveryPrefix := some [] } : Disk H) =
      disk.withPrefix (some []) := rfl
  have hcount : (dumpAll format events).length + 2 + more =
      (dumpAll format events).length + (more + 1) + 1 := by omega
  rw [hcount, validatePrefix, stop, hstart, stop_writeAll_add,
    foldl_appendPrefix, stop, List.nil_append, Disk.withPrefix,
    Option.getD_some, hjournaled.read_complete]
  rfl

/-- A validation that stops has only touched the prefix file. -/
theorem validatePrefix_stop
    {rest : Program (Disk H) Failure (Option (Event H P))} (count : ℕ) :
    (∃ recoveryPrefix,
        (validatePrefix format (dumpAll format events) rest).stop count disk =
          disk.withPrefix recoveryPrefix) ∨
      ∃ more, count = (dumpAll format events).length + 2 + more := by
  have hstart : ({ disk with recoveryPrefix := some [] } : Disk H) =
      disk.withPrefix (some []) := rfl
  cases count with
  | zero => exact .inl ⟨disk.recoveryPrefix, stop_zero⟩
  | succ count =>
      by_cases hle : count ≤ (dumpAll format events).length
      · left
        rw [validatePrefix, stop, hstart, stop_writeAll_of_le hle,
          foldl_appendPrefix]
        exact ⟨_, rfl⟩
      · right
        exact Nat.exists_eq_add_of_le (Nat.succ_lt_succ (Nat.lt_of_not_le hle))

theorem recoverTornTail_eq (hjournaled : Journaled format disk events fragment)
    (htorn : fragment ≠ []) :
    ∃ next : Disk H → Program (Disk H) Failure (Option (Event H P)),
      recoverTornTail format planSha256 timestamp = .look next ∧
      next disk = validatePrefix format (dumpAll format events)
        (quarantineTail format planSha256 timestamp (dumpAll format events)
          fragment) := by
  refine ⟨_, rfl, ?_⟩
  dsimp only
  have hlast : (dumpAll format events ++ fragment).getLast? ≠ some newline := by
    rw [Ne, getLast?_append_fragment hjournaled.events_ne_nil
      hjournaled.fragment_line]
    exact htorn
  have hcomplete := @completePart_append _ _ format _ _
    hjournaled.events_ne_nil hjournaled.fragment_line
  have hfragment := @tornPart_append _ _ format _ _
    hjournaled.events_ne_nil hjournaled.fragment_line
  have hnonempty : ¬(dumpAll format events = [] ∨ fragment = []) := by
    rintro (hnil | hnil)
    · have hlast := @getLast?_dumpAll _ _ format _ hjournaled.events_ne_nil
      rw [hnil] at hlast
      cases hlast
    · exact htorn hnil
  rw [hjournaled.journal]
  dsimp only
  rw [if_neg hlast, hcomplete, hfragment, if_neg hnonempty]

/-- Without a torn tail there is nothing to do. -/
theorem recoverTornTail_whole (hjournaled : Journaled format disk events []) :
    ∃ next : Disk H → Program (Disk H) Failure (Option (Event H P)),
      recoverTornTail format planSha256 timestamp = .look next ∧
      next disk = .done (.ok none) := by
  refine ⟨_, rfl, ?_⟩
  dsimp only
  rw [hjournaled.journal]
  dsimp only
  rw [if_pos ((getLast?_append_fragment hjournaled.events_ne_nil
    List.not_mem_nil).mpr rfl)]

theorem recoverTornTail_always
    (hjournaled : Journaled format disk events fragment)
    (hdistinct : Distinct format disk fragment) :
    Always (Grown format events
        (recoveryEvent format events planSha256 timestamp fragment))
      (recoverTornTail format planSha256 timestamp) disk := by
  by_cases htorn : fragment = []
  · subst htorn
    obtain ⟨next, hlook, hnext⟩ := @recoverTornTail_whole _ _ _ _ _ _ timestamp
      planSha256 hjournaled
    rw [hlook]
    refine always_look ?_
    rw [hnext]
    exact always_done (.inl ⟨[], hjournaled⟩)
  · obtain ⟨next, hlook, hnext⟩ := @recoverTornTail_eq _ _ _ _ _ _ _ timestamp
      planSha256 hjournaled htorn
    rw [hlook]
    refine always_look ?_
    rw [hnext]
    intro count
    rcases @validatePrefix_stop _ _ _ format disk events
      (quarantineTail format planSha256 timestamp (dumpAll format events)
        fragment) count with ⟨recoveryPrefix, hstop⟩ | ⟨more, rfl⟩
    · rw [hstop]
      exact .inl ⟨fragment, hjournaled.withPrefix recoveryPrefix⟩
    · rw [validatePrefix_stop_add hjournaled]
      exact quarantineTail_always (hjournaled.withPrefix none) hdistinct more

end GlmFlash.Campaign
