import GlmFlash.Campaign.TailRecovery
import Mathlib.Logic.Equiv.List

/-!
# Runs with crashes

A run is a sequence of appends and recoveries, each of which may stop after
any number of its effects.  The next recovery that runs to its end succeeds
exactly when the file of the torn fragment is not half written, and it is not
when no recovery stopped inside its quarantine write.
-/

namespace GlmFlash.Campaign

open GlmFlash.Library Program

variable {H P : Type} [DecidableEq H] {format : Format H P}
  {disk next final : Disk H} {events : List (Event H P)}
  {fragment : Bytes} {timestamp : String} {planSha256 : H}
  {count : ℕ}

/-- An operation, and the number of effects after which it stops. -/
inductive Operation (H P : Type) where
  | append (timestamp : String) (payload : P) (count : ℕ)
  | recover (planSha256 : H) (timestamp : String) (count : ℕ)

def step (format : Format H P) (disk : Disk H) :
    Operation H P → Except Failure (Disk H)
  | .append timestamp payload count =>
      .ok ((append format id timestamp (.other payload)).stop count disk)
  | .recover planSha256 timestamp count =>
      .ok ((recoverTornTail format planSha256 timestamp).stop count disk)

/-- A recovery that runs to its end succeeds, its journal is accepted and
holds the complete events and recovery events only, and all recorded fragments
are in quarantine. -/
def Recovers (format : Format H P) (disk : Disk H) (events : List (Event H P))
    (planSha256 : H) (timestamp : String) : Prop :=
  ∃ result next data added,
    (recoverTornTail format planSha256 timestamp).finish disk =
        (.ok result, next) ∧
      next.journal = some data ∧ read format data = .ok (events ++ added) ∧
      (∀ event ∈ added, ∃ planSha256 fragmentSha256 fragmentBytes,
        event.body =
          .tailRecovered planSha256 fragmentSha256 fragmentBytes) ∧
      ∀ event ∈ events ++ added, Recorded format next event

/-- The file of the torn fragment is missing, or whole. -/
def Recoverable (format : Format H P) (disk : Disk H) (fragment : Bytes) :
    Prop :=
  fragment ≠ [] → disk.quarantine (format.sha256 fragment) = none ∨
    Quarantined format disk fragment

omit [DecidableEq H] in
theorem distinct_of_injective (hsha : Function.Injective format.sha256) :
    Distinct format disk fragment := by
  intro file _ hhash
  rw [hsha hhash]

/-! ## One recovery that runs to its end -/

omit [DecidableEq H] in
theorem cutTail_journaled
    (hjournaled : Journaled format disk events fragment)
    (hquarantined : Quarantined format disk fragment) :
    Journaled format ((disk.cut (dumpAll format events)).write (format.dumps
        (recoveryEvent format events planSha256 timestamp fragment)))
      (events ++ [recoveryEvent format events planSha256 timestamp fragment])
      [] := by
  have hrecorded : Recorded format (disk.cut (dumpAll format events))
      (recoveryEvent format events planSha256 timestamp fragment) :=
    recorded_recoveryEvent.mpr hquarantined
  exact hjournaled.cut.write_dumps hrecorded

/-- The recovery of a torn tail whose file is missing or whole. -/
theorem recoverTornTail_finish
    (hjournaled : Journaled format disk events fragment)
    (htorn : fragment ≠ [])
    (hrecoverable : disk.quarantine (format.sha256 fragment) = none ∨
      Quarantined format disk fragment) :
    ∃ next, (recoverTornTail format planSha256 timestamp).finish disk =
        (.ok (some
          (recoveryEvent format events planSha256 timestamp fragment)), next) ∧
      Journaled format next
        (events ++ [recoveryEvent format events planSha256 timestamp fragment])
        [] := by
  obtain ⟨next, hlook, hnext⟩ := @recoverTornTail_eq _ _ _ _ _ _ _ timestamp
    planSha256 hjournaled htorn
  have hvalidated := hjournaled.withPrefix none
  rw [hlook, finish, hnext, validatePrefix_finish hjournaled, quarantineTail,
    finish]
  rcases hrecoverable with hnone | ⟨file, hfile, hhash, hlength⟩
  · have hnone' : (disk.withPrefix none).quarantine (format.sha256 fragment) =
        none := hnone
    have hkept := @Journaled.setQuarantine _ _ _ _ _ _ _ fragment hvalidated _
      hnone'
    rw [hnone', finish, finish_writeAll, foldl_appendQuarantine, List.nil_append,
      cutTail_finish hkept]
    exact ⟨_, rfl, cutTail_journaled hkept quarantined_setQuarantine⟩
  · have hfile' : (disk.withPrefix none).quarantine (format.sha256 fragment) =
        some file := hfile
    rw [hfile']
    dsimp only
    rw [if_neg (not_not.mpr hhash), cutTail_finish hvalidated]
    exact ⟨_, rfl, cutTail_journaled hvalidated ⟨file, hfile', hhash, hlength⟩⟩

/-- A half written file stops the recovery. -/
theorem recoverTornTail_refuses
    (hjournaled : Journaled format disk events fragment)
    (htorn : fragment ≠ []) {file : Bytes}
    (hfile : disk.quarantine (format.sha256 fragment) = some file)
    (hhash : format.sha256 file ≠ format.sha256 fragment) :
    (recoverTornTail format planSha256 timestamp).finish disk =
      (.error .valueError, disk.withPrefix none) := by
  obtain ⟨next, hlook, hnext⟩ := @recoverTornTail_eq _ _ _ _ _ _ _ timestamp
    planSha256 hjournaled htorn
  have hfile' : (disk.withPrefix none).quarantine (format.sha256 fragment) =
      some file := hfile
  rw [hlook, finish, hnext, validatePrefix_finish hjournaled, quarantineTail,
    finish, hfile']
  dsimp only
  rw [if_pos hhash]
  rfl

theorem recovers_iff (hjournaled : Journaled format disk events fragment)
    (hdistinct : Distinct format disk fragment) :
    Recovers format disk events planSha256 timestamp ↔
      Recoverable format disk fragment := by
  constructor
  · rintro ⟨result, next, -, -, hfinish, -⟩ htorn
    cases hfile : disk.quarantine (format.sha256 fragment) with
    | none => exact .inl rfl
    | some file =>
        by_cases hhash : format.sha256 file = format.sha256 fragment
        · exact .inr ⟨file, hfile, hhash, hdistinct file hfile hhash⟩
        · rw [recoverTornTail_refuses hjournaled htorn hfile hhash] at hfinish
          cases hfinish
  · intro hrecoverable
    by_cases htorn : fragment = []
    · subst htorn
      obtain ⟨data, hdata, hread⟩ := hjournaled.read_eq_ok
      obtain ⟨next, hlook, hnext⟩ := @recoverTornTail_whole _ _ _ _ _ _
        timestamp planSha256 hjournaled
      refine ⟨none, disk, data, [], ?_, hdata, ?_, ?_, ?_⟩
      · rw [hlook, finish, hnext]
        rfl
      · rw [List.append_nil]
        exact hread
      · exact fun event hmem => absurd hmem List.not_mem_nil
      · rw [List.append_nil]
        exact hjournaled.recorded
    · obtain ⟨next, hfinish, hnext⟩ := @recoverTornTail_finish _ _ _ _ _ _ _
        timestamp planSha256 hjournaled htorn (hrecoverable htorn)
      obtain ⟨data, hdata, hread⟩ := hnext.read_eq_ok
      refine ⟨_, next, data, _, hfinish, hdata, hread, ?_, hnext.recorded⟩
      intro event hmem
      rw [List.mem_singleton.mp hmem]
      exact ⟨planSha256, format.sha256 fragment, fragment.length, rfl⟩

/-! ## What a run leaves -/

/-- Where a complete event comes from. -/
def Added (operations : List (Operation H P)) (event : Event H P) : Prop :=
  (∃ timestamp payload count,
      Operation.append timestamp payload count ∈ operations ∧
        event.timestamp = timestamp ∧ event.body = .other payload) ∨
    ∃ planSha256 fragmentSha256 fragmentBytes,
      event.body = .tailRecovered planSha256 fragmentSha256 fragmentBytes

/-- A step keeps the complete events, and adds at most its own. -/
theorem step_journaled (hsha : Function.Injective format.sha256)
    {operation : Operation H P}
    (hjournaled : Journaled format disk events fragment)
    (hstep : step format disk operation = .ok next) :
    ∃ added fragment, Journaled format next (events ++ added) fragment ∧
      ∀ event ∈ added, Added [operation] event := by
  have hgrown : ∀ event, Grown format events event next →
      Added [operation] event →
        ∃ added fragment, Journaled format next (events ++ added) fragment ∧
          ∀ event ∈ added, Added [operation] event := by
    rintro event (⟨fragment, hsame⟩ | hnew) hadded
    · refine ⟨[], fragment, ?_, fun _ hmem => absurd hmem List.not_mem_nil⟩
      rw [List.append_nil]
      exact hsame
    · exact ⟨[event], [], hnew, fun other hmem =>
        List.mem_singleton.mp hmem ▸ hadded⟩
  cases operation with
  | append timestamp payload count =>
      cases hstep
      have hadded : Added [Operation.append timestamp payload count]
          (nextEvent format events timestamp (.other payload)) :=
        .inl ⟨timestamp, payload, count, List.mem_singleton_self _, rfl, rfl⟩
      by_cases htorn : fragment = []
      · subst htorn
        refine hgrown _ (append_always hjournaled ?_ count) hadded
        rintro _ _ _ ⟨⟩
      · refine hgrown _ (.inl ⟨fragment, ?_⟩) hadded
        rw [append_torn hjournaled htorn]
        exact hjournaled
  | recover planSha256 timestamp count =>
      cases hstep
      exact hgrown _ (recoverTornTail_always hjournaled
        (distinct_of_injective hsha) count) (.inr ⟨_, _, _, rfl⟩)

theorem run_journaled (hsha : Function.Injective format.sha256)
    {operations : List (Operation H P)}
    (hjournaled : Journaled format disk events fragment)
    (hrun : runSteps (step format) disk operations = .ok final) :
    ∃ added fragment, Journaled format final (events ++ added) fragment ∧
      ∀ event ∈ added, Added operations event := by
  induction operations generalizing disk events fragment with
  | nil =>
      cases hrun
      refine ⟨[], fragment, ?_, fun _ hmem => absurd hmem List.not_mem_nil⟩
      rw [List.append_nil]
      exact hjournaled
  | cons operation operations ih =>
      obtain ⟨next, hfirst, hrest⟩ := runSteps_cons_eq_ok.mp hrun
      obtain ⟨first, middle, hmiddle, hfirstAdded⟩ :=
        step_journaled hsha hjournaled hfirst
      obtain ⟨second, fragment, hfinal, hsecondAdded⟩ := ih hmiddle hrest
      refine ⟨first ++ second, fragment, ?_, ?_⟩
      · rw [← List.append_assoc]
        exact hfinal
      · intro event hmem
        rcases List.mem_append.mp hmem with hmem | hmem
        · refine (hfirstAdded event hmem).imp_left ?_
          rintro ⟨timestamp, payload, count, hmem, hevent⟩
          rw [List.mem_singleton] at hmem
          exact ⟨timestamp, payload, count, hmem ▸ List.mem_cons_self, hevent⟩
        · refine (hsecondAdded event hmem).imp_left ?_
          rintro ⟨timestamp, payload, count, hmem, hevent⟩
          exact ⟨timestamp, payload, count,
            List.mem_cons_of_mem operation hmem, hevent⟩

/-! ## Runs that write whole files -/

/-- Every file in quarantine has the hash in its name. -/
def WholeFiles (format : Format H P) (disk : Disk H) : Prop :=
  ∀ name file, disk.quarantine name = some file → format.sha256 file = name

/-- No recovery stops between the making of its quarantine file, which comes
after the prefix file is made, written and removed, and the last byte of it. -/
def WholeWrite (format : Format H P) (disk : Disk H) :
    Operation H P → Prop
  | .append _ _ _ => True
  | .recover _ _ count => ∀ data, disk.journal = some data →
      disk.quarantine (format.sha256 (tornPart data)) = none →
        count ≤ (completePart data).length + 2 ∨
          (completePart data).length + 3 + (tornPart data).length ≤ count

theorem append_quarantine {A : Type} {result : Event H P → A}
    {body : Body H P} :
    Always (fun next => next.quarantine = disk.quarantine)
      (append format result timestamp body) disk := by
  refine always_look ?_
  split
  · exact always_done rfl
  · refine always_act rfl (always_writeAll ?_ ?_)
    · intro count _
      rw [foldl_appendJournal]
      rfl
    · rw [foldl_appendJournal]
      exact always_done rfl

theorem cutTail_quarantine {complete : Bytes} :
    Always (fun next => next.quarantine = disk.quarantine)
      (cutTail format planSha256 timestamp complete fragment) disk :=
  always_act rfl append_quarantine

omit [DecidableEq H] in
theorem WholeFiles.of_quarantine (hwhole : WholeFiles format disk)
    (hsame : next.quarantine = disk.quarantine) : WholeFiles format next := by
  intro name file hfile
  rw [hsame] at hfile
  exact hwhole name file hfile

theorem quarantineTail_whole (hwhole : WholeFiles format disk)
    {complete : Bytes}
    (hcount : disk.quarantine (format.sha256 fragment) = none →
      count = 0 ∨ fragment.length + 1 ≤ count) :
    WholeFiles format
      ((quarantineTail format planSha256 timestamp complete fragment).stop count
        disk) := by
  rw [quarantineTail, stop]
  split
  · split
    · exact hwhole
    · exact hwhole.of_quarantine (cutTail_quarantine count)
  · rename_i hnone
    rcases hcount hnone with rfl | hle
    · rw [stop_zero]
      exact hwhole
    · obtain ⟨more, rfl⟩ := Nat.exists_eq_add_of_le hle
      rw [Nat.add_right_comm, stop, stop_writeAll_add, foldl_appendQuarantine,
        List.nil_append]
      have hfile : WholeFiles format
          (setQuarantine (format.sha256 fragment) fragment disk) := by
        intro name file hname
        by_cases hsame : name = format.sha256 fragment
        · subst hsame
          have hself : (setQuarantine (format.sha256 fragment) fragment
              disk).quarantine (format.sha256 fragment) = some fragment :=
            Function.update_self _ _ _
          rw [hself, Option.some.injEq] at hname
          rw [← hname]
        · exact hwhole name file
            ((Function.update_of_ne hsame _ _).symm.trans hname)
      exact hfile.of_quarantine (cutTail_quarantine more)

theorem step_whole {operation : Operation H P}
    (hjournaled : Journaled format disk events fragment)
    (hwhole : WholeFiles format disk)
    (hwrite : WholeWrite format disk operation)
    (hstep : step format disk operation = .ok next) :
    WholeFiles format next := by
  cases operation with
  | append timestamp payload count =>
      cases hstep
      exact hwhole.of_quarantine (append_quarantine count)
  | recover planSha256 timestamp count =>
      cases hstep
      by_cases htorn : fragment = []
      · subst htorn
        obtain ⟨next, hlook, hnext⟩ := @recoverTornTail_whole _ _ _ _ _ _
          timestamp planSha256 hjournaled
        rw [hlook, stop, hnext]
        exact hwhole
      · obtain ⟨next, hlook, hnext⟩ := @recoverTornTail_eq _ _ _ _ _ _ _
          timestamp planSha256 hjournaled htorn
        rw [hlook, stop, hnext]
        rcases @validatePrefix_stop _ _ _ format disk events
          (quarantineTail format planSha256 timestamp (dumpAll format events)
            fragment) count with ⟨recoveryPrefix, hstop⟩ | ⟨more, rfl⟩
        · rw [hstop]
          exact hwhole.of_quarantine rfl
        · have hvalidated : WholeFiles format (disk.withPrefix none) :=
            hwhole.of_quarantine rfl
          rw [validatePrefix_stop_add hjournaled]
          refine quarantineTail_whole hvalidated ?_
          intro hnone
          have hwindow := hwrite _ hjournaled.journal
          rw [tornPart_append hjournaled.events_ne_nil hjournaled.fragment_line,
            completePart_append hjournaled.events_ne_nil
              hjournaled.fragment_line] at hwindow
          have hwindow := hwindow hnone
          omega

theorem run_whole (hsha : Function.Injective format.sha256)
    {operations : List (Operation H P)}
    (hjournaled : Journaled format disk events fragment)
    (hwhole : WholeFiles format disk)
    (halong : Along (step format) (WholeWrite format) disk operations)
    (hrun : runSteps (step format) disk operations = .ok final) :
    WholeFiles format final := by
  induction operations generalizing disk events fragment with
  | nil =>
      cases hrun
      exact hwhole
  | cons operation operations ih =>
      obtain ⟨next, hfirst, hrest⟩ := runSteps_cons_eq_ok.mp hrun
      obtain ⟨added, middle, hmiddle, -⟩ :=
        step_journaled hsha hjournaled hfirst
      exact ih hmiddle (step_whole hjournaled hwhole halong.1 hfirst)
        (halong.2 next hfirst) hrest

omit [DecidableEq H] in
theorem WholeFiles.recoverable (hsha : Function.Injective format.sha256)
    (hwhole : WholeFiles format disk) : Recoverable format disk fragment := by
  intro _
  cases hfile : disk.quarantine (format.sha256 fragment) with
  | none => exact .inl rfl
  | some file =>
      have hhash := hwhole _ file hfile
      exact .inr ⟨file, hfile, hhash, distinct_of_injective hsha file hfile hhash⟩

/-- A valid journal stays a chain of events and a fragment in every run, and
no complete event is lost.  A recovery that then runs to its end does what it
should if and only if the fragment's file in quarantine is missing or whole,
which it is when no recovery stopped inside its quarantine write. -/
theorem recoverTornTail_iff (format : Format H P)
    (hsha : Function.Injective format.sha256) {disk final : Disk H}
    {data : Bytes} {events : List (Event H P)}
    {operations : List (Operation H P)} (hjournal : disk.journal = some data)
    (hread : read format data = .ok events)
    (hrecorded : ∀ event ∈ events, Recorded format disk event)
    (hrun : runSteps (step format) disk operations = .ok final) :
    ∃ added fragment,
      final.journal = some (dumpAll format (events ++ added) ++ fragment) ∧
      newline ∉ fragment ∧ (∀ event ∈ added, Added operations event) ∧
      (∀ planSha256 timestamp,
        Recovers format final (events ++ added) planSha256 timestamp ↔
          Recoverable format final fragment) ∧
      (WholeFiles format disk →
        Along (step format) (WholeWrite format) disk operations →
          Recoverable format final fragment) := by
  obtain ⟨hsome, rfl, hchained⟩ := read_eq_ok.mp hread
  have hjournaled : Journaled format disk events [] :=
    ⟨by rw [hjournal, List.append_nil], List.not_mem_nil, hsome, hchained,
      hrecorded⟩
  obtain ⟨added, fragment, hfinal, hadded⟩ :=
    run_journaled hsha hjournaled hrun
  refine ⟨added, fragment, hfinal.journal, hfinal.fragment_line, hadded, ?_, ?_⟩
  · intro planSha256 timestamp
    exact recovers_iff hfinal (distinct_of_injective hsha)
  · intro hwhole halong
    exact (run_whole hsha hjournaled hwhole halong hrun).recoverable hsha

/-- A recovery that stops when it has made its quarantine file is refused
ever after. -/
theorem halfWritten_refused {payload : P} {started : String} {byte : UInt8}
    (hjournaled : Journaled format disk events [])
    (hquarantine : ∀ name, disk.quarantine name = none)
    (hbyte : newline ∉ [byte])
    (htake : (format.dumps
      (nextEvent format events started (.other payload))).take 1 = [byte])
    (hhash : format.sha256 [] ≠ format.sha256 [byte]) :
    ∃ final, runSteps (step format) disk [.append started payload 2,
        .recover planSha256 timestamp ((dumpAll format events).length + 3)] =
          .ok final ∧
      ∀ planSha256 timestamp,
        ∃ next, (recoverTornTail format planSha256 timestamp).finish final =
          (.error .valueError, next) := by
  -- One byte of the next line is written.
  have hwritten : step format disk (.append started payload 2) =
      .ok (disk.write [byte]) := by
    obtain ⟨next, hlook, hnext⟩ := @Journaled.append_eq _ _ _ _ _ _ started
      (.other payload) _ id hjournaled
    have hone : 1 ≤ (format.dumps
        (nextEvent format events started (.other payload))).length := by
      by_contra hzero
      rw [List.length_eq_zero_iff.mp (Nat.lt_one_iff.mp
        (Nat.lt_of_not_le hzero))] at htake
      cases htake
    rw [step, hlook, stop, hnext, stop, hjournaled.open_eq,
      stop_writeAll_of_le hone, foldl_appendJournal, htake]
  have htorn := hjournaled.write_fragment hbyte
  -- The recovery makes the file and stops.
  have hmade : step format (disk.write [byte]) (.recover planSha256 timestamp
      ((dumpAll format events).length + 3)) =
        .ok (setQuarantine (format.sha256 [byte]) []
          ((disk.write [byte]).withPrefix none)) := by
    obtain ⟨next, hlook, hnext⟩ := @recoverTornTail_eq _ _ _ _ _ _ _ timestamp
      planSha256 htorn (List.cons_ne_nil _ _)
    rw [step, hlook, stop, hnext]
    have hstop := @validatePrefix_stop_add _ _ _ _ _ _ _ htorn
      (quarantineTail format planSha256 timestamp (dumpAll format events)
        [byte]) 1
    have hnone : ((disk.write [byte]).withPrefix none).quarantine
        (format.sha256 [byte]) = none := hquarantine _
    rw [hstop, quarantineTail, stop, hnone]
    dsimp only
    rw [stop, stop_zero]
  have hhalf := @Journaled.setQuarantine _ _ _ _ _ _ _ []
    (htorn.withPrefix none) (format.sha256 [byte]) (hquarantine _)
  refine ⟨_, runSteps_cons_eq_ok.mpr ⟨_, hwritten,
    runSteps_cons_eq_ok.mpr ⟨_, hmade, rfl⟩⟩, ?_⟩
  intro planSha256 timestamp
  exact ⟨_, recoverTornTail_refuses hhalf (List.cons_ne_nil _ _)
    (Function.update_self _ _ _) hhash⟩

/-! ## A journal of one event -/

section OneEvent

/-- The fields of an event in numbers. -/
def eventCode (event : Event Bytes Unit) :
    List ℕ × ℕ × List ℕ × List ℕ × Option (List ℕ × List ℕ × ℕ) × List ℕ :=
  (event.schema.toList.map Char.toNat, event.eventIndex,
    event.timestamp.toList.map Char.toNat,
    event.previousEventSha256.map UInt8.toNat,
    match event.body with
    | .tailRecovered plan name bytes =>
        some (plan.map UInt8.toNat, name.map UInt8.toNat, bytes)
    | .other _ => none,
    event.eventSha256.map UInt8.toNat)

def codeEvent (code : List ℕ × ℕ × List ℕ × List ℕ ×
    Option (List ℕ × List ℕ × ℕ) × List ℕ) : Event Bytes Unit :=
  { schema := String.ofList (code.1.map Char.ofNat)
    eventIndex := code.2.1
    timestamp := String.ofList (code.2.2.1.map Char.ofNat)
    previousEventSha256 := code.2.2.2.1.map UInt8.ofNat
    body := match code.2.2.2.2.1 with
      | some (plan, name, bytes) =>
          .tailRecovered (plan.map UInt8.ofNat) (name.map UInt8.ofNat) bytes
      | none => .other ()
    eventSha256 := code.2.2.2.2.2.map UInt8.ofNat }

theorem codeEvent_eventCode (event : Event Bytes Unit) :
    codeEvent (eventCode event) = event := by
  have hbytes : ∀ bytes : Bytes,
      (bytes.map UInt8.toNat).map UInt8.ofNat = bytes := by
    intro bytes
    rw [List.map_map, List.map_congr_left, List.map_id]
    exact fun byte _ => UInt8.ofNat_toNat
  have htext : ∀ text : String,
      String.ofList ((text.toList.map Char.toNat).map Char.ofNat) = text := by
    intro text
    have hchars : (text.toList.map Char.toNat).map Char.ofNat = text.toList := by
      rw [List.map_map, List.map_congr_left, List.map_id]
      exact fun char _ => Char.ofNat_toNat char
    rw [hchars, String.ofList_toList]
  obtain ⟨⟨schema, index, timestamp, previous, body⟩, hash⟩ := event
  cases body with
  | tailRecovered plan name bytes =>
      simp only [codeEvent, eventCode, hbytes, htext]
  | other payload => simp only [codeEvent, eventCode, hbytes, htext]

/-- An event as that many zeros. -/
def zeros (event : Event Bytes Unit) : ℕ :=
  Encodable.encode (eventCode event) + 1

def unaryFormat : Format Bytes Unit where
  zeroHash := []
  sha256 := id
  dumps event := List.replicate (zeros event) 0 ++ [newline]
  dumpsUnsealed event := event.timestamp.toUTF8.toList
  loads raw := (Encodable.decode (raw.length - 2)).map codeEvent
  loads_dumps event := by
    have hlength : zeros event + 1 - 2 = Encodable.encode (eventCode event) := by
      rw [zeros]
      omega
    rw [List.length_append, List.length_replicate, List.length_singleton,
      hlength, Encodable.encodek, Option.map_some, codeEvent_eventCode]
  dumps_line event := by
    refine ⟨_, rfl, ?_⟩
    intro hmem
    cases (List.mem_replicate.mp hmem).2

theorem take_one_dumps (event : Event Bytes Unit) :
    (unaryFormat.dumps event).take 1 = [0] := by
  change (List.replicate (Encodable.encode (eventCode event) + 1) 0 ++
    [newline]).take 1 = [0]
  rw [List.replicate_succ]
  rfl

def firstEvent : Event Bytes Unit :=
  sealEvent unaryFormat (0, []) "planned" (.other ())

def firstDisk : Disk Bytes :=
  ⟨some (dumpAll unaryFormat [firstEvent]), none, fun _ => none⟩

theorem firstDisk_read :
    read unaryFormat (dumpAll unaryFormat [firstEvent]) = .ok [firstEvent] :=
  read_eq_ok.mpr ⟨List.cons_ne_nil _ _, rfl,
    sealEvent_sealed (0, []) "planned" (.other ()), trivial⟩

theorem firstDisk_recorded :
    ∀ event ∈ [firstEvent], Recorded unaryFormat firstDisk event := by
  intro event hmem plan name bytes hbody
  rw [List.mem_singleton.mp hmem] at hbody
  cases hbody

theorem firstDisk_journaled :
    Journaled unaryFormat firstDisk [firstEvent] [] := by
  obtain ⟨hsome, -, hchained⟩ := read_eq_ok.mp firstDisk_read
  refine ⟨?_, List.not_mem_nil, hsome, hchained, firstDisk_recorded⟩
  rw [List.append_nil, firstDisk]

/-- An append that stops after one byte. -/
def tornAppend : Operation Bytes Unit := .append "started" () 2

theorem recoverTornTail_iff_tornAppend :
    ∃ final, runSteps (step unaryFormat) firstDisk [tornAppend] = .ok final ∧
      ∃ added, ∀ planSha256 timestamp,
        Recovers unaryFormat final ([firstEvent] ++ added) planSha256
          timestamp := by
  refine ⟨_, rfl, ?_⟩
  obtain ⟨added, fragment, -, -, -, hiff, hwhole⟩ :=
    @recoverTornTail_iff _ _ _ unaryFormat Function.injective_id firstDisk _ _ _
      [tornAppend] rfl firstDisk_read firstDisk_recorded rfl
  refine ⟨added, fun planSha256 timestamp => (hiff planSha256 timestamp).mpr
    (hwhole ?_ ⟨trivial, fun _ _ => trivial⟩)⟩
  rintro _ _ ⟨⟩

/-- The recovery of that byte stops when its quarantine file is made. -/
def tornRecovery : Operation Bytes Unit :=
  .recover [] "recovered" ((dumpAll unaryFormat [firstEvent]).length + 3)

theorem tornRecovery_refused :
    ∃ final, runSteps (step unaryFormat) firstDisk [tornAppend, tornRecovery] =
        .ok final ∧
      ∀ planSha256 timestamp,
        ∃ next, (recoverTornTail unaryFormat planSha256 timestamp).finish final =
          (.error .valueError, next) :=
  halfWritten_refused firstDisk_journaled (fun _ => rfl) (by decide)
    (take_one_dumps _) (by decide)

end OneEvent

end GlmFlash.Campaign
