import GlmFlash.Campaign.Journal

/-!
# What a journal holds

A file that `read` accepts is the dump of a chain of events, line by line.  In
general the bytes on disk are such a dump and a fragment without a newline.
-/

namespace GlmFlash.Campaign

open GlmFlash.Library

variable {H P : Type} [DecidableEq H] {format : Format H P}
  {events : List (Event H P)} {event : Event H P} {previous : H} {index : ℕ}
  {data fragment text rest : Bytes}

/-! ## Lines -/

theorem splitLines_line (htext : newline ∉ text) :
    splitLines (text ++ [newline] ++ rest) =
      (text ++ [newline]) :: splitLines rest := by
  induction text with
  | nil => rw [List.nil_append, List.singleton_append, splitLines, if_pos rfl]
  | cons byte text ih =>
      rw [List.mem_cons, not_or] at htext
      have hbyte : byte ≠ newline := fun heq => htext.1 heq.symm
      rw [List.cons_append, List.cons_append, splitLines, if_neg hbyte,
        ih htext.2]

theorem flatten_splitLines : (splitLines data).flatten = data := by
  induction data with
  | nil => rfl
  | cons byte data ih =>
      rw [splitLines]
      split
      · rw [List.flatten_cons, ih, List.singleton_append]
      · split
        · rename_i hnil
          rw [hnil] at ih
          rw [← ih]
          rfl
        · rename_i line lines hlines
          rw [hlines] at ih
          rw [← ih]
          rfl

/-- The bytes of the events. -/
def dumpAll (format : Format H P) (events : List (Event H P)) : Bytes :=
  events.flatMap format.dumps

omit [DecidableEq H] in
theorem dumpAll_snoc : dumpAll format (events ++ [event]) =
    dumpAll format events ++ format.dumps event := by
  rw [dumpAll, List.flatMap_append, List.flatMap_singleton, dumpAll]

omit [DecidableEq H] in
theorem splitLines_dumpAll :
    splitLines (dumpAll format events) = events.map format.dumps := by
  induction events with
  | nil => rfl
  | cons event events ih =>
      obtain ⟨text, hline, htext⟩ := format.dumps_line event
      rw [dumpAll, List.flatMap_cons, ← dumpAll, hline, splitLines_line htext, ih,
        List.map_cons, hline]

omit [DecidableEq H] in
theorem getLast?_dumps : (format.dumps event).getLast? = some newline := by
  obtain ⟨text, hline, -⟩ := format.dumps_line event
  rw [hline, List.getLast?_concat]

omit [DecidableEq H] in
theorem getLast?_dumpAll (hsome : events ≠ []) :
    (dumpAll format events).getLast? = some newline := by
  obtain ⟨init, last, rfl⟩ := List.eq_nil_or_concat' events |>.resolve_left hsome
  rw [dumpAll_snoc, List.getLast?_append, getLast?_dumps, Option.some_or]

/-! ## Chains -/

/-- What `read` checks of an event. -/
structure Sealed (format : Format H P) (previous : H) (index : ℕ)
    (event : Event H P) : Prop where
  schema : event.schema = journalSchema
  eventIndex : event.eventIndex = index
  previousEventSha256 : event.previousEventSha256 = previous
  eventSha256 :
    format.sha256 (format.dumpsUnsealed event.toUnsealed) = event.eventSha256

def Chained (format : Format H P) (previous : H) (index : ℕ) :
    List (Event H P) → Prop
  | [] => True
  | event :: events =>
      Sealed format previous index event ∧
        Chained format event.eventSha256 (index + 1) events

theorem readLine_eq_ok {raw : Bytes} :
    readLine format previous index raw = .ok event ↔
      raw = format.dumps event ∧ Sealed format previous index event := by
  constructor
  · intro hrun
    simp only [readLine, bind_eq_ok, require_eq_ok] at hrun
    obtain ⟨-, -, hrun⟩ := hrun
    split at hrun
    · cases hrun
    simp only [bind_eq_ok, require_eq_ok, pure_eq_ok] at hrun
    obtain ⟨-, hdumps, -, hplace, -, hprevious, -, hhash, rfl⟩ := hrun
    exact ⟨hdumps.symm, hplace.1, hplace.2, hprevious, hhash⟩
  · rintro ⟨rfl, hsealed⟩
    simp only [readLine, format.loads_dumps, bind_eq_ok, require_eq_ok,
      pure_eq_ok]
    exact ⟨(), getLast?_dumps, (), trivial, (),
      ⟨hsealed.schema, hsealed.eventIndex⟩, (), hsealed.previousEventSha256, (),
      hsealed.eventSha256, trivial⟩

theorem readLines_eq_ok {lines : List Bytes} :
    readLines format previous index lines = .ok events ↔
      lines = events.map format.dumps ∧
        Chained format previous index events := by
  induction lines generalizing previous index events with
  | nil =>
      rw [readLines, pure_eq_ok]
      constructor
      · rintro rfl
        exact ⟨rfl, trivial⟩
      · rintro ⟨hnil, -⟩
        exact (List.map_eq_nil_iff.mp hnil.symm).symm
  | cons raw lines ih =>
      simp only [readLines, bind_eq_ok, pure_eq_ok, readLine_eq_ok, ih]
      constructor
      · rintro ⟨event, ⟨rfl, hsealed⟩, events, ⟨rfl, hchained⟩, rfl⟩
        exact ⟨rfl, hsealed, hchained⟩
      · rintro ⟨hlines, hchained⟩
        cases events with
        | nil => cases hlines
        | cons event events =>
            obtain ⟨rfl, rfl⟩ := List.cons_eq_cons.mp hlines
            exact ⟨event, ⟨rfl, hchained.1⟩, events, ⟨rfl, hchained.2⟩, rfl⟩

/-- A file is accepted when it is the dump of a chain. -/
theorem read_eq_ok : read format data = .ok events ↔
    events ≠ [] ∧ data = dumpAll format events ∧
      Chained format format.zeroHash 0 events := by
  simp only [read, bind_eq_ok, require_eq_ok, pure_eq_ok, readLines_eq_ok]
  constructor
  · rintro ⟨found, ⟨hlines, hchained⟩, -, hsome, rfl⟩
    refine ⟨hsome, ?_, hchained⟩
    rw [← @flatten_splitLines data, hlines]
    rfl
  · rintro ⟨hsome, rfl, hchained⟩
    exact ⟨events, ⟨splitLines_dumpAll, hchained⟩, (), hsome, rfl⟩

/-- The hash that the next event refers to. -/
def lastHash (format : Format H P) (events : List (Event H P)) : H :=
  (events.getLast?.map Event.eventSha256).getD format.zeroHash

omit [DecidableEq H] in
theorem chained_snoc :
    Chained format previous index (events ++ [event]) ↔
      Chained format previous index events ∧
        Sealed format ((events.getLast?.map Event.eventSha256).getD previous)
          (index + events.length) event := by
  induction events generalizing previous index with
  | nil => simp [Chained]
  | cons first events ih =>
      rw [List.cons_append, Chained, ih, Chained, and_assoc,
        List.length_cons, Nat.add_right_comm, Nat.add_assoc]
      cases events with
      | nil => rfl
      | cons second events =>
          rw [List.getLast?_cons_cons]
          cases hlast : (second :: events).getLast? with
          | none => cases List.getLast?_eq_none_iff.mp hlast
          | some last => rfl

omit [DecidableEq H] in
theorem sealEvent_sealed (position : ℕ × H) (timestamp : String)
    (body : Body H P) : Sealed format position.2 position.1
      (sealEvent format position timestamp body) :=
  ⟨rfl, rfl, rfl, rfl⟩

/-! ## Complete lines and the fragment after them -/

theorem rdropWhile_append_of_all {p : UInt8 → Bool} (hall : ∀ byte ∈ fragment, p byte) :
    (data ++ fragment).rdropWhile p = data.rdropWhile p := by
  induction fragment using List.reverseRecOn with
  | nil => rw [List.append_nil]
  | append_singleton init last ih =>
      rw [← List.append_assoc, List.rdropWhile_concat_pos _ _ _
        (hall last (List.mem_append_right _ (List.mem_singleton_self _)))]
      exact ih fun byte hmem => hall byte (List.mem_append_left _ hmem)

omit [DecidableEq H] in
theorem completePart_append (hsome : events ≠ []) (hfragment : newline ∉ fragment) :
    completePart (dumpAll format events ++ fragment) = dumpAll format events := by
  have hall : ∀ byte ∈ fragment, decide (byte ≠ newline) = true := by
    intro byte hmem
    exact decide_eq_true fun heq => hfragment (heq ▸ hmem)
  rw [completePart, rdropWhile_append_of_all hall, List.rdropWhile_eq_self_iff]
  intro hne
  have hlast := @getLast?_dumpAll _ _ format _ hsome
  rw [List.getLast?_eq_some_getLast hne, Option.some.injEq] at hlast
  rw [hlast]
  decide

omit [DecidableEq H] in
theorem tornPart_append (hsome : events ≠ []) (hfragment : newline ∉ fragment) :
    tornPart (dumpAll format events ++ fragment) = fragment := by
  have hparts : completePart (dumpAll format events ++ fragment) ++
      tornPart (dumpAll format events ++ fragment) =
        dumpAll format events ++ fragment :=
    List.rdropWhile_append_rtakeWhile
  rw [completePart_append hsome hfragment] at hparts
  exact List.append_cancel_left hparts

omit [DecidableEq H] in
/-- A file ends with a newline when there is no fragment. -/
theorem getLast?_append_fragment (hsome : events ≠ [])
    (hfragment : newline ∉ fragment) :
    (dumpAll format events ++ fragment).getLast? = some newline ↔
      fragment = [] := by
  constructor
  · intro hlast
    by_contra hne
    rw [List.getLast?_append_of_ne_nil _ hne] at hlast
    exact hfragment (List.mem_of_getLast? hlast)
  · rintro rfl
    rw [List.append_nil]
    exact getLast?_dumpAll hsome

end GlmFlash.Campaign
