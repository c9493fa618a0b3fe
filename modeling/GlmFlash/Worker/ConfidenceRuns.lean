import GlmFlash.Worker.StaleConfidences
import Mathlib.Data.List.Forall2
import Mathlib.Data.List.Induction

/-!
# Whose confidences are read

Without copies and slots there are three tables of rows: the current ones, the
ones of the last step, and the ones that budgets read.  The two host slots
represent the last two tables, whenever the copies land, and every row of a
table belongs to the request that has the slot.
-/

namespace GlmFlash.Worker.AdaptiveVerification

open GlmFlash.Library

variable {Row : Type} {ones : Row}

/-! ## Races -/

theorem callActions_raceFree {host : HostState} {busy : Bool → Bool}
    (hidle : busy host.staleIdx = false) (call : Call Row) :
    RaceFree busy (callActions ones host call).2 ∧
      busyRun busy (callActions ones host call).2
        (callActions ones host call).1.staleIdx = false := by
  have hother : host.staleIdx ≠ !host.staleIdx := by
    cases host.staleIdx with
    | false => decide
    | true => decide
  cases call with
  | addRequest reqIdx =>
      refine ⟨⟨?_, ?_, trivial⟩, hidle⟩
      · rintro slot hslot
        cases hslot
        exact hidle
      · rintro slot hslot
        cases hslot
  | getNumTokens slots =>
      refine ⟨⟨?_, trivial⟩, hidle⟩
      rintro slot hslot
      cases hslot
      exact hidle
  | recordConfidences batch =>
      have hready : Function.update busy (!host.staleIdx) false (!host.staleIdx) =
          false := Function.update_self _ _ _
      have hwrite : Function.update busy (!host.staleIdx) false host.staleIdx =
          false := (Function.update_of_ne hother _ _).trans hidle
      have hlast : RaceFree (Function.update busy (!host.staleIdx) false)
          [CopyAction.setDevice batch, .stage host.staleIdx,
            .startCopy host.staleIdx] := by
        refine ⟨?_, ?_, ?_, trivial⟩
        · rintro slot hslot
          cases hslot
        · rintro slot hslot
          cases hslot
          exact hwrite
        · rintro slot hslot
          cases hslot
      have hfinal : Function.update (Function.update busy (!host.staleIdx) false)
          host.staleIdx true (!host.staleIdx) = false :=
        (Function.update_of_ne hother.symm _ _).trans hready
      rw [callActions, recordConfidences]
      by_cases hpending : host.pendingResets = []
      · rw [if_pos hpending]
        exact ⟨⟨(by rintro slot ⟨⟩), hlast⟩, hfinal⟩
      · rw [if_neg hpending]
        refine ⟨⟨(by rintro slot ⟨⟩), ?_, hlast⟩, hfinal⟩
        rintro slot hslot
        cases hslot
        exact hready

theorem program_raceFree {host : HostState} {busy : Bool → Bool}
    (hidle : busy host.staleIdx = false) (calls : List (Call Row)) :
    RaceFree busy (program ones host calls) := by
  induction calls generalizing host busy with
  | nil => trivial
  | cons call calls ih =>
      have hcall : RaceFree busy (callActions ones host call).2 ∧ _ :=
        callActions_raceFree hidle call
      obtain ⟨hfree, hnext⟩ := hcall
      exact hfree.append (ih hnext)

/-! ## Three tables -/

/-- The rows on the device, the rows of the last step and the rows that are
read. -/
structure Tables (Row : Type) where
  current : ℕ → Row
  published : ℕ → Row
  visible : ℕ → Row

namespace Tables

variable (tables : Tables Row)

def call (ones : Row) : Call Row → Tables Row
  | .addRequest reqIdx => ⟨Function.update tables.current reqIdx ones,
      Function.update tables.published reqIdx ones,
      Function.update tables.visible reqIdx ones⟩
  | .recordConfidences batch => ⟨setRows batch tables.current,
      setRows batch tables.current, tables.published⟩
  | .getNumTokens _ => tables

def readOf : Call Row → List (List Row)
  | .getNumTokens slots => [slots.map tables.visible]
  | .addRequest _ | .recordConfidences _ => []

def run (ones : Row) (calls : List (Call Row)) : Tables Row :=
  calls.foldl (call · ones) tables

def reads (ones : Row) (tables : Tables Row) : List (Call Row) → List (List Row)
  | [] => []
  | next :: calls => tables.readOf next ++ reads ones (tables.call ones next) calls

end Tables

/-- The tables that the device and the host slots represent. -/
structure Represents (ones : Row) (host : HostState)
    (memory : CopyMemory Bool ℕ Row) (tables : Tables Row) : Prop where
  current : memory.device = tables.current
  published : fillRows host.pendingResets ones (memory.host !host.staleIdx) =
    tables.published
  visible : memory.host host.staleIdx = tables.visible

variable {host : HostState} {memory : CopyMemory Bool ℕ Row} {tables : Tables Row}

theorem fillRows_nil (values : ℕ → Row) : fillRows [] ones values = values := by
  funext index
  rw [fillRows, if_neg List.not_mem_nil]

theorem fillRows_singleton (values : ℕ → Row) (index : ℕ) :
    fillRows [index] ones values = Function.update values index ones := by
  funext other
  simp only [fillRows, Function.update_apply, List.mem_singleton]

theorem fillRows_append (values : ℕ → Row) (rows : List ℕ) (index : ℕ) :
    fillRows (rows ++ [index]) ones values =
      Function.update (fillRows rows ones values) index ones := by
  funext other
  rw [fillRows, Function.update_apply, fillRows]
  by_cases hother : other = index
  · rw [if_pos hother, if_pos (by simp [hother])]
  · simp only [List.mem_append, List.mem_singleton, hother, or_false, if_false]

/-- The resets of `record_confidences`, if there are any. -/
theorem run_resets (memory : CopyMemory Bool ℕ Row) (slot : Bool) (rows : List ℕ) :
    memory.run (if rows = [] then [] else [.fillHost slot rows ones]) =
      { memory with
        host := Function.update memory.host slot
          (fillRows rows ones (memory.host slot)) } := by
  by_cases hrows : rows = []
  · rw [if_pos hrows, hrows, fillRows_nil, Function.update_eq_self]
    rfl
  · rw [if_neg hrows]
    rfl

theorem reads_resets (memory : CopyMemory Bool ℕ Row) (slot : Bool)
    (rows : List ℕ) :
    memory.reads (if rows = [] then [] else [.fillHost slot rows ones]) = [] := by
  split
  · rfl
  · rfl

/-- One call. -/
theorem Represents.call (hrep : Represents ones host memory tables)
    (call : Call Row) :
    Represents ones (callActions ones host call).1
        (memory.run (callActions ones host call).2) (tables.call ones call) ∧
      memory.reads (callActions ones host call).2 = tables.readOf call := by
  have hother : (!host.staleIdx) ≠ host.staleIdx := by
    cases host.staleIdx with
    | false => decide
    | true => decide
  cases call with
  | getNumTokens slots =>
      refine ⟨hrep, ?_⟩
      rw [Tables.readOf, ← hrep.visible]
      rfl
  | addRequest reqIdx =>
      refine ⟨⟨?_, ?_, ?_⟩, rfl⟩
      · rw [Tables.call, ← hrep.current]
        rfl
      · rw [Tables.call, ← hrep.published, ← fillRows_append]
        have hkept : (memory.run (callActions ones host (.addRequest reqIdx)).2).host
            (!host.staleIdx) = memory.host (!host.staleIdx) :=
          Function.update_of_ne hother _ _
        exact congrArg (fillRows (host.pendingResets ++ [reqIdx]) ones) hkept
      · rw [Tables.call, ← hrep.visible]
        have hfilled : (memory.run (callActions ones host (.addRequest reqIdx)).2).host
            host.staleIdx = fillRows [reqIdx] ones (memory.host host.staleIdx) :=
          Function.update_self _ _ _
        exact hfilled.trans (fillRows_singleton _ _)
  | recordConfidences batch =>
      have hrun : memory.run (callActions ones host (.recordConfidences batch)).2 =
          { device := setRows batch memory.device
            staging := Function.update memory.staging host.staleIdx
              (setRows batch memory.device)
            host := Function.update
              (Function.update memory.host (!host.staleIdx)
                (fillRows host.pendingResets ones (memory.host !host.staleIdx)))
              host.staleIdx (setRows batch memory.device) } := by
        rw [callActions, recordConfidences]
        change (memory.run (_ ++ _)) = _
        rw [CopyMemory.run_append, run_resets]
        simp only [CopyMemory.run, List.foldl_cons, List.foldl_nil, CopyMemory.act,
          Function.update_self]
      constructor
      · rw [hrun, Tables.call, ← hrep.current, ← hrep.published]
        refine ⟨rfl, ?_, ?_⟩
        · refine (fillRows_nil _).trans ?_
          change Function.update _ host.staleIdx _ (!!host.staleIdx) = _
          rw [Bool.not_not, Function.update_self]
        · change Function.update _ host.staleIdx _ (!host.staleIdx) = _
          rw [Function.update_of_ne hother, Function.update_self]
      · rw [callActions, recordConfidences]
        change memory.reads (_ ++ _) = _
        rw [CopyMemory.reads_append, reads_resets]
        rfl

theorem Represents.reads (hrep : Represents ones host memory tables)
    (calls : List (Call Row)) :
    memory.reads (program ones host calls) = tables.reads ones calls := by
  induction calls generalizing host memory tables with
  | nil => rfl
  | cons call calls ih =>
      obtain ⟨hnext, hread⟩ := hrep.call call
      rw [program, CopyMemory.reads_append, hread, Tables.reads]
      exact congrArg (tables.readOf call ++ ·) (ih hnext)

/-! ## Whose rows -/

/-- What was recorded for the slot since a request was added to it. -/
def recordedStep (index : ℕ) (rows : List Row) : Call Row → List Row
  | .addRequest reqIdx => if reqIdx = index then [] else rows
  | .recordConfidences batch =>
      rows ++ (batch.filter fun row => row.1 = index).map Prod.snd
  | .getNumTokens _ => rows

def recordedSince (calls : List (Call Row)) (index : ℕ) : List Row :=
  calls.foldl (recordedStep index) []

theorem recordedSince_snoc (calls : List (Call Row)) (call : Call Row) (index : ℕ) :
    recordedSince (calls ++ [call]) index =
      recordedStep index (recordedSince calls index) call :=
  List.foldl_append

/-- All ones, or recorded for the request that has the slot. -/
def Own (ones : Row) (calls : List (Call Row)) (index : ℕ) (row : Row) : Prop :=
  row = ones ∨ row ∈ recordedSince calls index

theorem setRows_cases (rows : List (ℕ × Row)) (values : ℕ → Row) (index : ℕ) :
    setRows rows values index = values index ∨
      setRows rows values index ∈
        (rows.filter fun row => row.1 = index).map Prod.snd := by
  induction rows generalizing values with
  | nil => exact .inl rfl
  | cons row rows ih =>
      have hmem {value : Row} (hvalue : value ∈
          (rows.filter fun row => row.1 = index).map Prod.snd) :
          value ∈ ((row :: rows).filter fun row => row.1 = index).map Prod.snd := by
        rw [List.filter_cons]
        split
        · exact List.mem_cons_of_mem _ hvalue
        · exact hvalue
      rcases ih (Function.update values row.1 row.2) with hkept | hset
      · by_cases hrow : row.1 = index
        · refine .inr ?_
          have hvalue : setRows (row :: rows) values index = row.2 := by
            refine hkept.trans ?_
            rw [← hrow, Function.update_self]
          rw [hvalue, List.filter_cons, if_pos (decide_eq_true hrow)]
          exact List.mem_cons_self
        · exact .inl (hkept.trans (Function.update_of_ne (Ne.symm hrow) _ _))
      · exact .inr (hmem hset)

/-- Every table holds rows of the request that has the slot. -/
structure Owned (ones : Row) (calls : List (Call Row)) (tables : Tables Row)
    (index : ℕ) : Prop where
  current : Own ones calls index (tables.current index)
  published : Own ones calls index (tables.published index)
  visible : Own ones calls index (tables.visible index)

theorem Own.step {calls : List (Call Row)} {index : ℕ} {row : Row}
    (hown : Own ones calls index row) {call : Call Row}
    (hother : call ≠ .addRequest index) : Own ones (calls ++ [call]) index row := by
  rcases hown with hones | hmem
  · exact .inl hones
  · refine .inr ?_
    rw [recordedSince_snoc]
    cases call with
    | addRequest reqIdx =>
        rw [recordedStep, if_neg (fun heq => hother (congrArg Call.addRequest heq))]
        exact hmem
    | recordConfidences batch => exact List.mem_append_left _ hmem
    | getNumTokens => exact hmem

theorem Owned.step {calls : List (Call Row)} {index : ℕ} (call : Call Row)
    (howned : Owned ones calls tables index ∨ call = .addRequest index) :
    Owned ones (calls ++ [call]) (tables.call ones call) index := by
  by_cases hadd : call = .addRequest index
  · subst hadd
    refine ⟨.inl ?_, .inl ?_, .inl ?_⟩
    · exact Function.update_self _ _ _
    · exact Function.update_self _ _ _
    · exact Function.update_self _ _ _
  · have hold := howned.resolve_right hadd
    have hcurrent := hold.current.step hadd
    have hpublished := hold.published.step hadd
    have hvisible := hold.visible.step hadd
    cases call with
    | getNumTokens => exact ⟨hcurrent, hpublished, hvisible⟩
    | addRequest reqIdx =>
        have hne : index ≠ reqIdx := fun heq => hadd (congrArg Call.addRequest heq.symm)
        have hkept (values : ℕ → Row) :
            Function.update values reqIdx ones index = values index :=
          Function.update_of_ne hne _ _
        rw [← hkept tables.current] at hcurrent
        rw [← hkept tables.published] at hpublished
        rw [← hkept tables.visible] at hvisible
        exact ⟨hcurrent, hpublished, hvisible⟩
    | recordConfidences batch =>
        have hset : Own ones (calls ++ [.recordConfidences batch]) index
            (setRows batch tables.current index) := by
          rcases setRows_cases batch tables.current index with hkept | hset
          · rwa [hkept]
          · refine .inr ?_
            rw [recordedSince_snoc]
            exact List.mem_append_right _ hset
        exact ⟨hset, hset, hpublished⟩

theorem owned_run (start : Tables Row) {calls : List (Call Row)} {index : ℕ}
    (hadded : .addRequest index ∈ calls) :
    Owned ones calls (start.run ones calls) index := by
  induction calls using List.reverseRecOn with
  | nil => cases hadded
  | append_singleton calls call ih =>
      rw [Tables.run, List.foldl_append]
      apply Owned.step call
      rcases List.mem_append.mp hadded with hearlier | hlast
      · exact .inl (ih hearlier)
      · exact .inr (List.mem_singleton.mp hlast).symm

/-! ## What budgets read -/

/-- The number of reads so far. -/
def numReads (calls : List (Call Row)) : ℕ :=
  calls.countP fun
    | .getNumTokens _ => true
    | .addRequest _ | .recordConfidences _ => false

theorem reads_append (tables : Tables Row) (calls later : List (Call Row)) :
    tables.reads ones (calls ++ later) =
      tables.reads ones calls ++ (tables.run ones calls).reads ones later := by
  induction calls generalizing tables with
  | nil => rfl
  | cons call calls ih =>
      rw [List.cons_append, Tables.reads, ih, Tables.reads, List.append_assoc]
      rfl

theorem length_reads (tables : Tables Row) (calls : List (Call Row)) :
    (tables.reads ones calls).length = numReads calls := by
  induction calls generalizing tables with
  | nil => rfl
  | cons call calls ih =>
      rw [Tables.reads, List.length_append, ih, numReads, numReads, List.countP_cons]
      cases call with
      | getNumTokens => exact Nat.add_comm _ _
      | addRequest => exact Nat.zero_add _
      | recordConfidences => exact Nat.zero_add _

/-- The read after the given calls. -/
theorem getElem?_reads (tables : Tables Row) (earlier later : List (Call Row))
    (slots : List ℕ) :
    (tables.reads ones (earlier ++ .getNumTokens slots :: later))[numReads earlier]? =
      some (slots.map (tables.run ones earlier).visible) := by
  have hlength : (tables.reads ones earlier).length = numReads earlier :=
    length_reads tables earlier
  rw [reads_append, ← hlength, List.getElem?_append_right (Nat.le_refl _), Nat.sub_self]
  rfl

/-- Two runs have the same rows for the slot. -/
structure Agree (tables tables' : Tables Row) (index : ℕ) : Prop where
  current : tables.current index = tables'.current index
  published : tables.published index = tables'.published index
  visible : tables.visible index = tables'.visible index

theorem setRows_congr (rows : List (ℕ × Row)) {values values' : ℕ → Row} {index : ℕ}
    (heq : values index = values' index) :
    setRows rows values index = setRows rows values' index := by
  induction rows generalizing values values' with
  | nil => exact heq
  | cons row rows ih =>
      apply ih
      dsimp only
      rw [Function.update_apply, Function.update_apply, heq]

theorem Agree.step {tables tables' : Tables Row} {index : ℕ} (call : Call Row)
    (hagree : Agree tables tables' index ∨ call = .addRequest index) :
    Agree (tables.call ones call) (tables'.call ones call) index := by
  cases call with
  | getNumTokens => exact hagree.resolve_right (by rintro ⟨⟩)
  | recordConfidences batch =>
      have hold := hagree.resolve_right (by rintro ⟨⟩)
      have hset := setRows_congr batch hold.current
      exact ⟨hset, hset, hold.published⟩
  | addRequest reqIdx =>
      have hupdate {values values' : ℕ → Row}
          (heq : index ≠ reqIdx → values index = values' index) :
          Function.update values reqIdx ones index =
            Function.update values' reqIdx ones index := by
        by_cases hindex : index = reqIdx
        · rw [hindex, Function.update_self, Function.update_self]
        · rw [Function.update_of_ne hindex, Function.update_of_ne hindex, heq hindex]
      have hold (hne : index ≠ reqIdx) : Agree tables tables' index :=
        hagree.resolve_right fun heq => hne (Call.addRequest.inj heq).symm
      exact ⟨hupdate fun hne => (hold hne).current,
        hupdate fun hne => (hold hne).published,
        hupdate fun hne => (hold hne).visible⟩

theorem agree_run (start start' : Tables Row) {calls : List (Call Row)} {index : ℕ}
    (hadded : .addRequest index ∈ calls) :
    Agree (start.run ones calls) (start'.run ones calls) index := by
  induction calls using List.reverseRecOn with
  | nil => cases hadded
  | append_singleton calls call ih =>
      rw [Tables.run, Tables.run, List.foldl_append, List.foldl_append]
      apply Agree.step call
      rcases List.mem_append.mp hadded with hearlier | hlast
      · exact .inl (ih hearlier)
      · exact .inr (List.mem_singleton.mp hlast).symm

theorem represents_start {start : CopyWorld Bool ℕ Row} (hstart : IsStart ones start) :
    Represents ones initialHost start.toCopyMemory
      ⟨start.device, fun _ => ones, fun _ => ones⟩ where
  current := rfl
  published := by
    rw [initialHost, fillRows_nil, hstart.host]
  visible := by
    rw [hstart.host]

theorem stands_start {start : CopyWorld Bool ℕ Row} (hstart : IsStart ones start) :
    Stands start start.toCopyMemory fun _ => false where
  device := rfl
  staging := rfl
  host := by
    intro slot
    rw [CopyWorld.content, hstart.inFlight]
    rfl
  inFlight := by
    intro slot _
    rw [hstart.inFlight]

/-- The host touches no slot into which a copy is under way.  Whenever the copies
land, and whatever the device held at the start, a budget reads the same row of
each request that was added, all ones or recorded for that request. -/
theorem stale_rows_of_own_request (ones : Row) (calls : List (Call Row)) :
    (∀ (start : CopyWorld Bool ℕ Row) (moves : List (CopyMove Bool ℕ Row)),
      IsStart ones start →
      moves.filterMap CopyMove.action? = program ones initialHost calls →
      ∀ before action after slot, moves = before ++ .act action :: after →
        slot ∈ action.slot? → (start.run before).inFlight slot = false) ∧
      ∀ earlier slots later, calls = earlier ++ .getNumTokens slots :: later →
        ∃ rows : ℕ → Row,
          (∀ index, .addRequest index ∈ earlier →
            rows index = ones ∨ rows index ∈ recordedSince earlier index) ∧
          ∀ (start : CopyWorld Bool ℕ Row) (moves : List (CopyMove Bool ℕ Row)),
            IsStart ones start →
            moves.filterMap CopyMove.action? = program ones initialHost calls →
            ∃ read, (start.reads moves)[numReads earlier]? = some read ∧
              List.Forall₂ (fun index row =>
                .addRequest index ∈ earlier → row = rows index) slots read := by
  constructor
  · intro start moves hstart hmoves before action after slot hsplit hslot
    have hfree : RaceFree (fun _ => false) (moves.filterMap CopyMove.action?) := by
      rw [hmoves]
      exact program_raceFree rfl calls
    rw [hsplit] at hfree
    exact (stands_start hstart).idle hfree hslot
  · intro earlier slots later hsplit
    -- Any start will do: the rows of requests that were added do not depend on it.
    let tables : Tables Row := ⟨fun _ => ones, fun _ => ones, fun _ => ones⟩
    refine ⟨(tables.run ones earlier).visible,
      fun index hadded => (owned_run tables hadded).visible, ?_⟩
    intro start moves hstart hmoves
    have hfree : RaceFree (fun _ => false) (moves.filterMap CopyMove.action?) := by
      rw [hmoves]
      exact program_raceFree rfl calls
    rw [(stands_start hstart).reads hfree, hmoves,
      (represents_start hstart).reads calls, hsplit]
    refine ⟨_, getElem?_reads _ earlier later slots, ?_⟩
    rw [List.forall₂_map_right_iff, List.forall₂_same]
    intro index _ hadded
    exact (agree_run _ tables hadded).visible

/-- The slot has a new owner while the row of the old one is being copied. -/
theorem stale_rows_of_own_request_reused :
    ∀ (start : CopyWorld Bool ℕ ℕ) (moves : List (CopyMove Bool ℕ ℕ)),
      IsStart 1 start →
      moves.filterMap CopyMove.action? = program 1 initialHost
        [.addRequest 0, .recordConfidences [(0, 5)], .addRequest 0,
          .recordConfidences [], .getNumTokens [0]] →
      (start.reads moves)[0]? = some [1] := by
  intro start moves hstart hmoves
  obtain ⟨rows, hown, hreads⟩ := (stale_rows_of_own_request 1
    [.addRequest 0, .recordConfidences [(0, 5)], .addRequest 0,
      .recordConfidences [], .getNumTokens [0]]).2
    [.addRequest 0, .recordConfidences [(0, 5)], .addRequest 0,
      .recordConfidences []] [0] [] rfl
  obtain ⟨read, hread, hrow⟩ := hreads start moves hstart hmoves
  have hones : rows 0 = 1 := (hown 0 List.mem_cons_self).resolve_right List.not_mem_nil
  cases hrow with
  | cons hrow hrest =>
      cases hrest
      rw [hrow List.mem_cons_self, hones] at hread
      exact hread

end GlmFlash.Worker.AdaptiveVerification
