import GlmFlash.Worker.PromptScores

/-!
# The buffer of a request

The rows of a prompt are written from its start on.  A step writes the rows of the
positions that it computes, wherever its rows lie in the batch and however wide they
are there.
-/

namespace GlmFlash.Worker.PromptLogprobs

open GlmFlash.Library

variable {H F : Type}

/-- A prompt and how many logprobs are asked for, with the hidden states that the model
computes for its positions. -/
structure Prompt (H : Type) where
  tokenIds : List ℤ
  number : Option ℤ
  hidden : ℕ → H
  number_ge : ∀ count, number = some count → -1 ≤ count

namespace Prompt

def length (prompt : Prompt H) : ℕ := prompt.tokenIds.length

def entries (prompt : Prompt H) (vocab : ℕ) : ℕ :=
  requestedEntries vocab (prompt.number.getD 0)

end Prompt

/-- What the worker knows of a request whose prompt is this one. -/
structure Knows (worker : PromptLogprobsWorker F) (states : RequestStates)
    (prompt : Prompt H) (reqIdx : ℕ) : Prop where
  uses : worker.usesPromptLogprobs reqIdx = prompt.number.isSome
  number : worker.numPromptLogprobs reqIdx = prompt.number.getD 0
  promptLen : states.promptLen reqIdx = prompt.length

theorem isPromptChunked_iff {worker : PromptLogprobsWorker F} {states : RequestStates}
    {prompt : Prompt H} {request : BatchRequest}
    (hknows : Knows worker states prompt request.reqIdx) :
    request.isPromptChunked states = true ↔
      request.numComputedPrefillTokens + request.numScheduledTokens < prompt.length := by
  rw [BatchRequest.isPromptChunked, hknows.promptLen, decide_eq_true_eq]

variable [Inhabited F]

/-- How rows are scored. -/
structure Head (H F : Type) where
  scoring : Scoring H F
  logits : H → List F
  vocab : ℕ
  logitsMode : Bool

namespace Head

variable (head : Head H F)

/-- The row of a position: the token after it, and the best entries. -/
def row (prompt : Prompt H) (position : ℕ) : ScoreRow F :=
  head.scoring.scoreRow head.logitsMode (head.logits (prompt.hidden position))
    (prompt.entries head.vocab) (prompt.tokenIds.getD (position + 1) 0)

/-- The buffer with the rows of the positions that are computed. -/
def written (prompt : Prompt H) (computed : ℕ) : Tensors F where
  width := prompt.entries head.vocab + 1
  rows := (List.range (prompt.length - 1)).map fun position =>
    if position < computed then some (head.row prompt position) else none

/-- The buffer of a request in its prompt. -/
def buffer (prompt : Prompt H) (computed : ℕ) : Option (Tensors F) :=
  if 0 < computed ∧ computed < prompt.length then some (head.written prompt computed)
  else none

/-- What the model head and the prompt have to do with each other. -/
def Serves (prompt : Prompt H) : Prop :=
  RowByRow head.scoring head.logits head.vocab ∧ prompt.entries head.vocab ≤ head.vocab

end Head

section Written

variable {head : Head H F} {prompt : Prompt H} {computed count : ℕ}

theorem length_written : (head.written prompt computed).rows.length = prompt.length - 1 := by
  rw [Head.written, List.length_map, List.length_range]

/-- Once all rows are written, nothing changes any more. -/
theorem written_all {other : ℕ} (hcomputed : prompt.length - 1 ≤ computed)
    (hother : prompt.length - 1 ≤ other) :
    head.written prompt computed = head.written prompt other := by
  rw [Head.written, Head.written]
  congr 1
  apply List.map_congr_left
  intro position hposition
  have hlt := List.mem_range.mp hposition
  rw [if_pos (hlt.trans_le hcomputed), if_pos (hlt.trans_le hother)]

theorem emptyCpu_eq_written (head : Head H F) (prompt : Prompt H) :
    Tensors.emptyCpu (prompt.length - 1) (prompt.entries head.vocab + 1) =
      head.written prompt 0 := by
  rw [Tensors.emptyCpu, Head.written]
  congr 1
  rw [← List.length_range (n := prompt.length - 1), ← List.map_const', List.length_range]
  exact List.map_congr_left fun position _ => (if_neg (Nat.not_lt_zero position)).symm

theorem Head.Serves.width_row (hserves : head.Serves prompt) (position : ℕ) :
    (head.row prompt position).tokenIds.length = prompt.entries head.vocab + 1 :=
  length_scoreRow hserves.1 hserves.2 _ _

/-- Rows that follow the written ones take the place of the next empty rows. -/
theorem extend_rows {size : ℕ} {A : Type} {value : ℕ → A} (hinside : computed + count ≤ size) :
    List.take computed ((List.range size).map fun position =>
        if position < computed then some (value position) else none) ++
      ((List.range count).map fun index => value (computed + index)).map some ++
      List.drop (computed + count) ((List.range size).map fun position =>
        if position < computed then some (value position) else none) =
      (List.range size).map fun position =>
        if position < computed + count then some (value position) else none := by
  apply List.ext_getElem
  · simp only [List.length_append, List.length_take, List.length_drop, List.length_map,
      List.length_range]
    omega
  · intro index _ _
    simp only [List.getElem_append, List.getElem_take, List.getElem_drop, List.getElem_map,
      List.getElem_range, List.length_append, List.length_take, List.length_map,
      List.length_range]
    grind

/-- The rows of the next positions extend what is written. -/
theorem Head.Serves.copyRows_written (hserves : head.Serves prompt)
    (hinside : computed + count ≤ prompt.length - 1) :
    (head.written prompt computed).copyRows computed
        ((List.range count).map fun index => head.row prompt (computed + index)) =
      .ok (head.written prompt (computed + count)) := by
  have hshape : computed + ((List.range count).map fun index =>
      head.row prompt (computed + index)).length ≤
        (head.written prompt computed).rows.length ∧
      ∀ row ∈ (List.range count).map fun index => head.row prompt (computed + index),
        row.tokenIds.length = (head.written prompt computed).width ∧
          row.logprobs.length = (head.written prompt computed).width := by
    constructor
    · rw [List.length_map, List.length_range, length_written]
      exact hinside
    · intro row hrow
      obtain ⟨index, -, rfl⟩ := List.mem_map.mp hrow
      have hwidth := hserves.width_row (computed + index)
      exact ⟨hwidth, (length_logprobs _ _).trans hwidth⟩
  have hrows : List.take computed (head.written prompt computed).rows ++
      ((List.range count).map fun index => head.row prompt (computed + index)).map some ++
      List.drop (computed + count) (head.written prompt computed).rows =
        (head.written prompt (computed + count)).rows :=
    extend_rows hinside
  rw [Tensors.copyRows, require, if_pos hshape, ok_bind]
  rw [List.length_map, List.length_range, hrows]
  rfl

end Written

/-! ## One step of a request -/

/-- From a place in the batch on, the rows are those of the next positions of the prompt,
with at least as many entries as the request asks for. -/
structure Scored (head : Head H F) (prompt : Prompt H) (rows : List (ScoreRow F))
    (startIdx computed count more : ℕ) : Prop where
  enough : prompt.entries head.vocab ≤ more
  possible : more ≤ head.vocab
  all : prompt.number = some (-1) → more = head.vocab
  first : ∀ row, rows.head? = some row → row.logprobs.length = more + 1
  rows_eq : ∀ index < count, computed + index + 1 < prompt.length →
    rows[startIdx + index]? = some (head.scoring.scoreRow head.logitsMode
      (head.logits (prompt.hidden (computed + index))) more
      (prompt.tokenIds.getD (computed + index + 1) 0))

section Fill

variable {head : Head H F} {prompt : Prompt H} {rows : List (ScoreRow F)}
  {startIdx computed count more : ℕ} {worker : PromptLogprobsWorker F}
  {states : RequestStates} {request : BatchRequest}

/-- The rows of the step in the batch, cut to the width of the request. -/
theorem Scored.cut_rows (hscored : Scored head prompt rows startIdx computed count more)
    (hserves : head.Serves prompt) {taken : ℕ} (htaken : taken ≤ count)
    (hinside : computed + taken ≤ prompt.length - 1) :
    ((rows.drop startIdx).take taken).map (fun row => row.cut (prompt.entries head.vocab + 1)) =
      (List.range taken).map fun index => head.row prompt (computed + index) := by
  have hrow : ∀ index < taken, rows[startIdx + index]? = some (head.scoring.scoreRow
      head.logitsMode (head.logits (prompt.hidden (computed + index))) more
      (prompt.tokenIds.getD (computed + index + 1) 0)) := by
    intro index hindex
    exact hscored.rows_eq index (hindex.trans_le htaken) (by omega)
  apply List.ext_getElem?
  intro index
  rw [List.getElem?_map, List.getElem?_map, List.getElem?_take, List.getElem?_drop]
  by_cases hindex : index < taken
  · rw [if_pos hindex, hrow index hindex, List.getElem?_range hindex]
    exact congrArg some (cut_scoreRow hserves.1 hscored.enough hscored.possible _ _)
  · rw [if_neg hindex, List.getElem?_eq_none (by rw [List.length_range]; omega)]
    rfl

theorem Scored.width (hscored : Scored head prompt rows startIdx computed count more)
    (hknows : Knows worker states prompt request.reqIdx)
    (hneeded : worker.usesPromptLogprobs request.reqIdx = true) (hrows : rows ≠ []) :
    (if worker.numPromptLogprobs request.reqIdx = -1 then
      ((rows.head?).map fun row => row.logprobs.length).getD 0
    else (worker.numPromptLogprobs request.reqIdx).toNat + 1) =
      prompt.entries head.vocab + 1 := by
  obtain ⟨first, rest, rfl⟩ := List.exists_cons_of_ne_nil hrows
  rw [hknows.uses] at hneeded
  obtain ⟨number, hnumber⟩ := Option.isSome_iff_exists.mp hneeded
  rw [hknows.number, Prompt.entries, requestedEntries, hnumber, Option.getD_some]
  by_cases hall : number = -1
  · subst hall
    rw [if_pos rfl, if_pos rfl, ← hscored.all hnumber]
    exact hscored.first first rfl
  · rw [if_neg hall, if_neg hall]

/-- A step of a prompt brings its buffer to the positions that are computed then. -/
theorem Scored.fillBuffer (hscored : Scored head prompt rows startIdx
      request.numComputedPrefillTokens request.numScheduledTokens more)
    (hserves : head.Serves prompt) (hknows : Knows worker states prompt request.reqIdx)
    (hneeded : worker.usesPromptLogprobs request.reqIdx = true)
    (hcount : 0 < request.numScheduledTokens)
    (hinside : request.numComputedPrefillTokens + request.numScheduledTokens ≤ prompt.length) :
    worker.fillBuffer states rows request startIdx
        (head.buffer prompt request.numComputedPrefillTokens) =
      .ok (if 1 < prompt.length then some (head.written prompt
        (request.numComputedPrefillTokens + request.numScheduledTokens)) else none) := by
  generalize hcomputed : request.numComputedPrefillTokens = computed at *
  generalize hscheduled : request.numScheduledTokens = count at *
  have hchunked := isPromptChunked_iff hknows
  rw [hcomputed, hscheduled] at hchunked
  let taken := min count (prompt.length - 1 - computed)
  have hend : (if request.isPromptChunked states then startIdx + count
      else startIdx + count - 1) = startIdx + taken := by
    by_cases hshort : computed + count < prompt.length
    · rw [if_pos (hchunked.mpr hshort)]
      omega
    · rw [if_neg fun h => hshort (hchunked.mp h)]
      omega
  rw [PromptLogprobsWorker.fillBuffer, require, hscheduled, hcomputed, if_pos (by omega), ok_bind]
  dsimp only
  rw [hend]
  by_cases htaken : 0 < taken
  · have hrows : rows ≠ [] := by
      rintro rfl
      have hnone := hscored.rows_eq 0 hcount (by omega)
      cases hnone
    have hbuffer : (head.buffer prompt computed).getD
        (.emptyCpu (states.promptLen request.reqIdx - 1) (prompt.entries head.vocab + 1)) =
          head.written prompt computed := by
      rw [Head.buffer]
      by_cases hpos : 0 < computed
      · rw [if_pos ⟨hpos, by omega⟩]
        rfl
      · rw [if_neg fun h => hpos h.1, Option.getD_none, hknows.promptLen,
          emptyCpu_eq_written, Nat.eq_zero_of_not_pos hpos]
    rw [if_pos (by omega), hscored.width hknows hneeded hrows, hbuffer,
      Nat.add_sub_cancel_left, hscored.cut_rows hserves (by omega) (by omega),
      hserves.copyRows_written (by omega), ok_bind, if_pos (by omega)]
    by_cases hshort : computed + count < prompt.length
    · rw [show taken = count by omega]
      rfl
    · have hall : head.written prompt (computed + taken) =
          head.written prompt (computed + count) :=
        written_all (by omega) (by omega)
      rw [hall]
      rfl
  · rw [if_neg (by omega), Head.buffer]
    by_cases hlong : 1 < prompt.length
    · have hall : head.written prompt computed = head.written prompt (computed + count) :=
        written_all (by omega) (by omega)
      rw [if_pos ⟨by omega, by omega⟩, if_pos hlong, hall]
      rfl
    · rw [if_neg fun h => hlong (by omega), if_neg hlong]
      rfl

end Fill

end GlmFlash.Worker.PromptLogprobs
