import GlmFlash.Worker.PromptLogprobs

/-!
# Scores of a batch

Chunks of logits are scored one after the other.  Whatever the size of a chunk, the
rows are those of all hidden states at once, and a row for many entries starts with
the row for few.
-/

namespace GlmFlash.Worker.PromptLogprobs

open GlmFlash.Library

variable {H F : Type}

/-- The model head and `torch.topk` work row by row: a row of logits depends on its
hidden state alone, and the best entries of a row do not depend on how many are asked
for. -/
structure RowByRow (scoring : Scoring H F) (head : H → List F) (vocab : ℕ) : Prop where
  logitsFn_eq : ∀ hiddenStates, scoring.logitsFn hiddenStates = hiddenStates.map head
  length_head : ∀ hidden, (head hidden).length = vocab
  length_topk : ∀ row count, count ≤ row.length → (scoring.topk row count).length = count
  take_topk : ∀ row count more, count ≤ more → more ≤ row.length →
    (scoring.topk row more).take count = scoring.topk row count

/-- How many entries a request asks for: minus one stands for all. -/
def requestedEntries (vocab : ℕ) (number : ℤ) : ℕ :=
  if number = -1 then vocab else number.toNat

/-- The captures of a batch, chunk by chunk. -/
def captureChunks (environment : Environment) (head : H → List F)
    (plan : Option CapturePlan) (chunkSize : ℕ) (hiddenStates : List H) :
    ℕ → ℕ → Files F → Except Failure (Files F)
  | 0, _, files => .ok files
  | chunks + 1, startIdx, files => do
      let files ← captureLogits environment plan
        (((hiddenStates.drop startIdx).take chunkSize).map head) startIdx files
      captureChunks environment head plan chunkSize hiddenStates chunks
        (startIdx + chunkSize) files

theorem captureChunks_none {environment : Environment} {head : H → List F}
    {chunkSize chunks : ℕ} {hiddenStates : List H} {files : Files F} :
    ∀ {startIdx : ℕ}, captureChunks environment head none chunkSize hiddenStates chunks
      startIdx files = .ok files := by
  induction chunks with
  | zero => exact rfl
  | succ chunks ih => exact ih

section Heads

variable {scoring : Scoring H F} {head : H → List F} {vocab entries : ℕ}

theorem lastDim_map_head (hrows : RowByRow scoring head vocab) {chunk : List H}
    (hchunk : chunk ≠ []) : lastDim (chunk.map head) = vocab := by
  obtain ⟨hidden, rest, rfl⟩ := List.exists_cons_of_ne_nil hchunk
  exact hrows.length_head hidden

theorem take_bestEntries (hrows : RowByRow scoring head vocab) {more : ℕ}
    (hle : entries ≤ more) (hmore : more ≤ vocab) (hidden : H) :
    List.take entries (if 0 < more then (scoring.topk (head hidden) more).map (↑) else []) =
      if 0 < entries then (scoring.topk (head hidden) entries).map ((↑) : ℕ → ℤ) else [] := by
  have hlength : more ≤ (head hidden).length := (hrows.length_head hidden).symm ▸ hmore
  by_cases hpos : 0 < entries
  · rw [if_pos hpos, if_pos (hpos.trans_le hle), ← List.map_take,
      hrows.take_topk _ _ _ hle hlength]
  · rw [if_neg hpos, Nat.eq_zero_of_not_pos hpos, List.take_zero]

end Heads

variable [Inhabited F]

/-- The rows of hidden states and of the tokens after them. -/
def scoredRows (scoring : Scoring H F) (head : H → List F) (logitsMode : Bool)
    (entries : ℕ) (hiddenStates : List H) (tokenIds : List ℤ) : List (ScoreRow F) :=
  List.zipWith (fun hidden tokenId =>
    scoring.scoreRow logitsMode (head hidden) entries tokenId) hiddenStates tokenIds

section Rows

variable {scoring : Scoring H F} {head : H → List F} {vocab entries : ℕ} {logitsMode : Bool}

theorem length_scoreRow (hrows : RowByRow scoring head vocab) (hentries : entries ≤ vocab)
    (hidden : H) (tokenId : ℤ) :
    (scoring.scoreRow logitsMode (head hidden) entries tokenId).tokenIds.length =
      entries + 1 := by
  have hle : entries ≤ (head hidden).length := (hrows.length_head hidden).symm ▸ hentries
  by_cases hpos : 0 < entries
  · simp [Scoring.scoreRow, hpos, hrows.length_topk _ _ hle]
  · simp [Scoring.scoreRow, Nat.eq_zero_of_not_pos hpos]

theorem length_logprobs (logits : List F) (tokenId : ℤ) :
    (scoring.scoreRow logitsMode logits entries tokenId).logprobs.length =
      (scoring.scoreRow logitsMode logits entries tokenId).tokenIds.length :=
  List.length_map _

/-- The first columns of a wide row are the narrow row. -/
theorem cut_scoreRow (hrows : RowByRow scoring head vocab) {more : ℕ}
    (hle : entries ≤ more) (hmore : more ≤ vocab) (hidden : H) (tokenId : ℤ) :
    (scoring.scoreRow logitsMode (head hidden) more tokenId).cut (entries + 1) =
      scoring.scoreRow logitsMode (head hidden) entries tokenId := by
  have htokens := take_bestEntries hrows hle hmore hidden
  rw [ScoreRow.cut, Scoring.scoreRow, Scoring.scoreRow]
  dsimp only
  rw [← List.map_take, List.take_succ_cons, htokens]

end Rows

/-! ## Chunks -/

section Chunks

variable {scoring : Scoring H F} {head : H → List F} {vocab : ℕ} {logitsMode : Bool}
  {environment : Environment} {plan : Option CapturePlan} {number : ℤ} {chunkSize : ℕ}
  {tokenIds : List ℤ} {hiddenStates : List H}

theorem computeTopkScores_map (hrows : RowByRow scoring head vocab) {entries : ℕ}
    (hentries : entries ≤ vocab) (chunk : List H) (tokenIds : List ℤ) :
    scoring.computeTopkScores logitsMode (chunk.map head) entries tokenIds =
      .ok (scoredRows scoring head logitsMode entries chunk tokenIds) := by
  have hwide : ∀ row ∈ chunk.map head, entries ≤ row.length := by
    intro row hrow
    obtain ⟨hidden, -, rfl⟩ := List.mem_map.mp hrow
    exact (hrows.length_head hidden).symm ▸ hentries
  rw [Scoring.computeTopkScores, require, if_pos hwide, ok_bind, List.zipWith_map_left]
  rfl

theorem zipWith_take_append {A B C : Type*} (function : A → B → C) (left : List A)
    (right : List B) (count rest : ℕ) :
    List.zipWith function (left.take (count + rest)) (right.take (count + rest)) =
      List.zipWith function (left.take count) (right.take count) ++
        List.zipWith function ((left.drop count).take rest) ((right.drop count).take rest) := by
  rw [← List.take_zipWith, ← List.take_zipWith, ← List.take_zipWith, ← List.drop_zipWith,
    List.take_add]

/-- Some chunks from a start on score the hidden states that lie in them. -/
theorem scoreChunks_eq (hrows : RowByRow scoring head vocab) (hsize : 0 < chunkSize)
    (hnumber : requestedEntries vocab number ≤ vocab)
    (hlength : tokenIds.length = hiddenStates.length) {chunks : ℕ} :
    ∀ {startIdx : ℕ} {files : Files F},
      (∀ chunk < chunks, startIdx + chunk * chunkSize < tokenIds.length) →
      scoreChunks scoring logitsMode environment plan number chunkSize tokenIds hiddenStates
          chunks startIdx files =
        (captureChunks environment head plan chunkSize hiddenStates chunks startIdx
          files).map fun files =>
            (scoredRows scoring head logitsMode (requestedEntries vocab number)
              ((hiddenStates.drop startIdx).take (chunks * chunkSize))
              ((tokenIds.drop startIdx).take (chunks * chunkSize)), files) := by
  induction chunks with
  | zero =>
      intro startIdx files _
      rw [Nat.zero_mul, List.take_zero, List.take_zero]
      rfl
  | succ chunks ih =>
      intro startIdx files hinside
      have hstart : startIdx < hiddenStates.length := by
        have hfirst := hinside 0 (Nat.succ_pos chunks)
        rwa [Nat.zero_mul, Nat.add_zero, hlength] at hfirst
      have hchunk : (hiddenStates.drop startIdx).take chunkSize ≠ [] := by
        rw [← List.length_pos_iff_ne_nil, List.length_take, List.length_drop]
        omega
      have hlater : ∀ chunk < chunks,
          startIdx + chunkSize + chunk * chunkSize < tokenIds.length := by
        intro chunk hlt
        have hnext := hinside (chunk + 1) (Nat.succ_lt_succ hlt)
        rw [Nat.succ_mul] at hnext
        omega
      have hentries : (if number = -1 then
          lastDim (((hiddenStates.drop startIdx).take chunkSize).map head)
          else number.toNat) = requestedEntries vocab number := by
        rw [lastDim_map_head hrows hchunk]
        rfl
      have hsplit := zipWith_take_append (fun hidden tokenId =>
        scoring.scoreRow logitsMode (head hidden) (requestedEntries vocab number) tokenId)
        (hiddenStates.drop startIdx) (tokenIds.drop startIdx) chunkSize (chunks * chunkSize)
      rw [List.drop_drop, List.drop_drop, Nat.add_comm chunkSize, ← Nat.succ_mul] at hsplit
      rw [scoreChunks, captureChunks, hrows.logitsFn_eq]
      dsimp only
      rw [hentries, computeTopkScores_map hrows hnumber]
      cases captureLogits environment plan
          (((hiddenStates.drop startIdx).take chunkSize).map head) startIdx files with
      | error failure => rfl
      | ok captured =>
          rw [ok_bind, ok_bind, ok_bind, ih hlater, scoredRows, scoredRows, scoredRows, hsplit]
          cases captureChunks environment head plan chunkSize hiddenStates chunks
            (startIdx + chunkSize) captured <;> rfl

/-- The whole batch is scored as if it were one chunk. -/
theorem computePromptLogprobsWithChunking_eq (hrows : RowByRow scoring head vocab)
    {mode : LogprobsMode} {files : Files F} (hsize : 0 < chunkSize)
    (hnumber : requestedEntries vocab number ≤ vocab)
    (hlength : tokenIds.length = hiddenStates.length) (hsome : tokenIds ≠ []) :
    computePromptLogprobsWithChunking scoring mode environment plan number chunkSize tokenIds
        hiddenStates files =
      (captureChunks environment head plan chunkSize hiddenStates
        (cdiv tokenIds.length chunkSize) 0 files).map fun files =>
          (scoredRows scoring head mode.isLogits (requestedEntries vocab number) hiddenStates
            tokenIds, files) := by
  have hinside : ∀ chunk < cdiv tokenIds.length chunkSize,
      0 + chunk * chunkSize < tokenIds.length := by
    intro chunk hchunk
    rw [Nat.zero_add, Nat.mul_comm]
    exact (lt_cdiv_iff hsize).mp hchunk
  have hcover : tokenIds.length ≤ cdiv tokenIds.length chunkSize * chunkSize := by
    rw [Nat.mul_comm]
    exact (cdiv_le_iff hsize).mp le_rfl
  rw [computePromptLogprobsWithChunking, require, if_pos hsize, ok_bind, require,
    if_pos hsome, ok_bind, scoreChunks_eq hrows hsize hnumber hlength hinside,
    List.drop_zero, List.drop_zero, List.take_of_length_le hcover,
    List.take_of_length_le (hlength ▸ hcover)]

end Chunks

end GlmFlash.Worker.PromptLogprobs
