import GlmFlash.Worker.PromptRuns

/-!
# Captured logits

When the logits of prompts are captured, the files of a request spell the rows of its
prompt that are computed, each of them once.
-/

namespace GlmFlash.Worker.PromptLogprobs

open GlmFlash.Library

variable {H F : Type}

/-- The files of a directory hold the rows before a position, each row in one file. -/
structure Captured (files : Files F) (dir : String) (row : ℕ → List F) (stop : ℕ) : Prop where
  spelled : ∀ first last content, files.get? (dir, first, last) = some content →
    first < last ∧ last ≤ stop ∧
      content = (List.range (last - first)).map fun index => row (first + index)
  once : ∀ position < stop, ∃! file : ℕ × ℕ,
    (files.get? (dir, file.1, file.2)).isSome = true ∧
      file.1 ≤ position ∧ position < file.2

section Files

variable {files : Files F} {dir : String} {row : ℕ → List F} {stop next : ℕ}

theorem captured_empty (hnone : ∀ first last, files.get? (dir, first, last) = none) :
    Captured files dir row 0 where
  spelled first last content hget := by
    rw [hnone] at hget
    cases hget
  once := by rintro _ ⟨⟩

theorem Captured.fresh (hcaptured : Captured files dir row stop) (next : ℕ) :
    files.get? (dir, stop, next) = none := by
  cases hget : files.get? (dir, stop, next) with
  | none => rfl
  | some content =>
      obtain ⟨hlt, hle, -⟩ := hcaptured.spelled _ _ _ hget
      omega

/-- A file with the next rows. -/
theorem Captured.extend (hcaptured : Captured files dir row stop) (hlt : stop < next)
    {content : List (List F)}
    (hcontent : content = (List.range (next - stop)).map fun index => row (stop + index)) :
    Captured (files.set (dir, stop, next) content) dir row next where
  spelled first last other hget := by
    by_cases hkey : (dir, first, last) = (dir, stop, next)
    · rw [hkey, Dict.get?_set_self] at hget
      cases hkey
      cases hget
      exact ⟨hlt, le_rfl, hcontent⟩
    · rw [Dict.get?_set_of_ne hkey] at hget
      obtain ⟨hfirst, hlast, hother⟩ := hcaptured.spelled _ _ _ hget
      exact ⟨hfirst, hlast.trans hlt.le, hother⟩
  once position hposition := by
    by_cases hold : position < stop
    · obtain ⟨file, ⟨hfile, hle, hinside⟩, hunique⟩ := hcaptured.once position hold
      have hne : ∀ other : ℕ × ℕ, other.1 ≤ position →
          (dir, other.1, other.2) ≠ (dir, stop, next) := by
        intro other hother heq
        rw [Prod.mk.injEq, Prod.mk.injEq] at heq
        omega
      refine ⟨file, ⟨?_, hle, hinside⟩, ?_⟩
      · rw [Dict.get?_set_of_ne (hne file hle)]
        exact hfile
      · rintro other ⟨hother, hotherLe, hotherInside⟩
        rw [Dict.get?_set_of_ne (hne other hotherLe)] at hother
        exact hunique other ⟨hother, hotherLe, hotherInside⟩
    · refine ⟨(stop, next), ⟨?_, not_lt.mp hold, hposition⟩, ?_⟩
      · rw [Dict.get?_set_self]
        rfl
      · rintro other ⟨hother, hotherLe, hotherInside⟩
        by_cases hkey : (dir, other.1, other.2) = (dir, stop, next)
        · rw [Prod.mk.injEq, Prod.mk.injEq] at hkey
          exact Prod.ext hkey.2.1 hkey.2.2
        · rw [Dict.get?_set_of_ne hkey] at hother
          obtain ⟨content', hget⟩ := Option.isSome_iff_exists.mp hother
          obtain ⟨-, hlast, -⟩ := hcaptured.spelled _ _ _ hget
          omega

theorem Captured.congr {files' : Files F} (hcaptured : Captured files dir row stop)
    (hsame : ∀ first last, files'.get? (dir, first, last) = files.get? (dir, first, last)) :
    Captured files' dir row stop where
  spelled first last content hget := hcaptured.spelled first last content (hsame _ _ ▸ hget)
  once position hposition := by
    simpa only [hsame] using hcaptured.once position hposition

end Files

/-! ## The captures of a step -/

/-- A row of logits as it is captured. -/
def capturedRow (head : Head H F) (vocabSize : Option ℕ) (prompt : Prompt H) (position : ℕ) :
    List F :=
  (head.logits (prompt.hidden position)).take (sizeOr vocabSize head.vocab)

section Step

variable {head : Head H F} {prompt : Prompt H} {environment : Environment} {plan : CapturePlan}
  {chunkSize : ℕ} {hiddenStates : List H} {files : Files F}

section Chunks

variable (hdir : environment.captureDir = true) (hrank : environment.isGlobalFirstRank = true)
  (hrows : RowByRow head.scoring head.logits head.vocab) (hsize : 0 < chunkSize)
  (hcaptureRows : plan.captureRows ≤ hiddenStates.length)
  (hhidden : ∀ index < plan.captureRows,
    hiddenStates[index]? = some (prompt.hidden (plan.captureStart + index)))
include hdir hrank hrows hsize hcaptureRows hhidden

/-- One chunk: its rows go to a file of their own, if there are rows to capture. -/
theorem logitsCapture_chunk {startIdx : ℕ}
    (hcaptured : Captured files (environment.requestDir plan.reqId)
      (capturedRow head plan.vocabSize prompt)
      (plan.captureStart + min startIdx plan.captureRows)) :
    ∃ next, logitsCapture environment plan
        (((hiddenStates.drop startIdx).take chunkSize).map head.logits) startIdx files =
          .ok next ∧
      Captured next (environment.requestDir plan.reqId) (capturedRow head plan.vocabSize prompt)
        (plan.captureStart + min (startIdx + chunkSize) plan.captureRows) ∧
      ∀ dir first last, dir ≠ environment.requestDir plan.reqId →
        next.get? (dir, first, last) = files.get? (dir, first, last) := by
  rw [logitsCapture]
  by_cases hpast : plan.captureRows ≤ startIdx
  · rw [if_pos hpast]
    refine ⟨files, rfl, ?_, fun _ _ _ _ => rfl⟩
    rwa [min_eq_right (by omega), ← min_eq_right hpast]
  · rw [min_eq_left (by omega)] at hcaptured
    have hlength : (((hiddenStates.drop startIdx).take chunkSize).map head.logits).length =
        min chunkSize (hiddenStates.length - startIdx) := by
      rw [List.length_map, List.length_take, List.length_drop]
    have hchunk : (hiddenStates.drop startIdx).take chunkSize ≠ [] := by
      rw [← List.length_pos_iff_ne_nil, List.length_take, List.length_drop]
      omega
    let rows := min chunkSize (plan.captureRows - startIdx)
    have hrowsEq : min (((hiddenStates.drop startIdx).take chunkSize).map head.logits).length
        (plan.captureRows - startIdx) = rows := by
      rw [hlength]
      omega
    have htaken : ((((hiddenStates.drop startIdx).take chunkSize).map head.logits).take
        rows).length = rows := by
      rw [List.length_take, hlength]
      omega
    have hstop : plan.captureStart + min (startIdx + chunkSize) plan.captureRows =
        plan.captureStart + startIdx + rows := by
      omega
    have hfresh : (environment.requestDir plan.reqId, plan.captureStart + startIdx,
        plan.captureStart + startIdx + rows) ∉ Dict.keys files :=
      Dict.get?_eq_none_iff.mp (hcaptured.fresh _)
    rw [if_neg hpast]
    dsimp only
    rw [hrowsEq, Environment.maybeCaptureKldPromptLogits, hdir, hrank, if_neg (by simp)]
    dsimp only
    rw [htaken, if_neg hfresh, hstop]
    refine ⟨_, rfl, hcaptured.extend (by omega) ?_, ?_⟩
    · rw [CapturePlan.vocab, lastDim_map_head hrows hchunk, Nat.add_sub_cancel_left]
      apply List.ext_getElem?
      intro index
      rw [List.getElem?_map, List.getElem?_map, List.getElem?_take, List.getElem?_map,
        List.getElem?_take, List.getElem?_drop]
      by_cases hindex : index < rows
      · rw [if_pos hindex, if_pos (by omega), hhidden _ (by omega), List.getElem?_range hindex,
          ← Nat.add_assoc]
        rfl
      · rw [if_neg hindex, List.getElem?_eq_none (by rw [List.length_range]; omega)]
        rfl
    · intro dir first last hne
      apply Dict.get?_set_of_ne
      intro heq
      exact hne (congrArg Prod.fst heq)

/-- The chunks of a step bring the files to its last captured row. -/
theorem captureChunks_captured {chunks : ℕ} :
    ∀ {startIdx : ℕ} {files : Files F}, Captured files (environment.requestDir plan.reqId)
        (capturedRow head plan.vocabSize prompt)
        (plan.captureStart + min startIdx plan.captureRows) →
      ∃ next, captureChunks environment head.logits (some plan) chunkSize hiddenStates chunks
          startIdx files = .ok next ∧
        Captured next (environment.requestDir plan.reqId)
          (capturedRow head plan.vocabSize prompt)
          (plan.captureStart + min (startIdx + chunks * chunkSize) plan.captureRows) ∧
        ∀ dir first last, dir ≠ environment.requestDir plan.reqId →
          next.get? (dir, first, last) = files.get? (dir, first, last) := by
  induction chunks with
  | zero =>
      intro startIdx files hcaptured
      rw [Nat.zero_mul, Nat.add_zero]
      exact ⟨files, rfl, hcaptured, fun _ _ _ _ => rfl⟩
  | succ chunks ih =>
      intro startIdx files hcaptured
      obtain ⟨middle, hfirst, hmiddle, hsame⟩ := logitsCapture_chunk hdir hrank hrows hsize
        hcaptureRows hhidden hcaptured
      obtain ⟨next, hrest, hnext, hsame'⟩ := ih hmiddle
      refine ⟨next, ?_, ?_, ?_⟩
      · rw [captureChunks, captureLogits, hfirst, ok_bind]
        exact hrest
      · rwa [Nat.succ_mul, Nat.add_comm (chunks * chunkSize), ← Nat.add_assoc]
      · intro dir first last hne
        exact (hsame' dir first last hne).trans (hsame dir first last hne)

end Chunks

end Step

/-! ## Runs with captures -/

variable [Inhabited F]

/-- What a run does that captures: one request in a batch, no synthetic names, and a
fresh directory for each request. -/
inductive Capturing (environment : Environment) (prompts : String → Prompt H)
    (system : System F) : Event H → Prop
  | add {reqId : String} {admission : Admission}
      (haddable : Addable prompts system.live reqId admission)
      (hreal : Environment.isSynthetic reqId = false)
      (hfresh : ∀ first last,
        system.files.get? (environment.requestDir reqId, first, last) = none)
      (hapart : ∀ other held, system.live other = some held →
        environment.requestDir other ≠ environment.requestDir reqId) :
      Capturing environment prompts system (.add reqId admission)
  | remove (reqId : String) : Capturing environment prompts system (.remove reqId)
  | step {states : RequestStates} {turn : Turn H} (padding : List H)
      (hscheduled : Scheduled prompts system.live states [turn]) :
      Capturing environment prompts system (.step states [turn] padding)

inductive CaptureReached (head : Head H F) (environment : Environment)
    (vocabSize : Option ℕ) (prompts : String → Prompt H) : System F → Prop
  | start (worker : PromptLogprobsWorker F)
      (hmode : worker.logprobsMode.isLogits = head.logitsMode)
      (hvocab : worker.vocabSize = vocabSize) :
      CaptureReached head environment vocabSize prompts
        { live := fun _ => none, worker := worker, files := [] }
  | act {system next : System F} {event : Event H} {results : Dict String (Tensors F)}
      (hreached : CaptureReached head environment vocabSize prompts system)
      (hcapturing : Capturing environment prompts system event)
      (hact : system.act head environment prompts event = .ok (next, results)) :
      CaptureReached head environment vocabSize prompts next

/-- What a run with captures keeps. -/
structure CaptureKeeps (head : Head H F) (environment : Environment) (vocabSize : Option ℕ)
    (prompts : String → Prompt H) (system : System F) : Prop where
  keeps : Keeps head prompts system.live system.worker
  vocab : system.worker.vocabSize = vocabSize
  real : ∀ reqId admission, system.live reqId = some admission →
    Environment.isSynthetic reqId = false
  apart : ∀ reqId other admission held, system.live reqId = some admission →
    system.live other = some held →
      environment.requestDir reqId = environment.requestDir other → reqId = other
  captured : ∀ reqId admission, system.live reqId = some admission →
    (prompts reqId).number.isSome = true →
      admission.prefillLen = (prompts reqId).length →
        Captured system.files (environment.requestDir reqId)
          (capturedRow head vocabSize (prompts reqId))
          (min admission.computed ((prompts reqId).length - 1))

section Runs

variable {head : Head H F} {environment : Environment} {vocabSize : Option ℕ}
  {prompts : String → Prompt H} {system : System F} {turn : Turn H} {admission : Admission}
  {states : RequestStates} {reqId : String}

omit [Inhabited F] in
/-- The plan of a step with one request in its prompt. -/
theorem capturePlan_single {worker : PromptLogprobsWorker F}
    (hdir : environment.captureDir = true) {request : BatchRequest}
    (hreal : Environment.isSynthetic request.reqId = false)
    (hneeded : worker.needsPromptLogprobs states request = true) :
    worker.capturePlan environment states [request] = .ok (some {
      reqId := request.reqId
      captureStart := request.numComputedPrefillTokens
      captureRows :=
        if request.isPromptChunked states then request.numScheduledTokens
        else request.numScheduledTokens - 1
      vocabSize := worker.vocabSize }) := by
  have hcapture : environment.shouldCaptureKldBatch
      ([request].map BatchRequest.reqId) = true := by
    rw [Environment.shouldCaptureKldBatch, hdir]
    simp [hreal]
  rw [PromptLogprobsWorker.capturePlan.eq_def, hcapture, if_pos rfl]
  dsimp only
  rw [require, if_pos hneeded]
  rfl

section Kept

variable (hkeeps : CaptureKeeps head environment vocabSize prompts system)
include hkeeps

/-- The captures of a step go to the directory of its request, up to the row that the
step comes to. -/
theorem CaptureKeeps.captureStep (hserves : ∀ reqId, head.Serves (prompts reqId))
    (hdir : environment.captureDir = true) (hrank : environment.isGlobalFirstRank = true)
    (hscheduled : Scheduled prompts system.live states [turn])
    (hlive : system.live turn.request.reqId = some admission)
    (hpresents : Presents (prompts turn.request.reqId) admission turn)
    (hneeded : system.worker.needsPromptLogprobs states turn.request = true) :
    ∃ next, captureStep head system.worker environment states [turn] system.files = .ok next ∧
      Captured next (environment.requestDir turn.request.reqId)
        (capturedRow head vocabSize (prompts turn.request.reqId))
        (min (admission.computed + turn.advance) ((prompts turn.request.reqId).length - 1)) ∧
      ∀ dir first last, dir ≠ environment.requestDir turn.request.reqId →
        next.get? (dir, first, last) = system.files.get? (dir, first, last) := by
  obtain ⟨hnumber, hprefill, hlt⟩ :=
    (hkeeps.keeps.needs_iff hscheduled hlive hpresents).mp hneeded
  have hcomputed := hpresents.computed_of_lt (hkeeps.keeps.long _ _ hlive) hlt
  obtain ⟨hfits, hadvance⟩ := hpresents.prefill (hprefill ▸ hlt)
  have hpos := hpresents.scheduled_pos
  have hplan := capturePlan_single hdir (hkeeps.real _ _ hlive) hneeded
  have hchunked : turn.request.isPromptChunked states = decide
      (admission.computed + turn.request.numScheduledTokens <
        (prompts turn.request.reqId).length) := by
    rw [BatchRequest.isPromptChunked, hcomputed, hpresents.reqIdx,
      (hscheduled.agrees _ _ hlive).promptLen]
  let captureRows := min (admission.computed + turn.request.numScheduledTokens)
    ((prompts turn.request.reqId).length - 1) - admission.computed
  have hcaptureRows : (if turn.request.isPromptChunked states = true then
      turn.request.numScheduledTokens else turn.request.numScheduledTokens - 1) =
        captureRows := by
    rw [hchunked]
    by_cases hshort : admission.computed + turn.request.numScheduledTokens <
        (prompts turn.request.reqId).length
    · rw [if_pos (decide_eq_true hshort)]
      omega
    · rw [if_neg (by simpa using hshort)]
      omega
  rw [hcaptureRows, hcomputed, hkeeps.vocab] at hplan
  have hflat : [turn].flatMap Turn.hiddenStates = turn.hiddenStates := by
    rw [List.flatMap_cons, List.flatMap_nil, List.append_nil]
  have htotal : scheduledTokens (batchOf [turn]) = turn.hiddenStates.length :=
    hpresents.scheduled
  have hscheduledLength := hpresents.scheduled
  have hbefore : Captured system.files (environment.requestDir turn.request.reqId)
      (capturedRow head vocabSize (prompts turn.request.reqId))
      (admission.computed + min 0 captureRows) := by
    have hold := hkeeps.captured _ _ hlive hnumber hprefill
    rwa [min_eq_left (by omega), ← Nat.add_zero admission.computed,
      ← Nat.zero_min captureRows] at hold
  have hcover : captureRows ≤ 0 +
      cdiv turn.hiddenStates.length system.worker.chunkSize * system.worker.chunkSize := by
    have hceil := (cdiv_le_iff system.worker.chunkSize_pos).mp
      (le_refl (cdiv turn.hiddenStates.length system.worker.chunkSize))
    rw [Nat.mul_comm] at hceil
    omega
  let plan : CapturePlan := {
    reqId := turn.request.reqId
    captureStart := admission.computed
    captureRows := captureRows
    vocabSize := vocabSize }
  have hhidden : ∀ index < plan.captureRows, turn.hiddenStates[index]? =
      some ((prompts turn.request.reqId).hidden (plan.captureStart + index)) := by
    intro index hindex
    have hindex : index < captureRows := hindex
    exact hpresents.hidden hprefill index (by omega) (by omega)
  have hrows : plan.captureRows ≤ turn.hiddenStates.length := by
    change captureRows ≤ _
    omega
  obtain ⟨next, hrun, hnext, hsame⟩ := captureChunks_captured hdir hrank
    (hserves turn.request.reqId).1 system.worker.chunkSize_pos hrows hhidden hbefore
  refine ⟨next, ?_, ?_, hsame⟩
  · rw [PromptLogprobs.captureStep, batchOf, List.map_singleton, hplan, ok_bind, hflat,
      ← List.map_singleton, ← batchOf, htotal]
    exact hrun
  · have hstop : plan.captureStart + min (0 + cdiv turn.hiddenStates.length
        system.worker.chunkSize * system.worker.chunkSize) plan.captureRows =
          min (admission.computed + turn.advance)
            ((prompts turn.request.reqId).length - 1) := by
      change admission.computed + min _ captureRows = _
      rw [min_eq_right hcover, hadvance]
      omega
    rw [hstop] at hnext
    exact hnext

theorem CaptureKeeps.add (haddable : Addable prompts system.live reqId admission)
    (hreal : Environment.isSynthetic reqId = false)
    (hfresh : ∀ first last,
      system.files.get? (environment.requestDir reqId, first, last) = none)
    (hapart : ∀ other held, system.live other = some held →
      environment.requestDir other ≠ environment.requestDir reqId) :
    CaptureKeeps head environment vocabSize prompts { system with
      live := Function.update system.live reqId (some admission)
      worker := system.worker.addRequest reqId admission.reqIdx (prompts reqId).number } where
  keeps := hkeeps.keeps.add haddable
  vocab := hkeeps.vocab
  real other held hheld := by
    rcases update_live_cases hheld with ⟨rfl, -⟩ | ⟨-, hother⟩
    · exact hreal
    · exact hkeeps.real _ _ hother
  apart left right held held' hheld hheld' heq := by
    rcases update_live_cases hheld with ⟨rfl, -⟩ | ⟨-, hother⟩ <;>
      rcases update_live_cases hheld' with ⟨rfl, -⟩ | ⟨-, hother'⟩
    · rfl
    · exact absurd heq.symm (hapart _ _ hother')
    · exact absurd heq (hapart _ _ hother)
    · exact hkeeps.apart _ _ _ _ hother hother' heq
  captured other held hheld hsome hprefill := by
    rcases update_live_cases hheld with ⟨rfl, hown⟩ | ⟨-, hother⟩
    · cases hown
      rw [haddable.start hprefill hsome, Nat.zero_min]
      exact captured_empty hfresh
    · exact hkeeps.captured _ _ hother hsome hprefill

theorem CaptureKeeps.remove (reqId : String) :
    CaptureKeeps head environment vocabSize prompts { system with
      live := Function.update system.live reqId none
      worker := system.worker.removeRequest reqId } where
  keeps := hkeeps.keeps.remove reqId
  vocab := hkeeps.vocab
  real other held hheld := by
    rcases update_live_cases hheld with ⟨-, ⟨⟩⟩ | ⟨-, hother⟩
    exact hkeeps.real _ _ hother
  apart left right held held' hheld hheld' heq := by
    rcases update_live_cases hheld with ⟨-, ⟨⟩⟩ | ⟨-, hother⟩
    rcases update_live_cases hheld' with ⟨-, ⟨⟩⟩ | ⟨-, hother'⟩
    exact hkeeps.apart _ _ _ _ hother hother' heq
  captured other held hheld hsome hprefill := by
    rcases update_live_cases hheld with ⟨-, ⟨⟩⟩ | ⟨-, hother⟩
    exact hkeeps.captured _ _ hother hsome hprefill

/-- What is kept when the files follow the step of one request. -/
theorem CaptureKeeps.follow (hscheduled : Scheduled prompts system.live states [turn])
    {worker : PromptLogprobsWorker F} {files : Files F} {results : Dict String (Tensors F)}
    (hstepped : Stepped head prompts system.live [turn] system.worker worker results)
    (hlive : system.live turn.request.reqId = some admission)
    (hown : (prompts turn.request.reqId).number.isSome = true →
      admission.prefillLen = (prompts turn.request.reqId).length →
        Captured files (environment.requestDir turn.request.reqId)
          (capturedRow head vocabSize (prompts turn.request.reqId))
          (min (admission.computed + turn.advance)
            ((prompts turn.request.reqId).length - 1)))
    (hsame : ∀ dir first last, dir ≠ environment.requestDir turn.request.reqId →
      files.get? (dir, first, last) = system.files.get? (dir, first, last)) :
    CaptureKeeps head environment vocabSize prompts
      { live := advance system.live [turn], worker := worker, files := files } where
  keeps := hstepped.keeps
  vocab := by
    obtain ⟨inProgress, rfl⟩ := hstepped.same
    exact hkeeps.vocab
  real other later hlater := by
    obtain ⟨held, hheld, -⟩ := of_advance hlater
    exact hkeeps.real _ _ hheld
  apart left right later later' hlater hlater' heq := by
    obtain ⟨held, hheld, -⟩ := of_advance hlater
    obtain ⟨held', hheld', -⟩ := of_advance hlater'
    exact hkeeps.apart _ _ _ _ hheld hheld' heq
  captured other later hadvanced hsome hprefill := by
    have hlater : advance system.live [turn] other = some later := hadvanced
    by_cases hturn : turn.request.reqId = other
    · subst hturn
      rw [hscheduled.advance_eq (List.mem_singleton_self turn) hlive] at hlater
      cases hlater
      exact hown hsome hprefill
    · have habsent : ∀ item ∈ [turn], item.request.reqId ≠ other := by
        intro item hitem
        rwa [List.mem_singleton.mp hitem]
      rw [advance_of_absent habsent] at hlater
      apply (hkeeps.captured _ _ hlater hsome hprefill).congr
      intro first last
      apply hsame
      intro heq
      exact hturn (hkeeps.apart _ _ _ _ hlater hlive heq).symm

/-- Each event of a run with captures succeeds and keeps what is captured. -/
theorem CaptureKeeps.act (hserves : ∀ reqId, head.Serves (prompts reqId))
    (hdir : environment.captureDir = true) (hrank : environment.isGlobalFirstRank = true)
    {event : Event H} (hcapturing : Capturing environment prompts system event) :
    ∃ next results, system.act head environment prompts event = .ok (next, results) ∧
      CaptureKeeps head environment vocabSize prompts next := by
  cases hcapturing with
  | add haddable hreal hfresh hapart =>
      exact ⟨_, [], rfl, hkeeps.add haddable hreal hfresh hapart⟩
  | remove reqId => exact ⟨_, [], rfl, hkeeps.remove reqId⟩
  | @step states turn padding hscheduled =>
      obtain ⟨admission, hlive, hpresents⟩ :=
        hscheduled.presents turn (List.mem_singleton_self turn)
      by_cases hneeded : system.worker.needsPromptLogprobs states turn.request = true
      · obtain ⟨captured, hcaptured, hown, hsame⟩ :=
          hkeeps.captureStep hserves hdir hrank hscheduled hlive hpresents hneeded
        have hscored : (batchOf [turn]).filter
            (system.worker.needsPromptLogprobs states) ≠ [] :=
          List.ne_nil_of_mem (List.mem_filter.mpr
            ⟨List.mem_map_of_mem (List.mem_singleton_self turn), hneeded⟩)
        obtain ⟨worker, results, hrun, hstepped⟩ :=
          hkeeps.keeps.step_scored hscheduled hserves hscored hcaptured padding
        refine ⟨{ live := advance system.live [turn], worker := worker, files := captured },
          results, ?_, hkeeps.follow hscheduled hstepped hlive (fun _ _ => hown) hsame⟩
        rw [System.act, hrun]
        rfl
      · have hidle : (batchOf [turn]).filter
            (system.worker.needsPromptLogprobs states) = [] := by
          rw [List.filter_eq_nil_iff]
          intro request hrequest
          rw [List.mem_singleton.mp hrequest]
          exact hneeded
        obtain ⟨hrun, hstepped⟩ :=
          @Keeps.step_idle H F _ head prompts _ _ states [turn] environment system.files
            hkeeps.keeps hscheduled hidle ([turn].flatMap Turn.hiddenStates ++ padding)
        refine ⟨{ system with live := advance system.live [turn] }, [], ?_,
          hkeeps.follow hscheduled hstepped hlive ?_ fun _ _ _ _ => rfl⟩
        · rw [System.act, hrun]
          rfl
        · intro hsome hprefill
          have hpast : ¬admission.computed < (prompts turn.request.reqId).length :=
            fun hlt => hneeded ((hkeeps.keeps.needs_iff hscheduled hlive hpresents).mpr
              ⟨hsome, hprefill, hlt⟩)
          have hold := hkeeps.captured _ _ hlive hsome hprefill
          have hstop : min admission.computed ((prompts turn.request.reqId).length - 1) =
              min (admission.computed + turn.advance)
                ((prompts turn.request.reqId).length - 1) := by
            omega
          rwa [hstop] at hold

end Kept

theorem CaptureReached.keeps
    (hreached : CaptureReached head environment vocabSize prompts system)
    (hserves : ∀ reqId, head.Serves (prompts reqId)) (hdir : environment.captureDir = true)
    (hrank : environment.isGlobalFirstRank = true) :
    CaptureKeeps head environment vocabSize prompts system := by
  induction hreached with
  | start worker hmode hvocab =>
      exact ⟨keeps_start hmode, hvocab, by rintro _ _ ⟨⟩, by rintro _ _ _ _ ⟨⟩,
        by rintro _ _ ⟨⟩⟩
  | @act system next event results _ hcapturing hact ih =>
      obtain ⟨next', results', hsame, hkeeps⟩ := ih.act hserves hdir hrank hcapturing
      rw [hact] at hsame
      cases hsame
      exact hkeeps

end Runs

/-! ## A capture of its own -/

end GlmFlash.Worker.PromptLogprobs
