import GlmFlash.Encoder.JournalFile

/-!
# Journals over whole runs

The file is always the image of an earlier state of the journal.  It lags
behind after a write has failed, until the next new stage is written.  A call
that returns without writing, because its stage is in memory, is durable only
when the file does not lag behind.
-/

namespace GlmFlash.Encoder.StageJournal

open GlmFlash.Library

variable {runtime : Runtime} {recipe : Dict String Json} {stage : StageSeal}

/-! ## The file lags behind -/

def Within (left right : Dict String StageSeal) : Prop :=
  ∀ name stage, left.get? name = some stage → right.get? name = some stage

/-- The file is what the journal was when it was last written. -/
structure Image (world : World) (written : Journal) : Prop where
  file : world.file = some written.flush
  valid : written.Valid
  recipe : written.recipeConfig = world.journal.recipeConfig
  hash : written.recipeSha256 = world.journal.recipeSha256
  within : Within written.seals world.journal.seals
  current : world.flushFailed = false → written = world.journal
  behind : world.flushFailed = true → ∃ name stage,
    written.seals.get? name = none ∧
      world.journal.seals.get? name = some stage

structure Sound (runtime : Runtime) (world : World) : Prop where
  valid : world.journal.Valid
  hash : world.journal.recipeSha256 =
    runtime.sha256 (canonicalJsonBytes (.object world.journal.recipeConfig))
  image : ∃ written, Image world written

variable {world : World} {call : Call}

theorem Journal.Valid.set {journal : Journal} (hvalid : journal.Valid)
    (hstage : stage.Valid) : Journal.Valid { journal with
      seals := journal.seals.set stage.name stage } where
  nodup := Dict.nodup_keys_set hvalid.nodup
  seals := by
    intro name other hget
    by_cases hname : name = stage.name
    · rw [hname, Dict.get?_set_self, Option.some.injEq] at hget
      exact ⟨hget ▸ hname.symm, hget ▸ hstage⟩
    · rw [Dict.get?_set_of_ne hname] at hget
      exact hvalid.seals name other hget
  recipe_unique := hvalid.recipe_unique
  recipe_written := hvalid.recipe_written

theorem Within.set {left right : Dict String StageSeal} (hwithin : Within left right)
    (hnew : right.get? stage.name = none) :
    Within left (right.set stage.name stage) := by
  intro name other hget
  have hright := hwithin name other hget
  have hname : name ≠ stage.name := by
    rintro rfl
    rw [hnew] at hright
    cases hright
  rwa [Dict.get?_set_of_ne hname]

/-- What one call can do. -/
theorem sealStage_cases (runtime : Runtime) (world : World) (call : Call) :
    (sealStage runtime world call).1 = world ∧
        (∃ incumbent, world.journal.seals.get? call.stage.name =
            some incumbent ∧
          ((sealStage runtime world call).2 = .ok () ↔
            sameSeal runtime incumbent call.stage = true)) ∨
      world.journal.seals.get? call.stage.name = none ∧
        ∃ journal : Journal, journal = { world.journal with
            seals := world.journal.seals.set call.stage.name call.stage } ∧
          (call.written = true ∧ sealStage runtime world call =
              (⟨journal, some journal.flush, false⟩, .ok ()) ∨
            call.written = false ∧ sealStage runtime world call =
              (⟨journal, world.file, true⟩, .error .ioError)) := by
  rw [sealStage]
  cases hget : world.journal.seals.get? call.stage.name with
  | some incumbent =>
      refine .inl ⟨?_, incumbent, rfl, ?_⟩
      · dsimp only
        split <;> rfl
      · dsimp only
        split
        · rename_i hsame
          exact iff_of_true rfl hsame
        · rename_i hother
          exact iff_of_false (by rintro ⟨⟩) hother
  | none =>
      refine .inr ⟨rfl, _, rfl, ?_⟩
      cases hwritten : call.written with
      | true => exact .inl ⟨rfl, rfl⟩
      | false => exact .inr ⟨rfl, rfl⟩

theorem Image.self {journal : Journal} (hvalid : journal.Valid) :
    Image ⟨journal, some journal.flush, false⟩ journal where
  file := rfl
  valid := hvalid
  recipe := rfl
  hash := rfl
  within := fun _ _ hget => hget
  current := fun _ => rfl
  behind := by rintro ⟨⟩

/-- A write that fails leaves the old image. -/
theorem Image.failed {written journal : Journal} (himage : Image world written)
    (hnew : world.journal.seals.get? stage.name = none)
    (hjournal : journal = { world.journal with
      seals := world.journal.seals.set stage.name stage }) :
    Image ⟨journal, world.file, true⟩ written where
  file := himage.file
  valid := himage.valid
  recipe := by
    rw [himage.recipe, hjournal]
  hash := by
    rw [himage.hash, hjournal]
  within := by
    rw [hjournal]
    exact himage.within.set hnew
  current := by rintro ⟨⟩
  behind := by
    intro _
    refine ⟨stage.name, stage, ?_, ?_⟩
    · cases hold : written.seals.get? stage.name with
      | none => rfl
      | some other =>
          have hkept := himage.within stage.name other hold
          rw [hnew] at hkept
          cases hkept
    · rw [hjournal, Dict.get?_set_self]

/-- One call, step by step. -/
theorem Sound.sealStage (hsound : Sound runtime world)
    (hstage : call.stage.Valid) :
    Sound runtime (sealStage runtime world call).1 := by
  rcases sealStage_cases runtime world call with
    ⟨hsame, -⟩ | ⟨hnew, journal, hjournal, ⟨-, hstep⟩ | ⟨-, hstep⟩⟩
  · rw [hsame]
    exact hsound
  · have hvalid : journal.Valid := hjournal ▸ hsound.valid.set hstage
    rw [hstep]
    exact ⟨hvalid, by rw [hjournal]; exact hsound.hash, journal, .self hvalid⟩
  · have hvalid : journal.Valid := hjournal ▸ hsound.valid.set hstage
    obtain ⟨written, himage⟩ := hsound.image
    rw [hstep]
    exact ⟨hvalid, by rw [hjournal]; exact hsound.hash, written,
      himage.failed hnew hjournal⟩

/-! ## Opening the journal again -/

theorem openJournal_image {written : Journal} (hsound : Sound runtime world)
    (himage : Image world written) (flag : Bool) :
    openJournal runtime world.journal.recipeConfig world.file flag =
      .ok ⟨written.readBack, world.file, false⟩ := by
  have hempty : emptyJournal runtime world.journal.recipeConfig =
      { written with seals := [] } := by
    rw [emptyJournal, ← hsound.hash, ← himage.recipe, ← himage.hash]
  rw [himage.file, openJournal, hempty]
  change (readSeals runtime written.recipeSha256 written.flush >>= _) = _
  rw [readSeals_flush himage.valid]
  rfl

theorem Image.reopened {written : Journal} (himage : Image world written) :
    Image ⟨written.readBack, world.file, false⟩ written.readBack := by
  rw [himage.file, ← flush_readBack himage.valid]
  exact .self himage.valid.readBack

def Event.Valid : Event → Prop
  | .call call => call.stage.Valid
  | .reopen => True

variable {event : Event}

theorem step_reopen {written : Journal} (hsound : Sound runtime world)
    (himage : Image world written) : step runtime world .reopen =
      ⟨written.readBack, world.file, false⟩ := by
  rw [step, openJournal_image hsound himage]

theorem Sound.step (hsound : Sound runtime world) (hevent : event.Valid) :
    Sound runtime (step runtime world event) := by
  cases event with
  | call call => exact hsound.sealStage hevent
  | reopen =>
      obtain ⟨written, himage⟩ := hsound.image
      have hhash : written.recipeSha256 = runtime.sha256
          (canonicalJsonBytes (.object written.recipeConfig)) := by
        rw [himage.hash, himage.recipe]
        exact hsound.hash
      rw [step_reopen hsound himage]
      exact ⟨himage.valid.readBack, hhash, _, himage.reopened⟩

theorem Sound.run {events : List Event} (hsound : Sound runtime world)
    (hevents : ∀ event ∈ events, event.Valid) :
    Sound runtime (run runtime world events) := by
  induction events generalizing world with
  | nil => exact hsound
  | cons event events ih =>
      obtain ⟨hevent, hrest⟩ := List.forall_mem_cons.mp hevents
      exact ih (hsound.step hevent) hrest

/-- A new journal. -/
theorem Sound.start {start : World}
    (hunique : (Json.object recipe).uniqueKeys = true)
    (hwritten : (Json.object recipe).Written)
    (hstart : openJournal runtime recipe none true = .ok start) :
    Sound runtime start := by
  have hvalid : (emptyJournal runtime recipe).Valid := by
    refine ⟨List.nodup_nil, ?_, hunique, hwritten⟩
    intro name stage hget
    cases hget
  cases hstart
  exact ⟨hvalid, rfl, _, .self hvalid⟩

/-! ## Stages that are kept -/

section Properties

variable (runtime)

/-- The stage is there and was not changed. -/
def Holds (journal : Journal) (stage : StageSeal) : Prop :=
  ∃ found, journal.require stage.name = .ok found ∧
    sameSeal runtime found stage = true

/-- `has` and `require` tell the same of every name. -/
def Reports (left right : Journal) : Prop :=
  ∀ name, left.has name = right.has name ∧
    ∀ stage, left.require name = .ok stage →
      ∃ other, right.require name = .ok other ∧
        sameSeal runtime stage other = true

/-- A new process reads a journal with the property. -/
def OnDisk (world : World) (property : Journal → Prop) : Prop :=
  ∃ reopened, openJournal runtime world.journal.recipeConfig world.file false =
    .ok reopened ∧ property reopened.journal

/-- The stage is in a journal whose image the file is. -/
def Stored (world : World) (stage : StageSeal) : Prop :=
  ∃ written, Image world written ∧ Holds runtime written stage

end Properties

theorem require_eq_ok {journal : Journal} {name : String} :
    journal.require name = .ok stage ↔
      journal.seals.get? name = some stage := by
  rw [Journal.require]
  cases journal.seals.get? name with
  | none => exact iff_of_false (by rintro ⟨⟩) (by rintro ⟨⟩)
  | some found => rw [Except.ok.injEq, Option.some.injEq]

theorem Holds.within {left right : Journal} (hholds : Holds runtime left stage)
    (hwithin : Within left.seals right.seals) : Holds runtime right stage := by
  obtain ⟨found, hfound, hsame⟩ := hholds
  exact ⟨found, require_eq_ok.mpr (hwithin _ _ (require_eq_ok.mp hfound)), hsame⟩

theorem Holds.readBack {journal : Journal} (hvalid : journal.Valid)
    (hholds : Holds runtime journal stage) :
    Holds runtime journal.readBack stage := by
  obtain ⟨found, hfound, hsame⟩ := hholds
  refine ⟨found.canonical, ?_, ?_⟩
  · rw [require_eq_ok] at hfound ⊢
    rw [get?_readBack hvalid, hfound, Option.map_some]
  · exact runtime.same_trans _ _ _ (sameSeal_canonical found) hsame

theorem Stored.step (hstored : Stored runtime world stage)
    (hsound : Sound runtime world) (hevent : event.Valid) :
    Stored runtime (step runtime world event) stage := by
  obtain ⟨written, himage, hholds⟩ := hstored
  cases event with
  | reopen =>
      rw [step_reopen hsound himage]
      exact ⟨_, himage.reopened, hholds.readBack himage.valid⟩
  | call call =>
      rw [StageJournal.step]
      rcases sealStage_cases runtime world call with
        ⟨hsame, -⟩ | ⟨hnew, journal, hjournal, ⟨-, hstep⟩ | ⟨-, hstep⟩⟩
      · rw [hsame]
        exact ⟨written, himage, hholds⟩
      · have hvalid : journal.Valid := hjournal ▸ hsound.valid.set hevent
        rw [hstep]
        refine ⟨journal, .self hvalid, hholds.within ?_⟩
        rw [hjournal]
        exact himage.within.set hnew
      · rw [hstep]
        exact ⟨written, himage.failed hnew hjournal, hholds⟩

theorem Stored.run {events : List Event} (hstored : Stored runtime world stage)
    (hsound : Sound runtime world) (hevents : ∀ event ∈ events, event.Valid) :
    Stored runtime (run runtime world events) stage := by
  induction events generalizing world with
  | nil => exact hstored
  | cons event events ih =>
      obtain ⟨hevent, hrest⟩ := List.forall_mem_cons.mp hevents
      exact ih (hstored.step hsound hevent) (hsound.step hevent) hrest

theorem Stored.holds (hstored : Stored runtime world stage)
    (hsound : Sound runtime world) : Holds runtime world.journal stage ∧
      OnDisk runtime world fun journal => Holds runtime journal stage := by
  obtain ⟨written, himage, hholds⟩ := hstored
  exact ⟨hholds.within himage.within, _, openJournal_image hsound himage false,
    hholds.readBack himage.valid⟩

/-- The file tells what the journal tells unless the last write of it failed. -/
theorem Sound.reports_iff (hsound : Sound runtime world) :
    (OnDisk runtime world fun journal => Reports runtime journal world.journal) ↔
      world.flushFailed = false := by
  obtain ⟨written, himage⟩ := hsound.image
  constructor
  · rintro ⟨reopened, hopen, hreports⟩
    rw [openJournal_image hsound himage, Except.ok.injEq] at hopen
    apply Bool.eq_false_of_not_eq_true
    intro hfailed
    obtain ⟨name, stage, hnone, hsome⟩ := himage.behind hfailed
    have hhas := (hreports name).1
    rw [← hopen, Journal.has, Journal.has, get?_readBack himage.valid, hnone,
      hsome] at hhas
    cases hhas
  · intro hwritten
    have hcurrent := himage.current hwritten
    refine ⟨_, openJournal_image hsound himage false, fun name => ⟨?_, ?_⟩⟩
    · rw [Journal.has, Journal.has, get?_readBack himage.valid, hcurrent,
        Option.isSome_map]
    · intro stage hstage
      rw [require_eq_ok, get?_readBack himage.valid, hcurrent] at hstage
      obtain ⟨found, hfound, rfl⟩ := Option.map_eq_some_iff.mp hstage
      exact ⟨found, require_eq_ok.mpr hfound, sameSeal_canonical found⟩

/-! ## Calls that return -/

section Durable

variable (runtime)

/-- The file lags behind, and the call finds its stage in memory. -/
def Lagging (world : World) (call : Call) : Prop :=
  world.flushFailed = true ∧ ∃ incumbent,
    world.journal.seals.get? call.stage.name = some incumbent ∧
      sameSeal runtime incumbent call.stage = true

/-- What a call that returned leaves behind it, whatever comes later. -/
structure Durable (world : World) (stage : StageSeal) (later : List Event) :
    Prop where
  reports : OnDisk runtime world fun journal =>
    Reports runtime journal world.journal
  kept : ∀ middle, middle <+: later →
    Holds runtime (run runtime world middle).journal stage ∧
      OnDisk runtime (run runtime world middle) fun journal =>
        Holds runtime journal stage

end Durable

/-- A call that returns has stored its stage unless the file lags behind. -/
theorem Sound.stored_of_returned (hsound : Sound runtime world)
    (hstage : call.stage.Valid) (hcurrent : ¬Lagging runtime world call)
    (hreturned : (StageJournal.sealStage runtime world call).2 = .ok ()) :
    (StageJournal.sealStage runtime world call).1.flushFailed = false ∧
      Stored runtime (StageJournal.sealStage runtime world call).1
        call.stage := by
  rcases sealStage_cases runtime world call with
    ⟨hsame, incumbent, hget, hiff⟩ |
      ⟨hnew, journal, hjournal, ⟨-, hstep⟩ | ⟨-, hstep⟩⟩
  · have hequal := hiff.mp hreturned
    have hwritten : world.flushFailed = false := by
      apply Bool.eq_false_of_not_eq_true
      intro hfailed
      exact hcurrent ⟨hfailed, incumbent, hget, hequal⟩
    obtain ⟨written, himage⟩ := hsound.image
    rw [hsame]
    refine ⟨hwritten, written, himage, incumbent, ?_, hequal⟩
    rw [require_eq_ok, himage.current hwritten]
    exact hget
  · have hvalid : journal.Valid := hjournal ▸ hsound.valid.set hstage
    rw [hstep]
    refine ⟨rfl, journal, .self hvalid, call.stage, ?_, sameSeal_refl _⟩
    rw [require_eq_ok, hjournal, Dict.get?_set_self]
  · rw [hstep] at hreturned
    cases hreturned

theorem Sound.durable_iff {later : List Event} (hsound : Sound runtime world)
    (hstage : call.stage.Valid) (hlater : ∀ event ∈ later, event.Valid) :
    ((StageJournal.sealStage runtime world call).2 = .ok () →
        Durable runtime (StageJournal.sealStage runtime world call).1 call.stage
          later) ↔
      ¬Lagging runtime world call := by
  have hnext := hsound.sealStage hstage
  constructor
  · rintro hdurable ⟨hfailed, incumbent, hget, hequal⟩
    have hstep : StageJournal.sealStage runtime world call = (world, .ok ()) := by
      rw [StageJournal.sealStage, hget]
      exact if_pos hequal
    have hreports := (hdurable (congrArg Prod.snd hstep)).reports
    rw [hnext.reports_iff, hstep, hfailed] at hreports
    cases hreports
  · intro hcurrent hreturned
    obtain ⟨hwritten, hstored⟩ :=
      hsound.stored_of_returned hstage hcurrent hreturned
    refine ⟨hnext.reports_iff.mpr hwritten, fun middle hinitial => ?_⟩
    have hmiddle : ∀ event ∈ middle, event.Valid := fun event hmem =>
      hlater event (hinitial.subset hmem)
    exact (hstored.run hnext hmiddle).holds (hnext.run hmiddle)

/-- In a run every call that returns is durable if and only if no call finds its
stage in memory while the file lags behind. -/
theorem calls_durable_iff {start : World} {events : List Event}
    (hunique : (Json.object recipe).uniqueKeys = true)
    (hwritten : (Json.object recipe).Written)
    (hstart : openJournal runtime recipe none true = .ok start)
    (hevents : ∀ event ∈ events, event.Valid) :
    (∀ earlier call later, events = earlier ++ .call call :: later →
        (sealStage runtime (run runtime start earlier) call).2 = .ok () →
        Durable runtime (sealStage runtime (run runtime start earlier) call).1
          call.stage later) ↔
      ∀ earlier call later, events = earlier ++ .call call :: later →
        ¬Lagging runtime (run runtime start earlier) call := by
  have hcall (earlier : List Event) (call : Call) (later : List Event)
      (hsplit : events = earlier ++ .call call :: later) :
      ((sealStage runtime (run runtime start earlier) call).2 = .ok () →
          Durable runtime (sealStage runtime (run runtime start earlier) call).1
            call.stage later) ↔
        ¬Lagging runtime (run runtime start earlier) call := by
    rw [hsplit, List.forall_mem_append, List.forall_mem_cons] at hevents
    obtain ⟨hearlier, hstage, hlater⟩ := hevents
    have hsound := (Sound.start hunique hwritten hstart).run hearlier
    exact hsound.durable_iff hstage hlater
  constructor
  · intro hdurable earlier call later hsplit
    exact (hcall earlier call later hsplit).mp (hdurable earlier call later hsplit)
  · intro hcurrent earlier call later hsplit
    exact (hcall earlier call later hsplit).mpr (hcurrent earlier call later hsplit)

/-- Values are compared by the text of their sorted form. -/
def textRuntime : Runtime where
  sha256 := fun _ =>
    "44136fa355b3678a1146ad16f7e8649e94fb4fc21fe77e8310c060f61caaff8a"
  decode := fun _ => none
  same := fun left right => decide (left.sortKeys.dump = right.sortKeys.dump)
  same_refl := fun _ => decide_eq_true rfl
  same_symm := fun _ _ hsame => decide_eq_true (of_decide_eq_true hsame).symm
  same_trans := fun _ _ _ hfirst hsecond => decide_eq_true
    ((of_decide_eq_true hfirst).trans (of_decide_eq_true hsecond))
  same_sortKeys := fun value =>
    decide_eq_true (congrArg Json.dump value.sortKeys_sortKeys)

def plainStage (name : String) : StageSeal := ⟨name, [], [], []⟩

theorem written_noFields : (Json.object []).Written :=
  .object (by rintro _ ⟨⟩)

theorem valid_plainStage (name : String) : (plainStage name).Valid where
  unique := by
    rw [Json.uniqueKeys_object]
    refine ⟨asdict_keys _, ?_⟩
    simp [StageSeal.asdict, plainStage, Json.uniqueKeys, uniqueFields]
  written := by
    refine .object fun field hmem => ?_
    simp only [StageSeal.asdict, List.mem_cons, List.not_mem_nil, or_false] at hmem
    rcases hmem with rfl | rfl | rfl | rfl
    · exact .text name
    all_goals exact written_noFields

/-- A new journal without a recipe. -/
def plainStart : World where
  journal := emptyJournal textRuntime []
  file := some (emptyJournal textRuntime []).flush
  flushFailed := false

theorem open_plainStart : openJournal textRuntime [] none true = .ok plainStart :=
  rfl

/-- The second write would have been needed: the first one failed, and a new
process does not find the stage. -/
theorem retried_call_not_durable :
    ¬∀ earlier call later,
      [.call ⟨plainStage "a", false⟩, .call ⟨plainStage "a", true⟩] =
          earlier ++ Event.call call :: later →
        (sealStage textRuntime (run textRuntime plainStart earlier) call).2 =
            .ok () →
          Durable textRuntime
            (sealStage textRuntime (run textRuntime plainStart earlier) call).1
            call.stage later := by
  intro hdurable
  have hsound : Sound textRuntime plainStart :=
    .start rfl written_noFields open_plainStart
  have hevent : (Event.call ⟨plainStage "a", false⟩).Valid := valid_plainStage "a"
  have hretry := hdurable [.call ⟨plainStage "a", false⟩] ⟨plainStage "a", true⟩ []
    rfl
  have hcurrent := ((hsound.step hevent).durable_iff (valid_plainStage "a")
    (List.forall_mem_nil Event.Valid)).mp hretry
  exact hcurrent ⟨rfl, plainStage "a", rfl, sameSeal_refl _⟩

/-- A call that failed is repeated after another stage was written. -/
theorem calls_durable_iff_three :
    Durable textRuntime
      (sealStage textRuntime (run textRuntime plainStart
        [.call ⟨plainStage "a", false⟩, .call ⟨plainStage "b", true⟩])
          ⟨plainStage "a", true⟩).1 (plainStage "a") [] := by
  have hevents : ∀ event ∈ [Event.call ⟨plainStage "a", false⟩,
      .call ⟨plainStage "b", true⟩, .call ⟨plainStage "a", true⟩],
      event.Valid := by
    simp only [List.forall_mem_cons, Event.Valid]
    exact ⟨valid_plainStage "a", valid_plainStage "b", valid_plainStage "a",
      by rintro _ ⟨⟩⟩
  have hcurrent : ∀ earlier call later,
      [.call ⟨plainStage "a", false⟩, .call ⟨plainStage "b", true⟩,
            .call ⟨plainStage "a", true⟩] =
          earlier ++ Event.call call :: later →
        ¬Lagging textRuntime (run textRuntime plainStart earlier) call := by
    rintro earlier call later hsplit ⟨hfailed, incumbent, hget, -⟩
    match earlier with
    | [] => cases hfailed
    | [_] =>
        cases hsplit
        cases hget
    | [_, _] =>
        cases hsplit
        cases hfailed
    | _ :: _ :: _ :: _ =>
        have hlength := congrArg List.length hsplit
        simp at hlength
  have hdurable :=
    (calls_durable_iff rfl written_noFields open_plainStart hevents).mpr hcurrent
  exact hdurable [.call ⟨plainStage "a", false⟩, .call ⟨plainStage "b", true⟩]
    ⟨plainStage "a", true⟩ [] rfl rfl

end GlmFlash.Encoder.StageJournal
