import Mathlib.Data.List.Basic
import Mathlib.Logic.Function.Basic

/-!
# Asynchronous copies into host slots

A copy is started from a staging buffer and lands in its host slot at any time
until it is synchronised.  A program that touches a slot only when no copy into
it can be under way reads the same values whenever the copies land, namely the
ones it would read if every copy landed at once.
-/

namespace GlmFlash.Library

variable {Slot Index Row : Type*}

structure CopyMemory (Slot Index Row : Type*) where
  device : Index → Row
  staging : Slot → Index → Row
  host : Slot → Index → Row

inductive CopyAction (Slot Index Row : Type*) where
  | fillHost (slot : Slot) (rows : List Index) (value : Row)
  | readHost (slot : Slot) (rows : List Index)
  | setDevice (rows : List (Index × Row))
  | stage (slot : Slot)
  | startCopy (slot : Slot)
  | synchronize (slot : Slot)

/-- The slot that the action touches while no copy into it may be under way. -/
def CopyAction.slot? : CopyAction Slot Index Row → Option Slot
  | .fillHost slot _ _ | .readHost slot _ | .stage slot => some slot
  | .setDevice _ | .startCopy _ | .synchronize _ => none

variable [DecidableEq Slot] [DecidableEq Index]

/-- One assignment after the other. -/
def setRows (rows : List (Index × Row)) (values : Index → Row) : Index → Row :=
  rows.foldl (fun values row => Function.update values row.1 row.2) values

def fillRows (rows : List Index) (value : Row) (values : Index → Row) :
    Index → Row :=
  fun index => if index ∈ rows then value else values index

/-! ## Copies that land at once -/

namespace CopyMemory

variable (memory : CopyMemory Slot Index Row)

def act : CopyAction Slot Index Row → CopyMemory Slot Index Row
  | .fillHost slot rows value => { memory with
      host := Function.update memory.host slot
        (fillRows rows value (memory.host slot)) }
  | .readHost _ _ | .synchronize _ => memory
  | .setDevice rows => { memory with device := setRows rows memory.device }
  | .stage slot => { memory with
      staging := Function.update memory.staging slot memory.device }
  | .startCopy slot => { memory with
      host := Function.update memory.host slot (memory.staging slot) }

def readOf : CopyAction Slot Index Row → List (List Row)
  | .readHost slot rows => [rows.map (memory.host slot)]
  | _ => []

def run (actions : List (CopyAction Slot Index Row)) : CopyMemory Slot Index Row :=
  actions.foldl act memory

/-- What the program reads. -/
def reads (memory : CopyMemory Slot Index Row) :
    List (CopyAction Slot Index Row) → List (List Row)
  | [] => []
  | action :: actions => memory.readOf action ++ reads (memory.act action) actions

theorem run_append (actions later : List (CopyAction Slot Index Row)) :
    memory.run (actions ++ later) = (memory.run actions).run later :=
  List.foldl_append

theorem reads_append (actions later : List (CopyAction Slot Index Row)) :
    memory.reads (actions ++ later) =
      memory.reads actions ++ (memory.run actions).reads later := by
  induction actions generalizing memory with
  | nil => rfl
  | cons action actions ih =>
      rw [List.cons_append, reads, ih, reads, List.append_assoc]
      rfl

end CopyMemory

/-! ## Copies under way -/

structure CopyWorld (Slot Index Row : Type*) extends
    CopyMemory Slot Index Row where
  inFlight : Slot → Bool

/-- An action of the program, or a copy that lands. -/
inductive CopyMove (Slot Index Row : Type*) where
  | act (action : CopyAction Slot Index Row)
  | land (slot : Slot)

def CopyMove.action? : CopyMove Slot Index Row → Option (CopyAction Slot Index Row)
  | .act action => some action
  | .land _ => none

namespace CopyWorld

variable (world : CopyWorld Slot Index Row)

/-- The copy into the slot, if there is one, has written the slot. -/
def land (slot : Slot) : CopyWorld Slot Index Row :=
  if world.inFlight slot then { world with
    host := Function.update world.host slot (world.staging slot)
    inFlight := Function.update world.inFlight slot false }
  else world

def act : CopyAction Slot Index Row → CopyWorld Slot Index Row
  | .startCopy slot => { world with
      inFlight := Function.update world.inFlight slot true }
  | .synchronize slot => world.land slot
  | action => { world with toCopyMemory := world.toCopyMemory.act action }

def move : CopyMove Slot Index Row → CopyWorld Slot Index Row
  | .act action => world.act action
  | .land slot => world.land slot

def readOf : CopyMove Slot Index Row → List (List Row)
  | .act action => world.toCopyMemory.readOf action
  | .land _ => []

def run (moves : List (CopyMove Slot Index Row)) : CopyWorld Slot Index Row :=
  moves.foldl move world

def reads (world : CopyWorld Slot Index Row) :
    List (CopyMove Slot Index Row) → List (List Row)
  | [] => []
  | next :: moves => world.readOf next ++ reads (world.move next) moves

/-- What the slot holds when the copy into it has landed. -/
def content (slot : Slot) : Index → Row :=
  if world.inFlight slot then world.staging slot else world.host slot

end CopyWorld

/-! ## Programs without races -/

/-- The slots into which a copy may be under way after the action. -/
def busyAfter (busy : Slot → Bool) : CopyAction Slot Index Row → Slot → Bool
  | .startCopy slot => Function.update busy slot true
  | .synchronize slot => Function.update busy slot false
  | _ => busy

def RaceFree (busy : Slot → Bool) : List (CopyAction Slot Index Row) → Prop
  | [] => True
  | action :: actions => (∀ slot ∈ action.slot?, busy slot = false) ∧
      RaceFree (busyAfter busy action) actions

def busyRun (busy : Slot → Bool) (actions : List (CopyAction Slot Index Row)) :
    Slot → Bool :=
  actions.foldl busyAfter busy

omit [DecidableEq Index] in
theorem RaceFree.append {busy : Slot → Bool}
    {actions later : List (CopyAction Slot Index Row)}
    (hfirst : RaceFree busy actions) (hlater : RaceFree (busyRun busy actions) later) :
    RaceFree busy (actions ++ later) := by
  induction actions generalizing busy with
  | nil => exact hlater
  | cons action actions ih => exact ⟨hfirst.1, ih hfirst.2 hlater⟩

/-- The world is the memory, up to the copies that are under way. -/
structure Stands (world : CopyWorld Slot Index Row)
    (memory : CopyMemory Slot Index Row) (busy : Slot → Bool) : Prop where
  device : world.device = memory.device
  staging : world.staging = memory.staging
  host : ∀ slot, world.content slot = memory.host slot
  inFlight : ∀ slot, busy slot = false → world.inFlight slot = false

variable {world : CopyWorld Slot Index Row} {memory : CopyMemory Slot Index Row}
  {busy : Slot → Bool}

omit [DecidableEq Slot] [DecidableEq Index] in
theorem Stands.host_eq (hstands : Stands world memory busy) {slot : Slot}
    (hidle : busy slot = false) : world.host slot = memory.host slot := by
  rw [← hstands.host slot, CopyWorld.content, hstands.inFlight slot hidle]
  rfl

omit [DecidableEq Index] in
theorem Stands.land (hstands : Stands world memory busy) (slot : Slot) :
    Stands (world.land slot) memory busy := by
  rw [CopyWorld.land]
  cases hflying : world.inFlight slot with
  | false => exact hstands
  | true =>
      refine ⟨hstands.device, hstands.staging, ?_, ?_⟩
      · intro other
        rw [← hstands.host other, CopyWorld.content, CopyWorld.content]
        by_cases hother : other = slot
        · subst hother
          simp [hflying]
        · simp [hother]
      · intro other hidle
        by_cases hother : other = slot
        · rw [hother]
          exact Function.update_self _ _ _
        · simp [hother, hstands.inFlight other hidle]

/-- One action of a program without races. -/
theorem Stands.act {action : CopyAction Slot Index Row}
    (hstands : Stands world memory busy)
    (hidle : ∀ slot ∈ action.slot?, busy slot = false) :
    Stands (world.act action) (memory.act action) (busyAfter busy action) := by
  cases action with
  | readHost => exact hstands
  | setDevice rows =>
      refine ⟨?_, hstands.staging, hstands.host, hstands.inFlight⟩
      exact congrArg (setRows rows) hstands.device
  | fillHost slot rows value =>
      have hslot : busy slot = false := hidle slot rfl
      refine ⟨hstands.device, hstands.staging, ?_, hstands.inFlight⟩
      intro other
      have hother := hstands.host other
      rw [CopyWorld.content] at hother ⊢
      by_cases heq : other = slot
      · subst heq
        simp [CopyWorld.act, CopyMemory.act, hstands.inFlight other hslot,
          hstands.host_eq hslot]
      · simpa [CopyWorld.act, CopyMemory.act, heq] using hother
  | stage slot =>
      have hslot : busy slot = false := hidle slot rfl
      refine ⟨hstands.device, ?_, ?_, hstands.inFlight⟩
      · simp only [CopyWorld.act, CopyMemory.act, hstands.device, hstands.staging]
      · intro other
        have hother := hstands.host other
        rw [CopyWorld.content] at hother ⊢
        by_cases heq : other = slot
        · subst heq
          simp [CopyWorld.act, CopyMemory.act, hstands.inFlight other hslot,
            hstands.host_eq hslot]
        · simpa [CopyWorld.act, CopyMemory.act, heq] using hother
  | startCopy slot =>
      refine ⟨hstands.device, hstands.staging, ?_, ?_⟩
      · intro other
        have hother := hstands.host other
        rw [CopyWorld.content] at hother ⊢
        by_cases heq : other = slot
        · subst heq
          simp [CopyWorld.act, CopyMemory.act, hstands.staging]
        · simpa [CopyWorld.act, CopyMemory.act, heq] using hother
      · intro other hbusy
        by_cases heq : other = slot
        · rw [heq, busyAfter, Function.update_self] at hbusy
          cases hbusy
        · rw [busyAfter, Function.update_of_ne heq] at hbusy
          exact (Function.update_of_ne heq _ _).trans
            (hstands.inFlight other hbusy)
  | synchronize slot =>
      have hland := hstands.land slot
      refine ⟨hland.device, hland.staging, hland.host, ?_⟩
      intro other hbusy
      by_cases heq : other = slot
      · subst heq
        rw [CopyWorld.act, CopyWorld.land]
        cases hflying : world.inFlight other with
        | false => exact hflying
        | true => exact Function.update_self _ _ _
      · rw [busyAfter, Function.update_of_ne heq] at hbusy
        exact hland.inFlight other hbusy

omit [DecidableEq Slot] [DecidableEq Index] in
theorem Stands.readOf {action : CopyAction Slot Index Row}
    (hstands : Stands world memory busy)
    (hidle : ∀ slot ∈ action.slot?, busy slot = false) :
    world.toCopyMemory.readOf action = memory.readOf action := by
  cases action with
  | readHost slot rows =>
      rw [CopyMemory.readOf, CopyMemory.readOf, hstands.host_eq (hidle slot rfl)]
  | _ => rfl

/-- Whenever the copies land, a program without races reads the same. -/
theorem Stands.reads {moves : List (CopyMove Slot Index Row)}
    (hstands : Stands world memory busy)
    (hfree : RaceFree busy (moves.filterMap CopyMove.action?)) :
    world.reads moves = memory.reads (moves.filterMap CopyMove.action?) := by
  induction moves generalizing world memory busy with
  | nil => rfl
  | cons next moves ih =>
      cases next with
      | land slot => exact ih (hstands.land slot) hfree
      | act action =>
          have hread := hstands.readOf hfree.1
          have hrest := ih (hstands.act hfree.1) hfree.2
          exact congrArg₂ List.append hread hrest

/-- No slot is touched while a copy into it is under way. -/
theorem Stands.idle {before after : List (CopyMove Slot Index Row)}
    {action : CopyAction Slot Index Row} {slot : Slot}
    (hstands : Stands world memory busy)
    (hfree : RaceFree busy
      ((before ++ .act action :: after).filterMap CopyMove.action?))
    (hslot : slot ∈ action.slot?) : (world.run before).inFlight slot = false := by
  induction before generalizing world memory busy with
  | nil => exact hstands.inFlight slot (hfree.1 slot hslot)
  | cons next before ih =>
      cases next with
      | land other => exact ih (hstands.land other) hfree
      | act other => exact ih (hstands.act hfree.1) hfree.2

end GlmFlash.Library
