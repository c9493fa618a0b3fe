import Mathlib.Data.List.Chain
import Mathlib.Data.List.Nodup

/-!
# Doubly linked paths

A store of `prev` and `next` pointers holds a path when neighbours point to
each other.  A path survives writes elsewhere, and two paths are joined by
connecting the end of one to the start of the other.
-/

namespace GlmFlash.Library

variable {N : Type*}

structure Links (N : Type*) where
  prev : N → Option N
  next : N → Option N

namespace Links

/-- Neighbours point to each other. -/
def Path (links : Links N) (nodes : List N) : Prop :=
  nodes.IsChain fun left right =>
    links.next left = some right ∧ links.prev right = some left

/-- The nodes on the way to one that has no successor. -/
def follow (step : N → Option N) : ℕ → N → Option (List N)
  | 0, _ => none
  | fuel + 1, node =>
      match step node with
      | none => some []
      | some later => (follow step fuel later).map (node :: ·)

section Write

variable [DecidableEq N]

/-- Let two nodes point to each other. -/
def connect (links : Links N) (left right : N) : Links N where
  prev := Function.update links.prev right (some left)
  next := Function.update links.next left (some right)

def isolate (links : Links N) (node : N) : Links N where
  prev := Function.update links.prev node none
  next := Function.update links.next node none

/-- Connect nodes one behind the other, and return the last of them. -/
def connectAll (links : Links N) (last : N) : List N → Links N × N
  | [] => (links, last)
  | node :: nodes => (links.connect last node).connectAll node nodes

end Write

variable {links links' : Links N} {nodes left right : List N}

@[simp]
theorem path_singleton (node : N) : links.Path [node] :=
  .singleton node

theorem path_cons_cons {first second : N} :
    links.Path (first :: second :: nodes) ↔
      (links.next first = some second ∧ links.prev second = some first) ∧
        links.Path (second :: nodes) :=
  List.isChain_cons_cons

theorem path_append : links.Path (left ++ right) ↔
    links.Path left ∧ links.Path right ∧
      ∀ first ∈ left.getLast?, ∀ second ∈ right.head?,
        links.next first = some second ∧ links.prev second = some first :=
  List.isChain_append

theorem path_reverse : links.Path nodes.reverse ↔
    Path ⟨links.next, links.prev⟩ nodes := by
  rw [Path, List.isChain_reverse, Path]
  simp only [and_comm]

/-- Only the pointers along a path matter. -/
theorem Path.congr (hpath : links.Path nodes)
    (hnext : ∀ node ∈ nodes.dropLast, links'.next node = links.next node)
    (hprev : ∀ node ∈ nodes.tail, links'.prev node = links.prev node) :
    links'.Path nodes := by
  induction nodes with
  | nil => exact .nil
  | cons first nodes ih =>
      cases nodes with
      | nil => exact .singleton first
      | cons second nodes =>
          rw [path_cons_cons] at hpath ⊢
          have hfirst := hnext first (by simp)
          have hsecond := hprev second (by simp)
          refine ⟨⟨hfirst.trans hpath.1.1, hsecond.trans hpath.1.2⟩, ?_⟩
          apply ih hpath.2
          · intro node hnode
            exact hnext node (by
              rw [List.dropLast_cons_cons]
              exact List.mem_cons_of_mem first hnode)
          · intro node hnode
            exact hprev node (List.mem_cons_of_mem second hnode)

theorem Path.next_first {first last : N}
    (hpath : links.Path (first :: (nodes ++ [last]))) :
    links.next first = some ((nodes ++ [last]).head (by simp)) := by
  cases nodes with
  | nil => exact (path_cons_cons.mp hpath).1.1
  | cons second nodes => exact (path_cons_cons.mp hpath).1.1

/-- Following a path collects every node but the last. -/
theorem Path.follow_next {last : N} (hpath : links.Path (nodes ++ [last]))
    (hlast : links.next last = none) {fuel : ℕ}
    (hfuel : nodes.length < fuel) :
    follow links.next fuel ((nodes ++ [last]).head (by simp)) =
      some nodes := by
  induction nodes generalizing fuel with
  | nil =>
      cases fuel with
      | zero => exact absurd hfuel (Nat.not_lt_zero _)
      | succ fuel => simp [follow, hlast]
  | cons first nodes ih =>
      cases fuel with
      | zero => exact absurd hfuel (Nat.not_lt_zero _)
      | succ fuel =>
          have hnext := hpath.next_first
          have hlater := ih hpath.tail (Nat.lt_of_succ_lt_succ hfuel)
          simp only [List.cons_append, List.head_cons, follow, hnext,
            hlater, Option.map_some]

/-- A traversal between two ends meets every node between them. -/
theorem Path.follow_between {first last : N}
    (hpath : links.Path (first :: (nodes ++ [last])))
    (hlast : links.next last = none) {fuel : ℕ}
    (hfuel : nodes.length < fuel) :
    (links.next first).bind (follow links.next fuel) = some nodes := by
  rw [hpath.next_first]
  exact Path.follow_next hpath.tail hlast hfuel

section Write

variable [DecidableEq N]

theorem connect_next_of_ne {first second node : N} (hne : node ≠ first) :
    (links.connect first second).next node = links.next node :=
  Function.update_of_ne hne _ _

theorem connect_prev_of_ne {first second node : N} (hne : node ≠ second) :
    (links.connect first second).prev node = links.prev node :=
  Function.update_of_ne hne _ _

@[simp]
theorem connect_next_self (first second : N) :
    (links.connect first second).next first = some second :=
  Function.update_self _ _ _

@[simp]
theorem connect_prev_self (first second : N) :
    (links.connect first second).prev second = some first :=
  Function.update_self _ _ _

theorem Path.connect (hpath : links.Path nodes) {first second : N}
    (hfirst : first ∉ nodes.dropLast) (hsecond : second ∉ nodes.tail) :
    (links.connect first second).Path nodes := by
  apply hpath.congr
  · intro node hnode
    exact connect_next_of_ne (ne_of_mem_of_not_mem hnode hfirst)
  · intro node hnode
    exact connect_prev_of_ne (ne_of_mem_of_not_mem hnode hsecond)

theorem Path.isolate (hpath : links.Path nodes) {node : N}
    (hnode : node ∉ nodes) : (links.isolate node).Path nodes := by
  apply hpath.congr
  · intro other hother
    exact Function.update_of_ne (ne_of_mem_of_not_mem
      (List.dropLast_subset _ hother) hnode) _ _
  · intro other hother
    exact Function.update_of_ne (ne_of_mem_of_not_mem
      (List.mem_of_mem_tail hother) hnode) _ _

/-- Two paths without a common node become one. -/
theorem Path.join {first second : N} (hleft : links.Path left)
    (hright : links.Path right) (hlast : left.getLast? = some first)
    (hhead : right.head? = some second) (hnodup : (left ++ right).Nodup) :
    (links.connect first second).Path (left ++ right) := by
  have hparts := List.nodup_append.mp hnodup
  have hfirst : first ∈ left := List.mem_of_getLast? hlast
  have hsecond : second ∈ right := List.mem_of_mem_head? hhead
  rw [path_append]
  refine ⟨hleft.connect ?_ ?_, hright.connect ?_ ?_, ?_⟩
  · intro hmem
    obtain ⟨front, hfront⟩ := List.getLast?_eq_some_iff.mp hlast
    rw [hfront, List.dropLast_concat] at hmem
    rw [hfront] at hparts
    exact (List.nodup_append.mp hparts.1).2.2 first hmem first (by simp) rfl
  · intro hmem
    exact hparts.2.2 second (List.mem_of_mem_tail hmem) second hsecond rfl
  · intro hmem
    exact hparts.2.2 first hfirst first (List.dropLast_subset _ hmem) rfl
  · intro hmem
    obtain ⟨rest, hrest⟩ := List.head?_eq_some_iff.mp hhead
    rw [hrest, List.tail_cons] at hmem
    rw [hrest] at hparts
    exact (List.nodup_cons.mp hparts.2.1).1 hmem
  · intro node hnode node' hnode'
    rw [hlast] at hnode
    rw [hhead] at hnode'
    cases hnode
    cases hnode'
    simp

/-- New nodes extend a path, one behind the other. -/
theorem Path.connectAll {last : N} (hleft : links.Path left)
    (hlast : left.getLast? = some last) (hnodup : (left ++ nodes).Nodup) :
    (links.connectAll last nodes).1.Path (left ++ nodes) ∧
      (left ++ nodes).getLast? = some (links.connectAll last nodes).2 := by
  induction nodes generalizing links last left with
  | nil =>
      rw [List.append_nil]
      exact ⟨hleft, hlast⟩
  | cons node nodes ih =>
      have hsplit : left ++ node :: nodes = left ++ [node] ++ nodes := by simp
      rw [hsplit] at hnodup ⊢
      have hstep : (links.connect last node).Path (left ++ [node]) :=
        hleft.join (path_singleton node) hlast rfl
          (List.nodup_append.mp hnodup).1
      exact ih hstep List.getLast?_concat hnodup

/-- A path elsewhere is not touched. -/
theorem Path.connectAll_frame (hpath : links.Path left) {last : N}
    (hlast : last ∉ left) (hnodes : ∀ node ∈ nodes, node ∉ left) :
    (links.connectAll last nodes).1.Path left := by
  induction nodes generalizing links last with
  | nil => exact hpath
  | cons node nodes ih =>
      have hnode := hnodes node List.mem_cons_self
      apply ih
      · apply hpath.connect
        · exact fun hmem => hlast (List.dropLast_subset _ hmem)
        · exact fun hmem => hnode (List.mem_of_mem_tail hmem)
      · exact hnode
      · exact fun other hother =>
          hnodes other (List.mem_cons_of_mem node hother)

theorem connectAll_next_of_ne {last node : N} (hlast : node ≠ last)
    (hnodes : node ∉ nodes) :
    (links.connectAll last nodes).1.next node = links.next node := by
  induction nodes generalizing links last with
  | nil => rfl
  | cons first nodes ih =>
      rw [List.mem_cons, not_or] at hnodes
      rw [Links.connectAll, ih hnodes.1 hnodes.2, connect_next_of_ne hlast]

theorem connectAll_prev_of_notMem {last node : N} (hnodes : node ∉ nodes) :
    (links.connectAll last nodes).1.prev node = links.prev node := by
  induction nodes generalizing links last with
  | nil => rfl
  | cons first nodes ih =>
      rw [List.mem_cons, not_or] at hnodes
      rw [Links.connectAll, ih hnodes.2, connect_prev_of_ne hnodes.1]

theorem isolate_next_of_ne {node other : N} (hne : other ≠ node) :
    (links.isolate node).next other = links.next other :=
  Function.update_of_ne hne _ _

theorem isolate_prev_of_ne {node other : N} (hne : other ≠ node) :
    (links.isolate node).prev other = links.prev other :=
  Function.update_of_ne hne _ _

@[simp]
theorem isolate_next_self (node : N) :
    (links.isolate node).next node = none :=
  Function.update_self _ _ _

@[simp]
theorem isolate_prev_self (node : N) :
    (links.isolate node).prev node = none :=
  Function.update_self _ _ _

end Write

end Links

end GlmFlash.Library
