import GlmFlash.Cache.BlockPool
import GlmFlash.Library.LinkedPath
import Mathlib.Data.Int.Notation
import Mathlib.Data.List.Range

/-!
# The linked free queue

`FreeKVCacheBlockQueue` threads the free blocks between a fake head and a fake
tail through pointers in the blocks themselves.  The pool's model keeps the
list that a traversal yields.  Here are the pointers: every operation on them
does to that list what the pool's model says, and a traversal from the tail
meets the same blocks in reverse.
-/

namespace GlmFlash.Cache

open GlmFlash.Library

inductive FreeNode where
  | head
  | tail
  | block (blockId : BlockId)
  deriving DecidableEq

/-- The pointers of the fake head, the fake tail and the blocks, and the
counter beside them. -/
structure LinkedFreeQueue where
  links : Links FreeNode
  numFreeBlocks : ℤ

namespace LinkedFreeQueue

/-- The constructor, on the blocks of a new pool. -/
def ofBlocks (numBlocks : ℕ) : LinkedFreeQueue where
  links :=
    { prev := fun
        | .head => none
        | .tail =>
            if 0 < numBlocks then some (.block (numBlocks - 1))
            else some .head
        | .block blockId =>
            if numBlocks ≤ blockId then none
            else if 0 < blockId then some (.block (blockId - 1))
            else some .head
      next := fun
        | .head => if 0 < numBlocks then some (.block 0) else some .tail
        | .tail => none
        | .block blockId =>
            if numBlocks ≤ blockId then none
            else if blockId + 1 < numBlocks then some (.block (blockId + 1))
            else some .tail }
  numFreeBlocks := numBlocks

/-- Pop the first block, which needs a successor. -/
def popleft (queue : LinkedFreeQueue) :
    Except Failure (BlockId × LinkedFreeQueue) :=
  match queue.links.next .head with
  | some (.block first) =>
      match queue.links.next (.block first) with
      | none => .error (.invalidBlock first)
      | some second =>
          .ok (first,
            { links := (queue.links.connect .head second).isolate
                (.block first)
              numFreeBlocks := queue.numFreeBlocks - 1 })
  | _ =>
      if queue.numFreeBlocks = 0 then .error (.cannotGetFreeBlocks 1)
      else .error .assertionError

/-- The loop of `popleft_n`: the popped blocks, the pointers left behind and
the node reached.  The fake tail is no block, and the loop stops there. -/
def popLoop (links : Links FreeNode) :
    ℕ → Option FreeNode →
      Except Failure (List BlockId × Links FreeNode × Option FreeNode)
  | 0, currBlock => .ok ([], links, currBlock)
  | count + 1, some (.block block) => do
      let rest ← popLoop (links.isolate (.block block)) count
        (links.next (.block block))
      return (block :: rest.1, rest.2)
  | _ + 1, _ => .error .assertionError

def popleftN (queue : LinkedFreeQueue) (n : ℤ) :
    Except Failure (List BlockId × LinkedFreeQueue) :=
  if n = 0 then .ok ([], queue)
  else do
    require (n ≤ queue.numFreeBlocks) .assertionError
    let (ret, links, currBlock) ← popLoop queue.links n.toNat
      (queue.links.next .head)
    return (ret,
      { links := match currBlock with
          | some node => links.connect .head node
          | none => links
        numFreeBlocks := queue.numFreeBlocks - n })

def remove (queue : LinkedFreeQueue) (block : BlockId) :
    Except Failure LinkedFreeQueue :=
  match queue.links.prev (.block block), queue.links.next (.block block) with
  | some before, some after =>
      .ok
        { links := (queue.links.connect before after).isolate (.block block)
          numFreeBlocks := queue.numFreeBlocks - 1 }
  | _, _ => .error (.invalidBlock block)

def prependN (queue : LinkedFreeQueue) (blocks : List BlockId) :
    Except Failure LinkedFreeQueue :=
  if blocks = [] then .ok queue
  else
    match queue.links.next .head with
    | none => .error .assertionError
    | some first =>
        let (links, prevBlock) :=
          queue.links.connectAll .head (blocks.map .block)
        .ok
          { links := links.connect prevBlock first
            numFreeBlocks := queue.numFreeBlocks + blocks.length }

def appendN (queue : LinkedFreeQueue) (blocks : List BlockId) :
    Except Failure LinkedFreeQueue :=
  if blocks = [] then .ok queue
  else
    match queue.links.prev .tail with
    | none => .error .assertionError
    | some last =>
        let (links, lastBlock) :=
          queue.links.connectAll last (blocks.map .block)
        .ok
          { links := links.connect lastBlock .tail
            numFreeBlocks := queue.numFreeBlocks + blocks.length }

/-- `get_all_free_blocks`, in at most `fuel` steps. -/
def getAllFreeBlocks (queue : LinkedFreeQueue) (fuel : ℕ) :
    Option (List FreeNode) :=
  (queue.links.next .head).bind (Links.follow queue.links.next fuel)

/-- The traversal from the fake tail. -/
def getAllFreeBlocksBackwards (queue : LinkedFreeQueue) (fuel : ℕ) :
    Option (List FreeNode) :=
  (queue.links.prev .tail).bind (Links.follow queue.links.prev fuel)

/-- The nodes behind the fake head. -/
def toTail (order : List BlockId) : List FreeNode :=
  order.map .block ++ [.tail]

/-- The queue holds the blocks of `order` in this order, and no other block
has a pointer. -/
structure Represents (queue : LinkedFreeQueue) (order : List BlockId) :
    Prop where
  path : queue.links.Path (.head :: toTail order)
  nodup : order.Nodup
  head_prev : queue.links.prev .head = none
  tail_next : queue.links.next .tail = none
  outside : ∀ block, block ∉ order →
    queue.links.prev (.block block) = none ∧
      queue.links.next (.block block) = none

variable {queue queue' : LinkedFreeQueue} {order : List BlockId}

theorem mem_map_block {block : BlockId} :
    FreeNode.block block ∈ order.map FreeNode.block ↔ block ∈ order :=
  List.mem_map_of_injective fun _ _ hsame => FreeNode.block.inj hsame

theorem head_notMem_toTail : FreeNode.head ∉ toTail order := by
  simp [toTail]

theorem block_mem_toTail {block : BlockId} :
    FreeNode.block block ∈ toTail order ↔ block ∈ order := by
  simp [toTail]

theorem nodup_nodes (hnodup : order.Nodup) :
    (FreeNode.head :: toTail order).Nodup := by
  rw [toTail, List.nodup_cons, List.nodup_append]
  refine ⟨by simp, ?_, List.nodup_singleton _, ?_⟩
  · exact hnodup.map fun _ _ hsame => FreeNode.block.inj hsame
  · intro node hnode other hother
    rw [List.mem_singleton.mp hother]
    rintro rfl
    simp at hnode

/-- What the source's traversals return, when given enough steps. -/
theorem Represents.traversals (hrep : Represents queue order) {fuel : ℕ}
    (hfuel : order.length < fuel) :
    queue.getAllFreeBlocks fuel = some (order.map .block) ∧
      queue.getAllFreeBlocksBackwards fuel =
        some (order.reverse.map .block) := by
  constructor
  · exact hrep.path.follow_between hrep.tail_next (by simpa using hfuel)
  · have hreverse : Links.Path ⟨queue.links.next, queue.links.prev⟩
        (FreeNode.head :: toTail order).reverse :=
      Links.path_reverse.mpr hrep.path
    have hpath : Links.Path ⟨queue.links.next, queue.links.prev⟩
        (.tail :: (order.reverse.map .block ++ [.head])) := by
      simpa [toTail] using hreverse
    exact hpath.follow_between hrep.head_prev (by simpa using hfuel)

section Operations

variable {blocks ret : List BlockId}

theorem toTail_cons (block : BlockId) (order : List BlockId) :
    toTail (block :: order) = .block block :: toTail order := rfl

theorem next_eq_head {links : Links FreeNode} {node : FreeNode}
    (hpath : links.Path (node :: toTail order)) :
    links.next node = (toTail order).head? := by
  rw [toTail, List.head?_eq_some_head (by simp)]
  exact hpath.next_first

/-- What popping leaves of the pointers. -/
structure Popped (links links' : Links FreeNode) (order : List BlockId)
    (count : ℕ) (ret : List BlockId) (currBlock : Option FreeNode) :
    Prop where
  count_le : count ≤ order.length
  ret_eq : ret = order.take count
  curr_eq : currBlock = (toTail (order.drop count)).head?
  path : links'.Path (toTail (order.drop count))
  kept : ∀ node, node ∉ ret.map FreeNode.block →
    links'.prev node = links.prev node ∧ links'.next node = links.next node
  cleared : ∀ block ∈ ret,
    links'.prev (.block block) = none ∧ links'.next (.block block) = none

theorem popLoop_ok {count : ℕ} {links links' : Links FreeNode}
    {currBlock : Option FreeNode} (hpath : links.Path (toTail order))
    (hnodup : order.Nodup)
    (hrun : popLoop links count (toTail order).head? =
      .ok (ret, links', currBlock)) :
    Popped links links' order count ret currBlock := by
  induction count generalizing links order ret with
  | zero =>
      cases hrun
      exact ⟨Nat.zero_le _, rfl, rfl, hpath, fun _ _ => ⟨rfl, rfl⟩,
        fun _ hmem => absurd hmem List.not_mem_nil⟩
  | succ count ih =>
      cases order with
      | nil => cases hrun
      | cons block order =>
          have hfresh := List.nodup_cons.mp hnodup
          have hnext := next_eq_head hpath
          simp only [toTail_cons, List.head?_cons, popLoop, hnext,
            bind_eq_ok, pure_eq_ok, Prod.mk.injEq] at hrun
          obtain ⟨⟨later, links'', currBlock'⟩, hlater, rfl, hlinks⟩ := hrun
          cases hlinks
          have hrest : (links.isolate (.block block)).Path
              (toTail order) := by
            apply Links.Path.isolate (List.IsChain.tail hpath)
            exact block_mem_toTail.not.mpr hfresh.1
          have hpopped := ih hrest hfresh.2 hlater
          constructor
          · exact Nat.succ_le_succ hpopped.count_le
          · rw [hpopped.ret_eq, List.take_succ_cons]
          · exact hpopped.curr_eq
          · exact hpopped.path
          · intro node hnode
            rw [List.map_cons, List.mem_cons, not_or] at hnode
            have hkept := hpopped.kept node hnode.2
            rw [Links.isolate_prev_of_ne hnode.1,
              Links.isolate_next_of_ne hnode.1] at hkept
            exact hkept
          · intro other hother
            by_cases hin : other ∈ later
            · exact hpopped.cleared other hin
            · have hsame : other = block :=
                (List.mem_cons.mp hother).resolve_right hin
              have hkept := hpopped.kept (.block other)
                (mem_map_block.not.mpr hin)
              rw [hsame] at hkept ⊢
              rw [hkept.1, hkept.2]
              simp

theorem Represents.popleftN (hrep : Represents queue order) {n : ℤ}
    (hrun : queue.popleftN n = .ok (ret, queue')) :
    ∃ order', FreeKVCacheBlockQueue.popleftN ⟨order, queue.numFreeBlocks⟩ n =
        .ok (ret, ⟨order', queue'.numFreeBlocks⟩) ∧
      Represents queue' order' := by
  rw [LinkedFreeQueue.popleftN] at hrun
  split at hrun
  · rename_i hzero
    cases hrun
    exact ⟨order, by rw [FreeKVCacheBlockQueue.popleftN, if_pos hzero], hrep⟩
  · rename_i hzero
    simp only [bind_eq_ok, require_eq_ok, pure_eq_ok, Prod.mk.injEq] at hrun
    obtain ⟨-, henough, ⟨popped, links, currBlock⟩, hloop, rfl, rfl⟩ := hrun
    rw [next_eq_head hrep.path] at hloop
    have hpopped := popLoop_ok (List.IsChain.tail hrep.path) hrep.nodup hloop
    have hdrop : (order.drop n.toNat).Nodup :=
      hrep.nodup.sublist (List.drop_sublist _ _)
    refine ⟨order.drop n.toNat, ?_, ?_⟩
    · have hcount := hpopped.count_le
      have henough' : ¬(queue.numFreeBlocks < n ∨
          (order.length : ℤ) < n) := by omega
      rw [FreeKVCacheBlockQueue.popleftN, if_neg hzero, if_neg henough',
        hpopped.ret_eq]
    · have hhead : ∃ node, (toTail (order.drop n.toNat)).head? =
          some node := by
        rw [toTail, List.head?_eq_some_head (by simp)]
        exact ⟨_, rfl⟩
      obtain ⟨node, hnode⟩ := hhead
      have hin : node ∈ toTail (order.drop n.toNat) :=
        List.mem_of_mem_head? hnode
      have hpath : (links.connect .head node).Path
          ([.head] ++ toTail (order.drop n.toNat)) :=
        Links.Path.join (Links.path_singleton _) hpopped.path rfl hnode
          (nodup_nodes hdrop)
      have hnothead : FreeNode.head ≠ node := by
        rintro rfl
        exact head_notMem_toTail hin
      have hmissing : ∀ node, (∀ block, node ≠ .block block) →
          node ∉ popped.map FreeNode.block := by
        intro other hother hmem
        obtain ⟨block, -, hblock⟩ := List.mem_map.mp hmem
        exact hother block hblock.symm
      rw [hpopped.curr_eq, hnode]
      constructor
      · exact hpath
      · exact hdrop
      · change (links.connect .head node).prev .head = none
        rw [Links.connect_prev_of_ne hnothead,
          (hpopped.kept .head (hmissing _ (by simp))).1]
        exact hrep.head_prev
      · change (links.connect .head node).next .tail = none
        rw [Links.connect_next_of_ne (by simp),
          (hpopped.kept .tail (hmissing _ (by simp))).2]
        exact hrep.tail_next
      · intro block hblock
        change (links.connect .head node).prev (.block block) = none ∧
          (links.connect .head node).next (.block block) = none
        have hne : FreeNode.block block ≠ node := by
          rintro rfl
          exact hblock (block_mem_toTail.mp hin)
        rw [Links.connect_prev_of_ne hne, Links.connect_next_of_ne (by simp)]
        by_cases hpop : block ∈ popped
        · exact hpopped.cleared block hpop
        · rw [(hpopped.kept _ (mem_map_block.not.mpr hpop)).1,
            (hpopped.kept _ (mem_map_block.not.mpr hpop)).2]
          apply hrep.outside
          intro hin
          rw [← List.take_append_drop n.toNat order, List.mem_append,
            ← hpopped.ret_eq] at hin
          exact hin.elim hpop hblock

theorem Represents.remove (hrep : Represents queue order) {block : BlockId}
    (hrun : queue.remove block = .ok queue') :
    ∃ order', FreeKVCacheBlockQueue.remove ⟨order, queue.numFreeBlocks⟩
        block = .ok ⟨order', queue'.numFreeBlocks⟩ ∧
      Represents queue' order' := by
  have hmem : block ∈ order := by
    by_contra hout
    rw [LinkedFreeQueue.remove, (hrep.outside block hout).1] at hrun
    cases hrun
  obtain ⟨front, back, horder⟩ := List.mem_iff_append.mp hmem
  have hnodup := hrep.nodup
  have hpath := hrep.path
  have hsplit : FreeNode.head :: toTail order =
      (.head :: front.map .block) ++ .block block :: toTail back := by
    rw [horder]
    simp [toTail]
  have hnodes := nodup_nodes hnodup
  rw [hsplit] at hpath hnodes
  obtain ⟨hfront, hback, hjoint⟩ := Links.path_append.mp hpath
  have hafter := next_eq_head hback
  obtain ⟨before, hbefore⟩ : ∃ before, (FreeNode.head ::
      front.map FreeNode.block).getLast? = some before :=
    ⟨_, List.getLast?_eq_some_getLast (by simp)⟩
  obtain ⟨after, hhead⟩ : ∃ after, (toTail back).head? = some after :=
    ⟨_, List.head?_eq_some_head (by simp [toTail])⟩
  have hprev := (hjoint before hbefore (.block block) rfl).2
  rw [hhead] at hafter
  rw [LinkedFreeQueue.remove, hprev, hafter] at hrun
  cases hrun
  have hkept : (.head :: front.map .block) ++ toTail back =
      FreeNode.head :: toTail (front ++ back) := by
    simp [toTail]
  have herase : order.erase block = front ++ back := by
    rw [horder] at hnodup ⊢
    have hout : block ∉ front := fun hin =>
      (List.nodup_append.mp hnodup).2.2 block hin block List.mem_cons_self rfl
    rw [List.erase_append_right _ hout, List.erase_cons_head]
  have hnodup' : (front ++ back).Nodup := by
    rw [← herase]
    exact hnodup.erase block
  have hout : block ∉ front ++ back := by
    rw [← herase]
    exact hnodup.not_mem_erase
  have hjoined := hfront.join (List.IsChain.tail hback) hbefore hhead (by
    change (_ ++ toTail back).Nodup
    rw [hkept]
    exact nodup_nodes hnodup')
  change (queue.links.connect before after).Path (_ ++ toTail back) at hjoined
  rw [hkept] at hjoined
  have hin : after ∈ toTail back := List.mem_of_mem_head? hhead
  have hin' : before ∈ FreeNode.head :: front.map FreeNode.block :=
    List.mem_of_getLast? hbefore
  refine ⟨order.erase block, ?_, ?_⟩
  · rw [FreeKVCacheBlockQueue.remove, if_pos hmem]
  · rw [herase]
    constructor
    · apply hjoined.isolate
      simp [toTail, not_or.mp (List.mem_append.not.mp hout)]
    · exact hnodup'
    · change ((queue.links.connect before after).isolate _).prev .head = none
      rw [Links.isolate_prev_of_ne (by simp), Links.connect_prev_of_ne]
      · exact hrep.head_prev
      · rintro rfl
        exact head_notMem_toTail hin
    · change ((queue.links.connect before after).isolate _).next .tail = none
      rw [Links.isolate_next_of_ne (by simp), Links.connect_next_of_ne]
      · exact hrep.tail_next
      · rintro rfl
        simp at hin'
    · intro other hother
      change ((queue.links.connect before after).isolate _).prev _ = none ∧
        ((queue.links.connect before after).isolate _).next _ = none
      by_cases hsame : other = block
      · rw [hsame]
        simp
      · have hne : FreeNode.block other ≠ .block block := by
          simpa using hsame
        have hparts := not_or.mp (List.mem_append.not.mp hother)
        rw [Links.isolate_prev_of_ne hne, Links.isolate_next_of_ne hne,
          Links.connect_prev_of_ne, Links.connect_next_of_ne]
        · apply hrep.outside
          rw [horder]
          simp [hparts, hsame]
        · rintro rfl
          simp [hparts.1] at hin'
        · rintro rfl
          exact hparts.2 (block_mem_toTail.mp hin)

/-- Blocks threaded between the two halves of the queue. -/
theorem Represents.insert (hrep : Represents queue order)
    {front back : List BlockId} (horder : order = front ++ back)
    {before after : FreeNode}
    (hbefore : (FreeNode.head :: front.map FreeNode.block).getLast? =
      some before)
    (hafter : (toTail back).head? = some after)
    (hnodup : (front ++ blocks ++ back).Nodup) (numFreeBlocks : ℤ) :
    Represents
      { links := (queue.links.connectAll before (blocks.map .block)).1.connect
          (queue.links.connectAll before (blocks.map .block)).2 after
        numFreeBlocks := numFreeBlocks }
      (front ++ blocks ++ back) := by
  have hpath := hrep.path
  have hnodes := nodup_nodes hnodup
  have hsplit : FreeNode.head :: toTail order =
      (.head :: front.map .block) ++ toTail back := by
    rw [horder]
    simp [toTail]
  have hsplit' : FreeNode.head :: toTail (front ++ blocks ++ back) =
      ((.head :: front.map .block) ++ blocks.map .block) ++ toTail back := by
    simp [toTail]
  rw [hsplit] at hpath
  rw [hsplit'] at hnodes
  have hparts := List.nodup_append.mp hnodes
  obtain ⟨hfront, hback, -⟩ := Links.path_append.mp hpath
  obtain ⟨hextended, hlast⟩ := hfront.connectAll hbefore hparts.1
  have hin : before ∈ FreeNode.head :: front.map FreeNode.block :=
    List.mem_of_getLast? hbefore
  have hin' : after ∈ toTail back := List.mem_of_mem_head? hafter
  have hback' : (queue.links.connectAll before (blocks.map .block)).1.Path
      (toTail back) := by
    apply hback.connectAll_frame
    · exact fun hmem =>
        hparts.2.2 before (List.mem_append_left _ hin) before hmem rfl
    · exact fun node hnode hmem =>
        hparts.2.2 node (List.mem_append_right _ hnode) node hmem rfl
  have hjoined := hextended.join hback' hlast hafter hnodes
  rw [← hsplit'] at hjoined
  have hlastin := List.mem_of_getLast? hlast
  constructor
  · exact hjoined
  · exact hnodup
  · change ((queue.links.connectAll before (blocks.map .block)).1.connect
      _ after).prev .head = none
    rw [Links.connect_prev_of_ne, Links.connectAll_prev_of_notMem (by simp)]
    · exact hrep.head_prev
    · rintro rfl
      exact head_notMem_toTail hin'
  · change ((queue.links.connectAll before (blocks.map .block)).1.connect
      _ after).next .tail = none
    rw [Links.connect_next_of_ne, Links.connectAll_next_of_ne _ (by simp)]
    · exact hrep.tail_next
    · rintro rfl
      simp at hin
    · intro hsame
      rw [← hsame] at hlastin
      simp at hlastin
  · intro block hblock
    change ((queue.links.connectAll before (blocks.map .block)).1.connect
        _ after).prev _ = none ∧
      ((queue.links.connectAll before (blocks.map .block)).1.connect
        _ after).next _ = none
    simp only [List.mem_append, not_or] at hblock
    rw [Links.connect_prev_of_ne, Links.connect_next_of_ne,
      Links.connectAll_prev_of_notMem, Links.connectAll_next_of_ne]
    · apply hrep.outside
      rw [horder]
      simp [hblock]
    · rintro rfl
      simp [hblock] at hin
    · exact mem_map_block.not.mpr hblock.1.2
    · exact mem_map_block.not.mpr hblock.1.2
    · intro hsame
      rw [← hsame] at hlastin
      simp [hblock] at hlastin
    · rintro rfl
      exact hblock.2 (block_mem_toTail.mp hin')

theorem Represents.prependN (hrep : Represents queue order)
    (hnodup : (blocks ++ order).Nodup) :
    ∃ queue', queue.prependN blocks = .ok queue' ∧
      Represents queue' (blocks ++ order) ∧
      queue'.numFreeBlocks = queue.numFreeBlocks + blocks.length := by
  rw [LinkedFreeQueue.prependN]
  split
  · rename_i hempty
    rw [hempty]
    exact ⟨queue, rfl, hrep, by simp⟩
  · obtain ⟨first, hfirst⟩ : ∃ first, (toTail order).head? = some first :=
      ⟨_, List.head?_eq_some_head (by simp [toTail])⟩
    rw [next_eq_head hrep.path, hfirst]
    exact ⟨_, rfl, @Represents.insert queue order blocks hrep [] order rfl
      .head first rfl hfirst hnodup _, rfl⟩

theorem Represents.appendN (hrep : Represents queue order)
    (hnodup : (order ++ blocks).Nodup) :
    ∃ queue', queue.appendN blocks = .ok queue' ∧
      Represents queue' (order ++ blocks) ∧
      queue'.numFreeBlocks = queue.numFreeBlocks + blocks.length := by
  rw [LinkedFreeQueue.appendN]
  split
  · rename_i hempty
    rw [hempty, List.append_nil]
    exact ⟨queue, rfl, hrep, by simp⟩
  · obtain ⟨last, hlast⟩ : ∃ last, (FreeNode.head ::
        order.map FreeNode.block).getLast? = some last :=
      ⟨_, List.getLast?_eq_some_getLast (by simp)⟩
    have hpath : queue.links.Path
        ((.head :: order.map .block) ++ [.tail]) := hrep.path
    have hprev :=
      ((Links.path_append.mp hpath).2.2 last hlast .tail rfl).2
    have hinsert := @Represents.insert queue order blocks hrep order []
      (List.append_nil _).symm last .tail hlast rfl
      (by rw [List.append_nil]; exact hnodup)
    rw [hprev]
    exact ⟨_, rfl, by simpa using hinsert _, rfl⟩

theorem Represents.popleft {first : BlockId}
    (hrep : Represents queue (first :: order)) :
    ∃ queue', queue.popleft = .ok (first, queue') ∧
      Represents queue' order ∧
      queue'.numFreeBlocks = queue.numFreeBlocks - 1 := by
  have hfresh := List.nodup_cons.mp hrep.nodup
  have hpath := hrep.path
  rw [toTail_cons] at hpath
  have hlater := List.IsChain.tail hpath
  obtain ⟨second, hsecond⟩ : ∃ second, (toTail order).head? = some second :=
    ⟨_, List.head?_eq_some_head (by simp [toTail])⟩
  have hprev := (Links.path_cons_cons.mp hpath).1.2
  have hremove : queue.remove first = .ok
      { links := (queue.links.connect .head second).isolate (.block first)
        numFreeBlocks := queue.numFreeBlocks - 1 } := by
    rw [LinkedFreeQueue.remove, hprev, next_eq_head hlater, hsecond]
  obtain ⟨order', hsame, hrep'⟩ := hrep.remove hremove
  rw [FreeKVCacheBlockQueue.remove, if_pos List.mem_cons_self,
    List.erase_cons_head] at hsame
  cases hsame
  refine ⟨_, ?_, hrep', rfl⟩
  rw [LinkedFreeQueue.popleft, (Links.path_cons_cons.mp hpath).1.1]
  simp only [next_eq_head hlater, hsecond]

end Operations

/-- The node in front of a block of a new queue. -/
def nodeBefore (blockId : BlockId) : FreeNode :=
  if 0 < blockId then .block (blockId - 1) else .head

theorem path_ofBlocks {numBlocks start count : ℕ}
    (hcount : start + count = numBlocks) :
    (ofBlocks numBlocks).links.Path
      (nodeBefore start :: toTail (List.range' start count)) := by
  induction count generalizing start with
  | zero =>
      rw [Nat.add_zero] at hcount
      rw [hcount, List.range'_zero, toTail, List.map_nil, List.nil_append,
        Links.path_cons_cons]
      refine ⟨?_, Links.path_singleton _⟩
      by_cases hpos : 0 < numBlocks
      · have hlast : numBlocks - 1 + 1 = numBlocks := Nat.sub_add_cancel hpos
        simp [nodeBefore, ofBlocks, hpos, hlast]
      · simp [nodeBefore, ofBlocks, hpos]
  | succ count ih =>
      have hlater := ih (by omega : start + 1 + count = numBlocks)
      have hlt : start < numBlocks := by omega
      rw [List.range'_succ, toTail_cons, Links.path_cons_cons]
      refine ⟨?_, ?_⟩
      · by_cases hpos : 0 < start
        · have hprev : start - 1 + 1 = start := Nat.sub_add_cancel hpos
          have hinside : start - 1 < numBlocks := by omega
          simp [nodeBefore, ofBlocks, hpos, hprev, hlt, hinside]
        · have hzero : start = 0 := Nat.eq_zero_of_not_pos hpos
          rw [hzero] at hlt
          simp [nodeBefore, ofBlocks, hzero, hlt, Nat.not_le_of_lt hlt]
      · simpa [nodeBefore] using hlater

theorem represents_ofBlocks (numBlocks : ℕ) :
    Represents (ofBlocks numBlocks) (List.range numBlocks) where
  path := by
    have hpath := path_ofBlocks (Nat.zero_add numBlocks)
    rw [List.range_eq_range']
    simpa [nodeBefore] using hpath
  nodup := List.nodup_range
  head_prev := rfl
  tail_next := rfl
  outside := by
    intro block hblock
    have hout : numBlocks ≤ block := by
      simpa using hblock
    simp [ofBlocks, hout]

end LinkedFreeQueue

end GlmFlash.Cache
