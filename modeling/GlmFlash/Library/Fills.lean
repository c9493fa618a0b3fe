import Mathlib.Logic.Function.Basic
import Mathlib.Data.List.Basic
import Mathlib.Tactic.Linarith

/-!
# Clearing words of a memory

A memory gives the byte at each address.  Clearing a list of words, each four
bytes long, leaves zero at the bytes of these words and nothing else, whatever
the order of the words and however often they occur.
-/

namespace GlmFlash.Library

/-- Store a zero word. -/
def clearWord (memory : ℕ → ℕ) (word : ℕ) : ℕ → ℕ :=
  fun addr => if word ≤ addr ∧ addr < word + 4 then 0 else memory addr

def fillWords (words : List ℕ) (memory : ℕ → ℕ) : ℕ → ℕ :=
  words.foldl clearWord memory

/-- The address is a byte of one of the words. -/
def InWords (words : List ℕ) (addr : ℕ) : Prop :=
  ∃ word ∈ words, word ≤ addr ∧ addr < word + 4

theorem clearWord_apply_self {memory : ℕ → ℕ} {word addr : ℕ}
    (hlow : word ≤ addr) (hhigh : addr < word + 4) :
    clearWord memory word addr = 0 := by
  rw [clearWord, if_pos ⟨hlow, hhigh⟩]

theorem clearWord_zero {memory : ℕ → ℕ} {word addr : ℕ}
    (hzero : memory addr = 0) : clearWord memory word addr = 0 := by
  rw [clearWord]
  split
  · rfl
  · exact hzero

theorem fillWords_zero {words : List ℕ} {memory : ℕ → ℕ} {addr : ℕ}
    (hzero : memory addr = 0) : fillWords words memory addr = 0 := by
  induction words generalizing memory with
  | nil => exact hzero
  | cons word words ih => exact ih (clearWord_zero hzero)

theorem fillWords_inWords {words : List ℕ} {memory : ℕ → ℕ} {addr : ℕ}
    (hin : InWords words addr) : fillWords words memory addr = 0 := by
  induction words generalizing memory with
  | nil =>
      obtain ⟨word, hmem, -⟩ := hin
      cases hmem
  | cons head words ih =>
      obtain ⟨word, hmem, hlow, hhigh⟩ := hin
      rcases List.mem_cons.mp hmem with rfl | hmem
      · change fillWords words (clearWord memory word) addr = 0
        exact fillWords_zero (clearWord_apply_self hlow hhigh)
      · exact ih ⟨word, hmem, hlow, hhigh⟩

/-- Bytes outside the words are kept. -/
theorem fillWords_of_not_inWords {words : List ℕ} {memory : ℕ → ℕ}
    {addr : ℕ} (hout : ¬InWords words addr) :
    fillWords words memory addr = memory addr := by
  induction words generalizing memory with
  | nil => rfl
  | cons head words ih =>
      have hhead : ¬(head ≤ addr ∧ addr < head + 4) := fun hbyte =>
        hout ⟨head, List.mem_cons_self, hbyte⟩
      have hrest : ¬InWords words addr := fun ⟨word, hmem, hbyte⟩ =>
        hout ⟨word, List.mem_cons_of_mem head hmem, hbyte⟩
      calc fillWords (head :: words) memory addr
          = clearWord memory head addr := ih hrest
        _ = memory addr := if_neg hhead

end GlmFlash.Library
