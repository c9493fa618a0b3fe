import GlmFlash.Library.Dict
import Mathlib.Data.List.Induction

/-!
# Tables laid over one another

Tables are written one after the other, and each key belongs to the last table
that holds it.
-/

namespace GlmFlash.Library

variable {L K V : Type*} [DecidableEq K]

/-- The last table that holds the key, and what it holds there. -/
def owner (tables : List (L × Dict K V)) (key : K) : Option (L × V) :=
  tables.foldl (fun found table =>
    ((table.2.get? key).map fun value => (table.1, value)).or found) none

theorem owner_append_singleton (tables : List (L × Dict K V))
    (table : L × Dict K V) (key : K) :
    owner (tables ++ [table]) key =
      ((table.2.get? key).map fun value => (table.1, value)).or
        (owner tables key) := by
  rw [owner, owner, List.foldl_append, List.foldl_cons, List.foldl_nil]

theorem owner_append (before after : List (L × Dict K V)) (key : K) :
    owner (before ++ after) key = (owner after key).or (owner before key) := by
  induction after using List.reverseRecOn with
  | nil =>
      rw [List.append_nil]
      exact Option.none_or.symm
  | append_singleton after table ih =>
      rw [← List.append_assoc, owner_append_singleton, ih, owner_append_singleton,
        Option.or_assoc]

theorem mem_of_owner {tables : List (L × Dict K V)} {key : K} {label : L}
    {value : V} (howner : owner tables key = some (label, value)) :
    ∃ table ∈ tables, table.1 = label ∧ table.2.get? key = some value := by
  induction tables using List.reverseRecOn with
  | nil => cases howner
  | append_singleton tables table ih =>
      rw [owner_append_singleton] at howner
      cases hget : table.2.get? key with
      | none =>
          rw [hget, Option.map_none, Option.none_or] at howner
          obtain ⟨found, hmem, hfound⟩ := ih howner
          exact ⟨found, List.mem_append_left _ hmem, hfound⟩
      | some held =>
          rw [hget, Option.map_some, Option.some_or, Option.some.injEq,
            Prod.mk.injEq] at howner
          refine ⟨table, List.mem_append_right _ List.mem_cons_self,
            howner.1, ?_⟩
          rw [hget, howner.2]

theorem exists_owner {tables : List (L × Dict K V)} {key : K}
    {table : L × Dict K V} {value : V} (hmem : table ∈ tables)
    (hget : table.2.get? key = some value) :
    ∃ label held, owner tables key = some (label, held) := by
  induction tables using List.reverseRecOn with
  | nil => cases hmem
  | append_singleton tables last ih =>
      rw [owner_append_singleton]
      cases hlast : last.2.get? key with
      | some held => exact ⟨last.1, held, rfl⟩
      | none =>
          rcases List.mem_append.mp hmem with hearlier | hsame
          · exact ih hearlier
          · rw [List.mem_singleton.mp hsame, hlast] at hget
            cases hget

/-- When a key stands in one table only, that table owns it. -/
theorem owner_eq_some {tables : List (L × Dict K V)} {key : K}
    {table : L × Dict K V} {value : V} (hmem : table ∈ tables)
    (hget : table.2.get? key = some value)
    (honly : ∀ other ∈ tables, ∀ held, other.2.get? key = some held →
      other = table) :
    owner tables key = some (table.1, value) := by
  obtain ⟨label, held, howner⟩ := exists_owner hmem hget
  obtain ⟨found, hfound, rfl, hheld⟩ := mem_of_owner howner
  cases honly found hfound held hheld
  rw [howner, Option.some.inj (hheld.symm.trans hget)]

/-- In ordered tables a key belongs to the table that holds it when no later table
holds it. -/
theorem owner_eq_some_iff {R : L × Dict K V → L × Dict K V → Prop}
    {tables : List (L × Dict K V)} (hordered : tables.Pairwise R)
    (hasymm : ∀ first second, R first second → ¬R second first) {key : K} {label : L}
    {value : V} :
    owner tables key = some (label, value) ↔ ∃ table ∈ tables, table.1 = label ∧
      table.2.get? key = some value ∧
        ∀ later ∈ tables, R table later → later.2.get? key = none := by
  induction tables using List.reverseRecOn with
  | nil => exact iff_of_false (by rintro ⟨⟩) (by rintro ⟨_, ⟨⟩, _⟩)
  | append_singleton tables last ih =>
      obtain ⟨hinner, -, hlast⟩ := List.pairwise_append.mp hordered
      rw [owner_append_singleton]
      cases hget : last.2.get? key with
      | some held =>
          rw [Option.map_some, Option.some_or, Option.some.injEq, Prod.mk.injEq]
          constructor
          · rintro ⟨rfl, rfl⟩
            refine ⟨last, List.mem_append_right _ List.mem_cons_self, rfl, hget, ?_⟩
            intro later hlater hafter
            rcases List.mem_append.mp hlater with hearlier | hsame
            · exact absurd hafter (hasymm _ _ (hlast later hearlier last List.mem_cons_self))
            · rw [List.mem_singleton.mp hsame] at hafter
              exact absurd hafter (hasymm _ _ hafter)
          · rintro ⟨table, htable, rfl, hvalue, hlater⟩
            rcases List.mem_append.mp htable with hearlier | hsame
            · have hnone := hlater last (List.mem_append_right _ List.mem_cons_self)
                (hlast table hearlier last List.mem_cons_self)
              rw [hget] at hnone
              cases hnone
            · rw [List.mem_singleton.mp hsame] at hvalue ⊢
              exact ⟨rfl, Option.some.inj (hget.symm.trans hvalue)⟩
      | none =>
          rw [Option.map_none, Option.none_or, ih hinner]
          constructor
          · rintro ⟨table, htable, hlabel, hvalue, hlater⟩
            refine ⟨table, List.mem_append_left _ htable, hlabel, hvalue, ?_⟩
            intro later hmem hafter
            rcases List.mem_append.mp hmem with hearlier | hsame
            · exact hlater later hearlier hafter
            · rw [List.mem_singleton.mp hsame, hget]
          · rintro ⟨table, htable, hlabel, hvalue, hlater⟩
            rcases List.mem_append.mp htable with hearlier | hsame
            · exact ⟨table, hearlier, hlabel, hvalue, fun later hmem =>
                hlater later (List.mem_append_left _ hmem)⟩
            · rw [List.mem_singleton.mp hsame, hget] at hvalue
              cases hvalue

end GlmFlash.Library
