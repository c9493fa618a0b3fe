import Mathlib.Algebra.BigOperators.Group.List.Basic
import Mathlib.Algebra.Order.BigOperators.Group.List
import Mathlib.Algebra.Order.Group.Nat
import Mathlib.Data.List.Nodup
import Mathlib.Logic.Function.Basic
import Mathlib.Algebra.GroupWithZero.Nat

/-!
# Round robin over queues

In each pass the queues give up their last values in turn, until there are
enough values or all queues are empty.  After `round` whole passes a queue has
given `round` values, or all that it had, so in the middle of a pass two queues
differ by at most one unless the smaller one is exhausted.
-/

namespace GlmFlash.Library.RoundRobin

variable {K V : Type*} [DecidableEq K]

/-- One pass, and whether it took anything. -/
def pass (limit : ℕ) : List K → List V → (K → List V) → Bool → List V × (K → List V) × Bool
  | [], selected, queues, advanced => (selected, queues, advanced)
  | key :: keys, selected, queues, advanced =>
      match (queues key).getLast? with
      | none => pass limit keys selected queues advanced
      | some value =>
          let queues := Function.update queues key (queues key).dropLast
          if (selected ++ [value]).length = limit then (selected ++ [value], queues, true)
          else pass limit keys (selected ++ [value]) queues true

/-- Passes until there are `limit` values or a pass takes nothing. -/
def select (limit : ℕ) (keys : List K) : ℕ → List V → (K → List V) → List V
  | 0, selected, _ => selected
  | fuel + 1, selected, queues =>
      if selected.length < limit then
        match pass limit keys selected queues false with
        | (selected, _, false) => selected
        | (selected, queues, true) => select limit keys fuel selected queues
      else selected

/-! ## The state of a pass -/

section

variable (full : K → List V)

/-- How many values a queue has given in a pass that is through with `done`. -/
def level (round : ℕ) (done : List K) (key : K) : ℕ :=
  min (if key ∈ done then round + 1 else round) (full key).length

/-- The last values of a queue. -/
def last (count : ℕ) (key : K) : List V :=
  (full key).drop ((full key).length - count)

/-- What has been selected, and what is left. -/
structure Drawn (keys : List K) (round : ℕ) (done : List K) (selected : List V)
    (queues : K → List V) : Prop where
  queues_eq : ∀ key ∈ keys, queues key =
    (full key).take ((full key).length - level full round done key)
  selected_perm : selected.Perm
    (keys.flatMap fun key => last full (level full round done key) key)

variable {full} {limit round : ℕ} {keys done : List K} {selected : List V}
  {queues : K → List V} {key : K}

theorem level_le (key : K) : level full round done key ≤ (full key).length :=
  min_le_right _ _

omit [DecidableEq K] in
theorem length_last {count : ℕ} (hcount : count ≤ (full key).length) :
    (last full count key).length = count := by
  rw [last, List.length_drop]
  omega

theorem Drawn.length_eq (hdrawn : Drawn full keys round done selected queues) :
    selected.length = (keys.map fun key => level full round done key).sum := by
  rw [hdrawn.selected_perm.length_eq, List.length_flatMap]
  exact congrArg List.sum (List.map_congr_left fun key _ => length_last (level_le key))

theorem Drawn.length_le (hdrawn : Drawn full keys round done selected queues) :
    selected.length ≤ (keys.map fun key => (full key).length).sum := by
  rw [hdrawn.length_eq]
  exact List.sum_le_sum fun key _ => level_le key

theorem level_append_of_ne {other : K} (hne : other ≠ key) :
    level full round (done ++ [key]) other = level full round done other := by
  have hmem : other ∈ done ++ [key] ↔ other ∈ done := by
    rw [List.mem_append, List.mem_singleton, or_iff_left hne]
  simp only [level, hmem]

theorem level_append_self : level full round (done ++ [key]) key =
    min (round + 1) (full key).length := by
  rw [level, if_pos (List.mem_append_right done List.mem_cons_self)]

omit [DecidableEq K] in
/-- One value more for one key. -/
theorem flatMap_perm_cons (before after : K → List V) {value : V} (hnodup : keys.Nodup)
    (hmem : key ∈ keys) (hkey : after key = value :: before key)
    (hother : ∀ other, other ≠ key → after other = before other) :
    (keys.flatMap after).Perm (value :: keys.flatMap before) := by
  obtain ⟨front, back, hkeys⟩ := List.append_of_mem hmem
  rw [hkeys] at hnodup ⊢
  have hnotin := List.nodup_middle.mp hnodup
  have hsame : ∀ part : List K, (∀ other ∈ part, other ∈ front ++ back) →
      part.flatMap after = part.flatMap before := by
    intro part hpart
    apply List.flatMap_congr
    intro other hin
    apply hother
    rintro rfl
    exact (List.nodup_cons.mp hnotin).1 (hpart other hin)
  rw [List.flatMap_append, List.flatMap_append, List.flatMap_cons, List.flatMap_cons, hkey,
    hsame front fun _ => List.mem_append_left back,
    hsame back fun _ => List.mem_append_right front]
  exact List.perm_middle

/-- An empty queue is passed over. -/
theorem Drawn.skip (hdrawn : Drawn full keys round done selected queues)
    (hnew : key ∉ done) (hmem : key ∈ keys) (hempty : (queues key).getLast? = none) :
    Drawn full keys round (done ++ [key]) selected queues := by
  have hsame : ∀ other,
      level full round (done ++ [key]) other = level full round done other := by
    intro other
    by_cases hother : other = key
    · subst hother
      have hlength := congrArg List.length (List.getLast?_eq_none_iff.mp hempty)
      rw [hdrawn.queues_eq _ hmem, List.length_take, List.length_nil, level, if_neg hnew] at hlength
      rw [level_append_self, level, if_neg hnew]
      omega
    · exact level_append_of_ne hother
  constructor
  · intro other hother
    rw [hsame]
    exact hdrawn.queues_eq other hother
  · simp only [hsame]
    exact hdrawn.selected_perm

/-- The last value of a queue is taken. -/
theorem Drawn.take (hkeys : keys.Nodup) (hdrawn : Drawn full keys round done selected queues)
    (hnew : key ∉ done) (hmem : key ∈ keys) {value : V}
    (hvalue : (queues key).getLast? = some value) :
    Drawn full keys round (done ++ [key]) (selected ++ [value])
      (Function.update queues key (queues key).dropLast) := by
  have hlevel : level full round done key = min round (full key).length := by
    rw [level, if_neg hnew]
  have hround : round < (full key).length := by
    by_contra hexhausted
    have hnone : (full key).length - level full round done key = 0 := by omega
    rw [hdrawn.queues_eq key hmem, hnone, List.take_zero] at hvalue
    cases hvalue
  have hbefore : level full round done key = round := by omega
  have hafter : level full round (done ++ [key]) key = round + 1 := by
    rw [level_append_self]
    omega
  have hleft : (full key).length - round = (full key).length - (round + 1) + 1 := by omega
  have hsplit : (full key).take ((full key).length - round) =
      (full key).take ((full key).length - (round + 1)) ++ [value] := by
    have hqueue := hdrawn.queues_eq key hmem
    rw [hbefore] at hqueue
    rw [hqueue, List.getLast?_take, if_neg (by omega)] at hvalue
    have hindex : (full key).length - round - 1 = (full key).length - (round + 1) := by omega
    rw [hindex] at hvalue
    have hget : (full key)[(full key).length - (round + 1)]? = some value := by
      rw [List.getElem?_eq_getElem (by omega)] at hvalue ⊢
      exact hvalue
    rw [hleft, List.take_add_one, hget]
    rfl
  constructor
  · intro other hin
    by_cases hother : other = key
    · subst hother
      rw [Function.update_self, hdrawn.queues_eq _ hmem, hbefore, hafter, hsplit,
        List.dropLast_concat]
    · rw [Function.update_of_ne hother, level_append_of_ne hother]
      exact hdrawn.queues_eq other hin
  · have hlast : last full (round + 1) key = value :: last full round key := by
      have htake := List.take_append_drop ((full key).length - (round + 1)) (full key)
      have hmore := List.take_append_drop ((full key).length - round) (full key)
      rw [hsplit, List.append_assoc] at hmore
      exact List.append_cancel_left (htake.trans hmore.symm)
    have hgrown : (keys.flatMap fun other =>
        last full (level full round (done ++ [key]) other) other).Perm
          (value :: keys.flatMap fun other =>
            last full (level full round done other) other) := by
      apply flatMap_perm_cons _ _ hkeys hmem
      · rw [hafter, hbefore]
        exact hlast
      · intro other hother
        rw [level_append_of_ne hother]
    have hput := List.perm_append_singleton value selected
    exact hput.trans ((hdrawn.selected_perm.cons value).trans hgrown.symm)

/-! ## Whole runs -/

/-- What a pass does that gets to `rest` with these values and queues. -/
structure Passed (full : K → List V) (limit round : ℕ) (keys rest : List K)
    (selected : List V) (queues : K → List V) (advanced : Bool)
    (after : List V × (K → List V) × Bool) : Prop where
  drawn : ∃ done, Drawn full keys round done after.1 after.2.1 ∧
    (after.1.length < limit → done = keys)
  length_le : after.1.length ≤ limit
  mono : selected.length ≤ after.1.length
  grew : after.2.2 = true → advanced = true ∨ selected.length < after.1.length
  stays : advanced = true → after.2.2 = true
  idle : after.2.2 = false → after.1 = selected ∧ ∀ key ∈ rest, queues key = []

theorem pass_spec (hkeys : keys.Nodup) {rest : List K} (hrest : keys = done ++ rest)
    (hdrawn : Drawn full keys round done selected queues) (hroom : selected.length < limit)
    (advanced : Bool) :
    Passed full limit round keys rest selected queues advanced
      (pass limit rest selected queues advanced) := by
  induction rest generalizing done selected queues advanced with
  | nil =>
      rw [List.append_nil] at hrest
      exact {
        drawn := ⟨done, hdrawn, fun _ => hrest.symm⟩
        length_le := Nat.le_of_lt hroom
        mono := Nat.le_refl _
        grew := .inl
        stays := id
        idle := fun _ => ⟨rfl, fun _ hmem => absurd hmem List.not_mem_nil⟩ }
  | cons key rest ih =>
      have hmem : key ∈ keys := hrest ▸ List.mem_append_right done List.mem_cons_self
      have hnew : key ∉ done := by
        rw [hrest] at hkeys
        intro hdone
        exact List.disjoint_of_nodup_append hkeys hdone List.mem_cons_self
      have hnext : keys = done ++ [key] ++ rest := by
        rw [List.append_assoc, List.singleton_append]
        exact hrest
      rw [pass]
      cases hvalue : (queues key).getLast? with
      | none =>
          have hpassed := ih hnext (hdrawn.skip hnew hmem hvalue) hroom advanced
          refine ⟨hpassed.drawn, hpassed.length_le, hpassed.mono, hpassed.grew,
            hpassed.stays, ?_⟩
          intro hfalse
          refine ⟨(hpassed.idle hfalse).1, ?_⟩
          intro other hother
          rcases List.mem_cons.mp hother with rfl | hlater
          · exact List.getLast?_eq_none_iff.mp hvalue
          · exact (hpassed.idle hfalse).2 other hlater
      | some value =>
          have htaken := hdrawn.take hkeys hnew hmem hvalue
          have hlength : (selected ++ [value]).length = selected.length + 1 :=
            List.length_append
          dsimp only
          by_cases hfull : (selected ++ [value]).length = limit
          · rw [if_pos hfull]
            exact {
              drawn := ⟨done ++ [key], htaken, fun hlt => absurd hfull (Nat.ne_of_lt hlt)⟩
              length_le := Nat.le_of_eq hfull
              mono := hlength ▸ Nat.le_succ _
              grew := fun _ => .inr (hlength ▸ Nat.lt_succ_self _)
              stays := fun _ => rfl
              idle := by rintro ⟨⟩ }
          · rw [if_neg hfull]
            have hpassed := ih hnext htaken (by omega) true
            have hmono := hpassed.mono
            refine ⟨hpassed.drawn, hpassed.length_le, by omega, ?_,
              fun _ => hpassed.stays rfl, ?_⟩
            · intro _
              right
              omega
            · intro hfalse
              rw [hpassed.stays rfl] at hfalse
              cases hfalse

theorem level_keys (hmem : key ∈ keys) :
    level full round keys key = level full (round + 1) [] key := by
  rw [level, level, if_pos hmem, if_neg List.not_mem_nil]

theorem Drawn.next (hdrawn : Drawn full keys round keys selected queues) :
    Drawn full keys (round + 1) [] selected queues := by
  constructor
  · intro key hmem
    rw [hdrawn.queues_eq key hmem, level_keys hmem]
  · have hsame : (keys.flatMap fun key => last full (level full round keys key) key) =
        keys.flatMap fun key => last full (level full (round + 1) [] key) key :=
      List.flatMap_congr fun key hmem => by rw [level_keys hmem]
    exact hdrawn.selected_perm.trans (List.Perm.of_eq hsame)

theorem select_of_le (hfull : limit ≤ selected.length) (fuel : ℕ) :
    select limit keys fuel selected queues = selected := by
  cases fuel with
  | zero => rfl
  | succ fuel => rw [select, if_neg (Nat.not_lt.mpr hfull)]

/-- The loop stops with enough values or with empty queues. -/
theorem select_drawn (hkeys : keys.Nodup) {fuel : ℕ}
    (hdrawn : Drawn full keys round [] selected queues) (hlimit : selected.length ≤ limit)
    (hfuel : (keys.map fun key => (full key).length).sum < fuel + selected.length) :
    ∃ round done queues', Drawn full keys round done
        (select limit keys fuel selected queues) queues' ∧
      (select limit keys fuel selected queues).length ≤ limit ∧
      ((select limit keys fuel selected queues).length < limit →
        ∀ key ∈ keys, level full round done key = (full key).length) := by
  induction fuel generalizing round selected queues with
  | zero =>
      have hle := hdrawn.length_le
      omega
  | succ fuel ih =>
      by_cases hroom : selected.length < limit
      · have hpassed := pass_spec hkeys (List.nil_append keys).symm hdrawn hroom false
        rw [select, if_pos hroom]
        rcases hpass : pass limit keys selected queues false with
          ⟨selected', queues', advanced⟩
        rw [hpass] at hpassed
        cases advanced with
        | false =>
            obtain ⟨rfl, hempty⟩ := hpassed.idle rfl
            refine ⟨round, [], queues, hdrawn, hlimit, ?_⟩
            intro _ key hmem
            have hlength := congrArg List.length
              ((hdrawn.queues_eq key hmem).symm.trans (hempty key hmem))
            rw [List.length_take, List.length_nil] at hlength
            have hle : level full round [] key ≤ (full key).length := level_le key
            omega
        | true =>
            obtain ⟨done, hafter, hdone⟩ := hpassed.drawn
            have hgrew : selected.length < selected'.length :=
              (hpassed.grew rfl).resolve_left Bool.false_ne_true
            by_cases hmore : selected'.length < limit
            · rw [hdone hmore] at hafter
              exact ih hafter.next (Nat.le_of_lt hmore) (by omega)
            · dsimp only
              rw [select_of_le (Nat.le_of_not_lt hmore)]
              exact ⟨round, done, queues', hafter, hpassed.length_le,
                fun hlt => absurd hlt hmore⟩
      · rw [select_of_le (Nat.le_of_not_lt hroom)]
        exact ⟨round, [], queues, hdrawn, hlimit, fun hlt => absurd hlt hroom⟩

theorem drawn_start (full : K → List V) (keys : List K) :
    Drawn full keys 0 [] [] full := by
  have hzero : ∀ key, level full 0 [] key = 0 := by
    intro key
    rw [level, if_neg List.not_mem_nil, Nat.zero_min]
  constructor
  · intro key _
    rw [hzero, Nat.sub_zero, List.take_length]
  · have hnone : (keys.flatMap fun key => last full (level full 0 [] key) key) = [] := by
      rw [List.flatMap_eq_nil_iff]
      intro key _
      rw [hzero, last, Nat.sub_zero, List.drop_length]
    rw [hnone]

/-- Two queues give equally many values up to one, unless the one that gives
less gives all that it has.  Together they give `limit` values, or all. -/
theorem select_spec (hkeys : keys.Nodup) (full : K → List V) (limit : ℕ) {fuel : ℕ}
    (hfuel : (keys.map fun key => (full key).length).sum < fuel) :
    ∃ taken : K → ℕ, (∀ key, taken key ≤ (full key).length) ∧
      (select limit keys fuel [] full).Perm
        (keys.flatMap fun key => last full (taken key) key) ∧
      (∀ left right, taken left ≤ taken right + 1 ∨ taken right = (full right).length) ∧
      (select limit keys fuel [] full).length =
        min limit (keys.map fun key => (full key).length).sum := by
  obtain ⟨round, done, queues, hdrawn, hle, hexhausted⟩ :=
    select_drawn hkeys (drawn_start full keys) (Nat.zero_le limit) (by simpa using hfuel)
  refine ⟨level full round done, level_le, hdrawn.selected_perm, ?_, ?_⟩
  · intro left right
    by_cases hleft : left ∈ done
    · by_cases hright : right ∈ done
      · rw [level, level, if_pos hleft, if_pos hright]
        omega
      · rw [level, level, if_pos hleft, if_neg hright]
        omega
    · by_cases hright : right ∈ done
      · rw [level, level, if_neg hleft, if_pos hright]
        omega
      · rw [level, level, if_neg hleft, if_neg hright]
        omega
  · have htotal := hdrawn.length_le
    by_cases hlt : (select limit keys fuel [] full).length < limit
    · have hall : (select limit keys fuel [] full).length =
          (keys.map fun key => (full key).length).sum := by
        rw [hdrawn.length_eq]
        exact congrArg List.sum (List.map_congr_left (hexhausted hlt))
      omega
    · omega

end

end GlmFlash.Library.RoundRobin
