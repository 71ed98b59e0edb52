import Admission.Desk.Timers
import Mathlib.Data.List.Perm.Basic

/-!
# Timers are not lost

Keeping the order of the heap only moves timers about. So a timer that is set stays until it is
taken: because nobody is left whom it is for, or because it is due. In which order timers that are
due together are taken is not said.
-/
namespace Admission
namespace Timers

variable {ts : Timers} {p : Timer → Bool} {t : Timer} {now : Float}

theorem exchange_perm (ts : Timers) (i j : Nat) : (ts.exchange i j).Perm ts := by
  unfold exchange
  split
  · rename_i a b ha hb
    obtain ⟨hi, rfl⟩ := List.getElem?_eq_some_iff.mp ha
    obtain ⟨hj, rfl⟩ := List.getElem?_eq_some_iff.mp hb
    exact List.set_set_perm hi hj
  · exact .refl ts

theorem raise_perm (ts : Timers) (i : Nat) : (ts.raise i).Perm ts := by
  fun_induction raise ts i with
  | case1 ts => exact .refl ts
  | case2 ts i _ _ ih => exact ih.trans (exchange_perm ts i _)
  | case3 ts => exact .refl ts

theorem sink_perm (fuel : Nat) (ts : Timers) (i : Nat) : (sink fuel ts i).1.Perm ts := by
  induction fuel generalizing ts i with
  | zero => exact .refl ts
  | succ fuel ih =>
    unfold sink
    dsimp only
    split
    · exact (ih _ _).trans (exchange_perm ts i _)
    · exact .refl ts

theorem push_perm (ts : Timers) (t : Timer) : (ts.push t).Perm (t :: ts) := by
  have hlast : (ts ++ [t]).Perm (t :: ts) := List.perm_append_singleton t ts
  exact (raise_perm _ _).trans hlast

theorem mem_push {u : Timer} : u ∈ ts.push t ↔ u = t ∨ u ∈ ts := by
  rw [(push_perm ts t).mem_iff, List.mem_cons]

theorem pop_perm (t : Timer) (ts : Timers) : (pop (t :: ts)).Perm ts := by
  unfold pop
  dsimp only
  cases hlast : ts.getLast? with
  | none => rw [List.getLast?_eq_none_iff.mp hlast]
  | some last =>
    have hmoved : (last :: ts.dropLast).Perm ts := by
      obtain ⟨init, rfl⟩ := List.getLast?_eq_some_iff.mp hlast
      rw [List.dropLast_concat]
      exact (List.perm_append_singleton last init).symm
    exact ((raise_perm _ _).trans (sink_perm _ _ _)).trans hmoved

/-- What is taken off the front satisfies `p`, and nothing else is taken. -/
theorem popWhile_spec (p : Timer → Bool) (fuel : Nat) (ts : Timers) :
    (∀ t ∈ (popWhile p fuel ts).1, p t = true) ∧
      (ts.length ≤ fuel →
        ((popWhile p fuel ts).1 ++ (popWhile p fuel ts).2).Perm ts) := by
  induction fuel generalizing ts with
  | zero =>
    refine ⟨fun t ht => absurd ht List.not_mem_nil, fun hlen => ?_⟩
    rw [List.length_eq_zero_iff.mp (Nat.le_zero.mp hlen)]
    exact .refl _
  | succ fuel ih =>
    cases ts with
    | nil => exact ⟨fun t ht => absurd ht List.not_mem_nil, fun _ => .refl _⟩
    | cons t ts =>
      unfold popWhile
      dsimp only
      obtain ⟨hall, hperm⟩ := ih (pop (t :: ts))
      split
      · rename_i ht
        refine ⟨fun u hu => ?_, fun hlen => ?_⟩
        · rcases List.mem_cons.mp hu with rfl | hu
          · exact ht
          · exact hall u hu
        · have hpop := pop_perm t ts
          have hlen : (pop (t :: ts)).length ≤ fuel := by
            rw [hpop.length_eq]
            exact Nat.le_of_succ_le_succ hlen
          exact ((hperm hlen).trans hpop).cons t
      · exact ⟨fun u hu => absurd hu List.not_mem_nil, fun _ => .refl _⟩

/-- A timer is taken off the front by a look at all of them only if it satisfies `p`. -/
theorem mem_popWhile (ht : t ∈ ts) : p t = true ∨ t ∈ (popWhile p ts.length ts).2 := by
  obtain ⟨hall, hperm⟩ := popWhile_spec p ts.length ts
  rcases List.mem_append.mp ((hperm (Nat.le_refl _)).mem_iff.mpr ht) with ht | ht
  · exact Or.inl (hall t ht)
  · exact Or.inr ht

/-- A timer is due or it stays. -/
theorem mem_takeDue (ht : t ∈ ts) :
    t ∈ (ts.takeDue now).1 ∨ t ∈ (ts.takeDue now).2 := by
  unfold takeDue
  dsimp only
  by_cases hdue : t.due ≤ now
  · refine Or.inl (List.mem_append.mpr ?_)
    obtain ⟨-, hperm⟩ := popWhile_spec (fun t => decide (t.due ≤ now)) ts.length ts
    rcases List.mem_append.mp ((hperm (Nat.le_refl _)).mem_iff.mpr ht) with hout | hleft
    · exact Or.inl hout
    · exact Or.inr (List.mem_filter.mpr ⟨hleft, by simpa using hdue⟩)
  · refine Or.inr (List.mem_filter.mpr ⟨?_, by simpa using hdue⟩)
    exact (mem_popWhile ht).resolve_left (by simpa using hdue)

end Timers
end Admission
