import Mathlib.Logic.Function.Basic
import ProfileTrace.Proofs.Seconds.Order
import ProfileTrace.StackSource

/-! Samples in the order of their times. The total order of times tells all of them apart, so
that the time from which a trace counts does not depend on how its samples were put together. -/

namespace ProfileTrace

namespace Seconds

theorem totalKey_eq (time : Seconds) :
    time.totalKey =
      if signBit ≤ time.bits.toNat then (signBit : Int) - 1 - time.bits.toNat
      else time.bits.toNat := by
  have bound := time.bits.toNat_lt
  unfold totalKey isNegative magnitude
  by_cases negative : signBit ≤ time.bits.toNat
  · simp only [negative, decide_true, if_true]
    simp only [signBit] at negative ⊢
    omega
  · simp only [negative, decide_false, Bool.false_eq_true, if_false]
    simp only [signBit] at negative ⊢
    omega

theorem totalKey_injective : Function.Injective totalKey := by
  intro first second same
  rw [totalKey_eq, totalKey_eq] at same
  have equal : first.bits.toNat = second.bits.toNat := by
    split at same <;> split at same <;> simp only [signBit] at * <;> omega
  calc
    first = ⟨first.bits⟩ := rfl
    _ = ⟨second.bits⟩ := congrArg Seconds.mk (UInt64.toNat_inj.mp equal)
    _ = second := rfl

def earliest : List Seconds → Seconds
  | [] => .zero
  | time :: others => others.foldl (fun least time => if least.totalLe time then least else time) time

theorem earliest_cons_cons (time next : Seconds) (others : List Seconds) :
    earliest (time :: next :: others) =
      earliest ((if time.totalLe next then time else next) :: others) :=
  rfl

theorem earliest_mem {times : List Seconds} (some : times ≠ []) : earliest times ∈ times := by
  obtain ⟨time, others, rfl⟩ := List.exists_cons_of_ne_nil some
  clear some
  induction others generalizing time with
  | nil => exact List.mem_singleton.mpr rfl
  | cons next others ih =>
    rw [earliest_cons_cons]
    split
    · rcases List.mem_cons.mp (ih time) with same | later
      · rw [same]
        exact List.mem_cons_self
      · exact List.mem_cons_of_mem _ (List.mem_cons_of_mem _ later)
    · exact List.mem_cons_of_mem _ (ih next)

theorem earliest_le {times : List Seconds} {time : Seconds} (among : time ∈ times) :
    (earliest times).totalKey ≤ time.totalKey := by
  obtain ⟨first, others, rfl⟩ := List.exists_cons_of_ne_nil (List.ne_nil_of_mem among)
  induction others generalizing first time with
  | nil =>
    rw [List.mem_singleton.mp among]
    exact Int.le_refl _
  | cons next others ih =>
    rw [earliest_cons_cons]
    rcases List.mem_cons.mp among with rfl | later
    · split
      next before => exact ih time List.mem_cons_self
      next after =>
        have least := ih next List.mem_cons_self
        simp only [totalLe, decide_eq_true_eq] at after
        omega
    · rcases List.mem_cons.mp later with rfl | later
      · split
        next before =>
          have least := ih first List.mem_cons_self
          simp only [totalLe, decide_eq_true_eq] at before
          omega
        next after => exact ih time List.mem_cons_self
      · exact ih _ (List.mem_cons_of_mem _ later)

theorem eq_earliest {times : List Seconds} {time : Seconds} (among : time ∈ times)
    (least : ∀ other ∈ times, time.totalKey ≤ other.totalKey) : time = earliest times := by
  have upper := least (earliest times) (earliest_mem (List.ne_nil_of_mem among))
  exact totalKey_injective (Int.le_antisymm upper (earliest_le among))

theorem earliest_perm {first second : List Seconds} (same : first.Perm second) :
    earliest first = earliest second := by
  by_cases none : first = []
  · rw [none] at same
    rw [none, List.nil_perm.mp same]
  · apply eq_earliest
    · exact same.subset (earliest_mem none)
    · intro other among
      exact earliest_le (same.symm.subset among)

end Seconds

namespace StackSource
open Seconds (earliest eq_earliest)

theorem sorted_times (samples : List Sample) :
    (samples.mergeSort fun a b => a.time.totalLe b.time).Pairwise
      fun a b => a.time.totalLe b.time := by
  apply List.pairwise_mergeSort
  · exact fun a b c => Seconds.totalLe_trans a.time b.time c.time
  · exact fun a b => Seconds.totalLe_total a.time b.time

theorem fst_arrange (samples : List Sample) :
    (arrange samples).1 = earliest (samples.map Sample.time) := by
  have sorted := sorted_times samples
  have same := List.mergeSort_perm samples fun a b => a.time.totalLe b.time
  unfold arrange
  simp only
  generalize samples.mergeSort _ = arranged at sorted same
  cases arranged with
  | nil =>
    rw [List.nil_perm.mp same]
    rfl
  | cons first others =>
    apply eq_earliest
    · exact List.mem_map_of_mem (same.subset List.mem_cons_self)
    · intro time among
      obtain ⟨sample, inside, rfl⟩ := List.mem_map.mp among
      rcases List.mem_cons.mp (same.symm.subset inside) with rfl | later
      · exact Int.le_refl _
      · have before := (List.pairwise_cons.mp sorted).1 sample later
        simpa [Seconds.totalLe] using before

/-- Arranging counts the times from the least one and changes nothing else but the order. -/
theorem snd_arrange_perm (samples : List Sample) :
    (arrange samples).2.Perm (samples.map fun sample =>
      { sample with time := sample.time - earliest (samples.map Sample.time) }) := by
  rw [← fst_arrange]
  exact (List.mergeSort_perm samples _).map _

theorem times_arrange_of_sorted {samples : List Sample}
    (sorted : (samples.map Sample.time).Pairwise fun a b => a.totalLe b) :
    (arrange samples).2.map Sample.time =
      (samples.map Sample.time).map (· - earliest (samples.map Sample.time)) := by
  have same : (samples.mergeSort fun a b => a.time.totalLe b.time) = samples :=
    List.mergeSort_of_pairwise (List.pairwise_map.mp sorted)
  rw [← fst_arrange]
  simp only [arrange, same, List.map_map, Function.comp_def]

end StackSource

end ProfileTrace
