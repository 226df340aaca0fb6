import Mathlib.Algebra.BigOperators.Group.List.Basic
import Mathlib.Algebra.GroupWithZero.Nat
import Headway.Proofs.Transfer.Run

namespace Headway.Transfer

inductive Call where
  | operation (op : Operation)
  | callback (n size : UInt64)

namespace Call

def apply (t : Transfer) : Call → Transfer
  | .operation op => t.next op
  | .callback n size => t.callback n size

def count? : Call → Option UInt64
  | .operation (.hear (.bytes n)) => some n
  | .operation _ => none
  | .callback n _ => some n

end Call

def called (t : Transfer) (calls : List Call) : Transfer := calls.foldl Call.apply t

def counts (calls : List Call) : List UInt64 := calls.filterMap Call.count?

def forward : UInt64 → List UInt64 → ℕ
  | _, [] => 0
  | before, n :: ns => (n.toNat - before.toNat) + forward n ns

section Forward

variable {before : UInt64} {ns ms : List UInt64}

theorem forward_append (before : UInt64) (ns ms : List UInt64) :
    forward before (ns ++ ms) = forward before ns + forward (ns.getLastD before) ms := by
  induction ns generalizing before with
  | nil => simp [forward]
  | cons n ns ih => rw [List.cons_append, forward, forward, ih, List.getLastD_cons, Nat.add_assoc]

theorem le_getLastD (h : (before :: ns).Pairwise (· ≤ ·)) : before ≤ ns.getLastD before := by
  induction ns generalizing before with
  | nil => exact UInt64.le_refl _
  | cons n ns ih =>
    rw [List.pairwise_cons] at h
    rw [List.getLastD_cons]
    exact UInt64.le_trans (h.1 n List.mem_cons_self) (ih h.2)

theorem forward_of_pairwise (h : (before :: ns).Pairwise (· ≤ ·)) :
    forward before ns = (ns.getLastD before).toNat - before.toNat := by
  induction ns generalizing before with
  | nil => simp [forward]
  | cons n ns ih =>
    rw [List.pairwise_cons] at h
    have hn := UInt64.le_iff_toNat_le.mp (h.1 n List.mem_cons_self)
    have hl := UInt64.le_iff_toNat_le.mp (le_getLastD h.2)
    rw [forward, ih h.2, List.getLastD_cons]
    omega

theorem zero_pairwise (h : ns.Pairwise (· ≤ ·)) : (0 :: ns).Pairwise (· ≤ ·) := by
  rw [List.pairwise_cons]
  exact ⟨fun _ _ => UInt64.zero_le, h⟩

theorem forward_volumes {volumes : List (List UInt64)}
    (h : ∀ v ∈ volumes, v.Pairwise (· ≤ ·)) (before : UInt64) :
    forward before (volumes.flatMap (0 :: ·)) =
      (volumes.map fun v => (v.getLastD 0).toNat).sum := by
  induction volumes generalizing before with
  | nil => rfl
  | cons v vs ih =>
    have hv := forward_of_pairwise (zero_pairwise (h v List.mem_cons_self))
    have hvs := ih (fun w hw => h w (List.mem_cons_of_mem _ hw)) (v.getLastD 0)
    -- The announcement lies above nothing, and the volume then counts from it.
    rw [List.flatMap_cons, List.cons_append, forward, forward_append, hv, hvs, List.map_cons,
      List.sum_cons]
    simp

end Forward

theorem toNat_total_record (b : ByteCount) (ns : List UInt64) :
    (ns.foldl ByteCount.record b).total.toNat =
      min (b.total.toNat + forward b.current ns) Count.largest := by
  induction ns generalizing b with
  | nil =>
    have := Count.toNat_le_largest b.total
    simp only [List.foldl_nil, forward]
    omega
  | cons n ns ih =>
    rw [List.foldl_cons, ih, forward]
    simp only [ByteCount.record, Count.toNat_addSat, Count.toNat_subSat]
    omega

theorem bytes_hear (t : Transfer) (news : News) :
    (t.hear news).1.estimator.bytes =
      (Call.operation (.hear news)).count?.toList.foldl ByteCount.record t.estimator.bytes := by
  cases news with
  | bytes n => rfl
  | live u => rfl
  | evidence v =>
    rw [hear]
    split
    next e hv =>
      obtain ⟨-, rfl⟩ := setEvidence_eq_ok hv
      rfl
    next => rfl

theorem bytes_tick (t : Transfer) (live : LiveTotals) :
    (t.tick live).1.estimator.bytes = t.estimator.bytes :=
  (Estimator.tick_frame t.estimator t.now live).2.2

theorem bytes_apply (t : Transfer) (c : Call) :
    (c.apply t).estimator.bytes =
      c.count?.toList.foldl ByteCount.record t.estimator.bytes := by
  cases c with
  | callback n size => rfl
  | operation op =>
    cases op with
    | advance d => rfl
    | rewind d => rfl
    | hear news => exact bytes_hear t news
    | tick live => exact bytes_tick t live
    | tickLive => exact bytes_tick t t.live

theorem counts_append (calls more : List Call) :
    counts (calls ++ more) = counts calls ++ counts more := List.filterMap_append

theorem bytes_called (t : Transfer) (calls : List Call) :
    (t.called calls).estimator.bytes = (counts calls).foldl ByteCount.record t.estimator.bytes := by
  induction calls generalizing t with
  | nil => rfl
  | cons c calls ih =>
    have hc : counts (c :: calls) = c.count?.toList ++ counts calls := by
      rw [counts, List.filterMap_cons, counts]
      cases c.count? <;> rfl
    rw [hc, List.foldl_append, ← bytes_apply]
    exact ih _

variable (options : EstimatorOptions) (now : Instant) (live : LiveTotals)

theorem toNat_total_called (calls : List Call) :
    ((beginning options now live).called calls).estimator.total.toNat =
      min (forward 0 (counts calls)) Count.largest := by
  rw [Estimator.total, bytes_called, toNat_total_record]
  exact congrArg (min · _) (Nat.zero_add _)

theorem total_eq_forward (calls : List Call) :
    let total := fun calls => ((beginning options now live).called calls).estimator.total
    (total calls).toNat = min (forward 0 (counts calls)) Count.largest ∧
      (∀ more, total calls ≤ total (calls ++ more)) ∧
      ((counts calls).Pairwise (· ≤ ·) → total calls = (counts calls).getLastD 0) ∧
      ∀ volumes : List (List UInt64), counts calls = volumes.flatMap (0 :: ·) →
        (∀ v ∈ volumes, v.Pairwise (· ≤ ·)) →
        (total calls).toNat =
          min (volumes.map fun v => (v.getLastD 0).toNat).sum Count.largest := by
  intro total
  have htotal : ∀ calls, (total calls).toNat = min (forward 0 (counts calls)) Count.largest :=
    toNat_total_called options now live
  refine ⟨htotal calls, ?_, ?_, ?_⟩
  · intro more
    rw [UInt64.le_iff_toNat_le, htotal, htotal, counts_append, forward_append]
    omega
  · intro h
    apply UInt64.toNat.inj
    have hl := Count.toNat_le_largest ((counts calls).getLastD 0)
    rw [htotal, forward_of_pairwise (zero_pairwise h), UInt64.toNat_zero]
    omega
  · intro volumes hv h
    rw [htotal, hv, forward_volumes h]

def twoVolumes : List Call :=
  [.callback 0 7, .callback 5 7, .operation (.hear (.evidence ⟨1, 1⟩)), .operation (.tick ⟨9, 9⟩),
    .callback 5 0, .operation (.hear (.bytes 0)), .operation (.rewind (.ofSeconds 9)),
    .operation (.hear (.bytes 18446744073709551614))]

def untimed : EstimatorOptions := { EstimatorOptions.standard with interval := .clamp Duration.limit }

theorem total_eq_forward_twoVolumes :
    counts twoVolumes = [[5, 5], [18446744073709551614]].flatMap (0 :: ·) ∧
      ((beginning untimed ⟨0⟩ .zero).called twoVolumes).estimator.total.toNat = Count.largest := by
  have hc : counts twoVolumes = [[5, 5], [18446744073709551614]].flatMap (0 :: ·) := rfl
  have h := (total_eq_forward untimed ⟨0⟩ .zero twoVolumes).2.2.2 _ hc (by decide)
  exact ⟨hc, h.trans (by decide)⟩

end Headway.Transfer
