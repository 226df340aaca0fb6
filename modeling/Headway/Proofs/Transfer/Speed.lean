import Headway.Proofs.Transfer.Bytes
import Headway.Proofs.Transfer.Span

/-!
Which bytes the rate of a completed visit counts.  Its time goes from the visit before to this one,
its bytes from the last completed visit to this one.  What was counted between these two earlier
visits is carried over, and divided by the later time as well.
-/

namespace Headway.Transfer

open Samples

def seen (vs : List Visit) : UInt64 := vs.foldl (fun _ v => v.total) 0

def sampled (vs : List Visit) : UInt64 := lastTotal 0 (samples none vs)

def carried (vs : List Visit) : ℕ := (seen vs).toNat - (sampled vs).toNat

def counted (vs : List Visit) (v : Visit) : ℕ := v.total.toNat - (seen vs).toNat

def sinceVisit (vs : List Visit) (v : Visit) : Duration := v.elapsed (lastVisit none vs)

def spanRate (vs : List Visit) (v : Visit) : Float :=
  (counted vs v).toUInt64.toFloat / (sinceVisit vs v).toFloat

structure Counted (t : Transfer) (vs : List Visit) : Prop where
  sampled : sampled vs ≤ seen vs
  seen : seen vs ≤ t.estimator.total

variable {t : Transfer} {vs : List Visit} {v : Visit} {op : Operation} {ops : List Operation}

theorem seen_append_singleton (vs : List Visit) (v : Visit) : seen (vs ++ [v]) = v.total := by
  simp [seen]

theorem sampled_append_singleton (vs : List Visit) (v : Visit) :
    sampled (vs ++ [v]) = if v.Completes then v.total else sampled vs := by
  rw [sampled, samples_append_singleton]
  split
  · simp [lastTotal, Visit.sample]
  · rw [List.append_nil]
    rfl

theorem carried_eq_zero (h : ∀ v ∈ vs.getLast?, v.Completes) : carried vs = 0 := by
  obtain rfl | ⟨vs, v, rfl⟩ := List.eq_nil_or_concat' vs
  · rfl
  · have hv : v.Completes := by
      apply h
      simp
    rw [carried, seen_append_singleton, sampled_append_singleton, if_pos hv, Nat.sub_self]

theorem total_le_next (t : Transfer) (op : Operation) :
    t.estimator.total ≤ (t.next op).estimator.total := by
  cases op with
  | advance => exact UInt64.le_refl _
  | rewind => exact UInt64.le_refl _
  | hear news => exact (hear_keeps t news).1
  | tick live => exact UInt64.le_of_eq (congrArg ByteCount.total (bytes_tick t live)).symm
  | tickLive => exact UInt64.le_of_eq (congrArg ByteCount.total (bytes_tick t t.live)).symm

theorem visit?_of_visit (h : t.visit op = [v]) :
    ∃ live, t.asked op = some live ∧ t.estimator.visit? t.now live = some v := by
  rw [visit, Option.toList_eq_singleton_iff] at h
  exact Option.bind_eq_some_iff.mp h

theorem Counted.next (h : Counted t vs) (op : Operation) :
    Counted (t.next op) (vs ++ t.visit op) := by
  have htotal := total_le_next t op
  obtain hv | ⟨v, hv, -⟩ := visit_cases t op
  · rw [hv, List.append_nil]
    exact ⟨h.sampled, UInt64.le_trans h.seen htotal⟩
  · obtain ⟨live, -, hvisit⟩ := visit?_of_visit hv
    obtain ⟨-, -, -, -, hseen, -⟩ := Estimator.visit?_eq_some hvisit
    rw [hv]
    constructor
    · rw [seen_append_singleton, sampled_append_singleton, hseen]
      split
      · exact UInt64.le_refl _
      · exact UInt64.le_trans h.sampled h.seen
    · rw [seen_append_singleton, hseen]
      exact htotal

section Beginning

variable (options : EstimatorOptions) (now : Instant) (live : LiveTotals)

theorem counted_after (ops : List Operation) :
    Counted ((beginning options now live).after ops) ((beginning options now live).visits ops) := by
  induction ops using List.reverseRecOn with
  | nil => exact ⟨UInt64.le_refl _, UInt64.le_refl _⟩
  | append_singleton ops op ih =>
    rw [visits_append_singleton, after_append]
    exact ih.next op

theorem Recorded.rates_next (h : Recorded t vs) (hf : t.faults [op] = []) (hv : t.visit op = [v])
    (hc : v.Completes) (he : (sinceVisit vs v).nanos ≠ 0) :
    (t.next op).estimator.statistics.rates = t.estimator.statistics.rates.push
      ((Count.subSat v.total (sampled vs)).toFloat / (sinceVisit vs v).toFloat) ∧
      (t.next op).estimator.speed = (t.next op).estimator.statistics.rates.average := by
  obtain ⟨l, ha, hvisit⟩ := visit?_of_visit hv
  obtain ⟨e, r, ht, hs, -, -⟩ := ticks_of_asked ha hf
  obtain ⟨accumulated, rfl⟩ := ht.eq_completed hvisit hc
  have hnanos : (v.sample t.estimator.time.last).elapsed.nanos ≠ 0 := by
    rw [h.last]
    exact he
  rw [next, hs]
  refine ⟨?_, rfl⟩
  change (if _ then _ else t.estimator.statistics.rates.push
    (t.estimator.statistics.rate (v.sample t.estimator.time.last))) = _
  rw [if_neg hnanos, TransferStatistics.rate, h.replay.total, h.last]
  rfl

theorem rate_of_spans (ops : List Operation)
    (hf : (beginning options now live).faults (ops ++ [op]) = [])
    (hv : ((beginning options now live).after ops).visit op = [v]) (hc : v.Completes)
    (he : (sinceVisit ((beginning options now live).visits ops) v).nanos ≠ 0) :
    let t := (beginning options now live).after ops
    let vs := (beginning options now live).visits ops
    let rates := (t.next op).estimator.statistics.rates
    (∃ sent : UInt64, sent.toNat = carried vs + counted vs v ∧
      rates = t.estimator.statistics.rates.push (sent.toFloat / (sinceVisit vs v).toFloat)) ∧
      (carried vs = 0 → rates = t.estimator.statistics.rates.push (spanRate vs v)) ∧
      ((∀ w ∈ vs.getLast?, w.Completes) → carried vs = 0) ∧
      (t.next op).estimator.speed = rates.average := by
  intro t vs rates
  rw [faults_append_eq_nil] at hf
  have hrec : Recorded t vs := recorded_after options now live hf.1
  have hcount : Counted t vs := counted_after options now live ops
  obtain ⟨hrates, hspeed⟩ := hrec.rates_next hf.2 hv hc he
  obtain ⟨l, -, hvisit⟩ := visit?_of_visit hv
  obtain ⟨-, -, -, -, htotal, -⟩ := Estimator.visit?_eq_some hvisit
  have hsampled := UInt64.le_iff_toNat_le.mp hcount.sampled
  have hseen := UInt64.le_iff_toNat_le.mp hcount.seen
  rw [← htotal] at hseen
  have hsent : (Count.subSat v.total (sampled vs)).toNat = carried vs + counted vs v := by
    rw [Count.toNat_subSat, carried, counted]
    omega
  refine ⟨⟨_, hsent, hrates⟩, ?_, carried_eq_zero, hspeed⟩
  intro hz
  have hword : Count.subSat v.total (sampled vs) = (counted vs v).toUInt64 := by
    rw [← UInt64.ofNat_toNat (x := Count.subSat v.total (sampled vs)), hsent, hz, Nat.zero_add]
  rw [spanRate, ← hword]
  exact hrates

/-- A stall takes the six hundred bytes of its span over into the second after it. -/
def resumed : List Operation :=
  [.hear (.evidence ⟨0, 1000⟩), .hear (.bytes 100), .tick ⟨200, 400⟩, .advance (.ofSeconds 1),
    .hear (.bytes 700), .advance (.ofSeconds 7), .tick ⟨200, 400⟩, .advance (.ofSeconds 1),
    .hear (.bytes 800)]

def resumption : Visit := ⟨⟨9000000000⟩, ⟨200, 400⟩, 1000, 800, false⟩

theorem rate_of_spans_resumed :
    (beginning .standard ⟨0⟩ .zero).faults (resumed ++ [.tick ⟨200, 400⟩]) = [] ∧
      ((beginning .standard ⟨0⟩ .zero).after resumed).visit (.tick ⟨200, 400⟩) = [resumption] ∧
      resumption.Completes ∧
      sinceVisit ((beginning .standard ⟨0⟩ .zero).visits resumed) resumption = .ofSeconds 1 ∧
      ∃ sent : UInt64, sent.toNat = 600 + 100 ∧
        (((beginning .standard ⟨0⟩ .zero).after resumed).next
            (.tick ⟨200, 400⟩)).estimator.statistics.rates =
          ((beginning .standard ⟨0⟩ .zero).after resumed).estimator.statistics.rates.push
            (sent.toFloat / (sinceVisit ((beginning .standard ⟨0⟩ .zero).visits resumed)
              resumption).toFloat) := by
  have hf : (beginning .standard ⟨0⟩ .zero).faults (resumed ++ [.tick ⟨200, 400⟩]) = [] := by
    decide +kernel
  have hv : ((beginning .standard ⟨0⟩ .zero).after resumed).visit (.tick ⟨200, 400⟩) =
      [resumption] := by decide +kernel
  have hc : resumption.Completes := by decide
  have hs : sinceVisit ((beginning .standard ⟨0⟩ .zero).visits resumed) resumption =
      .ofSeconds 1 := by decide +kernel
  have hcarried : carried ((beginning .standard ⟨0⟩ .zero).visits resumed) = 600 := by
    decide +kernel
  have hcounted : counted ((beginning .standard ⟨0⟩ .zero).visits resumed) resumption = 100 := by
    decide +kernel
  have he : (sinceVisit ((beginning .standard ⟨0⟩ .zero).visits resumed) resumption).nanos ≠ 0 := by
    rw [hs]
    decide
  obtain ⟨⟨sent, hsent, hrates⟩, -⟩ := rate_of_spans .standard ⟨0⟩ .zero resumed hf hv hc he
  rw [hcarried, hcounted] at hsent
  exact ⟨hf, hv, hc, hs, sent, hsent, hrates⟩

def unprocessed : List Operation :=
  [.hear (.evidence ⟨0, 1000⟩), .hear (.bytes 100), .tick ⟨200, 400⟩, .advance (.ofSeconds 1),
    .hear (.bytes 600), .tick ⟨200, 0⟩, .advance (.ofSeconds 1), .hear (.bytes 700)]

theorem not_spanRate_unprocessed :
    ¬ ∀ (options : EstimatorOptions) (now : Instant) (live : LiveTotals) (ops : List Operation)
      (op : Operation) (v : Visit),
      (∀ op ∈ ops, Forward op) → (beginning options now live).faults (ops ++ [op]) = [] →
      ((beginning options now live).after ops).visit op = [v] → v.Completes →
      (sinceVisit ((beginning options now live).visits ops) v).nanos ≠ 0 →
      (((beginning options now live).after ops).next op).estimator.statistics.rates =
        ((beginning options now live).after ops).estimator.statistics.rates.push
          (spanRate ((beginning options now live).visits ops) v) := by
  intro h
  have hrates := h .standard ⟨0⟩ .zero unprocessed (.tick ⟨200, 400⟩)
    ⟨⟨2000000000⟩, ⟨200, 400⟩, 1000, 700, false⟩ (by decide) (by decide +kernel) (by decide +kernel)
    (by decide) (by decide +kernel)
  revert hrates
  decide +kernel

-- Six hundred bytes in one second, of which five hundred came in the second before.
example : (((beginning .standard ⟨0⟩ .zero).after unprocessed).next
    (.tick ⟨200, 400⟩)).estimator.statistics.rates.rates = [600.0] := by
  decide +kernel

end Beginning

end Headway.Transfer
