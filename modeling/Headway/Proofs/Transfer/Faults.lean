import Headway.Proofs.Transfer.Run

/-!
What a tick leaves behind when it faults.  The threshold and the count of the samples are checked
before the statistics are touched.  The time used is summed up after that, so a sum that leaves its
range leaves a sample observed whose time has not been taken in.
-/

namespace Headway.Transfer

variable {t : Transfer} {op : Operation} {f : Fault}

theorem tick_of_fault (h : t.faults [op] = [f]) :
    ∃ live, t.asked op = some live ∧
      t.estimator.tick t.now live = ((t.next op).estimator, .error f) := by
  cases ha : t.asked op with
  | none =>
    rw [faults_of_not_asked ha] at h
    cases h
  | some live =>
    refine ⟨live, rfl, ?_⟩
    rw [faults, trace_singleton, step_of_asked ha] at h
    rw [next, step_of_asked ha]
    cases hr : (t.estimator.tick t.now live).2 with
    | ok r =>
      rw [hr] at h
      cases h
    | error g =>
      rw [hr] at h
      cases h
      exact Prod.ext rfl hr

def observedSnapshot (e : Estimator) (x : Sample) : Snapshot :=
  let s := e.statistics.observe x
  { e.snapshot with
    samples := e.statistics.samples + 1
    changeMean := s.change.mean
    changeSigma := s.change.sigma
    compressMean := s.compress.mean
    compressSigma := s.compress.sigma
    progress := s.progress }

theorem observedSnapshot_ne (e : Estimator) (x : Sample) : observedSnapshot e x ≠ e.snapshot := by
  intro h
  exact Nat.succ_ne_self _ (congrArg Snapshot.samples h)

theorem limit_le_of_add? {a b : Duration} (h : a.add? b = none) :
    Duration.limit ≤ a.nanos + b.nanos :=
  Duration.ofNanos?_eq_none_iff.mp h

variable (options : EstimatorOptions) (now : Instant) (live : LiveTotals)

theorem snapshot_of_fault (ops : List Operation)
    (hf : ((beginning options now live).after ops).faults [op] = [f]) :
    let t := (beginning options now live).after ops
    ((t.next op).estimator.snapshot = t.estimator.snapshot ↔ f ≠ .durationSum) ∧
      (f = .durationSum → ∃ v, t.visit op = [v] ∧ v.Completes ∧
        Duration.limit ≤ t.estimator.statistics.accumulated.nanos +
          (v.elapsed t.estimator.time.last).nanos ∧
        (t.next op).estimator.snapshot =
          observedSnapshot t.estimator (v.sample t.estimator.time.last)) := by
  intro t
  obtain ⟨l, ha, ht⟩ := tick_of_fault hf
  obtain ⟨hsum, he⟩ | ⟨v, hv, hc, rfl, hsum, he⟩ := Estimator.fault_cases ht
  · have hs : (t.next op).estimator.snapshot = t.estimator.snapshot := by
      rw [he]
      rfl
    exact ⟨⟨fun _ => hsum, fun _ => hs⟩, fun h => absurd h hsum⟩
  · have hs : (t.next op).estimator.snapshot =
        observedSnapshot t.estimator (v.sample t.estimator.time.last) := by
      rw [he]
      rfl
    have hvisit : t.visit op = [v] := by
      rw [visit_of_asked ha, hv]
      rfl
    constructor
    · rw [hs]
      simp [observedSnapshot_ne]
    · exact fun _ => ⟨v, hvisit, hc, limit_le_of_add? hsum, hs⟩

/-- Almost half of the longest time, three times over, on a clock that is set back in between. -/
def worn : List Operation :=
  [.hear (.evidence ⟨0, 1000⟩), .tick ⟨20, 40⟩,
    .advance (.ofSeconds 9000000000000000000), .hear (.bytes 10), .tick ⟨20, 40⟩,
    .rewind (.ofSeconds 9000000000000000000), .tick ⟨20, 40⟩,
    .advance (.ofSeconds 9000000000000000000), .hear (.bytes 20), .tick ⟨20, 40⟩,
    .rewind (.ofSeconds 9000000000000000000), .tick ⟨20, 40⟩,
    .advance (.ofSeconds 9000000000000000000), .hear (.bytes 30)]

theorem snapshot_of_fault_worn :
    let t := (beginning .standard ⟨0⟩ .zero).after worn
    t.faults [.tick ⟨40, 80⟩] = [.durationSum] ∧
      ∃ v, t.visit (.tick ⟨40, 80⟩) = [v] ∧
        (t.next (.tick ⟨40, 80⟩)).estimator.snapshot =
          observedSnapshot t.estimator (v.sample t.estimator.time.last) := by
  intro t
  have hf : t.faults [.tick ⟨40, 80⟩] = [.durationSum] := by decide +kernel
  obtain ⟨v, hv, -, -, hs⟩ := (snapshot_of_fault .standard ⟨0⟩ .zero worn hf).2 rfl
  exact ⟨hf, v, hv, hs⟩

theorem not_unchanged_worn :
    ¬ ∀ (options : EstimatorOptions) (now : Instant) (live : LiveTotals) (ops : List Operation)
      (op : Operation), ((beginning options now live).after ops).faults [op] ≠ [] →
      (((beginning options now live).after ops).next op).estimator.snapshot =
        ((beginning options now live).after ops).estimator.snapshot := by
  intro h
  have hf : ((beginning .standard ⟨0⟩ .zero).after worn).faults [.tick ⟨40, 80⟩] ≠ [] := by
    decide +kernel
  have hs := congrArg Snapshot.samples (h .standard ⟨0⟩ .zero worn (.tick ⟨40, 80⟩) hf)
  revert hs
  decide +kernel

end Headway.Transfer
