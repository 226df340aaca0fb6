import Mathlib.Data.Int.Notation
import Headway.Proofs.Transfer.Run

namespace Headway.Transfer

/-- At most `n` samples, and no more time taken in than lies before the last visit. -/
structure Steady (t : Transfer) (n : ℕ) : Prop where
  threshold : ∃ d, t.estimator.options.stallThreshold = .ok d
  samples : t.estimator.statistics.samples ≤ n
  accumulated : (t.estimator.statistics.accumulated.nanos : ℤ) ≤
    (t.estimator.time.last.getD ⟨0⟩).nanos
  last : (t.estimator.time.last.getD ⟨0⟩).nanos ≤ t.now.nanos

variable {t : Transfer} {n : ℕ} {op : Operation} {ops : List Operation}

def Forward : Operation → Prop
  | .rewind d => d.nanos = 0
  | _ => True

instance : DecidablePred Forward
  | .rewind d => inferInstanceAs (Decidable (d.nanos = 0))
  | .advance _ | .hear _ | .tick _ | .tickLive => inferInstanceAs (Decidable True)

theorem Forward.now_le_next (ho : Forward op) : t.now.nanos ≤ (t.next op).now.nanos := by
  cases op with
  | advance d =>
    change _ ≤ t.now.nanos + (d.nanos : ℤ)
    omega
  | rewind d =>
    have hd : d.nanos = 0 := ho
    change _ ≤ t.now.nanos - (d.nanos : ℤ)
    omega
  | hear news => exact Int.le_of_eq (congrArg Instant.nanos (hear_frame t news).1.symm)
  | tick => exact Int.le_refl _
  | tickLive => exact Int.le_refl _

theorem Forward.now_le_after (ho : ∀ op ∈ ops, Forward op) :
    t.now.nanos ≤ (t.after ops).now.nanos := by
  induction ops generalizing t with
  | nil => exact Int.le_refl _
  | cons op ops ih =>
    exact Int.le_trans (Forward.now_le_next (ho op List.mem_cons_self))
      (ih fun op' h => ho op' (List.mem_cons_of_mem op h))

theorem stallThreshold_eq_ok {o : EstimatorOptions} {d : Duration}
    (h : o.interval.double? = some d) : o.stallThreshold = .ok (o.stallFloor.longer d) := by
  rw [EstimatorOptions.stallThreshold, h]

theorem toNat_double (n : UInt32) : (2 * n.toUInt64).toNat = 2 * n.toNat := by
  have hn := n.toNat_lt
  have htwo : (2 : UInt64).toNat = 2 := by decide
  rw [UInt64.toNat_mul, UInt32.toNat_toUInt64, htwo]
  apply Nat.mod_eq_of_lt
  omega

theorem double?_interval (c : Config) :
    c.interval.double? = some (.ofSeconds (2 * c.intervalSecs.toUInt64)) := by
  have hn : 2 * c.interval.nanos = (Duration.ofSeconds (2 * c.intervalSecs.toUInt64)).nanos := by
    simp only [Config.interval, Duration.ofSeconds, toNat_double, UInt32.toNat_toUInt64]
    exact (Nat.mul_assoc _ _ _).symm
  rw [Duration.double?, hn, Duration.ofNanos?_nanos]

theorem stallThreshold_ofConfig (c : Config) :
    (EstimatorOptions.ofConfig c).stallThreshold = .ok c.stallThreshold :=
  stallThreshold_eq_ok (double?_interval c)

theorem threshold_ofConfig (c : Config) :
    ∃ d, (EstimatorOptions.ofConfig c).stallThreshold = .ok d := ⟨_, stallThreshold_ofConfig c⟩

theorem steady_starting (c : Config) : (starting (.ofConfig c)).Steady 0 :=
  ⟨threshold_ofConfig c, Nat.le_refl _, Int.le_refl _, Int.le_refl _⟩

theorem Steady.moved (h : t.Steady n) {now : Instant} (hn : t.now.nanos ≤ now.nanos) :
    Steady { t with now := now } n :=
  ⟨h.threshold, h.samples, h.accumulated, Int.le_trans h.last hn⟩

theorem Steady.hear (h : t.Steady n) (news : News) : (t.hear news).1.Steady n := by
  obtain ⟨hn, ho, hs, hl⟩ := hear_frame t news
  refine ⟨?_, ?_, ?_, ?_⟩
  · rw [ho]
    exact h.threshold
  · rw [hs]
    exact h.samples
  · rw [hs, hl]
    exact h.accumulated
  · rw [hl, hn]
    exact h.last

theorem elapsed_le (h : t.Steady n) :
    (t.estimator.statistics.accumulated.nanos : ℤ) +
      (t.estimator.time.elapsed t.now).nanos ≤ t.now.nanos := by
  have ha := h.accumulated
  have hl := h.last
  rw [Timeline.elapsed]
  cases hlast : t.estimator.time.last with
  | none =>
    rw [hlast] at ha hl
    simp only [Option.getD_none] at ha hl
    simp only [Duration.zero]
    omega
  | some last =>
    rw [hlast] at ha hl
    simp only [Option.getD_some] at ha hl
    simp only [Instant.since, Duration.clamp]
    omega

theorem Steady.tick (h : t.Steady n) (hn : n < Count.largest)
    (hc : t.now.nanos < Duration.limit) (live : LiveTotals) :
    ∃ e r, t.estimator.tick t.now live = (e, .ok r) ∧ Steady { t with estimator := e } (n + 1) := by
  obtain ⟨threshold, ht⟩ := h.threshold
  have hs := h.samples
  have he := elapsed_le h
  have ha : t.estimator.statistics.accumulated.add? (t.estimator.time.elapsed t.now) ≠ none := by
    rw [Duration.add?, Ne, Duration.ofNanos?_eq_none_iff]
    omega
  obtain ⟨e, r, hr⟩ := Estimator.exists_tick ht (by omega) ha live
  refine ⟨e, r, hr, ?_⟩
  have hl := h.last
  cases Estimator.ticks_of_tick hr with
  | unanswered => exact ⟨h.threshold, Nat.le_succ_of_le hs, h.accumulated, hl⟩
  | stalled =>
    exact ⟨h.threshold, Nat.le_succ_of_le hs, Int.le_trans h.accumulated hl, Int.le_refl _⟩
  | skipped =>
    exact ⟨h.threshold, Nat.le_succ_of_le hs, Int.le_trans h.accumulated hl, Int.le_refl _⟩
  | completed v hv hc accumulated hn ha =>
    rw [Estimator.elapsed_eq, (Estimator.visit?_eq_some hv).2.2.1] at ha
    have hnanos := Duration.nanos_ofNanos? ha
    refine ⟨h.threshold, Nat.succ_le_succ hs, ?_, Int.le_refl _⟩
    change (accumulated.nanos : ℤ) ≤ t.now.nanos
    omega

end Headway.Transfer
