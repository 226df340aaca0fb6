import Headway.Proofs.Binary64.Product
import Headway.Proofs.Transfer.Replay

namespace Headway

structure Report.UpTo (a b : Report) : Prop where
  percent : a.percent ≤ b.percent
  total : a.total ≤ b.total
  elapsed : a.elapsed ≤ b.elapsed

theorem Report.UpTo.trans {a b c : Report} (h : a.UpTo b) (h' : b.UpTo c) : a.UpTo c :=
  ⟨Binary64.le_trans h.percent h'.percent, UInt64.le_trans h.total h'.total,
    UInt64.le_trans h.elapsed h'.elapsed⟩

theorem pairwise_append_singleton {es : List Emission} {e : Emission}
    (h : es.Pairwise fun a b => a.report.UpTo b.report) (he : ∀ a ∈ es, a.report.UpTo e.report) :
    (es ++ [e]).Pairwise fun a b => a.report.UpTo b.report := by
  rw [List.pairwise_append]
  refine ⟨h, List.pairwise_singleton _ _, ?_⟩
  intro a ha b hb
  obtain rfl := List.mem_singleton.mp hb
  exact he a ha

def lastSpeed (es : List Emission) : Float :=
  es.foldl (fun v e => if e.report.stalled then v else e.report.speed) 0.0

theorem lastSpeed_append_singleton (es : List Emission) (e : Emission) :
    lastSpeed (es ++ [e]) = if e.report.stalled then lastSpeed es else e.report.speed := by
  simp [lastSpeed]

section Parts

theorem toNat_seconds (d : Duration) : d.seconds.toUInt64.toNat = d.nanos / Duration.perSecond := by
  have hb := d.bounded
  simp only [Duration.limit] at hb
  rw [Nat.toUInt64_eq, UInt64.toNat_ofNat', Duration.seconds]
  apply Nat.mod_eq_of_lt
  simp only [Duration.perSecond]
  omega

theorem Timeline.running_mono (t : Timeline) {now now' : Instant} (h : now.nanos ≤ now'.nanos) :
    t.running now ≤ t.running now' := by
  rw [running, running]
  cases t.first with
  | none => exact UInt64.le_refl _
  | some first =>
    apply UInt64.le_iff_toNat_le.mpr
    simp only [toNat_seconds]
    apply Nat.div_le_div_right
    simp only [Instant.since, Duration.clamp]
    omega

theorem Timeline.running_le_visit (t : Timeline) (now : Instant) :
    t.running now ≤ (t.visit now).running now := by
  rw [running, running, visit]
  cases t.first with
  | none => exact UInt64.zero_le
  | some first => exact UInt64.le_refl _

theorem TransferStatistics.progress_observe {s : TransferStatistics}
    (h : 0.0 ≤ s.progress ∧ s.progress ≤ 1.0) (x : Sample) :
    s.progress ≤ (s.observe x).progress ∧ (s.observe x).progress ≤ 1.0 := by
  obtain ⟨q, hq, hp⟩ : ∃ q, q ≤ 1.0 ∧
      (s.observe x).progress = if s.progress < q then q else s.progress :=
    ⟨_, (Samples.unitInterval_mem _).2, rfl⟩
  rw [hp]
  split
  next hlt => exact ⟨Binary64.le_of_lt hlt, hq⟩
  next => exact ⟨Binary64.le_refl_of_le h.1, h.2⟩

end Parts

namespace Transfer

/-- What a tick would report now, if it came to nothing new. -/
def outlook (t : Transfer) : Report := t.estimator.report t.now false

structure Grows (t u : Transfer) : Prop where
  progress : t.estimator.statistics.progress ≤ u.estimator.statistics.progress
  done : u.estimator.statistics.progress ≤ 1.0
  total : t.estimator.total ≤ u.estimator.total
  elapsed : t.estimator.elapsedSeconds t.now ≤ u.estimator.elapsedSeconds u.now

structure Trail (t : Transfer) (es : List Emission) : Prop where
  progress : 0.0 ≤ t.estimator.statistics.progress ∧ t.estimator.statistics.progress ≤ 1.0
  ordered : es.Pairwise fun a b => a.report.UpTo b.report
  below : ∀ e ∈ es, 0.0 ≤ e.report.percent ∧ e.report.UpTo t.outlook
  speed : t.estimator.speed = lastSpeed es

variable {t u : Transfer} {es : List Emission}

namespace Trail

variable (h : Trail t es)
include h

theorem progress_refl : t.estimator.statistics.progress ≤ t.estimator.statistics.progress :=
  Binary64.le_refl_of_le h.progress.1

theorem outlook_upTo (hg : Grows t u) : t.outlook.UpTo u.outlook :=
  ⟨Binary64.hundred_mul_le_hundred_mul h.progress.1 hg.progress hg.done, hg.total, hg.elapsed⟩

theorem below_of_grows (hg : Grows t u) {e : Emission} (he : e ∈ es) : e.report.UpTo u.outlook :=
  (h.below e he).2.trans (h.outlook_upTo hg)

theorem grown (hg : Grows t u) :
    0.0 ≤ u.estimator.statistics.progress ∧ u.estimator.statistics.progress ≤ 1.0 :=
  ⟨Binary64.le_trans h.progress.1 hg.progress, hg.done⟩

theorem quiet (hg : Grows t u) (hs : u.estimator.speed = t.estimator.speed) : Trail u es :=
  ⟨h.grown hg, h.ordered, fun e he => ⟨(h.below e he).1, h.below_of_grows hg he⟩,
    hs.trans h.speed⟩

theorem report (hg : Grows t u) {stalled : Bool}
    (hs : stalled = true → u.estimator.speed = t.estimator.speed) :
    Trail u (es ++ [⟨u.now, u.estimator.report u.now stalled⟩]) := by
  have hp := h.grown hg
  have hu : u.outlook.UpTo u.outlook := by
    refine ⟨?_, UInt64.le_refl _, UInt64.le_refl _⟩
    exact Binary64.hundred_mul_le_hundred_mul hp.1 (Binary64.le_refl_of_le hp.1) hp.2
  have hnew : ∀ stalled, (u.estimator.report u.now stalled).UpTo u.outlook := fun _ =>
    ⟨hu.percent, hu.total, hu.elapsed⟩
  refine ⟨hp, ?_, ?_, ?_⟩
  · apply pairwise_append_singleton h.ordered
    intro a ha
    have hab := h.below_of_grows hg ha
    exact ⟨hab.percent, hab.total, hab.elapsed⟩
  · intro e he
    rcases List.mem_append.mp he with he | he
    · exact ⟨(h.below e he).1, h.below_of_grows hg he⟩
    · obtain rfl := List.mem_singleton.mp he
      exact ⟨(Binary64.hundred_mul_mem hp.1 hp.2).1, hnew stalled⟩
  · rw [lastSpeed_append_singleton]
    cases stalled with
    | true => exact (hs rfl).trans h.speed
    | false => rfl

theorem moved {now : Instant} (hn : t.now.nanos ≤ now.nanos) :
    Trail { t with now := now } es :=
  h.quiet ⟨h.progress_refl, h.progress.2, UInt64.le_refl _, t.estimator.time.running_mono hn⟩ rfl

theorem hear (news : News) : Trail (t.hear news).1 es := by
  obtain ⟨hn, -, hs, -⟩ := hear_frame t news
  have hfirst := first_hear t news
  refine h.quiet ⟨?_, ?_, (hear_keeps t news).1, ?_⟩ ?_
  · rw [hs]
    exact h.progress_refl
  · rw [hs]
    exact h.progress.2
  · rw [Estimator.elapsedSeconds, Estimator.elapsedSeconds, Timeline.running, Timeline.running,
      hfirst, hn]
    exact UInt64.le_refl _
  · rw [Estimator.speed, hs]
    rfl

theorem grows_visit : Grows t { t with estimator := t.estimator.visit t.now } :=
  ⟨h.progress_refl, h.progress.2, UInt64.le_refl _, t.estimator.time.running_le_visit t.now⟩

theorem grows_observe (x : Sample) {s : TransferStatistics}
    (hs : s.progress = (t.estimator.statistics.observe x).progress) :
    Grows t { t with estimator := { t.estimator.visit t.now with statistics := s } } := by
  obtain ⟨hle, hdone⟩ := TransferStatistics.progress_observe h.progress x
  rw [← hs] at hle hdone
  exact ⟨hle, hdone, UInt64.le_refl _, t.estimator.time.running_le_visit t.now⟩

theorem tick {live : LiveTotals} {e : Estimator} {r : Option Report}
    (ht : t.estimator.Ticks t.now live e r) :
    Trail { t with estimator := e } (es ++ r.toList.map (Emission.mk t.now)) := by
  cases ht with
  | unanswered =>
    rw [Option.toList_none, List.map_nil, List.append_nil]
    exact h
  | stalled => exact h.report h.grows_visit fun _ => rfl
  | skipped =>
    rw [Option.toList_none, List.map_nil, List.append_nil]
    exact h.quiet h.grows_visit rfl
  | completed v hv hc accumulated =>
    have hg : Grows t { t with
        estimator := t.estimator.completed t.now (v.sample t.estimator.time.last) accumulated } :=
      h.grows_observe (v.sample t.estimator.time.last) rfl
    exact h.report hg fun hs => absurd hs Bool.false_ne_true

theorem fault {e : Estimator}
    (he : e = t.estimator.visit t.now ∨ ∃ x, e = { t.estimator.visit t.now with
      statistics := t.estimator.statistics.observe x }) :
    Trail { t with estimator := e } es := by
  rcases he with rfl | ⟨x, rfl⟩
  · exact h.quiet h.grows_visit rfl
  · exact h.quiet (h.grows_observe x rfl) rfl

theorem asked {op : Operation} {live : LiveTotals} (ha : t.asked op = some live) :
    Trail (t.next op) (es ++ t.emitted op) := by
  rw [next, emitted, step_of_asked ha]
  rcases hr : t.estimator.tick t.now live with ⟨e, f | r⟩
  · change Trail _ (es ++ [])
    rw [List.append_nil]
    exact h.fault (Estimator.tick_of_error hr)
  · exact h.tick (Estimator.ticks_of_tick hr)

theorem bounded : ∀ e ∈ es, 0.0 ≤ e.report.percent ∧ e.report.percent ≤ 100.0 := by
  intro e he
  obtain ⟨hlo, hhi⟩ := h.below e he
  exact ⟨hlo, Binary64.le_trans hhi.percent
    (Binary64.hundred_mul_mem h.progress.1 h.progress.2).2⟩

theorem finished :
    (es ++ [Emission.mk t.now t.finalReport]).Pairwise (fun a b => a.report.UpTo b.report) ∧
      ∀ e ∈ es ++ [Emission.mk t.now t.finalReport],
        0.0 ≤ e.report.percent ∧ e.report.percent ≤ 100.0 := by
  constructor
  · apply pairwise_append_singleton h.ordered
    intro a ha
    have hab := (h.below a ha).2
    exact ⟨(h.bounded a ha).2, hab.total, hab.elapsed⟩
  · intro e he
    rcases List.mem_append.mp he with he | he
    · exact h.bounded e he
    · obtain rfl := List.mem_singleton.mp he
      change (0.0 : Float) ≤ 100.0 ∧ (100.0 : Float) ≤ 100.0
      decide

end Trail

theorem trail_beginning (options : EstimatorOptions) (now : Instant) (live : LiveTotals) :
    Trail (beginning options now live) [] := by
  refine ⟨?_, .nil, fun e he => absurd he List.not_mem_nil, rfl⟩
  change (0.0 : Float) ≤ 0.0 ∧ (0.0 : Float) ≤ 1.0
  decide

end Transfer

end Headway
