import Headway.Proofs.Transfer.Stalls

namespace Headway.Transfer

section Figures

def blank : Report := ⟨0.0, 0, 0, 0, 0.0, false⟩

def lastEstimate (es : List Emission) : Report :=
  es.foldl (fun r e => if e.report.stalled then r else e.report) blank

structure Figures (s : TransferStatistics) (r : Report) : Prop where
  percent : 100.0 * s.progress = r.percent
  eta : s.eta = r.eta
  speed : s.throughput = r.speed

variable {t : Transfer} {es : List Emission} {op : Operation} {r : Report}

theorem lastEstimate_append_singleton (es : List Emission) (e : Emission) :
    lastEstimate (es ++ [e]) = if e.report.stalled then lastEstimate es else e.report := by
  simp [lastEstimate]

theorem Figures.report_eq (h : Figures t.estimator.statistics r) (stalled : Bool) :
    t.estimator.report t.now stalled = { r with
      total := t.estimator.total
      elapsed := t.estimator.elapsedSeconds t.now
      stalled := stalled } := by
  rw [Estimator.report, Estimator.speed, h.percent, h.eta, h.speed]

theorem Figures.next (h : Figures t.estimator.statistics (lastEstimate es))
    (hf : t.faults [op] = []) :
    Figures (t.next op).estimator.statistics (lastEstimate (es ++ t.emitted op)) := by
  cases ha : t.asked op with
  | none =>
    obtain ⟨-, hs, -, -, he⟩ := step_of_not_asked ha
    rw [Transfer.next, hs, he, List.append_nil]
    exact h
  | some live =>
    obtain ⟨e, r, ht, hs, -, he⟩ := ticks_of_asked ha hf
    rw [Transfer.next, hs, he]
    cases ht with
    | unanswered => exact (List.append_nil es).symm ▸ h
    | skipped => exact (List.append_nil es).symm ▸ h
    | stalled =>
      rw [Option.toList_some, List.map_singleton, lastEstimate_append_singleton]
      exact h
    | completed =>
      rw [Option.toList_some, List.map_singleton, lastEstimate_append_singleton]
      exact ⟨rfl, rfl, rfl⟩

end Figures

section Visits

variable {t : Transfer} {op : Operation} {totals : LiveTotals}

def Overdue (b : Transfer) (ops : List Operation) (op : Operation) : Prop :=
  ∃ a, b.stallTimer? (ops ++ [op]) = some a ∧
    max b.estimator.options.stallFloor.nanos (2 * b.estimator.options.interval.nanos) <
      stamp b.now (b.after ops).now - stamp b.now a

theorem visit_eq_nil_iff (ha : t.asked op = some totals) :
    t.visit op = [] ↔ t.estimator.visit? t.now totals = none := by
  rw [visit_of_asked ha, Option.toList_eq_nil_iff]

theorem emitted_eq_nil_iff (ha : t.asked op = some totals) (hf : t.faults [op] = []) :
    t.emitted op = [] ↔ t.estimator.visit? t.now totals = none ∨
      (¬ ∃ e ∈ t.emitted op, e.report.stalled = true) ∧
        (totals.changed = 0 ∨ t.estimator.evidence.map Evidence.total = some 0) := by
  obtain ⟨e, r, ht, -, -, he⟩ := ticks_of_asked ha hf
  rw [he]
  cases ht with
  | unanswered hv => simp [hv]
  | stalled v hv => simp [hv, Estimator.report]
  | skipped v hv hs hc =>
    obtain ⟨-, hev, -, hlive, -⟩ := Estimator.visit?_eq_some hv
    have h := (Visit.not_completes_iff hs).mp hc
    rw [hlive] at h
    simp [hev, h]
  | completed v hv hc =>
    obtain ⟨-, hev, -, hlive, -⟩ := Estimator.visit?_eq_some hv
    have h := mt (Visit.not_completes_iff hc.1).mpr (not_not_intro hc)
    rw [hlive] at h
    simp [hv, hev, h, Estimator.report]

theorem snapshot_next (hf : t.faults [op] = [])
    (h : ∀ e ∈ t.emitted op, e.report.stalled = true) (ha : t.asked op = some totals) :
    (t.next op).estimator.snapshot = t.estimator.snapshot := by
  obtain ⟨e, r, ht, hs, -, he⟩ := ticks_of_asked ha hf
  rw [next, hs]
  rw [he] at h
  cases ht with
  | unanswered => rfl
  | stalled => rfl
  | skipped => rfl
  | completed => cases h _ List.mem_cons_self

theorem step_of_no_visit (ha : t.asked op = some totals)
    (h : t.estimator.options.enabled = false ∨ t.estimator.evidence = none) :
    t.step op = (t, .ticked (.ok none)) := by
  rw [step_of_asked ha, Estimator.tick_of_visit?_none (Estimator.visit?_eq_none_iff.mpr h)]

theorem stalled_report (ha : t.asked op = some totals) (hf : t.faults [op] = [])
    {r : Report} (h : Figures t.estimator.statistics r) {e : Emission} (he : e ∈ t.emitted op)
    (hs : e.report.stalled = true) :
    e.report = { r with
      total := t.estimator.total
      elapsed := (t.next op).estimator.elapsedSeconds t.now
      stalled := true } := by
  obtain ⟨e', answer, ht, hnext, -, hr⟩ := ticks_of_asked ha hf
  rw [hr] at he
  rw [next, hnext]
  cases ht with
  | unanswered => cases he
  | skipped => cases he
  | stalled =>
    obtain rfl := List.mem_singleton.mp he
    exact @Figures.report_eq { t with estimator := t.estimator.visit t.now } r h true
  | completed =>
    obtain rfl := List.mem_singleton.mp he
    cases hs

end Visits

section Journal

structure Entry where
  operation : Operation
  outcome : Outcome
  after : Transfer

def journal : Transfer → List Operation → List Entry :=
  trace next fun t op => [⟨op, (t.step op).2, t.next op⟩]

def isTick : Operation → Bool
  | .tick _ | .tickLive => true
  | _ => false

def isEvidence : Operation → Bool
  | .hear (.evidence _) => true
  | _ => false

variable {α : Type} (f : α → Operation)

def withoutTicks (xs : List α) : List α := xs.filter fun x => !isTick (f x)

def withoutEarlyTicks (xs : List α) : List α :=
  withoutTicks f (xs.takeWhile fun x => !isEvidence (f x)) ++
    xs.dropWhile fun x => !isEvidence (f x)

theorem withoutTicks_cons (x : α) (xs : List α) :
    withoutTicks f (x :: xs) = (if isTick (f x) then [] else [x]) ++ withoutTicks f xs := by
  by_cases h : isTick (f x) <;> simp [withoutTicks, h]

theorem withoutEarlyTicks_cons (x : α) (xs : List α) :
    withoutEarlyTicks f (x :: xs) =
      if isEvidence (f x) then x :: xs
      else (if isTick (f x) then [] else [x]) ++ withoutEarlyTicks f xs := by
  by_cases h : isEvidence (f x)
  · simp [withoutEarlyTicks, withoutTicks, h]
  · simp [withoutEarlyTicks, withoutTicks_cons, h]

variable {t : Transfer} {op : Operation} {ops : List Operation}

theorem asked_of_isTick (h : isTick op) : ∃ totals, t.asked op = some totals := by
  cases op with
  | tick totals => exact ⟨totals, rfl⟩
  | tickLive => exact ⟨t.live, rfl⟩
  | advance => cases h
  | rewind => cases h
  | hear => cases h

theorem asked_of_not_isTick (h : ¬ isTick op) : t.asked op = none := by
  cases op with
  | tick => exact absurd rfl h
  | tickLive => exact absurd rfl h
  | advance => rfl
  | rewind => rfl
  | hear => rfl

theorem evidence_next (ht : ¬ isTick op) (he : ¬ isEvidence op) :
    (t.next op).estimator.evidence = t.estimator.evidence := by
  cases op with
  | tick => exact absurd rfl ht
  | tickLive => exact absurd rfl ht
  | advance => rfl
  | rewind => rfl
  | hear news =>
    cases news with
    | bytes => rfl
    | live => rfl
    | evidence => exact absurd rfl he

theorem next_of_no_visit (h : t.estimator.options.enabled = false ∨ t.estimator.evidence = none)
    (ht : isTick op) : t.next op = t := by
  obtain ⟨totals, ha⟩ := asked_of_isTick ht
  rw [next, step_of_no_visit ha h]

theorem journal_cons (t : Transfer) (op : Operation) (ops : List Operation) :
    t.journal (op :: ops) = ⟨op, (t.step op).2, t.next op⟩ :: (t.next op).journal ops := rfl

theorem journal_withoutTicks (h : t.estimator.options.enabled = false) :
    t.journal (withoutTicks id ops) = withoutTicks Entry.operation (t.journal ops) := by
  induction ops generalizing t with
  | nil => rfl
  | cons op ops ih =>
    rw [journal_cons, withoutTicks_cons, withoutTicks_cons, id_eq]
    by_cases ht : isTick op
    · rw [if_pos ht, if_pos ht, next_of_no_visit (.inl h) ht]
      exact ih h
    · have hn : (t.next op).estimator.options.enabled = false := by
        rw [next, (step_of_not_asked (asked_of_not_isTick ht)).1, h]
      rw [if_neg ht, if_neg ht, List.singleton_append, List.singleton_append, journal_cons, ih hn]

theorem journal_withoutEarlyTicks (h : t.estimator.evidence = none) :
    t.journal (withoutEarlyTicks id ops) = withoutEarlyTicks Entry.operation (t.journal ops) := by
  induction ops generalizing t with
  | nil => rfl
  | cons op ops ih =>
    rw [journal_cons, withoutEarlyTicks_cons, withoutEarlyTicks_cons, id_eq]
    by_cases he : isEvidence op
    -- From here on nothing is left out.
    · rw [if_pos he, if_pos he, journal_cons]
    · rw [if_neg he, if_neg he]
      by_cases ht : isTick op
      · rw [if_pos ht, if_pos ht, next_of_no_visit (.inr h) ht]
        exact ih h
      · have hn : (t.next op).estimator.evidence = none := by
          rw [evidence_next ht he, h]
        rw [if_neg ht, if_neg ht, List.singleton_append, List.singleton_append, journal_cons, ih hn]

end Journal

section Beginning

variable (options : EstimatorOptions) (now : Instant) (live : LiveTotals)

theorem figures_after {ops : List Operation}
    (hf : (beginning options now live).faults ops = []) :
    Figures ((beginning options now live).after ops).estimator.statistics
      (lastEstimate ((beginning options now live).emissions ops)) := by
  induction ops using List.reverseRecOn with
  | nil =>
    refine ⟨?_, rfl, rfl⟩
    change (100.0 : Float) * 0.0 = 0.0
    decide
  | append_singleton ops op ih =>
    rw [faults_append_eq_nil] at hf
    rw [after_append, emissions_append, emissions, trace_singleton]
    exact (ih hf.1).next hf.2

theorem stalled_iff_overdue {ops : List Operation} {op : Operation}
    (hv : ((beginning options now live).after ops).visit op ≠ [])
    (hf : ((beginning options now live).after ops).faults [op] = []) :
    (∃ e ∈ ((beginning options now live).after ops).emitted op, e.report.stalled = true) ↔
      (beginning options now live).Overdue ops op := by
  obtain ⟨a, ha, hiff⟩ := (remembers_after options now live ops).stalled_iff hv hf
  rw [← stallTimer?_append_singleton] at ha
  rw [hiff]
  constructor
  · exact fun h => ⟨a, ha, h⟩
  · rintro ⟨a', ha', h⟩
    obtain rfl := Option.some.inj (ha.symm.trans ha')
    exact h

theorem frozen_without_sample (ops : List Operation) (op : Operation) (totals : LiveTotals) :
    let b := beginning options now live
    let t := b.after ops
    (b.faults (ops ++ [op]) = [] → t.asked op = some totals →
      (t.emitted op = [] ↔ options.enabled = false ∨ t.estimator.evidence = none ∨
        ¬ b.Overdue ops op ∧
          (totals.changed = 0 ∨ t.estimator.evidence.map Evidence.total = some 0)) ∧
      ((∀ e ∈ t.emitted op, e.report.stalled = true) →
        (t.next op).estimator.snapshot = t.estimator.snapshot) ∧
      ∀ e ∈ t.emitted op, e.report.stalled = true →
        e.report = { lastEstimate (b.emissions ops) with
          total := t.estimator.total
          elapsed := (t.next op).estimator.elapsedSeconds t.now
          stalled := true }) ∧
      (t.asked op = some totals → options.enabled = false ∨ t.estimator.evidence = none →
        t.step op = (t, .ticked (.ok none))) ∧
      b.journal (withoutEarlyTicks id ops) = withoutEarlyTicks Entry.operation (b.journal ops) ∧
      (options.enabled = false →
        b.journal (withoutTicks id ops) = withoutTicks Entry.operation (b.journal ops)) := by
  intro b t
  have ho : t.estimator.options = options := (remembers_after options now live ops).options
  refine ⟨?_, ?_, journal_withoutEarlyTicks rfl, fun h => journal_withoutTicks h⟩
  · intro hf ha
    rw [faults_append_eq_nil] at hf
    refine ⟨?_, fun h => snapshot_next hf.2 h ha, ?_⟩
    · rw [← or_assoc, ← ho, ← @Estimator.visit?_eq_none_iff _ t.now totals]
      by_cases hv : t.visit op = []
      · have hn := (visit_eq_nil_iff ha).mp hv
        -- No visit is no stall either, so the timer need not have been started.
        exact iff_of_true ((emitted_eq_nil_iff ha hf.2).mpr (.inl hn)) (.inl hn)
      · rw [emitted_eq_nil_iff ha hf.2, stalled_iff_overdue options now live hv hf.2]
    · exact fun e => stalled_report ha hf.2 (figures_after options now live hf.1)
  · intro ha h
    exact step_of_no_visit ha (ho ▸ h)

def paused : List Operation :=
  [.tick ⟨7, 7⟩, .hear (.evidence ⟨0, 1000⟩), .hear (.bytes 100), .tick ⟨200, 400⟩,
    .advance (.ofSeconds 1), .hear (.bytes 300), .tick ⟨300, 500⟩, .tick ⟨300, 0⟩,
    .advance (.ofSeconds 7), .tick ⟨400, 600⟩]

def unreporting : EstimatorOptions := { EstimatorOptions.standard with enabled := false }

theorem frozen_without_sample_paused :
    (beginning .standard ⟨0⟩ .zero).faults (paused ++ [.tick ⟨500, 0⟩]) = [] ∧
      lastEstimate ((beginning .standard ⟨0⟩ .zero).emissions paused) =
        ⟨35.625, 1, 300, 1, 60.0, false⟩ ∧
      (((beginning .standard ⟨0⟩ .zero).after paused).emitted (.tick ⟨500, 0⟩)).map
        (fun e => e.report) = [⟨35.625, 1, 300, 8, 60.0, true⟩] ∧
      (((beginning .standard ⟨0⟩ .zero).after paused).next (.tick ⟨500, 0⟩)).estimator.snapshot =
        ((beginning .standard ⟨0⟩ .zero).after paused).estimator.snapshot ∧
      (∀ e ∈ ((beginning .standard ⟨0⟩ .zero).after paused).emitted (.tick ⟨500, 0⟩),
        e.report.stalled = true →
        e.report = { lastEstimate ((beginning .standard ⟨0⟩ .zero).emissions paused) with
          total := ((beginning .standard ⟨0⟩ .zero).after paused).estimator.total
          elapsed := (((beginning .standard ⟨0⟩ .zero).after paused).next
            (.tick ⟨500, 0⟩)).estimator.elapsedSeconds
              ((beginning .standard ⟨0⟩ .zero).after paused).now
          stalled := true }) ∧
      (beginning .standard ⟨0⟩ .zero).step (.tick ⟨7, 7⟩) =
        (beginning .standard ⟨0⟩ .zero, .ticked (.ok none)) ∧
      (beginning unreporting ⟨0⟩ .zero).journal (withoutTicks id paused) =
        withoutTicks Entry.operation ((beginning unreporting ⟨0⟩ .zero).journal paused) := by
  have hf : (beginning .standard ⟨0⟩ .zero).faults (paused ++ [.tick ⟨500, 0⟩]) = [] := by
    decide +kernel
  have hstalled : ∀ e ∈ ((beginning .standard ⟨0⟩ .zero).after paused).emitted (.tick ⟨500, 0⟩),
      e.report.stalled = true := by decide +kernel
  obtain ⟨-, hsnapshot, hreport⟩ :=
    (frozen_without_sample .standard ⟨0⟩ .zero paused (.tick ⟨500, 0⟩) ⟨500, 0⟩).1 hf rfl
  refine ⟨hf, by decide +kernel, by decide +kernel, hsnapshot hstalled, hreport, ?_, ?_⟩
  · exact (frozen_without_sample .standard ⟨0⟩ .zero [] (.tick ⟨7, 7⟩) ⟨7, 7⟩).2.1 rfl (.inr rfl)
  · exact (frozen_without_sample unreporting ⟨0⟩ .zero paused .tickLive .zero).2.2.2 rfl

end Beginning

end Headway.Transfer
