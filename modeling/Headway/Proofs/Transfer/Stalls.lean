import Headway.Proofs.Transfer.Run

namespace Headway.Transfer

structure Write where
  time : Instant
  count : UInt64
  deriving DecidableEq

def write (t : Transfer) : Operation → List Write
  | .hear (.bytes n) => [⟨t.now, n⟩]
  | _ => []

def writes : Transfer → List Operation → List Write := trace next write

def lastCount (before : UInt64) (ws : List Write) : UInt64 := ws.foldl (fun _ w => w.count) before

def forward? : UInt64 → List Write → Option Instant
  | _, [] => none
  | before, w :: ws => (forward? w.count ws).or (if before < w.count then some w.time else none)

def timer? (ws : List Write) (vs : List Visit) : Option Instant :=
  (forward? 0 ws).or (vs.head?.map Visit.time)

def stamp (created t : Instant) : ℕ := min (t.nanos - created.nanos).toNat Timeline.latestStamp

/-- The word in which a timeline can keep its activity; the largest word is none. -/
def activityWord (t : Timeline) : UInt64 := (t.activity.getD Count.largest).toUInt64

section Lists

variable (before : UInt64) (ws : List Write) (w : Write) (vs us : List Visit)

theorem lastCount_append_singleton : lastCount before (ws ++ [w]) = w.count := by
  simp [lastCount]

theorem forward?_append_singleton :
    forward? before (ws ++ [w]) =
      if lastCount before ws < w.count then some w.time else forward? before ws := by
  induction ws generalizing before with
  | nil => exact Option.none_or
  | cons y ws ih =>
    rw [List.cons_append, forward?, ih, forward?]
    change (if lastCount y.count ws < w.count then _ else _ : Option Instant).or _ =
      if lastCount y.count ws < w.count then _ else _
    split
    · rfl
    · rfl

theorem timer?_write :
    timer? (ws ++ [w]) vs = if lastCount 0 ws < w.count then some w.time else timer? ws vs := by
  rw [timer?, forward?_append_singleton]
  split
  · rfl
  · rfl

theorem timer?_visit : timer? ws (vs ++ us) = (timer? ws vs).or (us.head?.map Visit.time) := by
  rw [timer?, timer?, Option.or_assoc, List.head?_append]
  cases vs.head? with
  | none => rfl
  | some v => rfl

end Lists

structure Remembers (options : EstimatorOptions) (created : Instant) (t : Transfer)
    (ws : List Write) (vs : List Visit) : Prop where
  options : t.estimator.options = options
  origin : t.estimator.time.origin = created
  current : t.estimator.bytes.current = lastCount 0 ws
  activity : t.estimator.time.activity = (timer? ws vs).map (stamp created)

variable {options : EstimatorOptions} {created : Instant} {t u : Transfer} {ws : List Write}
  {vs : List Visit} {op : Operation} {live : LiveTotals}

theorem stamp_lt_largest (created t : Instant) : stamp created t < Count.largest := by
  simp only [stamp, Timeline.latestStamp, Count.largest]
  omega

theorem nanos_stallThreshold {threshold : Duration} (h : options.stallThreshold = .ok threshold) :
    threshold.nanos = max options.stallFloor.nanos (2 * options.interval.nanos) := by
  rw [EstimatorOptions.stallThreshold] at h
  split at h
  next twice ht =>
    cases h
    rw [Duration.nanos_longer, Duration.nanos_ofNanos? ht]
  next => cases h

theorem write_of_asked (h : t.asked op = some live) : t.write op = [] := by
  cases op with
  | tick => rfl
  | tickLive => rfl
  | advance => cases h
  | rewind => cases h
  | hear => cases h

theorem threshold_of_asked {v : Visit} (ha : t.asked op = some live)
    (hv : t.estimator.visit? t.now live = some v) (hf : t.faults [op] = []) :
    ∃ threshold, t.estimator.options.stallThreshold = .ok threshold := by
  cases ht : t.estimator.options.stallThreshold with
  | ok threshold => exact ⟨threshold, rfl⟩
  | error f =>
    rw [faults, trace_singleton, step_of_asked ha, Estimator.tick_of_no_threshold hv ht] at hf
    cases hf

namespace Remembers

variable (h : Remembers options created t ws vs)
include h

theorem stamp_eq : t.estimator.time.stamp t.now = stamp created t.now := by
  rw [Timeline.stamp, h.origin, stamp]

theorem of_eq (ho : u.estimator.options = t.estimator.options)
    (ht : u.estimator.time = t.estimator.time) (hb : u.estimator.bytes = t.estimator.bytes) :
    Remembers options created u ws vs := by
  refine ⟨ho.trans h.options, ?_, ?_, ?_⟩
  · rw [ht]
    exact h.origin
  · rw [hb]
    exact h.current
  · rw [ht]
    exact h.activity

theorem still (ho : u.estimator.options = t.estimator.options)
    (ht : u.estimator.time = t.estimator.time) (hb : u.estimator.bytes = t.estimator.bytes) :
    Remembers options created u (ws ++ []) (vs ++ []) := by
  rw [List.append_nil, List.append_nil]
  exact h.of_eq ho ht hb

theorem bytes (n : UInt64) :
    Remembers options created (t.hear (.bytes n)).1 (ws ++ [⟨t.now, n⟩]) vs := by
  have hstamp := h.stamp_eq
  refine ⟨h.options, ?_, ?_, ?_⟩
  · rw [← h.origin]
    simp only [hear, Estimator.record]
    split
    · rfl
    · rfl
  · rw [lastCount_append_singleton]
    rfl
  · rw [timer?_write]
    simp only [hear, Estimator.record, ← h.current]
    split
    · simp [Timeline.activate, hstamp]
    · exact h.activity

theorem visit {v : Visit} (hv : v.time = t.now) :
    Remembers options created { t with estimator := t.estimator.visit t.now } ws (vs ++ [v]) := by
  have hstamp := h.stamp_eq
  refine ⟨h.options, h.origin, h.current, ?_⟩
  rw [timer?_visit]
  simp only [Estimator.visit, Timeline.visit, h.activity, hstamp, List.head?_cons, Option.map_some,
    hv]
  cases timer? ws vs with
  | none => rfl
  | some a => rfl

theorem asked (ha : t.asked op = some live) :
    Remembers options created (t.next op) ws (vs ++ t.visit op) := by
  have htime := Estimator.time_tick t.estimator t.now live
  obtain ⟨ho, -, hb⟩ := Estimator.tick_frame t.estimator t.now live
  rw [Transfer.next, step_of_asked ha, visit_of_asked ha]
  cases hv : t.estimator.visit? t.now live with
  | none =>
    rw [hv] at htime
    rw [Option.toList_none, List.append_nil]
    exact h.of_eq ho htime hb
  | some v =>
    rw [hv] at htime
    exact (h.visit (Estimator.visit?_eq_some hv).2.2.1).of_eq ho htime hb

theorem next (op : Operation) :
    Remembers options created (t.next op) (ws ++ t.write op) (vs ++ t.visit op) := by
  cases op with
  | tick live => exact (List.append_nil ws).symm ▸ h.asked rfl
  | tickLive => exact (List.append_nil ws).symm ▸ h.asked rfl
  | advance d => exact h.still rfl rfl rfl
  | rewind d => exact h.still rfl rfl rfl
  | hear news =>
    cases news with
    | bytes n => exact (List.append_nil vs).symm ▸ h.bytes n
    | live u => exact h.still rfl rfl rfl
    | evidence w =>
      apply h.still
      all_goals
        simp only [Transfer.next, step, hear]
        split
        next e he =>
          obtain ⟨-, rfl⟩ := setEvidence_eq_ok he
          rfl
        next => rfl

theorem toNat_activityWord :
    (activityWord t.estimator.time).toNat =
      (timer? ws vs).elim Count.largest (stamp created) := by
  rw [activityWord, h.activity]
  cases timer? ws vs with
  | none => rfl
  | some a =>
    have hs := stamp_lt_largest created a
    simp only [Option.map_some, Option.getD_some, Option.elim_some, UInt64.toNat_ofNat']
    exact Nat.mod_eq_of_lt (by simp only [Count.largest] at hs; omega)

theorem idle_eq {a : Instant} (ha : timer? ws vs = some a) :
    t.estimator.time.idle t.now = stamp created t.now - stamp created a := by
  rw [Timeline.idle, h.activity, ha, h.stamp_eq]
  rfl

theorem stalled_iff (hv : t.visit op ≠ []) (hf : t.faults [op] = []) :
    ∃ a, timer? (ws ++ t.write op) (vs ++ t.visit op) = some a ∧
      ((∃ e ∈ t.emitted op, e.report.stalled = true) ↔
        max options.stallFloor.nanos (2 * options.interval.nanos) <
          stamp created t.now - stamp created a) := by
  cases ha : t.asked op with
  | none => exact absurd (step_of_not_asked ha).2.2.2.1 hv
  | some live =>
    obtain ⟨e, r, ht, -, hvisit, hr⟩ := ticks_of_asked ha hf
    cases hw : t.estimator.visit? t.now live with
    | none =>
      rw [hvisit, hw] at hv
      exact absurd rfl hv
    | some v =>
      obtain ⟨threshold, hthreshold⟩ := threshold_of_asked ha hw hf
      obtain ⟨-, -, htime, -, -, hstalled⟩ := Estimator.visit?_eq_some hw
      obtain ⟨a, hstart⟩ : ∃ a, timer? ws (vs ++ [v]) = some a := by
        rw [timer?_visit]
        cases timer? ws vs with
        | none => exact ⟨_, rfl⟩
        | some a => exact ⟨a, rfl⟩
      have hidle := (h.visit htime).idle_eq hstart
      have hstalls : v.stalled = true ↔ threshold.nanos <
          stamp created t.now - stamp created a := by
        rw [hstalled, Estimator.stalls, hthreshold, ← hidle]
        exact decide_eq_true_iff
      refine ⟨a, ?_, ?_⟩
      · rw [write_of_asked ha, hvisit, hw, List.append_nil]
        exact hstart
      · rw [← nanos_stallThreshold (h.options ▸ hthreshold), ← hstalls, ← ht.stalled_iff hw, hr]
        simp

end Remembers

section Beginning

def stallTimer? (t : Transfer) (ops : List Operation) : Option Instant :=
  timer? (t.writes ops) (t.visits ops)

variable (options : EstimatorOptions) (now : Instant) (live : LiveTotals) (ops : List Operation)

theorem remembers_after :
    Remembers options now ((beginning options now live).after ops)
      ((beginning options now live).writes ops) ((beginning options now live).visits ops) := by
  induction ops using List.reverseRecOn with
  | nil => exact ⟨rfl, rfl, rfl, rfl⟩
  | append_singleton ops op ih =>
    rw [after_append, writes, trace_append, visits_append, visits, trace_singleton,
      trace_singleton]
    exact ih.next op

theorem stallTimer?_append_singleton (t : Transfer) (ops : List Operation) (op : Operation) :
    t.stallTimer? (ops ++ [op]) =
      timer? (t.writes ops ++ (t.after ops).write op) (t.visits ops ++ (t.after ops).visit op) := by
  simp only [stallTimer?, writes, visits, trace_append, trace_singleton]
  rfl

theorem stallTimer?_of_some {t : Transfer} {ops : List Operation} {op : Operation}
    (h : t.stallTimer? ops ≠ none) (hop : ∀ n, op ≠ .hear (.bytes n)) :
    t.stallTimer? (ops ++ [op]) = t.stallTimer? ops := by
  obtain ⟨a, ha⟩ := Option.ne_none_iff_exists'.mp h
  have hw : (t.after ops).write op = [] := by
    cases op with
    | hear news =>
      cases news with
      | bytes n => exact absurd rfl (hop n)
      | evidence => rfl
      | live => rfl
    | _ => rfl
  have htimer : timer? (t.writes ops) (t.visits ops) = some a := ha
  rw [stallTimer?_append_singleton, hw, List.append_nil, timer?_visit, htimer, ha, Option.some_or]

theorem stalled_iff_idle (op : Operation) :
    let b := beginning options now live
    let t := b.after ops
    (t.visit op ≠ [] → t.faults [op] = [] →
      ∃ a, b.stallTimer? (ops ++ [op]) = some a ∧
        ((∃ e ∈ t.emitted op, e.report.stalled = true) ↔
          max options.stallFloor.nanos (2 * options.interval.nanos) <
            stamp now t.now - stamp now a)) ∧
      (∀ n, b.stallTimer? (ops ++ [.hear (.bytes n)]) =
        if lastCount 0 (b.writes ops) < n then some t.now else b.stallTimer? ops) ∧
      (b.stallTimer? ops ≠ none → (∀ n, op ≠ .hear (.bytes n)) →
        b.stallTimer? (ops ++ [op]) = b.stallTimer? ops) ∧
      (activityWord t.estimator.time).toNat = (b.stallTimer? ops).elim Count.largest (stamp now) ∧
      ∀ a, stamp now a < Count.largest := by
  intro b t
  have h : Remembers options now t (b.writes ops) (b.visits ops) :=
    remembers_after options now live ops
  refine ⟨?_, ?_, stallTimer?_of_some, h.toNat_activityWord, stamp_lt_largest now⟩
  · intro hv hf
    rw [stallTimer?_append_singleton]
    exact h.stalled_iff hv hf
  · intro n
    rw [stallTimer?_append_singleton]
    exact (congrArg _ (List.append_nil _)).trans (timer?_write _ _ _)

/-- From before the creation: all bytes at once, a new unit of work, a count above it that cannot
add to the total any more, and a second new unit. -/
def rebased : List Operation :=
  [.rewind (.ofSeconds 9), .hear (.evidence ⟨0, 1000⟩), .hear (.bytes 18446744073709551615),
    .tick ⟨1, 1⟩, .hear (.bytes 4), .advance (.ofSeconds 11), .hear (.bytes 7),
    .advance (.ofSeconds 6), .tick ⟨2, 2⟩, .hear (.bytes 3), .advance (.clamp 1)]

theorem stalled_iff_idle_rebased :
    let b := beginning .standard ⟨0⟩ .zero
    let t := b.after rebased
    t.visit (.tick ⟨2, 2⟩) ≠ [] ∧ t.faults [.tick ⟨2, 2⟩] = [] ∧
      b.stallTimer? (rebased ++ [.tick ⟨2, 2⟩]) = some ⟨2000000000⟩ ∧
      (∃ e ∈ t.emitted (.tick ⟨2, 2⟩), e.report.stalled = true) ∧
      b.stallTimer? rebased ≠ none ∧
      b.stallTimer? (rebased ++ [.tick ⟨2, 2⟩]) = b.stallTimer? rebased := by
  intro b t
  have hv : t.visit (.tick ⟨2, 2⟩) ≠ [] := by decide +kernel
  have hf : t.faults [.tick ⟨2, 2⟩] = [] := by decide +kernel
  have ht : b.stallTimer? (rebased ++ [.tick ⟨2, 2⟩]) = some ⟨2000000000⟩ := by decide +kernel
  have hn : b.stallTimer? rebased ≠ none := by decide +kernel
  obtain ⟨hstall, -, hkept, -⟩ :=
    stalled_iff_idle .standard ⟨0⟩ .zero rebased (.tick ⟨2, 2⟩)
  obtain ⟨a, ha, hiff⟩ := hstall hv hf
  obtain rfl := Option.some.inj (ha.symm.trans ht)
  refine ⟨hv, hf, ht, hiff.mpr ?_, hn, hkept hn ?_⟩
  · decide +kernel
  · intro n hop
    cases hop

-- A nanosecond less is no stall.
example : (((beginning .standard ⟨0⟩ .zero).after rebased.dropLast).emitted (.tick ⟨2, 2⟩)).map
    (fun e => e.report.stalled) = [false] := by
  decide +kernel

end Beginning

end Headway.Transfer
