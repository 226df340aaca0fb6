import Headway.Proofs.Transfer.Replay
import Headway.Proofs.Transfer.Steady

/-!
A stalled or a skipped visit moves the time of the last visit without adding to the sum, so on a
clock that never steps back the sum stays below the time between the first visit and the last.
-/

namespace Headway.Transfer

open Samples

def latest (before : Instant) (vs : List Visit) : Instant := vs.foldl (fun _ v => v.time) before

def span : List Visit → ℤ
  | [] => 0
  | v :: vs => (latest v.time vs).nanos - v.time.nanos

def Ascending : Instant → List Visit → Prop
  | _, [] => True
  | before, v :: vs => before.nanos ≤ v.time.nanos ∧ Ascending v.time vs

section Lists

variable {before : Instant} {v : Visit} {vs : List Visit}

theorem lastVisit_some (before : Instant) (vs : List Visit) :
    lastVisit (some before) vs = some (latest before vs) := by
  induction vs generalizing before with
  | nil => rfl
  | cons v vs ih => exact ih v.time

theorem latest_append_singleton (before : Instant) (vs : List Visit) (v : Visit) :
    latest before (vs ++ [v]) = v.time := by
  simp [latest]

theorem ascending_append_singleton :
    Ascending before (vs ++ [v]) ↔
      Ascending before vs ∧ (latest before vs).nanos ≤ v.time.nanos := by
  induction vs generalizing before with
  | nil => simp [Ascending, latest]
  | cons w vs ih =>
    simp only [List.cons_append, Ascending, ih, and_assoc]
    rfl

theorem Ascending.le_latest (h : Ascending before vs) :
    before.nanos ≤ (latest before vs).nanos := by
  induction vs generalizing before with
  | nil => exact Int.le_refl _
  | cons v vs ih => exact Int.le_trans h.1 (ih h.2)

theorem nanos_since {t start : Instant} (h : start.nanos ≤ t.nanos)
    (hb : t.nanos - start.nanos < Duration.limit) :
    ((t.since start).nanos : ℤ) = t.nanos - start.nanos := by
  simp only [Instant.since, Duration.clamp]
  omega

theorem elapsedNanos_cons (x : Sample) (xs : List Sample) :
    elapsedNanos (x :: xs) = x.elapsed.nanos + elapsedNanos xs := by
  suffices h : ∀ n, xs.foldl (fun n x => n + x.elapsed.nanos) n = n + elapsedNanos xs by
    rw [elapsedNanos, List.foldl_cons, h, Nat.zero_add]
  induction xs with
  | nil => exact fun n => rfl
  | cons y ys ih =>
    intro n
    rw [elapsedNanos, List.foldl_cons, List.foldl_cons, ih, ih]
    omega

theorem elapsedNanos_samples_cons (h : before.nanos ≤ v.time.nanos)
    (hb : v.time.nanos - before.nanos < Duration.limit) :
    (elapsedNanos (samples (some before) (v :: vs)) : ℤ) =
      (if v.Completes then v.time.nanos - before.nanos else 0) +
        elapsedNanos (samples (some v.time) vs) := by
  rw [samples]
  split
  · have hx : ((v.sample (some before)).elapsed.nanos : ℤ) = v.time.nanos - before.nanos :=
      nanos_since h hb
    rw [List.singleton_append, elapsedNanos_cons, Int.natCast_add, hx]
  · rw [List.nil_append, Int.zero_add]

theorem elapsedNanos_samples_first (v : Visit) (vs : List Visit) :
    elapsedNanos (samples none (v :: vs)) = elapsedNanos (samples (some v.time) vs) := by
  rw [samples]
  split
  · rw [List.singleton_append, elapsedNanos_cons]
    exact Nat.zero_add _
  · rfl

theorem elapsedNanos_le_latest (h : Ascending before vs)
    (hb : (latest before vs).nanos - before.nanos < Duration.limit) :
    (elapsedNanos (samples (some before) vs) : ℤ) ≤ (latest before vs).nanos - before.nanos ∧
      ((∀ v ∈ vs, v.Completes) → (elapsedNanos (samples (some before) vs) : ℤ) =
        (latest before vs).nanos - before.nanos) := by
  induction vs generalizing before with
  | nil => exact ⟨Int.le_of_eq (Int.sub_self _).symm, fun _ => (Int.sub_self _).symm⟩
  | cons v vs ih =>
    obtain ⟨hv, hvs⟩ := h
    have hl := hvs.le_latest
    have hlatest : latest before (v :: vs) = latest v.time vs := rfl
    rw [hlatest] at hb ⊢
    obtain ⟨hle, heq⟩ := ih hvs (by omega)
    rw [elapsedNanos_samples_cons hv (by omega)]
    constructor
    · split
      · omega
      · omega
    · intro hc
      have hrest := heq fun w hw => hc w (List.mem_cons_of_mem v hw)
      rw [if_pos (hc v List.mem_cons_self), hrest]
      omega

theorem length_samples_le (before : Option Instant) (vs : List Visit) :
    (samples before vs).length ≤ vs.length := by
  induction vs generalizing before with
  | nil => exact Nat.le_refl _
  | cons v vs ih =>
    have hrest := ih (some v.time)
    rw [samples, List.length_append, List.length_cons]
    split
    · simp only [List.length_singleton]
      omega
    · simp only [List.length_nil]
      omega

end Lists

section Runs

variable {t : Transfer} {op : Operation} {ops : List Operation}

theorem visit_cases (t : Transfer) (op : Operation) :
    t.visit op = [] ∨
      ∃ v, t.visit op = [v] ∧ v.time = t.now ∧ (t.asked op).isSome = true := by
  cases ha : t.asked op with
  | none => exact .inl (step_of_not_asked ha).2.2.2.1
  | some live =>
    rw [visit_of_asked ha]
    cases hv : t.estimator.visit? t.now live with
    | none => exact .inl rfl
    | some v => exact .inr ⟨v, rfl, (Estimator.visit?_eq_some hv).2.2.1, rfl⟩

theorem visits_append_singleton (t : Transfer) (ops : List Operation) (op : Operation) :
    t.visits (ops ++ [op]) = t.visits ops ++ (t.after ops).visit op := by
  rw [visits_append]
  exact congrArg _ (trace_singleton _ _ _ _)

theorem tickTimes_append_singleton (t : Transfer) (ops : List Operation) (op : Operation) :
    t.tickTimes (ops ++ [op]) =
      t.tickTimes ops ++ if ((t.after ops).asked op).isSome then [(t.after ops).now] else [] := by
  rw [tickTimes_append]
  exact congrArg _ (trace_singleton _ _ _ _)

theorem length_visits_le (t : Transfer) (ops : List Operation) :
    (t.visits ops).length ≤ (t.tickTimes ops).length := by
  induction ops using List.reverseRecOn with
  | nil => exact Nat.le_refl _
  | append_singleton ops op ih =>
    rw [visits_append_singleton, tickTimes_append_singleton, List.length_append, List.length_append]
    obtain hv | ⟨v, hv, -, ha⟩ := visit_cases (t.after ops) op
    · rw [hv, List.length_nil]
      omega
    · rw [hv, if_pos ha]
      exact Nat.add_le_add_right ih 1

theorem ascending_visits (ho : ∀ op ∈ ops, Forward op) :
    Ascending t.now (t.visits ops) ∧
      (latest t.now (t.visits ops)).nanos ≤ (t.after ops).now.nanos := by
  induction ops using List.reverseRecOn with
  | nil => exact ⟨trivial, Int.le_refl _⟩
  | append_singleton ops op ih =>
    obtain ⟨hasc, hnow⟩ := ih fun op' h => ho op' (List.mem_append_left _ h)
    have hop : ((t.after ops).now).nanos ≤ ((t.after ops).next op).now.nanos :=
      Forward.now_le_next (ho op (List.mem_append_right _ List.mem_cons_self))
    rw [visits_append_singleton, after_append]
    obtain hv | ⟨v, hv, htime, -⟩ := visit_cases (t.after ops) op
    · rw [hv, List.append_nil]
      exact ⟨hasc, Int.le_trans hnow hop⟩
    · rw [hv, ascending_append_singleton, latest_append_singleton, htime]
      exact ⟨⟨hasc, hnow⟩, hop⟩

theorem Recorded.accumulated_le_span {vs : List Visit} {created : Instant} (h : Recorded t vs)
    (ha : Ascending created vs) (hb : (latest created vs).nanos < created.nanos + Duration.limit) :
    (t.estimator.statistics.accumulated.nanos : ℤ) ≤ span vs ∧
      ((∀ v ∈ vs.tail, v.Completes) →
        (t.estimator.statistics.accumulated.nanos : ℤ) = span vs) := by
  rw [h.replay.accumulated]
  cases vs with
  | nil => exact ⟨Int.le_refl _, fun _ => rfl⟩
  | cons v vs =>
    obtain ⟨hv, hvs⟩ := ha
    have hrange : (latest v.time vs).nanos - v.time.nanos < Duration.limit := by
      change (latest v.time vs).nanos < _ at hb
      omega
    rw [elapsedNanos_samples_first]
    exact elapsedNanos_le_latest hvs hrange

theorem Recorded.add?_ne_none {vs : List Visit} {created : Instant} (h : Recorded t vs)
    (ha : Ascending created vs) (hl : (latest created vs).nanos ≤ t.now.nanos)
    (hb : t.now.nanos < created.nanos + Duration.limit) :
    t.estimator.statistics.accumulated.add? (t.estimator.time.elapsed t.now) ≠ none := by
  have hsum := (h.accumulated_le_span ha (Int.lt_of_le_of_lt hl hb)).1
  rw [Duration.add?, Ne, Duration.ofNanos?_eq_none_iff]
  cases vs with
  | nil =>
    change (_ : ℤ) ≤ 0 at hsum
    have hnone : t.estimator.time.last = none := h.last
    simp only [Timeline.elapsed, hnone, Duration.zero, Duration.limit]
    omega
  | cons v vs =>
    have hfirst : created.nanos ≤ v.time.nanos := ha.1
    have hlast : v.time.nanos ≤ (latest v.time vs).nanos := ha.2.le_latest
    have hsome : t.estimator.time.last = some (latest v.time vs) :=
      h.last.trans (lastVisit_some _ _)
    change _ ≤ (latest v.time vs).nanos - v.time.nanos at hsum
    change (latest v.time vs).nanos ≤ _ at hl
    have helapsed := nanos_since hl (by omega)
    simp only [Timeline.elapsed, hsome]
    omega

end Runs

section Beginning

variable (c : Config) (now : Instant) (live : LiveTotals) {ops : List Operation}

theorem stallThreshold_after (hf : (beginning (.ofConfig c) now live).faults ops = []) :
    ((beginning (.ofConfig c) now live).after ops).estimator.options.stallThreshold =
      .ok c.stallThreshold := by
  rw [options_after hf]
  exact stallThreshold_ofConfig c

theorem ascending_beginning (options : EstimatorOptions) (ho : ∀ op ∈ ops, Forward op) :
    Ascending now ((beginning options now live).visits ops) ∧
      (latest now ((beginning options now live).visits ops)).nanos ≤
        ((beginning options now live).after ops).now.nanos :=
  @ascending_visits (beginning options now live) ops ho

theorem faults_eq_nil (ho : ∀ op ∈ ops, Forward op)
    (hn : ((beginning (.ofConfig c) now live).tickTimes ops).length ≤ Count.largest)
    (hb : ((beginning (.ofConfig c) now live).after ops).now.nanos <
      now.nanos + Duration.limit) :
    (beginning (.ofConfig c) now live).faults ops = [] := by
  induction ops using List.reverseRecOn with
  | nil => rfl
  | append_singleton ops op ih =>
    have hops : ∀ op ∈ ops, Forward op := fun op' h => ho op' (List.mem_append_left _ h)
    have hop : Forward op := ho op (List.mem_append_right _ List.mem_cons_self)
    rw [tickTimes_append_singleton, List.length_append] at hn
    rw [after_append] at hb
    have hnow := Int.lt_of_le_of_lt hop.now_le_next hb
    have hf := ih hops (by omega) hnow
    apply faults_append_eq_nil.mpr
    refine ⟨hf, ?_⟩
    cases ha : ((beginning (.ofConfig c) now live).after ops).asked op with
    | none => exact faults_of_not_asked ha
    | some l =>
      have hrec := recorded_after (.ofConfig c) now live hf
      obtain ⟨hasc, hlast⟩ := ascending_beginning now live (.ofConfig c) hops
      have hsamples := hrec.replay.samples
      have hlength := length_samples_le none ((beginning (.ofConfig c) now live).visits ops)
      have hvisits := length_visits_le (beginning (.ofConfig c) now live) ops
      rw [ha, Option.isSome_some, if_pos rfl, List.length_singleton] at hn
      obtain ⟨e, r, hr⟩ := Estimator.exists_tick (stallThreshold_after c now live hf) (by omega)
        (hrec.add?_ne_none hasc hlast hnow) l
      rw [faults, trace_singleton, step_of_asked ha, hr]
      rfl

theorem never_faults (ops : List Operation) (ho : ∀ op ∈ ops, Forward op)
    (hn : ((beginning (.ofConfig c) now live).tickTimes ops).length < 2 ^ 64)
    (hb : ((beginning (.ofConfig c) now live).after ops).now.nanos - now.nanos <
      Duration.limit) :
    let b := beginning (.ofConfig c) now live
    let s := (b.after ops).estimator.statistics
    b.faults ops = [] ∧
      (b.after ops).estimator.options.stallThreshold = .ok c.stallThreshold ∧
      s.accumulated.nanos ≤ span (b.visits ops) ∧
      ((∀ v ∈ (b.visits ops).tail, v.Completes) → s.accumulated.nanos = span (b.visits ops)) ∧
      s.samples ≤ (b.tickTimes ops).length ∧ s.change.samples ≤ s.samples ∧
      s.compress.samples ≤ s.samples := by
  intro b s
  have hlimit : (b.after ops).now.nanos < now.nanos + Duration.limit := by
    change (b.after ops).now.nanos - _ < _ at hb
    omega
  have hf : b.faults ops = [] := faults_eq_nil c now live ho (Nat.le_of_lt_succ hn) hlimit
  have hrec : Recorded (b.after ops) (b.visits ops) := recorded_after (.ofConfig c) now live hf
  obtain ⟨hasc, hlast⟩ := ascending_beginning now live (.ofConfig c) ho
  obtain ⟨hsum, hall⟩ := hrec.accumulated_le_span hasc (Int.lt_of_le_of_lt hlast hlimit)
  have hsamples : s.samples = (samples none (b.visits ops)).length := hrec.replay.samples
  refine ⟨hf, stallThreshold_after c now live hf, hsum, hall, ?_, ?_, ?_⟩
  · have hlength := length_samples_le none (b.visits ops)
    have hvisits := length_visits_le b ops
    omega
  · rw [hsamples, hrec.replay.change, changes, Statistics.RunningRatio.samples_ofList,
      List.length_map]
  · rw [hsamples, hrec.replay.compress, compressions, Statistics.RunningRatio.samples_ofList,
      List.length_map]
    exact List.length_filter_le _ _

def restless : Config := ⟨true, 0, true, .text, 0, 0⟩

def brisk : List Operation :=
  [.hear (.evidence ⟨600, 400⟩), .advance (.ofSeconds 2), .tick ⟨0, 0⟩, .advance (.ofSeconds 1),
    .hear (.bytes 30), .tick ⟨40, 100⟩, .rewind .zero, .advance (.ofSeconds 2), .hear (.bytes 90),
    .tickLive]

theorem never_faults_brisk :
    (∀ op ∈ brisk, Forward op) ∧
      ((beginning (.ofConfig restless) ⟨7⟩ ⟨80, 200⟩).tickTimes brisk).length < 2 ^ 64 ∧
      ((beginning (.ofConfig restless) ⟨7⟩ ⟨80, 200⟩).after brisk).now.nanos - Instant.nanos ⟨7⟩ <
        Duration.limit ∧
      (∀ v ∈ ((beginning (.ofConfig restless) ⟨7⟩ ⟨80, 200⟩).visits brisk).tail, v.Completes) ∧
      (beginning (.ofConfig restless) ⟨7⟩ ⟨80, 200⟩).faults brisk = [] ∧
      ((beginning (.ofConfig restless) ⟨7⟩ ⟨80, 200⟩).after
          brisk).estimator.statistics.accumulated.nanos =
        span ((beginning (.ofConfig restless) ⟨7⟩ ⟨80, 200⟩).visits brisk) := by
  have ho : ∀ op ∈ brisk, Forward op := by decide
  have hn : ((beginning (.ofConfig restless) ⟨7⟩ ⟨80, 200⟩).tickTimes brisk).length < 2 ^ 64 := by
    decide +kernel
  have hb : ((beginning (.ofConfig restless) ⟨7⟩ ⟨80, 200⟩).after brisk).now.nanos -
      Instant.nanos ⟨7⟩ < Duration.limit := by decide +kernel
  have hc : ∀ v ∈ ((beginning (.ofConfig restless) ⟨7⟩ ⟨80, 200⟩).visits brisk).tail,
      v.Completes := by decide +kernel
  obtain ⟨hf, -, -, hall, -⟩ := never_faults restless ⟨7⟩ ⟨80, 200⟩ brisk ho hn hb
  exact ⟨ho, hn, hb, hc, hf, hall hc⟩

-- A stall leaves the second before it out of the sum.
example : ((beginning (.ofConfig restless) ⟨0⟩ ⟨80, 200⟩).after
      (brisk ++ [.advance (.ofSeconds 1), .tickLive, .advance (.ofSeconds 3), .hear (.bytes 95),
        .tickLive])).estimator.statistics.accumulated = .ofSeconds 6 := by
  decide +kernel

end Beginning

end Headway.Transfer
