import Headway.Program
import Headway.Proofs.Session.Simulation
import Headway.Proofs.Simulation.Script
import Headway.Proofs.Simulation.Volumes

namespace Headway

namespace Simulation

def Arguments.sleeps (a : Arguments) : ℕ := a.sizes.length + a.pauseSecs.toList.length

namespace State

open Session (InTime calls started stopAsked firstTick? closing?)

variable {c : Config} {a : Arguments} {ss : List State} {u : State}

section Script

theorem action_script {x : Action} (hx : x ∈ script a ss) :
    x = .start ∨ x = .hear (.evidence ⟨a.newBytes, a.changedBytes⟩) ∨ Works x := by
  rcases List.mem_cons.mp hx with rfl | hx
  · exact .inr (.inl rfl)
  · rcases List.mem_cons.mp hx with rfl | hx
    · exact .inl rfl
    · exact .inr (.inr (works_doings a ss x hx))

theorem onward_script (interval : Duration) :
    ∀ op ∈ calls interval ((Session.starting c (.ofConfig c)).history (script a ss)),
      Transfer.Onward op := by
  apply Session.onward_calls
  intro m hm news hn
  rcases action_script (Session.action_history _ _ m hm) with h | h | h
  · rw [hn] at h
    cases h
  · rw [hn] at h
    cases h
    exact .evidence _
  · rw [hn] at h
    cases h with
    | hear h => exact h

theorem dropped_script :
    ((Session.starting c (.ofConfig c)).after (script a ss)).dropped = false := by
  rw [Session.dropped_after, decide_eq_false]
  · rfl
  · intro h
    rcases action_script h with h | h | h
    · cases h
    · cases h
    · cases h

theorem moment_stop {s : Session} (h : s.dropped = false) : s.moment .stop = Session.stopping s := by
  rw [Session.moment, Session.act, h]
  rfl

theorem closing?_script :
    closing? ((Session.starting c (.ofConfig c)).history (script a ss)) = none := by
  rw [Option.eq_none_iff_forall_ne_some]
  intro t ht
  have ha := (Session.of_closing? ht).2
  rw [(flags_script c a ss).2] at ha
  cases ha

end Script

section Plain

def told (c : Config) (a : Arguments) (interval : Duration) (ss : List State) :
    List Transfer.Operation :=
  calls interval ((Session.starting c (.ofConfig c)).history (script a ss))

variable (hc : (c.enabled && !c.dryRun) = true)
  (hb : InTime ((Session.starting c (.ofConfig c)).after (script a ss)).transfer.now)
include hc hb

theorem emissions_script :
    (Session.starting c (.ofConfig c)).emissions (script a ss ++ [.stop]) =
      (Transfer.starting (.ofConfig c)).emissions (told c a (Reporter.ofConfig c).interval ss) ++
        [⟨((Session.starting c (.ofConfig c)).after (script a ss)).transfer.now,
          ((Transfer.starting (.ofConfig c)).after
            (told c a (Reporter.ofConfig c).interval ss)).finalReport⟩] := by
  have hmoment := moment_stop (@dropped_script c a ss)
  have hcloses : Session.closes ((Session.starting c (.ofConfig c)).history (script a ss))
      (((Session.starting c (.ofConfig c)).after (script a ss)).moment .stop) = true := by
    rw [hmoment, Session.closes_stopping, (flags_script c a ss).1, hc]
  have hb' : InTime ((Session.starting c (.ofConfig c)).after
      (script a ss ++ [.stop])).transfer.now := by
    rw [Session.after_append, Session.after_singleton, Session.next_now, hmoment]
    exact hb
  rw [(Session.follows_history c c (script a ss ++ [Action.stop]) hb').stream,
    Session.history_append_singleton, Session.completion_of_closes closing?_script hcloses, hmoment]
  rw [calls, Session.stopping, told]
  simp only [List.append_nil]

theorem tickTimes_script :
    (Transfer.starting (.ofConfig c)).tickTimes (told c a (Reporter.ofConfig c).interval ss) =
      (List.range (if (ss.flatMap (doings a)).any isSleep then
        Session.dueBy ⟨0⟩ (Reporter.ofConfig c).interval
          ((Session.starting c (.ofConfig c)).after (script a ss)).transfer.now else 0)).map
        (Session.due ⟨0⟩ (Reporter.ofConfig c).interval) := by
  rw [told, (Session.follows_history c c (script a ss) hb).times, Session.timetable,
    firstTick?_script hc, closing?_script]
  by_cases h : (ss.flatMap (doings a)).any isSleep = true
  · rw [if_pos h, if_pos h]
    rfl
  · rw [if_neg h, if_neg h]
    rfl

omit hc hb in
theorem told_cons (s : State) :
    ∃ more, told c a (Reporter.ofConfig c).interval (s :: ss) =
      [.hear (.evidence ⟨a.newBytes, a.changedBytes⟩), .hear (.live (.addChanged (s.size a)))] ++
        more := by
  obtain ⟨later, hlater⟩ : ∃ later, script a (s :: ss) =
      [.hear (.evidence ⟨a.newBytes, a.changedBytes⟩), .start,
        .hear (.live (.addChanged (s.size a)))] ++ later := ⟨_, rfl⟩
  rw [told, hlater, Session.history_append]
  exact Session.calls_append _ _ _

omit hb in
theorem answering_told {size : UInt64} (hs : size ≠ 0) (ht : a.total ≠ 0) :
    Transfer.Answering ((Transfer.starting (.ofConfig c)).after
      [.hear (.evidence ⟨a.newBytes, a.changedBytes⟩), .hear (.live (.addChanged size))]) ∧
    Transfer.Steady ((Transfer.starting (.ofConfig c)).after
      [.hear (.evidence ⟨a.newBytes, a.changedBytes⟩), .hear (.live (.addChanged size))]) 0 := by
  have hsteady := (Transfer.steady_starting c).hear (.evidence ⟨a.newBytes, a.changedBytes⟩)
  rw [Bool.and_eq_true] at hc
  refine ⟨⟨hc.1, ⟨_, rfl, ht⟩, ?_⟩, hsteady.hear (.live (.addChanged size))⟩
  exact Count.addSat_ne_zero (.inr hs)

omit hc hb in
theorem now_nonneg : 0 ≤ ((Session.starting c (.ofConfig c)).after (script a ss)).transfer.now.nanos :=
  Session.now_le_after (Session.starting c (.ofConfig c)) (script a ss)

theorem length_tickTimes_script :
    ((Transfer.starting (.ofConfig c)).tickTimes
      (told c a (Reporter.ofConfig c).interval ss)).length ≤ Count.largest := by
  rw [tickTimes_script hc hb, List.length_map, List.length_range]
  split
  · exact Session.dueBy_le (Session.perMilli_le_interval c) (Int.le_refl 0) now_nonneg hb
  · exact Nat.zero_le _

theorem answers_script {s : State} (hs : s.size a ≠ 0) (ht : a.total ≠ 0)
    (hcons : ∃ later, ss = s :: later) :
    ((Transfer.starting (.ofConfig c)).emissions (told c a (Reporter.ofConfig c).interval ss)).map
        Emission.time =
      (Transfer.starting (.ofConfig c)).tickTimes (told c a (Reporter.ofConfig c).interval ss) ∧
    ((Transfer.starting (.ofConfig c)).after
        (told c a (Reporter.ofConfig c).interval ss)).estimator.time.first =
      ((Transfer.starting (.ofConfig c)).tickTimes
        (told c a (Reporter.ofConfig c).interval ss)).head? := by
  obtain ⟨later, rfl⟩ := hcons
  have hnow := (Session.follows_history c c (script a (s :: later)) hb).transfer
  have hlen := length_tickTimes_script hc hb
  have honward := @onward_script c a (s :: later) (Reporter.ofConfig c).interval
  rw [← told] at hnow honward
  obtain ⟨hanswer, hsteady⟩ := answering_told hc hs ht
  obtain ⟨more, hmore⟩ := @told_cons c a later s
  -- Up to the first chunk nothing is asked for; from there on the transfer answers.
  have hnone : (Transfer.starting (.ofConfig c)).tickTimes
      [.hear (.evidence ⟨a.newBytes, a.changedBytes⟩), .hear (.live (.addChanged (s.size a)))] =
      [] := rfl
  have hlimit : ((Transfer.starting (.ofConfig c)).after
      (told c a (Reporter.ofConfig c).interval (s :: later))).now.nanos < Duration.limit := by
    rw [← hnow]
    exact hb.lt_limit
  rw [hmore] at hlen honward hlimit ⊢
  rw [Transfer.tickTimes_append, hnone, List.nil_append] at hlen ⊢
  rw [Transfer.after_append] at hlimit
  rw [Transfer.emissions_append, Transfer.emissions_eq_nil hnone, List.nil_append,
    Transfer.after_append]
  obtain ⟨htimes, hfirst⟩ := hanswer.run hsteady
    (fun op hop => honward op (List.mem_append_right _ hop)) (by omega) hlimit
  exact ⟨htimes, hfirst⟩

end Plain

theorem running_of_first {t : Timeline} {now : Instant} (h : t.first = some ⟨0⟩) (hb : InTime now) :
    (t.running now).toNat = now.nanos.toNat / Duration.perSecond := by
  have hl := hb.lt_limit
  rw [Timeline.running, h]
  simp only [Instant.since, Duration.clamp, Duration.seconds, Int.sub_zero]
  have hmin : min now.nanos.toNat (Duration.limit - 1) = now.nanos.toNat := by omega
  have hlt : now.nanos.toNat / Duration.perSecond < 2 ^ 64 := by
    simp only [Duration.limit, Duration.perSecond] at hl ⊢
    omega
  rw [hmin, Nat.toUInt64_eq, UInt64.toNat_ofNat']
  exact Nat.mod_eq_of_lt hlt

/-- A tick is due at each multiple of the interval before the end.  Where no time passes at all,
the one at the start is due if the transfer gives way, which it does after so many sleeps. -/
def Due (a : Arguments) (interval : Duration) (t : Instant) (k : ℕ) : Prop :=
  (Session.due ⟨0⟩ interval k).nanos < t.nanos ∨
    k = 0 ∧ patience < a.sleeps

def line (c : Config) (e : Emission) : Program.Output := ⟨e.time, e.report.render c.format ++ "\n"⟩

structure Displayed (c : Config) (a : Arguments) (interval : Duration) (due : ℕ → Prop)
    (ss : List State) (u : State) : Prop where
  outcome : Program.showSimulation c a =
    ⟨((Transfer.starting (.ofConfig c)).emissions (told c a interval ss) ++
      [Emission.mk u.session.transfer.now
        ((Transfer.starting (.ofConfig c)).after (told c a interval ss)).finalReport]).map (line c),
      .done⟩
  ticks : ∃ n, (∀ k, k < n ↔ due k) ∧
    (Transfer.starting (.ofConfig c)).tickTimes (told c a interval ss) =
      (List.range n).map (Session.due ⟨0⟩ interval)
  answers : ((Transfer.starting (.ofConfig c)).emissions (told c a interval ss)).map
      Emission.time = (Transfer.starting (.ofConfig c)).tickTimes (told c a interval ss)
  completion : ∃ total elapsed speed,
    ((Transfer.starting (.ofConfig c)).after (told c a interval ss)).finalReport =
        .completed total elapsed speed ∧
      total.toNat = min (a.wires.map UInt64.toNat).sum Count.largest ∧
      elapsed.toNat = u.session.transfer.now.nanos.toNat / Duration.perSecond

section Run

theorem started_session {ss : List State} (hp : Passes a (starting c a).1 ss u) :
    u.session = (Session.starting c (.ofConfig c)).after (script a ss) ∧
      u.stop.shown.toList =
        (Session.starting c (.ofConfig c)).emissions (script a ss ++ [.stop]) := by
  obtain ⟨hsession, hshown, hqueue⟩ := acts_starting c a
  have hu := hp.acts hqueue
  have hs : u.session = (Session.starting c (.ofConfig c)).after (script a ss) := by
    rw [hu.session, hsession]
    exact (Session.after_append _ (opening a) _).symm
  have hstop := acts_stop hu.queue (by rw [hs]; exact dropped_script)
  refine ⟨hs, ?_⟩
  rw [hstop.shown, hu.shown, hshown, hsession, hs, Session.emissions_append]
  rfl

theorem lt_dueBy_iff_of_ne {interval : Duration} {t : Instant} (hi : 0 < interval.nanos)
    (ht : 0 ≤ t.nanos) (hne : ∀ k, 0 < k → t ≠ Session.due ⟨0⟩ interval k) (k : ℕ) :
    k < Session.dueBy ⟨0⟩ interval t ↔ (Session.due ⟨0⟩ interval k).nanos < t.nanos ∨ k = 0 := by
  rw [Session.lt_dueBy_iff hi ht]
  rcases Nat.eq_zero_or_pos k with rfl | hk
  · rw [Session.due_zero]
    exact ⟨fun _ => .inr rfl, fun _ => ht⟩
  · have hk' : (Session.due ⟨0⟩ interval k).nanos ≠ t.nanos := fun h =>
      hne k hk (congrArg Instant.mk h.symm)
    omega

theorem lt_ticks_iff {n : ℕ} {as : List Action} {interval : Duration} (hn : Napped n as u)
    (hi : 0 < interval.nanos)
    (hne : ∀ k, 0 < k → u.session.transfer.now ≠ Session.due ⟨0⟩ interval k) (k : ℕ) :
    k < (if as.any isSleep then Session.dueBy ⟨0⟩ interval u.session.transfer.now else 0) ↔
      (Session.due ⟨0⟩ interval k).nanos < u.session.transfer.now.nanos ∨ k = 0 ∧ patience < n := by
  -- The task has its first turn in the first sleep that is one; without any, no time passes.
  by_cases hany : as.any isSleep = true
  · rw [if_pos hany, lt_dueBy_iff_of_ne hi hn.start hne]
    constructor
    · rintro (h | rfl)
      · exact .inl h
      · rw [Session.due_zero]
        exact (hn.some hany).imp id fun h => ⟨rfl, h⟩
    · rintro (h | ⟨h, -⟩)
      · exact .inl h
      · exact .inr h
  · rw [if_neg hany]
    rw [Bool.not_eq_true] at hany
    obtain ⟨hstreak, hnow⟩ := hn.none hany
    have hpatient := hn.patient
    constructor
    · intro h
      exact absurd h (Nat.not_lt_zero k)
    · rintro (h | ⟨-, h⟩)
      · rw [hnow, Session.nanos_due] at h
        simp only at h
        omega
      · omega

theorem naps_of_run (hp : Passes a (starting c a).1 ss u) (hc : a.chunk ≠ 0) (ht : 0 < a.total)
    (hu : ¬ u.processed < a.total) : Napped a.sleeps (ss.flatMap (doings a)) u := by
  have hstart : Napped (0 + (starting c a).1.paused.toNat) [] (starting c a).1 :=
    ⟨Int.le_refl _, Nat.le_refl _, Nat.zero_le _, fun _ => ⟨rfl, rfl⟩, fun h => by cases h⟩
  have hnaps := hp.naps hstart
  obtain ⟨hsizes, htotal⟩ := hp.sizes_eq hc rfl hu
  have hne : ss ≠ [] := by
    rintro rfl
    cases hp
    exact hu ht
  have hhalf : a.total / 2 ≤ u.processed := by
    rw [htotal, UInt64.le_iff_toNat_le, UInt64.toNat_div]
    exact Nat.div_le_self _ _
  have hsleeps : 0 + ss.length + u.paused.toNat = a.sleeps := by
    rw [hp.paused (fun h => by cases h) hne hhalf, Arguments.sleeps, ← hsizes, List.length_map]
    cases a.pauseSecs with
    | none => rw [Nat.zero_add]; rfl
    | some secs => rw [Nat.zero_add]; rfl
  rw [hsleeps] at hnaps
  exact hnaps

theorem interval_ofConfig (hv : c.validate = .ok ()) :
    (Reporter.ofConfig c).interval = c.interval.slept := by
  have hi : c.intervalSecs.toNat ≠ 0 := by
    intro h
    exact ((Config.validate_eq_ok_iff c).mp hv).1 (UInt32.toNat.inj h)
  have hm : ¬ c.interval.nanos ≤ (Duration.ofMillis 1).nanos := by
    simp only [Config.interval, Duration.ofSeconds, Duration.ofMillis, Duration.perSecond,
      Duration.perMilli, UInt32.toNat_toUInt64, UInt64.toNat_one]
    omega
  rw [Reporter.ofConfig, Duration.longer, if_neg hm]

theorem elapsed_told {n : ℕ} {e : Estimator}
    (hn : Napped n (ss.flatMap (doings a)) u) (hb : InTime u.session.transfer.now)
    (hf : e.time.first = ((List.range (if (ss.flatMap (doings a)).any isSleep then
      Session.dueBy ⟨0⟩ (Reporter.ofConfig c).interval u.session.transfer.now else 0)).map
        (Session.due ⟨0⟩ (Reporter.ofConfig c).interval)).head?) :
    (e.elapsedSeconds u.session.transfer.now).toNat =
      u.session.transfer.now.nanos.toNat / Duration.perSecond := by
  by_cases hany : (ss.flatMap (doings a)).any isSleep = true
  · apply running_of_first _ hb
    rw [hf, if_pos hany, List.head?_map, List.head?_range, Session.dueBy,
      if_neg (Nat.succ_ne_zero _), Option.map_some, Session.due_zero]
  · rw [Bool.not_eq_true] at hany
    rw [hany] at hf
    rw [Estimator.elapsedSeconds, Timeline.running, hf, (hn.none hany).2]
    rfl

theorem displayed_of_passes (hv : c.validate = .ok ()) (hc : (c.enabled && !c.dryRun) = true)
    (h : a.unfit? = none) (ht : 0 < a.total)
    (hr : (starting c a).1.run a (Arguments.chunk_ne_zero h) = (u, .ok ()))
    (hp : Passes a (starting c a).1 ss u) (hu : ¬ u.processed < a.total)
    (hb : InTime u.session.transfer.now)
    (hne : ∀ k, 0 < k → u.session.transfer.now ≠ Session.due ⟨0⟩ c.interval.slept k) :
    Displayed c a c.interval.slept (Due a c.interval.slept u.session.transfer.now) ss u := by
  have hchunk := Arguments.chunk_ne_zero h
  obtain ⟨hsession, hshown⟩ := started_session hp
  have hnaps := naps_of_run hp hchunk ht hu
  have hinterval := interval_ofConfig hv
  have hpos : 0 < (Reporter.ofConfig c).interval.nanos :=
    Nat.lt_of_lt_of_le (by decide) (Session.perMilli_le_interval c)
  have htotal : a.total ≠ 0 := by
    rintro hz
    rw [hz] at ht
    exact absurd ht (by decide)
  obtain ⟨later, hlater⟩ : ∃ later, ss = (starting c a).1 :: later := by
    cases hp with
    | done => exact absurd ht hu
    | step => exact ⟨_, rfl⟩
  have hcounted := counted_of_passes hp hchunk rfl rfl rfl rfl hu
  have hscript : InTime ((Session.starting c (.ofConfig c)).after (script a ss)).transfer.now := by
    rw [← hsession]
    exact hb
  have hfollows := (Session.follows_history c c (script a ss) hscript).transfer
  have hticks := tickTimes_script hc hscript
  obtain ⟨hanswers, hfirst⟩ := answers_script hc hscript (size_ne_zero hchunk ht) htotal
    ⟨later, hlater⟩
  rw [← told, ← hsession] at hfollows
  rw [← hsession] at hticks
  rw [← hinterval] at hne ⊢
  refine ⟨?_, ?_, hanswers, ?_⟩
  · rw [Program.showSimulation, simulate_of_ok h hr, hshown, emissions_script hc hscript,
      started_starting, hc, ← hsession]
    rfl
  · exact ⟨_, lt_ticks_iff hnaps hpos hne, hticks⟩
  · refine ⟨_, _, _, rfl, ?_, ?_⟩
    · rw [← hfollows]
      rw [Arguments.wires, List.map_map]
      exact hcounted.total
    · rw [← hfollows]
      rw [hticks, ← hfollows] at hfirst
      exact elapsed_told hnaps hb hfirst

theorem emissions_disabled (hc : (c.enabled && !c.dryRun) = false) (ss : List State) :
    (Session.starting c (.ofConfig c)).emissions (script a ss ++ [.stop]) = [] := by
  have habsent : ((Session.starting c (.ofConfig c)).after (opening a)).reporter.task = .absent := by
    rcases c with ⟨_ | _, interval, _ | _, format, floor, window⟩
    · rfl
    · rfl
    · cases hc
    · rfl
  have hopening : (Session.starting c (.ofConfig c)).emissions (opening a) = [] := rfl
  have hscript : script a ss ++ [.stop] = opening a ++ (ss.flatMap (doings a) ++ [.stop]) := rfl
  rw [hscript, Session.emissions_append, hopening, List.nil_append]
  apply Session.emissions_of_absent habsent
  intro x hx hstart
  rcases List.mem_append.mp hx with hx | hx
  · rw [hstart] at hx
    cases works_doings a ss _ hx
  · rw [hstart] at hx
    cases List.mem_singleton.mp hx

theorem displayed_of_run (hv : c.validate = .ok ()) (h : a.unfit? = none) (ht : 0 < a.total)
    (hr : (starting c a).1.run a (Arguments.chunk_ne_zero h) = (u, .ok ())) :
    ((c.enabled && !c.dryRun) = true → InTime u.session.transfer.now →
        (∀ k, 0 < k → u.session.transfer.now ≠ Session.due ⟨0⟩ c.interval.slept k) →
        ∃ ss, Passes a (starting c a).1 ss u ∧
          Displayed c a c.interval.slept (Due a c.interval.slept u.session.transfer.now) ss u) ∧
      ((c.enabled && !c.dryRun) = false →
        Program.showSimulation c a = ⟨[⟨Program.start, Program.offNotice⟩], .done⟩) := by
  obtain ⟨ss, hp, hu⟩ := passes_run (Arguments.chunk_ne_zero h) (starting c a).1
  rw [hr] at hp hu
  constructor
  · intro hc hb hne
    exact ⟨ss, hp, displayed_of_passes hv hc h ht hr hp hu hb hne⟩
  · intro hc
    rw [Program.showSimulation, simulate_of_ok h hr, (started_session hp).2, emissions_disabled hc,
      started_starting, hc]
    rfl

theorem Displayed.lines {interval : Duration} {due : ℕ → Prop}
    (h : Displayed c a interval due ss u) :
    ∃ n, (∀ k, k < n ↔ due k) ∧ (Program.showSimulation c a).outputs.length = n + 1 := by
  obtain ⟨n, hn, ht⟩ := h.ticks
  have hlen := congrArg List.length (h.answers.trans ht)
  rw [List.length_map, List.length_map, List.length_range] at hlen
  refine ⟨n, hn, ?_⟩
  rw [h.outcome, List.length_map, List.length_append, hlen]
  rfl

theorem ne_due {t : Instant} {interval : Duration}
    (h : t.nanos < interval.nanos ∨ t.nanos % interval.nanos ≠ 0) (k : ℕ) (hk : 0 < k) :
    t ≠ Session.due ⟨0⟩ interval k := by
  rintro rfl
  rw [Session.nanos_due, Int.zero_add] at h
  rcases h with h | h
  · have hle := Nat.le_mul_of_pos_left interval.nanos hk
    omega
  · rw [← Int.natCast_mod, Nat.mul_mod_left] at h
    exact h rfl

def fives : Config := { Config.standard with intervalSecs := 5 }

def halting : Arguments := ⟨3, 4, 1.0, 1.5, 2, 2, 4, some 1⟩

theorem unfit?_halting : halting.unfit? = none := by decide +kernel

theorem displayed_of_run_halting :
    let c := { fives with dryRun := true }
    let u := ((starting fives halting).1.run halting (Arguments.chunk_ne_zero unfit?_halting)).1
    u.session.transfer.now = ⟨6000000000⟩ ∧
      (∃ ss, Displayed fives halting fives.interval.slept
        (Due halting fives.interval.slept u.session.transfer.now) ss u) ∧
      (Program.showSimulation fives halting).outputs.map Program.Output.time =
        [⟨0⟩, ⟨5000000000⟩, ⟨6000000000⟩] ∧
      Program.showSimulation c halting = ⟨[⟨Program.start, Program.offNotice⟩], .done⟩ := by
  intro c u
  have hnow : u.session.transfer.now = ⟨6000000000⟩ := by decide +kernel
  have hr : (starting fives halting).1.run halting (Arguments.chunk_ne_zero unfit?_halting) =
      (u, .ok ()) := Prod.ext rfl (by decide +kernel)
  have hr' : (starting c halting).1.run halting (Arguments.chunk_ne_zero unfit?_halting) =
      (((starting c halting).1.run halting (Arguments.chunk_ne_zero unfit?_halting)).1, .ok ()) :=
    Prod.ext rfl (by decide +kernel)
  obtain ⟨hshows, -⟩ := displayed_of_run (c := fives) rfl unfit?_halting (by decide) hr
  obtain ⟨-, hsilent⟩ := displayed_of_run (c := c) rfl unfit?_halting (by decide) hr'
  refine ⟨hnow, ?_, by decide +kernel, hsilent rfl⟩
  have hb : InTime u.session.transfer.now := by
    rw [hnow]
    unfold Session.InTime
    decide
  have hne : ∀ k, 0 < k → u.session.transfer.now ≠ Session.due ⟨0⟩ fives.interval.slept k := by
    rw [hnow]
    exact ne_due (by decide)
  obtain ⟨ss, -, hd⟩ := hshows rfl hb hne
  exact ⟨ss, hd⟩

def rare : Config := { Config.standard with intervalSecs := 1000000000 }

def unhurried : Arguments := ⟨2, 0, 490000000.0, 1.0, 1, 1, 8388608, none⟩

def trifling : Arguments := ⟨129, 0, 0.5, 1.0, 1, 1, 8388608, none⟩

theorem unfit?_unhurried : unhurried.unfit? = none := by decide +kernel

theorem unfit?_trifling : trifling.unfit? = none := by decide +kernel

theorem not_displayed_unhurried :
    let r := (starting rare unhurried).1.run unhurried (Arguments.chunk_ne_zero unfit?_unhurried)
    let r' := (starting .standard trifling).1.run trifling (Arguments.chunk_ne_zero unfit?_trifling)
    (r.2 = .ok () ∧
      (∀ k, 0 < k → r.1.session.transfer.now ≠ Session.due ⟨0⟩ rare.interval k) ∧
      ¬ ∃ ss, Displayed rare unhurried rare.interval (fun k =>
        (Session.due ⟨0⟩ rare.interval k).nanos < r.1.session.transfer.now.nanos) ss r.1) ∧
    r'.2 = .ok () ∧
      (∀ k, 0 < k → r'.1.session.transfer.now ≠ Session.due ⟨0⟩ Config.standard.interval k) ∧
      ¬ ∃ ss, Displayed .standard trifling Config.standard.interval (fun k =>
        (Session.due ⟨0⟩ Config.standard.interval k).nanos <
          r'.1.session.transfer.now.nanos) ss r'.1 := by
  intro r r'
  obtain ⟨hok, hr⟩ : r.2 = .ok () ∧ r.1.session.transfer.now = ⟨980000000000000000⟩ := by
    decide +kernel
  obtain ⟨hok', hr'⟩ : r'.2 = .ok () ∧ r'.1.session.transfer.now = ⟨0⟩ := by decide +kernel
  refine ⟨⟨hok, ?_, ?_⟩, hok', ?_, ?_⟩
  · rw [hr]
    exact ne_due (by decide)
  · rintro ⟨ss, h⟩
    obtain ⟨n, hn, hlen⟩ := h.lines
    have hthree : (Program.showSimulation rare unhurried).outputs.length = 3 := by decide +kernel
    have hone := (hn 1).mp (by omega)
    rw [hr] at hone
    exact absurd hone (by decide)
  · rw [hr']
    exact ne_due (by decide)
  · rintro ⟨ss, h⟩
    obtain ⟨n, hn, hlen⟩ := h.lines
    have htwo : (Program.showSimulation .standard trifling).outputs.length = 2 := by decide +kernel
    have hzero := (hn 0).mp (by omega)
    rw [hr'] at hzero
    exact absurd hzero (by decide)

end Run

end State

end Simulation

end Headway
