import Headway.Proofs.Session.Simulation

namespace Headway.Session

structure Timetabled (options : EstimatorOptions) (interval : Duration) (s : Session)
    (as : List Action) : Prop where
  transfer : (s.after as).transfer =
    (Transfer.starting options).after (calls interval (s.history as))
  stream : s.emissions as = (Transfer.starting options).emissions (calls interval (s.history as)) ++
    completion options interval (s.history as)
  times : (Transfer.starting options).tickTimes (calls interval (s.history as)) =
    timetable interval (s.history as) (s.after as).transfer.now
  count : ∀ first, firstTick? (s.history as) = some first → closing? (s.history as) = none →
    ((Transfer.starting options).tickTimes (calls interval (s.history as))).length =
      ((s.after as).transfer.now.nanos - first.nanos).toNat / interval.nanos + 1
  once : (completion options interval (s.history as)).map Emission.time =
    (closing? (s.history as)).toList
  quiet : ∀ before later, as = before ++ later → stopAsked (s.history before) = true →
    (Transfer.starting options).tickTimes (calls interval (s.history as)) =
      (Transfer.starting options).tickTimes (calls interval (s.history before))

theorem session_timetabled (config config' : Config) (as : List Action)
    (hb : InTime ((starting config (.ofConfig config')).after as).transfer.now) :
    Timetabled (.ofConfig config') (config.interval.longer (.ofMillis 1)).slept
      (starting config (.ofConfig config')) as := by
  have h := follows_history config config' as hb
  refine ⟨h.transfer, h.stream, h.times, ?_, time_completion _ _ _, ?_⟩
  · intro first hf hc
    rw [show (config.interval.longer (.ofMillis 1)).slept = (Reporter.ofConfig config).interval
      from rfl, h.times, timetable, hf, hc, List.length_map, List.length_range]
    rfl
  · rintro before later rfl ha
    have hbefore : InTime ((starting config (.ofConfig config')).after before).transfer.now := by
      rw [after_append] at hb
      exact Int.lt_of_le_of_lt (now_le_after _ later) hb
    have ht := (follows_history config config' before hbefore).times
    exact h.times.trans ((timetable_append_of_stopAsked _ _ before later ha).trans ht.symm)

/-- More than thirty years between two ticks, were it not for the longest sleep. -/
def patient : Config := { Config.standard with intervalSecs := 1000000000 }

def longWait : List Action :=
  [.hear (.evidence ⟨0, 1000⟩), .hear (.bytes 10), .hear (.live (.setRaw 20)),
    .hear (.live (.setChanged 40)), .start, .sleep (.ofMillis 900000000000),
    .sleep (.ofMillis 90000000000)]

theorem session_timetabled_longWait :
    InTime ((starting patient (.ofConfig patient)).after longWait).transfer.now ∧
      Timetabled (.ofConfig patient) (patient.interval.longer (.ofMillis 1)).slept
        (starting patient (.ofConfig patient)) longWait ∧
      ((starting patient (.ofConfig patient)).emissions longWait).map Emission.time =
        [⟨0⟩, ⟨946080000000000000⟩] := by
  have hb : InTime ((starting patient (.ofConfig patient)).after longWait).transfer.now := by
    unfold InTime
    decide +kernel
  refine ⟨hb, session_timetabled patient patient longWait hb, ?_⟩
  decide +kernel

theorem not_timetabled_longWait :
    ¬ Timetabled (.ofConfig patient) (patient.interval.longer (.ofMillis 1))
      (starting patient (.ofConfig patient)) longWait := by
  intro h
  have hs := congrArg List.length h.stream
  revert hs
  decide +kernel

end Headway.Session
