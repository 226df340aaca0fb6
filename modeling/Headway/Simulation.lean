import Headway.Channel
import Headway.Simulation.Arguments

namespace Headway.Simulation

structure State where
  session : Session
  queue : Channel
  shown : Array Emission
  processed : UInt64
  inVolume : UInt64
  volumes : UInt32
  paused : Bool
  /-- Sleeps that have ended since the transfer last gave way to the others. -/
  streak : Nat
  deriving DecidableEq

namespace Arguments

def total (a : Arguments) : UInt64 := Evidence.total ⟨a.newBytes, a.changedBytes⟩

def raw (a : Arguments) (size : UInt64) : UInt64 := (size.toFloat * a.deltaRatio).toUInt64

def wire (a : Arguments) (raw : UInt64) : UInt64 := (raw.toFloat * a.compressRatio).toUInt64

def sending? (a : Arguments) (wire : UInt64) : Option Duration :=
  Duration.ofFloat? (wire.toFloat / a.rate.toFloat)

end Arguments

namespace State

def display (s : State) (emissions : List Emission) : State :=
  emissions.foldl
    (fun s e =>
      let (queue, reports) := (s.queue.offer e.report).drain
      { s with queue := queue, shown := s.shown ++ (reports.map (Emission.mk e.time)).toArray })
    s

def patience : Nat := 128

def giveWay (s : State) (d : Duration) : State :=
  let (session, emissions) := s.session.sleepUntil (s.session.transfer.now.later d.slept)
  display { s with session := session, streak := 1 } emissions

/-- A sleep without any length gives way only when the transfer's patience is at its end. -/
def sleep (s : State) (d : Duration) : State :=
  if d.nanos = 0 ∧ s.streak < patience then { s with streak := s.streak + 1 } else s.giveWay d

def hear (s : State) (news : News) : State := { s with session := (s.session.act (.hear news)).1 }

def size (a : Arguments) (s : State) : UInt64 := min a.chunk (a.total - s.processed)

def take (a : Arguments) (s : State) : State :=
  let size := s.size a
  hear (hear { s with processed := s.processed + size } (.live (.addChanged size)))
    (.live (.addRaw (a.raw size)))

def changeVolume (a : Arguments) (wire : UInt64) (s : State) : Except Fault State :=
  if 0 < s.inVolume ∧ a.volume < Count.addSat s.inVolume wire then
    if s.volumes.toNat + 1 < UInt32.size then
      .ok (hear { s with inVolume := 0, volumes := s.volumes + 1 } (.bytes 0))
    else .error .countSum
  else .ok s

def send (wire : UInt64) (s : State) : Except Fault State :=
  match Count.add? s.inVolume wire with
  | some n => .ok (hear { s with inVolume := n } (.bytes n))
  | none => .error .countSum

def pause (a : Arguments) (s : State) : State :=
  match a.pauseSecs with
  | some secs =>
    if !s.paused && decide (a.total / 2 ≤ s.processed) then
      sleep { s with paused := true } (.ofSeconds secs)
    else s
  | none => s

def step (a : Arguments) (s : State) : Except Fault State := do
  let wire := a.wire (a.raw (s.size a))
  let s ← (s.take a).changeVolume a wire
  let s ← s.send wire
  match a.sending? wire with
  | some d => pure ((s.sleep d).pause a)
  | none => throw .secondsRange

def stop (s : State) : State :=
  let (session, emissions) := s.session.stop
  display { s with session := session } emissions

def starting (c : Config) (a : Arguments) : State × Bool :=
  let (session, _, _) := (Session.starting c (.ofConfig c)).act
    (.hear (.evidence ⟨a.newBytes, a.changedBytes⟩))
  let (session, answer, _) := session.act .start
  let started := match answer with
    | .started (.ok b) => b
    | _ => false
  (⟨session, .empty 16, #[], 0, 0, 1, false, 0⟩, started)

theorem processed_display (s : State) (es : List Emission) :
    (s.display es).processed = s.processed := by
  induction es generalizing s with
  | nil => rfl
  | cons e es ih => rw [display, List.foldl_cons]; exact ih _

theorem processed_sleep (s : State) (d : Duration) : (s.sleep d).processed = s.processed := by
  rw [sleep]
  split
  · rfl
  · exact processed_display _ _

theorem processed_changeVolume {a : Arguments} {wire : UInt64} {s t : State}
    (h : s.changeVolume a wire = .ok t) : t.processed = s.processed := by
  rw [changeVolume] at h
  split at h
  · split at h
    · cases h; rfl
    · cases h
  · cases h; rfl

theorem processed_send {wire : UInt64} {s t : State} (h : s.send wire = .ok t) :
    t.processed = s.processed := by
  rw [send] at h
  split at h
  · cases h; rfl
  · cases h

theorem processed_pause (a : Arguments) (s : State) : (s.pause a).processed = s.processed := by
  rw [pause]
  split
  · split
    · exact processed_sleep _ _
    · rfl
  · rfl

theorem processed_step {a : Arguments} {s t : State} (h : s.step a = .ok t) :
    t.processed = s.processed + s.size a := by
  simp only [step, bind, Except.bind] at h
  split at h
  · cases h
  next s₁ h₁ =>
    split at h
    · cases h
    next s₂ h₂ =>
      split at h
      · cases h
        rw [processed_pause, processed_sleep, processed_send h₂, processed_changeVolume h₁]
        rfl
      · cases h

theorem toNat_processed_add_size {a : Arguments} {s : State} (h : s.processed < a.total) :
    (s.processed + s.size a).toNat =
      s.processed.toNat + min a.chunk.toNat (a.total.toNat - s.processed.toNat) := by
  have hlt : s.processed.toNat < a.total.toNat := UInt64.lt_iff_toNat_lt.1 h
  have hsub : (a.total - s.processed).toNat = a.total.toNat - s.processed.toNat :=
    UInt64.toNat_sub_of_le _ _ (Nat.le_of_lt hlt)
  have htop := a.total.toNat_lt
  have hmin : (s.size a).toNat = min a.chunk.toNat (a.total.toNat - s.processed.toNat) := by
    simp only [size]
    rw [← hsub]
    show (if a.chunk ≤ a.total - s.processed then _ else _ : UInt64).toNat = _
    split
    next hle => rw [Nat.min_eq_left (UInt64.le_iff_toNat_le.1 hle)]
    next hle =>
      rw [UInt64.le_iff_toNat_le] at hle
      rw [Nat.min_eq_right (by omega)]
  rw [UInt64.toNat_add, hmin]
  exact Nat.mod_eq_of_lt (by omega)

def run (a : Arguments) (fit : a.chunk ≠ 0) (s : State) : State × Except Fault Unit :=
  if s.processed < a.total then
    match _ : s.step a with
    | .ok t => run a fit t
    | .error f => (s, .error f)
  else (s, .ok ())
termination_by a.total.toNat - s.processed.toNat
decreasing_by
  rename_i hlt hs
  have hpos : 0 < a.chunk.toNat :=
    Nat.pos_of_ne_zero fun h => fit (UInt64.toNat_inj.1 (by simpa using h))
  have hnat : s.processed.toNat < a.total.toNat := UInt64.lt_iff_toNat_lt.1 hlt
  rw [processed_step hs, toNat_processed_add_size hlt]
  omega

end State

structure Result where
  started : Bool
  shown : List Emission
  ending : Except Fault Unit

def simulate (c : Config) (a : Arguments) : Except Unfit Result :=
  match h : a.unfit? with
  | some u => .error u
  | none =>
    let (s, started) := State.starting c a
    match s.run a (Arguments.chunk_ne_zero h) with
    | (s, .ok ()) => .ok ⟨started, s.stop.shown.toList, .ok ()⟩
    | (s, .error f) => .ok ⟨started, s.shown.toList, .error f⟩

end Headway.Simulation
