namespace Headway.Simulation

structure Arguments where
  newBytes : UInt64
  changedBytes : UInt64
  deltaRatio : Float
  compressRatio : Float
  rate : UInt64
  chunk : UInt64
  volume : UInt64
  pauseSecs : Option UInt64
  deriving DecidableEq

inductive Unfit where
  | zeroRate
  | zeroChunk
  | zeroVolume
  | badRatio
  deriving DecidableEq

def Unfit.message : Unfit → String
  | .zeroRate => "--rate must be greater than zero"
  | .zeroChunk => "--chunk must be greater than zero"
  | .zeroVolume => "--volume must be greater than zero"
  | .badRatio => "ratios must be greater than zero"

namespace Arguments

def standard : Arguments :=
  ⟨16 * 1024 * 1024, 48 * 1024 * 1024, 0.5, 0.6, 4 * 1024 * 1024, 256 * 1024, 8 * 1024 * 1024, none⟩

def unfit? (a : Arguments) : Option Unfit :=
  if a.rate = 0 then some .zeroRate
  else if a.chunk = 0 then some .zeroChunk
  else if a.volume = 0 then some .zeroVolume
  else if 0.0 < a.deltaRatio ∧ 0.0 < a.compressRatio then none
  else some .badRatio

theorem chunk_ne_zero {a : Arguments} (h : a.unfit? = none) : a.chunk ≠ 0 := by
  intro hz
  by_cases hr : a.rate = 0 <;> simp [unfit?, hr, hz] at h

end Arguments

end Headway.Simulation
