import Headway.Decimal.Notation
import Headway.Proofs.Decimal.Numeral
import Headway.Proofs.Decimal.Shortest

namespace Headway.Decimal

open Headway.Binary64

section Reader

def run? (cs : List Char) : Option (List Char × List Char) :=
  let ds := cs.takeWhile Char.isDigit
  if ds = [] then none else some (ds, cs.dropWhile Char.isDigit)

def whole? (cs : List Char) : Option (List Char × List Char) := do
  let (ds, cs) ← run? cs
  if ds.head? = some '0' ∧ ds ≠ ['0'] then none else some (ds, cs)

def fraction? : List Char → Option (List Char × List Char)
  | '.' :: cs => run? cs
  | cs => some ([], cs)

def signed? : List Char → Option ℤ
  | '-' :: cs => (fun n => -(n : ℤ)) <$> last? cs
  | '+' :: cs => Nat.cast <$> last? cs
  | cs => Nat.cast <$> last? cs
where
  last? (cs : List Char) : Option ℕ :=
    match run? cs with
    | some (ds, []) => some (value ds)
    | _ => none

def power? : List Char → Option ℤ
  | [] => some 0
  | c :: cs => if c = 'e' ∨ c = 'E' then signed? cs else none

def unsigned? (cs : List Char) : Option Scientific := do
  let (whole, cs) ← whole? cs
  let (fraction, cs) ← fraction? cs
  let power ← power? cs
  return ⟨value (whole ++ fraction), power - fraction.length⟩

def number? : List Char → Option (Bool × Scientific)
  | '-' :: cs => (fun s => (true, s)) <$> unsigned? cs
  | cs => (fun s => (false, s)) <$> unsigned? cs

end Reader

section Written

variable {ds whole fraction tail : List Char} {n : ℕ} {p e : ℤ}

theorem run?_append (hd : Numeral ds) (ht : ∀ c ∈ tail.head?, c.isDigit = false) :
    run? (ds ++ tail) = some (ds, tail) := by
  have hstop : tail.takeWhile Char.isDigit = [] ∧ tail.dropWhile Char.isDigit = tail := by
    cases tail with
    | nil => exact ⟨rfl, rfl⟩
    | cons c tail =>
      have hc := ht c rfl
      exact ⟨List.takeWhile_cons_of_neg (by simp [hc]), List.dropWhile_cons_of_neg (by simp [hc])⟩
  rw [run?, List.takeWhile_append_of_pos hd.2, List.dropWhile_append_of_pos hd.2, hstop.1, hstop.2,
    List.append_nil]
  exact if_neg hd.1

theorem run?_numeral (hd : Numeral ds) : run? ds = some (ds, []) := by
  have h := @run?_append ds [] hd (by simp)
  rwa [List.append_nil] at h

theorem last?_digits (n : ℕ) : signed?.last? (digits n) = some n := by
  rw [signed?.last?, run?_numeral (numeral_digits n)]
  exact congrArg some (value_digits n)

theorem power?_powerOfTen (e : ℤ) : power? (powerOfTen e) = some e := by
  rw [powerOfTen, power?, if_pos (.inl rfl)]
  by_cases he : e < 0
  · have hneg : -(e.natAbs : ℤ) = e := by omega
    rw [if_pos he, signed?, last?_digits]
    exact congrArg some hneg
  · have hcast : (e.natAbs : ℤ) = e := by omega
    rw [if_neg he, signed?, last?_digits]
    exact congrArg some hcast

theorem head?_of_power? (hp : power? tail = some p) :
    ∀ c ∈ tail.head?, c.isDigit = false ∧ c ≠ '.' := by
  intro c hc
  cases tail with
  | nil => cases hc
  | cons d tail =>
    obtain rfl : d = c := Option.some.inj hc
    rw [power?] at hp
    split at hp
    next he => obtain rfl | rfl := he <;> decide
    next => cases hp

theorem whole?_append (hw : Numeral whole) (hz : whole.head? = some '0' → whole = ['0'])
    (ht : ∀ c ∈ tail.head?, c.isDigit = false) : whole? (whole ++ tail) = some (whole, tail) := by
  rw [whole?, run?_append hw ht]
  exact if_neg fun h => h.2 (hz h.1)

theorem unsigned?_whole (hw : Numeral whole) (hz : whole.head? = some '0' → whole = ['0'])
    (hp : power? tail = some p) : unsigned? (whole ++ tail) = some ⟨value whole, p⟩ := by
  have ht := head?_of_power? hp
  have hfraction : fraction? tail = some ([], tail) := by
    rw [fraction?]
    rintro cs rfl
    exact (ht '.' rfl).2 rfl
  rw [unsigned?, whole?_append hw hz fun c hc => (ht c hc).1]
  simp [hfraction, hp]

theorem unsigned?_fraction (hw : Numeral whole) (hz : whole.head? = some '0' → whole = ['0'])
    (hf : Numeral fraction) (hp : power? tail = some p) :
    unsigned? (whole ++ '.' :: (fraction ++ tail)) =
      some ⟨value (whole ++ fraction), p - fraction.length⟩ := by
  have hpoint : ∀ c ∈ ('.' :: (fraction ++ tail)).head?, c.isDigit = false := by
    rintro c ⟨⟩
    rfl
  rw [unsigned?, whole?_append hw hz hpoint]
  simp [fraction?, run?_append hf fun c hc => (head?_of_power? hp c hc).1, hp]

theorem value_append_zeros (ds : List Char) (k : ℕ) :
    value (ds ++ List.replicate k '0') = 10 ^ k * value ds := by
  rw [value, Nat.ofDigitChars_append, Nat.ofDigitChars_replicate_zero, value]

theorem units_shift (n k : ℕ) (e : ℤ) :
    (⟨10 ^ k * n, e - k⟩ : Scientific).units = (⟨n, e⟩ : Scientific).units := by
  have hpow : (10 : ℚ) ^ k * (10 : ℚ) ^ (e - k) = (10 : ℚ) ^ e := by
    rw [← zpow_natCast, ← zpow_add₀ (by norm_num)]
    congr 1
    omega
  rw [Scientific.units, Scientific.units, ← hpow]
  push_cast
  ring

variable (hn : n ≠ 0)
include hn

theorem unsigned?_inPlace (k : ℕ) :
    unsigned? (digits n ++ List.replicate k '0' ++ ['.', '0']) = some ⟨10 ^ (k + 1) * n, -1⟩ := by
  have hz : (digits n ++ List.replicate k '0').head? ≠ some '0' := by
    rw [List.head?_append_of_ne_nil _ (digits_ne_nil n)]
    exact head?_digits hn
  have hvalue : value (digits n ++ List.replicate k '0' ++ ['0']) = 10 ^ (k + 1) * n := by
    rw [List.append_assoc, ← List.replicate_succ', value_append_zeros, value_digits]
  have hread := @unsigned?_fraction _ ['0'] [] 0 ((numeral_digits n).append_zeros k)
    (fun h => absurd h hz) (numeral_digits 0) rfl
  rw [hvalue] at hread
  exact hread

theorem unsigned?_split {k : ℕ} (hk : 0 < k) (hlt : k < (digits n).length) :
    unsigned? ((digits n).take k ++ '.' :: (digits n).drop k) =
      some ⟨n, (k : ℤ) - (digits n).length⟩ := by
  have hw : Numeral ((digits n).take k) := by
    refine ⟨?_, fun c hc => isDigit_of_mem_digits (List.mem_of_mem_take hc)⟩
    rw [Ne, List.take_eq_nil_iff]
    simp [hk.ne', digits_ne_nil]
  have hf : Numeral ((digits n).drop k) := by
    refine ⟨?_, fun c hc => isDigit_of_mem_digits (List.mem_of_mem_drop hc)⟩
    rw [Ne, List.drop_eq_nil_iff]
    omega
  have hz : ((digits n).take k).head? ≠ some '0' := by
    rw [List.head?_take, if_neg hk.ne']
    exact head?_digits hn
  have hread := @unsigned?_fraction _ _ [] 0 hw (fun h => absurd h hz) hf rfl
  rw [List.append_nil, List.take_append_drop, value_digits, List.length_drop,
    Nat.cast_sub hlt.le, zero_sub, neg_sub] at hread
  exact hread

theorem unsigned?_pointed (e : ℤ) :
    unsigned? (pointed (digits n) ++ powerOfTen e) =
      some ⟨n, e + 1 - (digits n).length⟩ := by
  have hz := head?_digits hn
  have hnumeral := numeral_digits n
  have hvalue := value_digits n
  have hp := power?_powerOfTen e
  generalize digits n = ds at hz hnumeral hvalue ⊢
  match ds with
  | [] => exact absurd rfl hnumeral.1
  | [d] =>
    have hread := unsigned?_whole hnumeral (fun h => absurd h hz) hp
    rw [hvalue] at hread
    rw [pointed, hread]
    simp
  | d :: d' :: ds =>
    have hw : Numeral [d] := ⟨by simp, fun c hc => hnumeral.2 c (by simp_all)⟩
    have hf : Numeral (d' :: ds) := ⟨by simp, fun c hc => hnumeral.2 c (List.mem_cons_of_mem d hc)⟩
    have hread := unsigned?_fraction hw (fun h => absurd h hz) hf hp
    have htext : pointed (d :: d' :: ds) = d :: '.' :: d' :: ds := rfl
    rw [List.singleton_append, List.singleton_append, hvalue] at hread
    rw [htext]
    exact hread.trans (by simp)

omit hn

theorem unsigned?_small (n k : ℕ) :
    unsigned? ('0' :: '.' :: (List.replicate k '0' ++ digits n)) =
      some ⟨n, -(k + (digits n).length : ℤ)⟩ := by
  have hpadded : List.replicate k '0' ++ digits n = padded (k + (digits n).length) n := by
    rw [padded, Nat.add_sub_cancel]
  have hvalue : value ('0' :: padded (k + (digits n).length) n) = n := value_padded _ n
  have hread := @unsigned?_fraction ['0'] _ [] 0 (numeral_digits 0) (fun _ => rfl)
    (numeral_padded (k + (digits n).length) n) rfl
  rw [List.append_nil, List.singleton_append, List.singleton_append, hvalue, length_padded,
    Nat.max_eq_left (Nat.le_add_left _ _), zero_sub, Nat.cast_add] at hread
  rw [hpadded]
  exact hread

theorem unsigned?_positional (hn : n ≠ 0) (e : ℤ) :
    ∃ s, unsigned? (positional (digits n) e) = some s ∧ s.units = (⟨n, e⟩ : Scientific).units := by
  simp only [positional]
  split
  next hwhole =>
    obtain ⟨k, rfl⟩ := Int.eq_ofNat_of_zero_le hwhole.1
    refine ⟨_, unsigned?_inPlace hn k, ?_⟩
    rw [← units_shift n (k + 1) k]
    congr 2
    omega
  next hwhole =>
    split
    next hpoint =>
      obtain ⟨k, hk⟩ := Int.eq_ofNat_of_zero_le hpoint.1.le
      rw [hk, Int.toNat_natCast]
      refine ⟨_, unsigned?_split hn (by omega) (by omega), ?_⟩
      congr 2
      omega
    next hpoint =>
      split
      next hzeros =>
        refine ⟨_, unsigned?_small n _, ?_⟩
        congr 2
        omega
      next hzeros =>
        refine ⟨_, unsigned?_pointed hn _, ?_⟩
        congr 2
        omega

theorem number?_of_unsigned? {cs : List Char} {s : Scientific} (h : unsigned? cs = some s)
    (negative : Bool) : number? (sign negative ++ cs) = some (negative, s) := by
  cases negative with
  | true => exact congrArg ((fun s => (true, s)) <$> ·) h
  | false =>
    have hplain : number? cs = (fun s => (false, s)) <$> unsigned? cs := by
      rw [number?]
      rintro cs rfl
      cases h
    exact hplain.trans (congrArg ((fun s => (false, s)) <$> ·) h)

theorem number?_digits (n : ℕ) : number? (digits n) = some (false, ⟨n, 0⟩) := by
  have hz : (digits n).head? = some '0' → digits n = ['0'] := by
    intro hhead
    by_cases hn : n = 0
    · rw [hn]
      rfl
    · exact absurd hhead (head?_digits hn)
  have hread := @unsigned?_whole _ [] 0 (numeral_digits n) hz rfl
  rw [List.append_nil, value_digits] at hread
  exact number?_of_unsigned? hread false

variable {x : Float} {negative : Bool} {a : Magnitude}

theorem number?_jsonNumber (h : shape x = .finite negative a) :
    ∃ s, number? (jsonNumber x) = some (negative, s) ∧ IsRounded s.units a := by
  have ha := isDouble_of_shape h
  rw [jsonNumber, h]
  dsimp only
  rw [magnitudeText]
  split
  next hzero =>
    refine ⟨⟨0, -1⟩, number?_of_unsigned? rfl negative, ?_⟩
    rw [Scientific.units, Nat.cast_zero, zero_mul, zero_mul]
    exact isRounded_zero ha hzero
  next hzero =>
    obtain ⟨s, hs, hunits⟩ := unsigned?_positional (digits_ne_zero hzero) (shortest a).exponent
    refine ⟨s, number?_of_unsigned? hs negative, ?_⟩
    rw [hunits]
    exact isRounded_shortest ha hzero

theorem jsonNumber_eq_null (h : ∀ negative a, shape x ≠ .finite negative a) :
    jsonNumber x = "null".toList := by
  rw [jsonNumber]
  split
  · rfl
  · rfl
  next hshape => exact absurd hshape (h _ _)

end Written

end Headway.Decimal
