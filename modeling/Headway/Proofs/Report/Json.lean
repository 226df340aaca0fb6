import Headway.Proofs.Decimal.Notation
import Headway.Proofs.Report.Words
import Headway.Report.Event

namespace Headway

open Headway.Binary64 Headway.Decimal

inductive Scalar where
  | null
  | bool (b : Bool)
  | number (negative : Bool) (magnitude : Scientific)
  deriving DecidableEq

namespace Scalar

def read? (cs : List Char) : Option Scalar :=
  match number? cs with
  | some (negative, s) => some (.number negative s)
  | none =>
    if cs = "null".toList then some .null
    else if cs = "true".toList then some (.bool true)
    else if cs = "false".toList then some (.bool false)
    else none

def word? : Scalar → Option UInt64
  | .number false ⟨n, 0⟩ => if n ≤ Count.largest then some (UInt64.ofNat n) else none
  | _ => none

def IsReadAs (v : Scalar) (x : Float) : Prop :=
  ∃ negative s a, v = .number negative s ∧ shape x = .finite negative a ∧ IsRounded s.units a

structure Says (v : Scalar) (x : Float) : Prop where
  null : v = .null ↔ x.isNaN = true ∨ x.isInf = true
  read (y : Float) : v.IsReadAs y ↔ x.isFinite = true ∧ y = x

variable {v : Scalar} {x y : Float}

theorem IsReadAs.unique (hx : v.IsReadAs x) (hy : v.IsReadAs y) : x = y := by
  obtain ⟨n, s, a, rfl, hx, ha⟩ := hx
  obtain ⟨n', s', b, hv, hy, hb⟩ := hy
  cases hv
  obtain rfl := ha.unique hb
  exact eq_of_shape hx hy

theorem read?_of_number? {cs : List Char} {negative : Bool} {s : Scientific}
    (h : number? cs = some (negative, s)) : read? cs = some (.number negative s) := by
  rw [read?, h]

theorem says_null (h : x.isFinite = false) : Says .null x := by
  refine ⟨⟨fun _ => isFinite_eq_false_iff.mp h, fun _ => rfl⟩, fun y => ⟨?_, ?_⟩⟩
  · rintro ⟨negative, s, a, hnull, -⟩
    cases hnull
  · rintro ⟨hfinite, -⟩
    exact absurd hfinite (Bool.eq_false_iff.mp h)

theorem says_number {negative : Bool} {s : Scientific}
    (h : IsReadAs (.number negative s) x) (hx : x.isFinite = true) :
    Says (.number negative s) x := by
  refine ⟨⟨?_, fun hspecial => ?_⟩, fun y => ⟨fun hy => ⟨hx, hy.unique h⟩, ?_⟩⟩
  · rintro ⟨⟩
  · rw [← isFinite_eq_false_iff, hx] at hspecial
    cases hspecial
  · rintro ⟨-, rfl⟩
    exact h

theorem read?_jsonNumber (x : Float) : ∃ v, read? (jsonNumber x) = some v ∧ v.Says x := by
  cases hfinite : x.isFinite with
  | true =>
    obtain ⟨negative, a, hshape⟩ := isFinite_iff.mp hfinite
    obtain ⟨s, hs, hrounded⟩ := number?_jsonNumber hshape
    exact ⟨_, read?_of_number? hs, says_number ⟨_, _, _, rfl, hshape, hrounded⟩ hfinite⟩
  | false =>
    have hshape (negative a) : shape x ≠ .finite negative a := by
      intro h
      rw [isFinite_iff.mpr ⟨_, _, h⟩] at hfinite
      cases hfinite
    rw [jsonNumber_eq_null hshape]
    exact ⟨.null, rfl, says_null hfinite⟩

theorem read?_digits (n : UInt64) :
    ∃ v, read? (digits n.toNat) = some v ∧ v.word? = some n := by
  refine ⟨_, read?_of_number? (number?_digits n.toNat), ?_⟩
  rw [word?, if_pos (Count.toNat_le_largest n), UInt64.ofNat_toNat]

theorem read?_jsonBool (b : Bool) : read? (Report.jsonBool b) = some (.bool b) := by
  cases b <;> rfl

end Scalar

section Cuts

def Unbroken (cs : List Char) : Prop := ∀ c ∈ cs, c.isWhitespace = false ∧ c ≠ ','

instance (cs : List Char) : Decidable (Unbroken cs) := List.decidableBAll _ cs

variable {a b : List Char}

@[simp]
theorem unbroken_nil : Unbroken [] := List.forall_mem_nil _

@[simp]
theorem unbroken_append : Unbroken (a ++ b) ↔ Unbroken a ∧ Unbroken b := List.forall_mem_append

@[simp]
theorem unbroken_cons {c : Char} : Unbroken (c :: a) ↔ (c.isWhitespace = false ∧ c ≠ ',') ∧ Unbroken a :=
  List.forall_mem_cons

def cuts : List Char := [' ', '\t', '\r', '\n', ',']

theorem unbroken_of_forall {p : Char → Bool} (hp : cuts.any p = false) (h : ∀ c ∈ a, p c = true) :
    Unbroken a := by
  intro c hc
  have hcut : c ∉ cuts := fun hmem => List.any_eq_false.mp hp c hmem (h c hc)
  simp only [cuts, List.mem_cons, List.not_mem_nil, or_false, not_or] at hcut
  simp [Char.isWhitespace, hcut]

theorem unbroken_digits (n : ℕ) : Unbroken (digits n) :=
  unbroken_of_forall (by decide) fun _ => isDigit_of_mem_digits

theorem unbroken_zeros (k : ℕ) : Unbroken (List.replicate k '0') :=
  unbroken_of_forall (by decide) fun _ => isDigit_of_mem_zeros

theorem unbroken_pointed (h : Unbroken a) : Unbroken (pointed a) := by
  match a with
  | [] => exact h
  | [d] => exact h
  | d :: d' :: rest =>
    have htext : pointed (d :: d' :: rest) = d :: '.' :: d' :: rest := rfl
    rw [unbroken_cons] at h
    rw [htext, unbroken_cons, unbroken_cons]
    exact ⟨h.1, by decide, h.2⟩

theorem unbroken_powerOfTen (e : ℤ) : Unbroken (powerOfTen e) := by
  rw [powerOfTen]
  split <;> simp [unbroken_digits]

theorem unbroken_positional (n : ℕ) (e : ℤ) : Unbroken (positional (digits n) e) := by
  have hn := unbroken_digits n
  simp only [positional]
  split
  · simp [hn, unbroken_zeros]
  · split
    · have htake : Unbroken ((digits n).take ((digits n).length + e).toNat) :=
        fun c hc => hn c (List.mem_of_mem_take hc)
      have hdrop : Unbroken ((digits n).drop ((digits n).length + e).toNat) :=
        fun c hc => hn c (List.mem_of_mem_drop hc)
      simp [htake, hdrop]
    · split
      · simp [hn, unbroken_zeros]
      · rw [unbroken_append]
        exact ⟨unbroken_pointed hn, unbroken_powerOfTen _⟩

theorem unbroken_jsonNumber (x : Float) : Unbroken (jsonNumber x) := by
  have hsign (negative : Bool) : Unbroken (sign negative) := by cases negative <;> decide
  rw [jsonNumber]
  split
  · decide
  · decide
  next a _ =>
    rw [unbroken_append, magnitudeText]
    refine ⟨hsign _, ?_⟩
    split
    · decide
    · exact unbroken_positional _ _

end Cuts

namespace Report

section Object

def isLetter (c : Char) : Bool := c.isAlpha || c == '_'

def member? : List Char → Option (String × Scalar)
  | '"' :: cs =>
    match cs.dropWhile isLetter with
    | '"' :: ':' :: text =>
      (fun v => (String.ofList (cs.takeWhile isLetter), v)) <$> Scalar.read? text
    | _ => none
  | _ => none

def object? (line : String) : Option (List (String × Scalar)) :=
  match line.toList with
  | '\x7b' :: cs =>
    if cs.getLast? = some '\x7d' then (cs.dropLast.splitOn ',').mapM member? else none
  | _ => none

variable {name : String} {text : List Char} {v : Scalar}

theorem member?_member (hname : ∀ c ∈ name.toList, isLetter c = true)
    (hv : Scalar.read? text = some v) : member? (member (name, text)) = some (name, v) := by
  have htake : (name.toList ++ '"' :: ':' :: text).takeWhile isLetter = name.toList := by
    rw [List.takeWhile_append_of_pos hname]
    exact List.append_nil _
  have hdrop : (name.toList ++ '"' :: ':' :: text).dropWhile isLetter = '"' :: ':' :: text := by
    rw [List.dropWhile_append_of_pos hname]
    rfl
  rw [member, List.cons_append, member?, hdrop]
  simp only [htake, hv, String.ofList_toList]
  rfl

theorem members_eq (fs : List (String × List Char)) :
    members fs = [','].intercalate (fs.map member) := by
  induction fs with
  | nil => rfl
  | cons f fs ih =>
    cases fs with
    | nil => simp [members]
    | cons g fs =>
      rw [members, ih, List.map_cons, List.map_cons, List.map_cons, List.intercalate_cons_cons,
        List.append_assoc, List.singleton_append]
      exact List.cons_ne_nil g fs

variable {fs : List (String × List Char)} {vs : List Scalar}

theorem mapM_member? (hname : ∀ f ∈ fs, ∀ c ∈ f.1.toList, isLetter c = true)
    (hread : List.Forall₂ (fun f v => Scalar.read? f.2 = some v) fs vs) :
    (fs.map member).mapM member? = some ((fs.map Prod.fst).zip vs) := by
  induction hread with
  | nil => rfl
  | cons hf _ ih =>
    obtain ⟨hfirst, hrest⟩ := List.forall_mem_cons.mp hname
    simp [member?_member hfirst hf, ih hrest]

theorem unbroken_member {f : String × List Char} (hname : ∀ c ∈ f.1.toList, isLetter c = true)
    (hvalue : Unbroken f.2) : Unbroken (member f) := by
  have hplain : Unbroken f.1.toList := unbroken_of_forall (by decide) hname
  rw [member, List.cons_append, unbroken_cons, unbroken_append, unbroken_cons, unbroken_cons]
  exact ⟨by decide, hplain, by decide, by decide, hvalue⟩

theorem object?_members (hne : fs ≠ [])
    (hname : ∀ f ∈ fs, ∀ c ∈ f.1.toList, isLetter c = true) (hvalue : ∀ f ∈ fs, Unbroken f.2)
    (hread : List.Forall₂ (fun f v => Scalar.read? f.2 = some v) fs vs) :
    object? (String.ofList ('\x7b' :: members fs ++ ['\x7d'])) =
      some ((fs.map Prod.fst).zip vs) := by
  have hcut : (members fs).splitOn ',' = fs.map member := by
    rw [members_eq]
    apply List.splitOn_intercalate
    · rw [List.forall_mem_map]
      exact fun f hf hmem => (unbroken_member (hname f hf) (hvalue f hf) ',' hmem).2 rfl
    · simpa using hne
  rw [object?, String.toList_ofList, List.cons_append]
  simp only [List.getLast?_concat, if_pos, List.dropLast_concat, hcut]
  exact mapM_member? hname hread

theorem whitespace_members (h : ∀ f ∈ fs, Unbroken (member f)) :
    ∀ c ∈ members fs, c.isWhitespace = false := by
  induction fs with
  | nil => exact List.forall_mem_nil _
  | cons f fs ih =>
    have hf : ∀ c ∈ member f, c.isWhitespace = false :=
      fun c hc => (h f List.mem_cons_self c hc).1
    cases fs with
    | nil => exact hf
    | cons g fs =>
      rw [members, List.forall_mem_append, List.forall_mem_cons]
      · exact ⟨hf, rfl, ih fun k hk => h k (List.mem_cons_of_mem f hk)⟩
      · exact List.cons_ne_nil g fs

end Object

theorem isLetter_fields (r : Report) : ∀ f ∈ r.fields, ∀ c ∈ f.1.toList, isLetter c = true := by
  simp only [fields, List.forall_mem_cons, ← List.all_eq_true]
  exact ⟨by rfl, by rfl, by rfl, by rfl, by rfl, by rfl, rfl⟩

theorem unbroken_fields (r : Report) : ∀ f ∈ r.fields, Unbroken f.2 := by
  have hbool : Unbroken (jsonBool r.stalled) := by cases r.stalled <;> decide
  simp only [fields, List.forall_mem_cons]
  exact ⟨unbroken_jsonNumber _, unbroken_digits _, unbroken_digits _, unbroken_digits _,
    unbroken_jsonNumber _, hbool, List.forall_mem_nil _⟩

structure Reading (r : Report) (percent eta total elapsed speed : Scalar) : Prop where
  members : object? (r.render .json) =
    some [("percent_complete", percent), ("eta_seconds", eta), ("total_bytes", total),
      ("elapsed_seconds", elapsed), ("speed_bytes_per_sec", speed), ("stalled", .bool r.stalled)]
  percent : percent.Says r.percent
  eta : eta.word? = some r.eta
  total : total.word? = some r.total
  elapsed : elapsed.word? = some r.elapsed
  speed : speed.Says r.speed

structure Transparent (r : Report) : Prop where
  line : ∀ c ∈ (r.render .json).toList, c.isWhitespace = false
  own : r.render .json = r.json ∧ r.render .json ≠ r.render .text
  reading : ∃ percent eta total elapsed speed, r.Reading percent eta total elapsed speed

theorem whitespace_json (r : Report) : ∀ c ∈ r.json.toList, c.isWhitespace = false := by
  rw [json, String.toList_ofList, List.cons_append, List.forall_mem_cons, List.forall_mem_append]
  refine ⟨rfl, whitespace_members fun f hf => ?_, List.forall_mem_singleton.mpr rfl⟩
  exact unbroken_member (r.isLetter_fields f hf) (r.unbroken_fields f hf)

theorem json_ne_text (r : Report) : r.json ≠ r.text := by
  intro h
  -- Cut at its spaces, the object is one word and the text is eight or nine.
  have hspace : ' ' ∉ r.json.toList := by
    intro hmem
    have := r.whitespace_json ' ' hmem
    revert this
    decide
  have hlength := r.legible.length
  rw [← h, tokens, List.splitOn_eq_singleton hspace] at hlength
  split at hlength <;> simp at hlength

theorem exists_reading (r : Report) :
    ∃ percent eta total elapsed speed, r.Reading percent eta total elapsed speed := by
  obtain ⟨percent, hpercent, hsays⟩ := Scalar.read?_jsonNumber r.percent
  obtain ⟨eta, heta, heta'⟩ := Scalar.read?_digits r.eta
  obtain ⟨total, htotal, htotal'⟩ := Scalar.read?_digits r.total
  obtain ⟨elapsed, helapsed, helapsed'⟩ := Scalar.read?_digits r.elapsed
  obtain ⟨speed, hspeed, hsays'⟩ := Scalar.read?_jsonNumber r.speed
  refine ⟨percent, eta, total, elapsed, speed, ?_, hsays, heta', htotal', helapsed', hsays'⟩
  exact object?_members (List.cons_ne_nil _ _) r.isLetter_fields r.unbroken_fields
    (.cons hpercent (.cons heta (.cons htotal (.cons helapsed (.cons hspeed
      (.cons (Scalar.read?_jsonBool r.stalled) .nil))))))

theorem transparent (r : Report) : r.Transparent :=
  ⟨r.whitespace_json, ⟨rfl, r.json_ne_text⟩, r.exists_reading⟩

theorem json_readable (r : Report) :
    r.Transparent ∧ ∀ r' : Report, r'.percent.isFinite = true → r'.speed.isFinite = true →
      r'.json = r.json → r' = r := by
  refine ⟨r.transparent, fun r' hpercent hspeed hjson => ?_⟩
  obtain ⟨percent, eta, total, elapsed, speed, h⟩ := r.exists_reading
  obtain ⟨percent', eta', total', elapsed', speed', h'⟩ := r'.exists_reading
  have hmembers := h'.members
  rw [render, hjson] at hmembers
  have heq := h.members.symm.trans hmembers
  simp only [Option.some.injEq, List.cons.injEq, Prod.mk.injEq, Scalar.bool.injEq, true_and,
    and_true] at heq
  obtain ⟨rfl, rfl, rfl, rfl, rfl, hstalled⟩ := heq
  obtain ⟨-, hp⟩ := (h.percent.read _).mp ((h'.percent.read _).mpr ⟨hpercent, rfl⟩)
  obtain ⟨-, hs⟩ := (h.speed.read _).mp ((h'.speed.read _).mpr ⟨hspeed, rfl⟩)
  have heta := Option.some.inj (h'.eta.symm.trans h.eta)
  have htotal := Option.some.inj (h'.total.symm.trans h.total)
  have helapsed := Option.some.inj (h'.elapsed.symm.trans h.elapsed)
  change (⟨r'.percent, r'.eta, r'.total, r'.elapsed, r'.speed, r'.stalled⟩ : Report) = r
  rw [hp, heta, htotal, helapsed, hs, ← hstalled]

def steep (speed : Float) : Report := ⟨1e-7, 0, 18446744073709551615, 3600, speed, true⟩

theorem json_readable_steep :
    (steep (-0.0)).Transparent ∧ steep (0.0 * -1.0) = steep (-0.0) ∧
      (steep 0.0).json ≠ (steep (-0.0)).json := by
  have h := json_readable (steep (-0.0))
  refine ⟨h.1, h.2 _ (by decide) (by decide) ?_, fun hjson => ?_⟩
  · have hspeed : (0.0 * -1.0 : Float) = -0.0 := by decide
    rw [hspeed]
  · have heq := h.2 _ (by decide) (by decide) hjson
    revert heq
    decide

end Report

end Headway
