import Mathlib.Data.List.Nodup
import Mathlib.Data.Nat.Init
import Headway.Toml.Document

/-!
A document built with some keys of its own beside the document that is left without them.  A
statement looks only at one key of the root and puts only there, so what is left is built in the same
way, and the root has its own keys as they were assigned.
-/

namespace Headway.Toml

section Entries

namespace Entries

variable {es : Entries} {k k' : Key} {v : Node}

theorem put_of_lookup_none (h : es.lookup k = none) : es.put k v = es ++ [(k, v)] := by
  induction es with
  | nil => rfl
  | cons e es ih =>
    rw [List.lookup_cons] at h
    split at h
    next => cases h
    next hne =>
      have hk : e.1 ≠ k := fun he => by simp [he] at hne
      rw [put, if_neg hk, ih h, List.cons_append]

variable (own : Key → Bool)

theorem filter_put_of_not (h : own k = false) :
    (es.put k v).filter (own ·.1) = es.filter (own ·.1) := by
  induction es with
  | nil => simp [put, h]
  | cons e es ih =>
    rw [put]
    split
    next he =>
      subst he
      simp [h]
    next => rw [List.filter_cons, List.filter_cons, ih]

theorem filter_put (h : own k = true) :
    (es.put k v).filter (own ·.1) = put k v (es.filter (own ·.1)) := by
  induction es with
  | nil => simp [put, h]
  | cons e es ih =>
    rw [put]
    split
    next he =>
      subst he
      simp [h, put]
    next he =>
      rw [List.filter_cons, List.filter_cons, ih]
      split
      · rw [put, if_neg he]
      · rfl

theorem lookup_filter (h : own k = true) : (es.filter (own ·.1)).lookup k = es.lookup k := by
  induction es with
  | nil => rfl
  | cons e es ih =>
    rw [List.filter_cons]
    by_cases he : k = e.1
    · subst he
      rw [if_pos h, List.lookup_cons, List.lookup_cons, beq_self_eq_true]
    · rw [List.lookup_cons, beq_false_of_ne he]
      split
      · rw [List.lookup_cons, beq_false_of_ne he]
        exact ih
      · exact ih

theorem lookup_eq_none {rest : Entries} {e : Key × Node}
    (h : ((es ++ [e] ++ rest).map Prod.fst).Nodup) : es.lookup e.1 = none := by
  rw [List.append_assoc, List.map_append, List.nodup_append] at h
  rw [List.lookup_eq_none_iff]
  intro e' he'
  have hne := h.2.2 e'.1 (List.mem_map_of_mem he') e.1 (by simp)
  exact bne_iff_ne.mpr hne.symm

theorem lookup_eq_some_iff (h : (es.map Prod.fst).Nodup) : es.lookup k = some v ↔ (k, v) ∈ es := by
  induction es with
  | nil => simp
  | cons e es ih =>
    obtain ⟨hhead, htail⟩ := List.nodup_cons.mp h
    rw [List.lookup_cons, List.mem_cons]
    by_cases hk : k = e.1
    · subst hk
      have hnot : (e.1, v) ∉ es := fun he => hhead (List.mem_map.mpr ⟨_, he, rfl⟩)
      simp [hnot, Prod.ext_iff, eq_comm]
    · rw [beq_false_of_ne hk]
      simp [ih htail, Prod.ext_iff, hk]

theorem lookup_perm {es' : Entries} (h : es.Perm es') (hkeys : (es.map Prod.fst).Nodup) (k : Key) :
    es.lookup k = es'.lookup k := by
  have hkeys' : (es'.map Prod.fst).Nodup := (h.map Prod.fst).nodup_iff.mp hkeys
  ext v
  rw [lookup_eq_some_iff hkeys, lookup_eq_some_iff hkeys', h.mem_iff]

end Entries

end Entries

def ActsAt (k : Key) (change : Node → Option Node) : Prop :=
  ∀ es es' : Entries, es.lookup k = es'.lookup k → ∃ value : Option Node,
    (change (.table .written es) = value.map fun n => .table .written (es.put k n)) ∧
      change (.table .written es') = value.map fun n => .table .written (es'.put k n)

section ActsAt

variable (k : Key) (v : Node)

theorem actsAt_assign : ActsAt k (Node.assign false k v) := by
  intro es es' h
  cases h' : es'.lookup k with
  | none =>
    rw [h'] at h
    refine ⟨some v, ?_, ?_⟩
    · simp [Node.assign, h, Entries.put_of_lookup_none h]
    · simp [Node.assign, h', Entries.put_of_lookup_none h']
  | some n =>
    rw [h'] at h
    exact ⟨none, by simp [Node.assign, h], by simp [Node.assign, h']⟩

theorem actsAt_atPath (dotted : Bool) (change : Node → Option Node) (path : List Key) :
    ActsAt k (Node.atPath dotted change (k :: path)) := by
  intro es es' h
  rw [Node.atPath, Node.atPath, h]
  exact ⟨_, rfl, rfl⟩

theorem actsAt_insert (path : List Key) : ActsAt (path.headD k) (Node.insert path k v) := by
  cases path with
  | nil => exact actsAt_assign k v
  | cons k' path => exact actsAt_atPath k' true _ path

theorem actsAt_openTable : ActsAt k (Node.openTable k) := by
  intro es es' h
  rw [Node.openTable, Node.openTable, h]
  rcases es'.lookup k with _ | n
  · exact ⟨some (.table .written []), rfl, rfl⟩
  · cases n with
    | table o sub =>
      cases o with
      | implied => exact ⟨some (.table .written sub), rfl, rfl⟩
      | written | dotted | inline => exact ⟨none, rfl, rfl⟩
    | scalar | array | tables => exact ⟨none, rfl, rfl⟩

theorem actsAt_openTables : ActsAt k (Node.openTables k) := by
  intro es es' h
  rw [Node.openTables, Node.openTables, h]
  rcases es'.lookup k with _ | n
  · exact ⟨some (.tables [.table .written []]), rfl, rfl⟩
  · cases n with
    | tables items => exact ⟨some (.tables (items ++ [.table .written []])), rfl, rfl⟩
    | scalar | array | table => exact ⟨none, rfl, rfl⟩

theorem actsAt_change {change : Node → Option Node} (h : ActsAt k change) (path : List Key) :
    ActsAt (path.headD k) (Node.atPath false change path) := by
  cases path with
  | nil => exact h
  | cons k' path => exact actsAt_atPath k' false change path

end ActsAt

namespace Statement

def opened? : Statement → Option Key
  | assign .. => none
  | header path key | repeatedHeader path key => some (path.headD key)

end Statement

namespace Draft

variable {own : Key → Bool} {current : List Key} {st : Statement}

def aim (current : List Key) : Statement → Key
  | .assign path key _ => current.headD (path.headD key)
  | .header path key | .repeatedHeader path key => path.headD key

def next (current : List Key) : Statement → List Key
  | .assign .. => current
  | .header path key | .repeatedHeader path key => path ++ [key]

theorem actsAt_add (current : List Key) (st : Statement) :
    ∃ change, ActsAt (aim current st) change ∧
      ∀ root, add ⟨root, current⟩ st = (change root).map (⟨·, next current st⟩) := by
  cases st with
  | assign path key value =>
    exact ⟨_, actsAt_change _ (actsAt_insert key value path) current, fun _ => rfl⟩
  | header path key => exact ⟨_, actsAt_change _ (actsAt_openTable key) path, fun _ => rfl⟩
  | repeatedHeader path key => exact ⟨_, actsAt_change _ (actsAt_openTables key) path, fun _ => rfl⟩

def Outside (own : Key → Bool) (path : List Key) : Prop := ∃ k ∈ path.head?, own k = false

theorem outside_next (h : Outside own current ∨ st.opened?.isSome = true)
    (hst : ∀ k ∈ st.opened?, own k = false) :
    own (aim current st) = false ∧ Outside own (next current st) := by
  cases st with
  | assign path key value =>
    obtain ⟨k, hk, hown⟩ := h.resolve_right (by simp [Statement.opened?])
    obtain ⟨rest, rfl⟩ := List.head?_eq_some_iff.mp hk
    exact ⟨hown, k, hk, hown⟩
  | header path key | repeatedHeader path key =>
    have hown := hst _ rfl
    refine ⟨hown, _, ?_, hown⟩
    cases path <;> rfl

end Draft

section Dotted

variable (path : List Key) (k : Key) (v : Node)

def dotted : List Key → Key → Node → Key × Node
  | [], k, v => (k, v)
  | p :: path, k, v => (p, .table .dotted [dotted path k v])

theorem dotted_fst : (dotted path k v).1 = path.headD k := by
  cases path <;> rfl

theorem atPath_wayside : Node.atPath true (Node.assign true k v) path (Node.wayside true) =
    some (.table .dotted [dotted path k v]) := by
  induction path with
  | nil => rfl
  | cons p path ih =>
    have hempty (q : Key) : ([] : Entries).lookup q = none := rfl
    rw [Node.wayside, if_pos rfl, Node.atPath, hempty]
    simp only [ih]
    rfl

variable {path k} in
theorem insert_of_lookup_none {es : Entries} (h : es.lookup (path.headD k) = none) :
    Node.insert path k v (.table .written es) =
      some (.table .written (es ++ [dotted path k v])) := by
  cases path with
  | nil =>
    have hnew : es.lookup k = none := h
    simp [Node.insert, Node.atPath, Node.assign, hnew, dotted]
  | cons p path =>
    have hnew : es.lookup p = none := h
    rw [Node.insert, Node.atPath, hnew]
    simp only [List.isEmpty_cons, Bool.not_false, atPath_wayside, Option.map_some,
      Entries.put_of_lookup_none hnew]
    rfl

end Dotted

section Beside

variable (own : Key → Bool)

def assigned : List Statement → Entries
  | .assign path k v :: ss =>
    if own (path.headD k) then dotted path k v :: assigned ss else assigned ss
  | _ => []

def left : List Statement → List Statement
  | .assign path k v :: ss =>
    if own (path.headD k) then left ss else .assign path k v :: left ss
  | ss => ss

def Foreign (ss : List Statement) : Prop := ∀ st ∈ ss, ∀ k ∈ st.opened?, own k = false

instance (ss : List Statement) : Decidable (Foreign own ss) :=
  inferInstanceAs (Decidable (∀ st ∈ ss, ∀ k ∈ st.opened?, own k = false))

/-- A draft, the same draft without the own keys, and what these have. -/
def Beside (current : List Key) (whole rest : Draft) (mine : Entries) : Prop :=
  ∃ es : Entries, whole = ⟨.table .written es, current⟩ ∧
    rest = ⟨.table .written (es.filter (!own ·.1)), current⟩ ∧ es.filter (own ·.1) = mine

variable {own} {d r r' : Draft} {current : List Key} {mine : Entries} {st : Statement}
variable {ss : List Statement}

theorem own_of_mem_assigned {e : Key × Node} (he : e ∈ assigned own ss) : own e.1 = true := by
  induction ss with
  | nil => cases he
  | cons st ss ih =>
    cases st with
    | assign path k v =>
      rw [assigned] at he
      split at he
      next hown =>
        rcases List.mem_cons.mp he with rfl | he
        · rw [dotted_fst, hown]
        · exact ih he
      next => exact ih he
    | header | repeatedHeader => cases he

theorem Beside.add (h : Beside own current d r mine) (haim : own (Draft.aim current st) = false)
    (hr : r.add st = some r') :
    ∃ d', d.add st = some d' ∧ Beside own (Draft.next current st) d' r' mine := by
  obtain ⟨es, rfl, rfl, rfl⟩ := h
  obtain ⟨change, hacts, hadd⟩ := Draft.actsAt_add current st
  have hother : (!own (Draft.aim current st)) = true := by rw [haim]; rfl
  obtain ⟨value, hrest, hwhole⟩ := hacts _ es (Entries.lookup_filter (fun k => !own k) hother)
  rw [hadd, hrest] at hr
  rw [hadd, hwhole]
  obtain ⟨rest, hvalue, rfl⟩ := Option.map_eq_some_iff.mp hr
  obtain ⟨n, rfl, rfl⟩ := Option.map_eq_some_iff.mp hvalue
  refine ⟨_, rfl, _, rfl, ?_, ?_⟩
  · rw [Entries.filter_put (fun k => !own k) hother]
  · rw [Entries.filter_put_of_not own haim]

theorem Beside.assign {path : List Key} {k : Key} (h : Beside own [] d r mine)
    (hown : own (path.headD k) = true) (hnew : mine.lookup (path.headD k) = none) (v : Node) :
    ∃ d', d.add (.assign path k v) = some d' ∧ Beside own [] d' r (mine ++ [dotted path k v]) := by
  obtain ⟨es, rfl, rfl, rfl⟩ := h
  rw [Entries.lookup_filter own hown] at hnew
  have hkey := dotted_fst path k v
  refine ⟨⟨.table .written (es ++ [dotted path k v]), []⟩, ?_, _, rfl, ?_, ?_⟩
  · rw [Draft.add, Node.atPath, insert_of_lookup_none v hnew, Option.map_some]
  · rw [List.filter_append, List.filter_singleton, hkey, hown]
    simp
  · rw [List.filter_append, List.filter_singleton, hkey, hown]
    rfl

theorem Beside.outside (h : Beside own current d r mine)
    (hout : Draft.Outside own current ∨ ∀ st ∈ ss.head?, st.opened?.isSome = true)
    (hss : Foreign own ss) (hr : ss.foldlM Draft.add r = some r') :
    ∃ d' current', ss.foldlM Draft.add d = some d' ∧ Beside own current' d' r' mine := by
  -- Once a header stands in front, all that follows is about other keys.
  induction ss generalizing d r current with
  | nil =>
    cases hr
    exact ⟨d, current, rfl, h⟩
  | cons st ss ih =>
    rw [List.foldlM_cons] at hr ⊢
    obtain ⟨r₁, hr₁, hr⟩ := Option.bind_eq_some_iff.mp hr
    obtain ⟨haim, hnext⟩ :=
      Draft.outside_next (hout.imp_right fun h => h st rfl) (hss st List.mem_cons_self)
    obtain ⟨d₁, hd₁, h₁⟩ := h.add haim hr₁
    rw [hd₁]
    exact ih h₁ (.inl hnext) (fun x hx => hss x (List.mem_cons_of_mem st hx)) hr

theorem Beside.top (h : Beside own [] d r mine) (hss : Foreign own ss)
    (hkeys : ((mine ++ assigned own ss).map Prod.fst).Nodup)
    (hr : (left own ss).foldlM Draft.add r = some r') :
    ∃ d' current', ss.foldlM Draft.add d = some d' ∧
      Beside own current' d' r' (mine ++ assigned own ss) := by
  induction ss generalizing d r mine with
  | nil =>
    cases hr
    rw [show assigned own [] = [] from rfl, List.append_nil]
    exact ⟨d, [], rfl, h⟩
  | cons st ss ih =>
    have htail : Foreign own ss := fun x hx => hss x (List.mem_cons_of_mem st hx)
    cases st with
    | assign path k v =>
      rw [assigned] at hkeys ⊢
      rw [left] at hr
      rw [List.foldlM_cons]
      by_cases hown : own (path.headD k) = true
      · rw [if_pos hown] at hkeys hr ⊢
        rw [List.append_cons] at hkeys ⊢
        have hnew := Entries.lookup_eq_none hkeys
        rw [dotted_fst] at hnew
        obtain ⟨d₁, hd₁, h₁⟩ := h.assign hown hnew v
        rw [hd₁]
        exact ih h₁ htail hkeys hr
      · rw [if_neg hown] at hkeys hr ⊢
        rw [List.foldlM_cons] at hr
        obtain ⟨r₁, hr₁, hr⟩ := Option.bind_eq_some_iff.mp hr
        have haim : own (Draft.aim [] (.assign path k v)) = false := Bool.eq_false_iff.mpr hown
        obtain ⟨d₁, hd₁, h₁⟩ := h.add haim hr₁
        rw [hd₁]
        exact ih h₁ htail hkeys hr
    | header path k | repeatedHeader path k =>
      change ∃ d' current', _ ∧ Beside own current' d' r' (mine ++ [])
      rw [List.append_nil]
      exact h.outside (.inr (by simp [Statement.opened?])) hss hr

theorem ofStatements?_of_left (hss : Foreign own ss)
    (hkeys : ((assigned own ss).map Prod.fst).Nodup)
    (hleft : (Node.ofStatements? (left own ss)).isSome = true) :
    ∃ es : Entries, Node.ofStatements? ss = some (.table .written es) ∧
      es.filter (own ·.1) = assigned own ss := by
  obtain ⟨n, hn⟩ := Option.isSome_iff_exists.mp hleft
  obtain ⟨r', hr, -⟩ := Option.map_eq_some_iff.mp hn
  have hempty : Beside own [] .empty .empty [] := ⟨[], rfl, rfl, rfl⟩
  obtain ⟨d', current, hd', es, rfl, -, hmine⟩ := hempty.top hss hkeys hr
  refine ⟨es, ?_, hmine⟩
  rw [Node.ofStatements?, hd', Option.map_some]

end Beside

end Headway.Toml
