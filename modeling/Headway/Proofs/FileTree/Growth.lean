import Mathlib.Data.Nat.Notation
import Mathlib.Tactic.SplitIfs
import Headway.FileTree

namespace Headway.FileTree

variable {t t' t'' : FileTree} {here p q log : Path} {parts : Path} {path : String}

section Place

def follow (here : Path) : Path → Path
  | [] => here
  | part :: rest =>
    if part = [] ∨ part = ['.'] then follow here rest
    else if part = ['.', '.'] then follow here.dropLast rest
    else follow (here ++ [part]) rest

def start (t : FileTree) : List Char → Path × Path
  | '/' :: rest => ([], split rest)
  | cs => (t.workingDirectory, split cs)

def resolve (t : FileTree) (path : String) : Path :=
  follow (t.start path.toList).1 (t.start path.toList).2

theorem walk_eq_follow (h : t.walk here parts = .ok p) : p = follow here parts := by
  induction parts generalizing here with
  | nil =>
    cases h
    rfl
  | cons part rest ih =>
    rw [walk] at h
    split at h
    · rw [follow]
      split_ifs at h ⊢ <;> exact ih h
    · cases h
    · cases h

theorem start_of_ne {c : Char} (h : c ≠ '/') (t : FileTree) (cs : List Char) :
    t.start (c :: cs) = (t.workingDirectory, split (c :: cs)) := by
  rw [start]
  rintro rest he
  exact h (List.cons.inj he).1

theorem origin_eq (t : FileTree) (path : String) :
    t.origin path = if longestPath < bytes path.toList then .error .nameTooLong
      else .ok (t.start path.toList) := by
  unfold origin
  generalize path.toList = cs
  cases cs with
  | nil => rfl
  | cons c cs =>
    by_cases hc : c = '/'
    · subst hc
      rfl
    · rw [start_of_ne hc]
      congr 1
      split
      next he => exact absurd (List.cons.inj he).1 hc
      next => rfl

theorem follow_of_origin (h : t.origin path = .ok (here, parts)) :
    follow here parts = t.resolve path := by
  rw [origin_eq] at h
  split_ifs at h
  rw [resolve, Except.ok.inj h]

theorem place_eq_resolve (h : t.place path = .ok p) : p = t.resolve path := by
  rw [place] at h
  split at h
  next => cases h
  next ho =>
    rw [← follow_of_origin ho]
    exact walk_eq_follow h

theorem start_congr (h : t'.workingDirectory = t.workingDirectory) : t'.start = t.start := by
  unfold start
  rw [h]

theorem read_eq_ok_iff {s : String} :
    t.read path = .ok s ↔ ∃ p, t.place path = .ok p ∧ t.get p = some (.text s) := by
  rw [read]
  cases hp : t.place path with
  | error e => simp
  | ok p =>
    simp only [Except.ok.injEq, exists_eq_left']
    cases t.get p with
    | none => simp
    | some e => cases e <;> simp

end Place

section Grows

/-- All that stood in the old tree stands in the new one, but for the text at one place. -/
structure Grows (log : Path) (t t' : FileTree) : Prop where
  workingDirectory : t'.workingDirectory = t.workingDirectory
  kept : ∀ p e, t.get p = some e → p ≠ log ∨ e = .directory → t'.get p = some e

theorem grows_refl (log : Path) (t : FileTree) : Grows log t t := ⟨rfl, fun _ _ h _ => h⟩

theorem Grows.trans (h : Grows log t t') (h' : Grows log t' t'') : Grows log t t'' := by
  refine ⟨h'.workingDirectory.trans h.workingDirectory, ?_⟩
  intro p e he hp
  exact h'.kept p e (h.kept p e he hp) hp

theorem Grows.directory (h : Grows log t t') (hp : t.get p = some .directory) :
    t'.get p = some .directory := h.kept p _ hp (.inr rfl)

theorem Grows.walk (h : Grows log t t') (hw : t.walk here parts = .ok p) :
    t'.walk here parts = .ok p := by
  induction parts generalizing here with
  | nil => exact hw
  | cons part rest ih =>
    rw [FileTree.walk] at hw ⊢
    split at hw
    next hd =>
      rw [h.directory hd]
      simp only
      split_ifs at hw ⊢ <;> exact ih hw
    next => cases hw
    next => cases hw

theorem Grows.origin (h : Grows log t t') (path : String) : t'.origin path = t.origin path := by
  rw [origin_eq, origin_eq, start_congr h.workingDirectory]

theorem Grows.resolve (h : Grows log t t') (path : String) : t'.resolve path = t.resolve path := by
  rw [FileTree.resolve, FileTree.resolve, start_congr h.workingDirectory]

theorem Grows.place (h : Grows log t t') (hp : t.place path = .ok p) : t'.place path = .ok p := by
  rw [FileTree.place] at hp ⊢
  rw [h.origin]
  split at hp
  next => cases hp
  next ho => exact h.walk hp

theorem Grows.read (h : Grows log t t') {s : String} (hs : t.read path = .ok s)
    (hne : t.resolve path ≠ log) : t'.read path = .ok s := by
  obtain ⟨p, hp, hs⟩ := read_eq_ok_iff.mp hs
  obtain rfl := place_eq_resolve hp
  exact read_eq_ok_iff.mpr ⟨_, h.place hp, h.kept _ _ hs (.inl hne)⟩

def NewOnly (log : Path) (t t' : FileTree) : Prop :=
  ∀ p e, t'.get p = some e → t.get p = some e ∨ e = .directory ∨ p = log

theorem newOnly_refl (log : Path) (t : FileTree) : NewOnly log t t := fun _ _ h => .inl h

theorem NewOnly.trans (h : NewOnly log t t') (h' : NewOnly log t' t'') : NewOnly log t t'' := by
  intro p e he
  rcases h' p e he with he | he
  · exact h p e he
  · exact .inr he

theorem grows_put (hne : t.get p = none) (e : Entry) (log : Path) : Grows log t (t.put p e) := by
  refine ⟨rfl, ?_⟩
  intro q x hx _
  rw [get_put_of_ne _ t e]
  · exact hx
  · rintro rfl
    rw [hne] at hx
    cases hx

theorem newOnly_put (t : FileTree) (e : Entry) : NewOnly p t (t.put p e) := by
  intro q x hx
  by_cases hq : q = p
  · exact .inr (.inr hq)
  · rw [get_put_of_ne hq] at hx
    exact .inl hx

end Grows

section MakeDirectories

theorem grows_makeAlong (log : Path) (t : FileTree) (here parts : Path) :
    Grows log t (t.makeAlong here parts).1 ∧ NewOnly log t (t.makeAlong here parts).1 := by
  have hstill : Grows log t t ∧ NewOnly log t t := ⟨grows_refl log t, newOnly_refl log t⟩
  induction parts generalizing t here with
  | nil => exact hstill
  | cons part rest ih =>
    unfold makeAlong
    simp only
    split
    · exact ih t here hstill
    · split
      · exact ih t here.dropLast hstill
      · split
        · exact hstill
        · split
          next => exact ih t (here ++ [part]) hstill
          next => exact hstill
          next hnone =>
            have hput : Grows log t (t.put (here ++ [part]) .directory) ∧
                NewOnly log t (t.put (here ++ [part]) .directory) := by
              refine ⟨grows_put hnone _ log, ?_⟩
              intro q x hx
              by_cases hq : q = here ++ [part]
              · rw [hq, get_put (by simp)] at hx
                exact .inr (.inl (Option.some.inj hx).symm)
              · rw [get_put_of_ne hq] at hx
                exact .inl hx
            obtain ⟨hgrows, hnew⟩ := ih (t.put (here ++ [part]) .directory) (here ++ [part])
              ⟨grows_refl log _, newOnly_refl log _⟩
            exact ⟨hput.1.trans hgrows, hput.2.trans hnew⟩

theorem grows_makeDirectories (log : Path) (t : FileTree) (path : String) :
    Grows log t (t.makeDirectories path).1 ∧ NewOnly log t (t.makeDirectories path).1 := by
  rw [makeDirectories]
  split
  · exact ⟨grows_refl log t, newOnly_refl log t⟩
  · exact grows_makeAlong log t _ _

end MakeDirectories

section Change

theorem change_cases (t : FileTree) (path : String) (f : Entry → Entry) :
    (∃ e, t.change path f = (t, .error e)) ∨
      t.place path = .ok (t.resolve path) ∧
        ((∃ e, t.get (t.resolve path) = some e ∧ e ≠ .directory ∧
            t.change path f = (t.put (t.resolve path) (f e), .ok ())) ∨
          t.get (t.resolve path) = none ∧
            t.change path f = (t.put (t.resolve path) (f (.text "")), .ok ())) := by
  rw [change]
  cases hp : t.place path with
  | error e => exact .inl ⟨e, rfl⟩
  | ok p =>
    obtain rfl := place_eq_resolve hp
    simp only
    cases hget : t.get (t.resolve path) with
    | none =>
      by_cases hd : t.get (t.resolve path).dropLast = some .directory
      · exact .inr ⟨trivial, .inr ⟨rfl, if_pos hd⟩⟩
      · exact .inl ⟨_, if_neg hd⟩
    | some e =>
      cases e with
      | directory => exact .inl ⟨_, rfl⟩
      | text s => exact .inr ⟨trivial, .inl ⟨_, rfl, by simp, rfl⟩⟩
      | binary => exact .inr ⟨trivial, .inl ⟨_, rfl, by simp, rfl⟩⟩

theorem grows_change (t : FileTree) (path : String) (f : Entry → Entry) :
    Grows (t.resolve path) t (t.change path f).1 ∧
      NewOnly (t.resolve path) t (t.change path f).1 := by
  obtain ⟨e, h⟩ | ⟨-, ⟨e, he, hne, h⟩ | ⟨hnone, h⟩⟩ := change_cases t path f
  · rw [h]
    exact ⟨grows_refl _ t, newOnly_refl _ t⟩
  · rw [h]
    refine ⟨⟨rfl, ?_⟩, newOnly_put t _⟩
    intro q x hx hq
    have hqp : q ≠ t.resolve path := by
      rcases hq with hq | rfl
      · exact hq
      · rintro rfl
        rw [he] at hx
        exact hne (Option.some.inj hx)
    rw [get_put_of_ne hqp]
    exact hx
  · rw [h]
    exact ⟨grows_put hnone _ _, newOnly_put t _⟩

theorem grows_append (t : FileTree) (path s : String) :
    Grows (t.resolve path) t (t.append path s).1 ∧ NewOnly (t.resolve path) t (t.append path s).1 :=
  grows_change t path _

def Absent (t : FileTree) (path : String) : Prop :=
  t.read path = .error .missing ∨ t.read path = .error .nameTooLong

theorem get_of_absent (h : t.Absent path) (hp : t.place path = .ok p) : t.get p = none := by
  rw [Absent, read, hp] at h
  simp only at h
  cases hget : t.get p with
  | none => rfl
  | some e =>
    rw [hget] at h
    cases e <;> simp at h

theorem write_of_absent (h : t.Absent path) (s : String) :
    (∃ e, t.write path s = (t, .error e)) ∨
      t.place path = .ok (t.resolve path) ∧ t.get (t.resolve path) = none ∧
        t.write path s = (t.put (t.resolve path) (.text s), .ok ()) := by
  obtain ⟨e, hw⟩ | ⟨hp, ⟨e, he, -, -⟩ | ⟨hnone, hw⟩⟩ := change_cases t path fun _ => .text s
  · exact .inl ⟨e, hw⟩
  · rw [get_of_absent h hp] at he
    cases he
  · exact .inr ⟨hp, hnone, hw⟩

theorem ne_nil_of_get (h : t.get p = none) : p ≠ [] := by
  rintro rfl
  cases h

theorem read_put (hp : t.place path = .ok p) (hnone : t.get p = none) (s : String) :
    (t.put p (.text s)).read path = .ok s := by
  apply read_eq_ok_iff.mpr
  refine ⟨p, (grows_put hnone _ p).place hp, ?_⟩
  exact get_put (ne_nil_of_get hnone) t _

end Change

section Parent

variable {dir name : String}

theorem walk_append (t : FileTree) (here first rest : Path) :
    t.walk here (first ++ rest) =
      match t.walk here first with
      | .ok p => t.walk p rest
      | .error e => .error e := by
  induction first generalizing here with
  | nil => rfl
  | cons part first ih =>
    rw [List.cons_append, walk, walk]
    cases t.get here with
    | none => rfl
    | some e =>
      cases e with
      | text s => rfl
      | binary => rfl
      | directory =>
        simp only
        split_ifs <;> first | exact ih _ | rfl

theorem get_of_walk (h : t.walk here parts = .ok p) (hp : t.get p = some .directory) :
    t.get here = some .directory := by
  cases parts with
  | nil =>
    cases h
    exact hp
  | cons part rest =>
    rw [walk] at h
    split at h
    next hd => exact hd
    next => cases h
    next => cases h

theorem makeAlong_of_walk (h : t.walk here parts = .ok p) (hp : t.get p = some .directory) :
    t.makeAlong here parts = (t, .ok ()) := by
  induction parts generalizing here with
  | nil => rfl
  | cons part rest ih =>
    have hd := get_of_walk h hp
    rw [walk, hd] at h
    simp only at h
    unfold makeAlong
    by_cases hstay : part = [] ∨ part = ['.']
    · rw [if_pos hstay] at h ⊢
      exact ih h
    · rw [if_neg hstay] at h ⊢
      by_cases hup : part = ['.', '.']
      · rw [if_pos hup] at h ⊢
        exact ih h
      · rw [if_neg hup] at h ⊢
        by_cases hlong : longestPart < bytes part
        · rw [if_pos hlong] at h
          cases h
        · rw [if_neg hlong] at h ⊢
          simp only [get_of_walk h hp]
          exact ih h

theorem split_ne_nil (cs : List Char) : split cs ≠ [] := by
  cases cs with
  | nil => exact List.cons_ne_nil _ _
  | cons c cs =>
    rw [split]
    split_ifs
    · exact List.cons_ne_nil _ _
    · split <;> exact List.cons_ne_nil _ _

theorem split_append (cs ds : List Char) : split (cs ++ '/' :: ds) = split cs ++ split ds := by
  induction cs with
  | nil => rfl
  | cons c cs ih =>
    rw [List.cons_append, split, split, ih]
    split_ifs
    · rfl
    · cases hcs : split cs with
      | nil => exact absurd hcs (split_ne_nil cs)
      | cons part parts => rfl

theorem follow_append (here first rest : Path) :
    follow here (first ++ rest) = follow (follow here first) rest := by
  induction first generalizing here with
  | nil => rfl
  | cons part first ih =>
    rw [List.cons_append, follow, follow]
    split_ifs <;> exact ih _

theorem start_append {cs : List Char} (h : cs ≠ []) (t : FileTree) (ds : List Char) :
    t.start (cs ++ '/' :: ds) = ((t.start cs).1, (t.start cs).2 ++ split ds) := by
  obtain ⟨c, rest, rfl⟩ := List.exists_cons_of_ne_nil h
  by_cases hc : c = '/'
  · subst hc
    exact congrArg (Prod.mk []) (split_append rest ds)
  · rw [start_of_ne hc, List.cons_append, start_of_ne hc, ← List.cons_append, split_append]

theorem toList_in_directory (dir name : String) :
    (dir ++ "/" ++ name).toList = dir.toList ++ '/' :: name.toList := by
  simp [String.toList_append]

theorem resolve_append (t : FileTree) (hdir : dir.toList ≠ [])
    (hname : split name.toList = [name.toList]) :
    t.resolve (dir ++ "/" ++ name) = follow (t.resolve dir) [name.toList] := by
  rw [resolve, resolve, toList_in_directory, start_append hdir, hname, follow_append]

theorem bytes_append (cs ds : List Char) : bytes (cs ++ ds) = bytes cs + bytes ds := by
  have hadd (n : ℕ) (cs : List Char) :
      cs.foldl (fun n c => n + c.utf8Size) n = n + bytes cs := by
    induction cs generalizing n with
    | nil => rfl
    | cons c cs ih =>
      rw [bytes, List.foldl_cons, List.foldl_cons, ih, ih (0 + c.utf8Size)]
      omega
  rw [bytes, List.foldl_append, hadd]
  rfl

theorem makeDirectories_of_read {s : String} (hdir : dir.toList ≠ [])
    (hname : split name.toList = [name.toList]) (h : t.read (dir ++ "/" ++ name) = .ok s) :
    t.makeDirectories dir = (t, .ok ()) := by
  obtain ⟨p, hp, -⟩ := read_eq_ok_iff.mp h
  rw [place, origin_eq, toList_in_directory, start_append hdir, hname] at hp
  split_ifs at hp with hlong
  have hshort : ¬longestPath < bytes dir.toList := by
    rw [bytes_append] at hlong
    omega
  rw [makeDirectories, origin_eq, if_neg hshort]
  simp only at hp ⊢
  rw [walk_append] at hp
  cases hw : t.walk (t.start dir.toList).1 (t.start dir.toList).2 with
  | error e =>
    rw [hw] at hp
    cases hp
  | ok q =>
    rw [hw] at hp
    apply makeAlong_of_walk hw
    simp only [walk] at hp
    split at hp
    next hd => exact hd
    next => cases hp
    next => cases hp

end Parent

end Headway.FileTree
