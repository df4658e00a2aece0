import Jco.Filesystem.FullPath

/-! # The host filesystem

A directory tree with symbolic links, and what a POSIX host makes of a path: it
walks component by component, and where it meets a link it goes on with the
link's target in front of what is left. A host stops after a number of links;
`Reaches` is the walk without that bound.
-/

namespace Jco.Filesystem

open Jco.Lib List

/-- A directory tree. -/
inductive Tree where
  | file
  | link (target : Path)
  | dir (entries : List (Path × Tree))

/-- What `lstat` tells of an entry, with the target `readlink` reads. -/
inductive Kind where
  | file
  | link (target : Path)
  | dir
deriving DecidableEq, Repr

def Tree.kind : Tree → Kind
  | file => .file
  | link target => .link target
  | dir _ => .dir

/-- A place in the tree: the names on the way down from the root. -/
abbrev Location := List Path

/-- The entry at a place. No link is followed. -/
def Tree.at : Tree → Location → Option Tree
  | t, [] => some t
  | dir entries, name :: loc => (entries.lookup name).bind fun t => t.at loc
  | _, _ :: _ => none

/-- A host: the entries of its root, the working directory of the process, and
how many links it follows. -/
structure Host where
  entries : List (Path × Tree)
  cwd : Location
  /-- The working directory is given by names. -/
  names : ∀ name ∈ cwd, move name = some (.enter name)
  limit : Nat

namespace Host

def node (host : Host) (loc : Location) : Option Kind :=
  ((Tree.dir host.entries).at loc).map Tree.kind

@[simp] theorem node_root (host : Host) : host.node [] = some .dir := rfl

/-- Only directories have entries. -/
theorem at_concat {t u : Tree} {loc : Location} {name : Path} (h : t.at (loc ++ [name]) = some u) :
    ∃ entries, t.at loc = some (.dir entries) := by
  induction loc generalizing t with
  | nil =>
    cases t with
    | dir entries => exact ⟨entries, rfl⟩
    | file => cases h
    | link target => cases h
  | cons first loc ih =>
    cases t with
    | file => cases h
    | link target => cases h
    | dir entries =>
      obtain ⟨child, hchild, hat⟩ := Option.bind_eq_some_iff.mp h
      obtain ⟨inner, hinner⟩ := ih hat
      exact ⟨inner, Option.bind_eq_some_iff.mpr ⟨child, hchild, hinner⟩⟩

theorem node_concat {host : Host} {loc : Location} {name : Path} {kind : Kind}
    (h : host.node (loc ++ [name]) = some kind) : host.node loc = some .dir := by
  obtain ⟨t, hat, -⟩ := Option.map_eq_some_iff.mp h
  obtain ⟨entries, hdir⟩ := at_concat hat
  simp [node, hdir, Tree.kind]

end Host

/-- The errors of a path walk. -/
inductive Errno where
  | noent
  | notdir
  | loop
deriving DecidableEq, Repr

/-- Where the walk of a link's target starts. -/
def startOf (dir : Location) (target : Path) : Location :=
  if target.head? = some '/' then [] else dir

/-- The walk between two links. It ends at the place the parts name, whether
something is there or not. `onLink` goes on after a link. -/
def walkParts (host : Host) (follow : Bool) (onLink : Location → List Path → Except Errno Location) :
    Location → List Path → Except Errno Location
  | loc, [] => .ok loc
  | loc, part :: rest =>
    match host.node loc with
    | none => .error .noent
    | some .file => .error .notdir
    | some (.link _) => .error .notdir
    | some .dir =>
      match move part with
      | none => walkParts host follow onLink loc rest
      | some .up => walkParts host follow onLink loc.dropLast rest
      | some (.enter name) =>
        match host.node (loc ++ [name]) with
        | some (.link target) =>
          -- the last link of a path is followed or not, any other is followed
          if rest = [] ∧ follow = false then .ok (loc ++ [name])
          else onLink (startOf loc target) (target.splitOn '/' ++ rest)
        | _ => walkParts host follow onLink (loc ++ [name]) rest

/-- The walk of a path that may follow `limit` links. -/
def resolveParts (host : Host) (follow : Bool) : Nat → Location → List Path → Except Errno Location
  | 0 => walkParts host follow fun _ _ => .error .loop
  | limit + 1 => walkParts host follow (resolveParts host follow limit)

theorem resolveParts_skip {host : Host} {follow : Bool} {loc : Location} {part : Path}
    {rest : List Path} (limit : Nat) (hdir : host.node loc = some .dir)
    (hpart : move part = none) :
    resolveParts host follow limit loc (part :: rest) = resolveParts host follow limit loc rest := by
  cases limit with
  | zero => simp [resolveParts, walkParts, hdir, hpart]
  | succ limit => simp [resolveParts, walkParts, hdir, hpart]

/-- `lstat` of an absolute path, with the target of a link. -/
def Host.lstat (host : Host) (path : Location) : Except Errno Kind :=
  match resolveParts host false host.limit [] path with
  | .error e => .error e
  | .ok place =>
    match host.node place with
    | none => .error .noent
    | some kind => .ok kind

/-- The walk of a path, however many links it takes. -/
inductive Reaches (host : Host) : Bool → Location → List Path → Location → Prop
  | here {follow : Bool} {loc : Location} : Reaches host follow loc [] loc
  | skip {follow : Bool} {loc place : Location} {part : Path} {rest : List Path}
      (hdir : host.node loc = some .dir) (hpart : move part = none)
      (hnext : Reaches host follow loc rest place) : Reaches host follow loc (part :: rest) place
  | up {follow : Bool} {loc place : Location} {part : Path} {rest : List Path}
      (hdir : host.node loc = some .dir) (hpart : move part = some .up)
      (hnext : Reaches host follow loc.dropLast rest place) :
      Reaches host follow loc (part :: rest) place
  | enter {follow : Bool} {loc place : Location} {part name : Path} {rest : List Path}
      (hdir : host.node loc = some .dir) (hpart : move part = some (.enter name))
      (hplain : ∀ target, host.node (loc ++ [name]) ≠ some (.link target))
      (hnext : Reaches host follow (loc ++ [name]) rest place) :
      Reaches host follow loc (part :: rest) place
  | link {follow : Bool} {loc place : Location} {part name target : Path} {rest : List Path}
      (hdir : host.node loc = some .dir) (hpart : move part = some (.enter name))
      (hlink : host.node (loc ++ [name]) = some (.link target))
      (hfollow : rest ≠ [] ∨ follow = true)
      (hnext : Reaches host follow (startOf loc target) (target.splitOn '/' ++ rest) place) :
      Reaches host follow loc (part :: rest) place
  | unfollowed {loc : Location} {part name target : Path}
      (hdir : host.node loc = some .dir) (hpart : move part = some (.enter name))
      (hlink : host.node (loc ++ [name]) = some (.link target)) :
      Reaches host false loc [part] (loc ++ [name])

/-! ## The bounded walk -/

section Bounded

variable {host : Host} {follow : Bool} {loc place : Location} {part name target : Path}
  {rest parts : List Path}

theorem resolveParts_up (limit : Nat) (hdir : host.node loc = some .dir)
    (hpart : move part = some .up) :
    resolveParts host follow limit loc (part :: rest) =
      resolveParts host follow limit loc.dropLast rest := by
  cases limit with
  | zero => simp [resolveParts, walkParts, hdir, hpart]
  | succ limit => simp [resolveParts, walkParts, hdir, hpart]

variable {onLink : Location → List Path → Except Errno Location}

theorem walkParts_enter
    (hdir : host.node loc = some .dir) (hpart : move part = some (.enter name))
    (hplain : ∀ target, host.node (loc ++ [name]) ≠ some (.link target)) :
    walkParts host follow onLink loc (part :: rest) =
      walkParts host follow onLink (loc ++ [name]) rest := by
  simp only [walkParts, hdir, hpart]

theorem resolveParts_enter (limit : Nat) (hdir : host.node loc = some .dir)
    (hpart : move part = some (.enter name))
    (hplain : ∀ target, host.node (loc ++ [name]) ≠ some (.link target)) :
    resolveParts host follow limit loc (part :: rest) =
      resolveParts host follow limit (loc ++ [name]) rest := by
  cases limit with
  | zero => exact walkParts_enter hdir hpart hplain
  | succ limit => exact walkParts_enter hdir hpart hplain

theorem walkParts_link
    (hdir : host.node loc = some .dir) (hpart : move part = some (.enter name))
    (hlink : host.node (loc ++ [name]) = some (.link target)) (hfollow : rest ≠ [] ∨ follow = true) :
    walkParts host follow onLink loc (part :: rest) =
      onLink (startOf loc target) (target.splitOn '/' ++ rest) := by
  have hcond : ¬ (rest = [] ∧ follow = false) := by
    rintro ⟨hrest, hfalse⟩
    rcases hfollow with hne | htrue
    · exact hne hrest
    · rw [htrue] at hfalse
      cases hfalse
  simp [walkParts, hdir, hpart, hlink, hcond]

theorem resolveParts_unfollowed (limit : Nat) (hdir : host.node loc = some .dir)
    (hpart : move part = some (.enter name))
    (hlink : host.node (loc ++ [name]) = some (.link target)) :
    resolveParts host false limit loc [part] = .ok (loc ++ [name]) := by
  cases limit with
  | zero => simp [resolveParts, walkParts, hdir, hpart, hlink]
  | succ limit => simp [resolveParts, walkParts, hdir, hpart, hlink]

theorem resolveParts_nil (limit : Nat) : resolveParts host follow limit loc [] = .ok loc := by
  cases limit with
  | zero => rfl
  | succ limit => rfl

theorem reaches_of_walkParts
    (hon : ∀ {loc parts place}, onLink loc parts = .ok place → Reaches host follow loc parts place)
    (h : walkParts host follow onLink loc parts = .ok place) :
    Reaches host follow loc parts place := by
  induction parts generalizing loc with
  | nil =>
    rw [walkParts, Except.ok.injEq] at h
    rw [h]
    exact .here
  | cons part rest ih =>
    rw [walkParts] at h
    split at h
    next => cases h
    next => cases h
    next => cases h
    next hdir =>
      split at h
      next hpart => exact .skip hdir hpart (ih h)
      next hpart => exact .up hdir hpart (ih h)
      next name hpart =>
        split at h
        next target hlink =>
          split at h
          next hlast =>
            obtain ⟨rfl, rfl⟩ := hlast
            rw [Except.ok.injEq] at h
            subst h
            exact .unfollowed hdir hpart hlink
          next hlast =>
            refine .link hdir hpart hlink ?_ (hon h)
            by_cases hrest : rest = []
            · exact Or.inr (by simpa [hrest] using hlast)
            · exact Or.inl hrest
        next hplain => exact .enter hdir hpart (fun target hlink => hplain target hlink) (ih h)

/-- What the bounded walk reaches, the walk reaches. -/
theorem reaches_of_resolveParts (limit : Nat)
    (h : resolveParts host follow limit loc parts = .ok place) :
    Reaches host follow loc parts place := by
  induction limit generalizing loc parts place with
  | zero => exact reaches_of_walkParts (fun hloop => by cases hloop) h
  | succ limit ih => exact reaches_of_walkParts ih h

/-- The bounded walk reaches what the walk reaches, or meets too many links. -/
theorem resolveParts_of_reaches (h : Reaches host follow loc parts place) (limit : Nat) :
    resolveParts host follow limit loc parts = .ok place ∨
      resolveParts host follow limit loc parts = .error .loop := by
  induction h generalizing limit with
  | here => exact Or.inl (resolveParts_nil limit)
  | skip hdir hpart _ ih =>
    rw [resolveParts_skip limit hdir hpart]
    exact ih limit
  | up hdir hpart _ ih =>
    rw [resolveParts_up limit hdir hpart]
    exact ih limit
  | enter hdir hpart hplain _ ih =>
    rw [resolveParts_enter limit hdir hpart hplain]
    exact ih limit
  | link hdir hpart hlink hfollow _ ih =>
    cases limit with
    | zero => exact Or.inr (walkParts_link hdir hpart hlink hfollow)
    | succ limit =>
      rw [resolveParts, walkParts_link hdir hpart hlink hfollow]
      exact ih limit
  | unfollowed hdir hpart hlink => exact Or.inl (resolveParts_unfollowed limit hdir hpart hlink)

/-- The bounded walk of a path goes through the place its first piece reaches. -/
theorem resolveParts_append {loc mid : Location} {xs ys : List Path} {all : Bool}
    (h : Reaches host all loc xs mid) (hall : all = true) (hys : ys ≠ []) (limit : Nat) :
    resolveParts host follow limit loc (xs ++ ys) = .error .loop ∨
      ∃ left, resolveParts host follow limit loc (xs ++ ys) = resolveParts host follow left mid ys := by
  induction h generalizing limit with
  | here => exact Or.inr ⟨limit, rfl⟩
  | skip hdir hpart _ ih =>
    rw [cons_append, resolveParts_skip limit hdir hpart]
    exact ih hall limit
  | up hdir hpart _ ih =>
    rw [cons_append, resolveParts_up limit hdir hpart]
    exact ih hall limit
  | enter hdir hpart hplain _ ih =>
    rw [cons_append, resolveParts_enter limit hdir hpart hplain]
    exact ih hall limit
  | link hdir hpart hlink _ _ ih =>
    have hmore {rest : List Path} : rest ++ ys ≠ [] := by simp [hys]
    cases limit with
    | zero => exact Or.inl (walkParts_link hdir hpart hlink (Or.inl hmore))
    | succ limit =>
      rw [cons_append, resolveParts, walkParts_link hdir hpart hlink (Or.inl hmore),
        ← append_assoc]
      exact ih hall limit
  | unfollowed => cases hall

/-- Enough links let the bounded walk end. -/
theorem exists_limit (h : Reaches host follow loc parts place) :
    ∃ limit, resolveParts host follow limit loc parts = .ok place := by
  induction h with
  | here => exact ⟨0, resolveParts_nil 0⟩
  | skip hdir hpart _ ih =>
    obtain ⟨limit, hlimit⟩ := ih
    exact ⟨limit, by rw [resolveParts_skip limit hdir hpart, hlimit]⟩
  | up hdir hpart _ ih =>
    obtain ⟨limit, hlimit⟩ := ih
    exact ⟨limit, by rw [resolveParts_up limit hdir hpart, hlimit]⟩
  | enter hdir hpart hplain _ ih =>
    obtain ⟨limit, hlimit⟩ := ih
    exact ⟨limit, by rw [resolveParts_enter limit hdir hpart hplain, hlimit]⟩
  | link hdir hpart hlink hfollow _ ih =>
    obtain ⟨limit, hlimit⟩ := ih
    exact ⟨limit + 1, by rw [resolveParts, walkParts_link hdir hpart hlink hfollow, hlimit]⟩
  | unfollowed hdir hpart hlink => exact ⟨0, resolveParts_unfollowed 0 hdir hpart hlink⟩

end Bounded

/-! ## The walk -/

namespace Reaches

variable {host : Host} {follow : Bool} {loc mid place other : Location} {name target : Path}
  {parts xs ys rest : List Path}

/-- A walk reaches one place. -/
theorem unique (h : Reaches host follow loc parts place)
    (hother : Reaches host follow loc parts other) : place = other := by
  obtain ⟨limit, hlimit⟩ := exists_limit h
  rcases resolveParts_of_reaches hother limit with hok | hloop
  · exact Except.ok.inj (hlimit.symm.trans hok)
  · rw [hlimit] at hloop
    cases hloop

/-- A walk of two pieces follows every link of the first. -/
theorem split (h : Reaches host follow loc (xs ++ ys) place) (hys : ys ≠ [] ∨ follow = true) :
    ∃ mid, Reaches host true loc xs mid ∧ Reaches host follow mid ys place := by
  generalize hparts : xs ++ ys = parts at h
  induction h generalizing xs with
  | here =>
    obtain ⟨rfl, rfl⟩ := append_eq_nil_iff.mp hparts
    exact ⟨_, .here, .here⟩
  | skip hdir hpart hnext ih =>
    cases xs with
    | nil =>
      rw [nil_append] at hparts
      exact ⟨_, .here, hparts ▸ .skip hdir hpart hnext⟩
    | cons x xs =>
      obtain ⟨rfl, hrest⟩ := List.cons.inj hparts
      obtain ⟨mid, hmid, hlast⟩ := ih hys hrest
      exact ⟨mid, .skip hdir hpart hmid, hlast⟩
  | up hdir hpart hnext ih =>
    cases xs with
    | nil =>
      rw [nil_append] at hparts
      exact ⟨_, .here, hparts ▸ .up hdir hpart hnext⟩
    | cons x xs =>
      obtain ⟨rfl, hrest⟩ := List.cons.inj hparts
      obtain ⟨mid, hmid, hlast⟩ := ih hys hrest
      exact ⟨mid, .up hdir hpart hmid, hlast⟩
  | enter hdir hpart hplain hnext ih =>
    cases xs with
    | nil =>
      rw [nil_append] at hparts
      exact ⟨_, .here, hparts ▸ .enter hdir hpart hplain hnext⟩
    | cons x xs =>
      obtain ⟨rfl, hrest⟩ := List.cons.inj hparts
      obtain ⟨mid, hmid, hlast⟩ := ih hys hrest
      exact ⟨mid, .enter hdir hpart hplain hmid, hlast⟩
  | @link _ _ _ _ _ target rest hdir hpart hlink hfollow hnext ih =>
    cases xs with
    | nil =>
      rw [nil_append] at hparts
      exact ⟨_, .here, hparts ▸ .link hdir hpart hlink hfollow hnext⟩
    | cons x xs =>
      obtain ⟨rfl, hrest⟩ := List.cons.inj hparts
      have hparts : (target.splitOn '/' ++ xs) ++ ys = target.splitOn '/' ++ rest := by
        rw [append_assoc, ← hrest]
        rfl
      obtain ⟨mid, hmid, hlast⟩ := ih hys hparts
      exact ⟨mid, .link hdir hpart hlink (Or.inr rfl) hmid, hlast⟩
  | unfollowed hdir hpart hlink =>
    -- the link is the last part, so the first piece is empty
    have hne : ys ≠ [] := hys.resolve_right nofun
    cases xs with
    | nil =>
      rw [nil_append] at hparts
      exact ⟨_, .here, hparts ▸ .unfollowed hdir hpart hlink⟩
    | cons x xs =>
      obtain ⟨-, hrest⟩ := List.cons.inj hparts
      exact absurd (append_eq_nil_iff.mp hrest).2 hne

/-- Two walks in a row. -/
theorem append (h : Reaches host true loc xs mid) (hlast : Reaches host follow mid ys place)
    (hys : ys ≠ [] ∨ follow = true) : Reaches host follow loc (xs ++ ys) place := by
  generalize htrue : true = every at h
  induction h with
  | here => exact hlast
  | skip hdir hpart _ ih => exact .skip hdir hpart (ih hlast htrue)
  | up hdir hpart _ ih => exact .up hdir hpart (ih hlast htrue)
  | enter hdir hpart hplain _ ih => exact .enter hdir hpart hplain (ih hlast htrue)
  | @link _ _ _ _ _ target rest hdir hpart hlink _ _ ih =>
    refine .link hdir hpart hlink ?_ ?_
    · rcases hys with hne | hfollow
      · exact Or.inl (by simp [hne])
      · exact Or.inr hfollow
    · have hnext := ih hlast htrue
      rwa [append_assoc] at hnext
  | unfollowed => cases htrue

/-- Anything below a place needs a directory there. -/
theorem dir_of_cons (h : Reaches host follow loc parts place) (hne : parts ≠ []) :
    host.node loc = some .dir := by
  cases h with
  | here => exact absurd rfl hne
  | skip hdir => exact hdir
  | up hdir => exact hdir
  | enter hdir => exact hdir
  | link hdir => exact hdir
  | unfollowed hdir => exact hdir

variable {part : Path}

/-- One name: what is there, or where the link leads, or the link itself. -/
theorem enter_inv (h : Reaches host follow loc (part :: rest) place)
    (hpart : move part = some (.enter name)) :
    (∃ target, host.node (loc ++ [name]) = some (.link target) ∧
        (((rest ≠ [] ∨ follow = true) ∧
            Reaches host follow (startOf loc target) (target.splitOn '/' ++ rest) place) ∨
          (follow = false ∧ place = loc ++ [name]))) ∨
      ((∀ target, host.node (loc ++ [name]) ≠ some (.link target)) ∧
        Reaches host follow (loc ++ [name]) rest place) := by
  cases h with
  | skip _ hskip => rw [hskip] at hpart; cases hpart
  | up _ hup => rw [hup] at hpart; cases hpart
  | enter _ hentered hplain hnext =>
    rw [hentered, Option.some.injEq, Move.enter.injEq] at hpart
    subst hpart
    exact Or.inr ⟨hplain, hnext⟩
  | link _ hentered hlink hfollow hnext =>
    rw [hentered, Option.some.injEq, Move.enter.injEq] at hpart
    subst hpart
    exact Or.inl ⟨_, hlink, Or.inl ⟨hfollow, hnext⟩⟩
  | unfollowed _ hentered hlink =>
    rw [hentered, Option.some.injEq, Move.enter.injEq] at hpart
    subst hpart
    exact Or.inl ⟨_, hlink, Or.inr ⟨rfl, rfl⟩⟩

/-- A link followed leads where its target does. -/
theorem link_inv (h : Reaches host true loc [part] place)
    (hpart : move part = some (.enter name))
    (hlink : host.node (loc ++ [name]) = some (.link target)) :
    Reaches host true (startOf loc target) (target.splitOn '/') place := by
  rcases h.enter_inv hpart with ⟨other, hother, hnext⟩ | ⟨hplain, -⟩
  · rw [hlink, Option.some.injEq, Kind.link.injEq] at hother
    subst hother
    rcases hnext with ⟨-, hnext⟩ | ⟨hfalse, -⟩
    · rwa [append_nil] at hnext
    · cases hfalse
  · exact absurd hlink (hplain target)

theorem up_inv (h : Reaches host follow loc (part :: rest) place)
    (hpart : move part = some .up) : Reaches host follow loc.dropLast rest place := by
  cases h with
  | skip _ hskip => rw [hskip] at hpart; cases hpart
  | up _ _ hnext => exact hnext
  | enter _ hentered => rw [hentered] at hpart; cases hpart
  | link _ hentered => rw [hentered] at hpart; cases hpart
  | unfollowed _ hentered => rw [hentered] at hpart; cases hpart

theorem skip_inv (h : Reaches host follow loc (part :: rest) place)
    (hpart : move part = none) : Reaches host follow loc rest place := by
  cases h with
  | skip _ _ hnext => exact hnext
  | up _ hup => rw [hup] at hpart; cases hpart
  | enter _ hentered => rw [hentered] at hpart; cases hpart
  | link _ hentered => rw [hentered] at hpart; cases hpart
  | unfollowed _ hentered => rw [hentered] at hpart; cases hpart

/-- A walk that follows every link does not end at one. -/
theorem not_link (h : Reaches host true loc parts place)
    (hloc : ∀ target, host.node loc ≠ some (.link target)) (target : Path) :
    host.node place ≠ some (.link target) := by
  generalize htrue : true = every at h
  induction h with
  | here => exact hloc target
  | skip _ _ _ ih => exact ih hloc htrue
  | @up _ loc _ _ _ hdir _ _ ih =>
    refine ih ?_ htrue
    -- the parent of a directory is a directory
    intro other hlink
    rcases eq_nil_or_concat loc with rfl | ⟨init, last, rfl⟩
    · cases hlink
    · rw [concat_eq_append] at hdir hlink
      rw [dropLast_concat, Host.node_concat hdir] at hlink
      cases hlink
  | enter _ _ hplain _ ih => exact ih hplain htrue
  | @link _ loc _ _ _ target _ hdir _ _ _ _ ih =>
    refine ih ?_ htrue
    intro other hlink
    unfold startOf at hlink
    split at hlink
    next => cases hlink
    next =>
      rw [hdir] at hlink
      cases hlink
  | unfollowed => cases htrue

/-- The last name of a path leads somewhere, or is the place reached itself. -/
theorem last_inv (h : Reaches host follow loc [part] place) :
    Reaches host true loc [part] place ∨ ∃ name, place = loc ++ [name] := by
  cases h with
  | skip hdir hpart hnext =>
    cases hnext
    exact Or.inl (.skip hdir hpart .here)
  | up hdir hpart hnext =>
    cases hnext
    exact Or.inl (.up hdir hpart .here)
  | enter hdir hpart hplain hnext =>
    cases hnext
    exact Or.inl (.enter hdir hpart hplain .here)
  | link hdir hpart hlink hfollow hnext =>
    have htrue : follow = true := hfollow.resolve_left (fun hne => hne rfl)
    subst htrue
    exact Or.inl (.link hdir hpart hlink (Or.inr rfl) hnext)
  | unfollowed => exact Or.inr ⟨_, rfl⟩

/-- Down through directories. -/
theorem of_dir {names : List Path} (hnames : ∀ name ∈ names, move name = some (.enter name))
    (hdir : host.node (loc ++ names) = some .dir) : Reaches host true loc names (loc ++ names) := by
  induction names using List.reverseRecOn with
  | nil =>
    rw [append_nil]
    exact .here
  | append_singleton names name ih =>
    rw [← append_assoc] at hdir ⊢
    have hparent := Host.node_concat hdir
    refine append (ih (fun n hn => hnames n (mem_append_left _ hn)) hparent) ?_ (Or.inr rfl)
    refine .enter hparent (hnames name (by simp)) ?_ .here
    intro target hlink
    rw [hdir] at hlink
    cases hlink

/-- The place reached is the start, the root or in a directory. -/
theorem parent_dir (h : Reaches host follow loc parts place)
    (hloc : loc = [] ∨ host.node loc.dropLast = some .dir) :
    place = [] ∨ host.node place.dropLast = some .dir := by
  induction h with
  | here => exact hloc
  | skip _ _ _ ih => exact ih hloc
  | @up _ loc _ _ _ hdir _ _ ih =>
    refine ih ?_
    rcases eq_nil_or_concat loc with rfl | ⟨init, last, rfl⟩
    · exact Or.inl rfl
    · rw [concat_eq_append] at hdir ⊢
      rw [dropLast_concat]
      have hinit := Host.node_concat hdir
      rcases eq_nil_or_concat init with rfl | ⟨start, middle, rfl⟩
      · exact Or.inl rfl
      · rw [concat_eq_append] at hinit ⊢
        rw [dropLast_concat]
        exact Or.inr (Host.node_concat hinit)
  | enter hdir _ _ _ ih =>
    refine ih (Or.inr ?_)
    rwa [dropLast_concat]
  | @link _ loc _ _ _ target _ hdir _ _ _ _ ih =>
    refine ih ?_
    unfold startOf
    split
    next => exact Or.inl rfl
    next =>
      rcases eq_nil_or_concat loc with rfl | ⟨init, last, rfl⟩
      · exact Or.inl rfl
      · rw [concat_eq_append] at hdir ⊢
        rw [dropLast_concat]
        exact Or.inr (Host.node_concat hdir)
  | unfollowed hdir =>
    rw [dropLast_concat]
    exact Or.inr hdir

end Reaches

end Jco.Filesystem
