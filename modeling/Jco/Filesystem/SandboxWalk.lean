import Jco.Filesystem.Sandbox

/-! # On tame paths the sandbox holds

The check, the host on the guest's parts, and the host on the path of
`getFullPath` are followed part by part. As long as the path is tame the check
stands at the text of the place where the host stands, and each name of the
collapsed path was looked up where the check looked it up.
-/

namespace Jco.Filesystem

open Jco.Lib List Move

/-! ## Names and texts -/

theorem move_eq_none_iff (part : Path) : move part = none ↔ part = [] ∨ part = ['.'] := by
  unfold move
  by_cases hskip : part = [] ∨ part = ['.']
  · simp [hskip]
  · rw [if_neg hskip]
    by_cases hup : part = ['.', '.']
    · simp [hup]
    · simp [hup, hskip]

theorem move_eq_up_iff (part : Path) : move part = some .up ↔ part = ['.', '.'] := by
  unfold move
  by_cases hskip : part = [] ∨ part = ['.']
  · rw [if_pos hskip]
    refine iff_of_false nofun ?_
    rintro rfl
    simp at hskip
  · rw [if_neg hskip]
    by_cases hup : part = ['.', '.']
    · simp [hup]
    · simp [hup]

/-- A part that is a name is entered under it. -/
theorem move_eq_enter {part name : Path} (h : move part = some (.enter name)) : part = name := by
  unfold move at h
  split at h
  next => cases h
  next =>
    split at h
    next => cases h
    next => simpa using h

theorem move_self {part name : Path} (h : move part = some (.enter name)) :
    move name = some (.enter name) := by
  have hname := move_eq_enter h
  subst hname
  exact h

/-- Names that are parts of a path. -/
def Named (loc : Location) : Prop := ∀ name ∈ loc, move name = some (.enter name)

theorem named_append {loc : Location} {name : Path} (h : Named loc)
    (hname : move name = some (.enter name)) : Named (loc ++ [name]) := by
  intro n hn
  rcases mem_append.mp hn with hn | hn
  · exact h n hn
  · rw [mem_singleton.mp hn]
    exact hname

theorem named_lexical {loc : Location} {parts : List Path} (h : Named loc) :
    Named (lexical loc parts) := by
  induction parts generalizing loc with
  | nil => exact h
  | cons part parts ih =>
    unfold lexical
    split
    next => exact ih h
    next => exact ih (fun n hn => h n (mem_of_mem_dropLast hn))
    next name hpart => exact ih (named_append h (move_self hpart))

theorem named_resolvePath {dir : Location} (target : Path) (h : Named dir) :
    Named (resolvePath dir target) := by
  refine named_lexical ?_
  unfold startOf
  split
  next => exact nofun
  next => exact h

/-! ## The loop of the check by moves -/

section Check

variable {host : Host} {base current : Location} {part name : Path} {rest : List Path}

theorem checkSegments_skip (hpart : move part = none) :
    checkSegments host base current (part :: rest) = checkSegments host base current rest := by
  rw [checkSegments, if_pos ((move_eq_none_iff part).mp hpart)]

theorem checkSegments_up (hpart : move part = some .up) :
    checkSegments host base current (part :: rest) =
      if IsWithinPath base current.dropLast then checkSegments host base current.dropLast rest
      else .error .notPermitted := by
  have hup := (move_eq_up_iff part).mp hpart
  have hskip : ¬ (part = [] ∨ part = ['.']) := by
    intro hskip
    rw [(move_eq_none_iff part).mpr hskip] at hpart
    cases hpart
  rw [checkSegments, if_neg hskip, if_pos hup]
  rfl

theorem not_skip_of_enter (hpart : move part = some (.enter name)) :
    ¬ (part = [] ∨ part = ['.']) ∧ part ≠ ['.', '.'] := by
  constructor
  · intro hskip
    rw [(move_eq_none_iff part).mpr hskip] at hpart
    cases hpart
  · intro hup
    rw [(move_eq_up_iff part).mpr hup] at hpart
    cases hpart

theorem checkSegments_error {errno : Errno} (hpart : move part = some (.enter name))
    (hlstat : host.lstat (current ++ [name]) = .error errno) :
    checkSegments host base current (part :: rest) =
      if errno = .noent then .ok () else .error (.host errno) := by
  obtain ⟨hskip, hup⟩ := not_skip_of_enter hpart
  have hname := move_eq_enter hpart
  subst hname
  rw [checkSegments, if_neg hskip, if_neg hup, hlstat]
  cases errno with
  | noent => rfl
  | notdir => rfl
  | loop => rfl

theorem checkSegments_link {target : Path} (hpart : move part = some (.enter name))
    (hlstat : host.lstat (current ++ [name]) = .ok (.link target)) :
    checkSegments host base current (part :: rest) =
      if IsWithinPath base (resolvePath current target) then
        checkSegments host base (resolvePath current target) rest
      else .error .notPermitted := by
  obtain ⟨hskip, hup⟩ := not_skip_of_enter hpart
  have hname := move_eq_enter hpart
  subst hname
  rw [checkSegments, if_neg hskip, if_neg hup, hlstat]
  simp only [dirname, dropLast_concat]

theorem checkSegments_plain {kind : Kind} (hpart : move part = some (.enter name))
    (hlstat : host.lstat (current ++ [name]) = .ok kind) (hplain : ∀ target, kind ≠ .link target) :
    checkSegments host base current (part :: rest) =
      checkSegments host base (current ++ [name]) rest := by
  obtain ⟨hskip, hup⟩ := not_skip_of_enter hpart
  have hname := move_eq_enter hpart
  subst hname
  rw [checkSegments, if_neg hskip, if_neg hup, hlstat]
  cases kind with
  | file => rfl
  | dir => rfl
  | link target => exact absurd rfl (hplain target)

end Check

/-! ## Where the three walks stand -/

/-- The names the text has kept, with the place each was looked up at, and the
place where the last of them leads. -/
inductive Trail (host : Host) (real : Location) : List Path → List Location → Location → Prop
  | base : Trail host real [] [] []
  | step {names : List Path} {stack : List Location} {rel rel' : Location} {name : Path}
      (before : Trail host real names stack rel)
      (text : Reaches host true real rel (real ++ rel))
      (leads : ∀ place, Reaches host true (real ++ rel) [name] place → place = real ++ rel') :
      Trail host real (names ++ [name]) (rel :: stack) rel'

theorem Trail.end_eq {host : Host} {real rel place : Location} {names : List Path}
    {stack : List Location} (h : Trail host real names stack rel)
    (hreach : Reaches host true real names place) : place = real ++ rel := by
  induction h generalizing place with
  | base =>
    cases hreach
    rw [append_nil]
  | step before _ leads ih =>
    obtain ⟨mid, hmid, hlast⟩ := hreach.split (Or.inr rfl)
    rw [ih hmid] at hlast
    exact leads place hlast

/-- The place of the collapsed path is inside, the last link followed or not. -/
theorem Trail.inside {host : Host} {real rel place : Location} {names : List Path}
    {stack : List Location} {follow : Bool} (h : Trail host real names stack rel)
    (hne : names ≠ []) (hreach : Reaches host follow real names place) : real <+: place := by
  cases h with
  | base => exact absurd rfl hne
  | step before _ leads =>
    obtain ⟨mid, hmid, hlast⟩ := hreach.split (Or.inl (by simp))
    rw [before.end_eq hmid] at hlast
    rcases hlast.last_inv with hfollowed | ⟨name, hlink⟩
    · rw [leads place hfollowed]
      exact prefix_append _ _
    · rw [hlink, append_assoc]
      exact prefix_append _ _

/-- The walk stands at `rel` below the base, which its own text reaches if a name
has been looked up. -/
structure Stands (host : Host) (base real : Location) (names : List Path) (stack : List Location)
    (rel : Location) : Prop where
  honest : stack ≠ [] → Reaches host true [] base real
  trail : Trail host real names stack rel
  text : Reaches host true real rel (real ++ rel)
  named : Named (base ++ rel)

namespace Stands

variable {host : Host} {base real rel rel' place : Location} {names : List Path}
  {stack : List Location} {name target : Path} {kind : Kind}

/-- The text the check has leads to the place. -/
theorem current (h : Stands host base real names stack rel)
    (hbase : Reaches host true [] base real) :
    Reaches host true [] (base ++ rel) (real ++ rel) :=
  hbase.append h.text (Or.inr rfl)

/-- `lstat` tells what is there, or fails for the links of the base. -/
theorem lstat_some (h : Stands host base real names stack rel)
    (hbase : Reaches host true [] base real) (hname : move name = some (.enter name))
    (hnode : host.node (real ++ rel ++ [name]) = some kind) :
    host.lstat (base ++ rel ++ [name]) = .ok kind ∨
      host.lstat (base ++ rel ++ [name]) = .error .loop := by
  have hdir := Host.node_concat hnode
  have hlast : Reaches host false (real ++ rel) [name] (real ++ rel ++ [name]) := by
    cases kind with
    | link target => exact .unfollowed hdir hname hnode
    | file => exact .enter hdir hname (fun target hlink => by rw [hnode] at hlink; cases hlink) .here
    | dir => exact .enter hdir hname (fun target hlink => by rw [hnode] at hlink; cases hlink) .here
  have hall := (h.current hbase).append hlast (Or.inl (by simp))
  unfold Host.lstat
  rcases resolveParts_of_reaches hall host.limit with hok | hloop
  · refine Or.inl ?_
    rw [hok]
    simp only [hnode]
  · rw [hloop]
    exact Or.inr rfl

/-- Where nothing is, `lstat` fails. -/
theorem lstat_none (h : Stands host base real names stack rel)
    (hbase : Reaches host true [] base real) (hname : move name = some (.enter name))
    (hnode : host.node (real ++ rel ++ [name]) = none) (kind : Kind) : host.lstat (base ++ rel ++ [name]) ≠ .ok kind := by
  intro hok
  unfold Host.lstat at hok
  split at hok
  next => cases hok
  next place hplace =>
    have hreach := reaches_of_resolveParts _ hplace
    obtain ⟨mid, hmid, hlast⟩ := hreach.split (Or.inl (by simp))
    rw [hmid.unique (h.current hbase)] at hlast
    rcases hlast.enter_inv hname with ⟨target, hlink, -⟩ | ⟨-, hnext⟩
    · rw [hnode] at hlink
      cases hlink
    · cases hnext
      rw [hnode] at hok
      cases hok

/-- A file or a directory is entered. -/
theorem enter (h : Stands host base real names stack rel)
    (hbase : Reaches host true [] base real) (hname : move name = some (.enter name))
    (hnode : host.node (real ++ rel ++ [name]) = some kind) (hplain : ∀ target, kind ≠ .link target) :
    Stands host base real (names ++ [name]) (rel :: stack) (rel ++ [name]) := by
  have hnot : ∀ target, host.node (real ++ rel ++ [name]) ≠ some (.link target) := by
    intro target hlink
    rw [hnode, Option.some.injEq] at hlink
    exact hplain target hlink
  have hstep : Reaches host true (real ++ rel) [name] (real ++ (rel ++ [name])) := by
    rw [← append_assoc]
    exact .enter (Host.node_concat hnode) hname hnot .here
  refine ⟨fun _ => hbase, .step h.trail h.text ?_, h.text.append hstep (Or.inr rfl), ?_⟩
  · intro place hplace
    exact hplace.unique hstep
  · rw [← append_assoc]
    exact named_append h.named hname

/-- An honest link is followed. -/
theorem follow (h : Stands host base real names stack rel)
    (hbase : Reaches host true [] base real) (hname : move name = some (.enter name))
    (hnode : host.node (real ++ rel ++ [name]) = some (.link target))
    (htext : resolvePath (base ++ rel) target = base ++ rel')
    (hreach : Reaches host true (startOf (real ++ rel) target) (target.splitOn '/') (real ++ rel')) :
    Stands host base real (names ++ [name]) (rel :: stack) rel' := by
  have hdir := Host.node_concat hnode
  have hnamed : Named (base ++ rel') := htext ▸ named_resolvePath target h.named
  have hstep : Reaches host true (real ++ rel) [name] (real ++ rel') :=
    .link hdir hname hnode (Or.inr rfl) (by rwa [append_nil])
  refine ⟨fun _ => hbase, .step h.trail h.text fun place hplace => hplace.unique hstep, ?_,
    hnamed⟩
  -- a place a link leads to is in a directory and is no link itself
  rcases eq_nil_or_concat rel' with rfl | ⟨init, last, rfl⟩
  · rw [append_nil]
    exact .here
  · rw [concat_eq_append] at hnamed hreach hstep ⊢
    have hstart : real ++ rel = [] ∨ host.node (real ++ rel).dropLast = some .dir := by
      rcases eq_nil_or_concat (real ++ rel) with hnil | ⟨front, back, hback⟩
      · exact Or.inl hnil
      · rw [hback, concat_eq_append] at hdir ⊢
        rw [dropLast_concat]
        exact Or.inr (Host.node_concat hdir)
    have hparent := hstep.parent_dir hstart
    rw [← append_assoc, dropLast_concat] at hparent
    have hinit : host.node (real ++ init) = some .dir := by
      rcases hparent with hnil | hparent
      · simp at hnil
      · exact hparent
    have hnot : ∀ other, host.node (real ++ init ++ [last]) ≠ some (.link other) := by
      intro other
      have := hstep.not_link (fun other hlink => by rw [hdir] at hlink; cases hlink) other
      rwa [← append_assoc] at this
    have hnames : Named (init ++ [last]) := fun n hn => hnamed n (mem_append_right _ hn)
    refine (Reaches.of_dir (fun n hn => hnames n (mem_append_left _ hn)) hinit).append ?_
      (Or.inr rfl)
    rw [← append_assoc]
    exact .enter hinit (hnames last (by simp)) hnot .here

/-- Below a file `lstat` does not say that nothing is there. -/
theorem lstat_file (name : Path) (h : Stands host base real names stack rel)
    (hbase : Reaches host true [] base real)
    (hfile : host.node (real ++ rel) = some .file) :
    host.lstat (base ++ rel ++ [name]) = .error .notdir ∨
      host.lstat (base ++ rel ++ [name]) = .error .loop := by
  have hcut : resolveParts host false host.limit [] (base ++ rel ++ [name]) = .error .loop ∨
      ∃ left, resolveParts host false host.limit [] (base ++ rel ++ [name]) =
        resolveParts host false left (real ++ rel) [name] :=
    resolveParts_append (h.current hbase) rfl (cons_ne_nil name []) host.limit
  unfold Host.lstat
  rcases hcut with hloop | ⟨left, hleft⟩
  · rw [hloop]
    exact Or.inr rfl
  · have hnotdir : resolveParts host false left (real ++ rel) [name] = .error .notdir := by
      cases left with
      | zero => simp [resolveParts, walkParts, hfile]
      | succ left => simp [resolveParts, walkParts, hfile]
    rw [hleft, hnotdir]
    exact Or.inl rfl

/-- The text one step up is that of the place where the last name was looked up. -/
theorem back {prev : Location} (h : Stands host base real (names ++ [name]) (prev :: stack) rel)
    (hprev : rel.dropLast = prev) : Stands host base real names stack prev := by
  have hnamed : Named (base ++ prev) := by
    intro n hn
    refine h.named n ?_
    rcases mem_append.mp hn with hn | hn
    · exact mem_append_left _ hn
    · exact mem_append_right _ (mem_of_mem_dropLast (hprev ▸ hn))
  have htrail := h.trail
  generalize hall : names ++ [name] = all at htrail
  generalize hstack : prev :: stack = whole at htrail
  cases htrail with
  | base => cases hstack
  | step before htext _ =>
    obtain ⟨rfl, rfl⟩ := List.cons.inj hstack
    obtain ⟨rfl, -⟩ := append_inj' hall rfl
    exact ⟨fun _ => h.honest (cons_ne_nil _ _), before, htext, hnamed⟩

/-- Every name kept has a place on the stack. -/
theorem names_of_stack {prev : Location} (h : Stands host base real names (prev :: stack) rel) :
    ∃ init name, names = init ++ [name] := by
  have htrail := h.trail
  generalize hstack : prev :: stack = whole at htrail
  cases htrail with
  | base => cases hstack
  | step => exact ⟨_, _, rfl⟩

theorem names_nil (h : Stands host base real names [] rel) : names = [] := by
  have htrail := h.trail
  generalize hstack : ([] : List Location) = whole at htrail
  cases htrail with
  | base => rfl
  | step => cases hstack

/-- One step up in the text, unless it leaves the base. -/
theorem dropLast_text {prev : Location} (hin : ¬ (rel = [] ∧ real ≠ []))
    (hroot : rel = [] → base = []) (hprev : rel.dropLast = prev) :
    (base ++ rel).dropLast = base ++ prev ∧ (real ++ rel).dropLast = real ++ prev := by
  by_cases hrel : rel = []
  · have hreal : real = [] := by
      by_contra hne
      exact hin ⟨hrel, hne⟩
    have hbase := hroot hrel
    subst hrel hreal hbase
    rw [← hprev]
    exact ⟨rfl, rfl⟩
  · rw [dropLast_append_of_ne_nil hrel, dropLast_append_of_ne_nil hrel, hprev]
    exact ⟨rfl, rfl⟩

/-- The text of a base that is not the root has no parent within it. -/
theorem not_within_parent (hbase : Reaches host true [] base real) (hreal : real ≠ []) :
    ¬ IsWithinPath base base.dropLast := by
  intro hwithin
  have hne : base ≠ [] := by
    rintro rfl
    cases hbase
    exact hreal rfl
  have hle := (prefix_of_isWithinPath hwithin).length_le
  have hpos := length_pos_iff.mpr hne
  rw [length_dropLast] at hle
  omega

end Stands

/-! ## What passes is inside -/

/-- With no later `..` for it, a name stays in the collapsed path. -/
theorem walk_lasting {names out : List Path} {name : Path} {rest : List Path} (h : Lasting rest)
    (hwalk : walk (names ++ [name]) (rest.filterMap move) = some out) :
    ∃ tail, out = names ++ name :: tail := by
  obtain ⟨tail, htail⟩ := Option.ne_none_iff_exists'.mp h
  have happ := walk_append (names ++ [name]) htail
  rw [append_nil, hwalk, Option.some.injEq, append_assoc] at happ
  exact ⟨tail, happ⟩

namespace Stands

variable {host : Host} {base real rel place : Location} {names out parts pre : List Path}
  {stack : List Location} {follow : Bool}

/-- Through a name where nothing is, a call comes to that name at most. -/
theorem inside_of_missing {name : Path} {tail : List Path} (h : Stands host base real names stack rel)
    (hname : move name = some (.enter name)) (hnode : host.node (real ++ rel ++ [name]) = none)
    (hreach : Reaches host follow real (names ++ name :: tail) place) : real <+: place := by
  obtain ⟨mid, hmid, hlast⟩ := hreach.split (Or.inl (by simp))
  rw [h.trail.end_eq hmid] at hlast
  rcases hlast.enter_inv hname with ⟨target, hlink, -⟩ | ⟨-, hnext⟩
  · rw [hnode] at hlink
    cases hlink
  · cases tail with
    | nil =>
      cases hnext
      rw [append_assoc]
      exact prefix_append _ _
    | cons next tail =>
      have hdir := hnext.dir_of_cons (by simp)
      rw [hnode] at hdir
      cases hdir

/-- Through a link that leads nowhere, a call comes to the link at most. -/
theorem inside_of_nowhere {name target : Path} {tail : List Path}
    (h : Stands host base real names stack rel) (hname : move name = some (.enter name))
    (hnode : host.node (real ++ rel ++ [name]) = some (.link target))
    (hnowhere : ∀ place, ¬ Reaches host true (startOf (real ++ rel) target) (target.splitOn '/') place)
    (hreach : Reaches host follow real (names ++ name :: tail) place) : real <+: place := by
  obtain ⟨mid, hmid, hlast⟩ := hreach.split (Or.inl (by simp))
  rw [h.trail.end_eq hmid] at hlast
  rcases hlast.enter_inv hname with ⟨other, hlink, hnext⟩ | ⟨hplain, -⟩
  · rw [hnode, Option.some.injEq, Kind.link.injEq] at hlink
    subst hlink
    rcases hnext with ⟨hfollow, hnext⟩ | ⟨-, hself⟩
    · obtain ⟨mid, hmid, -⟩ := hnext.split hfollow
      exact absurd hmid (hnowhere mid)
    · rw [hself, append_assoc]
      exact prefix_append _ _
  · exact absurd hnode (hplain target)

/-- What passes the check from here on leads to a place inside. -/
theorem safe (h : Stands host base real names stack rel)
    (htame : TameFrom host base real stack rel parts)
    (hcheck : checkSegments host base (base ++ rel) parts = .ok ())
    (hwalk : walk names (parts.filterMap move) = some out) (hne : out ≠ [])
    (hreach : Reaches host follow real out place) : real <+: place := by
  -- by induction on the parts left; each case moves all three walks by one part
  induction parts generalizing names stack rel with
  | nil =>
    rw [filterMap_nil, walk_nil, Option.some.injEq] at hwalk
    subst hwalk
    exact h.trail.inside hne hreach
  | cons part rest ih =>
    unfold TameFrom at htame
    split at htame
    next hpart =>
      rw [checkSegments_skip hpart] at hcheck
      rw [filterMap_cons_none hpart] at hwalk
      exact ih h htame hcheck hwalk
    next hpart =>
      rw [checkSegments_up hpart] at hcheck
      rw [filterMap_cons_some hpart] at hwalk
      split at htame
      next =>
        rw [h.names_nil, walk_root_up] at hwalk
        cases hwalk
      next prev stack =>
        obtain ⟨init, name, rfl⟩ := h.names_of_stack
        rw [walk_up] at hwalk
        by_cases hout : rel = [] ∧ real ≠ []
        · -- the check sees the base left
          obtain ⟨rfl, hreal⟩ := hout
          rw [append_nil, if_neg (not_within_parent (h.honest (cons_ne_nil _ _)) hreal)] at hcheck
          cases hcheck
        · obtain ⟨hprev, hroot, hwithin, htame⟩ := htame.resolve_left hout
          rw [(dropLast_text hout hroot hprev).1, if_pos hwithin] at hcheck
          exact ih (h.back hprev) htame hcheck hwalk
    next name hpart =>
      have hname := move_self hpart
      rw [filterMap_cons_some hpart, walk_enter] at hwalk
      obtain ⟨hbase, htame⟩ := htame
      split at htame
      next hnode =>
        rcases htame with hfile | hlasting
        · rcases h.lstat_file name hbase hfile with hlstat | hlstat
          · rw [checkSegments_error hpart hlstat] at hcheck
            cases hcheck
          · rw [checkSegments_error hpart hlstat] at hcheck
            cases hcheck
        · obtain ⟨tail, rfl⟩ := walk_lasting hlasting hwalk
          exact h.inside_of_missing hname hnode hreach
      next target hnode =>
        rcases htame with ⟨rel', htext, hwithin, hleads, htame⟩ | ⟨hnowhere, hlasting⟩ | ⟨hout, -⟩
        · rcases h.lstat_some hbase hname hnode with hlstat | hlstat
          · rw [checkSegments_link hpart hlstat, htext, if_pos hwithin] at hcheck
            exact ih (h.follow hbase hname hnode htext hleads) htame hcheck hwalk
          · rw [checkSegments_error hpart hlstat] at hcheck
            cases hcheck
        · obtain ⟨tail, rfl⟩ := walk_lasting hlasting hwalk
          exact h.inside_of_nowhere hname hnode hnowhere hreach
        · rcases h.lstat_some hbase hname hnode with hlstat | hlstat
          · rw [checkSegments_link hpart hlstat, if_neg hout] at hcheck
            cases hcheck
          · rw [checkSegments_error hpart hlstat] at hcheck
            cases hcheck
      next kind hkind hnode =>
        rcases h.lstat_some hbase hname hnode with hlstat | hlstat
        · rw [checkSegments_plain hpart hlstat hkind, append_assoc] at hcheck
          exact ih (h.enter hbase hname hnode hkind) htame hcheck hwalk
        · rw [checkSegments_error hpart hlstat] at hcheck
          cases hcheck

/-! ## What stays inside passes -/

/-- Where the host stands after one more part of the guest's path. -/
theorem raw_step {part : Path} {rel' : Location}
    (hraw : ∀ place, Reaches host true real pre place → place = real ++ rel)
    (hstep : ∀ place, Reaches host true (real ++ rel) [part] place → place = real ++ rel') :
    ∀ place, Reaches host true real (pre ++ [part]) place → place = real ++ rel' := by
  intro place hplace
  obtain ⟨mid, hmid, hlast⟩ := hplace.split (Or.inr rfl)
  rw [hraw mid hmid] at hlast
  exact hstep place hlast

/-- What stays inside is not rejected from here on. -/
theorem kept (h : Stands host base real names stack rel)
    (htame : TameFrom host base real stack rel parts)
    (hraw : ∀ place, Reaches host true real pre place → place = real ++ rel)
    (hstays : ∀ next, next <+: parts →
      ∃ place, Reaches host true real (pre ++ next) place ∧ real <+: place)
    (hwalk : walk names (parts.filterMap move) ≠ none) :
    checkSegments host base (base ++ rel) parts ≠ .error .notPermitted := by
  induction parts generalizing names stack rel pre with
  | nil => nofun
  | cons part rest ih =>
    have hrest : ∀ next, next <+: rest →
        ∃ place, Reaches host true real ((pre ++ [part]) ++ next) place ∧ real <+: place := by
      intro next hnext
      rw [append_assoc]
      exact hstays (part :: next) (cons_prefix_cons.mpr ⟨rfl, hnext⟩)
    -- the next part leads to a place inside
    obtain ⟨there, hthere, hinside⟩ := hstays [part] (cons_prefix_cons.mpr ⟨rfl, nil_prefix⟩)
    obtain ⟨mid, hmid, hpartly⟩ := hthere.split (Or.inr rfl)
    rw [hraw mid hmid] at hpartly
    unfold TameFrom at htame
    split at htame
    next hpart =>
      rw [checkSegments_skip hpart]
      rw [filterMap_cons_none hpart] at hwalk
      refine ih h htame (raw_step hraw ?_) hrest hwalk
      intro place hplace
      cases hplace.skip_inv hpart
      rfl
    next hpart =>
      rw [checkSegments_up hpart]
      rw [filterMap_cons_some hpart] at hwalk
      split at htame
      next =>
        rw [h.names_nil, walk_root_up] at hwalk
        exact absurd rfl hwalk
      next prev stack =>
        obtain ⟨init, name, rfl⟩ := h.names_of_stack
        rw [walk_up] at hwalk
        by_cases hout : rel = [] ∧ real ≠ []
        · -- the host would stand above the base
          obtain ⟨rfl, hreal⟩ := hout
          have hup := hpartly.up_inv hpart
          rw [append_nil] at hup
          cases hup
          have hle := hinside.length_le
          have hpos := length_pos_iff.mpr hreal
          rw [length_dropLast] at hle
          omega
        · obtain ⟨hprev, hroot, hwithin, htame⟩ := htame.resolve_left hout
          obtain ⟨hbase, hplace⟩ := dropLast_text hout hroot hprev
          rw [hbase, if_pos hwithin]
          refine ih (h.back hprev) htame (raw_step hraw ?_) hrest hwalk
          intro place hreach
          have hup := hreach.up_inv hpart
          rw [hplace] at hup
          cases hup
          rfl
    next name hpart =>
      have hname := move_self hpart
      have hsame := move_eq_enter hpart
      subst hsame
      rw [filterMap_cons_some hpart, walk_enter] at hwalk
      obtain ⟨hbase, htame⟩ := htame
      split at htame
      next hnode =>
        cases hlstat : host.lstat (base ++ rel ++ [part]) with
        | ok kind => exact absurd hlstat (h.lstat_none hbase hname hnode kind)
        | error errno =>
          rw [checkSegments_error hpart hlstat]
          split
          next => nofun
          next => nofun
      next target hnode =>
        rcases htame with ⟨rel', htext, hwithin, hleads, htame⟩ | ⟨hnowhere, -⟩ | ⟨-, houtside⟩
        · rcases h.lstat_some hbase hname hnode with hlstat | hlstat
          · rw [checkSegments_link hpart hlstat, htext, if_pos hwithin]
            have hnext := h.follow hbase hname hnode htext hleads
            refine ih hnext htame (raw_step hraw ?_) hrest hwalk
            intro place hplace
            refine hplace.unique (.link (Host.node_concat hnode) hname hnode (Or.inr rfl) ?_)
            rwa [append_nil]
          · rw [checkSegments_error hpart hlstat]
            nofun
        · -- a part that leads nowhere does not stay inside
          exact absurd (hpartly.link_inv hpart hnode) (hnowhere there)
        · exact absurd hinside (houtside there (hpartly.link_inv hpart hnode))
      next kind hkind hnode =>
        rcases h.lstat_some hbase hname hnode with hlstat | hlstat
        · rw [checkSegments_plain hpart hlstat hkind, append_assoc]
          refine ih (h.enter hbase hname hnode hkind) htame (raw_step hraw ?_) hrest hwalk
          intro place hplace
          rcases hplace.enter_inv hname with ⟨target, hlink, -⟩ | ⟨-, hnext⟩
          · rw [hnode, Option.some.injEq] at hlink
            exact absurd hlink (hkind target)
          · cases hnext
            rw [append_assoc]
        · rw [checkSegments_error hpart hlstat]
          nofun

end Stands

/-! ## The text of the used path -/

/-- The walk starts at the base. -/
theorem Stands.start (host : Host) (descriptor : Descriptor) (real : Location) :
    Stands host (host.baseResolved descriptor) real [] [] [] := by
  refine ⟨fun hne => absurd rfl hne, .base, ?_, ?_⟩
  · rw [append_nil]
    exact .here
  · rw [append_nil]
    exact named_resolvePath _ host.names

theorem Host.Finds.unique {host : Host} {follow : Bool} {path : Path} {place other : Location}
    (h : host.Finds follow path place) (hother : host.Finds follow path other) : place = other :=
  h.2.unique hother.2

end Jco.Filesystem
