import Jco.Filesystem.FullPath

/-! # What a guest path may reach

`Confined` says what the two functions owe a path: both refuse it for leaving
its base, or both return the base followed by the names of its walk. The walk
part holds of every path. The base part needs a base that takes one slash.
-/

namespace Jco.Filesystem

open Jco.Lib Preview2 List

/-- Equal, or one is the other with a slash after it. -/
def UpToSlash (a b : Path) : Prop := a = b ∨ a = b ++ ['/'] ∨ b = a ++ ['/']

/-- Both fail with one error, or both return one path up to a trailing slash. -/
def Agree : Except ErrorCode Path → Except ErrorCode Path → Prop
  | .ok a, .ok b => UpToSlash a b
  | .error e, .error e' => e = e'
  | _, _ => False

structure Confined (descriptor : Descriptor) (subpath : Path) : Prop where
  /-- What preview2 returns is the base followed by the reference segments. -/
  preview2 : ∀ full, Preview2.getFullPath descriptor subpath = .ok full →
    ∃ names, reference subpath = some names ∧ (∀ name ∈ names, Plain name) ∧
      (full = follow descriptor.base names ∨ full = follow descriptor.base names ++ ['/'])
  /-- So is what preview3 returns. -/
  preview3 : ∀ full, Preview3.getFullPath descriptor subpath = .ok full →
    ∃ names, reference subpath = some names ∧ (∀ name ∈ names, Plain name) ∧
      full = follow descriptor.base names
  refused2 : Preview2.getFullPath descriptor subpath = .error .notPermitted ↔
    Absolute subpath ∨ PopsPast subpath
  refused3 : Preview3.getFullPath descriptor subpath = .error .notPermitted ↔
    Absolute subpath ∨ PopsPast subpath
  agree : subpath ≠ [] →
    Agree (Preview2.getFullPath descriptor subpath) (Preview3.getFullPath descriptor subpath)

/-- A base both shims put one slash after: a preopen that is neither empty nor
the root and has no two slashes at its end, an opened directory with none. -/
def Descriptor.Joinable : Descriptor → Prop
  | preopen hostPreopen => hostPreopen ≠ [] ∧ hostPreopen ≠ ['/'] ∧ ¬ ['/', '/'] <:+ hostPreopen
  | opened fullPath => ¬ EndsWithSlash fullPath

/-! ## Bases -/

variable {path : Path}

theorem stripTrailingSlash_of_not_endsWithSlash (h : ¬ EndsWithSlash path) :
    stripTrailingSlash path = path := by
  unfold stripTrailingSlash
  rw [if_neg (by rintro rfl; exact h rfl), rdropWhile_eq_self_iff]
  intro hne hlast
  refine h ?_
  rw [EndsWithSlash, List.getLast?_eq_some_getLast hne]
  simpa using hlast

theorem stripTrailingSlash_concat (hne : path ≠ []) :
    stripTrailingSlash (path ++ ['/']) = path.rdropWhile (· = '/') := by
  unfold stripTrailingSlash
  rw [if_neg (by simp [hne]), rdropWhile_concat_pos _ _ _ (by simp)]

theorem rdropWhile_of_not_endsWithSlash (h : ¬ EndsWithSlash path) :
    path.rdropWhile (· = '/') = path := by
  have hstrip := stripTrailingSlash_of_not_endsWithSlash h
  unfold stripTrailingSlash at hstrip
  rwa [if_neg (by rintro rfl; exact h rfl)] at hstrip

theorem eq_concat_of_endsWithSlash (h : EndsWithSlash path) :
    ∃ init, path = init ++ ['/'] := by
  rcases eq_nil_or_concat path with rfl | ⟨init, last, rfl⟩
  · cases h
  · rw [concat_eq_append, EndsWithSlash, List.getLast?_concat, Option.some.injEq] at h
    exact ⟨init, by rw [concat_eq_append, h]⟩

variable {names : List Path}

/-- The names of a walk have no slash, so what follows the base starts with none. -/
theorem head?_intercalate (hplain : ∀ name ∈ names, Plain name)
    (hne : names ≠ []) : ∃ c rest, List.intercalate ['/'] names = c :: rest ∧ c ≠ '/' := by
  obtain ⟨name, names, rfl⟩ := exists_cons_of_ne_nil hne
  have hname := hplain name mem_cons_self
  obtain ⟨c, name, rfl⟩ := exists_cons_of_ne_nil hname.notEmpty
  have hc : c ≠ '/' := fun hslash => hname.noSeparator c mem_cons_self (Or.inl hslash)
  cases names with
  | nil => exact ⟨c, name, by simp, hc⟩
  | cons next names => exact ⟨c, _, by rw [intercalate_cons_cons]; rfl, hc⟩

variable {descriptor : Descriptor}

/-- preview2 puts one slash after a joinable base. -/
theorem preview2_join_of_joinable (h : descriptor.Joinable)
    {rest : Path} (hne : rest ≠ []) :
    join descriptor rest =
      descriptor.base ++ (if EndsWithSlash descriptor.base then [] else ['/']) ++ rest := by
  have hpos : 0 < rest.length := length_pos_iff.mpr hne
  cases descriptor with
  | preopen hostPreopen =>
    change join (.preopen hostPreopen) rest =
      hostPreopen ++ (if EndsWithSlash hostPreopen then [] else ['/']) ++ rest
    simp only [join, if_pos h.1, if_pos hpos]
  | opened fullPath =>
    have hends : ¬ EndsWithSlash fullPath := h
    change fullPath ++ _ ++ rest = fullPath ++ (if EndsWithSlash fullPath then [] else ['/']) ++ rest
    rw [if_pos hpos, if_neg hends]

/-- So does preview3. -/
theorem stripTrailingSlash_of_joinable (h : descriptor.Joinable) :
    stripTrailingSlash descriptor.base ++ ['/'] =
      descriptor.base ++ (if EndsWithSlash descriptor.base then [] else ['/']) := by
  by_cases hends : EndsWithSlash descriptor.base
  · cases descriptor with
    | opened fullPath => exact absurd hends h
    | preopen hostPreopen =>
      obtain ⟨init, hinit⟩ := eq_concat_of_endsWithSlash hends
      simp only [Descriptor.base] at hinit
      subst hinit
      obtain ⟨-, hroot, hdouble⟩ := h
      have hne : init ≠ [] := by
        rintro rfl
        exact hroot rfl
      have hinit : ¬ EndsWithSlash init := by
        intro hslash
        obtain ⟨start, rfl⟩ := eq_concat_of_endsWithSlash hslash
        exact hdouble ⟨start, by simp⟩
      rw [if_pos hends, append_nil]
      change stripTrailingSlash (init ++ ['/']) ++ ['/'] = init ++ ['/']
      rw [stripTrailingSlash_concat hne, rdropWhile_of_not_endsWithSlash hinit]
  · rw [if_neg hends, stripTrailingSlash_of_not_endsWithSlash hends]

theorem preview3_join_of_joinable (h : descriptor.Joinable)
    (names : List Path) : Preview3.join descriptor names = follow descriptor.base names := by
  unfold Preview3.join follow
  by_cases hnil : names = []
  · rw [if_pos (by simp [hnil]), if_pos hnil]
  · rw [if_neg (by simpa using hnil), if_neg hnil, stripTrailingSlash_of_joinable h]

/-- With nothing after the base, both return it, unless preview2 misses an
empty preopen. -/
theorem preview2_join_nil (h : descriptor ≠ .preopen []) :
    join descriptor [] = descriptor.base := by
  cases descriptor with
  | opened fullPath => simp [join, Descriptor.base]
  | preopen hostPreopen =>
    have hne : hostPreopen ≠ [] := by
      rintro rfl
      exact h rfl
    simp [join, Descriptor.base, hne]

theorem follow_nil (base : Path) : follow base [] = base := if_pos rfl

/-! ## The condition is enough -/

variable {subpath : Path}

/-- What a joined path has to be for `Confined`. -/
theorem confined_of_joins
    (href : reference subpath = some names)
    (h2 : ∀ rest, (names = [] → rest = []) →
      (rest = List.intercalate ['/'] names ∨ rest = List.intercalate ['/'] names ++ ['/']) →
      join descriptor rest = follow descriptor.base names ∨
        join descriptor rest = follow descriptor.base names ++ ['/'])
    (h3 : Preview3.join descriptor names = follow descriptor.base names) :
    Confined descriptor subpath := by
  have hkept : ¬ (Absolute subpath ∨ PopsPast subpath) := by
    intro hout
    rw [(reference_eq_none_iff subpath).mpr hout] at href
    cases href
  obtain ⟨rest, hfull2, hnil, hrest⟩ := preview2_followed descriptor href
  have hjoin2 := h2 rest hnil hrest
  have hfull3 : Preview3.getFullPath descriptor subpath =
      if subpath = [] then .error .noEntry else .ok (follow descriptor.base names) := by
    rw [preview3_getFullPath, href, Option.elim_some, h3]
  refine ⟨?_, ?_, ?_, ?_, ?_⟩
  · intro full hfull
    rw [hfull2, Except.ok.injEq] at hfull
    subst hfull
    exact ⟨names, href, plain_of_reference href, hjoin2⟩
  · intro full hfull
    rw [hfull3] at hfull
    split at hfull
    next => cases hfull
    next => exact ⟨names, href, plain_of_reference href, (Except.ok.inj hfull).symm⟩
  · rw [hfull2]
    exact iff_of_false nofun hkept
  · rw [hfull3]
    refine iff_of_false ?_ hkept
    split
    next => nofun
    next => nofun
  · intro hne
    rw [hfull2, hfull3, if_neg hne]
    rcases hjoin2 with hjoin2 | hjoin2
    · exact Or.inl hjoin2
    · exact Or.inr (Or.inl hjoin2)

theorem confined_of_refused (descriptor : Descriptor)
    (h : reference subpath = none) : Confined descriptor subpath := by
  have hout := (reference_eq_none_iff subpath).mp h
  have hne : subpath ≠ [] := by
    rintro rfl
    rw [reference_nil] at h
    cases h
  have hfull2 := preview2_refused descriptor h
  have hfull3 : Preview3.getFullPath descriptor subpath = .error .notPermitted := by
    rw [preview3_getFullPath, if_neg hne, h, Option.elim_none]
  refine ⟨?_, ?_, iff_of_true hfull2 hout, iff_of_true hfull3 hout, ?_⟩
  · intro full hfull
    rw [hfull2] at hfull
    cases hfull
  · intro full hfull
    rw [hfull3] at hfull
    cases hfull
  · intro _
    rw [hfull2, hfull3]
    rfl

theorem confined_of_base
    (href : reference subpath = some []) (h : descriptor ≠ .preopen []) :
    Confined descriptor subpath := by
  refine confined_of_joins href ?_ ?_
  · intro rest hnil _
    rw [hnil rfl, preview2_join_nil h, follow_nil]
    exact Or.inl rfl
  · rw [follow_nil]
    rfl

theorem confined_of_joinable
    (href : reference subpath = some names) (h : descriptor.Joinable) :
    Confined descriptor subpath := by
  by_cases hnames : names = []
  · subst hnames
    refine confined_of_base href ?_
    rintro rfl
    exact h.1 rfl
  · refine confined_of_joins href ?_ (preview3_join_of_joinable h names)
    intro rest _ hrest
    obtain ⟨c, tail, hhead, -⟩ := head?_intercalate (plain_of_reference href) hnames
    have hne : rest ≠ [] := by
      rcases hrest with rfl | rfl
      · simp [hhead]
      · simp
    rw [preview2_join_of_joinable h hne, follow, if_neg hnames]
    rcases hrest with rfl | rfl
    · exact Or.inl rfl
    · exact Or.inr (append_assoc _ _ _).symm

/-! ## The condition is needed -/

/-- preview3 loses or doubles the slashes of a preopen that is the root or ends
with two. -/
theorem preview3_join_ne {hostPreopen : Path} (hne : names ≠ [])
    (h : hostPreopen = ['/'] ∨ ['/', '/'] <:+ hostPreopen) :
    Preview3.join (.preopen hostPreopen) names ≠ follow hostPreopen names := by
  have hends : EndsWithSlash hostPreopen := by
    rcases h with rfl | ⟨init, rfl⟩
    · rfl
    · simp [EndsWithSlash]
  unfold Preview3.join follow
  rw [if_neg (by simpa using hne), if_neg hne, if_pos hends, append_nil]
  simp only [Descriptor.base]
  intro heq
  have hlen := congrArg List.length heq
  simp only [length_append, length_singleton] at hlen
  rcases h with rfl | ⟨init, rfl⟩
  · simp [stripTrailingSlash] at hlen
  · -- two slashes go and one comes back
    have hstrip : stripTrailingSlash (init ++ ['/', '/']) = init.rdropWhile (· = '/') := by
      rw [show init ++ ['/', '/'] = (init ++ ['/']) ++ ['/'] by simp,
        stripTrailingSlash_concat (by simp), rdropWhile_concat_pos _ _ _ (by simp)]
    have hle : (init.rdropWhile (· = '/')).length ≤ init.length :=
      (List.rdropWhile_prefix (· = '/') init).length_le
    rw [hstrip] at hlen
    simp only [length_append, length_cons, length_nil] at hlen
    omega

/-- preview2 doubles the slash of an opened directory. -/
theorem preview2_join_ne {fullPath rest : Path}
    (hplain : ∀ name ∈ names, Plain name) (hne : names ≠ []) (h : EndsWithSlash fullPath)
    (hrest : rest ≠ []) (tail : Path) :
    join (.opened fullPath) rest ≠ follow fullPath names ++ tail := by
  have hpos : 0 < rest.length := length_pos_iff.mpr hrest
  obtain ⟨c, text, htext, hc⟩ := head?_intercalate hplain hne
  change fullPath ++ (if 0 < rest.length then ['/'] else []) ++ rest ≠ _
  rw [follow, if_neg hne, if_pos h, if_pos hpos, append_nil, htext, append_assoc,
    append_assoc]
  intro heq
  have hcons := append_cancel_left heq
  rw [singleton_append, cons_append, List.cons.injEq] at hcons
  exact hc hcons.1.symm

/-- preview2 does not see an empty preopen. -/
theorem preview2_join_empty_ne (rest tail : Path) (names : List Path) (htail : tail.head? ≠ some 'u') :
    join (.preopen []) rest ≠ follow [] names ++ tail := by
  intro heq
  have hhead := congrArg List.head? heq
  by_cases hne : names = []
  · rw [hne, follow_nil, nil_append] at hhead
    exact htail (hhead.symm.trans rfl)
  · simp [join, follow, hne, EndsWithSlash] at hhead

/-- A path that stays inside its base is confined only when the base is joinable
or all there is to return. -/
theorem joinable_of_confined
    (href : reference subpath = some names) (h : Confined descriptor subpath) :
    (names = [] ∧ descriptor ≠ .preopen []) ∨ descriptor.Joinable := by
  have hplain := plain_of_reference href
  obtain ⟨rest, hfull2, hnil, hrest⟩ := preview2_followed descriptor href
  have hjoin2 : join descriptor rest = follow descriptor.base names ++ [] ∨
      join descriptor rest = follow descriptor.base names ++ ['/'] := by
    obtain ⟨others, hothers, -, hjoin⟩ := h.preview2 _ hfull2
    rw [href, Option.some.injEq] at hothers
    subst hothers
    rwa [append_nil]
  have hjoin3 : names ≠ [] → Preview3.join descriptor names = follow descriptor.base names := by
    intro hne
    have hsub : subpath ≠ [] := by
      rintro rfl
      rw [reference_nil] at href
      exact hne (Option.some.inj href).symm
    have hfull3 : Preview3.getFullPath descriptor subpath = .ok (Preview3.join descriptor names) := by
      rw [preview3_getFullPath, if_neg hsub, href, Option.elim_some]
    obtain ⟨others, hothers, -, hjoin⟩ := h.preview3 _ hfull3
    rw [href, Option.some.injEq] at hothers
    subst hothers
    exact hjoin
  have hempty : descriptor ≠ .preopen [] := by
    rintro rfl
    rcases hjoin2 with hjoin2 | hjoin2
    · exact preview2_join_empty_ne rest [] names nofun hjoin2
    · exact preview2_join_empty_ne rest ['/'] names (by decide) hjoin2
  by_cases hne : names = []
  · exact Or.inl ⟨hne, hempty⟩
  · refine Or.inr ?_
    obtain ⟨c, text, htext, -⟩ := head?_intercalate hplain hne
    have hrestNe : rest ≠ [] := by
      rcases hrest with rfl | rfl
      · simp [htext]
      · simp
    cases descriptor with
    | opened fullPath =>
      intro hends
      rcases hjoin2 with hjoin2 | hjoin2
      · exact preview2_join_ne hplain hne hends hrestNe _ hjoin2
      · exact preview2_join_ne hplain hne hends hrestNe _ hjoin2
    | preopen hostPreopen =>
      refine ⟨fun hnil => hempty (by rw [hnil]), ?_, ?_⟩
      · exact fun hroot => preview3_join_ne hne (Or.inl hroot) (hjoin3 hne)
      · exact fun hdouble => preview3_join_ne hne (Or.inr hdouble) (hjoin3 hne)

/-- Both shims confine a path, and agree on it, exactly when they refuse it, or
it names its base, or the base takes one slash. -/
theorem paths_confined_iff (descriptor : Descriptor) (subpath : Path) :
    Confined descriptor subpath ↔
      (Absolute subpath ∨ PopsPast subpath) ∨
      (reference subpath = some [] ∧ descriptor ≠ .preopen []) ∨ descriptor.Joinable := by
  rw [← reference_eq_none_iff]
  constructor
  · intro h
    cases href : reference subpath with
    | none => exact Or.inl rfl
    | some names =>
      refine Or.inr ?_
      rcases joinable_of_confined href h with ⟨rfl, hempty⟩ | hjoinable
      · exact Or.inl ⟨rfl, hempty⟩
      · exact Or.inr hjoinable
  · rintro (hrefused | ⟨href, hempty⟩ | hjoinable)
    · exact confined_of_refused descriptor hrefused
    · exact confined_of_base href hempty
    · cases href : reference subpath with
      | none => exact confined_of_refused descriptor href
      | some names => exact confined_of_joinable href hjoinable

/-- Below the root preview3 returns a path with two slashes. -/
theorem root_preopen_not_confined : ¬ ∀ descriptor subpath, Confined descriptor subpath := by
  intro h
  have href : reference ['a'] = some [['a']] := by
    simp [reference, Absolute, moves, move, IsSeparator, splitOnP_cons_eq_if_modifyHead, splitOnP_nil]
  have hfull : Preview3.getFullPath (.preopen ['/']) ['a'] = .ok ['/', '/', 'a'] := by
    rw [preview3_getFullPath, href]
    rfl
  obtain ⟨names, hnames, -, hjoin⟩ := (h (.preopen ['/']) ['a']).preview3 _ hfull
  rw [href, Option.some.injEq] at hnames
  subst hnames
  exact absurd hjoin (by decide)

end Jco.Filesystem
