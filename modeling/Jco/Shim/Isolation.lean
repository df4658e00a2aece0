import Jco.Filesystem.BrowserTree
import Jco.Filesystem.FullPath
import Jco.Lib.Run

/-! # Isolation of shim instances

A `WASIShim` is built from sandbox options and handed to a guest as its import
object. What the guest may do with it is in part closed over by the instance
(its preopens) and in part looked up in the modules all instances share: the
default network and the preopen list of the Node shims, the file tree of the
browser shim.

A run is a sequence of constructions, with calls of the functions that
reconfigure the shared preopens in between. `Isolated` says that each instance
allows what its own configuration says. `Kept` is the condition on a step that
decides whether it stays so.
-/

namespace Jco.Shim

open Jco.Lib Jco.Filesystem List

/-- The sandbox options of a configuration that bear on files and sockets. -/
structure SandboxConfig where
  /-- The entries of the preopens map: virtual path and host path. -/
  preopens : Option (List (Path × Path))
  enableNetwork : Option Bool
deriving DecidableEq, Repr

/-- `sandbox?.enableNetwork === false`. -/
def SandboxConfig.Denies (config : SandboxConfig) : Prop := config.enableNetwork = some false

instance (config : SandboxConfig) : Decidable config.Denies :=
  inferInstanceAs (Decidable (_ = _))

/-! ## The Node shims -/

namespace Node

/-- The private flags of a `Network`. -/
structure Network where
  allowDnsLookup : Bool
  allowTcp : Bool
  allowUdp : Bool
deriving DecidableEq, Repr

/-- An entry of a preopen list: the descriptor and its virtual path. -/
abbrev Preopen := Descriptor × Path

/-- `Descriptor._createPreopen`, on a host with slashes. -/
def createPreopenDescriptor (hostPreopen : Path) : Descriptor :=
  .preopen
    (if EndsWithSlash hostPreopen then
      if hostPreopen.dropLast = [] then ['/'] else hostPreopen.dropLast
    else hostPreopen)

/-- `createIsolatedPreopens`. -/
def createIsolatedPreopens (preopensConfig : List (Path × Path)) : List Preopen :=
  preopensConfig.map fun (virtualPath, hostPath) => (createPreopenDescriptor hostPath, virtualPath)

/-- A `WASIShim` with the options it was built from. -/
structure Instance where
  config : SandboxConfig
  preopens : Option (List Preopen)

/-- The shared modules and the instances built so far. -/
structure State where
  preopenEntries : List Preopen
  defaultNetwork : Network
  instances : List Instance

/-- What can be called outside of a guest. -/
inductive Call where
  | construct (config : SandboxConfig)
  | setPreopens (preopens : List (Path × Path))
  | addPreopen (virtualPath hostPreopen : Path)
  | clearPreopens

/-- `_addPreopen("/", "/")` as the module is loaded. -/
def init : State where
  preopenEntries := [(createPreopenDescriptor ['/'], ['/'])]
  defaultNetwork := ⟨true, true, true⟩
  instances := []

/-- `_denyTcp()`, `_denyUdp()` and `_denyDnsLookup()` take the default network. -/
def denyAll (_ : Network) : Network := ⟨false, false, false⟩

def run : Call → State → State
  | .construct config, s =>
    { s with
      instances := s.instances ++ [⟨config, config.preopens.map createIsolatedPreopens⟩]
      defaultNetwork := if config.Denies then denyAll s.defaultNetwork else s.defaultNetwork }
  | .setPreopens preopens, s => { s with preopenEntries := createIsolatedPreopens preopens }
  | .addPreopen virtualPath hostPreopen, s =>
    { s with preopenEntries := s.preopenEntries ++ [(createPreopenDescriptor hostPreopen, virtualPath)] }
  | .clearPreopens, s => { s with preopenEntries := [] }

def next (call : Call) (s s' : State) : Prop := s' = run call s

/-! ### What an import object allows -/

/-- `preopens.getDirectories()` of the import object. -/
def getDirectories (s : State) (inst : Instance) : List Preopen := inst.preopens.getD s.preopenEntries

/-- Why `openAt` throws before it calls the host. -/
inductive OpenError where
  | access
  | path (code : ErrorCode)
deriving DecidableEq, Repr

/-- The first lines of `openAt`. -/
def openAt (s : State) (descriptor : Descriptor) (path : Path) : Except OpenError Path :=
  if s.preopenEntries.length = 0 then .error .access
  else (Preview2.getFullPath descriptor path).mapError .path

/-- A file can be opened below a descriptor. -/
def Opens (s : State) (descriptor : Descriptor) : Prop := ∃ path full, openAt s descriptor path = .ok full

/-- What a guest may do: open files in directories, use TCP and UDP, look names up. -/
structure Rights where
  opens : Preopen → Prop
  tcp : Bool
  udp : Bool
  dnsLookup : Bool

/-- What the import object of an instance allows. -/
def allowed (s : State) (inst : Instance) : Rights where
  opens preopen := preopen ∈ getDirectories s inst ∧ Opens s preopen.1
  tcp := s.defaultNetwork.allowTcp
  udp := s.defaultNetwork.allowUdp
  dnsLookup := s.defaultNetwork.allowDnsLookup

/-- What a configuration says. Without preopens of its own it is given the
shared ones. -/
def configured (s : State) (config : SandboxConfig) : Rights where
  opens preopen := preopen ∈ (config.preopens.map createIsolatedPreopens).getD s.preopenEntries
  tcp := !decide config.Denies
  udp := !decide config.Denies
  dnsLookup := !decide config.Denies

/-- Every instance allows what its own configuration says. -/
def Isolated (s : State) : Prop := ∀ inst ∈ s.instances, allowed s inst = configured s inst.config

/-- The configuration names a directory of its own. -/
def OwnDirectory (config : SandboxConfig) : Prop :=
  ∃ preopens, config.preopens = some preopens ∧ preopens ≠ []

/-- A step that leaves the instances isolated: a new instance agrees with every
earlier one about the network and finds shared preopens if it has its own; and
the shared preopens are emptied only while no instance has its own. -/
def Kept : Call → State → Prop
  | .construct config, s =>
    (∀ inst ∈ s.instances, inst.config.Denies ↔ config.Denies) ∧
      (OwnDirectory config → s.preopenEntries ≠ [])
  | .setPreopens preopens, s => preopens = [] → ∀ inst ∈ s.instances, ¬ OwnDirectory inst.config
  | .addPreopen _ _, _ => True
  | .clearPreopens, s => ∀ inst ∈ s.instances, ¬ OwnDirectory inst.config

/-! ### Rights -/

/-- Some path is opened below any descriptor as long as there are shared preopens. -/
theorem opens_iff (s : State) (descriptor : Descriptor) :
    Opens s descriptor ↔ s.preopenEntries ≠ [] := by
  constructor
  · rintro ⟨path, full, hopen⟩ hnil
    simp [openAt, hnil] at hopen
  · intro hne
    obtain ⟨rest, hfull, -⟩ := preview2_followed descriptor reference_nil
    refine ⟨[], Preview2.join descriptor rest, ?_⟩
    unfold openAt
    rw [if_neg (by simpa using hne), hfull]
    rfl

theorem allowed_eq_iff (s : State) {inst : Instance}
    (hown : inst.preopens = inst.config.preopens.map createIsolatedPreopens) :
    allowed s inst = configured s inst.config ↔
      (OwnDirectory inst.config → s.preopenEntries ≠ []) ∧
      s.defaultNetwork = ⟨!decide inst.config.Denies, !decide inst.config.Denies, !decide inst.config.Denies⟩ := by
  have hopens : ((fun preopen => preopen ∈
        (inst.config.preopens.map createIsolatedPreopens).getD s.preopenEntries ∧ s.preopenEntries ≠ []) =
      fun preopen => preopen ∈
        (inst.config.preopens.map createIsolatedPreopens).getD s.preopenEntries) ↔
      (OwnDirectory inst.config → s.preopenEntries ≠ []) := by
    constructor
    · rintro heq ⟨preopens, hpreopens, hne⟩
      obtain ⟨⟨virtualPath, hostPath⟩, rest, rfl⟩ := exists_cons_of_ne_nil hne
      have hmem := congrFun heq (createPreopenDescriptor hostPath, virtualPath)
      simp only [hpreopens, Option.map_some, Option.getD_some] at hmem
      exact (hmem.mpr (by simp [createIsolatedPreopens])).2
    · intro hkept
      funext preopen
      refine propext ⟨fun h => h.1, fun hmem => ⟨hmem, ?_⟩⟩
      cases hpreopens : inst.config.preopens with
      | none =>
        rw [hpreopens] at hmem
        exact ne_nil_of_mem hmem
      | some preopens =>
        rw [hpreopens] at hmem
        refine hkept ⟨preopens, hpreopens, ?_⟩
        rintro rfl
        cases hmem
  unfold allowed configured getDirectories
  rw [hown]
  cases hnet : s.defaultNetwork with
  | mk allowDnsLookup allowTcp allowUdp =>
    simp only [Rights.mk.injEq, Network.mk.injEq, opens_iff]
    rw [hopens]
    constructor
    · rintro ⟨hkept, htcp, hudp, hdns⟩
      exact ⟨hkept, hdns, htcp, hudp⟩
    · rintro ⟨hkept, hdns, htcp, hudp⟩
      exact ⟨hkept, htcp, hudp, hdns⟩

/-- The facts about the shared modules a run keeps: instances have the preopens
of their configuration, and the network was denied by an instance or not at all. -/
structure Inv (s : State) : Prop where
  own : ∀ inst ∈ s.instances, inst.preopens = inst.config.preopens.map createIsolatedPreopens
  network : s.defaultNetwork = ⟨true, true, true⟩ ∧ (∀ inst ∈ s.instances, ¬ inst.config.Denies) ∨
    s.defaultNetwork = ⟨false, false, false⟩ ∧ ∃ inst ∈ s.instances, inst.config.Denies

theorem init_inv : Inv init := ⟨nofun, Or.inl ⟨rfl, nofun⟩⟩

theorem Inv.next {call : Call} {s s' : State} (h : Inv s) (hnext : next call s s') : Inv s' := by
  cases hnext
  cases call with
  | setPreopens preopens => exact ⟨h.own, h.network⟩
  | addPreopen virtualPath hostPreopen => exact ⟨h.own, h.network⟩
  | clearPreopens => exact ⟨h.own, h.network⟩
  | construct config =>
    constructor
    · intro inst hinst
      rcases mem_append.mp hinst with hold | hnew
      · exact h.own inst hold
      · rw [mem_singleton.mp hnew]
    · have hnew : (⟨config, config.preopens.map createIsolatedPreopens⟩ : Instance) ∈
          (run (.construct config) s).instances := mem_append_right _ (mem_singleton.mpr rfl)
      by_cases hdenies : config.Denies
      · refine Or.inr ⟨?_, _, hnew, hdenies⟩
        simp [run, hdenies, denyAll]
      · rcases h.network with ⟨hnet, hnone⟩ | ⟨hnet, inst, hinst, hdenied⟩
        · refine Or.inl ⟨?_, ?_⟩
          · simp [run, hdenies, hnet]
          · intro inst hinst
            rcases mem_append.mp hinst with hold | hlast
            · exact hnone inst hold
            · rw [mem_singleton.mp hlast]
              exact hdenies
        · refine Or.inr ⟨?_, inst, mem_append_left _ hinst, hdenied⟩
          simp [run, hdenies, hnet]

theorem isolated_iff {s : State} (h : Inv s) :
    Isolated s ↔
      (∀ inst ∈ s.instances, OwnDirectory inst.config → s.preopenEntries ≠ []) ∧
      ∀ inst ∈ s.instances, ∀ other ∈ s.instances, inst.config.Denies ↔ other.config.Denies := by
  constructor
  · intro hiso
    have hrights (inst : Instance) (hinst : inst ∈ s.instances) :=
      (allowed_eq_iff s (h.own inst hinst)).mp (hiso inst hinst)
    refine ⟨fun inst hinst => (hrights inst hinst).1, ?_⟩
    intro inst hinst other hother
    have heq := (hrights inst hinst).2.symm.trans (hrights other hother).2
    simpa using heq
  · rintro ⟨hown, hagree⟩ inst hinst
    refine (allowed_eq_iff s (h.own inst hinst)).mpr ⟨hown inst hinst, ?_⟩
    rcases h.network with ⟨hnet, hnone⟩ | ⟨hnet, other, hother, hdenied⟩
    · simp [hnet, hnone inst hinst]
    · simp [hnet, (hagree other hother inst hinst).mp hdenied]

/-- From isolated instances, a step leads to isolated instances exactly when it
is kept. -/
theorem isolated_run_iff {call : Call} {s : State} (h : Inv s) (hiso : Isolated s) :
    Isolated (run call s) ↔ Kept call s := by
  have hinv : Inv (run call s) := h.next rfl
  obtain ⟨hown, hagree⟩ := (isolated_iff h).mp hiso
  rw [isolated_iff hinv]
  cases call with
  | construct config =>
    have hnew : (⟨config, config.preopens.map createIsolatedPreopens⟩ : Instance) ∈
        (run (.construct config) s).instances := mem_append_right _ (mem_singleton.mpr rfl)
    constructor
    · rintro ⟨hdirs, hnet⟩
      refine ⟨?_, hdirs _ hnew⟩
      intro inst hinst
      exact hnet inst (mem_append_left _ hinst) _ hnew
    · rintro ⟨hnet, hdir⟩
      have hsame : ∀ inst ∈ (run (.construct config) s).instances, inst.config.Denies ↔ config.Denies := by
        intro inst hinst
        rcases mem_append.mp hinst with hold | hlast
        · exact hnet inst hold
        · rw [mem_singleton.mp hlast]
      refine ⟨?_, ?_⟩
      · intro inst hinst
        rcases mem_append.mp hinst with hold | hlast
        · exact hown inst hold
        · rw [mem_singleton.mp hlast]
          exact hdir
      · intro inst hinst other hother
        exact (hsame inst hinst).trans (hsame other hother).symm
  | setPreopens preopens =>
    constructor
    · rintro ⟨hdirs, -⟩ rfl inst hinst hdir
      exact hdirs inst hinst hdir rfl
    · intro hkept
      refine ⟨?_, hagree⟩
      intro inst hinst hdir hnil
      exact hkept (by simpa [run, createIsolatedPreopens] using hnil) inst hinst hdir
  | addPreopen virtualPath hostPreopen =>
    refine iff_of_true ⟨?_, hagree⟩ trivial
    intro inst hinst hdir
    simp [run]
  | clearPreopens =>
    constructor
    · rintro ⟨hdirs, -⟩ inst hinst hdir
      exact hdirs inst hinst hdir rfl
    · intro hkept
      exact ⟨fun inst hinst hdir => absurd hdir (hkept inst hinst), hagree⟩

/-- A run through isolated states. -/
def isolatedNext (call : Call) (s s' : State) : Prop := next call s s' ∧ Isolated s'

theorem runs_isolated_iff (calls : List Call) (s : State) :
    Run (guarded Kept next) init calls s ↔ Run isolatedNext init calls s := by
  have hstep : ∀ call t t', guarded Kept next call t t' → Inv t ∧ Isolated t → Inv t' ∧ Isolated t' := by
    rintro call t t' ⟨hkept, rfl⟩ ⟨hinv, hiso⟩
    exact ⟨hinv.next rfl, (isolated_run_iff hinv hiso).mpr hkept⟩
  refine Run.iff_of_invariant ?_ hstep ⟨init_inv, nofun⟩
  rintro call t t' ⟨hinv, hiso⟩
  constructor
  · rintro ⟨hkept, rfl⟩
    exact ⟨rfl, (isolated_run_iff hinv hiso).mpr hkept⟩
  · rintro ⟨rfl, hiso'⟩
    exact ⟨(isolated_run_iff hinv hiso).mp hiso', rfl⟩

end Node

/-! ## The browser shim

Its descriptors hold the file data they were created from, and every preopen is
created from the one `_fileData` of the module.
-/

namespace Browser

open BrowserTree (FileEntry)

/-- A `WASIShim`: its options, and the virtual paths of its preopens. Every one
of their descriptors holds `_fileData`. -/
structure Instance where
  config : SandboxConfig
  preopens : Option (List Path)

/-- `_fileData`, and the instances built so far. -/
structure State where
  fileData : FileEntry
  instances : List Instance

/-- The file data the embedder has set, before any instance is built. -/
def init (files : FileEntry) : State := ⟨files, []⟩

/-- `_createPreopenDescriptor`: the directory is replaced by one with one name, under which there
is nothing. -/
def createPreopenDescriptor (hostPreopen : Path) (fileData : FileEntry) : FileEntry :=
  fileData.withDir [(hostPreopen, .mk none none)]

/-- `createIsolatedPreopens`: the file data afterwards, and the virtual paths. -/
def createIsolatedPreopens : List (Path × Path) → FileEntry → FileEntry × List Path
  | [], fileData => (fileData, [])
  | (virtualPath, hostPath) :: preopensConfig, fileData =>
    let (after, entries) :=
      createIsolatedPreopens preopensConfig (createPreopenDescriptor hostPath fileData)
    (after, virtualPath :: entries)

/-- The constructor. The browser's sockets have no deny functions. -/
def construct (config : SandboxConfig) (s : State) : State :=
  match config.preopens with
  | none => { s with instances := s.instances ++ [⟨config, none⟩] }
  | some preopens =>
    let (fileData, entries) := createIsolatedPreopens preopens s.fileData
    { fileData := fileData, instances := s.instances ++ [⟨config, some entries⟩] }

def next (config : SandboxConfig) (s s' : State) : Prop := s' = construct config s

/-- The preopens of the import object, each with the file data of its descriptor. -/
def allowed (s : State) (inst : Instance) : List (Path × FileEntry) :=
  (inst.preopens.getD [['/']]).map fun virtualPath => (virtualPath, s.fileData)

/-- What a configuration says: each preopen has its own host path, and without
preopens there is the embedder's data. -/
def configured (files : FileEntry) (config : SandboxConfig) : List (Path × FileEntry) :=
  match config.preopens with
  | none => [(['/'], files)]
  | some preopens => preopens.map fun (virtualPath, hostPath) =>
    (virtualPath, createPreopenDescriptor hostPath files)

def Isolated (files : FileEntry) (s : State) : Prop :=
  ∀ inst ∈ s.instances, allowed s inst = configured files inst.config

/-- The host paths of a configuration. -/
def hosts (config : SandboxConfig) : List Path := (config.preopens.getD []).map Prod.snd

/-- All preopens of the new instance and the earlier ones have one host path,
and the embedder's data are what a preopen of it makes of them if an instance has
no preopens. -/
def Kept (files : FileEntry) (config : SandboxConfig) (s : State) : Prop :=
  (∀ host ∈ hosts config,
    (∀ other ∈ hosts config, other = host) ∧
      ∀ inst ∈ s.instances,
        (inst.config.preopens = none → files = createPreopenDescriptor host files) ∧
          ∀ other ∈ hosts inst.config, other = host) ∧
  (config.preopens = none → ∀ inst ∈ s.instances, ∀ host ∈ hosts inst.config,
    files = createPreopenDescriptor host files)

theorem createPreopenDescriptor_inj {host other : Path} {files : FileEntry}
    (h : createPreopenDescriptor host files = createPreopenDescriptor other files) :
    host = other :=
  congrArg Prod.fst (List.cons.inj (Option.some.inj (congrArg FileEntry.dir h))).1

/-- The last preopen is what is left of the directory. -/
theorem createIsolatedPreopens_eq (preopens : List (Path × Path)) (files : FileEntry) :
    createIsolatedPreopens preopens files =
      (((preopens.map Prod.snd).getLast?).elim files fun host => createPreopenDescriptor host files,
        preopens.map Prod.fst) := by
  induction preopens generalizing files with
  | nil => rfl
  | cons preopen preopens ih =>
    obtain ⟨virtualPath, hostPath⟩ := preopen
    rw [createIsolatedPreopens, ih]
    cases preopens with
    | nil => rfl
    | cons next preopens => simp [List.getLast?_cons, createPreopenDescriptor, FileEntry.withDir,
        FileEntry.source]

theorem construct_fileData (config : SandboxConfig) (s : State) :
    (construct config s).fileData =
      (hosts config).getLast?.elim s.fileData fun host =>
        createPreopenDescriptor host s.fileData := by
  unfold construct hosts
  cases config.preopens with
  | none => rfl
  | some preopens =>
    simp only [createIsolatedPreopens_eq]
    rfl

theorem construct_instances (config : SandboxConfig) (s : State) :
    (construct config s).instances = s.instances ++ [⟨config, config.preopens.map (·.map Prod.fst)⟩] := by
  unfold construct
  cases hpreopens : config.preopens with
  | none => rfl
  | some preopens =>
    simp only [createIsolatedPreopens_eq]
    rfl

theorem allowed_eq_iff (files : FileEntry) (s : State) {inst : Instance}
    (hown : inst.preopens = inst.config.preopens.map (·.map Prod.fst)) :
    allowed s inst = configured files inst.config ↔
      (inst.config.preopens = none → s.fileData = files) ∧
        ∀ host ∈ hosts inst.config, s.fileData = createPreopenDescriptor host files := by
  unfold allowed configured hosts
  rw [hown]
  cases inst.config.preopens with
  | none => simp
  | some preopens =>
    have hswap : (∀ virtualPath hostPath, (virtualPath, hostPath) ∈ preopens →
          s.fileData = createPreopenDescriptor hostPath files) ↔
        ∀ hostPath virtualPath, (virtualPath, hostPath) ∈ preopens →
          s.fileData = createPreopenDescriptor hostPath files := forall_comm
    simpa using hswap

/-- What a run keeps of the shared file data: they are the embedder's, or have the one
name of a preopen. -/
structure Inv (files : FileEntry) (s : State) : Prop where
  own : ∀ inst ∈ s.instances, inst.preopens = inst.config.preopens.map (·.map Prod.fst)
  fileData : (s.fileData = files ∧ ∀ inst ∈ s.instances, hosts inst.config = []) ∨
    ∃ inst ∈ s.instances, ∃ host ∈ hosts inst.config,
      s.fileData = createPreopenDescriptor host files

/-- The source of the file data stays, whatever the directory. -/
theorem Inv.createPreopenDescriptor {files : FileEntry} {s : State} (h : Inv files s)
    (host : Path) :
    createPreopenDescriptor host s.fileData = createPreopenDescriptor host files := by
  rcases h.fileData with ⟨hfiles, -⟩ | ⟨_, _, other, _, heq⟩
  · rw [hfiles]
  · rw [heq]
    rfl

theorem init_inv (files : FileEntry) : Inv files (init files) := ⟨nofun, Or.inl ⟨rfl, nofun⟩⟩

theorem Inv.next {files : FileEntry} {config : SandboxConfig} {s s' : State} (h : Inv files s)
    (hnext : next config s s') : Inv files s' := by
  cases hnext
  have hinstances := construct_instances config s
  have hdir := construct_fileData config s
  constructor
  · intro inst hinst
    rw [hinstances] at hinst
    rcases mem_append.mp hinst with hold | hnew
    · exact h.own inst hold
    · rw [mem_singleton.mp hnew]
  · rw [hinstances, hdir]
    rcases eq_nil_or_concat (hosts config) with hnone | ⟨init, last, hlast⟩
    · rw [hnone]
      rcases h.fileData with ⟨hfiles, hempty⟩ | ⟨inst, hinst, host, hhost, heq⟩
      · refine Or.inl ⟨hfiles, ?_⟩
        intro inst hinst
        rcases mem_append.mp hinst with hold | hnew
        · exact hempty inst hold
        · rw [mem_singleton.mp hnew]
          exact hnone
      · exact Or.inr ⟨inst, mem_append_left _ hinst, host, hhost, heq⟩
    · rw [concat_eq_append] at hlast
      refine Or.inr ⟨_, mem_append_right _ (mem_singleton.mpr rfl), last, ?_, ?_⟩
      · rw [hlast]
        exact mem_append_right _ (mem_singleton.mpr rfl)
      · rw [hlast, List.getLast?_concat]
        exact h.createPreopenDescriptor last

/-- From isolated instances, a construction leads to isolated instances exactly
when it is kept. -/
theorem isolated_construct_iff {files : FileEntry} {config : SandboxConfig} {s : State}
    (h : Inv files s) (hiso : Isolated files s) :
    Isolated files (construct config s) ↔ Kept files config s := by
  have hinv : Inv files (construct config s) := h.next rfl
  have hrights (inst : Instance) (hinst : inst ∈ s.instances) :=
    (allowed_eq_iff files s (h.own inst hinst)).mp (hiso inst hinst)
  -- what isolation says of every instance after the construction
  have hafter : Isolated files (construct config s) ↔
      (∀ inst ∈ s.instances,
        (inst.config.preopens = none → (construct config s).fileData = files) ∧
          ∀ host ∈ hosts inst.config,
            (construct config s).fileData = createPreopenDescriptor host files) ∧
      (config.preopens = none → (construct config s).fileData = files) ∧
        ∀ host ∈ hosts config,
          (construct config s).fileData = createPreopenDescriptor host files := by
    have hiff (inst : Instance) (hinst : inst ∈ (construct config s).instances) :=
      allowed_eq_iff files (construct config s) (hinv.own inst hinst)
    rw [construct_instances] at hiff
    unfold Isolated
    rw [construct_instances]
    constructor
    · intro hall
      refine ⟨?_, ?_⟩
      · intro inst hinst
        have hmem := mem_append_left [⟨config, config.preopens.map (·.map Prod.fst)⟩] hinst
        exact (hiff inst hmem).mp (hall inst hmem)
      · have hmem : (⟨config, config.preopens.map (·.map Prod.fst)⟩ : Instance) ∈
            s.instances ++ [⟨config, config.preopens.map (·.map Prod.fst)⟩] :=
          mem_append_right _ (mem_singleton.mpr rfl)
        exact (hiff _ hmem).mp (hall _ hmem)
    · rintro ⟨hold, hnew⟩ inst hinst
      refine (hiff inst hinst).mpr ?_
      rcases mem_append.mp hinst with hmem | hlast
      · exact hold inst hmem
      · rw [mem_singleton.mp hlast]
        exact hnew
  rw [hafter, construct_fileData]
  rcases eq_nil_or_concat (hosts config) with hnone | ⟨start, last, hlast⟩
  · -- no preopen is created, the directory stays
    unfold Kept
    rw [hnone]
    simp only [List.getLast?_nil, Option.elim_none, not_mem_nil, false_implies, implies_true,
      and_true, true_and]
    constructor
    · rintro ⟨-, hfiles⟩ hpreopens inst hinst host hhost
      exact (hfiles hpreopens).symm.trans ((hrights inst hinst).2 host hhost)
    · intro hkept
      refine ⟨hrights, ?_⟩
      intro hpreopens
      rcases h.fileData with ⟨hfiles, -⟩ | ⟨inst, hinst, host, hhost, heq⟩
      · exact hfiles
      · exact heq.trans (hkept hpreopens inst hinst host hhost).symm
  · rw [concat_eq_append] at hlast
    have hmem : last ∈ hosts config := by
      rw [hlast]
      exact mem_append_right _ (mem_singleton.mpr rfl)
    have hsome : config.preopens ≠ none := by
      intro hpreopens
      simp [hosts, hpreopens] at hmem
    have hget : (hosts config).getLast? = some last := by rw [hlast, List.getLast?_concat]
    rw [hget, Option.elim_some, h.createPreopenDescriptor]
    constructor
    · rintro ⟨hold, -, hnew⟩
      refine ⟨?_, fun hpreopens => absurd hpreopens hsome⟩
      intro host hhost
      obtain rfl : last = host := createPreopenDescriptor_inj (hnew host hhost)
      refine ⟨fun other hother => (createPreopenDescriptor_inj (hnew other hother)).symm, ?_⟩
      intro inst hinst
      refine ⟨fun hpreopens => ((hold inst hinst).1 hpreopens).symm, ?_⟩
      intro other hother
      exact (createPreopenDescriptor_inj ((hold inst hinst).2 other hother)).symm
    · rintro ⟨hkept, -⟩
      obtain ⟨hsame, hothers⟩ := hkept last hmem
      refine ⟨?_, fun hpreopens => absurd hpreopens hsome, ?_⟩
      · intro inst hinst
        obtain ⟨hfiles, hhosts⟩ := hothers inst hinst
        refine ⟨fun hpreopens => (hfiles hpreopens).symm, ?_⟩
        intro host hhost
        rw [hhosts host hhost]
      · intro host hhost
        rw [hsame host hhost]

/-- A run through isolated states. -/
def isolatedNext (files : FileEntry) (config : SandboxConfig) (s s' : State) : Prop :=
  next config s s' ∧ Isolated files s'

theorem runs_isolated_iff (files : FileEntry) (configs : List SandboxConfig) (s : State) :
    Run (guarded (Kept files) next) (init files) configs s ↔
      Run (isolatedNext files) (init files) configs s := by
  have hstep : ∀ config t t', guarded (Kept files) next config t t' →
      Inv files t ∧ Isolated files t → Inv files t' ∧ Isolated files t' := by
    rintro config t t' ⟨hkept, rfl⟩ ⟨hinv, hiso⟩
    exact ⟨hinv.next rfl, (isolated_construct_iff hinv hiso).mpr hkept⟩
  refine Run.iff_of_invariant ?_ hstep ⟨init_inv files, nofun⟩
  rintro config t t' ⟨hinv, hiso⟩
  constructor
  · rintro ⟨hkept, rfl⟩
    exact ⟨rfl, (isolated_construct_iff hinv hiso).mpr hkept⟩
  · rintro ⟨rfl, hiso'⟩
    exact ⟨(isolated_construct_iff hinv hiso).mp hiso', rfl⟩

end Browser

/-- In both shims, the runs all of whose steps are kept are the runs through
isolated states. -/
theorem shims_isolated_iff (calls : List Node.Call) (node : Node.State) (files : BrowserTree.FileEntry)
    (configs : List SandboxConfig) (browser : Browser.State) :
    (Run (guarded Node.Kept Node.next) Node.init calls node ↔
      Run Node.isolatedNext Node.init calls node) ∧
    (Run (guarded (Browser.Kept files) Browser.next) (Browser.init files) configs browser ↔
      Run (Browser.isolatedNext files) (Browser.init files) configs browser) :=
  ⟨Node.runs_isolated_iff calls node, Browser.runs_isolated_iff files configs browser⟩

/-- An instance without network takes it from one built before. -/
theorem deny_not_isolated :
    ¬ ∀ calls s, Run Node.next Node.init calls s → Node.Isolated s := by
  intro h
  have hiso := h [.construct ⟨none, none⟩, .construct ⟨none, some false⟩] _
    (.cons rfl (.cons rfl (.nil _)))
  have hrights := hiso ⟨⟨none, none⟩, none⟩ mem_cons_self
  exact absurd (congrArg Node.Rights.tcp hrights) (by decide)

end Jco.Shim
