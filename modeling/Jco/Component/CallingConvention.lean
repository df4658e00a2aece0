import Mathlib
import Jco.Js.Basic

/-! # The calling convention of lowered imports and of task.return

The canonical ABI flattens the types of a function to core values and bounds
their number: what does not fit goes through memory, with one pointer in its
place. Bindgen recomputes for every lowered import whether there is a result
pointer, and for every `task.return` whether its results are core params. The
flat counts it has are absent for types that do not fit.
-/

namespace Jco.Component.CallingConvention

open Jco.Js

variable {Ty M E V : Type*}

/-! ## Flat types -/

/-- The types of a component: how many core values each is flattened to, and
the `flat_count` bindgen is given, which large types do not have. -/
structure CanonicalAbi (Ty : Type*) where
  flat : Ty → Nat
  flatCount : Ty → Option Nat
  flatCount_eq : ∀ ty, flatCount ty = if flat ty ≤ 16 then some (flat ty) else none

structure FuncType (Ty : Type*) where
  params : List Ty
  results : List Ty
  async : Bool

/-- How many core values a list of types is flattened to. -/
def flatTotal (abi : CanonicalAbi Ty) (types : List Ty) : Nat := (types.map abi.flat).sum

/-! ## What the canonical ABI prescribes -/

/-- The core function of a lowered import: how many params carry its arguments,
and whether a result pointer comes after them. -/
structure CoreSignature where
  params : Nat
  resultPointer : Bool

/-- The core signature of a lowered function. An async lowering has four flat
params at most and no flat results, a sync lowering sixteen and one. -/
def lowered (abi : CanonicalAbi Ty) (isAsync : Bool) (func : FuncType Ty) : CoreSignature where
  params :=
    if flatTotal abi func.params ≤ (if isAsync then 4 else 16) then flatTotal abi func.params else 1
  resultPointer := decide ((if isAsync then 0 else 1) < flatTotal abi func.results)

/-- The core params of `task.return`. -/
def returned (abi : CanonicalAbi Ty) (results : List Ty) : Nat :=
  if flatTotal abi results ≤ 16 then flatTotal abi results else 1

/-! ## Lowered imports -/

def maxFlatParams : Nat := 16

def maxFlatResults : Nat := 1

/-- `result_flat_count`: absent when one of the counts is. -/
def resultFlatCount (abi : CanonicalAbi Ty) (resultTypes : List Ty) : Option Nat :=
  resultTypes.foldlM (fun count ty => (abi.flatCount ty).map fun flatCount => count + flatCount) 0

def hasResultPointer (abi : CanonicalAbi Ty) (isAsync : Bool) (func : FuncType Ty) : Bool :=
  let maxDirectResults := if isAsync || func.async then 0 else maxFlatResults
  ((resultFlatCount abi func.results).map fun count => decide (maxDirectResults < count)).getD true

/-- `resultPtr` in `LowerImport`: the last core param. -/
def resultPtr (hasResultPointer : Bool) (params : List Int) : Option Int :=
  if hasResultPointer then params.getLast? else none

/-! ## task.return -/

/-- What a lift function reads from. -/
structure LiftCtx (M E : Type*) where
  memory : Option M
  useDirectParams : Bool
  params : List Int
  componentIdx : Nat
  stringEncoding : E
  storagePtr : Option Int
  storageLen : Option Int

/-- A lift function gives a value and the context for the next one. -/
abbrev LiftFn (M E V : Type*) := LiftCtx M E → Except JsError (V × LiftCtx M E)

/-- The object the trampoline binds to `TaskReturn`. -/
structure TaskReturnCtx (M E V : Type*) where
  componentIdx : Nat
  useDirectParams : Bool
  getMemoryFn : Option M
  memoryIdx : Option Nat
  callbackFnIdx : Option Nat
  liftFns : List (LiftFn M E V)
  stringEncoding : E
  /-- The property `TaskReturn` reads besides `getMemoryFn`. -/
  memory : Option M

/-- The canonical options of a `task.return`. -/
structure ReturnOptions (M E : Type*) where
  componentIdx : Nat
  memory : Option (Nat × M)
  callback : Option Nat
  stringEncoding : E

def resultFlatParamTotal (abi : CanonicalAbi Ty) (resultTypes : List Ty) : Nat :=
  (resultTypes.map fun ty => (abi.flatCount ty).getD 0).sum

def useDirectParams (abi : CanonicalAbi Ty) (resultTypes : List Ty) : Bool :=
  decide (resultFlatParamTotal abi resultTypes < maxFlatParams)

/-- `Trampoline::TaskReturn`. The object literal has no property `memory`. -/
def taskReturnCtx (abi : CanonicalAbi Ty) (results : List Ty) (options : ReturnOptions M E)
    (liftFns : List (LiftFn M E V)) : TaskReturnCtx M E V where
  componentIdx := options.componentIdx
  useDirectParams := useDirectParams abi results
  getMemoryFn := options.memory.map Prod.snd
  memoryIdx := options.memory.map Prod.fst
  callbackFnIdx := options.callback
  liftFns := liftFns
  stringEncoding := options.stringEncoding
  memory := none

/-- The call metadata of the subtask a task runs for. -/
structure CallMetadata where
  returnFn : Bool
  returnFnCalled : Bool
  resultPtr : Option Int

structure Task where
  parentCall : Option CallMetadata
  returnMemoryIdx : Option Nat

/-- What `TaskReturn` does with its results: they go to the fused helper as
core values, or the task is resolved with the values lifted. -/
inductive Outcome (V : Type*) where
  | forwarded (params : List (Option Int))
  | resolved (callbackFnIdx : Option Nat) (results : List V)

/-- The loop over the lift functions. -/
def liftAll : List (LiftFn M E V) → LiftCtx M E → Except JsError (List V)
  | [], _ => .ok []
  | liftFn :: liftFns, liftCtx =>
    if liftCtx.storageLen.any fun len => decide (len ≤ 0) then
      .error (.error "ran out of storage while writing")
    else
      (liftFn liftCtx).bind fun (val, newLiftCtx) =>
        (liftAll liftFns newLiftCtx).map fun rest => val :: rest

/-- The fused helper is there and was not called yet. -/
def Task.forwards (task : Task) : Option CallMetadata :=
  task.parentCall.filter fun call => call.returnFn && !call.returnFnCalled

/-- The memory a task returns through is another one. -/
def Task.mismatch (task : Task) (memoryIdx : Option Nat) : Option (Nat × Nat) :=
  match task.returnMemoryIdx, memoryIdx with
  | some expected, some given => if expected = given then none else some (expected, given)
  | _, _ => none

def taskReturn (current : Option Task) (ctx : TaskReturnCtx M E V) (params : List Int) :
    Except JsError (Outcome V) :=
  match current with
  | none => .error (.error "failed to retrieve current task metadata")
  | some task =>
    match task.forwards with
    | some call => .ok (.forwarded (params.map some ++ [call.resultPtr]))
    | none =>
      match task.mismatch ctx.memoryIdx with
      | some (expected, given) =>
        .error (.error s!"task.return memory [{given}] does not match task [{expected}]")
      | none =>
        if ctx.getMemoryFn.isNone ∧ 4 < ctx.liftFns.length then
          .error (.error "memory must be present if more than max async flat lifts are performed")
        else if ctx.useDirectParams then
          (liftAll ctx.liftFns ⟨ctx.getMemoryFn, true, params, ctx.componentIdx,
            ctx.stringEncoding, none, none⟩).map (.resolved ctx.callbackFnIdx)
        else if ctx.memory.isNone then
          .error (.error "missing memory despite indirect param usage")
        else
          (liftAll ctx.liftFns ⟨ctx.getMemoryFn, false, params, ctx.componentIdx,
            ctx.stringEncoding, params[0]?, params[1]?⟩).map (.resolved ctx.callbackFnIdx)

/-! ## The convention -/

/-- The glue of a lowered import takes its last core param for a result pointer
exactly when the core signature has one. -/
structure ImportRight (abi : CanonicalAbi Ty) (isAsync : Bool) (func : FuncType Ty) : Prop where
  assumed : hasResultPointer abi isAsync func = (lowered abi isAsync func).resultPointer
  pointer : ∀ args ptr, args.length = (lowered abi isAsync func).params →
    resultPtr (hasResultPointer abi isAsync func)
      (args ++ if (lowered abi isAsync func).resultPointer then [ptr] else []) =
      if (lowered abi isAsync func).resultPointer then some ptr else none

/-- Where the results of a `task.return` are read: the core params themselves,
or the storage the one param points at. -/
def prescribed (abi : CanonicalAbi Ty) (results : List Ty) (options : ReturnOptions M E)
    (params : List Int) : LiftCtx M E :=
  if flatTotal abi results ≤ 16 then
    ⟨options.memory.map Prod.snd, true, params, options.componentIdx, options.stringEncoding, none,
      none⟩
  else
    ⟨options.memory.map Prod.snd, false, params, options.componentIdx, options.stringEncoding,
      params[0]?, params[1]?⟩

/-- The task reads its results itself, and returns through the memory given. -/
def Reads (task : Task) (options : ReturnOptions M E) : Prop :=
  task.forwards = none ∧ task.mismatch (options.memory.map Prod.fst) = none

/-- `task.return` reads its results where the canonical ABI put them, whatever
the lift functions make of them. -/
def ReturnRight (V : Type*) (abi : CanonicalAbi Ty) (results : List Ty) (options : ReturnOptions M E) :
    Prop :=
  ∀ (liftFns : List (LiftFn M E V)) (task : Task) (params : List Int),
    liftFns.length = results.length → params.length = returned abi results → Reads task options →
      taskReturn (some task) (taskReturnCtx abi results options liftFns) params =
        (liftAll liftFns (prescribed abi results options params)).map (.resolved options.callback)

/-! ## The counts bindgen has -/

theorem foldlM_flatCount (abi : CanonicalAbi Ty) (types : List Ty) (n : Nat) :
    types.foldlM (fun count ty => (abi.flatCount ty).map fun flatCount => count + flatCount) n =
      if ∀ ty ∈ types, abi.flat ty ≤ 16 then some (n + flatTotal abi types) else none := by
  induction types generalizing n with
  | nil => simp [flatTotal]
  | cons ty types ih =>
    have hcons : (∀ other ∈ ty :: types, abi.flat other ≤ 16) ↔
        abi.flat ty ≤ 16 ∧ ∀ other ∈ types, abi.flat other ≤ 16 := List.forall_mem_cons
    rw [List.foldlM_cons, abi.flatCount_eq]
    simp only [hcons]
    by_cases hty : abi.flat ty ≤ 16
    · rw [if_pos hty]
      change List.foldlM _ (n + abi.flat ty) types = _
      rw [ih]
      by_cases hall : ∀ other ∈ types, abi.flat other ≤ 16
      · rw [if_pos hall, if_pos ⟨hty, hall⟩]
        simp [flatTotal, Nat.add_assoc]
      · rw [if_neg hall, if_neg fun h => hall h.2]
    · rw [if_neg hty, if_neg fun h => hty h.1]
      rfl

/-- A type without a count alone exceeds every bound. -/
theorem flat_le_flatTotal (abi : CanonicalAbi Ty) {ty : Ty} {types : List Ty} (h : ty ∈ types) :
    abi.flat ty ≤ flatTotal abi types :=
  List.le_sum_of_mem (List.mem_map_of_mem h)

theorem hasResultPointer_eq (abi : CanonicalAbi Ty) (isAsync : Bool) (func : FuncType Ty) :
    hasResultPointer abi isAsync func =
      decide ((if isAsync || func.async then 0 else maxFlatResults) < flatTotal abi func.results) := by
  have hmax : (if isAsync || func.async then 0 else maxFlatResults) < 16 := by
    unfold maxFlatResults
    split
    next => omega
    next => omega
  unfold hasResultPointer resultFlatCount
  rw [foldlM_flatCount]
  by_cases hall : ∀ ty ∈ func.results, abi.flat ty ≤ 16
  · rw [if_pos hall, Nat.zero_add]
    rfl
  · rw [if_neg hall]
    -- some type has no count, so the total is over sixteen
    obtain ⟨ty, hmem, hty⟩ : ∃ ty ∈ func.results, 16 < abi.flat ty := by
      simpa using hall
    have hle := flat_le_flatTotal abi hmem
    exact (decide_eq_true (by omega)).symm

/-- Up to sixteen values nothing is missing from the total of `task.return`. -/
theorem resultFlatParamTotal_eq (abi : CanonicalAbi Ty) (results : List Ty)
    (h : flatTotal abi results ≤ 16) : resultFlatParamTotal abi results = flatTotal abi results := by
  refine congrArg List.sum (List.map_congr_left fun ty hmem => ?_)
  have hle := flat_le_flatTotal abi hmem
  rw [abi.flatCount_eq, if_pos (by omega)]
  rfl

/-! ## When the glue follows it -/

theorem importRight_iff (abi : CanonicalAbi Ty) (isAsync : Bool) (func : FuncType Ty) :
    ImportRight abi isAsync func ↔
      ¬ (isAsync = false ∧ func.async = true ∧ flatTotal abi func.results = 1) := by
  constructor
  · rintro ⟨hassumed, -⟩ ⟨rfl, hasync, hone⟩
    rw [hasResultPointer_eq] at hassumed
    simp [lowered, hasync, hone] at hassumed
  · intro hnot
    have hassumed : hasResultPointer abi isAsync func = (lowered abi isAsync func).resultPointer := by
      rw [hasResultPointer_eq, lowered]
      refine decide_eq_decide.mpr ?_
      cases isAsync with
      | true => simp
      | false =>
        cases hasync : func.async with
        | false => simp [maxFlatResults]
        | true =>
          have hne : flatTotal abi func.results ≠ 1 := fun hone => hnot ⟨rfl, hasync, hone⟩
          simp only [Bool.or_true, if_true, Bool.false_eq_true, if_false]
          omega
    refine ⟨hassumed, ?_⟩
    intro args ptr _
    rw [hassumed]
    unfold resultPtr
    split
    next => rw [List.getLast?_concat]
    next => rfl

/-- What `TaskReturn` comes to when the task reads its results itself. -/
theorem taskReturn_reads {abi : CanonicalAbi Ty} {results : List Ty} {options : ReturnOptions M E}
    {liftFns : List (LiftFn M E V)} {task : Task} {params : List Int} (h : Reads task options) :
    taskReturn (some task) (taskReturnCtx abi results options liftFns) params =
      if options.memory = none ∧ 4 < liftFns.length then
        .error (.error "memory must be present if more than max async flat lifts are performed")
      else if useDirectParams abi results then
        (liftAll liftFns ⟨options.memory.map Prod.snd, true, params, options.componentIdx,
          options.stringEncoding, none, none⟩).map (.resolved options.callback)
      else .error (.error "missing memory despite indirect param usage") := by
  obtain ⟨hforwards, hmismatch⟩ := h
  unfold taskReturn
  simp only [hforwards, taskReturnCtx, hmismatch, Option.isNone_map, Option.isNone_iff_eq_none,
    Option.isNone_none, if_true]

/-- A lift function that tells where it reads. -/
def tell : LiftFn M E V := fun liftCtx =>
  .error (.error (if liftCtx.useDirectParams then "direct" else "indirect"))

theorem liftAll_tell {liftFns : List (LiftFn M E V)} (hne : liftFns ≠ [])
    (hall : ∀ liftFn ∈ liftFns, liftFn = tell) (liftCtx : LiftCtx M E)
    (hlen : liftCtx.storageLen = none) :
    liftAll liftFns liftCtx = .error (.error (if liftCtx.useDirectParams then "direct" else "indirect")) := by
  cases liftFns with
  | nil => exact absurd rfl hne
  | cons liftFn liftFns =>
    rw [liftAll, hlen, hall liftFn List.mem_cons_self]
    rfl

theorem returnRight_iff (V : Type*) (abi : CanonicalAbi Ty) (results : List Ty)
    (options : ReturnOptions M E) :
    ReturnRight V abi results options ↔
      flatTotal abi results < 16 ∧ (options.memory ≠ none ∨ results.length ≤ 4) := by
  constructor
  · intro h
    -- a task that runs for no subtask, with lift functions that tell where they read
    have hreads : Reads ⟨none, none⟩ options := ⟨rfl, rfl⟩
    have htold := h (List.replicate results.length tell) ⟨none, none⟩
      (List.replicate (returned abi results) 0) List.length_replicate List.length_replicate hreads
    rw [taskReturn_reads hreads, List.length_replicate] at htold
    have hprescribed (hne : results ≠ []) :
        liftAll (List.replicate results.length (tell (V := V)))
          (prescribed abi results options (List.replicate (returned abi results) 0)) =
          .error (.error (if flatTotal abi results ≤ 16 then "direct" else "indirect")) := by
      rw [liftAll_tell (by simpa using hne) (fun _ hmem => List.eq_of_mem_replicate hmem)]
      · unfold prescribed
        split
        next => rfl
        next => rfl
      · unfold prescribed
        split
        next => rfl
        next hbig => simp [returned, hbig]
    by_contra hnot
    have hne : results ≠ [] := by
      rintro rfl
      simp [flatTotal] at hnot
    rw [hprescribed hne] at htold
    by_cases hmemory : options.memory = none ∧ 4 < results.length
    · rw [if_pos hmemory] at htold
      split at htold
      next => simp [Except.map] at htold
      next => simp [Except.map] at htold
    · rw [if_neg hmemory] at htold
      have hbig : 16 ≤ flatTotal abi results := by
        by_contra hsmall
        refine hnot ⟨by omega, ?_⟩
        by_cases hnone : options.memory = none
        · exact Or.inr (by
            by_contra hlong
            exact hmemory ⟨hnone, by omega⟩)
        · exact Or.inl hnone
      by_cases hdirect : useDirectParams abi results = true
      · -- a type without a count was counted as nothing
        have hover : ¬ flatTotal abi results ≤ 16 := by
          intro hle
          unfold useDirectParams at hdirect
          rw [resultFlatParamTotal_eq abi results hle] at hdirect
          have hlt : flatTotal abi results < 16 := of_decide_eq_true hdirect
          omega
        rw [if_pos hdirect, if_neg hover,
          liftAll_tell (by simpa using hne) (fun _ hmem => List.eq_of_mem_replicate hmem) _ rfl] at htold
        simp [Except.map] at htold
      · rw [if_neg hdirect] at htold
        split at htold
        next => simp [Except.map] at htold
        next => simp [Except.map] at htold
  · rintro ⟨hsmall, hmemory⟩ liftFns task params hlen _ hreads
    have hdirect : useDirectParams abi results = true := by
      unfold useDirectParams
      rw [resultFlatParamTotal_eq abi results (by omega)]
      exact decide_eq_true hsmall
    rw [taskReturn_reads hreads, if_neg, if_pos hdirect, prescribed, if_pos (by omega)]
    rintro ⟨hnone, hlong⟩
    rcases hmemory with hsome | hshort
    · exact hsome hnone
    · omega

/-- The calling convention of a lowered import and of a `task.return`. -/
structure Convention (V : Type*) (abi : CanonicalAbi Ty) (isAsync : Bool) (func : FuncType Ty)
    (results : List Ty) (options : ReturnOptions M E) : Prop where
  lowered : ImportRight abi isAsync func
  returned : ReturnRight V abi results options

/-- The glue follows the canonical ABI but for a sync lowering of an async
function with one flat result, for a `task.return` of sixteen flat values or
more, and for one of more than four results without a memory. -/
theorem convention_iff (V : Type*) (abi : CanonicalAbi Ty) (isAsync : Bool) (func : FuncType Ty)
    (results : List Ty) (options : ReturnOptions M E) :
    Convention V abi isAsync func results options ↔
      ¬ (isAsync = false ∧ func.async = true ∧ flatTotal abi func.results = 1) ∧
      flatTotal abi results < 16 ∧ (options.memory ≠ none ∨ results.length ≤ 4) := by
  rw [← importRight_iff, ← returnRight_iff V]
  exact ⟨fun h => ⟨h.lowered, h.returned⟩, fun h => ⟨h.1, h.2⟩⟩

/-- Tuples of so many numbers. -/
def tuples : CanonicalAbi Nat where
  flat := id
  flatCount n := if n ≤ 16 then some n else none
  flatCount_eq _ := rfl

/-- A sync lowering of `async func() -> u32` is given a result pointer that its
core function does not have. -/
theorem sync_lowering_of_async_function :
    ¬ ∀ (isAsync : Bool) (func : FuncType Nat) (results : List Nat) (options : ReturnOptions Unit Unit),
      Convention Nat tuples isAsync func results options := by
  intro h
  have hassumed := (h false ⟨[], [1], true⟩ [] ⟨0, none, none, ()⟩).lowered.assumed
  exact absurd hassumed (by decide)

end Jco.Component.CallingConvention
