import Mathlib
import Jco.Bindgen.Names

/-! # Functions of the exports

`export_bindgen` writes a function for an export: what comes before its parameters by its
kind, and its body by the instructions of the canonical ABI, which `FunctionBindgen` visits.
Whether an instruction writes an `await` is decided there, and the keyword `async` by the kind.

The body is a list of pieces: of the text only its `await`s are kept, and the asynchronous
functions in it.

1. What is asynchronous.
2. `FunctionBindgen` and `bindgen`.
3. `export_bindgen`.
4. A body has an `await` of its own in an asynchronous function only, but for two kinds.
-/

namespace Jco.Bindgen

namespace ExportBindgen

/-! ## Functions -/

/-- `FunctionKind`, with the resource -/
inductive FunctionKind where
  | freestanding
  | method (resource : Nat)
  | static (resource : Nat)
  | constructor (resource : Nat)
  | asyncFreestanding
  | asyncMethod (resource : Nat)
  | asyncStatic (resource : Nat)
deriving DecidableEq, Repr

namespace FunctionKind

/-- `is_async` -/
def isAsync : FunctionKind → Bool
  | asyncFreestanding | asyncMethod _ | asyncStatic _ => true
  | _ => false

def resource? : FunctionKind → Option Nat
  | method r | static r | constructor r | asyncMethod r | asyncStatic r => some r
  | freestanding | asyncFreestanding => none

def isConstructor : FunctionKind → Bool
  | constructor _ => true
  | _ => false

end FunctionKind

/-- What is read of the type of the result. -/
inductive ResultType where
  | none
  /-- A type of which `get_thrown_type` knows that it can throw. -/
  | result
  /-- A future, or an alias of one. -/
  | future
  | other
deriving DecidableEq, Repr

/-- A function with the options of its lifting. An async lifting has no post-return, as the
component is valid. -/
structure Function where
  name : Text
  itemName : Text
  kind : FunctionKind
  result : ResultType
  optionsAsync : Bool
  postReturn : Bool
  async_postReturn : optionsAsync = true → postReturn = false

theorem sync_postReturn (postReturn : Bool) : false = true → postReturn = false := by
  intro h
  cases h

/-! ## What is asynchronous -/

/-- `AsyncMode` -/
inductive AsyncMode where
  | sync
  | javaScriptPromiseIntegration (imports exports : List Text)
deriving DecidableEq, Repr

def asyncExports : Option AsyncMode → List Text
  | some (.javaScriptPromiseIntegration _ exports) => exports
  | some .sync | none => []

/-- `trim_start_matches`. `fuel` is the length. -/
def trimStartMatches (pat : Text) : Nat → Text → Text
  | fuel + 1, t => if pat.isPrefixOf t then trimStartMatches pat fuel (t.drop pat.length) else t
  | 0, t => t

/-- `requires_async_porcelain` -/
def requiresAsyncPorcelain (funcName id : Text) (asyncFuncs : List Text) : Bool :=
  let name := trimStartMatches "[async]".toList funcName.length funcName
  asyncFuncs.contains name || asyncFuncs.contains (id ++ '#' :: name) ||
    (id.contains '@' && asyncFuncs.contains (id.takeWhile (· ≠ '@') ++ '#' :: name))

/-- `is_async_fn` -/
def isAsyncFn (func : Function) : Bool := func.optionsAsync || func.kind.isAsync

/-! ## `FunctionBindgen` -/

/-- A piece of a body. -/
inductive Js where
  | text
  | await
  | asyncFn (body : List Js)

def Js.isAwait : Js → Bool
  | await => true
  | _ => false

/-- The instructions before and after the call. Those that are not named write text. -/
inductive Instruction where
  | listCanonLower
  | stringLower
  | listLower
  | mapLower
  | malloc
  | futureLower
  | streamLower
  | other
deriving DecidableEq, Repr

/-- What decides on the `await`s. -/
structure FunctionBindgen where
  requiresAsyncPorcelain : Bool
  isAsync : Bool
  wrapAsyncFutureResult : Bool
  /-- `err` is `ThrowResultErr`. -/
  throwResultErr : Bool
  postReturn : Bool

namespace FunctionBindgen

variable (f : FunctionBindgen)

/-- `emit`, for an instruction before or after the call. -/
def emit : Instruction → List Js
  -- `realloc_call`, or the encoding of a string
  | .listCanonLower | .stringLower | .listLower | .mapLower | .malloc =>
    if f.isAsync then [.text, .await, .text] else [.text]
  -- `then` of a nested future, and `readFn` of an iterator
  | .futureLower => [.text, .asyncFn [.text, .await, .text], .text]
  | .streamLower => [.text, .asyncFn [.text], .text]
  | .other => [.text]

/-- `Instruction::CallWasm` -/
def callWasm : List Js :=
  (if f.isAsync || f.requiresAsyncPorcelain then [.text, .await, .text] else [.text]) ++
    -- `call_prefix`
    if f.requiresAsyncPorcelain || f.isAsync then [.text, .await, .text] else [.text]

/-- `Instruction::Return`, for as many values. Where `wrap_async_future_result` is set the one
value is a future, which is awaited before it is returned. -/
def ret (amt : Nat) : List Js :=
  if amt = 0 ∨ amt = 1 ∧ f.throwResultErr then [.text]
  else if f.wrapAsyncFutureResult then [.text, .await, .text]
  else [.text]

/-- `Instruction::AsyncTaskReturn` -/
def asyncTaskReturn : List Js :=
  [.text, .await, .text, .asyncFn [.text, .await, .text], .text, .await, .text]

/-- `abi::call`, for a lifted export: the instructions that lower the arguments, the call, and
those that lift the result. -/
def call (lowers lifts : List Instruction) (amt : Nat) : List Js :=
  lowers.flatMap f.emit ++ f.callWasm ++ lifts.flatMap f.emit ++
    if f.isAsync then asyncTaskReturn else f.ret amt

end FunctionBindgen

/-- `bindgen`, from the body on. -/
def bindgen (f : FunctionBindgen) (lowers lifts : List Instruction) (amt : Nat) : List Js :=
  if f.wrapAsyncFutureResult then [.text, .asyncFn (f.call lowers lifts amt), .text]
  else .text :: f.call lowers lifts amt ++ [.text]

/-! ## `export_bindgen` -/

/-- Where a function is put. A method has a name of its own too. -/
inductive Target where
  | function (localName : Text)
  | prototype (localName methodName fnName : Text)
  | static (localName methodName fnName : Text)
  | constructor (localName : Text)
deriving DecidableEq, Repr

/-- A function that is written. `setPrototypeOf` makes it look like an asynchronous one. -/
structure Written where
  target : Target
  isAsync : Bool
  body : List Js
  setPrototypeOf : Bool

section

variable (toLowerCamelCase : Text → Text) (mode : Option AsyncMode)

/-- The name of the function expression. -/
def fnName (methodName : Text) : Text :=
  if isJsReservedWord methodName then '$' :: methodName else methodName

/-- `wrap_async_future_result` -/
def wrapAsyncFutureResult (exportName : Text) (func : Function) : Bool :=
  (requiresAsyncPorcelain func.name exportName (asyncExports mode) || isAsyncFn func) &&
    func.result = .future

/-- `maybe_async` -/
def maybeAsync (exportName : Text) (func : Function) : Bool :=
  (requiresAsyncPorcelain func.name exportName (asyncExports mode) || isAsyncFn func) &&
    !wrapAsyncFutureResult mode exportName func

/-- What comes before the parameters: where the function is put, and whether `async` is
written. -/
def preamble (localName exportName : Text) (func : Function) : Target × Bool :=
  let keyword := maybeAsync mode exportName func
  let methodName := toLowerCamelCase func.itemName
  match func.kind with
  | .freestanding => (.function localName, keyword)
  | .method _ => (.prototype localName methodName (fnName methodName), keyword)
  | .static _ => (.static localName methodName (fnName methodName), false)
  | .constructor _ => (.constructor localName, false)
  | .asyncFreestanding => (.function localName, keyword)
  | .asyncMethod _ => (.prototype localName methodName (fnName methodName), keyword)
  | .asyncStatic _ => (.static localName methodName (fnName methodName), keyword)

/-- The function that `export_bindgen` writes, with the instructions that its type has. -/
def writeFunction (localName exportName : Text) (func : Function)
    (lowers lifts : List Instruction) : Written :=
  let f : FunctionBindgen := {
    requiresAsyncPorcelain := requiresAsyncPorcelain func.name exportName (asyncExports mode)
    isAsync := isAsyncFn func
    wrapAsyncFutureResult := wrapAsyncFutureResult mode exportName func
    throwResultErr := func.result = .result
    postReturn := func.postReturn }
  let (target, isAsync) := preamble toLowerCamelCase mode localName exportName func
  { target
    isAsync
    body := bindgen f lowers lifts (if func.result = .none then 0 else 1)
    setPrototypeOf := wrapAsyncFutureResult mode exportName func }

end

/-! ## `await` and `async` -/

/-- There is an `await` outside of the functions in the body. -/
def ownAwait (body : List Js) : Bool := body.any Js.isAwait

variable {toLowerCamelCase : Text → Text} {mode : Option AsyncMode}

theorem ownAwait_append (xs ys : List Js) : ownAwait (xs ++ ys) = (ownAwait xs || ownAwait ys) :=
  List.any_append

theorem ownAwait_emit (f : FunctionBindgen) (h : f.isAsync = false) (i : Instruction) :
    ownAwait (f.emit i) = false := by
  unfold FunctionBindgen.emit
  rw [h]
  cases i <;> rfl

theorem ownAwait_flatMap_emit (f : FunctionBindgen) (h : f.isAsync = false)
    (is : List Instruction) : ownAwait (is.flatMap f.emit) = false := by
  induction is with
  | nil => rfl
  | cons i is ih => rw [List.flatMap_cons, ownAwait_append, ownAwait_emit f h, ih, Bool.or_false]

/-- The call awaits if and only if the function is asynchronous in one of the two ways; the
other instructions follow. -/
theorem ownAwait_call (f : FunctionBindgen) (lowers lifts : List Instruction) (amt : Nat)
    (hwrap : f.wrapAsyncFutureResult = false) :
    ownAwait (f.call lowers lifts amt) = (f.requiresAsyncPorcelain || f.isAsync) := by
  unfold FunctionBindgen.call
  rw [ownAwait_append, ownAwait_append, ownAwait_append]
  by_cases hasync : f.requiresAsyncPorcelain || f.isAsync
  · have hcall : ownAwait f.callWasm = true := by
      unfold FunctionBindgen.callWasm
      rw [Bool.or_comm f.isAsync, if_pos hasync]
      rfl
    rw [hcall, hasync, Bool.or_true, Bool.true_or, Bool.true_or]
  · rcases (Bool.or_eq_false_iff.1 (Bool.eq_false_of_not_eq_true hasync)) with ⟨hporcelain, his⟩
    have hcall : ownAwait f.callWasm = false := by
      unfold FunctionBindgen.callWasm
      rw [hporcelain, his]
      rfl
    have hret : ownAwait (f.ret amt) = false := by
      unfold FunctionBindgen.ret
      rw [hwrap]
      split <;> rfl
    rw [hcall, his, hporcelain, ownAwait_flatMap_emit f his, ownAwait_flatMap_emit f his]
    exact hret

/-- A body that is wrapped has its `await`s in the function that wraps it. -/
theorem ownAwait_bindgen (f : FunctionBindgen) (lowers lifts : List Instruction) (amt : Nat) :
    ownAwait (bindgen f lowers lifts amt) =
      ((f.requiresAsyncPorcelain || f.isAsync) && !f.wrapAsyncFutureResult) := by
  unfold bindgen
  cases hwrap : f.wrapAsyncFutureResult
  · have hcall := ownAwait_call f lowers lifts amt hwrap
    rw [if_neg (by decide), ownAwait_append]
    change (ownAwait (f.call lowers lifts amt) || false) = _
    rw [hcall, Bool.or_false, Bool.not_false, Bool.and_true]
  · rw [if_pos rfl, Bool.not_true, Bool.and_false]
    rfl

/-- The function is asynchronous: by the mode, by its lifting or by its kind. -/
def madeAsync (mode : Option AsyncMode) (exportName : Text) (func : Function) : Bool :=
  requiresAsyncPorcelain func.name exportName (asyncExports mode) || isAsyncFn func

theorem ownAwait_writeFunction (localName exportName : Text) (func : Function)
    (lowers lifts : List Instruction) :
    ownAwait (writeFunction toLowerCamelCase mode localName exportName func lowers lifts).body =
      (madeAsync mode exportName func && !(decide (func.result = .future))) := by
  unfold writeFunction
  rw [ownAwait_bindgen]
  change (madeAsync mode exportName func &&
    !(madeAsync mode exportName func && decide (func.result = .future))) = _
  cases madeAsync mode exportName func <;> rfl

/-- The kinds for which the keyword is written. -/
def writesKeyword : FunctionKind → Bool
  | .static _ | .constructor _ => false
  | _ => true

theorem writesKeyword_eq_false (kind : FunctionKind) :
    writesKeyword kind = false ↔ ∃ r, kind = .static r ∨ kind = .constructor r := by
  cases kind with
  | static r => exact ⟨fun _ => ⟨r, .inl rfl⟩, fun _ => rfl⟩
  | constructor r => exact ⟨fun _ => ⟨r, .inr rfl⟩, fun _ => rfl⟩
  | _ =>
    constructor
    · intro h
      cases h
    · rintro ⟨r, h | h⟩
      · cases h
      · cases h

theorem isAsync_writeFunction (localName exportName : Text) (func : Function)
    (lowers lifts : List Instruction) :
    (writeFunction toLowerCamelCase mode localName exportName func lowers lifts).isAsync =
      (writesKeyword func.kind &&
        (madeAsync mode exportName func && !(decide (func.result = .future)))) := by
  have hmaybe : maybeAsync mode exportName func =
      (madeAsync mode exportName func && !(decide (func.result = .future))) := by
    change (madeAsync mode exportName func &&
      !(madeAsync mode exportName func && decide (func.result = .future))) = _
    cases madeAsync mode exportName func <;> rfl
  rw [← hmaybe]
  unfold writeFunction preamble
  cases func.kind <;> rfl

/-- An `await` in the body comes with the keyword, exactly where the function is not a static
or a constructor that is made asynchronous and whose result is no future. -/
theorem await_async_iff (toLowerCamelCase : Text → Text) (mode : Option AsyncMode)
    (localName exportName : Text) (func : Function) (lowers lifts : List Instruction) :
    (ownAwait (writeFunction toLowerCamelCase mode localName exportName func lowers lifts).body =
        true →
      (writeFunction toLowerCamelCase mode localName exportName func lowers lifts).isAsync =
        true) ↔
      ((∃ r, func.kind = .static r ∨ func.kind = .constructor r) →
        madeAsync mode exportName func = true → func.result = .future) := by
  rw [ownAwait_writeFunction, isAsync_writeFunction, ← writesKeyword_eq_false]
  simp only [Bool.and_eq_true, Bool.not_eq_true', decide_eq_false_iff_not]
  constructor
  · intro h hkind hmade
    by_contra hresult
    have hkeyword := (h ⟨hmade, hresult⟩).1
    rw [hkind] at hkeyword
    cases hkeyword
  · rintro h ⟨hmade, hresult⟩
    refine ⟨?_, hmade, hresult⟩
    by_contra hkind
    exact hresult (h (Bool.eq_false_of_not_eq_true hkind) hmade)

/-- A static function of the exports that are asked to be asynchronous. -/
def staticCreate : Function where
  name := "[static]thing.create".toList
  itemName := "create".toList
  kind := .static 0
  result := .other
  optionsAsync := false
  postReturn := false
  async_postReturn := by
    intro h
    cases h

theorem staticCreate_awaits :
    ¬ ∀ (toLowerCamelCase : Text → Text) (mode : Option AsyncMode) (localName exportName : Text)
      (func : Function) (lowers lifts : List Instruction),
      ownAwait (writeFunction toLowerCamelCase mode localName exportName func lowers lifts).body =
          true →
        (writeFunction toLowerCamelCase mode localName exportName func lowers lifts).isAsync =
          true := by
  intro h
  have hasync := h id (some (.javaScriptPromiseIntegration [] [staticCreate.name]))
    "Thing".toList "a:b/c".toList staticCreate [] [] (by decide)
  revert hasync
  decide

end ExportBindgen

end Jco.Bindgen
