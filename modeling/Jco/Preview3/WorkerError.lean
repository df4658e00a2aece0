import Mathlib.Data.List.Basic
import Mathlib.Tactic.Common

/-! # Errors between threads

What a handler throws in a worker is turned into a plain record by
`serializeError`, cloned into the other thread with the message, and made an
`Error` again by `deserializeError`. The values are those of the JavaScript
engine; what the code asks of a value, and what structured cloning makes of it,
are the fields of `Engine`.

`Carried` says of a thrown value when it comes out as it went in.
-/

namespace Jco.Preview3

/-- A property key: a string, or a symbol. -/
inductive Key where
  | str (name : String)
  | symbol (id : Nat)
deriving DecidableEq, Repr

/-- An own property of an error besides its name, message, stack and cause. -/
structure Field (V : Type*) where
  key : Key
  value : V
  enumerable : Bool

/-- An `Error` as the properties read from it. -/
structure ErrorObject (V : Type*) where
  name : V
  message : V
  stack : V
  fields : List (Field V)
  /-- The cause, unless it is `undefined`. -/
  cause : Option V

/-- What reading a thrown value finds. -/
inductive Thrown (V : Type*) where
  /-- `!(err instanceof Error)` -/
  | other
  /-- A property that is read throws. -/
  | unreadable
  | error (object : ErrorObject V)

/-- What the two threads do with values. -/
structure Engine (V : Type*) where
  truthy : V → Bool
  isTrue : V → Bool
  thrown : V → Thrown V
  /-- A value posted with a transfer list, as it arrives; `none` where posting throws. -/
  structuredClone : V → List V → Option V
  /-- `new Error(message).message` -/
  messageOf : V → V
  /-- The stack an error is made with. -/
  ownStack : V
  /-- `value.__resourceWorkerError === true` -/
  flagged : V → Bool
  /-- The result and the transfer list of what a handler returned, or what is
  thrown when these are read. -/
  outcome : V → Except V (V × List V)
  /-- How often `serializeError` may call itself in the worker, and
  `deserializeError` on the main thread. -/
  stackDepth : Nat

/-- What `serializeError` answers, and what is left of it after cloning. -/
inductive Serialized (V : Type*) where
  | absent
  | value (v : V)
  | record (name message stack : V) (fields : List (String × V)) (cause : Serialized V)

/-- What `deserializeError` answers. -/
inductive Received (V : Type*) where
  | absent
  | value (v : V)
  /-- A record that is not taken for an error, or a value that is. -/
  | other
  | error (name message stack : V) (fields : List (String × V)) (cause : Received V)

def flagKey : String := "__resourceWorkerError"

/-- A key under which an assignment makes a property that is cloned: symbols are
not cloned, and `__proto__` sets the prototype. -/
def Key.assigned : Key → Option String
  | .str name => if name = "__proto__" then none else some name
  | .symbol _ => none

/-- The fields of the record, the flag among them where the error has its own. -/
def ErrorObject.assignedFields {V : Type*} (err : ErrorObject V) : List (String × V) :=
  err.fields.filterMap fun field => field.key.assigned.map fun name => (name, field.value)

namespace Engine

variable {V : Type*} (js : Engine V)

/-- `serializeError`, `none` where it throws. -/
def serializeError : Nat → V → Option (Serialized V)
  | depth, err =>
    match js.thrown err with
    | .other => some (.value err)
    | .unreadable => none
    | .error object =>
      match object.cause, depth with
      | none, _ =>
        some (.record object.name object.message object.stack object.assignedFields .absent)
      | some _, 0 => none
      | some cause, depth + 1 =>
        (serializeError depth cause).map
          (.record object.name object.message object.stack object.assignedFields)

variable {js} in
theorem serializeError_other {v : V} (depth : Nat) (h : js.thrown v = .other) :
    js.serializeError depth v = some (.value v) := by
  rw [serializeError.eq_def]
  simp only [h]

def clone (v : V) : Option V := js.structuredClone v []

/-- The fields of a cloned record; one that cannot be cloned throws. -/
def cloneFields (fields : List (String × V)) : Option (List (String × V)) :=
  if fields.all fun field => (js.clone field.2).isSome then
    some (fields.filterMap fun field => (js.clone field.2).map fun v => (field.1, v))
  else
    none

def cloneSerialized : Serialized V → Option (Serialized V)
  | .absent => some .absent
  | .value v => (js.clone v).map .value
  | .record name message stack fields cause =>
    match js.clone name, js.clone message, js.clone stack, js.cloneFields fields,
      cloneSerialized cause with
    | some name, some message, some stack, some fields, some cause =>
      some (.record name message stack fields cause)
    | _, _, _, _, _ => none

/-- A record with the flag: set by `serializeError`, unless the error has a
property of that name. -/
def recordFlagged (fields : List (String × V)) : Bool :=
  fields.all fun field => field.1 ≠ flagKey || js.isTrue field.2

/-- The stack an error keeps: its own where the record has none. -/
def stackOf (stack : V) : V := if js.truthy stack then stack else js.ownStack

/-- `deserializeError` -/
def deserializeError : Serialized V → Received V
  | .absent => .absent
  | .value v => if js.flagged v then .other else .value v
  | .record name message stack fields cause =>
    if js.recordFlagged fields then
      .error name (js.messageOf message) (js.stackOf stack)
        (fields.filter fun field => field.1 ≠ flagKey) (deserializeError cause)
    else
      .other

/-! ## What is promised -/

/-- The received error has the name, message, stack, enumerable fields and cause
chain of the one that was thrown, each cloned. -/
def Same : V → Received V → Prop
  | _, .absent => False
  | v, .value w => js.thrown v = .other ∧ js.clone v = some w
  | _, .other => False
  | v, .error name message stack fields cause =>
    ∃ object, js.thrown v = .error object ∧
      js.clone object.name = some name ∧
      js.clone object.message = some message ∧
      js.clone object.stack = some stack ∧
      (∀ field ∈ object.fields, field.enumerable = true →
        ∃ key w, field.key = .str key ∧ js.clone field.value = some w ∧ (key, w) ∈ fields) ∧
      match object.cause with
      | none => cause = .absent
      | some c => Same c cause

/-- The fields are cloned, one that overrides the flag leaves it set, and those
that are enumerable are kept. -/
structure FieldsCarried (object : ErrorObject V) : Prop where
  cloned : ∀ field ∈ object.assignedFields,
    ∃ w, js.clone field.2 = some w ∧ (field.1 = flagKey → js.isTrue w = true)
  kept : ∀ field ∈ object.fields, field.enumerable = true →
    ∃ name, field.key.assigned = some name ∧ name ≠ flagKey

/-- One error of a chain comes out as it went in. -/
structure ErrorCarried (object : ErrorObject V) : Prop where
  name : ∃ w, js.clone object.name = some w
  message : ∃ w, js.clone object.message = some w ∧ js.messageOf w = w
  stack : ∃ w, js.clone object.stack = some w ∧ js.stackOf w = w
  fields : js.FieldsCarried object

/-- A thrown value comes out as it went in: its chain of causes ends in time, its
errors are carried, and a last cause that is no error is cloned and not taken
for one. -/
def Carried : Nat → V → Prop
  | depth, v =>
    match js.thrown v with
    | .other => ∃ w, js.clone v = some w ∧ js.flagged w = false
    | .unreadable => False
    | .error object =>
      js.ErrorCarried object ∧
        match object.cause, depth with
        | none, _ => True
        | some _, 0 => False
        | some cause, depth + 1 => Carried depth cause

variable {js} in
theorem carried_other {v : V} (depth : Nat) (h : js.thrown v = .other) :
    js.Carried depth v ↔ ∃ w, js.clone v = some w ∧ js.flagged w = false := by
  rw [Carried.eq_def]
  simp only [h]

/-! ## Fields -/

section Fields

variable {js}

theorem mem_cloneFields {fields cloned : List (String × V)}
    (h : js.cloneFields fields = some cloned) {key : String} {w : V} :
    (key, w) ∈ cloned ↔ ∃ v, (key, v) ∈ fields ∧ js.clone v = some w := by
  rcases Option.ite_none_right_eq_some.1 h with ⟨-, h⟩
  cases h
  simp only [List.mem_filterMap, Option.map_eq_some_iff]
  constructor
  · rintro ⟨⟨key', v⟩, hmem, w', hclone, heq⟩
    cases heq
    exact ⟨v, hmem, hclone⟩
  · rintro ⟨v, hmem, hclone⟩
    exact ⟨(key, v), hmem, w, hclone, rfl⟩

theorem cloneFields_isSome {fields : List (String × V)} :
    (∃ cloned, js.cloneFields fields = some cloned) ↔
      ∀ field ∈ fields, ∃ w, js.clone field.2 = some w := by
  unfold cloneFields
  simp only [← Option.isSome_iff_exists]
  split
  case isTrue hall => exact iff_of_true rfl (List.all_eq_true.1 hall)
  case isFalse hall => exact iff_of_false nofun fun h => hall (List.all_eq_true.2 h)

theorem assigned_eq_some {key : Key} {name : String} (h : key.assigned = some name) :
    key = .str name ∧ (Key.str name).assigned = some name := by
  cases key with
  | symbol => exact absurd h nofun
  | str name' =>
    have heq : name' = name := by
      rcases Option.ite_none_left_eq_some.1 h with ⟨-, h⟩
      exact Option.some.inj h
    subst heq
    exact ⟨rfl, h⟩

theorem mem_assignedFields {object : ErrorObject V} {name : String} {v : V} :
    (name, v) ∈ object.assignedFields ↔
      ∃ field ∈ object.fields, field.key.assigned = some name ∧ field.value = v := by
  unfold ErrorObject.assignedFields
  simp only [List.mem_filterMap, Option.map_eq_some_iff]
  constructor
  · rintro ⟨field, hmem, name', hassigned, heq⟩
    cases heq
    exact ⟨field, hmem, hassigned, rfl⟩
  · rintro ⟨field, hmem, hassigned, rfl⟩
    exact ⟨field, hmem, name, hassigned, rfl⟩

/-- The flag of a cloned record, and the fields of the error made from it. -/
theorem fieldsCarried_iff {object : ErrorObject V} {cloned : List (String × V)}
    (h : js.cloneFields object.assignedFields = some cloned) :
    (js.recordFlagged cloned = true ∧
        ∀ field ∈ object.fields, field.enumerable = true →
          ∃ key w, field.key = .str key ∧ js.clone field.value = some w ∧
            (key, w) ∈ cloned.filter fun field => field.1 ≠ flagKey) ↔
      js.FieldsCarried object := by
  have hclones := cloneFields_isSome.1 ⟨cloned, h⟩
  have hflag : js.recordFlagged cloned = true ↔
      ∀ key w, (key, w) ∈ cloned → key = flagKey → js.isTrue w = true := by
    unfold recordFlagged
    rw [List.all_eq_true]
    constructor
    · intro hall key w hmem hkey
      simpa [hkey] using hall (key, w) hmem
    · rintro hall ⟨key, w⟩ hmem
      by_cases hkey : key = flagKey
      · simp [hall key w hmem hkey]
      · simp [hkey]
  rw [hflag]
  constructor
  · rintro ⟨hrecord, hfields⟩
    refine ⟨fun field hmem => ?_, fun field hmem henumerable => ?_⟩
    · obtain ⟨w, hclone⟩ := hclones field hmem
      exact ⟨w, hclone, hrecord field.1 w ((mem_cloneFields h).2 ⟨field.2, hmem, hclone⟩)⟩
    · obtain ⟨key, w, hkey, -, hkept⟩ := hfields field hmem henumerable
      rw [List.mem_filter] at hkept
      obtain ⟨v, hassigned, -⟩ := (mem_cloneFields h).1 hkept.1
      obtain ⟨other, -, hother, -⟩ := mem_assignedFields.1 hassigned
      refine ⟨key, ?_, by simpa using hkept.2⟩
      rw [hkey]
      exact (assigned_eq_some hother).2
  · rintro ⟨hcloned, hkept⟩
    refine ⟨fun key w hmem hkey => ?_, fun field hmem henumerable => ?_⟩
    · obtain ⟨v, hassigned, hclone⟩ := (mem_cloneFields h).1 hmem
      obtain ⟨w', hclone', htrue⟩ := hcloned (key, v) hassigned
      cases hclone.symm.trans hclone'
      exact htrue hkey
    · obtain ⟨name, hassigned, hname⟩ := hkept field hmem henumerable
      have hfield : (name, field.value) ∈ object.assignedFields :=
        mem_assignedFields.2 ⟨field, hmem, hassigned, rfl⟩
      obtain ⟨w, hclone, -⟩ := hcloned _ hfield
      refine ⟨name, w, (assigned_eq_some hassigned).1, hclone, List.mem_filter.2 ⟨?_, ?_⟩⟩
      · exact (mem_cloneFields h).2 ⟨field.value, hfield, hclone⟩
      · simpa using hname

end Fields

/-! ## Chains of causes -/

section Chains

variable {js}

/-- What posting leaves of a thrown value. -/
def arrival (js : Engine V) (depth : Nat) (v : V) : Option (Serialized V) :=
  (js.serializeError depth v).bind js.cloneSerialized

/-- The received cause is that of the error. -/
def CauseSame (js : Engine V) (object : ErrorObject V) (cause : Received V) : Prop :=
  match object.cause with
  | none => cause = .absent
  | some c => js.Same c cause

theorem clone_record_iff {name message stack : V} {fields : List (String × V)}
    {cause c : Serialized V} :
    js.cloneSerialized (.record name message stack fields cause) = some c ↔
      ∃ name' message' stack' fields' cause', js.clone name = some name' ∧
        js.clone message = some message' ∧ js.clone stack = some stack' ∧
        js.cloneFields fields = some fields' ∧ js.cloneSerialized cause = some cause' ∧
        c = .record name' message' stack' fields' cause' := by
  rw [cloneSerialized]
  split
  case h_1 hname hmessage hstack hfields hcause =>
    constructor
    · intro h
      exact ⟨_, _, _, _, _, hname, hmessage, hstack, hfields, hcause, (Option.some.inj h).symm⟩
    · rintro ⟨_, _, _, _, _, hname', hmessage', hstack', hfields', hcause', rfl⟩
      cases hname.symm.trans hname'
      cases hmessage.symm.trans hmessage'
      cases hstack.symm.trans hstack'
      cases hfields.symm.trans hfields'
      cases hcause.symm.trans hcause'
      rfl
  case h_2 hnone =>
    constructor
    · exact nofun
    · rintro ⟨_, _, _, _, _, hname, hmessage, hstack, hfields, hcause, -⟩
      exact absurd hcause (hnone _ _ _ _ _ hname hmessage hstack hfields)

/-- One error of the chain, given what arrives of its cause. -/
theorem record_iff {v : V} {object : ErrorObject V} (hthrown : js.thrown v = .error object)
    (cause : Serialized V) :
    (∃ c, js.cloneSerialized (.record object.name object.message object.stack
          object.assignedFields cause) = some c ∧ js.Same v (js.deserializeError c)) ↔
      js.ErrorCarried object ∧ ∃ c, js.cloneSerialized cause = some c ∧
        js.CauseSame object (js.deserializeError c) := by
  constructor
  · rintro ⟨c, hclone, hsame⟩
    obtain ⟨name, message, stack, fields, cause', hname, hmessage, hstack, hfields, hcause, rfl⟩ :=
      clone_record_iff.1 hclone
    unfold deserializeError at hsame
    split at hsame
    case isTrue hflag =>
      obtain ⟨object', hthrown', hname', hmessage', hstack', hkept, hcausesame⟩ := hsame
      cases hthrown.symm.trans hthrown'
      -- what was cloned is what the new error was given
      have hmessageOf := Option.some.inj (hmessage.symm.trans hmessage')
      have hstackOf := Option.some.inj (hstack.symm.trans hstack')
      exact ⟨⟨⟨name, hname⟩, ⟨message, hmessage, hmessageOf.symm⟩,
        ⟨stack, hstack, hstackOf.symm⟩, (fieldsCarried_iff hfields).1 ⟨hflag, hkept⟩⟩,
        cause', hcause, hcausesame⟩
    case isFalse => exact absurd hsame id
  · rintro ⟨⟨⟨name, hname⟩, ⟨message, hmessage, hmessageOf⟩, ⟨stack, hstack, hstackOf⟩, hfields⟩,
      cause', hcause, hcausesame⟩
    obtain ⟨fields, hcloned⟩ := cloneFields_isSome.2 fun field hmem =>
      (hfields.cloned field hmem).imp fun _ h => h.1
    obtain ⟨hflag, hkept⟩ := (fieldsCarried_iff hcloned).2 hfields
    refine ⟨.record name message stack fields cause', clone_record_iff.2
      ⟨name, message, stack, fields, cause', hname, hmessage, hstack, hcloned, hcause, rfl⟩, ?_⟩
    unfold deserializeError
    rw [if_pos hflag]
    refine ⟨object, hthrown, hname, ?_, ?_, hkept, hcausesame⟩
    · rw [hmessageOf]
      exact hmessage
    · rw [hstackOf]
      exact hstack

/-- The last error of the chain. -/
theorem last_iff {v : V} {object : ErrorObject V} (hthrown : js.thrown v = .error object)
    (hcause : object.cause = none) :
    (∃ c, js.cloneSerialized (.record object.name object.message object.stack
          object.assignedFields .absent) = some c ∧ js.Same v (js.deserializeError c)) ↔
      js.ErrorCarried object := by
  refine (record_iff hthrown .absent).trans (and_iff_left ⟨.absent, rfl, ?_⟩)
  unfold CauseSame
  rw [hcause]
  rfl

/-- A value that is no error arrives as its clone, if it is not taken for one. -/
theorem value_iff {v : V} (hthrown : js.thrown v = .other) :
    (∃ c, js.cloneSerialized (.value v) = some c ∧ js.Same v (js.deserializeError c)) ↔
      ∃ w, js.clone v = some w ∧ js.flagged w = false := by
  constructor
  · rintro ⟨c, hclone, hsame⟩
    obtain ⟨w, hw, rfl⟩ := Option.map_eq_some_iff.1 hclone
    refine ⟨w, hw, ?_⟩
    unfold deserializeError at hsame
    split at hsame
    case isTrue => exact absurd hsame id
    case isFalse hflagged => exact Bool.eq_false_iff.2 hflagged
  · rintro ⟨w, hw, hflagged⟩
    refine ⟨.value w, Option.map_eq_some_iff.2 ⟨w, hw, rfl⟩, ?_⟩
    unfold deserializeError
    rw [if_neg (Bool.eq_false_iff.1 hflagged)]
    exact ⟨hthrown, hw⟩

section Calls

variable {v cause : V} {object : ErrorObject V} (depth : Nat)

theorem serializeError_unreadable (h : js.thrown v = .unreadable) :
    js.serializeError depth v = none := by
  rw [serializeError.eq_def]
  simp only [h]

theorem serializeError_last (h : js.thrown v = .error object) (hcause : object.cause = none) :
    js.serializeError depth v = some (.record object.name object.message object.stack
      object.assignedFields .absent) := by
  rw [serializeError.eq_def]
  simp only [h, hcause]

theorem serializeError_zero (h : js.thrown v = .error object)
    (hcause : object.cause = some cause) : js.serializeError 0 v = none := by
  rw [serializeError.eq_def]
  simp only [h, hcause]

theorem serializeError_succ (h : js.thrown v = .error object)
    (hcause : object.cause = some cause) :
    js.serializeError (depth + 1) v = (js.serializeError depth cause).map
      (.record object.name object.message object.stack object.assignedFields) := by
  rw [serializeError.eq_def]
  simp only [h, hcause]

theorem carried_unreadable (h : js.thrown v = .unreadable) : ¬ js.Carried depth v := by
  rw [Carried.eq_def]
  simp only [h, not_false_eq_true]

theorem carried_last (h : js.thrown v = .error object) (hcause : object.cause = none) :
    js.Carried depth v ↔ js.ErrorCarried object := by
  rw [Carried.eq_def]
  simp only [h, hcause, and_true]

theorem carried_zero (h : js.thrown v = .error object) (hcause : object.cause = some cause) :
    ¬ js.Carried 0 v := by
  rw [Carried.eq_def]
  simp only [h, hcause, and_false, not_false_eq_true]

theorem carried_succ (h : js.thrown v = .error object) (hcause : object.cause = some cause) :
    js.Carried (depth + 1) v ↔ js.ErrorCarried object ∧ js.Carried depth cause := by
  rw [Carried.eq_def]
  simp only [h, hcause]

end Calls

/-- What a thrown value is, with its cause. -/
theorem thrown_cases (js : Engine V) (v : V) :
    js.thrown v = .other ∨ js.thrown v = .unreadable ∨
      (∃ object, js.thrown v = .error object ∧ object.cause = none) ∨
      ∃ object cause, js.thrown v = .error object ∧ object.cause = some cause := by
  cases hthrown : js.thrown v with
  | other => exact Or.inl rfl
  | unreadable => exact Or.inr (Or.inl rfl)
  | error object =>
    cases hcause : object.cause with
    | none => exact Or.inr (Or.inr (Or.inl ⟨object, rfl, hcause⟩))
    | some cause => exact Or.inr (Or.inr (Or.inr ⟨object, cause, rfl, hcause⟩))

/-- Exactly which thrown values come out as they went in, by induction on the
depth: each call of `serializeError` is for one error of the chain. -/
theorem same_arrival_iff (depth : Nat) (v : V) :
    (∃ c, js.arrival depth v = some c ∧ js.Same v (js.deserializeError c)) ↔
      js.Carried depth v := by
  unfold arrival
  induction depth generalizing v with
  | zero =>
    rcases js.thrown_cases v with h | h | ⟨object, h, hcause⟩ | ⟨object, cause, h, hcause⟩
    · rw [serializeError_other 0 h, carried_other 0 h]
      exact value_iff h
    · rw [serializeError_unreadable 0 h]
      exact iff_of_false (fun hsome => absurd hsome.choose_spec.1 nofun) (carried_unreadable 0 h)
    · rw [serializeError_last 0 h hcause, carried_last 0 h hcause]
      exact last_iff h hcause
    · -- the cause would need one more call
      rw [serializeError_zero h hcause]
      exact iff_of_false (fun hsome => absurd hsome.choose_spec.1 nofun) (carried_zero h hcause)
  | succ depth ih =>
    rcases js.thrown_cases v with h | h | ⟨object, h, hcause⟩ | ⟨object, cause, h, hcause⟩
    · rw [serializeError_other _ h, carried_other _ h]
      exact value_iff h
    · rw [serializeError_unreadable _ h]
      exact iff_of_false (fun hsome => absurd hsome.choose_spec.1 nofun) (carried_unreadable _ h)
    · rw [serializeError_last _ h hcause, carried_last _ h hcause]
      exact last_iff h hcause
    · rw [serializeError_succ depth h hcause, carried_succ depth h hcause, ← ih cause]
      cases hser : js.serializeError depth cause with
      | none =>
        exact iff_of_false (fun hsome => absurd hsome.choose_spec.1 nofun)
          fun hsome => absurd hsome.2.choose_spec.1 nofun
      | some s =>
        refine (record_iff h s).trans (and_congr_right fun _ => ?_)
        simp only [CauseSame, hcause, Option.bind_some]

end Chains

end Engine

end Jco.Preview3
