import Jco.Future.Copy

/-! # The order of a read and a write

Both orders end in one copy between the same two buffers. They differ in who looks
at the component of the other, as `_write` does not leave its own, and in whose
options come first into the metadata that both ends share.
-/

namespace Jco.Future

open Jco.Js Jco.Lib Jco.Stream State

variable {α τ : Type} [StreamValue α]

/-! ## Both orders -/

/-- The options of a guest's `future.read` or `future.write`. -/
structure GuestArgs where
  componentIdx : Nat
  isAsync : Bool
  stringEncoding : Option StringEncoding
  getReallocFn : Option Nat
  memory : Option Nat
  ptr : Int

def GuestArgs.args (a : GuestArgs) : Args α :=
  ⟨a.componentIdx, a.isAsync, a.stringEncoding, a.getReallocFn, a.memory, some a.ptr, none⟩

/-- `futureRead` and `futureWrite` -/
def guestCall (side : Side) (a : GuestArgs) : Js α τ Unit := do
  beginCopy side a.args
  endCopy side a.isAsync

/-- What the two calls come to: whether one of them trapped, the codes that each end
has been given, and the memories with the element. -/
structure Outcome (τ : Type) where
  traps : Bool
  read : List CopyResult
  write : List CopyResult
  world : World τ

/-- One call after the other; then each end takes the event it has. -/
def outcome (first second : Js α τ Unit) (s : State α τ) : Outcome τ :=
  let s₁ := first.leaves s
  let s₂ := second.leaves s₁
  let s₃ := (getPendingEvent .read).leaves s₂
  let s₄ := (getPendingEvent .write).leaves s₃
  ⟨first.threw s || second.threw s₁, (s₄.futureEnd .read).reported,
    (s₄.futureEnd .write).reported, s₄.world⟩

def readThenWrite (e : ElemMeta α τ) (w : World τ) (read write : GuestArgs) : Outcome τ :=
  outcome (guestCall .read read) (guestCall .write write) (.init e w)

def writeThenRead (e : ElemMeta α τ) (w : World τ) (read write : GuestArgs) : Outcome τ :=
  outcome (guestCall .write write) (guestCall .read read) (.init e w)

/-! ## The condition -/

/-- Lifting the element from the writer's memory and lowering it into the reader's:
whether it throws, and what it leaves. -/
def ElemMeta.copies (e : ElemMeta α τ) (read write : GuestArgs) (w : World τ) :
    Bool × World τ :=
  let copy := transfer e write.args.buffer read.args.buffer
  (copy.threw w, copy.leaves w)

/-- The functions of the type of an element. -/
structure Codec (α τ : Type) where
  liftFn : LiftCtx → Script JsError (World τ) α
  lowerFn : LowerCtx → α → Script JsError (World τ) Unit

def ElemMeta.withCodec (e : ElemMeta α τ) (c : Codec α τ) : ElemMeta α τ :=
  { e with liftFn := c.liftFn, lowerFn := c.lowerFn }

/-- The options that the functions of a type look at: both where there are strings, a realloc
alone where there are lists only, and none where there are numbers only. -/
structure Uses where
  stringEncoding : Bool
  realloc : Bool

/-- The functions look at no other option. -/
structure Codec.Within (c : Codec α τ) (uses : Uses) : Prop where
  lift : uses.stringEncoding = false → ∀ ctx enc,
    c.liftFn { ctx with stringEncoding := enc } = c.liftFn ctx
  lower : uses.stringEncoding = false → ∀ ctx enc,
    c.lowerFn { ctx with stringEncoding := enc } = c.lowerFn ctx
  realloc : uses.realloc = false → ∀ ctx f,
    c.lowerFn { ctx with getReallocFn := f } = c.lowerFn ctx

/-- The copy calls the functions of the type: there is an element, not a byte, the writer has a
memory, and a string encoding is known. -/
def ElemMeta.Lifts (e : ElemMeta α τ) (read write : GuestArgs) : Prop :=
  e.isNone = false ∧ e.payloadTypeName ≠ some "U8" ∧ write.memory ≠ none ∧
    (e.stringEncoding ≠ none ∨ read.stringEncoding ≠ none ∨ write.stringEncoding ≠ none)

/-- The copy throws before it has done anything, whatever is in the memories. -/
def ElemMeta.CannotCopy (e : ElemMeta α τ) (read write : GuestArgs) : Prop :=
  e.isNone = false ∧
    if e.payloadTypeName = some "U8" then
      write.memory = none ∨ read.memory = none ∨ write.ptr < 0 ∨ read.ptr < 0
    else ¬ e.Lifts read write

/-- Both calls bring an option that the metadata do not have yet, and not the same. -/
def Clash {β : Type} (known read write : Option β) : Prop :=
  known = none ∧ read ≠ none ∧ write ≠ none ∧ read ≠ write

/-- A call is refused; or both ends are in one component, whose element cannot be copied; or they
are not, and the calls do not bring different options that the functions of the type look at. -/
def OrderFree (e : ElemMeta α τ) (uses : Uses) (read write : GuestArgs) : Prop :=
  e.refuses read.args = true ∨ e.refuses write.args = true ∨
    if read.componentIdx = write.componentIdx then e.CannotCopy read write
    else e.Lifts read write →
      ¬ (uses.stringEncoding = true ∧
        Clash e.stringEncoding read.stringEncoding write.stringEncoding) ∧
      ¬ (uses.realloc = true ∧ read.memory ≠ none ∧
        Clash e.getReallocFn read.getReallocFn write.getReallocFn)

/-! ## The calls -/

section

open Script

variable {s : State α τ} {side : Side} {a : GuestArgs}

omit [StreamValue α] in
/-- A guest has no data but what is in its memory. -/
theorem offers_args (side : Side) (a : GuestArgs) : (a.args : Args α).buffer.Offers side where
  fresh := rfl
  value := by
    intro _ data hdata
    cases hdata

theorem guestCall_refused (side : Side) (hidle : (s.futureEnd side).copyState = .idle)
    (hrefuses : s.elemMeta.refuses a.args = true) : ∃ err,
      (guestCall side a).run s = (.error err, { s with elemMeta := s.elemMeta.fill a.args }) := by
  obtain ⟨err, hbegin⟩ := beginCopy_refused hidle hrefuses
  exact ⟨err, run_bind_error hbegin _⟩

/-- What follows a copy that has not thrown. -/
theorem guestCall_of_copy {t : State α τ} (hidle : (s.futureEnd side).copyState = .idle)
    (hrefuses : s.elemMeta.refuses a.args = false)
    (hcopy : (copy side (a.args : Args α).buffer a.componentIdx).run
      { s with elemMeta := s.elemMeta.fill a.args } = (.ok (), t)) :
    (guestCall side a).run s =
      (endCopy side a.isAsync).run (t.modifyEnd side fun e => { e with inFlight := true }) :=
  run_bind_ok (beginCopy_ok hidle hrefuses hcopy) _

theorem guestCall_of_copy_error {t : State α τ} {err : JsError}
    (hidle : (s.futureEnd side).copyState = .idle) (hrefuses : s.elemMeta.refuses a.args = false)
    (hcopy : (copy side (a.args : Args α).buffer a.componentIdx).run
      { s with elemMeta := s.elemMeta.fill a.args } = (.error err, t)) :
    (guestCall side a).run s = (.error err, t) :=
  run_bind_error (beginCopy_error hidle hrefuses hcopy) _

/-- What a call leaves that waits for the other end. -/
def State.waiting (e : ElemMeta α τ) (w : World τ) (side : Side) (a : GuestArgs) : State α τ :=
  { State.init (e.fill a.args) w with
    pendingBufferMeta :=
      some ⟨if side = .read then some a.componentIdx else none, a.args.buffer, side⟩
    futureEnd := Function.update (State.init e w).futureEnd side
      ⟨if a.isAsync then .asyncCopying else .syncCopying, false, none, false, false, []⟩ }

theorem guestCall_waits (side : Side) {e : ElemMeta α τ} {w : World τ}
    (hrefuses : e.refuses a.args = false) :
    (guestCall side a).run (.init e w) = (.ok (), .waiting e w side a) := by
  rw [guestCall_of_copy rfl hrefuses (copy_waits rfl (offers_args side a).remaining rfl)]
  unfold endCopy State.waiting State.modifyEnd modifyEnd
  rw [modify_bind, get_bind]
  simp [State.modifyEnd, State.init]

end

/-! ## What an order comes to -/

/-- What the end of a side is called with. -/
def Side.pick (side : Side) (read write : GuestArgs) : GuestArgs :=
  match side with
  | .read => read
  | .write => write

/-- The outcome of a copy that throws or not. -/
def Outcome.ofCopy (c : Bool × World τ) : Outcome τ :=
  ⟨c.1, if c.1 then [] else [.completed], if c.1 then [] else [.completed], c.2⟩

theorem Outcome.ofCopy_inj {c d : Bool × World τ} :
    Outcome.ofCopy c = Outcome.ofCopy d ↔ c = d := by
  constructor
  · intro h
    obtain ⟨htraps, -, -, hworld⟩ := Outcome.mk.inj h
    exact Prod.ext htraps hworld
  · intro h
    rw [h]

section

open Script

variable {e : ElemMeta α τ} {w : World τ} {read write : GuestArgs} {first : Side}

omit [StreamValue α] in
/-- Two calls, one of which has thrown, after which no event is left. -/
theorem outcome_no_event {x y : Js α τ Unit} {s t : State α τ}
    (hthrew : (x.threw s || y.threw (x.leaves s)) = true)
    (hleaves : y.leaves (x.leaves s) = t) (hnone : ∀ side, (t.futureEnd side).pendingEvent = none)
    (hreported : ∀ side, (t.futureEnd side).reported = []) :
    outcome x y s = .ofCopy (true, t.world) := by
  have hread : (getPendingEvent .read).leaves t = t := by
    unfold leaves
    rw [getPendingEvent_none (hnone .read)]
  have hwrite : (getPendingEvent .write).leaves t = t := by
    unfold leaves
    rw [getPendingEvent_none (hnone .write)]
  unfold outcome
  dsimp only
  rw [hleaves, hread, hwrite, hthrew, hreported .read, hreported .write]
  rfl

omit [StreamValue α] in
theorem pendingEvent_waiting (side other : Side) (a : GuestArgs) :
    ((waiting e w side a).futureEnd other).pendingEvent = none ∧
      ((waiting e w side a).futureEnd other).reported = [] ∧
      ((waiting e w side a).futureEnd side.other).copyState = .idle := by
  cases side <;> cases other <;> exact ⟨rfl, rfl, rfl⟩

variable {side : Side} {a b : GuestArgs}

/-- A refused call leaves the ends as they are, and no event. -/
theorem outcome_first_refused (side : Side) (hrefuses : e.refuses a.args = true) :
    outcome (guestCall side a) (guestCall side.other b) (.init e w) = .ofCopy (true, w) := by
  obtain ⟨err, hfirst⟩ := guestCall_refused (s := .init e w) side rfl hrefuses
  have hthrew : (guestCall side a).threw (.init e w) = true := by
    unfold threw
    rw [hfirst]
  have hleaves : (guestCall side a).leaves (.init e w) = .init (e.fill a.args) w :=
    congrArg Prod.snd hfirst
  cases hsecond : (e.fill (a.args : Args α)).refuses b.args with
  | true =>
    obtain ⟨err', hcall⟩ := guestCall_refused (s := .init (e.fill a.args) w)
      side.other rfl hsecond
    refine outcome_no_event (t := .init ((e.fill a.args).fill b.args) w) ?_ ?_ ?_ ?_
    · rw [hthrew, Bool.true_or]
    · rw [hleaves]
      exact congrArg Prod.snd hcall
    · exact fun _ => rfl
    · exact fun _ => rfl
  | false =>
    refine outcome_no_event (t := .waiting (e.fill a.args) w side.other b) ?_ ?_ ?_ ?_
    · rw [hthrew, Bool.true_or]
    · rw [hleaves]
      exact congrArg Prod.snd (guestCall_waits side.other hsecond)
    · exact fun other => (pendingEvent_waiting side.other other b).1
    · exact fun other => (pendingEvent_waiting side.other other b).2.1

/-- The second call throws when the first one waits. -/
theorem outcome_second_throws (side : Side) {t : State α τ} {err : JsError}
    (hrefuses : e.refuses a.args = false)
    (hcall : (guestCall side.other b).run (.waiting e w side a) = (.error err, t))
    (hends : t.futureEnd = (waiting e w side a).futureEnd) :
    outcome (guestCall side a) (guestCall side.other b) (.init e w) = .ofCopy (true, t.world) := by
  have hleaves : (guestCall side a).leaves (.init e w) = .waiting e w side a :=
    congrArg Prod.snd (guestCall_waits side hrefuses)
  apply outcome_no_event
  · rw [hleaves]
    unfold threw
    rw [hcall]
    exact Bool.or_true _
  · rw [hleaves]
    exact congrArg Prod.snd hcall
  · intro other
    rw [hends]
    exact (pendingEvent_waiting side other a).1
  · intro other
    rw [hends]
    exact (pendingEvent_waiting side other a).2.1

/-- Nothing is refused and the copy is made. -/
theorem outcome_copied {w' : World τ} (hrefusesA : e.refuses a.args = false)
    (hrefusesB : e.refuses b.args = false)
    (hcopy : (copy side.other (b.args : Args α).buffer b.componentIdx).run
      { waiting e w side a with elemMeta := (e.fill a.args).fill b.args } =
        (.ok (), copied
          { waiting e w side a with elemMeta := (e.fill a.args).fill b.args } w')) :
    outcome (guestCall side a) (guestCall side.other b) (.init e w) = .ofCopy (false, w') := by
  have hfirst := guestCall_waits (w := w) side hrefusesA
  have hsecond := guestCall_of_copy (s := .waiting e w side a)
    (pendingEvent_waiting side side a).2.2 hrefusesB hcopy
  have hthrewA : (guestCall side a).threw (.init e w) = false := by
    unfold threw
    rw [hfirst]
  have hleavesA : (guestCall side a).leaves (.init e w) = .waiting e w side a :=
    congrArg Prod.snd hfirst
  unfold outcome
  dsimp only
  rw [hleavesA, hthrewA]
  unfold leaves threw
  rw [hsecond]
  -- the second end takes its event in the call, the first one afterwards
  cases side
  · rfl
  · rfl

/-- Nothing is refused, and the writer is not the one to find a read of its component. -/
theorem outcome_meets (side : Side) (hrefusesA : e.refuses a.args = false)
    (hrefusesB : e.refuses b.args = false)
    (hne : ¬ (side = .read ∧ a.componentIdx = b.componentIdx)) :
    outcome (guestCall side a) (guestCall side.other b) (.init e w) =
      .ofCopy (((e.fill (a.args : Args α)).fill b.args).copies (side.pick a b)
        (side.other.pick a b) w) := by
  -- the second call copies between the buffer that waits and its own
  have hcopy : (copy side.other (b.args : Args α).buffer b.componentIdx).run
      { waiting e w side a with elemMeta := (e.fill a.args).fill b.args } =
        (meet side a.args.buffer b.args.buffer).run
          { waiting e w side a with elemMeta := (e.fill a.args).fill b.args } := by
    have hpending : ({ waiting e w side a with
        elemMeta := (e.fill a.args).fill b.args } : State α τ).pendingBufferMeta =
        some ⟨if side = .read then some a.componentIdx else none, a.args.buffer, side⟩ := rfl
    refine copy_meets ?_ (offers_args side.other b).remaining hpending ?_ ?_
    · cases side <;> rfl
    · cases side <;> rfl
    · rintro ⟨hsame, -⟩
      cases side with
      | read => exact hne ⟨rfl, Int.ofNat.inj (Option.some.inj hsame)⟩
      | write => cases hsame
  have hsrc : side.src (a.args : Args α).buffer b.args.buffer =
      (side.other.pick a b).args.buffer := by
    cases side <;> rfl
  have hdst : side.dst (a.args : Args α).buffer b.args.buffer = (side.pick a b).args.buffer := by
    cases side <;> rfl
  unfold ElemMeta.copies
  dsimp only
  rcases htransfer : (transfer ((e.fill (a.args : Args α)).fill b.args)
    (side.other.pick a b).args.buffer (side.pick a b).args.buffer).run w with
      ⟨err | ⟨src, dst⟩, w'⟩
  · rw [← hsrc, ← hdst] at htransfer
    have hthrows := hcopy.trans (meet_error htransfer)
    have hcall := guestCall_of_copy_error (s := .waiting e w side a)
      (pendingEvent_waiting side side a).2.2 hrefusesB hthrows
    rw [outcome_second_throws side hrefusesA hcall rfl]
    unfold threw leaves
    rw [← hsrc, ← hdst, htransfer]
  · obtain ⟨hnone, hnone'⟩ :=
      transfer_remaining (offers_args .write _) (offers_args .read _) htransfer
    rw [← hsrc, ← hdst] at htransfer
    rw [outcome_copied hrefusesA hrefusesB (hcopy.trans (meet_ok htransfer hnone hnone'))]
    unfold threw leaves
    rw [← hsrc, ← hdst, htransfer]

/-- A write finds a read of its own component. -/
theorem outcome_same_component (hrefusesA : e.refuses a.args = false)
    (hrefusesB : e.refuses b.args = false) (hsame : a.componentIdx = b.componentIdx) :
    outcome (guestCall .read a) (guestCall .write b) (.init e w) = .ofCopy (true, w) := by
  have hcomponent : SameComponent (b.componentIdx : Int)
      ⟨some a.componentIdx, (a.args : Args α).buffer, .read⟩ := by
    constructor
    · rw [hsame]
    · omega
  obtain ⟨err, hcopy⟩ := copy_refused .write
    (s := { waiting e w .read a with elemMeta := (e.fill a.args).fill b.args })
    rfl (offers_args .write b).remaining rfl hcomponent
  have hcall := guestCall_of_copy_error (s := .waiting e w .read a)
    (pendingEvent_waiting .read .read a).2.2 hrefusesB hcopy
  exact outcome_second_throws .read hrefusesA hcall rfl

/-- The second call is refused. -/
theorem outcome_second_refused (side : Side) (hrefusesA : e.refuses a.args = false)
    (hrefusesB : e.refuses b.args = true) :
    outcome (guestCall side a) (guestCall side.other b) (.init e w) = .ofCopy (true, w) := by
  obtain ⟨err, hcall⟩ := guestCall_refused (s := .waiting e w side a) side.other
    (pendingEvent_waiting side side a).2.2 hrefusesB
  exact outcome_second_throws side hrefusesA hcall rfl

end

/-! ## Order independence -/

/-- What the read and the write come to when the write is first: only the copy decides. -/
theorem writeThenRead_eq (e : ElemMeta α τ) (w : World τ) (read write : GuestArgs) :
    writeThenRead e w read write = .ofCopy
      (if e.refuses read.args ∨ e.refuses write.args then (true, w)
      else ((e.fill (write.args : Args α)).fill read.args).copies read write w) := by
  cases hwrite : e.refuses write.args with
  | true =>
    rw [if_pos (Or.inr rfl)]
    exact outcome_first_refused .write hwrite
  | false =>
    cases hread : e.refuses read.args with
    | true =>
      rw [if_pos (Or.inl rfl)]
      exact outcome_second_refused .write hwrite hread
    | false =>
      rw [if_neg (by simp)]
      exact outcome_meets .write hwrite hread (by simp)

/-- When the read is first, the components decide as well. -/
theorem readThenWrite_eq (e : ElemMeta α τ) (w : World τ) (read write : GuestArgs) :
    readThenWrite e w read write = .ofCopy
      (if e.refuses read.args ∨ e.refuses write.args ∨ read.componentIdx = write.componentIdx then
        (true, w)
      else ((e.fill (read.args : Args α)).fill write.args).copies read write w) := by
  cases hread : e.refuses read.args with
  | true =>
    rw [if_pos (Or.inl rfl)]
    exact outcome_first_refused .read hread
  | false =>
    cases hwrite : e.refuses write.args with
    | true =>
      rw [if_pos (Or.inr (Or.inl rfl))]
      exact outcome_second_refused .read hread hwrite
    | false =>
      by_cases hsame : read.componentIdx = write.componentIdx
      · rw [if_pos (Or.inr (Or.inr hsame))]
        exact outcome_same_component hread hwrite hsame
      · rw [if_neg (by simpa using hsame)]
        exact outcome_meets .read hread hwrite fun h => hsame h.2

/-! ## The copy and the options -/

section

open Script

variable {e : ElemMeta α τ} {read write : GuestArgs} {uses : Uses} {c : Codec α τ}

omit [StreamValue α] in
/-- Without a clash both orders fill in the same option. -/
theorem fill_eq_iff {β : Type} (known a b : Option β) :
    ((known <|> b) <|> a) = ((known <|> a) <|> b) ↔ ¬ Clash known a b := by
  unfold Clash
  cases known <;> cases a <;> cases b <;> simp [eq_comm]

theorem copies_isNone (h : e.isNone = true) (w : World τ) :
    e.copies read write w = (false, w) := by
  simp [ElemMeta.copies, transfer, Buffer.read, Buffer.write, h, Args.buffer, GuestArgs.args,
    Buffer.remaining, threw, leaves, run_bind]

theorem copies_no_memory (h : e.isNone = false) (hmemory : write.memory = none) (w : World τ) :
    e.copies read write w = (true, w) := by
  simp [ElemMeta.copies, transfer, Buffer.read, h, Args.buffer, GuestArgs.args, hmemory,
    threw, leaves, run_bind, Script.throw]

theorem copies_no_encoding (h : e.isNone = false) (hbyte : e.payloadTypeName ≠ some "U8")
    (henc : e.stringEncoding = none) (w : World τ) : e.copies read write w = (true, w) := by
  cases hmemory : write.memory with
  | none => exact copies_no_memory h hmemory w
  | some m =>
    simp [ElemMeta.copies, transfer, Buffer.read, h, hbyte, henc, Args.buffer, GuestArgs.args,
      hmemory, threw, leaves, run_bind, Script.throw]

/-- A byte is copied without the options. -/
theorem copies_byte (h : e.isNone = false) (hbyte : e.payloadTypeName = some "U8") {m : Nat}
    (hwrite : write.memory = some m) (w : World τ) :
    e.copies read write w =
      match (w.memories m).view write.ptr 1, read.memory with
      | none, _ => (true, w)
      | some _, none => (true, w)
      | some bytes, some m' =>
        match (w.memories m').setBytes read.ptr
            ((bytes.map (StreamValue.ofByte (α := α))).map StreamValue.toByte) with
        | none => (true, w)
        | some memory => (false, { w with memories := Function.update w.memories m' memory }) := by
  cases hview : (w.memories m).view write.ptr 1 with
  | none =>
    simp [ElemMeta.copies, transfer, Buffer.read, h, hbyte, Args.buffer, GuestArgs.args, hwrite,
      readByte, hview, threw, leaves, run_bind, Script.get, Script.throw]
  | some bytes =>
    have hlength : bytes.length = 1 := ManagedBuffer.length_view hview
    cases hread : read.memory with
    | none =>
      simp [ElemMeta.copies, transfer, Buffer.read, Buffer.write, Buffer.remaining, h, hbyte,
        Args.buffer, GuestArgs.args, hwrite, hread, readByte, hview, hlength, threw, leaves,
        run_bind, Script.get, Script.throw]
    | some m' =>
      cases hset : (w.memories m').setBytes read.ptr
          ((bytes.map (StreamValue.ofByte (α := α))).map StreamValue.toByte) <;>
      · simp only [List.map_map] at hset
        simp [ElemMeta.copies, transfer, Buffer.read, Buffer.write, Buffer.remaining, h, hbyte,
          Args.buffer, GuestArgs.args, hwrite, hread, readByte, writeBytes, hview, hset, hlength,
          threw, leaves, run_bind, Script.get, Script.throw, Script.modify]

variable (read) in
/-- What is lifted is lowered into the reader's memory. -/
theorem copies_lifts (h : e.isNone = false) (hbyte : e.payloadTypeName ≠ some "U8") {m : Nat}
    {enc : StringEncoding} (hwrite : write.memory = some m) (henc : e.stringEncoding = some enc)
    (w : World τ) :
    e.copies read write w =
      match (e.liftFn ⟨some write.ptr, m, write.componentIdx, enc⟩).run w, read.memory with
      | (.error _, w'), _ => (true, w')
      | (.ok _, w'), none => (true, w')
      | (.ok v, w'), some m' =>
        let lower := e.lowerFn ⟨some read.ptr, m', read.componentIdx, enc, e.getReallocFn⟩ v
        (lower.threw w', lower.leaves w') := by
  rcases hlift : (e.liftFn ⟨some write.ptr, m, write.componentIdx, enc⟩).run w with ⟨err | v, w'⟩
  · simp [ElemMeta.copies, transfer, Buffer.read, h, hbyte, henc, Args.buffer, GuestArgs.args,
      hwrite, hlift, threw, leaves, run_bind]
  · cases hread : read.memory with
    | none =>
      simp [ElemMeta.copies, transfer, Buffer.read, Buffer.write, Buffer.remaining, h, hbyte, henc,
        Args.buffer, GuestArgs.args, hwrite, hread, hlift, threw, leaves, run_bind, Script.throw]
    | some m' =>
      rcases hlower : (e.lowerFn ⟨some read.ptr, m', read.componentIdx, enc, e.getReallocFn⟩ v).run
        w' with ⟨err | _, w''⟩ <;>
      simp [ElemMeta.copies, transfer, Buffer.read, Buffer.write, Buffer.remaining, h, hbyte, henc,
        Args.buffer, GuestArgs.args, hwrite, hread, hlift, hlower, lowerEach, threw, leaves,
        run_bind]

omit [StreamValue α] in
theorem Codec.Within.liftFn_eq (hc : c.Within uses) {enc enc' : StringEncoding}
    (henc : uses.stringEncoding = true → enc = enc') (ctx : LiftCtx) :
    c.liftFn { ctx with stringEncoding := enc' } = c.liftFn { ctx with stringEncoding := enc } := by
  cases huses : uses.stringEncoding with
  | true => rw [henc huses]
  | false => exact (hc.lift huses ctx enc').trans (hc.lift huses ctx enc).symm

omit [StreamValue α] in
theorem Codec.Within.lowerFn_eq (hc : c.Within uses) {enc enc' : StringEncoding}
    {f f' : Option Nat} (henc : uses.stringEncoding = true → enc = enc')
    (hf : uses.realloc = true → f = f') (ctx : LowerCtx) :
    c.lowerFn { ctx with stringEncoding := enc', getReallocFn := f' } =
      c.lowerFn { ctx with stringEncoding := enc, getReallocFn := f } := by
  have hfn : c.lowerFn { ctx with stringEncoding := enc', getReallocFn := f' } =
      c.lowerFn { ctx with stringEncoding := enc', getReallocFn := f } := by
    cases huses : uses.realloc with
    | true => rw [hf huses]
    | false =>
      exact (hc.realloc huses { ctx with stringEncoding := enc' } f').trans
        (hc.realloc huses { ctx with stringEncoding := enc' } f).symm
  rw [hfn]
  cases huses : uses.stringEncoding with
  | true => rw [henc huses]
  | false =>
    exact (hc.lower huses { ctx with getReallocFn := f } enc').trans
      (hc.lower huses { ctx with getReallocFn := f } enc).symm

/-- With other options that the functions of the type do not look at, the copy is the same. -/
theorem copies_options (hc : c.Within uses) (hunit : e.isNone = false)
    (hbyte : e.payloadTypeName ≠ some "U8") {m : Nat} (hmemory : write.memory = some m)
    {enc enc' : Option StringEncoding} {f f' : Option Nat} (hknown : enc = none ↔ enc' = none)
    (henc : uses.stringEncoding = true → enc = enc')
    (hf : uses.realloc = true → read.memory ≠ none → f = f') (w : World τ) :
    ElemMeta.copies { e.withCodec c with stringEncoding := enc', getReallocFn := f' } read write w =
      ElemMeta.copies { e.withCodec c with stringEncoding := enc, getReallocFn := f } read write
        w := by
  -- without an encoding nothing is copied
  cases enc with
  | none =>
    rw [hknown.1 rfl]
    refine (copies_no_encoding ?_ ?_ ?_ w).trans (copies_no_encoding ?_ ?_ ?_ w).symm
    all_goals first | exact hunit | exact hbyte | rfl
  | some enc =>
    obtain ⟨enc', rfl⟩ := Option.ne_none_iff_exists'.1 (mt hknown.2 nofun)
    have henc : uses.stringEncoding = true → enc = enc' := fun huses => Option.some.inj (henc huses)
    have hcopies := fun (enc : StringEncoding) (f : Option Nat) => copies_lifts
      (e := { e.withCodec c with stringEncoding := some enc, getReallocFn := f }) read
      hunit hbyte hmemory rfl w
    have hlift := hc.liftFn_eq henc ⟨some write.ptr, m, write.componentIdx, enc⟩
    rw [hcopies enc' f', hcopies enc f]
    dsimp only [ElemMeta.withCodec] at hlift ⊢
    rw [hlift]
    cases hread : read.memory with
    | none =>
      rcases (c.liftFn ⟨some write.ptr, m, write.componentIdx, enc⟩).run w with ⟨_ | _, w'⟩ <;> rfl
    | some m' =>
      have hlower := hc.lowerFn_eq henc (fun huses => hf huses (by rw [hread]; nofun))
        ⟨some read.ptr, m', read.componentIdx, enc, f⟩
      dsimp only at hlower
      rcases (c.liftFn ⟨some write.ptr, m, write.componentIdx, enc⟩).run w with ⟨_ | v, w'⟩
      · rfl
      · dsimp only
        rw [hlower]

/-- Without a clash the two orders copy alike. -/
theorem copies_eq_of_free (hc : c.Within uses)
    (hfree : e.Lifts read write →
      ¬ (uses.stringEncoding = true ∧
        Clash e.stringEncoding read.stringEncoding write.stringEncoding) ∧
      ¬ (uses.realloc = true ∧ read.memory ≠ none ∧
        Clash e.getReallocFn read.getReallocFn write.getReallocFn)) (w : World τ) :
    (((e.withCodec c).fill (read.args : Args α)).fill write.args).copies read write w =
      (((e.withCodec c).fill (write.args : Args α)).fill read.args).copies read write w := by
  cases hunit : e.isNone with
  | true =>
    refine (copies_isNone ?_ w).trans (copies_isNone ?_ w).symm
    · exact hunit
    · exact hunit
  | false =>
    cases hmemory : write.memory with
    | none =>
      refine (copies_no_memory ?_ hmemory w).trans (copies_no_memory ?_ hmemory w).symm
      · exact hunit
      · exact hunit
    | some m =>
      by_cases hbyte : e.payloadTypeName = some "U8"
      · refine (copies_byte ?_ ?_ hmemory w).trans (copies_byte ?_ ?_ hmemory w).symm
        all_goals first | exact hunit | exact hbyte
      by_cases henc : e.stringEncoding ≠ none ∨ read.stringEncoding ≠ none ∨
          write.stringEncoding ≠ none
      · have hlifts : e.Lifts read write := ⟨hunit, hbyte, by rw [hmemory]; nofun, henc⟩
        obtain ⟨hencoding, hrealloc⟩ := hfree hlifts
        refine copies_options hc hunit hbyte hmemory ?_ ?_ ?_ w
        · show ((e.stringEncoding <|> write.stringEncoding) <|> read.stringEncoding) = none ↔
            ((e.stringEncoding <|> read.stringEncoding) <|> write.stringEncoding) = none
          cases e.stringEncoding <;> cases read.stringEncoding <;> cases write.stringEncoding <;>
            simp
        · exact fun huses => (fill_eq_iff _ _ _).2 fun hclash => hencoding ⟨huses, hclash⟩
        · exact fun huses hread =>
            (fill_eq_iff _ _ _).2 fun hclash => hrealloc ⟨huses, hread, hclash⟩
      · -- no call brings an encoding, in either order
        push Not at henc
        refine (copies_no_encoding ?_ ?_ ?_ w).trans (copies_no_encoding ?_ ?_ ?_ w).symm
        · exact hunit
        · exact hbyte
        · simp [ElemMeta.fill, ElemMeta.withCodec, GuestArgs.args, henc]
        · exact hunit
        · exact hbyte
        · simp [ElemMeta.fill, ElemMeta.withCodec, GuestArgs.args, henc]

end

/-! ## Types that tell the orders apart -/

/-- A type whose lifting throws or leaves a mark, and whose lowering throws or does nothing. -/
def Codec.marking (liftThrows : StringEncoding → Bool) (lowerThrows : Option Nat → Bool) :
    Codec α τ where
  liftFn ctx := do
    Script.throwIf (liftThrows ctx.stringEncoding) .engine
    Script.modify fun w => { w with memories := fun _ => [0] }
    pure StreamValue.null
  lowerFn ctx _ := Script.throwIf (lowerThrows ctx.getReallocFn) .engine

section

open Script

variable {e : ElemMeta α τ} {read write : GuestArgs} {uses : Uses}
variable {liftThrows : StringEncoding → Bool} {lowerThrows : Option Nat → Bool}

theorem Codec.marking_within (hlift : uses.stringEncoding = false → ∀ enc, liftThrows enc = false)
    (hlower : uses.realloc = false → ∀ f, lowerThrows f = false) :
    (Codec.marking liftThrows lowerThrows : Codec α τ).Within uses where
  lift huses ctx enc := by
    unfold Codec.marking
    simp only [hlift huses]
  lower _ _ _ := rfl
  realloc huses ctx f := by
    unfold Codec.marking
    simp only [hlower huses]

variable (read liftThrows lowerThrows) in
/-- What is copied with such a type. -/
theorem copies_marking (hunit : e.isNone = false) (hbyte : e.payloadTypeName ≠ some "U8") {m : Nat}
    (hmemory : write.memory = some m) {enc : StringEncoding} (henc : e.stringEncoding = some enc)
    (w : World τ) :
    (e.withCodec (.marking liftThrows lowerThrows)).copies read write w =
      if liftThrows enc then (true, w)
      else (read.memory.isNone || lowerThrows e.getReallocFn,
        { w with memories := fun _ => [0] }) := by
  rw [copies_lifts (e := e.withCodec (.marking liftThrows lowerThrows)) read hunit hbyte hmemory
    henc]
  cases hthrows : liftThrows enc <;> cases hread : read.memory <;>
    cases hlower : lowerThrows e.getReallocFn <;>
    simp [ElemMeta.withCodec, Codec.marking, throwIf, hthrows, hlower, run_bind, Script.throw,
      Script.modify, threw, leaves]

/-- A view of zeros. -/
theorem view_replicate {ptr : Int} {n : Nat} (hptr : 0 ≤ ptr) (hn : ptr.toNat < n) :
    Memory.view (List.replicate n 0) ptr 1 = some [0] := by
  unfold Memory.view
  rw [if_pos ⟨hptr, by rw [List.length_replicate]; omega⟩, List.drop_replicate, List.take_replicate,
    Nat.min_eq_left (by omega)]
  rfl

/-- An element that can be copied is copied, or leaves a mark, somewhere. -/
theorem exists_copied (tables : τ) (henc : e.Lifts read write → e.stringEncoding ≠ none)
    (h : ¬ e.CannotCopy read write) : ∃ memories : Nat → Stream.Memory,
      (e.withCodec (.marking (fun _ => false) fun _ => false)).copies read write
        ⟨memories, tables⟩ ≠ (true, ⟨memories, tables⟩) := by
  cases hunit : e.isNone with
  | true =>
    refine ⟨fun _ => [], ?_⟩
    rw [copies_isNone (e := e.withCodec _) hunit]
    nofun
  | false =>
    unfold ElemMeta.CannotCopy at h
    rw [hunit, eq_self, true_and] at h
    split at h
    next hbyte =>
      push Not at h
      obtain ⟨hwrite, hread, hsrc, hdst⟩ := h
      obtain ⟨m, hm⟩ := Option.ne_none_iff_exists'.1 hwrite
      obtain ⟨m', hm'⟩ := Option.ne_none_iff_exists'.1 hread
      -- a memory of zeros that both pointers are in
      let n := write.ptr.toNat + read.ptr.toNat + 1
      refine ⟨fun _ => List.replicate n 0, ?_⟩
      rw [copies_byte (e := e.withCodec _) hunit hbyte hm, hm',
        view_replicate hsrc (by omega)]
      have hset : ∃ memory, Memory.setBytes (List.replicate n 0) read.ptr
          (([0].map (StreamValue.ofByte (α := α))).map StreamValue.toByte) = some memory := by
        refine ⟨_, if_pos ⟨hdst, ?_⟩⟩
        simp [n]
      obtain ⟨memory, hset⟩ := hset
      dsimp only
      rw [hset]
      nofun
    next hbyte =>
      rw [not_not] at h
      obtain ⟨m, hm⟩ := Option.ne_none_iff_exists'.1 h.2.2.1
      obtain ⟨enc, henc⟩ := Option.ne_none_iff_exists'.1 (henc h)
      refine ⟨fun _ => [], ?_⟩
      rw [copies_marking read _ _ hunit hbyte hm henc]
      intro heq
      have hmark := congrFun (congrArg World.memories (Prod.mk.inj heq).2) 0
      cases hmark

end

/-! ## Order independence of every type -/

section

variable {e : ElemMeta α τ} {read write : GuestArgs} {uses : Uses}

omit [StreamValue α] in
theorem withCodec_fill (c : Codec α τ) (a b : Args α) :
    ((e.withCodec c).fill a).fill b = ((e.fill a).fill b).withCodec c := rfl

variable (e read write) in
omit [StreamValue α] in
/-- The metadata that the calls have filled in, whichever is first. -/
theorem lifts_fill {e' : ElemMeta α τ}
    (he' : e' = (e.fill (write.args : Args α)).fill read.args ∨
      e' = (e.fill (read.args : Args α)).fill write.args) :
    (e'.Lifts read write ↔ e.Lifts read write) ∧ (e'.Lifts read write → e'.stringEncoding ≠ none) ∧
      (e'.CannotCopy read write ↔ e.CannotCopy read write) := by
  have hlifts : (e'.Lifts read write ↔ e.Lifts read write) ∧
      (e'.Lifts read write → e'.stringEncoding ≠ none) := by
    unfold ElemMeta.Lifts
    rcases he' with rfl | rfl <;>
    · simp only [ElemMeta.fill, GuestArgs.args]
      cases e.stringEncoding <;> cases read.stringEncoding <;> cases write.stringEncoding <;>
        simp
  refine ⟨hlifts.1, hlifts.2, ?_⟩
  unfold ElemMeta.CannotCopy
  rw [hlifts.1]
  rcases he' with rfl | rfl <;> rfl

theorem copies_of_cannotCopy (h : e.CannotCopy read write) (w : World τ) :
    e.copies read write w = (true, w) := by
  obtain ⟨hunit, h⟩ := h
  cases hmemory : write.memory with
  | none => exact copies_no_memory hunit hmemory w
  | some m =>
    split at h
    next hbyte =>
      rw [copies_byte hunit hbyte hmemory]
      rcases h with hnone | hnone | hptr | hptr
      · rw [hmemory] at hnone
        cases hnone
      · rw [hnone]
        cases (w.memories m).view write.ptr 1 <;> rfl
      · rw [Memory.view, if_neg (by omega)]
      · have hset : ∀ m' bytes, (w.memories m').setBytes read.ptr bytes = none := by
          intro m' bytes
          rw [Memory.setBytes, if_neg (by omega)]
        cases (w.memories m).view write.ptr 1 <;> cases read.memory <;> simp [hset]
    next hbyte =>
      refine copies_no_encoding hunit hbyte ?_ w
      by_contra henc
      exact h ⟨hunit, hbyte, by rw [hmemory]; nofun, .inl henc⟩

/-- In one component no type may be copied. -/
theorem cannotCopy_of_all (tables : τ)
    (hall : ∀ (c : Codec α τ) memories, c.Within uses →
      (((e.withCodec c).fill (write.args : Args α)).fill read.args).copies read write
        ⟨memories, tables⟩ = (true, ⟨memories, tables⟩)) : e.CannotCopy read write := by
  by_contra hcan
  obtain ⟨-, henc, hcannot⟩ := lifts_fill e read write (.inl rfl)
  obtain ⟨memories, hcopies⟩ := exists_copied tables henc (mt hcannot.1 hcan)
  have hmarking := hall _ memories (Codec.marking_within (fun _ _ => rfl) fun _ _ => rfl)
  rw [withCodec_fill] at hmarking
  exact hcopies hmarking

/-- In two components no type may see a clash. -/
theorem no_clash_of_all (tables : τ)
    (hall : ∀ (c : Codec α τ) memories, c.Within uses →
      (((e.withCodec c).fill (read.args : Args α)).fill write.args).copies read write
          ⟨memories, tables⟩ =
        (((e.withCodec c).fill (write.args : Args α)).fill read.args).copies read write
          ⟨memories, tables⟩) (hlifts : e.Lifts read write) :
    ¬ (uses.stringEncoding = true ∧
        Clash e.stringEncoding read.stringEncoding write.stringEncoding) ∧
      ¬ (uses.realloc = true ∧ read.memory ≠ none ∧
        Clash e.getReallocFn read.getReallocFn write.getReallocFn) := by
  have hlifts' := hlifts
  obtain ⟨hunit, hbyte, hwrite, -⟩ := hlifts'
  obtain ⟨m, hm⟩ := Option.ne_none_iff_exists'.1 hwrite
  obtain ⟨hlifts₁, hknown₁, -⟩ := lifts_fill e read write (.inl rfl)
  obtain ⟨hlifts₂, hknown₂, -⟩ := lifts_fill e read write (.inr rfl)
  obtain ⟨enc₁, henc₁⟩ := Option.ne_none_iff_exists'.1 (hknown₁ (hlifts₁.2 hlifts))
  obtain ⟨enc₂, henc₂⟩ := Option.ne_none_iff_exists'.1 (hknown₂ (hlifts₂.2 hlifts))
  -- both orders with a type that marks an empty memory
  have hboth : ∀ liftThrows lowerThrows,
      (Codec.marking liftThrows lowerThrows : Codec α τ).Within uses →
      (if liftThrows enc₂ then (true, ⟨fun _ => [], tables⟩)
        else (read.memory.isNone ||
          lowerThrows ((e.getReallocFn <|> read.getReallocFn) <|> write.getReallocFn),
            (⟨fun _ => [0], tables⟩ : World τ))) =
      if liftThrows enc₁ then (true, ⟨fun _ => [], tables⟩)
        else (read.memory.isNone ||
          lowerThrows ((e.getReallocFn <|> write.getReallocFn) <|> read.getReallocFn),
            ⟨fun _ => [0], tables⟩) := by
    intro liftThrows lowerThrows hwithin
    have hcopies := hall _ (fun _ => []) hwithin
    have h₂ := copies_marking (e := (e.fill (read.args : Args α)).fill write.args) read
      liftThrows lowerThrows hunit hbyte hm henc₂ ⟨fun _ => [], tables⟩
    have h₁ := copies_marking (e := (e.fill (write.args : Args α)).fill read.args) read
      liftThrows lowerThrows hunit hbyte hm henc₁ ⟨fun _ => [], tables⟩
    exact h₂.symm.trans (hcopies.trans h₁)
  constructor
  · rintro ⟨huses, hclash⟩
    have hne : enc₁ ≠ enc₂ := by
      rintro rfl
      exact (fill_eq_iff _ _ _).1 (henc₁.trans henc₂.symm) hclash
    have heq := hboth (fun enc => enc = enc₁) (fun _ => false)
      (Codec.marking_within (fun hno => by rw [huses] at hno; cases hno) fun _ _ => rfl)
    simp only [decide_eq_true_eq, hne.symm, if_true, if_false] at heq
    have hmark := congrFun (congrArg World.memories (Prod.mk.inj heq).2) 0
    cases hmark
  · rintro ⟨huses, hread, hclash⟩
    have hne := mt (fill_eq_iff e.getReallocFn read.getReallocFn write.getReallocFn).1
      (not_not.2 hclash)
    have heq := hboth (fun _ => false)
      (fun f => f = ((e.getReallocFn <|> write.getReallocFn) <|> read.getReallocFn))
      (Codec.marking_within (fun _ _ => rfl) fun hno => by rw [huses] at hno; cases hno)
    obtain ⟨m', hm'⟩ := Option.ne_none_iff_exists'.1 hread
    have hthrows := (Prod.mk.inj heq).1
    simp only [hm', Option.isNone_some, Bool.false_or, decide_true, decide_eq_true_eq] at hthrows
    exact hne hthrows.symm

end

/-- **Order independence.** Whatever the memories and whatever the type, among those whose
functions look at no option but `uses`: the two orders come to the same exactly if a call is
refused, or the ends are in one component and nothing can be copied, or they are in two and bring
no different options. -/
theorem order_independent_iff (e : ElemMeta α τ) (uses : Uses) (tables : τ)
    (read write : GuestArgs) :
    (∀ (c : Codec α τ) memories, c.Within uses →
      readThenWrite (e.withCodec c) ⟨memories, tables⟩ read write =
        writeThenRead (e.withCodec c) ⟨memories, tables⟩ read write) ↔
      OrderFree e uses read write := by
  have hrefuses : ∀ (c : Codec α τ) (a : Args α), (e.withCodec c).refuses a = e.refuses a :=
    fun _ _ => rfl
  simp only [readThenWrite_eq, writeThenRead_eq, Outcome.ofCopy_inj, hrefuses]
  unfold OrderFree
  by_cases hread : e.refuses read.args = true
  · simp [hread]
  by_cases hwrite : e.refuses write.args = true
  · simp [hwrite]
  simp only [hread, hwrite, false_or, if_false, Bool.false_eq_true]
  by_cases hsame : read.componentIdx = write.componentIdx
  · simp only [if_pos hsame]
    constructor
    · intro hall
      exact cannotCopy_of_all tables fun c memories hc => (hall c memories hc).symm
    · intro hcannot c memories _
      -- the functions of the type are no part of what can be copied
      have hfilled : (((e.withCodec c).fill (write.args : Args α)).fill read.args).CannotCopy
          read write := (lifts_fill e read write (.inl rfl)).2.2.2 hcannot
      exact (copies_of_cannotCopy hfilled _).symm
  · simp only [if_neg hsame]
    constructor
    · intro hall
      exact no_clash_of_all tables hall
    · intro hfree c memories hc
      exact copies_eq_of_free hc hfree _

/-- The options of a component with both ends, for an element at `ptr`. -/
def byteAt (ptr : Int) : GuestArgs := ⟨0, true, none, none, some 0, ptr⟩

/-- A component with both ends hands itself a byte, but only when it writes first. -/
theorem order_counterexample :
    let w : World Unit := ⟨fun _ => [7, 0], ()⟩
    (readThenWrite futureU8 w (byteAt 1) (byteAt 0)).traps = true ∧
      (readThenWrite futureU8 w (byteAt 1) (byteAt 0)).world.memories 0 = [7, 0] ∧
      (writeThenRead futureU8 w (byteAt 1) (byteAt 0)).traps = false ∧
      (writeThenRead futureU8 w (byteAt 1) (byteAt 0)).read = [.completed] ∧
      (writeThenRead futureU8 w (byteAt 1) (byteAt 0)).write = [.completed] ∧
      (writeThenRead futureU8 w (byteAt 1) (byteAt 0)).world.memories 0 = [7, 7] := by
  decide

end Jco.Future
