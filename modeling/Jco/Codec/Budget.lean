import Mathlib
import Jco.Codec.LiftImage

/-! # The storage budget

A lift context carries the bytes that may still be read. Aggregates set the budget for
their parts and set it back. The generated function is compared here with one that checks
the budget of each part before it lifts the part.
-/

namespace Jco.Codec

open Jco.Js (JsError)
open Jco.Stream Jco.Lib List Nat Ty Layout LittleEndian VariantLayout

/-! ## Watching the budget -/

/-- `e` is thrown where fewer than `size` bytes are left. -/
def watched (e : JsError) (size : Nat) (f : Lifter) : Lifter := fun m c =>
  match c.storageLen with
  | none => f m c
  | some len => if len < size then .error e else f m c

/-- The lift function of a type that watches each field, element, entry and payload. -/
def watchedLift (env : Env) (e : JsError) : Ty → Lifter
  | .record names tys =>
    liftFlatRecord
      (List.ofFn fun i =>
        ⟨names i, watched e (tys i).size (watchedLift env e (tys i)), (tys i).size, (tys i).align⟩)
      (Ty.record names tys).size (Ty.record names tys).align
  | .tuple tys =>
    liftFlatTuple
      (List.ofFn fun i =>
        ⟨"", watched e (tys i).size (watchedLift env e (tys i)), (tys i).size, (tys i).align⟩)
      (Ty.tuple tys).size (Ty.tuple tys).align
  | .tagged kind names payload tys =>
    liftFlatCases kind
      { caseMetas := List.ofFn fun i =>
          (names i, (payload i).map fun j => watched e (tys j).size (watchedLift env e (tys j)))
        variantSize32 := (Ty.tagged kind names payload tys).size
        variantAlign32 := (Ty.tagged kind names payload tys).align
        variantPayloadOffset32 := (Ty.caseLayout payload tys).payloadOffset }
  | .list elem =>
    liftFlatList
      ⟨watched e elem.size (watchedLift env e elem), elem.size, none, typedArrayCtor elem⟩
  | .fixedList elem len =>
    liftFlatList ⟨watched e elem.size (watchedLift env e elem), elem.size, some len, none⟩
  | .map key value =>
    liftFlatMap
      ⟨watched e (Ty.entryLayout key value).size (watchedLift env e key),
        watched e value.size (watchedLift env e value), (Ty.entryLayout key value).size,
        Ty.valueOffset key value⟩
  | ty => genLift env ty

/-- What a read throws that finds too little storage. -/
def Shortage (e : JsError) : Prop :=
  ∃ (len : Int) (what : String),
    e = .error s!"insufficient storage ([{len}] bytes) for lift ({what})"

/-- A read of the lift functions has found too little storage. What the tables of the
component throw is their own. -/
def Short (env : Env) (e : JsError) : Prop :=
  Shortage e ∧ ∀ ty h, env.liftHandle ty h ≠ .error e

/-- With a budget of its size the type is lifted without a shortage, and each part is
covered. -/
def BudgetCovers (env : Env) (ty : Ty) (m : Memory) (p : Nat) : Prop :=
  (∀ e, watchedLift env e ty m ⟨p, some ty.size⟩ = genLift env ty m ⟨p, some ty.size⟩) ∧
  ∀ e, genLift env ty m ⟨p, some ty.size⟩ = .error e → ¬ Short env e

/-- No value of a type of 256 or 65536 cases, or of no flags, is visited. -/
def WidthsFit : Ty → Value → Prop
  | .record (n := n) _ tys, x => ∀ xs : Fin n → Value, x = .record (List.ofFn xs) →
      ∀ i, WidthsFit (tys i) (xs i)
  | .tuple (n := n) tys, x => ∀ xs : Fin n → Value, x = .record (List.ofFn xs) →
      ∀ i, WidthsFit (tys i) (xs i)
  | .tagged (n := n) _ _ payload tys, x => (n ≠ 256 ∧ n ≠ 65536) ∧
      ∀ (i : Fin n) j y, payload i = some j → x = .variant i (some y) → WidthsFit (tys j) y
  | .flags names, _ => names ≠ []
  | .list elem, x => ∀ xs, x = .list xs → ∀ y ∈ xs, WidthsFit elem y
  | .fixedList elem _, x => ∀ xs, x = .list xs → ∀ y ∈ xs, WidthsFit elem y
  | .map key value, x => ∀ es, x = .map es → ∀ e ∈ es, WidthsFit key e.1 ∧ WidthsFit value e.2
  | _, _ => True

variable {env : Env} {m : Memory} {p q : Nat} {len : Option Int} {count a b size : Nat} {α β : Type}

/-! ## Shortages -/

theorem not_short_engine : ¬ Short env .engine := by
  rintro ⟨⟨len, what, h⟩, -⟩
  cases h

/-- Other messages begin otherwise. -/
theorem not_short_text {s : String} (h : s.toList.take 3 ≠ ['i', 'n', 's']) :
    ¬ Short env (.error s) := by
  rintro ⟨⟨len, what, heq⟩, -⟩
  refine h ?_
  rw [JsError.error.inj heq]
  simp [String.toList_append, toString]

variable {e : JsError}

theorem not_short_handle {ty : HandleTy} {h : Nat}
    (heq : env.liftHandle ty h = .error e) : ¬ Short env e :=
  fun hshort => hshort.2 ty h heq

/-- The result takes at most `count` bytes of the budget, and the pointer to `q` at most. -/
def Spends (env : Env) (len : Option Int) (count q : Nat) : Except JsError (α × Cursor) → Prop
  | .ok (_, c) => c.storagePtr ≤ q ∧ ∀ k, Room len (count + k) → Room c.storageLen k
  | .error e => ¬ Short env e

theorem Spends.bind {x : Except JsError (α × Cursor)}
    {f : α × Cursor → Except JsError (β × Cursor)} (hx : Spends env len a p x)
    (hf : ∀ v c, x = .ok (v, c) → c.storagePtr ≤ p → Spends env c.storageLen b q (f (v, c)))
    (hab : a + b ≤ count) : Spends env len count q (x >>= f) := by
  cases x with
  | error e => exact hx
  | ok vc =>
    -- What the first spends and what is left of the budget are given to the second.
    obtain ⟨v, c⟩ := vc
    have hrest := hf v c rfl hx.1
    change Spends env len count q (f (v, c))
    cases hf : f (v, c) with
    | error e => rwa [hf] at hrest
    | ok wd =>
      rw [hf] at hrest
      refine ⟨hrest.1, fun k hk => hrest.2 k (hx.2 _ (hk.mono ?_))⟩
      omega

theorem Spends.of_ok {v : α} {c : Cursor} (hptr : c.storagePtr ≤ q) (hlen : c.storageLen = len) :
    Spends env len count q (.ok (v, c)) :=
  ⟨hptr, fun k hk => hlen ▸ hk.mono (le_add_left k count)⟩

/-- The watching function answers what the lift function does, which spends at most the
size. -/
def Covers (env : Env) (f g : Lifter) (m : Memory) (p size : Nat) : Prop :=
  ∀ len, Room len size → g m ⟨p, len⟩ = f m ⟨p, len⟩ ∧
    Spends env len size (p + size) (f m ⟨p, len⟩)

/-- A part that is covered is not noticed. -/
theorem Covers.watched {f g : Lifter} (h : Covers env f g m p size) {size' : Nat}
    (hroom : Room len size') (hle : size ≤ size') :
    watched e size' g m ⟨p, len⟩ = f m ⟨p, len⟩ := by
  rw [← (h len (hroom.mono hle)).1]
  cases len with
  | none => rfl
  | some l => exact if_neg (Int.not_lt.2 (hroom l rfl))

/-! ## Reads -/

theorem liftBytes_spends (what : String) (hroom : Room len count) :
    Spends env len count (p + count) (liftBytes what count m ⟨p, len⟩) := by
  have hbytes : getBytes m p count = .error .engine ∨ ∃ bs, getBytes m p count = .ok bs := by
    unfold getBytes
    split
    · exact .inl rfl
    · exact .inr ⟨_, rfl⟩
  unfold liftBytes
  cases len with
  | none =>
    rcases hbytes with herror | ⟨bs, hok⟩
    · rw [herror]
      exact not_short_engine
    · rw [hok]
      exact ⟨le_rfl, fun k _ => Room.none k⟩
  | some l =>
    have hl := hroom l rfl
    dsimp only
    rw [if_neg (by omega)]
    rcases hbytes with herror | ⟨bs, hok⟩
    · rw [herror]
      exact not_short_engine
    · rw [hok]
      refine ⟨le_rfl, fun k hk l' hl' => ?_⟩
      have := hk l rfl
      cases hl'
      push_cast at this
      omega

/-- A read whose bytes are shown as a value. -/
theorem read_spends (what : String) (hroom : Room len count) (f : List UInt8 → α) :
    Spends env len count (p + count) (do
      let (bs, c) ← liftBytes what count m ⟨p, len⟩
      return (f bs, c)) :=
  (liftBytes_spends what hroom).bind (fun _ _ _ hptr => .of_ok hptr rfl) (add_zero _).le

theorem liftU8_spends (hroom : Room len 1) : Spends env len 1 (p + 1) (liftU8 m ⟨p, len⟩) :=
  read_spends _ hroom value

theorem liftU16_spends (hp : p % 2 = 0) (hroom : Room len 2) :
    Spends env len 2 (p + 2) (liftU16 m ⟨p, len⟩) := by
  refine (liftBytes_spends _ hroom).bind (fun bs c _ hptr => .of_ok ?_ rfl) (add_zero _).le
  exact alignTo_le (.inr (.inl rfl)) hptr (by omega)

theorem liftU32_spends (hroom : Room len 4) : Spends env len 4 (p + 4) (liftU32 m ⟨p, len⟩) :=
  read_spends _ hroom value

/-- A number that is shown as a value. -/
theorem num_spends {x : Except JsError (Nat × Cursor)} (hx : Spends env len count q x)
    (f : Nat → Val) : Spends env len count q (do
      let (n, c) ← x
      return (f n, c)) :=
  hx.bind (fun _ _ _ hptr => .of_ok hptr rfl) (add_zero _).le

theorem liftSigned_spends (ty : IntTy) (what : String) (hroom : Room len ty.bytes) :
    Spends env len ty.bytes (p + ty.bytes) (liftSigned ty what m ⟨p, len⟩) :=
  read_spends what hroom fun bs => Val.ofInt ty (ty.ofWord (value bs))

theorem liftFlatInt_spends (ty : IntTy) (hp : p % ty.bytes = 0) (hroom : Room len ty.bytes) :
    Spends env len ty.bytes (p + ty.bytes) (liftFlatInt ty m ⟨p, len⟩) := by
  cases ty with
  | s8 | s16 | s32 | s64 | u64 => exact liftSigned_spends _ _ hroom
  | u8 => exact num_spends (liftU8_spends hroom) fun n => Val.num n
  | u16 => exact num_spends (liftU16_spends hp hroom) fun n => Val.num n
  | u32 => exact num_spends (liftU32_spends hroom) fun n => Val.num n

theorem liftFlatFloat_spends (ty : FloatTy) (hroom : Room len ty.bytes) :
    Spends env len ty.bytes (p + ty.bytes) (liftFlatFloat ty m ⟨p, len⟩) := by
  have hread : ∀ what, Spends env len ty.bytes (p + ty.bytes) (liftFloat ty what m ⟨p, len⟩) :=
    fun what => read_spends what hroom fun bs => Val.float ty (ty.canon (value bs))
  cases ty <;> exact hread _

/-- What follows a read may throw, but not for a shortage. -/
theorem after_spends {x : Except JsError (α × Cursor)} (hx : Spends env len count q x)
    {f : α → Except JsError β} (hf : ∀ a e, f a = .error e → ¬ Short env e) :
    Spends env len count q (do
      let (a, c) ← x
      let b ← f a
      return (b, c)) := by
  refine hx.bind (fun a c _ hptr => ?_) (add_zero _).le
  change Spends env c.storageLen 0 q (f a >>= fun b => .ok (b, c))
  cases hres : f a with
  | error e => exact hf a e hres
  | ok b => exact .of_ok hptr rfl

theorem i32ToChar_not_short {n : Nat} (h : i32ToChar n = .error e) :
    ¬ Short env e := by
  unfold i32ToChar at h
  split at h
  · cases h
    exact not_short_text (by decide)
  split at h
  · cases h
    exact not_short_text (by decide)
  split at h
  · cases h
    exact not_short_text (by decide)
  · cases h

theorem liftFlatChar_spends (hroom : Room len 4) :
    Spends env len 4 (p + 4) (liftFlatChar m ⟨p, len⟩) :=
  after_spends (f := fun bs => i32ToChar (value bs)) (liftBytes_spends _ hroom)
    fun _ _ h => i32ToChar_not_short h

theorem getBytes_error (h : getBytes m p count = .error e) : e = .engine := by
  unfold getBytes at h
  split at h
  · exact (Except.error.inj h).symm
  · cases h

theorem getUint32_error (h : getUint32 m p = .error e) : e = .engine := by
  unfold getUint32 at h
  cases hbytes : getBytes m p 4 with
  | error e' =>
    rw [hbytes] at h
    rw [← Except.error.inj h]
    exact getBytes_error hbytes
  | ok bs =>
    rw [hbytes] at h
    cases h

/-- A string is read without a look at the budget, which it leaves alone. -/
theorem liftFlatStringUtf8_spends (hp : p % 4 = 0) :
    Spends env len 8 (p + 8) (liftFlatStringUtf8 m ⟨p, len⟩) := by
  unfold liftFlatStringUtf8
  dsimp only
  rw [alignTo_of_mod hp]
  cases hstart : getUint32 m p with
  | error e => exact getUint32_error hstart ▸ not_short_engine
  | ok start =>
    rw [ok_bind]
    cases hunits : getUint32 m (p + 4) with
    | error e => exact getUint32_error hunits ▸ not_short_engine
    | ok codeUnits =>
      rw [ok_bind]
      cases hbytes : getBytes m start codeUnits with
      | error e => exact getBytes_error hbytes ▸ not_short_engine
      | ok bs => exact .of_ok le_rfl rfl

theorem liftFlatStringAny_spends (hp : p % 4 = 0) :
    Spends env len 8 (p + 8) (liftFlatStringAny env m ⟨p, len⟩) := by
  unfold liftFlatStringAny
  split
  · exact liftFlatStringUtf8_spends hp
  · exact not_short_engine
  · exact not_short_text (by simp [String.toList_append, toString])

theorem liftFlatHandle_spends (ty : HandleTy) (hroom : Room len 4) :
    Spends env len 4 (p + 4) (liftFlatHandle env ty m ⟨p, len⟩) := by
  have hown : ∀ ty : HandleTy, Spends env len 4 (p + 4) (liftFlatOwn env ty m ⟨p, len⟩) :=
    fun ty => after_spends (f := env.liftHandle ty) (liftU32_spends hroom)
      fun _ _ he => not_short_handle he
  -- What the tables throw and the messages of the unsupported ones are no shortage.
  cases ty with
  | own idx => exact hown _
  | future idx => exact hown _
  | borrow idx => exact not_short_text (by decide)
  | errorContext idx => exact not_short_text (by decide)
  | stream idx =>
    refine (liftU32_spends hroom).bind (fun h c _ hptr => ?_) (add_zero _).le
    change Spends env _ 0 _ (if h = 0 then _ else _)
    split
    · exact not_short_text (by decide)
    · cases hlift : env.liftHandle (.stream idx) h with
      | error e => exact not_short_handle hlift
      | ok v => exact .of_ok hptr rfl

variable {names : List String}

/-- The word of flags is no larger than the flags. -/
theorem intSizeBytes_le (hnames : names ≠ []) :
    intSizeBytes names.length ≤ (flags names).size ∧
      intSizeBytes names.length ≤ (flags names).align := by
  have hcount := length_pos_iff.2 hnames
  unfold intSizeBytes Ty.size Ty.align Ty.layout Layout.flags
  rw [if_neg hcount.ne']
  split_ifs
  · exact ⟨le_rfl, le_rfl⟩
  · exact ⟨le_rfl, le_rfl⟩
  · exact ⟨by dsimp only; omega, le_rfl⟩

theorem liftFlatFlags_spends (hnames : names ≠ [])
    (hp : p % (flags names).align = 0) (hroom : Room len (flags names).size) :
    Spends env len (flags names).size (p + (flags names).size)
      (liftFlatFlags names (flags names).align m ⟨p, len⟩) := by
  obtain ⟨hsize, halign⟩ := intSizeBytes_le hnames
  have hend : (p + (flags names).size) % (flags names).align = 0 := by
    rw [add_mod, hp, (flags names).layout.size_mod, zero_add, zero_mod]
  have hword : ∀ {k : Nat} {x : Except JsError (Nat × Cursor)}, k = intSizeBytes names.length →
      Spends env len k (p + k) x → Spends env len (flags names).size (p + (flags names).size)
        (x >>= fun nc => .ok (Val.objectOf (liftNames names nc.1),
          { nc.2 with storagePtr := alignTo nc.2.storagePtr (flags names).align })) := by
    rintro k x rfl hx
    refine hx.bind (b := 0) (fun bits c _ hptr => .of_ok ?_ rfl) hsize
    exact alignTo_le (flags names).layout.isAlign (hptr.trans (by omega)) hend
  unfold liftFlatFlags
  by_cases hone : intSizeBytes names.length = 1
  · rw [if_pos hone]
    exact hword hone.symm (liftU8_spends (hroom.mono (by omega)))
  rw [if_neg hone]
  by_cases htwo : intSizeBytes names.length = 2
  · rw [if_pos htwo]
    refine hword htwo.symm (liftU16_spends ?_ (hroom.mono (by omega)))
    exact mod_of_le (.inr (.inl rfl)) (flags names).layout.isAlign (htwo ▸ halign) hp
  · have hfour : intSizeBytes names.length = 4 := by
      unfold intSizeBytes at hone htwo ⊢
      split_ifs at hone htwo ⊢ <;> omega
    rw [if_neg htwo]
    exact hword hfour.symm (liftU32_spends (hroom.mono (by omega)))

/-! ## Fields -/

theorem liftFields_covers {n : Nat} {fs : Fin n → FieldLift} {gs : Fin n → Lifter}
    {ls : Fin n → Layout} {Ps : Fin n → Nat → Prop}
    (hmeta : ∀ i, (fs i).size32 = (ls i).size ∧ (fs i).align32 = (ls i).align)
    (hp : ∀ i, p % (ls i).align = 0)
    (hlift : ∀ i off, (p + off) % (ls i).align = 0 → Ps i off →
      Covers env (fs i).liftFn (gs i) m (p + off) (ls i).size)
    {s : Nat} (heach : Each (List.ofFn fun i => (ls i, Ps i)) s) {len : Option Int}
    (hroom : Room len (extent (List.ofFn ls) s - s)) :
    liftFields (List.ofFn fun i =>
        ⟨(fs i).key, watched e (ls i).size (gs i), (fs i).size32, (fs i).align32⟩) m
        ⟨p + s, len⟩ = liftFields (List.ofFn fs) m ⟨p + s, len⟩ ∧
      Spends env len (extent (List.ofFn ls) s - s) (p + extent (List.ofFn ls) s)
        (liftFields (List.ofFn fs) m ⟨p + s, len⟩) := by
  induction n generalizing s len with
  | zero => exact ⟨rfl, .of_ok le_rfl rfl⟩
  | succ n ih =>
    rw [ofFn_succ] at heach hroom
    obtain ⟨hhead, htail⟩ := heach
    rw [extent] at hroom
    have hpad := le_alignTo s (ls 0).align
    have hrest := le_extent (List.ofFn fun i => ls i.succ)
      (alignTo s (ls 0).align + (ls 0).size)
    -- The first field starts aligned, and behind it the pointer is at its end.
    have hptr : alignTo (p + s) (fs 0).align32 = p + alignTo s (ls 0).align := by
      rw [(hmeta 0).2, alignTo_add (hp 0)]
    have hal : (p + alignTo s (ls 0).align) % (ls 0).align = 0 := by
      rw [add_mod, hp 0, alignTo_mod (ls 0).isAlign, zero_add, zero_mod]
    have hfirst := hlift 0 _ hal hhead
    have hroomFirst : Room len (ls 0).size := hroom.mono (by omega)
    have hspend := (hfirst len hroomFirst).2
    have hroomRest : Room (len.map (· - ((ls 0).size : Int)))
        (extent (List.ofFn fun i => ls i.succ) (alignTo s (ls 0).align + (ls 0).size) -
          (alignTo s (ls 0).align + (ls 0).size)) := by
      intro l hl
      obtain ⟨l', hl', rfl⟩ := Option.mem_map.1 hl
      have := hroom l' hl'
      omega
    -- The rest has the budget less the size of the field, whatever the field has spent.
    obtain ⟨hsame, hspends⟩ := ih (fun i => hmeta i.succ) (fun i => hp i.succ)
      (fun i => hlift i.succ) htail hroomRest
    rw [ofFn_succ, ofFn_succ, ofFn_succ, liftFields, liftFields, extent]
    dsimp only
    rw [hptr, hfirst.watched hroomFirst le_rfl]
    cases hres : (fs 0).liftFn m ⟨p + alignTo s (ls 0).align, len⟩ with
    | error err =>
      rw [hres] at hspend
      exact ⟨rfl, hspend⟩
    | ok vc =>
      rw [hres] at hspend
      have hnext : max vc.2.storagePtr (p + alignTo s (ls 0).align + (ls 0).size) =
          p + (alignTo s (ls 0).align + (ls 0).size) := by
        have := hspend.1
        omega
      rw [ok_bind, ok_bind, (hmeta 0).1, hnext, hsame]
      refine ⟨rfl, ?_⟩
      cases hres' : liftFields (List.ofFn fun i => fs i.succ) m
          ⟨p + (alignTo s (ls 0).align + (ls 0).size), len.map (· - ((ls 0).size : Int))⟩ with
      | error err => rwa [hres'] at hspends
      | ok wd =>
        rw [hres'] at hspends
        refine ⟨hspends.1, fun k hk => hspends.2 k fun l hl => ?_⟩
        obtain ⟨l', hl', rfl⟩ := Option.mem_map.1 hl
        have := hk l' hl'
        push_cast at this ⊢
        omega

/-- The fields of a record or of a tuple, with what is made of them. -/
theorem liftFlatFields_covers {n : Nat} (fs : Fin n → FieldLift)
    {gs : Fin n → Lifter} {ls : Fin n → Layout} {Ps : Fin n → Nat → Prop}
    (hmeta : ∀ i, (fs i).size32 = (ls i).size ∧ (fs i).align32 = (ls i).align)
    (hp : p % (record (List.ofFn ls)).align = 0)
    (hlift : ∀ i off, (p + off) % (ls i).align = 0 → Ps i off →
      Covers env (fs i).liftFn (gs i) m (p + off) (ls i).size)
    (heach : Each (List.ofFn fun i => (ls i, Ps i)) 0) (show_ : List (String × Val) → Val) :
    Covers env
      (fun m c => do
        let (vs, c') ← liftFields (List.ofFn fs) m c
        return (show_ vs, endOfFields c.storagePtr (record (List.ofFn ls)).size
          (record (List.ofFn ls)).align c'))
      (fun m c => do
        let (vs, c') ← liftFields
          (List.ofFn fun i =>
        ⟨(fs i).key, watched e (ls i).size (gs i), (fs i).size32, (fs i).align32⟩) m c
        return (show_ vs, endOfFields c.storagePtr (record (List.ofFn ls)).size
          (record (List.ofFn ls)).align c')) m p (record (List.ofFn ls)).size := by
  intro len hroom
  obtain ⟨hals, hext, -⟩ := record_facts ls hp
  obtain ⟨hsame, hspends⟩ := liftFields_covers (e := e) hmeta hals hlift heach (hroom.mono hext)
  rw [add_zero] at hsame hspends
  rw [Nat.sub_zero] at hspends
  dsimp only
  rw [hsame]
  refine ⟨rfl, hspends.bind (b := 0) (fun vs c _ hptr => .of_ok ?_ rfl) hext⟩
  have hend : (p + (record (List.ofFn ls)).size) %
      (record (List.ofFn ls)).align = 0 := by
    rw [add_mod, hp, (Layout.record _).size_mod, zero_add, zero_mod]
  exact alignTo_le (Layout.record _).isAlign (max_le (hptr.trans (by omega)) le_rfl) hend

/-! ## Cases -/

theorem liftDiscriminant_spends {n idx : Nat} (hwidth : n ≠ 256 ∧ n ≠ 65536) (hidx : idx < n)
    (hp : p % discriminantSize n = 0)
    (h : HasBytes m p (bytes (discriminantSize n) idx))
    (hroom : Room len (discriminantSize n)) :
    (∃ e, liftDiscriminant n m ⟨p, len⟩ = .error e ∧ ¬ Short env e) ∨
    ∃ ptr len', liftDiscriminant n m ⟨p, len⟩ = .ok (idx, ⟨ptr, len'⟩) ∧
      ∀ k, Room len (discriminantSize n + k) → Room len' k := by
  -- More cases than a word counts are refused, which is no shortage.
  rcases lt_or_ge n (2 ^ 32) with hlt | hge
  · exact .inr (liftDiscriminant_ok ⟨hwidth.1, hwidth.2, hlt⟩ hidx hp h hroom)
  · refine .inl ⟨.error s!"unsupported number of variant cases [{n}]", ?_, ?_⟩
    · unfold liftDiscriminant
      rw [if_neg (by omega), if_neg (by omega), if_neg (by omega)]
    · exact not_short_text (by simp [String.toList_append, toString])

section

variable {idx : Nat} {variant : VariantLift} {metas : List (String × Option Lifter)}
  {l : VariantLayout} {tag : String}

/-- A case without a payload. -/
theorem liftFlatVariant_covers_bare (hlength : metas.length = variant.caseMetas.length)
    (hwidth : variant.caseMetas.length ≠ 256 ∧ variant.caseMetas.length ≠ 65536)
    (hcase : variant.caseMetas[idx]? = some (tag, none)) (hwatch : metas[idx]? = some (tag, none))
    (hsize : variant.variantSize32 = l.size) (halign : variant.variantAlign32 = l.align)
    (hdisc : l.discriminant = discriminantSize variant.caseMetas.length)
    (hdiscAl : l.discriminant ≤ l.align) (hp : p % l.align = 0)
    (h : HasBytes m p (bytes l.discriminant idx)) :
    Covers env (liftFlatVariant variant)
      (liftFlatVariant ⟨metas, variant.variantSize32, variant.variantAlign32,
        variant.variantPayloadOffset32⟩) m p l.size := by
  intro len hroom
  have hle := l.discriminant_le.trans l.payloadOffset_le
  have hidx := (List.getElem?_eq_some_iff.1 hcase).1
  rw [hdisc] at h hle hdiscAl
  have hp' := mod_of_le (isAlign_discriminantSize _) l.isAlign hdiscAl hp
  unfold liftFlatVariant
  dsimp only
  rw [hlength]
  rcases liftDiscriminant_spends hwidth hidx hp' h (hroom.mono hle) with
    ⟨e, herror, hquiet⟩ | ⟨ptr, len', hok, hk⟩
  · rw [herror]
    exact ⟨rfl, hquiet⟩
  · rw [hok, ok_bind, ok_bind]
    rw [hcase, hwatch]
    refine ⟨rfl, ?_, fun k hroomk => hk k (hroomk.mono (by omega))⟩
    have hend : (p + l.size) % l.align = 0 := by
      rw [add_mod, hp, l.size_mod, zero_add, zero_mod]
    rw [hsize, halign, alignTo_of_mod hend]

/-- A case with a payload. -/
theorem liftFlatVariant_covers_payload {f g : Lifter} {e : JsError} {size : Nat}
    (hlength : metas.length = variant.caseMetas.length)
    (hwidth : variant.caseMetas.length ≠ 256 ∧ variant.caseMetas.length ≠ 65536)
    (hcase : variant.caseMetas[idx]? = some (tag, some f))
    (hwatch : metas[idx]? = some (tag, some (watched e size g)))
    (halign : variant.variantAlign32 = l.align)
    (hoff : variant.variantPayloadOffset32 = l.payloadOffset)
    (hdisc : l.discriminant = discriminantSize variant.caseMetas.length)
    (hdiscAl : l.discriminant ≤ l.align) (hp : p % l.align = 0)
    (h : HasBytes m p (bytes l.discriminant idx))
    (hfits : l.payloadOffset + size ≤ l.size)
    (hlift : Covers env f g m (p + l.payloadOffset) size) :
    Covers env (liftFlatVariant variant)
      (liftFlatVariant ⟨metas, variant.variantSize32, variant.variantAlign32,
        variant.variantPayloadOffset32⟩) m p l.size := by
  intro len hroom
  have hle := l.discriminant_le
  have hidx := (List.getElem?_eq_some_iff.1 hcase).1
  rw [hdisc] at h hle hdiscAl
  have hp' := mod_of_le (isAlign_discriminantSize _) l.isAlign hdiscAl hp
  unfold liftFlatVariant
  dsimp only
  rw [hlength]
  rcases liftDiscriminant_spends hwidth hidx hp' h (hroom.mono (by omega)) with
    ⟨e, herror, hquiet⟩ | ⟨ptr, len', hok, hk⟩
  · rw [herror]
    exact ⟨rfl, hquiet⟩
  · rw [hok, ok_bind, ok_bind]
    rw [hcase, hwatch, hoff]
    dsimp only
    -- The payload lies behind the discriminant, and both are within the size.
    have hroomPayload := hk _ (hroom.mono (by omega) : Room len (discriminantSize _ + size))
    rw [hlift.watched hroomPayload le_rfl]
    refine ⟨rfl, ?_⟩
    have hspends := (hlift len' hroomPayload).2
    have hend : (p + l.size) % l.align = 0 := by
      rw [add_mod, hp, l.size_mod, zero_add, zero_mod]
    cases hres : f m ⟨p + l.payloadOffset, len'⟩ with
    | error err => rwa [hres] at hspends
    | ok vc =>
      rw [hres] at hspends
      refine ⟨?_, fun k hroomk => hspends.2 k (hk _ (hroomk.mono (by omega)))⟩
      rw [halign]
      exact alignTo_le l.isAlign (hspends.1.trans (by omega)) hend

theorem liftFlatCases_covers {kind : CaseKind} {watching : VariantLift}
    (h : Covers env (liftFlatVariant variant) (liftFlatVariant watching) m p size) :
    Covers env (liftFlatCases kind variant) (liftFlatCases kind watching) m p size := by
  cases kind with
  | variant | option | result => exact h
  | enum =>
    intro len hroom
    obtain ⟨hsame, hspends⟩ := h len hroom
    simp only [liftFlatCases, liftFlatEnum]
    rw [hsame]
    exact ⟨rfl, hspends.bind (fun _ _ _ hptr => .of_ok hptr rfl) (add_zero _).le⟩

end

/-! ## Lists and maps -/

theorem room_self (count : Nat) : Room (some (count : Int)) count := by
  intro l hl
  cases hl
  exact le_rfl

/-- From element `i` on: what is left of the budget is passed on. -/
theorem readValues_covers {f g : Lifter} {i ptr : Nat}
    (hlift : ∀ j < count, Covers env f g m (q + (i + j) * size) size)
    (hptr : ptr ≤ q + i * size) {len : Option Int} (hroom : Room len (count * size)) :
    readValues (watched e size g) size m q count i ⟨ptr, len⟩ =
        readValues f size m q count i ⟨ptr, len⟩ ∧
      Spends env len (count * size) (q + (i + count) * size)
        (readValues f size m q count i ⟨ptr, len⟩) := by
  induction count generalizing i ptr len with
  | zero => exact ⟨rfl, .of_ok hptr rfl⟩
  | succ count ih =>
    have hfirst := hlift 0 (succ_pos _)
    rw [add_zero] at hfirst
    rw [succ_mul] at hroom ⊢
    have hroomFirst : Room len size := hroom.mono (by omega)
    have hspend := (hfirst len hroomFirst).2
    have htail : ∀ j < count, Covers env f g m (q + (i + 1 + j) * size) size := by
      intro j hj
      rw [show i + 1 + j = i + (j + 1) by omega]
      exact hlift (j + 1) (succ_lt_succ hj)
    rw [readValues, readValues]
    -- An element leaves the budgets of those behind it.
    rw [hfirst.watched hroomFirst le_rfl]
    cases hres : f m ⟨q + i * size, len⟩ with
    | error err =>
      rw [hres] at hspend
      exact ⟨rfl, hspend⟩
    | ok vc =>
      obtain ⟨v, c⟩ := vc
      rw [hres] at hspend
      have hnext : max c.storagePtr (q + i * size + size) ≤ q + (i + 1) * size := by
        have := hspend.1
        rw [add_mul, one_mul]
        omega
      have hroomRest : Room c.storageLen (count * size) :=
        hspend.2 _ (hroom.mono (add_comm _ _).le)
      obtain ⟨hsame, hspends⟩ := ih htail hnext hroomRest
      rw [ok_bind, ok_bind]
      dsimp only
      rw [hsame]
      refine ⟨rfl, ?_⟩
      rw [show i + (count + 1) = i + 1 + count by omega]
      have hboth := hspends.bind (b := 0) (f := fun r => .ok (v :: r.1, r.2))
        (fun _ _ _ hend => .of_ok hend rfl) (add_zero _).le
      cases hrest : readValues f size m q count (i + 1)
          ⟨max c.storagePtr (q + i * size + size), c.storageLen⟩ with
      | error err => rwa [hrest] at hboth
      | ok wd =>
        rw [hrest] at hboth
        refine ⟨hboth.1, fun k hk => hboth.2 k (hspend.2 _ ?_)⟩
        exact hk.mono (by omega)

/-- A list of a length that the type gives, which lies where the list does. -/
theorem liftFlatList_known_covers {list : ListLift} {g : Lifter}
    (hknown : list.knownLen = some count)
    (hlift : ∀ j < count, Covers env list.elemLiftFn g m (p + j * list.elemSize32) list.elemSize32) :
    Covers env (liftFlatList list)
      (liftFlatList { list with elemLiftFn := watched e list.elemSize32 g }) m p
      (count * list.elemSize32) := by
  intro len _
  obtain ⟨hsame, hspends⟩ := readValues_covers (e := e) (i := 0) (by simpa using hlift)
    (le_add_right p _) (room_self (count * list.elemSize32))
  rw [zero_add] at hspends
  unfold liftFlatList
  rw [hknown]
  dsimp only
  rw [hsame]
  refine ⟨rfl, ?_⟩
  cases hres : readValues list.elemLiftFn list.elemSize32 m p count 0
      ⟨p, some (count * list.elemSize32 : Nat)⟩ with
  | error err => rwa [hres] at hspends
  | ok vc =>
    rw [hres] at hspends
    exact .of_ok hspends.1 rfl

/-- A list elsewhere, for which the budget is that of its elements. -/
theorem liftFlatList_unknown_covers {list : ListLift} {g : Lifter}
    (hknown : list.knownLen = none) (hq : HasWord m p q) (hn : HasWord m (p + 4) count)
    (hlift : ∀ j < count, Covers env list.elemLiftFn g m (q + j * list.elemSize32) list.elemSize32) :
    Covers env (liftFlatList list)
      (liftFlatList { list with elemLiftFn := watched e list.elemSize32 g }) m p 8 := by
  intro len _
  obtain ⟨len₁, len₂, h₁, h₂⟩ := liftPair_ok hq hn
  obtain ⟨hsame, hspends⟩ := readValues_covers (e := e) (i := 0) (by simpa using hlift)
    (le_add_right q _) (room_self (count * list.elemSize32))
  unfold liftFlatList
  rw [hknown]
  dsimp only
  rw [h₁, ok_bind, ok_bind]
  rw [h₂, ok_bind, ok_bind]
  rw [hsame]
  refine ⟨rfl, ?_⟩
  cases hres : readValues list.elemLiftFn list.elemSize32 m q count 0
      ⟨q, some (count * list.elemSize32 : Nat)⟩ with
  | error err => rwa [hres] at hspends
  | ok vc => exact .of_ok le_rfl rfl

theorem readEntries_covers {map : MapLift} {kg vg : Lifter} {ksize vsize i : Nat}
    (hfits : ksize + vsize ≤ map.entrySize32)
    (hlift : ∀ j < count,
      Covers env map.keyLiftFn kg m (q + (i + j) * map.entrySize32) ksize ∧
      Covers env map.valueLiftFn vg m (q + (i + j) * map.entrySize32 + map.valueOffset32) vsize)
    {len : Option Int} (hroom : Room len (count * map.entrySize32)) :
    readEntries { map with
        keyLiftFn := watched e map.entrySize32 kg, valueLiftFn := watched e vsize vg } m q count i
        len = readEntries map m q count i len ∧
      ∀ err, readEntries map m q count i len = .error err → ¬ Short env err := by
  induction count generalizing i len with
  | zero => exact ⟨rfl, fun _ h => nomatch h⟩
  | succ count ih =>
    obtain ⟨hkey, hvalue⟩ := hlift 0 (succ_pos _)
    rw [add_zero] at hkey hvalue
    rw [succ_mul] at hroom
    have hroomKey : Room len map.entrySize32 := hroom.mono (by omega)
    have hspendKey := (hkey len (hroomKey.mono (by omega))).2
    have htail : ∀ j < count,
        Covers env map.keyLiftFn kg m (q + (i + 1 + j) * map.entrySize32) ksize ∧
        Covers env map.valueLiftFn vg m (q + (i + 1 + j) * map.entrySize32 + map.valueOffset32)
          vsize := by
      intro j hj
      rw [show i + 1 + j = i + (j + 1) by omega]
      exact hlift (j + 1) (succ_lt_succ hj)
    rw [readEntries, readEntries]
    dsimp only
    rw [hkey.watched hroomKey (by omega)]
    cases hresKey : map.keyLiftFn m ⟨q + i * map.entrySize32, len⟩ with
    | error err =>
      rw [hresKey] at hspendKey
      exact ⟨rfl, fun _ h => Except.error.inj h ▸ hspendKey⟩
    | ok kc =>
      obtain ⟨k, c⟩ := kc
      rw [hresKey] at hspendKey
      -- Key and value fit the entry, so the padding of the entry stays in the budget.
      have hroomBoth : Room c.storageLen (vsize + count * map.entrySize32) :=
        hspendKey.2 _ (hroom.mono (by omega))
      have hroomValue : Room c.storageLen vsize := hroomBoth.mono (by omega)
      have hspendValue := (hvalue c.storageLen hroomValue).2
      rw [ok_bind, ok_bind]
      rw [hvalue.watched hroomValue le_rfl]
      cases hresValue : map.valueLiftFn m
          ⟨q + i * map.entrySize32 + map.valueOffset32, c.storageLen⟩ with
      | error err =>
        rw [hresValue] at hspendValue
        exact ⟨rfl, fun _ h => Except.error.inj h ▸ hspendValue⟩
      | ok vc =>
        obtain ⟨v, c'⟩ := vc
        rw [hresValue] at hspendValue
        obtain ⟨hsame, hquiet⟩ := ih htail (hspendValue.2 _ hroomBoth)
        rw [ok_bind, ok_bind]
        rw [hsame]
        refine ⟨rfl, fun err herr => ?_⟩
        cases hrest : readEntries map m q count (i + 1) c'.storageLen with
        | error err' =>
          rw [hrest] at herr
          exact Except.error.inj herr ▸ hquiet err' hrest
        | ok es =>
          rw [hrest] at herr
          cases herr

theorem liftFlatMap_covers {map : MapLift} {kg vg : Lifter} {ksize vsize : Nat}
    (hfits : ksize + vsize ≤ map.entrySize32) (hq : HasWord m p q)
    (hn : HasWord m (p + 4) count)
    (hlift : ∀ j < count,
      Covers env map.keyLiftFn kg m (q + j * map.entrySize32) ksize ∧
      Covers env map.valueLiftFn vg m (q + j * map.entrySize32 + map.valueOffset32) vsize) :
    Covers env (liftFlatMap map)
      (liftFlatMap { map with
        keyLiftFn := watched e map.entrySize32 kg, valueLiftFn := watched e vsize vg }) m p 8 := by
  intro len _
  obtain ⟨len₁, len₂, h₁, h₂⟩ := liftPair_ok hq hn
  obtain ⟨hsame, hquiet⟩ := readEntries_covers (e := e) (q := q) (i := 0) hfits
    (by simpa using hlift) (room_self (count * map.entrySize32))
  unfold liftFlatMap
  dsimp only
  rw [h₁, ok_bind, ok_bind]
  rw [h₂, ok_bind, ok_bind]
  rw [hsame]
  refine ⟨rfl, ?_⟩
  cases hres : readEntries map m q count 0 (some (count * map.entrySize32 : Nat)) with
  | error err => exact hquiet err hres
  | ok es => exact .of_ok le_rfl rfl

/-! ## Types -/

/-- The case of a value is one of the cases, with a payload where that has one. -/
theorem CaseHolds.cases {n k : Nat} {payload : Fin n → Option (Fin k)} {P : Fin k → Value → Prop}
    {idx : Nat} {y : Option Value}
    (h : CaseHolds (List.ofFn fun i => (payload i).map P) idx y) :
    ∃ i : Fin n, idx = i ∧ (payload i = none ∧ y = none ∨
      ∃ j y', payload i = some j ∧ y = some y' ∧ P j y') := by
  unfold CaseHolds at h
  rw [List.getElem?_ofFn] at h
  by_cases hidx : idx < n
  · refine ⟨⟨idx, hidx⟩, rfl, ?_⟩
    rw [dif_pos hidx] at h
    cases hpayload : payload ⟨idx, hidx⟩ with
    | none =>
      rw [hpayload] at h
      cases y with
      | none => exact .inl ⟨rfl, rfl⟩
      | some y => exact h.elim
    | some j =>
      rw [hpayload] at h
      cases y with
      | none => exact h.elim
      | some y => exact .inr ⟨j, y, rfl, rfl, h⟩
  · rw [dif_neg hidx] at h
    exact h.elim

/-- Where the image of a value lies, with none of the widths that do not fit. -/
theorem genLift_covers (e : JsError) (ty : Ty) {x : Value} {p : Nat}
    (himg : Image env.stringEncoding ty x m p) (hfit : WidthsFit ty x) (hp : p % ty.align = 0) :
    Covers env (genLift env ty) (watchedLift env e ty) m p ty.size := by
  induction ty generalizing x p with
  | bool =>
    exact fun len hroom =>
      ⟨rfl, read_spends _ hroom fun bs => Val.bool (value bs = 1)⟩
  | int ty =>
    rw [(size_int ty).1]
    exact fun len hroom => ⟨rfl, liftFlatInt_spends ty ((size_int ty).2 ▸ hp) hroom⟩
  | float ty =>
    rw [(size_float ty).1]
    exact fun len hroom => ⟨rfl, liftFlatFloat_spends ty hroom⟩
  | char => exact fun len hroom => ⟨rfl, liftFlatChar_spends hroom⟩
  | string => exact fun len _ => ⟨rfl, liftFlatStringAny_spends hp⟩
  | record names tys ih =>
    obtain ⟨xs, rfl, heach⟩ := himg
    exact liftFlatFields_covers (fun i => ⟨names i, genLift env (tys i), _, _⟩)
      (fun i => ⟨rfl, rfl⟩) hp (fun i off hal hP => ih i hP (hfit xs rfl i) hal) heach
      Val.objectOf
  | tuple tys ih =>
    obtain ⟨xs, rfl, heach⟩ := himg
    exact liftFlatFields_covers (fun i => ⟨"", genLift env (tys i), _, _⟩)
      (fun i => ⟨rfl, rfl⟩) hp (fun i off hal hP => ih i hP (hfit xs rfl i) hal) heach
      fun vs => .arr none (vs.map (·.2))
  | tagged kind names payload tys ih =>
    obtain ⟨idx, y, rfl, hdisc, hcase⟩ := himg
    -- The width of the discriminant is the canonical one.
    obtain ⟨hwidth, hpayloadFit⟩ := hfit
    have hcount := caseLayout_discriminant payload tys
    have hdiscAl := discriminant_le_align
      (List.ofFn fun i => (payload i).map fun j => (tys j).layout)
    rw [genLift, watchedLift]
    refine liftFlatCases_covers ?_
    obtain ⟨i, rfl, hbody⟩ := hcase.cases
    have hlookup : ∀ F : Fin _ → Lifter, (List.ofFn fun i => (names i, (payload i).map F))[i.val]? =
        some (names i, (payload i).map F) := by
      intro F
      rw [List.getElem?_ofFn, dif_pos i.isLt]
    have hlift := hlookup fun j => genLift env (tys j)
    have hwatch := hlookup fun j => watched e (tys j).size (watchedLift env e (tys j))
    have hlength : ∀ F : Fin _ → Lifter, (List.ofFn fun i => (names i, (payload i).map F)).length =
        _ := fun F => length_ofFn
    rcases hbody with ⟨hpayload, rfl⟩ | ⟨j, y, hpayload, rfl, himage⟩
    · rw [hpayload] at hlift hwatch
      exact liftFlatVariant_covers_bare (l := caseLayout payload tys)
        ((hlength _).trans (hlength _).symm) (by rwa [hlength]) hlift hwatch rfl rfl
        (by rwa [hlength]) hdiscAl hp hdisc
    · have hmem : some (tys j).layout ∈ List.ofFn fun i => (payload i).map fun j => (tys j).layout :=
        mem_ofFn.2 ⟨i, by rw [hpayload]; rfl⟩
      have hcovers := ih j himage (hpayloadFit i j y hpayload rfl) (payload_aligned hmem hp)
      rw [hpayload] at hlift hwatch
      exact liftFlatVariant_covers_payload (l := caseLayout payload tys)
        ((hlength _).trans (hlength _).symm) (by rwa [hlength]) hlift hwatch rfl rfl
        (by rwa [hlength]) hdiscAl hp hdisc (payload_le_size hmem) hcovers
  | flags names => exact fun len hroom => ⟨rfl, liftFlatFlags_spends hfit hp hroom⟩
  | list elem ih =>
    obtain ⟨xs, q, rfl, hq, hn, hal, himgs⟩ := himg
    refine liftFlatList_unknown_covers rfl hq hn fun j hj => ?_
    exact ih (himgs j hj) (hfit xs rfl _ (getElem_mem hj)) (elem_mod elem hal j)
  | fixedList elem len ih =>
    obtain ⟨xs, rfl, rfl, himgs⟩ := himg
    refine liftFlatList_known_covers rfl fun j hj => ?_
    exact ih (himgs j hj) (hfit xs rfl _ (getElem_mem hj)) (elem_mod elem hp j)
  | map key value ihk ihv =>
    obtain ⟨es, q, rfl, hq, hn, hal, himgs⟩ := himg
    have hfits : key.size + value.size ≤ (entryLayout key value).size :=
      (Nat.add_le_add_right (le_alignTo _ _) _).trans (entry_facts key value hal 0).2.2
    refine liftFlatMap_covers hfits hq hn fun j hj => ?_
    obtain ⟨hkeyAl, hvalueAl, -⟩ := entry_facts key value hal j
    obtain ⟨hkey, hvalue⟩ := hfit es rfl _ (getElem_mem hj)
    exact ⟨ihk (himgs j hj).1 hkey hkeyAl, ihv (himgs j hj).2 hvalue hvalueAl⟩
  | handle ty => exact fun len hroom => ⟨rfl, liftFlatHandle_spends ty hroom⟩

theorem budgetCovers_of_widthsFit {ty : Ty} {x : Value} (himg : Image env.stringEncoding ty x m p)
    (hfit : WidthsFit ty x) (hp : p % ty.align = 0) : BudgetCovers env ty m p := by
  have hcovers := fun e => genLift_covers e ty himg hfit hp _ (room_self ty.size)
  refine ⟨fun e => (hcovers e).1, fun e herror => ?_⟩
  have hspends := (hcovers e).2
  rwa [herror] at hspends

/-! ## Widths that do not fit -/

/-- The environment with tables that throw nothing of their own. -/
def Env.mute (env : Env) : Env := { env with liftHandle := fun _ _ => .error .engine }

theorem Shortage.short (h : Shortage e) : Short env.mute e := by
  obtain ⟨len, what, rfl⟩ := h
  exact ⟨⟨len, what, rfl⟩, fun _ _ heq => by cases heq⟩

theorem liftBytes_short (what : String) {l : Int} (h : l < count) :
    ∃ e, liftBytes what count m ⟨p, some l⟩ = .error e ∧ Shortage e :=
  ⟨_, if_pos h, l, what, rfl⟩

/-- Lifting with a budget of the size runs out of it. -/
def RunsOut (env : Env) (ty : Ty) (m : Memory) (p : Nat) : Prop :=
  ∃ e, genLift env ty m ⟨p, some ty.size⟩ = .error e ∧ Shortage e

section

variable {n k : Nat} {kind : CaseKind} {names : Fin n → String} {tys : Fin k → Ty}

/-- Cases without payloads are as large as their discriminant. -/
theorem size_bareCases : (tagged kind names (fun _ => none) tys).size = discriminantSize n := by
  have hcases : (List.ofFn fun _ : Fin n => (none : Option Layout)).reduceOption = [] := by
    rw [ofFn_const, reduceOption_replicate_none]
  have hsize : (tagged kind names (fun _ => none) tys).size =
      (ofCases (List.ofFn fun _ : Fin n => (none : Option Layout))).size := rfl
  rw [hsize, ofCases]
  dsimp only
  rw [hcases, length_ofFn]
  unfold discriminantSize
  split_ifs <;> rfl

/-- The read is a byte or two wider than the discriminant. -/
theorem runsOut_bareCases (h : n = 256 ∨ n = 65536) :
    RunsOut env (.tagged kind names (fun _ => none) tys) m p := by
  have hdisc : ∃ e, liftDiscriminant n m ⟨p, some (discriminantSize n : Nat)⟩ = .error e ∧
      Shortage e := by
    rcases h with rfl | rfl
    -- Two bytes are read of one, or four of two.
    · obtain ⟨e, herror, hshort⟩ := liftBytes_short (m := m) (p := p) "u16 requires 2 bytes"
        (show ((discriminantSize 256 : Nat) : Int) < (2 : Nat) by decide)
      refine ⟨e, ?_, hshort⟩
      rw [liftDiscriminant, if_neg (by decide), if_pos (by decide), liftU16, herror]
      rfl
    · obtain ⟨e, herror, hshort⟩ := liftBytes_short (m := m) (p := p) "u32 requires 4 bytes"
        (show ((discriminantSize 65536 : Nat) : Int) < (4 : Nat) by decide)
      refine ⟨e, ?_, hshort⟩
      rw [liftDiscriminant, if_neg (by decide), if_neg (by decide), if_pos (by decide), liftU32,
        herror]
      rfl
  obtain ⟨e, herror, hshort⟩ := hdisc
  refine ⟨e, ?_, hshort⟩
  rw [size_bareCases, genLift]
  cases kind <;>
    simp only [liftFlatCases, liftFlatEnum, liftFlatOption, liftFlatResult, liftFlatVariant,
      length_ofFn, herror] <;> rfl

theorem runsOut_bareCases_iff {x : Value}
    (himg : Image env.stringEncoding (.tagged kind names (fun _ => none) tys) x m p)
    (hp : p % (tagged kind names (fun _ => none) tys).align = 0) :
    RunsOut env (.tagged kind names (fun _ => none) tys) m p ↔ n = 256 ∨ n = 65536 := by
  refine ⟨fun ⟨e, herror, hshort⟩ => ?_, runsOut_bareCases⟩
  by_contra hwidth
  have hfit : WidthsFit (.tagged kind names (fun _ => none) tys) x :=
    ⟨not_or.1 hwidth, fun _ _ _ hpayload => nomatch hpayload⟩
  have hcovers : BudgetCovers env.mute (.tagged kind names (fun _ => none) tys) m p :=
    budgetCovers_of_widthsFit himg hfit hp
  refine hcovers.2 e ?_ hshort.short
  rw [← herror]
  simp only [genLift, Option.map_none]

end

/-- Flags without a name are read from a byte that they do not have. -/
theorem runsOut_flags_iff {x : Value}
    (himg : Image env.stringEncoding (.flags names) x m p)
    (hp : p % (flags names).align = 0) : RunsOut env (.flags names) m p ↔ names = [] := by
  constructor
  · rintro ⟨e, herror, hshort⟩
    by_contra hnames
    have hcovers : BudgetCovers env.mute (.flags names) m p :=
      budgetCovers_of_widthsFit himg hnames hp
    exact hcovers.2 e herror hshort.short
  · rintro rfl
    obtain ⟨e, herror, hshort⟩ := liftBytes_short (m := m) (p := p) "u8 requires 1 byte"
      (show ((flags []).size : Int) < (1 : Nat) by decide)
    refine ⟨e, ?_, hshort⟩
    rw [genLift, liftFlatFlags, length_nil]
    rw [if_pos (by decide), liftU8, herror]
    rfl

/-- Where no value of a type of 256 or 65536 cases, or of no flags, is visited, the budget
covers every part, at any depth. Cases without payloads and flags run out of it exactly
where the width does not fit. -/
theorem storage_budget_exact (env : Env) :
    (∀ ty x m p, Image env.stringEncoding ty x m p → WidthsFit ty x → p % ty.align = 0 →
      BudgetCovers env ty m p) ∧
    (∀ kind {n k : Nat} (names : Fin n → String) (tys : Fin k → Ty) x m p,
      Image env.stringEncoding (.tagged kind names (fun _ => none) tys) x m p →
      p % (Ty.tagged kind names (fun _ => none) tys).align = 0 →
      (RunsOut env (.tagged kind names (fun _ => none) tys) m p ↔ n = 256 ∨ n = 65536)) ∧
    ∀ names x m p, Image env.stringEncoding (.flags names) x m p →
      p % (Ty.flags names).align = 0 → (RunsOut env (.flags names) m p ↔ names = []) :=
  ⟨fun _ _ _ _ himg hfit hp => budgetCovers_of_widthsFit himg hfit hp,
    fun _ _ _ _ _ _ _ _ himg hp => runsOut_bareCases_iff himg hp,
    fun _ _ _ _ himg hp => runsOut_flags_iff himg hp⟩

/-- An environment of UTF-8 strings, for values without handles. -/
def plainEnv : Env where
  stringEncoding := .utf8
  realloc := none
  liftHandle := fun _ _ => .error .engine
  lowerHandle := fun _ _ => .error .engine

theorem storage_budget_exact_padded :
    BudgetCovers plainEnv (.list (.tuple ![.int .u8, .int .u16]))
      [8, 0, 0, 0, 1, 0, 0, 0, 7, 0, 9, 0] 0 ∧
    ¬ RunsOut plainEnv (.enum ![ "a", "b"]) [1] 0 ∧ ¬ RunsOut plainEnv (.flags ["a"]) [1] 0 := by
  refine ⟨(storage_budget_exact plainEnv).1 _ (.list [.record [.int 7, .int 9]]) _ _ ?_ ?_ rfl,
    mt ((storage_budget_exact plainEnv).2.1 .enum _ _ (.variant 1 none) _ _ ?_ rfl).1 (by decide),
    mt ((storage_budget_exact plainEnv).2.2 _ (.flags [true]) _ _ ?_ rfl).1 (by decide)⟩
  · refine ⟨_, 8, rfl, ⟨by decide, by unfold HasBytes; decide⟩,
      ⟨by decide, by unfold HasBytes; decide⟩, rfl, fun i hi => ?_⟩
    obtain rfl : i = 0 := lt_one_iff.1 hi
    exact ⟨![.int 7, .int 9], rfl, ⟨7, rfl, by decide, by unfold HasBytes; decide⟩,
      ⟨9, rfl, by decide, by unfold HasBytes; decide⟩, trivial⟩
  · rintro xs - y - ys - i
    match i with
    | 0 => trivial
    | 1 => trivial
  · exact ⟨1, none, rfl, by unfold HasBytes; decide, trivial⟩
  · exact ⟨[true], rfl, rfl, by unfold HasBytes; decide⟩

/-- The one byte of a value of 256 cases is not enough. -/
theorem enum_runs_out : ¬ ∀ (env : Env) ty x m p, Image env.stringEncoding ty x m p →
    p % ty.align = 0 → BudgetCovers env ty m p := by
  intro h
  let names : Fin 256 → String := fun i => toString i.val
  have himg : Image .utf8 (.enum names) (.variant 0 none) [0] 0 := by
    refine ⟨0, none, rfl, ?_, ?_⟩
    · rw [caseLayout_discriminant, discriminantSize, if_pos le_rfl]
      unfold HasBytes
      decide
    · unfold CaseHolds
      rw [List.getElem?_ofFn, dif_pos (by decide)]
      trivial
  obtain ⟨e, herror, hshort⟩ : RunsOut plainEnv (.enum names) [0] 0 :=
    runsOut_bareCases (.inl rfl)
  have hquiet : Short plainEnv.mute e := hshort.short
  exact (h plainEnv (.enum names) _ _ _ himg (zero_mod _)).2 e herror hquiet

end Jco.Codec
