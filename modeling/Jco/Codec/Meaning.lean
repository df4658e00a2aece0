import Mathlib
import Jco.Codec.Budget

/-! # The value that an image shows

Lifting reads bytes, follows pointers and spends a budget. What it answers is a matter of
the component value alone: `shown` says, type by type, which JavaScript value or which
error that is, and the generated function answers it wherever an image of the value lies.
-/

namespace Jco.Codec

open Jco.Js (JsError)
open Jco.Stream Jco.Lib List Nat Ty Layout LittleEndian VariantLayout

/-! ## What is shown -/

/-- The properties named after flags; a flag that is not there is off. -/
def showFlags : List String → List Bool → List (String × Val)
  | [], _ => []
  | name :: names, [] => (name, .bool false) :: showFlags names []
  | name :: names, b :: bs => (name, .bool b) :: showFlags names bs

/-- An enum shows its tag, the others an object that has the payload if the case does. -/
def showCase (kind : CaseKind) (tag : String) (payload : Option Val) : Val :=
  match kind, payload with
  | .enum, _ => .str tag
  | _, none => .obj [("tag", .str tag)]
  | _, some v => .obj [("tag", .str tag), ("val", v)]

def showText (enc : StringEncoding) (t : Utf8.Text) : Except JsError Val :=
  match enc with
  | .utf8 => .ok (.str (.ofList (Utf8.stripMark t)))
  | .utf16 => .error .engine
  | enc => .error (.error s!"missing/unrecognized/unsupported string encoding [{enc.literal}]")

/-- What the tables of the component have for a handle, where it is looked up at all. -/
def showHandle (env : Env) (ty : HandleTy) (h : Nat) : Except JsError Val :=
  match ty with
  | .borrow _ => .error (.error "flat lift for borrowed resources is not supported!")
  | .errorContext _ =>
    .error (.error "indirect flat lift for error-contexts not yet implemented!")
  | .stream idx =>
    if h = 0 then .error (.error "missing stream idx") else env.liftHandle (.stream idx) h
  | .own idx => env.liftHandle (.own idx) h
  | .future idx => env.liftHandle (.future idx) h

def showField (f : String × Except JsError Val) : Except JsError (String × Val) := do
  let v ← f.2
  return (f.1, v)

/-- The fields by position, with their names. -/
def showFields {n : Nat} (names : Fin n → String) (show_ : Fin n → Value → Except JsError Val)
    (xs : List Value) : Except JsError (List (String × Val)) :=
  (ofFn fun i => (names i, xs[i.val]?.elim (.error .engine) (show_ i))).mapM showField

/-- The JavaScript value or the error that a component value is shown as. Parts are shown
in their order, and the first error is that of the whole. -/
def shown (env : Env) : Ty → Value → Except JsError Val
  | .bool, .bool b => .ok (.bool b)
  | .int ty, .int n => .ok (.ofInt ty n)
  | .float ty, .float bits => .ok (.float ty bits)
  | .char, .char c => i32ToChar c.toNat
  | .string, .string t => showText env.stringEncoding t
  | .record names tys, .record xs => do
      let fs ← showFields names (fun i x => shown env (tys i) x) xs
      return .objectOf fs
  | .tuple tys, .record xs => do
      let fs ← showFields (fun _ => "") (fun i x => shown env (tys i) x) xs
      return .arr none (fs.map (·.2))
  | .tagged (n := n) kind names payload tys, .variant idx y =>
    if h : idx < n then
      if n < 4294967296 then
        Except.map (showCase kind (names ⟨idx, h⟩)) <|
          match payload ⟨idx, h⟩, y with
          | none, none => .ok none
          | some j, some y => (shown env (tys j) y).map some
          | _, _ => .error .engine
      else .error (.error s!"unsupported number of variant cases [{n}]")
    else .error .engine
  | .flags names, .flags bs => .ok (.objectOf (showFlags names (bs.take 32)))
  | .list elem, .list xs => do
      let vs ← xs.mapM fun x => shown env elem x
      return .arr (typedArrayCtor elem) vs
  | .fixedList elem _, .list xs => do
      let vs ← xs.mapM fun x => shown env elem x
      return .arr none vs
  | .map key value, .map es => do
      let es ← es.mapM fun e => do
        let k ← shown env key e.1
        let v ← shown env value e.2
        return (k, v)
      return .mapOf es
  | .handle ty, .handle h => showHandle env ty h
  | _, _ => .error .engine

variable {env : Env} {m : Memory} {p q size count : Nat} {len : Option Int} {α β : Type}

/-! ## Answers -/

/-- What a lift function answers, apart from the context. -/
def answer (x : Except JsError (α × Cursor)) : Except JsError α := x.map Prod.fst

/-- What follows a part sees its answer and a context that the part has left. -/
theorem bind_answer {x : Except JsError (α × Cursor)} {f : α × Cursor → Except JsError β}
    {g : α → Except JsError β} (h : ∀ v c, x = .ok (v, c) → f (v, c) = g v) :
    x >>= f = answer x >>= g := by
  cases x with
  | error e => rfl
  | ok vc => exact h vc.1 vc.2 rfl

theorem answer_bind {x : Except JsError (α × Cursor)}
    {f : α × Cursor → Except JsError (β × Cursor)} {g : α → Except JsError β}
    (h : ∀ v c, x = .ok (v, c) → answer (f (v, c)) = g v) :
    answer (x >>= f) = answer x >>= g := by
  refine .trans ?_ (bind_answer (f := fun vc => answer (f vc)) h)
  cases x <;> rfl

/-- With room for the size, `f` answers `r` and spends no more than that. -/
def Shows (env : Env) (f : Lifter) (m : Memory) (p size : Nat) (r : Except JsError Val) : Prop :=
  ∀ len, Room len size → answer (f m ⟨p, len⟩) = r ∧
    Spends env len size (p + size) (f m ⟨p, len⟩)

/-! ## Primitives -/

/-- A word of bytes that is shown as a value. -/
theorem read_answer {bs : List UInt8} (what : String) (h : HasBytes m p bs)
    (hlen : bs.length = count) (hpos : 0 < count) (hroom : Room len count)
    (f : List UInt8 → α) :
    answer (do
      let (bs, c) ← liftBytes what count m ⟨p, len⟩
      return (f bs, c)) = .ok (f bs) := by
  obtain ⟨len', hok, -⟩ := liftBytes_ok what h hlen hpos hroom
  rw [hok]
  rfl

theorem ofWord_word {ty : IntTy} {n : Int} (h : ty.Contains n) :
    ty.ofWord (word ty.bytes n) = n := by
  unfold IntTy.Contains at h
  unfold IntTy.ofWord
  split_ifs at h ⊢
  · exact signed_word h.1 h.2
  · rw [LittleEndian.word, Int.emod_eq_of_lt h.1 h.2, Int.toNat_of_nonneg h.1]

theorem liftFlatInt_answer {ty : IntTy} {n : Int} (hn : ty.Contains n) (hp : p % ty.bytes = 0)
    (h : HasBytes m p (bytes ty.bytes (LittleEndian.word ty.bytes n)))
    (hroom : Room len ty.bytes) :
    answer (liftFlatInt ty m ⟨p, len⟩) = .ok (.ofInt ty n) := by
  have hword := ofWord_word hn
  have hnum := congrArg (fun n => (Except.ok (Val.num n) : Except JsError Val)) hword
  have hsigned : ∀ what, answer (liftSigned ty what m ⟨p, len⟩) = .ok (.ofInt ty n) := by
    intro what
    refine (read_answer what h (length_bytes _ _) (by cases ty <;> decide) hroom
      fun bs => Val.ofInt ty (ty.ofWord (value bs))).trans ?_
    rw [value_bytes_of_lt (word_lt _ _), hword]
  -- The unsigned ones go through their numbers.
  cases ty with
  | s8 | s16 | s32 | s64 | u64 => exact hsigned _
  | u8 =>
    obtain ⟨len', hok, -⟩ := liftU8_ok (word_lt 1 n) h hroom
    rw [liftFlatInt, liftFlatU8, hok]
    exact hnum
  | u16 =>
    obtain ⟨len', hok, -⟩ := liftU16_ok (word_lt 2 n) h hp hroom
    rw [liftFlatInt, liftFlatU16, hok]
    exact hnum
  | u32 =>
    obtain ⟨len', hok, -⟩ := liftU32_ok ⟨word_lt 4 n, h⟩ hroom
    rw [liftFlatInt, liftFlatU32, hok]
    exact hnum

theorem liftFlatFloat_answer {ty : FloatTy} {w : Nat} (hw : w < 256 ^ ty.bytes)
    (h : HasBytes m p (bytes ty.bytes w)) (hroom : Room len ty.bytes) :
    answer (liftFlatFloat ty m ⟨p, len⟩) = .ok (.float ty (ty.canon w)) := by
  have hfloat : ∀ what, answer (liftFloat ty what m ⟨p, len⟩) = .ok (.float ty (ty.canon w)) := by
    intro what
    refine (read_answer what h (length_bytes _ _) (by cases ty <;> decide) hroom
      fun bs => Val.float ty (ty.canon (value bs))).trans ?_
    rw [value_bytes_of_lt hw]
  cases ty <;> exact hfloat _

theorem liftFlatChar_answer (c : Char) (h : HasBytes m p (bytes 4 c.toNat))
    (hroom : Room len 4) : answer (liftFlatChar m ⟨p, len⟩) = i32ToChar c.toNat := by
  have hlt : c.toNat < 256 ^ 4 := c.val.toNat_lt
  obtain ⟨len', hok, -⟩ := liftBytes_ok "char requires 4 bytes" h (length_bytes _ _) (by decide) hroom
  unfold liftFlatChar
  rw [hok, ok_bind]
  dsimp only
  rw [value_bytes_of_lt hlt]
  cases i32ToChar c.toNat <;> rfl

theorem liftFlatStringAny_answer {t : Utf8.Text} {n : Nat} (hp : p % 4 = 0) (hq : HasWord m p q)
    (hn : HasWord m (p + 4) n) (ht : TextAt env.stringEncoding t m q n) (hroom : Room len 8) :
    answer (liftFlatStringAny env m ⟨p, len⟩) = showText env.stringEncoding t := by
  unfold liftFlatStringAny showText
  generalize env.stringEncoding = enc at ht
  cases enc with
  | utf8 =>
    obtain ⟨len', hok, -⟩ := liftFlatStringUtf8_ok hp hq hn ht len hroom
    dsimp only
    rw [hok]
    rfl
  | utf16 | compactUtf16 => rfl

theorem liftFlatHandle_answer (ty : HandleTy) {h : Nat} (hword : HasWord m p h)
    (hroom : Room len 4) : answer (liftFlatHandle env ty m ⟨p, len⟩) = showHandle env ty h := by
  obtain ⟨len', hok, -⟩ := liftU32_ok hword hroom
  have hown : ∀ ty, answer (liftFlatOwn env ty m ⟨p, len⟩) = env.liftHandle ty h := by
    intro ty
    rw [liftFlatOwn, hok, ok_bind]
    dsimp only
    cases env.liftHandle ty h <;> rfl
  cases ty with
  | own idx | future idx => exact hown _
  | borrow idx | errorContext idx => rfl
  | stream idx =>
    rw [liftFlatHandle, liftFlatStream, hok, ok_bind]
    dsimp only
    rw [showHandle]
    split_ifs
    · rfl
    · cases env.liftHandle (.stream idx) h <;> rfl

/-! ## Flags -/

theorem bitsOf_cons (b : Bool) (bs : List Bool) :
    bitsOf (b :: bs) % 2 = b.toNat ∧ bitsOf (b :: bs) / 2 = bitsOf bs := by
  rw [bitsOf]
  cases b <;> simp only [Bool.toNat_true, Bool.toNat_false] <;> omega

theorem liftNames_bitsOf (names : List String) (bs : List Bool) :
    liftNames names (bitsOf bs) = showFlags names bs := by
  induction names generalizing bs with
  | nil => cases bs <;> rfl
  | cons name names ih =>
    cases bs with
    | nil => exact congrArg ((name, Val.bool false) :: ·) (ih [])
    | cons b bs =>
      rw [liftNames, showFlags, (bitsOf_cons b bs).1, (bitsOf_cons b bs).2, ih]
      cases b <;> rfl

theorem bitsOf_take (k : Nat) (bs : List Bool) : bitsOf bs % 2 ^ k = bitsOf (bs.take k) := by
  induction k generalizing bs with
  | zero => rw [take_zero, pow_zero, mod_one]; rfl
  | succ k ih =>
    cases bs with
    | nil => exact zero_mod _
    | cons b bs =>
      rw [take_succ_cons, pow_succ', mod_mul, (bitsOf_cons b bs).1, (bitsOf_cons b bs).2, ih, bitsOf]

/-- What is read of a wider word are its first bytes. -/
theorem HasBytes.low {j k n : Nat} (h : HasBytes m p (bytes k n)) (hjk : j ≤ k) :
    HasBytes m p (bytes j n) := by
  intro i hi
  rw [length_bytes] at hi
  rw [← bytes_take hjk, getElem?_take, if_pos hi]
  exact h i (by rw [length_bytes]; omega)

theorem intSizeBytes_cases (count : Nat) :
    intSizeBytes count = 1 ∧ count ≤ 8 ∨ intSizeBytes count = 2 ∧ count ≤ 16 ∨
      intSizeBytes count = 4 := by
  unfold intSizeBytes
  split_ifs <;> omega

/-- The word that is read has the flags up to 32. -/
theorem value_flags {bs : List Bool} {names : List String} (hlen : bs.length = names.length) :
    value (bytes (intSizeBytes names.length) (bitsOf bs)) = bitsOf (bs.take 32) := by
  have htake : bs.take (8 * intSizeBytes names.length) = bs.take 32 := by
    rcases intSizeBytes_cases names.length with ⟨hk, hcount⟩ | ⟨hk, hcount⟩ | hk
    · rw [take_of_length_le (by omega), take_of_length_le (by omega)]
    · rw [take_of_length_le (by omega), take_of_length_le (by omega)]
    · rw [hk]
  rw [value_bytes, ← htake, ← bitsOf_take, pow_mul]
  rfl

theorem liftFlatFlags_answer {names : List String} {bs : List Bool} (hnames : names ≠ [])
    (hlen : bs.length = names.length)
    (h : HasBytes m p (bytes (flags names).size (bitsOf bs)))
    (hroom : Room len (flags names).size) :
    answer (liftFlatFlags names (flags names).align m ⟨p, len⟩) =
      .ok (.objectOf (showFlags names (bs.take 32))) := by
  have hsize := (intSizeBytes_le hnames).1
  have hread := fun what hpos => liftBytes_ok what (h.low hsize) (length_bytes _ _) hpos
    (hroom.mono hsize)
  rw [← liftNames_bitsOf, ← value_flags hlen, liftFlatFlags]
  rcases intSizeBytes_cases names.length with ⟨hk, -⟩ | ⟨hk, -⟩ | hk <;> rw [hk] at hread ⊢
  · obtain ⟨len', hok, -⟩ := hread "u8 requires 1 byte" one_pos
    rw [if_pos rfl, liftU8, hok]
    rfl
  · obtain ⟨len', hok, -⟩ := hread "u16 requires 2 bytes" two_pos
    rw [if_neg (by decide), if_pos rfl, liftU16, hok]
    rfl
  · obtain ⟨len', hok, -⟩ := hread "u32 requires 4 bytes" four_pos
    rw [if_neg (by decide), if_neg (by decide), liftU32, hok]
    rfl

/-! ## Fields -/

theorem liftFields_answer {n : Nat} (fs : Fin n → FieldLift) {ls : Fin n → Layout}
    {Ps : Fin n → Nat → Prop} {rs : Fin n → Except JsError Val}
    (hmeta : ∀ i, (fs i).size32 = (ls i).size ∧ (fs i).align32 = (ls i).align)
    (hp : ∀ i, p % (ls i).align = 0)
    (hshow : ∀ i off, (p + off) % (ls i).align = 0 → Ps i off →
      Shows env (fs i).liftFn m (p + off) (ls i).size (rs i))
    {s : Nat} (heach : Each (ofFn fun i => (ls i, Ps i)) s)
    (hroom : Room len (extent (ofFn ls) s - s)) :
    answer (liftFields (ofFn fs) m ⟨p + s, len⟩) =
      (ofFn fun i => ((fs i).key, rs i)).mapM showField := by
  induction n generalizing s len with
  | zero => rfl
  | succ n ih =>
    rw [ofFn_succ] at heach hroom
    obtain ⟨hhead, htail⟩ := heach
    rw [extent] at hroom
    have hpad := le_alignTo s (ls 0).align
    have hrest := le_extent (ofFn fun i => ls i.succ) (alignTo s (ls 0).align + (ls 0).size)
    have hptr : alignTo (p + s) (fs 0).align32 = p + alignTo s (ls 0).align := by
      rw [(hmeta 0).2, alignTo_add (hp 0)]
    have hal : (p + alignTo s (ls 0).align) % (ls 0).align = 0 := by
      rw [add_mod, hp 0, alignTo_mod (ls 0).isAlign, zero_add, zero_mod]
    obtain ⟨hanswer, hspends⟩ := hshow 0 _ hal hhead len (hroom.mono (by omega))
    have hroomRest : Room (len.map (· - ((ls 0).size : Int)))
        (extent (ofFn fun i => ls i.succ) (alignTo s (ls 0).align + (ls 0).size) -
          (alignTo s (ls 0).align + (ls 0).size)) := by
      intro l hl
      obtain ⟨l', hl', rfl⟩ := Option.mem_map.1 hl
      have := hroom l' hl'
      omega
    have hih := ih _ (fun i => hmeta i.succ) (fun i => hp i.succ) (fun i => hshow i.succ) htail
      hroomRest
    rw [ofFn_succ, ofFn_succ, mapM_cons, liftFields]
    dsimp only
    rw [hptr, showField, ← hanswer, bind_assoc]
    refine answer_bind fun v c hok => ?_
    rw [hok] at hspends
    have hnext : max c.storagePtr (p + alignTo s (ls 0).align + (ls 0).size) =
        p + (alignTo s (ls 0).align + (ls 0).size) := by
      have := hspends.1
      omega
    rw [(hmeta 0).1, hnext, pure_bind, ← hih]
    exact answer_bind fun vs c' _ => rfl

/-- The fields of a record or of a tuple, with what is made of them. -/
theorem liftFlatFields_answer {n : Nat} (names : Fin n → String) {tys : Fin n → Ty}
    {xs : Fin n → Value} (hp : p % (Ty.tuple tys).align = 0)
    (hshow : ∀ i off, (p + off) % (tys i).align = 0 → Image env.stringEncoding (tys i) (xs i) m
      (p + off) → Shows env (genLift env (tys i)) m (p + off) (tys i).size
        (shown env (tys i) (xs i)))
    (himg : Each (ofFn fun i => ((tys i).layout, fun off =>
      Image env.stringEncoding (tys i) (xs i) m (p + off))) 0)
    (hroom : Room len (Ty.tuple tys).size) (done : Cursor → Cursor)
    (show_ : List (String × Val) → Val) :
    answer (liftFields (ofFn fun i =>
        ⟨names i, genLift env (tys i), (tys i).size, (tys i).align⟩) m ⟨p, len⟩ >>=
      fun vc => .ok (show_ vc.1, done vc.2)) =
    showFields names (fun i x => shown env (tys i) x) (ofFn xs) >>= fun fs => .ok (show_ fs) := by
  have hfields : showFields names (fun i x => shown env (tys i) x) (ofFn xs) =
      (ofFn fun i => (names i, shown env (tys i) (xs i))).mapM showField := by
    simp [showFields]
  obtain ⟨hals, hext, -⟩ := record_facts (fun i => (tys i).layout) hp
  rw [hfields, ← liftFields_answer (fun i => ⟨names i, genLift env (tys i), _, _⟩)
    (fun i => ⟨rfl, rfl⟩) hals hshow himg (hroom.mono hext)]
  exact answer_bind fun vs c _ => rfl

/-! ## Elements -/

theorem readValues_answer {f : Lifter} {r : Value → Except JsError Val} {xs : List Value}
    {i : Nat} (ptr : Nat)
    (hshow : ∀ j (h : j < xs.length), Shows env f m (q + (i + j) * size) size (r xs[j]))
    (hroom : Room len (xs.length * size)) :
    answer (readValues f size m q xs.length i ⟨ptr, len⟩) = xs.mapM r := by
  induction xs generalizing i ptr len with
  | nil => rfl
  | cons x xs ih =>
    rw [length_cons, succ_mul] at hroom
    obtain ⟨hanswer, hspends⟩ := hshow 0 (succ_pos _) len (hroom.mono (by omega))
    rw [add_zero] at hanswer hspends
    rw [length_cons, readValues, mapM_cons]
    refine (answer_bind fun v c hok => ?_).trans (congrArg (· >>= _) hanswer)
    rw [hok] at hspends
    have htail : ∀ j (h : j < xs.length), Shows env f m (q + (i + 1 + j) * size) size (r xs[j]) := by
      intro j hj
      rw [show i + 1 + j = i + (j + 1) by omega]
      exact hshow (j + 1) (succ_lt_succ hj)
    rw [← ih _ htail (hspends.2 _ (hroom.mono (add_comm _ _).le))]
    exact answer_bind fun vs c' _ => rfl

/-- A list in its place or elsewhere. -/
theorem liftFlatList_answer {list : ListLift} {r : Value → Except JsError Val} {xs : List Value}
    (hshow : ∀ j (h : j < xs.length),
      Shows env list.elemLiftFn m (q + j * list.elemSize32) list.elemSize32 (r xs[j]))
    (hwhere : list.knownLen = some xs.length ∧ q = p ∨
      list.knownLen = none ∧ HasWord m p q ∧ HasWord m (p + 4) xs.length) :
    answer (liftFlatList list m ⟨p, len⟩) =
      xs.mapM r >>= fun vs => .ok (.arr list.typedArray vs) := by
  have helems := readValues_answer (i := 0) q (by simpa using hshow)
    (room_self (xs.length * list.elemSize32))
  unfold liftFlatList
  rcases hwhere with ⟨hknown, rfl⟩ | ⟨hknown, hq, hn⟩
  · rw [hknown, ← helems]
    exact answer_bind fun vs c _ => rfl
  · obtain ⟨len₁, len₂, h₁, h₂⟩ := liftPair_ok hq hn
    rw [hknown, ← helems]
    dsimp only
    rw [h₁, ok_bind]
    dsimp only
    rw [h₂, ok_bind]
    exact answer_bind fun vs c _ => rfl

theorem readEntries_answer {map : MapLift} {kr vr : Value → Except JsError Val}
    {ksize vsize i : Nat} {es : List (Value × Value)} (hfits : ksize + vsize ≤ map.entrySize32)
    (hshow : ∀ j (h : j < es.length),
      Shows env map.keyLiftFn m (q + (i + j) * map.entrySize32) ksize (kr es[j].1) ∧
      Shows env map.valueLiftFn m (q + (i + j) * map.entrySize32 + map.valueOffset32) vsize
        (vr es[j].2))
    (hroom : Room len (es.length * map.entrySize32)) :
    readEntries map m q es.length i len = es.mapM fun e => do
      let k ← kr e.1
      let v ← vr e.2
      return (k, v) := by
  induction es generalizing i len with
  | nil => rfl
  | cons e es ih =>
    rw [length_cons, succ_mul] at hroom
    obtain ⟨hkey, hvalue⟩ := hshow 0 (succ_pos _)
    obtain ⟨hkeyAnswer, hkeySpends⟩ := hkey len (hroom.mono (by omega))
    rw [add_zero] at hkeyAnswer hkeySpends hvalue
    have htail : ∀ j (h : j < es.length),
        Shows env map.keyLiftFn m (q + (i + 1 + j) * map.entrySize32) ksize (kr es[j].1) ∧
        Shows env map.valueLiftFn m (q + (i + 1 + j) * map.entrySize32 + map.valueOffset32) vsize
          (vr es[j].2) := by
      intro j hj
      rw [show i + 1 + j = i + (j + 1) by omega]
      exact hshow (j + 1) (succ_lt_succ hj)
    rw [length_cons, readEntries, mapM_cons, bind_assoc]
    refine (bind_answer fun k c hk => ?_).trans (congrArg (· >>= _) hkeyAnswer)
    rw [hk] at hkeySpends
    have hroomBoth : Room c.storageLen (vsize + es.length * map.entrySize32) :=
      hkeySpends.2 _ (hroom.mono (by omega))
    obtain ⟨hvalueAnswer, hvalueSpends⟩ := hvalue c.storageLen (hroomBoth.mono (by omega))
    rw [bind_assoc]
    refine (bind_answer fun v c' hv => ?_).trans (congrArg (· >>= _) hvalueAnswer)
    rw [hv] at hvalueSpends
    rw [← ih htail (hvalueSpends.2 _ hroomBoth)]
    rfl

theorem liftFlatMap_answer {map : MapLift} {kr vr : Value → Except JsError Val}
    {ksize vsize : Nat} {es : List (Value × Value)} (hfits : ksize + vsize ≤ map.entrySize32)
    (hq : HasWord m p q) (hn : HasWord m (p + 4) es.length)
    (hshow : ∀ j (h : j < es.length),
      Shows env map.keyLiftFn m (q + j * map.entrySize32) ksize (kr es[j].1) ∧
      Shows env map.valueLiftFn m (q + j * map.entrySize32 + map.valueOffset32) vsize
        (vr es[j].2)) :
    answer (liftFlatMap map m ⟨p, len⟩) = (es.mapM fun e => do
      let k ← kr e.1
      let v ← vr e.2
      return (k, v)) >>= fun es => .ok (.mapOf es) := by
  obtain ⟨len₁, len₂, h₁, h₂⟩ := liftPair_ok hq hn
  have hentries := readEntries_answer (i := 0) hfits (by simpa using hshow)
    (room_self (es.length * map.entrySize32))
  rw [← hentries, liftFlatMap]
  dsimp only
  rw [h₁, ok_bind]
  dsimp only
  rw [h₂, ok_bind]
  dsimp only
  cases readEntries map m q es.length 0 (some (es.length * map.entrySize32 : Nat)) <;> rfl

/-! ## Cases -/

/-- The kinds of cases show the object that `liftFlatVariant` makes in their own way. -/
theorem liftFlatCases_answer (kind : CaseKind) (tag : String) {variant : VariantLift} {c : Cursor}
    {r : Except JsError (Option Val)}
    (h : answer (liftFlatVariant variant m c) = r.map (showCase .variant tag)) :
    answer (liftFlatCases kind variant m c) = r.map (showCase kind tag) := by
  cases kind with
  | variant => exact h
  | option | result =>
    refine h.trans (congrArg (r.map ·) (funext fun payload => ?_))
    cases payload <;> rfl
  | enum =>
    refine (answer_bind (g := fun v => .ok (v.prop "tag")) fun v c' _ => rfl).trans ?_
    rw [h]
    rcases r with e | _ | v <;> rfl

theorem lookup_ofFn {n : Nat} (f : Fin n → α) (i : Fin n) : (ofFn f)[i.val]? = some (f i) := by
  rw [List.getElem?_ofFn, dif_pos i.isLt]

section

variable {variant : VariantLift} {n idx : Nat} {tag : String} {payload : Option Lifter}
  (hlength : variant.caseMetas.length = n)
  (hcase : variant.caseMetas[idx]? = some (tag, payload)) (hfits : DiscriminantFits n)
  (hp : p % discriminantSize n = 0) (h : HasBytes m p (bytes (discriminantSize n) idx))
include hlength hcase hfits hp h

theorem liftFlatVariant_bare (hnone : payload = none) (hroom : Room len (discriminantSize n)) :
    answer (liftFlatVariant variant m ⟨p, len⟩) = .ok (showCase .variant tag none) := by
  subst hlength hnone
  obtain ⟨ptr, len', hok, -⟩ :=
    liftDiscriminant_ok hfits (List.getElem?_eq_some_iff.1 hcase).1 hp h hroom
  rw [liftFlatVariant, hok, ok_bind]
  dsimp only
  rw [hcase]
  rfl

theorem liftFlatVariant_payload {f : Lifter} {v : Except JsError Val} (hsome : payload = some f)
    (hshow : Shows env f m (p + variant.variantPayloadOffset32) size v)
    (hroom : Room len (discriminantSize n + size)) :
    answer (liftFlatVariant variant m ⟨p, len⟩) =
      (v.map some).map (showCase .variant tag) := by
  subst hlength hsome
  obtain ⟨ptr, len', hok, hk⟩ :=
    liftDiscriminant_ok hfits (List.getElem?_eq_some_iff.1 hcase).1 hp h (hroom.mono (by omega))
  rw [liftFlatVariant, hok, ok_bind, ← (hshow len' (hk size hroom)).1]
  dsimp only
  rw [hcase]
  dsimp only
  cases f m ⟨p + variant.variantPayloadOffset32, len'⟩ <;> rfl

end

/-! ## Types -/

theorem shows_of_answer {ty : Ty} {x : Value} (himg : Image env.stringEncoding ty x m p)
    (hfit : WidthsFit ty x) (hp : p % ty.align = 0) {r : Except JsError Val}
    (h : ∀ len, Room len ty.size → answer (genLift env ty m ⟨p, len⟩) = r) :
    Shows env (genLift env ty) m p ty.size r := fun len hroom =>
  ⟨h len hroom, (genLift_covers .engine ty himg hfit hp len hroom).2⟩

/-- Wherever an image of the value lies, the function answers what the value shows. -/
theorem genLift_shows (ty : Ty) {x : Value} (himg : Image env.stringEncoding ty x m p)
    (hfit : WidthsFit ty x) (hp : p % ty.align = 0) :
    Shows env (genLift env ty) m p ty.size (shown env ty x) := by
  -- On the type; each case ends in the lemma of its lifting function.
  induction ty generalizing x p <;> refine shows_of_answer himg hfit hp fun len hroom => ?_
  case bool =>
    obtain ⟨b, rfl, h⟩ := himg
    refine (read_answer _ h rfl one_pos hroom fun bs => Val.bool (value bs = 1)).trans ?_
    cases b <;> rfl
  case int ty =>
    obtain ⟨n, rfl, hn, h⟩ := himg
    exact liftFlatInt_answer hn ((size_int ty).2 ▸ hp) h ((size_int ty).1 ▸ hroom)
  case float ty =>
    obtain ⟨w, rfl, hw, h⟩ := himg
    exact liftFlatFloat_answer hw h ((size_float ty).1 ▸ hroom)
  case char =>
    obtain ⟨c, rfl, h⟩ := himg
    exact liftFlatChar_answer c h hroom
  case string =>
    obtain ⟨t, q, n, rfl, hq, hn, ht⟩ := himg
    exact liftFlatStringAny_answer hp hq hn ht hroom
  case record names tys ih =>
    obtain ⟨xs, rfl, heach⟩ := himg
    exact liftFlatFields_answer names hp (fun i off hal h => ih i h (hfit xs rfl i) hal) heach
      hroom _ Val.objectOf
  case tuple tys ih =>
    obtain ⟨xs, rfl, heach⟩ := himg
    exact liftFlatFields_answer (fun _ => "") hp (fun i off hal h => ih i h (hfit xs rfl i) hal)
      heach hroom _ fun fs => .arr none (fs.map (·.2))
  case tagged kind n k names payload tys ih =>
    obtain ⟨idx, y, rfl, hdisc, hcase⟩ := himg
    obtain ⟨hwidth, hpayloadFit⟩ := hfit
    -- The discriminant is read at the start, the payload behind it at its own alignment.
    have hcount := caseLayout_discriminant payload tys
    have hle := discriminant_le_align (ofFn fun i => (payload i).map fun j => (tys j).layout)
    have hp' := mod_of_le (isAlign_discriminantSize n) (caseLayout payload tys).isAlign
      (hcount ▸ hle) hp
    have hsize := (caseLayout payload tys).discriminant_le
    rw [hcount] at hdisc hsize
    obtain ⟨i, rfl, hbody⟩ := hcase.cases
    rw [genLift, shown, dif_pos i.isLt]
    split_ifs with hlt
    · have hfits : DiscriminantFits n := ⟨hwidth.1, hwidth.2, hlt⟩
      rcases hbody with ⟨hpayload, rfl⟩ | ⟨j, y, hpayload, rfl, himage⟩
      · rw [hpayload]
        exact liftFlatCases_answer kind _ (liftFlatVariant_bare length_ofFn (lookup_ofFn _ i) hfits
          hp' hdisc (by rw [hpayload]; rfl)
          (hroom.mono (hsize.trans (caseLayout payload tys).payloadOffset_le)))
      · have hmem : some (tys j).layout ∈ ofFn fun i => (payload i).map fun j => (tys j).layout :=
          mem_ofFn.2 ⟨i, by rw [hpayload]; rfl⟩
        rw [hpayload]
        exact liftFlatCases_answer kind _ (liftFlatVariant_payload length_ofFn (lookup_ofFn _ i)
          hfits hp' hdisc (by rw [hpayload]; rfl)
          (ih j himage (hpayloadFit i j y hpayload rfl) (payload_aligned hmem hp))
          (hroom.mono ((Nat.add_le_add_right hsize _).trans (payload_le_size hmem))))
    · -- more cases than the discriminant holds: the code throws
      refine liftFlatCases_answer kind "" (r := .error _) ?_
      rw [liftFlatVariant, length_ofFn, liftDiscriminant, if_neg (by omega), if_neg (by omega),
        if_neg hlt]
      rfl
  case flags names =>
    obtain ⟨bs, rfl, hlen, h⟩ := himg
    exact liftFlatFlags_answer hfit hlen h hroom
  case list elem ih =>
    obtain ⟨xs, q, rfl, hq, hn, hal, himgs⟩ := himg
    have hshow := fun j hj => ih (himgs j hj) (hfit xs rfl _ (getElem_mem hj)) (elem_mod elem hal j)
    exact liftFlatList_answer hshow (.inr ⟨rfl, hq, hn⟩)
  case fixedList elem n ih =>
    obtain ⟨xs, rfl, rfl, himgs⟩ := himg
    have hshow := fun j hj => ih (himgs j hj) (hfit xs rfl _ (getElem_mem hj)) (elem_mod elem hp j)
    exact liftFlatList_answer hshow (.inl ⟨rfl, rfl⟩)
  case map key value ihk ihv =>
    obtain ⟨es, q, rfl, hq, hn, hal, himgs⟩ := himg
    have hfits := (Nat.add_le_add_right (le_alignTo _ _) _).trans (entry_facts key value hal 0).2.2
    exact liftFlatMap_answer hfits hq hn fun j hj =>
      ⟨ihk (himgs j hj).1 (hfit es rfl _ (getElem_mem hj)).1 (entry_facts key value hal j).1,
        ihv (himgs j hj).2 (hfit es rfl _ (getElem_mem hj)).2 (entry_facts key value hal j).2.1⟩
  case handle ty =>
    obtain ⟨h, rfl, hword⟩ := himg
    exact liftFlatHandle_answer ty hword hroom

theorem genLift_shows_list :
    Shows plainEnv (genLift plainEnv (.list (.int .u16))) [8, 0, 0, 0, 1, 0, 0, 0, 9, 0] 0 8
      (.ok (.arr (some (.ints .u16)) [.num 9])) := by
  refine genLift_shows (.list (.int .u16)) (x := .list [.int 9])
    ⟨[.int 9], 8, rfl, ⟨by decide, by unfold HasBytes; decide⟩,
      ⟨by decide, by unfold HasBytes; decide⟩, rfl, fun i hi => ?_⟩ (fun _ _ _ _ => trivial) rfl
  obtain rfl : i = 0 := lt_one_iff.1 hi
  exact ⟨9, rfl, by decide, by unfold HasBytes; decide⟩

end Jco.Codec
