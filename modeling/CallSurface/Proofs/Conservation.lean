/-
No byte is lost, repeated or reordered, and no failure goes unlogged.

A failure may hit any single read of a scan, and data behind it is seen by the next read of the same scan. So what a
scan consumes need not stand in one run of bytes; it is accounted for on the tape:
- `Tape.Passage t bs u`: the items between `t` and `u` are the bytes `bs`, in order, and failures, and these failures
  are the read failures that have been logged, one event each;
- `Takes m Q`: a scanner makes such a passage, and its result and the bytes it consumed satisfy `Q`. The rule for
  sequencing (`Takes.bind`) hands on the bytes that are consumed already, so that the shape of a whole token is put
  together part by part.

`scanSteps_account`: over a whole run the consumed bytes and the rest make up the data, every scan consumes a text of
the shape that its kind has, and every failure that is taken off leaves exactly one event.
-/
import CallSurface.Proofs.ByteClass
import CallSurface.Proofs.Tape

namespace CallSurface

/-! ## The shapes of tokens -/

/-- an optional sign and digits -/
def IntegerShape (t : Bytes) : Prop :=
  ∃ (sign : Option UInt8) (digits : Bytes), t = sign.toList ++ digits ∧ sign.all isSign ∧ digits.all isDigit

/-- an optional sign and letters, the first of them `i` or `n` in either case -/
def WordShape (t : Bytes) : Prop :=
  ∃ (sign : Option UInt8) (b : UInt8) (letters : Bytes),
    t = sign.toList ++ b :: letters ∧ sign.all isSign ∧ startsWord b ∧ (b :: letters).all isLetter

/-- nothing, or a point and digits -/
def FractionShape (t : Bytes) : Prop :=
  t = [] ∨ ∃ digits : Bytes, t = 46 :: digits ∧ digits.all isDigit

/-- nothing, or `e` in either case, an optional sign and digits -/
def ExponentShape (t : Bytes) : Prop :=
  t = [] ∨ ∃ (mark : UInt8) (u : Bytes), t = mark :: u ∧ isExponentMark mark ∧ IntegerShape u

/-- an integer, a fraction and an exponent, each of which may be empty -/
def DecimalShape (t : Bytes) : Prop :=
  ∃ whole fraction exponent : Bytes,
    t = whole ++ fraction ++ exponent ∧ IntegerShape whole ∧ FractionShape fraction ∧ ExponentShape exponent

/-- blanks, and a token that `T` describes -/
def AfterBlanks (T : Bytes → Prop) (bs : Bytes) : Prop :=
  ∃ blanks t : Bytes, bs = blanks ++ t ∧ blanks.all isBlank ∧ T t

/-- the token whose text these bytes are -/
def IntToken.ofBytes : Bytes → IntToken
  | b :: bs => if isSign b then ⟨some b, bs⟩ else ⟨none, b :: bs⟩
  | [] => ⟨none, []⟩

/-- sign and digits can be told apart again -/
theorem IntToken.ofBytes_text {t : IntToken} (hsign : t.sign.all isSign = true) (hdigits : t.digits.all isDigit = true) :
    ofBytes t.text = t := by
  obtain ⟨sign, digits⟩ := t
  cases sign with
  | some b =>
    have hb : isSign b = true := by simpa using hsign
    simp [text, ofBytes, hb]
  | none =>
    cases digits with
    | nil => rfl
    | cons d ds =>
      have hd : isDigit d = true := by simp at hdigits; exact hdigits.1
      simp [text, ofBytes, (isDigit_excludes hd).2.1]

/-- a token denotes a number exactly if it has a digit -/
theorem IntToken.isSome_value?_iff {t : IntToken} (hsign : t.sign.all isSign = true)
    (hdigits : t.digits.all isDigit = true) : t.value?.isSome = t.text.any isDigit := by
  obtain ⟨sign, digits⟩ := t
  have hs : sign.toList.any isDigit = false := by
    cases sign with
    | none => rfl
    | some b => simpa using (isSign_excludes (by simpa using hsign)).2
  rw [text, List.any_append, hs, Bool.false_or]
  cases digits with
  | nil => rfl
  | cons d ds =>
    have hd : isDigit d = true := by simp at hdigits; exact hdigits.1
    simp only [value?, List.isEmpty_cons, Bool.false_eq_true, ↓reduceIte, List.any_cons, hd, Bool.true_or]
    split_ifs <;> rfl

/-! ## Passages -/

/-- the cause, if a read failed -/
def Event.readCause? : Event → Option SystemError
  | readFailed e => some e
  | _ => none

namespace Tape

/-- `t` has become `u` by handing out `bs`; the failures in between are those of the reads that have been logged -/
structure Passage (t : Tape) (bs : Bytes) (u : Tape) : Prop where
  ends : u.broken = none
  items : ∃ taken : List Item, t.items = taken ++ u.items ∧ taken.filterMap Item.byte? = bs ∧
    u.log.filterMap Event.readCause? = t.log.filterMap Event.readCause? ++ taken.filterMap Item.cause?

variable {t u v : Tape} {bs cs : Bytes}

theorem Passage.refl (ht : t.broken = none) : Passage t [] t :=
  ⟨ht, [], by simp, rfl, by simp⟩

theorem Passage.trans (h₁ : Passage t bs u) (h₂ : Passage u cs v) : Passage t (bs ++ cs) v := by
  obtain ⟨-, is, hi, hbs, hlog⟩ := h₁
  obtain ⟨hend, js, hj, hcs, hlog'⟩ := h₂
  refine ⟨hend, is ++ js, ?_, ?_, ?_⟩
  · rw [hi, hj, List.append_assoc]
  · rw [List.filterMap_append, hbs, hcs]
  · rw [hlog', hlog, List.filterMap_append, List.append_assoc]

/-- bytes are handed out, and a failure behind them is taken off and logged -/
theorem passage_settle (ht : t.broken = none) {rest : List Item} (h : t.items = bs.map .byte ++ rest) :
    Passage t bs (t.settle rest) := by
  cases rest with
  | nil =>
    refine ⟨ht, bs.map .byte, by simp [h, settle], Item.filterMap_byte?_map bs, ?_⟩
    simp [settle, ht]
  | cons i is =>
    cases i with
    | byte b =>
      refine ⟨ht, bs.map .byte, h, Item.filterMap_byte?_map bs, ?_⟩
      simp [settle]
    | failure e =>
      refine ⟨ht, bs.map .byte ++ [.failure e], ?_, ?_, ?_⟩
      · simp [settle, h]
      · rw [List.filterMap_append, Item.filterMap_byte?_map]
        exact List.append_nil bs
      · simp [settle, Item.cause?, Event.readCause?]

/-- a run of passing items is a run of bytes -/
theorem map_filterMap_takeWhile (p : UInt8 → Bool) (is : List Item) :
    ((is.takeWhile (Item.passes p)).filterMap Item.byte?).map .byte = is.takeWhile (Item.passes p) := by
  induction is with
  | nil => rfl
  | cons i is ih =>
    rw [List.takeWhile_cons]
    split
    · rename_i hi
      cases i with
      | byte b => simpa [Item.byte?] using ih
      | failure e => exact absurd hi (by simp [Item.passes])
    · rfl

theorem passage_takeWhile (p : UInt8 → Bool) (ht : t.broken = none) :
    Passage t (t.takeWhile p).1 (t.takeWhile p).2 ∧ (t.takeWhile p).1.all p = true := by
  refine ⟨passage_settle ht ?_, ?_⟩
  · rw [takeWhile, map_filterMap_takeWhile, List.takeWhile_append_dropWhile]
  · rw [List.all_eq_true]
    intro b hb
    have hm : Item.byte b ∈ t.items.takeWhile (Item.passes p) := by
      rw [← map_filterMap_takeWhile]
      exact List.mem_map_of_mem hb
    exact List.mem_takeWhile_imp (p := Item.passes p) hm

theorem passage_nextIf (p : UInt8 → Bool) (ht : t.broken = none) :
    Passage t (t.nextIf p).1.toList (t.nextIf p).2 ∧ (t.nextIf p).1.all p = true := by
  unfold nextIf
  split
  · rename_i b is hi
    split_ifs with hb
    · exact ⟨⟨ht, [.byte b], hi, rfl, by simp⟩, by simpa using hb⟩
    · exact ⟨Passage.refl ht, rfl⟩
  · exact ⟨passage_settle ht rfl, rfl⟩

theorem passage_peek (ht : t.broken = none) : Passage t [] t.peek.2 :=
  passage_settle ht rfl

/-- a byte that was seen is still there -/
theorem items_peek {b : UInt8} (h : t.peek.1 = some b) : ∃ is, t.peek.2.items = .byte b :: is := by
  rw [peek] at h ⊢
  cases hi : t.items with
  | nil => rw [hi] at h; simp at h
  | cons i is =>
    rw [hi] at h
    cases i with
    | byte c =>
      simp [Item.byte?] at h
      exact ⟨is, by rw [h]; rfl⟩
    | failure e => simp [Item.byte?] at h

end Tape

/-! ## What scanners take -/

namespace Scanner

variable {α β : Type}

/-- on a tape that ends without a failure the scanner makes a passage, and `Q` holds of its result and of the bytes it
hands out on the way -/
def Takes (m : Scanner α) (Q : α → Bytes → Prop) : Prop :=
  ∀ f : Feed, f.tape.broken = none → ∃ bs, f.tape.Passage bs (m f).2.tape ∧ Q (m f).1 bs

theorem takes_pure {a : α} {Q : α → Bytes → Prop} (h : Q a []) : Takes (pure a) Q :=
  fun _ hf => ⟨[], Tape.Passage.refl hf, h⟩

/-- the second scanner starts with the bytes of the first one in hand -/
theorem Takes.bind {m : Scanner α} {n : α → Scanner β} {Q : α → Bytes → Prop} {R : β → Bytes → Prop}
    (hm : Takes m Q) (hn : ∀ a xs, Q a xs → Takes (n a) fun b ys => R b (xs ++ ys)) : Takes (m >>= n) R := by
  intro f hf
  obtain ⟨xs, hpass, hq⟩ := hm f hf
  obtain ⟨ys, hpass', hr⟩ := hn _ xs hq _ hpass.ends
  exact ⟨xs ++ ys, hpass.trans hpass', hr⟩

theorem takes_report {e : Event} (he : e.readCause? = none) : Takes (report e) fun _ bs => bs = [] := by
  intro f hf
  refine ⟨[], ⟨hf, [], rfl, rfl, ?_⟩, rfl⟩
  show (f.log ++ [e]).filterMap Event.readCause? = _
  simp [Feed.tape, he]

theorem takes_takeWhile (p : UInt8 → Bool) : Takes (takeWhile p) fun xs bs => bs = xs ∧ xs.all p := by
  intro f hf
  obtain ⟨hvalue, htape⟩ := Prod.mk.inj (observe_takeWhile p f)
  obtain ⟨hpass, hall⟩ := Tape.passage_takeWhile p hf
  rw [hvalue, htape]
  exact ⟨_, hpass, rfl, hall⟩

theorem takes_nextIf (p : UInt8 → Bool) : Takes (nextIf p) fun b bs => bs = b.toList ∧ b.all p := by
  intro f hf
  obtain ⟨hvalue, htape⟩ := Prod.mk.inj (observe_nextIf p f)
  obtain ⟨hpass, hall⟩ := Tape.passage_nextIf p hf
  rw [hvalue, htape]
  exact ⟨_, hpass, rfl, hall⟩

/-- looking ahead hands out nothing, and a byte that was seen is still there -/
theorem passage_peek {f : Feed} (hf : f.tape.broken = none) :
    f.tape.Passage [] (peek f).2.tape ∧ ∀ b, (peek f).1 = some b → ∃ is, (peek f).2.tape.items = .byte b :: is := by
  have hvalue : (peek f).1 = f.tape.peek.1 := congrArg Prod.fst (observe_peek f)
  have htape : (peek f).2.tape = f.tape.peek.2 := congrArg Prod.snd (observe_peek f)
  rw [hvalue, htape]
  exact ⟨Tape.passage_peek hf, fun b hb => Tape.items_peek hb⟩

theorem takes_skipBlanks : Takes skipBlanks fun _ bs => bs.all isBlank := by
  refine (takes_takeWhile isBlank).bind fun blanks xs hxs => takes_pure ?_
  rw [List.append_nil, hxs.1]
  exact hxs.2

theorem takes_intToken :
    Takes intToken fun t bs => AfterBlanks (· = t.text) bs ∧ t.sign.all isSign ∧ t.digits.all isDigit := by
  refine takes_skipBlanks.bind fun _ blanks hblanks => ?_
  refine (takes_nextIf isSign).bind fun sign xs hsign => ?_
  refine (takes_takeWhile isDigit).bind fun digits ys hdigits => takes_pure ?_
  rw [hsign.1, hdigits.1, List.append_nil]
  exact ⟨⟨blanks, _, rfl, hblanks, rfl⟩, hsign.2, hdigits.2⟩

theorem takes_exponent : Takes exponent fun _ bs => ExponentShape bs := by
  refine (takes_nextIf isExponentMark).bind fun mark xs hmark => ?_
  cases mark with
  | none => exact takes_pure (Or.inl (by rw [hmark.1]; rfl))
  | some mark =>
    refine (takes_nextIf isSign).bind fun sign ys hsign => ?_
    refine (takes_takeWhile isDigit).bind fun digits zs hdigits => takes_pure ?_
    refine Or.inr ⟨mark, sign.toList ++ digits, ?_, by simpa using hmark.2, sign, digits, rfl, hsign.2, hdigits.2⟩
    rw [hmark.1, hsign.1, hdigits.1, List.append_nil]
    rfl

theorem takes_fraction : Takes fraction fun _ bs => FractionShape bs := by
  refine (takes_nextIf isPoint).bind fun point xs hpoint => ?_
  cases point with
  | none => exact takes_pure (Or.inl (by rw [hpoint.1]; rfl))
  | some b =>
    refine (takes_takeWhile isDigit).bind fun digits ys hdigits => takes_pure ?_
    have hb : b = 46 := by simpa [isPoint] using hpoint.2
    refine Or.inr ⟨digits, ?_, hdigits.2⟩
    rw [hpoint.1, hdigits.1, hb, List.append_nil]
    rfl

/-- the letters of a word begin with the byte that was seen before them -/
theorem takes_word (sign : Option UInt8) (hsign : sign.all isSign = true) {f : Feed} (hf : f.tape.broken = none)
    {b : UInt8} {is : List Item} (hi : f.tape.items = .byte b :: is) (hb : startsWord b = true) :
    ∃ bs, f.tape.Passage bs (takeWhile isLetter f).2.tape ∧ WordShape (sign.toList ++ bs) := by
  obtain ⟨hvalue, htape⟩ := Prod.mk.inj (observe_takeWhile isLetter f)
  obtain ⟨hpass, hall⟩ := Tape.passage_takeWhile isLetter hf
  have hletter : isLetter b = true := by
    simp only [startsWord, Bool.or_eq_true, beq_iff_eq] at hb
    rcases hb with hb | hb <;> simp [isLetter, hb]
  have hrun : (f.tape.takeWhile isLetter).1 =
      b :: (is.takeWhile (Item.passes isLetter)).filterMap Item.byte? := by
    simp [Tape.takeWhile, hi, Item.passes, hletter, Item.byte?]
  rw [htape]
  refine ⟨_, hpass, sign, b, _, by rw [hrun], hsign, hb, ?_⟩
  rw [← hrun]
  exact hall

theorem takes_floatToken : Takes floatToken fun _ bs => AfterBlanks (fun t => WordShape t ∨ DecimalShape t) bs := by
  refine takes_skipBlanks.bind fun _ blanks hblanks => ?_
  refine (takes_nextIf isSign).bind fun sign xs hsign => ?_
  rw [hsign.1]
  intro f hf
  obtain ⟨hpeek, hseen⟩ := passage_peek hf
  by_cases hword : (peek f).1.any startsWord = true
  · -- the byte that decided for a word is still at the front, so that the word is not empty
    obtain ⟨b, hb, hstart⟩ := (Option.any_eq_true _ _).1 hword
    obtain ⟨is, his⟩ := hseen b hb
    obtain ⟨bs, hpass, hshape⟩ := takes_word sign hsign.2 hpeek.ends his hstart
    refine ⟨bs, ?_, blanks, sign.toList ++ bs, rfl, hblanks, Or.inl hshape⟩
    simpa [hword] using hpeek.trans hpass
  · have hdecimal : Takes (do
        let whole ← takeWhile isDigit
        let places ← fraction
        return FloatToken.decimal sign whole places (← exponent)) fun _ bs => DecimalShape (sign.toList ++ bs) := by
      refine (takes_takeWhile isDigit).bind fun whole xs hwhole => ?_
      refine takes_fraction.bind fun places ys hplaces => ?_
      refine takes_exponent.bind fun expo zs hexpo => takes_pure ?_
      refine ⟨sign.toList ++ whole, ys, zs, ?_, ⟨sign, whole, rfl, hsign.2, hwhole.2⟩, hplaces, hexpo⟩
      rw [hwhole.1, List.append_nil, List.append_assoc, List.append_assoc]
    obtain ⟨bs, hpass, hshape⟩ := hdecimal _ hpeek.ends
    refine ⟨bs, ?_, blanks, sign.toList ++ bs, rfl, hblanks, Or.inr hshape⟩
    simpa [hword] using hpeek.trans hpass

end Scanner

/-! ## Scans of a kind -/

/-- what a scan of a kind consumes, and the value it gives for that -/
def ScanShape : Kind → Option Scalar → Bytes → Prop
  | .int .char, v, bs => (∃ b : UInt8, v = some (.int .char b.toBitVec) ∧ bs = [b]) ∨ (v = none ∧ bs = [])
  | .int k, v, bs => AfterBlanks (fun t => IntegerShape t ∧
      v = (IntToken.ofBytes t).value?.map (fun n => .int k (k.wrap n)) ∧ v.isSome = t.any isDigit) bs
  | .float _, _, bs => AfterBlanks (fun t => WordShape t ∨ DecimalShape t) bs
  | .bool, v, bs => v = none ∧ bs = []

namespace Scanner

theorem takes_integer (k : IntKind) :
    Takes (integer k) fun v bs => AfterBlanks (fun t => IntegerShape t ∧
      v = (IntToken.ofBytes t).value?.map k.wrap ∧ v.isSome = t.any isDigit) bs := by
  refine takes_intToken.bind fun t xs hxs => ?_
  obtain ⟨⟨blanks, _, rfl, hblanks, rfl⟩, hsign, hdigits⟩ := hxs
  have htoken : AfterBlanks (fun u => IntegerShape u ∧ t.value?.map k.wrap = (IntToken.ofBytes u).value?.map k.wrap ∧
      (t.value?.map k.wrap).isSome = u.any isDigit) (blanks ++ t.text) := by
    refine ⟨blanks, t.text, rfl, hblanks, ⟨t.sign, t.digits, rfl, hsign, hdigits⟩, ?_, ?_⟩
    · rw [IntToken.ofBytes_text hsign hdigits]
    · rw [Option.isSome_map, IntToken.isSome_value?_iff hsign hdigits]
  cases hv : t.value? with
  | some n =>
    rw [hv] at htoken
    exact takes_pure (by rw [List.append_nil]; exact htoken)
  | none =>
    rw [hv] at htoken
    refine (takes_report rfl).bind fun _ ys hys => takes_pure ?_
    rw [hys, List.append_nil, List.append_nil]
    exact htoken

theorem takes_float (k : FloatKind) :
    Takes (float k) fun _ bs => AfterBlanks (fun t => WordShape t ∨ DecimalShape t) bs := by
  refine takes_floatToken.bind fun t xs hxs => ?_
  cases t.value? k with
  | some x => exact takes_pure (by rw [List.append_nil]; exact hxs)
  | none =>
    refine (takes_report rfl).bind fun _ ys hys => takes_pure ?_
    rw [hys, List.append_nil, List.append_nil]
    exact hxs

/-- every scan consumes what the shape of its kind allows -/
theorem takes_scalar (k : Kind) : Takes (scalar k) (ScanShape k) := by
  cases k with
  | bool => exact takes_pure ⟨rfl, rfl⟩
  | float k =>
    refine (takes_float k).bind fun v xs hxs => takes_pure ?_
    rw [List.append_nil]
    exact hxs
  | int k =>
    cases k with
    | char =>
      refine (takes_nextIf fun _ => true).bind fun b xs hxs => takes_pure ?_
      rw [hxs.1, List.append_nil]
      cases b with
      | none => exact Or.inr ⟨rfl, rfl⟩
      | some b => exact Or.inl ⟨b, rfl, rfl⟩
    | _ =>
      refine (takes_integer _).bind fun v xs hxs => takes_pure ?_
      obtain ⟨blanks, t, rfl, hblanks, hshape, hv, hsome⟩ := hxs
      refine ⟨blanks, t, List.append_nil _, hblanks, hshape, ?_, by rw [Option.isSome_map, hsome]⟩
      rw [hv, Option.map_map]
      rfl

end Scanner

/-! ## Whole runs -/

/-- the cause, if the piece is a failure -/
def Piece.cause? : Piece → Option SystemError
  | failure e => some e
  | data _ | interrupted => none

/-- the failures that have not been met yet -/
def Reader.failures (r : Reader) : List SystemError :=
  r.pieces.filterMap Piece.cause?

theorem Reader.failures_eq (r : Reader) : r.failures = r.items.filterMap Item.cause? := by
  unfold failures items
  induction r.pieces with
  | nil => rfl
  | cons q ps ih =>
    rw [List.flatMap_cons, List.filterMap_append, ← ih]
    cases q with
    | data bs =>
      have hbs : (bs.map Item.byte).filterMap Item.cause? = [] := by simp
      rw [Piece.items, hbs]
      rfl
    | interrupted => rfl
    | failure e => rfl

/-- one scan of a run, with the reader on both sides of it -/
structure ScanStep where
  kind : Kind
  before : Reader
  value : Option Scalar
  log : List Event
  after : Reader

namespace ScanStep

/-- the scan as an observer sees it -/
def report (s : ScanStep) : ScanReport :=
  ⟨s.value, s.after.unread.length, s.log⟩

/-- the first bytes of the data that was unread before, as many as are not unread any more -/
def consumed (s : ScanStep) : Bytes :=
  s.before.unread.take (s.before.unread.length - s.after.unread.length)

end ScanStep

namespace Reader

def scanStep (r : Reader) (k : Kind) : ScanStep :=
  let (v, f) := Scanner.scalar k ⟨r, []⟩
  ⟨k, r, v, f.log, f.reader⟩

/-- the scans of a run, each on the reader that the one before it has left -/
def scanSteps (r : Reader) : List Kind → List ScanStep
  | [] => []
  | k :: kinds => r.scanStep k :: (r.scanStep k).after.scanSteps kinds

theorem scanAll_cons (r : Reader) (k : Kind) (kinds : List Kind) :
    r.scanAll (k :: kinds) =
      ((r.scanStep k).report :: ((r.scanStep k).after.scanAll kinds).1, ((r.scanStep k).after.scanAll kinds).2) :=
  rfl

/-- what one scan does to the books: the data, the shape of what it took, the failures -/
theorem scanStep_accounts {r : Reader} (hr : r.broken = none) (k : Kind) :
    (r.scanStep k).after.broken = none ∧
      r.unread = (r.scanStep k).consumed ++ (r.scanStep k).after.unread ∧
      ScanShape k (r.scanStep k).value (r.scanStep k).consumed ∧
      r.failures = (r.scanStep k).log.filterMap Event.readCause? ++ (r.scanStep k).after.failures := by
  obtain ⟨bs, ⟨hend, taken, hitems, hbytes, hlog⟩, hshape⟩ := Scanner.takes_scalar k ⟨r, []⟩ hr
  have hunread : r.unread = bs ++ (r.scanStep k).after.unread := by
    rw [unread_eq, unread_eq, show r.items = taken ++ (r.scanStep k).after.items from hitems, List.filterMap_append,
      hbytes]
  have hconsumed : (r.scanStep k).consumed = bs := by
    show r.unread.take (r.unread.length - (r.scanStep k).after.unread.length) = bs
    rw [hunread]
    simp
  refine ⟨hend, by rw [hconsumed, hunread], by rw [hconsumed]; exact hshape, ?_⟩
  rw [failures_eq, failures_eq, show r.items = taken ++ (r.scanStep k).after.items from hitems, List.filterMap_append]
  exact congrArg (· ++ _) hlog.symm

end Reader

/-- **Conservation under failures.** Over any script of data, retries and failures and any run of scans: what the scans
consume, one after the other, and what is left make up the data; every scan consumes a text of the shape of its kind
and gives the value of that text; and the failures that it takes off the reader are those that it logs, one by one. -/
theorem scanSteps_account (ps : List Piece) (kinds : List Kind) :
    let r : Reader := ⟨ps, none⟩
    ((r.scanSteps kinds).map ScanStep.kind = kinds ∧ (r.scanSteps kinds).map ScanStep.report = (r.scanAll kinds).1) ∧
      ((r.scanSteps kinds).map ScanStep.consumed).flatten ++ (r.scanAll kinds).2.unread = ps.flatMap Piece.bytes ∧
      ∀ s ∈ r.scanSteps kinds, ScanShape s.kind s.value s.consumed ∧
        s.before.failures = s.log.filterMap Event.readCause? ++ s.after.failures := by
  intro r
  have hr : r.broken = none := rfl
  show _ ∧ _ = r.unread ∧ _
  generalize r = r at hr
  induction kinds generalizing r with
  | nil => exact ⟨⟨rfl, rfl⟩, rfl, by simp [Reader.scanSteps]⟩
  | cons k kinds ih =>
    obtain ⟨hend, hdata, hshape, hfailures⟩ := Reader.scanStep_accounts hr k
    obtain ⟨⟨hkinds, hreports⟩, hrest, hsteps⟩ := ih _ hend
    rw [Reader.scanAll_cons, Reader.scanSteps, List.map_cons, List.map_cons, List.map_cons, hkinds, hreports]
    refine ⟨⟨rfl, rfl⟩, ?_, ?_⟩
    · rw [List.flatten_cons, List.append_assoc, hrest, ← hdata]
    · intro s hs
      rcases List.mem_cons.1 hs with rfl | hs
      · exact ⟨hshape, hfailures⟩
      · exact hsteps s hs

/-- a failure cuts a number in two: the first scan takes the part before it and logs it, the second one goes on behind -/
theorem scanSteps_account_cut :
    let r : Reader := ⟨[.data [32, 45, 49], .interrupted, .failure (.other "injected"), .data [50, 101, 120]], none⟩
    let s := r.scanStep (.int .i32)
    (s ∈ r.scanSteps [.int .i32, .float .f64] ∧ s.consumed = [32, 45, 49]) ∧
      ScanShape (.int .i32) s.value s.consumed ∧
      s.before.failures = s.log.filterMap Event.readCause? ++ s.after.failures :=
  ⟨⟨List.mem_cons_self, by decide⟩, (scanSteps_account _ [.int .i32, .float .f64]).2.2 _ List.mem_cons_self⟩

end CallSurface
