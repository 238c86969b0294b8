/-
Reading input without failures.

A reader delivers a byte string if it hands out these bytes, in whatever pieces and with whatever retries, and never
fails (`Reader.Delivers`). `Reads m bs a rest es` says what a scanner does on such input: from `bs` it makes the result
`a`, leaves `rest` unread and logs `es`. Like the steps of a program, readings are put together by `Reads.bind`; there is
one rule for each primitive scanner, and from them one for each scan of a token.
-/
import CallSurface.Proofs.ByteClass
import CallSurface.Proofs.Tape

namespace CallSurface

/-- the tape of bytes alone -/
def Tape.ofBytes (bs : Bytes) (log : List Event) : Tape :=
  ⟨bs.map .byte, none, log⟩

/-- the reader hands out these bytes, one after the other, and no read fails -/
def Reader.Delivers (r : Reader) (bs : Bytes) : Prop :=
  r.items = bs.map .byte ∧ r.broken = none

theorem Reader.Delivers.tape {r : Reader} {bs : Bytes} (h : r.Delivers bs) (log : List Event) :
    (⟨r, log⟩ : Feed).tape = .ofBytes bs log := by
  rw [Feed.tape, Tape.ofBytes, h.1, h.2]

theorem Reader.Delivers.unread {r : Reader} {bs : Bytes} (h : r.Delivers bs) : r.unread = bs := by
  rw [Reader.unread_eq, h.1, Item.filterMap_byte?_map]

theorem Reader.delivers_of_tape {f : Feed} {bs : Bytes} {log : List Event} (h : f.tape = .ofBytes bs log) :
    f.reader.Delivers bs :=
  ⟨congrArg Tape.items h, congrArg Tape.broken h⟩

theorem Reader.delivers_data (bs : Bytes) : Reader.Delivers ⟨[.data bs], none⟩ bs :=
  ⟨List.append_nil _, rfl⟩

namespace Scanner

variable {α β : Type}

/-- from the bytes `bs` the scanner makes `a`; it leaves `rest` and logs `es` -/
def Reads (m : Scanner α) (bs : Bytes) (a : α) (rest : Bytes) (es : List Event) : Prop :=
  ∀ (f : Feed) (log : List Event), f.tape = .ofBytes bs log → observe m f = (a, .ofBytes rest (log ++ es))

/-! ## Primitive scanners and sequencing -/

theorem reads_pure (a : α) (bs : Bytes) : Reads (pure a) bs a bs [] := by
  intro f log h
  simp [observe, h]

theorem Reads.bind {m : Scanner α} {n : α → Scanner β} {bs mid rest : Bytes} {a : α} {b : β} {es es' : List Event}
    (hm : Reads m bs a mid es) (hn : Reads (n a) mid b rest es') : Reads (m >>= n) bs b rest (es ++ es') := by
  intro f log h
  obtain ⟨hvalue, htape⟩ := Prod.mk.inj (hm f log h)
  show observe (n (m f).1) (m f).2 = _
  rw [hvalue, hn _ _ htape, List.append_assoc]

theorem reads_report (e : Event) (bs : Bytes) : Reads (report e) bs () bs [e] := by
  intro f log h
  have hlog : f.log = log := congrArg Tape.log h
  rw [observe_report, h, hlog]
  rfl

/-- input that ends, or goes on with a byte that `p` does not accept -/
def Stops (p : UInt8 → Bool) (bs : Bytes) : Prop :=
  ∀ b ∈ bs.head?, p b = false

theorem stops_cons {p : UInt8 → Bool} {b : UInt8} (bs : Bytes) (h : p b = false) : Stops p (b :: bs) := by
  simpa [Stops] using h

/-- the tape stands before its items already, for none of them is a failure -/
theorem settle_ofBytes (bs cs : Bytes) (log : List Event) :
    (Tape.ofBytes bs log).settle (cs.map .byte) = .ofBytes cs log := by
  cases cs <;> simp [Tape.settle, Tape.ofBytes]

theorem reads_takeWhile {p : UInt8 → Bool} {run rest : Bytes} (hrun : run.all p = true) (hrest : Stops p rest) :
    Reads (takeWhile p) (run ++ rest) run rest [] := by
  intro f log h
  have hpass : ∀ i ∈ run.map Item.byte, Item.passes p i = true := Item.passes_of_mem_map (List.all_eq_true.1 hrun)
  have hitems : (Tape.ofBytes (run ++ rest) log).items = run.map .byte ++ rest.map .byte := List.map_append
  have htake : (rest.map Item.byte).takeWhile (Item.passes p) = [] := by
    cases rest with
    | nil => rfl
    | cons b rest => simp [Item.passes, hrest b rfl]
  have hdrop : (rest.map Item.byte).dropWhile (Item.passes p) = rest.map .byte := by
    cases rest with
    | nil => rfl
    | cons b rest => simp [Item.passes, hrest b rfl]
  rw [observe_takeWhile, h, Tape.takeWhile, hitems, List.takeWhile_append_of_pos hpass,
    List.dropWhile_append_of_pos hpass, htake, hdrop, settle_ofBytes, List.append_nil, Item.filterMap_byte?_map,
    List.append_nil]

theorem reads_nextIf_some {p : UInt8 → Bool} {b : UInt8} (hb : p b = true) (bs : Bytes) :
    Reads (nextIf p) (b :: bs) (some b) bs [] := by
  intro f log h
  rw [observe_nextIf, h]
  simp [Tape.nextIf, Tape.ofBytes, hb]

theorem reads_nextIf_none {p : UInt8 → Bool} {bs : Bytes} (h : Stops p bs) : Reads (nextIf p) bs none bs [] := by
  intro f log hf
  rw [observe_nextIf, hf]
  cases bs with
  | nil => simp [Tape.nextIf, Tape.ofBytes, Tape.settle]
  | cons b bs => simp [Tape.nextIf, Tape.ofBytes, h b rfl]

theorem reads_peek (bs : Bytes) : Reads peek bs bs.head? bs [] := by
  intro f log h
  rw [observe_peek, h, Tape.peek]
  have hitems : (Tape.ofBytes bs log).items = bs.map .byte := rfl
  rw [hitems, settle_ofBytes, List.append_nil]
  cases bs <;> rfl

/-- an optional byte: it is there, or what follows is not to be taken for it -/
theorem reads_optional {p : UInt8 → Bool} {o : Option UInt8} {rest : Bytes} (ho : o.all p = true)
    (hrest : o = none → Stops p rest) : Reads (nextIf p) (o.toList ++ rest) o rest [] := by
  cases o with
  | none => exact reads_nextIf_none (hrest rfl)
  | some b => exact reads_nextIf_some (by simpa using ho) rest

/-- a token does not begin with a blank, and blanks before it are passed over -/
theorem reads_skipBlanks {blanks rest : Bytes} (hblanks : blanks.all isBlank = true) (hrest : Stops isBlank rest) :
    Reads skipBlanks (blanks ++ rest) () rest [] :=
  (reads_takeWhile hblanks hrest).bind (reads_pure () rest)

/-- a sign is no blank, so that blanks end before a signed text too -/
theorem stops_blank_signed {sign : Option UInt8} {mid : Bytes} (hsign : sign.all isSign = true)
    (hmid : Stops isBlank mid) : Stops isBlank (sign.toList ++ mid) := by
  cases sign with
  | none => exact hmid
  | some c => exact stops_cons _ (isSign_excludes (by simpa using hsign)).1

/-- blanks and a sign may stand before a number or a word -/
theorem reads_signed {n : Option UInt8 → Scanner β} {blanks mid rest : Bytes} {sign : Option UInt8} {b : β}
    {es : List Event} (hblanks : blanks.all isBlank = true) (hblank : Stops isBlank (sign.toList ++ mid))
    (hsign : sign.all isSign = true) (hmid : sign = none → Stops isSign mid) (hn : Reads (n sign) mid b rest es) :
    Reads (skipBlanks >>= fun _ => nextIf isSign >>= n) (blanks ++ (sign.toList ++ mid)) b rest es :=
  (reads_skipBlanks hblanks hblank).bind ((reads_optional hsign hmid).bind hn)

/-- digits end whatever a digit cannot go on with -/
theorem stops_digits {p : UInt8 → Bool} {digits : Bytes} (hdigits : digits.all isDigit = true) (hne : digits ≠ [])
    (hp : ∀ b, isDigit b = true → p b = false) (rest : Bytes) : Stops p (digits ++ rest) := by
  obtain ⟨d, ds, rfl⟩ := List.exists_cons_of_ne_nil hne
  exact stops_cons _ (hp d (List.all_eq_true.1 hdigits d List.mem_cons_self))

/-- **Scans of a reader without failures**, as seen from outside -/
theorem Reads.deliver {m : Scanner α} {r : Reader} {bs rest : Bytes} {a : α} {es : List Event}
    (h : Reads m bs a rest es) (hr : r.Delivers bs) :
    (m ⟨r, []⟩).1 = a ∧ (m ⟨r, []⟩).2.reader.Delivers rest ∧ (m ⟨r, []⟩).2.log = es := by
  obtain ⟨hvalue, htape⟩ := Prod.mk.inj (h _ _ (hr.tape []))
  exact ⟨hvalue, Reader.delivers_of_tape htape, congrArg Tape.log htape⟩

end Scanner

end CallSurface
