/-
The way in which data is cut into pieces never shows.

Two feeds with the same tape may differ in where their pieces end, in empty pieces and in interrupted reads. A scanner
that respects tapes gives the same result on both and leaves the same tape again (`Respects`). Every primitive scanner
does, and sequencing keeps it, so that every scan of a kind does (`respects_scalar`).

`scanAll_eq_of_items_eq`: two readers with the same bytes and failures in the same order give the same reports, scan by
scan, whatever kinds are asked for, and the same unread data at the end.
-/
import CallSurface.Proofs.Tape

namespace CallSurface

namespace Scanner

variable {α β : Type}

/-- what a scanner gives and leaves hangs on the tape alone -/
def Respects (m : Scanner α) : Prop :=
  ∀ f g : Feed, f.tape = g.tape → observe m f = observe m g

/-! ## Primitive scanners and sequencing -/

theorem respects_pure (a : α) : Respects (pure a : Scanner α) := by
  intro f g h
  simp only [observe, pure_apply, h]

theorem Respects.bind {m : Scanner α} {n : α → Scanner β} (hm : Respects m) (hn : ∀ a, Respects (n a)) :
    Respects (m >>= n) := by
  intro f g h
  obtain ⟨hvalue, htape⟩ := Prod.mk.inj (hm f g h)
  show observe (n (m f).1) (m f).2 = observe (n (m g).1) (m g).2
  rw [hvalue]
  exact hn _ _ _ htape

theorem respects_report (e : Event) : Respects (report e) := by
  intro f g h
  have hlog : f.log = g.log := congrArg Tape.log h
  rw [observe_report, observe_report, h, hlog]

theorem respects_takeWhile (p : UInt8 → Bool) : Respects (takeWhile p) := by
  intro f g h
  rw [observe_takeWhile, observe_takeWhile, h]

theorem respects_peek : Respects peek := by
  intro f g h
  rw [observe_peek, observe_peek, h]

theorem respects_nextIf (p : UInt8 → Bool) : Respects (nextIf p) := by
  intro f g h
  rw [observe_nextIf, observe_nextIf, h]

/-! ## Scans of a kind -/

theorem respects_skipBlanks : Respects skipBlanks :=
  (respects_takeWhile isBlank).bind fun _ => respects_pure ()

theorem respects_intToken : Respects intToken :=
  respects_skipBlanks.bind fun _ => (respects_nextIf isSign).bind fun _ =>
    (respects_takeWhile isDigit).bind fun _ => respects_pure _

theorem respects_exponent : Respects exponent := by
  refine (respects_nextIf isExponentMark).bind fun mark => ?_
  cases mark with
  | none => exact respects_pure none
  | some mark =>
    exact (respects_nextIf isSign).bind fun _ => (respects_takeWhile isDigit).bind fun _ => respects_pure _

theorem respects_fraction : Respects fraction := by
  refine (respects_nextIf isPoint).bind fun point => ?_
  cases point with
  | none => exact respects_pure none
  | some _ => exact (respects_takeWhile isDigit).bind fun _ => respects_pure _

theorem respects_floatToken : Respects floatToken := by
  refine respects_skipBlanks.bind fun _ => (respects_nextIf isSign).bind fun sign => respects_peek.bind fun next => ?_
  by_cases hword : next.any startsWord = true
  · simp only [hword, ↓reduceIte]
    exact (respects_takeWhile isLetter).bind fun _ => respects_pure _
  · simp only [hword]
    exact (respects_takeWhile isDigit).bind fun _ => respects_fraction.bind fun _ =>
      respects_exponent.bind fun _ => respects_pure _

theorem respects_integer (k : IntKind) : Respects (integer k) := by
  refine respects_intToken.bind fun t => ?_
  cases t.value? with
  | some n => exact respects_pure _
  | none => exact (respects_report _).bind fun _ => respects_pure none

theorem respects_float (k : FloatKind) : Respects (float k) := by
  refine respects_floatToken.bind fun t => ?_
  cases t.value? k with
  | some x => exact respects_pure _
  | none => exact (respects_report _).bind fun _ => respects_pure none

/-- one scan of any kind hangs on the tape alone -/
theorem respects_scalar (k : Kind) : Respects (scalar k) := by
  cases k with
  | bool => exact respects_pure none
  | float k => exact (respects_float k).bind fun _ => respects_pure _
  | int k =>
    cases k with
    | char => exact (respects_nextIf _).bind fun _ => respects_pure _
    | _ => exact (respects_integer _).bind fun _ => respects_pure _

end Scanner

/-! ## Whole runs -/

/-- **Fragmentation never shows.** Two readers with the same bytes and failures in the same order, however these are cut
into pieces, and with the same end, give the same values, the same numbers of unread bytes and the same events in every
scan of a run, and the same data is left at its end. -/
theorem scanAll_eq_of_items_eq {r s : Reader} (hitems : r.items = s.items) (hend : r.broken = s.broken)
    (kinds : List Kind) :
    (r.scanAll kinds).1 = (s.scanAll kinds).1 ∧ (r.scanAll kinds).2.unread = (s.scanAll kinds).2.unread := by
  induction kinds generalizing r s with
  | nil => exact ⟨rfl, by rw [Reader.scanAll, Reader.scanAll, Reader.unread_eq, Reader.unread_eq, hitems]⟩
  | cons k kinds ih =>
    have htape : (⟨r, []⟩ : Feed).tape = (⟨s, []⟩ : Feed).tape := by simp only [Feed.tape, hitems, hend]
    obtain ⟨hvalue, hafter⟩ := Prod.mk.inj (Scanner.respects_scalar k _ _ htape)
    -- the readers behind the first scan are again alike, and its log is on the tape
    obtain ⟨hitems', hend', hlog⟩ := Tape.mk.inj hafter
    obtain ⟨hreports, hlast⟩ := ih hitems' hend'
    refine ⟨?_, hlast⟩
    simp only [Reader.scanAll, hvalue, hlog, hreports, Reader.unread_eq, hitems']

/-- a number, an exponent and a word that are cut in the middle, with retries and a failure on the way -/
theorem scanAll_eq_of_items_eq_cut :
    let r : Reader := ⟨[.data [32, 45], .interrupted, .data [52], .data [], .data [50, 101], .failure (.other "injected"),
      .data [110], .interrupted, .interrupted, .data [97, 110]], none⟩
    let s : Reader := ⟨[.data [32, 45, 52, 50, 101], .failure (.other "injected"), .data [110, 97, 110]], none⟩
    let kinds : List Kind := [.float .f64, .float .f32, .int .char]
    (r.items = s.items ∧ r.broken = s.broken) ∧
      (r.scanAll kinds).1 = (s.scanAll kinds).1 ∧ (r.scanAll kinds).2.unread = (s.scanAll kinds).2.unread :=
  ⟨⟨rfl, rfl⟩, scanAll_eq_of_items_eq rfl rfl _⟩

end CallSurface
