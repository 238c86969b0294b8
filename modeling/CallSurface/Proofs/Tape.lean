/-
The tape of a feed: its data byte by byte, with the failures that stand in between.

Pieces do not show on a tape, and neither do interrupted reads. `Tape.takeWhile`, `Tape.peek` and `Tape.nextIf` say
what the primitive scanners do to it, without any mention of pieces:
- `observe_takeWhile`, `observe_peek`, `observe_nextIf`: a primitive scanner, seen through the tape, is its counterpart;
- `takeWhile_eq_loop`: a run of bytes is what testing and taking one byte at a time gives, so that a failure may hit
  between any two of its bytes.
-/
import CallSurface.Input.Scan
import Mathlib.Data.List.TakeWhile

namespace CallSurface

/-- what reading byte by byte meets -/
inductive Item where
  | byte (b : UInt8)
  | failure (cause : SystemError)
  deriving DecidableEq, Repr

namespace Item

/-- a byte that `p` accepts -/
def passes (p : UInt8 → Bool) : Item → Bool
  | byte b => p b
  | failure _ => false

def byte? : Item → Option UInt8
  | byte b => some b
  | failure _ => none

def cause? : Item → Option SystemError
  | byte _ => none
  | failure e => some e

@[simp] theorem byte?_comp_byte : byte? ∘ byte = some :=
  rfl

@[simp] theorem cause?_byte (b : UInt8) : cause? (byte b) = none :=
  rfl

theorem filterMap_byte?_map (bs : Bytes) : (bs.map byte).filterMap byte? = bs := by
  rw [List.filterMap_map, byte?_comp_byte, List.filterMap_some]

theorem passes_of_mem_map {p : UInt8 → Bool} {bs : Bytes} (h : ∀ b ∈ bs, p b = true) :
    ∀ i ∈ bs.map byte, passes p i = true := by
  intro i hi
  obtain ⟨b, hb, rfl⟩ := List.mem_map.1 hi
  exact h b hb

end Item

def Piece.items : Piece → List Item
  | data bs => bs.map .byte
  | interrupted => []
  | failure e => [.failure e]

def Reader.items (r : Reader) : List Item :=
  r.pieces.flatMap Piece.items

/-- the items from the front on -/
def Front.items : Front → List Item
  | byte b bs rest => .byte b :: bs.map .byte ++ rest.flatMap Piece.items
  | failed e rest => .failure e :: rest.flatMap Piece.items
  | bare => []

theorem filterMap_byte?_items (ps : List Piece) :
    (ps.flatMap Piece.items).filterMap Item.byte? = ps.flatMap Piece.bytes := by
  induction ps with
  | nil => rfl
  | cons q ps ih =>
    rw [List.flatMap_cons, List.flatMap_cons, List.filterMap_append, ih]
    cases q with
    | data bs => rw [Piece.items, Piece.bytes, Item.filterMap_byte?_map]
    | interrupted => rfl
    | failure e => rfl

/-- the unread data of a reader are the bytes among its items -/
theorem Reader.unread_eq (r : Reader) : r.unread = r.items.filterMap Item.byte? :=
  (filterMap_byte?_items r.pieces).symm

/-- The walk over the pieces is a walk over the items. -/
theorem Front.after_items (p : UInt8 → Bool) (ps : List Piece) :
    (after p ps).1.map .byte = (ps.flatMap Piece.items).takeWhile (Item.passes p) ∧
      (after p ps).2.items = (ps.flatMap Piece.items).dropWhile (Item.passes p) := by
  induction ps with
  | nil => exact ⟨rfl, rfl⟩
  | cons q ps ih =>
    cases q with
    | interrupted => exact ih
    | failure e => exact ⟨rfl, rfl⟩
    | data bs =>
      rw [List.flatMap_cons, Piece.items]
      cases hd : bs.dropWhile p with
      | nil =>
        -- the whole piece passes, and the run goes on behind it
        have hall := Item.passes_of_mem_map (List.dropWhile_eq_nil_iff.1 hd)
        have he : after p (.data bs :: ps) = (bs ++ (after p ps).1, (after p ps).2) := by simp [after, hd]
        rw [he, List.takeWhile_append_of_pos hall, List.dropWhile_append_of_pos hall, List.map_append, ih.1]
        exact ⟨rfl, ih.2⟩
      | cons b rest =>
        have hb : p b = false := by
          have h := List.head?_dropWhile_not p bs
          rw [hd] at h
          exact h
        have hrun : ∀ i ∈ (bs.takeWhile p).map Item.byte, Item.passes p i = true :=
          Item.passes_of_mem_map fun c hc => List.mem_takeWhile_imp hc
        have he : after p (.data bs :: ps) = (bs.takeWhile p, .byte b rest ps) := by simp [after, hd]
        have hsplit : bs.map Item.byte = (bs.takeWhile p).map Item.byte ++ .byte b :: rest.map Item.byte := by
          rw [← List.map_cons, ← hd, ← List.map_append, List.takeWhile_append_dropWhile]
        rw [he, hsplit, List.append_assoc, List.takeWhile_append_of_pos hrun, List.dropWhile_append_of_pos hrun]
        simp [Item.passes, hb, items]

/-- One test at a time: the byte at the front is taken and the walk begins again, or it stops there. -/
theorem Front.after_eq (p : UInt8 → Bool) (ps : List Piece) :
    after p ps =
      match (after (fun _ => false) ps).2 with
      | .byte b bs rest =>
        if p b then (b :: (after p (.data bs :: rest)).1, (after p (.data bs :: rest)).2) else ([], .byte b bs rest)
      | front => ([], front) := by
  induction ps with
  | nil => rfl
  | cons q ps ih =>
    cases q with
    | interrupted => exact ih
    | failure e => rfl
    | data bs =>
      cases bs with
      | nil => simpa [after] using ih
      | cons b bs =>
        by_cases hb : p b = true
        · cases hd : bs.dropWhile p <;> simp [after, hb, hd]
        · simp [after, hb]

/-- a feed as its scanners see it -/
structure Tape where
  items : List Item
  /-- why every read behind the last item fails, or `none` at the end of the input -/
  broken : Option SystemError
  log : List Event
  deriving DecidableEq, Repr

def Feed.tape (f : Feed) : Tape :=
  ⟨f.reader.items, f.reader.broken, f.log⟩

namespace Tape

/-- the tape once its reader stands before these items: a failure at their front is taken off and logged -/
def settle (t : Tape) : List Item → Tape
  | .byte b :: is => { t with items := .byte b :: is }
  | .failure e :: is => ⟨is, t.broken, t.log ++ [.readFailed e]⟩
  | [] => ⟨[], t.broken, t.log ++ (t.broken.map Event.readFailed).toList⟩

/-- takes bytes as long as `p` accepts them -/
def takeWhile (p : UInt8 → Bool) (t : Tape) : Bytes × Tape :=
  ((t.items.takeWhile (Item.passes p)).filterMap Item.byte?, t.settle (t.items.dropWhile (Item.passes p)))

/-- the next byte, which stays on the tape -/
def peek (t : Tape) : Option UInt8 × Tape :=
  (t.items.head?.bind Item.byte?, t.settle t.items)

/-- takes the next byte if `p` accepts it -/
def nextIf (p : UInt8 → Bool) (t : Tape) : Option UInt8 × Tape :=
  match t.items with
  | .byte b :: is => if p b then (some b, { t with items := is }) else (none, t)
  | is => (none, t.settle is)

/-- before a byte nothing is taken off -/
theorem settle_of_byte {t : Tape} {b : UInt8} {is : List Item} (h : t.items = .byte b :: is) :
    t.settle (.byte b :: is) = t := by
  rw [settle, ← h]

end Tape

theorem Feed.tape_settle (f : Feed) (front : Front) : (f.settle front).tape = f.tape.settle front.items := by
  cases front with
  | byte b bs rest => simp [Feed.settle, Feed.tape, Tape.settle, Front.items, Reader.items, Piece.items]
  | failed e rest => rfl
  | bare => rfl

/-- where a walk stops, the pieces it started from are forgotten -/
theorem Feed.settle_pieces (f : Feed) (ps : List Piece) (front : Front) :
    { f with reader.pieces := ps : Feed }.settle front = f.settle front := by
  cases front <;> rfl

namespace Scanner

variable {α : Type}

/-- a scanner seen through the tape: its result, and the tape it leaves -/
def observe (m : Scanner α) (f : Feed) : α × Tape :=
  ((m f).1, (m f).2.tape)

theorem observe_takeWhile (p : UInt8 → Bool) (f : Feed) : observe (takeWhile p) f = f.tape.takeWhile p := by
  have h := Front.after_items p f.reader.pieces
  simp only [observe, takeWhile, Tape.takeWhile, Feed.tape_settle, h.2]
  rw [← Item.filterMap_byte?_map (Front.after p f.reader.pieces).1, h.1]
  rfl

/-- the items at the front are all the items there are -/
theorem items_front (f : Feed) : (Front.after (fun _ => false) f.reader.pieces).2.items = f.tape.items := by
  rw [(Front.after_items _ _).2]
  cases h : f.reader.pieces.flatMap Piece.items with
  | nil => exact h.symm
  | cons i is =>
    have hi : Item.passes (fun _ => false) i = false := by cases i <;> rfl
    rw [List.dropWhile_cons, hi]
    exact h.symm

theorem observe_peek (f : Feed) : observe peek f = f.tape.peek := by
  have h := items_front f
  unfold observe peek Tape.peek
  rw [← h]
  split
  · rename_i b bs rest hf
    rw [hf, Feed.tape_settle]
    rfl
  · rename_i front hf
    rw [Feed.tape_settle]
    cases hc : (Front.after (fun _ => false) f.reader.pieces).2 with
    | byte b bs rest => exact absurd hc (hf b bs rest)
    | failed e rest => rfl
    | bare => rfl

theorem observe_nextIf (p : UInt8 → Bool) (f : Feed) : observe (nextIf p) f = f.tape.nextIf p := by
  have h := items_front f
  unfold observe nextIf Tape.nextIf
  cases hc : (Front.after (fun _ => false) f.reader.pieces).2 with
  | byte b bs rest =>
    rw [hc, Front.items, List.cons_append] at h
    rw [← h]
    by_cases hb : p b = true
    · simp [hb, Feed.tape, Reader.items, Piece.items]
    · simp [hb, Feed.tape_settle, Front.items, Tape.settle_of_byte h.symm]
  | failed e rest => rw [hc] at h; rw [← h]; simp only [Feed.tape_settle]; rfl
  | bare => rw [hc] at h; rw [← h]; simp only [Feed.tape_settle]; rfl

/-- **A run of bytes is a loop of single tests**, each of which reads anew and may fail. -/
theorem takeWhile_eq_loop (p : UInt8 → Bool) :
    takeWhile p = do
      match ← nextIf p with
      | none => return []
      | some b => return b :: (← takeWhile p) := by
  funext f
  have h := Front.after_eq p f.reader.pieces
  simp only [bind_apply, takeWhile, nextIf]
  rw [h]
  cases hc : (Front.after (fun _ => false) f.reader.pieces).2 with
  | byte b bs rest =>
    by_cases hb : p b = true
    · simp only [hb, ↓reduceIte, bind_apply, pure_apply, takeWhile, Feed.settle_pieces]
    · simp [hb]
  | failed e rest => simp
  | bare => simp

theorem observe_report (e : Event) (f : Feed) : observe (report e) f = ((), { f.tape with log := f.log ++ [e] }) :=
  rfl

end Scanner

end CallSurface
