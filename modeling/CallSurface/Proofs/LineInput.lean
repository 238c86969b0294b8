/-
Reading standard input line by line.

`linesOf` cuts a byte string behind every line feed; `flatMap_linesOf` puts it together again. A reader that hands out a
byte string and then ends, after one failing read at most (`Reader.EndsAfter`), gives the first of these lines to
`Scanner.line` and keeps the others (`Scanner.line_of_firstLine`). On a machine with room for its input
(`Machine.Reading`), a line comes back in a fresh array (`Machine.Reading.inputLine_cons`), and at the end of the input
the array is null (`Machine.Reading.inputLine_nil`). Runs of calls follow by induction on their number.

Main result: `input_string_splits_lines`.
-/
import CallSurface.Program
import CallSurface.Proofs.Allocation
import CallSurface.Proofs.Tape
import CallSurface.Proofs.TypedSurface

namespace CallSurface

/-! ## Lines of a byte string -/

/-- cuts bytes behind every line feed, and drops the line feeds -/
def linesOf : Bytes → List Bytes
  | [] => []
  | b :: s =>
    if b = 10 then [] :: linesOf s
    else match linesOf s with
      | [] => [[b]]
      | line :: lines => (b :: line) :: lines

theorem linesOf_ne_nil {s : Bytes} (hs : s ≠ []) : linesOf s ≠ [] := by
  cases s with
  | nil => exact absurd rfl hs
  | cons b s =>
    unfold linesOf
    split_ifs
    · simp
    · split <;> simp

theorem linesOf_of_notMem {s : Bytes} (hs : s ≠ []) (hfeed : 10 ∉ s) : linesOf s = [s] := by
  induction s with
  | nil => exact absurd rfl hs
  | cons b s ih =>
    obtain ⟨hb, hfeed⟩ := not_or.1 (mt List.mem_cons.2 hfeed)
    rw [linesOf, if_neg (Ne.symm hb)]
    by_cases hnil : s = []
    · rw [hnil]
      rfl
    · rw [ih hnil hfeed]

theorem linesOf_append {line : Bytes} (hline : 10 ∉ line) (rest : Bytes) :
    linesOf (line ++ 10 :: rest) = line :: linesOf rest := by
  induction line with
  | nil => rfl
  | cons b line ih =>
    obtain ⟨hb, hline⟩ := not_or.1 (mt List.mem_cons.2 hline)
    rw [List.cons_append, linesOf, if_neg (Ne.symm hb), ih hline]

/-- the first line of a byte string and the rest behind it: a line feed stands between them, or there is none any more -/
structure FirstLine (s line rest : Bytes) : Prop where
  notMem : 10 ∉ line
  split : s = line ++ 10 :: rest ∨ s = line ∧ line ≠ [] ∧ rest = []
  lines : linesOf s = line :: linesOf rest

theorem exists_firstLine {s : Bytes} (hs : s ≠ []) : ∃ line rest, FirstLine s line rest := by
  by_cases hfeed : 10 ∈ s
  · obtain ⟨line, rest, rfl, hline⟩ := List.eq_append_cons_of_mem hfeed
    exact ⟨line, rest, hline, Or.inl rfl, linesOf_append hline rest⟩
  · exact ⟨s, [], hfeed, Or.inr ⟨rfl, hs, rfl⟩, linesOf_of_notMem hs hfeed⟩

theorem notMem_of_mem_linesOf {s l : Bytes} (hl : l ∈ linesOf s) : 10 ∉ l := by
  induction s generalizing l with
  | nil => cases hl
  | cons b s ih =>
    rw [linesOf] at hl
    split_ifs at hl with hb
    · rcases List.mem_cons.1 hl with rfl | hl
      · exact List.not_mem_nil
      · exact ih hl
    · cases hlines : linesOf s with
      | nil =>
        rw [hlines] at hl
        rw [List.mem_singleton.1 hl, List.mem_singleton]
        exact Ne.symm hb
      | cons line lines =>
        rw [hlines] at hl ih
        rcases List.mem_cons.1 hl with rfl | hl
        · intro hmem
          rcases List.mem_cons.1 hmem with hb' | hmem
          · exact hb hb'.symm
          · exact ih List.mem_cons_self hmem
        · exact ih (List.mem_cons_of_mem _ hl)

/-- **No byte is lost or added**, except that the last line gets a line feed where it has none -/
theorem flatMap_linesOf (s : Bytes) :
    (linesOf s).flatMap (· ++ [10]) = if s = [] ∨ s.getLast? = some 10 then s else s ++ [10] := by
  induction s with
  | nil => rfl
  | cons b s ih =>
    by_cases hs : s = []
    · subst hs
      by_cases hb : b = 10
      · simp [linesOf, hb]
      · simp [linesOf, hb]
    · have hlast : (b :: s).getLast? = s.getLast? := by
        rw [List.getLast?_cons, List.getLast?_eq_some_getLast hs]
        rfl
      have htail : (linesOf (b :: s)).flatMap (· ++ [10]) = b :: (linesOf s).flatMap (· ++ [10]) := by
        by_cases hb : b = 10
        · simp [linesOf, hb]
        · obtain ⟨line, lines, hlines⟩ := List.exists_cons_of_ne_nil (linesOf_ne_nil hs)
          simp [linesOf, hb, hlines]
      rw [htail, ih, hlast]
      by_cases hfeed : s.getLast? = some 10
      · simp [hfeed]
      · simp [hs, hfeed]

/-! ## One line from a reader -/

/-- the reader hands out these bytes and then ends, after one failing read at most -/
def Reader.EndsAfter (r : Reader) (s : Bytes) : Prop :=
  (∃ e : Option SystemError, r.items = s.map .byte ++ (e.map Item.failure).toList) ∧ r.broken = none

theorem Reader.endsAfter_ofStdin (s : Bytes) {last : StdinEnd} (hlast : last ≠ .directory) :
    (ofStdin s last).EndsAfter s := by
  cases last with
  | endOfFile => exact ⟨⟨none, rfl⟩, rfl⟩
  | reset => exact ⟨⟨some .connectionReset, rfl⟩, rfl⟩
  | directory => exact absurd rfl hlast

/-- a walk over bytes without a line feed stops where they end, unless more bytes of the line follow -/
theorem Front.after_of_notMem {ps : List Piece} {line : Bytes} (hline : 10 ∉ line) {behind : List Item}
    (h : ps.flatMap Piece.items = line.map .byte ++ behind)
    (hstop : ∀ i ∈ behind.head?, Item.passes (· != 10) i = false) :
    (after (· != 10) ps).1 = line ∧ (after (· != 10) ps).2.items = behind := by
  have hpasses : ∀ i ∈ line.map Item.byte, Item.passes (· != 10) i = true := by
    apply Item.passes_of_mem_map
    intro b hb
    simp only [bne_iff_ne, ne_eq]
    rintro rfl
    exact hline hb
  have hstop' : behind.takeWhile (Item.passes (· != 10)) = [] ∧ behind.dropWhile (Item.passes (· != 10)) = behind := by
    cases behind with
    | nil => exact ⟨rfl, rfl⟩
    | cons i behind => simp [hstop i rfl]
  obtain ⟨hrun, hfront⟩ := after_items (· != 10) ps
  rw [h, List.takeWhile_append_of_pos hpasses, hstop'.1, List.append_nil] at hrun
  rw [h, List.dropWhile_append_of_pos hpasses, hstop'.2] at hfront
  have hbytes := congrArg (List.filterMap Item.byte?) hrun
  rw [Item.filterMap_byte?_map, Item.filterMap_byte?_map] at hbytes
  exact ⟨hbytes, hfront⟩

namespace Scanner

variable {f : Feed} {s line rest : Bytes}

/-- a line feed ends the line and is taken with it -/
theorem takeLine_of_feed (hline : 10 ∉ line) (h : f.reader.EndsAfter (line ++ 10 :: rest)) :
    (takeLine f).1 = line ++ [10] ∧ (takeLine f).2.reader.EndsAfter rest := by
  obtain ⟨⟨e, hitems⟩, hbroken⟩ := h
  rw [List.map_append, List.map_cons, List.append_assoc, List.cons_append] at hitems
  obtain ⟨hrun, hfront⟩ := Front.after_of_notMem hline hitems (by simp [Item.passes])
  unfold takeLine
  cases hafter : Front.after (· != 10) f.reader.pieces with
  | mk run front =>
    rw [hafter] at hrun hfront
    cases front with
    | byte b bs ps =>
      obtain ⟨hb, hbehind⟩ := List.cons.inj hfront
      obtain rfl : run = line := hrun
      obtain rfl : b = 10 := Item.byte.inj hb
      exact ⟨rfl, ⟨e, hbehind⟩, hbroken⟩
    | failed cause ps => cases hfront
    | bare => cases hfront

/-- where no line feed comes, the line goes as far as the input, and a failing read behind it is used up -/
theorem takeLine_of_end (hline : 10 ∉ line) (h : f.reader.EndsAfter line) :
    (takeLine f).1 = line ∧ (takeLine f).2.reader.EndsAfter [] := by
  obtain ⟨⟨e, hitems⟩, hbroken⟩ := h
  have hstop : ∀ i ∈ (e.map Item.failure).toList.head?, Item.passes (· != 10) i = false := by
    intro i hi
    cases e with
    | none => cases hi
    | some cause =>
      obtain rfl := Option.some.inj hi
      rfl
  obtain ⟨hrun, hfront⟩ := Front.after_of_notMem hline hitems hstop
  unfold takeLine
  cases hafter : Front.after (· != 10) f.reader.pieces with
  | mk run front =>
    rw [hafter] at hrun hfront
    cases front with
    | byte b bs ps => cases e <;> cases hfront
    | failed cause ps =>
      cases e with
      | none => cases hfront
      | some cause' =>
        obtain ⟨-, hbehind⟩ := List.cons.inj hfront
        exact ⟨hrun, ⟨none, hbehind⟩, hbroken⟩
    | bare => exact ⟨hrun, ⟨none, rfl⟩, hbroken⟩

/-- **One line is read**, and the lines behind it stay in the reader. -/
theorem line_of_firstLine (hfirst : FirstLine s line rest) (h : f.reader.EndsAfter s) :
    (Scanner.line f).1 = some line ∧ (Scanner.line f).2.reader.EndsAfter rest := by
  have hlast : line.getLast? ≠ some 10 := fun hmem => hfirst.notMem (List.mem_of_getLast? hmem)
  rcases hfirst.split with rfl | ⟨rfl, hne, rfl⟩
  · obtain ⟨hvalue, hrest⟩ := takeLine_of_feed hfirst.notMem h
    simp [Scanner.line, hvalue, hrest]
  · obtain ⟨hvalue, hrest⟩ := takeLine_of_end hfirst.notMem h
    simp [Scanner.line, hvalue, hrest, hne, hlast]

theorem line_of_nil (h : f.reader.EndsAfter []) :
    (Scanner.line f).1 = none ∧ (Scanner.line f).2.reader.EndsAfter [] := by
  obtain ⟨hvalue, hrest⟩ := takeLine_of_end List.not_mem_nil h
  simp [Scanner.line, hvalue, hrest]

end Scanner

/-! ## One line on a machine -/

/-- the addresses that the lines of a byte string take, each with a NUL behind it -/
def lineRoom (s : Bytes) : Nat :=
  ((linesOf s).map fun line => line.length + 1).sum

theorem lineRoom_le (s : Bytes) : lineRoom s ≤ s.length + 1 := by
  have hlength : lineRoom s = ((linesOf s).flatMap (· ++ [10])).length := by simp [lineRoom, List.length_flatMap]
  rw [hlength, flatMap_linesOf]
  split_ifs
  · omega
  · simp

namespace Machine

/-- the bytes `s` are to be read, and the allocator has room for their lines beside the blocks it has placed -/
structure Reading (m : Machine) (s : Bytes) (n : Nat) : Prop where
  sound : m.heap.allocator.Sound
  supplies : m.heap.allocator.Supplies n
  placed : m.heap.allocator.Placed m.heap.blocks
  input : m.stdin.EndsAfter s
  room : (m.heap.blocks.map Block.footprint).sum + lineRoom s ≤ n

theorem reading_start {a : Allocator} (ha : a.Sound) {s : Bytes} (hroom : a.Supplies (s.length + 1)) {last : StdinEnd}
    (hlast : last ≠ .directory) (full : Bool) : (start a s last full).Reading s (s.length + 1) where
  sound := ha
  supplies := hroom
  placed := .nil
  input := Reader.endsAfter_ofStdin s hlast
  room := by
    have hlines := lineRoom_le s
    simpa [start, Heap.empty] using hlines

namespace Reading

variable {m : Machine} {s line rest : Bytes} {n : Nat}

/-- at the end of the input the null array comes back, and nothing is allocated -/
theorem inputLine_nil (h : m.Reading [] n) (step : Nat) :
    ∃ log m', m.inputLine step = .returned ⟨.chars .null, [], log⟩ m' ∧ m'.Reading [] n ∧ m'.heap = m.heap := by
  obtain ⟨hvalue, hrest⟩ := Scanner.line_of_nil (f := ⟨m.stdin, []⟩) h.input
  refine ⟨(m.scan Scanner.line).2.log, { m with stdin := (m.scan Scanner.line).2.reader }, ?_, ?_, rfl⟩
  · simp only [inputLine, scan, hvalue]
  · exact ⟨h.sound, h.supplies, h.placed, hrest, h.room⟩

/-- a line comes back in a fresh array with a NUL behind it, and the lines behind it are still to be read -/
theorem inputLine_cons (h : m.Reading s n) (hfirst : FirstLine s line rest) (step : Nat) :
    ∃ c log m', m.inputLine step = .returned ⟨.chars c, [], log⟩ m' ∧ m'.Reading rest n ∧ m'.stdout = m.stdout ∧
      m'.heap.live = m.heap.live + 1 ∧ c.isNull = false ∧ c.length.toNat = line.length + 1 ∧
      m'.heap.bytesOf c = some (line ++ [0]) := by
  obtain ⟨hvalue, hrest⟩ := Scanner.line_of_firstLine (f := ⟨m.stdin, []⟩) hfirst h.input
  have hsum : lineRoom s = line.length + 1 + lineRoom rest := by simp [lineRoom, hfirst.lines]
  have hroom := h.room
  obtain ⟨base, hplace⟩ := h.supplies h.placed step (line.length + 1) (by omega)
  obtain ⟨c, heap, hnew, hheap, hnull, hlength, hbytes⟩ :=
    (Heap.Orderly.of_placed h.sound h.placed).newCharArray h.sound hplace
  refine ⟨c, (m.scan Scanner.line).2.log, { m with stdin := (m.scan Scanner.line).2.reader, heap }, ?_, ?_, rfl, ?_,
    hnull, hlength, hbytes⟩
  · simp only [inputLine, scan, hvalue, hnew]
  · subst hheap
    refine ⟨h.sound, h.supplies, .cons h.placed hplace, hrest, ?_⟩
    simp only [List.map_cons, List.sum_cons, Block.footprint]
    omega
  · subst hheap
    rfl

end Reading

end Machine

/-! ## Reading all lines -/

theorem perform_inputLine (m : Machine) (results : List Value) :
    (Step.call "__ext_input_string" []).perform m results = m.inputLine results.length := by
  have hname : Symbol.name .inputLine = "__ext_input_string" := by decide
  rw [← hname, perform_call (by decide) rfl]
  rfl

/-- calls for a line, one after the other -/
def readLines (n : Nat) : List Step :=
  List.replicate n (.call "__ext_input_string" [])

/-- how an observer sees the array of a line: not null, and with a NUL behind the line -/
def lineView (line : Bytes) : View :=
  .chars false (line.length + 1) (line ++ [0])

/-- how an observer sees the null array -/
def nullView : View :=
  .chars true 0 []

theorem view_null (h : Heap) : h.view (.chars .null) = some nullView :=
  rfl

theorem view_line {h : Heap} {c : CharArray} {line : Bytes} (hnull : c.isNull = false)
    (hlength : c.length.toNat = line.length + 1) (hbytes : h.bytesOf c = some (line ++ [0])) :
    h.view (.chars c) = some (lineView line) := by
  rw [Heap.view, hbytes, hnull, hlength]
  rfl

/-- the result of a step that returned comes first, and the run goes on behind it -/
theorem runFrom_cons {m m' : Machine} {results : List Value} {s : Step} {r : Reply} {v : View}
    (hstep : s.perform m results = .returned r m') (hview : m'.heap.view r.value = some v) (steps : List Step) :
    Program.runFrom m results (s :: steps) =
      { Program.runFrom m' (results ++ [r.value]) steps with
        reports := ⟨v, r.output, r.log⟩ :: (Program.runFrom m' (results ++ [r.value]) steps).reports } := by
  simp only [Program.runFrom, hstep, hview]

/-- **Calls for a line give the lines in order, and null arrays behind them**, and each line takes one block. -/
theorem runFrom_readLines {m : Machine} {s : Bytes} {n : Nat} (h : m.Reading s n) (results : List Value) (k : Nat) :
    (Program.runFrom m results (readLines k)).ending = .finished ∧
    (Program.runFrom m results (readLines k)).reports.map Report.result =
      ((linesOf s).take k).map lineView ++ List.replicate (k - (linesOf s).length) nullView ∧
    (Program.runFrom m results (readLines k)).machine.heap.live = m.heap.live + min k (linesOf s).length := by
  induction k generalizing m s results with
  | zero => simp [readLines, Program.runFrom]
  | succ k ih =>
    have hsteps : readLines (k + 1) = .call "__ext_input_string" [] :: readLines k := List.replicate_succ
    rw [hsteps]
    by_cases hs : s = []
    · subst hs
      obtain ⟨log, m', hstep, h', hheap⟩ := h.inputLine_nil results.length
      rw [← perform_inputLine] at hstep
      obtain ⟨hending, hresults, hlive⟩ := ih h' (results ++ [.chars .null])
      rw [runFrom_cons hstep (view_null m'.heap)]
      refine ⟨hending, ?_, ?_⟩
      · simp only [List.map_cons, hresults, linesOf, List.take_nil, List.map_nil, List.nil_append, List.length_nil,
          Nat.sub_zero, List.replicate_succ]
      · simp only [hlive, hheap]
        simp [linesOf]
    · obtain ⟨line, rest, hfirst⟩ := exists_firstLine hs
      obtain ⟨c, log, m', hstep, h', -, hheap, hnull, hlength, hbytes⟩ := h.inputLine_cons hfirst results.length
      rw [← perform_inputLine] at hstep
      obtain ⟨hending, hresults, hlive⟩ := ih h' (results ++ [.chars c])
      rw [runFrom_cons hstep (view_line hnull hlength hbytes), hfirst.lines]
      refine ⟨hending, ?_, ?_⟩
      · simp only [List.map_cons, hresults, List.take_succ_cons, List.length_cons, Nat.add_sub_add_right, List.cons_append]
      · simp only [hlive, hheap, List.length_cons]
        omega

/-! ## Printing the lines again -/

/-- reads a line and prints it, as often as it says; `k` steps come before -/
def echoLines (k : Nat) : Nat → List Step
  | 0 => []
  | n + 1 =>
    .call "__ext_input_string" [] :: .call "__ext_println_char_arr" [.result k] :: echoLines (k + 2) n

theorem perform_printlnChars {m : Machine} {results : List Value} {x : Arg} {c : CharArray} {bytes : Bytes}
    (hx : x.resolve results = some (.chars c)) (hbytes : m.heap.bytesOf c = some bytes) :
    (Step.call "__ext_println_char_arr" [x]).perform m results = m.print [CharArray.textOf bytes, [10]] := by
  have hname : Symbol.name .printlnChars = "__ext_println_char_arr" := by decide
  have hargs : [x].mapM (Arg.resolve results) = some [.chars c] := by simp [hx]
  rw [← hname, perform_call (by decide) hargs]
  simp only [Machine.call, hbytes]

/-- on a working device all pieces are written -/
theorem print_working {m : Machine} (hfull : m.stdout.full = false) (pieces : List Bytes) :
    m.print pieces = .returned ⟨.void, pieces.flatten, []⟩ m := by
  simp [Machine.print, Stdout.print, hfull]

/-- the NUL behind a line does not show in its text -/
theorem textOf_append_nul (line : Bytes) : CharArray.textOf (line ++ [0]) = line.takeWhile (· != 0) := by
  induction line with
  | nil => rfl
  | cons b line ih =>
    by_cases hb : b = 0
    · simp [CharArray.textOf, hb]
    · simpa [CharArray.textOf, hb] using ih

/-- **Each line that is read and printed comes out cut at its first NUL, with a line feed behind it.** -/
theorem runFrom_echoLines {m : Machine} {s : Bytes} {n : Nat} (h : m.Reading s n) (hfull : m.stdout.full = false)
    (results : List Value) {k : Nat} (hk : k ≤ (linesOf s).length) :
    (Program.runFrom m results (echoLines results.length k)).ending = .finished ∧
    (Program.runFrom m results (echoLines results.length k)).reports.map Report.output =
      ((linesOf s).take k).flatMap fun l => [[], l.takeWhile (· != 0) ++ [10]] := by
  induction k generalizing m s results with
  | zero => simp [echoLines, Program.runFrom]
  | succ k ih =>
    have hs : s ≠ [] := by
      rintro rfl
      simp [linesOf] at hk
    obtain ⟨line, rest, hfirst⟩ := exists_firstLine hs
    obtain ⟨c, log, m', hread, h', hstdout, -, hnull, hlength, hbytes⟩ := h.inputLine_cons hfirst results.length
    rw [← perform_inputLine] at hread
    have hresolve : (Arg.result results.length).resolve (results ++ [.chars c]) = some (.chars c) := by
      simp [Arg.resolve]
    have hprint := perform_printlnChars hresolve hbytes
    rw [print_working (hstdout ▸ hfull)] at hprint
    rw [hfirst.lines, List.length_cons] at hk
    obtain ⟨hending, houtput⟩ := ih h' (hstdout ▸ hfull) (results ++ [.chars c] ++ [.void]) (by omega)
    have hcount : (results ++ [Value.chars c] ++ [Value.void]).length = results.length + 2 := by simp
    rw [hcount] at hending houtput
    rw [echoLines, runFrom_cons hread (view_line hnull hlength hbytes), runFrom_cons hprint rfl, hfirst.lines]
    refine ⟨hending, ?_⟩
    simp only [List.map_cons, houtput, textOf_append_nul, List.take_succ_cons, List.flatMap_cons]
    simp

/-- a text without NUL comes out as its lines, each with a line feed -/
theorem flatten_echo {s : Bytes} (hnul : 0 ∉ s) :
    ((linesOf s).flatMap fun l => [[], l.takeWhile (· != 0) ++ [10]]).flatten = (linesOf s).flatMap (· ++ [10]) := by
  have hwhole : ∀ l ∈ linesOf s, l.takeWhile (· != 0) = l := by
    intro l hl
    rw [List.takeWhile_eq_self_iff]
    intro b hb
    simp only [bne_iff_ne, ne_eq]
    rintro rfl
    have hmem : 0 ∈ (linesOf s).flatMap (· ++ [10]) :=
      List.mem_flatMap.2 ⟨l, hl, List.mem_append_left _ hb⟩
    rw [flatMap_linesOf] at hmem
    split_ifs at hmem
    · exact hnul hmem
    · rcases List.mem_append.1 hmem with hmem | hmem
      · exact hnul hmem
      · simp at hmem
  rw [← List.flatMap_id, List.flatMap_assoc]
  apply List.flatMap_congr
  intro l hl
  simp [hwhole l hl]

/-! ## Main result -/

/-- **Line input splits standard input exactly.** Let the bytes `s` come on standard input, with the end of the file or one
failing read behind them, and let memory have room for them. Then the lines of `s` hold no line feed, and put together,
each with a line feed, they are `s` again, with a line feed added where the last line has none. Calls for a line give
these lines in order, each as an array that is one byte longer and ends in NUL, and from then on null arrays; each line
takes one block. Printing the arrays writes each line up to its first NUL with a line feed behind it, which is `s` again
if `s` is made of whole lines without NUL. -/
theorem input_string_splits_lines {a : Allocator} (ha : a.Sound) (s : Bytes) (hroom : a.Supplies (s.length + 1))
    {last : StdinEnd} (hlast : last ≠ .directory) :
    (∀ l ∈ linesOf s, 10 ∉ l) ∧
    (linesOf s).flatMap (· ++ [10]) = (if s = [] ∨ s.getLast? = some 10 then s else s ++ [10]) ∧
    (∀ full k,
      let run := Program.run (.start a s last full) (readLines k)
      run.ending = .finished ∧
      run.reports.map Report.result =
        ((linesOf s).take k).map lineView ++ List.replicate (k - (linesOf s).length) nullView ∧
      run.machine.heap.live = min k (linesOf s).length) ∧
    (∀ k ≤ (linesOf s).length,
      let run := Program.run (.start a s last false) (echoLines 0 k)
      run.ending = .finished ∧
      run.reports.map Report.output = ((linesOf s).take k).flatMap fun l => [[], l.takeWhile (· != 0) ++ [10]]) ∧
    (0 ∉ s → s = [] ∨ s.getLast? = some 10 →
      ((Program.run (.start a s last false) (echoLines 0 (linesOf s).length)).reports.map Report.output).flatten = s) := by
  have hreading := Machine.reading_start ha hroom hlast
  have hecho := fun k (hk : k ≤ (linesOf s).length) => runFrom_echoLines (hreading false) rfl [] hk
  refine ⟨fun l => notMem_of_mem_linesOf, flatMap_linesOf s, ?_, hecho, ?_⟩
  · intro full k
    obtain ⟨hending, hresults, hlive⟩ := runFrom_readLines (hreading full) [] k
    refine ⟨hending, hresults, ?_⟩
    rw [Program.run, hlive]
    exact Nat.zero_add _
  · intro hnul hwhole
    obtain ⟨-, houtput⟩ := hecho (linesOf s).length le_rfl
    rw [List.take_length] at houtput
    calc ((Program.run (.start a s last false) (echoLines 0 (linesOf s).length)).reports.map Report.output).flatten
        = ((linesOf s).flatMap fun l => [[], l.takeWhile (· != 0) ++ [10]]).flatten := congrArg List.flatten houtput
      _ = (linesOf s).flatMap (· ++ [10]) := flatten_echo hnul
      _ = s := by rw [flatMap_linesOf, if_pos hwhole]

/-- an empty line, a NUL inside a line, and a failing read behind a line that has no line feed -/
theorem input_string_splits_lines_reset :
    let s : Bytes := [97, 10, 10, 98, 0, 99]
    Allocator.ascending.Sound ∧ Allocator.ascending.Supplies (s.length + 1) ∧ StdinEnd.reset ≠ .directory ∧
    (Program.run (.start .ascending s .reset true) (readLines 5)).reports.map Report.result =
      [lineView [97], lineView [], lineView [98, 0, 99], nullView, nullView] ∧
    (Program.run (.start .ascending s .reset true) (readLines 5)).machine.heap.live = 3 ∧
    (Program.run (.start .ascending s .reset false) (echoLines 0 3)).reports.map Report.output =
      [[], [97, 10], [], [10], [], [98, 10]] := by
  intro s
  have hsupplies : Allocator.ascending.Supplies (s.length + 1) := Allocator.ascending_supplies (by decide)
  have hlast : StdinEnd.reset ≠ .directory := by decide
  obtain ⟨-, -, hread, hecho, -⟩ := input_string_splits_lines Allocator.ascending_sound s hsupplies hlast
  obtain ⟨-, hresults, hlive⟩ := hread true 5
  exact ⟨Allocator.ascending_sound, hsupplies, hlast, hresults, hlive, (hecho 3 (by decide)).2⟩

end CallSurface
