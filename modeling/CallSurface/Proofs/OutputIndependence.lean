/-
A failing standard output never changes what a program computes.

Two machines are alike if they differ in standard output only (`Machine.Alike`). Whatever a step does on one of them it
does on the other, up to what is written and to the warnings that writing or flushing has failed (`Outcome.Agree`): no
call asks whether its output has arrived, and a failing flush before a read consumes no input. So the two machines stay
alike (`perform_agree`), and whole runs agree step by step (`runFrom_agree`).

Main result: `run_full_agrees_working`.
-/
import CallSurface.Program
import Mathlib.Tactic

namespace CallSurface

/-! ## What two runs may differ in -/

/-- a warning that output could not be written or flushed -/
def Event.isOutputWarning : Event → Bool
  | writeFailed _ | flushFailed _ => true
  | _ => false

/-- a log without its output warnings -/
def withoutWarnings (log : List Event) : List Event :=
  log.filter (!·.isOutputWarning)

/-- an ending with the output warnings of an exit left out -/
def Ending.withoutWarnings : Ending → Ending
  | exited status log => exited status (CallSurface.withoutWarnings log)
  | e => e

/-- machines that differ in standard output only -/
structure Machine.Alike (m n : Machine) : Prop where
  stdin : m.stdin = n.stdin
  heap : m.heap = n.heap

/-- the same result or ending, and the same log apart from output warnings -/
inductive Outcome.Agree : Outcome → Outcome → Prop
  | returned {r s : Reply} {m n : Machine} (value : r.value = s.value)
      (log : withoutWarnings r.log = withoutWarnings s.log) (machine : m.Alike n) : Agree (.returned r m) (.returned s n)
  | ended {e f : Ending} (ending : e.withoutWarnings = f.withoutWarnings) : Agree (.ended e) (.ended f)

theorem withoutWarnings_append (a b : List Event) : withoutWarnings (a ++ b) = withoutWarnings a ++ withoutWarnings b :=
  List.filter_append a b

theorem Outcome.agree_ended (e : Ending) : Agree (.ended e) (.ended e) :=
  .ended rfl

/-! ## Standard output -/

namespace Stdout

/-- all that a print logs is output warnings -/
theorem withoutWarnings_print (o : Stdout) (pieces : List Bytes) : withoutWarnings (o.print pieces).2.1 = [] := by
  unfold print
  split_ifs
  · rfl
  · cases pieces.find? (!·.isEmpty) with
    | none => rfl
    | some piece => rfl
  · rfl

theorem withoutWarnings_flush (o : Stdout) : withoutWarnings o.flush = [] := by
  unfold flush
  split_ifs
  · rfl
  · rfl

end Stdout

/-! ## One call on two machines -/

namespace Machine

variable {m n : Machine}

theorem print_eq (m : Machine) (pieces : List Bytes) :
    m.print pieces = .returned ⟨.void, (m.stdout.print pieces).1, (m.stdout.print pieces).2.1⟩
      { m with stdout := (m.stdout.print pieces).2.2 } :=
  rfl

theorem print_agree (h : m.Alike n) (pieces : List Bytes) : (m.print pieces).Agree (n.print pieces) := by
  have hlog : withoutWarnings (m.stdout.print pieces).2.1 = withoutWarnings (n.stdout.print pieces).2.1 := by
    rw [Stdout.withoutWarnings_print, Stdout.withoutWarnings_print]
  rw [print_eq, print_eq]
  exact .returned rfl hlog ⟨h.stdin, h.heap⟩

/-- a read sees the same input on both machines, and the flush before it adds nothing but warnings -/
theorem scan_agree {α : Type} (h : m.Alike n) (s : Scanner α) :
    (m.scan s).1 = (n.scan s).1 ∧ (m.scan s).2.reader = (n.scan s).2.reader ∧
      withoutWarnings (m.scan s).2.log = withoutWarnings (n.scan s).2.log := by
  simp only [scan, withoutWarnings_append, Stdout.withoutWarnings_flush, List.nil_append, h.stdin, and_self]

theorem input_agree (h : m.Alike n) (k : Kind) : (m.input k).Agree (n.input k) := by
  obtain ⟨hvalue, hreader, hlog⟩ := scan_agree h (Scanner.scalar k)
  refine .returned ?_ hlog ⟨hreader, h.heap⟩
  exact congrArg (fun v => Value.scalar (v.getD (.zero k))) hvalue

theorem inputLine_agree (h : m.Alike n) (step : Nat) : (m.inputLine step).Agree (n.inputLine step) := by
  obtain ⟨hvalue, hreader, hlog⟩ := scan_agree h Scanner.line
  unfold inputLine
  cases hm : m.scan Scanner.line with
  | mk line f =>
    cases hn : n.scan Scanner.line with
    | mk line' g =>
      rw [hm, hn] at hvalue hreader hlog
      obtain rfl : line = line' := hvalue
      rw [← h.heap]
      cases line with
      | none => exact .returned rfl hlog ⟨hreader, rfl⟩
      | some bytes =>
        cases hnew : m.heap.newCharArray step bytes with
        | none =>
          simp only [hnew]
          refine .returned rfl ?_ ⟨hreader, rfl⟩
          rw [withoutWarnings_append, withoutWarnings_append, hlog]
        | some c =>
          simp only [hnew]
          exact .returned rfl hlog ⟨hreader, rfl⟩

theorem malloc_agree (h : m.Alike n) (step size : Nat) : (m.malloc step size).Agree (n.malloc step size) := by
  unfold malloc
  rw [← h.heap]
  cases m.heap.allocate step size (m.heap.allocator.leftover step m.heap.blocks size) with
  | none => exact .returned rfl rfl h
  | some p => exact .returned rfl rfl ⟨h.stdin, rfl⟩

theorem free_agree (h : m.Alike n) (a : Address) : (m.free a).Agree (n.free a) := by
  unfold free
  rw [← h.heap]
  split_ifs
  · exact .returned rfl rfl h
  · cases m.heap.free a with
    | none => exact Outcome.agree_ended _
    | some heap => exact .returned rfl rfl ⟨h.stdin, rfl⟩

/-- the flush of an exit adds nothing but warnings to its log -/
theorem exit_agree (code : Int) : (m.exit code).Agree (n.exit code) := by
  have hlog (m : Machine) : withoutWarnings (.exit code :: m.stdout.flush) = [.exit code] := by
    rw [← List.singleton_append, withoutWarnings_append, Stdout.withoutWarnings_flush]
    rfl
  refine .ended ?_
  simp only [Ending.withoutWarnings, hlog]

theorem compute_agree (h : m.Alike n) (s : Symbol) (args : List Value) : (m.compute s args).Agree (n.compute s args) := by
  unfold compute
  split
  · exact .returned rfl rfl h
  · exact Outcome.agree_ended _
  · exact Outcome.agree_ended _

theorem call_agree (h : m.Alike n) (step : Nat) (s : Symbol) (args : List Value) :
    (m.call step s args).Agree (n.call step s args) := by
  unfold call
  rw [← h.heap]
  split
  · split_ifs
    · exact print_agree h _
    · exact Outcome.agree_ended _
  · split_ifs
    · exact print_agree h _
    · exact Outcome.agree_ended _
  · split
    · exact print_agree h _
    · exact Outcome.agree_ended _
  · split
    · exact print_agree h _
    · exact Outcome.agree_ended _
  · exact input_agree h _
  · exact inputLine_agree h step
  · exact malloc_agree h step _
  · exact free_agree h _
  · exact .returned rfl rfl h
  · exact .returned rfl rfl h
  · exact exit_agree _
  · exact compute_agree h _ _
  · exact compute_agree h _ _
  · exact Outcome.agree_ended _

end Machine

/-! ## Steps and runs -/

theorem Step.give_agree {m n : Machine} (h : m.Alike n) (v : Option Value) : (give m v).Agree (give n v) := by
  cases v with
  | none => exact Outcome.agree_ended _
  | some v => exact .returned rfl rfl h

/-- **One step on two machines that are alike**: they stay alike -/
theorem Step.perform_agree {m n : Machine} (h : m.Alike n) (results : List Value) (s : Step) :
    (s.perform m results).Agree (s.perform n results) := by
  cases s with
  | call name args =>
    simp only [perform]
    split
    · exact Outcome.agree_ended _
    · split
      · exact Machine.call_agree h _ _ _
      · exact Outcome.agree_ended _
  | store target bytes =>
    simp only [perform, ← h.heap]
    split
    · exact .returned rfl rfl ⟨h.stdin, rfl⟩
    · exact Outcome.agree_ended _
  | load source =>
    simp only [perform, ← h.heap]
    split
    · exact .returned rfl rfl h
    · exact Outcome.agree_ended _
  | pair a length => exact give_agree h _
  | addressOf a => exact give_agree h _
  | lengthOf a => exact give_agree h _

/-- two runs that no observer of results, endings, input and heap can tell apart -/
structure Run.Agree (a b : Run) : Prop where
  results : a.reports.map Report.result = b.reports.map Report.result
  logs : a.reports.map (fun r => withoutWarnings r.log) = b.reports.map (fun r => withoutWarnings r.log)
  ending : a.ending.withoutWarnings = b.ending.withoutWarnings
  machine : a.machine.Alike b.machine

theorem Program.runFrom_agree {m n : Machine} (h : m.Alike n) (results : List Value) (steps : List Step) :
    (runFrom m results steps).Agree (runFrom n results steps) := by
  induction steps generalizing m n results with
  | nil => exact ⟨rfl, rfl, rfl, h⟩
  | cons s steps ih =>
    have hstep := s.perform_agree h results
    simp only [runFrom]
    cases hm : s.perform m results with
    | ended e =>
      cases hn : s.perform n results with
      | ended f =>
        rw [hm, hn] at hstep
        cases hstep with
        | ended hending => exact ⟨rfl, rfl, hending, h⟩
      | returned r n' =>
        rw [hm, hn] at hstep
        cases hstep
    | returned r m' =>
      cases hn : s.perform n results with
      | ended f =>
        rw [hm, hn] at hstep
        cases hstep
      | returned r' n' =>
        rw [hm, hn] at hstep
        cases hstep with
        | returned hvalue hlog hmachine =>
          -- the result looks the same on both heaps, for they are one
          simp only [← hmachine.heap, ← hvalue]
          cases m'.heap.view r.value with
          | none => exact ⟨rfl, rfl, rfl, hmachine⟩
          | some v =>
            have hrest := ih hmachine (results ++ [r.value])
            refine ⟨?_, ?_, hrest.ending, hrest.machine⟩
            · simp only [List.map_cons, hrest.results]
            · simp only [List.map_cons, hlog, hrest.logs]

/-- **A failing standard output never changes what a program computes.** Whatever the program, the input and its end are,
a run on a full device and a run on a working one report the same number of steps with the same results, end in the same
way with the same trap, unknown name or exit status, leave the same input unread and the same number of blocks live, and
log the same events apart from the warnings that output could not be written or flushed. -/
theorem run_full_agrees_working (allocator : Allocator) (data : Bytes) (last : StdinEnd) (steps : List Step) :
    let full := Program.run (.start allocator data last true) steps
    let working := Program.run (.start allocator data last false) steps
    full.reports.length = working.reports.length ∧
      full.reports.map Report.result = working.reports.map Report.result ∧
      full.ending.withoutWarnings = working.ending.withoutWarnings ∧
      full.machine.stdin.unread = working.machine.stdin.unread ∧
      full.machine.heap.live = working.machine.heap.live ∧
      full.reports.map (fun r => withoutWarnings r.log) = working.reports.map (fun r => withoutWarnings r.log) := by
  intro full working
  have hstart : (Machine.start allocator data last true).Alike (.start allocator data last false) := ⟨rfl, rfl⟩
  have hrun : full.Agree working := Program.runFrom_agree hstart [] steps
  have hlength : full.reports.length = working.reports.length := by
    simpa using congrArg List.length hrun.results
  refine ⟨hlength, hrun.results, hrun.ending, ?_, ?_, hrun.logs⟩
  · rw [hrun.machine.stdin]
  · rw [hrun.machine.heap]

end CallSurface
